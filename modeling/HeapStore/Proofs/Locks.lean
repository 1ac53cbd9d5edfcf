import HeapStore.LockTable

/-!
# Owning a page

A transaction owns a page when its exclusive lock is the only lock on the
page (`LockTable.Owns`). This is what changing a page needs, and what a
granted exclusive lock gives (`owns_of_acquire?`). It lasts until the
owner gives the lock back: while it lasts, nobody else is granted anything
on the page (`Owns.acquire?_eq_none`), and grants and releases of other
locks leave it alone.
-/

namespace HeapStore

namespace LockTable

/-- The only lock on the page is an exclusive one of the transaction. -/
def Owns (table : LockTable) (txn : TxnId) (page : PageId) : Prop :=
  table.held page = [⟨txn, .exclusive⟩]

variable {table table' : LockTable} {txn other : TxnId} {page p : PageId} {mode : LockMode}

theorem held_of_acquire? (h : table.acquire? txn page mode = some table') (p : PageId) :
    ∃ grants, grant? (table.held page) txn mode = some grants
      ∧ table'.held p = if page = p then grants else table.held p := by
  obtain ⟨grants, hgrants, rfl⟩ := Option.map_eq_some_iff.1 h
  refine ⟨grants, hgrants, ?_⟩
  simp only [held, Std.ExtTreeMap.getElem?_insert, Std.LawfulEqCmp.compare_eq_iff_eq]
  split <;> rfl

theorem eq_of_grant?_exclusive {grants grants' : List Grant}
    (h : grant? grants txn .exclusive = some grants') : grants' = [⟨txn, .exclusive⟩] := by
  unfold grant? at h
  split at h
  · simpa using h.symm
  · rename_i held
    split at h
    · rename_i htxn
      obtain ⟨t, mode⟩ := held
      obtain rfl : t = txn := htxn
      cases mode <;> simpa using h.symm
    · simp at h
  · simp at h

theorem owns_of_acquire? (h : table.acquire? txn page .exclusive = some table') :
    table'.Owns txn page := by
  obtain ⟨grants, hgrants, hheld⟩ := held_of_acquire? h page
  rw [if_pos rfl] at hheld
  rw [Owns, hheld, eq_of_grant?_exclusive hgrants]

theorem mem_of_grant? {grants grants' : List Grant} (h : grant? grants txn mode = some grants') :
    ∃ grant ∈ grants', grant.txn = txn := by
  unfold grant? at h
  split at h
  · cases h
    exact ⟨_, List.mem_singleton_self _, rfl⟩
  · split at h
    · rename_i htxn
      split at h <;> cases h
      · exact ⟨_, List.mem_singleton_self _, rfl⟩
      · exact ⟨_, List.mem_singleton_self _, htxn⟩
    · split at h <;> cases h
      exact ⟨⟨txn, mode⟩, by simp, rfl⟩
  · split at h
    · cases h
    · split at h <;> cases h
      · rename_i hany
        simpa using hany
      · exact ⟨⟨txn, mode⟩, by simp, rfl⟩

/-- A request that is granted makes a holder. -/
theorem holds_of_acquire? (h : table.acquire? txn page mode = some table') :
    table'.holds txn page = true := by
  obtain ⟨grants, hgrants, hheld⟩ := held_of_acquire? h page
  obtain ⟨grant, hgrant, htxn⟩ := mem_of_grant? hgrants
  rw [holds, mode?, hheld, if_pos rfl, Option.isSome_map, List.find?_isSome]
  exact ⟨grant, hgrant, by simpa using htxn⟩

/-- What an owner asks for it has already. -/
theorem grant?_owner : grant? [⟨txn, .exclusive⟩] txn mode = some [⟨txn, .exclusive⟩] := by
  cases mode <;> simp [grant?]

theorem Owns.acquire?_eq_none (h : table.Owns txn page) (hne : other ≠ txn) :
    table.acquire? other page mode = none := by
  have hne' : txn ≠ other := fun heq => hne heq.symm
  simp [acquire?, show table.held page = _ from h, grant?, hne']

/-! ## What ends an ownership, and what does not -/

theorem Owns.acquire? (h : table.Owns txn p)
    (hacquire : table.acquire? other page mode = some table') : table'.Owns txn p := by
  obtain ⟨grants, hgrants, hheld⟩ := held_of_acquire? hacquire p
  by_cases hp : page = p
  · subst hp
    by_cases htxn : other = txn
    · subst htxn
      rw [show table.held page = _ from h, grant?_owner, Option.some.injEq] at hgrants
      rw [Owns, hheld, if_pos rfl, ← hgrants]
    · rw [h.acquire?_eq_none htxn] at hacquire
      cases hacquire
  · rw [Owns, hheld, if_neg hp]
    exact h

theorem Owns.release (h : table.Owns txn p) (hne : page = p → other ≠ txn) :
    (table.release other page).Owns txn p := by
  rw [Owns, held_release, show table.held p = _ from h]
  split
  · rename_i hp
    simp [(hne hp).symm]
  · rfl

theorem Owns.releaseAll (h : table.Owns txn p) (hne : other ≠ txn) :
    (table.releaseAll other).Owns txn p := by
  rw [Owns, held_releaseAll, show table.held p = _ from h]
  simp [hne.symm]

theorem Owns.mode? (h : table.Owns txn page) : table.mode? txn page = some .exclusive := by
  simp [LockTable.mode?, show table.held page = _ from h]

theorem Owns.holds (h : table.Owns txn page) : table.holds txn page = true := by
  simp [LockTable.holds, h.mode?]

theorem Owns.not_holds (h : table.Owns txn page) (hne : other ≠ txn) :
    table.holds other page = false := by
  simp [LockTable.holds, LockTable.mode?, show table.held page = _ from h, hne.symm]

end LockTable

end HeapStore
