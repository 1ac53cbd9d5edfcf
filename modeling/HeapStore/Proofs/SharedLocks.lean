import HeapStore.Error
import HeapStore.Proofs.Locks
import Mathlib.Data.Set.Card

/-!
# Shared and exclusive locks

The lock table grants by counting the locks on a page. What this amounts to is
the rule of shared and exclusive locks: a request is granted if and only if no
other transaction holds the page in a conflicting mode (`LockTable.Admits`).

The two agree because the locks on a page are always those of one writer or of
several readers, each listed once (`Holders`), and because a page that nobody
holds has no entry (`LockTable.Proper`). Every operation keeps this.

Headline: `locks_follow_compatibility`.
-/

namespace HeapStore

/-! ## Modes -/

namespace LockMode

/-- Whether two transactions may hold a page in these modes at once. -/
def compatible : LockMode → LockMode → Bool
  | .shared, .shared => true
  | _, _ => false

def stronger : LockMode → LockMode → LockMode
  | .shared, mode => mode
  | .exclusive, _ => .exclusive

end LockMode

/-! ## The locks on one page -/

/-- The locks on a page: none, a single exclusive one, or shared ones of
different transactions. -/
inductive Holders : List Grant → Prop where
  | nobody : Holders []
  | writer (txn : TxnId) : Holders [⟨txn, .exclusive⟩]
  | readers {grants : List Grant} (hsome : grants ≠ [])
      (hshared : ∀ grant ∈ grants, grant.mode = .shared)
      (hdistinct : (grants.map Grant.txn).Nodup) : Holders grants

namespace Holders

variable {grants grants' : List Grant} {txn : TxnId} {mode : LockMode}

theorem reader (txn : TxnId) : Holders [⟨txn, .shared⟩] :=
  .readers (by simp) (by simp) (by simp)

theorem single (txn : TxnId) (mode : LockMode) : Holders [⟨txn, mode⟩] := by
  cases mode with
  | shared => exact .reader txn
  | exclusive => exact .writer txn

theorem distinct (h : Holders grants) : (grants.map Grant.txn).Nodup := by
  cases h with
  | nobody => simp
  | writer txn => simp
  | readers _ _ hdistinct => exact hdistinct

theorem shared_of_length (h : Holders grants) (hlength : 2 ≤ grants.length) :
    ∀ grant ∈ grants, grant.mode = .shared := by
  cases h with
  | nobody => simp at hlength
  | writer txn => simp at hlength
  | readers _ hshared _ => exact hshared

theorem filter (h : Holders grants) (keep : Grant → Bool) : Holders (grants.filter keep) := by
  cases h with
  | nobody => exact .nobody
  | writer txn =>
      by_cases hkeep : keep ⟨txn, .exclusive⟩
      · simpa [hkeep] using writer txn
      · simpa [hkeep] using nobody
  | readers _ hshared hdistinct =>
      by_cases hnone : grants.filter keep = []
      · rw [hnone]
        exact .nobody
      · refine .readers hnone (fun grant hgrant => hshared grant (List.mem_filter.1 hgrant).1) ?_
        exact hdistinct.sublist (List.filter_sublist.map _)

/-- A transaction that joins readers. -/
theorem join (h : Holders grants) (hshared : ∀ grant ∈ grants, grant.mode = .shared)
    (hnew : ∀ grant ∈ grants, grant.txn ≠ txn) : Holders (grants ++ [⟨txn, .shared⟩]) := by
  refine .readers (by simp) ?_ ?_
  · intro grant hgrant
    rcases List.mem_append.1 hgrant with hold | hnew
    · exact hshared grant hold
    · rw [List.mem_singleton.1 hnew]
  · rw [List.map_append, List.nodup_append]
    refine ⟨h.distinct, by simp, ?_⟩
    rintro _ hold _ hadded rfl
    obtain ⟨grant, hgrant, htxn⟩ := List.mem_map.1 hold
    exact hnew grant hgrant (by simpa using htxn.trans (List.mem_singleton.1 hadded))

/-- The first lock listed for a transaction is the only one. -/
theorem find?_eq_some_iff (h : Holders grants) :
    (grants.find? (·.txn = txn)).map Grant.mode = some mode ↔ ⟨txn, mode⟩ ∈ grants := by
  have hdistinct := h.distinct
  clear h
  induction grants with
  | nil => simp
  | cons grant grants ih =>
      obtain ⟨t, m⟩ := grant
      rw [List.map_cons, List.nodup_cons] at hdistinct
      rw [List.find?_cons, List.mem_cons]
      by_cases htxn : t = txn
      · subst htxn
        have hnot : ⟨t, mode⟩ ∉ grants := fun hmem =>
          hdistinct.1 (List.mem_map.2 ⟨_, hmem, rfl⟩)
        simp [hnot, eq_comm]
      · have hne : txn ≠ t := Ne.symm htxn
        simp only [htxn, decide_false, ih hdistinct.2, Grant.mk.injEq, hne, false_and, false_or]

/-! ## Granting -/

theorem two_le_length {grants : List Grant} (hnil : grants ≠ [])
    (hsingle : ∀ grant, grants ≠ [grant]) : 2 ≤ grants.length := by
  match grants with
  | [] => exact absurd rfl hnil
  | [grant] => exact absurd rfl (hsingle grant)
  | _ :: _ :: _ => simp

/-- Of several holders one is another transaction. -/
theorem exists_other (h : Holders grants) (hlength : 2 ≤ grants.length) (txn : TxnId) :
    ∃ grant ∈ grants, grant.txn ≠ txn := by
  have hdistinct := h.distinct
  match grants, hlength with
  | first :: second :: _, _ =>
      by_cases hfirst : first.txn = txn
      · refine ⟨second, by simp, fun hsecond => ?_⟩
        rw [List.map_cons, List.map_cons, List.nodup_cons] at hdistinct
        exact hdistinct.1 (by rw [hfirst, hsecond]; exact List.mem_cons_self)
      · exact ⟨first, by simp, hfirst⟩

/-- The counting rule grants what the rule of compatible modes allows. -/
theorem grant?_isSome_iff (h : Holders grants) :
    (LockTable.grant? grants txn mode).isSome
      ↔ ∀ grant ∈ grants, grant.txn ≠ txn → grant.mode.compatible mode = true := by
  unfold LockTable.grant?
  split
  · simp
  · rename_i held
    obtain ⟨t, m⟩ := held
    by_cases htxn : t = txn
    · cases m <;> cases mode <;> simp [htxn]
    · cases m <;> cases mode <;> simp [htxn, LockMode.compatible]
  · rename_i hnil hsingle
    have hlength : 2 ≤ grants.length := two_le_length hnil hsingle
    have hshared := h.shared_of_length hlength
    cases mode with
    | shared =>
        have hall : ∀ grant ∈ grants, grant.txn ≠ txn →
            grant.mode.compatible .shared = true := fun grant hgrant _ => by
          rw [hshared grant hgrant]
          rfl
        refine iff_of_true ?_ hall
        rw [if_neg (by decide)]
        split <;> rfl
    | exclusive =>
        obtain ⟨other, hother, hne⟩ := h.exists_other hlength txn
        refine iff_of_false (by simp) fun hall => ?_
        have hcompatible := hall other hother hne
        rw [hshared other hother] at hcompatible
        cases hcompatible

/-- A granted request leaves the locks of others, and the requester with the
stronger of what it had and what it asked for. -/
theorem grant? (h : Holders grants) (hgrant : LockTable.grant? grants txn mode = some grants') :
    grants' ≠ [] ∧ Holders grants' ∧ ∀ t, (grants'.find? (·.txn = t)).map Grant.mode
      = if t = txn then
          some (((grants.find? (·.txn = txn)).map Grant.mode).elim mode (·.stronger mode))
        else (grants.find? (·.txn = t)).map Grant.mode := by
  unfold LockTable.grant? at hgrant
  split at hgrant
  · cases hgrant
    refine ⟨by simp, .single txn mode, fun t => ?_⟩
    by_cases ht : t = txn <;> simp [ht, Ne.symm]
  · rename_i held
    obtain ⟨owner, m⟩ := held
    by_cases htxn : owner = txn
    · subst htxn
      rw [if_pos rfl] at hgrant
      have hgrants : grants' = [⟨owner, m.stronger mode⟩] := by
        cases m <;> cases mode <;> simpa [LockMode.stronger, eq_comm] using hgrant
      subst hgrants
      refine ⟨by simp, .single _ _, fun t => ?_⟩
      by_cases ht : t = owner <;> simp [ht, Ne.symm]
    · rw [if_neg htxn] at hgrant
      split at hgrant
      · rename_i hmodes
        obtain ⟨rfl, rfl⟩ := hmodes
        cases hgrant
        refine ⟨by simp, (reader owner).join (by simp) (by simpa using htxn), fun t => ?_⟩
        by_cases ht : t = txn
        · simp [ht, htxn]
        · by_cases howner : owner = t <;> simp [ht, howner, Ne.symm ht]
      · cases hgrant
  · rename_i hnil hsingle
    have hshared := h.shared_of_length (two_le_length hnil hsingle)
    split at hgrant
    · cases hgrant
    rename_i hmode
    obtain rfl : mode = .shared := by cases mode <;> simp_all
    split at hgrant
    · rename_i hany
      cases hgrant
      refine ⟨hnil, h, fun t => ?_⟩
      split
      · rename_i ht
        subst ht
        have hsome : (grants.find? (·.txn = t)).isSome := List.find?_isSome.2 (by simpa using hany)
        obtain ⟨grant, hfind⟩ := Option.isSome_iff_exists.1 hsome
        rw [hfind, Option.map_some, hshared grant (List.mem_of_find?_eq_some hfind)]
        rfl
      · rfl
    · rename_i hnone
      cases hgrant
      have hnew : ∀ grant ∈ grants, grant.txn ≠ txn := by simpa using hnone
      refine ⟨by simp, h.join hshared hnew, fun t => ?_⟩
      rw [List.find?_append]
      by_cases ht : t = txn
      · subst ht
        have hfind : grants.find? (·.txn = t) = none := by simpa using hnew
        simp [hfind]
      · simp [ht, Ne.symm ht]

end Holders

/-! ## The table -/

/-- No other transaction holds the page in a conflicting mode. -/
def LockTable.Admits (table : LockTable) (txn : TxnId) (page : PageId) (mode : LockMode) : Prop :=
  ∀ other held, other ≠ txn → table.mode? other page = some held → held.compatible mode = true

/-- Each page has one writer or several readers, and an entry only if somebody
holds it. -/
structure LockTable.Proper (table : LockTable) : Prop where
  holders : ∀ page, Holders (table.held page)
  occupied : ∀ (page : PageId) (grants : List Grant),
    table.grants[page]? = some grants → grants ≠ []

namespace LockTable

theorem held_empty (page : PageId) : empty.held page = [] := by
  simp [held, empty]

theorem leave?_eq_some {txn : TxnId} {grants rest : List Grant}
    (h : leave? txn grants = some rest) : rest ≠ [] := by
  unfold leave? at h
  split at h
  · cases h
  · rename_i hne
    cases h
    exact hne

namespace Proper

variable {table table' : LockTable} {txn : TxnId} {page : PageId} {mode : LockMode}

theorem empty : LockTable.empty.Proper := by
  refine ⟨fun page => ?_, fun page grants => by simp [LockTable.empty]⟩
  rw [held_empty]
  exact .nobody

theorem mode?_eq_some_iff (h : table.Proper) :
    table.mode? txn page = some mode ↔ ⟨txn, mode⟩ ∈ table.held page :=
  (h.holders page).find?_eq_some_iff

theorem acquire?_isSome_iff (h : table.Proper) :
    (table.acquire? txn page mode).isSome ↔ table.Admits txn page mode := by
  rw [LockTable.acquire?, Option.isSome_map, (h.holders page).grant?_isSome_iff]
  constructor
  · intro hall other held hne hheld
    exact hall _ (h.mode?_eq_some_iff.1 hheld) hne
  · rintro hadmits ⟨other, held⟩ hmem hne
    exact hadmits other held hne (h.mode?_eq_some_iff.2 hmem)

/-- A granted request changes the mode of one transaction on one page. -/
theorem mode?_acquire? (h : table.Proper) (hacquire : table.acquire? txn page mode = some table')
    (t : TxnId) (p : PageId) : table'.mode? t p
      = if t = txn ∧ p = page then some ((table.mode? txn page).elim mode (·.stronger mode))
        else table.mode? t p := by
  obtain ⟨grants, hgrant, hheld⟩ := held_of_acquire? hacquire p
  obtain ⟨-, -, hmodes⟩ := (h.holders page).grant? hgrant
  by_cases hp : page = p
  · subst hp
    rw [mode?, hheld, if_pos rfl, hmodes]
    simp only [and_true]
    rfl
  · rw [mode?, hheld, if_neg hp, if_neg fun hand => hp hand.2.symm]
    rfl

theorem acquire? (h : table.Proper) (hacquire : table.acquire? txn page mode = some table') :
    table'.Proper := by
  constructor
  · intro p
    obtain ⟨grants, hgrant, hheld⟩ := held_of_acquire? hacquire p
    rw [hheld]
    split
    · exact ((h.holders page).grant? hgrant).2.1
    · exact h.holders p
  · intro p entry hentry
    obtain ⟨grants, hgrant, rfl⟩ := Option.map_eq_some_iff.1 hacquire
    rw [Std.ExtTreeMap.getElem?_insert] at hentry
    split at hentry
    · cases hentry
      exact ((h.holders page).grant? hgrant).1
    · exact h.occupied p entry hentry

theorem release (h : table.Proper) (txn : TxnId) (page : PageId) :
    (table.release txn page).Proper := by
  constructor
  · intro p
    rw [held_release]
    split
    · exact (h.holders p).filter _
    · exact h.holders p
  · intro p entry hentry
    rw [LockTable.release, Std.ExtTreeMap.getElem?_alter] at hentry
    split at hentry
    · obtain ⟨grants, -, hleave⟩ := Option.bind_eq_some_iff.1 hentry
      exact leave?_eq_some hleave
    · exact h.occupied p entry hentry

theorem releaseAll (h : table.Proper) (txn : TxnId) : (table.releaseAll txn).Proper := by
  constructor
  · intro p
    rw [held_releaseAll]
    exact (h.holders p).filter _
  · intro p entry hentry
    rw [LockTable.releaseAll, Std.ExtTreeMap.getElem?_filterMap'] at hentry
    obtain ⟨grants, -, hleave⟩ := Option.bind_eq_some_iff.1 hentry
    exact leave?_eq_some hleave

/-- The entries are the pages with a holder. -/
theorem lockedPageCount_eq (h : table.Proper) :
    table.lockedPageCount = Set.ncard {page | ∃ txn, table.holds txn page = true} := by
  have hset : {page | ∃ txn, table.holds txn page = true} = ↑table.grants.keys.toFinset := by
    ext page
    rw [Set.mem_ofPred_eq, Finset.mem_coe, List.mem_toFinset, Std.ExtTreeMap.mem_keys,
      Std.ExtTreeMap.mem_iff_isSome_getElem?]
    constructor
    · rintro ⟨txn, hholds⟩
      obtain ⟨mode, hmode⟩ := Option.isSome_iff_exists.1 hholds
      have hmem := h.mode?_eq_some_iff.1 hmode
      rw [held] at hmem
      cases hentry : table.grants[page]? with
      | none => simp [hentry] at hmem
      | some grants => rfl
    · intro hsome
      obtain ⟨grants, hentry⟩ := Option.isSome_iff_exists.1 hsome
      obtain ⟨⟨txn, mode⟩, hmem⟩ := List.exists_mem_of_ne_nil _ (h.occupied page grants hentry)
      refine ⟨txn, ?_⟩
      have hmode : table.mode? txn page = some mode :=
        h.mode?_eq_some_iff.2 (by rwa [held, hentry])
      rw [holds, hmode]
      rfl
  rw [hset, Set.ncard_coe_finset, List.toFinset_card_of_nodup Std.ExtTreeMap.nodup_keys,
    Std.ExtTreeMap.length_keys, lockedPageCount]

end Proper

end LockTable

/-! ## Runs -/

/-- What is asked of the lock table. The deadline of `acquireUntil` has
passed. -/
inductive LockCall where
  | acquire (txn : TxnId) (page : PageId) (mode : LockMode)
  | acquireUntil (txn : TxnId) (page : PageId) (mode : LockMode)
  | release (txn : TxnId) (page : PageId)
  | releaseAll (txn : TxnId)

inductive LockAnswer where
  | granted (granted : Bool)
  | outcome (answer : Except Error Unit)
  | done

namespace LockCall

def run (call : LockCall) (table : LockTable) : LockAnswer × LockTable :=
  match call with
  | .acquire txn page mode =>
    match table.acquire? txn page mode with
    | some table => (.granted true, table)
    | none => (.granted false, table)
  | .acquireUntil txn page mode =>
    -- A request that has to wait is tried once more when the wait is over.
    match table.acquire? txn page mode <|> table.acquire? txn page mode with
    | some table => (.outcome (.ok ()), table)
    | none => (.outcome (.error (.transactionAborted txn page)), table)
  | .release txn page => (.done, table.release txn page)
  | .releaseAll txn => (.done, table.releaseAll txn)

def afterAll (calls : List LockCall) (table : LockTable) : LockTable :=
  calls.foldl (fun table call => (call.run table).2) table

variable {table table' : LockTable} {txn : TxnId} {page : PageId} {mode : LockMode}

theorem run_of_granted (h : table.acquire? txn page mode = some table') :
    (acquire txn page mode).run table = (.granted true, table') ∧
      (acquireUntil txn page mode).run table = (.outcome (.ok ()), table') := by
  simp [run, h]

theorem run_of_refused (h : table.acquire? txn page mode = none) :
    (acquire txn page mode).run table = (.granted false, table) ∧
      (acquireUntil txn page mode).run table
        = (.outcome (.error (.transactionAborted txn page)), table) := by
  simp [run, h]

end LockCall

namespace LockTable.Proper

variable {table : LockTable}

theorem run (h : table.Proper) (call : LockCall) : (call.run table).2.Proper := by
  cases call with
  | acquire txn page mode =>
      cases hacquire : table.acquire? txn page mode with
      | some table' =>
          rw [(LockCall.run_of_granted hacquire).1]
          exact h.acquire? hacquire
      | none =>
          rw [(LockCall.run_of_refused hacquire).1]
          exact h
  | acquireUntil txn page mode =>
      cases hacquire : table.acquire? txn page mode with
      | some table' =>
          rw [(LockCall.run_of_granted hacquire).2]
          exact h.acquire? hacquire
      | none =>
          rw [(LockCall.run_of_refused hacquire).2]
          exact h
  | release txn page => exact h.release txn page
  | releaseAll txn => exact h.releaseAll txn

theorem afterAll (h : table.Proper) (calls : List LockCall) :
    (LockCall.afterAll calls table).Proper := by
  induction calls generalizing table with
  | nil => exact h
  | cons call calls ih => exact ih (h.run call)

end LockTable.Proper

/-- In every state that calls on an empty lock table lead to:

- a page has no holder, one writer, or several readers, and the pages with a
  holder are those that are counted and have an entry;
- a request is granted if and only if no other transaction holds the page in a
  conflicting mode. Then the requester has the stronger of what it had and what
  it asked for, and all other locks stay; otherwise nothing changes;
- a release takes away the lock that it names, or all those of a transaction,
  and leaves all others. -/
theorem locks_follow_compatibility (calls : List LockCall) {table : LockTable}
    (htable : table = LockCall.afterAll calls .empty) :
    ((∀ page, Holders (table.held page)) ∧
      table.lockedPageCount = Set.ncard {page | ∃ txn, table.holds txn page = true} ∧
      ∀ (page : PageId) (grants : List Grant), table.grants[page]? = some grants → grants ≠ []) ∧
    (∀ txn page mode,
      (table.Admits txn page mode → ∃ table',
        (LockCall.acquire txn page mode).run table = (.granted true, table') ∧
        (LockCall.acquireUntil txn page mode).run table = (.outcome (.ok ()), table') ∧
        ∀ t p, table'.mode? t p
          = if t = txn ∧ p = page then some ((table.mode? txn page).elim mode (·.stronger mode))
            else table.mode? t p) ∧
      (¬table.Admits txn page mode →
        (LockCall.acquire txn page mode).run table = (.granted false, table) ∧
        (LockCall.acquireUntil txn page mode).run table
          = (.outcome (.error (.transactionAborted txn page)), table))) ∧
    (∀ txn page t p, ((LockCall.release txn page).run table).2.mode? t p
      = if page = p ∧ t = txn then none else table.mode? t p) ∧
    ∀ txn t p, ((LockCall.releaseAll txn).run table).2.mode? t p
      = if t = txn then none else table.mode? t p := by
  have h : table.Proper := htable ▸ LockTable.Proper.empty.afterAll calls
  refine ⟨⟨h.holders, h.lockedPageCount_eq, h.occupied⟩, fun txn page mode => ⟨?_, ?_⟩,
    fun txn page t p => table.mode?_release txn t page p,
    fun txn t p => table.mode?_releaseAll txn t p⟩
  · intro hadmits
    obtain ⟨table', hacquire⟩ := Option.isSome_iff_exists.1 (h.acquire?_isSome_iff.2 hadmits)
    obtain ⟨hrun, hrun'⟩ := LockCall.run_of_granted hacquire
    exact ⟨table', hrun, hrun', h.mode?_acquire? hacquire⟩
  · intro hconflict
    refine LockCall.run_of_refused ?_
    rw [← Option.not_isSome_iff_eq_none, h.acquire?_isSome_iff]
    exact hconflict

/-- Two readers of a page, neither of whom may become its writer. -/
def LockTable.twoReaders : LockTable :=
  LockCall.afterAll [.acquire ⟨1⟩ ⟨⟨0⟩, 0⟩ .shared, .acquireUntil ⟨2⟩ ⟨⟨0⟩, 0⟩ .shared] .empty

theorem locks_follow_compatibility_twoReaders :
    ¬LockTable.twoReaders.Admits ⟨1⟩ ⟨⟨0⟩, 0⟩ .exclusive ∧
    (LockCall.acquireUntil ⟨1⟩ ⟨⟨0⟩, 0⟩ .exclusive).run .twoReaders
      = (.outcome (.error (.transactionAborted ⟨1⟩ ⟨⟨0⟩, 0⟩)), .twoReaders) ∧
    ((LockCall.release ⟨1⟩ ⟨⟨0⟩, 0⟩).run .twoReaders).2.mode? ⟨2⟩ ⟨⟨0⟩, 0⟩ = some .shared := by
  have hconflict : ¬LockTable.twoReaders.Admits ⟨1⟩ ⟨⟨0⟩, 0⟩ .exclusive := by
    intro hadmits
    have hreads : LockTable.twoReaders.mode? ⟨2⟩ ⟨⟨0⟩, 0⟩ = some .shared := by decide +kernel
    have hcompatible := hadmits ⟨2⟩ .shared (by decide) hreads
    cases hcompatible
  have htable : LockTable.twoReaders = LockCall.afterAll _ .empty := rfl
  obtain ⟨-, hrequests, hrelease, -⟩ := locks_follow_compatibility _ htable
  refine ⟨hconflict, ((hrequests _ _ _).2 hconflict).2, ?_⟩
  rw [hrelease]
  decide +kernel

end HeapStore
