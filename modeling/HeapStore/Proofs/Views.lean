import HeapStore.Proofs.Endings
import HeapStore.Proofs.Simulation

/-!
# What a transaction sees of a page

What somebody who gets a page sees of it is the copy in the pool, or else the
page in the file (`Engine.view?`). Coming and going of clean pages does not
show, nor does writing back.

A transaction that holds a page has it pinned (`Pinned`): whatever other
transactions do, its view stays, because nobody else can own the page. Its own
inserts and deletes change the view by just these edits (`Pinned.call`).
-/

namespace HeapStore

open HeapStore.Action Engine

/-! ## Edits -/

/-- A change that was made to a page, with the address that it got. -/
inductive Edit where
  | insert (tuple : Tuple) (record : RecordId)
  | delete (record : RecordId)

namespace Page

/-- The page after an edit, if the edit is possible with this result. -/
def edit? (page : Page) : Edit → Option Page
  | .insert tuple record =>
    match page.insert tuple with
    | .ok (address, changed) => if address = record then some changed else none
    | .error _ => none
  | .delete record => (page.delete (some record)).toOption

def replay? (page : Page) (edits : List Edit) : Option Page := edits.foldlM edit? page

theorem replay?_append (page : Page) (edits more : List Edit) :
    page.replay? (edits ++ more) = (page.replay? edits).bind fun page => page.replay? more :=
  List.foldlM_append

variable {x y changed : Page} {tuple : Tuple} {record : RecordId}

theorem page_of_insert (hinsert : x.insert tuple = .ok (record, changed)) :
    record.page = x.id := by
  obtain ⟨-, free, -, rfl, -⟩ := insert_eq_ok hinsert
  rfl

/-- An insert looks at identity, schema and bytes alone. -/
theorem insert_congr (h : x.markClean = y.markClean)
    (hinsert : x.insert tuple = .ok (record, changed)) :
    ∃ changed', y.insert tuple = .ok (record, changed') ∧
      changed.markClean = changed'.markClean := by
  obtain ⟨id, schema, data, dirtier, before⟩ := x
  obtain ⟨id', schema', data', dirtier', before'⟩ := y
  simp only [markClean, Page.mk.injEq, and_true] at h
  obtain ⟨rfl, rfl, rfl⟩ := h
  simp only [insert] at hinsert ⊢
  split at hinsert
  · cases hinsert
  · rename_i hagrees
    rw [if_neg hagrees]
    split at hinsert
    · cases hinsert
    · rename_i slot hslot
      cases hinsert
      have hslot' : (Page.mk id schema data dirtier' before').firstFree? = some slot := hslot
      simp only [hslot']
      exact ⟨_, rfl, rfl⟩

theorem delete_congr (h : x.markClean = y.markClean)
    (hdelete : x.delete (some record) = .ok changed) :
    ∃ changed', y.delete (some record) = .ok changed' ∧
      changed.markClean = changed'.markClean := by
  obtain ⟨id, schema, data, dirtier, before⟩ := x
  obtain ⟨id', schema', data', dirtier', before'⟩ := y
  simp only [markClean, Page.mk.injEq, and_true] at h
  obtain ⟨rfl, rfl, rfl⟩ := h
  simp only [delete] at hdelete ⊢
  split at hdelete
  · cases hdelete
  · rename_i hplace
    split at hdelete
    · cases hdelete
    · rename_i hused
      cases hdelete
      have hplace' : ¬(record.page ≠ id ∨
          (Page.mk id schema data dirtier' before').slotCount ≤ record.slot.toNat) := hplace
      have hused' : ¬(Page.mk id schema data dirtier' before').isUsed record.slot.toNat = false :=
        hused
      rw [if_neg hplace', if_neg hused']
      exact ⟨_, rfl, rfl⟩

end Page

/-! ## Views -/

/-- A page as somebody sees it who gets it. -/
def Engine.view? (engine : Engine) (page : PageId) : Option Page :=
  match engine.pool.cache.peek page with
  | some frame => some frame.page.markClean
  | none => engine.stored? page

section

variable {capacity : Nat} {txn : TxnId} {page p : PageId} {frame : Frame} {e e₁ e' : Engine}

theorem Engine.view?_of_peek (hpeek : e.pool.cache.peek page = some frame) :
    e.view? page = some frame.page.markClean := by
  rw [view?, hpeek]

theorem Engine.view?_of_absent (habsent : e.pool.cache.peek page = none) :
    e.view? page = e.stored? page := by
  rw [view?, habsent]

theorem Engine.view?_congr (hpeek : e'.pool.cache.peek page = e.pool.cache.peek page)
    (hstored : e'.stored? page = e.stored? page) : e'.view? page = e.view? page := by
  rw [view?, hpeek, hstored, view?]

/-- A clean page in the pool looks like the one in the file. -/
theorem Coherent.view?_of_clean (h : Coherent capacity e)
    (hpeek : e.pool.cache.peek page = some frame) (hclean : frame.page.dirtier = none) :
    e.view? page = e.stored? page := by
  have hm := h.mirrors page frame hpeek
  rw [view?_of_peek hpeek, hm.stored, Page.beforePage, Page.beforeData, hm.clean hclean]
  rfl

/-- A page that is seen is in its file. -/
theorem Coherent.stored_of_view {x : Page} (h : Coherent capacity e)
    (hview : e.view? page = some x) : e.stored? page ≠ none := by
  cases hpeek : e.pool.cache.peek page with
  | some frame =>
      rw [(h.mirrors page frame hpeek).stored]
      nofun
  | none =>
      rw [← view?_of_absent hpeek, hview]
      nofun

theorem Coherent.view?_discard (h : Coherent capacity e)
    (hclean : ∀ frame, e.pool.cache.peek p = some frame → frame.page.dirtier = none)
    (page : PageId) : Engine.view? { e with pool := e.pool.discard p } page = e.view? page := by
  by_cases hp : p = page
  · subst hp
    have habsent : (e.pool.discard p).cache.peek p = none := by
      rw [Pool.discard, Recency.peek_remove, if_pos rfl]
    rw [view?_of_absent habsent]
    cases hpeek : e.pool.cache.peek p with
    | some frame => exact (h.view?_of_clean hpeek (hclean frame hpeek)).symm
    | none => exact (view?_of_absent hpeek).symm
  · refine view?_congr ?_ rfl
    rw [Pool.discard, Recency.peek_remove, if_neg hp]

theorem Engine.view?_install {file : HeapFile} {loaded : Page} {disk : Disk}
    (habsent : e.pool.cache.peek p = none) (hfile : e.catalog.file p.table = .ok file)
    (hread : file.readPage e.disk p = .ok (loaded, disk)) (page : PageId) :
    Engine.view? { e with disk, pool := (e.pool.install loaded).2 } page = e.view? page := by
  have hid := HeapFile.id_of_readPage hread
  have hstored := stored?_of_readPage hfile hread
  by_cases hp : p = page
  · subst hp
    have hpeek : (e.pool.install loaded).2.cache.peek p = some ⟨loaded, e.pool.copies⟩ := by
      rw [Pool.install, Recency.peek_put, if_pos hid]
    rw [view?_of_peek hpeek, view?_of_absent habsent, hstored]
    obtain ⟨data, rfl, -⟩ := HeapFile.eq_ofBytes_of_readPage hread
    rfl
  · refine view?_congr ?_ (stored?_congr rfl (HeapFile.content_readPage hread))
    rw [Pool.install, Recency.peek_put, if_neg (by rwa [hid])]

theorem MakesRoom.view?_eq (h : Coherent capacity e) (hroom : MakesRoom e e₁) (page : PageId) :
    e₁.view? page = e.view? page := by
  cases hroom with
  | spare _ => rfl
  | evict _ hvictim =>
      obtain ⟨victim, hpeek, hclean⟩ := peek_of_victim? hvictim
      refine h.view?_discard (fun frame hpeek' => ?_) page
      obtain rfl := Option.some.inj (hpeek.symm.trans hpeek')
      simpa [Page.isDirty] using hclean

theorem Coherent.view?_load {file : HeapFile} {loaded : Page} {disk : Disk}
    (h : Coherent capacity e) (habsent : e.pool.cache.peek p = none)
    (hfile : e.catalog.file p.table = .ok file) (hroom : MakesRoom e e₁)
    (hread : file.readPage e₁.disk p = .ok (loaded, disk)) (page : PageId) :
    Engine.view? { e₁ with disk, pool := (e₁.pool.install loaded).2 } page = e.view? page := by
  rw [← hroom.catalog_eq] at hfile
  rw [view?_install (hroom.peek_eq_none habsent) hfile hread, hroom.view?_eq h]

theorem Fetches.view?_eq {mode : LockMode} (h : Coherent capacity e)
    (hfetch : Fetches txn p mode e frame e₁) (page : PageId) : e₁.view? page = e.view? page := by
  cases hfetch with
  | hit hlock hpeek => exact view?_congr (peek_use hpeek) rfl
  | miss hlock habsent hfile hroom hread =>
      exact (h.acquire hlock).view?_load habsent hfile hroom hread page

/-- Access to pages does not change what others see. -/
theorem Quiet.view?_eq {x : Page} (hreg : e.catalog.Registered) (hwithin : Within e e')
    (h : Coherent capacity e) (hmove : Quiet txn e e') (hview : e.view? page = some x) :
    e'.view? page = some x := by
  rw [← hview]
  cases hmove with
  | lock _ => rfl
  | use _ hpeek => exact view?_congr (peek_use hpeek) rfl
  | drop hpeek hclean =>
      refine h.view?_discard (fun frame hpeek' => ?_) page
      obtain rfl := Option.some.inj (hpeek.symm.trans hpeek')
      simpa [Page.isDirty] using hclean
  | load habsent hfile hroom hread => exact h.view?_load habsent hfile hroom hread page
  | append hfile happend =>
      refine view?_congr rfl ?_
      rcases stored?_append hreg hfile happend (hwithin _ _ hfile) page with hsame | ⟨hnone, -⟩
      · exact hsame
      · exact absurd hnone (h.stored_of_view hview)
  | giveBack _ hfetch => exact (view?_congr rfl rfl).trans (hfetch.view?_eq h page)

/-- A page looks the same after it has been written back. -/
theorem WritesBack.view?_eq (hreg : e.catalog.Registered) (h : Coherent capacity e)
    (hwrites : WritesBack p e e') (page : PageId) : e'.view? page = e.view? page := by
  have hwrites' := hwrites
  cases hwrites with
  | clean _ => rfl
  | dirty hpeek hdirty hfile hlog hwrite =>
      have hwrote := hwrites'.wrote hreg h hpeek hdirty
      by_cases hp : page = p
      · subst hp
        rw [view?_of_peek (hwrote.peek_of_mem page List.mem_cons_self _ hpeek),
          view?_of_peek hpeek]
        rfl
      · have hnot : page ∉ [p] := fun hmem => hp (List.mem_singleton.1 hmem)
        exact view?_congr (hwrote.peek_of_not_mem page hnot) (hwrote.stored_of_not_mem page hnot)

theorem Action.Through.view?_eq {pages : List PageId} (hreg : e.catalog.Registered)
    (h : Coherent capacity e) (hwritten : Through WritesBack pages e e') (page : PageId) :
    e'.view? page = e.view? page := by
  induction hwritten with
  | nil => rfl
  | @cons p pages e e₁ e₂ hstep _ ih =>
      have hreg₁ : e₁.catalog.Registered := by
        rw [hstep.grows.catalog]
        exact hreg
      rw [ih hreg₁ (h.writesBack hreg hstep), hstep.view?_eq hreg h]

end

/-! ## Held pages -/

namespace LockTable

variable {table table' : LockTable} {txn other : TxnId} {page p : PageId} {mode : LockMode}

theorem holds_iff : table.holds txn page = true ↔ ∃ grant ∈ table.held page, grant.txn = txn := by
  simp [holds, mode?]

theorem mem_grant?_of_mem {grants grants' : List Grant}
    (h : grant? grants other mode = some grants') (hmem : ∃ grant ∈ grants, grant.txn = txn) :
    ∃ grant ∈ grants', grant.txn = txn := by
  obtain ⟨grant, hgrant, htxn⟩ := hmem
  unfold grant? at h
  split at h
  · cases hgrant
  · rename_i held
    obtain rfl := List.mem_singleton.1 hgrant
    split at h
    · rename_i hown
      split at h <;> cases h
      · exact ⟨_, List.mem_singleton_self _, hown.symm.trans htxn⟩
      · exact ⟨grant, List.mem_singleton_self _, htxn⟩
    · split at h <;> cases h
      exact ⟨grant, List.mem_cons_self, htxn⟩
  · split at h
    · cases h
    · split at h <;> cases h
      · exact ⟨grant, hgrant, htxn⟩
      · exact ⟨grant, List.mem_append_left _ hgrant, htxn⟩

/-- Nobody loses a lock when another one is granted. -/
theorem holds_acquire? (hacquire : table.acquire? other p mode = some table')
    (h : table.holds txn page = true) : table'.holds txn page = true := by
  obtain ⟨grants, hgrants, hheld⟩ := held_of_acquire? hacquire page
  rw [holds_iff] at h ⊢
  rw [hheld]
  split
  · rename_i hp
    subst hp
    exact mem_grant?_of_mem hgrants h
  · exact h

theorem holds_release (hne : ¬(other = txn ∧ p = page)) (h : table.holds txn page = true) :
    (table.release other p).holds txn page = true := by
  rw [holds, mode?_release, if_neg fun hboth => hne ⟨hboth.2.symm, hboth.1⟩]
  exact h

theorem holds_releaseAll (hne : other ≠ txn) (h : table.holds txn page = true) :
    (table.releaseAll other).holds txn page = true := by
  rw [holds, mode?_releaseAll, if_neg hne.symm]
  exact h

/-- A page that somebody holds has no other owner. -/
theorem Owns.eq_of_holds (howns : table.Owns other page) (h : table.holds txn page = true) :
    txn = other := by
  by_contra hne
  rw [howns.not_holds hne] at h
  cases h

end LockTable

/-- The transaction holds the page, and sees it as `x`. -/
structure Pinned (txn : TxnId) (page : PageId) (x : Page) (e : Engine) : Prop where
  held : e.pool.locks.holds txn page = true
  view : e.view? page = some x.markClean

namespace Pinned

variable {capacity : Nat} {txn other : TxnId} {page : PageId} {x : Page} {e e₁ e' : Engine}

theorem congr (h : Pinned txn page x e) (hlocks : e'.pool.locks = e.pool.locks)
    (hview : e'.view? page = e.view? page) : Pinned txn page x e' :=
  ⟨by rw [hlocks, h.held], by rw [hview, h.view]⟩

theorem quiet (hreg : e.catalog.Registered) (hwithin : Within e e')
    (hcoherent : Coherent capacity e) (h : Pinned txn page x e) (hmove : Quiet other e e') :
    Pinned txn page x e' := by
  refine ⟨?_, hmove.view?_eq hreg hwithin hcoherent h.view⟩
  cases hmove with
  | lock hlock => exact LockTable.holds_acquire? hlock h.held
  | use _ _ => exact h.held
  | drop _ _ => exact h.held
  | load _ _ hroom _ => cases hroom <;> exact h.held
  | append _ _ => exact h.held
  | giveBack hnot hfetch =>
      refine LockTable.holds_release ?_ (LockTable.holds_acquire? hfetch.acquire? h.held)
      rintro ⟨rfl, rfl⟩
      rw [h.held] at hnot
      cases hnot

theorem quietPath (hreg : e.catalog.Registered) (hwithin : Within e e')
    (hcoherent : Coherent capacity e) (h : Pinned txn page x e) (hpath : QuietPath other e e') :
    Pinned txn page x e' := by
  induction hpath with
  | refl => exact h
  | tail hpath hmove ih =>
      have hgrows := MovePath.grows (QuietPath.movePath hpath)
      have hwithin₁ := hmove.grows.within_left hwithin
      refine (ih hwithin₁).quiet ?_ (hgrows.within_right hwithin)
        (hcoherent.movePath hreg hwithin₁ (QuietPath.movePath hpath)) hmove
      rw [hgrows.catalog]
      exact hreg

theorem written {pages : List PageId} (hreg : e.catalog.Registered)
    (hcoherent : Coherent capacity e) (h : Pinned txn page x e)
    (hwritten : Through WritesBack pages e e') : Pinned txn page x e' :=
  h.congr hwritten.locks_writesBack (hwritten.view?_eq hreg hcoherent page)

theorem refused {p : PageId} {cause : Error} (h : Pinned txn page x e)
    (hrefuses : Refuses p cause e e') : Pinned txn page x e' := by
  obtain ⟨log, rfl⟩ := hrefuses.exists_log
  exact h.congr rfl rfl

/-- What another transaction takes back is not the pinned page. -/
theorem restored {rest : List PageId} (hguarded : Guarded e) (hne : other ≠ txn)
    (h : Pinned txn page x e) (hrestores : RestoresUpTo other rest e e') :
    Pinned txn page x e' := by
  obtain ⟨pages, hpages, hrestored⟩ := hrestores
  have hback := hrestored.restored
  refine h.congr hrestored.locks_restores (view?_congr ?_ (hback.stored_eq page))
  refine hback.peek_of_not_mem page fun hmem => ?_
  have hdirtied : page ∈ e.pool.dirtiedBy other := by
    rw [hpages]
    exact List.mem_append_left _ hmem
  obtain ⟨frame, hpeek, hdirty⟩ := mem_dirtiedBy.1 hdirtied
  exact hne ((hguarded.owned page frame other hpeek hdirty).eq_of_holds h.held).symm

theorem letGo (hne : other ≠ txn) (h : Pinned txn page x e) :
    Pinned txn page x (e.letGo other) := by
  refine ⟨?_, ?_⟩
  · unfold Engine.letGo
    split
    · exact LockTable.holds_releaseAll hne h.held
    · exact h.held
  · rw [← h.view]
    exact view?_congr (by rw [Tracks.cache_letGo]) rfl

theorem commit (hreg : e.catalog.Registered) (hcoherent : Coherent capacity e)
    (hguarded : Guarded e) (hne : other ≠ txn) (h : Pinned txn page x e) :
    Pinned txn page x ((Engine.commit other).after e) := by
  refine ends_after.1 ((hcoherent.commit_ends hreg other).mono ?_ ?_)
  · rintro _ _ ⟨e₁, ⟨written, -, hwritten⟩, rfl⟩
    exact (h.written hreg hcoherent hwritten).letGo hne
  · rintro _ _ ⟨cause, p, rest, e₁, e₂, e₃, -, ⟨written, -, hwritten⟩, hrefuses, hrestores, rfl⟩
    have h₂ := (h.written hreg hcoherent hwritten).refused hrefuses
    obtain ⟨log, rfl⟩ := hrefuses.exists_log
    have hguarded₂ : Guarded { e₁ with log } :=
      (hguarded.movePath hwritten.writesBack_movePath).move .log
    exact (h₂.restored hguarded₂ hne hrestores).letGo hne

theorem abort (hreg : e.catalog.Registered) (hcoherent : Coherent capacity e)
    (hguarded : Guarded e) (hne : other ≠ txn) (h : Pinned txn page x e) :
    Pinned txn page x ((Engine.abort other).after e) := by
  refine ends_after.1 ((hcoherent.abort_ends hreg other).mono ?_ fun _ _ hfail => hfail.elim)
  rintro _ _ ⟨e₁, hrestores, rfl⟩
  exact (h.restored hguarded hne hrestores).letGo hne

/-- The page that an owner changes is somebody else's, or its own. -/
theorem change {p : PageId} {frame : Frame} {changed : Page} (hcoherent : Coherent capacity e)
    (h : Pinned txn page x e) (hpeek : e.pool.cache.peek p = some frame)
    (howns : e.pool.locks.Owns other p) (hid : changed.id = frame.page.id) :
    (p ≠ page → Pinned txn page x (e.store (changed.markDirty other))) ∧
    (p = page → other = txn ∧ frame.page.markClean = x.markClean ∧
      Pinned txn page changed (e.store (changed.markDirty other))) := by
  have hkey : (changed.markDirty other).id = p := hid.trans (hcoherent.id_eq hpeek)
  have hcache : ∀ q, (e.store (changed.markDirty other)).pool.cache.peek q
      = if p = q then (e.pool.cache.peek q).map fun frame =>
          { frame with page := changed.markDirty other } else e.pool.cache.peek q := by
    intro q
    rw [Engine.store, Pool.store, Recency.peek_modify, hkey]
  constructor
  · intro hp
    refine h.congr rfl (view?_congr ?_ rfl)
    rw [hcache, if_neg hp]
  · rintro rfl
    refine ⟨(howns.eq_of_holds h.held).symm, ?_, h.held, ?_⟩
    · have hview := h.view
      rw [view?_of_peek hpeek] at hview
      exact Option.some.inj hview
    · have hpeek' : (e.store (changed.markDirty other)).pool.cache.peek p
          = some { frame with page := changed.markDirty other } := by
        rw [hcache, if_pos rfl, hpeek]
        rfl
      rw [view?_of_peek hpeek']
      rfl

end Pinned

end HeapStore
