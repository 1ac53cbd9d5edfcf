import HeapStore.Proofs.Views

/-!
# Repeatable reads

A transaction that got a page gets the same bytes again, up to the inserts and
deletes that it made there itself, until it ends or gives the page back.
Between the two the page may have left the pool and come back, other
transactions may have committed, failed to commit or aborted, and the
transaction may have looked at the page on its way to insert elsewhere.

This needs that nobody gives back the lock on a page with changes before its
transaction has ended (`Call.KeepsLocks`). Such a page is one that the dirtier
has a pending change on (`History.Accounts`), because every end of a
transaction, also a failed one, takes its changes out of the pool.

Headline: `repeatable_read`.
-/

namespace HeapStore

open HeapStore.Action Engine

/-! ## Changes in the pool -/

/-- No page has changes now that it did not have before. -/
def Engine.NoNewChanges (e e' : Engine) : Prop :=
  ∀ page frame, frame.page.dirtier ≠ none → e'.pool.cache.peek page = some frame →
    e.pool.cache.peek page = some frame

section

variable {capacity : Nat} {txn : TxnId} {e e₁ e' : Engine}

theorem Engine.NoNewChanges.refl (e : Engine) : NoNewChanges e e := fun _ _ _ hpeek => hpeek

theorem Engine.NoNewChanges.trans (h : NoNewChanges e e₁) (h' : NoNewChanges e₁ e') :
    NoNewChanges e e' :=
  fun page frame hdirty hpeek => h page frame hdirty (h' page frame hdirty hpeek)

theorem QuietPath.noNewChanges (hpath : QuietPath txn e e') : NoNewChanges e e' := by
  induction hpath with
  | refl => exact .refl e
  | tail _ hmove ih => exact ih.trans fun _ _ hdirty hpeek => (hmove.peek_dirty hdirty).1 hpeek

theorem WritesBack.noNewChanges {page : PageId} (hwrites : WritesBack page e e') :
    NoNewChanges e e' := by
  cases hwrites with
  | clean _ => exact .refl e
  | dirty hpeek hdirty _ _ _ =>
      intro p frame hdirty' hpeek'
      rw [Pool.store, Recency.peek_modify] at hpeek'
      split at hpeek'
      · obtain ⟨_, -, rfl⟩ := Option.map_eq_some_iff.1 hpeek'
        exact absurd rfl hdirty'
      · exact hpeek'

theorem Action.Through.noNewChanges {pages : List PageId}
    (hwritten : Through WritesBack pages e e') : NoNewChanges e e' := by
  induction hwritten with
  | nil => exact .refl _
  | cons hstep _ ih => exact hstep.noNewChanges.trans ih

theorem Restores.noNewChanges {page : PageId} (hrestores : Restores page e e') :
    NoNewChanges e e' := by
  cases hrestores with
  | mk _ hread =>
      obtain ⟨data, rfl, -⟩ := HeapFile.eq_ofBytes_of_readPage hread
      intro p frame hdirty hpeek
      rw [Pool.install, Recency.peek_put] at hpeek
      split at hpeek
      · cases hpeek
        exact absurd rfl hdirty
      · exact hpeek

theorem RestoresUpTo.noNewChanges {rest : List PageId} (h : RestoresUpTo txn rest e e') :
    NoNewChanges e e' := by
  obtain ⟨restored, -, hrestored⟩ := h
  clear rest
  induction hrestored with
  | nil => exact .refl _
  | cons hstep _ ih => exact hstep.noNewChanges.trans ih

theorem noNewChanges_letGo (e : Engine) (txn : TxnId) : NoNewChanges e (e.letGo txn) := by
  intro page frame _ hpeek
  rwa [Tracks.cache_letGo] at hpeek

/-- No page is changed by the transaction. -/
def Engine.Rid (e : Engine) (txn : TxnId) : Prop :=
  ∀ page frame, e.pool.cache.peek page = some frame → frame.page.dirtier ≠ some txn

theorem WritesUpTo.rid (hreg : e.catalog.Registered) (hcoherent : Coherent capacity e)
    (h : WritesUpTo txn [] e e') : e'.Rid txn := by
  obtain ⟨written, hpages, hwritten⟩ := h
  rw [List.append_nil] at hpages
  subst hpages
  obtain ⟨-, hwrote⟩ := hwritten.wrote hreg hcoherent (nodup_dirtiedBy _ _)
    (dirtied_dirtiedBy e txn)
  intro page frame hpeek hdirty
  have hpeek₀ := hwritten.noNewChanges page frame (by rw [hdirty]; nofun) hpeek
  have hmem := mem_dirtiedBy.2 ⟨frame, hpeek₀, hdirty⟩
  obtain ⟨old, hold, -⟩ := mem_dirtiedBy.1 hmem
  rw [hwrote.peek_of_mem page hmem old hold] at hpeek
  cases hpeek
  cases hdirty

theorem RestoresUpTo.rid (hcoherent : Coherent capacity e) (h : RestoresUpTo txn [] e e') :
    e'.Rid txn := by
  have hnew := h.noNewChanges
  obtain ⟨restored, hpages, hrestored⟩ := h
  rw [List.append_nil] at hpages
  subst hpages
  intro page frame hpeek hdirty
  have hpeek₀ := hnew page frame (by rw [hdirty]; nofun) hpeek
  have hmem := mem_dirtiedBy.2 ⟨frame, hpeek₀, hdirty⟩
  obtain ⟨old, hold, -⟩ := mem_dirtiedBy.1 hmem
  obtain ⟨copy, hclean⟩ := hrestored.restored.peek_of_mem page hmem _
    (hcoherent.mirrors page old hold).stored
  rw [hclean] at hpeek
  cases hpeek
  cases hdirty

theorem Engine.Rid.letGo (h : e.Rid txn) : (e.letGo txn).Rid txn := by
  intro page frame hpeek
  rw [Tracks.cache_letGo] at hpeek
  exact h page frame hpeek

/-- Whatever a commit answers, no changes of its transaction are left. -/
theorem Coherent.commit_rids (hreg : e.catalog.Registered) (h : Coherent capacity e)
    (txn : TxnId) : NoNewChanges e ((Engine.commit txn).after e) ∧
      ((Engine.commit txn).after e).Rid txn := by
  refine ends_after (R := fun e' => NoNewChanges e e' ∧ e'.Rid txn) |>.1
    ((h.commit_ends hreg txn).mono ?_ ?_)
  · rintro _ _ ⟨e₁, hwrites, rfl⟩
    refine ⟨?_, (hwrites.rid hreg h).letGo⟩
    obtain ⟨written, -, hwritten⟩ := hwrites
    exact hwritten.noNewChanges.trans (noNewChanges_letGo e₁ txn)
  · rintro _ _ ⟨cause, page, rest, e₁, e₂, e₃, -, ⟨written, hpages, hwritten⟩, hrefuses, hrestores,
      rfl⟩
    obtain ⟨log, rfl⟩ := hrefuses.exists_log
    obtain ⟨hnodup, -, hdirtied, -⟩ := dirtiedBy_split hpages
    obtain ⟨h₁, -⟩ := hwritten.wrote hreg h hnodup hdirtied
    refine ⟨?_, (hrestores.rid (h₁.log log)).letGo⟩
    have hsecond : NoNewChanges e₁ e₃ := hrestores.noNewChanges
    exact (hwritten.noNewChanges.trans hsecond).trans (noNewChanges_letGo e₃ txn)

theorem Coherent.abort_rids (hreg : e.catalog.Registered) (h : Coherent capacity e)
    (txn : TxnId) : NoNewChanges e ((Engine.abort txn).after e) ∧
      ((Engine.abort txn).after e).Rid txn := by
  refine ends_after (R := fun e' => NoNewChanges e e' ∧ e'.Rid txn) |>.1
    ((h.abort_ends hreg txn).mono ?_ fun _ _ hfail => hfail.elim)
  rintro _ _ ⟨e₁, hrestores, rfl⟩
  exact ⟨hrestores.noNewChanges.trans (noNewChanges_letGo e₁ txn), (hrestores.rid h).letGo⟩

theorem Coherent.forM_writeBack_noNewChanges (hreg : e.catalog.Registered) (h : Coherent capacity e)
    (pages : List PageId) :
    (pages.forM writeBack).Ends e (fun _ => NoNewChanges e) (fun _ => NoNewChanges e) := by
  refine (h.forM_writeBack_ends hreg pages).mono (fun _ _ hw => hw.noNewChanges) ?_
  rintro _ _ ⟨cause, written, page, rest, e₁, -, -, hwritten, hrefuses⟩
  obtain ⟨log, rfl⟩ := hrefuses.exists_log
  exact hwritten.noNewChanges

end

/-! ## Changes and histories -/

/-- Each page with changes has a pending change of its dirtier. -/
def History.Accounts (history : History) (e : Engine) : Prop :=
  ∀ page frame txn, e.pool.cache.peek page = some frame → frame.page.dirtier = some txn →
    ∃ change ∈ history.pending txn, change.record.page = page

/-- Nobody gives back the lock on a page that he has changed since he
began. -/
def Call.KeepsLocks (history : History) : List Call → Engine → Prop
  | [], _ => True
  | call :: calls, e =>
    (∀ txn page, call = .release txn page →
      ∀ change ∈ history.pending txn, change.record.page ≠ page) ∧
    KeepsLocks (history.note e.catalog call (call.run e)) calls (call.after e)

namespace History.Accounts

variable {capacity : Nat} {history history' : History} {txn : TxnId} {e e' : Engine}

theorem of_empty (h : e.pool = .empty capacity) : History.empty.Accounts e := by
  intro page frame txn hpeek
  rw [h, Pool.peek_empty] at hpeek
  cases hpeek

theorem mono (h : history.Accounts e) (hnew : NoNewChanges e e') : history.Accounts e' := by
  intro page frame txn hpeek hdirty
  exact h page frame txn (hnew page frame (by rw [hdirty]; nofun) hpeek) hdirty

/-- The history of a transaction that has ended may be forgotten. -/
theorem drop (h : history.Accounts e) (hnew : NoNewChanges e e') (hrid : e'.Rid txn) :
    (history.drop txn).Accounts e' := by
  intro page frame writer hpeek hdirty
  have hne : writer ≠ txn := by
    rintro rfl
    exact hrid page frame hpeek hdirty
  simp only [History.drop, if_neg hne]
  exact h.mono hnew page frame writer hpeek hdirty

theorem change {page : PageId} {frame : Frame} {changed : Page} {change : Change}
    (hguarded : Guarded e) (h : history.Accounts e) (hpeek : e.pool.cache.peek page = some frame)
    (hid : changed.id = frame.page.id) (hpage : change.record.page = page) :
    (history.add txn change).Accounts (e.store (changed.markDirty txn)) := by
  have hkey : (changed.markDirty txn).id = page := hid.trans (hguarded.keyed page frame hpeek)
  intro p frame' writer hpeek' hdirty
  rw [Engine.store, Pool.store, Recency.peek_modify, hkey] at hpeek'
  simp only [History.add]
  split at hpeek'
  · rename_i hp
    subst hp
    rw [hpeek] at hpeek'
    cases hpeek'
    obtain rfl : txn = writer := Option.some.inj hdirty
    rw [if_pos rfl]
    exact ⟨change, List.mem_append_right _ List.mem_cons_self, hpage⟩
  · obtain ⟨old, hold, holdpage⟩ := h p frame' writer hpeek' hdirty
    split
    · exact ⟨old, List.mem_append_left _ hold, holdpage⟩
    · exact ⟨old, hold, holdpage⟩

theorem call (hreg : e.catalog.Registered) (hcoherent : Coherent capacity e)
    (hguarded : Guarded e) (h : history.Accounts e) (call : Call) :
    (history.note e.catalog call (call.run e)).Accounts (call.after e) := by
  cases call with
  | getPage txn page access =>
      have hpath : QuietPath txn e ((Call.getPage txn page access).after e) :=
        ((getPage_moves txn page access).map Answer.frame).after e
      exact h.mono hpath.noNewChanges
  | evict latched =>
      have hpath : QuietPath ⟨0⟩ e ((Call.evict latched).after e) :=
        ((evict_moves ⟨0⟩ latched).map fun _ => Answer.done).after e
      exact h.mono hpath.noNewChanges
  | scan stop source =>
      have hpath : QuietPath source.txn e ((Call.scan stop source).after e) :=
        ((scan_moves stop source).map fun answer => Answer.items answer.1 answer.2).after e
      exact h.mono hpath.noNewChanges
  | insert txn table tuple =>
      simp only [Call.after, Call.run, after_map, map_apply]
      cases hrun : Engine.insert txn table tuple e with
      | ok answer e' =>
          rw [after_of_ok hrun]
          obtain ⟨hpath, hpeek, howns, hinsert⟩ := (insert_ends txn table tuple e).of_ok hrun
          have hguarded₁ := hguarded.movePath hpath.movePath
          have hrecord := (Page.page_of_insert hinsert).trans (hguarded₁.keyed _ _ hpeek)
          exact (h.mono hpath.noNewChanges).change hguarded₁ hpeek
            (Page.Becomes.insert hinsert).id_eq
            hrecord
      | error failure e' =>
          rw [after_of_error hrun]
          exact h.mono ((insert_ends txn table tuple e).of_error hrun).noNewChanges
  | delete txn record =>
      simp only [Call.after, Call.run, after_map, map_apply]
      cases hrun : Engine.delete txn record e with
      | ok answer e' =>
          rw [after_of_ok hrun]
          obtain ⟨address, rfl, hpath, hpeek, howns, hdelete⟩ :=
            (delete_ends txn record e).of_ok hrun
          exact (h.mono hpath.noNewChanges).change (hguarded.movePath hpath.movePath) hpeek
            (Page.Becomes.delete hdelete).id_eq rfl
      | error failure e' =>
          rw [after_of_error hrun]
          have hquiet := h.mono ((delete_ends txn record e).of_error hrun).noNewChanges
          cases record <;> exact hquiet
  | commit txn =>
      obtain ⟨hnew, hrid⟩ := hcoherent.commit_rids hreg txn
      simp only [Call.after, Call.run, after_map, map_apply]
      cases Engine.commit txn e <;> exact h.drop hnew hrid
  | abort txn =>
      obtain ⟨hnew, hrid⟩ := hcoherent.abort_rids hreg txn
      simp only [Call.after, Call.run, after_map, map_apply]
      exact h.drop hnew hrid
  | flushPage page =>
      refine h.mono (ends_after (R := NoNewChanges e) |>.1 (ends_map.2 ?_))
      refine (hcoherent.writeBack_ends page).mono (fun _ _ hwrites => hwrites.noNewChanges) ?_
      rintro _ _ ⟨cause, -, hrefuses⟩
      obtain ⟨log, rfl⟩ := hrefuses.exists_log
      exact .refl e
  | flushPages txn =>
      refine h.mono (ends_after (R := NoNewChanges e) |>.1 (ends_map.2 ?_))
      simp only [Engine.flushPages, ends_bind, ends_get]
      exact hcoherent.forM_writeBack_noNewChanges hreg _
  | flushAll =>
      refine h.mono (ends_after (R := NoNewChanges e) |>.1 (ends_map.2 ?_))
      simp only [Engine.flushAll, ends_bind, ends_get]
      exact hcoherent.forM_writeBack_noNewChanges hreg _
  | discard page =>
      refine h.mono fun p frame _ (hpeek : (e.pool.discard page).cache.peek p = some frame) => ?_
      rw [Pool.discard, Recency.peek_remove] at hpeek
      split at hpeek
      · cases hpeek
      · exact hpeek
  | release txn page => exact h

end History.Accounts

/-! ## Reading again -/

/-- What a call may do while a transaction relies on a page: it neither ends
the transaction nor gives back its lock, and drops the page only clean. -/
def Call.Spares (txn : TxnId) (page : PageId) (call : Call) (e : Engine) : Prop :=
  match call with
  | .commit t | .abort t => t ≠ txn
  | .release t p => ¬(t = txn ∧ p = page)
  | .discard p => p = page →
    ∀ frame, e.pool.cache.peek page = some frame → frame.page.dirtier = none
  | _ => True

def Call.SparesAll (txn : TxnId) (page : PageId) : List Call → Engine → Prop
  | [], _ => True
  | call :: calls, e => call.Spares txn page e ∧ SparesAll txn page calls (call.after e)

/-- The edit of a page that a transaction has made by a call, by the result
of the call. -/
def Call.edit? (txn : TxnId) (page : PageId) (call : Call)
    (result : EStateM.Result Failure Engine Answer) : Option Edit :=
  match call, result with
  | .insert t _ tuple, .ok (.tuple stored) _ =>
    match stored.record with
    | some record => if t = txn ∧ record.page = page then some (.insert tuple record) else none
    | none => none
  | .delete t (some record), .ok _ _ =>
    if t = txn ∧ record.page = page then some (.delete record) else none
  | _, _ => none

def Call.edits (txn : TxnId) (page : PageId) : List Call → Engine → List Edit
  | [], _ => []
  | call :: calls, e =>
    (call.edit? txn page (call.run e)).toList ++ edits txn page calls (call.after e)

section

variable {capacity : Nat} {txn : TxnId} {page : PageId} {x : Page} {e e' : Engine}

theorem Pinned.inserts {t : TxnId} {tuple answer : Tuple} (hreg : e.catalog.Registered)
    (hwithin : Within e e') (hcoherent : Coherent capacity e) (h : Pinned txn page x e)
    (hinserts : Inserts t tuple e answer e') :
    ∃ record y, answer.record = some record ∧ Pinned txn page y e' ∧
      if t = txn ∧ record.page = page then x.edit? (.insert tuple record) = some y else x = y := by
  cases hinserts with
  | @mk e₁ p frame record changed hpath hpeek howns hinsert =>
      have hwithin₁ : Within e e₁ := hwithin
      have hcoherent₁ := hcoherent.movePath hreg hwithin₁ hpath.movePath
      have hrecord := (Page.page_of_insert hinsert).trans (hcoherent₁.id_eq hpeek)
      obtain ⟨hother, hown⟩ := (h.quietPath hreg hwithin₁ hcoherent hpath).change hcoherent₁ hpeek
        howns (Page.Becomes.insert hinsert).id_eq
      by_cases hp : p = page
      · obtain ⟨rfl, hsame, hpinned⟩ := hown hp
        obtain ⟨y, hinsert', hy⟩ := Page.insert_congr hsame hinsert
        refine ⟨record, y, rfl, ⟨hpinned.held, by rw [hpinned.view, hy]⟩, ?_⟩
        rw [if_pos ⟨rfl, hrecord.trans hp⟩]
        simp only [Page.edit?, hinsert', if_true]
      · refine ⟨record, x, rfl, hother hp, ?_⟩
        rw [if_neg fun hboth => hp (hrecord.symm.trans hboth.2)]

theorem Pinned.deletes {t : TxnId} {record : RecordId} (hreg : e.catalog.Registered)
    (hwithin : Within e e') (hcoherent : Coherent capacity e) (h : Pinned txn page x e)
    (hdeletes : Deletes t record e e') :
    ∃ y, Pinned txn page y e' ∧
      if t = txn ∧ record.page = page then x.edit? (.delete record) = some y else x = y := by
  cases hdeletes with
  | @mk e₁ frame changed hpath hpeek howns hdelete =>
      have hwithin₁ : Within e e₁ := hwithin
      have hcoherent₁ := hcoherent.movePath hreg hwithin₁ hpath.movePath
      obtain ⟨hother, hown⟩ := (h.quietPath hreg hwithin₁ hcoherent hpath).change hcoherent₁ hpeek
        howns (Page.Becomes.delete hdelete).id_eq
      by_cases hp : record.page = page
      · obtain ⟨rfl, hsame, hpinned⟩ := hown hp
        obtain ⟨y, hdelete', hy⟩ := Page.delete_congr hsame hdelete
        refine ⟨y, ⟨hpinned.held, by rw [hpinned.view, hy]⟩, ?_⟩
        rw [if_pos ⟨rfl, hp⟩, Page.edit?, hdelete']
        rfl
      · refine ⟨x, hother hp, ?_⟩
        rw [if_neg fun hboth => hp hboth.2]

theorem Pinned.forM_writeBack (hreg : e.catalog.Registered) (hcoherent : Coherent capacity e)
    (h : Pinned txn page x e) (pages : List PageId) :
    (pages.forM writeBack).Ends e (fun _ => Pinned txn page x) (fun _ => Pinned txn page x) := by
  refine (hcoherent.forM_writeBack_ends hreg pages).mono
    (fun _ _ hwritten => h.written hreg hcoherent hwritten) ?_
  rintro _ _ ⟨cause, written, p, rest, e₁, -, -, hwritten, hrefuses⟩
  exact (h.written hreg hcoherent hwritten).refused hrefuses

/-- A call changes the view of a pinned page by the edit that the transaction
makes with it, if it makes one. -/
theorem Pinned.call (hreg : e.catalog.Registered) (hcoherent : Coherent capacity e)
    (hguarded : Guarded e) {call : Call} (hwithin : Within e (call.after e))
    (hspares : call.Spares txn page e) (h : Pinned txn page x e) :
    ∃ y, x.replay? (call.edit? txn page (call.run e)).toList = some y ∧
      Pinned txn page y (call.after e) := by
  have hquiet : ∀ {t e'}, Within e e' → QuietPath t e e' → Pinned txn page x e' :=
    fun hwithin hpath => h.quietPath hreg hwithin hcoherent hpath
  cases call with
  | getPage t p access =>
      have hpath : QuietPath t e ((Call.getPage t p access).after e) :=
        ((getPage_moves t p access).map Answer.frame).after e
      exact ⟨x, rfl, hquiet hwithin hpath⟩
  | evict latched =>
      have hpath : QuietPath ⟨0⟩ e ((Call.evict latched).after e) :=
        ((evict_moves ⟨0⟩ latched).map fun _ => Answer.done).after e
      exact ⟨x, rfl, hquiet hwithin hpath⟩
  | scan stop source =>
      have hpath : QuietPath source.txn e ((Call.scan stop source).after e) :=
        ((scan_moves stop source).map fun answer => Answer.items answer.1 answer.2).after e
      exact ⟨x, rfl, hquiet hwithin hpath⟩
  | insert t table tuple =>
      simp only [Call.after, Call.run, after_map, map_apply] at hwithin ⊢
      cases hrun : Engine.insert t table tuple e with
      | ok answer e' =>
          rw [after_of_ok hrun] at hwithin ⊢
          obtain ⟨record, y, hrecord, hpinned, hedit⟩ :=
            h.inserts hreg hwithin hcoherent ((insert_ends t table tuple e).of_ok hrun)
          refine ⟨y, ?_, hpinned⟩
          simp only [Call.edit?, hrecord]
          split at hedit
          · rename_i hown
            rw [if_pos hown]
            simp [Page.replay?, hedit]
          · rename_i hother
            rw [if_neg hother]
            exact congrArg some hedit
      | error failure e' =>
          rw [after_of_error hrun] at hwithin ⊢
          exact ⟨x, rfl, hquiet hwithin ((insert_ends t table tuple e).of_error hrun)⟩
  | delete t record =>
      simp only [Call.after, Call.run, after_map, map_apply] at hwithin ⊢
      cases hrun : Engine.delete t record e with
      | ok answer e' =>
          rw [after_of_ok hrun] at hwithin ⊢
          obtain ⟨address, rfl, hdeletes⟩ := (delete_ends t record e).of_ok hrun
          obtain ⟨y, hpinned, hedit⟩ := h.deletes hreg hwithin hcoherent hdeletes
          refine ⟨y, ?_, hpinned⟩
          simp only [Call.edit?]
          split at hedit
          · rename_i hown
            rw [if_pos hown]
            simp [Page.replay?, hedit]
          · rename_i hother
            rw [if_neg hother]
            exact congrArg some hedit
      | error failure e' =>
          rw [after_of_error hrun] at hwithin ⊢
          refine ⟨x, ?_, hquiet hwithin ((delete_ends t record e).of_error hrun)⟩
          cases record <;> rfl
  | commit t =>
      have hpinned := h.commit hreg hcoherent hguarded hspares
      exact ⟨x, rfl, by simpa only [Call.after, Call.run, after_map] using hpinned⟩
  | abort t =>
      have hpinned := h.abort hreg hcoherent hguarded hspares
      exact ⟨x, rfl, by simpa only [Call.after, Call.run, after_map] using hpinned⟩
  | flushPage p =>
      refine ⟨x, rfl, ends_after (R := Pinned txn page x) |>.1 (ends_map.2 ?_)⟩
      refine (hcoherent.writeBack_ends p).mono ?_ ?_
      · exact fun _ _ hwrites => h.written hreg hcoherent (.cons hwrites .nil)
      · rintro _ _ ⟨cause, -, hrefuses⟩
        exact h.refused hrefuses
  | flushPages t =>
      refine ⟨x, rfl, ends_after (R := Pinned txn page x) |>.1 (ends_map.2 ?_)⟩
      simp only [Engine.flushPages, ends_bind, ends_get]
      exact h.forM_writeBack hreg hcoherent _
  | flushAll =>
      refine ⟨x, rfl, ends_after (R := Pinned txn page x) |>.1 (ends_map.2 ?_)⟩
      simp only [Engine.flushAll, ends_bind, ends_get]
      exact h.forM_writeBack hreg hcoherent _
  | discard p =>
      refine ⟨x, rfl, h.held, ?_⟩
      rw [← h.view]
      by_cases hp : p = page
      · subst hp
        exact hcoherent.view?_discard (hspares rfl) p
      · refine view?_congr ?_ rfl
        exact (Recency.peek_remove ..).trans (if_neg hp)
  | release t p => exact ⟨x, rfl, LockTable.holds_release hspares h.held, h.view⟩

end

/-! ## Runs -/

/-- What the calls of a run rest on. -/
structure Orderly (capacity : Nat) (history : History) (e : Engine) : Prop where
  registered : e.catalog.Registered
  coherent : Coherent capacity e
  guarded : Guarded e
  accounts : history.Accounts e

section

variable {capacity : Nat} {history : History} {txn : TxnId} {page : PageId} {x : Page} {e : Engine}

theorem Orderly.call (h : Orderly capacity history e) {call : Call}
    (hwithin : Within e (call.after e))
    (hrelease : ∀ txn page, call = .release txn page →
      ∀ change ∈ history.pending txn, change.record.page ≠ page) :
    Orderly capacity (history.note e.catalog call (call.run e)) (call.after e) := by
  refine ⟨?_, h.coherent.call h.registered call hwithin, ?_,
    h.accounts.call h.registered h.coherent h.guarded call⟩
  · rw [(call.grows e).catalog]
    exact h.registered
  · refine h.guarded.step (.call fun txn page hcall frame hpeek hdirty => ?_)
    obtain ⟨change, hchange, hpage⟩ := h.accounts page frame txn hpeek hdirty
    exact hrelease txn page hcall change hchange hpage

theorem Orderly.run (h : Orderly capacity history e) (calls : List Call) {rest : List Call}
    (hwithin : Within e (Call.afterAll calls e))
    (hkeeps : Call.KeepsLocks history (calls ++ rest) e) :
    Orderly capacity (history.noteAll e calls) (Call.afterAll calls e) ∧
      Call.KeepsLocks (history.noteAll e calls) rest (Call.afterAll calls e) := by
  induction calls generalizing history e with
  | nil => exact ⟨h, hkeeps⟩
  | cons call calls ih =>
      have hwithin₁ : Within e (call.after e) := (Call.grows_all calls _).within_left hwithin
      exact ih (h.call hwithin₁ hkeeps.1) ((call.grows e).within_right hwithin) hkeeps.2

theorem Pinned.run (hold : Orderly capacity history e) (calls : List Call)
    (hwithin : Within e (Call.afterAll calls e)) (hkeeps : Call.KeepsLocks history calls e)
    (hspares : Call.SparesAll txn page calls e) (h : Pinned txn page x e) :
    ∃ y, x.replay? (Call.edits txn page calls e) = some y ∧
      Pinned txn page y (Call.afterAll calls e) := by
  induction calls generalizing history e x with
  | nil => exact ⟨x, rfl, h⟩
  | cons call calls ih =>
      have hwithin₁ : Within e (call.after e) := (Call.grows_all calls _).within_left hwithin
      obtain ⟨y, hy, hpinned⟩ :=
        h.call hold.registered hold.coherent hold.guarded hwithin₁ hspares.1
      obtain ⟨z, hz, hlast⟩ := ih (hold.call hwithin₁ hkeeps.1)
        ((call.grows e).within_right hwithin) hkeeps.2 hspares.2 hpinned
      refine ⟨z, ?_, hlast⟩
      rw [Call.edits, Page.replay?_append, hy]
      exact hz

end

/-- A transaction gets a page, and gets it again later in a run of any calls on
an empty pool over registered files, none of which outgrows its page numbers.
If it has not ended in between, nor given the page back, and nobody has dropped
the page with changes on it, then it finds the bytes that it found first, with
the inserts and deletes that it has made on the page itself. -/
theorem repeatable_read {capacity : Nat} {start e₁ e₂ : Engine}
    (hreg : start.catalog.Registered) (hstart : start.pool = .empty capacity)
    (done between : List Call) {txn : TxnId} {page : PageId} {access access' : Access}
    {first later : Frame}
    (hfirst : getPage txn page access (Call.afterAll done start) = .ok first e₁)
    (hlater : getPage txn page access' (Call.afterAll between e₁) = .ok later e₂)
    (hwithin : Within start e₂)
    (hkeeps : Call.KeepsLocks .empty (done ++ .getPage txn page access :: between) start)
    (hspares : Call.SparesAll txn page between e₁) :
    ∃ x, first.page.replay? (Call.edits txn page between e₁) = some x ∧
      later.page.data = x.data := by
  have hfetch := (getPage_ends txn page access _).of_ok hfirst
  have hfetch' := (getPage_ends txn page access' _).of_ok hlater
  have hgrows : Grows (Call.afterAll done start) e₁ := hfetch.quiet.movePath.grows
  have hgrows' : Grows (Call.afterAll between e₁) e₂ := hfetch'.quiet.movePath.grows
  have hwithin₂ := hgrows'.within_left hwithin
  have hwithin₁ := (Call.grows_all between e₁).within_left hwithin₂
  have hwithin₀ := hgrows.within_left hwithin₁
  -- The first look is a call of its own.
  have hcall : (Call.getPage txn page access).after (Call.afterAll done start) = e₁ := by
    rw [Call.after, Call.run, after_map, after_of_ok hfirst]
  obtain ⟨horderly, hrest⟩ := Orderly.run
    ⟨hreg, .of_empty hstart, .of_empty hstart, .of_empty hstart⟩ done hwithin₀ hkeeps
  have hwithin_first : Within (Call.afterAll done start)
      ((Call.getPage txn page access).after (Call.afterAll done start)) := by
    rw [hcall]
    exact (Call.grows_all done start).within_right hwithin₁
  have horderly₁ := horderly.call hwithin_first hrest.1
  have hkeeps₁ := hrest.2
  rw [hcall] at horderly₁ hkeeps₁
  have hwithin_between : Within e₁ (Call.afterAll between e₁) :=
    ((Call.grows_all done start).trans hgrows).within_right hwithin₂
  have hpinned : Pinned txn page first.page e₁ :=
    ⟨LockTable.holds_of_acquire? hfetch.acquire?, view?_of_peek hfetch.peek⟩
  obtain ⟨x, hx, hlast⟩ := hpinned.run horderly₁ between hwithin_between hkeeps₁ hspares
  have hcoherent := horderly₁.coherent.run horderly₁.registered between hwithin_between
  have hview := hfetch'.view?_eq hcoherent page
  rw [view?_of_peek hfetch'.peek, hlast.view, Option.some.injEq] at hview
  have hdata : later.page.markClean.data = x.markClean.data := congrArg Page.data hview
  exact ⟨x, hx, hdata⟩

/-- What happens between two looks at a page: the reader inserts a row there,
somebody else writes to another table, and the page is written and leaves the
pool. -/
def Call.meanwhile : List Call :=
  [.insert ⟨2⟩ ⟨0⟩ (.single 8), .insert ⟨3⟩ ⟨1⟩ (.single 9), .flushPage ⟨⟨0⟩, 0⟩,
    .evict fun _ => false, .commit ⟨3⟩]

theorem repeatable_read_meanwhile :
    ∃ first later x e₁ e₂,
      getPage ⟨2⟩ ⟨⟨0⟩, 0⟩ .read
        (Call.afterAll [.insert ⟨1⟩ ⟨0⟩ (.single 7), .commit ⟨1⟩] (.twoTables 2 .none))
          = .ok first e₁ ∧
      getPage ⟨2⟩ ⟨⟨0⟩, 0⟩ .read (Call.afterAll Call.meanwhile e₁) = .ok later e₂ ∧
      first.page.data = [1, 7, 0, 0, 0, 0, 0, 0, 0] ∧
      first.page.replay? (Call.edits ⟨2⟩ ⟨⟨0⟩, 0⟩ Call.meanwhile e₁) = some x ∧
      x.data = [3, 7, 0, 0, 0, 8, 0, 0, 0] := by
  have hruns : (match getPage ⟨2⟩ ⟨⟨0⟩, 0⟩ .read
        (Call.afterAll [.insert ⟨1⟩ ⟨0⟩ (.single 7), .commit ⟨1⟩] (.twoTables 2 .none)) with
      | .ok first e₁ =>
        match getPage ⟨2⟩ ⟨⟨0⟩, 0⟩ .read (Call.afterAll Call.meanwhile e₁) with
        | .ok later e₂ =>
          first.page.data = [1, 7, 0, 0, 0, 0, 0, 0, 0] ∧
            later.page.data = [3, 7, 0, 0, 0, 8, 0, 0, 0] ∧
            (HeapFile.pairs 0 "a").wholePages e₂.disk = 1 ∧
            (HeapFile.pairs 1 "b").wholePages e₂.disk = 1
        | .error _ _ => false
      | .error _ _ => false) = true := by decide +kernel
  cases hfirst : getPage ⟨2⟩ ⟨⟨0⟩, 0⟩ .read
      (Call.afterAll [.insert ⟨1⟩ ⟨0⟩ (.single 7), .commit ⟨1⟩] (.twoTables 2 .none)) with
  | error failure e₁ =>
      rw [hfirst] at hruns
      cases hruns
  | ok first e₁ =>
      simp only [hfirst] at hruns
      cases hlater : getPage ⟨2⟩ ⟨⟨0⟩, 0⟩ .read (Call.afterAll Call.meanwhile e₁) with
      | error failure e₂ =>
          rw [hlater] at hruns
          cases hruns
      | ok later e₂ =>
          simp only [hlater, decide_eq_true_eq] at hruns
          obtain ⟨hbefore, hafter, ha, hb⟩ := hruns
          have hwithin : Within (.twoTables 2 .none) e₂ := by
            intro id file hfile _
            rcases file_twoTables hfile with ⟨rfl, rfl⟩ | ⟨rfl, rfl⟩
            · rw [ha]
              decide
            · rw [hb]
              decide
          have hkeeps : Call.KeepsLocks .empty ([.insert ⟨1⟩ ⟨0⟩ (.single 7), .commit ⟨1⟩]
              ++ .getPage ⟨2⟩ ⟨⟨0⟩, 0⟩ .read :: Call.meanwhile) (.twoTables 2 .none) :=
            ⟨nofun, nofun, nofun, nofun, nofun, nofun, nofun, nofun, trivial⟩
          have hother : (⟨3⟩ : TxnId) ≠ ⟨2⟩ := by decide
          have hspares : Call.SparesAll ⟨2⟩ ⟨⟨0⟩, 0⟩ Call.meanwhile e₁ :=
            ⟨trivial, trivial, trivial, trivial, hother, trivial⟩
          obtain ⟨x, hx, hdata⟩ := repeatable_read (registered_twoTables 2 .none) rfl _ _ hfirst
            hlater hwithin hkeeps hspares
          exact ⟨first, later, x, e₁, e₂, rfl, hlater, hbefore, hx, hdata.symm.trans hafter⟩

end HeapStore
