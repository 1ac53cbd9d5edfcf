import HeapStore.Proofs.PageRequests
import HeapStore.Proofs.Residents
import HeapStore.Proofs.Views

/-!
# Looking at a page

A transaction that only wants to read a page of a table locks it and is given
the copy in the pool, or else the page in the file, for which a clean page may
have to leave the pool (`Engine.Answers`).

Whatever it is answered, nothing is changed by it that could be seen
(`Engine.Undisturbed`): files, log and pages with changes stay, and a page that
is in the pool afterwards was there before or is what its file has. So what a
later look shows, a first one would have shown (`Engine.Answers.of_undisturbed`).
-/

namespace HeapStore

open HeapStore.Action Engine

/-! ## What a look shows -/

/-- There is no room for one more page, and no page that may be dropped. -/
def Pool.NoRoom (pool : Pool) : Prop :=
  pool.capacity ≤ pool.cache.size ∧
    ∀ page frame, pool.cache.peek page = some frame → frame.page.isDirty = true

/-- A page that can be read from its file, as a copy in the pool would be clean
and may be dropped. -/
structure Engine.Reloads (e : Engine) (page : PageId) (x : Page) : Prop where
  room : ¬e.pool.NoRoom
  clean : ∀ frame, e.pool.cache.peek page = some frame → frame.page.isDirty = false
  stored : e.stored? page = some x

/-- What is shown as a page: the copy in the pool, with its changes, or the page
in the file. -/
inductive Engine.Shows (e : Engine) (page : PageId) : Page → Prop where
  | resident {frame : Frame} (hpeek : e.pool.cache.peek page = some frame) :
      Shows e page frame.page
  | reload {x : Page} (h : e.Reloads page x) : Shows e page x

/-- What a transaction is answered that wants to read a page. -/
inductive Engine.Answers (e : Engine) (txn : TxnId) (page : PageId) : Except Error Page → Prop where
  | aborted (hlock : ¬e.pool.locks.Admits txn page .shared) :
      Answers e txn page (.error (.transactionAborted txn page))
  | full (hlock : e.pool.locks.Admits txn page .shared)
      (habsent : e.pool.cache.peek page = none) (hfull : e.pool.NoRoom) :
      Answers e txn page (.error .bufferPoolFull)
  | shown {x : Page} (hlock : e.pool.locks.Admits txn page .shared) (hshows : e.Shows page x) :
      Answers e txn page (.ok x)

/-- Nothing was changed that could be seen. -/
structure Engine.Undisturbed (e e' : Engine) : Prop where
  catalog : e'.catalog = e.catalog
  files : e'.disk.files = e.disk.files
  writes : e'.disk.traffic.map Traffic.writes = e.disk.traffic.map Traffic.writes
  log : e'.log = e.log
  noRoom : e'.pool.NoRoom ↔ e.pool.NoRoom
  /-- Pages with changes are the same ones, and by the same transactions. -/
  dirty : ∀ page frame, frame.page.isDirty = true →
    (e'.pool.cache.peek page = some frame ↔ e.pool.cache.peek page = some frame)
  /-- The other pages in the pool were there, or are as their files have them. -/
  resident : ∀ page frame, e'.pool.cache.peek page = some frame →
    e.pool.cache.peek page = some frame ∨ e.Reloads page frame.page

section

variable {txn : TxnId} {page : PageId} {x : Page} {file : HeapFile} {e e₁ e' : Engine}

theorem Engine.Reloads.of_absent (hroom : ¬e.pool.NoRoom)
    (habsent : e.pool.cache.peek page = none) (hstored : e.stored? page = some x) :
    e.Reloads page x where
  room := hroom
  clean := fun frame hpeek => by
    rw [habsent] at hpeek
    cases hpeek
  stored := hstored

theorem Engine.Reloads.markClean_eq (h : e.Reloads page x) : x.markClean = x := by
  obtain ⟨file, -, -, rfl⟩ := stored?_eq_some_iff.1 h.stored
  rfl

theorem Engine.Reloads.isDirty_eq (h : e.Reloads page x) : x.isDirty = false := by
  rw [← h.markClean_eq]
  rfl

/-- A page without changes is seen as it is in its file. -/
theorem Coherent.view?_of_unchanged {capacity : Nat} (hcoherent : Coherent capacity e)
    (hclean : ∀ frame, e.pool.cache.peek page = some frame → frame.page.isDirty = false) :
    e.view? page = e.stored? page := by
  cases hpeek : e.pool.cache.peek page with
  | none => exact view?_of_absent hpeek
  | some frame =>
      exact hcoherent.view?_of_clean hpeek (by simpa [Page.isDirty] using hclean frame hpeek)

theorem Engine.Reloads.view?_eq {capacity : Nat} (h : e.Reloads page x)
    (hcoherent : Coherent capacity e) : e.view? page = some x :=
  (hcoherent.view?_of_unchanged h.clean).trans h.stored

/-- What is shown is what there is to be seen. -/
theorem Engine.Shows.view?_eq {capacity : Nat} (h : e.Shows page x)
    (hcoherent : Coherent capacity e) : e.view? page = some x.markClean := by
  cases h with
  | resident hpeek => exact view?_of_peek hpeek
  | reload hreloads => rw [hreloads.markClean_eq, hreloads.view?_eq hcoherent]

namespace Engine.Undisturbed

theorem of_locks (e : Engine) (locks : LockTable) :
    e.Undisturbed { e with pool := { e.pool with locks } } :=
  ⟨rfl, rfl, rfl, rfl, Iff.rfl, fun _ _ _ => Iff.rfl, fun _ _ hpeek => .inl hpeek⟩

theorem refl (e : Engine) : e.Undisturbed e := of_locks e e.pool.locks

theorem stored?_eq (h : e.Undisturbed e') (page : PageId) : e'.stored? page = e.stored? page :=
  stored?_congr h.catalog fun name => by simp only [Disk.content, Disk.sparse, h.files]

theorem reloads (h : e.Undisturbed e') (hreloads : e'.Reloads page x) : e.Reloads page x where
  room := fun hfull => hreloads.room (h.noRoom.2 hfull)
  clean := fun frame hpeek => by
    by_contra hdirty
    have hdirty := Bool.eq_true_of_not_eq_false hdirty
    rw [hreloads.clean frame ((h.dirty page frame hdirty).2 hpeek)] at hdirty
    cases hdirty
  stored := (h.stored?_eq page).symm.trans hreloads.stored

theorem shows (h : e.Undisturbed e') (hshows : e'.Shows page x) : e.Shows page x := by
  cases hshows with
  | resident hpeek => exact (h.resident page _ hpeek).elim .resident .reload
  | reload hreloads => exact .reload (h.reloads hreloads)

theorem trans (h : e.Undisturbed e₁) (h' : e₁.Undisturbed e') : e.Undisturbed e' where
  catalog := h'.catalog.trans h.catalog
  files := h'.files.trans h.files
  writes := h'.writes.trans h.writes
  log := h'.log.trans h.log
  noRoom := h'.noRoom.trans h.noRoom
  dirty := fun page frame hdirty => (h'.dirty page frame hdirty).trans (h.dirty page frame hdirty)
  resident := fun page frame hpeek =>
    (h'.resident page frame hpeek).elim (h.resident page frame) fun hreloads =>
      .inr (h.reloads hreloads)

/-- A page that has no room stays out. -/
theorem absent (h : e.Undisturbed e') (hfull : e.pool.NoRoom)
    (habsent : e'.pool.cache.peek page = none) : e.pool.cache.peek page = none := by
  cases hpeek : e.pool.cache.peek page with
  | none => rfl
  | some frame =>
      rw [(h.dirty page frame (hfull.2 page frame hpeek)).2 hpeek] at habsent
      cases habsent

/-- Where clean pages are as in their files, all pages are seen as before. -/
theorem view?_eq {capacity : Nat} (h : e.Undisturbed e') (hcoherent : Coherent capacity e)
    (page : PageId) : e'.view? page = e.view? page := by
  cases hpeek : e'.pool.cache.peek page with
  | some frame =>
      rw [view?_of_peek hpeek]
      rcases h.resident page frame hpeek with hbefore | hreloads
      · rw [view?_of_peek hbefore]
      · rw [hreloads.view?_eq hcoherent, hreloads.markClean_eq]
  | none =>
      rw [view?_of_absent hpeek, h.stored?_eq page, hcoherent.view?_of_unchanged]
      intro frame hbefore
      by_contra hdirty
      rw [(h.dirty page frame (Bool.eq_true_of_not_eq_false hdirty)).2 hbefore] at hpeek
      cases hpeek

end Engine.Undisturbed

/-- A transaction can lock what it could have locked, as long as the others hold
what they held. -/
theorem LockTable.admits_congr {table table' : LockTable} {mode : LockMode}
    (h : ∀ other, other ≠ txn → table'.mode? other page = table.mode? other page) :
    table'.Admits txn page mode ↔ table.Admits txn page mode := by
  refine forall_congr' fun other => forall_congr' fun held => forall_congr' fun hne => ?_
  rw [h other hne]

/-- What is answered later would have been answered at once. -/
theorem Engine.Answers.of_undisturbed {answer : Except Error Page} (h : e.Undisturbed e')
    (hothers : ∀ other, other ≠ txn →
      e'.pool.locks.mode? other page = e.pool.locks.mode? other page)
    (hanswer : e'.Answers txn page answer) : e.Answers txn page answer := by
  have hadmits : e'.pool.locks.Admits txn page .shared ↔ e.pool.locks.Admits txn page .shared :=
    LockTable.admits_congr hothers
  cases hanswer with
  | aborted hlock => exact .aborted (hadmits.not.1 hlock)
  | full hlock habsent hfull =>
      have hfull := h.noRoom.1 hfull
      exact .full (hadmits.1 hlock) (h.absent hfull habsent) hfull
  | shown hlock hshows => exact .shown (hadmits.1 hlock) (h.shows hshows)

/-! ## One look -/

namespace Requests

variable {mode : LockMode} {answer : Except Failure Frame}

theorem undisturbed (h : Requests txn page mode e answer e')
    (hhas : ∀ file, e.catalog.file page.table = .ok file → file.Has e.disk page) :
    e.Undisturbed e' := by
  have hspares := h.spares
  cases h with
  | refused _ => exact .refl e
  | unknown _ _ _ | full _ _ _ _ _ => exact .of_locks e _
  | @hit locks frame hlock hpeek =>
      have hsame : ∀ p, (e.pool.cache.put page frame).peek p = e.pool.cache.peek p :=
        fun p => peek_use hpeek
      have hsize : (e.pool.cache.put page frame).size = e.pool.cache.size := by
        rw [Recency.size_put, hpeek, Option.isSome_some, if_pos rfl]
      exact ⟨rfl, rfl, rfl, rfl, by simp only [Pool.NoRoom, hsame, hsize],
        fun p _ _ => by simp only [hsame], fun p frame hpeek => .inl (by rwa [← hsame])⟩
  | unread _ _ hfile hroom hread =>
      rw [hroom.disk_eq, HeapFile.readPage_eq (hhas _ hfile)] at hread
      cases hread
  | @load e₁ locks file loaded disk hlock habsent hfile hroom hread =>
      have habsent₁ := hroom.peek_eq_none habsent
      have hid := HeapFile.id_of_readPage hread
      have hstored : e.stored? page = some loaded :=
        stored?_of_readPage hfile (hroom.disk_eq ▸ hread)
      have hreloads : e.Reloads page loaded := .of_absent hroom.not_full habsent hstored
      have hpeek : ∀ p, (e₁.pool.install loaded).2.cache.peek p
          = if page = p then some ⟨loaded, e₁.pool.copies⟩ else e₁.pool.cache.peek p := by
        intro p
        rw [Pool.install, Recency.peek_put, hid]
      refine ⟨hspares.catalog, hspares.files, hspares.writes, hspares.log,
        iff_of_false (fun hfull => ?_) hroom.not_full, fun p frame hdirty => ?_,
        fun p frame hpeek' => ?_⟩
      · have hloaded := hfull.2 page ⟨loaded, e₁.pool.copies⟩ ((hpeek page).trans (if_pos rfl))
        rw [hreloads.isDirty_eq] at hloaded
        cases hloaded
      · have hdirty : frame.page.dirtier ≠ none := Option.isSome_iff_ne_none.1 hdirty
        rw [peek_dirty_install habsent₁ hread hdirty, hroom.peek_dirty hdirty]
      · rw [hpeek] at hpeek'
        split at hpeek'
        · rename_i hp
          cases hpeek'
          exact .inr (hp ▸ hreloads)
        · exact .inl (hroom.peek_of_peek hpeek')

/-- A request to read a page that its file has is answered in one of three
ways. -/
theorem answers (hproper : e.pool.locks.Proper) (hfile : e.catalog.file page.table = .ok file)
    (hhas : file.Has e.disk page) (h : Requests txn page .shared e answer e') :
    (∃ cause, answer = .error (.error cause) ∧ e.Answers txn page (.error cause)) ∨
      ∃ frame, answer = .ok frame ∧ e.Answers txn page (.ok frame.page) := by
  have hadmits : ∀ {locks}, e.pool.locks.acquire? txn page .shared = some locks →
      e.pool.locks.Admits txn page .shared := fun hlock =>
    hproper.acquire?_isSome_iff.1 (hlock ▸ rfl)
  cases h with
  | refused hrefused =>
      refine .inl ⟨_, rfl, .aborted fun hadmits => ?_⟩
      rw [← hproper.acquire?_isSome_iff, hrefused] at hadmits
      cases hadmits
  | hit hlock hpeek => exact .inr ⟨_, rfl, .shown (hadmits hlock) (.resident hpeek)⟩
  | unknown _ _ hunknown =>
      rw [hfile] at hunknown
      cases hunknown
  | full hlock habsent _ hfull hnone =>
      exact .inl ⟨_, rfl, .full (hadmits hlock) habsent
        ⟨Pool.isFull_iff.1 hfull, Pool.victim?_eq_none_iff.1 hnone⟩⟩
  | unread _ _ hfile' hroom hread =>
      obtain rfl := Except.ok.inj (hfile.symm.trans hfile')
      rw [hroom.disk_eq, HeapFile.readPage_eq hhas] at hread
      cases hread
  | load hlock habsent hfile' hroom hread =>
      have hstored := stored?_of_readPage hfile' (hroom.disk_eq ▸ hread)
      exact .inr ⟨_, rfl, .shown (hadmits hlock)
        (.reload (.of_absent hroom.not_full habsent hstored))⟩

end Requests

theorem Action.attempt_eq {α : Type} {action : Action α} {outcome : Except Error α}
    (h : action.answer e = outcome.mapError .error) :
    attempt action e = .ok outcome (action.after e) := by
  unfold answer at h
  unfold attempt after
  cases hrun : action e with
  | ok value e' =>
      rw [hrun] at h
      cases outcome with
      | ok _ =>
          cases h
          rfl
      | error cause => cases h
  | error failure e' =>
      rw [hrun] at h
      cases outcome with
      | ok _ => cases h
      | error cause =>
          cases h
          rfl

/-- A transaction looks at a page, is given an answer, and has the page locked
unless the lock was refused. -/
structure Engine.Looks (txn : TxnId) (page : PageId) (e : Engine) (answer : Except Error Page)
    (e' : Engine) : Prop where
  run : ∃ outcome : Except Error Frame,
    Action.attempt (getPage txn page .read) e = .ok outcome e' ∧
      outcome.map Frame.page = answer
  answers : e.Answers txn page answer
  undisturbed : e.Undisturbed e'
  locked : e.pool.locks.Admits txn page .shared →
    ∃ mode, e'.pool.locks.mode? txn page = some mode
  others : ∀ other p, other ≠ txn ∨ p ≠ page →
    e'.pool.locks.mode? other p = e.pool.locks.mode? other p
  reached : e'.Reached

theorem Engine.Reached.keyed (h : e.Reached) : e.pool.Keyed := by
  induction h with
  | start hpool _ =>
      intro page frame hpeek
      rw [hpool, Pool.peek_empty] at hpeek
      cases hpeek
  | call call _ ih => exact Call.keyed ih call
  | surroundings _ _ ih => exact ih

/-- A page that its file has can be looked at, in every state that one comes to
with a pool. -/
theorem Engine.Reached.looks (h : e.Reached) (txn : TxnId)
    (hfile : e.catalog.file page.table = .ok file) (hhas : file.Has e.disk page) :
    ∃ answer e', Looks txn page e answer e' := by
  have hrequests := getPage_requests txn page .read e
  have hundisturbed := hrequests.undisturbed fun file' hfile' =>
    Except.ok.inj (hfile.symm.trans hfile') ▸ hhas
  obtain ⟨hrefused, hgranted, -, hothers⟩ := page_request_effect h txn page .read
  have hlocked : e.pool.locks.Admits txn page .shared →
      ∃ mode, ((getPage txn page .read).after e).pool.locks.mode? txn page = some mode :=
    fun hadmits => (hgranted hadmits).1.imp fun _ h => h.1
  have hreached : ((getPage txn page .read).after e).Reached := by
    have hcall := h.call (.getPage txn page .read)
    rwa [Call.after, Call.run, after_map] at hcall
  have hanswers := hrequests.answers h.proper hfile hhas
  rcases hanswers with ⟨cause, hanswer, hanswers⟩ | ⟨frame, hanswer, hanswers⟩
  · exact ⟨_, _, ⟨.error cause, attempt_eq hanswer, rfl⟩, hanswers, hundisturbed, hlocked,
      hothers, hreached⟩
  · exact ⟨_, _, ⟨.ok frame, attempt_eq hanswer, rfl⟩, hanswers, hundisturbed, hlocked,
      hothers, hreached⟩

end

end HeapStore
