import HeapStore.Proofs.Lockstep
import HeapStore.Proofs.PageRequests
import HeapStore.Proofs.SlotMap
import HeapStore.Proofs.Views

/-!
# Searching for room

An insert looks at the pages of its table one after the other, and goes on while
they are full. However long it looks, and wherever it breaks off, what there is
to see of the pages stays, and so do the changed pages, the files and the log
(`Engine.Keeps`). Of the locks at most the one on the last page that it looked
at has grown (`LockTable.Gains`): on a page that is full, the transaction has
afterwards the lock that it had before, or none.

A search that finds room ends with the change of one page (`Edits`); so does a
delete. When all pages are full, the page that is appended is empty, so that the
first attempt to append is the last.

Headline lemmas: `Ready.insert_ends`, `Ready.delete_ends` and
`Ready.insertBehind_apply`.
-/

namespace HeapStore

open HeapStore.Action Engine

theorem LockMode.stronger_shared (a : LockMode) : a.stronger .shared = a := by
  cases a <;> rfl

@[simp] theorem LockMode.stronger_exclusive (a : LockMode) : a.stronger .exclusive = .exclusive := by
  cases a <;> rfl

/-! ## What a search keeps -/

/-- The same is to be seen of each page, and the same pages have changes; files
and log are as they were. -/
structure Engine.Keeps (e e' : Engine) : Prop where
  catalog : e'.catalog = e.catalog
  files : e'.disk.files = e.disk.files
  log : e'.log = e.log
  view : ∀ p, e'.view? p = e.view? p
  dirty : ∀ p frame, frame.page.dirtier ≠ none →
    (e'.pool.cache.peek p = some frame ↔ e.pool.cache.peek p = some frame)

/-- The locks are those that there were, but for one of the transaction, which
may have been granted or become stronger. -/
structure LockTable.Gains (table : LockTable) (txn : TxnId) (page : PageId)
    (table' : LockTable) : Prop where
  others : ∀ other p, ¬(other = txn ∧ p = page) → table'.mode? other p = table.mode? other p
  grows : ∀ mode, table.mode? txn page = some mode →
    ∃ mode', table'.mode? txn page = some mode' ∧ mode ≤ mode'

/-- What searches rest on: registered files with room for a tuple on each page,
and a pool that mirrors them under proper locks. -/
structure Ready (capacity : Nat) (e : Engine) : Prop where
  registered : e.catalog.Registered
  roomy : ∀ id file, e.catalog.file id = .ok file →
    1 ≤ Page.slotsPerPage file.pageSize file.schema
  coherent : Coherent capacity e
  proper : e.pool.locks.Proper

section

variable {capacity : Nat} {txn : TxnId} {page p : PageId} {mode : LockMode} {frame : Frame}
  {e e₁ e₂ e' : Engine}

namespace Engine.Keeps

theorem refl (e : Engine) : e.Keeps e := ⟨rfl, rfl, rfl, fun _ => rfl, fun _ _ _ => Iff.rfl⟩

theorem trans (h : e.Keeps e₁) (h' : e₁.Keeps e₂) : e.Keeps e₂ where
  catalog := h'.catalog.trans h.catalog
  files := h'.files.trans h.files
  log := h'.log.trans h.log
  view := fun p => (h'.view p).trans (h.view p)
  dirty := fun p frame hdirty => (h'.dirty p frame hdirty).trans (h.dirty p frame hdirty)

/-- Locks play no part. -/
theorem setLocks (h : e.Keeps e') (locks : LockTable) :
    e.Keeps { e' with pool := { e'.pool with locks } } := ⟨h.catalog, h.files, h.log, h.view, h.dirty⟩

theorem content_eq (h : e.Keeps e') (name : String) : e'.disk.content name = e.disk.content name :=
  congrArg Sparse.toBytes (Disk.sparse_congr h.files name)

end Engine.Keeps

namespace LockTable.Gains

variable {table table₁ table₂ : LockTable}

theorem refl (table : LockTable) (txn : TxnId) (page : PageId) : table.Gains txn page table :=
  ⟨fun _ _ _ => rfl, fun mode hmode => ⟨mode, hmode, LockMode.le_refl mode⟩⟩

theorem trans (h : table.Gains txn page table₁) (h' : table₁.Gains txn page table₂) :
    table.Gains txn page table₂ := by
  refine ⟨fun other p hother => (h'.others other p hother).trans (h.others other p hother), ?_⟩
  intro mode hmode
  obtain ⟨mode₁, hmode₁, hle⟩ := h.grows mode hmode
  obtain ⟨mode₂, hmode₂, hle'⟩ := h'.grows mode₁ hmode₁
  exact ⟨mode₂, hmode₂, LockMode.le_trans hle hle'⟩

theorem of_acquire? (h : table.Proper) (hacquire : table.acquire? txn page mode = some table₁) :
    table.Gains txn page table₁ := by
  refine ⟨fun other p hother => ?_, fun held hheld => ?_⟩
  · rw [h.mode?_acquire? hacquire, if_neg hother]
  · rw [h.mode?_acquire? hacquire, if_pos ⟨rfl, rfl⟩, hheld]
    exact ⟨_, rfl, LockMode.le_stronger_left held mode⟩

/-- What came before, when no lock had changed. -/
theorem congr (h : table₁.Gains txn page table₂)
    (hsame : ∀ other p, table₁.mode? other p = table.mode? other p) :
    table.Gains txn page table₂ := by
  refine ⟨fun other p hother => (h.others other p hother).trans (hsame other p), ?_⟩
  intro mode hmode
  exact h.grows mode ((hsame txn page).trans hmode)

end LockTable.Gains

/-! ## Requests -/

theorem Requests.keeps {answer : Except Failure Frame} (h : Requests txn page mode e answer e')
    (hcoherent : Coherent capacity e) : e.Keeps e' := by
  cases h with
  | refused _ => exact .refl e
  | hit _ hpeek =>
      exact ⟨rfl, rfl, rfl, fun p => view?_congr (peek_use hpeek) rfl, fun p frame _ => by
        rw [peek_use hpeek]⟩
  | unknown _ _ _ | full _ _ _ _ _ => exact (Keeps.refl e).setLocks _
  | unread hlock _ _ hroom _ =>
      refine ⟨hroom.catalog_eq, by rw [hroom.disk_eq], hroom.log_eq, fun p => ?_,
        fun _ _ => hroom.peek_dirty⟩
      exact MakesRoom.view?_eq (hcoherent.acquire hlock) hroom p
  | load hlock habsent hfile hroom hread =>
      refine ⟨hroom.catalog_eq, ?_, hroom.log_eq,
        (hcoherent.acquire hlock).view?_load habsent hfile hroom hread, fun p frame hdirty => ?_⟩
      · rw [HeapFile.files_readPage hread, hroom.disk_eq]
      · rw [peek_dirty_install (hroom.peek_eq_none habsent) hread hdirty]
        exact hroom.peek_dirty hdirty

theorem Requests.coherent {answer : Except Failure Frame} (h : Requests txn page mode e answer e')
    (hcoherent : Coherent capacity e) : Coherent capacity e' := by
  cases h with
  | refused _ => exact hcoherent
  | hit hlock hpeek => exact (hcoherent.acquire hlock).use hpeek
  | unknown hlock _ _ | full hlock _ _ _ _ => exact hcoherent.acquire hlock
  | unread hlock _ _ hroom _ => exact ((hcoherent.acquire hlock).makesRoom hroom).1
  | load hlock _ hfile hroom hread => exact (hcoherent.acquire hlock).load hfile hroom hread

theorem Requests.gains {answer : Except Failure Frame} (h : Requests txn page mode e answer e')
    (hproper : e.pool.locks.Proper) :
    e'.pool.locks.Proper ∧ e.pool.locks.Gains txn page e'.pool.locks := by
  by_cases hgranted : e.pool.locks.acquire? txn page mode = none
  · rw [(h.eq_of_refused hgranted).2]
    exact ⟨hproper, .refl _ _ _⟩
  · have hlock := h.acquire? hgranted
    exact ⟨hproper.acquire? hlock, .of_acquire? hproper hlock⟩

/-- A page that somebody got: it was used last, and is locked as it was asked
for. -/
structure Got (capacity : Nat) (txn : TxnId) (page : PageId) (mode : LockMode) (e : Engine)
    (frame : Frame) (e' : Engine) : Prop where
  ready : Ready capacity e'
  keeps : e.Keeps e'
  latest : e'.pool.Latest page frame
  modes : ∀ other p, e'.pool.locks.mode? other p = if other = txn ∧ p = page then
    some ((e.pool.locks.mode? txn page).elim mode (·.stronger mode))
    else e.pool.locks.mode? other p

theorem Got.view (h : Got capacity txn page mode e frame e') :
    e.view? page = some frame.page.markClean := by
  rw [← h.keeps.view, view?_of_peek h.latest.peek]

theorem Ready.keeps (h : Ready capacity e) (hkeeps : e.Keeps e') (hcoherent : Coherent capacity e')
    (hproper : e'.pool.locks.Proper) : Ready capacity e' := by
  refine ⟨?_, ?_, hcoherent, hproper⟩
  · rw [hkeeps.catalog]
    exact h.registered
  · rw [hkeeps.catalog]
    exact h.roomy

theorem Ready.requests {answer : Except Failure Frame} (h : Ready capacity e)
    (hrequests : Requests txn page mode e answer e') : Ready capacity e' ∧ e.Keeps e' ∧
      e.pool.locks.Gains txn page e'.pool.locks := by
  have hkeeps := hrequests.keeps h.coherent
  obtain ⟨hproper, hgains⟩ := hrequests.gains h.proper
  exact ⟨h.keeps hkeeps (hrequests.coherent h.coherent) hproper, hkeeps, hgains⟩

theorem Ready.release (h : Ready capacity e) (txn : TxnId) (page : PageId) :
    Ready capacity { e with pool := e.pool.release txn page } :=
  ⟨h.registered, h.roomy, h.coherent.release txn page, h.proper.release txn page⟩

theorem Requests.latest (h : Requests txn page mode e (.ok frame) e') :
    e'.pool.Latest page frame := by
  cases h with
  | hit _ _ => exact latest_put rfl
  | load _ _ _ _ hread => exact latest_put (by rw [← HeapFile.id_of_readPage hread]; rfl)

theorem Ready.getPage_ends (h : Ready capacity e) (txn : TxnId) (page : PageId)
    (access : Access) : (getPage txn page access).Ends e
      (fun frame e' => Got capacity txn page access.lockMode e frame e')
      (fun failure e' => Requests txn page access.lockMode e (.error failure) e') := by
  have hends : (getPage txn page access).Ends e
      (fun frame e' => Requests txn page access.lockMode e (.ok frame) e')
      (fun failure e' => Requests txn page access.lockMode e (.error failure) e') :=
    ends_answer.2 (getPage_requests txn page access e)
  refine hends.mono ?_ fun _ _ h => h
  intro frame e' hrequests
  obtain ⟨hready, hkeeps, -⟩ := h.requests hrequests
  have hgranted : e.pool.locks.acquire? txn page access.lockMode ≠ none := by
    intro hrefused
    cases (hrequests.eq_of_refused hrefused).1
  exact ⟨hready, hkeeps, hrequests.latest, h.proper.mode?_acquire? (hrequests.acquire? hgranted)⟩

/-- A page that is asked for twice, the second time to be written. -/
theorem Got.upgrade {first : LockMode} {frame' : Frame}
    (h : Got capacity txn page first e frame e₁)
    (h' : Got capacity txn page .exclusive e₁ frame' e') :
    Got capacity txn page .exclusive e frame' e' := by
  refine ⟨h'.ready, h.keeps.trans h'.keeps, h'.latest, fun other p => ?_⟩
  rw [h'.modes, h.modes, h.modes]
  split
  · cases e.pool.locks.mode? txn page <;> simp
  · rfl

theorem Got.owns (h : Got capacity txn page .exclusive e frame e') (other : TxnId) (p : PageId) :
    e'.pool.locks.mode? other p
      = if other = txn ∧ p = page then some .exclusive else e.pool.locks.mode? other p := by
  rw [h.modes]
  cases e.pool.locks.mode? txn page <;> simp

/-- What came before, when nothing was to be seen of it. -/
theorem Got.before (h : Got capacity txn page mode e₁ frame e') (hkeeps : e.Keeps e₁)
    (hmodes : ∀ other p, e₁.pool.locks.mode? other p = e.pool.locks.mode? other p) :
    Got capacity txn page mode e frame e' := by
  refine ⟨h.ready, hkeeps.trans h.keeps, h.latest, fun other p => ?_⟩
  rw [h.modes, hmodes, hmodes]

theorem Got.gains (h : Got capacity txn page mode e frame e') :
    e.pool.locks.Gains txn page e'.pool.locks := by
  refine ⟨fun other p hother => ?_, fun held hheld => ?_⟩
  · rw [h.modes, if_neg hother]
  · rw [h.modes, if_pos ⟨rfl, rfl⟩, hheld]
    exact ⟨_, rfl, LockMode.le_stronger_left held mode⟩

/-- A page that was not held before is given back. -/
theorem Got.mode?_release (h : Got capacity txn page .shared e frame e')
    (hfree : e.pool.locks.holds txn page = false) (other : TxnId) (p : PageId) :
    (e'.pool.locks.release txn page).mode? other p = e.pool.locks.mode? other p := by
  rw [LockTable.mode?_release, h.modes]
  by_cases hp : other = txn ∧ p = page
  · obtain ⟨rfl, rfl⟩ := hp
    rw [if_pos ⟨rfl, rfl⟩]
    exact (Option.not_isSome_iff_eq_none.1 (by simpa [LockTable.holds] using hfree)).symm
  · rw [if_neg fun hboth => hp ⟨hboth.2, hboth.1.symm⟩, if_neg hp]

/-- A page that was held before is held no more strongly. -/
theorem Got.mode?_shared (h : Got capacity txn page .shared e frame e')
    (hheld : e.pool.locks.holds txn page = true) (other : TxnId) (p : PageId) :
    e'.pool.locks.mode? other p = e.pool.locks.mode? other p := by
  rw [h.modes]
  split
  · rename_i hp
    obtain ⟨rfl, rfl⟩ := hp
    obtain ⟨mode, hmode⟩ := Option.isSome_iff_exists.1 hheld
    rw [hmode, Option.elim_some, LockMode.stronger_shared]
  · rfl

/-! ## Changes of one page -/

/-- A page that the transaction got for itself is changed. -/
inductive Edits (capacity : Nat) (txn : TxnId) (page : PageId) (e : Engine) (changed : Page) :
    (old new : Frame) → Engine → Prop where
  | mk {e₁ : Engine} {old : Frame} (hgot : Got capacity txn page .exclusive e old e₁)
      (hbecomes : old.page.Becomes changed) :
      Edits capacity txn page e changed old { old with page := changed.markDirty txn }
        (e₁.store (changed.markDirty txn))

namespace Edits

variable {changed : Page} {old new : Frame}

theorem before (h : Edits capacity txn page e₁ changed old new e') (hkeeps : e.Keeps e₁)
    (hmodes : ∀ other p, e₁.pool.locks.mode? other p = e.pool.locks.mode? other p) :
    Edits capacity txn page e changed old new e' := by
  cases h with
  | mk hgot hbecomes => exact .mk (hgot.before hkeeps hmodes) hbecomes

theorem view_old (h : Edits capacity txn page e changed old new e') :
    e.view? page = some old.page.markClean := by
  cases h with
  | mk hgot _ => exact hgot.view

theorem catalog_eq (h : Edits capacity txn page e changed old new e') :
    e'.catalog = e.catalog := by
  cases h with
  | mk hgot _ => exact hgot.keeps.catalog

theorem log_eq (h : Edits capacity txn page e changed old new e') : e'.log = e.log := by
  cases h with
  | mk hgot _ => exact hgot.keeps.log

theorem content_eq (h : Edits capacity txn page e changed old new e') (name : String) :
    e'.disk.content name = e.disk.content name := by
  cases h with
  | mk hgot _ => exact hgot.keeps.content_eq name

theorem mode?_eq (h : Edits capacity txn page e changed old new e') (other : TxnId) (p : PageId) :
    e'.pool.locks.mode? other p
      = if other = txn ∧ p = page then some .exclusive else e.pool.locks.mode? other p := by
  cases h with
  | mk hgot _ => exact hgot.owns other p

theorem id_eq (h : Edits capacity txn page e changed old new e') : changed.id = page := by
  cases h with
  | mk hgot hbecomes =>
      exact hbecomes.id_eq.trans (hgot.ready.coherent.id_eq hgot.latest.peek)

/-- The changed page is the one used last. -/
theorem latest (h : Edits capacity txn page e changed old new e') : e'.pool.Latest page new := by
  have hid : (changed.markDirty txn).id = page := h.id_eq
  cases h with
  | mk hgot _ =>
      obtain ⟨others, hlist, hothers⟩ := hgot.latest
      rw [← hid] at hlist hothers ⊢
      exact ⟨others, toList_store_last hlist hothers, hothers⟩

theorem new_eq (h : Edits capacity txn page e changed old new e') :
    new.page = changed.markDirty txn := by
  cases h
  rfl

/-- Nothing else is to be seen but the changed page. -/
theorem view?_eq (h : Edits capacity txn page e changed old new e') (p : PageId) :
    e'.view? p = if p = page then some changed.markClean else e.view? p := by
  by_cases hp : p = page
  · rw [if_pos hp, hp, view?_of_peek h.latest.peek, h.new_eq]
    rfl
  · have hid : (changed.markDirty txn).id = page := h.id_eq
    rw [if_neg hp]
    cases h with
    | @mk e₁ old hgot _ =>
        have hpeek : (e₁.store (changed.markDirty txn)).pool.cache.peek p
            = e₁.pool.cache.peek p := by
          rw [Engine.store, Pool.store, Recency.peek_modify, hid, if_neg (Ne.symm hp)]
        exact (view?_congr hpeek rfl).trans (hgot.keeps.view p)

end Edits

/-- A tuple is put on a page. -/
inductive Places (capacity : Nat) (txn : TxnId) (tuple : Tuple) (page : PageId) (e : Engine) :
    Frame × Tuple → Engine → Prop where
  | mk {old new : Frame} {record : RecordId} {changed : Page} {e' : Engine}
      (hinsert : old.page.insert tuple = .ok (record, changed))
      (hedits : Edits capacity txn page e changed old new e') :
      Places capacity txn tuple page e (new, tuple.withRecord (some record)) e'

theorem Got.insertInto_ends (h : Got capacity txn page .exclusive e frame e₁) (tuple : Tuple) :
    (HeapFile.insertInto frame txn tuple).Ends e₁ (Places capacity txn tuple page e)
      (fun failure e' => e' = e₁ ∧
        ∃ cause, frame.page.insert tuple = .error cause ∧ failure = .error cause) := by
  simp only [HeapFile.insertInto, ends_bind]
  rw [ends_ofExcept]
  split
  · rename_i answer hanswer
    obtain ⟨record, changed⟩ := answer
    exact .mk hanswer (.mk h (.insert hanswer))
  · rename_i cause hcause
    exact ⟨rfl, cause, hcause, rfl⟩

/-! ## Looking at one page after the other -/

/-- An insert or delete that fails has changed nothing, but may have got one
lock. -/
structure BreaksOff (txn : TxnId) (e e' : Engine) : Prop where
  keeps : e.Keeps e'
  gains : ∃ page, e.pool.locks.Gains txn page e'.pool.locks

theorem BreaksOff.refl (txn : TxnId) (e : Engine) : BreaksOff txn e e :=
  ⟨.refl e, default, .refl _ _ _⟩

theorem Got.breaksOff (h : Got capacity txn page mode e frame e') : BreaksOff txn e e' :=
  ⟨h.keeps, page, h.gains⟩

theorem Ready.breaksOff {answer : Except Failure Frame} (h : Ready capacity e)
    (hrequests : Requests txn page mode e answer e') : BreaksOff txn e e' :=
  have ⟨_, hkeeps, hgains⟩ := h.requests hrequests
  ⟨hkeeps, page, hgains⟩

/-- What came before, when nothing was to be seen of it. -/
theorem BreaksOff.before (h : BreaksOff txn e₁ e') (hkeeps : e.Keeps e₁)
    (hmodes : ∀ other p, e₁.pool.locks.mode? other p = e.pool.locks.mode? other p) :
    BreaksOff txn e e' := by
  obtain ⟨page, hgains⟩ := h.gains
  exact ⟨hkeeps.trans h.keeps, page, hgains.congr hmodes⟩

/-- Each slot has a tuple. -/
def Page.IsFull (page : Page) : Prop := ∀ slot < page.slotCount, page.isUsed slot = true

theorem Page.freeCount_pos_iff {x : Page} : 0 < x.freeCount ↔ ¬x.IsFull := by
  rw [freeCount_eq, List.countP_pos_iff, IsFull]
  simp

/-- The page is to be seen, and full. -/
def Engine.Filled (e : Engine) (page : PageId) : Prop := ∃ x, e.view? page = some x ∧ x.IsFull

/-- What comes of the search for room on `count` pages from `next` on: the
tuple goes to the first page that has some, or all of them are full. -/
inductive Searches (capacity : Nat) (txn : TxnId) (tuple : Tuple) (file : HeapFile)
    (count : Nat) (next : UInt32) (e : Engine) : Option (Frame × Tuple) → Engine → Prop where
  | found {n : UInt32} {answer : Frame × Tuple} {e' : Engine} (hle : next ≤ n)
      (hfull : ∀ m, next ≤ m → m < n → e.Filled ⟨file.id, m⟩)
      (hplaces : Places capacity txn tuple ⟨file.id, n⟩ e answer e') :
      Searches capacity txn tuple file count next e (some answer) e'
  | nothing {e' : Engine} (hready : Ready capacity e') (hkeeps : e.Keeps e')
      (hmodes : ∀ other p, e'.pool.locks.mode? other p = e.pool.locks.mode? other p)
      (hfull : ∀ m, next ≤ m → m.toNat < next.toNat + count → e.Filled ⟨file.id, m⟩) :
      Searches capacity txn tuple file count next e none e'

theorem Places.before {tuple : Tuple} {answer : Frame × Tuple}
    (h : Places capacity txn tuple page e₁ answer e') (hkeeps : e.Keeps e₁)
    (hmodes : ∀ other p, e₁.pool.locks.mode? other p = e.pool.locks.mode? other p) :
    Places capacity txn tuple page e answer e' := by
  cases h with
  | mk hinsert hedits => exact .mk hinsert (hedits.before hkeeps hmodes)

/-- A page that is full is passed over. -/
theorem Searches.skip {tuple : Tuple} {file : HeapFile} {count : Nat} {next : UInt32}
    {answer : Option (Frame × Tuple)} (hnext : next.toNat + (count + 1) < UInt32.size)
    (hfilled : e.Filled ⟨file.id, next⟩) (hkeeps : e.Keeps e₁)
    (hmodes : ∀ other p, e₁.pool.locks.mode? other p = e.pool.locks.mode? other p)
    (h : Searches capacity txn tuple file count (next + 1) e₁ answer e') :
    Searches capacity txn tuple file (count + 1) next e answer e' := by
  have hsucc : (next + 1).toNat = next.toNat + 1 := toNat_succ_of_lt (by omega)
  have hfilled₁ : ∀ m, e₁.Filled ⟨file.id, m⟩ → e.Filled ⟨file.id, m⟩ := by
    rintro m ⟨x, hview, hfull⟩
    exact ⟨x, by rw [← hkeeps.view, hview], hfull⟩
  have hcases : ∀ m : UInt32, next ≤ m → m = next ∨ next + 1 ≤ m := by
    intro m hle
    rw [UInt32.le_iff_toNat_le] at hle
    rw [← UInt32.toNat_inj, UInt32.le_iff_toNat_le, hsucc]
    omega
  cases h with
  | found hle hfull hplaces =>
      refine .found ?_ (fun m hm hlt => ?_) (hplaces.before hkeeps hmodes)
      · rw [UInt32.le_iff_toNat_le] at hle ⊢
        omega
      · rcases hcases m hm with rfl | hm'
        · exact hfilled
        · exact hfilled₁ m (hfull m hm' hlt)
  | nothing hready hkeeps' hmodes' hfull =>
      refine .nothing hready (hkeeps.trans hkeeps')
        (fun other p => (hmodes' other p).trans (hmodes other p)) fun m hm hlt => ?_
      rcases hcases m hm with rfl | hm'
      · exact hfilled
      · exact hfilled₁ m (hfull m hm' (by omega))

theorem Ready.insertWithin_ends {file : HeapFile} {tuple : Tuple} (h : Ready capacity e)
    (count : Nat) (next : UInt32) (hcount : next.toNat + count < UInt32.size) :
    (HeapFile.insertWithin file txn tuple count next).Ends e
      (Searches capacity txn tuple file count next e) (fun _ => BreaksOff txn e) := by
  induction count generalizing next e with
  | zero =>
      refine .nothing h (.refl e) (fun _ _ => rfl) fun m hle hlt => ?_
      rw [UInt32.le_iff_toNat_le] at hle
      omega
  | succ count ih =>
      simp only [HeapFile.insertWithin, ends_bind, ends_holds]
      refine (h.getPage_ends txn ⟨file.id, next⟩ .read).mono ?_ fun _ _ hreq => h.breaksOff hreq
      intro frame e₁ hgot
      split
      · simp only [ends_bind]
        refine (hgot.ready.getPage_ends txn ⟨file.id, next⟩ .write).mono ?_ ?_
        · intro frame' e₂ hgot'
          have howned := hgot.upgrade hgot'
          refine (howned.insertInto_ends tuple).mono ?_ ?_
          · intro answer e' hplaces
            refine .found (UInt32.le_refl next) (fun m hle hlt => ?_) hplaces
            exact absurd hlt (UInt32.not_lt.2 hle)
          · rintro failure e' ⟨rfl, -⟩
            exact howned.breaksOff
        · intro failure e' hrequests
          obtain ⟨-, hkeeps, hgains⟩ := hgot.ready.requests hrequests
          exact ⟨hgot.keeps.trans hkeeps, _, hgot.gains.trans hgains⟩
      · rename_i hnone
        have hfilled : e.Filled ⟨file.id, next⟩ := by
          refine ⟨_, hgot.view, ?_⟩
          exact Classical.not_not.1 fun hnot => hnone (Page.freeCount_pos_iff.2 hnot)
        -- The page is given back or was held before; either way the locks are as they were.
        have hrest : ∀ e₂, Ready capacity e₂ → e.Keeps e₂ →
            (∀ other p, e₂.pool.locks.mode? other p = e.pool.locks.mode? other p) →
            (HeapFile.insertWithin file txn tuple count (next + 1)).Ends e₂
              (Searches capacity txn tuple file (count + 1) next e)
              (fun _ => BreaksOff txn e) := by
          intro e₂ hready hkeeps hmodes
          refine (ih hready (next + 1) ?_).mono ?_ ?_
          · rw [toNat_succ_of_lt (by omega)]
            omega
          · exact fun _ _ hsearch => hsearch.skip hcount hfilled hkeeps hmodes
          · exact fun _ _ hbreaks => hbreaks.before hkeeps hmodes
        split
        · rename_i hfree
          simp only [ends_bind, ends_release]
          have hmodes := hgot.mode?_release (by simpa using hfree)
          exact hrest _ (hgot.ready.release txn _) (hgot.keeps.setLocks _) hmodes
        · rename_i hheld
          exact hrest e₁ hgot.ready hgot.keeps (hgot.mode?_shared (by simpa using hheld))

end

/-! ## A page behind the last one -/

section

variable {file : HeapFile} {disk disk' : Disk} {page : PageId}

theorem HeapFile.page_of_appendPage (h : file.appendPage disk = .ok (page, disk')) :
    page = ⟨file.id, (file.wholePages disk).toUInt32⟩ := by
  obtain ⟨hsize, -⟩ := appendPage_eq_ok h
  rw [appendPage, pageCount_eq hsize] at h
  simp only [bind, Except.bind] at h
  split at h
  · cases h
  · split at h
    · cases h
    · cases h
      rfl

theorem HeapFile.wholePages_lt_of_appendPage (h : file.appendPage disk = .ok (page, disk'))
    (hfew : file.wholePages disk' < UInt32.size) : file.wholePages disk < UInt32.size := by
  obtain ⟨-, hwrite⟩ := appendPage_eq_ok h
  refine Nat.lt_of_le_of_lt (Nat.div_le_div_right ?_) hfew
  rw [Disk.content_writePage hwrite, Bytes.length_writeAt]
  exact Nat.le_max_left _ _

/-- The file has one page more, of zeroes, in place of what may have been behind
its last whole page. The other files stay. -/
structure HeapFile.GainsPage (file : HeapFile) (disk disk' : Disk) : Prop where
  content : disk'.content file.handle.name
    = (disk.content file.handle.name).take (file.wholePages disk * file.pageSize)
      ++ Bytes.zeros file.pageSize
  others : ∀ name, name ≠ file.handle.name → disk'.content name = disk.content name

namespace HeapFile.GainsPage

/-- Behind whole pages there was nothing. -/
theorem content_of_dvd (h : file.GainsPage disk disk')
    (hwhole : file.pageSize ∣ (disk.content file.handle.name).length) :
    disk'.content file.handle.name
      = disk.content file.handle.name ++ Bytes.zeros file.pageSize := by
  rw [h.content, wholePages, Nat.div_mul_cancel hwhole, List.take_length]

theorem congr {before after : Disk} (h : file.GainsPage disk disk')
    (hbefore : ∀ name, disk.content name = before.content name)
    (hafter : ∀ name, after.content name = disk'.content name) : file.GainsPage before after := by
  refine ⟨?_, fun name hname => ?_⟩
  · rw [hafter, h.content, wholePages, hbefore, wholePages]
  · rw [hafter, h.others name hname, hbefore]

end HeapFile.GainsPage

theorem HeapFile.gainsPage_appendPage (h : file.appendPage disk = .ok (page, disk'))
    (hfew : file.wholePages disk' < UInt32.size) : file.GainsPage disk disk' := by
  obtain ⟨hsize, hwrite⟩ := appendPage_eq_ok h
  refine ⟨?_, fun _ => Disk.content_writePage_of_ne hwrite⟩
  have hoffset : Disk.pageOffset file.handle (file.wholePages disk).toUInt32
      = file.wholePages disk * file.pageSize := by
    rw [Disk.pageOffset, UInt32.toNat_ofNat_of_lt' (wholePages_lt_of_appendPage h hfew), pageSize]
  have hle : file.wholePages disk * file.pageSize ≤ (disk.content file.handle.name).length :=
    Nat.div_mul_le_self _ _
  have hlt : (disk.content file.handle.name).length
      < (file.wholePages disk + 1) * file.pageSize :=
    Nat.lt_mul_of_div_lt (Nat.lt_succ_self _) (Nat.pos_of_ne_zero hsize)
  rw [Nat.succ_mul] at hlt
  rw [Disk.content_writePage hwrite, hoffset, Bytes.writeAt, Bytes.length_zeros,
    List.drop_eq_nil_of_le (Nat.le_of_lt hlt), Nat.sub_eq_zero_of_le hle]
  simp [Bytes.zeros]

/-- An appended page is the only one that is stored differently. -/
theorem Engine.stored?_appendPage {e : Engine} {table : TableId} (hreg : e.catalog.Registered)
    (hfile : e.catalog.file table = .ok file) (h : file.appendPage e.disk = .ok (page, disk))
    (hfew : file.wholePages disk < UInt32.size) :
    e.stored? page = none ∧ ∀ p, Engine.stored? { e with disk } p
      = if p = page then some (.ofBytes p file.schema (Bytes.zeros file.pageSize))
        else e.stored? p := by
  obtain ⟨hsize, hwrite⟩ := HeapFile.appendPage_eq_ok h
  have hfew₀ := HeapFile.wholePages_lt_of_appendPage h hfew
  have hwhole := HeapFile.wholePages_appendPage h hfew₀
  have hid := hreg.keyed _ _ hfile
  have hnumber : (file.wholePages e.disk).toUInt32.toNat = file.wholePages e.disk :=
    UInt32.toNat_ofNat_of_lt' hfew₀
  obtain rfl := HeapFile.page_of_appendPage h
  have hnone : e.stored? ⟨file.id, (file.wholePages e.disk).toUInt32⟩ = none := by
    refine Option.eq_none_iff_forall_ne_some.2 fun x hx => ?_
    obtain ⟨file', hfile', hhas, -⟩ := stored?_eq_some_iff.1 hx
    obtain rfl := Except.ok.inj (hfile.symm.trans (hid ▸ hfile'))
    have hlt : (file.wholePages e.disk).toUInt32.toNat < file.wholePages e.disk :=
      ((HeapFile.has_iff hfew₀).1 hhas).2.2
    omega
  refine ⟨hnone, fun p => ?_⟩
  by_cases hp : p = ⟨file.id, (file.wholePages e.disk).toUInt32⟩
  · subst hp
    rw [if_pos rfl, stored?_eq_some_iff]
    refine ⟨file, ?_, (HeapFile.has_iff hfew).2 ⟨rfl, hsize, ?_⟩, ?_⟩
    · rw [hid]
      exact hfile
    · dsimp only
      omega
    · rw [HeapFile.pageBytes_writePage_self hwrite]
  · rw [if_neg hp]
    by_cases htable : p.table = table
    case neg =>
      exact stored?_of_ne hreg hfile (fun _ => Disk.content_writePage_of_ne hwrite) htable
    have hpage : p.page.toNat ≠ file.wholePages e.disk := by
      intro heq
      obtain ⟨t, n⟩ := p
      refine hp ?_
      rw [show t = file.id from htable.trans hid.symm,
        show n = _ from UInt32.toNat_inj.1 (heq.trans hnumber.symm)]
    refine stored?_frame rfl fun file' hfile' => ?_
    obtain rfl := Except.ok.inj (hfile.symm.trans (htable ▸ hfile'))
    refine ⟨?_, fun hhas => HeapFile.pageBytes_writePage_of_ne hwrite ?_ hhas.fits⟩
    · have hlt : p.page.toNat < file.wholePages disk ↔ p.page.toNat < file.wholePages e.disk := by
        omega
      rw [HeapFile.has_iff hfew, HeapFile.has_iff hfew₀, hlt]
    · exact fun heq => hpage (by rw [heq, hnumber])

/-- All that an append may want is memory. -/
theorem HeapFile.violation_of_appendPage {failure : Failure} (hsize : file.pageSize ≠ 0)
    (h : file.appendPage disk = .error failure) : ∃ cause, failure = .violation cause := by
  rw [appendPage, pageCount_eq hsize] at h
  simp only [bind, Except.bind, emptyPage] at h
  by_cases hlarge : file.pageSize > Bytes.maxLength
  · rw [if_pos hlarge] at h
    cases h
    exact ⟨_, rfl⟩
  · rw [if_neg hlarge] at h
    obtain ⟨disk', hwrite⟩ := exists_writePage (x := .ofBytes
      ⟨file.id, (file.wholePages disk).toUInt32⟩ file.schema (.zeros file.pageSize))
      (Bytes.length_zeros _) disk
    simp only [hwrite] at h
    cases h

theorem Page.firstFree?_zeros {schema : Schema} {n : Nat} (id : PageId)
    (hroom : 1 ≤ slotsPerPage n schema) :
    (ofBytes id schema (Bytes.zeros n)).firstFree? = some 0 := by
  refine firstFree?_eq_some_iff.2 ⟨?_, ?_, nofun⟩
  · simp only [slotCount, layout, Layout.make, size, ofBytes, Bytes.length_zeros]
    exact hroom
  · have hnone := slot?_zeros id schema n 0
    rw [slot?_eq_row?] at hnone
    rw [← isSome_row?]
    exact congrArg Option.isSome hnone

end

section

variable {capacity : Nat} {txn : TxnId} {tuple : Tuple} {table : TableId} {file : HeapFile}
  {page : PageId} {disk : Disk} {e e' : Engine}

theorem Ready.pageSize_ne_zero (h : Ready capacity e) (hfile : e.catalog.file table = .ok file) :
    file.pageSize ≠ 0 := by
  intro hzero
  have hroom := h.roomy _ _ hfile
  rw [hzero] at hroom
  simp [Page.slotsPerPage] at hroom

/-- A page that was appended is the only one that looks different. -/
theorem Ready.appendPage (h : Ready capacity e) (hfile : e.catalog.file table = .ok file)
    (happend : file.appendPage e.disk = .ok (page, disk))
    (hfew : file.wholePages disk < UInt32.size) :
    Ready capacity { e with disk } ∧ e.view? page = none ∧
      ∀ p, Engine.view? { e with disk } p
        = if p = page then some (.ofBytes p file.schema (Bytes.zeros file.pageSize))
          else e.view? p := by
  obtain ⟨hnone, hstored⟩ := stored?_appendPage h.registered hfile happend hfew
  have habsent : e.pool.cache.peek page = none := by
    refine Option.eq_none_iff_forall_ne_some.2 fun frame hpeek => ?_
    rw [(h.coherent.mirrors page frame hpeek).stored] at hnone
    cases hnone
  refine ⟨⟨h.registered, h.roomy, ?_, h.proper⟩, ?_, fun p => ?_⟩
  · refine h.coherent.of_eq rfl rfl fun p x hx => ?_
    rw [hstored, if_neg, hx]
    rintro rfl
    rw [hnone] at hx
    cases hx
  · rw [view?_of_absent habsent, hnone]
  · have habsent' : Engine.view? { e with disk } page = Engine.stored? { e with disk } page :=
      view?_of_absent habsent
    by_cases hp : p = page
    · rw [if_pos hp, hp, habsent', hstored, if_pos rfl]
    · rw [if_neg hp]
      refine view?_congr rfl ?_
      rw [hstored, if_neg hp]

/-- On a page of zeroes there is room for each tuple of the file's schema. -/
theorem Got.insert_of_blank {mode : LockMode} {frame : Frame} {schema : Schema} {n : Nat}
    (h : Got capacity txn page mode e frame e')
    (hview : e.view? page = some (.ofBytes page schema (Bytes.zeros n)))
    (hroom : 1 ≤ Page.slotsPerPage n schema) (hagrees : tuple.schema.agrees schema = true) :
    ∃ changed, frame.page.insert tuple = .ok (⟨page, 0⟩, changed) := by
  have hclean : (Page.ofBytes page schema (Bytes.zeros n)).markClean = frame.page.markClean :=
    Option.some.inj (hview.symm.trans h.view)
  obtain ⟨changed, hinsert⟩ :=
    Page.insert_of_firstFree? hagrees (Page.firstFree?_zeros page hroom)
  obtain ⟨changed', hinsert', -⟩ := Page.insert_congr hclean hinsert
  exact ⟨changed', hinsert'⟩

theorem Requests.ne_pageFull {mode : LockMode} {failure : Failure} {p : PageId}
    (h : Requests txn page mode e (.error failure) e')
    (hhas : ∀ file, e.catalog.file page.table = .ok file → file.Has e.disk page) :
    failure ≠ .error (.pageFull p) := by
  rintro rfl
  cases h with
  | unknown _ _ hfile => cases Catalog.eq_tableNotFound hfile
  | unread _ _ hfile hroom hread =>
      have hpresent := hhas _ hfile
      rw [← show _ = e.disk from hroom.disk_eq] at hpresent
      rw [HeapFile.readPage_eq hpresent] at hread
      cases hread

/-- What comes of an append: a page that was appended has room. -/
inductive Appends (capacity : Nat) (txn : TxnId) (tuple : Tuple) (file : HeapFile) (e : Engine) :
    Except Failure (Frame × Tuple) → Engine → Prop where
  | placed {page : PageId} {disk : Disk} {answer : Frame × Tuple} {e' : Engine}
      (happend : file.appendPage e.disk = .ok (page, disk))
      (hfew : file.wholePages disk < UInt32.size)
      (hplaces : Places capacity txn tuple page { e with disk } answer e') :
      Appends capacity txn tuple file e (.ok answer) e'
  | unread {page : PageId} {disk : Disk} {failure : Failure} {e' : Engine}
      (happend : file.appendPage e.disk = .ok (page, disk))
      (hfew : file.wholePages disk < UInt32.size)
      (hfailure : ∀ p, failure ≠ .error (.pageFull p))
      (hbreaks : BreaksOff txn { e with disk } e') :
      Appends capacity txn tuple file e (.error failure) e'
  | unwritten {cause : Violation} : Appends capacity txn tuple file e (.error (.violation cause)) e

theorem Ready.insertAppended_ends (h : Ready capacity e)
    (hfile : e.catalog.file table = .ok file) (hagrees : tuple.schema.agrees file.schema = true)
    (hfew : file.wholePages ((HeapFile.insertAppended file txn tuple).after e).disk < UInt32.size) :
    (HeapFile.insertAppended file txn tuple).Ends e
      (fun answer => Appends capacity txn tuple file e (.ok answer))
      (fun failure => Appends capacity txn tuple file e (.error failure)) := by
  have hgrows : Grows ((Engine.appendPage file).after e)
      ((HeapFile.insertAppended file txn tuple).after e) := Moves.after_bind getInsert_grows e
  rw [Action.after, appendPage_apply] at hgrows
  simp only [HeapFile.insertAppended, ends_bind, ends_appendPage]
  split
  case h_2 =>
    rename_i failure happend
    obtain ⟨cause, rfl⟩ :=
      HeapFile.violation_of_appendPage (h.pageSize_ne_zero hfile) happend
    exact .unwritten
  rename_i page disk happend
  rw [happend] at hgrows
  have hfew₁ : file.wholePages disk < UInt32.size :=
    Nat.lt_of_le_of_lt (hgrows.wholePages_le file) hfew
  obtain ⟨hready, -, hview⟩ := h.appendPage hfile happend hfew₁
  refine (hready.getPage_ends txn page .write).mono ?_ ?_
  · intro frame e₁ hgot
    refine (hgot.insertInto_ends tuple).mono ?_ ?_
    · exact fun answer e' hplaces => .placed happend hfew₁ hplaces
    · rintro failure e' ⟨-, cause, hcause, -⟩
      obtain ⟨changed, hinsert⟩ := hgot.insert_of_blank (by rw [hview, if_pos rfl])
        (h.roomy _ _ hfile) hagrees
      rw [hinsert] at hcause
      cases hcause
  · intro failure e' hrequests
    refine .unread happend hfew₁ (fun p => hrequests.ne_pageFull fun file' hfile' => ?_)
      (hready.breaksOff hrequests)
    obtain ⟨-, hstored⟩ := stored?_appendPage h.registered hfile happend hfew₁
    obtain ⟨file'', hfile'', hhas, -⟩ := stored?_eq_some_iff.1 ((hstored page).trans (if_pos rfl))
    obtain rfl := Except.ok.inj (hfile'.symm.trans hfile'')
    exact hhas

/-- The page that was appended is not full, so no other one is. -/
theorem Ready.insertBehind_apply (h : Ready capacity e)
    (hfile : e.catalog.file table = .ok file) (hagrees : tuple.schema.agrees file.schema = true)
    (hfew : file.wholePages ((HeapFile.insertAppended file txn tuple).after e).disk < UInt32.size)
    (retries : Nat) : HeapFile.insertBehind file txn tuple retries e
      = HeapFile.insertAppended file txn tuple e := by
  cases retries with
  | zero => rfl
  | succ retries =>
      have hends := h.insertAppended_ends hfile hagrees hfew
      rw [insertBehind_succ]
      unfold Ends at hends
      generalize HeapFile.insertAppended file txn tuple e = result at hends
      rcases result with answer | ⟨failure, e'⟩
      · rfl
      rcases failure with cause | cause
      case violation => rfl
      cases cause
      case pageFull p =>
        cases hends with
        | unread _ _ hfailure _ => exact absurd rfl (hfailure p)
      all_goals rfl

end

/-! ## Inserting and deleting -/

/-- Inserts a tuple into the file, and tries it on so many pages at most that
are appended in vain. -/
def HeapFile.insertTrying (file : HeapFile) (retries : Nat) (txn : TxnId) (tuple : Tuple) :
    Action (Frame × Tuple) := do
  if tuple.schema.agrees file.schema = false then
    Action.refuse (.schemaMismatch (.otherTable tuple.schema file.schema))
  else
    let count ← Engine.pageCount file
    match ← insertWithin file txn tuple count.toNat 0 with
    | some answer => return answer
    | none => insertBehind file txn tuple retries

theorem HeapFile.insert_eq (file : HeapFile) : file.insert = file.insertTrying retryBound := rfl

/-- What comes of an insert: the tuple is placed on a page of the file or behind
them, or nothing is changed. -/
inductive PutsIn (capacity : Nat) (txn : TxnId) (tuple : Tuple) (file : HeapFile) (e : Engine) :
    Except Failure (Frame × Tuple) → Engine → Prop where
  | within {count : UInt32} {answer : Frame × Tuple} {e' : Engine}
      (hsearch : Searches capacity txn tuple file count.toNat 0 e (some answer) e') :
      PutsIn capacity txn tuple file e (.ok answer) e'
  | behind {count : UInt32} {answer : Except Failure (Frame × Tuple)} {e₁ e' : Engine}
      (hcount : file.pageCount e.disk = .ok count)
      (hsearch : Searches capacity txn tuple file count.toNat 0 e none e₁)
      (happends : Appends capacity txn tuple file e₁ answer e') :
      PutsIn capacity txn tuple file e answer e'
  | broken {failure : Failure} {e' : Engine} (hbreaks : BreaksOff txn e e') :
      PutsIn capacity txn tuple file e (.error failure) e'

section

variable {capacity : Nat} {txn : TxnId} {tuple : Tuple} {table : TableId} {file : HeapFile}
  {count : UInt32} {e e₁ e' : Engine}

theorem HeapFile.insertTrying_apply (hagrees : tuple.schema.agrees file.schema = true)
    (hcount : file.pageCount e.disk = .ok count) (retries : Nat) :
    file.insertTrying retries txn tuple e
      = match insertWithin file txn tuple count.toNat 0 e with
        | .ok (some answer) e₁ => .ok answer e₁
        | .ok none e₁ => insertBehind file txn tuple retries e₁
        | .error failure e₁ => .error failure e₁ := by
  rw [insertTrying, if_neg (by simp [hagrees]), bind_apply, pageCount_apply, hcount]
  dsimp only
  rw [bind_apply]
  rcases insertWithin file txn tuple count.toNat 0 e with ⟨_ | answer, e₁⟩ | ⟨failure, e₁⟩ <;> rfl

theorem Ready.insertWithin_all (h : Ready capacity e) (file : HeapFile) (txn : TxnId)
    (tuple : Tuple) (count : UInt32) : (HeapFile.insertWithin file txn tuple count.toNat 0).Ends e
      (Searches capacity txn tuple file count.toNat 0 e) (fun _ => BreaksOff txn e) := by
  refine h.insertWithin_ends count.toNat 0 ?_
  rw [UInt32.toNat_zero, Nat.zero_add]
  exact count.toNat_lt

/-- What is known when all pages are full. -/
theorem Ready.behind (h : Ready capacity e) (hfile : e.catalog.file table = .ok file)
    (hfew : file.wholePages ((file.insert txn tuple).after e).disk < UInt32.size)
    (hagrees : tuple.schema.agrees file.schema = true)
    (hcount : file.pageCount e.disk = .ok count)
    (hnone : HeapFile.insertWithin file txn tuple count.toNat 0 e = .ok none e₁) :
    Ready capacity e₁ ∧ e₁.catalog.file table = .ok file ∧
      file.wholePages ((HeapFile.insertAppended file txn tuple).after e₁).disk < UInt32.size := by
  have hsearch := (h.insertWithin_all file txn tuple count).of_ok hnone
  cases hsearch with
  | nothing hready hkeeps _ _ =>
      refine ⟨hready, by rw [hkeeps.catalog, hfile], Nat.lt_of_le_of_lt ?_ hfew⟩
      have hafter : (file.insert txn tuple).after e
          = (HeapFile.insertBehind file txn tuple HeapFile.retryBound).after e₁ := by
        rw [HeapFile.insert_eq, Action.after, HeapFile.insertTrying_apply hagrees hcount, hnone]
        rfl
      rw [hafter]
      exact (insertAppended_grows_insertBehind (UInt32.size - 1) e₁).wholePages_le file

/-- Behind full pages, an insert appends one page and no more. -/
theorem Ready.insertTrying_apply (h : Ready capacity e) (hfile : e.catalog.file table = .ok file)
    (hfew : file.wholePages ((file.insert txn tuple).after e).disk < UInt32.size)
    (retries : Nat) :
    file.insertTrying retries txn tuple e = file.insertTrying 0 txn tuple e := by
  by_cases hagrees : tuple.schema.agrees file.schema = true
  · have hcount : file.pageCount e.disk = .ok (file.wholePages e.disk).toUInt32 :=
      HeapFile.pageCount_eq (h.pageSize_ne_zero hfile)
    rw [HeapFile.insertTrying_apply hagrees hcount, HeapFile.insertTrying_apply hagrees hcount]
    split
    · rfl
    · rename_i e₁ hnone
      obtain ⟨hready, hfile₁, hfew₁⟩ := h.behind hfile hfew hagrees hcount hnone
      rw [hready.insertBehind_apply hfile₁ hagrees hfew₁,
        hready.insertBehind_apply hfile₁ hagrees hfew₁]
    · rfl
  · have hrefuses : tuple.schema.agrees file.schema = false := by simpa using hagrees
    rw [HeapFile.insertTrying, HeapFile.insertTrying, if_pos hrefuses, if_pos hrefuses]

theorem Ready.insertFile_ends (h : Ready capacity e) (hfile : e.catalog.file table = .ok file)
    (hfew : file.wholePages ((file.insert txn tuple).after e).disk < UInt32.size) :
    (file.insert txn tuple).Ends e (fun answer => PutsIn capacity txn tuple file e (.ok answer))
      (fun failure => PutsIn capacity txn tuple file e (.error failure)) := by
  by_cases hagrees : tuple.schema.agrees file.schema = true
  · have hcount : file.pageCount e.disk = .ok (file.wholePages e.disk).toUInt32 :=
      HeapFile.pageCount_eq (h.pageSize_ne_zero hfile)
    have hwithin := h.insertWithin_all file txn tuple (file.wholePages e.disk).toUInt32
    unfold Ends
    rw [HeapFile.insert_eq, HeapFile.insertTrying_apply hagrees hcount]
    cases hrun : HeapFile.insertWithin file txn tuple (file.wholePages e.disk).toUInt32.toNat 0 e with
    | error failure e' => exact .broken (hwithin.of_error hrun)
    | ok found e₁ =>
        have hsearch := hwithin.of_ok hrun
        cases found with
        | some answer => exact .within hsearch
        | none =>
            obtain ⟨hready, hfile₁, hfew₁⟩ := h.behind hfile hfew hagrees hcount hrun
            dsimp only
            rw [hready.insertBehind_apply hfile₁ hagrees hfew₁]
            exact (hready.insertAppended_ends hfile₁ hagrees hfew₁).mono
              (fun _ _ happends => .behind hcount hsearch happends)
              fun _ _ happends => .behind hcount hsearch happends
  · have hrefused : file.insert txn tuple e = .error (.error (.schemaMismatch
        (.otherTable tuple.schema file.schema))) e := by
      rw [HeapFile.insert, if_pos (by simpa using hagrees)]
      rfl
    rw [Ends, hrefused]
    exact .broken (.refl txn e)

theorem Ready.deleteFile_ends (h : Ready capacity e) (file : HeapFile) (txn : TxnId)
    (record : RecordId) :
    (file.delete txn (some record)).Ends e
      (fun new e' => ∃ old changed, old.page.delete (some record) = .ok changed ∧
        Edits capacity txn record.page e changed old new e')
      (fun _ => BreaksOff txn e) := by
  simp only [HeapFile.delete]
  split
  · exact .refl txn e
  · simp only [ends_bind]
    refine (h.getPage_ends txn record.page .write).mono ?_ fun _ _ hreq => h.breaksOff hreq
    intro frame e₁ hgot
    rw [ends_ofExcept]
    split
    · rename_i changed hdelete
      exact ⟨frame, changed, hdelete, .mk hgot (.delete hdelete)⟩
    · exact hgot.breaksOff

end

/-! ## Runs -/

/-- There are numbers for the pages of each file. -/
def Engine.Numbered (e : Engine) : Prop :=
  ∀ id file, e.catalog.file id = .ok file → file.wholePages e.disk < UInt32.size

section

variable {capacity : Nat} {txn : TxnId} {tuple : Tuple} {table : TableId} {file : HeapFile}
  {start e e' : Engine}

theorem insert_grows (txn : TxnId) (table : TableId) (tuple : Tuple) (e : Engine) :
    Grows e ((Engine.insert txn table tuple).after e) := by
  have hgrows := (Call.insert txn table tuple).grows e
  rwa [Call.after, Call.run, after_map] at hgrows

theorem insert_apply (hfile : e.catalog.file table = .ok file) :
    Engine.insert txn table tuple e = (Prod.snd <$> file.insert txn tuple) e := by
  rw [Engine.insert, bind_apply, fileOf_apply, hfile]
  rfl

theorem Engine.Numbered.insertFile (hfile : e.catalog.file table = .ok file)
    (h : ((Engine.insert txn table tuple).after e).Numbered) :
    file.wholePages ((file.insert txn tuple).after e).disk < UInt32.size := by
  have hfile' : ((Engine.insert txn table tuple).after e).catalog.file table = .ok file := by
    rw [(insert_grows txn table tuple e).catalog, hfile]
  have hafter : (Engine.insert txn table tuple).after e = (file.insert txn tuple).after e := by
    rw [← after_map Prod.snd (file.insert txn tuple) e, Action.after, insert_apply hfile]
    rfl
  rw [← hafter]
  exact h _ _ hfile'

theorem Ready.insert_ends (h : Ready capacity e)
    (hnumbered : ((Engine.insert txn table tuple).after e).Numbered) :
    (Engine.insert txn table tuple).Ends e
      (fun stored e' => ∃ file new, e.catalog.file table = .ok file ∧
        PutsIn capacity txn tuple file e (.ok (new, stored)) e')
      (fun failure e' => e' = e ∨ ∃ file, e.catalog.file table = .ok file ∧
        PutsIn capacity txn tuple file e (.error failure) e') := by
  rw [Engine.insert, ends_bind, ends_fileOf]
  split
  · rename_i file hfile
    rw [ends_bind]
    refine (h.insertFile_ends hfile (hnumbered.insertFile hfile)).mono ?_ ?_
    · exact fun answer _ hputs => ⟨file, answer.1, hfile, hputs⟩
    · exact fun _ _ hputs => .inr ⟨file, hfile, hputs⟩
  · exact .inl rfl

theorem Ready.delete_ends (h : Ready capacity e) (txn : TxnId) (record? : Option RecordId) :
    (Engine.delete txn record?).Ends e
      (fun _ e' => ∃ record old new changed, record? = some record ∧
        old.page.delete (some record) = .ok changed ∧
        Edits capacity txn record.page e changed old new e')
      (fun _ => BreaksOff txn e) := by
  cases record? with
  | none => exact .refl txn e
  | some record =>
      simp only [Engine.delete, ends_bind, ends_fileOf]
      split
      · rename_i file _
        refine (h.deleteFile_ends file txn record).mono ?_ fun _ _ hbreaks => hbreaks
        rintro new e' ⟨old, changed, hdelete, hedits⟩
        exact ⟨record, old, new, changed, rfl, hdelete, hedits⟩
      · exact .refl txn e

theorem Call.proper_all (calls : List Call) (h : e.pool.locks.Proper) :
    (afterAll calls e).pool.locks.Proper := by
  induction calls generalizing e with
  | nil => exact h
  | cons call calls ih => exact ih (call.proper h)

/-- Calls on an empty pool lead to engines that are ready. -/
theorem Ready.afterAll (hreg : start.catalog.Registered) (hstart : start.pool = .empty capacity)
    (hroomy : ∀ id file, start.catalog.file id = .ok file →
      1 ≤ Page.slotsPerPage file.pageSize file.schema)
    (calls : List Call) (hnumbered : (Call.afterAll calls start).Numbered) :
    Ready capacity (Call.afterAll calls start) := by
  have hcatalog := (Call.grows_all calls start).catalog
  have hwithin : Within start (Call.afterAll calls start) := by
    intro id file hfile _
    rw [← hcatalog] at hfile
    exact hnumbered id file hfile
  refine ⟨?_, ?_, (Coherent.of_empty hstart).run hreg calls hwithin, ?_⟩
  · rw [hcatalog]
    exact hreg
  · rw [hcatalog]
    exact hroomy
  · refine Call.proper_all calls ?_
    rw [hstart]
    exact .empty

end

theorem slots_twoTables {capacity : Nat} {refusals : Refusals} (id : TableId) (file : HeapFile)
    (hfile : (twoTables capacity refusals).catalog.file id = .ok file) :
    Page.slotsPerPage file.pageSize file.schema = 2 := by
  rcases file_twoTables hfile with ⟨-, rfl⟩ | ⟨-, rfl⟩ <;> decide

theorem numbered_twoTables {capacity : Nat} {refusals : Refusals} {e : Engine}
    (hgrows : Grows (twoTables capacity refusals) e)
    (hfew : (HeapFile.pairs 0 "a").wholePages e.disk < UInt32.size)
    (hfew' : (HeapFile.pairs 1 "b").wholePages e.disk < UInt32.size) : e.Numbered := by
  intro id file hfile
  rw [hgrows.catalog] at hfile
  rcases file_twoTables hfile with ⟨-, rfl⟩ | ⟨-, rfl⟩
  · exact hfew
  · exact hfew'

end HeapStore
