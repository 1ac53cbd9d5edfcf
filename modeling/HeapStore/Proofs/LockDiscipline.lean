import HeapStore.Proofs.Calls

/-!
# Lock discipline

The transaction that changed a resident page owns the page: its exclusive
lock is the only lock there (`Guarded`). Every move keeps this; what is
released early, a lock on a page that was only looked at, is never the lock
on a page with changes.

So no other transaction gets such a page. The calls that look at pages do not
even use it: the pool keeps it with the time of its last use (`Call.entries_eq`).

The files, the catalog and the log play no part in this. They may be
replaced between any two calls (`Step.surroundings`).
-/

namespace HeapStore

open HeapStore.Action Engine

/-- Pages are found under their names, and changed pages are owned. -/
structure Guarded (e : Engine) : Prop where
  keyed : ∀ page frame, e.pool.cache.peek page = some frame → frame.page.id = page
  owned : ∀ page frame txn, e.pool.cache.peek page = some frame →
    frame.page.dirtier = some txn → e.pool.locks.Owns txn page

namespace Guarded

variable {e e₁ e' : Engine} {txn : TxnId} {page : PageId} {frame : Frame}

theorem of_empty {capacity : Nat} (h : e.pool = .empty capacity) : Guarded e := by
  constructor
  · intro page frame hpeek
    rw [h, Pool.peek_empty] at hpeek
    cases hpeek
  · intro page frame txn hpeek
    rw [h, Pool.peek_empty] at hpeek
    cases hpeek

/-! ## Changes of the pool -/

/-- Pages may leave, and come in without changes. -/
theorem of_cache (h : Guarded e) (hlocks : e'.pool.locks = e.pool.locks)
    (hcache : ∀ page frame, e'.pool.cache.peek page = some frame →
      e.pool.cache.peek page = some frame ∨ frame.page.id = page ∧ frame.page.dirtier = none) :
    Guarded e' := by
  constructor
  · intro page frame hpeek
    rcases hcache page frame hpeek with hold | ⟨hid, -⟩
    · exact h.keyed page frame hold
    · exact hid
  · intro page frame txn hpeek hdirty
    rw [hlocks]
    rcases hcache page frame hpeek with hold | ⟨-, hclean⟩
    · exact h.owned page frame txn hold hdirty
    · rw [hclean] at hdirty
      cases hdirty

theorem of_locks (h : Guarded e) (hcache : e'.pool.cache = e.pool.cache)
    (hlocks : ∀ page frame txn, e.pool.cache.peek page = some frame →
      frame.page.dirtier = some txn → e.pool.locks.Owns txn page → e'.pool.locks.Owns txn page) :
    Guarded e' := by
  constructor
  · intro page frame hpeek
    rw [hcache] at hpeek
    exact h.keyed page frame hpeek
  · intro page frame txn hpeek hdirty
    rw [hcache] at hpeek
    exact hlocks page frame txn hpeek hdirty (h.owned page frame txn hpeek hdirty)

theorem discard (h : Guarded e) (page : PageId) :
    Guarded { e with pool := e.pool.discard page } := by
  refine h.of_cache rfl fun p frame hpeek => .inl ?_
  simp only [Pool.discard, Recency.peek_remove] at hpeek
  split at hpeek
  · cases hpeek
  · exact hpeek

theorem makesRoom (h : Guarded e) (hroom : MakesRoom e e₁) : Guarded e₁ := by
  cases hroom with
  | spare _ => exact h
  | evict _ _ => exact h.discard _

theorem install {file : HeapFile} {disk disk' : Disk} {loaded : Page} (h : Guarded e)
    (hread : file.readPage disk page = .ok (loaded, disk')) :
    Guarded { e with disk := disk', pool := (e.pool.install loaded).2 } := by
  obtain ⟨data, rfl, -⟩ := HeapFile.eq_ofBytes_of_readPage hread
  refine h.of_cache rfl fun p frame hpeek => ?_
  simp only [Pool.install, Recency.peek_put] at hpeek
  split at hpeek
  · rename_i hp
    cases hpeek
    exact .inr ⟨hp, rfl⟩
  · exact .inl hpeek

theorem acquire {mode : LockMode} {locks : LockTable} (h : Guarded e)
    (hlock : e.pool.locks.acquire? txn page mode = some locks) :
    Guarded { e with pool := { e.pool with locks } } :=
  h.of_locks rfl fun _ _ _ _ _ howns => howns.acquire? hlock

theorem use (h : Guarded e) (hpeek : e.pool.cache.peek page = some frame) :
    Guarded { e with pool := { e.pool with cache := e.pool.cache.put page frame } } := by
  refine h.of_cache rfl fun p frame' hpeek' => .inl ?_
  simp only [Recency.peek_put] at hpeek'
  split at hpeek'
  · rename_i hp
    cases hpeek'
    rw [← hp, hpeek]
  · exact hpeek'

theorem release (h : Guarded e)
    (hclean : ∀ frame, e.pool.cache.peek page = some frame → frame.page.dirtier ≠ some txn) :
    Guarded { e with pool := e.pool.release txn page } := by
  refine h.of_locks rfl fun p frame t hpeek hdirty howns => howns.release ?_
  rintro rfl rfl
  exact hclean frame hpeek hdirty

theorem store (changed : Page) (h : Guarded e) (hpeek : e.pool.cache.peek page = some frame)
    (hid : changed.id = frame.page.id)
    (howns : ∀ txn, changed.dirtier = some txn → e.pool.locks.Owns txn page) :
    Guarded (e.store changed) := by
  have hkey : changed.id = page := by rw [hid, h.keyed page frame hpeek]
  have hcases : ∀ p frame', (e.store changed).pool.cache.peek p = some frame' →
      (p = page ∧ frame'.page = changed) ∨ e.pool.cache.peek p = some frame' := by
    intro p frame' hpeek'
    simp only [Engine.store, Pool.store, Recency.peek_modify, hkey] at hpeek'
    split at hpeek'
    · rename_i hp
      rw [← hp, hpeek] at hpeek'
      cases hpeek'
      exact .inl ⟨hp.symm, rfl⟩
    · exact .inr hpeek'
  constructor
  · intro p frame' hpeek'
    rcases hcases p frame' hpeek' with ⟨rfl, hchanged⟩ | hold
    · rw [hchanged, hkey]
    · exact h.keyed p frame' hold
  · intro p frame' txn hpeek' hdirty
    rcases hcases p frame' hpeek' with ⟨rfl, hchanged⟩ | hold
    · rw [hchanged] at hdirty
      exact howns txn hdirty
    · exact h.owned p frame' txn hold hdirty

/-! ## Moves -/

theorem fetches {mode : LockMode} (h : Guarded e) (hfetch : Fetches txn page mode e frame e₁) :
    Guarded e₁ := by
  cases hfetch with
  | hit hlock hpeek => exact (h.acquire hlock).use hpeek
  | miss hlock _ _ hroom hread => exact ((h.acquire hlock).makesRoom hroom).install hread

/-- Nobody gets a page that another transaction has changed. -/
theorem dirtier_of_fetches {mode : LockMode} {writer : TxnId} (h : Guarded e)
    (hfetch : Fetches txn page mode e frame e₁) (hdirty : frame.page.dirtier = some writer) :
    writer = txn ∧ e.pool.locks.Owns txn page := by
  cases hfetch with
  | hit hlock hpeek =>
      have howns := h.owned page frame writer hpeek hdirty
      by_cases hwriter : txn = writer
      · exact ⟨hwriter.symm, hwriter ▸ howns⟩
      · rw [howns.acquire?_eq_none hwriter] at hlock
        cases hlock
  | miss _ _ _ _ hread =>
      obtain ⟨data, rfl, -⟩ := HeapFile.eq_ofBytes_of_readPage hread
      cases hdirty

theorem quiet (h : Guarded e) (hmove : Quiet txn e e') : Guarded e' := by
  cases hmove with
  | lock hlock => exact h.acquire hlock
  | use _ hpeek => exact h.use hpeek
  | drop _ _ => exact h.discard _
  | load _ _ hroom hread => exact (h.makesRoom hroom).install hread
  | append _ _ => exact h.of_locks rfl fun _ _ _ _ _ howns => howns
  | giveBack hheld hfetch =>
      refine (h.fetches hfetch).release fun frame hpeek hdirty => ?_
      rw [hfetch.peek, Option.some.injEq] at hpeek
      subst hpeek
      obtain ⟨-, howns⟩ := h.dirtier_of_fetches hfetch hdirty
      rw [howns.holds] at hheld
      cases hheld

theorem letGo (h : Guarded e) (txn : TxnId) : Guarded (e.letGo txn) := by
  unfold Engine.letGo
  split
  · rename_i hclean
    refine h.of_locks rfl fun page frame writer hpeek hdirty howns => howns.releaseAll ?_
    rintro rfl
    have hmem : page ∈ e.pool.dirtiedBy txn := mem_dirtiedBy.2 ⟨frame, hpeek, hdirty⟩
    rw [List.isEmpty_iff.1 hclean] at hmem
    cases hmem
  · exact h

theorem move (h : Guarded e) (hmove : Move e e') : Guarded e' := by
  cases hmove with
  | quiet hmove => exact h.quiet hmove
  | change hpeek howns hchanged =>
      refine h.store _ hpeek hchanged.id_eq fun writer hwriter => ?_
      cases hwriter
      exact howns
  | log => exact h.of_locks rfl fun _ _ _ _ _ howns => howns
  | writeBack hwrites =>
      cases hwrites with
      | clean _ => exact h
      | dirty hpeek _ _ _ _ =>
          have hstored := h.store (Page.markClean _) hpeek rfl nofun
          exact hstored.of_locks rfl fun _ _ _ _ _ howns => howns
  | restore _ hrestores =>
      cases hrestores with
      | mk _ hread => exact h.install hread
  | letGo => exact h.letGo _
  | discard => exact h.discard _

theorem movePath (h : Guarded e) (hpath : MovePath e e') : Guarded e' := by
  induction hpath with
  | refl => exact h
  | tail _ hmove ih => exact ih.move hmove

end Guarded

/-! ## Pages that are left alone -/

section

variable {e e' : Engine} {other writer : TxnId} {page : PageId} {frame : Frame}

theorem MakesRoom.entries_eq {e₁ : Engine} (hroom : MakesRoom e e₁)
    (hpeek : e.pool.cache.peek page = some frame) (hdirty : frame.page.dirtier = some writer) :
    e₁.pool.cache.entries[page]? = e.pool.cache.entries[page]? := by
  cases hroom with
  | spare _ => rfl
  | evict _ hvictim =>
      obtain ⟨victim, hvictim, hclean⟩ := peek_of_victim? hvictim
      refine Recency.entries_remove_of_ne _ ?_
      rintro rfl
      rw [hpeek, Option.some.injEq] at hvictim
      rw [← hvictim, Page.isDirty, hdirty] at hclean
      cases hclean

/-- What is fetched is another page, and so is what makes room for it. -/
theorem Fetches.entries_eq {mode : LockMode} {p : PageId} {fetched : Frame} {e₁ : Engine}
    (h : Guarded e) (hfetch : Fetches other p mode e fetched e₁)
    (hpeek : e.pool.cache.peek page = some frame) (hdirty : frame.page.dirtier = some writer)
    (hne : other ≠ writer) :
    e₁.pool.cache.entries[page]? = e.pool.cache.entries[page]? := by
  cases hfetch with
  | hit hlock _ =>
      refine Recency.entries_put_of_ne _ _ ?_
      rintro rfl
      rw [(h.owned _ _ _ hpeek hdirty).acquire?_eq_none hne] at hlock
      cases hlock
  | miss _ habsent _ hroom hread =>
      rw [← hroom.entries_eq hpeek hdirty]
      refine Recency.entries_put_of_ne _ _ ?_
      rw [HeapFile.id_of_readPage hread]
      rintro rfl
      rw [hpeek] at habsent
      cases habsent

theorem Quiet.entries_eq (h : Guarded e) (hmove : Quiet other e e')
    (hpeek : e.pool.cache.peek page = some frame) (hdirty : frame.page.dirtier = some writer)
    (hne : other ≠ writer) : e'.pool.cache.entries[page]? = e.pool.cache.entries[page]? := by
  cases hmove with
  | lock _ => rfl
  | use hheld _ =>
      refine Recency.entries_put_of_ne _ _ ?_
      rintro rfl
      rw [(h.owned _ _ _ hpeek hdirty).not_holds hne] at hheld
      cases hheld
  | drop hpeek' hclean =>
      refine Recency.entries_remove_of_ne _ ?_
      rintro rfl
      rw [hpeek, Option.some.injEq] at hpeek'
      rw [← hpeek', Page.isDirty, hdirty] at hclean
      cases hclean
  | load habsent _ hroom hread =>
      rw [← hroom.entries_eq hpeek hdirty]
      refine Recency.entries_put_of_ne _ _ ?_
      rw [HeapFile.id_of_readPage hread]
      rintro rfl
      rw [hpeek] at habsent
      cases habsent
  | append _ _ => rfl
  | giveBack _ hfetch =>
      have hfetched := hfetch.entries_eq h hpeek hdirty hne
      exact hfetched

theorem QuietPath.entries_eq (h : Guarded e) (hpath : QuietPath other e e')
    (hpeek : e.pool.cache.peek page = some frame) (hdirty : frame.page.dirtier = some writer)
    (hne : other ≠ writer) : e'.pool.cache.entries[page]? = e.pool.cache.entries[page]? := by
  induction hpath with
  | refl => rfl
  | tail hpath hmove ih =>
      have hpeek' := hpeek
      rw [Recency.peek, ← ih, ← Recency.peek] at hpeek'
      rw [hmove.entries_eq (h.movePath (QuietPath.movePath hpath)) hpeek' hdirty hne, ih]

/-- A change of a page of one's own leaves the pages of others. -/
theorem entries_store {p : PageId} {changing : Frame} {changed : Page} (h : Guarded e)
    (hchanging : e.pool.cache.peek p = some changing) (hid : changed.id = changing.page.id)
    (howns : e.pool.locks.Owns other p) (hpeek : e.pool.cache.peek page = some frame)
    (hdirty : frame.page.dirtier = some writer) (hne : other ≠ writer) :
    (e.store (changed.markDirty other)).pool.cache.entries[page]?
      = e.pool.cache.entries[page]? := by
  refine Recency.entries_modify_of_ne _ _ ?_
  rintro rfl
  have hp : changed.id = p := by rw [hid, h.keyed _ _ hchanging]
  have howns' := h.owned _ _ _ hpeek hdirty
  rw [show (changed.markDirty other).id = p from hp] at howns'
  have hgrants := howns.symm.trans howns'
  cases hgrants
  exact hne rfl

/-- A call that looks at pages for one transaction leaves the pages that
another one has changed, and the times of their last use, as they are. -/
theorem Call.entries_eq (h : Guarded e) {call : Call} (hcall : call.reader? = some other)
    (hpeek : e.pool.cache.peek page = some frame) (hdirty : frame.page.dirtier = some writer)
    (hne : other ≠ writer) :
    (call.after e).pool.cache.entries[page]? = e.pool.cache.entries[page]? := by
  have hpath : ∀ e', QuietPath other e e' →
      e'.pool.cache.entries[page]? = e.pool.cache.entries[page]? :=
    fun e' hpath => hpath.entries_eq h hpeek hdirty hne
  -- Behind a quiet path the page is still there, so a last change misses it.
  have hstore : ∀ e₁ p changing changed, QuietPath other e e₁ →
      e₁.pool.cache.peek p = some changing → e₁.pool.locks.Owns other p →
      changing.page.Becomes changed →
      (e₁.store (changed.markDirty other)).pool.cache.entries[page]?
        = e.pool.cache.entries[page]? := by
    intro e₁ p changing changed hquiet hchanging howns hchanged
    have hpeek₁ := hpeek
    rw [Recency.peek, ← hpath e₁ hquiet, ← Recency.peek] at hpeek₁
    rw [← hpath e₁ hquiet]
    exact entries_store (h.movePath hquiet.movePath) hchanging hchanged.id_eq howns hpeek₁
      hdirty hne
  suffices hends : call.run.Ends e
      (fun _ e' => e'.pool.cache.entries[page]? = e.pool.cache.entries[page]?)
      (fun _ e' => e'.pool.cache.entries[page]? = e.pool.cache.entries[page]?) from
    ends_after.1 hends
  cases call with
  | getPage txn p access =>
      cases hcall
      exact ends_map.2 ((getPage_moves other p access e).mono (fun _ => hpath) (fun _ => hpath))
  | scan stop source =>
      cases hcall
      exact ends_map.2 ((scan_moves stop source e).mono (fun _ => hpath) (fun _ => hpath))
  | insert txn table tuple =>
      cases hcall
      refine ends_map.2 ((insert_ends other table tuple e).mono ?_ (fun _ => hpath))
      rintro _ _ ⟨hquiet, hchanging, howns, hinsert⟩
      exact hstore _ _ _ _ hquiet hchanging howns (.insert hinsert)
  | delete txn record =>
      cases hcall
      refine ends_map.2 ((delete_ends other record e).mono ?_ (fun _ => hpath))
      rintro _ _ ⟨address, rfl, hquiet, hchanging, howns, hdelete⟩
      exact hstore _ _ _ _ hquiet hchanging howns (.delete hdelete)
  | evict _ | commit _ | abort _ | flushPage _ | flushPages _ | flushAll | discard _
  | release _ _ => cases hcall

end

/-! ## Runs -/

/-- A step of a run: a call, or a change of what surrounds the pool. No
transaction gives back the lock on a page that it has changed. -/
inductive Step : Engine → Engine → Prop where
  | call {e : Engine} {call : Call}
      (hrelease : ∀ txn page, call = .release txn page →
        ∀ frame, e.pool.cache.peek page = some frame → frame.page.dirtier ≠ some txn) :
      Step e (call.after e)
  | surroundings {e : Engine} {disk : Disk} {catalog : Catalog} {log : LogSink} :
      Step e { e with disk, catalog, log }

theorem Guarded.step {e e' : Engine} (h : Guarded e) (hstep : Step e e') : Guarded e' := by
  cases hstep with
  | call hrelease =>
      rename_i call
      rcases call.release_or_movePath e with ⟨txn, page, rfl⟩ | hpath
      · exact h.release (hrelease txn page rfl)
      · exact h.movePath hpath
  | surroundings => exact h.of_locks rfl fun _ _ _ _ _ howns => howns

theorem Guarded.run {start e : Engine} (h : Guarded start)
    (hrun : Relation.ReflTransGen Step start e) : Guarded e := by
  induction hrun with
  | refl => exact h
  | tail _ hstep ih => exact ih.step hstep

/-! ## Locks that stay -/

section

variable {e e' : Engine} {txn : TxnId}

theorem Action.Through.locks_writesBack {pages : List PageId}
    (h : Through WritesBack pages e e') : e'.pool.locks = e.pool.locks := by
  induction h with
  | nil => rfl
  | cons hstep _ ih =>
      rw [ih]
      cases hstep <;> rfl

theorem Action.Through.locks_restores {pages : List PageId} (h : Through Restores pages e e') :
    e'.pool.locks = e.pool.locks := by
  induction h with
  | nil => rfl
  | cons hstep _ ih =>
      rw [ih]
      cases hstep
      rfl

theorem locks_letGo (h : (e.letGo txn).pool.dirtiedBy txn ≠ []) :
    (e.letGo txn).pool.locks = e.pool.locks := by
  unfold letGo at h ⊢
  split
  · rename_i hclean
    rw [if_pos hclean] at h
    exact absurd (List.isEmpty_iff.1 hclean) h
  · rfl

/-- Changes that an end of the transaction leaves behind keep all its
locks. -/
theorem locks_abort (h : ((Engine.abort txn).after e).pool.dirtiedBy txn ≠ []) :
    ((Engine.abort txn).after e).pool.locks = e.pool.locks := by
  refine ends_after (R := fun e' => e'.pool.dirtiedBy txn ≠ [] → e'.pool.locks = e.pool.locks)
    |>.1 ((abort_ends txn e).mono ?_ ?_) h
  · rintro _ _ ⟨e₁, ⟨restored, -, hrestored⟩, rfl⟩ h
    rw [locks_letGo h, hrestored.locks_restores]
  · rintro _ _ ⟨page, rest, e₁, ⟨restored, -, hrestored⟩, -, rfl | rfl⟩ h
    · exact hrestored.locks_restores
    · rw [locks_letGo h, hrestored.locks_restores]

theorem locks_commit (h : ((Engine.commit txn).after e).pool.dirtiedBy txn ≠ []) :
    ((Engine.commit txn).after e).pool.locks = e.pool.locks := by
  refine ends_after (R := fun e' => e'.pool.dirtiedBy txn ≠ [] → e'.pool.locks = e.pool.locks)
    |>.1 ((commit_ends txn e).mono ?_ ?_) h
  · rintro _ _ ⟨e₁, ⟨written, -, hwritten⟩, rfl⟩ h
    rw [locks_letGo h, hwritten.locks_writesBack]
  · rintro _ e' ⟨page, rest, e₁, log, ⟨written, -, hwritten⟩, -, hend⟩ h
    rcases hend with rfl | ⟨unrestored, e₂, ⟨restored, -, hrestored⟩, rfl | rfl⟩
    · exact hwritten.locks_writesBack
    · exact hrestored.locks_restores.trans hwritten.locks_writesBack
    · rw [locks_letGo h, hrestored.locks_restores]
      exact hwritten.locks_writesBack

end

end HeapStore
