import HeapStore.Proofs.CommitEffect
import HeapStore.Proofs.PageRequests

/-!
# What an abort does

An abort walks over the pages that its transaction has changed, least recently
used first, and puts a clean copy of what the file holds (`HeapFile.pageOf`) in the
place of each. Only a table that is not in the catalog any more can stop the walk
(`abort_outcomes`). The pages in front are restored then and the others are not,
the transaction keeps its locks, and the next abort takes up the walk where this
one has left it (`Attempts.finishes`).

Tables may go and come back, each in the file that it was in: `home` tells the
file of every table, whether it is registered or not (`Catalog.DrawsOn`).

Headline: `abort_effect`.
-/

namespace HeapStore

open HeapStore.Action Engine

variable {home : TableId → HeapFile} {e e₁ e₂ e' : Engine} {txn : TxnId} {page : PageId}
  {pages done rest : List PageId}

/-! ## The walk of an abort -/

/-- A page cannot be restored, and why. -/
inductive Stops (page : PageId) (e : Engine) : Failure → Prop where
  | unknown {cause : Error} (hfile : e.catalog.file page.table = .error cause) :
      Stops page e (.error cause)
  | unread {file : HeapFile} {failure : Failure} (hfile : e.catalog.file page.table = .ok file)
      (hread : file.readPage e.disk page = .error failure) : Stops page e failure

theorem restorePage_stops (page : PageId) (e : Engine) :
    (restorePage page).Ends e (fun _ => Restores page e)
      (fun failure e' => Stops page e failure ∧ e' = e) := by
  simp only [restorePage, ends_bind, ends_fileOf, ends_readPage, ends_install, ends_pure]
  split
  · rename_i file hfile
    split
    · rename_i loaded disk hread
      exact .mk hfile hread
    · rename_i failure hread
      exact ⟨.unread hfile hread, trivial⟩
  · rename_i cause hfile
    exact ⟨.unknown hfile, trivial⟩

theorem abort_stops (txn : TxnId) (e : Engine) :
    (abort txn).Ends e
      (fun _ e' => ∃ e₁, Through Restores (e.pool.dirtiedBy txn) e e₁ ∧ e' = e₁.letGo txn)
      (fun failure e' => ∃ done page rest e₁, e.pool.dirtiedBy txn = done ++ page :: rest ∧
        Through Restores done e e₁ ∧ Stops page e₁ failure ∧
        ∀ cause, failure = .error cause → e' = e₁.letGo txn) := by
  have hwalk := ends_forM restorePage_stops (e.pool.dirtiedBy txn) e
  simp only [abort, restorePages, ends_bind, ends_attempt, ends_get, releaseIfClean_ends,
    ends_ofExcept]
  refine hwalk.mono ?_ ?_
  · intro _ e₁ hrestored
    exact ⟨e₁, hrestored, rfl⟩
  · rintro (cause | cause) _ ⟨done, page, rest, e₁, hpages, hrestored, hstops, rfl⟩
    · exact ⟨done, page, rest, _, hpages, hrestored, hstops, fun _ _ => rfl⟩
    · refine ⟨done, page, rest, _, hpages, hrestored, hstops, fun _ hcause => ?_⟩
      cases hcause

/-! ## Restored pages -/

/-- What a walk over pages of registered tables does to an engine: each page is
the one used last when its turn comes, and a copy of what its file has. -/
structure Engine.RollsBack (pages : List PageId) (e e' : Engine) : Prop where
  catalog : e'.catalog = e.catalog
  files : e'.disk.files = e.disk.files
  writes : e'.disk.traffic.map Traffic.writes = e.disk.traffic.map Traffic.writes
  log : e'.log = e.log
  capacity : e'.pool.capacity = e.pool.capacity
  peek_of_mem : ∀ page ∈ pages, ∃ file copy, e.catalog.file page.table = .ok file ∧
    file.Has e.disk page ∧ e'.pool.cache.peek page = some ⟨file.pageOf e.disk page, copy⟩
  peek_of_not_mem : ∀ page, page ∉ pages → e'.pool.cache.peek page = e.pool.cache.peek page
  keys : e'.pool.cache.keys = e.pool.cache.keys.filter (· ∉ pages) ++ pages
  mem_keys : ∀ page, page ∈ e'.pool.cache.keys ↔ page ∈ e.pool.cache.keys

/-- The pool with pages put in as new copies, one after the other. -/
def Pool.installAll (pool : Pool) (pages : List Page) : Pool :=
  pages.foldl (fun pool page => (pool.install page).2) pool

theorem Pool.installAll_append (pool : Pool) (pages more : List Page) :
    pool.installAll (pages ++ more) = (pool.installAll pages).installAll more :=
  List.foldl_append

namespace Action.Through

theorem files_restores (h : Through Restores pages e e') : e'.disk.files = e.disk.files := by
  induction h with
  | nil => rfl
  | cons hstep _ ih =>
      cases hstep with
      | mk _ hread => exact ih.trans (HeapFile.files_readPage hread)

theorem writes_restores (h : Through Restores pages e e') :
    e'.disk.traffic.map Traffic.writes = e.disk.traffic.map Traffic.writes := by
  induction h with
  | nil => rfl
  | cons hstep _ ih =>
      cases hstep with
      | mk _ hread => exact ih.trans (HeapFile.writes_readPage hread)

theorem capacity_restores (h : Through Restores pages e e') :
    e'.pool.capacity = e.pool.capacity := by
  induction h with
  | nil => rfl
  | cons hstep _ ih =>
      cases hstep
      exact ih

/-- Pages that were restored could be. -/
theorem has_of_restores (h : Through Restores pages e e') :
    ∀ page ∈ pages, ∃ file, e.catalog.file page.table = .ok file ∧ file.Has e.disk page := by
  induction h with
  | nil => exact nofun
  | cons hstep _ ih =>
      rename_i first pages e e₁ e₂ _
      intro page hmem
      have hsame := hstep.restored
      rcases List.mem_cons.1 hmem with rfl | hmem
      · cases hstep with
        | mk hfile hread => exact ⟨_, hfile, HeapFile.has_of_readPage hread⟩
      · obtain ⟨file, hfile, hhas⟩ := ih page hmem
        rw [hsame.catalog] at hfile
        exact ⟨file, hfile, (HeapFile.has_congr_content (hsame.content _)).1 hhas⟩

/-- What becomes of the pool depends on it and on the files alone. -/
theorem pool_restores (hdraws : e.catalog.DrawsOn home) (h : Through Restores pages e e') :
    e'.pool = e.pool.installAll
      (pages.map fun page => (home page.table).pageOf e.disk page) := by
  induction h with
  | nil => rfl
  | cons hstep _ ih =>
      rename_i page pages e e₁ e₂ _
      have hsame := hstep.restored
      have hpool : e₁.pool = (e.pool.install ((home page.table).pageOf e.disk page)).2 := by
        cases hstep with
        | mk hfile hread =>
            rw [HeapFile.pageOf_of_readPage hread, (hdraws _ _ hfile).pageOf_eq]
      have hpages : (fun page => (home page.table).pageOf e₁.disk page) =
          fun page => (home page.table).pageOf e.disk page :=
        funext fun page => HeapFile.pageOf_congr hsame.content page
      rw [ih (hsame.catalog ▸ hdraws), hpool, hpages]
      rfl

theorem rollsBack (hnodup : pages.Nodup) (hresident : ∀ page ∈ pages, page ∈ e.pool.cache.keys)
    (h : Through Restores pages e e') : e.RollsBack pages e' := by
  have hrestored := h.restored
  have hkeys := h.keys_restores hnodup
  refine ⟨hrestored.catalog, h.files_restores, h.writes_restores, h.log_restores,
    h.capacity_restores, ?_, hrestored.peek_of_not_mem, hkeys, fun page => ?_⟩
  · intro page hmem
    obtain ⟨file, hfile, hhas⟩ := h.has_of_restores page hmem
    obtain ⟨copy, hpeek⟩ := hrestored.peek_of_mem page hmem _
      (stored?_eq_some_iff.2 ⟨file, hfile, hhas, rfl⟩)
    exact ⟨file, copy, hfile, hhas, hpeek⟩
  · rw [hkeys]
    exact mem_moved_last hresident

end Action.Through

namespace Engine.RollsBack

/-- The locks play no part. -/
theorem locks (h : e.RollsBack pages e') (locks : LockTable) :
    e.RollsBack pages { e' with pool := { e'.pool with locks } } :=
  ⟨h.catalog, h.files, h.writes, h.log, h.capacity, h.peek_of_mem, h.peek_of_not_mem, h.keys,
    h.mem_keys⟩

/-- The changes of the transaction that were not rolled back are left. -/
theorem dirtiedBy_eq (h : e.RollsBack done e') (hpages : e.pool.dirtiedBy txn = done ++ rest) :
    e'.pool.dirtiedBy txn = rest := by
  refine Pool.dirtiedBy_of_split hpages ?_ (fun page hmem frame hpeek => ?_) h.peek_of_not_mem
  · have hnone : done.filter (· ∉ done) = [] := by simp
    rw [h.keys, List.filter_append, hnone, List.append_nil, List.filter_filter]
    simp
  · obtain ⟨file, copy, -, -, hcopy⟩ := h.peek_of_mem page hmem
    obtain rfl := Option.some.inj (hcopy.symm.trans hpeek)
    exact nofun

end Engine.RollsBack

/-- The two ways an abort can end when the pages that the transaction has changed
are whole pages of their files. -/
theorem abort_outcomes (hdraws : e.catalog.DrawsOn home)
    (hheld : ∀ page ∈ e.pool.dirtiedBy txn, (home page.table).Has e.disk page) :
    (∃ e₁, abort txn e = .ok () { e₁ with pool := e₁.pool.releaseAll txn } ∧
      Through Restores (e.pool.dirtiedBy txn) e e₁ ∧ e.RollsBack (e.pool.dirtiedBy txn) e₁) ∨
    (∃ e₁ done page rest, abort txn e = .error (.error (.tableNotFound page.table)) e₁ ∧
      e.pool.dirtiedBy txn = done ++ page :: rest ∧ ¬e.catalog.Knows page.table ∧
      Through Restores done e e₁ ∧ e.RollsBack done e₁) := by
  have hresident : ∀ page ∈ e.pool.dirtiedBy txn, page ∈ e.pool.cache.keys := by
    intro page hmem
    obtain ⟨frame, hpeek, -⟩ := mem_dirtiedBy.1 hmem
    exact Recency.mem_keys_of_peek hpeek
  cases habort : abort txn e with
  | ok answer e' =>
      obtain ⟨e₁, hwalk, rfl⟩ := (abort_stops txn e).of_ok habort
      have hback := hwalk.rollsBack (nodup_dirtiedBy _ _) hresident
      have hnone := hback.dirtiedBy_eq (List.append_nil _).symm
      refine .inl ⟨e₁, ?_, hwalk, hback⟩
      rw [Engine.letGo, hnone]
      rfl
  | error failure e' =>
      obtain ⟨done, page, rest, e₁, hpages, hwalk, hstops, hleft⟩ :=
        (abort_stops txn e).of_error habort
      have hsame := hwalk.restored
      have hback := hwalk.rollsBack (Pool.nodup_split hpages).1 fun page hmem =>
        hresident page (hpages ▸ List.mem_append_left _ hmem)
      have hhome : (home page.table).Has e.disk page :=
        hheld page (hpages ▸ List.mem_append_right _ List.mem_cons_self)
      cases hstops with
      | unknown hfile =>
          have hrest := hback.dirtiedBy_eq hpages
          rw [hsame.catalog] at hfile
          obtain rfl := Catalog.eq_tableNotFound hfile
          refine .inr ⟨e₁, done, page, rest, ?_, hpages, ?_, hwalk, hback⟩
          · rw [hleft _ rfl, Engine.letGo, hrest]
            rfl
          · rintro ⟨file, hfile'⟩
            rw [hfile'] at hfile
            cases hfile
      | unread hfile hread =>
          -- The page is a whole one, and no file has changed so far.
          rename_i file
          rw [hsame.catalog] at hfile
          have hhas : file.Has e₁.disk page :=
            (HeapFile.has_congr_content (hsame.content _)).2 ((hdraws _ _ hfile).has_iff.2 hhome)
          rw [HeapFile.readPage_eq hhas] at hread
          cases hread

/-! ## Aborts that are tried again -/

/-- The same pool and the same bytes in the files, while tables may have gone or
come back. -/
structure Engine.Reregisters (home : TableId → HeapFile) (e e' : Engine) : Prop where
  pool : e'.pool = e.pool
  content : ∀ name, e'.disk.content name = e.disk.content name
  draws : e'.catalog.DrawsOn home

/-- Any number of aborts of a transaction, none of which succeeds, with tables
going and coming back in between. -/
inductive Engine.Attempts (home : TableId → HeapFile) (txn : TxnId) (e : Engine) :
    Engine → Prop where
  | none : Attempts home txn e e
  | failed {e₁ e₂ e₃ : Engine} {failure : Failure} (h : Attempts home txn e e₁)
      (hmoved : e₁.Reregisters home e₂) (hfails : abort txn e₂ = .error failure e₃) :
      Attempts home txn e e₃

/-- Where attempts to abort have left the walk over the changed pages: the pages
in front are as one walk over them leaves them, the rest is still to come. -/
structure Engine.LeftAt (home : TableId → HeapFile) (txn : TxnId) (e : Engine)
    (done rest : List PageId) (e' : Engine) : Prop where
  pages : e.pool.dirtiedBy txn = done ++ rest
  pool : e'.pool = e.pool.installAll (done.map fun page => (home page.table).pageOf e.disk page)
  rest : e'.pool.dirtiedBy txn = rest
  content : ∀ name, e'.disk.content name = e.disk.content name

theorem Engine.LeftAt.reregisters (h : e.LeftAt home txn done rest e₁)
    (hmoved : e₁.Reregisters home e₂) : e.LeftAt home txn done rest e₂ :=
  ⟨h.pages, hmoved.pool.trans h.pool, hmoved.pool ▸ h.rest,
    fun name => (hmoved.content name).trans (h.content name)⟩

/-- The pages to come can still be read. -/
theorem Engine.LeftAt.held (h : e.LeftAt home txn done rest e₁)
    (hheld : ∀ page ∈ e.pool.dirtiedBy txn, (home page.table).Has e.disk page) :
    ∀ page ∈ e₁.pool.dirtiedBy txn, (home page.table).Has e₁.disk page := by
  intro page hmem
  rw [h.rest] at hmem
  exact (HeapFile.has_congr_content (h.content _)).2
    (hheld page (h.pages ▸ List.mem_append_right _ hmem))

/-- Another walk goes on where the last one ended. -/
theorem Engine.LeftAt.walk {more : List PageId} (h : e.LeftAt home txn done (more ++ rest) e₁)
    (hdraws : e₁.catalog.DrawsOn home) (hwalk : Through Restores more e₁ e₂)
    (hback : e₁.RollsBack more e₂) : e.LeftAt home txn (done ++ more) rest e₂ := by
  have hpages : (fun page => (home page.table).pageOf e₁.disk page) =
      fun page => (home page.table).pageOf e.disk page :=
    funext fun page => HeapFile.pageOf_congr h.content page
  refine ⟨by rw [h.pages, List.append_assoc], ?_, hback.dirtiedBy_eq h.rest, fun name => ?_⟩
  · rw [hwalk.pool_restores hdraws, hpages, h.pool, List.map_append, Pool.installAll_append]
  · rw [hwalk.restored.content, h.content]

theorem Engine.Attempts.leftAt (h : Attempts home txn e e₁)
    (hheld : ∀ page ∈ e.pool.dirtiedBy txn, (home page.table).Has e.disk page) :
    ∃ done rest, e.LeftAt home txn done rest e₁ := by
  induction h with
  | none => exact ⟨[], _, rfl, rfl, rfl, fun _ => rfl⟩
  | failed _ hmoved hfails ih =>
      obtain ⟨done, rest, hleft⟩ := ih
      have hleft := hleft.reregisters hmoved
      rcases abort_outcomes hmoved.draws (hleft.held hheld) with
        ⟨e', habort, -⟩ | ⟨e', more, page, rest', habort, hpages, -, hwalk, hback⟩
      · rw [hfails] at habort
        cases habort
      · rw [hfails] at habort
        cases habort
        rw [hleft.rest] at hpages
        subst hpages
        exact ⟨_, _, hleft.walk hmoved.draws hwalk hback⟩

/-- An abort that finds the tables of all pages that are left finishes what the
attempts before it have begun. -/
theorem Engine.Attempts.finishes (h : Attempts home txn e e₁) (hmoved : e₁.Reregisters home e₂)
    (hheld : ∀ page ∈ e.pool.dirtiedBy txn, (home page.table).Has e.disk page)
    (hknown : ∀ page ∈ e.pool.dirtiedBy txn, e₂.catalog.Knows page.table) :
    ∃ e', abort txn e₂ = .ok () e' ∧ e'.pool =
      (e.pool.installAll ((e.pool.dirtiedBy txn).map fun page =>
        (home page.table).pageOf e.disk page)).releaseAll txn := by
  obtain ⟨done, rest, hleft⟩ := h.leftAt hheld
  have hleft := hleft.reregisters hmoved
  rcases abort_outcomes hmoved.draws (hleft.held hheld) with
    ⟨e', habort, hwalk, hback⟩ | ⟨e', more, page, rest', -, hpages, hunknown, -⟩
  · refine ⟨_, habort, ?_⟩
    have hall : e.LeftAt home txn done (rest ++ []) e₂ := by
      rw [List.append_nil]
      exact hleft
    rw [hleft.rest] at hwalk hback
    have hend := hall.walk hmoved.draws hwalk hback
    rw [hend.pages, List.append_nil, ← hend.pool]
  · refine absurd (hknown page ?_) hunknown
    rw [hleft.pages, ← hleft.rest, hpages]
    exact List.mem_append_right _ (List.mem_append_right _ List.mem_cons_self)

/-! ## The effect of an abort -/

/-- In every state that one comes to with a pool while each table stays in its
file, an abort has one of two outcomes.

- All tables of the pages changed by the transaction are registered: it succeeds,
  these pages are rolled back, and the transaction has neither changes nor locks.
- Some table is not: it answers so for the first such page, the pages in front are
  rolled back, the changes to the others are left, and so are all locks.

In both, nothing is written, and no other page and no lock of others is touched.

Once all tables are registered again, an abort leaves the same pool as one abort
would have done in the first place, however many attempts have failed before. -/
theorem abort_effect (h : e.ReachedOver home) (txn : TxnId)
    (hfew : ∀ page ∈ e.pool.dirtiedBy txn, (home page.table).wholePages e.disk < UInt32.size) :
    ((∃ e', abort txn e = .ok () e' ∧
      (∀ page ∈ e.pool.dirtiedBy txn, e.catalog.Knows page.table) ∧
      e.RollsBack (e.pool.dirtiedBy txn) e' ∧ e'.Rid txn ∧
      ∀ other page, e'.pool.locks.mode? other page =
        if other = txn then none else e.pool.locks.mode? other page) ∨
    (∃ e' done page rest, abort txn e = .error (.error (.tableNotFound page.table)) e' ∧
      e.pool.dirtiedBy txn = done ++ page :: rest ∧
      (∀ p ∈ done, e.catalog.Knows p.table) ∧ ¬e.catalog.Knows page.table ∧
      e.RollsBack done e' ∧ e'.pool.dirtiedBy txn = page :: rest ∧
      e'.pool.locks = e.pool.locks)) ∧
    ∀ e₁ e₂, Attempts home txn e e₁ → e₁.Reregisters home e₂ →
      (∀ page ∈ e.pool.dirtiedBy txn, e₂.catalog.Knows page.table) →
      ∃ later atOnce, abort txn e₂ = .ok () later ∧
        abort txn { e with catalog := e₂.catalog } = .ok () atOnce ∧ later.pool = atOnce.pool := by
  have hbacked := Backed.of_reached h
  have hheld : ∀ page ∈ e.pool.dirtiedBy txn, (home page.table).Has e.disk page := by
    intro page hmem
    obtain ⟨frame, hpeek, -⟩ := mem_dirtiedBy.1 hmem
    exact hbacked.has hpeek (hfew page hmem)
  have hknown : ∀ {pages e₁}, Through Restores pages e e₁ →
      ∀ page ∈ pages, e.catalog.Knows page.table := by
    intro pages e₁ hwalk page hmem
    obtain ⟨file, hfile, -⟩ := hwalk.has_of_restores page hmem
    exact ⟨file, hfile⟩
  refine ⟨?_, fun e₁ e₂ hattempts hmoved hall => ?_⟩
  · rcases abort_outcomes hbacked.draws hheld with
      ⟨e₁, habort, hwalk, hback⟩ | ⟨e₁, done, page, rest, habort, hpages, hunknown, hwalk, hback⟩
    · have hnone := hback.dirtiedBy_eq (List.append_nil _).symm
      refine .inl ⟨_, habort, hknown hwalk, hback.locks _, fun page frame hpeek hdirty => ?_, ?_⟩
      · have hmem : page ∈ e₁.pool.dirtiedBy txn := mem_dirtiedBy.2 ⟨frame, hpeek, hdirty⟩
        rw [hnone] at hmem
        cases hmem
      · intro other page
        rw [← hwalk.locks_restores]
        exact LockTable.mode?_releaseAll _ _ _ _
    · exact .inr ⟨e₁, done, page, rest, habort, hpages, hknown hwalk, hunknown, hback,
        hback.dirtiedBy_eq hpages, hwalk.locks_restores⟩
  · obtain ⟨later, hlater, hpool⟩ := hattempts.finishes hmoved hheld hall
    have hatOnce : e.Reregisters home { e with catalog := e₂.catalog } :=
      ⟨rfl, fun _ => rfl, hmoved.draws⟩
    obtain ⟨atOnce, honce, hpool'⟩ := Attempts.none.finishes hatOnce hheld hall
    exact ⟨later, atOnce, hlater, honce, hpool.trans hpool'.symm⟩

/-- The files of two tables. -/
def Engine.twoHomes (table : TableId) : HeapFile :=
  if table = ⟨0⟩ then .pairs 0 "a" else .pairs 1 "b"

/-- A transaction has changed a page of each of two tables, when the first one
takes the name of the second, which is gone then. -/
def Engine.tableGone : Engine :=
  { Call.afterAll [.insert ⟨1⟩ ⟨0⟩ (.single 7), .insert ⟨1⟩ ⟨1⟩ (.single 8)] (twoTables 4 .none) with
    catalog := ((twoTables 4 .none).catalog.register (.pairs 0 "a") "b" "").2 }

theorem drawsOn_tableGone : tableGone.catalog.DrawsOn twoHomes :=
  (drawsOn_twoTables rfl rfl 4 .none).register ⟨rfl, rfl, rfl, rfl⟩

theorem Engine.Reregisters.of_reopened (h : e.catalog.DrawsOn twoHomes) :
    e.Reregisters twoHomes e.reopened :=
  ⟨rfl, fun _ => rfl, h.register ⟨rfl, rfl, rfl, rfl⟩⟩

/-- An abort stops at the page of the second table, and another one finishes once
the table is back. -/
theorem abort_effect_tableGone :
    ∃ e', abort ⟨1⟩ tableGone = .error (.error (.tableNotFound ⟨1⟩)) e' ∧
      tableGone.RollsBack [⟨⟨0⟩, 0⟩] e' ∧ e'.pool.dirtiedBy ⟨1⟩ = [⟨⟨1⟩, 0⟩] ∧
      e'.pool.locks = tableGone.pool.locks ∧
      ∃ later atOnce, abort ⟨1⟩ e'.reopened = .ok () later ∧
        abort ⟨1⟩ { tableGone with catalog := tableGone.reopened.catalog } = .ok () atOnce ∧
        later.pool = atOnce.pool := by
  have hreached : tableGone.ReachedOver twoHomes :=
    .surroundings drawsOn_tableGone (fun _ => Nat.le_refl _)
      (.afterAll (.start rfl (drawsOn_twoTables rfl rfl 4 .none)) _)
  have hpages : tableGone.pool.dirtiedBy ⟨1⟩ = [⟨⟨0⟩, 0⟩, ⟨⟨1⟩, 0⟩] := by decide +kernel
  have hfew : ∀ page ∈ tableGone.pool.dirtiedBy ⟨1⟩,
      (twoHomes page.table).wholePages tableGone.disk < UInt32.size := by
    rw [hpages]
    decide +kernel
  have hfirst : tableGone.catalog.file ⟨0⟩ = .ok (.pairs 0 "a") := by decide +kernel
  have hsecond : tableGone.catalog.file ⟨1⟩ = .error (.tableNotFound ⟨1⟩) := by decide +kernel
  have hback : ∀ page ∈ tableGone.pool.dirtiedBy ⟨1⟩,
      tableGone.reopened.catalog.Knows page.table := by
    rw [hpages]
    simp only [List.forall_mem_cons]
    exact ⟨⟨.pairs 0 "a", by decide +kernel⟩,
      ⟨{ HeapFile.pairs 1 "b" with handle := ⟨2, "b", "b", 9⟩ }, by decide +kernel⟩, nofun⟩
  obtain ⟨houtcome, hagain⟩ := abort_effect hreached ⟨1⟩ hfew
  rcases houtcome with
    ⟨-, -, hknown, -⟩ | ⟨e', done, page, rest, habort, hsplit, -, hunknown, hrolled, hrest, hlocks⟩
  · rw [hpages] at hknown
    obtain ⟨file, hfile⟩ := hknown ⟨⟨1⟩, 0⟩ (by decide)
    rw [hsecond] at hfile
    cases hfile
  · rw [hpages] at hsplit
    obtain ⟨rfl, rfl, rfl⟩ : done = [⟨⟨0⟩, 0⟩] ∧ page = ⟨⟨1⟩, 0⟩ ∧ rest = [] := by
      match done with
      | [] =>
          cases hsplit
          exact absurd ⟨_, hfirst⟩ hunknown
      | [_] =>
          cases hsplit
          exact ⟨rfl, rfl, rfl⟩
      | _ :: _ :: _ => simp at hsplit
    have hcatalog : e'.reopened.catalog = tableGone.reopened.catalog := by
      simp only [reopened, hrolled.catalog]
    obtain ⟨later, atOnce, hlater, hatOnce, hpool⟩ := hagain e' e'.reopened
      (.failed .none ⟨rfl, fun _ => rfl, drawsOn_tableGone⟩ habort)
      (.of_reopened (hrolled.catalog ▸ drawsOn_tableGone)) (hcatalog ▸ hback)
    rw [hcatalog] at hatOnce
    exact ⟨e', habort, hrolled, hrest, hlocks, later, atOnce, hlater, hatOnce, hpool⟩

end HeapStore
