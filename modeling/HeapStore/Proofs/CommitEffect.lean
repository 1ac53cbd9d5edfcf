import HeapStore.Proofs.FailedCommit
import HeapStore.Proofs.Registration
import HeapStore.Proofs.ReopenedTables
import HeapStore.Proofs.RepeatableRead
import HeapStore.Proofs.WriteAhead

/-!
# What a commit does

A commit walks over the pages that its transaction has changed, least recently
used first. Of each it logs a record (`Engine.image?`), forces the log, writes
the page to its file and leaves it clean in its place in the pool. If the log
refuses a record, or to be forced after it, the commit answers with the log's
error; this page and those behind it are then replaced by clean copies of what
their files hold, which makes them the most recently used ones.

Either way the rest of the engine is as before, no page is left with changes of
the transaction, and it holds no locks (`Settles`).

Headline: `commit_effect`.
-/

namespace HeapStore

open HeapStore.Action Engine

/-! ## Logs -/

namespace LogSink

/-- The log after it took records, one after the other, and was forced after
each, if it refused nothing. -/
def acceptAll? : LogSink → List LogRecord → Option LogSink
  | log, [] => some log
  | log, record :: records => (log.accept? record).bind fun log => log.acceptAll? records

/-- The log refuses a record, or takes it and refuses to be forced then. -/
inductive Refuses (record : LogRecord) (cause : Error) : LogSink → LogSink → Prop where
  | write {log log' : LogSink} (hwrite : log.write record = (.error cause, log')) :
      Refuses record cause log log'
  | force {log taken log' : LogSink} (hwrite : log.write record = (.ok (), taken))
      (hforce : taken.force = (.error cause, log')) : Refuses record cause log log'

end LogSink

/-- The log with the records, each of them forced. -/
def MemoryLog.extend (log : MemoryLog) (records : List LogRecord) : MemoryLog :=
  { log with
    records := log.records ++ records
    forces := log.forces + records.length
    writeCalls := log.writeCalls + records.length
    forceCalls := log.forceCalls + records.length }

theorem LogSink.accept?_memory {memory : MemoryLog} {record : LogRecord} {log : LogSink}
    (h : LogSink.accept? (.memory memory) record = some log) :
    log = .memory (memory.extend [record]) := by
  obtain ⟨taken, hwrite, hforce⟩ := accept?_eq_some h
  rw [write_memory, Prod.mk.injEq] at hwrite
  obtain ⟨hwritten, rfl⟩ := hwrite
  rw [force_memory, Prod.mk.injEq] at hforce
  obtain ⟨hforced, rfl⟩ := hforce
  rw [MemoryLog.force_of_ok hforced, MemoryLog.write_of_ok hwritten]
  rfl

/-- A record is in the log if its write was accepted, also when the force that
follows is refused. -/
theorem LogSink.Refuses.memory {memory : MemoryLog} {record : LogRecord} {cause : Error}
    {log : LogSink} (h : LogSink.Refuses record cause (.memory memory) log) :
    ∃ memory', log = .memory memory' ∧ memory'.forces = memory.forces ∧
      memory'.records = memory.records ++
        if memory.refusals.writes (memory.writeCalls + 1) then [] else [record] := by
  rcases h with hwrite | ⟨hwrite, hforce⟩
  · rw [write_memory, Prod.mk.injEq] at hwrite
    obtain ⟨hrefused, rfl⟩ := hwrite
    have hrefuses : memory.refusals.writes (memory.writeCalls + 1) = true := by
      simpa [hrefused, Except.isOk, Except.toBool] using MemoryLog.isOk_write memory record
    refine ⟨_, rfl, ?_⟩
    rw [MemoryLog.write_of_error hrefused, if_pos hrefuses, List.append_nil]
    exact ⟨rfl, rfl⟩
  · rw [write_memory, Prod.mk.injEq] at hwrite
    obtain ⟨hwritten, rfl⟩ := hwrite
    rw [force_memory, Prod.mk.injEq] at hforce
    obtain ⟨hrefused, rfl⟩ := hforce
    have haccepts : memory.refusals.writes (memory.writeCalls + 1) = false := by
      simpa [hwritten, Except.isOk, Except.toBool] using MemoryLog.isOk_write memory record
    refine ⟨_, rfl, ?_⟩
    rw [MemoryLog.force_of_error hrefused, MemoryLog.write_of_ok hwritten, haccepts]
    exact ⟨rfl, rfl⟩

theorem LogSink.acceptAll?_memory {memory : MemoryLog} {records : List LogRecord} {log : LogSink}
    (h : LogSink.acceptAll? (.memory memory) records = some log) :
    log = .memory (memory.extend records) := by
  induction records generalizing memory with
  | nil => simpa [MemoryLog.extend] using (Option.some.inj h).symm
  | cons record records ih =>
      obtain ⟨first, hfirst, hrest⟩ := Option.bind_eq_some_iff.1 h
      obtain rfl := accept?_memory hfirst
      rw [ih hrest]
      simp [MemoryLog.extend, Nat.add_assoc, Nat.add_comm 1]

/-! ## Records -/

/-- What the log is told of a page: the bytes in its file and those in the
pool. -/
def Engine.image? (engine : Engine) (txn : TxnId) (page : PageId) : Option LogRecord :=
  (engine.stored? page).bind fun stored =>
    (engine.pool.cache.peek page).map fun frame =>
      { txn, page, before := stored.data, after := frame.page.data }

variable {capacity : Nat} {e e₁ e₂ e' : Engine} {txn : TxnId} {page : PageId} {frame : Frame}
  {written restored : List PageId}

theorem Engine.image?_congr (hstored : e'.stored? page = e.stored? page)
    (hpeek : e'.pool.cache.peek page = e.pool.cache.peek page) :
    e'.image? txn page = e.image? txn page := by
  rw [image?, hstored, hpeek, image?]

/-- The record of a page tells what its file holds. -/
theorem Coherent.image?_eq (h : Coherent capacity e)
    (hpeek : e.pool.cache.peek page = some frame) :
    e.image? txn page = some (recordOf txn frame.page) := by
  rw [image?, (h.mirrors page frame hpeek).stored, hpeek, ← h.id_eq hpeek]
  rfl

/-- The log takes one record for each page that is written, in that order. -/
theorem Action.Through.images (hreg : e.catalog.Registered) (h : Coherent capacity e)
    (hnodup : written.Nodup) (hdirtied : e.Dirtied txn written)
    (hwritten : Through WritesBack written e e₁) :
    ∃ records, written.map (e.image? txn) = records.map some ∧
      e.log.acceptAll? records = some e₁.log := by
  refine hwritten.writes_induction (motive := fun written e e₁ => ∃ records,
    written.map (e.image? txn) = records.map some ∧ e.log.acceptAll? records = some e₁.log)
    ?_ ?_ hreg h hnodup hdirtied
  · exact fun _ => ⟨[], rfl, rfl⟩
  · rintro page pages e e₁ e₂ frame _ h hpeek hdirty hnot hstep hwrote hothers
      ⟨records, himages, haccepted⟩
    have hlater : pages.map (e₁.image? txn) = pages.map (e.image? txn) := by
      refine List.map_congr_left fun p hp => image?_congr ?_ (hothers p hp)
      exact hwrote.stored_of_not_mem p fun heq => hnot (List.mem_singleton.1 heq ▸ hp)
    refine ⟨recordOf txn frame.page :: records, ?_, ?_⟩
    · rw [List.map_cons, h.image?_eq hpeek, ← hlater, himages, List.map_cons]
    · rw [LogSink.acceptAll?, hstep.accept?_eq hpeek hdirty]
      exact haccepted

/-- What stops the walk is the log's answer to the record of a page. -/
theorem Refuses.log_refuses {cause : Error} (h : HeapStore.Refuses page cause e e')
    (hpeek : e.pool.cache.peek page = some frame) (hdirty : frame.page.dirtier = some txn) :
    ∃ log, e' = { e with log } ∧
      LogSink.Refuses (recordOf txn frame.page) cause e.log log := by
  cases h with
  | write hpeek' hdirty' hwrite =>
      obtain rfl := Option.some.inj (hpeek.symm.trans hpeek')
      obtain rfl := Option.some.inj (hdirty.symm.trans hdirty')
      exact ⟨_, rfl, .write hwrite⟩
  | force hpeek' hdirty' hwrite hforce =>
      obtain rfl := Option.some.inj (hpeek.symm.trans hpeek')
      obtain rfl := Option.some.inj (hdirty.symm.trans hdirty')
      exact ⟨_, rfl, .force hwrite hforce⟩

/-! ## The order of use -/

theorem Action.Through.keys_writesBack (h : Through WritesBack written e e₁) :
    e₁.pool.cache.keys = e.pool.cache.keys := by
  induction h with
  | nil => rfl
  | cons hstep _ ih =>
      rw [ih]
      cases hstep with
      | clean _ => rfl
      | dirty _ _ _ _ _ => exact Recency.keys_modify _ _ _

/-- Restored pages become the most recently used ones. -/
theorem Action.Through.keys_restores (hnodup : restored.Nodup)
    (h : Through Restores restored e e₁) :
    e₁.pool.cache.keys = e.pool.cache.keys.filter (· ∉ restored) ++ restored := by
  induction h with
  | nil => simp
  | cons hstep _ ih =>
      rename_i page pages e e₁ e₂ _
      obtain ⟨hnot, hnodup⟩ := List.nodup_cons.1 hnodup
      have hkeys : e₁.pool.cache.keys = e.pool.cache.keys.filter (· ≠ page) ++ [page] := by
        cases hstep with
        | mk _ hread =>
            rw [← HeapFile.id_of_readPage hread]
            exact Recency.keys_put _ _ _
      rw [ih hnodup, hkeys, List.filter_append, List.filter_filter, List.append_assoc]
      congr 1
      · refine List.filter_congr fun p _ => ?_
        simp [not_or, Bool.and_comm]
      · simp [hnot]

/-- Pages that are moved to the end stay among the pages. -/
theorem mem_moved_last {pages moved : List PageId} (h : ∀ p ∈ moved, p ∈ pages) :
    page ∈ pages.filter (· ∉ moved) ++ moved ↔ page ∈ pages := by
  rw [List.mem_append, List.mem_filter]
  by_cases hmem : page ∈ moved <;> simp [hmem, h]

/-- The pages changed by a transaction, told by the keys of the pool. -/
theorem Pool.dirtiedBy_eq_filter (pool : Pool) (txn : TxnId) :
    pool.dirtiedBy txn = pool.cache.keys.filter fun page =>
      (pool.cache.peek page).any fun frame => frame.page.dirtier = some txn := by
  rw [dirtiedBy, ← Recency.map_fst_toList, List.filter_map]
  congr 1
  refine List.filter_congr fun pair hpair => ?_
  simp [Recency.mem_toList.1 hpair]

theorem Pool.nodup_split {pool : Pool} (h : pool.dirtiedBy txn = written ++ restored) :
    written.Nodup ∧ restored.Nodup ∧ ∀ page ∈ written, page ∉ restored := by
  have hnodup := nodup_dirtiedBy pool txn
  rw [h] at hnodup
  obtain ⟨hwritten, hrestored, hdisjoint⟩ := List.nodup_append.1 hnodup
  exact ⟨hwritten, hrestored, fun page hmem hmem' => hdisjoint page hmem page hmem' rfl⟩

/-- When some of a transaction's changes are gone from the pool and nothing else
has happened to the changed pages, the others are left, in the order of before. -/
theorem Pool.dirtiedBy_of_split {pool pool' : Pool} {done rest : List PageId}
    (hpages : pool.dirtiedBy txn = done ++ rest)
    (hkeys : pool'.cache.keys.filter (· ∉ done) = pool.cache.keys.filter (· ∉ done))
    (hclean : ∀ page ∈ done, ∀ frame, pool'.cache.peek page = some frame →
      frame.page.dirtier ≠ some txn)
    (hothers : ∀ page, page ∉ done → pool'.cache.peek page = pool.cache.peek page) :
    pool'.dirtiedBy txn = rest := by
  have hsplit : ∀ page ∈ pool'.cache.keys,
      ((pool'.cache.peek page).any fun frame => frame.page.dirtier = some txn) =
        (((pool.cache.peek page).any fun frame => frame.page.dirtier = some txn) &&
          decide (page ∉ done)) := by
    intro page _
    by_cases hmem : page ∈ done
    · have hnone : ((pool'.cache.peek page).any fun frame =>
          frame.page.dirtier = some txn) = false := by
        rw [← Bool.not_eq_true, Option.any_eq_true]
        simpa using hclean page hmem
      simp [hnone, hmem]
    · rw [hothers page hmem]
      simp [hmem]
  obtain ⟨-, -, hdisjoint⟩ := Pool.nodup_split hpages
  have hnone : done.filter (· ∉ done) = [] := by simp
  have hall : rest.filter (· ∉ done) = rest :=
    List.filter_eq_self.2 fun page hpage => by
      simpa using fun hmem => hdisjoint page hmem hpage
  calc pool'.dirtiedBy txn
      = (pool'.cache.keys.filter (· ∉ done)).filter fun page =>
          (pool.cache.peek page).any fun frame => frame.page.dirtier = some txn := by
        rw [dirtiedBy_eq_filter, List.filter_congr hsplit, List.filter_filter]
    _ = (pool.dirtiedBy txn).filter (· ∉ done) := by
        rw [hkeys, dirtiedBy_eq_filter, List.filter_filter, List.filter_filter]
        simp only [Bool.and_comm]
    _ = rest := by rw [hpages, List.filter_append, hnone, hall, List.nil_append]

/-- Once some of a transaction's changes are written, the others are left. -/
theorem Wrote.dirtiedBy_eq (hwrote : Wrote written e e₁)
    (hkeys : e₁.pool.cache.keys = e.pool.cache.keys)
    (hpages : e.pool.dirtiedBy txn = written ++ restored) : e₁.pool.dirtiedBy txn = restored := by
  refine Pool.dirtiedBy_of_split hpages (by rw [hkeys]) (fun page hmem frame hpeek => ?_)
    hwrote.peek_of_not_mem
  have hdirtied : page ∈ e.pool.dirtiedBy txn := by
    rw [hpages]
    exact List.mem_append_left _ hmem
  obtain ⟨frame', hpeek', -⟩ := mem_dirtiedBy.1 hdirtied
  rw [hwrote.peek_of_mem page hmem frame' hpeek'] at hpeek
  cases hpeek
  exact nofun

/-! ## What is settled -/

/-- What the end of a transaction leaves when some of its changes were written
and the others given up: no other page and no lock of others is touched, the
same pages are resident, and the transaction has neither changes nor locks. -/
structure Settles (txn : TxnId) (written restored : List PageId) (e e' : Engine) : Prop where
  catalog : e'.catalog = e.catalog
  /-- Written pages are in their files, and clean in the pool. -/
  of_written : ∀ page ∈ written, ∃ frame, e.pool.cache.peek page = some frame ∧
    e'.stored? page = some frame.page.markClean ∧
    e'.pool.cache.peek page = some { frame with page := frame.page.markClean }
  /-- Of the pages given up, the pool has clean copies of what the files hold. -/
  of_restored : ∀ page ∈ restored, ∃ stored copy, stored.dirtier = none ∧
    e.stored? page = some stored ∧ e'.stored? page = some stored ∧
    e'.pool.cache.peek page = some ⟨stored, copy⟩
  stored_eq : ∀ page, page ∉ written → e'.stored? page = e.stored? page
  content_eq : ∀ name, (∀ page ∈ written, ∀ file, e.catalog.file page.table = .ok file →
    file.handle.name ≠ name) → e'.disk.content name = e.disk.content name
  peek_eq : ∀ page, page ∉ written → page ∉ restored →
    e'.pool.cache.peek page = e.pool.cache.peek page
  /-- The order of use is as before, but for the new copies. -/
  keys_eq : e'.pool.cache.keys = e.pool.cache.keys.filter (· ∉ restored) ++ restored
  mem_keys : ∀ page, page ∈ e'.pool.cache.keys ↔ page ∈ e.pool.cache.keys
  rid : e'.Rid txn
  locks : ∀ other page, e'.pool.locks.mode? other page =
    if other = txn then none else e.pool.locks.mode? other page

/-- The locks of a transaction without changes in the pool are given back. -/
theorem Engine.Rid.letGo_eq (h : e.Rid txn) :
    e.letGo txn = { e with pool := e.pool.releaseAll txn } := by
  have hnone : e.pool.dirtiedBy txn = [] := by
    refine List.eq_nil_iff_forall_not_mem.2 fun page hmem => ?_
    obtain ⟨frame, hpeek, hdirty⟩ := mem_dirtiedBy.1 hmem
    exact h page frame hpeek hdirty
  rw [Engine.letGo, hnone]
  rfl

/-- Some of the changed pages were written, and then the others restored; in
between the log has moved on. -/
structure Walked (capacity : Nat) (txn : TxnId) (written restored : List PageId)
    (e e₁ e₂ : Engine) : Prop where
  registered : e.catalog.Registered
  coherent : Coherent capacity e
  pages : e.pool.dirtiedBy txn = written ++ restored
  writes : Through WritesBack written e e₁
  restores : ∃ log, Through Restores restored { e₁ with log } e₂

namespace Walked

theorem nodup (h : Walked capacity txn written restored e e₁ e₂) :
    written.Nodup ∧ restored.Nodup ∧ ∀ page ∈ written, page ∉ restored :=
  Pool.nodup_split h.pages

theorem dirtied (h : Walked capacity txn written restored e e₁ e₂) :
    e.Dirtied txn (written ++ restored) :=
  h.pages ▸ dirtied_dirtiedBy e txn

theorem wrote (h : Walked capacity txn written restored e e₁ e₂) : Wrote written e e₁ :=
  (h.writes.wrote h.registered h.coherent h.nodup.1 fun page hmem =>
    h.dirtied page (List.mem_append_left _ hmem)).2

theorem copied (h : Walked capacity txn written restored e e₁ e₂) : Restored restored e₁ e₂ := by
  obtain ⟨log, hwalk⟩ := h.restores
  obtain ⟨hcopied, hothers, hcatalog, hcontent⟩ := hwalk.restored
  exact ⟨hcopied, hothers, hcatalog, hcontent⟩

theorem catalog_eq (h : Walked capacity txn written restored e e₁ e₂) :
    e₂.catalog = e.catalog :=
  h.copied.catalog.trans (Through.writesBack_movePath h.writes).grows.catalog

/-- Files are left alone in which no page is written. -/
theorem content_eq (h : Walked capacity txn written restored e e₁ e₂) {name : String}
    (hname : ∀ page ∈ written, ∀ file, e.catalog.file page.table = .ok file →
      file.handle.name ≠ name) : e₂.disk.content name = e.disk.content name := by
  rw [h.copied.content]
  revert hname
  refine h.writes.writes_induction (motive := fun written e e₁ =>
    (∀ page ∈ written, ∀ file, e.catalog.file page.table = .ok file → file.handle.name ≠ name) →
      e₁.disk.content name = e.disk.content name) ?_ ?_ h.registered h.coherent h.nodup.1
    fun page hmem => h.dirtied page (List.mem_append_left _ hmem)
  · exact fun _ _ => rfl
  · intro page pages e e₁ e₂ frame _ h hpeek hdirty _ hstep _ _ ih hname
    rw [ih fun p hp file hfile => ?_]
    · cases hstep with
      | clean _ => rfl
      | dirty hpeek' _ hfile _ hwrite =>
          obtain rfl := Option.some.inj (hpeek.symm.trans hpeek')
          rw [h.id_eq hpeek] at hfile
          exact Disk.content_writePage_of_ne hwrite (hname page List.mem_cons_self _ hfile).symm
    · rw [hstep.grows.catalog] at hfile
      exact hname p (List.mem_cons_of_mem _ hp) file hfile

theorem of_written (h : Walked capacity txn written restored e e₁ e₂) (hmem : page ∈ written) :
    ∃ frame, e.pool.cache.peek page = some frame ∧
      e₂.stored? page = some frame.page.markClean ∧
      e₂.pool.cache.peek page = some { frame with page := frame.page.markClean } := by
  obtain ⟨frame, hpeek, -⟩ := h.dirtied page (List.mem_append_left _ hmem)
  refine ⟨frame, hpeek, ?_, ?_⟩
  · rw [h.copied.stored_eq, h.wrote.stored_of_mem page hmem frame hpeek]
  · rw [h.copied.peek_of_not_mem page (h.nodup.2.2 page hmem)]
    exact h.wrote.peek_of_mem page hmem frame hpeek

theorem stored_eq (h : Walked capacity txn written restored e e₁ e₂) (hnot : page ∉ written) :
    e₂.stored? page = e.stored? page := by
  rw [h.copied.stored_eq, h.wrote.stored_of_not_mem page hnot]

theorem of_restored (h : Walked capacity txn written restored e e₁ e₂)
    (hmem : page ∈ restored) :
    ∃ stored copy, stored.dirtier = none ∧ e.stored? page = some stored ∧
      e₂.stored? page = some stored ∧ e₂.pool.cache.peek page = some ⟨stored, copy⟩ := by
  have hnot : page ∉ written := fun hmem' => h.nodup.2.2 page hmem' hmem
  obtain ⟨frame, hpeek, -⟩ := h.dirtied page (List.mem_append_right _ hmem)
  have hheld : e.stored? page = some frame.page.beforePage :=
    (h.coherent.mirrors page frame hpeek).stored
  have hstill : e₁.stored? page = some frame.page.beforePage := by
    rw [h.wrote.stored_of_not_mem page hnot, hheld]
  obtain ⟨copy, hcopy⟩ := h.copied.peek_of_mem page hmem _ hstill
  exact ⟨_, copy, rfl, hheld, by rw [h.copied.stored_eq, hstill], hcopy⟩

theorem peek_eq (h : Walked capacity txn written restored e e₁ e₂) (hnot : page ∉ written)
    (hnot' : page ∉ restored) : e₂.pool.cache.peek page = e.pool.cache.peek page := by
  rw [h.copied.peek_of_not_mem page hnot', h.wrote.peek_of_not_mem page hnot]

theorem keys_eq (h : Walked capacity txn written restored e e₁ e₂) :
    e₂.pool.cache.keys = e.pool.cache.keys.filter (· ∉ restored) ++ restored := by
  obtain ⟨log, hwalk⟩ := h.restores
  rw [hwalk.keys_restores h.nodup.2.1]
  exact congrArg (fun keys => keys.filter (· ∉ restored) ++ restored) h.writes.keys_writesBack

theorem mem_keys (h : Walked capacity txn written restored e e₁ e₂) :
    page ∈ e₂.pool.cache.keys ↔ page ∈ e.pool.cache.keys := by
  rw [h.keys_eq]
  refine mem_moved_last fun p hmem => ?_
  obtain ⟨frame, hpeek, -⟩ := h.dirtied p (List.mem_append_right _ hmem)
  exact Recency.mem_keys_of_peek hpeek

/-- Every page that was changed is clean now, written or restored. -/
theorem rid (h : Walked capacity txn written restored e e₁ e₂) : e₂.Rid txn := by
  intro page frame hpeek hdirty
  by_cases hmem : page ∈ written
  · obtain ⟨_, -, -, hpeek'⟩ := h.of_written hmem
    rw [hpeek'] at hpeek
    cases hpeek
    cases hdirty
  by_cases hmem' : page ∈ restored
  · obtain ⟨stored, copy, hclean, -, -, hpeek'⟩ := h.of_restored hmem'
    rw [hpeek'] at hpeek
    cases hpeek
    rw [hclean] at hdirty
    cases hdirty
  rw [h.peek_eq hmem hmem'] at hpeek
  have hchanged := mem_dirtiedBy.2 ⟨frame, hpeek, hdirty⟩
  rw [h.pages] at hchanged
  rcases List.mem_append.1 hchanged with hin | hin
  · exact hmem hin
  · exact hmem' hin

theorem locks_eq (h : Walked capacity txn written restored e e₁ e₂) :
    e₂.pool.locks = e.pool.locks := by
  obtain ⟨log, hwalk⟩ := h.restores
  exact hwalk.locks_restores.trans h.writes.locks_writesBack

/-- When the locks are given back as well, the transaction is settled. -/
theorem settles (h : Walked capacity txn written restored e e₁ e₂) :
    Settles txn written restored e (e₂.letGo txn) := by
  rw [h.rid.letGo_eq]
  refine ⟨h.catalog_eq, fun _ => h.of_written, fun _ => h.of_restored, fun _ => h.stored_eq,
    fun _ => h.content_eq, fun _ => h.peek_eq, h.keys_eq, fun _ => h.mem_keys, h.rid, ?_⟩
  intro other page
  rw [← h.locks_eq]
  exact LockTable.mode?_releaseAll _ _ _ _

end Walked

/-! ## Commits -/

/-- In every state that a run from an empty pool leads to, in which tables may have
gone and come back, a commit has one of two outcomes when all tables with resident
pages are registered.

- It succeeds: the log took a record of each changed page, in the order of use,
  and was forced after each; the pages are written.
- The log refused the record of one of them, or the force after it, and its
  error is the answer: the pages in front of that one were logged and written
  like that, it and those behind it are restored. A log in memory holds the
  record of that page if and only if its write was accepted.

The rest is as `Settles` says. -/
theorem commit_effect {home : TableId → HeapFile} {start : Engine} (hhomes : Homes home)
    (hstart : start.pool = .empty capacity) (hdraws : start.catalog.DrawsOn home)
    (hrun : Relation.ReflTransGen (Turn home) start e)
    (hfew : ∀ table, (home table).wholePages e.disk < UInt32.size)
    (hknown : ∀ page ∈ e.pool.cache.keys, e.catalog.Knows page.table) (txn : TxnId) :
    (∃ e' records,
      Engine.commit txn e = .ok () e' ∧
      (e.pool.dirtiedBy txn).map (e.image? txn) = records.map some ∧
      e.log.acceptAll? records = some e'.log ∧
      (∀ memory, e.log = .memory memory → e'.log = .memory (memory.extend records)) ∧
      Settles txn (e.pool.dirtiedBy txn) [] e e') ∨
    (∃ e' cause written page rest records record log,
      Engine.commit txn e = .error (.error cause) e' ∧
      e.pool.dirtiedBy txn = written ++ page :: rest ∧
      written.map (e.image? txn) = records.map some ∧ e.image? txn page = some record ∧
      e.log.acceptAll? records = some log ∧ LogSink.Refuses record cause log e'.log ∧
      (∀ memory, e.log = .memory memory → ∃ memory', e'.log = .memory memory' ∧
        memory'.forces = memory.forces + records.length ∧
        memory'.records = memory.records ++ records ++
          if memory.refusals.writes (memory.writeCalls + records.length + 1) then []
          else [record]) ∧
      Settles txn written (page :: rest) e e') := by
  obtain ⟨h, hreg⟩ := coherent_of_turns hhomes hstart hdraws hrun hfew hknown
  cases hcommit : Engine.commit txn e with
  | ok answer e' =>
      obtain ⟨e₁, ⟨written, hpages, hwritten⟩, rfl⟩ := (h.commit_ends hreg txn).of_ok hcommit
      rw [List.append_nil] at hpages
      subst hpages
      obtain ⟨records, himages, haccepted⟩ := hwritten.images hreg h (nodup_dirtiedBy _ _)
        (dirtied_dirtiedBy e txn)
      refine .inl ⟨_, records, rfl, himages, haccepted, fun memory hlog => ?_, ?_⟩
      · rw [hlog] at haccepted
        exact LogSink.acceptAll?_memory haccepted
      · exact Walked.settles ⟨hreg, h, (List.append_nil _).symm, hwritten, _, .nil⟩
  | error failure e' =>
      obtain ⟨cause, page, rest, e₁, e₂, e₃, rfl, ⟨written, hpages, hwritten⟩, hrefuses,
        ⟨restored, hrestored, hwalk⟩, rfl⟩ := (h.commit_ends hreg txn).of_error hcommit
      obtain ⟨hnodup, hnot, hdirtied, frame, hpeek, hdirty⟩ := dirtiedBy_split hpages
      obtain ⟨h₁, hwrote⟩ := hwritten.wrote hreg h hnodup hdirtied
      obtain ⟨records, himages, haccepted⟩ := hwritten.images hreg h hnodup hdirtied
      have hpeek₁ : e₁.pool.cache.peek page = some frame := by
        rw [hwrote.peek_of_not_mem page hnot, hpeek]
      obtain ⟨log, rfl, hrefused⟩ := hrefuses.log_refuses hpeek₁ hdirty
      have hleft : e₁.pool.dirtiedBy txn = page :: rest :=
        hwrote.dirtiedBy_eq hwritten.keys_writesBack hpages
      obtain rfl : page :: rest = restored := by
        rw [← hleft, ← List.append_nil restored]
        exact hrestored
      have hlog : (e₃.letGo txn).log = log := hwalk.log_restores
      refine .inr ⟨_, cause, written, page, rest, records, _, e₁.log, rfl, hpages, himages,
        h.image?_eq hpeek, haccepted, hlog ▸ hrefused, fun memory hmemory => ?_,
        Walked.settles ⟨hreg, h, hpages, hwritten, log, hwalk⟩⟩
      rw [hmemory] at haccepted
      rw [LogSink.acceptAll?_memory haccepted] at hrefused
      rw [hlog]
      exact hrefused.memory

/-- Two tables have pages with changes when the first one takes the name of the
second, which is gone then. The log will refuse to be forced a second time. -/
def Engine.rowsGone : Engine :=
  { twoRows with catalog := (twoRows.catalog.register (.pairs 0 "a") "b" "").2 }

theorem few_ownHomes (table : TableId) :
    (ownHomes table).wholePages rowsGone.reopened.disk < UInt32.size := by
  have hkeys : rowsGone.reopened.disk.files.keys = ["a", "b"] := by decide +kernel
  have hcontent : ∀ name, (rowsGone.reopened.disk.content name).length ≤ 9 := by
    intro name
    by_cases hmem : name ∈ rowsGone.reopened.disk.files
    · rw [← Std.ExtTreeMap.mem_keys, hkeys] at hmem
      simp only [List.mem_cons, List.not_mem_nil, or_false] at hmem
      rcases hmem with rfl | rfl <;> decide +kernel
    · rw [Disk.content, Disk.sparse, Std.ExtTreeMap.getElem?_eq_none hmem]
      exact Nat.zero_le _
  exact Nat.lt_of_le_of_lt (Nat.div_le_self _ _) (Nat.lt_of_le_of_lt (hcontent _) (by decide))

/-- The second table is back when the transaction commits. Its page is logged, but the
log cannot be forced then. -/
theorem commit_effect_rowsReopened :
    ¬Engine.rowsGone.catalog.Knows ⟨1⟩ ∧
      ∃ cause e', Engine.commit ⟨1⟩ rowsGone.reopened = .error (.error cause) e' ∧ e'.Rid ⟨1⟩ ∧
        (∀ page, e'.pool.locks.mode? ⟨1⟩ page = none) ∧
        ∀ page, page ∈ e'.pool.cache.keys ↔ page ∈ rowsGone.reopened.pool.cache.keys := by
  have hgone : rowsGone.catalog.file ⟨1⟩ = .error (.tableNotFound ⟨1⟩) := by decide +kernel
  have hstart : (twoTables 4 ⟨fun _ => false, fun call => call = 2⟩).catalog.DrawsOn ownHomes :=
    drawsOn_twoTables rfl rfl _ _
  have hrows : twoRows.catalog.DrawsOn ownHomes :=
    (show Grows _ twoRows from Call.grows_all _ _).catalog ▸ hstart
  have hdraws : rowsGone.catalog.DrawsOn ownHomes := hrows.register ⟨rfl, rfl, rfl, rfl⟩
  have hleaves : Turn ownHomes twoRows rowsGone :=
    .surroundings hdraws (fun _ => Nat.le_refl _) fun _ _ => rfl
  have hreturns : Turn ownHomes rowsGone rowsGone.reopened :=
    .surroundings (hdraws.register ⟨rfl, rfl, rfl, rfl⟩) (fun _ => Nat.le_refl _) fun _ _ => rfl
  have hrun := ((turns_afterAll ownHomes _ _).tail hleaves).tail hreturns
  have hkeys : rowsGone.reopened.pool.cache.keys = [⟨⟨0⟩, 0⟩, ⟨⟨1⟩, 0⟩] := by decide +kernel
  have hknown : ∀ page ∈ rowsGone.reopened.pool.cache.keys,
      rowsGone.reopened.catalog.Knows page.table := by
    rw [hkeys]
    simp only [List.forall_mem_cons]
    exact ⟨⟨.pairs 0 "a", by decide +kernel⟩,
      ⟨{ HeapFile.pairs 1 "b" with handle := ⟨2, "b", "b", 9⟩ }, by decide +kernel⟩, nofun⟩
  have hfails : (match Engine.commit ⟨1⟩ rowsGone.reopened with
      | .ok _ _ => false
      | .error _ _ => true) = true := by decide +kernel
  refine ⟨fun ⟨file, hfile⟩ => ?_, ?_⟩
  · rw [hgone] at hfile
    cases hfile
  rcases commit_effect homes_ownHomes rfl hstart hrun few_ownHomes hknown ⟨1⟩ with
    ⟨e', records, hcommit, -⟩ |
    ⟨e', cause, written, page, rest, records, record, log, hcommit, -, -, -, -, -, -, hsettles⟩
  · rw [hcommit] at hfails
    cases hfails
  · refine ⟨cause, e', hcommit, hsettles.rid, fun page => ?_, hsettles.mem_keys⟩
    rw [hsettles.locks, if_pos rfl]

/-- A table is created again with larger pages while a transaction has changed a page of
it. All tables are registered, and the log refuses nothing, but the commit neither
succeeds nor fails: it ends over the size of the page. -/
theorem commit_may_end_over_size :
    let table := HeapFile.idOfPath "/a"
    let db := Event.runAll
      [.create "a" "a" (.unnamed [.int]), .call 0 (.insert ⟨1⟩ table (.single 7)),
        .setPageSize 18, .create "a" "a" (.unnamed [.int])]
      (.make ⟨9, 2, 0⟩ "" (.memory (.empty .none)))
    let e := db.engineOf db.pool
    (∀ page ∈ e.pool.cache.keys, e.catalog.Knows page.table) ∧
      e.pool.dirtiedBy ⟨1⟩ = [⟨table, 0⟩] ∧
      (∀ e', Engine.commit ⟨1⟩ e ≠ .ok () e') ∧
      ∀ cause e', Engine.commit ⟨1⟩ e ≠ .error (.error cause) e' := by
  intro table db e
  have hkeys : e.pool.cache.keys = [⟨table, 0⟩] := by decide +kernel
  have hfile : (e.catalog.file table).isOk = true := by decide +kernel
  have hfailure : (match Engine.commit ⟨1⟩ e with
      | .error failure _ => some failure
      | .ok _ _ => none) = some (.violation (.bufferSize 18 9)) := by decide +kernel
  refine ⟨fun page hpage => ?_, by decide +kernel, fun e' hcommit => ?_, fun cause e' hcommit => ?_⟩
  · rw [hkeys, List.mem_singleton] at hpage
    subst hpage
    cases hfound : e.catalog.file table with
    | ok file => exact ⟨file, hfound⟩
    | error cause =>
        rw [hfound] at hfile
        cases hfile
  · rw [hcommit] at hfailure
    cases hfailure
  · rw [hcommit] at hfailure
    cases hfailure

end HeapStore
