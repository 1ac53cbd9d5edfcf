import HeapStore.Proofs.Endings
import HeapStore.Proofs.Simulation

/-!
# Write-ahead logging

The journal of a run lists the records that the log has taken, each with the
engine just before it was written and with the answer to the force that
followed. It is told by what the run does (`Call.journal`), and it is all that
happens to the log (`LogSink.Took`).

Each entry tells the truth about its moment: the page was changed by the
transaction on record, and its file held the bytes before. A page is written
only after a record of its own was made durable, so at any time its file holds
what the latest such record says (`Journal.latest`). With a log that never
refuses, the records of a page form a chain (`Chained`).

Headline: `write_ahead`.
-/

namespace HeapStore

open HeapStore.Action Engine

/-! ## Journals -/

/-- A record that the log took, whether it was forced then, and the engine
just before. -/
structure JournalEntry where
  record : LogRecord
  forced : Bool
  moment : Engine

abbrev Journal := List JournalEntry

/-- The log goes from one state to another by taking the records of a journal,
each followed by a force. Records that it refuses leave no entry. -/
inductive LogSink.Took : LogSink → Journal → LogSink → Prop where
  | nil {log : LogSink} : Took log [] log
  | refused {log log' last : LogSink} {record : LogRecord} {cause : Error} {journal : Journal}
      (hwrite : log.write record = (.error cause, log')) (hrest : Took log' journal last) :
      Took log journal last
  | taken {log log' last : LogSink} {record : LogRecord} {moment : Engine} {journal : Journal}
      (hwrite : log.write record = (.ok (), log')) (hrest : Took log'.force.2 journal last) :
      Took log (⟨record, log'.force.1.isOk, moment⟩ :: journal) last

/-- The page on record is changed by the transaction on record, and holds the
bytes after; its file holds the bytes before. -/
def JournalEntry.Truthful (entry : JournalEntry) : Prop :=
  (∃ frame, entry.moment.pool.cache.peek entry.record.page = some frame ∧
    frame.page.dirtier = some entry.record.txn ∧ frame.page.data = entry.record.after) ∧
  ∃ stored, entry.moment.stored? entry.record.page = some stored ∧
    stored.data = entry.record.before

namespace Journal

/-- The bytes after the latest durable record of a page. -/
def latest (journal : Journal) (page : PageId) (original : Bytes) : Bytes :=
  (journal.filter fun entry => entry.forced ∧ entry.record.page = page).getLast?.elim original
    fun entry => entry.record.after

def recordsOf (journal : Journal) (page : PageId) : List LogRecord :=
  (journal.map JournalEntry.record).filter fun record => record.page = page

end Journal

/-- Each record starts from the bytes with which the one before it ends. -/
def Chained : Bytes → List LogRecord → Bytes → Prop
  | first, [], last => first = last
  | first, record :: records, last => record.before = first ∧ Chained record.after records last

namespace Engine

/-- The entry that is made when a page is written back. -/
def logged? (engine : Engine) (page : PageId) : Option JournalEntry :=
  match engine.pool.cache.peek page with
  | none => none
  | some frame =>
    match frame.page.dirtier with
    | none => none
    | some txn =>
      match engine.log.write (recordOf txn frame.page) with
      | (.ok (), log) => some ⟨recordOf txn frame.page, log.force.1.isOk, engine⟩
      | (.error _, _) => none

/-- The entries of a walk that writes pages back and ends at the first that
cannot be written. -/
def journalOf : List PageId → Engine → Journal
  | [], _ => []
  | page :: pages, engine =>
    (engine.logged? page).toList ++
      match writeBack page engine with
      | .ok () engine => journalOf pages engine
      | .error _ _ => []

/-- The bytes that a page has in its file, or has at first if it is appended
later on. -/
def bytesOf (engine : Engine) (page : PageId) : Bytes :=
  match engine.stored? page with
  | some stored => stored.data
  | none =>
    match engine.catalog.file page.table with
    | .ok file => Bytes.zeros file.pageSize
    | .error _ => []

end Engine

namespace Call

def journal (call : Call) (engine : Engine) : Journal :=
  match call with
  | .commit txn | .flushPages txn => engine.journalOf (engine.pool.dirtiedBy txn)
  | .flushPage page => (engine.logged? page).toList
  | .flushAll => engine.journalOf engine.pool.cache.keys
  | _ => []

def journalAll : List Call → Engine → Journal
  | [], _ => []
  | call :: calls, engine => call.journal engine ++ journalAll calls (call.after engine)

end Call

/-! ## Journals one after the other -/

theorem LogSink.Took.append {log log' last : LogSink} {journal more : Journal}
    (h : log.Took journal log') (hmore : log'.Took more last) :
    log.Took (journal ++ more) last := by
  induction h with
  | nil => exact hmore
  | refused hwrite _ ih => exact .refused hwrite (ih hmore)
  | taken hwrite _ ih => exact .taken hwrite (ih hmore)

theorem Journal.latest_append (journal more : Journal) (page : PageId) (original : Bytes) :
    Journal.latest (journal ++ more) page original
      = more.latest page (journal.latest page original) := by
  simp only [latest, List.filter_append, List.getLast?_append]
  cases (more.filter fun entry => entry.forced ∧ entry.record.page = page).getLast? <;> rfl

theorem Journal.latest_singleton (entry : JournalEntry) (page : PageId) (original : Bytes) :
    Journal.latest [entry] page original
      = if entry.forced ∧ entry.record.page = page then entry.record.after else original := by
  rw [latest, List.filter_singleton]
  by_cases h : entry.forced ∧ entry.record.page = page
  · rw [if_pos h, decide_eq_true h]
    rfl
  · rw [if_neg h, decide_eq_false h]
    rfl

theorem Journal.recordsOf_singleton (entry : JournalEntry) (page : PageId) :
    Journal.recordsOf [entry] page
      = if entry.record.page = page then [entry.record] else [] := by
  rw [recordsOf, List.map_singleton, List.filter_singleton]
  by_cases h : entry.record.page = page
  · rw [if_pos h, decide_eq_true h]
    rfl
  · rw [if_neg h, decide_eq_false h]
    rfl

theorem Chained.append {first middle last : Bytes} {records more : List LogRecord}
    (h : Chained first records middle) (hmore : Chained middle more last) :
    Chained first (records ++ more) last := by
  induction records generalizing first with
  | nil =>
      obtain rfl : first = middle := h
      exact hmore
  | cons record records ih => exact ⟨h.1, ih h.2⟩

/-- What a journal says about the engines before and after. -/
structure Journaled (e : Engine) (journal : Journal) (e' : Engine) : Prop where
  took : e.log.Took journal e'.log
  truthful : ∀ entry ∈ journal, entry.Truthful
  latest : ∀ page, e'.bytesOf page = journal.latest page (e.bytesOf page)
  chained : (∀ entry ∈ journal, entry.forced = true) →
    ∀ page, Chained (e.bytesOf page) (journal.recordsOf page) (e'.bytesOf page)

namespace Journaled

variable {capacity : Nat} {txn : TxnId} {page : PageId} {e e₁ e' : Engine} {journal more : Journal}

theorem append (h : Journaled e journal e₁) (hmore : Journaled e₁ more e') :
    Journaled e (journal ++ more) e' := by
  refine ⟨h.took.append hmore.took, ?_, ?_, ?_⟩
  · intro entry hentry
    rcases List.mem_append.1 hentry with hold | hnew
    · exact h.truthful entry hold
    · exact hmore.truthful entry hnew
  · intro page
    rw [Journal.latest_append, ← h.latest, hmore.latest]
  · intro hforced page
    have hfirst := h.chained
      (fun entry hentry => hforced entry (List.mem_append_left _ hentry)) page
    have hthen := hmore.chained
      (fun entry hentry => hforced entry (List.mem_append_right _ hentry)) page
    rw [Journal.recordsOf, List.map_append, List.filter_append]
    exact hfirst.append hthen

/-- Nothing is logged, and no page in a file changes. -/
theorem silent (hlog : e'.log = e.log) (hbytes : ∀ page, e'.bytesOf page = e.bytesOf page) :
    Journaled e [] e' := by
  refine ⟨?_, nofun, hbytes, fun _ page => (hbytes page).symm⟩
  rw [hlog]
  exact .nil

end Journaled

/-! ## The entry of a page -/

section

variable {capacity : Nat} {txn : TxnId} {page : PageId} {frame : Frame} {cause : Error}
  {e e₁ e' : Engine}

theorem LogSink.accept?_eq_some {log log' : LogSink} {record : LogRecord}
    (h : log.accept? record = some log') :
    ∃ log₁, log.write record = (.ok (), log₁) ∧ log₁.force = (.ok (), log') := by
  unfold accept? at h
  split at h
  · rename_i log₁ hwrite
    split at h
    · rename_i log₂ hforce
      cases h
      exact ⟨log₁, hwrite, hforce⟩
    · cases h
  · cases h

theorem Engine.logged?_eq_none (h : ∀ frame, e.pool.cache.peek page = some frame →
    frame.page.dirtier = none) : e.logged? page = none := by
  unfold logged?
  split
  · rfl
  · rename_i frame hpeek
    rw [h frame hpeek]

theorem Engine.logged?_of_dirty (hpeek : e.pool.cache.peek page = some frame)
    (hdirty : frame.page.dirtier = some txn) :
    e.logged? page = match e.log.write (recordOf txn frame.page) with
      | (.ok (), log) => some ⟨recordOf txn frame.page, log.force.1.isOk, e⟩
      | (.error _, _) => none := by
  simp only [logged?, hpeek, hdirty]

theorem Engine.bytesOf_congr (hcatalog : e'.catalog = e.catalog)
    (hstored : e'.stored? page = e.stored? page) : e'.bytesOf page = e.bytesOf page := by
  rw [bytesOf, hstored, hcatalog, bytesOf]

theorem Engine.bytesOf_of_stored {x : Page} (h : e.stored? page = some x) :
    e.bytesOf page = x.data := by
  rw [bytesOf, h]

/-- An appended page holds what it was said to hold at first. -/
theorem Engine.bytesOf_of_blank {disk : Disk} {schema : Schema} {size : Nat}
    (hnone : e.stored? page = none)
    (hblank : Engine.stored? { e with disk } page
      = some (.ofBytes page schema (Bytes.zeros size))) :
    Engine.bytesOf { e with disk } page = e.bytesOf page := by
  obtain ⟨file, hfile, hhas, hpage⟩ := stored?_eq_some_iff.1 hblank
  have hsize : size = file.pageSize := by
    have hlength := congrArg (fun x => x.data.length) hpage
    simp only [Page.ofBytes, Bytes.length_zeros, hhas.length_pageBytes] at hlength
    exact hlength
  have hfile' : e.catalog.file page.table = .ok file := hfile
  rw [bytesOf_of_stored hblank, bytesOf, hnone, hsize]
  simp only [hfile']
  rfl

theorem Coherent.truthful (h : Coherent capacity e) (hpeek : e.pool.cache.peek page = some frame)
    (hdirty : frame.page.dirtier = some txn) (forced : Bool) :
    JournalEntry.Truthful ⟨recordOf txn frame.page, forced, e⟩ := by
  have hid : (recordOf txn frame.page).page = page := h.id_eq hpeek
  rw [JournalEntry.Truthful, hid]
  exact ⟨⟨frame, hpeek, hdirty, rfl⟩, _, (h.mirrors page frame hpeek).stored, rfl⟩

theorem WritesBack.journaled (hreg : e.catalog.Registered) (h : Coherent capacity e)
    (hwrites : WritesBack page e e') : Journaled e (e.logged? page).toList e' := by
  have hwrites' := hwrites
  cases hwrites with
  | clean hclean =>
      rw [logged?_eq_none hclean]
      exact .silent rfl fun _ => rfl
  | dirty hpeek hdirty hfile hlog hwrite =>
      rename_i frame txn file log disk
      obtain ⟨-, hstored⟩ := h.writesBack_eq hreg hpeek hdirty hwrites'
      obtain ⟨log₁, hwritten, hforced⟩ := LogSink.accept?_eq_some hlog
      have hid : (recordOf txn frame.page).page = page := h.id_eq hpeek
      have hbefore : e.bytesOf page = frame.page.beforeData :=
        bytesOf_of_stored (h.mirrors page frame hpeek).stored
      have hself :
          Engine.bytesOf { e with disk, log, pool := e.pool.store frame.page.markClean } page
            = frame.page.data :=
        bytesOf_of_stored (x := frame.page.markClean) ((hstored page).trans (if_pos rfl))
      have hothers : ∀ p, page ≠ p →
          Engine.bytesOf { e with disk, log, pool := e.pool.store frame.page.markClean } p
            = e.bytesOf p := fun p hp => by
        refine bytesOf_congr rfl ?_
        rw [hstored, if_neg hp.symm]
      have hsome : e.logged? page = some ⟨recordOf txn frame.page, log₁.force.1.isOk, e⟩ := by
        rw [logged?_of_dirty hpeek hdirty, hwritten]
      have hok : log₁.force.1.isOk = true := by rw [hforced]; rfl
      rw [hsome, Option.toList_some]
      refine ⟨.taken hwritten ?_, ?_, fun p => ?_, fun _ p => ?_⟩
      · rw [hforced]
        exact .nil
      · intro entry hentry
        rw [List.mem_singleton.1 hentry]
        exact h.truthful hpeek hdirty _
      · rw [Journal.latest_singleton, hid]
        by_cases hp : page = p
        · subst hp
          rw [hself, if_pos ⟨hok, rfl⟩]
          rfl
        · rw [hothers p hp, if_neg fun hboth => hp hboth.2]
      · rw [Journal.recordsOf_singleton, hid]
        by_cases hp : page = p
        · subst hp
          rw [hself, hbefore, if_pos rfl]
          exact ⟨rfl, rfl⟩
        · rw [hothers p hp, if_neg hp]
          exact rfl

theorem Refuses.journaled (h : Coherent capacity e) (hrefuses : Refuses page cause e e') :
    Journaled e (e.logged? page).toList e' := by
  cases hrefuses with
  | write hpeek hdirty hwrite =>
      have hnone : e.logged? page = none := by
        rw [logged?_of_dirty hpeek hdirty, hwrite]
      rw [hnone]
      exact ⟨.refused hwrite .nil, nofun, fun _ => rfl, fun _ _ => rfl⟩
  | force hpeek hdirty hwrite hforce =>
      rename_i frame txn log log'
      have hsome : e.logged? page = some ⟨recordOf txn frame.page, log.force.1.isOk, e⟩ := by
        rw [logged?_of_dirty hpeek hdirty, hwrite]
      have hnot : log.force.1.isOk = false := by rw [hforce]; rfl
      rw [hsome, Option.toList_some]
      refine ⟨.taken hwrite ?_, ?_, ?_, ?_⟩
      · rw [hforce]
        exact .nil
      · intro entry hentry
        rw [List.mem_singleton.1 hentry]
        exact h.truthful hpeek hdirty _
      · intro p
        rw [Journal.latest_singleton, hnot, if_neg fun hboth => Bool.false_ne_true hboth.1]
        rfl
      · intro hforced
        have htrue := hforced _ List.mem_cons_self
        rw [hnot] at htrue
        cases htrue

/-! ## The journal of a call -/

theorem Engine.journalOf_ends (hreg : e.catalog.Registered) (h : Coherent capacity e)
    (pages : List PageId) :
    (pages.forM writeBack).Ends e (fun _ => Journaled e (e.journalOf pages))
      (fun _ => Journaled e (e.journalOf pages)) := by
  induction pages generalizing e with
  | nil => exact .silent rfl fun _ => rfl
  | cons page pages ih =>
      rw [show (page :: pages).forM writeBack = (writeBack page >>= fun _ => pages.forM writeBack)
        from rfl, ends_bind]
      have hends := h.writeBack_ends page
      unfold Ends at hends ⊢
      rw [journalOf]
      cases hrun : writeBack page e with
      | ok answer e₁ =>
          rw [hrun] at hends
          have hfirst := hends.journaled hreg h
          have hreg₁ : e₁.catalog.Registered := by
            rw [hends.grows.catalog]
            exact hreg
          refine (ih hreg₁ (h.writesBack hreg hends)).mono ?_ ?_
          · exact fun _ _ hrest => hfirst.append hrest
          · exact fun _ _ hrest => hfirst.append hrest
      | error failure e₁ =>
          rw [hrun] at hends
          obtain ⟨cause, -, hrefuses⟩ := hends
          rw [List.append_nil]
          exact hrefuses.journaled h

/-- Access to pages logs nothing, and an appended page is of zeroes. -/
theorem QuietPath.journaled (hreg : e.catalog.Registered) (hwithin : Within e e')
    (hpath : QuietPath txn e e') : Journaled e [] e' := by
  refine .silent hpath.log_eq fun page => ?_
  induction hpath with
  | refl => rfl
  | tail hpath hmove ih =>
      rename_i e₁ e₂
      have hgrows := MovePath.grows (QuietPath.movePath hpath)
      rw [← ih (hmove.grows.within_left hwithin)]
      cases hmove with
      | lock _ | use _ _ | drop _ _ => rfl
      | load _ _ hroom hread =>
          refine bytesOf_congr hroom.catalog_eq (stored?_congr hroom.catalog_eq fun name => ?_)
          rw [HeapFile.content_readPage hread, hroom.disk_eq]
      | append hfile happend =>
          have hreg₁ : e₁.catalog.Registered := by
            rw [hgrows.catalog]
            exact hreg
          have hwithin₁ := hgrows.within_right hwithin
          rcases stored?_append hreg₁ hfile happend (hwithin₁ _ _ hfile) page with
            hsame | ⟨hnone, hblank⟩
          · exact bytesOf_congr rfl hsame
          · exact bytesOf_of_blank hnone hblank
      | giveBack _ hfetch =>
          exact bytesOf_congr hfetch.catalog_eq (stored?_congr hfetch.catalog_eq hfetch.content_eq)

theorem RestoresUpTo.journaled {rest : List PageId} (h : RestoresUpTo txn rest e e') :
    Journaled e [] e' := by
  obtain ⟨restored, -, hrestored⟩ := h
  have hback := hrestored.restored
  exact .silent hrestored.log_restores fun page =>
    bytesOf_congr hback.catalog (hback.stored_eq page)

theorem Journaled.of_pool {journal : Journal} (h : Journaled e journal e₁) (pool : Pool) :
    Journaled e journal { e₁ with pool } :=
  ⟨h.took, h.truthful, h.latest, h.chained⟩

theorem commit_journaled (hreg : e.catalog.Registered) (h : Coherent capacity e) (txn : TxnId) :
    Journaled e (e.journalOf (e.pool.dirtiedBy txn)) ((Engine.commit txn).after e) := by
  have hflush := journalOf_ends hreg h (e.pool.dirtiedBy txn)
  refine ends_after.1 ?_
  simp only [Engine.commit, Engine.flushPages, ends_bind, ends_attempt, ends_get]
  refine hflush.mono ?_ ?_
  · intro _ e₁ hwritten
    exact hwritten.of_pool _
  · rintro (cause | cause) e₁ hwritten
    · simp only [releaseIfClean_ends, ends_ofExcept]
      refine (restorePages_ends txn e₁).mono ?_ ?_
      · intro _ e₂ hrestored
        exact List.append_nil (e.journalOf _) ▸ (hwritten.append hrestored.journaled).of_pool _
      · rintro (cause' | cause') e₂ ⟨page, rest, hrestored, -⟩
        · exact List.append_nil (e.journalOf _) ▸ (hwritten.append hrestored.journaled).of_pool _
        · exact List.append_nil (e.journalOf _) ▸ hwritten.append hrestored.journaled
    · exact hwritten

theorem abort_journaled (txn : TxnId) (e : Engine) :
    Journaled e [] ((Engine.abort txn).after e) := by
  refine ends_after.1 ((abort_ends txn e).mono ?_ ?_)
  · rintro _ _ ⟨e₁, hrestored, rfl⟩
    exact hrestored.journaled.of_pool _
  · rintro _ _ ⟨page, rest, e₁, hrestored, -, rfl | rfl⟩
    · exact hrestored.journaled
    · exact hrestored.journaled.of_pool _

theorem Call.journaled (hreg : e.catalog.Registered) (h : Coherent capacity e) (call : Call)
    (hwithin : Within e (call.after e)) : Journaled e (call.journal e) (call.after e) := by
  suffices hends : call.run.Ends e (fun _ e' => Within e e' → Journaled e (call.journal e) e')
      (fun _ e' => Within e e' → Journaled e (call.journal e) e') from
    ends_after.1 hends hwithin
  have hquiet : ∀ txn e', QuietPath txn e e' → Within e e' → Journaled e [] e' :=
    fun txn e' hpath hwithin => hpath.journaled hreg hwithin
  have hflush : ∀ pages : List PageId, (pages.forM writeBack).Ends e
      (fun _ e' => Within e e' → Journaled e (e.journalOf pages) e')
      (fun _ e' => Within e e' → Journaled e (e.journalOf pages) e') := fun pages =>
    (journalOf_ends hreg h pages).mono (fun _ _ hj _ => hj) (fun _ _ hj _ => hj)
  cases call with
  | getPage txn page access =>
      exact ends_map.2 ((getPage_moves txn page access e).mono (fun _ => hquiet txn)
        (fun _ => hquiet txn))
  | evict latched =>
      exact ends_map.2 ((evict_moves ⟨0⟩ latched e).mono (fun _ => hquiet ⟨0⟩)
        (fun _ => hquiet ⟨0⟩))
  | scan stop source =>
      exact ends_map.2 ((scan_moves stop source e).mono (fun _ => hquiet source.txn)
        (fun _ => hquiet source.txn))
  | insert txn table tuple =>
      refine ends_map.2 ((insert_ends txn table tuple e).mono ?_ (fun _ => hquiet txn))
      rintro _ _ ⟨hpath, -, -, -⟩ hwithin
      exact Journaled.of_pool (hquiet txn _ hpath hwithin) _
  | delete txn record =>
      refine ends_map.2 ((delete_ends txn record e).mono ?_ (fun _ => hquiet txn))
      rintro _ _ ⟨address, rfl, hpath, -, -, -⟩ hwithin
      exact Journaled.of_pool (hquiet txn _ hpath hwithin) _
  | commit txn =>
      exact ends_map.2 ((ends_after.2 (commit_journaled hreg h txn)).mono (fun _ _ hj _ => hj)
        (fun _ _ hj _ => hj))
  | abort txn =>
      exact ends_map.2 ((ends_after.2 (abort_journaled txn e)).mono (fun _ _ hj _ => hj)
        (fun _ _ hj _ => hj))
  | flushPage page =>
      refine ends_map.2 ((h.writeBack_ends page).mono ?_ ?_)
      · exact fun _ _ hwrites _ => hwrites.journaled hreg h
      · rintro _ _ ⟨cause, -, hrefuses⟩ _
        exact hrefuses.journaled h
  | flushPages txn =>
      refine ends_map.2 ?_
      simp only [Engine.flushPages, ends_bind, ends_get]
      exact hflush _
  | flushAll =>
      refine ends_map.2 ?_
      simp only [Engine.flushAll, ends_bind, ends_get]
      exact hflush _
  | discard page => exact fun _ => .silent rfl fun _ => rfl
  | release txn page => exact fun _ => .silent rfl fun _ => rfl

/-- The journal of a run. -/
theorem Journaled.run (hreg : e.catalog.Registered) (h : Coherent capacity e) (calls : List Call)
    (hwithin : Within e (Call.afterAll calls e)) :
    Journaled e (Call.journalAll calls e) (Call.afterAll calls e) := by
  induction calls generalizing e with
  | nil => exact .silent rfl fun _ => rfl
  | cons call calls ih =>
      have hgrows := call.grows e
      have hwithin₁ : Within e (call.after e) := (Call.grows_all calls _).within_left hwithin
      have hreg₁ : (call.after e).catalog.Registered := by
        rw [hgrows.catalog]
        exact hreg
      exact (call.journaled hreg h hwithin₁).append
        (ih hreg₁ (h.call hreg call hwithin₁) (hgrows.within_right hwithin))

end

/-! ## Logs that are told by their journals -/

theorem LogSink.write_memory (memory : MemoryLog) (record : LogRecord) :
    LogSink.write (.memory memory) record
      = ((memory.write record).1, .memory (memory.write record).2) := rfl

theorem LogSink.force_memory (memory : MemoryLog) :
    LogSink.force (.memory memory) = (memory.force.1, .memory memory.force.2) := rfl

theorem MemoryLog.write_of_error {memory : MemoryLog} {record : LogRecord} {cause : Error}
    (h : (memory.write record).1 = .error cause) :
    (memory.write record).2 = { memory with writeCalls := memory.writeCalls + 1 } := by
  simp only [write] at h ⊢
  split at h
  · rename_i hrefused
    rw [if_pos hrefused]
  · cases h

theorem MemoryLog.write_of_ok {memory : MemoryLog} {record : LogRecord}
    (h : (memory.write record).1 = .ok ()) :
    (memory.write record).2 = { memory with
      writeCalls := memory.writeCalls + 1, records := memory.records ++ [record] } := by
  simp only [write] at h ⊢
  split at h
  · cases h
  · rename_i haccepted
    rw [if_neg haccepted]

theorem MemoryLog.isOk_write (memory : MemoryLog) (record : LogRecord) :
    (memory.write record).1.isOk = !memory.refusals.writes (memory.writeCalls + 1) := by
  simp only [write]
  split
  · rename_i hrefused
    rw [hrefused]
    rfl
  · rename_i haccepted
    rw [eq_false_of_ne_true haccepted]
    rfl

theorem MemoryLog.force_of_error {memory : MemoryLog} {cause : Error}
    (h : memory.force.1 = .error cause) :
    memory.force.2 = { memory with forceCalls := memory.forceCalls + 1 } := by
  simp only [force] at h ⊢
  split at h
  · rename_i hrefused
    rw [if_pos hrefused]
  · cases h

theorem MemoryLog.force_of_ok {memory : MemoryLog} (h : memory.force.1 = .ok ()) :
    memory.force.2 = { memory with
      forceCalls := memory.forceCalls + 1, forces := memory.forces + 1 } := by
  simp only [force] at h ⊢
  split at h
  · cases h
  · rename_i haccepted
    rw [if_neg haccepted]

theorem MemoryLog.isOk_force (memory : MemoryLog) :
    memory.force.1.isOk = !memory.refusals.forces (memory.forceCalls + 1) := by
  simp only [force]
  split
  · rename_i hrefused
    rw [hrefused]
    rfl
  · rename_i haccepted
    rw [eq_false_of_ne_true haccepted]
    rfl

theorem MemoryLog.force_keeps (memory : MemoryLog) :
    memory.force.2.refusals = memory.refusals ∧ memory.force.2.records = memory.records ∧
      memory.force.2.forceCalls = memory.forceCalls + 1 := by
  simp only [force]
  split <;> exact ⟨rfl, rfl, rfl⟩

/-- A log in memory holds the records of the journal, and each of them was
forced by the call of its own number. -/
theorem LogSink.Took.memory {journal : Journal} {memory : MemoryLog} {log last : LogSink}
    (h : log.Took journal last) (hlog : log = .memory memory) :
    ∃ memory', last = .memory memory' ∧
      memory'.records = memory.records ++ journal.map JournalEntry.record ∧
      ∀ i entry, journal[i]? = some entry →
        entry.forced = !memory.refusals.forces (memory.forceCalls + i + 1) := by
  induction h generalizing memory with
  | nil => exact ⟨memory, hlog, by simp, by simp⟩
  | @refused log log' last record cause journal hwrite _ ih =>
      rw [hlog, LogSink.write_memory, Prod.mk.injEq] at hwrite
      obtain ⟨hanswer, rfl⟩ := hwrite
      obtain ⟨memory', hlast, hrecords, hforced⟩ := ih rfl
      rw [MemoryLog.write_of_error hanswer] at hrecords hforced
      exact ⟨memory', hlast, hrecords, hforced⟩
  | @taken log log' last record moment journal hwrite _ ih =>
      rw [hlog, LogSink.write_memory, Prod.mk.injEq] at hwrite
      obtain ⟨hanswer, rfl⟩ := hwrite
      rw [LogSink.force_memory] at ih ⊢
      obtain ⟨hrefusals, hkept, hcalls⟩ := MemoryLog.force_keeps (memory.write record).2
      obtain ⟨memory', hlast, hrecords, hforced⟩ := ih rfl
      rw [hkept, MemoryLog.write_of_ok hanswer] at hrecords
      rw [hrefusals, hcalls, MemoryLog.write_of_ok hanswer] at hforced
      refine ⟨memory', hlast, ?_, ?_⟩
      · rw [hrecords, List.map_cons, List.append_assoc, List.singleton_append]
      · intro i entry hentry
        cases i with
        | zero =>
            obtain rfl := Option.some.inj hentry
            refine (MemoryLog.isOk_force _).trans ?_
            rw [MemoryLog.write_of_ok hanswer]
        | succ i =>
            rw [hforced i entry hentry, show memory.forceCalls + 1 + i + 1
              = memory.forceCalls + (i + 1) + 1 by omega]

theorem LogSink.Took.forced {journal : Journal} {log last : LogSink} (h : log.Took journal last)
    (hlog : log.Reliable) : ∀ entry ∈ journal, entry.forced = true := by
  obtain ⟨works, hworks, hstep⟩ := hlog
  induction h with
  | nil => nofun
  | @refused log log' last record cause journal hwrite _ _ =>
      have hok := ((hstep log hworks).1 record).1
      rw [hwrite] at hok
      cases hok
  | @taken log log' last record moment journal hwrite _ ih =>
      have hworks₁ := ((hstep log hworks).1 record).2
      rw [hwrite] at hworks₁
      obtain ⟨-, hforce, hworks₂⟩ := hstep _ hworks₁
      intro entry hentry
      rcases List.mem_cons.1 hentry with rfl | hentry
      · simp only [hforce]
        rfl
      · exact ih hworks₂ entry hentry

/-! ## The rule -/

/-- A run of any calls on an empty pool over registered files, none of which
outgrows its page numbers:

- the log has taken the records of the journal and forced it after each; a log
  in memory holds just these records, and its answers to the forces are those
  in the journal;
- each record names the transaction that had changed the page, the bytes that
  it put there and the bytes in the file at that time;
- every page in a file holds the bytes after its latest durable record, or what
  it held at first, which is zeroes for a page that was appended;
- with a log that never refuses, the records of a page lead from what it held
  at first to what it holds. -/
theorem write_ahead {capacity : Nat} {start : Engine} (hreg : start.catalog.Registered)
    (hstart : start.pool = .empty capacity) (calls : List Call)
    (hwithin : Within start (Call.afterAll calls start)) :
    start.log.Took (Call.journalAll calls start) (Call.afterAll calls start).log ∧
    (∀ refusals, start.log = .memory (.empty refusals) → ∃ memory,
      (Call.afterAll calls start).log = .memory memory ∧
      memory.records = (Call.journalAll calls start).map JournalEntry.record ∧
      ∀ i entry, (Call.journalAll calls start)[i]? = some entry →
        entry.forced = !refusals.forces (i + 1)) ∧
    (∀ entry ∈ Call.journalAll calls start, entry.Truthful) ∧
    (∀ page x, (Call.afterAll calls start).stored? page = some x →
      x.data = (Call.journalAll calls start).latest page (start.bytesOf page)) ∧
    (start.log.Reliable → ∀ page x, (Call.afterAll calls start).stored? page = some x →
      Chained (start.bytesOf page) ((Call.journalAll calls start).recordsOf page) x.data) := by
  have h := Journaled.run hreg (Coherent.of_empty hstart) calls hwithin
  refine ⟨h.took, fun refusals hlog => ?_, h.truthful, fun page x hx => ?_,
    fun hreliable page x hx => ?_⟩
  · obtain ⟨memory, hlast, hrecords, hforced⟩ := h.took.memory hlog
    refine ⟨memory, hlast, hrecords, fun i entry hentry => ?_⟩
    rw [hforced i entry hentry]
    simp [MemoryLog.empty]
  · rw [← bytesOf_of_stored hx]
    exact h.latest page
  · rw [← bytesOf_of_stored hx]
    exact h.chained (h.took.forced hreliable) page

/-- Two tables get a row each in one transaction, whose commit fails because
the log cannot be forced a second time. -/
def Call.halfForced : List Call :=
  [.insert ⟨1⟩ ⟨0⟩ (.single 7), .insert ⟨1⟩ ⟨1⟩ (.single 8), .commit ⟨1⟩]

theorem write_ahead_halfForced :
    (Call.journalAll Call.halfForced
        (.twoTables 4 ⟨fun _ => false, fun call => call = 2⟩)).map
          (fun entry => (entry.record.page.table.val, entry.forced)) = [(0, true), (1, false)] ∧
    ∀ x, (Call.afterAll Call.halfForced
        (.twoTables 4 ⟨fun _ => false, fun call => call = 2⟩)).stored? ⟨⟨1⟩, 0⟩ = some x →
      x.data = Bytes.zeros 9 := by
  have hwithin : Within (.twoTables 4 ⟨fun _ => false, fun call => call = 2⟩)
      (Call.afterAll Call.halfForced
        (.twoTables 4 ⟨fun _ => false, fun call => call = 2⟩)) := by
    intro id file hfile _
    rcases file_twoTables hfile with ⟨rfl, rfl⟩ | ⟨rfl, rfl⟩ <;> decide +kernel
  refine ⟨by decide +kernel, fun x hx => ?_⟩
  obtain ⟨-, -, -, hlatest, -⟩ := write_ahead (registered_twoTables 4 _) rfl _ hwithin
  rw [hlatest _ x hx]
  decide +kernel

end HeapStore
