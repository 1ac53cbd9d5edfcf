import HeapStore.Database
import HeapStore.Proofs.Residents
import Mathlib.Data.List.Induction

/-!
# Registering a table again

Pages in the pool fit the files that the catalog has for their tables
(`Database.Matched`) as long as nobody registers a file that does not fit them:
a table can be registered again while its pages are in a pool, with another page
size or other types, and the pool is not told (`Event.Fits`). This is the only way
to lose the match (`Event.matched_iff`), and while it lasts no call ends over a page
of the wrong size.
-/

namespace HeapStore

open HeapStore.Action Engine

/-! ## Runs of a database -/

/-- What is done to a database. -/
inductive Event where
  | setPageSize (pageSize : Nat)
  | resetPageSize
  | create (path name : String) (schema : Schema)
  | loadSchema (name : String)
  | clearCatalog
  /-- Somebody else writes a file, a schema text for instance. -/
  | putFile (name : String) (data : Bytes)
  | resetPool (capacity : Nat)
  | reset
  /-- A client calls one of the pools there have been. -/
  | call (pool : Nat) (call : Call)

namespace Event

def run : Event → Database → Database
  | .setPageSize pageSize, db => db.setPageSize pageSize
  | .resetPageSize, db => db.resetPageSize
  | .create path name schema, db => (db.createTable path name schema).2
  | .loadSchema name, db => (db.loadSchema name db.config.pageSize).2
  | .clearCatalog, db => db.clearCatalog
  | .putFile name data, db => { db with disk := db.disk.put name data }
  | .resetPool capacity, db => db.resetPool capacity
  | .reset, db => db.reset
  | .call number request, db =>
    match db.run? number request.run with
    | some (_, db) => db
    | none => db

def runAll (events : List Event) (db : Database) : Database :=
  events.foldl (fun db event => event.run db) db

/-- The current catalog has this file for the table from now on. -/
def Registers (event : Event) (db : Database) (table : TableId) (file : HeapFile) : Prop :=
  (event.run db).catalog.file table = .ok file ∧ db.catalog.file table ≠ .ok file

end Event

namespace Database

/-- All pools there have been, the current one last. -/
def slots (db : Database) : List PoolSlot := db.oldPools ++ [db.pool]

/-- What a call on a pool works on. -/
def engineOf (db : Database) (slot : PoolSlot) : Engine :=
  { disk := db.disk, catalog := db.catalogOf slot, log := db.log, pool := slot.pool }

/-- What ends a call on a pool early. -/
def failure? (db : Database) (number : Nat) (call : Call) : Option Failure :=
  match db.run? number call.run with
  | some (.error failure, _) => some failure
  | _ => none

/-- In all pools, the pages of registered tables fit the files of the catalog. -/
def Matched (db : Database) : Prop := ∀ slot ∈ db.slots, slot.pool.Suits (db.catalogOf slot)

def Keyed (db : Database) : Prop := ∀ slot ∈ db.slots, slot.pool.Keyed

end Database

/-- Files that are registered fit the pages that the pools of the current catalog
have of their tables. -/
def Event.Fits (event : Event) (db : Database) : Prop :=
  ∀ table file, event.Registers db table file →
    ∀ slot ∈ db.slots, slot.catalog = db.catalogNumber → ∀ page frame,
      slot.pool.cache.peek page = some frame → page.table = table → frame.page.Suits file

/-! ## Pools and catalogs after an event -/

/-- What an event does to pools and catalogs: a database goes on with the same pools
and another catalog perhaps in place of the current one, gets a pool without pages, or
has a call change one of its pools. -/
inductive Database.Follows (db db' : Database) : Prop where
  | catalog (hslots : db'.slots = db.slots) (hold : db'.oldCatalogs = db.oldCatalogs)
  | freshPool (capacity : Nat) (added : List Catalog)
      (hslots : db'.slots = db.slots ++ [⟨.empty capacity, db'.catalogNumber⟩])
      (hcatalogs : db'.oldCatalogs ++ [db'.catalog] = db.oldCatalogs ++ [db.catalog] ++ added)
      (hnew : ∀ catalog ∈ added, catalog = .empty)
      (hfiles : ∀ table file, db'.catalog.file table = .ok file → db.catalog.file table = .ok file)
  | call (number : Nat) (slot : PoolSlot) (call : Call) (hslot : db.slots[number]? = some slot)
      (hslots : db'.slots =
        db.slots.set number { slot with pool := (call.after (db.engineOf slot)).pool })
      (hold : db'.oldCatalogs = db.oldCatalogs) (hcurrent : db'.catalog = db.catalog)

namespace Database

variable {db db' : Database}

theorem catalogOf_current {slot : PoolSlot} (h : slot.catalog = db.catalogNumber) :
    db.catalogOf slot = db.catalog := by
  simp [catalogOf, h, catalogNumber]

theorem catalogOf_old {slot : PoolSlot} (hold : db'.oldCatalogs = db.oldCatalogs)
    (h : slot.catalog ≠ db.catalogNumber) : db'.catalogOf slot = db.catalogOf slot := by
  simp only [catalogOf, List.getD_eq_getElem?_getD, List.getElem?_append, catalogNumber, hold] at *
  split
  · rfl
  · obtain ⟨n, hn⟩ : ∃ n, slot.catalog - db.oldCatalogs.length = n + 1 :=
      ⟨slot.catalog - db.oldCatalogs.length - 1, by omega⟩
    simp [hn]

theorem slots_setPool (number : Nat) (pool : Pool) :
    (db.setPool number pool).slots = db.slots.modify number fun slot => { slot with pool } := by
  apply List.ext_getElem?
  intro i
  unfold setPool poolNumber slots
  split
  · simp only [List.getElem?_append, List.getElem?_modify]
    grind
  · simp only [List.getElem?_append, List.getElem?_modify, List.length_modify]
    grind

theorem createTable_eq (path name : String) (schema : Schema) :
    ∃ disk catalog, (db.createTable path name schema).2 = { db with disk, catalog } := by
  unfold createTable openFile addTable
  cases HeapFile.openFile db.disk path schema db.config.pageSize with
  | error cause => exact ⟨_, _, rfl⟩
  | ok opened =>
      dsimp only
      cases db.catalog.add opened.1 name "" <;> exact ⟨_, _, rfl⟩

theorem loadSchema_eq (name : String) (pageSize : Nat) :
    ∃ disk catalog, (db.loadSchema name pageSize).2 = { db with disk, catalog } := by
  unfold loadSchema
  split <;> exact ⟨_, _, rfl⟩

theorem catalogOf_added {added : List Catalog} (slot : PoolSlot)
    (hcatalogs : db'.oldCatalogs ++ [db'.catalog] = db.oldCatalogs ++ [db.catalog] ++ added)
    (hnew : ∀ catalog ∈ added, catalog = .empty) : db'.catalogOf slot = db.catalogOf slot := by
  simp only [catalogOf, hcatalogs, List.getD_eq_getElem?_getD]
  rw [List.getElem?_append]
  split
  · rfl
  · rename_i hlong
    rw [List.getElem?_eq_none (Nat.not_lt.1 hlong)]
    cases hadded : added[slot.catalog - (db.oldCatalogs ++ [db.catalog]).length]? with
    | none => rfl
    | some catalog => exact hnew catalog (List.mem_of_getElem? hadded)

theorem follows_call {number : Nat} {slot : PoolSlot} (hslot : db.slot? number = some slot)
    (call : Call) : db.Follows (db.runOn number slot call.run).2 := by
  obtain ⟨e', he', hrun⟩ : ∃ e', call.after (db.engineOf slot) = e' ∧
      (db.runOn number slot call.run).2 =
        ({ db with disk := e'.disk, log := e'.log }.setPool number e'.pool).refreshLeases := by
    refine ⟨_, rfl, ?_⟩
    unfold runOn Call.after Action.after engineOf
    split <;> simp_all
  rw [hrun]
  refine .call number slot call hslot ?_ ?_ ?_
  · refine (slots_setPool number e'.pool).trans ?_
    rw [he', List.modify_eq_set_getElem?]
    have hslots : ({ db with disk := e'.disk, log := e'.log } : Database).slots[number]? =
      some slot := hslot
    rw [hslots]
    rfl
  all_goals
    simp only [refreshLeases, setPool]
    split <;> rfl

end Database

theorem Event.follows (event : Event) (db : Database) : db.Follows (event.run db) := by
  have hfiles : ∀ {disk catalog db'}, db' = { db with disk, catalog } → db.Follows db' := by
    rintro disk catalog _ rfl
    exact .catalog rfl rfl
  cases event with
  | setPageSize pageSize => exact .catalog rfl rfl
  | resetPageSize => exact .catalog rfl rfl
  | create path name schema =>
      obtain ⟨disk, catalog, h⟩ := db.createTable_eq path name schema
      exact hfiles h
  | loadSchema name =>
      obtain ⟨disk, catalog, h⟩ := db.loadSchema_eq name db.config.pageSize
      exact hfiles h
  | clearCatalog => exact .catalog rfl rfl
  | putFile name data => exact .catalog rfl rfl
  | resetPool capacity =>
      exact .freshPool capacity [] rfl (List.append_nil _).symm (by simp) fun _ _ h => h
  | reset =>
      refine .freshPool db.config.poolPages [.empty] rfl rfl (by simp) ?_
      intro table file hfile
      cases hfile
  | call number request =>
      cases hslot : db.slot? number with
      | none =>
          simp only [run, Database.run?, hslot, Option.map_none]
          exact .catalog rfl rfl
      | some slot =>
          simp only [run, Database.run?, hslot, Option.map_some]
          exact Database.follows_call hslot request

/-! ## Pages that fit -/

namespace Database

variable {db db' : Database}

theorem suits_empty (capacity : Nat) (catalog : Catalog) : (Pool.empty capacity).Suits catalog := by
  intro page frame file hpeek _
  cases hpeek

theorem Follows.keyed (hkeyed : db.Keyed) (h : db.Follows db') : db'.Keyed := by
  intro slot hslot
  cases h with
  | catalog hslots _ => exact hkeyed slot (hslots ▸ hslot)
  | freshPool capacity added hslots _ _ _ =>
      rw [hslots, List.mem_append, List.mem_singleton] at hslot
      rcases hslot with hslot | rfl
      · exact hkeyed slot hslot
      · intro page frame hpeek
        cases hpeek
  | call number called call hcalled hslots _ _ =>
      rw [hslots] at hslot
      rcases List.mem_or_eq_of_mem_set hslot with hslot | rfl
      · exact hkeyed slot hslot
      · exact Call.keyed (hkeyed called (List.mem_of_getElem? hcalled)) call

/-- A pool of the current catalog fits another catalog in its place if it fits what has
changed there. -/
theorem suits_replace_iff {pool : Pool} {catalog catalog' : Catalog} (h : pool.Suits catalog) :
    pool.Suits catalog' ↔ ∀ table file,
      catalog'.file table = .ok file ∧ catalog.file table ≠ .ok file → ∀ page frame,
        pool.cache.peek page = some frame → page.table = table → frame.page.Suits file := by
  constructor
  · rintro hsuits table file ⟨hfile, -⟩ page frame hpeek rfl
    exact hsuits page frame file hpeek hfile
  · intro hnew page frame file hpeek hfile
    by_cases hsame : catalog.file page.table = .ok file
    · exact h page frame file hpeek hsame
    · exact hnew page.table file ⟨hfile, hsame⟩ page frame hpeek rfl

/-- Only the pools of the current catalog can notice that another one takes its place. -/
theorem matched_replace_iff (hslots : db'.slots = db.slots)
    (hold : db'.oldCatalogs = db.oldCatalogs) (hmatched : db.Matched) :
    db'.Matched ↔ ∀ table file,
      db'.catalog.file table = .ok file ∧ db.catalog.file table ≠ .ok file →
        ∀ slot ∈ db.slots, slot.catalog = db.catalogNumber → ∀ page frame,
          slot.pool.cache.peek page = some frame → page.table = table →
            frame.page.Suits file := by
  have hcurrent_eq : ∀ slot, slot.catalog = db.catalogNumber →
      db'.catalogOf slot = db'.catalog := fun slot hcurrent =>
    catalogOf_current (by rw [hcurrent, catalogNumber, catalogNumber, hold])
  have hsuits : ∀ slot ∈ db.slots, slot.catalog = db.catalogNumber →
      slot.pool.Suits db.catalog := fun slot hslot hcurrent =>
    catalogOf_current hcurrent ▸ hmatched slot hslot
  constructor
  · intro h table file hregisters slot hslot hcurrent
    have hsuits' := h slot (hslots ▸ hslot)
    rw [hcurrent_eq slot hcurrent] at hsuits'
    exact (suits_replace_iff (hsuits slot hslot hcurrent)).1 hsuits' table file hregisters
  · intro hnew slot hslot
    rw [hslots] at hslot
    by_cases hcurrent : slot.catalog = db.catalogNumber
    · rw [hcurrent_eq slot hcurrent]
      exact (suits_replace_iff (hsuits slot hslot hcurrent)).2 fun table file hregisters =>
        hnew table file hregisters slot hslot hcurrent
    · rw [catalogOf_old hold hcurrent]
      exact hmatched slot hslot

end Database

namespace Event

variable {event : Event} {db : Database}

theorem fits_of_files
    (h : ∀ table file, (event.run db).catalog.file table = .ok file →
      db.catalog.file table = .ok file) : event.Fits db :=
  fun table file hregisters => absurd (h table file hregisters.1) hregisters.2

/-- An event keeps the match if and only if the files that it registers fit the
resident pages. -/
theorem matched_iff (hkeyed : db.Keyed) (hmatched : db.Matched) :
    (event.run db).Matched ↔ event.Fits db := by
  cases event.follows db with
  | catalog hslots hold => exact Database.matched_replace_iff hslots hold hmatched
  | freshPool capacity added hslots hcatalogs hnew hfiles =>
      refine iff_of_true ?_ (fits_of_files hfiles)
      intro slot hslot
      rw [hslots, List.mem_append, List.mem_singleton] at hslot
      rcases hslot with hslot | rfl
      · rw [Database.catalogOf_added slot hcatalogs hnew]
        exact hmatched slot hslot
      · exact Database.suits_empty capacity _
  | call number called call hcalled hslots hold hcurrent =>
      refine iff_of_true ?_ (fits_of_files fun _ _ h => hcurrent ▸ h)
      have hcatalog : ∀ slot, (event.run db).catalogOf slot = db.catalogOf slot := fun slot => by
        simp only [Database.catalogOf, hold, hcurrent]
      intro slot hslot
      rw [hcatalog]
      rw [hslots] at hslot
      rcases List.mem_or_eq_of_mem_set hslot with hslot | rfl
      · exact hmatched slot hslot
      · have hcalled := List.mem_of_getElem? hcalled
        exact Call.suits (hkeyed called hcalled) (hmatched called hcalled) call

/-! ## Runs -/

variable {config : Config} {root : String} {log : LogSink}

theorem runAll_append_singleton (events : List Event) (event : Event) (db : Database) :
    runAll (events ++ [event]) db = event.run (runAll events db) := by
  simp [runAll]

theorem keyed_make : (Database.make config root log).Keyed := by
  intro slot hslot
  obtain rfl := List.mem_singleton.1 hslot
  intro page frame hpeek
  cases hpeek

theorem matched_make : (Database.make config root log).Matched := by
  intro slot hslot
  obtain rfl := List.mem_singleton.1 hslot
  exact Database.suits_empty _ _

theorem keyed_runAll (events : List Event) (hkeyed : db.Keyed) : (runAll events db).Keyed := by
  induction events generalizing db with
  | nil => exact hkeyed
  | cons event events ih => exact ih ((event.follows db).keyed hkeyed)

end Event

namespace Database

variable {db : Database}

/-- As long as the pages fit, no call on any pool hands a file a page of another size. -/
theorem Matched.isMisfit_failure? (hkeyed : db.Keyed) (hmatched : db.Matched) {number : Nat}
    {call : Call} {failure : Failure} (hfailure : db.failure? number call = some failure) :
    failure.isMisfit = false := by
  unfold failure? run? at hfailure
  split at hfailure
  case h_2 => cases hfailure
  rename_i hrun
  cases hfailure
  obtain ⟨slot, hslot, hrun⟩ := Option.map_eq_some_iff.1 hrun
  have hmem : slot ∈ db.slots := List.mem_of_getElem? hslot
  have hsized : call.run.Sized (db.engineOf slot) :=
    Call.sized (hkeyed slot hmem) (hmatched slot hmem) call
  unfold Sized Ends engineOf at hsized
  unfold runOn at hrun
  dsimp only at hrun
  split at hrun
  · cases hrun
  · rename_i hends
    rw [hends] at hsized
    cases hrun
    exact hsized

end Database

/-- In a run of a database the resident pages of registered tables fit the files of the
catalog all along if and only if every file, whenever it is registered, fits the pages
that are resident then. And in a state where they fit no call hands a file a page of
another size. -/
theorem resident_pages_match_iff (config : Config) (root : String) (log : LogSink)
    (events : List Event) :
    ((∀ done, done <+: events → (Event.runAll done (.make config root log)).Matched) ↔
      ∀ done event, done ++ [event] <+: events →
        event.Fits (Event.runAll done (.make config root log))) ∧
    ∀ done, done <+: events → (Event.runAll done (.make config root log)).Matched →
      ∀ number call expected got,
        (Event.runAll done (.make config root log)).failure? number call ≠
          some (.violation (.bufferSize expected got)) := by
  have hkeyed : ∀ done, (Event.runAll done (.make config root log)).Keyed := fun done =>
    Event.keyed_runAll done Event.keyed_make
  refine ⟨⟨?_, ?_⟩, ?_⟩
  · intro hmatched done event hprefix
    have hdone : done <+: events := (List.prefix_append done [event]).trans hprefix
    have hafter := hmatched _ hprefix
    rw [Event.runAll_append_singleton] at hafter
    exact (Event.matched_iff (hkeyed done) (hmatched done hdone)).1 hafter
  · intro hfits done
    induction done using List.reverseRecOn with
    | nil => exact fun _ => Event.matched_make
    | append_singleton done event ih =>
        intro hprefix
        have hdone : done <+: events := (List.prefix_append done [event]).trans hprefix
        rw [Event.runAll_append_singleton]
        exact (Event.matched_iff (hkeyed done) (ih hdone)).2 (hfits done event hprefix)
  · intro done _ hmatched number call expected got hfailure
    have hfits := hmatched.isMisfit_failure? (hkeyed done) hfailure
    cases hfits

/-- A table is created again with larger pages while a transaction has changed a page of
it. The page stays in the pool as it is, and the transaction's commit ends over its size. -/
theorem resident_pages_may_misfit :
    let table := HeapFile.idOfPath "/a"
    let db := Event.runAll
      [.create "a" "a" (.unnamed [.int]), .call 0 (.insert ⟨1⟩ table (.single 7)),
        .setPageSize 18, .create "a" "a" (.unnamed [.int])]
      (.make ⟨9, 2, 0⟩ "" (.memory (.empty .none)))
    ¬db.Matched ∧ db.failure? 0 (.commit ⟨1⟩) = some (.violation (.bufferSize 18 9)) := by
  intro table db
  have hpage : (db.pool.pool.cache.peek ⟨table, 0⟩).map (·.page.data.length) = some 9 := by
    decide +kernel
  have hsize : (db.catalog.file table).toOption.map (·.pageSize) = some 18 := by decide +kernel
  have hcurrent : db.pool.catalog = db.catalogNumber := by decide +kernel
  refine ⟨fun hmatched => ?_, by decide +kernel⟩
  have hsuits := hmatched db.pool (List.mem_append_right _ (List.mem_singleton_self _))
  rw [Database.catalogOf_current hcurrent] at hsuits
  obtain ⟨frame, hpeek, hlength⟩ := Option.map_eq_some_iff.1 hpage
  obtain ⟨file, hfile, hsize⟩ : ∃ file, db.catalog.file table = .ok file ∧ file.pageSize = 18 := by
    revert hsize
    generalize db.catalog.file table = found
    cases found <;> simp [Except.toOption]
  have hfits : frame.page.Suits file := hsuits _ frame file hpeek hfile
  have hwrong : (9 : Nat) = 18 := hlength.symm.trans (hfits.length.trans hsize)
  cases hwrong

end HeapStore
