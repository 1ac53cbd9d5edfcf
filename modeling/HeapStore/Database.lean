import HeapStore.Catalog.Load
import HeapStore.Engine.Completion
import HeapStore.HeapFile.Edit
import HeapStore.HeapFile.Scan

/-!
# Databases

A database puts one engine together: a configuration, a directory of
files, a log, a catalog and a buffer pool. Catalog and pool can be
replaced by fresh ones. The old ones do not go away: whoever uses an old
pool goes on using it, with the catalog it was made for. So a database
keeps all catalogs and pools it ever had, the current ones last.

A client may keep looking at a page after the pool has dropped its copy
or put another copy in its place. Such a page is on lease: as long as the
pool has that copy, the lease shows what the pool has, and from then on
what the copy was when it left the pool.
-/

namespace HeapStore

/-- The settings of a database. -/
structure Config where
  /-- The number of bytes of a page, for files opened from now on. -/
  pageSize : Nat
  /-- The number of pages of a pool. -/
  poolPages : Nat
  /-- The longest wait for a lock, in milliseconds. -/
  maxLockWait : Nat
deriving DecidableEq, Repr

/-- The usual settings. -/
def Config.default : Config := { pageSize := 4096, poolPages := 50, maxLockWait := 2000 }

instance : Inhabited Config := ⟨.default⟩

/-- A pool, and the number of the catalog it was made for. -/
structure PoolSlot where
  pool : Pool
  catalog : Nat

/-- A copy of a page that a client looks at, and the number of the pool
it was made in. -/
structure Lease where
  pool : Nat
  frame : Frame

/-- A database. -/
structure Database where
  config : Config
  disk : Disk
  log : LogSink
  /-- The catalogs before the current one, oldest first. -/
  oldCatalogs : List Catalog
  catalog : Catalog
  /-- The pools before the current one, oldest first. -/
  oldPools : List PoolSlot
  pool : PoolSlot
  /-- By number of lease. -/
  leases : List Lease

namespace Database

/-- A database without tables. -/
def make (config : Config) (root : String) (log : LogSink) : Database :=
  { config, log
    disk := .empty root
    oldCatalogs := []
    catalog := .empty
    oldPools := []
    pool := { pool := .empty config.poolPages, catalog := 0 }
    leases := [] }

/-! ## Pools and catalogs -/

/-- The number of the current catalog. -/
def catalogNumber (db : Database) : Nat := db.oldCatalogs.length

/-- The number of the current pool. -/
def poolNumber (db : Database) : Nat := db.oldPools.length

/-- A pool by its number. -/
def slot? (db : Database) (number : Nat) : Option PoolSlot := (db.oldPools ++ [db.pool])[number]?

/-- The catalog that a pool was made for. -/
def catalogOf (db : Database) (slot : PoolSlot) : Catalog :=
  (db.oldCatalogs ++ [db.catalog]).getD slot.catalog .empty

/-- Puts another state of a pool in its place. -/
def setPool (db : Database) (number : Nat) (pool : Pool) : Database :=
  if number = db.poolNumber then { db with pool := { db.pool with pool } }
  else { db with oldPools := db.oldPools.modify number fun slot => { slot with pool } }

/-- Replaces the current pool by one without pages and locks. -/
def resetPool (db : Database) (capacity : Nat) : Database :=
  { db with
    oldPools := db.oldPools ++ [db.pool]
    pool := { pool := .empty capacity, catalog := db.catalogNumber } }

/-- Starts over with an empty catalog and a fresh pool. -/
def reset (db : Database) : Database :=
  resetPool { db with oldCatalogs := db.oldCatalogs ++ [db.catalog], catalog := .empty }
    db.config.poolPages

/-! ## Settings -/

/-- Sets the page size of files opened from now on. -/
def setPageSize (db : Database) (pageSize : Nat) : Database :=
  { db with config := { db.config with pageSize } }

/-- Sets the page size back to the usual one. -/
def resetPageSize (db : Database) : Database := db.setPageSize Config.default.pageSize

/-! ## Tables -/

/-- Opens a heap file without registering it. -/
def openFile (db : Database) (path : String) (schema : Schema) (pageSize : Nat) :
    Except Error HeapFile × Database :=
  match HeapFile.openFile db.disk path schema pageSize with
  | .ok (file, disk) => (.ok file, { db with disk })
  | .error cause => (.error cause, db)

/-- Registers a table in the current catalog. -/
def addTable (db : Database) (file : HeapFile) (name key : String) : Except Error Unit × Database :=
  match db.catalog.add file name key with
  | .ok catalog => (.ok (), { db with catalog })
  | .error cause => (.error cause, db)

/-- Opens a heap file with the current page size and registers it, without
a key. A file that cannot be registered has been opened all the same. -/
def createTable (db : Database) (path name : String) (schema : Schema) :
    Except Error HeapFile × Database :=
  match db.openFile path schema db.config.pageSize with
  | (.error cause, db) => (.error cause, db)
  | (.ok file, db) =>
    match db.addTable file name "" with
    | (.error cause, db) => (.error cause, db)
    | (.ok (), db) => (.ok file, db)

/-- Loads the schema in a file of the directory. -/
def loadSchema (db : Database) (name : String) (pageSize : Nat) :
    Except Error (List TableId) × Database :=
  match Catalog.loadFile pageSize name { disk := db.disk, catalog := db.catalog } with
  | .ok tables state => (.ok tables, { db with disk := state.disk, catalog := state.catalog })
  | .error cause state => (.error cause, { db with disk := state.disk, catalog := state.catalog })

/-- Forgets all tables of the current catalog. -/
def clearCatalog (db : Database) : Database := { db with catalog := .empty }

/-! ## Pages on lease -/

/-- The copy on lease, if the pool still has it. -/
def resident? (db : Database) (lease : Lease) : Option Frame := do
  let slot ← db.slot? lease.pool
  let frame ← slot.pool.cache.peek lease.frame.page.id
  if frame.copy = lease.frame.copy then some frame else none

/-- Brings all leases up to date. -/
def refreshLeases (db : Database) : Database :=
  { db with
    leases := db.leases.map fun lease =>
      { lease with frame := (db.resident? lease).getD lease.frame } }

/-- Takes a copy on lease; yields the number of the lease. -/
def lease (db : Database) (pool : Nat) (frame : Frame) : Nat × Database :=
  (db.leases.length, { db with leases := db.leases ++ [{ pool, frame }] })

/-- The copy on lease. -/
def leased? (db : Database) (number : Nat) : Option Lease := db.leases[number]?

/-- Whether two leases are of one copy. -/
def sameCopy (a b : Lease) : Bool := a.pool = b.pool && a.frame.copy = b.frame.copy

/-- Changes a copy on lease, wherever it is. -/
def changeLeased (db : Database) (lease : Lease) (page : Page) : Database :=
  let db :=
    match db.resident? lease, db.slot? lease.pool with
    | some _, some slot => db.setPool lease.pool (slot.pool.store page)
    | _, _ => db
  { db with
    leases := db.leases.map fun other =>
      if sameCopy other lease then { other with frame := { other.frame with page } } else other }

/-! ## Running actions -/

/-- Runs an action on a pool, given with its number, with the catalog that
the pool was made for. -/
def runOn {α : Type} (db : Database) (number : Nat) (slot : PoolSlot) (action : Action α) :
    Except Failure α × Database :=
  let engine : Engine :=
    { disk := db.disk, catalog := db.catalogOf slot, log := db.log, pool := slot.pool }
  let back (engine : Engine) : Database :=
    ({ db with disk := engine.disk, log := engine.log }.setPool number engine.pool).refreshLeases
  match action engine with
  | .ok answer engine => (.ok answer, back engine)
  | .error failure engine => (.error failure, back engine)

/-- Runs an action on a pool by its number. -/
def run? {α : Type} (db : Database) (number : Nat) (action : Action α) :
    Option (Except Failure α × Database) :=
  (db.slot? number).map fun slot => db.runOn number slot action

/-- Runs an action on the current pool. -/
def run {α : Type} (db : Database) (action : Action α) : Except Failure α × Database :=
  db.runOn db.poolNumber db.pool action

end Database

end HeapStore
