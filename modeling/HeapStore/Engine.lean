import HeapStore.Catalog
import HeapStore.Log.Sink
import HeapStore.Pool

/-!
# The engine

What an operation of the buffer pool works on: the files, the catalog,
the log and the pool itself. An operation is an `Action`: it may change the
engine, and ends with an answer or a `Failure`. Changes made before a
failure stay; nothing is rolled back behind the caller's back.

This file has the steps from which the operations are built, one for each
thing an action does to its surroundings.
-/

namespace HeapStore

/-- Everything an operation of the pool works on. -/
structure Engine where
  disk : Disk
  catalog : Catalog
  log : LogSink
  pool : Pool

/-- An operation of the pool. -/
abbrev Action := EStateM Failure Engine

namespace Action

variable {α : Type}

/-- Ends an action with a refusal. -/
def refuse (cause : Error) : Action α := throw (.error cause)

/-- Goes on with an answer, or ends with the refusal in its place. -/
def ofExcept : Except Error α → Action α
  | .ok answer => pure answer
  | .error cause => refuse cause

/-- Goes on with an answer, or ends with the failure in its place. -/
def ofResult : Except Failure α → Action α
  | .ok answer => pure answer
  | .error failure => throw failure

/-- Runs an action and turns its refusal into an answer. Violations are no
answers. -/
def attempt (action : Action α) : Action (Except Error α) := fun engine =>
  match action engine with
  | .ok answer engine => .ok (.ok answer) engine
  | .error (.error cause) engine => .ok (.error cause) engine
  | .error (.violation cause) engine => .error (.violation cause) engine

end Action

namespace Engine

/-! ## Steps -/

/-- Changes the pool. -/
def updatePool (f : Pool → Pool) : Action Unit :=
  modify fun engine => { engine with pool := f engine.pool }

/-- The heap file of a table. -/
def fileOf (table : TableId) : Action HeapFile := do
  Action.ofExcept ((← get).catalog.file table)

/-- The number of pages of a heap file. -/
def pageCount (file : HeapFile) : Action UInt32 := do
  Action.ofResult (file.pageCount (← get).disk)

/-- Reads a page from its file. -/
def readPage (file : HeapFile) (page : PageId) : Action Page := do
  let engine ← get
  let (page, disk) ← Action.ofResult (file.readPage engine.disk page)
  set { engine with disk }
  return page

/-- Writes a page to its file. -/
def writePage (file : HeapFile) (page : Page) : Action Unit := do
  let engine ← get
  let disk ← Action.ofResult (file.writePage engine.disk page)
  set { engine with disk }

/-- Writes bytes to the place of a page in a file, or those of a page
without tuples. -/
def writeBytes (file : HeapFile) (page : UInt32) (data : Option Bytes) : Action Unit := do
  let page ← match data with
    | some data => pure (Page.ofBytes ⟨file.id, page⟩ file.schema data)
    | none => Action.ofResult (file.emptyPage page)
  writePage file page

/-- Adds an empty page to a file. -/
def appendPage (file : HeapFile) : Action PageId := do
  let engine ← get
  let (page, disk) ← Action.ofResult (file.appendPage engine.disk)
  set { engine with disk }
  return page

/-- Hands a record to the log. -/
def writeLog (record : LogRecord) : Action Unit := do
  let engine ← get
  let (answer, log) := engine.log.write record
  set { engine with log }
  Action.ofExcept answer

/-- Makes the log durable. -/
def forceLog : Action Unit := do
  let engine ← get
  let (answer, log) := engine.log.force
  set { engine with log }
  Action.ofExcept answer

/-- Puts a page into the pool as a new copy. -/
def install (page : Page) : Action Frame := do
  let engine ← get
  let (frame, pool) := engine.pool.install page
  set { engine with pool }
  return frame

/-- The copy of a page in the pool, which counts as a use. For a page that
is not there the pool stays as it is, its clock included: only the order of
uses ever shows. -/
def touch (page : PageId) : Action (Option Frame) := do
  let engine ← get
  match engine.pool.cache.get page with
  | (some frame, cache) =>
    set { engine with pool := { engine.pool with cache } }
    return some frame
  | (none, _) => return none

/-! ## Access to pages -/

/-- Locks a page for a transaction. A lock that cannot be granted ends
the wait of the transaction, which has to abort. -/
def lock (txn : TxnId) (page : PageId) (mode : LockMode) : Action Unit := do
  let engine ← get
  match engine.pool.lock? txn page mode with
  | some pool => set { engine with pool }
  | none => Action.refuse (.transactionAborted txn page)

/-- Drops the next victim. A copy that is latched is passed over: it is
about to change. -/
def evict (latched : Frame → Bool) : Action Unit := do
  let engine ← get
  match engine.pool.evict? latched with
  | some pool => set { engine with pool }
  | none => Action.refuse .bufferPoolFull

/-- Makes sure that one more page has room. -/
def makeRoom : Action Unit := do
  if (← get).pool.isFull then evict fun _ => false

/-- The page of a transaction that wants to read or write it: locked
first, then taken from the pool, or else read from its file. -/
def getPage (txn : TxnId) (page : PageId) (access : Access) : Action Frame := do
  lock txn page access.lockMode
  match ← touch page with
  | some frame => return frame
  | none =>
    let file ← fileOf page.table
    makeRoom
    install (← readPage file page)

/-- Gets a page for writing and marks it as changed by the transaction. -/
def getDirty (txn : TxnId) (page : PageId) : Action Unit := do
  let frame ← getPage txn page .write
  updatePool (·.store (frame.page.markDirty txn))

/-- Gives a lock back before the transaction has ended. -/
def release (txn : TxnId) (page : PageId) : Action Unit := updatePool (·.release txn page)

/-- Whether a transaction holds a page. -/
def holds (txn : TxnId) (page : PageId) : Action Bool :=
  return (← get).pool.locks.holds txn page

/-- Drops a page without writing it. -/
def discard (page : PageId) : Action Unit := updatePool (·.discard page)

end Engine

end HeapStore
