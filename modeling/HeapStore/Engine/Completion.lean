import HeapStore.Engine

/-!
# Ending a transaction

Changes reach the files when their transaction commits, and only then.
Writing a page back means: log what it held and what it holds, force the
log, write the page, mark it clean (`writeBack`). Aborting reads the pages
from their files again (`restorePages`).

A commit that fails on the way restores the pages that it did not come
to write. Locks are given back once no page with the transaction's
changes is left in the pool; a page that can neither be written nor
restored stays dirty, and stays locked until a later abort succeeds.
-/

namespace HeapStore

namespace Engine

/-! ## Writing back -/

/-- What is logged about a change of a page. -/
def recordOf (txn : TxnId) (page : Page) : LogRecord :=
  { txn, page := page.id, before := page.beforeData, after := page.data }

/-- Logs and writes a resident page, if it is dirty, and marks it
clean. -/
def writeBack (page : PageId) : Action Unit := do
  match (← get).pool.cache.peek page with
  | none => return
  | some { page, .. } =>
    match page.dirtier with
    | none => return
    | some txn =>
      let file ← fileOf page.id.table
      writeLog (recordOf txn page)
      forceLog
      writePage file page
      updatePool (·.store page.markClean)

/-- Writes back every page changed by a transaction. -/
def flushPages (txn : TxnId) : Action Unit := do
  ((← get).pool.dirtiedBy txn).forM writeBack

/-- Writes back every dirty page, whoever changed it. -/
def flushAll : Action Unit := do
  (← get).pool.cache.keys.forM writeBack

/-! ## Restoring -/

/-- Replaces a page in the pool by a clean copy of what its file holds. -/
def restorePage (page : PageId) : Action Unit := do
  let file ← fileOf page.table
  let _ ← install (← readPage file page)

/-- Restores every page changed by a transaction. -/
def restorePages (txn : TxnId) : Action Unit := do
  ((← get).pool.dirtiedBy txn).forM restorePage

/-! ## Commit and abort -/

/-- Gives the locks of a transaction back, unless changes of it are left
in the pool. -/
def releaseIfClean (txn : TxnId) : Action Unit :=
  updatePool fun pool => if (pool.dirtiedBy txn).isEmpty then pool.releaseAll txn else pool

/-- Commits a transaction. -/
def commit (txn : TxnId) : Action Unit := do
  let outcome ← Action.attempt (flushPages txn)
  match outcome with
  | .ok () => pure ()
  | .error _ => let _ ← Action.attempt (restorePages txn)
  releaseIfClean txn
  Action.ofExcept outcome

/-- Aborts a transaction. -/
def abort (txn : TxnId) : Action Unit := do
  let outcome ← Action.attempt (restorePages txn)
  releaseIfClean txn
  Action.ofExcept outcome

end Engine

end HeapStore
