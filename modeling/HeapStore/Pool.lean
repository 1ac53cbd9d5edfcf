import HeapStore.LockTable
import HeapStore.Page
import HeapStore.Recency

/-!
# The buffer pool

The pool keeps up to `capacity` pages in memory, in the order of their
last use, and the locks under which transactions work on them. This file
holds the pool's own moves, which need neither files nor log: locking,
finding a resident page, installing one, choosing the one to drop.

Pages changed by a running transaction never leave the pool, so only a
clean page may be dropped, the least recently used one first
(`victim?`). A pool without clean pages is full.

Every page that is read into the pool is a new copy with a number of its
own (`Frame`). A client may still look at a copy that the pool has
dropped or replaced; the number tells the two apart.
-/

namespace HeapStore

/-- How a client means to use a page. -/
inductive Access where
  | read
  | write
deriving DecidableEq, Repr

/-- The lock that an access needs. -/
def Access.lockMode : Access → LockMode
  | .read => .shared
  | .write => .exclusive

/-- A page in the pool: the page, and which of the copies made so far it
is. -/
structure Frame where
  page : Page
  copy : Nat
deriving DecidableEq, Repr

/-- A buffer pool. -/
structure Pool where
  capacity : Nat
  cache : Recency PageId Frame
  locks : LockTable
  /-- The number of copies made so far. -/
  copies : Nat

namespace Pool

/-- A pool without pages and locks. -/
def empty (capacity : Nat) : Pool :=
  { capacity, cache := .empty, locks := .empty, copies := 0 }

/-! ## Locks -/

/-- Locks a page, unless it cannot be locked now. -/
def lock? (pool : Pool) (txn : TxnId) (page : PageId) (mode : LockMode) : Option Pool :=
  (pool.locks.acquire? txn page mode).map fun locks => { pool with locks }

/-- Gives one lock back. -/
def release (pool : Pool) (txn : TxnId) (page : PageId) : Pool :=
  { pool with locks := pool.locks.release txn page }

/-- Gives all locks of a transaction back. -/
def releaseAll (pool : Pool) (txn : TxnId) : Pool :=
  { pool with locks := pool.locks.releaseAll txn }

/-! ## Pages -/

/-- Whether there is no room for one more page. -/
def isFull (pool : Pool) : Bool := pool.capacity ≤ pool.cache.size

/-- The resident pages, least recently used first. -/
def frames (pool : Pool) : List Frame := pool.cache.toList.map Prod.snd

/-- The pages changed by a transaction, least recently used first. -/
def dirtiedBy (pool : Pool) (txn : TxnId) : List PageId :=
  (pool.cache.toList.filter fun (_, frame) => frame.page.dirtier = some txn).map Prod.fst

/-- The page to drop next: the least recently used one that is clean and
that nobody holds latched. -/
def victim? (pool : Pool) (latched : Frame → Bool) : Option PageId :=
  (pool.cache.toList.find? fun (_, frame) => !frame.page.isDirty && !latched frame).map Prod.fst

/-- Drops the next victim, if there is one. -/
def evict? (pool : Pool) (latched : Frame → Bool) : Option Pool :=
  (pool.victim? latched).map fun page => { pool with cache := pool.cache.remove page }

/-- Puts a page into the pool as a new copy, in place of any other copy
of it. -/
def install (pool : Pool) (page : Page) : Frame × Pool :=
  let frame : Frame := { page, copy := pool.copies }
  (frame, { pool with cache := pool.cache.put page.id frame, copies := pool.copies + 1 })

/-- Changes a resident page where it is. -/
def store (pool : Pool) (page : Page) : Pool :=
  { pool with cache := pool.cache.modify page.id fun frame => { frame with page } }

/-- Drops a page, whatever it holds. -/
def discard (pool : Pool) (page : PageId) : Pool :=
  { pool with cache := pool.cache.remove page }

end Pool

end HeapStore
