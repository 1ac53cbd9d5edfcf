import HeapStore.Address
import Std.Data.ExtTreeMap

/-!
# Page locks

Which transactions hold which pages, shared or exclusively. Any number
of transactions may share a page, or one may have it for itself; a
transaction that shares a page with nobody may turn its lock into an
exclusive one. Pages that nobody holds have no entry.

A request is granted at once or not at all (`acquire?`). Requests that
wait are kept by whoever made them, and tried again when something has
been released (`grantWaiting`).

Main statements: `mode?_release` and `mode?_releaseAll` (a release takes
away what it names and nothing else).
-/

namespace HeapStore

/-- How a page is locked. -/
inductive LockMode where
  | shared
  | exclusive
deriving DecidableEq, Repr

/-- A lock held by one transaction on the page it is listed under. -/
structure Grant where
  txn : TxnId
  mode : LockMode
deriving DecidableEq, Repr

/-- A wish for a lock. -/
structure LockRequest where
  txn : TxnId
  page : PageId
  mode : LockMode
deriving DecidableEq, Repr

/-- The locks in force. -/
structure LockTable where
  /-- By page, in the order in which they were granted. -/
  grants : Std.ExtTreeMap PageId (List Grant)

namespace LockTable

/-- The table without locks. -/
def empty : LockTable := ⟨∅⟩

instance : Inhabited LockTable := ⟨empty⟩

/-- The locks on a page. -/
def held (table : LockTable) (page : PageId) : List Grant := table.grants[page]?.getD []

/-! ## Granting -/

/-- The locks on a page after `txn` was granted `mode`, if it can be.

A page nobody holds is free for all. A sole holder gets what it asks for,
or keeps the stronger lock it has. Beside another sole holder, two shared
locks are possible. Several holders always share, so among them an
exclusive lock is not. -/
def grant? (grants : List Grant) (txn : TxnId) (mode : LockMode) : Option (List Grant) :=
  match grants with
  | [] => some [⟨txn, mode⟩]
  | [held] =>
    if held.txn = txn then
      if held.mode = .shared ∧ mode = .exclusive then some [⟨txn, .exclusive⟩] else some [held]
    else if held.mode = .shared ∧ mode = .shared then some [held, ⟨txn, mode⟩]
    else none
  | several =>
    if mode = .exclusive then none
    else if several.any (·.txn = txn) then some several
    else some (several ++ [⟨txn, mode⟩])

/-- The table after `txn` got `page` in `mode`, or nothing when it cannot
have it now. -/
def acquire? (table : LockTable) (txn : TxnId) (page : PageId) (mode : LockMode) :
    Option LockTable :=
  (grant? (table.held page) txn mode).map fun grants => ⟨table.grants.insert page grants⟩

/-- Grants, in order, each of the waiting requests that can be granted;
yields those that have to go on waiting. -/
def grantWaiting (table : LockTable) : List LockRequest → LockTable × List LockRequest
  | [] => (table, [])
  | request :: rest =>
    match table.acquire? request.txn request.page request.mode with
    | some table => table.grantWaiting rest
    | none => ((table.grantWaiting rest).1, request :: (table.grantWaiting rest).2)

/-! ## Releasing -/

/-- The locks that remain when `txn` leaves, unless none do. -/
def leave? (txn : TxnId) (grants : List Grant) : Option (List Grant) :=
  match grants.filter (·.txn ≠ txn) with
  | [] => none
  | rest => some rest

/-- Takes away the lock of `txn` on `page`, if it has one. -/
def release (table : LockTable) (txn : TxnId) (page : PageId) : LockTable :=
  ⟨table.grants.alter page (·.bind (leave? txn))⟩

/-- Takes away every lock of `txn`. -/
def releaseAll (table : LockTable) (txn : TxnId) : LockTable :=
  ⟨table.grants.filterMap fun _ grants => leave? txn grants⟩

/-! ## Looking -/

/-- The mode in which `txn` holds `page`. -/
def mode? (table : LockTable) (txn : TxnId) (page : PageId) : Option LockMode :=
  ((table.held page).find? (·.txn = txn)).map Grant.mode

/-- Whether `txn` holds `page` at all. -/
def holds (table : LockTable) (txn : TxnId) (page : PageId) : Bool :=
  (table.mode? txn page).isSome

/-- The pages that `txn` holds, ascending. -/
def pagesOf (table : LockTable) (txn : TxnId) : List PageId :=
  table.grants.keys.filter (table.holds txn)

/-- The number of pages that somebody holds. -/
def lockedPageCount (table : LockTable) : Nat := table.grants.size

/-- All locks, by transaction and then by page. -/
def all (table : LockTable) : List (TxnId × PageId × LockMode) :=
  (table.grants.toList.flatMap fun (page, grants) =>
    grants.map fun grant => (grant.txn, page, grant.mode)).mergeSort
      fun a b => (compare a.1 b.1).isLE

/-! ## Locks after a release -/

theorem getD_leave? (txn : TxnId) (grants : List Grant) :
    (leave? txn grants).getD [] = grants.filter (·.txn ≠ txn) := by
  unfold leave?
  split
  · rename_i h; exact h.symm
  · rfl

theorem held_release (table : LockTable) (txn : TxnId) (page p : PageId) :
    (table.release txn page).held p
      = if page = p then (table.held p).filter (·.txn ≠ txn) else table.held p := by
  simp only [release, held, Std.ExtTreeMap.getElem?_alter, Std.LawfulEqCmp.compare_eq_iff_eq]
  split
  · rename_i h
    subst h
    cases table.grants[page]? with
    | none => rfl
    | some grants => exact getD_leave? txn grants
  · rfl

theorem held_releaseAll (table : LockTable) (txn : TxnId) (page : PageId) :
    (table.releaseAll txn).held page = (table.held page).filter (·.txn ≠ txn) := by
  simp only [releaseAll, held, Std.ExtTreeMap.getElem?_filterMap']
  cases table.grants[page]? with
  | none => rfl
  | some grants => exact getD_leave? txn grants

theorem find?_filter_txn (txn t : TxnId) (grants : List Grant) :
    (grants.filter (·.txn ≠ txn)).find? (·.txn = t)
      = if t = txn then none else grants.find? (·.txn = t) := by
  induction grants with
  | nil => simp
  | cons grant grants ih =>
    simp only [List.filter_cons, List.find?_cons]
    grind

/-- A release takes away one lock and leaves all others. -/
theorem mode?_release (table : LockTable) (txn t : TxnId) (page p : PageId) :
    (table.release txn page).mode? t p
      = if page = p ∧ t = txn then none else table.mode? t p := by
  simp only [mode?, held_release]
  by_cases h : page = p
  · simp only [h, if_true, find?_filter_txn, true_and]
    split <;> rfl
  · simp [h]

/-- A full release takes away the locks of one transaction and leaves
those of all others. -/
theorem mode?_releaseAll (table : LockTable) (txn t : TxnId) (page : PageId) :
    (table.releaseAll txn).mode? t page = if t = txn then none else table.mode? t page := by
  simp only [mode?, held_releaseAll, find?_filter_txn]
  split <;> rfl

end LockTable

end HeapStore
