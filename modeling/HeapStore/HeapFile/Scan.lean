import HeapStore.Engine
import HeapStore.Query.Operator

/-!
# Scanning a heap file

A scan yields the tuples of a heap file in the order of their addresses.
It gets one page at a time, under a shared lock, and hands out the tuples
that the page held at that moment; a page it cannot get is one error
among the items, and the scan goes on with the next page. How many pages
there are is asked anew each time a page is needed, so a scan sees pages
that are appended while it is under way.
-/

namespace HeapStore

/-- A scan under way. -/
structure Scan where
  file : HeapFile
  txn : TxnId
  /-- The page to get next. -/
  nextPage : UInt32
  /-- What is left of the page it got last. -/
  pending : List Tuple

namespace Scan

/-- A scan of a file for a transaction, from the first page on. -/
def start (file : HeapFile) (txn : TxnId) : Scan := { file, txn, nextPage := 0, pending := [] }

/-- The scan from the first page on. -/
def rewind (scan : Scan) : Scan := start scan.file scan.txn

/-- The items on the `count` pages from `nextPage` on, up to and including the
first that `stop` holds of, and the scan as it is then. -/
def takePages (stop : Item → Bool) (file : HeapFile) (txn : TxnId) :
    (count : Nat) → (nextPage : UInt32) → Action (List Item × Scan)
  | 0, nextPage => return ([], { file, txn, nextPage, pending := [] })
  | count + 1, nextPage => do
    let (items, rest) ←
      match ← Action.attempt (Engine.getPage txn ⟨file.id, nextPage⟩ .read) with
      | .ok frame => pure (cut stop (frame.page.tuples.map .ok))
      | .error cause => pure (cut stop [.error cause])
    match rest with
    | some rest =>
      let pending := rest.filterMap Except.toOption
      return (items, { file, txn, nextPage := nextPage + 1, pending })
    | none =>
      let (more, scan) ← takePages stop file txn count (nextPage + 1)
      return (items ++ more, scan)

/-- The items up to and including the first that `stop` holds of, or all
that are left, and the scan as it is then. -/
def takeUntil (stop : Item → Bool) (scan : Scan) : Action (List Item × Scan) := do
  match cut stop (scan.pending.map .ok) with
  | (items, some rest) =>
    return (items, { scan with pending := rest.filterMap Except.toOption })
  | (items, none) =>
    let count ← Engine.pageCount scan.file
    let (more, scan) ←
      takePages stop scan.file scan.txn (count.toNat - scan.nextPage.toNat) scan.nextPage
    return (items ++ more, scan)

/-- The next item, if there is one. -/
def next (scan : Scan) : Action (Option Item × Scan) := do
  let (items, scan) ← scan.takeUntil fun _ => true
  return (items.head?, scan)

/-- All items that are left. -/
def rest (scan : Scan) : Action (List Item × Scan) := scan.takeUntil fun _ => false

instance : Source Action Scan where
  takeUntil := takeUntil
  rewind? scan := some scan.rewind

end Scan

/-! ## Scanning a table of the catalog -/

/-- A scan of a table under a label, which its schema shows. -/
structure TableScan where
  label : String
  table : TableId
  schema : Schema
  scan : Scan

namespace Engine

/-- Starts a scan of a table. Without a label of its own the scan goes
under the table's name. -/
def openScan (txn : TxnId) (table : TableId) (label : Option String) : Action TableScan := do
  let entry ← Action.ofExcept ((← get).catalog.entry table)
  let label := label.getD entry.name
  return {
    label, table
    schema := entry.file.schema.aliased label
    scan := .start entry.file txn }

end Engine

end HeapStore
