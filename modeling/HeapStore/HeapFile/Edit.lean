import HeapStore.Engine

/-!
# Inserting and deleting

A tuple goes into the first free slot of the first page that has one
(`HeapFile.insert`). Looking for it takes a shared lock on each page; the
lock on a full page is given back, unless the transaction held the page
before. When all pages are full, a page is appended.

A page that was appended to the file may still be in the pool from an
earlier life of the file, and be full. Or the catalog has the table with
pages of another size, so that a page of this number was there before.
Then another page is appended (`HeapFile.insertBehind`). Each try adds a
page to the file, so there are no more tries than page numbers
(`HeapFile.retryBound`).

`Engine.insert` and `Engine.delete` do the same for a table of the
catalog. The changed page is resident, most recently used and marked with
the transaction, so nothing remains to be done when it is handed back.
-/

namespace HeapStore

namespace HeapFile

open Engine (getPage)

/-! ## Inserting -/

/-- Inserts into a page that the transaction has for itself. Yields the
page as it is then, and the tuple with its address. -/
def insertInto (frame : Frame) (txn : TxnId) (tuple : Tuple) : Action (Frame × Tuple) := do
  let (record, page) ← Action.ofExcept (frame.page.insert tuple)
  let page := page.markDirty txn
  Engine.updatePool (·.store page)
  return ({ frame with page }, tuple.withRecord (some record))

/-- Inserts into the first page with room among the `count` pages from
`next` on, if there is one. -/
def insertWithin (file : HeapFile) (txn : TxnId) (tuple : Tuple) :
    (count : Nat) → (next : UInt32) → Action (Option (Frame × Tuple))
  | 0, _ => return none
  | count + 1, next => do
    let page : PageId := ⟨file.id, next⟩
    let held ← Engine.holds txn page
    let frame ← getPage txn page .read
    if frame.page.freeCount > 0 then
      let frame ← getPage txn page .write
      return some (← insertInto frame txn tuple)
    else
      if !held then Engine.release txn page
      insertWithin file txn tuple count (next + 1)

/-- Appends a page and inserts there. -/
def insertAppended (file : HeapFile) (txn : TxnId) (tuple : Tuple) : Action (Frame × Tuple) := do
  let page ← Engine.appendPage file
  let frame ← getPage txn page .write
  insertInto frame txn tuple

/-- Appends pages until one has room, and inserts there. After `retries`
full pages the refusal of the next one stands. -/
def insertBehind (file : HeapFile) (txn : TxnId) (tuple : Tuple) :
    (retries : Nat) → Action (Frame × Tuple)
  | 0 => insertAppended file txn tuple
  | retries + 1 => do
    match ← Action.attempt (insertAppended file txn tuple) with
    | .ok answer => return answer
    | .error (.pageFull _) => insertBehind file txn tuple retries
    | .error cause => Action.refuse cause

/-- The number of pages that may be found full after they were appended. -/
def retryBound : Nat := UInt32.size

/-- Inserts a tuple into the file. Yields the changed page and the tuple
with its address. -/
def insert (file : HeapFile) (txn : TxnId) (tuple : Tuple) : Action (Frame × Tuple) := do
  if tuple.schema.agrees file.schema = false then
    Action.refuse (.schemaMismatch (.otherTable tuple.schema file.schema))
  else
    let count ← Engine.pageCount file
    match ← insertWithin file txn tuple count.toNat 0 with
    | some answer => return answer
    | none => insertBehind file txn tuple retryBound

/-! ## Deleting -/

/-- Deletes the tuple at an address. Yields the changed page. -/
def delete (file : HeapFile) (txn : TxnId) (record : Option RecordId) : Action Frame := do
  match record with
  | none => Action.refuse .invalidRecordId
  | some record =>
    if record.page.table ≠ file.id then Action.refuse (.tupleNotFound record)
    else
      let frame ← getPage txn record.page .write
      let page ← Action.ofExcept (frame.page.delete (some record))
      let page := page.markDirty txn
      Engine.updatePool (·.store page)
      return { frame with page }

end HeapFile

namespace Engine

/-- Inserts a tuple into a table. Yields the tuple with its address. -/
def insert (txn : TxnId) (table : TableId) (tuple : Tuple) : Action Tuple := do
  let file ← fileOf table
  let (_, tuple) ← file.insert txn tuple
  return tuple

/-- Deletes the tuple at an address from the table that the address
names. -/
def delete (txn : TxnId) (record : Option RecordId) : Action Unit := do
  match record with
  | none => Action.refuse .invalidRecordId
  | some record =>
    let file ← fileOf record.page.table
    let _ ← file.delete txn (some record)

end Engine

end HeapStore
