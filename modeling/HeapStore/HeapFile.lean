import HeapStore.Bytes.Crc32
import HeapStore.Disk
import HeapStore.Page

/-!
# Heap files

A heap file holds the tuples of one table, in no order, on the pages of
one file. Its table is identified by the checksum of the file's absolute
path (`HeapFile.idOfPath`), so a file keeps its identity however often
it is opened, and two files may happen to share one.

This file covers whole pages: reading, writing and appending them behind
the buffer pool's back. Inserting, deleting and scanning go through the
pool and are in `HeapStore.HeapFile.Edit` and `HeapStore.HeapFile.Scan`.

Main statements: `id_of_readPage` (a page that was read is the page asked
for) and `schema_of_readPage`.
-/

namespace HeapStore

/-- A file of pages that hold tuples of one schema. -/
structure HeapFile where
  handle : FileHandle
  absolutePath : String
  id : TableId
  schema : Schema
deriving DecidableEq, Repr

namespace HeapFile

/-- The identity of the table in the file at an absolute path. -/
def idOfPath (absolutePath : String) : TableId := ⟨crc32 (Text.utf8 absolutePath)⟩

/-- Opens the heap file at a path, making an empty one if there is none. -/
def openFile (disk : Disk) (path : String) (schema : Schema) (pageSize : Nat) :
    Except Error (HeapFile × Disk) := do
  let (handle, disk) ← disk.openFile path pageSize
  let absolutePath := disk.root ++ "/" ++ handle.name
  return ({ handle, absolutePath, id := idOfPath absolutePath, schema }, disk)

/-- The size of the file's pages. -/
def pageSize (file : HeapFile) : Nat := file.handle.pageSize

/-- The number of whole pages in the file. -/
def pageCount (file : HeapFile) (disk : Disk) : Except Failure UInt32 :=
  disk.pageCount file.handle

/-- A page of the file without tuples, if there is memory for one. -/
def emptyPage (file : HeapFile) (page : UInt32) : Except Failure Page :=
  if file.pageSize > Bytes.maxLength then .error (.violation (.tooLarge file.pageSize))
  else .ok (.ofBytes ⟨file.id, page⟩ file.schema (Bytes.zeros file.pageSize))

/-- Reads a page, which must be one of this file's. -/
def readPage (file : HeapFile) (disk : Disk) (id : PageId) : Except Failure (Page × Disk) :=
  if id.table ≠ file.id then .error (.error (.pageNotFound id))
  else do
    let count ← file.pageCount disk
    if count ≤ id.page then .error (.error (.pageNotFound id))
    else
      let (data, disk) ← disk.readPage file.handle id.page file.pageSize
      return (.ofBytes id file.schema data, disk)

/-- Writes a page to the place its number names. -/
def writePage (file : HeapFile) (disk : Disk) (page : Page) : Except Failure Disk :=
  disk.writePage file.handle page.id.page page.data

/-- Adds a page of zeroes behind the last whole page. -/
def appendPage (file : HeapFile) (disk : Disk) : Except Failure (PageId × Disk) := do
  let count ← file.pageCount disk
  let disk ← file.writePage disk (← file.emptyPage count)
  return (⟨file.id, count⟩, disk)

theorem eq_ofBytes_of_readPage {file : HeapFile} {disk disk' : Disk} {id : PageId} {page : Page}
    (h : file.readPage disk id = .ok (page, disk')) :
    ∃ data, page = .ofBytes id file.schema data ∧
      disk.readPage file.handle id.page file.pageSize = .ok (data, disk') := by
  unfold readPage at h
  split at h
  · simp at h
  · cases hc : file.pageCount disk with
    | error e => simp [hc, bind, Except.bind] at h
    | ok count =>
      simp only [hc, bind, Except.bind] at h
      split at h
      · simp at h
      · cases hr : disk.readPage file.handle id.page file.pageSize with
        | error e => simp [hr] at h
        | ok r =>
          simp only [hr, pure, Except.pure, Except.ok.injEq, Prod.mk.injEq] at h
          exact ⟨r.1, h.1.symm, by rw [← h.2]⟩

theorem id_of_readPage {file : HeapFile} {disk disk' : Disk} {id : PageId} {page : Page}
    (h : file.readPage disk id = .ok (page, disk')) : page.id = id := by
  obtain ⟨data, rfl, -⟩ := eq_ofBytes_of_readPage h
  rfl

theorem schema_of_readPage {file : HeapFile} {disk disk' : Disk} {id : PageId} {page : Page}
    (h : file.readPage disk id = .ok (page, disk')) : page.schema = file.schema := by
  obtain ⟨data, rfl, -⟩ := eq_ofBytes_of_readPage h
  rfl

end HeapFile

end HeapStore
