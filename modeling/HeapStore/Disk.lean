import HeapStore.Bytes.Sparse
import HeapStore.Error
import HeapStore.Text.Split
import Std.Data.ExtTreeMap

/-!
# Files of pages

The storage below the engine: one flat directory of files (`Disk`), and
handles through which a file is read and written in pages of one size
(`FileHandle`). Several handles may be open on one file; each has a page
size of its own and counts its own page reads and writes (`Traffic`).

Page `n` of a handle are the bytes from `n` times its page size on. A
page can be read when the file holds all of its bytes; a page can always
be written, and the file grows as far as the write needs, with zeroes in
a gap.

A path leads through directories (`Disk.walk`) to a file
(`Disk.locate`). The directory of the files stands in others, of which
nothing is known but that they are there.

Main statements: `content_writePage` (a write patches the content of one
file), `content_readPage` (a read changes none) and `readPage_writePage`
(what was written is read back).
-/

namespace HeapStore

/-- How often pages were read and written through a handle. -/
structure Traffic where
  reads : UInt32
  writes : UInt32
deriving DecidableEq, Repr, Inhabited

/-- Access to one file in pages of one size. -/
structure FileHandle where
  /-- Which of the handles opened so far this is. -/
  number : Nat
  /-- The path the file was opened by. -/
  path : String
  /-- The file's name in the directory. -/
  name : String
  pageSize : Nat
deriving DecidableEq, Repr

/-- A directory of files, and the traffic of every handle opened in it. -/
structure Disk where
  /-- The absolute path of the directory. -/
  root : String
  files : Std.ExtTreeMap String Sparse
  /-- By number of handle. -/
  traffic : List Traffic

namespace Disk

/-- An empty directory. -/
def empty (root : String) : Disk := { root, files := ∅, traffic := [] }

/-! ## Files -/

/-- The content of a file, with its holes; a file that does not exist has
none. -/
def sparse (disk : Disk) (name : String) : Sparse := disk.files[name]?.getD []

/-- The content of a file. -/
def content (disk : Disk) (name : String) : Bytes := (disk.sparse name).toBytes

/-- The content of a file, if it exists. -/
def content? (disk : Disk) (name : String) : Option Bytes :=
  disk.files[name]?.map Sparse.toBytes

/-- Replaces the content of a file, or makes a file with that content. -/
def putSparse (disk : Disk) (name : String) (data : Sparse) : Disk :=
  { disk with files := disk.files.insert name data }

/-- Replaces the content of a file by bytes without holes. -/
def put (disk : Disk) (name : String) (data : Bytes) : Disk := disk.putSparse name (.ofBytes data)

/-- Adds bytes to the end of a file. -/
def append (disk : Disk) (name : String) (data : Bytes) : Disk :=
  disk.putSparse name ((disk.sparse name).append data)

/-- Cuts or zero-extends a file to a length. -/
def resize (disk : Disk) (name : String) (length : Nat) : Disk :=
  disk.putSparse name ((disk.sparse name).resize length)

/-! ## Paths -/

/-- The longest name of a file, in bytes. -/
def maxNameLength : Nat := 255

/-- The longest absolute path, in bytes. -/
def maxPathLength : Nat := 4095

/-- The step that leads nowhere. -/
def dot : List Char := ['.']

/-- The step to the directory around this one. -/
def dotDot : List Char := ['.', '.']

/-- Whether a name is too long for a file. -/
def isLong (name : List Char) : Bool := (Text.encode name).length > maxNameLength

/-- Follows steps that have to lead to a directory. They start outside the
directory of the files or in it; yields whether they end outside. There
is no directory to go down to. -/
def walk (disk : Disk) : (outside : Bool) → List (List Char) → Except IoError Bool
  | outside, [] => .ok outside
  | outside, step :: rest =>
    if step = dot then disk.walk outside rest
    else if step = dotDot then disk.walk true rest
    else if isLong step then .error .invalidFilename
    else if !outside && disk.files.contains (String.ofList step) then .error .notADirectory
    else .error .notFound

/-- The file that a path names. A path starts in the directory, unless it
starts with a slash. Empty steps lead nowhere. All steps but the last have
to lead to a directory. The last one names the file: it is none if it
leads to a directory, or if a slash says that it should. -/
def locate (disk : Disk) (path : String) : Except IoError String := do
  let pieces := Text.splitAt '/' path.toList
  let steps := pieces.filter (· ≠ [])
  let absolute := path.toList.head? = some '/'
  let whole := if absolute then path else disk.root ++ "/" ++ path
  if path.toList.contains '\x00' then throw .nulByte
  if (Text.utf8 whole).length > maxPathLength then throw .invalidFilename
  let outside ← disk.walk absolute steps.dropLast
  let name := steps.getLast?.getD dot
  if name = dot ∨ name = dotDot ∨ pieces.getLast? = some [] then throw .isADirectory
  if isLong name then throw .invalidFilename
  if outside then throw .notFound
  return String.ofList name

/-! ## Pages -/

/-- Opens the file at a path, making an empty one if there is none. -/
def openFile (disk : Disk) (path : String) (pageSize : Nat) :
    Except Error (FileHandle × Disk) :=
  match disk.locate path with
  | .error cause => .error (.io cause)
  | .ok name =>
    .ok ({ number := disk.traffic.length, path, name, pageSize },
      { disk with
        files := disk.files.insertIfNew name []
        traffic := disk.traffic ++ [⟨0, 0⟩] })

/-- The traffic of a handle. -/
def trafficOf (disk : Disk) (handle : FileHandle) : Traffic :=
  disk.traffic.getD handle.number ⟨0, 0⟩

/-- Notes a page read. -/
def countRead (disk : Disk) (handle : FileHandle) : Disk :=
  { disk with
    traffic := disk.traffic.modify handle.number fun t => { t with reads := t.reads + 1 } }

/-- Notes a page write. -/
def countWrite (disk : Disk) (handle : FileHandle) : Disk :=
  { disk with
    traffic := disk.traffic.modify handle.number fun t => { t with writes := t.writes + 1 } }

/-- The position of a page's first byte. -/
def pageOffset (handle : FileHandle) (page : UInt32) : Nat := page.toNat * handle.pageSize

/-- The number of whole pages in the file. -/
def pageCount (disk : Disk) (handle : FileHandle) : Except Failure UInt32 :=
  if handle.pageSize = 0 then .error (.violation .zeroPageSize)
  else .ok ((disk.sparse handle.name).length / handle.pageSize).toUInt32

/-- Why a page cannot be read that the file does not hold whole: there are
not enough bytes at its position, or there is no such position. There is
no buffer for a page that no file can hold, and a position that takes more
than 64 bits cannot be computed. -/
def missing (handle : FileHandle) (page : UInt32) : Failure :=
  let offset := pageOffset handle page
  if handle.pageSize > Bytes.maxLength then .violation (.tooLarge handle.pageSize)
  else if offset ≥ UInt64.size then .violation (.tooLarge offset)
  else if offset > Bytes.maxLength then .error (.io .invalidOffset)
  else .error (.io .unexpectedEof)

/-- Reads a page into a buffer of `size` bytes, which must be the page
size. A page that the file does not hold whole is not read. -/
def readPage (disk : Disk) (handle : FileHandle) (page : UInt32) (size : Nat) :
    Except Failure (Bytes × Disk) :=
  if size ≠ handle.pageSize then .error (.violation (.bufferSize handle.pageSize size))
  else
    let data := (disk.sparse handle.name).slice (pageOffset handle page) handle.pageSize
    if data.length < handle.pageSize then .error (missing handle page)
    else .ok (data, disk.countRead handle)

/-- Writes a page, which must have the page size. -/
def writePage (disk : Disk) (handle : FileHandle) (page : UInt32) (data : Bytes) :
    Except Failure Disk :=
  if data.length ≠ handle.pageSize then
    .error (.violation (.bufferSize handle.pageSize data.length))
  else
    let content := (disk.sparse handle.name).writeAt (pageOffset handle page) data
    .ok ((disk.putSparse handle.name content).countWrite handle)

/-! ## Contents after an operation -/

@[simp] theorem content_putSparse_self (disk : Disk) (name : String) (data : Sparse) :
    (disk.putSparse name data).content name = data.toBytes := by
  simp [putSparse, content, sparse]

theorem content_putSparse_of_ne (disk : Disk) {name other : String} (data : Sparse)
    (h : other ≠ name) : (disk.putSparse name data).content other = disk.content other := by
  simp [putSparse, content, sparse, Std.ExtTreeMap.getElem?_insert, Ne.symm h]

@[simp] theorem content_put_self (disk : Disk) (name : String) (data : Bytes) :
    (disk.put name data).content name = data := by
  simp [put]

theorem length_sparse (disk : Disk) (name : String) :
    (disk.sparse name).length = (disk.content name).length := Sparse.length_eq _

theorem slice_sparse (disk : Disk) (name : String) (offset count : Nat) :
    (disk.sparse name).slice offset count = Bytes.slice (disk.content name) offset count :=
  Sparse.slice_eq ..

@[simp] theorem content_countRead (disk : Disk) (handle : FileHandle) (name : String) :
    (disk.countRead handle).content name = disk.content name := rfl

@[simp] theorem content_countWrite (disk : Disk) (handle : FileHandle) (name : String) :
    (disk.countWrite handle).content name = disk.content name := rfl

theorem content_readPage {disk disk' : Disk} {handle : FileHandle} {page : UInt32}
    {size : Nat} {data : Bytes} (h : disk.readPage handle page size = .ok (data, disk'))
    (name : String) : disk'.content name = disk.content name := by
  unfold readPage at h
  split at h
  · simp at h
  · dsimp only at h
    split at h
    · simp at h
    · simp only [Except.ok.injEq, Prod.mk.injEq] at h
      rw [← h.2, content_countRead]

theorem content_writePage {disk disk' : Disk} {handle : FileHandle} {page : UInt32}
    {data : Bytes} (h : disk.writePage handle page data = .ok disk') :
    disk'.content handle.name
      = Bytes.writeAt (disk.content handle.name) (pageOffset handle page) data := by
  unfold writePage at h
  split at h
  · simp at h
  · simp only [Except.ok.injEq] at h
    rw [← h, content_countWrite, content_putSparse_self, Sparse.toBytes_writeAt, content]

theorem content_writePage_of_ne {disk disk' : Disk} {handle : FileHandle} {page : UInt32}
    {data : Bytes} (h : disk.writePage handle page data = .ok disk') {name : String}
    (hne : name ≠ handle.name) : disk'.content name = disk.content name := by
  unfold writePage at h
  split at h
  · cases h
  · cases h
    rw [content_countWrite, content_putSparse_of_ne _ _ hne]

theorem exists_writePage {handle : FileHandle} {data : Bytes}
    (h : data.length = handle.pageSize) (disk : Disk) (page : UInt32) :
    ∃ disk', disk.writePage handle page data = .ok disk' := by
  rw [writePage, if_neg (Decidable.not_not.2 h)]
  exact ⟨_, rfl⟩

theorem length_of_writePage {disk disk' : Disk} {handle : FileHandle} {page : UInt32}
    {data : Bytes} (h : disk.writePage handle page data = .ok disk') :
    data.length = handle.pageSize := by
  unfold writePage at h
  split at h
  · cases h
  · rename_i hlength
    exact Decidable.not_not.1 hlength

/-- A page reads back as it was written. -/
theorem readPage_writePage {disk disk' : Disk} {handle : FileHandle} {page : UInt32}
    {data : Bytes} (h : disk.writePage handle page data = .ok disk') :
    disk'.readPage handle page handle.pageSize = .ok (data, disk'.countRead handle) := by
  simp only [readPage, slice_sparse, content_writePage h, ← length_of_writePage h,
    Bytes.slice_writeAt]
  simp

end Disk

end HeapStore
