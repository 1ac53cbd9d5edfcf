import HeapStore.Bytes.Basic

/-!
# Byte sequences with holes

Who writes far behind the end of a file leaves a gap that reads as
zeroes. A `Sparse` sequence keeps the length of such a gap and not its
bytes: it is a list of runs, each of them bytes or a hole.

Main statements: `toBytes_append`, `toBytes_resize`, `toBytes_writeAt` and
`slice_eq` (each operation is the one on plain bytes), `length_eq`.
-/

namespace HeapStore

/-- A stretch of a byte sequence. -/
inductive Run where
  | bytes (data : Bytes)
  /-- So many zeroes. -/
  | hole (length : Nat)
deriving DecidableEq, Repr

namespace Run

/-- The bytes of a run. -/
def toBytes : Run → Bytes
  | bytes data => data
  | hole length => Bytes.zeros length

/-- The number of bytes of a run. -/
def length : Run → Nat
  | bytes data => data.length
  | hole length => length

/-- The first `n` bytes of a run. -/
def take (n : Nat) : Run → Run
  | bytes data => bytes (data.take n)
  | hole length => hole (min n length)

/-- A run without its first `n` bytes. -/
def drop (n : Nat) : Run → Run
  | bytes data => bytes (data.drop n)
  | hole length => hole (length - n)

@[simp] theorem length_toBytes (run : Run) : run.toBytes.length = run.length := by
  cases run <;> simp [toBytes, length]

@[simp] theorem toBytes_take (n : Nat) (run : Run) :
    (run.take n).toBytes = run.toBytes.take n := by
  cases run <;> simp [toBytes, take, Bytes.zeros]

@[simp] theorem toBytes_drop (n : Nat) (run : Run) :
    (run.drop n).toBytes = run.toBytes.drop n := by
  cases run <;> simp [toBytes, drop, Bytes.zeros]

end Run

/-- A byte sequence as runs, in order. -/
abbrev Sparse := List Run

namespace Sparse

/-- The sequence itself. -/
def toBytes (data : Sparse) : Bytes := data.flatMap Run.toBytes

/-- The number of bytes. -/
def length : Sparse → Nat
  | [] => 0
  | run :: rest => run.length + length rest

/-- The run of some bytes, if there are any. -/
def ofBytes (data : Bytes) : Sparse := if data.isEmpty then [] else [.bytes data]

/-- The run of some zeroes, if there are any. -/
def ofHole (length : Nat) : Sparse := if length = 0 then [] else [.hole length]

/-- The first `n` bytes. -/
def take : (n : Nat) → Sparse → Sparse
  | _, [] => []
  | n, run :: rest =>
    if n = 0 then []
    else if run.length ≤ n then run :: take (n - run.length) rest
    else [run.take n]

/-- All but the first `n` bytes. -/
def drop : (n : Nat) → Sparse → Sparse
  | _, [] => []
  | n, run :: rest =>
    if run.length ≤ n then drop (n - run.length) rest else run.drop n :: rest

/-- The bytes `offset, …, offset + count - 1`, or as many of them as
there are. -/
def slice (data : Sparse) (offset count : Nat) : Bytes := toBytes (take count (drop offset data))

/-- `data` with bytes added at the end. -/
def append (data : Sparse) (more : Bytes) : Sparse := data ++ ofBytes more

/-- `data` cut or zero-extended to exactly `n` bytes. -/
def resize (data : Sparse) (n : Nat) : Sparse := take n data ++ ofHole (n - length data)

/-- `data` with `patch` laid over it from `offset` on. -/
def writeAt (data : Sparse) (offset : Nat) (patch : Bytes) : Sparse :=
  append (resize data offset) patch ++ drop (offset + patch.length) data

/-! ## The plain bytes of each operation -/

@[simp] theorem toBytes_nil : toBytes [] = [] := rfl

@[simp] theorem toBytes_cons (run : Run) (rest : Sparse) :
    toBytes (run :: rest) = run.toBytes ++ toBytes rest := by
  simp [toBytes]

@[simp] theorem toBytes_concat (a b : Sparse) : toBytes (a ++ b) = toBytes a ++ toBytes b := by
  simp [toBytes]

@[simp] theorem toBytes_ofBytes (data : Bytes) : toBytes (ofBytes data) = data := by
  cases data <;> simp [ofBytes, Run.toBytes]

@[simp] theorem toBytes_ofHole (n : Nat) : toBytes (ofHole n) = Bytes.zeros n := by
  by_cases h : n = 0 <;> simp [ofHole, h, Run.toBytes, Bytes.zeros]

theorem length_eq (data : Sparse) : length data = (toBytes data).length := by
  induction data with
  | nil => rfl
  | cons run rest ih => simp [length, ← ih]

@[simp] theorem toBytes_take (n : Nat) (data : Sparse) :
    toBytes (take n data) = (toBytes data).take n := by
  induction data generalizing n with
  | nil => simp [take]
  | cons run rest ih =>
    unfold take
    split
    · simp [*]
    · split
      · simp [List.take_append, List.take_of_length_le, *]
      · have h : n - run.length = 0 := by omega
        simp [List.take_append, h]

@[simp] theorem toBytes_drop (n : Nat) (data : Sparse) :
    toBytes (drop n data) = (toBytes data).drop n := by
  induction data generalizing n with
  | nil => simp [drop]
  | cons run rest ih =>
    unfold drop
    split
    · simp [List.drop_append, List.drop_of_length_le, *]
    · have h : n - run.length = 0 := by omega
      simp [List.drop_append, h]

theorem slice_eq (data : Sparse) (offset count : Nat) :
    slice data offset count = Bytes.slice (toBytes data) offset count := by
  simp [slice, Bytes.slice]

@[simp] theorem toBytes_append (data : Sparse) (more : Bytes) :
    toBytes (append data more) = toBytes data ++ more := by
  simp [append]

@[simp] theorem toBytes_resize (data : Sparse) (n : Nat) :
    toBytes (resize data n) = Bytes.resize (toBytes data) n := by
  simp [resize, Bytes.resize, length_eq]

@[simp] theorem toBytes_writeAt (data : Sparse) (offset : Nat) (patch : Bytes) :
    toBytes (writeAt data offset patch) = Bytes.writeAt (toBytes data) offset patch := by
  simp [writeAt, Bytes.writeAt, Bytes.resize]

end Sparse

end HeapStore
