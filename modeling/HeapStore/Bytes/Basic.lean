/-!
# Byte sequences

Pages, files and logs all hold plain bytes. This file fixes the one
representation the library uses for them - a list, so that every layout
fact is a fact about `take`, `drop` and `++` - and the three ways in
which stored bytes change: a patch written at an offset, a resize, and a
gap that is filled with zeroes.

Main statements: `length_writeAt` (a write extends its target only as
far as it reaches), `slice_writeAt` (what was written is read back) and
`getElem?_writeAt_of_lt` (nothing before the patch changes).
-/

namespace HeapStore

/-- The contents of a page, a file or a log record. -/
abbrev Bytes := List UInt8

namespace Bytes

/-- The most bytes that a buffer in memory or a file can have. -/
def maxLength : Nat := UInt64.size / 2 - 1

/-- A run of `n` zero bytes. -/
def zeros (n : Nat) : Bytes := List.replicate n 0

/-- The bytes `offset, …, offset + count - 1`, or as many of them as
there are. -/
def slice (data : Bytes) (offset count : Nat) : Bytes :=
  (data.drop offset).take count

/-- `data` with `patch` laid over it from `offset` on. A patch that
starts beyond the end leaves a gap, which reads as zeroes. -/
def writeAt (data : Bytes) (offset : Nat) (patch : Bytes) : Bytes :=
  data.take offset ++ zeros (offset - data.length) ++ patch
    ++ data.drop (offset + patch.length)

/-- `data` cut or zero-extended to exactly `n` bytes. -/
def resize (data : Bytes) (n : Nat) : Bytes :=
  data.take n ++ zeros (n - data.length)

/-! ## Lengths -/

@[simp] theorem length_zeros (n : Nat) : (zeros n).length = n := by
  simp [zeros]

@[simp] theorem length_resize (data : Bytes) (n : Nat) :
    (resize data n).length = n := by
  simp [resize]; omega

theorem length_writeAt (data : Bytes) (offset : Nat) (patch : Bytes) :
    (writeAt data offset patch).length
      = max data.length (offset + patch.length) := by
  simp [writeAt]; omega

theorem length_slice (data : Bytes) (offset count : Nat) :
    (slice data offset count).length = min count (data.length - offset) := by
  simp [slice]

/-! ## What a write leaves behind -/

/-- The patch is read back where it was written. -/
theorem slice_writeAt (data : Bytes) (offset : Nat) (patch : Bytes) :
    slice (writeAt data offset patch) offset patch.length = patch := by
  have h : (data.take offset ++ zeros (offset - data.length)).length = offset := by
    simp; omega
  simp only [slice, writeAt]
  rw [List.append_assoc, List.drop_append_of_le_length (by omega),
    List.drop_of_length_le (by omega), List.nil_append]
  simp

/-- Bytes in front of the patch stay, up to the old end of the data. -/
theorem getElem?_writeAt_of_lt (data : Bytes) (offset : Nat) (patch : Bytes)
    {i : Nat} (hi : i < offset) (hd : i < data.length) :
    (writeAt data offset patch)[i]? = data[i]? := by
  simp only [writeAt, List.append_assoc]
  rw [List.getElem?_append_left (by simp; omega)]
  simp [hi]

/-- Bytes behind the patch stay. -/
theorem getElem?_writeAt_of_le (data : Bytes) (offset : Nat) (patch : Bytes)
    {i : Nat} (hi : offset + patch.length ≤ i) :
    (writeAt data offset patch)[i]? = data[i]? := by
  have h : (data.take offset ++ zeros (offset - data.length) ++ patch).length
      = offset + patch.length := by
    simp; omega
  simp only [writeAt]
  rw [List.getElem?_append_right (by omega), h, List.getElem?_drop]
  congr 1
  omega

end Bytes

end HeapStore
