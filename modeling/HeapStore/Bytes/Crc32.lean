import HeapStore.Bytes.Basic

/-!
# The CRC-32 checksum

Table identifiers are checksums of file paths. The checksum is the
common 32-bit cyclic redundancy check: the reflected polynomial
`0xEDB88320`, a register that starts with all bits set and is inverted
at the end, bytes taken with their lowest bit first.

Main statement: `register_append` (the register after a concatenation is
the register carried on), the reason why two texts of one length that
collide keep colliding behind any common beginning.
-/

namespace HeapStore

namespace Crc32

/-- One bit of polynomial division: shift, and subtract the polynomial
if a set bit fell out. -/
def shiftBit (register : UInt32) : UInt32 :=
  if register &&& 1 = 1 then (register >>> 1) ^^^ 0xEDB88320 else register >>> 1

/-- The register after one more byte. -/
def shiftByte (register : UInt32) (byte : UInt8) : UInt32 :=
  (shiftBit ∘ shiftBit ∘ shiftBit ∘ shiftBit ∘ shiftBit ∘ shiftBit ∘ shiftBit ∘ shiftBit)
    (register ^^^ byte.toUInt32)

/-- The register after all of `data`. -/
def register (start : UInt32) (data : Bytes) : UInt32 := data.foldl shiftByte start

end Crc32

/-- The checksum of `data`. -/
def crc32 (data : Bytes) : UInt32 := Crc32.register 0xFFFFFFFF data ^^^ 0xFFFFFFFF

namespace Crc32

theorem register_append (start : UInt32) (a b : Bytes) :
    register start (a ++ b) = register (register start a) b := by
  simp [register]

/-- The check value of the standard: the checksum of the digits one to
nine. -/
example : crc32 [0x31, 0x32, 0x33, 0x34, 0x35, 0x36, 0x37, 0x38, 0x39] = 0xCBF43926 := by
  decide +kernel

end Crc32

end HeapStore
