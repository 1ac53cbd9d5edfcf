import HeapStore.Text.Utf8

/-!
# Reading back what was written as UTF-8

The reader takes a written character off the front of any bytes, whatever
follows it (`Text.decodeFrom_utf8EncodeChar_append`), and so the whole of a
written text (`Text.decodeLossy_encode_append`).

A character is written in one to four bytes: its first byte holds the highest
bits of its number, each byte behind it six more. The bounds that the reader
sets on the second byte are those that the numbers of characters of that many
bytes have.
-/

namespace HeapStore

namespace Text

namespace Partial

/-! ## First bytes -/

theorem step_one : ∀ value < 128,
    step .none (UInt8.ofNat value) = ([Char.ofNat value], .none) := by
  decide +kernel

theorem step_first_of_two : ∀ top < 32, 2 ≤ top →
    step .none (UInt8.ofNat (top + 192)) = ([], .some top 0 0x80 0xBF) := by
  decide +kernel

theorem step_first_of_three : ∀ top < 16, step .none (UInt8.ofNat (top + 224))
    = ([], .some top 1 (if top = 0 then 0xA0 else 0x80) (if top = 13 then 0x9F else 0xBF)) := by
  decide +kernel

theorem step_first_of_four : ∀ top < 5, step .none (UInt8.ofNat (top + 240))
    = ([], .some top 2 (if top = 0 then 0x90 else 0x80) (if top = 4 then 0x8F else 0xBF)) := by
  decide +kernel

/-! ## Bytes behind the first -/

section Continuation

variable {value bits : Nat} {low high : UInt8} (hbits : bits < 64)
  (hlow : low.toNat ≤ bits + 128) (hhigh : bits + 128 ≤ high.toNat)

include hbits

theorem toNat_continuation : (UInt8.ofNat (bits + 128)).toNat = bits + 128 :=
  UInt8.toNat_ofNat_of_lt' (by simp [UInt8.size]; omega)

include hlow hhigh

theorem between_bounds : low ≤ UInt8.ofNat (bits + 128) ∧ UInt8.ofNat (bits + 128) ≤ high := by
  rw [UInt8.le_iff_toNat_le, UInt8.le_iff_toNat_le, toNat_continuation hbits]
  exact ⟨hlow, hhigh⟩

/-- A byte within the bounds adds six bits to what was read. -/
theorem step_more (missing : Nat) :
    step (.some value (missing + 1) low high) (UInt8.ofNat (bits + 128))
      = ([], .some (value * 64 + bits) missing 0x80 0xBF) := by
  simp only [step, if_pos (between_bounds hbits hlow hhigh), toNat_continuation hbits,
    Nat.add_sub_cancel]

/-- The last byte completes the character. -/
theorem step_last :
    step (.some value 0 low high) (UInt8.ofNat (bits + 128))
      = ([Char.ofNat (value * 64 + bits)], .none) := by
  simp only [step, if_pos (between_bounds hbits hlow hhigh), toNat_continuation hbits,
    Nat.add_sub_cancel]

end Continuation

end Partial

open Partial

/-! ## Characters of one to four bytes -/

theorem decodeFrom_cons_of_step {state next : Partial} {byte : UInt8} {chars : List Char}
    (hstep : state.step byte = (chars, next)) (rest : Bytes) :
    decodeFrom state (byte :: rest) = chars ++ decodeFrom next rest := by
  rw [decodeFrom, hstep]

theorem decodeFrom_one {value : Nat} (hvalue : value < 128) (rest : Bytes) :
    decodeFrom .none (UInt8.ofNat value :: rest)
      = Char.ofNat value :: decodeFrom .none rest :=
  decodeFrom_cons_of_step (step_one value hvalue) rest

section Longer

variable {top upper middle lower : Nat}

/-- Below 2048 there is a shorter form, and from 0xD800 to 0xDFFF there are no
characters. -/
theorem decodeFrom_two_of_three (hmiddle : middle < 64) (htop : top < 16)
    (hshortest : top = 0 → 32 ≤ middle) (hcharacter : top = 13 → middle < 32) (rest : Bytes) :
    decodeFrom .none (UInt8.ofNat (top + 224) :: UInt8.ofNat (middle + 128) :: rest)
      = decodeFrom (.some (top * 64 + middle) 0 0x80 0xBF) rest := by
  have hlow : (if top = 0 then (0xA0 : UInt8) else 0x80).toNat ≤ middle + 128 := by
    split
    · simp only [UInt8.reduceToNat]; omega
    · simp
  have hhigh : middle + 128 ≤ (if top = 13 then (0x9F : UInt8) else 0xBF).toNat := by
    split
    · simp only [UInt8.reduceToNat]; omega
    · simp only [UInt8.reduceToNat]; omega
  rw [decodeFrom_cons_of_step (step_first_of_three top htop), List.nil_append,
    decodeFrom_cons_of_step (step_more hmiddle hlow hhigh 0), List.nil_append]

/-- Below 0x10000 there is a shorter form, and from 0x110000 on there are no
characters. -/
theorem decodeFrom_two_of_four (hupper : upper < 64) (htop : top < 5)
    (hshortest : top = 0 → 16 ≤ upper) (hcharacter : top = 4 → upper < 16) (rest : Bytes) :
    decodeFrom .none (UInt8.ofNat (top + 240) :: UInt8.ofNat (upper + 128) :: rest)
      = decodeFrom (.some (top * 64 + upper) 1 0x80 0xBF) rest := by
  have hlow : (if top = 0 then (0x90 : UInt8) else 0x80).toNat ≤ upper + 128 := by
    split
    · simp only [UInt8.reduceToNat]; omega
    · simp
  have hhigh : upper + 128 ≤ (if top = 4 then (0x8F : UInt8) else 0xBF).toNat := by
    split
    · simp only [UInt8.reduceToNat]; omega
    · simp only [UInt8.reduceToNat]; omega
  rw [decodeFrom_cons_of_step (step_first_of_four top htop), List.nil_append,
    decodeFrom_cons_of_step (step_more hupper hlow hhigh 1), List.nil_append]

theorem decodeFrom_three_of_four (hmiddle : middle < 64) (hupper : upper < 64) (htop : top < 5)
    (hshortest : top = 0 → 16 ≤ upper) (hcharacter : top = 4 → upper < 16) (rest : Bytes) :
    decodeFrom .none
        (UInt8.ofNat (top + 240) :: UInt8.ofNat (upper + 128) :: UInt8.ofNat (middle + 128)
          :: rest)
      = decodeFrom (.some ((top * 64 + upper) * 64 + middle) 0 0x80 0xBF) rest := by
  rw [decodeFrom_two_of_four hupper htop hshortest hcharacter,
    decodeFrom_cons_of_step (step_more hmiddle (by simp) (by simp; omega) 0), List.nil_append]

section Last

variable (hlower : lower < 64)

include hlower

theorem decodeFrom_two (htop : 2 ≤ top ∧ top < 32) (rest : Bytes) :
    decodeFrom .none (UInt8.ofNat (top + 192) :: UInt8.ofNat (lower + 128) :: rest)
      = Char.ofNat (top * 64 + lower) :: decodeFrom .none rest := by
  rw [decodeFrom_cons_of_step (step_first_of_two top htop.2 htop.1), List.nil_append]
  exact decodeFrom_cons_of_step (step_last hlower (by simp) (by simp; omega)) rest

theorem decodeFrom_three (hmiddle : middle < 64) (htop : top < 16)
    (hshortest : top = 0 → 32 ≤ middle) (hcharacter : top = 13 → middle < 32) (rest : Bytes) :
    decodeFrom .none
        (UInt8.ofNat (top + 224) :: UInt8.ofNat (middle + 128) :: UInt8.ofNat (lower + 128) :: rest)
      = Char.ofNat ((top * 64 + middle) * 64 + lower) :: decodeFrom .none rest := by
  rw [decodeFrom_two_of_three hmiddle htop hshortest hcharacter]
  exact decodeFrom_cons_of_step (step_last hlower (by simp) (by simp; omega)) rest

theorem decodeFrom_four (hmiddle : middle < 64) (hupper : upper < 64) (htop : top < 5)
    (hshortest : top = 0 → 16 ≤ upper) (hcharacter : top = 4 → upper < 16) (rest : Bytes) :
    decodeFrom .none
        (UInt8.ofNat (top + 240) :: UInt8.ofNat (upper + 128) :: UInt8.ofNat (middle + 128)
          :: UInt8.ofNat (lower + 128) :: rest)
      = Char.ofNat (((top * 64 + upper) * 64 + middle) * 64 + lower)
        :: decodeFrom .none rest := by
  rw [decodeFrom_three_of_four hmiddle hupper htop hshortest hcharacter]
  exact decodeFrom_cons_of_step (step_last hlower (by simp) (by simp; omega)) rest

end Last

end Longer

/-! ## Characters and texts -/

/-- A written character is read back, and the bytes behind it are read as if
it had not been there. -/
theorem decodeFrom_utf8EncodeChar_append (c : Char) (rest : Bytes) :
    decodeFrom .none (String.utf8EncodeChar c ++ rest) = c :: decodeFrom .none rest := by
  have hvalid : c.toNat < 0xD800 ∨ 0xDFFF < c.toNat ∧ c.toNat < 0x110000 := c.valid
  have hc : Char.ofNat c.toNat = c := Char.ofNat_toNat c
  simp only [String.utf8EncodeChar, show c.val.toNat = c.toNat from rfl]
  generalize c.toNat = v at hvalid hc
  -- one case per number of bytes; the bits of each byte make up the number again
  split
  · refine (decodeFrom_one (by omega) rest).trans ?_
    rw [hc]
  split
  · refine (decodeFrom_two (by omega) (by omega) rest).trans ?_
    rw [show v / 64 % 32 * 64 + v % 64 = v by omega, hc]
  split
  · refine (decodeFrom_three (by omega) (by omega) (by omega) (by omega) (by omega) rest).trans ?_
    rw [show (v / 4096 % 16 * 64 + v / 64 % 64) * 64 + v % 64 = v by omega, hc]
  · refine (decodeFrom_four (by omega) (by omega) (by omega) (by omega) (by omega) (by omega)
      rest).trans ?_
    rw [show ((v / 262144 % 8 * 64 + v / 4096 % 64) * 64 + v / 64 % 64) * 64 + v % 64 = v
      by omega, hc]

theorem decodeLossy_encode_append (chars : List Char) (rest : Bytes) :
    decodeLossy (encode chars ++ rest) = chars ++ decodeLossy rest := by
  induction chars with
  | nil => rfl
  | cons c chars ih =>
      rw [encode, List.flatMap_cons, List.append_assoc, decodeLossy,
        decodeFrom_utf8EncodeChar_append]
      exact congrArg (c :: ·) ih

theorem decodeLossy_encode (chars : List Char) : decodeLossy (encode chars) = chars := by
  have happend := decodeLossy_encode_append chars []
  rwa [List.append_nil, decodeLossy, decodeLossy, decodeFrom, Partial.finish,
    List.append_nil] at happend

end Text

end HeapStore
