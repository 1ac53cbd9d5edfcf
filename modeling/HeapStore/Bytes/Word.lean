import HeapStore.Bytes.Basic

/-!
# Words as bytes

Every number on a page or in the log is stored with its least
significant byte first. A word is written by `ofWord32` or `ofWord64`
and taken off the front of a buffer by `takeWord32?` or `takeWord64?`,
which fail, taking nothing, when fewer bytes are left than the word is
wide.

Main statements: `takeWord32?_ofWord32_append` and
`takeWord64?_ofWord64_append` (what is written is taken back, and the
rest is left as it was), `takeWord32?_eq_some_iff` and
`takeWord64?_eq_some_iff` (and nothing else is taken for a word).
-/

namespace HeapStore

namespace Bytes

/-! ## 32 bits -/

/-- The four bytes of `w`, least significant first. -/
def ofWord32 (w : UInt32) : Bytes :=
  [w.toUInt8, (w >>> 8).toUInt8, (w >>> 16).toUInt8, (w >>> 24).toUInt8]

/-- The word with the bytes `b0` (least significant) to `b3`. -/
def word32 (b0 b1 b2 b3 : UInt8) : UInt32 :=
  b0.toUInt32 ||| b1.toUInt32 <<< 8 ||| b2.toUInt32 <<< 16 ||| b3.toUInt32 <<< 24

/-- The word at the front of a buffer, and what follows it. -/
def takeWord32? : Bytes → Option (UInt32 × Bytes)
  | b0 :: b1 :: b2 :: b3 :: rest => some (word32 b0 b1 b2 b3, rest)
  | _ => none

@[simp] theorem length_ofWord32 (w : UInt32) : (ofWord32 w).length = 4 := rfl

/-! ## 64 bits -/

/-- The eight bytes of `w`: its lower half, then its upper half. -/
def ofWord64 (w : UInt64) : Bytes :=
  ofWord32 w.toUInt32 ++ ofWord32 (w >>> 32).toUInt32

/-- The word at the front of a buffer, and what follows it. -/
def takeWord64? (data : Bytes) : Option (UInt64 × Bytes) := do
  let (lower, data) ← takeWord32? data
  let (upper, data) ← takeWord32? data
  return (lower.toUInt64 ||| upper.toUInt64 <<< 32, data)

@[simp] theorem length_ofWord64 (w : UInt64) : (ofWord64 w).length = 8 := rfl

/-! ## Writing, then reading -/

theorem word32_ofWord32 (w : UInt32) :
    word32 w.toUInt8 (w >>> 8).toUInt8 (w >>> 16).toUInt8 (w >>> 24).toUInt8 = w := by
  apply UInt32.eq_of_toBitVec_eq
  simp only [word32, UInt32.toBitVec_or, UInt32.toBitVec_shiftLeft, UInt8.toBitVec_toUInt32,
    UInt32.toBitVec_toUInt8, UInt32.toBitVec_shiftRight]
  ext i hi
  simp
  grind

theorem takeWord32?_ofWord32_append (w : UInt32) (rest : Bytes) :
    takeWord32? (ofWord32 w ++ rest) = some (w, rest) := by
  simp [ofWord32, takeWord32?, word32_ofWord32]

theorem bitVec_halves (w : BitVec 64) :
    (w.setWidth 32).setWidth 64 ||| ((w >>> 32).setWidth 32).setWidth 64 <<< 32 = w := by
  apply BitVec.eq_of_getLsbD_eq
  intro i hi
  simp only [BitVec.getLsbD_or, BitVec.getLsbD_shiftLeft, BitVec.getLsbD_setWidth,
    BitVec.getLsbD_ushiftRight]
  by_cases h : i < 32
  · simp [h, hi]
  · have h1 : i - 32 < 32 := by omega
    have h2 : 32 + (i - 32) = i := by omega
    have h3 : i - 32 < 64 := by omega
    simp [h, hi, h1, h2, h3]

theorem word64_halves (w : UInt64) :
    w.toUInt32.toUInt64 ||| (w >>> 32).toUInt32.toUInt64 <<< 32 = w := by
  apply UInt64.toBitVec_inj.1
  rw [UInt64.toBitVec_or, UInt64.toBitVec_shiftLeft, UInt32.toBitVec_toUInt64,
    UInt64.toBitVec_toUInt32, UInt32.toBitVec_toUInt64, UInt64.toBitVec_toUInt32,
    UInt64.toBitVec_shiftRight]
  exact bitVec_halves w.toBitVec

theorem takeWord64?_ofWord64_append (w : UInt64) (rest : Bytes) :
    takeWord64? (ofWord64 w ++ rest) = some (w, rest) := by
  simp only [ofWord64, List.append_assoc, takeWord64?, takeWord32?_ofWord32_append,
    Option.bind_eq_bind, Option.bind_some, word64_halves]
  rfl

/-! ## Reading, then writing -/

theorem ofWord32_word32 (b0 b1 b2 b3 : UInt8) :
    ofWord32 (word32 b0 b1 b2 b3) = [b0, b1, b2, b3] := by
  simp only [ofWord32, List.cons.injEq, and_true, ← UInt8.toBitVec_inj, word32,
    UInt32.toBitVec_or, UInt32.toBitVec_shiftLeft, UInt8.toBitVec_toUInt32,
    UInt32.toBitVec_toUInt8, UInt32.toBitVec_shiftRight]
  refine ⟨?_, ?_, ?_, ?_⟩ <;> ext i hi
  · simp
  · simp; grind
  · simp; grind
  · simp; grind

theorem bitVec_lower (lower upper : BitVec 32) :
    (lower.setWidth 64 ||| upper.setWidth 64 <<< 32).setWidth 32 = lower := by
  ext i hi
  simp

theorem bitVec_upper (lower upper : BitVec 32) :
    ((lower.setWidth 64 ||| upper.setWidth 64 <<< 32) >>> 32).setWidth 32 = upper := by
  apply BitVec.eq_of_getLsbD_eq
  intro i hi
  have h1 : 32 + i < 64 := by omega
  have h2 : 32 + i - 32 = i := by omega
  have h3 : i < 64 := by omega
  simp [hi, h1, h2, h3]

theorem ofWord64_halves (lower upper : UInt32) :
    ofWord64 (lower.toUInt64 ||| upper.toUInt64 <<< 32) = ofWord32 lower ++ ofWord32 upper := by
  have hlower : (lower.toUInt64 ||| upper.toUInt64 <<< 32).toUInt32 = lower := by
    apply UInt32.toBitVec_inj.1
    rw [UInt64.toBitVec_toUInt32, UInt64.toBitVec_or, UInt64.toBitVec_shiftLeft,
      UInt32.toBitVec_toUInt64, UInt32.toBitVec_toUInt64]
    exact bitVec_lower lower.toBitVec upper.toBitVec
  have hupper : ((lower.toUInt64 ||| upper.toUInt64 <<< 32) >>> 32).toUInt32 = upper := by
    apply UInt32.toBitVec_inj.1
    rw [UInt64.toBitVec_toUInt32, UInt64.toBitVec_shiftRight, UInt64.toBitVec_or,
      UInt64.toBitVec_shiftLeft, UInt32.toBitVec_toUInt64, UInt32.toBitVec_toUInt64]
    exact bitVec_upper lower.toBitVec upper.toBitVec
  rw [ofWord64, hlower, hupper]

theorem takeWord32?_eq_some_iff {data rest : Bytes} {w : UInt32} :
    takeWord32? data = some (w, rest) ↔ data = ofWord32 w ++ rest := by
  constructor
  · intro h
    unfold takeWord32? at h
    split at h
    · cases h
      rw [ofWord32_word32]
      rfl
    · cases h
  · rintro rfl
    exact takeWord32?_ofWord32_append w rest

theorem takeWord64?_eq_some_iff {data rest : Bytes} {w : UInt64} :
    takeWord64? data = some (w, rest) ↔ data = ofWord64 w ++ rest := by
  constructor
  · intro h
    obtain ⟨⟨lower, data₁⟩, hlower, h⟩ := Option.bind_eq_some_iff.1 h
    obtain ⟨⟨upper, data₂⟩, hupper, h⟩ := Option.bind_eq_some_iff.1 h
    cases h
    rw [takeWord32?_eq_some_iff] at hlower hupper
    rw [hlower, hupper, ofWord64_halves, List.append_assoc]
  · rintro rfl
    exact takeWord64?_ofWord64_append w rest

theorem ofWord32_inj {v w : UInt32} : ofWord32 v = ofWord32 w ↔ v = w := by
  constructor
  · intro h
    have htake := takeWord32?_ofWord32_append v []
    rw [h, takeWord32?_ofWord32_append] at htake
    cases htake
    rfl
  · rintro rfl
    rfl

/-- Four bytes are enough for a word. -/
theorem exists_takeWord32? (data : Bytes) (h : 4 ≤ data.length) :
    ∃ w, takeWord32? data = some (w, data.drop 4) := by
  match data, h with
  | b0 :: b1 :: b2 :: b3 :: _, _ => exact ⟨word32 b0 b1 b2 b3, rfl⟩

/-- Eight bytes are enough for a long word. -/
theorem exists_takeWord64? (data : Bytes) (h : 8 ≤ data.length) :
    ∃ w, takeWord64? data = some (w, data.drop 8) := by
  obtain ⟨lower, hlower⟩ := exists_takeWord32? data (by omega)
  obtain ⟨upper, hupper⟩ := exists_takeWord32? (data.drop 4) (by simp; omega)
  refine ⟨lower.toUInt64 ||| upper.toUInt64 <<< 32, ?_⟩
  rw [List.drop_drop] at hupper
  simp [takeWord64?, hlower, hupper]

end Bytes

end HeapStore
