import HeapStore.Proofs.TupleEncoding
import Mathlib.Logic.Function.Iterate

/-!
# What becomes of a stored string

A string that is longer than its slot is cut at a byte. The cut may fall into
a character, and what is left of that one is read as U+FFFD
(`Text.decodeLossy_take_utf8EncodeChar`), which takes three bytes whatever it
stands for. So the string that is read may be longer than the slot itself, and
is cut again when it is stored: then into U+FFFD, of which any part is read as
the whole.

`Text.IsLongestWithin` says which characters survive the first cut
(`Text.exists_take_encode` that nothing but a part of one character follows
them), `Field.reread` is the string that is read.

The headline is `stored_string_settles`.
-/

namespace HeapStore

namespace Text

/-! ## Parts of a character -/

/-- A character whose last bytes are missing is read as U+FFFD. -/
theorem decodeLossy_take_utf8EncodeChar {c : Char} {n : Nat} (hsome : 0 < n)
    (hcut : n < (String.utf8EncodeChar c).length) :
    decodeLossy ((String.utf8EncodeChar c).take n) = [replacement] := by
  have hvalid : c.toNat < 0xD800 ∨ 0xDFFF < c.toNat ∧ c.toNat < 0x110000 := c.valid
  simp only [String.utf8EncodeChar, show c.val.toNat = c.toNat from rfl] at hcut ⊢
  generalize c.toNat = v at hvalid hcut ⊢
  -- one case per number of bytes that are there, of the bytes there should be
  split at hcut
  · simp only [List.length_cons, List.length_nil] at hcut
    omega
  rename_i htwo
  rw [if_neg htwo]
  split at hcut
  · rename_i htop
    obtain rfl : n = 1 := by simp only [List.length_cons, List.length_nil] at hcut; omega
    rw [if_pos htop]
    exact decodeFrom_cons_of_step (Partial.step_first_of_two _ (by omega) (by omega)) []
  rename_i hthree
  rw [if_neg hthree]
  split at hcut
  · rename_i htop
    rw [if_pos htop]
    simp only [List.length_cons, List.length_nil] at hcut
    obtain rfl | rfl : n = 1 ∨ n = 2 := by omega
    · exact decodeFrom_cons_of_step (Partial.step_first_of_three _ (by omega)) []
    · exact decodeFrom_two_of_three (by omega) (by omega) (by omega) (by omega) []
  · rename_i htop
    rw [if_neg htop]
    simp only [List.length_cons, List.length_nil] at hcut
    obtain rfl | rfl | rfl : n = 1 ∨ n = 2 ∨ n = 3 := by omega
    · exact decodeFrom_cons_of_step (Partial.step_first_of_four _ (by omega)) []
    · exact decodeFrom_two_of_four (by omega) (by omega) (by omega) (by omega) []
    · exact decodeFrom_three_of_four (by omega) (by omega) (by omega) (by omega) (by omega) []

/-- U+FFFD is read from each of its parts. -/
theorem decodeLossy_take_replacement {n : Nat} (hsome : 0 < n)
    (hpart : n ≤ (String.utf8EncodeChar replacement).length) :
    decodeLossy ((String.utf8EncodeChar replacement).take n) = [replacement] := by
  rcases Nat.lt_or_eq_of_le hpart with hcut | rfl
  · exact decodeLossy_take_utf8EncodeChar hsome hcut
  · rw [List.take_length]
    exact decodeLossy_encode [replacement]

/-! ## The longest beginning that fits -/

theorem encode_append (front back : List Char) :
    encode (front ++ back) = encode front ++ encode back :=
  List.flatMap_append

theorem length_encode_le_of_prefix {front chars : List Char} (h : front <+: chars) :
    (encode front).length ≤ (encode chars).length := by
  obtain ⟨back, rfl⟩ := h
  rw [encode_append, List.length_append]
  omega

/-- `kept` is the longest beginning of `chars` that takes at most `budget`
bytes. -/
structure IsLongestWithin (budget : Nat) (chars kept : List Char) : Prop where
  isPrefix : kept <+: chars
  fits : (encode kept).length ≤ budget
  longest : ∀ other, other <+: chars → (encode other).length ≤ budget → other <+: kept

theorem prefix_prefixWithin {budget : Nat} {chars other : List Char} (hfront : other <+: chars)
    (hfits : (encode other).length ≤ budget) : other <+: prefixWithin budget chars := by
  induction chars generalizing other budget with
  | nil => exact hfront
  | cons c chars ih =>
      cases other with
      | nil => exact List.nil_prefix
      | cons d other =>
          obtain ⟨rfl, htail⟩ := List.cons_prefix_cons.1 hfront
          rw [length_encode_cons] at hfits
          rw [prefixWithin, if_pos (by omega)]
          exact List.cons_prefix_cons.2 ⟨rfl, ih htail (by omega)⟩

theorem isLongestWithin_prefixWithin (budget : Nat) (chars : List Char) :
    IsLongestWithin budget chars (prefixWithin budget chars) where
  isPrefix := prefixWithin_prefix budget chars
  fits := length_encode_prefixWithin_le budget chars
  longest _ hfront hfits := prefix_prefixWithin hfront hfits

/-- A text cut at a byte is the longest beginning that fits, and a part of the
character behind it, which may be empty. -/
theorem exists_take_encode (budget : Nat) (chars : List Char) :
    ∃ c n, n < (String.utf8EncodeChar c).length ∧ (encode chars).take budget
      = encode (prefixWithin budget chars) ++ (String.utf8EncodeChar c).take n := by
  induction chars generalizing budget with
  | nil => exact ⟨'a', 0, by decide, by simp [prefixWithin, encode]⟩
  | cons c chars ih =>
      have hsize : (String.utf8EncodeChar c).length = c.utf8Size := String.length_utf8EncodeChar c
      rw [prefixWithin]
      split
      · rename_i hfits
        obtain ⟨d, n, hn, htake⟩ := ih (budget - c.utf8Size)
        refine ⟨d, n, hn, ?_⟩
        simp only [encode, List.flatMap_cons, List.append_assoc] at htake ⊢
        rw [← htake, List.take_append, List.take_of_length_le (by omega), hsize]
      · rename_i hcut
        refine ⟨c, budget, by omega, ?_⟩
        rw [encode, List.flatMap_cons, List.take_append_of_le_length (by omega), encode,
          List.flatMap_nil, List.nil_append]

/-! ## Boundaries -/

/-- Byte `i` of a text is the first one of a character, or the end. -/
def IsBoundary (i : Nat) (chars : List Char) : Prop :=
  ∃ front, front <+: chars ∧ (encode front).length = i

/-- The longest beginning that fits ends at the byte where the text is cut
exactly if no character is cut. -/
theorem isBoundary_iff {budget : Nat} {chars : List Char} :
    IsBoundary budget chars ↔ (encode (prefixWithin budget chars)).length = budget := by
  constructor
  · rintro ⟨front, hfront, hlength⟩
    have hle := length_encode_le_of_prefix
      (prefix_prefixWithin hfront (Nat.le_of_eq hlength))
    have hfits := length_encode_prefixWithin_le budget chars
    omega
  · exact fun hlength => ⟨_, prefixWithin_prefix budget chars, hlength⟩

instance (i : Nat) (chars : List Char) : Decidable (IsBoundary i chars) :=
  decidable_of_iff' _ isBoundary_iff

end Text

namespace Field

/-! ## Cut strings -/

/-- A string that is cut is read as its characters that are stored whole, with
U+FFFD for the bytes behind them. -/
theorem exists_toList_reread {text : String}
    (hlong : stringCapacity < (Text.utf8 text).length) :
    ∃ n < 4, (Text.encode (Text.prefixWithin stringCapacity text.toList)).length + n
        = stringCapacity ∧
      (reread text).toList = Text.prefixWithin stringCapacity text.toList
        ++ if n = 0 then [] else [Text.replacement] := by
  obtain ⟨c, n, hn, htake⟩ := Text.exists_take_encode stringCapacity text.toList
  have hfour := Char.utf8Size_le_four c
  rw [String.length_utf8EncodeChar] at hn
  rw [Text.utf8] at hlong
  have hlength := congrArg List.length htake
  rw [List.length_take, List.length_append, List.length_take, String.length_utf8EncodeChar,
    Nat.min_eq_left (Nat.le_of_lt hlong), Nat.min_eq_left (Nat.le_of_lt hn)] at hlength
  refine ⟨n, by omega, hlength.symm, ?_⟩
  rw [reread, String.toList_ofList, storedBytes, Text.utf8, htake,
    Text.decodeLossy_encode_append]
  split
  · rename_i hnone
    rw [hnone, List.take_zero]
    rfl
  · rw [Text.decodeLossy_take_utf8EncodeChar (by omega)
      (by rwa [String.length_utf8EncodeChar])]

theorem utf8_eq_of_toList {text : String} {chars : List Char} (h : text.toList = chars) :
    Text.utf8 text = Text.encode chars := by
  rw [Text.utf8, h]

/-- What was read is read again. -/
theorem reread_reread (text : String) : reread (reread text) = reread text := by
  rcases Nat.lt_or_ge stringCapacity (Text.utf8 text).length with hlong | hfits
  · obtain ⟨n, hn, hlength, hread⟩ := exists_toList_reread hlong
    generalize Text.prefixWithin stringCapacity text.toList = kept at hlength hread
    split at hread
    · rename_i hnone
      refine reread_of_fits ?_
      rw [utf8_eq_of_toList hread, List.append_nil]
      omega
    · rename_i hsome
      -- the second cut leaves as many bytes of U+FFFD as the first one left of another character
      have hpart : n ≤ (String.utf8EncodeChar Text.replacement).length := by
        have hthree : (String.utf8EncodeChar Text.replacement).length = 3 := by decide
        omega
      have hstored : storedBytes (reread text)
          = Text.encode kept ++ (String.utf8EncodeChar Text.replacement).take n := by
        rw [storedBytes, utf8_eq_of_toList hread, Text.encode_append, List.take_append,
          List.take_of_length_le (by omega), ← hlength, Nat.add_sub_cancel_left]
        rfl
      rw [← String.toList_inj, hread, reread, String.toList_ofList, hstored,
        Text.decodeLossy_encode_append,
        Text.decodeLossy_take_replacement (Nat.pos_of_ne_zero hsome) hpart]
  · rw [reread_of_fits hfits, reread_of_fits hfits]

/-- A part of a character gives way to the three bytes of U+FFFD. -/
theorem length_utf8_reread_le (text : String) :
    (Text.utf8 (reread text)).length ≤ stringCapacity + 2 := by
  rcases Nat.lt_or_ge stringCapacity (Text.utf8 text).length with hlong | hfits
  · obtain ⟨n, -, hlength, hread⟩ := exists_toList_reread hlong
    rw [utf8_eq_of_toList hread, Text.encode_append, List.length_append]
    split
    · have hnone : (Text.encode []).length = 0 := rfl
      omega
    · have hthree : (Text.encode [Text.replacement]).length = 3 := by decide
      omega
  · rw [reread_of_fits hfits]
    omega

end Field

open HeapStore.Field in
/-- A string that fits its slot is read as it was stored. A longer one is read
as its longest beginning that fits, followed by one U+FFFD if the slot ends
within a character. What was read once, and stored and read again any number of
times, stays the same, although it may be two bytes longer than its slot. -/
theorem stored_string_settles (text : String) :
    (∀ rest, decode? .string ((Field.string text).encode ++ rest)
      = some (.string (reread text), rest)) ∧
    ((Text.utf8 text).length ≤ stringCapacity → reread text = text) ∧
    (stringCapacity < (Text.utf8 text).length → ∃ kept,
      Text.IsLongestWithin stringCapacity text.toList kept ∧
        (Text.IsBoundary stringCapacity text.toList → (reread text).toList = kept) ∧
        (¬Text.IsBoundary stringCapacity text.toList →
          (reread text).toList = kept ++ [Text.replacement])) ∧
    (Text.utf8 (reread text)).length ≤ stringCapacity + 2 ∧
    ∀ n, reread^[n] (reread text) = reread text := by
  refine ⟨decode?_encode_string_append text, reread_of_fits, fun hlong => ?_,
    length_utf8_reread_le text, Function.iterate_fixed (reread_reread text)⟩
  obtain ⟨n, -, hlength, hread⟩ := exists_toList_reread hlong
  refine ⟨_, Text.isLongestWithin_prefixWithin _ _, fun hboundary => ?_, fun hcut => ?_⟩
  · rw [Text.isBoundary_iff] at hboundary
    rw [hread, if_pos (by omega), List.append_nil]
  · rw [Text.isBoundary_iff] at hcut
    rw [hread, if_neg (by omega)]

/-- A slot ends within the first of two characters of four bytes each. -/
theorem stored_string_settles_cut :
    let text := String.ofList (List.replicate 126 'x' ++ ['𐍈', '𐍈'])
    stringCapacity < (Text.utf8 text).length ∧
      ¬Text.IsBoundary stringCapacity text.toList ∧
      ∃ kept, Text.IsLongestWithin stringCapacity text.toList kept ∧
        (Field.reread text).toList = kept ++ [Text.replacement] ∧
        Field.reread^[3] (Field.reread text) = Field.reread text := by
  intro text
  have hchars : text.toList = List.replicate 126 'x' ++ ['𐍈', '𐍈'] := String.toList_ofList
  have hlong : stringCapacity < (Text.utf8 text).length := by
    rw [Text.utf8, hchars]
    decide +kernel
  have hcut : ¬Text.IsBoundary stringCapacity text.toList := by
    rw [hchars]
    decide +kernel
  obtain ⟨-, -, hread, -, hsettles⟩ := stored_string_settles text
  obtain ⟨kept, hkept, -, hreplaced⟩ := hread hlong
  exact ⟨hlong, hcut, kept, hkept, hreplaced hcut, hsettles 3⟩

end HeapStore
