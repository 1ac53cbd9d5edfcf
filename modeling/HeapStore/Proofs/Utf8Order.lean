import HeapStore.Proofs.StoredStrings
import Mathlib.Data.Char
import Mathlib.Tactic.SplitIfs

/-!
# Order and parts of texts, and of their bytes

UTF-8 keeps the order of texts: of two characters the smaller one has the smaller bytes
(`utf8EncodeChar_append_lt`), so that comparing the bytes of two texts is comparing their
characters (`encode_lt_iff`).

It keeps their parts as well. The first byte of a character is told from the others, so
the bytes of a text are found among those of another only where a character begins
(`encode_isInfix_iff`).
-/

namespace HeapStore

namespace Text

variable {c d : Char} {chars chars' needle text : List Char}

/-! ## Order -/

/-- Of two characters the smaller one has the smaller bytes, and what follows them does
not matter. -/
theorem utf8EncodeChar_append_lt (h : c < d) (rest rest' : Bytes) :
    String.utf8EncodeChar c ++ rest < String.utf8EncodeChar d ++ rest' := by
  have hlt : c.toNat < d.toNat := h
  have hvalid : d.toNat < 0x110000 := by
    have hd : d.toNat < 0xD800 ∨ 0xDFFF < d.toNat ∧ d.toNat < 0x110000 := d.valid
    omega
  simp only [String.utf8EncodeChar, show c.val.toNat = c.toNat from rfl,
    show d.val.toNat = d.toNat from rfl]
  generalize c.toNat = v at hlt
  generalize d.toNat = w at hlt hvalid
  -- one case per number of bytes of each
  split_ifs <;> first
    | omega
    | simp (disch := omega) only [List.cons_append, List.nil_append, List.cons_lt_cons_iff,
        UInt8.lt_iff_toNat_lt, ← UInt8.toNat_inj, UInt8.toNat_ofNat', Nat.mod_eq_of_lt]
      omega

theorem append_lt_append_iff {front back back' : Bytes} :
    front ++ back < front ++ back' ↔ back < back' := by
  induction front with
  | nil => rfl
  | cons byte front ih => simp [ih]

theorem encode_cons (c : Char) (chars : List Char) :
    encode (c :: chars) = String.utf8EncodeChar c ++ encode chars :=
  List.flatMap_cons

theorem nil_lt_encode_cons (c : Char) (chars : List Char) : [] < encode (c :: chars) := by
  obtain ⟨byte, bytes, hbytes⟩ := List.exists_cons_of_ne_nil (String.utf8EncodeChar_ne_nil (c := c))
  rw [encode_cons, hbytes]
  exact List.nil_lt_cons _ _

/-- Texts are ordered as their bytes are. -/
theorem encode_lt_iff : encode chars < encode chars' ↔ chars < chars' := by
  induction chars generalizing chars' with
  | nil =>
      cases chars' with
      | nil => simp [encode]
      | cons d chars' => exact iff_of_true (nil_lt_encode_cons d chars') (List.nil_lt_cons d chars')
  | cons c chars ih =>
      cases chars' with
      | nil => exact iff_of_false (List.not_lt_nil _) (List.not_lt_nil _)
      | cons d chars' =>
          rw [encode_cons, encode_cons, List.cons_lt_cons_iff]
          rcases lt_trichotomy c d with hlt | rfl | hgt
          · exact iff_of_true (utf8EncodeChar_append_lt hlt _ _) (.inl hlt)
          · rw [append_lt_append_iff, ih]
            simp
          · refine iff_of_false (List.lt_asymm (utf8EncodeChar_append_lt hgt _ _)) ?_
            rintro (hlt | ⟨rfl, -⟩)
            · exact lt_asymm hlt hgt
            · exact lt_irrefl c hgt

/-- Texts are ordered as the numbers of their characters are. -/
theorem map_toNat_lt_iff : chars.map Char.toNat < chars'.map Char.toNat ↔ chars < chars' := by
  induction chars generalizing chars' with
  | nil => cases chars' <;> simp
  | cons c chars ih =>
      cases chars' with
      | nil => simp
      | cons d chars' =>
          rw [List.map_cons, List.map_cons, List.cons_lt_cons_iff, List.cons_lt_cons_iff, ih,
            Char.toNat_inj]
          rfl

/-! ## Parts -/

/-- The bytes of a text begin where a character begins. -/
theorem eq_nil_of_append_encode {front back rest : Bytes}
    (h : front ++ (encode (c :: chars) ++ back) = String.utf8EncodeChar d ++ rest)
    (hinside : front.length < (String.utf8EncodeChar d).length) : front = [] := by
  have hsome : 0 < (String.utf8EncodeChar c).length :=
    List.length_pos_iff.2 String.utf8EncodeChar_ne_nil
  have hleft : (front ++ (encode (c :: chars) ++ back))[front.length]?
      = some (String.utf8EncodeChar c)[0] := by
    rw [List.getElem?_append_right (Nat.le_refl _), Nat.sub_self, encode_cons, List.append_assoc,
      List.getElem?_append_left hsome, List.getElem?_eq_getElem hsome]
  have hright : (String.utf8EncodeChar d ++ rest)[front.length]?
      = some (String.utf8EncodeChar d)[front.length] := by
    rw [List.getElem?_append_left hinside, List.getElem?_eq_getElem hinside]
  have hfirst : (String.utf8EncodeChar c)[0].IsUTF8FirstByte :=
    UInt8.isUTF8FirstByte_getElem_zero_utf8EncodeChar
  rw [Option.some.inj (hleft.symm.trans ((congrArg (·[front.length]?) h).trans hright))] at hfirst
  exact List.length_eq_zero_iff.1 (UInt8.isUTF8FirstByte_getElem_utf8EncodeChar.1 hfirst)

theorem prefix_of_encode (h : encode needle <+: encode text) : needle <+: text := by
  obtain ⟨back, h⟩ := h
  have hread := decodeLossy_encode_append needle back
  rw [h, decodeLossy_encode] at hread
  exact ⟨_, hread.symm⟩

theorem infix_of_encode (h : encode (c :: chars) <:+: encode text) : c :: chars <:+: text := by
  induction text with
  | nil =>
      have hnil := List.eq_nil_of_infix_nil h
      rw [encode_cons, List.append_eq_nil_iff] at hnil
      exact absurd hnil.1 String.utf8EncodeChar_ne_nil
  | cons d text ih =>
      obtain ⟨front, back, h⟩ := h
      rw [List.append_assoc, encode_cons d] at h
      rcases Nat.lt_or_ge front.length (String.utf8EncodeChar d).length with hinside | hbehind
      · obtain rfl := eq_nil_of_append_encode h hinside
        exact (prefix_of_encode ⟨back, h.trans (encode_cons d text).symm⟩).isInfix
      · -- The first character is in front of the part.
        obtain ⟨front, rfl⟩ := List.prefix_of_prefix_length_le
          ⟨encode text, rfl⟩ ⟨encode (c :: chars) ++ back, h⟩ hbehind
        rw [List.append_assoc, List.append_cancel_left_eq, ← List.append_assoc] at h
        exact List.infix_cons (ih ⟨front, back, h⟩)

/-- The bytes of a text are found among those of another exactly if its characters are
found among the characters. -/
theorem encode_isInfix_iff : encode needle <:+: encode text ↔ needle <:+: text := by
  constructor
  · intro h
    cases needle with
    | nil => exact List.nil_infix
    | cons c chars => exact infix_of_encode h
  · rintro ⟨front, back, rfl⟩
    rw [encode_append, encode_append]
    exact ⟨_, _, rfl⟩

end Text

end HeapStore
