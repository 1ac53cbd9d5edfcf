import HeapStore.Proofs.Utf8Order

/-!
# The longest beginning that can be stored

A string field is made of a text that may be longer than its slot: the text is cut
where the slot ends, or in front of the character that the end of the slot falls
into. That place is looked for in the bytes, from the end of the slot back.

The bytes themselves show where a character begins (`Text.exists_utf8EncodeChar`),
so the places that the bytes show are the ends of the text's beginnings
(`Text.atBoundary_encode`), and the last of them is the end of the longest one that
fits (`Text.boundaryUpTo_encode`). `Text.BacksTo` counts the steps of the search; there
are no more than three, as a character has no more than four bytes.

What was made so is never cut again, neither when it is stored nor when it is made
into a field once more. The headline is `storable_keeps_longest`.
-/

namespace HeapStore

namespace Text

variable {bytes : Bytes} {chars : List Char} {budget i stop steps found : Nat}

/-! ## First bytes -/

theorem beginsCharacter_ofNat {value : Nat} (hbyte : value < 256) :
    beginsCharacter (UInt8.ofNat value) = true ↔ value < 128 ∨ 192 ≤ value := by
  have hvalue : (UInt8.ofNat value).toNat = value := UInt8.toNat_ofNat_of_lt' hbyte
  simp [beginsCharacter, UInt8.lt_iff_toNat_lt, UInt8.le_iff_toNat_le, hvalue]

theorem not_beginsCharacter_continuation {bits : Nat} (hbits : bits < 64) :
    ¬beginsCharacter (UInt8.ofNat (bits + 128)) = true := by
  rw [beginsCharacter_ofNat (by omega)]
  omega

/-- A written character is a byte that characters begin with, and behind it bytes that
they do not begin with. -/
theorem exists_utf8EncodeChar (c : Char) : ∃ first others,
    String.utf8EncodeChar c = first :: others ∧ beginsCharacter first = true ∧
      ∀ byte ∈ others, ¬beginsCharacter byte = true := by
  have hvalid : c.toNat < 0xD800 ∨ 0xDFFF < c.toNat ∧ c.toNat < 0x110000 := c.valid
  simp only [String.utf8EncodeChar, show c.val.toNat = c.toNat from rfl]
  generalize c.toNat = v at hvalid
  have hsix : ∀ bits, ¬beginsCharacter (UInt8.ofNat (bits % 64 + 128)) = true := fun bits =>
    not_beginsCharacter_continuation (Nat.mod_lt bits (by decide))
  -- one case per number of bytes
  split
  · refine ⟨_, _, rfl, ?_, List.forall_mem_nil _⟩
    rw [beginsCharacter_ofNat (by omega)]
    omega
  split
  · refine ⟨_, _, rfl, ?_, List.forall_mem_singleton.2 (hsix _)⟩
    rw [beginsCharacter_ofNat (by omega)]
    omega
  split
  · refine ⟨_, _, rfl, ?_, List.forall_mem_cons.2 ⟨hsix _, List.forall_mem_singleton.2 (hsix _)⟩⟩
    rw [beginsCharacter_ofNat (by omega)]
    omega
  · refine ⟨_, _, rfl, ?_, List.forall_mem_cons.2 ⟨hsix _,
      List.forall_mem_cons.2 ⟨hsix _, List.forall_mem_singleton.2 (hsix _)⟩⟩⟩
    rw [beginsCharacter_ofNat (by omega)]
    omega

/-! ## Places to cut -/

theorem atBoundary_zero (bytes : Bytes) : atBoundary bytes 0 = true := by
  simp [atBoundary]

/-- Within a character there is no place to cut. -/
theorem not_atBoundary_within (c : Char) (rest : Bytes) (hpos : 0 < i)
    (hi : i < (String.utf8EncodeChar c).length) :
    ¬atBoundary (String.utf8EncodeChar c ++ rest) i = true := by
  obtain ⟨first, others, hbytes, -, hothers⟩ := exists_utf8EncodeChar c
  rw [hbytes] at hi ⊢
  obtain ⟨j, rfl⟩ := Nat.exists_eq_add_one_of_ne_zero (Nat.ne_of_gt hpos)
  have hj : j < others.length := Nat.lt_of_succ_lt_succ hi
  have hbyte : (first :: others ++ rest)[j + 1]? = some others[j] := by
    rw [List.cons_append, List.getElem?_cons_succ, List.getElem?_append_left hj,
      List.getElem?_eq_getElem hj]
  have hend : j + 1 ≠ (first :: others ++ rest).length := by
    rw [List.length_append]
    omega
  have hbegins : ¬beginsCharacter others[j] = true := hothers _ (List.getElem_mem hj)
  rw [atBoundary, hbyte]
  simp only [Nat.add_one_ne_zero, hend, hbegins, decide_false, Option.any_some, Bool.false_or,
    Bool.false_eq_true, not_false_eq_true]

/-- In front of a text there is a place to cut: its first character begins there, or
the bytes end. -/
theorem atBoundary_front (front : Bytes) (chars : List Char) :
    atBoundary (front ++ encode chars) front.length = true := by
  cases chars with
  | nil => simp [atBoundary, encode]
  | cons c chars =>
      obtain ⟨first, others, hbytes, hfirst, -⟩ := exists_utf8EncodeChar c
      simp [atBoundary, encode_cons, hbytes, hfirst]

theorem atBoundary_behind (front : Bytes) (chars : List Char) (i : Nat) :
    atBoundary (front ++ encode chars) (front.length + i) = atBoundary (encode chars) i := by
  cases i with
  | zero => rw [Nat.add_zero, atBoundary_front, atBoundary_zero]
  | succ i => simp [atBoundary, List.getElem?_append_right]

theorem isBoundary_cons {c : Char} : IsBoundary i (c :: chars) ↔
    i = 0 ∨ ∃ j, IsBoundary j chars ∧ (String.utf8EncodeChar c).length + j = i := by
  constructor
  · rintro ⟨front, hfront, rfl⟩
    cases front with
    | nil => exact .inl rfl
    | cons d front =>
        obtain ⟨rfl, htail⟩ := List.cons_prefix_cons.1 hfront
        exact .inr ⟨_, ⟨front, htail, rfl⟩, by rw [encode_cons, List.length_append]⟩
  · rintro (rfl | ⟨_, ⟨front, hfront, rfl⟩, rfl⟩)
    · exact ⟨[], List.nil_prefix, rfl⟩
    · exact ⟨c :: front, List.cons_prefix_cons.2 ⟨rfl, hfront⟩,
        by rw [encode_cons, List.length_append]⟩

/-- The places to cut that the bytes of a text show are those between its characters. -/
theorem atBoundary_encode : atBoundary (encode chars) i = true ↔ IsBoundary i chars := by
  induction chars generalizing i with
  | nil => simp [atBoundary, IsBoundary, encode, eq_comm]
  | cons c chars ih =>
      rw [isBoundary_cons, encode_cons]
      rcases Nat.lt_or_ge i (String.utf8EncodeChar c).length with hwithin | hbehind
      · rcases Nat.eq_zero_or_pos i with rfl | hpos
        · exact iff_of_true (atBoundary_zero _) (.inl rfl)
        · refine iff_of_false (not_atBoundary_within c _ hpos hwithin) ?_
          rintro (rfl | ⟨j, -, hj⟩) <;> omega
      · obtain ⟨j, rfl⟩ := Nat.exists_eq_add_of_le hbehind
        have hsome : 0 < (String.utf8EncodeChar c).length :=
          List.length_pos_iff.2 String.utf8EncodeChar_ne_nil
        rw [atBoundary_behind, ih]
        constructor
        · exact fun hj => .inr ⟨j, hj, rfl⟩
        · rintro (hzero | ⟨k, hk, hsame⟩)
          · omega
          · rwa [← Nat.add_left_cancel hsame]

/-! ## Looking back -/

/-- The search that is at byte `stop` takes `steps` steps back, of one byte each, and
ends at the place `found`. -/
inductive BacksTo (bytes : Bytes) : Nat → Nat → Nat → Prop
  | here {stop : Nat} : atBoundary bytes stop = true → BacksTo bytes stop 0 stop
  | back {stop steps found : Nat} : ¬atBoundary bytes (stop + 1) = true →
      BacksTo bytes stop steps found → BacksTo bytes (stop + 1) (steps + 1) found

/-- The search ends, as one can always cut in front of everything. -/
theorem exists_backsTo (bytes : Bytes) (stop : Nat) :
    ∃ steps, BacksTo bytes stop steps (boundaryUpTo bytes stop) := by
  induction stop with
  | zero => exact ⟨0, .here (atBoundary_zero bytes)⟩
  | succ stop ih =>
      rw [boundaryUpTo]
      split
      · rename_i hhere
        exact ⟨0, .here hhere⟩
      · rename_i hnot
        obtain ⟨steps, hsteps⟩ := ih
        exact ⟨steps + 1, .back hnot hsteps⟩

namespace BacksTo

theorem found_add_steps (h : BacksTo bytes stop steps found) : found + steps = stop := by
  induction h with
  | here _ => rfl
  | back _ _ ih => omega

theorem atBoundary_found (h : BacksTo bytes stop steps found) :
    atBoundary bytes found = true := by
  induction h with
  | here hhere => exact hhere
  | back _ _ ih => exact ih

/-- No place is passed over. -/
theorem not_atBoundary (h : BacksTo bytes stop steps found) (hbehind : found < i)
    (hi : i ≤ stop) : ¬atBoundary bytes i = true := by
  induction h with
  | here _ => omega
  | back hnot _ ih =>
      rcases Nat.lt_or_eq_of_le hi with hlt | rfl
      · exact ih hbehind (Nat.le_of_lt_succ hlt)
      · exact hnot

end BacksTo

/-- The search from the budget back ends where the longest beginning does that fits. -/
theorem boundaryUpTo_encode (budget : Nat) (chars : List Char) :
    boundaryUpTo (encode chars) budget = (encode (prefixWithin budget chars)).length := by
  obtain ⟨steps, hback⟩ := exists_backsTo (encode chars) budget
  have hsteps := hback.found_add_steps
  refine Nat.le_antisymm ?_ (Nat.le_of_not_lt fun hpassed => ?_)
  · -- what ends at the place found is a beginning that fits
    obtain ⟨front, hfront, hlength⟩ := atBoundary_encode.1 hback.atBoundary_found
    rw [← hlength]
    exact length_encode_le_of_prefix (prefix_prefixWithin hfront (by omega))
  · -- the end of the longest beginning is a place to cut
    exact hback.not_atBoundary hpassed (length_encode_prefixWithin_le budget chars)
      (atBoundary_encode.2 ⟨_, prefixWithin_prefix budget chars, rfl⟩)

theorem take_boundaryUpTo (budget : Nat) (chars : List Char) :
    (encode chars).take (boundaryUpTo (encode chars) budget)
      = encode (prefixWithin budget chars) := by
  obtain ⟨back, hback⟩ := prefixWithin_prefix budget chars
  have hbytes := congrArg encode hback
  rw [encode_append] at hbytes
  rw [boundaryUpTo_encode, ← hbytes, List.take_left]

theorem prefixWithin_eq_self (hfits : (encode chars).length ≤ budget) :
    prefixWithin budget chars = chars := by
  have hfront := prefixWithin_prefix budget chars
  exact hfront.eq_of_length_le (prefix_prefixWithin (List.prefix_refl chars) hfits).length_le

end Text

namespace Field

theorem storable_of_fits {text : String} (hfits : (Text.utf8 text).length ≤ stringCapacity) :
    storable text = .string text :=
  if_pos hfits

theorem exists_storable (text : String) : ∃ kept, storable text = .string kept ∧
    kept.toList = Text.prefixWithin stringCapacity text.toList := by
  rcases Nat.lt_or_ge stringCapacity (Text.utf8 text).length with hlong | hfits
  · refine ⟨_, if_neg (Nat.not_le.2 hlong), ?_⟩
    rw [Text.utf8, Text.take_boundaryUpTo, Text.decodeLossy_encode, String.toList_ofList]
  · exact ⟨text, storable_of_fits hfits, (Text.prefixWithin_eq_self hfits).symm⟩

end Field

open HeapStore.Field in
/-- The string field made of a text holds its longest beginning of whole characters that
fits the slot: the text itself if that fits, and otherwise 125 to 128 bytes of it, whose
end the search finds in at most three steps. To make a field of these again changes
nothing. They are stored without a cut and read back as they are, so that a U+FFFD at
their end is one that the text has there. -/
theorem storable_keeps_longest (text : String) :
    ∃ kept, storable text = .string kept ∧
      Text.IsLongestWithin stringCapacity text.toList kept.toList ∧
      ((Text.utf8 text).length ≤ stringCapacity → kept = text) ∧
      (stringCapacity < (Text.utf8 text).length →
        125 ≤ (Text.utf8 kept).length ∧ (Text.utf8 kept).length ≤ 128 ∧
        Text.boundaryUpTo (Text.utf8 text) stringCapacity = (Text.utf8 kept).length ∧
        ∃ steps ≤ 3,
          Text.BacksTo (Text.utf8 text) stringCapacity steps (Text.utf8 kept).length) ∧
      storable kept = .string kept ∧
      storedBytes kept = Text.utf8 kept ∧
      (∀ rest, decode? .string ((storable text).encode ++ rest) = some (.string kept, rest)) ∧
      ∀ front, kept.toList = front ++ [Text.replacement] →
        front ++ [Text.replacement] <+: text.toList := by
  obtain ⟨kept, hstorable, hkept⟩ := exists_storable text
  have hbytes := utf8_eq_of_toList hkept
  have hlongest := Text.isLongestWithin_prefixWithin stringCapacity text.toList
  rw [← hkept] at hlongest
  have hfits : (Field.string kept).Fits := hlongest.fits
  refine ⟨kept, hstorable, hlongest, fun hwhole => ?_, fun hlong => ?_, storable_of_fits hfits,
    List.take_of_length_le hfits, fun rest => ?_, fun front hend => ?_⟩
  · rw [← String.toList_inj, hkept, Text.prefixWithin_eq_self hwhole]
  · have hfound : Text.boundaryUpTo (Text.utf8 text) stringCapacity
        = (Text.utf8 kept).length := by
      rw [hbytes]
      exact Text.boundaryUpTo_encode _ _
    obtain ⟨steps, hback⟩ := Text.exists_backsTo (Text.utf8 text) stringCapacity
    rw [hfound] at hback
    have hsteps := hback.found_add_steps
    -- what is missing to the end of the slot is part of one character
    obtain ⟨missing, hmissing, hlength, -⟩ := exists_toList_reread hlong
    rw [← hbytes] at hlength
    have hcapacity : stringCapacity = 128 := rfl
    exact ⟨by omega, hfits, hfound, steps, by omega, hback⟩
  · rw [hstorable]
    exact decode?_encode_append hfits rest
  · rw [← hend]
    exact hlongest.isPrefix

/-- A slot that ends in front of the last byte of a character, and one that is filled by
a text with U+FFFD at its end. -/
theorem storable_keeps_longest_threeSteps :
    let cut := String.ofList (List.replicate 125 'x' ++ ['𐍈'])
    let whole := String.ofList (List.replicate 125 'x' ++ [Text.replacement])
    (stringCapacity < (Text.utf8 cut).length ∧
      ∃ kept, Field.storable cut = .string kept ∧ (Text.utf8 kept).length = 125 ∧
        Text.BacksTo (Text.utf8 cut) stringCapacity 3 125) ∧
    (Text.utf8 whole).length ≤ stringCapacity ∧
      ∃ kept, Field.storable whole = .string kept ∧ kept = whole ∧
        kept.toList = List.replicate 125 'x' ++ [Text.replacement] ∧
        List.replicate 125 'x' ++ [Text.replacement] <+: whole.toList := by
  intro cut whole
  have hcut : Text.utf8 cut = Text.encode (List.replicate 125 'x' ++ ['𐍈']) :=
    Field.utf8_eq_of_toList String.toList_ofList
  have hwhole : whole.toList = List.replicate 125 'x' ++ [Text.replacement] :=
    String.toList_ofList
  have hlong : stringCapacity < (Text.utf8 cut).length := by
    rw [hcut]
    decide +kernel
  have hfits : (Text.utf8 whole).length ≤ stringCapacity := by
    rw [Field.utf8_eq_of_toList hwhole]
    decide +kernel
  have hplace : Text.boundaryUpTo (Text.utf8 cut) stringCapacity = 125 := by
    rw [hcut]
    decide +kernel
  refine ⟨⟨hlong, ?_⟩, hfits, ?_⟩
  · obtain ⟨kept, hstorable, -, -, hsearch, -⟩ := storable_keeps_longest cut
    obtain ⟨-, -, hfound, steps, -, hback⟩ := hsearch hlong
    rw [← hfound, hplace] at hback
    obtain rfl : steps = 3 := Nat.add_left_cancel hback.found_add_steps
    exact ⟨kept, hstorable, hfound.symm.trans hplace, hback⟩
  · obtain ⟨kept, hstorable, -, hsame, -, -, -, -, hreplacement⟩ := storable_keeps_longest whole
    have hkept := hsame hfits
    have hend : kept.toList = List.replicate 125 'x' ++ [Text.replacement] := by
      rw [hkept, hwhole]
    exact ⟨kept, hstorable, hkept, hend, hreplacement _ hend⟩

end HeapStore
