import HeapStore.Page
import Mathlib.Data.List.Basic

/-!
# Pages as maps from slots to tuples

Seen from outside, a page is a map from slot numbers to tuples
(`Page.slot?`). An insert adds one tuple, as it is read back from its stored
form, in a slot that was free (`slot?_insert`); a delete takes one away
(`slot?_delete`); a page of zeroes is the empty map (`slot?_zeros`).

The tuples of a page are the values of the map in the order of the slots
(`tuples_eq_slots`). All this holds for pages of up to 2¹⁶ slots, whose
addresses tell the slots apart. On larger pages slots are told apart by their
place alone (`Page.row?`).
-/

namespace HeapStore

/-! ## Bytes next to a write -/

theorem Bytes.slice_writeAt_of_le (data patch : Bytes) {offset start count : Nat}
    (hle : start + count ≤ offset) (hlength : start + count ≤ data.length) :
    slice (writeAt data offset patch) start count = slice data start count := by
  apply List.ext_getElem?
  intro i
  simp only [slice, List.getElem?_take, List.getElem?_drop]
  split
  · rw [getElem?_writeAt_of_lt _ _ _ (by omega) (by omega)]
  · rfl

theorem Bytes.slice_writeAt_of_ge (data patch : Bytes) {offset start count : Nat}
    (hge : offset + patch.length ≤ start) :
    slice (writeAt data offset patch) start count = slice data start count := by
  apply List.ext_getElem?
  intro i
  simp only [slice, List.getElem?_take, List.getElem?_drop]
  split
  · rw [getElem?_writeAt_of_le _ _ _ (by omega)]
  · rfl

/-! ## Bits -/

namespace Bits

theorem testBit_mask : ∀ i < 8, ∀ j < 8, (mask i).toNat.testBit j = decide (j = i) := by decide

theorem testBit_not_mask : ∀ i < 8, ∀ j < 8,
    (~~~mask i).toNat.testBit j = !decide (j = i) := by decide

theorem testBit_put {i j : Nat} (hi : i < 8) (hj : j < 8) (byte : UInt8) (value : Bool) :
    (put byte i value).toNat.testBit j = if j = i then value else byte.toNat.testBit j := by
  unfold put
  cases value with
  | true =>
      rw [if_pos rfl, UInt8.toNat_or, Nat.testBit_or, testBit_mask i hi j hj]
      by_cases hji : j = i <;> simp [hji]
  | false =>
      rw [if_neg (by decide), UInt8.toNat_and, Nat.testBit_and, testBit_not_mask i hi j hj]
      by_cases hji : j = i <;> simp [hji]

theorem getElem?_flatMap_ofByte (data : Bytes) (i : Nat) :
    (data.flatMap ofByte)[i]? = data[i / 8]?.map fun byte => byte.toNat.testBit (i % 8) := by
  induction data generalizing i with
  | nil => simp
  | cons byte data ih =>
      have hlength : (ofByte byte).length = 8 := by simp [ofByte]
      rw [List.flatMap_cons]
      by_cases hi : i < 8
      · rw [List.getElem?_append_left (by omega), Nat.div_eq_of_lt hi, Nat.mod_eq_of_lt hi]
        simp [ofByte, hi]
      · obtain ⟨j, rfl⟩ : ∃ j, i = j + 8 := ⟨i - 8, by omega⟩
        rw [List.getElem?_append_right (by omega), hlength, Nat.add_sub_cancel, ih,
          Nat.add_div_right _ (by decide), Nat.add_mod_right, List.getElem?_cons_succ]

end Bits

namespace Page

/-! ## The bitmap -/

theorem slotBit_eq (data : Bytes) (slot : Nat) :
    slotBit data slot = (data[slot / 8]?.getD 0).toNat.testBit (slot % 8) := by
  rw [slotBit, List.getD_eq_getElem?_getD]

theorem slotBit_setSlot (data : Bytes) (slot t : Nat) (used : Bool)
    (hlt : slot / 8 < data.length) :
    slotBit (setSlot data slot used) t = if t = slot then used else slotBit data t := by
  rw [slotBit_eq, slotBit_eq, setSlot, List.getElem?_modify]
  by_cases hbyte : slot / 8 = t / 8
  · have hsome : data[t / 8]? = some data[t / 8] := List.getElem?_eq_getElem _
    simp only [if_pos hbyte, hsome, Option.map_eq_map, Option.map_some, Option.getD_some]
    rw [Bits.testBit_put (Nat.mod_lt _ (by decide)) (Nat.mod_lt _ (by decide))]
    by_cases ht : t = slot
    · rw [if_pos ht, if_pos (by rw [ht])]
    · rw [if_neg ht, if_neg (by omega)]
  · have hne : t ≠ slot := fun heq => hbyte (by rw [heq])
    simp [if_neg hbyte, if_neg hne]

theorem slice_setSlot (data : Bytes) {slot offset : Nat} (count : Nat) (used : Bool)
    (hlt : slot / 8 < offset) :
    Bytes.slice (setSlot data slot used) offset count = Bytes.slice data offset count := by
  apply List.ext_getElem?
  intro i
  simp only [Bytes.slice, setSlot, List.getElem?_take, List.getElem?_drop, List.getElem?_modify]
  split
  · have hne : slot / 8 ≠ offset + i := by omega
    simp [if_neg hne]
  · rfl

theorem div_lt_header {page : Page} {slot : Nat} (h : slot < page.slotCount) :
    slot / 8 < page.headerSize := by
  simp only [slotCount, headerSize, layout, Layout.make, bitmapSize] at *
  omega

theorem bitmap_eq (page : Page) :
    page.bitmap = (List.range page.slotCount).map (slotBit page.data) := by
  apply List.ext_getElem?
  intro i
  simp only [bitmap, List.getElem?_take, Bits.getElem?_flatMap_ofByte, List.getElem?_map]
  by_cases hi : i < page.slotCount
  · have hheader := div_lt_header hi
    have hfits := page.headerSize_add_slots_le
    have hlt : i / 8 < page.data.length := by
      rw [size] at hfits
      omega
    rw [if_pos hi, if_pos hheader, List.getElem?_range hi, List.getElem?_eq_getElem hlt,
      Option.map_some, Option.map_some, slotBit_eq, List.getElem?_eq_getElem hlt]
    rfl
  · rw [if_neg hi, List.getElem?_eq_none (by simpa using hi)]
    rfl

/-! ## The map -/

/-- The tuple in a slot, if there is one. -/
def slot? (page : Page) (slot : UInt16) : Option Tuple := (page.tuple slot).toOption

theorem slot?_eq (page : Page) (slot : UInt16) :
    page.slot? slot
      = if slot.toNat < page.slotCount ∧ slotBit page.data slot.toNat = true then
          (Tuple.decode? page.schema (Bytes.slice page.data (page.slotOffset slot.toNat)
            page.schema.width)).map (·.withRecord (some ⟨page.id, slot⟩))
        else none := by
  have hlayout : page.tuple slot = page.tupleIn page.layout slot := rfl
  rw [slot?, hlayout, tupleIn]
  dsimp only
  by_cases hlt : page.layout.slots ≤ slot.toNat
  · rw [if_pos hlt, if_neg fun h => absurd h.1 (Nat.not_lt.2 hlt)]
    rfl
  · rw [if_neg hlt]
    by_cases hbit : slotBit page.data slot.toNat = false
    · rw [if_pos hbit, if_neg fun h => by rw [hbit] at h; exact absurd h.2 (by decide)]
      rfl
    · rw [if_neg hbit, if_pos ⟨Nat.lt_of_not_le hlt, by simpa using hbit⟩]
      rw [show page.layout.offset slot.toNat = page.slotOffset slot.toNat from rfl,
        show page.layout.width = page.schema.width from rfl]
      cases Tuple.decode? page.schema
        (Bytes.slice page.data (page.slotOffset slot.toNat) page.schema.width) <;> rfl

theorem isUsed_iff {page : Page} {slot : Nat} :
    page.isUsed slot = true ↔ slot < page.slotCount ∧ slotBit page.data slot = true := by
  simp [isUsed]

/-- The tuple in a slot by its number, which may be too large for an
address. -/
def row? (page : Page) (slot : Nat) : Option Tuple :=
  if page.isUsed slot then
    (Tuple.decode? page.schema (Bytes.slice page.data (page.slotOffset slot)
      page.schema.width)).map (·.withRecord (some (page.recordId slot)))
  else none

theorem slot?_eq_row? (page : Page) (slot : UInt16) : page.slot? slot = page.row? slot.toNat := by
  have hrecord : page.recordId slot.toNat = ⟨page.id, slot⟩ := by simp [recordId]
  rw [slot?_eq, row?, hrecord]
  by_cases hused : page.isUsed slot.toNat = true
  · rw [if_pos hused, if_pos (isUsed_iff.1 hused)]
  · rw [if_neg hused, if_neg fun h => hused (isUsed_iff.2 h)]

@[simp] theorem slot?_markDirty (page : Page) (txn : TxnId) (slot : UInt16) :
    (page.markDirty txn).slot? slot = page.slot? slot := rfl

@[simp] theorem slot?_markClean (page : Page) (slot : UInt16) :
    page.markClean.slot? slot = page.slot? slot := rfl

theorem slot?_zeros (id : PageId) (schema : Schema) (n : Nat) (slot : UInt16) :
    (ofBytes id schema (Bytes.zeros n)).slot? slot = none := by
  rw [slot?_eq, if_neg]
  rintro ⟨-, hbit⟩
  rw [slotBit_eq] at hbit
  simp only [ofBytes, Bytes.zeros, List.getElem?_replicate] at hbit
  split at hbit <;> simp at hbit

/-! ## Changes -/

section

variable {page changed : Page} {slot t : Nat}

theorem slotCount_congr (hschema : changed.schema = page.schema)
    (hlength : changed.data.length = page.data.length) : changed.slotCount = page.slotCount := by
  simp only [slotCount, layout, size, hschema, hlength]

theorem header_le_offset (page : Page) (slot : Nat) : page.headerSize ≤ page.slotOffset slot :=
  Nat.le_add_right _ _

/-- Slots come one behind the other. -/
theorem slotOffset_add_le (h : t < slot) :
    page.slotOffset t + page.schema.width ≤ page.slotOffset slot := by
  have hmul : (t + 1) * page.schema.width ≤ slot * page.schema.width :=
    Nat.mul_le_mul_right _ h
  rw [Nat.succ_mul] at hmul
  simp only [slotOffset, Layout.offset, layout, Layout.make]
  omega

theorem slotOffset_add_le_length (h : slot < page.slotCount) :
    page.slotOffset slot + page.schema.width ≤ page.data.length := by
  have hlast : page.slotOffset slot + page.schema.width ≤ page.slotOffset page.slotCount :=
    slotOffset_add_le h
  have hfits := page.headerSize_add_slots_le
  simp only [slotOffset, Layout.offset, headerSize, layout, Layout.make, slotCount, size]
    at hlast hfits ⊢
  omega

/-- A slot that is written leaves the bitmap, with its spare bits, alone. -/
theorem slotBit_writeAt (ht : t / 8 < page.headerSize) (patch : Bytes) :
    slotBit (Bytes.writeAt page.data (page.slotOffset slot) patch) t = slotBit page.data t := by
  have hoffset := page.header_le_offset slot
  have hfits := page.headerSize_add_slots_le
  rw [size] at hfits
  rw [slotBit_eq, slotBit_eq, Bytes.getElem?_writeAt_of_lt _ _ _ (by omega) (by omega)]

/-- A slot keeps its bytes when another one is written. -/
theorem slice_writeAt_of_ne (ht : t < page.slotCount) (hne : t ≠ slot) {patch : Bytes}
    (hpatch : patch.length = page.schema.width) :
    Bytes.slice (Bytes.writeAt page.data (page.slotOffset slot) patch) (page.slotOffset t)
        page.schema.width
      = Bytes.slice page.data (page.slotOffset t) page.schema.width := by
  rcases Nat.lt_or_gt_of_ne hne with hlt | hgt
  · exact Bytes.slice_writeAt_of_le _ _ (slotOffset_add_le hlt) (slotOffset_add_le_length ht)
  · refine Bytes.slice_writeAt_of_ge _ _ ?_
    rw [hpatch]
    exact slotOffset_add_le hgt

end

/-- What an insert makes of a page. -/
theorem insert_eq_ok {page changed : Page} {tuple : Tuple} {record : RecordId}
    (h : page.insert tuple = .ok (record, changed)) :
    tuple.schema.types = page.schema.types ∧ ∃ free, page.firstFree? = some free ∧
      record = page.recordId free ∧ changed = { page.capture with
        data :=
          setSlot (Bytes.writeAt page.data (page.slotOffset free) tuple.encode) free true } := by
  unfold insert at h
  split at h
  · cases h
  rename_i hagrees
  split at h
  · cases h
  rename_i free hfree
  cases h
  rw [Bool.not_eq_false, Schema.agrees_iff] at hagrees
  exact ⟨hagrees, free, hfree, rfl, rfl⟩

/-- What a delete makes of a page. -/
theorem delete_eq_ok {page changed : Page} {record : Option RecordId}
    (h : page.delete record = .ok changed) : ∃ address, record = some address ∧
      address.page = page.id ∧ address.slot.toNat < page.slotCount ∧
      changed = { page.capture with data := setSlot page.data address.slot.toNat false } := by
  cases record with
  | none => cases h
  | some address =>
      simp only [delete] at h
      split at h
      · cases h
      rename_i hnames
      split at h
      · cases h
      cases h
      obtain ⟨hpage, hlt⟩ : address.page = page.id ∧ address.slot.toNat < page.slotCount := by
        simpa [not_or] using hnames
      exact ⟨address, rfl, hpage, hlt, rfl⟩

/-- A tuple was added to a page or taken from it. -/
inductive Becomes (page changed : Page) : Prop where
  | insert {tuple : Tuple} {record : RecordId} (h : page.insert tuple = .ok (record, changed))
  | delete {record : Option RecordId} (h : page.delete record = .ok changed)

theorem Becomes.capture_eq {page changed : Page} (h : page.Becomes changed) :
    ∃ data, data.length = page.data.length ∧ changed = { page.capture with data } := by
  cases h with
  | insert h =>
      obtain ⟨-, free, -, -, hchanged⟩ := insert_eq_ok h
      exact ⟨_, (congrArg (·.data.length) hchanged).symm.trans (length_data_insert h), hchanged⟩
  | delete h =>
      obtain ⟨address, -, -, -, hchanged⟩ := delete_eq_ok h
      exact ⟨_, length_setSlot _ _ _, hchanged⟩

theorem Becomes.id_eq {page changed : Page} (h : page.Becomes changed) :
    changed.id = page.id := by
  obtain ⟨data, -, rfl⟩ := h.capture_eq
  rfl

theorem Becomes.length_data {page changed : Page} (h : page.Becomes changed) :
    changed.data.length = page.data.length := by
  obtain ⟨data, hlength, rfl⟩ := h.capture_eq
  exact hlength

/-- Changes and marks leave the last clean state as it was. -/
theorem Becomes.beforePage_eq {page changed : Page} (h : page.Becomes changed) (txn : TxnId) :
    (changed.markDirty txn).beforePage = page.beforePage := by
  obtain ⟨data, -, rfl⟩ := h.capture_eq
  rfl

/-- The rows of a page with other bytes. -/
theorem row?_of_data {page : Page} {data : Bytes} (hlength : data.length = page.data.length)
    (slot : Nat) :
    ({ page.capture with data } : Page).row? slot
      = if slot < page.slotCount ∧ slotBit data slot = true then
          (Tuple.decode? page.schema (Bytes.slice data (page.slotOffset slot)
            page.schema.width)).map (·.withRecord (some (page.recordId slot)))
        else none := by
  have hlayout : ({ page.capture with data } : Page).layout = page.layout := by
    simp only [layout, size, hlength]
    rfl
  have hused : ({ page.capture with data } : Page).isUsed slot = true
      ↔ slot < page.slotCount ∧ slotBit data slot = true := by
    rw [isUsed_iff, slotCount, hlayout]
    rfl
  rw [row?, slotOffset, hlayout]
  by_cases h : slot < page.slotCount ∧ slotBit data slot = true
  · rw [if_pos h, if_pos (hused.2 h)]
    rfl
  · rw [if_neg h, if_neg fun h' => h (hused.1 h')]

/-- An insert fills the lowest free slot with the tuple, as it is read back. -/
theorem row?_insert {page changed : Page} {tuple : Tuple} {record : RecordId}
    (h : page.insert tuple = .ok (record, changed)) :
    ∃ free, page.firstFree? = some free ∧ record = page.recordId free ∧
      ∀ slot, changed.row? slot
        = if slot = free then
            (Tuple.decode? page.schema tuple.encode).map (·.withRecord (some record))
          else page.row? slot := by
  have hlength := length_data_insert h
  obtain ⟨htypes, free, hfree, rfl, rfl⟩ := insert_eq_ok h
  have hlt := firstFree?_lt hfree
  have hwidth : tuple.encode.length = page.schema.width := by
    rw [Tuple.length_encode, Schema.width, htypes, Schema.width]
  have hheader := div_lt_header hlt
  have hoffset : ∀ t, free / 8 < page.slotOffset t := fun t =>
    Nat.lt_of_lt_of_le hheader (page.header_le_offset t)
  have hbyte : free / 8
      < (Bytes.writeAt page.data (page.slotOffset free) tuple.encode).length := by
    have hfree := hoffset free
    rw [Bytes.length_writeAt]
    omega
  refine ⟨free, hfree, rfl, fun slot => ?_⟩
  rw [row?_of_data hlength, slotBit_setSlot _ _ _ _ hbyte, slice_setSlot _ _ _ (hoffset _)]
  by_cases hslot : slot = free
  · have hslice : Bytes.slice (Bytes.writeAt page.data (page.slotOffset free) tuple.encode)
        (page.slotOffset free) page.schema.width = tuple.encode := by
      rw [← hwidth, Bytes.slice_writeAt]
    rw [hslot, if_pos ⟨hlt, if_pos rfl⟩, if_pos rfl, hslice]
  · rw [if_neg hslot, if_neg hslot]
    by_cases hbelow : slot < page.slotCount
    · rw [slotBit_writeAt (div_lt_header hbelow), slice_writeAt_of_ne hbelow hslot hwidth, row?]
      simp only [isUsed_iff]
    · rw [if_neg fun hand => hbelow hand.1, row?, if_neg fun hused => hbelow (isUsed_iff.1 hused).1]

/-- A delete empties a slot. -/
theorem row?_delete {page changed : Page} {record : RecordId}
    (h : page.delete (some record) = .ok changed) (slot : Nat) :
    changed.row? slot = if slot = record.slot.toNat then none else page.row? slot := by
  obtain ⟨address, heq, -, hlt, rfl⟩ := delete_eq_ok h
  cases heq
  have hheader := div_lt_header hlt
  have hbyte : record.slot.toNat / 8 < page.data.length := by
    have hfits := page.headerSize_add_slots_le
    rw [size] at hfits
    omega
  rw [row?_of_data (length_setSlot _ _ _), slotBit_setSlot _ _ _ _ hbyte,
    slice_setSlot _ _ _ (Nat.lt_of_lt_of_le hheader (page.header_le_offset _))]
  by_cases hslot : slot = record.slot.toNat
  · rw [if_pos hslot, if_pos hslot, if_neg fun hand => absurd hand.2 (by decide)]
  · rw [if_neg hslot, if_neg hslot, row?]
    simp only [isUsed_iff]

theorem slot?_insert {page changed : Page} {tuple : Tuple} {record : RecordId}
    (h : page.insert tuple = .ok (record, changed)) (hslots : page.slotCount ≤ UInt16.size) :
    record.page = page.id ∧ ∀ slot, changed.slot? slot
      = if slot = record.slot then
          (Tuple.decode? page.schema tuple.encode).map (·.withRecord (some record))
        else page.slot? slot := by
  obtain ⟨free, hfree, rfl, hrows⟩ := row?_insert h
  have hfree16 : free.toUInt16.toNat = free :=
    UInt16.toNat_ofNat_of_lt' (Nat.lt_of_lt_of_le (firstFree?_lt hfree) hslots)
  refine ⟨rfl, fun slot => ?_⟩
  have hslot : slot.toNat = free ↔ slot = (page.recordId free).slot := by
    rw [← UInt16.toNat_inj, show (page.recordId free).slot.toNat = free from hfree16]
  rw [slot?_eq_row?, slot?_eq_row?, hrows]
  simp only [hslot]

theorem slot?_delete {page changed : Page} {record : RecordId}
    (h : page.delete (some record) = .ok changed) :
    record.page = page.id ∧ ∀ slot, changed.slot? slot
      = if slot = record.slot then none else page.slot? slot := by
  obtain ⟨address, heq, hpage, -, -⟩ := delete_eq_ok h
  cases heq
  refine ⟨hpage, fun slot => ?_⟩
  rw [slot?_eq_row?, slot?_eq_row?, row?_delete h]
  simp only [UInt16.toNat_inj]

/-! ## All tuples -/

theorem usedSlots_eq (page : Page) :
    page.usedSlots = (List.range page.slotCount).filter page.isUsed := by
  have hzip : page.bitmap.zipIdx
      = (List.range page.slotCount).map fun slot => (slotBit page.data slot, slot) := by
    rw [bitmap_eq]
    apply List.ext_getElem?
    intro i
    simp only [List.getElem?_zipIdx, List.getElem?_map]
    by_cases hi : i < page.slotCount
    · simp [List.getElem?_range hi]
    · simp [List.getElem?_eq_none (show (List.range page.slotCount).length ≤ i by simpa using hi)]
  rw [usedSlots, hzip, List.filterMap_map, ← List.filterMap_eq_filter]
  refine List.filterMap_congr fun slot hslot => ?_
  simp only [Option.guard, isUsed, List.mem_range.1 hslot, decide_true, Bool.true_and]
  rfl

theorem slot?_eq_none {page : Page} {slot : Nat} (hlt : slot < UInt16.size)
    (hfree : page.slotCount ≤ slot ∨ slotBit page.data slot = false) :
    page.slot? slot.toUInt16 = none := by
  rw [slot?_eq, UInt16.toNat_ofNat_of_lt' hlt, if_neg]
  rintro ⟨hbelow, hbit⟩
  rcases hfree with hle | hbit'
  · omega
  · rw [hbit] at hbit'
    cases hbit'

/-- The tuples of a page are the values of its map, slot by slot. -/
theorem tuples_eq_slots {page : Page} (hslots : page.slotCount ≤ UInt16.size) :
    page.tuples = (List.range UInt16.size).filterMap fun slot => page.slot? slot.toUInt16 := by
  obtain ⟨spare, hspare⟩ : ∃ spare, UInt16.size = page.slotCount + spare :=
    ⟨UInt16.size - page.slotCount, by omega⟩
  have hbehind : ((List.range spare).map (page.slotCount + ·)).filterMap
      (fun slot => page.slot? slot.toUInt16) = [] := by
    rw [List.filterMap_eq_nil_iff]
    intro slot hslot
    obtain ⟨i, hi, rfl⟩ := List.mem_map.1 hslot
    have hi := List.mem_range.1 hi
    exact slot?_eq_none (by omega) (.inl (Nat.le_add_right _ _))
  rw [tuples_eq, usedSlots_eq, List.filterMap_filter, hspare, List.range_add,
    List.filterMap_append, hbehind, List.append_nil]
  refine List.filterMap_congr fun slot hslot => ?_
  have hlt := List.mem_range.1 hslot
  by_cases hused : page.isUsed slot = true
  · rw [if_pos hused]
    rfl
  · have hbit : slotBit page.data slot ≠ true := fun hbit => hused (isUsed_iff.2 ⟨hlt, hbit⟩)
    rw [if_neg hused, slot?_eq_none (by omega) (.inr (by simpa using hbit))]

end Page

end HeapStore
