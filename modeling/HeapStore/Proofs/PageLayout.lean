import HeapStore.Proofs.SlotMap

/-!
# The layout of a page

The number of slots is a floor over bits, and the bitmap in front of them a
ceiling over bytes. The two roundings agree: slots with their bitmap fit on a page
if and only if they are no more than the page has (`Page.fits_iff`). So the bitmap
has a bit of its own for each slot, and each slot has bytes of its own behind it
(`Page.Layout.Exact`).

Every call on a page reads and writes at positions that the layout names. The
watched form of a call does the same and fails at once when it goes beside the
bytes of the page, or when what it copies has another length than its place. It
never does, whatever bytes the page has (`Page.Guarded`).

Headline: `layout_fits_exactly`.
-/

namespace HeapStore

/-! ## Reading and writing under watch -/

namespace Bytes

/-- The bytes from `start` up to `stop`; nothing when they are not all there. -/
def sliceWatched (data : Bytes) (start stop : Nat) : Option Bytes :=
  if start ≤ stop ∧ stop ≤ data.length then some (slice data start (stop - start)) else none

/-- `data` with `patch` in place of the bytes from `start` up to `stop`; nothing
when these are not all there, or are not as many. -/
def copyWatched (data : Bytes) (start stop : Nat) (patch : Bytes) : Option Bytes :=
  if start ≤ stop ∧ stop ≤ data.length ∧ patch.length = stop - start then
    some (data.take start ++ patch ++ data.drop stop)
  else none

variable {data patch : Bytes} {start count : Nat}

theorem sliceWatched_eq (h : start + count ≤ data.length) :
    sliceWatched data start (start + count) = some (slice data start count) := by
  rw [sliceWatched, if_pos ⟨Nat.le_add_right _ _, h⟩, Nat.add_sub_cancel_left]

theorem copyWatched_eq (h : start + count ≤ data.length) (hpatch : patch.length = count) :
    copyWatched data start (start + count) patch = some (writeAt data start patch) := by
  have hgap : zeros (start - data.length) = [] := by
    rw [Nat.sub_eq_zero_of_le (by omega)]
    rfl
  rw [copyWatched, if_pos ⟨Nat.le_add_right _ _, h, by omega⟩, writeAt, hgap, List.append_nil,
    hpatch]

end Bytes

namespace Page

/-! ## Slots that fit -/

/-- So many slots fit, with a bit each, as the page has, and no more. -/
theorem fits_iff (size slots : Nat) (schema : Schema) :
    bitmapSize slots + slots * schema.width ≤ size ↔ slots ≤ slotsPerPage size schema := by
  have hbits : slots * (schema.width * 8 + 1) = 8 * (slots * schema.width) + slots := by
    rw [Nat.mul_add, Nat.mul_one, ← Nat.mul_assoc, Nat.mul_comm _ 8]
  rw [slotsPerPage, Nat.le_div_iff_mul_le (Nat.succ_pos _), hbits, bitmapSize]
  omega

/-- The positions of a slot's bytes. -/
def Layout.range (layout : Layout) (slot : Nat) : List Nat :=
  List.range' (layout.offset slot) layout.width

/-- The layout fits on a page of `size` bytes and leaves no room for another slot. -/
structure Layout.Exact (layout : Layout) (size : Nat) : Prop where
  header_eq : layout.header = bitmapSize layout.slots
  fits : layout.header + layout.slots * layout.width ≤ size
  full : size < bitmapSize (layout.slots + 1) + (layout.slots + 1) * layout.width
  bit_lt : ∀ slot < layout.slots, slot / 8 < layout.header
  behind : ∀ slot < layout.slots, layout.header ≤ layout.offset slot
  inside : ∀ slot < layout.slots, layout.offset slot + layout.width ≤ size
  apart : ∀ s < layout.slots, ∀ t < layout.slots, s ≠ t →
    (layout.range s).Disjoint (layout.range t)
  /-- To set or clear the bit of a slot changes it for no other slot. -/
  ownBit : ∀ data : Bytes, data.length = size → ∀ s < layout.slots, ∀ t used,
    slotBit (setSlot data s used) t = if t = s then used else slotBit data t

theorem disjoint_range {layout : Layout} {s t : Nat} (hne : s ≠ t) :
    (layout.range s).Disjoint (layout.range t) := by
  have hbehind : ∀ {s t : Nat}, s < t → layout.offset s + layout.width ≤ layout.offset t := by
    intro s t hlt
    have hmul : (s + 1) * layout.width ≤ t * layout.width := Nat.mul_le_mul_right _ hlt
    rw [Nat.succ_mul] at hmul
    simp only [Layout.offset]
    omega
  intro i his hit
  simp only [Layout.range, List.mem_range'_1] at his hit
  rcases Nat.lt_or_gt_of_ne hne with hlt | hgt
  · have hstep := hbehind hlt
    omega
  · have hstep := hbehind hgt
    omega

theorem exact_make (size : Nat) (schema : Schema) : (Layout.make size schema).Exact size := by
  have hfits := (fits_iff size _ schema).2 (Nat.le_refl (slotsPerPage size schema))
  have hbit : ∀ slot < slotsPerPage size schema,
      slot / 8 < bitmapSize (slotsPerPage size schema) := fun slot hslot => by
    rw [bitmapSize]
    omega
  constructor
  case header_eq => rfl
  case fits => exact hfits
  case full =>
    refine Nat.lt_of_not_le fun hmore => ?_
    exact Nat.not_succ_le_self _ ((fits_iff size _ schema).1 hmore)
  case bit_lt => exact hbit
  case behind => exact fun slot _ => Nat.le_add_right _ _
  case inside =>
    intro slot hslot
    have hmul : (slot + 1) * schema.width ≤ slotsPerPage size schema * schema.width :=
      Nat.mul_le_mul_right _ hslot
    rw [Nat.succ_mul] at hmul
    simp only [Layout.offset, Layout.make]
    omega
  case apart => exact fun s _ t _ hne => disjoint_range hne
  case ownBit =>
    intro data hdata s hs t used
    have hbyte := hbit s hs
    exact slotBit_setSlot _ _ _ _ (by omega)

/-! ## Calls under watch -/

/-- `isUsed` under watch. -/
def isUsedWatched (page : Page) (slot : Nat) : Option Bool :=
  if slot < page.slotCount then do
    let byte ← page.data[slot / 8]?
    return byte.toNat.testBit (slot % 8)
  else return false

/-- `setSlot` under watch. -/
def setSlotWatched (data : Bytes) (slot : Nat) (used : Bool) : Option Bytes := do
  let byte ← data[slot / 8]?
  return data.set (slot / 8) (Bits.put byte (slot % 8) used)

/-- `tuple` under watch. -/
def tupleWatched (page : Page) (slot : UInt16) : Option (Except Error Tuple) := do
  let record : RecordId := ⟨page.id, slot⟩
  if page.slotCount ≤ slot.toNat then return .error (.tupleNotFound record)
  else if ← page.isUsedWatched slot.toNat then
    let start := page.slotOffset slot.toNat
    let stored ← Bytes.sliceWatched page.data start (start + page.schema.width)
    match Tuple.decode? page.schema stored with
    | none => return .error (.schemaMismatch .corruptBytes)
    | some tuple => return .ok (tuple.withRecord (some record))
  else return .error (.emptySlot slot)

/-- `insert` under watch. -/
def insertWatched (page : Page) (tuple : Tuple) : Option (Except Error (RecordId × Page)) := do
  if tuple.schema.agrees page.schema = false then
    return .error (.schemaMismatch (.otherPage tuple.schema page.schema))
  else
    let isFree (slot : Nat) : Option Bool := (!·) <$> page.isUsedWatched slot
    match ← (List.range page.slotCount).findM? isFree with
    | none => return .error (.pageFull page.id)
    | some slot =>
      let start := page.slotOffset slot
      let data ← Bytes.copyWatched page.data start (start + page.schema.width) tuple.encode
      let data ← setSlotWatched data slot true
      return .ok (page.recordId slot, { page.capture with data })

/-- `delete` under watch. -/
def deleteWatched (page : Page) (record : Option RecordId) : Option (Except Error Page) := do
  match record with
  | none => return .error .invalidRecordId
  | some record =>
    let slot := record.slot.toNat
    if record.page ≠ page.id ∨ page.slotCount ≤ slot then return .error (.tupleNotFound record)
    else if ← page.isUsedWatched slot then
      let data ← setSlotWatched page.data slot false
      return .ok { page.capture with data }
    else return .error (.emptySlot record.slot)

/-- No call goes beside the bytes of the page, copies as many bytes as do not
belong there, or finds bytes in a slot that are no tuple. -/
structure Guarded (page : Page) : Prop where
  isUsed : ∀ slot, page.isUsedWatched slot = some (page.isUsed slot)
  setSlot : ∀ slot < page.slotCount, ∀ used,
    setSlotWatched page.data slot used = some (setSlot page.data slot used)
  tuple : ∀ slot, page.tupleWatched slot = some (page.tuple slot)
  insert : ∀ tuple, page.insertWatched tuple = some (page.insert tuple)
  delete : ∀ record, page.deleteWatched record = some (page.delete record)
  notCorrupt : ∀ slot, page.tuple slot ≠ .error (.schemaMismatch .corruptBytes)

section

variable {page : Page} {data : Bytes} {slot : Nat}

theorem div_lt_length (h : slot < page.slotCount) : slot / 8 < page.data.length := by
  have hbit := div_lt_header h
  have hfits := page.headerSize_add_slots_le
  rw [size] at hfits
  omega

theorem isUsedWatched_eq (page : Page) (slot : Nat) :
    page.isUsedWatched slot = some (page.isUsed slot) := by
  rw [isUsedWatched, isUsed, slotBit_eq]
  split
  · rename_i hslot
    simp [List.getElem?_eq_getElem (div_lt_length hslot), hslot]
  · rename_i hslot
    simp [hslot]

theorem setSlotWatched_eq (h : slot / 8 < data.length) (used : Bool) :
    setSlotWatched data slot used = some (setSlot data slot used) := by
  rw [setSlotWatched, List.getElem?_eq_getElem h, setSlot, List.modify_eq_set_getElem?,
    List.getElem?_eq_getElem h]
  rfl

theorem tupleWatched_eq (page : Page) (slot : UInt16) :
    page.tupleWatched slot = some (page.tuple slot) := by
  rw [tupleWatched, isUsedWatched_eq, tuple_eq]
  split
  · rfl
  rename_i hbelow
  have hslot : slot.toNat < page.slotCount := Nat.lt_of_not_le hbelow
  by_cases hused : page.isUsed slot.toNat = true
  · obtain ⟨stored, hstored⟩ := exists_decode?_slot hslot
    have hrecord : page.recordId slot.toNat = ⟨page.id, slot⟩ := by simp [recordId]
    rw [row?, if_pos hused, hstored, hrecord]
    simp [hused, Bytes.sliceWatched_eq (slotOffset_add_le_length hslot), hstored]
  · rw [row?, if_neg hused]
    simp [hused]

/-- A slot has enough bytes for a tuple. -/
theorem tuple_ne_corrupt (page : Page) (slot : UInt16) :
    page.tuple slot ≠ .error (.schemaMismatch .corruptBytes) := by
  rw [tuple_eq]
  split
  · simp
  · split <;> simp

theorem insertWatched_eq (page : Page) (tuple : Tuple) :
    page.insertWatched tuple = some (page.insert tuple) := by
  rw [insertWatched, insert]
  split
  · rfl
  rename_i hagrees
  have hfree : ((List.range page.slotCount).findM? fun slot => (!·) <$> page.isUsedWatched slot)
      = some page.firstFree? := by
    simp only [isUsedWatched_eq, Option.map_eq_map, Option.map_some]
    rw [firstFree?_eq]
    exact List.findM?_pure _ _
  simp only [hfree, Option.bind_eq_bind, Option.bind_some]
  cases hslot : page.firstFree? with
  | none => rfl
  | some slot =>
      have hlt := firstFree?_lt hslot
      have hwidth : tuple.encode.length = page.schema.width := by
        rw [Bool.not_eq_false, Schema.agrees_iff] at hagrees
        rw [Tuple.length_encode, Schema.width, hagrees, Schema.width]
      have hbyte : slot / 8
          < (Bytes.writeAt page.data (page.slotOffset slot) tuple.encode).length :=
        Nat.lt_of_lt_of_le (div_lt_length hlt) (by rw [Bytes.length_writeAt]; omega)
      dsimp only
      rw [Bytes.copyWatched_eq (slotOffset_add_le_length hlt) hwidth, Option.bind_some,
        setSlotWatched_eq hbyte]
      rfl

theorem deleteWatched_eq (page : Page) (record : Option RecordId) :
    page.deleteWatched record = some (page.delete record) := by
  cases record with
  | none => rfl
  | some record =>
      simp only [deleteWatched, delete, isUsedWatched_eq]
      split
      · rfl
      rename_i hnames
      have hslot : record.slot.toNat < page.slotCount := by
        simpa using (not_or.1 hnames).2
      cases page.isUsed record.slot.toNat with
      | false => rfl
      | true =>
          simp [setSlotWatched_eq (div_lt_length hslot)]

theorem guarded (page : Page) : page.Guarded where
  isUsed := page.isUsedWatched_eq
  setSlot := fun _ hslot used => setSlotWatched_eq (div_lt_length hslot) used
  tuple := page.tupleWatched_eq
  insert := page.insertWatched_eq
  delete := page.deleteWatched_eq
  notCorrupt := page.tuple_ne_corrupt

end

end Page

/-- A page whose bits can be counted has so many slots that they fit with their
bitmap, and one more would not. The bits of the slots lie in the bitmap, and their
bytes on the page, behind the bitmap; no two slots share a bit or a byte. So on a
page with any bytes no call reads or writes beside them, copies as many bytes as
do not belong there, or finds bytes that are no tuple. -/
theorem layout_fits_exactly (schema : Schema) {size : Nat} (hsize : size * 8 < UInt64.size) :
    Page.slotsIn size schema = .ok (Page.Layout.make size schema).slots ∧
    (Page.Layout.make size schema).Exact size ∧
    ∀ page : Page, page.schema = schema → page.size = size →
      page.layout = .make size schema ∧ page.Guarded := by
  refine ⟨if_neg (Nat.not_le.2 hsize), Page.exact_make size schema, ?_⟩
  rintro page rfl rfl
  exact ⟨rfl, page.guarded⟩

/-- A page without a spare bit or byte, and one that is too small for a tuple. -/
theorem layout_fits_exactly_nineBytes :
    (9 * 8 < UInt64.size ∧ Page.slotsIn 9 (.unnamed [.int]) = .ok 2 ∧
      (Page.Layout.make 9 (.unnamed [.int])).Exact 9) ∧
    4 * 8 < UInt64.size ∧ Page.slotsIn 4 (.unnamed [.int]) = .ok 0 ∧
      (Page.ofBytes ⟨⟨1⟩, 0⟩ (.unnamed [.int]) [255, 255, 255, 255]).Guarded := by
  have hnine : 9 * 8 < UInt64.size := by decide
  have hfour : 4 * 8 < UInt64.size := by decide
  obtain ⟨htwo, hexact, -⟩ := layout_fits_exactly (.unnamed [.int]) hnine
  obtain ⟨hnone, -, hpage⟩ := layout_fits_exactly (.unnamed [.int]) hfour
  exact ⟨⟨hnine, htwo, hexact⟩, hfour, hnone, (hpage _ rfl rfl).2⟩

end HeapStore
