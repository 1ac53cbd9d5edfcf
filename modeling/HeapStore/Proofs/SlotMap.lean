import HeapStore.Proofs.Slots

/-!
# A page is a finite map

A `SlotMap` is what a page stands for: so many slots, and a tuple in some of
them. Tuples are put into the lowest free slot and taken from the slot that an
address names. A page does the same with bits and bytes: after any calls it has
given the answers of the map, and it shows the map's tuples
(`page_refines_slotMap`).

A change touches the slot it names. The bits of the other slots, the bits of
the bitmap that belong to no slot, the bytes of the other slots and the bytes
behind the last slot stay (`Page.SameBut`), and so do the bytes of a slot that
is freed.
-/

namespace HeapStore

/-- Tuples by the number of their slot. -/
structure SlotMap where
  id : PageId
  schema : Schema
  /-- The number of slots. -/
  size : Nat
  row? : Nat → Option Tuple

namespace SlotMap

def lowestFree? (map : SlotMap) : Option Nat :=
  (List.range map.size).find? fun slot => (map.row? slot).isNone

def set (map : SlotMap) (slot : Nat) (row : Option Tuple) : SlotMap :=
  { map with row? := fun t => if t = slot then row else map.row? t }

/-- Puts a tuple, as it is read back from its stored form, into the lowest
free slot. -/
def insert (map : SlotMap) (tuple : Tuple) : Except Error (RecordId × SlotMap) :=
  if tuple.schema.agrees map.schema = false then
    .error (.schemaMismatch (.otherPage tuple.schema map.schema))
  else
    match map.lowestFree? with
    | none => .error (.pageFull map.id)
    | some slot =>
      let record : RecordId := ⟨map.id, slot.toUInt16⟩
      let row := (Tuple.decode? map.schema tuple.encode).map (·.withRecord (some record))
      .ok (record, map.set slot row)

def delete (map : SlotMap) : Option RecordId → Except Error SlotMap
  | none => .error .invalidRecordId
  | some record =>
    if record.page ≠ map.id ∨ map.size ≤ record.slot.toNat then .error (.tupleNotFound record)
    else
      match map.row? record.slot.toNat with
      | none => .error (.emptySlot record.slot)
      | some _ => .ok (map.set record.slot.toNat none)

def tuple (map : SlotMap) (slot : UInt16) : Except Error Tuple :=
  if map.size ≤ slot.toNat then .error (.tupleNotFound ⟨map.id, slot⟩)
  else
    match map.row? slot.toNat with
    | none => .error (.emptySlot slot)
    | some tuple => .ok tuple

def tuples (map : SlotMap) : List Tuple := (List.range map.size).filterMap map.row?

end SlotMap

/-! ## Calls -/

/-- Something into which tuples are put, and from which they are taken. -/
class Slotted (σ : Type) where
  insert : σ → Tuple → Except Error (RecordId × σ)
  delete : σ → Option RecordId → Except Error σ

instance : Slotted Page := ⟨Page.insert, Page.delete⟩

instance : Slotted SlotMap := ⟨SlotMap.insert, SlotMap.delete⟩

/-- A change that is asked of a page, with a tuple in hand. -/
inductive PageCall where
  | insert (tuple : Tuple)
  | delete (tuple : Tuple)

namespace PageCall

def tuple : PageCall → Tuple
  | .insert tuple => tuple
  | .delete tuple => tuple

/-- The answer to a call, with the address of a tuple that was put in; and
the tuple that the caller has in hand then, which knows its address. -/
abbrev Outcome := Except Error (Option RecordId) × Tuple

variable {σ τ : Type} [Slotted σ] [Slotted τ]

def run : PageCall → σ → Outcome × σ
  | .insert tuple, page =>
    match Slotted.insert page tuple with
    | .ok (record, changed) => ((.ok (some record), tuple.withRecord (some record)), changed)
    | .error cause => ((.error cause, tuple), page)
  | .delete tuple, page =>
    match Slotted.delete page tuple.record with
    | .ok changed => ((.ok none, tuple), changed)
    | .error cause => ((.error cause, tuple), page)

/-- The outcomes of calls, one after the other, and what they leave. -/
def runAll : List PageCall → σ → List Outcome × σ
  | [], page => ([], page)
  | call :: calls, page =>
    let (outcome, changed) := call.run page
    let (outcomes, last) := runAll calls changed
    (outcome :: outcomes, last)

/-- What is the same for each insert and delete is the same for all calls. -/
theorem runAll_map (f : σ → τ)
    (hinsert : ∀ page tuple, Slotted.insert (f page) tuple
      = (Slotted.insert page tuple).map fun (record, changed) => (record, f changed))
    (hdelete : ∀ page record, Slotted.delete (f page) record
      = (Slotted.delete page record).map f)
    (calls : List PageCall) (page : σ) :
    runAll calls (f page) = ((runAll calls page).1, f (runAll calls page).2) := by
  have hrun : ∀ (call : PageCall) page, call.run (f page)
      = ((call.run page).1, f (call.run page).2) := by
    intro call page
    cases call with
    | insert tuple =>
        simp only [run, hinsert]
        cases Slotted.insert page tuple <;> rfl
    | delete tuple =>
        simp only [run, hdelete]
        cases Slotted.delete page tuple.record <;> rfl
  induction calls generalizing page with
  | nil => rfl
  | cons call calls ih => simp only [runAll, hrun, ih]

end PageCall

/-- A tuple can be read back as a tuple of any schema with its types. -/
theorem Tuple.exists_decode?_encode {tuple : Tuple} {schema : Schema}
    (h : tuple.schema.agrees schema = true) :
    ∃ stored, decode? schema tuple.encode = some stored := by
  rw [← Option.ne_none_iff_exists', Ne, decode?_eq_none_iff, length_encode, Schema.width,
    Schema.width, Schema.agrees_iff.1 h]
  omega

namespace Page

/-! ## Slots and their rows -/

/-- The bytes of a slot are enough for a tuple. -/
theorem exists_decode?_slot {page : Page} {slot : Nat} (h : slot < page.slotCount) :
    ∃ stored, Tuple.decode? page.schema (Bytes.slice page.data (page.slotOffset slot)
      page.schema.width) = some stored := by
  rw [← Option.ne_none_iff_exists', Ne, Tuple.decode?_eq_none_iff, Bytes.length_slice]
  have hfits := slotOffset_add_le_length h
  omega

theorem isSome_row? (page : Page) (slot : Nat) : (page.row? slot).isSome = page.isUsed slot := by
  rw [row?]
  split
  · rename_i hused
    obtain ⟨stored, hstored⟩ := exists_decode?_slot (isUsed_iff.1 hused).1
    rw [hstored, hused]
    rfl
  · rename_i hfree
    simpa using hfree

theorem isNone_row? (page : Page) (slot : Nat) : (page.row? slot).isNone = !page.isUsed slot := by
  rw [← isSome_row?, Option.not_isSome]

theorem record_of_row? {page : Page} {slot : Nat} {tuple : Tuple}
    (h : page.row? slot = some tuple) : tuple.record = some (page.recordId slot) := by
  rw [row?] at h
  split at h
  · obtain ⟨stored, -, rfl⟩ := Option.map_eq_some_iff.1 h
    rfl
  · cases h

/-- What is read from a slot is its row. -/
theorem tuple_eq (page : Page) (slot : UInt16) :
    page.tuple slot =
      if page.slotCount ≤ slot.toNat then .error (.tupleNotFound ⟨page.id, slot⟩)
      else
        match page.row? slot.toNat with
        | none => .error (.emptySlot slot)
        | some tuple => .ok tuple := by
  have hlayout : page.tuple slot = page.tupleIn page.layout slot := rfl
  rw [hlayout, tupleIn]
  by_cases hbelow : page.slotCount ≤ slot.toNat
  · rw [if_pos hbelow]
    exact if_pos hbelow
  have hlt := Nat.lt_of_not_le hbelow
  rw [if_neg hbelow, if_neg (show ¬page.layout.slots ≤ slot.toNat from hbelow)]
  by_cases hbit : slotBit page.data slot.toNat = true
  · obtain ⟨stored, hstored⟩ := exists_decode?_slot hlt
    have hrecord : page.recordId slot.toNat = ⟨page.id, slot⟩ := by simp [recordId]
    have hrow : page.row? slot.toNat = some (stored.withRecord (some ⟨page.id, slot⟩)) := by
      rw [row?, if_pos (isUsed_iff.2 ⟨hlt, hbit⟩), hstored, hrecord]
      rfl
    have hstored' : Tuple.decode? page.schema (Bytes.slice page.data
        (page.layout.offset slot.toNat) page.layout.width) = some stored := hstored
    rw [hbit, if_neg (by decide), hrow]
    simp only [hstored']
  · have hrow : page.row? slot.toNat = none := by
      rw [row?, if_neg fun hused => hbit (isUsed_iff.1 hused).2]
    rw [hrow]
    exact if_pos (by simpa using hbit)

theorem freeCount_eq (page : Page) :
    page.freeCount = (List.range page.slotCount).countP fun slot => !page.isUsed slot := by
  rw [freeCount, bitmap_eq, List.count, List.countP_map]
  refine List.countP_congr fun slot hslot => ?_
  simp [isUsed, List.mem_range.1 hslot]

/-- The lowest slot that is free, by its number. -/
theorem firstFree?_eq (page : Page) :
    page.firstFree? = (List.range page.slotCount).find? fun slot => !page.isUsed slot := by
  have hused : ∀ slot < page.slotCount, page.isUsed slot = slotBit page.data slot :=
    fun slot hslot => by simp [isUsed, hslot]
  ext slot
  rw [firstFree?, List.findIdx?_eq_some_iff_getElem, List.find?_range_eq_some]
  simp only [bitmap_eq, List.getElem_map, List.getElem_range, List.length_map, List.length_range]
  constructor
  · rintro ⟨hlt, hfree, hbelow⟩
    refine ⟨by rwa [hused slot hlt], by simpa using hlt, fun t ht => ?_⟩
    rw [hused t (by omega), Bool.not_not]
    simpa using hbelow t ht
  · rintro ⟨hfree, hlt, hbelow⟩
    have hlt : slot < page.slotCount := by simpa using hlt
    refine ⟨hlt, by rwa [← hused slot hlt], fun t ht => ?_⟩
    rw [← hused t (by omega)]
    simpa using hbelow t ht

theorem firstFree?_eq_none_iff {page : Page} :
    page.firstFree? = none ↔ ∀ slot < page.slotCount, page.isUsed slot = true := by
  simp [firstFree?_eq]

theorem firstFree?_eq_some_iff {page : Page} {slot : Nat} :
    page.firstFree? = some slot ↔
      slot < page.slotCount ∧ page.isUsed slot = false ∧ ∀ t < slot, page.isUsed t = true := by
  rw [firstFree?_eq, List.find?_range_eq_some, List.mem_range]
  simp only [Bool.not_eq_true', Bool.not_not]
  tauto

theorem insert_of_firstFree? {page : Page} {tuple : Tuple} {slot : Nat}
    (hagrees : tuple.schema.agrees page.schema = true) (hfree : page.firstFree? = some slot) :
    ∃ changed, page.insert tuple = .ok (page.recordId slot, changed) := by
  rw [insert, if_neg (by simp [hagrees]), hfree]
  exact ⟨_, rfl⟩

theorem delete_of_isUsed {page : Page} {record : RecordId} (hpage : record.page = page.id)
    (hused : page.isUsed record.slot.toNat = true) :
    ∃ changed, page.delete (some record) = .ok changed := by
  have hlt := (isUsed_iff.1 hused).1
  have hnames : ¬(record.page ≠ page.id ∨ page.slotCount ≤ record.slot.toNat) := by
    simpa [hpage] using hlt
  simp only [delete, if_neg hnames, hused]
  exact ⟨_, rfl⟩

/-! ## The map of a page -/

/-- The map that a page stands for. -/
def slotMap (page : Page) : SlotMap := ⟨page.id, page.schema, page.slotCount, page.row?⟩

theorem lowestFree?_slotMap (page : Page) : page.slotMap.lowestFree? = page.firstFree? := by
  simp only [SlotMap.lowestFree?, slotMap, isNone_row?, firstFree?_eq]

theorem Becomes.slotMap_eq {page changed : Page} (h : page.Becomes changed) :
    changed.slotMap = { page.slotMap with row? := changed.row? } := by
  obtain ⟨data, hlength, hchanged⟩ := h.capture_eq
  have hid : changed.id = page.id := h.id_eq
  have hschema : changed.schema = page.schema := by rw [hchanged]; rfl
  rw [slotMap, slotCount_congr hschema h.length_data, hid, hschema]
  rfl

theorem insert_slotMap (page : Page) (tuple : Tuple) :
    page.slotMap.insert tuple
      = (page.insert tuple).map fun (record, changed) => (record, changed.slotMap) := by
  rw [SlotMap.insert, lowestFree?_slotMap, show page.slotMap.schema = page.schema from rfl]
  by_cases hagrees : tuple.schema.agrees page.schema = false
  · rw [insert, if_pos hagrees, if_pos hagrees]
    rfl
  rw [if_neg hagrees]
  cases hfree : page.firstFree? with
  | none =>
      rw [insert, if_neg hagrees, hfree]
      rfl
  | some free =>
      obtain ⟨changed, hinsert⟩ := insert_of_firstFree? (by simpa using hagrees) hfree
      obtain ⟨free', hfree', -, hrows⟩ := row?_insert hinsert
      obtain rfl : free = free' := Option.some.inj (hfree.symm.trans hfree')
      simp only [hinsert, Except.map, (Becomes.insert hinsert).slotMap_eq, funext hrows]
      rfl

theorem delete_slotMap (page : Page) (record : Option RecordId) :
    page.slotMap.delete record = (page.delete record).map slotMap := by
  cases record with
  | none => rfl
  | some record =>
      rw [SlotMap.delete, show page.slotMap.row? = page.row? from rfl]
      by_cases hnames : record.page ≠ page.id ∨ page.slotCount ≤ record.slot.toNat
      · simp only [delete, if_pos hnames]
        exact if_pos hnames
      rw [if_neg (show ¬(record.page ≠ page.slotMap.id ∨ page.slotMap.size ≤ record.slot.toNat)
        from hnames)]
      have hused := page.isSome_row? record.slot.toNat
      cases hrow : page.row? record.slot.toNat with
      | none =>
          rw [hrow] at hused
          have hdelete : page.delete (some record) = .error (.emptySlot record.slot) := by
            simp only [delete, if_neg hnames]
            exact if_pos hused.symm
          rw [hdelete]
          rfl
      | some row =>
          rw [hrow] at hused
          obtain ⟨hpage, -⟩ : record.page = page.id ∧ record.slot.toNat < page.slotCount := by
            simpa [not_or] using hnames
          obtain ⟨changed, hdelete⟩ := delete_of_isUsed hpage hused.symm
          rw [hdelete, Except.map, (Becomes.delete hdelete).slotMap_eq,
            funext (row?_delete hdelete)]
          rfl

theorem tuple_slotMap (page : Page) (slot : UInt16) :
    page.slotMap.tuple slot = page.tuple slot := by
  rw [tuple_eq]
  rfl

theorem toOption_tuple (page : Page) {slot : Nat} (hlt : slot < UInt16.size) :
    (page.tuple slot.toUInt16).toOption = page.row? slot := by
  rw [← slot?, slot?_eq_row?, UInt16.toNat_ofNat_of_lt' hlt]

theorem record_of_mem_tuples {page : Page} {tuple : Tuple} (h : tuple ∈ page.tuples) :
    ∃ record, tuple.record = some record ∧ record.page = page.id := by
  rw [tuples_eq, List.mem_filterMap] at h
  obtain ⟨slot, -, hslot⟩ := h
  rw [← slot?, slot?_eq_row?] at hslot
  exact ⟨_, record_of_row? hslot, rfl⟩

/-- A page with addresses for all of its slots shows the tuples of its map. -/
theorem tuples_slotMap {page : Page} (hslots : page.slotCount ≤ UInt16.size) :
    page.tuples = page.slotMap.tuples := by
  rw [tuples_eq, usedSlots_eq, List.filterMap_filter]
  refine List.filterMap_congr fun slot hslot => ?_
  have hlt := List.mem_range.1 hslot
  rw [toOption_tuple page (by omega)]
  split
  · rfl
  · rename_i hfree
    have hnone : (page.row? slot).isNone = true := by rw [isNone_row?]; simpa using hfree
    exact (Option.isNone_iff_eq_none.1 hnone).symm

/-- The map of a page is in its bytes alone. -/
theorem slotMap_ofBytes (page : Page) :
    (ofBytes page.id page.schema page.data).slotMap = page.slotMap := rfl

/-- Each used slot gives a tuple. -/
theorem map_ok_tuples {page : Page} (hslots : page.slotCount ≤ UInt16.size) :
    page.tuples.map .ok = page.usedSlots.map fun slot => page.tuple slot.toUInt16 := by
  rw [tuples_eq, List.map_filterMap, ← List.filterMap_eq_map]
  refine List.filterMap_congr fun slot hslot => ?_
  rw [usedSlots_eq, List.mem_filter, List.mem_range] at hslot
  have hsome : (page.tuple slot.toUInt16).toOption.isSome = true := by
    rw [toOption_tuple page (by omega), isSome_row?, hslot.2]
  simp only [Function.comp_apply]
  cases htuple : page.tuple slot.toUInt16 with
  | ok tuple => rfl
  | error cause =>
      rw [htuple] at hsome
      cases hsome

theorem freeCount_add_length_tuples {page : Page} (hslots : page.slotCount ≤ UInt16.size) :
    page.freeCount + page.tuples.length = page.slotCount := by
  have hlength := congrArg List.length (map_ok_tuples hslots)
  rw [List.length_map, List.length_map, usedSlots_eq, ← List.countP_eq_length_filter] at hlength
  have hsum := List.length_eq_countP_add_countP page.isUsed (l := List.range page.slotCount)
  simp only [List.length_range, Bool.not_eq_true, Bool.decide_eq_false] at hsum
  rw [freeCount_eq, hlength]
  omega

/-! ## What a change leaves as it is -/

/-- Two pages of one layout that differ in one slot at most. -/
structure SameBut (page changed : Page) (slot : Nat) : Prop where
  id_eq : changed.id = page.id
  schema_eq : changed.schema = page.schema
  length_data : changed.data.length = page.data.length
  /-- The bits of the other slots, and those that belong to no slot. -/
  slotBit_eq : ∀ t, t / 8 < page.headerSize → t ≠ slot →
    slotBit changed.data t = slotBit page.data t
  /-- The bytes of the other slots. -/
  slice_eq : ∀ t < page.slotCount, t ≠ slot →
    Bytes.slice changed.data (page.slotOffset t) page.schema.width
      = Bytes.slice page.data (page.slotOffset t) page.schema.width
  /-- The bytes behind the last slot. -/
  tail_eq : changed.data.drop (page.slotOffset page.slotCount)
    = page.data.drop (page.slotOffset page.slotCount)

theorem drop_setSlot (data : Bytes) {slot offset : Nat} (used : Bool) (hlt : slot / 8 < offset) :
    (setSlot data slot used).drop offset = data.drop offset := by
  have hslice := slice_setSlot data data.length used hlt
  simpa [Bytes.slice, List.take_of_length_le] using hslice

theorem sameBut_insert {page changed : Page} {tuple : Tuple} {record : RecordId} {free : Nat}
    (h : page.insert tuple = .ok (record, changed)) (hfree : page.firstFree? = some free) :
    page.SameBut changed free := by
  have hlength := length_data_insert h
  obtain ⟨htypes, free', hfree', -, rfl⟩ := insert_eq_ok h
  obtain rfl : free = free' := Option.some.inj (hfree.symm.trans hfree')
  have hlt := firstFree?_lt hfree
  have hheader := div_lt_header hlt
  have hwidth : tuple.encode.length = page.schema.width := by
    rw [Tuple.length_encode, Schema.width, htypes, Schema.width]
  have hbehind : ∀ t, free / 8 < page.slotOffset t := fun t =>
    Nat.lt_of_lt_of_le hheader (page.header_le_offset t)
  refine ⟨rfl, rfl, hlength, fun t ht hne => ?_, fun t ht hne => ?_, ?_⟩
  · have hbyte : free / 8
        < (Bytes.writeAt page.data (page.slotOffset free) tuple.encode).length := by
      have hfree := hbehind free
      rw [Bytes.length_writeAt]
      omega
    rw [slotBit_setSlot _ _ _ _ hbyte, if_neg hne, slotBit_writeAt ht]
  · rw [slice_setSlot _ _ _ (hbehind t), slice_writeAt_of_ne ht hne hwidth]
  · rw [drop_setSlot _ _ (hbehind _)]
    apply List.ext_getElem?
    intro i
    have hlast : _ ≤ page.slotOffset page.slotCount := slotOffset_add_le hlt
    rw [List.getElem?_drop, List.getElem?_drop, Bytes.getElem?_writeAt_of_le _ _ _ (by omega)]

/-- A delete changes one bit. -/
theorem sameBut_delete {page changed : Page} {record : RecordId}
    (h : page.delete (some record) = .ok changed) :
    page.SameBut changed record.slot.toNat ∧
      ∀ i, page.headerSize ≤ i → changed.data[i]? = page.data[i]? := by
  obtain ⟨address, heq, -, hlt, rfl⟩ := delete_eq_ok h
  cases heq
  have hheader := div_lt_header hlt
  have hbyte : record.slot.toNat / 8 < page.data.length := by
    have hfits := page.headerSize_add_slots_le
    rw [size] at hfits
    omega
  have hbehind : ∀ t, record.slot.toNat / 8 < page.slotOffset t := fun t =>
    Nat.lt_of_lt_of_le hheader (page.header_le_offset t)
  refine ⟨⟨rfl, rfl, length_setSlot _ _ _, fun t _ hne => ?_, fun t _ _ => ?_, ?_⟩, ?_⟩
  · rw [slotBit_setSlot _ _ _ _ hbyte, if_neg hne]
  · exact slice_setSlot _ _ _ (hbehind t)
  · exact drop_setSlot _ _ (hbehind _)
  · intro i hi
    have hne : record.slot.toNat / 8 ≠ i := by omega
    simp [setSlot, hne]

/-! ## All calls on a page -/

theorem run_becomes (call : PageCall) (page : Page) :
    (call.run page).2 = page ∨ page.Becomes (call.run page).2 := by
  cases call with
  | insert tuple =>
      simp only [PageCall.run]
      split
      · rename_i h
        exact .inr (.insert h)
      · exact .inl rfl
  | delete tuple =>
      simp only [PageCall.run]
      split
      · rename_i h
        exact .inr (.delete h)
      · exact .inl rfl

theorem slotCount_runAll (calls : List PageCall) (page : Page) :
    (PageCall.runAll calls page).2.slotCount = page.slotCount := by
  induction calls generalizing page with
  | nil => rfl
  | cons call calls ih =>
      have hstep : (call.run page).2.slotCount = page.slotCount := by
        rcases run_becomes call page with hsame | hchange
        · rw [hsame]
        · exact congrArg SlotMap.size hchange.slotMap_eq
      exact (ih (call.run page).2).trans hstep

theorem runAll_slotMap (calls : List PageCall) (page : Page) :
    PageCall.runAll calls page.slotMap
      = ((PageCall.runAll calls page).1, (PageCall.runAll calls page).2.slotMap) :=
  PageCall.runAll_map slotMap insert_slotMap delete_slotMap calls page

/-- The laws of a page that is a finite map. -/
structure ActsAsMap (page : Page) : Prop where
  /-- A tuple of the page's schema is refused by a full page only. -/
  full_iff : ∀ tuple : Tuple, tuple.schema.agrees page.schema = true →
    (page.insert tuple = .error (.pageFull page.id)
      ↔ ∀ slot < page.slotCount, page.isUsed slot = true)
  /-- Otherwise it gets the lowest free slot. -/
  insert : ∀ (tuple : Tuple) (slot : UInt16), tuple.schema.agrees page.schema = true →
    slot.toNat < page.slotCount → page.isUsed slot.toNat = false →
    (∀ t < slot.toNat, page.isUsed t = true) →
    ∃ changed stored, page.insert tuple = .ok (⟨page.id, slot⟩, changed) ∧
      Tuple.decode? page.schema tuple.encode = some stored ∧
      changed.tuple slot = .ok (stored.withRecord (some ⟨page.id, slot⟩)) ∧
      page.SameBut changed slot.toNat
  /-- A slot that is freed keeps its bytes. -/
  delete : ∀ slot : UInt16, page.isUsed slot.toNat = true →
    ∃ changed, page.delete (some ⟨page.id, slot⟩) = .ok changed ∧
      changed.tuple slot = .error (.emptySlot slot) ∧
      page.SameBut changed slot.toNat ∧
      ∀ i, page.headerSize ≤ i → changed.data[i]? = page.data[i]?
  /-- A call that is refused changes nothing. -/
  refused : ∀ (call : PageCall) (cause : Error), (call.run page).1.1 = .error cause →
    call.run page = ((.error cause, call.tuple), page)
  /-- The tuples of the used slots are listed, ascending. -/
  tuples : page.tuples.map .ok = page.usedSlots.map fun slot => page.tuple slot.toUInt16
  usedSlots : page.usedSlots = (List.range page.slotCount).filter page.isUsed
  count : page.freeCount + page.tuples.length = page.slotCount
  /-- A page that is made of the bytes shows the same. -/
  reload : (ofBytes page.id page.schema page.data).slotMap = page.slotMap

theorem actsAsMap {page : Page} (hslots : page.slotCount ≤ UInt16.size) : page.ActsAsMap where
  full_iff tuple hagrees := by
    rw [← firstFree?_eq_none_iff, Page.insert, if_neg (by simp [hagrees])]
    cases page.firstFree? <;> simp
  insert tuple slot hagrees hlt hfree hbelow := by
    have hfirst : page.firstFree? = some slot.toNat :=
      firstFree?_eq_some_iff.2 ⟨hlt, hfree, hbelow⟩
    have hrecord : page.recordId slot.toNat = ⟨page.id, slot⟩ := by simp [recordId]
    obtain ⟨changed, hinsert⟩ := insert_of_firstFree? hagrees hfirst
    rw [hrecord] at hinsert
    obtain ⟨stored, hstored⟩ := Tuple.exists_decode?_encode hagrees
    refine ⟨changed, stored, hinsert, hstored, ?_, sameBut_insert hinsert hfirst⟩
    obtain ⟨free, hfree', -, hrows⟩ := row?_insert hinsert
    obtain rfl : slot.toNat = free := Option.some.inj (hfirst.symm.trans hfree')
    have hrow := hrows slot.toNat
    rw [if_pos rfl, hstored] at hrow
    have hcount : changed.slotCount = page.slotCount :=
      congrArg SlotMap.size (Becomes.insert hinsert).slotMap_eq
    rw [tuple_eq, if_neg (by omega), hrow]
    rfl
  delete slot hused := by
    have hlt := (isUsed_iff.1 hused).1
    obtain ⟨changed, hdelete⟩ := @delete_of_isUsed page ⟨page.id, slot⟩ rfl hused
    obtain ⟨hframe, hbytes⟩ := sameBut_delete hdelete
    refine ⟨changed, hdelete, ?_, hframe, hbytes⟩
    have hcount : changed.slotCount = page.slotCount :=
      congrArg SlotMap.size (Becomes.delete hdelete).slotMap_eq
    rw [tuple_eq, if_neg (by omega), row?_delete hdelete, if_pos rfl]
  refused call cause h := by
    cases call with
    | insert tuple =>
        simp only [PageCall.run] at h ⊢
        split at h
        · cases h
        · cases h
          rfl
    | delete tuple =>
        simp only [PageCall.run] at h ⊢
        split at h
        · cases h
        · cases h
          rfl
  tuples := map_ok_tuples hslots
  usedSlots := page.usedSlots_eq
  count := freeCount_add_length_tuples hslots
  reload := slotMap_ofBytes page

end Page

/-- A page of up to 2¹⁶ slots, whatever bytes it is made of, is a finite map:
calls are answered as the map answers them, and the page that they leave is
the map that they leave. -/
theorem page_refines_slotMap {id : PageId} {schema : Schema} {data : Bytes}
    (hslots : Page.slotsPerPage data.length schema ≤ UInt16.size) (calls : List PageCall) :
    let start := Page.ofBytes id schema data
    let page := (PageCall.runAll calls start).2
    PageCall.runAll calls start.slotMap = ((PageCall.runAll calls start).1, page.slotMap) ∧
      page.tuples = page.slotMap.tuples ∧ (∀ slot, page.tuple slot = page.slotMap.tuple slot) ∧
      page.ActsAsMap := by
  intro start page
  have hcount : page.slotCount ≤ UInt16.size := by
    rw [Page.slotCount_runAll]
    exact hslots
  exact ⟨Page.runAll_slotMap calls start, Page.tuples_slotMap hcount,
    fun slot => (Page.tuple_slotMap page slot).symm, Page.actsAsMap hcount⟩

/-- A page of two slots is filled; its bytes were not all zero, and the six
bits that belong to no slot are set. -/
theorem page_refines_slotMap_twoSlots :
    let schema : Schema := ⟨[⟨.int, none⟩]⟩
    let start := Page.ofBytes ⟨⟨1⟩, 0⟩ schema [253, 1, 2, 3, 4, 5, 6, 7, 8]
    let calls := [PageCall.insert ⟨schema, [.int 7], none, rfl⟩]
    let page := (PageCall.runAll calls start).2
    Page.slotsPerPage 9 schema ≤ UInt16.size ∧
      PageCall.runAll calls start.slotMap = ((PageCall.runAll calls start).1, page.slotMap) ∧
      page.data = [255, 1, 2, 3, 4, 7, 0, 0, 0] ∧ page.ActsAsMap := by
  intro schema start calls page
  have hslots : Page.slotsPerPage 9 schema ≤ UInt16.size := by decide
  obtain ⟨hruns, -, -, hlaws⟩ :=
    @page_refines_slotMap ⟨⟨1⟩, 0⟩ schema [253, 1, 2, 3, 4, 5, 6, 7, 8] hslots calls
  exact ⟨hslots, hruns, by decide, hlaws⟩

end HeapStore
