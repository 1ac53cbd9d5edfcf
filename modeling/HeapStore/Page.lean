import HeapStore.Tuple

/-!
# Heap pages

A page holds tuples of one schema in slots of one width:

    | bitmap: one bit per slot | slot 0 | slot 1 | … | unused tail |

Slot `s` holds a tuple when bit `s % 8` of byte `s / 8` is set. A page of
`n` bytes has as many slots as fit with a bit each, so nothing but the
sizes decides the layout.

A page remembers the transaction that changed it (`dirtier`) and the
bytes it had before the first change (`before`). The bytes are captured by
the first change or mark, whichever comes first, and dropped when the
page is marked clean: `beforeData` is the last clean state.

Slots are counted without bound, but a record's address has room for 16
bits of slot number; the address of a slot beyond that is the address of
its number modulo 2¹⁶.

Main statements: `length_data_insert`, `length_data_delete` (a page keeps
its size) and `headerSize_add_slots_le` (the layout fits).
-/

namespace HeapStore

/-! ## Bits -/

namespace Bits

/-- The byte in which bit `i` alone is set. -/
def mask (i : Nat) : UInt8 := (1 : UInt8) <<< i.toUInt8

/-- `byte` with bit `i` set or cleared. -/
def put (byte : UInt8) (i : Nat) (value : Bool) : UInt8 :=
  if value then byte ||| mask i else byte &&& ~~~mask i

/-- The eight bits of `byte`, lowest first. -/
def ofByte (byte : UInt8) : List Bool := (List.range 8).map byte.toNat.testBit

end Bits

/-- A page in memory. -/
structure Page where
  id : PageId
  schema : Schema
  data : Bytes
  /-- The transaction whose changes the page holds, if it holds any. -/
  dirtier : Option TxnId
  /-- The bytes before those changes. -/
  before : Option Bytes
deriving DecidableEq, Repr

namespace Page

/-- The clean page with the given bytes. -/
def ofBytes (id : PageId) (schema : Schema) (data : Bytes) : Page :=
  { id, schema, data, dirtier := none, before := none }

/-! ## Layout -/

/-- The number of slots on a page of `size` bytes. -/
def slotsPerPage (size : Nat) (schema : Schema) : Nat := size * 8 / (schema.width * 8 + 1)

/-- The number of slots of a page of `size` bytes, which has to be small
enough for its bits to be counted with 64 bits. -/
def slotsIn (size : Nat) (schema : Schema) : Except Violation Nat :=
  if size * 8 ≥ UInt64.size then .error (.tooLarge (size * 8)) else .ok (slotsPerPage size schema)

/-- The number of bytes of a bitmap for `slots` slots. -/
def bitmapSize (slots : Nat) : Nat := (slots + 7) / 8

/-- What the sizes decide: how many slots there are, how many bytes are in
front of the first one, and how many bytes a slot has. -/
structure Layout where
  slots : Nat
  header : Nat
  width : Nat
deriving DecidableEq, Repr

/-- The layout of a page of `size` bytes. -/
def Layout.make (size : Nat) (schema : Schema) : Layout :=
  let slots := slotsPerPage size schema
  { slots, header := bitmapSize slots, width := schema.width }

/-- The position of a slot's first byte. -/
def Layout.offset (layout : Layout) (slot : Nat) : Nat := layout.header + slot * layout.width

/-- The number of bytes of a page. -/
def size (page : Page) : Nat := page.data.length

/-- The layout of a page. -/
def layout (page : Page) : Layout := .make page.size page.schema

/-- The number of slots of a page. -/
def slotCount (page : Page) : Nat := page.layout.slots

/-- The number of bytes in front of the first slot. -/
def headerSize (page : Page) : Nat := page.layout.header

/-- The position of a slot's first byte. -/
def slotOffset (page : Page) (slot : Nat) : Nat := page.layout.offset slot

/-- Bitmap and slots fit on the page. -/
theorem headerSize_add_slots_le (page : Page) :
    page.headerSize + page.slotCount * page.schema.width ≤ page.size := by
  have h : page.slotCount * (page.schema.width * 8 + 1) ≤ page.size * 8 :=
    Nat.div_mul_le_self _ _
  have h' : page.slotCount * (page.schema.width * 8 + 1)
      = 8 * (page.slotCount * page.schema.width) + page.slotCount := by
    rw [Nat.mul_add, ← Nat.mul_assoc, Nat.mul_comm _ 8]; simp
  simp only [slotCount, headerSize, layout, Layout.make, bitmapSize] at *
  omega

/-! ## The bitmap -/

/-- The bit of slot `slot` in a page's bytes. -/
def slotBit (data : Bytes) (slot : Nat) : Bool :=
  (data.getD (slot / 8) 0).toNat.testBit (slot % 8)

/-- Whether slot `slot` holds a tuple. -/
def isUsed (page : Page) (slot : Nat) : Bool := slot < page.slotCount && slotBit page.data slot

/-- The bit of every slot, in order. -/
def bitmap (page : Page) : List Bool :=
  ((page.data.take page.headerSize).flatMap Bits.ofByte).take page.slotCount

/-- The number of slots that hold no tuple. -/
def freeCount (page : Page) : Nat := page.bitmap.count false

/-- The lowest slot that holds no tuple. -/
def firstFree? (page : Page) : Option Nat := page.bitmap.findIdx? (!·)

/-- The slots that hold a tuple, ascending. -/
def usedSlots (page : Page) : List Nat :=
  page.bitmap.zipIdx.filterMap fun (used, slot) => if used then some slot else none

/-- Page bytes with the bit of `slot` set or cleared. -/
def setSlot (data : Bytes) (slot : Nat) (used : Bool) : Bytes :=
  data.modify (slot / 8) (Bits.put · (slot % 8) used)

@[simp] theorem length_setSlot (data : Bytes) (slot : Nat) (used : Bool) :
    (setSlot data slot used).length = data.length := by
  simp [setSlot]

/-! ## Reading tuples -/

/-- The address of a slot of the page. -/
def recordId (page : Page) (slot : Nat) : RecordId := ⟨page.id, slot.toUInt16⟩

/-- The tuple in a slot of a page with the given layout. -/
def tupleIn (page : Page) (layout : Layout) (slot : UInt16) : Except Error Tuple :=
  let record : RecordId := ⟨page.id, slot⟩
  if layout.slots ≤ slot.toNat then .error (.tupleNotFound record)
  else if slotBit page.data slot.toNat = false then .error (.emptySlot slot)
  else
    let stored := Bytes.slice page.data (layout.offset slot.toNat) layout.width
    match Tuple.decode? page.schema stored with
    | none => .error (.schemaMismatch .corruptBytes)
    | some tuple => .ok (tuple.withRecord (some record))

/-- The tuple in a slot, with its address. -/
def tuple (page : Page) (slot : UInt16) : Except Error Tuple := page.tupleIn page.layout slot

/-- The tuples on the page in slot order. Each used slot is read under
the address it has. -/
def tuples (page : Page) : List Tuple :=
  let layout := page.layout
  page.usedSlots.filterMap fun slot => (page.tupleIn layout slot.toUInt16).toOption

theorem tuples_eq (page : Page) :
    page.tuples = page.usedSlots.filterMap fun slot => (page.tuple slot.toUInt16).toOption := rfl

/-! ## Changes -/

/-- The page with its present bytes captured, unless earlier ones are. -/
def capture (page : Page) : Page :=
  { page with before := some (page.before.getD page.data) }

/-- Marks the page as changed by `txn`. -/
def markDirty (page : Page) (txn : TxnId) : Page :=
  { page.capture with dirtier := some txn }

/-- Marks the page as clean: what it holds now is its last clean state. -/
def markClean (page : Page) : Page := { page with dirtier := none, before := none }

/-- Whether some transaction's changes are on the page. -/
def isDirty (page : Page) : Bool := page.dirtier.isSome

/-- The bytes of the last clean state. -/
def beforeData (page : Page) : Bytes := page.before.getD page.data

/-- A clean page with the bytes of the last clean state. -/
def beforePage (page : Page) : Page := ofBytes page.id page.schema page.beforeData

/-- Stores a tuple in the lowest free slot; yields its address. -/
def insert (page : Page) (tuple : Tuple) : Except Error (RecordId × Page) :=
  if tuple.schema.agrees page.schema = false then
    .error (.schemaMismatch (.otherPage tuple.schema page.schema))
  else
    match page.firstFree? with
    | none => .error (.pageFull page.id)
    | some slot =>
      let data := Bytes.writeAt page.data (page.slotOffset slot) tuple.encode
      .ok (page.recordId slot, { page.capture with data := setSlot data slot true })

/-- Frees the slot that a record's address names. The other slots stay
where they are, and the bytes of the freed slot stay as they are. -/
def delete (page : Page) (record : Option RecordId) : Except Error Page :=
  match record with
  | none => .error .invalidRecordId
  | some record =>
    let slot := record.slot.toNat
    if record.page ≠ page.id ∨ page.slotCount ≤ slot then .error (.tupleNotFound record)
    else if page.isUsed slot = false then .error (.emptySlot record.slot)
    else .ok { page.capture with data := setSlot page.data slot false }

/-! ## What changes keep -/

@[simp] theorem beforeData_capture (page : Page) :
    page.capture.beforeData = page.beforeData := by
  simp [capture, beforeData]

@[simp] theorem beforeData_markDirty (page : Page) (txn : TxnId) :
    (page.markDirty txn).beforeData = page.beforeData := by
  simp [markDirty, capture, beforeData]

@[simp] theorem beforeData_markClean (page : Page) :
    page.markClean.beforeData = page.data := by
  simp [markClean, beforeData]

theorem length_data_delete {page page' : Page} {record : Option RecordId}
    (h : page.delete record = .ok page') : page'.data.length = page.data.length := by
  unfold delete at h
  split at h
  · simp at h
  · dsimp only at h
    split at h
    · simp at h
    · split at h
      · simp at h
      · simp only [Except.ok.injEq] at h
        simp [← h]

theorem firstFree?_lt {page : Page} {slot : Nat} (h : page.firstFree? = some slot) :
    slot < page.slotCount := by
  obtain ⟨hlt, -⟩ := List.findIdx?_eq_some_iff_getElem.1 h
  simp only [bitmap, List.length_take] at hlt
  omega

theorem length_data_insert {page page' : Page} {tuple : Tuple} {record : RecordId}
    (h : page.insert tuple = .ok (record, page')) : page'.data.length = page.data.length := by
  unfold insert at h
  split at h
  · simp at h
  · rename_i hagrees
    split at h
    · simp at h
    · rename_i slot hslot
      simp only [Except.ok.injEq, Prod.mk.injEq] at h
      have hw : tuple.schema.width = page.schema.width := by
        rw [Bool.not_eq_false, Schema.agrees_iff] at hagrees
        simp [Schema.width, hagrees]
      have hfit := page.headerSize_add_slots_le
      have hlt : (slot + 1) * page.schema.width ≤ page.slotCount * page.schema.width :=
        Nat.mul_le_mul_right _ (firstFree?_lt hslot)
      rw [Nat.succ_mul] at hlt
      rw [← h.2]
      simp only [length_setSlot, Bytes.length_writeAt, Tuple.length_encode, hw, slotOffset,
        Layout.offset]
      simp only [size, headerSize, layout, Layout.make] at hfit ⊢
      omega

end Page

end HeapStore
