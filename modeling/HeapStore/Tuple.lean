import HeapStore.Error

/-!
# Tuples

A tuple is one row: a field per column of its schema and, once it has
been stored, the address of its slot. That the fields have the schema's
types is part of the type, so a tuple can only be made by checking
(`Tuple.make`, `Tuple.setField`) or by reading bytes field by field
(`Tuple.decode?`).

The stored form is the stored forms of the fields, one behind the other,
and has the width of the schema.

Main statements: `Tuple.length_encode` and `Tuple.decode?_eq_none_iff`
(reading fails on too few bytes, and on nothing else).
-/

namespace HeapStore

/-- One row. -/
structure Tuple where
  schema : Schema
  fields : List Field
  /-- Where the tuple is stored, if it is. -/
  record : Option RecordId
  conforms : fields.map Field.type = schema.types

namespace Tuple

/-! ## Building -/

/-- Why these fields make no tuple of the schema: their number, or else
the first that has another type. -/
def mismatch? (schema : Schema) (fields : List Field) : Option Mismatch :=
  if fields.length ≠ schema.size then some (.fieldCount schema.size fields.length)
  else
    fields.zipIdx.findSome? fun (field, i) =>
      if schema.type? i = some field.type then none
      else some (.fieldType i field.type (schema.type? i))

theorem conforms_of_mismatch? {schema : Schema} {fields : List Field}
    (h : mismatch? schema fields = none) : fields.map Field.type = schema.types := by
  unfold mismatch? at h
  split at h
  · simp at h
  · rename_i hlen
    have hlen : fields.length = schema.types.length := by simpa using hlen
    rw [List.findSome?_eq_none_iff] at h
    apply List.ext_getElem (by simpa using hlen)
    intro i h1 h2
    have hi : i < fields.length := by simpa using h1
    have := h (fields[i], i) (by
      rw [List.mem_iff_getElem]
      exact ⟨i, by simpa using hi, by simp⟩)
    simp only [Schema.type?_eq] at this
    split at this
    · rename_i heq
      rw [List.getElem?_eq_getElem h2] at heq
      simpa using (Option.some.inj heq).symm
    · simp at this

/-- The tuple with the given fields, not stored anywhere. -/
def make (schema : Schema) (fields : List Field) : Except Error Tuple :=
  match h : mismatch? schema fields with
  | some mismatch => .error (.schemaMismatch mismatch)
  | none => .ok ⟨schema, fields, none, conforms_of_mismatch? h⟩

/-- The `i`-th field. -/
def field? (tuple : Tuple) (i : Nat) : Option Field := tuple.fields[i]?

theorem conforms_set (tuple : Tuple) {i : Nat} {field : Field}
    (h : tuple.schema.type? i = some field.type) :
    (tuple.fields.set i field).map Field.type = tuple.schema.types := by
  rw [List.map_set, tuple.conforms]
  rw [Schema.type?_eq] at h
  obtain ⟨hlt, -⟩ := List.getElem?_eq_some_iff.1 h
  refine List.ext_getElem? fun j => ?_
  rw [List.getElem?_set]
  split
  · rename_i hij
    rw [← hij, h]
  · rfl

/-- The tuple with its `i`-th field replaced by one of the same type. -/
def setField (tuple : Tuple) (i : Nat) (field : Field) : Except Error Tuple :=
  if h : tuple.schema.type? i = some field.type then
    .ok { tuple with
      fields := tuple.fields.set i field
      conforms := conforms_set tuple h }
  else .error (.schemaMismatch (.notStorable i field.type (tuple.schema.type? i)))

/-- The tuple with another address. -/
def withRecord (tuple : Tuple) (record : Option RecordId) : Tuple :=
  { tuple with record }

/-- Whether two tuples have the same fields. Addresses and column names
do not matter. -/
def sameFields (a b : Tuple) : Bool := a.fields == b.fields

/-- How a tuple is shown: its fields with tabs between them. -/
def text (tuple : Tuple) : String := "\t".intercalate (tuple.fields.map Field.text)

/-! ## The stored form -/

/-- The stored form of a list of fields. -/
def encodeFields (fields : List Field) : Bytes := fields.flatMap Field.encode

/-- The stored form. -/
def encode (tuple : Tuple) : Bytes := encodeFields tuple.fields

/-- Fields of the given types, read one behind the other. -/
def decodeFields? : List FieldType → Bytes → Option (List Field)
  | [], _ => some []
  | type :: types, data =>
    match Field.decode? type data with
    | none => none
    | some (field, rest) => (decodeFields? types rest).map (field :: ·)

theorem types_of_decodeFields? {types : List FieldType} {data : Bytes} {fields : List Field}
    (h : decodeFields? types data = some fields) : fields.map Field.type = types := by
  induction types generalizing data fields with
  | nil => simp only [decodeFields?, Option.some.injEq] at h; simp [← h]
  | cons type types ih =>
    simp only [decodeFields?] at h
    split at h
    · simp at h
    · rename_i field rest hfield
      obtain ⟨fields', hfields, rfl⟩ := Option.map_eq_some_iff.1 h
      simp [ih hfields, (Field.type_and_rest_of_decode? hfield).1]

/-- The tuple whose stored form `data` begins with. -/
def decode? (schema : Schema) (data : Bytes) : Option Tuple :=
  match h : decodeFields? schema.types data with
  | none => none
  | some fields => some ⟨schema, fields, none, types_of_decodeFields? h⟩

theorem length_encodeFields (fields : List Field) :
    (encodeFields fields).length = FieldType.totalWidth (fields.map Field.type) := by
  induction fields with
  | nil => rfl
  | cons field fields ih => simp_all [encodeFields, FieldType.totalWidth]

/-- A tuple fills the width of its schema. -/
@[simp] theorem length_encode (tuple : Tuple) : tuple.encode.length = tuple.schema.width := by
  rw [encode, length_encodeFields, tuple.conforms, Schema.width]

theorem decodeFields?_eq_none_iff {types : List FieldType} {data : Bytes} :
    decodeFields? types data = none ↔ data.length < FieldType.totalWidth types := by
  induction types generalizing data with
  | nil => simp [decodeFields?, FieldType.totalWidth]
  | cons type types ih =>
    simp only [decodeFields?, FieldType.totalWidth]
    split
    · rename_i h
      have := Field.decode?_eq_none_iff.1 h
      simp only [true_iff]
      omega
    · rename_i field rest h
      have hrest := (Field.type_and_rest_of_decode? h).2
      have hlen : ¬ data.length < type.width := by
        rw [← Field.decode?_eq_none_iff, h]; simp
      simp only [Option.map_eq_none_iff, ih, hrest, List.length_drop]
      omega

/-- Reading a tuple fails on data shorter than the schema is wide, and on
no other. -/
theorem decode?_eq_none_iff {schema : Schema} {data : Bytes} :
    decode? schema data = none ↔ data.length < schema.width := by
  rw [Schema.width, ← decodeFields?_eq_none_iff, decode?]
  split <;> simp_all

end Tuple

end HeapStore
