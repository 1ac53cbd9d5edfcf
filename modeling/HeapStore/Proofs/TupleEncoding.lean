import HeapStore.Tuple
import HeapStore.Proofs.Utf8

/-!
# The stored form of a tuple

A tuple keeps the types of its schema through all changes, as a change to
another type is refused (`Tuple.fields_setAll`). Its stored form has the width
of the schema; where no string is longer than its slot, the tuple is read back
from it, whatever bytes follow (`Tuple.decode?_encode_append`). Reading looks
at no byte behind the width (`Tuple.decode?_take`) and makes a tuple of any
bytes, as long as there are enough of them.

The headline is `tuple_encoding_reversible`.
-/

namespace HeapStore

namespace Field

/-- The field is stored whole. -/
def Fits : Field → Prop
  | .int _ => True
  | .string text => (Text.utf8 text).length ≤ stringCapacity

instance : DecidablePred Fits
  | .int _ => .isTrue trivial
  | .string text => inferInstanceAs (Decidable ((Text.utf8 text).length ≤ stringCapacity))

theorem take_resize_append {data : Bytes} {n : Nat} (hlength : data.length ≤ n) (rest : Bytes) :
    (Bytes.resize data n ++ rest).take data.length = data := by
  rw [Bytes.resize, List.take_of_length_le hlength, List.append_assoc, List.take_left]

/-- The string that is read where `text` was stored. -/
def reread (text : String) : String := String.ofList (Text.decodeLossy (storedBytes text))

theorem decode?_encode_string_append (text : String) (rest : Bytes) :
    decode? .string ((Field.string text).encode ++ rest)
      = some (.string (reread text), rest) := by
  have hlength := length_storedBytes_le text
  have hword : (storedBytes text).length.toUInt32.toNat = (storedBytes text).length :=
    UInt32.toNat_ofNat_of_lt' (Nat.lt_of_le_of_lt hlength (by decide))
  simp only [decode?, encode, List.append_assoc, Bytes.takeWord32?_ofWord32_append,
    Option.bind_eq_bind, Option.bind_some, hword, Nat.min_eq_left hlength,
    take_resize_append hlength]
  rw [if_neg (by simp), List.drop_left' (Bytes.length_resize _ _)]
  rfl

theorem reread_of_fits {text : String} (hfits : (Text.utf8 text).length ≤ stringCapacity) :
    reread text = text := by
  rw [reread, storedBytes, List.take_of_length_le hfits, Text.utf8, Text.decodeLossy_encode,
    String.ofList_toList]

/-- A field that fits is read back, whatever follows it. -/
theorem decode?_encode_append {field : Field} (hfits : field.Fits) (rest : Bytes) :
    decode? field.type (field.encode ++ rest) = some (field, rest) := by
  cases field with
  | int value =>
      simp [decode?, encode, type, Bytes.takeWord32?_ofWord32_append]
  | string text => rw [type, decode?_encode_string_append, reread_of_fits hfits]

/-- The bytes behind a field are left as they are, and do not matter to it. -/
theorem decode?_append {type : FieldType} {front : Bytes} (hfront : front.length = type.width)
    (rest : Bytes) :
    decode? type (front ++ rest) = (decode? type front).map fun (field, _) => (field, rest) := by
  cases type with
  | int =>
      match front, hfront with
      | [b0, b1, b2, b3], _ => rfl
  | string =>
      match front, hfront with
      | b0 :: b1 :: b2 :: b3 :: body, hfront =>
        have hbody : body.length = stringCapacity := by
          simp only [List.length_cons, FieldType.width] at hfront
          omega
        have htake : ∀ n, (body ++ rest).take (min n stringCapacity)
            = body.take (min n stringCapacity) := fun n =>
          List.take_append_of_le_length (by omega)
        simp only [decode?, List.cons_append, Bytes.takeWord32?, Option.bind_eq_bind,
          Option.bind_some, htake]
        rw [if_neg (by simp [hbody]), if_neg (by omega), List.drop_left' hbody]
        rfl

end Field

namespace Tuple

/-! ## Reading back -/

theorem decodeFields?_encodeFields_append {fields : List Field}
    (hfits : ∀ field ∈ fields, field.Fits) (rest : Bytes) :
    decodeFields? (fields.map Field.type) (encodeFields fields ++ rest) = some fields := by
  induction fields with
  | nil => rfl
  | cons field fields ih =>
      rw [List.forall_mem_cons] at hfits
      simp only [encodeFields, List.flatMap_cons, List.append_assoc, List.map_cons, decodeFields?,
        Field.decode?_encode_append hfits.1]
      exact congrArg (Option.map (field :: ·)) (ih hfits.2)

theorem fields_decode? (schema : Schema) (data : Bytes) :
    (decode? schema data).map fields = decodeFields? schema.types data := by
  rw [decode?]
  split
  · rename_i hfields
    exact hfields.symm
  · rename_i fields hfields
    exact hfields.symm

/-- A tuple is what its schema, its fields and its address are. -/
theorem ext_of_fields {a b : Tuple} (hschema : a.schema = b.schema) (hfields : a.fields = b.fields)
    (hrecord : a.record = b.record) : a = b := by
  cases a
  cases b
  cases hschema
  cases hfields
  cases hrecord
  rfl

theorem of_decode? {schema : Schema} {data : Bytes} {tuple : Tuple}
    (h : decode? schema data = some tuple) : tuple.schema = schema ∧ tuple.record = none := by
  rw [decode?] at h
  split at h
  · cases h
  · cases h
    exact ⟨rfl, rfl⟩

theorem decode?_congr {schema : Schema} {first second : Bytes}
    (h : decodeFields? schema.types first = decodeFields? schema.types second) :
    decode? schema first = decode? schema second := by
  rw [← fields_decode?, ← fields_decode?] at h
  cases hfirst : decode? schema first with
  | none =>
      rw [hfirst] at h
      exact (Option.map_eq_none_iff.1 h.symm).symm
  | some tuple =>
      rw [hfirst] at h
      obtain ⟨other, hsecond, hfields⟩ := Option.map_eq_some_iff.1 h.symm
      obtain ⟨hschema, hrecord⟩ := of_decode? hfirst
      obtain ⟨hschema', hrecord'⟩ := of_decode? hsecond
      rw [hsecond, ext_of_fields (hschema.trans hschema'.symm) hfields.symm
        (hrecord.trans hrecord'.symm)]

/-- A tuple whose strings fit is read back, whatever follows it. -/
theorem decode?_encode_append {tuple : Tuple} (hfits : ∀ field ∈ tuple.fields, field.Fits)
    (rest : Bytes) :
    decode? tuple.schema (tuple.encode ++ rest) = some (tuple.withRecord none) := by
  have hfields := fields_decode? tuple.schema (tuple.encode ++ rest)
  rw [← tuple.conforms, encode, decodeFields?_encodeFields_append hfits] at hfields
  obtain ⟨back, hback, hsame⟩ := Option.map_eq_some_iff.1 hfields
  obtain ⟨hschema, hrecord⟩ := of_decode? hback
  rw [encode, hback, @ext_of_fields back (tuple.withRecord none) hschema hsame hrecord]

/-- No byte behind the width of the types is read. -/
theorem decodeFields?_append {types : List FieldType} {front : Bytes}
    (hfront : front.length = FieldType.totalWidth types) (rest : Bytes) :
    decodeFields? types (front ++ rest) = decodeFields? types front := by
  induction types generalizing front with
  | nil => rfl
  | cons type types ih =>
      rw [FieldType.totalWidth] at hfront
      have hfirst : (front.take type.width).length = type.width := by
        rw [List.length_take]
        omega
      have hothers : (front.drop type.width).length = FieldType.totalWidth types := by
        rw [List.length_drop]
        omega
      rw [← List.take_append_drop type.width front, List.append_assoc]
      simp only [decodeFields?, Field.decode?_append hfirst]
      cases Field.decode? type (front.take type.width) with
      | none => rfl
      | some read => exact congrArg (Option.map (read.1 :: ·)) (ih hothers)

theorem decode?_take (schema : Schema) (data : Bytes) :
    decode? schema (data.take schema.width) = decode? schema data := by
  rcases Nat.lt_or_ge data.length schema.width with hshort | henough
  · rw [List.take_of_length_le (Nat.le_of_lt hshort)]
  · have hfront : (data.take schema.width).length = FieldType.totalWidth schema.types := by
      rw [List.length_take, Nat.min_eq_left henough, Schema.width]
    have happend := decodeFields?_append hfront (data.drop schema.width)
    rw [List.take_append_drop] at happend
    exact decode?_congr happend.symm

/-! ## Building and changing -/

theorem mismatch?_eq_none_iff {schema : Schema} {fields : List Field} :
    mismatch? schema fields = none ↔ fields.map Field.type = schema.types := by
  refine ⟨conforms_of_mismatch?, fun hconforms => ?_⟩
  have hcount : fields.length = schema.size := by
    rw [← Schema.length_types, ← hconforms, List.length_map]
  rw [mismatch?, if_neg (fun hne => hne hcount), List.findSome?_eq_none_iff]
  intro (field, i) hmem
  have hfield : fields[i]? = some field := List.mem_zipIdx_iff_getElem?.1 hmem
  have htype : schema.type? i = some field.type := by
    rw [Schema.type?_eq, ← hconforms, List.getElem?_map, hfield, Option.map_some]
  exact if_pos htype

/-- A tuple is made of any fields with the types of the schema, and of no
others. -/
theorem make_eq_ok_iff {schema : Schema} {fields : List Field} {tuple : Tuple} :
    make schema fields = .ok tuple ↔
      fields.map Field.type = schema.types ∧
        tuple.schema = schema ∧ tuple.fields = fields ∧ tuple.record = none := by
  rw [make]
  split
  · rename_i mismatch hmismatch
    constructor
    · intro h
      cases h
    · rintro ⟨hconforms, -⟩
      rw [mismatch?_eq_none_iff.2 hconforms] at hmismatch
      cases hmismatch
  · rename_i hmismatch
    constructor
    · intro h
      cases h
      exact ⟨conforms_of_mismatch? hmismatch, rfl, rfl, rfl⟩
    · rintro ⟨-, hschema, hfields, hrecord⟩
      exact congrArg Except.ok (ext_of_fields hschema.symm hfields.symm hrecord.symm)

/-- The tuple after a field was given a value, or the same one if that is
refused. -/
def afterSet (tuple : Tuple) (i : Nat) (field : Field) : Tuple :=
  match tuple.setField i field with
  | .ok changed => changed
  | .error _ => tuple

/-- The tuple after fields were given values, one after the other. -/
def setAll (tuple : Tuple) (calls : List (Nat × Field)) : Tuple :=
  calls.foldl (fun tuple (i, field) => tuple.afterSet i field) tuple

end Tuple

/-- Fields under a schema, of which some are replaced: each by the value that
is last given for it and has its type. -/
def Schema.replaceAll (schema : Schema) (fields : List Field) (calls : List (Nat × Field)) :
    List Field :=
  calls.foldl
    (fun fields (i, field) =>
      if schema.type? i = some field.type then fields.set i field else fields)
    fields

namespace Tuple

theorem afterSet_eq (tuple : Tuple) (i : Nat) (field : Field) :
    (tuple.afterSet i field).schema = tuple.schema ∧
      (tuple.afterSet i field).fields
        = if tuple.schema.type? i = some field.type then tuple.fields.set i field
          else tuple.fields := by
  by_cases htype : tuple.schema.type? i = some field.type
  · simp only [afterSet, setField, dif_pos htype, if_pos htype, and_self]
  · simp only [afterSet, setField, dif_neg htype, if_neg htype, and_self]

/-- Calls with a field of another type, or for no field, change nothing. -/
theorem fields_setAll (tuple : Tuple) (calls : List (Nat × Field)) :
    (tuple.setAll calls).schema = tuple.schema ∧
      (tuple.setAll calls).fields = tuple.schema.replaceAll tuple.fields calls := by
  induction calls generalizing tuple with
  | nil => exact ⟨rfl, rfl⟩
  | cons call calls ih =>
      obtain ⟨hschema, hfields⟩ := tuple.afterSet_eq call.1 call.2
      have hrest := ih (tuple.afterSet call.1 call.2)
      rw [hschema, hfields] at hrest
      exact hrest

/-- The ways to come by a tuple of a schema. -/
inductive Origin (schema : Schema) (tuple : Tuple) : Prop where
  | made {fields : List Field} (h : make schema fields = .ok tuple)
  | read {data : Bytes} (h : decode? schema data = some tuple)

theorem Origin.schema_eq {schema : Schema} {tuple : Tuple} :
    tuple.Origin schema → tuple.schema = schema
  | .made h => (make_eq_ok_iff.1 h).2.1
  | .read h => (of_decode? h).1

theorem length_fields (tuple : Tuple) : tuple.fields.length = tuple.schema.size := by
  rw [← Schema.length_types, ← tuple.conforms, List.length_map]

end Tuple

/-- Tuples are made of fields with the types of the schema alone. Whatever is
set in a tuple that was made or read, its fields have these types and its
stored form the width of the schema; if all strings fit, the stored form is
read back to the same fields, whatever follows it. Bytes are read to a tuple
of the schema unless they are fewer than its width, and those behind the width
do not matter. -/
theorem tuple_encoding_reversible (schema : Schema) :
    (∀ fields, fields.map Field.type = schema.types ↔
      ∃ tuple, Tuple.make schema fields = .ok tuple ∧ tuple.fields = fields) ∧
    (∀ start : Tuple, start.Origin schema → ∀ calls,
      let tuple := start.setAll calls
      tuple.fields = schema.replaceAll start.fields calls ∧
        tuple.fields.length = schema.size ∧ tuple.fields.map Field.type = schema.types ∧
        tuple.encode.length = schema.width ∧
        ((∀ field ∈ tuple.fields, field.Fits) → ∀ rest, ∃ back,
          Tuple.decode? schema (tuple.encode ++ rest) = some back ∧
            back.fields = tuple.fields)) ∧
    ∀ data,
      (Tuple.decode? schema data = none ↔ data.length < schema.width) ∧
        Tuple.decode? schema (data.take schema.width) = Tuple.decode? schema data ∧
        ∀ back, Tuple.decode? schema data = some back → back.schema = schema ∧
          back.fields.length = schema.size ∧ back.fields.map Field.type = schema.types := by
  refine ⟨fun fields => ⟨fun hconforms => ?_, ?_⟩, fun start horigin calls => ?_,
    fun data => ⟨Tuple.decode?_eq_none_iff, Tuple.decode?_take schema data, ?_⟩⟩
  · exact ⟨⟨schema, fields, none, hconforms⟩, Tuple.make_eq_ok_iff.2 ⟨hconforms, rfl, rfl, rfl⟩, rfl⟩
  · rintro ⟨tuple, hmake, -⟩
    exact (Tuple.make_eq_ok_iff.1 hmake).1
  · intro tuple
    obtain ⟨hschema, hfields⟩ := start.fields_setAll calls
    rw [horigin.schema_eq] at hschema hfields
    have hcount : tuple.fields.length = schema.size := hschema ▸ tuple.length_fields
    have htypes : tuple.fields.map Field.type = schema.types := hschema ▸ tuple.conforms
    have hwidth : tuple.encode.length = schema.width := hschema ▸ tuple.length_encode
    refine ⟨hfields, hcount, htypes, hwidth, fun hfits rest => ?_⟩
    have hback := Tuple.decode?_encode_append hfits rest
    rw [hschema] at hback
    exact ⟨_, hback, rfl⟩
  · intro back hback
    obtain ⟨rfl, -⟩ := Tuple.of_decode? hback
    exact ⟨rfl, back.length_fields, back.conforms⟩

/-- A row of a number and a name. A string is refused for the number, and there
is no third field. -/
theorem tuple_encoding_reversible_row :
    let schema : Schema := ⟨[⟨.int, some "n"⟩, ⟨.string, none⟩]⟩
    ∃ start back, Tuple.make schema [.int (-2), .string "?"] = .ok start ∧
      let tuple := start.setAll [(1, .string "né€"), (0, .string "1"), (2, .int 5)]
      tuple.fields = [.int (-2), .string "né€"] ∧ tuple.encode.length = 136 ∧
        Tuple.decode? schema (tuple.encode ++ [1, 2, 3]) = some back ∧
        back.fields = tuple.fields := by
  intro schema
  obtain ⟨hmakes, hkeeps, -⟩ := tuple_encoding_reversible schema
  obtain ⟨start, hmake, hstart⟩ := (hmakes [.int (-2), .string "?"]).1 (by decide +kernel)
  obtain ⟨hfields, -, -, hwidth, hreread⟩ := hkeeps start (.made hmake)
    [(1, .string "né€"), (0, .string "1"), (2, .int 5)]
  rw [hstart] at hfields
  have hset : schema.replaceAll [.int (-2), .string "?"]
      [(1, .string "né€"), (0, .string "1"), (2, .int 5)]
      = [.int (-2), .string "né€"] := by decide +kernel
  rw [hset] at hfields
  obtain ⟨back, hback, hsame⟩ := hreread (by rw [hfields]; decide +kernel) [1, 2, 3]
  exact ⟨start, back, hmake, hfields, hwidth, hback, hsame⟩

end HeapStore
