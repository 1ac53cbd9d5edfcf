import HeapStore.Bytes.Word
import HeapStore.Text.Utf8

/-!
# Fields

The values of a table's columns and their stored form. There are two
types, and both are stored in a fixed number of bytes (`FieldType.width`),
so that every tuple of a table has one size:

- an integer of 32 bits: its four bytes;
- a string: a length word and then `stringCapacity` bytes, of which those
  behind the length are zero. A longer string is cut at that many bytes.

`Field.storable` builds a string field that needs no cut. Reading accepts
whatever bytes it finds: a length beyond the capacity counts as the
capacity, and bytes that are no UTF-8 are replaced (`Text.decodeLossy`).

Main statements: `Field.length_encode` (a field fills its width) and
`Field.decode?_eq_none_iff` (only a short buffer cannot be read).
-/

namespace HeapStore

/-- The types a column can have. -/
inductive FieldType where
  | int
  | string
deriving DecidableEq, Repr

/-- A value of one column. -/
inductive Field where
  | int (value : Int32)
  | string (text : String)
deriving DecidableEq, Repr

/-- The number of bytes stored of a string. -/
def stringCapacity : Nat := 128

namespace FieldType

/-- The number of bytes a field of this type fills. -/
def width : FieldType → Nat
  | .int => 4
  | .string => 4 + stringCapacity

/-- The number of bytes fields of these types fill together. -/
def totalWidth : List FieldType → Nat
  | [] => 0
  | type :: types => type.width + totalWidth types

theorem totalWidth_append (a b : List FieldType) :
    totalWidth (a ++ b) = totalWidth a + totalWidth b := by
  induction a with
  | nil => simp [totalWidth]
  | cons type a ih => simp [totalWidth, ih, Nat.add_assoc]

/-- The name of the type, as messages show it. -/
def text : FieldType → String
  | .int => "INT"
  | .string => "STRING"

/-- The type called `name`, in upper or lower case letters. Case is
folded for ASCII letters alone. -/
def ofName? (name : List Char) : Option FieldType :=
  let lower := name.map Char.toLower
  if lower = ['i', 'n', 't'] then some .int
  else if lower = ['s', 't', 'r', 'i', 'n', 'g'] then some .string
  else none

end FieldType

namespace Field

/-- The type of a field. -/
def type : Field → FieldType
  | .int _ => .int
  | .string _ => .string

/-- The integer in a field. -/
def asInt? : Field → Option Int32
  | .int value => some value
  | .string _ => none

/-- The string in a field. -/
def asString? : Field → Option String
  | .int _ => none
  | .string text => some text

/-- How a field is shown. -/
def text : Field → String
  | .int value => toString value.toInt
  | .string text => text

/-- The string field of the longest prefix of `text` that can be stored
whole. A longer text is cut in its bytes, where that splits no character. -/
def storable (text : String) : Field :=
  let bytes := Text.utf8 text
  if bytes.length ≤ stringCapacity then .string text
  else
    let kept := bytes.take (Text.boundaryUpTo bytes stringCapacity)
    .string (String.ofList (Text.decodeLossy kept))

/-- The order of two fields of one type: numbers by value, strings by
their code points. Fields of different types have none. -/
def compare? : Field → Field → Option Ordering
  | .int a, .int b => some (compare a b)
  | .string a, .string b => some (compare a b)
  | _, _ => none

/-! ## The stored form -/

/-- The bytes of `text` that are stored. -/
def storedBytes (text : String) : Bytes := (Text.utf8 text).take stringCapacity

/-- The stored form of a field. -/
def encode : Field → Bytes
  | .int value => Bytes.ofWord32 value.toUInt32
  | .string text =>
    Bytes.ofWord32 (storedBytes text).length.toUInt32
      ++ Bytes.resize (storedBytes text) stringCapacity

/-- The field of the given type at the front of a buffer, and what
follows it. -/
def decode? (type : FieldType) (data : Bytes) : Option (Field × Bytes) := do
  let (word, data) ← Bytes.takeWord32? data
  match type with
  | .int => return (.int word.toInt32, data)
  | .string =>
    if data.length < stringCapacity then none
    else
      let stored := data.take (min word.toNat stringCapacity)
      return (.string (String.ofList (Text.decodeLossy stored)), data.drop stringCapacity)

theorem length_storedBytes_le (text : String) :
    (storedBytes text).length ≤ stringCapacity :=
  List.length_take_le ..

/-- A field fills the width of its type. -/
@[simp] theorem length_encode (field : Field) : field.encode.length = field.type.width := by
  cases field <;> simp [encode, type, FieldType.width]

/-- Reading fails on a buffer shorter than the field, and on no other. -/
theorem decode?_eq_none_iff {type : FieldType} {data : Bytes} :
    decode? type data = none ↔ data.length < type.width := by
  rcases data with _ | ⟨b0, _ | ⟨b1, _ | ⟨b2, _ | ⟨b3, data⟩⟩⟩⟩ <;> cases type <;>
    simp [decode?, Bytes.takeWord32?, FieldType.width, stringCapacity]
  by_cases h : data.length < 128
  · simp [h]; omega
  · simp [h]; omega

/-- A field that was read has the type asked for, and is followed by all
bytes behind its width. -/
theorem type_and_rest_of_decode? {type : FieldType} {data rest : Bytes} {field : Field}
    (h : decode? type data = some (field, rest)) :
    field.type = type ∧ rest = data.drop type.width := by
  rcases data with _ | ⟨b0, _ | ⟨b1, _ | ⟨b2, _ | ⟨b3, data⟩⟩⟩⟩ <;> cases type <;>
    simp only [decode?, Bytes.takeWord32?, Option.bind_eq_bind, Option.bind_none,
      Option.bind_some, reduceCtorEq] at h
  · cases h
    exact ⟨rfl, by simp [FieldType.width]⟩
  · split at h
    · cases h
    · cases h
      exact ⟨rfl, by simp [FieldType.width, Nat.add_comm 4]⟩

end Field

end HeapStore
