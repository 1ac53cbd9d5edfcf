import HeapStore.Field

/-!
# Schemas

A schema is the list of a table's columns: a type each, and for most a
name. Two schemas *agree* when their types do, position by position;
names play no part in what can be stored, only in what is shown.

Main statements: `Schema.agrees_iff` and `Schema.width_append`.
-/

namespace HeapStore

/-- One column. -/
structure Column where
  type : FieldType
  name : Option String
deriving DecidableEq, Repr

/-- How a column is shown: its type, then its name between parentheses. -/
def Column.text (column : Column) : String :=
  match column.name with
  | some name => column.type.text ++ "(" ++ name ++ ")"
  | none => column.type.text

/-- The columns of a table, in order. -/
structure Schema where
  columns : List Column
deriving DecidableEq, Repr, Inhabited

namespace Schema

/-- The schema with the given types and names, if there is one name per
type. -/
def named? (types : List FieldType) (names : List String) : Option Schema :=
  if types.length = names.length then
    some ⟨List.zipWith (fun type name => ⟨type, some name⟩) types names⟩
  else none

/-- The schema with the given types and no names. -/
def unnamed (types : List FieldType) : Schema := ⟨types.map (⟨·, none⟩)⟩

/-- The types of the columns. -/
def types (schema : Schema) : List FieldType := schema.columns.map Column.type

/-- The number of columns. -/
def size (schema : Schema) : Nat := schema.columns.length

/-- The type of the `i`-th column. -/
def type? (schema : Schema) (i : Nat) : Option FieldType :=
  schema.columns[i]?.map Column.type

/-- The name of the `i`-th column, if there is such a column and it has
one. -/
def name? (schema : Schema) (i : Nat) : Option String :=
  schema.columns[i]?.bind Column.name

/-- The position of the first column called `name`. -/
def indexOf? (schema : Schema) (name : String) : Option Nat :=
  schema.columns.findIdx? fun column => column.name == some name

/-- The number of bytes of a tuple. -/
def width (schema : Schema) : Nat := FieldType.totalWidth schema.types

/-- Whether the two schemas have the same types. -/
def agrees (a b : Schema) : Bool := a.types == b.types

/-- The columns of `a`, then those of `b`. -/
def append (a b : Schema) : Schema := ⟨a.columns ++ b.columns⟩

/-- The schema as seen under a label: every name gets the label and a
dot in front, and a column without a name is called `null`. -/
def aliased (schema : Schema) (label : String) : Schema :=
  ⟨schema.columns.map fun column =>
    { column with name := some (label ++ "." ++ column.name.getD "null") }⟩

/-- How a schema is shown. -/
def text (schema : Schema) : String :=
  ", ".intercalate (schema.columns.map Column.text)

theorem agrees_iff {a b : Schema} : a.agrees b = true ↔ a.types = b.types := by
  simp [agrees]

@[simp] theorem agrees_self (a : Schema) : a.agrees a = true := by simp [agrees]

@[simp] theorem length_types (schema : Schema) : schema.types.length = schema.size := by
  simp [types, size]

theorem type?_eq (schema : Schema) (i : Nat) : schema.type? i = schema.types[i]? := by
  simp [type?, types]

theorem width_append (a b : Schema) : (a.append b).width = a.width + b.width := by
  simp [append, width, types, FieldType.totalWidth_append]

end Schema

end HeapStore
