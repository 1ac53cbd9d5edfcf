import HeapStore.Field
import HeapStore.Text.Blank
import HeapStore.Text.Quoted
import HeapStore.Text.Split

/-!
# Table definitions

One line of schema text defines one table:

    name (column type, column type pk, …)

The columns stand between the first opening and the last closing
parenthesis; what follows that one is not read. Commas separate columns,
blanks separate the words of a column, and blanks around the name are
dropped. A column is a name, a type (`FieldType.ofName?`) and, for the
primary key, the word `pk`. Of several columns marked as key the last one
is the key.

`Definition.parse` reads a line, or tells why it is none
(`Definition.Fault`). The parentheses are looked for first, then the
table's name, then the columns from left to right; of a column, first its
shape is judged, then its mark, then its type.
-/

namespace HeapStore

/-- What a line of schema text says about a table. -/
structure Definition where
  name : String
  columns : List (String × FieldType)
  /-- The name of the key column, empty when there is no key. -/
  key : String
deriving DecidableEq, Repr

namespace Definition

/-- Why a line defines no table. `stated` is for reasons given by others. -/
inductive Fault where
  | missingOpen
  | missingClose
  | closeBeforeOpen
  | missingName
  | unknownType (name : String)
  | unknownMark (word : String)
  | badColumn (text : String)
  | stated (reason : String)
deriving DecidableEq, Repr

/-- The wording of a fault. -/
def Fault.message : Fault → String
  | .missingOpen => "missing '('"
  | .missingClose => "missing ')'"
  | .closeBeforeOpen => "')' before '('"
  | .missingName => "missing table name"
  | .unknownType name => "unknown type " ++ name
  | .unknownMark word => "unknown annotation " ++ word
  | .badColumn text => "bad field definition " ++ Text.quoted text
  | .stated reason => reason

/-- A column as it is written: its name, its type, and whether it is
marked as key. -/
structure ColumnText where
  name : String
  type : FieldType
  isKey : Bool
deriving DecidableEq, Repr

/-- The type that a word names. -/
def typeOfWord (word : List Char) : Except Fault FieldType :=
  match FieldType.ofName? word with
  | some type => .ok type
  | none => .error (.unknownType (String.ofList word))

/-- Reads one column. -/
def parseColumn (text : List Char) : Except Fault ColumnText :=
  match Text.words text with
  | [name, type] =>
    (typeOfWord type).map fun type => ⟨String.ofList name, type, false⟩
  | [name, type, mark] =>
    if mark = ['p', 'k'] then
      (typeOfWord type).map fun type => ⟨String.ofList name, type, true⟩
    else .error (.unknownMark (String.ofList mark))
  | _ => .error (.badColumn (String.ofList (Text.trim text)))

/-- The name of the last column marked as key. -/
def keyOf (columns : List ColumnText) : String :=
  ((columns.filter ColumnText.isKey).getLast?.map ColumnText.name).getD ""

/-- The position of the last `c` in a text. -/
def lastIdx? (c : Char) (text : List Char) : Option Nat :=
  (text.reverse.findIdx? (· == c)).map fun i => text.length - 1 - i

/-- Reads one line. -/
def parse (line : List Char) : Except Fault Definition :=
  match line.findIdx? (· == '('), lastIdx? ')' line with
  | none, _ => .error .missingOpen
  | some _, none => .error .missingClose
  | some start, some stop =>
    if stop < start then .error .closeBeforeOpen
    else
      let name := Text.trim (line.take start)
      if name.isEmpty then .error .missingName
      else do
        let columns ← (Text.splitAt ',' ((line.take stop).drop (start + 1))).mapM parseColumn
        return {
          name := String.ofList name
          columns := columns.map fun column => (column.name, column.type)
          key := keyOf columns }

end Definition

end HeapStore
