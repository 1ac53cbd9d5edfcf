import HeapStore.Catalog
import HeapStore.Text.Lines

/-!
# Loading a schema

A schema text defines one table on each line that is not blank
(`Definition.parse`). Loading registers the tables one after the other,
each with the heap file `<name>.dat` next to the schema. The first line
that defines no table, or whose file cannot be opened or registered, ends
the loading; the tables before it stay registered.
-/

namespace HeapStore

namespace Catalog

/-- What loading changes: the files, and the catalog. -/
structure Loading where
  disk : Disk
  catalog : Catalog

/-- The schema of a defined table. -/
def schemaOf (definition : Definition) : Schema :=
  ⟨definition.columns.map fun (name, type) => ⟨type, some name⟩⟩

/-- Opens the file of a defined table and registers the table. -/
def loadTable (pageSize : Nat) (definition : Definition) : EStateM Error Loading TableId := do
  let state ← get
  match HeapFile.openFile state.disk (definition.name ++ ".dat") (schemaOf definition) pageSize with
  | .error cause => throw cause
  | .ok (file, disk) =>
    set { state with disk }
    match state.catalog.add file definition.name definition.key with
    | .error cause => throw cause
    | .ok catalog =>
      set ({ disk, catalog } : Loading)
      return file.id

/-- Loads one line, whose number is `number`. -/
def loadLine (pageSize number : Nat) (line : List Char) :
    EStateM Error Loading (Option TableId) := do
  if line.all Text.isBlank then return none
  else
    match Definition.parse line with
    | .error fault => throw (.schemaParse number fault)
    | .ok definition => return some (← loadTable pageSize definition)

/-- Loads the given lines, of which the first has the number `number`.
Yields the tables in order. -/
def loadLines (pageSize : Nat) :
    (number : Nat) → List (List Char) → EStateM Error Loading (List TableId)
  | _, [] => return []
  | number, line :: lines => do
    let table ← loadLine pageSize number line
    let tables ← loadLines pageSize (number + 1) lines
    return table.toList ++ tables

/-- Loads a schema text. -/
def loadText (pageSize : Nat) (text : List Char) : EStateM Error Loading (List TableId) :=
  loadLines pageSize 1 (Text.lines text)

/-- Loads the schema in a file. -/
def loadFile (pageSize : Nat) (name : String) : EStateM Error Loading (List TableId) := do
  match (← get).disk.content? name with
  | none => throw (.io .notFound)
  | some data =>
    match Text.decode? data with
    | none => throw (.io .invalidData)
    | some text => loadText pageSize text

end Catalog

end HeapStore
