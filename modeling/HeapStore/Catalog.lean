import HeapStore.Catalog.Definition
import HeapStore.HeapFile

/-!
# The catalog

The catalog knows every table: its heap file, its name and its key. A
table is found by identity and by name, so there are two indexes
(`byId`, `byName`).

Registering a table under a name takes that name away from the table
that had it, and renames a table that is registered already. A file whose
path has the checksum of another registered file is refused.

Main statement: `add_eq_error_iff` (a table is refused exactly if another
file has its identity).
-/

namespace HeapStore

/-- A registered table. -/
structure TableEntry where
  file : HeapFile
  name : String
  /-- The name of the key column, empty when there is no key. -/
  key : String
deriving DecidableEq, Repr

/-- The registered tables. -/
structure Catalog where
  byId : Std.ExtTreeMap TableId TableEntry
  byName : Std.ExtTreeMap String TableId

namespace Catalog

/-- The catalog without tables. -/
def empty : Catalog := { byId := ∅, byName := ∅ }

instance : Inhabited Catalog := ⟨empty⟩

/-- The entry of a table. -/
def entry? (catalog : Catalog) (id : TableId) : Option TableEntry := catalog.byId[id]?

/-- The entry of a table that is expected to be there. -/
def entry (catalog : Catalog) (id : TableId) : Except Error TableEntry :=
  match catalog.entry? id with
  | some entry => .ok entry
  | none => .error (.tableNotFound id)

/-- The heap file of a table that is expected to be there. -/
def file (catalog : Catalog) (id : TableId) : Except Error HeapFile :=
  (catalog.entry id).map TableEntry.file

/-- The table called `name`. -/
def lookup (catalog : Catalog) (name : String) : Except Error TableId :=
  match catalog.byName[name]? with
  | some id => .ok id
  | none => .error (.tableNameNotFound name)

/-- The tables, ascending. -/
def ids (catalog : Catalog) : List TableId := catalog.byId.keys

/-- The entries, by ascending table. -/
def entries (catalog : Catalog) : List TableEntry := catalog.byId.values

/-- The registered file that stands in the way of `file`: another file of
the same identity. -/
def rival? (catalog : Catalog) (file : HeapFile) : Option HeapFile :=
  match catalog.entry? file.id with
  | some entry => if entry.file.absolutePath = file.absolutePath then none else some entry.file
  | none => none

/-- The catalog without the table called `name`, as far as identities go. -/
def forgetName (catalog : Catalog) (name : String) : Catalog :=
  match catalog.byName[name]? with
  | some id => { catalog with byId := catalog.byId.erase id }
  | none => catalog

/-- The catalog without the table `id`, and without its name. -/
def forgetId (catalog : Catalog) (id : TableId) : Catalog :=
  match catalog.byId[id]? with
  | some entry =>
    { byId := catalog.byId.erase id, byName := catalog.byName.erase entry.name }
  | none => catalog

/-- Registers a table. -/
def add (catalog : Catalog) (file : HeapFile) (name key : String) : Except Error Catalog :=
  match catalog.rival? file with
  | some rival => .error (.tableIdCollision file.id file.absolutePath rival.absolutePath)
  | none =>
    let rest := (catalog.forgetName name).forgetId file.id
    .ok {
      byId := rest.byId.insert file.id { file, name, key }
      byName := rest.byName.insert name file.id }

/-! ## What registering does -/

/-- A table is refused exactly if another file has its identity, and then
the refusal names the two files. -/
theorem add_eq_error_iff {catalog : Catalog} {file : HeapFile} {name key : String} {e : Error} :
    catalog.add file name key = .error e ↔
      ∃ rival, catalog.rival? file = some rival ∧
        e = .tableIdCollision file.id file.absolutePath rival.absolutePath := by
  unfold add
  split
  · rename_i rival h
    simp [h, eq_comm]
  · rename_i h
    simp [h]

end Catalog

end HeapStore
