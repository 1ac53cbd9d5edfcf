import HeapStore.Database

/-!
# A demonstration

A short session with the engine, told line by line (`Demo.run`): a table
is made, three rows are inserted and committed, a fourth is inserted and
taken back, and what is left is scanned and counted.

The session stops at the first failure. It is told up to there, and
counts as not completed.
-/

namespace HeapStore

namespace Demo

/-- A session under way: the database, and the lines told so far. -/
structure Session where
  db : Database
  lines : List String

/-- A part of a session. -/
abbrev Scene := EStateM Failure Session

variable {α : Type}

/-! ## Steps -/

/-- Tells a line. -/
def say (line : String) : Scene Unit :=
  modify fun session => { session with lines := session.lines ++ [line] }

/-- Goes on with an answer, or stops. -/
def expect : Except Error α → Scene α
  | .ok answer => pure answer
  | .error cause => throw (.error cause)

/-- Runs an action on the database. -/
def act (action : Action α) : Scene α := do
  let session ← get
  let (answer, db) := session.db.run action
  set { session with db }
  match answer with
  | .ok answer => return answer
  | .error failure => throw failure

/-! ## Texts -/

/-- Where a tuple is stored, spelled out. -/
def placeText (naming : TableNaming) : Option RecordId → String
  | none => "None"
  | some record =>
    "Some(RecordId \x7b page_id: PageId \x7b table_id: " ++ record.page.table.text naming
      ++ ", page_no: " ++ toString record.page.page.toNat
      ++ " \x7d, slot_id: SlotId(" ++ toString record.slot.toNat ++ ") \x7d)"

/-- Tells an item of a query, with a lead. -/
def sayItem (naming : TableNaming) (lead : String) : Item → Scene Unit
  | .ok tuple => say (lead ++ tuple.text)
  | .error cause => say ("  ! " ++ cause.message naming)

/-! ## Scenes -/

/-- The columns of the table. -/
def schema : Schema := ⟨[⟨.int, some "id"⟩, ⟨.string, some "name"⟩]⟩

/-- Makes the table of users. -/
def makeTable (root : String) : Scene HeapFile := do
  say "Quarry - a transactional heap-file storage engine"
  say "================================================="
  say ""
  say ("Created database with a 10 page buffer pool in " ++ root)
  let session ← get
  let (file, db) := session.db.createTable "users.dat" "users" schema
  set { session with db }
  let file ← expect file
  say ("Created table users (" ++ file.schema.text ++ ")")
  say ""
  return file

/-- Inserts one user. Yields the stored tuple. -/
def insertUser (file : HeapFile) (txn : TxnId) (id : Int32) (name : String) : Scene Tuple := do
  let tuple ← expect (Tuple.make file.schema [.int id, .storable name])
  act (Engine.insert txn file.id tuple)

/-- Inserts three users for good. -/
def insertCommitted (naming : TableNaming) (file : HeapFile) (txn : TxnId) : Scene Unit := do
  for (id, name) in [((1 : Int32), "ada"), (2, "grace"), (3, "edsger")] do
    let tuple ← insertUser file txn id name
    say (txn.text ++ " inserted (" ++ tuple.text ++ ") at " ++ placeText naming tuple.record)
  act (Engine.commit txn)
  let pages := (file.pageCount (← get).db.disk).toOption.getD 0
  say (txn.text ++ " committed, file has " ++ toString pages.toNat ++ " page(s)")
  say ""

/-- Inserts a user and takes it back. -/
def insertAborted (file : HeapFile) (txn : TxnId) : Scene Unit := do
  let tuple ← insertUser file txn 4 "ghost"
  act (Engine.abort txn)
  say (txn.text ++ " inserted (" ++ tuple.text ++ ") and aborted")
  say ""

/-- Scans some of the users, and counts them all. -/
def query (naming : TableNaming) (file : HeapFile) (txn : TxnId) : Scene Unit := do
  let scan ← act (Engine.openScan txn file.id (some "u"))
  say ("Scanning with schema " ++ scan.schema.text ++ ":")
  let users : Operator Scan := .filter ⟨0, .greaterOrEqual, .int 2⟩ (.source scan.scan)
  let (items, _) ← act users.rest
  items.forM (sayItem naming "  - ")
  let scan ← act (Engine.openScan txn file.id (some "u"))
  let spec ← expect (Aggregate.make scan.schema 0 none .count)
  let count : Operator Scan := .aggregate spec (.source scan.scan)
  let (items, _) ← act count.rest
  items.forM (sayItem naming "count(u.id) = ")
  act (Engine.commit txn)

/-- The whole session. -/
def session (naming : TableNaming) (root : String) : Scene Unit := do
  let file ← makeTable root
  insertCommitted naming file ⟨1⟩
  insertAborted file ⟨2⟩
  query naming file ⟨3⟩
  say ""
  say "Demo completed successfully!"

/-- The lines of the session in a fresh directory, and whether it was
completed. -/
def run (naming : TableNaming) (root : String) : List String × Bool :=
  let config : Config := { Config.default with poolPages := 10 }
  let log : LogSink := .file (LogFile.absent false).openWriter
  match session naming root { db := .make config root log, lines := [] } with
  | .ok () session => (session.lines, true)
  | .error _ session => (session.lines, false)

end Demo

end HeapStore
