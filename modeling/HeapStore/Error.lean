import HeapStore.Address
import HeapStore.Catalog.Definition
import HeapStore.Query.AggregateFn
import HeapStore.Schema

/-!
# Errors

Everything the engine refuses, by cause, and the wording of each refusal
(`Error.message`). Wordings name tables, so they take the way tables are
named as a parameter.

An `Error` is an answer: the caller asked for something that cannot be
had, and the engine goes on. A `Violation` is none: an operation was
started outside its contract, and what called it is beyond repair. A
`Failure` is one or the other.
-/

namespace HeapStore

/-! ## File system errors -/

/-- What the file system refused. -/
inductive IoError where
  | notFound
  | isADirectory
  | notADirectory
  | nulByte
  | invalidOffset
  | invalidFilename
  | unexpectedEof
  | invalidData
  | other (text : String)
deriving DecidableEq, Repr

namespace IoError

/-- The name of the kind of error. -/
def kind : IoError → String
  | .notFound => "NotFound"
  | .isADirectory => "IsADirectory"
  | .notADirectory => "NotADirectory"
  | .nulByte => "InvalidInput"
  | .invalidOffset => "InvalidInput"
  | .invalidFilename => "InvalidFilename"
  | .unexpectedEof => "UnexpectedEof"
  | .invalidData => "InvalidData"
  | .other _ => "Other"

/-- The wording of the error. -/
def text : IoError → String
  | .notFound => "No such file or directory (os error 2)"
  | .isADirectory => "Is a directory (os error 21)"
  | .notADirectory => "Not a directory (os error 20)"
  | .nulByte => "file name contained an unexpected NUL byte"
  | .invalidOffset => "Invalid argument (os error 22)"
  | .invalidFilename => "File name too long (os error 36)"
  | .unexpectedEof => "failed to fill whole buffer"
  | .invalidData => "stream did not contain valid UTF-8"
  | .other text => text

end IoError

/-! ## Mismatches between tuples and schemas -/

/-- Why a tuple, or a request about one, does not fit a schema. `stated`
is for reasons given by others. -/
inductive Mismatch where
  | fieldCount (expected got : Nat)
  | fieldType (i : Nat) (got : FieldType) (expected : Option FieldType)
  | notStorable (i : Nat) (got : FieldType) (expected : Option FieldType)
  | otherPage (tuple page : Schema)
  | otherTable (tuple table : Schema)
  | corruptBytes
  | noField (i : Nat)
  | notInt (i : Nat)
  | noAggregateField (i : Nat)
  | needsInt (fn : AggregateFn) (i : Nat) (type : FieldType)
  | noGroupField (i : Nat)
  | stated (reason : String)
deriving DecidableEq, Repr

/-- How a message shows a type that may be missing. -/
def FieldType.optionText : Option FieldType → String
  | some .int => "Some(Int)"
  | some .string => "Some(String)"
  | none => "None"

/-- The wording of a mismatch. -/
def Mismatch.message : Mismatch → String
  | .fieldCount expected got =>
    "expected " ++ toString expected ++ " fields, got " ++ toString got
  | .fieldType i got expected =>
    "field " ++ toString i ++ " is " ++ got.text ++ ", schema says "
      ++ FieldType.optionText expected
  | .notStorable i got expected =>
    "cannot store " ++ got.text ++ " in field " ++ toString i ++ " ("
      ++ FieldType.optionText expected ++ ")"
  | .otherPage tuple page =>
    "tuple is (" ++ tuple.text ++ "), page holds (" ++ page.text ++ ")"
  | .otherTable tuple table =>
    "tuple is (" ++ tuple.text ++ "), table holds (" ++ table.text ++ ")"
  | .corruptBytes => "corrupt tuple bytes"
  | .noField i => "tuple has no field " ++ toString i
  | .notInt i => "field " ++ toString i ++ " is not an INT"
  | .noAggregateField i => "no aggregate field " ++ toString i
  | .needsInt fn i type =>
    fn.text ++ " needs an INT field, field " ++ toString i ++ " is " ++ type.text
  | .noGroupField i => "no group-by field " ++ toString i
  | .stated reason => reason

/-! ## Refusals -/

/-- A refusal of the engine. -/
inductive Error where
  | io (cause : IoError)
  | transactionAborted (txn : TxnId) (page : PageId)
  | bufferPoolFull
  | pageNotFound (page : PageId)
  | tableNotFound (table : TableId)
  | tableNameNotFound (name : String)
  | tupleNotFound (record : RecordId)
  | emptySlot (slot : UInt16)
  | invalidRecordId
  | pageFull (page : PageId)
  | schemaMismatch (mismatch : Mismatch)
  | schemaParse (line : Nat) (fault : Definition.Fault)
  | log (reason : String)
  | tableIdCollision (table : TableId) (path existing : String)
deriving DecidableEq, Repr

/-- The name of the kind of refusal. -/
def Error.kind : Error → String
  | .io _ => "Io"
  | .transactionAborted .. => "TransactionAborted"
  | .bufferPoolFull => "BufferPoolFull"
  | .pageNotFound _ => "PageNotFound"
  | .tableNotFound _ => "TableNotFound"
  | .tableNameNotFound _ => "TableNameNotFound"
  | .tupleNotFound _ => "TupleNotFound"
  | .emptySlot _ => "EmptySlot"
  | .invalidRecordId => "InvalidRecordId"
  | .pageFull _ => "PageFull"
  | .schemaMismatch _ => "SchemaMismatch"
  | .schemaParse .. => "SchemaParse"
  | .log _ => "Log"
  | .tableIdCollision .. => "TableIdCollision"

/-- The wording of a refusal. -/
def Error.message (naming : TableNaming) : Error → String
  | .io cause => "I/O error: " ++ cause.text
  | .transactionAborted txn page =>
    txn.text ++ " aborted: lock on " ++ page.text naming ++ " not granted in time"
  | .bufferPoolFull => "Buffer pool is full, every resident page is dirty"
  | .pageNotFound page => "Page " ++ page.text naming ++ " not found"
  | .tableNotFound table => "Table " ++ table.text naming ++ " not found"
  | .tableNameNotFound name => "No table named " ++ Text.quoted name
  | .tupleNotFound record => "Tuple " ++ record.text naming ++ " not found"
  | .emptySlot slot => "Slot " ++ toString slot.toNat ++ " is empty"
  | .invalidRecordId => "Tuple has no record id"
  | .pageFull page => "Page " ++ page.text naming ++ " has no free slot"
  | .schemaMismatch mismatch =>
    "Tuple does not match the table schema: " ++ mismatch.message
  | .schemaParse line fault =>
    "Invalid catalog entry on line " ++ toString line ++ ": " ++ fault.message
  | .log reason => "Log error: " ++ reason
  | .tableIdCollision table path existing =>
    path ++ " hashes to " ++ table.text naming ++ ", already used by " ++ existing

/-! ## Failures -/

/-- A broken contract: a page buffer of another size than the file's
pages, arithmetic on pages of no bytes, or a size or position that is too
large to be computed or to be had in memory. -/
inductive Violation where
  | bufferSize (expected got : Nat)
  | zeroPageSize
  | tooLarge (number : Nat)
deriving DecidableEq, Repr

/-- What ends an operation early. -/
inductive Failure where
  | error (cause : Error)
  | violation (cause : Violation)
deriving DecidableEq, Repr

end HeapStore
