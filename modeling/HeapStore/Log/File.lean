import HeapStore.Error
import HeapStore.Log.Record

/-!
# The log as a file

Records are appended to a file through a buffer of `bufferSize` bytes.
Writing a record promises nothing; `force` brings everything written
before it into the file. The first failure to bring bytes into the file
is remembered: what is written after it is dropped, and every later
`force` reports it again.

A `LogFile` is the file together with the writer, if one is open. The
file outlives its writers: a new writer goes on at the end, after the old
one has been closed. The medium is a common file, or a device that is full
from the start.
-/

namespace HeapStore

/-- The state of an open writer. -/
structure LogWriter where
  /-- What was written and has not reached the file. -/
  pending : Bytes
  /-- The first failure. -/
  failure : Option String
deriving DecidableEq, Repr

/-- A log file and its writer. -/
structure LogFile where
  /-- What the file holds, once there is a file. -/
  content : Option Bytes
  /-- Whether the medium takes no bytes. -/
  full : Bool
  writer : Option LogWriter
deriving DecidableEq, Repr

namespace LogFile

/-- The number of bytes the writer keeps back. -/
def bufferSize : Nat := 8192

/-- A log for which no file was made yet. -/
def absent (full : Bool) : LogFile := { content := none, full, writer := none }

/-- What the file holds. -/
def bytes (log : LogFile) : Bytes := log.content.getD []

/-! ## Bringing bytes into the file -/

/-- How a full medium refuses bytes. -/
def noSpace : String := "No space left on device (os error 28)"

/-- How a device refuses to be synchronised. -/
def notSyncable : String := "Invalid argument (os error 22)"

/-- The file after `data` was added to it. -/
def transfer (full : Bool) (content data : Bytes) : Except String Bytes :=
  if full ∧ data ≠ [] then .error noSpace else .ok (content ++ data)

/-- Brings the pending bytes into the file. After a failure they are
still pending. -/
def flush (full : Bool) (content : Bytes) (writer : LogWriter) : Bytes × LogWriter :=
  match transfer full content writer.pending with
  | .ok content => (content, { writer with pending := [] })
  | .error reason => (content, { writer with failure := some reason })

/-- Takes one record's bytes. A record that does not fit into the buffer
first sends the pending bytes off; one as large as the buffer follows
them at once. -/
def accept (full : Bool) (content : Bytes) (writer : LogWriter) (data : Bytes) :
    Bytes × LogWriter :=
  if writer.failure.isSome then (content, writer)
  else
    let (content, writer) :=
      if data.length > bufferSize - writer.pending.length then flush full content writer
      else (content, writer)
    if writer.failure.isSome then (content, writer)
    else if data.length < bufferSize then
      (content, { writer with pending := writer.pending ++ data })
    else
      match transfer full content data with
      | .ok content => (content, writer)
      | .error reason => (content, { writer with failure := some reason })

/-! ## Operations -/

/-- Closes the writer, after a last attempt to bring the pending bytes
into the file. -/
def close (log : LogFile) : LogFile :=
  match log.writer with
  | none => log
  | some writer =>
    { log with content := some (flush log.full log.bytes writer).1, writer := none }

/-- Opens a writer at the end of the file, which is made if need be. A
writer that is still open is closed first. -/
def openWriter (log : LogFile) : LogFile :=
  let log := log.close
  { log with content := some log.bytes, writer := some ⟨[], none⟩ }

/-- Writes a record. -/
def write (log : LogFile) (record : LogRecord) : Except Error Unit × LogFile :=
  match log.writer with
  | none => (.error (.log "log is closed"), log)
  | some writer =>
    let (content, writer) := accept log.full log.bytes writer record.encode
    (.ok (), { log with content := some content, writer := some writer })

/-- Brings everything written so far into the file, or tells the first
failure to do so. -/
def force (log : LogFile) : Except Error Unit × LogFile :=
  match log.writer with
  | none => (.error (.log "log is closed"), log)
  | some writer =>
    let (content, writer) :=
      if writer.failure.isSome then (log.bytes, writer)
      else flush log.full log.bytes writer
    let writer :=
      if log.full ∧ writer.failure.isNone then { writer with failure := some notSyncable }
      else writer
    let answer :=
      match writer.failure with
      | none => .ok ()
      | some reason => .error (.log reason)
    (answer, { log with content := some content, writer := some writer })

/-- The complete records in the file. -/
def records (log : LogFile) : Except Error (List LogRecord) :=
  match log.content with
  | none => .error (.io .notFound)
  | some content => .ok (LogRecord.decodeAll content)

end LogFile

end HeapStore
