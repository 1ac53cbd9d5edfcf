import HeapStore.Log.File

/-!
# Where records go

The engine logs to a `LogSink`: a list in memory or a file. A log in
memory may be told to refuse some of the calls made on it, which is how
the engine's answers to a failing log are studied; calls are counted from
one, refused ones included.
-/

namespace HeapStore

/-- Which calls a log refuses, by their number. -/
structure Refusals where
  writes : Nat → Bool
  forces : Nat → Bool

/-- Refuses nothing. -/
def Refusals.none : Refusals := ⟨fun _ => false, fun _ => false⟩

/-- A log in memory. -/
structure MemoryLog where
  refusals : Refusals
  records : List LogRecord
  /-- How many forces were not refused. -/
  forces : Nat
  writeCalls : Nat
  forceCalls : Nat

namespace MemoryLog

/-- The log without records. -/
def empty (refusals : Refusals) : MemoryLog :=
  { refusals, records := [], forces := 0, writeCalls := 0, forceCalls := 0 }

/-- Adds a record, unless this call is to be refused. -/
def write (log : MemoryLog) (record : LogRecord) : Except Error Unit × MemoryLog :=
  let call := log.writeCalls + 1
  let log := { log with writeCalls := call }
  if log.refusals.writes call then (.error (.log ("write " ++ toString call ++ " refused")), log)
  else (.ok (), { log with records := log.records ++ [record] })

/-- Counts a force, unless this call is to be refused. -/
def force (log : MemoryLog) : Except Error Unit × MemoryLog :=
  let call := log.forceCalls + 1
  let log := { log with forceCalls := call }
  if log.refusals.forces call then (.error (.log ("force " ++ toString call ++ " refused")), log)
  else (.ok (), { log with forces := log.forces + 1 })

end MemoryLog

/-- What the engine logs to. -/
inductive LogSink where
  | memory (log : MemoryLog)
  | file (log : LogFile)

namespace LogSink

/-- Takes a record about to take effect. -/
def write (sink : LogSink) (record : LogRecord) : Except Error Unit × LogSink :=
  match sink with
  | .memory log => (log.write record).map id .memory
  | .file log => (log.write record).map id .file

/-- Makes every record taken so far durable. -/
def force (sink : LogSink) : Except Error Unit × LogSink :=
  match sink with
  | .memory log => log.force.map id .memory
  | .file log => log.force.map id .file

end LogSink

end HeapStore
