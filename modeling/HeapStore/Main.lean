import HeapStore.Demo

/-!
# The program

Prints the demonstration. Nothing is left on the machine: the session
works on files in memory, and the directory is only named.
-/

/-- Runs the demonstration in the directory for temporary files. -/
def main : IO UInt32 := do
  let directory := (← IO.getEnv "TMPDIR").getD "/tmp"
  let (lines, completed) :=
    HeapStore.Demo.run HeapStore.TableId.digits (directory ++ "/quarry-demo")
  lines.forM fun line => IO.println line
  return if completed then 0 else 101
