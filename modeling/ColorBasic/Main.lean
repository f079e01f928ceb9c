import ColorBasic.CommandLine

/-!
# The program

It passes the arguments and standard input on and writes what comes back.
-/

open ColorBasic

/-- All bytes that a stream still holds. -/
partial def readToEnd (stream : IO.FS.Stream) (read : ByteArray) : IO ByteArray := do
  let chunk ← stream.read 65536
  if chunk.isEmpty then return read else readToEnd stream (read ++ chunk)

/-- Runs the command that the arguments name on standard input. -/
def main (arguments : List String) : IO UInt32 := do
  let input ← readToEnd (← IO.getStdin) .empty
  let finish := CommandLine.run (arguments.map String.toList) input.toList
  (← IO.getStderr).putStr (String.ofList (finish.besideOutput LogRecord.line))
  (← IO.getStdout).write ⟨finish.output.toArray⟩
  return finish.exitCode.toUInt32
