import LetScript.Shell.Run

/-!
The command line: checks a file, or answers line by line.
-/
namespace LetScript.Shell

/-- Reads up to a line feed, byte by byte so that no line waits for the next one. -/
partial def readBytes (input : IO.FS.Stream) (line : Array UInt8) : IO (List UInt8) := do
  let bytes ← input.read 1
  match bytes.toList with
  | [] => return line.toList
  | byte :: _ => if byte == 10 then return (line.push byte).toList else readBytes input (line.push byte)

def readLine? (input : IO.FS.Stream) : IO (Option (List UInt8)) := do
  let line ← readBytes input #[]
  return if line.isEmpty then none else some line

/-- The turns of `converse`, with each line read only after the prompt has been shown. -/
partial def loop (prompt : String) : IO UInt32 := do
  let output ← IO.getStdout
  output.putStr prompt
  output.flush
  match turn (← readLine? (← IO.getStdin)) with
  | .error code => return code.toUInt32
  | .ok reply =>
    output.putStr reply
    loop prompt

def finish (t : Transcript) : IO UInt32 := do
  IO.print t.output
  return t.exitCode.toUInt32

def halted (reason : Halt) : IO UInt32 := do
  if reason ≠ .help then IO.eprint (reason.message ++ "\n" ++ usage)
  finish reason.transcript

def readContent? (path : String) : IO (Option ByteArray) :=
  try
    return some (← IO.FS.readBinFile path)
  catch _ =>
    return none

end LetScript.Shell

open LetScript.Shell in
def main (arguments : List String) : IO UInt32 :=
  dispatch arguments halted (fun path => do finish (checkRead path (← readContent? path))) loop
