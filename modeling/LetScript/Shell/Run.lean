import LetScript.Diagnostic.Render
import LetScript.Program.Printer
import LetScript.Reading.Session
import LetScript.Shell.Options

/-!
Runs of the shell, from the arguments to what is left to see. A run checks one file: the program is
printed if there is nothing to complain about, else every diagnostic is shown against the source. Or it
answers line by line: every line is a source of its own, and blank lines are passed over.
-/
namespace LetScript.Shell

open Text (isBlank splitAfter)

/-- What a run leaves to see: the text on standard output and the exit code. -/
structure Transcript where
  output : String
  exitCode : Nat
  deriving DecidableEq, Repr

namespace Transcript

/-- The run had to stop without anything to show. -/
def failed : Transcript := ⟨"", 1⟩

/-- The run broke off in the middle. -/
def aborted : Transcript := ⟨"", 101⟩

/-- The arguments were refused. -/
def refused : Transcript := ⟨"", 2⟩

end Transcript

/-- The last component of a path. A path that ends in `..`, or has no component at all, names no
file. -/
def baseName? (path : String) : Option String :=
  match (path.splitOn "/").reverse.find? fun part => part ≠ "" ∧ part ≠ "." with
  | some ".." => none
  | found => found

/-- The diagnostics against their source, up to the first for which nothing can be rendered: there the
run breaks off. -/
def report (source : String) : List Diagnostic → Transcript
  | [] => ⟨"", 1⟩
  | d :: rest =>
    match d.render? source with
    | none => .aborted
    | some block =>
      let later := report source rest
      { later with output := block ++ later.output }

def checkSource (source : String) (file : Option String) : Transcript :=
  let (program, diagnostics) := parseSource source file
  if diagnostics.isEmpty then ⟨program.print ++ "\n", 0⟩
  else report source diagnostics

/-- A file that is not UTF-8 cannot be checked. -/
def checkFile (path : String) (content : ByteArray) : Transcript :=
  match String.fromUTF8? content with
  | some source => checkSource source (baseName? path)
  | none => .failed

/-- Nor can a file that has not been read. -/
def checkRead (path : String) (content? : Option ByteArray) : Transcript :=
  (content?.map (checkFile path)).getD .failed

/-- The program of a line, or the messages of its diagnostics. -/
def answer (line : String) : String :=
  let (program, diagnostics) := parseSource line none
  if diagnostics.isEmpty then program.print ++ "\n"
  else "parser errors:\n" ++ String.join (diagnostics.map fun d => "\t" ++ d.message ++ "\n")

/-- A line without the line feed that ends it and one carriage return before that. -/
def dropLineEnd (line : List Char) : List Char :=
  match line.reverse with
  | '\n' :: '\r' :: rest => rest.reverse
  | '\n' :: rest => rest.reverse
  | _ => line

/-- What is shown for a line as it was read, unless it is not UTF-8. -/
def reply? (line : List UInt8) : Option String :=
  (String.fromUTF8? ⟨line.toArray⟩).map fun text =>
    let line := dropLineEnd text.toList
    if line.all isBlank then "" else answer (String.ofList line)

/-- What comes of what has been read: a reply to show, or the exit code with which the loop ends. It
ends with the input, or at a line that is not UTF-8. -/
def turn : Option (List UInt8) → Except Nat String
  | none => .error 0
  | some line =>
    match reply? line with
    | none => .error 1
    | some reply => .ok reply

/-- A last line without a line feed counts unless it is empty. -/
def rawLines (input : List UInt8) : List (List UInt8) :=
  (splitAfter (· == 10) input).filter (!·.isEmpty)

/-- The prompt is shown before each line is read, and so once more when the input ends. -/
def converse (prompt : String) (lines : List (List UInt8)) : Transcript :=
  match _h : turn lines.head? with
  | .error code => ⟨prompt, code⟩
  | .ok reply =>
    let later := converse prompt lines.tail
    { later with output := prompt ++ reply ++ later.output }
termination_by lines.length
decreasing_by
  cases lines with
  | nil => cases _h
  | cons line rest => exact Nat.lt_succ_self rest.length

def usage : String :=
  "Usage: letscript [-v]... [--prompt <PROMPT>] [FILE]\n"

def Halt.transcript : Halt → Transcript
  | help => ⟨usage, 0⟩
  | _ => .refused

/-- The arguments choose one of three ways to run. -/
def dispatch (arguments : List String) (halt : Halt → α) (check : String → α) (talk : String → α) : α :=
  match Command.ofArguments arguments with
  | .error reason => halt reason
  | .ok (.file path) => check path
  | .ok (.repl prompt) => talk prompt

/-- Runs with the given arguments and standard input; the bytes of a file are `content? path`, unless
it cannot be read. -/
def run (arguments : List String) (content? : String → Option ByteArray) (input : List UInt8) :
    Transcript :=
  dispatch arguments Halt.transcript (fun path => checkRead path (content? path))
    fun prompt => converse prompt (rawLines input)

end LetScript.Shell
