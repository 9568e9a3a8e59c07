import LetScript.Program.Basic
import LetScript.Reading.Attempt
import LetScript.Token.Scanner

/-!
A reading session on one source. Its operations can be called in any order: single moves, single
rules wherever the cursor stands, and `parse`, which reads from the current token to the end of the
input and records the diagnostics.
-/
namespace LetScript

structure Session where
  cursor : Cursor
  /-- Those of the latest `parse`, in the order in which they were found. -/
  diagnostics : List Diagnostic
  deriving DecidableEq, Repr

namespace Session

def ofScanner (scanner : Scanner) : Session :=
  let (tokens, stop) := scanner.scan
  ⟨⟨tokens, stop, 0⟩, []⟩

def ofSource (source : String) (file : Option String) : Session :=
  ofScanner (.ofSource source file)

def current (s : Session) : Token := s.cursor.current

def peek (s : Session) : Token := s.cursor.peek

def position (s : Session) : Position := s.cursor.position

/-- Runs a rule where the session stands. -/
def run (rule : Rule α) (s : Session) : Except Diagnostic α × Session :=
  let (result, cursor) := rule s.cursor
  (result, { s with cursor })

def leaveNesting (s : Session) : Session := { s with cursor := s.cursor.leave }

/-- Opens up to `count` expressions and stops at the first refusal; tells how many were opened. -/
def enterMany : Nat → Session → (Nat × Option Diagnostic) × Session
  | 0, s => ((0, none), s)
  | count + 1, s =>
    match s.run Rule.enterNesting with
    | (.error d, s) => ((0, some d), s)
    | (.ok _, s) =>
      let ((entered, refusal), s) := enterMany count s
      ((entered + 1, refusal), s)

def leaveMany (count : Nat) (s : Session) : Session := Nat.repeat leaveNesting count s

/-- Reads statements up to the end of the input, with no expression open at first. What earlier
calls recorded is dropped. -/
def parse (s : Session) : Program × Session :=
  let (attempts, cursor) := { s.cursor with depth := 0 }.attempts
  (⟨attempts.filterMap (·.result.statement?)⟩, ⟨cursor, attempts.filterMap (·.result.diagnostic?)⟩)

/-- The operations that change a session. -/
inductive Operation where
  | advance
  | expectPeek (expected : TokenKind)
  | enterNesting
  | leaveNesting
  | parse
  | statement
  | statementOf (form : StatementForm)
  | expression (precedence : Precedence)
  | opening (rule : Opening)
  deriving DecidableEq, Repr

/-- The session after an operation, whatever the operation answered. -/
def perform (s : Session) : Operation → Session
  | .advance => (s.run Rule.advance).2
  | .expectPeek expected => (s.run (Rule.expectPeek expected)).2
  | .enterNesting => (s.run Rule.enterNesting).2
  | .leaveNesting => s.leaveNesting
  | .parse => s.parse.2
  | .statement => (s.run Rule.statement).2
  | .statementOf form => (s.run (Rule.statementOf form)).2
  | .expression precedence => (s.run (Rule.expression precedence)).2
  | .opening rule => (s.run (Rule.opening rule)).2

end Session

/-- Reads a whole source: the program of all statements that could be read, and a diagnostic for
each that could not. -/
def parseSource (source : String) (file : Option String) : Program × List Diagnostic :=
  let (program, session) := (Session.ofSource source file).parse
  (program, session.diagnostics)

end LetScript
