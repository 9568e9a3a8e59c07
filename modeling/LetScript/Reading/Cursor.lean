import LetScript.Diagnostic.Basic
import LetScript.Token.Basic

/-!
Where reading stands. A cursor holds the tokens from the current one on, without the end of the
input, which stands behind the last of them for ever. Beside the tokens it counts the expressions
that are open. A rule reads from a cursor and leaves one behind, whether it succeeds or fails.
-/
namespace LetScript

/-- No more expressions than this may be open at once. -/
def maxNesting : Nat := 256

structure Cursor where
  ahead : List Token
  /-- Where the input ends. -/
  stop : Position
  /-- How many expressions are open. -/
  depth : Nat
  deriving DecidableEq, Repr

namespace Cursor

def current (c : Cursor) : Token := c.ahead.headD (.endOfInput c.stop)

def peek (c : Cursor) : Token := c.ahead.tail.headD (.endOfInput c.stop)

def advance (c : Cursor) : Cursor := { c with ahead := c.ahead.tail }

def position (c : Cursor) : Position := c.current.start

def enter (c : Cursor) : Cursor := { c with depth := c.depth + 1 }

def leave (c : Cursor) : Cursor := { c with depth := c.depth - 1 }

/-- Goes on to the semicolon that ends the statement, or to the end of the input. -/
def skipStatement (c : Cursor) : Cursor :=
  { c with ahead := c.ahead.dropWhile (·.kind ≠ .semicolon) }

end Cursor

/-- A result, and the cursor left behind. -/
abbrev Outcome (α : Type) := Except Diagnostic α × Cursor

abbrev Rule := ExceptT Diagnostic (StateM Cursor)

namespace Outcome

/-- Goes on with a rule where the outcome left off, unless it failed. -/
def andThen (o : Outcome α) (rule : α → Rule β) : Outcome β :=
  match o with
  | (.ok value, c) => rule value c
  | (.error d, c) => (.error d, c)

def leave (o : Outcome α) : Outcome α := (o.1, o.2.leave)

end Outcome

namespace Rule

/-- A sequence of two rules, as a step on outcomes. -/
theorem bind_apply (rule : Rule α) (next : α → Rule β) (c : Cursor) :
    (rule >>= next) c = Outcome.andThen (rule c) next := by
  show (StateT.bind rule (ExceptT.bindCont next) : StateM Cursor _) c = _
  unfold StateT.bind Outcome.andThen
  rcases rule c with ⟨r, c'⟩
  cases r <;> rfl

/-- Fails at the current token. -/
def fail (cause : Cause) : Rule α := fun c => (.error ⟨cause, c.position⟩, c)

def current : Rule Token := fun c => (.ok c.current, c)

/-- Moves on by one token and returns the one left behind. -/
def advance : Rule Token := fun c => (.ok c.current, c.advance)

/-- Moves on to the next token if it has the expected kind; otherwise fails there and stays. -/
def expectPeek (expected : TokenKind) : Rule Token := fun c =>
  if c.peek.kind = expected then (.ok c.peek, c.advance)
  else (.error ⟨.unexpectedToken expected c.peek.kind, c.peek.start⟩, c)

/-- Opens one more expression, or fails where it would begin. -/
def enterNesting : Rule Unit := fun c =>
  if c.depth < maxNesting then (.ok (), c.enter)
  else (.error ⟨.nestingTooDeep maxNesting, c.position⟩, c)

end Rule

end LetScript
