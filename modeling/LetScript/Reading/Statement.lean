import LetScript.Reading.Expression

/-!
Reading statements: `let NAME = EXPRESSION`, `return EXPRESSION`, `return` alone, or a bare
expression, each with an optional semicolon. A rule leaves the cursor on the last token of its
statement.
-/
namespace LetScript

namespace Cursor

/-- Moves on to a semicolon that follows. -/
def endStatement (c : Cursor) : Cursor := if c.peek.kind = .semicolon then c.advance else c

def atStatementEnd (c : Cursor) : Bool := c.current.isOneOf [.semicolon, .eof]

end Cursor

namespace Rule

/-- A whole expression and the semicolon after it, if there is one. -/
def value : Rule Expr := do
  let e ← expression .lowest
  modify Cursor.endStatement
  return e

def binding : Rule Statement := do
  let token ← current
  let name ← expectPeek .ident
  let _ ← expectPeek .assign
  let _ ← advance
  let e ← value
  return .binding token ⟨name, name.literal⟩ (some e)

/-- A return with nothing before the end of the statement has no value. -/
def ret : Rule Statement := do
  let token ← advance
  if (← get).atStatementEnd then return .ret token none
  else return .ret token (some (← value))

def bare : Rule Statement := do
  let token ← current
  return .bare token (← value)

def statementOf : StatementForm → Rule Statement
  | .binding => binding
  | .ret => ret
  | .bare => bare

/-- The statement that begins at the current token. -/
def statement : Rule Statement := do statementOf (← current).kind.statementForm

end Rule

end LetScript
