import LetScript.Grammar
import LetScript.Program.Basic
import LetScript.Reading.Cursor
import LetScript.Text.Basic

/-!
Reading expressions. An expression is a name, an integer, an operator before an expression, or an
expression in parentheses; the parentheses leave no node behind. Every expression that is open
counts as one level, and reading ends because no more than `maxNesting` may be open.
-/
namespace LetScript

open Text (signed?)

/-- The largest value that an integer can have: the largest signed number of 64 bits. -/
def maxInteger : Nat := 0x7FFFFFFFFFFFFFFF

/-- The smallest signed number of 64 bits. -/
def minInteger : Int := -0x8000000000000000

/-- A sign would be read too, but no token has both a sign and digits. -/
def integer? (literal : String) : Option Int :=
  (signed? literal.toList).filter fun value => minInteger ≤ value ∧ value ≤ maxInteger

namespace Rule

/-- The current token, read as a name whatever its kind. -/
def name : Rule Expr := fun c => (.ok (.ident ⟨c.current, c.current.literal⟩), c)

def integer : Rule Expr := fun c =>
  match integer? c.current.literal with
  | some value => (.ok (.int c.current value), c)
  | none => fail (.invalidInteger c.current.literal) c

/-- The node of an operator whose operand has been read. -/
def applied (token : Token) (operand : Expr) : Rule Expr :=
  return .unary token token.literal operand

/-- Closes the group around an expression that has been read. -/
def closed (inner : Expr) : Rule Expr := do
  let _ ← expectPeek .rparen
  return inner

/-- Extends an expression by what follows, as long as that binds tighter than `precedence`. No
token continues an expression so far, so the expression stays as it is. -/
def extend (precedence : Precedence) (left : Expr) : Rule Expr := fun c =>
  if c.peek.kind ≠ .semicolon ∧ precedence < c.peek.kind.precedence then
    match c.peek.kind.continuation? with
    | none => (.ok left, c)
    | some rule => nomatch rule
  else (.ok left, c)

@[simp] theorem extend_apply (precedence : Precedence) (left : Expr) (c : Cursor) :
    extend precedence left c = (.ok left, c) := by
  unfold extend
  split
  · split
    · rfl
    · contradiction
  · rfl

/-- Reads the expression that begins at the current token. -/
def expression (precedence : Precedence) (c : Cursor) : Outcome Expr :=
  if _h : c.depth < maxNesting then
    let inside := c.enter
    let opened : Outcome Expr :=
      match inside.current.kind.opening? with
      | none => fail (.noOpening inside.current.kind) inside
      | some .name => name inside
      | some .integer => integer inside
      | some .unary => (expression .unary inside.advance).andThen (applied inside.current)
      | some .group => (expression .lowest inside.advance).andThen closed
    (opened.andThen (extend precedence)).leave
  else fail (.nestingTooDeep maxNesting) c
termination_by maxNesting - c.depth
decreasing_by all_goals simp only [Cursor.advance, Cursor.enter]; omega

def unary : Rule Expr := do
  let token ← advance
  applied token (← expression .unary)

def group : Rule Expr := do
  let _ ← advance
  closed (← expression .lowest)

/-- The rule for each way in which an expression can begin, whatever the current token is. -/
def opening : Opening → Rule Expr
  | .name => name
  | .integer => integer
  | .unary => unary
  | .group => group

/-- Nothing continues an expression, so that its reading is what the outcome already is. -/
@[simp] theorem andThen_extend (precedence : Precedence) (o : Outcome Expr) :
    o.andThen (extend precedence) = o := by
  obtain ⟨r, c⟩ := o
  cases r with
  | ok e => exact extend_apply precedence e c
  | error d => rfl

theorem expression_of_deep {c : Cursor} (h : maxNesting ≤ c.depth) (precedence : Precedence) :
    expression precedence c = fail (.nestingTooDeep maxNesting) c := by
  rw [expression, dif_neg (Nat.not_lt.mpr h)]

/-- A token that opens no expression fails one level inside, and the level is left again. -/
theorem expression_of_no_opening {c : Cursor} (h : c.depth < maxNesting)
    (ho : c.current.kind.opening? = none) (precedence : Precedence) :
    expression precedence c = fail (.noOpening c.current.kind) c := by
  have hc : c.enter.current.kind.opening? = none := ho
  rw [expression, dif_pos h]
  simp only [hc]
  rfl

/-- Any other expression is read by the rule that its first token selects, one level inside. -/
theorem expression_of_opening {c : Cursor} (h : c.depth < maxNesting) {o : Opening}
    (ho : c.current.kind.opening? = some o) (precedence : Precedence) :
    expression precedence c = Outcome.leave (opening o c.enter) := by
  have hc : c.enter.current.kind.opening? = some o := ho
  rw [expression, dif_pos h]
  simp only [hc, andThen_extend]
  cases o with
  | name => rfl
  | integer => rfl
  | unary =>
    show _ = Outcome.leave ((expression .unary >>= applied c.enter.current) c.enter.advance)
    rw [bind_apply]
  | group =>
    show _ = Outcome.leave ((expression .lowest >>= closed) c.enter.advance)
    rw [bind_apply]

end Rule

end LetScript
