import LetScript.Reading.Statement

/-!
What every rule keeps. Rules do nothing with a cursor but move it forward, open an expression and
close it again, so a relation that outlasts these moves holds between the cursor at which a rule
begins and the one that it leaves, whether it succeeds or fails (`statement_keeps`). Above all, rules
only move forward: what lies ahead in the end is the end of what lay ahead (`statement_forward`).
-/
namespace LetScript

/-- A relation from earlier cursors to later ones that outlasts every move of a rule. -/
structure Cursor.Frame (R : Cursor → Cursor → Prop) : Prop where
  refl (c : Cursor) : R c c
  trans {a b c : Cursor} : R a b → R b c → R a c
  advance (c : Cursor) : R c c.advance
  /-- What is read inside is left again. -/
  inside {c c' : Cursor} : R c.enter c' → R c c'.leave

theorem Cursor.frame_suffix : Cursor.Frame fun c c' => c'.ahead <:+ c.ahead where
  refl c := List.suffix_refl c.ahead
  trans h h' := h'.trans h
  advance c := c.ahead.tail_suffix
  inside h := h

namespace Rule

/-- The relation holds between the cursor at which the rule begins and the one that it leaves. -/
def Keeps (R : Cursor → Cursor → Prop) (rule : Rule α) : Prop := ∀ c, R c (rule c).2

section

variable {R : Cursor → Cursor → Prop} (hR : Cursor.Frame R)
include hR

theorem pure_keeps (a : α) : Keeps R (pure a : Rule α) := hR.refl

theorem current_keeps : Keeps R current := hR.refl

theorem advance_keeps : Keeps R advance := hR.advance

theorem name_keeps : Keeps R name := hR.refl

theorem expectPeek_keeps (expected : TokenKind) : Keeps R (expectPeek expected) := by
  intro c
  unfold expectPeek
  split
  · exact hR.advance c
  · exact hR.refl c

theorem integer_keeps : Keeps R integer := by
  intro c
  unfold integer
  split <;> exact hR.refl c

theorem extend_keeps (precedence : Precedence) (left : Expr) : Keeps R (extend precedence left) := by
  intro c
  rw [extend_apply]
  exact hR.refl c

theorem andThen_keeps {o : Outcome α} {next : α → Rule β} {c : Cursor} (h : R c o.2)
    (hnext : ∀ a, Keeps R (next a)) : R c (o.andThen next).2 := by
  obtain ⟨r, c'⟩ := o
  cases r with
  | ok a => exact hR.trans h (hnext a c')
  | error d => exact h

theorem bind_keeps {rule : Rule α} {next : α → Rule β} (h : Keeps R rule)
    (hnext : ∀ a, Keeps R (next a)) : Keeps R (rule >>= next) := by
  intro c
  rw [bind_apply]
  exact andThen_keeps hR (h c) hnext

theorem applied_keeps (token : Token) (operand : Expr) : Keeps R (applied token operand) :=
  pure_keeps hR _

theorem closed_keeps (inner : Expr) : Keeps R (closed inner) :=
  bind_keeps hR (expectPeek_keeps hR _) fun _ => pure_keeps hR _

/-- The level that an expression opens is left again, whatever became of the expression. -/
theorem expression_keeps (precedence : Precedence) : Keeps R (expression precedence) := by
  intro c
  fun_induction expression precedence c with
  | case1 precedence c h inside opened ih_unary ih_group =>
    refine hR.inside (andThen_keeps hR ?_ (extend_keeps hR precedence))
    simp only [opened]
    split
    · exact hR.refl inside
    · exact hR.refl inside
    · exact integer_keeps hR inside
    · exact andThen_keeps hR (hR.trans (hR.advance inside) ih_unary) (applied_keeps hR _)
    · exact andThen_keeps hR (hR.trans (hR.advance inside) ih_group) (closed_keeps hR)
  | case2 precedence c h => exact hR.refl c

theorem opening_keeps (o : Opening) : Keeps R (opening o) := by
  cases o with
  | name => exact name_keeps hR
  | integer => exact integer_keeps hR
  | unary =>
    exact bind_keeps hR (advance_keeps hR) fun _ =>
      bind_keeps hR (expression_keeps hR .unary) (applied_keeps hR _)
  | group =>
    exact bind_keeps hR (advance_keeps hR) fun _ =>
      bind_keeps hR (expression_keeps hR .lowest) (closed_keeps hR)

theorem endStatement_keeps : Keeps R (modify Cursor.endStatement : Rule Unit) := by
  intro c
  show R c c.endStatement
  unfold Cursor.endStatement
  split
  · exact hR.advance c
  · exact hR.refl c

theorem value_keeps : Keeps R value :=
  bind_keeps hR (expression_keeps hR .lowest) fun _ =>
    bind_keeps hR (endStatement_keeps hR) fun _ => pure_keeps hR _

theorem binding_keeps : Keeps R binding :=
  bind_keeps hR (current_keeps hR) fun _ =>
    bind_keeps hR (expectPeek_keeps hR _) fun _ =>
      bind_keeps hR (expectPeek_keeps hR _) fun _ =>
        bind_keeps hR (advance_keeps hR) fun _ =>
          bind_keeps hR (value_keeps hR) fun _ => pure_keeps hR _

theorem ret_keeps : Keeps R ret := by
  refine bind_keeps hR (advance_keeps hR) fun _ => bind_keeps hR hR.refl fun c => ?_
  split
  · exact pure_keeps hR _
  · exact bind_keeps hR (value_keeps hR) fun _ => pure_keeps hR _

theorem bare_keeps : Keeps R bare :=
  bind_keeps hR (current_keeps hR) fun _ => bind_keeps hR (value_keeps hR) fun _ => pure_keeps hR _

theorem statementOf_keeps (form : StatementForm) : Keeps R (statementOf form) := by
  cases form with
  | binding => exact binding_keeps hR
  | ret => exact ret_keeps hR
  | bare => exact bare_keeps hR

theorem statement_keeps : Keeps R statement :=
  bind_keeps hR (current_keeps hR) fun _ => statementOf_keeps hR _

end

/-- The rule never goes back, whether it succeeds or fails. -/
def Forward (rule : Rule α) : Prop := ∀ c, (rule c).2.ahead <:+ c.ahead

theorem statement_forward : Forward statement := statement_keeps Cursor.frame_suffix

end Rule

end LetScript
