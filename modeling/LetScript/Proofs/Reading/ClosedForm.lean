import LetScript.Proofs.Reading.Frame
import LetScript.Proofs.Reading.Source
import LetScript.Program.Printer

/-!
Expressions without recursion. What an expression is read as can be told by counting: the openers at
the front, the token behind them, which is the leaf, and behind the leaf one closing parenthesis for
each group (`Cursor.closedForm`). Reading gives just that, whatever the precedence is, and leaves as
many expressions open as it found (`Rule.expression_closedForm`).
-/
namespace LetScript

open Text (decimalValue)

/-- The token stands before the leaf of an expression. -/
def TokenKind.isOpener : TokenKind → Bool
  | bang | minus | lparen => true
  | _ => false

/-- The leaf that a token is, or why it is none. -/
def Token.leaf (t : Token) : Except Cause Expr :=
  match t.kind with
  | .ident => .ok (.ident ⟨t, t.literal⟩)
  | .int =>
    if decimalValue t.literal.toList ≤ maxInteger then
      .ok (.int t (decimalValue t.literal.toList))
    else .error (.invalidInteger t.literal)
  | kind => .error (.noOpening kind)

namespace Cursor

/-- The token at an index, counted from the current one. The end of the input stands at every index
behind the last token. -/
def tokenAhead (c : Cursor) (index : Nat) : Token := c.ahead.getD index (.endOfInput c.stop)

/-- The operators and opening parentheses at the front. -/
def openers (c : Cursor) : List Token := c.ahead.takeWhile (·.kind.isOpener)

/-- How many groups the openers open. -/
def groups (c : Cursor) : Nat := c.openers.countP (·.kind = .lparen)

/-- The openers that leave a node behind. -/
def operators (c : Cursor) : List Token := c.openers.filter (·.kind ≠ .lparen)

/-- The tokens behind the leaf, one for each group. -/
def closers (c : Cursor) : List Token :=
  (List.range c.groups).map fun j => c.tokenAhead (c.openers.length + (j + 1))

/-- The leaf with its operators around it, outermost first, provided that every group is closed. -/
def enclosed (c : Cursor) (leaf : Expr) : Except Diagnostic Expr :=
  match c.closers.find? (·.kind ≠ .rparen) with
  | some t => .error ⟨.unexpectedToken .rparen t.kind, t.start⟩
  | none => .ok (c.operators.foldr (fun t operand => .unary t t.literal operand) leaf)

/-- What the expression at the front is read as. Of several reasons to fail, the first is that too
many expressions would be open, the next that the leaf is none, and the last that a group is not
closed. -/
def closedForm (c : Cursor) : Except Diagnostic Expr :=
  if maxNesting - c.depth ≤ c.openers.length then
    .error ⟨.nestingTooDeep maxNesting, (c.tokenAhead (maxNesting - c.depth)).start⟩
  else
    match (c.tokenAhead c.openers.length).leaf with
    | .error cause => .error ⟨cause, (c.tokenAhead c.openers.length).start⟩
    | .ok leaf => c.enclosed leaf

theorem tokenAhead_zero (c : Cursor) : c.tokenAhead 0 = c.current := by
  obtain ⟨ahead, stop, depth⟩ := c
  cases ahead <;> rfl

theorem closedForm_of_deep {c : Cursor} (h : maxNesting ≤ c.depth) :
    c.closedForm = .error ⟨.nestingTooDeep maxNesting, c.current.start⟩ := by
  have hzero : maxNesting - c.depth = 0 := by omega
  rw [closedForm, hzero, if_pos (Nat.zero_le _), tokenAhead_zero]

section

variable {c : Cursor} (h : c.current.kind.isOpener = false)
include h

theorem openers_leaf : c.openers = [] := by
  obtain ⟨ahead, stop, depth⟩ := c
  cases ahead with
  | nil => rfl
  | cons t rest => exact List.takeWhile_cons_of_neg (by simpa using h)

/-- With no opener before it, the leaf decides alone. -/
theorem closedForm_leaf (hdepth : c.depth < maxNesting) :
    c.closedForm = c.current.leaf.mapError fun cause => ⟨cause, c.current.start⟩ := by
  have hopeners := openers_leaf h
  have hlimit : ¬ maxNesting - c.depth ≤ ([] : List Token).length := by
    rw [List.length_nil]
    omega
  have henclosed (leaf : Expr) : c.enclosed leaf = .ok leaf := by
    rw [enclosed, closers, groups, operators, hopeners]
    rfl
  rw [closedForm, hopeners, if_neg hlimit, List.length_nil, tokenAhead_zero]
  cases c.current.leaf with
  | error cause => rfl
  | ok leaf => exact henclosed leaf

end

section

variable {t : Token} (rest : List Token) (stop : Position) (depth : Nat)

theorem tokenAhead_succ (index : Nat) :
    (Cursor.mk (t :: rest) stop depth).tokenAhead (index + 1) =
      (Cursor.mk rest stop (depth + 1)).tokenAhead index := rfl

theorem openers_cons (ht : t.kind.isOpener = true) :
    (Cursor.mk (t :: rest) stop depth).openers = t :: (Cursor.mk rest stop (depth + 1)).openers :=
  List.takeWhile_cons_of_pos ht

theorem groups_operator (ht : t.kind.isOpener = true) (hne : t.kind ≠ .lparen) :
    (Cursor.mk (t :: rest) stop depth).groups = (Cursor.mk rest stop (depth + 1)).groups := by
  rw [groups, openers_cons rest stop depth ht, List.countP_cons_of_neg (by simpa using hne)]
  rfl

theorem groups_group (ht : t.kind = .lparen) :
    (Cursor.mk (t :: rest) stop depth).groups = (Cursor.mk rest stop (depth + 1)).groups + 1 := by
  have hopener : t.kind.isOpener = true := by rw [ht]; rfl
  rw [groups, openers_cons rest stop depth hopener, List.countP_cons_of_pos (by simpa using ht)]
  rfl

/-- An opener changes nothing about a failure behind it, and what it makes of a result it makes of
the leaf and its operators. -/
theorem closedForm_cons (ht : t.kind.isOpener = true) (hdepth : depth < maxNesting)
    (f : Except Diagnostic Expr → Except Diagnostic Expr) (hf : ∀ d, f (.error d) = .error d)
    (henclosed : ∀ leaf, (Cursor.mk (t :: rest) stop depth).enclosed leaf =
      f ((Cursor.mk rest stop (depth + 1)).enclosed leaf)) :
    (Cursor.mk (t :: rest) stop depth).closedForm =
      f (Cursor.mk rest stop (depth + 1)).closedForm := by
  have hlevel : maxNesting - depth = maxNesting - (depth + 1) + 1 := by omega
  rw [closedForm, closedForm, openers_cons rest stop depth ht, List.length_cons]
  dsimp only
  rw [hlevel]
  by_cases hlimit : maxNesting - (depth + 1) ≤ (Cursor.mk rest stop (depth + 1)).openers.length
  · rw [if_pos (Nat.succ_le_succ hlimit), if_pos hlimit, hf, tokenAhead_succ]
  · rw [if_neg (fun h => hlimit (Nat.le_of_succ_le_succ h)), if_neg hlimit]
    rw [tokenAhead_succ]
    cases ((Cursor.mk rest stop (depth + 1)).tokenAhead _).leaf with
    | error cause => exact (hf _).symm
    | ok leaf => exact henclosed leaf

/-- An operator is put around what is read behind it. -/
theorem closedForm_operator (ht : t.kind.isOpener = true) (hne : t.kind ≠ .lparen)
    (hdepth : depth < maxNesting) :
    (Cursor.mk (t :: rest) stop depth).closedForm =
      (Cursor.mk rest stop (depth + 1)).closedForm.map (.unary t t.literal) := by
  refine closedForm_cons rest stop depth ht hdepth _ (fun _ => rfl) fun leaf => ?_
  have hclosers : (Cursor.mk (t :: rest) stop depth).closers =
      (Cursor.mk rest stop (depth + 1)).closers := by
    rw [closers, groups_operator rest stop depth ht hne, openers_cons rest stop depth ht]
    apply List.map_congr_left
    intro j _
    rw [List.length_cons, Nat.add_right_comm]
    rfl
  have hoperators : (Cursor.mk (t :: rest) stop depth).operators =
      t :: (Cursor.mk rest stop (depth + 1)).operators := by
    rw [operators, openers_cons rest stop depth ht, List.filter_cons_of_pos (by simpa using hne)]
    rfl
  rw [enclosed, enclosed, hclosers, hoperators]
  cases (Cursor.mk rest stop (depth + 1)).closers.find? (·.kind ≠ .rparen) <;> rfl

/-- The token that should close the outermost group of the openers. -/
def lastCloser (c : Cursor) : Token := c.tokenAhead (c.openers.length + c.groups)

/-- A group is closed behind all that is read inside it. -/
theorem closedForm_group (ht : t.kind = .lparen) (hdepth : depth < maxNesting) :
    (Cursor.mk (t :: rest) stop depth).closedForm =
      (Cursor.mk rest stop (depth + 1)).closedForm.bind fun e =>
        if (Cursor.mk (t :: rest) stop depth).lastCloser.kind = .rparen then .ok e
        else .error ⟨.unexpectedToken .rparen (Cursor.mk (t :: rest) stop depth).lastCloser.kind,
          (Cursor.mk (t :: rest) stop depth).lastCloser.start⟩ := by
  have hopener : t.kind.isOpener = true := by rw [ht]; rfl
  refine closedForm_cons rest stop depth hopener hdepth (·.bind _) (fun _ => rfl) fun leaf => ?_
  have hclosers : (Cursor.mk (t :: rest) stop depth).closers =
      (Cursor.mk rest stop (depth + 1)).closers ++
        [(Cursor.mk (t :: rest) stop depth).lastCloser] := by
    rw [closers, lastCloser, groups_group rest stop depth ht, List.range_succ, List.map_append,
      List.map_singleton]
    congr 1
    apply List.map_congr_left
    intro j _
    rw [openers_cons rest stop depth hopener, List.length_cons, Nat.add_right_comm]
    rfl
  have hoperators : (Cursor.mk (t :: rest) stop depth).operators =
      (Cursor.mk rest stop (depth + 1)).operators := by
    rw [operators, openers_cons rest stop depth hopener,
      List.filter_cons_of_neg (by simpa using ht)]
    rfl
  rw [enclosed, enclosed, hclosers, hoperators, List.find?_append]
  cases (Cursor.mk rest stop (depth + 1)).closers.find? (·.kind ≠ .rparen) with
  | some u => rfl
  | none =>
    by_cases hclose : (Cursor.mk (t :: rest) stop depth).lastCloser.kind = .rparen
    · simp [hclose, Except.bind]
    · simp [hclose, Except.bind]

end

end Cursor

theorem Token.leaf_of_no_opening {t : Token} (h : t.kind.opening? = none) :
    t.leaf = .error (.noOpening t.kind) := by
  unfold leaf
  cases hkind : t.kind <;> simp_all [TokenKind.opening?]

namespace Rule

/-- A number is read as the leaf it is, or not at all if it is too large. -/
theorem integer_eq_leaf {c : Cursor} (hlex : c.Lexical) (hkind : c.current.kind = .int) :
    integer c = (c.current.leaf.mapError fun cause => ⟨cause, c.current.start⟩, c) := by
  obtain ⟨ahead, stop, depth⟩ := c
  cases ahead with
  | nil => cases hkind
  | cons t rest =>
    change t.kind = .int at hkind
    by_cases hvalue : decimalValue t.literal.toList ≤ maxInteger
    · have hleaf : t.leaf = .ok (.int t (decimalValue t.literal.toList)) := by
        simp [Token.leaf, hkind, hvalue]
      rw [integer_of_numeral ⟨t, hkind, hvalue⟩ (hlex t List.mem_cons_self), Cursor.current_cons,
        hleaf]
      rfl
    · have hleaf : t.leaf = .error (.invalidInteger t.literal) := by
        simp [Token.leaf, hkind, hvalue]
      have hnone : integer? t.literal = none := by
        rw [integer?_of_isNumber (isNumber_of_kind_int (hlex t List.mem_cons_self) hkind),
          if_neg hvalue]
      simp only [integer, Cursor.current_cons, hnone, hleaf]
      rfl

/-- With no opener before it, the leaf is read by itself. -/
theorem expression_leaf {c : Cursor} (hlex : c.Lexical) (hdepth : c.depth < maxNesting)
    (h : c.current.kind.isOpener = false) (precedence : Precedence) :
    expression precedence c =
      (c.current.leaf.mapError fun cause => ⟨cause, c.current.start⟩, c) := by
  cases ho : c.current.kind.opening? with
  | none =>
    rw [expression_of_no_opening hdepth ho, Token.leaf_of_no_opening ho]
    rfl
  | some o =>
    rw [expression_of_opening hdepth ho]
    cases o with
    | name =>
      have hkind := TokenKind.eq_of_opening_name ho
      have hleaf : c.current.leaf = .ok (.ident ⟨c.current, c.current.literal⟩) := by
        simp [Token.leaf, hkind]
      rw [hleaf]
      rfl
    | integer =>
      have hkind : c.enter.current.kind = .int := TokenKind.eq_of_opening_integer ho
      have hlex' : c.enter.Lexical := hlex
      rw [opening, integer_eq_leaf hlex' hkind]
      rfl
    | unary =>
      rcases TokenKind.eq_of_opening_unary ho with hkind | hkind <;>
        simp [hkind, TokenKind.isOpener] at h
    | group =>
      have hkind := TokenKind.eq_of_opening_group ho
      simp [hkind, TokenKind.isOpener] at h

/-- The outcome is the closed form. Where an expression is read, what is left begins with the last
token of the expression. -/
def StopsAtLast (c : Cursor) (o : Outcome Expr) : Prop :=
  o.1 = c.closedForm ∧
    ∀ e, o.1 = .ok e → o.2 = { c with ahead := c.ahead.drop (c.openers.length + c.groups) }

section

variable {t : Token} {rest : List Token} {stop : Position} {depth : Nat} {inner : Outcome Expr}

/-- An operator adds its node to what is read behind it, and nothing behind that. -/
theorem stopsAtLast_operator (ht : t.kind.isOpener = true) (hne : t.kind ≠ .lparen)
    (hdepth : depth < maxNesting) (h : StopsAtLast ⟨rest, stop, depth + 1⟩ inner) :
    StopsAtLast ⟨t :: rest, stop, depth⟩ (inner.andThen (applied t)).leave := by
  obtain ⟨result, left⟩ := inner
  obtain ⟨hresult, hleft⟩ := h
  have hform := Cursor.closedForm_operator rest stop depth ht hne hdepth
  rw [← hresult] at hform
  cases result with
  | error d =>
    refine ⟨hform.symm, fun e he => ?_⟩
    cases he
  | ok e =>
    refine ⟨hform.symm, fun _ _ => ?_⟩
    have hleft : left = _ := hleft e rfl
    change left.leave = _
    rw [hleft, Cursor.groups_operator rest stop depth ht hne, Cursor.openers_cons rest stop depth ht,
      List.length_cons, Nat.add_right_comm]
    rfl

/-- A parenthesis adds no node, but asks for a closing token behind what is read inside it, and fails
at any other. -/
theorem stopsAtLast_group (ht : t.kind = .lparen) (hdepth : depth < maxNesting)
    (h : StopsAtLast ⟨rest, stop, depth + 1⟩ inner) :
    StopsAtLast ⟨t :: rest, stop, depth⟩ (inner.andThen closed).leave := by
  obtain ⟨result, left⟩ := inner
  obtain ⟨hresult, hleft⟩ := h
  have hopener : t.kind.isOpener = true := by rw [ht]; rfl
  have hform := Cursor.closedForm_group rest stop depth ht hdepth
  rw [← hresult] at hform
  cases result with
  | error d =>
    refine ⟨hform.symm, fun e he => ?_⟩
    cases he
  | ok e =>
    have hleft : left = _ := hleft e rfl
    have hindex : (Cursor.mk (t :: rest) stop depth).openers.length +
        (Cursor.mk (t :: rest) stop depth).groups =
          (Cursor.mk rest stop (depth + 1)).openers.length +
            (Cursor.mk rest stop (depth + 1)).groups + 1 + 1 := by
      rw [Cursor.groups_group rest stop depth ht, Cursor.openers_cons rest stop depth hopener,
        List.length_cons]
      omega
    have hpeek : left.peek = (Cursor.mk (t :: rest) stop depth).lastCloser := by
      rw [Cursor.lastCloser, hindex, hleft, Cursor.peek, Cursor.tokenAhead]
      dsimp only
      rw [List.tail_drop, List.headD_eq_head?_getD, List.head?_drop, List.getD_eq_getElem?_getD]
      rfl
    change StopsAtLast _ (Outcome.leave (closed e left))
    rw [StopsAtLast, hform, closed_apply, hpeek]
    dsimp only [Except.bind]
    by_cases hclose : (Cursor.mk (t :: rest) stop depth).lastCloser.kind = .rparen
    · rw [if_pos hclose, if_pos hclose]
      refine ⟨rfl, fun _ _ => ?_⟩
      rw [hindex, hleft]
      simp [Outcome.leave, Cursor.leave, Cursor.advance]
    · rw [if_neg hclose, if_neg hclose]
      refine ⟨rfl, fun _ he => ?_⟩
      cases he

end

theorem stopsAtLast_deep {c : Cursor} (hdepth : maxNesting ≤ c.depth) (precedence : Precedence) :
    StopsAtLast c (expression precedence c) := by
  rw [StopsAtLast, expression_of_deep hdepth, Cursor.closedForm_of_deep hdepth]
  refine ⟨rfl, fun e he => ?_⟩
  cases he

theorem stopsAtLast_leaf {c : Cursor} (hlex : c.Lexical) (hdepth : c.depth < maxNesting)
    (h : c.current.kind.isOpener = false) (precedence : Precedence) :
    StopsAtLast c (expression precedence c) := by
  rw [StopsAtLast, expression_leaf hlex hdepth h, Cursor.closedForm_leaf h hdepth]
  refine ⟨rfl, fun _ _ => ?_⟩
  rw [Cursor.groups, Cursor.openers_leaf h]
  rfl

/-- By induction on the tokens ahead: an opener leaves one token fewer, and all the rest decides at
once. -/
theorem expression_stopsAtLast {c : Cursor} (hlex : c.Lexical) (precedence : Precedence) :
    StopsAtLast c (expression precedence c) := by
  obtain ⟨tokens, stop, depth⟩ := c
  induction tokens generalizing depth precedence with
  | nil =>
    by_cases hdepth : depth < maxNesting
    · exact stopsAtLast_leaf hlex hdepth rfl precedence
    · exact stopsAtLast_deep (Nat.le_of_not_lt hdepth) precedence
  | cons t rest ih =>
    have hrest (depth : Nat) : (Cursor.mk rest stop depth).Lexical := fun u hu =>
      hlex u (List.mem_cons_of_mem t hu)
    by_cases hdepth : depth < maxNesting
    · cases hopener : t.kind.isOpener with
      | false => exact stopsAtLast_leaf hlex hdepth hopener precedence
      | true =>
        by_cases hgroup : t.kind = .lparen
        · have ho : t.kind.opening? = some .group := by rw [hgroup]; rfl
          rw [expression_cons ho precedence rest stop hdepth, opening, group_apply]
          exact stopsAtLast_group hgroup hdepth (ih .lowest (depth + 1) (hrest _))
        · have ho : t.kind.opening? = some .unary := by
            cases hkind : t.kind <;> simp_all [TokenKind.isOpener, TokenKind.opening?]
          rw [expression_cons ho precedence rest stop hdepth, opening, unary_apply]
          exact stopsAtLast_operator hopener hgroup hdepth (ih .unary (depth + 1) (hrest _))
    · exact stopsAtLast_deep (Nat.le_of_not_lt hdepth) precedence

/-- The precedence changes nothing, neither the result nor where reading stops. -/
theorem expression_precedence (c : Cursor) (p q : Precedence) : expression p c = expression q c := by
  by_cases hdepth : c.depth < maxNesting
  · cases ho : c.current.kind.opening? with
    | none => rw [expression_of_no_opening hdepth ho, expression_of_no_opening hdepth ho]
    | some o => rw [expression_of_opening hdepth ho, expression_of_opening hdepth ho]
  · have hdeep := Nat.le_of_not_lt hdepth
    rw [expression_of_deep hdeep, expression_of_deep hdeep]

/-- At every precedence an expression is read as the closed form tells. The expressions that were
open are open still; and where one is read, the last token of it is the current one. -/
theorem expression_closedForm {c : Cursor} (hlex : c.Lexical) :
    ∃ c', (∀ precedence, expression precedence c = (c.closedForm, c')) ∧ c'.depth = c.depth ∧
      ∀ e, c.closedForm = .ok e → c'.current = c.tokenAhead (c.openers.length + c.groups) ∧
        c'.ahead = c.ahead.drop (c.openers.length + c.groups) := by
  obtain ⟨hresult, hleft⟩ := expression_stopsAtLast hlex .lowest
  refine ⟨(expression .lowest c).2, fun precedence => ?_, ?_, fun e he => ?_⟩
  · rw [expression_precedence c precedence .lowest, ← hresult]
  · exact (expression_keeps Cursor.frame_steady .lowest c).1
  · have hleft : (expression .lowest c).2 = _ := hleft e (hresult.trans he)
    rw [hleft]
    refine ⟨?_, rfl⟩
    rw [Cursor.current, Cursor.tokenAhead, List.headD_eq_head?_getD, List.head?_drop,
      List.getD_eq_getElem?_getD]

/-- With 251 expressions open, four openers leave room for the leaf and for nothing more. -/
theorem expression_closedForm_edge :
    ∃ c : Cursor, c = { (Session.ofSource "-((!x)) y" none).cursor with depth := 251 } ∧ c.Lexical ∧
      c.closedForm.toOption.map Expr.print = some "(-(!x))" ∧
      ∃ c', (∀ precedence, expression precedence c = (c.closedForm, c')) ∧ c'.depth = c.depth ∧
        ∀ e, c.closedForm = .ok e →
          c'.current = c.tokenAhead (c.openers.length + c.groups) ∧
            c'.ahead = c.ahead.drop (c.openers.length + c.groups) := by
  have hlex : Cursor.Lexical { (Session.ofSource "-((!x)) y" none).cursor with depth := 251 } :=
    lexical_ofSource "-((!x)) y" none
  exact ⟨_, rfl, hlex, by decide +kernel, expression_closedForm hlex⟩

end Rule

end LetScript
