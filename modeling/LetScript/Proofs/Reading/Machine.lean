import LetScript.Proofs.Reading.Frame
import LetScript.Proofs.Reading.Statement

/-!
A machine that reads without recursion. It keeps a stack of the expressions that are open, and each
of its steps does what can be done at once. It reads what the rules read (`reaches_done`), so they
come to their end as it does; and at every step as many expressions are open as the cursor counts,
which are never more than may be (`balanced_run`).
-/
namespace LetScript

/-- What lies ahead behind an attempt is the end of what lay ahead before it. -/
theorem Cursor.after_attempt_ahead (c : Cursor) : c.attempt.after.ahead <:+ c.ahead := by
  have h := Rule.statement_forward c
  unfold attempt
  generalize Rule.statement c = o at h
  obtain ⟨result, c'⟩ := o
  cases result with
  | ok s => exact c'.ahead.tail_suffix.trans h
  | error d =>
    exact (List.tail_suffix _).trans ((List.dropWhile_suffix (l := c'.ahead) _).trans h)

/-- An open expression that waits for the expression inside it. The precedence is its own. -/
inductive Activation where
  | operand (precedence : Precedence) (token : Token)
  | inner (precedence : Precedence)
  deriving DecidableEq, Repr

/-- The statement that an expression is read for, with the tokens that have been read of it. -/
inductive Purpose where
  | binding (token name : Token)
  | ret (token : Token)
  | bare (token : Token)
  deriving DecidableEq, Repr

def Purpose.statement : Purpose → Expr → Statement
  | binding token name, e => .binding token ⟨name, name.literal⟩ (some e)
  | ret token, e => .ret token (some e)
  | bare token, e => .bare token e

namespace Rule

/-- What is read of a statement before its expression: all of it, if it has none. -/
def header : StatementForm → Rule (Statement ⊕ Purpose)
  | .binding => do
    let token ← current
    let name ← expectPeek .ident
    let _ ← expectPeek .assign
    let _ ← advance
    return .inr (.binding token name)
  | .ret => do
    let token ← advance
    if (← get).atStatementEnd then return .inl (.ret token none) else return .inr (.ret token)
  | .bare => do return .inr (.bare (← current))

/-- What is read of a statement behind its header. -/
def completed : Statement ⊕ Purpose → Rule Statement
  | .inl s => pure s
  | .inr purpose => do return purpose.statement (← value)

theorem completed_apply (purpose : Purpose) (c : Cursor) :
    completed (.inr purpose) c = (expression .lowest c).andThen fun e c' =>
      (.ok (purpose.statement e), c'.endStatement) := by
  rw [completed, bind_apply, value_apply]
  obtain ⟨result, c'⟩ := expression .lowest c
  cases result <;> rfl

/-- Every form of statement is what comes before its value, and then the value. -/
theorem statementOf_eq_header (form : StatementForm) :
    statementOf form = header form >>= completed := by
  cases form with
  | binding => simp only [statementOf, binding, header, bind_assoc, pure_bind, completed]; rfl
  | ret =>
    simp only [statementOf, ret, header, bind_assoc]
    congr 1
    funext token
    congr 1
    funext c
    split
    · simp only [pure_bind, completed]
    · simp only [pure_bind, completed]
      rfl
  | bare => simp only [statementOf, bare, header, bind_assoc, pure_bind, completed]; rfl

theorem header_steady (form : StatementForm) : Steady (header form) := by
  have hR := Cursor.frame_steady
  cases form with
  | binding =>
    exact bind_keeps hR (current_keeps hR) fun _ => bind_keeps hR (expectPeek_keeps hR _) fun _ =>
      bind_keeps hR (expectPeek_keeps hR _) fun _ => bind_keeps hR (advance_keeps hR) fun _ =>
        pure_keeps hR _
  | ret =>
    refine bind_keeps hR (advance_keeps hR) fun _ => bind_keeps hR hR.refl fun c => ?_
    split <;> exact pure_keeps hR _
  | bare => exact bind_keeps hR (current_keeps hR) fun _ => pure_keeps hR _

end Rule

/-- What a frame makes of the expression inside it. -/
def Activation.close : Activation → Expr → Rule Expr
  | .operand _ token => Rule.applied token
  | .inner _ => Rule.closed

def Activation.precedence : Activation → Precedence
  | .operand precedence _ | .inner precedence => precedence

/-- Where the machine is. The frames are those of the open expressions, innermost first, without the
one that is being read. -/
inductive Control where
  /-- Before the next statement. -/
  | loop
  /-- Before an expression, which is not open yet. -/
  | call (precedence : Precedence) (frames : List Activation) (purpose : Purpose)
  /-- At the first token of an expression that has been opened. -/
  | inside (precedence : Precedence) (frames : List Activation) (purpose : Purpose)
  /-- Behind what the first token has selected. -/
  | opened (precedence : Precedence) (result : Except Diagnostic Expr) (frames : List Activation)
      (purpose : Purpose)
  /-- Behind an expression, which is not open any more. -/
  | back (result : Except Diagnostic Expr) (frames : List Activation) (purpose : Purpose)
  /-- Inside a statement that has been given up. -/
  | skip
  | done
  deriving Repr

/-- How many expressions are open there. -/
def Control.active : Control → Nat
  | call _ frames _ | back _ frames _ => frames.length
  | inside _ frames _ | opened _ _ frames _ => frames.length + 1
  | loop | skip | done => 0

structure Machine where
  cursor : Cursor
  statements : List Statement
  diagnostics : List Diagnostic
  control : Control
  deriving Repr

namespace Machine

open Rule (header completed)

/-- Reading begins with nothing open and nothing recorded. -/
def start (c : Cursor) : Machine := ⟨{ c with depth := 0 }, [], [], .loop⟩

/-- Goes on where the outcome left off. -/
def resume (m : Machine) (o : Outcome α) (control : Except Diagnostic α → Control) : Machine :=
  { m with cursor := o.2, control := control o.1 }

/-- Records what became of a statement, and leaves the statement or gives up on the rest of it. -/
def record (m : Machine) : Outcome Statement → Machine
  | (.ok s, c) => { m with cursor := c.advance, statements := m.statements ++ [s], control := .loop }
  | (.error d, c) => { m with cursor := c, diagnostics := m.diagnostics ++ [d], control := .skip }

/-- Behind the header of a statement comes its expression, unless it has none. -/
def enterValue (m : Machine) : Outcome (Statement ⊕ Purpose) → Machine
  | (.ok (.inr purpose), c) => { m with cursor := c, control := .call .lowest [] purpose }
  | (.ok (.inl s), c) => m.record (.ok s, c)
  | (.error d, c) => m.record (.error d, c)

def step (m : Machine) : Machine :=
  match m.control with
  | .loop =>
    if m.cursor.current.kind = .eof then { m with control := .done }
    else m.enterValue (header m.cursor.current.kind.statementForm m.cursor)
  | .call precedence frames purpose =>
    m.resume (Rule.enterNesting m.cursor) fun
      | .ok _ => .inside precedence frames purpose
      | .error d => .back (.error d) frames purpose
  | .inside precedence frames purpose =>
    match m.cursor.current.kind.opening? with
    | none =>
      m.resume (Rule.fail (.noOpening m.cursor.current.kind) m.cursor)
        (.opened precedence · frames purpose)
    | some .name => m.resume (Rule.name m.cursor) (.opened precedence · frames purpose)
    | some .integer => m.resume (Rule.integer m.cursor) (.opened precedence · frames purpose)
    | some .unary =>
      { m with
        cursor := m.cursor.advance
        control := .call .unary (.operand precedence m.cursor.current :: frames) purpose }
    | some .group =>
      { m with
        cursor := m.cursor.advance
        control := .call .lowest (.inner precedence :: frames) purpose }
  | .opened precedence result frames purpose =>
    m.resume (Outcome.andThen (result, m.cursor) (Rule.extend precedence)).leave
      (.back · frames purpose)
  | .back result (frame :: frames) purpose =>
    m.resume (Outcome.andThen (result, m.cursor) frame.close)
      (.opened frame.precedence · frames purpose)
  | .back result [] purpose =>
    m.record (Outcome.andThen (result, m.cursor) fun e c => (.ok (purpose.statement e), c.endStatement))
  | .skip =>
    if m.cursor.atStatementEnd then { m with cursor := m.cursor.advance, control := .loop }
    else { m with cursor := m.cursor.advance }
  | .done => m

def run : Nat → Machine → Machine
  | 0, m => m
  | n + 1, m => run n m.step

@[simp] theorem run_zero (m : Machine) : run 0 m = m := rfl

@[simp] theorem run_succ (n : Nat) (m : Machine) : run (n + 1) m = run n m.step := rfl

theorem run_add (n k : Nat) (m : Machine) : run (n + k) m = run k (run n m) := by
  induction n generalizing m with
  | zero => rw [Nat.zero_add, run_zero]
  | succ n ih => rw [Nat.succ_add, run_succ, run_succ, ih]

/-- As many expressions are open as the cursor counts, and no more than may be. -/
def Balanced (m : Machine) : Prop :=
  m.cursor.depth = m.control.active ∧ m.control.active ≤ maxNesting

section

variable {m : Machine}

theorem balanced_record {o : Outcome Statement} (h : o.2.depth = 0) : (m.record o).Balanced := by
  obtain ⟨result, c⟩ := o
  cases result <;> exact ⟨h, Nat.zero_le _⟩

theorem balanced_enterValue {o : Outcome (Statement ⊕ Purpose)} (h : o.2.depth = 0) :
    (m.enterValue o).Balanced := by
  obtain ⟨result, c⟩ := o
  rcases result with d | s | purpose
  · exact balanced_record h
  · exact balanced_record h
  · exact ⟨h, Nat.zero_le _⟩

/-- A rule that leaves as many open as it finds can be run in any place that counts as many. -/
theorem balanced_resume {rule : Rule α} (hrule : rule.Steady)
    {control : Except Diagnostic α → Control} (h : m.Balanced)
    (hactive : ∀ result, (control result).active = m.control.active) :
    (m.resume (rule m.cursor) control).Balanced := by
  refine ⟨?_, ?_⟩
  · exact ((hrule m.cursor).1.trans h.1).trans (hactive _).symm
  · exact (hactive _).symm ▸ h.2

/-- An expression that is opened is counted, and one too many is not opened. -/
theorem balanced_enter {precedence : Precedence} {frames : List Activation} {purpose : Purpose}
    (hcontrol : m.control = .call precedence frames purpose) (h : m.Balanced) : m.step.Balanced := by
  obtain ⟨hdepth, hactive⟩ := h
  rw [hcontrol, Control.active] at hdepth
  rw [step, hcontrol, Rule.enterNesting]
  by_cases hlimit : m.cursor.depth < maxNesting
  · rw [if_pos hlimit]
    have hopen : frames.length + 1 ≤ maxNesting := hdepth ▸ hlimit
    exact ⟨congrArg (· + 1) hdepth, hopen⟩
  · rw [if_neg hlimit]
    rw [hcontrol] at hactive
    exact ⟨hdepth, hactive⟩

/-- Inside an expression the count stays: a leaf is read at once, another rule waits in a frame. -/
theorem balanced_inside {precedence : Precedence} {frames : List Activation} {purpose : Purpose}
    (hcontrol : m.control = .inside precedence frames purpose) (h : m.Balanced) :
    m.step.Balanced := by
  have hactive (result : Except Diagnostic Expr) :
      (Control.opened precedence result frames purpose).active = m.control.active := by
    rw [hcontrol]
    rfl
  rw [step, hcontrol]
  dsimp only
  split
  · exact balanced_resume (fun _ => ⟨rfl, rfl⟩) h hactive
  · exact balanced_resume (Rule.name_keeps Cursor.frame_steady) h hactive
  · exact balanced_resume (Rule.integer_keeps Cursor.frame_steady) h hactive
  -- the frame that is pushed takes the place of the expression that was being read
  all_goals
    rw [Balanced, hcontrol] at h
    exact h

/-- What becomes of an expression neither opens nor closes another. -/
theorem andThen_steady {c : Cursor} {result : Except Diagnostic α} {rule : α → Rule β}
    (hrule : ∀ a, (rule a).Steady) : (Outcome.andThen (result, c) rule).2.depth = c.depth :=
  (Rule.andThen_keeps Cursor.frame_steady (c := c) (o := (result, c)) ⟨rfl, rfl⟩ hrule).1

theorem Activation.close_steady (frame : Activation) (e : Expr) : (frame.close e).Steady := by
  cases frame with
  | operand _ token => exact Rule.applied_keeps Cursor.frame_steady token e
  | inner _ => exact Rule.closed_keeps Cursor.frame_steady e

/-- No step lets the count of the cursor and the frames drift apart, whatever the machine is about to
do. -/
theorem balanced_step (h : m.Balanced) : m.step.Balanced := by
  cases hcontrol : m.control with
  | call precedence frames purpose => exact balanced_enter hcontrol h
  | inside precedence frames purpose => exact balanced_inside hcontrol h
  | loop =>
    obtain ⟨hdepth, -⟩ := h
    rw [hcontrol] at hdepth
    rw [step, hcontrol]
    dsimp only
    split
    · exact ⟨hdepth, Nat.zero_le _⟩
    · exact balanced_enterValue ((Rule.header_steady _ m.cursor).1.trans hdepth)
  | opened precedence result frames purpose =>
    obtain ⟨hdepth, hactive⟩ := h
    rw [hcontrol, Control.active] at hdepth hactive
    rw [step, hcontrol]
    dsimp only
    rw [Rule.andThen_extend]
    exact ⟨congrArg (· - 1) hdepth, Nat.le_of_succ_le hactive⟩
  | back result frames purpose =>
    obtain ⟨hdepth, hactive⟩ := h
    rw [hcontrol, Control.active] at hdepth hactive
    rw [step, hcontrol]
    cases frames with
    | nil =>
      refine balanced_record ((andThen_steady fun e c => ?_).trans hdepth)
      exact Rule.endStatement_keeps Cursor.frame_steady c
    | cons frame frames =>
      exact ⟨(andThen_steady (Activation.close_steady frame)).trans hdepth, hactive⟩
  | skip =>
    obtain ⟨hdepth, -⟩ := h
    rw [hcontrol] at hdepth
    rw [step, hcontrol]
    dsimp only
    split
    · exact ⟨hdepth, Nat.zero_le _⟩
    · exact ⟨hdepth, Nat.zero_le _⟩
  | done =>
    rw [step, hcontrol]
    exact h

/-- At every step as many expressions are open as the cursor counts, and no more than may be. -/
theorem balanced_run (h : m.Balanced) (n : Nat) : (run n m).Balanced := by
  induction n generalizing m with
  | zero => exact h
  | succ n ih => exact ih (balanced_step h)

end

/-- The machine comes from the one state to the other. -/
def Reaches (m m' : Machine) : Prop := ∃ n, run n m = m'

namespace Reaches

variable {m m' m'' : Machine}

theorem refl (m : Machine) : m.Reaches m := ⟨0, rfl⟩

theorem trans (h : m.Reaches m') (h' : m'.Reaches m'') : m.Reaches m'' := by
  obtain ⟨n, rfl⟩ := h
  obtain ⟨k, rfl⟩ := h'
  exact ⟨n + k, run_add n k m⟩

theorem step (h : m.step.Reaches m') : m.Reaches m' :=
  let ⟨n, hn⟩ := h
  ⟨n + 1, hn⟩

end Reaches

section

variable (statements : List Statement) (diagnostics : List Diagnostic)

theorem step_call {c : Cursor} (h : c.depth < maxNesting) (precedence : Precedence)
    (frames : List Activation) (purpose : Purpose) :
    (Machine.mk c statements diagnostics (.call precedence frames purpose)).step =
      ⟨c.enter, statements, diagnostics, .inside precedence frames purpose⟩ := by
  rw [step, Rule.enterNesting, if_pos h]
  rfl

theorem step_opened (o : Outcome Expr) (precedence : Precedence) (frames : List Activation)
    (purpose : Purpose) :
    (Machine.mk o.2 statements diagnostics (.opened precedence o.1 frames purpose)).step =
      ⟨o.leave.2, statements, diagnostics, .back o.leave.1 frames purpose⟩ := by
  rw [step]
  dsimp only
  rw [Rule.andThen_extend]
  rfl

/-- What the first token selects is read one level inside, and then the level is left. -/
theorem reaches_back_of_opened {c : Cursor} {o : Outcome Expr} {precedence : Precedence}
    {frames : List Activation} {purpose : Purpose} (hdepth : c.depth < maxNesting)
    (h : Reaches ⟨c.enter, statements, diagnostics, .inside precedence frames purpose⟩
      ⟨o.2, statements, diagnostics, .opened precedence o.1 frames purpose⟩) :
    Reaches ⟨c, statements, diagnostics, .call precedence frames purpose⟩
      ⟨o.leave.2, statements, diagnostics, .back o.leave.1 frames purpose⟩ := by
  refine .step ?_
  rw [step_call statements diagnostics hdepth, ← step_opened statements diagnostics o precedence]
  exact h.trans (.step (.refl _))

/-- An expression is read as the rule reads it, whatever stands on the stack. By induction on the
number of expressions that may still be opened. -/
theorem reaches_back (precedence : Precedence) (c : Cursor) (frames : List Activation)
    (purpose : Purpose) :
    Reaches ⟨c, statements, diagnostics, .call precedence frames purpose⟩
      ⟨(Rule.expression precedence c).2, statements, diagnostics,
        .back (Rule.expression precedence c).1 frames purpose⟩ := by
  induction hlevels : maxNesting - c.depth using Nat.strongRecOn
    generalizing precedence c frames with
  | ind levels ih =>
  by_cases hdepth : c.depth < maxNesting
  · have hinner (precedence : Precedence) (frames : List Activation) :=
      ih (maxNesting - (c.depth + 1)) (by omega) precedence c.enter.advance frames rfl
    have hcurrent : c.enter.current = c.current := rfl
    cases ho : c.current.kind.opening? with
    | none =>
      rw [Rule.expression_of_no_opening hdepth ho]
      refine reaches_back_of_opened statements diagnostics hdepth (.step ?_)
        (o := Rule.fail (.noOpening c.current.kind) c.enter)
      simp only [step, hcurrent, ho]
      exact .refl _
    | some o =>
      rw [Rule.expression_of_opening hdepth ho]
      refine reaches_back_of_opened statements diagnostics hdepth (.step ?_)
      cases o with
      | name =>
        simp only [step, hcurrent, ho]
        exact .refl _
      | integer =>
        simp only [step, hcurrent, ho]
        exact .refl _
      | unary =>
        simp only [step, hcurrent, ho, Rule.opening, Rule.unary_apply]
        exact (hinner .unary (.operand precedence c.current :: frames)).trans (.step (.refl _))
      | group =>
        simp only [step, hcurrent, ho, Rule.opening, Rule.group_apply]
        exact (hinner .lowest (.inner precedence :: frames)).trans (.step (.refl _))
  · have hdeep := Nat.le_of_not_lt hdepth
    refine .step ?_
    rw [Rule.expression_of_deep hdeep, step, Rule.enterNesting, if_neg hdepth]
    exact .refl _

/-- A statement is read as the rule reads it, and then recorded. -/
theorem reaches_record {c : Cursor} (h : c.current.kind ≠ .eof) :
    Reaches ⟨c, statements, diagnostics, .loop⟩
      ((Machine.mk c statements diagnostics .loop).record (Rule.statement c)) := by
  rw [Rule.statement_apply, Rule.statementOf_eq_header, Rule.bind_apply]
  refine .step ?_
  rw [step]
  dsimp only
  rw [if_neg h]
  obtain ⟨result, c'⟩ := header c.current.kind.statementForm c
  rcases result with d | s | purpose
  · exact .refl _
  · exact .refl _
  · refine (reaches_back statements diagnostics .lowest c' [] purpose).trans (.step ?_)
    change Reaches _ (record _ (completed (.inr purpose) c'))
    rw [Rule.completed_apply]
    exact .refl _

/-- Giving up moves on token by token to the end of the statement, and past it. -/
theorem reaches_loop_of_skip {tokens : List Token} (hlex : ∀ t ∈ tokens, t.IsLexical)
    (stop : Position) (depth : Nat) :
    Reaches ⟨⟨tokens, stop, depth⟩, statements, diagnostics, .skip⟩
      ⟨(Cursor.mk tokens stop depth).skipStatement.advance, statements, diagnostics, .loop⟩ := by
  induction tokens with
  | nil => exact .step (.refl _)
  | cons t rest ih =>
    have hne := (hlex t List.mem_cons_self).kind_ne_eof
    refine .step ?_
    by_cases ht : t.kind = .semicolon
    · have hend : (Cursor.mk (t :: rest) stop depth).atStatementEnd = true := by
        simp [Cursor.atStatementEnd, Token.isOneOf, ht]
      rw [Cursor.skipStatement_of_end ht, step]
      dsimp only
      rw [if_pos hend]
      exact .refl _
    · have hgoes : ¬ (Cursor.mk (t :: rest) stop depth).atStatementEnd = true := by
        simp [Cursor.atStatementEnd, Token.isOneOf, ht, hne]
      rw [Cursor.skipStatement_of_ne ht, step]
      dsimp only
      rw [if_neg hgoes]
      exact ih fun u hu => hlex u (List.mem_cons_of_mem t hu)

/-- One round of the loop is one attempt. -/
theorem reaches_attempt {c : Cursor} (hne : c.ahead ≠ []) (hlex : c.Lexical) :
    Reaches ⟨c, statements, diagnostics, .loop⟩
      ⟨c.attempt.after, statements ++ c.attempt.result.statement?.toList,
        diagnostics ++ c.attempt.result.diagnostic?.toList, .loop⟩ := by
  refine (reaches_record statements diagnostics (hlex.current_ne_eof hne)).trans ?_
  have hforward := Rule.statement_forward c
  unfold Cursor.attempt
  generalize Rule.statement c = o at hforward
  obtain ⟨result, c'⟩ := o
  cases result with
  | ok s =>
    simp only [record, Verdict.statement?, Verdict.diagnostic?, Except.toOption, Option.toList_some,
      Option.toList_none, List.append_nil]
    exact .refl _
  | error d =>
    simp only [record, Verdict.statement?, Verdict.diagnostic?, Except.toOption, Option.toList_some,
      Option.toList_none, List.append_nil]
    exact reaches_loop_of_skip _ _ (fun t ht => hlex t (hforward.subset ht)) c'.stop c'.depth

/-- The loop ends, and with what all attempts together have come to. -/
theorem reaches_done {c : Cursor} (hlex : c.Lexical) :
    Reaches ⟨c, statements, diagnostics, .loop⟩
      ⟨c.attempts.2, statements ++ c.attempts.1.filterMap (·.result.statement?),
        diagnostics ++ c.attempts.1.filterMap (·.result.diagnostic?), .done⟩ := by
  fun_induction Cursor.attempts c generalizing statements diagnostics with
  | case1 c h =>
    have hend : c.current.kind = .eof := by
      rw [Cursor.current, h]
      rfl
    refine .step ?_
    rw [step]
    dsimp only
    rw [if_pos hend, List.filterMap_nil, List.filterMap_nil, List.append_nil, List.append_nil]
    exact .refl _
  | case2 c h first rest last hrest ih =>
    have hafter : first.after.Lexical := hlex.mono c.after_attempt_ahead
    have hreaches := (reaches_attempt statements diagnostics h hlex).trans (ih _ _ hafter)
    simp only [hrest, List.append_assoc] at hreaches
    have hcons {β : Type} (f : Attempt → Option β) :
        (first :: rest).filterMap f = (f first).toList ++ rest.filterMap f := by
      cases hf : f first <;> simp [hf]
    rw [hcons, hcons]
    exact hreaches

end

end Machine

end LetScript
