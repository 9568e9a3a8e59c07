import LetScript.Proofs.Reading.Frame
import LetScript.Proofs.Reading.Source

/-!
Sessions in use. Operations can be called in any order and out of place; whatever has been called, a
session stands somewhere on the tokens of its source, never further back than before, and within the
nesting limit (`performAll_invariant`).
-/
namespace LetScript

/-- The token at an index of a source. The end of the input stands at every index from its own on. -/
def tokenAt (source : String) (file : Option String) (index : Nat) : Token :=
  (tokenize source file).getD index ((tokenize source file).getLastD (.endOfInput .null))

/-- The tokens of a source are those that lie ahead at first, and the end of the input at every index
behind them. -/
theorem tokenAt_eq (source : String) (file : Option String) (index : Nat) :
    tokenAt source file index =
      ((Session.ofSource source file).cursor.ahead).getD index
        (.endOfInput (Session.ofSource source file).cursor.stop) := by
  rw [tokenAt, tokenize_eq]
  generalize (Session.ofSource source file).cursor.ahead = tokens
  rw [List.getLastD_concat, List.getD_eq_getElem?_getD, List.getD_eq_getElem?_getD]
  by_cases hindex : index < tokens.length
  · rw [List.getElem?_append_left hindex]
  · have hnone : tokens[index]? = none := List.getElem?_eq_none (by omega)
    rw [List.getElem?_append_right (by omega), hnone]
    cases index - tokens.length <;> rfl

theorem Scanner.tokenAt_eq_tokenAhead (source : String) (file : Option String) :
    tokenAt source file = (Scanner.ofSource source file).tokenAhead :=
  funext (tokenAt_eq source file)

namespace Session

namespace Operation

/-- The operation reads a statement or an expression by a rule of the grammar. -/
def isRule : Operation → Bool
  | statement | statementOf _ | expression _ | opening _ => true
  | advance | expectPeek _ | enterNesting | leaveNesting | parse => false

end Operation

/-- The session after a sequence of operations. -/
def performAll (s : Session) (operations : List Operation) : Session := operations.foldl perform s

theorem cursor_parse (s : Session) : s.parse.2.cursor = ⟨[], s.cursor.stop, 0⟩ :=
  Cursor.attempts_end { s.cursor with depth := 0 }

/-- What every rule keeps, the operations by rule keep. -/
theorem perform_keeps {R : Cursor → Cursor → Prop} (hR : Cursor.Frame R) {operation : Operation}
    (h : operation.isRule = true) (s : Session) : R s.cursor (s.perform operation).cursor := by
  cases operation with
  | statement => exact Rule.statement_keeps hR s.cursor
  | statementOf form => exact Rule.statementOf_keeps hR form s.cursor
  | expression precedence => exact Rule.expression_keeps hR precedence s.cursor
  | opening rule => exact Rule.opening_keeps hR rule s.cursor
  | _ => cases h

/-- No operation goes back. -/
theorem perform_ahead (s : Session) (operation : Operation) :
    (s.perform operation).cursor.ahead <:+ s.cursor.ahead := by
  by_cases hrule : operation.isRule = true
  · exact perform_keeps Cursor.frame_suffix hrule s
  · cases operation with
    | advance => exact s.cursor.ahead.tail_suffix
    | expectPeek expected => exact Rule.expectPeek_keeps Cursor.frame_suffix expected s.cursor
    | enterNesting => exact Rule.enterNesting_forward s.cursor
    | leaveNesting => exact List.suffix_refl _
    | parse =>
      rw [perform, cursor_parse]
      exact List.nil_suffix
    | _ => exact absurd rfl hrule

/-- No operation leaves the nesting limit or forgets where the input ends. -/
theorem perform_bounded (s : Session) (operation : Operation) (h : s.cursor.depth ≤ maxNesting) :
    (s.perform operation).cursor.depth ≤ maxNesting ∧
      (s.perform operation).cursor.stop = s.cursor.stop := by
  by_cases hrule : operation.isRule = true
  · obtain ⟨hdepth, hstop⟩ := perform_keeps Cursor.frame_steady hrule s
    exact ⟨hdepth ▸ h, hstop⟩
  · cases operation with
    | advance => exact ⟨h, rfl⟩
    | expectPeek expected =>
      obtain ⟨hdepth, hstop⟩ := Rule.expectPeek_keeps Cursor.frame_steady expected s.cursor
      exact ⟨Nat.le_trans (Nat.le_of_eq hdepth) h, hstop⟩
    | enterNesting => exact Rule.enterNesting_bounded h
    | leaveNesting => exact ⟨Nat.le_trans (Nat.sub_le _ _) h, rfl⟩
    | parse =>
      rw [perform, cursor_parse]
      exact ⟨Nat.zero_le _, rfl⟩
    | _ => exact absurd rfl hrule

theorem perform_diagnostics (s : Session) {operation : Operation} (h : operation ≠ .parse) :
    (s.perform operation).diagnostics = s.diagnostics := by
  cases operation <;> first | rfl | contradiction

/-- A rule that leaves the cursor alone where it fails leaves the session alone there. -/
theorem run_failed {α : Type} {rule : Rule α}
    (hrule : ∀ c d, (rule c).1 = .error d → (rule c).2 = c) {s s' : Session} {d : Diagnostic}
    (h : s.run rule = (.error d, s')) : s' = s := by
  change ((rule s.cursor).1, Session.mk (rule s.cursor).2 s.diagnostics) = _ at h
  obtain ⟨hresult, rfl⟩ := Prod.mk.inj h
  rw [hrule s.cursor d hresult]

/-- What operations on the session leave alone. -/
structure Orderly (s : Session) : Prop where
  /-- A rule closes what it has opened, also where it fails. -/
  depth : ∀ operation, operation.isRule = true →
    (s.perform operation).cursor.depth = s.cursor.depth
  /-- What has been recorded is changed by `parse` alone. -/
  diagnostics : ∀ operation, operation ≠ .parse → (s.perform operation).diagnostics = s.diagnostics
  /-- A token that is not the expected one is not passed. -/
  unexpected : ∀ expected d s', s.run (Rule.expectPeek expected) = (.error d, s') → s' = s
  /-- An expression too many is not opened. -/
  tooDeep : ∀ d s', s.run Rule.enterNesting = (.error d, s') → s' = s

theorem orderly (s : Session) : s.Orderly where
  depth _ hrule := (perform_keeps Cursor.frame_steady hrule s).1
  diagnostics _ hne := s.perform_diagnostics hne
  unexpected expected _ _ := run_failed (Rule.expectPeek_failed expected)
  tooDeep _ _ := run_failed Rule.enterNesting_failed

theorem performAll_append (s : Session) (first second : List Operation) :
    s.performAll (first ++ second) = (s.performAll first).performAll second := List.foldl_append

theorem performAll_ahead (s : Session) (operations : List Operation) :
    (s.performAll operations).cursor.ahead <:+ s.cursor.ahead := by
  induction operations generalizing s with
  | nil => exact List.suffix_refl _
  | cons operation operations ih => exact (ih (s.perform operation)).trans (s.perform_ahead operation)

theorem performAll_bounded (s : Session) (operations : List Operation)
    (h : s.cursor.depth ≤ maxNesting) :
    (s.performAll operations).cursor.depth ≤ maxNesting ∧
      (s.performAll operations).cursor.stop = s.cursor.stop := by
  induction operations generalizing s with
  | nil => exact ⟨h, rfl⟩
  | cons operation operations ih =>
    obtain ⟨hdepth, hstop⟩ := s.perform_bounded operation h
    obtain ⟨hlast, hlaststop⟩ := ih (s.perform operation) hdepth
    exact ⟨hlast, hlaststop.trans hstop⟩

/-- How many of the tokens that lay ahead of the one session no longer lie ahead of the other. -/
def indexFrom (start s : Session) : Nat := start.cursor.ahead.length - s.cursor.ahead.length

theorem indexFrom_le (start s : Session) (operations : List Operation) :
    start.indexFrom s ≤ start.indexFrom (s.performAll operations) := by
  have hle := (s.performAll_ahead operations).length_le
  unfold indexFrom
  omega

/-- A session in use stands on the tokens that lay ahead of it when it began. -/
theorem ahead_performAll (s : Session) (operations : List Operation) :
    (s.performAll operations).cursor.ahead =
      s.cursor.ahead.drop (s.indexFrom (s.performAll operations)) :=
  List.suffix_iff_eq_drop.mp (s.performAll_ahead operations)

section

variable (source : String) (file : Option String) (operations : List Operation)

theorem current_performAll :
    ((ofSource source file).performAll operations).current =
      tokenAt source file
        ((ofSource source file).indexFrom ((ofSource source file).performAll operations)) := by
  obtain ⟨-, hstop⟩ := (ofSource source file).performAll_bounded operations (Nat.zero_le _)
  rw [tokenAt_eq, current, Cursor.current, hstop, ahead_performAll, List.headD_eq_head?_getD,
    List.head?_drop, List.getD_eq_getElem?_getD]

theorem peek_performAll :
    ((ofSource source file).performAll operations).peek =
      tokenAt source file
        ((ofSource source file).indexFrom ((ofSource source file).performAll operations) + 1) := by
  obtain ⟨-, hstop⟩ := (ofSource source file).performAll_bounded operations (Nat.zero_le _)
  rw [tokenAt_eq, peek, Cursor.peek, hstop, ahead_performAll, List.tail_drop,
    List.headD_eq_head?_getD, List.head?_drop, List.getD_eq_getElem?_getD]

/-- The session shows the token at that index of the source and the next, with no more expressions
open than may be. -/
def StandsAt (s : Session) (index : Nat) : Prop :=
  s.current = tokenAt source file index ∧ s.peek = tokenAt source file (index + 1) ∧
    s.cursor.depth ≤ maxNesting

theorem standsAt_performAll :
    ((ofSource source file).performAll operations).StandsAt source file
      ((ofSource source file).indexFrom ((ofSource source file).performAll operations)) :=
  ⟨current_performAll source file operations, peek_performAll source file operations,
    (performAll_bounded _ operations (Nat.zero_le _)).1⟩

theorem performAll_take {j k : Nat} (h : j ≤ k) (s : Session) :
    s.performAll (operations.take k) =
      (s.performAll (operations.take j)).performAll ((operations.take k).drop j) := by
  have htake : (operations.take k).take j = operations.take j := by
    rw [List.take_take, Nat.min_eq_left h]
  rw [← performAll_append, ← htake, List.take_append_drop]

/-- Whatever has been called, and wherever, the session stands on the tokens of its source, further on
than before or where it stood, and each operation leaves alone what it should. -/
theorem performAll_invariant :
    (∃ index : Nat → Nat, (∀ j k, j ≤ k → index j ≤ index k) ∧ ∀ k,
      ((ofSource source file).performAll (operations.take k)).StandsAt source file (index k)) ∧
    ((ofSource source file).performAll operations).Orderly := by
  let reached (k : Nat) := (ofSource source file).performAll (operations.take k)
  refine ⟨⟨fun k => (ofSource source file).indexFrom (reached k), fun j k h => ?_, fun k => ?_⟩,
    orderly _⟩
  · have hreached : reached k = (reached j).performAll ((operations.take k).drop j) :=
      performAll_take operations h _
    simp only [hreached]
    exact indexFrom_le _ _ _
  · exact standsAt_performAll source file (operations.take k)

end

end Session

end LetScript
