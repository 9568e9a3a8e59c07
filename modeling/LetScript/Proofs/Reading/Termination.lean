import LetScript.Proofs.Program.Shape
import LetScript.Proofs.Reading.Machine
import LetScript.Proofs.Reading.Session

/-!
Reading comes to its end. Every loop does: the loops of the scanner, giving up on a statement, and
the one over all statements, each round of which uses up a token. No more than `maxNesting`
expressions are ever open, and the trees are lower than that (`Session.parse_terminates`).
-/
namespace LetScript

/-- As long as the test holds, the body is run, and from the first state that leads to the last. -/
inductive LoopEnds (test : σ → Bool) (body : σ → σ) : σ → σ → Prop where
  | done {s : σ} : test s = false → LoopEnds test body s s
  | round {s last : σ} : test s = true → LoopEnds test body (body s) last →
      LoopEnds test body s last

namespace Scanner

/-- Stands before a character of the kind. -/
def isAt (s : Scanner) (accept : Char → Bool) : Bool := s.rest.head?.any accept

/-- Moves past one character. -/
def read (s : Scanner) : Scanner := s.drop 1

theorem drop_succ (c : Char) (rest : List Char) (offset : Nat) (file : String) (count : Nat) :
    (Scanner.mk (c :: rest) offset file).drop (count + 1) =
      (Scanner.mk (c :: rest) offset file).read.drop count := by
  simp [read, drop, Nat.add_assoc]

/-- A run of characters is read to its end. -/
theorem readRun_ends (accept : Char → Bool) (s : Scanner) :
    LoopEnds (isAt · accept) read s (s.drop (s.rest.takeWhile accept).length) := by
  obtain ⟨rest, offset, file⟩ := s
  induction rest generalizing offset with
  | nil => exact .done rfl
  | cons c rest ih =>
    by_cases hc : accept c = true
    · have hrun : ((c :: rest).takeWhile accept).length = (rest.takeWhile accept).length + 1 := by
        rw [List.takeWhile_cons_of_pos hc, List.length_cons]
      dsimp only
      rw [hrun, drop_succ]
      exact .round hc (ih _)
    · have hzero : (Scanner.mk (c :: rest) offset file).drop 0 = ⟨c :: rest, offset, file⟩ := by
        simp [drop]
      dsimp only
      rw [List.takeWhile_cons_of_neg hc, List.length_nil, hzero]
      exact .done (by simpa [isAt] using hc)

/-- A token that is a run of characters is what the loop reads. -/
theorem readRun_cut {accept : Char → Bool} {s : Scanner}
    (hlexeme : ∀ c rest, accept c = true → lexeme c rest = c :: rest.takeWhile accept)
    (h : s.isAt accept = true) : LoopEnds (isAt · accept) read s s.cut.2 := by
  obtain ⟨_ | ⟨c, rest⟩, offset, file⟩ := s
  · cases h
  · have hc : accept c = true := h
    have hrun : lexeme c rest = (c :: rest).takeWhile accept := by
      rw [hlexeme c rest hc, List.takeWhile_cons_of_pos hc]
    change LoopEnds _ _ _ ((Scanner.mk (c :: rest) offset file).drop (lexeme c rest).length)
    rw [hrun]
    exact readRun_ends accept _

/-- What the loops of the scanner do from where it stands. -/
structure Terminates (s : Scanner) : Prop where
  gap : LoopEnds (isAt · isGap) read s s.skipGap
  word : s.isAt isLetter = true → LoopEnds (isAt · isLetter) read s s.cut.2
  number : s.isAt Char.isDigit = true → LoopEnds (isAt · Char.isDigit) read s s.cut.2
  /-- Taking token after token comes to the end of the input. -/
  tokens : ∃ last, LoopEnds (fun s => s.next.1.kind ≠ .eof) (fun s => s.next.2) s last

theorem terminates (s : Scanner) : s.Terminates where
  gap := readRun_ends isGap s
  word := readRun_cut fun _ rest hc => lexeme_of_isLetter hc rest
  number := readRun_cut fun _ rest hc => lexeme_of_isDigit hc rest
  tokens := by
    induction hn : s.rest.length using Nat.strongRecOn generalizing s with
    | ind n ih =>
      by_cases hkind : s.next.1.kind = .eof
      · exact ⟨s, .done (by simpa using hkind)⟩
      · obtain ⟨last, hlast⟩ := ih _ (hn ▸ s.length_rest_next_lt hkind) s.next.2 rfl
        exact ⟨last, .round (by simpa using hkind) hlast⟩

end Scanner

/-- Giving up comes to the semicolon of the statement, or to the end of the input. -/
theorem Cursor.skipStatement_ends {c : Cursor} (hlex : c.Lexical) :
    LoopEnds (!·.atStatementEnd) advance c c.skipStatement := by
  obtain ⟨tokens, stop, depth⟩ := c
  induction tokens with
  | nil => exact .done rfl
  | cons t rest ih =>
    have hne := (hlex t List.mem_cons_self).kind_ne_eof
    have hrest : (Cursor.mk rest stop depth).Lexical := hlex.mono (List.suffix_cons t rest)
    by_cases ht : t.kind = .semicolon
    · rw [skipStatement_of_end ht]
      exact .done (by simp [atStatementEnd, Token.isOneOf, ht])
    · rw [skipStatement_of_ne ht]
      exact .round (by simp [atStatementEnd, Token.isOneOf, ht, hne]) (ih hrest)

namespace Cursor

theorem before_attempt (c : Cursor) : c.attempt.before = c := by
  unfold attempt
  split <;> rfl

/-- A round of the loop uses up tokens, and goes on with those behind them. -/
theorem attempt_splits (c : Cursor) : c.ahead = c.attempt.tokens ++ c.attempt.after.ahead := by
  obtain ⟨used, hused⟩ := c.after_attempt_ahead
  have htokens : c.attempt.tokens = used :=
    Attempt.tokens_of_append (by rw [before_attempt, hused])
  rw [htokens, hused]

theorem tokens_attempt_ne_nil {c : Cursor} (h : c.ahead ≠ []) : c.attempt.tokens ≠ [] := by
  intro hnil
  have hlt := length_ahead_after_lt h
  have hsplit := congrArg List.length c.attempt_splits
  rw [hnil, List.nil_append] at hsplit
  omega

end Cursor

theorem Accounts.length_le {blocks : List Block} {tokens : List Token} (h : Accounts blocks tokens) :
    blocks.length ≤ tokens.length := by
  induction h with
  | nil => exact Nat.le_refl 0
  | cons hfits _ ih =>
    have hpos := List.length_pos_iff.mpr hfits.tokens_ne_nil
    rw [List.length_cons, List.length_append]
    omega

/-- Every block is a statement or a diagnostic. -/
theorem Block.length_filterMap (blocks : List Block) :
    (blocks.filterMap Block.statement?).length + (blocks.filterMap Block.diagnostic?).length =
      blocks.length := by
  induction blocks with
  | nil => rfl
  | cons b blocks ih =>
    obtain ⟨tokens, result⟩ := b
    rw [List.length_cons, ← ih]
    cases result with
    | ok s =>
      exact Nat.add_right_comm _ 1 _
    | error d => rfl

/-- No tree is higher than its tokens have openers. -/
theorem Phrase.height_tree_le (p : Phrase) : p.tree.height ≤ p.openers := by
  induction p with
  | name t => exact Nat.le_refl 0
  | integer t => exact Nat.le_refl 0
  | unary operator operand ih => exact Nat.succ_le_succ ih
  | group opening inner closing ih => exact Nat.le_succ_of_le ih

/-- A statement within the nesting limit has a tree that is less high than the limit. -/
theorem Sentence.height_lt {s : Sentence} (h : s.WithinLimit) :
    ∀ e ∈ s.tree.expression?, e.height < maxNesting := by
  cases s with
  | emptyRet keyword close => intro e he; cases he
  | binding keyword name sign value close =>
    intro e he
    obtain rfl := Option.some.inj he
    exact Nat.lt_of_le_of_lt value.height_tree_le (h value rfl)
  | ret keyword value close =>
    intro e he
    obtain rfl := Option.some.inj he
    exact Nat.lt_of_le_of_lt value.height_tree_le (h value rfl)
  | bare value close =>
    intro e he
    obtain rfl := Option.some.inj he
    exact Nat.lt_of_le_of_lt value.height_tree_le (h value rfl)

namespace Session

/-- How a call of `parse` comes to its end. -/
structure Terminates (s : Session) : Prop where
  /-- Step by step, with no recursion, reading comes to an end, and to what the call returns. -/
  ends : (Machine.start s.cursor).Reaches
    ⟨s.parse.2.cursor, s.parse.1.statements, s.parse.2.diagnostics, .done⟩
  /-- At every step as many expressions are open as are counted, and never too many. -/
  nesting : ∀ n, (Machine.run n (.start s.cursor)).Balanced
  /-- Each round of the loop uses up at least one token that is not the end of the input. -/
  rounds : ∀ c : Cursor, c.ahead <:+ s.cursor.ahead → c.ahead ≠ [] →
    (∀ statements diagnostics, Machine.Reaches ⟨c, statements, diagnostics, .loop⟩
      ⟨c.attempt.after, statements ++ c.attempt.result.statement?.toList,
        diagnostics ++ c.attempt.result.diagnostic?.toList, .loop⟩) ∧
    c.ahead = c.attempt.tokens ++ c.attempt.after.ahead ∧ c.attempt.tokens ≠ [] ∧
      ∀ t ∈ c.attempt.tokens, t.kind ≠ .eof
  count : s.parse.1.statements.length + s.parse.2.diagnostics.length ≤ s.cursor.ahead.length
  /-- Giving up on a statement ends, wherever it begins. -/
  skipping : ∀ c : Cursor, c.ahead <:+ s.cursor.ahead →
    LoopEnds (!·.atStatementEnd) Cursor.advance c c.skipStatement
  height : ∀ statement ∈ s.parse.1.statements, ∀ e ∈ statement.expression?, e.height < maxNesting

theorem parse_eq_reading (s : Session) :
    (s.parse.1, s.parse.2.diagnostics) = { s.cursor with depth := 0 }.reading := by
  simp only [Cursor.reading, Cursor.blocks, List.filterMap_map]
  rfl

/-- On scanned tokens, the machine comes to an end, and to what `parse` returns. -/
theorem terminates_of_lexical {s : Session} (hlex : s.cursor.Lexical) : s.Terminates := by
  have hbegin : Cursor.Lexical { s.cursor with depth := 0 } := hlex
  have haccounts := Cursor.accounts_attempts { s.cursor with depth := 0 } hbegin rfl
  have hread := s.parse_eq_reading
  have hprogram : s.parse.1.statements = _ := congrArg (·.1.statements) hread
  have hdiagnostics : s.parse.2.diagnostics = _ := congrArg (·.2) hread
  constructor
  case ends => exact Machine.reaches_done [] [] hbegin
  case nesting => exact Machine.balanced_run ⟨rfl, Nat.zero_le _⟩
  case rounds =>
    intro c hahead hne
    have hc := hlex.mono hahead
    refine ⟨fun _ _ => Machine.reaches_attempt _ _ hne hc, c.attempt_splits,
      Cursor.tokens_attempt_ne_nil hne, fun t ht => ?_⟩
    refine (hc t ?_).kind_ne_eof
    rw [c.attempt_splits]
    exact List.mem_append_left _ ht
  case count =>
    rw [hprogram, hdiagnostics]
    exact Nat.le_trans (Nat.le_of_eq (Block.length_filterMap _)) haccounts.length_le
  case skipping => exact fun c hahead => Cursor.skipStatement_ends (hlex.mono hahead)
  case height =>
    obtain ⟨d, -, hlimit, htree⟩ := haccounts.derives_statements
    intro statement hstatement
    rw [hprogram, Cursor.reading, ← htree] at hstatement
    obtain ⟨sentence, hsentence, rfl⟩ := List.mem_map.mp hstatement
    exact Sentence.height_lt (hlimit sentence hsentence)

/-- Whatever has been called before, reading comes to its end, and so does every loop on the way. -/
theorem parse_terminates (source : String) (file : Option String) (operations : List Operation) :
    ((ofSource source file).performAll operations).Terminates ∧
      ∀ scanner : Scanner, scanner.Terminates := by
  refine ⟨terminates_of_lexical ?_, Scanner.terminates⟩
  exact (lexical_ofSource source file).mono ((ofSource source file).performAll_ahead operations)

end Session

end LetScript
