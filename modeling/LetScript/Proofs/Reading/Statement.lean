import LetScript.Proofs.Reading.Expression
import LetScript.Reading.Attempt

/-!
Reading statements against the grammar. A sentence is read as its tree, and the attempt ends right
behind it (`attempt_sentence`). Where the tokens meet an impasse, the attempt fails there and ends
behind the first semicolon (`attempt_impasse`). There is no third case (`attempt_outcome`).
-/
namespace LetScript

namespace Rule

theorem value_apply (c : Cursor) :
    value c = Outcome.andThen (expression .lowest c) fun e c' => (.ok e, c'.endStatement) := by
  change (expression .lowest >>= fun e =>
    (modify Cursor.endStatement >>= fun _ => pure e : Rule Expr)) c = _
  rw [bind_apply]
  rfl

theorem bare_apply (c : Cursor) :
    bare c = Outcome.andThen (value c) fun e => pure (.bare c.current e) := by
  unfold bare
  rw [bind_apply]
  change (value >>= fun e => (pure (.bare c.current e) : Rule Statement)) c = _
  rw [bind_apply]

/-- A `return` has its value read unless the statement ends at once. -/
theorem ret_apply (c : Cursor) :
    ret c =
      if c.advance.atStatementEnd then (.ok (.ret c.current none), c.advance)
      else Outcome.andThen (value c.advance) fun e => pure (.ret c.current (some e)) := by
  unfold ret
  rw [bind_apply]
  change ((get : Rule Cursor) >>= _) c.advance = _
  rw [bind_apply]
  change (if c.advance.atStatementEnd then (pure (.ret c.current none) : Rule Statement)
    else value >>= fun e => pure (.ret c.current (some e))) c.advance = _
  split
  · rfl
  · rw [bind_apply]

/-- A `let` is read as three tokens and a value, each only if the one before it was there. -/
theorem binding_apply (c : Cursor) :
    binding c =
      Outcome.andThen (expectPeek .ident c) fun name c₁ =>
        Outcome.andThen (expectPeek .assign c₁) fun _ c₂ =>
          Outcome.andThen (value c₂.advance) fun e =>
            pure (.binding c.current ⟨name, name.literal⟩ (some e)) := by
  unfold binding
  rw [bind_apply]
  change (expectPeek .ident >>= _) c = _
  rw [bind_apply]
  congr 1
  funext name c₁
  rw [bind_apply]
  congr 1
  funext _ c₂
  rw [bind_apply]
  change (value >>= _) c₂.advance = _
  rw [bind_apply]

theorem statement_apply (c : Cursor) :
    statement c = statementOf c.current.kind.statementForm c := by
  unfold statement
  rw [bind_apply]
  rfl

theorem expectPeek_cons (expected : TokenKind) (t u : Token) (rest : List Token) (stop : Position)
    (depth : Nat) :
    expectPeek expected ⟨t :: u :: rest, stop, depth⟩ =
      if u.kind = expected then (.ok u, ⟨u :: rest, stop, depth⟩)
      else (.error ⟨.unexpectedToken expected u.kind, u.start⟩, ⟨t :: u :: rest, stop, depth⟩) :=
  rfl

end Rule

namespace Rule

/-- An expression and its semicolon are read up to the last token of the two. -/
theorem value_phrase (p : Phrase) (close : Option Token) (rest : List Token) (stop : Position)
    (depth : Nat) (hlex : ∀ t ∈ p.tokens, t.IsLexical) (hdepth : depth + p.openers < maxNesting)
    (hclose : ∀ t ∈ close, t.kind = .semicolon)
    (hrest : close = none → ∀ t ∈ rest.head?, t.kind ≠ .semicolon) :
    ∃ last, value ⟨p.tokens ++ (close.toList ++ rest), stop, depth⟩ =
      (.ok p.tree, ⟨last :: rest, stop, depth⟩) := by
  rw [value_apply, expression_phrase p .lowest _ stop depth hlex hdepth]
  cases close with
  | some t =>
    refine ⟨t, ?_⟩
    simp [Outcome.andThen, Cursor.endStatement, hclose t rfl]
  | none =>
    refine ⟨p.last, ?_⟩
    cases rest with
    | nil => simp [Outcome.andThen, Cursor.endStatement, Cursor.peek, Token.endOfInput]
    | cons t rest => simp [Outcome.andThen, Cursor.endStatement, hrest rfl t rfl]

/-- The value of a statement is read with the semicolon behind it, up to the last token of the
statement. -/
theorem value_sentence {s : Sentence} {p : Phrase} (hvalue : s.value? = some p) (rest : List Token)
    (stop : Position) (hlex : ∀ t ∈ s.tokens, t.IsLexical) (hlimit : s.WithinLimit)
    (hrest : s.Precedes rest) :
    ∃ last, value ⟨p.tokens ++ (s.stop?.toList ++ rest), stop, 0⟩ =
      (.ok p.tree, ⟨last :: rest, stop, 0⟩) := by
  refine value_phrase p s.stop? rest stop 0 ?_ ?_ ?_ hrest.1
  · intro t ht
    exact hlex t (Sentence.mem_tokens_of_value hvalue ht)
  · rw [Nat.zero_add]
    exact (Sentence.withinLimit_iff hvalue).mp hlimit
  · intro t ht
    exact Sentence.kind_of_stop ht

/-- No expression begins where a statement may end. -/
theorem isOneOf_first (p : Phrase) : p.first.isOneOf [.semicolon, .eof] = false := by
  have h := p.opening_first
  cases hk : p.first.kind <;> simp [hk, TokenKind.opening?, Token.isOneOf] at h ⊢

section

variable {p : Phrase} {close : Option (Terminal .semicolon)} {rest : List Token} {stop : Position}
  {last : Token}

theorem binding_of_value (keyword : Terminal .letKeyword) (name : Terminal .ident)
    (sign : Terminal .assign)
    (hvalue : value ⟨p.tokens ++ (close.unattach.toList ++ rest), stop, 0⟩ =
      (.ok p.tree, ⟨last :: rest, stop, 0⟩)) :
    binding ⟨(Sentence.binding keyword name sign p close).tokens ++ rest, stop, 0⟩ =
      (.ok (Sentence.binding keyword name sign p close).tree, ⟨last :: rest, stop, 0⟩) := by
  simp only [binding_apply, Sentence.tokens, Sentence.body, Sentence.stop?, List.cons_append,
    List.append_assoc, expectPeek_cons, name.property, sign.property, if_true, Outcome.andThen,
    Cursor.advance_cons, hvalue]
  rfl

theorem ret_of_value (keyword : Terminal .returnKeyword)
    (hvalue : value ⟨p.tokens ++ (close.unattach.toList ++ rest), stop, 0⟩ =
      (.ok p.tree, ⟨last :: rest, stop, 0⟩)) :
    ret ⟨(Sentence.ret keyword p close).tokens ++ rest, stop, 0⟩ =
      (.ok (Sentence.ret keyword p close).tree, ⟨last :: rest, stop, 0⟩) := by
  have hstart : (Cursor.mk (p.tokens ++ (close.unattach.toList ++ rest)) stop 0).atStatementEnd =
      false := by
    rw [p.tokens_eq_cons]
    exact isOneOf_first p
  simp only [ret_apply, Sentence.tokens, Sentence.body, Sentence.stop?, List.cons_append,
    List.append_assoc, Cursor.advance_cons, hstart, Bool.false_eq_true, if_false, Outcome.andThen,
    hvalue]
  rfl

theorem bare_of_value
    (hvalue : value ⟨p.tokens ++ (close.unattach.toList ++ rest), stop, 0⟩ =
      (.ok p.tree, ⟨last :: rest, stop, 0⟩)) :
    bare ⟨(Sentence.bare p close).tokens ++ rest, stop, 0⟩ =
      (.ok (Sentence.bare p close).tree, ⟨last :: rest, stop, 0⟩) := by
  simp only [bare_apply, Sentence.tokens, Sentence.body, Sentence.stop?, List.append_assoc, hvalue,
    Outcome.andThen]
  rw [p.tokens_eq_cons]
  rfl

/-- A `return` without a value takes its semicolon, or ends with the input. -/
theorem emptyRet_sentence (keyword : Terminal .returnKeyword)
    (hrest : (Sentence.emptyRet keyword close).Precedes rest) :
    ∃ c', ret ⟨(Sentence.emptyRet keyword close).tokens ++ rest, stop, 0⟩ =
        (.ok (Sentence.emptyRet keyword close).tree, c') ∧
      c'.advance = ⟨rest, stop, 0⟩ := by
  cases close with
  | none =>
    obtain rfl := hrest.2 ⟨rfl, rfl⟩
    exact ⟨⟨[], stop, 0⟩, rfl, rfl⟩
  | some t =>
    have hend : (Cursor.mk (t.val :: rest) stop 0).atStatementEnd = true := by
      simp [Cursor.atStatementEnd, Token.isOneOf, t.property]
    refine ⟨⟨t.val :: rest, stop, 0⟩, ?_, rfl⟩
    simp only [ret_apply, Sentence.tokens, Sentence.body, Sentence.stop?, Option.unattach_some,
      Option.toList_some, List.cons_append, List.nil_append, Cursor.advance_cons, hend, if_true]
    rfl

end

/-- A statement within the nesting limit is read whole, and what follows is left. -/
theorem statement_sentence (s : Sentence) (rest : List Token) (stop : Position)
    (hlex : ∀ t ∈ s.tokens, t.IsLexical) (hlimit : s.WithinLimit) (hrest : s.Precedes rest) :
    ∃ c', statement ⟨s.tokens ++ rest, stop, 0⟩ = (.ok s.tree, c') ∧
      c'.advance = ⟨rest, stop, 0⟩ := by
  have hform : (Cursor.mk (s.tokens ++ rest) stop 0).current.kind.statementForm = s.form := by
    rw [s.tokens_eq_cons]
    exact s.statementForm_first
  rw [statement_apply, hform]
  cases s with
  | binding keyword name sign value close =>
    obtain ⟨last, hvalue⟩ := value_sentence rfl rest stop hlex hlimit hrest
    exact ⟨_, binding_of_value keyword name sign hvalue, rfl⟩
  | ret keyword value close =>
    obtain ⟨last, hvalue⟩ := value_sentence rfl rest stop hlex hlimit hrest
    exact ⟨_, ret_of_value keyword hvalue, rfl⟩
  | emptyRet keyword close => exact emptyRet_sentence keyword hrest
  | bare value close =>
    obtain ⟨last, hvalue⟩ := value_sentence rfl rest stop hlex hlimit hrest
    exact ⟨_, bare_of_value hvalue, rfl⟩

end Rule

theorem Cursor.attempt_of_ok {c c' : Cursor} {s : Statement}
    (h : Rule.statement c = (.ok s, c')) : c.attempt = ⟨c, .ok s, c'.advance⟩ := by
  rw [attempt, h]

theorem Cursor.attempt_of_error {c c' : Cursor} {d : Diagnostic}
    (h : Rule.statement c = (.error d, c')) :
    c.attempt = ⟨c, .error d, c'.skipStatement.advance⟩ := by
  rw [attempt, h]

/-- The attempt at a sentence reads it and ends right behind it. -/
theorem Cursor.attempt_sentence (s : Sentence) (rest : List Token) (stop : Position)
    (hlex : ∀ t ∈ s.tokens, t.IsLexical) (hlimit : s.WithinLimit) (hrest : s.Precedes rest) :
    (Cursor.mk (s.tokens ++ rest) stop 0).attempt =
      ⟨⟨s.tokens ++ rest, stop, 0⟩, .ok s.tree, ⟨rest, stop, 0⟩⟩ := by
  obtain ⟨c', hstatement, hadvance⟩ := Rule.statement_sentence s rest stop hlex hlimit hrest
  rw [attempt_of_ok hstatement, hadvance]

namespace Rule

section

variable {passed rest : List Token} {stop : Position} {cause : Cause}

theorem value_impasse (h : Phrase.Impasse 0 passed (rest.headD (.endOfInput stop)) cause)
    (hlex : ∀ u ∈ passed, u.IsLexical) (hnext : ∀ u ∈ rest.head?, u.IsLexical) :
    ∃ c', value ⟨passed ++ rest, stop, 0⟩ =
        (.error ⟨cause, (rest.headD (.endOfInput stop)).start⟩, c') ∧
      (Cursor.mk (passed ++ rest) stop 0).StopsShort c' := by
  obtain ⟨c', hread, hshort⟩ := expression_impasse h .lowest hlex hnext
  refine ⟨c', ?_, hshort⟩
  rw [value_apply, hread]
  rfl

theorem expectPeek_impasse {expected : TokenKind} (t : Token)
    (h : (rest.headD (.endOfInput stop)).kind ≠ expected) :
    expectPeek expected ⟨t :: rest, stop, 0⟩ =
      (.error ⟨.unexpectedToken expected (rest.headD (.endOfInput stop)).kind,
        (rest.headD (.endOfInput stop)).start⟩, ⟨t :: rest, stop, 0⟩) :=
  if_neg h

theorem bare_impasse (h : Phrase.Impasse 0 passed (rest.headD (.endOfInput stop)) cause)
    (hlex : ∀ u ∈ passed, u.IsLexical) (hnext : ∀ u ∈ rest.head?, u.IsLexical) :
    ∃ c', bare ⟨passed ++ rest, stop, 0⟩ =
        (.error ⟨cause, (rest.headD (.endOfInput stop)).start⟩, c') ∧
      (Cursor.mk (passed ++ rest) stop 0).StopsShort c' := by
  obtain ⟨c', hread, hshort⟩ := value_impasse h hlex hnext
  refine ⟨c', ?_, hshort⟩
  rw [bare_apply, hread]
  rfl

/-- Where the value of a `return` meets an impasse, so does the statement, and it stops short of what
follows. -/
theorem ret_impasse (keyword : Terminal .returnKeyword)
    (h : Phrase.Impasse 0 passed (rest.headD (.endOfInput stop)) cause)
    (hend : passed = [] → (rest.headD (.endOfInput stop)).kind ≠ .semicolon ∧
      (rest.headD (.endOfInput stop)).kind ≠ .eof)
    (hlex : ∀ u ∈ passed, u.IsLexical) (hnext : ∀ u ∈ rest.head?, u.IsLexical) :
    ∃ c', ret ⟨keyword.val :: (passed ++ rest), stop, 0⟩ =
        (.error ⟨cause, (rest.headD (.endOfInput stop)).start⟩, c') ∧
      (Cursor.mk (keyword.val :: (passed ++ rest)) stop 0).StopsShort c' := by
  have hvalue : (Cursor.mk (passed ++ rest) stop 0).atStatementEnd = false := by
    cases passed with
    | nil =>
      have hkind := hend rfl
      simpa [Cursor.atStatementEnd, Token.isOneOf, Cursor.current] using hkind
    | cons u passed =>
      have hsemi := h.ne_semicolon u List.mem_cons_self
      have heof := (hlex u List.mem_cons_self).kind_ne_eof
      simp [Cursor.atStatementEnd, Token.isOneOf, hsemi, heof]
  obtain ⟨c', hread, hshort⟩ := value_impasse h hlex hnext
  refine ⟨c', ?_, hshort.cons (by simp [keyword.property])⟩
  rw [ret_apply, Cursor.advance_cons, if_neg (by simp [hvalue]), hread]
  rfl

/-- Where the value of a `let` meets an impasse, so does the statement. -/
theorem binding_impasse (keyword : Terminal .letKeyword) (name : Terminal .ident)
    (sign : Terminal .assign)
    (h : Phrase.Impasse 0 passed (rest.headD (.endOfInput stop)) cause)
    (hlex : ∀ u ∈ passed, u.IsLexical) (hnext : ∀ u ∈ rest.head?, u.IsLexical) :
    ∃ c', binding ⟨keyword.val :: name.val :: sign.val :: (passed ++ rest), stop, 0⟩ =
        (.error ⟨cause, (rest.headD (.endOfInput stop)).start⟩, c') ∧
      (Cursor.mk (keyword.val :: name.val :: sign.val :: (passed ++ rest)) stop 0).StopsShort
        c' := by
  obtain ⟨c', hread, hshort⟩ := value_impasse h hlex hnext
  refine ⟨c', ?_, ((hshort.cons (by simp [sign.property])).cons (by simp [name.property])).cons
    (by simp [keyword.property])⟩
  simp only [binding_apply, expectPeek_cons, name.property, sign.property, if_true,
    Outcome.andThen, Cursor.advance_cons, hread]

theorem statement_let (keyword : Terminal .letKeyword) (rest : List Token) (stop : Position)
    (depth : Nat) :
    statement ⟨keyword.val :: rest, stop, depth⟩ = binding ⟨keyword.val :: rest, stop, depth⟩ := by
  rw [statement_apply, Cursor.current_cons, keyword.property]
  rfl

theorem statement_return (keyword : Terminal .returnKeyword) (rest : List Token) (stop : Position)
    (depth : Nat) :
    statement ⟨keyword.val :: rest, stop, depth⟩ = ret ⟨keyword.val :: rest, stop, depth⟩ := by
  rw [statement_apply, Cursor.current_cons, keyword.property]
  rfl

/-- Where the tokens meet an impasse, reading fails, and it has passed no semicolon. -/
theorem statement_impasse (h : Sentence.Impasse passed (rest.headD (.endOfInput stop)) cause)
    (hlex : ∀ u ∈ passed, u.IsLexical) (hnext : ∀ u ∈ rest.head?, u.IsLexical) :
    ∃ c', statement ⟨passed ++ rest, stop, 0⟩ =
        (.error ⟨cause, (rest.headD (.endOfInput stop)).start⟩, c') ∧
      (Cursor.mk (passed ++ rest) stop 0).StopsShort c' := by
  generalize ht : rest.headD (.endOfInput stop) = t at h
  cases h with
  | name keyword t hname =>
    subst ht
    refine ⟨_, ?_, .refl _⟩
    rw [List.singleton_append, statement_let, binding_apply, expectPeek_impasse keyword.val hname]
    rfl
  | sign keyword name t hsign =>
    subst ht
    refine ⟨_, ?_, .cons (by simp [keyword.property]) (.refl _)⟩
    simp only [List.cons_append, List.nil_append, statement_let, binding_apply, expectPeek_cons,
      name.property, if_true, Outcome.andThen, expectPeek_impasse name.val hsign]
    rfl
  | @bound passed _ _ keyword name sign hvalue =>
    subst ht
    rw [List.cons_append, statement_let]
    exact binding_impasse keyword name sign hvalue (fun u hu => hlex u (by simp [hu])) hnext
  | @returned passed _ _ keyword hvalue hend =>
    subst ht
    rw [List.cons_append, statement_return]
    exact ret_impasse keyword hvalue hend (fun u hu => hlex u (by simp [hu])) hnext
  | bare hvalue hform =>
    subst ht
    have hform : (Cursor.mk (passed ++ rest) stop 0).current.kind.statementForm = .bare := by
      cases passed with
      | nil => exact hform rfl
      | cons u passed => exact hvalue.statementForm_head
    rw [statement_apply, hform]
    exact bare_impasse hvalue hlex hnext

end

end Rule

/-- Wherever a statement has failed, giving up on it ends behind its first semicolon. -/
theorem Cursor.StopsShort.skipStatement {c c' : Cursor} (h : c.StopsShort c') :
    c'.skipStatement = c.skipStatement := by
  obtain ⟨passed, hahead, hpassed, hstop, hdepth⟩ := h
  have hdrop : c.ahead.dropWhile (·.kind ≠ .semicolon) =
      c'.ahead.dropWhile (·.kind ≠ .semicolon) := by
    rw [hahead, List.dropWhile_append_of_pos (by simpa using hpassed)]
  simp only [Cursor.skipStatement, hdrop, hstop, hdepth]

theorem Cursor.skipStatement_of_end {t : Token} (ht : t.kind = .semicolon) {rest : List Token}
    {stop : Position} {depth : Nat} :
    (Cursor.mk (t :: rest) stop depth).skipStatement = ⟨t :: rest, stop, depth⟩ := by
  simp [skipStatement, ht]

theorem Cursor.skipStatement_of_ne {t : Token} (ht : t.kind ≠ .semicolon) {rest : List Token}
    {stop : Position} {depth : Nat} :
    (Cursor.mk (t :: rest) stop depth).skipStatement = (Cursor.mk rest stop depth).skipStatement := by
  simp [skipStatement, ht]

theorem Cursor.skip_append {passed : List Token} (hpassed : ∀ t ∈ passed, t.kind ≠ .semicolon)
    (rest : List Token) (stop : Position) (depth : Nat) :
    (Cursor.mk (passed ++ rest) stop depth).skipStatement =
      (Cursor.mk rest stop depth).skipStatement := by
  have hshort : (Cursor.mk (passed ++ rest) stop depth).StopsShort ⟨rest, stop, depth⟩ :=
    ⟨passed, rfl, hpassed, rfl, rfl⟩
  exact hshort.skipStatement.symm

/-- What an attempt at a statement can come to. -/
inductive AttemptOutcome (c : Cursor) : Attempt → Prop where
  | read (s : Sentence) (rest : List Token) : c.ahead = s.tokens ++ rest → s.WithinLimit →
      s.Precedes rest → AttemptOutcome c ⟨c, .ok s.tree, { c with ahead := rest }⟩
  | failed (passed rest : List Token) (cause : Cause) : c.ahead = passed ++ rest →
      Sentence.Impasse passed (rest.headD (.endOfInput c.stop)) cause →
        AttemptOutcome c ⟨c, .error ⟨cause, (rest.headD (.endOfInput c.stop)).start⟩,
          c.skipStatement.advance⟩

/-- The attempt at tokens that meet an impasse fails there and gives up on the statement. -/
theorem Cursor.attempt_impasse {passed rest : List Token} {stop : Position} {cause : Cause}
    (h : Sentence.Impasse passed (rest.headD (.endOfInput stop)) cause)
    (hlex : ∀ u ∈ passed, u.IsLexical) (hnext : ∀ u ∈ rest.head?, u.IsLexical) :
    (Cursor.mk (passed ++ rest) stop 0).attempt =
      ⟨⟨passed ++ rest, stop, 0⟩, .error ⟨cause, (rest.headD (.endOfInput stop)).start⟩,
        (Cursor.mk (passed ++ rest) stop 0).skipStatement.advance⟩ := by
  obtain ⟨c', hread, hshort⟩ := Rule.statement_impasse h hlex hnext
  rw [attempt_of_error hread, hshort.skipStatement]

/-- Every attempt reads a sentence or meets an impasse. -/
theorem Cursor.attempt_outcome {c : Cursor} (hahead : c.ahead ≠ []) (hlex : c.Lexical)
    (hdepth : c.depth = 0) : AttemptOutcome c c.attempt := by
  obtain ⟨ahead, stop, depth⟩ := c
  obtain rfl : depth = 0 := hdepth
  have hend : ∀ t ∈ ahead, t.kind ≠ .eof := fun t ht => (hlex t ht).kind_ne_eof
  obtain ⟨s, rest, rfl, hlimit, hrest⟩ | ⟨passed, rest, cause, rfl, himpasse⟩ :=
    Sentence.readable_or_meets stop hahead hend
  · have hs : ∀ t ∈ s.tokens, t.IsLexical := fun t ht => hlex t (List.mem_append_left rest ht)
    rw [attempt_sentence s rest stop hs hlimit hrest]
    exact .read s rest rfl hlimit hrest
  · have hpassed : ∀ t ∈ passed, t.IsLexical := fun t ht => hlex t (List.mem_append_left rest ht)
    have hnext : ∀ t ∈ rest.head?, t.IsLexical := fun t ht =>
      hlex t (List.mem_append_right passed (List.mem_of_mem_head? ht))
    rw [attempt_impasse himpasse hpassed hnext]
    exact .failed passed rest cause rfl himpasse

end LetScript
