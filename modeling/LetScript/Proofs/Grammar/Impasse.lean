import LetScript.Diagnostic.Basic
import LetScript.Proofs.Grammar.Derivation

/-!
Where no derivation goes on. An impasse is a token that cannot stand behind the tokens passed so far,
with the cause. Which token that is can be told from the tokens alone: whatever they are, they begin
with a sentence or they meet an impasse (`Sentence.readable_or_meets`), and no semicolon is passed on
the way to it.
-/
namespace LetScript

open Text (decimalValue)

/-- A token that stands before the leaf of an expression. -/
abbrev Opener := { t : Token // t.kind = .bang ∨ t.kind = .minus ∨ t.kind = .lparen }

/-- With that many expressions open, the tokens passed begin an expression, and the token behind
them cannot continue it. -/
inductive Phrase.Impasse : Nat → List Token → Token → Cause → Prop where
  | tooDeep {depth : Nat} (t : Token) : maxNesting ≤ depth →
      Impasse depth [] t (.nestingTooDeep maxNesting)
  | noOpening {depth : Nat} (t : Token) : depth < maxNesting → t.kind.opening? = none →
      Impasse depth [] t (.noOpening t.kind)
  | tooLarge {depth : Nat} (t : Token) : depth < maxNesting → t.kind = .int →
      maxInteger < decimalValue t.literal.toList → Impasse depth [] t (.invalidInteger t.literal)
  | unclosed {depth : Nat} (opening : Terminal .lparen) (inner : Phrase) (t : Token) :
      depth + 1 + inner.openers < maxNesting → t.kind ≠ .rparen →
        Impasse depth (opening.val :: inner.tokens) t (.unexpectedToken .rparen t.kind)
  | behind {depth : Nat} {passed : List Token} {t : Token} {cause : Cause} (opener : Opener) :
      depth < maxNesting → Impasse (depth + 1) passed t cause →
        Impasse depth (opener.val :: passed) t cause

/-- The tokens passed begin a statement, and the token behind them cannot continue it. -/
inductive Sentence.Impasse : List Token → Token → Cause → Prop where
  | name (keyword : Terminal .letKeyword) (t : Token) : t.kind ≠ .ident →
      Impasse [keyword.val] t (.unexpectedToken .ident t.kind)
  | sign (keyword : Terminal .letKeyword) (name : Terminal .ident) (t : Token) :
      t.kind ≠ .assign → Impasse [keyword.val, name.val] t (.unexpectedToken .assign t.kind)
  | bound {passed : List Token} {t : Token} {cause : Cause} (keyword : Terminal .letKeyword)
      (name : Terminal .ident) (sign : Terminal .assign) : Phrase.Impasse 0 passed t cause →
        Impasse (keyword.val :: name.val :: sign.val :: passed) t cause
  | returned {passed : List Token} {t : Token} {cause : Cause} (keyword : Terminal .returnKeyword) :
      Phrase.Impasse 0 passed t cause → (passed = [] → t.kind ≠ .semicolon ∧ t.kind ≠ .eof) →
        Impasse (keyword.val :: passed) t cause
  | bare {passed : List Token} {t : Token} {cause : Cause} : Phrase.Impasse 0 passed t cause →
      (passed = [] → t.kind.statementForm = .bare) → Impasse passed t cause

theorem Opener.kind_ne_semicolon (opener : Opener) : opener.val.kind ≠ .semicolon := by
  rcases opener.property with hk | hk | hk <;> simp [hk]

/-- What has been passed before an impasse has no semicolon in it. -/
theorem Phrase.Impasse.ne_semicolon {depth : Nat} {passed : List Token} {t : Token} {cause : Cause}
    (h : Phrase.Impasse depth passed t cause) : ∀ u ∈ passed, u.kind ≠ .semicolon := by
  induction h with
  | tooDeep | noOpening | tooLarge => simp
  | unclosed opening inner _ _ _ =>
    intro u hu
    rcases List.mem_cons.mp hu with rfl | hu
    · simp [opening.property]
    · exact Phrase.ne_semicolon_of_mem hu
  | behind opener _ _ ih =>
    intro u hu
    rcases List.mem_cons.mp hu with rfl | hu
    · exact opener.kind_ne_semicolon
    · exact ih u hu

theorem Sentence.Impasse.ne_semicolon {passed : List Token} {t : Token} {cause : Cause}
    (h : Sentence.Impasse passed t cause) : ∀ u ∈ passed, u.kind ≠ .semicolon := by
  cases h with
  | name keyword _ _ => simp [keyword.property]
  | sign keyword name _ _ => simp [keyword.property, name.property]
  | bound keyword name sign hvalue =>
    simpa [keyword.property, name.property, sign.property] using hvalue.ne_semicolon
  | returned keyword hvalue _ => simpa [keyword.property] using hvalue.ne_semicolon
  | bare hvalue _ => exact hvalue.ne_semicolon

/-- What is passed of an expression begins with an opener. -/
theorem Phrase.Impasse.isOpener_head {depth : Nat} {u : Token} {passed : List Token} {t : Token}
    {cause : Cause} (h : Phrase.Impasse depth (u :: passed) t cause) :
    u.kind = .bang ∨ u.kind = .minus ∨ u.kind = .lparen := by
  cases h with
  | unclosed opening _ _ _ _ => exact .inr (.inr opening.property)
  | behind opener _ _ => exact opener.property

/-- What is passed of an expression begins no statement but a bare one. -/
theorem Phrase.Impasse.statementForm_head {depth : Nat} {u : Token} {passed : List Token} {t : Token}
    {cause : Cause} (h : Phrase.Impasse depth (u :: passed) t cause) :
    u.kind.statementForm = .bare := by
  rcases h.isOpener_head with hk | hk | hk <;> simp [hk, TokenKind.statementForm]

variable {stop : Position}

/-- The tokens begin with an expression that stays within the nesting limit. -/
def Phrase.Begins (depth : Nat) (tokens : List Token) : Prop :=
  ∃ (p : Phrase) (rest : List Token), tokens = p.tokens ++ rest ∧ depth + p.openers < maxNesting

/-- The tokens meet an impasse, if need be at the end of the input. -/
def Phrase.Meets (stop : Position) (depth : Nat) (tokens : List Token) : Prop :=
  ∃ passed rest cause, tokens = passed ++ rest ∧
    Impasse depth passed (rest.headD (.endOfInput stop)) cause

theorem Phrase.Meets.behind {depth : Nat} {tokens : List Token} (opener : Opener)
    (hdepth : depth < maxNesting) (h : Phrase.Meets stop (depth + 1) tokens) :
    Phrase.Meets stop depth (opener.val :: tokens) := by
  obtain ⟨passed, rest, cause, rfl, himpasse⟩ := h
  exact ⟨opener.val :: passed, rest, cause, rfl, .behind opener hdepth himpasse⟩

variable (stop)

/-- Behind an expression in an open group stands the parenthesis that closes it, or an impasse. -/
theorem Phrase.begins_or_meets_group {depth : Nat} (opening : Terminal .lparen) (inner : Phrase)
    (rest : List Token) (hlimit : depth + 1 + inner.openers < maxNesting) :
    Phrase.Begins depth (opening.val :: (inner.tokens ++ rest)) ∨
      Phrase.Meets stop depth (opening.val :: (inner.tokens ++ rest)) := by
  by_cases hclose : (rest.headD (.endOfInput stop)).kind = .rparen
  · cases rest with
    | nil => simp [Token.endOfInput] at hclose
    | cons closing rest =>
      left
      refine ⟨.group opening inner ⟨closing, hclose⟩, rest, by simp [Phrase.tokens], ?_⟩
      simp only [Phrase.openers]
      omega
  · right
    exact ⟨opening.val :: inner.tokens, rest, _, rfl, .unclosed opening inner _ hlimit hclose⟩

/-- Whatever the tokens are, they begin with an expression or meet an impasse. -/
theorem Phrase.begins_or_meets (depth : Nat) (tokens : List Token) :
    Phrase.Begins depth tokens ∨ Phrase.Meets stop depth tokens := by
  -- each opener uses up one level, so the levels left bound the recursion
  induction hn : maxNesting - depth generalizing depth tokens with
  | zero =>
    right
    exact ⟨[], tokens, _, rfl, .tooDeep _ (by omega)⟩
  | succ n ih =>
    have hdepth : depth < maxNesting := by omega
    cases ho : (tokens.headD (.endOfInput stop)).kind.opening? with
    | none =>
      right
      exact ⟨[], tokens, _, rfl, .noOpening _ hdepth ho⟩
    | some o =>
      cases tokens with
      | nil => simp [Token.endOfInput, TokenKind.opening?] at ho
      | cons t rest =>
        simp only [List.headD_cons] at ho
        cases o with
        | name =>
          left
          exact ⟨.name ⟨t, TokenKind.eq_of_opening_name ho⟩, rest, rfl, hdepth⟩
        | integer =>
          have hint := TokenKind.eq_of_opening_integer ho
          by_cases hvalue : decimalValue t.literal.toList ≤ maxInteger
          · left
            exact ⟨.integer ⟨t, hint, hvalue⟩, rest, rfl, hdepth⟩
          · right
            exact ⟨[], t :: rest, _, rfl, .tooLarge t hdepth hint (by omega)⟩
        | unary =>
          have hkind := TokenKind.eq_of_opening_unary ho
          obtain ⟨p, rest, rfl, hlimit⟩ | hmeets := ih (depth + 1) rest (by omega)
          · left
            refine ⟨.unary ⟨t, hkind⟩ p, rest, rfl, ?_⟩
            simp only [Phrase.openers]
            omega
          · right
            exact hmeets.behind ⟨t, hkind.imp_right .inl⟩ hdepth
        | group =>
          have hkind := TokenKind.eq_of_opening_group ho
          obtain ⟨p, rest, rfl, hlimit⟩ | hmeets := ih (depth + 1) rest (by omega)
          · exact Phrase.begins_or_meets_group stop ⟨t, hkind⟩ p rest hlimit
          · right
            exact hmeets.behind ⟨t, .inr (.inr hkind)⟩ hdepth

/-- A sentence stands at the front, and what follows it may follow it. -/
def Block.Readable (tokens : List Token) : Prop :=
  ∃ (s : Sentence) (rest : List Token), tokens = s.tokens ++ rest ∧ s.WithinLimit ∧ s.Precedes rest

namespace Sentence

open Block (Readable)

/-- The tokens meet an impasse, if need be at the end of the input. -/
def Meets (stop : Position) (tokens : List Token) : Prop :=
  ∃ passed rest cause, tokens = passed ++ rest ∧ Impasse passed (rest.headD (.endOfInput stop)) cause

/-- A semicolon behind a statement belongs to it. -/
theorem exists_close (rest : List Token) :
    ∃ (close : Option (Terminal .semicolon)) (following : List Token),
      rest = close.unattach.toList ++ following ∧
        (close.unattach = none → ∀ t ∈ following.head?, t.kind ≠ .semicolon) := by
  cases rest with
  | nil => exact ⟨none, [], rfl, by simp⟩
  | cons t rest =>
    by_cases ht : t.kind = .semicolon
    · exact ⟨some ⟨t, ht⟩, rest, rfl, by simp⟩
    · exact ⟨none, t :: rest, rfl, by simpa using ht⟩

section

variable (keyword : Terminal .letKeyword) (rest : List Token)

/-- A text that begins with `let` is readable at its front, or meets a token at which no statement
goes on. -/
theorem readable_or_meets_binding :
    Readable (keyword.val :: rest) ∨ Meets stop (keyword.val :: rest) := by
  by_cases hname : (rest.headD (.endOfInput stop)).kind = .ident
  case neg => exact .inr ⟨[keyword.val], rest, _, rfl, .name keyword _ hname⟩
  cases rest with
  | nil => simp [Token.endOfInput] at hname
  | cons name rest =>
    by_cases hsign : (rest.headD (.endOfInput stop)).kind = .assign
    case neg =>
      exact .inr ⟨[keyword.val, name], rest, _, rfl, .sign keyword ⟨name, hname⟩ _ hsign⟩
    cases rest with
    | nil => simp [Token.endOfInput] at hsign
    | cons sign rest =>
      obtain ⟨p, rest, rfl, hlimit⟩ | ⟨passed, rest, cause, rfl, himpasse⟩ :=
        Phrase.begins_or_meets stop 0 rest
      · obtain ⟨close, following, rfl, hclose⟩ := exists_close rest
        left
        refine ⟨.binding keyword ⟨name, hname⟩ ⟨sign, hsign⟩ p close, following, ?_,
          (withinLimit_iff rfl).mpr (by omega), precedes_of_value rfl hclose⟩
        simp [tokens, body, stop?]
      · exact .inr ⟨_, rest, cause, rfl, .bound keyword ⟨name, hname⟩ ⟨sign, hsign⟩ himpasse⟩

end

/-- So is one that begins with `return`, where the statement may also end at once. -/
theorem readable_or_meets_ret (keyword : Terminal .returnKeyword) (rest : List Token)
    (hrest : ∀ u ∈ rest, u.kind ≠ .eof) :
    Readable (keyword.val :: rest) ∨ Meets stop (keyword.val :: rest) := by
  cases rest with
  | nil =>
    left
    exact ⟨.emptyRet keyword none, [], rfl, withinLimit_emptyRet _ _, by simp, fun _ => rfl⟩
  | cons u rest =>
    by_cases hu : u.kind = .semicolon
    · left
      refine ⟨.emptyRet keyword (some ⟨u, hu⟩), rest, rfl, withinLimit_emptyRet _ _, ?_, ?_⟩
      · simp [stop?]
      · simp [IsLoneReturn, stop?]
    · obtain ⟨p, rest, hsplit, hlimit⟩ | ⟨passed, rest, cause, hsplit, himpasse⟩ :=
        Phrase.begins_or_meets stop 0 (u :: rest)
      · obtain ⟨close, following, rfl, hclose⟩ := exists_close rest
        left
        refine ⟨.ret keyword p close, following, ?_, (withinLimit_iff rfl).mpr (by omega),
          precedes_of_value rfl hclose⟩
        simp [tokens, body, stop?, hsplit]
      · right
        refine ⟨keyword.val :: passed, rest, cause, by rw [hsplit]; rfl,
          .returned keyword himpasse ?_⟩
        rintro rfl
        obtain rfl : u :: _ = rest := hsplit
        exact ⟨hu, hrest u List.mem_cons_self⟩

/-- So is one that begins with neither keyword. -/
theorem readable_or_meets_bare {t : Token} (ht : t.kind.statementForm = .bare) (rest : List Token) :
    Readable (t :: rest) ∨ Meets stop (t :: rest) := by
  obtain ⟨p, rest, hsplit, hlimit⟩ | ⟨passed, rest, cause, hsplit, himpasse⟩ :=
    Phrase.begins_or_meets stop 0 (t :: rest)
  · obtain ⟨close, following, rfl, hclose⟩ := exists_close rest
    left
    refine ⟨.bare p close, following, ?_, (withinLimit_iff rfl).mpr (by omega),
      precedes_of_value rfl hclose⟩
    simp [tokens, body, stop?, hsplit]
  · right
    refine ⟨passed, rest, cause, hsplit, .bare himpasse ?_⟩
    rintro rfl
    obtain rfl : t :: _ = rest := hsplit
    exact ht

/-- Whatever the tokens are, they begin with a sentence or meet an impasse. -/
theorem readable_or_meets {tokens : List Token} (hne : tokens ≠ [])
    (hend : ∀ t ∈ tokens, t.kind ≠ .eof) : Readable tokens ∨ Meets stop tokens := by
  cases tokens with
  | nil => exact absurd rfl hne
  | cons t rest =>
    cases hform : t.kind.statementForm with
    | binding =>
      exact readable_or_meets_binding stop ⟨t, TokenKind.eq_of_statementForm_binding hform⟩ rest
    | ret =>
      exact readable_or_meets_ret stop ⟨t, TokenKind.eq_of_statementForm_ret hform⟩ rest fun u hu =>
        hend u (List.mem_cons_of_mem t hu)
    | bare => exact readable_or_meets_bare stop hform rest

end Sentence

end LetScript
