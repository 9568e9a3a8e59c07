import LetScript.Proofs.Reading.Statement

/-!
Statements past the nesting limit. Of an expression with too many openers, reading passes as many as
may be open and fails at the token behind them (`Phrase.impasse_of_excess`). The attempt at a statement
with such an expression gives up all of it and no more, provided that it ends in a semicolon or that
nothing follows it (`Cursor.attempt_excess`).
-/
namespace LetScript

namespace Phrase

theorem openers_lt_length (p : Phrase) : p.openers < p.tokens.length := by
  induction p with
  | name | integer => simp [openers, tokens]
  | unary operator operand ih => simpa [openers, tokens] using ih
  | group opening inner closing ih =>
    simp only [openers, tokens, List.length_cons, List.length_append]
    omega

/-- The token behind as many openers as may be open, when that many or more stand before the leaf. -/
def excess? (p : Phrase) : Option Token :=
  if p.openers < maxNesting then none else p.tokens[maxNesting]?

theorem excess?_eq_none_iff {p : Phrase} : p.excess? = none ↔ p.openers < maxNesting := by
  have hlength := p.openers_lt_length
  unfold excess?
  split
  case isTrue h => simp [h]
  case isFalse h => simp only [List.getElem?_eq_none_iff]; omega

theorem maxNesting_le_of_excess {p : Phrase} {t : Token} (h : p.excess? = some t) :
    maxNesting ≤ p.openers := by
  refine Nat.le_of_not_lt fun hlimit => ?_
  rw [excess?_eq_none_iff.mpr hlimit] at h
  cases h

theorem getElem?_of_excess {p : Phrase} {t : Token} (h : p.excess? = some t) :
    p.tokens[maxNesting]? = some t := by
  rwa [excess?, if_neg (Nat.not_lt.mpr (maxNesting_le_of_excess h))] at h

/-- With too many openers, an impasse is met behind the last that may be open. -/
theorem impasse_of_excess (p : Phrase) (depth count : Nat) (hcount : depth + count = maxNesting)
    (h : count ≤ p.openers) :
    ∃ t, p.tokens[count]? = some t ∧
      Impasse depth (p.tokens.take count) t (.nestingTooDeep maxNesting) := by
  induction p generalizing depth count with
  | name t =>
    obtain rfl : count = 0 := Nat.le_zero.mp h
    exact ⟨t.val, rfl, .tooDeep t.val (by omega)⟩
  | integer t =>
    obtain rfl : count = 0 := Nat.le_zero.mp h
    exact ⟨t.val, rfl, .tooDeep t.val (by omega)⟩
  | unary operator operand ih =>
    cases count with
    | zero => exact ⟨operator.val, rfl, .tooDeep operator.val (by omega)⟩
    | succ count =>
      obtain ⟨t, ht, himpasse⟩ := ih (depth + 1) count (by omega) (Nat.le_of_succ_le_succ h)
      exact ⟨t, ht, .behind ⟨operator.val, operator.property.imp_right .inl⟩ (by omega) himpasse⟩
  | group opening inner closing ih =>
    cases count with
    | zero => exact ⟨opening.val, rfl, .tooDeep opening.val (by omega)⟩
    | succ count =>
      have hinner : count ≤ inner.openers := Nat.le_of_succ_le_succ h
      have hlength := inner.openers_lt_length
      obtain ⟨t, ht, himpasse⟩ := ih (depth + 1) count (by omega) hinner
      refine ⟨t, ?_, ?_⟩
      · rw [tokens, List.getElem?_cons_succ, List.getElem?_append_left (by omega), ht]
      · rw [tokens, List.take_succ_cons, List.take_append_of_le_length (by omega)]
        exact .behind ⟨opening.val, .inr (.inr opening.property)⟩ (by omega) himpasse

/-- Past the limit, the expression is cut in two at its excess token. -/
theorem exists_split_of_excess {p : Phrase} {t : Token} (h : p.excess? = some t) :
    ∃ passed following, p.tokens = passed ++ t :: following ∧ passed ≠ [] ∧
      Impasse 0 passed t (.nestingTooDeep maxNesting) := by
  obtain ⟨t', ht', himpasse⟩ :=
    p.impasse_of_excess 0 maxNesting (Nat.zero_add _) (maxNesting_le_of_excess h)
  obtain rfl : t = t' := Option.some.inj ((getElem?_of_excess h).symm.trans ht')
  obtain ⟨hlength, rfl⟩ := List.getElem?_eq_some_iff.mp ht'
  refine ⟨p.tokens.take maxNesting, p.tokens.drop (maxNesting + 1), ?_, ?_, himpasse⟩
  · rw [← List.drop_eq_getElem_cons hlength, List.take_append_drop]
  · intro hnil
    have htaken := congrArg List.length hnil
    rw [List.length_take, List.length_nil, Nat.min_eq_left (Nat.le_of_lt hlength)] at htaken
    cases htaken

end Phrase

namespace Sentence

/-- What stands before the expression. -/
def lead : Sentence → List Token
  | binding keyword name sign _ _ => [keyword.val, name.val, sign.val]
  | ret keyword _ _ => [keyword.val]
  | emptyRet keyword _ => [keyword.val]
  | bare _ _ => []

theorem body_of_value {s : Sentence} {p : Phrase} (h : s.value? = some p) :
    s.body = s.lead ++ p.tokens := by
  cases s <;> cases h <;> rfl

def excess? (s : Sentence) : Option Token := s.value?.bind Phrase.excess?

theorem excess?_eq_none_iff {s : Sentence} : s.excess? = none ↔ s.WithinLimit := by
  rw [excess?, WithinLimit]
  cases s.value? with
  | none => simp
  | some p => simpa using Phrase.excess?_eq_none_iff

theorem not_withinLimit_of_excess {s : Sentence} {t : Token} (h : s.excess? = some t) :
    ¬ s.WithinLimit := by
  intro hlimit
  rw [excess?_eq_none_iff.mpr hlimit] at h
  cases h

/-- The tokens before the opener that is one too many are passed, and there the statement is at an
impasse. -/
theorem exists_split_of_excess {s : Sentence} {t : Token} (h : s.excess? = some t) :
    ∃ passed following, s.body = passed ++ t :: following ∧
      Impasse passed t (.nestingTooDeep maxNesting) := by
  obtain ⟨p, hvalue, hp⟩ := Option.bind_eq_some_iff.mp h
  obtain ⟨passed, following, hsplit, hne, himpasse⟩ := Phrase.exists_split_of_excess hp
  refine ⟨s.lead ++ passed, following, ?_, ?_⟩
  · rw [body_of_value hvalue, hsplit, List.append_assoc]
  · cases s with
    | binding keyword name sign _ _ => exact .bound keyword name sign himpasse
    | ret keyword _ _ => exact .returned keyword himpasse fun hnil => absurd hnil hne
    | emptyRet => cases hvalue
    | bare => exact .bare himpasse fun hnil => absurd hnil hne

end Sentence

/-- Giving up on a statement ends behind its semicolon, or at the end of the input. -/
theorem Cursor.skipStatement_sentence (s : Sentence) (rest : List Token) (stop : Position)
    (hclosed : s.stop? = none → rest = []) :
    (Cursor.mk (s.tokens ++ rest) stop 0).skipStatement.advance = ⟨rest, stop, 0⟩ := by
  have hbody : ∀ t ∈ s.body, t.kind ≠ .semicolon := fun t ht => Sentence.ne_semicolon_of_mem_body ht
  rw [Sentence.tokens, List.append_assoc, skip_append hbody]
  cases hstop : s.stop? with
  | none =>
    rw [hclosed hstop]
    rfl
  | some close =>
    simp [skipStatement, advance, Sentence.kind_of_stop hstop]

/-- The attempt at a statement past the limit fails at its excess token, and gives up the statement. -/
theorem Cursor.attempt_excess {s : Sentence} {t : Token} (h : s.excess? = some t)
    (rest : List Token) (stop : Position) (hlex : ∀ t ∈ s.tokens, t.IsLexical)
    (hclosed : s.stop? = none → rest = []) :
    (Cursor.mk (s.tokens ++ rest) stop 0).attempt =
      ⟨⟨s.tokens ++ rest, stop, 0⟩, .error ⟨.nestingTooDeep maxNesting, t.start⟩,
        ⟨rest, stop, 0⟩⟩ := by
  obtain ⟨passed, following, hsplit, himpasse⟩ := Sentence.exists_split_of_excess h
  have htokens : s.tokens ++ rest = passed ++ t :: (following ++ s.stop?.toList ++ rest) := by
    simp [Sentence.tokens, hsplit]
  have hpassed : ∀ u ∈ passed, u.IsLexical := fun u hu =>
    hlex u (by simp [Sentence.tokens, hsplit, hu])
  have hnext : ∀ u ∈ (t :: (following ++ s.stop?.toList ++ rest)).head?, u.IsLexical := by
    intro u hu
    obtain rfl := Option.some.inj hu
    exact hlex t (by simp [Sentence.tokens, hsplit])
  have hskip := skipStatement_sentence s rest stop hclosed
  rw [htokens] at hskip ⊢
  rw [attempt_impasse himpasse hpassed hnext, hskip]
  rfl

end LetScript
