import LetScript.Proofs.Grammar.Impasse
import LetScript.Proofs.Token.Scan

/-!
Reading expressions against the grammar. An expression that can be derived within the nesting limit
is read as its tree (`expression_phrase`). Where the tokens meet an impasse instead, reading fails at
it for its cause, and has passed no semicolon (`expression_impasse`).
-/
namespace LetScript

open Text (decimalValue decimal? signed?)

/-- Digits are read as the number that they denote, and nothing else is read. -/
theorem decimal?_eq_some_iff {text : List Char} {value : Nat} :
    decimal? text = some value ↔
      (text ≠ [] ∧ ∀ c ∈ text, c.isDigit = true) ∧ value = decimalValue text := by
  unfold decimal?
  split
  · rename_i h
    have hdigits : text ≠ [] ∧ ∀ c ∈ text, c.isDigit = true := by simpa using h
    constructor
    · intro hvalue
      exact ⟨hdigits, (Option.some.inj hvalue).symm⟩
    · rintro ⟨-, rfl⟩
      rfl
  · rename_i h
    constructor
    · intro hvalue
      cases hvalue
    · rintro ⟨hdigits, -⟩
      exact absurd (by simpa using hdigits) h

theorem signed?_of_digits {text : List Char} (hne : text ≠ [])
    (hall : ∀ c ∈ text, c.isDigit = true) : signed? text = some (decimalValue text : Int) := by
  have hvalue : decimal? text = some (decimalValue text) :=
    decimal?_eq_some_iff.mpr ⟨⟨hne, hall⟩, rfl⟩
  unfold signed?
  split
  · exact absurd (hall '+' List.mem_cons_self) (by decide)
  · exact absurd (hall '-' List.mem_cons_self) (by decide)
  · rw [hvalue]
    rfl

/-- Digits are an integer unless their value is too large. -/
theorem integer?_of_isNumber {literal : String} (h : IsNumber literal) :
    integer? literal = if decimalValue literal.toList ≤ maxInteger
      then some (decimalValue literal.toList : Int) else none := by
  have hmin : minInteger ≤ (decimalValue literal.toList : Int) :=
    Int.le_trans (by decide) (Int.natCast_nonneg _)
  rw [integer?, signed?_of_digits h.1 h.2]
  by_cases hvalue : decimalValue literal.toList ≤ maxInteger
  · rw [if_pos hvalue, Option.filter_some]
    exact if_pos (decide_eq_true ⟨hmin, Int.ofNat_le.mpr hvalue⟩)
  · rw [if_neg hvalue, Option.filter_some]
    exact if_neg fun h => hvalue (Int.ofNat_le.mp (of_decide_eq_true h).2)

/-- All that lies ahead has been scanned. -/
def Cursor.Lexical (c : Cursor) : Prop := ∀ t ∈ c.ahead, t.IsLexical

theorem Token.IsLexical.kind_ne_eof {t : Token} (h : t.IsLexical) : t.kind ≠ .eof := by
  obtain ⟨text, htext, hkind, -⟩ := h
  rw [hkind]
  exact lexemeKind_ne_eof htext

namespace Cursor

@[simp] theorem current_cons (t : Token) (rest : List Token) (stop : Position) (depth : Nat) :
    (Cursor.mk (t :: rest) stop depth).current = t := rfl

@[simp] theorem advance_cons (t : Token) (rest : List Token) (stop : Position) (depth : Nat) :
    (Cursor.mk (t :: rest) stop depth).advance = ⟨rest, stop, depth⟩ := rfl

@[simp] theorem peek_cons (t u : Token) (rest : List Token) (stop : Position) (depth : Nat) :
    (Cursor.mk (t :: u :: rest) stop depth).peek = u := rfl

theorem Lexical.mono {c c' : Cursor} (h : c.Lexical) (hahead : c'.ahead <:+ c.ahead) :
    c'.Lexical := fun t ht => h t (hahead.subset ht)

theorem Lexical.current_ne_eof {c : Cursor} (h : c.Lexical) (hne : c.ahead ≠ []) :
    c.current.kind ≠ .eof := by
  obtain ⟨_ | ⟨t, rest⟩, stop, depth⟩ := c
  · exact absurd rfl hne
  · exact (h t List.mem_cons_self).kind_ne_eof

/-- The second stands further on than the first, and no semicolon lies between them. -/
def StopsShort (c c' : Cursor) : Prop :=
  ∃ passed, c.ahead = passed ++ c'.ahead ∧ (∀ t ∈ passed, t.kind ≠ .semicolon) ∧
    c'.stop = c.stop ∧ c'.depth = c.depth

theorem StopsShort.refl (c : Cursor) : c.StopsShort c := ⟨[], by simp⟩

theorem StopsShort.cons {t : Token} (ht : t.kind ≠ .semicolon) {rest : List Token} {stop : Position}
    {depth : Nat} {c' : Cursor} (h : (Cursor.mk rest stop depth).StopsShort c') :
    (Cursor.mk (t :: rest) stop depth).StopsShort c' := by
  obtain ⟨passed, hahead, hpassed, hstop, hdepth⟩ := h
  exact ⟨t :: passed, congrArg (t :: ·) hahead, by simpa [ht] using hpassed, hstop, hdepth⟩

theorem StopsShort.leave {rest : List Token} {stop : Position} {depth : Nat} {c' : Cursor}
    (h : (Cursor.mk rest stop (depth + 1)).StopsShort c') :
    (Cursor.mk rest stop depth).StopsShort c'.leave := by
  obtain ⟨passed, hahead, hpassed, hstop, hdepth⟩ := h
  exact ⟨passed, hahead, hpassed, hstop, by simp [Cursor.leave, hdepth]⟩

end Cursor

namespace Rule

theorem unary_apply (c : Cursor) :
    unary c = (expression .unary c.advance).andThen (applied c.current) := by
  change (advance >>= fun token => expression .unary >>= applied token) c = _
  rw [bind_apply]
  change (expression .unary >>= applied c.current) c.advance = _
  rw [bind_apply]

theorem closed_apply (inner : Expr) (c : Cursor) :
    closed inner c =
      if c.peek.kind = .rparen then (.ok inner, c.advance)
      else (.error ⟨.unexpectedToken .rparen c.peek.kind, c.peek.start⟩, c) := by
  change (expectPeek .rparen >>= fun _ => pure inner) c = _
  rw [bind_apply, expectPeek]
  split <;> rfl

theorem group_apply (c : Cursor) :
    group c = (expression .lowest c.advance).andThen closed := by
  change (advance >>= fun _ => expression .lowest >>= closed) c = _
  rw [bind_apply]
  change (expression .lowest >>= closed) c.advance = _
  rw [bind_apply]

theorem integer_of_numeral (t : Numeral) (ht : t.val.IsLexical) (rest : List Token)
    (stop : Position) (depth : Nat) :
    integer ⟨t.val :: rest, stop, depth⟩ =
      (.ok (.int t.val (decimalValue t.val.literal.toList)), ⟨t.val :: rest, stop, depth⟩) := by
  have hvalue : integer? t.val.literal = some (decimalValue t.val.literal.toList : Int) := by
    rw [integer?_of_isNumber (isNumber_of_kind_int ht t.property.1), if_pos t.property.2]
  simp [integer, Cursor.current, hvalue]

theorem expression_cons {t : Token} {o : Opening} (ho : t.kind.opening? = some o)
    (precedence : Precedence) (rest : List Token) (stop : Position) {depth : Nat}
    (hdepth : depth < maxNesting) :
    expression precedence ⟨t :: rest, stop, depth⟩ =
      Outcome.leave (opening o ⟨t :: rest, stop, depth + 1⟩) :=
  expression_of_opening (c := ⟨t :: rest, stop, depth⟩) hdepth ho precedence

theorem expression_of_rule (p : Phrase) (precedence : Precedence) (rest : List Token)
    (stop : Position) {depth : Nat} (hdepth : depth < maxNesting) :
    expression precedence ⟨p.tokens ++ rest, stop, depth⟩ =
      Outcome.leave (opening p.rule ⟨p.tokens ++ rest, stop, depth + 1⟩) := by
  rw [p.tokens_eq_cons]
  exact expression_cons p.opening_first precedence _ stop hdepth

/-- Whatever can be derived within the limit is read as its tree, up to its last token. -/
theorem expression_phrase (p : Phrase) (precedence : Precedence) (rest : List Token)
    (stop : Position) (depth : Nat) (hlex : ∀ t ∈ p.tokens, t.IsLexical)
    (hdepth : depth + p.openers < maxNesting) :
    expression precedence ⟨p.tokens ++ rest, stop, depth⟩ =
      (.ok p.tree, ⟨p.last :: rest, stop, depth⟩) := by
  induction p generalizing precedence rest depth with
  | name t =>
    rw [expression_of_rule _ _ _ _ (by omega)]
    rfl
  | integer t =>
    rw [expression_of_rule _ _ _ _ (by omega)]
    change Outcome.leave (integer ⟨t.val :: rest, stop, depth + 1⟩) = _
    rw [integer_of_numeral t (hlex _ (by simp [Phrase.tokens]))]
    rfl
  | unary operator operand ih =>
    simp only [Phrase.openers] at hdepth
    have hoperand := ih .unary rest (depth + 1)
      (fun t ht => hlex t (by simp [Phrase.tokens, ht])) (by omega)
    rw [expression_of_rule _ _ _ _ (by omega)]
    simp only [Phrase.tokens, List.cons_append, Phrase.rule, opening, unary_apply,
      Cursor.advance_cons, Cursor.current_cons, hoperand]
    rfl
  | group opening inner closing ih =>
    simp only [Phrase.openers] at hdepth
    have hinner := ih .lowest (closing.val :: rest) (depth + 1)
      (fun t ht => hlex t (by simp [Phrase.tokens, ht])) (by omega)
    rw [expression_of_rule _ _ _ _ (by omega)]
    simp only [Phrase.tokens, List.cons_append, List.append_assoc, List.nil_append, Phrase.rule,
      Rule.opening, group_apply, Cursor.advance_cons, hinner, Outcome.andThen, closed_apply,
      Cursor.peek_cons, closing.property, if_true]
    rfl

section

variable {t : Token} {rest : List Token} {stop : Position} {depth : Nat}

/-- A group that is not closed behind its expression fails at the token that stands there. -/
theorem group_unclosed (inner : Phrase) (hlex : ∀ u ∈ inner.tokens, u.IsLexical)
    (hdepth : depth + inner.openers < maxNesting)
    (hclose : (rest.headD (.endOfInput stop)).kind ≠ .rparen) :
    group ⟨t :: (inner.tokens ++ rest), stop, depth⟩ =
      (.error ⟨.unexpectedToken .rparen (rest.headD (.endOfInput stop)).kind,
        (rest.headD (.endOfInput stop)).start⟩, ⟨inner.last :: rest, stop, depth⟩) := by
  rw [group_apply, Cursor.advance_cons, expression_phrase inner .lowest rest stop depth hlex hdepth]
  simp only [Outcome.andThen, closed_apply]
  exact if_neg hclose

theorem stopsShort_last (inner : Phrase) :
    (Cursor.mk (inner.tokens ++ rest) stop depth).StopsShort ⟨inner.last :: rest, stop, depth⟩ := by
  obtain ⟨init, hinit⟩ := inner.tokens_eq_concat
  refine ⟨init, by simp [hinit], fun u hu => ?_, rfl, rfl⟩
  exact Phrase.ne_semicolon_of_mem (p := inner) (by simp [hinit, hu])

/-- An opener hands on the failure of what stands behind it. -/
theorem expression_opener {d : Diagnostic} (opener : Opener) (precedence : Precedence)
    (hdepth : depth < maxNesting)
    (h : ∀ precedence, ∃ c', expression precedence ⟨rest, stop, depth + 1⟩ = (.error d, c') ∧
      (Cursor.mk rest stop (depth + 1)).StopsShort c') :
    ∃ c', expression precedence ⟨opener.val :: rest, stop, depth⟩ = (.error d, c') ∧
      (Cursor.mk (opener.val :: rest) stop depth).StopsShort c' := by
  have hkind : opener.val.kind.opening? = some .unary ∨ opener.val.kind.opening? = some .group := by
    rcases opener.property with hk | hk | hk <;> simp [hk, TokenKind.opening?]
  rcases hkind with ho | ho
  · obtain ⟨c', hinner, hshort⟩ := h .unary
    refine ⟨c'.leave, ?_, hshort.leave.cons opener.kind_ne_semicolon⟩
    simp only [expression_cons ho precedence rest stop hdepth, opening, unary_apply,
      Cursor.advance_cons, hinner]
    rfl
  · obtain ⟨c', hinner, hshort⟩ := h .lowest
    refine ⟨c'.leave, ?_, hshort.leave.cons opener.kind_ne_semicolon⟩
    simp only [expression_cons ho precedence rest stop hdepth, opening, group_apply,
      Cursor.advance_cons, hinner]
    rfl

/-- Where the tokens meet an impasse, reading fails, and it has passed no semicolon. -/
theorem expression_impasse {passed : List Token} {cause : Cause}
    (h : Phrase.Impasse depth passed (rest.headD (.endOfInput stop)) cause)
    (precedence : Precedence) (hlex : ∀ u ∈ passed, u.IsLexical)
    (hnext : ∀ u ∈ rest.head?, u.IsLexical) :
    ∃ c', expression precedence ⟨passed ++ rest, stop, depth⟩ =
        (.error ⟨cause, (rest.headD (.endOfInput stop)).start⟩, c') ∧
      (Cursor.mk (passed ++ rest) stop depth).StopsShort c' := by
  generalize ht : rest.headD (.endOfInput stop) = t at h
  induction h generalizing precedence with
  | tooDeep t hdeep =>
    subst ht
    exact ⟨_, expression_of_deep hdeep precedence, .refl _⟩
  | @noOpening depth t hdepth hnone =>
    subst ht
    exact ⟨_, expression_of_no_opening (c := ⟨rest, stop, depth⟩) hdepth hnone precedence, .refl _⟩
  | tooLarge t hdepth hkind hlarge =>
    cases rest with
    | nil => simp [← ht, Token.endOfInput] at hkind
    | cons u rest =>
      obtain rfl : u = t := ht
      have ho : u.kind.opening? = some .integer := by rw [hkind]; rfl
      have hnone : integer? u.literal = none := by
        rw [integer?_of_isNumber (isNumber_of_kind_int (hnext u rfl) hkind),
          if_neg (Nat.not_le.mpr hlarge)]
      refine ⟨_, ?_, .refl _⟩
      simp only [List.nil_append, expression_cons ho precedence rest stop hdepth, opening, integer,
        Cursor.current_cons, hnone]
      rfl
  | @unclosed depth opening inner t hdepth hclose =>
    subst ht
    have ho : opening.val.kind.opening? = some .group := by rw [opening.property]; rfl
    have hinner : ∀ u ∈ inner.tokens, u.IsLexical := fun u hu =>
      hlex u (List.mem_cons_of_mem opening.val hu)
    refine ⟨_, ?_, (stopsShort_last inner).cons (by simp [opening.property])⟩
    have hlevel : depth < maxNesting := by omega
    rw [List.cons_append, expression_cons ho precedence _ stop hlevel, Rule.opening,
      group_unclosed inner hinner hdepth hclose]
    rfl
  | behind opener hdepth _ ih =>
    exact expression_opener opener precedence hdepth fun precedence =>
      ih precedence (fun u hu => hlex u (List.mem_cons_of_mem opener.val hu)) ht

end

end Rule

end LetScript
