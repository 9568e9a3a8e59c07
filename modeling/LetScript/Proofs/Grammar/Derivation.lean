import LetScript.Reading.Expression

/-!
The grammar of programs, and derivations in it. A derivation keeps every token of what it derives,
parentheses and semicolons too, so it can be read back as a list of tokens; its tree is what the
reader should make of them. The grammar is unambiguous (`derives_unique`): an expression ends where
its first token says, so nothing need stand between two statements.
-/
namespace LetScript

open Text (decimalValue)

namespace TokenKind

theorem eq_of_opening_name {kind : TokenKind} (h : kind.opening? = some .name) :
    kind = .ident := by
  cases kind <;> simp [TokenKind.opening?] at h ⊢

theorem eq_of_opening_integer {kind : TokenKind} (h : kind.opening? = some .integer) :
    kind = .int := by
  cases kind <;> simp [TokenKind.opening?] at h ⊢

theorem eq_of_opening_unary {kind : TokenKind} (h : kind.opening? = some .unary) :
    kind = .bang ∨ kind = .minus := by
  cases kind <;> simp [TokenKind.opening?] at h ⊢

theorem eq_of_opening_group {kind : TokenKind} (h : kind.opening? = some .group) :
    kind = .lparen := by
  cases kind <;> simp [TokenKind.opening?] at h ⊢

theorem eq_of_statementForm_binding {kind : TokenKind} (h : kind.statementForm = .binding) :
    kind = .letKeyword := by
  cases kind <;> simp [TokenKind.statementForm] at h ⊢

theorem eq_of_statementForm_ret {kind : TokenKind} (h : kind.statementForm = .ret) :
    kind = .returnKeyword := by
  cases kind <;> simp [TokenKind.statementForm] at h ⊢

end TokenKind

/-- A token of one kind. -/
abbrev Terminal (kind : TokenKind) := { t : Token // t.kind = kind }

/-- An integer that is not too large. -/
abbrev Numeral := { t : Token // t.kind = .int ∧ decimalValue t.literal.toList ≤ maxInteger }

abbrev Operator := { t : Token // t.kind = .bang ∨ t.kind = .minus }

/-- A derivation of an expression. -/
inductive Phrase where
  | name (t : Terminal .ident)
  | integer (t : Numeral)
  | unary (operator : Operator) (operand : Phrase)
  | group (opening : Terminal .lparen) (inner : Phrase) (closing : Terminal .rparen)

namespace Phrase

def tokens : Phrase → List Token
  | name t => [t.val]
  | integer t => [t.val]
  | unary operator operand => operator.val :: operand.tokens
  | group opening inner closing => opening.val :: (inner.tokens ++ [closing.val])

def first : Phrase → Token
  | name t => t.val
  | integer t => t.val
  | unary operator _ => operator.val
  | group opening _ _ => opening.val

def last : Phrase → Token
  | name t => t.val
  | integer t => t.val
  | unary _ operand => operand.last
  | group _ _ closing => closing.val

/-- How many operators and opening parentheses stand before the leaf. -/
def openers : Phrase → Nat
  | name _ => 0
  | integer _ => 0
  | unary _ operand => operand.openers + 1
  | group _ inner _ => inner.openers + 1

/-- A group leaves no node behind. -/
def tree : Phrase → Expr
  | name t => .ident ⟨t.val, t.val.literal⟩
  | integer t => .int t.val (decimalValue t.val.literal.toList)
  | unary operator operand => .unary operator.val operator.val.literal operand.tree
  | group _ inner _ => inner.tree

theorem tokens_eq_cons (p : Phrase) : p.tokens = p.first :: p.tokens.tail := by
  cases p <;> rfl

theorem tokens_eq_concat (p : Phrase) : ∃ init, p.tokens = init ++ [p.last] := by
  induction p with
  | name t => exact ⟨[], rfl⟩
  | integer t => exact ⟨[], rfl⟩
  | unary operator operand ih =>
    obtain ⟨init, h⟩ := ih
    exact ⟨operator.val :: init, by simp [tokens, last, h]⟩
  | group opening inner closing ih =>
    exact ⟨opening.val :: inner.tokens, by simp [tokens, last]⟩

/-- The rule that the first token selects. -/
def rule : Phrase → Opening
  | name _ => .name
  | integer _ => .integer
  | unary _ _ => .unary
  | group _ _ _ => .group

theorem opening_first (p : Phrase) : p.first.kind.opening? = some p.rule := by
  cases p with
  | name t => simp [first, rule, t.property, TokenKind.opening?]
  | integer t => simp [first, rule, t.property.1, TokenKind.opening?]
  | unary operator operand =>
    rcases operator.property with hk | hk <;> simp [first, rule, hk, TokenKind.opening?]
  | group opening inner closing => simp [first, rule, opening.property, TokenKind.opening?]

/-- No expression has a semicolon in it. -/
theorem ne_semicolon_of_mem {p : Phrase} {t : Token} (h : t ∈ p.tokens) : t.kind ≠ .semicolon := by
  induction p with
  | name u =>
    obtain rfl := List.mem_singleton.mp h
    simp [u.property]
  | integer u =>
    obtain rfl := List.mem_singleton.mp h
    simp [u.property.1]
  | unary operator operand ih =>
    rcases List.mem_cons.mp h with rfl | h
    · rcases operator.property with hk | hk <;> simp [hk]
    · exact ih h
  | group opening inner closing ih =>
    simp only [tokens, List.mem_cons, List.mem_append, List.not_mem_nil, or_false] at h
    rcases h with rfl | h | rfl
    · simp [opening.property]
    · exact ih h
    · simp [closing.property]

theorem rule_eq_of_append {p q : Phrase} {rest rest' : List Token}
    (h : p.tokens ++ rest = q.tokens ++ rest') : p.rule = q.rule := by
  have hfirst : p.first = q.first := by
    rw [tokens_eq_cons p, tokens_eq_cons q] at h
    exact (List.cons.inj h).1
  have hp := opening_first p
  rw [hfirst, opening_first q] at hp
  exact (Option.some.inj hp).symm

/-- An expression is told from what follows it by its own tokens alone. -/
theorem tokens_append_inj {p q : Phrase} {rest rest' : List Token}
    (h : p.tokens ++ rest = q.tokens ++ rest') : p = q ∧ rest = rest' := by
  -- the first token decides the rule, so the two cannot part before they end
  have hrule := rule_eq_of_append h
  induction p generalizing q rest rest' with
  | name t =>
    cases q <;> simp only [rule, reduceCtorEq] at hrule
    simpa [tokens, Subtype.ext_iff] using h
  | integer t =>
    cases q <;> simp only [rule, reduceCtorEq] at hrule
    simpa [tokens, Subtype.ext_iff] using h
  | unary operator operand ih =>
    cases q <;> simp only [rule, reduceCtorEq] at hrule
    simp only [tokens, List.cons_append, List.cons.injEq] at h
    obtain ⟨hoperand, hrest⟩ := ih h.2 (rule_eq_of_append h.2)
    exact ⟨by rw [hoperand, Subtype.ext h.1], hrest⟩
  | group opening inner closing ih =>
    cases q <;> simp only [rule, reduceCtorEq] at hrule
    simp only [tokens, List.cons_append, List.append_assoc, List.cons.injEq] at h
    obtain ⟨hinner, hrest⟩ := ih h.2 (rule_eq_of_append h.2)
    simp only [List.nil_append, List.cons.injEq] at hrest
    exact ⟨by rw [hinner, Subtype.ext h.1, Subtype.ext hrest.1], hrest.2⟩

end Phrase

/-- A derivation of a statement, with the semicolon that ends it if there is one. -/
inductive Sentence where
  | binding (keyword : Terminal .letKeyword) (name : Terminal .ident) (sign : Terminal .assign)
      (value : Phrase) (stop : Option (Terminal .semicolon))
  | ret (keyword : Terminal .returnKeyword) (value : Phrase) (stop : Option (Terminal .semicolon))
  | emptyRet (keyword : Terminal .returnKeyword) (stop : Option (Terminal .semicolon))
  | bare (value : Phrase) (stop : Option (Terminal .semicolon))

namespace Sentence

def stop? : Sentence → Option Token
  | binding _ _ _ _ stop => stop.unattach
  | ret _ _ stop => stop.unattach
  | emptyRet _ stop => stop.unattach
  | bare _ stop => stop.unattach

def value? : Sentence → Option Phrase
  | binding _ _ _ value _ => some value
  | ret _ value _ => some value
  | emptyRet _ _ => none
  | bare value _ => some value

/-- All tokens but the semicolon. -/
def body : Sentence → List Token
  | binding keyword name sign value _ => keyword.val :: name.val :: sign.val :: value.tokens
  | ret keyword value _ => keyword.val :: value.tokens
  | emptyRet keyword _ => [keyword.val]
  | bare value _ => value.tokens

def tokens (s : Sentence) : List Token := s.body ++ s.stop?.toList

def tree : Sentence → Statement
  | binding keyword name _ value _ => .binding keyword.val ⟨name.val, name.val.literal⟩ (some value.tree)
  | ret keyword value _ => .ret keyword.val (some value.tree)
  | emptyRet keyword _ => .ret keyword.val none
  | bare value _ => .bare value.first value.tree

/-- At most 255 operators and opening parentheses stand before the leaf of its expression. -/
def WithinLimit (s : Sentence) : Prop := ∀ p ∈ s.value?, p.openers < maxNesting

/-- A return without a value and without a semicolon stands at the end of the input. -/
def IsLoneReturn (s : Sentence) : Prop := s.value? = none ∧ s.stop? = none

/-- What may follow: a semicolon would belong to the sentence, and nothing follows a lone return. -/
def Precedes (s : Sentence) (rest : List Token) : Prop :=
  (s.stop? = none → ∀ t ∈ rest.head?, t.kind ≠ .semicolon) ∧ (s.IsLoneReturn → rest = [])

theorem withinLimit_iff {s : Sentence} {p : Phrase} (h : s.value? = some p) :
    s.WithinLimit ↔ p.openers < maxNesting := by
  simp [WithinLimit, h]

theorem withinLimit_emptyRet (keyword : Terminal .returnKeyword)
    (close : Option (Terminal .semicolon)) : (emptyRet keyword close).WithinLimit := by
  simp [WithinLimit, value?]

theorem precedes_of_value {s : Sentence} {p : Phrase} {rest : List Token} (h : s.value? = some p)
    (hrest : s.stop? = none → ∀ t ∈ rest.head?, t.kind ≠ .semicolon) : s.Precedes rest :=
  ⟨hrest, fun hlone => absurd hlone.1 (by simp [h])⟩

theorem kind_of_stop {s : Sentence} {t : Token} (h : s.stop? = some t) : t.kind = .semicolon := by
  have hkind (stop : Option (Terminal .semicolon)) (hstop : stop.unattach = some t) :
      t.kind = .semicolon := by
    cases stop with
    | none => cases hstop
    | some close =>
      cases hstop
      exact close.property
  cases s with
  | binding _ _ _ _ stop => exact hkind stop h
  | ret _ _ stop => exact hkind stop h
  | emptyRet _ stop => exact hkind stop h
  | bare _ stop => exact hkind stop h

theorem mem_tokens_of_value {s : Sentence} {p : Phrase} (h : s.value? = some p) {t : Token}
    (ht : t ∈ p.tokens) : t ∈ s.tokens := by
  cases s <;> cases h <;> simp [tokens, body, ht]

def first : Sentence → Token
  | binding keyword _ _ _ _ => keyword.val
  | ret keyword _ _ => keyword.val
  | emptyRet keyword _ => keyword.val
  | bare value _ => value.first

/-- The form that the first token selects. -/
def form : Sentence → StatementForm
  | binding _ _ _ _ _ => .binding
  | ret _ _ _ => .ret
  | emptyRet _ _ => .ret
  | bare _ _ => .bare

theorem tokens_eq_cons (s : Sentence) : s.tokens = s.first :: s.tokens.tail := by
  cases s with
  | bare value stop =>
    change value.tokens ++ _ = value.first :: (value.tokens ++ _).tail
    rw [value.tokens_eq_cons]
    rfl
  | _ => rfl

theorem tokens_ne_nil (s : Sentence) : s.tokens ≠ [] := by
  rw [tokens_eq_cons]
  simp

theorem statementForm_first (s : Sentence) : s.first.kind.statementForm = s.form := by
  cases s with
  | binding keyword _ _ _ _ => simp [first, form, keyword.property, TokenKind.statementForm]
  | ret keyword _ _ => simp [first, form, keyword.property, TokenKind.statementForm]
  | emptyRet keyword _ => simp [first, form, keyword.property, TokenKind.statementForm]
  | bare value _ =>
    have h := value.opening_first
    simp only [first, form]
    cases hk : value.first.kind <;> simp [hk, TokenKind.opening?, TokenKind.statementForm] at h ⊢

theorem kind_first_ne_semicolon (s : Sentence) : s.first.kind ≠ .semicolon := by
  cases s with
  | binding keyword _ _ _ _ => simp [first, keyword.property]
  | ret keyword _ _ => simp [first, keyword.property]
  | emptyRet keyword _ => simp [first, keyword.property]
  | bare value _ =>
    have h : value.first ∈ value.tokens := by rw [value.tokens_eq_cons]; simp
    exact Phrase.ne_semicolon_of_mem h

/-- No statement has a semicolon in it before the one that ends it. -/
theorem ne_semicolon_of_mem_body {s : Sentence} {t : Token} (h : t ∈ s.body) :
    t.kind ≠ .semicolon := by
  cases s with
  | binding keyword name sign value _ =>
    simp only [body, List.mem_cons] at h
    rcases h with rfl | rfl | rfl | h
    · simp [keyword.property]
    · simp [name.property]
    · simp [sign.property]
    · exact Phrase.ne_semicolon_of_mem h
  | ret keyword value _ =>
    rcases List.mem_cons.mp h with rfl | h
    · simp [keyword.property]
    · exact Phrase.ne_semicolon_of_mem h
  | emptyRet keyword _ =>
    obtain rfl := List.mem_singleton.mp h
    simp [keyword.property]
  | bare value _ => exact Phrase.ne_semicolon_of_mem h

/-- A sentence has no semicolon but the one that ends it. -/
theorem ne_semicolon_of_mem_dropLast {s : Sentence} {t : Token} (h : t ∈ s.tokens.dropLast) :
    t.kind ≠ .semicolon := by
  rw [tokens] at h
  cases hstop : s.stop? with
  | none =>
    rw [hstop, Option.toList_none, List.append_nil] at h
    exact ne_semicolon_of_mem_body (List.dropLast_subset _ h)
  | some close =>
    rw [hstop, Option.toList_some, List.dropLast_concat] at h
    exact ne_semicolon_of_mem_body h

theorem form_eq_of_append {s s' : Sentence} {rest rest' : List Token}
    (h : s.tokens ++ rest = s'.tokens ++ rest') : s.form = s'.form := by
  rw [tokens_eq_cons s, tokens_eq_cons s'] at h
  rw [← statementForm_first, ← statementForm_first, (List.cons.inj h).1]

/-- Whether a semicolon ends a sentence can be seen from the token behind it. -/
theorem stop_append_inj {stop stop' : Option (Terminal .semicolon)} {rest rest' : List Token}
    (h : stop.unattach.toList ++ rest = stop'.unattach.toList ++ rest')
    (hrest : stop.unattach = none → ∀ t ∈ rest.head?, t.kind ≠ .semicolon)
    (hrest' : stop'.unattach = none → ∀ t ∈ rest'.head?, t.kind ≠ .semicolon) :
    stop = stop' ∧ rest = rest' := by
  cases stop with
  | none =>
    cases stop' with
    | none => exact ⟨rfl, by simpa using h⟩
    | some t =>
      simp only [Option.unattach_none, Option.toList_none, List.nil_append, Option.unattach_some,
        Option.toList_some, List.singleton_append] at h
      exact absurd t.property (hrest rfl t.val (by simp [h]))
  | some t =>
    cases stop' with
    | none =>
      simp only [Option.unattach_none, Option.toList_none, List.nil_append, Option.unattach_some,
        Option.toList_some, List.singleton_append] at h
      exact absurd t.property (hrest' rfl t.val (by simp [← h]))
    | some u =>
      simp only [Option.unattach_some, Option.toList_some, List.singleton_append, List.cons.injEq] at h
      exact ⟨by rw [Subtype.ext h.1], h.2⟩

/-- After `return`, an expression differs from the end of the statement in its first token. -/
theorem ret_ne_emptyRet {value : Phrase} {stop stop' : Option (Terminal .semicolon)}
    {keyword : Terminal .returnKeyword} {rest rest' : List Token}
    (hprec : (emptyRet keyword stop').Precedes rest') :
    value.tokens ++ stop.unattach.toList ++ rest ≠
      stop'.unattach.toList ++ rest' := by
  intro h
  have hfirst : value.first ∈ value.tokens := by rw [value.tokens_eq_cons]; simp
  rw [value.tokens_eq_cons] at h
  cases stop' with
  | none =>
    rw [hprec.2 ⟨rfl, rfl⟩] at h
    simp at h
  | some t =>
    simp only [Option.unattach_some, Option.toList_some, List.cons_append, List.nil_append,
      List.cons.injEq] at h
    exact Phrase.ne_semicolon_of_mem hfirst (h.1 ▸ t.property)

/-- Two statements at the front of one text are the same, if what follows each may follow it. -/
theorem tokens_append_inj {s s' : Sentence} {rest rest' : List Token}
    (h : s.tokens ++ rest = s'.tokens ++ rest') (hs : s.Precedes rest) (hs' : s'.Precedes rest') :
    s = s' ∧ rest = rest' := by
  have hform := form_eq_of_append h
  cases s with
  | binding keyword name sign value stop =>
    cases s' <;> simp only [form, reduceCtorEq] at hform
    simp only [tokens, body, stop?, List.cons_append, List.append_assoc, List.cons.injEq] at h
    obtain ⟨hvalue, hstop⟩ := Phrase.tokens_append_inj h.2.2.2
    obtain ⟨hstop, hrest⟩ := stop_append_inj hstop hs.1 hs'.1
    refine ⟨?_, hrest⟩
    rw [hvalue, hstop, Subtype.ext h.1, Subtype.ext h.2.1, Subtype.ext h.2.2.1]
  | ret keyword value stop =>
    cases s' with
    | ret keyword' value' stop' =>
      simp only [tokens, body, stop?, List.cons_append, List.append_assoc, List.cons.injEq] at h
      obtain ⟨hvalue, hstop⟩ := Phrase.tokens_append_inj h.2
      obtain ⟨hstop, hrest⟩ := stop_append_inj hstop hs.1 hs'.1
      exact ⟨by rw [hvalue, hstop, Subtype.ext h.1], hrest⟩
    | emptyRet keyword' stop' =>
      simp only [tokens, body, stop?, List.cons_append, List.nil_append, List.cons.injEq] at h
      exact absurd h.2 (ret_ne_emptyRet hs')
    | _ => simp [form] at hform
  | emptyRet keyword stop =>
    cases s' with
    | ret keyword' value' stop' =>
      simp only [tokens, body, stop?, List.cons_append, List.nil_append, List.cons.injEq] at h
      exact absurd h.2.symm (ret_ne_emptyRet hs)
    | emptyRet keyword' stop' =>
      simp only [tokens, body, stop?, List.cons_append, List.nil_append, List.cons.injEq] at h
      obtain ⟨hstop, hrest⟩ := stop_append_inj h.2 hs.1 hs'.1
      exact ⟨by rw [hstop, Subtype.ext h.1], hrest⟩
    | _ => simp [form] at hform
  | bare value stop =>
    cases s' <;> simp only [form, reduceCtorEq] at hform
    simp only [tokens, body, stop?, List.append_assoc] at h
    obtain ⟨hvalue, hstop⟩ := Phrase.tokens_append_inj h
    obtain ⟨hstop, hrest⟩ := stop_append_inj hstop hs.1 hs'.1
    exact ⟨by rw [hvalue, hstop], hrest⟩

end Sentence

/-- The statements, in order, make up the tokens. -/
inductive Derives : List Sentence → List Token → Prop where
  | nil : Derives [] []
  | cons {s : Sentence} {sentences : List Sentence} {rest : List Token} :
      (s.IsLoneReturn → rest = []) → Derives sentences rest →
        Derives (s :: sentences) (s.tokens ++ rest)

theorem Derives.head_ne_semicolon {sentences : List Sentence} {tokens : List Token}
    (h : Derives sentences tokens) : ∀ t ∈ tokens.head?, t.kind ≠ .semicolon := by
  cases h with
  | nil => simp
  | @cons s _ _ _ _ =>
    rw [s.tokens_eq_cons]
    simpa using s.kind_first_ne_semicolon

theorem Derives.precedes {s : Sentence} {sentences : List Sentence} {rest : List Token}
    (hlone : s.IsLoneReturn → rest = []) (h : Derives sentences rest) : s.Precedes rest :=
  ⟨fun _ => h.head_ne_semicolon, hlone⟩

theorem Derives.flatMap_tokens {sentences : List Sentence} {tokens : List Token}
    (h : Derives sentences tokens) : sentences.flatMap Sentence.tokens = tokens := by
  induction h with
  | nil => rfl
  | cons _ _ ih => rw [List.flatMap_cons, ih]

/-- The grammar is unambiguous. -/
theorem derives_unique {d d' : List Sentence} {tokens : List Token} (h : Derives d tokens)
    (h' : Derives d' tokens) : d = d' := by
  induction h generalizing d' with
  | nil =>
    generalize htokens : ([] : List Token) = tokens at h'
    cases h' with
    | nil => rfl
    | @cons s _ _ _ _ =>
      rw [s.tokens_eq_cons] at htokens
      simp at htokens
  | @cons s d rest hlone hrest ih =>
    generalize htokens : s.tokens ++ rest = tokens at h'
    cases h' with
    | nil =>
      rw [s.tokens_eq_cons] at htokens
      simp at htokens
    | @cons s' d' rest' hlone' hrest' =>
      obtain ⟨rfl, rfl⟩ :=
        Sentence.tokens_append_inj htokens (hrest.precedes hlone) (hrest'.precedes hlone')
      rw [ih hrest']

end LetScript
