import LetScript.Proofs.Program.Shape
import LetScript.Proofs.Reading.Session
import Mathlib.Data.List.Induction
import Mathlib.Data.Nat.Digits.Defs

/-!
Integers, from their digits to their nodes. The text of a token is read as an integer just when it is a
number that is not too large; a sign never comes with digits in one token (`integer?_literal`). So the
integers of a program are the numbers of its source, however many digits they have, and the rule for
integers takes nothing else for one, wherever a session stands (`integers_exact`).
-/
namespace LetScript

open Text (decimalValue decimal? digitValue signed?)

/-- The number that the text of a token denotes in base ten. -/
def Token.number (t : Token) : Nat := Nat.ofDigits 10 (t.literal.toList.reverse.map digitValue)

theorem decimalValue_eq_ofDigits (digits : List Char) :
    decimalValue digits = Nat.ofDigits 10 (digits.reverse.map digitValue) := by
  induction digits using List.reverseRecOn with
  | nil => rfl
  | append_singleton digits c ih =>
    rw [List.reverse_concat, List.map_cons, Nat.ofDigits_cons, ← ih, Nat.add_comm]
    exact List.foldl_append

theorem Token.number_eq (t : Token) : t.number = decimalValue t.literal.toList :=
  (decimalValue_eq_ofDigits _).symm

theorem decimal?_of_not_digit {c : Char} (hc : c.isDigit = false) (rest : List Char) :
    decimal? (c :: rest) = none := by
  rw [decimal?, if_neg]
  simp [hc]

/-- A text that does not begin with a digit is a number only if digits follow a sign. -/
theorem signed?_of_not_digit {c : Char} {rest : List Char} (hc : c.isDigit = false)
    (hsign : c = '+' ∨ c = '-' → rest = []) : signed? (c :: rest) = none := by
  by_cases hplus : c = '+'
  · subst hplus
    rw [hsign (.inl rfl)]
    rfl
  · by_cases hminus : c = '-'
    · subst hminus
      rw [hsign (.inr rfl)]
      rfl
    · unfold signed?
      split
      · simp_all
      · simp_all
      · rw [decimal?_of_not_digit hc]
        rfl

/-- No token but a run of digits reads as a number, not even a lone sign. -/
theorem signed?_of_lexeme {text : List Char} (h : IsLexeme text) (hkind : lexemeKind text ≠ .int) :
    signed? text = none := by
  cases h with
  | word hne hall =>
    obtain ⟨c, rest, rfl⟩ := List.exists_cons_of_ne_nil hne
    have hc : isLetter c = true := hall c List.mem_cons_self
    refine signed?_of_not_digit (isDigit_of_isLetter hc) ?_
    rintro (rfl | rfl) <;> exact absurd hc (by decide)
  | number hne hall => exact absurd (lexemeKind_number hne hall) hkind
  | @symbol c hclass =>
    exact signed?_of_not_digit (isDigit_of_other hclass) fun _ => rfl

/-- No token has an integer for its text but a number that is not too large. -/
theorem integer?_literal {t : Token} (h : t.IsLexical) :
    integer? t.literal =
      if t.kind = .int ∧ t.number ≤ maxInteger then some (t.number : Int) else none := by
  by_cases hkind : t.kind = .int
  · rw [integer?_of_isNumber (isNumber_of_kind_int h hkind), Token.number_eq]
    simp only [hkind, true_and]
  · rw [if_neg fun hint => hkind hint.1]
    obtain ⟨text, htext, hlexeme, hliteral⟩ := h
    rw [integer?, hliteral, String.toList_ofList, signed?_of_lexeme htext (hlexeme ▸ hkind)]
    rfl

/-- The integers of an expression, each with its token. -/
def Expr.integers : Expr → List (Token × Int)
  | ident _ => []
  | int token value => [(token, value)]
  | unary _ _ operand => operand.integers

def Statement.integers (s : Statement) : List (Token × Int) := s.expression?.elim [] Expr.integers

def Program.integers (p : Program) : List (Token × Int) := p.statements.flatMap Statement.integers

/-- The pair is a number among the tokens, not too large, and its value. -/
def IsInteger (tokens : List Token) (n : Token × Int) : Prop :=
  n.1 ∈ tokens ∧ n.1.kind = .int ∧ n.1.number ≤ maxInteger ∧ n.2 = n.1.number

theorem IsInteger.mono {tokens tokens' : List Token} {n : Token × Int} (h : IsInteger tokens n)
    (hsub : ∀ t ∈ tokens, t ∈ tokens') : IsInteger tokens' n :=
  ⟨hsub _ h.1, h.2⟩

/-- Every number in the tree of an expression is the value of one of its tokens. -/
theorem Phrase.integers_tree (p : Phrase) : ∀ n ∈ p.tree.integers, IsInteger p.tokens n := by
  induction p with
  | name t => simp [tree, Expr.integers]
  | integer t =>
    intro n hn
    obtain rfl := List.mem_singleton.mp hn
    exact ⟨List.mem_singleton_self _, t.property.1, t.val.number_eq ▸ t.property.2,
      congrArg Int.ofNat t.val.number_eq.symm⟩
  | unary operator operand ih =>
    intro n hn
    exact (ih n hn).mono fun t ht => List.mem_cons_of_mem _ ht
  | group opening inner closing ih =>
    intro n hn
    exact (ih n hn).mono fun t ht => List.mem_cons_of_mem _ (List.mem_append_left _ ht)

theorem Sentence.expression?_tree (s : Sentence) : s.tree.expression? = s.value?.map Phrase.tree := by
  cases s <;> rfl

theorem Sentence.integers_tree (s : Sentence) : ∀ n ∈ s.tree.integers, IsInteger s.tokens n := by
  intro n hn
  rw [Statement.integers, expression?_tree] at hn
  cases hvalue : s.value? with
  | none => simp [hvalue] at hn
  | some p =>
    rw [hvalue] at hn
    exact (p.integers_tree n hn).mono fun t ht => mem_tokens_of_value hvalue ht

theorem integers_parseSource (source : String) (file : Option String) :
    ∀ n ∈ (parseSource source file).1.integers, IsInteger (tokenize source file).dropLast n := by
  obtain ⟨d, hprogram, hd⟩ := exists_sentences source file
  rw [hprogram]
  intro n hn
  obtain ⟨s, hs, hn⟩ := List.mem_flatMap.mp hn
  obtain ⟨sentence, hsentence, rfl⟩ := List.mem_map.mp hs
  exact (sentence.integers_tree n hn).mono (hd sentence hsentence).2

namespace Session

/-- Whatever a session has come to stand on has been scanned. -/
theorem lexical_performAll (scanner : Scanner) (operations : List Operation) :
    ((ofScanner scanner).performAll operations).cursor.Lexical := by
  have hstart : (ofScanner scanner).cursor.Lexical :=
    Scanner.isLexical_of_mem_scan scanner.rest scanner.offset scanner.file
  exact hstart.mono (performAll_ahead _ operations)

theorem integer?_current {s : Session} (h : s.cursor.Lexical) :
    integer? s.current.literal =
      if s.current.kind = .int ∧ s.current.number ≤ maxInteger then some (s.current.number : Int)
      else none := by
  obtain ⟨⟨ahead, stop, depth⟩, diagnostics⟩ := s
  cases ahead with
  | nil => rfl
  | cons t rest => exact integer?_literal (h t List.mem_cons_self)

/-- Called anywhere, the rule reads the current token if that is a number and not too large, and else
fails at it; either way the session stays as it was. -/
theorem run_integer {s : Session} (h : s.cursor.Lexical) :
    s.run Rule.integer =
      (if s.current.kind = .int ∧ s.current.number ≤ maxInteger
        then .ok (.int s.current s.current.number)
        else .error ⟨.invalidInteger s.current.literal, s.current.start⟩, s) := by
  have hvalue : integer? s.cursor.current.literal = _ := integer?_current h
  change ((Rule.integer s.cursor).1, Session.mk (Rule.integer s.cursor).2 s.diagnostics) = _
  by_cases hint : s.current.kind = .int ∧ s.current.number ≤ maxInteger
  · rw [if_pos hint] at hvalue ⊢
    rw [Rule.integer, hvalue]
    rfl
  · rw [if_neg hint] at hvalue ⊢
    rw [Rule.integer, hvalue]
    rfl

end Session

/-- The integers of a program are numbers of its source: each has a token of digits and nothing else,
the number that these denote for its value, within range, and the digits for its printed text. And
wherever a session stands, whatever has been called before, the rule for integers accepts a number that
is not too large and nothing else, and moves nothing. -/
theorem integers_exact (source : String) (file : Option String) (scanner : Scanner)
    (operations : List Session.Operation) :
    (∀ n ∈ (parseSource source file).1.integers,
      n.1 ∈ tokenize source file ∧ n.1.kind = .int ∧ IsNumber n.1.literal ∧
        n.2 = n.1.number ∧ 0 ≤ n.2 ∧ n.2 ≤ maxInteger ∧ (Expr.int n.1 n.2).print = n.1.literal) ∧
    ∃ s, s = (Session.ofScanner scanner).performAll operations ∧
      s.run Rule.integer =
        (if s.current.kind = .int ∧ s.current.number ≤ maxInteger
          then .ok (.int s.current s.current.number)
          else .error ⟨.invalidInteger s.current.literal, s.current.start⟩, s) := by
  constructor
  · intro n hn
    obtain ⟨hmem, hkind, hmax, hvalue⟩ := integers_parseSource source file n hn
    have hnumber := isNumber_of_kind_int (isLexical_of_mem_tokenize n.1 hmem) hkind
    refine ⟨List.dropLast_subset _ hmem, hkind, hnumber, hvalue, ?_, ?_, rfl⟩
    · rw [hvalue]
      exact Int.natCast_nonneg _
    · rw [hvalue]
      exact Int.ofNat_le.mpr hmax
  · exact ⟨_, rfl, Session.run_integer (Session.lexical_performAll scanner operations)⟩

/-- The largest integer behind two zeros, and behind a plus one that is larger by one. -/
def zeros : String := "-009223372036854775807; +9223372036854775808"

/-- The zeros do not matter, a sign alone is no number, and one more is too much. -/
theorem integers_exact_zeros :
    (∃ n ∈ (parseSource zeros none).1.integers, n.1 ∈ tokenize zeros none ∧
      n.1.number = 9223372036854775807 ∧ n.2 = n.1.number ∧ n.2 ≤ maxInteger ∧
        (Expr.int n.1 n.2).print = "009223372036854775807") ∧
    (∃ s : Session, s.current.literal = "+" ∧
      s.run Rule.integer = (.error ⟨.invalidInteger "+", ⟨24, "shell"⟩⟩, s)) ∧
    ∃ s : Session, s.current.kind = .int ∧ s.run Rule.integer =
      (.error ⟨.invalidInteger "9223372036854775808", ⟨25, "shell"⟩⟩, s) := by
  have hn : (⟨.int, "009223372036854775807", ⟨⟨1, "shell"⟩, ⟨22, "shell"⟩⟩⟩, 9223372036854775807) ∈
      (parseSource zeros none).1.integers := by decide +kernel
  obtain ⟨hintegers, s, hs, hsign⟩ :=
    integers_exact zeros none (.ofSource zeros none) [.advance, .advance, .advance]
  obtain ⟨-, s', hs', hlarge⟩ :=
    integers_exact zeros none (.ofSource zeros none) [.advance, .advance, .advance, .advance]
  obtain ⟨hmem, -, -, hvalue, -, hmax, hprint⟩ := hintegers _ hn
  have hplus : s.current = ⟨.plus, "+", ⟨⟨24, "shell"⟩, ⟨25, "shell"⟩⟩⟩ := by
    rw [hs]
    decide +kernel
  have hint : s'.current = ⟨.int, "9223372036854775808", ⟨⟨25, "shell"⟩, ⟨44, "shell"⟩⟩⟩ := by
    rw [hs']
    decide +kernel
  refine ⟨⟨_, hn, hmem, (Int.ofNat_inj.mp hvalue).symm, hvalue, hmax, hprint⟩,
    ⟨s, by rw [hplus], ?_⟩, ⟨s', by rw [hint], ?_⟩⟩
  · rw [hsign, hplus, if_neg (by decide)]
    rfl
  · rw [hlarge, hint, if_neg (by decide +kernel)]
    rfl

end LetScript
