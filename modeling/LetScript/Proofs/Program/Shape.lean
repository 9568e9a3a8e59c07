import LetScript.Proofs.Grammar.Derivation
import LetScript.Proofs.Program.Spelling

/-!
Trees without positions. Of a tree that has been read, forgetting all positions leaves what its
names, numbers and operators tell, its shape (`unplaced_tree`); and such a tree is well formed, that
is, it is spelled and its numbers are the values of their digits (`wellFormed_tree`).
-/
namespace LetScript

open Text (decimalValue)

def Token.ofSpelling (s : Spelling) : Token := ⟨s.1, s.2, ⟨.null, .null⟩⟩

/-- The token without its position. -/
def Token.unplaced (t : Token) : Token := ofSpelling t.spelling

def Identifier.unplaced (i : Identifier) : Identifier := ⟨i.token.unplaced, i.name⟩

/-- An identifier as its name tells it. -/
def Identifier.shape (i : Identifier) : Identifier := ⟨.ofSpelling (.ident, i.name), i.name⟩

namespace Expr

def unplaced : Expr → Expr
  | ident identifier => ident identifier.unplaced
  | int token value => int token.unplaced value
  | unary token operator operand => unary token.unplaced operator operand.unplaced

def shape : Expr → Expr
  | ident identifier => ident identifier.shape
  | int token value => int (.ofSpelling (.int, token.literal)) value
  | unary _ operator operand =>
    unary (.ofSpelling (operatorKind operator, operator)) operator operand.shape

/-- The tree means what its texts say. A number is the value of its digits, and as large as a number
can be at most. -/
def WellFormed : Expr → Prop
  | ident identifier => IsName identifier.name
  | int token value => IsNumber token.literal ∧ value = decimalValue token.literal.toList ∧
      decimalValue token.literal.toList ≤ maxInteger
  | unary _ operator operand => (operator = "!" ∨ operator = "-") ∧ operand.WellFormed

theorem WellFormed.spelled {e : Expr} (h : e.WellFormed) : e.Spelled := by
  induction e with
  | ident identifier => exact h
  | int token value => exact h.1
  | unary token operator operand ih => exact ⟨h.1, ih h.2⟩

/-- The printed text depends on the shape alone. -/
theorem print_shape (e : Expr) : e.shape.print = e.print := by
  induction e with
  | ident identifier => rfl
  | int token value => rfl
  | unary token operator operand ih => simp only [shape, print, ih]

end Expr

namespace Statement

/-- A bare expression may begin with a parenthesis, of which its tree keeps no trace, so the token of
the statement is forgotten. -/
def unplaced : Statement → Statement
  | binding token name value => binding token.unplaced name.unplaced (value.map Expr.unplaced)
  | ret token value => ret token.unplaced (value.map Expr.unplaced)
  | bare _ expression => bare (.ofSpelling (.eof, "")) expression.unplaced

def shape : Statement → Statement
  | binding token name value =>
    binding (.ofSpelling (.letKeyword, token.literal)) name.shape (value.map Expr.shape)
  | ret token value => ret (.ofSpelling (.returnKeyword, token.literal)) (value.map Expr.shape)
  | bare _ expression => bare (.ofSpelling (.eof, "")) expression.shape

def WellFormed : Statement → Prop
  | binding token name value =>
    token.literal = "let" ∧ IsName name.name ∧ ∃ e, value = some e ∧ e.WellFormed
  | ret token value => token.literal = "return" ∧ ∀ e ∈ value, e.WellFormed
  | bare _ expression => expression.WellFormed

def expression? : Statement → Option Expr
  | binding _ _ value => value
  | ret _ value => value
  | bare _ expression => some expression

theorem WellFormed.spelled {s : Statement} (h : s.WellFormed) : s.Spelled := by
  cases s with
  | binding token name value =>
    obtain ⟨hlet, hname, e, rfl, he⟩ := h
    refine ⟨hlet, hname, fun e' he' => ?_⟩
    obtain rfl := Option.some.inj he'
    exact he.spelled
  | ret token value => exact ⟨h.1, fun e he => (h.2 e he).spelled⟩
  | bare token expression => exact Expr.WellFormed.spelled h

/-- The printed text of a statement depends on its shape alone. -/
theorem print_shape (s : Statement) : s.shape.print = s.print := by
  cases s with
  | binding token name value =>
    cases value with
    | none => rfl
    | some e => simp [shape, print, printValue, e.print_shape, Token.ofSpelling, Identifier.shape]
  | ret token value =>
    cases value with
    | none => rfl
    | some e => simp [shape, print, printValue, e.print_shape, Token.ofSpelling]
  | bare token expression => exact expression.print_shape

theorem separator_shape (s : Statement) : s.shape.separator = s.separator := by
  cases s <;> rfl

end Statement

namespace Program

def unplaced (p : Program) : Program := ⟨p.statements.map Statement.unplaced⟩

def shape (p : Program) : Program := ⟨p.statements.map Statement.shape⟩

theorem pieces_shape (statements : List Statement) :
    pieces (statements.map Statement.shape) = pieces statements := by
  induction statements using pieces.induct with
  | case1 => rfl
  | case2 last => simp only [List.map_cons, List.map_nil, pieces, last.print_shape]
  | case3 s rest hrest ih =>
    rw [List.map_cons, pieces, pieces, ih, s.print_shape, s.separator_shape]
    · exact hrest
    · simpa using hrest

theorem print_shape (p : Program) : p.shape.print = p.print := by
  rw [print, print, shape, pieces_shape]

end Program

namespace Phrase

theorem operator_literal {operator : Operator} (h : operator.val.IsLexical) :
    (operator.val.literal = "!" ∨ operator.val.literal = "-") ∧
      operator.val.kind = operatorKind operator.val.literal := by
  rcases operator.property with hkind | hkind
  · have hword : operator.val.kind.spelling? = some "!" := by rw [hkind]; rfl
    have hliteral := literal_of_spelling h hword
    exact ⟨.inl hliteral, by rw [hkind, hliteral]; rfl⟩
  · have hword : operator.val.kind.spelling? = some "-" := by rw [hkind]; rfl
    have hliteral := literal_of_spelling h hword
    exact ⟨.inr hliteral, by rw [hkind, hliteral]; rfl⟩

theorem wellFormed_tree {p : Phrase} (h : ∀ t ∈ p.tokens, t.IsLexical) : p.tree.WellFormed := by
  induction p with
  | name t => exact isName_of_kind_ident (h t.val (by simp [tokens])) t.property
  | integer t =>
    exact ⟨isNumber_of_kind_int (h t.val (by simp [tokens])) t.property.1, rfl, t.property.2⟩
  | unary operator operand ih =>
    have hoperator := h operator.val (by simp [tokens])
    exact ⟨(operator_literal hoperator).1, ih fun t ht => h t (by simp [tokens, ht])⟩
  | group opening inner closing ih => exact ih fun t ht => h t (by simp [tokens, ht])

/-- The tree of scanned tokens has nothing but positions beyond its shape. -/
theorem unplaced_tree {p : Phrase} (h : ∀ t ∈ p.tokens, t.IsLexical) :
    p.tree.unplaced = p.tree.shape := by
  induction p with
  | name t => simp [tree, Expr.unplaced, Expr.shape, Identifier.unplaced, Identifier.shape,
      Token.unplaced, Token.spelling, t.property]
  | integer t => simp [tree, Expr.unplaced, Expr.shape, Token.unplaced, Token.spelling, t.property.1]
  | unary operator operand ih =>
    have hoperator := h operator.val (by simp [tokens])
    have hoperand := ih fun t ht => h t (by simp [tokens, ht])
    simp [tree, Expr.unplaced, Expr.shape, Token.unplaced, Token.spelling, hoperand,
      ← (operator_literal hoperator).2]
  | group opening inner closing ih => exact ih fun t ht => h t (by simp [tokens, ht])

end Phrase

namespace Sentence

theorem mem_tokens_of_mem_body {s : Sentence} {t : Token} (h : t ∈ s.body) : t ∈ s.tokens :=
  List.mem_append_left _ h

theorem keyword_literal {kind : TokenKind} {word : String} (keyword : Terminal kind)
    (hword : kind.spelling? = some word) (h : keyword.val.IsLexical) : keyword.val.literal = word :=
  literal_of_spelling h (by rw [keyword.property, hword])

/-- A statement that is read from scanned tokens means what its texts say. -/
theorem wellFormed_tree {s : Sentence} (h : ∀ t ∈ s.body, t.IsLexical) : s.tree.WellFormed := by
  cases s with
  | binding keyword name sign value close =>
    refine ⟨keyword_literal keyword rfl (h _ (by simp [body])),
      isName_of_kind_ident (h name.val (by simp [body])) name.property, value.tree, rfl, ?_⟩
    exact Phrase.wellFormed_tree fun t ht => h t (by simp [body, ht])
  | ret keyword value close =>
    refine ⟨keyword_literal keyword rfl (h _ (by simp [body])), fun e he => ?_⟩
    obtain rfl := Option.some.inj he
    exact Phrase.wellFormed_tree fun t ht => h t (by simp [body, ht])
  | emptyRet keyword close =>
    exact ⟨keyword_literal keyword rfl (h _ (by simp [body])), by simp⟩
  | bare value close => exact Phrase.wellFormed_tree h

/-- The tree of a statement has nothing but positions beyond its shape either. -/
theorem unplaced_tree {s : Sentence} (h : ∀ t ∈ s.body, t.IsLexical) :
    s.tree.unplaced = s.tree.shape := by
  cases s with
  | binding keyword name sign value close =>
    have hvalue := Phrase.unplaced_tree (p := value) fun t ht => h t (by simp [body, ht])
    simp [tree, Statement.unplaced, Statement.shape, Token.unplaced, Token.spelling,
      Identifier.unplaced, Identifier.shape, keyword.property, name.property, hvalue]
  | ret keyword value close =>
    have hvalue := Phrase.unplaced_tree (p := value) fun t ht => h t (by simp [body, ht])
    simp [tree, Statement.unplaced, Statement.shape, Token.unplaced, Token.spelling,
      keyword.property, hvalue]
  | emptyRet keyword close =>
    simp [tree, Statement.unplaced, Statement.shape, Token.unplaced, Token.spelling,
      keyword.property]
  | bare value close =>
    have hvalue := Phrase.unplaced_tree (p := value) h
    simp [tree, Statement.unplaced, Statement.shape, hvalue]

end Sentence

end LetScript
