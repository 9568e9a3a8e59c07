import LetScript.Proofs.Reading.Source
import Mathlib.Data.List.Flatten

/-!
The tokens that nodes hold. Of a statement that has been read, the nodes hold its tokens one by one and
in order, but for the punctuation (`Sentence.nodeTokens_tree`), and each node holds a token of the
kind that it stands for (`Sentence.matchesTokens_tree`). So the nodes of a program hold tokens of its
source and no others, and where there is nothing to complain about, all of them
(`nodeTokens_parseSource`).
-/
namespace LetScript

/-- The token has a node of its own. -/
def Token.hasNode (t : Token) : Bool := !t.isOneOf [.assign, .semicolon, .lparen, .rparen, .eof]

theorem Token.hasNode_iff {t : Token} : t.hasNode = true ↔
    t.kind ≠ .assign ∧ t.kind ≠ .semicolon ∧ t.kind ≠ .lparen ∧ t.kind ≠ .rparen ∧ t.kind ≠ .eof := by
  simp [hasNode, isOneOf]

namespace Expr

/-- Operators stand before their operands. -/
def nodeTokens : Expr → List Token
  | ident identifier => [identifier.token]
  | int token _ => [token]
  | unary token _ operand => token :: operand.nodeTokens

/-- Each node holds a token of its kind, and says what that token says. -/
def MatchesTokens : Expr → Prop
  | ident identifier => identifier.token.kind = .ident ∧ identifier.name = identifier.token.literal
  | int token _ => token.kind = .int
  | unary token operator operand =>
    (token.kind = .bang ∨ token.kind = .minus) ∧ operator = token.literal ∧ operand.MatchesTokens

end Expr

namespace Statement

/-- A bare expression begins with the token of its statement, or with a parenthesis before it, so the
token of the statement is not counted again. -/
def nodeTokens : Statement → List Token
  | binding token name value => token :: name.token :: value.elim [] Expr.nodeTokens
  | ret token value => token :: value.elim [] Expr.nodeTokens
  | bare _ expression => expression.nodeTokens

def MatchesTokens : Statement → Prop
  | binding token name value =>
    token.kind = .letKeyword ∧ name.token.kind = .ident ∧ name.name = name.token.literal ∧
      ∃ e, value = some e ∧ e.MatchesTokens
  | ret token value => token.kind = .returnKeyword ∧ ∀ e ∈ value, e.MatchesTokens
  | bare _ expression => expression.MatchesTokens

end Statement

def Program.nodeTokens (p : Program) : List Token := p.statements.flatMap Statement.nodeTokens

/-- An expression has a node for each of its tokens but the parentheses, in order. -/
theorem Phrase.nodeTokens_tree (p : Phrase) : p.tree.nodeTokens = p.tokens.filter Token.hasNode := by
  induction p with
  | name t => simp [tree, Expr.nodeTokens, tokens, Token.hasNode_iff, t.property]
  | integer t => simp [tree, Expr.nodeTokens, tokens, Token.hasNode_iff, t.property.1]
  | unary operator operand ih =>
    have hoperator : operator.val.hasNode = true := by
      rcases operator.property with hkind | hkind <;> simp [Token.hasNode_iff, hkind]
    rw [tree, Expr.nodeTokens, tokens, List.filter_cons_of_pos hoperator, ih]
  | group opening inner closing ih =>
    have hopening : ¬ opening.val.hasNode = true := by simp [Token.hasNode_iff, opening.property]
    have hclosing : ¬ closing.val.hasNode = true := by simp [Token.hasNode_iff, closing.property]
    rw [tree, tokens, List.filter_cons_of_neg hopening, List.filter_append,
      List.filter_cons_of_neg hclosing, List.filter_nil, List.append_nil, ih]

theorem Phrase.matchesTokens_tree (p : Phrase) : p.tree.MatchesTokens := by
  induction p with
  | name t => exact ⟨t.property, rfl⟩
  | integer t => exact t.property.1
  | unary operator operand ih => exact ⟨operator.property, rfl, ih⟩
  | group opening inner closing ih => exact ih

namespace Sentence

theorem filter_stop (s : Sentence) : s.stop?.toList.filter Token.hasNode = [] := by
  cases hstop : s.stop? with
  | none => rfl
  | some t =>
    have ht : ¬ t.hasNode = true := by simp [Token.hasNode_iff, kind_of_stop hstop]
    rw [Option.toList_some, List.filter_cons_of_neg ht, List.filter_nil]

/-- The nodes of a statement are those of its tokens that leave one, in order. -/
theorem nodeTokens_tree (s : Sentence) : s.tree.nodeTokens = s.tokens.filter Token.hasNode := by
  rw [tokens, List.filter_append, filter_stop, List.append_nil]
  cases s with
  | binding keyword name sign value stop =>
    simp [tree, Statement.nodeTokens, body, Token.hasNode_iff, keyword.property, name.property,
      sign.property, value.nodeTokens_tree]
  | ret keyword value stop =>
    simp [tree, Statement.nodeTokens, body, Token.hasNode_iff, keyword.property,
      value.nodeTokens_tree]
  | emptyRet keyword stop =>
    simp [tree, Statement.nodeTokens, body, Token.hasNode_iff, keyword.property]
  | bare value stop => exact value.nodeTokens_tree

theorem matchesTokens_tree (s : Sentence) : s.tree.MatchesTokens := by
  cases s with
  | binding keyword name sign value stop =>
    exact ⟨keyword.property, name.property, rfl, value.tree, rfl, value.matchesTokens_tree⟩
  | ret keyword value stop =>
    refine ⟨keyword.property, fun e he => ?_⟩
    obtain rfl := Option.some.inj he
    exact value.matchesTokens_tree
  | emptyRet keyword stop => exact ⟨keyword.property, by simp⟩
  | bare value stop => exact value.matchesTokens_tree

theorem token_tree (s : Sentence) : s.tree.token = s.first := by
  cases s <;> rfl

theorem nodeTokens_map_tree (d : List Sentence) :
    (d.map tree).flatMap Statement.nodeTokens = (d.flatMap tokens).filter Token.hasNode := by
  rw [List.flatMap_map, List.filter_flatMap]
  exact congrArg d.flatMap (funext nodeTokens_tree)

end Sentence

/-- A block that has been read begins with the token of its statement. -/
theorem Block.Fits.head_tokens {b : Block} {following : List Token} (h : b.Fits following)
    {s : Statement} (hs : b.statement? = some s) : b.tokens.head? = some s.token := by
  cases h with
  | sentence sentence _ _ _ =>
    obtain rfl := Option.some.inj hs
    change sentence.tokens.head? = some sentence.tree.token
    rw [sentence.tokens_eq_cons, sentence.token_tree, List.head?_cons]
  | closed | unclosed => cases hs

namespace Accounts

variable {blocks : List Block} {tokens : List Token}

/-- The nodes hold the tokens of the blocks that have been read. -/
theorem nodeTokens_statements (h : Accounts blocks tokens) :
    (blocks.filterMap Block.statement?).flatMap Statement.nodeTokens =
      ((blocks.filter (!·.failed)).flatMap Block.tokens).filter Token.hasNode := by
  obtain ⟨d, hd, -, htree⟩ := h.derives_statements
  rw [← htree, Sentence.nodeTokens_map_tree, hd.flatMap_tokens]

theorem matchesTokens_statements (h : Accounts blocks tokens) :
    ∀ s ∈ blocks.filterMap Block.statement?, s.MatchesTokens := by
  obtain ⟨d, -, -, htree⟩ := h.derives_statements
  rw [← htree]
  intro s hs
  obtain ⟨sentence, -, rfl⟩ := List.mem_map.mp hs
  exact sentence.matchesTokens_tree

end Accounts

/-- The end of the input has no node, so it can be left out of account. -/
theorem filter_hasNode_tokenize (source : String) (file : Option String) :
    (tokenize source file).filter Token.hasNode =
      (tokenize source file).dropLast.filter Token.hasNode := by
  rw [dropLast_tokenize, tokenize_eq, List.filter_append]
  exact List.append_nil _

/-- The nodes of a program hold tokens of the source, each at most once and in order: just those of
the blocks that have been read, without their punctuation. Each node holds a token of the kind that
it stands for, and the token of a statement is the first of its block. Without a diagnostic, all
tokens of the source but the punctuation are held. -/
theorem nodeTokens_parseSource (source : String) (file : Option String) :
    List.Sublist (parseSource source file).1.nodeTokens (tokenize source file) ∧
      (parseSource source file).1.nodeTokens =
        (((blocks source file).filter (!·.failed)).flatMap Block.tokens).filter Token.hasNode ∧
      (∀ s ∈ (parseSource source file).1.statements, s.MatchesTokens) ∧
      (parseSource source file).1.statements = (blocks source file).filterMap Block.statement? ∧
      (∀ b ∈ blocks source file, ∀ s ∈ b.statement?, b.tokens.head? = some s.token) ∧
      ((parseSource source file).2 = [] →
        (parseSource source file).1.nodeTokens = (tokenize source file).filter Token.hasNode) := by
  have haccounts := accounts_blocks source file
  have hstatements : (parseSource source file).1.statements =
      (blocks source file).filterMap Block.statement? := by rw [parseSource_eq]
  have hnodes : (parseSource source file).1.nodeTokens =
      (((blocks source file).filter (!·.failed)).flatMap Block.tokens).filter Token.hasNode := by
    rw [Program.nodeTokens, hstatements, haccounts.nodeTokens_statements]
  refine ⟨?_, hnodes, ?_, hstatements, ?_, fun hnil => ?_⟩
  · have hread : List.Sublist
        (((blocks source file).filter (!·.failed)).flatMap Block.tokens)
        (tokenize source file).dropLast := by
      rw [← haccounts.flatMap_tokens]
      exact List.filter_sublist.flatMap Block.tokens
    rw [hnodes]
    exact (List.filter_sublist.trans hread).trans (List.dropLast_sublist _)
  · rw [hstatements]
    exact haccounts.matchesTokens_statements
  · intro b hb s hs
    obtain ⟨following, hfits⟩ := haccounts.fits_of_mem b hb
    exact hfits.head_tokens hs
  · obtain ⟨d, hd, hlimit⟩ := derives_of_diagnostics_nil hnil
    rw [Program.nodeTokens, parseSource_of_derives hd hlimit, Sentence.nodeTokens_map_tree,
      hd.flatMap_tokens, filter_hasNode_tokenize]

/-- A source of every form of statement, with groups and operators, and nothing to complain about. -/
def spotless : String := "let a = (-b); !(7) ((c)); return -(-d) return;"

theorem nodeTokens_parseSource_spotless :
    (parseSource spotless none).2 = [] ∧
      (parseSource spotless none).1.nodeTokens.map Token.literal =
        ["let", "a", "-", "b", "!", "7", "c", "return", "-", "-", "d", "return"] ∧
      (parseSource spotless none).1.nodeTokens = (tokenize spotless none).filter Token.hasNode := by
  have hnil : (parseSource spotless none).2 = [] := by decide +kernel
  obtain ⟨-, -, -, -, -, hall⟩ := nodeTokens_parseSource spotless none
  exact ⟨hnil, by decide +kernel, hall hnil⟩

end LetScript
