import LetScript.Program.Printer
import LetScript.Proofs.Token.Spelling

/-!
The spelling of printed trees. A tree is spelled when its names, numbers, operators and keywords are
texts that the scanner takes for such; what is kept beside them does not matter. The printed text of
a spelled program has the spelling that the tree tells (`spellings_print`).
-/
namespace LetScript

/-- The kind of an operator, if its text is one. -/
def operatorKind (operator : String) : TokenKind := if operator = "!" then .bang else .minus

namespace Expr

def Spelled : Expr → Prop
  | ident identifier => IsName identifier.name
  | int token _ => IsNumber token.literal
  | unary _ operator operand => (operator = "!" ∨ operator = "-") ∧ operand.Spelled

/-- An operator is spelled with a pair of parentheses around it and its operand. -/
def spelling : Expr → List Spelling
  | ident identifier => [(.ident, identifier.name)]
  | int token _ => [(.int, token.literal)]
  | unary _ operator operand =>
    (.lparen, "(") :: (operatorKind operator, operator) :: (operand.spelling ++ [(.rparen, ")")])

end Expr

namespace Statement

def Spelled : Statement → Prop
  | binding token name value => token.literal = "let" ∧ IsName name.name ∧ ∀ e ∈ value, e.Spelled
  | ret token value => token.literal = "return" ∧ ∀ e ∈ value, e.Spelled
  | bare _ expression => expression.Spelled

def valueSpelling (value : Option Expr) : List Spelling := (value.map Expr.spelling).getD []

def spelling : Statement → List Spelling
  | binding _ name value =>
    (.letKeyword, "let") :: (.ident, name.name) :: (.assign, "=") ::
      (valueSpelling value ++ [(.semicolon, ";")])
  | ret _ value => (.returnKeyword, "return") :: (valueSpelling value ++ [(.semicolon, ";")])
  | bare _ expression => expression.spelling

/-- A bare expression has its semicolon from the separator. -/
def separatorSpelling : Statement → List Spelling
  | bare _ _ => [(.semicolon, ";")]
  | _ => []

end Statement

def Program.spellingOf : List Statement → List Spelling
  | [] => []
  | [last] => last.spelling
  | statement :: rest => statement.spelling ++ statement.separatorSpelling ++ spellingOf rest

def Program.spelling (p : Program) : List Spelling := spellingOf p.statements

theorem spellings_operator {operator : String} (h : operator = "!" ∨ operator = "-")
    (rest : List Char) :
    spellings (operator.toList ++ rest) = (operatorKind operator, operator) :: spellings rest := by
  rcases h with rfl | rfl
  · exact spellings_symbol (by decide) rfl rest
  · exact spellings_symbol (by decide) rfl rest

theorem spellings_paren_open (rest : List Char) :
    spellings ("(".toList ++ rest) = (.lparen, "(") :: spellings rest :=
  spellings_symbol (by decide) rfl rest

theorem spellings_paren_close (rest : List Char) :
    spellings (")".toList ++ rest) = (.rparen, ")") :: spellings rest :=
  spellings_symbol (by decide) rfl rest

theorem spellings_semicolon (rest : List Char) :
    spellings (";".toList ++ rest) = (.semicolon, ";") :: spellings rest :=
  spellings_symbol (by decide) rfl rest

theorem Expr.spellings_print {e : Expr} (h : e.Spelled) {rest : List Char}
    (hrest : Detached rest) : spellings (e.print.toList ++ rest) = e.spelling ++ spellings rest := by
  induction e generalizing rest with
  | ident identifier => exact spellings_name h hrest
  | int token value => exact spellings_number h hrest
  | unary token operator operand ih =>
    have hclose : Detached (")".toList ++ rest) := detached_cons (by decide) rest
    simp only [print, spelling, String.toList_append, List.append_assoc]
    rw [spellings_paren_open, spellings_operator h.1, ih h.2 hclose, spellings_paren_close]
    simp

theorem spellings_space (rest : List Char) :
    spellings (" ".toList ++ rest) = spellings rest := spellings_gap (by decide) rest

theorem spellings_newline (rest : List Char) :
    spellings ("\n".toList ++ rest) = spellings rest := spellings_gap (by decide) rest

/-- A sign between blanks. -/
theorem spellings_sign (rest : List Char) :
    spellings (" = ".toList ++ rest) = (.assign, "=") :: spellings rest := by
  change spellings (' ' :: '=' :: ' ' :: rest) = _
  rw [spellings_gap (by decide), spellings_symbol (by decide) rfl, spellings_gap (by decide)]
  rfl

theorem ofWord_let : TokenKind.ofWord "let" = .letKeyword := rfl

theorem ofWord_return : TokenKind.ofWord "return" = .returnKeyword := rfl

namespace Statement

theorem spellings_keyword {text : String} {kind : TokenKind} (hne : text.toList ≠ [])
    (hall : text.toList.all isLetter = true) (hkind : TokenKind.ofWord text = kind)
    (rest : List Char) :
    spellings (text.toList ++ (" ".toList ++ rest)) = (kind, text) :: spellings rest := by
  have hspace : Detached (" ".toList ++ rest) := detached_cons (by decide) rest
  rw [spellings_word hne (List.all_eq_true.mp hall) hspace, hkind, spellings_space]

theorem spellings_value {value : Option Expr} (h : ∀ e ∈ value, e.Spelled) (rest : List Char) :
    spellings ((printValue value).toList ++ (";".toList ++ rest)) =
      valueSpelling value ++ (.semicolon, ";") :: spellings rest := by
  have hsemi : Detached (";".toList ++ rest) := detached_cons (by decide) rest
  cases value with
  | none => exact spellings_semicolon rest
  | some e =>
    change spellings (e.print.toList ++ _) = _
    rw [Expr.spellings_print (h e rfl) hsemi, spellings_semicolon]
    rfl

/-- A printed statement is scanned as its spelling, before any text that continues no token. -/
theorem spellings_print {s : Statement} (h : s.Spelled) {rest : List Char}
    (hrest : Detached rest) : spellings (s.print.toList ++ rest) = s.spelling ++ spellings rest := by
  cases s with
  | binding token name value =>
    obtain ⟨hlet, hname, hvalue⟩ := h
    have hsign : Detached (" = ".toList ++ ((printValue value).toList ++ (";".toList ++ rest))) :=
      detached_cons (by decide) _
    simp only [print, spelling, String.toList_append, List.append_assoc, hlet]
    rw [spellings_keyword (by decide) (by decide) ofWord_let, spellings_name hname hsign, spellings_sign,
      spellings_value hvalue]
    simp
  | ret token value =>
    obtain ⟨hreturn, hvalue⟩ := h
    simp only [print, spelling, String.toList_append, List.append_assoc, hreturn]
    rw [spellings_keyword (by decide) (by decide) ofWord_return, spellings_value hvalue]
    simp
  | bare token expression => exact Expr.spellings_print h hrest

/-- What separates a statement from the next continues no token and is scanned as its own spelling. -/
theorem spellings_separator (s : Statement) (rest : List Char) :
    Detached (s.separator.toList ++ rest) ∧
      spellings (s.separator.toList ++ rest) = s.separatorSpelling ++ spellings rest := by
  have hnewline : Detached ("\n".toList ++ rest) := detached_cons (by decide) rest
  cases s with
  | bare token expression =>
    have hsplit : ";\n".toList ++ rest = ";".toList ++ ("\n".toList ++ rest) := rfl
    rw [separator, hsplit]
    refine ⟨detached_cons (by decide) _, ?_⟩
    rw [spellings_semicolon, spellings_newline]
    rfl
  | binding token name value => exact ⟨hnewline, spellings_newline rest⟩
  | ret token value => exact ⟨hnewline, spellings_newline rest⟩

end Statement

/-- The printed text of a spelled program has the spelling of the program. -/
theorem Program.spellings_print (p : Program) (h : ∀ s ∈ p.statements, s.Spelled) :
    spellings p.print.toList = p.spelling := by
  obtain ⟨statements⟩ := p
  change ∀ s ∈ statements, s.Spelled at h
  change spellings (String.join (pieces statements)).toList = spellingOf statements
  induction statements using pieces.induct with
  | case1 => exact spellings_nil
  | case2 last =>
    have hlast := Statement.spellings_print (h last List.mem_cons_self) detached_nil
    simpa [pieces, spellingOf] using hlast
  | case3 s rest hrest ih =>
    obtain ⟨hdetached, hseparator⟩ := s.spellings_separator (String.join (pieces rest)).toList
    rw [pieces, spellingOf, String.join_cons, String.toList_append, String.toList_append,
      List.append_assoc, Statement.spellings_print (h s List.mem_cons_self) hdetached, hseparator,
      ih fun s hs => h s (List.mem_cons_of_mem _ hs), List.append_assoc]
    · exact hrest
    · exact hrest

/-- The tokens of the printed text are those that the tree tells, with the end of the input behind
them: no two pieces of the text run together, and no name is taken for a keyword. -/
theorem Program.tokenize_print (p : Program) (file : Option String)
    (h : ∀ s ∈ p.statements, s.Spelled) :
    (tokenize p.print file).map Token.spelling = p.spelling ++ [(.eof, "")] := by
  rw [map_spelling_tokenize, p.spellings_print h]

/-- A token that tells nothing but its text. -/
def Token.loose (text : String) : Token := ⟨.illegal, text, ⟨.null, .null⟩⟩

/-- A program built by hand, with a name that begins like a keyword and a value left out. -/
def Program.mosaic : Program :=
  ⟨[.binding (.loose "let") ⟨.loose "", "letter"⟩ none,
    .bare (.loose "") (.unary (.loose "") "!" (.unary (.loose "") "-" (.int (.loose "007") 0))),
    .ret (.loose "return") (some (.ident ⟨.loose "", "_"⟩)),
    .bare (.loose "") (.ident ⟨.loose "", "_"⟩)]⟩

theorem Program.tokenize_print_mosaic : (∀ s ∈ Program.mosaic.statements, s.Spelled) ∧
    Program.mosaic.print = "let letter = ;\n(!(-007));\nreturn _;\n_" ∧
    (tokenize Program.mosaic.print none).map Token.spelling =
      [(.letKeyword, "let"), (.ident, "letter"), (.assign, "="), (.semicolon, ";"),
        (.lparen, "("), (.bang, "!"), (.lparen, "("), (.minus, "-"), (.int, "007"), (.rparen, ")"),
        (.rparen, ")"), (.semicolon, ";"), (.returnKeyword, "return"), (.ident, "_"),
        (.semicolon, ";"), (.ident, "_"), (.eof, "")] := by
  have hletter : IsName "letter" := ⟨by decide, List.all_eq_true.mp (by decide), rfl⟩
  have hunderscore : IsName "_" := ⟨by decide, List.all_eq_true.mp (by decide), rfl⟩
  have hnumber : IsNumber "007" := ⟨by decide, List.all_eq_true.mp (by decide)⟩
  have hspelled : ∀ s ∈ Program.mosaic.statements, s.Spelled := by
    simp only [Program.mosaic, List.forall_mem_cons, List.not_mem_nil, false_imp_iff, implies_true]
    refine ⟨⟨rfl, hletter, by simp⟩, ⟨.inl rfl, .inr rfl, hnumber⟩, ⟨rfl, ?_⟩, hunderscore, trivial⟩
    intro e he
    rw [← Option.some.inj he]
    exact hunderscore
  exact ⟨hspelled, by decide +kernel, Program.tokenize_print Program.mosaic none hspelled⟩

end LetScript
