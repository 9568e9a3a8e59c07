/-!
Kinds of tokens. A word is a keyword or an identifier, a run of digits is an integer, and a symbol
is one character; any other character is illegal.
-/
namespace LetScript

inductive TokenKind where
  | illegal
  | eof
  | ident
  | int
  | assign | plus | minus | bang | asterisk | slash
  | lt | gt
  | comma | semicolon
  | lparen | rparen | lbrace | rbrace
  | fnKeyword | letKeyword | returnKeyword | trueKeyword | falseKeyword | ifKeyword | elseKeyword
  deriving DecidableEq, Repr

namespace TokenKind

/-- Every kind, in the order in which kinds are listed. -/
def all : List TokenKind :=
  [illegal, eof, ident, int, assign, plus, minus, bang, asterisk, slash, lt, gt, comma, semicolon,
    lparen, rparen, lbrace, rbrace, fnKeyword, letKeyword, returnKeyword, trueKeyword, falseKeyword,
    ifKeyword, elseKeyword]

def name : TokenKind → String
  | illegal => "ILLEGAL"
  | eof => "EOF"
  | ident => "IDENT"
  | int => "INT"
  | assign => "ASSIGN"
  | plus => "PLUS"
  | minus => "MINUS"
  | bang => "BANG"
  | asterisk => "ASTERISK"
  | slash => "SLASH"
  | lt => "LT"
  | gt => "GT"
  | comma => "COMMA"
  | semicolon => "SEMICOLON"
  | lparen => "LPAREN"
  | rparen => "RPAREN"
  | lbrace => "LBRACE"
  | rbrace => "RBRACE"
  | fnKeyword => "FUNCTION"
  | letKeyword => "LET"
  | returnKeyword => "RETURN"
  | trueKeyword => "TRUE"
  | falseKeyword => "FALSE"
  | ifKeyword => "IF"
  | elseKeyword => "ELSE"

/-- The kind that has the name. -/
def ofName? (name : String) : Option TokenKind := all.find? (·.name = name)

/-- Every kind is listed, and no two have one name. -/
theorem ofName?_eq_some_iff {name : String} {kind : TokenKind} :
    ofName? name = some kind ↔ kind.name = name := by
  constructor
  · intro h
    simpa using List.find?_some h
  · rintro rfl
    cases kind <;> decide +kernel

def keyword? : String → Option TokenKind
  | "fn" => some fnKeyword
  | "let" => some letKeyword
  | "return" => some returnKeyword
  | "true" => some trueKeyword
  | "false" => some falseKeyword
  | "if" => some ifKeyword
  | "else" => some elseKeyword
  | _ => none

/-- A word that is no keyword is an identifier. -/
def ofWord (word : String) : TokenKind := (keyword? word).getD ident

def ofSymbol? : Char → Option TokenKind
  | '=' => some assign
  | ';' => some semicolon
  | '(' => some lparen
  | ')' => some rparen
  | ',' => some comma
  | '+' => some plus
  | '-' => some minus
  | '!' => some bang
  | '*' => some asterisk
  | '/' => some slash
  | '<' => some lt
  | '>' => some gt
  | '{' => some lbrace
  | '}' => some rbrace
  | _ => none

end TokenKind

end LetScript
