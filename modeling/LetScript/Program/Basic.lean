import LetScript.Token.Basic

/-!
Programs as trees. Every node keeps the token that introduced it, beside what the token means: a
name, a number, an operator. Nothing forces the two to agree, so trees can be built by hand.
-/
namespace LetScript

structure Identifier where
  token : Token
  name : String
  deriving DecidableEq, Repr

inductive Expr where
  | ident (identifier : Identifier)
  | int (token : Token) (value : Int)
  | unary (token : Token) (operator : String) (operand : Expr)
  deriving DecidableEq, Repr

inductive Statement where
  | binding (token : Token) (name : Identifier) (value : Option Expr)
  | ret (token : Token) (value : Option Expr)
  | bare (token : Token) (expression : Expr)
  deriving DecidableEq, Repr

structure Program where
  statements : List Statement
  deriving DecidableEq, Repr

namespace Expr

def token : Expr → Token
  | ident identifier => identifier.token
  | int token _ => token
  | unary token _ _ => token

/-- How many operators stand above the leaf. -/
def height : Expr → Nat
  | ident _ => 0
  | int _ _ => 0
  | unary _ _ operand => operand.height + 1

end Expr

namespace Statement

def token : Statement → Token
  | binding token _ _ => token
  | ret token _ => token
  | bare token _ => token

end Statement

/-- The text of the token that introduced the first statement, empty when there is none. -/
def Program.literal (p : Program) : String := (p.statements.head?.map (·.token.literal)).getD ""

end LetScript
