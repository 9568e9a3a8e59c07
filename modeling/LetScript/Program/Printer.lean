import LetScript.Program.Basic

/-!
Printing trees. Operators are always put in parentheses with their operand, so the printed text shows
the tree. Statements stand on lines of their own; a bare expression gets a semicolon only when a
statement follows it, since the two would run into each other without one.
-/
namespace LetScript

/-- A number is printed by its digits in the source, not by its value. -/
def Expr.print : Expr → String
  | ident identifier => identifier.name
  | int token _ => token.literal
  | unary _ operator operand => "(" ++ operator ++ operand.print ++ ")"

namespace Statement

def printValue (value : Option Expr) : String := (value.map Expr.print).getD ""

def print : Statement → String
  | binding token name value =>
    token.literal ++ " " ++ name.name ++ " = " ++ printValue value ++ ";"
  | ret token value => token.literal ++ " " ++ printValue value ++ ";"
  | bare _ expression => expression.print

/-- What stands between a statement and the next one. -/
def separator : Statement → String
  | bare _ _ => ";\n"
  | _ => "\n"

end Statement

namespace Program

def pieces : List Statement → List String
  | [] => []
  | [last] => [last.print]
  | statement :: rest => (statement.print ++ statement.separator) :: pieces rest

def print (p : Program) : String := String.join (pieces p.statements)

end Program

end LetScript
