import LetScript.Token.Kind

/-!
The tables of the grammar: how tightly a token binds, which tokens open an expression and by which
rule, which tokens continue one, and which form a statement has by its first token.
-/
namespace LetScript

/-- Levels of binding, from the loosest to the tightest. -/
inductive Precedence where
  | lowest | equals | lessGreater | sum | product | unary | call
  deriving DecidableEq, Repr

namespace Precedence

/-- The levels in their order. -/
def all : List Precedence := [lowest, equals, lessGreater, sum, product, unary, call]

def rank (p : Precedence) : Nat := all.idxOf p

instance : LT Precedence := ⟨fun a b => a.rank < b.rank⟩

instance (a b : Precedence) : Decidable (a < b) := inferInstanceAs (Decidable (a.rank < b.rank))

end Precedence

/-- The rules that an expression can begin with. -/
inductive Opening where
  | name | integer | unary | group
  deriving DecidableEq, Repr

/-- The rules that can extend an expression to the right. The language has none so far, though
its operators already have their precedence. -/
inductive Continuation where
  deriving DecidableEq, Repr

inductive StatementForm where
  | binding | ret | bare
  deriving DecidableEq, Repr

namespace TokenKind

def precedence : TokenKind → Precedence
  | lt | gt => .lessGreater
  | plus | minus => .sum
  | asterisk | slash => .product
  | lparen => .call
  | _ => .lowest

def opening? : TokenKind → Option Opening
  | ident => some .name
  | int => some .integer
  | bang | minus => some .unary
  | lparen => some .group
  | _ => none

def continuation? : TokenKind → Option Continuation
  | _ => none

/-- What begins with neither keyword is read as a bare expression. -/
def statementForm : TokenKind → StatementForm
  | letKeyword => .binding
  | returnKeyword => .ret
  | _ => .bare

end TokenKind

end LetScript
