import LetScript.Diagnostic.Basic
import LetScript.Program.Printer
import LetScript.Proofs.Token.Relocation

/-!
Trees and diagnostics that are moved to other positions. A tree is printed as before wherever its
tokens stand (`Program.print_relocate`).
-/
namespace LetScript

variable (g f : Position → Position)

def Identifier.relocate (i : Identifier) : Identifier := ⟨i.token.relocate g, i.name⟩

namespace Expr

def relocate : Expr → Expr
  | ident identifier => ident (identifier.relocate g)
  | int token value => int (token.relocate g) value
  | unary token operator operand => unary (token.relocate g) operator operand.relocate

theorem relocate_relocate (e : Expr) : (e.relocate g).relocate f = e.relocate (f ∘ g) := by
  induction e with
  | ident identifier => rfl
  | int token value => rfl
  | unary token operator operand ih =>
    simp only [relocate, ih]
    rfl

@[simp] theorem print_relocate (e : Expr) : (e.relocate g).print = e.print := by
  induction e with
  | ident identifier => rfl
  | int token value => rfl
  | unary token operator operand ih => simp only [relocate, print, ih]

end Expr

namespace Statement

def relocate : Statement → Statement
  | binding token name value =>
    binding (token.relocate g) (name.relocate g) (value.map (Expr.relocate g))
  | ret token value => ret (token.relocate g) (value.map (Expr.relocate g))
  | bare token expression => bare (token.relocate g) (expression.relocate g)

/-- Two moves of a statement are one move by both. -/
theorem relocate_relocate (s : Statement) : (s.relocate g).relocate f = s.relocate (f ∘ g) := by
  have hvalue (value : Option Expr) :
      (value.map (Expr.relocate g)).map (Expr.relocate f) = value.map (Expr.relocate (f ∘ g)) := by
    rw [Option.map_map]
    congr 1
    funext e
    exact e.relocate_relocate g f
  cases s with
  | binding token name value =>
    simp only [relocate, hvalue]
    rfl
  | ret token value =>
    simp only [relocate, hvalue]
    rfl
  | bare token expression =>
    simp only [relocate, Expr.relocate_relocate]
    rfl

theorem printValue_relocate (value : Option Expr) :
    printValue (value.map (Expr.relocate g)) = printValue value := by
  cases value with
  | none => rfl
  | some e => exact e.print_relocate g

@[simp] theorem print_relocate (s : Statement) : (s.relocate g).print = s.print := by
  cases s with
  | binding token name value =>
    simp only [relocate, print, printValue_relocate]
    rfl
  | ret token value =>
    simp only [relocate, print, printValue_relocate]
    rfl
  | bare token expression => exact expression.print_relocate g

@[simp] theorem separator_relocate (s : Statement) : (s.relocate g).separator = s.separator := by
  cases s <;> rfl

end Statement

namespace Program

def relocate (p : Program) : Program := ⟨p.statements.map (Statement.relocate g)⟩

theorem relocate_relocate (p : Program) : (p.relocate g).relocate f = p.relocate (f ∘ g) := by
  simp only [relocate, List.map_map]
  congr 2
  funext s
  exact s.relocate_relocate g f

theorem pieces_relocate (statements : List Statement) :
    pieces (statements.map (Statement.relocate g)) = pieces statements := by
  induction statements using pieces.induct with
  | case1 => rfl
  | case2 last => simp [pieces]
  | case3 s rest hrest ih =>
    rw [List.map_cons, pieces, pieces, ih, Statement.print_relocate, Statement.separator_relocate]
    · exact hrest
    · simpa using hrest

theorem print_relocate (p : Program) : (p.relocate g).print = p.print := by
  rw [print, relocate, pieces_relocate, print]

end Program

def Diagnostic.relocate (d : Diagnostic) : Diagnostic := { d with position := g d.position }

end LetScript
