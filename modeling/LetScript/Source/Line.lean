import LetScript.Text.Basic

/-!
Lines of a source. Each line but the last ends in its line feed, and the last has none: a source
that ends in a line feed has an empty last line. `place?` finds the line of a byte offset, and fails
exactly on offsets past the end.
-/
namespace LetScript.Source

open Text

/-- The lines of a text, each with the line feed that ends it. -/
def lines (text : List Char) : List (List Char) := splitAfter (· == '\n') text

/-- A line by its number, counted from one, and an offset counted in bytes from its start. -/
structure Place where
  number : Nat
  line : List Char
  offset : Nat
  deriving DecidableEq, Repr

/-- The place of an offset in lines of which the first has the given number. An offset at the very
end belongs to the last line. -/
def placeIn (number : Nat) : List (List Char) → Nat → Option Place
  | [], _ => none
  | [last], offset => if offset ≤ byteLength last then some ⟨number, last, offset⟩ else none
  | line :: rest, offset =>
    if offset < byteLength line then some ⟨number, line, offset⟩
    else placeIn (number + 1) rest (offset - byteLength line)

def place? (text : List Char) (offset : Nat) : Option Place := placeIn 1 (lines text) offset

end LetScript.Source
