import LetScript.Diagnostic.Basic
import LetScript.Source.Line
import LetScript.Text.Basic

/-!
Diagnostics shown against their source: two lines of heading, then the source line with a caret
under the offending column. Indentation is left out of the shown line, so the caret's column counts
from the first character that is neither space nor tab. A position inside a character has no
column, and a caret too far to the right cannot be set: for these nothing can be rendered.
-/
namespace LetScript

open Text (byteLength takeBytes? trimEnd)

def isIndent (c : Char) : Bool := c == ' ' || c == '\t'

/-- A source line as it is shown, and how many characters stand left of the caret. -/
structure Excerpt where
  number : Nat
  shown : List Char
  column : Nat
  deriving DecidableEq, Repr

namespace Excerpt

/-- A place inside the indentation is shown at the first column. -/
def ofPlace? (place : Source.Place) : Option Excerpt :=
  let indent := (place.line.takeWhile isIndent).length
  (takeBytes? (max place.offset indent) place.line).map fun before =>
    ⟨place.number, trimEnd (place.line.drop indent), before.length - indent⟩

def rows (e : Excerpt) : List String :=
  let number := toString e.number
  let margin := "".pushn ' ' (number.length + 1) ++ "|"
  [margin,
    number ++ " | " ++ String.ofList e.shown,
    margin ++ " " ++ "".pushn '-' e.column ++ "^"]

/-- The largest width to which a text can be padded: the largest number of 16 bits. -/
def maxWidth : Nat := 0xFFFF

/-- The caret is padded with the dashes left of it, so it has to stand within the largest width. -/
def rows? (e : Excerpt) : Option (List String) :=
  if e.column + 1 ≤ maxWidth then some e.rows else none

end Excerpt

namespace Diagnostic

def heading (d : Diagnostic) : List String :=
  ["Error: " ++ d.title, "-> " ++ d.position.file]

/-- The message stands in for the excerpt when the position is past the end of the source. -/
def body? (d : Diagnostic) (source : String) : Option (List String) :=
  match Source.place? source.toList d.position.offset with
  | none => some ["   " ++ d.message]
  | some place => (Excerpt.ofPlace? place).bind Excerpt.rows?

def render? (d : Diagnostic) (source : String) : Option String :=
  (d.body? source).map fun body =>
    String.join ((d.heading ++ body).map (· ++ "\n"))

end Diagnostic

end LetScript
