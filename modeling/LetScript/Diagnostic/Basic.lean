import LetScript.Source.Position
import LetScript.Text.Quoted
import LetScript.Token.Kind

/-!
Diagnostics: why a statement could not be read, and where.
-/
namespace LetScript

inductive Cause where
  | unexpectedToken (expected got : TokenKind)
  | noOpening (kind : TokenKind)
  | invalidInteger (literal : String)
  | nestingTooDeep (limit : Nat)
  deriving DecidableEq, Repr

structure Diagnostic where
  cause : Cause
  position : Position
  deriving DecidableEq, Repr

namespace Cause

def name : Cause → String
  | unexpectedToken _ _ => "UnexpectedToken"
  | noOpening _ => "NoPrefixHandler"
  | invalidInteger _ => "IntegerParse"
  | nestingTooDeep _ => "NestingTooDeep"

def message : Cause → String
  | unexpectedToken expected got =>
    "expected next token to be " ++ expected.name ++ ", got " ++ got.name
  | noOpening kind => "no prefix parse function for " ++ kind.name ++ " found"
  | invalidInteger literal => "could not parse " ++ Text.quoted literal ++ " as integer"
  | nestingTooDeep limit => "expression nests deeper than " ++ toString limit ++ " levels"

/-- Advice on how to mend the source, where there is any to give. -/
def tip? : Cause → Option String
  | unexpectedToken .assign _ => some "expected ASSIGN, did you forget `=`?"
  | unexpectedToken expected _ => some ("expected " ++ expected.name ++ " here")
  | noOpening .illegal => some "this character is not part of the language"
  | noOpening _ => none
  | invalidInteger literal =>
    some ("Invalid integer: `" ++ literal ++ "`, is it above the 64-bit integer limit?")
  | nestingTooDeep limit =>
    some ("expressions may nest at most " ++ toString limit ++ " levels deep")

end Cause

namespace Diagnostic

def message (d : Diagnostic) : String := d.cause.message

/-- The name of the cause, and the tip in parentheses if there is one. -/
def title (d : Diagnostic) : String :=
  match d.cause.tip? with
  | some tip => d.cause.name ++ " (" ++ tip ++ ")"
  | none => d.cause.name

end Diagnostic

end LetScript
