import LetScript.Source.Position
import LetScript.Text.Quoted
import LetScript.Token.Kind

/-!
Tokens: a kind, the text the token was scanned from, and where that text stands. The end of the
input is a token with an empty text.
-/
namespace LetScript

structure Token where
  kind : TokenKind
  literal : String
  span : Span
  deriving DecidableEq, Repr

namespace Token

def start (t : Token) : Position := t.span.start

def endOfInput (stop : Position) : Token := ⟨.eof, "", ⟨stop, stop⟩⟩

@[simp] theorem kind_endOfInput (stop : Position) : (endOfInput stop).kind = .eof := rfl

/-- The kind, and the text in quotes. -/
def display (t : Token) : String := t.kind.name ++ " (" ++ Text.quoted t.literal ++ ")"

def isOneOf (t : Token) (kinds : List TokenKind) : Bool := kinds.contains t.kind

end Token

end LetScript
