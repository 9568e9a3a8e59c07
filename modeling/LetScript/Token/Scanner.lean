import LetScript.Text.Basic
import LetScript.Token.Basic

/-!
The scanner cuts a text into tokens. Gaps are skipped, a run of letters or of digits is taken as
far as it goes, and any other character is a token of its own. Past the last token the scanner
yields the end of the input for ever. A scan ends because each token takes at least one character
off the front (`length_rest_next_lt`).
-/
namespace LetScript

open Text (byteLength)

inductive CharClass where
  | gap | letter | digit | other
  deriving DecidableEq, Repr

def isGap (c : Char) : Bool := c == ' ' || c == '\t' || c == '\n' || c == '\r'

def isLetter (c : Char) : Bool := c.isAlpha || c == '_'

def charClass (c : Char) : CharClass :=
  if isGap c then .gap else if isLetter c then .letter else if c.isDigit then .digit else .other

/-- What stands at the front of a text that begins with `c`: a run of the class of `c` when that
is letters or digits, else `c` alone. -/
def lexeme (c : Char) (rest : List Char) : List Char :=
  match charClass c with
  | .letter => c :: rest.takeWhile isLetter
  | .digit => c :: rest.takeWhile Char.isDigit
  | _ => [c]

def kindOfLexeme (c : Char) (literal : String) : TokenKind :=
  match charClass c with
  | .letter => .ofWord literal
  | .digit => .int
  | _ => (TokenKind.ofSymbol? c).getD .illegal

/-- What is left to scan, and how many bytes stood before it. -/
structure Scanner where
  rest : List Char
  offset : Nat
  file : String
  deriving DecidableEq, Repr

namespace Scanner

/-- The name of a source that was given none. -/
def unnamed : String := "shell"

def ofSource (source : String) (file : Option String) : Scanner :=
  ⟨source.toList, 0, file.getD unnamed⟩

def position (s : Scanner) : Position := .ofOffset s.offset s.file

/-- Nothing is left, not even a gap. -/
def atEnd (s : Scanner) : Bool := s.rest.isEmpty

/-- Moves past the first characters of the rest. -/
def drop (s : Scanner) (count : Nat) : Scanner :=
  { s with rest := s.rest.drop count, offset := s.offset + byteLength (s.rest.take count) }

def skipGap (s : Scanner) : Scanner := s.drop (s.rest.takeWhile isGap).length

/-- The token that stands at the front, with no gap before it, and the scanner past it. -/
def cut (s : Scanner) : Token × Scanner :=
  match s.rest with
  | [] => (.endOfInput s.position, s)
  | c :: rest =>
    let text := lexeme c rest
    let literal := String.ofList text
    let after := s.drop text.length
    (⟨kindOfLexeme c literal, literal, ⟨s.position, after.position⟩⟩, after)

/-- The next token, and the scanner past it. -/
def next (s : Scanner) : Token × Scanner := s.skipGap.cut

theorem length_rest_drop_le (s : Scanner) (count : Nat) :
    (s.drop count).rest.length ≤ s.rest.length := by
  simp [drop]

theorem length_lexeme_pos (c : Char) (rest : List Char) : 0 < (lexeme c rest).length := by
  unfold lexeme
  split <;> simp

theorem length_rest_cut_le (s : Scanner) : s.cut.2.rest.length ≤ s.rest.length := by
  unfold cut
  split
  · exact Nat.le_refl _
  · exact length_rest_drop_le _ _

theorem length_rest_cut_lt (s : Scanner) (h : s.cut.1.kind ≠ .eof) :
    s.cut.2.rest.length < s.rest.length := by
  unfold cut at h ⊢
  split
  · simp_all
  · rename_i c rest hrest
    have := length_lexeme_pos c rest
    simp only [drop, hrest, List.length_drop, List.length_cons]
    omega

theorem length_rest_next_le (s : Scanner) : s.next.2.rest.length ≤ s.rest.length :=
  Nat.le_trans (length_rest_cut_le _) (length_rest_drop_le _ _)

/-- A token that is not the end of the input takes at least one character off the front. -/
theorem length_rest_next_lt (s : Scanner) (h : s.next.1.kind ≠ .eof) :
    s.next.2.rest.length < s.rest.length :=
  Nat.lt_of_lt_of_le (length_rest_cut_lt _ h) (length_rest_drop_le _ _)

/-- The tokens before the end of the input, and where the end is. -/
def scan (s : Scanner) : List Token × Position :=
  let step := s.next
  if _h : step.1.kind = .eof then ([], step.1.start)
  else
    let (tokens, stop) := step.2.scan
    (step.1 :: tokens, stop)
termination_by s.rest.length
decreasing_by exact length_rest_next_lt s _h

/-- The rest of the tokens, up to the end of the input and with it. -/
def tokens (s : Scanner) : List Token :=
  let (tokens, stop) := s.scan
  tokens ++ [.endOfInput stop]

end Scanner

/-- All tokens of a source, the end of the input last. -/
def tokenize (source : String) (file : Option String) : List Token :=
  (Scanner.ofSource source file).tokens

end LetScript
