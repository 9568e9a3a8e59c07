import LetScript.Proofs.Token.Scan

/-!
The spelling of a text: the kinds and texts of its tokens, without their positions. It depends on the
text alone (`map_spelling_scan`), and it is put together from the front of the text, one lexeme at a
time (`spellings_gap`, `spellings_word`, `spellings_number`, `spellings_symbol`).
-/
namespace LetScript

open Text (byteLength)

abbrev Spelling := TokenKind × String

def Token.spelling (t : Token) : Spelling := (t.kind, t.literal)

def spellings (text : List Char) : List Spelling :=
  (Scanner.mk text 0 Scanner.unnamed).scan.1.map Token.spelling

theorem spelling_ofLexeme (offset : Nat) (file : String) (text : List Char) :
    (Token.ofLexeme offset file text).spelling = (lexemeKind text, String.ofList text) := rfl

/-- Where a text stands and what its source is called has no influence on its spelling. -/
theorem map_spelling_scan (text : List Char) (offset : Nat) (file : String) :
    (Scanner.mk text offset file).scan.1.map Token.spelling = spellings text := by
  rw [spellings]
  generalize 0 = offset', Scanner.unnamed = file'
  induction text using text_induction generalizing offset offset' with
  | nil => rw [Scanner.scan_nil, Scanner.scan_nil]
  | gap c rest hc ih =>
    rw [Scanner.scan_gap_cons hc, Scanner.scan_gap_cons hc]
    exact ih _ _
  | lexeme text rest htext hapart ih =>
    rw [Scanner.scan_lexeme htext hapart, Scanner.scan_lexeme htext hapart, List.map_cons,
      List.map_cons, spelling_ofLexeme, spelling_ofLexeme, ih _ (offset' + byteLength text)]

/-- The tokens of a source are spelled as its text is, with the end of the input behind them. -/
theorem map_spelling_tokenize (source : String) (file : Option String) :
    (tokenize source file).map Token.spelling = spellings source.toList ++ [(.eof, "")] := by
  rw [tokenize_eq_scan, List.map_append, map_spelling_scan]
  rfl

@[simp] theorem spellings_nil : spellings [] = [] := by
  rw [spellings, Scanner.scan_nil, List.map_nil]

theorem spellings_gap {c : Char} (hc : isGap c = true) (rest : List Char) :
    spellings (c :: rest) = spellings rest := by
  rw [spellings, Scanner.scan_gap_cons hc, map_spelling_scan]

theorem spellings_lexeme {text rest : List Char} (h : IsLexeme text) (hrest : Apart text rest) :
    spellings (text ++ rest) = (lexemeKind text, String.ofList text) :: spellings rest := by
  rw [spellings, Scanner.scan_lexeme h hrest, List.map_cons, spelling_ofLexeme, map_spelling_scan]

/-- No letter and no digit stands at the front, so nothing runs into the text. -/
def Detached (text : List Char) : Prop := ∀ c ∈ text.head?, isLetter c = false ∧ c.isDigit = false

theorem detached_nil : Detached [] := by simp [Detached]

theorem detached_cons {c : Char} (hc : isLetter c = false ∧ c.isDigit = false) (rest : List Char) :
    Detached (c :: rest) := by
  simpa [Detached] using hc

theorem Detached.apart {rest : List Char} (h : Detached rest) (text : List Char) :
    Apart text rest := by
  intro c _ d hd
  simp [joins, h d hd]

/-- A symbol is a token whatever stands around it. -/
theorem spellings_symbol {c : Char} {kind : TokenKind} (hc : charClass c = .other)
    (hkind : TokenKind.ofSymbol? c = some kind) (rest : List Char) :
    spellings (c :: rest) = (kind, String.singleton c) :: spellings rest := by
  have hapart : Apart [c] rest := by
    simp [Apart, joins, isLetter_of_other hc, isDigit_of_other hc]
  rw [← List.singleton_append, spellings_lexeme (.symbol hc) hapart, lexemeKind_symbol hc, hkind]
  simp

theorem spellings_word {text : String} (hne : text.toList ≠ [])
    (hall : ∀ c ∈ text.toList, isLetter c = true) {rest : List Char} (hrest : Detached rest) :
    spellings (text.toList ++ rest) = (.ofWord text, text) :: spellings rest := by
  rw [spellings_lexeme (.word hne hall) (hrest.apart _), lexemeKind_word hne hall,
    String.ofList_toList]

theorem spellings_name {text : String} (h : IsName text) {rest : List Char}
    (hrest : Detached rest) : spellings (text.toList ++ rest) = (.ident, text) :: spellings rest := by
  rw [spellings_word h.1 h.2.1 hrest, TokenKind.ofWord, h.2.2]
  rfl

theorem spellings_number {text : String} (h : IsNumber text) {rest : List Char}
    (hrest : Detached rest) : spellings (text.toList ++ rest) = (.int, text) :: spellings rest := by
  rw [spellings_lexeme (.number h.1 h.2) (hrest.apart _), lexemeKind_number h.1 h.2,
    String.ofList_toList]

end LetScript
