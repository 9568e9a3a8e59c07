import LetScript.Proofs.Token.Scan
import Mathlib.Data.List.Chain

/-!
What the tokens of a text are, said without a scan and without what a scan tests characters with. A
text is cut into pieces, each a gap and the token behind it, and a gap at the end; each token has the
kind that its text spells and the bytes of its text for a span, and no two runs of one class touch.
Exactly one list of tokens is such (`isTokenization_iff`).
-/
namespace LetScript

open Text (byteLength)

/-- The characters that gaps consist of. -/
def IsSpacing (c : Char) : Prop := c = ' ' ∨ c = '\t' ∨ c = '\n' ∨ c = '\r'

/-- The characters that words consist of. -/
def IsWordChar (c : Char) : Prop := ('A' ≤ c ∧ c ≤ 'Z') ∨ ('a' ≤ c ∧ c ≤ 'z') ∨ c = '_'

/-- The characters that numbers consist of. -/
def IsNumeral (c : Char) : Prop := '0' ≤ c ∧ c ≤ '9'

/-- The characters that stand for themselves. -/
def IsLone (c : Char) : Prop := ¬ IsSpacing c ∧ ¬ IsWordChar c ∧ ¬ IsNumeral c

section

variable {c : Char}

theorem isGap_iff : isGap c = true ↔ IsSpacing c := by
  simp only [isGap, IsSpacing, Bool.or_eq_true, beq_iff_eq, or_assoc]

theorem isLetter_iff : isLetter c = true ↔ IsWordChar c := by
  change (decide ('A' ≤ c ∧ c ≤ 'Z') || (decide ('a' ≤ c) && decide (c ≤ 'z')) || c == '_') = true ↔ _
  simp only [IsWordChar, Bool.or_eq_true, Bool.and_eq_true, decide_eq_true_eq, beq_iff_eq, or_assoc]

theorem isDigit_iff : c.isDigit = true ↔ IsNumeral c := by
  change (decide ('0' ≤ c) && decide (c ≤ '9')) = true ↔ _
  simp only [IsNumeral, Bool.and_eq_true, decide_eq_true_eq]

theorem charClass_iff : charClass c = .other ↔ IsLone c := by
  rw [IsLone, ← isGap_iff, ← isLetter_iff, ← isDigit_iff, charClass]
  split_ifs <;> simp_all

end

/-- A word, a number, or one character that stands for itself. -/
inductive IsSpelling : List Char → Prop where
  | word {text : List Char} : text ≠ [] → (∀ c ∈ text, IsWordChar c) → IsSpelling text
  | number {text : List Char} : text ≠ [] → (∀ c ∈ text, IsNumeral c) → IsSpelling text
  | lone {c : Char} : IsLone c → IsSpelling [c]

/-- The scanner takes just these as one token. -/
theorem isLexeme_iff {text : List Char} : IsLexeme text ↔ IsSpelling text := by
  constructor
  · intro h
    cases h with
    | word hne hall => exact .word hne fun c hc => isLetter_iff.mp (hall c hc)
    | number hne hall => exact .number hne fun c hc => isDigit_iff.mp (hall c hc)
    | symbol hc => exact .lone (charClass_iff.mp hc)
  · intro h
    cases h with
    | word hne hall => exact .word hne fun c hc => isLetter_iff.mpr (hall c hc)
    | number hne hall => exact .number hne fun c hc => isDigit_iff.mpr (hall c hc)
    | lone hc => exact .symbol (charClass_iff.mpr hc)

/-- No keyword and no symbol is written so. -/
def Unreserved (text : String) : Prop := ∀ kind : TokenKind, kind.spelling? ≠ some text

/-- The texts of a kind. Keywords and symbols have one text each; of the other texts, runs of letters
are identifiers, runs of digits are integers, and the characters left over are illegal. -/
inductive TokenKind.Spells : TokenKind → String → Prop where
  | reserved {kind : TokenKind} {text : String} : kind.spelling? = some text → Spells kind text
  | name {text : String} : text.toList ≠ [] → (∀ c ∈ text.toList, IsWordChar c) →
      Unreserved text → Spells .ident text
  | number {text : String} : text.toList ≠ [] → (∀ c ∈ text.toList, IsNumeral c) →
      Spells .int text
  | other {c : Char} : IsLone c → Unreserved (String.singleton c) →
      Spells .illegal (String.singleton c)

theorem spelling?_of_keyword? {word : String} {kind : TokenKind}
    (h : TokenKind.keyword? word = some kind) : kind.spelling? = some word := by
  unfold TokenKind.keyword? at h
  split at h <;> cases h <;> rfl

theorem spelling?_of_ofSymbol? {c : Char} {kind : TokenKind}
    (h : TokenKind.ofSymbol? c = some kind) : kind.spelling? = some (String.singleton c) := by
  unfold TokenKind.ofSymbol? at h
  split at h <;> cases h <;> rfl

theorem lexemeKind_of_spelling? {kind : TokenKind} {text : String}
    (h : kind.spelling? = some text) : lexemeKind text.toList = kind := by
  cases kind <;> cases h <;> rfl

theorem Unreserved.ofWord {text : String} (h : Unreserved text) : TokenKind.ofWord text = .ident := by
  cases hkind : TokenKind.keyword? text with
  | none => rw [TokenKind.ofWord, hkind, Option.getD_none]
  | some kind => exact absurd (spelling?_of_keyword? hkind) (h kind)

theorem Unreserved.ofSymbol? {c : Char} (h : Unreserved (String.singleton c)) :
    TokenKind.ofSymbol? c = none := by
  cases hkind : TokenKind.ofSymbol? c with
  | none => rfl
  | some kind => exact absurd (spelling?_of_ofSymbol? hkind) (h kind)

/-- A text has no kind but the kind of its lexeme. -/
theorem TokenKind.Spells.eq_lexemeKind {kind : TokenKind} {text : String} (h : kind.Spells text) :
    kind = lexemeKind text.toList := by
  cases h with
  | reserved h => exact (lexemeKind_of_spelling? h).symm
  | name hne hall hfree =>
    rw [lexemeKind_word hne fun c hc => isLetter_iff.mpr (hall c hc), String.ofList_toList,
      hfree.ofWord]
  | number hne hall => rw [lexemeKind_number hne fun c hc => isDigit_iff.mpr (hall c hc)]
  | other hc hfree =>
    rw [String.toList_singleton, lexemeKind_symbol (charClass_iff.mpr hc), hfree.ofSymbol?,
      Option.getD_none]

/-- A text whose lexeme has a kind of many texts is not reserved. -/
theorem unreserved_of_lexemeKind {text : List Char} (h : (lexemeKind text).spelling? = none) :
    Unreserved (String.ofList text) := by
  intro kind hkind
  have hlexeme := lexemeKind_of_spelling? hkind
  rw [String.toList_ofList] at hlexeme
  rw [← hlexeme, h] at hkind
  cases hkind

/-- A lexeme has the kind that its text spells. -/
theorem spells_lexemeKind {text : List Char} (h : IsLexeme text) :
    (lexemeKind text).Spells (String.ofList text) := by
  cases h with
  | word hne hall =>
    have hlexeme := lexemeKind_word hne hall
    rw [TokenKind.ofWord] at hlexeme
    cases hkind : TokenKind.keyword? (String.ofList text) with
    | some kind =>
      rw [hlexeme, hkind]
      exact .reserved (spelling?_of_keyword? hkind)
    | none =>
      rw [hkind, Option.getD_none] at hlexeme
      have hfree : Unreserved (String.ofList text) := unreserved_of_lexemeKind (by rw [hlexeme]; rfl)
      rw [hlexeme]
      exact .name (by simpa using hne) (by simpa [← isLetter_iff] using hall) hfree
  | number hne hall =>
    rw [lexemeKind_number hne hall]
    exact .number (by simpa using hne) (by simpa [← isDigit_iff] using hall)
  | @symbol c hc =>
    have hlexeme := lexemeKind_symbol hc
    cases hkind : TokenKind.ofSymbol? c with
    | some kind =>
      rw [hlexeme, hkind, ← String.singleton_eq_ofList]
      exact .reserved (spelling?_of_ofSymbol? hkind)
    | none =>
      rw [hkind, Option.getD_none] at hlexeme
      have hfree : Unreserved (String.ofList [c]) := unreserved_of_lexemeKind (by rw [hlexeme]; rfl)
      rw [hlexeme, ← String.singleton_eq_ofList]
      exact .other (charClass_iff.mp hc) (by rwa [String.singleton_eq_ofList])

/-- A gap, and the token behind it. -/
structure Piece where
  gap : List Char
  token : Token

namespace Piece

/-- The text of the token. -/
def word (p : Piece) : List Char := p.token.literal.toList

def text (p : Piece) : List Char := p.gap ++ p.word

/-- Nothing stands between the two tokens, and they are runs of one class. -/
def RunsInto (p q : Piece) : Prop :=
  q.gap = [] ∧ (((∀ c ∈ p.word, IsWordChar c) ∧ ∀ c ∈ q.word, IsWordChar c) ∨
    ((∀ c ∈ p.word, IsNumeral c) ∧ ∀ c ∈ q.word, IsNumeral c))

/-- The bytes of a text that stands at an offset, as far as 32 bits can tell. -/
def spanAt (file : String) (offset : Nat) (text : List Char) : Span :=
  ⟨⟨min offset 0xFFFFFFFF, file⟩, ⟨min (offset + byteLength text) 0xFFFFFFFF, file⟩⟩

/-- From the offset on, each token has the bytes of its text for a span. -/
def Placed (file : String) : Nat → List Piece → Prop
  | _, [] => True
  | offset, p :: pieces => p.token.span = spanAt file (offset + byteLength p.gap) p.word ∧
      Placed file (offset + byteLength p.text) pieces

end Piece

/-- The text at an offset is cut into pieces, with a gap behind the last. -/
structure Cut (file : String) (offset : Nat) (text : List Char) (pieces : List Piece)
    (trailing : List Char) : Prop where
  text_eq : text = pieces.flatMap Piece.text ++ trailing
  gaps : ∀ p ∈ pieces, ∀ c ∈ p.gap, IsSpacing c
  trailing_gap : ∀ c ∈ trailing, IsSpacing c
  words : ∀ p ∈ pieces, IsSpelling p.word
  chain : pieces.IsChain fun p q => ¬ p.RunsInto q
  placed : Piece.Placed file offset pieces
  kinds : ∀ p ∈ pieces, p.token.kind.Spells p.token.literal

/-- The tokens of the pieces of a source, and the end of the input. -/
def IsTokenization (source : String) (file : Option String) (tokens : List Token) : Prop :=
  ∃ pieces trailing, Cut (file.getD "shell") 0 source.toList pieces trailing ∧
    (∀ p ∈ pieces, p.token.kind ≠ .eof) ∧
      tokens = pieces.map Piece.token ++
        [⟨.eof, "", Piece.spanAt (file.getD "shell") source.utf8ByteSize []⟩]

/-- A lexeme with a letter in it is a run of letters. -/
theorem IsLexeme.all_isLetter {text : List Char} (h : IsLexeme text) {c : Char} (hc : c ∈ text)
    (hletter : isLetter c = true) : ∀ d ∈ text, isLetter d = true := by
  cases h with
  | word _ hall => exact hall
  | number _ hall => simp [isLetter_of_isDigit (hall c hc)] at hletter
  | symbol hclass =>
    obtain rfl := List.mem_singleton.mp hc
    exact absurd hletter (Bool.eq_false_iff.mp (isLetter_of_other hclass))

/-- A lexeme with a digit in it is a run of digits. -/
theorem IsLexeme.all_isDigit {text : List Char} (h : IsLexeme text) {c : Char} (hc : c ∈ text)
    (hdigit : c.isDigit = true) : ∀ d ∈ text, d.isDigit = true := by
  cases h with
  | word _ hall => exact absurd (hall c hc) (by simp [isLetter_of_isDigit hdigit])
  | number _ hall => exact hall
  | symbol hclass =>
    obtain rfl := List.mem_singleton.mp hc
    exact absurd hdigit (Bool.eq_false_iff.mp (isDigit_of_other hclass))

theorem joins_gap {c d : Char} (hd : isGap d = true) : joins c d = false := by
  refine Bool.eq_false_iff.mpr fun hj => ?_
  rcases joins_iff.mp hj with h | h
  · simp [isGap_of_isLetter h.2] at hd
  · simp [isGap_of_isDigit h.2] at hd

/-- Of two lexemes that touch, the one joins the other only if they are runs of one class. -/
theorem Piece.joins_word {p q : Piece} (hp : IsLexeme p.word) (hq : IsLexeme q.word)
    (hgap : q.gap = []) (h : ¬ p.RunsInto q) {c d : Char} (hc : c ∈ p.word) (hd : d ∈ q.word) :
    joins c d = false := by
  refine Bool.eq_false_iff.mpr fun hj => h ⟨hgap, ?_⟩
  exact (joins_iff.mp hj).imp
    (fun hletter => ⟨fun c h => isLetter_iff.mp (hp.all_isLetter hc hletter.1 c h),
      fun d h => isLetter_iff.mp (hq.all_isLetter hd hletter.2 d h)⟩)
    fun hdigit => ⟨fun c h => isDigit_iff.mp (hp.all_isDigit hc hdigit.1 c h),
      fun d h => isDigit_iff.mp (hq.all_isDigit hd hdigit.2 d h)⟩

/-- A token ends before the next piece unless it runs into the token of that piece. -/
theorem Piece.apart_iff {p q : Piece} (hp : IsLexeme p.word) (hq : IsLexeme q.word)
    (hgap : ∀ c ∈ q.gap, isGap c = true) (rest : List Char) :
    Apart p.word (q.text ++ rest) ↔ ¬ p.RunsInto q := by
  constructor
  · rintro hapart ⟨hnone, hrun⟩
    obtain ⟨c, hc⟩ := Option.isSome_iff_exists.mp (List.getLast?_isSome.mpr hp.ne_nil)
    obtain ⟨d, hd⟩ := Option.isSome_iff_exists.mp (List.isSome_head?.mpr hq.ne_nil)
    have hhead : d ∈ (q.text ++ rest).head? := by
      rw [text, hnone, List.nil_append]
      exact List.mem_head?_append_of_mem_head? hd
    have hjoins := hapart c hc d hhead
    have hcword := List.mem_of_getLast? hc
    have hdword := List.mem_of_mem_head? hd
    rcases hrun with hrun | hrun
    · rw [joins_of_isLetter (isLetter_iff.mpr (hrun.1 c hcword))
        (isLetter_iff.mpr (hrun.2 d hdword))] at hjoins
      cases hjoins
    · rw [joins_of_isDigit (isDigit_iff.mpr (hrun.1 c hcword))
        (isDigit_iff.mpr (hrun.2 d hdword))] at hjoins
      cases hjoins
  · intro h c hc d hd
    cases hfirst : q.gap with
    | cons g gap =>
      rw [text, hfirst] at hd
      obtain rfl : g = d := Option.some.inj hd
      exact joins_gap (hgap g (by simp [hfirst]))
    | nil =>
      rw [text, hfirst, List.nil_append, List.head?_append_of_ne_nil _ hq.ne_nil] at hd
      exact joins_word hp hq hfirst h (List.mem_of_getLast? hc) (List.mem_of_mem_head? hd)

theorem Piece.token_eq {p : Piece} {file : String} {offset : Nat}
    (hkind : p.token.kind.Spells p.token.literal)
    (hspan : p.token.span = spanAt file offset p.word) :
    p.token = .ofLexeme offset file p.word := by
  obtain ⟨gap, kind, literal, span⟩ := p
  have hk : kind = lexemeKind literal.toList := hkind.eq_lexemeKind
  have hs : span = spanAt file offset literal.toList := hspan
  rw [hk, hs, Token.ofLexeme, word, String.ofList_toList]
  rfl

namespace Cut

variable {file : String} {offset : Nat} {text : List Char} {p : Piece} {pieces : List Piece}
  {trailing : List Char}

theorem isGap_of_mem (h : Cut file offset text pieces trailing) (hp : p ∈ pieces) :
    ∀ c ∈ p.gap, isGap c = true := fun c hc => isGap_iff.mpr (h.gaps p hp c hc)

theorem isGap_trailing (h : Cut file offset text pieces trailing) :
    ∀ c ∈ trailing, isGap c = true := fun c hc => isGap_iff.mpr (h.trailing_gap c hc)

theorem isLexeme_word (h : Cut file offset text pieces trailing) (hp : p ∈ pieces) :
    IsLexeme p.word := isLexeme_iff.mpr (h.words p hp)

theorem tail (h : Cut file offset text (p :: pieces) trailing) :
    Cut file (offset + byteLength p.text) (pieces.flatMap Piece.text ++ trailing) pieces trailing where
  text_eq := rfl
  gaps := fun q hq => h.gaps q (List.mem_cons_of_mem p hq)
  trailing_gap := h.trailing_gap
  words := fun q hq => h.words q (List.mem_cons_of_mem p hq)
  chain := h.chain.tail
  placed := h.placed.2
  kinds := fun q hq => h.kinds q (List.mem_cons_of_mem p hq)

/-- Each token ends where the scan would end it. -/
theorem apart (h : Cut file offset text (p :: pieces) trailing) :
    Apart p.word (pieces.flatMap Piece.text ++ trailing) := by
  cases pieces with
  | nil =>
    intro c _ d hd
    exact joins_gap (h.isGap_trailing d (List.mem_of_mem_head? hd))
  | cons q pieces =>
    rw [List.flatMap_cons, List.append_assoc]
    have hrel : ¬ p.RunsInto q := h.chain.rel_head? rfl
    have hq : q ∈ p :: q :: pieces := by simp
    exact (Piece.apart_iff (h.isLexeme_word List.mem_cons_self) (h.isLexeme_word hq)
      (h.isGap_of_mem hq) _).mpr hrel

/-- A scan yields the tokens of the pieces. -/
theorem scan_eq (h : Cut file offset text pieces trailing) :
    (Scanner.mk text offset file).scan.1 = pieces.map Piece.token := by
  induction pieces generalizing offset text with
  | nil =>
    have htext : text = trailing ++ [] := by simpa using h.text_eq
    rw [htext, Scanner.scan_gap h.isGap_trailing, Scanner.scan_nil]
    rfl
  | cons p pieces ih =>
    have htext : text = p.gap ++ (p.word ++ (pieces.flatMap Piece.text ++ trailing)) := by
      simpa [Piece.text] using h.text_eq
    have hsize : offset + byteLength p.gap + byteLength p.word = offset + byteLength p.text := by
      rw [Piece.text, Text.byteLength_append, Nat.add_assoc]
    have htoken := Piece.token_eq (h.kinds p (by simp)) h.placed.1
    rw [htext, Scanner.scan_gap (h.isGap_of_mem List.mem_cons_self),
      Scanner.scan_lexeme (h.isLexeme_word List.mem_cons_self) h.apart, List.map_cons, ← htoken, hsize,
      ih h.tail]

theorem nil (file : String) (offset : Nat) : Cut file offset [] [] [] where
  text_eq := rfl
  gaps := by simp
  trailing_gap := by simp
  words := by simp
  chain := .nil
  placed := trivial
  kinds := by simp

/-- A gap character before a text belongs to its first piece, or to the gap at its end. -/
theorem exists_gap {c : Char} (hc : isGap c = true)
    (h : Cut file (offset + c.utf8Size) text pieces trailing) :
    ∃ pieces trailing, Cut file offset (c :: text) pieces trailing := by
  cases pieces with
  | nil =>
    refine ⟨[], c :: trailing, ?_⟩
    exact { nil file offset with
      text_eq := by simp [h.text_eq]
      trailing_gap := List.forall_mem_cons.mpr ⟨isGap_iff.mp hc, h.trailing_gap⟩ }
  | cons p pieces =>
    refine ⟨⟨c :: p.gap, p.token⟩ :: pieces, trailing, ?_⟩
    have hspan := h.placed.1
    have hplaced := h.placed.2
    have hkinds := List.forall_mem_cons.mp h.kinds
    have hwords := List.forall_mem_cons.mp h.words
    have hgaps := List.forall_mem_cons.mp h.gaps
    exact {
      text_eq := by simp [h.text_eq, Piece.text, Piece.word]
      gaps := List.forall_mem_cons.mpr
        ⟨List.forall_mem_cons.mpr ⟨isGap_iff.mp hc, hgaps.1⟩, hgaps.2⟩
      trailing_gap := h.trailing_gap
      words := List.forall_mem_cons.mpr hwords
      chain := List.isChain_cons.mpr (List.isChain_cons.mp h.chain)
      placed := ⟨by simpa [Piece.word, Nat.add_assoc] using hspan,
        by simpa [Piece.word, Piece.text, Nat.add_assoc] using hplaced⟩
      kinds := List.forall_mem_cons.mpr hkinds }

/-- A lexeme before a text from which it is apart is a piece of its own. -/
theorem cons_lexeme {word rest : List Char} (hword : IsLexeme word) (hapart : Apart word rest)
    (h : Cut file (offset + byteLength word) rest pieces trailing) :
    Cut file offset (word ++ rest) (⟨[], .ofLexeme offset file word⟩ :: pieces) trailing := by
  have htext : (Piece.mk [] (.ofLexeme offset file word)).word = word := String.toList_ofList
  have hlexeme : IsLexeme (Piece.mk [] (.ofLexeme offset file word)).word := by rwa [htext]
  have hfirst : ∀ q ∈ pieces.head?, ¬ (Piece.mk [] (.ofLexeme offset file word)).RunsInto q := by
    intro q hq
    obtain ⟨later, rfl⟩ : ∃ later, pieces = q :: later := List.head?_eq_some_iff.mp hq
    rw [h.text_eq, List.flatMap_cons, List.append_assoc, ← htext] at hapart
    exact (Piece.apart_iff hlexeme (h.isLexeme_word List.mem_cons_self)
      (h.isGap_of_mem List.mem_cons_self) _).mp hapart
  constructor
  case text_eq => simp [Piece.text, htext, h.text_eq]
  case gaps => exact List.forall_mem_cons.mpr ⟨by simp, h.gaps⟩
  case trailing_gap => exact h.trailing_gap
  case words => exact List.forall_mem_cons.mpr ⟨isLexeme_iff.mp hlexeme, h.words⟩
  case chain => exact List.isChain_cons.mpr ⟨hfirst, h.chain⟩
  case placed =>
    constructor
    · rw [htext]
      rfl
    · rw [Piece.text, htext]
      exact h.placed
  case kinds => exact List.forall_mem_cons.mpr ⟨spells_lexemeKind hword, h.kinds⟩

theorem exists_cut (file : String) (offset : Nat) (text : List Char) :
    ∃ pieces trailing, Cut file offset text pieces trailing := by
  induction text using text_induction generalizing offset with
  | nil => exact ⟨[], [], nil file offset⟩
  | gap c rest hc ih =>
    obtain ⟨pieces, trailing, h⟩ := ih (offset + c.utf8Size)
    exact exists_gap hc h
  | lexeme word rest hword hapart ih =>
    obtain ⟨pieces, trailing, h⟩ := ih (offset + byteLength word)
    exact ⟨_, trailing, cons_lexeme hword hapart h⟩

theorem kind_ne_eof (h : Cut file offset text pieces trailing) :
    ∀ p ∈ pieces, p.token.kind ≠ .eof := by
  intro p hp
  rw [(h.kinds p hp).eq_lexemeKind]
  exact lexemeKind_ne_eof (h.isLexeme_word hp)

end Cut

theorem tokenize_of_cut {source : String} {file : Option String} {pieces : List Piece}
    {trailing : List Char} (h : Cut (file.getD "shell") 0 source.toList pieces trailing) :
    tokenize source file = pieces.map Piece.token ++
      [⟨.eof, "", Piece.spanAt (file.getD "shell") source.utf8ByteSize []⟩] := by
  rw [tokenize_eq_scan, h.scan_eq]
  rfl

/-- The tokens of a source are the one list of tokens that its text determines. -/
theorem isTokenization_iff (source : String) (file : Option String) (tokens : List Token) :
    IsTokenization source file tokens ↔ tokens = tokenize source file := by
  constructor
  · rintro ⟨pieces, trailing, hcut, -, rfl⟩
    exact (tokenize_of_cut hcut).symm
  · rintro rfl
    obtain ⟨pieces, trailing, hcut⟩ := Cut.exists_cut (file.getD "shell") 0 source.toList
    exact ⟨pieces, trailing, hcut, hcut.kind_ne_eof, tokenize_of_cut hcut⟩

end LetScript
