import LetScript.Proofs.Token.Scan

/-!
Tokens that are moved to other positions. Nothing else about them changes, and a text that is scanned
at another offset, or under another name, has its tokens moved and no others (`scan_relocate`), each
by the size of what stands before the text (`scan_shift`).
-/
namespace LetScript

open Text (byteLength)

variable (g : Position → Position)

def Span.relocate (s : Span) : Span := ⟨g s.start, g s.stop⟩

namespace Token

def relocate (t : Token) : Token := { t with span := t.span.relocate g }

@[simp] theorem kind_relocate (t : Token) : (t.relocate g).kind = t.kind := rfl

@[simp] theorem literal_relocate (t : Token) : (t.relocate g).literal = t.literal := rfl

@[simp] theorem start_relocate (t : Token) : (t.relocate g).start = g t.start := rfl

theorem IsLexical.relocate {t : Token} (h : t.IsLexical) : (t.relocate g).IsLexical := h

/-- The first of some tokens, or the end of the input when there are none, is moved with them. -/
theorem headD_map_relocate (tokens : List Token) (stop : Position) :
    (tokens.map (relocate g)).headD (.endOfInput (g stop)) =
      (tokens.headD (.endOfInput stop)).relocate g := by
  cases tokens <;> rfl

variable {g}

theorem relocate_ofLexeme {offset offset' : Nat} {file file' : String} {text : List Char}
    (hstart : g (.ofOffset offset file) = .ofOffset offset' file')
    (hstop : g (.ofOffset (offset + byteLength text) file) =
      .ofOffset (offset' + byteLength text) file') :
    (ofLexeme offset file text).relocate g = ofLexeme offset' file' text := by
  simp only [relocate, Span.relocate, ofLexeme, hstart, hstop]

end Token

variable {g}

/-- The scan of a text moves with the text. -/
theorem Scanner.scan_relocate {text : List Char} {offset offset' : Nat} {file file' : String}
    (h : ∀ i ≤ byteLength text, g (.ofOffset (offset + i) file) = .ofOffset (offset' + i) file') :
    (Scanner.mk text offset' file').scan =
      ((Scanner.mk text offset file).scan.1.map (Token.relocate g),
        g (Scanner.mk text offset file).scan.2) := by
  induction text using text_induction generalizing offset offset' with
  | nil =>
    have hstart := h 0 (Nat.zero_le _)
    rw [scan_nil, scan_nil, List.map_nil]
    exact congrArg (Prod.mk []) hstart.symm
  | gap c rest hc ih =>
    rw [Text.byteLength_cons] at h
    rw [scan_gap_cons hc, scan_gap_cons hc]
    refine ih fun i hi => ?_
    rw [Nat.add_assoc, Nat.add_assoc]
    exact h _ (by omega)
  | lexeme text rest htext hapart ih =>
    rw [Text.byteLength_append] at h
    have hrest : ∀ i ≤ byteLength rest,
        g (.ofOffset (offset + byteLength text + i) file) =
          .ofOffset (offset' + byteLength text + i) file' := by
      intro i hi
      rw [Nat.add_assoc, Nat.add_assoc]
      exact h _ (by omega)
    have hfirst : (Token.ofLexeme offset file text).relocate g = .ofLexeme offset' file' text :=
      Token.relocate_ofLexeme (h 0 (by omega)) (h _ (by omega))
    rw [scan_lexeme htext hapart, scan_lexeme htext hapart, ih hrest, List.map_cons, hfirst]

/-- The place so many bytes further on. -/
def Position.shift (size : Nat) (p : Position) : Position := { p with offset := size + p.offset }

theorem Position.shift_ofOffset {size offset : Nat} (h : size + offset ≤ maxOffset) (file : String) :
    shift size (ofOffset offset file) = ofOffset (size + offset) file := by
  rw [ofOffset_of_le h, ofOffset_of_le (by omega), shift]

theorem Scanner.scan_shift {text : List Char} {size : Nat}
    (h : size + byteLength text ≤ Position.maxOffset) (file : String) :
    (Scanner.mk text size file).scan =
      ((Scanner.mk text 0 file).scan.1.map (Token.relocate (.shift size)),
        Position.shift size (Scanner.mk text 0 file).scan.2) := by
  apply scan_relocate
  intro i hi
  rw [Nat.zero_add, Position.shift_ofOffset (by omega)]

end LetScript
