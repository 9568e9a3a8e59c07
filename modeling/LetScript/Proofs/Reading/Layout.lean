import LetScript.Proofs.Reading.Diagnosis
import LetScript.Proofs.Reading.Relocation
import LetScript.Proofs.Token.Spelling
import Mathlib.Data.List.Forall2

/-!
Layout. Two sources whose tokens are spelled alike are read alike, wherever their tokens stand
(`parseSource_layout`). Both are one list of tokens that tell nothing of a source but their index,
moved to the one source and to the other, and reading does not look at positions.
-/
namespace LetScript

namespace Position

def startOf (index : Nat) : Position := ⟨index, "start"⟩

def stopOf (index : Nat) : Position := ⟨index, "stop"⟩

/-- Where the token of an index begins or ends. -/
def lookup (tokens : List Token) (p : Position) : Position :=
  match tokens[p.offset]? with
  | none => null
  | some t => if p.file = "start" then t.span.start else t.span.stop

variable {tokens : List Token} {i : Nat} {t : Token}

theorem lookup_startOf (h : tokens[i]? = some t) : lookup tokens (startOf i) = t.span.start := by
  simp [lookup, startOf, h]

theorem lookup_stopOf (h : tokens[i]? = some t) : lookup tokens (stopOf i) = t.span.stop := by
  simp [lookup, stopOf, h]

end Position

open Position (lookup)

def Token.atIndex (index : Nat) (t : Token) : Token :=
  { t with span := ⟨.startOf index, .stopOf index⟩ }

theorem Token.relocate_atIndex {tokens : List Token} {i : Nat} {t : Token}
    (h : tokens[i]? = some t) : (t.atIndex i).relocate (lookup tokens) = t := by
  simp only [atIndex, relocate, Span.relocate, Position.lookup_startOf h, Position.lookup_stopOf h]

def enumerate (tokens : List Token) : List Token := tokens.mapIdx Token.atIndex

theorem relocate_enumerate (tokens rest : List Token) :
    (enumerate tokens).map (Token.relocate (lookup (tokens ++ rest))) = tokens := by
  apply List.ext_getElem
  · simp [enumerate]
  · intro i _ hi
    have hlookup : (tokens ++ rest)[i]? = some tokens[i] := by
      rw [List.getElem?_append_left hi, List.getElem?_eq_getElem hi]
    simp only [enumerate, List.getElem_map, List.getElem_mapIdx]
    exact Token.relocate_atIndex hlookup

/-- Tokens that are spelled alike differ in nothing but where they stand. -/
theorem enumerate_congr {tokens₁ tokens₂ : List Token}
    (h : tokens₁.map Token.spelling = tokens₂.map Token.spelling) :
    enumerate tokens₁ = enumerate tokens₂ := by
  have hlength := congrArg List.length h
  rw [List.length_map, List.length_map] at hlength
  apply List.ext_getElem
  · simp [enumerate, hlength]
  · intro i hi hi'
    have hi₁ : i < tokens₁.length := by simpa [enumerate] using hi
    have hi₂ : i < tokens₂.length := by simpa [enumerate] using hi'
    have hspelling : tokens₁[i].spelling = tokens₂[i].spelling := by
      have h := List.getElem_of_eq h (i := i) (by simpa using hi₁)
      simpa using h
    obtain ⟨hkind, hliteral⟩ := Prod.mk.inj hspelling
    simp only [enumerate, List.getElem_mapIdx, Token.atIndex, hkind, hliteral]

namespace Cursor

def enumerated (c : Cursor) : Cursor := ⟨enumerate c.ahead, .startOf c.ahead.length, 0⟩

theorem relocate_enumerated {c : Cursor} (hdepth : c.depth = 0) :
    c.enumerated.relocate (lookup c.upToEnd) = c := by
  have hend : c.upToEnd[c.ahead.length]? = some (.endOfInput c.stop) := by simp [upToEnd]
  have hstop : lookup c.upToEnd (.startOf c.ahead.length) = c.stop := Position.lookup_startOf hend
  obtain ⟨ahead, stop, depth⟩ := c
  obtain rfl : depth = 0 := hdepth
  simp only [relocate, enumerated, hstop]
  rw [upToEnd, relocate_enumerate]

/-- Cursors whose tokens are spelled alike are one cursor, moved to two places. -/
theorem exists_common {c₁ c₂ : Cursor} (hdepth₁ : c₁.depth = 0) (hdepth₂ : c₂.depth = 0)
    (h : c₁.ahead.map Token.spelling = c₂.ahead.map Token.spelling) :
    ∃ (c : Cursor) (g₁ g₂ : Position → Position),
      c.depth = 0 ∧ c₁ = c.relocate g₁ ∧ c₂ = c.relocate g₂ := by
  have hlength : c₁.ahead.length = c₂.ahead.length := by simpa using congrArg List.length h
  have hsame : c₁.enumerated = c₂.enumerated := by
    rw [enumerated, enumerated, enumerate_congr h, hlength]
  have h₂ := relocate_enumerated hdepth₂
  rw [← hsame] at h₂
  exact ⟨c₁.enumerated, lookup c₁.upToEnd, lookup c₂.upToEnd, rfl,
    (relocate_enumerated hdepth₁).symm, h₂.symm⟩

theorem upToEnd_relocate (g : Position → Position) (c : Cursor) :
    (c.relocate g).upToEnd = c.upToEnd.map (Token.relocate g) := by
  simp only [upToEnd, relocate, List.map_append]
  rfl

end Cursor

/-- The two diagnostics have the same cause, and stand at the tokens of one index. -/
def Diagnostic.Alike (tokens₁ tokens₂ : List Token) (d₁ d₂ : Diagnostic) : Prop :=
  d₁.cause = d₂.cause ∧ ∃ (i : Nat) (t₁ t₂ : Token),
    tokens₁[i]? = some t₁ ∧ tokens₂[i]? = some t₂ ∧
      d₁.position = t₁.start ∧ d₂.position = t₂.start

namespace Position

/-- Every position is forgotten. -/
def erase : Position → Position := fun _ => null

/-- The same place in a source of that name. -/
def inFile (name : String) (p : Position) : Position := { p with file := name }

end Position

namespace Cursor

/-- Of one cursor that is moved to two places, the diagnostics are alike. -/
theorem alike_relocate (g₁ g₂ : Position → Position) {c : Cursor} (hlex : c.Lexical)
    (hdepth : c.depth = 0) :
    List.Forall₂ (Diagnostic.Alike (c.relocate g₁).upToEnd (c.relocate g₂).upToEnd)
      (c.relocate g₁).reading.2 (c.relocate g₂).reading.2 := by
  rw [reading_relocate g₁ c hlex hdepth, reading_relocate g₂ c hlex hdepth]
  rw [List.forall₂_map_left_iff, List.forall₂_map_right_iff, List.forall₂_same]
  intro d hd
  obtain ⟨t, ht, hposition⟩ := start_of_mem hlex hdepth d hd
  obtain ⟨i, hi⟩ := List.mem_iff_getElem?.mp ht
  refine ⟨rfl, i, t.relocate g₁, t.relocate g₂, ?_, ?_, ?_, ?_⟩
  · rw [upToEnd_relocate, List.getElem?_map, hi, Option.map_some]
  · rw [upToEnd_relocate, List.getElem?_map, hi, Option.map_some]
  · rw [Diagnostic.relocate, hposition, Token.start_relocate]
  · rw [Diagnostic.relocate, hposition, Token.start_relocate]

/-- Cursors whose tokens are spelled alike are read alike. -/
theorem reading_alike {c₁ c₂ : Cursor} (hlex : c₁.Lexical) (hdepth₁ : c₁.depth = 0)
    (hdepth₂ : c₂.depth = 0) (h : c₁.ahead.map Token.spelling = c₂.ahead.map Token.spelling) :
    c₁.reading.1.relocate .erase = c₂.reading.1.relocate .erase ∧
      List.Forall₂ (Diagnostic.Alike c₁.upToEnd c₂.upToEnd) c₁.reading.2 c₂.reading.2 := by
  obtain ⟨c, g₁, g₂, hdepth, rfl, rfl⟩ := exists_common hdepth₁ hdepth₂ h
  have hc : c.Lexical := hlex.of_relocate
  constructor
  · rw [reading_relocate g₁ c hc hdepth, reading_relocate g₂ c hc hdepth,
      Program.relocate_relocate, Program.relocate_relocate]
    rfl
  · exact alike_relocate g₁ g₂ hc hdepth

end Cursor

/-- A source under another name has the same tokens, and their positions have that name. -/
theorem cursor_inFile (source : String) (file₁ file₂ : Option String) :
    (Session.ofSource source file₂).cursor =
      (Session.ofSource source file₁).cursor.relocate (.inFile (file₂.getD "shell")) := by
  have hfile : ∀ i ≤ Text.byteLength source.toList,
      Position.inFile (file₂.getD "shell") (.ofOffset (0 + i) (file₁.getD "shell")) =
        .ofOffset (0 + i) (file₂.getD "shell") := fun _ _ => rfl
  rw [cursor_ofSource, cursor_ofSource, Scanner.scan_relocate hfile]
  rfl

/-- What is read of a source does not depend on its name, but for the name in the positions. -/
theorem parseSource_inFile (source : String) (file₁ file₂ : Option String) :
    parseSource source file₂ =
      ((parseSource source file₁).1.relocate (.inFile (file₂.getD "shell")),
        (parseSource source file₁).2.map (.relocate (.inFile (file₂.getD "shell")))) := by
  rw [parseSource_eq_reading, parseSource_eq_reading, cursor_inFile source file₁ file₂,
    Cursor.reading_relocate _ _ (lexical_ofSource source file₁) rfl]

theorem spelling_ahead {source₁ source₂ : String} {file₁ file₂ : Option String}
    (h : (tokenize source₁ file₁).map Token.spelling =
      (tokenize source₂ file₂).map Token.spelling) :
    (Session.ofSource source₁ file₁).cursor.ahead.map Token.spelling =
      (Session.ofSource source₂ file₂).cursor.ahead.map Token.spelling := by
  rw [← dropLast_tokenize, ← dropLast_tokenize, List.map_dropLast, List.map_dropLast, h]

/-- The layout of a source and its name have no influence on what is read: sources whose tokens agree
in kinds and texts give the same tree, up to positions, and the same diagnostics, at the same tokens.
When only the name differs, so does only the name in the positions. -/
theorem parseSource_layout :
    (∀ (source₁ source₂ : String) (file₁ file₂ : Option String),
      (tokenize source₁ file₁).map Token.spelling = (tokenize source₂ file₂).map Token.spelling →
        (parseSource source₁ file₁).1.relocate .erase =
            (parseSource source₂ file₂).1.relocate .erase ∧
          (parseSource source₁ file₁).1.print = (parseSource source₂ file₂).1.print ∧
            List.Forall₂ (Diagnostic.Alike (tokenize source₁ file₁) (tokenize source₂ file₂))
              (parseSource source₁ file₁).2 (parseSource source₂ file₂).2) ∧
    ∀ (source : String) (file₁ file₂ : Option String),
      parseSource source file₂ =
        ((parseSource source file₁).1.relocate (.inFile (file₂.getD "shell")),
          (parseSource source file₁).2.map (Diagnostic.relocate (.inFile (file₂.getD "shell")))) := by
  constructor
  · intro source₁ source₂ file₁ file₂ h
    obtain ⟨htree, hdiagnostics⟩ :=
      Cursor.reading_alike (lexical_ofSource source₁ file₁) rfl rfl (spelling_ahead h)
    rw [← parseSource_eq_reading, ← parseSource_eq_reading] at htree hdiagnostics
    refine ⟨htree, ?_, hdiagnostics⟩
    rw [← Program.print_relocate .erase, htree, Program.print_relocate]
  · exact parseSource_inFile

/-- A group that is not closed, and two statements. -/
def compact : String := "let a=(1;!b;c"

/-- The same with blanks and line breaks wherever there can be some. -/
def spread : String := "let a =\n(\t1\n;\n! b ;\nc\n"

theorem parseSource_layout_spread :
    (tokenize compact (some "a")).map Token.spelling = (tokenize spread none).map Token.spelling ∧
      (parseSource compact (some "a")).2.map Diagnostic.position = [⟨8, "a"⟩] ∧
        (parseSource spread none).2.map Diagnostic.position = [⟨12, "shell"⟩] ∧
          (parseSource compact (some "a")).1.relocate .erase =
              (parseSource spread none).1.relocate .erase ∧
            (parseSource compact (some "a")).1.print = (parseSource spread none).1.print ∧
              List.Forall₂ (Diagnostic.Alike (tokenize compact (some "a")) (tokenize spread none))
                (parseSource compact (some "a")).2 (parseSource spread none).2 := by
  have hspelling : (tokenize compact (some "a")).map Token.spelling =
      (tokenize spread none).map Token.spelling := by decide +kernel
  have hcompact : (parseSource compact (some "a")).2.map Diagnostic.position = [⟨8, "a"⟩] := by
    decide +kernel
  have hspread : (parseSource spread none).2.map Diagnostic.position = [⟨12, "shell"⟩] := by
    decide +kernel
  exact ⟨hspelling, hcompact, hspread, parseSource_layout.1 _ _ _ _ hspelling⟩

end LetScript
