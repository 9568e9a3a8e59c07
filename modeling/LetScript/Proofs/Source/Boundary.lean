import LetScript.Diagnostic.Render
import LetScript.Proofs.Reading.Diagnosis
import LetScript.Proofs.Source.Place

/-!
Offsets between characters. A line can be cut at a place just when the offset falls between two
characters of the source (`Source.exists_place`), and the positions of tokens always do, so no
diagnostic stands inside a character of the source that it is about
(`isBoundary_of_mem_parseSource`).
-/
namespace LetScript

open Text (byteLength takeBytes?)

namespace Text

/-- The offset falls between two characters of the text, or at one of its ends. -/
def IsBoundary (text : List Char) (offset : Nat) : Prop :=
  ∃ before after, text = before ++ after ∧ byteLength before = offset

theorem isBoundary_zero (text : List Char) : IsBoundary text 0 := ⟨[], text, rfl, rfl⟩

theorem isBoundary_length (text : List Char) : IsBoundary text (byteLength text) :=
  ⟨text, [], (List.append_nil text).symm, rfl⟩

theorem byteLength_eq_zero {text : List Char} (h : byteLength text = 0) : text = [] :=
  Decidable.byContradiction fun hne => Nat.ne_of_gt (byteLength_pos hne) h

/-- What is cut off has the size that was asked for. -/
theorem append_of_takeBytes? {size : Nat} {text before : List Char}
    (h : takeBytes? size text = some before) :
    ∃ after, text = before ++ after ∧ byteLength before = size := by
  induction text generalizing size before with
  | nil =>
    cases size with
    | zero => exact ⟨[], by simpa using h, by simp_all⟩
    | succ size => cases h
  | cons c text ih =>
    cases size with
    | zero =>
      rw [takeBytes?_zero] at h
      obtain rfl := Option.some.inj h
      exact ⟨c :: text, rfl, rfl⟩
    | succ size =>
      by_cases hc : c.utf8Size ≤ size + 1
      · rw [takeBytes?_cons hc] at h
        obtain ⟨rest, hrest, rfl⟩ := Option.map_eq_some_iff.mp h
        obtain ⟨after, htext, hsize⟩ := ih hrest
        refine ⟨after, congrArg (c :: ·) htext, ?_⟩
        rw [byteLength_cons, hsize]
        omega
      · simp [takeBytes?, hc] at h

/-- A text can be cut between its characters and nowhere else. -/
theorem isSome_takeBytes?_iff {size : Nat} {text : List Char} :
    (takeBytes? size text).isSome = true ↔ IsBoundary text size := by
  constructor
  · intro h
    obtain ⟨before, hbefore⟩ := Option.isSome_iff_exists.mp h
    obtain ⟨after, htext, hsize⟩ := append_of_takeBytes? hbefore
    exact ⟨before, after, htext, hsize⟩
  · rintro ⟨before, after, rfl, rfl⟩
    rw [takeBytes?_byteLength_append]
    rfl

/-- In front, what is behind a text does not matter. -/
theorem isBoundary_append_left {a b : List Char} {offset : Nat} (h : offset ≤ byteLength a) :
    IsBoundary (a ++ b) offset ↔ IsBoundary a offset := by
  constructor
  · rintro ⟨before, after, htext, rfl⟩
    rcases List.append_eq_append_iff.mp htext with ⟨rest, rfl, -⟩ | ⟨rest, rfl, -⟩
    · rw [byteLength_append] at h
      have hrest : rest = [] := byteLength_eq_zero (by omega)
      rw [hrest, List.append_nil]
      exact isBoundary_length a
    · exact ⟨before, rest, rfl, rfl⟩
  · rintro ⟨before, after, rfl, rfl⟩
    exact ⟨before, after ++ b, List.append_assoc before after b, rfl⟩

/-- Behind a text, the offset can be counted from its end. -/
theorem isBoundary_append_right {a b : List Char} {offset : Nat} (h : byteLength a ≤ offset) :
    IsBoundary (a ++ b) offset ↔ IsBoundary b (offset - byteLength a) := by
  constructor
  · rintro ⟨before, after, htext, rfl⟩
    rcases List.append_eq_append_iff.mp htext with ⟨rest, rfl, rfl⟩ | ⟨rest, rfl, rfl⟩
    · exact ⟨rest, after, rfl, by rw [byteLength_append]; omega⟩
    · rw [byteLength_append] at h
      have hrest : rest = [] := byteLength_eq_zero (by omega)
      rw [hrest, List.append_nil, Nat.sub_self]
      exact isBoundary_zero _
  · rintro ⟨before, after, rfl, hoffset⟩
    exact ⟨a ++ before, after, (List.append_assoc a before after).symm,
      by rw [byteLength_append]; omega⟩

/-- Of the bytes of a text, those before such an offset are UTF-8 by themselves. -/
theorem isBoundary_iff_isValid (s : String) (offset : Nat) :
    IsBoundary s.toList offset ↔ (String.Pos.Raw.mk offset).IsValid s := by
  rw [String.Pos.Raw.isValid_iff_exists_append]
  constructor
  · rintro ⟨before, after, htext, rfl⟩
    refine ⟨String.ofList before, String.ofList after, ?_, ?_⟩
    · rw [← String.ofList_append, ← htext, String.ofList_toList]
    · rw [← String.toList_ofList (l := before), byteLength_toList, String.toList_ofList]
      rfl
  · rintro ⟨before, after, rfl, hoffset⟩
    refine ⟨before.toList, after.toList, String.toList_append, ?_⟩
    rw [byteLength_toList, ← String.byteIdx_rawEndPos, ← hoffset]

end Text

namespace Source

open Text (IsBoundary isBoundary_append_left isBoundary_append_right)

/-- An offset that is not past the end has a place, and falls between two characters of its line just
when it falls between two of the text. -/
theorem exists_place {text : List Char} {offset : Nat} (h : offset ≤ byteLength text) :
    ∃ place, place? text offset = some place ∧
      (IsBoundary place.line place.offset ↔ IsBoundary text offset) := by
  obtain ⟨place, before, after, hplace, -, hbetween⟩ := exists_placeIn_between 1 text offset h
  refine ⟨place, hplace, ?_⟩
  rw [hbetween.text_eq, ← hbetween.offset_eq, isBoundary_append_right (Nat.le_add_right _ _),
    Nat.add_sub_cancel_left, isBoundary_append_left hbetween.offset_le]

end Source

open Text (IsBoundary isSome_takeBytes?_iff)

theorem utf8Size_of_isIndent {c : Char} (h : isIndent c = true) : c.utf8Size = 1 := by
  simp only [isIndent, Bool.or_eq_true, beq_iff_eq] at h
  rcases h with rfl | rfl <;> rfl

/-- Indentation has one byte for each character. -/
theorem byteLength_of_isIndent {text : List Char} (h : ∀ c ∈ text, isIndent c = true) :
    byteLength text = text.length := by
  induction text with
  | nil => rfl
  | cons c text ih =>
    rw [Text.byteLength_cons, utf8Size_of_isIndent (h c List.mem_cons_self),
      ih fun d hd => h d (List.mem_cons_of_mem c hd), List.length_cons, Nat.add_comm]

theorem isBoundary_indent {line : List Char} {offset : Nat}
    (h : offset ≤ (line.takeWhile isIndent).length) : IsBoundary line offset := by
  have hwhile : line.takeWhile isIndent <+: line := List.takeWhile_prefix _
  have htake : line.take offset <+: line.takeWhile isIndent :=
    List.prefix_of_prefix_length_le (List.take_prefix offset line) hwhile
      ((List.length_take_le offset line).trans h)
  have hindent : ∀ c ∈ line.take offset, isIndent c = true := fun c hc =>
    List.all_eq_true.mp List.all_takeWhile c (htake.subset hc)
  refine ⟨line.take offset, line.drop offset, (List.take_append_drop offset line).symm, ?_⟩
  rw [byteLength_of_isIndent hindent, List.length_take_of_le (h.trans hwhile.length_le)]

theorem Excerpt.isSome_ofPlace?_iff (place : Source.Place) :
    (ofPlace? place).isSome = true ↔ IsBoundary place.line place.offset := by
  rw [ofPlace?, Option.isSome_map, isSome_takeBytes?_iff]
  rcases Nat.le_total (place.line.takeWhile isIndent).length place.offset with h | h
  · rw [Nat.max_eq_left h]
  · rw [Nat.max_eq_right h]
    exact iff_of_true (isBoundary_indent (Nat.le_refl _)) (isBoundary_indent h)

/-- Nothing can be shown for a diagnostic that stands inside a character. -/
theorem Diagnostic.render?_of_not_boundary (d : Diagnostic) {source : String}
    (hoffset : d.position.offset ≤ source.utf8ByteSize)
    (h : ¬ IsBoundary source.toList d.position.offset) : d.render? source = none := by
  rw [← Text.byteLength_toList] at hoffset
  obtain ⟨place, hplace, hboundary⟩ := Source.exists_place hoffset
  have hnone : Excerpt.ofPlace? place = none := by
    rw [← Option.not_isSome_iff_eq_none, Excerpt.isSome_ofPlace?_iff, hboundary]
    exact h
  rw [render?, body?, hplace]
  dsimp only
  rw [hnone]
  rfl

/-- Past the end of the source, the message is shown instead of a line. -/
theorem Diagnostic.render?_of_past (d : Diagnostic) {source : String}
    (hoffset : source.utf8ByteSize < d.position.offset) :
    d.render? source =
      some (String.join ((d.heading ++ ["   " ++ d.message]).map (· ++ "\n"))) := by
  rw [← Text.byteLength_toList] at hoffset
  rw [render?, body?, Source.place?_of_lt hoffset]
  rfl

section

variable {source : String} {file : Option String}

theorem exists_lexeme_of_mem_tokenize {t : Token} (ht : t ∈ (tokenize source file).dropLast) :
    ∃ before word after, source.toList = before ++ (word ++ after) ∧ IsLexeme word ∧
      t = .ofLexeme (byteLength before) (file.getD "shell") word := by
  rw [dropLast_tokenize, cursor_ofSource] at ht
  obtain ⟨before, word, after, htext, hword, rfl⟩ :=
    Scanner.exists_lexeme_of_mem_scan source.toList 0 _ t ht
  rw [Nat.zero_add]
  exact ⟨before, word, after, htext, hword, rfl⟩

/-- Where no offset is capped, a token starts where its lexeme does. -/
theorem start_ofLexeme {before word after : List Char}
    (hsize : source.utf8ByteSize ≤ Position.maxOffset)
    (htext : source.toList = before ++ (word ++ after)) (name : String) :
    (Token.ofLexeme (byteLength before) name word).start.offset = byteLength before := by
  have hend := end_le_maxOffset hsize
  rw [htext, Text.byteLength_append, Text.byteLength_append] at hend
  exact (Token.offsets_ofLexeme _ name word (by omega)).1

end

/-- Whatever is told of a source stands between two of its characters, or at one of its ends. -/
theorem isBoundary_of_mem_parseSource (source : String) (file : Option String)
    (hsize : source.utf8ByteSize ≤ Position.maxOffset) :
    ∀ d ∈ (parseSource source file).2, IsBoundary source.toList d.position.offset := by
  intro d hd
  rw [parseSource_eq] at hd
  obtain ⟨t, ht, hposition⟩ :=
    Cursor.start_of_mem (lexical_ofSource source file) rfl d hd
  rw [hposition]
  rcases List.mem_append.mp ht with ht | ht
  · rw [← dropLast_tokenize] at ht
    obtain ⟨before, word, after, htext, -, rfl⟩ := exists_lexeme_of_mem_tokenize ht
    rw [start_ofLexeme hsize htext]
    exact ⟨before, word ++ after, htext, rfl⟩
  · obtain rfl := List.mem_singleton.mp ht
    change IsBoundary _ (Scanner.mk source.toList 0 _).scan.2.offset
    rw [Scanner.stop_scan, Position.ofOffset_of_le (end_le_maxOffset hsize), Nat.zero_add]
    exact Text.isBoundary_length _

end LetScript
