import LetScript.Proofs.Source.Line
import Mathlib.Tactic.SplitIfs

/-!
The place of any offset, also inside a character. Of an offset that is not past the end, the line is a
piece of the text between two line feeds, with the second of them if there is one, and its number is
told by the bytes before the offset that are line feeds (`place?_exact`).
-/
namespace LetScript.Source

open Text (byteLength flatten_splitAfter)

/-- The text in UTF-8. -/
def bytes (text : List Char) : List UInt8 := text.flatMap String.utf8EncodeChar

theorem bytes_append (a b : List Char) : bytes (a ++ b) = bytes a ++ bytes b := List.flatMap_append

theorem length_bytes (text : List Char) : (bytes text).length = byteLength text := by
  induction text with
  | nil => rfl
  | cons c text ih =>
    rw [bytes, List.flatMap_cons, List.length_append, String.length_utf8EncodeChar]
    exact congrArg (c.utf8Size + ·) ih

theorem bytes_toList (s : String) : bytes s.toList = s.toUTF8.data.toList := by
  have hbytes : s.toUTF8 = s.toList.utf8Encode := by
    rw [String.toUTF8, ← String.toByteArray_ofList, String.ofList_toList]
  rw [hbytes, List.utf8Encode, List.data_toByteArray]
  rfl

/-- Of a character with several bytes, each is in the upper half. -/
theorem le_of_mem_utf8EncodeChar {c : Char} (hc : 127 < c.val.toNat) :
    ∀ byte ∈ String.utf8EncodeChar c, 128 ≤ byte.toNat := by
  simp only [String.utf8EncodeChar, Nat.not_le.mpr hc, if_false]
  split_ifs
  all_goals
    simp only [List.forall_mem_cons, List.not_mem_nil, false_imp_iff, implies_true, and_true,
      UInt8.toNat_ofNat']
    omega

/-- A byte that looks like a line feed is one. -/
theorem feed_mem_utf8EncodeChar {c : Char} (h : 10 ∈ String.utf8EncodeChar c) : c = '\n' := by
  by_cases hc : c.val.toNat ≤ 127
  · simp only [String.utf8EncodeChar, hc, if_true, List.mem_singleton] at h
    have hnat : 10 = c.val.toNat % 256 := congrArg UInt8.toNat h
    exact Char.ext (UInt32.toNat_inj.mp (show c.val.toNat = 10 by omega))
  · exact absurd (le_of_mem_utf8EncodeChar (Nat.lt_of_not_le hc) 10 h) (by decide)

theorem feed_not_mem_bytes {text : List Char} (h : '\n' ∉ text) : 10 ∉ bytes text := by
  intro hmem
  obtain ⟨c, hc, hfeed⟩ := List.mem_flatMap.mp hmem
  exact h (feed_mem_utf8EncodeChar hfeed ▸ hc)

section

variable {line : List Char} (h : '\n' ∉ line)
include h

/-- There is no line feed in the first bytes of a line. -/
theorem count_take_line (rest : List Char) {offset : Nat} (hoffset : offset ≤ byteLength line) :
    ((bytes (line ++ rest)).take offset).count 10 = 0 := by
  rw [bytes_append, List.take_append_of_le_length (by rwa [length_bytes])]
  exact List.count_eq_zero.mpr fun hmem => feed_not_mem_bytes h (List.mem_of_mem_take hmem)

/-- Behind a line, one line feed more is counted. -/
theorem count_take_feed (rest : List Char) (offset : Nat) :
    ((bytes (line ++ '\n' :: rest)).take (byteLength (line ++ ['\n']) + offset)).count 10 =
      1 + ((bytes rest).take offset).count 10 := by
  have hsplit : bytes (line ++ '\n' :: rest) = bytes (line ++ ['\n']) ++ bytes rest := by
    rw [← bytes_append, List.append_assoc, List.singleton_append]
  have hline : (bytes (line ++ ['\n'])).count 10 = 1 := by
    have hfeed : bytes ['\n'] = [10] := rfl
    rw [bytes_append, hfeed, List.count_append, List.count_eq_zero.mpr (feed_not_mem_bytes h)]
    rfl
  rw [hsplit, ← length_bytes, List.take_length_add_append, List.count_append, hline]

end

/-- The line of the place stands between the two texts, and the offset belongs to it. -/
structure Place.Between (place : Place) (text : List Char) (offset : Nat) (before after : List Char) :
    Prop where
  text_eq : text = before ++ (place.line ++ after)
  offset_eq : byteLength before + place.offset = offset
  starts : before = [] ∨ before.getLast? = some '\n'
  feed_last : '\n' ∉ place.line.dropLast
  ends : after = [] ∨ place.line.getLast? = some '\n'
  inside : offset ≠ byteLength text → place.offset < byteLength place.line
  /-- The end of the text belongs to the last line, which no line feed ends. -/
  last : offset = byteLength text → '\n' ∉ place.line

/-- No offset is behind the end of its line. -/
theorem Place.Between.offset_le {place : Place} {text before after : List Char} {offset : Nat}
    (h : place.Between text offset before after) : place.offset ≤ byteLength place.line := by
  by_cases hend : offset = byteLength text
  · rcases h.ends with rfl | hlast
    · have hsize := h.offset_eq.trans (hend.trans (congrArg byteLength h.text_eq))
      rw [List.append_nil, Text.byteLength_append] at hsize
      exact Nat.le_of_eq (Nat.add_left_cancel hsize)
    · exact absurd (List.mem_of_getLast? hlast) (h.last hend)
  · exact Nat.le_of_lt (h.inside hend)

/-- A place of the text stands in the same line when another line is put before the text. -/
theorem Place.Between.behind {place : Place} {text before after : List Char} {offset : Nat}
    (h : place.Between text offset before after) (line : List Char) :
    place.Between (line ++ '\n' :: text) (byteLength (line ++ ['\n']) + offset)
      (line ++ '\n' :: before) after where
  text_eq := by rw [h.text_eq, List.append_assoc, List.cons_append]
  offset_eq := by
    rw [← h.offset_eq, ← Nat.add_assoc, ← Text.byteLength_append, List.append_assoc,
      List.singleton_append]
  starts := by
    right
    rcases h.starts with rfl | hlast
    · exact List.getLast?_concat
    · rw [List.getLast?_append, List.getLast?_cons, hlast]
      rfl
  feed_last := h.feed_last
  ends := h.ends
  inside hne := h.inside fun heq => hne (by rw [heq, byteLength_append_feed line text])
  last heq := h.last (Nat.add_left_cancel (heq.trans (byteLength_append_feed line text)))

/-- By induction on the lines, counted from the given number on. -/
theorem exists_placeIn_between (number : Nat) (text : List Char) (offset : Nat)
    (h : offset ≤ byteLength text) :
    ∃ place before after, placeIn number (lines text) offset = some place ∧
      place.number = number + ((bytes text).take offset).count 10 ∧
      place.Between text offset before after := by
  induction text using line_induction generalizing number offset with
  | last line hline =>
    refine ⟨⟨number, line, offset⟩, [], [], ?_, ?_, ?_⟩
    · rw [lines_of_last hline, placeIn, if_pos h]
    · have hcount := count_take_line hline [] h
      rw [List.append_nil] at hcount
      rw [hcount]
      rfl
    · exact {
        text_eq := (List.append_nil line).symm
        offset_eq := Nat.zero_add offset
        starts := .inl rfl
        feed_last := fun hmem => hline (List.dropLast_subset line hmem)
        ends := .inl rfl
        inside := fun hne => Nat.lt_of_le_of_ne h hne
        last := fun _ => hline }
  | feed line rest hline ih =>
    rw [byteLength_append_feed line rest] at h
    rw [lines_append_feed hline, placeIn_cons _ _ (lines_ne_nil rest)]
    by_cases hfirst : offset < byteLength (line ++ ['\n'])
    · rw [if_pos hfirst]
      refine ⟨⟨number, line ++ ['\n'], offset⟩, [], rest, rfl, ?_, ?_⟩
      · rw [count_take_line hline]
        · rfl
        · rw [Text.byteLength_append] at hfirst
          exact Nat.le_of_lt_succ hfirst
      · exact {
          text_eq := by rw [List.append_assoc]; rfl
          offset_eq := Nat.zero_add offset
          starts := .inl rfl
          feed_last := by rwa [List.dropLast_concat]
          ends := .inr List.getLast?_concat
          inside := fun _ => hfirst
          last := fun heq => by rw [byteLength_append_feed line rest] at heq; omega }
    · obtain ⟨offset, rfl⟩ := Nat.exists_eq_add_of_le (Nat.le_of_not_lt hfirst)
      rw [if_neg hfirst, Nat.add_sub_cancel_left]
      obtain ⟨place, before, after, hplace, hnumber, hbetween⟩ := ih (number + 1) offset (by omega)
      refine ⟨place, line ++ '\n' :: before, after, hplace, ?_, hbetween.behind line⟩
      rw [hnumber, count_take_feed hline, Nat.add_assoc]

/-- Past the end of the last line there is no place. -/
theorem placeIn_of_lt (number : Nat) {lines : List (List Char)} (offset : Nat)
    (h : byteLength lines.flatten < offset) : placeIn number lines offset = none := by
  induction lines generalizing number offset with
  | nil => rfl
  | cons line rest ih =>
    cases rest with
    | nil =>
      rw [List.flatten_singleton] at h
      exact if_neg (Nat.not_le.mpr h)
    | cons next rest =>
      rw [List.flatten_cons, Text.byteLength_append] at h
      rw [placeIn_cons number line (List.cons_ne_nil next rest), if_neg (by omega)]
      exact ih (number + 1) (offset - byteLength line) (by omega)

/-- An offset past the end has no place. -/
theorem place?_of_lt {text : List Char} {offset : Nat} (h : byteLength text < offset) :
    place? text offset = none := by
  have hflatten : (lines text).flatten = text := flatten_splitAfter _ text
  exact placeIn_of_lt 1 offset (by rw [hflatten]; exact h)

/-- An offset has a place just when it is not past the end: the line that it belongs to, counted by
the line feeds among the bytes before it. -/
theorem place?_exact (content : String) (offset : Nat) :
    (place? content.toList offset = none ↔ content.utf8ByteSize < offset) ∧
      (offset ≤ content.utf8ByteSize → ∃ place before after,
        place? content.toList offset = some place ∧
          place.number = 1 + (content.toUTF8.data.toList.take offset).count 10 ∧
          place.Between content.toList offset before after) := by
  have hfound := exists_placeIn_between 1 content.toList offset
  rw [Text.byteLength_toList, bytes_toList] at hfound
  refine ⟨⟨fun hnone => ?_, fun hpast => ?_⟩, hfound⟩
  · refine Nat.lt_of_not_le fun hle => ?_
    obtain ⟨place, -, -, hplace, -⟩ := hfound hle
    rw [place?, hplace] at hnone
    cases hnone
  · rw [← Text.byteLength_toList] at hpast
    exact place?_of_lt hpast

/-- The third of its lines has a character of three bytes, and nothing is on the fourth. -/
def arrow : String := "é\n\nab→\n"

theorem place?_exact_arrow : arrow.utf8ByteSize = 10 ∧
    (∀ offset ∈ [7, 8], ∃ before after,
      (⟨3, "ab→\n".toList, offset - 4⟩ : Place).Between arrow.toList offset before after) ∧
    (∃ before after, (⟨4, [], 0⟩ : Place).Between arrow.toList 10 before after) ∧
    place? arrow.toList 11 = none := by
  have hsize : arrow.utf8ByteSize = 10 := by decide +kernel
  have hbetween {offset : Nat} {place : Place} (hle : offset ≤ arrow.utf8ByteSize)
      (hplace : place? arrow.toList offset = some place) :
      ∃ before after, place.Between arrow.toList offset before after := by
    obtain ⟨found, before, after, hfound, -, hfits⟩ := (place?_exact arrow offset).2 hle
    obtain rfl := Option.some.inj (hplace.symm.trans hfound)
    exact ⟨before, after, hfits⟩
  refine ⟨hsize, fun offset hoffset => ?_, hbetween (by decide +kernel) (by decide +kernel), ?_⟩
  · simp only [List.mem_cons, List.not_mem_nil, or_false] at hoffset
    rcases hoffset with rfl | rfl <;> exact hbetween (by decide +kernel) (by decide +kernel)
  · exact (place?_exact arrow 11).1.mpr (by decide +kernel)

end LetScript.Source
