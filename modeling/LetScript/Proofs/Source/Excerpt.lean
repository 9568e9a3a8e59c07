import LetScript.Proofs.Source.Boundary
import Mathlib.Data.List.TakeWhile

/-!
What is shown of a source around a position. Of the line of the position, a block shows what is left
without its indentation and the blanks at its end, and the caret stands as many columns behind the
first of the characters shown as there are of them before the position (`Diagnostic.render?_around`).
Under a character of a line, it stands within the width of the line (`Source.caretColumn_lt`).
-/
namespace LetScript

open Source (LinesWithin lineBefore lineBehind place?_append)
open Text (byteLength isBlank takeBytes? takeBytes?_byteLength_append trimEnd)

namespace Text

theorem trimEnd_append_of_blank (a : List Char) {b : List Char}
    (h : ∀ c ∈ b, isBlank c = true) : trimEnd (a ++ b) = trimEnd a := by
  have hreverse : ∀ c ∈ b.reverse, isBlank c = true := fun c hc => h c (List.mem_reverse.mp hc)
  rw [trimEnd, List.reverse_append, List.dropWhile_append_of_pos hreverse, trimEnd]

theorem trimEnd_ne_nil {text : List Char} (h : ∃ c ∈ text, isBlank c = false) :
    trimEnd text ≠ [] := by
  intro hnil
  obtain ⟨c, hc, hblank⟩ := h
  have hdrop := List.dropWhile_eq_nil_iff.mp (List.reverse_eq_nil_iff.mp hnil)
  exact Bool.false_ne_true (hblank.symm.trans (hdrop c (List.mem_reverse.mpr hc)))

/-- Nothing is trimmed off before a character that is no blank. -/
theorem trimEnd_append_of_exists (a : List Char) {b : List Char}
    (h : ∃ c ∈ b, isBlank c = false) : trimEnd (a ++ b) = a ++ trimEnd b := by
  have hkept : b.reverse.dropWhile isBlank ≠ [] :=
    mt List.reverse_eq_nil_iff.mpr (trimEnd_ne_nil h)
  rw [trimEnd, List.reverse_append, List.dropWhile_append,
    if_neg (mt List.isEmpty_iff.mp hkept), List.reverse_append, List.reverse_reverse, trimEnd]

theorem trimEnd_prefix_self (text : List Char) : trimEnd text <+: text := by
  have h := List.reverse_prefix.mpr (List.dropWhile_suffix (l := text.reverse) isBlank)
  rwa [List.reverse_reverse] at h

/-- A character is still there after trimming unless it and all behind it are blanks. -/
theorem getElem?_trimEnd_append (a : List Char) (c : Char) (rest : List Char) :
    (trimEnd (a ++ c :: rest))[a.length]? = some c ↔ ∃ d ∈ c :: rest, isBlank d = false := by
  constructor
  · intro h
    refine Decidable.byContradiction fun hnone => ?_
    have hblank : ∀ d ∈ c :: rest, isBlank d = true := by simpa using hnone
    rw [trimEnd_append_of_blank a hblank] at h
    obtain ⟨hlength, -⟩ := List.getElem?_eq_some_iff.mp h
    exact absurd (trimEnd_prefix_self a).length_le (Nat.not_le.mpr hlength)
  · intro h
    rw [trimEnd_append_of_exists a h, List.getElem?_append_right (Nat.le_refl _), Nat.sub_self]
    cases hkept : trimEnd (c :: rest) with
    | nil => exact absurd hkept (trimEnd_ne_nil h)
    | cons d kept =>
      obtain ⟨rfl, -⟩ := List.cons_prefix_cons.mp (hkept ▸ trimEnd_prefix_self (c :: rest))
      rfl

end Text

/-- How many characters of its line stand before the cut, those of the indentation not counted. -/
def Source.caretColumn (before after : List Char) : Nat :=
  (lineBefore before).length - ((lineBefore before ++ lineBehind after).takeWhile isIndent).length

open Source (caretColumn)

namespace Excerpt

/-- The line of the cut between two texts, as it is shown, and how many of the characters shown stand
before the cut. -/
def around (before after : List Char) : Excerpt where
  number := 1 + before.count '\n'
  shown := trimEnd ((lineBefore before ++ lineBehind after).dropWhile isIndent)
  column := caretColumn before after

theorem rows?_of_le {e : Excerpt} (h : e.column ≤ 65534) : e.rows? = some e.rows :=
  if_pos (Nat.succ_le_succ h)

theorem rows?_of_lt {e : Excerpt} (h : 65534 < e.column) : e.rows? = none :=
  if_neg (Nat.not_le.mpr (Nat.succ_lt_succ h))

/-- As many characters are cut off as stand before the place, or all the indentation when the place is
inside it. -/
theorem exists_cut {before rest indent body : List Char}
    (hline : before ++ rest = indent ++ body) (hindent : ∀ c ∈ indent, isIndent c = true) :
    ∃ cut, takeBytes? (max (byteLength before) indent.length) (before ++ rest) = some cut ∧
      cut.length - indent.length = before.length - indent.length := by
  have hsize := byteLength_of_isIndent hindent
  rcases List.append_eq_append_iff.mp hline with ⟨more, rfl, rfl⟩ | ⟨more, rfl, rfl⟩
  · have hle : byteLength before ≤ (before ++ more).length := by
      rw [← hsize, Text.byteLength_append]
      exact Nat.le_add_right _ _
    refine ⟨before ++ more, ?_, ?_⟩
    · rw [Nat.max_eq_right hle, ← hsize, hline, takeBytes?_byteLength_append]
    · rw [List.length_append]
      omega
  · have hle : indent.length ≤ byteLength (indent ++ more) := by
      rw [← hsize, Text.byteLength_append]
      exact Nat.le_add_right _ _
    rw [Nat.max_eq_left hle, takeBytes?_byteLength_append]
    exact ⟨_, rfl, rfl⟩

section

variable {rest : List Char} (hrest : ∀ c ∈ rest.head?, isIndent c = false)
include hrest

/-- Indentation does not reach past what is no indentation. -/
theorem takeWhile_isIndent_append (line : List Char) :
    (line ++ rest).takeWhile isIndent = line.takeWhile isIndent := by
  have hstop : rest.takeWhile isIndent = [] := by
    cases rest with
    | nil => rfl
    | cons c rest => simp [hrest c rfl]
  rw [List.takeWhile_append, hstop, List.append_nil]
  split
  · rename_i hlength
    exact ((List.takeWhile_prefix _).eq_of_length hlength).symm
  · rfl

theorem dropWhile_isIndent_append (line : List Char) :
    (line ++ rest).dropWhile isIndent = line.dropWhile isIndent ++ rest := by
  have h : (line ++ rest).takeWhile isIndent ++ (line ++ rest).dropWhile isIndent =
      (line ++ rest).takeWhile isIndent ++ (line.dropWhile isIndent ++ rest) := by
    rw [List.takeWhile_append_dropWhile, takeWhile_isIndent_append hrest, ← List.append_assoc,
      List.takeWhile_append_dropWhile]
  exact List.append_cancel_left h

end

/-- The excerpt of a line that is cut at a place, whether or not the line ends in a line feed. -/
theorem ofPlace?_around (number : Nat) (before behind : List Char) {feed : List Char}
    (hfeed : ∀ c ∈ feed, c = '\n') :
    ofPlace? ⟨number, before ++ (behind ++ feed), byteLength before⟩ =
      some ⟨number, trimEnd ((before ++ behind).dropWhile isIndent),
        before.length - ((before ++ behind).takeWhile isIndent).length⟩ := by
  have hstop : ∀ c ∈ feed.head?, isIndent c = false := fun c hc => by
    rw [hfeed c (List.mem_of_mem_head? hc)]
    rfl
  have hblank : ∀ c ∈ feed, isBlank c = true := fun c hc => by
    rw [hfeed c hc]
    rfl
  have hline : before ++ (behind ++ feed) = (before ++ behind).takeWhile isIndent ++
      ((before ++ behind).dropWhile isIndent ++ feed) := by
    rw [← List.append_assoc, ← List.append_assoc, List.takeWhile_append_dropWhile]
  obtain ⟨cut, hcut, hlength⟩ := exists_cut hline (List.all_eq_true.mp List.all_takeWhile)
  rw [ofPlace?]
  dsimp only
  rw [← List.append_assoc, takeWhile_isIndent_append hstop, List.append_assoc, hcut,
    Option.map_some, hlength, hline, List.drop_left, Text.trimEnd_append_of_blank _ hblank]

end Excerpt

/-- Between two characters of the source, the excerpt around the position is shown, provided that the
caret can be set. -/
theorem Diagnostic.render?_around (d : Diagnostic) {source : String} {before after : List Char}
    (hsource : source.toList = before ++ after) (hoffset : byteLength before = d.position.offset) :
    d.render? source = (Excerpt.around before after).rows?.map fun rows =>
      String.join ((d.heading ++ rows).map (· ++ "\n")) := by
  obtain ⟨feed, hfeed, hplace⟩ := place?_append before after
  rw [render?, body?, hsource, ← hoffset, hplace]
  dsimp only
  rw [Excerpt.ofPlace?_around _ _ _ hfeed]
  rfl

theorem Diagnostic.render?_of_le (d : Diagnostic) {source : String} {before after : List Char}
    (hsource : source.toList = before ++ after) (hoffset : byteLength before = d.position.offset)
    (hcolumn : caretColumn before after ≤ 65534) :
    d.render? source =
      some (String.join ((d.heading ++ (Excerpt.around before after).rows).map (· ++ "\n"))) := by
  have hrows : (Excerpt.around before after).rows? = _ := Excerpt.rows?_of_le hcolumn
  rw [d.render?_around hsource hoffset, hrows, Option.map_some]

theorem Diagnostic.render?_of_lt (d : Diagnostic) {source : String} {before after : List Char}
    (hsource : source.toList = before ++ after) (hoffset : byteLength before = d.position.offset)
    (hcolumn : 65534 < caretColumn before after) : d.render? source = none := by
  have hrows : (Excerpt.around before after).rows? = none := Excerpt.rows?_of_lt hcolumn
  rw [d.render?_around hsource hoffset, hrows, Option.map_none]

/-- Under a character of a line, the caret stands within the width of the line. -/
theorem Source.caretColumn_lt {width : Nat} {before after : List Char} {c : Char} (hc : c ≠ '\n')
    (h : LinesWithin width (before ++ c :: after)) : caretColumn before (c :: after) < width := by
  have hlength := h.length_le
  have hline : lineBehind (c :: after) = c :: lineBehind after := by simp [lineBehind, hc]
  rw [hline, List.length_cons] at hlength
  exact Nat.lt_of_le_of_lt (Nat.sub_le _ _) (by omega)

/-- No caret stands further to the right than there are characters in the source. -/
theorem Source.caretColumn_le (before after : List Char) :
    caretColumn before after ≤ (before ++ after).length := by
  have hline : (lineBefore before).length ≤ before.length := by
    rw [lineBefore, List.length_reverse, ← before.length_reverse]
    exact (List.takeWhile_prefix _).length_le
  rw [caretColumn, List.length_append]
  omega

end LetScript
