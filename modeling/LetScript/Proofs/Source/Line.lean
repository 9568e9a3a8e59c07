import LetScript.Source.Line
import Mathlib.Data.List.TakeWhile

/-!
The line of an offset. A text is read line by line (`line_induction`). Where it is cut in two, the line
of the cut reaches from the last line feed before the cut to the first one behind it, and its number
is told by the line feeds before the cut (`place?_append`).
-/
namespace LetScript

namespace Text

variable {α : Type} [BEq α] [LawfulBEq α] {separator : α} {piece : List α} (h : separator ∉ piece)
include h

theorem not_separator_of_mem : ∀ x ∈ piece, (!x == separator) = true := by
  intro x hx
  have hne : x ≠ separator := fun heq => h (heq ▸ hx)
  simp [hne]

theorem splitAfter_of_last : splitAfter (· == separator) piece = [piece] := by
  have hrest : piece.dropWhile (!· == separator) = [] :=
    List.dropWhile_eq_nil_iff.mpr (not_separator_of_mem h)
  unfold splitAfter
  split
  · rfl
  · simp_all

/-- Up to the first separator, a list is a piece of its own. -/
theorem splitAfter_append (rest : List α) :
    splitAfter (· == separator) (piece ++ separator :: rest) =
      (piece ++ [separator]) :: splitAfter (· == separator) rest := by
  have hpiece := not_separator_of_mem h
  have hstop : ¬ (!separator == separator) = true := by simp
  have hdrop : (piece ++ separator :: rest).dropWhile (!· == separator) = separator :: rest := by
    rw [List.dropWhile_append_of_pos hpiece, List.dropWhile_cons, if_neg hstop]
  have htake : (piece ++ separator :: rest).takeWhile (!· == separator) = piece := by
    rw [List.takeWhile_append_of_pos hpiece, List.takeWhile_cons, if_neg hstop, List.append_nil]
  rw [splitAfter]
  split
  · simp_all
  · rename_i separator' rest' hsplit
    obtain ⟨rfl, rfl⟩ := List.cons.inj (hdrop.symm.trans hsplit)
    rw [htake]

end Text

namespace Source

open Text (byteLength not_separator_of_mem splitAfter)

/-- Every text is a last line, or a line with its line feed and a text behind it. -/
theorem line_induction {motive : List Char → Prop} (last : ∀ line, '\n' ∉ line → motive line)
    (feed : ∀ line rest, '\n' ∉ line → motive rest → motive (line ++ '\n' :: rest))
    (text : List Char) : motive text := by
  -- generalised over what has been read of the first line
  have h : ∀ line, '\n' ∉ line → motive (line ++ text) := by
    induction text with
    | nil =>
      intro line hline
      rw [List.append_nil]
      exact last line hline
    | cons c text ih =>
      intro line hline
      by_cases hc : c = '\n'
      · subst hc
        exact feed line text hline (ih [] List.not_mem_nil)
      · have hnext : '\n' ∉ line ++ [c] := by simp [hline, Ne.symm hc]
        have h := ih (line ++ [c]) hnext
        rwa [List.append_assoc, List.singleton_append] at h
  exact h [] List.not_mem_nil

section

variable {line : List Char} (h : '\n' ∉ line)
include h

theorem lines_of_last : lines line = [line] := Text.splitAfter_of_last h

theorem lines_append_feed (rest : List Char) :
    lines (line ++ '\n' :: rest) = (line ++ ['\n']) :: lines rest :=
  Text.splitAfter_append h rest

end

theorem byteLength_append_feed (line rest : List Char) :
    byteLength (line ++ '\n' :: rest) = byteLength (line ++ ['\n']) + byteLength rest := by
  rw [← Text.byteLength_append, List.append_assoc, List.singleton_append]

theorem lines_ne_nil (text : List Char) : lines text ≠ [] := by
  unfold lines splitAfter
  split <;> exact List.cons_ne_nil _ _

/-- A line with others behind it is the place of the offsets before its end. -/
theorem placeIn_cons (number : Nat) (line : List Char) {rest : List (List Char)} (hne : rest ≠ [])
    (offset : Nat) : placeIn number (line :: rest) offset =
      if offset < byteLength line then some ⟨number, line, offset⟩
      else placeIn (number + 1) rest (offset - byteLength line) := by
  cases rest with
  | nil => exact absurd rfl hne
  | cons next rest => rfl

/-- What stands behind the last line feed. -/
def lineBefore (before : List Char) : List Char :=
  (before.reverse.takeWhile (!· == '\n')).reverse

/-- What stands before the first line feed. -/
def lineBehind (after : List Char) : List Char := after.takeWhile (!· == '\n')

theorem lineBefore_of_last {line : List Char} (h : '\n' ∉ line) : lineBefore line = line := by
  have hreverse : '\n' ∉ line.reverse := mt List.mem_reverse.mp h
  rw [lineBefore, List.takeWhile_eq_self_iff.mpr (not_separator_of_mem hreverse), List.reverse_reverse]

theorem lineBefore_append_feed (before rest : List Char) :
    lineBefore (before ++ '\n' :: rest) = lineBefore rest := by
  have hfeed : ('\n' :: before.reverse).takeWhile (!· == '\n') = [] := rfl
  rw [lineBefore, List.reverse_append, List.reverse_cons, List.append_assoc, List.singleton_append,
    List.takeWhile_append, hfeed, List.append_nil]
  split
  · rename_i hlength
    rw [lineBefore, (List.takeWhile_prefix _).eq_of_length hlength]
  · rfl

theorem feed_not_mem_lineBefore (before : List Char) : '\n' ∉ lineBefore before := by
  induction before using line_induction with
  | last line h => rwa [lineBefore_of_last h]
  | feed line rest h ih => rwa [lineBefore_append_feed]

theorem feed_not_mem_lineBehind (after : List Char) : '\n' ∉ lineBehind after := by
  intro hmem
  have hfeed := List.all_eq_true.mp List.all_takeWhile '\n' hmem
  exact absurd hfeed (by decide)

theorem lineBehind_of_last {line : List Char} (h : '\n' ∉ line) : lineBehind line = line :=
  List.takeWhile_eq_self_iff.mpr (not_separator_of_mem h)

theorem lineBehind_append_feed {line : List Char} (h : '\n' ∉ line) (rest : List Char) :
    lineBehind (line ++ '\n' :: rest) = line := by
  rw [lineBehind, List.takeWhile_append_of_pos (not_separator_of_mem h)]
  exact List.append_nil line

/-- Lines are counted from the given number on. By induction on the lines before the cut. -/
theorem placeIn_append (number : Nat) (before after : List Char) :
    ∃ feed, (∀ c ∈ feed, c = '\n') ∧
      placeIn number (lines (before ++ after)) (byteLength before) =
        some ⟨number + before.count '\n', lineBefore before ++ (lineBehind after ++ feed),
          byteLength (lineBefore before)⟩ := by
  induction before using line_induction generalizing number with
  | last line h =>
    rw [lineBefore_of_last h, List.count_eq_zero.mpr h, Nat.add_zero]
    by_cases hafter : '\n' ∈ after
    · obtain ⟨line', rest, rfl, h'⟩ := List.eq_append_cons_of_mem hafter
      have hline : '\n' ∉ line ++ line' := by simp [h, h']
      refine ⟨['\n'], by simp, ?_⟩
      rw [← List.append_assoc, lines_append_feed hline, placeIn_cons _ _ (lines_ne_nil rest),
        if_pos, lineBehind_append_feed h', List.append_assoc]
      simp only [Text.byteLength_append, Text.byteLength_cons]
      have := Char.utf8Size_pos '\n'
      omega
    · have hline : '\n' ∉ line ++ after := by simp [h, hafter]
      refine ⟨[], by simp, ?_⟩
      rw [lines_of_last hline, placeIn, if_pos, lineBehind_of_last hafter, List.append_nil]
      rw [Text.byteLength_append]
      exact Nat.le_add_right _ _
  | feed line rest h ih =>
    obtain ⟨feed, hfeed, hplace⟩ := ih (number + 1)
    have hsize := byteLength_append_feed line rest
    have hcount : number + 1 + rest.count '\n' = number + (line ++ '\n' :: rest).count '\n' := by
      rw [List.count_append, List.count_eq_zero.mpr h, List.count_cons_self]
      omega
    refine ⟨feed, hfeed, ?_⟩
    rw [List.append_assoc, List.cons_append, lines_append_feed h, placeIn_cons _ _ (lines_ne_nil _),
      if_neg (by omega), hsize, Nat.add_sub_cancel_left, hplace, hcount, lineBefore_append_feed]

/-- The place at which a text is cut in two. -/
theorem place?_append (before after : List Char) :
    ∃ feed, (∀ c ∈ feed, c = '\n') ∧
      place? (before ++ after) (byteLength before) =
        some ⟨1 + before.count '\n', lineBefore before ++ (lineBehind after ++ feed),
          byteLength (lineBefore before)⟩ :=
  placeIn_append 1 before after

/-- A place is on one of the lines. -/
theorem line_mem_of_placeIn {number offset : Nat} {lines : List (List Char)} {place : Place}
    (h : placeIn number lines offset = some place) : place.line ∈ lines := by
  induction lines generalizing number offset with
  | nil => cases h
  | cons line rest ih =>
    by_cases hrest : rest = []
    · subst hrest
      rw [placeIn, Option.ite_none_right_eq_some] at h
      rw [← Option.some.inj h.2]
      exact List.mem_cons_self
    · rw [placeIn_cons number line hrest] at h
      split at h
      · rw [← Option.some.inj h]
        exact List.mem_cons_self
      · exact List.mem_cons_of_mem line (ih h)

/-- No line has more characters than that, its line feed not counted. -/
def LinesWithin (width : Nat) (text : List Char) : Prop :=
  ∀ line ∈ lines text, (lineBehind line).length ≤ width

instance (width : Nat) (text : List Char) : Decidable (LinesWithin width text) :=
  inferInstanceAs (Decidable (∀ line ∈ lines text, (lineBehind line).length ≤ width))

/-- The two parts of the line at which a text is cut are no longer together than a line may be. -/
theorem LinesWithin.length_le {width : Nat} {before after : List Char}
    (h : LinesWithin width (before ++ after)) :
    (lineBefore before).length + (lineBehind after).length ≤ width := by
  obtain ⟨feed, hfeed, hplace⟩ := place?_append before after
  have hline := h _ (line_mem_of_placeIn hplace)
  have hcontent : '\n' ∉ lineBefore before ++ lineBehind after := by
    simp [feed_not_mem_lineBefore, feed_not_mem_lineBehind]
  have hstop : feed.takeWhile (!· == '\n') = [] := by
    cases feed with
    | nil => rfl
    | cons c feed => simp [hfeed c List.mem_cons_self]
  rwa [← List.append_assoc, lineBehind, List.takeWhile_append_of_pos (not_separator_of_mem hcontent),
    hstop, List.append_nil, List.length_append] at hline

end Source

end LetScript
