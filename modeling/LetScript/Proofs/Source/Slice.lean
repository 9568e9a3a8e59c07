import LetScript.Proofs.Source.Boundary

/-!
Slices of a text. A slice is named by the offsets of its two ends, and it is refused unless the ends
are in order, within the text and between characters (`isSome_slice?_iff`).
-/
namespace LetScript.Text

/-- The characters behind that many bytes, if the text can be cut there. -/
def dropBytes? (size : Nat) (text : List Char) : Option (List Char) :=
  (takeBytes? size text).map fun before => text.drop before.length

/-- The characters between two offsets at which the text can be cut. -/
def slice? (start stop : Nat) (text : List Char) : Option (List Char) :=
  if start ≤ stop then (dropBytes? start text).bind (takeBytes? (stop - start)) else none

theorem dropBytes?_byteLength_append (before after : List Char) :
    dropBytes? (byteLength before) (before ++ after) = some after := by
  rw [dropBytes?, takeBytes?_byteLength_append, Option.map_some, List.drop_left]

theorem append_of_dropBytes? {size : Nat} {text after : List Char}
    (h : dropBytes? size text = some after) :
    ∃ before, text = before ++ after ∧ byteLength before = size := by
  obtain ⟨before, hbefore, rfl⟩ := Option.map_eq_some_iff.mp h
  obtain ⟨after, rfl, hsize⟩ := append_of_takeBytes? hbefore
  exact ⟨before, by rw [List.drop_left], hsize⟩

theorem isSome_dropBytes?_iff {size : Nat} {text : List Char} :
    (dropBytes? size text).isSome = true ↔ IsBoundary text size := by
  rw [dropBytes?, Option.isSome_map, isSome_takeBytes?_iff]

/-- A slice is refused just when its ends are out of order, out of range or inside a character. -/
theorem isSome_slice?_iff {start stop : Nat} {text : List Char} :
    (slice? start stop text).isSome = true ↔
      start ≤ stop ∧ IsBoundary text start ∧ IsBoundary text stop := by
  by_cases hle : start ≤ stop
  · by_cases hstart : IsBoundary text start
    · obtain ⟨before, after, rfl, rfl⟩ := hstart
      rw [slice?, if_pos hle, dropBytes?_byteLength_append, Option.bind_some,
        isSome_takeBytes?_iff, ← isBoundary_append_right hle]
      exact ⟨fun h => ⟨hle, ⟨before, after, rfl, rfl⟩, h⟩, fun h => h.2.2⟩
    · have hnone : dropBytes? start text = none := by
        rw [← Option.not_isSome_iff_eq_none, isSome_dropBytes?_iff]
        exact hstart
      rw [slice?, if_pos hle, hnone]
      exact iff_of_false (by simp) fun h => hstart h.2.1
  · rw [slice?, if_neg hle]
    exact iff_of_false (by simp) fun h => hle h.1

example : slice? 1 3 ['a', 'é', '→'] = some ['é'] ∧ slice? 1 2 ['a', 'é', '→'] = none := by decide

theorem byteLength_take_add (text : List Char) (count length : Nat) :
    byteLength (text.take (count + length)) =
      byteLength (text.take count) + byteLength ((text.drop count).take length) := by
  rw [List.take_add, byteLength_append]

theorem isBoundary_take (text : List Char) (count : Nat) :
    IsBoundary text (byteLength (text.take count)) :=
  ⟨text.take count, text.drop count, (List.take_append_drop count text).symm, rfl⟩

theorem dropBytes?_take (text : List Char) (count : Nat) :
    dropBytes? (byteLength (text.take count)) text = some (text.drop count) := by
  have h := dropBytes?_byteLength_append (text.take count) (text.drop count)
  rwa [List.take_append_drop] at h

theorem slice?_take (text : List Char) (count length : Nat) :
    slice? (byteLength (text.take count)) (byteLength (text.take (count + length))) text =
      some ((text.drop count).take length) := by
  have hsplit := takeBytes?_byteLength_append ((text.drop count).take length)
    ((text.drop count).drop length)
  rw [List.take_append_drop] at hsplit
  rw [slice?, byteLength_take_add, if_pos (Nat.le_add_right _ _), dropBytes?_take, Option.bind_some,
    Nat.add_sub_cancel_left, hsplit]

end LetScript.Text
