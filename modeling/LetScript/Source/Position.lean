/-!
Positions in a named source. An offset counts bytes and is capped at the largest number of 32 bits.
-/
namespace LetScript

structure Position where
  offset : Nat
  file : String
  deriving DecidableEq, Repr

namespace Position

/-- The largest number of 32 bits. -/
def maxOffset : Nat := 0xFFFFFFFF

/-- Offsets past `maxOffset` are all recorded as `maxOffset`. -/
def ofOffset (offset : Nat) (file : String) : Position := ⟨min offset maxOffset, file⟩

/-- The position of what has no source. -/
def null : Position := ⟨0, "<null>"⟩

theorem ofOffset_of_le {offset : Nat} (h : offset ≤ maxOffset) (file : String) :
    ofOffset offset file = ⟨offset, file⟩ := by
  simp [ofOffset, Nat.min_eq_left h]

end Position

/-- From the first byte of a stretch of source to the first byte after it. -/
structure Span where
  start : Position
  stop : Position
  deriving DecidableEq, Repr

end LetScript
