import LetScript.Reading.Progress

/-!
Reading all statements. Each attempt reads one statement or, where that fails, gives up on the rest
of it and records why; the next attempt begins behind its last token. The attempts of a cursor end
because each takes at least one token (`length_ahead_after_lt`).
-/
namespace LetScript

/-- What a try at a statement came to: the statement, or why it has been given up. -/
abbrev Verdict := Except Diagnostic Statement

namespace Verdict

def statement? (v : Verdict) : Option Statement := v.toOption

def diagnostic? : Verdict → Option Diagnostic
  | .ok _ => none
  | .error d => some d

end Verdict

/-- One try at a statement, and the cursors before and behind it. -/
structure Attempt where
  before : Cursor
  result : Verdict
  after : Cursor
  deriving Repr

/-- The tokens that the attempt has used up. -/
def Attempt.tokens (a : Attempt) : List Token :=
  a.before.ahead.take (a.before.ahead.length - a.after.ahead.length)

namespace Cursor

def attempt (c : Cursor) : Attempt :=
  match Rule.statement c with
  | (.ok s, last) => ⟨c, .ok s, last.advance⟩
  | (.error d, failed) => ⟨c, .error d, failed.skipStatement.advance⟩

/-- An attempt takes the statement's last token with it, so it takes at least one. -/
theorem length_ahead_after_lt {c : Cursor} (h : c.ahead ≠ []) :
    c.attempt.after.ahead.length < c.ahead.length := by
  have hle := (Rule.statement_forward c).length_le
  have hpos := List.length_pos_iff.mpr h
  unfold attempt
  generalize Rule.statement c = o at hle
  obtain ⟨r, c'⟩ := o
  change c'.ahead.length ≤ _ at hle
  cases r with
  | ok s =>
    simp only [advance, List.length_tail]
    omega
  | error d =>
    have hskip := (List.dropWhile_suffix (l := c'.ahead) (·.kind ≠ TokenKind.semicolon)).length_le
    simp only [advance, skipStatement, List.length_tail]
    omega

/-- Attempts up to the end of the input, and the cursor behind the last of them. -/
def attempts (c : Cursor) : List Attempt × Cursor :=
  if _h : c.ahead = [] then ([], c)
  else
    let first := c.attempt
    let (rest, last) := first.after.attempts
    (first :: rest, last)
termination_by c.ahead.length
decreasing_by exact length_ahead_after_lt _h

end Cursor

end LetScript
