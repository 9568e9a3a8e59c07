import LetScript.Reading.Session

/-!
What a rule leaves alone. Whether it succeeds or fails, wherever it is called, a rule closes all the
expressions that it has opened and no other, and the end of the input stays where it is
(`statement_steady`). So an attempt, and a whole run, ends with as many open as it began with.
-/
namespace LetScript

theorem Cursor.frame_steady :
    Cursor.Frame fun c c' => c'.depth = c.depth ∧ c'.stop = c.stop where
  refl _ := ⟨rfl, rfl⟩
  trans h h' := ⟨h'.1.trans h.1, h'.2.trans h.2⟩
  advance _ := ⟨rfl, rfl⟩
  inside h := ⟨congrArg (· - 1) h.1, h.2⟩

/-- The rule leaves as many expressions open as it finds, and the end of the input where it is. -/
def Rule.Steady (rule : Rule α) : Prop :=
  ∀ c, (rule c).2.depth = c.depth ∧ (rule c).2.stop = c.stop

namespace Rule

theorem statement_steady : Steady statement := statement_keeps Cursor.frame_steady

theorem enterNesting_forward : Forward enterNesting := by
  intro c
  unfold enterNesting
  split <;> exact List.suffix_refl _

/-- Opening one more expression stays within the nesting limit. -/
theorem enterNesting_bounded {c : Cursor} (h : c.depth ≤ maxNesting) :
    (enterNesting c).2.depth ≤ maxNesting ∧ (enterNesting c).2.stop = c.stop := by
  unfold enterNesting
  split
  · exact ⟨by assumption, rfl⟩
  · exact ⟨h, rfl⟩

theorem expectPeek_failed (expected : TokenKind) (c : Cursor) (d : Diagnostic)
    (h : (expectPeek expected c).1 = .error d) : (expectPeek expected c).2 = c := by
  by_cases hkind : c.peek.kind = expected
  · rw [expectPeek, if_pos hkind] at h
    cases h
  · rw [expectPeek, if_neg hkind]

theorem enterNesting_failed (c : Cursor) (d : Diagnostic) (h : (enterNesting c).1 = .error d) :
    (enterNesting c).2 = c := by
  by_cases hdepth : c.depth < maxNesting
  · rw [enterNesting, if_pos hdepth] at h
    cases h
  · rw [enterNesting, if_neg hdepth]

end Rule

namespace Cursor

/-- An attempt ends with as many expressions open as it began with. -/
theorem after_attempt (c : Cursor) :
    c.attempt.after.depth = c.depth ∧ c.attempt.after.stop = c.stop := by
  have h := Rule.statement_steady c
  unfold attempt
  generalize Rule.statement c = o at h
  obtain ⟨r, c'⟩ := o
  cases r <;> exact h

/-- A run ends at the end of the input. -/
theorem attempts_end (c : Cursor) : c.attempts.2 = ⟨[], c.stop, c.depth⟩ := by
  fun_induction attempts c with
  | case1 c h => rw [← h]
  | case2 c h first rest last hrest ih =>
    obtain ⟨hdepth, hstop⟩ := c.after_attempt
    rw [← hdepth, ← hstop, ← ih, hrest]

end Cursor

end LetScript
