import LetScript.Token.Scanner

/-!
Lexemes: what the scanner takes as one token. A text is a sequence of gap characters and lexemes in
which no lexeme is continued by the character behind it, so one equation for each of the two and
one for the empty text determine a scan (`scan_gap`, `scan_lexeme`, `scan_nil`), and what holds of
every text can be shown along that sequence (`text_induction`).
-/
namespace LetScript

open Text (byteLength)

/-- A run of letters, a run of digits, or one character that is neither of them nor a gap. -/
inductive IsLexeme : List Char → Prop where
  | word {text : List Char} : text ≠ [] → (∀ c ∈ text, isLetter c = true) → IsLexeme text
  | number {text : List Char} : text ≠ [] → (∀ c ∈ text, c.isDigit = true) → IsLexeme text
  | symbol {c : Char} : charClass c = .other → IsLexeme [c]

/-- A run that ends in `c` goes on with `d`. -/
def joins (c d : Char) : Bool := isLetter c && isLetter d || c.isDigit && d.isDigit

theorem joins_iff {c d : Char} : joins c d = true ↔
    isLetter c = true ∧ isLetter d = true ∨ c.isDigit = true ∧ d.isDigit = true := by
  simp only [joins, Bool.or_eq_true, Bool.and_eq_true]

theorem joins_comm (c d : Char) : joins c d = joins d c := by
  rw [joins, joins, Bool.and_comm (isLetter c), Bool.and_comm c.isDigit]

/-- No run goes on from the one text into the other. -/
def Apart (a b : List Char) : Prop := ∀ c ∈ a.getLast?, ∀ d ∈ b.head?, joins c d = false

theorem Apart.of_append {a b rest : List Char} (h : Apart (a ++ b) rest) : Apart b rest := by
  intro c hc d hd
  have hlast : c ∈ (a ++ b).getLast? := by
    rw [List.getLast?_append, hc]
    rfl
  exact h c hlast d hd

theorem Apart.of_cons {c : Char} {text rest : List Char} (h : Apart (c :: text) rest) :
    Apart text rest := of_append (a := [c]) h

/-- What is apart from a text, and apart from what continues the text, is apart from both. -/
theorem Apart.append {a b rest : List Char} (hab : Apart a b) (h : Apart (a ++ b) rest) :
    Apart a (b ++ rest) := by
  cases b with
  | nil => simpa using h
  | cons d b => exact hab

theorem isGap_of_isLetter {c : Char} (h : isLetter c = true) : isGap c = false := by
  by_cases hg : isGap c = true
  · simp only [isGap, Bool.or_eq_true, beq_iff_eq] at hg
    rcases hg with ((rfl | rfl) | rfl) | rfl <;> exact absurd h (by decide)
  · simpa using hg

theorem isGap_of_isDigit {c : Char} (h : c.isDigit = true) : isGap c = false := by
  by_cases hg : isGap c = true
  · simp only [isGap, Bool.or_eq_true, beq_iff_eq] at hg
    rcases hg with ((rfl | rfl) | rfl) | rfl <;> exact absurd h (by decide)
  · simpa using hg

theorem isLetter_of_isDigit {c : Char} (h : c.isDigit = true) : isLetter c = false := by
  change (decide (48 ≤ c.val.toNat) && decide (c.val.toNat ≤ 57)) = true at h
  change (decide (65 ≤ c.val.toNat ∧ c.val.toNat ≤ 90) ||
    (decide (97 ≤ c.val.toNat) && decide (c.val.toNat ≤ 122)) || c == '_') = false
  have hdigit : 48 ≤ c.val.toNat ∧ c.val.toNat ≤ 57 := by simpa using h
  have hupper : ¬ (65 ≤ c.val.toNat ∧ c.val.toNat ≤ 90) := by omega
  have hlower : ¬ 97 ≤ c.val.toNat := by omega
  have hunderscore : c ≠ '_' := by
    rintro rfl
    exact absurd hdigit (by decide)
  rw [decide_eq_false hupper, decide_eq_false hlower, beq_false_of_ne hunderscore]
  rfl

theorem isDigit_of_isLetter {c : Char} (h : isLetter c = true) : c.isDigit = false := by
  refine Bool.eq_false_iff.mpr fun hdigit => ?_
  simp [isLetter_of_isDigit hdigit] at h

theorem charClass_of_isLetter {c : Char} (h : isLetter c = true) : charClass c = .letter := by
  simp [charClass, isGap_of_isLetter h, h]

theorem charClass_of_isDigit {c : Char} (h : c.isDigit = true) : charClass c = .digit := by
  simp [charClass, isGap_of_isDigit h, isLetter_of_isDigit h, h]

theorem isLetter_of_other {c : Char} (h : charClass c = .other) : isLetter c = false := by
  refine Bool.eq_false_iff.mpr fun hletter => ?_
  simp [charClass_of_isLetter hletter] at h

theorem isDigit_of_other {c : Char} (h : charClass c = .other) : c.isDigit = false := by
  refine Bool.eq_false_iff.mpr fun hdigit => ?_
  simp [charClass_of_isDigit hdigit] at h

section

variable {c : Char}

theorem lexeme_of_isLetter (h : isLetter c = true) (rest : List Char) :
    lexeme c rest = c :: rest.takeWhile isLetter := by
  rw [lexeme, charClass_of_isLetter h]

theorem lexeme_of_isDigit (h : c.isDigit = true) (rest : List Char) :
    lexeme c rest = c :: rest.takeWhile Char.isDigit := by
  rw [lexeme, charClass_of_isDigit h]

theorem lexeme_of_neither (hletter : ¬ isLetter c = true) (hdigit : ¬ c.isDigit = true)
    (rest : List Char) : lexeme c rest = [c] := by
  by_cases hgap : isGap c = true <;> simp [lexeme, charClass, hgap, hletter, hdigit]

theorem kindOfLexeme_of_isLetter (h : isLetter c = true) (literal : String) :
    kindOfLexeme c literal = .ofWord literal := by
  rw [kindOfLexeme, charClass_of_isLetter h]

theorem kindOfLexeme_of_isDigit (h : c.isDigit = true) (literal : String) :
    kindOfLexeme c literal = .int := by
  rw [kindOfLexeme, charClass_of_isDigit h]

theorem kindOfLexeme_of_neither (hletter : ¬ isLetter c = true) (hdigit : ¬ c.isDigit = true)
    (literal : String) : kindOfLexeme c literal = (TokenKind.ofSymbol? c).getD .illegal := by
  by_cases hgap : isGap c = true <;> simp [kindOfLexeme, charClass, hgap, hletter, hdigit]

end

theorem IsLexeme.ne_nil {text : List Char} (h : IsLexeme text) : text ≠ [] := by
  cases h with
  | word hne _ => exact hne
  | number hne _ => exact hne
  | symbol _ => simp

theorem IsLexeme.isGap_head {c : Char} {text : List Char} (h : IsLexeme (c :: text)) :
    isGap c = false := by
  cases h with
  | word _ hall => exact isGap_of_isLetter (hall c (by simp))
  | number _ hall => exact isGap_of_isDigit (hall c (by simp))
  | symbol hc =>
    by_cases hg : isGap c = true
    · simp [charClass, hg] at hc
    · simpa using hg

/-- A run of one class stops before what is apart from it. -/
theorem Apart.head_false {p : Char → Bool} {run rest : List Char} (h : Apart run rest)
    (hne : run ≠ []) (hall : ∀ c ∈ run, p c = true)
    (hp : ∀ c d, p c = true → p d = true → joins c d = true) : ∀ d ∈ rest.head?, p d = false := by
  intro d hd
  have hlast := List.getLast_mem hne
  have hj := h _ (List.getLast?_eq_some_getLast hne) d hd
  by_cases hpd : p d = true
  · rw [hp _ d (hall _ hlast) hpd] at hj
    exact absurd hj (by decide)
  · simpa using hpd

theorem takeWhile_run {p : Char → Bool} {run rest : List Char} (hrun : ∀ c ∈ run, p c = true)
    (hrest : ∀ d ∈ rest.head?, p d = false) : (run ++ rest).takeWhile p = run := by
  rw [List.takeWhile_append_of_pos hrun]
  cases rest with
  | nil => simp
  | cons d rest => simp [hrest d rfl]

theorem joins_of_isLetter {c d : Char} (hc : isLetter c = true) (hd : isLetter d = true) :
    joins c d = true := joins_iff.mpr (.inl ⟨hc, hd⟩)

theorem joins_of_isDigit {c d : Char} (hc : c.isDigit = true) (hd : d.isDigit = true) :
    joins c d = true := joins_iff.mpr (.inr ⟨hc, hd⟩)

/-- A lexeme is found at the front of any text in which nothing continues it. -/
theorem lexeme_append {c : Char} {cs rest : List Char} (h : IsLexeme (c :: cs))
    (hrest : Apart (c :: cs) rest) : lexeme c (cs ++ rest) = c :: cs := by
  cases h with
  | word hne hall =>
    have hstop := hrest.head_false hne hall fun _ _ => joins_of_isLetter
    have hcs : ∀ d ∈ cs, isLetter d = true := fun d hd => hall d (by simp [hd])
    rw [lexeme_of_isLetter (hall c List.mem_cons_self), takeWhile_run hcs hstop]
  | number hne hall =>
    have hstop := hrest.head_false hne hall fun _ _ => joins_of_isDigit
    have hcs : ∀ d ∈ cs, d.isDigit = true := fun d hd => hall d (by simp [hd])
    rw [lexeme_of_isDigit (hall c List.mem_cons_self), takeWhile_run hcs hstop]
  | symbol hc => simp [lexeme, hc]

/-- A run is apart from what is left when all of its class has been taken off. -/
theorem apart_dropWhile {p : Char → Bool} {run : List Char} (rest : List Char)
    (hall : ∀ c ∈ run, p c = true)
    (hp : ∀ c d, p c = true → p d = false → joins c d = false) :
    Apart run (rest.dropWhile p) := by
  intro c hc d hd
  have hpc := hall c (List.mem_of_getLast? hc)
  cases hrest : rest.dropWhile p with
  | nil => simp [hrest] at hd
  | cons x xs =>
    have hx := List.head_dropWhile_not p (l := rest) (by simp [hrest])
    simp only [hrest, List.head_cons] at hx
    simp only [hrest, List.head?_cons, Option.mem_def, Option.some.injEq] at hd
    exact hp c d hpc (hd ▸ hx)

/-- A text that does not begin with a gap begins with a lexeme that nothing continues. -/
theorem exists_lexeme {c : Char} (hc : isGap c = false) (cs : List Char) :
    ∃ text rest, c :: cs = text ++ rest ∧ IsLexeme text ∧ Apart text rest := by
  by_cases hletter : isLetter c = true
  · have hall : ∀ d ∈ c :: cs.takeWhile isLetter, isLetter d = true := by
      simpa [hletter] using List.all_eq_true.mp (List.all_takeWhile (p := isLetter) (l := cs))
    refine ⟨c :: cs.takeWhile isLetter, cs.dropWhile isLetter, by simp, .word (by simp) hall, ?_⟩
    refine apart_dropWhile cs hall fun a b ha hb => ?_
    simp [joins, hb, isDigit_of_isLetter ha]
  · by_cases hdigit : c.isDigit = true
    · have hall : ∀ d ∈ c :: cs.takeWhile Char.isDigit, d.isDigit = true := by
        simpa [hdigit] using List.all_eq_true.mp (List.all_takeWhile (p := Char.isDigit) (l := cs))
      refine ⟨c :: cs.takeWhile Char.isDigit, cs.dropWhile Char.isDigit, by simp,
        .number (by simp) hall, ?_⟩
      refine apart_dropWhile cs hall fun a b ha hb => ?_
      simp [joins, hb, isLetter_of_isDigit ha]
    · refine ⟨[c], cs, rfl, .symbol ?_, ?_⟩
      · simp [charClass, hc, hletter, hdigit]
      · simp [Apart, joins, hletter, hdigit]

/-- Every text is a sequence of gap characters and of lexemes that nothing continues. -/
theorem text_induction {motive : List Char → Prop} (nil : motive [])
    (gap : ∀ c rest, isGap c = true → motive rest → motive (c :: rest))
    (lexeme : ∀ text rest, IsLexeme text → Apart text rest → motive rest → motive (text ++ rest)) :
    ∀ text, motive text
  | [] => nil
  | c :: cs => by
    by_cases hc : isGap c = true
    · exact gap c cs hc (text_induction nil gap lexeme cs)
    · obtain ⟨text, rest, he, htext, hapart⟩ := exists_lexeme (by simpa using hc) cs
      have hlt : rest.length < (c :: cs).length := by
        have := List.length_pos_iff.mpr htext.ne_nil
        rw [he, List.length_append]
        omega
      rw [he]
      exact lexeme text rest htext hapart (text_induction nil gap lexeme rest)
termination_by text => text.length
decreasing_by
  · simp
  · simpa using hlt

end LetScript
