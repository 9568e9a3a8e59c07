import LetScript.Proofs.Token.Scan

/-!
Overwriting parts of a text with spaces. Where every token is overwritten as a whole or not at all,
a scan of the new text yields the tokens that are left, each where it was (`scan_overwrite`).
-/
namespace LetScript

open Text (byteLength)

/-- A character that begins at a covered offset gives way to as many spaces as it has bytes. -/
def overwrite (covered : Nat → Bool) : Nat → List Char → List Char
  | _, [] => []
  | offset, c :: text =>
    (if covered offset then List.replicate c.utf8Size ' ' else [c]) ++
      overwrite covered (offset + c.utf8Size) text

variable {covered : Nat → Bool}

theorem byteLength_replicate_space (n : Nat) : byteLength (List.replicate n ' ') = n := by
  induction n with
  | zero => rfl
  | succ n ih =>
    have hspace : Char.utf8Size ' ' = 1 := by decide
    rw [List.replicate_succ, Text.byteLength_cons, ih, hspace]
    omega

/-- Nothing that is kept moves. -/
theorem byteLength_overwrite (offset : Nat) (text : List Char) :
    byteLength (overwrite covered offset text) = byteLength text := by
  induction text generalizing offset with
  | nil => rfl
  | cons c text ih =>
    rw [overwrite, Text.byteLength_append, ih, Text.byteLength_cons]
    by_cases hc : covered offset = true
    · rw [if_pos hc, byteLength_replicate_space]
    · rw [if_neg hc]
      simp

theorem overwrite_append (offset : Nat) (a b : List Char) :
    overwrite covered offset (a ++ b) =
      overwrite covered offset a ++ overwrite covered (offset + byteLength a) b := by
  induction a generalizing offset with
  | nil => rfl
  | cons c a ih =>
    simp only [List.cons_append, overwrite, ih, List.append_assoc, Text.byteLength_cons,
      Nat.add_assoc]

/-- A text of which no byte is covered stays as it is. -/
theorem overwrite_of_clear {offset : Nat} {text : List Char}
    (h : ∀ i, offset ≤ i → i < offset + byteLength text → covered i = false) :
    overwrite covered offset text = text := by
  induction text generalizing offset with
  | nil => rfl
  | cons c text ih =>
    have hsize := c.utf8Size_pos
    rw [Text.byteLength_cons] at h
    have hc : ¬ covered offset = true := by
      rw [h offset (by omega) (by omega)]
      decide
    rw [overwrite, if_neg hc, ih fun i hlo hhi => h i (by omega) (by omega)]
    rfl

/-- A text of which every byte is covered becomes a gap. -/
theorem isGap_of_covered {offset : Nat} {text : List Char}
    (h : ∀ i, offset ≤ i → i < offset + byteLength text → covered i = true) :
    ∀ c ∈ overwrite covered offset text, isGap c = true := by
  induction text generalizing offset with
  | nil => simp [overwrite]
  | cons c text ih =>
    have hsize := c.utf8Size_pos
    rw [Text.byteLength_cons] at h
    rw [overwrite, if_pos (h offset (by omega) (by omega))]
    intro d hd
    rcases List.mem_append.mp hd with hd | hd
    · rw [List.eq_of_mem_replicate hd]
      decide
    · exact ih (fun i hlo hhi => h i (by omega) (by omega)) d hd

theorem mem_overwrite {d : Char} {offset : Nat} {text : List Char}
    (h : d ∈ overwrite covered offset text) : d = ' ' ∨ d ∈ text := by
  induction text generalizing offset with
  | nil => exact .inr h
  | cons c text ih =>
    rw [overwrite] at h
    rcases List.mem_append.mp h with h | h
    · by_cases hc : covered offset = true
      · rw [if_pos hc] at h
        exact .inl (List.eq_of_mem_replicate h)
      · rw [if_neg hc] at h
        exact .inr (List.mem_cons.mpr (.inl (List.mem_singleton.mp h)))
    · exact (ih h).imp_right (List.mem_cons_of_mem c)

/-- Overwriting puts nothing at the front but a space. -/
theorem head_overwrite (offset : Nat) (text : List Char) :
    ∀ d ∈ (overwrite covered offset text).head?, d = ' ' ∨ d ∈ text.head? := by
  cases text with
  | nil => simp [overwrite]
  | cons c text =>
    intro d hd
    rw [overwrite] at hd
    by_cases hc : covered offset = true
    · have hsize : ¬ c.utf8Size = 0 := Nat.ne_of_gt c.utf8Size_pos
      rw [if_pos hc, List.head?_append, List.head?_replicate, if_neg hsize] at hd
      exact .inl (Option.some.inj hd).symm
    · rw [if_neg hc] at hd
      exact .inr hd

theorem Apart.overwrite {text rest : List Char} (h : Apart text rest) (offset : Nat) :
    Apart text (overwrite covered offset rest) := by
  intro c hc d hd
  rcases head_overwrite offset rest d hd with rfl | hd
  · have hspace : isLetter ' ' = false ∧ Char.isDigit ' ' = false := by decide
    simp [joins, hspace]
  · exact h c hc d hd

/-- The byte at an offset belongs to the token. -/
def Token.Contains (t : Token) (offset : Nat) : Prop :=
  t.span.start.offset ≤ offset ∧ offset < t.span.stop.offset

/-- The token is overwritten as a whole or not at all. -/
def Token.Unbroken (covered : Nat → Bool) (t : Token) : Prop :=
  ∀ i, t.Contains i → covered i = covered t.span.start.offset

/-- Scanning after overwriting yields the tokens that have not been overwritten. -/
theorem Scanner.scan_overwrite (text : List Char) (offset : Nat) (file : String)
    (hsize : offset + byteLength text ≤ Position.maxOffset)
    (hwhole : ∀ t ∈ (Scanner.mk text offset file).scan.1, t.Unbroken covered) :
    (Scanner.mk (overwrite covered offset text) offset file).scan =
      ((Scanner.mk text offset file).scan.1.filter (!covered ·.span.start.offset),
        (Scanner.mk text offset file).scan.2) := by
  induction text using text_induction generalizing offset with
  | nil => simp [overwrite, scan_nil]
  | gap c rest hc ih =>
    rw [Text.byteLength_cons] at hsize
    rw [scan_gap_cons hc] at hwhole
    have hgap : ∀ d ∈ overwrite covered offset [c], isGap d = true := by
      intro d hd
      rcases mem_overwrite hd with rfl | hd
      · decide
      · rw [List.mem_singleton.mp hd, hc]
    rw [scan_gap_cons hc, ← List.singleton_append, overwrite_append, scan_gap hgap,
      byteLength_overwrite, Text.byteLength_cons, Text.byteLength_nil, Nat.add_zero]
    exact ih _ (by omega) hwhole
  | lexeme text rest htext hapart ih =>
    rw [Text.byteLength_append] at hsize
    rw [scan_lexeme htext hapart] at hwhole ⊢
    have hrest := ih (offset + byteLength text) (by omega) fun t ht =>
      hwhole t (List.mem_cons_of_mem _ ht)
    obtain ⟨hstart, hstop⟩ := Token.offsets_ofLexeme offset file text (by omega)
    have htoken : ∀ i, offset ≤ i → i < offset + byteLength text → covered i = covered offset := by
      intro i hlo hhi
      have h := hwhole _ List.mem_cons_self i ⟨by omega, by omega⟩
      rwa [hstart] at h
    rw [overwrite_append]
    by_cases hc : covered offset = true
    · have hgap : ∀ c ∈ overwrite covered offset text, isGap c = true :=
        isGap_of_covered fun i hlo hhi => by rw [htoken i hlo hhi, hc]
      rw [scan_gap hgap, byteLength_overwrite, hrest, List.filter_cons_of_neg (by simp [hstart, hc])]
    · have hclear : overwrite covered offset text = text :=
        overwrite_of_clear fun i hlo hhi => by rw [htoken i hlo hhi]; simpa using hc
      rw [hclear, scan_lexeme htext (hapart.overwrite _), hrest,
        List.filter_cons_of_pos (by simp [hstart, hc])]

end LetScript
