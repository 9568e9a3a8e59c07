import LetScript.Proofs.Source.Excerpt

/-!
What is rendered of a diagnostic. Between two characters of the source the caret stands as many columns
behind the first of the characters shown as there are of them before the position, for line numbers of
any width (`Diagnostic.caret_geometry`). Nothing is rendered inside a character, and none where more
than 65534 characters stand left of the caret (`Diagnostic.unrenderable_iff`).
-/
namespace LetScript

open Source (LinesWithin caretColumn lineBefore lineBehind)
open Text (byteLength trimEnd)

/-- A line of 65535 columns: a parenthesis that is not closed, and blanks. -/
def wide : String := String.ofList ('(' :: List.replicate 65534 ' ')

theorem toList_wide : wide.toList = ['('] ++ List.replicate 65534 ' ' := String.toList_ofList

theorem byteLength_wide : byteLength wide.toList = 65535 := by
  have hblanks : ∀ c ∈ List.replicate 65534 ' ', isIndent c = true := by
    intro c hc
    rw [List.eq_of_mem_replicate hc]
    rfl
  rw [toList_wide, Text.byteLength_append, byteLength_of_isIndent hblanks, List.length_replicate]
  rfl

theorem feed_not_mem_wide : '\n' ∉ wide.toList := by
  rw [toList_wide, List.mem_append, List.mem_replicate]
  decide

theorem linesWithin_wide : LinesWithin 65535 wide.toList := by
  intro line hline
  rw [Source.lines_of_last feed_not_mem_wide, List.mem_singleton] at hline
  rw [hline, Source.lineBehind_of_last feed_not_mem_wide, toList_wide, List.length_append,
    List.length_replicate]
  exact Nat.le_refl _

/-- The caret at the end of the line is past the largest width. -/
theorem caretColumn_wide : caretColumn wide.toList [] = 65535 := by
  rw [caretColumn, Source.lineBefore_of_last feed_not_mem_wide, toList_wide, List.length_append,
    List.length_replicate]
  rfl

/-- The blanks are one gap, and the input ends behind them. -/
theorem cursor_wide : (Session.ofSource wide none).cursor =
    ⟨[.ofLexeme 0 "shell" ['(']], .ofOffset 65535 "shell", 0⟩ := by
  have happart : Apart ['('] (List.replicate 65534 ' ') := by
    intro c hc d hd
    rw [List.eq_of_mem_replicate (List.mem_of_mem_head? hd), ← Option.some.inj hc]
    rfl
  have hgap : ∀ c ∈ List.replicate 65534 ' ', isGap c = true := by
    intro c hc
    rw [List.eq_of_mem_replicate hc]
    rfl
  have hrest (offset : Nat) (file : String) :
      (Scanner.mk (List.replicate 65534 ' ') offset file).scan =
        ([], .ofOffset (offset + byteLength (List.replicate 65534 ' ')) file) := by
    have h := Scanner.scan_gap hgap [] offset file
    rwa [List.append_nil, Scanner.scan_nil] at h
  have hsize := byteLength_wide
  rw [toList_wide, Text.byteLength_append] at hsize
  rw [cursor_ofSource, toList_wide, Scanner.scan_lexeme (.symbol rfl) happart, hrest, Nat.zero_add,
    hsize]
  rfl

/-- It is told of what is missing behind the end of the line. -/
theorem mem_parseSource_wide : ⟨.noOpening .eof, ⟨65535, "shell"⟩⟩ ∈ (parseSource wide none).2 := by
  rw [parseSource_eq_reading, cursor_wide]
  decide +kernel

theorem render?_wide (cause : Cause) (file : String) :
    (Diagnostic.mk cause ⟨65535, file⟩).render? wide = none := by
  refine Diagnostic.render?_of_lt _ (List.append_nil wide.toList).symm byteLength_wide ?_
  rw [caretColumn_wide]
  exact Nat.lt_succ_self 65534

/-- What is rendered for a position between two characters of the source, and past its end. The lead
of the line and that of the marker are of one length, so the caret stands as many columns to the right
of what is shown as there are dashes. There are never more than 65534. -/
theorem Diagnostic.caret_geometry (d : Diagnostic) (source : String) :
    (∀ before after : List Char, source.toList = before ++ after →
      byteLength before = d.position.offset →
        ∀ column, column = (lineBefore before).length -
            ((lineBefore before ++ lineBehind after).takeWhile isIndent).length →
          (column ≤ 65534 → ∃ number gutter margin shown marker : String,
            number = toString (1 + before.count '\n') ∧
            gutter = number ++ " | " ∧
            margin = "".pushn ' ' (number.length + 1) ++ "| " ∧
            margin.length = gutter.length ∧
            shown = String.ofList
              (trimEnd ((lineBefore before ++ lineBehind after).dropWhile isIndent)) ∧
            marker = "".pushn '-' column ++ "^" ∧
            d.render? source = some (String.join ([
              "Error: " ++ d.title,
              "-> " ++ d.position.file,
              "".pushn ' ' (number.length + 1) ++ "|",
              gutter ++ shown,
              margin ++ marker].map (· ++ "\n")))) ∧
          (65534 < column → d.render? source = none)) ∧
      (source.utf8ByteSize < d.position.offset →
        d.render? source = some (String.join ([
          "Error: " ++ d.title,
          "-> " ++ d.position.file,
          "   " ++ d.message].map (· ++ "\n")))) := by
  refine ⟨?_, d.render?_of_past⟩
  rintro before after hsource hoffset column rfl
  refine ⟨fun hcolumn => ⟨_, _, _, _, _, rfl, rfl, rfl, ?_, rfl, rfl, ?_⟩,
    d.render?_of_lt hsource hoffset⟩
  · have hbar : "| ".length = 2 := rfl
    have hgutter : " | ".length = 3 := rfl
    rw [String.length_append, String.length_append, String.length_pushn, String.length_empty, hbar,
      hgutter]
    omega
  · rw [d.render?_of_le hsource hoffset hcolumn]
    simp only [heading, Excerpt.rows, Excerpt.around, caretColumn, String.append_assoc,
      List.cons_append, List.nil_append, String.reduceAppend]

/-- The tenth line of the source has indentation, characters of more than one byte and blanks at its
end. -/
def tenth : String := "\n\n\n\n\n\n\n\n\n \té = →\u00a0 \n"

/-- The two digits of the line number move the caret as they move the line. -/
theorem Diagnostic.caret_geometry_tenth :
    byteLength (tenth.toList.take 13) = 14 ∧
      (Diagnostic.mk (.noOpening .assign) ⟨14, "f"⟩).render? tenth =
        some "Error: NoPrefixHandler\n-> f\n   |\n10 | é = →\n   | --^\n" ∧
      tenth.utf8ByteSize < 99 ∧
      (Diagnostic.mk (.noOpening .assign) ⟨99, "f"⟩).render? tenth =
        some "Error: NoPrefixHandler\n-> f\n   no prefix parse function for ASSIGN found\n" ∧
      (Diagnostic.mk (.noOpening .eof) ⟨65535, "f"⟩).render? wide = none := by
  have hsize : byteLength (tenth.toList.take 13) = 14 := by decide +kernel
  have hpast : tenth.utf8ByteSize < 99 := by decide +kernel
  have hcolumn : (lineBefore (tenth.toList.take 13)).length - ((lineBefore (tenth.toList.take 13) ++
      lineBehind (tenth.toList.drop 13)).takeWhile isIndent).length ≤ 65534 := by decide +kernel
  have hwide := caretColumn_wide
  rw [caretColumn] at hwide
  refine ⟨hsize, ?_, hpast, ?_, ?_⟩
  · obtain ⟨number, gutter, margin, shown, marker, rfl, rfl, rfl, -, rfl, rfl, hblock⟩ :=
      ((Diagnostic.caret_geometry ⟨.noOpening .assign, ⟨14, "f"⟩⟩ tenth).1
        (tenth.toList.take 13) (tenth.toList.drop 13) (List.take_append_drop 13 _).symm hsize _
          rfl).1 hcolumn
    rw [hblock]
    decide +kernel
  · rw [(Diagnostic.caret_geometry ⟨.noOpening .assign, ⟨99, "f"⟩⟩ tenth).2 hpast]
    decide +kernel
  · exact ((Diagnostic.caret_geometry ⟨.noOpening .eof, ⟨65535, "f"⟩⟩ wide).1 wide.toList []
      (List.append_nil _).symm byteLength_wide 65535 hwide.symm).2 (Nat.lt_succ_self 65534)

/-- Behind a line of 65535 columns no caret can be set, though no line is wider and the position stands
between two characters. -/
theorem Diagnostic.not_forall_caret :
    ¬ ∀ (d : Diagnostic) (source : String), LinesWithin 65535 source.toList →
      ∀ before after : List Char, source.toList = before ++ after →
        byteLength before = d.position.offset → ∃ block, d.render? source = some block := by
  intro h
  obtain ⟨block, hblock⟩ := h ⟨.noOpening .eof, ⟨65535, "shell"⟩⟩ wide linesWithin_wide wide.toList []
    (List.append_nil _).symm byteLength_wide
  rw [render?_wide] at hblock
  cases hblock

/-- Between two characters only the width of the marker can fail. -/
theorem Diagnostic.unrenderable_iff_of_boundary (d : Diagnostic) {source : String}
    (h : Text.IsBoundary source.toList d.position.offset) :
    d.render? source = none ↔ ∃ before after, source.toList = before ++ after ∧
      byteLength before = d.position.offset ∧ 65534 < caretColumn before after := by
  constructor
  · intro hnone
    obtain ⟨before, after, hsource, hoffset⟩ := h
    refine ⟨before, after, hsource, hoffset, Nat.lt_of_not_le fun hcolumn => ?_⟩
    rw [d.render?_of_le hsource hoffset hcolumn] at hnone
    cases hnone
  · rintro ⟨before, after, hsource, hoffset, hcolumn⟩
    exact d.render?_of_lt hsource hoffset hcolumn

/-- Nothing can be rendered for a diagnostic just when it stands inside a character of the source,
that is, not past the end and at no valid position of the encoded text, or when more than 65534
characters stand left of the caret. What is told of a source itself stands inside no character. -/
theorem Diagnostic.unrenderable_iff :
    (∀ (d : Diagnostic) (source : String), d.render? source = none ↔
      d.position.offset ≤ source.utf8ByteSize ∧
        (¬ (String.Pos.Raw.mk d.position.offset).IsValid source ∨
          ∃ before after, source.toList = before ++ after ∧
            byteLength before = d.position.offset ∧ 65534 < caretColumn before after)) ∧
      ∀ (source : String) (file : Option String), source.utf8ByteSize ≤ Position.maxOffset →
        ∀ d ∈ (parseSource source file).2, ∃ before after, source.toList = before ++ after ∧
          byteLength before = d.position.offset ∧
            (caretColumn before after ≤ 65534 ↔ ∃ block, d.render? source = some block) := by
  constructor
  · intro d source
    rw [← Text.isBoundary_iff_isValid]
    by_cases hpast : source.utf8ByteSize < d.position.offset
    · rw [d.render?_of_past hpast]
      exact iff_of_false (by simp) fun h => Nat.not_le.mpr hpast h.1
    · have hle := Nat.le_of_not_lt hpast
      by_cases hboundary : Text.IsBoundary source.toList d.position.offset
      · rw [d.unrenderable_iff_of_boundary hboundary]
        exact ⟨fun hwide => ⟨hle, .inr hwide⟩, fun h => h.2.resolve_left (not_not_intro hboundary)⟩
      · exact iff_of_true (d.render?_of_not_boundary hle hboundary) ⟨hle, .inl hboundary⟩
  · intro source file hsize d hd
    obtain ⟨before, after, hsource, hoffset⟩ := isBoundary_of_mem_parseSource source file hsize d hd
    refine ⟨before, after, hsource, hoffset, ?_, ?_⟩
    · exact fun hcolumn => ⟨_, d.render?_of_le hsource hoffset hcolumn⟩
    · rintro ⟨block, hblock⟩
      refine Nat.le_of_not_lt fun hcolumn => ?_
      rw [d.render?_of_lt hsource hoffset hcolumn] at hblock
      cases hblock

/-- A source with characters of two, three and four bytes, each of which is told of. -/
def multibyte : String := "é; (x→ y; let 𝔸"

/-- Each of the three diagnostics is rendered, and none would be inside one of the characters. -/
theorem Diagnostic.unrenderable_iff_multibyte : multibyte.utf8ByteSize ≤ Position.maxOffset ∧
    (parseSource multibyte none).2.map (·.position.offset) = [0, 6, 17] ∧
    (∀ d ∈ (parseSource multibyte none).2, ∃ block, d.render? multibyte = some block) ∧
      ∀ cause, ∀ offset ∈ [1, 7, 8, 18, 19, 20],
        Diagnostic.render? ⟨cause, ⟨offset, "shell"⟩⟩ multibyte = none := by
  have hsize : multibyte.utf8ByteSize ≤ Position.maxOffset := by decide +kernel
  have hlength : multibyte.toList.length ≤ 65534 := by decide +kernel
  have hinside : ∀ offset ∈ [1, 7, 8, 18, 19, 20], offset ≤ multibyte.utf8ByteSize ∧
      ¬ (String.Pos.Raw.mk offset).IsValid multibyte := by decide +kernel
  obtain ⟨hnone, hsome⟩ := Diagnostic.unrenderable_iff
  refine ⟨hsize, by decide +kernel, fun d hd => ?_, fun cause offset hoffset => ?_⟩
  · obtain ⟨before, after, hsource, -, hblock⟩ := hsome multibyte none hsize d hd
    rw [hsource] at hlength
    exact hblock.mp ((Source.caretColumn_le before after).trans hlength)
  · obtain ⟨hle, hinvalid⟩ := hinside offset hoffset
    exact (hnone ⟨cause, ⟨offset, "shell"⟩⟩ multibyte).mpr ⟨hle, .inl hinvalid⟩

/-- On a line of 65535 columns nothing can be rendered behind its end, not even for what is told of the
line itself. -/
theorem Diagnostic.not_forall_renderable :
    (¬ ∀ (d : Diagnostic) (source : String), LinesWithin 65535 source.toList →
      (d.render? source = none ↔ d.position.offset ≤ source.utf8ByteSize ∧
        ¬ (String.Pos.Raw.mk d.position.offset).IsValid source)) ∧
      ¬ ∀ (source : String) (file : Option String), source.utf8ByteSize ≤ Position.maxOffset →
        LinesWithin 65535 source.toList → ∀ d ∈ (parseSource source file).2,
          ∃ block, d.render? source = some block := by
  constructor
  · intro h
    have hnone := (h ⟨.noOpening .eof, ⟨65535, "shell"⟩⟩ wide linesWithin_wide).mp (render?_wide _ _)
    refine hnone.2 ((Text.isBoundary_iff_isValid wide 65535).mp ?_)
    exact ⟨wide.toList, [], (List.append_nil _).symm, byteLength_wide⟩
  · intro h
    have hsize : wide.utf8ByteSize ≤ Position.maxOffset := by
      rw [← Text.byteLength_toList, byteLength_wide]
      decide
    obtain ⟨block, hblock⟩ := h wide none hsize linesWithin_wide _ mem_parseSource_wide
    rw [render?_wide] at hblock
    cases hblock

end LetScript
