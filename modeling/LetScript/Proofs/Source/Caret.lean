import LetScript.Proofs.Source.Excerpt

/-!
What the caret points at. Under a token, the caret stands below the first character of that token,
unless the character and all behind it on the line are blanks and so are not shown
(`parseSource_pointsAt_iff`).
-/
namespace LetScript

open Source (caretColumn lineBefore lineBehind feed_not_mem_lineBefore feed_not_mem_lineBehind)
open Text (byteLength isBlank)

/-- Of the last two lines of the block, the one has the character in the column in which the other has
the caret. -/
def PointsAt (block : String) (c : Char) : Prop :=
  ∃ (above shown marker : List Char) (column : Nat),
    block.toList = above ++ '\n' :: (shown ++ '\n' :: (marker ++ ['\n'])) ∧
      '\n' ∉ shown ∧ '\n' ∉ marker ∧ shown[column]? = some c ∧ marker[column]? = some '^'

theorem last_line_inj {above last above' last' : List Char}
    (h : above ++ '\n' :: last = above' ++ '\n' :: last') (hlast : '\n' ∉ last)
    (hlast' : '\n' ∉ last') : above = above' ∧ last = last' := by
  have hbefore := congrArg lineBefore h
  rw [Source.lineBefore_append_feed, Source.lineBefore_append_feed,
    Source.lineBefore_of_last hlast, Source.lineBefore_of_last hlast'] at hbefore
  subst hbefore
  exact ⟨List.append_cancel_right h, rfl⟩

/-- The column of a caret with nothing like it before it. -/
theorem getElem?_caret_iff {left : List Char} (h : '^' ∉ left) (column : Nat) :
    (left ++ ['^'])[column]? = some '^' ↔ column = left.length := by
  constructor
  · intro hcaret
    rcases Nat.lt_trichotomy column left.length with hlt | heq | hgt
    · rw [List.getElem?_append_left hlt] at hcaret
      exact absurd (List.mem_of_getElem? hcaret) h
    · exact heq
    · have hnone : (left ++ ['^'])[column]? = none := by
        rw [List.getElem?_eq_none_iff, List.length_append, List.length_singleton]
        omega
      rw [hnone] at hcaret
      cases hcaret
  · rintro rfl
    exact List.getElem?_concat_length

theorem toList_pushn (c : Char) (count : Nat) :
    ("".pushn c count).toList = List.replicate count c := by
  rw [String.pushn_eq_repeat_push]
  induction count with
  | zero => rfl
  | succ count ih =>
    rw [Nat.repeat, String.toList_push, ih, List.replicate_succ']

/-- Numbers are written in digits. -/
theorem isDigit_of_mem_toString {number : Nat} {c : Char} (h : c ∈ (toString number).toList) :
    c.isDigit = true := by
  rw [Nat.toString_eq_repr, Nat.repr, String.toList_ofList] at h
  exact Nat.isDigit_of_mem_toDigits (by decide) (by decide) h

namespace Excerpt

/-- What stands left of the line as it is shown. -/
def gutter (e : Excerpt) : List Char := (toString e.number).toList ++ [' ', '|', ' ']

/-- What stands left of the caret. -/
def leader (e : Excerpt) : List Char :=
  List.replicate ((toString e.number).length + 1) ' ' ++ ['|', ' '] ++ List.replicate e.column '-'

theorem length_leader (e : Excerpt) : e.leader.length = e.gutter.length + e.column := by
  simp only [leader, gutter, List.length_append, List.length_replicate, List.length_cons,
    List.length_nil, String.length_toList]

theorem caret_not_mem_leader (e : Excerpt) : '^' ∉ e.leader := by
  simp [leader, List.mem_replicate]

theorem feed_not_mem_leader (e : Excerpt) : '\n' ∉ e.leader := by
  simp [leader, List.mem_replicate]

theorem feed_not_mem_gutter (e : Excerpt) : '\n' ∉ e.gutter := by
  intro h
  rcases List.mem_append.mp h with h | h
  · exact absurd (isDigit_of_mem_toString h) (by decide)
  · exact absurd h (by decide)

/-- The last two lines of a block are the line shown, behind its gutter, and the caret behind its
leader. -/
theorem exists_above (e : Excerpt) (heading : List String) :
    ∃ above, (String.join ((heading ++ e.rows).map (· ++ "\n"))).toList =
      above ++ '\n' :: ((e.gutter ++ e.shown) ++ '\n' :: ((e.leader ++ ['^']) ++ ['\n'])) := by
  refine ⟨(String.join (heading.map (· ++ "\n"))).toList ++
    (List.replicate ((toString e.number).length + 1) ' ' ++ ['|']), ?_⟩
  have hfeed : "\n".toList = ['\n'] := rfl
  have hbar : "|".toList = ['|'] := rfl
  have hsign : " | ".toList = [' ', '|', ' '] := rfl
  have hspace : " ".toList = [' '] := rfl
  have hcaret : "^".toList = ['^'] := rfl
  simp only [String.toList_join, rows, List.map_append, List.flatMap_append, List.map_cons,
    List.map_nil, List.flatMap_cons, List.flatMap_nil, String.toList_append, toList_pushn,
    String.toList_ofList, hfeed, hbar, hsign, hspace, hcaret, gutter, leader, List.append_assoc,
    List.cons_append, List.nil_append]

/-- The column of the caret counts from the first character shown. -/
theorem pointsAt_iff (e : Excerpt) (heading : List String) (hfeed : '\n' ∉ e.shown) (c : Char) :
    PointsAt (String.join ((heading ++ e.rows).map (· ++ "\n"))) c ↔
      e.shown[e.column]? = some c := by
  obtain ⟨above, hblock⟩ := e.exists_above heading
  have hshown : '\n' ∉ e.gutter ++ e.shown := by
    rw [List.mem_append]
    exact fun h => h.elim e.feed_not_mem_gutter hfeed
  have hmarker : '\n' ∉ e.leader ++ ['^'] := by
    rw [List.mem_append]
    exact fun h => h.elim e.feed_not_mem_leader (by decide)
  have hcolumn : (e.gutter ++ e.shown)[e.leader.length]? = e.shown[e.column]? := by
    rw [e.length_leader, List.getElem?_append_right (Nat.le_add_right _ _), Nat.add_sub_cancel_left]
  constructor
  · rintro ⟨above', shown, marker, column, hblock', hshown', hmarker', hc, hcaret⟩
    have hlast : (above ++ '\n' :: (e.gutter ++ e.shown)) ++ '\n' :: (e.leader ++ ['^']) =
        (above' ++ '\n' :: shown) ++ '\n' :: marker := by
      have h : ((above ++ '\n' :: (e.gutter ++ e.shown)) ++ '\n' :: (e.leader ++ ['^'])) ++ ['\n'] =
          ((above' ++ '\n' :: shown) ++ '\n' :: marker) ++ ['\n'] := by
        simpa using hblock.symm.trans hblock'
      exact List.append_cancel_right h
    obtain ⟨hrest, rfl⟩ := last_line_inj hlast hmarker hmarker'
    obtain ⟨-, rfl⟩ := last_line_inj hrest hshown hshown'
    obtain rfl := (getElem?_caret_iff e.caret_not_mem_leader column).mp hcaret
    rwa [hcolumn] at hc
  · intro h
    refine ⟨above, _, _, e.leader.length, hblock, hshown, hmarker, hcolumn.trans h, ?_⟩
    exact (getElem?_caret_iff e.caret_not_mem_leader _).mpr rfl

theorem feed_not_mem_shown (before after : List Char) : '\n' ∉ (around before after).shown := by
  intro h
  have hline := (List.dropWhile_suffix _).subset ((Text.trimEnd_prefix_self _).subset h)
  rcases List.mem_append.mp hline with h | h
  · exact feed_not_mem_lineBefore before h
  · exact feed_not_mem_lineBehind after h

/-- Where no gap begins, the excerpt has the first character behind the cut in the column of the cut,
unless it has been trimmed off. -/
theorem shown_around_iff (before after : List Char) {c : Char} (hc : isGap c = false) :
    (around before (c :: after)).shown[(around before (c :: after)).column]? = some c ↔
      ∃ e ∈ c :: lineBehind after, isBlank e = false := by
  have hline : lineBehind (c :: after) = c :: lineBehind after := by
    have hne : c ≠ '\n' := by
      rintro rfl
      cases hc
    simp [lineBehind, hne]
  have hstop : ∀ d ∈ (c :: lineBehind after).head?, isIndent d = false := by
    intro d hd
    obtain rfl := Option.some.inj hd
    simp only [isGap, Bool.or_eq_false_iff] at hc
    simp [isIndent, hc.1.1.1, hc.1.1.2]
  have hcolumn : (lineBefore before).length - ((lineBefore before).takeWhile isIndent).length =
      ((lineBefore before).dropWhile isIndent).length := by
    have h := congrArg List.length
      (List.takeWhile_append_dropWhile (p := isIndent) (l := lineBefore before))
    rw [List.length_append] at h
    omega
  rw [around]
  dsimp only
  rw [caretColumn, hline, takeWhile_isIndent_append hstop, dropWhile_isIndent_append hstop, hcolumn,
    Text.getElem?_trimEnd_append]

end Excerpt

/-- Every diagnostic of a source stands at a token of it. Under a token on a line of at most 65535
columns, the caret points at the first character of the token just when that character, or another
behind it on its line, is no blank. So it does at every token that is not illegal. -/
theorem parseSource_pointsAt_iff (source : String) (file : Option String)
    (hsize : source.utf8ByteSize ≤ Position.maxOffset)
    (hwidth : Source.LinesWithin 65535 source.toList) :
    ∀ d ∈ (parseSource source file).2, (∃ t ∈ tokenize source file, d.position = t.start) ∧
      ∀ t ∈ tokenize source file, d.position = t.start → t.kind ≠ .eof →
        ∃ (block : String) (before : List Char) (c : Char) (after : List Char),
          d.render? source = some block ∧
          source.toList = before ++ c :: after ∧ byteLength before = t.start.offset ∧
          t.literal.toList.head? = some c ∧
          (PointsAt block c ↔ ∃ e ∈ c :: lineBehind after, isBlank e = false) ∧
          (t.kind ≠ .illegal → PointsAt block c) := by
  intro d hd
  constructor
  · rw [parseSource_eq] at hd
    exact Cursor.start_of_mem (lexical_ofSource source file) rfl d hd
  · intro t ht hposition hkind
    have hmem : t ∈ (tokenize source file).dropLast := by
      rw [tokenize_eq, List.mem_append, List.mem_singleton] at ht
      rw [dropLast_tokenize]
      exact ht.resolve_right fun heq => hkind (by rw [heq]; rfl)
    obtain ⟨before, word, after, hsource, hword, rfl⟩ := exists_lexeme_of_mem_tokenize hmem
    have hstart := start_ofLexeme hsize hsource (file.getD "shell")
    cases word with
    | nil => exact absurd rfl hword.ne_nil
    | cons c cs =>
      rw [List.cons_append] at hsource
      have hfeed : c ≠ '\n' := by
        rintro rfl
        exact absurd hword.isGap_head (by decide)
      have hcolumn := Nat.le_of_lt_succ (Source.caretColumn_lt hfeed (hsource ▸ hwidth))
      have hpoints := (Excerpt.around before (c :: (cs ++ after))).pointsAt_iff d.heading
        (Excerpt.feed_not_mem_shown _ _) c
      rw [Excerpt.shown_around_iff _ _ hword.isGap_head] at hpoints
      have hblock := d.render?_of_le hsource (by rw [hposition, hstart]) hcolumn
      refine ⟨_, before, c, cs ++ after, hblock, hsource, hstart.symm, ?_, hpoints,
        fun hlegal => hpoints.mpr ⟨c, List.mem_cons_self, ?_⟩⟩
      · simp [Token.ofLexeme]
      · exact Bool.eq_false_iff.mpr fun hblank => hlegal (lexemeKind_of_isBlank hword hblank)

/-- Two statements that fail on one line, the second behind a character of three bytes. -/
def shared : String := "x;\n\t→; let b 2;"

theorem parseSource_pointsAt_iff_shared :
    shared.utf8ByteSize ≤ Position.maxOffset ∧ Source.LinesWithin 65535 shared.toList ∧
      ⟨.unexpectedToken .assign .int, ⟨15, "shell"⟩⟩ ∈ (parseSource shared none).2 ∧
      ⟨.int, "2", ⟨⟨15, "shell"⟩, ⟨16, "shell"⟩⟩⟩ ∈ tokenize shared none ∧
      ∃ block, (Diagnostic.mk (.unexpectedToken .assign .int) ⟨15, "shell"⟩).render? shared =
        some block ∧ PointsAt block '2' := by
  have hsize : shared.utf8ByteSize ≤ Position.maxOffset := by decide +kernel
  have hwidth : Source.LinesWithin 65535 shared.toList := by decide +kernel
  have hd : ⟨.unexpectedToken .assign .int, ⟨15, "shell"⟩⟩ ∈ (parseSource shared none).2 := by
    decide +kernel
  have ht : ⟨.int, "2", ⟨⟨15, "shell"⟩, ⟨16, "shell"⟩⟩⟩ ∈ tokenize shared none := by decide +kernel
  refine ⟨hsize, hwidth, hd, ht, ?_⟩
  obtain ⟨block, _, c, _, hblock, -, -, hc, -, hpoints⟩ :=
    (parseSource_pointsAt_iff shared none hsize hwidth _ hd).2 _ ht rfl (by decide)
  obtain rfl : '2' = c := Option.some.inj hc
  exact ⟨block, hblock, hpoints (by decide)⟩

/-- A blank that ends its line is told of, but is not shown. -/
theorem not_forall_pointsAt :
    ¬ ∀ (source : String) (file : Option String), source.utf8ByteSize ≤ Position.maxOffset →
      Source.LinesWithin 65535 source.toList →
      ∀ d ∈ (parseSource source file).2, ∀ t ∈ tokenize source file, d.position = t.start →
        t.kind ≠ .eof → ∃ (block : String) (c : Char), d.render? source = some block ∧
          t.literal.toList.head? = some c ∧ PointsAt block c := by
  intro h
  have hd : ⟨.noOpening .illegal, ⟨0, "shell"⟩⟩ ∈ (parseSource "\u00a0" none).2 := by decide +kernel
  have ht : ⟨.illegal, "\u00a0", ⟨⟨0, "shell"⟩, ⟨2, "shell"⟩⟩⟩ ∈ tokenize "\u00a0" none := by
    decide +kernel
  have hsource : "\u00a0".toList = [] ++ ['\u00a0'] := by decide +kernel
  obtain ⟨block, c, hblock, -, hpoints⟩ :=
    h "\u00a0" none (by decide +kernel) (by decide +kernel) _ hd _ ht rfl (by decide)
  rw [Diagnostic.render?_of_le _ hsource rfl (by decide +kernel)] at hblock
  obtain rfl := Option.some.inj hblock
  rw [Excerpt.pointsAt_iff _ _ (Excerpt.feed_not_mem_shown _ _)] at hpoints
  have hshown : (Excerpt.around [] ['\u00a0']).shown = [] := by decide +kernel
  rw [hshown] at hpoints
  cases hpoints

end LetScript
