import LetScript.Proofs.Token.Relocation
import LetScript.Proofs.Token.Spelling
import LetScript.Proofs.Token.Tokenization

/-!
Scanning two texts one behind the other. The tokens of both are found side by side, the second ones
moved by the size of the first text, unless a run of letters or of digits goes on from the one text
into the other; then there is one token less (`length_spellings_of_joined`). So two texts can be
scanned apart just when the last character of the one and the first of the other are not of one run
(`tokenize_append_iff`).
-/
namespace LetScript

open Text (byteLength isBlank)

theorem joins_blank {c d : Char} (hd : isBlank d = true) : joins c d = false := by
  refine Bool.eq_false_iff.mpr fun hj => ?_
  rcases joins_iff.mp hj with h | h
  · exact not_isBlank_of_isLetter h.2 hd
  · exact not_isBlank_of_isDigit h.2 hd

/-- A run goes on from the one text into the other. -/
theorem not_apart_iff {a b : List Char} :
    ¬ Apart a b ↔ ∃ c ∈ a.getLast?, ∃ d ∈ b.head?, joins c d = true := by
  simp [Apart]

/-- Only the last character of a text matters to what follows it. -/
theorem apart_append_iff (a : List Char) {b rest : List Char} (hne : b ≠ []) :
    Apart (a ++ b) rest ↔ Apart b rest := by
  rw [Apart, Apart, List.getLast?_append_of_ne_nil a hne]

theorem apart_gap {c : Char} (hc : isGap c = true) (rest : List Char) : Apart [c] rest := by
  intro d hd e _
  obtain rfl : c = d := Option.some.inj hd
  rw [joins_comm, joins_gap hc]

/-- Two lexemes of which the one goes on in the other are one run. -/
theorem IsLexeme.append {a b : List Char} (ha : IsLexeme a) (hb : IsLexeme b) {c d : Char}
    (hc : c ∈ a) (hd : d ∈ b) (h : joins c d = true) : IsLexeme (a ++ b) := by
  have hne : a ++ b ≠ [] := List.append_ne_nil_of_left_ne_nil ha.ne_nil b
  rcases joins_iff.mp h with h | h
  · exact .word hne (List.forall_mem_append.mpr ⟨ha.all_isLetter hc h.1, hb.all_isLetter hd h.2⟩)
  · exact .number hne (List.forall_mem_append.mpr ⟨ha.all_isDigit hc h.1, hb.all_isDigit hd h.2⟩)

/-- A text into which a run goes on begins with a lexeme that continues the run. -/
theorem exists_continuation {word b : List Char} (hword : IsLexeme word) (h : ¬ Apart word b) :
    ∃ run rest, b = run ++ rest ∧ IsLexeme run ∧ IsLexeme (word ++ run) ∧ Apart run rest := by
  obtain ⟨c, hc, d, hd, hjoins⟩ := not_apart_iff.mp h
  obtain ⟨later, rfl⟩ := List.head?_eq_some_iff.mp hd
  have hgap : isGap d = false := by
    refine Bool.eq_false_iff.mpr fun hg => ?_
    rw [joins_gap hg] at hjoins
    cases hjoins
  obtain ⟨run, rest, hsplit, hrun, hapart⟩ := exists_lexeme hgap later
  have hfirst : d ∈ run := by
    obtain ⟨e, more, rfl⟩ := List.exists_cons_of_ne_nil hrun.ne_nil
    obtain ⟨rfl, -⟩ := List.cons.inj hsplit
    exact List.mem_cons_self
  exact ⟨run, rest, hsplit, hrun, hword.append hrun (List.mem_of_getLast? hc) hfirst hjoins, hapart⟩

/-- Where a run goes on across the cut there is one token less than in both texts together. -/
theorem length_spellings_of_joined {a b : List Char} (h : ¬ Apart a b) :
    (spellings (a ++ b)).length + 1 = (spellings a).length + (spellings b).length := by
  induction a using text_induction with
  | nil => exact absurd (by simp [Apart]) h
  | gap c rest hc ih =>
    have hne : rest ≠ [] := by
      rintro rfl
      exact h (apart_gap hc b)
    rw [← List.singleton_append, apart_append_iff [c] hne] at h
    rw [List.cons_append, spellings_gap hc, spellings_gap hc, ih h]
  | lexeme word rest hword hapart ih =>
    cases rest with
    | nil =>
      rw [List.append_nil] at h ⊢
      obtain ⟨run, rest, rfl, hrun, hboth, hrest⟩ := exists_continuation hword h
      have hbehind : Apart (word ++ run) rest := (apart_append_iff word hrun.ne_nil).mpr hrest
      have hfront := spellings_lexeme hword (detached_nil.apart word)
      rw [List.append_nil, spellings_nil] at hfront
      rw [← List.append_assoc, spellings_lexeme hboth hbehind, spellings_lexeme hrun hrest, hfront]
      simp only [List.length_cons, List.length_nil]
      omega
    | cons c rest =>
      rw [apart_append_iff word (List.cons_ne_nil c rest)] at h
      have hfirst : Apart word (c :: rest ++ b) := hapart
      rw [List.append_assoc, spellings_lexeme hword hfirst, spellings_lexeme hword hapart,
        List.length_cons, List.length_cons, ih h]
      omega

theorem tokenize_ne_nil (source : String) (file : Option String) : tokenize source file ≠ [] := by
  rw [tokenize_eq_scan]
  exact List.concat_ne_nil _ _

theorem length_tokenize (source : String) (file : Option String) :
    (tokenize source file).length = (spellings source.toList).length + 1 := by
  rw [← List.length_map Token.spelling, map_spelling_tokenize, List.length_append,
    List.length_singleton]

section

variable {a b : String} {file : Option String}

/-- Texts that stand apart are scanned each by itself. -/
theorem tokenize_append (h : Apart a.toList b.toList)
    (hsize : a.utf8ByteSize + b.utf8ByteSize ≤ Position.maxOffset) :
    tokenize (a ++ b) file = (tokenize a file).dropLast ++
      (tokenize b file).map (Token.relocate (.shift a.utf8ByteSize)) := by
  have hstart : 0 + byteLength a.toList = a.utf8ByteSize := by
    rw [Text.byteLength_toList, Nat.zero_add]
  have hend : a.utf8ByteSize + byteLength b.toList ≤ Position.maxOffset := by
    rw [Text.byteLength_toList]
    exact hsize
  have hstop : Token.relocate (.shift a.utf8ByteSize)
      (.endOfInput (.ofOffset b.utf8ByteSize (file.getD "shell"))) =
        .endOfInput (.ofOffset (a ++ b).utf8ByteSize (file.getD "shell")) := by
    rw [String.utf8ByteSize_append, ← Position.shift_ofOffset hsize]
    rfl
  rw [tokenize_eq_scan, tokenize_eq_scan, tokenize_eq_scan, String.toList_append,
    Scanner.scan_append h, hstart, Scanner.scan_shift hend, List.dropLast_concat, List.map_append,
    List.map_singleton, hstop, List.append_assoc]

theorem apart_of_tokenize_append {g : Position → Position}
    (h : tokenize (a ++ b) file =
      (tokenize a file).dropLast ++ (tokenize b file).map (Token.relocate g)) :
    Apart a.toList b.toList := by
  refine Classical.byContradiction fun hjoined => ?_
  have hlength := congrArg List.length h
  rw [List.length_append, List.length_map, List.length_dropLast, length_tokenize, length_tokenize,
    length_tokenize, String.toList_append] at hlength
  have hless := length_spellings_of_joined hjoined
  omega

/-- Blanks keep what stands before them apart from what stands behind. -/
theorem tokenize_append_blanks {between : String} (hne : between ≠ "")
    (hblank : ∀ c ∈ between.toList, isBlank c = true)
    (hsize : a.utf8ByteSize + between.utf8ByteSize + b.utf8ByteSize ≤ Position.maxOffset) :
    tokenize (a ++ between ++ b) file = (tokenize a file).dropLast ++
      (tokenize between file).dropLast.map (Token.relocate (.shift a.utf8ByteSize)) ++
        (tokenize b file).map (Token.relocate (.shift (a.utf8ByteSize + between.utf8ByteSize))) := by
  have hbefore : Apart a.toList between.toList := fun c _ d hd =>
    joins_blank (hblank d (List.mem_of_mem_head? hd))
  have hbehind : Apart (a ++ between).toList b.toList := by
    rw [String.toList_append, apart_append_iff a.toList (by simpa using hne)]
    intro c hc d _
    rw [joins_comm, joins_blank (hblank c (List.mem_of_getLast? hc))]
  have hfront : (tokenize (a ++ between) file).dropLast = (tokenize a file).dropLast ++
      (tokenize between file).dropLast.map (Token.relocate (.shift a.utf8ByteSize)) := by
    have hsome : (tokenize between file).map (Token.relocate (.shift a.utf8ByteSize)) ≠ [] :=
      mt List.map_eq_nil_iff.mp (tokenize_ne_nil between file)
    rw [tokenize_append hbefore (by omega), List.dropLast_append_of_ne_nil hsome, List.map_dropLast]
  rw [← String.utf8ByteSize_append] at hsize ⊢
  rw [tokenize_append hbehind hsize, hfront]

theorem dropLast_tokenize_gap {gap : String} (h : ∀ c ∈ gap.toList, isGap c = true) :
    (tokenize gap file).dropLast = [] := by
  have hscan := Scanner.scan_gap h [] 0 (file.getD "shell")
  rw [List.append_nil, Scanner.scan_nil] at hscan
  rw [tokenize_eq_scan, List.dropLast_concat, hscan]

end

/-- Two texts are scanned apart just when no run of letters or of digits goes on from the one into the
other. Blanks between two texts always keep their tokens apart, and blanks that are gaps have no token
of their own. -/
theorem tokenize_append_iff (a b : String) (file : Option String) :
    (a.utf8ByteSize + b.utf8ByteSize ≤ Position.maxOffset →
      (tokenize (a ++ b) file = (tokenize a file).dropLast ++
          (tokenize b file).map (Token.relocate (.shift a.utf8ByteSize)) ↔
        ¬ ∃ c ∈ a.toList.getLast?, ∃ d ∈ b.toList.head?,
          isLetter c = true ∧ isLetter d = true ∨ c.isDigit = true ∧ d.isDigit = true)) ∧
    ∀ between : String, between ≠ "" → (∀ c ∈ between.toList, isBlank c = true) →
      a.utf8ByteSize + between.utf8ByteSize + b.utf8ByteSize ≤ Position.maxOffset →
        tokenize (a ++ between ++ b) file = (tokenize a file).dropLast ++
          (tokenize between file).dropLast.map (Token.relocate (.shift a.utf8ByteSize)) ++
            (tokenize b file).map
              (Token.relocate (.shift (a.utf8ByteSize + between.utf8ByteSize))) ∧
        ((∀ c ∈ between.toList, isGap c = true) → (tokenize between file).dropLast = []) := by
  constructor
  · intro hsize
    have hrun : (∃ c ∈ a.toList.getLast?, ∃ d ∈ b.toList.head?,
        isLetter c = true ∧ isLetter d = true ∨ c.isDigit = true ∧ d.isDigit = true) ↔
          ¬ Apart a.toList b.toList := by
      simp only [not_apart_iff, joins_iff]
    rw [hrun, Classical.not_not]
    exact ⟨apart_of_tokenize_append, fun h => tokenize_append h hsize⟩
  · intro between hne hblank hsize
    exact ⟨tokenize_append_blanks hne hblank hsize, dropLast_tokenize_gap⟩

/-- A number goes on across the first cut, not across the second, and not across blanks. -/
theorem tokenize_append_iff_seam :
    "let é1".utf8ByteSize + "2;".utf8ByteSize ≤ Position.maxOffset ∧
      ¬ tokenize ("let é1" ++ "2;") none = (tokenize "let é1" none).dropLast ++
        (tokenize "2;" none).map (Token.relocate (.shift "let é1".utf8ByteSize)) ∧
      "let é1".utf8ByteSize + "x;".utf8ByteSize ≤ Position.maxOffset ∧
      tokenize ("let é1" ++ "x;") none = (tokenize "let é1" none).dropLast ++
        (tokenize "x;" none).map (Token.relocate (.shift "let é1".utf8ByteSize)) ∧
      "let é1".utf8ByteSize + " \t".utf8ByteSize + "2;".utf8ByteSize ≤ Position.maxOffset ∧
      tokenize ("let é1" ++ " \t" ++ "2;") none = (tokenize "let é1" none).dropLast ++
        (tokenize " \t" none).dropLast.map (Token.relocate (.shift "let é1".utf8ByteSize)) ++
          (tokenize "2;" none).map
            (Token.relocate (.shift ("let é1".utf8ByteSize + " \t".utf8ByteSize))) ∧
      (tokenize " \t" none).dropLast = [] := by
  have hblank : ∀ c ∈ " \t".toList, isBlank c = true := List.all_eq_true.mp (by decide)
  have hgap : ∀ c ∈ " \t".toList, isGap c = true := List.all_eq_true.mp (by decide)
  obtain ⟨hjoined, hbetween⟩ := tokenize_append_iff "let é1" "2;" none
  obtain ⟨happart, -⟩ := tokenize_append_iff "let é1" "x;" none
  obtain ⟨hblanks, hnone⟩ := hbetween " \t" (by decide) hblank (by decide)
  refine ⟨by decide, fun h => ?_, by decide, ?_, by decide, hblanks, hnone hgap⟩
  · exact (hjoined (by decide)).mp h ⟨'1', rfl, '2', rfl, .inr (by decide)⟩
  · refine (happart (by decide)).mpr ?_
    rintro ⟨c, hc, d, hd, h⟩
    obtain rfl : '1' = c := Option.some.inj hc
    obtain rfl : 'x' = d := Option.some.inj hd
    exact absurd h (by decide)

end LetScript
