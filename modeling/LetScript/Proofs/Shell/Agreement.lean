import LetScript.Proofs.Program.RoundTrip
import LetScript.Proofs.Reading.Layout
import LetScript.Proofs.Source.Rendering
import LetScript.Shell.Run

/-!
A line and a file of the same content. Unless the line is blank, the shell answers it with the
program just when the file passes, and with the messages of the same diagnostics when it does not
(`Shell.shown_inStep`). A line of blanks that the scanner does not skip gets no answer, though the
file does not pass.
-/
namespace LetScript

open Source (caretColumn)
open Text (byteLength isBlank)

theorem IsName.colon_not_mem {name : String} (h : IsName name) : ':' ∉ name.toList :=
  fun hmem => absurd (h.2.1 ':' hmem) (by decide)

theorem IsNumber.colon_not_mem {number : String} (h : IsNumber number) : ':' ∉ number.toList :=
  fun hmem => absurd (h.2 ':' hmem) (by decide)

theorem Expr.colon_not_mem_print {e : Expr} (h : e.Spelled) : ':' ∉ e.print.toList := by
  induction e with
  | ident identifier => exact IsName.colon_not_mem h
  | int token value => exact IsNumber.colon_not_mem h
  | unary token operator operand ih =>
    have hoperand := ih h.2
    rcases h.1 with rfl | rfl <;> simp [print, hoperand]

namespace Statement

theorem colon_not_mem_printValue {value : Option Expr} (h : ∀ e ∈ value, e.Spelled) :
    ':' ∉ (printValue value).toList := by
  cases value with
  | none => simp [printValue]
  | some e => exact Expr.colon_not_mem_print (h e rfl)

theorem colon_not_mem_print {s : Statement} (h : s.Spelled) : ':' ∉ s.print.toList := by
  cases s with
  | binding token name value =>
    obtain ⟨hlet, hname, hvalue⟩ := h
    simp [print, hlet, hname.colon_not_mem, colon_not_mem_printValue hvalue]
  | ret token value =>
    obtain ⟨hreturn, hvalue⟩ := h
    simp [print, hreturn, colon_not_mem_printValue hvalue]
  | bare token expression => exact Expr.colon_not_mem_print h

theorem colon_not_mem_separator (s : Statement) : ':' ∉ s.separator.toList := by
  cases s <;> simp [separator]

end Statement

/-- No printed program has a colon in it. -/
theorem Program.colon_not_mem_print {p : Program} (h : ∀ s ∈ p.statements, s.Spelled) :
    ':' ∉ p.print.toList := by
  obtain ⟨statements⟩ := p
  change ∀ s ∈ statements, s.Spelled at h
  change ':' ∉ (String.join (pieces statements)).toList
  induction statements using pieces.induct with
  | case1 => simp [pieces]
  | case2 last => simpa [pieces] using Statement.colon_not_mem_print (h last List.mem_cons_self)
  | case3 s rest hrest ih =>
    have hfirst := Statement.colon_not_mem_print (h s List.mem_cons_self)
    have hbehind := ih fun s hs => h s (List.mem_cons_of_mem _ hs)
    rw [pieces, String.join_cons, String.toList_append, String.toList_append, List.mem_append,
      List.mem_append]
    · rintro ((h | h) | h)
      · exact hfirst h
      · exact s.colon_not_mem_separator h
      · exact hbehind h
    · exact hrest

/-- Of a text that is all blanks, the scanner makes nothing but illegal tokens. -/
theorem Scanner.illegal_of_blank (text : List Char) (offset : Nat) (file : String)
    (h : ∀ c ∈ text, isBlank c = true) :
    ∀ t ∈ (Scanner.mk text offset file).scan.1, t.kind = .illegal := by
  intro t ht
  obtain ⟨before, word, after, rfl, hword, rfl⟩ := exists_lexeme_of_mem_scan text offset file t ht
  cases word with
  | nil => exact absurd rfl hword.ne_nil
  | cons c cs => exact lexemeKind_of_isBlank hword (h c (by simp))

/-- No statement begins with an illegal token. -/
theorem Sentence.kind_first_ne_illegal (s : Sentence) : s.first.kind ≠ .illegal := by
  cases s with
  | binding keyword _ _ _ _ => simp [first, keyword.property]
  | ret keyword _ _ => simp [first, keyword.property]
  | emptyRet keyword _ => simp [first, keyword.property]
  | bare value _ =>
    intro hkind
    have hopening := value.opening_first
    rw [first] at hkind
    rw [hkind] at hopening
    cases hopening

/-- A source of blanks does not pass if there is anything in it. -/
theorem diagnostics_of_blank {source : String} {file : Option String}
    (h : ∀ c ∈ source.toList, isBlank c = true)
    (htoken : ∃ t ∈ tokenize source file, t.kind ≠ .eof) : (parseSource source file).2 ≠ [] := by
  intro hnil
  obtain ⟨d, hd, -⟩ := derives_of_diagnostics_nil hnil
  have hillegal : ∀ t ∈ d.flatMap Sentence.tokens, t.kind = .illegal := by
    rw [hd.flatMap_tokens, dropLast_tokenize]
    exact Scanner.illegal_of_blank source.toList 0 _ h
  cases d with
  | nil =>
    obtain ⟨t, ht, hkind⟩ := htoken
    have hempty : (Session.ofSource source file).cursor.ahead = [] := by
      rw [← dropLast_tokenize, ← hd.flatMap_tokens]
      rfl
    rw [tokenize_eq, hempty, List.nil_append, List.mem_singleton] at ht
    exact hkind (congrArg Token.kind ht)
  | cons s d =>
    have hfirst : s.first ∈ s.tokens := by
      rw [s.tokens_eq_cons]
      exact List.mem_cons_self
    exact s.kind_first_ne_illegal
      (hillegal s.first (List.mem_flatMap.mpr ⟨s, List.mem_cons_self, hfirst⟩))

namespace Shell

/-- What is shown for a line that was read with the line feed behind it. -/
def shown (line : String) : Option String := reply? (line ++ "\n").toUTF8.data.toList

/-- How the diagnostics of a line are told. -/
def complaint (diagnostics : List Diagnostic) : String :=
  "parser errors:\n" ++ String.join (diagnostics.map fun d => "\t" ++ d.message ++ "\n")

-- stated here because the equation derived for `complaint` compares its strings byte by byte
theorem complaint_eq (diagnostics : List Diagnostic) :
    complaint diagnostics =
      "parser errors:\n" ++
        String.join (diagnostics.map fun d => "\t" ++ d.message ++ "\n") := rfl

theorem fromUTF8?_toUTF8 (s : String) : String.fromUTF8? s.toUTF8 = some s :=
  dif_pos s.isValidUTF8

/-- Of a line that does not end in a carriage return, the line feed alone is taken off. -/
theorem dropLineEnd_concat {line : List Char} (hreturn : line.getLast? ≠ some '\r') :
    dropLineEnd (line ++ ['\n']) = line := by
  unfold dropLineEnd
  rw [List.reverse_append, List.reverse_singleton, List.singleton_append]
  split
  · rename_i rest h
    rw [List.getLast?_eq_head?_reverse, (List.cons.inj h).2] at hreturn
    exact absurd rfl hreturn
  · rename_i rest _ h
    rw [← (List.cons.inj h).2, List.reverse_reverse]
  · rename_i h
    exact absurd rfl (h line.reverse)

theorem reply?_toUTF8 {text line : String} (h : dropLineEnd text.toList = line.toList) :
    reply? text.toUTF8.data.toList = some (if line.toList.all isBlank then "" else answer line) := by
  rw [reply?, Array.toArray_toList]
  change (String.fromUTF8? text.toUTF8).map _ = _
  rw [fromUTF8?_toUTF8, Option.map_some, h]
  dsimp only
  rw [String.ofList_toList]

theorem shown_eq {line : String} (hreturn : line.toList.getLast? ≠ some '\r') :
    shown line = some (if line.toList.all isBlank then "" else answer line) := by
  have htext : (line ++ "\n").toList = line.toList ++ ['\n'] := by
    rw [String.toList_append]
    rfl
  rw [shown, reply?_toUTF8]
  rw [htext, dropLineEnd_concat hreturn]

theorem complaint_relocate (g : Position → Position) (diagnostics : List Diagnostic) :
    complaint (diagnostics.map (.relocate g)) = complaint diagnostics := by
  rw [complaint_eq, List.map_map]
  rfl

/-- Diagnostics are shown in order, up to the first for which nothing can be rendered. There the run
breaks off. -/
theorem report_eq (source : String) (diagnostics : List Diagnostic) :
    ∃ (told untold : List Diagnostic) (blocks : List String), diagnostics = told ++ untold ∧
      told.map (·.render? source) = blocks.map some ∧
      (∀ d ∈ untold.head?, d.render? source = none) ∧
      report source diagnostics = ⟨String.join blocks, if untold.isEmpty then 1 else 101⟩ := by
  induction diagnostics with
  | nil => exact ⟨[], [], [], rfl, rfl, by simp, rfl⟩
  | cons d rest ih =>
    cases hblock : d.render? source with
    | none =>
      refine ⟨[], d :: rest, [], rfl, rfl, by simpa using hblock, ?_⟩
      rw [report, hblock]
      rfl
    | some block =>
      obtain ⟨told, untold, blocks, rfl, hblocks, hend, hreport⟩ := ih
      refine ⟨d :: told, untold, block :: blocks, rfl, ?_, hend, ?_⟩
      · rw [List.map_cons, List.map_cons, hblock, hblocks]
      · rw [report, hblock, hreport, String.join_cons]

/-- A file that does not pass has another exit code than one that does. -/
theorem exitCode_report_ne_zero (source : String) (diagnostics : List Diagnostic) :
    (report source diagnostics).exitCode ≠ 0 := by
  obtain ⟨told, untold, blocks, -, -, -, hreport⟩ := report_eq source diagnostics
  rw [hreport]
  dsimp only
  split <;> decide

/-- Of the diagnostics of the source itself, the first that is not shown has its caret too far to the
right. -/
theorem report_parseSource (source : String) (file : Option String)
    (hsize : source.utf8ByteSize ≤ Position.maxOffset) :
    ∃ (told untold : List Diagnostic) (blocks : List String),
      (parseSource source file).2 = told ++ untold ∧
      told.map (·.render? source) = blocks.map some ∧
      (∀ d ∈ untold.head?, ∃ before after, source.toList = before ++ after ∧
        byteLength before = d.position.offset ∧ 65534 < caretColumn before after) ∧
      report source (parseSource source file).2 =
        ⟨String.join blocks, if untold.isEmpty then 1 else 101⟩ := by
  obtain ⟨told, untold, blocks, hsplit, hblocks, hend, hreport⟩ :=
    report_eq source (parseSource source file).2
  refine ⟨told, untold, blocks, hsplit, hblocks, fun d hd => ?_, hreport⟩
  have hmem : d ∈ (parseSource source file).2 := by
    rw [hsplit]
    exact List.mem_append_right told (List.mem_of_mem_head? hd)
  have hboundary := isBoundary_of_mem_parseSource source file hsize d hmem
  exact (d.unrenderable_iff_of_boundary hboundary).mp (hend d hd)

/-- A source that has no more characters than can stand left of a caret has all its diagnostics
shown. -/
theorem report_of_narrow (source : String) (file : Option String) (hlength : source.length ≤ 65534) :
    ∃ blocks, (parseSource source file).2.map (·.render? source) = blocks.map some ∧
      report source (parseSource source file).2 = ⟨String.join blocks, 1⟩ := by
  rw [← String.length_toList] at hlength
  have hsize : source.utf8ByteSize ≤ Position.maxOffset := by
    have hbytes := Text.byteLength_le source.toList
    rw [Text.byteLength_toList] at hbytes
    unfold Position.maxOffset
    omega
  obtain ⟨told, untold, blocks, hsplit, hblocks, hend, hreport⟩ := report_parseSource source file hsize
  cases untold with
  | nil => exact ⟨blocks, by rw [hsplit, List.append_nil, hblocks], hreport⟩
  | cons d untold =>
    obtain ⟨before, after, hsource, -, hcolumn⟩ := hend d rfl
    have hle := Source.caretColumn_le before after
    rw [← hsource] at hle
    omega

/-- What is shown for the line and for a file with the line as its content agrees. -/
structure InStep (path line : String) : Prop where
  /-- The line is answered with its program just when the file passes. -/
  passes : shown line = some ((parseSource line none).1.print ++ "\n") ↔
    (checkFile path line.toUTF8).exitCode = 0
  /-- The file then shows the same. -/
  same : (checkFile path line.toUTF8).exitCode = 0 →
    shown line = some (checkFile path line.toUTF8).output
  /-- Else the line is answered with the messages of the diagnostics that are shown of the file. -/
  refuses : (checkFile path line.toUTF8).exitCode ≠ 0 →
    ∃ diagnostics, diagnostics = (parseSource line (baseName? path)).2 ∧ diagnostics ≠ [] ∧
      shown line = some (complaint diagnostics) ∧
      checkFile path line.toUTF8 = report line diagnostics
  /-- They are shown in order, up to the first whose caret would have more than 65534 characters left
  of it, unless offsets are capped. -/
  rendered : (checkFile path line.toUTF8).exitCode ≠ 0 → line.utf8ByteSize ≤ Position.maxOffset →
    ∃ (told untold : List Diagnostic) (blocks : List String),
      (parseSource line (baseName? path)).2 = told ++ untold ∧
      told.map (·.render? line) = blocks.map some ∧
      (∀ d ∈ untold.head?, ∃ before after, line.toList = before ++ after ∧
        byteLength before = d.position.offset ∧ 65534 < caretColumn before after) ∧
      checkFile path line.toUTF8 = ⟨String.join blocks, if untold.isEmpty then 1 else 101⟩
  /-- Of a line that has no more characters than that, all are. -/
  narrow : (checkFile path line.toUTF8).exitCode ≠ 0 → line.length ≤ 65534 →
    ∃ blocks, (parseSource line (baseName? path)).2.map (·.render? line) = blocks.map some ∧
      checkFile path line.toUTF8 = ⟨String.join blocks, 1⟩

section

variable {path line : String}

theorem answer_eq (line : String) :
    answer line = if (parseSource line none).2.isEmpty then (parseSource line none).1.print ++ "\n"
      else complaint (parseSource line none).2 := rfl

theorem checkFile_eq (path line : String) :
    checkFile path line.toUTF8 =
      if (parseSource line (baseName? path)).2.isEmpty then
        ⟨(parseSource line (baseName? path)).1.print ++ "\n", 0⟩
      else report line (parseSource line (baseName? path)).2 := by
  rw [checkFile, fromUTF8?_toUTF8]
  rfl

theorem answer_of_passed (h : (parseSource line none).2 = []) :
    answer line = (parseSource line none).1.print ++ "\n" := by
  rw [answer_eq, if_pos (List.isEmpty_iff.mpr h)]

theorem answer_of_refused (h : (parseSource line none).2 ≠ []) :
    answer line = complaint (parseSource line none).2 := by
  rw [answer_eq, if_neg (mt List.isEmpty_iff.mp h)]

/-- The file passes just when the line does, and the program is the same but for the name in its
positions. -/
theorem checkFile_of_passed (h : (parseSource line none).2 = []) :
    checkFile path line.toUTF8 = ⟨(parseSource line none).1.print ++ "\n", 0⟩ := by
  have hfile := parseSource_inFile line none (baseName? path)
  rw [checkFile_eq, hfile, h, List.map_nil, Program.print_relocate]
  rfl

theorem checkFile_of_refused (h : (parseSource line none).2 ≠ []) :
    (parseSource line (baseName? path)).2 ≠ [] ∧
      checkFile path line.toUTF8 = report line (parseSource line (baseName? path)).2 := by
  have hrefused : (parseSource line (baseName? path)).2 ≠ [] := by
    rw [parseSource_inFile line none (baseName? path)]
    exact fun hmap => h (List.map_eq_nil_iff.mp hmap)
  refine ⟨hrefused, ?_⟩
  rw [checkFile_eq, if_neg (mt List.isEmpty_iff.mp hrefused)]

/-- No program is printed as a complaint. -/
theorem complaint_ne_print (source : String) (file : Option String)
    (diagnostics : List Diagnostic) :
    complaint diagnostics ≠ (parseSource source file).1.print ++ "\n" := by
  intro heq
  have hspelled : ∀ s ∈ (parseSource source file).1.statements, s.Spelled := fun s hs =>
    (wellFormed_parseSource source file s hs).spelled
  have hnot : ':' ∉ ((parseSource source file).1.print ++ "\n").toList := by
    rw [String.toList_append, List.mem_append]
    rintro (h | h)
    · exact Program.colon_not_mem_print hspelled h
    · exact absurd h (by decide +kernel)
  refine hnot ?_
  rw [← heq, complaint_eq, String.toList_append]
  exact List.mem_append_left _ (by decide +kernel)

/-- A line that is answered is answered in step. -/
theorem inStep_of_shown (h : shown line = some (answer line)) : InStep path line := by
  by_cases hpassed : (parseSource line none).2 = []
  · have hcheck : checkFile path line.toUTF8 = _ := checkFile_of_passed hpassed
    rw [answer_of_passed hpassed] at h
    refine ⟨?_, ?_, ?_, ?_, ?_⟩ <;> rw [hcheck]
    · exact iff_of_true h rfl
    · exact fun _ => h
    · exact fun hne => absurd rfl hne
    · exact fun hne => absurd rfl hne
    · exact fun hne => absurd rfl hne
  · obtain ⟨hrefused, hcheck⟩ := checkFile_of_refused hpassed
    have hcode : (checkFile path line.toUTF8).exitCode ≠ 0 := by
      rw [hcheck]
      exact exitCode_report_ne_zero line _
    have hshown : shown line = some (complaint (parseSource line (baseName? path)).2) := by
      rw [h, answer_of_refused hpassed, parseSource_inFile line none (baseName? path),
        complaint_relocate]
    refine ⟨iff_of_false ?_ hcode, fun hzero => absurd hzero hcode, fun _ => ?_, fun _ hsize => ?_,
      fun _ hlength => ?_⟩
    · rw [hshown, Option.some.injEq]
      exact complaint_ne_print line none _
    · exact ⟨_, rfl, hrefused, hshown, hcheck⟩
    · rw [hcheck]
      exact report_parseSource line (baseName? path) hsize
    · rw [hcheck]
      exact report_of_narrow line (baseName? path) hlength

/-- A line of blanks gets no answer, but a file of them does not pass if there is anything in it. -/
theorem unanswered_of_blank (hreturn : line.toList.getLast? ≠ some '\r')
    (htoken : ∃ t ∈ tokenize line none, t.kind ≠ .eof)
    (hblank : ∀ c ∈ line.toList, isBlank c = true) :
    shown line = some "" ∧ (checkFile path line.toUTF8).exitCode ≠ 0 := by
  constructor
  · rw [shown_eq hreturn, if_pos (List.all_eq_true.mpr hblank)]
  · rw [(checkFile_of_refused (diagnostics_of_blank hblank htoken)).2]
    exact exitCode_report_ne_zero line _

end

/-- A line whose last character is no carriage return, and of which the scanner makes a token, is
answered in step with a file of the same content, unless all its characters are blanks. A line of
blanks gets no answer, and the file does not pass. -/
theorem shown_inStep (path line : String) (hreturn : line.toList.getLast? ≠ some '\r')
    (htoken : ∃ t ∈ tokenize line none, t.kind ≠ .eof) :
    ((∃ c ∈ line.toList, isBlank c = false) → InStep path line) ∧
      ((∀ c ∈ line.toList, isBlank c = true) →
        shown line = some "" ∧ (checkFile path line.toUTF8).exitCode ≠ 0) := by
  refine ⟨?_, unanswered_of_blank hreturn htoken⟩
  rintro ⟨c, hc, hblank⟩
  have hall : ¬ line.toList.all isBlank = true := fun hall =>
    Bool.false_ne_true (hblank.symm.trans (List.all_eq_true.mp hall c hc))
  have hshown := shown_eq hreturn
  rw [if_neg hall] at hshown
  exact inStep_of_shown hshown

/-- Two statements that fail, one of them at a blank. -/
theorem shown_inStep_faulty :
    "\u00a0x; y; (b".toList.getLast? ≠ some '\r' ∧
      (∃ t ∈ tokenize "\u00a0x; y; (b" none, t.kind ≠ .eof) ∧
      (parseSource "\u00a0x; y; (b" none).2.length = 2 ∧
      InStep "in/file" "\u00a0x; y; (b" := by
  have hreturn : "\u00a0x; y; (b".toList.getLast? ≠ some '\r' := by decide +kernel
  have htoken : ∃ t ∈ tokenize "\u00a0x; y; (b" none, t.kind ≠ .eof := by decide +kernel
  have hletter : ∃ c ∈ "\u00a0x; y; (b".toList, isBlank c = false :=
    ⟨'x', by decide +kernel, by decide⟩
  refine ⟨hreturn, htoken, by decide +kernel, ?_⟩
  exact (shown_inStep "in/file" "\u00a0x; y; (b" hreturn htoken).1 hletter

/-- Blanks that are no gaps are all that it takes to be out of step. -/
theorem not_forall_inStep :
    ¬ ∀ path line : String, '\n' ∉ line.toList → line.toList.getLast? ≠ some '\r' →
      '\x08' ∉ line.toList → (∃ t ∈ tokenize line none, t.kind ≠ .eof) → InStep path line := by
  intro h
  have hreturn : "\u00a0".toList.getLast? ≠ some '\r' := by decide +kernel
  have htoken : ∃ t ∈ tokenize "\u00a0" none, t.kind ≠ .eof := by decide +kernel
  have hblank : ∀ c ∈ "\u00a0".toList, isBlank c = true := List.all_eq_true.mp (by decide +kernel)
  have hstep := h "file" "\u00a0" (by decide +kernel) hreturn (by decide +kernel) htoken
  obtain ⟨hshown, hcode⟩ : _ ∧ (checkFile "file" _).exitCode ≠ 0 :=
    unanswered_of_blank hreturn htoken hblank
  obtain ⟨diagnostics, -, -, hcomplaint, -⟩ := hstep.refuses hcode
  rw [hshown, Option.some.injEq] at hcomplaint
  exact absurd (congrArg String.toList hcomplaint) (by simp [complaint_eq])

end Shell

end LetScript
