import LetScript.Proofs.Reading.Session
import LetScript.Proofs.Token.Overwrite

/-!
Reading on. What a session has behind it has no influence on what `parse` makes of the rest: it is
read as a source of its own, in which spaces stand for all that lies before the current token
(`parse_performAll`).
-/
namespace LetScript

open Text (byteLength)

/-- The source with spaces over every byte before an offset. -/
def blankedBefore (offset : Nat) (source : String) : String :=
  String.ofList (overwrite (fun i => decide (i < offset)) 0 source.toList)

section

variable {source : String} {file : Option String}

/-- The tokens that have been passed end before the current one, and the others do not begin before
it. -/
theorem cut_at_current (hsize : source.utf8ByteSize ≤ Position.maxOffset) {passed rest : List Token}
    (h : (Session.ofSource source file).cursor.ahead = passed ++ rest) {t : Token}
    (ht : rest.headD (.endOfInput (Session.ofSource source file).cursor.stop) = t) :
    (∀ u ∈ passed, u.span.stop.offset ≤ t.start.offset) ∧
      ∀ u ∈ rest, t.start.offset ≤ u.span.start.offset := by
  have horder : InOrder (tokenize source file).dropLast := inOrder_tokenize hsize
  rw [dropLast_tokenize, h] at horder
  cases rest with
  | nil =>
    subst ht
    exact ⟨fun u hu => stop_le_stop hsize u (by simp [h, hu]), by simp⟩
  | cons v rest =>
    obtain rfl : v = t := ht
    obtain ⟨-, hrest, hbetween⟩ := inOrder_append.mp horder
    exact ⟨fun u hu => hbetween u hu v List.mem_cons_self, fun u hu => hrest.start_head_le hu rfl⟩

/-- Spaces over all that stands before the current token leave just what lies ahead. -/
theorem cursor_blankedBefore (hsize : source.utf8ByteSize ≤ Position.maxOffset)
    {passed rest : List Token} (h : (Session.ofSource source file).cursor.ahead = passed ++ rest)
    {t : Token} (ht : rest.headD (.endOfInput (Session.ofSource source file).cursor.stop) = t) :
    (Session.ofSource (blankedBefore t.start.offset source) file).cursor =
      ⟨rest, (Session.ofSource source file).cursor.stop, 0⟩ := by
  obtain ⟨hpassed, hrest⟩ := cut_at_current hsize h ht
  obtain ⟨hspan, -⟩ : InOrder (tokenize source file).dropLast := inOrder_tokenize hsize
  rw [dropLast_tokenize, h] at hspan
  let covered (i : Nat) : Bool := decide (i < t.start.offset)
  have hgone : ∀ u ∈ passed, covered u.span.start.offset = true := fun u hu => by
    have hlt := hspan u (List.mem_append_left _ hu)
    have hle := hpassed u hu
    exact decide_eq_true (by omega)
  have hkept : ∀ u ∈ rest, covered u.span.start.offset = false := fun u hu =>
    decide_eq_false (Nat.not_lt.mpr (hrest u hu))
  have hwhole : ∀ u ∈ (Session.ofSource source file).cursor.ahead, u.Unbroken covered := by
    rw [h]
    intro u hu i hi
    rcases List.mem_append.mp hu with hu | hu
    · rw [hgone u hu]
      exact decide_eq_true (Nat.lt_of_lt_of_le hi.2 (hpassed u hu))
    · rw [hkept u hu]
      exact decide_eq_false (Nat.not_lt.mpr (Nat.le_trans (hrest u hu) hi.1))
  have hfilter : (Session.ofSource source file).cursor.ahead.filter
      (!covered ·.span.start.offset) = rest := by
    have hnone : passed.filter (!covered ·.span.start.offset) = [] :=
      List.filter_eq_nil_iff.mpr fun u hu => by simp [hgone u hu]
    have hall : rest.filter (!covered ·.span.start.offset) = rest :=
      List.filter_eq_self.mpr fun u hu => by simp [hkept u hu]
    rw [h, List.filter_append, hnone, hall, List.nil_append]
  have hscan := Scanner.scan_overwrite source.toList 0 (file.getD "shell")
    (end_le_maxOffset hsize) hwhole
  rw [cursor_ofSource (blankedBefore _ _), blankedBefore, String.toList_ofList, hscan]
  exact congrArg (Cursor.mk · _ 0) hfilter

end

namespace Session

/-- What `parse` makes of a session depends on the cursor alone, and not on what is open. -/
theorem parse_congr {s s' : Session}
    (h : { s.cursor with depth := 0 } = ({ s'.cursor with depth := 0 } : Cursor)) :
    s.parse = s'.parse := by
  rw [parse, parse, h]

/-- With nothing left to read, `parse` finds nothing and records nothing. -/
theorem parse_of_ahead_nil {s : Session} (h : s.cursor.ahead = []) :
    s.parse.1 = ⟨[]⟩ ∧ s.parse.2.diagnostics = [] := by
  have hahead : ({ s.cursor with depth := 0 } : Cursor).ahead = [] := h
  rw [parse, Cursor.attempts_nil hahead]
  exact ⟨rfl, rfl⟩

/-- What `parse` makes of a session on a source, and how it leaves the session. -/
structure ReadsOn (source : String) (file : Option String) (s : Session) : Prop where
  /-- What is left is read as a fresh session reads the source in which spaces stand for all that
  lies before the current token. -/
  rest : (s.parse.1, s.parse.2.diagnostics) =
    parseSource (blankedBefore s.position.offset source) file
  current : s.parse.2.current.kind = .eof
  peek : s.parse.2.peek.kind = .eof
  depth : s.parse.2.cursor.depth = 0
  again : s.parse.2.parse.1 = ⟨[]⟩ ∧ s.parse.2.parse.2.diagnostics = []

/-- Whatever has been called before, `parse` depends on nothing but what is left to read: neither on
the expressions that are open nor on the diagnostics of earlier calls. -/
theorem parse_performAll (source : String) (file : Option String) (operations : List Operation)
    (hsize : source.utf8ByteSize ≤ Position.maxOffset) :
    ((ofSource source file).performAll operations).ReadsOn source file := by
  have hstands := performAll_ahead (ofSource source file) operations
  obtain ⟨-, hstop⟩ := performAll_bounded (ofSource source file) operations (Nat.zero_le _)
  generalize (ofSource source file).performAll operations = s at hstands hstop
  obtain ⟨passed, hsplit⟩ := hstands
  have hcurrent : s.cursor.ahead.headD (.endOfInput (ofSource source file).cursor.stop) =
      s.current := by
    rw [← hstop]
    rfl
  have hcursor := cursor_blankedBefore hsize hsplit.symm hcurrent
  have hfresh : s.parse = (ofSource (blankedBefore s.position.offset source) file).parse := by
    refine parse_congr ?_
    change Cursor.mk s.cursor.ahead s.cursor.stop 0 =
      { (ofSource (blankedBefore s.current.start.offset source) file).cursor with depth := 0 }
    rw [hcursor, hstop]
  have hend := s.cursor_parse
  refine ⟨?_, ?_, ?_, ?_, ?_⟩
  · rw [hfresh]
    rfl
  · rw [current, hend]
    rfl
  · rw [peek, hend]
    rfl
  · rw [hend]
  · exact parse_of_ahead_nil (by rw [hend])

/-- Operations that leave a level open and fail in the middle of a group. -/
def astray : List Operation := [.statement, .enterNesting, .opening .group, .expectPeek .rparen]

theorem parse_performAll_astray :
    "a (b; let é 5; !c".utf8ByteSize ≤ Position.maxOffset ∧
    ((ofSource "a (b; let é 5; !c" none).performAll astray).cursor.depth = 1 ∧
    blankedBefore ((ofSource "a (b; let é 5; !c" none).performAll astray).position.offset
      "a (b; let é 5; !c" = "   b; let é 5; !c" ∧
    ((ofSource "a (b; let é 5; !c" none).performAll astray).ReadsOn "a (b; let é 5; !c" none := by
  have hsize : "a (b; let é 5; !c".utf8ByteSize ≤ Position.maxOffset := by decide
  have hdepth : ((ofSource "a (b; let é 5; !c" none).performAll astray).cursor.depth = 1 := by
    decide +kernel
  have htext : blankedBefore
      ((ofSource "a (b; let é 5; !c" none).performAll astray).position.offset
        "a (b; let é 5; !c" = "   b; let é 5; !c" := by
    decide +kernel
  exact ⟨hsize, hdepth, htext, parse_performAll "a (b; let é 5; !c" none astray hsize⟩

end Session

end LetScript
