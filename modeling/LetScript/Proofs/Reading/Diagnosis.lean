import LetScript.Proofs.Grammar.Viability
import LetScript.Proofs.Reading.Frame
import LetScript.Proofs.Reading.Source

/-!
What diagnostics tell. A diagnostic stands at a token of the source or at its end, and its cause says
something about that token and about the tokens of the same statement before it; what it says is so
(`Sentence.Impasse.holds`). The diagnostics of a source stand in the order of the source, and no two
at one place (`diagnostics_truthful`). But for the nesting limit, each stands at the first token with
which its statement had become hopeless (`diagnostics_earliest`).
-/
namespace LetScript

open Text (decimalValue)

/-- What a cause says of a token and of the tokens passed before it in the same statement. -/
def Cause.Holds (passed : List Token) (t : Token) : Cause → Prop
  | unexpectedToken expected got => got = t.kind ∧ got ≠ expected ∧
      ((expected = .ident ∧ ∃ keyword : Terminal .letKeyword, passed = [keyword.val]) ∨
        (expected = .assign ∧ ∃ (keyword : Terminal .letKeyword) (name : Terminal .ident),
          passed = [keyword.val, name.val]) ∨
        (expected = .rparen ∧ ∃ (before : List Token) (opening : Terminal .lparen) (inner : Phrase),
          passed = before ++ opening.val :: inner.tokens))
  | noOpening kind => kind = t.kind ∧ kind.opening? = none
  | invalidInteger literal => t.kind = .int ∧ t.literal = literal ∧
      maxInteger < decimalValue literal.toList
  | nestingTooDeep limit => limit = maxNesting ∧ ∃ before openers : List Token,
      passed = before ++ openers ∧ openers.length = maxNesting ∧
        ∀ u ∈ openers, u.kind = .bang ∨ u.kind = .minus ∨ u.kind = .lparen

/-- What opened the expressions counted by the depth stands right before the tokens passed. -/
theorem Phrase.Impasse.holds {depth : Nat} {passed : List Token} {t : Token} {cause : Cause}
    (h : Phrase.Impasse depth passed t cause) (before openers : List Token)
    (hopeners : ∀ u ∈ openers, u.kind = .bang ∨ u.kind = .minus ∨ u.kind = .lparen)
    (hlength : openers.length = depth) (hdepth : depth ≤ maxNesting) :
    cause.Holds (before ++ openers ++ passed) t := by
  induction h generalizing openers with
  | tooDeep t hdeep =>
    refine ⟨rfl, before, openers, by simp, ?_, hopeners⟩
    omega
  | noOpening t _ hnone => exact ⟨rfl, hnone⟩
  | tooLarge t _ hkind hlarge => exact ⟨hkind, rfl, hlarge⟩
  | unclosed opening inner t _ hclose =>
    exact ⟨rfl, hclose, .inr (.inr ⟨rfl, before ++ openers, opening, inner, rfl⟩)⟩
  | @behind depth passed t cause opener hlevel _ ih =>
    have hall : ∀ u ∈ openers ++ [opener.val],
        u.kind = .bang ∨ u.kind = .minus ∨ u.kind = .lparen := by
      intro u hu
      rcases List.mem_append.mp hu with hu | hu
      · exact hopeners u hu
      · obtain rfl := List.mem_singleton.mp hu
        exact opener.property
    have h := ih (openers ++ [opener.val]) hall (by simp [hlength]) hlevel
    simpa using h

/-- What is told of a statement at an impasse holds of the tokens passed and the one met. -/
theorem Sentence.Impasse.holds {passed : List Token} {t : Token} {cause : Cause}
    (h : Sentence.Impasse passed t cause) : cause.Holds passed t := by
  have hvalue {passed : List Token} {t : Token} {cause : Cause}
      (h : Phrase.Impasse 0 passed t cause) (before : List Token) :
      cause.Holds (before ++ passed) t := by
    simpa using h.holds before [] (by simp) rfl (Nat.zero_le _)
  cases h with
  | name keyword t hname => exact ⟨rfl, hname, .inl ⟨rfl, keyword, rfl⟩⟩
  | sign keyword name t hsign => exact ⟨rfl, hsign, .inr (.inl ⟨rfl, keyword, name, rfl⟩)⟩
  | bound keyword name sign h => exact hvalue h [keyword.val, name.val, sign.val]
  | returned keyword h _ => exact hvalue h [keyword.val]
  | bare h _ => exact hvalue h []

namespace Cursor

/-- What is left when a statement has been given up stands behind its first token. -/
theorem skip_suffix (ahead : List Token) (stop : Position) (depth : Nat) :
    (Cursor.mk ahead stop depth).skipStatement.advance.ahead <:+ ahead.tail := by
  cases ahead with
  | nil => exact List.suffix_refl _
  | cons t rest =>
    by_cases ht : t.kind = .semicolon
    · rw [skipStatement_of_end ht]
      exact List.suffix_refl _
    · rw [skipStatement_of_ne ht]
      exact (List.tail_suffix _).trans (List.dropWhile_suffix _)

/-- An attempt that failed has met an impasse in its block or, with nothing left to read, at the end
of the input. -/
theorem attempt_failed {c : Cursor} (hahead : c.ahead ≠ []) (hlex : c.Lexical)
    (hdepth : c.depth = 0) {d : Diagnostic} (hd : c.attempt.block.diagnostic? = some d) :
    ∃ passed rest, c.ahead = passed ++ rest ∧ passed <+: c.attempt.tokens ∧
      c.attempt.after.ahead <:+ rest.tail ∧
        Sentence.Impasse passed (rest.headD (.endOfInput c.stop)) d.cause ∧
          d.position = (rest.headD (.endOfInput c.stop)).start := by
  obtain ⟨hsplit, -, -⟩ := attempt_fits hahead hlex hdepth
  have h := attempt_outcome hahead hlex hdepth
  generalize c.attempt = a at h hd hsplit
  cases h with
  | read s rest _ _ _ => cases hd
  | failed passed rest cause hpassed himpasse =>
    obtain rfl := Option.some.inj hd
    have hleft : c.skipStatement.advance.ahead <:+ rest.tail := by
      obtain ⟨ahead, stop, depth⟩ := c
      obtain rfl : ahead = passed ++ rest := hpassed
      rw [skip_append himpasse.ne_semicolon]
      exact skip_suffix rest stop depth
    refine ⟨passed, rest, hpassed, ?_, hleft, himpasse, rfl⟩
    -- both begin what lies ahead, and the block leaves less behind it
    refine List.prefix_of_prefix_length_le ⟨rest, hpassed.symm⟩ ⟨_, hsplit.symm⟩ ?_
    have hsplit : c.ahead = _ ++ c.skipStatement.advance.ahead := hsplit
    have hlength := congrArg List.length hsplit
    have hle := hleft.length_le
    rw [hpassed, List.length_append, List.length_append] at hlength
    rw [List.length_tail] at hle
    omega

/-- All that lies ahead, with the end of the input. -/
def upToEnd (c : Cursor) : List Token := c.ahead ++ [.endOfInput c.stop]

theorem upToEnd_attempt {c : Cursor} (hahead : c.ahead ≠ []) (hlex : c.Lexical)
    (hdepth : c.depth = 0) : c.upToEnd = c.attempt.tokens ++ c.attempt.after.upToEnd := by
  obtain ⟨hsplit, -, -⟩ := attempt_fits hahead hlex hdepth
  rw [upToEnd, upToEnd, c.after_attempt.2, ← List.append_assoc, ← hsplit]

end Cursor

/-- Of the blocks into which the tokens have been cut, one has failed with the diagnostic, and the
diagnostic stands at the token behind those passed in that block. -/
def Diagnostic.StandsAt (blocks : List Block) (tokens passed : List Token) (t : Token)
    (d : Diagnostic) : Prop :=
  ∃ (earlier : List Block) (b : Block) (later : List Block) (rest : List Token),
    blocks = earlier ++ b :: later ∧ b.diagnostic? = some d ∧ passed <+: b.tokens ∧
      tokens = earlier.flatMap Block.tokens ++ passed ++ t :: rest ∧ d.position = t.start

/-- The diagnostic stands at a token behind those passed in a block that has failed with it, and what
it says of them is so. -/
def Diagnostic.Truthful (blocks : List Block) (tokens : List Token) (d : Diagnostic) : Prop :=
  ∃ (passed : List Token) (t : Token), d.StandsAt blocks tokens passed t ∧ d.cause.Holds passed t

namespace Diagnostic.StandsAt

variable {blocks : List Block} {tokens passed : List Token} {t : Token} {d : Diagnostic}

theorem behind (b : Block) (h : d.StandsAt blocks tokens passed t) :
    d.StandsAt (b :: blocks) (b.tokens ++ tokens) passed t := by
  obtain ⟨earlier, b', later, rest, hblocks, hd, hpassed, htokens, hposition⟩ := h
  refine ⟨b :: earlier, b', later, rest, ?_, hd, hpassed, ?_, hposition⟩
  · rw [hblocks, List.cons_append]
  · rw [htokens, List.flatMap_cons, List.append_assoc, List.append_assoc, List.append_assoc]

theorem exists_start (h : d.StandsAt blocks tokens passed t) :
    ∃ t ∈ tokens, d.position = t.start := by
  obtain ⟨_, _, _, _, _, _, _, rfl, hposition⟩ := h
  exact ⟨t, by simp, hposition⟩

theorem exists_block (h : d.StandsAt blocks tokens passed t) : ∃ b ∈ blocks, passed <+: b.tokens := by
  obtain ⟨_, b, _, _, rfl, _, hpassed, _⟩ := h
  exact ⟨b, by simp, hpassed⟩

end Diagnostic.StandsAt

namespace Cursor

variable {c : Cursor} {d : Diagnostic}

theorem append_endOfInput (rest : List Token) (stop : Position) :
    rest ++ [.endOfInput stop] =
      rest.headD (.endOfInput stop) :: (rest ++ [Token.endOfInput stop]).tail := by
  cases rest <;> rfl

theorem impasse_attempt (hahead : c.ahead ≠ []) (hlex : c.Lexical) (hdepth : c.depth = 0)
    (hd : c.attempt.block.diagnostic? = some d) :
    ∃ passed t, d.StandsAt c.blocks c.upToEnd passed t ∧ Sentence.Impasse passed t d.cause := by
  obtain ⟨passed, rest, hsplit, hpassed, -, himpasse, hposition⟩ :=
    attempt_failed hahead hlex hdepth hd
  have htokens : c.upToEnd = passed ++ rest.headD (.endOfInput c.stop) ::
      (rest ++ [Token.endOfInput c.stop]).tail := by
    rw [upToEnd, hsplit, List.append_assoc, ← append_endOfInput]
  exact ⟨passed, _, ⟨[], c.attempt.block, c.attempt.after.blocks, _, blocks_cons hahead, hd, hpassed,
    htokens, hposition⟩, himpasse⟩

/-- Every diagnostic of a run stands at an impasse of its cause. -/
theorem impasse_of_mem (hlex : c.Lexical) (hdepth : c.depth = 0) :
    ∀ d ∈ c.blocks.filterMap Block.diagnostic?,
      ∃ passed t, d.StandsAt c.blocks c.upToEnd passed t ∧ Sentence.Impasse passed t d.cause := by
  induction c, hlex, hdepth using run_induction with
  | nil c _ _ hahead => simp [blocks_nil hahead]
  | cons c hlex hdepth _ _ hahead ih =>
    intro d hd
    obtain ⟨b, hb, hd⟩ := List.mem_filterMap.mp hd
    rw [blocks_cons hahead] at hb
    rcases List.mem_cons.mp hb with rfl | hb
    · exact impasse_attempt hahead hlex hdepth hd
    · obtain ⟨passed, t, hstands, himpasse⟩ := ih d (List.mem_filterMap.mpr ⟨b, hb, hd⟩)
      have hlater := hstands.behind c.attempt.block
      rw [← blocks_cons hahead, Attempt.block, ← upToEnd_attempt hahead hlex hdepth] at hlater
      exact ⟨passed, t, hlater, himpasse⟩

theorem truthful_of_mem (hlex : c.Lexical) (hdepth : c.depth = 0) :
    ∀ d ∈ c.blocks.filterMap Block.diagnostic?, d.Truthful c.blocks c.upToEnd := by
  intro d hd
  obtain ⟨passed, t, hstands, himpasse⟩ := impasse_of_mem hlex hdepth d hd
  exact ⟨passed, t, hstands, himpasse.holds⟩

theorem start_of_mem (hlex : c.Lexical) (hdepth : c.depth = 0) :
    ∀ d ∈ c.blocks.filterMap Block.diagnostic?, ∃ t ∈ c.upToEnd, d.position = t.start := by
  intro d hd
  obtain ⟨passed, t, hstands, -⟩ := impasse_of_mem hlex hdepth d hd
  exact hstands.exists_start

/-- The diagnostic of an attempt stands before every token that is left, if any is left. -/
theorem start_lt_of_failed (hahead : c.ahead ≠ []) (hlex : c.Lexical) (hdepth : c.depth = 0)
    (horder : c.upToEnd.Pairwise fun t u => t.start.offset < u.start.offset)
    (hd : c.attempt.block.diagnostic? = some d) (hleft : c.attempt.after.ahead ≠ []) :
    ∀ t ∈ c.attempt.after.upToEnd, d.position.offset < t.start.offset := by
  obtain ⟨passed, rest, hsplit, -, hsuffix, -, hposition⟩ := attempt_failed hahead hlex hdepth hd
  cases rest with
  | nil => exact absurd (List.suffix_nil.mp hsuffix) hleft
  | cons u rest =>
    intro t ht
    have hmem : t ∈ rest ++ [.endOfInput c.stop] := by
      rw [upToEnd, c.after_attempt.2] at ht
      rcases List.mem_append.mp ht with ht | ht
      · exact List.mem_append_left _ (hsuffix.subset ht)
      · exact List.mem_append_right _ ht
    rw [upToEnd, hsplit, List.append_assoc, List.pairwise_append, List.cons_append,
      List.pairwise_cons] at horder
    rw [hposition]
    exact horder.2.1.1 t hmem

/-- Diagnostics stand in the order of the tokens. -/
theorem pairwise_diagnostics (hlex : c.Lexical) (hdepth : c.depth = 0)
    (horder : c.upToEnd.Pairwise fun t u => t.start.offset < u.start.offset) :
    (c.blocks.filterMap Block.diagnostic?).Pairwise fun d d' =>
      d.position.offset < d'.position.offset := by
  induction c, hlex, hdepth using run_induction with
  | nil c _ _ hahead => simp [blocks_nil hahead]
  | cons c hlex hdepth hlex' hdepth' hahead ih =>
    have horder' : c.attempt.after.upToEnd.Pairwise fun t u => t.start.offset < u.start.offset := by
      rw [upToEnd_attempt hahead hlex hdepth] at horder
      exact (List.pairwise_append.mp horder).2.1
    rw [blocks_cons hahead, List.filterMap_cons]
    cases hd : c.attempt.block.diagnostic? with
    | none => exact ih horder'
    | some d =>
      refine List.pairwise_cons.mpr ⟨fun d' hd' => ?_, ih horder'⟩
      have hleft : c.attempt.after.ahead ≠ [] := by
        intro hnil
        simp [blocks_nil hnil] at hd'
      obtain ⟨t, ht, hposition⟩ := start_of_mem hlex' hdepth' d' hd'
      rw [hposition]
      exact start_lt_of_failed hahead hlex hdepth horder hd hleft t ht

end Cursor

/-- The diagnostics of a source stand at different places in the order of the source, each at a token
or at the end of the input, and what each tells of that token and of the tokens passed before it in
the same statement is so. -/
theorem diagnostics_truthful (source : String) (file : Option String)
    (hsize : source.utf8ByteSize ≤ Position.maxOffset) :
    ((parseSource source file).2.Pairwise fun d d' => d.position.offset < d'.position.offset) ∧
      ∀ d ∈ (parseSource source file).2,
        d.Truthful (blocks source file) (tokenize source file) := by
  have hlex := lexical_ofSource source file
  rw [parseSource_eq]
  constructor
  · exact Cursor.pairwise_diagnostics hlex rfl (pairwise_start_tokenize hsize)
  · exact Cursor.truthful_of_mem hlex rfl

/-- A source in which every statement fails for another reason, the last at the end of the input. -/
def faulty : String := "let 5; (a b; 9223372036854775808; -"

theorem diagnostics_truthful_faulty : faulty.utf8ByteSize ≤ Position.maxOffset ∧
    (parseSource faulty none).2.map (fun d => (d.cause, d.position.offset)) =
      [(.unexpectedToken .ident .int, 4), (.unexpectedToken .rparen .ident, 10),
        (.invalidInteger "9223372036854775808", 13), (.noOpening .eof, 35)] ∧
    ((parseSource faulty none).2.Pairwise fun d d' => d.position.offset < d'.position.offset) ∧
      ∀ d ∈ (parseSource faulty none).2, d.Truthful (blocks faulty none) (tokenize faulty none) := by
  have hsize : faulty.utf8ByteSize ≤ Position.maxOffset := by decide
  have hread : (parseSource faulty none).2.map (fun d => (d.cause, d.position.offset)) =
      [(.unexpectedToken .ident .int, 4), (.unexpectedToken .rparen .ident, 10),
        (.invalidInteger "9223372036854775808", 13), (.noOpening .eof, 35)] := by decide +kernel
  exact ⟨hsize, hread, diagnostics_truthful faulty none hsize⟩

/-- The diagnostic stands at the first token of its statement with which no statement can be had any
more: those passed can be completed to a statement within the limit, and with that token they cannot,
nor past the limit. At the end of the input, those passed are no statement by themselves. -/
def Diagnostic.Earliest (blocks : List Block) (tokens : List Token) (d : Diagnostic) : Prop :=
  ∃ (passed : List Token) (t : Token), d.StandsAt blocks tokens passed t ∧ Sentence.Viable passed ∧
    (∀ s : Sentence, ¬ passed ++ [t] <+: s.tokens) ∧
      (t.kind = .eof → ∀ s : Sentence, s.tokens ≠ passed)

/-- No diagnostic comes too late or too early, but for those of the nesting limit. -/
theorem diagnostics_earliest (source : String) (file : Option String) :
    ∀ d ∈ (parseSource source file).2, d.cause.IsShallow →
      d.Earliest (blocks source file) (tokenize source file) := by
  rw [parseSource_eq]
  intro d hd hcause
  have hlex := lexical_ofSource source file
  obtain ⟨passed, t, hstands, himpasse⟩ := Cursor.impasse_of_mem hlex rfl d hd
  have hpassed : ∀ u ∈ passed, u.IsLexical := by
    obtain ⟨b, hb, hbegins⟩ := hstands.exists_block
    intro u hu
    have hmem := (accounts_blocks source file).mem_tokens hb (hbegins.subset hu)
    exact isLexical_of_mem_tokenize u hmem
  refine ⟨passed, t, hstands, himpasse.viable hcause hpassed, ?_, himpasse.ne_tokens hcause⟩
  rintro s ⟨rest, hs⟩
  refine himpasse.hopeless hcause s [] rest (fun _ => rfl) ?_
  rw [List.append_nil, ← hs, List.append_assoc, List.singleton_append]

/-- The last statement of the source breaks off where its expression should begin. -/
def brokenOff : Diagnostic := ⟨.noOpening .eof, .ofOffset 35 "shell"⟩

theorem diagnostics_earliest_faulty : brokenOff ∈ (parseSource faulty none).2 ∧
    brokenOff.cause.IsShallow ∧ brokenOff.Earliest (blocks faulty none) (tokenize faulty none) := by
  have hmem : brokenOff ∈ (parseSource faulty none).2 := by decide +kernel
  have hcause : brokenOff.cause.IsShallow := fun limit => by simp [brokenOff]
  exact ⟨hmem, hcause, diagnostics_earliest faulty none brokenOff hmem hcause⟩

end LetScript
