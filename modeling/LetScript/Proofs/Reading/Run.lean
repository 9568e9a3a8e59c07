import LetScript.Proofs.Reading.Excess
import LetScript.Reading.Session

/-!
Whole runs. The attempts of a run cut the tokens into blocks, and each block is a sentence or has
been given up (`accounts_attempts`). When the tokens can be derived, the blocks are the sentences of
the derivation, and just those past the nesting limit have been given up (`blocks_derives`).
-/
namespace LetScript

/-- The tokens that one attempt at a statement has used up, and what it came to. -/
structure Block where
  tokens : List Token
  result : Verdict

/-- The block of a sentence that has been read. -/
def Sentence.block (s : Sentence) : Block := ⟨s.tokens, .ok s.tree⟩

/-- The block of a sentence, read or given up for its excess token. -/
def Sentence.outcome (s : Sentence) : Block :=
  match s.excess? with
  | none => s.block
  | some t => ⟨s.tokens, .error ⟨.nestingTooDeep maxNesting, t.start⟩⟩

theorem Sentence.outcome_of_withinLimit {s : Sentence} (h : s.WithinLimit) :
    s.outcome = s.block := by
  rw [outcome, excess?_eq_none_iff.mpr h]

theorem Sentence.outcome_of_excess {s : Sentence} {t : Token} (h : s.excess? = some t) :
    s.outcome = ⟨s.tokens, .error ⟨.nestingTooDeep maxNesting, t.start⟩⟩ := by
  rw [outcome, h]

namespace Block

def statement? (b : Block) : Option Statement := b.result.statement?

def diagnostic? (b : Block) : Option Diagnostic := b.result.diagnostic?

def failed (b : Block) : Bool := b.diagnostic?.isSome

@[simp] theorem failed_ok (tokens : List Token) (s : Statement) :
    failed ⟨tokens, .ok s⟩ = false := rfl

@[simp] theorem failed_error (tokens : List Token) (d : Diagnostic) :
    failed ⟨tokens, .error d⟩ = true := rfl

/-- How a block lies before the tokens that follow it. One that failed stands where no sentence does,
and reaches to its first semicolon, or to the end of the input when it has none. -/
inductive Fits : Block → List Token → Prop where
  | sentence (s : Sentence) (following : List Token) : s.WithinLimit → s.Precedes following →
      Fits s.block following
  | closed (d : Diagnostic) (passed : List Token) (close : Terminal .semicolon)
      (following : List Token) : (∀ t ∈ passed, t.kind ≠ .semicolon) →
        ¬ Readable (passed ++ [close.val] ++ following) →
          Fits ⟨passed ++ [close.val], .error d⟩ following
  | unclosed (d : Diagnostic) (passed : List Token) : passed ≠ [] →
      (∀ t ∈ passed, t.kind ≠ .semicolon) → ¬ Readable passed → Fits ⟨passed, .error d⟩ []

theorem Fits.tokens_ne_nil {b : Block} {following : List Token} (h : b.Fits following) :
    b.tokens ≠ [] := by
  cases h with
  | sentence s _ _ _ => exact s.tokens_ne_nil
  | closed _ _ _ _ _ _ => simp
  | unclosed _ _ hne _ _ => exact hne

theorem Fits.ne_semicolon_of_mem_dropLast {b : Block} {following : List Token}
    (h : b.Fits following) : ∀ t ∈ b.tokens.dropLast, t.kind ≠ .semicolon := by
  intro t ht
  cases h with
  | sentence s _ _ _ => exact Sentence.ne_semicolon_of_mem_dropLast ht
  | closed _ passed _ _ hpassed _ =>
    rw [List.dropLast_concat] at ht
    exact hpassed t ht
  | unclosed _ _ _ hpassed _ => exact hpassed t (List.dropLast_subset _ ht)

/-- A block ends in a semicolon. -/
def Closed (b : Block) : Prop := ∃ t ∈ b.tokens.getLast?, t.kind = .semicolon

end Block

/-- The blocks, in order, make up the tokens, and each fits where it stands. -/
inductive Accounts : List Block → List Token → Prop where
  | nil : Accounts [] []
  | cons {b : Block} {blocks : List Block} {rest : List Token} :
      b.Fits rest → Accounts blocks rest → Accounts (b :: blocks) (b.tokens ++ rest)

namespace Accounts

variable {blocks : List Block} {tokens : List Token}

theorem flatMap_tokens (h : Accounts blocks tokens) : blocks.flatMap Block.tokens = tokens := by
  induction h with
  | nil => rfl
  | cons _ _ ih => rw [List.flatMap_cons, ih]

theorem mem_tokens (h : Accounts blocks tokens) {b : Block} (hb : b ∈ blocks) {t : Token}
    (ht : t ∈ b.tokens) : t ∈ tokens := by
  rw [← h.flatMap_tokens]
  exact List.mem_flatMap.mpr ⟨b, hb, ht⟩

theorem eq_nil (h : Accounts blocks []) : blocks = [] := by
  generalize htokens : ([] : List Token) = tokens at h
  cases h with
  | nil => rfl
  | cons hfits _ => exact absurd (List.nil_eq_append_iff.mp htokens).1 hfits.tokens_ne_nil

theorem fits_of_mem (h : Accounts blocks tokens) : ∀ b ∈ blocks, ∃ following, b.Fits following := by
  induction h with
  | nil => simp
  | cons hfits _ ih =>
    intro b hb
    rcases List.mem_cons.mp hb with rfl | hb
    · exact ⟨_, hfits⟩
    · exact ih b hb

/-- After a failure nothing is read up to the next semicolon. -/
theorem pairwise_closed (h : Accounts blocks tokens) :
    blocks.Pairwise fun b _ => b.failed = true → b.Closed := by
  induction h with
  | nil => exact .nil
  | cons hfits hrest ih =>
    refine List.pairwise_cons.mpr ⟨fun b hb hfailed => ?_, ih⟩
    cases hfits with
    | sentence s _ _ _ => exact absurd hfailed (by simp [Sentence.block])
    | closed _ passed close _ _ _ => exact ⟨close.val, by simp, close.property⟩
    | unclosed _ _ _ _ _ =>
      rw [hrest.eq_nil] at hb
      exact absurd hb List.not_mem_nil

/-- Without the blocks that failed, the sentences of the others remain. -/
theorem derives_statements (h : Accounts blocks tokens) :
    ∃ d, Derives d ((blocks.filter (!·.failed)).flatMap Block.tokens) ∧
      (∀ s ∈ d, s.WithinLimit) ∧ d.map Sentence.tree = blocks.filterMap Block.statement? := by
  induction h with
  | nil => exact ⟨[], .nil, by simp, rfl⟩
  | @cons b blocks rest hfits hrest ih =>
    obtain ⟨d, hd, hlimit, htree⟩ := ih
    cases hfits with
    | sentence s _ hs hprec =>
      refine ⟨s :: d, ?_, by simpa [hs] using hlimit, congrArg (s.tree :: ·) htree⟩
      refine .cons (fun hlone => ?_) hd
      -- nothing followed the lone return, so nothing is left of what followed it
      rw [hprec.2 hlone] at hrest
      rw [hrest.eq_nil]
      rfl
    | closed _ _ _ _ _ _ => exact ⟨d, by simpa using hd, hlimit, htree⟩
    | unclosed _ _ _ _ _ => exact ⟨d, by simpa using hd, hlimit, htree⟩

end Accounts

def Attempt.block (a : Attempt) : Block := ⟨a.tokens, a.result⟩

theorem Attempt.tokens_of_append {a : Attempt} {used : List Token}
    (h : a.before.ahead = used ++ a.after.ahead) : a.tokens = used := by
  simp [Attempt.tokens, h]

/-- Giving up stops at the first semicolon, or at the end of the input when there is none. -/
theorem Cursor.skipStatement_cases (ahead : List Token) (stop : Position) (depth : Nat) :
    ((Cursor.mk ahead stop depth).skipStatement.ahead = [] ∧ ∀ t ∈ ahead, t.kind ≠ .semicolon) ∨
    ∃ passed t rest, ahead = passed ++ t :: rest ∧ (∀ u ∈ passed, u.kind ≠ .semicolon) ∧
      t.kind = .semicolon ∧ (Cursor.mk ahead stop depth).skipStatement.ahead = t :: rest := by
  induction ahead with
  | nil => exact .inl ⟨rfl, by simp⟩
  | cons t rest ih =>
    by_cases ht : t.kind = .semicolon
    · exact .inr ⟨[], t, rest, rfl, by simp, ht, congrArg Cursor.ahead (skipStatement_of_end ht)⟩
    · rw [skipStatement_of_ne ht]
      obtain ⟨hend, hrest⟩ | ⟨passed, u, rest', rfl, hpassed, hu, hstop⟩ := ih
      · exact .inl ⟨hend, by simpa [ht] using hrest⟩
      · exact .inr ⟨t :: passed, u, rest', rfl, by simpa [ht] using hpassed, hu, hstop⟩

/-- Giving up takes all up to the first semicolon, and with it. -/
theorem Cursor.skip_fits {c : Cursor} (hahead : c.ahead ≠ []) (hnone : ¬ Block.Readable c.ahead)
    (d : Diagnostic) :
    ∃ used, c.ahead = used ++ c.skipStatement.advance.ahead ∧
      (Block.mk used (.error d)).Fits c.skipStatement.advance.ahead := by
  obtain ⟨ahead, stop, depth⟩ := c
  obtain ⟨hend, hall⟩ | ⟨passed, t, rest, hsplit, hpassed, ht, hstop⟩ :=
    skipStatement_cases ahead stop depth
  · refine ⟨ahead, ?_, ?_⟩ <;> rw [advance, hend]
    · simp
    · exact .unclosed d ahead hahead hall hnone
  · have hahead : ahead = passed ++ [t] ++ rest := by simpa using hsplit
    refine ⟨passed ++ [t], ?_, ?_⟩ <;> rw [advance, hstop]
    · exact hahead
    · exact .closed d passed ⟨t, ht⟩ rest hpassed (hahead ▸ hnone)

namespace Cursor

/-- No attempt fails where a sentence stands. -/
theorem attempt_of_readable {c : Cursor} (hlex : c.Lexical) (hdepth : c.depth = 0)
    (h : Block.Readable c.ahead) : ∃ s, c.attempt.result = .ok s := by
  obtain ⟨ahead, stop, depth⟩ := c
  obtain ⟨s, rest, rfl, hlimit, hrest⟩ : Block.Readable ahead := h
  obtain rfl : depth = 0 := hdepth
  have hs : ∀ t ∈ s.tokens, t.IsLexical := fun t ht => hlex t (List.mem_append_left rest ht)
  rw [attempt_sentence s rest stop hs hlimit hrest]
  exact ⟨s.tree, rfl⟩

/-- One attempt takes a block that fits before what it leaves, and ends with nothing open. -/
theorem attempt_fits {c : Cursor} (hahead : c.ahead ≠ []) (hlex : c.Lexical) (hdepth : c.depth = 0) :
    c.ahead = c.attempt.tokens ++ c.attempt.after.ahead ∧
      c.attempt.block.Fits c.attempt.after.ahead ∧ c.attempt.after.depth = 0 := by
  have hread := attempt_of_readable hlex hdepth
  have h := attempt_outcome hahead hlex hdepth
  generalize c.attempt = a at h hread
  cases h with
  | read s rest hsplit hlimit hrest =>
    have htokens : (Attempt.mk c (.ok s.tree) { c with ahead := rest }).tokens = s.tokens :=
      Attempt.tokens_of_append hsplit
    refine ⟨by rw [htokens]; exact hsplit, ?_, hdepth⟩
    rw [Attempt.block, htokens]
    exact .sentence s rest hlimit hrest
  | failed passed rest cause hpassed himpasse =>
    have hnone : ¬ Block.Readable c.ahead := fun h => by simpa using hread h
    generalize Diagnostic.mk cause _ = d
    obtain ⟨used, hsplit, hfits⟩ := skip_fits hahead hnone d
    have htokens : (Attempt.mk c (.error d) c.skipStatement.advance).tokens = used :=
      Attempt.tokens_of_append hsplit
    refine ⟨by rw [htokens]; exact hsplit, ?_, hdepth⟩
    rw [Attempt.block, htokens]
    exact hfits

theorem attempts_nil {c : Cursor} (h : c.ahead = []) : c.attempts = ([], c) := by
  rw [attempts, dif_pos h]

theorem attempts_cons {c : Cursor} (h : c.ahead ≠ []) :
    c.attempts = (c.attempt :: c.attempt.after.attempts.1, c.attempt.after.attempts.2) := by
  rw [attempts, dif_neg h]

/-- The blocks into which a run cuts what lies ahead. -/
def blocks (c : Cursor) : List Block := c.attempts.1.map Attempt.block

theorem blocks_nil {c : Cursor} (h : c.ahead = []) : c.blocks = [] := by
  rw [blocks, attempts_nil h, List.map_nil]

theorem blocks_cons {c : Cursor} (h : c.ahead ≠ []) :
    c.blocks = c.attempt.block :: c.attempt.after.blocks := by
  rw [blocks, attempts_cons h, List.map_cons, blocks]

/-- The program and the diagnostics that a run makes of what lies ahead. -/
def reading (c : Cursor) : Program × List Diagnostic :=
  (⟨c.blocks.filterMap Block.statement?⟩, c.blocks.filterMap Block.diagnostic?)

/-- A run keeps its tokens scanned and ends each attempt with nothing open, so what holds of runs can
be shown along their attempts. -/
theorem run_induction {motive : (c : Cursor) → c.Lexical → c.depth = 0 → Prop}
    (nil : ∀ c hlex hdepth, c.ahead = [] → motive c hlex hdepth)
    (cons : ∀ c hlex hdepth hlex' hdepth', c.ahead ≠ [] → motive c.attempt.after hlex' hdepth' →
      motive c hlex hdepth)
    (c : Cursor) (hlex : c.Lexical) (hdepth : c.depth = 0) : motive c hlex hdepth := by
  induction hn : c.ahead.length using Nat.strongRecOn generalizing c with
  | ind n ih =>
    by_cases hahead : c.ahead = []
    · exact nil c hlex hdepth hahead
    · obtain ⟨hsplit, -, hafter⟩ := attempt_fits hahead hlex hdepth
      have hlt : c.attempt.after.ahead.length < n := hn ▸ length_ahead_after_lt hahead
      have hlex' : c.attempt.after.Lexical := fun t ht => hlex t (by rw [hsplit]; simp [ht])
      exact cons c hlex hdepth hlex' hafter hahead (ih _ hlt _ hlex' hafter rfl)

/-- The attempts of a run account for all tokens ahead. -/
theorem accounts_attempts (c : Cursor) (hlex : c.Lexical) (hdepth : c.depth = 0) :
    Accounts c.blocks c.ahead := by
  induction c, hlex, hdepth using run_induction with
  | nil c _ _ hahead =>
    rw [blocks_nil hahead, hahead]
    exact .nil
  | cons c hlex hdepth _ _ hahead ih =>
    obtain ⟨hsplit, hfits, -⟩ := attempt_fits hahead hlex hdepth
    rw [blocks_cons hahead, hsplit]
    exact .cons hfits ih

/-- The attempt at a sentence takes its block, if one past the limit ends where giving up does. -/
theorem attempt_outcome_of_sentence (s : Sentence) (rest : List Token) (stop : Position)
    (hlex : ∀ t ∈ s.tokens, t.IsLexical) (hrest : s.Precedes rest)
    (hclosed : s.WithinLimit ∨ (s.stop? = none → rest = [])) :
    (Cursor.mk (s.tokens ++ rest) stop 0).attempt.block = s.outcome ∧
      (Cursor.mk (s.tokens ++ rest) stop 0).attempt.after = ⟨rest, stop, 0⟩ := by
  cases hexcess : s.excess? with
  | none =>
    have hlimit := Sentence.excess?_eq_none_iff.mp hexcess
    rw [attempt_sentence s rest stop hlex hlimit hrest, Sentence.outcome_of_withinLimit hlimit,
      Attempt.block, Attempt.tokens_of_append rfl]
    exact ⟨rfl, rfl⟩
  | some t =>
    have hend := hclosed.resolve_left (Sentence.not_withinLimit_of_excess hexcess)
    rw [attempt_excess hexcess rest stop hlex hend, Sentence.outcome_of_excess hexcess,
      Attempt.block, Attempt.tokens_of_append rfl]
    exact ⟨rfl, rfl⟩

/-- Where the tokens can be derived, a run takes the blocks of the sentences, provided that each past
the limit, but for the last, ends in a semicolon. -/
theorem blocks_derives {d : List Sentence} {tokens : List Token} (h : Derives d tokens)
    (hclosed : d.Pairwise fun s _ => s.WithinLimit ∨ s.stop? ≠ none)
    (hlex : ∀ t ∈ tokens, t.IsLexical) (stop : Position) :
    (Cursor.mk tokens stop 0).blocks = d.map Sentence.outcome := by
  induction h with
  | nil => exact blocks_nil rfl
  | @cons s d rest hlone hrest ih =>
    obtain ⟨hs, hd⟩ := List.pairwise_cons.mp hclosed
    have hne : (Cursor.mk (s.tokens ++ rest) stop 0).ahead ≠ [] := by simp [s.tokens_ne_nil]
    have hend : s.WithinLimit ∨ (s.stop? = none → rest = []) := by
      cases d with
      | nil => exact .inr fun _ => hrest.flatMap_tokens.symm
      | cons s' d => exact (hs s' List.mem_cons_self).imp_right fun h hnone => absurd hnone h
    obtain ⟨hblock, hafter⟩ := attempt_outcome_of_sentence s rest stop
      (fun t ht => hlex t (List.mem_append_left rest ht)) (hrest.precedes hlone) hend
    rw [blocks_cons hne, List.map_cons, hblock, hafter, ih hd fun t ht => hlex t (by simp [ht])]

/-- Where the tokens can be derived within the limit, a run reads the sentences of the derivation
and nothing else. -/
theorem attempts_derives {d : List Sentence} {tokens : List Token} (h : Derives d tokens)
    (hlimit : ∀ s ∈ d, s.WithinLimit) (hlex : ∀ t ∈ tokens, t.IsLexical) (stop : Position) :
    (Cursor.mk tokens stop 0).blocks = d.map Sentence.block := by
  have hclosed : d.Pairwise fun s _ => s.WithinLimit ∨ s.stop? ≠ none :=
    List.pairwise_of_forall_mem_list fun s hs _ _ => .inl (hlimit s hs)
  rw [blocks_derives h hclosed hlex stop]
  exact List.map_congr_left fun s hs => Sentence.outcome_of_withinLimit (hlimit s hs)

end Cursor

end LetScript
