import LetScript.Proofs.Reading.Run

/-!
Whole sources. The blocks of a source account for all its tokens, for its program and for its
diagnostics (`blocks_account`). A source has no diagnostics just when its tokens can be derived, and
then its program is the tree of the only derivation (`diagnostics_nil_iff_derives`).
-/
namespace LetScript

/-- The blocks into which reading cuts a source. -/
def blocks (source : String) (file : Option String) : List Block :=
  (Session.ofSource source file).cursor.attempts.1.map Attempt.block

theorem parseSource_eq (source : String) (file : Option String) :
    parseSource source file = (⟨(blocks source file).filterMap Block.statement?⟩,
      (blocks source file).filterMap Block.diagnostic?) := by
  simp only [blocks, List.filterMap_map]
  rfl

theorem parseSource_eq_reading (source : String) (file : Option String) :
    parseSource source file = (Session.ofSource source file).cursor.reading :=
  parseSource_eq source file

/-- Reading begins before the first token, with nothing open. -/
theorem cursor_ofSource (source : String) (file : Option String) :
    (Session.ofSource source file).cursor =
      ⟨(Scanner.mk source.toList 0 (file.getD "shell")).scan.1,
        (Scanner.mk source.toList 0 (file.getD "shell")).scan.2, 0⟩ := rfl

theorem tokenize_eq (source : String) (file : Option String) :
    tokenize source file = (Session.ofSource source file).cursor.ahead ++
      [.endOfInput (Session.ofSource source file).cursor.stop] := rfl

theorem dropLast_tokenize (source : String) (file : Option String) :
    (tokenize source file).dropLast = (Session.ofSource source file).cursor.ahead := by
  rw [tokenize_eq, List.dropLast_concat]

theorem lexical_ofSource (source : String) (file : Option String) :
    (Session.ofSource source file).cursor.Lexical :=
  Scanner.isLexical_of_mem_scan _ _ _

theorem accounts_blocks (source : String) (file : Option String) :
    Accounts (blocks source file) (tokenize source file).dropLast := by
  rw [dropLast_tokenize]
  exact Cursor.accounts_attempts _ (lexical_ofSource source file) rfl

/-- A source that can be derived within the limit is read as the tree of its derivation. -/
theorem parseSource_of_derives {source : String} {file : Option String} {d : List Sentence}
    (h : Derives d (tokenize source file).dropLast) (hlimit : ∀ s ∈ d, s.WithinLimit) :
    parseSource source file = (⟨d.map Sentence.tree⟩, []) := by
  rw [dropLast_tokenize] at h
  have hblocks : blocks source file = d.map Sentence.block :=
    Cursor.attempts_derives h hlimit (lexical_ofSource source file) _
  have hstatement : Block.statement? ∘ Sentence.block = some ∘ Sentence.tree := rfl
  have hdiagnostic : Block.diagnostic? ∘ Sentence.block = fun _ => none := rfl
  rw [parseSource_eq, hblocks, List.filterMap_map, List.filterMap_map, hstatement, hdiagnostic]
  simp

/-- Whatever else a source holds, its program is made of sentences within the limit whose tokens are
tokens of the source. -/
theorem exists_sentences (source : String) (file : Option String) :
    ∃ d : List Sentence, (parseSource source file).1 = ⟨d.map Sentence.tree⟩ ∧
      ∀ s ∈ d, s.WithinLimit ∧ ∀ t ∈ s.tokens, t ∈ (tokenize source file).dropLast := by
  have haccounts := accounts_blocks source file
  obtain ⟨d, hd, hlimit, htree⟩ := haccounts.derives_statements
  refine ⟨d, by rw [parseSource_eq, htree], fun s hs => ⟨hlimit s hs, fun t ht => ?_⟩⟩
  have hmem : t ∈ d.flatMap Sentence.tokens := List.mem_flatMap.mpr ⟨s, hs, ht⟩
  rw [hd.flatMap_tokens] at hmem
  obtain ⟨b, hb, ht⟩ := List.mem_flatMap.mp hmem
  exact haccounts.mem_tokens (List.mem_filter.mp hb).1 ht

theorem isLexical_of_mem_tokenize {source : String} {file : Option String} :
    ∀ t ∈ (tokenize source file).dropLast, t.IsLexical := by
  rw [dropLast_tokenize]
  exact lexical_ofSource source file

section

variable {source : String} {file : Option String}

theorem end_le_maxOffset (hsize : source.utf8ByteSize ≤ Position.maxOffset) :
    0 + Text.byteLength source.toList ≤ Position.maxOffset := by
  rw [Text.byteLength_toList, Nat.zero_add]
  exact hsize

theorem inOrder_tokenize (hsize : source.utf8ByteSize ≤ Position.maxOffset) :
    InOrder (tokenize source file).dropLast := by
  rw [dropLast_tokenize]
  exact (Scanner.inOrder_scan source.toList 0 _ (end_le_maxOffset hsize)).2

/-- Where no offset is capped, no token reaches past the end of the input. -/
theorem stop_le_stop (hsize : source.utf8ByteSize ≤ Position.maxOffset) :
    ∀ t ∈ (Session.ofSource source file).cursor.ahead,
      t.span.stop.offset ≤ (Session.ofSource source file).cursor.stop.offset := by
  have hend := end_le_maxOffset hsize
  have hstop : (Session.ofSource source file).cursor.stop.offset =
      0 + Text.byteLength source.toList := by
    change (Scanner.mk source.toList 0 _).scan.2.offset = _
    rw [Scanner.stop_scan, Position.ofOffset_of_le hend]
  rw [hstop]
  exact Scanner.stop_le_of_mem_scan source.toList 0 _ hend

/-- Where no offset is capped, each token starts behind all that stand before it, and the end of the
input behind all of them. -/
theorem pairwise_start_tokenize (hsize : source.utf8ByteSize ≤ Position.maxOffset) :
    (tokenize source file).Pairwise fun t u => t.start.offset < u.start.offset := by
  obtain ⟨hspan, hpairs⟩ : InOrder (tokenize source file).dropLast := inOrder_tokenize hsize
  rw [dropLast_tokenize] at hspan hpairs
  rw [tokenize_eq, List.pairwise_append]
  refine ⟨hpairs.imp_of_mem fun {t u} ht hu hle => ?_, List.pairwise_singleton _ _, ?_⟩
  · exact Nat.lt_of_lt_of_le (hspan t ht) hle
  · intro t ht u hu
    obtain rfl := List.mem_singleton.mp hu
    exact Nat.lt_of_lt_of_le (hspan t ht) (stop_le_stop hsize t ht)

end

theorem derives_of_diagnostics_nil {source : String} {file : Option String}
    (h : (parseSource source file).2 = []) :
    ∃ d, Derives d (tokenize source file).dropLast ∧ ∀ s ∈ d, s.WithinLimit := by
  have haccounts := accounts_blocks source file
  have hnone : ∀ b ∈ blocks source file, (!b.failed) = true := by
    rw [parseSource_eq] at h
    simpa [Block.failed] using List.filterMap_eq_nil_iff.mp h
  obtain ⟨d, hd, hlimit, -⟩ := haccounts.derives_statements
  rw [List.filter_eq_self.mpr hnone, haccounts.flatMap_tokens] at hd
  exact ⟨d, hd, hlimit⟩

/-- A source is read without a diagnostic just when its tokens can be derived within the limit. Its
program is then the tree of the derivation, and there is no other derivation. -/
theorem diagnostics_nil_iff_derives (source : String) (file : Option String) :
    ((parseSource source file).2 = [] ↔
      ∃ d, Derives d (tokenize source file).dropLast ∧ ∀ s ∈ d, s.WithinLimit) ∧
    ∀ d, Derives d (tokenize source file).dropLast → (∀ s ∈ d, s.WithinLimit) →
      (parseSource source file).1 = ⟨d.map Sentence.tree⟩ ∧
        ∀ d', Derives d' (tokenize source file).dropLast → d' = d := by
  refine ⟨⟨derives_of_diagnostics_nil, ?_⟩, ?_⟩
  · rintro ⟨d, hd, hlimit⟩
    rw [parseSource_of_derives hd hlimit]
  · intro d hd hlimit
    constructor
    · rw [parseSource_of_derives hd hlimit]
    · intro d' hd'
      exact derives_unique hd' hd

/-- Every token belongs to exactly one block, and every block is a statement of the program or a
diagnostic, in order. A block that failed ends at its first semicolon, so nothing that stands before
that semicolon is read again. -/
theorem blocks_account (source : String) (file : Option String) :
    Accounts (blocks source file) (tokenize source file).dropLast ∧
    (∃ stop, tokenize source file =
      (blocks source file).flatMap Block.tokens ++ [.endOfInput stop]) ∧
    (∀ t ∈ (blocks source file).flatMap Block.tokens, t.kind ≠ .eof) ∧
    parseSource source file = (⟨(blocks source file).filterMap Block.statement?⟩,
      (blocks source file).filterMap Block.diagnostic?) ∧
    (∀ b ∈ blocks source file, b.tokens ≠ [] ∧ ∀ t ∈ b.tokens.dropLast, t.kind ≠ .semicolon) ∧
    (blocks source file).Pairwise fun b _ => b.failed = true → b.Closed := by
  have haccounts := accounts_blocks source file
  have htokens : (blocks source file).flatMap Block.tokens =
      (Session.ofSource source file).cursor.ahead := by
    rw [haccounts.flatMap_tokens, dropLast_tokenize]
  refine ⟨haccounts, ⟨_, by rw [htokens]; exact tokenize_eq source file⟩, ?_,
    parseSource_eq source file, ?_, haccounts.pairwise_closed⟩
  · rw [htokens]
    exact fun t ht => (lexical_ofSource source file t ht).kind_ne_eof
  · intro b hb
    obtain ⟨following, hfits⟩ := haccounts.fits_of_mem b hb
    exact ⟨hfits.tokens_ne_nil, hfits.ne_semicolon_of_mem_dropLast⟩

end LetScript
