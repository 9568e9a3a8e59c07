import LetScript.Proofs.Reading.Source
import LetScript.Proofs.Token.Overwrite

/-!
Recovery as deletion. A block that failed covers the bytes from its first token through its
semicolon, or through the end of the input when it has none. With these bytes overwritten by spaces,
a source reads as the same program without any diagnostic (`parseSource_withoutFailures`).
-/
namespace LetScript

namespace Block

/-- The byte at an offset is given up with the block. -/
def covers (b : Block) (offset : Nat) : Bool :=
  b.failed && b.tokens.head?.any (·.span.start.offset ≤ offset) &&
    b.tokens.getLast?.any fun t => t.kind ≠ .semicolon || offset < t.span.stop.offset

theorem covers_iff {b : Block} {offset : Nat} :
    b.covers offset = true ↔ b.failed = true ∧
      (∃ t ∈ b.tokens.head?, t.span.start.offset ≤ offset) ∧
      ∃ t ∈ b.tokens.getLast?, t.kind = .semicolon → offset < t.span.stop.offset := by
  simp [covers, Option.any_eq_true, and_assoc, Decidable.imp_iff_not_or]

variable {b : Block} {i : Nat}

/-- A block covers its own tokens just when it failed. -/
theorem covers_of_mem (horder : InOrder b.tokens) {t : Token} (ht : t ∈ b.tokens)
    (hi : t.Contains i) : b.covers i = b.failed := by
  have hne := List.ne_nil_of_mem ht
  rw [Bool.eq_iff_iff, covers_iff]
  refine and_iff_left ⟨⟨b.tokens.head hne, List.head?_eq_some_head hne, ?_⟩,
    ⟨b.tokens.getLast hne, List.getLast?_eq_some_getLast hne, fun _ => ?_⟩⟩
  · exact Nat.le_trans (horder.start_head_le ht (List.head?_eq_some_head hne)) hi.1
  · exact Nat.lt_of_lt_of_le hi.2 (horder.stop_le_getLast ht (List.getLast?_eq_some_getLast hne))

/-- A block covers nothing before its first token. -/
theorem covers_before (h : ∀ t ∈ b.tokens, i < t.span.start.offset) : b.covers i = false := by
  rw [← Bool.not_eq_true, covers_iff]
  rintro ⟨-, ⟨t, ht, hle⟩, -⟩
  have hlt := h t (List.mem_of_mem_head? ht)
  omega

/-- A block covers nothing behind its semicolon. -/
theorem covers_after (hclosed : b.failed = true → b.Closed)
    (h : ∀ t ∈ b.tokens, t.span.stop.offset ≤ i) : b.covers i = false := by
  rw [← Bool.not_eq_true, covers_iff]
  rintro ⟨hfailed, -, t, ht, hlt⟩
  obtain ⟨u, hu, hsemi⟩ := hclosed hfailed
  obtain rfl := Option.mem_unique ht hu
  have hle := h t (List.mem_of_getLast? ht)
  have hlt := hlt hsemi
  omega

end Block

namespace Accounts

variable {blocks : List Block} {tokens : List Token}

/-- Of all tokens, those of the blocks that failed are covered, and with all their bytes. -/
theorem covers_tokens (h : Accounts blocks tokens) (horder : InOrder tokens) :
    ∀ b ∈ blocks, ∀ t ∈ b.tokens, ∀ i, t.Contains i →
      blocks.any (·.covers i) = b.failed := by
  have hclosed := h.pairwise_closed
  induction h with
  | nil => simp
  | @cons b blocks rest hfits hrest ih =>
    obtain ⟨hown, hlater, hbetween⟩ := inOrder_append.mp horder
    obtain ⟨hb, hblocks⟩ := List.pairwise_cons.mp hclosed
    intro b' hb' t ht i hi
    rw [List.any_cons]
    rcases List.mem_cons.mp hb' with rfl | hb'
    · have hnone : blocks.any (·.covers i) = false := by
        rw [List.any_eq_false]
        intro b' hb'
        rw [Bool.not_eq_true]
        refine Block.covers_before fun u hu => ?_
        exact Nat.lt_of_lt_of_le hi.2 (hbetween t ht u (hrest.mem_tokens hb' hu))
      rw [hnone, Bool.or_false, Block.covers_of_mem hown ht hi]
    · have hnone : b.covers i = false := by
        refine Block.covers_after (hb b' hb') fun u hu => ?_
        exact Nat.le_trans (hbetween u hu t (hrest.mem_tokens hb' ht)) hi.1
      rw [hnone, Bool.false_or, ih hlater hblocks b' hb' t ht i hi]

/-- To keep the tokens of the blocks that did not fail is to keep those blocks. -/
theorem filter_tokens (h : Accounts blocks tokens) {keep : Token → Bool}
    (hkeep : ∀ b ∈ blocks, ∀ t ∈ b.tokens, keep t = !b.failed) :
    tokens.filter keep = (blocks.filter (!·.failed)).flatMap Block.tokens := by
  induction h with
  | nil => rfl
  | @cons b blocks rest hfits hrest ih =>
    rw [List.filter_append, ih fun b' hb' => hkeep b' (List.mem_cons_of_mem b hb'), List.filter_cons]
    have hb := hkeep b List.mem_cons_self
    by_cases hread : (!b.failed) = true
    · have hall : b.tokens.filter keep = b.tokens :=
        List.filter_eq_self.mpr fun t ht => by rw [hb t ht, hread]
      rw [if_pos hread, List.flatMap_cons, hall]
    · have hnone : b.tokens.filter keep = [] :=
        List.filter_eq_nil_iff.mpr fun t ht => by rwa [hb t ht]
      rw [if_neg hread, hnone, List.nil_append]

end Accounts

/-- The byte at an offset belongs to a block that failed. -/
def lost (source : String) (file : Option String) (offset : Nat) : Bool :=
  (blocks source file).any (·.covers offset)

/-- The source with spaces over every byte of every block that failed. -/
def withoutFailures (source : String) (file : Option String) : String :=
  String.ofList (overwrite (lost source file) 0 source.toList)

section

variable {source : String} {file : Option String}

theorem lost_of_mem (hsize : source.utf8ByteSize ≤ Position.maxOffset) {b : Block}
    (hb : b ∈ blocks source file) {t : Token} (ht : t ∈ b.tokens) {i : Nat} (hi : t.Contains i) :
    lost source file i = b.failed :=
  (accounts_blocks source file).covers_tokens (inOrder_tokenize hsize) b hb t ht i hi

theorem lost_start (hsize : source.utf8ByteSize ≤ Position.maxOffset) {b : Block}
    (hb : b ∈ blocks source file) {t : Token} (ht : t ∈ b.tokens) :
    lost source file t.span.start.offset = b.failed := by
  have hspan := (inOrder_tokenize hsize).1 t ((accounts_blocks source file).mem_tokens hb ht)
  exact lost_of_mem hsize hb ht ⟨Nat.le_refl _, hspan⟩

theorem unbroken_lost (hsize : source.utf8ByteSize ≤ Position.maxOffset) :
    ∀ t ∈ (tokenize source file).dropLast, t.Unbroken (lost source file) := by
  intro t ht i hi
  rw [← (accounts_blocks source file).flatMap_tokens] at ht
  obtain ⟨b, hb, ht⟩ := List.mem_flatMap.mp ht
  rw [lost_of_mem hsize hb ht hi, lost_start hsize hb ht]

/-- The tokens of the blocks that failed are gone, and no other token has changed. -/
theorem dropLast_tokenize_withoutFailures (hsize : source.utf8ByteSize ≤ Position.maxOffset) :
    (tokenize (withoutFailures source file) file).dropLast =
      ((blocks source file).filter (!·.failed)).flatMap Block.tokens := by
  have hwhole : ∀ t ∈ (tokenize source file).dropLast, t.Unbroken (lost source file) :=
    unbroken_lost hsize
  have hkeep : ∀ b ∈ blocks source file, ∀ t ∈ b.tokens,
      (!lost source file t.span.start.offset) = !b.failed := by
    intro b hb t ht
    rw [lost_start hsize hb ht]
  rw [← (accounts_blocks source file).filter_tokens hkeep]
  rw [dropLast_tokenize] at hwhole ⊢
  rw [dropLast_tokenize]
  have hscan := Scanner.scan_overwrite source.toList 0 (file.getD Scanner.unnamed)
    (end_le_maxOffset hsize) hwhole
  change ((Scanner.mk (withoutFailures source file).toList 0 (file.getD Scanner.unnamed)).scan).1 = _
  rw [withoutFailures, String.toList_ofList, hscan]
  rfl

end

/-- A statement that could not be read has no influence on the others: without it the source reads
as the same program, positions included, and without a diagnostic. -/
theorem parseSource_withoutFailures (source : String) (file : Option String)
    (hsize : source.utf8ByteSize ≤ Position.maxOffset) :
    parseSource (withoutFailures source file) file = ((parseSource source file).1, []) := by
  obtain ⟨d, hd, hlimit, htree⟩ := (accounts_blocks source file).derives_statements
  rw [← dropLast_tokenize_withoutFailures hsize] at hd
  rw [parseSource_of_derives hd hlimit, htree, parseSource_eq source file]

theorem parseSource_withoutFailures_mixed :
    "a let é 5; b (c".utf8ByteSize ≤ Position.maxOffset ∧
      withoutFailures "a let é 5; b (c" none = "a           b   " ∧
        parseSource "a           b   " none = ((parseSource "a let é 5; b (c" none).1, []) := by
  have hsize : "a let é 5; b (c".utf8ByteSize ≤ Position.maxOffset := by decide
  have htext : withoutFailures "a let é 5; b (c" none = "a           b   " := by decide +kernel
  refine ⟨hsize, htext, ?_⟩
  rw [← htext]
  exact parseSource_withoutFailures "a let é 5; b (c" none hsize

end LetScript
