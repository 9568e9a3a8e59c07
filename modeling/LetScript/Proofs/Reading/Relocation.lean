import LetScript.Proofs.Grammar.Relocation
import LetScript.Proofs.Reading.Source

/-!
Reading does not look at positions. What is read of tokens that have been moved is what was read of
them before, moved (`Cursor.blocks_relocate`): an attempt follows the grammar, and the grammar does not
look at positions.
-/
namespace LetScript

variable (g : Position → Position)

def relocateResult : Except Diagnostic Statement → Except Diagnostic Statement
  | .ok s => .ok (s.relocate g)
  | .error d => .error (d.relocate g)

def Cursor.relocate (c : Cursor) : Cursor := ⟨c.ahead.map (Token.relocate g), g c.stop, c.depth⟩

def Attempt.relocate (a : Attempt) : Attempt :=
  ⟨a.before.relocate g, relocateResult g a.result, a.after.relocate g⟩

namespace Block

def relocate (b : Block) : Block := ⟨b.tokens.map (Token.relocate g), relocateResult g b.result⟩

theorem statement?_relocate (b : Block) :
    (b.relocate g).statement? = b.statement?.map (Statement.relocate g) := by
  obtain ⟨tokens, result⟩ := b
  cases result <;> rfl

theorem diagnostic?_relocate (b : Block) :
    (b.relocate g).diagnostic? = b.diagnostic?.map (Diagnostic.relocate g) := by
  obtain ⟨tokens, result⟩ := b
  cases result <;> rfl

/-- What is drawn from moved blocks has moved with them. -/
theorem filterMap_relocate {α : Type} {f : Block → Option α} {h : α → α}
    (hf : ∀ b, f (b.relocate g) = (f b).map h) (blocks : List Block) :
    (blocks.map (relocate g)).filterMap f = (blocks.filterMap f).map h := by
  rw [List.filterMap_map, List.map_filterMap]
  congr 1
  funext b
  exact hf b

end Block

theorem Attempt.block_relocate (a : Attempt) : (a.relocate g).block = a.block.relocate g := by
  simp only [Attempt.block, Block.relocate, Attempt.relocate, Attempt.tokens, Cursor.relocate,
    List.length_map, List.map_take]

namespace Cursor

theorem skipStatement_relocate (c : Cursor) :
    (c.relocate g).skipStatement.advance = c.skipStatement.advance.relocate g := by
  simp only [skipStatement, advance, relocate, List.dropWhile_map, List.map_tail]
  rfl

variable {c : Cursor}

theorem Lexical.relocate (h : c.Lexical) : (c.relocate g).Lexical := by
  intro t ht
  obtain ⟨u, hu, rfl⟩ := List.mem_map.mp ht
  exact (h u hu).relocate g

theorem Lexical.of_relocate {g : Position → Position} (h : (c.relocate g).Lexical) : c.Lexical :=
  fun t ht => h (t.relocate g) (List.mem_map.mpr ⟨t, ht, rfl⟩)

/-- An attempt at moved tokens comes to what it came to before, moved. -/
theorem attempt_relocate (hahead : c.ahead ≠ []) (hlex : c.Lexical) (hdepth : c.depth = 0) :
    (c.relocate g).attempt = c.attempt.relocate g := by
  have hlex' := hlex.relocate g
  have h := attempt_outcome hahead hlex hdepth
  obtain ⟨ahead, stop, depth⟩ := c
  obtain rfl : depth = 0 := hdepth
  generalize (Cursor.mk ahead stop 0).attempt = a at h
  cases h with
  | read s rest hsplit hlimit hrest =>
    obtain rfl : ahead = s.tokens ++ rest := hsplit
    have hcursor : (Cursor.mk (s.tokens ++ rest) stop 0).relocate g =
        ⟨(s.relocate g).tokens ++ rest.map (Token.relocate g), g stop, 0⟩ := by
      rw [relocate, List.map_append, s.tokens_relocate]
    rw [hcursor] at hlex' ⊢
    have hs : ∀ t ∈ (s.relocate g).tokens, t.IsLexical :=
      fun t ht => hlex' t (List.mem_append_left _ ht)
    rw [attempt_sentence _ _ _ hs (hlimit.relocate g) (hrest.relocate g), Attempt.relocate, hcursor,
      relocateResult, s.tree_relocate]
    rfl
  | failed passed rest cause hsplit himpasse =>
    obtain rfl : ahead = passed ++ rest := hsplit
    have hcursor : (Cursor.mk (passed ++ rest) stop 0).relocate g =
        ⟨passed.map (Token.relocate g) ++ rest.map (Token.relocate g), g stop, 0⟩ := by
      rw [relocate, List.map_append]
    have himpasse' : Sentence.Impasse (passed.map (Token.relocate g))
        ((rest.map (Token.relocate g)).headD (.endOfInput (g stop))) cause := by
      rw [Token.headD_map_relocate]
      exact himpasse.relocate g
    have hskip := skipStatement_relocate g ⟨passed ++ rest, stop, 0⟩
    rw [hcursor] at hlex' hskip ⊢
    have hpassed : ∀ t ∈ passed.map (Token.relocate g), t.IsLexical :=
      fun t ht => hlex' t (List.mem_append_left _ ht)
    have hnext : ∀ t ∈ (rest.map (Token.relocate g)).head?, t.IsLexical :=
      fun t ht => hlex' t (List.mem_append_right _ (List.mem_of_mem_head? ht))
    rw [attempt_impasse himpasse' hpassed hnext, Attempt.relocate, hcursor, hskip, relocateResult,
      Token.headD_map_relocate]
    rfl

/-- A run over moved tokens cuts them into the same blocks, moved. -/
theorem blocks_relocate (c : Cursor) (hlex : c.Lexical) (hdepth : c.depth = 0) :
    (c.relocate g).blocks = c.blocks.map (Block.relocate g) := by
  induction c, hlex, hdepth using run_induction with
  | nil c _ _ hahead =>
    have hahead' : (c.relocate g).ahead = [] := by rw [relocate, hahead, List.map_nil]
    rw [blocks_nil hahead, blocks_nil hahead', List.map_nil]
  | cons c hlex hdepth _ _ hahead ih =>
    have hahead' : (c.relocate g).ahead ≠ [] := fun h => hahead (List.map_eq_nil_iff.mp h)
    rw [blocks_cons hahead, blocks_cons hahead', attempt_relocate g hahead hlex hdepth, List.map_cons,
      Attempt.block_relocate, ← ih]
    rfl

theorem reading_relocate (c : Cursor) (hlex : c.Lexical) (hdepth : c.depth = 0) :
    (c.relocate g).reading =
      (c.reading.1.relocate g, c.reading.2.map (Diagnostic.relocate g)) := by
  rw [reading, blocks_relocate g c hlex hdepth,
    Block.filterMap_relocate g (Block.statement?_relocate g),
    Block.filterMap_relocate g (Block.diagnostic?_relocate g)]
  rfl

end Cursor

end LetScript
