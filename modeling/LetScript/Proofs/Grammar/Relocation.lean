import LetScript.Proofs.Grammar.Impasse
import LetScript.Proofs.Program.Relocation

/-!
The grammar does not look at positions. A derivation of some tokens is, when they are moved, a
derivation of the moved tokens (`Sentence.tokens_relocate`) whose tree is moved along
(`Sentence.tree_relocate`), and an impasse stays one (`Sentence.Impasse.relocate`).
-/
namespace LetScript

variable (g : Position → Position)

def Terminal.relocate {kind : TokenKind} (t : Terminal kind) : Terminal kind :=
  ⟨t.val.relocate g, t.property⟩

namespace Phrase

def relocate : Phrase → Phrase
  | name t => name (Terminal.relocate g t)
  | integer t => integer ⟨t.val.relocate g, t.property⟩
  | unary operator operand => unary ⟨operator.val.relocate g, operator.property⟩ operand.relocate
  | group opening inner closing =>
    group (Terminal.relocate g opening) inner.relocate (Terminal.relocate g closing)

theorem tokens_relocate (p : Phrase) : (p.relocate g).tokens = p.tokens.map (Token.relocate g) := by
  induction p with
  | name t => rfl
  | integer t => rfl
  | unary operator operand ih => simp only [relocate, tokens, ih, List.map_cons]
  | group opening inner closing ih =>
    simp only [relocate, tokens, ih, List.map_cons, List.map_append, List.map_nil]
    rfl

theorem first_relocate (p : Phrase) : (p.relocate g).first = p.first.relocate g := by
  cases p <;> rfl

theorem openers_relocate (p : Phrase) : (p.relocate g).openers = p.openers := by
  induction p with
  | name t => rfl
  | integer t => rfl
  | unary operator operand ih => simp only [relocate, openers, ih]
  | group opening inner closing ih => simp only [relocate, openers, ih]

theorem tree_relocate (p : Phrase) : (p.relocate g).tree = p.tree.relocate g := by
  induction p with
  | name t => rfl
  | integer t => rfl
  | unary operator operand ih => simp only [relocate, tree, ih, Expr.relocate, Token.literal_relocate]
  | group opening inner closing ih => exact ih

/-- Whether an expression is at an impasse does not depend on positions. -/
theorem Impasse.relocate {depth : Nat} {passed : List Token} {t : Token} {cause : Cause}
    (h : Impasse depth passed t cause) :
    Impasse depth (passed.map (Token.relocate g)) (t.relocate g) cause := by
  induction h with
  | tooDeep t hdepth => exact .tooDeep (t.relocate g) hdepth
  | noOpening t hdepth hnone => exact .noOpening (t.relocate g) hdepth hnone
  | tooLarge t hdepth hkind hlarge => exact .tooLarge (t.relocate g) hdepth hkind hlarge
  | unclosed opening inner t hdepth hclose =>
    rw [List.map_cons, ← inner.tokens_relocate]
    rw [← inner.openers_relocate g] at hdepth
    exact .unclosed (Terminal.relocate g opening) (inner.relocate g) (t.relocate g) hdepth hclose
  | behind opener hdepth _ ih => exact .behind ⟨opener.val.relocate g, opener.property⟩ hdepth ih

end Phrase

namespace Sentence

def relocate : Sentence → Sentence
  | binding keyword name sign value stop =>
    binding (Terminal.relocate g keyword) (Terminal.relocate g name) (Terminal.relocate g sign)
      (value.relocate g) (stop.map (Terminal.relocate g))
  | ret keyword value stop =>
    ret (Terminal.relocate g keyword) (value.relocate g) (stop.map (Terminal.relocate g))
  | emptyRet keyword stop => emptyRet (Terminal.relocate g keyword) (stop.map (Terminal.relocate g))
  | bare value stop => bare (value.relocate g) (stop.map (Terminal.relocate g))

theorem stop?_relocate (s : Sentence) : (s.relocate g).stop? = s.stop?.map (Token.relocate g) := by
  have hstop (stop : Option (Terminal .semicolon)) :
      (stop.map (Terminal.relocate g)).unattach = stop.unattach.map (Token.relocate g) := by
    cases stop <;> rfl
  cases s with
  | binding _ _ _ _ stop => exact hstop stop
  | ret _ _ stop => exact hstop stop
  | emptyRet _ stop => exact hstop stop
  | bare _ stop => exact hstop stop

theorem value?_relocate (s : Sentence) : (s.relocate g).value? = s.value?.map (Phrase.relocate g) := by
  cases s <;> rfl

theorem body_relocate (s : Sentence) : (s.relocate g).body = s.body.map (Token.relocate g) := by
  cases s with
  | binding keyword name sign value stop =>
    simp only [relocate, body, value.tokens_relocate, List.map_cons]
    rfl
  | ret keyword value stop =>
    simp only [relocate, body, value.tokens_relocate, List.map_cons]
    rfl
  | emptyRet keyword stop => rfl
  | bare value stop => exact value.tokens_relocate g

theorem tokens_relocate (s : Sentence) :
    (s.relocate g).tokens = s.tokens.map (Token.relocate g) := by
  rw [tokens, tokens, body_relocate, stop?_relocate, List.map_append]
  cases s.stop? <;> rfl

theorem tree_relocate (s : Sentence) : (s.relocate g).tree = s.tree.relocate g := by
  cases s with
  | binding keyword name sign value stop =>
    simp only [relocate, tree, value.tree_relocate]
    rfl
  | ret keyword value stop =>
    simp only [relocate, tree, value.tree_relocate]
    rfl
  | emptyRet keyword stop => rfl
  | bare value stop =>
    simp only [relocate, tree, value.tree_relocate, value.first_relocate]
    rfl

variable {s : Sentence}

theorem WithinLimit.relocate (h : s.WithinLimit) : (s.relocate g).WithinLimit := by
  intro p hp
  rw [value?_relocate] at hp
  obtain ⟨q, hq, rfl⟩ := Option.map_eq_some_iff.mp hp
  rw [Phrase.openers_relocate]
  exact h q hq

theorem Precedes.relocate {rest : List Token} (h : s.Precedes rest) :
    (s.relocate g).Precedes (rest.map (Token.relocate g)) := by
  constructor
  · intro hstop t ht
    rw [stop?_relocate, Option.map_eq_none_iff] at hstop
    rw [List.head?_map] at ht
    obtain ⟨u, hu, rfl⟩ := Option.map_eq_some_iff.mp ht
    exact h.1 hstop u hu
  · rintro ⟨hvalue, hstop⟩
    rw [value?_relocate, Option.map_eq_none_iff] at hvalue
    rw [stop?_relocate, Option.map_eq_none_iff] at hstop
    rw [h.2 ⟨hvalue, hstop⟩, List.map_nil]

/-- Nor does it depend on positions whether a statement is. -/
theorem Impasse.relocate {passed : List Token} {t : Token} {cause : Cause}
    (h : Impasse passed t cause) :
    Impasse (passed.map (Token.relocate g)) (t.relocate g) cause := by
  cases h with
  | name keyword t hname => exact .name (Terminal.relocate g keyword) (t.relocate g) hname
  | sign keyword name t hsign =>
    exact .sign (Terminal.relocate g keyword) (Terminal.relocate g name) (t.relocate g) hsign
  | bound keyword name sign h =>
    exact .bound (Terminal.relocate g keyword) (Terminal.relocate g name) (Terminal.relocate g sign)
      (h.relocate g)
  | returned keyword h hend =>
    refine .returned (Terminal.relocate g keyword) (h.relocate g) fun hpassed => ?_
    exact hend (List.map_eq_nil_iff.mp hpassed)
  | bare h hform =>
    refine .bare (h.relocate g) fun hpassed => ?_
    exact hform (List.map_eq_nil_iff.mp hpassed)

end Sentence

end LetScript
