import LetScript.Proofs.Program.Shape
import LetScript.Proofs.Reading.Source
import Mathlib.Data.List.Forall2

/-!
Printing and reading again. The printed text of a well-formed program can be derived, and the tree of
the derivation has the shape of the program (`exists_derivation`). Each operator is printed with a
parenthesis before it, so the derivation may pass the nesting limit where the program did not, and a
program that has been read survives just when it does not (`survives_iff`). At any depth, programs are
told apart by their printed texts (`parseSource_print_inj`).
-/
namespace LetScript

theorem operatorKind_cases (operator : String) :
    operatorKind operator = .bang ∨ operatorKind operator = .minus := by
  unfold operatorKind
  split
  · exact .inl rfl
  · exact .inr rfl

theorem Token.kind_of_spelling {t : Token} {s : Spelling} (h : t.spelling = s) : t.kind = s.1 :=
  congrArg Prod.fst h

theorem Token.literal_of_spelling_eq {t : Token} {s : Spelling} (h : t.spelling = s) :
    t.literal = s.2 :=
  congrArg Prod.snd h

/-- Tokens with the spelling of a tree are derived as that tree. Each operator costs two openers, its
own and a parenthesis. -/
theorem Expr.exists_phrase {e : Expr} (h : e.WellFormed) {tokens : List Token}
    (htokens : tokens.map Token.spelling = e.spelling) :
    ∃ p : Phrase, p.tokens = tokens ∧ p.tree.shape = e.shape ∧ p.openers = 2 * e.height := by
  induction e generalizing tokens with
  | ident identifier =>
    obtain ⟨t, rfl, ht⟩ := List.map_eq_singleton_iff.mp htokens
    have hliteral : t.literal = identifier.name := Token.literal_of_spelling_eq ht
    refine ⟨.name ⟨t, Token.kind_of_spelling ht⟩, rfl, ?_, rfl⟩
    simp only [Phrase.tree, shape, Identifier.shape, hliteral]
  | int token value =>
    obtain ⟨t, rfl, ht⟩ := List.map_eq_singleton_iff.mp htokens
    have hliteral : t.literal = token.literal := Token.literal_of_spelling_eq ht
    obtain ⟨-, hvalue, hmax⟩ := h
    refine ⟨.integer ⟨t, Token.kind_of_spelling ht, hliteral ▸ hmax⟩, rfl, ?_, rfl⟩
    simp only [Phrase.tree, shape, hliteral, hvalue]
  | unary token operator operand ih =>
    obtain ⟨opening, rest, rfl, hopening, hrest⟩ := List.map_eq_cons_iff.mp htokens
    obtain ⟨sign, rest, rfl, hsign, hrest⟩ := List.map_eq_cons_iff.mp hrest
    obtain ⟨inner, last, rfl, hinner, hlast⟩ := List.map_eq_append_iff.mp hrest
    obtain ⟨closing, rfl, hclosing⟩ := List.map_eq_singleton_iff.mp hlast
    obtain ⟨p, rfl, hshape, hopeners⟩ := ih h.2 hinner
    have hkind : sign.kind = .bang ∨ sign.kind = .minus := by
      rw [Token.kind_of_spelling hsign]
      exact operatorKind_cases operator
    have hliteral : sign.literal = operator := Token.literal_of_spelling_eq hsign
    refine ⟨.group ⟨opening, Token.kind_of_spelling hopening⟩ (.unary ⟨sign, hkind⟩ p)
      ⟨closing, Token.kind_of_spelling hclosing⟩, rfl, ?_, ?_⟩
    · simp only [Phrase.tree, shape, hliteral, hshape]
    · simp only [Phrase.openers, height, hopeners]
      omega

theorem Expr.exists_closed {e : Expr} (h : e.WellFormed) {tokens : List Token}
    (htokens : tokens.map Token.spelling = e.spelling ++ [(.semicolon, ";")]) :
    ∃ (p : Phrase) (close : Terminal .semicolon), p.tokens ++ [close.val] = tokens ∧
      p.tree.shape = e.shape ∧ p.openers = 2 * e.height := by
  obtain ⟨inner, last, rfl, hinner, hlast⟩ := List.map_eq_append_iff.mp htokens
  obtain ⟨close, rfl, hclose⟩ := List.map_eq_singleton_iff.mp hlast
  obtain ⟨p, rfl, hshape, hopeners⟩ := exists_phrase h hinner
  exact ⟨p, ⟨close, Token.kind_of_spelling hclose⟩, rfl, hshape, hopeners⟩

/-- Printed, the expression of the statement stays within the nesting limit. -/
def Statement.Shallow (s : Statement) : Prop := ∀ e ∈ s.expression?, 2 * e.height < maxNesting

/-- The sentence has the shape of the statement, and is within the limit just when that is shallow. -/
def Sentence.Retells (d : Sentence) (s : Statement) : Prop :=
  d.tree.shape = s.shape ∧ (d.WithinLimit ↔ s.Shallow)

theorem Sentence.withinLimit_iff_shallow {d : Sentence} {s : Statement} {p : Phrase} {e : Expr}
    (hp : d.value? = some p) (he : s.expression? = some e) (h : p.openers = 2 * e.height) :
    d.WithinLimit ↔ s.Shallow := by
  rw [withinLimit_iff hp, h]
  simp [Statement.Shallow, he]

theorem Sentence.not_isLoneReturn {d : Sentence} {p : Phrase} (hp : d.value? = some p) :
    ¬ d.IsLoneReturn :=
  fun h => absurd (h.1.symm.trans hp) (by simp)

namespace Statement

section

variable {tokens : List Token}

/-- Tokens with the spelling of a `let` are a statement that retells it. -/
theorem exists_binding {token : Token} {name : Identifier} {e : Expr} (hlet : token.literal = "let")
    (he : e.WellFormed)
    (htokens : tokens.map Token.spelling = (binding token name (some e)).spelling) :
    ∃ d : Sentence, d.tokens = tokens ∧ ¬ d.IsLoneReturn ∧
      d.Retells (binding token name (some e)) := by
  obtain ⟨keyword, rest, rfl, hkeyword, hrest⟩ := List.map_eq_cons_iff.mp htokens
  obtain ⟨identifier, rest, rfl, hidentifier, hrest⟩ := List.map_eq_cons_iff.mp hrest
  obtain ⟨sign, rest, rfl, hsign, hrest⟩ := List.map_eq_cons_iff.mp hrest
  obtain ⟨p, close, rfl, hshape, hopeners⟩ := Expr.exists_closed he hrest
  have hkeyword' : keyword.literal = token.literal := by
    rw [Token.literal_of_spelling_eq hkeyword, hlet]
  have hname : identifier.literal = name.name := Token.literal_of_spelling_eq hidentifier
  refine ⟨.binding ⟨keyword, Token.kind_of_spelling hkeyword⟩
    ⟨identifier, Token.kind_of_spelling hidentifier⟩ ⟨sign, Token.kind_of_spelling hsign⟩ p
    (some close), rfl, Sentence.not_isLoneReturn rfl, ?_,
    Sentence.withinLimit_iff_shallow rfl rfl hopeners⟩
  simp [Sentence.tree, shape, Identifier.shape, hkeyword', hname, hshape]

/-- So are tokens with the spelling of a `return`, with a value or without. -/
theorem exists_ret {token : Token} {value : Option Expr} (hreturn : token.literal = "return")
    (hvalue : ∀ e ∈ value, e.WellFormed)
    (htokens : tokens.map Token.spelling = (ret token value).spelling) :
    ∃ d : Sentence, d.tokens = tokens ∧ ¬ d.IsLoneReturn ∧ d.Retells (ret token value) := by
  obtain ⟨keyword, rest, rfl, hkeyword, hrest⟩ := List.map_eq_cons_iff.mp htokens
  have hkeyword' : keyword.literal = token.literal := by
    rw [Token.literal_of_spelling_eq hkeyword, hreturn]
  cases value with
  | none =>
    obtain ⟨close, rfl, hclose⟩ := List.map_eq_singleton_iff.mp hrest
    refine ⟨.emptyRet ⟨keyword, Token.kind_of_spelling hkeyword⟩
      (some ⟨close, Token.kind_of_spelling hclose⟩), rfl, fun hlone => ?_, ?_, ?_⟩
    · exact absurd hlone.2 (by simp [Sentence.stop?])
    · simp [Sentence.tree, shape, hkeyword']
    · exact iff_of_true (Sentence.withinLimit_emptyRet _ _) (by simp [Shallow, expression?])
  | some e =>
    obtain ⟨p, close, rfl, hshape, hopeners⟩ := Expr.exists_closed (hvalue e rfl) hrest
    refine ⟨.ret ⟨keyword, Token.kind_of_spelling hkeyword⟩ p (some close), rfl,
      Sentence.not_isLoneReturn rfl, ?_, Sentence.withinLimit_iff_shallow rfl rfl hopeners⟩
    simp [Sentence.tree, shape, hkeyword', hshape]

/-- So are tokens with the spelling of an expression, with a semicolon behind it or without. -/
theorem exists_bare {token : Token} {e : Expr} (he : e.WellFormed) {ending : List Spelling}
    (hending : ending = [] ∨ ending = [(.semicolon, ";")])
    (htokens : tokens.map Token.spelling = e.spelling ++ ending) :
    ∃ d : Sentence, d.tokens = tokens ∧ ¬ d.IsLoneReturn ∧ d.Retells (bare token e) := by
  rcases hending with rfl | rfl
  · rw [List.append_nil] at htokens
    obtain ⟨p, rfl, hshape, hopeners⟩ := Expr.exists_phrase he htokens
    refine ⟨.bare p none, List.append_nil _, Sentence.not_isLoneReturn rfl, ?_,
      Sentence.withinLimit_iff_shallow rfl rfl hopeners⟩
    simp [Sentence.tree, shape, hshape]
  · obtain ⟨p, close, rfl, hshape, hopeners⟩ := Expr.exists_closed he htokens
    refine ⟨.bare p (some close), rfl, Sentence.not_isLoneReturn rfl, ?_,
      Sentence.withinLimit_iff_shallow rfl rfl hopeners⟩
    simp [Sentence.tree, shape, hshape]

/-- Tokens with the spelling of a statement, and of what may separate it from the next, are a
sentence that retells it. -/
theorem exists_sentence {s : Statement} (h : s.WellFormed) {ending : List Spelling}
    (hending : ending = [] ∨ ending = s.separatorSpelling)
    (htokens : tokens.map Token.spelling = s.spelling ++ ending) :
    ∃ d : Sentence, d.tokens = tokens ∧ ¬ d.IsLoneReturn ∧ d.Retells s := by
  cases s with
  | binding token name value =>
    obtain ⟨hlet, -, e, rfl, he⟩ := h
    obtain rfl : ending = [] := hending.elim id id
    rw [List.append_nil] at htokens
    exact exists_binding hlet he htokens
  | ret token value =>
    obtain rfl : ending = [] := hending.elim id id
    rw [List.append_nil] at htokens
    exact exists_ret h.1 h.2 htokens
  | bare token expression => exact exists_bare h hending htokens

end

end Statement

/-- The tokens have the spelling of the statement, and may end in what separates it from the next. -/
def Statement.SpelledBy (s : Statement) (tokens : List Token) : Prop :=
  tokens.map Token.spelling = s.spelling ∨
    tokens.map Token.spelling = s.spelling ++ s.separatorSpelling

/-- The sentence retells the statement in the statement's own spelling. -/
def Sentence.Renders (d : Sentence) (s : Statement) : Prop := d.Retells s ∧ s.SpelledBy d.tokens

theorem Statement.semicolon_mem_spelling (s : Statement) :
    (.semicolon, ";") ∈ s.spelling ++ s.separatorSpelling := by
  cases s <;> simp [spelling, separatorSpelling]

/-- What separates a statement from the next ends it. -/
theorem Sentence.stop?_ne_none_of_spelling {d : Sentence} {s : Statement}
    (h : d.tokens.map Token.spelling = s.spelling ++ s.separatorSpelling) : d.stop? ≠ none := by
  have hmem := s.semicolon_mem_spelling
  rw [← h] at hmem
  obtain ⟨t, ht, hspelling⟩ := List.mem_map.mp hmem
  intro hnone
  rw [tokens, hnone, Option.toList_none, List.append_nil] at ht
  exact ne_semicolon_of_mem_body ht (Token.kind_of_spelling hspelling)

/-- Tokens with the spelling of a well-formed program are derived as sentences that render its
statements one by one, and all but the last end in a semicolon. -/
theorem Program.exists_derivation {statements : List Statement}
    (h : ∀ s ∈ statements, s.WellFormed) {tokens : List Token}
    (htokens : tokens.map Token.spelling = spellingOf statements) :
    ∃ d, Derives d tokens ∧ List.Forall₂ Sentence.Renders d statements ∧
      d.Pairwise fun s _ => s.stop? ≠ none := by
  induction statements using spellingOf.induct generalizing tokens with
  | case1 =>
    obtain rfl := List.map_eq_nil_iff.mp htokens
    exact ⟨[], .nil, .nil, .nil⟩
  | case2 last =>
    rw [spellingOf, ← List.append_nil last.spelling] at htokens
    obtain ⟨d, rfl, hlone, hretells⟩ :=
      Statement.exists_sentence (h last List.mem_cons_self) (.inl rfl) htokens
    rw [List.append_nil] at htokens
    refine ⟨[d], ?_, .cons ⟨hretells, .inl htokens⟩ .nil, List.pairwise_singleton _ _⟩
    rw [← List.append_nil d.tokens]
    exact .cons (fun _ => rfl) .nil
  | case3 s rest hrest ih =>
    rw [spellingOf] at htokens
    · obtain ⟨front, back, rfl, hfront, hback⟩ := List.map_eq_append_iff.mp htokens
      obtain ⟨d, rfl, hlone, hretells⟩ :=
        Statement.exists_sentence (h s List.mem_cons_self) (.inr rfl) hfront
      obtain ⟨ds, hderives, hall, hclosed⟩ :=
        ih (fun s hs => h s (List.mem_cons_of_mem _ hs)) hback
      have hstop : d.stop? ≠ none := Sentence.stop?_ne_none_of_spelling hfront
      exact ⟨d :: ds, .cons (fun h => absurd h hlone) hderives,
        .cons ⟨hretells, .inr hfront⟩ hall, .cons (fun _ _ => hstop) hclosed⟩
    · exact hrest

/-- The printed text of a well-formed program can be derived, if not within the limit. -/
theorem Program.exists_derivation_print (p : Program) (file : Option String)
    (h : ∀ s ∈ p.statements, s.WellFormed) :
    ∃ d, Derives d (tokenize p.print file).dropLast ∧
      List.Forall₂ Sentence.Renders d p.statements ∧ d.Pairwise fun s _ => s.stop? ≠ none := by
  apply exists_derivation h
  rw [List.map_dropLast, map_spelling_tokenize, List.dropLast_concat]
  exact p.spellings_print fun s hs => (h s hs).spelled

section

variable (source : String) (file : Option String)

theorem wellFormed_parseSource : ∀ s ∈ (parseSource source file).1.statements, s.WellFormed := by
  obtain ⟨d, hprogram, hd⟩ := exists_sentences source file
  rw [hprogram]
  intro s hs
  obtain ⟨sentence, hmem, rfl⟩ := List.mem_map.mp hs
  refine Sentence.wellFormed_tree fun t ht => ?_
  exact isLexical_of_mem_tokenize t ((hd sentence hmem).2 t (Sentence.mem_tokens_of_mem_body ht))

/-- A tree that has been read is told by its shape, up to positions. -/
theorem unplaced_parseSource :
    (parseSource source file).1.unplaced = (parseSource source file).1.shape := by
  obtain ⟨d, hprogram, hd⟩ := exists_sentences source file
  rw [hprogram]
  simp only [Program.unplaced, Program.shape, List.map_map, Program.mk.injEq]
  refine List.map_congr_left fun s hs => Sentence.unplaced_tree fun t ht => ?_
  exact isLexical_of_mem_tokenize t ((hd s hs).2 t (Sentence.mem_tokens_of_mem_body ht))

end

/-- Reading the printed text gives no diagnostic, the same tree up to positions, and the same printed
text again. -/
def Program.Survives (p : Program) (file : Option String) : Prop :=
  (parseSource p.print file).2 = [] ∧ (parseSource p.print file).1.unplaced = p.unplaced ∧
    (parseSource p.print file).1.print = p.print

theorem shape_of_retells {d : List Sentence} {statements : List Statement}
    (h : List.Forall₂ Sentence.Retells d statements) :
    (Program.mk (d.map Sentence.tree)).shape = (Program.mk statements).shape := by
  simp only [Program.shape, List.map_map, Program.mk.injEq]
  induction h with
  | nil => rfl
  | cons hretells _ ih => rw [List.map_cons, List.map_cons, ih, ← hretells.1, Function.comp_apply]

theorem withinLimit_of_retells {d : List Sentence} {statements : List Statement}
    (h : List.Forall₂ Sentence.Retells d statements) :
    (∀ s ∈ d, s.WithinLimit) ↔ ∀ s ∈ statements, s.Shallow := by
  induction h with
  | nil => simp
  | cons hretells _ ih => rw [List.forall_mem_cons, List.forall_mem_cons, ih, hretells.2]

section

variable (source : String) (file file' : Option String)

/-- The printed text of a program that has been read can be derived, if not within the limit. -/
theorem exists_rereading :
    ∃ d, Derives d (tokenize (parseSource source file).1.print file').dropLast ∧
      List.Forall₂ Sentence.Retells d (parseSource source file).1.statements := by
  obtain ⟨d, hderives, hrenders, -⟩ :=
    Program.exists_derivation_print _ file' (wellFormed_parseSource source file)
  exact ⟨d, hderives, hrenders.imp fun _ _ h => h.1⟩

theorem shallow_of_reread (h : (parseSource (parseSource source file).1.print file').2 = []) :
    ∀ s ∈ (parseSource source file).1.statements, s.Shallow := by
  obtain ⟨d, hderives, hretells⟩ := exists_rereading source file file'
  obtain ⟨d', hderives', hlimit⟩ := derives_of_diagnostics_nil h
  rw [derives_unique hderives' hderives] at hlimit
  exact (withinLimit_of_retells hretells).mp hlimit

/-- Where no statement is too deep when it is printed, the program is read back. -/
theorem survives_of_shallow (h : ∀ s ∈ (parseSource source file).1.statements, s.Shallow) :
    (parseSource source file).1.Survives file' := by
  obtain ⟨d, hderives, hretells⟩ := exists_rereading source file file'
  have hread := parseSource_of_derives hderives ((withinLimit_of_retells hretells).mpr h)
  have hshape : (parseSource (parseSource source file).1.print file').1.shape =
      (parseSource source file).1.shape := by
    rw [hread]
    exact shape_of_retells hretells
  refine ⟨by rw [hread], ?_, ?_⟩
  · rw [unplaced_parseSource, hshape, unplaced_parseSource]
  · rw [← Program.print_shape, hshape, Program.print_shape]

/-- A program that has been read survives printing just when the parentheses that are printed around
its operators stay within the nesting limit; otherwise reading it again meets an error. -/
theorem survives_iff :
    ((parseSource source file).1.Survives file' ↔
      ∀ s ∈ (parseSource source file).1.statements, s.Shallow) ∧
    ((parseSource (parseSource source file).1.print file').2 = [] ↔
      ∀ s ∈ (parseSource source file).1.statements, s.Shallow) := by
  constructor
  · constructor
    · intro h
      exact shallow_of_reread source file file' h.1
    · exact survives_of_shallow source file file'
  · constructor
    · exact shallow_of_reread source file file'
    · intro h
      exact (survives_of_shallow source file file' h).1

end

/-- A name under 128 operators. -/
def deepSource : String := String.ofList (List.replicate 128 '!' ++ ['x'])

/-- It is read without a diagnostic, but its printed text is not. -/
theorem deepSource_lost : (parseSource deepSource none).2 = [] ∧
    ¬ (parseSource deepSource none).1.Survives none := by
  have hread : (parseSource deepSource none).2 = [] ∧
      ∃ s ∈ (parseSource deepSource none).1.statements,
        ∃ e ∈ s.expression?, ¬ 2 * e.height < maxNesting := by
    decide +kernel
  obtain ⟨hnone, s, hs, e, he, hdeep⟩ := hread
  exact ⟨hnone, fun h => hdeep (shallow_of_reread deepSource none none h.1 s hs e he)⟩

/-- Well-formed programs with one printed text have one shape, however deep they are: the text has one
derivation at most. -/
theorem Program.shape_eq_of_print_eq {p q : Program} (hp : ∀ s ∈ p.statements, s.WellFormed)
    (hq : ∀ s ∈ q.statements, s.WellFormed) (h : p.print = q.print) : p.shape = q.shape := by
  obtain ⟨d, hd, hrenders, -⟩ := p.exists_derivation_print none hp
  obtain ⟨d', hd', hrenders', -⟩ := q.exists_derivation_print none hq
  rw [h] at hd
  obtain rfl := derives_unique hd hd'
  have hpshape := shape_of_retells (hrenders.imp fun _ _ hr => hr.1)
  have hqshape := shape_of_retells (hrenders'.imp fun _ _ hr => hr.1)
  exact hpshape.symm.trans hqshape

/-- Programs that have been read are printed alike just when they are the same up to positions. -/
theorem parseSource_print_inj (source source' : String) (file file' : Option String) :
    (parseSource source file).1.print = (parseSource source' file').1.print ↔
      (parseSource source file).1.unplaced = (parseSource source' file').1.unplaced := by
  rw [unplaced_parseSource, unplaced_parseSource]
  constructor
  · exact Program.shape_eq_of_print_eq (wellFormed_parseSource source file)
      (wellFormed_parseSource source' file')
  · intro h
    rw [← Program.print_shape, h, Program.print_shape]

end LetScript
