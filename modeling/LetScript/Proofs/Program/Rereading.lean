import LetScript.Proofs.Program.RoundTrip

/-!
Reading printed programs of any depth. Each operator is printed with a parenthesis before it, so the
statements with more than 127 operators above a leaf pass the nesting limit on the way back. Those, and
no others, are lost, each with a diagnostic at the token that is one too many (`parseSource_print`).
-/
namespace LetScript

/-- Two openers and a parenthesis for each operator, and the leaf. -/
theorem Expr.length_spelling (e : Expr) : e.spelling.length = 3 * e.height + 1 := by
  induction e with
  | ident | int => rfl
  | unary token operator operand ih =>
    simp only [spelling, height, List.length_cons, List.length_append, List.length_nil, ih]
    omega

namespace Statement

instance : DecidablePred Shallow := fun s =>
  inferInstanceAs (Decidable (∀ e ∈ s.expression?, 2 * e.height < maxNesting))

/-- How many tokens of the printed statement stand before its expression. -/
def lead : Statement → Nat
  | binding _ _ _ => 3
  | ret _ _ => 1
  | bare _ _ => 0

/-- The tokens are those of the printed statement, and the diagnostic refuses the statement at the
257th token of its expression. -/
def RefusedAt (s : Statement) (tokens : List Token) (d : Diagnostic) : Prop :=
  ∃ (e : Expr) (before expression behind : List Token) (t : Token),
    s.expression? = some e ∧ tokens = before ++ expression ++ behind ∧ before.length = s.lead ∧
      expression.map Token.spelling = e.spelling ∧ expression[maxNesting]? = some t ∧
        d = ⟨.nestingTooDeep maxNesting, t.start⟩

/-- The expression of a statement is spelled in one stretch of it, behind its lead. -/
theorem exists_spelling_split {s : Statement} {e : Expr} (h : s.expression? = some e) :
    ∃ before behind, s.spelling = before ++ e.spelling ++ behind ∧ before.length = s.lead := by
  cases s with
  | binding token name value =>
    obtain rfl : value = some e := h
    exact ⟨[(.letKeyword, "let"), (.ident, name.name), (.assign, "=")], [(.semicolon, ";")], rfl, rfl⟩
  | ret token value =>
    obtain rfl : value = some e := h
    exact ⟨[(.returnKeyword, "return")], [(.semicolon, ";")], rfl, rfl⟩
  | bare token expression =>
    obtain rfl := Option.some.inj h
    exact ⟨[], [], by simp [spelling], rfl⟩

/-- Of the tokens that spell a statement, one stretch behind its lead spells its expression. -/
theorem SpelledBy.exists_split {s : Statement} {tokens : List Token} (h : s.SpelledBy tokens)
    {e : Expr} (he : s.expression? = some e) :
    ∃ before expression behind, tokens = before ++ expression ++ behind ∧
      before.length = s.lead ∧ expression.map Token.spelling = e.spelling := by
  obtain ⟨before, behind, hspelling, hlead⟩ := exists_spelling_split he
  have hsplit : ∃ behind, tokens.map Token.spelling = before ++ e.spelling ++ behind := by
    rcases h with h | h
    · exact ⟨behind, by rw [h, hspelling]⟩
    · exact ⟨behind ++ s.separatorSpelling, by rw [h, hspelling, List.append_assoc]⟩
  obtain ⟨behind, hsplit⟩ := hsplit
  obtain ⟨front, back, rfl, hfront, -⟩ := List.map_eq_append_iff.mp hsplit
  obtain ⟨lead, expression, rfl, hbefore, hexpression⟩ := List.map_eq_append_iff.mp hfront
  refine ⟨lead, expression, back, rfl, ?_, hexpression⟩
  rw [← hlead, ← hbefore, List.length_map]

end Statement

theorem getElem?_middle {α : Type} (before middle behind : List α) {i : Nat} (h : i < middle.length) :
    (before ++ middle ++ behind)[before.length + i]? = middle[i]? := by
  rw [List.append_assoc, List.getElem?_append_right (by omega), Nat.add_sub_cancel_left,
    List.getElem?_append_left h]

namespace Sentence

/-- As many tokens stand before the expression as in the printed statement. -/
theorem Retells.length_lead {d : Sentence} {s : Statement} (h : d.Retells s) :
    d.lead.length = s.lead := by
  have hshape := h.1
  cases d <;> cases s <;> simp [tree, Statement.shape] at hshape <;> rfl

theorem getElem?_of_excess {d : Sentence} {t : Token} (h : d.excess? = some t) :
    d.tokens[d.lead.length + maxNesting]? = some t := by
  obtain ⟨p, hvalue, hp⟩ := Option.bind_eq_some_iff.mp h
  have htoken := Phrase.getElem?_of_excess hp
  obtain ⟨hlength, -⟩ := List.getElem?_eq_some_iff.mp htoken
  rw [tokens, body_of_value hvalue, getElem?_middle _ _ _ hlength, htoken]

/-- A sentence past the limit is refused at the 257th token of its expression. -/
theorem Renders.refusedAt {d : Sentence} {s : Statement} (h : d.Renders s) {t : Token}
    (ht : d.excess? = some t) : s.RefusedAt d.tokens ⟨.nestingTooDeep maxNesting, t.start⟩ := by
  obtain ⟨hretells, hspelled⟩ := h
  have hdeep : ¬ s.Shallow := fun hshallow =>
    not_withinLimit_of_excess ht (hretells.2.mpr hshallow)
  obtain ⟨e, he, hheight⟩ : ∃ e, s.expression? = some e ∧ maxNesting ≤ 2 * e.height := by
    simpa [Statement.Shallow] using hdeep
  obtain ⟨before, expression, behind, htokens, hlead, hexpression⟩ := hspelled.exists_split he
  refine ⟨e, before, expression, behind, t, he, htokens, hlead, hexpression, ?_, rfl⟩
  have hlength : maxNesting < expression.length := by
    have hspelling := congrArg List.length hexpression
    rw [List.length_map, e.length_spelling] at hspelling
    omega
  have hget := getElem?_of_excess ht
  rwa [hretells.length_lead, ← hlead, htokens, getElem?_middle _ _ _ hlength] at hget

end Sentence

section

variable {d : List Sentence} {statements : List Statement}

/-- A sentence that renders a statement is read within the limit, and refused past it. -/
theorem Sentence.Renders.outcome {s : Sentence} {statement : Statement} (h : s.Renders statement) :
    (statement.Shallow ∧ s.outcome.statement? = some s.tree ∧ s.outcome.diagnostic? = none) ∨
      (¬ statement.Shallow ∧ s.outcome.statement? = none ∧
        ∃ d, s.outcome.diagnostic? = some d ∧ statement.RefusedAt s.tokens d) := by
  have hlimit := h.1.2
  cases hexcess : s.excess? with
  | none =>
    have hwithin := excess?_eq_none_iff.mp hexcess
    rw [outcome_of_withinLimit hwithin]
    exact .inl ⟨hlimit.mp hwithin, rfl, rfl⟩
  | some t =>
    have hdeep := not_withinLimit_of_excess hexcess
    rw [outcome_of_excess hexcess]
    exact .inr ⟨fun hshallow => hdeep (hlimit.mpr hshallow), rfl, _, rfl, h.refusedAt hexcess⟩

/-- What is read of the sentences has the shape of the statements within the limit. -/
theorem shape_of_renders (h : List.Forall₂ Sentence.Renders d statements) :
    ((d.map Sentence.outcome).filterMap Block.statement?).map Statement.shape =
      (statements.filter (·.Shallow)).map Statement.shape := by
  induction h with
  | nil => rfl
  | @cons s statement d statements hrenders _ ih =>
    rw [List.map_cons, List.filter_cons]
    obtain ⟨hshallow, hread, -⟩ | ⟨hdeep, hlost, -⟩ := hrenders.outcome
    · rw [List.filterMap_cons_some hread, if_pos (by simpa using hshallow), List.map_cons,
        List.map_cons, ih, hrenders.1.1]
    · rw [List.filterMap_cons_none hlost, if_neg (by simpa using hdeep), ih]

/-- The statements past the limit are refused, one by one. -/
theorem refused_of_renders (h : List.Forall₂ Sentence.Renders d statements) :
    List.Forall₂ (fun refused diagnostic => refused.1.RefusedAt refused.2 diagnostic)
      ((statements.zip (d.map Sentence.tokens)).filter fun printed => ¬ printed.1.Shallow)
      ((d.map Sentence.outcome).filterMap Block.diagnostic?) := by
  induction h with
  | nil => exact .nil
  | @cons s statement d statements hrenders _ ih =>
    rw [List.map_cons, List.map_cons, List.zip_cons_cons, List.filter_cons]
    obtain ⟨hshallow, -, hnone⟩ | ⟨hdeep, -, d, hsome, hrefused⟩ := hrenders.outcome
    · rw [List.filterMap_cons_none hnone, if_neg (by simpa using hshallow)]
      exact ih
    · rw [List.filterMap_cons_some hsome, if_pos (by simpa using hdeep)]
      exact .cons hrefused ih

theorem spelledBy_of_renders (h : List.Forall₂ Sentence.Renders d statements) :
    List.Forall₂ Statement.SpelledBy statements (d.map Sentence.tokens) := by
  rw [List.forall₂_map_right_iff]
  exact List.Forall₂.flip (h.imp fun _ _ hrenders => hrenders.2)

end

/-- The printed text of a well-formed program, whatever its depth, is read as the shapes of all its
statements with no more than 127 operators above the leaf, in their order. The other statements have
one diagnostic each, in their order: the nesting limit, at the 257th token of the expression. -/
theorem parseSource_print (p : Program) (file : Option String) (h : ∀ s ∈ p.statements, s.WellFormed) :
    ∃ segments : List (List Token), segments.flatten = (tokenize p.print file).dropLast ∧
      List.Forall₂ Statement.SpelledBy p.statements segments ∧
      (parseSource p.print file).1.shape =
        ⟨(p.statements.filter (·.Shallow)).map Statement.shape⟩ ∧
      List.Forall₂ (fun refused d => refused.1.RefusedAt refused.2 d)
        ((p.statements.zip segments).filter fun printed => ¬ printed.1.Shallow)
        (parseSource p.print file).2 := by
  obtain ⟨d, hderives, hrenders, hclosed⟩ := p.exists_derivation_print file h
  have hblocks : blocks p.print file = d.map Sentence.outcome := by
    rw [dropLast_tokenize] at hderives
    exact Cursor.blocks_derives hderives (hclosed.imp fun h => .inr h)
      (lexical_ofSource p.print file) _
  refine ⟨d.map Sentence.tokens, ?_, spelledBy_of_renders hrenders, ?_, ?_⟩
  · rw [← List.flatMap_def, hderives.flatMap_tokens]
  · rw [parseSource_eq, hblocks, Program.shape, shape_of_renders hrenders]
  · rw [parseSource_eq, hblocks]
    exact refused_of_renders hrenders

/-- A name under that many operators. -/
def Expr.tower : Nat → Expr
  | 0 => ident ⟨.ofSpelling (.ident, "x"), "x"⟩
  | n + 1 => unary (.ofSpelling (.bang, "!")) "!" (tower n)

theorem isName_x : IsName "x" := ⟨by decide, List.all_eq_true.mp (by decide), rfl⟩

theorem Expr.wellFormed_tower (n : Nat) : (tower n).WellFormed := by
  induction n with
  | zero => exact isName_x
  | succ n ih => exact ⟨.inl rfl, ih⟩

/-- A program with statements on either side of the limit, the last of them past it. -/
def Program.skyline : Program :=
  ⟨[.bare (.ofSpelling (.bang, "!")) (.tower 128), .ret (.ofSpelling (.returnKeyword, "return")) none,
    .binding (.ofSpelling (.letKeyword, "let")) ⟨.ofSpelling (.ident, "x"), "x"⟩ (some (.tower 127)),
    .bare (.ofSpelling (.bang, "!")) (.tower 200)]⟩

theorem parseSource_print_skyline : (∀ s ∈ Program.skyline.statements, s.WellFormed) ∧
    ∃ segments : List (List Token),
      segments.flatten = (tokenize Program.skyline.print none).dropLast ∧
      List.Forall₂ Statement.SpelledBy Program.skyline.statements segments ∧
      (parseSource Program.skyline.print none).1.shape =
        ⟨(Program.skyline.statements.filter (·.Shallow)).map Statement.shape⟩ ∧
      List.Forall₂ (fun refused d => refused.1.RefusedAt refused.2 d)
        ((Program.skyline.statements.zip segments).filter fun printed => ¬ printed.1.Shallow)
        (parseSource Program.skyline.print none).2 := by
  have hwell : ∀ s ∈ Program.skyline.statements, s.WellFormed := by
    simp only [Program.skyline, List.forall_mem_cons, List.not_mem_nil, false_imp_iff, implies_true]
    exact ⟨Expr.wellFormed_tower 128, ⟨rfl, by simp⟩, ⟨rfl, isName_x, _, rfl, Expr.wellFormed_tower 127⟩,
      Expr.wellFormed_tower 200, trivial⟩
  exact ⟨hwell, parseSource_print Program.skyline none hwell⟩

end LetScript
