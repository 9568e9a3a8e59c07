import LetScript.Proofs.Grammar.Impasse
import LetScript.Proofs.Token.Scan

/-!
Tokens that still begin a statement. What has been passed before an impasse can be completed to a
statement (`Sentence.Impasse.viable`), and with the token of the impasse it cannot
(`Sentence.Impasse.hopeless`). The nesting limit is left out: it is met one token behind the opener
that was one too many.
-/
namespace LetScript

/-- The cause is some other than too deep a nesting. -/
def Cause.IsShallow (cause : Cause) : Prop := ∀ limit, cause ≠ .nestingTooDeep limit

def Terminal.spareName : Terminal .ident := ⟨.ofLexeme 0 Scanner.unnamed ['x'], by decide⟩

def Terminal.spareSign : Terminal .assign := ⟨.ofLexeme 0 Scanner.unnamed ['='], by decide⟩

def Terminal.spareClosing : Terminal .rparen := ⟨.ofLexeme 0 Scanner.unnamed [')'], by decide⟩

theorem Terminal.isLexical_spareName : Terminal.spareName.val.IsLexical :=
  ⟨['x'], .word (by decide) (List.all_eq_true.mp (by decide)), rfl, rfl⟩

theorem Terminal.isLexical_spareSign : Terminal.spareSign.val.IsLexical :=
  ⟨['='], .symbol (by decide), rfl, rfl⟩

theorem Terminal.isLexical_spareClosing : Terminal.spareClosing.val.IsLexical :=
  ⟨[')'], .symbol (by decide), rfl, rfl⟩

/-- Any expression can stand behind an opener. -/
theorem Opener.exists_phrase (opener : Opener) (hopener : opener.val.IsLexical) (p : Phrase)
    (hlex : ∀ u ∈ p.tokens, u.IsLexical) :
    ∃ q : Phrase, q.openers = p.openers + 1 ∧ opener.val :: p.tokens <+: q.tokens ∧
      ∀ u ∈ q.tokens, u.IsLexical := by
  have hsign (hkind : opener.val.kind = .bang ∨ opener.val.kind = .minus) :
      ∃ q : Phrase, q.openers = p.openers + 1 ∧ opener.val :: p.tokens <+: q.tokens ∧
        ∀ u ∈ q.tokens, u.IsLexical :=
    ⟨.unary ⟨opener.val, hkind⟩ p, rfl, List.prefix_refl _, by
      simpa [Phrase.tokens, hopener] using hlex⟩
  rcases opener.property with hkind | hkind | hkind
  · exact hsign (.inl hkind)
  · exact hsign (.inr hkind)
  · refine ⟨.group ⟨opener.val, hkind⟩ p .spareClosing, rfl, ⟨[Terminal.spareClosing.val], rfl⟩, ?_⟩
    intro u hu
    simp only [Phrase.tokens, List.mem_cons, List.mem_append, List.not_mem_nil, or_false] at hu
    rcases hu with rfl | hu | rfl
    · exact hopener
    · exact hlex u hu
    · exact Terminal.isLexical_spareClosing

/-- The token that tokens begin with selects the rule of an expression that stands there. -/
theorem Phrase.opening_of_append (p : Phrase) {t : Token} {rest tokens : List Token}
    (h : p.tokens ++ rest = t :: tokens) : t.kind.opening? = some p.rule := by
  rw [p.tokens_eq_cons] at h
  obtain ⟨rfl, -⟩ := List.cons.inj h
  exact p.opening_first

namespace Phrase.Impasse

variable {depth : Nat} {passed : List Token} {t : Token} {cause : Cause}

/-- What has been passed of an expression can be completed within the nesting limit. -/
theorem exists_phrase (h : Phrase.Impasse depth passed t cause) (hcause : cause.IsShallow)
    (hlex : ∀ u ∈ passed, u.IsLexical) :
    ∃ p : Phrase, depth + p.openers < maxNesting ∧ passed <+: p.tokens ∧
      ∀ u ∈ p.tokens, u.IsLexical := by
  have hleaf {depth : Nat} (hdepth : depth < maxNesting) :
      ∃ p : Phrase, depth + p.openers < maxNesting ∧ [] <+: p.tokens ∧
        ∀ u ∈ p.tokens, u.IsLexical :=
    ⟨.name .spareName, hdepth, List.nil_prefix, by
      simpa [Phrase.tokens] using Terminal.isLexical_spareName⟩
  induction h with
  | tooDeep t hdeep => exact absurd rfl (hcause maxNesting)
  | noOpening t hdepth _ => exact hleaf hdepth
  | tooLarge t hdepth _ _ => exact hleaf hdepth
  | @unclosed depth opening inner t hdepth _ =>
    obtain ⟨hopening, hinner⟩ := List.forall_mem_cons.mp hlex
    obtain ⟨q, hopeners, hbegins, hq⟩ :=
      Opener.exists_phrase ⟨opening.val, .inr (.inr opening.property)⟩ hopening inner hinner
    exact ⟨q, by omega, hbegins, hq⟩
  | behind opener hdepth _ ih =>
    obtain ⟨hopener, hpassed⟩ := List.forall_mem_cons.mp hlex
    obtain ⟨p, hopeners, hbegins, hp⟩ := ih hcause hpassed
    obtain ⟨q, hq, hopened, hlexical⟩ := Opener.exists_phrase opener hopener p hp
    refine ⟨q, by omega, ?_, hlexical⟩
    exact ((List.prefix_cons_inj _).mpr hbegins).trans hopened

/-- No expression stands at the front where an impasse is met, not even one past the limit. -/
theorem hopeless (h : Phrase.Impasse depth passed t cause) (hcause : cause.IsShallow) (p : Phrase)
    (rest more : List Token) : p.tokens ++ rest ≠ passed ++ t :: more := by
  intro heq
  induction h generalizing p rest with
  | tooDeep t hdeep => exact hcause maxNesting rfl
  | noOpening t _ hnone =>
    have hrule := p.opening_of_append heq
    simp [hnone] at hrule
  | tooLarge t _ hkind hlarge =>
    have hrule := p.opening_of_append heq
    rw [hkind] at hrule
    cases p with
    | integer u =>
      obtain ⟨rfl, -⟩ := List.cons.inj heq
      have hvalue := u.property.2
      omega
    | _ => simp [Phrase.rule, TokenKind.opening?] at hrule
  | unclosed opening inner t _ hclose =>
    have hrule := p.opening_of_append heq
    rw [opening.property] at hrule
    cases p with
    | group opening' inner' closing =>
      simp only [Phrase.tokens, List.cons_append, List.append_assoc, List.cons.injEq] at heq
      -- the expressions behind the two parentheses are the same, so the same token follows them
      obtain ⟨-, hrest⟩ := Phrase.tokens_append_inj heq.2
      obtain ⟨rfl, -⟩ := List.cons.inj hrest
      exact hclose closing.property
    | _ => simp [Phrase.rule, TokenKind.opening?] at hrule
  | behind opener _ _ ih =>
    have hrule := p.opening_of_append heq
    cases p with
    | unary operator operand => exact ih hcause operand rest (List.cons.inj heq).2
    | group opening inner closing =>
      simp only [Phrase.tokens, List.cons_append, List.append_assoc, List.cons.injEq] at heq
      exact ih hcause inner _ heq.2
    | _ => rcases opener.property with hk | hk | hk <;> simp [hk, Phrase.rule, TokenKind.opening?] at hrule

/-- The first token, be it passed or the impasse itself, is no semicolon. -/
theorem ne_close (h : Phrase.Impasse depth passed t cause)
    (hstart : passed = [] → t.kind ≠ .semicolon) (close : Terminal .semicolon)
    (rest more : List Token) : close.val :: rest ≠ passed ++ t :: more := by
  intro heq
  cases passed with
  | nil =>
    obtain ⟨rfl, -⟩ := List.cons.inj heq
    exact hstart rfl close.property
  | cons u passed =>
    obtain ⟨rfl, -⟩ := List.cons.inj heq
    exact h.ne_semicolon close.val List.mem_cons_self close.property

end Phrase.Impasse

namespace Sentence

/-- The tokens begin a statement within the limit that can be made of scanned tokens. -/
def Viable (tokens : List Token) : Prop :=
  ∃ s : Sentence, s.WithinLimit ∧ tokens <+: s.tokens ∧ ∀ t ∈ s.tokens, t.IsLexical

theorem Viable.of_phrase {s : Sentence} {p : Phrase} (hvalue : s.value? = some p)
    (hlimit : 0 + p.openers < maxNesting) {tokens : List Token} (hbegins : tokens <+: s.body)
    (hlex : ∀ u ∈ s.tokens, u.IsLexical) : Viable tokens := by
  refine ⟨s, (withinLimit_iff hvalue).mpr (by omega), ?_, hlex⟩
  exact hbegins.trans (List.prefix_append _ _)

/-- The token that tokens begin with selects the form of a statement that stands there. -/
theorem form_of_append (s : Sentence) {t : Token} {rest tokens : List Token}
    (h : s.tokens ++ rest = t :: tokens) : t.kind.statementForm = s.form := by
  rw [s.tokens_eq_cons] at h
  obtain ⟨rfl, -⟩ := List.cons.inj h
  exact s.statementForm_first

/-- Only a statement that binds a name begins with `let`. -/
theorem binding_of_append (s : Sentence) {keyword : Terminal .letKeyword} {rest following : List Token}
    (h : s.tokens ++ rest = keyword.val :: following) :
    ∃ (name : Terminal .ident) (sign : Terminal .assign) (value : Phrase) (rest' : List Token),
      following = name.val :: sign.val :: (value.tokens ++ rest') := by
  have hform := s.form_of_append h
  rw [keyword.property] at hform
  cases s with
  | binding _ name sign value stop =>
    refine ⟨name, sign, value, stop.unattach.toList ++ rest, ?_⟩
    simpa [tokens, body, stop?] using (List.cons.inj h).2.symm
  | _ => simp [form, TokenKind.statementForm] at hform

theorem exists_return_of_isLoneReturn {s : Sentence} (h : s.IsLoneReturn) :
    ∃ keyword : Terminal .returnKeyword, s.tokens = [keyword.val] := by
  obtain ⟨hvalue, hstop⟩ := h
  cases s with
  | emptyRet keyword stop => exact ⟨keyword, by simp [tokens, body, hstop]⟩
  | _ => simp [value?] at hvalue

namespace Impasse

variable {passed : List Token} {t : Token} {cause : Cause}

/-- What has been passed before an impasse can be completed to a statement. -/
theorem viable (h : Sentence.Impasse passed t cause) (hcause : cause.IsShallow)
    (hlex : ∀ u ∈ passed, u.IsLexical) : Viable passed := by
  have hname := Terminal.isLexical_spareName
  cases h with
  | name keyword t _ =>
    refine Viable.of_phrase (s := .binding keyword .spareName .spareSign (.name .spareName) none)
      rfl (by decide) ⟨_, rfl⟩ ?_
    simpa [tokens, body, stop?, Phrase.tokens, hname, Terminal.isLexical_spareSign] using hlex
  | sign keyword name t _ =>
    refine Viable.of_phrase (s := .binding keyword name .spareSign (.name .spareName) none)
      rfl (by decide) ⟨_, rfl⟩ ?_
    simpa [tokens, body, stop?, Phrase.tokens, hname, Terminal.isLexical_spareSign] using hlex
  | bound keyword name sign hvalue =>
    simp only [List.forall_mem_cons] at hlex
    obtain ⟨hkeyword, hname, hsign, hpassed⟩ := hlex
    obtain ⟨p, hlimit, hbegins, hp⟩ := hvalue.exists_phrase hcause hpassed
    refine Viable.of_phrase (s := .binding keyword name sign p none) rfl hlimit ?_ ?_
    · simpa [body] using hbegins
    · simpa [tokens, body, stop?, hkeyword, hname, hsign] using hp
  | returned keyword hvalue _ =>
    obtain ⟨hkeyword, hpassed⟩ := List.forall_mem_cons.mp hlex
    obtain ⟨p, hlimit, hbegins, hp⟩ := hvalue.exists_phrase hcause hpassed
    refine Viable.of_phrase (s := .ret keyword p none) rfl hlimit ?_ ?_
    · simpa [body] using hbegins
    · simpa [tokens, body, stop?, hkeyword] using hp
  | bare hvalue _ =>
    obtain ⟨p, hlimit, hbegins, hp⟩ := hvalue.exists_phrase hcause hlex
    refine Viable.of_phrase (s := .bare p none) rfl hlimit hbegins ?_
    simpa [tokens, body, stop?] using hp

/-- No statement stands at the front where an impasse is met. -/
theorem hopeless (h : Sentence.Impasse passed t cause) (hcause : cause.IsShallow) (s : Sentence)
    (rest more : List Token) (hlone : s.IsLoneReturn → rest = []) :
    s.tokens ++ rest ≠ passed ++ t :: more := by
  intro heq
  cases h with
  | name keyword t hname =>
    obtain ⟨name, sign, value, rest', hsplit⟩ := s.binding_of_append heq
    obtain ⟨rfl, -⟩ := List.cons.inj hsplit
    exact hname name.property
  | sign keyword name t hsign =>
    obtain ⟨name', sign, value, rest', hsplit⟩ := s.binding_of_append heq
    obtain ⟨rfl, -⟩ := List.cons.inj (List.cons.inj hsplit).2
    exact hsign sign.property
  | bound keyword name sign hvalue =>
    obtain ⟨name', sign', value, rest', hsplit⟩ := s.binding_of_append heq
    exact hvalue.hopeless hcause value rest' more (List.cons.inj (List.cons.inj hsplit).2).2.symm
  | returned keyword hvalue hend =>
    have hform := s.form_of_append heq
    rw [keyword.property] at hform
    cases s with
    | ret _ value stop =>
      simp only [tokens, body, List.cons_append, List.append_assoc, List.cons.injEq] at heq
      exact hvalue.hopeless hcause value _ more heq.2
    | emptyRet _ stop =>
      cases stop with
      | none =>
        rw [hlone ⟨rfl, rfl⟩] at heq
        simp [tokens, body, stop?] at heq
      | some close =>
        simp only [tokens, body, stop?, Option.unattach_some, Option.toList_some, List.cons_append,
          List.nil_append, List.cons.injEq] at heq
        exact hvalue.ne_close (fun hnil => (hend hnil).1) close rest more heq.2
    | _ => simp [form, TokenKind.statementForm] at hform
  | bare hvalue hstart =>
    have hform : s.form = .bare := by
      cases passed with
      | nil => rw [← s.form_of_append heq, hstart rfl]
      | cons u passed => rw [← s.form_of_append heq]; exact hvalue.statementForm_head
    cases s with
    | bare value stop =>
      rw [tokens, List.append_assoc] at heq
      exact hvalue.hopeless hcause value _ more heq
    | _ => simp [form] at hform

/-- Behind a lone `return` the end of the input is no impasse. -/
theorem kind_ne_eof_of_return (keyword : Terminal .returnKeyword)
    (h : Sentence.Impasse [keyword.val] t cause) : t.kind ≠ .eof := by
  generalize hpassed : [keyword.val] = passed at h
  cases h with
  | name keyword' t _ =>
    have hkind := congrArg Token.kind (List.cons.inj hpassed).1
    rw [keyword.property, keyword'.property] at hkind
    cases hkind
  | sign => simp at hpassed
  | bound => simp at hpassed
  | returned keyword' _ hend => exact (hend (List.cons.inj hpassed).2.symm).2
  | bare hvalue _ =>
    subst hpassed
    rcases hvalue.isOpener_head with hk | hk | hk <;> simp [keyword.property] at hk

/-- What has been passed before an impasse at the end of the input is no statement. -/
theorem ne_tokens (h : Sentence.Impasse passed t cause) (hcause : cause.IsShallow)
    (ht : t.kind = .eof) (s : Sentence) : s.tokens ≠ passed := by
  rintro rfl
  by_cases hlone : s.IsLoneReturn
  · obtain ⟨keyword, htokens⟩ := exists_return_of_isLoneReturn hlone
    rw [htokens] at h
    exact kind_ne_eof_of_return keyword h ht
  · exact h.hopeless hcause s [t] [] (fun hs => absurd hs hlone) rfl

end Impasse

end Sentence

end LetScript
