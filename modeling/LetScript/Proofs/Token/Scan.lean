import LetScript.Proofs.Token.Lexeme

/-!
A scan along the lexemes of a text. One equation for each shape of the front of a text determines
the whole scan; from them follow what the tokens of a scan look like (`isLexical_of_mem_scan`), that
they stand in order (`inOrder_scan`), and which texts a token of a kind can have.
-/
namespace LetScript

open Text (byteLength isBlank)

/-- The kind of a lexeme. No lexeme is empty, so the first case never arises. -/
def lexemeKind : List Char → TokenKind
  | [] => .illegal
  | c :: cs => kindOfLexeme c (String.ofList (c :: cs))

/-- The token of a lexeme that stands at an offset. -/
def Token.ofLexeme (offset : Nat) (file : String) (text : List Char) : Token :=
  ⟨lexemeKind text, String.ofList text,
    ⟨.ofOffset offset file, .ofOffset (offset + byteLength text) file⟩⟩

/-- No word is the end of the input or a number. -/
theorem ofWord_ne {kind : TokenKind} (h : kind = .eof ∨ kind = .int) (word : String) :
    TokenKind.ofWord word ≠ kind := by
  unfold TokenKind.ofWord TokenKind.keyword?
  rcases h with rfl | rfl <;> split <;> decide

/-- No symbol is the end of the input, a number or a name. -/
theorem ofSymbol_ne {kind : TokenKind} (h : kind = .eof ∨ kind = .int ∨ kind = .ident) (c : Char) :
    (TokenKind.ofSymbol? c).getD .illegal ≠ kind := by
  unfold TokenKind.ofSymbol?
  rcases h with rfl | rfl | rfl <;> split <;> decide

theorem lexemeKind_word {text : List Char} (hne : text ≠ [])
    (hall : ∀ c ∈ text, isLetter c = true) :
    lexemeKind text = .ofWord (String.ofList text) := by
  cases text with
  | nil => exact absurd rfl hne
  | cons c cs => exact kindOfLexeme_of_isLetter (hall c List.mem_cons_self) _

theorem lexemeKind_number {text : List Char} (hne : text ≠ [])
    (hall : ∀ c ∈ text, c.isDigit = true) : lexemeKind text = .int := by
  cases text with
  | nil => exact absurd rfl hne
  | cons c cs => exact kindOfLexeme_of_isDigit (hall c List.mem_cons_self) _

theorem lexemeKind_symbol {c : Char} (hc : charClass c = .other) :
    lexemeKind [c] = (TokenKind.ofSymbol? c).getD .illegal := by
  simp [lexemeKind, kindOfLexeme, hc]

theorem kindOfLexeme_ne_eof (c : Char) (literal : String) : kindOfLexeme c literal ≠ .eof := by
  unfold kindOfLexeme
  split
  · exact ofWord_ne (.inl rfl) literal
  · decide
  · exact ofSymbol_ne (.inl rfl) c

theorem lexemeKind_ne_eof {text : List Char} (h : IsLexeme text) : lexemeKind text ≠ .eof := by
  cases text with
  | nil => exact absurd rfl h.ne_nil
  | cons c cs => exact kindOfLexeme_ne_eof c _

namespace Scanner

theorem scan_of_eof {s : Scanner} (h : s.next.1.kind = .eof) :
    s.scan = ([], s.next.1.start) := by
  rw [scan]
  simp [h]

theorem scan_of_token {s : Scanner} (h : s.next.1.kind ≠ .eof) :
    s.scan = (s.next.1 :: s.next.2.scan.1, s.next.2.scan.2) := by
  rw [scan]
  simp [h]

/-- A scan depends on nothing but the next token and what stands behind it. -/
theorem scan_congr {s t : Scanner} (h : s.next = t.next) : s.scan = t.scan := by
  by_cases hk : t.next.1.kind = .eof
  · rw [scan_of_eof (by rw [h]; exact hk), scan_of_eof hk, h]
  · rw [scan_of_token (by rw [h]; exact hk), scan_of_token hk, h]

theorem next_of_rest_nil {s : Scanner} (h : s.rest = []) : s.next = (.endOfInput s.position, s) := by
  obtain ⟨rest, offset, file⟩ := s
  obtain rfl : rest = [] := h
  rfl

/-- Past the last token nothing moves any more. -/
theorem next_of_eof {s : Scanner} (h : s.next.1.kind = .eof) :
    s.next.2.rest = [] ∧ s.next.2.next = s.next := by
  have hrest : s.skipGap.rest = [] := by
    cases hrest : s.skipGap.rest with
    | nil => rfl
    | cons c rest =>
      rw [next, cut, hrest] at h
      exact absurd h (kindOfLexeme_ne_eof c _)
  have hnext : s.next = (.endOfInput s.skipGap.position, s.skipGap) := by
    rw [next, cut, hrest]
  rw [hnext]
  exact ⟨hrest, next_of_rest_nil hrest⟩

theorem scan_next (s : Scanner) : s.next.2.scan = (s.scan.1.tail, s.scan.2) := by
  by_cases h : s.next.1.kind = .eof
  · rw [scan_congr (next_of_eof h).2, scan_of_eof h]
    rfl
  · rw [scan_of_token h]
    rfl

/-- The token at an index, counted from the next one. -/
def tokenAhead (s : Scanner) (index : Nat) : Token := s.scan.1.getD index (.endOfInput s.scan.2)

theorem tokenAhead_zero (s : Scanner) : s.tokenAhead 0 = s.next.1 := by
  by_cases h : s.next.1.kind = .eof
  · obtain ⟨hrest, hagain⟩ := next_of_eof h
    rw [tokenAhead, scan_of_eof h, ← hagain, next_of_rest_nil hrest]
    rfl
  · rw [tokenAhead, scan_of_token h]
    rfl

theorem tokenAhead_succ (s : Scanner) (index : Nat) :
    s.tokenAhead (index + 1) = s.next.2.tokenAhead index := by
  rw [tokenAhead, tokenAhead, scan_next, List.getD_eq_getElem?_getD, List.getD_eq_getElem?_getD,
    List.getElem?_tail]

theorem scan_nil (offset : Nat) (file : String) :
    (Scanner.mk [] offset file).scan = ([], .ofOffset offset file) := by
  have hnext := next_of_rest_nil (s := ⟨[], offset, file⟩) rfl
  rw [scan_of_eof (by rw [hnext]; rfl), hnext]
  rfl

theorem skipGap_append {gap : List Char} (hgap : ∀ c ∈ gap, isGap c = true) (rest : List Char)
    (offset : Nat) (file : String) :
    (Scanner.mk (gap ++ rest) offset file).skipGap =
      (Scanner.mk rest (offset + byteLength gap) file).skipGap := by
  have htake (n : Nat) : gap.take (gap.length + n) = gap := List.take_of_length_le (by omega)
  simp [skipGap, drop, List.takeWhile_append_of_pos hgap, List.take_append, htake, Nat.add_assoc]

/-- A gap leaves no token behind; it only moves on. -/
theorem scan_gap {gap : List Char} (hgap : ∀ c ∈ gap, isGap c = true) (rest : List Char)
    (offset : Nat) (file : String) :
    (Scanner.mk (gap ++ rest) offset file).scan =
      (Scanner.mk rest (offset + byteLength gap) file).scan := by
  apply scan_congr
  simp only [next, skipGap_append hgap]

theorem scan_gap_cons {c : Char} (hc : isGap c = true) (rest : List Char) (offset : Nat)
    (file : String) :
    (Scanner.mk (c :: rest) offset file).scan =
      (Scanner.mk rest (offset + c.utf8Size) file).scan := by
  have hgap : ∀ d ∈ [c], isGap d = true := by simpa using hc
  rw [← List.singleton_append, scan_gap hgap, Text.byteLength_cons, Text.byteLength_nil, Nat.add_zero]

/-- A lexeme at the front of a text is the next token, if nothing behind it continues it. -/
theorem next_lexeme {text rest : List Char} (h : IsLexeme text) (hrest : Apart text rest)
    (offset : Nat) (file : String) :
    (Scanner.mk (text ++ rest) offset file).next =
      (.ofLexeme offset file text, ⟨rest, offset + byteLength text, file⟩) := by
  cases text with
  | nil => exact absurd rfl h.ne_nil
  | cons c cs =>
    have hskip : (Scanner.mk (c :: (cs ++ rest)) offset file).skipGap =
        ⟨c :: (cs ++ rest), offset, file⟩ := by
      simp [skipGap, drop, h.isGap_head]
    rw [List.cons_append, next, hskip]
    simp [cut, lexeme_append h hrest, drop, position, Token.ofLexeme, lexemeKind]

/-- A lexeme that nothing continues is one token, and the scan goes on behind it. -/
theorem scan_lexeme {text rest : List Char} (h : IsLexeme text) (hrest : Apart text rest)
    (offset : Nat) (file : String) :
    (Scanner.mk (text ++ rest) offset file).scan =
      (.ofLexeme offset file text :: (Scanner.mk rest (offset + byteLength text) file).scan.1,
        (Scanner.mk rest (offset + byteLength text) file).scan.2) := by
  have hnext := next_lexeme h hrest offset file
  rw [scan_of_token (by rw [hnext]; exact lexemeKind_ne_eof h), hnext]

end Scanner

/-- The token is a lexeme, and has its kind and its text. -/
def Token.IsLexical (t : Token) : Prop :=
  ∃ text, IsLexeme text ∧ t.kind = lexemeKind text ∧ t.literal = String.ofList text

/-- Every token is a lexeme of the text, and stands where the lexeme does. -/
theorem Scanner.exists_lexeme_of_mem_scan (text : List Char) (offset : Nat) (file : String) :
    ∀ t ∈ (Scanner.mk text offset file).scan.1, ∃ before word after,
      text = before ++ (word ++ after) ∧ IsLexeme word ∧
        t = .ofLexeme (offset + byteLength before) file word := by
  induction text using text_induction generalizing offset with
  | nil => simp [scan_nil]
  | gap c rest hc ih =>
    rw [scan_gap_cons hc]
    intro t ht
    obtain ⟨before, word, after, rfl, hword, rfl⟩ := ih _ t ht
    refine ⟨c :: before, word, after, rfl, hword, ?_⟩
    rw [Text.byteLength_cons, Nat.add_assoc]
  | lexeme text rest htext hapart ih =>
    rw [scan_lexeme htext hapart]
    intro t ht
    rcases List.mem_cons.mp ht with rfl | ht
    · exact ⟨[], text, rest, rfl, htext, rfl⟩
    · obtain ⟨before, word, after, rfl, hword, rfl⟩ := ih _ t ht
      refine ⟨text ++ before, word, after, (List.append_assoc _ _ _).symm, hword, ?_⟩
      rw [Text.byteLength_append, Nat.add_assoc]

theorem Scanner.isLexical_of_mem_scan (text : List Char) (offset : Nat) (file : String) :
    ∀ t ∈ (Scanner.mk text offset file).scan.1, t.IsLexical := by
  intro t ht
  obtain ⟨_, word, _, -, hword, rfl⟩ := exists_lexeme_of_mem_scan text offset file t ht
  exact ⟨word, hword, rfl, rfl⟩

/-- Each token has bytes of its own, and they stand before those of the next. -/
def InOrder (tokens : List Token) : Prop :=
  (∀ t ∈ tokens, t.span.start.offset < t.span.stop.offset) ∧
    tokens.Pairwise fun t u => t.span.stop.offset ≤ u.span.start.offset

theorem inOrder_append {a b : List Token} :
    InOrder (a ++ b) ↔ InOrder a ∧ InOrder b ∧
      ∀ t ∈ a, ∀ u ∈ b, t.span.stop.offset ≤ u.span.start.offset := by
  simp only [InOrder, List.forall_mem_append, List.pairwise_append]
  constructor
  · rintro ⟨⟨ha, hb⟩, hpa, hpb, hab⟩
    exact ⟨⟨ha, hpa⟩, ⟨hb, hpb⟩, hab⟩
  · rintro ⟨⟨ha, hpa⟩, ⟨hb, hpb⟩, hab⟩
    exact ⟨⟨ha, hb⟩, hpa, hpb, hab⟩

theorem InOrder.start_head_le {tokens : List Token} (h : InOrder tokens) {t u : Token}
    (ht : t ∈ tokens) (hu : u ∈ tokens.head?) : u.span.start.offset ≤ t.span.start.offset := by
  obtain ⟨rest, rfl⟩ := List.head?_eq_some_iff.mp hu
  have hspan := h.1 u List.mem_cons_self
  rcases List.mem_cons.mp ht with rfl | ht
  · exact Nat.le_refl _
  · have hle := (List.pairwise_cons.mp h.2).1 t ht
    omega

theorem InOrder.stop_le_getLast {tokens : List Token} (h : InOrder tokens) {t u : Token}
    (ht : t ∈ tokens) (hu : u ∈ tokens.getLast?) : t.span.stop.offset ≤ u.span.stop.offset := by
  obtain ⟨init, rfl⟩ := List.getLast?_eq_some_iff.mp hu
  have hspan := h.1 u (by simp)
  rcases List.mem_append.mp ht with ht | ht
  · have hle := (inOrder_append.mp h).2.2 t ht u (by simp)
    omega
  · obtain rfl := List.mem_singleton.mp ht
    exact Nat.le_refl _

/-- Where no offset is capped, the span of a lexeme tells its bytes. -/
theorem Token.offsets_ofLexeme (offset : Nat) (file : String) (text : List Char)
    (h : offset + byteLength text ≤ Position.maxOffset) :
    (ofLexeme offset file text).span.start.offset = offset ∧
      (ofLexeme offset file text).span.stop.offset = offset + byteLength text := by
  rw [ofLexeme, Position.ofOffset_of_le h, Position.ofOffset_of_le (by omega)]
  exact ⟨rfl, rfl⟩

theorem byteLength_pos {text : List Char} (h : text ≠ []) : 0 < byteLength text := by
  cases text with
  | nil => exact absurd rfl h
  | cons c text =>
    have := c.utf8Size_pos
    rw [Text.byteLength_cons]
    omega

/-- The tokens of a text that is not too long stand in order. -/
theorem Scanner.inOrder_scan (text : List Char) (offset : Nat) (file : String)
    (hsize : offset + byteLength text ≤ Position.maxOffset) :
    (∀ t ∈ (Scanner.mk text offset file).scan.1, offset ≤ t.span.start.offset) ∧
      InOrder (Scanner.mk text offset file).scan.1 := by
  induction text using text_induction generalizing offset with
  | nil => simp [scan_nil, InOrder]
  | gap c rest hc ih =>
    rw [Text.byteLength_cons] at hsize
    rw [scan_gap_cons hc]
    obtain ⟨hstart, horder⟩ := ih (offset + c.utf8Size) (by omega)
    exact ⟨fun t ht => Nat.le_trans (Nat.le_add_right _ _) (hstart t ht), horder⟩
  | lexeme text rest htext hapart ih =>
    rw [Text.byteLength_append] at hsize
    rw [scan_lexeme htext hapart]
    obtain ⟨hstart, hspans, hpairs⟩ := ih (offset + byteLength text) (by omega)
    obtain ⟨hfirst, hlast⟩ := Token.offsets_ofLexeme offset file text (by omega)
    have hpos := byteLength_pos htext.ne_nil
    refine ⟨?_, ?_, List.pairwise_cons.mpr ⟨fun t ht => hlast ▸ hstart t ht, hpairs⟩⟩
    · intro t ht
      rcases List.mem_cons.mp ht with rfl | ht
      · exact Nat.le_of_eq hfirst.symm
      · exact Nat.le_trans (Nat.le_add_right _ _) (hstart t ht)
    · intro t ht
      rcases List.mem_cons.mp ht with rfl | ht
      · rw [hfirst, hlast]
        omega
      · exact hspans t ht

/-- What stands apart from the text before it is scanned by itself. -/
theorem Scanner.scan_append {text rest : List Char} (h : Apart text rest) (offset : Nat)
    (file : String) :
    (Scanner.mk (text ++ rest) offset file).scan =
      ((Scanner.mk text offset file).scan.1 ++
          (Scanner.mk rest (offset + byteLength text) file).scan.1,
        (Scanner.mk rest (offset + byteLength text) file).scan.2) := by
  induction text using text_induction generalizing offset with
  | nil =>
    rw [scan_nil, Text.byteLength_nil]
    rfl
  | gap c text hc ih =>
    rw [List.cons_append, scan_gap_cons hc, scan_gap_cons hc, ih h.of_cons, Text.byteLength_cons,
      Nat.add_assoc]
  | lexeme word text hword hapart ih =>
    have hfirst : Apart word (text ++ rest) := hapart.append h
    rw [List.append_assoc, scan_lexeme hword hfirst, scan_lexeme hword hapart, ih h.of_append,
      Text.byteLength_append, Nat.add_assoc]
    rfl

/-- A scan ends where its text ends. -/
theorem Scanner.stop_scan (text : List Char) (offset : Nat) (file : String) :
    (Scanner.mk text offset file).scan.2 = .ofOffset (offset + byteLength text) file := by
  induction text using text_induction generalizing offset with
  | nil => rw [scan_nil, Text.byteLength_nil, Nat.add_zero]
  | gap c rest hc ih =>
    rw [scan_gap_cons hc, ih, Text.byteLength_cons, Nat.add_assoc]
  | lexeme text rest htext hapart ih =>
    rw [scan_lexeme htext hapart, ih, Text.byteLength_append, Nat.add_assoc]

theorem tokenize_eq_scan (source : String) (file : Option String) :
    tokenize source file = (Scanner.mk source.toList 0 (file.getD "shell")).scan.1 ++
      [.endOfInput (.ofOffset source.utf8ByteSize (file.getD "shell"))] := by
  have htokens : tokenize source file =
      (Scanner.mk source.toList 0 (file.getD "shell")).scan.1 ++
        [.endOfInput (Scanner.mk source.toList 0 (file.getD "shell")).scan.2] := rfl
  rw [htokens, Scanner.stop_scan, Text.byteLength_toList, Nat.zero_add]

/-- No token reaches past the end of the text. -/
theorem Scanner.stop_le_of_mem_scan (text : List Char) (offset : Nat) (file : String)
    (hsize : offset + byteLength text ≤ Position.maxOffset) :
    ∀ t ∈ (Scanner.mk text offset file).scan.1, t.span.stop.offset ≤ offset + byteLength text := by
  induction text using text_induction generalizing offset with
  | nil => simp [scan_nil]
  | gap c rest hc ih =>
    rw [Text.byteLength_cons, ← Nat.add_assoc] at hsize ⊢
    rw [scan_gap_cons hc]
    exact ih _ hsize
  | lexeme text rest htext hapart ih =>
    rw [Text.byteLength_append, ← Nat.add_assoc] at hsize ⊢
    rw [scan_lexeme htext hapart]
    intro t ht
    rcases List.mem_cons.mp ht with rfl | ht
    · have hlast := (Token.offsets_ofLexeme offset file text (by omega)).2
      omega
    · exact ih _ hsize t ht

/-- The only text of a kind, where there is only one. -/
def TokenKind.spelling? : TokenKind → Option String
  | assign => some "="
  | plus => some "+"
  | minus => some "-"
  | bang => some "!"
  | asterisk => some "*"
  | slash => some "/"
  | lt => some "<"
  | gt => some ">"
  | comma => some ","
  | semicolon => some ";"
  | lparen => some "("
  | rparen => some ")"
  | lbrace => some "\x7b"
  | rbrace => some "\x7d"
  | fnKeyword => some "fn"
  | letKeyword => some "let"
  | returnKeyword => some "return"
  | trueKeyword => some "true"
  | falseKeyword => some "false"
  | ifKeyword => some "if"
  | elseKeyword => some "else"
  | illegal | eof | ident | int => none

/-- A scanned token of a keyword or a symbol has the one text of its kind. -/
theorem literal_of_spelling {t : Token} (h : t.IsLexical) {word : String}
    (hword : t.kind.spelling? = some word) : t.literal = word := by
  obtain ⟨text, htext, hkind, hlit⟩ := h
  rw [hkind] at hword
  cases htext with
  | word hne hall =>
    rw [lexemeKind_word hne hall, TokenKind.ofWord, ← hlit] at hword
    unfold TokenKind.keyword? at hword
    split at hword <;> simp_all [TokenKind.spelling?]
  | number hne hall =>
    rw [lexemeKind_number hne hall] at hword
    simp [TokenKind.spelling?] at hword
  | symbol hc =>
    rw [lexemeKind_symbol hc] at hword
    unfold TokenKind.ofSymbol? at hword
    split at hword <;> simp_all [TokenKind.spelling?]

/-- The text of an identifier. -/
def IsName (text : String) : Prop :=
  text.toList ≠ [] ∧ (∀ c ∈ text.toList, isLetter c = true) ∧ TokenKind.keyword? text = none

/-- The text of an integer. -/
def IsNumber (text : String) : Prop := text.toList ≠ [] ∧ ∀ c ∈ text.toList, c.isDigit = true

theorem isNumber_of_kind_int {t : Token} (h : t.IsLexical) (hkind : t.kind = .int) :
    IsNumber t.literal := by
  obtain ⟨text, htext, hk, hlit⟩ := h
  rw [hk] at hkind
  cases htext with
  | word hne hall =>
    rw [lexemeKind_word hne hall] at hkind
    exact absurd hkind (ofWord_ne (.inr rfl) _)
  | number hne hall => simpa [IsNumber, hlit] using ⟨hne, hall⟩
  | symbol hc =>
    rw [lexemeKind_symbol hc] at hkind
    exact absurd hkind (ofSymbol_ne (.inr (.inl rfl)) _)

theorem keyword?_of_ofWord {word : String} (h : TokenKind.ofWord word = .ident) :
    TokenKind.keyword? word = none := by
  unfold TokenKind.ofWord at h
  unfold TokenKind.keyword? at h ⊢
  split at h <;> simp_all

/-- A scanned identifier is a run of letters and no keyword. -/
theorem isName_of_kind_ident {t : Token} (h : t.IsLexical) (hkind : t.kind = .ident) :
    IsName t.literal := by
  obtain ⟨text, htext, hk, hlit⟩ := h
  rw [hk] at hkind
  cases htext with
  | word hne hall =>
    rw [lexemeKind_word hne hall, ← hlit] at hkind
    exact ⟨by simpa [hlit] using hne, by simpa [hlit] using hall, keyword?_of_ofWord hkind⟩
  | number hne hall =>
    rw [lexemeKind_number hne hall] at hkind
    exact absurd hkind (by decide)
  | symbol hc =>
    rw [lexemeKind_symbol hc] at hkind
    exact absurd hkind (ofSymbol_ne (.inr (.inr rfl)) _)

/-- Blanks lie outside the range of the printing ASCII characters. -/
theorem code_of_isBlank {c : Char} (h : isBlank c = true) :
    c.val.toNat ≤ 32 ∨ 133 ≤ c.val.toNat := by
  simp only [isBlank, Char.toNat, Bool.or_eq_true, Bool.and_eq_true, decide_eq_true_eq,
    beq_iff_eq] at h
  omega

theorem not_isBlank_of_isLetter {c : Char} (h : isLetter c = true) : ¬ isBlank c = true := by
  change (decide (65 ≤ c.val.toNat ∧ c.val.toNat ≤ 90) ||
    (decide (97 ≤ c.val.toNat) && decide (c.val.toNat ≤ 122)) || c == '_') = true at h
  simp only [Bool.or_eq_true, Bool.and_eq_true, decide_eq_true_eq, beq_iff_eq] at h
  intro hblank
  have hcode := code_of_isBlank hblank
  rcases h with (h | h) | rfl
  · omega
  · omega
  · exact absurd hblank (by decide)

theorem not_isBlank_of_isDigit {c : Char} (h : c.isDigit = true) : ¬ isBlank c = true := by
  change (decide (48 ≤ c.val.toNat) && decide (c.val.toNat ≤ 57)) = true at h
  simp only [Bool.and_eq_true, decide_eq_true_eq] at h
  intro hblank
  have hcode := code_of_isBlank hblank
  omega

theorem ofSymbol?_of_isBlank {c : Char} (h : isBlank c = true) : TokenKind.ofSymbol? c = none := by
  unfold TokenKind.ofSymbol?
  split <;> first | rfl | exact absurd h (by decide)

/-- Only an illegal token can begin with a blank. -/
theorem lexemeKind_of_isBlank {c : Char} {cs : List Char} (h : IsLexeme (c :: cs))
    (hblank : isBlank c = true) : lexemeKind (c :: cs) = .illegal := by
  cases h with
  | word _ hall => exact absurd hblank (not_isBlank_of_isLetter (hall c List.mem_cons_self))
  | number _ hall => exact absurd hblank (not_isBlank_of_isDigit (hall c List.mem_cons_self))
  | symbol hc =>
    rw [lexemeKind_symbol hc, ofSymbol?_of_isBlank hblank]
    rfl

end LetScript
