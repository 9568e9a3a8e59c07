import LetScript.Proofs.Source.Slice
import LetScript.Token.Stream

/-!
Scanning by offsets. Instead of the characters that are left, a scanner can hold its whole source and
two offsets into it, where the current character begins and where the one behind it does. It keeps
the two in step by itself, and it slices the source at them, which may fail. Behind any number of
characters it does not: it moves past the next one, past a run of them and past a token
(`read?_behind`, `readOn?_behind`, `nextToken?_behind`), and the token is the one that is cut off what
is left.
-/
namespace LetScript

open Text (byteLength)

/-- A scanner that holds the whole source. Nothing forces its fields to agree. -/
structure ByteScanner where
  source : String
  /-- Where the current character begins. -/
  pos : Nat
  /-- Where the character behind it begins. -/
  next : Nat
  /-- The current character, none at the end. -/
  ch : Option Char
  file : String
  /-- Iteration has yielded the end of the input. -/
  finished : Bool
  deriving DecidableEq, Repr

namespace ByteScanner

/-- Moves to the first of the characters that stand at `next`. -/
def facing (s : ByteScanner) : List Char → ByteScanner
  | c :: _ => { s with ch := some c, pos := s.next, next := s.next + c.utf8Size }
  | [] => { s with ch := none, pos := s.source.utf8ByteSize }

/-- Moves past the current character, if the source can be sliced there. -/
def read? (s : ByteScanner) : Option ByteScanner :=
  (Text.dropBytes? s.next s.source.toList).map s.facing

/-- The scanner that has not read anything yet, so that it does not know its first character. -/
def unread (source : String) (file : Option String) : ByteScanner :=
  ⟨source, 0, 0, none, file.getD Scanner.unnamed, false⟩

def ofSource? (source : String) (file : Option String) : Option ByteScanner :=
  (unread source file).read?

/-- Stands at a character of the kind. -/
def isAt (s : ByteScanner) (accept : Char → Bool) : Bool := s.ch.any accept

/-- Bounds how often the scanner can move before it knows that it is at the end. -/
def left (s : ByteScanner) : Nat :=
  s.ch.toList.length + (byteLength s.source.toList - s.next)

/-- A loop over characters comes to an end, since every character read leaves fewer bytes. -/
theorem left_lt_of_read? {s after : ByteScanner} {accept : Char → Bool} (hat : s.isAt accept = true)
    (h : s.read? = some after) : after.left < s.left := by
  obtain ⟨rest, hrest, rfl⟩ := Option.map_eq_some_iff.mp h
  obtain ⟨before, hsource, hnext⟩ := Text.append_of_dropBytes? hrest
  have hsize := congrArg byteLength hsource
  rw [Text.byteLength_append, hnext] at hsize
  have hch : s.ch.toList.length = 1 := by
    cases hc : s.ch with
    | none => simp [isAt, hc] at hat
    | some c => rfl
  -- at the end the current character is lost, before it `next` comes closer to the end
  cases rest with
  | nil =>
    simp only [left, facing, hch, Option.toList_none, List.length_nil]
    omega
  | cons c rest =>
    have hpos := c.utf8Size_pos
    rw [Text.byteLength_cons] at hsize
    simp only [left, facing, hch, Option.toList_some, List.length_singleton]
    omega

/-- Moves on as long as the current character is of the kind. -/
def readOn? (accept : Char → Bool) (s : ByteScanner) : Option ByteScanner :=
  if _hat : s.isAt accept = true then
    match _h : s.read? with
    | some after => readOn? accept after
    | none => none
  else some s
termination_by s.left
decreasing_by exact left_lt_of_read? _hat _h

/-- Moves past a run of characters, and slices it out of the source. -/
def readWhile? (accept : Char → Bool) (s : ByteScanner) : Option (String × ByteScanner) :=
  (s.readOn? accept).bind fun after =>
    (Text.slice? s.pos after.pos s.source.toList).map fun run => (String.ofList run, after)

def skipGap? (s : ByteScanner) : Option ByteScanner := s.readOn? isGap

/-- The kind and the text of the token that stands at the current character. -/
def lexeme? (s : ByteScanner) : Option ((TokenKind × String) × ByteScanner) :=
  match s.ch with
  | none => some ((.eof, ""), s)
  | some c =>
    if isLetter c then
      (s.readWhile? isLetter).map fun (literal, after) => ((.ofWord literal, literal), after)
    else if c.isDigit then
      (s.readWhile? Char.isDigit).map fun (literal, after) => ((.int, literal), after)
    else
      s.read?.map fun after =>
        (((TokenKind.ofSymbol? c).getD .illegal, String.singleton c), after)

def spanFrom (s : ByteScanner) (start : Nat) : Span :=
  ⟨.ofOffset start s.file, .ofOffset s.pos s.file⟩

/-- The token that stands at the current character, with no gap before it. -/
def cut? (s : ByteScanner) : Option (Token × ByteScanner) :=
  s.lexeme?.map fun ((kind, literal), after) => (⟨kind, literal, after.spanFrom s.pos⟩, after)

def nextToken? (s : ByteScanner) : Option (Token × ByteScanner) := s.skipGap?.bind cut?

/-- One step of iteration: nothing is drawn once it has ended. -/
def next? (s : ByteScanner) : Option (Option Token × ByteScanner) :=
  if s.finished then some (none, s)
  else s.nextToken?.map fun (t, after) => (some t, { after with finished := t.kind = .eof })

/-- Nothing is left, not even a gap. -/
def atEnd (s : ByteScanner) : Bool := s.ch.isNone

/-- What can be called, also from inside: a copy is a scanner like its original. -/
inductive Step where
  | read
  | skipGap
  | readWhile (accept : Char → Bool)
  | nextToken
  | next
  | atEnd

def perform? (s : ByteScanner) : Step → Option ByteScanner
  | .read => s.read?
  | .skipGap => s.skipGap?
  | .readWhile accept => (s.readWhile? accept).map Prod.snd
  | .nextToken => s.nextToken?.map Prod.snd
  | .next => s.next?.map Prod.snd
  | .atEnd => some s

def performAll? (s : ByteScanner) : List Step → Option ByteScanner
  | [] => some s
  | step :: rest => (s.perform? step).bind (performAll? · rest)

/-- The scanner behind that many characters of its source. -/
def behind (s : ByteScanner) (count : Nat) : ByteScanner :=
  { s with
    pos := byteLength (s.source.toList.take count)
    next := byteLength (s.source.toList.take (count + 1))
    ch := s.source.toList[count]? }

@[simp] theorem source_behind (s : ByteScanner) (count : Nat) :
    (s.behind count).source = s.source := rfl

@[simp] theorem pos_behind (s : ByteScanner) (count : Nat) :
    (s.behind count).pos = byteLength (s.source.toList.take count) := rfl

@[simp] theorem behind_behind (s : ByteScanner) (count other : Nat) :
    (s.behind count).behind other = s.behind other := rfl

/-- The character at `next` becomes the current one, wherever the scanner has been before. -/
theorem read?_of_next {s : ByteScanner} {count : Nat}
    (h : s.next = byteLength (s.source.toList.take count)) : s.read? = some (s.behind count) := by
  rw [read?, h, Text.dropBytes?_take, Option.map_some]
  apply congrArg some
  cases hrest : s.source.toList.drop count with
  | nil =>
    -- `next` is not set here, but it has come to the end before
    have hlength := List.drop_eq_nil_iff.mp hrest
    rw [List.take_of_length_le hlength] at h
    rw [facing, behind, List.take_of_length_le hlength, List.take_of_length_le (by omega), ← h,
      List.getElem?_eq_none hlength, h, Text.byteLength_toList]
  | cons c rest =>
    have hc : s.source.toList[count]? = some c := by
      rw [← List.head?_drop, hrest]
      rfl
    rw [facing, behind, List.take_add_one, hc, Text.byteLength_append, ← h]
    rfl

theorem read?_behind (s : ByteScanner) (count : Nat) :
    (s.behind count).read? = some (s.behind (count + 1)) := by
  have hnext : (s.behind count).next = byteLength (s.source.toList.take (count + 1)) := rfl
  rw [read?_of_next hnext, behind_behind]

theorem ofSource?_eq (source : String) (file : Option String) :
    ofSource? source file = some ((unread source file).behind 0) := by
  have hnext : (unread source file).next = byteLength (source.toList.take 0) := rfl
  exact read?_of_next hnext

theorem ch_behind (s : ByteScanner) (count : Nat) :
    (s.behind count).ch = (s.source.toList.drop count).head? :=
  List.head?_drop.symm

theorem readOn?_of_read {accept : Char → Bool} {s after : ByteScanner} (hat : s.isAt accept = true)
    (h : s.read? = some after) : s.readOn? accept = after.readOn? accept := by
  rw [readOn?, dif_pos hat]
  split
  · rename_i found hfound
    rw [Option.some.inj (hfound.symm.trans h)]
  · rename_i hnone
    cases hnone.symm.trans h

/-- By induction on the characters that are left. -/
theorem readOn?_behind (accept : Char → Bool) (s : ByteScanner) (count : Nat) :
    (s.behind count).readOn? accept =
      some (s.behind (count + ((s.source.toList.drop count).takeWhile accept).length)) := by
  induction hrest : s.source.toList.drop count generalizing count with
  | nil =>
    have hat : ¬ (s.behind count).isAt accept = true := by simp [isAt, ch_behind, hrest]
    rw [readOn?, dif_neg hat]
    rfl
  | cons c rest ih =>
    by_cases hc : accept c = true
    · have hat : (s.behind count).isAt accept = true := by simpa [isAt, ch_behind, hrest] using hc
      have hdrop : s.source.toList.drop (count + 1) = rest := by
        rw [← List.drop_drop, hrest]
        rfl
      rw [readOn?_of_read hat (s.read?_behind count), ih (count + 1) hdrop,
        List.takeWhile_cons_of_pos hc, List.length_cons, Nat.add_assoc, Nat.add_comm 1]
    · have hat : ¬ (s.behind count).isAt accept = true := by
        simpa [isAt, ch_behind, hrest] using hc
      rw [readOn?, dif_neg hat, List.takeWhile_cons_of_neg hc]
      rfl

theorem readWhile?_behind (accept : Char → Bool) (s : ByteScanner) (count : Nat) :
    (s.behind count).readWhile? accept =
      some (String.ofList ((s.source.toList.drop count).takeWhile accept),
        s.behind (count + ((s.source.toList.drop count).takeWhile accept).length)) := by
  have hslice := Text.slice?_take s.source.toList count
    ((s.source.toList.drop count).takeWhile accept).length
  rw [← List.prefix_iff_eq_take.mp (List.takeWhile_prefix accept)] at hslice
  rw [readWhile?, readOn?_behind, Option.bind_some, pos_behind, pos_behind, source_behind, hslice]
  rfl

/-- The scanner that holds what is left behind that many characters. -/
def scannerBehind (s : ByteScanner) (count : Nat) : Scanner :=
  ⟨s.source.toList.drop count, byteLength (s.source.toList.take count), s.file⟩

theorem drop_scannerBehind (s : ByteScanner) (count length : Nat) :
    (s.scannerBehind count).drop length = s.scannerBehind (count + length) := by
  simp only [scannerBehind, Scanner.drop, List.drop_drop, Text.byteLength_take_add]

/-- The slice between two offsets of the scanner is the lexeme at its front. -/
theorem lexeme?_behind {s : ByteScanner} {count : Nat} {c : Char} {rest : List Char}
    (h : s.source.toList.drop count = c :: rest) :
    (s.behind count).lexeme? =
      some ((kindOfLexeme c (String.ofList (lexeme c rest)), String.ofList (lexeme c rest)),
        s.behind (count + (lexeme c rest).length)) := by
  have hch : (s.behind count).ch = some c := by rw [ch_behind, h]; rfl
  simp only [lexeme?, hch]
  by_cases hletter : isLetter c = true
  · rw [if_pos hletter, readWhile?_behind, h, List.takeWhile_cons_of_pos hletter,
      kindOfLexeme_of_isLetter hletter, lexeme_of_isLetter hletter]
    rfl
  · rw [if_neg hletter]
    by_cases hdigit : c.isDigit = true
    · rw [if_pos hdigit, readWhile?_behind, h, List.takeWhile_cons_of_pos hdigit,
        kindOfLexeme_of_isDigit hdigit, lexeme_of_isDigit hdigit]
      rfl
    · rw [if_neg hdigit, read?_behind, kindOfLexeme_of_neither hletter hdigit,
        lexeme_of_neither hletter hdigit]
      rfl

/-- Both scanners cut the same token off, and stand behind the same characters then. -/
theorem cut?_behind (s : ByteScanner) (count : Nat) :
    ∃ length, (s.scannerBehind count).cut.2 = s.scannerBehind (count + length) ∧
      (s.behind count).cut? =
        some ((s.scannerBehind count).cut.1, s.behind (count + length)) := by
  cases hrest : s.source.toList.drop count with
  | nil =>
    have hch : (s.behind count).ch = none := by rw [ch_behind, hrest]; rfl
    have hcut : (s.scannerBehind count).cut =
        (.endOfInput (s.scannerBehind count).position, s.scannerBehind count) := by
      simp only [Scanner.cut, scannerBehind, hrest]
    refine ⟨0, by rw [hcut]; rfl, ?_⟩
    rw [hcut]
    simp only [cut?, lexeme?, hch]
    rfl
  | cons c rest =>
    have hcut : (s.scannerBehind count).cut =
        (⟨kindOfLexeme c (String.ofList (lexeme c rest)), String.ofList (lexeme c rest),
          ⟨(s.scannerBehind count).position,
            (s.scannerBehind (count + (lexeme c rest).length)).position⟩⟩,
          s.scannerBehind (count + (lexeme c rest).length)) := by
      rw [← drop_scannerBehind]
      simp only [Scanner.cut, scannerBehind, hrest]
    refine ⟨(lexeme c rest).length, by rw [hcut], ?_⟩
    rw [cut?, lexeme?_behind hrest, hcut]
    rfl

/-- The next token is that of the scanner on characters, and both go on behind as many of them. -/
theorem nextToken?_behind (s : ByteScanner) (count : Nat) :
    ∃ length, (s.scannerBehind count).next.2 = s.scannerBehind (count + length) ∧
      (s.behind count).nextToken? =
        some ((s.scannerBehind count).next.1, s.behind (count + length)) := by
  have hskip : (s.scannerBehind count).skipGap = s.scannerBehind
      (count + ((s.source.toList.drop count).takeWhile isGap).length) := drop_scannerBehind _ _ _
  obtain ⟨length, hafter, hcut⟩ :=
    s.cut?_behind (count + ((s.source.toList.drop count).takeWhile isGap).length)
  rw [Nat.add_assoc] at hafter hcut
  refine ⟨((s.source.toList.drop count).takeWhile isGap).length + length, ?_, ?_⟩
  · rw [Scanner.next, hskip, hafter]
  · rw [nextToken?, skipGap?, readOn?_behind, Option.bind_some, hcut, Scanner.next, hskip]

/-- A token that is not the end of the input has bytes of its own. -/
theorem pos_behind_lt {s : ByteScanner} {count length : Nat}
    (hafter : (s.scannerBehind count).next.2 = s.scannerBehind (count + length))
    (hkind : (s.scannerBehind count).next.1.kind ≠ .eof) :
    (s.behind count).pos < (s.behind (count + length)).pos := by
  have hlt := (s.scannerBehind count).length_rest_next_lt hkind
  rw [hafter] at hlt
  simp only [scannerBehind, List.length_drop] at hlt
  have hne : (s.source.toList.drop count).take length ≠ [] := by
    rw [ne_eq, ← List.length_eq_zero_iff, List.length_take, List.length_drop]
    omega
  have hpos := byteLength_pos hne
  rw [pos_behind, pos_behind, Text.byteLength_take_add]
  omega

end ByteScanner

end LetScript
