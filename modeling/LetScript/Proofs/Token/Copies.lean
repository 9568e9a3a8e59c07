import LetScript.Proofs.Reading.Session
import LetScript.Token.Stream
import Mathlib.Logic.Function.Basic

/-!
Copies of a stream. A stream can be copied at any time, and a copy over another; each copy has a
history of its own, which begins with that of its original. Whatever is called on which copy, the
tokens of a history are those of the source in order, however they were drawn, and what has come to
its end stays there (`Copies.performAll_lawful`).
-/
namespace LetScript

namespace TokenStream

/-- What is answered by the calls on a stream. -/
inductive Event where
  | token (t : Token)
  | item (t : Option Token)
  | ended (yes : Bool)
  deriving DecidableEq, Repr

inductive Call where
  | nextToken | next | atEnd | drain
  deriving DecidableEq, Repr

/-- A call, and the stream behind it. Iterating to the end takes one item more than there are
tokens. -/
def call (s : TokenStream) : Call → List Event × TokenStream
  | .nextToken => let (t, after) := s.nextToken; ([.token t], after)
  | .next => let (t, after) := s.next; ([.item t], after)
  | .atEnd => ([.ended s.atEnd], s)
  | .drain => let (tokens, after) := s.drain; (tokens.map (.item ∘ some) ++ [.item none], after)

def Event.token? : Event → Option Token
  | token t => some t
  | item t => t
  | ended _ => none

/-- All tokens of a history, however they were drawn. -/
def yielded (history : List Event) : List Token := history.filterMap Event.token?

/-- Iteration has yielded the end of the input. -/
def Exhausted (history : List Event) : Prop := ∃ t, .item (some t) ∈ history ∧ t.kind = .eof

/-- What the answers of a stream of the source are. -/
structure Lawful (source : String) (file : Option String) (history : List Event) : Prop where
  /-- The tokens are those of the source, without a gap. -/
  tokens : yielded history = (List.range (yielded history).length).map (tokenAt source file)
  /-- Iteration has nothing more to yield just when it has yielded the end of the input. -/
  iteration : ∀ before t after, history = before ++ .item t :: after →
    (t = none ↔ Exhausted before)
  /-- Once iteration has nothing more to yield, it never has. -/
  exhausted : ∀ before after, history = before ++ .item none :: after →
    ∀ t, .item t ∈ after → t = none
  /-- A stream that stands at the end stands there for ever, and yields nothing but the end. -/
  ended : ∀ before after, history = before ++ .ended true :: after →
    .ended false ∉ after ∧ ∀ t ∈ yielded after, t.kind = .eof

@[simp] theorem yielded_concat (history : List Event) (e : Event) :
    yielded (history ++ [e]) = yielded history ++ e.token?.toList := by
  cases h : e.token? <;> simp [yielded, h]

theorem exhausted_concat {history : List Event} {e : Event} :
    Exhausted (history ++ [e]) ↔ Exhausted history ∨ ∃ t, e = .item (some t) ∧ t.kind = .eof := by
  simp only [Exhausted, List.mem_append, List.mem_singleton]
  grind

/-- Where a history that one more answer has been added to is cut: before that answer, or inside the
history. -/
theorem cut_concat {history before after : List Event} {e cut : Event}
    (h : history ++ [e] = before ++ cut :: after) :
    (before = history ∧ cut = e ∧ after = []) ∨
      ∃ init, after = init ++ [e] ∧ history = before ++ cut :: init := by
  rcases List.eq_nil_or_concat after with rfl | ⟨init, last, rfl⟩
  · left
    obtain ⟨hhistory, hcut⟩ := List.append_inj' h rfl
    exact ⟨hhistory.symm, (List.cons.inj hcut).1.symm, rfl⟩
  · right
    rw [List.concat_eq_append, ← List.cons_append, ← List.append_assoc] at h
    obtain ⟨hhistory, hlast⟩ := List.append_inj' h rfl
    exact ⟨init, by rw [List.concat_eq_append, (List.cons.inj hlast).1], hhistory⟩

/-- The answer may be given behind the history. -/
structure Follows (source : String) (file : Option String) (history : List Event) (e : Event) :
    Prop where
  token : ∀ t ∈ e.token?, t = tokenAt source file (yielded history).length
  item : ∀ t, e = .item t → (t = none ↔ Exhausted history)
  ended : .ended true ∈ history → e ≠ .ended false ∧ ∀ t ∈ e.token?, t.kind = .eof

section

variable {source : String} {file : Option String} {history : List Event} {e : Event}

theorem Exhausted.mono {before after : List Event} (h : Exhausted before) :
    Exhausted (before ++ after) :=
  let ⟨t, ht, hkind⟩ := h
  ⟨t, List.mem_append_left after ht, hkind⟩

theorem Lawful.nil : Lawful source file [] where
  tokens := rfl
  iteration before t after h := by simp at h
  exhausted before after h := by simp at h
  ended before after h := by simp at h

/-- A history stays lawful when one more answer follows from it. A cut of the longer history falls
before the new answer, or is one of the old. -/
theorem Lawful.concat (h : Lawful source file history) (he : Follows source file history e) :
    Lawful source file (history ++ [e]) where
  tokens := by
    rw [yielded_concat]
    cases ht : e.token? with
    | none => simpa using h.tokens
    | some t =>
      rw [Option.toList_some, List.length_append, List.length_singleton, List.range_succ,
        List.map_append, ← h.tokens, List.map_singleton, he.token t ht]
  iteration before t after hcut := by
    rcases cut_concat hcut with ⟨rfl, ht, -⟩ | ⟨init, -, hhistory⟩
    · exact he.item t ht.symm
    · exact h.iteration before t init hhistory
  exhausted before after hcut t ht := by
    rcases cut_concat hcut with ⟨-, -, rfl⟩ | ⟨init, rfl, hhistory⟩
    · cases ht
    · rcases List.mem_append.mp ht with ht | ht
      · exact h.exhausted before init hhistory t ht
      · have hbefore : Exhausted before := (h.iteration before none init hhistory).mp rfl
        refine (he.item t (List.mem_singleton.mp ht).symm).mpr ?_
        rw [hhistory]
        exact hbefore.mono
  ended before after hcut := by
    rcases cut_concat hcut with ⟨-, -, rfl⟩ | ⟨init, rfl, hhistory⟩
    · simp [yielded]
    · obtain ⟨hnot, hkinds⟩ := h.ended before init hhistory
      obtain ⟨hne, hkind⟩ := he.ended (by simp [hhistory])
      constructor
      · simpa [hne.symm] using hnot
      · intro t ht
        rw [yielded_concat] at ht
        rcases List.mem_append.mp ht with ht | ht
        · exact hkinds t ht
        · exact hkind t (Option.mem_toList.mp ht)

end

end TokenStream

/-- A stream, and all that the calls on it have answered. -/
structure Copy where
  stream : TokenStream
  history : List TokenStream.Event
  deriving DecidableEq, Repr

namespace Copy

open TokenStream (Event Call yielded Exhausted Lawful Follows)

def call (c : Copy) (call : Call) : Copy :=
  ⟨(c.stream.call call).2, c.history ++ (c.stream.call call).1⟩

/-- The history has been lawful, and the stream stands where the history left it. -/
structure Faithful (source : String) (file : Option String) (c : Copy) : Prop where
  lawful : Lawful source file c.history
  /-- What is left to draw are the tokens behind those that have been drawn. -/
  ahead : ∀ index, c.stream.scanner.tokenAhead index =
    tokenAt source file ((yielded c.history).length + index)
  finished : c.stream.finished = true ↔ Exhausted c.history
  atEnd : .ended true ∈ c.history → c.stream.atEnd = true

namespace Faithful

variable {source : String} {file : Option String} {s : TokenStream} {history : List Event}

theorem next_eq (h : Faithful source file ⟨s, history⟩) :
    s.scanner.next.1 = tokenAt source file (yielded history).length := by
  rw [← Scanner.tokenAhead_zero]
  exact h.ahead 0

theorem atEnd_next (h : s.atEnd = true) :
    s.scanner.next = (.endOfInput s.scanner.position, s.scanner) :=
  Scanner.next_of_rest_nil (List.isEmpty_iff.mp h)

/-- The next token can be drawn by either call, as long as what is known of the end is kept up. -/
theorem draw (h : Faithful source file ⟨s, history⟩) {e : Event}
    (htoken : e.token? = some s.scanner.next.1)
    (hitem : ∀ t, e = .item t → s.finished = false) {finished : Bool}
    (hfinished : finished = true ↔ Exhausted (history ++ [e])) :
    Faithful source file ⟨⟨s.scanner.next.2, finished⟩, history ++ [e]⟩ where
  lawful := by
    refine h.lawful.concat ⟨?_, ?_, ?_⟩
    · intro t ht
      rw [htoken] at ht
      rw [← Option.some.inj ht]
      exact h.next_eq
    · rintro t rfl
      have hsome : t = some _ := htoken
      have hnot : ¬ Exhausted history := fun hex =>
        Bool.false_ne_true ((hitem t rfl).symm.trans (h.finished.mpr hex))
      simp [hsome, hnot]
    · intro hended
      have hnext := atEnd_next (h.atEnd hended)
      rw [htoken, hnext]
      constructor
      · rintro rfl
        cases htoken
      · intro t ht
        rw [← Option.some.inj ht]
        rfl
  ahead index := by
    rw [← Scanner.tokenAhead_succ, TokenStream.yielded_concat, htoken, Option.toList_some,
      List.length_append, List.length_singleton, Nat.add_assoc, Nat.add_comm 1]
    exact h.ahead (index + 1)
  finished := hfinished
  atEnd hended := by
    have hbefore : .ended true ∈ history := by
      rcases List.mem_append.mp hended with hended | hended
      · exact hended
      · rw [← List.mem_singleton.mp hended] at htoken
        cases htoken
    have hend := h.atEnd hbefore
    change Scanner.atEnd s.scanner.next.2 = true
    rw [atEnd_next hend]
    exact hend

/-- An answer that draws nothing leaves the stream alone. -/
theorem rest (h : Faithful source file ⟨s, history⟩) {e : Event} (htoken : e.token? = none)
    (hitem : ∀ t, e = .item t → s.finished = true) (hended : ∀ yes, e = .ended yes → yes = s.atEnd) :
    Faithful source file ⟨s, history ++ [e]⟩ where
  lawful := by
    refine h.lawful.concat ⟨by simp [htoken], ?_, fun hbefore => ⟨?_, by simp [htoken]⟩⟩
    · rintro t rfl
      have hnone : t = none := htoken
      simp [hnone, h.finished.mp (hitem t rfl)]
    · rintro rfl
      exact Bool.false_ne_true ((hended false rfl).trans (h.atEnd hbefore))
  ahead index := by
    rw [TokenStream.yielded_concat, htoken, Option.toList_none, List.append_nil]
    exact h.ahead index
  finished := by
    have hnone : ¬ ∃ t, e = .item (some t) ∧ t.kind = .eof := by
      rintro ⟨t, rfl, -⟩
      cases htoken
    rw [TokenStream.exhausted_concat, or_iff_left hnone]
    exact h.finished
  atEnd hmem := by
    rcases List.mem_append.mp hmem with hmem | hmem
    · exact h.atEnd hmem
    · exact (hended true (List.mem_singleton.mp hmem).symm).symm

theorem nextToken (h : Faithful source file ⟨s, history⟩) :
    Faithful source file ⟨s.nextToken.2, history ++ [.token s.nextToken.1]⟩ := by
  refine h.draw (e := .token s.nextToken.1) rfl (fun t ht => nomatch ht) ?_
  rw [TokenStream.exhausted_concat, or_iff_left (by simp)]
  exact h.finished

/-- A step of iteration draws the next token, or nothing once the end has been yielded. -/
theorem next (h : Faithful source file ⟨s, history⟩) :
    Faithful source file ⟨s.next.2, history ++ [.item s.next.1]⟩ := by
  cases hfinished : s.finished with
  | true =>
    have hnext : s.next = (none, s) := if_pos hfinished
    rw [hnext]
    exact h.rest (e := .item none) rfl (fun _ _ => hfinished) fun yes hyes => nomatch hyes
  | false =>
    have hnext : s.next =
        (some s.scanner.next.1, ⟨s.scanner.next.2, s.scanner.next.1.kind = .eof⟩) :=
      if_neg (by simp [hfinished])
    have hnot : ¬ Exhausted history := fun hex =>
      Bool.false_ne_true (hfinished.symm.trans (h.finished.mpr hex))
    rw [hnext]
    refine h.draw rfl (fun _ _ => hfinished) ?_
    rw [TokenStream.exhausted_concat, or_iff_right hnot]
    simp

theorem ended (h : Faithful source file ⟨s, history⟩) :
    Faithful source file ⟨s, history ++ [.ended s.atEnd]⟩ :=
  h.rest (e := .ended s.atEnd) rfl (fun _ ht => nomatch ht) fun _ hyes => (Event.ended.inj hyes).symm

/-- Iterating to the end is iterating step by step. -/
theorem drain (h : Faithful source file ⟨s, history⟩) :
    Faithful source file
      ⟨s.drain.2, history ++ (s.drain.1.map (Event.item ∘ some) ++ [.item none])⟩ := by
  fun_induction TokenStream.drain s generalizing history with
  | case1 s after hnext =>
    have hstep := h.next
    rw [hnext] at hstep
    exact hstep
  | case2 s t after hnext tokens last hdrain ih =>
    have hstep := h.next
    rw [hnext] at hstep
    have hrest := ih hstep
    rw [hdrain, List.append_assoc] at hrest
    exact hrest

theorem call {c : Copy} (h : Faithful source file c) (call : Call) :
    Faithful source file (c.call call) := by
  cases call with
  | nextToken => exact h.nextToken
  | next => exact h.next
  | atEnd => exact h.ended
  | drain => exact h.drain

theorem ofSource (source : String) (file : Option String) :
    Faithful source file ⟨.ofSource source file, []⟩ where
  lawful := .nil
  ahead index := by
    rw [Scanner.tokenAt_eq_tokenAhead, TokenStream.yielded, List.filterMap_nil, List.length_nil,
      Nat.zero_add]
    rfl
  finished := by simp [TokenStream.ofSource, Exhausted]
  atEnd hmem := by simp at hmem

end Faithful

end Copy

/-- The copies that there are, by name. -/
abbrev Copies := Nat → Option Copy

namespace Copies

inductive Move where
  | call (name : Nat) (call : TokenStream.Call)
  /-- Puts a copy of the one, with its history, in the place of the other. -/
  | clone (original name : Nat)
  deriving DecidableEq, Repr

/-- One stream, named zero, and no copy of it. -/
def ofSource (source : String) (file : Option String) : Copies :=
  Function.update (fun _ => none) 0 (some ⟨.ofSource source file, []⟩)

/-- A move of what is not there does nothing. -/
def perform (copies : Copies) : Move → Copies
  | .call name call =>
    match copies name with
    | some copy => Function.update copies name (some (copy.call call))
    | none => copies
  | .clone original name =>
    match copies original with
    | some copy => Function.update copies name (some copy)
    | none => copies

def performAll (copies : Copies) (moves : List Move) : Copies := moves.foldl perform copies

/-- Every copy is faithful. -/
def AllFaithful (source : String) (file : Option String) (copies : Copies) : Prop :=
  ∀ name copy, copies name = some copy → copy.Faithful source file

section

variable {source : String} {file : Option String} {copies : Copies}

theorem AllFaithful.update (h : AllFaithful source file copies) (name : Nat) {copy : Copy}
    (hcopy : copy.Faithful source file) :
    AllFaithful source file (Function.update copies name (some copy)) := by
  intro other c hother
  by_cases hname : other = name
  · rw [hname, Function.update_self] at hother
    exact Option.some.inj hother ▸ hcopy
  · rw [Function.update_of_ne hname] at hother
    exact h other c hother

theorem AllFaithful.perform (h : AllFaithful source file copies) (move : Move) :
    AllFaithful source file (copies.perform move) := by
  unfold Copies.perform
  cases move with
  | call name call =>
    cases hcopy : copies name with
    | none => simpa only [hcopy] using h
    | some copy => simpa only [hcopy] using h.update name ((h name copy hcopy).call call)
  | clone original name =>
    cases hcopy : copies original with
    | none => simpa only [hcopy] using h
    | some copy => simpa only [hcopy] using h.update name (h original copy hcopy)

theorem AllFaithful.performAll (h : AllFaithful source file copies) (moves : List Move) :
    AllFaithful source file (copies.performAll moves) := by
  induction moves generalizing copies with
  | nil => exact h
  | cons move moves ih => exact ih (h.perform move)

end

theorem allFaithful_ofSource (source : String) (file : Option String) :
    AllFaithful source file (ofSource source file) := by
  refine AllFaithful.update (fun name copy hcopy => ?_) 0 (Copy.Faithful.ofSource source file)
  cases hcopy

/-- Whatever has been called on which copy, the history of each is lawful. The next token is the one
of the source behind those of its history, and a step of iteration that yields nothing draws
nothing. -/
theorem performAll_lawful (source : String) (file : Option String) (moves : List Move) (name : Nat)
    (copy : Copy) (h : (ofSource source file).performAll moves name = some copy) :
    TokenStream.Lawful source file copy.history ∧
      copy.stream.nextToken.1 =
        tokenAt source file (TokenStream.yielded copy.history).length ∧
      (copy.stream.next.1 = none → copy.stream.next.2 = copy.stream) := by
  have hfaithful : copy.Faithful source file :=
    (allFaithful_ofSource source file).performAll moves name copy h
  refine ⟨hfaithful.lawful, hfaithful.next_eq, fun hnone => ?_⟩
  unfold TokenStream.next at hnone ⊢
  split
  · rfl
  · simp_all

/-- Draws past the end, copies before and behind it, and goes back. -/
def toAndFro : List Move :=
  [.call 0 .nextToken, .clone 0 1, .call 0 .nextToken, .call 0 .atEnd, .call 0 .next, .clone 0 2,
    .call 2 .next, .call 1 .drain, .call 1 .nextToken, .clone 1 0, .call 0 .next]

theorem performAll_lawful_toAndFro :
    ∃ copy, (ofSource "a " none).performAll toAndFro 0 = some copy ∧
      copy.history = [.token (tokenAt "a " none 0), .item (some (tokenAt "a " none 1)), .item none,
        .token (tokenAt "a " none 2), .item none] ∧
      TokenStream.Lawful "a " none copy.history ∧
        copy.stream.nextToken.1 =
          tokenAt "a " none (TokenStream.yielded copy.history).length ∧
        (copy.stream.next.1 = none → copy.stream.next.2 = copy.stream) := by
  have hhistory : ((ofSource "a " none).performAll toAndFro 0).map Copy.history =
      some [.token (tokenAt "a " none 0), .item (some (tokenAt "a " none 1)), .item none,
        .token (tokenAt "a " none 2), .item none] := by
    decide +kernel
  obtain ⟨copy, hcopy, hhistory⟩ := Option.map_eq_some_iff.mp hhistory
  exact ⟨copy, hcopy, hhistory, performAll_lawful "a " none toAndFro 0 copy hcopy⟩

end Copies

namespace Bookmarked

/-- The moves of a step. The stream has the name zero, and the copy that was kept the name one. -/
def Step.moves : Step → List Copies.Move
  | nextToken => [.call 0 .nextToken]
  | next => [.call 0 .next]
  | atEnd => [.call 0 .atEnd]
  | drain => [.call 0 .drain]
  | drainCopy => [.clone 0 2, .call 2 .drain]
  | keep => [.clone 0 1]
  | resume => [.clone 1 0]

/-- The stream and what was kept of it are among the copies. -/
def IsAmong (b : Bookmarked) (copies : Copies) : Prop :=
  (copies 0).map Copy.stream = some b.stream ∧ (copies 1).map Copy.stream = b.kept

section

variable {b : Bookmarked} {copies : Copies}

theorem isAmong_call (h : b.IsAmong copies) (call : TokenStream.Call) :
    IsAmong { b with stream := (b.stream.call call).2 } (copies.perform (.call 0 call)) := by
  obtain ⟨copy, hcopy, hstream⟩ := Option.map_eq_some_iff.mp h.1
  simp only [IsAmong, Copies.perform, hcopy, Function.update_self, ← hstream]
  exact ⟨rfl, h.2⟩

/-- What is done with a bookmark can be done with copies. -/
theorem isAmong_perform (h : b.IsAmong copies) (step : Step) :
    (b.perform step).2.IsAmong (copies.performAll step.moves) := by
  obtain ⟨copy, hcopy, hstream⟩ := Option.map_eq_some_iff.mp h.1
  cases step with
  | nextToken => exact isAmong_call h .nextToken
  | next => exact isAmong_call h .next
  | atEnd => exact isAmong_call h .atEnd
  | drain => exact isAmong_call h .drain
  | drainCopy =>
    simp only [Step.moves, Copies.performAll, List.foldl_cons, List.foldl_nil, Copies.perform,
      hcopy, Function.update_self]
    exact h
  | keep =>
    simp only [IsAmong, Step.moves, Copies.performAll, List.foldl_cons, List.foldl_nil,
      Copies.perform, hcopy, Function.update_self]
    exact ⟨h.1, congrArg some hstream⟩
  | resume =>
    have hkept := h.2
    cases hsaved : copies 1 with
    | none =>
      rw [hsaved] at hkept
      simpa [perform, ← hkept, Step.moves, Copies.performAll, Copies.perform, hsaved] using h
    | some saved =>
      rw [hsaved] at hkept
      simp only [IsAmong, perform, ← hkept, Step.moves, Copies.performAll, List.foldl_cons,
        List.foldl_nil, Copies.perform, hsaved, Function.update_self, Option.map_some]
      exact ⟨trivial, by simp [hsaved]⟩

theorem isAmong_performAll (h : b.IsAmong copies) (steps : List Step) :
    (b.performAll steps).2.IsAmong (copies.performAll (steps.flatMap Step.moves)) := by
  induction steps generalizing b copies with
  | nil => exact h
  | cons step steps ih =>
    rw [List.flatMap_cons, Copies.performAll, List.foldl_append]
    exact ih (isAmong_perform h step)

end

/-- A stream with a bookmark is a stream with copies, so what holds of all copies holds of it. -/
theorem faithful_performAll (source : String) (file : Option String) (steps : List Step) :
    ∃ history, Copy.Faithful source file
      ⟨((Bookmarked.mk (.ofSource source file) none).performAll steps).2.stream, history⟩ := by
  have hstart : (Bookmarked.mk (.ofSource source file) none).IsAmong (.ofSource source file) :=
    ⟨rfl, rfl⟩
  obtain ⟨copy, hcopy, hstream⟩ := Option.map_eq_some_iff.mp (isAmong_performAll hstart steps).1
  rw [← hstream]
  exact ⟨copy.history,
    (Copies.allFaithful_ofSource source file).performAll (steps.flatMap Step.moves) 0 copy hcopy⟩

end Bookmarked

end LetScript
