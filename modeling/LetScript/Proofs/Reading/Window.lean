import LetScript.Proofs.Reading.Session

/-!
The window of two tokens. A session is kept up with a scanner and two tokens drawn from it, the current
one and the next, beside the count of open expressions. What a move does to the window it does to the
cursor that the window shows (`Window.Shows.move`), and operations do nothing with the window but move
it (`Window.follows_perform`). So the window shows the tokens of the source two at a time, as many
further on as there have been draws (`Window.exists_moves`).
-/
namespace LetScript

/-- A scanner, and the two tokens that were drawn from it last. -/
structure Window where
  scanner : Scanner
  current : Token
  peek : Token
  /-- How many expressions are open. -/
  depth : Nat
  deriving DecidableEq, Repr

namespace Window

def ofScanner (s : Scanner) : Window := ⟨s.next.2.next.2, s.next.1, s.next.2.next.1, 0⟩

def ofSource (source : String) (file : Option String) : Window := ofScanner (.ofSource source file)

/-- Draws one token and drops the current one. -/
def advance (w : Window) : Window :=
  { w with scanner := w.scanner.next.2, current := w.peek, peek := w.scanner.next.1 }

inductive Move where
  | advance
  | enter
  | leave
  /-- No expression is open any more. -/
  | restart
  deriving DecidableEq, Repr

def move (w : Window) : Move → Window
  | .advance => w.advance
  | .enter => { w with depth := w.depth + 1 }
  | .leave => { w with depth := w.depth - 1 }
  | .restart => { w with depth := 0 }

def moveAll (w : Window) (moves : List Move) : Window := moves.foldl move w

theorem moveAll_append (w : Window) (first second : List Move) :
    w.moveAll (first ++ second) = (w.moveAll first).moveAll second := List.foldl_append

/-- The same move of a cursor. -/
def Move.onCursor (c : Cursor) : Move → Cursor
  | advance => c.advance
  | enter => c.enter
  | leave => c.leave
  | restart => { c with depth := 0 }

/-- The window is where the cursor is: it holds the first two of the tokens ahead, and its scanner is
about to draw the others. -/
structure Shows (w : Window) (c : Cursor) : Prop where
  current : w.current = c.current
  peek : w.peek = c.peek
  depth : w.depth = c.depth
  scan : w.scanner.scan = (c.ahead.tail.tail, c.stop)

theorem next_eq_headD {s : Scanner} {tokens : List Token} {stop : Position}
    (h : s.scan = (tokens, stop)) : s.next.1 = tokens.headD (.endOfInput stop) := by
  rw [← s.tokenAhead_zero, Scanner.tokenAhead, h]
  cases tokens <;> rfl

theorem shows_ofScanner (s : Scanner) : (ofScanner s).Shows (Session.ofScanner s).cursor where
  current := next_eq_headD rfl
  peek := next_eq_headD s.scan_next
  depth := rfl
  scan := by
    rw [ofScanner, Scanner.scan_next, Scanner.scan_next]
    rfl

namespace Shows

variable {w : Window} {c : Cursor}

theorem advance (h : w.Shows c) : w.advance.Shows c.advance where
  current := h.peek
  peek := next_eq_headD h.scan
  depth := h.depth
  scan := by
    rw [Window.advance, Scanner.scan_next, h.scan]
    rfl

theorem move (h : w.Shows c) (m : Move) : (w.move m).Shows (m.onCursor c) := by
  cases m with
  | advance => exact h.advance
  | enter => exact { h with depth := congrArg (· + 1) h.depth }
  | leave => exact { h with depth := congrArg (· - 1) h.depth }
  | restart => exact { h with depth := rfl }

end Shows

/-- Whatever window shows the first cursor, moves of it lead to one that shows the second. -/
def Follows (c c' : Cursor) : Prop :=
  ∀ w : Window, w.Shows c → ∃ moves, (w.moveAll moves).Shows c'

theorem follows_move (m : Move) (c : Cursor) : Follows c (m.onCursor c) :=
  fun _ h => ⟨[m], h.move m⟩

/-- What a rule does between entering an expression and leaving it is done by moves too. -/
theorem frame_follows : Cursor.Frame Follows where
  refl _ _ h := ⟨[], h⟩
  trans hab hbc w h := by
    obtain ⟨first, hfirst⟩ := hab w h
    obtain ⟨second, hsecond⟩ := hbc _ hfirst
    refine ⟨first ++ second, ?_⟩
    rwa [moveAll_append]
  advance := follows_move .advance
  inside hinside w h := by
    obtain ⟨moves, hmoves⟩ := hinside _ (h.move .enter)
    refine ⟨.enter :: moves ++ [.leave], ?_⟩
    rw [moveAll_append]
    exact hmoves.move .leave

theorem follows_enterNesting (c : Cursor) : Follows c (Rule.enterNesting c).2 := by
  unfold Rule.enterNesting
  split
  · exact follows_move .enter c
  · exact frame_follows.refl c

theorem follows_skipStatement (c : Cursor) : Follows c c.skipStatement := by
  obtain ⟨ahead, stop, depth⟩ := c
  induction ahead with
  | nil => exact frame_follows.refl _
  | cons t rest ih =>
    by_cases ht : t.kind = .semicolon
    · rw [Cursor.skipStatement_of_end ht]
      exact frame_follows.refl _
    · rw [Cursor.skipStatement_of_ne ht]
      exact frame_follows.trans (follows_move .advance _) ih

/-- Where a statement fails, its rest is skipped token by token. -/
theorem follows_attempt (c : Cursor) : Follows c c.attempt.after := by
  have hstatement := Rule.statement_keeps frame_follows c
  unfold Cursor.attempt
  generalize Rule.statement c = o at hstatement
  obtain ⟨r, c'⟩ := o
  cases r with
  | ok s => exact frame_follows.trans hstatement (follows_move .advance c')
  | error d =>
    apply frame_follows.trans hstatement
    exact frame_follows.trans (follows_skipStatement c') (follows_move .advance _)

theorem follows_attempts (c : Cursor) : Follows c c.attempts.2 := by
  fun_induction Cursor.attempts c with
  | case1 c h => exact frame_follows.refl c
  | case2 c h first rest last hrest ih =>
    rw [hrest] at ih
    exact frame_follows.trans (follows_attempt c) ih

/-- Operations do nothing with the window but move it. -/
theorem follows_perform (s : Session) (operation : Session.Operation) :
    Follows s.cursor (s.perform operation).cursor := by
  by_cases hrule : operation.isRule = true
  · exact Session.perform_keeps frame_follows hrule s
  · cases operation with
    | advance => exact follows_move .advance s.cursor
    | expectPeek expected => exact Rule.expectPeek_keeps frame_follows expected s.cursor
    | enterNesting => exact follows_enterNesting s.cursor
    | leaveNesting => exact follows_move .leave s.cursor
    | parse =>
      exact frame_follows.trans (follows_move .restart s.cursor) (follows_attempts _)
    | _ => exact absurd rfl hrule

theorem follows_performAll (s : Session) (operations : List Session.Operation) :
    Follows s.cursor (s.performAll operations).cursor := by
  induction operations generalizing s with
  | nil => exact frame_follows.refl s.cursor
  | cons operation operations ih =>
    exact frame_follows.trans (follows_perform s operation) (ih (s.perform operation))

section

variable (source : String) (file : Option String)

/-- The window has the tokens of the source at the index and the next, and its scanner is about to draw
those behind them. -/
structure StandsAt (w : Window) (index : Nat) : Prop where
  current : w.current = tokenAt source file index
  peek : w.peek = tokenAt source file (index + 1)
  ahead : ∀ count, w.scanner.tokenAhead count = tokenAt source file (index + 2 + count)

variable {source file} {w : Window} {index : Nat}

theorem standsAt_ofSource : (ofSource source file).StandsAt source file 0 where
  current := by
    rw [Scanner.tokenAt_eq_tokenAhead, Scanner.tokenAhead_zero]
    rfl
  peek := by
    rw [Scanner.tokenAt_eq_tokenAhead, Scanner.tokenAhead_succ, Scanner.tokenAhead_zero]
    rfl
  ahead count := by
    rw [Scanner.tokenAt_eq_tokenAhead, Nat.add_comm, Scanner.tokenAhead_succ, Scanner.tokenAhead_succ]
    rfl

theorem StandsAt.advance (h : w.StandsAt source file index) :
    w.advance.StandsAt source file (index + 1) where
  current := h.peek
  peek := by
    rw [Window.advance, ← Scanner.tokenAhead_zero]
    exact h.ahead 0
  ahead count := by
    rw [Window.advance, ← Scanner.tokenAhead_succ, h.ahead]
    congr 1
    omega

theorem StandsAt.moveAll (h : w.StandsAt source file index) (moves : List Move) :
    (w.moveAll moves).StandsAt source file (index + moves.count .advance) := by
  induction moves generalizing w index with
  | nil => exact h
  | cons m moves ih =>
    cases m with
    | advance =>
      have hrest := ih h.advance
      rwa [Nat.add_right_comm, Nat.add_assoc, ← List.count_cons_self] at hrest
    | enter | leave | restart => exact ih ⟨h.current, h.peek, h.ahead⟩

/-- However a session is used, the same moves keep up its window, which shows the tokens of the source
as many further on as have been drawn. Whatever is called after that only draws more. -/
theorem exists_moves (source : String) (file : Option String)
    (operations more : List Session.Operation) :
    ∃ (moves later : List Move) (w w' : Window),
      w = (ofSource source file).moveAll moves ∧ w' = w.moveAll later ∧
      w.Shows ((Session.ofSource source file).performAll operations).cursor ∧
      w.StandsAt source file (moves.count .advance) ∧ w.depth ≤ maxNesting ∧
      w'.Shows ((Session.ofSource source file).performAll (operations ++ more)).cursor ∧
      w'.StandsAt source file (moves.count .advance + later.count .advance) ∧
      w'.depth ≤ maxNesting := by
  let s := Session.ofSource source file
  have hdepth (operations : List Session.Operation) :
      (s.performAll operations).cursor.depth ≤ maxNesting :=
    (s.performAll_bounded operations (Nat.zero_le _)).1
  obtain ⟨moves, hmoves⟩ := follows_performAll s operations _ (shows_ofScanner _)
  obtain ⟨later, hlater⟩ := follows_performAll _ more _ hmoves
  rw [← Session.performAll_append] at hlater
  have hbegin : (ofSource source file).StandsAt source file 0 := standsAt_ofSource
  have hstands := hbegin.moveAll moves
  rw [Nat.zero_add] at hstands
  refine ⟨moves, later, _, _, rfl, rfl, hmoves, hstands, ?_, hlater, hstands.moveAll later, ?_⟩
  · exact hmoves.depth ▸ hdepth operations
  · exact hlater.depth ▸ hdepth (operations ++ more)

end

end Window

end LetScript
