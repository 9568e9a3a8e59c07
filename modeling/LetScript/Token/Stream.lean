import LetScript.Token.Scanner

/-!
A stream of tokens over a scanner. Iteration ends after it has yielded the end of the input once,
while `nextToken` goes on for ever; both draw from the same scanner. A copy of a stream can be kept
and taken up again later, with what it knew when it was kept.
-/
namespace LetScript

structure TokenStream where
  scanner : Scanner
  /-- Iteration has yielded the end of the input. -/
  finished : Bool
  deriving DecidableEq, Repr

namespace TokenStream

def ofSource (source : String) (file : Option String) : TokenStream :=
  ⟨.ofSource source file, false⟩

def nextToken (s : TokenStream) : Token × TokenStream :=
  let (t, scanner) := s.scanner.next
  (t, { s with scanner })

/-- One step of iteration: nothing is drawn once it has ended. -/
def next (s : TokenStream) : Option Token × TokenStream :=
  if s.finished then (none, s)
  else
    let (t, scanner) := s.scanner.next
    (some t, ⟨scanner, t.kind = .eof⟩)

/-- Nothing is left, not even a gap. -/
def atEnd (s : TokenStream) : Bool := s.scanner.atEnd

/-- Iterates to the end. -/
def drain (s : TokenStream) : List Token × TokenStream :=
  match _h : s.next with
  | (none, s) => ([], s)
  | (some t, after) =>
    let (tokens, last) := after.drain
    (t :: tokens, last)
termination_by (if s.finished then 0 else 1) + s.scanner.rest.length
decreasing_by
  have hle := s.scanner.length_rest_next_le
  have hlt := s.scanner.length_rest_next_lt
  unfold next at _h
  split at _h
  · simp at _h
  · simp only [Prod.mk.injEq, Option.some.injEq] at _h
    obtain ⟨-, rfl⟩ := _h
    by_cases hk : s.scanner.next.1.kind = .eof
    · simp_all
      omega
    · simp_all

end TokenStream

/-- A stream in use, and the copy that was kept last. -/
structure Bookmarked where
  stream : TokenStream
  kept : Option TokenStream
  deriving DecidableEq, Repr

namespace Bookmarked

inductive Step where
  | nextToken
  | next
  | atEnd
  | drain
  /-- Iterates a copy to the end and leaves the stream as it is. -/
  | drainCopy
  | keep
  | resume
  deriving DecidableEq, Repr

inductive Answer where
  | token (t : Token)
  | item (t : Option Token)
  | ended (yes : Bool)
  | items (tokens : List Token)
  | kept
  | resumed
  | nothingKept
  deriving DecidableEq, Repr

def perform (b : Bookmarked) : Step → Answer × Bookmarked
  | .nextToken => let (t, stream) := b.stream.nextToken; (.token t, { b with stream })
  | .next => let (t, stream) := b.stream.next; (.item t, { b with stream })
  | .atEnd => (.ended b.stream.atEnd, b)
  | .drain => let (tokens, stream) := b.stream.drain; (.items tokens, { b with stream })
  | .drainCopy => (.items b.stream.drain.1, b)
  | .keep => (.kept, { b with kept := some b.stream })
  | .resume =>
    match b.kept with
    | some stream => (.resumed, { b with stream })
    | none => (.nothingKept, b)

/-- The answers to a sequence of steps, and the state behind the last. -/
def performAll (b : Bookmarked) : List Step → List Answer × Bookmarked
  | [] => ([], b)
  | step :: rest =>
    let (answer, after) := b.perform step
    let (answers, last) := after.performAll rest
    (answer :: answers, last)

end Bookmarked

end LetScript
