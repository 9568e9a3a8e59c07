import LetScript.Proofs.Token.ByteScanner.Basic

/-!
Scanning by offsets never fails. Whatever is called, the two offsets of a scanner stay on either side
of its current character (`Sound`), so every slice is one of whole characters within the source, and
each token is that of a stream that holds what is left (`performAll?_safe`).
-/
namespace LetScript

open Text (byteLength)

namespace ByteScanner

/-- The two offsets stand on either side of the current character, and together at the end of the
source when there is none. -/
structure Sound (s : ByteScanner) : Prop where
  pos_valid : (String.Pos.Raw.mk s.pos).IsValid s.source
  next_valid : (String.Pos.Raw.mk s.next).IsValid s.source
  pos_le_next : s.pos ≤ s.next
  next_le : s.next ≤ s.source.utf8ByteSize
  current : ∀ c, s.ch = some c → ∃ before after, s.source.toList = before ++ c :: after ∧
    byteLength before = s.pos ∧ s.next = s.pos + c.utf8Size
  ended : s.ch = none → s.pos = s.source.utf8ByteSize ∧ s.next = s.source.utf8ByteSize

/-- Behind any number of characters the three fields agree with each other and with the source. -/
theorem sound_behind (s : ByteScanner) (count : Nat) : (s.behind count).Sound where
  pos_valid := (Text.isBoundary_iff_isValid _ _).mp (Text.isBoundary_take _ count)
  next_valid := (Text.isBoundary_iff_isValid _ _).mp (Text.isBoundary_take _ (count + 1))
  pos_le_next := by
    have h := Text.byteLength_take_add s.source.toList count 1
    simp only [behind]
    omega
  next_le := by
    have h := congrArg byteLength (List.take_append_drop (count + 1) s.source.toList)
    rw [Text.byteLength_append, Text.byteLength_toList] at h
    simp only [behind]
    omega
  current := by
    intro c hc
    have hc : s.source.toList[count]? = some c := hc
    refine ⟨s.source.toList.take count, s.source.toList.drop (count + 1), ?_, rfl, ?_⟩
    · obtain ⟨hlt, rfl⟩ := List.getElem?_eq_some_iff.mp hc
      rw [List.getElem_cons_drop, List.take_append_drop]
      rfl
    · simp only [behind, List.take_add_one, hc, Text.byteLength_append]
      rfl
  ended := by
    intro hnone
    have hlength := List.getElem?_eq_none_iff.mp (show s.source.toList[count]? = none from hnone)
    simp only [behind, List.take_of_length_le hlength,
      List.take_of_length_le (Nat.le_succ_of_le hlength), Text.byteLength_toList, and_self]

theorem eq_behind {s : ByteScanner} {count : Nat}
    (hpos : s.pos = byteLength (s.source.toList.take count))
    (hnext : s.next = byteLength (s.source.toList.take (count + 1)))
    (hch : s.ch = s.source.toList[count]?) : s = s.behind count := by
  rw [behind, ← hpos, ← hnext, ← hch]

/-- Where a scanner stands is told by how many characters it has passed. -/
theorem Sound.exists_behind {s : ByteScanner} (h : s.Sound) : ∃ count, s = s.behind count := by
  cases hch : s.ch with
  | none =>
    obtain ⟨hpos, hnext⟩ := h.ended hch
    refine ⟨s.source.toList.length, eq_behind ?_ ?_ ?_⟩
    · rw [hpos, List.take_length, Text.byteLength_toList]
    · rw [hnext, List.take_of_length_le (Nat.le_succ _), Text.byteLength_toList]
    · rw [hch, List.getElem?_eq_none (Nat.le_refl _)]
  | some c =>
    obtain ⟨before, after, hsource, hpos, hnext⟩ := h.current c hch
    have hget : s.source.toList[before.length]? = some c := by
      rw [hsource, List.getElem?_append_right (Nat.le_refl _), Nat.sub_self]
      rfl
    have htake : s.source.toList.take before.length = before := by rw [hsource, List.take_left]
    refine ⟨before.length, eq_behind ?_ ?_ ?_⟩
    · rw [htake, hpos]
    · rw [List.take_add_one, hget, htake, Text.byteLength_append, hpos, hnext]
      rfl
    · rw [hch, hget]

/-- What a call comes to: a sound state of the same source, and no offset has moved back. -/
structure Continues (s after : ByteScanner) : Prop where
  sound : after.Sound
  source_eq : after.source = s.source
  pos_le : s.pos ≤ after.pos

theorem Continues.trans {s t u : ByteScanner} (h : s.Continues t) (h' : t.Continues u) :
    s.Continues u :=
  ⟨h'.sound, h'.source_eq.trans h.source_eq, Nat.le_trans h.pos_le h'.pos_le⟩

theorem Continues.finish {s after : ByteScanner} (h : s.Continues after) (finished : Bool) :
    s.Continues { after with finished } :=
  ⟨{ h.sound with }, h.source_eq, h.pos_le⟩

theorem continues_behind (s : ByteScanner) (count length : Nat) :
    (s.behind count).Continues (s.behind (count + length)) where
  sound := s.sound_behind (count + length)
  source_eq := rfl
  pos_le := by
    rw [pos_behind, pos_behind, Text.byteLength_take_add]
    omega

/-- The stream that holds what is left of the source. -/
def stream (s : ByteScanner) : TokenStream :=
  ⟨⟨(Text.dropBytes? s.pos s.source.toList).getD [], s.pos, s.file⟩, s.finished⟩

theorem stream_behind (s : ByteScanner) (count : Nat) :
    (s.behind count).stream = ⟨s.scannerBehind count, s.finished⟩ := by
  rw [stream, pos_behind, source_behind, Text.dropBytes?_take]
  rfl

/-- The next token is found without failing, it is that of the stream, and it has bytes of its own
unless it is the end of the input. -/
theorem Sound.nextToken? {s : ByteScanner} (h : s.Sound) :
    ∃ t after, s.nextToken? = some (t, after) ∧ s.stream.nextToken = (t, after.stream) ∧
      s.Continues after ∧ (t.kind ≠ .eof → s.pos < after.pos) := by
  obtain ⟨count, hs⟩ := h.exists_behind
  rw [hs]
  obtain ⟨length, hafter, htoken⟩ := s.nextToken?_behind count
  refine ⟨_, _, htoken, ?_, s.continues_behind count length, pos_behind_lt hafter⟩
  rw [stream_behind, stream_behind, ← hafter]
  rfl

/-- A step of iteration fails no more than the next token does, and it is that of the stream. -/
theorem Sound.next? {s : ByteScanner} (h : s.Sound) :
    ∃ item after, s.next? = some (item, after) ∧ s.stream.next = (item, after.stream) ∧
      s.Continues after := by
  cases hfinished : s.finished with
  | true => exact ⟨none, s, if_pos hfinished, if_pos hfinished, h, rfl, Nat.le_refl _⟩
  | false =>
    obtain ⟨t, after, htoken, hstream, hcontinues, -⟩ := h.nextToken?
    have hopen : s.stream.finished = false := hfinished
    have hfirst : s.stream.scanner.next.1 = t := congrArg Prod.fst hstream
    have hrest : s.stream.scanner.next.2 = after.stream.scanner :=
      congrArg (fun drawn => drawn.2.scanner) hstream
    refine ⟨some t, { after with finished := t.kind = .eof }, ?_, ?_, hcontinues.finish _⟩
    · rw [ByteScanner.next?, hfinished, htoken]
      rfl
    · change _ = (some t, TokenStream.mk after.stream.scanner (t.kind = .eof))
      rw [← hrest, ← hfirst, TokenStream.next, hopen]
      rfl

theorem Sound.readOn? {s : ByteScanner} (h : s.Sound) (accept : Char → Bool) :
    ∃ after, s.readOn? accept = some after ∧ s.Continues after := by
  obtain ⟨count, hs⟩ := h.exists_behind
  rw [hs]
  exact ⟨_, readOn?_behind accept s count, s.continues_behind count _⟩

/-- No call fails. -/
theorem Sound.perform? {s : ByteScanner} (h : s.Sound) (step : Step) :
    ∃ after, s.perform? step = some after ∧ s.Continues after := by
  obtain ⟨count, hs⟩ := h.exists_behind
  cases step with
  | read =>
    rw [hs]
    exact ⟨_, s.read?_behind count, s.continues_behind count 1⟩
  | skipGap => exact h.readOn? isGap
  | readWhile accept =>
    rw [hs]
    have hrun := congrArg (Option.map Prod.snd) (readWhile?_behind accept s count)
    exact ⟨_, hrun, s.continues_behind count _⟩
  | nextToken =>
    obtain ⟨t, after, htoken, -, hcontinues, -⟩ := h.nextToken?
    exact ⟨after, congrArg (Option.map Prod.snd) htoken, hcontinues⟩
  | next =>
    obtain ⟨item, after, hitem, -, hcontinues⟩ := h.next?
    exact ⟨after, congrArg (Option.map Prod.snd) hitem, hcontinues⟩
  | atEnd => exact ⟨s, rfl, h, rfl, Nat.le_refl _⟩

theorem Sound.performAll? {s : ByteScanner} (h : s.Sound) (steps : List Step) :
    ∃ last, s.performAll? steps = some last ∧ s.Continues last := by
  induction steps generalizing s with
  | nil => exact ⟨s, rfl, h, rfl, Nat.le_refl _⟩
  | cons step steps ih =>
    obtain ⟨after, hafter, hcontinues⟩ := h.perform? step
    obtain ⟨last, hlast, hrest⟩ := ih hcontinues.sound
    refine ⟨last, ?_, hcontinues.trans hrest⟩
    rw [ByteScanner.performAll?, hafter, Option.bind_some, hlast]

theorem Sound.atEnd {s : ByteScanner} (h : s.Sound) : s.atEnd = s.stream.atEnd := by
  obtain ⟨count, hs⟩ := h.exists_behind
  rw [hs, ByteScanner.atEnd, ch_behind, stream_behind]
  change (s.source.toList.drop count).head?.isNone = (s.source.toList.drop count).isEmpty
  cases s.source.toList.drop count <;> rfl

/-- What can be relied on where a scanner stands. -/
structure Safe (s : ByteScanner) : Prop where
  sound : s.Sound
  /-- What stands at `next` can be sliced off. -/
  ahead : (Text.dropBytes? s.next s.source.toList).isSome = true
  /-- A run can be read to its end, and sliced out. -/
  run : ∀ accept, ∃ after, s.readOn? accept = some after ∧
    (Text.slice? s.pos after.pos s.source.toList).isSome = true
  /-- No call fails, and none moves back. -/
  call : ∀ step, ∃ after, s.perform? step = some after ∧ s.pos ≤ after.pos
  /-- A token that is not the end of the input has bytes of its own, and it is that of a stream that
  holds what is left. -/
  token : ∃ t after, s.nextToken? = some (t, after) ∧ s.stream.nextToken = (t, after.stream) ∧
    (t.kind ≠ .eof → s.pos < after.pos)
  /-- So is a step of iteration. -/
  item : ∃ t after, s.next? = some (t, after) ∧ s.stream.next = (t, after.stream)
  atEnd : s.atEnd = s.stream.atEnd

/-- All this can be relied on in any sound state. -/
theorem Sound.safe {s : ByteScanner} (h : s.Sound) : s.Safe where
  sound := h
  ahead := Text.isSome_dropBytes?_iff.mpr ((Text.isBoundary_iff_isValid _ _).mpr h.next_valid)
  run accept := by
    obtain ⟨after, hafter, hcontinues⟩ := h.readOn? accept
    have hstop := hcontinues.sound.pos_valid
    rw [hcontinues.source_eq, ← Text.isBoundary_iff_isValid] at hstop
    have hstart := (Text.isBoundary_iff_isValid _ _).mpr h.pos_valid
    exact ⟨after, hafter, Text.isSome_slice?_iff.mpr ⟨hcontinues.pos_le, hstart, hstop⟩⟩
  call step := by
    obtain ⟨after, hafter, hcontinues⟩ := h.perform? step
    exact ⟨after, hafter, hcontinues.pos_le⟩
  token := by
    obtain ⟨t, after, htoken, hstream, -, hlt⟩ := h.nextToken?
    exact ⟨t, after, htoken, hstream, hlt⟩
  item := by
    obtain ⟨t, after, hitem, hstream, -⟩ := h.next?
    exact ⟨t, after, hitem, hstream⟩
  atEnd := h.atEnd

/-- A scanner can be made of any source, and whatever is called on it in whatever order, it comes to a
state that is safe: its two offsets stand on either side of its current character, every slice that
is taken from there is one of whole characters within the source, no call moves back, and every
token but the end of the input moves on. -/
theorem performAll?_safe (source : String) (file : Option String) :
    ∃ first, ofSource? source file = some first ∧ first.stream = .ofSource source file ∧
      ∀ steps, ∃ s, first.performAll? steps = some s ∧ s.source = source ∧ s.Safe := by
  refine ⟨(unread source file).behind 0, ofSource?_eq source file, ?_, fun steps => ?_⟩
  · rw [stream_behind]
    rfl
  · obtain ⟨s, hs, hcontinues⟩ := ((unread source file).sound_behind 0).performAll? steps
    exact ⟨s, hs, hcontinues.source_eq, hcontinues.sound.safe⟩

end ByteScanner

end LetScript
