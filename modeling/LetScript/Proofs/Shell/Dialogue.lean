import LetScript.Proofs.Shell.Agreement
import LetScript.Proofs.Source.Place

/-!
Runs that answer line by line. A run is a row of exchanges, one for each line up to the first that is
not UTF-8, with the prompt once more behind them; no reply depends on the lines before it
(`Shell.exists_replies`). What is typed comes back as its lines, whether or not the last of them ends
in a line feed, so that each is answered as it is on its own (`Shell.run_dialogue`).
-/
namespace LetScript.Shell

open Source (bytes bytes_append bytes_toList feed_not_mem_bytes length_bytes)
open Text (byteLength_toList isBlank splitAfter_append splitAfter_of_last)

/-- The prompt with the reply behind it, for every line that has been answered. -/
def exchanges (prompt : String) (replies : List String) : String :=
  String.join (replies.map (prompt ++ ·))

theorem exchanges_cons (prompt reply : String) (replies : List String) :
    exchanges prompt (reply :: replies) = prompt ++ reply ++ exchanges prompt replies :=
  String.join_cons

section

variable (prompt : String) {line : List UInt8} {rest : List (List UInt8)}

/-- The equation of the loop, without what makes it end. -/
theorem converse_eq (lines : List (List UInt8)) :
    converse prompt lines =
      match turn lines.head? with
      | .error code => ⟨prompt, code⟩
      | .ok reply => ⟨prompt ++ reply ++ (converse prompt lines.tail).output,
          (converse prompt lines.tail).exitCode⟩ := by
  rw [converse]
  split
  · rename_i code hturn
    rw [hturn]
  · rename_i reply hturn
    rw [hturn]

theorem converse_nil : converse prompt [] = ⟨prompt, 0⟩ := converse_eq prompt []

/-- A line that is answered adds one exchange to the front of the run. -/
theorem converse_of_reply {reply : String} (h : reply? line = some reply) :
    converse prompt (line :: rest) =
      ⟨prompt ++ reply ++ (converse prompt rest).output, (converse prompt rest).exitCode⟩ := by
  rw [converse_eq, List.head?_cons, turn, h, List.tail_cons]

/-- At a line that is not UTF-8 the run stops, whatever stands behind it. -/
theorem converse_of_no_reply (h : reply? line = none) :
    converse prompt (line :: rest) = ⟨prompt, 1⟩ := by
  rw [converse_eq, List.head?_cons, turn, h]

/-- Lines that are answered are answered before anything is made of those behind them. -/
theorem converse_append {heard : List (List UInt8)} {replies : List String}
    (h : heard.map reply? = replies.map some) (rest : List (List UInt8)) :
    converse prompt (heard ++ rest) = ⟨exchanges prompt replies ++ (converse prompt rest).output,
      (converse prompt rest).exitCode⟩ := by
  induction heard generalizing replies with
  | nil =>
    obtain rfl := List.map_eq_nil_iff.mp h.symm
    rfl
  | cons line heard ih =>
    cases replies with
    | nil => cases h
    | cons reply replies =>
      obtain ⟨hreply, hreplies⟩ := List.cons.inj h
      rw [List.cons_append, converse_of_reply prompt hreply, ih hreplies, exchanges_cons]
      simp only [String.append_assoc]

/-- The lines up to the first that gets no reply. -/
theorem exists_heard (lines : List (List UInt8)) :
    ∃ (heard unheard : List (List UInt8)) (replies : List String), lines = heard ++ unheard ∧
      heard.map reply? = replies.map some ∧ ∀ line ∈ unheard.head?, reply? line = none := by
  induction lines with
  | nil => exact ⟨[], [], [], rfl, rfl, by simp⟩
  | cons line rest ih =>
    cases hline : reply? line with
    | none => exact ⟨[], line :: rest, [], rfl, rfl, by simpa using hline⟩
    | some reply =>
      obtain ⟨heard, unheard, replies, rfl, hreplies, hend⟩ := ih
      refine ⟨line :: heard, unheard, reply :: replies, rfl, ?_, hend⟩
      rw [List.map_cons, List.map_cons, hline, hreplies]

/-- The run ends with the input or at the first line that is not UTF-8, and every line before that is
answered. -/
theorem exists_replies (lines : List (List UInt8)) :
    ∃ (heard unheard : List (List UInt8)) (replies : List String), lines = heard ++ unheard ∧
      heard.map reply? = replies.map some ∧ (∀ line ∈ unheard.head?, reply? line = none) ∧
      converse prompt lines =
        ⟨exchanges prompt replies ++ prompt, if unheard.isEmpty then 0 else 1⟩ := by
  obtain ⟨heard, unheard, replies, rfl, hreplies, hend⟩ := exists_heard lines
  refine ⟨heard, unheard, replies, rfl, hreplies, hend, ?_⟩
  rw [converse_append prompt hreplies]
  cases unheard with
  | nil => rw [converse_nil, List.isEmpty_nil, if_pos rfl]
  | cons line rest => rw [converse_of_no_reply prompt (hend line rfl), List.isEmpty_cons, if_neg nofun]

end

theorem rawLines_feed {line : List UInt8} (h : 10 ∉ line) (rest : List UInt8) :
    rawLines (line ++ 10 :: rest) = (line ++ [10]) :: rawLines rest := by
  rw [rawLines, splitAfter_append h, List.filter_cons_of_pos (by simp),
    rawLines]

theorem rawLines_last {line : List UInt8} (h : 10 ∉ line) :
    rawLines line = if line.isEmpty then [] else [line] := by
  rw [rawLines, splitAfter_of_last h]
  cases line <;> rfl

/-- Lines that are written one behind the other, each with its line feed, are read back. -/
theorem rawLines_append {lines : List (List UInt8)} (h : ∀ line ∈ lines, 10 ∉ line)
    (last : List UInt8) :
    rawLines (lines.flatMap (· ++ [10]) ++ last) = lines.map (· ++ [10]) ++ rawLines last := by
  induction lines with
  | nil => rfl
  | cons line lines ih =>
    have hline := h line List.mem_cons_self
    have hrest := ih fun line hline => h line (List.mem_cons_of_mem _ hline)
    rw [List.flatMap_cons, List.append_assoc, List.append_assoc, List.singleton_append,
      rawLines_feed hline, hrest, List.map_cons, List.cons_append]

/-- What is shown for a line. -/
def replyTo (line : String) : String := if line.toList.all isBlank then "" else answer line

theorem toUTF8_append_feed (line : String) :
    (line ++ "\n").toUTF8.data.toList = line.toUTF8.data.toList ++ [10] := by
  rw [← bytes_toList, ← bytes_toList, String.toList_append, bytes_append]
  rfl

theorem feed_not_mem_toUTF8 {line : String} (h : '\n' ∉ line.toList) :
    10 ∉ line.toUTF8.data.toList := by
  rw [← bytes_toList]
  exact feed_not_mem_bytes h

theorem toUTF8_eq_nil {line : String} (h : line.toUTF8.data.toList = []) : line = "" := by
  have hsize : line.utf8ByteSize = 0 := by
    rw [← byteLength_toList, ← length_bytes, bytes_toList, h, List.length_nil]
  exact String.utf8ByteSize_eq_zero_iff.mp hsize

theorem dropLineEnd_of_last {line : List Char} (h : '\n' ∉ line) : dropLineEnd line = line := by
  have hreverse : ∀ rest, line.reverse ≠ '\n' :: rest := by
    intro rest hrest
    refine h (List.mem_reverse.mp ?_)
    rw [hrest]
    exact List.mem_cons_self
  unfold dropLineEnd
  split
  · exact absurd ‹_› (hreverse _)
  · exact absurd ‹_› (hreverse _)
  · rfl

/-- The lines with a line feed behind each, and what is left behind the last line feed. -/
def typed (lines : List String) (last : String) : List UInt8 :=
  lines.flatMap (fun line => (line ++ "\n").toUTF8.data.toList) ++ last.toUTF8.data.toList

/-- What is left is a line only if it is not empty. -/
theorem rawLines_typed {lines : List String} {last : String}
    (h : ∀ line ∈ lines, '\n' ∉ line.toList) (hlast : '\n' ∉ last.toList) :
    rawLines (typed lines last) = (lines.map fun line => (line ++ "\n").toUTF8.data.toList) ++
      (if last = "" then [] else [last]).map fun line => line.toUTF8.data.toList := by
  have hfeed : ∀ bytes ∈ lines.map fun line => line.toUTF8.data.toList, 10 ∉ bytes := by
    intro bytes hbytes
    obtain ⟨line, hline, rfl⟩ := List.mem_map.mp hbytes
    exact feed_not_mem_toUTF8 (h line hline)
  have hlines := rawLines_append hfeed last.toUTF8.data.toList
  rw [List.flatMap_map, List.map_map] at hlines
  simp only [typed, toUTF8_append_feed]
  rw [hlines, rawLines_last (feed_not_mem_toUTF8 hlast)]
  by_cases hempty : last = ""
  · subst hempty
    rfl
  · have hbytes : ¬ last.toUTF8.data.toList.isEmpty = true := fun h =>
      hempty (toUTF8_eq_nil (List.isEmpty_iff.mp h))
    rw [if_neg hempty, if_neg hbytes]
    rfl

/-- An interactive run answers every line that is typed as it answers that line alone, in order, and
ends well. What is left behind the last line feed is one more line, unless it is empty. -/
theorem run_dialogue {arguments : List String} {prompt : String}
    (h : Command.ofArguments arguments = .ok (.repl prompt))
    (content? : String → Option ByteArray) (lines : List String) (last : String)
    (hlines : ∀ line ∈ lines, '\n' ∉ line.toList ∧ line.toList.getLast? ≠ some '\r')
    (hlast : '\n' ∉ last.toList) :
    run arguments content? (typed lines last) =
      ⟨exchanges prompt ((lines ++ if last = "" then [] else [last]).map replyTo) ++ prompt, 0⟩ := by
  have hreplies : (rawLines (typed lines last)).map reply? =
      ((lines ++ if last = "" then [] else [last]).map replyTo).map some := by
    rw [rawLines_typed (fun line hline => (hlines line hline).1) hlast, List.map_append,
      List.map_append, List.map_append, List.map_map, List.map_map, List.map_map, List.map_map]
    congr 1
    · exact List.map_congr_left fun line hline => shown_eq (hlines line hline).2
    · refine List.map_congr_left fun line hline => reply?_toUTF8 (dropLineEnd_of_last ?_)
      split at hline
      · cases hline
      · rwa [List.mem_singleton.mp hline]
  have htalk := converse_append prompt hreplies []
  rw [List.append_nil, converse_nil] at htalk
  rw [run, dispatch, h]
  exact htalk

/-- A check shows a program, or its diagnostics up to one that cannot be rendered. -/
theorem exitCode_checkSource (source : String) (file : Option String) :
    (checkSource source file).exitCode ∈ [0, 1, 101] := by
  rw [checkSource]
  split
  rename_i program diagnostics _
  split
  · exact List.mem_cons_self
  · obtain ⟨told, untold, blocks, -, -, -, hreport⟩ := report_eq source diagnostics
    rw [hreport]
    dsimp only
    split <;> decide

/-- A file that cannot be read ends the run as diagnostics do. -/
theorem exitCode_checkRead (path : String) (content? : Option ByteArray) :
    (checkRead path content?).exitCode ∈ [0, 1, 101] := by
  have hfailed : Transcript.failed.exitCode ∈ [0, 1, 101] := by decide
  cases content? with
  | none => exact hfailed
  | some content =>
    rw [checkRead, Option.map_some, Option.getD_some, checkFile]
    split
    · exact exitCode_checkSource _ _
    · exact hfailed

/-- Every run ends with one of four codes: 0 if there is nothing to complain about, 1 if there is, 2 if
the arguments are refused and 101 if a diagnostic cannot be rendered. -/
theorem exitCode_run (arguments : List String) (content? : String → Option ByteArray)
    (input : List UInt8) : (run arguments content? input).exitCode ∈ [0, 1, 2, 101] := by
  have hrefused : Transcript.refused.exitCode ∈ [0, 1, 2, 101] := by decide
  rw [run, dispatch]
  split
  · rename_i reason _
    cases reason with
    | help => exact List.mem_cons_self
    | unexpected | noValue => exact hrefused
  · rename_i path _
    have hfewer : [0, 1, 101] ⊆ [0, 1, 2, 101] := by decide
    exact hfewer (exitCode_checkRead path (content? path))
  · rename_i prompt _
    obtain ⟨heard, unheard, replies, -, -, -, htalk⟩ := exists_replies prompt (rawLines input)
    rw [htalk]
    dsimp only
    split <;> decide

end LetScript.Shell
