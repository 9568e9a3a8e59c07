import LetScript.Proofs.Reading.Relocation
import LetScript.Proofs.Token.Spelling
import Mathlib.Data.List.Basic

/-!
Texts one behind the other. What stands behind a semicolon has no influence on what is read before
it: a run over tokens that end in a semicolon is the same whatever follows them
(`Cursor.blocks_followedBy`). So a source that is cut behind a semicolon can be read in two parts, of
which the second is moved by the size of the first (`parseSource_append_semicolon`).
-/
namespace LetScript

open Text (byteLength)

/-- The last of the tokens, if there are any, is a semicolon. -/
def Terminated (tokens : List Token) : Prop := ∀ t ∈ tokens.getLast?, t.kind = .semicolon

namespace Terminated

variable {a b : List Token}

theorem of_append (h : Terminated (a ++ b)) : Terminated b := by
  intro t ht
  exact h t (List.mem_getLast?_append_of_mem_getLast? ht)

theorem exists_semicolon (h : Terminated a) (hne : a ≠ []) : ∃ t ∈ a, t.kind = .semicolon :=
  ⟨a.getLast hne, List.getLast_mem hne, h _ (List.getLast?_eq_some_getLast hne)⟩

/-- Something follows tokens among which there is no semicolon. -/
theorem ne_nil_of_append (h : Terminated (a ++ b)) (hne : a ++ b ≠ [])
    (hnone : ∀ t ∈ a, t.kind ≠ .semicolon) : b ≠ [] := by
  rintro rfl
  obtain ⟨t, ht, hkind⟩ := h.exists_semicolon hne
  rw [List.append_nil] at ht
  exact hnone t ht hkind

end Terminated

/-- What may follow a sentence among tokens that end in a semicolon may do so when more tokens stand
behind them. -/
theorem Sentence.Precedes.append {s : Sentence} {following : List Token} (h : s.Precedes following)
    (hterm : Terminated (s.tokens ++ following)) (rest : List Token) :
    s.Precedes (following ++ rest) := by
  have hfollowing : s.stop? = none → following ≠ [] := by
    intro hstop
    refine hterm.ne_nil_of_append (by simp [s.tokens_ne_nil]) fun t ht => ?_
    rw [tokens, hstop, Option.toList_none, List.append_nil] at ht
    exact ne_semicolon_of_mem_body ht
  constructor
  · intro hstop t ht
    obtain ⟨u, later, rfl⟩ := List.exists_cons_of_ne_nil (hfollowing hstop)
    exact h.1 hstop t ht
  · intro hlone
    exact absurd (h.2 hlone) (hfollowing hlone.2)

namespace Cursor

/-- The cursor with the tokens of the next behind its own. -/
def followedBy (c next : Cursor) : Cursor := ⟨c.ahead ++ next.ahead, next.stop, c.depth⟩

variable {c : Cursor} (next : Cursor)

/-- Where there is a semicolon to stop at, what follows does not change what is skipped. -/
theorem skipStatement_followedBy (h : ∃ t ∈ c.ahead, t.kind = .semicolon) :
    (c.followedBy next).skipStatement.advance = c.skipStatement.advance.followedBy next := by
  obtain ⟨ahead, stop, depth⟩ := c
  have hskip : ahead.dropWhile (·.kind ≠ .semicolon) ≠ [] := by
    obtain ⟨t, ht, hkind⟩ := h
    obtain ⟨-, hnone⟩ | ⟨passed, u, later, -, -, -, hstop⟩ := skipStatement_cases ahead stop depth
    · exact absurd hkind (hnone t ht)
    · change ahead.dropWhile (·.kind ≠ .semicolon) = u :: later at hstop
      rw [hstop]
      exact List.cons_ne_nil u later
  have hdrop : (ahead ++ next.ahead).dropWhile (·.kind ≠ .semicolon) =
      ahead.dropWhile (·.kind ≠ .semicolon) ++ next.ahead := by
    rw [List.dropWhile_append, if_neg (by simpa using hskip)]
  simp only [skipStatement, advance, followedBy, hdrop, List.tail_append_of_ne_nil hskip]

/-- What follows tokens that end in a semicolon has no influence on an attempt at them. -/
theorem attempt_followedBy (hahead : c.ahead ≠ []) (hlex : c.Lexical) (hdepth : c.depth = 0)
    (hterm : Terminated c.ahead) :
    (c.followedBy next).attempt =
      ⟨c.followedBy next, c.attempt.result, c.attempt.after.followedBy next⟩ := by
  have h := attempt_outcome hahead hlex hdepth
  obtain ⟨ahead, stop, depth⟩ := c
  obtain rfl : depth = 0 := hdepth
  generalize (Cursor.mk ahead stop 0).attempt = a at h
  cases h with
  | read s following hsplit hlimit hprecedes =>
    obtain rfl : ahead = s.tokens ++ following := hsplit
    have hs : ∀ t ∈ s.tokens, t.IsLexical := fun t ht => hlex t (List.mem_append_left _ ht)
    simp only [followedBy, List.append_assoc]
    exact attempt_sentence s _ _ hs hlimit (hprecedes.append hterm next.ahead)
  | failed passed following cause hsplit himpasse =>
    obtain rfl : ahead = passed ++ following := hsplit
    have hpassed : ∀ t ∈ passed, t.IsLexical := fun t ht => hlex t (List.mem_append_left _ ht)
    have hskip := skipStatement_followedBy next (hterm.exists_semicolon hahead)
    -- the attempt fails at a token no later than the last semicolon, so at the same token
    obtain ⟨t, later, rfl⟩ :=
      List.exists_cons_of_ne_nil (hterm.ne_nil_of_append hahead himpasse.ne_semicolon)
    have hhead : ((t :: later) ++ next.ahead).headD (.endOfInput next.stop) =
        (t :: later).headD (.endOfInput stop) := rfl
    have hnext : ∀ u ∈ ((t :: later) ++ next.ahead).head?, u.IsLexical := by
      intro u hu
      obtain rfl := Option.some.inj hu
      exact hlex t (by simp)
    rw [← hhead] at himpasse ⊢
    rw [← hskip]
    simp only [followedBy, List.append_assoc]
    exact attempt_impasse himpasse hpassed hnext

/-- What follows tokens that end in a semicolon is read by itself. -/
theorem blocks_followedBy (hnext : next.depth = 0) (c : Cursor) (hlex : c.Lexical)
    (hdepth : c.depth = 0) :
    Terminated c.ahead → (c.followedBy next).blocks = c.blocks ++ next.blocks := by
  induction c, hlex, hdepth using run_induction with
  | nil c _ hdepth hahead =>
    intro _
    have hall : c.followedBy next = next := by
      rw [followedBy, hahead, hdepth, List.nil_append, ← hnext]
    rw [blocks_nil hahead, hall, List.nil_append]
  | cons c hlex hdepth _ _ hahead ih =>
    intro hterm
    obtain ⟨hsplit, -, -⟩ := attempt_fits hahead hlex hdepth
    have hahead' : (c.followedBy next).ahead ≠ [] := by simp [followedBy, hahead]
    have hattempt := attempt_followedBy next hahead hlex hdepth hterm
    have hblock : (c.followedBy next).attempt.block = c.attempt.block := by
      have hused : (c.followedBy next).ahead =
          c.attempt.tokens ++ (c.attempt.after.followedBy next).ahead := by
        simp only [followedBy]
        rw [← List.append_assoc, ← hsplit]
      rw [hattempt, Attempt.block, Attempt.tokens_of_append hused]
      rfl
    have hafter : Terminated c.attempt.after.ahead := by
      rw [hsplit] at hterm
      exact hterm.of_append
    rw [blocks_cons hahead', hblock, hattempt, ih hafter, blocks_cons hahead, List.cons_append]

theorem reading_followedBy (hlex : c.Lexical) (hdepth : c.depth = 0) (hterm : Terminated c.ahead)
    (hnext : next.depth = 0) :
    (c.followedBy next).reading =
      (⟨c.reading.1.statements ++ next.reading.1.statements⟩, c.reading.2 ++ next.reading.2) := by
  simp only [reading, blocks_followedBy next hnext c hlex hdepth hterm, List.filterMap_append]

end Cursor

/-- No run of letters or digits goes on behind a semicolon. -/
theorem apart_semicolon (text rest : List Char) : Apart (text ++ [';']) rest := by
  intro c hc d _
  rw [List.getLast?_concat] at hc
  obtain rfl : ';' = c := Option.some.inj hc
  rfl

/-- The last token of a text with a semicolon at its end is that semicolon. -/
theorem terminated_scan (text : List Char) (offset : Nat) (file : String) :
    Terminated (Scanner.mk (text ++ [';']) offset file).scan.1 := by
  have hapart : Apart text [';'] := (detached_cons (by decide) []).apart text
  have hscan := Scanner.scan_lexeme (.symbol (by decide)) (apart_semicolon [] [])
    (offset + byteLength text) file
  rw [Scanner.scan_nil] at hscan
  have hlast : (Scanner.mk [';'] (offset + byteLength text) file).scan.1 =
      [.ofLexeme (offset + byteLength text) file [';']] := congrArg Prod.fst hscan
  rw [Scanner.scan_append hapart, hlast]
  intro t ht
  rw [List.getLast?_concat] at ht
  obtain rfl := Option.some.inj ht
  rfl

section

variable (a b : String) (file : Option String)

theorem terminated_ofSource : Terminated (Session.ofSource (a ++ ";") file).cursor.ahead := by
  rw [cursor_ofSource, String.toList_append]
  exact terminated_scan a.toList 0 _

/-- The tokens of two sources with a semicolon between them are those of the first, with the
semicolon, and those of the second, moved. -/
theorem cursor_append_semicolon
    (hsize : a.utf8ByteSize + 1 + b.utf8ByteSize ≤ Position.maxOffset) :
    (Session.ofSource (a ++ ";" ++ b) file).cursor =
      (Session.ofSource (a ++ ";") file).cursor.followedBy
        ((Session.ofSource b file).cursor.relocate (.shift (a.utf8ByteSize + 1))) := by
  have hsplit : (a ++ ";" ++ b).toList = (a ++ ";").toList ++ b.toList := String.toList_append
  have hapart : Apart (a ++ ";").toList b.toList := by
    rw [String.toList_append]
    exact apart_semicolon a.toList b.toList
  have hoffset : 0 + byteLength (a ++ ";").toList = a.utf8ByteSize + 1 := by
    rw [Text.byteLength_toList, String.utf8ByteSize_append, Nat.zero_add]
    rfl
  have hend : a.utf8ByteSize + 1 + byteLength b.toList ≤ Position.maxOffset := by
    rw [Text.byteLength_toList]
    exact hsize
  rw [cursor_ofSource, hsplit, Scanner.scan_append hapart, hoffset, Scanner.scan_shift hend]
  rfl

end

/-- What is read behind a semicolon is what would be read of it alone, moved by the size of what
stands before it, and what is read before the semicolon is the same whatever follows. -/
theorem parseSource_append_semicolon (a b : String) (file : Option String)
    (hsize : a.utf8ByteSize + 1 + b.utf8ByteSize ≤ Position.maxOffset) :
    parseSource (a ++ ";" ++ b) file =
      (⟨(parseSource (a ++ ";") file).1.statements ++
          ((parseSource b file).1.relocate (.shift (a.utf8ByteSize + 1))).statements⟩,
        (parseSource (a ++ ";") file).2 ++
          (parseSource b file).2.map (Diagnostic.relocate (.shift (a.utf8ByteSize + 1)))) := by
  have hlex := lexical_ofSource (a ++ ";") file
  have hlex' := lexical_ofSource b file
  rw [parseSource_eq_reading, parseSource_eq_reading, parseSource_eq_reading,
    cursor_append_semicolon a b file hsize,
    Cursor.reading_followedBy _ hlex rfl (terminated_ofSource a file) rfl,
    Cursor.reading_relocate _ _ hlex' rfl]

theorem parseSource_append_semicolon_faulty :
    "let é".utf8ByteSize + 1 + "b; )".utf8ByteSize ≤ Position.maxOffset ∧
      (parseSource "b; )" none).2.map (·.position.offset) = [3] ∧
        (parseSource ("let é" ++ ";" ++ "b; )") none).2.map (·.position.offset) = [4, 7 + 3] ∧
          parseSource ("let é" ++ ";" ++ "b; )") none =
            (⟨(parseSource ("let é" ++ ";") none).1.statements ++
                ((parseSource "b; )" none).1.relocate
                  (.shift ("let é".utf8ByteSize + 1))).statements⟩,
              (parseSource ("let é" ++ ";") none).2 ++
                (parseSource "b; )" none).2.map
                  (Diagnostic.relocate (.shift ("let é".utf8ByteSize + 1)))) := by
  have hsize : "let é".utf8ByteSize + 1 + "b; )".utf8ByteSize ≤ Position.maxOffset := by decide
  have hsecond : (parseSource "b; )" none).2.map (·.position.offset) = [3] := by decide +kernel
  have hjoined : (parseSource ("let é" ++ ";" ++ "b; )") none).2.map (·.position.offset) =
      [4, 7 + 3] := by decide +kernel
  exact ⟨hsize, hsecond, hjoined, parseSource_append_semicolon "let é" "b; )" none hsize⟩

end LetScript
