/-!
Texts as lists of characters. An offset counts the bytes of the characters before it in UTF-8;
`takeBytes?` cuts a text at an offset and refuses one that falls inside a character, since no list of
characters has that size. A list is split behind each of its separators, blanks are trimmed off the
end of a text, and numbers are read from their decimal digits, of any length and with any leading
zeros.
-/
namespace LetScript.Text

def byteLength : List Char → Nat
  | [] => 0
  | c :: text => c.utf8Size + byteLength text

@[simp] theorem byteLength_nil : byteLength [] = 0 := rfl

@[simp] theorem byteLength_cons (c : Char) (text : List Char) :
    byteLength (c :: text) = c.utf8Size + byteLength text := rfl

@[simp] theorem byteLength_append (a b : List Char) :
    byteLength (a ++ b) = byteLength a + byteLength b := by
  induction a with
  | nil => simp
  | cons c a ih => simp [ih, Nat.add_assoc]

theorem byteLength_toList (s : String) : byteLength s.toList = s.utf8ByteSize := by
  obtain ⟨text, rfl⟩ : ∃ text, s = String.ofList text := ⟨s.toList, String.ofList_toList.symm⟩
  rw [String.toList_ofList]
  induction text with
  | nil => rfl
  | cons c text ih =>
    rw [byteLength_cons, ih, String.ofList_cons, String.utf8ByteSize_append,
      String.utf8ByteSize_singleton]

/-- No character has more than four bytes. -/
theorem byteLength_le (text : List Char) : byteLength text ≤ 4 * text.length := by
  induction text with
  | nil => exact Nat.le_refl 0
  | cons c text ih =>
    have hc := c.utf8Size_le_four
    rw [byteLength_cons, List.length_cons]
    omega

/-- The characters that make up exactly the first `size` bytes, if there are such characters. -/
def takeBytes? : Nat → List Char → Option (List Char)
  | 0, _ => some []
  | _ + 1, [] => none
  | size + 1, c :: text =>
    if c.utf8Size ≤ size + 1 then (takeBytes? (size + 1 - c.utf8Size) text).map (c :: ·) else none

@[simp] theorem takeBytes?_zero (text : List Char) : takeBytes? 0 text = some [] := by
  cases text <;> rfl

theorem takeBytes?_cons {c : Char} {text : List Char} {size : Nat} (h : c.utf8Size ≤ size) :
    takeBytes? size (c :: text) = (takeBytes? (size - c.utf8Size) text).map (c :: ·) := by
  have := c.utf8Size_pos
  cases size with
  | zero => omega
  | succ size => simp [takeBytes?, h]

@[simp] theorem takeBytes?_byteLength_append (a b : List Char) :
    takeBytes? (byteLength a) (a ++ b) = some a := by
  induction a with
  | nil => simp
  | cons c a ih =>
    simp only [List.cons_append, byteLength_cons]
    rw [takeBytes?_cons (by omega)]
    simp [ih]

/-- Every piece but the last ends in the only separator that it has, and the last piece has none. -/
def splitAfter (isSeparator : α → Bool) (items : List α) : List (List α) :=
  match _h : items.dropWhile (!isSeparator ·) with
  | [] => [items]
  | separator :: rest =>
    (items.takeWhile (!isSeparator ·) ++ [separator]) :: splitAfter isSeparator rest
termination_by items.length
decreasing_by
  have := (List.dropWhile_suffix (l := items) (!isSeparator ·)).length_le
  simp only [_h, List.length_cons] at this
  omega

/-- Nothing is lost between the pieces. -/
theorem flatten_splitAfter (isSeparator : α → Bool) (items : List α) :
    (splitAfter isSeparator items).flatten = items := by
  fun_induction splitAfter isSeparator items with
  | case1 items h => simp
  | case2 items separator rest h ih =>
    have := List.takeWhile_append_dropWhile (p := (!isSeparator ·)) (l := items)
    simp only [h] at this
    simp [ih, this]

/-- The characters with the Unicode property White_Space. -/
def isBlank (c : Char) : Bool :=
  let code := c.toNat
  (0x9 ≤ code && code ≤ 0xD) || code == 0x20 || code == 0x85 || code == 0xA0 || code == 0x1680 ||
    (0x2000 ≤ code && code ≤ 0x200A) || code == 0x2028 || code == 0x2029 || code == 0x202F ||
    code == 0x205F || code == 0x3000

/-- The text without the blanks it ends in. -/
def trimEnd (text : List Char) : List Char := (text.reverse.dropWhile isBlank).reverse

def digitValue (c : Char) : Nat := c.toNat - '0'.toNat

/-- The number that a list of digits denotes. -/
def decimalValue (digits : List Char) : Nat :=
  digits.foldl (fun value c => 10 * value + digitValue c) 0

/-- Reads a non-empty list of digits and nothing else. -/
def decimal? (text : List Char) : Option Nat :=
  if text ≠ [] ∧ text.all Char.isDigit then some (decimalValue text) else none

/-- Reads digits behind at most one sign. -/
def signed? : List Char → Option Int
  | '+' :: digits => (decimal? digits).map Int.ofNat
  | '-' :: digits => (decimal? digits).map fun value => -Int.ofNat value
  | digits => (decimal? digits).map Int.ofNat

end LetScript.Text
