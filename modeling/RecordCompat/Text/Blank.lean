/-! The white space of a text: the ASCII blanks, the four information separators and
the Unicode space characters. Blanks separate words and are stripped from the ends
of a piece of text. -/
namespace RecordCompat.Text

def isBlank (c : Char) : Bool :=
  let n := c.toNat
  (9 ≤ n && n ≤ 13) || (28 ≤ n && n ≤ 32) || n == 0x85 || n == 0xA0 || n == 0x1680 ||
    (0x2000 ≤ n && n ≤ 0x200A) || n == 0x2028 || n == 0x2029 || n == 0x202F || n == 0x205F ||
    n == 0x3000

def skipBlanks (text : List Char) : List Char :=
  text.dropWhile isBlank

def stripRight (text : List Char) : List Char :=
  (text.reverse.dropWhile isBlank).reverse

/-- A text without the blanks at its two ends. -/
def strip (text : List Char) : List Char :=
  stripRight (skipBlanks text)

theorem skipBlanks_length_le (text : List Char) : (skipBlanks text).length ≤ text.length :=
  (List.dropWhile_suffix isBlank).length_le

/-- Removes blanks where at least one is required. -/
def skipSomeBlanks? : List Char → Option (List Char)
  | [] => none
  | c :: rest => if isBlank c then some (skipBlanks rest) else none

theorem skipSomeBlanks?_length {text rest : List Char} (h : skipSomeBlanks? text = some rest) :
    rest.length < text.length := by
  cases text with
  | nil => simp [skipSomeBlanks?] at h
  | cons c tail =>
    simp only [skipSomeBlanks?] at h
    split at h
    · cases h
      exact Nat.lt_succ_of_le (skipBlanks_length_le tail)
    · cases h

/-- The maximal runs of characters between blanks. -/
def words (text : List Char) : List (List Char) :=
  (text.splitOnP isBlank).filter (· ≠ [])

end RecordCompat.Text
