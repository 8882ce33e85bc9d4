/-! A literal opens with a quotation mark or with three double ones. A single-line literal
ends at the same mark, or before the end of its line; a raw literal ends with the last
three of a run of double marks. Both forms of double-quoted literal may hold templates,
which hold code with literals and braces of their own, so a scan keeps a stack of what it
is inside of. A literal that is never closed reaches to the end of the text.

The measures count characters from the opening mark on, hence depend on the text from
there on only. -/
namespace RecordCompat.Source

inductive Frame
  /-- A single-line literal opened by this mark. -/
  | line (mark : Char)
  | raw
  /-- A template, or a group of braces in one. -/
  | braces
  deriving DecidableEq, Repr

/-- Reads `c`, which `rest` follows, in the innermost frame. The result is how many
further characters belong to what `c` begins, and the frames after them; there is none
where the scan ends in front of `c`. -/
def Frame.advance (outer : List Frame) (c : Char) (rest : List Char) :
    Frame → Option (Nat × List Frame)
  | .line mark =>
    if c = '\\' then some (1, .line mark :: outer)
    else if c = mark then some (0, outer)
    else if c = '\n' then if outer = [] then none else some (0, outer)
    else if mark = '"' ∧ c = '$' ∧ ['{'] <+: rest then some (1, .braces :: .line mark :: outer)
    else some (0, .line mark :: outer)
  | .raw =>
    if c = '"' ∧ ['"', '"', '"'] <+: rest then some (0, .raw :: outer)
    else if c = '"' ∧ ['"', '"'] <+: rest then some (2, outer)
    else if c = '$' ∧ ['{'] <+: rest then some (1, .braces :: .raw :: outer)
    else some (0, .raw :: outer)
  | .braces =>
    if c = '"' ∧ ['"', '"'] <+: rest then some (2, .raw :: .braces :: outer)
    else if c = '"' ∨ c = '\'' then some (0, .line c :: .braces :: outer)
    else if c = '{' then some (0, .braces :: .braces :: outer)
    else if c = '}' then some (0, outer)
    else some (0, .braces :: outer)

/-- How many characters are read until all frames are closed, the first `pending` of them
unseen. -/
def scan (pending : Nat) (frames : List Frame) : List Char → Nat
  | [] => 0
  | c :: rest =>
    match pending, frames with
    | pending + 1, frames => 1 + scan pending frames rest
    | 0, [] => 0
    | 0, frame :: outer =>
      match frame.advance outer c rest with
      | none => 0
      | some (pending, frames) => 1 + scan pending frames rest

theorem scan_le (pending : Nat) (frames : List Frame) (text : List Char) :
    scan pending frames text ≤ text.length := by
  fun_induction scan pending frames text <;> simp_all <;> omega

def opensLiteral (c : Char) : Bool :=
  c == '"' || c == '\''

/-- The length of the literal at the head of a text, whose first character is taken to be
its mark. -/
def literalLength : List Char → Nat
  | [] => 0
  | '"' :: '"' :: '"' :: rest => 3 + scan 0 [.raw] rest
  | mark :: rest => 1 + scan 0 [.line mark] rest

theorem literalLength_le (text : List Char) : literalLength text ≤ text.length := by
  unfold literalLength
  split
  · exact Nat.zero_le _
  · have := scan_le 0 [.raw] ‹_›
    simp only [List.length_cons]
    omega
  · have := scan_le 0 [.line ‹Char›] ‹_›
    simp only [List.length_cons]
    omega

theorem literalLength_pos (c : Char) (rest : List Char) : 0 < literalLength (c :: rest) := by
  unfold literalLength
  split
  · contradiction
  · omega
  · omega

/-- The length of a template from just behind its opening brace on. -/
def templateLength (text : List Char) : Nat :=
  scan 0 [.braces] text

/-- The index just behind the literal that opens at `start`, if the text has a character
there. -/
def literalEnd? (text : List Char) (start : Nat) : Option Nat :=
  if start < text.length then some (start + literalLength (text.drop start)) else none

end RecordCompat.Source
