/-! In file patterns `[` begins a set of characters that runs to the next `]`. A mark of
negation comes first, and a `]` right behind the opening is an ordinary character. Inside,
two characters with a hyphen between them stand for the range from one to the other. -/
namespace RecordCompat.Files

structure CharRange where
  low : Char
  high : Char
  deriving DecidableEq, Repr

namespace CharRange

def one (c : Char) : CharRange := ⟨c, c⟩

def isEmpty (range : CharRange) : Bool :=
  range.high < range.low

def contains (range : CharRange) (c : Char) : Bool :=
  range.low ≤ c && c ≤ range.high

/-- The ranges that the inside of brackets spells. -/
def read : List Char → List CharRange
  | low :: '-' :: high :: rest => ⟨low, high⟩ :: read rest
  | c :: rest => one c :: read rest
  | [] => []

end CharRange

/-- A set of characters, or with `negated` its complement. -/
structure CharSet where
  negated : Bool
  ranges : List CharRange
  deriving DecidableEq, Repr

def CharSet.contains (set : CharSet) (c : Char) : Bool :=
  set.ranges.any (·.contains c) != set.negated

def untilBracket? (text : List Char) : Option (List Char × List Char) :=
  match text.dropWhile (· ≠ ']') with
  | [] => none
  | _ :: later => some (text.takeWhile (· ≠ ']'), later)

theorem untilBracket?_length {text inside later : List Char}
    (h : untilBracket? text = some (inside, later)) : later.length < text.length := by
  unfold untilBracket? at h
  split at h
  · cases h
  · rename_i eq
    obtain ⟨-, rfl⟩ := Prod.mk.inj (Option.some.inj h)
    have shorter := (List.dropWhile_suffix (l := text) fun c => decide (c ≠ ']')).length_le
    rw [eq, List.length_cons] at shorter
    exact shorter

/-- Divides the text behind `[` into the inside of the brackets and what follows the
closing one. `marks` are the marks of negation. -/
def bracketBody? (marks : List Char) (text : List Char) : Option (List Char × List Char) :=
  let mark := (text.take 1).filter (· ∈ marks)
  let first := ((text.drop mark.length).take 1).filter (· = ']')
  (untilBracket? (text.drop (mark.length + first.length))).map fun (inside, later) =>
    (mark ++ first ++ inside, later)

theorem bracketBody?_length {marks text body later : List Char}
    (h : bracketBody? marks text = some (body, later)) : later.length < text.length := by
  obtain ⟨⟨inside, rest⟩, found, eq⟩ := Option.map_eq_some_iff.1 h
  obtain ⟨-, rfl⟩ := Prod.mk.inj eq
  have := untilBracket?_length found
  rw [List.length_drop] at this
  omega

end RecordCompat.Files
