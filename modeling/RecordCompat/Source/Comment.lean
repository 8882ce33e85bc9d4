import RecordCompat.Source.Literal

/-! A source text is a sequence of segments: characters of code, literals, line comments and
block comments. Line comments stop in front of their line end; block comments nest, and
one that is never closed reaches to the end of the text. Stripping comments keeps code and
literals and leaves a blank for each comment, followed by the line ends inside it, so every
line keeps its number. -/
namespace RecordCompat.Source

inductive Segment
  | code (c : Char)
  | literal (text : List Char)
  | lineComment (text : List Char)
  | blockComment (text : List Char) (closed : Bool)
  deriving DecidableEq, Repr

def Segment.text : Segment → List Char
  | .code c => [c]
  | .literal text => text
  | .lineComment text => text
  | .blockComment text _ => text

/-- What is left of a segment when comments are stripped. -/
def Segment.kept : Segment → List Char
  | .code c => [c]
  | .literal text => text
  | .lineComment _ => [' ']
  | .blockComment text _ => ' ' :: text.filter (· = '\n')

/-- The length of a block comment's remainder inside `outer` further comments. -/
def closingLength? (outer : Nat) : List Char → Option Nat
  | '/' :: '*' :: rest => (closingLength? (outer + 1) rest).map (· + 2)
  | '*' :: '/' :: rest =>
    match outer with
    | 0 => some 2
    | outer + 1 => (closingLength? outer rest).map (· + 2)
  | _ :: rest => (closingLength? outer rest).map (· + 1)
  | [] => none

/-- The length of the block comment at the head of a text, from its opening mark on. -/
def blockCommentLength? : List Char → Option Nat
  | '/' :: '*' :: rest => (closingLength? 0 rest).map (· + 2)
  | _ => none

theorem blockCommentLength?_pos {text : List Char} {n : Nat}
    (h : blockCommentLength? text = some n) : 0 < n := by
  unfold blockCommentLength? at h
  split at h
  · obtain ⟨m, -, rfl⟩ := Option.map_eq_some_iff.1 h
    omega
  · cases h

def headSegment (c : Char) (rest : List Char) : Segment :=
  if opensLiteral c then .literal ((c :: rest).take (literalLength (c :: rest)))
  else if c = '/' ∧ ['/'] <+: rest then
    .lineComment (c :: rest.takeWhile (· ≠ '\n'))
  else if c = '/' ∧ ['*'] <+: rest then
    match blockCommentLength? (c :: rest) with
    | some n => .blockComment ((c :: rest).take n) true
    | none => .blockComment (c :: rest) false
  else .code c

/-- A segment is a nonempty front of the text. -/
theorem headSegment_text (c : Char) (rest : List Char) :
    ∃ n, (headSegment c rest).text = c :: rest.take n := by
  unfold headSegment
  split
  · have pos := literalLength_pos c rest
    exact ⟨literalLength (c :: rest) - 1, by
      simp [Segment.text, List.take_cons pos]⟩
  · split
    · exact ⟨(rest.takeWhile (· ≠ '\n')).length,
        congrArg (c :: ·) (List.prefix_iff_eq_take.1 (List.takeWhile_prefix _))⟩
    · split
      · split
        · rename_i n h
          exact ⟨n - 1, by simp [Segment.text, List.take_cons (blockCommentLength?_pos h)]⟩
        · exact ⟨rest.length, by simp [Segment.text]⟩
      · exact ⟨0, by simp [Segment.text]⟩

/-- Divides a text into its segments. -/
def segments : List Char → List Segment
  | [] => []
  | c :: rest =>
    let segment := headSegment c rest
    segment :: segments (rest.drop (segment.text.length - 1))
termination_by text => text.length
decreasing_by simp only [List.length_drop, List.length_cons]; omega

/-- Dividing loses nothing. -/
theorem flatMap_text_segments (text : List Char) :
    (segments text).flatMap Segment.text = text := by
  fun_induction segments text with
  | case1 => rfl
  | case2 c rest segment ih =>
    obtain ⟨n, hn⟩ := headSegment_text c rest
    have drop : rest.drop (segment.text.length - 1) = rest.drop n := by
      simp only [segment, hn, List.length_cons, List.length_take, Nat.add_sub_cancel]
      by_cases h : n ≤ rest.length
      · rw [Nat.min_eq_left h]
      · rw [Nat.min_eq_right (by omega), List.drop_length, List.drop_eq_nil_of_le (by omega)]
    rw [List.flatMap_cons, ih, drop, show segment.text = c :: rest.take n from hn]
    simp

def stripComments (text : List Char) : List Char :=
  (segments text).flatMap Segment.kept

/-- The index at which a block comment opens that is never closed. Such a comment is the
last segment. -/
def openComment? (text : List Char) : Option Nat :=
  match (segments text).getLast? with
  | some (.blockComment comment false) => some (text.length - comment.length)
  | _ => none

end RecordCompat.Source
