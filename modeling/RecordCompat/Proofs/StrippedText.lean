import Mathlib.Data.List.Basic
import RecordCompat.Proofs.Stripping

/-! What is left of a text without its comments. Scanned again, it has the same code and the
same literals, and in the place of a comment nothing but blanks and line ends. A comment
leaves at least a blank, so behind a literal or a slash there stands either what stood there
before or a blank, and neither makes a literal longer nor lets a comment begin. -/
namespace RecordCompat.Source

def Segment.isComment : Segment → Bool
  | .code _ | .literal _ => false
  | .lineComment _ | .blockComment .. => true

def Segment.literal? : Segment → Option (List Char)
  | .literal text => some text
  | _ => none

def literals (text : List Char) : List (List Char) :=
  (segments text).filterMap Segment.literal?

/-- A comment begins at `c`, which `rest` follows. -/
def BeginsComment (c : Char) (rest : List Char) : Prop :=
  c = '/' ∧ (rest.head? = some '/' ∨ rest.head? = some '*')

theorem headSegment_cases (c : Char) (rest : List Char) :
    (opensLiteral c = true ∧
      headSegment c rest = .literal ((c :: rest).take (literalLength (c :: rest)))) ∨
    (BeginsComment c rest ∧ (headSegment c rest).isComment = true) ∨
    (opensLiteral c = false ∧ ¬ BeginsComment c rest ∧ headSegment c rest = .code c) := by
  have next (d : Char) : [d] <+: rest ↔ rest.head? = some d := by cases rest <;> simp [eq_comm]
  unfold headSegment
  simp only [next]
  split
  next opens => exact .inl ⟨opens, rfl⟩
  next plain =>
    split
    next line => exact .inr (.inl ⟨⟨line.1, .inl line.2⟩, rfl⟩)
    next noLine =>
      split
      next block =>
        refine .inr (.inl ⟨⟨block.1, .inr block.2⟩, ?_⟩)
        split <;> rfl
      next noBlock =>
        refine .inr (.inr ⟨Bool.eq_false_iff.mpr plain, ?_, rfl⟩)
        rintro ⟨slash, second | star⟩
        · exact noLine ⟨slash, second⟩
        · exact noBlock ⟨slash, star⟩

/-- A literal holds its mark and some of what follows. -/
theorem headSegment_literal {c : Char} {rest : List Char} (opens : opensLiteral c = true) :
    ∃ n ≤ rest.length, literalLength (c :: rest) = n + 1 ∧
      headSegment c rest = .literal (c :: rest.take n) := by
  obtain ⟨n, length⟩ := Nat.exists_eq_add_one.mpr (literalLength_pos c rest)
  have bound := literalLength_le (c :: rest)
  rw [length, List.length_cons] at bound
  refine ⟨n, Nat.le_of_succ_le_succ bound, length, ?_⟩
  rw [headSegment, if_pos opens, length, List.take_succ_cons]

theorem Segment.kept_of_isComment {segment : Segment} (comment : segment.isComment = true) :
    ∃ lines, segment.kept = ' ' :: lines ∧ ∀ c ∈ lines, c = '\n' := by
  cases segment with
  | code | literal => cases comment
  | lineComment => exact ⟨[], rfl, by simp⟩
  | blockComment text closed => exact ⟨_, rfl, by simp⟩

/-- What a segment is read as when comments are stripped. -/
def Segment.bare (segment : Segment) : List Segment :=
  if segment.isComment then segment.kept.map .code else [segment]

theorem Segment.flatMap_kept_bare (segment : Segment) :
    segment.bare.flatMap Segment.kept = segment.kept := by
  have codes (text : List Char) : (text.map Segment.code).flatMap Segment.kept = text := by
    induction text with
    | nil => rfl
    | cons c rest ih => simpa [Segment.kept] using ih
  cases segment <;> simp [Segment.bare, Segment.isComment, codes, Segment.kept]

theorem Segment.isComment_bare (segment : Segment) :
    ∀ piece ∈ segment.bare, piece.isComment = false := by
  cases segment <;> simp [Segment.bare, Segment.isComment]

theorem Segment.literal?_bare (segment : Segment) :
    segment.bare.filterMap Segment.literal? = segment.literal?.toList := by
  have codes (text : List Char) : (text.map Segment.code).filterMap Segment.literal? = [] := by
    simp [Segment.literal?]
  cases segment <;> simp [Segment.bare, Segment.isComment, codes, Segment.literal?]

theorem segments_code {c : Char} {rest : List Char} (plain : opensLiteral c = false)
    (noComment : ¬ BeginsComment c rest) :
    segments (c :: rest) = .code c :: segments rest := by
  have segment : headSegment c rest = .code c := by
    rcases headSegment_cases c rest with ⟨opens, -⟩ | ⟨begins, -⟩ | ⟨-, -, code⟩
    · rw [plain] at opens
      cases opens
    · exact absurd begins noComment
    · exact code
  rw [segments, segment]
  rfl

theorem segments_codes {text : List Char}
    (codes : ∀ c ∈ text, opensLiteral c = false ∧ c ≠ '/') (more : List Char) :
    segments (text ++ more) = text.map .code ++ segments more := by
  induction text with
  | nil => rfl
  | cons c rest ih =>
    obtain ⟨⟨plain, noSlash⟩, later⟩ := List.forall_mem_cons.mp codes
    rw [List.cons_append, segments_code plain fun begins => noSlash begins.1, ih later]
    rfl

theorem segments_literal {c : Char} {rest more : List Char} (opens : opensLiteral c = true)
    (ends : literalLength (c :: rest ++ more) = (c :: rest).length) :
    segments (c :: rest ++ more) = .literal (c :: rest) :: segments more := by
  have segment : headSegment c (rest ++ more) = .literal (c :: rest) := by
    rw [headSegment, if_pos opens, ← List.cons_append, ends, List.take_left]
  rw [List.cons_append, segments, segment]
  simp [Segment.text]

/-- The first character stays, or it is the slash of a comment and a blank takes its place. -/
theorem head?_stripComments (text : List Char) :
    (stripComments text).head? = text.head? ∨
      text.head? = some '/' ∧ (stripComments text).head? = some ' ' := by
  cases text with
  | nil => simp
  | cons c rest =>
    rw [stripComments_cons]
    rcases headSegment_cases c rest with ⟨-, literal⟩ | ⟨⟨rfl, -⟩, comment⟩ | ⟨-, -, code⟩
    · left
      rw [literal, List.take_cons (literalLength_pos c rest)]
      rfl
    · obtain ⟨lines, kept, -⟩ := Segment.kept_of_isComment comment
      exact .inr ⟨rfl, by rw [kept]; rfl⟩
    · left
      rw [code]
      rfl

theorem literalLength_stripComments {c : Char} {rest more : List Char}
    (opens : opensLiteral c = true)
    (ends : literalLength (c :: rest ++ more) = (c :: rest).length) :
    literalLength (c :: rest ++ stripComments more) = (c :: rest).length := by
  rcases head?_stripComments more with same | ⟨slash, blank⟩
  · exact literalLength_of_head? same ends
  · obtain ⟨tail, rfl⟩ := List.head?_eq_some_iff.mp slash
    have neutral : Neutral '/' := by decide
    have closed := isClosedLiteral_of_length opens neutral ends
    exact literalLength_closed_append closed (by simp [blank])

theorem not_beginsComment_stripComments {c : Char} {rest : List Char}
    (noComment : ¬ BeginsComment c rest) : ¬ BeginsComment c (stripComments rest) := by
  rcases head?_stripComments rest with same | ⟨-, blank⟩
  · rwa [BeginsComment, same]
  · simp [BeginsComment, blank]

/-- The stripped text is read as the text itself, but for its comments. -/
theorem segments_stripComments (text : List Char) :
    segments (stripComments text) = (segments text).flatMap Segment.bare := by
  fun_induction segments text with
  | case1 => simp [segments]
  | case2 c rest segment ih =>
    rw [stripComments_cons, List.flatMap_cons, ← ih]
    rcases headSegment_cases c rest with ⟨opens, -⟩ | ⟨-, comment⟩ | ⟨plain, noComment, code⟩
    · obtain ⟨n, bound, length, literal⟩ := @headSegment_literal c rest opens
      have ends : literalLength (c :: rest.take n ++ rest.drop n) = (c :: rest.take n).length := by
        simp [length, bound]
      have stays := segments_literal opens (literalLength_stripComments opens ends)
      simpa [segment, literal, Segment.kept, Segment.text, bound, Segment.bare,
        Segment.isComment] using stays
    · obtain ⟨lines, kept, feeds⟩ := Segment.kept_of_isComment comment
      have codes : ∀ d ∈ ' ' :: lines, opensLiteral d = false ∧ d ≠ '/' := by
        refine List.forall_mem_cons.mpr ⟨by decide, fun d member => ?_⟩
        rw [feeds d member]
        decide
      rw [kept, segments_codes codes, Segment.bare, if_pos comment, kept]
    · simp only [segment, code]
      exact segments_code plain (not_beginsComment_stripComments noComment)

/-- Stripping a second time changes nothing. What is left has no comment, and its literals
are those of the text. -/
theorem stripComments_twice (text : List Char) :
    stripComments (stripComments text) = stripComments text ∧
      (∀ segment ∈ segments (stripComments text), segment.isComment = false) ∧
      literals (stripComments text) = literals text := by
  refine ⟨?_, ?_, ?_⟩
  · rw [stripComments, segments_stripComments, List.flatMap_assoc]
    simp only [Segment.flatMap_kept_bare]
    rfl
  · rw [segments_stripComments]
    intro piece member
    obtain ⟨segment, -, inside⟩ := List.mem_flatMap.mp member
    exact segment.isComment_bare piece inside
  · rw [literals, segments_stripComments, List.filterMap_flatMap]
    simp only [Segment.literal?_bare]
    rw [literals, List.filterMap_eq_flatMap_toList]

end RecordCompat.Source
