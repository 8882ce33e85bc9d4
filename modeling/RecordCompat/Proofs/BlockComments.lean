import RecordCompat.Proofs.StrippedText

/-! Where a block comment ends. The search counts the comments that are open; the grammar nests
them. They agree because a text that the search has left behind is a row of comment bodies, one
for each comment that was open, each with its closing mark. A comment's text may hold quotation
marks: it is one segment, and behind it the text is read as if it stood alone. -/
namespace RecordCompat.Source

inductive BlockComment : List Char → Prop
  | intro {body : List Char} : CommentBody body → BlockComment ('/' :: '*' :: body ++ ['*', '/'])

/-- The index just behind the block comment that opens at `start`, or the end of the text. -/
def blockCommentEnd (text : List Char) (start : Nat) : Nat :=
  match blockCommentLength? (text.drop start) with
  | some n => start + n
  | none => text.length

/-- A comment body and its closing mark for each of `outer` comments and one more. -/
inductive Closings : Nat → List Char → Prop
  | last {body : List Char} : CommentBody body → Closings 0 (body ++ ['*', '/'])
  | more {outer : Nat} {body rest : List Char} : CommentBody body → Closings outer rest →
      Closings (outer + 1) (body ++ '*' :: '/' :: rest)

theorem Closings.comment {outer : Nat} {inner rest : List Char} (inside : CommentBody inner)
    (closings : Closings outer rest) :
    Closings outer ('/' :: '*' :: inner ++ '*' :: '/' :: rest) := by
  cases closings with
  | last body =>
    have longer := Closings.last (.comment inside body)
    simpa using longer
  | more body later =>
    have longer := Closings.more (.comment inside body) later
    simpa using longer

theorem Closings.char {outer : Nat} {c : Char} {rest : List Char}
    (noOpening : ¬ ['/', '*'] <+: c :: rest) (noClosing : ¬ ['*', '/'] <+: c :: rest)
    (closings : Closings outer rest) : Closings outer (c :: rest) := by
  cases closings with
  | last body => exact .last (.char body noOpening noClosing)
  | @more _ body rest inside later =>
    have front : c :: body ++ ['*', '/'] <+: c :: (body ++ '*' :: '/' :: rest) := ⟨rest, by simp⟩
    refine .more (.char inside ?_ ?_) later
    · exact fun mark => noOpening (mark.trans front)
    · exact fun mark => noClosing (mark.trans front)

theorem closings_of_closingLength? {outer n : Nat} {text : List Char}
    (found : closingLength? outer text = some n) :
    ∃ front behind, text = front ++ behind ∧ front.length = n ∧ Closings outer front := by
  fun_induction closingLength? outer text generalizing n with
  | case1 outer rest ih =>
    obtain ⟨m, later, rfl⟩ := Option.map_eq_some_iff.mp found
    obtain ⟨front, behind, rfl, rfl, closings⟩ := ih later
    refine ⟨'/' :: '*' :: front, behind, rfl, rfl, ?_⟩
    -- The first body is that of the comment opened here, which goes into the body around it.
    cases closings with
    | more inside outside => simpa using outside.comment inside
  | case2 rest =>
    obtain rfl := Option.some.inj found
    exact ⟨['*', '/'], rest, rfl, rfl, .last .nil⟩
  | case3 rest outer ih =>
    obtain ⟨m, later, rfl⟩ := Option.map_eq_some_iff.mp found
    obtain ⟨front, behind, rfl, rfl, closings⟩ := ih later
    exact ⟨'*' :: '/' :: front, behind, rfl, rfl, .more .nil closings⟩
  | case4 outer c rest noOpening noClosing ih =>
    obtain ⟨m, later, rfl⟩ := Option.map_eq_some_iff.mp found
    obtain ⟨front, behind, rfl, rfl, closings⟩ := ih later
    refine ⟨c :: front, behind, rfl, rfl, closings.char ?_ ?_⟩
    · rintro ⟨tail, same⟩
      obtain ⟨rfl, rfl⟩ := List.cons.inj same
      exact noOpening (tail ++ behind) rfl rfl
    · rintro ⟨tail, same⟩
      obtain ⟨rfl, rfl⟩ := List.cons.inj same
      exact noClosing (tail ++ behind) rfl rfl
  | case5 => cases found

/-- The search finds the comments of the grammar, and nothing else. -/
theorem blockCommentLength?_eq_some {text : List Char} {n : Nat} :
    blockCommentLength? text = some n ↔
      ∃ comment behind, text = comment ++ behind ∧ comment.length = n ∧ BlockComment comment := by
  constructor
  · intro found
    unfold blockCommentLength? at found
    split at found
    next rest =>
      obtain ⟨m, later, rfl⟩ := Option.map_eq_some_iff.mp found
      obtain ⟨front, behind, rfl, rfl, closings⟩ := closings_of_closingLength? later
      refine ⟨'/' :: '*' :: front, behind, rfl, rfl, ?_⟩
      cases closings with
      | last inside => exact .intro inside
    next => cases found
  · rintro ⟨_, behind, rfl, rfl, @⟨body, inside⟩⟩
    have length := blockCommentLength?_body inside behind
    simpa using length

theorem blockCommentLength?_eq_none {text : List Char} :
    blockCommentLength? text = none ↔
      ∀ comment behind, text = comment ++ behind → ¬ BlockComment comment := by
  constructor
  · intro unclosed comment behind split isComment
    have found := blockCommentLength?_eq_some.mpr ⟨comment, behind, split, rfl, isComment⟩
    rw [unclosed] at found
    cases found
  · intro noComment
    cases found : blockCommentLength? text with
    | none => rfl
    | some n =>
      obtain ⟨comment, behind, split, -, isComment⟩ := blockCommentLength?_eq_some.mp found
      exact absurd isComment (noComment comment behind split)

theorem blockComment_iff {text : List Char} :
    BlockComment text ↔ blockCommentLength? text = some text.length := by
  rw [blockCommentLength?_eq_some]
  constructor
  · exact fun isComment => ⟨text, [], (List.append_nil text).symm, rfl, isComment⟩
  · rintro ⟨comment, behind, rfl, length, isComment⟩
    rw [List.length_append] at length
    obtain rfl : behind = [] := List.eq_nil_of_length_eq_zero (by omega)
    rwa [List.append_nil]

instance (text : List Char) : Decidable (BlockComment text) :=
  decidable_of_iff _ blockComment_iff.symm

theorem segments_blockComment {comment : List Char} (isComment : BlockComment comment)
    (rest : List Char) :
    segments (comment ++ rest) = .blockComment comment true :: segments rest := by
  obtain ⟨inside⟩ := isComment
  rename_i body
  have whole : '/' :: '*' :: body ++ ['*', '/'] ++ rest =
      '/' :: ('*' :: body ++ '*' :: '/' :: rest) := by simp
  rw [whole, segments, headSegment_block inside]
  simp [Segment.text]

theorem segments_unclosed {text : List Char} (opens : ['/', '*'] <+: text)
    (unclosed : blockCommentLength? text = none) : segments text = [.blockComment text false] := by
  obtain ⟨rest, rfl⟩ := opens
  have segment : headSegment '/' ('*' :: rest) = .blockComment ('/' :: '*' :: rest) false := by
    rw [headSegment, if_neg (by decide), if_neg (by simp), if_pos (by simp)]
    simp only [List.cons_append, List.nil_append] at unclosed
    rw [unclosed]
  simp [segments, segment, Segment.text]

theorem blockCommentEnd_comment {comment : List Char} (isComment : BlockComment comment)
    (before behind : List Char) :
    blockCommentEnd (before ++ comment ++ behind) before.length =
      before.length + comment.length := by
  have found := blockCommentLength?_eq_some.mpr ⟨comment, behind, rfl, rfl, isComment⟩
  rw [blockCommentEnd, List.append_assoc, List.drop_left, found]

/-- A block comment ends where the grammar says, whatever stands around it, and is read as one
segment: the literals behind it are those of the text behind it. Where a block comment opens,
either what is found is one, or none of the grammar stands there, the text is read to its end as
a comment, and no literal opens in it. -/
theorem blockComments_exact :
    (∀ comment, BlockComment comment → ∀ before behind,
      blockCommentEnd (before ++ comment ++ behind) before.length =
          before.length + comment.length ∧
        segments (comment ++ behind) = .blockComment comment true :: segments behind ∧
        literals (comment ++ behind) = literals behind) ∧
    ∀ text start, ['/', '*'] <+: text.drop start →
      BlockComment (text.extract start (blockCommentEnd text start)) ∨
        (∀ n, ¬ BlockComment ((text.drop start).take n)) ∧
          blockCommentEnd text start = text.length ∧
          segments (text.drop start) = [.blockComment (text.drop start) false] ∧
          literals (text.drop start) = [] := by
  constructor
  · intro comment isComment before behind
    have read := segments_blockComment isComment behind
    refine ⟨blockCommentEnd_comment isComment before behind, read, ?_⟩
    rw [literals, read]
    rfl
  · intro text start opens
    cases found : blockCommentLength? (text.drop start) with
    | some n =>
      obtain ⟨comment, behind, split, rfl, isComment⟩ := blockCommentLength?_eq_some.mp found
      left
      rwa [blockCommentEnd, found, List.extract_eq_take_drop, Nat.add_sub_cancel_left, split,
        List.take_left]
    | none =>
      have read := segments_unclosed opens found
      refine .inr ⟨fun n => ?_, by rw [blockCommentEnd, found], read, by rw [literals, read]; rfl⟩
      exact blockCommentLength?_eq_none.mp found _ _ (List.take_append_drop n _).symm

/-- A comment with quotation marks of both kinds, one of them in a comment inside it, and a
comment whose slash belongs to its opening mark. -/
theorem blockComments_exact_around_quotes :
    let comment := "/* \" /*/ ' */ **/".toList
    let text := "x /*/ '".toList
    (BlockComment comment ∧
        blockCommentEnd ("x ".toList ++ comment ++ "'\"'".toList) 2 = 2 + comment.length ∧
        literals (comment ++ "'\"'".toList) = ["'\"'".toList]) ∧
      ['/', '*'] <+: text.drop 2 ∧ blockCommentEnd text 2 = text.length ∧
        literals (text.drop 2) = [] := by
  intro comment text
  have isComment : BlockComment comment := by decide
  have opens : ['/', '*'] <+: text.drop 2 := by decide
  have found := blockComments_exact.1 comment isComment "x ".toList "'\"'".toList
  have behind : literals "'\"'".toList = ["'\"'".toList] := by decide +kernel
  refine ⟨⟨isComment, found.1, found.2.2.trans behind⟩, opens, ?_⟩
  rcases blockComments_exact.2 text 2 opens with closed | ⟨-, stop, -, noLiteral⟩
  · exact absurd closed (by decide)
  · exact ⟨stop, noLiteral⟩

end RecordCompat.Source
