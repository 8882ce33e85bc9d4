import RecordCompat.Proofs.BlockComments

/-! Lines survive the stripping of comments. A segment and what is left of it hold the same number
of line ends: a line comment stops in front of its line end, and a block comment leaves all of
its own. So after each turn of the loop the output is on the line of the input, and code and
literals stay on theirs. A comment is longer than what it leaves. -/
namespace RecordCompat.Source

/-- The number of line ends in front of an index. -/
def lineAt (text : List Char) (i : Nat) : Nat :=
  (text.take i).count '\n'

def consumed (turns : List Segment) : List Char :=
  turns.flatMap Segment.text

def emitted (turns : List Segment) : List Char :=
  turns.flatMap Segment.kept

/-- What a turn does to its segment: no line end is lost, and a comment gets shorter. -/
structure Segment.Settled (segment : Segment) : Prop where
  lines : segment.kept.count '\n' = segment.text.count '\n'
  shorter : segment.isComment = true → segment.kept.length < segment.text.length

theorem Segment.kept_eq_text {segment : Segment} (noComment : segment.isComment = false) :
    segment.kept = segment.text := by
  cases segment with
  | code | literal => rfl
  | lineComment | blockComment => cases noComment

theorem Segment.settled_of_noComment {segment : Segment} (noComment : segment.isComment = false) :
    segment.Settled where
  lines := by rw [Segment.kept_eq_text noComment]
  shorter := by simp [noComment]

theorem Segment.settled_lineComment {text : List Char} (oneLine : '\n' ∉ text) :
    (Segment.lineComment ('/' :: '/' :: text)).Settled where
  lines := by
    have none : text.count '\n' = 0 := List.count_eq_zero.mpr oneLine
    simp [Segment.kept, Segment.text, none]
  shorter := by simp [Segment.kept, Segment.text]

theorem Segment.settled_blockComment (text : List Char) (closed : Bool) :
    (Segment.blockComment ('/' :: '*' :: text) closed).Settled where
  lines := by simp [Segment.kept, Segment.text, List.count_filter]
  shorter := by
    intro _
    have marks : ('/' :: '*' :: text).filter (· = '\n') = text.filter (· = '\n') := by simp
    have fewer := List.length_filter_le (· = '\n') text
    simp only [Segment.kept, Segment.text, marks, List.length_cons]
    omega

theorem settled_of_beginsComment {c : Char} {rest : List Char} (begins : BeginsComment c rest) :
    (headSegment c rest).Settled := by
  obtain ⟨rfl, second | star⟩ := begins
  · obtain ⟨tail, rfl⟩ := List.head?_eq_some_iff.mp second
    have oneLine : '\n' ∉ tail.takeWhile (· ≠ '\n') := fun member => by
      have other := List.all_eq_true.mp List.all_takeWhile _ member
      simp at other
    have segment : headSegment '/' ('/' :: tail) =
        .lineComment ('/' :: '/' :: tail.takeWhile (· ≠ '\n')) := by
      rw [headSegment, if_neg (by decide), if_pos (by simp)]
      rfl
    rw [segment]
    exact Segment.settled_lineComment oneLine
  · obtain ⟨tail, rfl⟩ := List.head?_eq_some_iff.mp star
    rw [headSegment, if_neg (by decide), if_neg (by simp), if_pos (by simp)]
    cases found : blockCommentLength? ('/' :: '*' :: tail) with
    | none => exact Segment.settled_blockComment tail false
    | some n =>
      obtain ⟨_, behind, split, rfl, ⟨inside⟩⟩ := blockCommentLength?_eq_some.mp found
      dsimp only
      rw [split, List.take_left]
      exact Segment.settled_blockComment _ true

theorem settled_headSegment (c : Char) (rest : List Char) : (headSegment c rest).Settled := by
  rcases headSegment_cases c rest with ⟨-, literal⟩ | ⟨begins, -⟩ | ⟨-, -, code⟩
  · rw [literal]
    exact Segment.settled_of_noComment rfl
  · exact settled_of_beginsComment begins
  · rw [code]
    exact Segment.settled_of_noComment rfl

theorem settled_of_mem {text : List Char} {segment : Segment} (member : segment ∈ segments text) :
    segment.Settled := by
  fun_induction segments text with
  | case1 => cases member
  | case2 c rest head ih =>
    rcases List.mem_cons.mp member with rfl | later
    · exact settled_headSegment c rest
    · exact ih later

theorem consumed_cons (segment : Segment) (turns : List Segment) :
    consumed (segment :: turns) = segment.text ++ consumed turns := rfl

theorem emitted_cons (segment : Segment) (turns : List Segment) :
    emitted (segment :: turns) = segment.kept ++ emitted turns := rfl

theorem consumed_append (first second : List Segment) :
    consumed (first ++ second) = consumed first ++ consumed second :=
  List.flatMap_append

theorem emitted_append (first second : List Segment) :
    emitted (first ++ second) = emitted first ++ emitted second :=
  List.flatMap_append

theorem lines_emitted {turns : List Segment} (settled : ∀ segment ∈ turns, segment.Settled) :
    (emitted turns).count '\n' = (consumed turns).count '\n' := by
  induction turns with
  | nil => rfl
  | cons segment turns ih =>
    obtain ⟨first, later⟩ := List.forall_mem_cons.mp settled
    rw [emitted_cons, consumed_cons, List.count_append, List.count_append, first.lines, ih later]

theorem length_emitted {turns : List Segment} (settled : ∀ segment ∈ turns, segment.Settled) :
    (emitted turns).length ≤ (consumed turns).length ∧
      ((emitted turns).length = (consumed turns).length ↔
        ∀ segment ∈ turns, segment.isComment = false) := by
  induction turns with
  | nil => simp [emitted, consumed]
  | cons segment turns ih =>
    obtain ⟨first, later⟩ := List.forall_mem_cons.mp settled
    obtain ⟨bound, same⟩ := ih later
    rw [emitted_cons, consumed_cons, List.length_append, List.length_append,
      List.forall_mem_cons, ← same]
    by_cases noComment : segment.isComment = false
    · rw [Segment.kept_eq_text noComment]
      refine ⟨by omega, ?_⟩
      constructor
      · exact fun whole => ⟨noComment, by omega⟩
      · exact fun parts => by omega
    · have shorter := first.shorter (by simpa using noComment)
      refine ⟨by omega, ?_⟩
      constructor
      · exact fun whole => by omega
      · exact fun parts => absurd parts.1 noComment

theorem lineAt_inside {before segment behind : List Char} {k : Nat} (inside : k ≤ segment.length) :
    lineAt (before ++ (segment ++ behind)) (before.length + k) =
      before.count '\n' + lineAt segment k := by
  rw [lineAt, List.take_length_add_append, List.take_append_of_le_length inside,
    List.count_append]
  rfl

theorem getElem?_inside {before segment behind : List Char} {k : Nat}
    (inside : k < segment.length) :
    (before ++ (segment ++ behind))[before.length + k]? = segment[k]? := by
  rw [List.getElem?_append_right (Nat.le_add_right _ _), Nat.add_sub_cancel_left,
    List.getElem?_append_left inside]

/-- After each turn of the loop the output holds as many line ends as the input that is consumed.
So does the whole, and every character of code or of a literal stands on the line where it stood.
The output is no longer than the input, and as long only where there is no comment. -/
theorem lines_preserved (text : List Char) :
    (∀ turns rest, segments text = turns ++ rest →
      consumed turns <+: text ∧ emitted turns <+: stripComments text ∧
        (emitted turns).count '\n' = (consumed turns).count '\n') ∧
    (∀ turns segment rest, segments text = turns ++ segment :: rest → segment.isComment = false →
      ∀ k < segment.text.length,
        let i := (consumed turns).length + k
        let j := (emitted turns).length + k
        text[i]? = segment.text[k]? ∧ (stripComments text)[j]? = segment.text[k]? ∧
          lineAt (stripComments text) j = lineAt text i) ∧
    (stripComments text).count '\n' = text.count '\n' ∧
    (stripComments text).length ≤ text.length ∧
    ((stripComments text).length = text.length ↔
      ∀ segment ∈ segments text, segment.isComment = false) := by
  have whole : consumed (segments text) = text := flatMap_text_segments text
  have all : ∀ segment ∈ segments text, segment.Settled := fun _ => settled_of_mem
  have front {turns rest : List Segment} (split : segments text = turns ++ rest) :
      (emitted turns).count '\n' = (consumed turns).count '\n' := by
    apply lines_emitted
    intro segment member
    apply all
    rw [split]
    exact List.mem_append_left rest member
  have lines := lines_emitted all
  have lengths := length_emitted all
  rw [whole] at lines lengths
  refine ⟨?_, ?_, lines, lengths⟩
  · intro turns rest split
    refine ⟨⟨consumed rest, ?_⟩, ⟨emitted rest, ?_⟩, front split⟩
    · rw [← consumed_append, ← split, whole]
    · rw [← emitted_append, ← split]
      rfl
  · intro turns segment rest split noComment k inside i j
    have input : consumed turns ++ (segment.text ++ consumed rest) = text := by
      rw [← consumed_cons, ← consumed_append, ← split, whole]
    have output : emitted turns ++ (segment.text ++ emitted rest) = stripComments text := by
      rw [← Segment.kept_eq_text noComment, ← emitted_cons, ← emitted_append, ← split]
      rfl
    refine ⟨?_, ?_, ?_⟩
    · rw [← input]
      exact getElem?_inside inside
    · rw [← output]
      exact getElem?_inside inside
    · rw [← output, lineAt_inside (Nat.le_of_lt inside), front split,
        ← lineAt_inside (Nat.le_of_lt inside), input]

end RecordCompat.Source
