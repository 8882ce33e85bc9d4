import RecordCompat.Proofs.BlockComments
import RecordCompat.Proofs.IndexReaders
import RecordCompat.Proofs.ListScans

/-! The readers by index end where the definitions on lists say, and never ask for a literal where
there is no character. Each of them is followed turn by turn: what is left of the text gets shorter,
a literal and a comment being passed in one turn. -/
namespace RecordCompat.Source

section Turns

variable {text rest : List Char} {i : Nat} {c : Char}

theorem elim_closing (n? : Option Nat) (k : Nat) :
    (n?.map (· + k)).elim text.length (i + ·) = n?.elim text.length (i + k + ·) := by
  cases n? with
  | none => rfl
  | some n => exact (Nat.add_assoc i n k).symm.trans (Nat.add_right_comm i n k)

/-- Inside `outer` further comments the reader has one more to close. -/
theorem ends_closing {outer : Nat} {depth : Int} (inside : depth = outer + 1) (i : Nat) :
    Ends text (commentFrom text · depth i)
      ((closingLength? outer (text.drop i)).elim text.length (i + ·)) := by
  induction i using index_induction text generalizing outer depth with
  | done i ends =>
    refine .turn ?_
    simp only [commentFrom, getElem?_of_drop_eq_nil ends, ends]
    exact .pure _
  | turn i c rest present later =>
    refine .turn ?_
    simp only [commentFrom, getElem?_of_drop present]
    split_ifs with opens closes last
    · obtain ⟨tail, present⟩ := exists_of_pair_prefix opens
      have inner := @later (i + 2) (by omega) (outer + 1) (depth + 1) (by omega)
      rw [drop_add_two present] at inner
      rwa [present, closingLength?, elim_closing]
    · obtain ⟨tail, present⟩ := exists_of_pair_prefix closes
      obtain rfl : outer = 0 := by omega
      rw [present]
      exact .pure _
    · obtain ⟨tail, present⟩ := exists_of_pair_prefix closes
      obtain ⟨outer, rfl⟩ : ∃ n, outer = n + 1 := ⟨outer - 1, by omega⟩
      have behind := @later (i + 2) (by omega) outer (depth - 1) (by omega)
      rw [drop_add_two present] at behind
      rwa [present, closingLength?, elim_closing]
    · have behind := later (i + 1) (by omega) inside
      rw [drop_succ_of_drop present] at behind
      rw [present] at opens closes ⊢
      rw [closingLength?, elim_closing]
      · exact behind
      · rintro tail rfl rfl
        exact opens ⟨tail, rfl⟩
      · rintro tail rfl rfl
        exact closes ⟨tail, rfl⟩

theorem blockCommentEnd_eq (present : text.drop i = '/' :: '*' :: rest) :
    blockCommentEnd text i = (closingLength? 0 rest).elim text.length (i + 2 + ·) := by
  rw [← elim_closing, blockCommentEnd, present, blockCommentLength?]
  cases (closingLength? 0 rest).map (· + 2) <;> rfl

theorem ends_comment (opens : ['/', '*'] <+: text.drop i) :
    Ends text (commentFrom text · 0 i) (blockCommentEnd text i) := by
  obtain ⟨rest, present⟩ := exists_of_pair_prefix opens
  have inner := @ends_closing text 0 1 (by omega) (i + 2)
  rw [drop_add_two present] at inner
  rw [blockCommentEnd_eq present]
  refine .turn ?_
  simp only [commentFrom, getElem?_of_drop present, if_pos opens]
  exact inner

theorem closingLength?_le {outer n : Nat} {text : List Char}
    (found : closingLength? outer text = some n) : n ≤ text.length := by
  obtain ⟨front, behind, rfl, rfl, -⟩ := closings_of_closingLength? found
  rw [List.length_append]
  exact Nat.le_add_right _ _

theorem blockCommentEnd_bounds (opens : ['/', '*'] <+: text.drop i) :
    i + 2 ≤ blockCommentEnd text i ∧ blockCommentEnd text i ≤ text.length := by
  obtain ⟨rest, present⟩ := exists_of_pair_prefix opens
  have length := congrArg List.length present
  rw [List.length_drop, List.length_cons, List.length_cons] at length
  rw [blockCommentEnd_eq present]
  cases found : closingLength? 0 rest with
  | none => exact ⟨by rw [Option.elim_none]; omega, Nat.le_refl _⟩
  | some n =>
    have := closingLength?_le found
    rw [Option.elim_some]
    omega

theorem stripComments_drop (present : text.drop i = c :: rest) :
    stripComments (text.drop i) = (headSegment c rest).kept ++
      stripComments (text.drop (i + (headSegment c rest).text.length)) := by
  obtain ⟨n, segment⟩ := headSegment_text c rest
  have length : i + (headSegment c rest).text.length =
      i + 1 + ((headSegment c rest).text.length - 1) := by
    rw [segment, List.length_cons]
    omega
  rw [length, ← List.drop_drop, drop_succ_of_drop present, present, stripComments_cons]

theorem extract_add (text : List Char) (i n : Nat) :
    text.extract i (i + n) = (text.drop i).take n := by
  rw [List.extract_eq_take_drop, Nat.add_sub_cancel_left]

theorem headSegment_mark (present : text.drop i = c :: rest) (opens : opensLiteral c = true) :
    headSegment c rest = .literal (text.extract i (i + literalLength (text.drop i))) := by
  rw [headSegment, if_pos opens, extract_add, present]

theorem headSegment_line (present : text.drop i = c :: rest) (opens : ['/', '/'] <+: text.drop i) :
    headSegment c rest = .lineComment ((text.drop i).takeWhile (· ≠ '\n')) := by
  obtain ⟨tail, slashes⟩ := exists_of_pair_prefix opens
  obtain ⟨rfl, rfl⟩ := List.cons.inj (present.symm.trans slashes)
  rw [headSegment, if_neg (by decide), if_pos (by simp), present]
  rfl

theorem headSegment_comment (present : text.drop i = c :: rest)
    (opens : ['/', '*'] <+: text.drop i) :
    ∃ closed, headSegment c rest =
      .blockComment (text.extract i (blockCommentEnd text i)) closed := by
  obtain ⟨tail, marks⟩ := exists_of_pair_prefix opens
  obtain ⟨rfl, rfl⟩ := List.cons.inj (present.symm.trans marks)
  rw [headSegment, if_neg (by decide), if_neg (by simp), if_pos (by simp), blockCommentEnd, present]
  cases found : blockCommentLength? ('/' :: '*' :: tail) with
  | some n =>
    dsimp only
    rw [extract_add, present]
    exact ⟨true, rfl⟩
  | none =>
    dsimp only
    rw [List.extract_eq_take_drop, present, ← List.length_drop, present, List.take_length]
    exact ⟨false, rfl⟩

theorem length_extract_of_le {stop : Nat} (within : stop ≤ text.length) (behind : i ≤ stop) :
    i + (text.extract i stop).length = stop := by
  rw [List.extract_eq_take_drop, List.length_take, List.length_drop]
  omega

theorem headSegment_code (present : text.drop i = c :: rest) (plain : ¬ opensLiteral c = true)
    (noLine : ¬ ['/', '/'] <+: text.drop i) (noBlock : ¬ ['/', '*'] <+: text.drop i) :
    headSegment c rest = .code c := by
  rw [present, List.cons_prefix_cons, @eq_comm _ '/'] at noLine noBlock
  rw [headSegment, if_neg plain, if_neg noLine, if_neg noBlock]

theorem ends_stripped (i : Nat) :
    Ends text (strippedFrom text · i) (stripComments (text.drop i)) := by
  induction i using index_induction text with
  | done i ends =>
    refine .turn ?_
    simp only [strippedFrom, getElem?_of_drop_eq_nil ends, ends, stripComments_nil]
    exact .pure _
  | turn i c rest present later =>
    have inside := lt_of_drop present
    rw [stripComments_drop present]
    refine .turn ?_
    simp only [strippedFrom, getElem?_of_drop present]
    split_ifs with opens line block
    · obtain ⟨behind, within⟩ := literalStop_bounds inside
      rw [headSegment_mark present opens]
      simp only [Segment.kept, Segment.text]
      rw [length_extract_of_le within (Nat.le_of_lt behind)]
      exact (ends_literal inside).bind ((later _ behind).bind (.pure _))
    · rw [headSegment_line present line]
      have some : 0 < ((text.drop i).takeWhile (· ≠ '\n')).length := by
        obtain ⟨tail, slashes⟩ := exists_of_pair_prefix line
        rw [slashes]
        exact Nat.succ_pos _
      exact (later _ (Nat.lt_add_of_pos_right some)).bind (.pure _)
    · obtain ⟨closed, segment⟩ := headSegment_comment present block
      have bounds := blockCommentEnd_bounds block
      rw [segment]
      simp only [Segment.kept, Segment.text]
      rw [length_extract_of_le bounds.2 (by omega)]
      exact (ends_comment block).bind ((later _ (by omega)).bind (.pure _))
    · rw [headSegment_code present opens line block]
      exact (later (i + 1) (by omega)).bind (.pure _)

theorem lexemes_drop_literal (present : text.drop i = c :: rest) (opens : opensLiteral c = true) :
    lexemes (text.drop i) =
      .literal (text.extract i (i + literalLength (text.drop i))) ::
        lexemes (text.drop (i + literalLength (text.drop i))) := by
  obtain ⟨n, length⟩ := Nat.exists_eq_add_one.mpr (literalLength_pos c rest)
  rw [extract_add, ← List.drop_drop, present, lexemes, if_pos opens]
  simp [length]

theorem lexemes_drop_char (present : text.drop i = c :: rest) (plain : ¬ opensLiteral c = true) :
    lexemes (text.drop i) = .char c :: lexemes (text.drop (i + 1)) := by
  rw [drop_succ_of_drop present, present, lexemes, if_neg plain]

theorem search_behind {x : Lexeme} {code : List Lexeme} {depth weight : Int} (index : Nat)
    (passed : ¬ (x.closes = true ∧ depth = 1)) (weighs : x.weight = weight) :
    (search index depth (x :: code)).2 =
      (search (index + x.text.length) (depth + weight) code).2 := by
  rw [search, if_neg passed, weighs]

theorem ends_list (depth : Int) (i : Nat) :
    Ends text (listFrom text · depth i) (search i depth (lexemes (text.drop i))).2 := by
  induction i using index_induction text generalizing depth with
  | done i ends =>
    refine .turn ?_
    simp only [listFrom, getElem?_of_drop_eq_nil ends, ends, lexemes]
    exact .pure _
  | turn i c rest present later =>
    have inside := lt_of_drop present
    refine .turn ?_
    simp only [listFrom, getElem?_of_drop present]
    split_ifs with opens opening closing last
    · obtain ⟨behind, within⟩ := literalStop_bounds inside
      have weight (literal : List Char) : (Lexeme.literal literal).weight = 0 := rfl
      rw [lexemes_drop_literal present opens, search_behind i (by simp [Lexeme.closes]) (weight _),
        Lexeme.text, length_extract_of_le within (Nat.le_of_lt behind), Int.add_zero]
      exact (ends_literal inside).bind (later _ behind _)
    · have weight : (Lexeme.char c).weight = 1 := if_pos opening
      have passed : ¬ ((Lexeme.char c).closes = true ∧ depth = 1) := fun last => by
        rw [not_opens_of_closes last.1] at opening
        cases opening
      rw [lexemes_drop_char present opens, search_behind i passed weight]
      exact later (i + 1) (by omega) _
    · rw [lexemes_drop_char present opens, search, if_pos ⟨closing, by omega⟩]
      exact .pure _
    · have weight : (Lexeme.char c).weight = -1 := by
        rw [Lexeme.weight, if_neg opening, if_pos closing]
      rw [lexemes_drop_char present opens, search_behind i (by omega) weight]
      exact later (i + 1) (by omega) _
    · have weight : (Lexeme.char c).weight = 0 := by
        rw [Lexeme.weight, if_neg opening, if_neg closing]
      rw [lexemes_drop_char present opens, search_behind i (fun last => closing last.1) weight,
        Int.add_zero]
      exact later (i + 1) (by omega) _

theorem ends_pieces (nesting : Nesting) (i : Nat) :
    Ends text (piecesFrom text · nesting i) (pieces nesting (lexemes (text.drop i))) := by
  induction i using index_induction text generalizing nesting with
  | done i ends =>
    refine .turn ?_
    simp only [piecesFrom, getElem?_of_drop_eq_nil ends, ends, lexemes]
    exact .pure _
  | turn i c rest present later =>
    have inside := lt_of_drop present
    refine .turn ?_
    simp only [piecesFrom, getElem?_of_drop present]
    split_ifs with opens cuts
    · have behind := (literalStop_bounds inside).1
      rw [lexemes_drop_literal present opens, pieces]
      exact (ends_literal inside).bind ((later _ behind _).bind (.pure _))
    · rw [lexemes_drop_char present opens, pieces, if_pos cuts]
      exact (later (i + 1) (by omega) _).bind (.pure _)
    · rw [lexemes_drop_char present opens, pieces, if_neg cuts]
      exact (later (i + 1) (by omega) _).bind (.pure _)

theorem ends_parameters : Ends text (parametersFrom text) (parameters text) :=
  (ends_pieces .outside 0).bind (.pure _)

end Turns

/-- The readers end, behind where they began and not behind the end of the text, with what the
definitions on lists say. The end of a literal is asked for only where the text has a character, by
whichever of them and however deep inside a literal; where it has none, the question fails. -/
theorem readers_progress (text : List Char) :
    (∀ start < text.length, ∃ stop, literalEnd? text start = some stop ∧
      Ends text (literalFrom text · start) stop ∧ start < stop ∧ stop ≤ text.length) ∧
    (∀ start ≤ text.length, ∃ stop, start + templateLength (text.drop start) = stop ∧
      Ends text (templateFrom text · 1 start) stop ∧ start ≤ stop ∧ stop ≤ text.length) ∧
    (∀ start, ['/', '*'] <+: text.drop start → ∃ stop, blockCommentEnd text start = stop ∧
      Ends text (commentFrom text · 0 start) stop ∧ start + 2 ≤ stop ∧ stop ≤ text.length) ∧
    Ends text (strippedFrom text · 0) (stripComments text) ∧
    (∀ start, Ends text (listFrom text · 1 start) (listEnd? text start)) ∧
    Ends text (parametersFrom text) (parameters text) ∧
    ∀ start, (Fails (literalFrom text · start) start ↔ text.length ≤ start) ∧
      (literalEnd? text start = none ↔ text.length ≤ start) := by
  refine ⟨?_, ?_, ?_, ends_stripped 0, ?_, ends_parameters, ?_⟩
  · intro start inside
    exact ⟨_, if_pos inside, ends_literal inside, literalStop_bounds inside⟩
  · intro start within
    have ends : Ends text (templateFrom text · 1 start) (scanStop [.braces] text start) :=
      (partsEnd text start).template 0
    exact ⟨_, (scanStop_of_le within).symm, ends, le_scanStop within, scanStop_le _ _ _⟩
  · intro start opens
    exact ⟨_, rfl, ends_comment opens, blockCommentEnd_bounds opens⟩
  · intro start
    rw [← search_listEnd]
    exact ends_list 1 start
  · intro start
    constructor
    · refine ⟨fun fails => ?_, fails_literal⟩
      by_contra inside
      exact (ends_literal (Nat.lt_of_not_le inside)).not_fails start fails
    · rw [literalEnd?]
      split <;> simp <;> omega

/-- A template and a literal in it that an escape at the end of the text leaves open, behind the
mark of a comment. -/
theorem readers_progress_at_escape :
    let text := "/*\"$\x7b'\\".toList
    (2 < text.length ∧ 7 ≤ text.length ∧ ['/', '*'] <+: text.drop 0) ∧
      (∃ stop, literalEnd? text 2 = some stop ∧ Ends text (literalFrom text · 2) stop ∧
        2 < stop ∧ stop ≤ text.length) ∧
      (∃ stop, 7 + templateLength (text.drop 7) = stop ∧ Ends text (templateFrom text · 1 7) stop ∧
        7 ≤ stop ∧ stop ≤ text.length) ∧
      ∃ stop, blockCommentEnd text 0 = stop ∧ Ends text (commentFrom text · 0 0) stop ∧
        0 + 2 ≤ stop ∧ stop ≤ text.length := by
  intro text
  have inside : 2 < text.length := by decide
  have within : 7 ≤ text.length := by decide
  have opens : ['/', '*'] <+: text.drop 0 := by decide
  obtain ⟨literals, templates, comments, -⟩ := readers_progress text
  exact ⟨⟨inside, within, opens⟩, literals 2 inside, templates 7 within, comments 0 opens⟩

end RecordCompat.Source
