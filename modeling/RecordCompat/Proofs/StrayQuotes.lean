import RecordCompat.Proofs.StrippedText

/-! Quotation marks that are never closed. In a text without escapes, templates, raw literals and
block comments nothing reaches over the end of a line: a literal that does not meet its mark stops
in front of the line end. So in front of a line end such a text is read as it is read alone,
whatever comes behind it. -/
namespace RecordCompat.Source

/-- A text in which nothing opens that can reach over the end of a line. -/
structure LineBound (text : List Char) : Prop where
  noBlock : ¬ ['/', '*'] <:+: text
  noRaw : ¬ ['"', '"', '"'] <:+: text
  noTemplate : ¬ ['$', '{'] <:+: text
  noEscape : '\\' ∉ text

theorem LineBound.of_suffix {text rest : List Char} (bound : LineBound text)
    (part : rest <:+ text) : LineBound rest where
  noBlock inside := bound.noBlock (inside.trans part.isInfix)
  noRaw inside := bound.noRaw (inside.trans part.isInfix)
  noTemplate inside := bound.noTemplate (inside.trans part.isInfix)
  noEscape inside := bound.noEscape (part.mem inside)

theorem prefix_append_line (n : Nat) {mark : Char} (other : mark ≠ '\n') (text more : List Char) :
    List.replicate n mark <+: text ++ '\n' :: more ↔ List.replicate n mark <+: text := by
  apply run_prefix_append
  intro same
  exact other (Option.some.inj same).symm

/-- A single-line literal is left or goes on. It does not go on in a template. -/
theorem LineBound.advance_cases {c : Char} {rest : List Char} (bound : LineBound (c :: rest))
    (mark : Char) (more : List Char) :
    let step := (Frame.line mark).advance [] c (rest ++ '\n' :: more)
    step = none ∨ step = some (0, []) ∨ step = some (0, [.line mark]) := by
  have noEscape : c ≠ '\\' := by
    rintro rfl
    exact bound.noEscape List.mem_cons_self
  have noTemplate : ¬ (mark = '"' ∧ c = '$' ∧ ['{'] <+: rest ++ '\n' :: more) := by
    rintro ⟨-, rfl, brace⟩
    have inside : ['{'] <+: rest :=
      (prefix_append_line 1 (by decide) rest more).mp brace
    have opens : ['$', '{'] <+: '$' :: rest := List.cons_prefix_cons.mpr ⟨rfl, inside⟩
    exact bound.noTemplate opens.isInfix
  intro step
  simp only [step, Frame.advance, if_neg noEscape, if_neg noTemplate, if_true]
  by_cases closes : c = mark
  · exact .inr (.inl (if_pos closes))
  · rw [if_neg closes]
    by_cases feed : c = '\n'
    · exact .inl (if_pos feed)
    · exact .inr (.inr (if_neg feed))

theorem LineBound.scan_le {text : List Char} (bound : LineBound text) {mark : Char}
    (other : mark ≠ '\n') (more : List Char) :
    scan 0 [.line mark] (text ++ '\n' :: more) ≤ text.length := by
  induction text with
  | nil =>
    have stops : (Frame.line mark).advance [] '\n' more = none :=
      advance_eq_none.mpr ⟨mark, rfl, rfl, other, rfl⟩
    simp [scan, stops]
  | cons c rest ih =>
    have later := ih (bound.of_suffix (List.suffix_cons c rest))
    have closed : scan 0 [] (rest ++ '\n' :: more) = 0 := by cases rest <;> rfl
    rw [List.cons_append, List.length_cons, scan]
    rcases bound.advance_cases mark more with step | step | step <;> simp only [step]
    all_goals omega

/-- A literal is as long in front of a line end as it is alone. -/
theorem LineBound.literalLength_append {c : Char} {rest : List Char} (bound : LineBound (c :: rest))
    (opens : opensLiteral c = true) (more : List Char) :
    literalLength (c :: rest ++ '\n' :: more) = literalLength (c :: rest) := by
  have other : c ≠ '\n' := by
    rintro rfl
    exact absurd opens (by decide)
  have plain : ¬ ['"', '"', '"'] <+: c :: rest ++ '\n' :: more := by
    intro marks
    have inside : ['"', '"', '"'] <+: c :: rest :=
      (prefix_append_line 3 (by decide) (c :: rest) more).mp marks
    exact bound.noRaw inside.isInfix
  have within : literalLength (c :: rest ++ '\n' :: more) ≤ (c :: rest).length := by
    have inside := (bound.of_suffix (List.suffix_cons c rest)).scan_le other more
    rw [List.cons_append] at plain ⊢
    rw [literalLength_line plain, List.length_cons]
    omega
  have cut := literalLength_take (c :: rest ++ '\n' :: more) (c :: rest).length
  rw [List.take_left] at cut
  omega

theorem takeWhile_line (text more : List Char) :
    (text ++ '\n' :: more).takeWhile (· ≠ '\n') = text.takeWhile (· ≠ '\n') := by
  induction text with
  | nil => rfl
  | cons c rest ih => rw [List.cons_append, List.takeWhile_cons, List.takeWhile_cons, ih]

theorem LineBound.headSegment_append {c : Char} {rest : List Char} (bound : LineBound (c :: rest))
    (more : List Char) : headSegment c (rest ++ '\n' :: more) = headSegment c rest := by
  have second (d : Char) (other : d ≠ '\n') : [d] <+: rest ++ '\n' :: more ↔ [d] <+: rest :=
    prefix_append_line 1 other rest more
  have noBlock : ¬ (c = '/' ∧ ['*'] <+: rest) := by
    rintro ⟨rfl, star⟩
    have opens : ['/', '*'] <+: '/' :: rest := List.cons_prefix_cons.mpr ⟨rfl, star⟩
    exact bound.noBlock opens.isInfix
  unfold headSegment
  by_cases opens : opensLiteral c = true
  · have length := bound.literalLength_append opens more
    rw [List.cons_append] at length
    rw [if_pos opens, if_pos opens, length, ← List.cons_append,
      List.take_append_of_le_length (literalLength_le _)]
  · simp only [if_neg opens, second '/' (by decide), second '*' (by decide), if_neg noBlock,
      takeWhile_line]

theorem drop_headSegment (c : Char) (rest more : List Char) :
    (rest ++ more).drop ((headSegment c rest).text.length - 1) =
      rest.drop ((headSegment c rest).text.length - 1) ++ more := by
  obtain ⟨n, text⟩ := headSegment_text c rest
  apply List.drop_append_of_le_length
  rw [text, List.length_cons, List.length_take]
  omega

theorem LineBound.segments_append {text : List Char} (bound : LineBound text) (more : List Char) :
    segments (text ++ '\n' :: more) = segments text ++ .code '\n' :: segments more := by
  fun_induction segments text with
  | case1 => exact segments_code (by decide) fun begins => absurd begins.1 (by decide)
  | case2 c rest segment ih =>
    have later := ih (bound.of_suffix ((List.drop_suffix _ rest).trans (List.suffix_cons c rest)))
    rw [List.cons_append, segments, bound.headSegment_append, drop_headSegment, later]
    rfl

/-- What is not closed on its line ends with it. In front of a line end a text without escapes,
templates, raw literals and block comments is read as it is alone, and so is what comes behind
it. -/
theorem contained_in_line {text : List Char} (bound : LineBound text) (more : List Char) :
    segments (text ++ ['\n'] ++ more) = segments text ++ [.code '\n'] ++ segments more ∧
      stripComments (text ++ ['\n'] ++ more) =
        stripComments text ++ ['\n'] ++ stripComments more := by
  have divided := bound.segments_append more
  rw [List.append_cons, List.append_cons (segments text)] at divided
  refine ⟨divided, ?_⟩
  rw [stripComments, divided, List.flatMap_append, List.flatMap_append]
  rfl

/-- A mark in a comment, two that stay open, and a comment behind them that holds a third. -/
theorem contained_in_line_of_apostrophe :
    let text := "val a = 'x // it's\nval b = \"/ // c".toList
    let more := "/* \" */ val c = '\"'".toList
    LineBound text ∧
      segments (text ++ ['\n'] ++ more) = segments text ++ [.code '\n'] ++ segments more ∧
      stripComments (text ++ ['\n'] ++ more) =
        stripComments text ++ ['\n'] ++ stripComments more := by
  intro text more
  have bound : LineBound text := by
    constructor <;> decide +kernel
  exact ⟨bound, contained_in_line bound more⟩

end RecordCompat.Source
