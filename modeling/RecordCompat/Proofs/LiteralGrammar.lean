import RecordCompat.Proofs.Literals

/-! The grammar of literals, and their measure. A template holds code, code holds literals and a
literal holds templates, so the grammar is one relation over its parts. The scan keeps a stack of
frames; a part is read in its own frame, whatever frames are around it, and leaves them as they
were. -/
namespace RecordCompat.Source

/-- The parts of a literal: the whole, what stands between the marks of a single-line literal or
of a raw one, and the code in a template. -/
inductive LiteralPart
  | whole
  | line (mark : Char)
  | raw
  | code
  deriving DecidableEq

/-- Literals that end what they begin. A raw literal may end in more than three marks; what stands
in front of them has no three in a row outside templates and none at its end. -/
inductive LiteralText : LiteralPart → List Char → Prop
  | single {mark : Char} {items : List Char} : opensLiteral mark = true →
      LiteralText (.line mark) items → LiteralText .whole (mark :: items ++ [mark])
  | tripled {content : List Char} (n : Nat) : LiteralText .raw content →
      content.getLast? ≠ some '"' →
      LiteralText .whole ('"' :: '"' :: '"' :: content ++ List.replicate (n + 3) '"')
  | lineEnd {mark : Char} : LiteralText (.line mark) []
  | escape {mark c : Char} {rest : List Char} : LiteralText (.line mark) rest →
      LiteralText (.line mark) ('\\' :: c :: rest)
  | lineChar {mark c : Char} {rest : List Char} : c ∉ [mark, '\\', '\n'] →
      (mark = '"' → ¬ ['$', '{'] <+: c :: rest) → LiteralText (.line mark) rest →
      LiteralText (.line mark) (c :: rest)
  | lineTemplate {code rest : List Char} : LiteralText .code code →
      LiteralText (.line '"') rest → LiteralText (.line '"') ('$' :: '{' :: code ++ '}' :: rest)
  | rawEnd : LiteralText .raw []
  | rawChar {c : Char} {rest : List Char} : ¬ ['"', '"', '"'] <+: c :: rest →
      ¬ ['$', '{'] <+: c :: rest → LiteralText .raw rest → LiteralText .raw (c :: rest)
  | rawTemplate {code rest : List Char} : LiteralText .code code → LiteralText .raw rest →
      LiteralText .raw ('$' :: '{' :: code ++ '}' :: rest)
  | codeEnd : LiteralText .code []
  | codeChar {c : Char} {rest : List Char} : c ∉ ['"', '\'', '{', '}'] → LiteralText .code rest →
      LiteralText .code (c :: rest)
  | group {code rest : List Char} : LiteralText .code code → LiteralText .code rest →
      LiteralText .code ('{' :: code ++ '}' :: rest)
  | literal {literal rest : List Char} : LiteralText .whole literal →
      (literal.head? = some '"' → rest.head? ≠ some '"') → LiteralText .code rest →
      LiteralText .code (literal ++ rest)

/-- Reading `text`, which `more` follows, leads from one stack of frames to another. -/
def Reads (before : List Frame) (text : List Char) (behind : List Frame) (more : List Char) :
    Prop :=
  scan 0 before (text ++ more) = text.length + scan 0 behind more

theorem Reads.nil {frames : List Frame} {more : List Char} : Reads frames [] frames more := by
  simp [Reads]

theorem Reads.append {before between behind : List Frame} {first second more : List Char}
    (front : Reads before first between (second ++ more))
    (back : Reads between second behind more) : Reads before (first ++ second) behind more := by
  rw [Reads] at front back ⊢
  rw [List.append_assoc, front, back, List.length_append, Nat.add_assoc]

theorem Reads.scan {frame : Frame} {text more : List Char} (reads : Reads [frame] text [] more) :
    Source.scan 0 [frame] (text ++ more) = text.length := by
  have closed : Source.scan 0 [] more = 0 := by cases more <;> rfl
  rw [reads, closed, Nat.add_zero]

theorem scan_pending (pending : List Char) (frames : List Frame) (more : List Char) :
    scan pending.length frames (pending ++ more) = pending.length + scan 0 frames more := by
  induction pending with
  | nil => rw [List.nil_append, List.length_nil, Nat.zero_add]
  | cons c pending ih =>
    rw [List.cons_append, List.length_cons, scan, ih, Nat.add_left_comm, Nat.add_assoc]

theorem Reads.advance {frame : Frame} {outer behind : List Frame} {c : Char}
    {rest more : List Char}
    (turn : frame.advance outer c (rest ++ more) = some (rest.length, behind)) :
    Reads (frame :: outer) (c :: rest) behind more := by
  rw [Reads, List.cons_append, Source.scan, turn]
  dsimp only
  rw [scan_pending, List.length_cons]
  omega

section Steps

variable {outer : List Frame} {mark c : Char} {more : List Char}

theorem reads_escape : Reads (.line mark :: outer) ['\\', c] (.line mark :: outer) more :=
  .advance (by simp [Frame.advance])

theorem reads_lineChar (plain : c ∉ [mark, '\\', '\n'])
    (noTemplate : mark = '"' → ¬ ['$', '{'] <+: c :: more) :
    Reads (.line mark :: outer) [c] (.line mark :: outer) more := by
  simp only [List.mem_cons, List.not_mem_nil, or_false, not_or] at plain
  have noOpening : ¬ (mark = '"' ∧ c = '$' ∧ ['{'] <+: more) := by
    rintro ⟨double, rfl, brace⟩
    exact noTemplate double (List.cons_prefix_cons.mpr ⟨rfl, brace⟩)
  exact .advance (by simp [Frame.advance, plain, noOpening])

theorem reads_lineEnd (opens : opensLiteral mark = true) :
    Reads (.line mark :: outer) [mark] outer more := by
  have noEscape : mark ≠ '\\' := by
    rintro rfl
    cases opens
  exact .advance (by simp [Frame.advance, noEscape])

theorem reads_lineTemplate :
    Reads (.line '"' :: outer) ['$', '{'] (.braces :: .line '"' :: outer) more :=
  .advance (by simp [Frame.advance])

theorem reads_rawChar (noMarks : ¬ ['"', '"', '"'] <+: c :: more)
    (noTemplate : ¬ ['$', '{'] <+: c :: more) : Reads (.raw :: outer) [c] (.raw :: outer) more :=
  .advance (advance_rawChar noMarks noTemplate)

theorem reads_rawTemplate : Reads (.raw :: outer) ['$', '{'] (.braces :: .raw :: outer) more :=
  .advance (by simp [Frame.advance])

theorem reads_rawEnd (n : Nat) (apart : more.head? ≠ some '"') :
    Reads (.raw :: outer) (List.replicate (n + 3) '"') outer more := by
  induction n with
  | zero =>
    have noFourth : ¬ ['"'] <+: more := by
      rintro ⟨tail, rfl⟩
      exact apart rfl
    have noThree : ¬ ['"', '"', '"'] <+: '"' :: '"' :: more := by simpa using noFourth
    exact .advance (by simp [Frame.advance, noThree])
  | succ n ih =>
    -- Three more marks follow the first, which is content then.
    have three : ['"', '"', '"'] <+: List.replicate (n + 3) '"' ++ more := by
      simp [List.replicate_succ]
    have one : Reads (.raw :: outer) ['"'] (.raw :: outer) (List.replicate (n + 3) '"' ++ more) :=
      .advance (by simp [Frame.advance, three])
    exact one.append ih

theorem reads_codeChar (plain : c ∉ ['"', '\'', '{', '}']) :
    Reads (.braces :: outer) [c] (.braces :: outer) more := by
  simp only [List.mem_cons, List.not_mem_nil, or_false, not_or] at plain
  exact .advance (by simp [Frame.advance, plain])

theorem reads_openBrace : Reads (.braces :: outer) ['{'] (.braces :: .braces :: outer) more :=
  .advance (by simp [Frame.advance])

theorem reads_closeBrace : Reads (.braces :: outer) ['}'] outer more :=
  .advance (by simp [Frame.advance])

theorem reads_openLine (opens : opensLiteral mark = true)
    (plain : ¬ ['"', '"', '"'] <+: mark :: more) :
    Reads (.braces :: outer) [mark] (.line mark :: .braces :: outer) more := by
  have noTwo : ¬ (mark = '"' ∧ ['"', '"'] <+: more) := fun two =>
    plain (List.cons_prefix_cons.mpr ⟨two.1.symm, two.2⟩)
  have isMark : mark = '"' ∨ mark = '\'' := by simpa [opensLiteral] using opens
  exact .advance (by simp [Frame.advance, noTwo, isMark])

theorem reads_openRaw :
    Reads (.braces :: outer) ['"', '"', '"'] (.raw :: .braces :: outer) more :=
  .advance (by simp [Frame.advance])

end Steps

/-- A run of marks does not cross the end of a text that ends otherwise. -/
theorem run_prefix_of_append {mark : Char} {n : Nat} {text more : List Char} (nonempty : text ≠ [])
    (ends : text.getLast? ≠ some mark) (run : List.replicate n mark <+: text ++ more) :
    List.replicate n mark <+: text := by
  induction n generalizing text with
  | zero => exact List.nil_prefix
  | succ n ih =>
    obtain ⟨c, rest, rfl⟩ := List.exists_cons_of_ne_nil nonempty
    rw [List.replicate_succ, List.cons_append, List.cons_prefix_cons] at run
    obtain ⟨rfl, run⟩ := run
    have behind : rest ≠ [] := by
      rintro rfl
      exact ends rfl
    rw [List.getLast?_cons_of_ne_nil behind] at ends
    exact List.cons_prefix_cons.mpr ⟨rfl, ih behind ends run⟩

theorem template_prefix_append {c : Char} {rest more : List Char} (apart : more.head? ≠ some '{') :
    ['$', '{'] <+: c :: (rest ++ more) ↔ ['$', '{'] <+: c :: rest := by
  have brace : ['{'] <+: rest ++ more ↔ ['{'] <+: rest := @run_prefix_append _ 1 _ _ apart
  rw [List.cons_prefix_cons, List.cons_prefix_cons, brace]

theorem getLast?_ne_of_append {c : Char} {front rest : List Char}
    (ends : (front ++ rest).getLast? ≠ some c) : rest.getLast? ≠ some c := by
  intro last
  rw [List.getLast?_append, last] at ends
  exact ends rfl

theorem head?_ne_brace {mark : Char} (opens : opensLiteral mark = true) (more : List Char) :
    (mark :: more).head? ≠ some '{' := by
  intro head
  obtain rfl := Option.some.inj head
  cases opens

/-- A single-line literal in front of other text does not begin like a raw one. -/
theorem LiteralText.not_tripled {mark : Char} {items more : List Char}
    (isItems : LiteralText (.line mark) items) (apart : mark = '"' → more.head? ≠ some '"') :
    ¬ ['"', '"', '"'] <+: mark :: (items ++ mark :: more) := by
  rintro ⟨tail, same⟩
  obtain ⟨rfl, same⟩ := List.cons.inj same
  cases isItems with
  | lineEnd =>
    obtain ⟨-, rfl⟩ := List.cons.inj same
    exact apart rfl rfl
  | escape =>
    obtain ⟨other, -⟩ := List.cons.inj same
    exact absurd other (by decide)
  | lineChar plain =>
    obtain ⟨rfl, -⟩ := List.cons.inj same
    exact plain List.mem_cons_self
  | lineTemplate =>
    obtain ⟨other, -⟩ := List.cons.inj same
    exact absurd other (by decide)

def LiteralPart.frame : LiteralPart → Frame
  | .whole | .code => .braces
  | .line mark => .line mark
  | .raw => .raw

def LiteralPart.Apart : LiteralPart → List Char → List Char → Prop
  | .whole, text, more => text.head? = some '"' → more.head? ≠ some '"'
  | .line _, _, more => more.head? ≠ some '{'
  | .raw, text, more => text.getLast? ≠ some '"' ∧ more.head? ≠ some '{'
  | .code, _, more => more.head? ≠ some '"'

/-- A part is read in its frame, and the frames behind it are those in front of it. -/
theorem LiteralText.reads {part : LiteralPart} {text : List Char} (isPart : LiteralText part text)
    (outer : List Frame) {more : List Char} (apart : part.Apart text more) :
    Reads (part.frame :: outer) text (part.frame :: outer) more := by
  -- The frames around a part vary: the code of a template is read inside the frame that holds it.
  induction isPart generalizing outer more with
  | @single mark items opens isItems ih =>
    have noBrace := head?_ne_brace opens more
    have plain := isItems.not_tripled fun same => apart (congrArg some same)
    have items := (ih (.braces :: outer) noBrace).append (reads_lineEnd opens)
    exact (reads_openLine opens (by simpa using plain)).append items
  | @tripled content n isContent ends ih =>
    have noBrace : (List.replicate (n + 3) '"' ++ more).head? ≠ some '{' := by
      simp [List.replicate_succ]
    -- Marks at the end of the content would close the literal too soon.
    have content := (ih (.braces :: outer) ⟨ends, noBrace⟩).append (reads_rawEnd n (apart rfl))
    exact reads_openRaw.append content
  | lineEnd | rawEnd | codeEnd => exact .nil
  | escape _ ih => exact reads_escape.append (ih outer apart)
  | lineChar plain noTemplate _ ih =>
    have noTemplate' := fun same => mt (template_prefix_append apart).mp (noTemplate same)
    exact (reads_lineChar plain noTemplate').append (ih outer apart)
  | lineTemplate _ _ ihCode ihRest =>
    have behind := reads_closeBrace.append (ihRest outer apart)
    have code := (ihCode _ (by simp [LiteralPart.Apart])).append behind
    exact reads_lineTemplate.append code
  | @rawChar c rest noMarks noTemplate _ ih =>
    obtain ⟨ends, noBrace⟩ := apart
    have noMarks' : ¬ ['"', '"', '"'] <+: c :: (rest ++ more) := fun run =>
      noMarks (@run_prefix_of_append _ 3 _ _ (List.cons_ne_nil c rest) ends run)
    have noTemplate' := mt (template_prefix_append noBrace).mp noTemplate
    have ends' := @getLast?_ne_of_append _ [c] _ ends
    exact (reads_rawChar noMarks' noTemplate').append (ih outer ⟨ends', noBrace⟩)
  | rawTemplate _ _ ihCode ihRest =>
    obtain ⟨ends, noBrace⟩ := apart
    rw [List.append_cons] at ends
    have ends' := getLast?_ne_of_append ends
    have behind := reads_closeBrace.append (ihRest outer ⟨ends', noBrace⟩)
    have code := (ihCode _ (by simp [LiteralPart.Apart])).append behind
    exact reads_rawTemplate.append code
  | codeChar plain _ ih => exact (reads_codeChar plain).append (ih outer apart)
  | group _ _ ihCode ihRest =>
    have behind := reads_closeBrace.append (ihRest outer apart)
    have code := (ihCode _ (by simp [LiteralPart.Apart])).append behind
    exact reads_openBrace.append code
  | @literal literal rest _ follows _ ihLiteral ihRest =>
    have follows' : literal.head? = some '"' → (rest ++ more).head? ≠ some '"' := by
      intro double
      cases rest with
      | nil => exact apart
      | cons => exact follows double
    exact (ihLiteral outer follows').append (ihRest outer apart)

theorem LiteralText.length_pos {literal : List Char} (isLiteral : LiteralText .whole literal) :
    0 < literal.length := by
  cases isLiteral with
  | single => exact Nat.succ_pos _
  | tripled => exact Nat.succ_pos _

theorem LiteralText.literalLength {literal : List Char} (isLiteral : LiteralText .whole literal)
    {more : List Char} (apart : literal.head? = some '"' → more.head? ≠ some '"') :
    literalLength (literal ++ more) = literal.length := by
  cases isLiteral with
  | @single mark items opens isItems =>
    have noBrace := head?_ne_brace opens more
    have plain := isItems.not_tripled fun same => apart (congrArg some same)
    have inside : Reads [.line mark] (items ++ [mark]) [] more :=
      (isItems.reads [] noBrace).append (reads_lineEnd opens)
    rw [List.cons_append, List.cons_append, literalLength_line (by simpa using plain), inside.scan,
      List.length_cons, Nat.add_comm]
  | @tripled content n isContent ends =>
    have noBrace : (List.replicate (n + 3) '"' ++ more).head? ≠ some '{' := by
      simp [List.replicate_succ]
    have inside : Reads [.raw] (content ++ List.replicate (n + 3) '"') [] more :=
      (isContent.reads [] ⟨ends, noBrace⟩).append (reads_rawEnd n (apart rfl))
    simp only [List.cons_append]
    rw [Source.literalLength, inside.scan, List.length_cons, List.length_cons, List.length_cons,
      Nat.add_comm]

/-- A literal of the grammar is measured exactly, whatever stands in front of it, and whatever
follows it but a mark that would belong to it. -/
theorem literalEnd?_literal {literal : List Char} (isLiteral : LiteralText .whole literal)
    (before : List Char) {behind : List Char}
    (apart : literal.head? = some '"' → behind.head? ≠ some '"') :
    literalEnd? (before ++ literal ++ behind) before.length =
      some (before.length + literal.length) := by
  have inside : before.length < (before ++ literal ++ behind).length := by
    have some := isLiteral.length_pos
    simp only [List.length_append]
    omega
  rw [literalEnd?, if_pos inside, List.append_assoc, List.drop_left, isLiteral.literalLength apart]

/-- A raw literal that ends in four marks, in a group of braces, in the template of a string with
an escape and a dollar sign at its end. -/
theorem literalEnd?_literal_of_template :
    let literal := "\"\\n$\x7b\x7b\"\"\"a\"\"\"\" \x7d\x7d$\"".toList
    LiteralText .whole literal ∧
      literalEnd? ("x = ".toList ++ literal ++ ", '\"'".toList) 4 = some (4 + literal.length) := by
  intro literal
  have a : LiteralText .raw ['a'] := .rawChar (by decide) (by decide) .rawEnd
  have raw := LiteralText.tripled 1 a (by decide)
  have blank : LiteralText .code [' '] := .codeChar (by decide) .codeEnd
  have code := LiteralText.group (.literal raw (by decide) blank) .codeEnd
  have dollar : LiteralText (.line '"') ['$'] := .lineChar (by decide) (by decide) .lineEnd
  have whole := LiteralText.single (by decide) (.escape (c := 'n') (.lineTemplate code dollar))
  have spelled {text : List Char} (isLiteral : LiteralText .whole text) (same : text = literal) :
      LiteralText .whole literal := same ▸ isLiteral
  have isLiteral := spelled whole (by decide)
  exact ⟨isLiteral, literalEnd?_literal isLiteral "x = ".toList (by decide)⟩

end RecordCompat.Source
