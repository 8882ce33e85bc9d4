import RecordCompat.Proofs.Rendering

/-! Stripping comments turns the written form of records into the bare one. Each part is
stripped alike whatever follows it. Only a default may end in a literal, and then the next
character counts, which is never a quotation mark. -/
namespace RecordCompat.Source

open Text

/-- The characters that some scanner looks for. -/
def marks : List Char :=
  ['(', ')', '[', ']', '{', '}', '<', '>', ',', '-', '/', '"', '\'']

def Plain (text : List Char) : Prop :=
  ∀ c ∈ text, c ∉ marks

instance (text : List Char) : Decidable (Plain text) :=
  inferInstanceAs (Decidable (∀ c ∈ text, c ∉ marks))

theorem Plain.append {s t : List Char} (first : Plain s) (second : Plain t) : Plain (s ++ t) := by
  intro c member
  rcases List.mem_append.mp member with inside | inside
  · exact first c inside
  · exact second c inside

theorem IsName.plain {name : List Char} (isName : IsName name) : Plain name := by
  intro c member mark
  have noWord : ∀ c ∈ marks, isWord c = false := by decide
  exact isName.not_mem (noWord c mark) member

theorem isName_of_modifier {word : List Char} (known : word ∈ modifiers) : IsName word := by
  have names : ∀ word ∈ modifiers, IsName word := by decide
  exact names word known

theorem isPropertyWord_iff {word : List Char} :
    isPropertyWord word = true ↔ word = "val".toList ∨ word = "var".toList := by
  rw [isPropertyWord, Bool.or_eq_true, beq_iff_eq, beq_iff_eq]

theorem isName_of_property {word : List Char} (property : isPropertyWord word = true) :
    IsName word := by
  rcases isPropertyWord_iff.mp property with rfl | rfl
  · decide
  · decide

theorem plain_of_blanks {text : List Char} (blanks : ∀ c ∈ text, isBlank c = true) :
    Plain text := by
  intro c member mark
  have noBlank : ∀ c ∈ marks, isBlank c = false := by decide
  have blank := blanks c member
  rw [noBlank c mark] at blank
  cases blank

theorem opensLiteral_of_plain {c : Char} (plain : c ∉ marks) : opensLiteral c = false := by
  rw [opensLiteral, Bool.or_eq_false_iff, beq_eq_false_iff_ne, beq_eq_false_iff_ne]
  constructor <;> (rintro rfl; exact plain (by decide))

theorem Gap.blanks {w p : List Char} (gap : Gap w p) : ∀ c ∈ p, isBlank c = true := by
  induction gap with
  | nil => simp
  | blank isBlank _ ih => exact List.forall_mem_cons.mpr ⟨isBlank, ih⟩
  | line _ _ ih =>
    exact List.forall_mem_cons.mpr ⟨by decide, List.forall_mem_cons.mpr ⟨by decide, ih⟩⟩
  | @block body _ p _ _ ih =>
    intro c member
    simp only [List.cons_append, List.mem_cons, List.mem_append, List.mem_filter] at member
    rcases member with rfl | ⟨-, line⟩ | inside
    · decide
    · rw [of_decide_eq_true line]; decide
    · exact ih c inside

theorem Gap.ne_nil {w p : List Char} (gap : Gap w p) (wide : w ≠ []) : p ≠ [] := by
  cases gap with
  | nil => exact wide
  | blank => exact List.cons_ne_nil _ _
  | line => exact List.cons_ne_nil _ _
  | block => exact List.cons_ne_nil _ _

/-- Stripping leaves `p` of `w`, whatever follows. -/
def Strips (w p : List Char) : Prop :=
  ∀ rest, stripComments (w ++ rest) = p ++ stripComments rest

/-- Stripping leaves `p` of `w` where no quotation mark follows. -/
def StripsApart (w p : List Char) : Prop :=
  ∀ rest, rest.head? ≠ some '"' → stripComments (w ++ rest) = p ++ stripComments rest

theorem Strips.nil : Strips [] [] := fun _ => rfl

theorem Strips.append {w p v q : List Char} (first : Strips w p) (second : Strips v q) :
    Strips (w ++ v) (p ++ q) := by
  intro rest
  rw [List.append_assoc, first, second, List.append_assoc]

theorem Strips.apart {w p : List Char} (strips : Strips w p) : StripsApart w p :=
  fun rest _ => strips rest

theorem Strips.append_apart {w p v q : List Char} (first : Strips w p)
    (second : StripsApart v q) : StripsApart (w ++ v) (p ++ q) := by
  intro rest apart
  rw [List.append_assoc, first, second rest apart, List.append_assoc]

@[simp] theorem stripComments_nil : stripComments [] = [] := by
  rw [stripComments, segments]
  rfl

theorem stripComments_cons (c : Char) (rest : List Char) :
    stripComments (c :: rest) = (headSegment c rest).kept ++
      stripComments (rest.drop ((headSegment c rest).text.length - 1)) := by
  rw [stripComments, segments]
  rfl

/-- A character with which no literal and no comment begins is left as it is. -/
theorem strips_char {c : Char} (code : opensLiteral c = false ∧ c ≠ '/') : Strips [c] [c] := by
  intro rest
  have segment : headSegment c rest = .code c := by simp [headSegment, code]
  rw [List.singleton_append, stripComments_cons, segment]
  rfl

theorem strips_plain {text : List Char} (plain : Plain text) : Strips text text := by
  induction text with
  | nil => exact Strips.nil
  | cons c rest ih =>
    obtain ⟨first, later⟩ := List.forall_mem_cons.mp plain
    have noSlash : c ≠ '/' := by rintro rfl; exact first (by decide)
    exact (strips_char ⟨opensLiteral_of_plain first, noSlash⟩).append (ih later)

theorem strips_line {text rest : List Char} (oneLine : '\n' ∉ text)
    (ends : rest = [] ∨ rest.head? = some '\n') :
    stripComments ('/' :: '/' :: text ++ rest) = ' ' :: stripComments rest := by
  have line : ('/' :: text ++ rest).takeWhile (· ≠ '\n') = '/' :: text := by
    rw [List.takeWhile_append_of_pos]
    · rcases ends with rfl | feed
      · simp
      · obtain ⟨tail, rfl⟩ := List.head?_eq_some_iff.mp feed
        simp
    · intro c member
      simp only [ne_eq, decide_eq_true_eq]
      rintro rfl
      simp [oneLine] at member
  have segment : headSegment '/' ('/' :: text ++ rest) = .lineComment ('/' :: '/' :: text) := by
    rw [headSegment, if_neg (by decide), if_pos (by simp), line]
  rw [List.cons_append, stripComments_cons, segment]
  simp [Segment.kept, Segment.text]

/-- Behind a comment's text the search for its end goes on as before it. -/
theorem closingLength?_body {body : List Char} (inside : CommentBody body) (outer : Nat)
    (rest : List Char) :
    closingLength? outer (body ++ '*' :: '/' :: rest) =
      (closingLength? outer ('*' :: '/' :: rest)).map (· + body.length) := by
  induction inside generalizing outer rest with
  | nil => simp
  | @char c body _ noOpening noClosing ih =>
    rw [List.cons_append, closingLength?, ih, Option.map_map]
    · rfl
    · rintro tail rfl follows
      cases body <;> simp_all
    · rintro tail rfl follows
      cases body <;> simp_all
  | @comment inner body _ _ ihInner ihBody =>
    have deeper := ihInner (outer + 1) (body ++ '*' :: '/' :: rest)
    simp only [List.cons_append, List.append_assoc, closingLength?, deeper, ihBody,
      Option.map_map, List.length_append, List.length_cons] at *
    congr 1
    funext n
    simp only [Function.comp_apply]
    omega

theorem blockCommentLength?_body {body : List Char} (inside : CommentBody body) (rest : List Char) :
    blockCommentLength? ('/' :: '*' :: body ++ '*' :: '/' :: rest) = some (body.length + 4) := by
  have closing := closingLength?_body inside 0 rest
  simp only [List.cons_append, blockCommentLength?, closing, closingLength?, Option.map_some,
    Option.some.injEq]
  omega

theorem headSegment_block {body : List Char} (inside : CommentBody body) (rest : List Char) :
    headSegment '/' ('*' :: body ++ '*' :: '/' :: rest) =
      .blockComment ('/' :: '*' :: body ++ ['*', '/']) true := by
  have length : blockCommentLength? ('/' :: ('*' :: body ++ '*' :: '/' :: rest)) =
      some (body.length + 4) := blockCommentLength?_body inside rest
  have front : ('/' :: ('*' :: body ++ '*' :: '/' :: rest)).take (body.length + 4) =
      '/' :: '*' :: body ++ ['*', '/'] := by
    have split : '/' :: ('*' :: body ++ '*' :: '/' :: rest) =
        '/' :: '*' :: body ++ ['*', '/'] ++ rest := by simp
    rw [split]
    apply List.take_left'
    simp
  rw [headSegment, if_neg (by decide), if_neg (by simp), if_pos (by simp), length]
  exact congrArg (Segment.blockComment · true) front

theorem strips_block {body : List Char} (inside : CommentBody body) :
    Strips ('/' :: '*' :: body ++ ['*', '/']) (' ' :: body.filter (· = '\n')) := by
  intro rest
  have whole : '/' :: '*' :: body ++ ['*', '/'] ++ rest =
      '/' :: ('*' :: body ++ '*' :: '/' :: rest) := by simp
  rw [whole, stripComments_cons, headSegment_block inside]
  simp [Segment.kept, Segment.text]

theorem Gap.strips {w p : List Char} (gap : Gap w p) : Strips w p := by
  induction gap with
  | nil => exact Strips.nil
  | @blank c _ _ isBlank _ ih =>
    have plain : Plain [c] := plain_of_blanks (by simpa using isBlank)
    exact (strips_plain plain).append ih
  | line oneLine _ ih =>
    intro rest
    have feed := (strips_char (c := '\n') (by decide)).append ih rest
    rw [List.append_assoc, List.cons_append, List.cons_append, List.cons_append,
      ← List.cons_append, ← List.cons_append, strips_line oneLine (.inr rfl)]
    exact congrArg (' ' :: ·) feed
  | block inside _ ih =>
    have comment := (strips_block inside).append ih
    simpa using comment

theorem TypeText.strips {part : TypePart} {w p : List Char} (type : TypeText part w p) :
    Strips w p := by
  have strips (c : Char) (code : opensLiteral c = false ∧ c ≠ '/') := strips_char code
  have comma := strips ',' (by decide)
  induction type with
  | name isName => exact strips_plain isName.plain
  | generic isName gap _ ih =>
    have opening := strips '<' (by decide)
    have closing := strips '>' (by decide)
    have generic := (strips_plain isName.plain).append
      (gap.strips.append (opening.append (ih.append closing)))
    simpa using generic
  | function _ first second _ items result =>
    have opening := strips '(' (by decide)
    have closing := strips ')' (by decide)
    have dash := strips '-' (by decide)
    have head := strips '>' (by decide)
    have function := opening.append (items.append (closing.append
      (first.strips.append (dash.append (head.append (second.strips.append result))))))
    simpa using function
  | nullable _ gap ih =>
    have mark := strips '?' (by decide)
    exact (ih.append gap.strips).append mark
  | spaced before _ behind ih => exact (before.strips.append ih).append behind.strips
  | none gap => exact gap.strips
  | one _ ih => exact ih
  | more _ _ first later => exact first.append (comma.append later)

theorem Markers.strips {w p : List Char} (markers : Markers w p) : Strips w p := by
  induction markers with
  | nil => exact Strips.nil
  | annotated isName gap _ _ ih =>
    have sign := strips_char (c := '@') (by decide)
    exact ((sign.append (strips_plain isName.plain)).append gap.strips).append ih
  | modifier known gap _ _ ih =>
    have word := strips_plain (isName_of_modifier known).plain
    exact (word.append gap.strips).append ih

theorem NullableText.strips {nullable : Bool} {w p : List Char}
    (mark : NullableText nullable w p) : Strips w p := by
  cases mark with
  | absent => exact Strips.nil
  | present gap => exact gap.strips.append (strips_char (by decide))

/-- Literals are kept whole, and outside them code without slashes has no comment. -/
theorem stripsApart_code {code : List Char}
    (closed : ∀ text, .literal text ∈ lexemes code → isClosedLiteral text = true)
    (noSlash : .char '/' ∉ lexemes code) : StripsApart code code := by
  intro more apart
  fun_induction lexemes code with
  | case1 => rfl
  | case2 c rest opens n ih =>
    have same : literalLength (c :: (rest ++ more)) = n :=
      literalLength_append (closed _ List.mem_cons_self) apart
    have pos : 0 < n := literalLength_pos c rest
    have le : n ≤ rest.length + 1 := literalLength_le (c :: rest)
    have segment : headSegment c (rest ++ more) = .literal ((c :: rest).take n) := by
      rw [headSegment, if_pos opens, same, ← List.cons_append,
        List.take_append_of_le_length (by simpa using le)]
    have behind := ih (fun text member => closed text (List.mem_cons_of_mem _ member))
      (fun member => noSlash (List.mem_cons_of_mem _ member))
    rw [List.cons_append, stripComments_cons, segment]
    simp only [Segment.kept, Segment.text, List.length_take, List.length_cons,
      Nat.min_eq_left le]
    rw [List.drop_append_of_le_length (by omega), behind, ← List.append_assoc,
      List.take_cons pos, List.cons_append, List.take_append_drop]
  | case3 c rest plain ih =>
    have other : c ≠ '/' := by rintro rfl; exact noSlash List.mem_cons_self
    have behind := ih (fun text member => closed text (List.mem_cons_of_mem _ member))
      (fun member => noSlash (List.mem_cons_of_mem _ member))
    have first := strips_char ⟨Bool.eq_false_iff.mpr plain, other⟩ (rest ++ more)
    rw [behind] at first
    exact first

theorem DefaultText.stripsApart {hasDefault : Bool} {w p : List Char}
    (default : DefaultText hasDefault w p) : StripsApart w p := by
  cases default with
  | absent => exact Strips.nil.apart
  | present before behind isDefault =>
    have sign := strips_char (c := '=') (by decide)
    have code := stripsApart_code isDefault.closed isDefault.noSlash
    have default := before.strips.append_apart (sign.append_apart
      (behind.strips.append_apart code))
    simpa using default

theorem FieldText.stripsApart {f : Field} {w p : List Char} (field : FieldText f w p) :
    StripsApart w p := by
  cases field with
  | intro markers property first _ isName second third type _ mark default =>
    have word := strips_plain (isName_of_property property).plain
    have colon := strips_char (c := ':') (by decide)
    have head := ((markers.strips.append word).append first.strips).append
      (strips_plain isName.plain)
    have typed :=
      ((head.append second.strips).append (colon.append third.strips)).append type.strips
    have field := (typed.append mark.strips).append_apart default.stripsApart
    simpa using field

theorem Gap.apart_of_mark {w p : List Char} (gap : Gap w p) {c : Char} (other : c ≠ '"')
    (rest : List Char) : (w ++ c :: rest).head? ≠ some '"' := by
  have noMark : isBlank '"' = false := by decide
  cases gap with
  | nil => simpa using other
  | blank isBlank =>
    simp only [List.cons_append, List.head?_cons, ne_eq, Option.some.injEq]
    rintro rfl
    rw [noMark] at isBlank
    cases isBlank
  | line => simp
  | block => simp

theorem FieldsText.stripsApart {fields : List Field} {w p : List Char}
    (text : FieldsText fields w p) {c : Char} (other : c ≠ '"') (rest : List Char) :
    stripComments (w ++ c :: rest) = p ++ stripComments (c :: rest) := by
  induction text with
  | none gap => exact gap.strips _
  | last before field behind =>
    have apart := behind.apart_of_mark other rest
    simp only [List.append_assoc, before.strips _, field.stripsApart _ apart, behind.strips _]
  | more before field behind _ ih =>
    have comma := strips_char (c := ',') (by decide)
    have apart (v : List Char) := behind.apart_of_mark (c := ',') (by decide) v
    simp only [List.append_assoc, List.cons_append, before.strips _,
      field.stripsApart _ (apart _), behind.strips _, ← ih]
    rw [← List.singleton_append, comma]
    rfl

theorem RecordText.strips {r : Record} {w p : List Char} (text : RecordText r w p) :
    Strips w p := by
  cases text with
  | @intro _ _ _ _ _ _ written _ _ isName first _ second _ third fields =>
    intro rest
    have data : IsName "data".toList := by decide
    have word : IsName "class".toList := by decide
    have opening := strips_char (c := '(') (by decide)
    have closing := strips_char (c := ')') (by decide) rest
    have words := ((strips_plain data.plain).append first.strips).append (strips_plain word.plain)
    have head := (((words.append second.strips).append (strips_plain isName.plain)).append
      third.strips).append opening
    have inside := fields.stripsApart (c := ')') (by decide) rest
    rw [List.singleton_append] at closing
    rw [closing] at inside
    have whole := head (written ++ ')' :: rest)
    rw [inside] at whole
    simpa using whole

/-- Stripping comments leaves the bare form. -/
theorem Rendering.stripComments {records : List Record} {w p : List Char}
    (text : Rendering records w p) : stripComments w = p := by
  induction text with
  | done gap => simpa using gap.strips []
  | @comment _ _ line gap oneLine =>
    have comment := strips_line oneLine (.inl rfl)
    rw [List.append_nil] at comment
    rw [gap.strips, comment, stripComments_nil]
  | record gap record _ ih =>
    rw [List.append_assoc, gap.strips, record.strips, ih, List.append_assoc]

end RecordCompat.Source
