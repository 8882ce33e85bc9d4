import RecordCompat.Proofs.Nesting
import RecordCompat.Proofs.ParameterReading

/-! A parameter list is closed by its own parenthesis, and cutting it gives back its fields.
Text that fits between two commas is closed in both respects: its literals are, and its
brackets. -/
namespace RecordCompat.Source

open Text

/-- Text between commas: what it begins it ends, and no comma in it cuts. -/
structure Fits (text : List Char) : Prop where
  closed : ∀ literal, .literal literal ∈ lexemes text → isClosedLiteral literal = true
  passes : ∃ dash, Passes .outside (lexemes text) ⟨0, 0, dash⟩

/-- Code in which brackets are balanced, and no comma or angle stands outside them. -/
theorem passes_balanced {code : List Lexeme} {depth : Nat} {dash : Bool}
    (closed : balanced depth code = true)
    (noCut : ∀ x ∈ outermost depth code, x ≠ .char ',' ∧ x ≠ .char '<' ∧ x ≠ .char '>') :
    ∃ dash', Passes ⟨depth, 0, dash⟩ code ⟨0, 0, dash'⟩ := by
  induction code generalizing depth dash with
  | nil =>
    obtain rfl : depth = 0 := by simpa [balanced] using closed
    exact ⟨dash, .nil⟩
  | cons x rest ih =>
    rw [balanced] at closed
    rw [outermost] at noCut
    by_cases opens : x.opens = true
    · rw [if_pos opens] at closed noCut
      obtain ⟨dash', passes⟩ := @ih _ (x == .char '-') closed noCut
      have uncut : x ≠ .char ',' := by rintro rfl; cases opens
      have noClosing := not_closes_of_opens opens
      refine ⟨dash', .cons (by simp [Nesting.cutsAt, uncut]) (by simp [noClosing]) ?_⟩
      simpa [Nesting.after, opens] using passes
    · by_cases closes : x.closes = true
      · rw [if_neg opens, if_pos closes] at closed noCut
        obtain ⟨inside, closed⟩ := Bool.and_eq_true_iff.mp closed
        have deep : depth ≠ 0 := by simpa using inside
        obtain ⟨dash', passes⟩ := @ih _ (x == .char '-') closed noCut
        refine ⟨dash', .cons (by simp [Nesting.cutsAt, deep]) (fun _ => deep) ?_⟩
        simpa [Nesting.after, opens, closes] using passes
      · rw [if_neg opens, if_neg closes] at closed noCut
        by_cases outside : depth = 0
        · subst outside
          rw [if_pos rfl] at noCut
          obtain ⟨⟨noComma, noLess, noGreater⟩, later⟩ := List.forall_mem_cons.mp noCut
          obtain ⟨dash', passes⟩ := @ih _ (x == .char '-') closed later
          refine ⟨dash', .cons (by simp [Nesting.cutsAt, noComma]) (by simp [closes]) ?_⟩
          simpa [Nesting.after, opens, closes, noLess, noGreater] using passes
        · rw [if_neg outside] at noCut
          obtain ⟨dash', passes⟩ := @ih _ (x == .char '-') closed noCut
          refine ⟨dash', .cons (by simp [Nesting.cutsAt, outside]) (by simp [closes]) ?_⟩
          simpa [Nesting.after, opens, closes, outside] using passes

theorem IsDefault.fits {code : List Char} (isDefault : IsDefault code) : Fits code where
  closed := isDefault.closed
  passes := passes_balanced isDefault.balanced isDefault.noCut

theorem fits_nil : Fits [] where
  closed := by simp [lexemes]
  passes := ⟨false, by rw [lexemes]; exact .nil⟩

/-- What fits still does behind text without literals that leads nowhere. -/
theorem Fits.behind {head text : List Char} (fits : Fits text)
    (unquoted : ∀ c ∈ head, opensLiteral c = false)
    (passes : Passes .outside (head.map .char) .outside) : Fits (head ++ text) where
  closed := by
    intro literal member
    rw [lexemes_unquoted_append unquoted] at member
    rcases List.mem_append.mp member with front | back
    · simp at front
    · exact fits.closed literal back
  passes := by
    obtain ⟨dash, later⟩ := fits.passes
    rw [lexemes_unquoted_append unquoted]
    exact ⟨dash, passes.append later⟩

theorem unquoted_of_plain {text : List Char} (plain : Plain text) :
    ∀ c ∈ text, opensLiteral c = false :=
  fun c member => opensLiteral_of_plain (plain c member)

theorem Fits.behind_plain {head text : List Char} (fits : Fits text) (plain : Plain head) :
    Fits (head ++ text) :=
  fits.behind (unquoted_of_plain plain) (passes_plain rfl plain)

/-- Plain text behind any code may end with another last character, not in other brackets. -/
theorem passes_plain_loose {n : Nesting} {text : List Char} (plain : Plain text) :
    ∃ dash, Passes n (text.map .char) ⟨n.brackets, n.angles, dash⟩ := by
  cases text with
  | nil => exact ⟨n.afterDash, .nil⟩
  | cons c rest =>
    obtain ⟨first, later⟩ := List.forall_mem_cons.mp plain
    exact ⟨false, (passes_plain_char first).append (passes_plain rfl later)⟩

theorem Fits.padded {text a b c d : List Char} (fits : Fits text) (before : Gap a b)
    (behind : Gap c d) : Fits (b ++ text ++ d) := by
  have plain := plain_of_blanks behind.blanks
  have unquoted := unquoted_of_plain plain
  have apart : d.head? ≠ some '"' := by
    intro head
    exact absurd (behind.blanks _ (List.mem_of_mem_head? head)) (by decide)
  have split : lexemes (text ++ d) = lexemes text ++ d.map .char := by
    rw [lexemes_append fits.closed apart, lexemes_unquoted unquoted]
  have padded : Fits (text ++ d) := by
    constructor
    · intro literal member
      rw [split] at member
      rcases List.mem_append.mp member with front | back
      · exact fits.closed literal front
      · simp at back
    · obtain ⟨dash, passes⟩ := fits.passes
      obtain ⟨dash', later⟩ := @passes_plain_loose ⟨0, 0, dash⟩ _ plain
      rw [split]
      exact ⟨dash', passes.append later⟩
  rw [List.append_assoc]
  exact padded.behind_plain (plain_of_blanks before.blanks)

theorem NullableText.plain {nullable : Bool} {w p : List Char} (mark : NullableText nullable w p) :
    Plain p := by
  cases mark with
  | absent => simp [Plain]
  | present gap => exact (plain_of_blanks gap.blanks).append (by decide)

theorem Markers.plain {w p : List Char} (markers : Markers w p) : Plain p := by
  induction markers with
  | nil => simp [Plain]
  | annotated isName gap _ _ ih =>
    have sign : Plain ['@'] := by decide
    exact ((sign.append isName.plain).append (plain_of_blanks gap.blanks)).append ih
  | modifier known gap _ _ ih =>
    exact ((isName_of_modifier known).plain.append (plain_of_blanks gap.blanks)).append ih

theorem DefaultText.fits {hasDefault : Bool} {w p : List Char}
    (default : DefaultText hasDefault w p) : Fits p := by
  cases default with
  | absent => exact fits_nil
  | present before behind isDefault =>
    have sign : Plain ['='] := by decide
    have head := ((plain_of_blanks before.blanks).append sign).append
      (plain_of_blanks behind.blanks)
    have fits := isDefault.fits.behind_plain head
    simpa using fits

theorem FieldText.fits {f : Field} {w p : List Char} (field : FieldText f w p) : Fits p := by
  cases field with
  | intro markers property first _ isName second third type _ mark default =>
    have colon : Plain [':'] := by decide
    have word := markers.plain.append (isName_of_property property).plain
    have name := (word.append (plain_of_blanks first.blanks)).append isName.plain
    have head := ((name.append (plain_of_blanks second.blanks)).append colon).append
      (plain_of_blanks third.blanks)
    have typed := (default.fits.behind_plain mark.plain).behind
      (fun c member => opensLiteral_of_typeChar (type.shape.chars c member))
      (type.shape.passes rfl nofun)
    have fits := typed.behind_plain head
    simpa using fits

theorem Fits.lexemes {text : List Char} (fits : Fits text) {c : Char}
    (noLiteral : opensLiteral c = false) (rest : List Char) :
    lexemes (text ++ c :: rest) = lexemes text ++ .char c :: lexemes rest := by
  have apart : (c :: rest).head? ≠ some '"' := by
    intro head
    obtain rfl := Option.some.inj head
    exact absurd noLiteral (by decide)
  have first : Source.lexemes (c :: rest) = .char c :: Source.lexemes rest := by
    rw [Source.lexemes, if_neg (by simp [noLiteral])]
  rw [lexemes_append fits.closed apart, first]

theorem Fits.enclosed {text : List Char} (fits : Fits text) (more : List Lexeme) :
    enclosed? 0 (Source.lexemes text ++ more) =
      (enclosed? 0 more).map (Source.lexemes text ++ ·) := by
  obtain ⟨dash, passes⟩ := fits.passes
  exact passes.enclosed more

theorem Gap.fits {a b : List Char} (gap : Gap a b) : Fits b := by
  have fits := fits_nil.behind_plain (plain_of_blanks gap.blanks)
  rwa [List.append_nil] at fits

/-- Text that fits ends at the parenthesis that closes the list. -/
theorem Fits.closed_list {text : List Char} (fits : Fits text) (rest : List Char) :
    enclosed? 0 (Source.lexemes (text ++ ')' :: rest)) = some (Source.lexemes text) := by
  rw [fits.lexemes (by decide), fits.enclosed]
  simp [enclosed?, Lexeme.opens, Lexeme.closes]

theorem Fits.bracketed {text : List Char} (fits : Fits text) (rest : List Char) :
    bracketed? (text ++ ')' :: rest) = some text := by
  rw [bracketed?, enclosedText?_eq, fits.closed_list, Option.map_some, spell_lexemes]

theorem FieldsText.enclosed {fields : List Field} {w p : List Char}
    (text : FieldsText fields w p) (rest : List Char) :
    enclosed? 0 (lexemes (p ++ ')' :: rest)) = some (lexemes p) := by
  induction text with
  | none gap => exact gap.fits.closed_list rest
  | last before field behind => exact (field.fits.padded before behind).closed_list rest
  | more before field behind _ ih =>
    have fits := field.fits.padded before behind
    rw [List.append_assoc, List.cons_append, fits.lexemes (by decide), fits.enclosed,
      fits.lexemes (by decide)]
    simp [enclosed?, Lexeme.opens, Lexeme.closes, ih]

theorem FieldsText.bracketed {fields : List Field} {w p : List Char}
    (text : FieldsText fields w p) (rest : List Char) : bracketed? (p ++ ')' :: rest) = some p := by
  rw [bracketed?, enclosedText?_eq, text.enclosed, Option.map_some, spell_lexemes]

theorem Fits.parameters {text : List Char} (fits : Fits text) :
    parameters text = [strip text].filter (· ≠ []) := by
  obtain ⟨dash, passes⟩ := fits.passes
  rw [Source.parameters, passes.pieces, List.map_singleton, spell_lexemes]

theorem Fits.parameters_comma {text : List Char} (fits : Fits text) (rest : List Char) :
    Source.parameters (text ++ ',' :: rest) =
      [strip text].filter (· ≠ []) ++ Source.parameters rest := by
  obtain ⟨dash, passes⟩ := fits.passes
  rw [Source.parameters, fits.lexemes (by decide), passes.pieces_comma rfl rfl, List.map_cons,
    spell_lexemes, ← List.singleton_append, List.filter_append, ← Source.parameters]

/-- Some trimmed text stands at the front of the markers and what follows them. -/
theorem Markers.front {w p : List Char} (markers : Markers w p) {text : List Char}
    (front : ∃ s, Trimmed s ∧ s <+: text) : ∃ s, Trimmed s ∧ s <+: p ++ text := by
  cases markers with
  | nil => exact front
  | annotated =>
    have sign : Trimmed ['@'] := trimmed_char (by decide)
    exact ⟨['@'], sign, by simp⟩
  | modifier known =>
    have word := (isName_of_modifier known).trimmed
    exact ⟨_, word, by simp⟩

/-- Some trimmed text stands at the end of a field's type, mark and default. -/
theorem back_of_type {type x q y z : List Char} {nullable hasDefault : Bool}
    (trimmed : Trimmed type) (mark : NullableText nullable x q)
    (default : DefaultText hasDefault y z) : ∃ v, Trimmed v ∧ v <:+ type ++ q ++ z := by
  cases default with
  | present before behind isDefault =>
    have code := trimmed_of_strip isDefault.stripped isDefault.nonempty
    refine ⟨_, code, ?_⟩
    rw [← List.append_assoc]
    exact List.suffix_append _ _
  | absent =>
    rw [List.append_nil]
    cases mark with
    | absent =>
      rw [List.append_nil]
      exact ⟨type, trimmed, List.suffix_refl type⟩
    | present gap =>
      have question : Trimmed ['?'] := trimmed_char (by decide)
      refine ⟨['?'], question, ?_⟩
      rw [← List.append_assoc]
      exact List.suffix_append _ _

theorem FieldText.trimmed {f : Field} {w p : List Char} (field : FieldText f w p) : Trimmed p := by
  cases field with
  | @intro word a b c d e g mw mp v x q y z markers property _ _ _ _ _ type _ mark default =>
    have first := (isName_of_property property).trimmed
    obtain ⟨s, trimmed, starts⟩ := markers.front ⟨word, first, List.prefix_append word
      (b ++ f.name.toList ++ d ++ ':' :: g ++ f.type.toList ++ q ++ z)⟩
    obtain ⟨t, trimmed', stops⟩ := back_of_type type.shape.trimmed mark default
    apply trimmed.of_ends trimmed'
    · simpa using starts
    · have whole := stops.trans
        (List.suffix_append (mp ++ word ++ b ++ f.name.toList ++ d ++ ':' :: g) _)
      simpa using whole

theorem FieldsText.read {fields : List Field} {w p : List Char} (text : FieldsText fields w p) :
    (parameters p).map Parameter.read = fields.map fun f => .property { f with position := 0 } := by
  have piece {f : Field} {a b c d w p : List Char} (before : Gap a b) (field : FieldText f w p)
      (behind : Gap c d) : ([strip (b ++ p ++ d)].filter (· ≠ [])).map Parameter.read =
        [.property { f with position := 0 }] := by
    have kept := field.trimmed.strip_padded before.blanks behind.blanks
    rw [kept, List.filter_cons_of_pos (by simpa using field.trimmed.nonempty)]
    simp [field.read]
  induction text with
  | none gap =>
    rw [gap.fits.parameters, strip_blanks gap.blanks]
    rfl
  | last before field behind =>
    rw [(field.fits.padded before behind).parameters, piece before field behind]
    rfl
  | more before field behind _ ih =>
    rw [(field.fits.padded before behind).parameters_comma, List.map_append,
      piece before field behind, ih]
    rfl

end RecordCompat.Source
