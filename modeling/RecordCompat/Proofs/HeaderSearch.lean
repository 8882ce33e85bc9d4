import RecordCompat.Proofs.Words

/-! The search for headers finds one at the head of each record and none in the fields. A
header needs the words `data` and `class` with blanks between them. Names hold no blanks and
defaults no `class`, so one could only begin at the end of a word that is followed by blanks
and by `class`, and in fields only `val` and `var` can be followed so. -/
namespace RecordCompat.Source

open Text

theorem eq_of_skipSomeBlanks? {text rest : List Char} (skipped : skipSomeBlanks? text = some rest) :
    ∃ blanks, blanks ≠ [] ∧ (∀ c ∈ blanks, isBlank c = true) ∧ text = blanks ++ rest := by
  cases text with
  | nil => cases skipped
  | cons c tail =>
    rw [skipSomeBlanks?] at skipped
    split at skipped
    next blank =>
      cases skipped
      refine ⟨c :: tail.takeWhile isBlank, List.cons_ne_nil _ _, ?_, ?_⟩
      · intro d member
        rcases List.mem_cons.mp member with rfl | inside
        · exact blank
        · exact List.all_eq_true.mp List.all_takeWhile d inside
      · rw [skipBlanks, List.cons_append, List.takeWhile_append_dropWhile]
    next => cases skipped

theorem eq_of_dropWord? {word text rest : List Char} (dropped : dropWord? word text = some rest) :
    text = word ++ rest := by
  rw [dropWord?] at dropped
  split at dropped
  next starts =>
    obtain ⟨tail, rfl⟩ := starts
    rw [List.drop_left] at dropped
    rw [Option.some.inj dropped]
  next => cases dropped

theorem keywords_of_headerAt? {text : List Char} {found : List Char × Nat}
    (header : headerAt? text = some found) :
    ∃ blanks more, blanks ≠ [] ∧ (∀ c ∈ blanks, isBlank c = true) ∧
      text = "data".toList ++ (blanks ++ "class".toList) ++ more := by
  simp only [headerAt?, Option.bind_eq_bind, Option.bind_eq_some_iff] at header
  obtain ⟨first, data, second, skipped, third, word, -⟩ := header
  obtain ⟨blanks, some, all, rfl⟩ := eq_of_skipSomeBlanks? skipped
  rw [eq_of_dropWord? word] at data
  refine ⟨blanks, third, some, all, ?_⟩
  rw [eq_of_dropWord? data, List.append_assoc, List.append_assoc]

/-- A cut in front of a character of no word divides the two words at the blanks. -/
theorem cut_between_keywords {blanks text tail : List Char} {c : Char}
    (all : ∀ c ∈ blanks, isBlank c = true) (noWord : isWord c = false)
    (whole : "data".toList ++ (blanks ++ "class".toList) = text ++ c :: tail) :
    ∃ between, (∀ c ∈ between, isBlank c = true) ∧ c :: tail = between ++ "class".toList := by
  have words : ∀ c ∈ "data".toList ++ "class".toList, isWord c = true := by decide
  have outside (member : c ∈ "data".toList ++ "class".toList) : False := by
    rw [words c member] at noWord
    cases noWord
  rcases List.append_eq_append_iff.mp whole with ⟨front, -, behind⟩ | ⟨front, data, behind⟩
  · rcases List.append_eq_append_iff.mp behind with ⟨back, -, word⟩ | ⟨back, blank, word⟩
    · exact (outside (by simp [word])).elim
    · refine ⟨back, fun d member => all d ?_, word⟩
      rw [blank]
      exact List.mem_append_right _ member
  · cases front with
    | nil => exact ⟨blanks, all, behind⟩
    | cons d front =>
      obtain ⟨rfl, -⟩ := List.cons.inj behind
      exact (outside (by simp [data])).elim

/-- Text behind which no header reaches back: no word goes on, and `class` does not follow. -/
structure Stops (rest : List Char) : Prop where
  noWord : ∀ c, rest.head? = some c → isWord c = false
  noClass : ¬ "class".toList <+: skipBlanks rest

def HasHeader (text : List Char) : Prop :=
  ∃ blanks, blanks ≠ [] ∧ (∀ c ∈ blanks, isBlank c = true) ∧
    "data".toList ++ (blanks ++ "class".toList) <:+: text

theorem headerAt?_none {text rest : List Char} (noHeader : ¬ HasHeader text) (stops : Stops rest) :
    headerAt? (text ++ rest) = none := by
  apply Option.eq_none_iff_forall_ne_some.mpr
  intro found header
  obtain ⟨blanks, more, wide, all, same⟩ := keywords_of_headerAt? header
  rcases List.append_eq_append_iff.mp same with ⟨tail, whole, behind⟩ | ⟨tail, inside, -⟩
  · cases tail with
    | nil =>
      rw [List.append_nil] at whole
      exact noHeader ⟨blanks, wide, all, whole ▸ List.infix_refl _⟩
    | cons c tail =>
      have noWord := stops.noWord c (by rw [behind]; rfl)
      obtain ⟨between, blank, cut⟩ := cut_between_keywords all noWord whole
      apply stops.noClass
      rw [behind, cut, List.append_assoc, skipBlanks_blanks blank]
      exact List.prefix_append _ _
  · exact noHeader ⟨blanks, wide, all, inside ▸ (List.prefix_append _ _).isInfix⟩

theorem headersFrom_char {c : Char} (noData : c ≠ 'd') (offset : Nat) (afterWord : Bool)
    (rest : List Char) :
    headersFrom offset afterWord (c :: rest) = headersFrom (offset + 1) (isWord c) rest := by
  have none : headerAt? (c :: rest) = none := by
    apply Option.eq_none_iff_forall_ne_some.mpr
    intro found header
    obtain ⟨blanks, more, -, -, same⟩ := keywords_of_headerAt? header
    exact noData (List.cons.inj same).1
  rw [headersFrom]
  cases afterWord <;> simp [none]

theorem headersFrom_noWord {c : Char} (noWord : isWord c = false) (offset : Nat)
    (afterWord : Bool) (rest : List Char) :
    headersFrom offset afterWord (c :: rest) = headersFrom (offset + 1) false rest := by
  have noData : c ≠ 'd' := by rintro rfl; exact absurd noWord (by decide)
  rw [headersFrom_char noData, noWord]

/-- Where no word can go on, it does not matter whether one stood in front. -/
theorem headersFrom_afterWord {rest : List Char}
    (noWord : ∀ c, rest.head? = some c → isWord c = false) (offset : Nat) (afterWord : Bool) :
    headersFrom offset afterWord rest = headersFrom offset false rest := by
  cases rest with
  | nil => rw [headersFrom, headersFrom]
  | cons c rest => rw [headersFrom_noWord (noWord c rfl), headersFrom_noWord (noWord c rfl)]

/-- The search goes through `text` without finding a header, whatever follows that stops. -/
def Quiet (text : List Char) : Prop :=
  ∀ offset rest, Stops rest →
    headersFrom offset false (text ++ rest) = headersFrom (offset + text.length) false rest

theorem quiet_nil : Quiet [] := fun _ _ _ => rfl

theorem quiet_of_noHeader {text : List Char} (noHeader : ¬ HasHeader text) : Quiet text := by
  have quiet (afterWord : Bool) (offset : Nat) {rest : List Char} (stops : Stops rest) :
      headersFrom offset afterWord (text ++ rest) =
        headersFrom (offset + text.length) false rest := by
    induction text generalizing afterWord offset with
    | nil => exact headersFrom_afterWord stops.noWord offset afterWord
    | cons c text ih =>
      have none := headerAt?_none noHeader stops
      have later : ¬ HasHeader text := by
        rintro ⟨blanks, wide, all, inside⟩
        exact noHeader ⟨blanks, wide, all, inside.trans (List.suffix_cons c text).isInfix⟩
      rw [List.cons_append] at none ⊢
      rw [headersFrom, none, ite_self]
      dsimp only
      rw [ih later, List.length_cons]
      congr 1
      omega
  exact fun offset rest stops => quiet false offset stops

theorem IsName.quiet {name : List Char} (isName : IsName name) : Quiet name := by
  apply quiet_of_noHeader
  rintro ⟨blanks, wide, all, inside⟩
  obtain ⟨c, member⟩ := List.exists_mem_of_ne_nil blanks wide
  exact isName.not_mem (isWord_of_isBlank (all c member)) (inside.subset (by simp [member]))

theorem IsDefault.quiet {code : List Char} (isDefault : IsDefault code) : Quiet code := by
  apply quiet_of_noHeader
  rintro ⟨blanks, -, -, inside⟩
  apply isDefault.noClass
  have suffix : "class".toList <:+ "data".toList ++ (blanks ++ "class".toList) := by
    rw [← List.append_assoc]
    exact List.suffix_append _ _
  exact suffix.isInfix.trans inside

theorem Quiet.append {text more : List Char} (first : Quiet text) (second : Quiet more)
    (stops : ∀ rest, Stops rest → Stops (more ++ rest)) : Quiet (text ++ more) := by
  intro offset rest stopped
  rw [List.append_assoc, first _ _ (stops rest stopped), second _ _ stopped, List.length_append,
    Nat.add_assoc]

theorem Quiet.behind_char {text : List Char} (quiet : Quiet text) {c : Char}
    (noWord : isWord c = false) : Quiet (c :: text) := by
  intro offset rest stopped
  rw [List.cons_append, headersFrom_noWord noWord, quiet _ _ stopped, List.length_cons]
  congr 1
  omega

theorem headersFrom_gap {a b : List Char} (gap : Gap a b) (offset : Nat) (rest : List Char) :
    headersFrom offset false (b ++ rest) = headersFrom (offset + b.length) false rest := by
  have blanks := gap.blanks
  clear gap
  induction b generalizing offset with
  | nil => rfl
  | cons c b ih =>
    obtain ⟨first, later⟩ := List.forall_mem_cons.mp blanks
    rw [List.cons_append, headersFrom_noWord (isWord_of_isBlank first), ih _ later,
      List.length_cons]
    congr 1
    omega

theorem Quiet.behind_gap {text a b : List Char} (quiet : Quiet text) (gap : Gap a b) :
    Quiet (b ++ text) := by
  intro offset rest stopped
  rw [List.append_assoc, headersFrom_gap gap, quiet _ _ stopped, List.length_append,
    Nat.add_assoc]

theorem Gap.quiet {a b : List Char} (gap : Gap a b) : Quiet b := by
  have quiet := quiet_nil.behind_gap gap
  rwa [List.append_nil] at quiet

/-- A character that is part of no word and no blank. -/
def Breaks (c : Char) : Prop :=
  isWord c = false ∧ isBlank c = false

instance (c : Char) : Decidable (Breaks c) :=
  inferInstanceAs (Decidable (_ ∧ _))

theorem stops_char {c : Char} (breaks : Breaks c) (rest : List Char) : Stops (c :: rest) where
  noWord d head := by
    rw [← Option.some.inj head]
    exact breaks.1
  noClass starts := by
    simp only [skipBlanks, List.dropWhile_cons, breaks.2, Bool.false_eq_true, if_false] at starts
    obtain ⟨rfl, -⟩ := List.cons_prefix_cons.mp starts
    exact absurd breaks.1 (by decide)

theorem Stops.behind_gap {rest a b : List Char} (stops : Stops rest) (gap : Gap a b) :
    Stops (b ++ rest) where
  noWord c head := by
    by_cases wide : b = []
    · subst wide
      exact stops.noWord c head
    · exact isWord_of_isBlank (gap.blanks c (head_mem wide head))
  noClass := by
    rw [skipBlanks_blanks gap.blanks]
    exact stops.noClass

theorem stops_gap_char {a b : List Char} (gap : Gap a b) {c : Char} (breaks : Breaks c)
    (rest : List Char) : Stops (b ++ c :: rest) :=
  (stops_char breaks rest).behind_gap gap

/-- Text and what follows it, with a gap and then a mark in between. -/
theorem Quiet.append_mark {text more a b : List Char} (first : Quiet text) (gap : Gap a b)
    {c : Char} (breaks : Breaks c) (second : Quiet more) : Quiet (text ++ (b ++ c :: more)) := by
  apply first.append ((second.behind_char breaks.1).behind_gap gap)
  intro rest _
  rw [List.append_assoc]
  exact stops_gap_char gap breaks (more ++ rest)

theorem TypeText.quiet {part : TypePart} {w p : List Char} (type : TypeText part w p) :
    Quiet p := by
  induction type with
  | name isName => exact isName.quiet
  | generic isName gap _ ih =>
    have items := ih.append_mark Gap.nil (c := '>') (by decide) quiet_nil
    have generic := isName.quiet.append_mark gap (c := '<') (by decide) items
    simpa using generic
  | function _ first second _ items result =>
    have head := (result.behind_gap second).behind_char (c := '>') (by decide)
    have arrow := (head.behind_char (c := '-') (by decide)).behind_gap first
    have parameters := items.append_mark Gap.nil (c := ')') (by decide) arrow
    have function := parameters.behind_char (c := '(') (by decide)
    simpa using function
  | nullable _ gap ih =>
    have nullable := ih.append_mark gap (c := '?') (by decide) quiet_nil
    simpa using nullable
  | spaced before _ behind ih =>
    have type := ih.append behind.quiet fun rest stops => stops.behind_gap behind
    rw [List.append_assoc]
    exact type.behind_gap before
  | none gap => exact gap.quiet
  | one _ ih => exact ih
  | more _ _ first later =>
    exact first.append_mark Gap.nil (c := ',') (by decide) later

theorem NullableText.quiet {nullable : Bool} {x q : List Char} (mark : NullableText nullable x q) :
    Quiet q := by
  cases mark with
  | absent => exact quiet_nil
  | present gap => exact quiet_nil.append_mark gap (c := '?') (by decide) quiet_nil

theorem NullableText.stops {nullable : Bool} {x q : List Char} (mark : NullableText nullable x q)
    {rest : List Char} (stopped : Stops rest) : Stops (q ++ rest) := by
  cases mark with
  | absent => exact stopped
  | present gap =>
    rw [List.append_assoc]
    exact stops_gap_char gap (by decide) _

theorem DefaultText.quiet {hasDefault : Bool} {y z : List Char}
    (default : DefaultText hasDefault y z) : Quiet z := by
  cases default with
  | absent => exact quiet_nil
  | present before behind isDefault =>
    have code := isDefault.quiet.behind_gap behind
    have default := (code.behind_char (c := '=') (by decide)).behind_gap before
    simpa using default

theorem DefaultText.stops {hasDefault : Bool} {y z : List Char}
    (default : DefaultText hasDefault y z) {rest : List Char} (stopped : Stops rest) :
    Stops (z ++ rest) := by
  cases default with
  | absent => exact stopped
  | present before =>
    simp only [List.append_assoc, List.cons_append]
    exact stops_gap_char before (by decide) _

theorem class_not_prefix {word : List Char} (known : word ∈ modifiers ∨ isPropertyWord word = true)
    (rest : List Char) : ¬ "class".toList <+: word ++ rest := by
  have words : ∀ word ∈ "val".toList :: "var".toList :: modifiers,
      2 ≤ word.length ∧ ¬ ['c', 'l'] <+: word := by decide
  have member : word ∈ "val".toList :: "var".toList :: modifiers := by
    rw [isPropertyWord_iff] at known
    rcases known with modifier | rfl | rfl
    · exact List.mem_cons_of_mem _ (List.mem_cons_of_mem _ modifier)
    · exact List.mem_cons_self
    · exact List.mem_cons_of_mem _ List.mem_cons_self
  obtain ⟨long, other⟩ := words word member
  intro starts
  have two : ['c', 'l'] <+: word ++ rest := List.IsPrefix.trans (by decide) starts
  exact other (List.prefix_of_prefix_length_le two (List.prefix_append _ _) long)

theorem Markers.stops {w p a b : List Char} (markers : Markers w p) (gap : Gap a b)
    (wide : a ≠ []) {word : List Char} (property : isPropertyWord word = true)
    (rest : List Char) : Stops (b ++ (p ++ (word ++ rest))) where
  noWord c head := isWord_of_isBlank (gap.blank_head wide c head)
  noClass := by
    have stays := skipBlanks_name (isName_of_property property) rest
    rw [skipBlanks_blanks gap.blanks, markers.skipBlanks stays]
    cases markers with
    | nil => exact class_not_prefix (.inr property) rest
    | annotated => simp
    | modifier known =>
      simp only [List.append_assoc]
      exact class_not_prefix (.inl known) _

theorem headersFrom_noData {text rest : List Char} (noData : ∀ c ∈ text, c ≠ 'd')
    (noWord : ∀ c, rest.head? = some c → isWord c = false) (offset : Nat) (afterWord : Bool) :
    headersFrom offset afterWord (text ++ rest) =
      headersFrom (offset + text.length) false rest := by
  induction text generalizing offset afterWord with
  | nil => exact headersFrom_afterWord noWord offset afterWord
  | cons c text ih =>
    obtain ⟨first, later⟩ := List.forall_mem_cons.mp noData
    rw [List.cons_append, headersFrom_char first, ih later, List.length_cons]
    congr 1
    omega

/-- No header ends with `val` or `var`, so any name may follow. -/
theorem Quiet.behind_property {text word a b : List Char} (quiet : Quiet text)
    (property : isPropertyWord word = true) (gap : Gap a b) (wide : a ≠ []) :
    Quiet (word ++ (b ++ text)) := by
  have noData : ∀ c ∈ word, c ≠ 'd' := by
    rcases isPropertyWord_iff.mp property with rfl | rfl
    · decide
    · decide
  intro offset rest stopped
  have noWord : ∀ c, (b ++ (text ++ rest)).head? = some c → isWord c = false :=
    fun c head => isWord_of_isBlank (gap.blank_head wide c head)
  have behind := (quiet.behind_gap gap) (offset + word.length) rest stopped
  rw [List.append_assoc] at behind
  rw [List.append_assoc, List.append_assoc, headersFrom_noData noData noWord, behind,
    @List.length_append _ word, Nat.add_assoc]

/-- Markers are followed by markers or by the word of a property. -/
theorem Markers.quiet {w p : List Char} (markers : Markers w p) {word text : List Char}
    (property : isPropertyWord word = true) (quiet : Quiet (word ++ text)) :
    Quiet (p ++ (word ++ text)) := by
  have stops {a b w p : List Char} (gap : Gap a b) (wide : a ≠ []) (markers : Markers w p)
      (rest : List Char) : Stops (b ++ (p ++ (word ++ text)) ++ rest) := by
    simp only [List.append_assoc]
    exact markers.stops gap wide property _
  induction markers with
  | nil => exact quiet
  | annotated isName gap wide markers ih =>
    have later := isName.quiet.append (ih.behind_gap gap) fun rest _ => stops gap wide markers rest
    have marked := later.behind_char (c := '@') (by decide)
    simpa using marked
  | modifier known gap wide markers ih =>
    have isName := isName_of_modifier known
    have marked := isName.quiet.append (ih.behind_gap gap) fun rest _ => stops gap wide markers rest
    simpa using marked

theorem FieldText.quiet {f : Field} {w p : List Char} (field : FieldText f w p) : Quiet p := by
  cases field with
  | intro markers property first wide isName second third type _ mark default =>
    have marked := mark.quiet.append default.quiet fun rest stopped => default.stops stopped
    have typed := type.quiet.append marked fun rest stopped => by
      rw [List.append_assoc]
      exact mark.stops (default.stops stopped)
    have named := isName.quiet.append_mark second (c := ':') (by decide)
      (typed.behind_gap third)
    have field := markers.quiet property (named.behind_property property first wide)
    simpa using field

theorem FieldsText.quiet {fields : List Field} {w p : List Char} (text : FieldsText fields w p) :
    Quiet p := by
  induction text with
  | none gap => exact gap.quiet
  | last before field behind =>
    have last := field.quiet.append behind.quiet fun rest stops => stops.behind_gap behind
    rw [List.append_assoc]
    exact last.behind_gap before
  | more before field behind _ ih =>
    have field := field.quiet.append_mark behind (c := ',') (by decide) ih
    simpa using field.behind_gap before

theorem dropWord?_append (word rest : List Char) : dropWord? word (word ++ rest) = some rest := by
  rw [dropWord?, if_pos (List.prefix_append word rest), List.drop_left]

theorem isHeaderTail_blanks {blanks : List Char} (all : ∀ c ∈ blanks, isBlank c = true) :
    isHeaderTail blanks = true := by
  have skipped := skipBlanks_blanks all []
  rw [List.append_nil] at skipped
  rw [isHeaderTail, skipped]
  rfl

theorem headerAt?_head {a b c d e g name : List Char} (first : Gap a b) (wide : a ≠ [])
    (second : Gap c d) (wide' : c ≠ []) (isName : IsName name) (third : Gap e g)
    (rest : List Char) :
    headerAt? ("data".toList ++ (b ++ ("class".toList ++ (d ++ (name ++ (g ++ '(' :: rest)))))) =
      some (name, ("data".toList ++ b ++ "class".toList ++ d ++ name ++ g).length + 1) := by
  have word : IsName "class".toList := by decide
  have ends : ∀ c, (g ++ '(' :: rest).head? = some c → isWord c = false :=
    third.ends_word (by decide)
  have inside : ∀ c ∈ g, decide (c ≠ '(') = true := by
    intro c member
    rw [decide_eq_true_eq]
    rintro rfl
    exact absurd (third.blanks _ member) (by decide)
  have stop : ∀ c, ('(' :: rest).head? = some c → decide (c ≠ '(') = false := by simp
  simp only [headerAt?, Option.bind_eq_bind, dropWord?_append, Option.bind_some,
    skipSomeBlanks?_blanks first.blanks (first.ne_nil wide), skipBlanks_name word,
    skipSomeBlanks?_blanks second.blanks (second.ne_nil wide'), skipBlanks_name isName,
    takeWhile_run isName.2 ends, dropWhile_run isName.2 ends, takeWhile_run inside stop,
    dropWhile_run inside stop]
  rw [if_pos ⟨isName.1, List.cons_ne_nil _ _, isHeaderTail_blanks third.blanks⟩]
  simp only [List.length_append, List.length_cons]
  congr 2
  omega

theorem headersFrom_header {text name : List Char} {n : Nat}
    (header : headerAt? text = some (name, n + 1)) (offset : Nat) :
    headersFrom offset false text = ⟨String.ofList name, offset, offset + (n + 1)⟩ ::
      headersFrom (offset + (n + 1)) false (text.drop (n + 1)) := by
  cases text with
  | nil =>
    obtain ⟨blanks, more, -, -, same⟩ := keywords_of_headerAt? header
    cases same
  | cons c rest =>
    rw [headersFrom]
    simp [header]

end RecordCompat.Source
