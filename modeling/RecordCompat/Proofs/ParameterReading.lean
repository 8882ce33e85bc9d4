import RecordCompat.Proofs.Words

/-! Reading a parameter gives back the field it was written for. The search for the name
goes through the markers by induction; the type and the default are what stands on the two
sides of the first equals sign, as types have none. -/
namespace RecordCompat.Source

open Text

theorem skipArguments_of_head {text : List Char} (other : text.head? ≠ some '(') :
    skipArguments text = text := by
  unfold skipArguments
  split
  · exact absurd rfl other
  · rfl

theorem isMarkerChar_of_isWord {c : Char} (word : isWord c = true) : isMarkerChar c = true := by
  simp [isMarkerChar, word]

theorem isMarkerChar_of_isBlank {c : Char} (blank : isBlank c = true) :
    isMarkerChar c = false := by
  have other : c ≠ '.' ∧ c ≠ ':' := by
    constructor <;> (rintro rfl; exact absurd blank (by decide))
  simp [isMarkerChar, isWord_of_isBlank blank, other]

theorem Markers.property? {w p : List Char} (markers : Markers w p) {text : List Char}
    (stays : Text.skipBlanks text = text) {found : List Char × List Char}
    (read : property? text = some found) : property? (p ++ text) = some found := by
  induction markers with
  | nil => exact read
  | @annotated name a b w p isName gap wide markers ih =>
    have blankHead : ∀ c, (b ++ (p ++ text)).head? = some c → isBlank c = true :=
      gap.blank_head wide
    have inside : ∀ c ∈ name, isMarkerChar c = true :=
      fun c member => isMarkerChar_of_isWord (isName.2 c member)
    have ends : ∀ c, (b ++ (p ++ text)).head? = some c → isMarkerChar c = false :=
      fun c head => isMarkerChar_of_isBlank (blankHead c head)
    have noArguments : (b ++ (p ++ text)).head? ≠ some '(' :=
      fun head => absurd (blankHead _ head) (by decide)
    simp only [List.cons_append, List.append_assoc]
    rw [Source.property?]
    simp only [takeWhile_run inside ends, dropWhile_run inside ends,
      skipArguments_of_head noArguments, skipBlanks_blanks gap.blanks, markers.skipBlanks stays, ih,
      if_neg isName.1]
    rfl
  | @modifier word a b w p known gap wide markers ih =>
    have isName := isName_of_modifier known
    have ends : ∀ c, (b ++ (p ++ text)).head? = some c → isWord c = false :=
      fun c head => isWord_of_isBlank (gap.blank_head wide c head)
    have dropped : dropModifier? (word ++ (b ++ (p ++ text))) = some (p ++ text) := by
      simp only [dropModifier?, takeWhile_run isName.2 ends, dropWhile_run isName.2 ends,
        if_pos known]
      rw [skipSomeBlanks?_blanks gap.blanks (gap.ne_nil wide), markers.skipBlanks stays]
    simp only [List.append_assoc]
    rw [Source.property?]
    · split
      next rest same => rw [dropped] at same; cases same; exact ih
      next none => rw [dropped] at none; cases none
    · intro rest same
      have sign := isName.2 '@' (head_mem isName.1 (congrArg List.head? same))
      exact absurd sign (by decide)

theorem skipBlanks_colon {s : List Char} (blanks : Blanks s) (rest : List Char) :
    skipBlanks (s ++ ':' :: rest) = ':' :: rest := by
  have noBlank : ∀ c, (':' :: rest).head? = some c → isBlank c = false := by
    intro c head
    obtain rfl := Option.some.inj head
    decide
  rw [skipBlanks_blanks blanks, skipBlanks_of_head noBlank]

theorem noWord_of_blanks_colon {s rest : List Char} (blanks : Blanks s) :
    ∀ c, (s ++ ':' :: rest).head? = some c → isWord c = false :=
  (gap_of_blanks blanks).ends_word (by decide)

theorem named?_name {name s t : List Char} (blanks : Blanks s) (wide : s ≠ [])
    (isName : IsName name) (blanks' : Blanks t) (rest : List Char) :
    named? (s ++ (name ++ (t ++ ':' :: rest))) = some (name, rest) := by
  rw [named?, skipSomeBlanks?_blanks blanks wide, skipBlanks_name isName]
  simp only [Option.bind_eq_bind, Option.bind_some,
    takeWhile_run isName.2 (noWord_of_blanks_colon blanks'),
    dropWhile_run isName.2 (noWord_of_blanks_colon blanks'), skipBlanks_colon blanks']
  cases name with
  | nil => exact absurd rfl isName.1
  | cons => rfl

theorem head?_ne_sign {name : List Char} (isName : IsName name) (rest : List Char) :
    (name ++ rest).head? ≠ some '@' := fun head =>
  absurd (isName.2 '@' (head_mem isName.1 head)) (by decide)

theorem dropModifier?_property {word rest : List Char} (property : isPropertyWord word = true)
    (noWord : ∀ c, rest.head? = some c → isWord c = false) :
    dropModifier? (word ++ rest) = none := by
  have noModifier : word ∉ modifiers := by
    rcases isPropertyWord_iff.mp property with rfl | rfl
    · decide
    · decide
  simp only [dropModifier?, takeWhile_run (isName_of_property property).2 noWord, if_neg noModifier]

theorem property?_word {word rest : List Char} (isName : IsName word)
    (noWord : ∀ c, rest.head? = some c → isWord c = false)
    (kept : dropModifier? (word ++ rest) = none) :
    property? (word ++ rest) = if isPropertyWord word then named? rest else none := by
  rw [property?]
  · split
    next dropped => rw [kept] at dropped; cases dropped
    next => rw [takeWhile_run isName.2 noWord, dropWhile_run isName.2 noWord]
  · rintro tail same
    exact head?_ne_sign isName rest (by rw [same]; rfl)

/-- The word of a property, its name and its colon, with what stands behind. -/
theorem property?_named {word name a b c d : List Char} (property : isPropertyWord word = true)
    (first : Gap a b) (wide : a ≠ []) (isName : IsName name) (second : Gap c d)
    (rest : List Char) :
    property? (word ++ (b ++ (name ++ (d ++ ':' :: rest)))) = some (name, rest) := by
  have ends : ∀ c, (b ++ (name ++ (d ++ ':' :: rest))).head? = some c → isWord c = false :=
    fun c head => isWord_of_isBlank (first.blank_head wide c head)
  rw [property?_word (isName_of_property property) ends (dropModifier?_property property ends),
    if_pos property, named?_name first.blanks (first.ne_nil wide) isName second.blanks]

/-- A default begins at the first equals sign, with blanks in front of it at most. -/
theorem DefaultText.split {hasDefault : Bool} {y z : List Char}
    (default : DefaultText hasDefault y z) {head : List Char} (noEquals : ∀ c ∈ head, c ≠ '=') :
    ∃ blanks, (∀ c ∈ blanks, isBlank c = true) ∧
      (head ++ z).takeWhile (· ≠ '=') = head ++ blanks ∧
      (strip (((head ++ z).dropWhile (· ≠ '=')).drop 1) ≠ [] ↔ hasDefault = true) := by
  cases default with
  | absent =>
    have inside : ∀ c ∈ head, decide (c ≠ '=') = true := by simpa using noEquals
    have ends : ∀ c, ([] : List Char).head? = some c → decide (c ≠ '=') = false := by simp
    refine ⟨[], by simp, ?_, ?_⟩
    · rw [takeWhile_run inside ends, List.append_nil]
    · rw [dropWhile_run inside ends]
      simp [strip_blanks]
  | @present _ b _ d code before behind isDefault =>
    have inside : ∀ c ∈ head ++ b, decide (c ≠ '=') = true := by
      intro c member
      rw [decide_eq_true_eq]
      rcases List.mem_append.mp member with front | blank
      · exact noEquals c front
      · rintro rfl
        exact absurd (before.blanks _ blank) (by decide)
    have ends : ∀ c, ('=' :: (d ++ code)).head? = some c → decide (c ≠ '=') = false := by simp
    have parts : head ++ (b ++ '=' :: d ++ code) = head ++ b ++ '=' :: (d ++ code) := by simp
    refine ⟨b, before.blanks, ?_, ?_⟩
    · rw [parts, takeWhile_run inside ends]
    · have same : strip (d ++ code) = code := by
        rw [strip, skipBlanks_blanks behind.blanks, ← strip, isDefault.stripped]
      rw [parts, dropWhile_run inside ends, List.drop_one, List.tail_cons, same]
      simpa using isDefault.nonempty

/-- A question mark behind the type makes it nullable and is no part of it. -/
theorem NullableText.split {nullable : Bool} {x q type before behind : List Char}
    (mark : NullableText nullable x q) (trimmed : Trimmed type)
    (plain : type.getLast? ≠ some '?') (before' : ∀ c ∈ before, isBlank c = true)
    (behind' : ∀ c ∈ behind, isBlank c = true) :
    ∃ text, strip (before ++ type ++ q ++ behind) = text ∧
      (text.getLast? = some '?' ↔ nullable = true) ∧
      (if text.getLast? = some '?' then stripRight text.dropLast else text) = type := by
  cases mark with
  | absent =>
    refine ⟨type, ?_, by simpa using plain, if_neg plain⟩
    rw [List.append_nil, trimmed.strip_padded before' behind']
  | @present _ b gap =>
    have question : Trimmed ['?'] := trimmed_char (by decide)
    have marked : Trimmed (type ++ (b ++ ['?'])) :=
      trimmed.of_ends question (List.prefix_append _ _) ⟨type ++ b, by simp⟩
    have last : (type ++ (b ++ ['?'])).getLast? = some '?' := by simp
    refine ⟨type ++ (b ++ ['?']), ?_, by simp, ?_⟩
    · have stripped := marked.strip_padded before' behind'
      simpa using stripped
    · rw [if_pos last, ← List.append_assoc, List.dropLast_concat]
      exact stripRight_blanks gap.blanks trimmed.last

/-- Reading undoes writing, up to the position, which a parameter does not know. -/
theorem FieldText.read {f : Field} {w p : List Char} (field : FieldText f w p) :
    Parameter.read p = .property { f with position := 0 } := by
  cases field with
  | @intro word a b c d e g mw mp v x q y z markers property first wide isName second third type
      plain mark default =>
    have found : property? (mp ++ word ++ b ++ f.name.toList ++ d ++ ':' :: g ++ f.type.toList ++
        q ++ z) = some (f.name.toList, g ++ f.type.toList ++ q ++ z) := by
      have named := property?_named property first wide isName second
        (g ++ f.type.toList ++ q ++ z)
      have stays := skipBlanks_name (isName_of_property property)
        (b ++ (f.name.toList ++ (d ++ ':' :: (g ++ f.type.toList ++ q ++ z))))
      simpa using markers.property? stays named
    have noEquals : ∀ c ∈ g ++ f.type.toList ++ q, c ≠ '=' := by
      intro c member
      apply ne_equals_of_typeChar
      rcases List.mem_append.mp member with member | marked
      · rcases List.mem_append.mp member with blank | typed
        · exact Blanks.typeChars third.blanks c blank
        · exact type.shape.chars c typed
      · exact mark.typeChars c marked
    obtain ⟨blanks, allBlank, front, hasDefault⟩ := default.split noEquals
    obtain ⟨text, stripped, nullable, typed⟩ :=
      mark.split type.shape.trimmed plain third.blanks allBlank
    rw [← decide_eq_true_eq (p := text.getLast? = _), ← Bool.eq_iff_iff] at nullable
    rw [← decide_eq_true_eq (p := _ ≠ _), ← Bool.eq_iff_iff] at hasDefault
    simp only [Parameter.read, found, front, stripped]
    rw [if_neg (typed ▸ type.shape.trimmed.nonempty), typed, nullable, hasDefault,
      String.ofList_toList, String.ofList_toList]

end RecordCompat.Source
