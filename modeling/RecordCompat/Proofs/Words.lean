import RecordCompat.Proofs.Stripping

/-! Words and the blanks between them. No character is both, so a run of either ends where
the other begins. Types are made of them and of a few marks. -/
namespace RecordCompat.Source

open Text

theorem isWord_of_isBlank {c : Char} (blank : isBlank c = true) : isWord c = false := by
  let codes := [9, 10, 11, 12, 13, 28, 29, 30, 31, 32, 0x85, 0xA0, 0x1680, 0x2000, 0x2001, 0x2002,
    0x2003, 0x2004, 0x2005, 0x2006, 0x2007, 0x2008, 0x2009, 0x200A, 0x2028, 0x2029, 0x202F, 0x205F,
    0x3000]
  have member : c.toNat ∈ codes := by
    simp only [isBlank, Bool.or_eq_true, Bool.and_eq_true, decide_eq_true_eq, beq_iff_eq] at blank
    simp only [codes, List.mem_cons, List.not_mem_nil, or_false]
    omega
  have noWord : ∀ n ∈ codes, isWord (Char.ofNat n) = false := by decide +kernel
  have same := noWord c.toNat member
  rwa [Char.ofNat_toNat] at same

theorem isBlank_of_isWord {c : Char} (word : isWord c = true) : isBlank c = false := by
  apply Bool.eq_false_iff.mpr
  intro blank
  rw [isWord_of_isBlank blank] at word
  cases word

def Blanks (text : List Char) : Prop :=
  ∀ c ∈ text, isBlank c = true

instance (text : List Char) : Decidable (Blanks text) :=
  inferInstanceAs (Decidable (∀ c ∈ text, isBlank c = true))

theorem gap_of_blanks {s : List Char} (blanks : Blanks s) : Gap s s := by
  induction s with
  | nil => exact .nil
  | cons c s ih =>
    obtain ⟨first, later⟩ := List.forall_mem_cons.mp blanks
    exact .blank first (ih later)

section Run

variable {p : Char → Bool} {run rest : List Char} (inside : ∀ c ∈ run, p c = true)
  (ends : ∀ c, rest.head? = some c → p c = false)
include inside ends

theorem takeWhile_run : (run ++ rest).takeWhile p = run := by
  rw [List.takeWhile_append_of_pos inside]
  cases rest with
  | nil => simp
  | cons c rest => simp [ends c rfl]

theorem dropWhile_run : (run ++ rest).dropWhile p = rest := by
  have split := @List.takeWhile_append_dropWhile _ p (run ++ rest)
  rw [takeWhile_run inside ends] at split
  exact List.append_cancel_left split

end Run

theorem head_mem {run rest : List Char} (nonempty : run ≠ []) {c : Char}
    (head : (run ++ rest).head? = some c) : c ∈ run := by
  cases run with
  | nil => exact absurd rfl nonempty
  | cons d run =>
    obtain rfl := Option.some.inj head
    exact List.mem_cons_self

theorem Gap.blank_head {a b : List Char} (gap : Gap a b) (wide : a ≠ []) {rest : List Char} :
    ∀ c, (b ++ rest).head? = some c → isBlank c = true :=
  fun c head => gap.blanks c (head_mem (gap.ne_nil wide) head)

/-- A word ends at a gap, and without one at a character that is part of no word. -/
theorem Gap.ends_word {a b : List Char} (gap : Gap a b) {d : Char} (noWord : isWord d = false)
    {rest : List Char} : ∀ c, (b ++ d :: rest).head? = some c → isWord c = false := by
  intro c head
  by_cases wide : b = []
  · subst wide
    obtain rfl := Option.some.inj head
    exact noWord
  · exact isWord_of_isBlank (gap.blanks c (head_mem wide head))

theorem skipBlanks_of_head {text : List Char}
    (noBlank : ∀ c, text.head? = some c → isBlank c = false) : skipBlanks text = text := by
  cases text with
  | nil => rfl
  | cons c text => rw [skipBlanks, List.dropWhile_cons, noBlank c rfl]; rfl

theorem skipBlanks_blanks {blanks : List Char} (all : ∀ c ∈ blanks, isBlank c = true)
    (rest : List Char) : skipBlanks (blanks ++ rest) = skipBlanks rest := by
  rw [skipBlanks, List.dropWhile_append_of_pos all, skipBlanks]

theorem skipSomeBlanks?_blanks {blanks : List Char} (all : ∀ c ∈ blanks, isBlank c = true)
    (wide : blanks ≠ []) (rest : List Char) :
    skipSomeBlanks? (blanks ++ rest) = some (skipBlanks rest) := by
  cases blanks with
  | nil => exact absurd rfl wide
  | cons c blanks =>
    obtain ⟨first, later⟩ := List.forall_mem_cons.mp all
    rw [List.cons_append, skipSomeBlanks?, if_pos first, skipBlanks_blanks later]

theorem skipBlanks_name {name : List Char} (isName : IsName name) (rest : List Char) :
    skipBlanks (name ++ rest) = name ++ rest := by
  obtain ⟨nonempty, words⟩ := isName
  cases name with
  | nil => exact absurd rfl nonempty
  | cons c name =>
    have word := words c List.mem_cons_self
    simp [skipBlanks, isBlank_of_isWord word]

/-- Behind markers no blank stands, if none stands behind all of them. -/
theorem Markers.skipBlanks {w p : List Char} (markers : Markers w p) {text : List Char}
    (stays : skipBlanks text = text) : skipBlanks (p ++ text) = p ++ text := by
  cases markers with
  | nil => exact stays
  | annotated =>
    have sign : isBlank '@' = false := by decide
    simp [Text.skipBlanks, sign]
  | modifier known =>
    simp only [List.append_assoc]
    exact skipBlanks_name (isName_of_modifier known) _

structure Trimmed (text : List Char) : Prop where
  nonempty : text ≠ []
  first : ∀ c, text.head? = some c → isBlank c = false
  last : ∀ c, text.getLast? = some c → isBlank c = false

theorem Trimmed.of_ends {s v text : List Char} (front : Trimmed s) (back : Trimmed v)
    (starts : s <+: text) (stops : v <:+ text) : Trimmed text where
  nonempty := by
    rintro rfl
    exact front.nonempty (List.prefix_nil.mp starts)
  first c head := by
    obtain ⟨t, rfl⟩ := starts
    apply front.first c
    cases s with
    | nil => exact absurd rfl front.nonempty
    | cons d s => exact head
  last c end? := by
    obtain ⟨u, rfl⟩ := stops
    apply back.last c
    cases last : v.getLast? with
    | none => exact absurd (List.getLast?_eq_none_iff.mp last) back.nonempty
    | some d => rwa [List.getLast?_append, last] at end?

theorem IsName.trimmed {name : List Char} (isName : IsName name) : Trimmed name where
  nonempty := isName.1
  first c head := isBlank_of_isWord (isName.2 c (List.mem_of_mem_head? head))
  last c end? := isBlank_of_isWord (isName.2 c (List.mem_of_mem_getLast? end?))

theorem not_blank_of_dropWhile {text : List Char} {c : Char}
    (head : (text.dropWhile isBlank).head? = some c) : isBlank c = false := by
  have first := List.head?_dropWhile_not isBlank text
  rwa [head] at first

theorem isPrefix_stripRight (text : List Char) : stripRight text <+: text := by
  have back := (List.dropWhile_suffix (l := text.reverse) isBlank).reverse
  rwa [List.reverse_reverse] at back

theorem mem_of_mem_strip {text : List Char} {c : Char} (member : c ∈ strip text) : c ∈ text :=
  (List.dropWhile_suffix isBlank).subset ((isPrefix_stripRight _).subset member)

theorem head?_of_front {front text : List Char} (part : front <+: text) (nonempty : front ≠ []) :
    front.head? = text.head? := by
  obtain ⟨tail, rfl⟩ := part
  cases front with
  | nil => exact absurd rfl nonempty
  | cons c front => rfl

theorem trimmed_stripRight {text : List Char} (first : ∀ c, text.head? = some c → isBlank c = false)
    (nonempty : stripRight text ≠ []) : Trimmed (stripRight text) where
  nonempty := nonempty
  first c head := first c (by rwa [← head?_of_front (isPrefix_stripRight text) nonempty])
  last c end? := by
    rw [stripRight, List.getLast?_reverse] at end?
    exact not_blank_of_dropWhile end?

theorem trimmed_strip {text : List Char} (nonempty : strip text ≠ []) : Trimmed (strip text) :=
  trimmed_stripRight (fun _ head => not_blank_of_dropWhile head) nonempty

theorem trimmed_of_strip {text : List Char} (stripped : strip text = text)
    (nonempty : text ≠ []) : Trimmed text := by
  rw [← stripped] at nonempty ⊢
  exact trimmed_strip nonempty

theorem trimmed_char {c : Char} (noBlank : isBlank c = false) : Trimmed [c] where
  nonempty := List.cons_ne_nil _ _
  first d head := by rwa [← Option.some.inj head]
  last d end? := by rwa [← Option.some.inj end?]

theorem strip_blanks {blanks : List Char} (all : ∀ c ∈ blanks, isBlank c = true) :
    strip blanks = [] := by
  have skipped := skipBlanks_blanks all []
  rw [List.append_nil] at skipped
  rw [strip, skipped]
  rfl

theorem stripRight_blanks {text blanks : List Char} (all : ∀ c ∈ blanks, isBlank c = true)
    (last : ∀ c, text.getLast? = some c → isBlank c = false) :
    stripRight (text ++ blanks) = text := by
  rw [stripRight, List.reverse_append, dropWhile_run, List.reverse_reverse]
  · simpa using all
  · simpa using last

theorem Trimmed.strip_padded {text before behind : List Char} (trimmed : Trimmed text)
    (before' : ∀ c ∈ before, isBlank c = true) (behind' : ∀ c ∈ behind, isBlank c = true) :
    strip (before ++ text ++ behind) = text := by
  rw [strip, List.append_assoc, skipBlanks_blanks before', skipBlanks]
  have kept : (text ++ behind).dropWhile isBlank = text ++ behind := by
    have first := trimmed.first
    cases text with
    | nil => exact absurd rfl trimmed.nonempty
    | cons c text => simp [first c rfl]
  rw [kept]
  exact stripRight_blanks behind' trimmed.last

/-- The characters of types. They open no literal and begin no default. -/
def IsTypeChar (c : Char) : Prop :=
  isWord c = true ∨ isBlank c = true ∨ c ∈ ['<', '>', '(', ')', ',', '-', '?']

theorem IsName.typeChars {name : List Char} (isName : IsName name) : ∀ c ∈ name, IsTypeChar c :=
  fun c member => .inl (isName.2 c member)

theorem Blanks.typeChars {s : List Char} (blanks : Blanks s) : ∀ c ∈ s, IsTypeChar c :=
  fun c member => .inr (.inl (blanks c member))

/-- The shape of a type as bare text. A type may stand in parentheses, with blanks around it. -/
inductive TypeShape : TypePart → List Char → Prop
  | name {name : List Char} : IsName name → TypeShape .type name
  | generic {name s text : List Char} : IsName name → Blanks s → TypeShape .items text →
      TypeShape .type (name ++ (s ++ '<' :: (text ++ ['>'])))
  | function {text s t text' : List Char} : TypeShape .items text → Blanks s → Blanks t →
      TypeShape .type text' →
      TypeShape .type ('(' :: (text ++ ')' :: (s ++ '-' :: '>' :: (t ++ text'))))
  | group {text : List Char} : TypeShape .item text → TypeShape .type ('(' :: (text ++ [')']))
  | nullable {text s : List Char} : TypeShape .type text → Blanks s →
      TypeShape .type (text ++ (s ++ ['?']))
  | spaced {s text t : List Char} : Blanks s → TypeShape .type text → Blanks t →
      TypeShape .item (s ++ (text ++ t))
  | none {s : List Char} : Blanks s → TypeShape .items s
  | one {text : List Char} : TypeShape .item text → TypeShape .items text
  | more {text text' : List Char} : TypeShape .item text → TypeShape .items text' →
      TypeShape .items (text ++ ',' :: text')

theorem TypeText.shape {part : TypePart} {w p : List Char} (type : TypeText part w p) :
    TypeShape part p := by
  induction type with
  | name isName => exact .name isName
  | generic isName gap _ ih => simpa using TypeShape.generic isName gap.blanks ih
  | function _ first second _ items result =>
    simpa using TypeShape.function items first.blanks second.blanks result
  | nullable _ gap ih => simpa using TypeShape.nullable ih gap.blanks
  | spaced before _ behind ih => simpa using TypeShape.spaced before.blanks ih behind.blanks
  | none gap => exact .none gap.blanks
  | one _ ih => exact .one ih
  | more _ _ first later => exact .more first later

theorem TypeShape.chars {part : TypePart} {text : List Char} (shape : TypeShape part text) :
    ∀ c ∈ text, IsTypeChar c := by
  have mark (c : Char) (isMark : c ∈ ['<', '>', '(', ')', ',', '-', '?']) : IsTypeChar c :=
    .inr (.inr isMark)
  induction shape with
  | name isName => exact isName.typeChars
  | generic isName blanks _ ih =>
    simp only [List.forall_mem_append, List.forall_mem_cons]
    exact ⟨isName.typeChars, blanks.typeChars, mark '<' (by decide), ih, mark '>' (by decide),
      List.forall_mem_nil _⟩
  | function _ blanks blanks' _ items result =>
    simp only [List.forall_mem_append, List.forall_mem_cons]
    exact ⟨mark '(' (by decide), items, mark ')' (by decide), blanks.typeChars,
      mark '-' (by decide), mark '>' (by decide), blanks'.typeChars, result⟩
  | group _ ih =>
    simp only [List.forall_mem_append, List.forall_mem_cons]
    exact ⟨mark '(' (by decide), ih, mark ')' (by decide), List.forall_mem_nil _⟩
  | nullable _ blanks ih =>
    simp only [List.forall_mem_append, List.forall_mem_cons]
    exact ⟨ih, blanks.typeChars, mark '?' (by decide), List.forall_mem_nil _⟩
  | spaced blanks _ blanks' ih =>
    simp only [List.forall_mem_append]
    exact ⟨blanks.typeChars, ih, blanks'.typeChars⟩
  | none blanks => exact blanks.typeChars
  | one _ ih => exact ih
  | more _ _ first later =>
    simp only [List.forall_mem_append, List.forall_mem_cons]
    exact ⟨first, mark ',' (by decide), later⟩

theorem NullableText.typeChars {nullable : Bool} {w p : List Char}
    (mark : NullableText nullable w p) : ∀ c ∈ p, IsTypeChar c := by
  cases mark with
  | absent => simp
  | present gap =>
    have question : IsTypeChar '?' := .inr (.inr (by decide))
    intro c member
    rcases List.mem_append.mp member with blank | last
    · exact Blanks.typeChars gap.blanks c blank
    · rwa [List.mem_singleton.mp last]

theorem opensLiteral_of_typeChar {c : Char} (isTypeChar : IsTypeChar c) :
    opensLiteral c = false := by
  rcases isTypeChar with word | blank | mark
  · have name : IsName [c] := ⟨List.cons_ne_nil _ _, by simpa using word⟩
    exact opensLiteral_of_plain (name.plain c List.mem_cons_self)
  · have plain : Plain [c] := plain_of_blanks (by simpa using blank)
    exact opensLiteral_of_plain (plain c List.mem_cons_self)
  · have noLiteral : ∀ c ∈ ['<', '>', '(', ')', ',', '-', '?'], opensLiteral c = false := by decide
    exact noLiteral c mark

theorem ne_equals_of_typeChar {c : Char} (isTypeChar : IsTypeChar c) : c ≠ '=' := by
  rintro rfl
  rcases isTypeChar with word | blank | mark
  · exact absurd word (by decide)
  · exact absurd blank (by decide)
  · exact absurd mark (by decide)

theorem TypeShape.trimmed {text : List Char} (shape : TypeShape .type text) : Trimmed text := by
  generalize part : TypePart.type = part at shape
  induction shape with
  | name isName => exact isName.trimmed
  | generic isName =>
    have closing : Trimmed ['>'] := trimmed_char (by decide)
    refine isName.trimmed.of_ends closing (List.prefix_append _ _) ?_
    simp only [← List.cons_append, ← List.append_assoc]
    exact List.suffix_append _ _
  | @function text s t text' _ _ _ _ _ result =>
    have opening : Trimmed ['('] := trimmed_char (by decide)
    refine opening.of_ends (result part) (by simp) ?_
    simp only [← List.cons_append, ← List.append_assoc]
    exact List.suffix_append _ _
  | @group text =>
    have opening : Trimmed ['('] := trimmed_char (by decide)
    have closing : Trimmed [')'] := trimmed_char (by decide)
    exact opening.of_ends closing (by simp) (List.suffix_append ('(' :: text) _)
  | nullable _ _ ih =>
    have mark : Trimmed ['?'] := trimmed_char (by decide)
    refine (ih part).of_ends mark (List.prefix_append _ _) ?_
    rw [← List.append_assoc]
    exact List.suffix_append _ _
  | _ => cases part

end RecordCompat.Source
