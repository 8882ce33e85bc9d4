import RecordCompat.Proofs.ExtractedRecords
import RecordCompat.Proofs.ParameterReading

/-! Which parameters are properties. A parameter declares a property behind annotations and
modifiers, with `val` or `var`, a name and a colon. Reading it takes markers off its front, as
long as it can. Only the name of an annotation may be given up in part: where an annotation's name
ends in `val` or `var` and nothing behind it can be read, these are taken for the word of a
property. That is the one way in which a parameter without the word becomes a field. -/
namespace RecordCompat.Source

open Text

/-- What holds of the character at an end of a text is decided there, not over all characters. -/
instance (priority := high) decidableForallEnd {p : Char → Prop} [DecidablePred p]
    {end? : Option Char} : Decidable (∀ c ∈ end?, p c) :=
  Option.decidableForallMem end?

/-- The arguments of an annotation, if it has any. They hold no parentheses. -/
inductive Arguments : List Char → Prop
  | absent : Arguments []
  | present {inner : List Char} : (∀ c ∈ inner, c ≠ '(' ∧ c ≠ ')') →
      Arguments ('(' :: (inner ++ [')']))

/-- A complete annotation or a modifier, with the white space behind it, in front of `rest`. An
annotation's name is all of a run of marker characters. -/
inductive Marker : List Char → List Char → Prop
  | annotated {name arguments s rest : List Char} : name ≠ [] →
      (∀ c ∈ name, isMarkerChar c = true) → Arguments arguments → Blanks s →
      (∀ c ∈ (arguments ++ (s ++ rest)).head?, isMarkerChar c = false) →
      Marker ('@' :: (name ++ (arguments ++ s))) rest
  | modifier {word s rest : List Char} : word ∈ modifiers → Blanks s → s ≠ [] →
      Marker (word ++ s) rest

inductive Marked : List Char → List Char → Prop
  | nil {rest : List Char} : Marked [] rest
  | cons {marker front rest : List Char} : Marker marker (front ++ rest) → Marked front rest →
      Marked (marker ++ front) rest

/-- White space, a name that ends with its run of word characters, and a colon. -/
inductive Named (name : List Char) : List Char → Prop
  | intro {s t rest : List Char} : Blanks s → s ≠ [] → IsName name → Blanks t →
      Named name (s ++ (name ++ (t ++ ':' :: rest)))

/-- A parameter that declares the property `name`: behind its markers it has `val` or `var`, as a
word of its own. -/
inductive Declares (name : List Char) : List Char → Prop
  | intro {front word rest : List Char} : Marked front (word ++ rest) →
      (∀ c ∈ front.getLast?, isBlank c = true ∨ c = ')') →
      isPropertyWord word = true → Named name rest → Declares name (front ++ (word ++ rest))

/-- A parameter without such a word. -/
inductive PlainParameter (name : List Char) : List Char → Prop
  | intro {front s rest : List Char} : Marked front (name ++ (s ++ ':' :: rest)) → IsName name →
      Blanks s → PlainParameter name (front ++ (name ++ (s ++ ':' :: rest)))

/-- A parameter without the word whose last annotation has a longer name that ends in `val` or
`var`, with nothing but white space behind it. -/
inductive Swallows (name : List Char) : List Char → Prop
  | intro {front short word rest : List Char} : Marked front ('@' :: (short ++ (word ++ rest))) →
      short ≠ [] → (∀ c ∈ short, isMarkerChar c = true) → isPropertyWord word = true →
      Named name rest → Swallows name (front ++ '@' :: (short ++ (word ++ rest)))

theorem Named.noWord {name text : List Char} (named : Named name text) :
    ∀ c, text.head? = some c → isWord c = false := by
  obtain ⟨blanks, wide, -, -⟩ := named
  exact fun c head => isWord_of_isBlank (blanks c (head_mem wide head))

theorem named_of_named? {text name rest : List Char} (found : named? text = some (name, rest)) :
    Named name text := by
  have isName := named?_isName found
  simp only [named?, Option.bind_eq_bind, Option.bind_eq_some_iff] at found
  obtain ⟨behind, skipped, found⟩ := found
  obtain ⟨s, wide, blanks, rfl⟩ := eq_of_skipSomeBlanks? skipped
  split at found
  next c run tail here colon =>
    obtain ⟨rfl, rfl⟩ := Prod.mk.inj (Option.some.inj found)
    have splitName := @List.takeWhile_append_dropWhile _ isWord behind
    have splitBlanks := @List.takeWhile_append_dropWhile _ isBlank (behind.dropWhile isWord)
    have blanks' : Blanks ((behind.dropWhile isWord).takeWhile isBlank) :=
      List.all_eq_true.mp List.all_takeWhile
    rw [← skipBlanks, colon] at splitBlanks
    have named := @Named.intro _ _ _ tail blanks wide isName blanks'
    rwa [splitBlanks, splitName] at named
  next => cases found

theorem Named.named? {name text : List Char} (named : Named name text) :
    ∃ rest, named? text = some (name, rest) := by
  obtain @⟨s, t, rest, blanks, wide, isName, blanks'⟩ := named
  exact ⟨rest, named?_name blanks wide isName blanks' rest⟩

theorem Named.ne_colon {name text s rest : List Char} (named : Named name text)
    (blanks : Blanks s) : text ≠ s ++ ':' :: rest := by
  intro same
  have colon := skipBlanks_colon blanks rest
  obtain @⟨s', t, more, blanks', -, isName, -⟩ := named
  rw [← same, skipBlanks_blanks blanks', skipBlanks_name isName] at colon
  have letter := isName.2 ':' (head_mem isName.1 (congrArg List.head? colon))
  exact absurd letter (by decide)

theorem named?_colon {s : List Char} (blanks : Blanks s) (rest : List Char) :
    Source.named? (s ++ ':' :: rest) = none :=
  Option.eq_none_iff_forall_ne_some.mpr fun _ found =>
    (named_of_named? found).ne_colon blanks rfl

/-- Text as it stands behind markers: with a word or with a further annotation. -/
def Leads (text : List Char) : Prop :=
  ∃ c, text.head? = some c ∧ (isWord c = true ∨ c = '@')

theorem Leads.noBlank {text : List Char} (leads : Leads text) :
    ∀ c, text.head? = some c → isBlank c = false := by
  obtain ⟨c, head, char⟩ := leads
  intro d head'
  obtain rfl := Option.some.inj (head.symm.trans head')
  rcases char with word | rfl
  · exact isBlank_of_isWord word
  · decide

theorem Leads.noParenthesis {text s : List Char} (leads : Leads text) (blanks : Blanks s) :
    (s ++ text).head? ≠ some '(' := by
  intro head
  cases s with
  | nil =>
    obtain ⟨c, head', char⟩ := leads
    obtain rfl := Option.some.inj (head'.symm.trans head)
    exact absurd char (by decide)
  | cons c s =>
    obtain rfl := Option.some.inj head
    exact absurd (blanks '(' List.mem_cons_self) (by decide)

theorem leads_of_isName {name : List Char} (isName : IsName name) (rest : List Char) :
    Leads (name ++ rest) := by
  obtain ⟨c, tail, rfl⟩ := List.exists_cons_of_ne_nil isName.1
  exact ⟨c, rfl, .inl (isName.2 c List.mem_cons_self)⟩

theorem Marker.leads {marker rest : List Char} (isMarker : Marker marker rest) :
    Leads (marker ++ rest) := by
  cases isMarker with
  | annotated => exact ⟨'@', rfl, .inr rfl⟩
  | modifier known =>
    rw [List.append_assoc]
    exact leads_of_isName (isName_of_modifier known) _

theorem Marked.leads {front rest : List Char} (marked : Marked front rest) (leads : Leads rest) :
    Leads (front ++ rest) := by
  cases marked with
  | nil => exact leads
  | cons isMarker =>
    rw [List.append_assoc]
    exact isMarker.leads

theorem Arguments.skip {arguments rest : List Char} (text : Arguments arguments)
    (other : rest.head? ≠ some '(') : skipArguments (arguments ++ rest) = rest := by
  cases text with
  | absent => exact skipArguments_of_head other
  | @present inner plain =>
    have inside : ∀ c ∈ inner, decide (c ≠ '(' ∧ c ≠ ')') = true :=
      fun c member => decide_eq_true (plain c member)
    have stop : ∀ c, (')' :: rest).head? = some c → decide (c ≠ '(' ∧ c ≠ ')') = false := by simp
    have whole : '(' :: (inner ++ [')']) ++ rest = '(' :: (inner ++ ')' :: rest) := by simp
    rw [whole, skipArguments, dropWhile_run inside stop]
    rfl

def behindMarker? : List Char → Option (List Char)
  | '@' :: rest => some (skipBlanks (skipArguments (rest.dropWhile isMarkerChar)))
  | text => dropModifier? text

theorem behindMarker?_word {text : List Char} (noSign : text.head? ≠ some '@') :
    behindMarker? text = dropModifier? text := by
  rw [behindMarker?]
  rintro rest rfl
  exact noSign rfl

theorem Marker.behind {marker rest : List Char} (isMarker : Marker marker rest)
    (leads : Leads rest) : behindMarker? (marker ++ rest) = some rest := by
  cases isMarker with
  | @annotated name arguments s _ _ inside text blanks ends =>
    have whole : '@' :: (name ++ (arguments ++ s)) ++ rest =
        '@' :: (name ++ (arguments ++ (s ++ rest))) := by simp
    rw [whole, behindMarker?, dropWhile_run inside ends, text.skip (leads.noParenthesis blanks),
      skipBlanks_blanks blanks, skipBlanks_of_head leads.noBlank]
  | @modifier word s _ known blanks wide =>
    have isName := isName_of_modifier known
    have ends : ∀ c, (s ++ rest).head? = some c → isWord c = false :=
      fun c head => isWord_of_isBlank (blanks c (head_mem wide head))
    rw [List.append_assoc, behindMarker?_word (head?_ne_sign isName _)]
    simp only [dropModifier?, takeWhile_run isName.2 ends, dropWhile_run isName.2 ends,
      if_pos known]
    rw [skipSomeBlanks?_blanks blanks wide, skipBlanks_of_head leads.noBlank]

def Unmarked (text : List Char) : Prop :=
  ∀ rest, Leads rest → behindMarker? text ≠ some rest

/-- A text is divided into its markers and the rest in one way. -/
theorem Marked.unique {front front' rest rest' : List Char} (marked : Marked front rest)
    (marked' : Marked front' rest') (leads : Leads rest) (leads' : Leads rest')
    (unmarked : Unmarked rest) (unmarked' : Unmarked rest')
    (same : front ++ rest = front' ++ rest') : rest = rest' := by
  -- What stands behind the first marker is a function of the text, so both begin with the same.
  induction marked generalizing front' with
  | nil =>
    cases marked' with
    | nil => exact same
    | cons isMarker later =>
      have behind := isMarker.behind (later.leads leads')
      rw [← List.append_assoc, ← same] at behind
      exact absurd behind (unmarked _ (later.leads leads'))
  | @cons marker front rest isMarker later ih =>
    have behind := isMarker.behind (later.leads leads)
    cases marked' with
    | nil =>
      rw [← List.append_assoc, same] at behind
      exact absurd behind (unmarked' _ (later.leads leads))
    | cons isMarker' later' =>
      have behind' := isMarker'.behind (later'.leads leads')
      rw [← List.append_assoc, same, List.append_assoc, behind'] at behind
      exact ih later' leads unmarked (Option.some.inj behind).symm

theorem property?_of_marker {marker rest : List Char} {found : List Char × List Char}
    (isMarker : Marker marker rest) (leads : Leads rest) (read : property? rest = some found) :
    property? (marker ++ rest) = some found := by
  have behind := isMarker.behind leads
  cases isMarker with
  | @annotated name arguments s _ nonempty inside text blanks ends =>
    have whole : '@' :: (name ++ (arguments ++ s)) ++ rest =
        '@' :: (name ++ (arguments ++ (s ++ rest))) := by simp
    rw [whole] at behind ⊢
    rw [behindMarker?] at behind
    rw [property?]
    simp only [takeWhile_run inside ends, if_neg nonempty, Option.some.inj behind, read]
    rfl
  | @modifier word s _ known blanks wide =>
    have noSign := head?_ne_sign (isName_of_modifier known) (s ++ rest)
    rw [List.append_assoc] at behind ⊢
    rw [behindMarker?_word noSign] at behind
    rw [property?]
    · split
      next later dropped =>
        obtain rfl := Option.some.inj (dropped.symm.trans behind)
        exact read
      next none =>
        rw [behind] at none
        cases none
    · rintro tail same
      exact noSign (by rw [same]; rfl)

theorem Marked.property? {front rest : List Char} {found : List Char × List Char}
    (marked : Marked front rest) (leads : Leads rest) (read : property? rest = some found) :
    property? (front ++ rest) = some found := by
  induction marked with
  | nil => exact read
  | cons isMarker later ih =>
    rw [List.append_assoc]
    exact property?_of_marker isMarker (later.leads leads) (ih leads read)

theorem property?_of_declares {name chunk : List Char} (declares : Declares name chunk) :
    ∃ rest, property? chunk = some (name, rest) := by
  obtain @⟨front, word, rest, marked, -, property, named⟩ := declares
  have isName := isName_of_property property
  obtain ⟨tail, found⟩ := named.named?
  refine ⟨tail, marked.property? (leads_of_isName isName rest) ?_⟩
  rw [property?_word isName named.noWord (dropModifier?_property property named.noWord),
    if_pos property, found]

theorem dropModifier?_name {name s : List Char} (isName : IsName name) (blanks : Blanks s)
    (rest : List Char) : dropModifier? (name ++ (s ++ ':' :: rest)) = none ∨
      dropModifier? (name ++ (s ++ ':' :: rest)) = some (':' :: rest) := by
  have noWord := @noWord_of_blanks_colon s rest blanks
  simp only [dropModifier?, takeWhile_run isName.2 noWord, dropWhile_run isName.2 noWord]
  split
  next =>
    by_cases wide : s = []
    · subst wide
      exact .inl rfl
    · right
      rw [skipSomeBlanks?_blanks blanks wide]
      exact congrArg some (skipBlanks_colon (List.forall_mem_nil _) rest)
  next => exact .inl rfl

theorem property?_name {name s : List Char} (isName : IsName name) (blanks : Blanks s)
    (rest : List Char) : property? (name ++ (s ++ ':' :: rest)) = none := by
  -- If the name is a modifier and blanks follow, the search goes on with the colon.
  rcases dropModifier?_name isName blanks rest with kept | dropped
  · rw [property?_word isName (noWord_of_blanks_colon blanks) kept, named?_colon blanks, ite_self]
  · have colon : property? (':' :: rest) = none := by
      have first : isWord ':' = false := by decide
      rw [property?]
      · simp [dropModifier?, first, modifiers, isPropertyWord]
      · simp
    rw [property?]
    · split
      next later again =>
        obtain rfl := Option.some.inj (again.symm.trans dropped)
        exact colon
      next none =>
        rw [dropped] at none
        cases none
    · rintro tail same
      exact head?_ne_sign isName (s ++ ':' :: rest) (by rw [same]; rfl)

theorem property?_of_swallows {name chunk : List Char} (swallows : Swallows name chunk) :
    ∃ rest, property? chunk = some (name, rest) := by
  obtain @⟨front, short, word, rest, marked, nonempty, inside, property, named⟩ := swallows
  obtain ⟨tail, found⟩ := named.named?
  refine ⟨tail, marked.property? ⟨'@', rfl, .inr rfl⟩ ?_⟩
  obtain @⟨s, t, more, blanks, wide, isName, blanks'⟩ := named
  have isWord := isName_of_property property
  have inside' : ∀ c ∈ short ++ word, isMarkerChar c = true := List.forall_mem_append.mpr
    ⟨inside, fun c member => isMarkerChar_of_isWord (isWord.2 c member)⟩
  have blank : ∀ c, (s ++ (name ++ (t ++ ':' :: more))).head? = some c → isBlank c = true :=
    fun c head => blanks c (head_mem wide head)
  have noParenthesis : (s ++ (name ++ (t ++ ':' :: more))).head? ≠ some '(' :=
    fun head => absurd (blank '(' head) (by decide)
  have ends : endsInPropertyWord (short ++ word) = true := by
    have positive := List.length_pos_iff.mpr nonempty
    have length : word.length = 3 := by
      rcases isPropertyWord_iff.mp property with rfl | rfl <;> rfl
    rw [endsInPropertyWord, List.length_append, length, Nat.add_sub_cancel, List.drop_left,
      property, Bool.and_true, decide_eq_true_eq]
    omega
  rw [← List.append_assoc, property?]
  simp only [takeWhile_run inside' fun c head => isMarkerChar_of_isBlank (blank c head),
    dropWhile_run inside' fun c head => isMarkerChar_of_isBlank (blank c head),
    skipArguments_of_head noParenthesis, skipBlanks_blanks blanks, skipBlanks_name isName,
    property?_name isName blanks', ends, found, List.append_eq_nil_iff, nonempty, false_and,
    if_false, if_true]
  rfl

theorem skipArguments_split (text : List Char) :
    ∃ arguments, Arguments arguments ∧ text = arguments ++ skipArguments text := by
  unfold skipArguments
  split
  next inner =>
    split
    next rest behind =>
      have split := @List.takeWhile_append_dropWhile _ (fun c => decide (c ≠ '(' ∧ c ≠ ')')) inner
      refine ⟨_, @Arguments.present (inner.takeWhile fun c => c ≠ '(' ∧ c ≠ ')') ?_, ?_⟩
      · intro c member
        exact of_decide_eq_true (List.all_eq_true.mp List.all_takeWhile c member)
      · rw [behind] at split
        rw [List.cons_append, List.append_assoc, List.singleton_append, split]
    next => exact ⟨[], .absent, rfl⟩
  next => exact ⟨[], .absent, rfl⟩

/-- The word of a property, or an annotation that ends in one, with its name behind. -/
def StartsProperty (found : List Char × List Char) (text : List Char) : Prop :=
  (∃ word rest, text = word ++ rest ∧ isPropertyWord word = true ∧ named? rest = some found) ∨
  ∃ short word rest, text = '@' :: (short ++ (word ++ rest)) ∧ short ≠ [] ∧
    (∀ c ∈ short, isMarkerChar c = true) ∧ isPropertyWord word = true ∧ named? rest = some found

theorem Marker.ne_nil {marker rest : List Char} (isMarker : Marker marker rest) : marker ≠ [] := by
  cases isMarker with
  | annotated => exact List.cons_ne_nil _ _
  | modifier known => exact List.append_ne_nil_of_left_ne_nil (isName_of_modifier known).1 _

theorem marker_of_annotation {tail : List Char} (nonempty : tail.takeWhile isMarkerChar ≠ []) :
    ∃ marker,
      '@' :: tail = marker ++ skipBlanks (skipArguments (tail.dropWhile isMarkerChar)) ∧
      Marker marker (skipBlanks (skipArguments (tail.dropWhile isMarkerChar))) := by
  have splitName := @List.takeWhile_append_dropWhile _ isMarkerChar tail
  have inside : ∀ c ∈ tail.takeWhile isMarkerChar, isMarkerChar c = true :=
    List.all_eq_true.mp List.all_takeWhile
  have stops := List.head?_dropWhile_not isMarkerChar tail
  obtain ⟨arguments, text, splitArguments⟩ := skipArguments_split (tail.dropWhile isMarkerChar)
  generalize skipArguments (tail.dropWhile isMarkerChar) = behind at splitArguments ⊢
  have splitBlanks := @List.takeWhile_append_dropWhile _ isBlank behind
  have blanks : Blanks (behind.takeWhile isBlank) := List.all_eq_true.mp List.all_takeWhile
  have ends : ∀ c, (arguments ++ (behind.takeWhile isBlank ++ skipBlanks behind)).head? =
      some c → isMarkerChar c = false := by
    intro c head
    rw [skipBlanks, splitBlanks, ← splitArguments] at head
    simpa [head] using stops
  refine ⟨_, ?_, .annotated nonempty inside text blanks ends⟩
  simp only [List.cons_append, List.append_assoc]
  rw [skipBlanks, splitBlanks, ← splitArguments, splitName]

theorem starts_in_name {tail : List Char} {found : List Char × List Char}
    (ends : endsInPropertyWord (tail.takeWhile isMarkerChar) = true)
    (here : named? (tail.dropWhile isMarkerChar) = some found) :
    StartsProperty found ('@' :: tail) := by
  have splitName := @List.takeWhile_append_dropWhile _ isMarkerChar tail
  have inside : ∀ c ∈ tail.takeWhile isMarkerChar, isMarkerChar c = true :=
    List.all_eq_true.mp List.all_takeWhile
  generalize tail.takeWhile isMarkerChar = name at ends splitName inside
  obtain ⟨long, property⟩ := Bool.and_eq_true_iff.mp ends
  have long := of_decide_eq_true long
  have splitWord := List.take_append_drop (name.length - 3) name
  refine .inr ⟨name.take (name.length - 3), _, _, ?_, ?_, ?_, property, here⟩
  · rw [← List.append_assoc, splitWord, splitName]
  · exact List.ne_nil_of_length_pos (by rw [List.length_take]; omega)
  · exact fun c member => inside c (List.mem_of_mem_take member)

theorem marker_of_modifier {text rest : List Char} (dropped : dropModifier? text = some rest) :
    ∃ marker, text = marker ++ rest ∧ Marker marker rest := by
  simp only [dropModifier?] at dropped
  split at dropped
  next known =>
    obtain ⟨s, wide, blanks, same⟩ := eq_of_skipSomeBlanks? dropped
    refine ⟨_, ?_, .modifier known blanks wide⟩
    rw [List.append_assoc, ← same, List.takeWhile_append_dropWhile]
  next => cases dropped

/-- A property is read at the head of a text or behind a marker. -/
theorem startsProperty_or_marker {text : List Char} {found : List Char × List Char}
    (read : property? text = some found) :
    StartsProperty found text ∨ ∃ marker rest, text = marker ++ rest ∧ Marker marker rest ∧
      property? rest = some found := by
  rw [property?.eq_def] at read
  split at read
  next tail =>
    dsimp only at read
    split at read
    next => cases read
    next nonempty =>
      simp only [Option.orElse_eq_orElse, Option.orElse_eq_or, Option.or_eq_some_iff] at read
      rcases read with later | ⟨-, here⟩
      · obtain ⟨marker, split, isMarker⟩ := marker_of_annotation nonempty
        exact .inr ⟨marker, _, split, isMarker, later⟩
      · split at here
        next ends => exact .inl (starts_in_name ends here)
        next => cases here
  next =>
    split at read
    next rest dropped =>
      obtain ⟨marker, split, isMarker⟩ := marker_of_modifier dropped
      exact .inr ⟨marker, rest, split, isMarker, read⟩
    next =>
      split at read
      next property =>
        exact .inl (.inl ⟨_, _, List.takeWhile_append_dropWhile.symm, property, read⟩)
      next => cases read

/-- A property is read behind the markers of a text. -/
theorem property?_marked {text : List Char} {found : List Char × List Char}
    (read : property? text = some found) :
    ∃ front rest, text = front ++ rest ∧ Marked front rest ∧ StartsProperty found rest := by
  induction bound : text.length using Nat.strongRecOn generalizing text with
  | _ length ih =>
    rcases startsProperty_or_marker read with starts | ⟨marker, later, rfl, isMarker, read⟩
    · exact ⟨[], text, rfl, .nil, starts⟩
    · have shorter : later.length < length := by
        have := List.length_pos_iff.mpr isMarker.ne_nil
        rw [← bound, List.length_append]
        omega
      obtain ⟨front, rest, rfl, marked, starts⟩ := ih later.length shorter read rfl
      exact ⟨marker ++ front, rest, (List.append_assoc ..).symm, .cons isMarker marked, starts⟩

/-- In front of a word, a marker ends with white space or with the arguments of an annotation. -/
theorem Marker.last {marker rest : List Char} (isMarker : Marker marker rest)
    (letter : ∃ c, rest.head? = some c ∧ isWord c = true) :
    ∀ c, marker.getLast? = some c → isBlank c = true ∨ c = ')' := by
  intro c last
  cases isMarker with
  | @annotated name arguments s _ nonempty inside text blanks ends =>
    by_cases wide : s = []
    · subst wide
      cases text with
      | absent =>
        obtain ⟨d, head, word⟩ := letter
        exact absurd (ends d head) (by simp [isMarkerChar, word])
      | @present inner =>
        have whole : '@' :: (name ++ ('(' :: (inner ++ [')']) ++ [])) =
            '@' :: (name ++ '(' :: inner) ++ [')'] := by simp
        rw [whole, List.getLast?_concat] at last
        exact .inr (Option.some.inj last).symm
    · rw [← List.cons_append, ← List.append_assoc, List.getLast?_append_of_ne_nil _ wide] at last
      exact .inl (blanks c (List.mem_of_mem_getLast? last))
  | @modifier word s _ known blanks wide =>
    rw [List.getLast?_append_of_ne_nil _ wide] at last
    exact .inl (blanks c (List.mem_of_mem_getLast? last))

theorem Marked.last {front rest : List Char} (marked : Marked front rest)
    (letter : ∃ c, rest.head? = some c ∧ isWord c = true) :
    ∀ c, front.getLast? = some c → isBlank c = true ∨ c = ')' := by
  induction marked with
  | nil => simp
  | @cons marker front rest isMarker later ih =>
    intro c last
    cases front with
    | cons d front =>
      rw [List.getLast?_append_of_ne_nil _ (List.cons_ne_nil d front)] at last
      exact ih letter c last
    | nil =>
      rw [List.append_nil] at last
      exact isMarker.last letter c last

theorem declares_or_swallows {chunk name rest : List Char}
    (read : property? chunk = some (name, rest)) : Declares name chunk ∨ Swallows name chunk := by
  obtain ⟨front, rest, rfl, marked, starts⟩ := property?_marked read
  rcases starts with ⟨word, rest, rfl, property, named⟩ |
    ⟨short, word, rest, rfl, nonempty, inside, property, named⟩
  · obtain ⟨c, tail, rfl⟩ := List.exists_cons_of_ne_nil (isName_of_property property).1
    have letter := (isName_of_property property).2 c List.mem_cons_self
    exact .inl (.intro marked (marked.last ⟨c, rfl, letter⟩) property (named_of_named? named))
  · exact .inr (.intro marked nonempty inside property (named_of_named? named))

theorem unmarked_property {word rest : List Char} (property : isPropertyWord word = true)
    (noWord : ∀ c, rest.head? = some c → isWord c = false) : Unmarked (word ++ rest) := by
  intro behind _ marked
  rw [behindMarker?_word (head?_ne_sign (isName_of_property property) rest),
    dropModifier?_property property noWord] at marked
  cases marked

theorem unmarked_name {name s : List Char} (isName : IsName name) (blanks : Blanks s)
    (rest : List Char) : Unmarked (name ++ (s ++ ':' :: rest)) := by
  intro behind leads marked
  rw [behindMarker?_word (head?_ne_sign isName _)] at marked
  rcases dropModifier?_name isName blanks rest with kept | dropped
  · rw [kept] at marked
    cases marked
  · obtain rfl := Option.some.inj (dropped.symm.trans marked)
    obtain ⟨c, head, char⟩ := leads
    obtain rfl := Option.some.inj head
    exact absurd char (by decide)

theorem PlainParameter.not_declares {name name' chunk : List Char}
    (plain : PlainParameter name chunk) : ¬ Declares name' chunk := by
  -- Behind the same markers, one has a name and a colon, the other a word and a name.
  intro declares
  obtain @⟨front, s, rest, marked, isName, blanks⟩ := plain
  generalize same : front ++ (name ++ (s ++ ':' :: rest)) = chunk at declares
  obtain @⟨front', word, rest', marked', -, property, named⟩ := declares
  have isName' := isName_of_property property
  have behind := marked.unique marked' (leads_of_isName isName _) (leads_of_isName isName' _)
    (unmarked_name isName blanks rest) (unmarked_property property named.noWord) same
  have later := congrArg (List.dropWhile isWord) behind
  rw [dropWhile_run isName.2 (noWord_of_blanks_colon blanks), dropWhile_run isName'.2 named.noWord]
    at later
  exact named.ne_colon blanks later.symm

theorem Marked.append {front more rest : List Char} (marked : Marked front (more ++ rest))
    (marked' : Marked more rest) : Marked (front ++ more) rest := by
  generalize behind : more ++ rest = tail at marked
  induction marked with
  | nil => exact marked'
  | cons isMarker _ ih =>
    subst behind
    rw [List.append_assoc]
    rw [← List.append_assoc] at isMarker
    exact .cons isMarker (ih rfl)

/-- Where `val` or `var` is taken from an annotation, the annotation goes on to its end. -/
theorem Swallows.plain {name chunk : List Char} (swallows : Swallows name chunk) :
    PlainParameter name chunk := by
  obtain @⟨front, short, word, rest, marked, nonempty, inside, property, named⟩ := swallows
  obtain @⟨s, t, more, blanks, wide, isName, blanks'⟩ := named
  have inside' : ∀ c ∈ short ++ word, isMarkerChar c = true := List.forall_mem_append.mpr
    ⟨inside, fun c member => isMarkerChar_of_isWord ((isName_of_property property).2 c member)⟩
  have ends : ∀ c, ([] ++ (s ++ (name ++ (t ++ ':' :: more)))).head? = some c →
      isMarkerChar c = false :=
    fun c head => isMarkerChar_of_isBlank (blanks c (head_mem wide head))
  have isMarker := Marker.annotated (by simp [nonempty]) inside' .absent blanks ends
  have marker : Marked ('@' :: (short ++ word ++ ([] ++ s)) ++ []) (name ++ (t ++ ':' :: more)) :=
    .cons isMarker .nil
  have whole : '@' :: (short ++ (word ++ (s ++ (name ++ (t ++ ':' :: more))))) =
      '@' :: (short ++ word ++ ([] ++ s)) ++ [] ++ (name ++ (t ++ ':' :: more)) := by simp
  rw [whole] at marked ⊢
  rw [← List.append_assoc]
  exact .intro (marked.append marker) isName blanks'

/-- A property is read from the parameters that declare it, and from those that have the word
only as the end of an annotation's name. -/
theorem property?_iff {name chunk : List Char} :
    (∃ rest, property? chunk = some (name, rest)) ↔ Declares name chunk ∨ Swallows name chunk := by
  constructor
  · rintro ⟨rest, read⟩
    exact declares_or_swallows read
  · rintro (declares | swallows)
    · exact property?_of_declares declares
    · exact property?_of_swallows swallows

/-- Among the parameters, `chunk` is the first that can be read as a property `name`. -/
def FirstOf (name : String) (chunks : List (List Char)) (chunk : List Char) : Prop :=
  ∃ before after, chunks = before ++ chunk :: after ∧
    ∀ c ∈ before, ∀ f, Parameter.read c = .property f → f.name ≠ name

def Gives (chunks : List (List Char)) (f : Field) (chunk : List Char) : Prop :=
  Parameter.read chunk = .property { f with position := 0 } ∧ FirstOf f.name chunks chunk

/-- The field `f` of the record `r`, declared in `code`, comes from the parameter `chunk`. -/
def Origin (code : List Char) (r : Record) (f : Field) (chunk : List Char) : Prop :=
  ∃ h ∈ headers code, (declarationAt code h).record? = some r ∧
    ∃ list, bracketed? (code.drop h.stop) = some list ∧ Gives (parameters list) f chunk

/-- Every field of a record comes from one of its parameters. -/
theorem exists_gives {name : String} {chunks : List (List Char)} {f : Field}
    (member : f ∈ (Record.ofFirst name
      ((chunks.map Parameter.read).filterMap Parameter.property?)).fields) :
    ∃ chunk, Gives chunks f chunk := by
  obtain ⟨i, inside, rfl⟩ := List.mem_mapIdx.mp member
  obtain ⟨before, after, split, earlier⟩ := mem_firstBy_iff.mp (List.getElem_mem inside)
  generalize (firstBy Field.name ((chunks.map Parameter.read).filterMap Parameter.property?))[i] = g
    at split earlier
  rw [List.filterMap_map, List.filterMap_eq_append_iff] at split
  obtain ⟨front, back, rfl, rfl, cut⟩ := split
  obtain ⟨skipped, chunk, later, rfl, none, read, -⟩ := List.filterMap_eq_cons_iff.mp cut
  have read := Parameter.eq_property read
  have unplaced : { g with position := 0 } = g := by rw [← (Parameter.property_cases read).1]
  refine ⟨chunk, read.trans (congrArg _ unplaced.symm), front ++ skipped, later, by simp, ?_⟩
  intro c among g' read'
  rcases List.mem_append.mp among with first | second
  · exact earlier g' (List.mem_filterMap.mpr ⟨c, first, by simp [read', Parameter.property?]⟩)
  · have absent := none c second
    rw [Function.comp_apply, read'] at absent
    cases absent

/-- The records of a text are those that are declared behind its headers. -/
theorem mem_records_iff {text : String} {r : Record} :
    r ∈ (extract text).records ↔ ∃ h ∈ headers (stripComments text.toList),
      (declarationAt (stripComments text.toList) h).record? = some r := by
  simp [extract, declarations, List.mem_filterMap]

theorem record?_of_list {code list : List Char} {h : Header}
    (closed : bracketed? (code.drop h.stop) = some list) :
    (declarationAt code h).record? = some (Record.ofFirst h.name
      (((parameters list).map Parameter.read).filterMap Parameter.property?)) := by
  rw [Declaration.record?, declarationAt, closed]
  rfl

theorem exists_origin {text : String} {r : Record} {f : Field}
    (found : r ∈ (extract text).records) (member : f ∈ r.fields) :
    ∃ chunk, Origin (stripComments text.toList) r f chunk := by
  obtain ⟨h, visited, record⟩ := mem_records_iff.mp found
  obtain ⟨read, listed, rfl⟩ := Option.map_eq_some_iff.mp record
  obtain ⟨list, closed, rfl⟩ := Option.map_eq_some_iff.mp listed
  obtain ⟨chunk, gives⟩ := exists_gives member
  exact ⟨chunk, h, visited, record, list, closed, gives⟩

/-- Every field comes from a parameter, and this one declares it if and only if it is not a plain
parameter whose last annotation has a longer name that ends in `val` or `var`. -/
theorem field_declared_iff {text : String} {r : Record} {f : Field}
    (found : r ∈ (extract text).records) (member : f ∈ r.fields) :
    let code := stripComments text.toList
    (∃ chunk, Origin code r f chunk) ∧ ∀ chunk, Origin code r f chunk →
      (Declares f.name.toList chunk ↔ ¬ Swallows f.name.toList chunk) ∧
      ((∃ name, PlainParameter name chunk) ↔ Swallows f.name.toList chunk) := by
  intro code
  refine ⟨exists_origin found member, ?_⟩
  rintro chunk ⟨h, -, -, list, -, read, -⟩
  have whole := property?_iff.mp (Parameter.property_cases read).2.2
  have apart : Swallows f.name.toList chunk → ¬ Declares f.name.toList chunk :=
    fun swallows => swallows.plain.not_declares
  constructor
  · exact ⟨fun declares swallows => apart swallows declares, fun other => whole.resolve_right other⟩
  · constructor
    · rintro ⟨name, plain⟩
      exact whole.resolve_left plain.not_declares
    · exact fun swallows => ⟨_, swallows.plain⟩

/-- Two annotations, a modifier, and behind it a parameter that is no property. -/
theorem field_declared_of_dto :
    let text := "data class Dto(@A @Json(name = \"x\") private var x: Int, plain: Boolean)"
    let x : Field := ⟨"x", "Int", false, false, 0⟩
    let dto := Record.ofFirst "Dto" [x]
    let chunk := "@A @Json(name = \"x\") private var x: Int".toList
    dto ∈ (extract text).records ∧ x ∈ dto.fields ∧
      Origin (stripComments text.toList) dto x chunk ∧ Declares x.name.toList chunk ∧
      ¬ Swallows x.name.toList chunk := by
  intro text x dto chunk
  have visited : ⟨"Dto", 0, 15⟩ ∈ headers (stripComments text.toList) := by decide +kernel
  have closed : bracketed? ((stripComments text.toList).drop 15) =
      some (chunk ++ ", plain: Boolean".toList) := by decide +kernel
  have read : (parameters (chunk ++ ", plain: Boolean".toList)).map Parameter.read =
      [.property x, .other] := by decide +kernel
  have record := @record?_of_list _ _ ⟨"Dto", 0, 15⟩ closed
  rw [read] at record
  have found : dto ∈ (extract text).records := mem_records_iff.mpr ⟨_, visited, record⟩
  have member : x ∈ dto.fields := by decide
  have origin : Origin (stripComments text.toList) dto x chunk :=
    ⟨_, visited, record, _, closed, by decide +kernel, [], ["plain: Boolean".toList],
      by decide +kernel, List.forall_mem_nil _⟩
  have blank : Blanks [' '] := by decide
  let inner := "name = \"x\"".toList
  let json := '@' :: ("Json".toList ++ ('(' :: (inner ++ [')']) ++ [' ']))
  let word := "private".toList ++ [' ']
  let rest := [' '] ++ (['x'] ++ ([] ++ ':' :: " Int".toList))
  let tail := "var".toList ++ rest
  have arguments : Arguments ('(' :: (inner ++ [')'])) := .present (by decide)
  have marker : Marker ('@' :: (['A'] ++ ([] ++ [' ']))) (json ++ (word ++ []) ++ tail) :=
    .annotated (by decide) (by decide) .absent blank (by decide)
  have marker' : Marker json (word ++ [] ++ tail) :=
    .annotated (by decide) (by decide) arguments blank (by decide)
  have modifier : Marker word ([] ++ tail) := .modifier (by decide) blank (by decide)
  have marked := Marked.cons marker (.cons marker' (.cons modifier .nil))
  have named : Named ['x'] rest := .intro blank (by decide) (by decide) (List.forall_mem_nil _)
  have declares := Declares.intro marked (by decide) (by decide) named
  have spelled : '@' :: (['A'] ++ ([] ++ [' '])) ++ (json ++ (word ++ [])) ++ tail = chunk := by
    decide
  have name : ['x'] = x.name.toList := by decide
  rw [spelled, name] at declares
  exact ⟨found, member, origin, declares,
    (((field_declared_iff found member).2 chunk origin).1).mp declares⟩

/-- The name of an annotation may be taken for the word of a property. -/
theorem field_of_plain_parameter :
    let text := "data class Span(@Interval length: Int)"
    let length : Field := ⟨"length", "Int", false, false, 0⟩
    let span := Record.ofFirst "Span" [length]
    let chunk := "@Interval length: Int".toList
    span ∈ (extract text).records ∧ length ∈ span.fields ∧
      Origin (stripComments text.toList) span length chunk ∧
      PlainParameter length.name.toList chunk ∧ ¬ Declares length.name.toList chunk := by
  intro text length span chunk
  have visited : ⟨"Span", 0, 16⟩ ∈ headers (stripComments text.toList) := by decide +kernel
  have closed : bracketed? ((stripComments text.toList).drop 16) = some chunk := by decide +kernel
  have read : (parameters chunk).map Parameter.read = [.property length] := by decide +kernel
  have record := @record?_of_list _ _ ⟨"Span", 0, 16⟩ closed
  rw [read] at record
  have found : span ∈ (extract text).records := mem_records_iff.mpr ⟨_, visited, record⟩
  have member : length ∈ span.fields := by decide
  have origin : Origin (stripComments text.toList) span length chunk :=
    ⟨_, visited, record, _, closed, by decide +kernel, [], [], by decide +kernel,
      List.forall_mem_nil _⟩
  have blank : Blanks [' '] := by decide
  let rest := "length".toList ++ ([] ++ ':' :: " Int".toList)
  have isMarker : Marker ('@' :: ("Interval".toList ++ ([] ++ [' ']))) ([] ++ rest) :=
    .annotated (by decide) (by decide) .absent blank (by decide)
  have plain := PlainParameter.intro (.cons isMarker .nil) (by decide) (List.forall_mem_nil _)
  have spelled : '@' :: ("Interval".toList ++ ([] ++ [' '])) ++ [] ++ rest = chunk := by decide
  rw [spelled] at plain
  exact ⟨found, member, origin, plain, plain.not_declares⟩

end RecordCompat.Source
