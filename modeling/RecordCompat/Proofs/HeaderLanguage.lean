import RecordCompat.Proofs.HeaderPlaces

/-! The language of headers, and the search for headers as a search for its texts. A text of the
language can be taken apart in several ways: the end of a name can be read as a modifier or as the
word `constructor`. All ways end at the same parenthesis, the first one behind `class` and a name,
and the name that the search captures is the longest of them. -/
namespace RecordCompat.Source

open Text

/-- An annotation without arguments, or a visibility. -/
inductive ConstructorModifier : List Char → Prop
  | annotated {name : List Char} : IsName name → ConstructorModifier ('@' :: name)
  | visibility {word : List Char} :
      word ∈ ["private", "internal", "protected", "public"].map String.toList →
      ConstructorModifier word

/-- Modifiers with white space behind each, and the word `constructor`. -/
inductive ConstructorWords : List Char → Prop
  | word {s : List Char} : Blanks s → ConstructorWords ("constructor".toList ++ s)
  | modifier {m s rest : List Char} : ConstructorModifier m → Blanks s → s ≠ [] →
      ConstructorWords rest → ConstructorWords (m ++ (s ++ rest))

inductive ConstructorClause : List Char → Prop
  | absent : ConstructorClause []
  | present {clause : List Char} : ConstructorWords clause → ConstructorClause clause

/-- Whatever stands in angle brackets, without parentheses, braces and semicolons. -/
inductive TypeParameters : List Char → Prop
  | absent : TypeParameters []
  | present {inner s : List Char} : (∀ c ∈ inner, c ∉ ['(', ')', '{', '}', ';']) → Blanks s →
      TypeParameters ('<' :: (inner ++ '>' :: s))

/-- What stands between a name and the parenthesis behind it. -/
inductive HeaderTail : List Char → Prop
  | intro {d t k : List Char} : Blanks d → TypeParameters t → ConstructorClause k →
      HeaderTail (d ++ (t ++ k))

/-- The headers of data classes of a name. -/
inductive HeaderText (name : List Char) : List Char → Prop
  | intro {a b tail : List Char} : Blanks a → a ≠ [] → Blanks b → b ≠ [] → IsName name →
      HeaderTail tail →
      HeaderText name
        ("data".toList ++ (a ++ ("class".toList ++ (b ++ (name ++ (tail ++ ['(']))))))

/-- One of the characters around index `i` belongs to a word and the other does not. -/
def WordBoundary (text : List Char) (i : Nat) : Prop :=
  (text.take i).getLast?.any isWord ≠ (text.drop i).head?.any isWord

/-- A text of the language starts at index `i`. -/
structure Begins (text : List Char) (i : Nat) : Prop where
  boundary : WordBoundary text i
  header : ∃ name header, HeaderText name header ∧ header <+: text.drop i

theorem words_append_blank {c : Char} (blank : isBlank c = true) (text more : List Char) :
    words (text ++ c :: more) = words text ++ words more := by
  rw [words, List.splitOnP_append_cons text more blank, List.filter_append, ← words, ← words]

theorem words_blanks {s : List Char} (blanks : Blanks s) (text : List Char) :
    words (s ++ text) = words text := by
  induction s with
  | nil => rfl
  | cons c s ih =>
    obtain ⟨blank, later⟩ := List.forall_mem_cons.mp blanks
    have first := words_append_blank blank [] (s ++ text)
    rw [List.nil_append] at first
    rw [List.cons_append, first, ih later]
    rfl

theorem words_nil : words [] = [] := by
  rw [words, List.splitOnP_nil]
  rfl

theorem words_word {word rest : List Char} (nonempty : word ≠ [])
    (noBlank : ∀ c ∈ word, isBlank c = false)
    (ends : ∀ c, rest.head? = some c → isBlank c = true) :
    words (word ++ rest) = word :: words rest := by
  have single : words word = [word] := by
    rw [words, List.splitOnP_eq_singleton noBlank, List.filter_cons_of_pos]
    · rfl
    · exact decide_eq_true nonempty
  cases rest with
  | nil => rw [List.append_nil, single, words_nil]
  | cons c rest =>
    have behind := words_append_blank (ends c rfl) [] rest
    rw [List.nil_append, words_nil, List.nil_append] at behind
    rw [words_append_blank (ends c rfl), single, behind]
    rfl

theorem first_word (text : List Char) :
    Blanks text ∨ ∃ s word rest, text = s ++ (word ++ rest) ∧ Blanks s ∧ word ≠ [] ∧
      (∀ c ∈ word, isBlank c = false) ∧ ∀ c, rest.head? = some c → isBlank c = true := by
  induction text with
  | nil => exact .inl (List.forall_mem_nil _)
  | cons c text ih =>
    by_cases blank : isBlank c = true
    · rcases ih with blanks | ⟨s, word, rest, rfl, blanks, others⟩
      · exact .inl (List.forall_mem_cons.mpr ⟨blank, blanks⟩)
      · exact .inr ⟨c :: s, word, rest, rfl, List.forall_mem_cons.mpr ⟨blank, blanks⟩, others⟩
    · refine .inr ⟨[], c :: text.takeWhile (!isBlank ·), text.dropWhile (!isBlank ·), ?_,
        List.forall_mem_nil _, List.cons_ne_nil _ _, ?_, ?_⟩
      · simp
      · refine List.forall_mem_cons.mpr ⟨Bool.eq_false_iff.mpr blank, fun d member => ?_⟩
        simpa using List.all_eq_true.mp List.all_takeWhile d member
      · intro d head
        have stops := List.head?_dropWhile_not (!isBlank ·) text
        simpa [head] using stops

theorem words_of_blanks {s : List Char} (blanks : Blanks s) : words s = [] := by
  have skipped := words_blanks blanks []
  rwa [List.append_nil, words_nil] at skipped

theorem eq_of_words_cons {text word : List Char} {others : List (List Char)}
    (read : words text = word :: others) :
    ∃ s rest, text = s ++ (word ++ rest) ∧ Blanks s ∧ words rest = others ∧
      ∀ c, rest.head? = some c → isBlank c = true := by
  rcases first_word text with blanks | ⟨s, word, rest, rfl, blanks, nonempty, noBlank, ends⟩
  · rw [words_of_blanks blanks] at read
    cases read
  · rw [words_blanks blanks, words_word nonempty noBlank ends] at read
    obtain ⟨rfl, rfl⟩ := List.cons.inj read
    exact ⟨s, rest, rfl, blanks, rfl, ends⟩

theorem constructorModifier_iff {word : List Char} :
    isConstructorModifier word = true ↔ ConstructorModifier word := by
  constructor
  · intro isModifier
    unfold isConstructorModifier at isModifier
    split at isModifier
    next name =>
      obtain ⟨nonempty, letters⟩ := Bool.and_eq_true_iff.mp isModifier
      exact .annotated ⟨by simpa using nonempty, List.all_eq_true.mp letters⟩
    next =>
      refine .visibility (List.mem_map.mpr ⟨String.ofList word, ?_, String.toList_ofList⟩)
      exact List.contains_iff_mem.mp isModifier
  · rintro (⟨nonempty, letters⟩ | known)
    · simpa [isConstructorModifier, nonempty] using letters
    · have all : ∀ word ∈ ["private", "internal", "protected", "public"].map String.toList,
          isConstructorModifier word = true := by decide
      exact all _ known

theorem ConstructorModifier.word {m : List Char} (modifier : ConstructorModifier m) :
    m ≠ [] ∧ ∀ c ∈ m, isWord c = true ∨ c = '@' := by
  cases modifier with
  | annotated isName =>
    refine ⟨List.cons_ne_nil _ _, List.forall_mem_cons.mpr ⟨.inr rfl, ?_⟩⟩
    exact fun c member => .inl (isName.2 c member)
  | visibility known =>
    have all : ∀ word ∈ ["private", "internal", "protected", "public"].map String.toList,
        IsName word := by decide
    exact ⟨(all m known).1, fun c member => .inl ((all m known).2 c member)⟩

theorem noBlank_of_clauseChar {c : Char} (char : isWord c = true ∨ c = '@') :
    isBlank c = false := by
  rcases char with word | rfl
  · exact isBlank_of_isWord word
  · decide

theorem ConstructorWords.head {clause : List Char} (words : ConstructorWords clause) :
    ∃ c, clause.head? = some c ∧ isBlank c = false := by
  cases words with
  | word => exact ⟨'c', rfl, by decide⟩
  | @modifier m s rest modifier =>
    obtain ⟨nonempty, chars⟩ := modifier.word
    obtain ⟨c, tail, rfl⟩ := List.exists_cons_of_ne_nil nonempty
    exact ⟨c, rfl, noBlank_of_clauseChar (chars c List.mem_cons_self)⟩

theorem ConstructorWords.words {clause : List Char} (words : ConstructorWords clause) :
    ∃ modifiers, Text.words clause = modifiers ++ ["constructor".toList] ∧
      ∀ m ∈ modifiers, ConstructorModifier m := by
  induction words with
  | @word s blanks =>
    have constructor : IsName "constructor".toList := by decide
    refine ⟨[], ?_, List.forall_mem_nil _⟩
    have noBlank : ∀ c ∈ "constructor".toList, isBlank c = false :=
      fun c member => isBlank_of_isWord (constructor.2 c member)
    rw [words_word constructor.1 noBlank fun c head => blanks c (List.mem_of_mem_head? head),
      words_of_blanks blanks]
    rfl
  | @modifier m s rest modifier blanks wide _ ih =>
    obtain ⟨modifiers, read, all⟩ := ih
    have noBlank : ∀ c ∈ m, isBlank c = false :=
      fun c member => noBlank_of_clauseChar (modifier.word.2 c member)
    refine ⟨m :: modifiers, ?_, List.forall_mem_cons.mpr ⟨modifier, all⟩⟩
    rw [words_word modifier.word.1 noBlank fun c head => blanks c (head_mem wide head),
      words_blanks blanks, read]
    rfl

theorem constructorWords_of_words {text : List Char} {modifiers : List (List Char)}
    (read : words text = modifiers ++ ["constructor".toList])
    (all : ∀ m ∈ modifiers, ConstructorModifier m) :
    ∃ s clause, text = s ++ clause ∧ Blanks s ∧ ConstructorWords clause := by
  induction modifiers generalizing text with
  | nil =>
    obtain ⟨s, rest, rfl, blanks, none, -⟩ := eq_of_words_cons read
    rcases first_word rest with blanks' | ⟨_, word, more, rfl, blanks', nonempty, noBlank, ends⟩
    · exact ⟨s, _, rfl, blanks, .word blanks'⟩
    · rw [words_blanks blanks', words_word nonempty noBlank ends] at none
      cases none
  | cons m modifiers ih =>
    obtain ⟨modifier, later⟩ := List.forall_mem_cons.mp all
    obtain ⟨s, rest, rfl, blanks, others, ends⟩ := eq_of_words_cons read
    obtain ⟨s', clause, rfl, blanks', words⟩ := ih others later
    refine ⟨s, _, rfl, blanks, .modifier modifier blanks' ?_ words⟩
    -- Without a blank in between, the clause would begin with one.
    rintro rfl
    obtain ⟨c, head, noBlank⟩ := words.head
    rw [ends c head] at noBlank
    cases noBlank

theorem isConstructorClause_iff {text : List Char} :
    isConstructorClause text = true ↔
      ∃ s clause, text = s ++ clause ∧ Blanks s ∧ ConstructorClause clause := by
  constructor
  · intro isClause
    unfold isConstructorClause at isClause
    split at isClause
    next none =>
      rw [List.reverse_eq_nil_iff] at none
      rcases first_word text with blanks | ⟨s, word, rest, rfl, blanks, nonempty, noBlank, ends⟩
      · exact ⟨text, [], (List.append_nil _).symm, blanks, .absent⟩
      · rw [words_blanks blanks, words_word nonempty noBlank ends] at none
        cases none
    next last modifiers read =>
      obtain ⟨word, all⟩ := Bool.and_eq_true_iff.mp isClause
      rw [List.reverse_eq_cons_iff, beq_iff_eq.mp word] at read
      obtain ⟨s, clause, same, blanks, words⟩ := constructorWords_of_words read fun m member =>
        constructorModifier_iff.mp (List.all_eq_true.mp all m (List.mem_reverse.mp member))
      exact ⟨s, clause, same, blanks, .present words⟩
  · rintro ⟨s, clause, rfl, blanks, clauseText⟩
    rw [isConstructorClause, words_blanks blanks]
    cases clauseText with
    | absent => rw [words_nil]; rfl
    | present words =>
      obtain ⟨modifiers, read, all⟩ := words.words
      rw [read, List.reverse_append]
      simpa using fun m member => constructorModifier_iff.mpr (all m member)

theorem closesTypeParameters_iff {text : List Char} :
    closesTypeParameters text = true ↔
      ∃ inner rest, text = inner ++ '>' :: rest ∧ (∀ c ∈ inner, c ∉ [')', '{', '}', ';']) ∧
        '>' ∉ rest ∧ isConstructorClause rest = true := by
  induction text with
  | nil => simp [closesTypeParameters]
  | cons c text ih =>
    rw [closesTypeParameters, Bool.or_eq_true, Bool.and_eq_true, Bool.and_eq_true,
      Bool.and_eq_true, ih, beq_iff_eq, decide_eq_true_eq, decide_eq_true_eq]
    constructor
    · rintro (⟨⟨rfl, last⟩, isClause⟩ | ⟨plain, inner, rest, rfl, plains, others⟩)
      · exact ⟨[], text, rfl, List.forall_mem_nil _, last, isClause⟩
      · exact ⟨c :: inner, rest, rfl, List.forall_mem_cons.mpr ⟨plain, plains⟩, others⟩
    · rintro ⟨inner, rest, same, plains, last, isClause⟩
      cases inner with
      | nil =>
        obtain ⟨rfl, rfl⟩ := List.cons.inj same
        exact .inl ⟨⟨rfl, last⟩, isClause⟩
      | cons d inner =>
        obtain ⟨rfl, rfl⟩ := List.cons.inj same
        obtain ⟨plain, plains⟩ := List.forall_mem_cons.mp plains
        exact .inr ⟨plain, inner, rest, rfl, plains, last, isClause⟩

def IsClauseChar (c : Char) : Prop :=
  isBlank c = true ∨ isWord c = true ∨ c = '@'

theorem Blanks.chars {s : List Char} (blanks : Blanks s) : ∀ c ∈ s, IsClauseChar c :=
  fun c member => .inl (blanks c member)

theorem ConstructorClause.chars {clause : List Char} (clauseText : ConstructorClause clause) :
    ∀ c ∈ clause, IsClauseChar c := by
  cases clauseText with
  | absent => exact List.forall_mem_nil _
  | present words =>
    induction words with
    | word blanks =>
      have constructor : ∀ c ∈ "constructor".toList, IsClauseChar c := by
        have letters : IsName "constructor".toList := by decide
        exact fun c member => .inr (.inl (letters.2 c member))
      exact List.forall_mem_append.mpr ⟨constructor, blanks.chars⟩
    | modifier modifier blanks _ _ ih =>
      have word : ∀ c ∈ _, IsClauseChar c := fun c member => .inr (modifier.word.2 c member)
      exact List.forall_mem_append.mpr ⟨word, List.forall_mem_append.mpr ⟨blanks.chars, ih⟩⟩

theorem not_mem_of_clauseChars {text : List Char} (chars : ∀ c ∈ text, IsClauseChar c) {c : Char}
    (other : isBlank c = false ∧ isWord c = false ∧ c ≠ '@') : c ∉ text := by
  intro member
  rcases chars c member with blank | word | rfl
  · simp [other] at blank
  · simp [other] at word
  · exact other.2.2 rfl

theorem HeaderTail.noParenthesis {tail : List Char} (tailText : HeaderTail tail) :
    '(' ∉ tail := by
  obtain ⟨blanks, typeParameters, clause⟩ := tailText
  rw [List.mem_append, List.mem_append, not_or, not_or]
  refine ⟨not_mem_of_clauseChars blanks.chars (by decide), ?_,
    not_mem_of_clauseChars clause.chars (by decide)⟩
  cases typeParameters with
  | absent => simp
  | present plains blanks =>
    have behind := not_mem_of_clauseChars (c := '(') blanks.chars (by decide)
    have inside : '(' ∉ _ := fun member => plains '(' member (by decide)
    simp [behind, inside]

theorem isConstructorClause_skipBlanks (text : List Char) :
    isConstructorClause (skipBlanks text) = isConstructorClause text := by
  have blanks : Blanks (text.takeWhile isBlank) := List.all_eq_true.mp List.all_takeWhile
  have same := words_blanks blanks (skipBlanks text)
  rw [skipBlanks, List.takeWhile_append_dropWhile] at same
  rw [isConstructorClause, isConstructorClause, same, skipBlanks]

theorem headerTail_of_isHeaderTail {tail : List Char} (noParenthesis : '(' ∉ tail)
    (isTail : isHeaderTail tail = true) : HeaderTail tail := by
  unfold isHeaderTail at isTail
  split at isTail
  next rest skipped =>
    obtain ⟨inner, more, rfl, plains, -, isClause⟩ := closesTypeParameters_iff.mp isTail
    obtain ⟨s, clause, rfl, blanks, clauseText⟩ := isConstructorClause_iff.mp isClause
    have split : tail.takeWhile isBlank ++ skipBlanks tail = tail :=
      List.takeWhile_append_dropWhile
    have blanks' : Blanks (tail.takeWhile isBlank) := List.all_eq_true.mp List.all_takeWhile
    rw [skipped] at split
    have plains' : ∀ c ∈ inner, c ∉ ['(', ')', '{', '}', ';'] := by
      intro c member listed
      rcases List.mem_cons.mp listed with rfl | listed
      · exact noParenthesis (by rw [← split]; simp [member])
      · exact plains c member listed
    have tailText := HeaderTail.intro blanks' (.present plains' blanks) clauseText
    rw [← split]
    simpa using tailText
  next =>
    rw [isConstructorClause_skipBlanks] at isTail
    obtain ⟨s, clause, rfl, blanks, clauseText⟩ := isConstructorClause_iff.mp isTail
    exact .intro blanks .absent clauseText

theorem HeaderTail.isHeaderTail {tail : List Char} (tailText : HeaderTail tail) :
    isHeaderTail tail = true := by
  obtain @⟨d, t, k, blanks, typeParameters, clauseText⟩ := tailText
  have noAngle : '<' ∉ k ∧ '>' ∉ k := by
    constructor <;> exact not_mem_of_clauseChars clauseText.chars (by decide)
  unfold Source.isHeaderTail
  rw [skipBlanks_blanks blanks]
  cases typeParameters with
  | absent =>
    rw [List.nil_append]
    split
    next rest skipped =>
      have inside : '<' ∈ skipBlanks k := by rw [skipped]; exact List.mem_cons_self
      exact absurd ((List.dropWhile_suffix isBlank).subset inside) noAngle.1
    next =>
      rw [isConstructorClause_skipBlanks]
      exact isConstructorClause_iff.mpr ⟨[], k, rfl, List.forall_mem_nil _, clauseText⟩
  | @present inner s plains blanks' =>
    have opening : isBlank '<' = false := by decide
    have stays : skipBlanks ('<' :: (inner ++ '>' :: s) ++ k) =
        '<' :: (inner ++ '>' :: (s ++ k)) := by
      simp [skipBlanks, opening]
    have isClause := isConstructorClause_iff.mpr ⟨s, k, rfl, blanks', clauseText⟩
    have last : '>' ∉ s ++ k := by
      have gap := not_mem_of_clauseChars (c := '>') blanks'.chars (by decide)
      rw [List.mem_append, not_or]
      exact ⟨gap, noAngle.2⟩
    rw [stays]
    refine closesTypeParameters_iff.mpr
      ⟨inner, s ++ k, rfl, fun c member listed => ?_, last, isClause⟩
    exact plains c member (List.mem_cons_of_mem _ listed)

theorem Blanks.headerTail {s : List Char} (blanks : Blanks s) : HeaderTail s := by
  have tailText := HeaderTail.intro blanks .absent .absent
  simpa using tailText

theorem HeaderTail.clause {clause : List Char} (clauseText : ConstructorClause clause) :
    HeaderTail clause :=
  .intro (List.forall_mem_nil _) .absent clauseText

/-- A tail stays one where its first word is counted to the name. -/
theorem HeaderTail.behind_word {tail : List Char} (tailText : HeaderTail tail) :
    HeaderTail (tail.dropWhile isWord) := by
  have stays {c : Char} {text : List Char} (noWord : isWord c = false)
      (tailText : HeaderTail (c :: text)) : HeaderTail ((c :: text).dropWhile isWord) := by
    rwa [List.dropWhile_cons, noWord]
  have whole := tailText
  obtain @⟨d, t, k, blanks, typeParameters, clauseText⟩ := tailText
  cases d with
  | cons c d => exact stays (isWord_of_isBlank (blanks c List.mem_cons_self)) whole
  | nil =>
    cases typeParameters with
    | present => exact stays (by decide) whole
    | absent =>
      cases clauseText with
      | absent => exact whole
      | present clause =>
        cases clause with
        | @word s blanks =>
          have letters : IsName "constructor".toList := by decide
          have noWord : ∀ c, s.head? = some c → isWord c = false :=
            fun c head => isWord_of_isBlank (blanks c (List.mem_of_mem_head? head))
          have dropped : ([] ++ ([] ++ ("constructor".toList ++ s))).dropWhile isWord = s :=
            dropWhile_run letters.2 noWord
          rw [dropped]
          exact blanks.headerTail
        | @modifier m s rest modifier blanks wide later =>
          cases modifier with
          | annotated => exact stays (by decide) whole
          | visibility known =>
            have names : ∀ word ∈ ["private", "internal", "protected", "public"].map String.toList,
                IsName word := by decide
            have noWord : ∀ c, (s ++ rest).head? = some c → isWord c = false :=
              fun c head => isWord_of_isBlank (blanks c (head_mem wide head))
            have dropped : ([] ++ ([] ++ (m ++ (s ++ rest)))).dropWhile isWord = s ++ rest :=
              dropWhile_run (names m known).2 noWord
            rw [dropped]
            exact .intro blanks .absent (.present later)

/-- What stands at the head of a text: the two words, a whole name, and a tail up to the first
parenthesis. -/
structure HeadedBy (text name a b tail back : List Char) : Prop where
  split : text = "data".toList ++ (a ++ ("class".toList ++ (b ++ (name ++ (tail ++ '(' :: back)))))
  blanks : Blanks a ∧ a ≠ []
  blanks' : Blanks b ∧ b ≠ []
  isName : IsName name
  whole : ∀ c, (tail ++ '(' :: back).head? = some c → isWord c = false
  tailText : HeaderTail tail

def headerText (name a b tail : List Char) : List Char :=
  "data".toList ++ (a ++ ("class".toList ++ (b ++ (name ++ (tail ++ ['('])))))

theorem HeadedBy.eq_headerText {text name a b tail back : List Char}
    (headed : HeadedBy text name a b tail back) : text = headerText name a b tail ++ back := by
  rw [headed.split, headerText]
  simp

theorem HeadedBy.headerText {text name a b tail back : List Char}
    (headed : HeadedBy text name a b tail back) : HeaderText name (headerText name a b tail) :=
  .intro headed.blanks.1 headed.blanks.2 headed.blanks'.1 headed.blanks'.2 headed.isName
    headed.tailText

theorem headerText_pos (name a b tail : List Char) : 0 < (headerText name a b tail).length :=
  Nat.zero_lt_succ _

theorem headedBy_of_headerAt? {text name : List Char} {n : Nat}
    (found : headerAt? text = some (name, n)) :
    ∃ a b tail back, HeadedBy text name a b tail back ∧ n = (headerText name a b tail).length := by
  simp only [headerAt?, Option.bind_eq_bind, Option.bind_eq_some_iff] at found
  obtain ⟨first, data, second, skipped, third, word, fourth, blank, found⟩ := found
  obtain ⟨a, wide, blanks, rfl⟩ := eq_of_skipSomeBlanks? skipped
  obtain ⟨b, wide', blanks', rfl⟩ := eq_of_skipSomeBlanks? blank
  split at found
  next header =>
    obtain ⟨nonempty, opening, isTail⟩ := header
    obtain ⟨rfl, length⟩ := Prod.mk.inj (Option.some.inj found)
    have splitName := @List.takeWhile_append_dropWhile _ isWord fourth
    have whole := List.head?_dropWhile_not isWord fourth
    have splitTail := @List.takeWhile_append_dropWhile _ (· ≠ '(') (fourth.dropWhile isWord)
    have stops := List.head?_dropWhile_not (· ≠ '(') (fourth.dropWhile isWord)
    have noParenthesis : '(' ∉ (fourth.dropWhile isWord).takeWhile (· ≠ '(') := fun member =>
      absurd (List.all_eq_true.mp List.all_takeWhile '(' member) (by decide)
    obtain ⟨c, back, rest⟩ := List.exists_cons_of_ne_nil opening
    rw [rest] at splitTail stops length
    obtain rfl : c = '(' := by simpa using stops
    have headed : HeadedBy text (fourth.takeWhile isWord) a b
        ((fourth.dropWhile isWord).takeWhile (· ≠ '(')) back := by
      constructor
      case split => rw [eq_of_dropWord? data, eq_of_dropWord? word, splitTail, splitName]
      case blanks => exact ⟨blanks, wide⟩
      case blanks' => exact ⟨blanks', wide'⟩
      case isName => exact ⟨nonempty, List.all_eq_true.mp List.all_takeWhile⟩
      case whole =>
        intro c head
        rw [splitTail] at head
        simpa [head] using whole
      case tailText => exact headerTail_of_isHeaderTail noParenthesis isTail
    refine ⟨a, b, _, back, headed, ?_⟩
    have total := congrArg List.length headed.eq_headerText
    have positive := headerText_pos (fourth.takeWhile isWord) a b
      ((fourth.dropWhile isWord).takeWhile (· ≠ '('))
    rw [List.length_append] at total
    rw [List.length_cons] at length
    omega
  next => cases found

theorem HeadedBy.headerAt? {text name a b tail back : List Char}
    (headed : HeadedBy text name a b tail back) :
    headerAt? text = some (name, (Source.headerText name a b tail).length) := by
  have word : IsName "class".toList := by decide
  have noParenthesis := headed.tailText.noParenthesis
  have inside : ∀ c ∈ tail, decide (c ≠ '(') = true := by
    intro c member
    rw [decide_eq_true_eq]
    rintro rfl
    exact noParenthesis member
  have stop : ∀ c, ('(' :: back).head? = some c → decide (c ≠ '(') = false := by simp
  have total := congrArg List.length headed.eq_headerText
  have positive := headerText_pos name a b tail
  rw [List.length_append] at total
  rw [headed.split] at total ⊢
  simp only [Source.headerAt?, Option.bind_eq_bind, dropWord?_append, Option.bind_some,
    skipSomeBlanks?_blanks headed.blanks.1 headed.blanks.2, skipBlanks_name word,
    skipSomeBlanks?_blanks headed.blanks'.1 headed.blanks'.2, skipBlanks_name headed.isName,
    takeWhile_run headed.isName.2 headed.whole, dropWhile_run headed.isName.2 headed.whole,
    takeWhile_run inside stop, dropWhile_run inside stop]
  rw [if_pos ⟨headed.isName.1, List.cons_ne_nil _ _, headed.tailText.isHeaderTail⟩, total,
    List.length_cons]
  congr 2
  omega

/-- Where a text of the language stands, one with the whole name stands, and it is the same text. -/
theorem HeaderText.headedBy {name header : List Char} (text : HeaderText name header)
    (back : List Char) : ∃ more a b tail, HeadedBy (header ++ back) (name ++ more) a b tail back ∧
      headerText (name ++ more) a b tail = header := by
  obtain @⟨a, b, tail, blanks, wide, blanks', wide', isName, tailText⟩ := text
  have splitTail := @List.takeWhile_append_dropWhile _ isWord tail
  have whole := List.head?_dropWhile_not isWord tail
  have letters := List.all_eq_true.mp (@List.all_takeWhile _ isWord tail)
  have behind := tailText.behind_word
  generalize tail.takeWhile isWord = more at splitTail letters
  generalize tail.dropWhile isWord = rest at splitTail whole behind
  subst splitTail
  refine ⟨more, a, b, rest, ?_, by simp [headerText]⟩
  constructor
  case split => simp
  case blanks => exact ⟨blanks, wide⟩
  case blanks' => exact ⟨blanks', wide'⟩
  case isName =>
    refine ⟨?_, List.forall_mem_append.mpr ⟨isName.2, letters⟩⟩
    simp [isName.1]
  case whole =>
    intro c head
    cases rest with
    | nil =>
      obtain rfl := Option.some.inj head
      exact noWord_parenthesis
    | cons d rest =>
      obtain rfl := Option.some.inj head
      simpa using whole
  case tailText => exact behind

theorem pairwise_headersFrom (offset : Nat) (afterWord : Bool) (text : List Char) :
    (headersFrom offset afterWord text).Pairwise fun g h => g.stop ≤ h.start := by
  fun_induction headersFrom offset afterWord text with
  | case1 => exact .nil
  | case2 offset afterWord c rest name n found ih =>
    exact List.pairwise_cons.mpr ⟨fun h member => le_start_of_mem member, ih⟩
  | case3 offset afterWord c rest none ih => exact ih

theorem map_header_declarations (code : List Char) :
    (declarations code).map Declaration.header = headers code := by
  rw [declarations, List.map_map]
  exact List.map_id _

/-- Between a character of no word and the first word of a header there is a boundary, and there is
none behind another word. -/
theorem wordBoundary_iff {text rest : List Char} {i : Nat} (data : text.drop i = 'd' :: rest) :
    WordBoundary text i ↔ endsInWord (text.take i) = false := by
  have letter : isWord 'd' = true := by decide
  rw [WordBoundary, data, List.head?_cons, Option.any_some, letter, endsInWord]
  exact Bool.not_eq_true _ ▸ Iff.rfl

theorem HeaderText.data {name header : List Char} (text : HeaderText name header)
    (back : List Char) : ∃ rest, header ++ back = 'd' :: rest := by
  cases text
  exact ⟨_, rfl⟩

theorem Occurs.headedBy {text : List Char} {h : Header} (occurs : Occurs text h) :
    ∃ a b tail back, HeadedBy (text.drop h.start) h.name.toList a b tail back ∧
      h.stop = h.start + (headerText h.name.toList a b tail).length := by
  obtain ⟨name, n, found, named, stop⟩ := occurs.reads
  obtain ⟨a, b, tail, back, headed, rfl⟩ := headedBy_of_headerAt? found
  rw [named, String.toList_ofList]
  exact ⟨a, b, tail, back, headed, stop⟩

/-- All texts of the language that start where a header occurs end with it, and their names begin
its name. -/
theorem Occurs.longest {text : List Char} {h : Header} (occurs : Occurs text h)
    {name header : List Char} (language : HeaderText name header)
    (starts : header <+: text.drop h.start) :
    h.start + header.length = h.stop ∧ name <+: h.name.toList := by
  obtain ⟨found, n, reads, named, stop⟩ := occurs.reads
  obtain ⟨back, split⟩ := starts
  obtain ⟨more, a, b, tail, headed, rfl⟩ := language.headedBy back
  rw [← split, headed.headerAt?] at reads
  obtain ⟨rfl, rfl⟩ := Prod.mk.inj (Option.some.inj reads)
  rw [named, String.toList_ofList]
  exact ⟨stop.symm, List.prefix_append name more⟩

/-- A header occurs exactly where a text of the language starts. -/
theorem begins_iff {text : List Char} {i : Nat} :
    Begins text i ↔ ∃ h, Occurs text h ∧ h.start = i := by
  constructor
  · rintro ⟨boundary, name, header, language, back, split⟩
    obtain ⟨more, a, b, tail, headed, rfl⟩ := language.headedBy back
    obtain ⟨rest, data⟩ := language.data back
    rw [split] at headed data
    have front := (wordBoundary_iff data).mp boundary
    exact ⟨⟨_, i, i + _⟩, ⟨⟨_, _, headed.headerAt?, rfl, rfl⟩, front⟩, rfl⟩
  · rintro ⟨h, occurs, rfl⟩
    obtain ⟨a, b, tail, back, headed, -⟩ := occurs.headedBy
    obtain ⟨rest, data⟩ := headed.headerText.data back
    rw [← headed.eq_headerText] at data
    refine ⟨(wordBoundary_iff data).mpr occurs.front, _, _, headed.headerText, back, ?_⟩
    exact headed.eq_headerText.symm

/-- The declarations that are looked at are exactly the leftmost texts of the language that do not
overlap. Each has the whole run of word characters behind `class` as its name and ends with the
first parenthesis behind that; however a text of the language at the same place is taken apart,
it ends there too, and its name is no longer. -/
theorem headers_exact (code : List Char) :
    let visited := (declarations code).map Declaration.header
    visited.Pairwise (fun g h => g.stop ≤ h.start) ∧
    (∀ i, (∃ h ∈ visited, h.start = i) ↔
      Begins code i ∧ ∀ g ∈ visited, g.start < i → g.stop ≤ i) ∧
    ∀ h ∈ visited,
      (∃ a b tail back, HeadedBy (code.drop h.start) h.name.toList a b tail back ∧ '(' ∉ tail ∧
        h.stop = h.start + (headerText h.name.toList a b tail).length) ∧
      ∀ name header, HeaderText name header → header <+: code.drop h.start →
        h.start + header.length = h.stop ∧ name <+: h.name.toList := by
  intro visited
  have same : visited = headers code := map_header_declarations code
  rw [same]
  refine ⟨pairwise_headersFrom 0 false code, fun i => ?_, fun h member => ?_⟩
  · rw [begins_iff]
    constructor
    · rintro ⟨h, member, rfl⟩
      obtain ⟨occurs, apart⟩ := mem_headers_iff.mp member
      exact ⟨⟨h, occurs, rfl⟩, apart⟩
    · rintro ⟨⟨h, occurs, rfl⟩, apart⟩
      exact ⟨h, mem_headers_iff.mpr ⟨occurs, apart⟩, rfl⟩
  · have occurs := (mem_headers_iff.mp member).1
    obtain ⟨a, b, tail, back, headed, stop⟩ := occurs.headedBy
    refine ⟨⟨a, b, tail, back, headed, headed.tailText.noParenthesis, stop⟩, ?_⟩
    exact fun name header language starts => occurs.longest language starts

/-- The end of a name that could be a modifier stays with the name, and the search goes on in the
list behind it. -/
example : headers "data class Userprivate constructor(data class B<T>@In constructor(".toList =
    [⟨"Userprivate", 0, 35⟩, ⟨"B", 35, 66⟩] := by decide +kernel

end RecordCompat.Source
