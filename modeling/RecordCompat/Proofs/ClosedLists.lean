import RecordCompat.Source.Extraction

/-! What ends a parameter list. The search counts brackets of all kinds together, so any
closing bracket can end a list. A list that is closed by its own parenthesis, brackets being
paired kind by kind, is always found. The converse holds for lists without a clash: a
bracket that meets a closing one of another kind. -/
namespace RecordCompat.Source

def Matches (opening closing : Char) : Prop :=
  (opening, closing) ∈ [('(', ')'), ('[', ']'), ('{', '}')]

instance (opening closing : Char) : Decidable (Matches opening closing) :=
  inferInstanceAs (Decidable (_ ∈ _))

theorem Matches.opens {o c : Char} (same : Matches o c) : (Lexeme.char o).opens = true := by
  simp only [Matches, List.mem_cons, Prod.mk.injEq, List.not_mem_nil, or_false] at same
  rcases same with ⟨rfl, -⟩ | ⟨rfl, -⟩ | ⟨rfl, -⟩ <;> rfl

theorem Matches.closes {o c : Char} (same : Matches o c) : (Lexeme.char c).closes = true := by
  simp only [Matches, List.mem_cons, Prod.mk.injEq, List.not_mem_nil, or_false] at same
  rcases same with ⟨-, rfl⟩ | ⟨-, rfl⟩ | ⟨-, rfl⟩ <;> rfl

theorem eq_char_of_bracket {x : Lexeme} (bracket : x.opens = true ∨ x.closes = true) :
    ∃ c, x = .char c := by
  cases x with
  | literal => simp [Lexeme.opens, Lexeme.closes] at bracket
  | char c => exact ⟨c, rfl⟩

/-- Code whose brackets are paired, each with one of its kind. -/
inductive Paired : List Lexeme → Prop
  | nil : Paired []
  | plain {x : Lexeme} {rest : List Lexeme} : x.opens = false → x.closes = false →
      Paired rest → Paired (x :: rest)
  | group {o c : Char} {inner rest : List Lexeme} : Matches o c → Paired inner →
      Paired rest → Paired (.char o :: (inner ++ .char c :: rest))

theorem Paired.append {first second : List Lexeme} (left : Paired first) (right : Paired second) :
    Paired (first ++ second) := by
  induction left with
  | nil => exact right
  | plain noOpening noClosing _ ih => exact .plain noOpening noClosing ih
  | group same inner _ _ ih =>
    have whole := Paired.group same inner ih
    simpa using whole

def ClosedByOwn (code : List Lexeme) : Prop :=
  ∃ inner tail, code = inner ++ .char ')' :: tail ∧ Paired inner

/-- A bracket, paired code, and a closing bracket of another kind. -/
def Clashes (code : List Lexeme) : Prop :=
  ∃ front o inner c back, code = front ++ .char o :: (inner ++ .char c :: back) ∧
    (Lexeme.char o).opens = true ∧ (Lexeme.char c).closes = true ∧ ¬ Matches o c ∧ Paired inner

theorem Clashes.within {code : List Lexeme} (clashes : Clashes code) (before behind : List Lexeme) :
    Clashes (before ++ code ++ behind) := by
  obtain ⟨front, o, inner, c, back, rfl, opens, closes, other, paired⟩ := clashes
  exact ⟨before ++ front, o, inner, c, back ++ behind, by simp, opens, closes, other, paired⟩

/-- The brackets left open behind code, the innermost first. There are none where a closing
bracket is not of the kind of the innermost one. -/
def openBehind? (stack : List Char) : List Lexeme → Option (List Char)
  | [] => some stack
  | .literal _ :: rest => openBehind? stack rest
  | .char c :: rest =>
    if (Lexeme.char c).opens then openBehind? (c :: stack) rest
    else if (Lexeme.char c).closes then
      match stack with
      | [] => none
      | o :: stack => if Matches o c then openBehind? stack rest else none
    else openBehind? stack rest

theorem openBehind?_append (stack : List Char) (first second : List Lexeme) :
    openBehind? stack (first ++ second) =
      (openBehind? stack first).bind fun stack => openBehind? stack second := by
  fun_induction openBehind? stack first <;> simp_all [openBehind?]

theorem openBehind?_open {o : Char} (opens : (Lexeme.char o).opens = true) (stack : List Char)
    (rest : List Lexeme) : openBehind? stack (.char o :: rest) = openBehind? (o :: stack) rest := by
  simp [openBehind?, opens]

theorem openBehind?_close {c : Char} (closes : (Lexeme.char c).closes = true) (o : Char)
    (stack : List Char) (rest : List Lexeme) : openBehind? (o :: stack) (.char c :: rest) =
      if Matches o c then openBehind? stack rest else none := by
  simp [openBehind?, not_opens_of_closes closes, closes]

theorem Paired.openBehind? {code : List Lexeme} (paired : Paired code) (stack : List Char) :
    openBehind? stack code = some stack := by
  induction paired generalizing stack with
  | nil => rfl
  | @plain x rest noOpening noClosing _ ih =>
    cases x with
    | literal => exact ih stack
    | char c => simp [Source.openBehind?, noOpening, noClosing, ih]
  | group same _ _ inner rest =>
    rw [openBehind?_open same.opens, openBehind?_append, inner, Option.bind_some,
      openBehind?_close same.closes, if_pos same, rest]

theorem Paired.not_clashes {code : List Lexeme} (paired : Paired code) : ¬ Clashes code := by
  rintro ⟨front, o, inner, c, back, rfl, opens, closes, other, between⟩
  have all := paired.openBehind? []
  rw [openBehind?_append] at all
  cases reached : Source.openBehind? [] front with
  | none => simp [reached] at all
  | some stack =>
    rw [reached, Option.bind_some, openBehind?_open opens, openBehind?_append,
      between.openBehind?, Option.bind_some, openBehind?_close closes, if_neg other] at all
    cases all

theorem enclosed?_split {depth : Nat} {code inner : List Lexeme}
    (found : enclosed? depth code = some inner) :
    ∃ x tail, code = inner ++ x :: tail ∧ x.closes = true := by
  induction code generalizing depth inner with
  | nil => cases found
  | cons y rest ih =>
    have behind {depth : Nat} (found : (enclosed? depth rest).map (y :: ·) = some inner) :
        ∃ x tail, y :: rest = inner ++ x :: tail ∧ x.closes = true := by
      obtain ⟨later, inside, rfl⟩ := Option.map_eq_some_iff.mp found
      obtain ⟨x, tail, rfl, closes⟩ := ih inside
      exact ⟨x, tail, rfl, closes⟩
    rw [enclosed?.eq_def] at found
    dsimp only at found
    split at found
    next => exact behind found
    next =>
      split at found
      next closes =>
        cases depth with
        | zero => exact ⟨y, rest, by simp [← Option.some.inj found], closes⟩
        | succ depth => exact behind found
      next => exact behind found

theorem Paired.enclosed {code : List Lexeme} (paired : Paired code) (depth : Nat)
    (more : List Lexeme) :
    enclosed? depth (code ++ more) = (enclosed? depth more).map (code ++ ·) := by
  induction paired generalizing depth more with
  | nil => simp
  | plain noOpening noClosing _ ih =>
    rw [List.cons_append, enclosed?.eq_def]
    simp [noOpening, noClosing, ih, Option.map_map, Function.comp_def]
  | @group o c inner rest same _ _ ihInner ihRest =>
    have opening := same.opens
    have closing := same.closes
    have noOpening := not_opens_of_closes closing
    rw [List.cons_append, enclosed?.eq_def]
    dsimp only
    rw [if_pos opening, List.append_assoc, ihInner, List.cons_append, enclosed?.eq_def]
    dsimp only
    rw [noOpening, if_neg Bool.false_ne_true, if_pos closing, ihRest]
    simp [Option.map_map, Function.comp_def]

/-- Code behind which brackets are open, the innermost first, and paired code everywhere
between them. -/
inductive Opened : List Char → List Lexeme → Prop
  | none {code : List Lexeme} : Paired code → Opened [] code
  | more {stack : List Char} {o : Char} {front code : List Lexeme} : Opened stack front →
      (Lexeme.char o).opens = true → Paired code → Opened (o :: stack) (front ++ .char o :: code)

theorem Opened.append {stack : List Char} {code more : List Lexeme} (opened : Opened stack code)
    (paired : Paired more) : Opened stack (code ++ more) := by
  cases opened with
  | none first => exact .none (first.append paired)
  | more front opens first =>
    have opened := Opened.more front opens (first.append paired)
    simpa using opened

theorem Opened.close {stack : List Char} {o c : Char} {code : List Lexeme}
    (opened : Opened (o :: stack) code) (same : Matches o c) :
    Opened stack (code ++ [.char c]) := by
  cases opened with
  | more outer _ paired =>
    have group := outer.append (Paired.group same paired .nil)
    simpa using group

theorem Opened.clashes {stack : List Char} {o c : Char} {code : List Lexeme}
    (opened : Opened (o :: stack) code) (closes : (Lexeme.char c).closes = true)
    (other : ¬ Matches o c) : Clashes (code ++ [.char c]) := by
  cases opened with
  | @more _ _ front code _ opens paired =>
    exact ⟨front, o, code, c, [], by simp, opens, closes, other, paired⟩

theorem Opened.behind {stack left : List Char} {front code : List Lexeme}
    (opened : Opened stack front) (read : openBehind? stack code = some left) :
    Opened left (front ++ code) := by
  fun_induction openBehind? stack code generalizing front with
  | case1 stack =>
    cases read
    simpa using opened
  | case2 stack text rest ih =>
    have plain : Paired [.literal text] := .plain rfl rfl .nil
    simpa using ih (opened.append plain) read
  | case3 stack c rest opens ih => simpa using ih (.more opened opens .nil) read
  | case4 => cases read
  | case5 c rest noOpening closes o stack same ih => simpa using ih (opened.close same) read
  | case6 => cases read
  | case7 stack c rest noOpening noClosing ih =>
    have plain : Paired [.char c] :=
      .plain (Bool.eq_false_iff.mpr noOpening) (Bool.eq_false_iff.mpr noClosing) .nil
    simpa using ih (opened.append plain) read

theorem paired_iff {code : List Lexeme} : Paired code ↔ openBehind? [] code = some [] := by
  constructor
  · exact fun paired => paired.openBehind? []
  · intro read
    cases Opened.behind (.none .nil) read with
    | none paired => exact paired

instance (code : List Lexeme) : Decidable (Paired code) :=
  decidable_of_iff _ paired_iff.symm

/-- Without a clash, what the search finds leaves no bracket open. -/
theorem Opened.enclosed {depth : Nat} {code inner : List Lexeme}
    (found : enclosed? depth code = some inner) {stack : List Char} {front : List Lexeme}
    (opened : Opened stack front) (deep : stack.length = depth)
    (noClash : ¬ Clashes (front ++ inner)) : Paired (front ++ inner) := by
  induction code generalizing depth inner stack front with
  | nil => cases found
  | cons x rest ih =>
    have behind (next : List Char)
        (found : (enclosed? next.length rest).map (x :: ·) = some inner)
        (opened : Clashes (front ++ [x]) ∨ Opened next (front ++ [x])) :
        Paired (front ++ inner) := by
      obtain ⟨later, inside, rfl⟩ := Option.map_eq_some_iff.mp found
      have whole : front ++ x :: later = front ++ [x] ++ later := by simp
      rw [whole] at noClash ⊢
      rcases opened with clash | opened
      · exact absurd (clash.within [] later) noClash
      · exact ih inside opened rfl noClash
    rw [enclosed?.eq_def] at found
    dsimp only at found
    subst deep
    split at found
    next opens =>
      obtain ⟨o, rfl⟩ := eq_char_of_bracket (.inl opens)
      exact behind (o :: stack) found (.inr (.more opened opens .nil))
    next noOpening =>
      split at found
      next closes =>
        obtain ⟨c, rfl⟩ := eq_char_of_bracket (.inr closes)
        cases stack with
        | nil =>
          obtain rfl := Option.some.inj found
          cases opened with
          | none paired => simpa using paired
        | cons o stack =>
          by_cases same : Matches o c
          · exact behind stack found (.inr (opened.close same))
          · exact behind stack found (.inl (opened.clashes closes same))
      next noClosing =>
        have plain := Paired.plain (Bool.eq_false_iff.mpr noOpening)
          (Bool.eq_false_iff.mpr noClosing) .nil
        exact behind stack found (.inr (opened.append plain))

/-- A list is closed by its own parenthesis if and only if the search finds an end and no
bracket up to there, the list's own included, clashes. -/
theorem closedByOwn_iff {code : List Lexeme} :
    ClosedByOwn code ↔ ∃ inner x tail, enclosed? 0 code = some inner ∧ code = inner ++ x :: tail ∧
      ¬ Clashes (.char '(' :: (inner ++ [x])) := by
  have own : Matches '(' ')' := by decide
  constructor
  · rintro ⟨inner, tail, rfl, paired⟩
    have group := Paired.group own paired .nil
    refine ⟨inner, .char ')', tail, ?_, rfl, group.not_clashes⟩
    rw [paired.enclosed]
    simp [enclosed?, Lexeme.opens, Lexeme.closes]
  · rintro ⟨inner, x, tail, found, rfl, noClash⟩
    have quiet : ¬ Clashes inner := by
      intro clash
      have wider := clash.within [.char '('] [x]
      exact noClash (by simpa using wider)
    have paired : Paired inner := Opened.enclosed found (.none .nil) rfl quiet
    obtain ⟨y, back, same, closes⟩ := enclosed?_split found
    obtain ⟨rfl, rfl⟩ := List.cons.inj (List.append_cancel_left same)
    obtain ⟨c, rfl⟩ := eq_char_of_bracket (.inr closes)
    by_cases kind : Matches '(' c
    · obtain rfl : c = ')' := by simpa [Matches] using kind
      exact ⟨inner, tail, rfl, paired⟩
    · exact absurd ⟨[], '(', inner, c, [], by simp, rfl, closes, kind, paired⟩ noClash

/-- A bracket of a list clashes, up to the bracket that the search takes for the end. -/
def ListClashes (code : List Lexeme) : Prop :=
  ∃ inner x tail, enclosed? 0 code = some inner ∧ code = inner ++ x :: tail ∧
    Clashes (.char '(' :: (inner ++ [x]))

theorem record?_isSome {code : List Char} {d : Declaration} (declared : d ∈ declarations code) :
    d.record?.isSome = (enclosed? 0 (lexemes (code.drop d.header.stop))).isSome := by
  obtain ⟨header, -, rfl⟩ := List.mem_map.mp declared
  simp only [Declaration.record?, declarationAt, bracketed?, enclosedText?_eq, Option.isSome_map]

/-- A declaration has a list that is closed by its own parenthesis if and only if it gives a
record and no bracket of the list clashes. -/
theorem closed_list_iff {text : String} {d : Declaration}
    (declared : d ∈ declarations (stripComments text.toList)) :
    let behind := lexemes ((stripComments text.toList).drop d.header.stop)
    ClosedByOwn behind ↔ d.record?.isSome = true ∧ ¬ ListClashes behind := by
  intro behind
  rw [record?_isSome declared, closedByOwn_iff]
  constructor
  · rintro ⟨inner, x, tail, found, split, noClash⟩
    refine ⟨Option.isSome_iff_exists.mpr ⟨inner, found⟩, ?_⟩
    rintro ⟨inner', x', tail', found', split', clash⟩
    obtain rfl := Option.some.inj (found.symm.trans found')
    obtain ⟨rfl, -⟩ := List.cons.inj (List.append_cancel_left (split.symm.trans split'))
    exact noClash clash
  · rintro ⟨found, noClash⟩
    obtain ⟨inner, found⟩ := Option.isSome_iff_exists.mp found
    obtain ⟨x, tail, split, -⟩ := enclosed?_split found
    exact ⟨inner, x, tail, found, split, fun clash => noClash ⟨inner, x, tail, found, split, clash⟩⟩

/-- Brackets of two kinds and a bracket in a literal. -/
theorem closed_list_of_user :
    let text := "data class User(val ids: List<Int> = f(\")\", a[0]))"
    let d := declarationAt (stripComments text.toList) ⟨"User", 0, 16⟩
    d ∈ declarations (stripComments text.toList) ∧ d.record?.isSome = true ∧
      ¬ ListClashes (lexemes ((stripComments text.toList).drop d.header.stop)) := by
  intro text d
  have headers : ⟨"User", 0, 16⟩ ∈ headers (stripComments text.toList) := by decide +kernel
  have declared : d ∈ declarations (stripComments text.toList) := List.mem_map_of_mem headers
  have closed : ClosedByOwn (lexemes ((stripComments text.toList).drop d.header.stop)) :=
    ⟨lexemes "val ids: List<Int> = f(\")\", a[0])".toList, [], by decide +kernel, by decide +kernel⟩
  exact ⟨declared, (closed_list_iff declared).mp closed⟩

/-- A record may come from a list that is never closed. The parenthesis is missing, and the
brace that ends the class around the declaration is taken for it. -/
theorem record_of_unclosed_list :
    let text := "class Shop { data class User(val id: Int }"
    (extract text).records ≠ [] ∧ ∀ d ∈ declarations (stripComments text.toList),
      ¬ ClosedByOwn (lexemes ((stripComments text.toList).drop d.header.stop)) := by
  intro text
  have found : headers (stripComments text.toList) = [⟨"User", 13, 29⟩] := by decide +kernel
  have list : bracketed? ((stripComments text.toList).drop 29) = some "val id: Int ".toList := by
    decide +kernel
  have noParenthesis : ')' ∉ stripComments text.toList := by decide +kernel
  constructor
  · simp [extract, declarations, found, declarationAt, list, Declaration.record?]
  · rintro d - ⟨inner, tail, split, -⟩
    have spelled := congrArg spell split
    rw [spell_lexemes] at spelled
    apply noParenthesis
    apply List.mem_of_mem_drop (i := d.header.stop)
    simp [spelled, spell, Lexeme.text]

end RecordCompat.Source
