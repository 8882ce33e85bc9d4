import RecordCompat.Proofs.FrameStacks
import RecordCompat.Source.Split

/-! Readers that keep a text whole and an index into it. Nothing in their recursion says that they
end: a template that comes to a mark calls for the literal there and leaves the index where it is, a
literal that comes to the end of its line leaves that unread, and an escape at the end of the text
goes past it. So they are given a number of turns, and what one turn calls for is given one less. A
reader ends when it says the same with any number of turns from some number on; one that asks for a
literal behind the end of the text fails. That literals end is shown here; each part of one ends
where the scan in its frame does. -/
namespace RecordCompat.Source

/-- The end of a literal was asked for at an index without a character. -/
structure NoCharacter where
  index : Nat

/-- A reader may be left without turns, it may fail, and it notes where it asks for the end of a
literal. -/
abbrev Reading := StateT (List Nat) (ExceptT NoCharacter Option)

def noTurns {α : Type} : Reading α :=
  fun _ => (none : Option _)

def note (start : Nat) : Reading Unit :=
  modify (· ++ [start])

def marksFrom (text : List Char) : (turns i : Nat) → Reading Nat
  | 0, _ => noTurns
  | turns + 1, i => if text[i]? = some '"' then marksFrom text turns (i + 1) else return i

mutual

/-- The index behind the literal at `start`, whatever its mark. -/
def literalFrom (text : List Char) : (turns start : Nat) → Reading Nat
  | 0, _ => noTurns
  | turns + 1, start => do
    note start
    if ['"', '"', '"'] <+: text.drop start then rawFrom text turns (start + 3)
    else
      match text[start]? with
      | none => throw ⟨start⟩
      | some mark => lineFrom text turns mark (start + 1)

/-- The index behind a raw literal from a place inside it. -/
def rawFrom (text : List Char) : (turns i : Nat) → Reading Nat
  | 0, _ => noTurns
  | turns + 1, i =>
    match text[i]? with
    | none => return text.length
    | some _ =>
      if ['"', '"', '"'] <+: text.drop i then marksFrom text turns (i + 3)
      else if ['$', '{'] <+: text.drop i then do
        rawFrom text turns (← templateFrom text turns 1 (i + 2))
      else rawFrom text turns (i + 1)

/-- The index behind a single-line literal from a place inside it, or of the end of its line. -/
def lineFrom (text : List Char) : (turns : Nat) → (mark : Char) → (i : Nat) → Reading Nat
  | 0, _, _ => noTurns
  | turns + 1, mark, i =>
    match text[i]? with
    | none => return text.length
    | some c =>
      if c = '\\' then lineFrom text turns mark (i + 2)
      else if c = mark then return i + 1
      else if c = '\n' then return i
      else if mark = '"' ∧ ['$', '{'] <+: text.drop i then do
        lineFrom text turns mark (← templateFrom text turns 1 (i + 2))
      else lineFrom text turns mark (i + 1)

/-- The index behind a template that has `depth` braces left to close. -/
def templateFrom (text : List Char) : (turns depth i : Nat) → Reading Nat
  | 0, _, _ => noTurns
  | turns + 1, depth, i =>
    match text[i]? with
    | none => return text.length
    | some c =>
      if opensLiteral c then do templateFrom text turns depth (← literalFrom text turns i)
      else if c = '{' then templateFrom text turns (depth + 1) (i + 1)
      else if c = '}' then
        if depth = 1 then return i + 1 else templateFrom text turns (depth - 1) (i + 1)
      else templateFrom text turns depth (i + 1)

end

/-- The index behind block comments of which `depth` are open. -/
def commentFrom (text : List Char) : (turns : Nat) → (depth : Int) → (i : Nat) → Reading Nat
  | 0, _, _ => noTurns
  | turns + 1, depth, i =>
    match text[i]? with
    | none => return text.length
    | some _ =>
      if ['/', '*'] <+: text.drop i then commentFrom text turns (depth + 1) (i + 2)
      else if ['*', '/'] <+: text.drop i then
        if depth - 1 = 0 then return i + 2 else commentFrom text turns (depth - 1) (i + 2)
      else commentFrom text turns depth (i + 1)

def strippedFrom (text : List Char) : (turns i : Nat) → Reading (List Char)
  | 0, _ => noTurns
  | turns + 1, i =>
    match text[i]? with
    | none => return []
    | some c =>
      if opensLiteral c then do
        let stop ← literalFrom text turns i
        return text.extract i stop ++ (← strippedFrom text turns stop)
      else if ['/', '/'] <+: text.drop i then do
        let stop := i + ((text.drop i).takeWhile (· ≠ '\n')).length
        return ' ' :: (← strippedFrom text turns stop)
      else if ['/', '*'] <+: text.drop i then do
        let stop ← commentFrom text turns 0 i
        return ' ' :: (text.extract i stop).filter (· = '\n') ++ (← strippedFrom text turns stop)
      else return c :: (← strippedFrom text turns (i + 1))

/-- The index of the bracket that closes the last of `depth`. -/
def listFrom (text : List Char) :
    (turns : Nat) → (depth : Int) → (i : Nat) → Reading (Option Nat)
  | 0, _, _ => noTurns
  | turns + 1, depth, i =>
    match text[i]? with
    | none => return none
    | some c =>
      if opensLiteral c then do listFrom text turns depth (← literalFrom text turns i)
      else if (Lexeme.char c).opens then listFrom text turns (depth + 1) (i + 1)
      else if (Lexeme.char c).closes then
        if depth - 1 = 0 then return some i else listFrom text turns (depth - 1) (i + 1)
      else listFrom text turns depth (i + 1)

def piecesFrom (text : List Char) :
    (turns : Nat) → Nesting → (i : Nat) → Reading (List (List Lexeme))
  | 0, _, _ => noTurns
  | turns + 1, nesting, i =>
    match text[i]? with
    | none => return [[]]
    | some c =>
      if opensLiteral c then do
        let stop ← literalFrom text turns i
        let literal := .literal (text.extract i stop)
        return prepend literal (← piecesFrom text turns (nesting.after literal) stop)
      else do
        let behind ← piecesFrom text turns (nesting.after (.char c)) (i + 1)
        return if nesting.cutsAt (.char c) then [] :: behind else prepend (.char c) behind

def parametersFrom (text : List Char) (turns : Nat) : Reading (List (List Char)) := do
  let found ← piecesFrom text turns .outside 0
  return (found.map fun piece => Text.strip (spell piece)).filter (· ≠ [])

section Ends

variable {α β : Type} {text : List Char} {reader : Nat → Reading α}

/-- With turns enough, and whatever was noted before, the reader ends with this result, and it asked
for literals only where the text has a character. -/
def Ends (text : List Char) (reader : Nat → Reading α) (result : α) : Prop :=
  ∃ enough, ∀ turns ≥ enough, ∀ before, ∃ starts,
    ((reader turns).run before).run = some (.ok (result, before ++ starts)) ∧
      ∀ start ∈ starts, start < text.length

/-- With turns enough the reader fails, since there is no character at this index. -/
def Fails (reader : Nat → Reading α) (index : Nat) : Prop :=
  ∃ enough, ∀ turns ≥ enough, ∀ before,
    ((reader turns).run before).run = some (.error ⟨index⟩)

theorem Ends.pure (result : α) : Ends text (fun _ => pure result) result :=
  ⟨0, fun _ _ _ => ⟨[], by simp, List.forall_mem_nil _⟩⟩

theorem Ends.bind {next : α → Nat → Reading β} {a : α} {b : β} (first : Ends text reader a)
    (second : Ends text (next a) b) :
    Ends text (fun turns => reader turns >>= fun a => next a turns) b := by
  obtain ⟨enough, first⟩ := first
  obtain ⟨enough', second⟩ := second
  refine ⟨max enough enough', fun turns many before => ?_⟩
  obtain ⟨front, ran, frontInside⟩ := first turns (by omega) before
  obtain ⟨back, ran', backInside⟩ := second turns (by omega) (before ++ front)
  refine ⟨front ++ back, ?_, List.forall_mem_append.mpr ⟨frontInside, backInside⟩⟩
  rw [StateT.run_bind, ExceptT.run_bind, ran, ← List.append_assoc]
  exact ran'

theorem Ends.turn {result : α} (ends : Ends text (fun turns => reader (turns + 1)) result) :
    Ends text reader result := by
  obtain ⟨enough, ends⟩ := ends
  refine ⟨enough + 1, fun turns many => ?_⟩
  obtain ⟨turns, rfl⟩ : ∃ n, turns = n + 1 := ⟨turns - 1, by omega⟩
  exact ends turns (by omega)

theorem ends_note {start : Nat} (inside : start < text.length) :
    Ends text (fun _ => note start) () :=
  ⟨0, fun _ _ _ => ⟨[start], rfl, by simpa using inside⟩⟩

theorem Ends.not_fails {result : α} (ends : Ends text reader result) (index : Nat) :
    ¬ Fails reader index := by
  rintro ⟨enough, fails⟩
  obtain ⟨enough', ends⟩ := ends
  obtain ⟨starts, ran, -⟩ := ends (max enough enough') (by omega) []
  rw [fails _ (by omega) []] at ran
  cases ran

end Ends

section Literals

variable {text rest : List Char} {i : Nat} {c : Char}

theorem exists_of_pair_prefix {a b : Char} (pair : [a, b] <+: text) :
    ∃ rest, text = a :: b :: rest := by
  obtain ⟨rest, rfl⟩ := pair
  exact ⟨rest, rfl⟩

theorem exists_of_marks_prefix (marks : ['"', '"', '"'] <+: text) :
    ∃ rest, text = '"' :: '"' :: '"' :: rest := by
  obtain ⟨rest, rfl⟩ := marks
  exact ⟨rest, rfl⟩

theorem ends_marks {more : List Char} (present : text.drop i = '"' :: '"' :: '"' :: more) :
    Ends text (marksFrom text · (i + 3)) (scanStop [.raw] text i) := by
  have within : i + 3 ≤ text.length := lt_of_drop (drop_add_two present)
  have behind : text.drop (i + 3) = more := drop_succ_of_drop (drop_add_two present)
  induction more generalizing i with
  | nil =>
    have turn : Frame.raw.advance [] '"' ['"', '"'] = some (2, []) := by simp [Frame.advance]
    refine .turn ?_
    simp only [marksFrom, getElem?_of_drop_eq_nil behind, reduceCtorEq, if_false]
    rw [scanStop_advance present turn, scanStop_nil within]
    exact .pure _
  | cons d more ih =>
    refine .turn ?_
    simp only [marksFrom, getElem?_of_drop behind, Option.some.injEq]
    by_cases mark : d = '"'
    · subst d
      have turn : Frame.raw.advance [] '"' ('"' :: '"' :: '"' :: more) = some (0, [.raw]) := by
        simp [Frame.advance]
      simp only [if_pos]
      rw [scanStop_advance present turn]
      exact ih (drop_succ_of_drop present) (lt_of_drop behind) (drop_succ_of_drop behind)
    · have turn : Frame.raw.advance [] '"' ('"' :: '"' :: d :: more) = some (2, []) := by
        simp [Frame.advance, Ne.symm mark]
      simp only [if_neg mark]
      rw [scanStop_advance present turn, scanStop_nil within]
      exact .pure _

/-- What is known of the readers of a literal's parts at an index. -/
structure PartsEnd (text : List Char) (i : Nat) : Prop where
  raw : Ends text (rawFrom text · i) (scanStop [.raw] text i)
  line : ∀ mark, Ends text (lineFrom text · mark i) (scanStop [.line mark] text i)
  template : ∀ depth, Ends text (templateFrom text · (depth + 1) i)
    (scanStop (List.replicate (depth + 1) .braces) text i)

theorem literalStop_raw (present : text.drop i = '"' :: '"' :: '"' :: rest) :
    i + literalLength (text.drop i) = scanStop [.raw] text (i + 3) := by
  have within : i + 3 ≤ text.length := lt_of_drop (drop_add_two present)
  have behind : text.drop (i + 3) = rest := drop_succ_of_drop (drop_add_two present)
  rw [scanStop_of_le within, behind, present, literalLength, Nat.add_assoc]

theorem literalStop_line (present : text.drop i = c :: rest)
    (plain : ¬ ['"', '"', '"'] <+: c :: rest) :
    i + literalLength (text.drop i) = scanStop [.line c] text (i + 1) := by
  have within : i + 1 ≤ text.length := lt_of_drop present
  rw [scanStop_of_le within, drop_succ_of_drop present, present, literalLength_line plain,
    Nat.add_assoc]

theorem literalStop_bounds (inside : i < text.length) :
    i < i + literalLength (text.drop i) ∧ i + literalLength (text.drop i) ≤ text.length := by
  have some := literalLength_pos text[i] (text.drop (i + 1))
  have within := literalLength_le (text.drop i)
  rw [← List.drop_eq_getElem_cons inside] at some
  rw [List.length_drop] at within
  omega

theorem ends_literal_of (later : ∀ j, i < j → PartsEnd text j) (inside : i < text.length) :
    Ends text (literalFrom text · i) (i + literalLength (text.drop i)) := by
  have present := List.drop_eq_getElem_cons inside
  refine .turn ?_
  simp only [literalFrom, getElem?_of_drop present]
  refine (ends_note inside).bind ?_
  split_ifs with marks
  · obtain ⟨more, present⟩ := exists_of_marks_prefix marks
    rw [literalStop_raw present]
    exact (later (i + 3) (by omega)).raw
  · rw [present] at marks
    rw [literalStop_line present marks]
    exact (later (i + 1) (by omega)).line _

/-- A template in a frame is read by itself, and then what stands behind it. -/
theorem scanStop_template {frame : Frame} {outer : List Frame}
    (present : text.drop i = '$' :: '{' :: rest)
    (turn : frame.advance outer '$' ('{' :: rest) = some (1, .braces :: frame :: outer)) :
    scanStop (frame :: outer) text i =
      scanStop (frame :: outer) text (scanStop [.braces] text (i + 2)) := by
  rw [scanStop_advance present turn]
  exact @scanStop_append [.braces] _ _ _ (by simp) (lt_of_drop (drop_succ_of_drop present))

theorem ends_raw (later : ∀ j, i < j → PartsEnd text j) (present : text.drop i = c :: rest) :
    Ends text (rawFrom text · i) (scanStop [.raw] text i) := by
  refine .turn ?_
  simp only [rawFrom, getElem?_of_drop present]
  split_ifs with marks opening
  · obtain ⟨more, present⟩ := exists_of_marks_prefix marks
    exact ends_marks present
  · obtain ⟨code, present⟩ := exists_of_pair_prefix opening
    have within : i + 2 ≤ text.length := lt_of_drop (drop_succ_of_drop present)
    have behind : i + 2 ≤ scanStop [.braces] text (i + 2) := le_scanStop within
    have template : Ends text (templateFrom text · 1 (i + 2)) (scanStop [.braces] text (i + 2)) :=
      (later (i + 2) (by omega)).template 0
    rw [scanStop_template present (by simp [Frame.advance])]
    exact template.bind (later _ (by omega)).raw
  · rw [present] at marks opening
    rw [scanStop_advance present (advance_rawChar marks opening)]
    exact (later (i + 1) (by omega)).raw

theorem ends_line (later : ∀ j, i < j → PartsEnd text j) (present : text.drop i = c :: rest)
    (mark : Char) : Ends text (lineFrom text · mark i) (scanStop [.line mark] text i) := by
  have inside := lt_of_drop present
  refine .turn ?_
  simp only [lineFrom, getElem?_of_drop present]
  split_ifs with escape last feed opening
  · have turn : Frame.advance [] c rest (.line mark) = some (1, [.line mark]) := by
      simp [Frame.advance, escape]
    rw [scanStop_advance present turn]
    exact (later (i + 2) (by omega)).line mark
  · have turn : Frame.advance [] c rest (.line mark) = some (0, []) := by
      simp [Frame.advance, ← last, escape]
    rw [scanStop_advance present turn, scanStop_nil inside]
    exact .pure _
  · have stops : Frame.advance [] c rest (.line mark) = none :=
      advance_eq_none.mpr ⟨mark, rfl, feed, fun same => last (feed.trans same.symm), rfl⟩
    rw [scanStop_of_stop present stops]
    exact .pure _
  · obtain ⟨double, opening⟩ := opening
    obtain ⟨code, present⟩ := exists_of_pair_prefix opening
    have within : i + 2 ≤ text.length := lt_of_drop (drop_succ_of_drop present)
    have behind : i + 2 ≤ scanStop [.braces] text (i + 2) := le_scanStop within
    have template : Ends text (templateFrom text · 1 (i + 2)) (scanStop [.braces] text (i + 2)) :=
      (later (i + 2) (by omega)).template 0
    rw [scanStop_template present (by simp [Frame.advance, double])]
    exact template.bind ((later _ (by omega)).line mark)
  · have turn : Frame.advance [] c rest (.line mark) = some (0, [.line mark]) := by
      have noOpening : ¬ (mark = '"' ∧ c = '$' ∧ ['{'] <+: rest) := by
        rintro ⟨double, rfl, brace⟩
        rw [present] at opening
        exact opening ⟨double, List.cons_prefix_cons.mpr ⟨rfl, brace⟩⟩
      simp [Frame.advance, escape, last, feed, noOpening]
    rw [scanStop_advance present turn]
    exact (later (i + 1) (by omega)).line mark

/-- A literal in a template is read by itself, and then what stands behind it. -/
theorem scanStop_literal {outer : List Frame} (present : text.drop i = c :: rest)
    (opens : opensLiteral c = true) :
    scanStop (.braces :: outer) text i =
      scanStop (.braces :: outer) text (i + literalLength (text.drop i)) := by
  by_cases marks : ['"', '"', '"'] <+: text.drop i
  · obtain ⟨more, present⟩ := exists_of_marks_prefix marks
    have within : i + 3 ≤ text.length := lt_of_drop (drop_add_two present)
    have turn : Frame.braces.advance outer '"' ('"' :: '"' :: more) =
        some (2, [.raw] ++ .braces :: outer) := by
      simp [Frame.advance]
    rw [literalStop_raw present, scanStop_advance present turn, scanStop_append (by simp) within]
  · rw [present] at marks
    have noTwo : ¬ (c = '"' ∧ ['"', '"'] <+: rest) := fun two =>
      marks (List.cons_prefix_cons.mpr ⟨two.1.symm, two.2⟩)
    have isMark : c = '"' ∨ c = '\'' := by simpa [opensLiteral] using opens
    have turn : Frame.braces.advance outer c rest = some (0, [.line c] ++ .braces :: outer) := by
      simp [Frame.advance, noTwo, isMark]
    rw [literalStop_line present marks, scanStop_advance present turn,
      scanStop_append (by simp) (lt_of_drop present)]

theorem ends_template (later : ∀ j, i < j → PartsEnd text j)
    (present : text.drop i = c :: rest) (depth : Nat) :
    Ends text (templateFrom text · (depth + 1) i)
      (scanStop (List.replicate (depth + 1) .braces) text i) := by
  have inside := lt_of_drop present
  refine .turn ?_
  simp only [templateFrom, getElem?_of_drop present]
  rw [List.replicate_succ]
  split_ifs with opens opening closing lowest
  · have behind := (literalStop_bounds inside).1
    rw [scanStop_literal present opens]
    exact (ends_literal_of later inside).bind ((later _ behind).template depth)
  · have turn : Frame.advance (List.replicate depth .braces) c rest .braces =
        some (0, List.replicate (depth + 2) .braces) := by
      simp [Frame.advance, opening, List.replicate_succ]
    rw [scanStop_advance present turn]
    exact (later (i + 1) (by omega)).template (depth + 1)
  · obtain rfl := Nat.succ.inj lowest
    have turn : Frame.advance [] c rest .braces = some (0, []) := by
      simp [Frame.advance, closing]
    rw [List.replicate_zero, scanStop_advance present turn, scanStop_nil inside]
    exact .pure _
  · obtain ⟨depth, rfl⟩ : ∃ n, depth = n + 1 := ⟨depth - 1, by omega⟩
    have turn : Frame.advance (List.replicate (depth + 1) .braces) c rest .braces =
        some (0, List.replicate (depth + 1) .braces) := by
      simp [Frame.advance, closing]
    rw [scanStop_advance present turn]
    exact (later (i + 1) (by omega)).template depth
  · have noMark : ¬ (c = '"' ∨ c = '\'') := by simpa [opensLiteral] using opens
    have turn : Frame.advance (List.replicate depth .braces) c rest .braces =
        some (0, List.replicate (depth + 1) .braces) := by
      rw [not_or] at noMark
      simp [Frame.advance, noMark, opening, closing, List.replicate_succ]
    rw [scanStop_advance present turn]
    exact (later (i + 1) (by omega)).template depth

theorem PartsEnd.behind (ends : text.drop i = []) : PartsEnd text i := by
  have none := getElem?_of_drop_eq_nil ends
  constructor
  case raw =>
    refine .turn ?_
    simp only [rawFrom, none, scanStop_of_drop_eq_nil ends]
    exact .pure _
  case line =>
    intro mark
    refine .turn ?_
    simp only [lineFrom, none, scanStop_of_drop_eq_nil ends]
    exact .pure _
  case template =>
    intro depth
    refine .turn ?_
    simp only [templateFrom, none, scanStop_of_drop_eq_nil ends]
    exact .pure _

/-- An index is moved on until the text ends. -/
theorem index_induction {motive : Nat → Prop} (text : List Char)
    (done : ∀ i, text.drop i = [] → motive i)
    (turn : ∀ i c rest, text.drop i = c :: rest → (∀ j, i < j → motive j) → motive i) (i : Nat) :
    motive i := by
  induction left : text.length - i using Nat.strongRecOn generalizing i with
  | _ left ih =>
    cases present : text.drop i with
    | nil => exact done i present
    | cons c rest =>
      have inside := lt_of_drop present
      exact turn i c rest present fun j behind => ih _ (by omega) j rfl

theorem partsEnd (text : List Char) (i : Nat) : PartsEnd text i := by
  -- A template at a mark leaves the index where it is, but the literal that it calls for does not.
  induction i using index_induction text with
  | done i ends => exact .behind ends
  | turn i c rest present later =>
    exact ⟨ends_raw later present, ends_line later present, ends_template later present⟩

theorem ends_literal (inside : i < text.length) :
    Ends text (literalFrom text · i) (i + literalLength (text.drop i)) :=
  ends_literal_of (fun j _ => partsEnd text j) inside

theorem fails_literal (behind : text.length ≤ i) : Fails (literalFrom text · i) i := by
  refine ⟨1, fun turns many before => ?_⟩
  obtain ⟨turns, rfl⟩ : ∃ n, turns = n + 1 := ⟨turns - 1, by omega⟩
  have none : text[i]? = none := List.getElem?_eq_none behind
  dsimp only
  rw [literalFrom, List.drop_eq_nil_of_le behind, none, if_neg (by simp)]
  rfl

end Literals

end RecordCompat.Source
