import RecordCompat.Proofs.ClosedLists
import RecordCompat.Proofs.JoinedParameters
import RecordCompat.Proofs.Nesting

/-! The two scans of a parameter list. The search for the list's end reads the text behind the
opening parenthesis and counts brackets in the integers; the cutting reads the list alone and never
counts below zero. Turn by turn they read the same lexemes at the same places, and what the search
counts is one more. A list is read alone as it is in the text because a literal that ends in front
of a bracket ends there whatever follows. -/
namespace RecordCompat.Source

/-- A turn of a scan: what is read at an index, and the brackets that are open there. -/
structure Turn where
  index : Nat
  lexeme : Lexeme
  depth : Int
  deriving DecidableEq

/-- A turn of a scan that begins at `start` and inside one bracket more. -/
def Turn.moved (start : Nat) (turn : Turn) : Turn :=
  ⟨start + turn.index, turn.lexeme, turn.depth + 1⟩

/-- What a lexeme adds to the number of open brackets. -/
def Lexeme.weight (x : Lexeme) : Int :=
  if x.opens then 1 else if x.closes then -1 else 0

/-- The turns of the search for the bracket that closes the last of `depth`, and its index. -/
def search (index : Nat) (depth : Int) : List Lexeme → List Turn × Option Nat
  | [] => ([], none)
  | x :: rest =>
    if x.closes ∧ depth = 1 then ([], some index)
    else
      let later := search (index + x.text.length) (depth + x.weight) rest
      (⟨index, x, depth⟩ :: later.1, later.2)

def cutting (index : Nat) (nesting : Nesting) : List Lexeme → List Turn
  | [] => []
  | x :: rest =>
    ⟨index, x, nesting.brackets⟩ :: cutting (index + x.text.length) (nesting.after x) rest

def Nesting.behind (nesting : Nesting) (code : List Lexeme) : Nesting :=
  code.foldl Nesting.after nesting

/-- The index of the bracket that closes the list opened in front of `start`. -/
def listEnd? (text : List Char) (start : Nat) : Option Nat :=
  (bracketed? (text.drop start)).map (start + ·.length)

/-- Code that closes every bracket it opens and those in front of it, and no other. -/
inductive Nested : Nesting → List Lexeme → Prop
  | nil {n : Nesting} : n.brackets = 0 → Nested n []
  | cons {n : Nesting} {x : Lexeme} {rest : List Lexeme} : (x.closes = true → n.brackets ≠ 0) →
      Nested (n.after x) rest → Nested n (x :: rest)

/-- Where no closing bracket is stray, the brackets are counted as integers. -/
theorem brackets_after {n : Nesting} {x : Lexeme} (nested : x.closes = true → n.brackets ≠ 0) :
    ((n.after x).brackets : Int) = n.brackets + x.weight := by
  by_cases opens : x.opens = true
  · rw [brackets_after_opening opens, Lexeme.weight, if_pos opens]
    rfl
  · by_cases closes : x.closes = true
    · have inside := nested closes
      rw [brackets_after_closing opens closes, Lexeme.weight, if_neg opens, if_pos closes]
      omega
    · rw [brackets_after_plain opens closes, Lexeme.weight, if_neg opens, if_neg closes]
      omega

theorem enclosed?_last {x : Lexeme} (closes : x.closes = true) (rest : List Lexeme) :
    enclosed? 0 (x :: rest) = some [] := by
  simp [enclosed?, not_opens_of_closes closes, closes]

theorem enclosed?_cases {n : Nesting} {x : Lexeme} {rest inner : List Lexeme}
    (found : enclosed? n.brackets (x :: rest) = some inner) :
    (x.closes = true ∧ n.brackets = 0 ∧ inner = []) ∨
      (x.closes = true → n.brackets ≠ 0) ∧
        ∃ later, enclosed? (n.after x).brackets rest = some later ∧ inner = x :: later := by
  by_cases last : x.closes = true ∧ n.brackets = 0
  · rw [last.2, enclosed?_last last.1] at found
    exact .inl ⟨last.1, last.2, (Option.some.inj found).symm⟩
  · have nested : x.closes = true → n.brackets ≠ 0 := fun closes none => last ⟨closes, none⟩
    rw [enclosed?_cons nested] at found
    obtain ⟨later, inside, rfl⟩ := Option.map_eq_some_iff.mp found
    exact .inr ⟨nested, later, inside, rfl⟩

theorem nested_of_enclosed? {n : Nesting} {code inner : List Lexeme}
    (found : enclosed? n.brackets code = some inner) : Nested n inner := by
  induction code generalizing n inner with
  | nil => cases found
  | cons x rest ih =>
    rcases enclosed?_cases found with ⟨-, none, rfl⟩ | ⟨nested, later, inside, rfl⟩
    · exact .nil none
    · exact .cons nested (ih inside)

theorem Nested.ends {n : Nesting} {code : List Lexeme} (nested : Nested n code) :
    (n.behind code).brackets = 0 := by
  induction nested with
  | nil none => exact none
  | cons _ _ ih => exact ih

theorem weight_eq (x : Lexeme) : x.weight =
    (if x.opens = true then 1 else 0 : Nat) - (if x.closes = true then 1 else 0 : Nat) := by
  unfold Lexeme.weight
  by_cases opens : x.opens = true
  · have noClosing : ¬ x.closes = true := fun closes => by
      simp [not_opens_of_closes closes] at opens
    rw [if_pos opens, if_pos opens, if_neg noClosing]
    rfl
  · rw [if_neg opens, if_neg opens]
    split <;> rfl

/-- Behind each front of nested code the brackets opened and not closed are open. -/
theorem Nested.front {n : Nesting} {first second : List Lexeme}
    (nested : Nested n (first ++ second)) :
    ((n.behind first).brackets : Int) =
      n.brackets + first.countP Lexeme.opens - first.countP Lexeme.closes := by
  induction first generalizing n with
  | nil => simp [Nesting.behind]
  | cons x first ih =>
    cases nested with
    | cons inside later =>
      have step := brackets_after inside
      have behind : n.behind (x :: first) = (n.after x).behind first := rfl
      rw [behind, ih later, step, weight_eq, List.countP_cons, List.countP_cons]
      omega

theorem search_cons {n : Nesting} {x : Lexeme} (nested : x.closes = true → n.brackets ≠ 0)
    (index : Nat) (rest : List Lexeme) :
    search index (n.brackets + 1) (x :: rest) =
      let later := search (index + x.text.length) ((n.after x).brackets + 1) rest
      (⟨index, x, n.brackets + 1⟩ :: later.1, later.2) := by
  have goesOn : ¬ (x.closes = true ∧ (n.brackets : Int) + 1 = 1) := by
    rintro ⟨closes, last⟩
    exact nested closes (by omega)
  have depth : (n.brackets : Int) + 1 + x.weight = (n.after x).brackets + 1 := by
    rw [brackets_after nested]
    omega
  rw [search, if_neg goesOn, depth]

theorem search_stop (n : Nesting) (index : Nat) (code : List Lexeme) :
    (search index (n.brackets + 1) code).2 =
      (enclosed? n.brackets code).map fun inner => index + (spell inner).length := by
  induction code generalizing n index with
  | nil => rfl
  | cons x rest ih =>
    by_cases last : x.closes = true ∧ n.brackets = 0
    · have stops : x.closes = true ∧ (n.brackets : Int) + 1 = 1 := ⟨last.1, by omega⟩
      rw [search, if_pos stops, last.2, enclosed?_last last.1]
      rfl
    · have nested : x.closes = true → n.brackets ≠ 0 := fun closes none => last ⟨closes, none⟩
      rw [search_cons nested, enclosed?_cons nested, Option.map_map]
      dsimp only
      rw [ih]
      simp [Function.comp_def, Nat.add_assoc]

theorem search_listEnd (text : List Char) (start : Nat) :
    (search start 1 (lexemes (text.drop start))).2 = listEnd? text start := by
  rw [listEnd?, bracketed?, enclosedText?_eq, Option.map_map]
  exact search_stop .outside start (lexemes (text.drop start))

/-- The search reads what it finds turn by turn as the cutting does, one bracket further in. -/
theorem search_turns {n : Nesting} {code inner : List Lexeme}
    (found : enclosed? n.brackets code = some inner) (start index : Nat) :
    (search (start + index) (n.brackets + 1) code).1 =
      (cutting index n inner).map (Turn.moved start) := by
  induction code generalizing n inner index with
  | nil => cases found
  | cons x rest ih =>
    rcases enclosed?_cases found with ⟨closes, none, rfl⟩ | ⟨nested, later, inside, rfl⟩
    · have stops : x.closes = true ∧ (n.brackets : Int) + 1 = 1 := ⟨closes, by omega⟩
      rw [search, if_pos stops]
      rfl
    · rw [search_cons nested, cutting, List.map_cons, ← ih inside, Nat.add_assoc]
      rfl

theorem Nested.unclamped {n : Nesting} {code : List Lexeme} (nested : Nested n code) (index : Nat) :
    ∀ turn ∈ cutting index n code, turn.lexeme.closes = true → 1 ≤ turn.depth := by
  induction nested generalizing index with
  | nil => simp [cutting]
  | cons inside _ ih =>
    rw [cutting, List.forall_mem_cons]
    refine ⟨fun closes => ?_, ih _⟩
    have some := inside closes
    dsimp only at closes ⊢
    omega

theorem cut_of_pieces {n : Nesting} {code : List Lexeme} {first second : List (List Lexeme)}
    (split : pieces n code = first ++ second) (before : first ≠ []) (behind : second ≠ []) :
    code = joined first ++ .char ',' :: joined second ∧
      (n.behind (joined first)).cutsAt (.char ',') = true := by
  induction code generalizing n first with
  | nil =>
    have length := congrArg List.length split
    have front := List.length_pos_iff.mpr before
    have back := List.length_pos_iff.mpr behind
    rw [pieces, List.length_append, List.length_singleton] at length
    omega
  | cons x rest ih =>
    obtain ⟨piece, first, rfl⟩ := List.exists_cons_of_ne_nil before
    rw [List.cons_append] at split
    by_cases cuts : n.cutsAt x = true
    · -- The first piece is empty; the cut asked for is this one or a later one.
      obtain ⟨rfl, -⟩ := after_comma cuts
      rw [pieces, if_pos cuts] at split
      obtain ⟨rfl, later⟩ := List.cons.inj split
      by_cases last : first = []
      · subst last
        have whole := joined_pieces (n.after (.char ',')) rest
        rw [later] at whole
        exact ⟨congrArg _ whole.symm, cuts⟩
      · obtain ⟨read, cut⟩ := ih later last
        rw [joined_cons last]
        exact ⟨congrArg _ read, cut⟩
    · rw [pieces, if_neg cuts] at split
      obtain ⟨front, others, later⟩ := List.exists_cons_of_ne_nil (pieces_ne_nil (n.after x) rest)
      rw [later, prepend] at split
      obtain ⟨rfl, rfl⟩ := List.cons.inj split
      obtain ⟨read, cut⟩ := ih later (List.cons_ne_nil _ _)
      have longer := joined_prepend x (front :: first)
      rw [prepend] at longer
      rw [longer]
      exact ⟨congrArg _ read, cut⟩

theorem lexemes_list {text list : List Char} (found : bracketed? text = some list) :
    enclosed? 0 (lexemes text) = some (lexemes list) := by
  rw [bracketed?, enclosedText?_eq] at found
  obtain ⟨inner, inside, rfl⟩ := Option.map_eq_some_iff.mp found
  obtain ⟨x, tail, read, -⟩ := enclosed?_split inside
  have alone := @lexemes_of_front _ [] _ _ read List.nil_prefix
  rw [List.append_nil] at alone
  rw [inside, alone]
  simp [lexemes]

/-- What the search in a text and the cutting of the list between two indices have in common. -/
structure ScannedAlike (text : List Char) (start stop : Nat) : Prop where
  /-- The search stops at the list's end. -/
  stops : (search start 1 (lexemes (text.drop start))).2 = some stop
  /-- Up to there both read the same lexemes, hence the same literals, at the same places. The
  search is inside one bracket more. -/
  turns : (search start 1 (lexemes (text.drop start))).1 =
    (cutting 0 .outside (lexemes (text.extract start stop))).map (Turn.moved start)
  /-- No closing bracket of the list is ignored. -/
  unclamped : ∀ turn ∈ cutting 0 .outside (lexemes (text.extract start stop)),
    turn.lexeme.closes = true → 1 ≤ turn.depth
  ends : (Nesting.outside.behind (lexemes (text.extract start stop))).brackets = 0
  rejoined : [','].intercalate ((pieces .outside (lexemes (text.extract start stop))).map spell) =
    text.extract start stop
  /-- In front of a comma that cuts, as many brackets are closed as are opened. -/
  cuts : ∀ first second, pieces .outside (lexemes (text.extract start stop)) = first ++ second →
    first ≠ [] → second ≠ [] →
      lexemes (text.extract start stop) = joined first ++ .char ',' :: joined second ∧
        (joined first).countP Lexeme.opens = (joined first).countP Lexeme.closes

theorem Nested.cut {code : List Lexeme} (nested : Nested .outside code)
    {first second : List (List Lexeme)} (split : pieces .outside code = first ++ second)
    (before : first ≠ []) (behind : second ≠ []) :
    code = joined first ++ .char ',' :: joined second ∧
      (joined first).countP Lexeme.opens = (joined first).countP Lexeme.closes := by
  obtain ⟨read, cut⟩ := cut_of_pieces split before behind
  refine ⟨read, ?_⟩
  rw [read] at nested
  have counted := nested.front
  simp only [Nesting.cutsAt, Bool.and_eq_true, beq_iff_eq] at cut
  rw [cut.1.2] at counted
  simp only [Nesting.outside] at counted
  omega

/-- Where the search finds the end of a list, the list is read alone as it is in the text: turn by
turn, with no bracket ignored and none left open, and cut only where all brackets are closed. -/
theorem list_scanned_alike {text : List Char} {start stop : Nat}
    (closed : listEnd? text start = some stop) : ScannedAlike text start stop := by
  obtain ⟨list, found, rfl⟩ := Option.map_eq_some_iff.mp closed
  have inside : enclosed? Nesting.outside.brackets (lexemes (text.drop start)) =
      some (lexemes list) := lexemes_list found
  have nested := nested_of_enclosed? inside
  have cutOut : text.extract start (start + list.length) = list := by
    obtain ⟨x, tail, read, -⟩ := enclosed?_split inside
    have front : text.drop start = list ++ spell (x :: tail) := by
      rw [← spell_lexemes (text.drop start), read, spell_append, spell_lexemes]
    rw [List.extract_eq_take_drop, Nat.add_sub_cancel_left, front, List.take_left]
  constructor
  case stops => rw [search_listEnd, closed]
  case turns =>
    have turns := search_turns inside start 0
    rw [cutOut]
    exact turns
  case unclamped =>
    rw [cutOut]
    exact nested.unclamped 0
  case ends =>
    rw [cutOut]
    exact nested.ends
  case rejoined =>
    rw [cutOut, intercalate_pieces, spell_lexemes]
  case cuts =>
    rw [cutOut]
    exact fun _ _ => nested.cut

/-- Closing brackets and commas in literals and in a call, and a literal that is left open behind
the list. -/
theorem list_scanned_alike_around_call :
    let text := "data class A(val s: String = f(\"),\", '(', a[0]), val t: T) (\"".toList
    listEnd? text 13 = some 57 ∧ ScannedAlike text 13 57 := by
  intro text
  have closed : listEnd? text 13 = some 57 := by decide +kernel
  exact ⟨closed, list_scanned_alike closed⟩

end RecordCompat.Source
