import RecordCompat.Source.Literal

/-! Code without comments is read as literals, which are opaque, and single characters.
Brackets count only as characters, hence only outside literals. The three kinds of
brackets are counted together.

What brackets enclose is defined on lexemes and computed on the text, which is not read to
its end for that. The main statement is that the two agree. -/
namespace RecordCompat.Source

inductive Lexeme
  | literal (text : List Char)
  | char (c : Char)
  deriving DecidableEq, Repr

def Lexeme.text : Lexeme → List Char
  | .literal text => text
  | .char c => [c]

def Lexeme.opens : Lexeme → Bool
  | .char c => c == '(' || c == '[' || c == '{'
  | .literal _ => false

def Lexeme.closes : Lexeme → Bool
  | .char c => c == ')' || c == ']' || c == '}'
  | .literal _ => false

theorem not_opens_of_closes {x : Lexeme} (closes : x.closes = true) : x.opens = false := by
  cases x with
  | literal => cases closes
  | char c =>
    simp only [Lexeme.closes, Bool.or_eq_true, beq_iff_eq] at closes
    rcases closes with (rfl | rfl) | rfl <;> rfl

theorem not_closes_of_opens {x : Lexeme} (opens : x.opens = true) : x.closes = false :=
  Bool.eq_false_iff.mpr fun closes => by simp [not_opens_of_closes closes] at opens

def lexemes : List Char → List Lexeme
  | [] => []
  | c :: rest =>
    if opensLiteral c then
      let n := literalLength (c :: rest)
      .literal ((c :: rest).take n) :: lexemes (rest.drop (n - 1))
    else .char c :: lexemes rest
termination_by text => text.length
decreasing_by all_goals simp only [List.length_drop, List.length_cons]; omega

def spell (code : List Lexeme) : List Char :=
  code.flatMap Lexeme.text

@[simp] theorem spell_cons (x : Lexeme) (code : List Lexeme) :
    spell (x :: code) = x.text ++ spell code := rfl

theorem spell_lexemes (text : List Char) : spell (lexemes text) = text := by
  fun_induction lexemes text with
  | case1 => rfl
  | case2 c rest _ n ih =>
    have pos : 0 < n := literalLength_pos c rest
    obtain ⟨k, hk⟩ : ∃ k, n = k + 1 := ⟨n - 1, by omega⟩
    rw [spell_cons, ih, hk]
    simp [Lexeme.text]
  | case3 c rest _ ih => simp [Lexeme.text, ih]

/-- What stands before the closing bracket that ends a list already opened, inside `depth`
further brackets. -/
def enclosed? (depth : Nat) : List Lexeme → Option (List Lexeme)
  | [] => none
  | x :: rest =>
    if x.opens then (enclosed? (depth + 1) rest).map (x :: ·)
    else if x.closes then
      match depth with
      | 0 => some []
      | depth + 1 => (enclosed? depth rest).map (x :: ·)
    else (enclosed? depth rest).map (x :: ·)

/-- The text that `enclosed?` finds. No more of `text` is read than is needed to find it. -/
def enclosedText? (depth : Nat) (text : List Char) : Option (List Char) :=
  match text with
  | [] => none
  | c :: rest =>
    if opensLiteral c then
      let n := literalLength (c :: rest)
      (enclosedText? depth (rest.drop (n - 1))).map ((c :: rest).take n ++ ·)
    else if (Lexeme.char c).opens then (enclosedText? (depth + 1) rest).map (c :: ·)
    else if (Lexeme.char c).closes then
      match depth with
      | 0 => some []
      | depth + 1 => (enclosedText? depth rest).map (c :: ·)
    else (enclosedText? depth rest).map (c :: ·)
termination_by text.length
decreasing_by all_goals simp only [List.length_drop, List.length_cons]; omega

theorem enclosedText?_eq (depth : Nat) (text : List Char) :
    enclosedText? depth text = (enclosed? depth (lexemes text)).map spell := by
  fun_induction enclosedText? depth text with
  | case1 => simp [lexemes, enclosed?]
  | case2 depth c rest opens n ih =>
    rw [lexemes, if_pos opens, ih]
    simp [enclosed?, Lexeme.opens, Lexeme.closes, Lexeme.text, Option.map_map, Function.comp_def, n]
  | case3 depth c rest literal opens ih =>
    rw [lexemes, if_neg literal, ih]
    simp [enclosed?, opens, Lexeme.text, Option.map_map, Function.comp_def]
  | case4 c rest literal opens closes =>
    rw [lexemes, if_neg literal]
    simp [enclosed?, opens, closes, spell]
  | case5 c rest literal opens closes depth ih =>
    rw [lexemes, if_neg literal, ih]
    simp [enclosed?, opens, closes, Lexeme.text, Option.map_map, Function.comp_def]
  | case6 depth c rest literal opens closes ih =>
    rw [lexemes, if_neg literal, ih]
    simp [enclosed?, opens, closes, Lexeme.text, Option.map_map, Function.comp_def]

/-- The text between an opening bracket and its closing one, from the text after the
opening bracket. -/
def bracketed? (text : List Char) : Option (List Char) :=
  enclosedText? 0 text

end RecordCompat.Source
