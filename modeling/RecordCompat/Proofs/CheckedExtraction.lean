import RecordCompat.Proofs.StrippedText
import RecordCompat.Proofs.Words

/-! Extraction has no step that fails. Two of its steps could: the end of a literal can be
asked for only where the text has a character, and a record can be made only of fields with
their own positions and with distinct names. `checkedExtract` takes both steps as they are
offered to everyone, by index and by constructor, and always succeeds, with the records that
`extract` gives. -/
namespace RecordCompat.Source

open Text

inductive ExtractionError
  | noCharacter (index : Nat)
  | noRecord (reason : RecordError)

/-- The index behind the literal at index `i`. -/
def literalStop (text : List Char) (i : Nat) : Except ExtractionError Nat :=
  match literalEnd? text i with
  | some stop => .ok stop
  | none => .error (.noCharacter i)

theorem literalStop_eq {text rest : List Char} {c : Char} {i : Nat}
    (present : text.drop i = c :: rest) :
    literalStop text i = .ok (i + literalLength (c :: rest)) := by
  have inside : i < text.length := by
    have length := congrArg List.length present
    rw [List.length_drop, List.length_cons] at length
    omega
  rw [literalStop, literalEnd?, if_pos inside, present]

section Scan

variable {α : Type}

/-- Reads a text from index `i` on. What begins at a character that opens no literal is for
`other` to say, and how many further characters belong to it. -/
def scanFrom (literal : List Char → α) (other : Char → List Char → α × Nat) (text : List Char)
    (i : Nat) : Except ExtractionError (List α) :=
  match _present : text.drop i with
  | [] => .ok []
  | c :: rest =>
    if opensLiteral c then
      match _found : literalStop text i with
      | .error e => .error e
      | .ok stop =>
        (scanFrom literal other text stop).map (literal ((text.drop i).take (stop - i)) :: ·)
    else
      (scanFrom literal other text (i + 1 + (other c rest).2)).map ((other c rest).1 :: ·)
termination_by text.length - i
decreasing_by
  all_goals
    have length := congrArg List.length _present
    rw [List.length_drop, List.length_cons] at length
  · rw [literalStop_eq _present] at _found
    have stop := Except.ok.inj _found
    have := literalLength_pos c rest
    omega
  · omega

/-- `read` divides texts into literals and what `other` makes of the characters between. -/
structure Divides (read : List Char → List α) (literal : List Char → α)
    (other : Char → List Char → α × Nat) : Prop where
  done : read [] = []
  opens : ∀ c rest, opensLiteral c = true →
    read (c :: rest) = literal ((c :: rest).take (literalLength (c :: rest))) ::
      read ((c :: rest).drop (literalLength (c :: rest)))
  plain : ∀ c rest, opensLiteral c = false →
    read (c :: rest) = (other c rest).1 :: read (rest.drop (other c rest).2)

/-- No literal is looked for behind the end of the text. -/
theorem scanFrom_eq {read : List Char → List α} {literal : List Char → α}
    {other : Char → List Char → α × Nat} (divides : Divides read literal other)
    (text : List Char) (i : Nat) : scanFrom literal other text i = .ok (read (text.drop i)) := by
  fun_induction scanFrom literal other text i with
  | case1 i done => rw [done, divides.done]
  | case2 i c rest present opens e found =>
    rw [literalStop_eq present] at found
    cases found
  | case3 i c rest present opens stop found ih =>
    rw [literalStop_eq present] at found
    obtain rfl := Except.ok.inj found
    rw [ih, present, divides.opens c rest opens, ← List.drop_drop, present, Nat.add_sub_cancel_left]
    rfl
  | case4 i c rest present plain ih =>
    have behind : text.drop (i + 1 + (other c rest).2) = rest.drop (other c rest).2 := by
      rw [← List.drop_drop, ← List.drop_drop, present, List.drop_succ_cons, List.drop_zero]
    rw [ih, behind, present, divides.plain c rest (Bool.eq_false_iff.mpr plain)]
    rfl

end Scan

def checkedSegments (text : List Char) : Except ExtractionError (List Segment) :=
  scanFrom .literal (fun c rest => (headSegment c rest, (headSegment c rest).text.length - 1))
    text 0

def checkedLexemes (text : List Char) (i : Nat) : Except ExtractionError (List Lexeme) :=
  scanFrom .literal (fun c _ => (.char c, 0)) text i

theorem checkedSegments_eq (text : List Char) : checkedSegments text = .ok (segments text) := by
  apply scanFrom_eq
  constructor
  case done => rw [segments]
  case opens =>
    intro c rest opens
    obtain ⟨n, bound, length, segment⟩ := @headSegment_literal c rest opens
    rw [segments, segment, length]
    simp [Segment.text, bound]
  case plain =>
    intro c rest _
    rw [segments]

theorem checkedLexemes_eq (text : List Char) (i : Nat) :
    checkedLexemes text i = .ok (lexemes (text.drop i)) := by
  apply scanFrom_eq
  constructor
  case done => rw [lexemes]
  case opens =>
    intro c rest opens
    obtain ⟨n, length⟩ := Nat.exists_eq_add_one.mpr (literalLength_pos c rest)
    rw [lexemes, if_pos opens]
    simp [length]
  case plain =>
    intro c rest plain
    rw [lexemes, if_neg (Bool.eq_false_iff.mp plain)]
    rfl

/-- The parameter list that opens in front of index `i`, if it is closed. -/
def checkedList? (text : List Char) (i : Nat) : Except ExtractionError (Option (List Char)) := do
  return (enclosed? 0 (← checkedLexemes text i)).map spell

def checkedParameters (list : List Char) : Except ExtractionError (List (List Char)) := do
  let code ← checkedLexemes list 0
  return ((pieces .outside code).map fun piece => strip (spell piece)).filter (· ≠ [])

/-- The record of those fields that are the first of their names. -/
def checkedRecord (name : String) (fields : List Field) : Except ExtractionError Record :=
  (Record.build? name (firstBy Field.name fields) "").mapError .noRecord

def checkedDeclaration (code : List Char) (header : Header) :
    Except ExtractionError (Option Record) := do
  match ← checkedList? code header.stop with
  | none => return none
  | some list =>
    let parameters := (← checkedParameters list).map Parameter.read
    return some (← checkedRecord header.name (parameters.filterMap Parameter.property?))

def checkedExtract (text : String) : Except ExtractionError (List Record) := do
  let code := (← checkedSegments text.toList).flatMap Segment.kept
  let found ← (headers code).mapM (checkedDeclaration code)
  return found.reduceOption

theorem ok_bind {ε β γ : Type} (b : β) (next : β → Except ε γ) :
    (Except.ok b >>= next) = next b := rfl

theorem checkedList?_eq (text : List Char) (i : Nat) :
    checkedList? text i = .ok (bracketed? (text.drop i)) := by
  rw [checkedList?, checkedLexemes_eq, ok_bind, bracketed?, enclosedText?_eq]
  rfl

theorem checkedParameters_eq (list : List Char) :
    checkedParameters list = .ok (parameters list) := by
  rw [checkedParameters, checkedLexemes_eq, ok_bind]
  rfl

theorem checkedRecord_eq (name : String) (fields : List Field) :
    checkedRecord name fields = .ok (Record.ofFirst name fields) := by
  rw [checkedRecord, Record.build?_firstBy]
  rfl

theorem checkedDeclaration_eq (code : List Char) (header : Header) :
    checkedDeclaration code header = .ok (declarationAt code header).record? := by
  rw [checkedDeclaration, checkedList?_eq, ok_bind, declarationAt]
  cases bracketed? (code.drop header.stop) with
  | none => rfl
  | some list =>
    dsimp only
    rw [checkedParameters_eq, ok_bind, checkedRecord_eq, ok_bind]
    rfl

theorem checkedExtract_eq (text : String) : checkedExtract text = .ok (extract text).records := by
  have each : checkedDeclaration (stripComments text.toList) = fun header =>
      pure (declarationAt (stripComments text.toList) header).record? :=
    funext (checkedDeclaration_eq _)
  rw [checkedExtract, checkedSegments_eq, ok_bind]
  dsimp only
  rw [← stripComments, each, List.mapM_pure, pure_bind]
  change Except.ok (List.filterMap id (List.map _ _)) = _
  rw [List.filterMap_map]
  simp only [extract, declarations, List.filterMap_map]
  rfl

end RecordCompat.Source
