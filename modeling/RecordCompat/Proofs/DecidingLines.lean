import RecordCompat.Files.Ignore

/-! The line that decides about a path. It is one that matches, and there is one wherever any line
matches, so where no line includes again, whatever matches excludes. A list is read line by
line. -/
namespace RecordCompat.Files

namespace Ignore

def excludes? (lines : List String) (path : String) : Except IgnoreError Bool :=
  (read lines).map (excludes · path)

def subject (path : String) : List Char :=
  skipHere (trimSlashes path.toList)

def deciding? (lines : List IgnoreLine) (path : List Char) : Option IgnoreLine :=
  last? false lines path <|> last? true lines path

theorem excludes_iff {lines : List IgnoreLine} {path : String} :
    excludes lines path = true ↔ trimSlashes path.toList ≠ [] ∧
      ∃ line, deciding? lines (subject path) = some line ∧ line.negated = false := by
  unfold excludes deciding? subject
  by_cases empty : trimSlashes path.toList = []
  · simp [empty]
  · dsimp only
    rw [if_neg empty]
    split
    next line decides => simp [empty, decides]
    next undecided => simp [undecided]

theorem last?_append (mark : Bool) (first second : List IgnoreLine) (path : List Char) :
    last? mark (first ++ second) path =
      (last? mark second path).or (last? mark first path) := by
  rw [last?, List.reverse_append, List.find?_append]
  rfl

theorem last?_singleton (mark : Bool) (line : IgnoreLine) (path : List Char) :
    last? mark [line] path = if line.rule.fit path = some mark then some line else none := by
  by_cases fits : line.rule.fit path = some mark <;> simp [last?, fits]

theorem last?_eq_none {mark : Bool} {lines : List IgnoreLine} {path : List Char} :
    last? mark lines path = none ↔ ∀ line ∈ lines, line.rule.fit path ≠ some mark := by
  simp [last?]

theorem of_last? {mark : Bool} {lines : List IgnoreLine} {path : List Char} {line : IgnoreLine}
    (found : last? mark lines path = some line) :
    line ∈ lines ∧ line.rule.fit path = some mark := by
  have member := List.mem_reverse.mp (List.mem_of_find?_eq_some found)
  have fits := List.find?_some found
  exact ⟨member, of_decide_eq_true fits⟩

theorem of_deciding? {lines : List IgnoreLine} {path : List Char} {line : IgnoreLine}
    (decides : deciding? lines path = some line) :
    line ∈ lines ∧ (line.rule.fit path).isSome = true := by
  have found : ∃ mark, last? mark lines path = some line := by
    unfold deciding? at decides
    cases whole : last? false lines path with
    | some other =>
      rw [whole] at decides
      exact ⟨false, whole.trans decides⟩
    | none =>
      rw [whole] at decides
      exact ⟨true, decides⟩
  obtain ⟨mark, found⟩ := found
  obtain ⟨member, fits⟩ := of_last? found
  exact ⟨member, by rw [fits]; rfl⟩

theorem deciding?_eq_none {lines : List IgnoreLine} {path : List Char} :
    deciding? lines path = none ↔ ∀ line ∈ lines, line.rule.fit path = none := by
  have both : deciding? lines path = none ↔
      last? false lines path = none ∧ last? true lines path = none := by
    unfold deciding?
    cases last? false lines path <;> simp
  rw [both, last?_eq_none, last?_eq_none]
  constructor
  · rintro ⟨noWhole, noDirectory⟩ line member
    cases fits : line.rule.fit path with
    | none => rfl
    | some mark =>
      cases mark
      · exact absurd fits (noWhole line member)
      · exact absurd fits (noDirectory line member)
  · intro none
    constructor <;> (intro line member; simp [none line member])

/-- Where no line includes again, whatever matches excludes. -/
theorem excludes_of_exclusions {lines : List IgnoreLine}
    (excluding : ∀ line ∈ lines, line.negated = false) {path : String}
    (nonempty : trimSlashes path.toList ≠ []) :
    excludes lines path = true ↔ ∃ line ∈ lines, (line.rule.fit (subject path)).isSome = true := by
  rw [excludes_iff]
  constructor
  · rintro ⟨-, line, decides, -⟩
    exact ⟨line, of_deciding? decides⟩
  · rintro ⟨line, member, fits⟩
    cases decides : deciding? lines (subject path) with
    | none =>
      rw [deciding?_eq_none.mp decides line member] at fits
      cases fits
    | some other => exact ⟨nonempty, other, rfl, excluding other (of_deciding? decides).1⟩

theorem read_cons {line : String} {said? : Option IgnoreLine}
    (readable : IgnoreLine.read line = .ok said?) (rest : List String) :
    read (line :: rest) = (read rest).map (said?.toList ++ ·) := by
  unfold read
  rw [List.mapM_cons, readable]
  cases rest.mapM IgnoreLine.read with
  | error e => rfl
  | ok later => cases said? <;> rfl

theorem read_append (first second : List String) :
    read (first ++ second) = (read first).bind fun lines => (read second).map (lines ++ ·) := by
  unfold read
  rw [List.mapM_append]
  cases first.mapM IgnoreLine.read with
  | error e => rfl
  | ok front =>
    cases second.mapM IgnoreLine.read with
    | error e => rfl
    | ok back => exact congrArg Except.ok (List.filterMap_append)

end Ignore

end RecordCompat.Files
