import Mathlib.Data.List.Nodup
import RecordCompat.Proofs.PairingNames

/-! Which record of the new version an old record of the same name and file gets. Old
records are served in their order, so one that stands earlier and finds none of its own
file may take a record whose own file is served later. `same_file_compared_iff` says
exactly when that happens, by counting; `same_file_not_compared_after_move` is a case in
which nothing but a move is reported as two breaking changes. -/
namespace RecordCompat

/-- Old records of a name whose own file has no record in `behind`. While a new record is
free, these and no others take what stands in front of it. -/
def contenders (name : String) (behind before : List Record) : List Record :=
  before.filter fun r => r.name = name ∧ r.key ∉ behind.map Record.key

theorem contenders_cons (name : String) (behind : List Record) (r : Record)
    (before : List Record) :
    contenders name behind (r :: before) =
      if r.name = name ∧ r.key ∉ behind.map Record.key then r :: contenders name behind before
      else contenders name behind before := by
  simp [contenders, List.filter_cons]

theorem contenders_skip {name : String} {x : Record} {before : List Record}
    (apart : ∀ r ∈ before, r.name = name → r.key ≠ x.key) (middle behind : List Record) :
    contenders name (middle ++ x :: behind) before = contenders name (middle ++ behind) before := by
  refine List.filter_congr fun r member => ?_
  by_cases same : r.name = name
  · simp [same, apart r member same]
  · simp [same]

theorem split_cases {α : Type} {a b : α} {ahead behind front back : List α}
    (same : ahead ++ a :: behind = front ++ b :: back) :
    (∃ middle, ahead = front ++ b :: middle ∧ back = middle ++ a :: behind) ∨
      (ahead = front ∧ a = b ∧ behind = back) ∨
      ∃ middle, front = ahead ++ a :: middle ∧ behind = middle ++ b :: back := by
  rcases List.append_eq_append_iff.mp same with ⟨rest, rfl, tail⟩ | ⟨rest, rfl, tail⟩
  · cases rest with
    | nil =>
      obtain ⟨rfl, rfl⟩ := List.cons.inj tail
      exact .inr (.inl ⟨by simp, rfl, rfl⟩)
    | cons c middle =>
      obtain ⟨rfl, rfl⟩ := List.cons.inj tail
      exact .inr (.inr ⟨middle, rfl, rfl⟩)
  · cases rest with
    | nil =>
      obtain ⟨rfl, rfl⟩ := List.cons.inj tail
      exact .inr (.inl ⟨by simp, rfl, rfl⟩)
    | cons c middle =>
      obtain ⟨rfl, rfl⟩ := List.cons.inj tail
      exact .inl ⟨middle, rfl, rfl⟩

/-- Records that no two of which agree in name and file. -/
def Distinct (records : List Record) : Prop :=
  records.Pairwise fun a b => a.key ≠ b.key

/-- Where one turn takes its record: the choice of `claim?_cases`. -/
def Choice (r taken : Record) (front free : List Record) : Prop :=
  taken.key = r.key ∨ (∀ q ∈ free, q.key ≠ r.key) ∧ ∀ q ∈ front, q.name ≠ r.name

section Turns

variable {name : String} {r taken new : Record} {before front middle behind back : List Record}

/-- A turn that takes a record in front is a contender's, if it is of the name at all. -/
theorem turn_in_front (same : taken.name = r.name)
    (keys : Distinct ((front ++ taken :: middle) ++ new :: behind))
    (choice : Choice r taken front ((front ++ taken :: middle) ++ new :: behind)) :
    (contenders name behind (r :: before)).length ≤ (named name (front ++ taken :: middle)).length ↔
      (contenders name behind before).length ≤ (named name (front ++ middle)).length := by
  have absent : r.key ∉ behind.map Record.key := by
    intro member
    obtain ⟨q, inside, equal⟩ := List.mem_map.mp member
    rcases choice with own | ⟨nowhere, -⟩
    · simp only [Distinct, List.pairwise_append] at keys
      exact keys.2.2 taken (by simp) q (by simp [inside]) (own.trans equal.symm)
    · exact nowhere q (by simp [inside]) equal
  by_cases mine : r.name = name
  · rw [contenders_cons, if_pos ⟨mine, absent⟩]
    simp only [named, List.filter_append, List.filter_cons, same, mine, List.length_append,
      List.length_cons, decide_true, if_true]
    omega
  · rw [contenders_cons, if_neg (fun both => mine both.1)]
    simp [named, same, mine]

theorem turn_at (same : new.name = r.name) (different : new.key ≠ r.key)
    (choice : Choice r new front (front ++ new :: behind)) :
    ¬ (contenders new.name behind (r :: before)).length ≤ (named new.name front).length := by
  obtain own | ⟨nowhere, none⟩ := choice
  · exact absurd own different
  · have absent : r.key ∉ behind.map Record.key := by
      intro member
      obtain ⟨q, inside, equal⟩ := List.mem_map.mp member
      exact nowhere q (by simp [inside]) equal
    have empty : named new.name front = [] := by
      simpa [named, List.filter_eq_nil_iff, same] using none
    rw [contenders_cons, if_pos ⟨same.symm, absent⟩, empty]
    simp

/-- A turn that takes a record behind is no contender's: of the name, only the old record
of the same file goes there. -/
theorem turn_behind (same : taken.name = r.name) (fresh : ∀ q ∈ before, q.key ≠ r.key)
    (choice : Choice r taken (front ++ new :: middle) (front ++ new :: (middle ++ taken :: back))) :
    contenders new.name (middle ++ taken :: back) (r :: before) =
      contenders new.name (middle ++ back) before := by
  have own : r.name = new.name → taken.key = r.key := by
    intro mine
    rcases choice with own | ⟨-, none⟩
    · exact own
    · exact absurd mine.symm (none new (by simp))
  have idle : ¬(r.name = new.name ∧ r.key ∉ (middle ++ taken :: back).map Record.key) := by
    rintro ⟨mine, absent⟩
    exact absent (by simp [own mine])
  rw [contenders_cons, if_neg idle]
  refine contenders_skip (fun q member mine equal => ?_) middle back
  have names := (key_eq_iff.mp equal).1
  exact fresh q member (equal.trans (own (same.symm.trans (names.symm.trans mine))))

end Turns

/-- A new record outlasts the turns of `before` exactly when they hold no more contenders
than records of its name stand in front of it: each contender uses up one of those or,
when there is none left, the record itself. -/
theorem mem_freeAfter_iff {new : Record} {before ahead behind : List Record}
    (oldKeys : Distinct before) (apart : ∀ r ∈ before, new.key ≠ r.key)
    (newKeys : Distinct (ahead ++ new :: behind)) :
    new ∈ freeAfter before (ahead ++ new :: behind) ↔
      (contenders new.name behind before).length ≤ (named new.name ahead).length := by
  induction before generalizing ahead behind with
  | nil => simp [freeAfter, contenders]
  | cons r before ih =>
    obtain ⟨fresh, oldKeys⟩ := List.pairwise_cons.mp oldKeys
    obtain ⟨different, apart⟩ := List.forall_mem_cons.mp apart
    rw [freeAfter]
    rcases claim?_cases r (ahead ++ new :: behind) with
      ⟨none, used⟩ | ⟨front, taken, back, split, some, same, choice⟩
    · have other : r.name ≠ new.name := (used new (by simp)).symm
      rw [none, contenders_cons, if_neg (fun both => other both.1)]
      exact ih oldKeys apart newKeys
    · simp only [some, Option.map_some, Option.getD_some]
      rcases split_cases split with ⟨middle, rfl, rfl⟩ | ⟨rfl, rfl, rfl⟩ | ⟨middle, rfl, rfl⟩
      · have left : Distinct ((front ++ middle) ++ new :: behind) := newKeys.sublist (by simp)
        rw [turn_in_front same newKeys choice, ← ih oldKeys apart left, List.append_assoc]
      · have gone : new ∉ ahead ++ behind := by
          intro member
          simp only [Distinct, List.pairwise_append, List.pairwise_cons] at newKeys
          rcases List.mem_append.mp member with inside | inside
          · exact newKeys.2.2 new inside new (by simp) rfl
          · exact newKeys.2.1.1 new inside rfl
        exact iff_of_false (fun member => gone ((freeAfter_sublist _ _).subset member))
          (turn_at same different choice)
      · have left : Distinct (ahead ++ new :: (middle ++ back)) := newKeys.sublist (by simp)
        rw [turn_behind same (fun q member => (fresh q member).symm) choice,
          ← ih oldKeys apart left, List.append_assoc, List.cons_append]

theorem distinct_firstBy (records : List Record) : Distinct (firstBy Record.key records) :=
  List.pairwise_map.mp (nodup_map_firstBy Record.key records)

theorem Distinct.eq_of_key {records : List Record} (keys : Distinct records) {a b : Record}
    (first : a ∈ records) (second : b ∈ records) (same : a.key = b.key) : a = b :=
  List.inj_on_of_nodup_map (List.pairwise_map.mpr keys) first second same

theorem source?_inj {a b : Record} (same : a.source? = b.source?) : a.source = b.source := by
  unfold Record.source? at same
  split at same <;> split at same <;> simp_all

/-- An old record is reported with the record of its key if that one is free at its turn;
what is reported names the file, so it tells the two apart. -/
theorem comparison_outcomeAt_iff {records free : List Record} {old new : Record}
    (keys : Distinct records) (part : free.Sublist records) (member : new ∈ records)
    (same : old.key = new.key) :
    (outcomeAt old free).comparison = (Outcome.compared old new).comparison ↔ new ∈ free := by
  unfold outcomeAt
  rcases claim?_cases old free with ⟨none, used⟩ | ⟨front, taken, back, split, some, name, choice⟩
  · simp only [none]
    refine iff_of_false (by simp [Outcome.comparison]) fun inside => ?_
    exact used new inside (key_eq_iff.mp same).1.symm
  · have inside : taken ∈ free := by simp [split]
    simp only [some]
    constructor
    · intro reported
      have source : taken.source = new.source :=
        source?_inj (congrArg Comparison.newSource? reported)
      have key : taken.key = new.key :=
        key_eq_iff.mpr ⟨name.trans (key_eq_iff.mp same).1, source⟩
      exact keys.eq_of_key (part.subset inside) member key ▸ inside
    · intro free
      rcases choice with own | ⟨nowhere, -⟩
      · rw [keys.eq_of_key (part.subset inside) member (own.trans same)]
      · exact absurd same.symm (nowhere new free)

/-- Exactly when a record is compared with the new record of its name and file: the old
records of the name that are served before it and whose own file has no record behind that
one are no more than the new records of the name in front of it. Repeats of a name in a
file take no part on either side. -/
theorem same_file_compared_iff (s : SourceComparison) {before after ahead behind : List Record}
    {old new : Record} (oldAt : firstBy Record.key s.old = before ++ old :: after)
    (newAt : firstBy Record.key s.new = ahead ++ new :: behind) (sameFile : old.key = new.key) :
    s.comparisons[before.length]? = some (Outcome.compared old new).comparison ↔
      (contenders old.name behind before).length ≤ (named old.name ahead).length := by
  have oldKeys := oldAt ▸ distinct_firstBy s.old
  have newKeys := newAt ▸ distinct_firstBy s.new
  obtain ⟨served, -, apart⟩ := List.pairwise_append.mp oldKeys
  have different : ∀ r ∈ before, new.key ≠ r.key := fun r member equal =>
    apart r member old (by simp) (equal.symm.trans sameFile.symm)
  rw [(key_eq_iff.mp sameFile).1, ← mem_freeAfter_iff served different newKeys,
    ← comparison_outcomeAt_iff newKeys (freeAfter_sublist _ _) (by simp) sameFile]
  simp only [SourceComparison.comparisons, outcomes, oldAt, newAt, List.getElem?_map,
    pairRecords_at, Option.map_some, Option.some.injEq]

/-- The class of `a.kt` has no record of its file, yet leaves that of `b.kt` alone, because
another one stands in front of it. -/
theorem same_file_compared_behind_another :
    let a := oneField "User" "String" "a.kt"
    let b := oneField "User" "Int" "b.kt"
    let c := oneField "User" "String" "c.kt"
    let s : SourceComparison := ⟨"", [a, b, b], [c, b]⟩
    firstBy Record.key s.old = [a] ++ b :: [] ∧ firstBy Record.key s.new = [c] ++ b :: [] ∧
      b.key = b.key ∧ s.comparisons[1]? = some (Outcome.compared b b).comparison :=
  ⟨rfl, rfl, rfl, (@same_file_compared_iff _ [_] [] [_] [] _ _ rfl rfl rfl).mpr (by decide)⟩

/-- A class is not always compared with the one of its name and file. Here the class of
`a.kt` has moved to `c.kt` and nothing else has changed, but it is served first, takes the
record of `b.kt`, and both comparisons report a changed type. -/
theorem same_file_not_compared_after_move :
    let a := oneField "User" "String" "a.kt"
    let b := oneField "User" "Int" "b.kt"
    let c := oneField "User" "String" "c.kt"
    let s : SourceComparison := ⟨"", [a, b], [b, c]⟩
    firstBy Record.key s.old = [a] ++ b :: [] ∧ firstBy Record.key s.new = [] ++ b :: [c] ∧
      s.comparisons = [(Outcome.compared a b).comparison, (Outcome.compared b c).comparison] ∧
      s.comparisons[1]? ≠ some (Outcome.compared b b).comparison ∧ s.isBreaking = true :=
  ⟨rfl, rfl, rfl, by decide, by decide⟩

end RecordCompat
