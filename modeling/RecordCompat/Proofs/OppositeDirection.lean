import RecordCompat.Proofs.FoundChanges

/-! Comparing two versions in the opposite direction. What is found about a field that both versions
have comes from the two forms of the field alone, so it is found again with the forms exchanged.
Removals have no such counterpart: additions go by position, and a field that may be left out
is no addition at all. A required field that only one version has is found in both directions. -/
namespace RecordCompat

variable {a b : Record}

/-- Both versions have a field of this name, and the two are related. -/
def Share (a b : Record) (name : String) (related : Field → Field → Prop) : Prop :=
  ∃ x ∈ a.fields, ∃ y ∈ b.fields, x.name = name ∧ y.name = name ∧ related x y

theorem Share.opposite {name : String} {related : Field → Field → Prop} :
    Share a b name related ↔ Share b a name fun y x => related x y := by
  constructor
  · rintro ⟨x, first, y, second, name, name', both⟩
    exact ⟨y, second, x, first, name', name, both⟩
  · rintro ⟨y, second, x, first, name', name, both⟩
    exact ⟨x, first, y, second, name, name', both⟩

/-- A rule for shared fields reports a change of a field that both versions have. -/
theorem shared_rule_iff {name : String} {picked related : Field → Field → Prop}
    {report : Field → Field → Change} {c : Change}
    (told : ∀ x y, picked x y ∧ report x y = c ↔ x.name = name ∧ related x y) :
    (∃ x ∈ a.fields, ∃ y ∈ b.fields, y.name = x.name ∧ picked x y ∧ report x y = c) ↔
      Share a b name related := by
  simp only [told]
  constructor
  · rintro ⟨x, first, y, second, same, rfl, both⟩
    exact ⟨x, first, y, second, rfl, same, both⟩
  · rintro ⟨x, first, y, second, rfl, same, both⟩
    exact ⟨x, first, y, second, same, rfl, both⟩

theorem moved_iff {name : String} {i j : Int} :
    .fieldMoved name i j ∈ changes a b ↔
      Share a b name fun x y => x.position = i ∧ y.position = j ∧ i ≠ j := by
  simp only [mem_changes, reduceCtorEq, and_false, exists_const, exists_false, false_or, or_false]
  refine shared_rule_iff fun x y => ?_
  rw [Change.fieldMoved.injEq]
  grind

theorem retyped_iff {name s t : String} :
    .typeChanged name s t ∈ changes a b ↔
      Share a b name fun x y => x.type = s ∧ y.type = t ∧ s ≠ t := by
  simp only [mem_changes, reduceCtorEq, and_false, exists_const, exists_false, false_or, or_false]
  refine shared_rule_iff fun x y => ?_
  rw [Change.typeChanged.injEq]
  grind

theorem nullability_iff {name : String} {nullable : Bool} :
    .nullabilityChanged name nullable ∈ changes a b ↔
      Share a b name fun x y => x.nullable = !nullable ∧ y.nullable = nullable := by
  simp only [mem_changes, reduceCtorEq, and_false, exists_const, exists_false, false_or]
  refine shared_rule_iff fun x y => ?_
  rw [Change.nullabilityChanged.injEq]
  grind

theorem removed_iff {name : String} :
    .fieldRemoved name ∈ changes a b ↔ name ∈ a.fieldNames ∧ name ∉ b.fieldNames := by
  simp only [mem_changes, reduceCtorEq, and_false, exists_const, exists_false, false_or, or_false,
    Change.fieldRemoved.injEq]
  constructor
  · rintro ⟨x, member, gone, rfl⟩
    exact ⟨List.mem_map_of_mem member, gone⟩
  · rintro ⟨there, gone⟩
    obtain ⟨x, member, rfl⟩ := List.mem_map.mp there
    exact ⟨x, member, gone, rfl⟩

/-- A required field whose name the old version lacks takes a place, wherever it stands. -/
theorem added_of_fresh {f : Field} (member : f ∈ b.fields) (fresh : f.name ∉ a.fieldNames)
    (required : Required f) : .fieldAdded f.name f.position ∈ changes a b := by
  obtain ⟨i, stands⟩ := List.mem_iff_getElem?.mp member
  have takes : TakesPlace a i f := by
    by_contra keeps
    obtain ⟨x, stood, same⟩ := not_takesPlace.mp keeps
    exact fresh (same ▸ List.mem_map_of_mem (List.mem_of_getElem? stood))
  rw [position_of_getElem? stands]
  exact mem_changes.mpr (.inl ⟨i, f, stands, takes, required, rfl⟩)

def Finds (old new : Record) (kind : String) (severity : Severity) (name : String) : Prop :=
  ∃ f ∈ (changes old new).map Change.finding,
    f.kind = kind ∧ f.severity = severity ∧ f.field? = some name

theorem finds_nullability {name : String} {severity : Severity} :
    Finds a b "nullability_changed" severity name ↔ ∃ nullable,
      .nullabilityChanged name nullable ∈ changes a b ∧
        (Change.nullabilityChanged name nullable).severity = severity := by
  constructor
  · rintro ⟨f, reported, kind, severe, about⟩
    obtain ⟨c, found, rfl⟩ := List.mem_map.mp reported
    cases c with
    | nullabilityChanged field nullable =>
      obtain rfl : field = name := Option.some.inj about
      exact ⟨nullable, found, severe⟩
    | _ => exact absurd kind (by simp [Change.finding, Change.kind])
  · rintro ⟨nullable, found, severe⟩
    exact ⟨_, List.mem_map_of_mem found, rfl, severe, rfl⟩

/-- What is found in one direction, told by what is found in the other. -/
structure Opposed (a b : Record) : Prop where
  moved : ∀ name i j, .fieldMoved name i j ∈ changes a b ↔ .fieldMoved name j i ∈ changes b a
  retyped : ∀ name s t, .typeChanged name s t ∈ changes a b ↔ .typeChanged name t s ∈ changes b a
  nullability : ∀ name nullable, .nullabilityChanged name nullable ∈ changes a b ↔
    .nullabilityChanged name (!nullable) ∈ changes b a
  widened : ∀ name, Finds a b "nullability_changed" .safe name ↔
    Finds b a "nullability_changed" .breaking name
  narrowed : ∀ name, Finds a b "nullability_changed" .breaking name ↔
    Finds b a "nullability_changed" .safe name
  removed : ∀ name, .fieldRemoved name ∈ changes a b ↔ name ∈ a.fieldNames ∧ name ∉ b.fieldNames
  added : ∀ f ∈ b.fields, .fieldRemoved f.name ∈ changes b a → Required f →
    .fieldAdded f.name f.position ∈ changes a b

theorem nullability_opposite {name : String} {nullable : Bool} :
    .nullabilityChanged name nullable ∈ changes a b ↔
      .nullabilityChanged name (!nullable) ∈ changes b a := by
  rw [nullability_iff, nullability_iff, Share.opposite, Bool.not_not]
  simp only [and_comm]

/-- Each direction finds the moves, the changes of type and the changes of nullability of the other
one, with the two sides exchanged. A field that the other direction finds removed is found added,
unless it may be left out. -/
theorem changes_opposed (a b : Record) : Opposed a b := by
  have widened : ∀ {a b : Record} {name}, Finds a b "nullability_changed" .safe name ↔
      Finds b a "nullability_changed" .breaking name := by
    intro a b name
    simp only [finds_nullability, nullability_opposite (a := b), Bool.exists_bool, Bool.not_true,
      Bool.not_false]
    simp [Change.severity]
  constructor
  case moved =>
    intro name i j
    rw [moved_iff, moved_iff, Share.opposite]
    simp only [and_left_comm, ne_comm]
  case retyped =>
    intro name s t
    rw [retyped_iff, retyped_iff, Share.opposite]
    simp only [and_left_comm, ne_comm]
  case nullability => exact fun name nullable => nullability_opposite
  case widened => exact fun name => widened
  case narrowed => exact fun name => widened.symm
  case removed => exact fun name => removed_iff
  case added =>
    intro f member removed required
    exact added_of_fresh member (removed_iff.mp removed).2 required

end RecordCompat
