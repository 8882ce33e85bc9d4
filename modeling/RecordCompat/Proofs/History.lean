import Mathlib.Data.List.Nodup
import RecordCompat.Change

/-! Compatibility along a history of versions. Two versions are compatible when no finding
is breaking, which comes down to two facts: every old field is carried over, and a field
that callers have to fill stands where the old version has it. The first fact composes.
The second does not, as no rule watches the defaults of fields that stay in place: a field
may come with a default and lose it later. That is the only way to a breaking change
through compatible steps. -/
namespace RecordCompat

/-- No finding between two versions is breaking. -/
def Compatible (old new : Record) : Prop :=
  ∀ f ∈ (changes old new).map Change.finding, f.severity ≠ .breaking

instance (old new : Record) : Decidable (Compatible old new) :=
  inferInstanceAs (Decidable (∀ f ∈ (changes old new).map Change.finding, f.severity ≠ .breaking))

/-- A field without which no record can be built. -/
def Required (f : Field) : Prop :=
  f.hasDefault = false ∧ f.nullable = false

instance (f : Field) : Decidable (Required f) :=
  inferInstanceAs (Decidable (_ ∧ _))

/-- Every old field is still there, of the same type and not narrowed. -/
def Carries (old new : Record) : Prop :=
  ∀ a ∈ old.fields, ∃ b ∈ new.fields, b.name = a.name ∧ b.type = a.type ∧
    (a.nullable = true → b.nullable = true)

/-- Every required field stands where the old version has the field of its name. -/
def Aligned (old new : Record) : Prop :=
  ∀ (i : Nat) (b : Field), new.fields[i]? = some b → Required b →
    ∃ a, old.fields[i]? = some a ∧ a.name = b.name

theorem field_unique (r : Record) {a b : Field} (first : a ∈ r.fields) (second : b ∈ r.fields)
    (same : a.name = b.name) : a = b :=
  List.inj_on_of_nodup_map r.distinct first second same

theorem field?_eq_some {r : Record} {name : String} {b : Field} :
    r.field? name = some b ↔ b ∈ r.fields ∧ b.name = name := by
  constructor
  · intro found
    exact ⟨List.mem_of_find?_eq_some found, by simpa using List.find?_some found⟩
  · rintro ⟨member, rfl⟩
    obtain ⟨a, found⟩ : ∃ a, r.field? b.name = some a := by
      rw [← Option.isSome_iff_exists, Record.field?, List.find?_isSome]
      exact ⟨b, member, by simp⟩
    have same : a.name = b.name := by simpa using List.find?_some found
    exact field_unique r (List.mem_of_find?_eq_some found) member same ▸ found

theorem field?_eq_none {r : Record} {name : String} :
    r.field? name = none ↔ ∀ b ∈ r.fields, b.name ≠ name := by
  simp [Record.field?, List.find?_eq_none]

theorem mem_sharedFields {old new : Record} {a b : Field} :
    (a, b) ∈ sharedFields old new ↔ a ∈ old.fields ∧ b ∈ new.fields ∧ b.name = a.name := by
  simp only [sharedFields, List.mem_filterMap, Option.map_eq_some_iff, field?_eq_some,
    Prod.mk.injEq]
  constructor
  · rintro ⟨a, member, b, found, rfl, rfl⟩
    exact ⟨member, found⟩
  · rintro ⟨member, found⟩
    exact ⟨a, member, b, found, rfl, rfl⟩

def Quiet (found : List Change) : Prop :=
  ∀ c ∈ found, c.severity ≠ .breaking

theorem quiet_append {first second : List Change} :
    Quiet (first ++ second) ↔ Quiet first ∧ Quiet second :=
  List.forall_mem_append

/-- A rule is quiet when what it reports about the items it picks is not breaking. -/
theorem quiet_rule {α : Type} {items : List α} {picks : α → Bool} {report : α → Change} :
    Quiet ((items.filter picks).map report) ↔
      ∀ x ∈ items, picks x = true → (report x).severity ≠ .breaking := by
  simp only [Quiet, List.forall_mem_map, List.mem_filter, and_imp]

theorem quiet_shared {old new : Record} {picks : Field × Field → Bool}
    {report : Field × Field → Change} :
    Quiet (((sharedFields old new).filter picks).map report) ↔
      ∀ a ∈ old.fields, ∀ b ∈ new.fields, b.name = a.name → picks (a, b) = true →
        (report (a, b)).severity ≠ .breaking := by
  rw [quiet_rule]
  constructor
  · exact fun quiet a member b inside same =>
      quiet (a, b) (mem_sharedFields.mpr ⟨member, inside, same⟩)
  · rintro quiet ⟨a, b⟩ shared
    obtain ⟨member, inside, same⟩ := mem_sharedFields.mp shared
    exact quiet a member b inside same

theorem keepsPlace_iff {old : Record} {i : Nat} {b : Field} :
    keepsPlace old i b = true ↔ ∃ a, old.fields[i]? = some a ∧ a.name = b.name := by
  simp [keepsPlace, Option.any_eq_true]

theorem quiet_additions {old new : Record} : Quiet (additions old new) ↔ Aligned old new := by
  simp only [additions, quiet_rule, Prod.forall, List.mem_zipIdx_iff_getElem?, Change.severity,
    ne_eq, not_true_eq_false, imp_false, Aligned, Required, ← keepsPlace_iff]
  constructor
  · intro quiet i b stands required
    simpa [required.1, required.2] using quiet b i stands
  · intro aligned b i stands picked
    simp only [Bool.and_eq_true, Bool.not_eq_true'] at picked
    obtain ⟨⟨moved, noDefault⟩, notNull⟩ := picked
    exact Bool.eq_false_iff.mp moved (aligned i b stands ⟨noDefault, notNull⟩)

theorem quiet_moves (old new : Record) : Quiet (moves old new) := by
  simp [moves, quiet_rule, Change.severity]

theorem quiet_removals {old new : Record} :
    Quiet (removals old new) ↔ ∀ a ∈ old.fields, ∃ b ∈ new.fields, b.name = a.name := by
  simp [removals, quiet_rule, Change.severity, field?_eq_none]

theorem quiet_retypings {old new : Record} :
    Quiet (retypings old new) ↔
      ∀ a ∈ old.fields, ∀ b ∈ new.fields, b.name = a.name → b.type = a.type := by
  rw [retypings, quiet_shared]
  refine forall₅_congr fun a _ b _ _ => ?_
  simpa [Change.severity] using eq_comm

theorem quiet_nullabilities {old new : Record} :
    Quiet (nullabilities old new) ↔ ∀ a ∈ old.fields, ∀ b ∈ new.fields, b.name = a.name →
      a.nullable = true → b.nullable = true := by
  rw [nullabilities, quiet_shared]
  refine forall₅_congr fun a _ b _ _ => ?_
  cases before : a.nullable <;> cases after : b.nullable <;>
    simp [before, after, Change.severity]

/-- Moves are the only changes that no version has to avoid. -/
theorem compatible_iff_rules {old new : Record} :
    Compatible old new ↔ Aligned old new ∧
      (∀ a ∈ old.fields, ∃ b ∈ new.fields, b.name = a.name) ∧
      (∀ a ∈ old.fields, ∀ b ∈ new.fields, b.name = a.name → b.type = a.type) ∧
      ∀ a ∈ old.fields, ∀ b ∈ new.fields, b.name = a.name → a.nullable = true →
        b.nullable = true := by
  have rules : Compatible old new ↔ Quiet (changes old new) := by
    simp [Compatible, Quiet, Change.finding]
  rw [rules, changes, quiet_append, quiet_append, quiet_append, quiet_append, quiet_additions,
    quiet_removals, quiet_retypings, quiet_nullabilities]
  simp only [quiet_moves, and_true, and_assoc]

theorem compatible_iff {old new : Record} :
    Compatible old new ↔ Carries old new ∧ Aligned old new := by
  rw [compatible_iff_rules]
  constructor
  · rintro ⟨aligned, there, typed, wide⟩
    refine ⟨fun a member => ?_, aligned⟩
    obtain ⟨b, inside, same⟩ := there a member
    exact ⟨b, inside, same, typed a member b inside same, wide a member b inside same⟩
  · rintro ⟨carried, aligned⟩
    -- The field that is carried over is the only one of its name.
    have only : ∀ a ∈ old.fields, ∀ b ∈ new.fields, b.name = a.name →
        b.type = a.type ∧ (a.nullable = true → b.nullable = true) := by
      intro a member b inside same
      obtain ⟨c, there, name, kept⟩ := carried a member
      rwa [field_unique new inside there (same.trans name.symm)]
    refine ⟨aligned, fun a member => ?_, ?_, ?_⟩
    · obtain ⟨b, inside, same, -⟩ := carried a member
      exact ⟨b, inside, same⟩
    · exact fun a member b inside same => (only a member b inside same).1
    · exact fun a member b inside same => (only a member b inside same).2

/-- Index `i` is behind the fields of `old`, or its field there has another name than `b`. -/
def TakesPlace (old : Record) (i : Nat) (b : Field) : Prop :=
  old.fields.length ≤ i ∨ ∃ a, old.fields[i]? = some a ∧ a.name ≠ b.name

theorem not_takesPlace {old : Record} {i : Nat} {b : Field} :
    ¬ TakesPlace old i b ↔ ∃ a, old.fields[i]? = some a ∧ a.name = b.name := by
  rw [TakesPlace, ← List.getElem?_eq_none_iff]
  cases old.fields[i]? <;> simp

theorem not_required {b : Field} :
    ¬ Required b ↔ b.hasDefault = true ∨ b.nullable = true := by
  rw [Required, not_and_or, Bool.not_eq_false, Bool.not_eq_false]

theorem aligned_iff {old new : Record} :
    Aligned old new ↔ ∀ (i : Nat) (b : Field), new.fields[i]? = some b → TakesPlace old i b →
      b.hasDefault = true ∨ b.nullable = true := by
  refine forall₃_congr fun i b _ => ?_
  rw [← not_takesPlace, ← not_required]
  exact imp_not_comm

/-- What a new version may not do: drop a field, change a type, narrow a field that was
nullable, or put a field that callers have to fill where no field of its name was. -/
theorem compatible_iff_fields (old new : Record) :
    Compatible old new ↔
      (∀ a ∈ old.fields, a.name ∈ new.fieldNames) ∧
      (∀ a ∈ old.fields, ∀ b ∈ new.fields, b.name = a.name → b.type = a.type) ∧
      (¬ ∃ a ∈ old.fields, ∃ b ∈ new.fields, b.name = a.name ∧ a.nullable = true ∧
        b.nullable = false) ∧
      ∀ (i : Nat) (b : Field), new.fields[i]? = some b → TakesPlace old i b →
        b.hasDefault = true ∨ b.nullable = true := by
  have named : (∀ a ∈ old.fields, a.name ∈ new.fieldNames) ↔
      ∀ a ∈ old.fields, ∃ b ∈ new.fields, b.name = a.name := by
    simp only [Record.fieldNames, List.mem_map]
  have narrowed : (¬ ∃ a ∈ old.fields, ∃ b ∈ new.fields, b.name = a.name ∧ a.nullable = true ∧
      b.nullable = false) ↔ ∀ a ∈ old.fields, ∀ b ∈ new.fields, b.name = a.name →
        a.nullable = true → b.nullable = true := by
    simp only [not_exists, not_and, Bool.not_eq_false]
  rw [compatible_iff_rules, named, narrowed, ← aligned_iff]
  constructor
  · rintro ⟨aligned, there, typed, wide⟩
    exact ⟨there, typed, wide, aligned⟩
  · rintro ⟨there, typed, wide, aligned⟩
    exact ⟨aligned, there, typed, wide⟩

theorem Carries.refl (r : Record) : Carries r r :=
  fun a member => ⟨a, member, rfl, rfl, id⟩

theorem Carries.trans {a b c : Record} (first : Carries a b) (second : Carries b c) :
    Carries a c := by
  intro x member
  obtain ⟨y, inside, name, type, wide⟩ := first x member
  obtain ⟨z, there, name', type', wide'⟩ := second y inside
  exact ⟨z, there, name'.trans name, type'.trans type, wide' ∘ wide⟩

theorem Compatible.refl (r : Record) : Compatible r r :=
  compatible_iff.mpr ⟨Carries.refl r, fun _ b stands _ => ⟨b, stands, rfl⟩⟩

/-- No field loses its default where it stands and is required then, but where `first` has it
at the same index. -/
def KeepsDefaults (first old new : Record) : Prop :=
  ∀ i < new.fields.length, ∀ a ∈ old.fields[i]?, ∀ b ∈ new.fields[i]?, a.name = b.name →
    a.hasDefault = true → Required b → ∃ c ∈ first.fields[i]?, c.name = b.name

instance (first old new : Record) : Decidable (KeepsDefaults first old new) :=
  inferInstanceAs (Decidable (∀ i < new.fields.length, ∀ a ∈ old.fields[i]?,
    ∀ b ∈ new.fields[i]?, a.name = b.name → a.hasDefault = true → Required b →
      ∃ c ∈ first.fields[i]?, c.name = b.name))

theorem keepsDefaults_of_compatible {first old new : Record} (compatible : Compatible first new) :
    KeepsDefaults first old new :=
  fun i _ _ _ b stands _ _ required => (compatible_iff.mp compatible).2 i b stands required

/-- A compatible step keeps a version compatible with the first one. -/
theorem Compatible.step {first old new : Record} (soFar : Compatible first old)
    (step : Compatible old new) (kept : KeepsDefaults first old new) : Compatible first new := by
  obtain ⟨carried, aligned⟩ := compatible_iff.mp soFar
  obtain ⟨carries, stays⟩ := compatible_iff.mp step
  refine compatible_iff.mpr ⟨carried.trans carries, fun i b stands required => ?_⟩
  obtain ⟨a, stood, same⟩ := stays i b stands required
  by_cases default : a.hasDefault = true
  · have inside : i < new.fields.length := (List.getElem?_eq_some_iff.mp stands).1
    exact kept i inside a stood b stands same default required
  · -- Without a default the field was required before, as it cannot have been narrowed.
    have notNull : a.nullable = false := by
      apply Bool.eq_false_iff.mpr
      intro nullable
      obtain ⟨c, inside, name, -, wide⟩ := carries a (List.mem_of_getElem? stood)
      obtain rfl := field_unique new inside (List.mem_of_getElem? stands) (name.trans same)
      rw [required.2] at wide
      cases wide nullable
    obtain ⟨c, before, name⟩ := aligned i a stood ⟨Bool.eq_false_iff.mpr default, notNull⟩
    exact ⟨c, before, name.trans same⟩

theorem Compatible.along {first current : Record} {versions : List Record}
    (soFar : Compatible first current) (steps : (current :: versions).IsChain Compatible)
    (kept : (current :: versions).IsChain (KeepsDefaults first)) :
    ∀ version ∈ versions, Compatible first version := by
  induction versions generalizing current with
  | nil => simp
  | cons next rest ih =>
    obtain ⟨step, steps⟩ := List.isChain_cons_cons.mp steps
    obtain ⟨keeps, kept⟩ := List.isChain_cons_cons.mp kept
    have here := soFar.step step keeps
    exact List.forall_mem_cons.mpr ⟨here, ih here steps kept⟩

theorem keepsDefaults_along {first current : Record} {versions : List Record}
    (compatible : ∀ version ∈ versions, Compatible first version) :
    (current :: versions).IsChain (KeepsDefaults first) := by
  induction versions generalizing current with
  | nil => exact .singleton current
  | cons next rest ih =>
    obtain ⟨here, later⟩ := List.forall_mem_cons.mp compatible
    exact .cons_cons (keepsDefaults_of_compatible here) (ih later)

/-- If every step of a history is compatible, then every version is compatible with the first
one exactly if no step takes away the default of a field that the first version lacks. -/
theorem compatible_along_history_iff {first : Record} {versions : List Record}
    (steps : (first :: versions).IsChain Compatible) :
    (∀ version ∈ versions, Compatible first version) ↔
      (first :: versions).IsChain (KeepsDefaults first) := by
  constructor
  · exact keepsDefaults_along
  · exact (Compatible.refl first).along steps

/-- A version of a class whose fields, all of one type, have a default or not. -/
def version (fields : List (String × Bool)) : Record :=
  Record.ofFirst "User" (fields.map fun (name, hasDefault) => ⟨name, "Int", false, hasDefault, 0⟩)

/-- A field of the first version may lose its default in any step. -/
theorem compatible_along_growing_history :
    let first := version [("id", true)]
    let history := [version [("id", true), ("age", true)], version [("id", false), ("age", true)],
      version [("id", false), ("age", true), ("rank", true)]]
    (first :: history).IsChain Compatible ∧ ∀ version ∈ history, Compatible first version := by
  intro first history
  have steps : (first :: history).IsChain Compatible := by decide
  have kept : (first :: history).IsChain (KeepsDefaults first) := by decide
  exact ⟨steps, (compatible_along_history_iff steps).mpr kept⟩

/-- Compatibility does not compose by itself. A field arrives with a default, then loses it
where it stands, which no rule reports; against the first version it is a field added
without a default. -/
theorem not_compatible_behind_compatible_steps :
    let first := version [("id", false)]
    let second := version [("id", false), ("age", true)]
    let third := version [("id", false), ("age", false)]
    [first, second, third].IsChain Compatible ∧ ¬ Compatible first third := by
  decide

end RecordCompat
