import Mathlib.Data.List.Chain
import RecordCompat.Proofs.History
import RecordCompat.Proofs.PairingBalance

/-! Compatibility along a history of whole sources. Where no two records of a version share a
name, every old record is compared with the new one of its name, wherever that one lives, so
nothing is breaking exactly when every old record has a compatible successor. Successors
compose like the versions of one record do: a field that keeps its default as long as it is
there never stands in the way. -/
namespace RecordCompat

/-- No two records share a name. They may come from any files. -/
def DistinctNames (records : List Record) : Prop :=
  (records.map Record.name).Nodup

instance (records : List Record) : Decidable (DistinctNames records) :=
  inferInstanceAs (Decidable (List.Nodup _))

/-- Every old record has a compatible one of its name. -/
def Succeeded (old new : List Record) : Prop :=
  ∀ r ∈ old, ∃ s ∈ new, s.name = r.name ∧ Compatible r s

theorem firstBy_key {records : List Record} (names : DistinctNames records) :
    firstBy Record.key records = records := by
  apply firstBy_of_nodup
  apply List.Nodup.of_map Prod.snd
  rw [List.map_map]
  exact names

theorem exists_named_cons {r new : Record} {left free : List Record} {property : Record → Prop}
    (moved : (new :: left).Perm free) (names : DistinctNames (new :: left)) :
    (∃ s ∈ free, s.name = r.name ∧ property s) ↔
      if new.name = r.name then property new else ∃ s ∈ left, s.name = r.name ∧ property s := by
  obtain ⟨fresh, -⟩ := List.nodup_cons.mp names
  have members (s : Record) : s ∈ free ↔ s = new ∨ s ∈ left := by
    rw [← moved.mem_iff, List.mem_cons]
  simp only [members]
  split
  next same =>
    have absent : ∀ s ∈ left, s.name ≠ r.name := fun s member equal =>
      fresh (List.mem_map.mpr ⟨s, member, equal.trans same.symm⟩)
    constructor
    · rintro ⟨s, rfl | member, equal, holds⟩
      · exact holds
      · exact absurd equal (absent s member)
    · exact fun holds => ⟨new, .inl rfl, same, holds⟩
  next other =>
    constructor
    · rintro ⟨s, rfl | member, equal, holds⟩
      · exact absurd equal other
      · exact ⟨s, member, equal, holds⟩
    · rintro ⟨s, member, equal, holds⟩
      exact ⟨s, .inr member, equal, holds⟩

theorem isBreaking_compared (old new : Record) :
    (Outcome.compared old new).comparison.isBreaking = false ↔ Compatible old new := by
  simp [Outcome.comparison, Comparison.isBreaking, Compatible, Finding.isBreaking]

theorem isBreaking_removed (old : Record) :
    (Outcome.removed old).comparison.isBreaking = true := rfl

/-- Each turn takes the one record of its name, so the turns do not meet. -/
theorem servedFrom_unbroken {old free : List Record} (oldNames : DistinctNames old)
    (newNames : DistinctNames free) :
    (∀ o ∈ servedFrom old free, o.comparison.isBreaking = false) ↔ Succeeded old free := by
  induction old generalizing free with
  | nil => simp [servedFrom, Succeeded]
  | cons r rest ih =>
    obtain ⟨fresh, oldNames⟩ := List.nodup_cons.mp oldNames
    rw [servedFrom_cons, List.forall_mem_cons, Succeeded, List.forall_mem_cons]
    rcases turn_cases r free with ⟨removed, -, used⟩ | ⟨new, compared, same, moved⟩
    · rw [removed, isBreaking_removed]
      refine iff_of_false (fun both => Bool.noConfusion both.1) ?_
      rintro ⟨⟨s, member, equal, -⟩, -⟩
      exact used s member equal
    · have names : DistinctNames (new :: leftBy r free) :=
        (moved.map Record.name).nodup_iff.mpr newNames
      rw [compared, isBreaking_compared, ih oldNames (List.nodup_cons.mp names).2,
        exists_named_cons moved names, if_pos same]
      refine and_congr_right fun _ => forall₂_congr fun q member => ?_
      have other : new.name ≠ q.name := fun equal =>
        fresh (List.mem_map.mpr ⟨q, member, equal.symm.trans same⟩)
      rw [exists_named_cons moved names, if_neg other]

theorem SourceComparison.isBreaking_iff (s : SourceComparison) (oldNames : DistinctNames s.old)
    (newNames : DistinctNames s.new) : s.isBreaking = false ↔ Succeeded s.old s.new := by
  have added : ∀ r : Record, (Outcome.added r).comparison.isBreaking = false := fun _ => rfl
  rw [← servedFrom_unbroken oldNames newNames]
  simp [SourceComparison.isBreaking, SourceComparison.comparisons, outcomes, pairRecords_eq,
    firstBy_key oldNames, firstBy_key newNames, added]

/-- A field that stays under its name in a record that stays under its name keeps its default. -/
def DefaultsKept (old new : List Record) : Prop :=
  ∀ r ∈ old, ∀ s ∈ new, s.name = r.name → ∀ a ∈ r.fields, ∀ b ∈ s.fields, b.name = a.name →
    a.hasDefault = true → b.hasDefault = true

instance (old new : List Record) : Decidable (DefaultsKept old new) :=
  inferInstanceAs (Decidable (∀ r ∈ old, ∀ s ∈ new, s.name = r.name → ∀ a ∈ r.fields,
    ∀ b ∈ s.fields, b.name = a.name → a.hasDefault = true → b.hasDefault = true))

theorem Succeeded.refl (records : List Record) : Succeeded records records :=
  fun r member => ⟨r, member, rfl, Compatible.refl r⟩

theorem Succeeded.step {first old new : List Record} (soFar : Succeeded first old)
    (step : Succeeded old new) (kept : DefaultsKept old new) : Succeeded first new := by
  intro r member
  obtain ⟨s, inside, name, compatible⟩ := soFar r member
  obtain ⟨t, there, name', compatible'⟩ := step s inside
  -- A field that keeps its default is not required, so it has no place to answer for.
  have keeps : KeepsDefaults r s t := by
    intro i _ a stood b stands same default required
    have still := kept s inside t there name' a (List.mem_of_getElem? stood) b
      (List.mem_of_getElem? stands) same.symm default
    rw [required.1] at still
    cases still
  exact ⟨t, there, name'.trans name, compatible.step compatible' keeps⟩

/-- If no step of a history of sources is breaking and no field loses its default while it
stays, then nothing is breaking between the first version and any later one. -/
theorem unbroken_along_history (label : String) {first : List Record}
    {versions : List (List Record)}
    (names : ∀ version ∈ first :: versions, DistinctNames version)
    (steps : (first :: versions).IsChain fun old new =>
      (SourceComparison.mk label old new).isBreaking = false ∧ DefaultsKept old new) :
    ∀ version ∈ first :: versions,
      (SourceComparison.mk label first version).isBreaking = false := by
  have known (old new : List Record) (before : old ∈ first :: versions)
      (after : new ∈ first :: versions) :=
    SourceComparison.isBreaking_iff ⟨label, old, new⟩ (names old before) (names new after)
  have steps : (first :: versions).IsChain fun old new =>
      Succeeded old new ∧ DefaultsKept old new :=
    steps.imp_of_mem_imp fun old new before after step =>
      ⟨(known old new before after).mp step.1, step.2⟩
  have reached : ∀ version ∈ first :: versions, Succeeded first version :=
    steps.induction (Succeeded first) _ (fun _ _ step soFar => soFar.step step.1 step.2)
      fun _ => Succeeded.refl first
  intro version member
  exact (known first version List.mem_cons_self member).mpr (reached version member)

/-- Classes move between files and new ones come up, fields with defaults are added and moved,
and a required field of the first version stays in place. -/
theorem unbroken_along_moves :
    let user (fields : List (String × Bool)) (file : String) := (version fields).withSource file
    let first := [user [("id", false)] "a.kt", oneField "Order" "Int" "a.kt"]
    let second := [oneField "Order" "Int" "a.kt", user [("id", false), ("age", true)] "b.kt"]
    let third := [oneField "Item" "Long" "c.kt",
      user [("id", false), ("rank", true), ("age", true)] "a.kt", oneField "Order" "Int" "b.kt"]
    let history := [second, third]
    (∀ version ∈ first :: history, DistinctNames version) ∧
      ((first :: history).IsChain fun old new =>
        (SourceComparison.mk "" old new).isBreaking = false ∧ DefaultsKept old new) ∧
      ∀ version ∈ first :: history, (SourceComparison.mk "" first version).isBreaking = false := by
  intro user first second third history
  have names : ∀ version ∈ first :: history, DistinctNames version := by decide
  have steps : (first :: history).IsChain fun old new =>
      (SourceComparison.mk "" old new).isBreaking = false ∧ DefaultsKept old new := by decide
  exact ⟨names, steps, unbroken_along_history "" names steps⟩

end RecordCompat
