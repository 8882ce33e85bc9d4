import RecordCompat.Proofs.History

/-! When nothing is reported between two versions of a record. Two rules are quiet only when
they are silent, since all they report is breaking; the others are silent where the fields they
align agree. A field that neither moves nor goes stays at its index, so silence means that the
new version repeats the old one, defaults apart, and continues it with fields that callers
may leave out. -/
namespace RecordCompat

theorem quiet_iff_eq_nil {found : List Change} (breaking : ∀ c ∈ found, c.severity = .breaking) :
    Quiet found ↔ found = [] := by
  constructor
  · intro quiet
    exact List.eq_nil_iff_forall_not_mem.mpr fun c member => quiet c member (breaking c member)
  · rintro rfl
    exact List.forall_mem_nil _

theorem additions_eq_nil {old new : Record} : additions old new = [] ↔ Aligned old new := by
  rw [← quiet_additions, quiet_iff_eq_nil]
  intro c member
  obtain ⟨_, -, rfl⟩ := List.mem_map.mp member
  rfl

theorem removals_eq_nil {old new : Record} :
    removals old new = [] ↔ ∀ a ∈ old.fields, ∃ b ∈ new.fields, b.name = a.name := by
  rw [← quiet_removals, quiet_iff_eq_nil]
  intro c member
  obtain ⟨_, -, rfl⟩ := List.mem_map.mp member
  rfl

theorem shared_rule_eq_nil {old new : Record} {picks : Field × Field → Bool}
    {report : Field × Field → Change} :
    ((sharedFields old new).filter picks).map report = [] ↔
      ∀ a ∈ old.fields, ∀ b ∈ new.fields, b.name = a.name → picks (a, b) = false := by
  simp only [List.map_eq_nil_iff, List.filter_eq_nil_iff, Prod.forall, mem_sharedFields,
    Bool.not_eq_true]
  constructor
  · exact fun silent a member b inside same => silent a b ⟨member, inside, same⟩
  · rintro silent a b ⟨member, inside, same⟩
    exact silent a member b inside same

theorem moves_eq_nil {old new : Record} :
    moves old new = [] ↔
      ∀ a ∈ old.fields, ∀ b ∈ new.fields, b.name = a.name → b.position = a.position := by
  rw [moves, shared_rule_eq_nil]
  refine forall₅_congr fun a _ b _ _ => ?_
  simpa using eq_comm

theorem retypings_eq_nil {old new : Record} :
    retypings old new = [] ↔
      ∀ a ∈ old.fields, ∀ b ∈ new.fields, b.name = a.name → b.type = a.type := by
  rw [retypings, shared_rule_eq_nil]
  refine forall₅_congr fun a _ b _ _ => ?_
  simpa using eq_comm

theorem nullabilities_eq_nil {old new : Record} :
    nullabilities old new = [] ↔
      ∀ a ∈ old.fields, ∀ b ∈ new.fields, b.name = a.name → b.nullable = a.nullable := by
  rw [nullabilities, shared_rule_eq_nil]
  refine forall₅_congr fun a _ b _ _ => ?_
  simpa using eq_comm

theorem position_of_getElem? {r : Record} {i : Nat} {f : Field} (stands : r.fields[i]? = some f) :
    f.position = i := by
  obtain ⟨inside, rfl⟩ := List.getElem?_eq_some_iff.mp stands
  exact r.placed i inside

/-- Every old field stands at its index, under its name. -/
def Stays (old new : Record) : Prop :=
  ∀ (i : Nat) (a : Field), old.fields[i]? = some a →
    ∃ b, new.fields[i]? = some b ∧ b.name = a.name

theorem stays_iff {old new : Record} :
    Stays old new ↔ moves old new = [] ∧ removals old new = [] := by
  rw [moves_eq_nil, removals_eq_nil]
  constructor
  · intro stays
    have kept : ∀ a ∈ old.fields, ∃ b ∈ new.fields, b.name = a.name ∧ b.position = a.position := by
      intro a member
      obtain ⟨i, stood⟩ := List.mem_iff_getElem?.mp member
      obtain ⟨b, stands, same⟩ := stays i a stood
      refine ⟨b, List.mem_of_getElem? stands, same, ?_⟩
      rw [position_of_getElem? stood, position_of_getElem? stands]
    constructor
    · intro a member b inside same
      obtain ⟨c, there, name, position⟩ := kept a member
      rwa [field_unique new inside there (same.trans name.symm)]
    · intro a member
      obtain ⟨b, inside, same, -⟩ := kept a member
      exact ⟨b, inside, same⟩
  · rintro ⟨unmoved, there⟩ i a stood
    obtain ⟨b, inside, same⟩ := there a (List.mem_of_getElem? stood)
    obtain ⟨j, stands⟩ := List.mem_iff_getElem?.mp inside
    have position := unmoved a (List.mem_of_getElem? stood) b inside same
    rw [position_of_getElem? stood, position_of_getElem? stands] at position
    obtain rfl := Int.ofNat_inj.mp position
    exact ⟨b, stands, same⟩

/-- A field that stays is the one of its name, so what the two have in common may be looked for
at its index. -/
theorem Stays.shared_iff {old new : Record} (stays : Stays old new) {p : Field → Field → Prop} :
    (∀ a ∈ old.fields, ∀ b ∈ new.fields, b.name = a.name → p a b) ↔
      ∀ (i : Nat) (a b : Field), old.fields[i]? = some a → new.fields[i]? = some b → p a b := by
  constructor
  · intro shared i a b stood stands
    obtain ⟨c, here, same⟩ := stays i a stood
    obtain rfl : c = b := Option.some.inj (here.symm.trans stands)
    exact shared a (List.mem_of_getElem? stood) c (List.mem_of_getElem? stands) same
  · intro placed a member b inside same
    obtain ⟨i, stood⟩ := List.mem_iff_getElem?.mp member
    obtain ⟨c, stands, name⟩ := stays i a stood
    obtain rfl := field_unique new inside (List.mem_of_getElem? stands) (same.trans name.symm)
    exact placed i a b stood stands

/-- Where all old fields stay, only what is behind them can need a default. -/
theorem Stays.aligned_iff {old new : Record} (stays : Stays old new) :
    Aligned old new ↔ ∀ (i : Nat) (b : Field), old.fields.length ≤ i → new.fields[i]? = some b →
      b.hasDefault = true ∨ b.nullable = true := by
  rw [RecordCompat.aligned_iff]
  constructor
  · exact fun optional i b behind stands => optional i b stands (.inl behind)
  · intro optional i b stands takes
    rcases takes with behind | ⟨a, stood, other⟩
    · exact optional i b behind stands
    · obtain ⟨c, here, same⟩ := stays i a stood
      obtain rfl : c = b := Option.some.inj (here.symm.trans stands)
      exact absurd same.symm other

theorem stays_iff_getElem? {old new : Record} :
    Stays old new ↔ old.fields.length ≤ new.fields.length ∧
      ∀ (i : Nat) (a b : Field), old.fields[i]? = some a → new.fields[i]? = some b →
        b.name = a.name := by
  constructor
  · intro stays
    constructor
    · apply Nat.le_of_not_lt
      intro shorter
      obtain ⟨b, stands, -⟩ := stays _ _ (List.getElem?_eq_getElem shorter)
      simp at stands
    · intro i a b stood stands
      obtain ⟨c, here, same⟩ := stays i a stood
      obtain rfl : c = b := Option.some.inj (here.symm.trans stands)
      exact same
  · rintro ⟨length, names⟩ i a stood
    have inside : i < new.fields.length :=
      Nat.lt_of_lt_of_le (List.getElem?_eq_some_iff.mp stood).1 length
    exact ⟨_, List.getElem?_eq_getElem inside, names i a _ stood (List.getElem?_eq_getElem inside)⟩

theorem changes_eq_nil {old new : Record} :
    changes old new = [] ↔ Stays old new ∧ Aligned old new ∧
      (∀ a ∈ old.fields, ∀ b ∈ new.fields, b.name = a.name → b.type = a.type) ∧
      ∀ a ∈ old.fields, ∀ b ∈ new.fields, b.name = a.name → b.nullable = a.nullable := by
  simp only [changes, List.append_eq_nil_iff, additions_eq_nil, retypings_eq_nil,
    nullabilities_eq_nil, stays_iff]
  tauto

/-- Nothing is reported exactly where the new version begins with the fields of the old one, the
same in name, type and nullability, and goes on with fields that are nullable or have a
default. Whether a field that stays has a default does not matter. -/
theorem findings_eq_nil_iff (old new : Record) :
    (changes old new).map Change.finding = [] ↔
      old.fields.length ≤ new.fields.length ∧
      (∀ (i : Nat) (a b : Field), old.fields[i]? = some a → new.fields[i]? = some b →
        b.name = a.name ∧ b.type = a.type ∧ b.nullable = a.nullable) ∧
      ∀ (i : Nat) (b : Field), old.fields.length ≤ i → new.fields[i]? = some b →
        b.hasDefault = true ∨ b.nullable = true := by
  rw [List.map_eq_nil_iff, changes_eq_nil]
  constructor
  · rintro ⟨stays, aligned, typed, wide⟩
    obtain ⟨length, names⟩ := stays_iff_getElem?.mp stays
    have types := stays.shared_iff.mp typed
    have nullables := stays.shared_iff.mp wide
    exact ⟨length, fun i a b stood stands => ⟨names i a b stood stands, types i a b stood stands,
      nullables i a b stood stands⟩, stays.aligned_iff.mp aligned⟩
  · rintro ⟨length, agree, optional⟩
    have stays : Stays old new :=
      stays_iff_getElem?.mpr ⟨length, fun i a b stood stands => (agree i a b stood stands).1⟩
    refine ⟨stays, stays.aligned_iff.mpr optional, stays.shared_iff.mpr ?_, stays.shared_iff.mpr ?_⟩
    · exact fun i a b stood stands => (agree i a b stood stands).2.1
    · exact fun i a b stood stands => (agree i a b stood stands).2.2

end RecordCompat
