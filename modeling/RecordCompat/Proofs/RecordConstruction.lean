import RecordCompat.Proofs.History

/-! Which fields make a record. The check goes through the fields with the names it has seen, and
what it says of a list follows from what it says of the front and then of the rest. So its first
fault is that of one field behind fields that fit, and the index of that field is the smallest at
which anything is wrong. Fields that take their indices as positions can only repeat a name. -/
namespace RecordCompat

/-- The field at an index has it as position, and no field in front of it has its name. -/
def Fits (fields : List Field) (i : Nat) : Prop :=
  ∀ _inside : i < fields.length,
    fields[i].position = i ∧ fields[i].name ∉ (fields.take i).map Field.name

instance (fields : List Field) (i : Nat) : Decidable (Fits fields i) :=
  inferInstanceAs (Decidable (∀ _inside : i < fields.length, _))

instance (fields : List Field) : Decidable (Placed fields) :=
  inferInstanceAs (Decidable (∀ (i : Nat) (_ : i < fields.length), _))

/-- What is wrong at the smallest index at which a field does not fit. A position counts before a
name. -/
def FirstFault (record : String) (fields : List Field) (e : RecordError) : Prop :=
  ∃ i, ∃ _inside : i < fields.length, (∀ j < i, Fits fields j) ∧
    (fields[i].position ≠ i ∧ e = .misplaced fields[i].name record fields[i].position i ∨
      fields[i].position = i ∧ fields[i].name ∈ (fields.take i).map Field.name ∧
        e = .repeated fields[i].name record)

theorem fault?_append (record : String) (seen : List String) (front back : List Field) :
    fault? record seen (front ++ back) =
      (fault? record seen front).or (fault? record (seen ++ front.map Field.name) back) := by
  induction front generalizing seen with
  | nil => simp [fault?]
  | cons field front ih =>
    rw [List.cons_append, fault?, fault?, ih]
    split
    · rfl
    · split
      · rfl
      · simp

theorem fault?_eq_some {record : String} {seen : List String} {fields : List Field}
    {e : RecordError} :
    fault? record seen fields = some e ↔ ∃ front field back, fields = front ++ field :: back ∧
      fault? record seen front = none ∧
      fault? record (seen ++ front.map Field.name) [field] = some e := by
  constructor
  · intro found
    induction fields generalizing seen with
    | nil => cases found
    | cons field fields ih =>
      rw [← List.singleton_append, fault?_append] at found
      cases first : fault? record seen [field] with
      | some e' =>
        rw [first, Option.some_or] at found
        exact ⟨[], field, fields, rfl, rfl, by simpa [first] using found⟩
      | none =>
        rw [first, Option.none_or] at found
        obtain ⟨front, other, back, rfl, sound, fault⟩ := ih found
        refine ⟨field :: front, other, back, rfl, ?_, by simpa using fault⟩
        rw [← List.singleton_append, fault?_append, first, sound]
        rfl
  · rintro ⟨front, field, back, rfl, sound, fault⟩
    rw [List.append_cons, fault?_append, fault?_append, sound, Option.none_or, fault]
    rfl

theorem fault?_eq_none_iff {record : String} {fields : List Field} :
    fault? record [] fields = none ↔ Placed fields ∧ (fields.map Field.name).Nodup := by
  constructor
  · intro sound
    obtain ⟨positions, names⟩ := placed_distinct_of_fault? List.nodup_nil sound
    exact ⟨fun i inside => by simpa using positions i inside, by simpa using names⟩
  · rintro ⟨placed, distinct⟩
    exact fault?_eq_none (fun i inside => by simpa using placed i inside) distinct

theorem fits_append {front back : List Field} {i : Nat} (inside : i < front.length) :
    Fits (front ++ back) i ↔ Fits front i := by
  have inside' : i < (front ++ back).length := by
    rw [List.length_append]
    omega
  rw [Fits, Fits, forall_prop_of_true inside', forall_prop_of_true inside,
    List.getElem_append_left inside, List.take_append_of_le_length (Nat.le_of_lt inside)]

theorem forall_fits_iff {fields : List Field} :
    (∀ i < fields.length, Fits fields i) ↔ Placed fields ∧ (fields.map Field.name).Nodup := by
  constructor
  · intro fits
    refine ⟨fun i inside => (fits i inside inside).1, List.pairwise_iff_getElem.mpr ?_⟩
    intro i j _ inside before same
    rw [List.length_map] at inside
    rw [List.getElem_map, List.getElem_map] at same
    refine (fits j inside inside).2 (List.mem_map.mpr ⟨fields[i], ?_, same⟩)
    exact List.mem_take_iff_getElem.mpr ⟨i, by omega, rfl⟩
  · rintro ⟨placed, distinct⟩ i inside _
    refine ⟨placed i inside, fun repeats => ?_⟩
    rw [← List.take_append_drop i fields, List.map_append, List.nodup_append] at distinct
    refine distinct.2.2 _ repeats _ (List.mem_map_of_mem ?_) rfl
    rw [List.drop_eq_getElem_cons inside]
    exact List.mem_cons_self

theorem firstFault_iff {record : String} {fields : List Field} {e : RecordError} :
    FirstFault record fields e ↔ fault? record [] fields = some e := by
  rw [fault?_eq_some]
  constructor
  · rintro ⟨i, inside, fits, wrong⟩
    have split : fields = fields.take i ++ fields[i] :: fields.drop (i + 1) := by
      rw [← List.drop_eq_getElem_cons inside, List.take_append_drop]
    have length : (fields.take i).length = i := List.length_take_of_le (Nat.le_of_lt inside)
    refine ⟨fields.take i, fields[i], fields.drop (i + 1), split, ?_, ?_⟩
    · rw [fault?_eq_none_iff, ← forall_fits_iff]
      intro j before
      have fit := fits j (by omega)
      rw [split] at fit
      exact (fits_append before).mp fit
    · rw [List.nil_append, fault?, fault?, List.length_map, length]
      rcases wrong with ⟨misplaced, rfl⟩ | ⟨placed, repeats, rfl⟩
      · rw [if_pos misplaced]
      · rw [if_neg (not_not_intro placed), if_pos repeats]
  · rintro ⟨front, field, back, rfl, sound, fault⟩
    rw [fault?_eq_none_iff, ← forall_fits_iff] at sound
    have here : (front ++ field :: back)[front.length]? = some field := by simp
    obtain ⟨inside, at'⟩ := List.getElem?_eq_some_iff.mp here
    refine ⟨front.length, inside, fun j before => (fits_append before).mpr (sound j before), ?_⟩
    rw [at', List.take_left]
    rw [List.nil_append, fault?, fault?, List.length_map] at fault
    split_ifs at fault with misplaced repeats
    · exact .inl ⟨misplaced, (Option.some.inj fault).symm⟩
    · exact .inr ⟨not_not.mp misplaced, repeats, (Option.some.inj fault).symm⟩

namespace Record

theorem ofFields?_eq_error {name source : String} {fields : List Field} {e : RecordError} :
    ofFields? name fields source = .error e ↔ FirstFault name fields e := by
  rw [firstFault_iff, ofFields?]
  split
  next e' fault => rw [fault, Except.error.injEq, Option.some.injEq]
  next sound => simp [sound]

theorem ofFields?_eq_ok {name source : String} {fields : List Field} {r : Record} :
    ofFields? name fields source = .ok r ↔
      r.name = name ∧ r.fields = fields ∧ r.source = source := by
  constructor
  · intro made
    rw [ofFields?] at made
    split at made
    · cases made
    · obtain rfl := Except.ok.inj made
      exact ⟨rfl, rfl, rfl⟩
  · rintro ⟨rfl, rfl, rfl⟩
    exact ofFields?_self r

theorem exists_ofFields?_iff {name source : String} {fields : List Field} :
    (∃ r, ofFields? name fields source = .ok r) ↔
      Placed fields ∧ (fields.map Field.name).Nodup := by
  constructor
  · rintro ⟨r, made⟩
    obtain ⟨-, rfl, -⟩ := ofFields?_eq_ok.mp made
    exact ⟨r.placed, r.distinct⟩
  · rintro ⟨placed, distinct⟩
    exact ⟨⟨name, fields, source, placed, distinct⟩, ofFields?_eq_ok.mpr ⟨rfl, rfl, rfl⟩⟩

theorem build?_eq_ok {name source : String} {fields : List Field} {r : Record} :
    build? name fields source = .ok r ↔
      r.name = name ∧ r.fields = renumber fields ∧ r.source = source :=
  ofFields?_eq_ok

theorem exists_build?_iff {name source : String} {fields : List Field} :
    (∃ r, build? name fields source = .ok r) ↔ (fields.map Field.name).Nodup := by
  rw [build?, exists_ofFields?_iff, map_name_renumber, and_iff_right (placed_renumber fields)]

theorem renumber_fields (r : Record) : renumber r.fields = r.fields := by
  apply List.ext_getElem (by simp [renumber])
  intro i _ inside
  simp [renumber, ← r.placed i inside]

/-- A record built of fields that may claim any positions. -/
structure BuiltOf (name : String) (fields : List Field) (source : String) (r : Record) : Prop where
  named : r.name = name
  labelled : r.source = source
  /-- Nothing but the positions is changed. -/
  numbered : ∀ i : Nat, r.fields[i]? = fields[i]?.map fun field => { field with position := i }
  /-- Built again of its own fields, the record is the same but for the source that is given. -/
  again : ∀ other, build? r.name r.fields other = .ok (r.withSource other) ∧
    SameShape (r.withSource other) r

theorem builtOf {name source : String} {fields : List Field} {r : Record}
    (built : build? name fields source = .ok r) : BuiltOf name fields source r := by
  obtain ⟨named, numbered, labelled⟩ := build?_eq_ok.mp built
  refine ⟨named, labelled, fun i => ?_, fun other => ⟨?_, rfl, rfl⟩⟩
  · rw [numbered, renumber, List.getElem?_mapIdx]
  · exact build?_eq_ok.mpr ⟨rfl, (renumber_fields r).symm, rfl⟩

/-- What the names of a record find. -/
structure FindsOwn (r : Record) : Prop where
  itself : ∀ field ∈ r.fields, r.field? field.name = some field
  /-- Whatever is found stands at its position. -/
  stands : ∀ name field, r.field? name = some field →
    ∃ i : Nat, r.fields[i]? = some field ∧ field.position = i

theorem findsOwn (r : Record) : FindsOwn r := by
  constructor
  case itself => exact fun field member => field?_eq_some.mpr ⟨member, rfl⟩
  case stands =>
    intro name field found
    obtain ⟨i, inside, rfl⟩ := List.mem_iff_getElem.mp (field?_eq_some.mp found).1
    exact ⟨i, List.getElem?_eq_getElem inside, r.placed i inside⟩

/-- Fields make a record as they are when each has its index as position and a name of its own; if
not, the first index at which one of the two is wrong is reported. Whatever the positions, fields
with names of their own can be built into a record, and that changes the positions alone. In either
record the name of a field finds that field, at its position. -/
theorem construction_exact (name : String) (fields : List Field) (source : String) :
    ((∃ r, ofFields? name fields source = .ok r) ↔
      Placed fields ∧ (fields.map Field.name).Nodup) ∧
    (∀ e, ofFields? name fields source = .error e ↔ FirstFault name fields e) ∧
    (∀ r, ofFields? name fields source = .ok r →
      r.name = name ∧ r.fields = fields ∧ r.source = source ∧ FindsOwn r) ∧
    ((∃ r, build? name fields source = .ok r) ↔ (fields.map Field.name).Nodup) ∧
    ∀ r, build? name fields source = .ok r → BuiltOf name fields source r ∧ FindsOwn r := by
  refine ⟨exists_ofFields?_iff, fun _ => ofFields?_eq_error, fun r made => ?_, exists_build?_iff,
    fun r built => ⟨builtOf built, findsOwn r⟩⟩
  obtain ⟨named, kept, labelled⟩ := ofFields?_eq_ok.mp made
  exact ⟨named, kept, labelled, findsOwn r⟩

/-- Fields of which the third has a wrong position and the first one's name, and the fourth a wrong
position, and fields with names of their own and the positions of others. -/
theorem construction_exact_of_two_faults :
    let field (name : String) (position : Int) : Field := ⟨name, "Int", false, true, position⟩
    let faulty := [field "a" 0, field "b" 1, field "a" 5, field "c" 0]
    let placed := [field "a" 0, field "b" 1]
    let fields := [field "a" 1, field "b" 0]
    ofFields? "R" faulty "" = .error (.misplaced "a" "R" 5 2) ∧
      (∃ r, ofFields? "R" placed "R.kt" = .ok r ∧ r.name = "R" ∧ r.fields = placed ∧
        r.source = "R.kt" ∧ FindsOwn r) ∧
      ∃ r, build? "R" fields "R.kt" = .ok r ∧ BuiltOf "R" fields "R.kt" r ∧ FindsOwn r := by
  intro field faulty placed fields
  refine ⟨?_, ?_, ?_⟩
  · obtain ⟨-, faults, -⟩ := construction_exact "R" faulty ""
    exact (faults _).mpr ⟨2, by decide, by decide, .inl ⟨by decide, rfl⟩⟩
  · obtain ⟨makes, -, made, -⟩ := construction_exact "R" placed "R.kt"
    obtain ⟨r, ok⟩ := makes.mpr (by decide)
    exact ⟨r, ok, made r ok⟩
  · obtain ⟨-, -, -, builds, built⟩ := construction_exact "R" fields "R.kt"
    obtain ⟨r, ok⟩ := builds.mpr (by decide)
    exact ⟨r, ok, built r ok⟩

end Record

end RecordCompat
