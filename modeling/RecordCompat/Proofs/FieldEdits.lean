import RecordCompat.Proofs.FoundChanges

/-! What one edit of the field list is found to be. Fields that are put in the place of others leave
the fields in front alone and shift those behind. The rules that go by name see each of the
latter move and nothing else; the rule that goes by position sees every place behind taken
over by another field, since no name occurs twice. -/
namespace RecordCompat

def Field.shifted (shift : Int) (f : Field) : Field :=
  { f with position := f.position + shift }

/-- The new version has the fields `added` where the old one has the fields `gone`. The two are not
as many, and the names of the former are new. -/
structure Spliced (old new : Record) (front gone added behind : List Field) : Prop where
  before : old.fields = front ++ gone ++ behind
  after : new.fields = renumber (front ++ added ++ behind)
  fresh : ∀ b ∈ added, b.name ∉ old.fieldNames
  shifts : added.length ≠ gone.length

theorem mapIdx_eq_map {α β : Type} {f : Nat → α → β} {g : α → β} {items : List α}
    (same : ∀ i a, items[i]? = some a → f i a = g a) : items.mapIdx f = items.map g := by
  apply List.ext_getElem?
  intro i
  rw [List.getElem?_mapIdx, List.getElem?_map]
  exact Option.map_congr fun a stands => same i a stands

theorem index_unique {r : Record} {i j : Nat} {a b : Field} (first : r.fields[i]? = some a)
    (second : r.fields[j]? = some b) (same : a.name = b.name) : i = j := by
  obtain rfl := field_unique r (List.mem_of_getElem? first) (List.mem_of_getElem? second) same
  exact Int.ofNat_inj.mp ((position_of_getElem? first).symm.trans (position_of_getElem? second))

theorem additions_renumber {old new : Record} {fields : List Field}
    (after : new.fields = renumber fields) :
    additions old new = (fields.zipIdx.filter fun p => !keepsPlace old p.2 p.1 && Required p.1).map
      fun p => .fieldAdded p.1.name p.2 := by
  have indexed : new.fields.zipIdx =
      fields.zipIdx.map fun p => ({ p.1 with position := p.2 }, p.2) := by
    rw [after]
    apply List.ext_getElem <;> simp [renumber]
  rw [additions, indexed, List.filter_map, List.map_map]
  refine congrArg (List.map _) (List.filter_congr fun p _ => ?_)
  cases hasDefault : p.1.hasDefault <;> cases nullable : p.1.nullable <;>
    simp [keepsPlace, Required, hasDefault, nullable]

namespace Spliced

variable {old new : Record} {front gone added behind : List Field}

/-- By how much the fields behind are shifted. -/
def shift (gone added : List Field) : Int :=
  added.length - gone.length

theorem getElem?_front (spliced : Spliced old new front gone added behind) {i : Nat} {a : Field}
    (stands : front[i]? = some a) : old.fields[i]? = some a := by
  rw [spliced.before, List.append_assoc,
    List.getElem?_append_left (List.getElem?_eq_some_iff.mp stands).1, stands]

theorem getElem?_behind (spliced : Spliced old new front gone added behind) {i : Nat} {a : Field}
    (stands : behind[i]? = some a) :
    old.fields[front.length + gone.length + i]? = some a := by
  rw [spliced.before, List.getElem?_append_right (by simp), List.length_append,
    Nat.add_sub_cancel_left, stands]

theorem fields (spliced : Spliced old new front gone added behind) :
    new.fields = front ++
      (added.mapIdx fun i f => { f with position := (i + front.length : Nat) }) ++
      behind.map (Field.shifted (shift gone added)) := by
  have fronts : renumber front = front := by
    have same : renumber front = front.map id := mapIdx_eq_map fun i a stands => by
      rw [← position_of_getElem? (spliced.getElem?_front stands)]
      rfl
    rw [same, List.map_id]
  have behinds : (behind.mapIdx fun i f =>
      { f with position := (i + (front ++ added).length : Nat) }) =
      behind.map (Field.shifted (shift gone added)) := mapIdx_eq_map fun i a stands => by
    rw [Field.shifted, position_of_getElem? (spliced.getElem?_behind stands), shift,
      List.length_append]
    congr 1
    omega
  rw [spliced.after, renumber, List.mapIdx_append, behinds, List.mapIdx_append]
  exact congrArg (· ++ _ ++ _) fronts

theorem field?_front (spliced : Spliced old new front gone added behind) {a : Field}
    (member : a ∈ front) : new.field? a.name = some a := by
  refine field?_eq_some.mpr ⟨?_, rfl⟩
  rw [spliced.fields]
  simp [member]

theorem field?_behind (spliced : Spliced old new front gone added behind) {a : Field}
    (member : a ∈ behind) : new.field? a.name = some (a.shifted (shift gone added)) := by
  refine field?_eq_some.mpr ⟨?_, rfl⟩
  rw [spliced.fields]
  exact List.mem_append_right _ (List.mem_map_of_mem member)

theorem field?_gone (spliced : Spliced old new front gone added behind) {a : Field}
    (member : a ∈ gone) : new.field? a.name = none := by
  have distinct := old.distinct
  rw [spliced.before, List.map_append, List.map_append, List.nodup_append, List.nodup_append]
    at distinct
  obtain ⟨⟨-, -, apart⟩, -, apart'⟩ := distinct
  have name : a.name ∈ gone.map Field.name := List.mem_map_of_mem member
  have known : a.name ∈ old.fieldNames := by
    rw [Record.fieldNames, spliced.before, List.map_append, List.map_append]
    exact List.mem_append_left _ (List.mem_append_right _ name)
  have names : new.fields.map Field.name = (front ++ added ++ behind).map Field.name := by
    rw [spliced.after, map_name_renumber]
  rw [field?_eq_none]
  intro b inside same
  have there : b.name ∈ new.fields.map Field.name := List.mem_map_of_mem inside
  rw [same, names, List.map_append, List.map_append, List.mem_append, List.mem_append] at there
  rcases there with (inFront | new) | behind
  · exact apart _ inFront _ name rfl
  · obtain ⟨b, fresh, same⟩ := List.mem_map.mp new
    exact spliced.fresh b fresh (same ▸ known)
  · exact apart' _ (List.mem_append_right _ name) _ behind rfl

theorem sharedFields (spliced : Spliced old new front gone added behind) :
    RecordCompat.sharedFields old new = front.map (fun a => (a, a)) ++
      behind.map fun a => (a, a.shifted (shift gone added)) := by
  have fronts : (front.filterMap fun a => (new.field? a.name).map (a, ·)) =
      front.map fun a => (a, a) := by
    rw [← List.filterMap_eq_map]
    exact List.filterMap_congr fun a member => by rw [spliced.field?_front member]; rfl
  have gones : (gone.filterMap fun a => (new.field? a.name).map (a, ·)) = [] :=
    List.filterMap_eq_nil_iff.mpr fun a member => by rw [spliced.field?_gone member]; rfl
  have behinds : (behind.filterMap fun a => (new.field? a.name).map (a, ·)) =
      behind.map fun a => (a, a.shifted (shift gone added)) := by
    rw [← List.filterMap_eq_map]
    exact List.filterMap_congr fun a member => by rw [spliced.field?_behind member]; rfl
  rw [RecordCompat.sharedFields, spliced.before, List.filterMap_append, List.filterMap_append,
    fronts, gones, behinds, List.append_nil]

/-- A rule for shared fields reports nothing in front, where the two forms are the same. -/
theorem shared_rule (spliced : Spliced old new front gone added behind)
    {picks : Field × Field → Bool} (report : Field × Field → Change)
    (same : ∀ a, picks (a, a) = false) :
    ((RecordCompat.sharedFields old new).filter picks).map report =
      ((behind.map fun a => (a, a.shifted (shift gone added))).filter picks).map report := by
  have fronts : (front.map fun a => (a, a)).filter picks = [] :=
    List.filter_eq_nil_iff.mpr (List.forall_mem_map.mpr fun a _ => by simp [same a])
  rw [spliced.sharedFields, List.filter_append, fronts, List.nil_append]

theorem moves (spliced : Spliced old new front gone added behind) :
    RecordCompat.moves old new = behind.map fun a =>
      .fieldMoved a.name a.position (a.position + shift gone added) := by
  have moved : ∀ a : Field, a.position ≠ (a.shifted (shift gone added)).position := by
    intro a same
    have := spliced.shifts
    simp only [Field.shifted, shift] at same
    omega
  rw [RecordCompat.moves, spliced.shared_rule _ fun a => by simp, List.filter_map, List.map_map]
  rw [List.filter_eq_self.mpr fun a _ => by simp [moved a]]
  rfl

theorem removals (spliced : Spliced old new front gone added behind) :
    RecordCompat.removals old new = gone.map fun a => .fieldRemoved a.name := by
  have kept : ∀ part : List Field, (∀ a ∈ part, new.field? a.name ≠ none) →
      part.filter (fun a => new.field? a.name = none) = [] := fun part found =>
    List.filter_eq_nil_iff.mpr fun a member => by simpa using found a member
  have fronts := kept front fun a member => by simp [spliced.field?_front member]
  have behinds := kept behind fun a member => by simp [spliced.field?_behind member]
  have gones : gone.filter (fun a => new.field? a.name = none) = gone :=
    List.filter_eq_self.mpr fun a member => decide_eq_true (spliced.field?_gone member)
  rw [RecordCompat.removals, spliced.before, List.filter_append, List.filter_append, fronts,
    gones, behinds, List.nil_append, List.append_nil]

theorem retypings (spliced : Spliced old new front gone added behind) :
    RecordCompat.retypings old new = [] := by
  rw [RecordCompat.retypings, spliced.shared_rule _ fun a => by simp, List.filter_map]
  simp [Field.shifted]

theorem nullabilities (spliced : Spliced old new front gone added behind) :
    RecordCompat.nullabilities old new = [] := by
  rw [RecordCompat.nullabilities, spliced.shared_rule _ fun a => by simp, List.filter_map]
  simp [Field.shifted]

theorem keepsPlace_front (spliced : Spliced old new front gone added behind) {i : Nat} {a : Field}
    (stands : front[i]? = some a) : keepsPlace old i a = true :=
  keepsPlace_iff.mpr ⟨a, spliced.getElem?_front stands, rfl⟩

theorem keepsPlace_added (spliced : Spliced old new front gone added behind) {i : Nat} {b : Field}
    (member : b ∈ added) : keepsPlace old i b = false := by
  rw [← Bool.not_eq_true, keepsPlace_iff]
  rintro ⟨a, stood, same⟩
  exact spliced.fresh b member (same ▸ List.mem_map_of_mem (List.mem_of_getElem? stood))

/-- Fields behind arrive at their shifted positions, where other fields were. -/
theorem place_behind (spliced : Spliced old new front gone added behind) {i : Nat} {a : Field}
    (member : (a, i) ∈ behind.zipIdx (front.length + added.length)) :
    keepsPlace old i a = false ∧ (i : Int) = a.position + shift gone added := by
  obtain ⟨start, stands⟩ := List.mem_zipIdx_iff_le_and_getElem?_sub.mp member
  have stood := spliced.getElem?_behind stands
  constructor
  · rw [← Bool.not_eq_true, keepsPlace_iff]
    rintro ⟨b, here, same⟩
    have := index_unique here stood same
    exact spliced.shifts (by omega)
  · rw [position_of_getElem? stood, shift]
    omega

theorem additions_behind (spliced : Spliced old new front gone added behind) :
    ((behind.zipIdx (front.length + added.length)).filter fun p =>
        !keepsPlace old p.2 p.1 && Required p.1).map (fun p => Change.fieldAdded p.1.name p.2) =
      (behind.filter Required).map fun a =>
        .fieldAdded a.name (a.position + shift gone added) := by
  have taken : ((behind.zipIdx (front.length + added.length)).filter fun p =>
      !keepsPlace old p.2 p.1 && Required p.1) =
      (behind.zipIdx (front.length + added.length)).filter ((Required ·) ∘ Prod.fst) := by
    refine List.filter_congr fun p member => ?_
    simp [(spliced.place_behind member).1]
  have placed : ∀ p ∈ (behind.zipIdx (front.length + added.length)).filter
      ((Required ·) ∘ Prod.fst),
      Change.fieldAdded p.1.name p.2 =
        .fieldAdded p.1.name (p.1.position + shift gone added) := by
    intro (a, i) member
    rw [(spliced.place_behind (List.mem_filter.mp member).1).2]
  rw [taken, List.map_congr_left placed]
  conv_rhs => rw [← List.zipIdx_map_fst (front.length + added.length) behind, List.filter_map,
    List.map_map]
  rfl

theorem additions (spliced : Spliced old new front gone added behind) :
    RecordCompat.additions old new =
      ((added.zipIdx front.length).filter fun p => Required p.1).map
          (fun p => .fieldAdded p.1.name p.2) ++
        (behind.filter Required).map
          fun a => .fieldAdded a.name (a.position + shift gone added) := by
  have fronts : front.zipIdx.filter (fun p => !keepsPlace old p.2 p.1 && Required p.1) = [] := by
    refine List.filter_eq_nil_iff.mpr fun p member => ?_
    simp [spliced.keepsPlace_front (List.mem_zipIdx_iff_getElem?.mp member)]
  have addeds : (added.zipIdx front.length).filter
      (fun p => !keepsPlace old p.2 p.1 && Required p.1) =
      (added.zipIdx front.length).filter fun p => Required p.1 := by
    refine List.filter_congr fun p member => ?_
    simp [spliced.keepsPlace_added (List.fst_mem_of_mem_zipIdx member)]
  rw [additions_renumber spliced.after, List.zipIdx_append, List.zipIdx_append, List.filter_append,
    List.filter_append, fronts, List.nil_append, Nat.zero_add, Nat.zero_add, addeds,
    List.map_append, List.length_append, spliced.additions_behind]

theorem changes (spliced : Spliced old new front gone added behind) :
    RecordCompat.changes old new =
      ((added.zipIdx front.length).filter fun p => Required p.1).map
          (fun p => .fieldAdded p.1.name p.2) ++
        (behind.filter Required).map
          (fun a => .fieldAdded a.name (a.position + shift gone added)) ++
        (behind.map fun a => .fieldMoved a.name a.position (a.position + shift gone added)) ++
        gone.map fun a => .fieldRemoved a.name := by
  rw [RecordCompat.changes, spliced.additions, spliced.moves, spliced.removals,
    spliced.retypings, spliced.nullabilities, List.append_nil, List.append_nil]

end Spliced

/-- The new version has a further field at index `k`. -/
structure Inserted (old new : Record) (k : Nat) (f : Field) : Prop where
  inside : k ≤ old.fields.length
  fresh : f.name ∉ old.fieldNames
  after : new.fields = renumber (old.fields.insertIdx k f)

/-- The new version lacks the field at index `k`. -/
structure Deleted (old new : Record) (k : Nat) (f : Field) : Prop where
  there : old.fields[k]? = some f
  after : new.fields = renumber (old.fields.eraseIdx k)

variable {old new : Record} {k : Nat} {f : Field}

theorem Inserted.spliced (inserted : Inserted old new k f) :
    Spliced old new (old.fields.take k) [] [f] (old.fields.drop k) where
  before := by rw [List.append_nil, List.take_append_drop]
  after := by
    have split := List.modifyTailIdx_add (List.cons f) 0 (old.fields.take k) (old.fields.drop k)
    rw [List.length_take_of_le inserted.inside, List.take_append_drop] at split
    rw [inserted.after, List.append_assoc]
    exact congrArg renumber split
  fresh := List.forall_mem_singleton.mpr inserted.fresh
  shifts := by simp

theorem Deleted.spliced (deleted : Deleted old new k f) :
    Spliced old new (old.fields.take k) [f] [] (old.fields.drop (k + 1)) where
  before := by
    obtain ⟨inside, rfl⟩ := List.getElem?_eq_some_iff.mp deleted.there
    rw [List.append_assoc, List.singleton_append, List.getElem_cons_drop, List.take_append_drop]
  after := by rw [deleted.after, List.eraseIdx_eq_take_drop_succ, List.append_nil]
  fresh := List.forall_mem_nil _
  shifts := by simp

/-- What is found where one field is inserted or deleted, in this order and nothing else: the field
itself if it is inserted and required, each required field behind it as added where it is now,
each field behind it as moved, and the field itself if it is deleted. -/
theorem changes_of_one_edit (old new : Record) (k : Nat) (f : Field) :
    (Inserted old new k f → changes old new =
      (if Required f then [.fieldAdded f.name k] else []) ++
        ((old.fields.drop k).filter Required).map
          (fun a => .fieldAdded a.name (a.position + 1)) ++
        (old.fields.drop k).map fun a => .fieldMoved a.name a.position (a.position + 1)) ∧
    (Deleted old new k f → changes old new =
      ((old.fields.drop (k + 1)).filter Required).map
          (fun a => .fieldAdded a.name (a.position - 1)) ++
        (old.fields.drop (k + 1)).map
          (fun a => .fieldMoved a.name a.position (a.position - 1)) ++
        [.fieldRemoved f.name]) := by
  constructor
  · intro inserted
    have length : (old.fields.take k).length = k := List.length_take_of_le inserted.inside
    have itself : (([f].zipIdx (old.fields.take k).length).filter fun p => Required p.1).map
        (fun p => Change.fieldAdded p.1.name p.2) =
        if Required f then [.fieldAdded f.name k] else [] := by
      rw [length, List.zipIdx_singleton]
      split <;> simp_all
    rw [inserted.spliced.changes, itself]
    simp [Spliced.shift]
  · intro deleted
    rw [deleted.spliced.changes]
    simp [Spliced.shift, Int.sub_eq_add_neg]

/-- A required field comes between two others, and goes again. -/
theorem changes_of_inserted_age :
    let old := version [("id", false), ("name", false)]
    let new := version [("id", false), ("age", false), ("name", false)]
    let age : Field := ⟨"age", "Int", false, false, 1⟩
    (Inserted old new 1 age ∧
      changes old new = [.fieldAdded "age" 1, .fieldAdded "name" 2, .fieldMoved "name" 1 2]) ∧
    Deleted new old 1 age ∧
      changes new old = [.fieldAdded "name" 1, .fieldMoved "name" 2 1, .fieldRemoved "age"] := by
  intro old new age
  have inserted : Inserted old new 1 age := ⟨by decide, by decide, by decide⟩
  have deleted : Deleted new old 1 age := ⟨by decide, by decide⟩
  refine ⟨⟨inserted, ?_⟩, deleted, ?_⟩
  · rw [(changes_of_one_edit old new 1 age).1 inserted]
    decide
  · rw [(changes_of_one_edit new old 1 age).2 deleted]
    decide

end RecordCompat
