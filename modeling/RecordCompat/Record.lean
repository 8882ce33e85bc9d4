import RecordCompat.FirstBy

/-! A record is the shape of a data class: its name and its fields in the order of their
declaration. Each field carries its index as position, and no two have the same name; both
facts are part of the type. A record also remembers the file it comes from, which is no
part of its shape. -/
namespace RecordCompat

structure Field where
  name : String
  /-- The type as written, without the question mark that makes it nullable. -/
  type : String
  nullable : Bool
  hasDefault : Bool
  /-- The index of the field. Fields that are no part of a record yet may claim any. -/
  position : Int
  deriving DecidableEq, Repr

/-- Every field claims its own index. -/
def Placed (fields : List Field) : Prop :=
  ∀ (i : Nat) (h : i < fields.length), fields[i].position = i

structure Record where
  name : String
  fields : List Field
  /-- The file of the record, empty when only one file is looked at. -/
  source : String
  placed : Placed fields
  distinct : (fields.map Field.name).Nodup

inductive RecordError
  | misplaced (field record : String) (position : Int) (index : Nat)
  | repeated (field record : String)
  deriving DecidableEq, Repr

def RecordError.message : RecordError → String
  | .misplaced field record position index =>
    "Field '" ++ field ++ "' of '" ++ record ++ "' has position " ++ toString position ++
      ", expected " ++ toString index ++ "."
  | .repeated field record => "Field '" ++ field ++ "' of '" ++ record ++ "' is not unique."

/-- The first fault of a list of fields behind those already `seen`. -/
def fault? (record : String) (seen : List String) : List Field → Option RecordError
  | [] => none
  | field :: rest =>
    if field.position ≠ seen.length then
      some (.misplaced field.name record field.position seen.length)
    else if field.name ∈ seen then some (.repeated field.name record)
    else fault? record (seen ++ [field.name]) rest

theorem placed_distinct_of_fault? {record : String} {seen : List String} {fields : List Field}
    (fresh : seen.Nodup) (h : fault? record seen fields = none) :
    (∀ (i : Nat) (h : i < fields.length), fields[i].position = (seen.length + i : Nat)) ∧
      (seen ++ fields.map Field.name).Nodup := by
  induction fields generalizing seen with
  | nil => exact ⟨fun i h => absurd h (Nat.not_lt_zero i), by simpa using fresh⟩
  | cons field rest ih =>
    simp only [fault?] at h
    split at h
    · cases h
    · rename_i here
      split at h
      · cases h
      · rename_i new
        have fresh' : (seen ++ [field.name]).Nodup := by
          rw [List.nodup_append]
          exact ⟨fresh, by simp, fun a ha b hb e => new (by simp_all)⟩
        obtain ⟨positions, names⟩ := ih fresh' h
        refine ⟨fun i hi => ?_, by simpa using names⟩
        cases i with
        | zero => simpa using here
        | succ i =>
          have := positions i (by simpa using hi)
          simp only [List.length_append, List.length_cons, List.length_nil] at this
          simp only [List.getElem_cons_succ, this]
          omega

theorem fault?_eq_none {record : String} {seen : List String} {fields : List Field}
    (placed : ∀ (i : Nat) (h : i < fields.length), fields[i].position = (seen.length + i : Nat))
    (distinct : (seen ++ fields.map Field.name).Nodup) : fault? record seen fields = none := by
  induction fields generalizing seen with
  | nil => rfl
  | cons field rest ih =>
    have here : field.position = seen.length := placed 0 (Nat.zero_lt_succ _)
    have fresh : field.name ∉ seen := fun member =>
      (List.nodup_append.mp distinct).2.2 _ member _ (by simp) rfl
    rw [fault?, if_neg (not_not_intro here), if_neg fresh]
    apply ih
    · intro i h
      have position := placed (i + 1) (by simpa using h)
      rw [List.getElem_cons_succ] at position
      rw [position, List.length_append, List.length_singleton, Nat.add_assoc, Nat.add_comm 1]
    · simpa using distinct

namespace Record

/-- The record of fields that claim their positions, or the first fault. -/
def ofFields? (name : String) (fields : List Field) (source : String) :
    Except RecordError Record :=
  match h : fault? name [] fields with
  | some e => .error e
  | none =>
    have facts := placed_distinct_of_fault? List.nodup_nil h
    .ok ⟨name, fields, source, fun i hi => by simpa using facts.1 i hi, by simpa using facts.2⟩

end Record

def renumber (fields : List Field) : List Field :=
  fields.mapIdx fun i field => { field with position := i }

theorem placed_renumber (fields : List Field) : Placed (renumber fields) := by
  intro i h
  simp [renumber]

@[simp] theorem map_name_renumber (fields : List Field) :
    (renumber fields).map Field.name = fields.map Field.name := by
  apply List.ext_getElem <;> simp [renumber]

namespace Record

/-- The record of fields in the given order, whatever positions they claim. -/
def build? (name : String) (fields : List Field) (source : String) :
    Except RecordError Record :=
  ofFields? name (renumber fields) source

/-- The record that keeps the first field of each name. -/
def ofFirst (name : String) (fields : List Field) : Record :=
  ⟨name, renumber (firstBy Field.name fields), "", placed_renumber _,
    by rw [map_name_renumber]; exact nodup_map_firstBy _ _⟩

theorem ofFields?_self (r : Record) : ofFields? r.name r.fields r.source = .ok r := by
  have sound : fault? r.name [] r.fields = none :=
    fault?_eq_none (fun i h => by simpa using r.placed i h) r.distinct
  unfold ofFields?
  split
  next e fault =>
    rw [sound] at fault
    cases fault
  next => rfl

/-- Fields of which each name is kept once make a record. -/
theorem build?_firstBy (name : String) (fields : List Field) :
    build? name (firstBy Field.name fields) "" = .ok (ofFirst name fields) :=
  ofFields?_self (ofFirst name fields)

def fieldNames (r : Record) : List String :=
  r.fields.map Field.name

def field? (r : Record) (name : String) : Option Field :=
  r.fields.find? (·.name = name)

/-- Records of the same shape; where they come from does not matter. -/
def SameShape (a b : Record) : Prop :=
  a.name = b.name ∧ a.fields = b.fields

instance (a b : Record) : Decidable (SameShape a b) :=
  inferInstanceAs (Decidable (_ ∧ _))

/-- What tells the records of one version apart. -/
def key (r : Record) : String × String :=
  (r.source, r.name)

def withSource (r : Record) (source : String) : Record :=
  { r with source := source }

end Record

end RecordCompat
