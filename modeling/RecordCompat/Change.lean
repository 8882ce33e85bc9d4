import RecordCompat.Record

/-! Five rules compare two versions. Added fields are found by position: what callers pass
positionally arrives at the field of the same index, so a field that has taken over an
index needs a default or has to be nullable. The other rules align fields by name. The
rules run independently of each other, in the order of the constructors of `Change`. -/
namespace RecordCompat

inductive Severity
  | safe
  | warning
  | breaking
  deriving DecidableEq, Repr

namespace Severity

def label : Severity → String
  | safe => "SAFE"
  | warning => "WARNING"
  | breaking => "BREAKING"

def ofLabel? (label : String) : Option Severity :=
  [safe, warning, breaking].find? (·.label = label)

def rank : Severity → Nat
  | safe => 0
  | warning => 1
  | breaking => 2

def worse (a b : Severity) : Severity :=
  if a.rank ≤ b.rank then b else a

end Severity

structure Finding where
  severity : Severity
  kind : String
  message : String
  field? : Option String
  deriving DecidableEq, Repr

def Finding.isBreaking (f : Finding) : Bool :=
  f.severity == .breaking

inductive Change
  | fieldAdded (field : String) (position : Int)
  | fieldMoved (field : String) (old new : Int)
  | fieldRemoved (field : String)
  | typeChanged (field old new : String)
  | nullabilityChanged (field : String) (nullable : Bool)
  | recordRemoved (record : String)
  deriving DecidableEq, Repr

namespace Change

def severity : Change → Severity
  | fieldMoved .. => .warning
  | nullabilityChanged _ nullable => if nullable then .safe else .breaking
  | _ => .breaking

def kind : Change → String
  | fieldAdded .. => "field_added"
  | fieldMoved .. => "field_moved"
  | fieldRemoved .. => "field_removed"
  | typeChanged .. => "type_changed"
  | nullabilityChanged .. => "nullability_changed"
  | recordRemoved .. => "record_removed"

def field? : Change → Option String
  | fieldAdded field _ | fieldMoved field _ _ | fieldRemoved field | typeChanged field _ _
  | nullabilityChanged field _ => some field
  | recordRemoved _ => none

def message : Change → String
  | fieldAdded field position =>
    "Field '" ++ field ++ "' added at position " ++ toString position ++ " with no default value"
  | fieldMoved field old new =>
    "Field '" ++ field ++ "' moved from position " ++ toString old ++ " to position " ++
      toString new
  | fieldRemoved field => "Field '" ++ field ++ "' removed"
  | typeChanged field old new =>
    "Type of '" ++ field ++ "' changed from " ++ old ++ " to " ++ new
  | nullabilityChanged field nullable =>
    if nullable then "Field '" ++ field ++ "' is now nullable (less restrictive)"
    else "Field '" ++ field ++ "' changed from nullable to non-nullable"
  | recordRemoved record => "Data class '" ++ record ++ "' removed"

def finding (c : Change) : Finding :=
  ⟨c.severity, c.kind, c.message, c.field?⟩

end Change

/-- The fields of the old version that the new one still has, each with its new form. -/
def sharedFields (old new : Record) : List (Field × Field) :=
  old.fields.filterMap fun field => (new.field? field.name).map (field, ·)

/-- Whether a field of the new version stands where the old one has a field of its name. -/
def keepsPlace (old : Record) (index : Nat) (field : Field) : Bool :=
  old.fields[index]?.any (·.name = field.name)

def additions (old new : Record) : List Change :=
  (new.fields.zipIdx.filter fun (field, index) =>
      !keepsPlace old index field && !field.hasDefault && !field.nullable).map
    fun (field, index) => .fieldAdded field.name index

def moves (old new : Record) : List Change :=
  ((sharedFields old new).filter fun (a, b) => a.position ≠ b.position).map
    fun (a, b) => .fieldMoved a.name a.position b.position

def removals (old new : Record) : List Change :=
  (old.fields.filter fun field => new.field? field.name = none).map
    fun field => .fieldRemoved field.name

def retypings (old new : Record) : List Change :=
  ((sharedFields old new).filter fun (a, b) => a.type ≠ b.type).map
    fun (a, b) => .typeChanged a.name a.type b.type

def nullabilities (old new : Record) : List Change :=
  ((sharedFields old new).filter fun (a, b) => a.nullable ≠ b.nullable).map
    fun (a, b) => .nullabilityChanged a.name b.nullable

/-- Every difference between two versions of a record. -/
def changes (old new : Record) : List Change :=
  additions old new ++ moves old new ++ removals old new ++ retypings old new ++
    nullabilities old new

end RecordCompat
