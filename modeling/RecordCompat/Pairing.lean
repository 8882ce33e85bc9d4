import RecordCompat.Change
import RecordCompat.FirstBy

/-! Records are paired by name. A record of the old version takes the new record of the same
name from the same file, or else the first one of that name that is still free, so a class
that has moved to another file is compared and not reported as removed. Of records that
share name and file only the first takes part. -/
namespace RecordCompat

inductive Outcome
  | compared (old new : Record)
  | removed (old : Record)
  | added (new : Record)

/-- The first item that satisfies `p`, and the other items in their order. -/
def takeFirst? {α : Type} (p : α → Bool) : List α → Option (α × List α)
  | [] => none
  | a :: rest =>
    if p a then some (a, rest)
    else (takeFirst? p rest).map fun (found, others) => (found, a :: others)

/-- The partner of an old record among the free new ones, and those that stay free. -/
def claim? (old : Record) (free : List Record) : Option (Record × List Record) :=
  takeFirst? (fun new => new.name = old.name ∧ new.source = old.source) free <|>
    takeFirst? (fun new => new.name = old.name) free

def pairRecords : List Record → List Record → List Outcome
  | [], free => free.map .added
  | old :: rest, free =>
    match claim? old free with
    | some (new, free) => .compared old new :: pairRecords rest free
    | none => .removed old :: pairRecords rest free

/-- The outcomes for two versions: old records in order, then new ones without a partner. -/
def outcomes (old new : List Record) : List Outcome :=
  pairRecords (firstBy Record.key old) (firstBy Record.key new)

end RecordCompat
