import RecordCompat.Journal
import RecordCompat.Pairing

/-! The reported form of an outcome, and the comparison of all records of two versions of a
source. -/
namespace RecordCompat

/-- How a record stands in the two versions. Comparisons made elsewhere may carry a status
of their own. -/
inductive Status
  | compared
  | removed
  | added
  | other (label : String)
  deriving DecidableEq, Repr

namespace Status

def label : Status → String
  | compared => "compared"
  | removed => "removed"
  | added => "added"
  | other label => label

def ofLabel (label : String) : Status :=
  (([compared, removed, added] : List Status).find? (·.label = label)).getD (other label)

end Status

structure Comparison where
  name : String
  status : Status
  findings : List Finding
  oldSource? : Option String
  newSource? : Option String
  deriving DecidableEq, Repr

namespace Comparison

def isBreaking (c : Comparison) : Bool :=
  c.findings.any Finding.isBreaking

def highestSeverity? (c : Comparison) : Option Severity :=
  match c.findings with
  | [] => none
  | f :: rest => some (rest.foldl (fun s f => s.worse f.severity) f.severity)

/-- Where the record lives; both places if it has moved. -/
def location (c : Comparison) : String :=
  match (c.oldSource?.toList ++ c.newSource?.toList).filter (· ≠ "") with
  | [] => ""
  | [place] => place
  | old :: new :: _ => if old = new then old else old ++ " -> " ++ new

end Comparison

def Record.source? (r : Record) : Option String :=
  if r.source = "" then none else some r.source

def Outcome.comparison : Outcome → Comparison
  | .compared old new =>
    ⟨old.name, .compared, (changes old new).map Change.finding, old.source?, new.source?⟩
  | .removed old =>
    ⟨old.name, .removed, [(Change.recordRemoved old.name).finding], old.source?, none⟩
  | .added new => ⟨new.name, .added, [], none, new.source?⟩

/-- Two versions of a source, each a list of records. -/
structure SourceComparison where
  label : String
  old : List Record
  new : List Record

namespace SourceComparison

def comparisons (s : SourceComparison) : List Comparison :=
  (outcomes s.old s.new).map Outcome.comparison

def isBreaking (s : SourceComparison) : Bool :=
  s.comparisons.any Comparison.isBreaking

def isEmpty (s : SourceComparison) : Bool :=
  s.old.isEmpty && s.new.isEmpty

def events (s : SourceComparison) : List Event :=
  (repeatsBy Record.key [] s.old ++ repeatsBy Record.key [] s.new).map
      (fun r => .recordRepeated r.name r.source s.label) ++
    [.sourcesCompared s.label s.comparisons.length s.isBreaking]

end SourceComparison

end RecordCompat
