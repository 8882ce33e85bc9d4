import RecordCompat.Journal
import RecordCompat.Source.Comment
import RecordCompat.Source.Header
import RecordCompat.Source.Parameter
import RecordCompat.Source.Split

/-! The records that a source text declares. Comments are stripped first; then every header
whose parameter list is closed gives a record with the properties among its parameters, of
which the first of each name counts. Text that is no declaration is passed over. -/
namespace RecordCompat.Source

/-- A header and, where its parameter list is closed, the parameters in it. -/
structure Declaration where
  header : Header
  parameters? : Option (List Parameter)

def Parameter.property? : Parameter → Option Field
  | .property field => some field
  | _ => none

def declarationAt (code : List Char) (header : Header) : Declaration :=
  ⟨header, (bracketed? (code.drop header.stop)).map fun list =>
    (Source.parameters list).map Parameter.read⟩

def declarations (code : List Char) : List Declaration :=
  (headers code).map (declarationAt code)

def Declaration.record? (d : Declaration) : Option Record :=
  d.parameters?.map fun parameters =>
    Record.ofFirst d.header.name (parameters.filterMap Parameter.property?)

/-- What is reported about the parameters of a record whose field names so far are `seen`. -/
def parameterEvents (record : String) (seen : List String) : List Parameter → List Event
  | [] => []
  | .other :: rest => parameterEvents record seen rest
  | .untyped text :: rest => .parameterUntyped text :: parameterEvents record seen rest
  | .property field :: rest =>
    if field.name ∈ seen then
      .fieldRepeated record field.name :: parameterEvents record seen rest
    else parameterEvents record (field.name :: seen) rest

def Declaration.events (d : Declaration) : List Event :=
  match d.parameters? with
  | none => [.parametersNotClosed d.header.name]
  | some parameters => parameterEvents d.header.name [] parameters

/-- The records of a source text in order, and what is reported about it. -/
structure Extraction where
  records : List Record
  events : List Event

def extract (text : String) : Extraction :=
  let source := text.toList
  let found := declarations (stripComments source)
  let records := found.filterMap Declaration.record?
  let comment := (openComment? source).map Event.commentNotClosed
  ⟨records, comment.toList ++ found.flatMap Declaration.events ++ [.extracted records.length]⟩

end RecordCompat.Source
