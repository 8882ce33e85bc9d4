import RecordCompat.Text.Quoted

/-! What happened on the way to a result, told in events. An event belongs to a level and to
the part of the program that reports it, and has one wording. What is reported before a
failure stays reported. -/
namespace RecordCompat

inductive Level
  | debug
  | info
  | warning
  deriving DecidableEq, Repr

def Level.label : Level → String
  | .debug => "DEBUG"
  | .info => "INFO"
  | .warning => "WARNING"

inductive Event
  | commentNotClosed (offset : Nat)
  | parametersNotClosed (record : String)
  | fieldRepeated (record field : String)
  | parameterUntyped (text : String)
  | extracted (records : Nat)
  | recordRepeated (name source label : String)
  | sourcesCompared (label : String) (records : Nat) (breaking : Bool)
  | filesExcluded (root : String) (count : Nat)
  | sourcesDiscovered (old new pairs : Nat)
  | recordsGathered (label : String) (old new : Nat)
  | checkCompleted (records : Nat) (breaking : Bool)
  | argumentsRejected (arguments : List String)
  | outputNeedsJson (format : String)
  | inputRejected (reason : String)
  | outputNotWritten (path reason : String)
  deriving DecidableEq, Repr

namespace Event

def level : Event → Level
  | sourcesDiscovered .. | checkCompleted .. => .info
  | argumentsRejected .. | outputNeedsJson .. | inputRejected .. | outputNotWritten .. => .warning
  | _ => .debug

/-- The part of the program that reports an event. -/
def reporter : Event → String
  | commentNotClosed .. => "dcc.normalizer"
  | parametersNotClosed .. | fieldRepeated .. | parameterUntyped .. | extracted .. =>
    "dcc.extractor"
  | recordRepeated .. | sourcesCompared .. => "dcc.comparator"
  | filesExcluded .. | sourcesDiscovered .. => "dcc.discovery"
  | _ => "cli.dcc_cli"

def yesNo (b : Bool) : String :=
  if b then "True" else "False"

def message : Event → String
  | commentNotClosed offset =>
    "Unterminated block comment runs to end of input (offset=" ++ toString offset ++ ")"
  | parametersNotClosed record =>
    "Skipping data class with unbalanced parameter list (name=" ++ record ++ ")"
  | fieldRepeated record field =>
    "Ignoring duplicate field declaration (record=" ++ record ++ " field=" ++ field ++ ")"
  | parameterUntyped text =>
    "Skipping parameter without a type (chunk=" ++ Text.quoted text ++ ")"
  | extracted records => "Extraction finished (records=" ++ toString records ++ ")"
  | recordRepeated name source label =>
    "Ignoring duplicate data class declaration (name=" ++ name ++ " source=" ++ source ++
      " label=" ++ label ++ ")"
  | sourcesCompared label records breaking =>
    "Source comparison finished (label=" ++ label ++ " records=" ++ toString records ++
      " breaking=" ++ yesNo breaking ++ ")"
  | filesExcluded root count =>
    "Excluded files (root=" ++ root ++ " skipped=" ++ toString count ++ ")"
  | sourcesDiscovered old new pairs =>
    "Source discovery completed (old_files=" ++ toString old ++ " new_files=" ++ toString new ++
      " pairs=" ++ toString pairs ++ ")"
  | recordsGathered label old new =>
    "Extracted data classes (label=" ++ label ++ " old=" ++ toString old ++ " new=" ++
      toString new ++ ")"
  | checkCompleted records breaking =>
    "Compatibility check completed (records=" ++ toString records ++ " breaking=" ++
      yesNo breaking ++ ")"
  | argumentsRejected arguments =>
    "Argument parsing failed (argv=" ++ Text.quotedList arguments ++ ")"
  | outputNeedsJson format => "Output file requires JSON format (format=" ++ format ++ ")"
  | inputRejected reason => "Input check failed (error=" ++ reason ++ ")"
  | outputNotWritten path reason =>
    "Failed to write JSON output file (output_path=" ++ path ++ " error=" ++ reason ++ ")"

def line (e : Event) : String :=
  e.level.label ++ " " ++ e.reporter ++ ": " ++ e.message

end Event

/-- A result, if there is one, and what was reported before it or before the failure. -/
structure Logged (ε α : Type) where
  result : Except ε α
  events : List Event

namespace Logged

variable {ε δ α β : Type}

def fail (error : ε) : Logged ε α :=
  ⟨.error error, []⟩

def andThen (first : Logged ε α) (next : α → Logged ε β) : Logged ε β :=
  match first.result with
  | .error e => ⟨.error e, first.events⟩
  | .ok a => ⟨(next a).result, first.events ++ (next a).events⟩

instance : Monad (Logged ε) where
  pure a := ⟨.ok a, []⟩
  bind := andThen

def tell (events : List Event) : Logged ε Unit :=
  ⟨.ok (), events⟩

def mapError (f : ε → δ) (logged : Logged ε α) : Logged δ α :=
  ⟨logged.result.mapError f, logged.events⟩

end Logged

end RecordCompat
