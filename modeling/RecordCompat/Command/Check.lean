import RecordCompat.Command.Arguments
import RecordCompat.Files.Discovery
import RecordCompat.Source.Extraction
import RecordCompat.Terminal
import RecordCompat.Text.Utf8

/-! Runs the command line on a disk: reads the arguments, gathers the records of the two
sources, compares them and reports. Everything that happens is in the value of a run: the
verdict, what was written to each stream, what was reported to the journal, and the disk as
it is left. Directories are compared as a whole, so classes may move between their files. -/
namespace RecordCompat.Command

open Files

inductive InputError
  | missing (path : Path)
  | mixed (old new : Path)
  | unopened (path : Path) (error : WriteError)
  | unreadable (path : Path) (error : Text.Utf8.DecodeError)
  deriving DecidableEq, Repr

def InputError.message : InputError → String
  | .missing path => "Path does not exist: " ++ path.toString
  | .mixed old new =>
    "Paths must both be files or both be directories: " ++ old.toString ++ ", " ++ new.toString
  | .unopened path error =>
    "Cannot read source file: " ++ path.toString ++ " (" ++ error.message ++ ")"
  | .unreadable path error =>
    "Cannot read source file: " ++ path.toString ++ " (" ++ error.message ++ ")"

/-- Why a run ends without a verdict. -/
inductive Fault
  | discovery (error : DiscoveryError)
  /-- An operand names nothing. -/
  | nothingNamed
  | tooLong (error : NameTooLong)
  /-- A path to be opened holds the character that no path can hold. In a run it is the output. -/
  | nulInOutput
  deriving DecidableEq, Repr

def Fault.message? : Fault → Option String
  | .discovery error => error.message?
  | .nothingNamed => some "expected str, bytes or os.PathLike object, not list"
  | .tooLong error => some error.message
  | .nulInOutput => some WriteError.holdsNul.message

inductive Failure
  | input (error : InputError)
  | fault (fault : Fault)
  deriving DecidableEq, Repr

/-- What a part of a run comes to, and what it reports. -/
abbrev Attempt := Logged Failure

/-- The text of a file; a file that is only in the other tree reads as an empty one. A run reads
only what it has found to be a file before. -/
def sourceText (disk : Disk) : Option Path → Attempt String
  | none => pure ""
  | some path =>
    match disk.node? path with
    | .ok (some (.file bytes)) =>
      match Text.readText bytes with
      | .ok text => pure text
      | .error e => .fail (.input (.unreadable path e))
    | _ =>
      match disk.readError path with
      | .holdsNul => .fail (.fault .nulInOutput)
      | e => .fail (.input (.unopened path e))

def extractFile (disk : Disk) (path : Option Path) : Attempt (List Record) := do
  let extraction := Source.extract (← sourceText disk path)
  .tell extraction.events
  return extraction.records

def extractPairs (disk : Disk) : List SourcePair → Attempt (List Record × List Record)
  | [] => pure ([], [])
  | pair :: rest => do
    let old ← extractFile disk pair.old?
    let new ← extractFile disk pair.new?
    let later ← extractPairs disk rest
    return (old.map (·.withSource pair.path) ++ later.1,
      new.map (·.withSource pair.path) ++ later.2)

def discoverPairs (disk : Disk) (old new : Path) (options : Options) :
    Attempt (List SourcePair) :=
  (discover disk old new options.pattern options.exclude).mapError (.fault ∘ .discovery)

def nodeAt (disk : Disk) (path : Path) : Attempt Disk.Node :=
  match disk.node? path with
  | .error e => .fail (.fault (.tooLong e))
  | .ok none => .fail (.input (.missing path))
  | .ok (some node) => pure node

/-- The records of the two sources, which are both directories or both files. -/
def gatherFrom (disk : Disk) (old new : Path) (options : Options) :
    Attempt SourceComparison := do
  let oldNode ← nodeAt disk old
  let newNode ← nodeAt disk new
  match oldNode, newNode with
  | .directory, .directory => do
    let pairs ← discoverPairs disk old new options
    let records ← extractPairs disk pairs
    return ⟨old.toString ++ " -> " ++ new.toString, records.1, records.2⟩
  | .file _, .file _ => do
    let oldRecords ← extractFile disk old
    let newRecords ← extractFile disk new
    return ⟨new.name, oldRecords, newRecords⟩
  | _, _ => .fail (.input (.mixed old new))

def gather (disk : Disk) (options : Options) : Attempt SourceComparison :=
  match options.old?, options.new? with
  | some old, some new => gatherFrom disk (.ofString old) (.ofString new) options
  | _, _ => .fail (.fault .nothingNamed)

def buildReport (disk : Disk) (options : Options) : Attempt Report := do
  let source ← gather disk options
  .tell [.recordsGathered source.label source.old.length source.new.length]
  .tell source.events
  return ⟨[source]⟩

structure Run where
  /-- The exit code: 0 when no change is breaking, 1 when one is or the input is refused. -/
  exit : Except Fault Nat
  out : String
  err : String
  /-- Usage texts are written to streams of their own. -/
  usageOut : String
  usageErr : String
  events : List Event
  disk : Disk

namespace Run

def quiet (disk : Disk) (events : List Event) (exit : Nat) : Run :=
  ⟨.ok exit, "", "", "", "", events, disk⟩

end Run

def exitCode (report : Report) : Nat :=
  if report.isBreaking then 1 else 0

def jsonText (report : Report) : String :=
  (report.toJson Report.remedies).render

def writeReport (disk : Disk) (events : List Event) (output : String) (report : Report) :
    Run :=
  match disk.write (Path.ofString output) (jsonText report).toUTF8.toList with
  | (disk, none) => Run.quiet disk events (exitCode report)
  | (disk, some .holdsNul) => { Run.quiet disk events 1 with exit := .error .nulInOutput }
  | (disk, some e) =>
    { Run.quiet disk (events ++ [.outputNotWritten output e.message]) 1 with
      err := "Failed to write JSON output file: " ++ output ++ "\n" }

/-- Delivers a report in the format asked for. A document for the output stream is written there
as it is: codes such as `:cat:`, which a console may show as emoji, are not looked for in it. -/
def deliver (disk : Disk) (events : List Event) (options : Options) (report : Report) : Run :=
  match options.format? with
  | none | some .text =>
    { Run.quiet disk events (exitCode report) with out := Terminal.report report }
  | some .json =>
    let output := options.output?.getD ""
    if output = "" then
      { Run.quiet disk events (exitCode report) with out := jsonText report ++ "\n" }
    else writeReport disk events output report

def completed (report : Report) : Event :=
  .checkCompleted ((report.sources.head?.map fun s => s.comparisons.length).getD 0)
    report.isBreaking

def check (disk : Disk) (options : Options) : Run :=
  if options.output?.getD "" ≠ "" ∧ options.format? ≠ some .json then
    { Run.quiet disk [.outputNeedsJson options.formatLabel] 1 with
      err := "--output requires --format json\n" }
  else
    let attempt := buildReport disk options
    match attempt.result with
    | .ok report => deliver disk (attempt.events ++ [completed report]) options report
    | .error (.fault fault) => { Run.quiet disk attempt.events 1 with exit := .error fault }
    | .error (.input e) =>
      { Run.quiet disk (attempt.events ++ [.inputRejected e.message]) 1 with
        err := e.message ++ "\n" }

/-- Whether an event is reported when details are not asked for. -/
def isReported (e : Event) : Bool :=
  e.level != .debug

/-- Runs the command line. -/
def run (disk : Disk) (arguments : List String) : Run :=
  match Options.read arguments with
  | .error .help => { Run.quiet disk [] 0 with usageOut := help }
  | .error (.error e) =>
    { Run.quiet disk [.argumentsRejected arguments] 1 with
      usageErr := usage ++ "dcc: error: " ++ e.message ++ "\n" }
  | .ok options =>
    let full := check disk options
    if options.verbose then full
    else { full with events := full.events.filter isReported }

end RecordCompat.Command
