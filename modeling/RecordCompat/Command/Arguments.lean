import RecordCompat.Text.Quoted
import RecordCompat.Text.Word

/-! Two operands, the old and the new source, and options. The name of a long option may be
cut short as long as it fits one option only. A value follows its option or is attached to
it with an equals sign. Behind the argument `--` everything is an operand; in front of it
an argument that starts with a hyphen is an option, unless it is a lone hyphen, a negative
number or no option's name and holds a blank.

The text `--` is never a value itself. Attached to an option it leaves the option without a
value. Behind the first `--` it is an operand that names nothing, unless the first `--`
stands right in front of it and no operand right in front of that.

Options are obeyed in order, so a request for help counts when no earlier argument is
refused. -/
namespace RecordCompat.Command

inductive Flag
  | help
  | format
  | output
  | pattern
  | exclude
  | verbose
  deriving DecidableEq, Repr

def spellings : List (String × Flag) :=
  [("-h", .help), ("--help", .help), ("--format", .format), ("--output", .output),
    ("--pattern", .pattern), ("--exclude", .exclude), ("--verbose", .verbose)]

def Flag.label (flag : Flag) : String :=
  "/".intercalate ((spellings.filter (·.2 = flag)).map Prod.fst)

inductive Format
  | text
  | json
  deriving DecidableEq, Repr

def Format.label : Format → String
  | .text => "text"
  | .json => "json"

inductive ArgumentError
  | ambiguous (argument : String) (options : List String)
  | valueMissing (flag : Flag)
  | valueUnwanted (flag : Flag) (value : String)
  | formatUnknown (value : String)
  | operandsMissing (names : List String)
  | unrecognized (arguments : List String)
  deriving DecidableEq, Repr

def ArgumentError.message : ArgumentError → String
  | .ambiguous argument options =>
    "ambiguous option: " ++ argument ++ " could match " ++ ", ".intercalate options
  | .valueMissing flag => "argument " ++ flag.label ++ ": expected one argument"
  | .valueUnwanted flag value =>
    "argument " ++ flag.label ++ ": ignored explicit argument " ++ Text.quoted value
  | .formatUnknown value =>
    "argument --format: invalid choice: " ++ Text.quoted value ++ " (choose from " ++
      ", ".intercalate ([Format.text, .json].map fun f => Text.quoted f.label) ++ ")"
  | .operandsMissing names =>
    "the following arguments are required: " ++ ", ".intercalate names
  | .unrecognized arguments => "unrecognized arguments: " ++ " ".intercalate arguments

inductive Token
  | operand (text : String)
  | flag (flag : Flag)
  /-- An option with an attached value. -/
  | assigned (flag : Flag) (value : String)
  /-- The letters behind `-h`, which are taken for options of one letter. -/
  | cluster (letters : List Char)
  | unknown (text : String)
  deriving DecidableEq, Repr

/-- Whole or decimal numbers behind a hyphen. -/
def isNegativeNumber (text : List Char) : Bool :=
  match text with
  | '-' :: number =>
    let number := if number.getLast? = some '\n' then number.dropLast else number
    match number.dropWhile Text.isDigit with
    | [] => number ≠ []
    | '.' :: fraction => fraction ≠ [] && fraction.all Text.isDigit
    | _ => false
  | _ => false

/-- An argument at its first equals sign. -/
def divide (text : List Char) : String × Option String :=
  let name := String.ofList (text.takeWhile (· ≠ '='))
  match text.dropWhile (· ≠ '=') with
  | [] => (name, none)
  | _ :: value => (name, some (String.ofList value))

def Token.ofFlag (flag : Flag) : Option String → Token
  | none => .flag flag
  | some value => .assigned flag value

/-- What follows `-h` in one argument. An equals sign may set the letters apart. -/
def Token.behindHelp : List Char → Token
  | ['='] => .assigned .help ""
  | '=' :: letters => .cluster letters
  | letters => .cluster letters

/-- An argument that starts with a hyphen and is no option as it stands. -/
def Token.leftover (text : String) : Token :=
  if isNegativeNumber text.toList || text.toList.contains ' ' then .operand text
  else .unknown text

def Token.read (text : String) : Except ArgumentError Token :=
  match spellings.lookup text, text.toList with
  | some option, _ => .ok (.flag option)
  | none, '-' :: '-' :: _ =>
    let (name, value) := divide text.toList
    match spellings.lookup name with
    | some option => .ok (.ofFlag option value)
    | none =>
      match spellings.filter fun (spelling, _) => name.toList <+: spelling.toList with
      | [] => .ok (.leftover text)
      | [(_, option)] => .ok (.ofFlag option value)
      | several => .error (.ambiguous text (several.map Prod.fst))
  | none, '-' :: 'h' :: rest => .ok (.behindHelp rest)
  | none, '-' :: _ :: _ => .ok (.leftover text)
  | none, _ => .ok (.operand text)

structure Options where
  /-- The operands, which may name nothing. -/
  old? : Option String
  new? : Option String
  /-- The format, if the option for it was not left without a value. -/
  format? : Option Format
  output? : Option String
  pattern : String
  exclude : List String
  verbose : Bool
  deriving DecidableEq, Repr

def Options.formatLabel (options : Options) : String :=
  (options.format?.map Format.label).getD "[]"

inductive Refusal
  | help
  | error (error : ArgumentError)
  deriving DecidableEq, Repr

structure Draft where
  operands : List (Option String)
  extras : List String
  /-- Whether the argument before was accepted as an operand. -/
  afterOperand : Bool
  format? : Option Format
  output? : Option String
  pattern : String
  exclude : List String
  verbose : Bool

namespace Draft

def empty : Draft :=
  ⟨[], [], false, some .text, none, "*.kt", [], false⟩

def addExtra (draft : Draft) (text : String) : Draft :=
  { draft with extras := draft.extras ++ [text], afterOperand := false }

/-- Adds an argument that is an operand unless there are two already. `name?` is what it names
as an operand. -/
def addOperand (draft : Draft) (text : String) (name? : Option String) : Draft :=
  if draft.operands.length < 2 then
    { draft with operands := draft.operands ++ [name?], afterOperand := true }
  else draft.addExtra text

def addBehind (draft : Draft) (arguments : List String) : Draft :=
  arguments.foldl (fun draft text =>
    draft.addOperand text (if text = "--" then none else some text)) draft

/-- Adds `--` and the arguments behind it. It belongs to the operand right in front of it or
else to the next one; where there is neither, it is not understood. -/
def addRest (draft : Draft) : List String → Draft
  | [] => draft
  | separator :: behind =>
    if draft.afterOperand then draft.addBehind behind
    else
      match behind with
      | text :: later =>
        if draft.operands.length < 2 then
          (draft.addOperand text (some text)).addBehind later
        else (draft.addExtra separator).addBehind behind
      | [] => draft.addExtra separator

def set (draft : Draft) (flag : Flag) (value : String) : Except Refusal Draft :=
  let draft := { draft with afterOperand := false }
  match flag with
  | .format =>
    match [Format.text, .json].find? (·.label = value) with
    | some format => .ok { draft with format? := some format }
    | none => .error (.error (.formatUnknown value))
  | .output => .ok { draft with output? := some value }
  | .pattern => .ok { draft with pattern := value }
  | .exclude => .ok { draft with exclude := draft.exclude ++ [value] }
  | .help | .verbose => .error (.error (.valueUnwanted flag value))

/-- Leaves an option without a value. Without a pattern no file is found. -/
def clear (draft : Draft) (flag : Flag) : Except Refusal Draft :=
  let draft := { draft with afterOperand := false }
  match flag with
  | .format => .ok { draft with format? := none }
  | .output => .ok { draft with output? := none }
  | .pattern => .ok { draft with pattern := "" }
  | .exclude => .ok draft
  | .help | .verbose => .error (.error (.valueUnwanted flag "--"))

def attach (draft : Draft) (flag : Flag) (value : String) : Except Refusal Draft :=
  if value = "--" then draft.clear flag else draft.set flag value

end Draft

/-- What follows from letters behind `-h`: help, where all of them ask for it. -/
def clusterRefusal (letters : List Char) : Refusal :=
  match letters.dropWhile (· = 'h') with
  | [] => .help
  | others => .error (.valueUnwanted .help (String.ofList others))

/-- Obeys the arguments in front of `--`. -/
def obey (draft : Draft) : List Token → Except Refusal Draft
  | [] => .ok draft
  | .operand text :: rest => obey (draft.addOperand text (some text)) rest
  | .unknown text :: rest => obey (draft.addExtra text) rest
  | .cluster letters :: _ => .error (clusterRefusal letters)
  | .assigned flag value :: rest => do obey (← draft.attach flag value) rest
  | .flag .help :: _ => .error .help
  | .flag .verbose :: rest => obey { draft with verbose := true, afterOperand := false } rest
  | .flag flag :: .operand value :: rest => do obey (← draft.set flag value) rest
  | .flag flag :: _ => .error (.error (.valueMissing flag))

def Draft.finish (draft : Draft) : Except Refusal Options :=
  match draft.operands with
  | [old?, new?] =>
    if draft.extras = [] then
      .ok ⟨old?, new?, draft.format?, draft.output?, draft.pattern, draft.exclude, draft.verbose⟩
    else .error (.error (.unrecognized draft.extras))
  | [_] => .error (.error (.operandsMissing ["new"]))
  | _ => .error (.error (.operandsMissing ["old", "new"]))

def Options.read (arguments : List String) : Except Refusal Options := do
  let front := arguments.takeWhile (· ≠ "--")
  let behind := arguments.dropWhile (· ≠ "--")
  match front.mapM Token.read with
  | .error e => .error (.error e)
  | .ok tokens => ((← obey .empty tokens).addRest behind).finish

def usage : String :=
  "usage: dcc [-h] [--format \x7btext,json\x7d] [--output OUTPUT] [--pattern PATTERN]\n" ++
  "           [--exclude EXCLUDE] [--verbose]\n" ++
  "           old new\n"

def help : String :=
  usage ++ "\n" ++
  "Detect breaking changes between two versions of data classes.\n" ++
  "\n" ++
  "positional arguments:\n" ++
  "  old                   Old source file or directory.\n" ++
  "  new                   New source file or directory.\n" ++
  "\n" ++
  "options:\n" ++
  "  -h, --help            show this help message and exit\n" ++
  "  --format \x7btext,json\x7d  Output format.\n" ++
  "  --output OUTPUT       Optional output file path for raw JSON when --format\n" ++
  "                        json is used.\n" ++
  "  --pattern PATTERN     File glob used when comparing directories.\n" ++
  "  --exclude EXCLUDE     Gitignore-style pattern to skip when comparing\n" ++
  "                        directories. Repeatable.\n" ++
  "  --verbose             Enable debug logging.\n"

end RecordCompat.Command
