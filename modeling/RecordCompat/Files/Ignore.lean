import RecordCompat.Files.Bracket
import RecordCompat.Files.Matcher
import RecordCompat.Text.Blank
import RecordCompat.Text.Quoted

/-! The pattern lines of ignore files. A line is a path of segments; `**` stands for any
number of directories, and a line without an inner slash applies at every depth. What a
line matches is excluded together with everything below it; a line that starts with `!`
includes it again.

A line can match a path as a whole or only a directory on the way to it, which the line
names with a trailing slash or which is followed by more of the path. The last line that
matches as a whole decides, and where there is none the last line that matches at all. -/
namespace RecordCompat.Files

inductive IgnorePiece
  /-- Any directories at the front, with the slash behind them. -/
  | anyFront
  /-- Any directories, with the slash in front of them. -/
  | anyInner
  /-- The slash behind a directory whose content is meant. -/
  | content (mark : Bool)
  | slash
  | char (c : Char)
  | anyChar
  | anyText
  | anyName
  | set (chars : CharSet)
  /-- The end of the path, or a slash and anything below. -/
  | finish
  deriving DecidableEq, Repr

inductive IgnoreRule
  /-- Every path that has a slash. -/
  | nested (mark : Bool)
  /-- Every path with a character that is no line end. -/
  | anyPath
  | shape (pieces : List IgnorePiece)
  deriving DecidableEq, Repr

structure IgnoreLine where
  negated : Bool
  rule : IgnoreRule
  deriving DecidableEq, Repr

inductive IgnoreError
  | invalidLine (line : String)
  /-- A bracket expression has a range whose ends are in the wrong order. -/
  | emptyRange
  deriving DecidableEq, Repr

def anyDirectories : List Char := ['*', '*']

inductive SegmentFault
  | danglingEscape
  | openBracket
  deriving DecidableEq, Repr

def CharSet.ofIgnore (body : List Char) : CharSet :=
  match body with
  | '!' :: rest => ⟨true, CharRange.read rest⟩
  | '^' :: rest => ⟨true, CharRange.read rest⟩
  | _ => ⟨false, CharRange.read body⟩

namespace IgnorePiece

def readSegment : List Char → Except SegmentFault (List IgnorePiece)
  | [] => .ok []
  | '\\' :: [] => .error .danglingEscape
  | '\\' :: c :: rest => (readSegment rest).map (.char c :: ·)
  | '*' :: rest => (readSegment rest).map (.anyText :: ·)
  | '?' :: rest => (readSegment rest).map (.anyChar :: ·)
  | '[' :: rest =>
    match _h : bracketBody? ['!', '^'] rest with
    | some (body, later) => (readSegment later).map (.set (.ofIgnore body) :: ·)
    | none => .error .openBracket
  | c :: rest => (readSegment rest).map (.char c :: ·)
termination_by text => text.length
decreasing_by
  all_goals simp only [List.length_cons]
  all_goals first | omega | exact Nat.lt_succ_of_lt (bracketBody?_length _h)

/-- The pieces of segments that end a line. `slashed` tells whether a name at the front has to
be set apart by a slash. -/
def readLater (mark slashed : Bool) : List (List Char) → Except SegmentFault (List IgnorePiece)
  | [] => .ok []
  | segment :: rest => do
    if segment = anyDirectories then
      if rest.isEmpty then return [.content mark]
      else return .anyInner :: (← readLater mark true rest)
    else
      let own ← if segment = ['*'] then pure [.anyName] else readSegment segment
      let last : List IgnorePiece := if rest.isEmpty then [.finish] else []
      let later ← readLater mark true rest
      return (if slashed then [.slash] else []) ++ own ++ last ++ later

def readSegments (mark : Bool) : List (List Char) → Except SegmentFault (List IgnorePiece)
  | [] => .ok []
  | first :: rest =>
    if first = anyDirectories then (readLater mark false rest).map (.anyFront :: ·)
    else readLater mark false (first :: rest)

def hasEmptyRange : IgnorePiece → Bool
  | .set chars => chars.ranges.any CharRange.isEmpty
  | _ => false

def notLineEnd (c : Char) : Bool :=
  c != '\n'

def inName (c : Char) : Bool :=
  c != '/'

def isSlash (c : Char) : Bool :=
  c == '/'

/-- What `finish` matches. Behind a slash only a directory has been matched. -/
def atFinish : Matcher Bool
  | '/' :: _ => some true
  | [] => some false
  | ['\n'] => some false
  | _ => none

def step : IgnorePiece → MatchStep Bool
  | .anyFront =>
    (((MatchStep.char notLineEnd).andThen (.run notLineEnd)).andThen (.char isSlash)).optional
  | .anyInner =>
    (((MatchStep.char isSlash).andThen (.char notLineEnd)).andThen (.run notLineEnd)).optional
  | .content mark => (MatchStep.char isSlash).withAnswer (mark || ·)
  | .slash => .char isSlash
  | .char c => .char (· == c)
  | .anyChar => .char inName
  | .anyText => .run inName
  | .anyName => (MatchStep.char inName).andThen (.run inName)
  | .set chars => .char chars.contains
  | .finish => .stop atFinish

/-- Whether pieces match the front of a text and, if so, whether only a directory. -/
def fit (pieces : List IgnorePiece) (text : List Char) : Option Bool :=
  Matcher.answer (fun _ => some false) (pieces.map step) text

end IgnorePiece

def IgnoreRule.fit (rule : IgnoreRule) (path : List Char) : Option Bool :=
  match rule with
  | .nested mark => if path.contains '/' then some mark else none
  | .anyPath => if path.any IgnorePiece.notLineEnd then some false else none
  | .shape pieces => IgnorePiece.fit pieces path

/-- The segments of a line, with a segment for any directories in front where the line
applies at every depth. A slash at the front ties a line to the root. -/
def anchoredSegments (text : List Char) : List (List Char) :=
  match text.splitOnP (· = '/') with
  | [] :: rest => rest
  | [name] => if name = anyDirectories then [name] else [anyDirectories, name]
  | [name, []] => if name = anyDirectories then [name, []] else [anyDirectories, name, []]
  | segments => segments

/-- What lies in a directory that is named with a slash behind it is meant at any depth. -/
def openEnded (segments : List (List Char)) : List (List Char) :=
  if segments.getLast? = some [] then segments.dropLast ++ [anyDirectories] else segments

/-- Several segments for any directories in a row are as good as one. -/
def collapse : List (List Char) → List (List Char)
  | a :: b :: rest =>
    if a = anyDirectories ∧ b = anyDirectories then collapse (b :: rest)
    else a :: collapse (b :: rest)
  | segments => segments

def IgnoreRule.ofSegments (directory : Bool) (segments : List (List Char)) :
    Except SegmentFault IgnoreRule :=
  if segments = [anyDirectories] then .ok (if directory then .nested true else .anyPath)
  else if segments = [anyDirectories, ['*']] then .ok .anyPath
  else if segments = [anyDirectories, ['*'], anyDirectories] then .ok (.nested directory)
  else (IgnorePiece.readSegments directory segments).map .shape

def IgnoreRule.hasEmptyRange : IgnoreRule → Bool
  | .shape pieces => pieces.any IgnorePiece.hasEmptyRange
  | _ => false

namespace IgnoreLine

/-- The text of a line without the blanks at its end, unless the last of them is escaped. -/
def trim (line : List Char) : List Char :=
  if ['\\', ' '] <:+ line then line else Text.stripRight line

/-- Reads a line. Blank lines, comments and lines whose brackets are not closed say nothing. -/
def read (line : String) : Except IgnoreError (Option IgnoreLine) :=
  let text := trim line.toList
  if text = [] ∨ text.head? = some '#' ∨ text = ['/'] then .ok none
  else
    let negated := text.head? = some '!'
    let pattern := if negated then text.drop 1 else text
    let segments := anchoredSegments pattern
    if segments = [] then .error (.invalidLine line)
    else
      let directory := pattern.getLast? = some '/'
      match IgnoreRule.ofSegments directory (collapse (openEnded segments)) with
      | .error .danglingEscape => .error (.invalidLine line)
      | .error .openBracket => .ok none
      | .ok rule => if rule.hasEmptyRange then .error .emptyRange else .ok (some ⟨negated, rule⟩)

end IgnoreLine

def IgnoreError.message? : IgnoreError → Option String
  | .invalidLine line => some ("Invalid git pattern: " ++ Text.quoted line)
  | .emptyRange => none

namespace Ignore

def read (lines : List String) : Except IgnoreError (List IgnoreLine) :=
  (lines.mapM IgnoreLine.read).map fun found => found.filterMap id

/-- The last line that matches a path as a whole or, with `mark`, only a directory of it. -/
def last? (mark : Bool) (lines : List IgnoreLine) (path : List Char) : Option IgnoreLine :=
  lines.reverse.find? fun line => line.rule.fit path = some mark

def trimSlashes (path : List Char) : List Char :=
  ((path.dropWhile (· = '/')).reverse.dropWhile (· = '/')).reverse

def skipHere : List Char → List Char
  | '.' :: '/' :: rest => rest
  | path => path

def excludes (lines : List IgnoreLine) (path : String) : Bool :=
  let text := trimSlashes path.toList
  if text = [] then false
  else
    match last? false lines (skipHere text) <|> last? true lines (skipHere text) with
    | some line => !line.negated
    | none => false

end Ignore

end RecordCompat.Files
