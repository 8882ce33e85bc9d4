import RecordCompat.Files.Bracket
import RecordCompat.Files.Disk
import RecordCompat.Files.Matcher

/-! A glob is a relative path whose components are patterns for names: `*` for any text, `?`
for any character, brackets for a set of characters. The component `**` leads to any
directory below, `..` to the one above. A glob is looked for at every depth. Since a
trailing slash or a last component `**` asks for directories, such a glob finds no files.

Components with wildcards are compared with the names that a directory holds, which is
opened for them. Others are looked up. Whatever is found is looked up in the end, to tell
files from directories. A search ends at the first path that is too long to be opened or
looked up. -/
namespace RecordCompat.Files

inductive GlobItem
  | char (c : Char)
  | anyChar
  | anyText
  | set (chars : CharSet)
  deriving DecidableEq, Repr

/-- The text inside brackets from its first range on that is not empty. -/
def skipEmptyRanges : List Char → List Char
  | low :: '-' :: high :: rest =>
    if high < low then skipEmptyRanges rest else low :: '-' :: high :: rest
  | text => text

/-- The set that the inside of brackets stands for. Empty ranges are dropped; a `!` that is
then at the front negates the set, also when it was the low end of a range. -/
def CharSet.ofGlob (body : List Char) : CharSet :=
  let ranges (text : List Char) := (CharRange.read text).filter fun range => !range.isEmpty
  match body with
  | '!' :: rest => ⟨true, ranges rest⟩
  | _ =>
    match skipEmptyRanges body with
    | '!' :: '-' :: high :: rest => ⟨true, .one '-' :: .one high :: ranges rest⟩
    | '!' :: rest => ⟨true, ranges rest⟩
    | text => ⟨false, ranges text⟩

/-- The items of a pattern. A bracket that is never closed is an ordinary character. -/
def GlobItem.read : List Char → List GlobItem
  | [] => []
  | c :: rest =>
    if c = '*' then .anyText :: read rest
    else if c = '?' then .anyChar :: read rest
    else if c = '[' then
      match _h : bracketBody? ['!'] rest with
      | some (body, later) => .set (.ofGlob body) :: read later
      | none => .char c :: read rest
    else .char c :: read rest
termination_by text => text.length
decreasing_by
  all_goals simp only [List.length_cons]
  all_goals first | omega | exact Nat.lt_succ_of_lt (bracketBody?_length _h)

def GlobItem.step : GlobItem → MatchStep Unit
  | .char c => .char (· == c)
  | .anyChar => .char fun _ => true
  | .anyText => .run fun _ => true
  | .set chars => .char chars.contains

def atEnd : Matcher Unit
  | [] => some ()
  | _ :: _ => none

def GlobItem.fit (items : List GlobItem) (name : String) : Bool :=
  (Matcher.answer atEnd (items.map step) name.toList).isSome

inductive GlobStep
  | descend
  /-- A name without wildcards, or `..`. It is looked up. -/
  | name (text : String)
  | pattern (items : List GlobItem)
  deriving DecidableEq, Repr

structure Glob where
  steps : List GlobStep
  directoriesOnly : Bool
  deriving DecidableEq, Repr

inductive GlobError
  | notRelative
  | starsInComponent
  deriving DecidableEq, Repr

def GlobError.message : GlobError → String
  | .notRelative => "Non-relative patterns are unsupported"
  | .starsInComponent => "Invalid pattern: '**' can only be an entire path component"

def hasWildcard (part : List Char) : Bool :=
  part.any fun c => c == '*' || c == '?' || c == '['

def hasStarPair : List Char → Bool
  | [] => false
  | c :: rest => c == '*' && rest.head? == some '*' || hasStarPair rest

def GlobStep.read (part : String) : Except GlobError GlobStep :=
  if part = "**" then .ok .descend
  else if hasStarPair part.toList then .error .starsInComponent
  else if hasWildcard part.toList then .ok (.pattern (GlobItem.read part.toList))
  else .ok (.name part)

namespace Glob

def read (text : String) : Except GlobError Glob :=
  let path := Path.ofString text
  if path.slashes ≠ 0 then .error .notRelative
  else do
    let steps ← path.parts.mapM GlobStep.read
    return ⟨steps, text.toList.getLast? = some '/'⟩

/-- A place together with the path taken to it from the root directory of the search. -/
structure Spot where
  path : List String
  place : Place
  deriving DecidableEq, Repr

def Spot.enter (spot : Spot) (part : String) : Spot :=
  ⟨spot.path ++ [part], Disk.move spot.place part⟩

def Spot.below (spot : Spot) (names : List String) : Spot :=
  ⟨spot.path ++ names, spot.place ++ names⟩

/-- What a component without wildcards leads to: a directory, if it has to be one. -/
def spotNamed (disk : Disk) (root : Path) (inner : Bool) (spot : Spot) (text : String) :
    Except NameTooLong (List Spot) := do
  let next := spot.enter text
  match ← disk.node? (root.append next.path) with
  | none => return []
  | some node => return if inner && node.isFile then [] else [next]

/-- What a component with wildcards leads to: directories, if they have to be. The directory
is opened for its names. -/
def spotsFitting (disk : Disk) (root : Path) (inner : Bool) (spot : Spot)
    (items : List GlobItem) : Except NameTooLong (List Spot) := do
  NameTooLong.check (root.append spot.path)
  let next := ((disk.namesIn spot.place).filter (GlobItem.fit items)).map spot.enter
  return if inner then next.filter fun spot => disk.isDirectory spot.place else next

/-- The spots that steps lead to from a directory, in the order of the search. Every
directory below is searched before it is opened for the directories in it. -/
def spots (disk : Disk) (root : Path) (directoriesOnly : Bool) :
    List GlobStep → Spot → Except NameTooLong (List Spot)
  | [], spot => .ok [spot]
  | .descend :: steps, spot => do
    let found ← (disk.directoriesBelow spot.place).mapM fun names => do
      let found ← spots disk root directoriesOnly steps (spot.below names)
      NameTooLong.check (root.append (spot.path ++ names))
      return found
    return found.flatten
  | .name text :: steps, spot => do
    let next ← spotNamed disk root (directoriesOnly || !steps.isEmpty) spot text
    let found ← next.mapM (spots disk root directoriesOnly steps)
    return found.flatten
  | .pattern items :: steps, spot => do
    let next ← spotsFitting disk root (directoriesOnly || !steps.isEmpty) spot items
    let found ← next.mapM (spots disk root directoriesOnly steps)
    return found.flatten

/-- The files among paths from a root directory on. All are looked up in turn. -/
def filesAmong (disk : Disk) (root : Path) (paths : List (List String)) :
    Except NameTooLong (List (List String)) := do
  let nodes ← paths.mapM fun path => return (path, ← disk.node? (root.append path))
  return (nodes.filter fun found => found.2.any Disk.Node.isFile).map Prod.fst

/-- The paths, from a root on, of the files that a glob finds at any depth, in order and each
once. There are none where the root is no directory. -/
def files (glob : Glob) (disk : Disk) (root : Path) :
    Except NameTooLong (List (List String)) := do
  match ← disk.node? root, disk.locate root with
  | some .directory, .ok place =>
    let found ← spots disk root glob.directoriesOnly (.descend :: glob.steps) ⟨[], place⟩
    filesAmong disk root ((found.map Spot.path).eraseDups.mergeSort Path.inOrder)
  | _, _ => return []

end Glob

end RecordCompat.Files
