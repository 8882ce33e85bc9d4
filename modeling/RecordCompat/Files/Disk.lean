import RecordCompat.Files.Path
import RecordCompat.Text.Quoted

/-! A disk holds files and directories under their places: lists of names from the root on.
A place is a directory when it was made one or when something lies below it. Relative
paths start at the current directory; `..` leads to the directory above, and only out of a
directory that exists.

The length of paths and of the names in them is limited. A name that is too long is noticed
where it would be looked up, hence not behind a directory that is missing. -/
namespace RecordCompat.Files

/-- A place: the names that lead to it from the root. -/
abbrev Place := List String

/-- A path that cannot be looked up, since it or a name in it is too long. -/
structure NameTooLong where
  path : Path
  deriving DecidableEq, Repr

def NameTooLong.message (e : NameTooLong) : String :=
  "[Errno 36] File name too long: " ++ Text.quoted e.path.toString

def NameTooLong.check (path : Path) : Except NameTooLong Unit :=
  if path.isLong then .error ⟨path⟩ else .ok ()

structure Disk where
  files : List (Place × List UInt8)
  directories : List Place
  here : Place

namespace Disk

def file? (disk : Disk) (place : Place) : Option (List UInt8) :=
  disk.files.lookup place

def isFile (disk : Disk) (place : Place) : Bool :=
  (disk.file? place).isSome

def isDirectory (disk : Disk) (place : Place) : Bool :=
  place = [] || place.isPrefixOf disk.here ||
    disk.directories.any (fun other => place.isPrefixOf other) ||
    disk.files.any (fun other => place.isPrefixOf other.1 && place ≠ other.1)

inductive Obstacle
  | missing
  | notDirectory
  | tooLong
  deriving DecidableEq, Repr

def move (place : Place) (part : String) : Place :=
  if part = ".." then place.dropLast else place ++ [part]

def walk (disk : Disk) (place : Place) : List String → Except Obstacle Place
  | [] => .ok place
  | part :: rest =>
    if disk.isDirectory place then
      if Path.componentLimit < part.utf8ByteSize then .error .tooLong
      else disk.walk (move place part) rest
    else if disk.isFile place then .error .notDirectory
    else .error .missing

/-- The place that a path leads to, which need not hold anything. -/
def locate (disk : Disk) (path : Path) : Except Obstacle Place :=
  if path.isLong then .error .tooLong
  else disk.walk (if path.slashes = 0 then disk.here else []) path.parts

inductive Node
  | file (bytes : List UInt8)
  | directory
  deriving DecidableEq, Repr

def Node.isFile : Node → Bool
  | file _ => true
  | directory => false

def node? (disk : Disk) (path : Path) : Except NameTooLong (Option Node) :=
  if path.holdsNul then .ok none
  else
    match disk.locate path with
    | .error .tooLong => .error ⟨path⟩
    | .error _ => .ok none
    | .ok place =>
      .ok (if disk.isDirectory place then some .directory else (disk.file? place).map .file)

def namesIn (disk : Disk) (place : Place) : List String :=
  let places := disk.directories ++ disk.files.map Prod.fst
  ((places.filter (place.isPrefixOf ·)).filterMap (·[place.length]?)).eraseDups.mergeSort
    fun a b => a ≤ b

def above : Place → List Place
  | [] => []
  | name :: rest => [] :: (above rest).map (name :: ·)

/-- The paths from a directory to itself and to the directories below it, in order: each
directory comes before those below it. -/
def directoriesBelow (disk : Disk) (place : Place) : List (List String) :=
  let places := disk.directories.flatMap (fun other => other :: above other) ++
    disk.files.flatMap fun other => above other.1
  ([] :: (places.filter (place.isPrefixOf ·)).map (·.drop place.length)).eraseDups.mergeSort
    Path.inOrder

def makeDirectory (disk : Disk) (place : Place) : Disk :=
  { disk with directories := disk.directories ++ [place] }

/-- Writes a file, in place of one that is there already. -/
def putFile (disk : Disk) (place : Place) (bytes : List UInt8) : Disk :=
  { disk with files := disk.files.filter (·.1 ≠ place) ++ [(place, bytes)] }

/-- Removes what lies at a place. The directory that held it stays. -/
def remove (disk : Disk) (place : Place) : Disk :=
  { disk with
    files := disk.files.filter fun other => !place.isPrefixOf other.1
    directories := disk.directories.filter (fun other => !place.isPrefixOf other) ++
      [place.dropLast] }

end Disk

/-- What is said of a path at which no file can be written or read. -/
inductive WriteError
  | missing (path : Path)
  | exists (path : Path)
  | notDirectory (path : Path)
  | isDirectory (path : Path)
  | tooLong (error : NameTooLong)
  /-- The path holds the character that no file name can hold. -/
  | holdsNul
  deriving DecidableEq, Repr

def WriteError.message : WriteError → String
  | .missing path => "[Errno 2] No such file or directory: " ++ Text.quoted path.toString
  | .exists path => "[Errno 17] File exists: " ++ Text.quoted path.toString
  | .notDirectory path => "[Errno 20] Not a directory: " ++ Text.quoted path.toString
  | .isDirectory path => "[Errno 21] Is a directory: " ++ Text.quoted path.toString
  | .tooLong error => error.message
  | .holdsNul => "embedded null byte"

def WriteError.ofObstacle (path : Path) : Disk.Obstacle → WriteError
  | .missing => .missing path
  | .notDirectory => .notDirectory path
  | .tooLong => .tooLong ⟨path⟩

namespace Disk

/-- What is said of a path at which there is no file to read. -/
def readError (disk : Disk) (path : Path) : WriteError :=
  if path.holdsNul then .holdsNul
  else
    match disk.locate path with
    | .error obstacle => .ofObstacle path obstacle
    | .ok place => if disk.isDirectory place then .isDirectory path else .missing path

/-- Makes a directory whose parents exist. It may exist already. -/
def ensureLast (disk : Disk) (path : Path) : Disk × Option WriteError :=
  match disk.locate path with
  | .error obstacle => (disk, some (.ofObstacle path obstacle))
  | .ok place =>
    if disk.isDirectory place then (disk, none)
    else if disk.isFile place then (disk, some (.exists path))
    else (disk.makeDirectory place, none)

/-- Makes a directory together with its parents. The parts are given from the last to the
first. What was made stays made when a later step fails. -/
def ensure (disk : Disk) (slashes : Nat) : List String → Disk × Option WriteError
  | [] => (disk, none)
  | part :: rest =>
    let path : Path := ⟨slashes, (part :: rest).reverse⟩
    match disk.locate path with
    | .error .missing =>
      match disk.ensure slashes rest with
      | (disk, none) => disk.ensureLast path
      | failed => failed
    | _ => disk.ensureLast path

def writeLast (disk : Disk) (path : Path) (bytes : List UInt8) : Disk × Option WriteError :=
  match disk.locate path with
  | .error obstacle => (disk, some (.ofObstacle path obstacle))
  | .ok place =>
    if disk.isDirectory place then (disk, some (.isDirectory path))
    else (disk.putFile place bytes, none)

/-- Writes a file and makes the directories that lead to it. -/
def write (disk : Disk) (path : Path) (bytes : List UInt8) : Disk × Option WriteError :=
  if path.parent.holdsNul then (disk, some .holdsNul)
  else
    match disk.ensure path.slashes path.parent.parts.reverse with
    | (disk, none) =>
      if path.holdsNul then (disk, some .holdsNul) else disk.writeLast path bytes
    | failed => failed

end Disk

end RecordCompat.Files
