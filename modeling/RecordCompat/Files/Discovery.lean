import RecordCompat.Files.Glob
import RecordCompat.Files.Ignore
import RecordCompat.Journal

/-! The files of two directory trees that a glob finds and no ignore pattern excludes, paired
by their paths below the two roots. Every path of either tree occurs once, in the order of
character codes. -/
namespace RecordCompat.Files

/-- A path below the roots, and its file in each tree that has one. -/
structure SourcePair where
  path : String
  old? : Option Path
  new? : Option Path
  deriving DecidableEq, Repr

inductive DiscoveryError
  | ignore (error : IgnoreError)
  | glob (error : GlobError)
  | tooLong (error : NameTooLong)
  deriving DecidableEq, Repr

/-- The message of an error, which a wrong range in a bracket expression does not have. -/
def DiscoveryError.message? : DiscoveryError → Option String
  | .ignore error => error.message?
  | .glob error => some error.message
  | .tooLong error => some error.message

structure Collection where
  root : Path
  found : List (List String)
  excluded : Nat

def Collection.paths (c : Collection) : List String :=
  c.found.map Path.joined

def Collection.file? (c : Collection) (path : String) : Option Path :=
  (c.found.find? (Path.joined · = path)).map c.root.append

def Collection.events (c : Collection) : List Event :=
  if c.excluded = 0 then [] else [.filesExcluded c.root.toString c.excluded]

def collect (disk : Disk) (glob : Glob) (ignore : List IgnoreLine) (root : Path) :
    Logged DiscoveryError Collection :=
  match glob.files disk root with
  | .error e => .fail (.tooLong e)
  | .ok all =>
    let excluded (parts : List String) := Ignore.excludes ignore (Path.joined parts)
    let c : Collection := ⟨root, all.filter (!excluded ·), (all.filter excluded).length⟩
    ⟨.ok c, c.events⟩

def mergedPaths (old new : Collection) : List String :=
  (old.paths ++ new.paths).eraseDups.mergeSort fun a b => a ≤ b

def pairCollections (old new : Collection) : List SourcePair :=
  (mergedPaths old new).map fun path => ⟨path, old.file? path, new.file? path⟩

/-- The pairs in order. The old root is searched before the new one. -/
def discover (disk : Disk) (old new : Path) (pattern : String) (exclude : List String) :
    Logged DiscoveryError (List SourcePair) :=
  match Ignore.read exclude, Glob.read pattern with
  | .error e, _ => .fail (.ignore e)
  | _, .error e => .fail (.glob e)
  | .ok ignore, .ok glob => do
    let old ← collect disk glob ignore old
    let new ← collect disk glob ignore new
    let pairs := pairCollections old new
    .tell [.sourcesDiscovered old.found.length new.found.length pairs.length]
    return pairs

end RecordCompat.Files
