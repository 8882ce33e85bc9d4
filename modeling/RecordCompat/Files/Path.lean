/-! A path is read without touching any files: empty components and components `.` vanish,
components `..` stay. Two slashes at the front, and only exactly two, are kept apart from
one. -/
namespace RecordCompat.Files

structure Path where
  /-- The slashes at the front: none in a relative path, else one or two. -/
  slashes : Nat
  parts : List String
  deriving DecidableEq, Repr

namespace Path

def components (text : List Char) : List String :=
  ((text.splitOnP (· = '/')).filter fun part => part ≠ [] ∧ part ≠ ['.']).map String.ofList

def ofString (text : String) : Path :=
  let front := (text.toList.takeWhile (· = '/')).length
  ⟨if front = 2 then 2 else min 1 front, components text.toList⟩

def joined (parts : List String) : String :=
  "/".intercalate parts

def toString (p : Path) : String :=
  if p.slashes = 0 ∧ p.parts = [] then "."
  else String.ofList (List.replicate p.slashes '/') ++ joined p.parts

def name (p : Path) : String :=
  p.parts.getLast?.getD ""

def parent (p : Path) : Path :=
  { p with parts := p.parts.dropLast }

def append (p : Path) (parts : List String) : Path :=
  { p with parts := p.parts ++ parts }

/-- The order of paths: that of the first components in which they differ. A path comes
before those that lead on from it. -/
def inOrder : List String → List String → Bool
  | [], _ => true
  | _ :: _, [] => false
  | a :: first, b :: second => if a = b then inOrder first second else a < b

def holdsNul (p : Path) : Bool :=
  p.parts.any fun part => part.toList.contains '\x00'

/-- The most bytes that a component can have. -/
def componentLimit : Nat := 255

/-- The most bytes that the text of a path can have. -/
def lengthLimit : Nat := 4095

def isLong (p : Path) : Bool :=
  lengthLimit < p.toString.utf8ByteSize

end Path

end RecordCompat.Files
