import RecordCompat.Source.Lexeme
import RecordCompat.Text.Blank

/-! A parameter list is cut at commas outside brackets. Angle brackets hold type arguments
only outside the other brackets, where a comparison cannot stand; the `>` of an arrow is
not one of them. -/
namespace RecordCompat.Source

open Text

/-- What encloses a place in a parameter list. -/
structure Nesting where
  brackets : Nat
  angles : Nat
  afterDash : Bool
  deriving DecidableEq, Repr

def Nesting.outside : Nesting := ⟨0, 0, false⟩

def Nesting.cutsAt (nesting : Nesting) (x : Lexeme) : Bool :=
  x == .char ',' && nesting.brackets == 0 && nesting.angles == 0

/-- The nesting behind a lexeme. Closing brackets that were never opened are ignored. -/
def Nesting.after (nesting : Nesting) (x : Lexeme) : Nesting :=
  let dash := x == .char '-'
  if x.opens then ⟨nesting.brackets + 1, nesting.angles, dash⟩
  else if x.closes then ⟨nesting.brackets - 1, nesting.angles, dash⟩
  else if x = .char '<' ∧ nesting.brackets = 0 then
    ⟨nesting.brackets, nesting.angles + 1, dash⟩
  else if x = .char '>' ∧ nesting.brackets = 0 ∧ nesting.afterDash = false then
    ⟨nesting.brackets, nesting.angles - 1, dash⟩
  else ⟨nesting.brackets, nesting.angles, dash⟩

def prepend (x : Lexeme) : List (List Lexeme) → List (List Lexeme)
  | [] => [[x]]
  | piece :: pieces => (x :: piece) :: pieces

/-- The pieces between the cuts; there is one more of them than cuts. -/
def pieces (nesting : Nesting) : List Lexeme → List (List Lexeme)
  | [] => [[]]
  | x :: rest =>
    if nesting.cutsAt x then [] :: pieces (nesting.after x) rest
    else prepend x (pieces (nesting.after x) rest)

/-- The parameters of a list, stripped, without blank ones. -/
def parameters (text : List Char) : List (List Char) :=
  ((pieces .outside (lexemes text)).map fun piece => strip (spell piece)).filter (· ≠ [])

def splitParameters (text : String) : List String :=
  (parameters text.toList).map String.ofList

end RecordCompat.Source
