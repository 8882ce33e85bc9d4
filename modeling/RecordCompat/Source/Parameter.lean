import RecordCompat.Text.Blank
import RecordCompat.Text.Word
import RecordCompat.Record

/-! A parameter declares a property when, behind annotations and modifiers, it has the word
`val` or `var`, a name and a colon. The type runs up to the first equals sign and is
nullable when it ends with a question mark; a default is what follows the equals sign,
unless that is blank.

The name of an annotation may run into the word `val` or `var`: when the parameter cannot
be read otherwise, `@Aval x: T` declares `x` behind the annotation `@A`. -/
namespace RecordCompat.Source

open Text

def isMarkerChar (c : Char) : Bool :=
  isWord c || c == '.' || c == ':'

def modifiers : List (List Char) :=
  ["private", "protected", "internal", "public", "override", "open", "final", "vararg",
    "const"].map String.toList

/-- Removes a modifier and the blanks that have to follow it. -/
def dropModifier? (text : List Char) : Option (List Char) :=
  let word := text.takeWhile isWord
  if word ∈ modifiers then skipSomeBlanks? (text.dropWhile isWord) else none

theorem dropModifier?_length {text rest : List Char} (h : dropModifier? text = some rest) :
    rest.length < text.length := by
  simp only [dropModifier?] at h
  split at h
  · exact Nat.lt_of_lt_of_le (skipSomeBlanks?_length h)
      (List.dropWhile_suffix isWord).length_le
  · cases h

/-- Removes the arguments of an annotation, if it has any. They hold no parentheses. -/
def skipArguments (text : List Char) : List Char :=
  match text with
  | '(' :: inner =>
    match inner.dropWhile fun c => c ≠ '(' ∧ c ≠ ')' with
    | ')' :: rest => rest
    | _ => text
  | _ => text

theorem skipArguments_length_le (text : List Char) :
    (skipArguments text).length ≤ text.length := by
  unfold skipArguments
  split
  · split
    · rename_i inner _ rest h
      have := (List.dropWhile_suffix (l := inner)
        fun c => decide (c ≠ '(' ∧ c ≠ ')')).length_le
      rw [h] at this
      simp only [List.length_cons] at this ⊢
      omega
    · exact Nat.le_refl _
  · exact Nat.le_refl _

/-- The name of a property and the text behind its colon, from the text behind `val` or
`var`. -/
def named? (text : List Char) : Option (List Char × List Char) := do
  let rest ← skipSomeBlanks? text
  let name := rest.takeWhile isWord
  match name, skipBlanks (rest.dropWhile isWord) with
  | _ :: _, ':' :: rest => some (name, rest)
  | _, _ => none

def isPropertyWord (word : List Char) : Bool :=
  word == "val".toList || word == "var".toList

/-- Whether `val` or `var` ends the name of an annotation that goes on without it. -/
def endsInPropertyWord (name : List Char) : Bool :=
  3 < name.length && isPropertyWord (name.drop (name.length - 3))

/-- The name of a property and the text behind its colon. -/
def property? (text : List Char) : Option (List Char × List Char) :=
  match text with
  | '@' :: rest =>
    let name := rest.takeWhile isMarkerChar
    let behind := rest.dropWhile isMarkerChar
    if name = [] then none
    else
      property? (skipBlanks (skipArguments behind)) <|>
        if endsInPropertyWord name then named? behind else none
  | text =>
    match _h : dropModifier? text with
    | some rest => property? rest
    | none =>
      if isPropertyWord (text.takeWhile isWord) then named? (text.dropWhile isWord) else none
termination_by text.length
decreasing_by
  · have := skipBlanks_length_le (skipArguments (rest.dropWhile isMarkerChar))
    have := skipArguments_length_le (rest.dropWhile isMarkerChar)
    have := (List.dropWhile_suffix (l := rest) isMarkerChar).length_le
    simp only [List.length_cons]
    omega
  · exact dropModifier?_length _h

inductive Parameter
  /-- A property; its position is not yet known. -/
  | property (field : Field)
  | untyped (text : String)
  | other
  deriving DecidableEq, Repr

def Parameter.read (text : List Char) : Parameter :=
  match property? text with
  | none => .other
  | some (name, rest) =>
    let type := strip (rest.takeWhile (· ≠ '='))
    let default := strip ((rest.dropWhile (· ≠ '=')).drop 1)
    let nullable := type.getLast? = some '?'
    let type := if nullable then stripRight type.dropLast else type
    if type = [] then .untyped (String.ofList text)
    else .property ⟨String.ofList name, String.ofList type, nullable, default ≠ [], 0⟩

end RecordCompat.Source
