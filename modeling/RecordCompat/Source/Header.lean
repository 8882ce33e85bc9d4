import RecordCompat.Text.Blank
import RecordCompat.Text.Word

/-! A header is `data class`, a name, possibly type parameters in angle brackets, possibly
modifiers and the word `constructor`, and the parenthesis that opens the parameter list.
Since nothing between the name and that parenthesis can hold another one, a header ends at
the first parenthesis after its name, and it remains to recognise the text in between.
Headers are looked for from left to right and do not overlap. -/
namespace RecordCompat.Source

open Text

/-- A header from index `start` up to `stop`, just behind its parenthesis. -/
structure Header where
  name : String
  start : Nat
  stop : Nat
  deriving DecidableEq, Repr

/-- Removes a word from the head of a text. -/
def dropWord? (word text : List Char) : Option (List Char) :=
  if word <+: text then some (text.drop word.length) else none

/-- Words that may stand in front of `constructor`. -/
def isConstructorModifier (word : List Char) : Bool :=
  match word with
  | '@' :: name => name != [] && name.all isWord
  | _ => ["private", "internal", "protected", "public"].contains (String.ofList word)

/-- Nothing, or modifiers and the word `constructor`. -/
def isConstructorClause (text : List Char) : Bool :=
  match (words text).reverse with
  | [] => true
  | last :: modifiers => last == "constructor".toList && modifiers.all isConstructorModifier

/-- Whether a constructor clause follows a closing angle bracket in front of which none of
the characters `){};` stands. A clause holds no angle bracket, so it follows the last one. -/
def closesTypeParameters : List Char → Bool
  | [] => false
  | c :: rest =>
    (c == '>' && '>' ∉ rest && isConstructorClause rest) ||
      (c ∉ [')', '{', '}', ';'] && closesTypeParameters rest)

/-- The texts that may stand between the name of a data class and its parenthesis. -/
def isHeaderTail (text : List Char) : Bool :=
  match skipBlanks text with
  | '<' :: rest => closesTypeParameters rest
  | rest => isConstructorClause rest

/-- The name and the length of the header at the head of a text. -/
def headerAt? (text : List Char) : Option (List Char × Nat) := do
  let rest ← dropWord? "data".toList text
  let rest ← skipSomeBlanks? rest
  let rest ← dropWord? "class".toList rest
  let rest ← skipSomeBlanks? rest
  let name := rest.takeWhile isWord
  let rest := rest.dropWhile isWord
  let tail := rest.takeWhile (· ≠ '(')
  let rest := rest.dropWhile (· ≠ '(')
  if name ≠ [] ∧ rest ≠ [] ∧ isHeaderTail tail then
    some (name, text.length - rest.length + 1)
  else none

/-- The headers of a text that begins at index `offset`, behind a word character or not. -/
def headersFrom (offset : Nat) (afterWord : Bool) : List Char → List Header
  | [] => []
  | c :: rest =>
    match if afterWord then none else headerAt? (c :: rest) with
    | some (name, n) =>
      ⟨String.ofList name, offset, offset + n⟩ ::
        headersFrom (offset + n) false (rest.drop (n - 1))
    | none => headersFrom (offset + 1) (isWord c) rest
termination_by text => text.length
decreasing_by all_goals simp only [List.length_drop, List.length_cons]; omega

def headers (text : List Char) : List Header :=
  headersFrom 0 false text

end RecordCompat.Source
