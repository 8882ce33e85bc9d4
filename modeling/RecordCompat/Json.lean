import RecordCompat.Text.Quoted

/-! Values and their written form: one item a line, two blanks for each level, nothing but
printable ASCII. Characters above U+FFFF are written as surrogate pairs. Empty arrays and
objects have no lines of their own. The members of an object are written in the order in
which they are given; the documents of this library give them sorted by name. -/
namespace RecordCompat

inductive Json
  | null
  | bool (value : Bool)
  | string (text : String)
  | array (items : List Json)
  | object (members : List (String × Json))
  deriving Repr

namespace Json

def escapedUnit (n : Nat) : List Char :=
  '\\' :: 'u' :: Text.hex 4 n

def escapedChar (c : Char) : List Char :=
  if c = '"' then ['\\', '"']
  else if c = '\\' then ['\\', '\\']
  else if c = '\n' then ['\\', 'n']
  else if c = '\r' then ['\\', 'r']
  else if c = '\t' then ['\\', 't']
  else if c = '\x08' then ['\\', 'b']
  else if c = '\x0c' then ['\\', 'f']
  else if 0x20 ≤ c.toNat ∧ c.toNat < 0x7F then [c]
  else if c.toNat < 0x10000 then escapedUnit c.toNat
  else
    let n := c.toNat - 0x10000
    escapedUnit (0xD800 + n / 0x400) ++ escapedUnit (0xDC00 + n % 0x400)

def writeString (text : String) : List Char :=
  '"' :: text.toList.flatMap escapedChar ++ ['"']

def newLine (depth : Nat) : List Char :=
  '\n' :: List.replicate (2 * depth) ' '

mutual

/-- The written form of a value that stands at some depth. -/
def write (depth : Nat) : Json → List Char
  | .null => "null".toList
  | .bool value => if value then "true".toList else "false".toList
  | .string text => writeString text
  | .array [] => ['[', ']']
  | .array (item :: items) =>
    '[' :: newLine (depth + 1) ++ write (depth + 1) item ++ writeItems (depth + 1) items ++
      newLine depth ++ [']']
  | .object [] => ['{', '}']
  | .object ((name, value) :: members) =>
    '{' :: newLine (depth + 1) ++ writeString name ++ [':', ' '] ++ write (depth + 1) value ++
      writeMembers (depth + 1) members ++ newLine depth ++ ['}']

def writeItems (depth : Nat) : List Json → List Char
  | [] => []
  | item :: items => ',' :: newLine depth ++ write depth item ++ writeItems depth items

def writeMembers (depth : Nat) : List (String × Json) → List Char
  | [] => []
  | (name, value) :: members =>
    ',' :: newLine depth ++ writeString name ++ [':', ' '] ++ write depth value ++
      writeMembers depth members

end

def render (j : Json) : String :=
  String.ofList (write 0 j)

end Json

end RecordCompat
