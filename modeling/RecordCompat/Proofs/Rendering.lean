import RecordCompat.Proofs.Literals
import RecordCompat.Source.Extraction

/-! The written forms of records. Between the words and marks of a declaration any white
space and any comments may stand, so each relation here has two texts: the written one, and
the bare one that is left when comments are stripped. A type is part of a record as bare
text. -/
namespace RecordCompat.Source

open Text

/-- What holds of the characters of a text is decided along the text, not over all characters. -/
instance (priority := high) decidableForallMem {p : Char → Prop} [DecidablePred p]
    {text : List Char} : Decidable (∀ c ∈ text, p c) :=
  List.decidableBAll p text

/-- A nonempty run of word characters. -/
def IsName (text : List Char) : Prop :=
  text ≠ [] ∧ ∀ c ∈ text, isWord c = true

instance (text : List Char) : Decidable (IsName text) :=
  inferInstanceAs (Decidable (_ ∧ _))

theorem IsName.not_mem {name : List Char} (isName : IsName name) {c : Char}
    (noWord : isWord c = false) : c ∉ name :=
  fun member => Bool.false_ne_true (noWord.symm.trans (isName.2 c member))

/-- What stands between the marks of a block comment: characters at which no mark starts,
and further block comments. -/
inductive CommentBody : List Char → Prop
  | nil : CommentBody []
  | char {c : Char} {rest : List Char} : CommentBody rest →
      ¬ ['/', '*'] <+: c :: rest ++ ['*', '/'] → ¬ ['*', '/'] <+: c :: rest ++ ['*', '/'] →
      CommentBody (c :: rest)
  | comment {inner rest : List Char} : CommentBody inner → CommentBody rest →
      CommentBody ('/' :: '*' :: inner ++ '*' :: '/' :: rest)

/-- White space and comments, closed or ended by their line. A comment leaves a blank and
the line ends inside it. -/
inductive Gap : List Char → List Char → Prop
  | nil : Gap [] []
  | blank {c : Char} {w p : List Char} : isBlank c = true → Gap w p → Gap (c :: w) (c :: p)
  | line {text w p : List Char} : '\n' ∉ text → Gap w p →
      Gap ('/' :: '/' :: text ++ '\n' :: w) (' ' :: '\n' :: p)
  | block {body w p : List Char} : CommentBody body → Gap w p →
      Gap ('/' :: '*' :: body ++ '*' :: '/' :: w) (' ' :: body.filter (· = '\n') ++ p)

/-- The parts of a type: a type, a type with gaps around it, a list of such types. -/
inductive TypePart
  | type
  | item
  | items
  deriving DecidableEq

/-- Names, generic types, function types and nullable types of any depth. -/
inductive TypeText : TypePart → List Char → List Char → Prop
  | name {name : List Char} : IsName name → TypeText .type name name
  | generic {name a b w p : List Char} : IsName name → Gap a b → TypeText .items w p →
      TypeText .type (name ++ a ++ '<' :: w ++ ['>']) (name ++ b ++ '<' :: p ++ ['>'])
  | function {a b c d w p v q : List Char} : TypeText .items w p → Gap a b → Gap c d →
      TypeText .type v q →
      TypeText .type ('(' :: w ++ ')' :: a ++ '-' :: '>' :: c ++ v)
        ('(' :: p ++ ')' :: b ++ '-' :: '>' :: d ++ q)
  | nullable {a b w p : List Char} : TypeText .type w p → Gap a b →
      TypeText .type (w ++ a ++ ['?']) (p ++ b ++ ['?'])
  | spaced {a b c d w p : List Char} : Gap a b → TypeText .type w p → Gap c d →
      TypeText .item (a ++ w ++ c) (b ++ p ++ d)
  | none {a b : List Char} : Gap a b → TypeText .items a b
  | one {w p : List Char} : TypeText .item w p → TypeText .items w p
  | more {w p v q : List Char} : TypeText .item w p → TypeText .items v q →
      TypeText .items (w ++ ',' :: v) (p ++ ',' :: q)

/-- Annotations without arguments and modifiers, each followed by a gap. -/
inductive Markers : List Char → List Char → Prop
  | nil : Markers [] []
  | annotated {name a b w p : List Char} : IsName name → Gap a b → a ≠ [] → Markers w p →
      Markers ('@' :: name ++ a ++ w) ('@' :: name ++ b ++ p)
  | modifier {word a b w p : List Char} : word ∈ modifiers → Gap a b → a ≠ [] → Markers w p →
      Markers (word ++ a ++ w) (word ++ b ++ p)

/-- Whether brackets close what was opened, inside `depth` of them, and all are closed. -/
def balanced (depth : Nat) : List Lexeme → Bool
  | [] => depth == 0
  | x :: rest =>
    if x.opens then balanced (depth + 1) rest
    else if x.closes then depth != 0 && balanced (depth - 1) rest
    else balanced depth rest

/-- The lexemes that stand outside all brackets, from inside `depth` of them on. -/
def outermost (depth : Nat) : List Lexeme → List Lexeme
  | [] => []
  | x :: rest =>
    if x.opens then outermost (depth + 1) rest
    else if x.closes then outermost (depth - 1) rest
    else if depth = 0 then x :: outermost depth rest
    else outermost depth rest

/-- A default: code that ends what it begins and cannot be taken for anything around it. -/
structure IsDefault (code : List Char) : Prop where
  nonempty : code ≠ []
  stripped : strip code = code
  noClass : ¬ "class".toList <:+: code
  closed : ∀ text, .literal text ∈ lexemes code → isClosedLiteral text = true
  noSlash : .char '/' ∉ lexemes code
  balanced : balanced 0 (lexemes code) = true
  noCut : ∀ x ∈ outermost 0 (lexemes code), x ≠ .char ',' ∧ x ≠ .char '<' ∧ x ≠ .char '>'

inductive NullableText : Bool → List Char → List Char → Prop
  | absent : NullableText false [] []
  | present {a b : List Char} : Gap a b → NullableText true (a ++ ['?']) (b ++ ['?'])

inductive DefaultText : Bool → List Char → List Char → Prop
  | absent : DefaultText false [] []
  | present {a b c d code : List Char} : Gap a b → Gap c d → IsDefault code →
      DefaultText true (a ++ '=' :: c ++ code) (b ++ '=' :: d ++ code)

/-- A field with its markers, `val` or `var`, its name and its type. -/
inductive FieldText (f : Field) : List Char → List Char → Prop
  | intro {word a b c d e g w p v x q y z : List Char} : Markers w p →
      isPropertyWord word = true → Gap a b → a ≠ [] → IsName f.name.toList → Gap c d →
      Gap e g → TypeText .type v f.type.toList → f.type.toList.getLast? ≠ some '?' →
      NullableText f.nullable x q → DefaultText f.hasDefault y z →
      FieldText f (w ++ word ++ a ++ f.name.toList ++ c ++ ':' :: e ++ v ++ x ++ y)
        (p ++ word ++ b ++ f.name.toList ++ d ++ ':' :: g ++ f.type.toList ++ q ++ z)

/-- The fields between the parentheses of a declaration; a comma may follow the last. -/
inductive FieldsText : List Field → List Char → List Char → Prop
  | none {a b : List Char} : Gap a b → FieldsText [] a b
  | last {f : Field} {a b c d w p : List Char} : Gap a b → FieldText f w p → Gap c d →
      FieldsText [f] (a ++ w ++ c) (b ++ p ++ d)
  | more {f : Field} {rest : List Field} {a b c d w p v q : List Char} : Gap a b →
      FieldText f w p → Gap c d → FieldsText rest v q →
      FieldsText (f :: rest) (a ++ w ++ c ++ ',' :: v) (b ++ p ++ d ++ ',' :: q)

inductive RecordText (r : Record) : List Char → List Char → Prop
  | intro {a b c d e g w p : List Char} : r.source = "" → IsName r.name.toList → Gap a b →
      a ≠ [] → Gap c d → c ≠ [] → Gap e g → FieldsText r.fields w p →
      RecordText r
        ("data".toList ++ a ++ "class".toList ++ c ++ r.name.toList ++ e ++ '(' :: w ++ [')'])
        ("data".toList ++ b ++ "class".toList ++ d ++ r.name.toList ++ g ++ '(' :: p ++ [')'])

/-- The records of a source text. Its last line may be a comment without a line end. -/
inductive Rendering : List Record → List Char → List Char → Prop
  | done {a b : List Char} : Gap a b → Rendering [] a b
  | comment {a b text : List Char} : Gap a b → '\n' ∉ text →
      Rendering [] (a ++ '/' :: '/' :: text) (b ++ [' '])
  | record {r : Record} {rest : List Record} {a b w p v q : List Char} : Gap a b →
      RecordText r w p → Rendering rest v q → Rendering (r :: rest) (a ++ w ++ v) (b ++ p ++ q)

structure WritableField (f : Field) : Prop where
  name : IsName f.name.toList
  type : ∃ w, TypeText .type w f.type.toList
  plain : f.type.toList.getLast? ≠ some '?'

/-- A record of no file, with names of word characters and types of the grammar. -/
structure WritableRecord (r : Record) : Prop where
  source : r.source = ""
  name : IsName r.name.toList
  fields : ∀ f ∈ r.fields, WritableField f

theorem gap_space : Gap [' '] [' '] :=
  .blank (by decide) .nil

theorem isDefault_zero : IsDefault ['0'] := by
  have read : lexemes ['0'] = [.char '0'] := lexemes_unquoted (by decide)
  constructor
  case nonempty => decide
  case stripped => decide
  case noClass => exact fun inside => absurd inside.length_le (by decide)
  all_goals rw [read]; simp [balanced, outermost, Lexeme.opens, Lexeme.closes]

theorem exists_fieldText {f : Field} (writable : WritableField f) : ∃ w p, FieldText f w p := by
  obtain ⟨isName, ⟨v, type⟩, plain⟩ := writable
  obtain ⟨x, q, mark⟩ : ∃ x q, NullableText f.nullable x q := by
    cases f.nullable with
    | false => exact ⟨_, _, .absent⟩
    | true => exact ⟨_, _, .present .nil⟩
  obtain ⟨y, z, default⟩ : ∃ y z, DefaultText f.hasDefault y z := by
    cases f.hasDefault with
    | false => exact ⟨_, _, .absent⟩
    | true => exact ⟨_, _, .present .nil .nil isDefault_zero⟩
  have property : isPropertyWord "val".toList = true := by decide
  exact ⟨_, _, .intro .nil property gap_space (List.cons_ne_nil _ _) isName .nil .nil type plain
    mark default⟩

theorem exists_fieldsText {fields : List Field} (writable : ∀ f ∈ fields, WritableField f) :
    ∃ w p, FieldsText fields w p := by
  induction fields with
  | nil => exact ⟨_, _, .none .nil⟩
  | cons f rest ih =>
    obtain ⟨first, later⟩ := List.forall_mem_cons.mp writable
    obtain ⟨_, _, field⟩ := exists_fieldText first
    obtain ⟨_, _, text⟩ := ih later
    exact ⟨_, _, .more .nil field .nil text⟩

theorem FieldsText.writable {fields : List Field} {w p : List Char} (text : FieldsText fields w p) :
    ∀ f ∈ fields, WritableField f := by
  have writable {f : Field} {w p : List Char} (field : FieldText f w p) : WritableField f := by
    cases field with
    | intro _ _ _ _ isName _ _ type plain => exact ⟨isName, ⟨_, type⟩, plain⟩
  induction text with
  | none => simp
  | last _ field => simpa using writable field
  | more _ field _ _ ih => exact List.forall_mem_cons.mpr ⟨writable field, ih⟩

/-- The lists of records that have a rendering are those of writable records. -/
theorem exists_rendering_iff {records : List Record} :
    (∃ written bare, Rendering records written bare) ↔ ∀ r ∈ records, WritableRecord r := by
  constructor
  · rintro ⟨written, bare, text⟩
    induction text with
    | done => simp
    | comment => simp
    | record _ text _ ih =>
      refine List.forall_mem_cons.mpr ⟨?_, ih⟩
      cases text with
      | intro source isName _ _ _ _ _ fields => exact ⟨source, isName, fields.writable⟩
  · intro writable
    induction records with
    | nil => exact ⟨_, _, .done .nil⟩
    | cons r rest ih =>
      obtain ⟨first, later⟩ := List.forall_mem_cons.mp writable
      obtain ⟨_, _, fields⟩ := exists_fieldsText first.fields
      obtain ⟨_, _, text⟩ := ih later
      have record := RecordText.intro first.source first.name gap_space (List.cons_ne_nil _ _)
        gap_space (List.cons_ne_nil _ _) .nil fields
      exact ⟨_, _, .record .nil record text⟩

end RecordCompat.Source
