import RecordCompat.Proofs.DeclaredProperties
import RecordCompat.Proofs.OppositeDirection
import RecordCompat.Proofs.Splitting

/-! Nullable types. A type is nullable if its outermost form has a question mark. What is read of
it is whether its text ends in one, and the text of a function type ends in the text of its result.
So the two differ for function types whose result ends in a question mark, and for no others. -/
namespace RecordCompat.Source

open Text

inductive TypeExpr
  | name (name : List Char)
  | generic (name : List Char) (arguments : List TypeExpr)
  | function (parameters : List TypeExpr) (result : TypeExpr)
  | group (inner : TypeExpr)
  | nullable (inner : TypeExpr)

namespace TypeExpr

/-- Whether the outermost form of a type has the question mark. -/
def isNullable : TypeExpr → Bool
  | nullable _ => true
  | _ => false

def isFunction : TypeExpr → Bool
  | function .. => true
  | _ => false

/-- Whether a question mark comes last, that of the type or that of a function's result. -/
def endsInMark : TypeExpr → Bool
  | nullable _ => true
  | function _ result => result.endsInMark
  | _ => false

/-- Whether it is the result of a function that ends in a question mark. -/
def resultEndsInMark : TypeExpr → Bool
  | function _ result => result.endsInMark
  | _ => false

theorem endsInMark_eq (type : TypeExpr) :
    type.endsInMark = (type.isNullable || type.resultEndsInMark) := by
  cases type <;> simp [endsInMark, isNullable, resultEndsInMark]

theorem resultEndsInMark_of_isNullable {type : TypeExpr} (isNullable : type.isNullable = true) :
    type.resultEndsInMark = false := by
  cases type with
  | nullable => rfl
  | _ => cases isNullable

end TypeExpr

/-- What a piece of type text spells: a type, a type with blanks around it, a list of such types. -/
inductive Fragment
  | type (type : TypeExpr)
  | item (type : TypeExpr)
  | items (types : List TypeExpr)

/-- The texts of types. A question mark behind a function type belongs to its result. -/
inductive Spelled : Fragment → List Char → Prop
  | name {name : List Char} : IsName name → Spelled (.type (.name name)) name
  | generic {name s text : List Char} {types : List TypeExpr} : IsName name → Blanks s →
      types ≠ [] → Spelled (.items types) text →
      Spelled (.type (.generic name types)) (name ++ (s ++ '<' :: (text ++ ['>'])))
  | function {text s t text' : List Char} {types : List TypeExpr} {result : TypeExpr} :
      Spelled (.items types) text → Blanks s → Blanks t → Spelled (.type result) text' →
      Spelled (.type (.function types result))
        ('(' :: (text ++ ')' :: (s ++ '-' :: '>' :: (t ++ text'))))
  | group {text : List Char} {inner : TypeExpr} : Spelled (.item inner) text →
      Spelled (.type (.group inner)) ('(' :: (text ++ [')']))
  | nullable {text s : List Char} {inner : TypeExpr} : Spelled (.type inner) text →
      inner.isFunction = false → Blanks s →
      Spelled (.type (.nullable inner)) (text ++ (s ++ ['?']))
  | spaced {s text t : List Char} {type : TypeExpr} : Blanks s → Spelled (.type type) text →
      Blanks t → Spelled (.item type) (s ++ (text ++ t))
  | none {s : List Char} : Blanks s → Spelled (.items []) s
  | one {text : List Char} {type : TypeExpr} : Spelled (.item type) text →
      Spelled (.items [type]) text
  | more {text text' : List Char} {type next : TypeExpr} {types : List TypeExpr} :
      Spelled (.item type) text → Spelled (.items (next :: types)) text' →
      Spelled (.items (type :: next :: types)) (text ++ ',' :: text')

def Fragment.part : Fragment → TypePart
  | .type _ => .type
  | .item _ => .item
  | .items _ => .items

variable {type : TypeExpr} {text : List Char}

theorem Spelled.shape {fragment : Fragment} (spelled : Spelled fragment text) :
    TypeShape fragment.part text := by
  induction spelled with
  | name isName => exact .name isName
  | generic isName blanks _ _ ih => exact .generic isName blanks ih
  | function _ blanks blanks' _ items result => exact .function items blanks blanks' result
  | group _ ih => exact .group ih
  | nullable _ _ blanks ih => exact .nullable ih blanks
  | spaced blanks _ blanks' ih => exact .spaced blanks ih blanks'
  | none blanks => exact .none blanks
  | one _ ih => exact .one ih
  | more _ _ first later => exact .more first later

theorem Spelled.first {fragment : Fragment} (spelled : Spelled fragment text)
    (whole : fragment = .type type) :
    ∃ c rest, text = c :: rest ∧ (isWord c = true ∨ c = '(') := by
  have word {name : List Char} (isName : IsName name) (rest : List Char) :
      ∃ c tail, name ++ rest = c :: tail ∧ (isWord c = true ∨ c = '(') := by
    obtain ⟨c, tail, rfl⟩ := List.exists_cons_of_ne_nil isName.1
    exact ⟨c, tail ++ rest, rfl, .inl (isName.2 c List.mem_cons_self)⟩
  induction spelled generalizing type with
  | name isName => simpa using word isName []
  | generic isName => exact word isName _
  | function => exact ⟨'(', _, rfl, .inr rfl⟩
  | group => exact ⟨'(', _, rfl, .inr rfl⟩
  | nullable _ _ _ ih =>
    obtain ⟨c, rest, rfl, head⟩ := ih rfl
    exact ⟨c, _, rfl, head⟩
  | _ => cases whole

/-- The last character of a type is a question mark, or else part of a name or a bracket. -/
theorem Spelled.last {fragment : Fragment} (spelled : Spelled fragment text)
    (whole : fragment = .type type) : ∃ c, text.getLast? = some c ∧
      (c = '?' ∧ type.endsInMark = true ∨
        (isWord c = true ∨ c = '>' ∨ c = ')') ∧ type.endsInMark = false) := by
  induction spelled generalizing type with
  | @name name isName =>
    cases whole
    have last := List.getLast?_eq_getLast_of_ne_nil isName.1
    generalize name.getLast isName.1 = c at last
    exact ⟨c, last, .inr ⟨.inl (isName.2 c (List.mem_of_mem_getLast? last)), rfl⟩⟩
  | @generic name s text =>
    cases whole
    have split : name ++ (s ++ '<' :: (text ++ ['>'])) = name ++ (s ++ '<' :: text) ++ ['>'] := by
      simp
    exact ⟨'>', by rw [split, List.getLast?_concat], .inr ⟨.inr (.inl rfl), rfl⟩⟩
  | @function text s t text' _ _ _ _ _ _ _ ih =>
    cases whole
    obtain ⟨c, last, end?⟩ := ih rfl
    refine ⟨c, ?_, end?⟩
    have split : '(' :: (text ++ ')' :: (s ++ '-' :: '>' :: (t ++ text'))) =
        '(' :: (text ++ ')' :: (s ++ '-' :: '>' :: t)) ++ text' := by simp
    rw [split, List.getLast?_append, last]
    rfl
  | @group text =>
    cases whole
    exact ⟨')', by rw [← List.cons_append, List.getLast?_concat], .inr ⟨.inr (.inr rfl), rfl⟩⟩
  | @nullable text s =>
    cases whole
    exact ⟨'?', by rw [← List.append_assoc, List.getLast?_concat], .inl ⟨rfl, rfl⟩⟩
  | _ => cases whole

theorem Spelled.endsInMark_iff (spelled : Spelled (.type type) text) :
    text.getLast? = some '?' ↔ type.endsInMark = true := by
  obtain ⟨c, last, ⟨rfl, marked⟩ | ⟨char, unmarked⟩⟩ := spelled.last rfl
  · simp [last, marked]
  · have other : c ≠ '?' := by
      rintro rfl
      exact absurd char (by decide)
    simp [last, unmarked, other]

theorem stripRight_ne_nil {text : List Char} {c : Char} (member : c ∈ text)
    (noBlank : isBlank c = false) : stripRight text ≠ [] := by
  intro empty
  have split := @List.takeWhile_append_dropWhile _ isBlank text.reverse
  rw [List.reverse_eq_nil_iff.mp empty, List.append_nil] at split
  rw [← List.mem_reverse, ← split] at member
  have blank := List.all_eq_true.mp List.all_takeWhile c member
  rw [noBlank] at blank
  cases blank

theorem Spelled.unmarked (spelled : Spelled (.type type) text)
    (marked : text.getLast? = some '?') : stripRight text.dropLast ≠ [] := by
  obtain ⟨c, rest, rfl, char⟩ := spelled.first rfl
  have noBlank : isBlank c = false := spelled.shape.trimmed.first c rfl
  have other : c ≠ '?' := by
    rintro rfl
    exact absurd char (by decide)
  cases rest with
  | nil => exact absurd (Option.some.inj marked) other
  | cons d rest => exact stripRight_ne_nil List.mem_cons_self noBlank

/-- What stands behind a type: an equals sign and anything, or nothing. -/
def defaultText : Option (List Char) → List Char
  | none => []
  | some code => '=' :: code

/-- Whether there is a default, and not just white space. -/
def suppliesDefault (default : Option (List Char)) : Bool :=
  default.any fun code => strip code ≠ []

/-- A parameter that declares the property `name` of the type `text`, possibly with a default. -/
inductive TypedAs (name text : List Char) (default : Option (List Char)) : List Char → Prop
  | intro {front word s t u v : List Char} :
      Marked front
        (word ++ (s ++ (name ++ (t ++ ':' :: (u ++ text ++ v ++ defaultText default))))) →
      isPropertyWord word = true → Blanks s → s ≠ [] → IsName name → Blanks t → Blanks u →
      Blanks v → TypedAs name text default
        (front ++ (word ++ (s ++ (name ++ (t ++ ':' :: (u ++ text ++ v ++ defaultText default))))))

variable {name chunk : List Char} {default : Option (List Char)}

theorem default_of_defaultText {front : List Char} (noEquals : ∀ c ∈ front, c ≠ '=') :
    (front ++ defaultText default).takeWhile (· ≠ '=') = front ∧
      decide (strip (((front ++ defaultText default).dropWhile (· ≠ '=')).drop 1) ≠ []) =
        suppliesDefault default := by
  have inside : ∀ c ∈ front, decide (c ≠ '=') = true :=
    fun c member => decide_eq_true (noEquals c member)
  have ends : ∀ c, (defaultText default).head? = some c → decide (c ≠ '=') = false := by
    intro c head
    cases default with
    | none => cases head
    | some => simp [← Option.some.inj head]
  rw [takeWhile_run inside ends, dropWhile_run inside ends]
  cases default with
  | none => exact ⟨rfl, rfl⟩
  | some => exact ⟨rfl, rfl⟩

/-- What is read of a parameter of a known type. -/
theorem TypedAs.read (typed : TypedAs name text default chunk)
    (spelled : Spelled (.type type) text) : ∃ bare, Parameter.read chunk =
      .property ⟨String.ofList name, bare, type.endsInMark, suppliesDefault default, 0⟩ := by
  obtain @⟨front, word, s, t, u, v, marked, property, blanks, wide, isName, blanks', before,
    behind⟩ := typed
  have found := marked.property? (leads_of_isName (isName_of_property property) _)
    (property?_named property (gap_of_blanks blanks) wide isName (gap_of_blanks blanks') _)
  have noEquals : ∀ c ∈ u ++ text ++ v, c ≠ '=' := by
    simp only [List.forall_mem_append]
    exact ⟨⟨fun c member => ne_equals_of_typeChar (before.typeChars c member),
      fun c member => ne_equals_of_typeChar (spelled.shape.chars c member)⟩,
      fun c member => ne_equals_of_typeChar (behind.typeChars c member)⟩
  obtain ⟨typeText, hasDefault⟩ := @default_of_defaultText default _ noEquals
  have mark : decide (text.getLast? = some '?') = type.endsInMark := by
    rw [Bool.eq_iff_iff, decide_eq_true_eq, spelled.endsInMark_iff]
  have nonempty : (if text.getLast? = some '?' then stripRight text.dropLast else text) ≠ [] := by
    split
    next marked => exact spelled.unmarked marked
    next => exact spelled.shape.trimmed.nonempty
  simp only [Parameter.read, found, typeText, spelled.shape.trimmed.strip_padded before behind]
  rw [if_neg nonempty, mark, hasDefault]
  exact ⟨_, rfl⟩

theorem FirstOf.field {record : String} {chunks : List (List Char)} {f : Field}
    (first : FirstOf f.name chunks chunk) (read : Parameter.read chunk = .property f) :
    ∃ k : Int, { f with position := k } ∈ (Record.ofFirst record
      ((chunks.map Parameter.read).filterMap Parameter.property?)).fields := by
  obtain ⟨before, after, rfl, earlier⟩ := first
  have kept : f ∈ firstBy Field.name
      (((before ++ chunk :: after).map Parameter.read).filterMap Parameter.property?) := by
    refine mem_firstBy_iff.mpr ⟨_, (after.map Parameter.read).filterMap Parameter.property?,
      by rw [List.map_append, List.map_cons, read, List.filterMap_append]; rfl, ?_⟩
    intro g member
    obtain ⟨parameter, among, isProperty⟩ := List.mem_filterMap.mp member
    obtain ⟨c, member, rfl⟩ := List.mem_map.mp among
    exact earlier c member g (Parameter.eq_property isProperty)
  obtain ⟨i, inside, rfl⟩ := List.mem_iff_getElem.mp kept
  exact ⟨i, List.mem_mapIdx.mpr ⟨i, inside, rfl⟩⟩

def propertyText (name text : List Char) : List Char :=
  "val".toList ++ ' ' :: (name ++ ':' :: ' ' :: text)

def declarationText (record name text : List Char) : List Char :=
  "data".toList ++ ' ' :: ("class".toList ++ ' ' ::
    (record ++ '(' :: (propertyText name text ++ [')'])))

theorem typedAs_property (isName : IsName name) :
    TypedAs name text none (propertyText name text) := by
  have blank : Blanks [' '] := by decide
  have whole : propertyText name text = [] ++ ("val".toList ++ ([' '] ++ (name ++
      ([] ++ ':' :: ([' '] ++ text ++ [] ++ defaultText none))))) := by
    simp only [propertyText, defaultText, List.nil_append, List.singleton_append, List.append_nil]
  rw [whole]
  exact .intro .nil (by decide) blank (List.cons_ne_nil _ _) isName (List.forall_mem_nil _) blank
    (List.forall_mem_nil _)

theorem plain_head (isName : IsName name) :
    Plain ("val".toList ++ [' '] ++ name ++ [':', ' ']) := by
  have word : Plain ("val".toList ++ [' ']) := by decide
  have colon : Plain [':', ' '] := by decide
  exact (word.append isName.plain).append colon

theorem propertyText_eq (name text : List Char) :
    propertyText name text = "val".toList ++ [' '] ++ name ++ [':', ' '] ++ text := by
  simp only [propertyText, List.append_assoc, List.cons_append, List.nil_append]

theorem fits_property (isName : IsName name) (spelled : Spelled (.type type) text) :
    Fits (propertyText name text) := by
  have shape := spelled.shape
  have typed := fits_nil.behind (fun c member => opensLiteral_of_typeChar (shape.chars c member))
    (shape.passes rfl nofun)
  rw [List.append_nil] at typed
  rw [propertyText_eq]
  exact typed.behind_plain (plain_head isName)

theorem parameters_property (isName : IsName name) (spelled : Spelled (.type type) text) :
    parameters (propertyText name text) = [propertyText name text] := by
  have word : IsName "val".toList := by decide
  have suffix : text <:+ propertyText name text := by
    rw [propertyText_eq]
    exact List.suffix_append _ _
  have trimmed : Trimmed (propertyText name text) :=
    word.trimmed.of_ends spelled.shape.trimmed (List.prefix_append _ _) suffix
  have stripped := trimmed.strip_padded (List.forall_mem_nil _) (List.forall_mem_nil _)
  rw [List.nil_append, List.append_nil] at stripped
  rw [(fits_property isName spelled).parameters, stripped,
    List.filter_cons_of_pos (by simpa using trimmed.nonempty), List.filter_nil]

theorem Spelled.strips {fragment : Fragment} (spelled : Spelled fragment text) :
    Strips text text := by
  have chars := spelled.shape.chars
  clear spelled
  induction text with
  | nil => exact Strips.nil
  | cons c text ih =>
    obtain ⟨first, later⟩ := List.forall_mem_cons.mp chars
    have noSlash : c ≠ '/' := by
      rintro rfl
      rcases first with word | blank | mark
      · exact absurd word (by decide)
      · exact absurd blank (by decide)
      · exact absurd mark (by decide)
    exact (strips_char ⟨opensLiteral_of_typeChar first, noSlash⟩).append (ih later)

theorem declarationText_eq (record name text : List Char) :
    declarationText record name text =
      "data".toList ++ [' '] ++ "class".toList ++ [' '] ++ record ++ [] ++ ['('] ++
        (propertyText name text ++ [')']) := by
  simp only [declarationText, List.append_assoc, List.cons_append, List.nil_append]

theorem stripComments_declaration {record : List Char} (isRecord : IsName record)
    (isName : IsName name) (spelled : Spelled (.type type) text) :
    stripComments (declarationText record name text) = declarationText record name text := by
  have words : Plain ("data".toList ++ [' '] ++ "class".toList ++ [' ']) := by decide
  have opening : Strips ['('] ['('] := strips_char (by decide)
  have closing : Strips [')'] [')'] := strips_char (by decide)
  have property := (strips_plain (plain_head isName)).append spelled.strips
  rw [← propertyText_eq] at property
  have head := ((strips_plain (words.append isRecord.plain)).append .nil).append opening
  have strips := head.append (property.append closing) []
  rwa [← declarationText_eq, List.append_nil, stripComments_nil, List.append_nil] at strips

theorem header_declaration {record : List Char} (isRecord : IsName record) :
    ∃ h ∈ headers (declarationText record name text), h.name = String.ofList record ∧
      (declarationText record name text).drop h.stop = propertyText name text ++ [')'] := by
  have wide : [' '] ≠ [] := List.cons_ne_nil _ _
  have header : headerAt? (declarationText record name text) = _ :=
    headerAt?_head gap_space wide gap_space wide isRecord .nil (propertyText name text ++ [')'])
  refine ⟨_, by rw [headers, headersFrom_header header]; exact List.mem_cons_self, rfl, ?_⟩
  rw [declarationText_eq]
  exact List.drop_left' (by rw [List.length_append, List.length_singleton, Nat.zero_add])

/-- The field is nullable if the type is, and if neither it has a default nor the type is nullable,
it is reported as breaking where it is appended to a record. -/
structure FaithfulTo (type : TypeExpr) (f : Field) : Prop where
  nullable : f.nullable = type.isNullable
  required : f.hasDefault = false → type.isNullable = false → ∀ old new : Record,
    new.fields = old.fields ++ [{ f with position := old.fields.length }] →
      Finds old new "field_added" .breaking f.name

theorem finds_appended {old new : Record} {f : Field} (required : Required f)
    (appended : new.fields = old.fields ++ [{ f with position := old.fields.length }]) :
    Finds old new "field_added" .breaking f.name := by
  have member : { f with position := old.fields.length } ∈ new.fields := by simp [appended]
  have distinct := new.distinct
  rw [appended, List.map_append, List.nodup_append] at distinct
  have fresh : f.name ∉ old.fieldNames := fun stands =>
    distinct.2.2 f.name stands f.name List.mem_cons_self rfl
  exact ⟨_, List.mem_map_of_mem (added_of_fresh member fresh required), rfl, rfl, rfl⟩

theorem faithfulTo_iff {f : Field} (read : f.nullable = type.endsInMark) :
    FaithfulTo type f ↔ type.resultEndsInMark = false := by
  rw [TypeExpr.endsInMark_eq] at read
  constructor
  · -- The mark of a result is read as that of the type, which then has to have one as well.
    intro faithful
    by_contra marked
    rw [Bool.not_eq_false] at marked
    have nullable := faithful.nullable
    rw [read, marked, Bool.or_true] at nullable
    rw [TypeExpr.resultEndsInMark_of_isNullable nullable.symm] at marked
    cases marked
  · intro unmarked
    rw [unmarked, Bool.or_false] at read
    exact ⟨read, fun noDefault notNull _ _ => finds_appended ⟨noDefault, read.trans notNull⟩⟩

/-- A parameter of a known type, the first of its name in a declaration, becomes a field. It is
faithful to the type unless this is the type of a function whose result ends in a question mark.
In a declaration of a single property, this is such a parameter. -/
theorem nullable_iff (isName : IsName name) (spelled : Spelled (.type type) text) :
    (∀ (source : String) (h : Header) (list chunk : List Char) (default : Option (List Char)),
      h ∈ headers (stripComments source.toList) →
      bracketed? ((stripComments source.toList).drop h.stop) = some list →
      TypedAs name text default chunk → FirstOf (String.ofList name) (parameters list) chunk →
      ∃ r ∈ (extract source).records, ∃ f ∈ r.fields,
        Origin (stripComments source.toList) r f chunk ∧ f.name = String.ofList name ∧
        f.hasDefault = suppliesDefault default ∧
        (FaithfulTo type f ↔ type.resultEndsInMark = false)) ∧
    ∀ record, IsName record →
      ∃ r ∈ (extract (String.ofList (declarationText record name text))).records, ∃ f,
        r.name = String.ofList record ∧ r.fields = [f] ∧ f.name = String.ofList name ∧
        f.hasDefault = false ∧ (FaithfulTo type f ↔ type.resultEndsInMark = false) := by
  constructor
  · intro source h list chunk default visited closed typed first
    obtain ⟨bare, read⟩ := typed.read spelled
    obtain ⟨k, member⟩ := FirstOf.field first read
    have record := record?_of_list closed
    have found := mem_records_iff.mpr ⟨h, visited, record⟩
    refine ⟨_, found, _, member, ?_, rfl, rfl, faithfulTo_iff rfl⟩
    exact ⟨h, visited, record, list, closed, read, first⟩
  · intro record isRecord
    obtain ⟨h, visited, named, behind⟩ := @header_declaration text name record isRecord
    obtain ⟨bare, read⟩ := (typedAs_property isName).read spelled
    have code : stripComments (String.ofList (declarationText record name text)).toList =
        declarationText record name text := by
      rw [String.toList_ofList, stripComments_declaration isRecord isName spelled]
    have closed : bracketed? ((declarationText record name text).drop h.stop) =
        some (propertyText name text) := by
      rw [behind, (fits_property isName spelled).bracketed]
    rw [← code] at visited closed
    have declared := record?_of_list closed
    rw [parameters_property isName spelled, List.map_singleton, read, named] at declared
    exact ⟨_, mem_records_iff.mpr ⟨h, visited, declared⟩, _, rfl, rfl, rfl, rfl, faithfulTo_iff rfl⟩

/-- A nullable type with a function type inside. -/
theorem nullable_of_map :
    let type := TypeExpr.nullable (.generic "Map".toList [.name ['K'],
      .function [.nullable (.name ['V'])] (.nullable (.name "Int".toList))])
    let text := "Map<K, (V?) -> Int?>?".toList
    IsName "id".toList ∧ Spelled (.type type) text ∧
      ∃ r ∈ (extract (String.ofList (declarationText "User".toList "id".toList text))).records,
        ∃ f, r.fields = [f] ∧ f.nullable = true := by
  intro type text
  have blank : Blanks [' '] := by decide
  have noBlank : Blanks [] := List.forall_mem_nil _
  have k : Spelled (.type (.name ['K'])) ['K'] := .name (by decide)
  have v : Spelled (.type (.name ['V'])) ['V'] := .name (by decide)
  have int : Spelled (.type (.name "Int".toList)) "Int".toList := .name (by decide)
  have function := Spelled.function (.one (.spaced noBlank (v.nullable rfl noBlank) noBlank)) blank
    blank (int.nullable rfl noBlank)
  have items := Spelled.more (.spaced noBlank k noBlank) (.one (.spaced blank function noBlank))
  have isMap : IsName "Map".toList := by decide
  have spelled := (Spelled.generic isMap noBlank (List.cons_ne_nil _ _) items).nullable rfl noBlank
  have isName : IsName "id".toList := by decide
  have isRecord : IsName "User".toList := by decide
  have same : "Map".toList ++ ([] ++ '<' :: (([] ++ (['K'] ++ [])) ++ ',' :: ([' '] ++ (('(' ::
      (([] ++ ((['V'] ++ ([] ++ ['?'])) ++ [])) ++ ')' :: ([' '] ++ '-' :: '>' :: ([' '] ++
        ("Int".toList ++ ([] ++ ['?'])))))) ++ [])) ++ ['>'])) ++ ([] ++ ['?']) = text := by decide
  rw [same] at spelled
  obtain ⟨r, found, f, -, fields, -, -, faithful⟩ := (nullable_iff isName spelled).2 _ isRecord
  exact ⟨isName, spelled, r, found, f, fields, (faithful.mpr rfl).nullable⟩

/-- A function type is read as nullable because its result is, and nothing is reported where a field
of that type is appended without a default. -/
theorem nullable_by_result :
    let type := TypeExpr.function [.name "Int".toList] (.nullable (.name "String".toList))
    let text := "(Int) -> String?".toList
    let f : Field := ⟨"f", "(Int) -> String", true, false, 0⟩
    let source := "data class A(val f: (Int) -> String?)"
    Spelled (.type type) text ∧ TypedAs ['f'] text none "val f: (Int) -> String?".toList ∧
      Record.ofFirst "A" [f] ∈ (extract source).records ∧ type.isNullable = false ∧
      f.nullable = true ∧ changes (Record.ofFirst "A" []) (Record.ofFirst "A" [f]) = [] := by
  intro type text f source
  have blank : Blanks [' '] := by decide
  have noBlank : Blanks [] := List.forall_mem_nil _
  have int : Spelled (.type (.name "Int".toList)) "Int".toList := .name (by decide)
  have string : Spelled (.type (.name "String".toList)) "String".toList := .name (by decide)
  have spelled := Spelled.function (.one (.spaced noBlank int noBlank)) blank blank
    (string.nullable rfl noBlank)
  have same : '(' :: (([] ++ ("Int".toList ++ [])) ++ ')' :: ([' '] ++ '-' :: '>' :: ([' '] ++
      ("String".toList ++ ([] ++ ['?']))))) = text := by decide
  rw [same] at spelled
  have typed : TypedAs ['f'] text none (propertyText ['f'] text) := typedAs_property (by decide)
  have chunk : propertyText ['f'] text = "val f: (Int) -> String?".toList := by decide
  rw [chunk] at typed
  have visited : ⟨"A", 0, 13⟩ ∈ headers (stripComments source.toList) := by decide +kernel
  have closed : bracketed? ((stripComments source.toList).drop 13) =
      some "val f: (Int) -> String?".toList := by decide +kernel
  have read : (parameters "val f: (Int) -> String?".toList).map Parameter.read = [.property f] := by
    decide +kernel
  have record := @record?_of_list _ _ ⟨"A", 0, 13⟩ closed
  rw [read] at record
  have found : Record.ofFirst "A" [f] ∈ (extract source).records :=
    mem_records_iff.mpr ⟨_, visited, record⟩
  exact ⟨spelled, typed, found, rfl, rfl, by decide⟩

end RecordCompat.Source
