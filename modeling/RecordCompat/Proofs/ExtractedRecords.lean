import RecordCompat.Proofs.CheckedExtraction
import RecordCompat.Proofs.HeaderPlaces

/-! What can be relied on in every record that a text declares, however broken the text is.
Names are runs of word characters, types are trimmed and end in front of the equals sign, and
the fields are numbered and named as records require, so no step of extraction fails. -/
namespace RecordCompat.Source

open Text

theorem isName_takeWhile {text : List Char} (nonempty : text.takeWhile isWord ≠ []) :
    IsName (text.takeWhile isWord) :=
  ⟨nonempty, List.all_eq_true.mp List.all_takeWhile⟩

theorem named?_isName {text name rest : List Char} (found : named? text = some (name, rest)) :
    IsName name := by
  simp only [named?, Option.bind_eq_bind, Option.bind_eq_some_iff] at found
  obtain ⟨behind, -, found⟩ := found
  split at found
  next c run tail here _ =>
    obtain ⟨rfl, -⟩ := Prod.mk.inj (Option.some.inj found)
    exact isName_takeWhile (by simp [here])
  next => cases found

/-- A property is read at its name, or else from the shorter text behind a marker or modifier. -/
theorem property?_cases {text : List Char} {found : List Char × List Char}
    (read : property? text = some found) :
    (∃ behind, named? behind = some found) ∨
      ∃ later, later.length < text.length ∧ property? later = some found := by
  rw [property?.eq_def] at read
  split at read
  next rest =>
    dsimp only at read
    split at read
    next => cases read
    next =>
      simp only [Option.orElse_eq_orElse, Option.orElse_eq_or, Option.or_eq_some_iff] at read
      rcases read with later | ⟨-, here⟩
      · have blanks := skipBlanks_length_le (skipArguments (rest.dropWhile isMarkerChar))
        have arguments := skipArguments_length_le (rest.dropWhile isMarkerChar)
        have marker := (List.dropWhile_suffix (l := rest) isMarkerChar).length_le
        refine .inr ⟨_, ?_, later⟩
        rw [List.length_cons]
        omega
      · split at here
        next => exact .inl ⟨_, here⟩
        next => cases here
  next =>
    split at read
    next rest dropped => exact .inr ⟨rest, dropModifier?_length dropped, read⟩
    next =>
      split at read
      next => exact .inl ⟨_, read⟩
      next => cases read

theorem property?_isName {text name rest : List Char}
    (found : property? text = some (name, rest)) : IsName name := by
  induction bound : text.length using Nat.strongRecOn generalizing text with
  | _ length ih =>
    rcases property?_cases found with ⟨behind, named⟩ | ⟨later, shorter, read⟩
    · exact named?_isName named
    · exact ih later.length (bound ▸ shorter) read rfl

theorem headerAt?_isName {text name : List Char} {n : Nat}
    (found : headerAt? text = some (name, n)) : IsName name := by
  simp only [headerAt?, Option.bind_eq_bind, Option.bind_eq_some_iff] at found
  obtain ⟨first, -, second, -, third, -, fourth, -, found⟩ := found
  split at found
  next header =>
    obtain ⟨rfl, -⟩ := Prod.mk.inj (Option.some.inj found)
    exact isName_takeWhile header.1
  next => cases found

theorem Occurs.isName {text : List Char} {h : Header} (occurs : Occurs text h) :
    IsName h.name.toList := by
  obtain ⟨name, n, found, named, -⟩ := occurs.reads
  rw [named, String.toList_ofList]
  exact headerAt?_isName found

/-- A type as fields have it: no blank at its ends, and no default in it. -/
structure IsType (type : List Char) : Prop where
  trimmed : Trimmed type
  plain : '=' ∉ type

theorem IsType.withoutMark {type : List Char} (isType : IsType type)
    (nonempty : stripRight type.dropLast ≠ []) : IsType (stripRight type.dropLast) := by
  have shorter : stripRight type.dropLast <+: type :=
    (isPrefix_stripRight _).trans (List.dropLast_prefix type)
  have present : type.dropLast ≠ [] := by
    intro empty
    rw [empty] at nonempty
    exact nonempty rfl
  constructor
  · apply trimmed_stripRight _ nonempty
    intro c head
    rw [head?_of_front (List.dropLast_prefix type) present] at head
    exact isType.trimmed.first c head
  · exact fun equals => isType.plain (shorter.subset equals)

/-- What stands in front of the equals sign is a type, if anything. -/
theorem isType_strip_takeWhile {text : List Char}
    (nonempty : strip (text.takeWhile (· ≠ '=')) ≠ []) :
    IsType (strip (text.takeWhile (· ≠ '='))) where
  trimmed := trimmed_strip nonempty
  plain equals := by
    have inside := List.all_eq_true.mp List.all_takeWhile '=' (mem_of_mem_strip equals)
    exact absurd inside (by decide)

/-- What is left of a type without the question mark that it may have is a type. -/
theorem isType_unmarked {type bare : List Char} (isType : type ≠ [] → IsType type)
    (unmarked : (if type.getLast? = some '?' then stripRight type.dropLast else type) = bare)
    (nonempty : bare ≠ []) : IsType bare := by
  subst unmarked
  split at nonempty
  next marked =>
    have present : type ≠ [] := by
      rintro rfl
      cases marked
    rw [if_pos marked]
    exact (isType present).withoutMark nonempty
  next plain =>
    rw [if_neg plain]
    exact isType nonempty

theorem Parameter.eq_property {parameter : Parameter} {f : Field}
    (isProperty : parameter.property? = some f) : parameter = .property f := by
  cases parameter with
  | property g => rw [← Option.some.inj isProperty]
  | untyped => cases isProperty
  | other => cases isProperty

/-- What is known of a parameter that is read as a property. -/
theorem Parameter.property_cases {text : List Char} {f : Field}
    (read : Parameter.read text = .property f) :
    f.position = 0 ∧ IsType f.type.toList ∧
      ∃ rest, Source.property? text = some (f.name.toList, rest) := by
  simp only [Parameter.read] at read
  split at read
  next => cases read
  next name rest found =>
    generalize unmarked : (if (strip (rest.takeWhile (· ≠ '='))).getLast? = some '?' then
      stripRight (strip (rest.takeWhile (· ≠ '='))).dropLast
      else strip (rest.takeWhile (· ≠ '='))) = bare at read
    split at read
    next => cases read
    next nonempty =>
      obtain rfl := Parameter.property.inj read
      have isType := isType_unmarked isType_strip_takeWhile unmarked nonempty
      exact ⟨rfl, by rwa [String.toList_ofList], rest, by rw [found, String.toList_ofList]⟩

/-- What holds of a record that was read from a text. -/
structure WellFormed (r : Record) : Prop where
  name : IsName r.name.toList
  source : r.source = ""
  positions : r.fields.map Field.position = (List.range r.fields.length).map Int.ofNat
  distinct : r.fieldNames.Nodup
  fieldNames : ∀ f ∈ r.fields, IsName f.name.toList
  types : ∀ f ∈ r.fields, IsType f.type.toList

theorem positions_of_placed {fields : List Field} (placed : Placed fields) :
    fields.map Field.position = (List.range fields.length).map Int.ofNat := by
  apply List.ext_getElem
  · simp
  · intro i h _
    simpa using placed i (by simpa using h)

theorem exists_of_mem_ofFirst {name : String} {fields : List Field} {f : Field}
    (member : f ∈ (Record.ofFirst name fields).fields) :
    ∃ g ∈ fields, f.name = g.name ∧ f.type = g.type := by
  obtain ⟨i, inside, rfl⟩ := List.mem_mapIdx.mp member
  exact ⟨_, mem_of_mem_firstBy (List.getElem_mem inside), rfl, rfl⟩

theorem wellFormed_ofFirst {name : String} {fields : List Field} (isName : IsName name.toList)
    (sound : ∀ f ∈ fields, IsName f.name.toList ∧ IsType f.type.toList) :
    WellFormed (Record.ofFirst name fields) := by
  have each : ∀ f ∈ (Record.ofFirst name fields).fields,
      IsName f.name.toList ∧ IsType f.type.toList := by
    intro f member
    obtain ⟨g, given, sameName, sameType⟩ := exists_of_mem_ofFirst member
    rw [sameName, sameType]
    exact sound g given
  constructor
  case name => exact isName
  case source => rfl
  case positions => exact positions_of_placed (Record.ofFirst name fields).placed
  case distinct => exact (Record.ofFirst name fields).distinct
  case fieldNames => exact fun f member => (each f member).1
  case types => exact fun f member => (each f member).2

theorem Declaration.wellFormed {code : List Char} {h : Header} {r : Record}
    (found : h ∈ headers code) (declared : (declarationAt code h).record? = some r) :
    WellFormed r := by
  obtain ⟨parameters, listed, rfl⟩ := Option.map_eq_some_iff.mp declared
  obtain ⟨list, -, rfl⟩ := Option.map_eq_some_iff.mp listed
  apply wellFormed_ofFirst (mem_headers_iff.mp found).1.isName
  intro f member
  obtain ⟨parameter, among, isProperty⟩ := List.mem_filterMap.mp member
  obtain ⟨text, -, rfl⟩ := List.mem_map.mp among
  obtain ⟨-, isType, rest, found⟩ := Parameter.property_cases (Parameter.eq_property isProperty)
  exact ⟨property?_isName found, isType⟩

/-- Whatever the text is, extraction ends without an error, also where a literal is looked up
by index and a record made by its constructor, and the records are well formed. -/
theorem extract_safe (text : String) :
    checkedExtract text = .ok (extract text).records ∧
      ∀ r ∈ (extract text).records, WellFormed r := by
  refine ⟨checkedExtract_eq text, fun r member => ?_⟩
  obtain ⟨d, declared, record⟩ := List.mem_filterMap.mp member
  obtain ⟨h, found, rfl⟩ := List.mem_map.mp declared
  exact Declaration.wellFormed found record

end RecordCompat.Source
