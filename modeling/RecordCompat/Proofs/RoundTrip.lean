import RecordCompat.Proofs.HeaderSearch
import RecordCompat.Proofs.Splitting

/-! Extraction undoes rendering: whatever white space and comments stand between the words
and marks, and whatever the defaults are, the records come back, with their fields in order
and their types as text. -/
namespace RecordCompat

def unplaced (fields : List Field) : List Field :=
  fields.map fun f => { f with position := 0 }

theorem renumber_unplaced {fields : List Field} (placed : Placed fields) :
    renumber (unplaced fields) = fields := by
  apply List.ext_getElem
  · simp [renumber, unplaced]
  · intro i _ bound
    have position := placed i bound
    simp [renumber, unplaced, ← position]

theorem Record.ofFirst_unplaced {r : Record} (noSource : r.source = "") :
    Record.ofFirst r.name (unplaced r.fields) = r := by
  have names : (unplaced r.fields).map Field.name = r.fields.map Field.name := by
    simp [unplaced, Function.comp_def]
  have fields : renumber (firstBy Field.name (unplaced r.fields)) = r.fields := by
    rw [firstBy_of_nodup (names ▸ r.distinct), renumber_unplaced r.placed]
  obtain ⟨name, _, source, _, _⟩ := r
  simp only [Record.ofFirst]
  congr
  exact noSource.symm

namespace Source

/-- In the text of a record the search finds its header, then nothing up to its end. -/
theorem RecordText.header {r : Record} {w p : List Char} (text : RecordText r w p) :
    ∃ head inside list, p = head ++ (inside ++ [')']) ∧ FieldsText r.fields list inside ∧
      ∀ offset rest, headersFrom offset false (p ++ rest) =
        ⟨r.name, offset, offset + head.length⟩ ::
          headersFrom (offset + p.length) false rest := by
  cases text with
  | @intro a b c d e g list inside _ isName first wide second wide' third fields =>
    let words := "data".toList ++ b ++ "class".toList ++ d ++ r.name.toList ++ g
    refine ⟨words ++ ['('], inside, list, by simp [words], fields, fun offset rest => ?_⟩
    have front : "data".toList ++ b ++ "class".toList ++ d ++ r.name.toList ++ g ++
        '(' :: inside ++ [')'] ++ rest = words ++ '(' :: (inside ++ ')' :: rest) := by
      simp [words]
    have header : headerAt? (words ++ '(' :: (inside ++ ')' :: rest)) =
        some (r.name.toList, words.length + 1) := by
      have head := headerAt?_head first wide second wide' isName third (inside ++ ')' :: rest)
      simpa [words] using head
    have behind : (words ++ '(' :: (inside ++ ')' :: rest)).drop (words.length + 1) =
        inside ++ ')' :: rest := by
      rw [← List.drop_drop, List.drop_left]
      rfl
    have paren : Stops (')' :: rest) := stops_char (by decide) rest
    rw [front, headersFrom_header header, behind, fields.quiet _ _ paren,
      headersFrom_noWord (by decide), String.ofList_toList]
    have stop : (words ++ ['(']).length = words.length + 1 := by simp
    have total : ("data".toList ++ b ++ "class".toList ++ d ++ r.name.toList ++ g ++
        '(' :: inside ++ [')']).length = words.length + 1 + inside.length + 1 := by
      simp only [words, List.length_append, List.length_cons, List.length_nil]
      omega
    rw [stop, total]
    simp only [Nat.add_assoc]

theorem record_behind_header {r : Record} {head inside list : List Char} (noSource : r.source = "")
    (fields : FieldsText r.fields list inside) (pre rest : List Char) :
    (declarationAt (pre ++ (head ++ (inside ++ [')'])) ++ rest)
      ⟨r.name, pre.length, pre.length + head.length⟩).record? = some r := by
  have behind : (pre ++ (head ++ (inside ++ [')'])) ++ rest).drop (pre.length + head.length) =
      inside ++ ')' :: rest := by
    rw [List.append_assoc, ← List.drop_drop, List.drop_left, List.append_assoc, List.drop_left,
      List.append_assoc, List.singleton_append]
  have properties : (r.fields.map fun f => Parameter.property { f with position := 0 }).filterMap
      Parameter.property? = unplaced r.fields := by
    rw [List.filterMap_map, unplaced, ← List.filterMap_eq_map]
    rfl
  simp only [declarationAt, behind, fields.bracketed, Option.map_some, Declaration.record?,
    fields.read, properties, Record.ofFirst_unplaced noSource]

/-- Behind a front that is searched already, the search finds the rest of the records. -/
theorem Rendering.records {records : List Record} {w p : List Char}
    (text : Rendering records w p) (pre : List Char) :
    (headersFrom pre.length false p).filterMap
      (fun header => (declarationAt (pre ++ p) header).record?) = records := by
  induction text generalizing pre with
  | @done _ b gap =>
    have found := headersFrom_gap gap pre.length []
    rw [List.append_nil] at found
    rw [found, headersFrom]
    rfl
  | comment gap _ =>
    rw [headersFrom_gap gap, headersFrom_noWord (by decide), headersFrom]
    rfl
  | @record r rest a b w p v q gap text _ ih =>
    have noSource : r.source = "" := by cases text; assumption
    obtain ⟨head, inside, list, rfl, fields, searched⟩ := text.header
    have position : pre.length + b.length = (pre ++ b).length := by simp
    have behind : (pre ++ b).length + (head ++ (inside ++ [')'])).length =
        (pre ++ b ++ (head ++ (inside ++ [')']))).length := List.length_append.symm
    have first := @record_behind_header _ head _ _ noSource fields (pre ++ b) q
    have later := ih (pre ++ b ++ (head ++ (inside ++ [')'])))
    have whole : pre ++ (b ++ (head ++ (inside ++ [')'])) ++ q) =
        pre ++ b ++ (head ++ (inside ++ [')'])) ++ q := by simp
    rw [whole, List.append_assoc b, headersFrom_gap gap, position, searched, behind]
    simp only [List.filterMap_cons, first, later]

/-- Extraction gives back the records of a rendering. -/
theorem extract_rendering {records : List Record} {written bare : List Char}
    (text : Rendering records written bare) :
    (extract (String.ofList written)).records = records := by
  have found := text.records []
  rw [List.length_nil] at found
  simp only [extract, String.toList_ofList, text.stripComments, declarations, headers,
    List.filterMap_map]
  exact found

theorem isDefault_call : IsDefault "f(\"a,b\", '(')".toList := by
  have read : lexemes "f(\"a,b\", '(')".toList = [.char 'f', .char '(',
      .literal "\"a,b\"".toList, .char ',', .char ' ', .literal "'('".toList, .char ')'] := by
    simp [lexemes, opensLiteral, literalLength, scan, Frame.advance]
  constructor
  case nonempty => decide
  case stripped => decide
  case noClass => exact fun inside => absurd (inside.subset (by decide : 'c' ∈ _)) (by decide)
  case closed =>
    rw [read]
    simp [isClosedLiteral, closes, Frame.advance, opensLiteral]
  all_goals rw [read]; simp [balanced, outermost, Lexeme.opens, Lexeme.closes]

/-- A function type inside a generic one, a comment between two fields, a default that holds
a comma and a parenthesis in literals. -/
theorem extract_rendering_of_user :
    let user := Record.ofFirst "User"
      [⟨"id", "Map<K, (V?) -> Int>", true, false, 0⟩, ⟨"n", "Long", false, true, 0⟩]
    let written := ("data class User(@Id val id: Map<K, (V?) -> Int>?, // the key\n" ++
      "  var n: Long = f(\"a,b\", '('))").toList
    (∃ bare, Rendering [user] written bare) ∧
      (extract (String.ofList written)).records = [user] := by
  intro user written
  have type {name : List Char} (word : IsName name) : TypeText .type name name := .name word
  have k : IsName "K".toList := by decide
  have v : IsName "V".toList := by decide
  have int : IsName "Int".toList := by decide
  have map : IsName "Map".toList := by decide
  have long : IsName "Long".toList := by decide
  have function := TypeText.function (.one (.spaced .nil ((type v).nullable .nil) .nil)) gap_space
    gap_space (type int)
  have generic := TypeText.generic map .nil
    (.more (.spaced .nil (type k) .nil) (.one (.spaced gap_space function .nil)))
  have wide : [' '] ≠ [] := by decide
  have annotation : IsName "Id".toList := by decide
  have marker := Markers.annotated annotation gap_space wide .nil
  have val : isPropertyWord "val".toList = true := by decide
  have var : isPropertyWord "var".toList = true := by decide
  have id : FieldText ⟨"id", "Map<K, (V?) -> Int>", true, false, 0⟩ _ _ :=
    .intro marker val gap_space wide (by decide) .nil gap_space generic (by decide)
      (.present .nil) .absent
  have n : FieldText ⟨"n", "Long", false, true, 1⟩ _ _ :=
    .intro .nil var gap_space wide (by decide) .nil gap_space (type long) (by decide)
      .absent (.present gap_space gap_space isDefault_call)
  have indent := @Gap.blank ' ' _ _ (by decide) gap_space
  have line := @Gap.line " the key".toList _ _ (by decide) indent
  have comment := @Gap.blank ' ' _ _ (by decide) line
  have fields := FieldsText.more .nil id .nil (.last comment n .nil)
  have record : RecordText user _ _ :=
    .intro rfl (by decide) gap_space wide gap_space wide .nil fields
  have spelled {w p : List Char} (text : Rendering [user] w p) (same : w = written) :
      (∃ bare, Rendering [user] written bare) ∧
        (extract (String.ofList written)).records = [user] := by
    rw [← same]
    exact ⟨⟨p, text⟩, extract_rendering text⟩
  exact spelled (.record .nil record (.done .nil)) (by decide)

end Source

end RecordCompat
