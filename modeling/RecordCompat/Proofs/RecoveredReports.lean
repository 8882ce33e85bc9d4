import RecordCompat.Command.Check
import RecordCompat.Proofs.DocumentReader
import RecordCompat.Proofs.ReportedVerdict

/-! Written reports can be recovered. A report tells labels and comparisons, and these are
read back from the bytes of its file, by way of its text and its document: names, sources, findings,
and a status by its label. Two reports with one file have one document. -/
namespace RecordCompat

namespace Text

theorem toList_loop (bytes : ByteArray) (index : Nat) (done : List UInt8) :
    ByteArray.toList.loop bytes index done = done.reverse ++ bytes.data.toList.drop index := by
  fun_induction ByteArray.toList.loop bytes index done with
  | case1 index done inside ih =>
    have next : bytes.get! index = bytes.data[index] := getElem!_pos bytes.data index inside
    have more : index < bytes.data.toList.length := inside
    rw [ih, List.drop_eq_getElem_cons more, next, List.reverse_cons, List.append_assoc]
    rfl
  | case2 index done outside =>
    have none : bytes.data.toList.length ≤ index := Nat.le_of_not_lt outside
    rw [List.drop_eq_nil_of_le none, List.append_nil]

theorem toList_bytes (bytes : ByteArray) : bytes.toList = bytes.data.toList := by
  rw [ByteArray.toList, toList_loop, List.reverse_nil, List.nil_append, List.drop_zero]

theorem toUTF8_ascii {text : List Char} (ascii : ∀ c ∈ text, c.toNat < 0x80) :
    (String.ofList text).toUTF8.toList = text.map Char.toUInt8 := by
  have bytes : text.utf8Encode = (text.map Char.toUInt8).toByteArray := by
    induction text with
    | nil => rfl
    | cons c text ih =>
      obtain ⟨first, others⟩ := List.forall_mem_cons.mp ascii
      have single : c.utf8Size = 1 :=
        Char.utf8Size_eq_one_iff.mpr (UInt32.le_iff_toNat_le.mpr (Nat.le_of_lt_succ first))
      rw [List.utf8Encode_cons, List.utf8Encode_singleton,
        String.utf8EncodeChar_eq_singleton single, ih others, ← List.toByteArray_append]
      rfl
  rw [String.toUTF8_eq_toByteArray, String.toByteArray_ofList, bytes, toList_bytes,
    List.data_toByteArray]

theorem decodeFrom_ascii {text : List Char} (ascii : ∀ c ∈ text, c.toNat < 0x80) (pos : Nat)
    (done : List Char) :
    Utf8.decodeFrom pos none done (text.map Char.toUInt8) = .ok (done.reverse ++ text) := by
  induction text generalizing pos done with
  | nil => rw [List.map_nil, Utf8.decodeFrom, List.append_nil]
  | cons c text ih =>
    obtain ⟨first, others⟩ := List.forall_mem_cons.mp ascii
    have code : c.toUInt8.toNat = c.toNat :=
      Nat.mod_eq_of_lt (Nat.lt_trans first (by decide))
    have small : c.toUInt8 < 0x80 := UInt8.lt_iff_toNat_lt.mpr (code.symm ▸ first)
    have lead : Utf8.lead? c.toUInt8 = some (c.toNat, []) := by
      rw [Utf8.lead?, if_pos small, code]
    rw [List.map_cons, Utf8.decodeFrom, lead]
    dsimp only
    rw [ih others, Char.ofNat_toNat, List.reverse_cons, List.append_assoc, List.singleton_append]

theorem unifyLineEnds_eq {text : List Char} (noReturn : '\r' ∉ text) :
    unifyLineEnds text = text := by
  fun_induction unifyLineEnds text with
  | case1 => rfl
  | case2 | case3 => simp at noReturn
  | case4 c rest _ _ ih => rw [ih (List.not_mem_of_not_mem_cons noReturn)]

theorem readText_ascii {text : List Char} (ascii : ∀ c ∈ text, c.toNat < 0x80)
    (noReturn : '\r' ∉ text) :
    readText (String.ofList text).toUTF8.toList = .ok (String.ofList text) := by
  rw [readText, decodeUtf8, toUTF8_ascii ascii, decodeFrom_ascii ascii, Except.map,
    List.reverse_nil, List.nil_append, unifyLineEnds_eq noReturn]

end Text

def Json.ofFile? (bytes : List UInt8) : Option Json :=
  match Text.readText bytes with
  | .ok text => Json.read? text.toList
  | .error _ => none

theorem Json.ofFile?_render (j : Json) : Json.ofFile? j.render.toUTF8.toList = some j := by
  have plain := (spells_write 0 j).plain
  have ascii : ∀ c ∈ write 0 j, c.toNat < 0x80 := by
    intro c member
    rcases plain c member with rfl | isPlain
    · decide
    · exact lt_of_isPlain isPlain
  have noReturn : '\r' ∉ write 0 j := by
    intro member
    have isPlain := plain _ member
    revert isPlain
    decide
  rw [ofFile?, Json.render, Text.readText_ascii ascii noReturn]
  dsimp only
  rw [String.toList_ofList, read?_write]

/-- A report as it is told: comparisons under the labels of their sources. They may have been
made elsewhere. -/
structure Contents where
  sources : List (String × List Comparison)
  deriving DecidableEq

namespace Contents

def passed (c : Contents) : Bool :=
  !c.sources.any fun source => source.2.any Comparison.isBreaking

def sourceJson (source : String × List Comparison) : Json :=
  .object [("comparisons", .array (source.2.map Comparison.toJson)), ("label", .string source.1)]

/-- The contents as a document, with suggestions in case the report fails. -/
def toJson (suggestions : List String) (c : Contents) : Json :=
  .object [("passed", .bool c.passed), ("sources", .array (c.sources.map sourceJson)),
    ("suggestions", .array (if c.passed then [] else suggestions.map .string))]

def text (c : Contents) : String :=
  (c.toJson Report.remedies).render

end Contents

def Report.contents (r : Report) : Contents :=
  ⟨r.sources.map fun s => (s.label, s.comparisons)⟩

theorem Report.passed_contents (r : Report) : r.contents.passed = r.passed := by
  rw [Contents.passed, contents, List.any_map]
  rfl

theorem Report.toJson_contents (suggestions : List String) (r : Report) :
    r.contents.toJson suggestions = r.toJson suggestions := by
  rw [Contents.toJson, Report.toJson, r.passed_contents, contents, List.map_map]
  rfl

def Json.optionalText? : Json → Option (Option String)
  | .null => some none
  | .string text => some (some text)
  | _ => none

def Finding.ofJson? (document : Json) : Option Finding := do
  let severity ← Severity.ofLabel? (← (← document.member? "severity").text?)
  let kind ← (← document.member? "kind").text?
  let message ← (← document.member? "message").text?
  let field? ← (← document.member? "field_name").optionalText?
  return ⟨severity, kind, message, field?⟩

def Comparison.ofJson? (document : Json) : Option Comparison := do
  let name ← (← document.member? "name").text?
  let status ← (← document.member? "status").text?
  let findings ← (document.itemsOf "findings").mapM Finding.ofJson?
  let oldSource? ← (← document.member? "old_source").optionalText?
  let newSource? ← (← document.member? "new_source").optionalText?
  return ⟨name, .ofLabel status, findings, oldSource?, newSource?⟩

def Contents.source? (document : Json) : Option (String × List Comparison) := do
  let label ← (← document.member? "label").text?
  let comparisons ← (document.itemsOf "comparisons").mapM Comparison.ofJson?
  return (label, comparisons)

def Contents.ofJson? (document : Json) : Option Contents :=
  ((document.itemsOf "sources").mapM source?).map Contents.mk

def Contents.ofFile? (bytes : List UInt8) : Option Contents :=
  (Json.ofFile? bytes).bind ofJson?

/-- The comparison with its status by label: a status made elsewhere may have a label of the
three that stand for themselves. -/
def Comparison.settled (c : Comparison) : Comparison :=
  { c with status := .ofLabel c.status.label }

def Contents.settled (c : Contents) : Contents :=
  ⟨c.sources.map fun source => (source.1, source.2.map Comparison.settled)⟩

theorem Json.optionalText?_optional (text : Option String) :
    (Json.optional text).optionalText? = some text := by
  cases text <;> rfl

theorem mapM_map_some {α β γ : Type} {encode : α → β} {decode : β → Option γ} {result : α → γ}
    (each : ∀ a, decode (encode a) = some (result a)) (items : List α) :
    (items.map encode).mapM decode = some (items.map result) := by
  have composed : decode ∘ encode = fun a => pure (result a) := funext each
  rw [List.mapM_map, composed, List.mapM_pure]
  rfl

theorem Finding.ofJson?_toJson (f : Finding) : Finding.ofJson? f.toJson = some f := by
  simp [ofJson?, toJson, Json.member?, Json.text?, List.lookup_cons, Severity.ofLabel?_label,
    Json.optionalText?_optional]

theorem Comparison.ofJson?_toJson (c : Comparison) :
    Comparison.ofJson? c.toJson = some c.settled := by
  have findings : (c.findings.map Finding.toJson).mapM Finding.ofJson? = some c.findings := by
    rw [mapM_map_some Finding.ofJson?_toJson, List.map_id']
  simp [ofJson?, toJson, Json.member?, Json.text?, List.lookup_cons, Json.itemsOf, Json.items,
    findings, Json.optionalText?_optional, settled]

theorem Contents.source?_sourceJson (source : String × List Comparison) :
    source? (sourceJson source) = some (source.1, source.2.map Comparison.settled) := by
  have comparisons := mapM_map_some Comparison.ofJson?_toJson source.2
  simp [source?, sourceJson, Json.member?, Json.text?, List.lookup_cons, Json.itemsOf, Json.items,
    comparisons]

theorem Contents.ofJson?_toJson (suggestions : List String) (c : Contents) :
    ofJson? (c.toJson suggestions) = some c.settled := by
  have items : (c.toJson suggestions).itemsOf "sources" = c.sources.map sourceJson := rfl
  rw [ofJson?, items, mapM_map_some source?_sourceJson]
  rfl

theorem Contents.ofFile?_text (c : Contents) :
    ofFile? c.text.toUTF8.toList = some c.settled := by
  rw [ofFile?, text, Json.ofFile?_render, Option.bind_some, ofJson?_toJson]

theorem Status.label_ofLabel (label : String) : (ofLabel label).label = label := by
  unfold ofLabel
  cases found : ([compared, removed, added] : List Status).find? (·.label = label) with
  | none => rfl
  | some status => simpa using List.find?_some found

theorem Comparison.toJson_settled (c : Comparison) : c.settled.toJson = c.toJson := by
  rw [toJson, settled, Status.label_ofLabel]
  rfl

theorem Contents.passed_settled (c : Contents) : c.settled.passed = c.passed := by
  have breaking : Comparison.isBreaking ∘ Comparison.settled = Comparison.isBreaking := rfl
  simp [passed, settled, List.any_map, breaking, Function.comp_def]

theorem Contents.toJson_settled (suggestions : List String) (c : Contents) :
    c.settled.toJson suggestions = c.toJson suggestions := by
  have source (source : String × List Comparison) :
      sourceJson (source.1, source.2.map Comparison.settled) = sourceJson source := by
    simp [sourceJson, Function.comp_def, Comparison.toJson_settled]
  rw [toJson, passed_settled, settled, List.map_map, Function.comp_def, funext source]
  rfl

theorem Outcome.settled_comparison (o : Outcome) : o.comparison.settled = o.comparison := by
  cases o <;> rfl

theorem Report.settled_contents (r : Report) : r.contents.settled = r.contents := by
  have comparisons (s : SourceComparison) :
      s.comparisons.map Comparison.settled = s.comparisons := by
    rw [SourceComparison.comparisons, List.map_map, Function.comp_def,
      funext Outcome.settled_comparison]
  simp [Contents.settled, contents, Function.comp_def, comparisons]

/-- Nothing of a report is lost in its file: files of one text have one document, and labels and
comparisons are read back from the bytes. -/
theorem Command.written_reports_lossless :
    (∀ a b : Contents, a.text = b.text → a.toJson Report.remedies = b.toJson Report.remedies) ∧
    (∀ c : Contents, Contents.ofFile? c.text.toUTF8.toList = some c.settled ∧
      c.settled.toJson Report.remedies = c.toJson Report.remedies) ∧
    ∀ r : Report, jsonText r = r.contents.text ∧
      Contents.ofFile? (jsonText r).toUTF8.toList = some r.contents := by
  refine ⟨fun a b same => ?_, fun c => ⟨c.ofFile?_text, c.toJson_settled _⟩, fun r => ?_⟩
  · have read := congrArg (fun text => Json.ofFile? text.toUTF8.toList) same
    simpa only [Contents.text, Json.ofFile?_render, Option.some.injEq] using read
  · have text : jsonText r = r.contents.text := by
      rw [jsonText, Contents.text, r.toJson_contents]
    exact ⟨text, by rw [text, Contents.ofFile?_text, r.settled_contents]⟩

end RecordCompat
