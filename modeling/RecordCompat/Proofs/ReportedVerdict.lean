import Mathlib.Tactic.TFAE
import RecordCompat.Proofs.PrintedFindings

/-! The verdict of a report in all its forms. Whether a change is breaking is passed on from the
findings through comparisons and sources to the report; the document and the text for a terminal
are made from what the report says. Reading them back gives the same verdict everywhere, and
the document and the text tell the same findings. -/
namespace RecordCompat

theorem Finding.isBreaking_iff {f : Finding} : f.isBreaking = true ↔ f.severity = .breaking := by
  simp [Finding.isBreaking]

theorem Severity.worse_eq_breaking {a b : Severity} :
    a.worse b = .breaking ↔ a = .breaking ∨ b = .breaking := by
  cases a <;> cases b <;> decide

theorem foldl_worse_eq_breaking {start : Severity} {findings : List Finding} :
    findings.foldl (fun s f => s.worse f.severity) start = .breaking ↔
      start = .breaking ∨ ∃ f ∈ findings, f.severity = .breaking := by
  induction findings generalizing start with
  | nil => simp
  | cons f rest ih =>
    rw [List.foldl_cons, ih, Severity.worse_eq_breaking, List.exists_mem_cons_iff, or_assoc]

theorem Comparison.highestSeverity?_eq_breaking {c : Comparison} :
    c.highestSeverity? = some .breaking ↔ ∃ f ∈ c.findings, f.severity = .breaking := by
  unfold Comparison.highestSeverity?
  split
  next none => simp [none]
  next f rest some =>
    rw [some, Option.some.injEq, foldl_worse_eq_breaking, List.exists_mem_cons_iff]

theorem Report.isBreaking_iff {r : Report} :
    r.isBreaking = true ↔ ∃ c ∈ r.comparisons, ∃ f ∈ c.findings, f.severity = .breaking := by
  simp only [Report.isBreaking, SourceComparison.isBreaking, Comparison.isBreaking,
    List.any_eq_true, Finding.isBreaking_iff, Report.comparisons, List.mem_flatMap]
  constructor
  · rintro ⟨s, source, c, inside, f, member, breaking⟩
    exact ⟨c, ⟨s, source, inside⟩, f, member, breaking⟩
  · rintro ⟨c, ⟨s, source, inside⟩, f, member, breaking⟩
    exact ⟨s, source, c, inside, f, member, breaking⟩

namespace Json

def member? (name : String) : Json → Option Json
  | .object members => members.lookup name
  | _ => none

/-- The items of an array. Other values have none. -/
def items : Json → List Json
  | .array items => items
  | _ => []

def text? : Json → Option String
  | .string text => some text
  | _ => none

def itemsOf (name : String) (document : Json) : List Json :=
  ((document.member? name).map items).getD []

def finding? (document : Json) : Option (Severity × String) := do
  let severity ← Severity.ofLabel? (← (← document.member? "severity").text?)
  let message ← (← document.member? "message").text?
  return (severity, message)

/-- The findings that a report tells, as they stand one after the other. -/
def findings (document : Json) : List (Severity × String) :=
  (document.itemsOf "sources").flatMap fun source =>
    (source.itemsOf "comparisons").flatMap fun comparison =>
      (comparison.itemsOf "findings").filterMap finding?

end Json

theorem Severity.ofLabel?_label (s : Severity) : Severity.ofLabel? s.label = some s := by
  cases s <;> decide

theorem Finding.finding?_toJson (f : Finding) :
    f.toJson.finding? = some (f.severity, f.message) := by
  have severity : f.toJson.member? "severity" = some (.string f.severity.label) := rfl
  have message : f.toJson.member? "message" = some (.string f.message) := rfl
  simp [Json.finding?, severity, message, Json.text?, Severity.ofLabel?_label]

theorem Comparison.findings_toJson (c : Comparison) :
    (c.toJson.itemsOf "findings").filterMap Json.finding? = c.told := by
  have items : c.toJson.itemsOf "findings" = c.findings.map Finding.toJson := rfl
  rw [items, List.filterMap_map, Comparison.told, ← List.filterMap_eq_map]
  exact List.filterMap_congr fun f _ => f.finding?_toJson

theorem SourceComparison.comparisons_toJson (s : SourceComparison) :
    s.toJson.itemsOf "comparisons" = s.comparisons.map Comparison.toJson := rfl

/-- The document tells all findings, in order. -/
theorem Report.findings_toJson (suggestions : List String) (r : Report) :
    (r.toJson suggestions).findings = r.comparisons.flatMap Comparison.told := by
  have sources : (r.toJson suggestions).itemsOf "sources" = r.sources.map SourceComparison.toJson :=
    rfl
  rw [Json.findings, sources, Report.comparisons, List.flatMap_assoc, List.flatMap_map]
  refine List.flatMap_congr fun s _ => ?_
  rw [SourceComparison.comparisons_toJson, List.flatMap_map]
  exact List.flatMap_congr fun c _ => c.findings_toJson

theorem Report.passed_toJson (suggestions : List String) (r : Report) :
    (r.toJson suggestions).member? "passed" = some (.bool false) ↔ r.isBreaking = true := by
  have passed : (r.toJson suggestions).member? "passed" = some (.bool r.passed) := rfl
  rw [passed, Option.some.injEq, Json.bool.injEq, Report.passed, Bool.not_eq_false']

theorem Report.suggestions_toJson {suggestions : List String} (some : suggestions ≠ [])
    (r : Report) : (r.toJson suggestions).itemsOf "suggestions" ≠ [] ↔ r.isBreaking = true := by
  have items : (r.toJson suggestions).itemsOf "suggestions" =
      if r.passed then [] else suggestions.map .string := rfl
  rw [items, Report.passed]
  cases r.isBreaking <;> simp [some]

namespace Terminal

def failure : String :=
  String.join failureLines

theorem report_ends (r : Report) : ∃ before,
    report r = before ++ String.join (if r.passed then successLines else failureLines) := by
  rw [report_eq, printed, String.join_append, String.join_cons, ← String.append_assoc]
  exact ⟨_, rfl⟩

theorem success_ends : ∃ front, (String.join successLines).toList = front ++ ['0', 'm', '\n'] :=
  ⟨"\x1b[1;32mNo breaking changes detected\x1b[".toList, rfl⟩

theorem last_suggestion_ends :
    (line [(.plain, "   - Deprecate fields and data classes before removing them")]).toList =
      "   - Deprecate fields and data classes before removing th".toList ++ ['e', 'm', '\n'] := rfl

theorem failure_ends : ∃ front, failure.toList = front ++ ['e', 'm', '\n'] := by
  have last : failureLines.getLast? =
      some (line [(.plain, "   - Deprecate fields and data classes before removing them")]) := rfl
  obtain ⟨front, split⟩ := List.getLast?_eq_some_iff.mp last
  rw [failure, split, String.join_append, String.join_cons, String.join_nil, String.append_empty,
    String.toList_append, last_suggestion_ends, ← List.append_assoc]
  exact ⟨_, rfl⟩

/-- The report ends with the suggestions when it has not passed; the closing words of a passed
report differ from theirs in the third character from the end. -/
theorem failure_ends_report (r : Report) :
    (∃ before, report r = before ++ failure) ↔ r.isBreaking = true := by
  obtain ⟨before, ends⟩ := report_ends r
  cases breaking : r.isBreaking with
  | true =>
    rw [Report.passed, breaking] at ends
    exact iff_of_true ⟨before, ends⟩ rfl
  | false =>
    rw [Report.passed, breaking] at ends
    refine iff_of_false ?_ Bool.false_ne_true
    rintro ⟨front, failed⟩
    obtain ⟨passing, success⟩ := success_ends
    obtain ⟨failing, failure⟩ := failure_ends
    have both := congrArg String.toList (ends.symm.trans failed)
    simp only [Bool.not_false, if_true, String.toList_append, success, failure,
      ← List.append_assoc] at both
    cases List.append_inj_right' both rfl

end Terminal

end RecordCompat
