import RecordCompat.Proofs.ReportedVerdict
import RecordCompat.Proofs.Verdict
import RecordCompat.Proofs.WrittenFiles

/-! One check, three ways to report it: as text, as a document on the terminal, and as a document in
a file. The report is the same, since it is built before the form matters, and each run ends
with the verdict of the report. -/
namespace RecordCompat

open Source

def Named (records : List Record) : Prop :=
  ∀ r ∈ records, IsName r.name.toList

theorem named_extract (text : String) : Named (extract text).records := by
  intro r member
  obtain ⟨d, declared, record⟩ := List.mem_filterMap.mp member
  obtain ⟨h, found, rfl⟩ := List.mem_map.mp declared
  exact (Declaration.wellFormed found record).name

theorem name_of_mem_servedFrom {old free : List Record} {o : Outcome}
    (member : o ∈ servedFrom old free) : ∃ r ∈ old, r.name = o.name := by
  have served : o.old? ∈ old.map some := old?_servedFrom old free ▸ List.mem_map_of_mem member
  obtain ⟨r, inside, same⟩ := List.mem_map.mp served
  cases o with
  | compared old new => exact ⟨r, inside, congrArg Record.name (Option.some.inj same)⟩
  | removed old => exact ⟨r, inside, congrArg Record.name (Option.some.inj same)⟩
  | added new => cases same

theorem SourceComparison.named {s : SourceComparison} (olds : Named s.old) (news : Named s.new) :
    ∀ c ∈ s.comparisons, IsName c.name.toList := by
  intro c member
  obtain ⟨o, inside, rfl⟩ := List.mem_map.mp member
  rw [outcomes, pairRecords_eq] at inside
  rw [comparison_name]
  rcases List.mem_append.mp inside with served | left
  · obtain ⟨r, among, same⟩ := name_of_mem_servedFrom served
    exact same ▸ olds r (mem_of_mem_firstBy among)
  · obtain ⟨r, among, rfl⟩ := List.mem_map.mp left
    exact news r (mem_of_mem_firstBy ((freeAfter_sublist _ _).subset among))

namespace Command

open Files

theorem named_extractFile {disk : Disk} {path : Option Path} {records : List Record}
    (read : (extractFile disk path).result = .ok records) : Named records := by
  obtain ⟨text, -, read⟩ := Logged.result_bind_ok.mp read
  obtain ⟨-, -, same⟩ := Logged.result_bind_ok.mp read
  cases same
  exact named_extract text

theorem named_withSource {records : List Record} (named : Named records) (file : String) :
    Named (records.map (·.withSource file)) :=
  List.forall_mem_map.mpr named

theorem named_extractPairs {disk : Disk} {pairs : List SourcePair}
    {records : List Record × List Record}
    (read : (extractPairs disk pairs).result = .ok records) :
    Named records.1 ∧ Named records.2 := by
  induction pairs generalizing records with
  | nil =>
    cases read
    exact ⟨List.forall_mem_nil _, List.forall_mem_nil _⟩
  | cons pair rest ih =>
    obtain ⟨old, oldRead, read⟩ := Logged.result_bind_ok.mp read
    obtain ⟨new, newRead, read⟩ := Logged.result_bind_ok.mp read
    obtain ⟨later, laterRead, same⟩ := Logged.result_bind_ok.mp read
    cases same
    obtain ⟨olds, news⟩ := ih laterRead
    exact ⟨List.forall_mem_append.mpr ⟨named_withSource (named_extractFile oldRead) _, olds⟩,
      List.forall_mem_append.mpr ⟨named_withSource (named_extractFile newRead) _, news⟩⟩

theorem named_gatherFrom {disk : Disk} {old new : Path} {options : Options} {s : SourceComparison}
    (gathered : (gatherFrom disk old new options).result = .ok s) :
    Named s.old ∧ Named s.new := by
  obtain ⟨oldNode, -, gathered⟩ := Logged.result_bind_ok.mp gathered
  obtain ⟨newNode, -, gathered⟩ := Logged.result_bind_ok.mp gathered
  split at gathered
  next =>
    obtain ⟨pairs, -, gathered⟩ := Logged.result_bind_ok.mp gathered
    obtain ⟨records, read, same⟩ := Logged.result_bind_ok.mp gathered
    cases same
    exact named_extractPairs read
  next =>
    obtain ⟨olds, oldRead, gathered⟩ := Logged.result_bind_ok.mp gathered
    obtain ⟨news, newRead, same⟩ := Logged.result_bind_ok.mp gathered
    cases same
    exact ⟨named_extractFile oldRead, named_extractFile newRead⟩
  next => cases gathered

theorem named_buildReport {disk : Disk} {options : Options} {report : Report}
    (built : (buildReport disk options).result = .ok report) :
    ∀ c ∈ report.comparisons, IsName c.name.toList := by
  obtain ⟨s, gathered, built⟩ := Logged.result_bind_ok.mp built
  obtain ⟨-, -, built⟩ := Logged.result_bind_ok.mp built
  obtain ⟨-, -, same⟩ := Logged.result_bind_ok.mp built
  cases same
  unfold gather at gathered
  split at gathered
  next =>
    obtain ⟨olds, news⟩ := named_gatherFrom gathered
    rw [Report.comparisons, List.flatMap_singleton]
    exact SourceComparison.named olds news
  next => cases gathered

theorem buildReport_files {disk : Disk} {options : Options} {old new : String}
    (olds : options.old? = some old) (news : options.new? = some new)
    {oldBytes newBytes : List UInt8} {oldText newText : String}
    (oldFile : disk.node? (.ofString old) = .ok (some (.file oldBytes)))
    (newFile : disk.node? (.ofString new) = .ok (some (.file newBytes)))
    (oldRead : Text.readText oldBytes = .ok oldText)
    (newRead : Text.readText newBytes = .ok newText) :
    (buildReport disk options).result =
      .ok ⟨[⟨(Path.ofString new).name, (extract oldText).records, (extract newText).records⟩]⟩ := by
  have gathered : (gather disk options).result =
      .ok ⟨(Path.ofString new).name, (extract oldText).records, (extract newText).records⟩ := by
    simp only [gather, olds, news, gatherFrom]
    refine Logged.result_bind_ok.mpr ⟨_, nodeAt_ok.mpr oldFile, ?_⟩
    refine Logged.result_bind_ok.mpr ⟨_, nodeAt_ok.mpr newFile, ?_⟩
    refine Logged.result_bind_ok.mpr ⟨_, extractFile_file oldFile oldRead, ?_⟩
    exact Logged.result_bind_ok.mpr ⟨_, extractFile_file newFile newRead, rfl⟩
  exact Logged.result_bind_ok.mpr ⟨_, gathered, rfl⟩

def Options.reporting (options : Options) (format : Format) (output? : Option String) : Options :=
  { options with format? := some format, output? := output? }

/-- The form of the report does not matter to what is reported. -/
theorem buildReport_reporting (disk : Disk) (options : Options) (format : Format)
    (output? : Option String) :
    buildReport disk (options.reporting format output?) = buildReport disk options := rfl

variable {disk : Disk} {options : Options} {report : Report} {arguments : List String}

theorem run_built {format : Format} {output? : Option String}
    (plain : ¬ (options.reporting format output?).Misdirected)
    (built : (buildReport disk options).result = .ok report)
    (read : Options.read arguments = .ok (options.reporting format output?)) :
    ∃ events told, run disk arguments =
      { deliver disk events (options.reporting format output?) report with events := told } := by
  refine ⟨(buildReport disk options).events ++ [completed report], ?_⟩
  have checks : check disk (options.reporting format output?) =
      deliver disk ((buildReport disk options).events ++ [completed report])
        (options.reporting format output?) report := by
    unfold check
    split
    next asked => exact absurd asked plain
    next =>
      dsimp only
      rw [buildReport_reporting, built]
  unfold run
  rw [read]
  dsimp only
  rw [checks]
  split
  · exact ⟨_, rfl⟩
  · exact ⟨_, rfl⟩

def shownAs (report : Report) : Format → String
  | .text => Terminal.report report
  | .json => jsonText report ++ "\n"

theorem run_shown {format : Format} (built : (buildReport disk options).result = .ok report)
    (read : Options.read arguments = .ok (options.reporting format none)) :
    (run disk arguments).exit = .ok (exitCode report) ∧
      (run disk arguments).out = shownAs report format := by
  have plain : ¬ (options.reporting format none).Misdirected := fun asked => asked.1 rfl
  obtain ⟨events, told, same⟩ := run_built plain built read
  rw [same]
  cases format with
  | text => exact ⟨rfl, rfl⟩
  | json => exact ⟨rfl, rfl⟩

theorem run_file {output : String} (writable : disk.Writable (.ofString output))
    (built : (buildReport disk options).result = .ok report)
    (read : Options.read arguments = .ok (options.reporting .json (some output))) :
    (run disk arguments).exit = .ok (exitCode report) ∧
      (run disk arguments).disk.node? (.ofString output) =
        .ok (some (.file (jsonText report).toUTF8.toList)) := by
  have plain : ¬ (options.reporting .json (some output)).Misdirected := fun asked => asked.2 rfl
  obtain ⟨events, told, same⟩ := run_built plain built read
  have named : output ≠ "" := fun empty => disk.not_writable_empty (empty ▸ writable)
  have written := writable.write_eq (jsonText report).toUTF8.toList
  have delivers : deliver disk events (options.reporting .json (some output)) report =
      Run.quiet (disk.write (.ofString output) (jsonText report).toUTF8.toList).1 events
        (exitCode report) := by
    change (if output = "" then _ else writeReport disk events output report) = _
    rw [if_neg named, writeReport, written]
  rw [same, delivers]
  exact ⟨rfl, Disk.node?_write written⟩

/-- Three runs, which report as text, as a document, and as a document in a file, agree on a
report. -/
structure Agree (report : Report) (output : Path) (text json file : Run) : Prop where
  sameExit : json.exit = text.exit ∧ file.exit = text.exit
  exit : text.exit = .ok 0 ∨ text.exit = .ok 1
  verdict : [text.exit = .ok 1,
    ∃ c ∈ report.comparisons, ∃ f ∈ c.findings, f.severity = .breaking,
    ∃ c ∈ report.comparisons, c.highestSeverity? = some .breaking,
    (report.toJson Report.remedies).member? "passed" = some (.bool false),
    (report.toJson Report.remedies).itemsOf "suggestions" ≠ [],
    ∃ before, text.out = before ++ Terminal.failure].TFAE
  document : json.out = (report.toJson Report.remedies).render ++ "\n"
  saved : file.disk.node? output =
    .ok (some (.file (report.toJson Report.remedies).render.toUTF8.toList))
  printed : text.out = String.join (Terminal.printed report)
  /-- The document and the texts that are printed tell the same findings. -/
  told : (∀ c ∈ report.comparisons, ∀ f ∈ c.findings, Terminal.Verbatim f.message.toList) →
    (Terminal.printed report).filterMap Terminal.shown? =
      (report.toJson Report.remedies).findings
  /-- The texts that are printed are the lines of the report, unless a file has a name of several
  lines. -/
  lines : (∀ c ∈ report.comparisons, ∀ f ∈ c.findings, Terminal.Verbatim f.message.toList) →
    (∀ c ∈ report.comparisons, '\n' ∉ c.location.toList) →
    Terminal.lines text.out = Terminal.printed report

theorem verdict_tfae (report : Report) :
    [report.isBreaking = true,
      ∃ c ∈ report.comparisons, ∃ f ∈ c.findings, f.severity = .breaking,
      ∃ c ∈ report.comparisons, c.highestSeverity? = some .breaking,
      (report.toJson Report.remedies).member? "passed" = some (.bool false),
      (report.toJson Report.remedies).itemsOf "suggestions" ≠ [],
      ∃ before, Terminal.report report = before ++ Terminal.failure].TFAE := by
  tfae_have 1 ↔ 2 := Report.isBreaking_iff
  tfae_have 2 ↔ 3 := by simp only [Comparison.highestSeverity?_eq_breaking]
  tfae_have 4 ↔ 1 := report.passed_toJson Report.remedies
  tfae_have 5 ↔ 1 := report.suggestions_toJson (by decide)
  tfae_have 6 ↔ 1 := Terminal.failure_ends_report report
  tfae_finish

/-- Once a report can be built, the form in which it is asked for changes neither the exit code nor
what is found: the runs that write it as text, as a document, and as a document to a file that
can be written agree on the report. -/
theorem forms_agree {output : String} (built : (buildReport disk options).result = .ok report)
    (writable : disk.Writable (.ofString output)) {asText asJson toFile : List String}
    (text : Options.read asText = .ok (options.reporting .text none))
    (json : Options.read asJson = .ok (options.reporting .json none))
    (file : Options.read toFile = .ok (options.reporting .json (some output))) :
    Agree report (.ofString output) (run disk asText) (run disk asJson) (run disk toFile) := by
  obtain ⟨textExit, textOut⟩ := run_shown built text
  obtain ⟨jsonExit, jsonOut⟩ := run_shown built json
  obtain ⟨fileExit, saved⟩ := run_file writable built file
  have names := named_buildReport built
  have newlines : (∀ c ∈ report.comparisons, ∀ f ∈ c.findings,
      Terminal.Verbatim f.message.toList) →
        ∀ c ∈ report.comparisons, ∀ f ∈ c.findings, '\n' ∉ f.message.toList :=
    fun verbatim c member f inside newline => (verbatim c member f inside _ newline).2.2 rfl
  have oneLine : ∀ c ∈ report.comparisons, '\n' ∉ c.name.toList :=
    fun c member => (names c member).not_mem (by decide)
  constructor
  case sameExit => exact ⟨jsonExit.trans textExit.symm, fileExit.trans textExit.symm⟩
  case exit =>
    rw [textExit]
    cases breaking : report.isBreaking <;> simp [breaking]
  case verdict =>
    have code : (run disk asText).exit = .ok 1 ↔ report.isBreaking = true := by
      rw [textExit, Except.ok.injEq, exitCode_eq_one]
    rw [code, textOut]
    exact verdict_tfae report
  case document => exact jsonOut
  case saved => exact saved
  case printed => rw [textOut, shownAs, Terminal.report_eq]
  case told =>
    intro verbatim
    rw [Terminal.shown?_printed names verbatim, Report.findings_toJson]
  case lines =>
    intro verbatim locations
    rw [textOut, shownAs, Terminal.lines_report oneLine locations (newlines verbatim)]

/-- A class that the new file no longer declares is breaking in all forms. -/
theorem forms_agree_on_removed_class :
    let old := "data class User(val id: Int)"
    let disk : Disk := ⟨[(["old.kt"], old.toUTF8.toList), (["new.kt"], [])], [], []⟩
    let options : Options := ⟨some "old.kt", some "new.kt", none, none, "*.kt", [], false⟩
    let report : Report := ⟨[⟨"new.kt", (extract old).records, (extract "").records⟩]⟩
    let asText := ["old.kt", "new.kt"]
    let asJson := ["old.kt", "new.kt", "--format", "json"]
    let toFile := ["old.kt", "new.kt", "--format", "json", "--output", "report.json"]
    ((buildReport disk options).result = .ok report ∧ report.isBreaking = true ∧
      disk.Writable (.ofString "report.json") ∧
      Options.read asText = .ok (options.reporting .text none) ∧
      Options.read asJson = .ok (options.reporting .json none) ∧
      Options.read toFile = .ok (options.reporting .json (some "report.json"))) ∧
    Agree report (.ofString "report.json") (run disk asText) (run disk asJson)
      (run disk toFile) := by
  intro old disk options report asText asJson toFile
  have olds : options.old? = some "old.kt" := rfl
  have news : options.new? = some "new.kt" := rfl
  have oldFile : disk.node? (.ofString "old.kt") = .ok (some (.file old.toUTF8.toList)) := rfl
  have newFile : disk.node? (.ofString "new.kt") = .ok (some (.file [])) := rfl
  have oldRead : Text.readText old.toUTF8.toList = .ok old := by decide +kernel
  have newRead : Text.readText [] = .ok "" := rfl
  have built : (buildReport disk options).result = .ok report :=
    buildReport_files olds news oldFile newFile oldRead newRead
  have breaking : report.isBreaking = true := by decide +kernel
  have writable : disk.Writable (.ofString "report.json") := by decide
  have text : Options.read asText = .ok (options.reporting .text none) := by decide
  have json : Options.read asJson = .ok (options.reporting .json none) := by decide
  have file : Options.read toFile = .ok (options.reporting .json (some "report.json")) := by decide
  exact ⟨⟨built, breaking, writable, text, json, file⟩,
    forms_agree built writable text json file⟩

end Command

end RecordCompat
