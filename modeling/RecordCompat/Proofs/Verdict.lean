import RecordCompat.Proofs.Attempts

/-! Which runs end with a verdict. A run that reads its arguments ends without one exactly
where its operands cannot be looked up or searched, or where its output cannot be named:
these causes are listed below, and all other input gets an exit code. -/
namespace RecordCompat

namespace Files.Disk

theorem ensureLast_nul (disk : Disk) (path : Path) :
    (disk.ensureLast path).2 ≠ some .holdsNul := by
  unfold ensureLast
  cases disk.locate path with
  | error obstacle => cases obstacle <;> simp [WriteError.ofObstacle]
  | ok place =>
    dsimp only
    split
    · simp
    · split <;> simp

theorem ensure_nul (disk : Disk) (slashes : Nat) (parts : List String) :
    (disk.ensure slashes parts).2 ≠ some .holdsNul := by
  induction parts with
  | nil => simp [ensure]
  | cons part rest ih =>
    unfold ensure
    dsimp only
    split
    · split
      · exact ensureLast_nul _ _
      · exact ih
    · exact ensureLast_nul _ _

theorem writeLast_nul (disk : Disk) (path : Path) (bytes : List UInt8) :
    (disk.writeLast path bytes).2 ≠ some .holdsNul := by
  unfold writeLast
  cases disk.locate path with
  | error obstacle => cases obstacle <;> simp [WriteError.ofObstacle]
  | ok place =>
    dsimp only
    split <;> simp

/-- The character that no path can hold is noticed in the directories before they are made, and
in the last component once they are there. -/
theorem write_nul_iff {disk : Disk} {path : Path} {bytes : List UInt8} :
    (disk.write path bytes).2 = some .holdsNul ↔ path.parent.holdsNul ∨
      path.holdsNul ∧ (disk.ensure path.slashes path.parent.parts.reverse).2 = none := by
  unfold write
  by_cases above : path.parent.holdsNul
  · simp [above]
  · have made := disk.ensure_nul path.slashes path.parent.parts.reverse
    generalize disk.ensure path.slashes path.parent.parts.reverse = ensured at made ⊢
    rcases ensured with ⟨later, none | e⟩
    · by_cases last : path.holdsNul
      · simp [above, last]
      · simp [above, last, writeLast_nul]
    · simpa [above] using made

end Files.Disk

namespace Command

open Files

theorem gather_named {disk : Disk} {options : Options} {old new : String}
    (named : options.old? = some old ∧ options.new? = some new) :
    gather disk options = gatherFrom disk (.ofString old) (.ofString new) options := by
  rw [gather, named.1, named.2]

/-- Two directories give the records of the files that are found in them. -/
theorem gatherFrom_directories {disk : Disk} {old new : Path} (options : Options)
    (olds : disk.node? old = .ok (some .directory))
    (news : disk.node? new = .ok (some .directory)) :
    (gatherFrom disk old new options).result =
      ((discover disk old new options.pattern options.exclude).result.mapError
        (.fault ∘ .discovery)).bind fun pairs => (extractPairs disk pairs).result.map fun records =>
          ⟨old.toString ++ " -> " ++ new.toString, records.1, records.2⟩ := by
  rw [gatherFrom, Logged.result_bind, nodeAt_ok.mpr olds]
  simp only [Except.bind, Logged.result_bind, nodeAt_ok.mpr news, discoverPairs, Logged.mapError]
  cases (discover disk old new options.pattern options.exclude).result with
  | error e => rfl
  | ok pairs =>
    change Except.bind (extractPairs disk pairs).result _ =
      Except.map _ (extractPairs disk pairs).result
    cases (extractPairs disk pairs).result <;> rfl

theorem buildReport_result (disk : Disk) (options : Options) :
    (buildReport disk options).result = (gather disk options).result.map fun s => ⟨[s]⟩ := by
  simp only [buildReport, Logged.result_bind]
  cases (gather disk options).result <;> rfl

/-- What keeps the records of the two sources from being gathered or refused. -/
inductive Ungatherable (disk : Disk) (options : Options) : Prop
  | nothingNamed (unnamed : options.old? = none ∨ options.new? = none)
  | oldUnknowable (old new : String) (named : options.old? = some old ∧ options.new? = some new)
      (lost : Unknowable disk (.ofString old))
  | newUnknowable (old new : String) (named : options.old? = some old ∧ options.new? = some new)
      (node : Disk.Node) (there : disk.node? (.ofString old) = .ok (some node))
      (lost : Unknowable disk (.ofString new))
  | unsearchable (old new : String) (named : options.old? = some old ∧ options.new? = some new)
      (olds : disk.node? (.ofString old) = .ok (some .directory))
      (news : disk.node? (.ofString new) = .ok (some .directory))
      (cause : Unsearchable disk (.ofString old) (.ofString new) options.pattern options.exclude)

theorem faults_gatherFrom {disk : Disk} {old new : Path} {options : Options} :
    Faults (gatherFrom disk old new options) ↔ Unknowable disk old ∨
      (∃ node, disk.node? old = .ok (some node)) ∧ Unknowable disk new ∨
      disk.node? old = .ok (some .directory) ∧ disk.node? new = .ok (some .directory) ∧
        Unsearchable disk old new options.pattern options.exclude := by
  simp only [gatherFrom, faults_bind, faults_nodeAt, nodeAt_ok]
  constructor
  · rintro (lost | ⟨node, olds, lost | ⟨other, news, faults⟩⟩)
    · exact .inl lost
    · exact .inr (.inl ⟨⟨node, olds⟩, lost⟩)
    · rcases node with _ | _ <;> rcases other with _ | _
      · have oldRead := @not_faults_extractFile disk (some old) (by simp [olds])
        have newRead := @not_faults_extractFile disk (some new) (by simp [news])
        simp [faults_bind, oldRead, newRead] at faults
      · exact absurd faults (not_faults_input _)
      · exact absurd faults (not_faults_input _)
      · simp only [faults_bind, faults_discoverPairs, not_faults_pure] at faults
        rcases faults with cause | ⟨pairs, found, stuck | ⟨-, -, never⟩⟩
        · exact .inr (.inr ⟨olds, news, cause⟩)
        · -- What the search has found are files.
          have there := file_of_discover (Logged.result_mapError_ok.mp found)
          exact absurd stuck (not_faults_extractPairs there)
        · exact never.elim
  · rintro (lost | ⟨⟨node, olds⟩, lost⟩ | ⟨olds, news, cause⟩)
    · exact .inl lost
    · exact .inr ⟨node, olds, .inl lost⟩
    · refine .inr ⟨_, olds, .inr ⟨_, news, ?_⟩⟩
      simp only [faults_bind, faults_discoverPairs]
      exact .inl cause

theorem faults_buildReport {disk : Disk} {options : Options} :
    Faults (buildReport disk options) ↔ Ungatherable disk options := by
  have same : Faults (buildReport disk options) ↔ Faults (gather disk options) := by
    simp [buildReport, faults_bind]
  rw [same]
  unfold gather
  split
  next old new olds news =>
    rw [faults_gatherFrom]
    constructor
    · rintro (lost | ⟨⟨node, there⟩, lost⟩ | ⟨oldDirectory, newDirectory, cause⟩)
      · exact .oldUnknowable old new ⟨olds, news⟩ lost
      · exact .newUnknowable old new ⟨olds, news⟩ node there lost
      · exact .unsearchable old new ⟨olds, news⟩ oldDirectory newDirectory cause
    · intro cause
      cases cause with
      | nothingNamed unnamed => simp [olds, news] at unnamed
      | oldUnknowable old new named lost => simp_all
      | newUnknowable old new named node there lost => simp_all
      | unsearchable old new named olds news cause => simp_all
  next unnamed =>
    refine iff_of_true (faults_fault _) (.nothingNamed ?_)
    cases olds : options.old? with
    | none => exact .inl rfl
    | some old =>
      cases news : options.new? with
      | none => exact .inr rfl
      | some new => exact absurd news (unnamed old new olds)

/-- Whether an output is asked for in a format that is not written to one. -/
def Options.Misdirected (options : Options) : Prop :=
  options.output?.getD "" ≠ "" ∧ options.format? ≠ some .json

/-- The file that a report goes to, if it does not go to the terminal. -/
def Options.target? (options : Options) : Option Path :=
  if options.format? = some .json ∧ options.output?.getD "" ≠ "" then
    some (.ofString (options.output?.getD ""))
  else none

/-- Why a report could not be written to its file. -/
def writeError? (disk : Disk) (options : Options) (report : Report) : Option WriteError :=
  options.target?.bind fun path => (disk.write path (jsonText report).toUTF8.toList).2

/-- What ends a run with options, and without a verdict. -/
inductive Escapes (disk : Disk) (options : Options) : Prop
  | gathering (cause : Ungatherable disk options)
  | writing (report : Report) (built : (buildReport disk options).result = .ok report)
      (path : Path) (target : options.target? = some path)
      (cause : path.parent.holdsNul ∨
        path.holdsNul ∧ (disk.ensure path.slashes path.parent.parts.reverse).2 = none)

theorem writeError_nul_iff {disk : Disk} {options : Options} {report : Report} :
    writeError? disk options report = some .holdsNul ↔
      ∃ path, options.target? = some path ∧ (path.parent.holdsNul ∨
        path.holdsNul ∧ (disk.ensure path.slashes path.parent.parts.reverse).2 = none) := by
  simp only [writeError?, Option.bind_eq_some_iff, Disk.write_nul_iff]

@[simp] theorem exitCode_eq_zero {report : Report} :
    exitCode report = 0 ↔ report.isBreaking = false := by
  unfold exitCode
  cases report.isBreaking <;> simp

@[simp] theorem exitCode_eq_one {report : Report} :
    exitCode report = 1 ↔ report.isBreaking = true := by
  unfold exitCode
  cases report.isBreaking <;> simp

/-- How a delivery ends: with the verdict, with a refused output, or with a fault. -/
inductive Delivered (disk : Disk) (options : Options) (report : Report) (done : Run) : Prop
  | verdict (written : writeError? disk options report = none)
      (exit : done.exit = .ok (exitCode report))
  | refused (e : WriteError) (failed : writeError? disk options report = some e)
      (other : e ≠ .holdsNul) (exit : done.exit = .ok 1) (told : done.err ≠ "")
  | fault (failed : writeError? disk options report = some .holdsNul)
      (exit : done.exit = .error .nulInOutput)

theorem delivered_of_write {disk : Disk} {events : List Event} {options : Options}
    {report : Report} {output : String} (target : options.target? = some (.ofString output)) :
    Delivered disk options report (writeReport disk events output report) := by
  have wrote : writeError? disk options report =
      (disk.write (.ofString output) (jsonText report).toUTF8.toList).2 := by
    simp only [writeError?, target, Option.bind_some]
  unfold writeReport
  split
  next left done => exact .verdict (by rw [wrote, done]) rfl
  next left failed => exact .fault (by rw [wrote, failed]) rfl
  next left e other failed =>
    refine .refused e (by rw [wrote, failed]) (fun nul => other (nul ▸ rfl)) rfl ?_
    simp

theorem delivered (disk : Disk) (events : List Event) (options : Options) (report : Report) :
    Delivered disk options report (deliver disk events options report) := by
  unfold deliver
  split
  next format => exact .verdict (by simp [writeError?, Options.target?, format]) rfl
  next format => exact .verdict (by simp [writeError?, Options.target?, format]) rfl
  next format =>
    dsimp only
    split
    next output => exact .verdict (by simp [writeError?, Options.target?, output]) rfl
    next output => exact delivered_of_write (by simp [Options.target?, format, output])

inductive Checked (disk : Disk) (options : Options) (done : Run) : Prop
  | misdirected (asked : options.Misdirected) (exit : done.exit = .ok 1) (told : done.err ≠ "")
  | fault (plain : ¬ options.Misdirected) (faults : Faults (buildReport disk options))
      (fault : Fault) (exit : done.exit = .error fault)
  | refused (plain : ¬ options.Misdirected) (e : InputError)
      (input : (buildReport disk options).result = .error (.input e))
      (exit : done.exit = .ok 1) (told : done.err ≠ "")
  | delivered (plain : ¬ options.Misdirected) (report : Report)
      (built : (buildReport disk options).result = .ok report)
      (ends : Delivered disk options report done)

theorem checked (disk : Disk) (options : Options) :
    Checked disk options (check disk options) := by
  unfold check
  split
  next asked => exact .misdirected asked rfl (by simp)
  next plain =>
    dsimp only
    split
    next report built => exact .delivered plain report built (delivered ..)
    next fault failed => exact .fault plain ⟨fault, failed⟩ fault rfl
    next e input => exact .refused plain e input rfl (by simp)

def exitOf (failed? : Option WriteError) (report : Report) : Except Fault Nat :=
  match failed? with
  | none => .ok (exitCode report)
  | some .holdsNul => .error .nulInOutput
  | some _ => .ok 1

theorem Delivered.exit_eq {disk : Disk} {options : Options} {report : Report} {done : Run}
    (ends : Delivered disk options report done) :
    done.exit = exitOf (writeError? disk options report) report := by
  cases ends with
  | verdict written exit => rw [exit, written, exitOf]
  | refused e failed other exit told =>
    rw [exit, failed]
    cases e with
    | holdsNul => exact absurd rfl other
    | _ => rfl
  | fault failed exit => rw [exit, failed, exitOf]

theorem exit_of_built {disk : Disk} {options : Options} {report : Report}
    (plain : ¬ options.Misdirected) (built : (buildReport disk options).result = .ok report) :
    (check disk options).exit = exitOf (writeError? disk options report) report := by
  cases checked disk options with
  | misdirected asked => exact absurd asked plain
  | fault _ faults =>
    obtain ⟨fault, failed⟩ := faults
    cases built.symm.trans failed
  | refused _ e input => cases built.symm.trans input
  | delivered _ other built' ends =>
    cases built.symm.trans built'
    exact ends.exit_eq

theorem exit_of_fault {disk : Disk} {options : Options} {fault : Fault}
    (plain : ¬ options.Misdirected)
    (failed : (buildReport disk options).result = .error (.fault fault)) :
    (check disk options).exit = .error fault := by
  unfold check
  split
  next asked => exact absurd asked plain
  next =>
    dsimp only
    rw [failed]

theorem exit_of_misdirected {options : Options} (disk : Disk) (asked : options.Misdirected) :
    (check disk options).exit = .ok 1 := by
  cases checked disk options with
  | misdirected _ exit => exact exit
  | fault plain => exact absurd asked plain
  | refused plain => exact absurd asked plain
  | delivered plain => exact absurd asked plain

/-- The check is passed: a report is delivered, and no change in it is breaking. -/
def Passes (disk : Disk) (options : Options) : Prop :=
  ¬ options.Misdirected ∧ ∃ report, (buildReport disk options).result = .ok report ∧
    writeError? disk options report = none ∧ report.isBreaking = false

/-- The two sources are compared, and a change is breaking. -/
def Breaks (disk : Disk) (options : Options) : Prop :=
  ∃ report, (buildReport disk options).result = .ok report ∧ report.isBreaking = true

variable {disk : Disk} {options : Options} {done : Run}

theorem Checked.verdict_iff (ends : Checked disk options done) :
    (done.exit = .ok 0 ∨ done.exit = .ok 1) ↔
      (¬ options.Misdirected → ¬ Escapes disk options) := by
  cases ends with
  | misdirected asked exit told =>
    exact iff_of_true (.inr exit) fun plain => absurd asked plain
  | fault plain faults fault exit =>
    refine iff_of_false (by simp [exit]) fun sound => ?_
    exact sound plain (.gathering (faults_buildReport.mp faults))
  | refused plain e input exit told =>
    refine iff_of_true (.inr exit) fun _ escapes => ?_
    cases escapes with
    | gathering cause =>
      obtain ⟨fault, failed⟩ := faults_buildReport.mpr cause
      cases input.symm.trans failed
    | writing report built path target cause => cases input.symm.trans built
  | delivered plain report built ends =>
    -- The report is there, so what can still escape comes from its file.
    have gathered : ¬ Ungatherable disk options := by
      rw [← faults_buildReport]
      rintro ⟨fault, failed⟩
      cases built.symm.trans failed
    have writing : Escapes disk options ↔ writeError? disk options report = some .holdsNul := by
      rw [writeError_nul_iff]
      constructor
      · rintro (cause | ⟨report', built', path, target, cause⟩)
        · exact absurd cause gathered
        · exact ⟨path, target, cause⟩
      · rintro ⟨path, target, cause⟩
        exact .writing report built path target cause
    rw [writing]
    cases ends with
    | verdict written exit =>
      refine iff_of_true ?_ fun _ nul => by simp [written] at nul
      cases breaking : report.isBreaking <;> simp [exit, breaking]
    | refused e failed other exit told =>
      exact iff_of_true (.inr exit) fun _ nul => other (Option.some.inj (failed.symm.trans nul))
    | fault failed exit => exact iff_of_false (by simp [exit]) fun sound => sound plain failed

theorem Checked.zero_iff (ends : Checked disk options done) :
    done.exit = .ok 0 ↔ Passes disk options := by
  cases ends with
  | misdirected asked exit told => simp [exit, Passes, asked]
  | fault plain faults fault exit =>
    obtain ⟨_, failed⟩ := faults
    simp [exit, Passes, failed]
  | refused plain e input exit told => simp [exit, Passes, input]
  | delivered plain report built ends =>
    cases ends with
    | verdict written exit => simp [exit, Passes, plain, built, written]
    | refused e failed other exit told => simp [exit, Passes, built, failed]
    | fault failed exit => simp [exit, Passes, built, failed]

theorem Checked.told (ends : Checked disk options done) (refused : done.exit = .ok 1) :
    Breaks disk options ∨ done.err ≠ "" := by
  cases ends with
  | misdirected asked exit told => exact .inr told
  | fault plain faults fault exit => simp [exit] at refused
  | refused plain e input exit told => exact .inr told
  | delivered plain report built ends =>
    cases ends with
    | verdict written exit =>
      have breaking : report.isBreaking = true := by simpa [exit] using refused
      exact .inl ⟨report, built, breaking⟩
    | refused e failed other exit told => exact .inr told
    | fault failed exit => simp [exit] at refused

theorem run_of_options {arguments : List String} (read : Options.read arguments = .ok options) :
    (run disk arguments).exit = (check disk options).exit ∧
      (run disk arguments).err = (check disk options).err := by
  unfold run
  simp only [read]
  split <;> exact ⟨rfl, rfl⟩

/-- A run ends with exit code 0 or 1 unless it has read options, under which something
escapes. The exit code is 0 exactly when help is asked for or the check is passed; when it is
1, the changes are breaking or an error stream says what was refused. -/
theorem run_verdict_iff (disk : Disk) (arguments : List String) :
    (((run disk arguments).exit = .ok 0 ∨ (run disk arguments).exit = .ok 1) ↔
      ∀ options, Options.read arguments = .ok options → ¬ options.Misdirected →
        ¬ Escapes disk options) ∧
    ((run disk arguments).exit = .ok 0 ↔ Options.read arguments = .error .help ∨
      ∃ options, Options.read arguments = .ok options ∧ Passes disk options) ∧
    ((run disk arguments).exit = .ok 1 →
      (∃ options, Options.read arguments = .ok options ∧ Breaks disk options) ∨
      (run disk arguments).usageErr ≠ "" ∨ (run disk arguments).err ≠ "") := by
  cases read : Options.read arguments with
  | error refusal => cases refusal <;> simp [run, read, Run.quiet]
  | ok options =>
    have ends := checked disk options
    obtain ⟨exit, err⟩ := @run_of_options disk options arguments read
    rw [exit, err]
    refine ⟨?_, ?_, fun refused => ?_⟩
    · simpa using ends.verdict_iff
    · simpa using ends.zero_iff
    · rcases ends.told refused with breaks | told
      · exact .inl ⟨options, rfl, breaks⟩
      · exact .inr (.inr told)

/-- A pattern that is no glob ends the run without a verdict. -/
theorem no_verdict_on_stars_in_component :
    (run ⟨[], [["old"], ["new"]], []⟩ ["old", "new", "--pattern", "**.kt"]).exit =
      .error (.discovery (.glob .starsInComponent)) := rfl

end Command

end RecordCompat
