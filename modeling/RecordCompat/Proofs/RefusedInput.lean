import RecordCompat.Proofs.DiscoveredPairs
import RecordCompat.Proofs.Verdict

/-! Input that is refused. All sources are looked up and read before anything is written, so a run
that refuses its input has left the disk alone and written nothing but its complaint. The
sources are read in the order of their paths, the old side of a pair before the new one,
and reading stops at the first file that is no text; this is the file that is complained of. -/
namespace RecordCompat.Command

open Files

def Readable (disk : Disk) (path : Path) : Prop :=
  ∃ bytes text, disk.node? path = .ok (some (.file bytes)) ∧ Text.readText bytes = .ok text

def Undecodable (disk : Disk) (path : Path) (e : Text.Utf8.DecodeError) : Prop :=
  ∃ bytes, disk.node? path = .ok (some (.file bytes)) ∧ Text.readText bytes = .error e

/-- The first of several files that cannot be decoded. Those ahead of it can be read. -/
inductive FirstUndecodable (disk : Disk) : List Path → Path → Text.Utf8.DecodeError → Prop
  | here {path : Path} {rest : List Path} {e : Text.Utf8.DecodeError}
      (broken : Undecodable disk path e) : FirstUndecodable disk (path :: rest) path e
  | behind {path other : Path} {rest : List Path} {e : Text.Utf8.DecodeError}
      (passed : Readable disk path) (later : FirstUndecodable disk rest other e) :
      FirstUndecodable disk (path :: rest) other e

section FirstUndecodable

variable {disk : Disk} {paths : List Path} {path : Path} {e : Text.Utf8.DecodeError}

theorem exists_firstUndecodable
    (files : ∀ p ∈ paths, ∃ bytes, disk.node? p = .ok (some (.file bytes)))
    (member : path ∈ paths) (broken : Undecodable disk path e) :
    ∃ first e', FirstUndecodable disk paths first e' := by
  induction paths with
  | nil => cases member
  | cons p rest ih =>
    obtain ⟨⟨bytes, there⟩, later⟩ := List.forall_mem_cons.mp files
    cases read : Text.readText bytes with
    | error e' => exact ⟨p, e', .here ⟨bytes, there, read⟩⟩
    | ok text =>
      rcases List.mem_cons.mp member with rfl | inside
      · obtain ⟨bytes', there', failed⟩ := broken
        cases there.symm.trans there'
        cases read.symm.trans failed
      · obtain ⟨first, e', found⟩ := ih later inside
        exact ⟨first, e', .behind ⟨bytes, text, there, read⟩ found⟩

theorem firstUndecodable_append {ahead behind : List Path}
    (first : FirstUndecodable disk (ahead ++ behind) path e) :
    FirstUndecodable disk ahead path e ∨
      (∀ p ∈ ahead, Readable disk p) ∧ FirstUndecodable disk behind path e := by
  induction ahead with
  | nil => exact .inr ⟨List.forall_mem_nil _, first⟩
  | cons p rest ih =>
    cases first with
    | here broken => exact .inl (.here broken)
    | behind passed later =>
      rcases ih later with within | ⟨all, found⟩
      · exact .inl (.behind passed within)
      · exact .inr ⟨List.forall_mem_cons.mpr ⟨passed, all⟩, found⟩

theorem extractFile_readable {side : Option Path} (all : ∀ p ∈ side.toList, Readable disk p) :
    ∃ records, (extractFile disk side).result = .ok records := by
  cases side with
  | none => exact ⟨_, rfl⟩
  | some p =>
    obtain ⟨bytes, text, there, read⟩ := all p (by simp)
    exact ⟨_, extractFile_file there read⟩

theorem extractFile_undecodable {side : Option Path}
    (first : FirstUndecodable disk side.toList path e) :
    (extractFile disk side).result = .error (.input (.unreadable path e)) := by
  cases side with
  | none => cases first
  | some p =>
    cases first with
    | here broken =>
      obtain ⟨bytes, there, failed⟩ := broken
      refine Logged.result_bind_error.mpr (.inl ?_)
      simp only [sourceText, there, failed, Logged.result_fail]
    | behind passed later => cases later

/-- The files of pairs in the order in which they are read. -/
def sourcesOf (pairs : List SourcePair) : List Path :=
  pairs.flatMap fun pair => pair.old?.toList ++ pair.new?.toList

theorem extractPairs_undecodable {pairs : List SourcePair}
    (first : FirstUndecodable disk (sourcesOf pairs) path e) :
    (extractPairs disk pairs).result = .error (.input (.unreadable path e)) := by
  induction pairs with
  | nil => cases first
  | cons pair rest ih =>
    rw [sourcesOf, List.flatMap_cons, List.append_assoc] at first
    rcases firstUndecodable_append first with olds | ⟨oldReadable, first⟩
    · exact Logged.result_bind_error.mpr (.inl (extractFile_undecodable olds))
    obtain ⟨oldRecords, oldRead⟩ := extractFile_readable oldReadable
    refine Logged.result_bind_error.mpr (.inr ⟨_, oldRead, ?_⟩)
    rcases firstUndecodable_append first with news | ⟨newReadable, first⟩
    · exact Logged.result_bind_error.mpr (.inl (extractFile_undecodable news))
    obtain ⟨newRecords, newRead⟩ := extractFile_readable newReadable
    refine Logged.result_bind_error.mpr (.inr ⟨_, newRead, ?_⟩)
    exact Logged.result_bind_error.mpr (.inl (ih first))

end FirstUndecodable

/-- The pairs of files that a check reads: the two operands, or what is found below them. -/
inductive Sources (disk : Disk) (options : Options) (old new : Path) : List SourcePair → Prop
  | files {oldBytes newBytes : List UInt8} (olds : disk.node? old = .ok (some (.file oldBytes)))
      (news : disk.node? new = .ok (some (.file newBytes))) :
      Sources disk options old new [⟨"", some old, some new⟩]
  | directories {pairs : List SourcePair} (olds : disk.node? old = .ok (some .directory))
      (news : disk.node? new = .ok (some .directory))
      (found : (discover disk old new options.pattern options.exclude).result = .ok pairs) :
      Sources disk options old new pairs

/-- The input error that ends a check, and what it comes from. -/
inductive Refuses (disk : Disk) (options : Options) : InputError → Prop
  | oldMissing {old new : String} (named : options.old? = some old ∧ options.new? = some new)
      (gone : disk.node? (.ofString old) = .ok none) :
      Refuses disk options (.missing (.ofString old))
  | newMissing {old new : String} (named : options.old? = some old ∧ options.new? = some new)
      {node : Disk.Node} (olds : disk.node? (.ofString old) = .ok (some node))
      (gone : disk.node? (.ofString new) = .ok none) :
      Refuses disk options (.missing (.ofString new))
  | mixed {old new : String} (named : options.old? = some old ∧ options.new? = some new)
      {oldNode newNode : Disk.Node} (olds : disk.node? (.ofString old) = .ok (some oldNode))
      (news : disk.node? (.ofString new) = .ok (some newNode))
      (kinds : oldNode.isFile ≠ newNode.isFile) :
      Refuses disk options (.mixed (.ofString old) (.ofString new))
  | undecodable {old new : String} (named : options.old? = some old ∧ options.new? = some new)
      {pairs : List SourcePair}
      (sources : Sources disk options (.ofString old) (.ofString new) pairs)
      (increasing : (pairs.map SourcePair.path).Pairwise (· < ·)) {path : Path}
      {e : Text.Utf8.DecodeError} (first : FirstUndecodable disk (sourcesOf pairs) path e) :
      Refuses disk options (.unreadable path e)

section Refuses

variable {disk : Disk} {options : Options} {old new : Path} {pairs : List SourcePair}

theorem Sources.file (sources : Sources disk options old new pairs) :
    ∀ p ∈ sourcesOf pairs, ∃ bytes, disk.node? p = .ok (some (.file bytes)) := by
  intro p member
  obtain ⟨pair, inside, side⟩ := List.mem_flatMap.mp member
  have sides : p ∈ pair.old? ∨ p ∈ pair.new? := by
    simpa using side
  cases sources with
  | files olds news =>
    obtain rfl := List.mem_singleton.mp inside
    rcases sides with same | same
    · exact Option.some.inj same ▸ ⟨_, olds⟩
    · exact Option.some.inj same ▸ ⟨_, news⟩
  | directories olds news found => exact file_of_discover found pair inside p sides

theorem Sources.increasing (sources : Sources disk options old new pairs) :
    (pairs.map SourcePair.path).Pairwise (· < ·) := by
  cases sources with
  | files olds news => exact List.pairwise_singleton _ _
  | directories olds news found => exact increasing_of_discover found

theorem Sources.refused (sources : Sources disk options old new pairs) {path : Path}
    {e : Text.Utf8.DecodeError} (first : FirstUndecodable disk (sourcesOf pairs) path e) :
    (gatherFrom disk old new options).result = .error (.input (.unreadable path e)) := by
  cases sources with
  | files olds news =>
    refine Logged.result_bind_error.mpr (.inr ⟨_, nodeAt_ok.mpr olds, ?_⟩)
    refine Logged.result_bind_error.mpr (.inr ⟨_, nodeAt_ok.mpr news, ?_⟩)
    change FirstUndecodable disk ((some old).toList ++ (some new).toList) path e at first
    rcases firstUndecodable_append first with here | ⟨readable, later⟩
    · exact Logged.result_bind_error.mpr (.inl (extractFile_undecodable here))
    · obtain ⟨records, read⟩ := extractFile_readable readable
      refine Logged.result_bind_error.mpr (.inr ⟨records, read, ?_⟩)
      exact Logged.result_bind_error.mpr (.inl (extractFile_undecodable later))
  | directories olds news found =>
    rw [gatherFrom_directories options olds news, found]
    change (extractPairs disk pairs).result.map _ = _
    rw [extractPairs_undecodable first]
    rfl

theorem Refuses.result {e : InputError} (refuses : Refuses disk options e) :
    (buildReport disk options).result = .error (.input e) := by
  refine Logged.result_bind_error.mpr (.inl ?_)
  cases refuses with
  | oldMissing named gone =>
    rw [gather_named named]
    refine Logged.result_bind_error.mpr (.inl ?_)
    simp only [nodeAt, gone, Logged.result_fail]
  | newMissing named olds gone =>
    rw [gather_named named]
    refine Logged.result_bind_error.mpr (.inr ⟨_, nodeAt_ok.mpr olds, ?_⟩)
    refine Logged.result_bind_error.mpr (.inl ?_)
    simp only [nodeAt, gone, Logged.result_fail]
  | mixed named olds news kinds =>
    rw [gather_named named]
    refine Logged.result_bind_error.mpr (.inr ⟨_, nodeAt_ok.mpr olds, ?_⟩)
    refine Logged.result_bind_error.mpr (.inr ⟨_, nodeAt_ok.mpr news, ?_⟩)
    rename_i oldNode newNode
    cases oldNode <;> cases newNode <;> first | rfl | exact absurd rfl kinds
  | undecodable named sources increasing first =>
    rw [gather_named named]
    exact sources.refused first

end Refuses

/-- The run fails with one message, and has done nothing else. -/
structure NoTrace (disk : Disk) (message : String) (done : Run) : Prop where
  exit : done.exit = .ok 1
  err : done.err = message ++ "\n"
  out : done.out = ""
  usage : done.usageOut = "" ∧ done.usageErr = ""
  disk : done.disk = disk

inductive Complaint (disk : Disk) (options : Options) : String → Prop
  | misdirected (asked : options.Misdirected) :
      Complaint disk options "--output requires --format json"
  | input (plain : ¬ options.Misdirected) {e : InputError} (refuses : Refuses disk options e) :
      Complaint disk options e.message

inductive Wrong (disk : Disk) (options : Options) : Prop
  | misdirected (asked : options.Misdirected)
  | missing {operand : String} (named : options.old? = some operand ∨ options.new? = some operand)
      (gone : ∀ node, disk.node? (.ofString operand) ≠ .ok (some node))
  | mixed {old new : String} (named : options.old? = some old ∧ options.new? = some new)
      {oldNode newNode : Disk.Node} (olds : disk.node? (.ofString old) = .ok (some oldNode))
      (news : disk.node? (.ofString new) = .ok (some newNode))
      (kinds : oldNode.isFile ≠ newNode.isFile)
  | undecodable {old new : String} (named : options.old? = some old ∧ options.new? = some new)
      {pairs : List SourcePair}
      (sources : Sources disk options (.ofString old) (.ofString new) pairs)
      {path : Path} (member : path ∈ sourcesOf pairs) {e : Text.Utf8.DecodeError}
      (broken : Undecodable disk path e)

/-- The operands name paths that can be looked up, the new one if there is something at the old
one. -/
def Known (disk : Disk) (options : Options) : Prop :=
  ∃ old new, options.old? = some old ∧ options.new? = some new ∧
    ¬ Unknowable disk (.ofString old) ∧
    ∀ node, disk.node? (.ofString old) = .ok (some node) → ¬ Unknowable disk (.ofString new)

section NoTrace

variable {disk : Disk} {options : Options} {arguments : List String}

theorem run_eq_check (disk : Disk) (read : Options.read arguments = .ok options) :
    ∃ events, run disk arguments = { check disk options with events := events } := by
  unfold run
  rw [read]
  dsimp only
  split
  · exact ⟨_, rfl⟩
  · exact ⟨_, rfl⟩

/-- The sources are read in full or refused before the check does anything. -/
theorem Complaint.noTrace {message : String} (complaint : Complaint disk options message) :
    NoTrace disk message (check disk options) := by
  unfold check
  split
  next asked =>
    cases complaint with
    | misdirected => exact ⟨rfl, rfl, rfl, ⟨rfl, rfl⟩, rfl⟩
    | input plain refuses => exact absurd asked plain
  next plain =>
    cases complaint with
    | misdirected asked => exact absurd asked plain
    | input _ refuses =>
      dsimp only
      rw [refuses.result]
      exact ⟨rfl, rfl, rfl, ⟨rfl, rfl⟩, rfl⟩

theorem Known.refuses (known : Known disk options) (plain : ¬ options.Misdirected)
    (wrong : Wrong disk options) : ∃ e, Refuses disk options e := by
  obtain ⟨old, new, olds, news, oldKnown, newKnown⟩ := known
  cases oldThere : disk.node? (.ofString old) with
  | error e => exact absurd ⟨e, oldThere⟩ oldKnown
  | ok node? =>
    cases node? with
    | none => exact ⟨_, .oldMissing ⟨olds, news⟩ oldThere⟩
    | some oldNode =>
      cases newThere : disk.node? (.ofString new) with
      | error e => exact absurd ⟨e, newThere⟩ (newKnown oldNode oldThere)
      | ok node? =>
        cases node? with
        | none => exact ⟨_, .newMissing ⟨olds, news⟩ oldThere newThere⟩
        | some newNode =>
          by_cases kinds : oldNode.isFile = newNode.isFile
          · cases wrong with
            | misdirected asked => exact absurd asked plain
            | missing named gone =>
              rcases named with named | named
              · cases olds.symm.trans named
                exact absurd oldThere (gone oldNode)
              · cases news.symm.trans named
                exact absurd newThere (gone newNode)
            | mixed named oldThere' newThere' kinds' =>
              cases olds.symm.trans named.1
              cases news.symm.trans named.2
              cases oldThere.symm.trans oldThere'
              cases newThere.symm.trans newThere'
              exact absurd kinds kinds'
            | undecodable named sources member broken =>
              obtain ⟨path, e, first⟩ := exists_firstUndecodable sources.file member broken
              exact ⟨_, .undecodable named sources sources.increasing first⟩
          · exact ⟨_, .mixed ⟨olds, news⟩ oldThere newThere kinds⟩

theorem known_of_gatherable (gatherable : ¬ Ungatherable disk options) : Known disk options := by
  cases olds : options.old? with
  | none => exact absurd (.nothingNamed (.inl olds)) gatherable
  | some old =>
    cases news : options.new? with
    | none => exact absurd (.nothingNamed (.inr news)) gatherable
    | some new =>
      refine ⟨old, new, olds, news, fun lost => ?_, fun node there lost => ?_⟩
      · exact gatherable (.oldUnknowable old new ⟨olds, news⟩ lost)
      · exact gatherable (.newUnknowable old new ⟨olds, news⟩ node there lost)

/-- Wrong input leaves no trace but one message: the output is asked for in another format, or else
the first thing found to be wrong, which among several files that are no texts is the first
one by its path, on the old side before the new one. It does so exactly unless an operand
cannot be looked up. -/
theorem refused_without_trace_iff (read : Options.read arguments = .ok options)
    (wrong : Wrong disk options) :
    (∃ message, Complaint disk options message ∧ NoTrace disk message (run disk arguments)) ↔
      (¬ options.Misdirected → Known disk options) := by
  obtain ⟨events, same⟩ := run_eq_check disk read
  have traces {message : String} (untouched : NoTrace disk message (check disk options)) :
      NoTrace disk message (run disk arguments) := by
    rw [same]
    exact ⟨untouched.exit, untouched.err, untouched.out, untouched.usage, untouched.disk⟩
  constructor
  · rintro ⟨message, -, untouched⟩ plain
    refine known_of_gatherable fun cause => ?_
    obtain ⟨fault, failed⟩ := faults_buildReport.mpr cause
    have code := untouched.exit
    rw [same, exit_of_fault plain failed] at code
    cases code
  · intro known
    by_cases asked : options.Misdirected
    · exact ⟨_, .misdirected asked, traces (Complaint.misdirected asked).noTrace⟩
    · obtain ⟨e, refuses⟩ := (known asked).refuses asked wrong
      exact ⟨_, .input asked refuses, traces (Complaint.input asked refuses).noTrace⟩

end NoTrace

/-- Two files that are no texts, in a run that asks for a file. -/
theorem refused_without_trace_on_broken_files :
    let disk : Disk := ⟨[(["old", "A.kt"], [0xff]), (["new", "A.kt"], [0xfe])], [], []⟩
    let arguments := ["old", "new", "--format", "json", "--output", "out.json"]
    let options : Options :=
      ⟨some "old", some "new", some .json, some "out.json", "*.kt", [], false⟩
    Options.read arguments = .ok options ∧ Wrong disk options ∧
      (¬ options.Misdirected → Known disk options) ∧
      ∃ message, Complaint disk options message ∧ NoTrace disk message (run disk arguments) := by
  intro disk arguments options
  have read : Options.read arguments = .ok options := by decide
  have olds : disk.node? (.ofString "old") = .ok (some .directory) := by decide +kernel
  have news : disk.node? (.ofString "new") = .ok (some .directory) := by decide +kernel
  have found : (discover disk (.ofString "old") (.ofString "new") "*.kt" []).result =
      .ok [⟨"A.kt", some (.ofString "old/A.kt"), some (.ofString "new/A.kt")⟩] := by
    decide +kernel
  have member : Path.ofString "new/A.kt" ∈
      sourcesOf [⟨"A.kt", some (.ofString "old/A.kt"), some (.ofString "new/A.kt")⟩] := by
    simp [sourcesOf]
  have wrong : Wrong disk options :=
    .undecodable ⟨rfl, rfl⟩ (.directories olds news found) member ⟨[0xfe], rfl, rfl⟩
  have known : Known disk options := by
    refine ⟨"old", "new", rfl, rfl, fun ⟨e, lost⟩ => ?_, fun _ _ ⟨e, lost⟩ => ?_⟩
    · cases lost.symm.trans olds
    · cases lost.symm.trans news
  exact ⟨read, wrong, fun _ => known, (refused_without_trace_iff read wrong).mpr fun _ => known⟩

/-- Where the old operand is too long and the new one is missing, nothing is said of either. -/
theorem no_complaint_of_long_operand :
    let disk : Disk := ⟨[], [], []⟩
    let options : Options :=
      ⟨some (letters 256), some "missing", some .text, none, "*.kt", [], false⟩
    Options.read [letters 256, "missing"] = .ok options ∧ Wrong disk options ∧
      ∀ message, ¬ NoTrace disk message (run disk [letters 256, "missing"]) := by
  intro disk options
  have read : Options.read [letters 256, "missing"] = .ok options :=
    Options.read_operands (not_mem_letters (by decide)) (by decide)
  have lost : disk.node? (.ofString (letters 256)) = .error ⟨.ofString (letters 256)⟩ :=
    node?_longName disk (isComponent_letters (by decide)) (holdable_letters 256)
      (by rw [size_letters]; decide)
  have gone : disk.node? (.ofString "missing") = .ok none := by decide +kernel
  refine ⟨read, .missing (.inr rfl) fun node there => ?_, fun message untouched => ?_⟩
  · cases gone.symm.trans there
  · have cause : Ungatherable disk options :=
      .oldUnknowable (letters 256) "missing" ⟨rfl, rfl⟩ ⟨_, lost⟩
    obtain ⟨fault, failed⟩ := faults_buildReport.mpr cause
    have code := untouched.exit
    rw [(run_of_options read).1, exit_of_fault (fun asked => asked.1 rfl) failed] at code
    cases code

end RecordCompat.Command
