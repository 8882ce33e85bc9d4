import RecordCompat.Proofs.AgreeingDisks
import RecordCompat.Proofs.DirectoryMode
import RecordCompat.Proofs.RefusedInput

/-! Files that do not take part. Two disks may differ in the files below two roots that the pattern
does not ask for or that are excluded. Where the roots can be searched on both, the same pairs are
found and read, so the same report is delivered, and to the same file if that lies outside. -/
namespace RecordCompat.Command

open Files

/-- A path names a file of the same bytes on two disks. -/
def SameFile (disk other : Disk) (path : Path) : Prop :=
  ∃ bytes, disk.node? path = .ok (some (.file bytes)) ∧
    other.node? path = .ok (some (.file bytes))

theorem sourceText_congr {disk other : Disk} {side : Option Path}
    (same : ∀ p ∈ side.toList, SameFile disk other p) :
    sourceText disk side = sourceText other side := by
  cases side with
  | none => rfl
  | some p =>
    obtain ⟨bytes, file, file'⟩ := same p (by simp)
    simp only [sourceText, file, file']

theorem extractPairs_congr {disk other : Disk} {pairs : List SourcePair}
    (same : ∀ p ∈ sourcesOf pairs, SameFile disk other p) :
    extractPairs disk pairs = extractPairs other pairs := by
  induction pairs with
  | nil => rfl
  | cons pair rest ih =>
    rw [sourcesOf, List.flatMap_cons, List.append_assoc] at same
    obtain ⟨olds, same⟩ := List.forall_mem_append.mp same
    obtain ⟨news, later⟩ := List.forall_mem_append.mp same
    rw [extractPairs, extractPairs, extractFile, extractFile, extractFile, extractFile,
      sourceText_congr olds, sourceText_congr news, ih later]

/-- Two runs that end alike, write the same, and leave the same at the place of an output. -/
structure SameOutcome (output? : Option Path) (done done' : Run) : Prop where
  exit : done.exit = done'.exit
  out : done.out = done'.out
  err : done.err = done'.err
  usage : done.usageOut = done'.usageOut ∧ done.usageErr = done'.usageErr
  saved : ∀ path ∈ output?, done.disk.node? path = done'.disk.node? path

section Delivery

variable {disk other : Disk} {options : Options} {report : Report}

theorem writeReport_alike {events events' : List Event} {output : String}
    (same : ∀ bytes,
      (disk.write (.ofString output) bytes).2 = (other.write (.ofString output) bytes).2 ∧
      (disk.write (.ofString output) bytes).1.node? (.ofString output) =
        (other.write (.ofString output) bytes).1.node? (.ofString output)) :
    SameOutcome (some (.ofString output)) (writeReport disk events output report)
      (writeReport other events' output report) := by
  obtain ⟨ends, saved⟩ := same (jsonText report).toUTF8.toList
  unfold writeReport
  cases wrote : disk.write (.ofString output) (jsonText report).toUTF8.toList with
  | mk later failed? =>
  cases wrote' : other.write (.ofString output) (jsonText report).toUTF8.toList with
  | mk later' failed?' =>
  rw [wrote, wrote'] at ends saved
  obtain rfl : failed? = failed?' := ends
  have left : ∀ path ∈ some (Path.ofString output), later.node? path = later'.node? path := by
    rintro path ⟨⟩
    exact saved
  rcases failed? with - | e
  · exact ⟨rfl, rfl, rfl, ⟨rfl, rfl⟩, left⟩
  · cases e <;> exact ⟨rfl, rfl, rfl, ⟨rfl, rfl⟩, left⟩

theorem deliver_alike {events events' : List Event}
    (agree : ∀ path ∈ options.target?,
      Disk.Agree disk.here (Disk.wayTo disk.here path) disk other) :
    SameOutcome options.target? (deliver disk events options report)
      (deliver other events' options report) := by
  have looked : ∀ path ∈ options.target?, disk.node? path = other.node? path :=
    fun path target => (agree path target).node? fun _ => id
  unfold deliver
  split
  next => exact ⟨rfl, rfl, rfl, ⟨rfl, rfl⟩, looked⟩
  next => exact ⟨rfl, rfl, rfl, ⟨rfl, rfl⟩, looked⟩
  next format =>
    dsimp only
    split
    next => exact ⟨rfl, rfl, rfl, ⟨rfl, rfl⟩, looked⟩
    next output =>
      have target : options.target? = some (.ofString (options.output?.getD "")) := by
        simp [Options.target?, format, output]
      rw [target] at agree ⊢
      exact writeReport_alike fun bytes => (agree _ rfl).write

theorem check_alike (result : ¬ options.Misdirected →
      (buildReport disk options).result = (buildReport other options).result)
    (agree : ∀ path ∈ options.target?,
      Disk.Agree disk.here (Disk.wayTo disk.here path) disk other) :
    SameOutcome options.target? (check disk options) (check other options) := by
  have looked : ∀ path ∈ options.target?, disk.node? path = other.node? path :=
    fun path target => (agree path target).node? fun _ => id
  unfold check
  split
  next => exact ⟨rfl, rfl, rfl, ⟨rfl, rfl⟩, looked⟩
  next plain =>
    dsimp only
    rw [← result plain]
    split
    next => exact deliver_alike agree
    next => exact ⟨rfl, rfl, rfl, ⟨rfl, rfl⟩, looked⟩
    next => exact ⟨rfl, rfl, rfl, ⟨rfl, rfl⟩, looked⟩

end Delivery

def HasContent (disk : Disk) (root : Path) (parts : List String) (bytes : List UInt8) : Prop :=
  ∃ base, disk.IsTree root base ∧ disk.file? (base ++ parts) = some bytes

theorem hasFile_iff_content {disk : Disk} {root : Path} {parts : List String} :
    disk.HasFile root parts ↔ ∃ bytes, HasContent disk root parts bytes := by
  simp only [Disk.HasFile, HasContent, Disk.isFile, Option.isSome_iff_exists]
  constructor
  · rintro ⟨base, tree, bytes, content⟩
    exact ⟨bytes, base, tree, content⟩
  · rintro ⟨bytes, base, tree, content⟩
    exact ⟨base, tree, bytes, content⟩

def Inside (disk : Disk) (root : Path) (place : Place) : Prop :=
  ∃ base, disk.IsTree root base ∧ base <+: place ∧ place ≠ base

/-- Two disks that differ only in files below two directories that are not selected there. Where
there is an output, what lies on the way to it outside these directories is the same. -/
structure IdleDifference (disk other : Disk) (glob : Glob) (ignore : List IgnoreLine)
    (old new : Path) (output? : Option Path) : Prop where
  here : disk.here = other.here
  oldTree : disk.node? old = .ok (some .directory)
  newTree : disk.node? new = .ok (some .directory)
  oldTree' : other.node? old = .ok (some .directory)
  newTree' : other.node? new = .ok (some .directory)
  oldFiles : ∀ parts, glob.Selects ignore parts →
    ∀ bytes, HasContent disk old parts bytes ↔ HasContent other old parts bytes
  newFiles : ∀ parts, glob.Selects ignore parts →
    ∀ bytes, HasContent disk new parts bytes ↔ HasContent other new parts bytes
  elsewhere : ∀ path ∈ output?, ∀ place ∈ Disk.wayTo disk.here path,
    ¬ Inside disk old place → ¬ Inside disk new place → disk.at? place = other.at? place

section Idle

variable {disk other : Disk} {glob : Glob} {ignore : List IgnoreLine} {options : Options}
  {old new : String} {arguments : List String}

/-- A selected file is the same where both searches come to their ends. -/
theorem sameFile_of_side (sound : disk.Sound) (sound' : other.Sound) {root : Path}
    {parts : List String} (asked : glob.Matches parts) (completes : glob.Completes disk root)
    (completes' : glob.Completes other root)
    (same : ∀ bytes, HasContent disk root parts bytes ↔ HasContent other root parts bytes)
    {side : Option Path} (found : IsSide disk root parts side) :
    ∀ p ∈ side.toList, SameFile disk other p := by
  intro p member
  rcases found with ⟨there, rfl⟩ | ⟨-, rfl⟩
  · obtain rfl := List.mem_singleton.mp member
    obtain ⟨bytes, content⟩ := hasFile_iff_content.mp there
    obtain ⟨base', tree', content'⟩ := (same bytes).mp content
    obtain ⟨base, tree, content⟩ := content
    exact ⟨bytes, completes.node?_file sound tree asked content,
      completes'.node?_file sound' tree' asked content'⟩
  · cases member

theorem IdleDifference.result (sound : disk.Sound) (sound' : other.Sound)
    (named : options.old? = some old ∧ options.new? = some new)
    (parsed : Glob.read options.pattern = .ok glob)
    (inside : ".." ∉ (Path.ofString options.pattern).parts)
    (lines : Ignore.read options.exclude = .ok ignore) {output? : Option Path}
    (idle : IdleDifference disk other glob ignore (.ofString old) (.ofString new) output?)
    (completes : glob.Completes disk (.ofString old) ∧ glob.Completes disk (.ofString new))
    (completes' : glob.Completes other (.ofString old) ∧ glob.Completes other (.ofString new)) :
    (buildReport disk options).result = (buildReport other options).result := by
  have below := staysBelow_of_read parsed inside
  obtain ⟨pairs, found⟩ := (discovers_iff sound below parsed lines).mpr completes
  obtain ⟨pairs', found'⟩ := (discovers_iff sound' below parsed lines).mpr completes'
  have listed := discovered_of_ok sound below parsed lines found
  have listed' := discovered_of_ok sound' below parsed lines found'
  obtain rfl := listed.unique sound sound' listed'
    (fun parts selected => by
      rw [hasFile_iff_content, hasFile_iff_content]
      exact exists_congr (idle.oldFiles parts selected))
    fun parts selected => by
      rw [hasFile_iff_content, hasFile_iff_content]
      exact exists_congr (idle.newFiles parts selected)
  have looked : ∀ p ∈ sourcesOf pairs, SameFile disk other p := by
    intro p member
    obtain ⟨pair, among, side⟩ := List.mem_flatMap.mp member
    obtain ⟨parts, -, selected, oldSide, newSide, -⟩ := listed.sides pair among
    rcases List.mem_append.mp side with olds | news
    · exact sameFile_of_side sound sound' selected.asked completes.1 completes'.1
        (idle.oldFiles parts selected) oldSide p olds
    · exact sameFile_of_side sound sound' selected.asked completes.2 completes'.2
        (idle.newFiles parts selected) newSide p news
  rw [buildReport_found named idle.oldTree idle.newTree found,
    buildReport_found named idle.oldTree' idle.newTree' found', extractPairs_congr looked]

theorem exit_of_completes (sound : disk.Sound) (below : glob.StaysBelow)
    (named : options.old? = some old ∧ options.new? = some new)
    (parsed : Glob.read options.pattern = .ok glob)
    (lines : Ignore.read options.exclude = .ok ignore)
    (olds : disk.node? (.ofString old) = .ok (some .directory))
    (news : disk.node? (.ofString new) = .ok (some .directory))
    (completes : ¬ options.Misdirected →
      glob.Completes disk (.ofString old) ∧ glob.Completes disk (.ofString new))
    (e : DiscoveryError) : (check disk options).exit ≠ .error (.discovery e) := by
  cases checked disk options with
  | misdirected _ exit => simp [exit]
  | fault plain faults =>
    obtain ⟨fault, failed⟩ := faults
    obtain ⟨pairs, found⟩ := (discovers_iff sound below parsed lines).mpr (completes plain)
    have readable : ¬ Faults (extractPairs disk pairs) :=
      not_faults_extractPairs (file_of_discover found)
    rw [buildReport_found named olds news found] at failed
    cases reading : (extractPairs disk pairs).result with
    | ok records =>
      rw [reading] at failed
      cases failed
    | error failure =>
      rw [reading] at failed
      cases failed
      exact absurd ⟨fault, reading⟩ readable
  | refused _ _ _ exit => simp [exit]
  | delivered _ report _ ends =>
    cases ends with
    | verdict _ exit => simp [exit]
    | refused _ _ _ exit => simp [exit]
    | fault _ exit => simp [exit]

/-- Files that do not take part have no influence: where they are all that differs and the output,
if any, lies outside both directories, the runs end alike, write the same to every stream and leave
the same output, exactly where the directories can be searched on both disks. -/
theorem idle_files_iff (sound : disk.Sound) (sound' : other.Sound)
    (read : Options.read arguments = .ok options)
    (named : options.old? = some old ∧ options.new? = some new)
    (parsed : Glob.read options.pattern = .ok glob)
    (inside : ".." ∉ (Path.ofString options.pattern).parts)
    (lines : Ignore.read options.exclude = .ok ignore)
    (idle : IdleDifference disk other glob ignore (.ofString old) (.ofString new) options.target?)
    (outside : ∀ path ∈ options.target?, ∀ place ∈ Disk.wayTo disk.here path,
      ¬ Inside disk (.ofString old) place ∧ ¬ Inside disk (.ofString new) place) :
    (SameOutcome options.target? (run disk arguments) (run other arguments) ∧
      ∀ e, (run disk arguments).exit ≠ .error (.discovery e)) ↔
    (¬ options.Misdirected →
      (glob.Completes disk (.ofString old) ∧ glob.Completes disk (.ofString new)) ∧
      (glob.Completes other (.ofString old) ∧ glob.Completes other (.ofString new))) := by
  have below := staysBelow_of_read parsed inside
  obtain ⟨events, runs⟩ := run_eq_check disk read
  obtain ⟨events', runs'⟩ := run_eq_check other read
  rw [runs, runs']
  constructor
  · rintro ⟨same, ends⟩ plain
    have ends' : ∀ e, (check other options).exit ≠ .error (.discovery e) :=
      fun e failed => ends e (same.exit.trans failed)
    exact ⟨completes_of_result sound below named parsed lines idle.oldTree idle.newTree
        fun e failed => ends e (exit_of_fault plain failed),
      completes_of_result sound' below named parsed lines idle.oldTree' idle.newTree'
        fun e failed => ends' e (exit_of_fault plain failed)⟩
  · intro completes
    have agree : ∀ path ∈ options.target?,
        Disk.Agree disk.here (Disk.wayTo disk.here path) disk other := fun path target =>
      ⟨rfl, idle.here.symm, fun place member => idle.elsewhere path target place member
        (outside path target place member).1 (outside path target place member).2⟩
    have same := check_alike (fun plain => idle.result sound sound' named parsed inside lines
      (completes plain).1 (completes plain).2) agree
    refine ⟨⟨same.exit, same.out, same.err, same.usage, same.saved⟩, ?_⟩
    exact exit_of_completes sound below named parsed lines idle.oldTree idle.newTree
      fun plain => (completes plain).1

end Idle

theorem hasContent_iff {disk : Disk} {root : Path} {base : Place} (tree : disk.IsTree root base)
    {parts : List String} {bytes : List UInt8} :
    HasContent disk root parts bytes ↔ disk.file? (base ++ parts) = some bytes := by
  refine ⟨?_, fun content => ⟨base, tree, content⟩⟩
  rintro ⟨base', tree', content⟩
  exact tree.base_eq tree' ▸ content

def withFile (disk : Disk) (place : Place) (bytes : List UInt8) : Disk :=
  { disk with files := disk.files ++ [(place, bytes)] }

theorem hasContent_withFile {disk : Disk} {root : Path} {base place : Place}
    {added : List UInt8} (tree : disk.IsTree root base)
    (tree' : (withFile disk place added).IsTree root base) {parts : List String}
    (apart : base ++ parts ≠ place) (bytes : List UInt8) :
    HasContent disk root parts bytes ↔ HasContent (withFile disk place added) root parts bytes := by
  have unseen : List.lookup (base ++ parts) [(place, added)] = none := by
    rw [List.lookup_eq_none_iff]
    simpa using apart
  rw [hasContent_iff tree, hasContent_iff tree', Disk.file?, Disk.file?, withFile,
    List.lookup_append, unseen, Option.or_none]

theorem idle_withFile {disk : Disk} {glob : Glob} {ignore : List IgnoreLine} {old new : Path}
    {oldBase newBase place : Place} {added : List UInt8} {output? : Option Path}
    (oldTree : disk.IsTree old oldBase) (newTree : disk.IsTree new newBase)
    (oldTree' : (withFile disk place added).IsTree old oldBase)
    (newTree' : (withFile disk place added).IsTree new newBase)
    (oldApart : ∀ parts, glob.Selects ignore parts → oldBase ++ parts ≠ place)
    (newApart : ∀ parts, glob.Selects ignore parts → newBase ++ parts ≠ place)
    (elsewhere : ∀ path ∈ output?, ∀ way ∈ Disk.wayTo disk.here path,
      disk.at? way = (withFile disk place added).at? way) :
    IdleDifference disk (withFile disk place added) glob ignore old new output? where
  here := rfl
  oldTree := Disk.node?_directory.mpr ⟨_, oldTree⟩
  newTree := Disk.node?_directory.mpr ⟨_, newTree⟩
  oldTree' := Disk.node?_directory.mpr ⟨_, oldTree'⟩
  newTree' := Disk.node?_directory.mpr ⟨_, newTree'⟩
  oldFiles parts selected := hasContent_withFile oldTree oldTree' (oldApart parts selected)
  newFiles parts selected := hasContent_withFile newTree newTree' (newApart parts selected)
  elsewhere path target way member _ _ := elsewhere path target way member

theorem inside_iff {disk : Disk} {root : Path} {base place : Place} (tree : disk.IsTree root base) :
    Inside disk root place ↔ base <+: place ∧ place ≠ base := by
  refine ⟨?_, fun below => ⟨base, tree, below⟩⟩
  rintro ⟨base', tree', below⟩
  exact tree.base_eq tree' ▸ below

/-- A file is not selected when the last step of the glob refuses its name. -/
theorem apart_of_refused {glob : Glob} {ignore : List IgnoreLine} {front : List GlobStep}
    {step : GlobStep} (steps : glob.steps = front ++ [step]) (stays : step ≠ .descend)
    (base : Place) {file parts : List String} {name : String} (named : file.getLast? = some name)
    (refused : ¬ step.Asks name) (selected : glob.Selects ignore parts) :
    base ++ parts ≠ base ++ file := by
  intro same
  obtain rfl := List.append_cancel_left same
  have fits : Files.Fits ((.descend :: front) ++ [step]) parts := by
    rw [List.cons_append, ← steps]
    exact selected.asked.fits
  obtain ⟨other, last, asked⟩ := fits.last stays
  cases named.symm.trans last
  exact refused asked

/-- A note in one of the directories, next to an output outside. -/
theorem idle_note :
    let declared := "data class A(val a: Int)"
    let disk : Disk := ⟨[(["old", "A.kt"], declared.toUTF8.toList)], [["new"]], []⟩
    let other := withFile disk ["new", "note.txt"] [0xff]
    let arguments := ["old", "new", "--format", "json", "--output", "out/report.json"]
    let options : Options :=
      ⟨some "old", some "new", some .json, some "out/report.json", "*.kt", [], false⟩
    let glob : Glob := ⟨[.pattern [.anyText, .char '.', .char 'k', .char 't']], false⟩
    (disk.Sound ∧ other.Sound ∧ Options.read arguments = .ok options ∧
      Glob.read "*.kt" = .ok glob ∧ ".." ∉ (Path.ofString "*.kt").parts ∧
      IdleDifference disk other glob [] (.ofString "old") (.ofString "new") options.target?) ∧
    (∀ path ∈ options.target?, ∀ place ∈ Disk.wayTo disk.here path,
      ¬ Inside disk (.ofString "old") place ∧ ¬ Inside disk (.ofString "new") place) ∧
    SameOutcome options.target? (run disk arguments) (run other arguments) ∧
      ∀ e, (run disk arguments).exit ≠ .error (.discovery e) := by
  intro declared disk other arguments options glob
  have sound : disk.Sound := by decide
  have sound' : other.Sound := by decide
  have read : Options.read arguments = .ok options := by decide
  have parsed : Glob.read "*.kt" = .ok glob := by decide +kernel
  have inside : ".." ∉ (Path.ofString "*.kt").parts := by decide
  have oldTree : disk.IsTree (.ofString "old") ["old"] :=
    isTree_of_name (by decide) (by decide)
  have newTree : disk.IsTree (.ofString "new") ["new"] :=
    isTree_of_name (by decide) (by decide)
  have oldTree' : other.IsTree (.ofString "old") ["old"] :=
    isTree_of_name (by decide) (by decide)
  have newTree' : other.IsTree (.ofString "new") ["new"] :=
    isTree_of_name (by decide) (by decide)
  have target : options.target? = some (.ofString "out/report.json") := by decide
  have way : Disk.wayTo disk.here (.ofString "out/report.json") =
      [[], ["out"], ["out", "report.json"]] := by decide +kernel
  have idle : IdleDifference disk other glob [] (.ofString "old") (.ofString "new")
      options.target? := by
    refine idle_withFile oldTree newTree oldTree' newTree' (fun parts _ => by simp) ?_ ?_
    · intro parts
      let items : List GlobItem := [.anyText, .char '.', .char 'k', .char 't']
      have steps : glob.steps = [] ++ [.pattern items] := rfl
      have refused : ¬ GlobItem.fit items "note.txt" := by decide
      exact apart_of_refused steps nofun ["new"] rfl refused
    · rw [target]
      rintro path ⟨⟩ place member
      rw [way] at member
      revert place
      decide
  have outside : ∀ path ∈ options.target?, ∀ place ∈ Disk.wayTo disk.here path,
      ¬ Inside disk (.ofString "old") place ∧ ¬ Inside disk (.ofString "new") place := by
    rw [target]
    rintro path ⟨⟩ place member
    rw [way] at member
    rw [inside_iff oldTree, inside_iff newTree]
    revert place
    decide
  have found : (discover disk (.ofString "old") (.ofString "new") "*.kt" []).result =
      .ok [⟨"A.kt", some (.ofString "old/A.kt"), none⟩] := by decide +kernel
  have found' : (discover other (.ofString "old") (.ofString "new") "*.kt" []).result =
      .ok [⟨"A.kt", some (.ofString "old/A.kt"), none⟩] := by decide +kernel
  have below := staysBelow_of_read parsed inside
  exact ⟨⟨sound, sound', read, parsed, inside, idle⟩, outside,
    (idle_files_iff sound sound' read ⟨rfl, rfl⟩ parsed inside rfl idle outside).mpr fun _ =>
      ⟨(discovers_iff sound below parsed rfl).mp ⟨_, found⟩,
        (discovers_iff sound' below parsed rfl).mp ⟨_, found'⟩⟩⟩

def plainTrees : Disk :=
  ⟨[(["old", "A.kt"], [])], [["new"]], []⟩

def notedTrees : Disk :=
  withFile plainTrees ["old", "d", "note.txt"] []

def noteGlob (name : String) : Glob :=
  ⟨[.name "d", .name name], false⟩

def noteOptions (name : String) : Options :=
  ⟨some "old", some "new", some .text, none, Path.joined ["d", name], [], false⟩

section Note

variable {name : String}

theorem read_noteGlob (legal : IsComponent name) (plain : hasWildcard name.toList = false)
    (inside : name ≠ "..") : Glob.read (noteOptions name).pattern = .ok (noteGlob name) ∧
      ".." ∉ (Path.ofString (noteOptions name).pattern).parts := by
  have named : IsFileName "d" := by decide
  have components : ∀ other ∈ ["d", name], IsComponent other := by
    simpa using ⟨named.isComponent, legal⟩
  exact read_joined_below (by simp) components (by simpa using ⟨by decide, plain⟩)
    (by simpa using inside.symm)

theorem isTree_plainTrees : plainTrees.IsTree (.ofString "old") ["old"] ∧
    plainTrees.IsTree (.ofString "new") ["new"] :=
  ⟨isTree_of_name (by decide) (by decide), isTree_of_name (by decide) (by decide)⟩

theorem isTree_notedTrees : notedTrees.IsTree (.ofString "old") ["old"] ∧
    notedTrees.IsTree (.ofString "new") ["new"] :=
  ⟨isTree_of_name (by decide) (by decide), isTree_of_name (by decide) (by decide)⟩

theorem idle_notedTrees (other : name ≠ "note.txt") :
    IdleDifference plainTrees notedTrees (noteGlob name) [] (.ofString "old") (.ofString "new")
      none := by
  obtain ⟨oldTree, newTree⟩ := isTree_plainTrees
  obtain ⟨oldTree', newTree'⟩ := isTree_notedTrees
  refine idle_withFile oldTree newTree oldTree' newTree' (fun parts => ?_)
    (fun parts _ => by simp) nofun
  have steps : (noteGlob name).steps = [.name "d"] ++ [.name name] := rfl
  have refused : ¬ GlobStep.Asks (.name name) "note.txt" := fun same => other same.symm
  exact apart_of_refused steps nofun ["old"] rfl refused

theorem files_without_directory (name : String) {disk : Disk} {root : Path} {base : Place}
    (tree : disk.IsTree root base) (single : disk.directoriesBelow base = [[]])
    (missing : Glob.spotNamed disk root true ⟨[], base⟩ "d" = .ok [])
    (known : NameTooLong.check root = .ok ()) : (noteGlob name).files disk root = .ok [] := by
  have named : Glob.spots disk root false (noteGlob name).steps ⟨[], base⟩ = .ok [] := by
    rw [noteGlob, Glob.spots, List.isEmpty_cons, Bool.not_false, Bool.or_true, missing]
    rfl
  have found : Glob.spots disk root false (.descend :: (noteGlob name).steps)
      (Glob.spotAt base []) = .ok [] := by
    have start : root.append [] = root := by rw [Path.append, List.append_nil]
    simp only [Glob.spots, Glob.spotAt, Glob.Spot.below, List.append_nil, single, List.mapM_cons,
      List.mapM_nil, named, start, known]
    rfl
  rw [Glob.files_tree _ tree]
  refine bind_ok.mpr ⟨[], found, ?_⟩
  rw [List.map_nil, List.eraseDups_nil, List.mergeSort_nil]
  rfl

theorem passes_plainTrees (parsed : Glob.read (noteOptions name).pattern = .ok (noteGlob name)) :
    (check plainTrees (noteOptions name)).exit = .ok 0 := by
  obtain ⟨oldTree, newTree⟩ := isTree_plainTrees
  have olds := files_without_directory name oldTree (by decide +kernel)
    (by decide +kernel) (by decide +kernel)
  have news := files_without_directory name newTree (by decide +kernel)
    (by decide +kernel) (by decide +kernel)
  have found : (discover plainTrees (.ofString "old") (.ofString "new") (noteOptions name).pattern
      []).result = .ok [] := by
    have nothing {root : Path} (searched : (noteGlob name).files plainTrees root = .ok []) :
        (collect plainTrees (noteGlob name) [] root).result = .ok ⟨root, [], 0⟩ := by
      rw [collect, searched]
      rfl
    refine (discover_ok parsed rfl).mpr ⟨_, _, nothing olds, nothing news, ?_⟩
    rw [pairCollections, mergedPaths]
    simp [Collection.paths]
  have named : (noteOptions name).old? = some "old" ∧ (noteOptions name).new? = some "new" :=
    ⟨rfl, rfl⟩
  have built := buildReport_found named
    (Disk.node?_directory.mpr ⟨_, oldTree⟩) (Disk.node?_directory.mpr ⟨_, newTree⟩) found
  rw [exit_of_built (fun asked => asked.1 rfl) built]
  rfl

theorem fails_notedTrees (parsed : Glob.read (noteOptions name).pattern = .ok (noteGlob name))
    (inside : ".." ∉ (Path.ofString (noteOptions name).pattern).parts)
    (holdable : '\x00' ∉ name.toList) (long : Path.componentLimit < name.utf8ByteSize)
    (code : Nat) : (check notedTrees (noteOptions name)).exit ≠ .ok code := by
  intro ends
  obtain ⟨oldTree, newTree⟩ := isTree_notedTrees
  have sound : notedTrees.Sound := by decide
  have plain : ¬ (noteOptions name).Misdirected := fun asked => asked.1 rfl
  obtain ⟨completes, -⟩ := completes_of_result sound (staysBelow_of_read parsed inside)
    ⟨rfl, rfl⟩ parsed rfl (Disk.node?_directory.mpr ⟨_, oldTree⟩)
    (Disk.node?_directory.mpr ⟨_, newTree⟩)
    fun e failed => by cases ends.symm.trans (exit_of_fault plain failed)
  have short := completes.short sound ["d"] oldTree (by decide) holdable
  exact absurd long (Nat.not_lt.mpr short)

end Note

/-- The note is not asked for, and yet its directory is the one where a name is looked up that is
too long. -/
theorem note_is_not_idle :
    let name := letters 256
    let arguments := ["old", "new", "--pattern", (noteOptions name).pattern]
    (plainTrees.Sound ∧ notedTrees.Sound ∧ Options.read arguments = .ok (noteOptions name) ∧
      Glob.read (noteOptions name).pattern = .ok (noteGlob name) ∧
      ".." ∉ (Path.ofString (noteOptions name).pattern).parts ∧
      IdleDifference plainTrees notedTrees (noteGlob name) [] (.ofString "old") (.ofString "new")
        (noteOptions name).target?) ∧
    (run plainTrees arguments).exit = .ok 0 ∧
      ∀ code, (run notedTrees arguments).exit ≠ .ok code := by
  intro name arguments
  obtain ⟨parsed, inside⟩ := read_noteGlob (isComponent_letters (by decide)) (plain_letters 256)
    (ne_letters (c := '.') (by decide) (by decide))
  have idle := idle_notedTrees (ne_letters (n := 256) (c := '.') (by decide) (by decide))
  have noHyphen : '-' ∉ name.toList := not_mem_letters (by decide)
  have plain : '-' ∉ (noteOptions name).pattern.toList :=
    not_mem_joined (by decide) (by simpa using noHyphen)
  have read : Options.read arguments = .ok (noteOptions name) :=
    Options.read_pattern (by decide) (by decide) plain
  rw [(run_of_options read).1, (run_of_options read).1]
  refine ⟨⟨by decide, by decide, read, parsed, inside, idle⟩, passes_plainTrees parsed, ?_⟩
  exact fails_notedTrees parsed inside (holdable_letters 256) (by rw [size_letters]; decide)

end RecordCompat.Command
