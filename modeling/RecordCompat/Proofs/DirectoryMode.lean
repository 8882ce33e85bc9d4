import RecordCompat.Proofs.DiscoveredPairs
import RecordCompat.Proofs.MovedRecords
import RecordCompat.Proofs.OutputForms

/-! Directories and files. Records of one file are told apart by their names alone, whatever the
path that is written beside them, so the comparison of two files runs the same with and
without their paths. Two trees that hold one file each, at the same path, are therefore
compared as these two files are, provided that they can be searched. -/
namespace RecordCompat

def FromFile (file : String) (records : List Record) : Prop :=
  ∀ r ∈ records, r.source = file

theorem firstBy_map {α β κ μ : Type} [DecidableEq κ] [DecidableEq μ] {f : α → β} {key : α → κ}
    {key' : β → μ} {items : List α}
    (same : ∀ a ∈ items, ∀ b ∈ items, key' (f a) = key' (f b) ↔ key a = key b) :
    firstBy key' (items.map f) = (firstBy key items).map f := by
  induction items with
  | nil => rfl
  | cons a rest ih =>
    have later := ih fun b member c member' =>
      same b (List.mem_cons_of_mem _ member) c (List.mem_cons_of_mem _ member')
    rw [List.map_cons, firstBy, firstBy, List.map_cons, later, List.filter_map]
    congr 2
    refine List.filter_congr fun b kept => ?_
    have member := List.mem_cons_of_mem a (mem_of_mem_firstBy kept)
    simp [same b member a List.mem_cons_self]

theorem takeFirst?_map {α β : Type} {f : α → β} {p : β → Bool} {q : α → Bool} {items : List α}
    (same : ∀ a ∈ items, p (f a) = q a) :
    takeFirst? p (items.map f) =
      (takeFirst? q items).map fun (found, others) => (f found, others.map f) := by
  induction items with
  | nil => rfl
  | cons a rest ih =>
    obtain ⟨here, later⟩ := List.forall_mem_cons.mp same
    rw [List.map_cons, takeFirst?, takeFirst?, here, ih later]
    split
    · rfl
    · cases takeFirst? q rest <;> rfl

section FromFile

variable {file : String} (other : String)

theorem firstBy_withSource {records : List Record} (home : FromFile file records) :
    firstBy Record.key (records.map (·.withSource other)) =
      (firstBy Record.key records).map (·.withSource other) := by
  refine firstBy_map fun a member b member' => ?_
  simp [Record.key, Record.withSource, home a member, home b member']

theorem claim?_withSource {old : Record} {free : List Record} (here : old.source = file)
    (home : FromFile file free) :
    claim? (old.withSource other) (free.map (·.withSource other)) =
      (claim? old free).map fun (new, left) =>
        (new.withSource other, left.map (·.withSource other)) := by
  unfold claim?
  rw [takeFirst?_map (q := fun new => new.name = old.name ∧ new.source = old.source)
      fun r member => by simp [Record.withSource, here, home r member],
    takeFirst?_map (q := fun new => new.name = old.name) fun r _ => rfl]
  cases takeFirst? (fun new => new.name = old.name ∧ new.source = old.source) free <;> rfl

def Outcome.withSource : Outcome → Outcome
  | .compared old new => .compared (old.withSource other) (new.withSource other)
  | .removed old => .removed (old.withSource other)
  | .added new => .added (new.withSource other)

theorem pairRecords_withSource {old free : List Record} (olds : FromFile file old)
    (frees : FromFile file free) :
    pairRecords (old.map (·.withSource other)) (free.map (·.withSource other)) =
      (pairRecords old free).map (Outcome.withSource other) := by
  induction old generalizing free with
  | nil =>
    rw [List.map_nil, pairRecords, pairRecords, List.map_map, List.map_map]
    rfl
  | cons r rest ih =>
    obtain ⟨here, later⟩ := List.forall_mem_cons.mp olds
    rw [List.map_cons, pairRecords, pairRecords, claim?_withSource other here frees]
    cases taken : claim? r free with
    | none => exact congrArg _ (ih later frees)
    | some found =>
      obtain ⟨new, left⟩ := found
      have remain : left.Sublist free := by
        have sublist := freeAfter_sublist [r] free
        rwa [freeAfter, freeAfter, taken] at sublist
      exact congrArg _ (ih later fun s member => frees s (remain.subset member))

theorem verdict_withSource (o : Outcome) :
    (o.withSource other).comparison.verdict = o.comparison.verdict := by
  cases o <;> rfl

def SourceComparison.withSource (s : SourceComparison) (label : String) : SourceComparison :=
  ⟨label, s.old.map (·.withSource other), s.new.map (·.withSource other)⟩

theorem SourceComparison.verdicts_withSource {s : SourceComparison} (label : String)
    (olds : FromFile file s.old) (news : FromFile file s.new) :
    (s.withSource other label).comparisons.map Comparison.verdict =
      s.comparisons.map Comparison.verdict := by
  have home {records : List Record} (all : FromFile file records) :
      FromFile file (firstBy Record.key records) :=
    fun r member => all r (mem_of_mem_firstBy member)
  simp only [comparisons, outcomes, withSource]
  rw [firstBy_withSource other olds, firstBy_withSource other news,
    pairRecords_withSource other (home olds) (home news)]
  simp only [List.map_map, Function.comp_def, verdict_withSource]

end FromFile

theorem SourceComparison.isBreaking_eq (s : SourceComparison) :
    s.isBreaking = (s.comparisons.map Comparison.verdict).any fun v =>
      v.2.2.any Finding.isBreaking := by
  rw [List.any_map]
  rfl

theorem fromFile_extract (text : String) : FromFile "" (Source.extract text).records := by
  intro r member
  obtain ⟨d, declared, record⟩ := List.mem_filterMap.mp member
  obtain ⟨h, found, rfl⟩ := List.mem_map.mp declared
  exact (Source.Declaration.wellFormed found record).source

namespace Command

open Files Source

section Directories

variable {disk : Disk} {options : Options} {old new : String}

theorem buildReport_directories (named : options.old? = some old ∧ options.new? = some new)
    (olds : disk.node? (.ofString old) = .ok (some .directory))
    (news : disk.node? (.ofString new) = .ok (some .directory)) :
    (buildReport disk options).result =
      ((discover disk (.ofString old) (.ofString new) options.pattern
        options.exclude).result.mapError (.fault ∘ .discovery)).bind fun pairs =>
        (extractPairs disk pairs).result.map fun records =>
          ⟨[⟨(Path.ofString old).toString ++ " -> " ++ (Path.ofString new).toString,
            records.1, records.2⟩]⟩ := by
  rw [buildReport_result, gather_named named, gatherFrom_directories options olds news]
  cases (discover disk (.ofString old) (.ofString new) options.pattern options.exclude).result with
  | error e => rfl
  | ok pairs =>
    change Except.map _ (Except.map _ (extractPairs disk pairs).result) =
      Except.map _ (extractPairs disk pairs).result
    cases (extractPairs disk pairs).result <;> rfl

theorem buildReport_found (named : options.old? = some old ∧ options.new? = some new)
    (olds : disk.node? (.ofString old) = .ok (some .directory))
    (news : disk.node? (.ofString new) = .ok (some .directory)) {pairs : List SourcePair}
    (found : (discover disk (.ofString old) (.ofString new) options.pattern
      options.exclude).result = .ok pairs) :
    (buildReport disk options).result = (extractPairs disk pairs).result.map fun records =>
      ⟨[⟨(Path.ofString old).toString ++ " -> " ++ (Path.ofString new).toString,
        records.1, records.2⟩]⟩ := by
  rw [buildReport_directories named olds news, found]
  rfl

theorem buildReport_lost (named : options.old? = some old ∧ options.new? = some new)
    (olds : disk.node? (.ofString old) = .ok (some .directory))
    (news : disk.node? (.ofString new) = .ok (some .directory)) {e : DiscoveryError}
    (lost : (discover disk (.ofString old) (.ofString new) options.pattern
      options.exclude).result = .error e) :
    (buildReport disk options).result = .error (.fault (.discovery e)) := by
  rw [buildReport_directories named olds news, lost]
  rfl

/-- A check of two directories that does not fail on its search has come to the end of it. -/
theorem completes_of_result {glob : Glob} {ignore : List IgnoreLine} (sound : disk.Sound)
    (below : glob.StaysBelow) (named : options.old? = some old ∧ options.new? = some new)
    (parsed : Glob.read options.pattern = .ok glob)
    (lines : Ignore.read options.exclude = .ok ignore)
    (olds : disk.node? (.ofString old) = .ok (some .directory))
    (news : disk.node? (.ofString new) = .ok (some .directory))
    (ends : ∀ e, (buildReport disk options).result ≠ .error (.fault (.discovery e))) :
    glob.Completes disk (.ofString old) ∧ glob.Completes disk (.ofString new) := by
  rw [← discovers_iff sound below parsed lines]
  cases searched : (discover disk (.ofString old) (.ofString new) options.pattern
      options.exclude).result with
  | ok pairs => exact ⟨pairs, rfl⟩
  | error e => exact absurd (buildReport_lost named olds news searched) (ends e)

end Directories

theorem extractPairs_single {disk : Disk} {path : String} {old new : Path}
    {oldRecords newRecords : List Record}
    (olds : (extractFile disk (some old)).result = .ok oldRecords)
    (news : (extractFile disk (some new)).result = .ok newRecords) :
    (extractPairs disk [⟨path, some old, some new⟩]).result =
      .ok (oldRecords.map (·.withSource path), newRecords.map (·.withSource path)) := by
  refine Logged.result_bind_ok.mpr ⟨_, olds, ?_⟩
  refine Logged.result_bind_ok.mpr ⟨_, news, ?_⟩
  refine Logged.result_bind_ok.mpr ⟨_, rfl, ?_⟩
  simp

theorem writeError_report (disk : Disk) (options : Options) (report report' : Report) :
    writeError? disk options report = writeError? disk options report' := by
  unfold writeError?
  cases options.target? with
  | none => rfl
  | some path => exact disk.write_error path _ _

def Options.between (options : Options) (old new : String) : Options :=
  { options with old? := some old, new? := some new }

/-- Runs that differ in their operands alone end alike on reports with the same verdict. -/
theorem exit_between {disk : Disk} {options : Options} {old new old' new' : String}
    {report report' : Report}
    (built : (buildReport disk (options.between old new)).result = .ok report)
    (built' : (buildReport disk (options.between old' new')).result = .ok report')
    (verdict : report.isBreaking = report'.isBreaking) :
    (check disk (options.between old new)).exit =
      (check disk (options.between old' new')).exit := by
  by_cases asked : (options.between old new).Misdirected
  · have asked' : (options.between old' new').Misdirected := asked
    rw [exit_of_misdirected disk asked, exit_of_misdirected disk asked']
  · have plain : ¬ (options.between old' new').Misdirected := asked
    have errors : writeError? disk (options.between old new) report =
        writeError? disk (options.between old' new') report' :=
      writeError_report disk options report report'
    have same : exitOf (writeError? disk (options.between old' new') report') report =
        exitOf (writeError? disk (options.between old' new') report') report' := by
      unfold exitOf exitCode
      rw [verdict]
    rw [exit_of_built asked built, exit_of_built plain built', errors, same]

/-- The tree below a root holds one file. -/
def HoldsOnly (disk : Disk) (root : Path) (parts : List String) (bytes : List UInt8) : Prop :=
  ∃ base, disk.IsTree root base ∧ disk.file? (base ++ parts) = some bytes ∧
    ∀ other, disk.isFile (base ++ other) = true → other = parts

section HoldsOnly

variable {disk : Disk} {glob : Glob} {ignore : List IgnoreLine} {root old new : Path}
  {parts : List String} {bytes oldBytes newBytes : List UInt8}

theorem HoldsOnly.hasFile_iff (only : HoldsOnly disk root parts bytes) {other : List String} :
    disk.HasFile root other ↔ other = parts := by
  obtain ⟨base, tree, content, unique⟩ := only
  constructor
  · rintro ⟨base', tree', file⟩
    exact unique other (tree.base_eq tree' ▸ file)
  · rintro rfl
    exact ⟨base, tree, Disk.isFile_of_file? content⟩

theorem HoldsOnly.of_files (base : Place) (tree : disk.IsTree root base)
    (content : disk.file? (base ++ parts) = some bytes)
    (alone : ∀ file ∈ disk.files, base <+: file.1 → file.1 = base ++ parts) :
    HoldsOnly disk root parts bytes := by
  refine ⟨base, tree, content, fun other there => ?_⟩
  obtain ⟨file, member, place⟩ := Disk.isFile_iff.mp there
  have same := alone file member (place ▸ List.prefix_append base other)
  exact List.append_cancel_left (place.symm.trans same)

theorem HoldsOnly.node?_root (only : HoldsOnly disk root parts bytes) :
    disk.node? root = .ok (some .directory) := by
  obtain ⟨base, tree, -⟩ := only
  exact Disk.node?_directory.mpr ⟨base, tree⟩

theorem discovered_holdsOnly (olds : HoldsOnly disk old parts oldBytes)
    (news : HoldsOnly disk new parts newBytes) (selected : glob.Selects ignore parts) :
    Discovered disk glob ignore old new
      [⟨Path.joined parts, some (old.append parts), some (new.append parts)⟩] := by
  have oldThere : disk.HasFile old parts := olds.hasFile_iff.mpr rfl
  have newThere : disk.HasFile new parts := news.hasFile_iff.mpr rfl
  constructor
  case increasing => exact List.pairwise_singleton _ _
  case mem_iff =>
    intro path
    rw [List.map_singleton, List.mem_singleton]
    constructor
    · rintro rfl
      exact ⟨parts, rfl, selected, .inl oldThere⟩
    · rintro ⟨other, rfl, -, there⟩
      rw [olds.hasFile_iff, news.hasFile_iff, or_self] at there
      rw [there]
  case sides =>
    intro pair member
    obtain rfl := List.mem_singleton.mp member
    exact ⟨parts, rfl, selected, .inl ⟨oldThere, rfl⟩, .inl ⟨newThere, rfl⟩, .inl rfl⟩

/-- The report on two trees that hold one file each is one on the two files, under their path. -/
theorem buildReport_holdsOnly {options : Options} {old new oldText newText : String}
    (sound : disk.Sound) (below : glob.StaysBelow)
    (named : options.old? = some old ∧ options.new? = some new)
    (parsed : Glob.read options.pattern = .ok glob)
    (lines : Ignore.read options.exclude = .ok ignore) (selected : glob.Selects ignore parts)
    (oldTree : HoldsOnly disk (.ofString old) parts oldBytes)
    (newTree : HoldsOnly disk (.ofString new) parts newBytes)
    (oldRead : Text.readText oldBytes = .ok oldText)
    (newRead : Text.readText newBytes = .ok newText)
    (oldCompletes : glob.Completes disk (.ofString old))
    (newCompletes : glob.Completes disk (.ofString new)) :
    (buildReport disk options).result =
      .ok ⟨[⟨(Path.ofString old).toString ++ " -> " ++ (Path.ofString new).toString,
        (extract oldText).records.map (·.withSource (Path.joined parts)),
        (extract newText).records.map (·.withSource (Path.joined parts))⟩]⟩ := by
  -- Some pairs are found. What is selected determines them, so they are the one pair of the files.
  obtain ⟨pairs, found⟩ :=
    (discovers_iff sound below parsed lines).mpr ⟨oldCompletes, newCompletes⟩
  obtain rfl := (discovered_of_ok sound below parsed lines found).unique sound sound
    (discovered_holdsOnly oldTree newTree selected) (fun _ _ => Iff.rfl) fun _ _ => Iff.rfl
  rw [buildReport_found named oldTree.node?_root newTree.node?_root found]
  obtain ⟨oldBase, oldIsTree, oldContent, -⟩ := oldTree
  obtain ⟨newBase, newIsTree, newContent, -⟩ := newTree
  have oldFound := oldCompletes.node?_file sound oldIsTree selected.asked oldContent
  have newFound := newCompletes.node?_file sound newIsTree selected.asked newContent
  rw [extractPairs_single (extractFile_file oldFound oldRead) (extractFile_file newFound newRead)]
  rfl

end HoldsOnly

/-- Two trees that hold one file each, at the same path, are compared as the two files are, with the
same exit, the same classes and the same findings, exactly where both trees can be searched. -/
theorem directories_agree_with_files_iff {disk : Disk} (options : Options) {glob : Glob}
    {ignore : List IgnoreLine} {old new oldFile newFile : String} {parts : List String}
    {oldBytes newBytes : List UInt8} {oldText newText : String}
    {asDirectories asFiles : List String} (sound : disk.Sound)
    (parsed : Glob.read options.pattern = .ok glob)
    (inside : ".." ∉ (Path.ofString options.pattern).parts)
    (lines : Ignore.read options.exclude = .ok ignore) (selected : glob.Selects ignore parts)
    (oldTree : HoldsOnly disk (.ofString old) parts oldBytes)
    (newTree : HoldsOnly disk (.ofString new) parts newBytes)
    (oldNode : disk.node? (.ofString oldFile) = .ok (some (.file oldBytes)))
    (newNode : disk.node? (.ofString newFile) = .ok (some (.file newBytes)))
    (oldRead : Text.readText oldBytes = .ok oldText)
    (newRead : Text.readText newBytes = .ok newText)
    (directories : Options.read asDirectories = .ok (options.between old new))
    (files : Options.read asFiles = .ok (options.between oldFile newFile)) :
    (∃ whole single, (buildReport disk (options.between old new)).result = .ok whole ∧
      (buildReport disk (options.between oldFile newFile)).result = .ok single ∧
      whole.comparisons.map Comparison.verdict = single.comparisons.map Comparison.verdict ∧
      (run disk asDirectories).exit = (run disk asFiles).exit) ↔
    glob.Completes disk (.ofString old) ∧ glob.Completes disk (.ofString new) := by
  have below := staysBelow_of_read parsed inside
  have named : (options.between old new).old? = some old ∧
      (options.between old new).new? = some new := ⟨rfl, rfl⟩
  constructor
  · rintro ⟨whole, -, built, -⟩
    refine completes_of_result sound below named parsed lines oldTree.node?_root
      newTree.node?_root fun e failed => ?_
    cases built.symm.trans failed
  · rintro ⟨oldCompletes, newCompletes⟩
    have whole := buildReport_holdsOnly sound below named parsed lines selected oldTree newTree
      oldRead newRead oldCompletes newCompletes
    have named' : (options.between oldFile newFile).old? = some oldFile ∧
        (options.between oldFile newFile).new? = some newFile := ⟨rfl, rfl⟩
    have single := buildReport_files named'.1 named'.2 oldNode newNode oldRead newRead
    let compared : SourceComparison :=
      ⟨(Path.ofString newFile).name, (extract oldText).records, (extract newText).records⟩
    have verdicts := compared.verdicts_withSource (Path.joined parts)
      ((Path.ofString old).toString ++ " -> " ++ (Path.ofString new).toString)
      (fromFile_extract oldText) (fromFile_extract newText)
    refine ⟨_, _, whole, single, ?_, ?_⟩
    · rw [Report.comparisons, Report.comparisons, List.flatMap_singleton, List.flatMap_singleton]
      exact verdicts
    · rw [(run_of_options directories).1, (run_of_options files).1]
      refine exit_between whole single ?_
      simp only [Report.isBreaking, List.any_cons, List.any_nil, Bool.or_false]
      rw [compared.isBreaking_eq, ← verdicts, ← SourceComparison.isBreaking_eq]
      rfl

/-- A class that is declared twice in its file. -/
theorem directories_agree_with_files_on_repeated_class :
    let declared := "data class A(val a: Int) data class A(val b: Int)"
    let disk : Disk :=
      ⟨[(["old", "A.kt"], declared.toUTF8.toList), (["new", "A.kt"], [])], [], []⟩
    let glob : Glob := ⟨[.pattern [.anyText, .char '.', .char 'k', .char 't']], false⟩
    let options : Options := ⟨none, none, some .text, none, "*.kt", [], false⟩
    let directories := options.between "old" "new"
    let files := options.between "old/A.kt" "new/A.kt"
    (disk.Sound ∧ Glob.read "*.kt" = .ok glob ∧ ".." ∉ (Path.ofString "*.kt").parts ∧
      glob.Selects [] ["A.kt"] ∧
      HoldsOnly disk (.ofString "old") ["A.kt"] declared.toUTF8.toList ∧
      HoldsOnly disk (.ofString "new") ["A.kt"] [] ∧
      Options.read ["old", "new"] = .ok directories ∧
      Options.read ["old/A.kt", "new/A.kt"] = .ok files) ∧
    ∃ whole single, (buildReport disk directories).result = .ok whole ∧
      (buildReport disk files).result = .ok single ∧
      whole.comparisons.map Comparison.verdict = single.comparisons.map Comparison.verdict ∧
      (run disk ["old", "new"]).exit = (run disk ["old/A.kt", "new/A.kt"]).exit := by
  intro declared disk glob options directories files
  have sound : disk.Sound := by decide
  have parsed : Glob.read "*.kt" = .ok glob := by decide +kernel
  have inside : ".." ∉ (Path.ofString "*.kt").parts := by decide
  have selected : glob.Selects [] ["A.kt"] :=
    ⟨⟨rfl, rfl, .descend [] (.pattern _ (by decide) .done)⟩, rfl⟩
  have oldTree : HoldsOnly disk (.ofString "old") ["A.kt"] declared.toUTF8.toList :=
    .of_files ["old"] (isTree_of_name (by decide) (by decide)) rfl (by decide)
  have newTree : HoldsOnly disk (.ofString "new") ["A.kt"] [] :=
    .of_files ["new"] (isTree_of_name (by decide) (by decide)) rfl (by decide)
  have oldRead : Text.readText declared.toUTF8.toList = .ok declared := by decide +kernel
  have newRead : Text.readText [] = .ok "" := rfl
  have read : Options.read ["old", "new"] = .ok directories := by decide
  have read' : Options.read ["old/A.kt", "new/A.kt"] = .ok files := by decide
  have found : (discover disk (.ofString "old") (.ofString "new") "*.kt" []).result =
      .ok [⟨"A.kt", some (.ofString "old/A.kt"), some (.ofString "new/A.kt")⟩] := by
    decide +kernel
  have completes := (discovers_iff sound (staysBelow_of_read parsed inside) parsed rfl).mp
    ⟨_, found⟩
  exact ⟨⟨sound, parsed, inside, selected, oldTree, newTree, read, read'⟩,
    (directories_agree_with_files_iff options sound parsed inside rfl selected oldTree
      newTree rfl rfl oldRead newRead read read').mpr completes⟩

def deepPath (name : String) : List String :=
  List.replicate 15 name ++ ["A.kt"]

def deepTrees (name : String) : Disk :=
  ⟨[("old" :: deepPath name, []), ("new" :: deepPath name, [])], [], []⟩

def deepGlob (name : String) : Glob :=
  ⟨[.name name, .name "A.kt"], false⟩

def deepOptions (name : String) : Options :=
  ⟨none, none, some .text, none, Path.joined [name, "A.kt"], [], false⟩

section Deep

variable {name root : String}

theorem forall_mem_deepPath {property : String → Prop} (each : property name)
    (last : property "A.kt") : ∀ other ∈ deepPath name, property other := by
  intro other member
  rcases List.mem_append.mp member with above | file
  · exact List.eq_of_mem_replicate above ▸ each
  · exact List.mem_singleton.mp file ▸ last

theorem deepPath_legal (legal : IsFileName name) : ∀ other ∈ deepPath name, IsFileName other :=
  forall_mem_deepPath legal (by decide)

theorem deepTrees_sound (legal : IsFileName name) : (deepTrees name).Sound := by
  have inside := deepPath_legal legal
  refine ⟨List.forall_mem_nil _, ?_, ?_, .inl rfl⟩
  · simpa [deepTrees] using
      ⟨⟨show IsFileName "old" by decide, inside⟩, show IsFileName "new" by decide, inside⟩
  · intro file member
    rw [← Bool.not_eq_true, Disk.isDirectory_iff]
    rcases List.mem_pair.mp member with rfl | rfl <;> simp [deepTrees]

theorem deepGlob_selects (name : String) : (deepGlob name).Selects [] (deepPath name) := by
  have path : deepPath name = List.replicate 14 name ++ [name, "A.kt"] := by
    rw [deepPath, List.replicate_succ', List.append_assoc]
    rfl
  refine ⟨⟨rfl, rfl, ?_⟩, ?_⟩
  · rw [path]
    exact .descend _ (.name name (.name "A.kt" .done))
  · unfold Ignore.excludes
    dsimp only
    split <;> rfl

theorem read_deepGlob (legal : IsFileName name) (plain : hasWildcard name.toList = false) :
    Glob.read (deepOptions name).pattern = .ok (deepGlob name) ∧
      ".." ∉ (Path.ofString (deepOptions name).pattern).parts := by
  have ending : IsFileName "A.kt" := by decide
  have components : ∀ other ∈ [name, "A.kt"], IsComponent other := by
    simpa using ⟨legal.isComponent, ending.isComponent⟩
  exact read_joined_below (by simp) components (by simpa using ⟨plain, by decide⟩)
    (by simpa using legal.notAbove.symm)

theorem deepTrees_holdsOnly (name : String) (either : root = "old" ∨ root = "new") :
    HoldsOnly (deepTrees name) (.ofString root) (deepPath name) [] := by
  have content : (deepTrees name).file? ([root] ++ deepPath name) = some [] := by
    rcases either with rfl | rfl <;> simp [deepTrees, Disk.file?, List.lookup_cons]
  have there : (deepTrees name).isDirectory ([root] ++ []) = true := by
    rw [List.append_nil]
    have some : deepPath name ≠ [] := by simp [deepPath]
    exact Disk.isDirectory_of_isFile_append some (Disk.isFile_of_file? content)
  have legal : IsFileName root := by rcases either with rfl | rfl <;> decide
  refine .of_files _ (isTree_of_name legal there) content ?_
  rcases either with rfl | rfl <;> simp [deepTrees]

theorem deepRoot_append (either : root = "old" ∨ root = "new") (parts : List String) :
    (Path.ofString root).append parts = ⟨0, root :: parts⟩ := by
  have legal : IsFileName root := by rcases either with rfl | rfl <;> decide
  rw [ofString_name legal.isComponent]
  rfl

theorem deepPath_size (either : root = "old" ∨ root = "new") (rest : List String) :
    spelledSize (root :: (List.replicate 15 name ++ rest)) =
      4 + 15 * (name.utf8ByteSize + 1) + spelledSize rest := by
  have first : root.utf8ByteSize = 3 := by rcases either with rfl | rfl <;> decide
  rw [spelledSize, spelledSize_append, spelledSize_replicate, first]
  omega

theorem noHyphen_deepPattern (noHyphen : '-' ∉ name.toList) :
    '-' ∉ (deepOptions name).pattern.toList :=
  not_mem_joined (by decide) (by simpa using noHyphen)

theorem noHyphen_deepPath (noHyphen : '-' ∉ name.toList) (either : root = "old" ∨ root = "new") :
    '-' ∉ (Path.joined (root :: deepPath name)).toList := by
  have above : '-' ∉ root.toList := by rcases either with rfl | rfl <;> decide
  exact not_mem_joined (by decide)
    (List.forall_mem_cons.mpr ⟨above, forall_mem_deepPath noHyphen (by decide)⟩)

theorem node?_deepPath (legal : IsFileName name) (either : root = "old" ∨ root = "new") :
    (deepTrees name).node? (.ofString (Path.joined (root :: deepPath name))) =
      .ok (some (.file [])) := by
  have above : IsFileName root := by rcases either with rfl | rfl <;> decide
  have components : ∀ other ∈ root :: deepPath name, IsComponent other :=
    List.forall_mem_cons.mpr
      ⟨above.isComponent, fun other member => (deepPath_legal legal other member).isComponent⟩
  obtain ⟨base, tree, content, -⟩ := deepTrees_holdsOnly name either
  have there : (deepTrees name).Holds (base ++ deepPath name) :=
    .inr (Disk.isFile_of_file? content)
  rw [ofString_joined (by simp) components, ← deepRoot_append either]
  refine Glob.node?_file (deepTrees_sound legal) tree content ?_
  rw [Glob.unknowable_iff (deepTrees_sound legal) tree there, deepRoot_append either,
    isLong_relative (by simp), deepPath, deepPath_size either]
  have short := legal.short
  have last : spelledSize ["A.kt"] = 5 := by decide
  simp only [Path.componentLimit, Path.lengthLimit] at short ⊢
  omega

theorem deepGlob_incomplete (legal : IsFileName name) (long : name.utf8ByteSize = 255)
    (either : root = "old" ∨ root = "new") :
    ¬ (deepGlob name).Completes (deepTrees name) (.ofString root) := by
  intro completes
  obtain ⟨base, tree, content, -⟩ := deepTrees_holdsOnly name either
  have there : (deepTrees name).isDirectory (base ++ List.replicate 15 name) = true := by
    rw [deepPath, ← List.append_assoc] at content
    exact Disk.isDirectory_of_isFile_append (List.cons_ne_nil "A.kt" [])
      (Disk.isFile_of_file? content)
  refine completes.way base tree (List.replicate 15 name ++ [name])
    (.inl (.behindDirectories there .lookedUp)) (Glob.unknowable_of_isLong ?_ ?_)
  · refine tree.append_holdable fun other member => ?_
    rw [← List.replicate_succ'] at member
    exact List.eq_of_mem_replicate member ▸ legal.noNul
  · rw [deepRoot_append either, isLong_relative (by simp), deepPath_size either]
    simp only [Path.lengthLimit, spelledSize, long]
    omega

/-- The two files are compared, and the two trees are not: the search looks up a path that is longer
than that of the file. -/
theorem no_agreement_on_deep_file :
    let name := letters 255
    let disk := deepTrees name
    let options := deepOptions name
    let oldFile := Path.joined ("old" :: deepPath name)
    let newFile := Path.joined ("new" :: deepPath name)
    let directories := ["old", "new", "--pattern", options.pattern]
    let files := [oldFile, newFile, "--pattern", options.pattern]
    (Glob.read options.pattern = .ok (deepGlob name) ∧
      ".." ∉ (Path.ofString options.pattern).parts ∧ disk.Sound ∧
      (deepGlob name).Selects [] (deepPath name) ∧
      HoldsOnly disk (.ofString "old") (deepPath name) [] ∧
      HoldsOnly disk (.ofString "new") (deepPath name) [] ∧
      Options.read directories = .ok (options.between "old" "new") ∧
      Options.read files = .ok (options.between oldFile newFile)) ∧
    (run disk files).exit = .ok 0 ∧ ∀ code, (run disk directories).exit ≠ .ok code := by
  intro name disk options oldFile newFile directories files
  have legal : IsFileName name := isFileName_letters (by decide) (by decide)
  obtain ⟨parsed, inside⟩ := read_deepGlob legal (plain_letters 255)
  have sound := deepTrees_sound legal
  have oldTree := deepTrees_holdsOnly name (.inl rfl)
  have newTree := deepTrees_holdsOnly name (.inr rfl)
  have noHyphen : '-' ∉ name.toList := not_mem_letters (by decide)
  have plain := noHyphen_deepPattern noHyphen
  have read : Options.read directories = .ok (options.between "old" "new") :=
    Options.read_pattern (by decide) (by decide) plain
  have read' : Options.read files = .ok (options.between oldFile newFile) :=
    Options.read_pattern (noHyphen_deepPath noHyphen (.inl rfl))
      (noHyphen_deepPath noHyphen (.inr rfl)) plain
  refine ⟨⟨parsed, inside, sound, deepGlob_selects name, oldTree, newTree, read, read'⟩, ?_, ?_⟩
  · have nothing : (extract "").records = [] := List.isEmpty_iff.mp (by decide +kernel)
    have named : (options.between oldFile newFile).old? = some oldFile ∧
        (options.between oldFile newFile).new? = some newFile := ⟨rfl, rfl⟩
    have empty : Text.readText [] = .ok "" := rfl
    have built := buildReport_files named.1 named.2 (node?_deepPath legal (.inl rfl))
      (node?_deepPath legal (.inr rfl)) empty empty
    rw [nothing] at built
    rw [(run_of_options read').1, exit_of_built (fun asked => asked.1 rfl) built]
    rfl
  · obtain ⟨e, stopped⟩ := (Glob.files_error_iff sound (staysBelow_of_read parsed inside)).mpr
      (deepGlob_incomplete legal (size_letters 255) (.inl rfl))
    obtain ⟨fault, failed⟩ : Faults (buildReport disk (options.between "old" "new")) :=
      faults_buildReport.mpr (.unsearchable "old" "new" ⟨rfl, rfl⟩ oldTree.node?_root
        newTree.node?_root (.tooLong (deepGlob name) parsed _ (.inl rfl) e stopped))
    intro code
    rw [(run_of_options read).1, exit_of_fault (fun asked => asked.1 rfl) failed]
    exact nofun

end Deep

end Command

end RecordCompat
