import RecordCompat.Command.Check

/-! What the parts of a run come to, apart from what they report: when a part fails without
an answer of its own, and what it has found when it does not fail. Files that a search has
found are always there to be read, so only looking up the operands and the search itself can
fail so. -/
namespace RecordCompat

namespace Logged

variable {ε δ α β : Type}

@[simp] theorem result_pure (a : α) : (pure a : Logged ε α).result = .ok a := rfl

@[simp] theorem result_fail (e : ε) : (fail e : Logged ε α).result = .error e := rfl

@[simp] theorem result_tell (events : List Event) :
    (tell events : Logged ε Unit).result = .ok () := rfl

theorem result_bind (first : Logged ε α) (next : α → Logged ε β) :
    (first >>= next).result = first.result.bind fun a => (next a).result := by
  change (andThen first next).result = _
  unfold andThen
  cases first.result <;> rfl

theorem result_bind_ok {first : Logged ε α} {next : α → Logged ε β} {b : β} :
    (first >>= next).result = .ok b ↔ ∃ a, first.result = .ok a ∧ (next a).result = .ok b := by
  rw [result_bind]
  cases first.result <;> simp [Except.bind]

theorem result_bind_error {first : Logged ε α} {next : α → Logged ε β} {e : ε} :
    (first >>= next).result = .error e ↔
      first.result = .error e ∨ ∃ a, first.result = .ok a ∧ (next a).result = .error e := by
  rw [result_bind]
  cases first.result <;> simp [Except.bind]

theorem result_mapError_ok {f : ε → δ} {logged : Logged ε α} {a : α} :
    (logged.mapError f).result = .ok a ↔ logged.result = .ok a := by
  unfold mapError
  cases logged.result with
  | error e =>
    change Except.error (f e) = _ ↔ _
    simp
  | ok b =>
    change Except.ok b = _ ↔ _
    simp

theorem result_mapError_error {f : ε → δ} {logged : Logged ε α} {d : δ} :
    (logged.mapError f).result = .error d ↔ ∃ e, logged.result = .error e ∧ f e = d := by
  unfold mapError
  cases logged.result with
  | error e =>
    change Except.error (f e) = _ ↔ _
    simp
  | ok b =>
    change Except.ok b = _ ↔ _
    simp

end Logged

theorem bind_ok {ε α β : Type} {first : Except ε α} {next : α → Except ε β} {b : β} :
    first >>= next = .ok b ↔ ∃ a, first = .ok a ∧ next a = .ok b := by
  cases first <;> simp [bind, Except.bind]

/-- A list is read to its end unless one of its items cannot be read. -/
theorem mapM_error_iff {ε α β : Type} {read : α → Except ε β} {items : List α} :
    (∃ e, items.mapM read = .error e) ↔ ∃ a ∈ items, ∃ e, read a = .error e := by
  induction items with
  | nil => simp [pure, Except.pure]
  | cons a rest ih =>
    rw [List.mapM_cons]
    simp only [List.mem_cons, exists_eq_or_imp, ← ih]
    cases read a with
    | error e => simp [bind, Except.bind]
    | ok b =>
      cases rest.mapM read <;> simp [bind, Except.bind, pure, Except.pure]

theorem mapM_ok {ε α β : Type} {read : α → Except ε β} {items : List α} {results : List β}
    (all : items.mapM read = .ok results) :
    (∀ b ∈ results, ∃ a ∈ items, read a = .ok b) ∧
      ∀ a ∈ items, ∃ b ∈ results, read a = .ok b := by
  induction items generalizing results with
  | nil =>
    cases all
    exact ⟨nofun, nofun⟩
  | cons a rest ih =>
    rw [List.mapM_cons] at all
    obtain ⟨b, here, all⟩ := bind_ok.mp all
    obtain ⟨others, later, same⟩ := bind_ok.mp all
    cases same
    obtain ⟨origins, answers⟩ := ih later
    constructor
    · refine List.forall_mem_cons.mpr ⟨⟨a, List.mem_cons_self, here⟩, fun c member => ?_⟩
      obtain ⟨d, among, read⟩ := origins c member
      exact ⟨d, List.mem_cons_of_mem _ among, read⟩
    · refine List.forall_mem_cons.mpr ⟨⟨b, List.mem_cons_self, here⟩, fun c member => ?_⟩
      obtain ⟨d, among, read⟩ := answers c member
      exact ⟨d, List.mem_cons_of_mem _ among, read⟩

namespace Command

open Files

/-- An attempt ends without an answer. -/
def Faults {α : Type} (attempt : Attempt α) : Prop :=
  ∃ fault, attempt.result = .error (.fault fault)

section Faults

variable {α β : Type}

theorem faults_bind {first : Attempt α} {next : α → Attempt β} :
    Faults (first >>= next) ↔ Faults first ∨ ∃ a, first.result = .ok a ∧ Faults (next a) := by
  simp only [Faults, Logged.result_bind_error]
  constructor
  · rintro ⟨fault, here | ⟨a, before, later⟩⟩
    · exact .inl ⟨fault, here⟩
    · exact .inr ⟨a, before, fault, later⟩
  · rintro (⟨fault, here⟩ | ⟨a, before, fault, later⟩)
    · exact ⟨fault, .inl here⟩
    · exact ⟨fault, .inr ⟨a, before, later⟩⟩

@[simp] theorem not_faults_pure (a : α) : ¬ Faults (pure a) := by
  simp [Faults]

@[simp] theorem not_faults_tell (events : List Event) : ¬ Faults (.tell events) := by
  simp [Faults]

@[simp] theorem not_faults_input (e : InputError) : ¬ Faults (.fail (.input e) : Attempt α) := by
  simp [Faults]

@[simp] theorem faults_fault (fault : Fault) : Faults (.fail (.fault fault) : Attempt α) :=
  ⟨fault, rfl⟩

end Faults

def Unknowable (disk : Disk) (path : Path) : Prop :=
  ∃ e, disk.node? path = .error e

theorem faults_nodeAt {disk : Disk} {path : Path} :
    Faults (nodeAt disk path) ↔ Unknowable disk path := by
  unfold nodeAt Unknowable
  rcases disk.node? path with e | (none | node)
  · simp
  · simp
  · simp

theorem nodeAt_ok {disk : Disk} {path : Path} {node : Disk.Node} :
    (nodeAt disk path).result = .ok node ↔ disk.node? path = .ok (some node) := by
  unfold nodeAt
  rcases disk.node? path with e | (none | other)
  · simp
  · simp
  · simp

theorem not_faults_sourceText {disk : Disk} {side : Option Path}
    (there : ∀ p ∈ side, ∃ bytes, disk.node? p = .ok (some (.file bytes))) :
    ¬ Faults (sourceText disk side) := by
  cases side with
  | none => exact not_faults_pure ""
  | some path =>
    obtain ⟨bytes, file⟩ := there path rfl
    simp only [sourceText, file]
    cases Text.readText bytes with
    | ok text => exact not_faults_pure text
    | error e => exact not_faults_input _

theorem not_faults_extractFile {disk : Disk} {side : Option Path}
    (there : ∀ p ∈ side, ∃ bytes, disk.node? p = .ok (some (.file bytes))) :
    ¬ Faults (extractFile disk side) := by
  simp [extractFile, faults_bind, not_faults_sourceText there]

theorem extractFile_file {disk : Disk} {path : Path} {bytes : List UInt8} {text : String}
    (file : disk.node? path = .ok (some (.file bytes))) (read : Text.readText bytes = .ok text) :
    (extractFile disk (some path)).result = .ok (Source.extract text).records := by
  have source : sourceText disk (some path) = pure text := by simp only [sourceText, file, read]
  rw [extractFile, source]
  rfl

theorem not_faults_extractPairs {disk : Disk} {pairs : List SourcePair}
    (there : ∀ pair ∈ pairs, ∀ p, p ∈ pair.old? ∨ p ∈ pair.new? →
      ∃ bytes, disk.node? p = .ok (some (.file bytes))) :
    ¬ Faults (extractPairs disk pairs) := by
  induction pairs with
  | nil => simp [extractPairs]
  | cons pair rest ih =>
    obtain ⟨first, later⟩ := List.forall_mem_cons.mp there
    have olds := not_faults_extractFile fun p old => first p (.inl old)
    have news := not_faults_extractFile fun p new => first p (.inr new)
    simp [extractPairs, faults_bind, olds, news, ih later]

theorem readable_of_filesAmong {disk : Disk} {root : Path} {paths found : List (List String)}
    (looked : Glob.filesAmong disk root paths = .ok found) {parts : List String}
    (member : parts ∈ found) :
    ∃ bytes, disk.node? (root.append parts) = .ok (some (.file bytes)) := by
  obtain ⟨nodes, all, same⟩ := bind_ok.mp looked
  cases same
  obtain ⟨⟨path, node?⟩, kept, rfl⟩ := List.mem_map.mp member
  obtain ⟨inside, isFile⟩ := List.mem_filter.mp kept
  obtain ⟨path', -, read⟩ := (mapM_ok all).1 _ inside
  obtain ⟨_, looked, same⟩ := bind_ok.mp read
  cases same
  rcases node? with - | (bytes | -)
  · simp at isFile
  · exact ⟨bytes, looked⟩
  · simp [Disk.Node.isFile] at isFile

theorem readable_of_files {glob : Glob} {disk : Disk} {root : Path} {found : List (List String)}
    (searched : glob.files disk root = .ok found) {parts : List String} (member : parts ∈ found) :
    ∃ bytes, disk.node? (root.append parts) = .ok (some (.file bytes)) := by
  unfold Glob.files at searched
  obtain ⟨node?, -, searched⟩ := bind_ok.mp searched
  split at searched
  · obtain ⟨spots, -, looked⟩ := bind_ok.mp searched
    exact readable_of_filesAmong looked member
  · cases searched
    cases member

theorem collect_ok {disk : Disk} {glob : Glob} {ignore : List IgnoreLine} {root : Path}
    {c : Collection} (collected : (collect disk glob ignore root).result = .ok c) :
    c.root = root ∧ ∃ all, glob.files disk root = .ok all ∧ ∀ parts ∈ c.found, parts ∈ all := by
  unfold collect at collected
  cases searched : glob.files disk root with
  | error e => simp [searched] at collected
  | ok all =>
    simp only [searched, Except.ok.injEq] at collected
    subst collected
    exact ⟨rfl, all, rfl, fun parts member => (List.mem_filter.mp member).1⟩

theorem collect_error {disk : Disk} {glob : Glob} {ignore : List IgnoreLine} {root : Path} :
    (∃ e, (collect disk glob ignore root).result = .error e) ↔
      ∃ e, glob.files disk root = .error e := by
  unfold collect
  cases glob.files disk root <;> simp

theorem file_of_collect {disk : Disk} {glob : Glob} {ignore : List IgnoreLine} {root : Path}
    {c : Collection} (collected : (collect disk glob ignore root).result = .ok c) {path : String}
    {p : Path} (file : p ∈ c.file? path) : ∃ bytes, disk.node? p = .ok (some (.file bytes)) := by
  obtain ⟨rfl, all, searched, inside⟩ := collect_ok collected
  obtain ⟨parts, first, rfl⟩ := Option.map_eq_some_iff.mp file
  exact readable_of_files searched (inside parts (List.mem_of_find?_eq_some first))

/-- What two directories cannot be searched for: a line or a pattern that cannot be read, or
a path that is too long and stands in the way of the search. -/
inductive Unsearchable (disk : Disk) (old new : Path) (pattern : String)
    (exclude : List String) : Prop
  | line (line : String) (member : line ∈ exclude) (e : IgnoreError)
      (refused : IgnoreLine.read line = .error e)
  | absolute (slashed : (Path.ofString pattern).slashes ≠ 0)
  | stars (part : String) (member : part ∈ (Path.ofString pattern).parts) (other : part ≠ "**")
      (pair : hasStarPair part.toList)
  | tooLong (glob : Glob) (readable : Glob.read pattern = .ok glob) (root : Path)
      (searched : root = old ∨ root = new) (e : NameTooLong)
      (stopped : glob.files disk root = .error e)

theorem step_error_iff {part : String} :
    (∃ e, GlobStep.read part = .error e) ↔ part ≠ "**" ∧ hasStarPair part.toList := by
  unfold GlobStep.read
  by_cases whole : part = "**"
  · simp [whole]
  by_cases pair : hasStarPair part.toList
  · simp [whole, pair]
  · by_cases wild : hasWildcard part.toList <;> simp [whole, pair, wild]

theorem glob_error_iff {pattern : String} :
    (∃ e, Glob.read pattern = .error e) ↔
      (Path.ofString pattern).slashes ≠ 0 ∨
        ∃ part ∈ (Path.ofString pattern).parts, part ≠ "**" ∧ hasStarPair part.toList := by
  simp only [← step_error_iff, ← mapM_error_iff]
  unfold Glob.read
  by_cases slashed : (Path.ofString pattern).slashes = 0
  · cases parsed : (Path.ofString pattern).parts.mapM GlobStep.read <;>
      simp [slashed, parsed, bind, Except.bind, pure, Except.pure]
  · simp [slashed]

theorem ignore_error_iff {exclude : List String} :
    (∃ e, Ignore.read exclude = .error e) ↔
      ∃ line ∈ exclude, ∃ e, IgnoreLine.read line = .error e := by
  rw [← mapM_error_iff]
  unfold Ignore.read
  cases exclude.mapM IgnoreLine.read <;> simp [Except.map]

section Parsed

variable {disk : Disk} {old new : Path} {pattern : String} {exclude : List String}
  {ignore : List IgnoreLine} {glob : Glob}

theorem discover_error_of_parsed (lines : Ignore.read exclude = .ok ignore)
    (parsed : Glob.read pattern = .ok glob) :
    (∃ e, (discover disk old new pattern exclude).result = .error e) ↔
      ∃ root, (root = old ∨ root = new) ∧ ∃ e, glob.files disk root = .error e := by
  unfold discover
  simp only [lines, parsed, Logged.result_bind_error]
  constructor
  · rintro ⟨e, first | ⟨c, -, second | ⟨d, -, reported | ⟨-, -, done⟩⟩⟩⟩
    · exact ⟨old, .inl rfl, collect_error.mp ⟨e, first⟩⟩
    · exact ⟨new, .inr rfl, collect_error.mp ⟨e, second⟩⟩
    · cases reported
    · cases done
  · rintro ⟨root, searched, stopped⟩
    obtain ⟨e, failed⟩ := (@collect_error disk glob ignore root).mpr stopped
    -- Where both searches stop, the error is that of the old root.
    cases first : (collect disk glob ignore old).result with
    | error e' => exact ⟨e', .inl rfl⟩
    | ok c =>
      rcases searched with rfl | rfl
      · cases first.symm.trans failed
      · exact ⟨e, .inr ⟨c, rfl, .inl failed⟩⟩

theorem unsearchable_of_parsed (lines : Ignore.read exclude = .ok ignore)
    (parsed : Glob.read pattern = .ok glob) :
    Unsearchable disk old new pattern exclude ↔
      ∃ root, (root = old ∨ root = new) ∧ ∃ e, glob.files disk root = .error e := by
  have sound : ¬ ∃ line ∈ exclude, ∃ e, IgnoreLine.read line = .error e := by
    simp [← ignore_error_iff, lines]
  have relative : ¬ ∃ e, Glob.read pattern = .error e := by simp [parsed]
  constructor
  · intro cause
    cases cause with
    | line line member e refused => exact absurd ⟨line, member, e, refused⟩ sound
    | absolute slashed => exact absurd (glob_error_iff.mpr (.inl slashed)) relative
    | stars part member other pair =>
      exact absurd (glob_error_iff.mpr (.inr ⟨part, member, other, pair⟩)) relative
    | tooLong glob' readable root searched e stopped =>
      cases parsed.symm.trans readable
      exact ⟨root, searched, e, stopped⟩
  · rintro ⟨root, searched, e, stopped⟩
    exact .tooLong glob parsed root searched e stopped

theorem discover_error :
    (∃ e, (discover disk old new pattern exclude).result = .error e) ↔
      Unsearchable disk old new pattern exclude := by
  cases lines : Ignore.read exclude with
  | error e =>
    obtain ⟨line, member, e', refused⟩ := ignore_error_iff.mp ⟨e, lines⟩
    exact iff_of_true (by simp [discover, lines]) (.line line member e' refused)
  | ok ignore =>
    cases parsed : Glob.read pattern with
    | error e =>
      refine iff_of_true (by simp [discover, lines, parsed]) ?_
      rcases glob_error_iff.mp ⟨e, parsed⟩ with slashed | ⟨part, member, other, pair⟩
      · exact .absolute slashed
      · exact .stars part member other pair
    | ok glob =>
      exact (discover_error_of_parsed lines parsed).trans (unsearchable_of_parsed lines parsed).symm

end Parsed

theorem file_of_discover {disk : Disk} {old new : Path} {pattern : String} {exclude : List String}
    {pairs : List SourcePair} (found : (discover disk old new pattern exclude).result = .ok pairs) :
    ∀ pair ∈ pairs, ∀ p, p ∈ pair.old? ∨ p ∈ pair.new? →
      ∃ bytes, disk.node? p = .ok (some (.file bytes)) := by
  unfold discover at found
  split at found
  · cases found
  · cases found
  · obtain ⟨c, first, found⟩ := Logged.result_bind_ok.mp found
    obtain ⟨d, second, found⟩ := Logged.result_bind_ok.mp found
    obtain ⟨-, -, same⟩ := Logged.result_bind_ok.mp found
    cases same
    intro pair member p file
    obtain ⟨path, -, rfl⟩ := List.mem_map.mp member
    rcases file with file | file
    · exact file_of_collect first file
    · exact file_of_collect second file

theorem faults_discoverPairs {disk : Disk} {old new : Path} {options : Options} :
    Faults (discoverPairs disk old new options) ↔
      Unsearchable disk old new options.pattern options.exclude := by
  rw [← discover_error]
  simp only [Faults, discoverPairs, Logged.result_mapError_error, Function.comp,
    Failure.fault.injEq]
  constructor
  · rintro ⟨-, e, failed, -⟩
    exact ⟨e, failed⟩
  · rintro ⟨e, failed⟩
    exact ⟨_, e, failed, rfl⟩

end Command

end RecordCompat
