import RecordCompat.Proofs.GlobSearch
import RecordCompat.Proofs.SpelledPaths
import RecordCompat.Proofs.UnchangedSource

/-! The pairs of two trees. Where both searches come to their ends, the paths of the pairs are in
strict order and are exactly those of the files that the pattern asks for and no line excludes,
and a pair has the file of each tree that has one. This determines the list of pairs, so it
neither depends on files that are not asked for nor on which tree comes first. -/
namespace RecordCompat

theorem nodup_eraseDups (items : List String) : items.eraseDups.Nodup := by
  have kept := map_firstBy id items
  rw [List.map_id, List.map_id] at kept
  have distinct := nodup_map_firstBy id items
  rwa [List.map_id, kept] at distinct

theorem eq_of_increasing {first second : List String} (increasing : first.Pairwise (· < ·))
    (increasing' : second.Pairwise (· < ·)) (same : ∀ a, a ∈ first ↔ a ∈ second) :
    first = second := by
  have distinct {items : List String} (increasing : items.Pairwise (· < ·)) : items.Nodup :=
    increasing.imp fun {a b} (less : a < b) (equal : a = b) =>
      String.lt_irrefl b (equal ▸ less)
  have perm := (List.perm_ext_iff_of_nodup (distinct increasing) (distinct increasing')).mpr same
  refine List.Perm.eq_of_pairwise (fun a b _ _ less less' => ?_) increasing increasing' perm
  exact absurd (String.lt_trans less less') (String.lt_irrefl a)

namespace Files

theorem Disk.HasFile.legal {disk : Disk} {root : Path} {parts : List String} (sound : disk.Sound)
    (there : disk.HasFile root parts) : IsFilePath parts := by
  obtain ⟨base, tree, file⟩ := there
  refine ⟨?_, fun name member => sound.names (.inr file) name (List.mem_append_right _ member)⟩
  rintro rfl
  rw [List.append_nil] at file
  exact absurd tree.directory (by simp [sound.not_isDirectory file])

/-- The pattern asks for the files at this path, and no line excludes them. -/
structure Glob.Selects (glob : Glob) (ignore : List IgnoreLine) (parts : List String) : Prop where
  asked : glob.Matches parts
  kept : Ignore.excludes ignore (Path.joined parts) = false

section Tree

variable {disk : Disk} {glob : Glob} {ignore : List IgnoreLine} {root : Path}

theorem collects_iff (sound : disk.Sound) (below : glob.StaysBelow) (ignore : List IgnoreLine) :
    (∃ c, (collect disk glob ignore root).result = .ok c) ↔ glob.Completes disk root := by
  rw [← not_not (a := glob.Completes disk root), ← Glob.files_error_iff sound below]
  unfold collect
  cases glob.files disk root <;> simp

/-- The files collected below a root are those that are selected. -/
structure Collects (disk : Disk) (glob : Glob) (ignore : List IgnoreLine) (root : Path)
    (c : Collection) : Prop where
  sameRoot : c.root = root
  mem_iff : ∀ parts, parts ∈ c.found ↔ glob.Selects ignore parts ∧ disk.HasFile root parts

theorem collects (sound : disk.Sound) (below : glob.StaysBelow) {c : Collection}
    (collected : (collect disk glob ignore root).result = .ok c) :
    Collects disk glob ignore root c := by
  unfold collect at collected
  cases searched : glob.files disk root with
  | error e => simp [searched] at collected
  | ok all =>
    simp only [searched, Except.ok.injEq] at collected
    subst collected
    refine ⟨rfl, fun parts => ?_⟩
    rw [List.mem_filter, Glob.mem_files sound below searched, Bool.not_eq_true']
    constructor
    · rintro ⟨⟨asked, there⟩, kept⟩
      exact ⟨⟨asked, kept⟩, there⟩
    · rintro ⟨⟨asked, kept⟩, there⟩
      exact ⟨⟨asked, there⟩, kept⟩

def IsSide (disk : Disk) (root : Path) (parts : List String) (file? : Option Path) : Prop :=
  disk.HasFile root parts ∧ file? = some (root.append parts) ∨
    ¬ disk.HasFile root parts ∧ file? = none

theorem IsSide.isSome {parts : List String} {file? : Option Path}
    (side : IsSide disk root parts file?) : file?.isSome = true ↔ disk.HasFile root parts := by
  rcases side with ⟨there, rfl⟩ | ⟨gone, rfl⟩
  · simp [there]
  · simp [gone]

theorem Collects.isSide (sound : disk.Sound) {c : Collection}
    (collected : Collects disk glob ignore root c) {parts : List String} (legal : IsFilePath parts)
    (selected : glob.Selects ignore parts) :
    IsSide disk root parts (c.file? (Path.joined parts)) := by
  unfold Collection.file?
  cases first : c.found.find? (Path.joined · = Path.joined parts) with
  | none =>
    refine .inr ⟨fun there => ?_, rfl⟩
    have member := (collected.mem_iff parts).mpr ⟨selected, there⟩
    have missing := List.find?_eq_none.mp first parts member
    simp at missing
  | some other =>
    have there := ((collected.mem_iff other).mp (List.mem_of_find?_eq_some first)).2
    have same : Path.joined other = Path.joined parts := by simpa using List.find?_some first
    obtain rfl := joined_inj (there.legal sound) legal same
    exact .inl ⟨there, by rw [Option.map_some, collected.sameRoot]⟩

theorem Collects.mem_paths {c : Collection} (collected : Collects disk glob ignore root c)
    {path : String} : path ∈ c.paths ↔
      ∃ parts, Path.joined parts = path ∧ glob.Selects ignore parts ∧ disk.HasFile root parts := by
  simp only [Collection.paths, List.mem_map, collected.mem_iff]
  exact exists_congr fun parts => and_comm

end Tree

theorem mem_mergedPaths {old new : Collection} {path : String} :
    path ∈ mergedPaths old new ↔ path ∈ old.paths ∨ path ∈ new.paths := by
  rw [mergedPaths, List.mem_mergeSort, List.mem_eraseDups, List.mem_append]

theorem increasing_mergedPaths (old new : Collection) :
    (mergedPaths old new).Pairwise (· < ·) := by
  have sorted : (mergedPaths old new).Pairwise fun a b => decide (a ≤ b) = true :=
    List.pairwise_mergeSort (by simpa using fun a b c => String.le_trans)
      (by simpa using String.le_total) (old.paths ++ new.paths).eraseDups
  have distinct : (mergedPaths old new).Nodup :=
    (List.mergeSort_perm _ _).nodup_iff.mpr (nodup_eraseDups _)
  refine (sorted.and (List.nodup_iff_pairwise_ne.mp distinct)).imp fun {a b} ⟨le, ne⟩ => ?_
  exact Std.lt_of_le_of_ne (of_decide_eq_true le) ne

theorem map_path_pairCollections (old new : Collection) :
    (pairCollections old new).map SourcePair.path = mergedPaths old new := by
  simp [pairCollections, Function.comp_def]

theorem increasing_of_discover {disk : Disk} {old new : Path} {pattern : String}
    {exclude : List String} {pairs : List SourcePair}
    (found : (discover disk old new pattern exclude).result = .ok pairs) :
    (pairs.map SourcePair.path).Pairwise (· < ·) := by
  unfold discover at found
  split at found
  next => cases found
  next => cases found
  next =>
    obtain ⟨c, -, found⟩ := Logged.result_bind_ok.mp found
    obtain ⟨d, -, found⟩ := Logged.result_bind_ok.mp found
    obtain ⟨-, -, same⟩ := Logged.result_bind_ok.mp found
    cases same
    exact map_path_pairCollections c d ▸ increasing_mergedPaths c d

/-- What two searches have to come to. -/
structure Discovered (disk : Disk) (glob : Glob) (ignore : List IgnoreLine) (old new : Path)
    (pairs : List SourcePair) : Prop where
  increasing : (pairs.map SourcePair.path).Pairwise (· < ·)
  mem_iff : ∀ path, path ∈ pairs.map SourcePair.path ↔ ∃ parts, Path.joined parts = path ∧
    glob.Selects ignore parts ∧ (disk.HasFile old parts ∨ disk.HasFile new parts)
  sides : ∀ pair ∈ pairs, ∃ parts, Path.joined parts = pair.path ∧ glob.Selects ignore parts ∧
    IsSide disk old parts pair.old? ∧ IsSide disk new parts pair.new? ∧
    (pair.old?.isSome = true ∨ pair.new?.isSome = true)

section Discovered

variable {disk other : Disk} {glob : Glob} {ignore : List IgnoreLine} {old new : Path}
  {pairs : List SourcePair}

theorem discovered_pairCollections (sound : disk.Sound) {c d : Collection}
    (olds : Collects disk glob ignore old c) (news : Collects disk glob ignore new d) :
    Discovered disk glob ignore old new (pairCollections c d) := by
  have paths := map_path_pairCollections c d
  have origin {path : String} : path ∈ mergedPaths c d ↔ ∃ parts, Path.joined parts = path ∧
      glob.Selects ignore parts ∧ (disk.HasFile old parts ∨ disk.HasFile new parts) := by
    rw [mem_mergedPaths, olds.mem_paths, news.mem_paths, ← exists_or]
    exact exists_congr fun parts => by rw [← and_or_left, ← and_or_left]
  constructor
  case increasing => exact paths ▸ increasing_mergedPaths c d
  case mem_iff => exact fun path => paths ▸ origin
  case sides =>
    intro pair member
    obtain ⟨path, listed, rfl⟩ := List.mem_map.mp member
    obtain ⟨parts, rfl, selected, there⟩ := origin.mp listed
    have legal : IsFilePath parts := there.elim (·.legal sound) (·.legal sound)
    have oldSide := olds.isSide sound legal selected
    have newSide := news.isSide sound legal selected
    exact ⟨parts, rfl, selected, oldSide, newSide,
      there.imp oldSide.isSome.mpr newSide.isSome.mpr⟩

theorem Discovered.legal (sound : disk.Sound) {parts : List String} {old? new? : Option Path}
    (oldSide : IsSide disk old parts old?) (newSide : IsSide disk new parts new?)
    (present : old?.isSome = true ∨ new?.isSome = true) : IsFilePath parts :=
  present.elim (fun some => (oldSide.isSome.mp some).legal sound)
    fun some => (newSide.isSome.mp some).legal sound

theorem IsSide.unique {root : Path} {parts : List String} {file? file?' : Option Path}
    (same : disk.HasFile root parts ↔ other.HasFile root parts)
    (side : IsSide disk root parts file?) (side' : IsSide other root parts file?') :
    file? = file?' := by
  rcases side with ⟨there, rfl⟩ | ⟨gone, rfl⟩
  · rcases side' with ⟨-, rfl⟩ | ⟨gone, -⟩
    · rfl
    · exact absurd (same.mp there) gone
  · rcases side' with ⟨there, -⟩ | ⟨-, rfl⟩
    · exact absurd (same.mpr there) gone
    · rfl

theorem eq_of_map_path {pairs others : List SourcePair}
    (paths : pairs.map SourcePair.path = others.map SourcePair.path)
    (each : ∀ pair ∈ pairs, ∀ pair' ∈ others, pair.path = pair'.path → pair = pair') :
    pairs = others := by
  induction pairs generalizing others with
  | nil => exact (List.map_eq_nil_iff.mp paths.symm).symm
  | cons pair rest ih =>
    cases others with
    | nil => cases paths
    | cons pair' rest' =>
      obtain ⟨here, later⟩ := List.cons.inj paths
      rw [each pair List.mem_cons_self pair' List.mem_cons_self here]
      refine congrArg _ (ih later fun p member p' member' => ?_)
      exact each p (List.mem_cons_of_mem _ member) p' (List.mem_cons_of_mem _ member')

/-- The selected files of the two trees determine the pairs. -/
theorem Discovered.unique (sound : disk.Sound) (sound' : other.Sound)
    (found : Discovered disk glob ignore old new pairs) {pairs' : List SourcePair}
    (found' : Discovered other glob ignore old new pairs')
    (olds : ∀ parts, glob.Selects ignore parts →
      (disk.HasFile old parts ↔ other.HasFile old parts))
    (news : ∀ parts, glob.Selects ignore parts →
      (disk.HasFile new parts ↔ other.HasFile new parts)) :
    pairs = pairs' := by
  have paths : pairs.map SourcePair.path = pairs'.map SourcePair.path := by
    refine eq_of_increasing found.increasing found'.increasing fun path => ?_
    rw [found.mem_iff, found'.mem_iff]
    refine exists_congr fun parts => and_congr_right fun _ => and_congr_right fun selected => ?_
    rw [olds parts selected, news parts selected]
  refine eq_of_map_path paths fun pair member pair' member' same => ?_
  obtain ⟨parts, path, selected, oldSide, newSide, present⟩ := found.sides pair member
  obtain ⟨parts', path', -, oldSide', newSide', present'⟩ := found'.sides pair' member'
  have legal := Discovered.legal sound oldSide newSide present
  have legal' := Discovered.legal sound' oldSide' newSide' present'
  obtain rfl := joined_inj legal legal' (path.trans (same.trans path'.symm))
  have olds := oldSide.unique (olds parts selected) oldSide'
  have news := newSide.unique (news parts selected) newSide'
  cases pair
  cases pair'
  simp_all

def SourcePair.swap (pair : SourcePair) : SourcePair :=
  ⟨pair.path, pair.new?, pair.old?⟩

theorem Discovered.swap (found : Discovered disk glob ignore old new pairs) :
    Discovered disk glob ignore new old (pairs.map SourcePair.swap) := by
  have paths : (pairs.map SourcePair.swap).map SourcePair.path = pairs.map SourcePair.path := by
    rw [List.map_map]
    rfl
  constructor
  case increasing => exact paths ▸ found.increasing
  case mem_iff =>
    intro path
    rw [paths, found.mem_iff]
    simp only [or_comm]
  case sides =>
    intro pair member
    obtain ⟨original, among, rfl⟩ := List.mem_map.mp member
    obtain ⟨parts, path, selected, oldSide, newSide, present⟩ := found.sides original among
    exact ⟨parts, path, selected, newSide, oldSide, present.symm⟩

theorem discover_ok {pattern : String} {exclude : List String}
    (parsed : Glob.read pattern = .ok glob) (lines : Ignore.read exclude = .ok ignore) :
    (discover disk old new pattern exclude).result = .ok pairs ↔
      ∃ c d, (collect disk glob ignore old).result = .ok c ∧
        (collect disk glob ignore new).result = .ok d ∧ pairs = pairCollections c d := by
  unfold discover
  rw [lines, parsed]
  simp only [Logged.result_bind_ok]
  constructor
  · rintro ⟨c, olds, d, news, -, -, same⟩
    cases same
    exact ⟨c, d, olds, news, rfl⟩
  · rintro ⟨c, d, olds, news, rfl⟩
    exact ⟨c, olds, d, news, (), rfl, rfl⟩

theorem discovered_of_ok (sound : disk.Sound) (below : glob.StaysBelow) {pattern : String}
    {exclude : List String} (parsed : Glob.read pattern = .ok glob)
    (lines : Ignore.read exclude = .ok ignore)
    (found : (discover disk old new pattern exclude).result = .ok pairs) :
    Discovered disk glob ignore old new pairs := by
  obtain ⟨c, d, olds, news, rfl⟩ := (discover_ok parsed lines).mp found
  exact discovered_pairCollections sound (collects sound below olds) (collects sound below news)

theorem discovers_iff (sound : disk.Sound) (below : glob.StaysBelow) {pattern : String}
    {exclude : List String} (parsed : Glob.read pattern = .ok glob)
    (lines : Ignore.read exclude = .ok ignore) :
    (∃ pairs, (discover disk old new pattern exclude).result = .ok pairs) ↔
      glob.Completes disk old ∧ glob.Completes disk new := by
  rw [← collects_iff sound below ignore, ← collects_iff sound below ignore]
  simp only [discover_ok parsed lines]
  constructor
  · rintro ⟨_, c, d, olds, news, -⟩
    exact ⟨⟨c, olds⟩, d, news⟩
  · rintro ⟨⟨c, olds⟩, d, news⟩
    exact ⟨_, c, d, olds, news, rfl⟩

/-- The pairs of two roots are complete and exact, and exchanging the roots exchanges the sides,
exactly where both searches come to their ends. -/
theorem discovery_exact_iff {pattern : String} {exclude : List String} (sound : disk.Sound)
    (parsed : Glob.read pattern = .ok glob) (inside : ".." ∉ (Path.ofString pattern).parts)
    (lines : Ignore.read exclude = .ok ignore) :
    (∃ pairs, (discover disk old new pattern exclude).result = .ok pairs ∧
      Discovered disk glob ignore old new pairs ∧
      (discover disk new old pattern exclude).result = .ok (pairs.map SourcePair.swap)) ↔
    glob.Completes disk old ∧ glob.Completes disk new := by
  have below := staysBelow_of_read parsed inside
  constructor
  · rintro ⟨pairs, found, -⟩
    exact (discovers_iff sound below parsed lines).mp ⟨pairs, found⟩
  · intro completes
    obtain ⟨pairs, found⟩ := (discovers_iff sound below parsed lines).mpr completes
    obtain ⟨exchanged, found'⟩ := (discovers_iff sound below parsed lines).mpr completes.symm
    have listed := discovered_of_ok sound below parsed lines found
    have listed' := discovered_of_ok sound below parsed lines found'
    obtain rfl := listed.swap.unique sound sound listed' (fun _ _ => Iff.rfl) (fun _ _ => Iff.rfl)
    exact ⟨pairs, found, listed, found'⟩

/-- A file in one tree, and in the other one that is excluded. -/
theorem discovery_exact_on_removed_file :
    let disk : Disk := ⟨[(["old", "A.kt"], []), (["new", "B.kt"], [])], [], []⟩
    let glob : Glob := ⟨[.pattern [.anyText, .char '.', .char 'k', .char 't']], false⟩
    let pairs : List SourcePair := [⟨"A.kt", some (.ofString "old/A.kt"), none⟩]
    let ignore : List IgnoreLine := [⟨false, .shape [.anyFront, .char 'B', .anyText, .finish]⟩]
    (disk.Sound ∧ Glob.read "*.kt" = .ok glob ∧ ".." ∉ (Path.ofString "*.kt").parts ∧
      Ignore.read ["B*"] = .ok ignore) ∧
    (discover disk (.ofString "old") (.ofString "new") "*.kt" ["B*"]).result = .ok pairs ∧
    Discovered disk glob ignore (.ofString "old") (.ofString "new") pairs ∧
    (discover disk (.ofString "new") (.ofString "old") "*.kt" ["B*"]).result =
      .ok (pairs.map SourcePair.swap) := by
  intro disk glob pairs ignore
  have sound : disk.Sound := by decide
  have parsed : Glob.read "*.kt" = .ok glob := by decide +kernel
  have inside : ".." ∉ (Path.ofString "*.kt").parts := by decide
  have lines : Ignore.read ["B*"] = .ok ignore := by decide +kernel
  have found : (discover disk (.ofString "old") (.ofString "new") "*.kt" ["B*"]).result =
      .ok pairs := by decide +kernel
  have completes := (discovers_iff sound (staysBelow_of_read parsed inside) parsed lines).mp
    ⟨pairs, found⟩
  obtain ⟨pairs', found', listed, exchanged⟩ :=
    (discovery_exact_iff sound parsed inside lines).mpr completes
  cases found.symm.trans found'
  exact ⟨⟨sound, parsed, inside, lines⟩, found, listed, exchanged⟩

/-- A name that no file can have is looked up all the same. -/
theorem no_discovery_of_long_name :
    let disk : Disk := ⟨[(["old", "A.kt"], [])], [], []⟩
    disk.Sound ∧ (∃ glob, Glob.read (letters 256) = .ok glob) ∧
      ".." ∉ (Path.ofString (letters 256)).parts ∧
      ¬ ∃ pairs, (discover disk (.ofString "old") (.ofString "new") (letters 256) []).result =
        .ok pairs := by
  intro disk
  have sound : disk.Sound := by decide
  have tree : disk.IsTree (.ofString "old") ["old"] := isTree_of_name (by decide) (by decide)
  obtain ⟨parsed, inside⟩ := read_letters (n := 256) (by decide)
  refine ⟨sound, ⟨_, parsed⟩, inside, fun ⟨pairs, found⟩ => ?_⟩
  obtain ⟨completes, -⟩ :=
    (discovers_iff sound (staysBelow_of_read parsed inside) parsed rfl).mp ⟨pairs, found⟩
  have short := completes.short sound [] tree tree.directory (holdable_letters 256)
  rw [size_letters] at short
  exact absurd short (by decide)

end Discovered

end Files

end RecordCompat
