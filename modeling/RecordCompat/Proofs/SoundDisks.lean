import RecordCompat.Proofs.WrittenFiles

/-! Disks as they can be: every name is one that a name can be, no place holds two things, and the
current directory lies on the disk. On such a disk the listings of a directory tell exactly
what lies in it and below it, and a path that leads on from a directory leads to the place
that it spells, unless it is too long. -/
namespace RecordCompat.Files

structure IsFileName (name : String) : Prop where
  nonempty : name ≠ ""
  notHere : name ≠ "."
  notAbove : name ≠ ".."
  noSlash : '/' ∉ name.toList
  noNul : '\x00' ∉ name.toList
  short : name.utf8ByteSize ≤ Path.componentLimit

instance (name : String) : Decidable (IsFileName name) :=
  decidable_of_iff (name ≠ "" ∧ name ≠ "." ∧ name ≠ ".." ∧ '/' ∉ name.toList ∧
      '\x00' ∉ name.toList ∧ name.utf8ByteSize ≤ Path.componentLimit)
    ⟨fun ⟨nonempty, notHere, notAbove, noSlash, noNul, short⟩ =>
      ⟨nonempty, notHere, notAbove, noSlash, noNul, short⟩,
    fun name => ⟨name.nonempty, name.notHere, name.notAbove, name.noSlash, name.noNul, name.short⟩⟩

namespace Disk

/-- A directory that was made, or that something lies in. -/
def Lists (disk : Disk) (place : Place) : Prop :=
  place = [] ∨ (∃ other ∈ disk.directories, place <+: other) ∨
    ∃ file ∈ disk.files, place <+: file.1 ∧ place ≠ file.1

instance (disk : Disk) (place : Place) : Decidable (disk.Lists place) :=
  inferInstanceAs (Decidable (_ ∨ _ ∨ _))

structure Sound (disk : Disk) : Prop where
  directoryNames : ∀ place ∈ disk.directories, ∀ name ∈ place, IsFileName name
  fileNames : ∀ file ∈ disk.files, ∀ name ∈ file.1, IsFileName name
  apart : ∀ file ∈ disk.files, disk.isDirectory file.1 = false
  here : disk.Lists disk.here

instance (disk : Disk) : Decidable disk.Sound :=
  decidable_of_iff ((∀ place ∈ disk.directories, ∀ name ∈ place, IsFileName name) ∧
      (∀ file ∈ disk.files, ∀ name ∈ file.1, IsFileName name) ∧
      (∀ file ∈ disk.files, disk.isDirectory file.1 = false) ∧ disk.Lists disk.here)
    ⟨fun ⟨directoryNames, fileNames, apart, here⟩ => ⟨directoryNames, fileNames, apart, here⟩,
    fun sound => ⟨sound.directoryNames, sound.fileNames, sound.apart, sound.here⟩⟩

theorem isFile_iff {disk : Disk} {place : Place} :
    disk.isFile place = true ↔ ∃ file ∈ disk.files, file.1 = place := by
  rw [isFile, file?, List.lookup_isSome_iff]
  exact exists_congr fun file => and_congr_right fun _ => beq_iff_eq.trans eq_comm

theorem isFile_of_file? {disk : Disk} {place : Place} {bytes : List UInt8}
    (content : disk.file? place = some bytes) : disk.isFile place = true := by
  rw [isFile, content, Option.isSome_some]

theorem isDirectory_of_append {disk : Disk} {place : Place} {names : List String}
    (there : disk.isDirectory (place ++ names) = true) : disk.isDirectory place = true := by
  have way : place <+: place ++ names := List.prefix_append _ _
  rw [isDirectory_iff] at there ⊢
  rcases there with root | here | ⟨other, made, below⟩ | ⟨file, member, below, apart⟩
  · exact .inl (List.append_eq_nil_iff.mp root).1
  · exact .inr (.inl (way.trans here))
  · exact .inr (.inr (.inl ⟨other, made, way.trans below⟩))
  · refine .inr (.inr (.inr ⟨file, member, way.trans below, ?_⟩))
    rintro rfl
    exact apart (below.eq_of_length_le (by simp))

theorem isDirectory_of_isFile_append {disk : Disk} {place : Place} {names : List String}
    (nonempty : names ≠ []) (file : disk.isFile (place ++ names) = true) :
    disk.isDirectory place = true := by
  obtain ⟨found, member, same⟩ := isFile_iff.mp file
  refine isDirectory_iff.mpr (.inr (.inr (.inr ⟨found, member, ?_, ?_⟩)))
  · exact same ▸ List.prefix_append _ _
  · simpa [same] using nonempty

def Holds (disk : Disk) (place : Place) : Prop :=
  disk.isDirectory place = true ∨ disk.isFile place = true

def at? (disk : Disk) (place : Place) : Option Node :=
  if disk.isDirectory place then some .directory else (disk.file? place).map .file

theorem at?_eq_none {disk : Disk} {place : Place} : disk.at? place = none ↔ ¬ disk.Holds place := by
  unfold at? Holds isFile
  by_cases directory : disk.isDirectory place = true
  · simp [directory]
  · simp [directory]

theorem at?_directory {disk : Disk} {place : Place} :
    disk.at? place = some .directory ↔ disk.isDirectory place = true := by
  unfold at?
  by_cases directory : disk.isDirectory place = true
  · simp [directory]
  · simp [directory]

section Sound

variable {disk : Disk} {place : Place}

theorem Sound.isDirectory_iff_lists (sound : disk.Sound) :
    disk.isDirectory place = true ↔ disk.Lists place := by
  rw [isDirectory_iff]
  refine ⟨?_, fun listed => listed.imp_right .inr⟩
  rintro (root | here | listed)
  · exact .inl root
  · rcases sound.here with nowhere | ⟨other, made, below⟩ | ⟨file, member, below, apart⟩
    · exact .inl (List.prefix_nil.mp (nowhere ▸ here))
    · exact .inr (.inl ⟨other, made, here.trans below⟩)
    · refine .inr (.inr ⟨file, member, here.trans below, ?_⟩)
      rintro rfl
      exact apart (below.eq_of_length_le here.length_le)
  · exact .inr listed

theorem Sound.not_isDirectory (sound : disk.Sound) (file : disk.isFile place = true) :
    disk.isDirectory place = false := by
  obtain ⟨found, member, rfl⟩ := isFile_iff.mp file
  exact sound.apart found member

theorem Sound.names (sound : disk.Sound) (there : disk.Holds place) :
    ∀ name ∈ place, IsFileName name := by
  intro name member
  rcases there with directory | file
  · rcases sound.isDirectory_iff_lists.mp directory with
      rfl | ⟨other, made, below⟩ | ⟨file, among, below, -⟩
    · cases member
    · exact sound.directoryNames other made name (below.subset member)
    · exact sound.fileNames file among name (below.subset member)
  · obtain ⟨found, among, rfl⟩ := isFile_iff.mp file
    exact sound.fileNames found among name member

theorem Sound.at?_file (sound : disk.Sound) {bytes : List UInt8} :
    disk.at? place = some (.file bytes) ↔ disk.file? place = some bytes := by
  unfold at?
  by_cases directory : disk.isDirectory place = true
  · have free : disk.file? place = none := by
      cases there : disk.file? place with
      | none => rfl
      | some found =>
        simp [sound.not_isDirectory (isFile_of_file? there)] at directory
    simp [directory, free]
  · simp [directory]

theorem mem_above {names : List String} :
    names ∈ above place ↔ names <+: place ∧ names ≠ place := by
  induction place generalizing names with
  | nil => simp [above]
  | cons name rest ih =>
    cases names with
    | nil => simp [above]
    | cons first later =>
      simp only [above, List.mem_cons, reduceCtorEq, List.mem_map, List.cons.injEq, false_or,
        List.cons_prefix_cons, ne_eq, not_and]
      constructor
      · rintro ⟨names, member, rfl, rfl⟩
        exact ⟨⟨rfl, (ih.mp member).1⟩, fun _ => (ih.mp member).2⟩
      · rintro ⟨⟨rfl, below⟩, apart⟩
        exact ⟨later, ih.mpr ⟨below, apart rfl⟩, rfl, rfl⟩

theorem Sound.mem_directoriesBelow (sound : disk.Sound) (there : disk.isDirectory place = true)
    {names : List String} :
    names ∈ disk.directoriesBelow place ↔ disk.isDirectory (place ++ names) = true := by
  unfold directoriesBelow
  dsimp only
  rw [List.mem_mergeSort, List.mem_eraseDups, List.mem_cons, List.mem_map]
  constructor
  · rintro (rfl | ⟨other, listed, rfl⟩)
    · simpa using there
    · obtain ⟨member, way⟩ := List.mem_filter.mp listed
      obtain ⟨rest, rfl⟩ := List.isPrefixOf_iff_prefix.mp way
      rw [List.drop_left, sound.isDirectory_iff_lists]
      rcases List.mem_append.mp member with made | above
      · obtain ⟨directory, among, inside⟩ := List.mem_flatMap.mp made
        rcases List.mem_cons.mp inside with same | below
        · exact .inr (.inl ⟨directory, among, same ▸ List.prefix_rfl⟩)
        · exact .inr (.inl ⟨directory, among, (mem_above.mp below).1⟩)
      · obtain ⟨file, among, inside⟩ := List.mem_flatMap.mp above
        exact .inr (.inr ⟨file, among, mem_above.mp inside⟩)
  · intro directory
    by_cases itself : names = []
    · exact .inl itself
    refine .inr ⟨place ++ names, List.mem_filter.mpr ⟨?_, ?_⟩, List.drop_left⟩
    · rcases sound.isDirectory_iff_lists.mp directory with
        root | ⟨other, made, below⟩ | ⟨file, member, below, apart⟩
      · exact absurd (List.append_eq_nil_iff.mp root).2 itself
      · refine List.mem_append_left _ (List.mem_flatMap.mpr ⟨other, made, ?_⟩)
        by_cases same : place ++ names = other
        · exact same ▸ List.mem_cons_self
        · exact List.mem_cons_of_mem _ (mem_above.mpr ⟨below, same⟩)
      · exact List.mem_append_right _
          (List.mem_flatMap.mpr ⟨file, member, mem_above.mpr ⟨below, apart⟩⟩)
    · exact List.isPrefixOf_iff_prefix.mpr (List.prefix_append _ _)

theorem Sound.mem_namesIn (sound : disk.Sound) {name : String} :
    name ∈ disk.namesIn place ↔ disk.Holds (place ++ [name]) := by
  have next (other : Place) :
      place <+: other ∧ other[place.length]? = some name ↔ place ++ [name] <+: other := by
    constructor
    · rintro ⟨⟨rest, rfl⟩, here⟩
      rw [List.getElem?_append_right (Nat.le_refl _), Nat.sub_self] at here
      cases rest with
      | nil => cases here
      | cons first later =>
        obtain rfl := Option.some.inj here
        exact ⟨later, by simp⟩
    · rintro ⟨rest, rfl⟩
      exact ⟨⟨name :: rest, by simp⟩, by simp⟩
  unfold namesIn
  dsimp only
  rw [List.mem_mergeSort, List.mem_eraseDups, List.mem_filterMap]
  simp only [List.mem_filter, List.isPrefixOf_iff_prefix, and_assoc, next, List.mem_append,
    List.mem_map]
  rw [Holds, sound.isDirectory_iff_lists, isFile_iff]
  constructor
  · rintro ⟨other, made | ⟨file, among, rfl⟩, below⟩
    · exact .inl (.inr (.inl ⟨other, made, below⟩))
    · by_cases same : place ++ [name] = file.1
      · exact .inr ⟨file, among, same.symm⟩
      · exact .inl (.inr (.inr ⟨file, among, below, same⟩))
  · rintro ((root | ⟨other, made, below⟩ | ⟨file, among, below, -⟩) | ⟨file, among, same⟩)
    · simp at root
    · exact ⟨other, .inl made, below⟩
    · exact ⟨file.1, .inr ⟨file, among, rfl⟩, below⟩
    · exact ⟨file.1, .inr ⟨file, among, rfl⟩, same ▸ List.prefix_rfl⟩

end Sound

/-- The directory at a place is what a path leads to. -/
structure IsTree (disk : Disk) (root : Path) (base : Place) : Prop where
  holdable : root.holdsNul = false
  located : disk.locate root = .ok base
  directory : disk.isDirectory base = true

theorem node?_eq {disk : Disk} {path : Path} {place : Place} (holdable : path.holdsNul = false)
    (located : disk.locate path = .ok place) : disk.node? path = .ok (disk.at? place) := by
  simp [node?, holdable, located, at?]

theorem node?_directory {disk : Disk} {root : Path} :
    disk.node? root = .ok (some .directory) ↔ ∃ base, disk.IsTree root base := by
  constructor
  · intro found
    unfold node? at found
    split at found
    next => cases found
    next holdable =>
      split at found
      next => cases found
      next => cases found
      next base located =>
        refine ⟨base, by simpa using holdable, located, ?_⟩
        split at found
        next directory => exact directory
        next => cases there : disk.file? base <;> simp [there] at found
  · rintro ⟨base, tree⟩
    rw [node?_eq tree.holdable tree.located, at?_directory.mpr tree.directory]

theorem IsTree.base_eq {disk : Disk} {root : Path} {base other : Place}
    (tree : disk.IsTree root base) (same : disk.IsTree root other) : other = base := by
  have equal := same.located.symm.trans tree.located
  exact Except.ok.inj equal

theorem walk_append (disk : Disk) (place : Place) (first second : List String) :
    disk.walk place (first ++ second) =
      (disk.walk place first).bind fun found => disk.walk found second := by
  induction first generalizing place with
  | nil => rfl
  | cons part rest ih =>
    simp only [List.cons_append, walk]
    split
    · split
      · rfl
      · exact ih _
    · split <;> rfl

theorem Sound.walk_below {disk : Disk} (sound : disk.Sound) {place : Place} {names : List String}
    (there : disk.isDirectory (place ++ names) = true) (rest : List String) :
    disk.walk place (names ++ rest) = disk.walk (place ++ names) rest := by
  induction names generalizing place with
  | nil => simp
  | cons name later ih =>
    have legal : IsFileName name := sound.names (.inl there) name (by simp)
    have next : place ++ [name] ++ later = place ++ name :: later := by simp
    rw [List.cons_append, walk, if_pos (isDirectory_of_append there),
      if_neg (Nat.not_lt.mpr legal.short), move, if_neg legal.notAbove, ih (next ▸ there), next]

variable {disk : Disk} {root : Path} {base : Place}

/-- The fate of a path that leads on from a directory of a tree. -/
theorem IsTree.locate (sound : disk.Sound) (tree : disk.IsTree root base) {names : List String}
    (there : disk.isDirectory (base ++ names) = true) (rest : List String) :
    disk.locate (root.append (names ++ rest)) =
      if (root.append (names ++ rest)).isLong then .error .tooLong
      else disk.walk (base ++ names) rest := by
  have walked : disk.walk (if root.slashes = 0 then disk.here else []) root.parts = .ok base := by
    have located := tree.located
    unfold Disk.locate at located
    split at located
    next => cases located
    next => exact located
  rw [Disk.locate]
  split
  next => rfl
  next =>
    change disk.walk (if root.slashes = 0 then _ else _) (root.parts ++ (names ++ rest)) = _
    rw [walk_append, walked]
    exact sound.walk_below there rest

theorem IsTree.append_holdable (tree : disk.IsTree root base) {names : List String}
    (each : ∀ name ∈ names, '\x00' ∉ name.toList) : (root.append names).holdsNul = false := by
  have holdable := tree.holdable
  simp only [Path.holdsNul, Path.append, List.any_append] at holdable ⊢
  rw [holdable, Bool.false_or, List.any_eq_false]
  exact fun name member => by simpa using each name member

/-- A path to something in a tree is followed unless it is too long. -/
theorem IsTree.node? (sound : disk.Sound) (tree : disk.IsTree root base) {names : List String}
    (there : disk.Holds (base ++ names)) :
    disk.node? (root.append names) =
      if (root.append names).isLong then .error ⟨root.append names⟩
      else .ok (disk.at? (base ++ names)) := by
  have legal := sound.names there
  have holdable : (root.append names).holdsNul = false :=
    tree.append_holdable fun name member => (legal name (List.mem_append_right _ member)).noNul
  have located : disk.locate (root.append names) =
      if (root.append names).isLong then .error .tooLong else .ok (base ++ names) := by
    by_cases directory : disk.isDirectory (base ++ names) = true
    · simpa [walk] using tree.locate sound directory []
    · rcases List.eq_nil_or_concat names with rfl | ⟨front, last, rfl⟩
      · simp [tree.directory] at directory
      · rw [List.concat_eq_append] at there legal directory ⊢
        have file : disk.isFile (base ++ (front ++ [last])) = true := there.resolve_left directory
        have above : disk.isDirectory (base ++ front) = true :=
          isDirectory_of_isFile_append (List.cons_ne_nil last []) (by simpa using file)
        have name : IsFileName last := legal last (by simp)
        have step : disk.walk (base ++ front) [last] = .ok (base ++ (front ++ [last])) := by
          simp [walk, above, Nat.not_lt.mpr name.short, move, name.notAbove]
        rw [tree.locate sound above, step]
  rw [Disk.node?, if_neg (by simp [holdable]), located]
  by_cases long : (root.append names).isLong = true
  · simp [long]
  · simp [long, at?]

theorem IsTree.node?_concat (sound : disk.Sound) (tree : disk.IsTree root base)
    {names : List String} (there : disk.isDirectory (base ++ names) = true) {name : String}
    (inside : name ≠ "..") {node : Option Node}
    (found : disk.node? (root.append (names ++ [name])) = .ok node) :
    node = disk.at? (base ++ (names ++ [name])) := by
  by_cases holds : disk.Holds (base ++ (names ++ [name]))
  · rw [tree.node? sound holds] at found
    split at found
    next => cases found
    next => exact (Except.ok.inj found).symm
  · -- Nothing has that name, whether or not the name could be followed.
    rw [at?_eq_none.mpr holds]
    unfold Disk.node? at found
    split at found
    next => exact (Except.ok.inj found).symm
    next =>
      split at found
      next => cases found
      next => exact (Except.ok.inj found).symm
      next place located =>
        have reached : place = base ++ (names ++ [name]) := by
          rw [tree.locate sound there] at located
          split at located
          next => cases located
          next =>
            rw [walk, if_pos there] at located
            split at located
            next => cases located
            next =>
              rw [walk, move, if_neg inside] at located
              simpa using (Except.ok.inj located).symm
        have nothing : disk.at? place = none := at?_eq_none.mpr (reached ▸ holds)
        exact (Except.ok.inj found).symm.trans nothing

end Disk

end RecordCompat.Files
