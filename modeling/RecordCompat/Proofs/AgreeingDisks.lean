import RecordCompat.Proofs.SoundDisks

/-! Disks that agree along a path. What is found at the places that a path leads through decides
where it leads, which directories are made on the way and whether a file can be written at
its end. So a write does the same on disks that agree there, whatever else they hold. -/
namespace RecordCompat.Files.Disk

def wayFrom (place : Place) : List String → List Place
  | [] => [place]
  | part :: rest => place :: wayFrom (move place part) rest

/-- The places that a path leads through, from the current directory or from the root on. -/
def wayTo (here : Place) (path : Path) : List Place :=
  wayFrom (if path.slashes = 0 then here else []) path.parts

theorem wayFrom_append (place : Place) (first second : List String) :
    ∀ there ∈ wayFrom place first, there ∈ wayFrom place (first ++ second) := by
  induction first generalizing place with
  | nil =>
    intro there member
    obtain rfl := List.mem_singleton.mp member
    cases second <;> exact List.mem_cons_self
  | cons part rest ih =>
    intro there member
    rcases List.mem_cons.mp member with rfl | later
    · exact List.mem_cons_self
    · exact List.mem_cons_of_mem _ (ih _ there later)

theorem walk_mem_way {disk : Disk} {place found : Place} {parts : List String}
    (walked : disk.walk place parts = .ok found) : found ∈ wayFrom place parts := by
  induction parts generalizing place with
  | nil =>
    cases walked
    exact List.mem_singleton_self _
  | cons part rest ih =>
    rw [walk] at walked
    split at walked
    next =>
      split at walked
      next => cases walked
      next => exact List.mem_cons_of_mem _ (ih walked)
    next => split at walked <;> cases walked

/-- Two disks with the same current directory that hold the same at some places. -/
structure Agree (here : Place) (places : List Place) (disk other : Disk) : Prop where
  first : disk.here = here
  second : other.here = here
  same : ∀ place ∈ places, disk.at? place = other.at? place

section Agree

variable {here : Place} {places : List Place} {disk other : Disk}

theorem Agree.isDirectory (agree : Agree here places disk other) {place : Place}
    (member : place ∈ places) : disk.isDirectory place = other.isDirectory place := by
  rw [Bool.eq_iff_iff, ← at?_directory, ← at?_directory, agree.same place member]

theorem Agree.isFile (agree : Agree here places disk other) {place : Place}
    (member : place ∈ places) (free : ¬ disk.isDirectory place = true) :
    disk.isFile place = other.isFile place := by
  have same := agree.same place member
  rw [at?, if_neg free, at?, if_neg (agree.isDirectory member ▸ free)] at same
  rw [Disk.isFile, Disk.isFile, ← Option.isSome_map, same, Option.isSome_map]

theorem Agree.walk {place : Place} {parts : List String} (agree : Agree here places disk other)
    (along : ∀ there ∈ wayFrom place parts, there ∈ places) :
    disk.walk place parts = other.walk place parts := by
  induction parts generalizing place with
  | nil => rfl
  | cons part rest ih =>
    obtain ⟨member, later⟩ := List.forall_mem_cons.mp along
    rw [Disk.walk, Disk.walk, ← agree.isDirectory member, ih later]
    by_cases directory : disk.isDirectory place = true
    · rw [if_pos directory, if_pos directory]
    · rw [if_neg directory, if_neg directory, agree.isFile member directory]

theorem Agree.locate {path : Path} (agree : Agree here places disk other)
    (along : ∀ there ∈ wayTo here path, there ∈ places) : disk.locate path = other.locate path := by
  unfold Disk.locate
  rw [agree.first, agree.second, agree.walk along]

theorem locate_mem_way {path : Path} {place : Place} (located : disk.locate path = .ok place) :
    place ∈ wayTo disk.here path := by
  unfold Disk.locate at located
  split at located
  next => cases located
  next => exact walk_mem_way located

theorem Agree.node? {path : Path} (agree : Agree here places disk other)
    (along : ∀ there ∈ wayTo here path, there ∈ places) : disk.node? path = other.node? path := by
  have located := agree.locate along
  unfold Disk.node?
  rw [← located]
  split
  next => rfl
  next =>
    cases found : disk.locate path with
    | error obstacle => cases obstacle <;> rfl
    | ok place =>
      have member := along place (agree.first ▸ locate_mem_way found)
      exact congrArg Except.ok (agree.same place member)

theorem isDirectory_makeDirectory {made place : Place} :
    (disk.makeDirectory made).isDirectory place = true ↔
      disk.isDirectory place = true ∨ place <+: made := by
  simp only [isDirectory_iff, makeDirectory, List.mem_append, List.mem_singleton, or_and_right,
    exists_or, exists_eq_left]
  constructor
  · rintro (root | current | (made | above) | inside)
    · exact .inl (.inl root)
    · exact .inl (.inr (.inl current))
    · exact .inl (.inr (.inr (.inl made)))
    · exact .inr above
    · exact .inl (.inr (.inr (.inr inside)))
  · rintro ((root | current | made | inside) | above)
    · exact .inl root
    · exact .inr (.inl current)
    · exact .inr (.inr (.inl (.inl made)))
    · exact .inr (.inr (.inr inside))
    · exact .inr (.inr (.inl (.inr above)))

theorem Agree.makeDirectory (agree : Agree here places disk other) (made : Place) :
    Agree here places (disk.makeDirectory made) (other.makeDirectory made) := by
  refine ⟨agree.first, agree.second, fun place member => ?_⟩
  by_cases above : place <+: made
  · rw [at?_directory.mpr (isDirectory_makeDirectory.mpr (.inr above)),
      at?_directory.mpr (isDirectory_makeDirectory.mpr (.inr above))]
  · have kept {disk : Disk} : (disk.makeDirectory made).at? place = disk.at? place := by
      have directory : (disk.makeDirectory made).isDirectory place = disk.isDirectory place := by
        rw [Bool.eq_iff_iff, isDirectory_makeDirectory, or_iff_left above]
      rw [at?, directory]
      rfl
    rw [kept, kept, agree.same place member]

/-- Two writes with the same end, which leave disks that agree. -/
def Alike (here : Place) (places : List Place) (done done' : Disk × Option WriteError) : Prop :=
  Agree here places done.1 done'.1 ∧ done.2 = done'.2

theorem Agree.ensureLast {path : Path} (agree : Agree here places disk other)
    (along : ∀ there ∈ wayTo here path, there ∈ places) :
    Alike here places (disk.ensureLast path) (other.ensureLast path) := by
  unfold Disk.ensureLast
  rw [← agree.locate along]
  cases found : disk.locate path with
  | error obstacle => exact ⟨agree, rfl⟩
  | ok place =>
    have member := along place (agree.first ▸ locate_mem_way found)
    dsimp only
    rw [← agree.isDirectory member]
    by_cases directory : disk.isDirectory place = true
    · rw [if_pos directory, if_pos directory]
      exact ⟨agree, rfl⟩
    · rw [if_neg directory, if_neg directory, ← agree.isFile member directory]
      split
      · exact ⟨agree, rfl⟩
      · exact ⟨agree.makeDirectory place, rfl⟩

theorem Agree.ensure {slashes : Nat} {parts : List String} (agree : Agree here places disk other)
    (along : ∀ there ∈ wayTo here ⟨slashes, parts.reverse⟩, there ∈ places) :
    Alike here places (disk.ensure slashes parts) (other.ensure slashes parts) := by
  induction parts with
  | nil => exact ⟨agree, rfl⟩
  | cons part rest ih =>
    have above : ∀ there ∈ wayTo here ⟨slashes, rest.reverse⟩, there ∈ places := by
      intro there member
      refine along there ?_
      rw [List.reverse_cons]
      exact wayFrom_append _ _ _ there member
    rw [Disk.ensure, Disk.ensure, ← agree.locate along]
    split
    next =>
      obtain ⟨agree', same⟩ := ih above
      cases made : disk.ensure slashes rest with
      | mk later failed? =>
      cases made' : other.ensure slashes rest with
      | mk later' failed?' =>
      rw [made, made'] at agree' same
      obtain rfl : failed? = failed?' := same
      cases failed? with
      | none => exact agree'.ensureLast along
      | some e => exact ⟨agree', rfl⟩
    next => exact agree.ensureLast along

theorem Agree.writeLast {path : Path} {bytes : List UInt8} (agree : Agree here places disk other)
    (along : ∀ there ∈ wayTo here path, there ∈ places) (holdable : ¬ path.holdsNul = true) :
    (disk.writeLast path bytes).2 = (other.writeLast path bytes).2 ∧
      (disk.writeLast path bytes).1.node? path = (other.writeLast path bytes).1.node? path := by
  have located := agree.locate along
  cases found : disk.locate path with
  | error obstacle =>
    rw [Disk.writeLast, Disk.writeLast, ← located, found]
    exact ⟨rfl, agree.node? along⟩
  | ok place =>
    have member := along place (agree.first ▸ locate_mem_way found)
    by_cases directory : disk.isDirectory place = true
    · rw [Disk.writeLast, Disk.writeLast, ← located, found]
      dsimp only
      rw [← agree.isDirectory member, if_pos directory, if_pos directory]
      exact ⟨rfl, agree.node? along⟩
    · have written : disk.writeLast path bytes = (disk.putFile place bytes, none) := by
        rw [Disk.writeLast, found]
        exact if_neg directory
      have written' : other.writeLast path bytes = (other.putFile place bytes, none) := by
        rw [Disk.writeLast, ← located, found]
        exact if_neg (agree.isDirectory member ▸ directory)
      rw [written, written']
      exact ⟨rfl, (node?_writeLast holdable written).trans (node?_writeLast holdable written').symm⟩

/-- A file is written alike on disks that agree along its path, and is found alike afterwards. -/
theorem Agree.write {path : Path} {bytes : List UInt8}
    (agree : Agree here (wayTo here path) disk other) :
    (disk.write path bytes).2 = (other.write path bytes).2 ∧
      (disk.write path bytes).1.node? path = (other.write path bytes).1.node? path := by
  have along : ∀ there ∈ wayTo here path, there ∈ wayTo here path := fun _ => id
  have above : ∀ there ∈ wayTo here ⟨path.slashes, path.parent.parts.reverse.reverse⟩,
      there ∈ wayTo here path := by
    intro there member
    rw [List.reverse_reverse] at member
    obtain ⟨last, split⟩ := List.dropLast_prefix path.parts
    rw [wayTo, ← split]
    exact wayFrom_append _ _ last there member
  have looked := agree.node? along
  unfold Disk.write
  by_cases impossible : path.parent.holdsNul = true
  · rw [if_pos impossible, if_pos impossible]
    exact ⟨rfl, looked⟩
  rw [if_neg impossible, if_neg impossible]
  obtain ⟨agree', same⟩ := agree.ensure above
  cases made : disk.ensure path.slashes path.parent.parts.reverse with
  | mk later failed? =>
  cases made' : other.ensure path.slashes path.parent.parts.reverse with
  | mk later' failed?' =>
  rw [made, made'] at agree' same
  obtain rfl : failed? = failed?' := same
  cases failed? with
  | some e => exact ⟨rfl, agree'.node? along⟩
  | none =>
    dsimp only
    by_cases holdable : path.holdsNul = true
    · rw [if_pos holdable, if_pos holdable]
      exact ⟨rfl, agree'.node? along⟩
    · rw [if_neg holdable, if_neg holdable]
      exact agree'.writeLast along holdable

end Agree

end RecordCompat.Files.Disk
