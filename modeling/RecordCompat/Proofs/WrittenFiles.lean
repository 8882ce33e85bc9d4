import RecordCompat.Files.Disk

/-! What is written can be read back. Whether a file can be written depends on its path alone, and
a file that was written is found at its path: putting it there adds no directory that its path
does not lead through and takes none away. -/
namespace RecordCompat.Files.Disk

theorem isDirectory_iff {disk : Disk} {place : Place} :
    disk.isDirectory place = true ↔ place = [] ∨ place <+: disk.here ∨
      (∃ other ∈ disk.directories, place <+: other) ∨
      ∃ file ∈ disk.files, place <+: file.1 ∧ place ≠ file.1 := by
  simp [isDirectory, or_assoc]

theorem mem_putFile {disk : Disk} {place : Place} {bytes : List UInt8}
    {file : Place × List UInt8} :
    file ∈ (disk.putFile place bytes).files ↔
      file ∈ disk.files ∧ file.1 ≠ place ∨ file = (place, bytes) := by
  simp [putFile]

theorem isDirectory_putFile {disk : Disk} {place other : Place} {bytes : List UInt8}
    (there : disk.isDirectory other = true) :
    (disk.putFile place bytes).isDirectory other = true := by
  rw [isDirectory_iff] at there ⊢
  rcases there with root | here | made | ⟨file, member, below, apart⟩
  · exact .inl root
  · exact .inr (.inl here)
  · exact .inr (.inr (.inl made))
  · refine .inr (.inr (.inr ?_))
    by_cases same : file.1 = place
    · exact ⟨(place, bytes), mem_putFile.mpr (.inr rfl), same ▸ below, same ▸ apart⟩
    · exact ⟨file, mem_putFile.mpr (.inl ⟨member, same⟩), below, apart⟩

theorem not_isDirectory_putFile {disk : Disk} {place : Place} {bytes : List UInt8}
    (free : ¬ disk.isDirectory place = true) :
    ¬ (disk.putFile place bytes).isDirectory place = true := by
  rw [isDirectory_iff] at free ⊢
  rintro (root | here | made | ⟨file, member, below, apart⟩)
  · exact free (.inl root)
  · exact free (.inr (.inl here))
  · exact free (.inr (.inr (.inl made)))
  · rcases mem_putFile.mp member with ⟨old, -⟩ | rfl
    · exact free (.inr (.inr (.inr ⟨file, old, below, apart⟩)))
    · exact apart rfl

theorem file?_putFile (disk : Disk) (place : Place) (bytes : List UInt8) :
    (disk.putFile place bytes).file? place = some bytes := by
  have gone : (disk.files.filter (·.1 ≠ place)).lookup place = none := by
    rw [List.lookup_eq_none_iff]
    intro file member
    have other : file.1 ≠ place := of_decide_eq_true (List.mem_filter.mp member).2
    simpa using Ne.symm other
  rw [file?, putFile, List.lookup_append, gone]
  simp

theorem walk_putFile {disk : Disk} {place : Place} {bytes : List UInt8} {start found : Place}
    {parts : List String} (walked : disk.walk start parts = .ok found) :
    (disk.putFile place bytes).walk start parts = .ok found := by
  induction parts generalizing start with
  | nil => exact walked
  | cons part rest ih =>
    rw [walk] at walked ⊢
    split at walked
    next there =>
      rw [if_pos (isDirectory_putFile there)]
      split at walked
      next => cases walked
      next short =>
        rw [if_neg short]
        exact ih walked
    next => split at walked <;> cases walked

theorem locate_putFile {disk : Disk} {place found : Place} {bytes : List UInt8} {path : Path}
    (located : disk.locate path = .ok found) :
    (disk.putFile place bytes).locate path = .ok found := by
  unfold locate at located ⊢
  split at located
  next => cases located
  next short =>
    rw [if_neg short]
    exact walk_putFile located

theorem node?_writeLast {disk later : Disk} {path : Path} {bytes : List UInt8}
    (holdable : ¬ path.holdsNul = true) (written : disk.writeLast path bytes = (later, none)) :
    later.node? path = .ok (some (.file bytes)) := by
  unfold writeLast at written
  split at written
  next => cases written
  next place located =>
    split at written
    next => cases written
    next free =>
      obtain ⟨rfl, -⟩ := Prod.mk.inj written
      rw [node?, if_neg holdable, locate_putFile located]
      dsimp only
      rw [if_neg (not_isDirectory_putFile free), file?_putFile]
      rfl

theorem node?_write {disk later : Disk} {path : Path} {bytes : List UInt8}
    (written : disk.write path bytes = (later, none)) :
    later.node? path = .ok (some (.file bytes)) := by
  unfold write at written
  split at written
  next => cases written
  next =>
    split at written
    next made _ =>
      split at written
      next => cases written
      next holdable => exact node?_writeLast holdable written
    next failed stopped => exact absurd written (stopped later)

theorem writeLast_error (disk : Disk) (path : Path) (bytes bytes' : List UInt8) :
    (disk.writeLast path bytes).2 = (disk.writeLast path bytes').2 := by
  unfold writeLast
  cases disk.locate path with
  | error => rfl
  | ok place =>
    dsimp only
    split <;> rfl

/-- Whether a file can be written does not depend on what is written to it. -/
theorem write_error (disk : Disk) (path : Path) (bytes bytes' : List UInt8) :
    (disk.write path bytes).2 = (disk.write path bytes').2 := by
  unfold write
  split
  · rfl
  · split
    · split
      · rfl
      · exact writeLast_error _ path bytes bytes'
    · rfl

def Writable (disk : Disk) (path : Path) : Prop :=
  (disk.write path []).2 = none

instance (disk : Disk) (path : Path) : Decidable (disk.Writable path) :=
  inferInstanceAs (Decidable (_ = none))

theorem Writable.write_eq {disk : Disk} {path : Path} (writable : disk.Writable path)
    (bytes : List UInt8) : disk.write path bytes = ((disk.write path bytes).1, none) :=
  Prod.ext rfl ((disk.write_error path bytes []).trans writable)

/-- The empty path leads to the current directory, which is no file. -/
theorem not_writable_empty (disk : Disk) : ¬ disk.Writable (.ofString "") := by
  intro writable
  have located : disk.locate ⟨0, []⟩ = .ok disk.here := rfl
  have directory : disk.isDirectory disk.here = true :=
    isDirectory_iff.mpr (.inr (.inl List.prefix_rfl))
  have written : (disk.writeLast ⟨0, []⟩ []).2 = none := writable
  rw [writeLast, located] at written
  dsimp only at written
  rw [if_pos directory] at written
  cases written

end RecordCompat.Files.Disk
