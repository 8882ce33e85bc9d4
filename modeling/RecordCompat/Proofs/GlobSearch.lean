import Mathlib.Logic.Basic
import RecordCompat.Proofs.Attempts
import RecordCompat.Proofs.SoundDisks

/-! What a glob finds. On a sound disk a search that does not lead upwards finds exactly the files
whose paths the glob matches, in however many ways a component `**` can be read. It ends
early exactly when a path that it visits is too long; which paths it visits depends on the
directories alone, and not on the order in which they are searched. -/
namespace RecordCompat

theorem bind_error_iff {ε α β : Type} {first : Except ε α} {next : α → Except ε β} :
    (∃ e, first >>= next = .error e) ↔
      (∃ e, first = .error e) ∨ ∃ a, first = .ok a ∧ ∃ e, next a = .error e := by
  cases first <;> simp [bind, Except.bind]

theorem bind_pure_error_iff {ε α β : Type} {first : Except ε α} {f : α → β} :
    (∃ e, (first >>= fun a => pure (f a)) = .error e) ↔ ∃ e, first = .error e := by
  cases first <;> simp [bind, Except.bind, pure, Except.pure]

theorem mem_flatten_of_mapM {ε α β : Type} {read : α → Except ε (List β)} {items : List α}
    {results : List (List β)} (all : items.mapM read = .ok results) {b : β} :
    b ∈ results.flatten ↔ ∃ a ∈ items, ∃ found, read a = .ok found ∧ b ∈ found := by
  rw [List.mem_flatten]
  constructor
  · rintro ⟨found, member, inside⟩
    obtain ⟨a, among, read⟩ := (mapM_ok all).1 _ member
    exact ⟨a, among, found, read, inside⟩
  · rintro ⟨a, among, found, read, inside⟩
    obtain ⟨other, member, same⟩ := (mapM_ok all).2 _ among
    cases read.symm.trans same
    exact ⟨found, member, inside⟩

namespace Files

open Command (Unknowable)

/-- A path has a component for each step, and any names where a step descends. -/
inductive Fits : List GlobStep → List String → Prop
  | done : Fits [] []
  | descend (names : List String) {steps : List GlobStep} {path : List String}
      (behind : Fits steps path) : Fits (.descend :: steps) (names ++ path)
  | name (text : String) {steps : List GlobStep} {path : List String} (behind : Fits steps path) :
      Fits (.name text :: steps) (text :: path)
  | pattern (items : List GlobItem) {name : String} (fits : GlobItem.fit items name = true)
      {steps : List GlobStep} {path : List String} (behind : Fits steps path) :
      Fits (.pattern items :: steps) (name :: path)

theorem fits_nil {path : List String} : Fits [] path ↔ path = [] := by
  constructor
  · rintro ⟨⟩
    rfl
  · rintro rfl
    exact .done

theorem fits_descend {steps : List GlobStep} {path : List String} :
    Fits (.descend :: steps) path ↔ ∃ names rest, path = names ++ rest ∧ Fits steps rest := by
  constructor
  · rintro ⟨⟩
    next names rest behind => exact ⟨names, rest, rfl, behind⟩
  · rintro ⟨names, rest, rfl, behind⟩
    exact .descend names behind

/-- What a step that does not descend asks of a name. -/
def GlobStep.Asks : GlobStep → String → Prop
  | .descend, _ => False
  | .name text, part => part = text
  | .pattern items, part => GlobItem.fit items part = true

theorem fits_step {step : GlobStep} (stays : step ≠ .descend) {steps : List GlobStep}
    {path : List String} :
    Fits (step :: steps) path ↔
      ∃ name rest, step.Asks name ∧ Fits steps rest ∧ path = name :: rest := by
  constructor
  · intro fits
    cases fits with
    | descend names behind => exact absurd rfl stays
    | name text behind => exact ⟨text, _, rfl, behind, rfl⟩
    | pattern items fits behind => exact ⟨_, _, fits, behind, rfl⟩
  · rintro ⟨name, rest, asked, behind, rfl⟩
    cases step with
    | descend => exact absurd rfl stays
    | name text =>
      obtain rfl : name = text := asked
      exact .name name behind
    | pattern items => exact .pattern items asked behind

/-- Whatever the steps in front are, a step at the end asks for the last component. -/
theorem Fits.last {front : List GlobStep} {step : GlobStep} (stays : step ≠ .descend)
    {path : List String} (fits : Fits (front ++ [step]) path) :
    ∃ name, path.getLast? = some name ∧ step.Asks name := by
  induction front generalizing path with
  | nil =>
    obtain ⟨name, rest, asked, finished, rfl⟩ := (fits_step stays).mp fits
    obtain rfl := fits_nil.mp finished
    exact ⟨name, rfl, asked⟩
  | cons first front ih =>
    have passed : ∃ names rest, path = names ++ rest ∧ Fits (front ++ [step]) rest := by
      by_cases descends : first = .descend
      · exact fits_descend.mp (descends ▸ fits)
      · obtain ⟨name, rest, -, behind, rfl⟩ := (fits_step descends).mp fits
        exact ⟨[name], rest, rfl, behind⟩
    obtain ⟨names, rest, rfl, behind⟩ := passed
    obtain ⟨name, last, asked⟩ := ih behind
    exact ⟨name, by rw [List.getLast?_append, last, Option.some_or], asked⟩

/-- The last step asks for a name and does not descend. -/
def namesLast : List GlobStep → Bool
  | [] => false
  | .descend :: steps => namesLast steps
  | _ :: steps => steps.isEmpty || namesLast steps

theorem namesLast_step {step : GlobStep} (stays : step ≠ .descend) (steps : List GlobStep) :
    namesLast (step :: steps) = (steps.isEmpty || namesLast steps) := by
  cases step with
  | descend => exact absurd rfl stays
  | name text => rfl
  | pattern items => rfl

theorem Fits.ne_nil {steps : List GlobStep} {path : List String} (fits : Fits steps path)
    (named : namesLast steps = true) : path ≠ [] := by
  induction fits with
  | done => cases named
  | descend names _ ih => exact fun empty => ih named (List.append_eq_nil_iff.mp empty).2
  | name => exact List.cons_ne_nil _ _
  | pattern => exact List.cons_ne_nil _ _

/-- The files that a glob asks for, by their paths from a root on. -/
structure Glob.Matches (glob : Glob) (path : List String) : Prop where
  plain : glob.directoriesOnly = false
  named : namesLast glob.steps = true
  fits : Fits (.descend :: glob.steps) path

/-- The glob never leads to the directory above. -/
def Glob.StaysBelow (glob : Glob) : Prop :=
  .name ".." ∉ glob.steps

theorem staysBelow_of_read {pattern : String} {glob : Glob} (parsed : Glob.read pattern = .ok glob)
    (inside : ".." ∉ (Path.ofString pattern).parts) : glob.StaysBelow := by
  unfold Glob.read at parsed
  dsimp only at parsed
  split at parsed
  next => cases parsed
  next =>
    obtain ⟨steps, read, same⟩ := bind_ok.mp parsed
    cases same
    intro upwards
    obtain ⟨part, member, step⟩ := (mapM_ok read).1 _ upwards
    unfold GlobStep.read at step
    split at step
    next => cases step
    next =>
      split at step
      next => cases step
      next =>
        split at step
        next => cases step
        next =>
          cases step
          exact inside member

/-- The paths from a place on that steps are led to on their way: directories that are opened
and names that are looked up. -/
inductive Visits (disk : Disk) : Place → List GlobStep → List String → Prop
  | opened {place : Place} {names : List String} {steps : List GlobStep}
      (there : disk.isDirectory (place ++ names) = true) :
      Visits disk place (.descend :: steps) names
  | behindDirectories {place : Place} {names path : List String} {steps : List GlobStep}
      (there : disk.isDirectory (place ++ names) = true)
      (behind : Visits disk (place ++ names) steps path) :
      Visits disk place (.descend :: steps) (names ++ path)
  | lookedUp {place : Place} {text : String} {steps : List GlobStep} :
      Visits disk place (.name text :: steps) [text]
  | behindName {place : Place} {text : String} {path : List String} {steps : List GlobStep}
      (there : disk.isDirectory (place ++ [text]) = true)
      (behind : Visits disk (place ++ [text]) steps path) :
      Visits disk place (.name text :: steps) (text :: path)
  | listed {place : Place} {items : List GlobItem} {steps : List GlobStep} :
      Visits disk place (.pattern items :: steps) []
  | behindPattern {place : Place} {items : List GlobItem} {name : String} {path : List String}
      {steps : List GlobStep} (fits : GlobItem.fit items name = true)
      (there : disk.isDirectory (place ++ [name]) = true)
      (behind : Visits disk (place ++ [name]) steps path) :
      Visits disk place (.pattern items :: steps) (name :: path)

theorem visits_descend {disk : Disk} {place : Place} {steps : List GlobStep} {path : List String} :
    Visits disk place (.descend :: steps) path ↔ disk.isDirectory (place ++ path) = true ∨
      ∃ names rest, disk.isDirectory (place ++ names) = true ∧
        Visits disk (place ++ names) steps rest ∧ path = names ++ rest := by
  constructor
  · rintro ⟨⟩
    next there => exact .inl there
    next names rest there behind => exact .inr ⟨names, rest, there, behind, rfl⟩
  · rintro (there | ⟨names, rest, there, behind, rfl⟩)
    · exact .opened there
    · exact .behindDirectories there behind

/-- What a step that does not descend is led to by itself: a name is looked up, and a directory is
listed. -/
def GlobStep.own : GlobStep → List String
  | .name text => [text]
  | .pattern _ => []
  | .descend => []

theorem visits_step {disk : Disk} {place : Place} {step : GlobStep} (stays : step ≠ .descend)
    {steps : List GlobStep} {path : List String} :
    Visits disk place (step :: steps) path ↔ path = step.own ∨
      ∃ name rest, step.Asks name ∧ disk.isDirectory (place ++ [name]) = true ∧
        Visits disk (place ++ [name]) steps rest ∧ path = name :: rest := by
  constructor
  · intro visited
    cases visited with
    | opened there => exact absurd rfl stays
    | behindDirectories there behind => exact absurd rfl stays
    | lookedUp => exact .inl rfl
    | behindName there behind => exact .inr ⟨_, _, rfl, there, behind, rfl⟩
    | listed => exact .inl rfl
    | behindPattern fits there behind => exact .inr ⟨_, _, fits, there, behind, rfl⟩
  · rintro (rfl | ⟨name, rest, asked, there, behind, rfl⟩)
    · cases step with
      | descend => exact absurd rfl stays
      | name text => exact .lookedUp
      | pattern items => exact .listed
    · cases step with
      | descend => exact absurd rfl stays
      | name text =>
        obtain rfl : name = text := asked
        exact .behindName there behind
      | pattern items => exact .behindPattern asked there behind

namespace Glob

def spotAt (base : Place) (path : List String) : Spot :=
  ⟨path, base ++ path⟩

theorem spotAt_below (base : Place) (path names : List String) :
    (spotAt base path).below names = spotAt base (path ++ names) := by
  simp [spotAt, Spot.below]

theorem spotAt_enter (base : Place) (path : List String) {name : String} (inside : name ≠ "..") :
    (spotAt base path).enter name = spotAt base (path ++ [name]) := by
  simp [spotAt, Spot.enter, Disk.move, inside]

/-- Where a component may lead: to anything, or if it has to, to a directory. -/
def Enters (disk : Disk) (inner : Bool) (place : Place) : Prop :=
  disk.Holds place ∧ (inner = true → disk.isDirectory place = true)

/-- Where steps may end: at a directory, or where they name it and are not restricted to
directories, at a file. -/
def Ends (disk : Disk) (directoriesOnly named : Bool) (place : Place) : Prop :=
  disk.isDirectory place = true ∨
    disk.isFile place = true ∧ directoriesOnly = false ∧ named = true

theorem Ends.way {disk : Disk} {directoriesOnly : Bool} {place : Place} {steps : List GlobStep}
    {path : List String} (fits : Fits steps path)
    (ends : Ends disk directoriesOnly (namesLast steps) (place ++ path)) :
    disk.isDirectory place = true := by
  rcases ends with directory | ⟨file, -, named⟩
  · exact Disk.isDirectory_of_append directory
  · exact Disk.isDirectory_of_isFile_append (fits.ne_nil named) file

section Tree

variable {disk : Disk} {root : Path} {base : Place} {inner directoriesOnly : Bool}
  {path : List String} {next : List Spot} {s : Spot}

theorem mem_spotNamed (sound : disk.Sound) (tree : disk.IsTree root base)
    (there : disk.isDirectory (base ++ path) = true) {text : String} (inside : text ≠ "..")
    (found : spotNamed disk root inner (spotAt base path) text = .ok next) :
    s ∈ next ↔ ∃ name, name = text ∧ Enters disk inner (base ++ (path ++ [name])) ∧
      s = spotAt base (path ++ [name]) := by
  simp only [exists_eq_left]
  unfold spotNamed at found
  dsimp only at found
  rw [spotAt_enter base path inside] at found
  obtain ⟨node?, looked, found⟩ := bind_ok.mp found
  have same := tree.node?_concat sound there inside looked
  unfold Enters
  rcases node? with - | (bytes | -)
  · cases found
    simp [Disk.at?_eq_none.mp same.symm]
  · have file : disk.file? (base ++ (path ++ [text])) = some bytes := sound.at?_file.mp same.symm
    have isFile := Disk.isFile_of_file? file
    cases found
    cases inner <;> simp [Disk.Node.isFile, Disk.Holds, isFile, sound.not_isDirectory isFile]
  · have directory : disk.isDirectory (base ++ (path ++ [text])) = true :=
      Disk.at?_directory.mp same.symm
    cases found
    simp [Disk.Node.isFile, Disk.Holds, directory]

theorem mem_spotsFitting (sound : disk.Sound) {items : List GlobItem}
    (found : spotsFitting disk root inner (spotAt base path) items = .ok next) :
    s ∈ next ↔ ∃ name, GlobItem.fit items name = true ∧
      Enters disk inner (base ++ (path ++ [name])) ∧ s = spotAt base (path ++ [name]) := by
  have listed (t : Spot) : t ∈ ((disk.namesIn (base ++ path)).filter (GlobItem.fit items)).map
      (spotAt base path).enter ↔ ∃ name, GlobItem.fit items name = true ∧
        disk.Holds (base ++ (path ++ [name])) ∧ t = spotAt base (path ++ [name]) := by
    simp only [List.mem_map, List.mem_filter, sound.mem_namesIn, List.append_assoc]
    constructor
    · rintro ⟨name, ⟨holds, fits⟩, rfl⟩
      have legal := sound.names holds name (by simp)
      exact ⟨name, fits, holds, spotAt_enter base path legal.notAbove⟩
    · rintro ⟨name, fits, holds, rfl⟩
      have legal := sound.names holds name (by simp)
      exact ⟨name, ⟨holds, fits⟩, spotAt_enter base path legal.notAbove⟩
  obtain ⟨-, -, found⟩ := bind_ok.mp found
  cases found
  unfold Enters
  by_cases wanted : inner = true
  · rw [if_pos wanted, List.mem_filter]
    constructor
    · rintro ⟨member, directory⟩
      obtain ⟨name, fits, holds, rfl⟩ := (listed s).mp member
      exact ⟨name, fits, ⟨holds, fun _ => directory⟩, rfl⟩
    · rintro ⟨name, fits, ⟨holds, directory⟩, rfl⟩
      exact ⟨(listed _).mpr ⟨name, fits, holds, rfl⟩, directory wanted⟩
  · rw [if_neg wanted]
    refine (listed s).trans ?_
    simp [wanted]

/-- What a step that does not descend leads to. -/
def spotsBy (disk : Disk) (root : Path) (inner : Bool) (spot : Spot) :
    GlobStep → Except NameTooLong (List Spot)
  | .descend => .ok []
  | .name text => spotNamed disk root inner spot text
  | .pattern items => spotsFitting disk root inner spot items

theorem spots_step {step : GlobStep} (stays : step ≠ .descend) {steps : List GlobStep}
    {spot : Spot} :
    spots disk root directoriesOnly (step :: steps) spot = (do
      let next ← spotsBy disk root (directoriesOnly || !steps.isEmpty) spot step
      let found ← next.mapM (spots disk root directoriesOnly steps)
      return found.flatten) := by
  cases step with
  | descend => exact absurd rfl stays
  | name text => rfl
  | pattern items => rfl

theorem mem_spotsBy (sound : disk.Sound) (tree : disk.IsTree root base)
    (there : disk.isDirectory (base ++ path) = true) {step : GlobStep} (stays : step ≠ .descend)
    (notAbove : step ≠ .name "..")
    (found : spotsBy disk root inner (spotAt base path) step = .ok next) (s : Spot) :
    s ∈ next ↔ ∃ name, step.Asks name ∧ Enters disk inner (base ++ (path ++ [name])) ∧
      s = spotAt base (path ++ [name]) := by
  cases step with
  | descend => exact absurd rfl stays
  | name text =>
    exact mem_spotNamed sound tree there (fun upwards => notAbove (upwards ▸ rfl)) found
  | pattern items => exact mem_spotsFitting sound found

section Behind

variable {steps : List GlobStep} {asked : String → Prop} {found : List (List Spot)}

/-- What steps find from any directory below a base: the ends of the paths that fit them. -/
def Finds (disk : Disk) (root : Path) (base : Place) (directoriesOnly : Bool)
    (steps : List GlobStep) : Prop :=
  ∀ {path : List String} {all : List Spot}, disk.isDirectory (base ++ path) = true →
    spots disk root directoriesOnly steps (spotAt base path) = .ok all → ∀ s, s ∈ all ↔
      ∃ rest, Fits steps rest ∧
        Ends disk directoriesOnly (namesLast steps) (base ++ (path ++ rest)) ∧
        s = spotAt base (path ++ rest)

theorem mem_behind_last
    (entered : ∀ s, s ∈ next ↔ ∃ name, asked name ∧
      Enters disk directoriesOnly (base ++ (path ++ [name])) ∧ s = spotAt base (path ++ [name]))
    (all : next.mapM (spots disk root directoriesOnly []) = .ok found) :
    s ∈ found.flatten ↔ ∃ name, asked name ∧
      Ends disk directoriesOnly true (base ++ (path ++ [name])) ∧
      s = spotAt base (path ++ [name]) := by
  have ends (place : Place) :
      Enters disk directoriesOnly place ↔ Ends disk directoriesOnly true place := by
    unfold Enters Ends Disk.Holds
    cases directoriesOnly <;> simp +contextual
  rw [mem_flatten_of_mapM all]
  constructor
  · rintro ⟨t, member, here, done, inside⟩
    cases done
    obtain rfl := List.mem_singleton.mp inside
    obtain ⟨name, wanted, enters, rfl⟩ := (entered _).mp member
    exact ⟨name, wanted, (ends _).mp enters, rfl⟩
  · rintro ⟨name, wanted, reached, rfl⟩
    exact ⟨_, (entered _).mpr ⟨name, wanted, (ends _).mpr reached, rfl⟩, _, rfl,
      List.mem_singleton_self _⟩

theorem mem_behind_inner (later : Finds disk root base directoriesOnly steps)
    (entered : ∀ s, s ∈ next ↔ ∃ name, asked name ∧
      Enters disk true (base ++ (path ++ [name])) ∧ s = spotAt base (path ++ [name]))
    (all : next.mapM (spots disk root directoriesOnly steps) = .ok found) :
    s ∈ found.flatten ↔ ∃ name rest, asked name ∧ Fits steps rest ∧
      Ends disk directoriesOnly (namesLast steps) (base ++ (path ++ name :: rest)) ∧
      s = spotAt base (path ++ name :: rest) := by
  rw [mem_flatten_of_mapM all]
  constructor
  · rintro ⟨t, member, here, searched, inside⟩
    obtain ⟨name, wanted, enters, rfl⟩ := (entered _).mp member
    obtain ⟨rest, fits, reached, rfl⟩ := (later (enters.2 rfl) searched _).mp inside
    rw [← List.append_cons] at reached ⊢
    exact ⟨name, rest, wanted, fits, reached, rfl⟩
  · rintro ⟨name, rest, wanted, fits, reached, rfl⟩
    rw [List.append_cons path] at reached ⊢
    have directory : disk.isDirectory (base ++ (path ++ [name])) = true :=
      Ends.way fits (by rwa [List.append_assoc base])
    have member := (entered _).mpr ⟨name, wanted, ⟨.inl directory, fun _ => directory⟩, rfl⟩
    obtain ⟨here, -, searched⟩ := (mapM_ok all).2 _ member
    exact ⟨_, member, here, searched, (later directory searched _).mpr ⟨rest, fits, reached, rfl⟩⟩

/-- What the steps behind a component find, from the spots that the component leads to. -/
theorem mem_behind (later : Finds disk root base directoriesOnly steps)
    (entered : ∀ s, s ∈ next ↔ ∃ name, asked name ∧
      Enters disk (directoriesOnly || !steps.isEmpty) (base ++ (path ++ [name])) ∧
      s = spotAt base (path ++ [name]))
    (all : next.mapM (spots disk root directoriesOnly steps) = .ok found) :
    s ∈ found.flatten ↔ ∃ name rest, asked name ∧ Fits steps rest ∧
      Ends disk directoriesOnly (steps.isEmpty || namesLast steps)
        (base ++ (path ++ name :: rest)) ∧
      s = spotAt base (path ++ name :: rest) := by
  cases steps with
  | nil =>
    simp only [List.isEmpty_nil, Bool.not_true, Bool.or_false] at entered
    rw [mem_behind_last entered all]
    simp only [fits_nil, List.isEmpty_nil, Bool.true_or]
    constructor
    · rintro ⟨name, wanted, reached, rfl⟩
      exact ⟨name, [], wanted, rfl, reached, rfl⟩
    · rintro ⟨name, rest, wanted, rfl, reached, rfl⟩
      exact ⟨name, wanted, reached, rfl⟩
  | cons step steps =>
    simp only [List.isEmpty_cons, Bool.not_false, Bool.or_true] at entered
    exact mem_behind_inner later entered all

theorem Finds.step (sound : disk.Sound) (tree : disk.IsTree root base) {step : GlobStep}
    (stays : step ≠ .descend) (notAbove : step ≠ .name "..")
    (later : Finds disk root base directoriesOnly steps) :
    Finds disk root base directoriesOnly (step :: steps) := by
  intro path all there found s
  rw [spots_step stays] at found
  obtain ⟨next, entered, found⟩ := bind_ok.mp found
  obtain ⟨found, searched, same⟩ := bind_ok.mp found
  cases same
  rw [mem_behind later (mem_spotsBy sound tree there stays notAbove entered) searched,
    namesLast_step stays]
  simp only [fits_step stays]
  constructor
  · rintro ⟨name, rest, wanted, fits, ends, rfl⟩
    exact ⟨name :: rest, ⟨name, rest, wanted, fits, rfl⟩, ends, rfl⟩
  · rintro ⟨_, ⟨name, rest, wanted, fits, rfl⟩, ends, rfl⟩
    exact ⟨name, rest, wanted, fits, ends, rfl⟩

theorem search_below_ok {spot : Spot} {names : List String} {here : List Spot}
    (opened : (do
      let found ← spots disk root directoriesOnly steps (spot.below names)
      NameTooLong.check (root.append (spot.path ++ names))
      return found) = .ok here) :
    spots disk root directoriesOnly steps (spot.below names) = .ok here := by
  obtain ⟨below, searched, opened⟩ := bind_ok.mp opened
  obtain ⟨-, -, same⟩ := bind_ok.mp opened
  cases same
  exact searched

theorem Finds.descend (sound : disk.Sound) (later : Finds disk root base directoriesOnly steps) :
    Finds disk root base directoriesOnly (.descend :: steps) := by
  intro path all there found s
  have listed (names : List String) : names ∈ disk.directoriesBelow (spotAt base path).place ↔
      disk.isDirectory (base ++ (path ++ names)) = true := by
    rw [← List.append_assoc]
    exact sound.mem_directoriesBelow there
  obtain ⟨found, searched, same⟩ := bind_ok.mp found
  cases same
  simp only [mem_flatten_of_mapM searched, listed, fits_descend, namesLast]
  constructor
  · rintro ⟨names, directory, here, opened, member⟩
    have searched := search_below_ok opened
    rw [spotAt_below] at searched
    obtain ⟨rest, fits, ends, rfl⟩ := (later directory searched s).mp member
    rw [List.append_assoc] at ends ⊢
    exact ⟨names ++ rest, ⟨names, rest, rfl, fits⟩, ends, rfl⟩
  · rintro ⟨_, ⟨names, rest, rfl, fits⟩, ends, rfl⟩
    rw [← List.append_assoc path] at ends ⊢
    have directory : disk.isDirectory (base ++ (path ++ names)) = true :=
      Ends.way fits (by rwa [List.append_assoc base])
    obtain ⟨here, -, opened⟩ := (mapM_ok searched).2 _ ((listed names).mpr directory)
    have searched := search_below_ok opened
    rw [spotAt_below] at searched
    exact ⟨names, directory, here, opened,
      (later directory searched _).mpr ⟨rest, fits, ends, rfl⟩⟩

theorem finds (sound : disk.Sound) (tree : disk.IsTree root base)
    (inside : .name ".." ∉ steps) : Finds disk root base directoriesOnly steps := by
  induction steps with
  | nil =>
    intro path all there found s
    cases found
    simp [fits_nil, Ends, there]
  | cons step steps ih =>
    obtain ⟨notAbove, insideRest⟩ := not_or.mp (mt List.mem_cons.mpr inside)
    by_cases descends : step = .descend
    · subst descends
      exact Finds.descend sound (ih insideRest)
    · exact Finds.step sound tree descends (Ne.symm notAbove) (ih insideRest)

end Behind

theorem check_error_iff {path : Path} :
    (∃ e, NameTooLong.check path = .error e) ↔ path.isLong = true := by
  unfold NameTooLong.check
  cases path.isLong <;> simp

theorem unknowable_iff (sound : disk.Sound) (tree : disk.IsTree root base) {names : List String}
    (there : disk.Holds (base ++ names)) :
    Unknowable disk (root.append names) ↔ (root.append names).isLong = true := by
  unfold Unknowable
  rw [tree.node? sound there]
  cases (root.append names).isLong <;> simp

theorem node?_file (sound : disk.Sound) (tree : disk.IsTree root base) {bytes : List UInt8}
    (content : disk.file? (base ++ path) = some bytes)
    (known : ¬ Unknowable disk (root.append path)) :
    disk.node? (root.append path) = .ok (some (.file bytes)) := by
  have there : disk.Holds (base ++ path) := .inr (Disk.isFile_of_file? content)
  rw [unknowable_iff sound tree there] at known
  rw [tree.node? sound there, if_neg known, sound.at?_file.mpr content]

theorem spotNamed_error_iff {text : String} (inside : text ≠ "..") :
    (∃ e, spotNamed disk root inner (spotAt base path) text = .error e) ↔
      Unknowable disk (root.append (path ++ [text])) := by
  unfold spotNamed
  dsimp only
  rw [spotAt_enter base path inside, bind_error_iff]
  refine or_iff_left ?_
  rintro ⟨node?, -, e, stopped⟩
  cases node? <;> cases stopped

theorem spotsFitting_error_iff (sound : disk.Sound) (tree : disk.IsTree root base)
    (there : disk.isDirectory (base ++ path) = true) {items : List GlobItem} :
    (∃ e, spotsFitting disk root inner (spotAt base path) items = .error e) ↔
      Unknowable disk (root.append path) := by
  unfold spotsFitting
  rw [bind_pure_error_iff, unknowable_iff sound tree (.inl there)]
  exact check_error_iff

theorem spotsBy_error_iff (sound : disk.Sound) (tree : disk.IsTree root base)
    (there : disk.isDirectory (base ++ path) = true) {step : GlobStep} (stays : step ≠ .descend)
    (notAbove : step ≠ .name "..") :
    (∃ e, spotsBy disk root inner (spotAt base path) step = .error e) ↔
      Unknowable disk (root.append (path ++ step.own)) := by
  cases step with
  | descend => exact absurd rfl stays
  | name text => exact spotNamed_error_iff fun upwards => notAbove (upwards ▸ rfl)
  | pattern items =>
    rw [GlobStep.own, List.append_nil]
    exact spotsFitting_error_iff sound tree there

section Stops

variable {steps : List GlobStep}

/-- When steps stop early, from any directory below a base: they visit a path that cannot be looked
up. -/
def Stops (disk : Disk) (root : Path) (base : Place) (directoriesOnly : Bool)
    (steps : List GlobStep) : Prop :=
  ∀ {path : List String}, disk.isDirectory (base ++ path) = true →
    ((∃ e, spots disk root directoriesOnly steps (spotAt base path) = .error e) ↔
      ∃ names, Visits disk (base ++ path) steps names ∧
        Unknowable disk (root.append (path ++ names)))

theorem behind_error_iff {asked : String → Prop}
    (later : Stops disk root base directoriesOnly steps)
    (entered : ∀ s, s ∈ next ↔ ∃ name, asked name ∧
      Enters disk (directoriesOnly || !steps.isEmpty) (base ++ (path ++ [name])) ∧
      s = spotAt base (path ++ [name])) :
    (∃ e, next.mapM (spots disk root directoriesOnly steps) = .error e) ↔
      ∃ name rest, asked name ∧ disk.isDirectory (base ++ path ++ [name]) = true ∧
        Visits disk (base ++ path ++ [name]) steps rest ∧
        Unknowable disk (root.append (path ++ name :: rest)) := by
  rw [mapM_error_iff]
  constructor
  · rintro ⟨t, member, stopped⟩
    obtain ⟨name, wanted, enters, rfl⟩ := (entered _).mp member
    cases steps with
    | nil =>
      obtain ⟨e, stopped⟩ := stopped
      cases stopped
    | cons step steps =>
      have directory := enters.2 (by simp)
      obtain ⟨rest, visited, lost⟩ := (later directory).mp stopped
      rw [← List.append_assoc] at directory visited
      exact ⟨name, rest, wanted, directory, visited, List.append_cons path name rest ▸ lost⟩
  · rintro ⟨name, rest, wanted, directory, visited, lost⟩
    rw [List.append_assoc] at directory visited
    refine ⟨_, (entered _).mpr ⟨name, wanted, ⟨.inl directory, fun _ => directory⟩, rfl⟩, ?_⟩
    exact (later directory).mpr ⟨rest, visited, List.append_cons path name rest ▸ lost⟩

theorem Stops.step (sound : disk.Sound) (tree : disk.IsTree root base) {step : GlobStep}
    (stays : step ≠ .descend) (notAbove : step ≠ .name "..")
    (later : Stops disk root base directoriesOnly steps) :
    Stops disk root base directoriesOnly (step :: steps) := by
  intro path there
  rw [spots_step stays, bind_error_iff, spotsBy_error_iff sound tree there stays notAbove]
  simp only [visits_step stays, bind_pure_error_iff]
  constructor
  · rintro (lost | ⟨next, entered, stopped⟩)
    · exact ⟨_, .inl rfl, lost⟩
    · obtain ⟨name, rest, wanted, directory, visited, lost⟩ :=
        (behind_error_iff later (mem_spotsBy sound tree there stays notAbove entered)).mp stopped
      exact ⟨_, .inr ⟨name, rest, wanted, directory, visited, rfl⟩, lost⟩
  · rintro ⟨_, rfl | ⟨name, rest, wanted, directory, visited, rfl⟩, lost⟩
    · exact .inl lost
    · cases entered : spotsBy disk root (directoriesOnly || !steps.isEmpty) (spotAt base path)
          step with
      | error e => exact .inl ((spotsBy_error_iff sound tree there stays notAbove).mp ⟨e, entered⟩)
      | ok next =>
        refine .inr ⟨next, rfl, ?_⟩
        exact (behind_error_iff later (mem_spotsBy sound tree there stays notAbove entered)).mpr
          ⟨name, rest, wanted, directory, visited, lost⟩

/-- The search of a directory below stops early inside it, or when it is opened at the end. -/
theorem search_below_error_iff (sound : disk.Sound) (tree : disk.IsTree root base)
    (later : Stops disk root base directoriesOnly steps) {names : List String}
    (directory : disk.isDirectory (base ++ path ++ names) = true) :
    (∃ e, (do
      let found ← spots disk root directoriesOnly steps ((spotAt base path).below names)
      NameTooLong.check (root.append (path ++ names))
      return found) = .error e) ↔
    (∃ rest, Visits disk (base ++ path ++ names) steps rest ∧
      Unknowable disk (root.append (path ++ (names ++ rest)))) ∨
    Unknowable disk (root.append (path ++ names)) := by
  rw [List.append_assoc] at directory ⊢
  rw [unknowable_iff sound tree (.inl directory), bind_error_iff, spotAt_below, later directory]
  simp only [bind_pure_error_iff, check_error_iff, List.append_assoc]
  refine or_congr_right' fun sound => ?_
  cases found : spots disk root directoriesOnly steps (spotAt base (path ++ names)) with
  | error e => exact absurd ((later directory).mp ⟨e, found⟩) (by simpa using sound)
  | ok all => simp

theorem Stops.descend (sound : disk.Sound) (tree : disk.IsTree root base)
    (later : Stops disk root base directoriesOnly steps) :
    Stops disk root base directoriesOnly (.descend :: steps) := by
  intro path there
  rw [spots, bind_pure_error_iff, mapM_error_iff]
  simp only [visits_descend]
  constructor
  · rintro ⟨names, listed, stopped⟩
    have directory := (sound.mem_directoriesBelow there).mp listed
    rcases (search_below_error_iff sound tree later directory).mp stopped with
      ⟨rest, visited, lost⟩ | lost
    · exact ⟨names ++ rest, .inr ⟨names, rest, directory, visited, rfl⟩, lost⟩
    · exact ⟨names, .inl directory, lost⟩
  · rintro ⟨_, directory | ⟨names, rest, directory, visited, rfl⟩, lost⟩
    · exact ⟨_, (sound.mem_directoriesBelow there).mpr directory,
        (search_below_error_iff sound tree later directory).mpr (.inr lost)⟩
    · exact ⟨names, (sound.mem_directoriesBelow there).mpr directory,
        (search_below_error_iff sound tree later directory).mpr (.inl ⟨rest, visited, lost⟩)⟩

/-- Steps are followed to their end unless a path that they visit cannot be looked up. -/
theorem stops (sound : disk.Sound) (tree : disk.IsTree root base) (inside : .name ".." ∉ steps) :
    Stops disk root base directoriesOnly steps := by
  induction steps with
  | nil =>
    intro path there
    constructor
    · rintro ⟨e, stopped⟩
      cases stopped
    · rintro ⟨names, visited, -⟩
      cases visited
  | cons step steps ih =>
    obtain ⟨notAbove, insideRest⟩ := not_or.mp (mt List.mem_cons.mpr inside)
    by_cases descends : step = .descend
    · subst descends
      exact Stops.descend sound tree (ih insideRest)
    · exact Stops.step sound tree descends (Ne.symm notAbove) (ih insideRest)

end Stops

end Tree

section Files

variable {disk : Disk} {root : Path}

theorem mem_filesAmong {paths found : List (List String)}
    (looked : filesAmong disk root paths = .ok found) {path : List String} :
    path ∈ found ↔
      path ∈ paths ∧ ∃ bytes, disk.node? (root.append path) = .ok (some (.file bytes)) := by
  refine ⟨fun member => ⟨?_, Command.readable_of_filesAmong looked member⟩, ?_⟩
  · obtain ⟨nodes, all, same⟩ := bind_ok.mp looked
    cases same
    obtain ⟨found, kept, rfl⟩ := List.mem_map.mp member
    obtain ⟨path, among, read⟩ := (mapM_ok all).1 _ (List.mem_filter.mp kept).1
    obtain ⟨node?, -, same⟩ := bind_ok.mp read
    cases same
    exact among
  · rintro ⟨member, bytes, file⟩
    obtain ⟨nodes, all, same⟩ := bind_ok.mp looked
    cases same
    obtain ⟨found, among, read⟩ := (mapM_ok all).2 _ member
    obtain ⟨node?, here, same⟩ := bind_ok.mp read
    cases same
    cases here.symm.trans file
    exact List.mem_map.mpr ⟨_, List.mem_filter.mpr ⟨among, rfl⟩, rfl⟩

theorem filesAmong_error_iff {paths : List (List String)} :
    (∃ e, filesAmong disk root paths = .error e) ↔
      ∃ path ∈ paths, Unknowable disk (root.append path) := by
  unfold filesAmong
  rw [bind_pure_error_iff, mapM_error_iff]
  exact exists_congr fun path => and_congr_right fun _ => bind_pure_error_iff

end Files

end Glob

/-- A file lies below a root, by its path from the root on. -/
def Disk.HasFile (disk : Disk) (root : Path) (path : List String) : Prop :=
  ∃ base, disk.IsTree root base ∧ disk.isFile (base ++ path) = true

/-- The paths from a root on that a search looks at: what it visits on its way and, in the end,
the files that it has found. -/
def Glob.LooksAt (glob : Glob) (disk : Disk) (base : Place) (path : List String) : Prop :=
  Visits disk base (.descend :: glob.steps) path ∨
    glob.Matches path ∧ disk.isFile (base ++ path) = true

/-- The search of a root comes to its end: neither the root nor a path that it looks at is too
long to be looked up. -/
structure Glob.Completes (glob : Glob) (disk : Disk) (root : Path) : Prop where
  start : ¬ Unknowable disk root
  way : ∀ base, disk.IsTree root base → ∀ path, glob.LooksAt disk base path →
    ¬ Unknowable disk (root.append path)

namespace Glob

variable {glob : Glob} {disk : Disk} {root : Path} {base : Place}

theorem files_tree (glob : Glob) (tree : disk.IsTree root base) :
    glob.files disk root = (do
      let found ← spots disk root glob.directoriesOnly (.descend :: glob.steps) (spotAt base [])
      filesAmong disk root ((found.map Spot.path).eraseDups.mergeSort Path.inOrder)) := by
  have start : spotAt base [] = ⟨[], base⟩ := by rw [spotAt, List.append_nil]
  rw [files, Disk.node?_directory.mpr ⟨base, tree⟩, tree.located, start]
  rfl

theorem files_elsewhere (glob : Glob) {node? : Option Disk.Node}
    (looked : disk.node? root = .ok node?) (nowhere : ∀ base, ¬ disk.IsTree root base) :
    glob.files disk root = .ok [] := by
  rw [files, looked]
  rcases node? with - | (bytes | -)
  · rfl
  · rfl
  · obtain ⟨base, tree⟩ := Disk.node?_directory.mp looked
    exact absurd tree (nowhere base)

theorem StaysBelow.steps (below : glob.StaysBelow) : .name ".." ∉ GlobStep.descend :: glob.steps :=
  fun upwards => below ((List.mem_cons.mp upwards).resolve_left (by simp))

/-- What the steps of a glob end at is a directory or one of the files that it asks for. -/
theorem ends_iff {place : Place} {path : List String} :
    Fits (.descend :: glob.steps) path ∧ Ends disk glob.directoriesOnly
      (namesLast (.descend :: glob.steps)) place ↔
      Fits (.descend :: glob.steps) path ∧ disk.isDirectory place = true ∨
        glob.Matches path ∧ disk.isFile place = true := by
  constructor
  · rintro ⟨fits, directory | ⟨file, plain, named⟩⟩
    · exact .inl ⟨fits, directory⟩
    · exact .inr ⟨⟨plain, named, fits⟩, file⟩
  · rintro (⟨fits, directory⟩ | ⟨asked, file⟩)
    · exact ⟨fits, .inl directory⟩
    · exact ⟨asked.fits, .inr ⟨file, asked.plain, asked.named⟩⟩

/-- The paths that are looked up once all steps have been followed. -/
theorem mem_found (sound : disk.Sound) (tree : disk.IsTree root base) (below : glob.StaysBelow)
    {found : List Spot}
    (searched : spots disk root glob.directoriesOnly (.descend :: glob.steps) (spotAt base []) =
      .ok found) {path : List String} :
    path ∈ (found.map Spot.path).eraseDups.mergeSort Path.inOrder ↔
      Fits (.descend :: glob.steps) path ∧ disk.isDirectory (base ++ path) = true ∨
        glob.Matches path ∧ disk.isFile (base ++ path) = true := by
  have there : disk.isDirectory (base ++ []) = true := by simpa using tree.directory
  rw [List.mem_mergeSort, List.mem_eraseDups, List.mem_map, ← ends_iff]
  simp only [finds sound tree below.steps there searched, List.nil_append]
  constructor
  · rintro ⟨s, ⟨names, fits, ends, rfl⟩, rfl⟩
    exact ⟨fits, ends⟩
  · rintro ⟨fits, ends⟩
    exact ⟨_, ⟨path, fits, ends, rfl⟩, rfl⟩

/-- A search that comes to its end has found every file that the glob asks for, and nothing else. -/
theorem mem_files (sound : disk.Sound) (below : glob.StaysBelow) {all : List (List String)}
    (searched : glob.files disk root = .ok all) {path : List String} :
    path ∈ all ↔ glob.Matches path ∧ disk.HasFile root path := by
  by_cases somewhere : ∃ base, disk.IsTree root base
  · obtain ⟨base, tree⟩ := somewhere
    rw [files_tree glob tree] at searched
    obtain ⟨found, followed, looked⟩ := bind_ok.mp searched
    rw [mem_filesAmong looked, mem_found sound tree below followed]
    have knownBase : disk.HasFile root path ↔ disk.isFile (base ++ path) = true := by
      refine ⟨?_, fun file => ⟨base, tree, file⟩⟩
      rintro ⟨other, same, file⟩
      exact tree.base_eq same ▸ file
    rw [knownBase]
    constructor
    · rintro ⟨⟨-, directory⟩ | ⟨asked, file⟩, bytes, here⟩
      · rw [tree.node? sound (.inl directory), Disk.at?_directory.mpr directory] at here
        split at here <;> cases here
      · exact ⟨asked, file⟩
    · rintro ⟨asked, file⟩
      refine ⟨.inr ⟨asked, file⟩, ?_⟩
      -- The path was looked up, so it is not too long.
      have known : ¬ Unknowable disk (root.append path) := fun lost => by
        obtain ⟨e, stopped⟩ := filesAmong_error_iff.mpr
          ⟨path, (mem_found sound tree below followed).mpr (.inr ⟨asked, file⟩), lost⟩
        cases stopped.symm.trans looked
      obtain ⟨bytes, content⟩ := Option.isSome_iff_exists.mp file
      exact ⟨bytes, node?_file sound tree content known⟩
  · have nowhere : ∀ base, ¬ disk.IsTree root base := not_exists.mp somewhere
    obtain ⟨node?, looked, -⟩ := bind_ok.mp searched
    rw [files_elsewhere glob looked nowhere] at searched
    cases searched
    refine iff_of_false List.not_mem_nil ?_
    rintro ⟨-, base, tree, -⟩
    exact nowhere base tree

theorem completes_tree (tree : disk.IsTree root base) :
    glob.Completes disk root ↔
      ∀ path, glob.LooksAt disk base path → ¬ Unknowable disk (root.append path) := by
  refine ⟨fun completes => completes.way base tree, fun way => ⟨?_, fun other same => ?_⟩⟩
  · rintro ⟨e, lost⟩
    cases lost.symm.trans (Disk.node?_directory.mpr ⟨base, tree⟩)
  · exact tree.base_eq same ▸ way

theorem files_tree_error_iff (sound : disk.Sound) (below : glob.StaysBelow)
    (tree : disk.IsTree root base) :
    (∃ e, glob.files disk root = .error e) ↔ ¬ glob.Completes disk root := by
  have there : disk.isDirectory (base ++ []) = true := by simpa using tree.directory
  rw [completes_tree tree, files_tree glob tree, bind_error_iff, stops sound tree below.steps there]
  simp only [filesAmong_error_iff, List.nil_append, List.append_nil, not_forall, not_not]
  constructor
  · rintro (⟨path, visited, lost⟩ | ⟨found, followed, path, member, lost⟩)
    · exact ⟨path, .inl visited, lost⟩
    · rcases (mem_found sound tree below followed).mp member with ⟨-, directory⟩ | asked
      · exact ⟨path, .inl (.opened directory), lost⟩
      · exact ⟨path, .inr asked, lost⟩
  · rintro ⟨path, visited | asked, lost⟩
    · exact .inl ⟨path, visited, lost⟩
    · cases followed : spots disk root glob.directoriesOnly (.descend :: glob.steps)
        (spotAt base []) with
      | error e =>
        left
        simpa using (stops sound tree below.steps there).mp ⟨e, followed⟩
      | ok found =>
        have member := (mem_found sound tree below followed).mpr (.inr asked)
        exact .inr ⟨found, rfl, path, member, lost⟩

theorem files_error_iff (sound : disk.Sound) (below : glob.StaysBelow) :
    (∃ e, glob.files disk root = .error e) ↔ ¬ glob.Completes disk root := by
  by_cases somewhere : ∃ base, disk.IsTree root base
  · obtain ⟨base, tree⟩ := somewhere
    exact files_tree_error_iff sound below tree
  · have nowhere : ∀ base, ¬ disk.IsTree root base := not_exists.mp somewhere
    cases looked : disk.node? root with
    | error e =>
      have stopped : glob.files disk root = .error e := by
        rw [files, looked]
        rfl
      exact iff_of_true ⟨e, stopped⟩ fun completes => completes.start ⟨e, looked⟩
    | ok node? =>
      rw [files_elsewhere glob looked nowhere]
      refine iff_of_false (by simp) (not_not.mpr ⟨?_, fun base tree => absurd tree (nowhere base)⟩)
      rintro ⟨e, lost⟩
      cases lost.symm.trans looked

theorem Completes.node?_file (sound : disk.Sound) (completes : glob.Completes disk root)
    (tree : disk.IsTree root base) {path : List String} (asked : glob.Matches path)
    {bytes : List UInt8} (content : disk.file? (base ++ path) = some bytes) :
    disk.node? (root.append path) = .ok (some (.file bytes)) := by
  have file := Disk.isFile_of_file? content
  exact Glob.node?_file sound tree content (completes.way base tree path (.inr ⟨asked, file⟩))

theorem visits_names {place : Place} {names path : List String} {steps : List GlobStep}
    (there : disk.isDirectory (place ++ names) = true)
    (behind : Visits disk (place ++ names) steps path) :
    Visits disk place (names.map .name ++ steps) (names ++ path) := by
  induction names generalizing place with
  | nil => simpa using behind
  | cons name rest ih =>
    rw [List.append_cons] at there behind
    exact .behindName (Disk.isDirectory_of_append there) (ih there behind)

theorem unknowable_of_isLong {path : Path} (holdable : path.holdsNul = false)
    (long : path.isLong = true) : Unknowable disk path :=
  ⟨⟨path⟩, by rw [Disk.node?, holdable, Disk.locate, if_pos long]; rfl⟩

theorem unknowable_of_longName (sound : disk.Sound) (tree : disk.IsTree root base)
    {front : List String} (there : disk.isDirectory (base ++ front) = true) {text : String}
    (holdable : '\x00' ∉ text.toList) (long : Path.componentLimit < text.utf8ByteSize) :
    Unknowable disk (root.append (front ++ [text])) := by
  have legal := sound.names (.inl there)
  have possible : (root.append (front ++ [text])).holdsNul = false := by
    refine tree.append_holdable fun name member => ?_
    rcases List.mem_append.mp member with above | last
    · exact (legal name (List.mem_append_right _ above)).noNul
    · exact List.mem_singleton.mp last ▸ holdable
  have lost : disk.locate (root.append (front ++ [text])) = .error .tooLong := by
    rw [tree.locate sound there, Disk.walk, if_pos there, if_pos long, ite_self]
  exact ⟨_, by rw [Disk.node?, possible, lost]; rfl⟩

/-- A search that looks for a name in a directory does not come to its end when the name is longer
than the name of anything can be. -/
theorem Completes.short (sound : disk.Sound) (front : List String) {text : String}
    {steps : List GlobStep} {directoriesOnly : Bool}
    (completes : Completes ⟨front.map .name ++ .name text :: steps, directoriesOnly⟩ disk root)
    (tree : disk.IsTree root base) (there : disk.isDirectory (base ++ front) = true)
    (holdable : '\x00' ∉ text.toList) : text.utf8ByteSize ≤ Path.componentLimit := by
  refine Nat.le_of_not_lt fun long => ?_
  have root : disk.isDirectory (base ++ []) = true := by simpa using tree.directory
  have visited : Visits disk base (.descend :: (front.map .name ++ .name text :: steps))
      ([] ++ (front ++ [text])) := by
    refine .behindDirectories root (visits_names ?_ .lookedUp)
    rwa [List.append_nil]
  exact completes.way base tree _ (.inl visited)
    (unknowable_of_longName sound tree there holdable long)

end Glob

end Files

end RecordCompat
