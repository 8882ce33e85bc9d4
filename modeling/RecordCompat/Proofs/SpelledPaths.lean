import RecordCompat.Command.Arguments
import RecordCompat.Files.Glob
import RecordCompat.Proofs.SoundDisks

/-! Paths that are spelled out. Components joined by slashes are read back as they were, by a path
and, when they hold no wildcards, by a glob. So a path below a root is told by its text. As an
argument it is an operand or a value when it holds no hyphen. -/
namespace RecordCompat

namespace Files

structure IsComponent (name : String) : Prop where
  nonempty : name ≠ ""
  notHere : name ≠ "."
  noSlash : '/' ∉ name.toList

theorem IsFileName.isComponent {name : String} (legal : IsFileName name) : IsComponent name :=
  ⟨legal.nonempty, legal.notHere, legal.noSlash⟩

/-- The names on the way to something below a root. -/
def IsFilePath (parts : List String) : Prop :=
  parts ≠ [] ∧ ∀ name ∈ parts, IsFileName name

theorem components_joined {parts : List String} (nonempty : parts ≠ [])
    (each : ∀ name ∈ parts, IsComponent name) :
    Path.components (Path.joined parts).toList = parts := by
  have split : (Path.joined parts).toList.splitOnP (· = '/') = parts.map String.toList := by
    rw [Path.joined, String.toList_intercalate]
    refine List.splitOn_intercalate '/' ?_ (by simpa using nonempty)
    simp only [List.mem_map, forall_exists_index, and_imp, forall_apply_eq_imp_iff₂]
    exact fun name member => (each name member).noSlash
  have kept : (parts.map String.toList).filter (fun part => part ≠ [] ∧ part ≠ ['.']) =
      parts.map String.toList := by
    refine List.filter_eq_self.mpr fun part member => ?_
    obtain ⟨name, among, rfl⟩ := List.mem_map.mp member
    have nonempty := (each name among).nonempty
    have notHere : name.toList ≠ ".".toList := mt String.toList_inj.mp (each name among).notHere
    simpa using ⟨nonempty, notHere⟩
  rw [Path.components, split, kept, List.map_map]
  simp [Function.comp_def]

theorem ofString_joined {parts : List String} (nonempty : parts ≠ [])
    (each : ∀ name ∈ parts, IsComponent name) :
    Path.ofString (Path.joined parts) = ⟨0, parts⟩ := by
  have relative : (Path.joined parts).toList.takeWhile (· = '/') = [] := by
    cases parts with
    | nil => exact absurd rfl nonempty
    | cons name rest =>
      have legal := each name List.mem_cons_self
      rw [Path.joined, String.toList_intercalate, List.map_cons]
      cases chars : name.toList with
      | nil => exact absurd (String.toList_eq_nil_iff.mp chars) legal.nonempty
      | cons first later =>
        have noSlash : first ≠ '/' := fun slash => legal.noSlash (by simp [chars, slash])
        cases rest with
        | nil => simp [noSlash]
        | cons second rest => simp [List.intercalate_cons_cons, noSlash]
  unfold Path.ofString
  rw [relative, components_joined nonempty each]
  rfl

theorem wildcard_of_starPair {chars : List Char} (pair : hasStarPair chars = true) :
    hasWildcard chars = true := by
  induction chars with
  | nil => cases pair
  | cons c rest ih =>
    simp only [hasStarPair, Bool.or_eq_true, Bool.and_eq_true] at pair
    simp only [hasWildcard, List.any_cons, Bool.or_eq_true]
    exact pair.imp (fun both => .inl (.inl both.1)) ih

theorem joined_singleton (name : String) : Path.joined [name] = name := by
  rw [← String.toList_inj, Path.joined, String.toList_intercalate]
  simp

theorem joined_cons (name second : String) (rest : List String) :
    Path.joined (name :: second :: rest) = name ++ "/" ++ Path.joined (second :: rest) :=
  String.intercalate_cons_cons

theorem getLast_joined {parts : List String} (nonempty : parts ≠ [])
    (each : ∀ name ∈ parts, IsComponent name) :
    (Path.joined parts).toList.getLast? ≠ some '/' := by
  induction parts with
  | nil => exact absurd rfl nonempty
  | cons name rest ih =>
    obtain ⟨here, later⟩ := List.forall_mem_cons.mp each
    cases rest with
    | nil =>
      rw [joined_singleton]
      exact fun last => here.noSlash (List.mem_of_getLast? last)
    | cons second rest =>
      have behind := ih (by simp) later
      have some : (Path.joined (second :: rest)).toList ≠ [] := fun none => by
        have read := components_joined (List.cons_ne_nil second rest) later
        rw [none] at read
        cases read
      rw [joined_cons, String.toList_append, List.getLast?_append,
        List.getLast?_eq_some_getLast some, Option.some_or, ← List.getLast?_eq_some_getLast some]
      exact behind

theorem read_joined {parts : List String} (nonempty : parts ≠ [])
    (each : ∀ name ∈ parts, IsComponent name)
    (plain : ∀ name ∈ parts, hasWildcard name.toList = false) :
    Glob.read (Path.joined parts) = .ok ⟨parts.map .name, false⟩ := by
  have steps : parts.mapM GlobStep.read = .ok (parts.map .name) := by
    clear nonempty each
    induction parts with
    | nil => rfl
    | cons name rest ih =>
      have noWildcard := plain name List.mem_cons_self
      have other : name ≠ "**" := by
        rintro rfl
        exact absurd noWildcard (by decide)
      have single : ¬ hasStarPair name.toList = true := fun pair => by
        simp [wildcard_of_starPair pair] at noWildcard
      have step : GlobStep.read name = .ok (.name name) := by
        unfold GlobStep.read
        rw [if_neg other, if_neg single, if_neg (by simp [noWildcard])]
      rw [List.mapM_cons, step, ih fun other member => plain other (List.mem_cons_of_mem _ member)]
      rfl
  unfold Glob.read
  rw [ofString_joined nonempty each]
  dsimp only
  rw [steps, decide_eq_false (getLast_joined nonempty each)]
  rfl

/-- A glob that is spelled of names does not lead upwards when none of them does. -/
theorem read_joined_below {parts : List String} (nonempty : parts ≠ [])
    (each : ∀ name ∈ parts, IsComponent name)
    (plain : ∀ name ∈ parts, hasWildcard name.toList = false) (inside : ".." ∉ parts) :
    Glob.read (Path.joined parts) = .ok ⟨parts.map .name, false⟩ ∧
      ".." ∉ (Path.ofString (Path.joined parts)).parts :=
  ⟨read_joined nonempty each plain, by rwa [ofString_joined nonempty each]⟩

theorem joined_inj {parts others : List String} (legal : IsFilePath parts)
    (legal' : IsFilePath others) (same : Path.joined parts = Path.joined others) :
    parts = others := by
  have back {parts : List String} (legal : IsFilePath parts) :=
    components_joined legal.1 fun name member => (legal.2 name member).isComponent
  rw [← back legal, ← back legal', same]

theorem not_mem_joined {c : Char} (noSlash : c ≠ '/') {parts : List String}
    (each : ∀ name ∈ parts, c ∉ name.toList) : c ∉ (Path.joined parts).toList := by
  induction parts with
  | nil => exact List.not_mem_nil
  | cons name rest ih =>
    obtain ⟨here, later⟩ := List.forall_mem_cons.mp each
    cases rest with
    | nil => rwa [joined_singleton]
    | cons second rest =>
      rw [joined_cons, String.toList_append, String.toList_append]
      simpa using ⟨here, noSlash, ih later⟩

def spelledSize : List String → Nat
  | [] => 0
  | name :: rest => name.utf8ByteSize + 1 + spelledSize rest

theorem spelledSize_append (parts others : List String) :
    spelledSize (parts ++ others) = spelledSize parts + spelledSize others := by
  induction parts with
  | nil => simp [spelledSize]
  | cons name rest ih =>
    rw [List.cons_append, spelledSize, spelledSize, ih]
    omega

theorem spelledSize_replicate (n : Nat) (name : String) :
    spelledSize (List.replicate n name) = n * (name.utf8ByteSize + 1) := by
  induction n with
  | zero => simp [spelledSize]
  | succ n ih => rw [List.replicate_succ, spelledSize, ih, Nat.succ_mul, Nat.add_comm]

theorem size_joined {parts : List String} (nonempty : parts ≠ []) :
    (Path.joined parts).utf8ByteSize + 1 = spelledSize parts := by
  induction parts with
  | nil => exact absurd rfl nonempty
  | cons name rest ih =>
    cases rest with
    | nil => rw [joined_singleton, spelledSize, spelledSize, Nat.add_zero]
    | cons second rest =>
      have slash : "/".utf8ByteSize = 1 := by decide
      rw [joined_cons, String.utf8ByteSize_append, String.utf8ByteSize_append, slash, spelledSize,
        ← ih (by simp)]
      omega

theorem isLong_relative {parts : List String} (nonempty : parts ≠ []) :
    (Path.mk 0 parts).isLong = true ↔
      Path.lengthLimit + 1 < spelledSize parts := by
  have text : (Path.mk 0 parts).toString = Path.joined parts := by
    simp [Path.toString, nonempty]
  rw [← size_joined nonempty, Path.isLong, text, decide_eq_true_eq]
  omega

theorem ofString_name {name : String} (legal : IsComponent name) :
    Path.ofString name = ⟨0, [name]⟩ := by
  have read := ofString_joined (List.cons_ne_nil name []) (by simpa using legal)
  rwa [joined_singleton] at read

theorem isTree_of_name {disk : Disk} {name : String} (legal : IsFileName name)
    (there : disk.isDirectory (disk.here ++ [name]) = true) :
    disk.IsTree (.ofString name) (disk.here ++ [name]) := by
  have short : ¬ (Path.mk 0 [name]).isLong = true := by
    have limit := legal.short
    rw [isLong_relative (by simp)]
    simp only [Path.componentLimit, Path.lengthLimit, spelledSize] at limit ⊢
    omega
  rw [ofString_name legal.isComponent]
  refine ⟨by simpa [Path.holdsNul] using legal.noNul, ?_, there⟩
  rw [Disk.locate, if_neg short, if_pos rfl, Disk.walk, if_pos (Disk.isDirectory_of_append there),
    if_neg (Nat.not_lt.mpr legal.short), Disk.move, if_neg legal.notAbove, Disk.walk]

/-- A name that is too long is not even looked for in the current directory. -/
theorem node?_longName (disk : Disk) {name : String} (legal : IsComponent name)
    (holdable : '\x00' ∉ name.toList) (long : Path.componentLimit < name.utf8ByteSize) :
    disk.node? (.ofString name) = .error ⟨.ofString name⟩ := by
  rw [ofString_name legal]
  have here : disk.isDirectory disk.here = true :=
    Disk.isDirectory_iff.mpr (.inr (.inl List.prefix_rfl))
  have possible : (Path.mk 0 [name]).holdsNul = false := by
    simpa [Path.holdsNul] using holdable
  have lost : disk.locate ⟨0, [name]⟩ = .error .tooLong := by
    rw [Disk.locate, if_pos rfl, Disk.walk, if_pos here, if_pos long, ite_self]
  rw [Disk.node?, possible, lost]
  rfl

def letters (n : Nat) : String :=
  String.ofList (List.replicate n 'a')

theorem toList_letters (n : Nat) : (letters n).toList = List.replicate n 'a' :=
  String.toList_ofList

theorem size_letters (n : Nat) : (letters n).utf8ByteSize = n := by
  unfold letters
  induction n with
  | zero => rfl
  | succ n ih =>
    rw [List.replicate_succ, String.ofList_cons, String.utf8ByteSize_append, ih,
      String.utf8ByteSize_singleton, Nat.add_comm]
    rfl

theorem not_mem_letters {n : Nat} {c : Char} (other : c ≠ 'a') : c ∉ (letters n).toList := by
  rw [toList_letters]
  exact fun member => other (List.eq_of_mem_replicate member)

theorem ne_letters {n : Nat} {text : String} {c : Char} (member : c ∈ text.toList)
    (other : c ≠ 'a') : letters n ≠ text := by
  rintro rfl
  exact not_mem_letters other member

theorem holdable_letters (n : Nat) : '\x00' ∉ (letters n).toList :=
  not_mem_letters (by decide)

theorem plain_letters (n : Nat) : hasWildcard (letters n).toList = false := by
  simp [toList_letters, hasWildcard]

theorem isComponent_letters {n : Nat} (positive : 0 < n) : IsComponent (letters n) := by
  constructor
  case nonempty =>
    intro same
    have size := size_letters n
    rw [same] at size
    exact absurd size.symm (Nat.ne_of_gt positive)
  case notHere => exact ne_letters (c := '.') (by decide) (by decide)
  case noSlash => exact not_mem_letters (by decide)

theorem isFileName_letters {n : Nat} (positive : 0 < n) (short : n ≤ Path.componentLimit) :
    IsFileName (letters n) := by
  obtain ⟨nonempty, notHere, noSlash⟩ := isComponent_letters positive
  refine ⟨nonempty, notHere, ?_, noSlash, holdable_letters n, by rwa [size_letters]⟩
  exact ne_letters (c := '.') (by decide) (by decide)

theorem read_letters {n : Nat} (positive : 0 < n) :
    Glob.read (letters n) = .ok ⟨[.name (letters n)], false⟩ ∧
      ".." ∉ (Path.ofString (letters n)).parts := by
  have notAbove : letters n ≠ ".." := ne_letters (c := '.') (by decide) (by decide)
  have read := read_joined_below (List.cons_ne_nil (letters n) [])
    (by simpa using isComponent_letters positive) (by simpa using plain_letters n)
    (by simpa using notAbove.symm)
  rwa [joined_singleton] at read

end Files

namespace Command

theorem Token.read_operand {text : String} (plain : '-' ∉ text.toList) :
    Token.read text = .ok (.operand text) := by
  have spelled : ∀ option ∈ spellings, '-' ∈ option.1.toList := by decide
  have unspelled : spellings.lookup text = none := by
    rw [List.lookup_eq_none_iff]
    intro option member
    rw [bne_iff_ne]
    rintro rfl
    exact plain (spelled option member)
  have first : ∀ rest, text.toList ≠ '-' :: rest := fun rest same => plain (by simp [same])
  unfold Token.read
  rw [unspelled]
  split
  next known => cases known
  next dashes => exact absurd dashes (first _)
  next dash => exact absurd dash (first _)
  next _ dash => exact absurd dash (first _)
  next => rfl

section Arguments

variable {old new : String}

theorem ne_dashes {text : String} (plain : '-' ∉ text.toList) : text ≠ "--" := by
  rintro rfl
  exact plain (by decide)

theorem Options.read_operands (plainOld : '-' ∉ old.toList) (plainNew : '-' ∉ new.toList) :
    Options.read [old, new] = .ok ⟨some old, some new, some .text, none, "*.kt", [], false⟩ := by
  unfold Options.read
  simp only [List.takeWhile, List.dropWhile, ne_dashes plainOld, ne_dashes plainNew, ne_eq,
    not_false_eq_true, decide_true, List.mapM_cons, List.mapM_nil, Token.read_operand plainOld,
    Token.read_operand plainNew]
  rfl

theorem Options.read_pattern {pattern : String} (plainOld : '-' ∉ old.toList)
    (plainNew : '-' ∉ new.toList) (plain : '-' ∉ pattern.toList) :
    Options.read [old, new, "--pattern", pattern] =
      .ok ⟨some old, some new, some .text, none, pattern, [], false⟩ := by
  have option : Token.read "--pattern" = .ok (.flag .pattern) := rfl
  have other : "--pattern" ≠ "--" := by decide
  unfold Options.read
  simp only [List.takeWhile, List.dropWhile, ne_dashes plainOld, ne_dashes plainNew,
    ne_dashes plain, other, ne_eq, not_false_eq_true, decide_true, List.mapM_cons, List.mapM_nil,
    Token.read_operand plainOld, Token.read_operand plainNew, Token.read_operand plain, option]
  rfl

end Arguments

end Command

end RecordCompat
