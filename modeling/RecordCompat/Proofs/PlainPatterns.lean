import RecordCompat.Proofs.DecidingLines
import RecordCompat.Proofs.PatternPieces
import RecordCompat.Proofs.SpelledPaths

/-! Plain exclusion patterns: a directory by its name, and names by their ending. Such a line is
read as a few pieces behind one that skips any directories. So it matches just the paths with a
directory of that name, or with a component that ends so, and a list of such lines excludes the
paths that one of them matches. -/
namespace RecordCompat.Files

open Source Text

/-- A pattern of one of the two plain forms. -/
inductive PlainPattern
  | directory (name : String)
  | ending (text : String)
  deriving DecidableEq, Repr

namespace PlainPattern

def line : PlainPattern → String
  | directory name => name ++ "/"
  | ending text => "*" ++ text

def WellFormed : PlainPattern → Prop
  | directory name => IsName name.toList
  | ending text => text ≠ "" ∧ ∀ c ∈ text.toList, isWord c = true ∨ c = '.'

instance (pattern : PlainPattern) : Decidable pattern.WellFormed := by
  cases pattern <;> unfold WellFormed <;> infer_instance

/-- What a pattern is meant to match: a path through a directory of the name, or a path with a
component that ends so. -/
def Meets (parts : List String) : PlainPattern → Prop
  | directory name => name ∈ parts.dropLast
  | ending text => ∃ part ∈ parts, text.toList <:+ part.toList

def rule : PlainPattern → IgnoreRule
  | directory name => .shape (.anyFront :: (name.toList.map .char ++ [.content true]))
  | ending text => .shape (.anyFront :: .anyText :: (text.toList.map .char ++ [.finish]))

end PlainPattern

/-- The characters with a meaning of their own in a line. -/
def lineMarks : List Char :=
  ['\\', '*', '?', '[', '/', '#', '!']

def Ordinary (c : Char) : Prop :=
  c ∉ lineMarks ∧ isBlank c = false

theorem ordinary_of_isWord {c : Char} (word : isWord c = true) : Ordinary c := by
  refine ⟨fun member => ?_, isBlank_of_isWord word⟩
  have noWord : ∀ c ∈ lineMarks, isWord c = false := by decide
  rw [noWord c member] at word
  cases word

theorem not_mem_ordinary {text : List Char} (all : ∀ c ∈ text, Ordinary c) {d : Char}
    (mark : d ∈ lineMarks) : d ∉ text :=
  fun member => (all d member).1 mark

theorem ne_of_not_mem {text other : List Char} {c : Char} (outside : c ∉ text)
    (member : c ∈ other) : text ≠ other := by
  rintro rfl
  exact outside member

theorem readSegment_ordinary {text : List Char} (all : ∀ c ∈ text, Ordinary c) :
    IgnorePiece.readSegment text = .ok (text.map .char) := by
  induction text with
  | nil => rw [IgnorePiece.readSegment]; rfl
  | cons c rest ih =>
    obtain ⟨first, later⟩ := List.forall_mem_cons.mp all
    have plain := first.1
    simp only [lineMarks, List.mem_cons, List.not_mem_nil, not_or, or_false] at plain
    -- The last equation of the reader is for characters that none of the others is for.
    rw [IgnorePiece.readSegment, ih later]
    · rfl
    all_goals intros
    all_goals simp_all

theorem readSegment_star {text : List Char} (all : ∀ c ∈ text, Ordinary c) :
    IgnorePiece.readSegment ('*' :: text) = .ok (.anyText :: text.map .char) := by
  rw [IgnorePiece.readSegment, readSegment_ordinary all]
  rfl

/-- A line that no blank ends and no mark begins is read as its segments are. -/
theorem read_of_segments {line : String} (segments : List (List Char)) {rule : IgnoreRule}
    (last : ∀ c, line.toList.getLast? = some c → isBlank c = false)
    (first : ∀ c, line.toList.head? = some c → c ∉ ['#', '!', '/'])
    (anchored : anchoredSegments line.toList = segments) (nonempty : segments ≠ [])
    (read : IgnoreRule.ofSegments (line.toList.getLast? = some '/')
      (collapse (openEnded segments)) = .ok rule) (ranges : rule.hasEmptyRange = false) :
    IgnoreLine.read line = .ok (some ⟨false, rule⟩) := by
  have trimmed : IgnoreLine.trim line.toList = line.toList := by
    unfold IgnoreLine.trim
    split
    · rfl
    · have kept := @stripRight_blanks line.toList [] (by simp) last
      rwa [List.append_nil] at kept
  have written : line.toList ≠ [] := by
    intro empty
    rw [empty] at anchored
    exact nonempty anchored.symm
  have starts (c : Char) (mark : c ∈ ['#', '!', '/']) : line.toList.head? ≠ some c :=
    fun head => first c head mark
  have noSlash : line.toList ≠ ['/'] := fun same => starts '/' (by simp) (by rw [same]; rfl)
  unfold IgnoreLine.read
  simp only [trimmed, written, starts '#' (by simp), starts '!' (by simp), noSlash, or_self,
    if_false, decide_false, Bool.false_eq_true, anchored, nonempty, read, ranges]

namespace PlainPattern

section Directory

variable {name : String} (isName : IsName name.toList)
include isName

theorem ordinary_of_isName : ∀ c ∈ name.toList, Ordinary c :=
  fun c member => ordinary_of_isWord (isName.2 c member)

theorem no_stars : name.toList ≠ anyDirectories ∧ name.toList ≠ ['*'] := by
  have outside := not_mem_ordinary (d := '*') (ordinary_of_isName isName) (by decide)
  exact ⟨ne_of_not_mem outside (by decide), ne_of_not_mem outside (by decide)⟩

theorem anchored_directory : anchoredSegments (name.toList ++ ['/']) =
    [anyDirectories, name.toList, []] := by
  have split : (name.toList ++ ['/']).splitOnP (· = '/') = [name.toList, []] :=
    List.splitOn_append_cons_self_of_not_mem
      (not_mem_ordinary (ordinary_of_isName isName) (by decide)) []
  have noStars := (no_stars isName).1
  obtain ⟨c, rest, chars⟩ := List.exists_cons_of_ne_nil isName.1
  unfold anchoredSegments
  rw [split]
  rw [chars] at noStars ⊢
  simp [noStars]

theorem ofSegments_directory : IgnoreRule.ofSegments true
    (collapse (openEnded [anyDirectories, name.toList, []])) = .ok (directory name).rule := by
  obtain ⟨noStars, noStar⟩ := no_stars isName
  have pieces : IgnorePiece.readSegments true [anyDirectories, name.toList, anyDirectories] =
      .ok (.anyFront :: (name.toList.map .char ++ [.content true])) := by
    simp [IgnorePiece.readSegments, IgnorePiece.readLater, noStars, noStar,
      readSegment_ordinary (ordinary_of_isName isName)]
    rfl
  have collapsed : collapse (openEnded [anyDirectories, name.toList, []]) =
      [anyDirectories, name.toList, anyDirectories] := by
    simp [openEnded, collapse, noStars]
  rw [collapsed]
  unfold IgnoreRule.ofSegments
  simp [noStar, pieces]
  rfl

theorem read_directory :
    IgnoreLine.read (directory name).line = .ok (some ⟨false, (directory name).rule⟩) := by
  have text : (directory name).line.toList = name.toList ++ ['/'] := by
    rw [line, String.toList_append]
    rfl
  obtain ⟨c, rest, chars⟩ := List.exists_cons_of_ne_nil isName.1
  apply read_of_segments [anyDirectories, name.toList, []]
  case last =>
    intro d last
    rw [text, List.getLast?_append] at last
    obtain rfl := Option.some.inj last
    decide
  case first =>
    intro d head
    rw [text, chars] at head
    obtain rfl := Option.some.inj head
    have ordinary := ordinary_of_isName isName c (by rw [chars]; exact List.mem_cons_self)
    have marks : ∀ d ∈ ['#', '!', '/'], d ∈ lineMarks := by decide
    exact fun mark => ordinary.1 (marks c mark)
  case anchored => rw [text, anchored_directory isName]
  case nonempty => simp
  case read =>
    have slash : (name.toList ++ ['/']).getLast? = some '/' := List.getLast?_concat
    rw [text, decide_eq_true slash, ofSegments_directory isName]
  case ranges => simp [rule, IgnoreRule.hasEmptyRange, IgnorePiece.hasEmptyRange]

end Directory

section Ending

variable {text : String} (all : ∀ c ∈ text.toList, Ordinary c)
include all

theorem anchored_ending :
    anchoredSegments ('*' :: text.toList) = [anyDirectories, '*' :: text.toList] ∧
      '*' :: text.toList ≠ anyDirectories := by
  have noSlash : '/' ∉ '*' :: text.toList := by
    rw [List.mem_cons, not_or]
    exact ⟨by decide, not_mem_ordinary all (by decide)⟩
  have split : ('*' :: text.toList).splitOnP (· = '/') = ['*' :: text.toList] :=
    List.splitOn_eq_singleton noSlash
  have outside : '*' ∉ text.toList := not_mem_ordinary all (by decide)
  have noStars : '*' :: text.toList ≠ anyDirectories :=
    fun same => ne_of_not_mem outside (by decide) (List.cons.inj same).2
  refine ⟨?_, noStars⟩
  unfold anchoredSegments
  rw [split]
  simp [noStars]

variable (nonempty : text.toList ≠ [])
include nonempty

theorem ofSegments_ending (mark : Bool) : IgnoreRule.ofSegments mark
    (collapse (openEnded [anyDirectories, '*' :: text.toList])) = .ok (ending text).rule := by
  obtain ⟨-, noStars⟩ := anchored_ending all
  have pieces (mark : Bool) :
      IgnorePiece.readSegments mark [anyDirectories, '*' :: text.toList] =
        .ok (.anyFront :: .anyText :: (text.toList.map .char ++ [.finish])) := by
    simp [IgnorePiece.readSegments, IgnorePiece.readLater, noStars, nonempty,
      readSegment_star all]
    rfl
  have collapsed : collapse (openEnded [anyDirectories, '*' :: text.toList]) =
      [anyDirectories, '*' :: text.toList] := by
    simp [openEnded, collapse, noStars]
  rw [collapsed]
  unfold IgnoreRule.ofSegments
  simp [nonempty, pieces]
  rfl

theorem read_ending :
    IgnoreLine.read (ending text).line = .ok (some ⟨false, (ending text).rule⟩) := by
  have spelled : (ending text).line.toList = '*' :: text.toList := by
    rw [line, String.toList_append]
    rfl
  apply read_of_segments [anyDirectories, '*' :: text.toList]
  case last =>
    intro c last
    rw [spelled, List.getLast?_cons_of_ne_nil nonempty] at last
    exact (all c (List.mem_of_getLast? last)).2
  case first =>
    intro c head
    rw [spelled] at head
    obtain rfl := Option.some.inj head
    decide
  case anchored => rw [spelled, (anchored_ending all).1]
  case nonempty => simp
  case read => exact ofSegments_ending all nonempty _
  case ranges => simp [rule, IgnoreRule.hasEmptyRange, IgnorePiece.hasEmptyRange]

end Ending

theorem read_line {pattern : PlainPattern} (wellFormed : pattern.WellFormed) :
    IgnoreLine.read pattern.line = .ok (some ⟨false, pattern.rule⟩) := by
  cases pattern with
  | directory name => exact read_directory wellFormed
  | ending text =>
    obtain ⟨written, chars⟩ := wellFormed
    refine read_ending (fun c member => ?_) (mt String.toList_eq_nil_iff.mp written)
    rcases chars c member with word | rfl
    · exact ordinary_of_isWord word
    · exact ⟨by decide, by decide⟩

theorem read_lines {patterns : List PlainPattern} (wellFormed : ∀ p ∈ patterns, p.WellFormed) :
    Ignore.read (patterns.map line) = .ok (patterns.map fun p => ⟨false, p.rule⟩) := by
  induction patterns with
  | nil => rfl
  | cons pattern patterns ih =>
    obtain ⟨first, later⟩ := List.forall_mem_cons.mp wellFormed
    rw [List.map_cons, Ignore.read_cons (read_line first), ih later]
    rfl

end PlainPattern

def OneLine (parts : List String) : Prop :=
  ∀ part ∈ parts, IsComponent part ∧ '\n' ∉ part.toList

theorem joined_toList (parts : List String) :
    (Path.joined parts).toList = joinedNames (parts.map String.toList) :=
  String.toList_intercalate

section Path

variable {parts : List String}

theorem OneLine.each (oneLine : OneLine parts) :
    ∀ name ∈ parts.map String.toList, name ≠ [] ∧ '/' ∉ name := by
  intro name member
  obtain ⟨part, among, rfl⟩ := List.mem_map.mp member
  obtain ⟨legal, -⟩ := oneLine part among
  exact ⟨mt String.toList_eq_nil_iff.mp legal.nonempty, legal.noSlash⟩

theorem OneLine.not_mem (oneLine : OneLine parts) :
    '\n' ∉ joinedNames (parts.map String.toList) := by
  rw [← joined_toList]
  exact not_mem_joined (by decide) fun part member => (oneLine part member).2

theorem fitFront_parts (oneLine : OneLine parts) (nonempty : parts ≠ [])
    (pieces : List IgnorePiece) :
    FitFront (.anyFront :: pieces) (Path.joined parts).toList ↔ ∃ before part behind,
      parts = before ++ part :: behind ∧
        FitFront pieces (joinedNames (part.toList :: behind.map String.toList)) := by
  rw [joined_toList, fitFront_components (by simpa using nonempty) oneLine.each oneLine.not_mem]
  constructor
  · rintro ⟨before, name, behind, same, fits⟩
    obtain ⟨first, later, rfl, rfl, split⟩ := List.map_eq_append_iff.mp same
    obtain ⟨part, rest, rfl, rfl, rfl⟩ := List.map_eq_cons_iff.mp split
    exact ⟨first, part, rest, rfl, fits⟩
  · rintro ⟨before, part, behind, rfl, fits⟩
    exact ⟨before.map String.toList, part.toList, behind.map String.toList, by simp, fits⟩

theorem fit_directory (oneLine : OneLine parts) (nonempty : parts ≠ []) {name : String}
    (isName : IsName name.toList) :
    FitFront (.anyFront :: (name.toList.map .char ++ [.content true])) (Path.joined parts).toList ↔
      name ∈ parts.dropLast := by
  have noSlash' : '/' ∉ name.toList := isName.not_mem (by decide)
  rw [fitFront_parts oneLine nonempty]
  simp only [fitFront_word, fitFront_content]
  constructor
  · rintro ⟨before, part, behind, rfl, rest, split, slash⟩
    have noSlash := (oneLine part (by simp)).1.noSlash
    obtain ⟨same, rfl⟩ := (first_component noSlash noSlash' (.inr slash)).mp split
    obtain rfl := String.toList_inj.mp same
    rcases behindFirst_cases (behind.map String.toList) with ⟨-, none⟩ | ⟨later, -⟩
    · rw [none] at slash
      cases slash
    · have nonempty : behind ≠ [] := by simpa using later
      rw [List.dropLast_append_of_ne_nil (by simp), List.dropLast_cons_of_ne_nil nonempty]
      simp
  · intro member
    obtain ⟨before, behind, front⟩ := List.append_of_mem member
    have whole : parts = before ++ name :: (behind ++ [parts.getLast nonempty]) := by
      have split := List.dropLast_append_getLast nonempty
      rw [front] at split
      simpa using split.symm
    have slash : (behindFirst ((behind ++ [parts.getLast nonempty]).map String.toList)).head? =
        some '/' := by
      simp [behindFirst]
    exact ⟨before, name, _, whole, _, joinedNames_cons _ _, slash⟩

theorem fit_ending (oneLine : OneLine parts) (nonempty : parts ≠ []) {text : List Char}
    (noSlash' : '/' ∉ text) :
    FitFront (.anyFront :: .anyText :: (text.map .char ++ [.finish])) (Path.joined parts).toList ↔
      ∃ part ∈ parts, text <:+ part.toList := by
  have feed {before behind : List String} {part : String} (split : parts = before ++ part :: behind)
      {front rest : List Char}
      (text : joinedNames (part.toList :: behind.map String.toList) = front ++ rest) :
      '\n' ∉ rest := by
    have later : OneLine (part :: behind) := by
      intro name member
      apply oneLine name
      rw [split]
      exact List.mem_append_right before member
    have noFeed := later.not_mem
    rw [List.map_cons, text] at noFeed
    exact fun member => noFeed (List.mem_append_right front member)
  rw [fitFront_parts oneLine nonempty]
  simp only [fitFront_anyText, fitFront_word]
  constructor
  · rintro ⟨before, part, behind, rfl, own, _, split, outside, rest, rfl, fits⟩
    have noSlash := (oneLine part (by simp)).1.noSlash
    have front : '/' ∉ own ++ text := by simp [outside, noSlash']
    rw [← List.append_assoc] at split
    have ends := (fitFront_finish (feed rfl split)).mp fits
    obtain ⟨same, -⟩ := (first_component noSlash front ends).mp split
    exact ⟨part, by simp, own, same.symm⟩
  · rintro ⟨part, member, own, same⟩
    obtain ⟨before, behind, split⟩ := List.append_of_mem member
    have outside : '/' ∉ own := by
      have noSlash := (oneLine part member).1.noSlash
      rw [← same] at noSlash
      exact fun inside => noSlash (List.mem_append_left text inside)
    have whole := joinedNames_cons part.toList (behind.map String.toList)
    have ends := (behindFirst_cases (behind.map String.toList)).imp And.right And.right
    have fits := (fitFront_finish (feed split whole)).mpr ends
    rw [← same, List.append_assoc] at whole
    exact ⟨before, part, behind, split, own, _, by rw [← same]; exact whole, outside, _, rfl, fits⟩

theorem fit_rule (oneLine : OneLine parts) (nonempty : parts ≠ []) {pattern : PlainPattern}
    (wellFormed : pattern.WellFormed) :
    (pattern.rule.fit (Path.joined parts).toList).isSome = true ↔ pattern.Meets parts := by
  cases pattern with
  | directory name => exact fit_directory oneLine nonempty wellFormed
  | ending text =>
    have noSlash : '/' ∉ text.toList := by
      intro member
      rcases wellFormed.2 '/' member with word | dot
      · exact absurd word (by decide)
      · exact absurd dot (by decide)
    exact fit_ending oneLine nonempty noSlash

theorem trimSlashes_eq {text : List Char} (first : text.head? ≠ some '/')
    (last : text.getLast? ≠ some '/') : Ignore.trimSlashes text = text := by
  have skip {text : List Char} (first : text.head? ≠ some '/') :
      text.dropWhile (· = '/') = text := by
    refine @dropWhile_run (· = '/') [] text (by simp) fun c head => decide_eq_false ?_
    rintro rfl
    exact first head
  rw [Ignore.trimSlashes, skip first, skip (by simpa using last), List.reverse_reverse]

theorem skipHere_eq {text : List Char} (first : ∀ rest, text ≠ '.' :: '/' :: rest) :
    Ignore.skipHere text = text := by
  unfold Ignore.skipHere
  split
  next rest => exact absurd rfl (first rest)
  next => rfl

theorem subject_joined (oneLine : OneLine parts) (nonempty : parts ≠ []) :
    Ignore.trimSlashes (Path.joined parts).toList ≠ [] ∧
      Ignore.subject (Path.joined parts) = (Path.joined parts).toList := by
  obtain ⟨part, behind, rfl⟩ := List.exists_cons_of_ne_nil nonempty
  have legal : IsComponent part := (oneLine part List.mem_cons_self).1
  have text := (joined_toList (part :: behind)).trans (joinedNames_cons _ _)
  obtain ⟨c, rest, chars⟩ :=
    List.exists_cons_of_ne_nil (mt String.toList_eq_nil_iff.mp legal.nonempty)
  have starts : (Path.joined (part :: behind)).toList.head? = some c := by
    rw [text, chars]
    rfl
  have first : (Path.joined (part :: behind)).toList.head? ≠ some '/' := by
    rw [starts]
    intro slash
    obtain rfl := Option.some.inj slash
    exact legal.noSlash (by rw [chars]; exact List.mem_cons_self)
  have last := getLast_joined nonempty fun part member => (oneLine part member).1
  have trimmed := trimSlashes_eq first last
  have kept : Ignore.skipHere (Path.joined (part :: behind)).toList =
      (Path.joined (part :: behind)).toList := by
    apply skipHere_eq
    intro rest same
    have here := (joined_toList (part :: behind)).symm.trans same
    obtain ⟨dot, -⟩ := (@first_component _ ['.'] ('/' :: rest) _ legal.noSlash (by decide)
      (.inr rfl)).mp here
    exact legal.notHere (String.toList_inj.mp dot)
  refine ⟨?_, by rw [Ignore.subject, trimmed, kept]⟩
  rw [trimmed]
  intro none
  rw [none] at starts
  cases starts

end Path

/-- Patterns of the two plain forms can be read, and they exclude a path just when one of them
means it: a directory on the way has its name, or some component has its ending. -/
theorem plain_patterns_exclude_iff {patterns : List PlainPattern} {parts : List String}
    (wellFormed : ∀ pattern ∈ patterns, pattern.WellFormed) (oneLine : OneLine parts) :
    ∃ excluded, Ignore.excludes? (patterns.map PlainPattern.line) (Path.joined parts) =
        .ok excluded ∧
      (excluded = true ↔ ∃ pattern ∈ patterns, pattern.Meets parts) := by
  rw [Ignore.excludes?, PlainPattern.read_lines wellFormed]
  refine ⟨_, rfl, ?_⟩
  by_cases nothing : parts = []
  · subst nothing
    have unmet : ¬ ∃ pattern ∈ patterns, pattern.Meets [] := by
      rintro ⟨pattern, -, meets⟩
      cases pattern <;> simp [PlainPattern.Meets] at meets
    have kept :
        ¬ Ignore.excludes (patterns.map fun p => ⟨false, p.rule⟩) (Path.joined []) = true := by
      rw [Ignore.excludes_iff]
      exact fun excluded => excluded.1 rfl
    exact iff_of_false kept unmet
  · obtain ⟨nonempty, subject⟩ := subject_joined oneLine nothing
    rw [Ignore.excludes_of_exclusions (by simp) nonempty, subject]
    constructor
    · rintro ⟨line, member, fits⟩
      obtain ⟨pattern, among, rfl⟩ := List.mem_map.mp member
      exact ⟨pattern, among, (fit_rule oneLine nothing (wellFormed pattern among)).mp fits⟩
    · rintro ⟨pattern, among, meets⟩
      have fits := (fit_rule oneLine nothing (wellFormed pattern among)).mpr meets
      exact ⟨_, List.mem_map_of_mem among, fits⟩

/-- A directory has the ending. The file has the other pattern's name, which is for directories. -/
theorem plain_patterns_exclude_below_ending :
    let patterns : List PlainPattern := [.directory "gen", .ending ".d"]
    let parts := ["src.d", "gen.kt", "gen"]
    ((∀ pattern ∈ patterns, pattern.WellFormed) ∧ OneLine parts) ∧
      Ignore.excludes? ["gen/", "*.d"] "src.d/gen.kt/gen" = .ok true ∧
      ¬ (PlainPattern.directory "gen").Meets parts ∧ (PlainPattern.ending ".d").Meets parts := by
  intro patterns parts
  have wellFormed : ∀ pattern ∈ patterns, pattern.WellFormed := by decide
  have oneLine : OneLine parts := by
    intro part member
    simp only [parts, List.mem_cons, List.not_mem_nil, or_false] at member
    rcases member with rfl | rfl | rfl
    all_goals exact ⟨⟨by decide, by decide, by decide⟩, by decide⟩
  have directory : ¬ (PlainPattern.directory "gen").Meets parts := by
    simp [PlainPattern.Meets, parts]
  have ending : (PlainPattern.ending ".d").Meets parts := ⟨"src.d", by simp [parts], by decide⟩
  obtain ⟨excluded, decided, meant⟩ := plain_patterns_exclude_iff wellFormed oneLine
  rw [meant.mpr ⟨_, by simp [patterns], ending⟩] at decided
  exact ⟨⟨wellFormed, oneLine⟩, decided, directory, ending⟩

end RecordCompat.Files
