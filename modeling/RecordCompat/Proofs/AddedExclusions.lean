import RecordCompat.Proofs.DecidingLines
import RecordCompat.Proofs.DiscoveredPairs
import RecordCompat.Proofs.Words

/-! Exclusions that are added. A line that excludes, put anywhere between others, decides about a
path or leaves the decision with the line that had it. So what was excluded stays excluded, and a
discovery loses only pairs that the new line matches by itself. -/
namespace RecordCompat.Files

namespace Ignore

/-- A line that is inserted decides, or the decision stays where it was. -/
theorem deciding?_inserted (first second : List IgnoreLine) (line : IgnoreLine)
    (path : List Char) :
    deciding? (first ++ line :: second) path = deciding? (first ++ second) path ∨
      deciding? (first ++ line :: second) path = some line ∧
        deciding? [line] path = some line := by
  have around (mark : Bool) : last? mark (first ++ line :: second) path =
      (last? mark second path).or ((last? mark [line] path).or (last? mark first path)) := by
    rw [List.append_cons, last?_append, last?_append]
  simp only [deciding?, around, last?_append, last?_singleton]
  cases fits : line.rule.fit path with
  | none => left; simp
  | some mark =>
    cases mark with
    | false => cases last? false second path <;> simp
    | true =>
      -- A match of a directory only is weaker than any match as a whole, wherever that stands.
      cases last? false second path with
      | some later => left; simp
      | none =>
        cases last? false first path with
        | some earlier => left; simp
        | none => cases last? true second path <;> simp

/-- What was excluded stays excluded, and what is excluded anew the line excludes by itself. -/
theorem excludes_inserted {first second : List IgnoreLine} {line : IgnoreLine}
    (excluding : line.negated = false) (path : String) :
    (excludes (first ++ second) path = true →
      excludes (first ++ line :: second) path = true) ∧
    (excludes (first ++ line :: second) path = true →
      excludes (first ++ second) path = true ∨ excludes [line] path = true) := by
  simp only [excludes_iff]
  rcases deciding?_inserted first second line (subject path) with same | ⟨decides, alone⟩
  · rw [same]
    exact ⟨id, .inl⟩
  · rw [decides, alone]
    constructor
    · rintro ⟨nonempty, -⟩
      exact ⟨nonempty, line, rfl, excluding⟩
    · exact .inr

/-- A readable line has its place between the others and does not change why a list is
refused. -/
theorem read_inserted {line : String} {said? : Option IgnoreLine}
    (readable : IgnoreLine.read line = .ok said?) (before after : List String) :
    (∃ e, read (before ++ after) = .error e ∧ read (before ++ line :: after) = .error e) ∨
      ∃ first second, read (before ++ after) = .ok (first ++ second) ∧
        read (before ++ line :: after) = .ok (first ++ (said?.toList ++ second)) := by
  rw [read_append, read_append, read_cons readable]
  cases read before with
  | error e => exact .inl ⟨e, rfl, rfl⟩
  | ok first =>
    cases read after with
    | error e => exact .inl ⟨e, rfl, rfl⟩
    | ok second => exact .inr ⟨first, second, rfl, rfl⟩

end Ignore

/-- A line that can be read and includes nothing again. -/
structure IsExclusion (line : String) : Prop where
  readable : ∃ said?, IgnoreLine.read line = .ok said?
  noNegation : line.toList.head? ≠ some '!'

theorem IgnoreLine.isPrefix_trim (line : List Char) : trim line <+: line := by
  unfold trim
  split
  · exact List.prefix_rfl
  · exact Source.isPrefix_stripRight line

theorem IgnoreLine.head?_of_negated {line : String} {said : IgnoreLine}
    (readable : read line = .ok (some said)) (negated : said.negated = true) :
    line.toList.head? = some '!' := by
  unfold read at readable
  dsimp only at readable
  generalize anchoredSegments _ = segments at readable
  generalize IgnoreRule.ofSegments _ _ = found at readable
  split at readable
  next => cases readable
  next speaks =>
    split at readable
    next => cases readable
    next =>
      rcases found with (- | -) | rule
      · cases readable
      · cases readable
      · dsimp only at readable
        split at readable
        next => cases readable
        next =>
          obtain rfl := Option.some.inj (Except.ok.inj readable)
          have nonempty : trim line.toList ≠ [] := fun empty => speaks (.inl empty)
          rw [← Source.head?_of_front (isPrefix_trim line.toList) nonempty]
          exact of_decide_eq_true negated

theorem IsExclusion.excluding {line : String} (exclusion : IsExclusion line) {said : IgnoreLine}
    (readable : IgnoreLine.read line = .ok (some said)) : said.negated = false := by
  apply Bool.eq_false_iff.mpr
  exact fun negated => exclusion.noNegation (IgnoreLine.head?_of_negated readable negated)

/-- Lines that exclude at least what others exclude, and beyond that only what `extra`
excludes. -/
structure Widens (fewer more extra : List IgnoreLine) : Prop where
  keeps : ∀ path, Ignore.excludes fewer path = true → Ignore.excludes more path = true
  adds : ∀ path, Ignore.excludes more path = true →
    Ignore.excludes fewer path = true ∨ Ignore.excludes extra path = true

theorem IsExclusion.widens {line : String} (exclusion : IsExclusion line)
    {said? : Option IgnoreLine} (readable : IgnoreLine.read line = .ok said?)
    (first second : List IgnoreLine) :
    Widens (first ++ second) (first ++ (said?.toList ++ second)) said?.toList := by
  cases said? with
  | none => exact ⟨fun _ => id, fun _ => .inl⟩
  | some said =>
    have inserted := @Ignore.excludes_inserted first second said (exclusion.excluding readable)
    exact ⟨fun path => (inserted path).1, fun path => (inserted path).2⟩

section Discovery

variable {disk : Disk} {glob : Glob} {fewer more extra : List IgnoreLine} {root old new : Path}

structure Collection.Narrowed (more : List IgnoreLine) (c d : Collection) : Prop where
  sameRoot : d.root = c.root
  found : d.found = c.found.filter fun parts => !Ignore.excludes more (Path.joined parts)

theorem collect_narrowed (widens : Widens fewer more extra) :
    (∀ e, (collect disk glob fewer root).result = .error e →
      (collect disk glob more root).result = .error e) ∧
    ∀ c, (collect disk glob fewer root).result = .ok c →
      ∃ d, (collect disk glob more root).result = .ok d ∧ c.Narrowed more d := by
  unfold collect
  cases glob.files disk root with
  | error e => exact ⟨fun _ => id, by rintro _ ⟨⟩⟩
  | ok all =>
    refine ⟨by rintro _ ⟨⟩, ?_⟩
    rintro c ⟨⟩
    refine ⟨_, rfl, rfl, ?_⟩
    rw [List.filter_filter]
    apply List.filter_congr
    intro parts _
    cases excluded : Ignore.excludes fewer (Path.joined parts) with
    | false => simp [excluded]
    | true => simp [widens.keeps _ excluded]

theorem Collection.Narrowed.paths {c d : Collection} (narrowed : c.Narrowed more d) :
    d.paths = c.paths.filter fun path => !Ignore.excludes more path := by
  rw [Collection.paths, narrowed.found, Collection.paths, List.filter_map]
  rfl

theorem Collection.Narrowed.file? {c d : Collection} (narrowed : c.Narrowed more d) {path : String}
    (kept : Ignore.excludes more path = false) : d.file? path = c.file? path := by
  unfold Collection.file?
  rw [narrowed.found, narrowed.sameRoot, List.find?_filter]
  congr 2
  funext parts
  by_cases same : Path.joined parts = path
  · simp [same, kept]
  · simp [same]

theorem mergedPaths_narrowed {c d c' d' : Collection} (olds : c.Narrowed more c')
    (news : d.Narrowed more d') :
    mergedPaths c' d' = (mergedPaths c d).filter fun path => !Ignore.excludes more path := by
  refine eq_of_increasing (increasing_mergedPaths c' d') ((increasing_mergedPaths c d).filter _) ?_
  intro path
  rw [mem_mergedPaths, olds.paths, news.paths, List.mem_filter, List.mem_filter, List.mem_filter,
    mem_mergedPaths, or_and_right]

theorem pairCollections_narrowed {c d c' d' : Collection} (olds : c.Narrowed more c')
    (news : d.Narrowed more d') :
    pairCollections c' d' =
      (pairCollections c d).filter fun pair => !Ignore.excludes more pair.path := by
  rw [pairCollections, mergedPaths_narrowed olds news, pairCollections, List.filter_map]
  apply List.map_congr_left
  intro path member
  have kept : Ignore.excludes more path = false := by
    simpa using (List.mem_filter.mp member).2
  rw [olds.file? kept, news.file? kept]

/-- Whatever is excluded in addition, the pairs of the other paths stay, and so does the reason why
there are none. -/
theorem discover_narrowed {pattern : String} {exclude exclude' : List String}
    (lines : Ignore.read exclude = .ok fewer) (lines' : Ignore.read exclude' = .ok more)
    (widens : Widens fewer more extra) :
    (discover disk old new pattern exclude').result =
      (discover disk old new pattern exclude).result.map
        (List.filter fun pair => !Ignore.excludes more pair.path) := by
  unfold discover
  rw [lines, lines']
  cases Glob.read pattern with
  | error e => rfl
  | ok glob =>
    obtain ⟨oldFails, oldNarrows⟩ := @collect_narrowed disk glob fewer more extra old widens
    obtain ⟨newFails, newNarrows⟩ := @collect_narrowed disk glob fewer more extra new widens
    simp only [Logged.result_bind]
    cases olds : (collect disk glob fewer old).result with
    | error e =>
      rw [oldFails e olds]
      rfl
    | ok c =>
      obtain ⟨c', olds', first⟩ := oldNarrows c olds
      rw [olds']
      cases news : (collect disk glob fewer new).result with
      | error e =>
        simp only [Except.bind, newFails e news]
        rfl
      | ok d =>
        obtain ⟨d', news', second⟩ := newNarrows d news
        simp only [Except.bind, news', pairCollections_narrowed first second]
        rfl

theorem kept_of_collect {c : Collection} (collected : (collect disk glob fewer root).result = .ok c)
    {path : String} (member : path ∈ c.paths) : Ignore.excludes fewer path = false := by
  obtain ⟨parts, found, rfl⟩ := List.mem_map.mp member
  unfold collect at collected
  cases searched : glob.files disk root with
  | error e => simp [searched] at collected
  | ok all =>
    simp only [searched, Except.ok.injEq] at collected
    subst collected
    simpa using (List.mem_filter.mp found).2

theorem kept_of_discover {pattern : String} {exclude : List String} {pairs : List SourcePair}
    (lines : Ignore.read exclude = .ok fewer)
    (found : (discover disk old new pattern exclude).result = .ok pairs) :
    ∀ pair ∈ pairs, Ignore.excludes fewer pair.path = false := by
  intro pair member
  cases parsed : Glob.read pattern with
  | error e => simp [discover, lines, parsed] at found
  | ok glob =>
    obtain ⟨c, d, olds, news, rfl⟩ := (discover_ok parsed lines).mp found
    have path : pair.path ∈ mergedPaths c d := by
      rw [← map_path_pairCollections]
      exact List.mem_map_of_mem member
    rcases mem_mergedPaths.mp path with first | second
    · exact kept_of_collect olds first
    · exact kept_of_collect news second

/-- An exclusion may stand anywhere in a list: what the list excludes without it stays excluded.
With it the same errors are found, and of the pairs those are left out, whole, that have a path
which it excludes by itself. -/
theorem exclusion_only_excludes (disk : Disk) (old new : Path) (pattern : String)
    (before after : List String) {line : String} (exclusion : IsExclusion line) :
    (∀ path, Ignore.excludes? (before ++ after) path = .ok true →
      Ignore.excludes? (before ++ line :: after) path = .ok true) ∧
    (∀ e, (discover disk old new pattern (before ++ after)).result = .error e →
      (discover disk old new pattern (before ++ line :: after)).result = .error e) ∧
    ∀ pairs, (discover disk old new pattern (before ++ after)).result = .ok pairs →
      ∃ remaining, (discover disk old new pattern (before ++ line :: after)).result =
          .ok remaining ∧
        remaining.Sublist pairs ∧
        ∀ pair ∈ pairs, pair ∉ remaining → Ignore.excludes? [line] pair.path = .ok true := by
  obtain ⟨said?, readable⟩ := exclusion.readable
  rcases Ignore.read_inserted readable before after with
    ⟨e, refused, refused'⟩ | ⟨first, second, lines, lines'⟩
  · simp only [Ignore.excludes?, discover, refused, refused']
    exact ⟨fun _ => id, fun _ => id, by rintro _ ⟨⟩⟩
  · have widens := exclusion.widens readable first second
    have narrowed := @discover_narrowed disk _ _ _ old new pattern _ _ lines lines' widens
    have alone : Ignore.read [line] = .ok said?.toList := by
      rw [Ignore.read_cons readable]
      exact congrArg Except.ok (List.append_nil _)
    refine ⟨fun path excluded => ?_, fun e failed => ?_, fun pairs found => ?_⟩
    · rw [Ignore.excludes?, lines] at excluded
      rw [Ignore.excludes?, lines']
      exact congrArg Except.ok (widens.keeps path (Except.ok.inj excluded))
    · rw [narrowed, failed]
      rfl
    · refine ⟨_, by rw [narrowed, found]; rfl, List.filter_sublist, fun pair member gone => ?_⟩
      have excluded : Ignore.excludes (first ++ (said?.toList ++ second)) pair.path = true := by
        simpa [member] using gone
      rcases widens.adds pair.path excluded with earlier | anew
      · rw [kept_of_discover lines found pair member] at earlier
        cases earlier
      · rw [Ignore.excludes?, alone]
        exact congrArg Except.ok anew

/-- An exclusion between two lines that take exclusions back, the first of them for this file. -/
theorem exclusion_only_excludes_of_test :
    let disk : Disk := ⟨[(["old", "ATest.kt"], []), (["new", "note.txt"], [])], [], []⟩
    let pairs : List SourcePair := [⟨"ATest.kt", some (.ofString "old/ATest.kt"), none⟩]
    IsExclusion "?Test.kt" ∧
    (discover disk (.ofString "old") (.ofString "new") "*.kt" ["*Test.kt", "!A*", "!B*"]).result =
      .ok pairs ∧
    ∃ remaining, (discover disk (.ofString "old") (.ofString "new") "*.kt"
        ["*Test.kt", "!A*", "?Test.kt", "!B*"]).result = .ok remaining ∧
      remaining.Sublist pairs ∧
      ∀ pair ∈ pairs, pair ∉ remaining → Ignore.excludes? ["?Test.kt"] pair.path = .ok true := by
  intro disk pairs
  have readable : IgnoreLine.read "?Test.kt" = .ok (some ⟨false, .shape [.anyFront, .anyChar,
      .char 'T', .char 'e', .char 's', .char 't', .char '.', .char 'k', .char 't', .finish]⟩) := by
    decide +kernel
  have exclusion : IsExclusion "?Test.kt" := ⟨⟨_, readable⟩, by decide⟩
  have found : (discover disk (.ofString "old") (.ofString "new") "*.kt"
      ["*Test.kt", "!A*", "!B*"]).result = .ok pairs := by decide +kernel
  obtain ⟨-, -, narrowed⟩ := exclusion_only_excludes disk (.ofString "old") (.ofString "new") "*.kt"
    ["*Test.kt", "!A*"] ["!B*"] exclusion
  exact ⟨exclusion, found, narrowed pairs found⟩

end Discovery

end RecordCompat.Files
