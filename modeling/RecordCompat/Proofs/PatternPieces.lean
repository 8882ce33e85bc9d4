import Mathlib.Data.List.Basic
import RecordCompat.Files.Ignore
import RecordCompat.Proofs.Words

/-! What the pieces of a pattern line match, piece by piece. The piece in front skips any
directories: it can skip to the beginning of any component of a path and nowhere else. -/
namespace RecordCompat.Files

open Source

def FitFront (pieces : List IgnorePiece) (text : List Char) : Prop :=
  (IgnorePiece.fit pieces text).isSome = true

theorem fit_cons (piece : IgnorePiece) (pieces : List IgnorePiece) :
    IgnorePiece.fit (piece :: pieces) = piece.step.before (IgnorePiece.fit pieces) := by
  have eq (pieces : List IgnorePiece) : IgnorePiece.fit pieces =
      Matcher.ofSteps (fun _ => some false) (pieces.map IgnorePiece.step) :=
    funext fun text => Matcher.answer_eq _ _ text
  rw [eq, eq]
  rfl

theorem isSome_char {α : Type} {p : Char → Bool} {next : Matcher α} {text : List Char} :
    (Matcher.char p next text).isSome = true ↔
      ∃ c rest, text = c :: rest ∧ p c = true ∧ (next rest).isSome = true := by
  cases text with
  | nil => simp [Matcher.char]
  | cons c rest => by_cases allowed : p c = true <;> simp [Matcher.char, allowed]

theorem isSome_run {α : Type} {p : Char → Bool} {next : Matcher α} {text : List Char} :
    (Matcher.run p next text).isSome = true ↔
      ∃ own rest, text = own ++ rest ∧ (∀ c ∈ own, p c = true) ∧ (next rest).isSome = true := by
  induction text with
  | nil => simp [Matcher.run]
  | cons c rest ih =>
    have split : (Matcher.run p next (c :: rest)).isSome = true ↔
        p c = true ∧ (Matcher.run p next rest).isSome = true ∨
          (next (c :: rest)).isSome = true := by
      by_cases allowed : p c = true <;> simp [Matcher.run, allowed]
    rw [split, ih]
    constructor
    · rintro (⟨allowed, own, behind, rfl, inside, fits⟩ | fits)
      · exact ⟨c :: own, behind, rfl, List.forall_mem_cons.mpr ⟨allowed, inside⟩, fits⟩
      · exact ⟨[], c :: rest, rfl, by simp, fits⟩
    · rintro ⟨own, behind, same, inside, fits⟩
      cases own with
      | nil =>
        rw [List.nil_append] at same
        exact .inr (same ▸ fits)
      | cons d own =>
        obtain ⟨rfl, rfl⟩ := List.cons.inj same
        obtain ⟨allowed, inside⟩ := List.forall_mem_cons.mp inside
        exact .inl ⟨allowed, own, behind, rfl, inside, fits⟩

theorem fitFront_word (word : List Char) (pieces : List IgnorePiece) (text : List Char) :
    FitFront (word.map .char ++ pieces) text ↔
      ∃ rest, text = word ++ rest ∧ FitFront pieces rest := by
  induction word generalizing text with
  | nil => simp
  | cons c word ih =>
    have first : FitFront ((c :: word).map .char ++ pieces) text ↔
        ∃ rest, text = c :: rest ∧ FitFront (word.map .char ++ pieces) rest := by
      rw [FitFront, List.map_cons, List.cons_append, fit_cons, IgnorePiece.step, MatchStep.char,
        isSome_char]
      simp [FitFront]
    rw [first]
    constructor
    · rintro ⟨rest, rfl, fits⟩
      obtain ⟨behind, rfl, later⟩ := (ih rest).mp fits
      exact ⟨behind, rfl, later⟩
    · rintro ⟨behind, rfl, fits⟩
      exact ⟨word ++ behind, rfl, (ih _).mpr ⟨behind, rfl, fits⟩⟩

theorem fitFront_anyText (pieces : List IgnorePiece) (text : List Char) :
    FitFront (.anyText :: pieces) text ↔
      ∃ own rest, text = own ++ rest ∧ '/' ∉ own ∧ FitFront pieces rest := by
  have outside (own : List Char) : (∀ c ∈ own, IgnorePiece.inName c = true) ↔ '/' ∉ own := by
    simp only [IgnorePiece.inName, bne_iff_ne, ne_eq]
    exact ⟨fun all slash => all '/' slash rfl, fun none c member same => none (same ▸ member)⟩
  rw [FitFront, fit_cons, IgnorePiece.step, MatchStep.run, isSome_run]
  simp only [outside]
  rfl

theorem fitFront_nil (text : List Char) : FitFront [] text := by
  rw [FitFront, IgnorePiece.fit, Matcher.answer_eq]
  rfl

theorem fitFront_content (mark : Bool) (text : List Char) :
    FitFront [.content mark] text ↔ text.head? = some '/' := by
  have slash : FitFront [.content mark] text ↔
      (Matcher.char IgnorePiece.isSlash (IgnorePiece.fit []) text).isSome = true := by
    rw [FitFront, fit_cons]
    simp [IgnorePiece.step, MatchStep.withAnswer, MatchStep.char]
  rw [slash, isSome_char]
  constructor
  · rintro ⟨c, rest, rfl, isSlash, -⟩
    simpa [IgnorePiece.isSlash] using isSlash
  · intro head
    obtain ⟨rest, rfl⟩ := List.head?_eq_some_iff.mp head
    exact ⟨'/', rest, rfl, rfl, fitFront_nil rest⟩

/-- In a text without line ends, the end of the path or of a directory. -/
theorem fitFront_finish {text : List Char} (oneLine : '\n' ∉ text) :
    FitFront [.finish] text ↔ text = [] ∨ text.head? = some '/' := by
  rw [FitFront, fit_cons]
  change (IgnorePiece.atFinish text).isSome = true ↔ _
  cases text with
  | nil => simp [IgnorePiece.atFinish]
  | cons c rest =>
    have other : c ≠ '\n' := by
      rintro rfl
      exact oneLine List.mem_cons_self
    by_cases slash : c = '/' <;> simp [IgnorePiece.atFinish, slash, other]

/-- The piece in front skips nothing, or something and the slash behind it. -/
theorem fitFront_anyFront {text : List Char} (oneLine : '\n' ∉ text) (pieces : List IgnorePiece) :
    FitFront (.anyFront :: pieces) text ↔
      FitFront pieces text ∨
        ∃ body rest, body ≠ [] ∧ text = body ++ '/' :: rest ∧ FitFront pieces rest := by
  have skips (next : Matcher Bool) : (IgnorePiece.anyFront.step.before next text).isSome = true ↔
      (∃ c rest, text = c :: rest ∧ IgnorePiece.notLineEnd c = true ∧
        ∃ own behind, rest = own ++ behind ∧ (∀ d ∈ own, IgnorePiece.notLineEnd d = true) ∧
          ∃ d later, behind = d :: later ∧ IgnorePiece.isSlash d = true ∧
            (next later).isSome = true) ∨ (next text).isSome = true := by
    simp only [← isSome_char, ← isSome_run]
    simp [IgnorePiece.step, MatchStep.optional, MatchStep.andThen, MatchStep.char, MatchStep.run]
  rw [FitFront, fit_cons, skips, or_comm]
  apply or_congr_right
  constructor
  · rintro ⟨c, _, rfl, -, own, _, rfl, -, d, later, rfl, slash, fits⟩
    obtain rfl : d = '/' := by simpa [IgnorePiece.isSlash] using slash
    exact ⟨c :: own, later, List.cons_ne_nil c own, rfl, fits⟩
  · rintro ⟨body, rest, nonempty, rfl, fits⟩
    obtain ⟨c, own, rfl⟩ := List.exists_cons_of_ne_nil nonempty
    have inLine : ∀ d ∈ c :: own, IgnorePiece.notLineEnd d = true := by
      intro d member
      have other : d ≠ '\n' := by
        rintro rfl
        exact oneLine (List.mem_append_left _ member)
      simpa [IgnorePiece.notLineEnd] using other
    obtain ⟨first, later⟩ := List.forall_mem_cons.mp inLine
    exact ⟨c, own ++ '/' :: rest, rfl, first, own, '/' :: rest, rfl, later, '/', rest, rfl, rfl,
      fits⟩

def joinedNames (names : List (List Char)) : List Char :=
  ['/'].intercalate names

def behindFirst (names : List (List Char)) : List Char :=
  if names = [] then [] else '/' :: joinedNames names

theorem joinedNames_cons (name : List Char) (names : List (List Char)) :
    joinedNames (name :: names) = name ++ behindFirst names := by
  cases names with
  | nil => simp [joinedNames, behindFirst]
  | cons => simp [joinedNames, behindFirst, List.intercalate_cons_cons]

theorem joinedNames_append {before behind : List (List Char)} (nonempty : before ≠ [])
    (later : behind ≠ []) :
    joinedNames (before ++ behind) = joinedNames before ++ '/' :: joinedNames behind := by
  induction before with
  | nil => exact absurd rfl nonempty
  | cons name before ih =>
    rw [List.cons_append, joinedNames_cons, joinedNames_cons, List.append_assoc]
    congr 1
    cases before with
    | nil => simp [behindFirst, later, joinedNames]
    | cons second before =>
      have rest := ih (List.cons_ne_nil second before)
      rw [List.cons_append] at rest ⊢
      simp [behindFirst, rest]

theorem behindFirst_cases (names : List (List Char)) :
    names = [] ∧ behindFirst names = [] ∨ names ≠ [] ∧ (behindFirst names).head? = some '/' := by
  by_cases none : names = [] <;> simp [behindFirst, none]

/-- A text up to the first slash is the first component. -/
theorem first_component {name front rest : List Char} {names : List (List Char)}
    (noSlash : '/' ∉ name) (noSlash' : '/' ∉ front) (ends : rest = [] ∨ rest.head? = some '/') :
    joinedNames (name :: names) = front ++ rest ↔ name = front ∧ behindFirst names = rest := by
  have run {text : List Char} (none : '/' ∉ text) : ∀ c ∈ text, (c != '/') = true := by
    intro c member
    simp only [bne_iff_ne, ne_eq]
    rintro rfl
    exact none member
  have stops {rest : List Char} (ends : rest = [] ∨ rest.head? = some '/') :
      ∀ c, rest.head? = some c → (c != '/') = false := by
    rintro c head
    rcases ends with rfl | slash
    · cases head
    · rw [slash] at head
      obtain rfl := Option.some.inj head
      rfl
  have ends' : behindFirst names = [] ∨ (behindFirst names).head? = some '/' :=
    (behindFirst_cases names).imp And.right And.right
  rw [joinedNames_cons]
  constructor
  · intro same
    have first := congrArg (List.takeWhile (· != '/')) same
    have later := congrArg (List.dropWhile (· != '/')) same
    rw [takeWhile_run (run noSlash) (stops ends'),
      takeWhile_run (run noSlash') (stops ends)] at first
    rw [dropWhile_run (run noSlash) (stops ends'),
      dropWhile_run (run noSlash') (stops ends)] at later
    exact ⟨first, later⟩
  · rintro ⟨rfl, rfl⟩
    rfl

/-- Behind the whole text and behind any slash in it stand the last components. -/
theorem rest_iff {names : List (List Char)} (nonempty : names ≠ [])
    (each : ∀ name ∈ names, name ≠ [] ∧ '/' ∉ name) (rest : List Char) :
    (rest = joinedNames names ∨ ∃ body, body ≠ [] ∧ joinedNames names = body ++ '/' :: rest) ↔
      ∃ before behind, behind ≠ [] ∧ names = before ++ behind ∧ rest = joinedNames behind := by
  constructor
  · rintro (rfl | ⟨body, -, split⟩)
    · exact ⟨[], names, nonempty, rfl, rfl⟩
    · have read : (joinedNames names).splitOn '/' = names :=
        List.splitOn_intercalate '/' (fun name member => (each name member).2) nonempty
      rw [split, List.splitOn_append_cons_self] at read
      refine ⟨_, rest.splitOn '/', List.splitOn_ne_nil _ _, read.symm, ?_⟩
      exact (List.intercalate_splitOn '/').symm
  · rintro ⟨before, behind, later, rfl, rfl⟩
    cases before with
    | nil => exact .inl rfl
    | cons name before =>
      refine .inr ⟨joinedNames (name :: before), ?_, joinedNames_append (by simp) later⟩
      rw [joinedNames_cons]
      exact List.append_ne_nil_of_left_ne_nil (each name (by simp)).1 _

/-- Pieces behind the one in front match from the beginning of any component on. -/
theorem fitFront_components {names : List (List Char)} (nonempty : names ≠ [])
    (each : ∀ name ∈ names, name ≠ [] ∧ '/' ∉ name) (oneLine : '\n' ∉ joinedNames names)
    (pieces : List IgnorePiece) :
    FitFront (.anyFront :: pieces) (joinedNames names) ↔ ∃ before name behind,
      names = before ++ name :: behind ∧ FitFront pieces (joinedNames (name :: behind)) := by
  rw [fitFront_anyFront oneLine]
  constructor
  · intro fits
    obtain ⟨rest, place, fits⟩ : ∃ rest, (rest = joinedNames names ∨
        ∃ body, body ≠ [] ∧ joinedNames names = body ++ '/' :: rest) ∧ FitFront pieces rest := by
      rcases fits with whole | ⟨body, rest, front, split, fits⟩
      · exact ⟨_, .inl rfl, whole⟩
      · exact ⟨rest, .inr ⟨body, front, split⟩, fits⟩
    obtain ⟨before, behind, later, same, rfl⟩ := (rest_iff nonempty each rest).mp place
    obtain ⟨name, behind, rfl⟩ := List.exists_cons_of_ne_nil later
    exact ⟨before, name, behind, same, fits⟩
  · rintro ⟨before, name, behind, same, fits⟩
    have place := (rest_iff nonempty each _).mpr ⟨before, name :: behind, by simp, same, rfl⟩
    rcases place with whole | ⟨body, front, split⟩
    · exact .inl (whole ▸ fits)
    · exact .inr ⟨body, _, front, split, fits⟩

end RecordCompat.Files
