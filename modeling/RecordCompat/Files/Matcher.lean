/-! A matcher looks at the front of a text and has an answer where it fits. Patterns put steps
in front of a matcher: a character, a run of characters, something that may be missing. A
run is tried in every length before the rest of the pattern, so several runs in one pattern
multiply the work.

A step therefore also says how the answers for a text and all its ends follow from those of
the matcher behind it, which takes one pass over the text. A step holds the proof that both
ways agree; the main statement is that the same is true of a whole pattern. -/
namespace RecordCompat.Files

abbrev Matcher (α : Type) := List Char → Option α

/-- Answers for a text and each of its ends, from the whole text to the empty one. -/
abbrev Answers (α : Type) := List (Option α)

namespace Answers

variable {α : Type}

def whole (all : Answers α) : Option α :=
  all.head?.getD none

def char (p : Char → Bool) : List Char → Answers α → Answers α
  | c :: rest, _ :: later => (if p c then whole later else none) :: char p rest later
  | _, _ => [none]

def run (p : Char → Bool) : List Char → Answers α → Answers α
  | c :: rest, now :: later =>
    let behind := run p rest later
    ((if p c then whole behind else none) <|> now) :: behind
  | _, all => all

end Answers

namespace Matcher

variable {α : Type}

/-- A character that satisfies `p`, and then `next`. -/
def char (p : Char → Bool) (next : Matcher α) : Matcher α
  | [] => none
  | c :: rest => if p c then next rest else none

/-- A run of characters that satisfy `p`, the longest behind which `next` fits. -/
def run (p : Char → Bool) (next : Matcher α) : Matcher α
  | [] => next []
  | c :: rest => (if p c then run p next rest else none) <|> next (c :: rest)

def answers (m : Matcher α) : List Char → Answers α
  | [] => [m []]
  | c :: rest => m (c :: rest) :: answers m rest

@[simp] theorem whole_answers (m : Matcher α) (text : List Char) :
    (m.answers text).whole = m text := by
  cases text <;> rfl

theorem answers_char (p : Char → Bool) (next : Matcher α) (text : List Char) :
    Answers.char p text (next.answers text) = (char p next).answers text := by
  induction text with
  | nil => rfl
  | cons c rest ih => simp [answers, Answers.char, char, ih]

theorem answers_run (p : Char → Bool) (next : Matcher α) (text : List Char) :
    Answers.run p text (next.answers text) = (run p next).answers text := by
  induction text with
  | nil => rfl
  | cons c rest ih => simp [answers, Answers.run, run, ih]

theorem answers_orElse (first second : Matcher α) (text : List Char) :
    List.zipWith (· <|> ·) (first.answers text) (second.answers text) =
      Matcher.answers (fun text => first text <|> second text) text := by
  induction text with
  | nil => rfl
  | cons c rest ih => exact congrArg _ ih

theorem answers_map (f : α → α) (m : Matcher α) (text : List Char) :
    (m.answers text).map (·.map f) = Matcher.answers (fun text => (m text).map f) text := by
  induction text with
  | nil => rfl
  | cons c rest ih => simp [answers, ih]

end Matcher

/-- A step of a pattern. -/
structure MatchStep (α : Type) where
  before : Matcher α → Matcher α
  /-- The answers of the step and the rest, from those of the rest. -/
  extend : List Char → Answers α → Answers α
  extend_answers : ∀ (next : Matcher α) (text : List Char),
    extend text (next.answers text) = (before next).answers text

namespace MatchStep

variable {α : Type}

def char (p : Char → Bool) : MatchStep α :=
  ⟨Matcher.char p, Answers.char p, Matcher.answers_char p⟩

def run (p : Char → Bool) : MatchStep α :=
  ⟨Matcher.run p, Answers.run p, Matcher.answers_run p⟩

/-- The answers of a fixed matcher, whatever follows in the pattern. -/
def stop (m : Matcher α) : MatchStep α :=
  ⟨fun _ => m, fun text _ => m.answers text, fun _ _ => rfl⟩

def andThen (first second : MatchStep α) : MatchStep α where
  before next := first.before (second.before next)
  extend text all := first.extend text (second.extend text all)
  extend_answers next text := by rw [second.extend_answers, first.extend_answers]

/-- A step that is left out where the pattern does not fit with it. -/
def optional (step : MatchStep α) : MatchStep α where
  before next := fun text => step.before next text <|> next text
  extend text all := List.zipWith (· <|> ·) (step.extend text all) all
  extend_answers next text := by rw [step.extend_answers, Matcher.answers_orElse]

/-- A step that changes the answer. -/
def withAnswer (f : α → α) (step : MatchStep α) : MatchStep α where
  before next := fun text => (step.before next text).map f
  extend text all := (step.extend text all).map (·.map f)
  extend_answers next text := by rw [step.extend_answers, Matcher.answers_map]

end MatchStep

namespace Matcher

variable {α : Type}

def ofSteps (last : Matcher α) (steps : List (MatchStep α)) : Matcher α :=
  steps.foldr MatchStep.before last

/-- The answer of a pattern, computed from its last step to its first. -/
def answer (last : Matcher α) (steps : List (MatchStep α)) (text : List Char) : Option α :=
  (steps.foldr (·.extend text) (last.answers text)).whole

theorem answer_eq (last : Matcher α) (steps : List (MatchStep α)) (text : List Char) :
    answer last steps text = ofSteps last steps text := by
  have all : steps.foldr (·.extend text) (last.answers text) =
      (ofSteps last steps).answers text := by
    induction steps with
    | nil => rfl
    | cons step steps ih => rw [List.foldr_cons, ih, step.extend_answers]; rfl
  rw [answer, all, whole_answers]

end Matcher

end RecordCompat.Files
