import RecordCompat.Proofs.Words

/-! The search for the end of a parameter list and the search for its commas count brackets
alike. `Passes` is what they have in common: code in which no comma cuts and no bracket
closes what it did not open. Types pass from any nesting to the same one, defaults from
outside to outside. -/
namespace RecordCompat.Source

open Text

theorem brackets_after_opening {n : Nesting} {x : Lexeme} (opens : x.opens = true) :
    (n.after x).brackets = n.brackets + 1 := by
  simp [Nesting.after, opens]

theorem brackets_after_closing {n : Nesting} {x : Lexeme} (noOpening : ¬ x.opens = true)
    (closes : x.closes = true) : (n.after x).brackets = n.brackets - 1 := by
  simp [Nesting.after, noOpening, closes]

theorem brackets_after_plain {n : Nesting} {x : Lexeme} (noOpening : ¬ x.opens = true)
    (noClosing : ¬ x.closes = true) : (n.after x).brackets = n.brackets := by
  simp only [Nesting.after, if_neg noOpening, if_neg noClosing]
  split
  · rfl
  · split <;> rfl

theorem enclosed?_cons {n : Nesting} {x : Lexeme} (nested : x.closes = true → n.brackets ≠ 0)
    (rest : List Lexeme) :
    enclosed? n.brackets (x :: rest) = (enclosed? (n.after x).brackets rest).map (x :: ·) := by
  rw [enclosed?.eq_def]
  dsimp only
  by_cases opens : x.opens = true
  · rw [if_pos opens, brackets_after_opening opens]
  · by_cases closes : x.closes = true
    · obtain ⟨k, inside⟩ := Nat.exists_eq_succ_of_ne_zero (nested closes)
      rw [if_neg opens, if_pos closes, brackets_after_closing opens closes, inside]
      rfl
    · rw [if_neg opens, if_neg closes, brackets_after_plain opens closes]

/-- Reading `code` leads from one nesting to another, with no cut and no stray bracket. -/
inductive Passes : Nesting → List Lexeme → Nesting → Prop
  | nil {n : Nesting} : Passes n [] n
  | cons {n m : Nesting} {x : Lexeme} {rest : List Lexeme} : n.cutsAt x = false →
      (x.closes = true → n.brackets ≠ 0) → Passes (n.after x) rest m → Passes n (x :: rest) m

theorem Passes.append {n m k : Nesting} {xs ys : List Lexeme} (first : Passes n xs m)
    (second : Passes m ys k) : Passes n (xs ++ ys) k := by
  induction first with
  | nil => exact second
  | cons uncut nested _ ih => exact .cons uncut nested (ih second)

theorem Passes.one {n m : Nesting} {x : Lexeme} (uncut : n.cutsAt x = false)
    (nested : x.closes = true → n.brackets ≠ 0) (step : n.after x = m) : Passes n [x] m := by
  subst step
  exact .cons uncut nested .nil

theorem Passes.enclosed {n m : Nesting} {code : List Lexeme} (passes : Passes n code m)
    (more : List Lexeme) :
    enclosed? n.brackets (code ++ more) = (enclosed? m.brackets more).map (code ++ ·) := by
  induction passes with
  | nil => simp
  | cons _ nested _ ih =>
    rw [List.cons_append, enclosed?_cons nested, ih, Option.map_map]
    rfl

theorem Passes.pieces {n m : Nesting} {code : List Lexeme} (passes : Passes n code m) :
    pieces n code = [code] := by
  induction passes with
  | nil => rfl
  | cons uncut _ _ ih => rw [Source.pieces, uncut, ih]; rfl

theorem Passes.pieces_comma {n m : Nesting} {code : List Lexeme} (passes : Passes n code m)
    (noBracket : m.brackets = 0) (noAngle : m.angles = 0) (rest : List Lexeme) :
    Source.pieces n (code ++ .char ',' :: rest) = code :: Source.pieces .outside rest := by
  induction passes with
  | @nil n =>
    have cuts : n.cutsAt (.char ',') = true := by simp [Nesting.cutsAt, noBracket, noAngle]
    have outside : n.after (.char ',') = .outside := by
      simp [Nesting.after, Lexeme.opens, Lexeme.closes, Nesting.outside, noBracket, noAngle]
    rw [List.nil_append, Source.pieces, if_pos cuts, outside]
  | cons uncut _ _ ih =>
    rw [List.cons_append, Source.pieces, uncut, ih noBracket noAngle]
    rfl

theorem passes_plain_char {n : Nesting} {c : Char} (plain : c ∉ marks) :
    Passes n [.char c] ⟨n.brackets, n.angles, false⟩ := by
  simp only [marks, List.mem_cons, List.not_mem_nil, or_false, not_or] at plain
  apply Passes.one
  · simp [Nesting.cutsAt, plain]
  · simp [Lexeme.closes, plain]
  · simp [Nesting.after, Lexeme.opens, Lexeme.closes, plain]

theorem passes_plain {n : Nesting} (straight : n.afterDash = false) {text : List Char}
    (plain : Plain text) : Passes n (text.map .char) n := by
  obtain ⟨brackets, angles, dash⟩ := n
  obtain rfl : dash = false := straight
  induction text with
  | nil => exact .nil
  | cons c rest ih =>
    obtain ⟨first, later⟩ := List.forall_mem_cons.mp plain
    exact (passes_plain_char first).append (ih later)

theorem passes_arrow {n : Nesting} (straight : n.afterDash = false) :
    Passes n [.char '-', .char '>'] n := by
  obtain ⟨brackets, angles, dash⟩ := n
  obtain rfl : dash = false := straight
  have dash : Passes ⟨brackets, angles, false⟩ [.char '-'] ⟨brackets, angles, true⟩ :=
    .one rfl (by simp [Lexeme.closes]) (by simp [Nesting.after, Lexeme.opens, Lexeme.closes])
  have head : Passes ⟨brackets, angles, true⟩ [.char '>'] ⟨brackets, angles, false⟩ :=
    .one rfl (by simp [Lexeme.closes]) (by simp [Nesting.after, Lexeme.opens, Lexeme.closes])
  exact dash.append head

/-- Code in parentheses, with commas or not, as it is not outside. -/
theorem Passes.parenthesized {n : Nesting} (straight : n.afterDash = false) {code : List Lexeme}
    (inside : Passes ⟨n.brackets + 1, n.angles, false⟩ code ⟨n.brackets + 1, n.angles, false⟩) :
    Passes n (.char '(' :: code ++ [.char ')']) n := by
  obtain ⟨brackets, angles, dash⟩ := n
  obtain rfl : dash = false := straight
  have closing : Passes ⟨brackets + 1, angles, false⟩ [.char ')'] ⟨brackets, angles, false⟩ :=
    .one rfl (by simp) (by simp [Nesting.after, Lexeme.opens, Lexeme.closes])
  refine .cons rfl (by simp [Lexeme.closes]) ?_
  exact inside.append closing

/-- Code in angle brackets. They count only outside the other brackets. -/
theorem Passes.angled {n : Nesting} (straight : n.afterDash = false) {code : List Lexeme}
    (inside : Passes (n.after (.char '<')) code (n.after (.char '<'))) :
    Passes n (.char '<' :: code ++ [.char '>']) n := by
  obtain ⟨brackets, angles, dash⟩ := n
  obtain rfl : dash = false := straight
  refine .cons rfl (by simp [Lexeme.closes]) (inside.append (.one rfl (by simp [Lexeme.closes]) ?_))
  by_cases outside : brackets = 0
  · simp [Nesting.after, Lexeme.opens, Lexeme.closes, outside]
  · simp [Nesting.after, Lexeme.opens, Lexeme.closes, outside]

theorem after_angle (n : Nesting) : (n.after (.char '<')).afterDash = false ∧
    ((n.after (.char '<')).brackets ≠ 0 ∨ (n.after (.char '<')).angles ≠ 0) := by
  by_cases outside : n.brackets = 0
  · simp [Nesting.after, Lexeme.opens, Lexeme.closes, outside]
  · simp [Nesting.after, Lexeme.opens, Lexeme.closes, outside]

theorem Blanks.passes {s : List Char} (blanks : Blanks s) {n : Nesting}
    (straight : n.afterDash = false) : Passes n (s.map .char) n :=
  passes_plain straight (plain_of_blanks blanks)

theorem passes_comma {n : Nesting} (straight : n.afterDash = false)
    (inside : n.brackets ≠ 0 ∨ n.angles ≠ 0) : Passes n [.char ','] n := by
  obtain ⟨brackets, angles, dash⟩ := n
  obtain rfl : dash = false := straight
  refine .one ?_ (by simp [Lexeme.closes]) ?_
  · rcases inside with some | some <;> simp_all [Nesting.cutsAt]
  · simp [Nesting.after, Lexeme.opens, Lexeme.closes]

/-- A type leaves the nesting as it was; a list of types does so inside brackets. -/
theorem TypeShape.passes {part : TypePart} {text : List Char} (shape : TypeShape part text)
    {n : Nesting} (straight : n.afterDash = false)
    (inside : part = .items → n.brackets ≠ 0 ∨ n.angles ≠ 0) : Passes n (text.map .char) n := by
  induction shape generalizing n with
  | name isName => exact passes_plain straight isName.plain
  | generic isName blanks _ ih =>
    obtain ⟨straight', inside'⟩ := after_angle n
    have head := (passes_plain straight isName.plain).append (blanks.passes straight)
    have items := Passes.angled straight (ih straight' fun _ => inside')
    simpa using head.append items
  | function _ blanks blanks' _ items result =>
    have inside' : n.brackets + 1 ≠ 0 ∨ n.angles ≠ 0 := .inl (Nat.succ_ne_zero _)
    have parameters := Passes.parenthesized straight (items rfl fun _ => inside')
    have arrow := (blanks.passes straight).append
      ((passes_arrow straight).append (blanks'.passes straight))
    simpa using parameters.append (arrow.append (result straight nofun))
  | group _ ih =>
    have group := Passes.parenthesized straight (ih rfl nofun)
    simpa using group
  | nullable _ blanks ih =>
    have plain : Plain ['?'] := by decide
    have mark := (blanks.passes straight).append (passes_plain straight plain)
    simpa using (ih straight nofun).append mark
  | spaced blanks _ blanks' ih =>
    have type := (ih straight nofun).append (blanks'.passes straight)
    simpa using (blanks.passes straight).append type
  | none blanks => exact blanks.passes straight
  | one _ ih => exact ih straight nofun
  | more _ _ first later =>
    have comma := passes_comma straight (inside rfl)
    simpa using (first straight nofun).append (comma.append (later straight inside))

end RecordCompat.Source
