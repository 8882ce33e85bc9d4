import RecordCompat.Source.Lexeme

/-! Literals inside longer texts. A scan looks ahead by up to three characters, so its
length could depend on what follows. `scan_take` says that cutting a text only cuts the
scan: a literal that ends before the cut keeps its length. What follows can matter only to
a literal that reaches to the very end, and there it does not, if the literal is closed and
no quotation mark follows. -/
namespace RecordCompat.Source

theorem scan_pending_pos (pending : Nat) (frames : List Frame) (c : Char) (rest : List Char) :
    0 < scan (pending + 1) frames (c :: rest) := by
  rw [scan]; omega

/-- Only the end of a line stops a scan, inside a single-line literal and nothing else. -/
theorem advance_eq_none {frame : Frame} {outer : List Frame} {c : Char} {rest : List Char} :
    frame.advance outer c rest = none ↔
      ∃ mark, frame = .line mark ∧ c = '\n' ∧ mark ≠ '\n' ∧ outer = [] := by
  cases frame with
  | line mark =>
    simp only [Frame.advance]
    split
    · simp_all
    · split
      · simp_all
      · split
        · split <;> simp_all [eq_comm]
        · split <;> simp_all
  | raw => simp only [Frame.advance]; split <;> (try split) <;> (try split) <;> simp_all
  | braces =>
    simp only [Frame.advance]
    split <;> (try split) <;> (try split) <;> (try split) <;> simp_all

theorem advance_rawChar {outer : List Frame} {c : Char} {rest : List Char}
    (noMarks : ¬ ['"', '"', '"'] <+: c :: rest) (noTemplate : ¬ ['$', '{'] <+: c :: rest) :
    Frame.raw.advance outer c rest = some (0, .raw :: outer) := by
  have noTwo : ¬ (c = '"' ∧ ['"', '"'] <+: rest) := fun two =>
    noMarks (List.cons_prefix_cons.mpr ⟨two.1.symm, two.2⟩)
  have noThree : ¬ (c = '"' ∧ ['"', '"', '"'] <+: rest) := fun three =>
    noTwo ⟨three.1, List.IsPrefix.trans (by simp) three.2⟩
  have noOpening : ¬ (c = '$' ∧ ['{'] <+: rest) := fun opening =>
    noTemplate (List.cons_prefix_cons.mpr ⟨opening.1.symm, opening.2⟩)
  simp [Frame.advance, noTwo, noThree, noOpening]

theorem scan_raw_pos (outer : List Frame) (c : Char) (rest : List Char) :
    0 < scan 0 (.raw :: outer) (c :: rest) := by
  rw [scan]
  split
  next stops => simp [advance_eq_none] at stops
  next => omega

/-- Of three marks inside a raw literal, two at least belong to it. -/
theorem scan_raw_marks (outer : List Frame) (rest : List Char) :
    2 ≤ scan 0 (.raw :: outer) ('"' :: '"' :: '"' :: rest) := by
  have two : ['"', '"'] <+: '"' :: '"' :: rest := by simp
  by_cases more : ['"', '"', '"'] <+: '"' :: '"' :: rest
  · have := scan_raw_pos outer '"' ('"' :: rest)
    simp only [scan, Frame.advance, more, and_self, if_true] at this ⊢
    omega
  · have := scan_pending_pos 1 outer '"' ('"' :: rest)
    simp only [scan, Frame.advance, more, two, and_false, and_self, if_false, if_true] at this ⊢
    omega

/-- Cutting behind a character changes its step only where it cuts the look-ahead, and then the
scan runs up to the cut on both sides. -/
def CutAlike (frame : Frame) (outer : List Frame) (c : Char) (rest : List Char) (k : Nat) : Prop :=
  frame.advance outer c (rest.take k) = frame.advance outer c rest ∨
    ∃ near far, frame.advance outer c (rest.take k) = some near ∧
      frame.advance outer c rest = some far ∧
      scan near.1 near.2 (rest.take k) = k ∧ k ≤ scan far.1 far.2 rest

theorem cutAlike_zero (frame : Frame) (outer : List Frame) (c : Char) (rest : List Char) :
    CutAlike frame outer c rest 0 := by
  have stops : frame.advance outer c (rest.take 0) = none ↔ frame.advance outer c rest = none := by
    rw [advance_eq_none, advance_eq_none]
  cases whole : frame.advance outer c rest with
  | none => exact .inl ((stops.mpr whole).trans whole.symm)
  | some far =>
    cases cut : frame.advance outer c (rest.take 0) with
    | none => exact absurd (whole.symm.trans (stops.mp cut)) (by simp)
    | some near => exact .inr ⟨near, far, cut, whole, by simp [scan], Nat.zero_le _⟩

theorem cutAlike_raw_marks (outer : List Frame) (tail : List Char) (k : Nat) :
    CutAlike .raw outer '"' ('"' :: '"' :: tail) (k + 1) := by
  by_cases three : ['"', '"', '"'] <+: '"' :: '"' :: tail
  · rcases k with _ | _ | k
    · left
      simp [Frame.advance, three]
    · right
      obtain ⟨last, same⟩ := three
      refine ⟨(2, outer), (0, .raw :: outer), by simp [Frame.advance], ?_, ?_, ?_⟩
      · simp [Frame.advance, ← same]
      · simp [scan]
      · have := scan_raw_marks outer last
        simpa [← same] using this
    · left
      simp [Frame.advance, List.prefix_take_iff]
  · rcases k with _ | _ | k
    · right
      refine ⟨(0, .raw :: outer), (2, outer), by simp [Frame.advance], ?_, ?_, ?_⟩
      · simp [Frame.advance, three]
      · simp [scan, Frame.advance]
      · exact scan_pending_pos 1 outer _ _
    · left
      simp [Frame.advance, three]
    · left
      simp [Frame.advance, List.prefix_take_iff]

theorem cutAlike_braces_marks (outer : List Frame) (tail : List Char) (k : Nat) :
    CutAlike .braces outer '"' ('"' :: '"' :: tail) (k + 1) := by
  cases k with
  | zero =>
    right
    refine ⟨(0, .line '"' :: .braces :: outer), (2, .raw :: .braces :: outer), ?_, ?_, ?_, ?_⟩
    · simp [Frame.advance]
    · simp [Frame.advance]
    · simp [scan, Frame.advance]
    · exact scan_pending_pos 1 _ _ _
  | succ k =>
    left
    simp [Frame.advance, List.prefix_take_iff]

theorem advance_take (frame : Frame) (outer : List Frame) (c : Char) (rest : List Char) (k : Nat) :
    CutAlike frame outer c rest k := by
  rcases k with _ | k
  · exact cutAlike_zero frame outer c rest
  by_cases marks : c = '"' ∧ ['"', '"'] <+: rest
  · obtain ⟨rfl, tail, rfl⟩ := marks
    cases frame with
    | line mark => left; simp [Frame.advance, List.prefix_take_iff]
    | raw => exact cutAlike_raw_marks outer tail k
    | braces => exact cutAlike_braces_marks outer tail k
  · have fewer : ¬(c = '"' ∧ ['"', '"', '"'] <+: rest) := fun three =>
      marks ⟨three.1, List.IsPrefix.trans (by simp) three.2⟩
    left
    cases frame with
    | line mark => simp [Frame.advance, List.prefix_take_iff]
    | raw => simp [Frame.advance, List.prefix_take_iff, ← and_assoc, marks, fewer]
    | braces => simp [Frame.advance, List.prefix_take_iff, ← and_assoc, marks]

/-- A scan of a text that is cut goes as far as the whole scan, or up to the cut. -/
theorem scan_take (pending : Nat) (frames : List Frame) (text : List Char) (k : Nat) :
    scan pending frames (text.take k) = min (scan pending frames text) k := by
  fun_induction scan pending frames text generalizing k with
  | case1 => simp [scan]
  | case2 c rest pending frames ih =>
    cases k with
    | zero => simp [scan]
    | succ k => simp only [List.take_succ_cons, scan, ih]; omega
  | case3 => cases k <;> simp [scan]
  | case4 c rest frame outer stops =>
    cases k with
    | zero => simp [scan]
    | succ k =>
      rw [advance_eq_none, ← @advance_eq_none _ _ _ (rest.take k)] at stops
      simp [scan, stops]
  | case5 c rest frame outer pending frames steps ih =>
    cases k with
    | zero => simp [scan]
    | succ k =>
      rcases advance_take frame outer c rest k with same | ⟨near, far, step, whole, cut, reach⟩
      · simp only [List.take_succ_cons, scan, same, steps, ih]
        omega
      · rw [steps] at whole
        cases Option.some.inj whole
        simp only [List.take_succ_cons, scan, step, cut] at reach ⊢
        omega

theorem literalLength_line {c : Char} {rest : List Char}
    (plain : ¬ ['"', '"', '"'] <+: c :: rest) :
    literalLength (c :: rest) = 1 + scan 0 [.line c] rest := by
  rw [literalLength]
  rintro tail rfl rfl
  exact plain (by simp)

theorem literalLength_take (text : List Char) (k : Nat) :
    literalLength (text.take k) = min (literalLength text) k := by
  by_cases raw : ['"', '"', '"'] <+: text
  · obtain ⟨rest, rfl⟩ := raw
    match k with
    | 0 => simp [literalLength]
    | 1 => simp [literalLength, scan]; omega
    | 2 => simp [literalLength, scan, Frame.advance]; omega
    | k + 3 =>
      simp only [List.cons_append, List.nil_append, List.take_succ_cons, literalLength, scan_take]
      omega
  · cases text with
    | nil => simp [literalLength]
    | cons c rest =>
      cases k with
      | zero => simp [literalLength]
      | succ k =>
        have plain : ¬ ['"', '"', '"'] <+: (c :: rest).take (k + 1) := fun marks =>
          raw (marks.trans (List.take_prefix _ _))
        rw [List.take_succ_cons] at plain ⊢
        rw [literalLength_line plain, literalLength_line raw, scan_take]
        omega

theorem literalLength_append_of_lt {text : List Char} (ends : literalLength text < text.length)
    (more : List Char) : literalLength (text ++ more) = literalLength text := by
  have cut := literalLength_take (text ++ more) text.length
  rw [List.take_left] at cut
  omega

/-- Where a literal ends depends on what stands from its mark on, and a cut behind the mark only
cuts the literal: in front of the cut it ends where it ended, and elsewhere at the cut. -/
theorem literalEnd?_local (text : List Char) :
    (∀ start cut, start < cut → cut ≤ text.length → ∃ stop, literalEnd? text start = some stop ∧
      literalEnd? (text.take cut) start = some (min stop cut)) ∧
    ∀ front start, start < text.length → ∃ stop, literalEnd? text start = some stop ∧
      literalEnd? (front ++ text) (front.length + start) = some (front.length + stop) := by
  constructor
  · intro start cut behind within
    have inside : start < text.length := Nat.lt_of_lt_of_le behind within
    have inside' : start < (text.take cut).length := by
      rw [List.length_take]
      omega
    have literal : literalLength ((text.take cut).drop start) =
        min (literalLength (text.drop start)) (cut - start) := by
      rw [List.drop_take, literalLength_take]
    refine ⟨_, if_pos inside, ?_⟩
    rw [literalEnd?, if_pos inside', literal]
    congr 1
    omega
  · intro front start inside
    have inside' : front.length + start < (front ++ text).length := by
      rw [List.length_append]
      omega
    refine ⟨_, if_pos inside, ?_⟩
    rw [literalEnd?, if_pos inside', List.drop_length_add_append, Nat.add_assoc]

/-- A raw literal cut inside its opening marks and inside the mark of its template, and behind
another text. -/
theorem literalEnd?_local_of_raw :
    let text := "=\"\"\"a$\x7bb\x7d\"\"\"".toList
    (1 < 3 ∧ 1 < 6 ∧ 6 ≤ text.length) ∧
      (∃ stop, literalEnd? text 1 = some stop ∧ literalEnd? (text.take 3) 1 = some (min stop 3)) ∧
      (∃ stop, literalEnd? text 1 = some stop ∧ literalEnd? (text.take 6) 1 = some (min stop 6)) ∧
      ∃ stop, literalEnd? text 1 = some stop ∧
        literalEnd? ("\"".toList ++ text) (1 + 1) = some (1 + stop) := by
  intro text
  have long : 6 ≤ text.length := by decide
  obtain ⟨cuts, fronts⟩ := literalEnd?_local text
  refine ⟨⟨by decide, by decide, long⟩, ?_, ?_, ?_⟩
  · exact cuts 1 3 (by decide) (by omega)
  · exact cuts 1 6 (by decide) long
  · exact fronts "\"".toList 1 (by omega)

/-- Whether reading a text closes all frames, the last one with its last character. -/
def closes (pending : Nat) (frames : List Frame) : List Char → Bool
  | [] => pending == 0 && frames == []
  | c :: rest =>
    match pending, frames with
    | pending + 1, frames => closes pending frames rest
    | 0, [] => false
    | 0, frame :: outer =>
      match frame.advance outer c rest with
      | none => false
      | some (pending, frames) => closes pending frames rest

/-- Whether a text is one literal with its closing mark. -/
def isClosedLiteral : List Char → Bool
  | [] => false
  | '"' :: '"' :: '"' :: rest => closes 0 [.raw] rest
  | mark :: rest => opensLiteral mark && closes 0 [.line mark] rest

theorem run_prefix_append {mark : Char} {n : Nat} {text more : List Char}
    (apart : more.head? ≠ some mark) :
    List.replicate n mark <+: text ++ more ↔ List.replicate n mark <+: text := by
  induction n generalizing text with
  | zero => simp
  | succ n ih =>
    cases text with
    | nil =>
      cases more with
      | nil => simp
      | cons d more =>
        have other : mark ≠ d := fun same => apart (congrArg some same.symm)
        simp [List.replicate_succ, List.cons_prefix_cons, other]
    | cons c rest => simp [List.replicate_succ, List.cons_prefix_cons, ih]

theorem brace_prefix_append {text : List Char} (more : List Char) (behind : text ≠ []) :
    ['{'] <+: text ++ more ↔ ['{'] <+: text := by
  cases text with
  | nil => exact absurd rfl behind
  | cons c rest => simp [List.cons_prefix_cons]

theorem advance_append {frame : Frame} {outer : List Frame} {c : Char} {rest more : List Char}
    (apart : more.head? ≠ some '"') {next : Nat × List Frame}
    (step : frame.advance outer c rest = some next) (closed : closes next.1 next.2 rest = true) :
    frame.advance outer c (rest ++ more) = some next := by
  have two : ['"', '"'] <+: rest ++ more ↔ ['"', '"'] <+: rest := @run_prefix_append _ 2 _ _ apart
  have three : ['"', '"', '"'] <+: rest ++ more ↔ ['"', '"', '"'] <+: rest :=
    @run_prefix_append _ 3 _ _ apart
  cases rest with
  | nil =>
    -- The last character closes the last frame, so it is a mark or a brace by itself.
    obtain ⟨pending, frames⟩ := next
    obtain ⟨rfl, rfl⟩ : pending = 0 ∧ frames = [] := by simpa [closes] using closed
    cases frame with
    | line mark =>
      simp only [Frame.advance] at step ⊢
      by_cases escape : c = '\\'
      · simp [escape] at step
      by_cases last : c = mark
      · rwa [if_neg escape, if_pos last] at step ⊢
      rw [if_neg escape, if_neg last] at step
      by_cases feed : c = '\n'
      · -- A line end leaves the frames around it open.
        rw [if_pos feed] at step
        split at step <;> simp_all
      · simp [feed] at step
    | raw => simp [Frame.advance] at step
    | braces =>
      simp only [Frame.advance, two] at step ⊢
      exact step
  | cons d rest =>
    have brace := brace_prefix_append more (List.cons_ne_nil d rest)
    rw [← step]
    cases frame <;> simp only [Frame.advance, two, three, brace]

/-- A closed literal is read to its end and not further, whatever follows but a mark. -/
theorem scan_closed_append {pending : Nat} {frames : List Frame} {text more : List Char}
    (closed : closes pending frames text = true) (apart : more.head? ≠ some '"') :
    scan pending frames (text ++ more) = text.length := by
  fun_induction closes pending frames text with
  | case1 pending frames =>
    obtain ⟨rfl, rfl⟩ : pending = 0 ∧ frames = [] := by simpa using closed
    cases more <;> simp [scan]
  | case2 c rest pending frames ih => simp [scan, ih closed, Nat.add_comm]
  | case3 => cases closed
  | case4 => cases closed
  | case5 c rest frame outer pending frames step ih =>
    simp [scan, advance_append apart step closed, ih closed, Nat.add_comm]

theorem literalLength_closed_append {text more : List Char} (closed : isClosedLiteral text = true)
    (apart : more.head? ≠ some '"') : literalLength (text ++ more) = text.length := by
  by_cases raw : ['"', '"', '"'] <+: text
  · obtain ⟨rest, rfl⟩ := raw
    have inside : closes 0 [.raw] rest = true := by simpa [isClosedLiteral] using closed
    simp only [List.cons_append, List.nil_append, literalLength, scan_closed_append inside apart,
      List.length_cons]
    omega
  · have plain : ¬ ['"', '"', '"'] <+: text ++ more :=
      fun marks => raw ((@run_prefix_append _ 3 _ _ apart).mp marks)
    cases text with
    | nil => simp [isClosedLiteral] at closed
    | cons mark rest =>
      have inside : closes 0 [.line mark] rest = true := by
        rw [isClosedLiteral] at closed
        · exact (Bool.and_eq_true_iff.mp closed).2
        · rintro tail rfl rfl
          exact raw (by simp)
      rw [List.cons_append] at plain ⊢
      rw [literalLength_line plain, scan_closed_append inside apart, List.length_cons]
      omega

theorem literalLength_append {c : Char} {rest more : List Char}
    (closed : isClosedLiteral ((c :: rest).take (literalLength (c :: rest))) = true)
    (apart : more.head? ≠ some '"') :
    literalLength (c :: rest ++ more) = literalLength (c :: rest) := by
  rcases Nat.lt_or_eq_of_le (literalLength_le (c :: rest)) with inside | whole
  · exact literalLength_append_of_lt inside more
  · rw [whole, List.take_length] at closed
    rw [whole]
    exact literalLength_closed_append closed apart

/-- Where a literal ends depends on no more than the next character. -/
theorem literalLength_of_head? {text more other : List Char} (same : other.head? = more.head?)
    (ends : literalLength (text ++ more) = text.length) :
    literalLength (text ++ other) = text.length := by
  have cut (rest : List Char) :
      (text ++ rest).take (text.length + 1) = text ++ rest.head?.toList := by
    rw [List.take_length_add_append, List.take_one]
  have before := literalLength_take (text ++ more) (text.length + 1)
  have after := literalLength_take (text ++ other) (text.length + 1)
  rw [cut] at before after
  rw [same] at after
  omega

/-- A character at which a scan neither stops nor looks ahead. -/
def Neutral (c : Char) : Prop :=
  c ≠ '"' ∧ c ≠ '{' ∧ c ≠ '\n'

instance (c : Char) : Decidable (Neutral c) :=
  inferInstanceAs (Decidable (_ ∧ _))

theorem advance_neutral {d : Char} (neutral : Neutral d) (frame : Frame) (outer : List Frame)
    (c : Char) (rest more : List Char) :
    frame.advance outer c (rest ++ d :: more) = frame.advance outer c rest := by
  obtain ⟨noMark, noBrace, -⟩ := neutral
  have apart : (d :: more).head? ≠ some '"' := by simpa using noMark
  have open' : (d :: more).head? ≠ some '{' := by simpa using noBrace
  have two : ['"', '"'] <+: rest ++ d :: more ↔ ['"', '"'] <+: rest :=
    @run_prefix_append _ 2 _ _ apart
  have three : ['"', '"', '"'] <+: rest ++ d :: more ↔ ['"', '"', '"'] <+: rest :=
    @run_prefix_append _ 3 _ _ apart
  have brace : ['{'] <+: rest ++ d :: more ↔ ['{'] <+: rest := @run_prefix_append _ 1 _ _ open'
  cases frame <;> simp only [Frame.advance, two, three, brace]

/-- A scan that ends in front of a neutral character has closed all frames. -/
theorem closes_of_scan {pending : Nat} {frames : List Frame} {text more : List Char} {d : Char}
    (neutral : Neutral d) (ends : scan pending frames (text ++ d :: more) = text.length) :
    closes pending frames text = true := by
  fun_induction closes pending frames text with
  | case1 pending frames =>
    rw [List.nil_append, List.length_nil, scan.eq_def] at ends
    dsimp only at ends
    split at ends
    next => omega
    next => rfl
    next frame outer =>
      split at ends
      next stops =>
        obtain ⟨mark, -, feed, -⟩ := advance_eq_none.mp stops
        exact absurd feed neutral.2.2
      next => omega
  | case2 c rest pending frames ih =>
    simp only [List.cons_append, scan, List.length_cons] at ends
    exact ih (by omega)
  | case3 c rest => simp [scan] at ends
  | case4 c rest frame outer stops =>
    simp [scan, advance_neutral neutral, stops] at ends
  | case5 c rest frame outer pending frames step ih =>
    simp only [List.cons_append, scan, advance_neutral neutral, step, List.length_cons] at ends
    exact ih (by omega)

theorem isClosedLiteral_of_length {c d : Char} {rest more : List Char}
    (opens : opensLiteral c = true) (neutral : Neutral d)
    (ends : literalLength (c :: rest ++ d :: more) = (c :: rest).length) :
    isClosedLiteral (c :: rest) = true := by
  have apart : (d :: more).head? ≠ some '"' := by simpa using neutral.1
  by_cases raw : ['"', '"', '"'] <+: c :: rest
  · obtain ⟨inside, same⟩ := raw
    rw [← same] at ends ⊢
    simp only [List.cons_append, List.nil_append, literalLength, List.length_cons] at ends
    have closed := closes_of_scan neutral (show scan 0 [.raw] (inside ++ d :: more) = _ by omega)
    simpa [isClosedLiteral] using closed
  · have plain : ¬ ['"', '"', '"'] <+: c :: rest ++ d :: more := fun marks =>
      raw ((@run_prefix_append _ 3 _ _ apart).mp marks)
    rw [List.cons_append] at ends plain
    rw [literalLength_line plain, List.length_cons] at ends
    have closed := closes_of_scan neutral (show scan 0 [.line c] (rest ++ d :: more) = _ by omega)
    rw [isClosedLiteral]
    · simp [opens, closed]
    · rintro tail rfl rfl
      exact raw (by simp)

/-- Code whose literals are closed is read the same in front of whatever but a mark. -/
theorem lexemes_append {code more : List Char}
    (closed : ∀ text, .literal text ∈ lexemes code → isClosedLiteral text = true)
    (apart : more.head? ≠ some '"') : lexemes (code ++ more) = lexemes code ++ lexemes more := by
  fun_induction lexemes code with
  | case1 => rfl
  | case2 c rest opens n ih =>
    have same : literalLength (c :: (rest ++ more)) = n :=
      literalLength_append (closed _ List.mem_cons_self) apart
    have pos : 0 < n := literalLength_pos c rest
    have le : n ≤ rest.length + 1 := literalLength_le (c :: rest)
    rw [List.cons_append, lexemes, if_pos opens]
    simp only [same, List.cons_append, List.cons.injEq, Lexeme.literal.injEq]
    constructor
    · rw [← List.cons_append, List.take_append_of_le_length (by simpa using le)]
    · rw [List.drop_append_of_le_length (by omega)]
      exact ih fun text member => closed text (List.mem_cons_of_mem _ member)
  | case3 c rest plain ih =>
    rw [List.cons_append, lexemes, if_neg plain,
      ih fun text member => closed text (List.mem_cons_of_mem _ member)]
    rfl

theorem lexemes_unquoted_append {text : List Char}
    (unquoted : ∀ c ∈ text, opensLiteral c = false) (more : List Char) :
    lexemes (text ++ more) = text.map .char ++ lexemes more := by
  induction text with
  | nil => rfl
  | cons c rest ih =>
    obtain ⟨first, later⟩ := List.forall_mem_cons.mp unquoted
    rw [List.cons_append, lexemes, if_neg (by simp [first]), ih later]
    rfl

theorem lexemes_unquoted {text : List Char} (unquoted : ∀ c ∈ text, opensLiteral c = false) :
    lexemes text = text.map .char := by
  have whole := lexemes_unquoted_append unquoted []
  rw [List.append_nil] at whole
  rw [whole]
  simp [lexemes]

end RecordCompat.Source
