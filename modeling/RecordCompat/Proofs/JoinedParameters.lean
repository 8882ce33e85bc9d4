import RecordCompat.Proofs.Words

/-! Splitting undoes joining. Chunks are joined with a comma and a blank; each of them is one that
keeps apart from a comma behind it. Two things carry over from that comma to any other: a literal
looks at the next character only, and a cut leaves nothing open. The chunk is then read the same in
front of every comma and at the end of a list, and what follows is read as if it stood alone. -/
namespace RecordCompat.Source

open Text

/-- A chunk that is cut off where a comma follows it, and nowhere else. -/
def SelfContained (chunk : String) : Prop :=
  splitParameters (chunk ++ ", x") = [chunk, "x"]

instance (chunk : String) : Decidable (SelfContained chunk) :=
  inferInstanceAs (Decidable (_ = _))

/-- Where a literal ends depends on the next character, and not on whether there is one. -/
theorem literalLength_of_front {text more other : List Char} (front : other.take 1 <+: more)
    (ends : literalLength (text ++ more) = text.length) :
    literalLength (text ++ other) = text.length := by
  cases other with
  | nil =>
    have cut := literalLength_take (text ++ more) text.length
    rw [List.take_left, ends, Nat.min_self] at cut
    rw [List.append_nil, cut]
  | cons c other =>
    obtain ⟨tail, rfl⟩ := front
    exact @literalLength_of_head? _ (c :: tail) _ rfl ends

theorem spell_append (first second : List Lexeme) :
    spell (first ++ second) = spell first ++ spell second :=
  List.flatMap_append

theorem lexemes_literal {c : Char} {rest more : List Char} (opens : opensLiteral c = true)
    (ends : literalLength (c :: rest ++ more) = (c :: rest).length) :
    lexemes (c :: rest ++ more) = .literal (c :: rest) :: lexemes more := by
  rw [List.cons_append] at ends ⊢
  rw [lexemes, if_pos opens]
  simp [ends]

/-- The front of a code is read the same in front of other text that begins alike. -/
theorem lexemes_of_front {text other : List Char} {code rest : List Lexeme}
    (read : lexemes text = code ++ rest) (front : other.take 1 <+: spell rest) :
    lexemes (spell code ++ other) = code ++ lexemes other := by
  induction code generalizing text with
  | nil => rfl
  | cons x code ih =>
    cases text with
    | nil => simp [lexemes] at read
    | cons c tail =>
      rw [lexemes] at read
      split at read
      next opens =>
        obtain ⟨rfl, later⟩ := List.cons.inj read
        obtain ⟨n, length⟩ := Nat.exists_eq_add_one.mpr (literalLength_pos c tail)
        have bound := literalLength_le (c :: tail)
        have behind : tail.drop n = spell code ++ spell rest := by
          rw [length, Nat.add_sub_cancel] at later
          rw [← spell_lexemes (tail.drop n), later, ← spell_append]
          rfl
        have ends : literalLength (c :: tail.take n ++ (spell code ++ spell rest)) =
            (c :: tail.take n).length := by
          rw [← behind, List.cons_append, List.take_append_drop, length, List.length_cons,
            List.length_take]
          rw [length, List.length_cons] at bound
          omega
        have alike : (spell code ++ other).take 1 <+: spell code ++ spell rest := by
          cases spell code with
          | nil => exact front
          | cons d more => simp
        have same := lexemes_literal opens (literalLength_of_front alike ends)
        simpa [length, Lexeme.text, ih later] using same
      next plain =>
        obtain ⟨rfl, later⟩ := List.cons.inj read
        rw [spell_cons, List.append_assoc, Lexeme.text, List.singleton_append, lexemes,
          if_neg plain, ih later]
        rfl

/-- Code in which no comma cuts, but one behind it does. -/
structure Cut (n : Nesting) (code : List Lexeme) : Prop where
  alone : pieces n code = [code]
  comma : ∀ rest, pieces n (code ++ .char ',' :: rest) = code :: pieces .outside rest

theorem after_comma {n : Nesting} {x : Lexeme} (cuts : n.cutsAt x = true) :
    x = .char ',' ∧ n.after x = .outside := by
  simp only [Nesting.cutsAt, Bool.and_eq_true, beq_iff_eq] at cuts
  obtain ⟨⟨rfl, noBracket⟩, noAngle⟩ := cuts
  refine ⟨rfl, ?_⟩
  simp [Nesting.after, Lexeme.opens, Lexeme.closes, Nesting.outside, noBracket, noAngle]

theorem Cut.nil {n : Nesting} (cuts : n.cutsAt (.char ',') = true) : Cut n [] where
  alone := rfl
  comma rest := by rw [List.nil_append, pieces, if_pos cuts, (after_comma cuts).2]

theorem Cut.cons {n : Nesting} {x : Lexeme} {code : List Lexeme} (uncut : ¬ n.cutsAt x = true)
    (later : Cut (n.after x) code) : Cut n (x :: code) where
  alone := by rw [pieces, if_neg uncut, later.alone]; rfl
  comma rest := by rw [List.cons_append, pieces, if_neg uncut, later.comma]; rfl

/-- Code is one piece, or its first comma that cuts ends the first one. -/
theorem pieces_cases (n : Nesting) (code : List Lexeme) :
    pieces n code = [code] ∨
      ∃ front rest, code = front ++ .char ',' :: rest ∧ Cut n front := by
  induction code generalizing n with
  | nil => exact .inl rfl
  | cons x code ih =>
    by_cases cuts : n.cutsAt x = true
    · obtain ⟨rfl, -⟩ := after_comma cuts
      exact .inr ⟨[], code, rfl, .nil cuts⟩
    · rcases ih (n.after x) with whole | ⟨front, rest, rfl, cut⟩
      · left
        rw [pieces, if_neg cuts, whole]
        rfl
      · exact .inr ⟨x :: front, rest, rfl, .cons cuts cut⟩

theorem pieces_ne_nil (n : Nesting) (code : List Lexeme) : pieces n code ≠ [] := by
  cases code with
  | nil => exact List.cons_ne_nil _ _
  | cons x code =>
    rw [pieces]
    split
    · exact List.cons_ne_nil _ _
    · cases pieces (n.after x) code <;> exact List.cons_ne_nil _ _

def joined (codes : List (List Lexeme)) : List Lexeme :=
  [.char ','].intercalate codes

theorem joined_cons {codes : List (List Lexeme)} (some : codes ≠ []) (code : List Lexeme) :
    joined (code :: codes) = code ++ .char ',' :: joined codes := by
  obtain ⟨next, rest, rfl⟩ := List.exists_cons_of_ne_nil some
  rw [joined, List.intercalate_cons_cons, List.append_assoc]
  rfl

theorem joined_prepend (x : Lexeme) (codes : List (List Lexeme)) :
    joined (prepend x codes) = x :: joined codes := by
  match codes with
  | [] => rfl
  | [code] => rfl
  | first :: second :: rest => rfl

/-- Cutting takes away the commas between the pieces, and nothing else. -/
theorem joined_pieces (n : Nesting) (code : List Lexeme) : joined (pieces n code) = code := by
  induction code generalizing n with
  | nil => rfl
  | cons x code ih =>
    by_cases cuts : n.cutsAt x = true
    · rw [pieces, if_pos cuts, joined_cons (pieces_ne_nil _ _), ih, (after_comma cuts).1]
      rfl
    · rw [pieces, if_neg cuts, joined_prepend, ih]

theorem spell_joined (codes : List (List Lexeme)) :
    spell (joined codes) = [','].intercalate (codes.map spell) := by
  induction codes with
  | nil => rfl
  | cons code codes ih =>
    cases codes with
    | nil => simp [joined]
    | cons next rest =>
      simp only [List.map_cons] at ih ⊢
      rw [joined_cons (List.cons_ne_nil _ _), spell_append, spell_cons, ih,
        List.intercalate_cons_cons, List.append_assoc]
      rfl

theorem intercalate_pieces (n : Nesting) (code : List Lexeme) :
    [','].intercalate ((pieces n code).map spell) = spell code := by
  rw [← spell_joined, joined_pieces]

theorem mem_strip {text : List Char} {c : Char} (member : c ∈ text) (noBlank : isBlank c = false) :
    c ∈ strip text := by
  have kept {text : List Char} (member : c ∈ text) : c ∈ text.dropWhile isBlank := by
    rw [← @List.takeWhile_append_dropWhile _ isBlank text, List.mem_append] at member
    rcases member with blank | inside
    · rw [List.all_eq_true.mp List.all_takeWhile c blank] at noBlank
      cases noBlank
    · exact inside
  rw [strip, stripRight, List.mem_reverse]
  exact kept (List.mem_reverse.mpr (kept member))

theorem strip_length_le (text : List Char) : (strip text).length ≤ text.length :=
  Nat.le_trans (isPrefix_stripRight _).length_le (List.dropWhile_suffix isBlank).length_le

theorem length_le_intercalate {text : List Char} {texts : List (List Char)}
    (member : text ∈ texts) :
    text.length ≤ ([','].intercalate texts).length := by
  induction texts with
  | nil => cases member
  | cons first rest ih =>
    cases rest with
    | nil => simp_all
    | cons second rest =>
      rw [List.intercalate_cons_cons, List.length_append, List.length_append]
      rcases List.mem_cons.mp member with rfl | later
      · omega
      · have := ih later
        omega

/-- What is left of texts by stripping is as long as all of them only if there is one. -/
theorem eq_singleton_of_kept {texts : List (List Char)} {text : List Char}
    (joined : [','].intercalate texts = text)
    (kept : (texts.map strip).filter (· ≠ []) = [text]) : texts = [text] := by
  have among : text ∈ texts.map strip := by
    have left : text ∈ (texts.map strip).filter (· ≠ []) := by rw [kept]; exact List.mem_cons_self
    exact (List.mem_filter.mp left).1
  match texts with
  | [] => cases kept
  | [single] => rw [← joined, List.intercalate_singleton]
  | first :: second :: rest =>
    obtain ⟨piece, member, stripped⟩ := List.mem_map.mp among
    have short := strip_length_le piece
    rw [stripped, ← joined, List.intercalate_cons_cons, List.length_append, List.length_append,
      List.length_singleton] at short
    rcases List.mem_cons.mp member with rfl | later
    · omega
    · have := length_le_intercalate later
      omega

theorem intercalate_concat {texts : List (List Char)} (nonempty : texts ≠ []) (last : List Char) :
    [','].intercalate (texts ++ [last]) = [','].intercalate texts ++ ',' :: last := by
  induction texts with
  | nil => exact absurd rfl nonempty
  | cons first rest ih =>
    cases rest with
    | nil => simp [List.intercalate_cons_cons]
    | cons second rest =>
      have later := ih (List.cons_ne_nil _ _)
      rw [List.cons_append] at later
      rw [List.cons_append, List.cons_append, List.intercalate_cons_cons, later,
        List.intercalate_cons_cons]
      simp

theorem last_comma {before behind text more : List Char} (noComma : ',' ∉ behind)
    (noComma' : ',' ∉ more) (same : before ++ ',' :: behind = text ++ ',' :: more) :
    before = text ∧ behind = more := by
  rcases List.append_eq_append_iff.mp same with ⟨tail, front, back⟩ | ⟨tail, front, back⟩
  · cases tail with
    | nil => simp_all
    | cons c tail =>
      obtain ⟨-, rfl⟩ := List.cons.inj back
      simp at noComma
  · cases tail with
    | nil => simp_all
    | cons c tail =>
      obtain ⟨-, rfl⟩ := List.cons.inj back
      simp at noComma'

/-- Where texts are joined to a chunk and an `x` and just these two are left of them by
stripping, they are these two. -/
theorem eq_pair_of_kept {texts : List (List Char)} {text : List Char}
    (joined : [','].intercalate texts = text ++ ", x".toList)
    (kept : (texts.map strip).filter (· ≠ []) = [text, ['x']]) : texts = [text, [' ', 'x']] := by
  obtain ⟨front, last, rfl⟩ : ∃ front last, texts = front ++ [last] := by
    rcases List.eq_nil_or_concat texts with rfl | ⟨front, last, split⟩
    · cases kept
    · exact ⟨front, last, by rw [split, List.concat_eq_append]⟩
  have several : front ≠ [] := by
    rintro rfl
    have atMost := List.length_filter_le (· ≠ []) ([last].map strip)
    rw [List.nil_append] at kept
    rw [kept] at atMost
    simp at atMost
  rw [intercalate_concat several] at joined
  -- The last of the texts ends with the `x`, so this is what is left of it.
  have ends : 'x' ∈ last := by
    have same := congrArg List.getLast? joined
    rcases List.eq_nil_or_concat last with rfl | ⟨front, c, rfl⟩
    · simp at same
    · obtain rfl : c = 'x' := by simpa [List.getLast?_cons] using same
      simp
  have nonempty : strip last ≠ [] := List.ne_nil_of_mem (mem_strip ends (by decide))
  have final : [strip last].filter (· ≠ []) = [strip last] :=
    List.filter_cons_of_pos (decide_eq_true nonempty)
  have pair : [text, ['x']] = [text] ++ [['x']] := rfl
  rw [List.map_append, List.filter_append, List.map_singleton, final, pair] at kept
  obtain ⟨left, right⟩ := List.append_inj' kept rfl
  have noComma : ',' ∉ last := fun comma => by
    have inside := mem_strip comma (by decide)
    rw [List.singleton_inj.mp right] at inside
    exact absurd inside (by decide)
  obtain ⟨whole, rfl⟩ := last_comma noComma (by decide) joined
  rw [eq_singleton_of_kept whole left]
  rfl

/-- A chunk is read as one piece, whatever follows it behind a comma. -/
structure IsChunk (text : List Char) : Prop where
  trimmed : Trimmed text
  cut : Cut .outside (lexemes text)
  comma : ∀ rest, lexemes (text ++ ',' :: rest) = lexemes text ++ .char ',' :: lexemes rest

theorem isChunk_of_parameters {text : List Char}
    (contained : parameters (text ++ ", x".toList) = [text, ['x']]) : IsChunk text := by
  have joined := intercalate_pieces .outside (lexemes (text ++ ", x".toList))
  rw [spell_lexemes] at joined
  have kept := contained
  rw [parameters, ← Function.comp_def, ← List.map_map] at kept
  have texts := eq_pair_of_kept joined kept
  rcases pieces_cases .outside (lexemes (text ++ ", x".toList)) with whole | ⟨code, rest, read, cut⟩
  · rw [whole] at texts
    have length := congrArg List.length texts
    cases length
  rw [read, cut.comma] at texts
  obtain ⟨rfl, -⟩ := List.cons.inj texts
  have front (other : List Char) (alike : other.take 1 <+: [',']) :
      lexemes (spell code ++ other) = code ++ lexemes other :=
    lexemes_of_front read (alike.trans (List.prefix_append [','] (spell rest)))
  have whole : lexemes (spell code) = code := by
    have alone := front [] (List.nil_prefix)
    simpa [lexemes] using alone
  have left : spell code ∈ parameters (spell code ++ ", x".toList) := by
    rw [contained]
    exact List.mem_cons_self
  obtain ⟨among, nonempty⟩ := List.mem_filter.mp left
  obtain ⟨piece, -, stripped⟩ := List.mem_map.mp among
  constructor
  case trimmed =>
    rw [← stripped] at nonempty ⊢
    exact trimmed_strip (of_decide_eq_true nonempty)
  case cut => rwa [whole]
  case comma =>
    intro rest
    have comma : lexemes (',' :: rest) = .char ',' :: lexemes rest := by
      rw [lexemes, if_neg (by decide)]
    rw [front _ (by simp), comma, whole]

theorem IsChunk.kept {text : List Char} (chunk : IsChunk text) (rest : List (List Char)) :
    (strip text :: rest).filter (· ≠ []) = text :: rest.filter (· ≠ []) := by
  have stripped := chunk.trimmed.strip_padded (List.forall_mem_nil _) (List.forall_mem_nil _)
  rw [List.nil_append, List.append_nil] at stripped
  rw [stripped, List.filter_cons_of_pos]
  exact decide_eq_true chunk.trimmed.nonempty

theorem IsChunk.parameters {text : List Char} (chunk : IsChunk text) :
    parameters text = [text] := by
  rw [Source.parameters, chunk.cut.alone, List.map_singleton, spell_lexemes, chunk.kept]
  rfl

theorem IsChunk.parameters_comma {text : List Char} (chunk : IsChunk text) (rest : List Char) :
    Source.parameters (text ++ ',' :: rest) = text :: Source.parameters rest := by
  rw [Source.parameters, chunk.comma, chunk.cut.comma, List.map_cons, spell_lexemes,
    chunk.kept, ← Source.parameters]

theorem parameters_blank (text : List Char) : parameters (' ' :: text) = parameters text := by
  have read : lexemes (' ' :: text) = .char ' ' :: lexemes text := by
    rw [lexemes, if_neg (by decide)]
  have stripped (piece : List Lexeme) :
      strip (spell (.char ' ' :: piece)) = strip (spell piece) := rfl
  have first : pieces .outside (.char ' ' :: lexemes text) =
      prepend (.char ' ') (pieces .outside (lexemes text)) := by
    rw [pieces, if_neg (by decide)]
    rfl
  obtain ⟨piece, rest, split⟩ := List.exists_cons_of_ne_nil (pieces_ne_nil .outside (lexemes text))
  rw [parameters, read, first, parameters, split, prepend, List.map_cons, stripped, List.map_cons]

theorem parameters_intercalate {chunks : List (List Char)} (all : ∀ chunk ∈ chunks, IsChunk chunk) :
    parameters (", ".toList.intercalate chunks) = chunks := by
  induction chunks with
  | nil => simp [parameters, lexemes, pieces, spell, strip_blanks]
  | cons first rest ih =>
    obtain ⟨chunk, later⟩ := List.forall_mem_cons.mp all
    cases rest with
    | nil => rw [List.intercalate_singleton, chunk.parameters]
    | cons second rest =>
      have behind := ih later
      rw [List.intercalate_cons_cons, List.append_assoc]
      change parameters (first ++ ',' :: ' ' :: ", ".toList.intercalate (second :: rest)) = _
      rw [chunk.parameters_comma, parameters_blank, behind]

/-- Splitting gives back the chunks that were joined. -/
theorem splitParameters_intercalate {chunks : List String}
    (contained : ∀ chunk ∈ chunks, SelfContained chunk) :
    splitParameters (", ".intercalate chunks) = chunks := by
  have all : ∀ text ∈ chunks.map String.toList, IsChunk text := by
    intro text member
    obtain ⟨chunk, inside, rfl⟩ := List.mem_map.mp member
    have texts := congrArg (List.map String.toList) (contained chunk inside)
    rw [splitParameters, List.map_map, String.toList_append] at texts
    apply isChunk_of_parameters
    simpa [Function.comp_def] using texts
  rw [splitParameters, String.toList_intercalate, parameters_intercalate all, List.map_map]
  simp [Function.comp_def]

/-- A comma in a literal, an arrow in angle brackets, stray brackets on both sides and a literal
that its line leaves open. -/
theorem splitParameters_intercalate_of_default :
    let chunks := ["val s: Map<K, (A) -> B> = f(\"a, b)\", ',')", "]> @x\x7d",
      "'a\n\"\"\"\"b, \"\"\"\""]
    (∀ chunk ∈ chunks, SelfContained chunk) ∧
      splitParameters (", ".intercalate chunks) = chunks := by
  have contained : ∀ chunk ∈ ["val s: Map<K, (A) -> B> = f(\"a, b)\", ',')", "]> @x\x7d",
      "'a\n\"\"\"\"b, \"\"\"\""], SelfContained chunk := by decide +kernel
  exact ⟨contained, splitParameters_intercalate contained⟩

end RecordCompat.Source
