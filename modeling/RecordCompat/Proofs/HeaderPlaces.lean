import RecordCompat.Proofs.HeaderSearch
import RecordCompat.Source.Extraction

/-! Where the search for headers finds them. It finds every header that a text holds, in
literals as elsewhere, except those that begin inside a header found before: what is found
is exactly the leftmost choice of headers that do not overlap. -/
namespace RecordCompat.Source

open Text

theorem headerAt?_split {text name : List Char} {n : Nat}
    (found : headerAt? text = some (name, n)) :
    ∃ front back, text = front ++ '(' :: back ∧ n = front.length + 1 := by
  simp only [headerAt?, Option.bind_eq_bind, Option.bind_eq_some_iff] at found
  obtain ⟨first, data, second, skipped, third, word, fourth, blank, found⟩ := found
  obtain ⟨gap, -, -, rfl⟩ := eq_of_skipSomeBlanks? skipped
  obtain ⟨gap', -, -, rfl⟩ := eq_of_skipSomeBlanks? blank
  split at found
  next header =>
    obtain ⟨-, opening, -⟩ := header
    obtain ⟨-, length⟩ := Prod.mk.inj (Option.some.inj found)
    have ends : ((fourth.dropWhile isWord).dropWhile (· ≠ '(')) <:+ text := by
      have inside := (List.dropWhile_suffix (· ≠ '(')).trans
        (List.dropWhile_suffix (l := fourth) isWord)
      rw [eq_of_dropWord? data, eq_of_dropWord? word]
      refine inside.trans ?_
      simp only [← List.append_assoc]
      exact List.suffix_append _ _
    have first := List.head?_dropWhile_not (· ≠ '(') (fourth.dropWhile isWord)
    cases rest : (fourth.dropWhile isWord).dropWhile (· ≠ '(') with
    | nil => exact absurd rest opening
    | cons c back =>
      rw [rest] at ends first length
      obtain rfl : c = '(' := by simpa using first
      obtain ⟨front, rfl⟩ := ends
      refine ⟨front, back, rfl, ?_⟩
      rw [← length, List.length_append]
      omega
  next => cases found

def endsInWord (text : List Char) : Bool :=
  text.getLast?.any isWord

/-- A header stands in a text. -/
structure Occurs (text : List Char) (h : Header) : Prop where
  reads : ∃ name n, headerAt? (text.drop h.start) = some (name, n) ∧
    h.name = String.ofList name ∧ h.stop = h.start + n
  front : endsInWord (text.take h.start) = false

theorem noWord_parenthesis : isWord '(' = false := by decide

theorem Occurs.eq_of_start {text : List Char} {g h : Header} (first : Occurs text g)
    (second : Occurs text h) (same : g.start = h.start) : g = h := by
  obtain ⟨name, n, found, named, stop⟩ := first.reads
  obtain ⟨name', n', found', named', stop'⟩ := second.reads
  rw [same, found'] at found
  obtain ⟨rfl, rfl⟩ := Prod.mk.inj (Option.some.inj found)
  cases g
  cases h
  simp_all

theorem le_start_of_mem {offset : Nat} {afterWord : Bool} {text : List Char} {h : Header}
    (member : h ∈ headersFrom offset afterWord text) : offset ≤ h.start := by
  fun_induction headersFrom offset afterWord text with
  | case1 => cases member
  | case2 offset afterWord c rest name n found ih =>
    rcases List.mem_cons.mp member with rfl | later
    · exact Nat.le_refl _
    · have := ih later
      omega
  | case3 offset afterWord c rest none ih =>
    have := ih member
    omega

theorem occurs_at {pre rest name : List Char} {n : Nat} (free : endsInWord pre = false)
    (header : headerAt? rest = some (name, n)) :
    Occurs (pre ++ rest) ⟨String.ofList name, pre.length, pre.length + n⟩ := by
  constructor
  · exact ⟨name, n, by simpa using header, rfl, rfl⟩
  · simpa using free

theorem start_ne_of_none {pre rest : List Char} {h : Header}
    (none : (if endsInWord pre then none else headerAt? rest) = none)
    (occurs : Occurs (pre ++ rest) h) : h.start ≠ pre.length := by
  intro same
  obtain ⟨name, n, found, -⟩ := occurs.reads
  have free := occurs.front
  rw [same, List.drop_left] at found
  rw [same, List.take_left] at free
  simp [free, found] at none

/-- A header from an index on that begins inside none of those found. -/
structure Apart (text : List Char) (offset : Nat) (found : List Header) (h : Header) : Prop where
  behind : offset ≤ h.start
  occurs : Occurs text h
  apart : ∀ g ∈ found, g.start < h.start → g.stop ≤ h.start

section Apart

variable {text : List Char} {found : List Header} {first h : Header} {offset : Nat}

theorem apart_cons (occurs : Occurs text first) (some : first.start ≤ first.stop)
    (later : ∀ g ∈ found, first.stop ≤ g.start) :
    Apart text first.start (first :: found) h ↔ h = first ∨ Apart text first.stop found h := by
  constructor
  · rintro ⟨near, here, apart⟩
    obtain ⟨behind, apart⟩ := List.forall_mem_cons.mp apart
    rcases Nat.eq_or_lt_of_le near with same | inside
    · exact .inl (here.eq_of_start occurs same.symm)
    · exact .inr ⟨behind inside, here, apart⟩
  · rintro (rfl | ⟨far, here, apart⟩)
    · refine ⟨Nat.le_refl _, occurs, List.forall_mem_cons.mpr ⟨fun early => ?_, ?_⟩⟩
      · exact absurd early (Nat.lt_irrefl _)
      · intro g member early
        have := later g member
        omega
    · exact ⟨Nat.le_trans some far, here, List.forall_mem_cons.mpr ⟨fun _ => far, apart⟩⟩

theorem apart_succ (noHeader : ∀ h, Occurs text h → h.start ≠ offset) :
    Apart text offset found h ↔ Apart text (offset + 1) found h := by
  constructor
  · rintro ⟨near, here, apart⟩
    have other := noHeader h here
    exact ⟨by omega, here, apart⟩
  · rintro ⟨far, here, apart⟩
    exact ⟨by omega, here, apart⟩

end Apart

theorem mem_headersFrom_iff {pre rest : List Char} {h : Header} :
    h ∈ headersFrom pre.length (endsInWord pre) rest ↔
      Apart (pre ++ rest) pre.length (headersFrom pre.length (endsInWord pre) rest) h := by
  generalize length : pre.length = offset
  generalize last : endsInWord pre = afterWord
  fun_induction headersFrom offset afterWord rest generalizing pre with
  | case1 offset afterWord =>
    refine iff_of_false List.not_mem_nil ?_
    rintro ⟨behind, occurs, -⟩
    obtain ⟨name, n, found, -⟩ := occurs.reads
    rw [List.append_nil, List.drop_eq_nil_of_le (by omega)] at found
    cases found
  | case2 offset afterWord c rest name n found ih =>
    obtain ⟨rfl, header⟩ : afterWord = false ∧ headerAt? (c :: rest) = some (name, n) := by
      cases afterWord <;> simp_all
    subst length
    obtain ⟨front, back, split, rfl⟩ := headerAt?_split header
    have behind : rest.drop (front.length + 1 - 1) = back := by
      have dropped : (c :: rest).drop (front.length + 1) = back := by simp [split]
      simpa using dropped
    -- The search goes on behind the parenthesis, which is part of no word.
    have later := @ih (pre ++ (front ++ ['('])) (by simp) (by simp [endsInWord, noWord_parenthesis])
    have whole : pre ++ (front ++ ['(']) ++ back = pre ++ c :: rest := by simp [split]
    rw [behind, whole] at later
    rw [behind, List.mem_cons, later]
    exact (apart_cons (occurs_at last header) (Nat.le_add_right _ _) fun g => le_start_of_mem).symm
  | case3 offset afterWord c rest none ih =>
    subst length last
    have later := @ih (pre ++ [c]) (by simp) (by simp [endsInWord])
    rw [List.append_assoc, List.singleton_append] at later
    rw [later]
    exact (apart_succ fun h => start_ne_of_none none).symm

theorem mem_headers_iff {text : List Char} {h : Header} :
    h ∈ headers text ↔
      Occurs text h ∧ ∀ g ∈ headers text, g.start < h.start → g.stop ≤ h.start := by
  refine (@mem_headersFrom_iff [] text h).trans ⟨fun chosen => ⟨chosen.occurs, chosen.apart⟩, ?_⟩
  rintro ⟨occurs, apart⟩
  exact ⟨Nat.zero_le _, occurs, apart⟩

def InLiteral (text : List Char) (i : Nat) : Prop :=
  ∃ before literal after, segments text = before ++ .literal literal :: after ∧
    (before.flatMap Segment.text).length ≤ i ∧
    i < (before.flatMap Segment.text).length + literal.length

/-- Records are declared outside literals exactly where every header that begins in a
literal, and whose list has an end, begins inside a header found before. -/
theorem declared_outside_literals_iff (text : String) :
    let code := stripComments text.toList
    (∀ d ∈ declarations code, d.record?.isSome = true → ¬ InLiteral code d.header.start) ↔
      ∀ h, Occurs code h → InLiteral code h.start →
        (bracketed? (code.drop h.stop)).isSome = true →
          ∃ g ∈ headers code, g.start < h.start ∧ h.start < g.stop := by
  intro code
  constructor
  · intro outside h occurs inside closed
    by_cases found : h ∈ headers code
    · have declared : declarationAt code h ∈ declarations code := List.mem_map_of_mem found
      have record : (declarationAt code h).record?.isSome = true := by
        simpa [Declaration.record?, declarationAt] using closed
      exact absurd inside (outside _ declared record)
    · rw [mem_headers_iff] at found
      simpa [occurs] using found
  · intro covered d declared record inside
    obtain ⟨h, found, rfl⟩ := List.mem_map.mp declared
    obtain ⟨occurs, apart⟩ := mem_headers_iff.mp found
    have closed : (bracketed? (code.drop h.stop)).isSome = true := by
      simpa [Declaration.record?, declarationAt] using record
    obtain ⟨g, earlier, before, behind⟩ := covered h occurs inside closed
    have := apart g earlier before
    omega

/-- Text in a literal may declare a record. -/
theorem record_declared_in_literal :
    let text := "val note = \"data class User(val id: Int)\""
    let code := stripComments text.toList
    (extract text).records ≠ [] ∧ ∀ d ∈ declarations code, InLiteral code d.header.start := by
  intro text code
  have found : headers code = [⟨"User", 12, 28⟩] := by decide +kernel
  have list : bracketed? (code.drop 28) = some "val id: Int".toList := by decide +kernel
  have read : segments code = "val note = ".toList.map .code ++
      [.literal "\"data class User(val id: Int)\"".toList] := by decide +kernel
  constructor
  · simp [extract, declarations, found, declarationAt, list, Declaration.record?, code]
  · intro d declared
    obtain rfl : d = declarationAt code ⟨"User", 12, 28⟩ := by
      simpa [declarations, found] using declared
    exact ⟨_, _, [], read, by decide, by decide⟩

end RecordCompat.Source
