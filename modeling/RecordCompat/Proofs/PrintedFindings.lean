import RecordCompat.Proofs.ExtractedRecords
import RecordCompat.Proofs.PairingBalance
import RecordCompat.Terminal

/-! What can be read off a report for a terminal. The report is made of texts that are printed one
after the other; a text that shows a finding begins with the painted marker of its severity, by
itself for a removed record and indented for a compared one, and no other text does. So the
findings can be read back from the texts, in order and as they are, as long as their messages
hold nothing that is left out or expanded in print. -/
namespace RecordCompat

open Source Text

namespace Terminal

/-- A text that is printed as it is. -/
def Verbatim (text : List Char) : Prop :=
  ∀ c ∈ text, isControl c = false ∧ c ≠ '\t' ∧ c ≠ '\n'

theorem Verbatim.filter {text : List Char} (verbatim : Verbatim text) :
    text.filter (fun c => !isControl c) = text :=
  List.filter_eq_self.mpr fun c member => by simp [(verbatim c member).1]

instance (text : List Char) : Decidable (Verbatim text) :=
  inferInstanceAs (Decidable (∀ c ∈ text, isControl c = false ∧ c ≠ '\t' ∧ c ≠ '\n'))

theorem Verbatim.append {first second : List Char} (verbatim : Verbatim first)
    (verbatim' : Verbatim second) : Verbatim (first ++ second) :=
  List.forall_mem_append.mpr ⟨verbatim, verbatim'⟩

/-- Nothing in a verbatim text interrupts the part that is laid out. -/
theorem layOut_append (style : Style) (column : Nat) (part : List Char) {front : List Char}
    (verbatim : Verbatim front) (rest : List Char) :
    ∃ behind, layOut style column part (front ++ rest) =
      layOut style behind (front.reverse ++ part) rest := by
  induction front generalizing column part with
  | nil => exact ⟨column, rfl⟩
  | cons c front ih =>
    obtain ⟨⟨-, noTab, noNewline⟩, later⟩ := List.forall_mem_cons.mp verbatim
    obtain ⟨behind, laid⟩ := ih (column + columns c) (c :: part) later
    refine ⟨behind, ?_⟩
    rw [List.cons_append, layOut, if_neg noNewline, if_neg noTab, laid]
    simp

/-- A piece that is printed as it is comes first on its line. -/
theorem lineFrom_cons (column : Nat) {span : Span} (verbatim : Verbatim span.text)
    (spans : List Span) :
    ∃ behind, lineFrom column (span :: spans) = span.paint ++ lineFrom behind spans := by
  obtain ⟨behind, laid⟩ := layOut_append span.style column [] verbatim []
  rw [List.append_nil, List.append_nil, layOut, List.reverse_reverse] at laid
  exact ⟨behind, by rw [lineFrom, verbatim.filter, laid]⟩

theorem lineFrom_verbatim (column : Nat) {spans : List Span}
    (verbatim : ∀ span ∈ spans, Verbatim span.text) :
    lineFrom column spans = String.join (spans.map Span.paint) ++ "\n" := by
  induction spans generalizing column with
  | nil => rfl
  | cons span spans ih =>
    obtain ⟨here, later⟩ := List.forall_mem_cons.mp verbatim
    obtain ⟨behind, first⟩ := lineFrom_cons column here spans
    rw [first, ih behind later, List.map_cons, String.join_cons, String.append_assoc]

@[simp] theorem paint_plain (text : List Char) :
    Span.paint ⟨.plain, text⟩ = String.ofList text := by
  simp [Span.paint]

def opening (style : Style) : List Char :=
  if style = .plain then [] else ("\x1b[" ++ style.code ++ "m").toList

theorem paint_front (style : Style) {text : List Char} (nonempty : text ≠ []) :
    ∃ rest, (Span.paint ⟨style, text⟩).toList = opening style ++ text ++ rest := by
  by_cases plain : style = .plain
  · exact ⟨[], by simp [Span.paint, opening, plain]⟩
  · exact ⟨"\x1b[0m".toList, by simp [Span.paint, opening, plain, nonempty]⟩

theorem layOut_front (style : Style) (column : Nat) {part : List Char} (nonempty : part ≠ [])
    (text : List Char) :
    ∃ rest, (layOut style column part text).1.toList =
      opening style ++ part.reverse ++ rest := by
  induction text generalizing column part with
  | nil => exact paint_front style (List.reverse_ne_nil_iff.mpr nonempty)
  | cons c text ih =>
    rw [layOut]
    split
    next =>
      obtain ⟨rest, painted⟩ := paint_front style (List.reverse_ne_nil_iff.mpr nonempty)
      simp only [String.toList_append, painted, List.append_assoc]
      exact ⟨_, rfl⟩
    next =>
      split
      next =>
        have present :
            (List.replicate (tabWidth - column % tabWidth) ' ' ++ part).reverse ≠ [] := by
          simp [nonempty]
        obtain ⟨rest, painted⟩ := paint_front style present
        rw [String.toList_append, painted, List.reverse_append]
        simp only [List.append_assoc]
        exact ⟨_, rfl⟩
      next =>
        obtain ⟨rest, later⟩ := ih (column + columns c) (List.cons_ne_nil c part)
        exact ⟨c :: rest, by simpa using later⟩

/-- Of a piece that begins verbatim, this beginning comes first on its line. -/
theorem lineFrom_front (column : Nat) (style : Style) (front : List Char) (nonempty : front ≠ [])
    (verbatim : Verbatim front) (tail : List Char) (spans : List Span) :
    ∃ rest, (lineFrom column (⟨style, front ++ tail⟩ :: spans)).toList =
      opening style ++ front ++ rest := by
  have kept : (front ++ tail).filter (fun c => !isControl c) =
      front ++ tail.filter fun c => !isControl c := by
    rw [List.filter_append, verbatim.filter]
  obtain ⟨behind, laid⟩ :=
    layOut_append style column [] verbatim (tail.filter fun c => !isControl c)
  obtain ⟨rest, first⟩ := layOut_front style behind (List.reverse_ne_nil_iff.mpr nonempty)
    (tail.filter fun c => !isControl c)
  rw [List.reverse_reverse] at first
  rw [lineFrom, kept, laid, List.append_nil, String.toList_append, first, List.append_assoc]
  exact ⟨_, rfl⟩

def markerSpan (severity : Severity) : Span :=
  ⟨(marker severity).1, (marker severity).2.toList⟩

def painted (severity : Severity) : List Char :=
  (markerSpan severity).paint.toList

/-- The severity that a text begins with, and what stands behind it. -/
def marked? (text : List Char) : Option (Severity × List Char) :=
  [Severity.breaking, .warning, .safe].findSome? fun severity =>
    (dropWord? (painted severity ++ [' ']) text).map (severity, ·)

/-- What stands in front of a place in parentheses, or else of the end of the line. -/
def beforePlace : List Char → List Char
  | [] => []
  | ' ' :: '(' :: _ => []
  | c :: rest => if c = '\n' then [] else c :: beforePlace rest

/-- The finding that a text begins with: its severity and its message. An indented message takes
the rest of its line; another one may be followed by the place of the record. -/
def findingIn? (text : List Char) : Option (Severity × String) :=
  match dropWord? [' ', ' ', ' '] text with
  | some line => (marked? line).map fun (severity, rest) =>
      (severity, String.ofList (rest.takeWhile (· ≠ '\n')))
  | none => (marked? text).map fun (severity, rest) => (severity, String.ofList (beforePlace rest))

/-- The finding that a printed text shows, if it shows one. -/
def shown? (text : String) : Option (Severity × String) :=
  findingIn? text.toList

theorem marked?_painted (severity : Severity) (rest : List Char) :
    marked? (painted severity ++ ' ' :: rest) = some (severity, rest) := by
  cases severity
  · rfl
  · rfl
  · rfl

theorem beforePlace_append {front rest : List Char} (plain : '(' ∉ front ∧ '\n' ∉ front)
    (ends : rest = ['\n'] ∨ [' ', '('] <+: rest) : beforePlace (front ++ rest) = front := by
  induction front with
  | nil =>
    rcases ends with rfl | ⟨place, rfl⟩
    · rfl
    · rfl
  | cons c front ih =>
    simp only [List.mem_cons, not_or] at plain
    obtain ⟨⟨-, inside⟩, newline, lines⟩ := plain
    have goesOn : ∀ tail, front ++ rest ≠ '(' :: tail := by
      intro tail split
      cases front with
      | nil =>
        rcases ends with rfl | ⟨place, rfl⟩
        · cases split
        · cases split
      | cons d front =>
        obtain ⟨rfl, -⟩ := List.cons.inj split
        exact inside List.mem_cons_self
    rw [List.cons_append, beforePlace, if_neg (Ne.symm newline), ih ⟨inside, lines⟩]
    exact fun tail _ split => goesOn tail split

theorem findingIn?_painted (severity : Severity) (rest : List Char) :
    findingIn? (painted severity ++ ' ' :: rest) =
      some (severity, String.ofList (beforePlace rest)) := by
  have outside : dropWord? [' ', ' ', ' '] (painted severity ++ ' ' :: rest) = none := by
    cases severity
    · rfl
    · rfl
    · rfl
  rw [findingIn?, outside]
  simp only [marked?_painted, Option.map_some]

theorem findingIn?_indented (severity : Severity) (rest : List Char) :
    findingIn? (' ' :: ' ' :: ' ' :: (painted severity ++ ' ' :: rest)) =
      some (severity, String.ofList (rest.takeWhile (· ≠ '\n'))) := by
  have inside : dropWord? [' ', ' ', ' '] (' ' :: ' ' :: ' ' :: (painted severity ++ ' ' :: rest)) =
      some (painted severity ++ ' ' :: rest) := by
    simp [dropWord?]
  rw [findingIn?, inside]
  simp only [marked?_painted, Option.map_some]

theorem verbatim_marker (severity : Severity) : Verbatim (markerSpan severity).text := by
  cases severity <;> decide

def place (c : Comparison) : String :=
  if c.location = "" then "" else " (" ++ c.location ++ ")"

theorem place_cases (c : Comparison) :
    place c = "" ∨ ∃ tail, (place c).toList = [' ', '('] ++ tail := by
  unfold place
  split
  · exact .inl rfl
  · refine .inr ⟨c.location.toList ++ [')'], ?_⟩
    simp

def headerLine (c : Comparison) : String :=
  line [(.bold, "Analyzing: " ++ c.name ++ place c)]

def addedLine (c : Comparison) : String :=
  line [(.cyan, "[ADDED]"), (.plain, " New data class added: " ++ c.name ++ place c)]

def removedLine (c : Comparison) (f : Finding) : String :=
  line [marker f.severity, (.plain, " " ++ f.message ++ place c)]

def comparedLine (f : Finding) : String :=
  line [(.plain, "   "), marker f.severity, (.plain, " " ++ f.message)]

def silentLine : String :=
  line [(.plain, "   No breaking changes")]

/-- A line shows no finding when it begins with what no marker begins with. -/
theorem shown?_line {style : Style} {text : String} {c : Char} {front tail : List Char}
    (begins : text.toList = c :: front ++ tail) (verbatim : Verbatim (c :: front))
    (hidden : ∀ rest, findingIn? (opening style ++ (c :: front) ++ rest) = none)
    (spans : List (Style × String)) : shown? (line ((style, text) :: spans)) = none := by
  obtain ⟨rest, first⟩ := lineFrom_front 0 style (c :: front) (List.cons_ne_nil c front)
    verbatim tail (spans.map fun span => ⟨span.1, span.2.toList⟩)
  change findingIn? (lineFrom 0 (⟨style, text.toList⟩ :: _)).toList = none
  rw [begins, first, hidden]

theorem shown?_headerLine (c : Comparison) : shown? (headerLine c) = none := by
  have begins : ("Analyzing: " ++ c.name ++ place c).toList =
      ['A'] ++ ("nalyzing: " ++ c.name ++ place c).toList := by
    simp only [String.toList_append]
    rfl
  exact shown?_line begins (by decide) (fun _ => rfl) _

theorem shown?_addedLine (c : Comparison) : shown? (addedLine c) = none :=
  shown?_line (show _ = ['['] ++ "ADDED]".toList from rfl) (by decide) (fun _ => rfl) _

theorem shown?_silentLine : shown? silentLine = none :=
  shown?_line (show _ = [' ', ' ', ' ', 'N'] ++ "o breaking changes".toList from rfl) (by decide)
    (fun _ => rfl) _

theorem verbatim_indented {text : String} (verbatim : Verbatim text.toList) :
    Verbatim (" " ++ text).toList := by
  rw [String.toList_append]
  exact Verbatim.append (by decide) verbatim

theorem shown?_comparedLine {f : Finding} (verbatim : Verbatim f.message.toList) :
    shown? (comparedLine f) = some (f.severity, f.message) := by
  have printed : (comparedLine f).toList =
      ' ' :: ' ' :: ' ' :: (painted f.severity ++ ' ' :: (f.message.toList ++ ['\n'])) := by
    change (lineFrom 0 [⟨.plain, "   ".toList⟩, markerSpan f.severity,
      ⟨.plain, (" " ++ f.message).toList⟩]).toList = _
    rw [lineFrom_verbatim]
    · simp [painted]
    · simp only [List.forall_mem_cons]
      exact ⟨by decide, verbatim_marker f.severity, verbatim_indented verbatim,
        List.forall_mem_nil _⟩
  have whole : (f.message.toList ++ ['\n']).takeWhile (· ≠ '\n') = f.message.toList := by
    apply takeWhile_run
    · exact fun c member => decide_eq_true (verbatim c member).2.2
    · intro c newline
      cases newline
      rfl
  rw [shown?, printed, findingIn?_indented, whole, String.ofList_toList]

theorem shown?_removedLine (c : Comparison) {f : Finding} (verbatim : Verbatim f.message.toList)
    (noPlace : '(' ∉ f.message.toList) :
    shown? (removedLine c f) = some (f.severity, f.message) := by
  have noNewline : '\n' ∉ f.message.toList := fun member => (verbatim _ member).2.2 rfl
  obtain ⟨behind, marked⟩ := lineFrom_cons 0 (verbatim_marker f.severity)
    [⟨.plain, (" " ++ f.message ++ place c).toList⟩]
  -- Behind the message stands the place, or the line ends.
  have printed : ∃ rest, (rest = ['\n'] ∨ [' ', '('] <+: rest) ∧
      (removedLine c f).toList = painted f.severity ++ ' ' :: (f.message.toList ++ rest) := by
    change ∃ rest, _ ∧ (lineFrom 0 [markerSpan f.severity, _]).toList = _
    rw [marked, String.toList_append]
    rcases place_cases c with none | ⟨tail, some⟩
    · refine ⟨['\n'], .inl rfl, ?_⟩
      rw [none, String.append_empty, lineFrom_verbatim]
      · simp [painted]
      · exact List.forall_mem_singleton.mpr (verbatim_indented verbatim)
    · obtain ⟨rest, front⟩ := lineFrom_front behind .plain ((" " ++ f.message).toList ++ [' ', '('])
        (by simp) ((verbatim_indented verbatim).append (by decide)) tail []
      refine ⟨[' ', '('] ++ rest, .inr (List.prefix_append _ _), ?_⟩
      rw [String.toList_append, some, ← List.append_assoc, front]
      simp [painted, opening]
  obtain ⟨rest, ends, printed⟩ := printed
  rw [shown?, printed, findingIn?_painted, beforePlace_append ⟨noPlace, noNewline⟩ ends,
    String.ofList_toList]

def printedComparison (c : Comparison) : List String :=
  match c.status with
  | .added => [addedLine c]
  | .removed => c.findings.map (removedLine c)
  | _ => headerLine c :: if c.findings = [] then [silentLine] else c.findings.map comparedLine

theorem comparison_eq (c : Comparison) : comparison c = String.join (printedComparison c) := by
  have headed : headerLine c ++ (if c.findings = [] then silentLine
      else String.join (c.findings.map comparedLine)) =
        String.join (headerLine c :: if c.findings = [] then [silentLine]
          else c.findings.map comparedLine) := by
    rw [String.join_cons]
    split
    · rfl
    · rfl
  unfold comparison printedComparison
  cases c.status with
  | compared => exact headed
  | removed => rfl
  | added => rfl
  | other => exact headed

def successLines : List String :=
  [line [(.boldGreen, "No breaking changes detected")]]

def failureLines : List String :=
  line [(.boldRed, "Breaking changes detected")] :: line [(.plain, "Suggestions:")] ::
    Report.remedies.map fun text => line [(.plain, "   - " ++ text)]

end Terminal

def Report.comparisons (r : Report) : List Comparison :=
  r.sources.flatMap SourceComparison.comparisons

/-- The findings of a comparison as they are told: severity and message. -/
def Comparison.told (c : Comparison) : List (Severity × String) :=
  c.findings.map fun f => (f.severity, f.message)

namespace Terminal

def opened (r : Report) : List String :=
  [line [(.plain, "Analyzing data class changes...")], rule] ++
    if r.isEmpty then [line [(.plain, "No data classes found in the provided sources")]] else []

def printed (r : Report) : List String :=
  opened r ++ r.comparisons.flatMap printedComparison ++
    rule :: if r.passed then successLines else failureLines

theorem report_eq (r : Report) : report r = String.join (printed r) := by
  have verdicts : verdict r = String.join (if r.passed then successLines else failureLines) := by
    unfold verdict
    split
    · rfl
    · rfl
  have bodies : String.join (r.sources.map fun s => String.join (s.comparisons.map comparison)) =
      String.join (r.comparisons.flatMap printedComparison) := by
    apply String.ext
    simp only [String.toList_join, Report.comparisons, List.flatMap_map, List.flatMap_assoc,
      comparison_eq]
  have openings : line [(.plain, "Analyzing data class changes...")] ++ rule ++
      (if r.isEmpty then line [(.plain, "No data classes found in the provided sources")] else "") =
        String.join (opened r) := by
    unfold opened
    split
    · rfl
    · rw [List.append_nil, String.append_empty]
      rfl
  rw [report, verdicts, bodies, openings, printed, String.join_append, String.join_append,
    String.join_cons, String.append_assoc, String.append_assoc]

theorem filterMap_lines {lines : Finding → String} {c : Comparison}
    (shows : ∀ f ∈ c.findings, shown? (lines f) = some (f.severity, f.message)) :
    (c.findings.map lines).filterMap shown? = c.told := by
  rw [List.filterMap_map, Comparison.told, ← List.filterMap_eq_map]
  exact List.filterMap_congr shows

theorem shown?_compared {c : Comparison} (compared : c.status = .compared)
    (verbatim : ∀ f ∈ c.findings, Verbatim f.message.toList) :
    (printedComparison c).filterMap shown? = c.told := by
  have shows := filterMap_lines fun f member => shown?_comparedLine (verbatim f member)
  rw [printedComparison, compared]
  dsimp only
  rw [List.filterMap_cons_none (shown?_headerLine c)]
  split
  next none =>
    rw [List.filterMap_cons_none shown?_silentLine, Comparison.told, none]
    rfl
  next => exact shows

theorem shown?_removed {c : Comparison} (removed : c.status = .removed)
    (verbatim : ∀ f ∈ c.findings, Verbatim f.message.toList)
    (noPlace : ∀ f ∈ c.findings, '(' ∉ f.message.toList) :
    (printedComparison c).filterMap shown? = c.told := by
  rw [printedComparison, removed]
  exact filterMap_lines fun f member => shown?_removedLine c (verbatim f member) (noPlace f member)

/-- Of each comparison exactly the findings are shown; headers show nothing, nor do new records,
which have no findings. -/
theorem shown?_printedComparison {o : Outcome} (isName : IsName o.name.toList)
    (verbatim : ∀ f ∈ o.comparison.findings, Verbatim f.message.toList) :
    (printedComparison o.comparison).filterMap shown? = o.comparison.told := by
  cases o with
  | compared old new => exact shown?_compared rfl verbatim
  | removed old =>
    have noPlace : '(' ∉ ("Data class '" ++ old.name ++ "' removed").toList := by
      simp only [String.toList_append, List.mem_append, not_or]
      exact ⟨⟨by decide, isName.not_mem (by decide)⟩, by decide⟩
    exact shown?_removed rfl verbatim (List.forall_mem_singleton.mpr noPlace)
  | added new => exact List.filterMap_cons_none (shown?_addedLine _)

theorem shown?_rule : shown? rule = none :=
  shown?_line (show _ = ['-'] ++ List.replicate 79 '-' from String.toList_ofList) (by decide)
    (fun _ => rfl) _

theorem shown?_opened (r : Report) : ∀ text ∈ opened r, shown? text = none := by
  have analyzing : shown? (line [(.plain, "Analyzing data class changes...")]) = none :=
    shown?_line (show _ = ['A'] ++ "nalyzing data class changes...".toList from rfl) (by decide)
      (fun _ => rfl) _
  have empty : shown? (line [(.plain, "No data classes found in the provided sources")]) = none :=
    shown?_line (show _ = ['N'] ++ "o data classes found in the provided sources".toList from rfl)
      (by decide) (fun _ => rfl) _
  refine List.forall_mem_append.mpr ⟨?_, ?_⟩
  · exact List.forall_mem_cons.mpr ⟨analyzing, List.forall_mem_singleton.mpr shown?_rule⟩
  · split
    · exact List.forall_mem_singleton.mpr empty
    · exact List.forall_mem_nil _

theorem shown?_successLines : ∀ text ∈ successLines, shown? text = none :=
  List.forall_mem_singleton.mpr
    (shown?_line (show _ = ['N'] ++ "o breaking changes detected".toList from rfl) (by decide)
      (fun _ => rfl) _)

theorem shown?_failureLines : ∀ text ∈ failureLines, shown? text = none := by
  refine List.forall_mem_cons.mpr ⟨?_, List.forall_mem_cons.mpr ⟨?_, List.forall_mem_map.mpr ?_⟩⟩
  · exact shown?_line (show _ = ['B'] ++ "reaking changes detected".toList from rfl) (by decide)
      (fun _ => rfl) _
  · exact shown?_line (show _ = ['S'] ++ "uggestions:".toList from rfl) (by decide) (fun _ => rfl) _
  · intro text _
    exact shown?_line (show _ = [' ', ' ', ' ', '-'] ++ (" " ++ text).toList by
      simp only [String.toList_append]; rfl) (by decide) (fun _ => rfl) _

/-- A report shows the findings of its comparisons, in order and once each, and no others. -/
theorem shown?_printed {r : Report} (isName : ∀ c ∈ r.comparisons, IsName c.name.toList)
    (verbatim : ∀ c ∈ r.comparisons, ∀ f ∈ c.findings, Verbatim f.message.toList) :
    (printed r).filterMap shown? = r.comparisons.flatMap Comparison.told := by
  have front : (opened r).filterMap shown? = [] :=
    List.filterMap_eq_nil_iff.mpr (shown?_opened r)
  have back : (rule :: if r.passed then successLines else failureLines).filterMap shown? = [] := by
    refine List.filterMap_eq_nil_iff.mpr (List.forall_mem_cons.mpr ⟨shown?_rule, ?_⟩)
    split
    · exact shown?_successLines
    · exact shown?_failureLines
  have each : ∀ c ∈ r.comparisons,
      (printedComparison c).filterMap shown? = c.told := by
    intro c member
    obtain ⟨s, -, inside⟩ := List.mem_flatMap.mp member
    obtain ⟨o, -, rfl⟩ := List.mem_map.mp inside
    exact shown?_printedComparison (comparison_name o ▸ isName _ member) (verbatim _ member)
  rw [printed, List.filterMap_append, List.filterMap_append, front, back, List.append_nil,
    List.nil_append, List.filterMap_flatMap]
  exact List.flatMap_congr each

/-- Divides a text behind every newline. -/
def cutLines : List Char → List (List Char)
  | [] => []
  | c :: rest =>
    if c = '\n' then [c] :: cutLines rest
    else
      match cutLines rest with
      | [] => [[c]]
      | first :: later => (c :: first) :: later

/-- The lines of a text, each with the newline that ends it. -/
def lines (text : String) : List String :=
  (cutLines text.toList).map String.ofList

theorem cutLines_append {body : List Char} (whole : '\n' ∉ body) (rest : List Char) :
    cutLines (body ++ '\n' :: rest) = (body ++ ['\n']) :: cutLines rest := by
  induction body with
  | nil => rfl
  | cons c body ih =>
    obtain ⟨here, later⟩ := not_or.mp (mt List.mem_cons.mpr whole)
    rw [List.cons_append, cutLines, if_neg (Ne.symm here), ih later]
    rfl

def IsLine (text : String) : Prop :=
  ∃ body, '\n' ∉ body ∧ text.toList = body ++ ['\n']

theorem lines_join {texts : List String} (each : ∀ text ∈ texts, IsLine text) :
    lines (String.join texts) = texts := by
  induction texts with
  | nil => rfl
  | cons text texts ih =>
    obtain ⟨⟨body, whole, ends⟩, later⟩ := List.forall_mem_cons.mp each
    rw [String.join_cons, lines, String.toList_append, ends, List.append_assoc,
      List.singleton_append, cutLines_append whole, ← ends, List.map_cons, String.ofList_toList]
    exact congrArg _ (ih later)

theorem newline_paint {style : Style} {text : List Char} (whole : '\n' ∉ text) :
    '\n' ∉ (Span.paint ⟨style, text⟩).toList := by
  have code : '\n' ∉ style.code.toList := by
    cases style <;> decide
  unfold Span.paint
  split
  · simpa using whole
  · simpa using ⟨code, whole⟩

theorem newline_layOut (style : Style) (column : Nat) {part text : List Char} (before : '\n' ∉ part)
    (whole : '\n' ∉ text) : '\n' ∉ (layOut style column part text).1.toList := by
  induction text generalizing column part with
  | nil => exact newline_paint (by simpa using before)
  | cons c text ih =>
    obtain ⟨here, later⟩ := not_or.mp (mt List.mem_cons.mpr whole)
    rw [layOut, if_neg (Ne.symm here)]
    split
    next =>
      rw [String.toList_append, List.mem_append, not_or]
      exact ⟨newline_paint (by simpa using before), ih _ List.not_mem_nil later⟩
    next => exact ih _ (by simpa using ⟨here, before⟩) later

theorem isLine_lineFrom (column : Nat) {spans : List Span}
    (whole : ∀ span ∈ spans, '\n' ∉ span.text) : IsLine (lineFrom column spans) := by
  induction spans generalizing column with
  | nil => exact ⟨[], List.not_mem_nil, by rw [lineFrom]; rfl⟩
  | cons span spans ih =>
    obtain ⟨here, later⟩ := List.forall_mem_cons.mp whole
    have kept : '\n' ∉ span.text.filter fun c => !isControl c :=
      fun member => here (List.mem_filter.mp member).1
    obtain ⟨body, rest, ends⟩ := ih (layOut span.style column [] _).2 later
    refine ⟨_, List.mem_append.not.mpr (not_or.mpr
      ⟨newline_layOut span.style column List.not_mem_nil kept, rest⟩), ?_⟩
    rw [lineFrom, String.toList_append, ends, List.append_assoc]

theorem isLine_line {spans : List (Style × String)}
    (whole : ∀ span ∈ spans, '\n' ∉ span.2.toList) : IsLine (line spans) :=
  isLine_lineFrom 0 (List.forall_mem_map.mpr whole)

theorem newline_place {c : Comparison} (whole : '\n' ∉ c.location.toList) :
    '\n' ∉ (place c).toList := by
  unfold place
  split
  · exact List.not_mem_nil
  · simpa using whole

theorem newline_marker (severity : Severity) : '\n' ∉ (marker severity).2.toList := by
  cases severity <;> decide

/-- What is printed for a comparison are lines, unless a newline is among what is told. -/
theorem isLine_printedComparison {c : Comparison} (name : '\n' ∉ c.name.toList)
    (location : '\n' ∉ c.location.toList) (messages : ∀ f ∈ c.findings, '\n' ∉ f.message.toList) :
    ∀ text ∈ printedComparison c, IsLine text := by
  have place := newline_place location
  have header : IsLine (headerLine c) := isLine_line (by simpa using ⟨name, place⟩)
  have added : IsLine (addedLine c) := isLine_line (by simpa using ⟨name, place⟩)
  have silent : IsLine silentLine := isLine_line (by decide)
  have removed : ∀ f ∈ c.findings, IsLine (removedLine c f) := fun f member =>
    isLine_line (by simpa [newline_marker] using ⟨messages f member, place⟩)
  have compared : ∀ f ∈ c.findings, IsLine (comparedLine f) := fun f member =>
    isLine_line (by simpa [newline_marker] using messages f member)
  have headed : ∀ text ∈ headerLine c :: (if c.findings = [] then [silentLine]
      else c.findings.map comparedLine), IsLine text := by
    refine List.forall_mem_cons.mpr ⟨header, ?_⟩
    split
    · exact List.forall_mem_singleton.mpr silent
    · exact List.forall_mem_map.mpr compared
  unfold printedComparison
  cases c.status with
  | compared => exact headed
  | removed => exact List.forall_mem_map.mpr removed
  | added => exact List.forall_mem_singleton.mpr added
  | other => exact headed

theorem lines_report {r : Report} (names : ∀ c ∈ r.comparisons, '\n' ∉ c.name.toList)
    (locations : ∀ c ∈ r.comparisons, '\n' ∉ c.location.toList)
    (messages : ∀ c ∈ r.comparisons, ∀ f ∈ c.findings, '\n' ∉ f.message.toList) :
    lines (report r) = printed r := by
  have rules : IsLine rule := isLine_line (by decide)
  have front : ∀ text ∈ opened r, IsLine text := by
    refine List.forall_mem_append.mpr ⟨?_, ?_⟩
    · exact List.forall_mem_cons.mpr ⟨isLine_line (by decide), List.forall_mem_singleton.mpr rules⟩
    · split
      · exact List.forall_mem_singleton.mpr (isLine_line (by decide))
      · exact List.forall_mem_nil _
  have success : ∀ text ∈ successLines, IsLine text :=
    List.forall_mem_singleton.mpr (isLine_line (by decide))
  have remedies : ∀ text ∈ Report.remedies, '\n' ∉ text.toList := by decide
  have failure : ∀ text ∈ failureLines, IsLine text := by
    refine List.forall_mem_cons.mpr ⟨isLine_line (by decide), List.forall_mem_cons.mpr
      ⟨isLine_line (by decide), List.forall_mem_map.mpr fun text member => ?_⟩⟩
    exact isLine_line (by simpa using remedies text member)
  rw [report_eq]
  apply lines_join
  refine List.forall_mem_append.mpr ⟨List.forall_mem_append.mpr ⟨front, ?_⟩,
    List.forall_mem_cons.mpr ⟨rules, ?_⟩⟩
  · intro text member
    obtain ⟨c, inside, among⟩ := List.mem_flatMap.mp member
    exact isLine_printedComparison (names c inside) (locations c inside) (messages c inside) text
      among
  · split
    · exact success
    · exact failure

end Terminal

end RecordCompat
