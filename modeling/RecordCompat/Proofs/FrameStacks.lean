import Mathlib.Tactic.SplitIfs
import RecordCompat.Proofs.Literals

/-! A scan with a stack of frames is one scan behind the other: the frames on top are closed first,
and the scan of those below begins where that ends. `scanStop` is the index where a scan of a text
ends; it takes a turn of the scan to an equation between indices. -/
namespace RecordCompat.Source

theorem scan_skip (pending : Nat) (frames : List Frame) (text : List Char) :
    scan pending frames text = min pending text.length + scan 0 frames (text.drop pending) := by
  induction pending generalizing text with
  | zero => simp
  | succ pending ih =>
    cases text with
    | nil => simp [scan]
    | cons c rest =>
      rw [scan, ih rest, List.length_cons, List.drop_succ_cons]
      omega

section Stack

variable {frame : Frame} {inner outer frames : List Frame} {c : Char} {rest : List Char}
  {pending : Nat}

theorem lowest_of_advance {lowest : Frame}
    (turn : frame.advance outer c rest = some (pending, frames))
    (last : frames.getLast? = some lowest) : (frame :: outer).getLast? = some lowest := by
  have closed (same : outer = frames) : (frame :: outer).getLast? = some lowest := by
    rw [List.getLast?_cons, same, last, Option.getD_some]
  have opened (top : Frame) (same : top :: frame :: outer = frames) :
      (frame :: outer).getLast? = some lowest := by
    rwa [← same, List.getLast?_cons_cons] at last
  cases frame <;> simp only [Frame.advance] at turn <;> split_ifs at turn <;>
    obtain ⟨-, same⟩ := Prod.mk.inj (Option.some.inj turn) <;>
    first | exact closed same | exact opened _ same | exact same ▸ last

/-- A turn does not look at the frames below, unless a line ends. -/
theorem advance_append_frames (turn : frame.advance inner c rest = some (pending, frames)) :
    frame.advance (inner ++ outer) c rest = some (pending, frames ++ outer) := by
  cases frame <;> simp only [Frame.advance] at turn ⊢ <;> split_ifs at turn ⊢ <;>
    first | (obtain ⟨rfl, rfl⟩ := Prod.mk.inj (Option.some.inj turn); rfl) | simp_all

end Stack

/-- The frames on top of a stack are read first. A single-line literal that is the lowest of them
has to lie in a template, which reads the line end in front of which the literal stops. -/
theorem scan_append_frames {inner outer : List Frame}
    (below : ∀ mark, inner.getLast? = some (.line mark) → outer.head? = some .braces)
    (pending : Nat) (text : List Char) :
    scan pending (inner ++ outer) text = scan pending inner text +
      scan 0 outer (text.drop (scan pending inner text)) := by
  fun_induction scan pending inner text with
  | case1 => simp [scan]
  | case2 c rest pending inner ih =>
    rw [scan, ih below, Nat.add_comm 1 (scan pending inner rest), List.drop_succ_cons]
    omega
  | case3 c rest => simp
  | case4 c rest frame inner stops =>
    obtain ⟨mark, rfl, rfl, noMark, rfl⟩ := advance_eq_none.mp stops
    obtain ⟨lower, rfl⟩ := List.head?_eq_some_iff.mp (below mark rfl)
    simp [scan, Frame.advance, noMark.symm]
  | case5 c rest frame inner pending frames turn ih =>
    have below' : ∀ mark, frames.getLast? = some (.line mark) → outer.head? = some .braces :=
      fun mark last => below mark (lowest_of_advance turn last)
    rw [List.cons_append, scan, advance_append_frames turn]
    dsimp only
    rw [ih below', Nat.add_comm 1 (scan pending frames rest), List.drop_succ_cons]
    omega

/-- The index at which a scan ends that begins at an index. -/
def scanStop (frames : List Frame) (text : List Char) (i : Nat) : Nat :=
  min i text.length + scan 0 frames (text.drop i)

section Stop

variable {frame : Frame} {inner outer frames : List Frame} {c : Char} {text rest : List Char}
  {i pending : Nat}

theorem getElem?_of_drop (present : text.drop i = c :: rest) : text[i]? = some c := by
  rw [← List.head?_drop, present, List.head?_cons]

theorem getElem?_of_drop_eq_nil (ends : text.drop i = []) : text[i]? = none := by
  rw [← List.head?_drop, ends, List.head?_nil]

theorem lt_of_drop (present : text.drop i = c :: rest) : i < text.length :=
  (List.getElem?_eq_some_iff.mp (getElem?_of_drop present)).1

theorem drop_succ_of_drop (present : text.drop i = c :: rest) : text.drop (i + 1) = rest := by
  rw [← List.drop_drop, present, List.drop_succ_cons, List.drop_zero]

theorem drop_add_two {d : Char} (present : text.drop i = c :: d :: rest) :
    text.drop (i + 2) = rest :=
  drop_succ_of_drop (drop_succ_of_drop present)

theorem scanStop_of_le (within : i ≤ text.length) :
    scanStop frames text i = i + scan 0 frames (text.drop i) := by
  rw [scanStop, Nat.min_eq_left within]

theorem scanStop_le (frames : List Frame) (text : List Char) (i : Nat) :
    scanStop frames text i ≤ text.length := by
  have := scan_le 0 frames (text.drop i)
  rw [List.length_drop] at this
  rw [scanStop]
  omega

theorem le_scanStop (within : i ≤ text.length) : i ≤ scanStop frames text i := by
  rw [scanStop_of_le within]
  exact Nat.le_add_right _ _

theorem scanStop_nil (within : i ≤ text.length) : scanStop [] text i = i := by
  have closed : scan 0 [] (text.drop i) = 0 := by
    cases text.drop i <;> rfl
  rw [scanStop_of_le within, closed, Nat.add_zero]

theorem scanStop_of_drop_eq_nil (ends : text.drop i = []) :
    scanStop frames text i = text.length := by
  rw [scanStop, ends, scan, Nat.add_zero, Nat.min_eq_right (List.drop_eq_nil_iff.mp ends)]

theorem scanStop_advance (present : text.drop i = c :: rest)
    (turn : frame.advance outer c rest = some (pending, frames)) :
    scanStop (frame :: outer) text i = scanStop frames text (i + 1 + pending) := by
  have length := congrArg List.length present
  rw [List.length_drop, List.length_cons] at length
  have behind : text.drop (i + 1 + pending) = rest.drop pending := by
    rw [← List.drop_drop, drop_succ_of_drop present]
  rw [scanStop, scanStop, present, scan, turn, behind]
  dsimp only
  rw [scan_skip]
  omega

theorem scanStop_of_stop (present : text.drop i = c :: rest)
    (stops : frame.advance outer c rest = none) : scanStop (frame :: outer) text i = i := by
  rw [scanStop_of_le (Nat.le_of_lt (lt_of_drop present)), present, scan, stops, Nat.add_zero]

theorem scanStop_append
    (below : ∀ mark, inner.getLast? = some (.line mark) → outer.head? = some .braces)
    (within : i ≤ text.length) :
    scanStop (inner ++ outer) text i = scanStop outer text (scanStop inner text i) := by
  rw [scanStop_of_le (scanStop_le inner text i), scanStop_of_le within, scanStop_of_le within,
    ← List.drop_drop, scan_append_frames below, Nat.add_assoc]

end Stop

end RecordCompat.Source
