import RecordCompat.Proofs.Pairing

/-! Pairing is local to a name. Records of other names share the list of free records and
the filter for repeats, yet what is reported for a name is what its own records, taken by
themselves, would get. The carrying fact is `filter_pairRecords`: each turn either belongs
to the name and sees only its records, or leaves them as they are. -/
namespace RecordCompat

theorem filter_firstBy {α κ : Type} [DecidableEq κ] {key : α → κ} {q : α → Bool}
    (respects : ∀ a b, key a = key b → q a = q b) (items : List α) :
    (firstBy key items).filter q = firstBy key (items.filter q) := by
  induction items with
  | nil => rfl
  | cons a rest ih =>
    cases kept : q a with
    | true => simp only [firstBy, List.filter_cons, kept, if_true, ← ih, List.filter_filter,
        Bool.and_comm]
    | false =>
      simp only [firstBy, List.filter_cons, kept, Bool.false_eq_true, if_false, ← ih,
        List.filter_filter]
      -- What survives `q` cannot have the key of `a`.
      refine List.filter_congr fun b _ => ?_
      cases held : q b with
      | false => rfl
      | true =>
        have apart : key b ≠ key a := fun equal => by simp [respects b a equal, kept] at held
        simp [apart]

def Outcome.name : Outcome → String
  | .compared old _ => old.name
  | .removed old => old.name
  | .added new => new.name

@[simp] theorem name_compared (old new : Record) : (Outcome.compared old new).name = old.name := rfl
@[simp] theorem name_removed (old : Record) : (Outcome.removed old).name = old.name := rfl
@[simp] theorem name_added (new : Record) : (Outcome.added new).name = new.name := rfl

@[simp] theorem comparison_name (o : Outcome) : o.comparison.name = o.name := by
  cases o <;> rfl

variable (name : String)

def named (records : List Record) : List Record :=
  records.filter (·.name = name)

theorem named_cons (r : Record) (records : List Record) :
    named name (r :: records) = if r.name = name then r :: named name records
      else named name records := by
  simp [named, List.filter_cons]

theorem claim?_named {old : Record} (same : old.name = name) (free : List Record) :
    claim? old (named name free) =
      (claim? old free).map fun (new, others) => (new, named name others) := by
  have both := @takeFirst?_filter _
    (fun new => decide (new.name = old.name ∧ new.source = old.source))
    (fun new => decide (new.name = name)) free (by simp +contextual [same])
  have any := @takeFirst?_filter _ (fun new => decide (new.name = old.name))
    (fun new => decide (new.name = name)) free (by simp [same])
  unfold claim? named
  rw [both, any]
  cases takeFirst? (fun new => decide (new.name = old.name ∧ new.source = old.source)) free <;>
    rfl

/-- A turn of another name leaves the records of this name as they are. -/
theorem named_others {old new : Record} {free others : List Record} (other : old.name ≠ name)
    (taken : claim? old free = some (new, others)) : named name others = named name free := by
  rcases claim?_cases old free with ⟨none, -⟩ | ⟨ahead, new, behind, split, some, same, -⟩
  · simp [none] at taken
  · obtain ⟨rfl, rfl⟩ := Prod.mk.inj (Option.some.inj (some.symm.trans taken))
    simp [split, named, same, other]

theorem filter_pairRecords (old free : List Record) :
    (pairRecords old free).filter (·.name = name) =
      pairRecords (named name old) (named name free) := by
  induction old generalizing free with
  | nil =>
    simp only [pairRecords, named, List.filter_nil, List.filter_map]
    rfl
  | cons r rest ih =>
    by_cases same : r.name = name
    · rw [named_cons, if_pos same, pairRecords, pairRecords, claim?_named name same]
      cases claim? r free with
      | none => simp [same, ih]
      | some taken => simp [same, ih]
    · rw [named_cons, if_neg same, pairRecords]
      cases taken : claim? r free with
      | none => simp [same, ih]
      | some pair => simp [same, ih, named_others name same taken]

theorem filter_outcomes (old new : List Record) :
    (outcomes old new).filter (·.name = name) = outcomes (named name old) (named name new) := by
  have respects : ∀ a b : Record, a.key = b.key →
      decide (a.name = name) = decide (b.name = name) := by
    intro a b equal
    rw [(key_eq_iff.mp equal).1]
  rw [outcomes, filter_pairRecords]
  simp only [named, filter_firstBy respects, outcomes]

namespace SourceComparison

def only (s : SourceComparison) : SourceComparison :=
  ⟨s.label, named name s.old, named name s.new⟩

/-- What is reported for a name is what its records get by themselves. Two comparisons
with the same records of a name therefore report the same for it, whatever else they
hold and in whatever order the names are mixed. -/
theorem comparisons_of_name (s : SourceComparison) :
    s.comparisons.filter (·.name = name) = (s.only name).comparisons ∧
      ∀ t : SourceComparison, named name t.old = named name s.old →
        named name t.new = named name s.new →
        t.comparisons.filter (·.name = name) = s.comparisons.filter (·.name = name) := by
  have reported (u : SourceComparison) :
      u.comparisons.filter (·.name = name) = (u.only name).comparisons := by
    simp only [comparisons, only, ← filter_outcomes, List.filter_map, Function.comp_def,
      comparison_name]
  refine ⟨reported s, fun t old new => ?_⟩
  rw [reported, reported]
  simp only [only, comparisons, old, new]

/-- Another class in between, on either side and in any file, changes nothing for `User`. -/
theorem comparisons_of_user_among_orders :
    let user := oneField "User" "Int" "a.kt"
    let order := oneField "Order" "Int" "a.kt"
    let moved := oneField "User" "Long" "b.kt"
    let s : SourceComparison := ⟨"", [user, order], [moved]⟩
    let t : SourceComparison := ⟨"2.0", [order, user], [order, moved, order]⟩
    named "User" t.old = named "User" s.old ∧ named "User" t.new = named "User" s.new ∧
      t.comparisons.filter (·.name = "User") = s.comparisons.filter (·.name = "User") :=
  ⟨rfl, rfl, (comparisons_of_name "User" _).2 _ rfl rfl⟩

end SourceComparison

end RecordCompat
