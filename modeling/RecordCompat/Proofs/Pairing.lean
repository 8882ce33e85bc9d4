import RecordCompat.Comparison

/-! What one old record can take, and what is left for the records behind it. The
facts about `claim?` are gathered in one case analysis, so that later proofs about whole
pairings do not look into the search. -/
namespace RecordCompat

section Search

variable {α : Type} {p q : α → Bool} {items : List α}

theorem takeFirst?_split {found : α} {others : List α}
    (taken : takeFirst? p items = some (found, others)) :
    ∃ ahead behind, items = ahead ++ found :: behind ∧ others = ahead ++ behind ∧
      p found = true ∧ ∀ a ∈ ahead, p a = false := by
  induction items generalizing others with
  | nil => simp [takeFirst?] at taken
  | cons a rest ih =>
    rw [takeFirst?] at taken
    split at taken
    next holds =>
      obtain ⟨rfl, rfl⟩ := Prod.mk.inj (Option.some.inj taken)
      exact ⟨[], _, rfl, rfl, holds, by simp⟩
    next fails =>
      obtain ⟨⟨b, left⟩, later, same⟩ := Option.map_eq_some_iff.mp taken
      obtain ⟨rfl, rfl⟩ := Prod.mk.inj same
      obtain ⟨ahead, behind, split, rest, holds, none⟩ := ih later
      refine ⟨a :: ahead, behind, by simp [split], by simp [rest], holds, ?_⟩
      intro c member
      rcases List.mem_cons.mp member with rfl | member
      · simpa using fails
      · exact none c member

theorem takeFirst?_eq_none : takeFirst? p items = none ↔ ∀ a ∈ items, p a = false := by
  induction items with
  | nil => simp [takeFirst?]
  | cons a rest ih =>
    rw [takeFirst?]
    cases holds : p a <;> simp [holds, ih]

/-- Items that the search never accepts may be left out beforehand. -/
theorem takeFirst?_filter (implied : ∀ a, p a = true → q a = true) :
    takeFirst? p (items.filter q) =
      (takeFirst? p items).map fun (found, others) => (found, others.filter q) := by
  induction items with
  | nil => rfl
  | cons a rest ih =>
    cases holds : p a with
    | true => simp [takeFirst?, holds, implied a holds]
    | false =>
      cases kept : q a <;>
        simp [takeFirst?, holds, kept, ih, Option.map_map, Function.comp_def]

end Search

theorem key_eq_iff {a b : Record} : a.key = b.key ↔ a.name = b.name ∧ a.source = b.source := by
  simp [Record.key, and_comm]

/-- All that can happen at the turn of an old record. It goes without a partner only when
its name is used up; the partner has its key whenever a free record has. -/
theorem claim?_cases (old : Record) (free : List Record) :
    (claim? old free = none ∧ ∀ r ∈ free, r.name ≠ old.name) ∨
    ∃ ahead new behind, free = ahead ++ new :: behind ∧
      claim? old free = some (new, ahead ++ behind) ∧ new.name = old.name ∧
      (new.key = old.key ∨
        (∀ r ∈ free, r.key ≠ old.key) ∧ ∀ r ∈ ahead, r.name ≠ old.name) := by
  unfold claim?
  cases same : takeFirst? (fun new => new.name = old.name ∧ new.source = old.source) free with
  | some taken =>
    obtain ⟨new, others⟩ := taken
    obtain ⟨ahead, behind, split, rfl, holds, -⟩ := takeFirst?_split same
    simp only [decide_eq_true_eq] at holds
    exact .inr ⟨ahead, new, behind, split, rfl, holds.1, .inl (key_eq_iff.mpr holds)⟩
  | none =>
    have elsewhere : ∀ r ∈ free, r.key ≠ old.key := by
      intro r member equal
      have := takeFirst?_eq_none.mp same r member
      simp [key_eq_iff.mp equal] at this
    cases any : takeFirst? (fun new => new.name = old.name) free with
    | some taken =>
      obtain ⟨new, others⟩ := taken
      obtain ⟨ahead, behind, split, rfl, holds, earlier⟩ := takeFirst?_split any
      exact .inr ⟨ahead, new, behind, split, rfl, by simpa using holds,
        .inr ⟨elsewhere, fun r member => by simpa using earlier r member⟩⟩
    | none =>
      exact .inl ⟨rfl, fun r member => by simpa using takeFirst?_eq_none.mp any r member⟩

def outcomeAt (old : Record) (free : List Record) : Outcome :=
  match claim? old free with
  | some (new, _) => .compared old new
  | none => .removed old

/-- The new records that are still free when all these old ones have had their turn. -/
def freeAfter : List Record → List Record → List Record
  | [], free => free
  | old :: rest, free => freeAfter rest (((claim? old free).map Prod.snd).getD free)

/-- Old records are served in their order, each from what the earlier ones left. -/
theorem pairRecords_at (before after free : List Record) (old : Record) :
    (pairRecords (before ++ old :: after) free)[before.length]? =
      some (outcomeAt old (freeAfter before free)) := by
  induction before generalizing free with
  | nil =>
    simp only [List.nil_append, pairRecords, freeAfter, outcomeAt]
    split <;> simp_all
  | cons r before ih =>
    simp only [List.cons_append, pairRecords, freeAfter, List.length_cons]
    split <;> simp_all

theorem freeAfter_sublist (before free : List Record) : (freeAfter before free).Sublist free := by
  induction before generalizing free with
  | nil => exact List.Sublist.refl _
  | cons r before ih =>
    rw [freeAfter]
    refine (ih _).trans ?_
    rcases claim?_cases r free with ⟨none, -⟩ | ⟨ahead, new, behind, split, taken, -⟩
    · simp [none]
    · rw [taken, split]
      exact (List.sublist_cons_self new behind).append_left ahead

/-- A class with one field as some file declares it; instances of the theorems use it. -/
def oneField (name type file : String) : Record :=
  (Record.ofFirst name [⟨"id", type, false, false, 0⟩]).withSource file

end RecordCompat
