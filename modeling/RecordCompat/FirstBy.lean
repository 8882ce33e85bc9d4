/-! Where a key may be given to one item only, the first item keeps it and later ones are
repeats. `firstBy` is the list of the items that keep their keys, `repeatsBy` the list of
those that do not; both are in the order of the input. -/
namespace RecordCompat

variable {α κ : Type} [DecidableEq κ]

def firstBy (key : α → κ) : List α → List α
  | [] => []
  | a :: rest => a :: (firstBy key rest).filter (key · ≠ key a)

def repeatsBy (key : α → κ) (seen : List κ) : List α → List α
  | [] => []
  | a :: rest =>
    if key a ∈ seen then a :: repeatsBy key seen rest
    else repeatsBy key (key a :: seen) rest

@[simp] theorem firstBy_nil (key : α → κ) : firstBy key [] = [] := rfl

theorem mem_of_mem_firstBy {key : α → κ} {a : α} {items : List α}
    (h : a ∈ firstBy key items) : a ∈ items := by
  induction items with
  | nil => cases h
  | cons b rest ih =>
    rcases List.mem_cons.1 h with rfl | h
    · exact List.mem_cons_self
    · exact List.mem_cons_of_mem _ (ih (List.mem_filter.1 h).1)

/-- The first item of a key is the one that keeps it. -/
theorem mem_firstBy_iff {key : α → κ} {a : α} {items : List α} : a ∈ firstBy key items ↔
    ∃ before after, items = before ++ a :: after ∧ ∀ b ∈ before, key b ≠ key a := by
  induction items with
  | nil => simp
  | cons b rest ih =>
    rw [firstBy, List.mem_cons, List.mem_filter, ih, decide_eq_true_eq]
    constructor
    · rintro (rfl | ⟨⟨before, after, rfl, earlier⟩, other⟩)
      · exact ⟨[], rest, rfl, List.forall_mem_nil _⟩
      · exact ⟨b :: before, after, rfl, List.forall_mem_cons.mpr ⟨other.symm, earlier⟩⟩
    · rintro ⟨before, after, split, earlier⟩
      cases before with
      | nil => exact .inl (List.cons.inj split).1.symm
      | cons c before =>
        obtain ⟨rfl, rfl⟩ := List.cons.inj split
        obtain ⟨other, earlier⟩ := List.forall_mem_cons.mp earlier
        exact .inr ⟨⟨before, after, rfl, earlier⟩, other.symm⟩

theorem nodup_map_firstBy (key : α → κ) (items : List α) :
    ((firstBy key items).map key).Nodup := by
  induction items with
  | nil => exact List.nodup_nil
  | cons a rest ih =>
    rw [firstBy, List.map_cons, List.nodup_cons]
    refine ⟨?_, (List.filter_sublist.map key).nodup ih⟩
    intro h
    obtain ⟨b, hb, same⟩ := List.mem_map.1 h
    have := (List.mem_filter.1 hb).2
    simp [same] at this

theorem firstBy_of_nodup {key : α → κ} {items : List α} (distinct : (items.map key).Nodup) :
    firstBy key items = items := by
  induction items with
  | nil => rfl
  | cons a rest ih =>
    rw [List.map_cons, List.nodup_cons] at distinct
    obtain ⟨new, distinct⟩ := distinct
    rw [firstBy, ih distinct, List.filter_eq_self.mpr]
    intro b member
    rw [decide_eq_true_eq]
    intro same
    exact new (same ▸ List.mem_map_of_mem member)

end RecordCompat
