import RecordCompat.Proofs.SourceHistory

/-! Moving classes between files. A file decides which of several records of a name an old one
takes and which records are repeats. Where no two records of a version share a name there is
neither a choice nor a repeat, so two comparisons whose records differ only in their files run
in step: at each turn corresponding old records take corresponding new ones, and what is left
free still corresponds. -/
namespace RecordCompat

/-- The same records in the same order, each from any file. -/
def Relocated (records moved : List Record) : Prop :=
  List.Forall₂ (fun r s => ∃ file, s = r.withSource file) records moved

theorem Relocated.map_name {records moved : List Record} (relocated : Relocated records moved) :
    moved.map Record.name = records.map Record.name := by
  induction relocated with
  | nil => rfl
  | cons same _ ih =>
    obtain ⟨file, rfl⟩ := same
    rw [List.map_cons, List.map_cons, ih]
    rfl

theorem Relocated.distinctNames {records moved : List Record} (relocated : Relocated records moved)
    (names : DistinctNames records) : DistinctNames moved := by
  rw [DistinctNames, relocated.map_name]
  exact names

theorem takeFirst?_append {α : Type} {p : α → Bool} {found : α} {ahead : List α}
    (passed : ∀ a ∈ ahead, p a = false) (holds : p found = true) (behind : List α) :
    takeFirst? p (ahead ++ found :: behind) = some (found, ahead ++ behind) := by
  induction ahead with
  | nil => simp [takeFirst?, holds]
  | cons a ahead ih =>
    obtain ⟨here, later⟩ := List.forall_mem_cons.mp passed
    simp [takeFirst?, here, ih later]

/-- Without a second record of the name, the file does not matter to the choice. -/
theorem claim?_of_distinctNames {free : List Record} (names : DistinctNames free) (old : Record) :
    claim? old free = takeFirst? (fun new => new.name = old.name) free := by
  rcases claim?_cases old free with ⟨none, used⟩ | ⟨ahead, new, behind, split, taken, same, -⟩
  · rw [none, eq_comm, takeFirst?_eq_none]
    simpa using used
  · have passed : ∀ a ∈ ahead, decide (a.name = old.name) = false := by
      intro a member
      rw [split, DistinctNames, List.map_append, List.map_cons, List.nodup_append] at names
      have apart := names.2.2 a.name (List.mem_map_of_mem member) new.name List.mem_cons_self
      simpa [same] using apart
    rw [taken, split, takeFirst?_append passed (decide_eq_true same)]

theorem takeFirst?_relocated (name : String) {free moved : List Record}
    (relocated : Relocated free moved) :
    (takeFirst? (fun new => new.name = name) free = none ∧
      takeFirst? (fun new => new.name = name) moved = none) ∨
    ∃ new left file left', takeFirst? (fun new => new.name = name) free = some (new, left) ∧
      takeFirst? (fun new => new.name = name) moved = some (new.withSource file, left') ∧
      Relocated left left' := by
  induction relocated with
  | nil => exact .inl ⟨rfl, rfl⟩
  | @cons r s rest rest' same later ih =>
    obtain ⟨file, rfl⟩ := same
    have sameName : (r.withSource file).name = r.name := rfl
    by_cases here : r.name = name
    · refine .inr ⟨r, rest, file, rest', ?_, ?_, later⟩ <;> simp [takeFirst?, sameName, here]
    · simp only [takeFirst?, sameName, here, decide_false, Bool.false_eq_true, if_false]
      rcases ih with ⟨none, none'⟩ | ⟨new, left, there, left', taken, taken', left_left'⟩
      · exact .inl ⟨by rw [none]; rfl, by rw [none']; rfl⟩
      · exact .inr ⟨new, r :: left, there, _ :: left', by rw [taken]; rfl, by rw [taken']; rfl,
          .cons ⟨file, rfl⟩ left_left'⟩

theorem claim?_relocated {free moved : List Record} (relocated : Relocated free moved)
    (names : DistinctNames free) (old : Record) (file : String) :
    (claim? old free = none ∧ claim? (old.withSource file) moved = none) ∨
    ∃ new left there left', claim? old free = some (new, left) ∧
      claim? (old.withSource file) moved = some (new.withSource there, left') ∧
      Relocated left left' := by
  rw [claim?_of_distinctNames names, claim?_of_distinctNames (relocated.distinctNames names)]
  exact takeFirst?_relocated old.name relocated

/-- What a comparison says apart from files. -/
def Comparison.verdict (c : Comparison) : String × Status × List Finding :=
  (c.name, c.status, c.findings)

theorem verdict_added {left left' : List Record} (relocated : Relocated left left') :
    left.map (fun r => (Outcome.added r).comparison.verdict) =
      left'.map fun r => (Outcome.added r).comparison.verdict := by
  induction relocated with
  | nil => rfl
  | cons same _ ih =>
    obtain ⟨file, rfl⟩ := same
    rw [List.map_cons, List.map_cons, ih]
    rfl

theorem verdict_pairRecords {old old' free free' : List Record} (olds : Relocated old old')
    (frees : Relocated free free') (names : DistinctNames free) :
    (pairRecords old free).map (·.comparison.verdict) =
      (pairRecords old' free').map (·.comparison.verdict) := by
  induction olds generalizing free free' with
  | nil =>
    rw [pairRecords, pairRecords, List.map_map, List.map_map]
    exact verdict_added frees
  | @cons r s rest rest' same _ ih =>
    obtain ⟨file, rfl⟩ := same
    rw [pairRecords, pairRecords]
    rcases claim?_relocated frees names r file with
      ⟨none, none'⟩ | ⟨new, left, there, left', taken, taken', lefts⟩
    · rw [none, none', List.map_cons, List.map_cons, ih frees names]
      rfl
    · have part : left.Sublist free := by
        have remain := freeAfter_sublist [r] free
        rwa [freeAfter, freeAfter, taken] at remain
      rw [taken, taken', List.map_cons, List.map_cons,
        ih lefts ((part.map Record.name).nodup names)]
      rfl

namespace SourceComparison

/-- What is reported about classes whose names are distinct does not depend on the files in which
they are declared. -/
theorem verdicts_of_relocated {s t : SourceComparison} (oldNames : DistinctNames s.old)
    (newNames : DistinctNames s.new) (olds : Relocated s.old t.old)
    (news : Relocated s.new t.new) :
    s.comparisons.map Comparison.verdict = t.comparisons.map Comparison.verdict ∧
      s.isBreaking = t.isBreaking := by
  have same : s.comparisons.map Comparison.verdict = t.comparisons.map Comparison.verdict := by
    simp only [comparisons, outcomes, List.map_map, Function.comp_def]
    rw [firstBy_key oldNames, firstBy_key newNames, firstBy_key (olds.distinctNames oldNames),
      firstBy_key (news.distinctNames newNames)]
    exact verdict_pairRecords olds news newNames
  refine ⟨same, ?_⟩
  have breaking (u : SourceComparison) : u.isBreaking =
      (u.comparisons.map Comparison.verdict).any fun v => v.2.2.any Finding.isBreaking := by
    rw [List.any_map]
    rfl
  rw [breaking s, breaking t, same]

/-- One class stays, one moves, and one is new; every one of them may live elsewhere. -/
theorem verdicts_of_user_and_order :
    let user := oneField "User"
    let order := oneField "Order" "Int"
    let item := oneField "Item" "Int"
    let s : SourceComparison :=
      ⟨"", [user "Int" "a.kt", order "a.kt"], [order "b.kt", user "Long" "a.kt", item ""]⟩
    let t : SourceComparison :=
      ⟨"2.0", [user "Int" "b.kt", order ""], [order "c.kt", user "Long" "c.kt", item "a.kt"]⟩
    DistinctNames s.old ∧ DistinctNames s.new ∧ Relocated s.old t.old ∧ Relocated s.new t.new ∧
      s.isBreaking = true ∧ s.comparisons ≠ t.comparisons ∧
      s.comparisons.map Comparison.verdict = t.comparisons.map Comparison.verdict ∧
      s.isBreaking = t.isBreaking := by
  intro user order item s t
  have oldNames : DistinctNames s.old := by decide
  have newNames : DistinctNames s.new := by decide
  have olds : Relocated s.old t.old := .cons ⟨"b.kt", rfl⟩ (.cons ⟨"", rfl⟩ .nil)
  have news : Relocated s.new t.new :=
    .cons ⟨"c.kt", rfl⟩ (.cons ⟨"c.kt", rfl⟩ (.cons ⟨"a.kt", rfl⟩ .nil))
  exact ⟨oldNames, newNames, olds, news, by decide, by decide,
    verdicts_of_relocated oldNames newNames olds news⟩

end SourceComparison

end RecordCompat
