import Mathlib.Data.List.Nodup
import RecordCompat.Proofs.PairingFiles

/-! No record is lost, invented or used twice. A turn either removes an old record, and then
no record of its name is free, or moves one record from the free ones to the partners. So
partners and leftovers together are always the records that were free at the start, and a
name never has both a removed record and a leftover; the number of each outcome follows. -/
namespace RecordCompat

def Outcome.old? : Outcome → Option Record
  | .compared old _ | .removed old => some old
  | .added _ => none

def Outcome.partner? : Outcome → Option Record
  | .compared _ new => some new
  | _ => none

def leftBy (old : Record) (free : List Record) : List Record :=
  ((claim? old free).map Prod.snd).getD free

/-- The outcomes of old records, each served from what the earlier ones left. -/
def servedFrom : List Record → List Record → List Outcome
  | [], _ => []
  | old :: rest, free => outcomeAt old free :: servedFrom rest (leftBy old free)

theorem servedFrom_cons (old : Record) (rest free : List Record) :
    servedFrom (old :: rest) free = outcomeAt old free :: servedFrom rest (leftBy old free) := rfl

theorem freeAfter_cons (old : Record) (rest free : List Record) :
    freeAfter (old :: rest) free = freeAfter rest (leftBy old free) := rfl

theorem pairRecords_eq (old free : List Record) :
    pairRecords old free = servedFrom old free ++ (freeAfter old free).map .added := by
  induction old generalizing free with
  | nil => rfl
  | cons r rest ih =>
    simp only [pairRecords, servedFrom, freeAfter, outcomeAt, leftBy]
    cases taken : claim? r free with
    | none => simp [ih]
    | some pair => simp [ih]

theorem turn_cases (old : Record) (free : List Record) :
    (outcomeAt old free = .removed old ∧ leftBy old free = free ∧
      ∀ r ∈ free, r.name ≠ old.name) ∨
    ∃ new, outcomeAt old free = .compared old new ∧ new.name = old.name ∧
      (new :: leftBy old free).Perm free := by
  rcases claim?_cases old free with ⟨none, used⟩ | ⟨ahead, new, behind, split, taken, same, -⟩
  · exact .inl ⟨by simp [outcomeAt, none], by simp [leftBy, none], used⟩
  · refine .inr ⟨new, by simp [outcomeAt, taken], same, ?_⟩
    rw [leftBy, taken, split]
    exact List.perm_middle.symm

theorem old?_servedFrom (old free : List Record) :
    (servedFrom old free).map Outcome.old? = old.map some := by
  induction old generalizing free with
  | nil => rfl
  | cons r rest ih =>
    have first : (outcomeAt r free).old? = some r := by
      rcases turn_cases r free with ⟨removed, -⟩ | ⟨new, compared, -⟩
      · rw [removed, Outcome.old?]
      · rw [compared, Outcome.old?]
    simp only [servedFrom, List.map_cons, first, ih]

def partners (results : List Outcome) : List Record :=
  results.filterMap Outcome.partner?

theorem partners_perm (old free : List Record) :
    (partners (servedFrom old free) ++ freeAfter old free).Perm free := by
  induction old generalizing free with
  | nil => exact .refl free
  | cons r rest ih =>
    have later := ih (leftBy r free)
    change (partners (outcomeAt r free :: servedFrom rest (leftBy r free)) ++
      freeAfter rest (leftBy r free)).Perm free
    rcases turn_cases r free with ⟨removed, same, -⟩ | ⟨new, compared, -, moved⟩
    · rw [same] at later ⊢
      simpa only [removed, partners, List.filterMap_cons, Outcome.partner?] using later
    · simp only [compared, partners, List.filterMap_cons, Outcome.partner?, List.cons_append]
      exact (later.cons new).trans moved

theorem distinct_parts {free : List Record} (keys : Distinct free) (old : List Record) :
    Distinct (partners (servedFrom old free) ++ freeAfter old free) :=
  (partners_perm old free).symm.pairwise keys fun different => different.symm

/-- The leftovers are the records that are nobody's partner, in their order. -/
theorem freeAfter_eq {free : List Record} (keys : Distinct free) (old : List Record) :
    freeAfter old free =
      free.filter (·.key ∉ (partners (servedFrom old free)).map Record.key) := by
  let unused (r : Record) : Bool := r.key ∉ (partners (servedFrom old free)).map Record.key
  have parts := partners_perm old free
  obtain ⟨-, -, apart⟩ := List.pairwise_append.mp (distinct_parts keys old)
  have kept : (freeAfter old free).filter unused = freeAfter old free := by
    refine List.filter_eq_self.mpr fun r left => decide_eq_true fun used => ?_
    obtain ⟨q, partner, same⟩ := List.mem_map.mp used
    exact apart q partner r left same
  have none : (partners (servedFrom old free)).countP unused = 0 :=
    List.countP_eq_zero.mpr fun r partner => by simpa [unused] using ⟨r, partner, rfl⟩
  have same : (freeAfter old free).countP unused = free.countP unused := by
    rw [← parts.countP_eq, List.countP_append, none, Nat.zero_add]
  rw [List.countP_eq_length_filter, List.countP_eq_length_filter] at same
  have part := (freeAfter_sublist old free).filter unused
  rw [← part.eq_of_length same, kept]

theorem matched_servedFrom (old free : List Record) :
    ∀ o ∈ servedFrom old free, ∀ r ∈ o.partner?, r.name = o.name := by
  induction old generalizing free with
  | nil => simp [servedFrom]
  | cons r rest ih =>
    rw [servedFrom_cons]
    refine List.forall_mem_cons.mpr ⟨fun partner => ?_, ih (leftBy r free)⟩
    rcases turn_cases r free with ⟨removed, -⟩ | ⟨new, compared, same, -⟩
    · simp [removed, Outcome.partner?]
    · simp +contextual [compared, Outcome.partner?, ← same, eq_comm]

def tally (name : String) (status : Status) (results : List Outcome) : Nat :=
  results.countP fun o => o.name = name ∧ o.comparison.status = status

theorem tally_cons (name : String) (status : Status) (o : Outcome) (results : List Outcome) :
    tally name status (o :: results) = tally name status results +
      if o.name = name ∧ o.comparison.status = status then 1 else 0 := by
  simp [tally, List.countP_cons]

theorem tally_append (name : String) (status : Status) (first second : List Outcome) :
    tally name status (first ++ second) = tally name status first + tally name status second :=
  List.countP_append

theorem named_length_perm (name : String) {first second : List Record} (same : first.Perm second) :
    (named name first).length = (named name second).length :=
  (same.filter _).length_eq

/-- Old and new records of a name balance, and the turns use up one of the two sides: where
a record of the name is removed, none is left over. -/
theorem served_balance (name : String) (old free : List Record) :
    tally name .compared (servedFrom old free) + tally name .removed (servedFrom old free) =
        (named name old).length ∧
      tally name .compared (servedFrom old free) + (named name (freeAfter old free)).length =
        (named name free).length ∧
      (tally name .removed (servedFrom old free) = 0 ∨ named name (freeAfter old free) = []) := by
  induction old generalizing free with
  | nil => simp [servedFrom, freeAfter, tally, named]
  | cons r rest ih =>
    obtain ⟨each, whole, greedy⟩ := ih (leftBy r free)
    rw [servedFrom_cons, freeAfter_cons, tally_cons, tally_cons, named_cons]
    rcases turn_cases r free with ⟨removed, same, used⟩ | ⟨new, compared, names, moved⟩
    · rw [same] at each whole greedy ⊢
      rw [removed]
      by_cases mine : r.name = name
      · have nothing : named name free = [] := by
          simpa [named, List.filter_eq_nil_iff, mine] using used
        have left : named name (freeAfter rest free) = [] :=
          List.eq_nil_of_sublist_nil (nothing ▸ (freeAfter_sublist rest free).filter _)
        simp only [name_removed, mine, Outcome.comparison, reduceCtorEq, and_false, and_self,
          if_false, if_true, List.length_cons]
        exact ⟨by omega, whole, .inr left⟩
      · simpa [mine] using ⟨each, whole, greedy⟩
    · have moved := named_length_perm name moved
      rw [named_cons, names] at moved
      rw [compared]
      by_cases mine : r.name = name
      · rw [if_pos mine, List.length_cons] at moved
        simp only [name_compared, mine, Outcome.comparison, reduceCtorEq, and_false, and_self,
          if_false, if_true, List.length_cons]
        exact ⟨by omega, by omega, greedy⟩
      · rw [if_neg mine] at moved
        simpa [mine, ← moved] using ⟨each, whole, greedy⟩

/-- Each old record has one outcome, in the order of the records, and each new record is used
at most once. -/
structure Accounts (old new : List Record) (served : List Outcome) : Prop where
  each : served.map Outcome.old? = old.map some
  matched : ∀ o ∈ served, ∀ r ∈ o.partner?, r.name = o.name
  known : ∀ r ∈ partners served, r ∈ new
  once : ((partners served).map Record.key).Nodup

theorem accounts_servedFrom {new : List Record} (keys : Distinct new) (old : List Record) :
    Accounts old new (servedFrom old new) := by
  constructor
  case each => exact old?_servedFrom old new
  case matched => exact matched_servedFrom old new
  case known =>
    intro r partner
    exact (partners_perm old new).subset (List.mem_append_left _ partner)
  case once => exact List.pairwise_map.mpr (List.pairwise_append.mp (distinct_parts keys old)).1

theorem findings_of_status (o : Outcome) :
    (o.comparison.status = .removed → o.comparison.findings =
        [⟨.breaking, "record_removed", "Data class '" ++ o.comparison.name ++ "' removed", none⟩]) ∧
      (o.comparison.status = .added → o.comparison.findings = []) := by
  cases o with
  | compared old new => simp [Outcome.comparison]
  | removed old => exact ⟨fun _ => rfl, fun added => by cases added⟩
  | added new => exact ⟨fun removed => (by cases removed), fun _ => rfl⟩

theorem tally_added (name : String) (old free : List Record) :
    tally name .added (servedFrom old free) = 0 := by
  induction old generalizing free with
  | nil => rfl
  | cons r rest ih =>
    rw [servedFrom_cons, tally_cons, ih]
    rcases turn_cases r free with ⟨removed, -⟩ | ⟨new, compared, -⟩
    · simp [removed, Outcome.comparison]
    · simp [compared, Outcome.comparison]

theorem tally_leftovers (name : String) (status : Status) (left : List Record) :
    tally name status (left.map .added) =
      if status = .added then (named name left).length else 0 := by
  induction left with
  | nil => simp [tally, named]
  | cons r rest ih =>
    rw [List.map_cons, tally_cons, ih, named_cons]
    by_cases added : status = .added <;> by_cases mine : r.name = name <;>
      simp [added, mine, Outcome.comparison, eq_comm]

namespace SourceComparison

def count (s : SourceComparison) (name : String) (status : Status) : Nat :=
  s.comparisons.countP fun c => c.name = name ∧ c.status = status

theorem count_eq (s : SourceComparison) (name : String) (status : Status) :
    s.count name status = tally name status (outcomes s.old s.new) := by
  simp only [count, comparisons, tally, List.countP_map, Function.comp_def, comparison_name]

/-- Comparisons of a name: as many pairs as the shorter side allows. -/
theorem count_eq_min (s : SourceComparison) (name : String) :
    let a := (named name (firstBy Record.key s.old)).length
    let b := (named name (firstBy Record.key s.new)).length
    s.count name .compared = min a b ∧ s.count name .removed = a - min a b ∧
      s.count name .added = b - min a b := by
  intro a b
  have balance := served_balance name (firstBy Record.key s.old) (firstBy Record.key s.new)
  obtain ⟨each, whole, greedy⟩ := balance
  have greedy := greedy.imp_right (congrArg List.length)
  rw [List.length_nil] at greedy
  simp only [count_eq, outcomes, pairRecords_eq, tally_append, tally_added, tally_leftovers,
    reduceCtorEq, if_true, if_false]
  omega

theorem comparisons_eq_nil_iff (s : SourceComparison) :
    s.comparisons = [] ↔ s.isEmpty = true := by
  have kept (records : List Record) : firstBy Record.key records = [] ↔ records = [] := by
    cases records <;> simp [firstBy]
  have served (old free : List Record) : servedFrom old free = [] ↔ old = [] := by
    cases old <;> simp [servedFrom]
  rw [comparisons, outcomes, pairRecords_eq, isEmpty, List.map_eq_nil_iff, List.append_eq_nil_iff,
    List.map_eq_nil_iff, served, kept, Bool.and_eq_true, List.isEmpty_iff, List.isEmpty_iff]
  refine and_congr_right fun none => ?_
  rw [none, firstBy_nil, freeAfter, kept]

/-- Every record that takes part is in one comparison: the old ones in order, each compared
or removed, then the new ones that no old one is compared with, in order. -/
theorem every_record_once (s : SourceComparison) :
    let old := firstBy Record.key s.old
    let new := firstBy Record.key s.new
    (∃ served, Accounts old new served ∧
      let unused := new.filter (·.key ∉ (partners served).map Record.key)
      s.comparisons = (served ++ unused.map Outcome.added).map Outcome.comparison) ∧
    (∀ c ∈ s.comparisons,
      (c.status = .removed → c.findings =
        [⟨.breaking, "record_removed", "Data class '" ++ c.name ++ "' removed", none⟩]) ∧
      (c.status = .added → c.findings = [])) ∧
    (∀ name : String,
      let a := (named name old).length
      let b := (named name new).length
      s.count name .compared = min a b ∧ s.count name .removed = a - min a b ∧
        s.count name .added = b - min a b) ∧
    (s.comparisons = [] ↔ s.isEmpty = true) := by
  intro old new
  refine ⟨⟨servedFrom old new, accounts_servedFrom (distinct_firstBy s.new) old, ?_⟩, ?_,
    s.count_eq_min, s.comparisons_eq_nil_iff⟩
  · rw [comparisons, outcomes, pairRecords_eq, freeAfter_eq (distinct_firstBy s.new)]
  · intro c member
    obtain ⟨o, -, rfl⟩ := List.mem_map.mp member
    exact findings_of_status o

end SourceComparison

end RecordCompat
