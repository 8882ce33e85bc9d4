import RecordCompat.Proofs.PairingNames
import RecordCompat.Proofs.SilentChanges
import RecordCompat.Source.Extraction

/-! A version compared with itself. While old records are served, the free ones are those that
have not had their turn yet, so the first free record is always the old one itself and every
record is its own partner. Between a record and itself no rule has anything to report. -/
namespace RecordCompat

/-- A record takes itself when it is the first one that is free. -/
theorem claim?_self (r : Record) (rest : List Record) : claim? r (r :: rest) = some (r, rest) := by
  simp [claim?, takeFirst?]

/-- Each turn leaves the records free that have their turn later. -/
theorem pairRecords_self (records : List Record) :
    pairRecords records records = records.map fun r => .compared r r := by
  induction records with
  | nil => rfl
  | cons r rest ih =>
    rw [pairRecords, claim?_self]
    exact congrArg _ ih

theorem outcomes_self (records : List Record) :
    outcomes records records = (firstBy Record.key records).map fun r => .compared r r :=
  pairRecords_self _

theorem Stays.refl (r : Record) : Stays r r :=
  fun _ a stood => ⟨a, stood, rfl⟩

theorem changes_self (r : Record) : changes r r = [] := by
  have own {a b : Field} (first : a ∈ r.fields) (second : b ∈ r.fields) (same : b.name = a.name) :
      b = a := field_unique r second first same
  refine changes_eq_nil.mpr ⟨Stays.refl r, ?_, ?_, ?_⟩
  · exact fun _ b stands _ => ⟨b, stands, rfl⟩
  · exact fun a first b second same => congrArg Field.type (own first second same)
  · exact fun a first b second same => congrArg Field.nullable (own first second same)

theorem map_firstBy {α κ : Type} [DecidableEq κ] [BEq κ] [LawfulBEq κ] (key : α → κ) :
    ∀ items : List α, (firstBy key items).map key = (items.map key).eraseDups
  | [] => rfl
  | a :: rest => by
    let others (b : α) : Bool := key b ≠ key a
    have respects : ∀ b c : α, key b = key c → others b = others c := by
      intro b c equal
      simp only [others, equal]
    have apart : others = (fun k => !k == key a) ∘ key := by
      funext b
      rw [Function.comp_apply, Bool.eq_iff_iff]
      simp [others]
    calc (firstBy key (a :: rest)).map key
        = key a :: (firstBy key (rest.filter others)).map key := by
          rw [← filter_firstBy respects, firstBy, List.map_cons]
      _ = key a :: ((rest.filter others).map key).eraseDups := by rw [map_firstBy]
      _ = ((a :: rest).map key).eraseDups := by
          rw [apart, ← List.filter_map, List.map_cons, List.eraseDups_cons]
termination_by items => items.length
decreasing_by
  exact Nat.lt_succ_of_le (List.length_filter_le ..)

theorem source?_getD (r : Record) : r.source?.getD "" = r.source := by
  unfold Record.source?
  split
  next empty => exact empty.symm
  next => rfl

/-- A version agrees with itself: there is one comparison for each file and name, in the order in
which these first occur, and each compares a record of a file with one of the same file and
finds nothing. This holds of all records, and of those that a text declares. -/
theorem agrees_with_itself (label : String) :
    (∀ records : List Record,
      let s : SourceComparison := ⟨label, records, records⟩
      s.comparisons.map (fun c => (c.oldSource?.getD "", c.name)) =
          (records.map Record.key).eraseDups ∧
        ∀ c ∈ s.comparisons, c.status = .compared ∧ c.findings = [] ∧
          c.newSource? = c.oldSource?) ∧
    ∀ text : String,
      let records := (Source.extract text).records
      ∀ c ∈ (SourceComparison.mk label records records).comparisons, c.findings = [] := by
  have each (records : List Record) :
      ∀ c ∈ (SourceComparison.mk label records records).comparisons,
        c.status = .compared ∧ c.findings = [] ∧ c.newSource? = c.oldSource? := by
    simp only [SourceComparison.comparisons, outcomes_self, List.map_map, List.forall_mem_map]
    intro r _
    simp [Outcome.comparison, changes_self]
  refine ⟨fun records => ⟨?_, each records⟩, fun text c member => (each _ c member).2.1⟩
  rw [← map_firstBy]
  simp only [SourceComparison.comparisons, outcomes_self, List.map_map]
  exact List.map_congr_left fun r _ => Prod.ext (source?_getD r) rfl

end RecordCompat
