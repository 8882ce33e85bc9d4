import Mathlib.Data.List.Nodup
import RecordCompat.Proofs.SilentChanges

/-! What the rules find, one by one and together. Each rule reports changes of one kind, in the
order of the fields of one version, and names distinct fields of it. The five kinds are distinct
as well, so a kind and a name make out a finding. -/
namespace RecordCompat

variable {old new : Record}

theorem takesPlace_iff {i : Nat} {b : Field} :
    TakesPlace old i b ↔ keepsPlace old i b = false := by
  rw [← Bool.not_eq_true, keepsPlace_iff, ← not_takesPlace, not_not]

theorem mem_additions {c : Change} :
    c ∈ additions old new ↔ ∃ (i : Nat) (b : Field), new.fields[i]? = some b ∧
      TakesPlace old i b ∧ Required b ∧ .fieldAdded b.name i = c := by
  simp only [additions, List.mem_map, List.mem_filter, Prod.exists, List.mem_zipIdx_iff_getElem?,
    takesPlace_iff, Required, Bool.and_eq_true, Bool.not_eq_true']
  constructor
  · rintro ⟨b, i, ⟨stands, ⟨takes, noDefault⟩, notNull⟩, rfl⟩
    exact ⟨i, b, stands, takes, ⟨noDefault, notNull⟩, rfl⟩
  · rintro ⟨i, b, stands, takes, ⟨noDefault, notNull⟩, rfl⟩
    exact ⟨b, i, ⟨stands, ⟨takes, noDefault⟩, notNull⟩, rfl⟩

theorem mem_shared_rule {picks : Field × Field → Bool} {report : Field × Field → Change}
    {c : Change} :
    c ∈ ((sharedFields old new).filter picks).map report ↔
      ∃ a ∈ old.fields, ∃ b ∈ new.fields, b.name = a.name ∧ picks (a, b) = true ∧
        report (a, b) = c := by
  simp only [List.mem_map, List.mem_filter, Prod.exists, mem_sharedFields]
  constructor
  · rintro ⟨a, b, ⟨⟨member, inside, same⟩, picked⟩, reported⟩
    exact ⟨a, member, b, inside, same, picked, reported⟩
  · rintro ⟨a, member, b, inside, same, picked, reported⟩
    exact ⟨a, b, ⟨⟨member, inside, same⟩, picked⟩, reported⟩

theorem mem_moves {c : Change} :
    c ∈ moves old new ↔ ∃ a ∈ old.fields, ∃ b ∈ new.fields, b.name = a.name ∧
      a.position ≠ b.position ∧ .fieldMoved a.name a.position b.position = c := by
  simp only [moves, mem_shared_rule, decide_eq_true_eq]

theorem mem_removals {c : Change} :
    c ∈ removals old new ↔
      ∃ a ∈ old.fields, a.name ∉ new.fieldNames ∧ .fieldRemoved a.name = c := by
  simp [removals, field?_eq_none, Record.fieldNames, and_assoc]

theorem mem_retypings {c : Change} :
    c ∈ retypings old new ↔ ∃ a ∈ old.fields, ∃ b ∈ new.fields, b.name = a.name ∧
      a.type ≠ b.type ∧ .typeChanged a.name a.type b.type = c := by
  simp only [retypings, mem_shared_rule, decide_eq_true_eq]

theorem mem_nullabilities {c : Change} :
    c ∈ nullabilities old new ↔ ∃ a ∈ old.fields, ∃ b ∈ new.fields, b.name = a.name ∧
      a.nullable ≠ b.nullable ∧ .nullabilityChanged a.name b.nullable = c := by
  simp only [nullabilities, mem_shared_rule, decide_eq_true_eq]

theorem mem_changes {c : Change} :
    c ∈ changes old new ↔
      (∃ (i : Nat) (b : Field), new.fields[i]? = some b ∧ TakesPlace old i b ∧ Required b ∧
        .fieldAdded b.name i = c) ∨
      (∃ a ∈ old.fields, ∃ b ∈ new.fields, b.name = a.name ∧ a.position ≠ b.position ∧
        .fieldMoved a.name a.position b.position = c) ∨
      (∃ a ∈ old.fields, a.name ∉ new.fieldNames ∧ .fieldRemoved a.name = c) ∨
      (∃ a ∈ old.fields, ∃ b ∈ new.fields, b.name = a.name ∧ a.type ≠ b.type ∧
        .typeChanged a.name a.type b.type = c) ∨
      ∃ a ∈ old.fields, ∃ b ∈ new.fields, b.name = a.name ∧ a.nullable ≠ b.nullable ∧
        .nullabilityChanged a.name b.nullable = c := by
  simp only [changes, List.mem_append, or_assoc, mem_additions, mem_moves, mem_removals,
    mem_retypings, mem_nullabilities]

/-- A rule at work on two versions. -/
structure Rule where
  kind : String
  /-- The names of the version in whose order the rule reports. -/
  names : List String
  found : List Change

def rules (old new : Record) : List Rule :=
  [⟨"field_added", new.fieldNames, additions old new⟩,
    ⟨"field_moved", old.fieldNames, moves old new⟩,
    ⟨"field_removed", old.fieldNames, removals old new⟩,
    ⟨"type_changed", old.fieldNames, retypings old new⟩,
    ⟨"nullability_changed", old.fieldNames, nullabilities old new⟩]

def ruleKinds : List String :=
  ["field_added", "field_moved", "field_removed", "type_changed", "nullability_changed"]

theorem map_kind_rules (old new : Record) : (rules old new).map Rule.kind = ruleKinds := rfl

theorem changes_eq_rules (old new : Record) :
    changes old new = (rules old new).flatMap Rule.found := by
  simp [changes, rules]

/-- A rule reports one kind of change, in the order of its names. -/
structure Rule.Sound (rule : Rule) : Prop where
  kind : ∀ c ∈ rule.found, c.kind = rule.kind
  inOrder : (rule.found.map Change.field?).Sublist (rule.names.map some)
  distinct : rule.names.Nodup

theorem fields_additions (old new : Record) :
    ((additions old new).map Change.field?).Sublist (new.fieldNames.map some) := by
  have names : new.fieldNames.map some = new.fields.zipIdx.map fun p => some p.1.name := by
    conv_lhs =>
      rw [Record.fieldNames, ← List.zipIdx_map_fst 0 new.fields, List.map_map, List.map_map]
    rfl
  rw [names, additions, List.map_map]
  exact List.filter_sublist.map _

theorem fields_sharedFields (old new : Record) :
    ((sharedFields old new).map fun p => some p.1.name).Sublist (old.fieldNames.map some) := by
  have kept : (sharedFields old new).map Prod.fst =
      old.fields.filter fun a => (new.field? a.name).isSome := by
    rw [sharedFields, List.map_filterMap, ← List.filterMap_eq_filter]
    refine List.filterMap_congr fun a _ => ?_
    cases found : new.field? a.name <;> simp [Option.guard, found]
  have names : (sharedFields old new).map (fun p => some p.1.name) =
      ((sharedFields old new).map Prod.fst).map fun a => some a.name := by
    rw [List.map_map]
    rfl
  rw [names, kept, Record.fieldNames, List.map_map]
  exact List.filter_sublist.map _

theorem fields_shared_rule {picks : Field × Field → Bool} {report : Field × Field → Change}
    (about : ∀ a b, (report (a, b)).field? = some a.name) :
    ((((sharedFields old new).filter picks).map report).map Change.field?).Sublist
      (old.fieldNames.map some) := by
  have fields : Change.field? ∘ report = fun p => some p.1.name :=
    funext fun p => about p.1 p.2
  rw [List.map_map, fields]
  exact (List.filter_sublist.map _).trans (fields_sharedFields old new)

theorem fields_removals (old new : Record) :
    ((removals old new).map Change.field?).Sublist (old.fieldNames.map some) := by
  rw [removals, Record.fieldNames, List.map_map, List.map_map]
  exact List.filter_sublist.map _

theorem sound_of_mem_rules {rule : Rule} (member : rule ∈ rules old new) : rule.Sound := by
  simp only [rules, List.mem_cons, List.not_mem_nil, or_false] at member
  rcases member with rfl | rfl | rfl | rfl | rfl
  · refine ⟨fun c found => ?_, fields_additions old new, new.distinct⟩
    obtain ⟨i, b, -, -, -, rfl⟩ := mem_additions.mp found
    rfl
  · refine ⟨fun c found => ?_, fields_shared_rule fun _ _ => rfl, old.distinct⟩
    obtain ⟨a, -, b, -, -, -, rfl⟩ := mem_moves.mp found
    rfl
  · refine ⟨fun c found => ?_, fields_removals old new, old.distinct⟩
    obtain ⟨a, -, -, rfl⟩ := mem_removals.mp found
    rfl
  · refine ⟨fun c found => ?_, fields_shared_rule fun _ _ => rfl, old.distinct⟩
    obtain ⟨a, -, b, -, -, -, rfl⟩ := mem_retypings.mp found
    rfl
  · refine ⟨fun c found => ?_, fields_shared_rule fun _ _ => rfl, old.distinct⟩
    obtain ⟨a, -, b, -, -, -, rfl⟩ := mem_nullabilities.mp found
    rfl

/-- The rules work in the order of their kinds. -/
theorem rules_ordered (old new : Record) :
    (rules old new).Pairwise fun r s => ruleKinds.idxOf r.kind < ruleKinds.idxOf s.kind := by
  have ordered : ruleKinds.Pairwise fun k l => ruleKinds.idxOf k < ruleKinds.idxOf l := by decide
  rwa [← map_kind_rules old new, List.pairwise_map, map_kind_rules] at ordered

/-- What holds within each rule, and of any change and any change of a later kind, holds all along
the changes. -/
theorem pairwise_changes {related : Change → Change → Prop}
    (within : ∀ rule ∈ rules old new, rule.found.Pairwise related)
    (across : ∀ c d, ruleKinds.idxOf c.kind < ruleKinds.idxOf d.kind → related c d) :
    (changes old new).Pairwise related := by
  rw [changes_eq_rules, List.pairwise_flatMap]
  refine ⟨within, ?_⟩
  refine (rules_ordered old new).imp_of_mem fun {r s} first second before c found d found' => ?_
  apply across
  rwa [(sound_of_mem_rules first).kind c found, (sound_of_mem_rules second).kind d found']

theorem filter_found {rule : Rule} (sound : rule.Sound) (kind : String) :
    rule.found.filter (·.kind = kind) = if rule.kind = kind then rule.found else [] := by
  split
  next same =>
    exact List.filter_eq_self.mpr fun c found => decide_eq_true ((sound.kind c found).trans same)
  next other =>
    refine List.filter_eq_nil_iff.mpr fun c found => ?_
    rw [decide_eq_true_eq, sound.kind c found]
    exact other

theorem filter_kind {rule : Rule} (member : rule ∈ rules old new) :
    (changes old new).filter (·.kind = rule.kind) = rule.found := by
  have filtered : (changes old new).filter (·.kind = rule.kind) =
      (rules old new).flatMap fun other => if other.kind = rule.kind then other.found else [] := by
    rw [changes_eq_rules, List.filter_flatMap]
    exact List.flatMap_congr fun other among => filter_found (sound_of_mem_rules among) rule.kind
  rw [filtered]
  simp only [rules, List.mem_cons, List.not_mem_nil, or_false] at member
  rcases member with rfl | rfl | rfl | rfl | rfl <;> simp [rules]

theorem exists_rule {c : Change} (found : c ∈ changes old new) :
    ∃ rule ∈ rules old new, c ∈ rule.found := by
  rw [changes_eq_rules] at found
  exact List.mem_flatMap.mp found

theorem kind_mem_ruleKinds {c : Change} (found : c ∈ changes old new) : c.kind ∈ ruleKinds := by
  obtain ⟨rule, member, found⟩ := exists_rule found
  rw [(sound_of_mem_rules member).kind c found, ← map_kind_rules old new]
  exact List.mem_map_of_mem member

/-- Whatever is found about a name that the new version lacks is that it was removed. -/
theorem eq_removed {name : String} {c : Change} (gone : name ∉ new.fieldNames)
    (found : c ∈ changes old new) (about : c.field? = some name) : c = .fieldRemoved name := by
  have absent : ∀ b ∈ new.fields, b.name ≠ name := fun b inside same =>
    gone (same ▸ List.mem_map_of_mem inside)
  rcases mem_changes.mp found with ⟨i, b, stands, -, -, rfl⟩ | ⟨a, -, b, inside, same, -, rfl⟩ |
    ⟨a, -, -, rfl⟩ | ⟨a, -, b, inside, same, -, rfl⟩ | ⟨a, -, b, inside, same, -, rfl⟩
  · exact absurd (Option.some.inj about) (absent b (List.mem_of_getElem? stands))
  · exact absurd (same.trans (Option.some.inj about)) (absent b inside)
  · exact congrArg Change.fieldRemoved (Option.some.inj about)
  · exact absurd (same.trans (Option.some.inj about)) (absent b inside)
  · exact absurd (same.trans (Option.some.inj about)) (absent b inside)

theorem removed_alone {c d : Change} (found : c ∈ changes old new)
    (removed : c.kind = "field_removed") (other : d ∈ changes old new)
    (same : d.field? = c.field?) : d = c := by
  rcases mem_changes.mp found with ⟨i, b, -, -, -, rfl⟩ | ⟨a, -, b, -, -, -, rfl⟩ |
    ⟨a, -, gone, rfl⟩ | ⟨a, -, b, -, -, -, rfl⟩ | ⟨a, -, b, -, -, -, rfl⟩
  case inr.inr.inl => exact eq_removed gone other same
  all_goals exact absurd removed (by simp [Change.kind])

theorem severity_eq_warning {c : Change} : c.severity = .warning ↔ c.kind = "field_moved" := by
  cases c with
  | nullabilityChanged field nullable => cases nullable <;> simp [Change.severity, Change.kind]
  | _ => simp [Change.severity, Change.kind]

theorem severity_eq_safe {c : Change} (found : c ∈ changes old new) :
    c.severity = .safe ↔ c.kind = "nullability_changed" ∧
      ∃ b ∈ new.fields, c.field? = some b.name ∧ b.nullable = true := by
  rcases mem_changes.mp found with ⟨i, b, -, -, -, rfl⟩ | ⟨a, -, b, -, -, -, rfl⟩ |
    ⟨a, -, -, rfl⟩ | ⟨a, -, b, -, -, -, rfl⟩ | ⟨a, -, b, inside, same, -, rfl⟩
  case inr.inr.inr.inr =>
    have only : (∃ c ∈ new.fields, some a.name = some c.name ∧ c.nullable = true) ↔
        b.nullable = true := by
      constructor
      · rintro ⟨c, there, name, nullable⟩
        rwa [field_unique new inside there (same.trans (Option.some.inj name))]
      · exact fun nullable => ⟨b, inside, congrArg some same.symm, nullable⟩
    rw [show (Change.nullabilityChanged a.name b.nullable).field? = some a.name from rfl, only]
    cases b.nullable <;> simp [Change.severity, Change.kind]
  all_goals simp [Change.severity, Change.kind]

/-- The order of findings, the fields that they name, and how severe they are. -/
structure Shaped (old new : Record) (found : List Finding) : Prop where
  kinds : ∀ f ∈ found, f.kind ∈ ruleKinds
  ordered : found.Pairwise fun f g => ruleKinds.idxOf f.kind ≤ ruleKinds.idxOf g.kind
  once : (found.map fun f => (f.kind, f.field?)).Nodup
  added : ((found.filter (·.kind = "field_added")).map Finding.field?).Sublist
    (new.fieldNames.map some)
  others : ∀ kind ∈ ruleKinds, kind ≠ "field_added" →
    ((found.filter (·.kind = kind)).map Finding.field?).Sublist (old.fieldNames.map some)
  removedAlone : ∀ f ∈ found, f.kind = "field_removed" → ∀ g ∈ found, g.field? = f.field? → g = f
  warning : ∀ f ∈ found, f.severity = .warning ↔ f.kind = "field_moved"
  safe : ∀ f ∈ found, f.severity = .safe ↔ f.kind = "nullability_changed" ∧
    ∃ b ∈ new.fields, f.field? = some b.name ∧ b.nullable = true

theorem fields_of_kind {rule : Rule} (member : rule ∈ rules old new) :
    ((((changes old new).map Change.finding).filter (·.kind = rule.kind)).map
      Finding.field?).Sublist (rule.names.map some) := by
  have fields : (((changes old new).map Change.finding).filter (·.kind = rule.kind)).map
      Finding.field? = ((changes old new).filter (·.kind = rule.kind)).map Change.field? := by
    rw [List.filter_map, List.map_map]
    rfl
  rw [fields, filter_kind member]
  exact (sound_of_mem_rules member).inOrder

theorem Rule.Sound.once {rule : Rule} (sound : rule.Sound) :
    rule.found.Pairwise fun c d => c.field? ≠ d.field? := by
  have names : (rule.names.map some).Nodup := sound.distinct.map fun _ _ => Option.some.inj
  exact List.pairwise_map.mp (names.sublist sound.inOrder)

/-- Findings come rule by rule, each rule in the order of its version; none is made twice; and one
about a field that was removed is the only one about it. -/
theorem findings_shaped (old new : Record) :
    Shaped old new ((changes old new).map Change.finding) := by
  constructor
  case kinds => exact List.forall_mem_map.mpr fun c found => kind_mem_ruleKinds found
  case ordered =>
    rw [List.pairwise_map]
    refine pairwise_changes (fun rule member => ?_) fun c d before => Nat.le_of_lt before
    have sound := sound_of_mem_rules member
    refine List.pairwise_of_forall_mem_list fun c found d found' => ?_
    exact Nat.le_of_eq (congrArg (ruleKinds.idxOf ·)
      ((sound.kind c found).trans (sound.kind d found').symm))
  case once =>
    rw [List.map_map, List.Nodup, List.pairwise_map]
    refine pairwise_changes (fun rule member => ?_) fun c d before same => ?_
    · exact (sound_of_mem_rules member).once.imp fun apart same => apart (congrArg Prod.snd same)
    · exact Nat.ne_of_lt before (congrArg (ruleKinds.idxOf ·.1) same)
  case added => exact fields_of_kind (List.mem_cons_self ..)
  case others =>
    intro kind known other
    rw [← map_kind_rules old new] at known
    obtain ⟨rule, member, rfl⟩ := List.mem_map.mp known
    have names : rule.names = old.fieldNames := by
      simp only [rules, List.mem_cons, List.not_mem_nil, or_false] at member
      rcases member with rfl | rfl | rfl | rfl | rfl
      · exact absurd rfl other
      all_goals rfl
    exact names ▸ fields_of_kind member
  case removedAlone =>
    rw [List.forall_mem_map]
    intro c found removed
    rw [List.forall_mem_map]
    exact fun d other same => congrArg Change.finding (removed_alone found removed other same)
  case warning => exact List.forall_mem_map.mpr fun c _ => severity_eq_warning
  case safe => exact List.forall_mem_map.mpr fun c found => severity_eq_safe found

end RecordCompat
