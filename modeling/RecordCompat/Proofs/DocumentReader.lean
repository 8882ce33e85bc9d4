import Mathlib.Algebra.Group.Nat.Defs
import Mathlib.Data.List.Basic
import RecordCompat.Json

/-! Documents can be read back. The reader works in three steps: text in quotation marks is read to
units of sixteen bits, and these to characters; a text is read to tokens, without its blanks;
and the tokens are read to a value, with the containers that are still open on a stack. What
`write` writes is a spelling of the tokens of the value, whatever the depth. -/
namespace RecordCompat.Json

def digit? (c : Char) : Option Nat :=
  (List.range 16).find? fun n => n.digitChar = c.toLower

def number? (digits : List Char) : Option Nat :=
  digits.foldlM (fun n c => (digit? c).map (16 * n + ·)) 0

theorem digit?_digitChar : ∀ n < 16, digit? n.digitChar = some n := by decide

theorem number?_hex {width n : Nat} (fits : n < 16 ^ width) :
    number? (Text.hex width n) = some n := by
  induction width generalizing n with
  | zero =>
    obtain rfl : n = 0 := by simpa using fits
    rfl
  | succ width ih =>
    have front : number? (Text.hex width (n / 16)) = some (n / 16) :=
      ih (Nat.div_lt_of_lt_mul (by rwa [← Nat.pow_succ']))
    rw [number?] at front ⊢
    rw [Text.hex, List.foldlM_append, front]
    simp only [Option.bind_eq_bind, Option.bind_some, List.foldlM_cons, List.foldlM_nil,
      digit?_digitChar (n % 16) (Nat.mod_lt _ (by decide)), Option.map_some]
    exact congrArg some (Nat.div_add_mod n 16)

/-- The units of a character: itself, or a pair of surrogates. -/
def units (c : Char) : List Nat :=
  if c.toNat < 0x10000 then [c.toNat]
  else [0xD800 + (c.toNat - 0x10000) / 0x400, 0xDC00 + (c.toNat - 0x10000) % 0x400]

def characters? : List Nat → Option (List Char)
  | [] => some []
  | unit :: rest =>
    if unit.isValidChar then (characters? rest).map (Char.ofNat unit :: ·)
    else
      match rest with
      | [] => none
      | low :: rest =>
        if 0xD800 ≤ unit ∧ unit < 0xDC00 ∧ 0xDC00 ≤ low ∧ low < 0xE000 then
          (characters? rest).map
            (Char.ofNat (0x10000 + (unit - 0xD800) * 0x400 + (low - 0xDC00)) :: ·)
        else none

theorem characters?_units (c : Char) (rest : List Nat) :
    characters? (units c ++ rest) = (characters? rest).map (c :: ·) := by
  have valid : c.toNat.isValidChar := c.valid
  rw [units]
  split
  next small =>
    rw [List.singleton_append, characters?.eq_def]
    dsimp only
    rw [if_pos valid, Char.ofNat_toNat]
  next large =>
    have bound : c.toNat < 0x110000 := by
      simp only [Nat.isValidChar] at valid
      omega
    have surrogate : ¬ (0xD800 + (c.toNat - 0x10000) / 0x400).isValidChar := by
      simp only [Nat.isValidChar]
      omega
    have joined : 0x10000 + (0xD800 + (c.toNat - 0x10000) / 0x400 - 0xD800) * 0x400 +
        (0xDC00 + (c.toNat - 0x10000) % 0x400 - 0xDC00) = c.toNat := by
      omega
    rw [List.cons_append, List.singleton_append, characters?, if_neg surrogate,
      if_pos (by omega), joined, Char.ofNat_toNat]

theorem characters?_flatMap (text : List Char) : characters? (text.flatMap units) = some text := by
  induction text with
  | nil => rfl
  | cons c rest ih => rw [List.flatMap_cons, characters?_units, ih, Option.map_some]

def shortEscapes : List (Char × Char) :=
  [('"', '"'), ('\\', '\\'), ('/', '/'), ('n', '\n'), ('r', '\r'), ('t', '\t'), ('b', '\x08'),
    ('f', '\x0c')]

/-- A reading with units before its own. -/
def withUnits (front : List Nat) (read : List Nat × List Char) : List Nat × List Char :=
  (front ++ read.1, read.2)

/-- The units up to the closing quotation mark, and what is behind it. -/
def quotedUnits? : List Char → Option (List Nat × List Char)
  | [] => none
  | c :: rest =>
    if c = '"' then some ([], rest)
    else if c = '\\' then
      match rest with
      | [] => none
      | 'u' :: d₃ :: d₂ :: d₁ :: d₀ :: rest =>
        (number? [d₃, d₂, d₁, d₀]).bind fun unit =>
          (quotedUnits? rest).map (withUnits [unit])
      | e :: rest =>
        (shortEscapes.lookup e).bind fun c =>
          (quotedUnits? rest).map (withUnits [c.toNat])
    else (quotedUnits? rest).map (withUnits [c.toNat])

theorem quotedUnits?_end (rest : List Char) : quotedUnits? ('"' :: rest) = some ([], rest) := by
  rw [quotedUnits?.eq_def]
  rfl

theorem quotedUnits?_plain {c : Char} (noQuote : c ≠ '"') (noBackslash : c ≠ '\\')
    (rest : List Char) :
    quotedUnits? (c :: rest) =
      (quotedUnits? rest).map (withUnits [c.toNat]) := by
  rw [quotedUnits?.eq_def]
  dsimp only
  rw [if_neg noQuote, if_neg noBackslash]

theorem quotedUnits?_short {e c : Char} (noUnit : e ≠ 'u') (means : shortEscapes.lookup e = some c)
    (rest : List Char) :
    quotedUnits? ('\\' :: e :: rest) =
      (quotedUnits? rest).map (withUnits [c.toNat]) := by
  simp [quotedUnits?, noUnit, means]

theorem quotedUnits?_unit {unit : Nat} (small : unit < 0x10000) (rest : List Char) :
    quotedUnits? (escapedUnit unit ++ rest) =
      (quotedUnits? rest).map (withUnits [unit]) := by
  have value : number? (Text.hex 4 unit) = some unit := number?_hex small
  have digits : Text.hex 4 unit = [(unit / 16 / 16 / 16 % 16).digitChar,
      (unit / 16 / 16 % 16).digitChar, (unit / 16 % 16).digitChar, (unit % 16).digitChar] := rfl
  rw [digits] at value
  rw [escapedUnit, digits]
  simp [quotedUnits?, value]

theorem shortEscapes_table : ∀ escape ∈ shortEscapes,
    escape.1 ≠ 'u' ∧ shortEscapes.lookup escape.1 = some escape.2 ∧
      escape.2.toNat < 0x10000 := by
  decide

def isPlain (c : Char) : Bool :=
  0x20 ≤ c.toNat && c.toNat < 0x7F

theorem lt_of_isPlain {c : Char} (plain : isPlain c) : c.toNat < 0x80 := by
  rw [isPlain, Bool.and_eq_true, decide_eq_true_eq, decide_eq_true_eq] at plain
  omega

theorem escapedChar_cases (c : Char) :
    (∃ e, (e, c) ∈ shortEscapes ∧ escapedChar c = ['\\', e]) ∨
    (c ≠ '"' ∧ c ≠ '\\' ∧ isPlain c ∧ escapedChar c = [c]) ∨
    escapedChar c = (units c).flatMap escapedUnit := by
  -- one written form for the cases to be split at, where the statement has three
  generalize form : escapedChar c = written
  unfold escapedChar at form
  split at form
  next quote => exact .inl ⟨'"', by rw [quote]; decide, form.symm⟩
  split at form
  next backslash => exact .inl ⟨'\\', by rw [backslash]; decide, form.symm⟩
  split at form
  next feed => exact .inl ⟨'n', by rw [feed]; decide, form.symm⟩
  split at form
  next carriage => exact .inl ⟨'r', by rw [carriage]; decide, form.symm⟩
  split at form
  next tab => exact .inl ⟨'t', by rw [tab]; decide, form.symm⟩
  split at form
  next back => exact .inl ⟨'b', by rw [back]; decide, form.symm⟩
  split at form
  next feed => exact .inl ⟨'f', by rw [feed]; decide, form.symm⟩
  split at form
  next noQuote noBackslash _ _ _ _ _ plain =>
    exact .inr (.inl ⟨noQuote, noBackslash, by simpa [isPlain] using plain, form.symm⟩)
  split at form
  next small => exact .inr (.inr (by simp [← form, units, small]))
  next large => exact .inr (.inr (by simp [← form, units, large]))

theorem units_small {c : Char} (small : c.toNat < 0x10000) : units c = [c.toNat] :=
  if_pos small

theorem lt_of_mem_units {c : Char} {unit : Nat} (member : unit ∈ units c) : unit < 0x10000 := by
  have valid : c.toNat.isValidChar := c.valid
  simp only [Nat.isValidChar] at valid
  unfold units at member
  split at member
  next small => simpa [List.mem_singleton.mp member] using small
  next large =>
    simp only [List.mem_cons, List.not_mem_nil, or_false] at member
    omega

theorem quotedUnits?_units {written : List Nat} (small : ∀ unit ∈ written, unit < 0x10000)
    (rest : List Char) :
    quotedUnits? (written.flatMap escapedUnit ++ rest) =
      (quotedUnits? rest).map (withUnits written) := by
  induction written with
  | nil => exact Option.map_id'.symm
  | cons unit written ih =>
    obtain ⟨first, others⟩ := List.forall_mem_cons.mp small
    rw [List.flatMap_cons, List.append_assoc, quotedUnits?_unit first, ih others, Option.map_map]
    rfl

theorem quotedUnits?_escapedChar (c : Char) (rest : List Char) :
    quotedUnits? (escapedChar c ++ rest) =
      (quotedUnits? rest).map (withUnits (units c)) := by
  rcases escapedChar_cases c with
    ⟨e, listed, escaped⟩ | ⟨noQuote, noBackslash, plain, escaped⟩ | escaped
  · obtain ⟨noUnit, means, small⟩ := shortEscapes_table _ listed
    rw [escaped, units_small small]
    exact quotedUnits?_short noUnit means rest
  · rw [escaped, units_small (Nat.lt_trans (lt_of_isPlain plain) (by decide))]
    exact quotedUnits?_plain noQuote noBackslash rest
  · rw [escaped]
    exact quotedUnits?_units (fun _ => lt_of_mem_units) rest

/-- The text up to the closing quotation mark, and what is behind it. -/
def quoted? (text : List Char) : Option (String × List Char) :=
  (quotedUnits? text).bind fun (units, rest) =>
    (characters? units).map fun characters => (String.ofList characters, rest)

theorem quoted?_writeString (text : String) (rest : List Char) :
    quoted? (text.toList.flatMap escapedChar ++ '"' :: rest) = some (text, rest) := by
  have units : ∀ text : List Char, quotedUnits? (text.flatMap escapedChar ++ '"' :: rest) =
      some (text.flatMap units, rest) := by
    intro text
    induction text with
    | nil => exact quotedUnits?_end rest
    | cons c text ih =>
      rw [List.flatMap_cons, List.append_assoc, quotedUnits?_escapedChar, ih]
      rfl
  simp [quoted?, units, characters?_flatMap]

theorem plain_hex (width n : Nat) : ∀ c ∈ Text.hex width n, isPlain c := by
  have digits : ∀ n < 16, isPlain n.digitChar := by decide
  induction width generalizing n with
  | zero => exact List.forall_mem_nil _
  | succ width ih =>
    exact List.forall_mem_append.mpr
      ⟨ih _, List.forall_mem_singleton.mpr (digits _ (Nat.mod_lt _ (by decide)))⟩

theorem plain_escapedUnit (unit : Nat) : ∀ c ∈ escapedUnit unit, isPlain c :=
  List.forall_mem_cons.mpr ⟨rfl, List.forall_mem_cons.mpr ⟨rfl, plain_hex 4 unit⟩⟩

theorem plain_escapedChar (c : Char) : ∀ d ∈ escapedChar c, isPlain d := by
  rcases escapedChar_cases c with ⟨e, listed, escaped⟩ | ⟨_, _, plain, escaped⟩ | escaped
  · have letters : shortEscapes.all (isPlain ·.1) := by decide
    rw [escaped]
    exact List.forall_mem_cons.mpr
      ⟨rfl, List.forall_mem_singleton.mpr (List.all_eq_true.mp letters _ listed)⟩
  · rw [escaped]
    exact List.forall_mem_singleton.mpr plain
  · rw [escaped]
    intro d member
    obtain ⟨unit, _, member⟩ := List.mem_flatMap.mp member
    exact plain_escapedUnit unit d member

theorem plain_writeString (text : String) : ∀ c ∈ writeString text, isPlain c := by
  refine List.forall_mem_append.mpr
    ⟨List.forall_mem_cons.mpr ⟨rfl, fun c member => ?_⟩, List.forall_mem_singleton.mpr rfl⟩
  obtain ⟨d, _, member⟩ := List.mem_flatMap.mp member
  exact plain_escapedChar d c member

inductive Token
  | mark (c : Char)
  | scalar (value : Json)

def marks : List Char := ['[', ']', '{', '}', ',', ':']

def blanks : List Char := [' ', '\n', '\r', '\t']

/-- The value without items or members that a text begins with, and what is behind it. -/
def scalar? : List Char → Option (Json × List Char)
  | '"' :: rest => (quoted? rest).map fun (text, rest) => (.string text, rest)
  | 'n' :: 'u' :: 'l' :: 'l' :: rest => some (.null, rest)
  | 't' :: 'r' :: 'u' :: 'e' :: rest => some (.bool true, rest)
  | 'f' :: 'a' :: 'l' :: 's' :: 'e' :: rest => some (.bool false, rest)
  | _ => none

theorem quotedUnits?_shorter {text : List Char} {read : List Nat × List Char}
    (found : quotedUnits? text = some read) : read.2.length < text.length := by
  fun_induction quotedUnits? text generalizing read with
  | case1 => cases found
  | case2 =>
    cases found
    exact Nat.lt_succ_self _
  | case3 => cases found
  | case4 d₃ d₂ d₁ d₀ rest noQuote ih =>
    obtain ⟨_, _, mapped⟩ := Option.bind_eq_some_iff.mp found
    obtain ⟨later, behind, rfl⟩ := Option.map_eq_some_iff.mp mapped
    have shorter := ih behind
    simp only [withUnits, List.length_cons]
    omega
  | case5 _ _ _ _ ih =>
    obtain ⟨_, _, mapped⟩ := Option.bind_eq_some_iff.mp found
    obtain ⟨later, behind, rfl⟩ := Option.map_eq_some_iff.mp mapped
    have shorter := ih behind
    exact Nat.lt_succ_of_lt (Nat.lt_succ_of_lt shorter)
  | case6 _ _ _ _ ih =>
    obtain ⟨later, behind, rfl⟩ := Option.map_eq_some_iff.mp found
    have shorter := ih behind
    exact Nat.lt_succ_of_lt shorter

theorem quoted?_shorter {text : List Char} {read : String × List Char}
    (found : quoted? text = some read) : read.2.length < text.length := by
  obtain ⟨_, units, mapped⟩ := Option.bind_eq_some_iff.mp found
  obtain ⟨_, _, rfl⟩ := Option.map_eq_some_iff.mp mapped
  exact quotedUnits?_shorter units

theorem scalar?_shorter {text : List Char} {read : Json × List Char}
    (found : scalar? text = some read) : read.2.length < text.length := by
  unfold scalar? at found
  split at found
  · obtain ⟨_, quoted, rfl⟩ := Option.map_eq_some_iff.mp found
    exact Nat.lt_succ_of_lt (quoted?_shorter quoted)
  iterate 3
    cases found
    simp only [List.length_cons]
    omega
  cases found

def tokens? : List Char → Option (List Token)
  | [] => some []
  | c :: rest =>
    if c ∈ blanks then tokens? rest
    else if c ∈ marks then (tokens? rest).map (.mark c :: ·)
    else
      match _ : scalar? (c :: rest) with
      | none => none
      | some (value, rest) => (tokens? rest).map (.scalar value :: ·)
termination_by text => text.length
decreasing_by
  · simp
  · simp
  · exact scalar?_shorter ‹_›

theorem tokens?_blank {c : Char} (blank : c ∈ blanks) (rest : List Char) :
    tokens? (c :: rest) = tokens? rest := by
  rw [tokens?, if_pos blank]

theorem tokens?_mark {c : Char} (mark : c ∈ marks) (rest : List Char) :
    tokens? (c :: rest) = (tokens? rest).map (.mark c :: ·) := by
  have apart : marks.all (· ∉ blanks) := by decide
  have noBlank : c ∉ blanks := of_decide_eq_true (List.all_eq_true.mp apart c mark)
  rw [tokens?, if_neg noBlank, if_pos mark]

theorem tokens?_scalar {c : Char} {text rest : List Char} {value : Json}
    (other : c ∉ blanks ∧ c ∉ marks) (read : scalar? (c :: text) = some (value, rest)) :
    tokens? (c :: text) = (tokens? rest).map (.scalar value :: ·) := by
  rw [tokens?, if_neg other.1, if_neg other.2, read]

/-- A text that is read to these tokens, whatever stands behind it, and has no characters but
printable ASCII and line feeds. -/
structure Spells (text : List Char) (tokens : List Token) : Prop where
  reads : ∀ rest, tokens? (text ++ rest) = (tokens? rest).map (tokens ++ ·)
  plain : ∀ c ∈ text, c = '\n' ∨ isPlain c

namespace Spells

theorem nil : Spells [] [] where
  reads _ := Option.map_id'.symm
  plain := List.forall_mem_nil _

theorem append {text later : List Char} {tokens next : List Token} (first : Spells text tokens)
    (second : Spells later next) : Spells (text ++ later) (tokens ++ next) where
  reads rest := by
    rw [List.append_assoc, first.reads, second.reads, Option.map_map]
    simp [Function.comp_def]
  plain := List.forall_mem_append.mpr ⟨first.plain, second.plain⟩

theorem mark {c : Char} (mark : c ∈ marks) : Spells [c] [.mark c] where
  reads := tokens?_mark mark
  plain d member := by
    have marksPlain : marks.all isPlain := by decide
    rw [List.mem_singleton.mp member]
    exact .inr (List.all_eq_true.mp marksPlain c mark)

theorem newLine {text : List Char} {tokens : List Token} (spells : Spells text tokens)
    (depth : Nat) : Spells (text ++ Json.newLine depth) tokens where
  reads rest := by
    rw [List.append_assoc, spells.reads, Json.newLine, List.cons_append,
      tokens?_blank (by decide)]
    congr 1
    induction 2 * depth with
    | zero => rfl
    | succ n ih => rwa [List.replicate_succ, List.cons_append, tokens?_blank (by decide)]
  plain := by
    refine List.forall_mem_append.mpr ⟨spells.plain, List.forall_mem_cons.mpr ⟨.inl rfl, ?_⟩⟩
    intro c member
    rw [List.eq_of_mem_replicate member]
    exact .inr rfl

theorem line {c : Char} (mark : c ∈ marks) (depth : Nat) :
    Spells (c :: Json.newLine depth) [.mark c] :=
  (Spells.mark mark).newLine depth

theorem colon : Spells [':', ' '] [.mark ':'] where
  reads rest := by
    have mark : ':' ∈ marks := by decide
    rw [List.cons_append, tokens?_mark mark, List.singleton_append, tokens?_blank (by decide)]
    rfl
  plain := List.forall_mem_cons.mpr ⟨.inr rfl, List.forall_mem_singleton.mpr (.inr rfl)⟩

theorem scalar {c : Char} {text : List Char} {value : Json} (other : c ∉ blanks ∧ c ∉ marks)
    (read : ∀ rest, scalar? (c :: text ++ rest) = some (value, rest))
    (plain : (c :: text).all isPlain) : Spells (c :: text) [.scalar value] where
  reads rest := tokens?_scalar other (read rest)
  plain d member := .inr (List.all_eq_true.mp plain d member)

theorem writeString (text : String) : Spells (Json.writeString text) [.scalar (.string text)] := by
  refine scalar (by decide) (fun rest => ?_) (List.all_eq_true.mpr (plain_writeString text))
  rw [List.append_eq, List.cons_append, List.append_assoc, scalar?, List.singleton_append,
    quoted?_writeString]
  rfl

end Spells

mutual

def tokensOf : Json → List Token
  | .array [] => [.mark '[', .mark ']']
  | .array (item :: items) => .mark '[' :: tokensOf item ++ itemTokens items ++ [.mark ']']
  | .object [] => [.mark '{', .mark '}']
  | .object ((name, value) :: members) =>
    .mark '{' :: .scalar (.string name) :: .mark ':' :: tokensOf value ++ memberTokens members ++
      [.mark '}']
  | value => [.scalar value]

def itemTokens : List Json → List Token
  | [] => []
  | item :: items => .mark ',' :: tokensOf item ++ itemTokens items

def memberTokens : List (String × Json) → List Token
  | [] => []
  | (name, value) :: members =>
    .mark ',' :: .scalar (.string name) :: .mark ':' :: tokensOf value ++ memberTokens members

end

mutual

theorem spells_write (depth : Nat) : (j : Json) → Spells (write depth j) (tokensOf j)
  | .null => .scalar (by decide) (fun _ => rfl) (by decide)
  | .bool true => .scalar (by decide) (fun _ => rfl) (by decide)
  | .bool false => .scalar (by decide) (fun _ => rfl) (by decide)
  | .string text => .writeString text
  | .array [] => (Spells.mark (by decide)).append (.mark (by decide))
  | .array (item :: items) => by
    have front := Spells.line (c := '[') (by decide) (depth + 1)
    have all := (front.append (spells_write (depth + 1) item)).append
      (spells_writeItems (depth + 1) items)
    exact (all.newLine depth).append (.mark (by decide))
  | .object [] => (Spells.mark (by decide)).append (.mark (by decide))
  | .object ((name, value) :: members) => by
    have front := Spells.line (c := '{') (by decide) (depth + 1)
    have named := (front.append (.writeString name)).append .colon
    have all := (named.append (spells_write (depth + 1) value)).append
      (spells_writeMembers (depth + 1) members)
    exact (all.newLine depth).append (.mark (by decide))

theorem spells_writeItems (depth : Nat) :
    (items : List Json) → Spells (writeItems depth items) (itemTokens items)
  | [] => .nil
  | item :: items => by
    have front := Spells.line (c := ',') (by decide) depth
    exact (front.append (spells_write depth item)).append (spells_writeItems depth items)

theorem spells_writeMembers (depth : Nat) :
    (members : List (String × Json)) → Spells (writeMembers depth members) (memberTokens members)
  | [] => .nil
  | (name, value) :: members => by
    have front := Spells.line (c := ',') (by decide) depth
    have named := (front.append (.writeString name)).append .colon
    exact (named.append (spells_write depth value)).append (spells_writeMembers depth members)

end

/-- A container of which not all items are read. A member of an object has its name read first.
The containers around a value are any: an item is read within one more than its array is. -/
inductive Open
  | array (read : List Json)
  | object (read : List (String × Json)) (name : String)

mutual

/-- Reads a value and what follows it; the innermost open container comes first. An array that
has just been opened may end instead. -/
def value? : List Open → List Token → Option Json
  | around, .scalar value :: rest => after? around value rest
  | around, .mark '[' :: rest => value? (.array [] :: around) rest
  | .array [] :: around, .mark ']' :: rest => after? around (.array []) rest
  | around, .mark '{' :: .mark '}' :: rest => after? around (.object []) rest
  | around, .mark '{' :: .scalar (.string name) :: .mark ':' :: rest =>
    value? (.object [] name :: around) rest
  | _, _ => none

def after? : List Open → Json → List Token → Option Json
  | [], value, [] => some value
  | .array read :: around, value, .mark ',' :: rest =>
    value? (.array (read ++ [value]) :: around) rest
  | .array read :: around, value, .mark ']' :: rest =>
    after? around (.array (read ++ [value])) rest
  | .object read name :: around, value, .mark ',' :: .scalar (.string next) :: .mark ':' :: rest =>
    value? (.object (read ++ [(name, value)]) next :: around) rest
  | .object read name :: around, value, .mark '}' :: rest =>
    after? around (.object (read ++ [(name, value)])) rest
  | _, _, _ => none

end

mutual

theorem value?_tokensOf (around : List Open) (rest : List Token) :
    (j : Json) → value? around (tokensOf j ++ rest) = after? around j rest
  | .null => by simp [tokensOf, value?]
  | .bool _ => by simp [tokensOf, value?]
  | .string _ => by simp [tokensOf, value?]
  | .array [] => by simp [tokensOf, value?]
  | .array (item :: items) => by
    rw [tokensOf, List.append_assoc, List.append_assoc, List.cons_append, List.singleton_append,
      value?, value?_tokensOf, after?_itemTokens, List.nil_append]
  | .object [] => by simp [tokensOf, value?]
  | .object ((name, value) :: members) => by
    rw [tokensOf, List.append_assoc, List.append_assoc, List.cons_append, List.singleton_append,
      List.cons_append, List.cons_append, value?, value?_tokensOf, after?_memberTokens,
      List.nil_append]

theorem after?_itemTokens (read : List Json) (around : List Open) (value : Json)
    (rest : List Token) : (items : List Json) →
      after? (.array read :: around) value (itemTokens items ++ .mark ']' :: rest) =
        after? around (.array (read ++ value :: items)) rest
  | [] => by simp [itemTokens, after?]
  | item :: items => by
    rw [itemTokens, List.append_assoc, List.cons_append, after?, value?_tokensOf,
      after?_itemTokens, List.append_assoc, List.singleton_append]

theorem after?_memberTokens (read : List (String × Json)) (name : String) (around : List Open)
    (value : Json) (rest : List Token) : (members : List (String × Json)) →
      after? (.object read name :: around) value (memberTokens members ++ .mark '}' :: rest) =
        after? around (.object (read ++ (name, value) :: members)) rest
  | [] => by simp [memberTokens, after?]
  | (next, item) :: members => by
    rw [memberTokens, List.append_assoc, List.cons_append, List.cons_append, List.cons_append,
      after?, value?_tokensOf, after?_memberTokens, List.append_assoc, List.singleton_append]

end

def read? (text : List Char) : Option Json :=
  (tokens? text).bind (value? [])

/-- What has been written at any depth is read back. -/
theorem read?_write (depth : Nat) (j : Json) : read? (write depth j) = some j := by
  have tokens : tokens? (write depth j) = some (tokensOf j) := by
    have reads := (spells_write depth j).reads []
    rwa [List.append_nil, tokens?, Option.map_some, List.append_nil] at reads
  have value : value? [] (tokensOf j) = some j := by
    have read := value?_tokensOf [] [] j
    rwa [List.append_nil] at read
  rw [read?, tokens, Option.bind_some, value]

end RecordCompat.Json
