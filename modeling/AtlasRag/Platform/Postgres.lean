/-
What the models share about the database: timestamps, identifiers, stored JSON and the reasons for which a row is
refused. A table's CHECK constraints are listed under their names in `src/`; the column types VARCHAR(n) and TEXT refuse
a text that is too long or holds a NUL character.
-/
import Mathlib

namespace AtlasRag.Platform

/-- a timestamp with time zone, in microseconds -/
abbrev Time := ℤ

/-- a UUID; two are equal iff their canonical texts are -/
abbrev Uuid := ℕ

instance : LawfulBEq (Uuid × Uuid) := inferInstance

/-- a JSON value, as the JSONB columns store it -/
inductive Json where
  | null
  | bool (b : Bool)
  | int (n : ℤ)
  | str (s : String)
  | arr (xs : List Json)
  | obj (fields : List (String × Json))
deriving Repr

/-- a `dict[str, object]` column -/
abbrev JsonObject := List (String × Json)

/-- why the database refuses a row -/
inductive Violation where
  | check (name : String)
  | unique (name : String)
  | exclusion (name : String)
  | foreignKey (column : String)
  | tooLong (column : String)
  | invalidText (column : String)
  | outOfRange (column : String)
deriving DecidableEq, Repr

/-- a CHECK constraint -/
def checkThat (name : String) (p : Prop) [Decidable p] : List Violation := if p then [] else [.check name]

@[simp] theorem checkThat_eq_nil {name : String} {p : Prop} [Decidable p] : checkThat name p = [] ↔ p := by
  unfold checkThat; split_ifs with h <;> simp [h]

/-- a FOREIGN KEY; `p`: the referenced row exists -/
def reference (column : String) (p : Prop) [Decidable p] : List Violation := if p then [] else [.foreignKey column]

/-- a unique index; `p`: the key is taken -/
def uniqueIndex (name : String) (p : Prop) [Decidable p] : List Violation := if p then [.unique name] else []

@[simp] theorem reference_eq_nil {column : String} {p : Prop} [Decidable p] : reference column p = [] ↔ p := by
  unfold reference; split_ifs with h <;> simp [h]

@[simp] theorem uniqueIndex_eq_nil {name : String} {p : Prop} [Decidable p] : uniqueIndex name p = [] ↔ ¬ p := by
  unfold uniqueIndex; split_ifs with h <;> simp [h]

/-- an exclusion constraint; `p`: another row is in the way -/
def exclusionConstraint (name : String) (p : Prop) [Decidable p] : List Violation := if p then [.exclusion name] else []

@[simp] theorem exclusionConstraint_eq_nil {name : String} {p : Prop} [Decidable p] :
    exclusionConstraint name p = [] ↔ ¬ p := by
  unfold exclusionConstraint; split_ifs with h <;> simp [h]

/-- a text column: VARCHAR(n) for `limit = some n`, TEXT for `none`; NULL always fits -/
def textColumn (column : String) (limit : Option ℕ) : Option String → List Violation
  | none => []
  | some s =>
    (if ∃ n ∈ limit, n < s.toList.length then [.tooLong column] else []) ++
      if '\x00' ∈ s.toList then [.invalidText column] else []

/-- the text can be stored in a VARCHAR(n) (`some n`) or TEXT (`none`) column -/
def FitsText (limit : Option ℕ) (s : String) : Prop := (∀ n ∈ limit, s.toList.length ≤ n) ∧ '\x00' ∉ s.toList

instance (limit : Option ℕ) (s : String) : Decidable (FitsText limit s) := inferInstanceAs (Decidable (_ ∧ _))

@[simp] theorem textColumn_none (column : String) (limit : Option ℕ) : textColumn column limit none = [] := rfl

@[simp] theorem textColumn_some {column : String} {limit : Option ℕ} {s : String} :
    textColumn column limit (some s) = [] ↔ FitsText limit s := by
  unfold textColumn FitsText
  by_cases h : '\x00' ∈ s.toList <;> simp [h]

/-- an INTEGER column -/
def integerColumn (column : String) (n : Option ℤ) : List Violation :=
  if ∀ k ∈ n, -2 ^ 31 ≤ k ∧ k < 2 ^ 31 then [] else [.outOfRange column]

theorem integerColumn_eq_nil {column : String} {n : Option ℤ} :
    integerColumn column n = [] ↔ ∀ k ∈ n, -2 ^ 31 ≤ k ∧ k < 2 ^ 31 := by
  unfold integerColumn
  split_ifs with h
  · simpa using h
  · simpa using h

/-! ## Which constraints name a unique index -/

@[simp] theorem unique_mem_uniqueIndex {x name : String} {p : Prop} [Decidable p] :
    .unique x ∈ uniqueIndex name p ↔ p ∧ x = name := by
  unfold uniqueIndex; split_ifs with h <;> simp [h]

@[simp] theorem unique_not_mem_checkThat {x name : String} {p : Prop} [Decidable p] : .unique x ∉ checkThat name p := by
  unfold checkThat; split_ifs <;> simp

@[simp] theorem unique_not_mem_reference {x column : String} {p : Prop} [Decidable p] :
    .unique x ∉ reference column p := by
  unfold reference; split_ifs <;> simp

@[simp] theorem unique_not_mem_textColumn {x column : String} {limit : Option ℕ} {s : Option String} :
    .unique x ∉ textColumn column limit s := by
  cases s with
  | none => simp
  | some s =>
    unfold textColumn
    intro h
    rcases List.mem_append.1 h with h | h
    · split_ifs at h <;> simp at h
    · split_ifs at h <;> simp at h

/-- `length(btrim(s)) > 0` -/
def NonBlank (s : String) : Prop := ∃ c ∈ s.toList, c ≠ ' '

instance (s : String) : Decidable (NonBlank s) := List.decidableBEx _ s.toList

end AtlasRag.Platform
