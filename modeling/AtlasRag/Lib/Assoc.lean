/-
Lists of entries with distinct keys, as the dicts of a program.

Result:
- `lookup_eq_some_iff`, `lookup_perm`: what is found does not depend on the order of the entries.
-/
import Mathlib

namespace AtlasRag.Lib.Assoc

variable {κ α : Type} [BEq κ] [LawfulBEq κ] {entries entries' : List (κ × α)}

theorem lookup_eq_some_iff (h : (entries.map Prod.fst).Nodup) {k : κ} {a : α} :
    entries.lookup k = some a ↔ (k, a) ∈ entries := by
  induction entries with
  | nil => simp
  | cons e entries ih =>
    obtain ⟨key, value⟩ := e
    rw [List.map_cons, List.nodup_cons] at h
    rw [List.lookup_cons, List.mem_cons, Prod.mk.injEq]
    by_cases hk : k = key
    · subst hk
      have hnot : (k, a) ∉ entries := fun hmem => h.1 (List.mem_map.2 ⟨_, hmem, rfl⟩)
      simp [hnot, eq_comm]
    · rw [beq_eq_false_iff_ne.2 hk]
      simp [hk, ih h.2]

/-- **The order** of the entries -/
theorem lookup_perm (h : (entries.map Prod.fst).Nodup) (hperm : entries.Perm entries') (k : κ) :
    entries.lookup k = entries'.lookup k := by
  have h' : (entries'.map Prod.fst).Nodup := (hperm.map _).nodup_iff.1 h
  apply Option.ext
  intro a
  rw [lookup_eq_some_iff h, lookup_eq_some_iff h', hperm.mem_iff]

end AtlasRag.Lib.Assoc
