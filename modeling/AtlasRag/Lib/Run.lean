/-
Runs of a transition function: the common part of every state machine of this development.

A machine is a function `step : σ → ο → σ`; a schedule is a list of operations. `Run step ok s t` says that `t` is
reached from `s` by a schedule whose every operation was admissible (`ok`) in the state in which it was executed; an
unconditional run takes `ok` to be `always`.

Rules:
- `Run.inv`: what holds at the start and is preserved by every admissible step holds in every state reached;
- `run_of_admissible`: a schedule that is admissible is a run;
- `forall_take_iff`: exactly when a property holds in every state of a run;
- `fair_rule`: every fair schedule reaches its goal.
-/
import Mathlib

namespace AtlasRag.Lib

variable {σ ο : Type*} {step : σ → ο → σ} {ok : σ → ο → Prop}

/-- the state after a schedule -/
def run (step : σ → ο → σ) (s : σ) (ops : List ο) : σ := ops.foldl step s

@[simp] theorem run_nil (s : σ) : run step s [] = s := rfl

@[simp] theorem run_cons (s : σ) (o : ο) (ops : List ο) : run step s (o :: ops) = run step (step s o) ops := rfl

theorem run_append (s : σ) (a b : List ο) : run step s (a ++ b) = run step (run step s a) b := by
  simp [run, List.foldl_append]

theorem run_snoc (s : σ) (l : List ο) (o : ο) : run step s (l ++ [o]) = step (run step s l) o := by
  simp [run_append]

/-- every operation of the schedule is admissible in the state in which it is executed -/
def Admissible (step : σ → ο → σ) (ok : σ → ο → Prop) : σ → List ο → Prop
  | _, [] => True
  | s, o :: ops => ok s o ∧ Admissible step ok (step s o) ops

/-- the condition under which every operation is admissible -/
def always (_ : σ) (_ : ο) : Prop := True

instance Admissible.decidable [∀ s o, Decidable (ok s o)] :
    ∀ (s : σ) (ops : List ο), Decidable (Admissible step ok s ops)
  | _, [] => .isTrue trivial
  | s, o :: ops => @instDecidableAnd _ _ _ (Admissible.decidable (step s o) ops)

theorem Admissible.append {s : σ} {a b : List ο} (ha : Admissible step ok s a)
    (hb : Admissible step ok (run step s a) b) : Admissible step ok s (a ++ b) := by
  induction a generalizing s with
  | nil => exact hb
  | cons o a ih => exact ⟨ha.1, ih ha.2 hb⟩

/-- operations that are admissible in every state -/
theorem Admissible.of_forall {ops : List ο} (h : ∀ o ∈ ops, ∀ s, ok s o) (s : σ) : Admissible step ok s ops := by
  induction ops generalizing s with
  | nil => trivial
  | cons o ops ih => exact ⟨h o List.mem_cons_self s, ih (fun o' ho' => h o' (List.mem_cons_of_mem _ ho')) _⟩

theorem Admissible.of_always (s : σ) (ops : List ο) : Admissible step always s ops := of_forall (fun _ _ _ => trivial) s

/-- `t` is reached from `s` by an admissible schedule -/
inductive Run (step : σ → ο → σ) (ok : σ → ο → Prop) (s : σ) : σ → Prop where
  | refl : Run step ok s s
  | tail {t : σ} (h : Run step ok s t) (o : ο) (ho : ok t o) : Run step ok s (step t o)

namespace Run

variable {s t u : σ}

theorem trans (h₁ : Run step ok s t) (h₂ : Run step ok t u) : Run step ok s u := by
  induction h₂ with
  | refl => exact h₁
  | tail _ o ho ih => exact ih.tail o ho

theorem single (o : ο) (ho : ok s o) : Run step ok s (step s o) := refl.tail o ho

/-- What every admissible step keeps, a run keeps. -/
theorem inv {I : σ → Prop} (hstep : ∀ s o, ok s o → I s → I (step s o)) (h : Run step ok s t) (hs : I s) : I t := by
  induction h with
  | refl => exact hs
  | tail _ o ho ih => exact hstep _ o ho ih

/-- a weaker admissibility condition allows the run as well -/
theorem weaken {ok' : σ → ο → Prop} (hok : ∀ s o, ok s o → ok' s o) (h : Run step ok s t) : Run step ok' s t := by
  induction h with
  | refl => exact refl
  | tail _ o ho ih => exact ih.tail o (hok _ o ho)

end Run

/-- an admissible schedule is a run -/
theorem run_of_admissible {s : σ} {ops : List ο} (h : Admissible step ok s ops) : Run step ok s (run step s ops) := by
  induction ops generalizing s with
  | nil => exact .refl
  | cons o ops ih => exact (Run.single o h.1).trans (ih h.2)

/-- **A property of every state of a run, exactly.** Where, under an invariant, a step keeps `P` iff `C` holds of it, `P`
holds in every state of a run iff `C` holds of every step. -/
theorem forall_take_iff {I P : σ → Prop} {C : σ → ο → Prop} (hI : ∀ s o, ok s o → I s → I (step s o))
    (hstep : ∀ s o, ok s o → I s → P s → (P (step s o) ↔ C s o)) {s : σ} {ops : List ο}
    (hops : Admissible step ok s ops) (hs : I s) (hP : P s) :
    (∀ k, P (run step s (ops.take k))) ↔ Admissible step C s ops := by
  induction ops generalizing s with
  | nil => simp [Admissible, hP]
  | cons o ops ih =>
    have hiff := hstep s o hops.1 hs hP
    constructor
    · intro h
      have hP' : P (step s o) := h 1
      exact ⟨hiff.1 hP', (ih hops.2 (hI s o hops.1 hs) hP').1 fun k => h (k + 1)⟩
    · rintro ⟨hC, hrest⟩ k
      cases k with
      | zero => exact hP
      | succ k => exact (ih hops.2 (hI s o hops.1 hs) (hiff.2 hC)).2 hrest k

/-- every schedule is an unconditional run -/
theorem run_always (s : σ) (ops : List ο) : Run step always s (run step s ops) :=
  run_of_admissible (.of_always s ops)

/-! ## Fair schedules -/

/-- the first `k` operations of an infinite schedule -/
def firstOf (f : ℕ → ο) (k : ℕ) : List ο := (List.range k).map f

theorem firstOf_succ (f : ℕ → ο) (k : ℕ) : firstOf f (k + 1) = firstOf f k ++ [f k] := by
  simp [firstOf, List.range_succ]

theorem firstOf_add (f : ℕ → ο) (m k : ℕ) : firstOf f (m + k) = firstOf f m ++ firstOf (fun j => f (m + j)) k := by
  simp [firstOf, List.range_add, Function.comp_def]

/-- every operation of the kind comes again and again -/
def Fair (live : ο → Prop) (f : ℕ → ο) : Prop := ∀ o, live o → ∀ k, ∃ m, k ≤ m ∧ f m = o

theorem Fair.shift {live : ο → Prop} {f : ℕ → ο} (h : Fair live f) (m : ℕ) : Fair live fun j => f (m + j) := by
  intro o ho k
  obtain ⟨j, hj, hfj⟩ := h o ho (m + k)
  refine ⟨j - m, by omega, ?_⟩
  have hj' : m + (j - m) = j := by omega
  simpa only [hj'] using hfj

/-- **Progress rule.** If a step changes nothing or lowers a measure, and some live operation lowers it as long as the goal
is not reached, then every fair schedule reaches the goal. -/
theorem fair_rule {I done : σ → Prop} {μ : σ → ℕ} {live : ο → Prop} (hI : ∀ s o, I s → I (step s o))
    (hμ : ∀ s o, I s → step s o = s ∨ μ (step s o) < μ s)
    (hlive : ∀ s, I s → ¬ done s → ∃ o, live o ∧ μ (step s o) < μ s) {f : ℕ → ο} (hf : Fair live f) {s : σ} (hs : I s) :
    ∃ k, done (run step s (firstOf f k)) := by
  induction hn : μ s using Nat.strongRecOn generalizing s f with
  | ind n ih =>
    by_cases hd : done s
    · exact ⟨0, hd⟩
    · -- the first operation that does something
      have hex : ∃ m, step s (f m) ≠ s := by
        obtain ⟨o, ho, hlt⟩ := hlive s hs hd
        obtain ⟨m, -, hm⟩ := hf o ho 0
        refine ⟨m, fun heq => ?_⟩
        rw [hm] at heq
        rw [heq] at hlt
        exact lt_irrefl _ hlt
      classical
      let m := Nat.find hex
      have hidle : ∀ j ≤ m, run step s (firstOf f j) = s := by
        intro j hj
        induction j with
        | zero => rfl
        | succ j ihj =>
          have hsame : step s (f j) = s := not_not.1 (Nat.find_min hex hj)
          rw [firstOf_succ, run_snoc, ihj (by omega), hsame]
      have hlt : μ (step s (f m)) < n := hn ▸ (hμ s (f m) hs).resolve_left (Nat.find_spec hex)
      obtain ⟨k, hk⟩ := ih _ hlt (hf.shift (m + 1)) (hI s (f m) hs) rfl
      refine ⟨m + 1 + k, ?_⟩
      rw [firstOf_add, run_append, firstOf_succ, run_snoc, hidle m le_rfl]
      exact hk

end AtlasRag.Lib
