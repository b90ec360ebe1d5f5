/-
What programs can end with, in the system of `Lib.LockMode`.

`Outcomes C B` says of a program that whatever it reads, `C` holds of the write and the result of its commit and `B` of
the result of its rollback. It is a fact about the tree, so it needs no locks; and it passes to a component of a larger
database.

Results:
- `exec_cases`, `sessions_of_ne`: what the next action of a session does to it, and to the others;
- `outcomes_zoom`: the outcomes of a program on a component;
- `safe_of_outcomes`: safety from the outcomes;
- `outcomes_rule`: the outcomes of every open session;
- `ending_commits`, `history_eq_log`: where results tell commits from rollbacks, the log tells what has been committed.
-/
import AtlasRag.Lib.LockMode

namespace AtlasRag.Lib.LockMode

open AtlasRag.Lib
open AtlasRag.Lib.RowLock (Op)
open AtlasRag.Lib.Transaction (Txn)

variable {D ρ R : Type}

def Outcomes (C : (D → D) → R → Prop) (B : R → Prop) : Txn D ρ R → Prop
  | .stmt _ k => ∀ d, Outcomes C B (k d)
  | .commit w r => C w r
  | .rollback r => B r

variable {C C' : (D → D) → R → Prop} {B B' : R → Prop}

theorem Outcomes.mono {p : Txn D ρ R} (h : Outcomes C B p) (hC : ∀ w r, C w r → C' w r) (hB : ∀ r, B r → B' r) :
    Outcomes C' B' p := by
  induction p with
  | stmt rows k ih => exact fun d => ih d (h d)
  | commit w r => exact hC w r h
  | rollback r => exact hB r h

theorem outcomes_of_ends {C : R → Prop} {p : Txn D ρ R} (h : p.Ends C B) : Outcomes (fun _ => C) B p := by
  induction p with
  | stmt rows k ih => exact fun d => ih d (h d)
  | commit w r => exact h
  | rollback r => exact h

/-- **A component**: a commit writes through `set`. -/
theorem outcomes_zoom {E σ S : Type} {get : E → D} {set : D → E → E} {lock : ρ → σ} {res : R → S}
    {C' : (E → E) → S → Prop} {B' : S → Prop} {p : Txn D ρ R} (h : Outcomes C B p)
    (hC : ∀ w r, C w r → C' (fun e => set (w (get e)) e) (res r)) (hB : ∀ r, B r → B' (res r)) :
    Outcomes C' B' (zoom get set lock res p) := by
  induction p with
  | stmt rows k ih => exact fun e => ih (get e) (h (get e))
  | commit w r => exact hC w r h
  | rollback r => exact hB r h

/-- **Safety from the outcomes**, where it does not depend on what the program has read. -/
theorem safe_of_outcomes {clash : ρ → ρ → Prop} {G : D → Prop} {guarantee : R → Set ρ → D → D → Prop} {p : Txn D ρ R}
    (h : Outcomes C B p) (hC : ∀ w r, C w r → ∀ d L, G d → G (w d) ∧ guarantee r L d (w d)) {L : Set ρ} {d : D} :
    Safe clash G guarantee p L d := by
  induction p generalizing L d with
  | stmt rows k ih => exact safe_stmt fun L' d' _ _ => ih d' (h d')
  | commit w r => exact safe_commit fun d' _ hG => hC w r h d' L hG
  | rollback r => exact safe_rollback r

/-! ## Sessions -/

section Sessions

variable {conflict : ρ → ρ → Prop} [DecidableRel conflict] {s : Sys D ρ R} {o : Op (Txn D ρ R)} {i : ℕ}
  {p : Txn D ρ R}

/-- the result with which the step ends a session, if it does -/
def ending (s : Sys D ρ R) : Op (Txn D ρ R) → Option R
  | .exec i =>
    match s.sessions i with
    | some (.commit _ r) => some r
    | some (.rollback r) => some r
    | _ => none
  | _ => none

/-- the next action of a session that runs a program: what it runs then, what it ends with and what it commits -/
inductive ExecCase (d : D) : Txn D ρ R → Option (Txn D ρ R) → Option R → Option ((D → D) × R) → Prop where
  | waits {rows : D → List ρ} {k : D → Txn D ρ R} : ExecCase d (.stmt rows k) (some (.stmt rows k)) none none
  | reads {rows : D → List ρ} {k : D → Txn D ρ R} : ExecCase d (.stmt rows k) (some (k d)) none none
  | commits {w : D → D} {r : R} : ExecCase d (.commit w r) none (some r) (some (w, r))
  | rollsBack {r : R} : ExecCase d (.rollback r) none (some r) none

variable (conflict) in
theorem exec_cases (hi : s.sessions i = some p) :
    ExecCase s.db p ((step conflict s (.exec i)).sessions i) (ending s (.exec i)) (committing s (.exec i)) := by
  cases p with
  | stmt rows k =>
    simp only [step, ending, committing, hi]
    split_ifs
    · simp only [Sys.lock, Function.update_self]
      exact .reads
    · rw [hi]
      exact .waits
  | commit w r =>
    simp only [step, ending, committing, hi, Sys.close, Function.update_self]
    exact .commits
  | rollback r =>
    simp only [step, ending, committing, hi, Sys.close, Function.update_self]
    exact .rollsBack

/-- **The outcomes of a session** stay those of its program. -/
theorem ExecCase.outcomes {d : D} {next : Option (Txn D ρ R)} {a : Option R} {c : Option ((D → D) × R)}
    (hc : ExecCase d p next a c) (h : Outcomes C B p) :
    (∀ q, next = some q → Outcomes C B q) ∧ (∀ w r, c = some (w, r) → C w r) ∧ (∀ r, a = some r → c = none → B r) := by
  cases hc with
  | waits => exact ⟨fun q hq => Option.some.inj hq ▸ h, by simp, by simp⟩
  | reads => exact ⟨fun q hq => Option.some.inj hq ▸ h _, by simp, by simp⟩
  | commits => exact ⟨by simp, by rintro w r ⟨⟩; exact h, by simp⟩
  | rollsBack => exact ⟨by simp, by simp, by rintro r ⟨⟩ _; exact h⟩

variable (conflict) in
/-- a session that is not open has no next action -/
theorem exec_none (hi : s.sessions i = none) : step conflict s (.exec i) = s ∧ ending s (.exec i) = none ∧
    committing s (.exec i) = none := by
  simp only [step, ending, committing, hi, and_self]

variable (conflict) in
/-- **A frame rule**: an operation on one session leaves the others as they are. -/
theorem sessions_of_ne {k : ℕ} (hk : k ≠ i) :
    (step conflict s (.start i p)).sessions k = s.sessions k ∧ (step conflict s (.exec i)).sessions k = s.sessions k ∧
      (step conflict s (.abort i)).sessions k = s.sessions k := by
  refine ⟨?_, ?_, ?_⟩
  · simp only [step]
    split
    · rfl
    · exact Function.update_of_ne hk _ _
  · have hc := step_cases conflict s (.exec i)
    generalize step conflict s (.exec i) = s' at hc
    cases hc with
    | same => rfl
    | stmt => exact Function.update_of_ne hk _ _
    | commit => exact Function.update_of_ne hk _ _
    | rollback => exact Function.update_of_ne hk _ _
  · exact Function.update_of_ne hk _ _

/-! ## Runs -/

variable {ok : Sys D ρ R → Op (Txn D ρ R) → Prop} {d : D}

/-- **The rule for outcomes**: those of the programs that are started are those of every open session. -/
theorem outcomes_rule (hstart : ∀ s i p, ok s (.start i p) → Outcomes C B p)
    (hs : Run (step conflict) ok (Sys.init d) s) : ∀ i p, s.sessions i = some p → Outcomes C B p := by
  induction hs with
  | refl => intro i p hi; cases hi
  | @tail s hs o ho ih =>
    have hc := step_cases conflict s o
    generalize step conflict s o = s' at hc
    intro j q hj
    cases hc with
    | same => exact ih j q hj
    | @start i p hi =>
      simp only [Function.update_apply] at hj
      split_ifs at hj
      · obtain rfl : p = q := Option.some.inj hj
        exact hstart s i p ho
      · exact ih j q hj
    | @stmt i rows k hi _ =>
      rcases Sys.sessions_lock hj with ⟨rfl, rfl⟩ | ⟨-, hj⟩
      · exact ih j _ hi s.db
      · exact ih j q hj
    | commit => exact ih j q (Sys.sessions_close hj).2
    | rollback => exact ih j q (Sys.sessions_close hj).2
    | abort => exact ih j q (Sys.sessions_close hj).2

variable {P : R → Prop} (hstart : ∀ s i p, ok s (.start i p) → Outcomes (fun _ => P) (fun r => ¬ P r) p)
include hstart

/-- **A result that only commits have** is that of a commit. -/
theorem ending_commits (hs : Run (step conflict) ok (Sys.init d) s) {r : R} (hr : ending s o = some r) (hP : P r) :
    ∃ w, committing s o = some (w, r) := by
  cases o with
  | exec i =>
    cases hi : s.sessions i with
    | none => simp [ending, hi] at hr
    | some p =>
      have hp := outcomes_rule hstart hs i p hi
      cases p with
      | stmt rows k => simp [ending, hi] at hr
      | commit w r' =>
        obtain rfl : r' = r := by simpa [ending, hi] using hr
        exact ⟨w, by simp [committing, hi]⟩
      | rollback r' =>
        obtain rfl : r' = r := by simpa [ending, hi] using hr
        exact absurd hP hp
  | start => cases hr
  | abort => cases hr

/-- what one step adds to the results that meet `P`: the one that it commits -/
theorem step_log_filter [DecidablePred P] (hs : Run (step conflict) ok (Sys.init d) s) (o : Op (Txn D ρ R)) :
    ((step conflict s o).log.map (·.2)).filter P = (s.log.map (·.2)).filter P ++ (committing s o).toList.map (·.2) := by
  cases o with
  | start i p =>
    simp only [step, committing]
    split <;> simp
  | abort i => simp [step, committing, Sys.close]
  | exec i =>
    cases hi : s.sessions i with
    | none => simp [step, committing, hi]
    | some p =>
      have hp := outcomes_rule hstart hs i p hi
      cases p with
      | stmt rows k =>
        simp only [step, committing, hi]
        split_ifs <;> simp [Sys.lock]
      | commit w r =>
        have hr : P r := hp
        simp [step, committing, hi, Sys.close, hr]
      | rollback r =>
        have hr : ¬ P r := hp
        simp [step, committing, hi, Sys.close, hr]

/-- **The history is what the log says.** If programs commit exactly with the results that meet `P`, the history of a run is
the list of the results of its log that meet `P`. -/
theorem history_eq_log [DecidablePred P] {ops : List (Op (Txn D ρ R))}
    (hops : Admissible (step conflict) ok (Sys.init d) ops) :
    history conflict (Sys.init d) ops = ((run (step conflict) (Sys.init d) ops).log.map (·.2)).filter P := by
  have hgeneral : ∀ s, Run (step conflict) ok (Sys.init d) s → Admissible (step conflict) ok s ops →
      ((run (step conflict) s ops).log.map (·.2)).filter P = (s.log.map (·.2)).filter P ++ history conflict s ops := by
    clear hops
    induction ops with
    | nil => intro s _ _; simp [history]
    | cons o ops ih =>
      intro s hs hops
      rw [run_cons, ih _ (hs.tail o hops.1) hops.2, step_log_filter hstart hs o, history, List.append_assoc]
  rw [hgeneral _ .refl hops]
  rfl

end Sessions

end AtlasRag.Lib.LockMode
