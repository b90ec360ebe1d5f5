/-
Calls that run several transactions, one after another, and are interleaved.

A flow says which transaction a call starts next, given the results of those it has ended; a call without a next one has
finished. In its turn a call starts its next transaction or goes on with the open one. A schedule is a list of turns.

Results:
- `turn_cases`: what a turn can do;
- `Valid.rule`: an assertion of the database, one of each call between its transactions and one of each open transaction
  hold in every state reached, if each of them is kept by the call's own actions and by the commits of the others;
- `finish_rule`: if the transactions are bounded and no call waits for one that waits, every call finishes in every fair
  schedule.
-/
import AtlasRag.Lib.Since

namespace AtlasRag.Lib.Workflow

open AtlasRag.Lib AtlasRag.Lib.RowLock AtlasRag.Lib.Since AtlasRag.Lib.Transaction

variable {D ρ R : Type}

/-- the transaction that call `i` starts after these results -/
abbrev Flow (D ρ R : Type) := ℕ → List R → Option (Txn D ρ R)

abbrev State (D ρ R : Type) := Sys D (Txn D ρ R) ρ R

/-- the results of the transactions that the call has ended -/
def results (s : State D ρ R) (i : ℕ) : List R := (s.log.filter (·.1 = i)).map (·.2)

theorem mem_results {s : State D ρ R} {i : ℕ} {r : R} : r ∈ results s i ↔ (i, r) ∈ s.log := by
  simp only [results, List.mem_map, List.mem_filter, decide_eq_true_eq]
  constructor
  · intro ⟨e, ⟨he, hi⟩, hr⟩
    rw [← hi, ← hr]
    exact he
  · intro h
    exact ⟨(i, r), ⟨h, rfl⟩, rfl⟩

theorem results_of_log {s s' : State D ρ R} {i : ℕ} {r : R} (h : s'.log = s.log ++ [(i, r)]) :
    results s' i = results s i ++ [r] := by
  simp [results, h]

theorem results_of_log_ne {s s' : State D ρ R} {i j : ℕ} {r : R} (h : s'.log = s.log ++ [(i, r)]) (hj : j ≠ i) :
    results s' j = results s j := by
  simp [results, h, hj.symm]

/-- the call runs no transaction and starts none -/
def Finished (flow : Flow D ρ R) (s : State D ρ R) (i : ℕ) : Prop := s.sessions i = none ∧ flow i (results s i) = none

/-- the next statement of call `i` needs a row that call `j` holds -/
def WaitsFor (s : State D ρ R) (i j : ℕ) : Prop :=
  ∃ rows k x, s.sessions i = some (.stmt rows k) ∧ x ∈ rows s.db ∧ s.held x = some j ∧ j ≠ i

variable [DecidableEq ρ] {flow : Flow D ρ R}

def turn (flow : Flow D ρ R) (s : State D ρ R) (i : ℕ) : State D ρ R :=
  match s.sessions i with
  | some _ => step next s (.exec i)
  | none =>
    match flow i (results s i) with
    | some p => step next s (.start i p)
    | none => s

/-- … with the notes of what is committed meanwhile -/
def watchTurn (flow : Flow D ρ R) (w : Watched D ρ R) (i : ℕ) : Watched D ρ R :=
  match w.sys.sessions i with
  | some _ => watch w (.exec i)
  | none =>
    match flow i (results w.sys i) with
    | some p => watch w (.start i p)
    | none => w

theorem watchTurn_sys (w : Watched D ρ R) (i : ℕ) : (watchTurn flow w i).sys = turn flow w.sys i := by
  unfold watchTurn turn
  split
  · rfl
  · split <;> rfl

theorem run_watchTurn_sys (w : Watched D ρ R) (turns : List ℕ) :
    (run (watchTurn flow) w turns).sys = run (turn flow) w.sys turns := by
  induction turns generalizing w with
  | nil => rfl
  | cons i turns ih => rw [run_cons, run_cons, ih, watchTurn_sys]

/-! ## What a turn can do -/

inductive TurnCase (flow : Flow D ρ R) (s : State D ρ R) (i : ℕ) : State D ρ R → Prop where
  | finished (h : Finished flow s i) : TurnCase flow s i s
  | waits {j : ℕ} (h : WaitsFor s i j) : TurnCase flow s i s
  | start {p : Txn D ρ R} (hi : s.sessions i = none) (hp : flow i (results s i) = some p) :
      TurnCase flow s i { s with sessions := Function.update s.sessions i (some p) }
  | stmt {rows : D → List ρ} {k : D → Txn D ρ R} (hi : s.sessions i = some (.stmt rows k))
      (hfree : ∀ x ∈ rows s.db, s.held x = none ∨ s.held x = some i) :
      TurnCase flow s i (s.lock i (rows s.db) (k s.db))
  | commit {w : D → D} {r : R} (hi : s.sessions i = some (.commit w r)) :
      TurnCase flow s i { s.close i with db := w s.db, log := s.log ++ [(i, r)] }
  | rollback {r : R} (hi : s.sessions i = some (.rollback r)) :
      TurnCase flow s i { s.close i with log := s.log ++ [(i, r)] }

theorem turn_cases (flow : Flow D ρ R) (s : State D ρ R) (i : ℕ) : TurnCase flow s i (turn flow s i) := by
  unfold turn
  split
  · next p hi =>
    cases p with
    | stmt rows k =>
      simp only [step, hi, next]
      split_ifs with hfree
      · exact .stmt hi hfree
      · push Not at hfree
        obtain ⟨x, hx, hheld, hother⟩ := hfree
        obtain ⟨j, hj⟩ := Option.ne_none_iff_exists'.1 hheld
        exact .waits ⟨rows, k, x, hi, hx, hj, fun hji => hother (hji ▸ hj)⟩
    | commit w r => simp only [step, hi, next]; exact .commit hi
    | rollback r => simp only [step, hi, next]; exact .rollback hi
  · next hi =>
    split
    · next p hp => simp only [step, hi]; exact .start hi hp
    · next hp => exact .finished ⟨hi, hp⟩

/-! ## The rule for calls -/

/-- what is to be shown of the assertions: `G` of the database, `idle` of a call between its transactions and `busy` of its
open transaction, over the rows it holds -/
structure Valid (flow : Flow D ρ R) (G : D → Prop) (idle : ℕ → List R → D → Prop)
    (busy : ℕ → List R → D → Set ρ → Txn D ρ R → Prop) : Prop where
  start : ∀ d i rs p, G d → idle i rs d → flow i rs = some p → busy i rs d (fun _ => False) p
  stmt : ∀ d i rs L rows k, G d → busy i rs d L (.stmt rows k) → busy i rs d (fun x => x ∈ rows d ∨ L x) (k d)
  commit : ∀ d i rs L w r, G d → busy i rs d L (.commit w r) → G (w d) ∧ idle i (rs ++ [r]) (w d)
  rollback : ∀ d i rs L r, G d → busy i rs d L (.rollback r) → idle i (rs ++ [r]) d
  idle_stable : ∀ d i rs L w r j rs', G d → busy i rs d L (.commit w r) → j ≠ i → idle j rs' d → idle j rs' (w d)
  busy_stable : ∀ d i rs L w r j rs' L' p, G d → busy i rs d L (.commit w r) → j ≠ i → Disjoint L L' →
    busy j rs' d L' p → busy j rs' (w d) L' p

/-- the assertions hold -/
structure Holds (G : D → Prop) (idle : ℕ → List R → D → Prop) (busy : ℕ → List R → D → Set ρ → Txn D ρ R → Prop)
    (s : State D ρ R) : Prop where
  global : G s.db
  /-- a lock is held by an open transaction -/
  open' : ∀ x i, s.held x = some i → s.sessions i ≠ none
  idle : ∀ i, s.sessions i = none → idle i (results s i) s.db
  busy : ∀ i p, s.sessions i = some p → busy i (results s i) s.db (s.holds i) p

variable {G : D → Prop} {idle : ℕ → List R → D → Prop} {busy : ℕ → List R → D → Set ρ → Txn D ρ R → Prop}

omit [DecidableEq ρ] in
theorem Holds.closed {s : State D ρ R} (h : Holds G idle busy s) (i : ℕ) :
    ∀ x k, (s.close i).held x = some k → (s.close i).sessions k ≠ none := by
  intro x k hx
  simp only [Sys.close] at hx ⊢
  split_ifs at hx with hxi
  have hki : k ≠ i := fun he => hxi (he ▸ hx)
  rw [Function.update_of_ne hki]
  exact h.open' x k hx

/-- A turn of a valid flow keeps what holds of its calls. -/
theorem Valid.turn (hv : Valid flow G idle busy) {s : State D ρ R} (h : Holds G idle busy s) (i : ℕ) :
    Holds G idle busy (turn flow s i) := by
  have hc := turn_cases flow s i
  generalize Workflow.turn flow s i = s' at hc
  cases hc with
  | finished => exact h
  | waits => exact h
  | @start p hi hp =>
    refine ⟨h.global, fun x k hx => ?_, fun k hk => ?_, fun k q hk => ?_⟩
    · by_cases hki : k = i
      · rw [hki]; simp
      · simp only [Function.update_of_ne hki]; exact h.open' x k hx
    · have hki : k ≠ i := by
        intro hki
        rw [hki] at hk
        simp at hk
      simp only [Function.update_of_ne hki] at hk
      exact h.idle k hk
    · simp only [Function.update_apply] at hk
      split_ifs at hk with hki
      · obtain rfl : p = q := Option.some.inj hk
        have hnone : s.holds k = fun _ => False := by
          funext x
          rw [hki]
          exact eq_false fun hx => h.open' x i hx hi
        have hq : busy k (results s k) s.db (s.holds k) p := by
          rw [hnone, hki]
          exact hv.start s.db i _ p h.global (h.idle i hi) hp
        exact hq
      · exact h.busy k q hk
  | @stmt rows k hi hfree =>
    refine ⟨h.global, fun x j hx => ?_, fun j hj => ?_, fun j q hj => ?_⟩
    · by_cases hji : j = i
      · rw [hji]; simp [Sys.lock]
      · simp only [Sys.lock] at hx ⊢
        rw [Function.update_of_ne hji]
        split_ifs at hx
        · exact absurd (Option.some.inj hx).symm hji
        · exact h.open' x j hx
    · have hji : j ≠ i := by
        intro hji
        rw [hji] at hj
        simp [Sys.lock] at hj
      simp only [Sys.lock, Function.update_of_ne hji] at hj
      exact h.idle j hj
    · simp only [Sys.lock, Function.update_apply] at hj
      split_ifs at hj with hji
      · obtain rfl : k s.db = q := Option.some.inj hj
        subst hji
        have hq := hv.stmt s.db j _ _ rows k h.global (h.busy j _ hi)
        rw [Sys.holds_lock]
        exact hq
      · rw [Sys.holds_lock_other hji hfree]
        exact h.busy j q hj
  | @commit w r hi =>
    obtain ⟨hg, hown⟩ := hv.commit s.db i _ _ w r h.global (h.busy i _ hi)
    refine ⟨hg, h.closed i, fun k hk => ?_, fun k q hk => ?_⟩
    · by_cases hki : k = i
      · subst hki
        rw [results_of_log (s := s) rfl]
        exact hown
      · rw [results_of_log_ne (s := s) rfl hki]
        simp only [Sys.close, Function.update_of_ne hki] at hk
        exact hv.idle_stable s.db i _ _ w r k _ h.global (h.busy i _ hi) hki (h.idle k hk)
    · obtain ⟨hki, hq⟩ := Sys.sessions_close hk
      have hheld : (s.close i).holds k = s.holds k := Sys.holds_close hki
      have hbusy := hv.busy_stable s.db i _ _ w r k _ _ q h.global (h.busy i _ hi) hki
        (Sys.holds_disjoint hki) (h.busy k q hq)
      rw [results_of_log_ne (s := s) rfl hki]
      rw [← hheld] at hbusy
      exact hbusy
  | @rollback r hi =>
    refine ⟨h.global, h.closed i, fun k hk => ?_, fun k q hk => ?_⟩
    · by_cases hki : k = i
      · subst hki
        rw [results_of_log (s := s) rfl]
        exact hv.rollback s.db k _ _ r h.global (h.busy k _ hi)
      · rw [results_of_log_ne (s := s) rfl hki]
        simp only [Sys.close, Function.update_of_ne hki] at hk
        exact h.idle k hk
    · obtain ⟨hki, hq⟩ := Sys.sessions_close hk
      have hheld : (s.close i).holds k = s.holds k := Sys.holds_close hki
      have hbusy := h.busy k q hq
      rw [results_of_log_ne (s := s) rfl hki]
      rw [← hheld] at hbusy
      exact hbusy

/-- In every run of a valid flow, what is said of its calls holds. -/
theorem Valid.rule (hv : Valid flow G idle busy) {d : D} (hd : G d) (hidle : ∀ i, idle i [] d) (turns : List ℕ) :
    Holds G idle busy (run (Workflow.turn flow) (Sys.init d) turns) := by
  have hinit : Holds G idle busy (Sys.init d : State D ρ R) :=
    ⟨hd, fun _ _ hx => (by cases hx), fun i _ => hidle i, fun _ _ hp => (by cases hp)⟩
  exact (run_always _ turns).inv (fun _ i _ h => hv.turn h i) hinit

/-! ## Every call finishes -/

/-- the program ends after at most so many statements -/
def Within : Txn D ρ R → ℕ → Prop
  | .stmt _ k, n => ∃ m < n, ∀ d, Within (k d) m
  | _, _ => True

omit [DecidableEq ρ] in
theorem Within.mono {p : Txn D ρ R} {m n : ℕ} (h : Within p m) (hmn : m ≤ n) : Within p n := by
  cases p with
  | stmt rows k =>
    obtain ⟨l, hl, hk⟩ := h
    exact ⟨l, hl.trans_le hmn, hk⟩
  | commit w r => trivial
  | rollback r => trivial

omit [DecidableEq ρ] in
/-- a program within no statement is about to end -/
theorem not_within_zero {rows : D → List ρ} {k : D → Txn D ρ R} : ¬ Within (.stmt rows k) 0 := by
  intro ⟨m, hm, _⟩
  exact absurd hm (Nat.not_lt_zero m)

/-- the statements that are left at most -/
noncomputable def left (p : Txn D ρ R) : ℕ := sInf {n | Within p n}

omit [DecidableEq ρ] in
theorem left_le {p : Txn D ρ R} {n : ℕ} (h : Within p n) : left p ≤ n := Nat.sInf_le h

omit [DecidableEq ρ] in
theorem left_stmt {rows : D → List ρ} {k : D → Txn D ρ R} {n : ℕ} (h : Within (.stmt rows k) n) (d : D) :
    left (k d) < left (.stmt rows k) := by
  obtain ⟨m, hm, hk⟩ := Nat.sInf_mem (⟨n, h⟩ : {n | Within (.stmt rows k) n}.Nonempty)
  exact (left_le (hk d)).trans_lt hm

/-- the calls are `0, …, calls - 1`; each runs at most `stages` transactions, each of at most `size` statements -/
structure Bounded (flow : Flow D ρ R) (calls stages size : ℕ) : Prop where
  within : ∀ i rs p, flow i rs = some p → i < calls ∧ rs.length < stages ∧ Within p size

/-- an open transaction is one of those that the bounds are about -/
def Small (calls stages size : ℕ) (i : ℕ) (rs : List R) (_ : D) (_ : Set ρ) (p : Txn D ρ R) : Prop :=
  i < calls ∧ rs.length < stages ∧ Within p size

omit [DecidableEq ρ] in
theorem Bounded.valid {calls stages size : ℕ} (h : Bounded flow calls stages size) :
    Valid flow (fun _ => True) (fun _ _ _ => True) (Small calls stages size) where
  start _ i rs p _ _ hp := h.within i rs p hp
  stmt d _ _ _ _ _ _ hb := by
    obtain ⟨hi, hrs, m, hm, hk⟩ := hb
    exact ⟨hi, hrs, (hk d).mono hm.le⟩
  commit _ _ _ _ _ _ _ _ := ⟨trivial, trivial⟩
  rollback _ _ _ _ _ _ _ := trivial
  idle_stable _ _ _ _ _ _ _ _ _ _ _ _ := trivial
  busy_stable _ _ _ _ _ _ _ _ _ _ _ _ _ _ hb := hb

/-- what a call still costs, at most -/
noncomputable def cost (stages size : ℕ) (s : State D ρ R) (i : ℕ) : ℕ :=
  match s.sessions i with
  | none => (stages - (results s i).length) * (size + 2)
  | some p => (stages - (results s i).length - 1) * (size + 2) + 1 + left p

variable {calls stages size : ℕ}

omit [DecidableEq ρ] in
/-- the costs of the other calls stay -/
theorem cost_of_ne {s s' : State D ρ R} {j : ℕ} (hsession : s'.sessions j = s.sessions j)
    (hresults : results s' j = results s j) : cost stages size s' j = cost stages size s j := by
  unfold cost
  rw [hsession, hresults]

/-- **A turn** does nothing, if its call has finished or waits, or else lowers the cost of its call and of no other. -/
theorem turn_cost (hb : Bounded flow calls stages size) {s : State D ρ R}
    (hs : Holds (fun _ => True) (fun _ _ _ => True) (Small calls stages size) s) (i : ℕ) :
    (turn flow s i = s ∧ (Finished flow s i ∨ ∃ j, WaitsFor s i j)) ∨ i < calls ∧ cost stages size (turn flow s i) i < cost stages size s i ∧
      ∀ j ≠ i, cost stages size (turn flow s i) j = cost stages size s j := by
  have hc := turn_cases flow s i
  generalize turn flow s i = s' at hc
  -- a transaction of the call that ends
  have hend : ∀ (s' : State D ρ R) (p : Txn D ρ R) (r : R), s.sessions i = some p →
      s'.sessions = Function.update s.sessions i none → s'.log = s.log ++ [(i, r)] →
      i < calls ∧ cost stages size s' i < cost stages size s i ∧
        ∀ j ≠ i, cost stages size s' j = cost stages size s j := by
    intro s' p r hi hsessions hlog
    obtain ⟨hcall, hrs, -⟩ := hs.busy i p hi
    refine ⟨hcall, ?_, fun j hj => ?_⟩
    · unfold cost
      rw [hsessions, Function.update_self, hi, results_of_log hlog, List.length_append, List.length_singleton,
        Nat.sub_add_eq]
      simp only []
      omega
    · exact cost_of_ne (by rw [hsessions, Function.update_of_ne hj]) (results_of_log_ne hlog hj)
  cases hc with
  | finished h => exact .inl ⟨rfl, .inl h⟩
  | waits h => exact .inl ⟨rfl, .inr ⟨_, h⟩⟩
  | @start p hi hp =>
    obtain ⟨hcall, hrs, hsize⟩ := hb.within i _ p hp
    refine .inr ⟨hcall, ?_, fun j hj => cost_of_ne (by simp [Function.update_of_ne hj]) rfl⟩
    have hleft := left_le hsize
    have hmul : (stages - (results s i).length) * (size + 2) =
        (stages - (results s i).length - 1) * (size + 2) + (size + 2) := by
      rw [← Nat.succ_mul]
      congr 1
      omega
    unfold cost
    simp only [Function.update_self, hi]
    rw [hmul]
    have hresults : results { s with sessions := Function.update s.sessions i (some p) } i = results s i := rfl
    rw [hresults]
    omega
  | @stmt rows k hi hfree =>
    obtain ⟨hcall, -, hsize⟩ := hs.busy i _ hi
    refine .inr ⟨hcall, ?_, fun j hj => cost_of_ne (by simp [Sys.lock, Function.update_of_ne hj]) rfl⟩
    have hleft := left_stmt hsize s.db
    have hresults : results (s.lock i (rows s.db) (k s.db)) i = results s i := rfl
    unfold cost
    rw [hresults]
    simp only [Sys.lock, Function.update_self, hi]
    omega
  | commit hi => exact .inr (hend _ _ _ hi rfl rfl)
  | rollback hi => exact .inr (hend _ _ _ hi rfl rfl)

/-- **Every call finishes.** If no call waits for one that waits itself, every fair schedule comes to a state in which all
calls have finished. -/
theorem finish_rule (hb : Bounded flow calls stages size) {d : D}
    (hfree : ∀ turns i j k, let s := run (turn flow) (Sys.init d) turns; WaitsFor s i j → ¬ WaitsFor s j k)
    {turns : ℕ → ℕ} (hfair : Fair (· < calls) turns) :
    ∃ k, ∀ i, Finished flow (run (turn flow) (Sys.init d) (firstOf turns k)) i := by
  let I (s : State D ρ R) : Prop := ∃ turns, s = run (turn flow) (Sys.init d) turns
  let μ (s : State D ρ R) : ℕ := ∑ i ∈ Finset.range calls, cost stages size s i
  have hholds : ∀ s, I s → Holds (fun _ => True) (fun _ _ _ => True) (Small calls stages size) s := by
    intro s ⟨turns, hs⟩
    rw [hs]
    exact hb.valid.rule trivial (fun _ => trivial) turns
  have hlower : ∀ s i, i < calls → cost stages size (turn flow s i) i < cost stages size s i →
      (∀ j ≠ i, cost stages size (turn flow s i) j = cost stages size s j) → μ (turn flow s i) < μ s := by
    intro s i hi hlt hother
    refine Finset.sum_lt_sum (fun j _ => ?_) ⟨i, Finset.mem_range.2 hi, hlt⟩
    by_cases hj : j = i
    · rw [hj]; exact hlt.le
    · exact (hother j hj).le
  let done (s : State D ρ R) : Prop := ∀ i, Finished flow s i
  suffices h : ∃ k, done (run (turn flow) (Sys.init d) (firstOf turns k)) from h
  refine fair_rule (I := I) (μ := μ) ?_ ?_ ?_ hfair ⟨[], rfl⟩
  · intro s i ⟨turns, hs⟩
    exact ⟨turns ++ [i], by rw [run_snoc, hs]⟩
  · intro s i hs
    rcases turn_cost hb (hholds s hs) i with ⟨hsame, -⟩ | ⟨hi, hlt, hother⟩
    · exact .inl hsame
    · exact .inr (hlower s i hi hlt hother)
  · intro s hs hunfinished
    -- a call that has not finished, or the one for which it waits, can go on
    have hgo : ∃ i, ¬ Finished flow s i ∧ ¬ ∃ j, WaitsFor s i j := by
      simp only [done, not_forall] at hunfinished
      obtain ⟨i, hi⟩ := hunfinished
      by_cases hw : ∃ j, WaitsFor s i j
      · obtain ⟨j, hj⟩ := hw
        obtain ⟨turns, hrun⟩ := hs
        refine ⟨j, fun hfinished => ?_, fun ⟨k, hk⟩ => ?_⟩
        · obtain ⟨rows, k, x, -, -, hheld, -⟩ := hj
          exact (hholds s ⟨turns, hrun⟩).open' x j hheld hfinished.1
        · rw [hrun] at hj hk
          exact hfree turns i j k hj hk
      · exact ⟨i, hi, hw⟩
    obtain ⟨i, hi, hw⟩ := hgo
    rcases turn_cost hb (hholds s hs) i with ⟨-, hfinished | hwaits⟩ | ⟨hcall, hlt, hother⟩
    · exact absurd hfinished hi
    · exact absurd hwaits hw
    · exact ⟨i, hcall, hlower s i hcall hlt hother⟩

end AtlasRag.Lib.Workflow
