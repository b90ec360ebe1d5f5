/-
Infinite schedules of interleaved transactions.

A run that goes on forever is a sequence of states and one of operations; a step of a larger system may leave the database
alone (`Follows`). Two kinds of reasoning about such runs are packaged here. A value that a measure bounds is settled from
some moment on. And a session that ends, while the database meets a condition all along, brings about what its program
yields under that condition.

Results:
- `eventually_const`: a value that a measure bounds is settled;
- `exists_settled`: so are finitely many such values, from one moment on;
- `finite_open`: in every state finitely many sessions are open;
- `fresh_rule`: from some moment on, all that commits was begun late;
- `yields_rule`: what a session that ends brings about.
-/
import AtlasRag.Lib.Transaction

namespace AtlasRag.Lib.Schedule

open AtlasRag.Lib AtlasRag.Lib.RowLock AtlasRag.Lib.Transaction

/-! ## What is settled -/

/-- the value is the same from `n` on -/
def Settled {α : Type} (f : ℕ → α) (n : ℕ) : Prop := ∀ k ≥ n, f k = f n

section

variable {α : Type} {f : ℕ → α} {n m : ℕ}

theorem Settled.later (h : Settled f n) (hm : n ≤ m) : Settled f m := fun k hk =>
  (h k (hm.trans hk)).trans (h m hm).symm

/-- **A value that a measure bounds** is settled at some moment: each step leaves it, or lowers its measure. -/
theorem eventually_const (μ : α → ℕ) (h : ∀ k ≥ n, f (k + 1) = f k ∨ μ (f (k + 1)) < μ (f k)) :
    ∃ m ≥ n, Settled f m := by
  classical
  have hex : ∃ b, ∃ m ≥ n, μ (f m) = b := ⟨_, n, le_rfl, rfl⟩
  -- where the measure is least, no step can lower it
  obtain ⟨m, hm, hb⟩ := Nat.find_spec hex
  have hmin : ∀ k ≥ n, μ (f m) ≤ μ (f k) := fun k hk => hb ▸ Nat.find_min' hex ⟨k, hk, rfl⟩
  refine ⟨m, hm, fun k hk => ?_⟩
  induction k, hk using Nat.le_induction with
  | base => rfl
  | succ k hk ih =>
    have hle := hmin (k + 1) (by omega)
    rcases h k (hm.trans hk) with hsame | hlt
    · exact hsame.trans ih
    · rw [ih] at hlt
      omega

/-- finitely many values are settled from one moment on -/
theorem exists_settled {ι : Type} {f : ι → ℕ → α} {l : List ι} (h : ∀ x ∈ l, ∃ m, Settled (f x) m) (n : ℕ) :
    ∃ m ≥ n, ∀ x ∈ l, Settled (f x) m := by
  induction l with
  | nil => exact ⟨n, le_rfl, fun x hx => absurd hx List.not_mem_nil⟩
  | cons a l ih =>
    obtain ⟨k, hk⟩ := h a List.mem_cons_self
    obtain ⟨m, hm, hl⟩ := ih fun x hx => h x (List.mem_cons_of_mem a hx)
    refine ⟨max k m, le_trans hm (le_max_right k m), fun x hx => ?_⟩
    rcases List.mem_cons.1 hx with rfl | hx
    · exact hk.later (le_max_left k m)
    · exact (hl x hx).later (le_max_right k m)

end

/-! ## Schedules that go on forever -/

/-- the states of a machine under an infinite schedule -/
def trace {σ ο : Type} (step : σ → ο → σ) (s : σ) (f : ℕ → ο) : ℕ → σ
  | 0 => s
  | n + 1 => step (trace step s f n) (f n)

theorem trace_run {σ ο : Type} {step : σ → ο → σ} {ok : σ → ο → Prop} {s : σ} {f : ℕ → ο}
    (h : ∀ n, ok (trace step s f n) (f n)) (n : ℕ) : Run step ok s (trace step s f n) := by
  induction n with
  | zero => exact .refl
  | succ n ih => exact ih.tail (f n) (h n)

variable {D ρ R : Type} [DecidableEq ρ]

/-- the states of the sessions follow the operations; `none` leaves them alone -/
def Follows (s : ℕ → Sys D (Txn D ρ R) ρ R) (o : ℕ → Option (Op (Txn D ρ R))) : Prop :=
  ∀ n, s (n + 1) = (o n).elim (s n) (step next (s n))

variable {s : ℕ → Sys D (Txn D ρ R) ρ R} {o : ℕ → Option (Op (Txn D ρ R))} {i n m : ℕ} {p : Txn D ρ R}

/-- what a step makes of an open session -/
theorem Follows.session (h : Follows s o) (hp : (s (n + 1)).sessions i = some p) :
    (s n).sessions i = some p ∨ o n = some (.start i p) ∨
      ∃ rows k, (s n).sessions i = some (.stmt rows k) ∧ p = k (s n).db := by
  rw [h n] at hp
  cases hop : o n with
  | none =>
    rw [hop] at hp
    exact .inl hp
  | some op =>
    rw [hop, Option.elim_some] at hp
    have hc := step_cases next (s n) op
    generalize step next (s n) op = s' at hc hp
    cases hc with
    | same => exact .inl hp
    | @start j q hj =>
      simp only [Function.update_apply] at hp
      split_ifs at hp with hij
      · subst hij
        rw [Option.some.inj hp]
        exact .inr (.inl rfl)
      · exact .inl hp
    | @stmt j q q' rows hj hn =>
      simp only [Sys.lock, Function.update_apply] at hp
      split_ifs at hp with hij
      · subst hij
        obtain rfl := Option.some.inj hp
        cases q with
        | stmt rows₀ k₀ =>
          cases hn
          exact .inr (.inr ⟨rows₀, k₀, hj, rfl⟩)
        | commit => cases hn
        | rollback => cases hn
      · exact .inl hp
    | commit => exact .inl (Sys.sessions_close hp).2
    | rollback => exact .inl (Sys.sessions_close hp).2
    | abort => exact .inl (Sys.sessions_close hp).2

/-- In every state finitely many sessions are open. -/
theorem finite_open (h : Follows s o) (h0 : ∀ i, (s 0).sessions i = none) (n : ℕ) :
    {i | (s n).sessions i ≠ none}.Finite := by
  induction n with
  | zero => simp [h0]
  | succ n ih =>
    have hnew : {i | ∃ p, o n = some (.start i p)}.Finite := by
      refine Set.Subsingleton.finite fun i hi j hj => ?_
      obtain ⟨p, hp⟩ := hi
      obtain ⟨q, hq⟩ := hj
      rw [hp] at hq
      cases hq
      rfl
    refine (ih.union hnew).subset fun i hi => ?_
    obtain ⟨p, hp⟩ := Option.ne_none_iff_exists'.1 hi
    rcases h.session hp with hold | hstart | ⟨rows, k, hold, -⟩
    · exact .inl (by simp [hold])
    · exact .inr ⟨p, hstart⟩
    · exact .inl (by simp [hold])

/-- the result with which the step commits -/
def committed (s : Sys D (Txn D ρ R) ρ R) (o : Option (Op (Txn D ρ R))) : Option ((D → D) × R) := o.bind (committing s)

/-- the result with which the step ends the session `i` -/
def endsWith (s : Sys D (Txn D ρ R) ρ R) (o : Option (Op (Txn D ρ R))) (i : ℕ) (r : R) : Prop :=
  o = some (.exec i) ∧ ending s (.exec i) = some r

/-- a session that is not open, and then runs programs of one kind -/
theorem ends_from {C B : R → Prop} (h : Follows s o) (hnone : (s m).sessions i = none)
    (hstart : ∀ k ≥ m, ∀ q, o k = some (.start i q) → q.Ends C B) (hn : m ≤ n) (hp : (s n).sessions i = some p) :
    p.Ends C B := by
  induction n, hn using Nat.le_induction generalizing p with
  | base => rw [hnone] at hp; cases hp
  | succ n hn ih =>
    rcases h.session hp with hold | hnew | ⟨rows, k, hold, rfl⟩
    · exact ih hold
    · exact hstart n hn p hnew
    · exact ih hold (s n).db

/-- **What commits from some moment on** was begun late: it has what the programs begun from `m` on have. -/
theorem fresh_rule {C B : R → Prop} (h : Follows s o) (h0 : ∀ i, (s 0).sessions i = none) {m : ℕ}
    (hstart : ∀ k ≥ m, ∀ i q, o k = some (.start i q) → q.Ends C B) :
    ∃ N ≥ m, ∀ n ≥ N, ∀ w r, committed (s n) (o n) = some (w, r) → C r := by
  -- a session that is open at `m` is closed at some moment, or stays open and never commits
  have hclosed : ∀ i, ∃ N ≥ m, (∃ k, m ≤ k ∧ k ≤ N ∧ (s k).sessions i = none) ∨ ∀ k ≥ m, (s k).sessions i ≠ none := by
    intro i
    by_cases hi : ∃ k ≥ m, (s k).sessions i = none
    · obtain ⟨k, hk, hnone⟩ := hi
      exact ⟨k, hk, .inl ⟨k, hk, le_rfl, hnone⟩⟩
    · exact ⟨m, le_rfl, .inr fun k hk hnone => hi ⟨k, hk, hnone⟩⟩
  choose N hN hcase using hclosed
  have hfin := finite_open h h0 m
  refine ⟨max m (hfin.toFinset.sup N), le_max_left _ _, fun n hn w r hc => ?_⟩
  obtain ⟨op, hop, hc⟩ := Option.bind_eq_some_iff.1 hc
  obtain ⟨i, rfl, hi⟩ := committing_some hc
  have hmn : m ≤ n := (le_max_left _ _).trans hn
  have hends : ∃ k ≥ m, k ≤ n ∧ (s k).sessions i = none := by
    by_cases hopen : (s m).sessions i = none
    · exact ⟨m, le_rfl, hmn, hopen⟩
    · rcases hcase i with ⟨k, hk, hkN, hnone⟩ | hforever
      · have hle : N i ≤ hfin.toFinset.sup N := Finset.le_sup (hfin.mem_toFinset.2 hopen)
        exact ⟨k, hk, by omega, hnone⟩
      · -- the commit closes the session
        refine absurd ?_ (hforever (n + 1) (by omega))
        rw [h n, hop, Option.elim_some]
        simp [step, hi, next, Sys.close]
  obtain ⟨k, hk, hkn, hnone⟩ := hends
  exact ends_from h hnone (fun j hj q hq => hstart j (hk.trans hj) i q hq) hkn hi

/-! ## What a session brings about -/

/-- while the database meets `P`, the program does not end with a result of `A` but by a commit that leads to `Q` -/
def Yields (P : D → Prop) (A : R → Prop) (Q : D → Prop) : Txn D ρ R → Prop
  | .stmt _ k => ∀ d, P d → Yields P A Q (k d)
  | .commit w r => A r → ∀ d, P d → Q (w d)
  | .rollback r => ¬ A r

/-- the session `i` begins `p` at `m`, and is open until it ends with `r` at `n` -/
structure Session (s : ℕ → Sys D (Txn D ρ R) ρ R) (o : ℕ → Option (Op (Txn D ρ R))) (i m n : ℕ) (p : Txn D ρ R) (r : R) :
    Prop where
  start : o m = some (.start i p)
  lt : m < n
  opens : (s m).sessions i = none
  isOpen : ∀ k, m < k → k ≤ n → (s k).sessions i ≠ none
  ends : endsWith (s n) (o n) i r

/-- **What a session that ends brings about**, if the database meets `P` from its first moment to its last. -/
theorem yields_rule {P : D → Prop} {A : R → Prop} {Q : D → Prop} {r : R} (h : Follows s o)
    (hsession : Session s o i m n p r) (hp : Yields P A Q p) (hP : ∀ k, m ≤ k → k ≤ n → P (s k).db) (hA : A r) :
    Q (s (n + 1)).db := by
  have hinv : ∀ k, m < k → k ≤ n → ∀ q, (s k).sessions i = some q → Yields P A Q q := by
    intro k hk
    induction k, hk using Nat.le_induction with
    | base =>
      intro _ q hq
      rcases h.session hq with hold | hnew | ⟨rows, k, hold, -⟩
      · rw [hsession.opens] at hold; cases hold
      · rw [hsession.start] at hnew
        cases hnew
        exact hp
      · rw [hsession.opens] at hold; cases hold
    | succ k hk ih =>
      intro hkn q hq
      rcases h.session hq with hold | hnew | ⟨rows, c, hold, rfl⟩
      · exact ih (by omega) q hold
      · -- no program begins in an open session
        have hopen := hsession.isOpen k (by omega) (by omega)
        obtain ⟨q', hq'⟩ := Option.ne_none_iff_exists'.1 hopen
        have hsame : (s (k + 1)).sessions i = (s k).sessions i := by
          rw [h k, hnew, Option.elim_some]
          simp [step, hq']
        exact ih (by omega) q (hsame ▸ hq)
      · exact ih (by omega) _ hold (s k).db (hP k (by omega) (by omega))
  obtain ⟨hexec, hend⟩ := hsession.ends
  have hnow := hinv n hsession.lt le_rfl
  rw [h n, hexec, Option.elim_some]
  simp only [ending] at hend
  split at hend
  · next w r' hi =>
    obtain rfl := Option.some.inj hend
    simp only [step, hi, next]
    exact hnow _ hi hA _ (hP n hsession.lt.le le_rfl)
  · next r' hi =>
    obtain rfl := Option.some.inj hend
    exact absurd hA (hnow _ hi)
  · cases hend

end AtlasRag.Lib.Schedule
