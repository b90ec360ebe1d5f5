/-
Interleaved database transactions under READ COMMITTED with row locks.

A session runs one transaction, a program with states `P`. Its next action is computed from the committed database, so
every statement sees what is committed when it runs, and from its own state, which carries what it has read and what it
will write. A statement first locks the rows (or unique keys) it needs; while another session holds one of them it does
not run. Locks are kept to the end of the transaction. What a session writes becomes visible at its commit, at once; a
rollback or an abort (a crash, a cancellation, a lost connection) leaves the database as it was.

Results:
- `step_cases`: what one step can do;
- `Sys.inv_rule`: an invariant of the committed database, and one assertion for each session over the rows it holds,
  hold in every reachable state if every action of a session keeps its own assertion and every commit keeps the
  assertions of the sessions that hold other rows;
- `Serial.effect`: if every transaction locks one common row first, a commit has the effect of the whole transaction run
  alone at that moment.
-/
import AtlasRag.Lib.Run

namespace AtlasRag.Lib.RowLock

/-- what a session does next: a statement that needs some rows, or the end of the transaction with its result -/
inductive Act (D P ρ R : Type) where
  | stmt (rows : List ρ) (p : P)
  | commit (d : D) (r : R)
  | rollback (r : R)

structure Sys (D P ρ R : Type) where
  db : D
  sessions : ℕ → Option P
  /-- the session that holds the lock of a row -/
  held : ρ → Option ℕ
  /-- the sessions that ended, with their results -/
  log : List (ℕ × R)

inductive Op (P : Type) where
  | start (i : ℕ) (p : P)
  | exec (i : ℕ)
  | abort (i : ℕ)
deriving Repr

variable {D P ρ R : Type} [DecidableEq ρ] (next : D → P → Act D P ρ R)

namespace Sys

/-- no session is open -/
def init (d : D) : Sys D P ρ R := ⟨d, fun _ => none, fun _ => none, []⟩

def holds (s : Sys D P ρ R) (i : ℕ) : Set ρ := fun x => s.held x = some i

/-- the session ends: its locks are free -/
def close (s : Sys D P ρ R) (i : ℕ) : Sys D P ρ R :=
  { s with sessions := Function.update s.sessions i none,
           held := fun x => if s.held x = some i then none else s.held x }

def lock (s : Sys D P ρ R) (i : ℕ) (rows : List ρ) (p : P) : Sys D P ρ R :=
  { s with sessions := Function.update s.sessions i (some p),
           held := fun x => if x ∈ rows then some i else s.held x }

end Sys

def step (s : Sys D P ρ R) : Op P → Sys D P ρ R
  | .start i p =>
    match s.sessions i with
    | some _ => s
    | none => { s with sessions := Function.update s.sessions i (some p) }
  | .exec i =>
    match s.sessions i with
    | none => s
    | some p =>
      match next s.db p with
      | .stmt rows p' => if ∀ x ∈ rows, s.held x = none ∨ s.held x = some i then s.lock i rows p' else s
      | .commit d r => { s.close i with db := d, log := s.log ++ [(i, r)] }
      | .rollback r => { s.close i with log := s.log ++ [(i, r)] }
  | .abort i => s.close i

/-! ## What a step can do -/

inductive StepCase (s : Sys D P ρ R) : Op P → Sys D P ρ R → Prop where
  | same (o : Op P) : StepCase s o s
  | start {i : ℕ} {p : P} (hi : s.sessions i = none) :
      StepCase s (.start i p) { s with sessions := Function.update s.sessions i (some p) }
  | stmt {i : ℕ} {p p' : P} {rows : List ρ} (hi : s.sessions i = some p) (hn : next s.db p = .stmt rows p')
      (hfree : ∀ x ∈ rows, s.held x = none ∨ s.held x = some i) : StepCase s (.exec i) (s.lock i rows p')
  | commit {i : ℕ} {p : P} {d : D} {r : R} (hi : s.sessions i = some p) (hn : next s.db p = .commit d r) :
      StepCase s (.exec i) { s.close i with db := d, log := s.log ++ [(i, r)] }
  | rollback {i : ℕ} {p : P} {r : R} (hi : s.sessions i = some p) (hn : next s.db p = .rollback r) :
      StepCase s (.exec i) { s.close i with log := s.log ++ [(i, r)] }
  | abort (i : ℕ) : StepCase s (.abort i) (s.close i)

theorem step_cases (s : Sys D P ρ R) (o : Op P) : StepCase next s o (step next s o) := by
  cases o with
  | start i p =>
    simp only [step]
    split
    · exact .same _
    · next hi => exact .start hi
  | exec i =>
    simp only [step]
    split
    · exact .same _
    · next p hi =>
      split
      · next hn =>
        split_ifs with hfree
        · exact .stmt hi hn hfree
        · exact .same _
      · next hn => exact .commit hi hn
      · next hn => exact .rollback hi hn
  | abort i => exact .abort i

/-! ## The rule for interleaved sessions -/

variable {next}

omit [DecidableEq ρ] in
theorem Sys.sessions_close {s : Sys D P ρ R} {i k : ℕ} {p : P} (h : (s.close i).sessions k = some p) :
    k ≠ i ∧ s.sessions k = some p := by
  simp only [Sys.close, Function.update_apply] at h
  split_ifs at h with hk
  exact ⟨hk, h⟩

omit [DecidableEq ρ] in
theorem Sys.holds_close {s : Sys D P ρ R} {i k : ℕ} (hk : k ≠ i) : (s.close i).holds k = s.holds k := by
  funext x
  simp only [Sys.holds, Sys.close, eq_iff_iff]
  split_ifs with hx
  · rw [hx]; simp [hk.symm]
  · rfl

theorem Sys.holds_lock {s : Sys D P ρ R} {i : ℕ} {rows : List ρ} {p : P} :
    (s.lock i rows p).holds i = fun x => x ∈ rows ∨ s.holds i x := by
  funext x
  simp only [Sys.holds, Sys.lock, eq_iff_iff]
  split_ifs with hx <;> simp [hx]

theorem Sys.holds_lock_other {s : Sys D P ρ R} {i k : ℕ} {rows : List ρ} {p : P} (hk : k ≠ i)
    (hfree : ∀ x ∈ rows, s.held x = none ∨ s.held x = some i) : (s.lock i rows p).holds k = s.holds k := by
  funext x
  simp only [Sys.holds, Sys.lock, eq_iff_iff]
  split_ifs with hx
  · have hi : some i ≠ some k := fun h => hk (Option.some.inj h).symm
    rcases hfree x hx with h | h
    · rw [h]; simp [hi]
    · rw [h]
  · rfl

omit [DecidableEq ρ] in
theorem Sys.holds_disjoint {s : Sys D P ρ R} {i k : ℕ} (hk : k ≠ i) : Disjoint (s.holds i) (s.holds k) := by
  rw [Set.disjoint_left]
  intro x hi hk'
  have h : some i = some k := hi.symm.trans hk'
  exact hk (Option.some.inj h).symm

/-- the global invariant, and the assertion of every open session over the rows it holds -/
structure Sys.Inv (G : D → List (ℕ × R) → Prop) (Q : D → Set ρ → P → Prop) (s : Sys D P ρ R) : Prop where
  global : G s.db s.log
  /-- a lock is held by an open session -/
  open' : ∀ x i, s.held x = some i → s.sessions i ≠ none
  session : ∀ i p, s.sessions i = some p → Q s.db (s.holds i) p

/-- what is to be shown of a program, under the admissibility condition `ok`:
- a session starts with its assertion, holding nothing;
- a statement leads to the assertion of its next state, over the rows held and locked;
- a commit keeps the global invariant, and every assertion that holds with rows disjoint from the committer's;
- a rollback keeps the global invariant (the log grows). -/
structure Obligations (next : D → P → Act D P ρ R) (ok : Sys D P ρ R → Op P → Prop)
    (G : D → List (ℕ × R) → Prop) (Q : D → Set ρ → P → Prop) : Prop where
  start : ∀ s i p, ok s (.start i p) → Sys.Inv G Q s → Q s.db (fun _ => False) p
  stmt : ∀ s i p rows p', ok s (.exec i) → s.sessions i = some p → Sys.Inv G Q s → next s.db p = .stmt rows p' →
    Q s.db (fun x => x ∈ rows ∨ s.holds i x) p'
  commit : ∀ s i p d r, ok s (.exec i) → s.sessions i = some p → Sys.Inv G Q s → next s.db p = .commit d r →
    G d (s.log ++ [(i, r)]) ∧
      ∀ k p', k ≠ i → s.sessions k = some p' → Disjoint (s.holds i) (s.holds k) → Q s.db (s.holds k) p' →
        Q d (s.holds k) p'
  rollback : ∀ s i p r, s.sessions i = some p → Sys.Inv G Q s → next s.db p = .rollback r → G s.db (s.log ++ [(i, r)])

variable {ok : Sys D P ρ R → Op P → Prop} {G : D → List (ℕ × R) → Prop} {Q : D → Set ρ → P → Prop}

omit [DecidableEq ρ] in
theorem Sys.Inv.close {s : Sys D P ρ R} (h : Sys.Inv G Q s) (i : ℕ) : Sys.Inv G Q (s.close i) := by
  refine ⟨h.global, fun x k hx => ?_, fun k p hk => ?_⟩
  · simp only [Sys.close] at hx
    split_ifs at hx with hxi
    have hki : k ≠ i := fun he => hxi (he ▸ hx)
    simp only [Sys.close, Function.update_of_ne hki]
    exact h.open' x k hx
  · obtain ⟨hne, hp⟩ := Sys.sessions_close hk
    rw [Sys.holds_close hne]
    exact h.session k p hp

/-- A step of sessions that meet their obligations keeps the invariant. -/
theorem Sys.step_inv (ho : Obligations next ok G Q) {s : Sys D P ρ R} (o : Op P) (hok : ok s o)
    (h : Sys.Inv G Q s) : Sys.Inv G Q (step next s o) := by
  have hc := step_cases next s o
  generalize step next s o = s' at hc
  cases hc with
  | same => exact h
  | @start i p hi =>
    refine ⟨h.global, fun x k hx => ?_, fun k q hk => ?_⟩
    · by_cases hki : k = i
      · rw [hki]; simp
      · simp only [Function.update_of_ne hki]; exact h.open' x k hx
    · simp only [Function.update_apply] at hk
      split_ifs at hk with hki
      · obtain rfl : p = q := Option.some.inj hk
        have hnone : s.holds i = fun _ => False := by
          funext x
          exact eq_false fun hx => h.open' x i hx hi
        have hq : Q s.db (s.holds k) p := by
          rw [hki, hnone]; exact ho.start s i p hok h
        exact hq
      · exact h.session k q hk
  | @stmt i p p' rows hi hn hfree =>
    refine ⟨h.global, fun x k hx => ?_, fun k q hk => ?_⟩
    · by_cases hki : k = i
      · rw [hki]; simp [Sys.lock]
      · simp only [Sys.lock] at hx ⊢
        rw [Function.update_of_ne hki]
        split_ifs at hx
        · exact absurd (Option.some.inj hx).symm hki
        · exact h.open' x k hx
    · simp only [Sys.lock, Function.update_apply] at hk
      split_ifs at hk with hki
      · obtain rfl : p' = q := Option.some.inj hk
        subst hki
        have hq := ho.stmt s k p rows p' hok hi h hn
        rw [Sys.holds_lock]
        exact hq
      · rw [Sys.holds_lock_other hki hfree]
        exact h.session k q hk
  | @commit i p d r hi hn =>
    obtain ⟨hg, hothers⟩ := ho.commit s i p d r hok hi h hn
    have hclosed := h.close i
    refine ⟨hg, hclosed.open', fun k q hk => ?_⟩
    obtain ⟨hne, hq⟩ := Sys.sessions_close hk
    have hheld : (s.close i).holds k = s.holds k := Sys.holds_close hne
    have hq' := hothers k q hne hq (Sys.holds_disjoint hne) (h.session k q hq)
    rw [← hheld] at hq'
    exact hq'
  | @rollback i p r hi hn =>
    have hclosed := h.close i
    exact ⟨ho.rollback s i p r hi h hn, hclosed.open', hclosed.session⟩
  | abort i => exact h.close i

/-- In every run of sessions that meet their obligations, the invariant holds. -/
theorem Sys.inv_rule (ho : Obligations next ok G Q) {d : D} (hd : G d []) {s : Sys D P ρ R}
    (hs : Run (step next) ok (Sys.init d) s) : Sys.Inv G Q s := by
  refine hs.inv (fun _ o hok h => Sys.step_inv ho o hok h) ⟨hd, fun x i hx => ?_, fun i p hp => ?_⟩
  · cases hx
  · cases hp

/-! ## Transactions that lock one common row first -/

/-- the transaction run with nothing in between, for at most so many actions: the database and result it ends with -/
def alone (next : D → P → Act D P ρ R) : ℕ → D → P → Option (D × R)
  | 0, _, _ => none
  | n + 1, d, p =>
    match next d p with
    | .stmt _ p' => alone next n d p'
    | .commit d' r => some (d', r)
    | .rollback r => some (d, r)

/-- every transaction locks the row `x` with its first statement and commits only after a statement; `origin p` is the
first state of the transaction that is now in `p`, and `rank p` bounds the actions left -/
structure Serial (next : D → P → Act D P ρ R) (ok : Sys D P ρ R → Op P → Prop) (x : ρ) (origin : P → P)
    (rank : P → ℕ) : Prop where
  start : ∀ s i p, ok s (.start i p) → origin p = p
  stmt : ∀ d p rows p', next d p = .stmt rows p' →
    origin p' = origin p ∧ rank p = rank p' + 1 ∧ (origin p = p → x ∈ rows)
  commit : ∀ d p d' r, next d p = .commit d' r → origin p ≠ p ∧ 0 < rank p

/-- the assertion of a session: it has not begun, or holds `x` and goes on as if it had run alone -/
def Serial.Assertion (next : D → P → Act D P ρ R) (x : ρ) (origin : P → P) (rank : P → ℕ) (d : D) (L : Set ρ) (p : P) :
    Prop :=
  origin p = p ∨ (L x ∧ alone next (rank p) d p = alone next (rank (origin p)) d (origin p))

variable {x : ρ} {origin : P → P} {rank : P → ℕ}

omit [DecidableEq ρ] in
theorem Serial.obligations (h : Serial next ok x origin rank) :
    Obligations next ok (fun _ _ => True) (Serial.Assertion next x origin rank) where
  start s i p hok _ := .inl (h.start s i p hok)
  stmt s i p rows p' _ hi hinv hn := by
    obtain ⟨horigin, hrank, hx⟩ := h.stmt s.db p rows p' hn
    have hunfold : alone next (rank p) s.db p = alone next (rank p') s.db p' := by
      rw [hrank]; simp only [alone, hn]
    rcases hinv.session i p hi with hp | ⟨hheld, halone⟩
    · exact .inr ⟨.inl (hx hp), by rw [horigin, hp, hunfold]⟩
    · exact .inr ⟨.inr hheld, by rw [horigin, ← hunfold, halone]⟩
  commit s i p d r _ hi hinv hn := by
    refine ⟨trivial, fun k p' _ hk hdisj hq => ?_⟩
    rcases hinv.session i p hi with hp | ⟨hheld, -⟩
    · exact absurd hp (h.commit s.db p d r hn).1
    · rcases hq with hq | ⟨hheld', -⟩
      · exact .inl hq
      · exact absurd hheld' (Set.disjoint_left.1 hdisj hheld)
  rollback _ _ _ _ _ _ _ := trivial

/-- what a step of the interleaved system does to the committed database and the log -/
inductive Effect (next : D → P → Act D P ρ R) (origin : P → P) (rank : P → ℕ) (s : Sys D P ρ R) :
    D → List (ℕ × R) → Prop where
  | quiet : Effect next origin rank s s.db s.log
  | rollback {i : ℕ} {p : P} {r : R} (hi : s.sessions i = some p) (hn : next s.db p = .rollback r) :
      Effect next origin rank s s.db (s.log ++ [(i, r)])
  | commit {i : ℕ} {p : P} {d : D} {r : R} (hi : s.sessions i = some p) (hn : next s.db p = .commit d r)
      (halone : alone next (rank (origin p)) s.db (origin p) = some (d, r)) :
      Effect next origin rank s d (s.log ++ [(i, r)])

/-- **Serializability.** A transaction that commits has the effect it would have had, run alone at that moment. -/
theorem Serial.effect (h : Serial next ok x origin rank) {d : D} {s : Sys D P ρ R}
    (hs : Run (step next) ok (Sys.init d) s) (o : Op P) :
    Effect next origin rank s (step next s o).db (step next s o).log := by
  have hinv := Sys.inv_rule h.obligations trivial hs
  have hc := step_cases next s o
  generalize step next s o = s' at hc
  cases hc with
  | @commit i p d' r hi hn =>
    refine .commit hi hn ?_
    obtain ⟨hbegun, hpos⟩ := h.commit s.db p d' r hn
    rcases hinv.session i p hi with hp | ⟨-, halone⟩
    · exact absurd hp hbegun
    · rw [← halone]
      obtain ⟨k, hk⟩ := Nat.exists_eq_add_of_lt hpos
      rw [hk, Nat.zero_add]
      simp only [alone, hn]
  | rollback hi hn => exact .rollback hi hn
  | _ => exact .quiet

end AtlasRag.Lib.RowLock
