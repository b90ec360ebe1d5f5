/-
Interleaved transactions whose locks have modes.

`Lib.RowLock` knows one kind of lock. Here a lock is a row, a key or a range together with a mode, and `conflict` says
which locks of different sessions exclude each other; several sessions can hold locks of one row. The programs are those
of `Lib.Transaction`: a statement waits while another session holds a lock that conflicts with one that it needs, a commit
makes the writes visible at once, and a rollback or an abort leaves the database as it was.

Reasoning is by interference again. `clash` says on which locks a session may rely: while it holds `L`, others commit only
under locks that clash with none of `L`. Locks that conflict may be taken to clash in every run (`compatible_step`); a
condition on the schedule can make more of them clash (`Obligations.apart`).

Results:
- `step_db`: only a commit changes the database;
- `safe_rule`: in a run of safe programs the invariant holds and every commit follows the guarantee;
- `chain_rule`: a schedule makes one guaranteed commit for each result of its history;
- `safe_zoom`: a program that is safe under `Lib.RowLock` is safe as a program on a component of a larger database.
-/
import AtlasRag.Lib.History

namespace AtlasRag.Lib.LockMode

open AtlasRag.Lib
open AtlasRag.Lib.RowLock (Op)
open AtlasRag.Lib.Transaction (Txn Interference Chain)

variable {D ρ R : Type}

/-! ## The system -/

structure Sys (D ρ R : Type) where
  db : D
  sessions : ℕ → Option (Txn D ρ R)
  /-- the locks held, each with its session -/
  held : List (ℕ × ρ)
  /-- the sessions that ended, with their results -/
  log : List (ℕ × R)

namespace Sys

/-- no session is open -/
def init (d : D) : Sys D ρ R := ⟨d, fun _ => none, [], []⟩

def holds (s : Sys D ρ R) (i : ℕ) : Set ρ := fun x => (i, x) ∈ s.held

/-- the session ends: its locks are free -/
def close (s : Sys D ρ R) (i : ℕ) : Sys D ρ R :=
  { s with sessions := Function.update s.sessions i none, held := s.held.filter (·.1 ≠ i) }

def lock (s : Sys D ρ R) (i : ℕ) (rows : List ρ) (p : Txn D ρ R) : Sys D ρ R :=
  { s with sessions := Function.update s.sessions i (some p), held := s.held ++ rows.map (i, ·) }

end Sys

variable (conflict : ρ → ρ → Prop)

/-- no other session holds a lock that conflicts with one of `rows` -/
def Free (s : Sys D ρ R) (i : ℕ) (rows : List ρ) : Prop := ∀ x ∈ rows, ∀ h ∈ s.held, h.1 ≠ i → ¬ conflict x h.2

variable [DecidableRel conflict]

instance (s : Sys D ρ R) (i : ℕ) (rows : List ρ) : Decidable (Free conflict s i rows) :=
  inferInstanceAs (Decidable (∀ x ∈ rows, ∀ h ∈ s.held, h.1 ≠ i → ¬ conflict x h.2))

def step (s : Sys D ρ R) : Op (Txn D ρ R) → Sys D ρ R
  | .start i p =>
    match s.sessions i with
    | some _ => s
    | none => { s with sessions := Function.update s.sessions i (some p) }
  | .exec i =>
    match s.sessions i with
    | none => s
    | some (.stmt rows k) => if Free conflict s i (rows s.db) then s.lock i (rows s.db) (k s.db) else s
    | some (.commit w r) => { s.close i with db := w s.db, log := s.log ++ [(i, r)] }
    | some (.rollback r) => { s.close i with log := s.log ++ [(i, r)] }
  | .abort i => s.close i

/-! ## What a step can do -/

inductive StepCase (s : Sys D ρ R) : Op (Txn D ρ R) → Sys D ρ R → Prop where
  | same (o : Op (Txn D ρ R)) : StepCase s o s
  | start {i : ℕ} {p : Txn D ρ R} (hi : s.sessions i = none) :
      StepCase s (.start i p) { s with sessions := Function.update s.sessions i (some p) }
  | stmt {i : ℕ} {rows : D → List ρ} {k : D → Txn D ρ R} (hi : s.sessions i = some (.stmt rows k))
      (hfree : Free conflict s i (rows s.db)) : StepCase s (.exec i) (s.lock i (rows s.db) (k s.db))
  | commit {i : ℕ} {w : D → D} {r : R} (hi : s.sessions i = some (.commit w r)) :
      StepCase s (.exec i) { s.close i with db := w s.db, log := s.log ++ [(i, r)] }
  | rollback {i : ℕ} {r : R} (hi : s.sessions i = some (.rollback r)) :
      StepCase s (.exec i) { s.close i with log := s.log ++ [(i, r)] }
  | abort (i : ℕ) : StepCase s (.abort i) (s.close i)

theorem step_cases (s : Sys D ρ R) (o : Op (Txn D ρ R)) : StepCase conflict s o (step conflict s o) := by
  cases o with
  | start i p =>
    simp only [step]
    split
    · exact .same _
    · next hi => exact .start hi
  | exec i =>
    simp only [step]
    split
    · exact .same _
    · next rows k hi =>
      split_ifs with hfree
      · exact .stmt hi hfree
      · exact .same _
    · next hi => exact .commit hi
    · next hi => exact .rollback hi
  | abort i => exact .abort i

namespace Sys

variable {s : Sys D ρ R} {i k : ℕ} {p q : Txn D ρ R} {rows : List ρ} {x : ρ}

theorem sessions_close (h : (s.close i).sessions k = some p) : k ≠ i ∧ s.sessions k = some p := by
  simp only [close, Function.update_apply] at h
  split_ifs at h with hk
  exact ⟨hk, h⟩

theorem holds_close : (s.close i).holds k x ↔ s.holds k x ∧ k ≠ i := by
  simp [holds, close]

theorem holds_lock : (s.lock i rows p).holds k x ↔ s.holds k x ∨ (k = i ∧ x ∈ rows) := by
  simp only [holds, lock, List.mem_append, List.mem_map, Prod.mk.injEq]
  refine or_congr_right ⟨?_, ?_⟩
  · rintro ⟨y, hy, rfl, rfl⟩; exact ⟨rfl, hy⟩
  · rintro ⟨rfl, hx⟩; exact ⟨_, hx, rfl, rfl⟩

theorem sessions_lock (h : (s.lock i rows p).sessions k = some q) : (k = i ∧ q = p) ∨ (k ≠ i ∧ s.sessions k = some q) := by
  simp only [lock, Function.update_apply] at h
  split_ifs at h with hk
  · exact .inl ⟨hk, (Option.some.inj h).symm⟩
  · exact .inr ⟨hk, h⟩

end Sys

/-! ## Locks that conflict are not held together -/

variable {conflict} {ok : Sys D ρ R → Op (Txn D ρ R) → Prop}

/-- no lock of one session conflicts with a lock of another -/
def Compatible (conflict : ρ → ρ → Prop) (s : Sys D ρ R) : Prop :=
  ∀ i k, i ≠ k → ∀ x y, s.holds i x → s.holds k y → ¬ conflict x y

theorem compatible_step (hsymm : ∀ x y, conflict x y → conflict y x) {s : Sys D ρ R} (o : Op (Txn D ρ R))
    (h : Compatible conflict s) : Compatible conflict (step conflict s o) := by
  have hc := step_cases conflict s o
  generalize step conflict s o = s' at hc
  have hclose : ∀ i, Compatible conflict (s.close i) := fun i a b hab x y hx hy =>
    h a b hab x y (Sys.holds_close.1 hx).1 (Sys.holds_close.1 hy).1
  cases hc with
  | same => exact h
  | start => exact h
  | @stmt i rows k hi hfree =>
    intro a b hab x y hx hy
    rcases Sys.holds_lock.1 hx with hax | ⟨rfl, hxr⟩
    · rcases Sys.holds_lock.1 hy with hby | ⟨rfl, hyr⟩
      · exact h a b hab x y hax hby
      · exact fun hxy => hfree y hyr _ hax hab (hsymm _ _ hxy)
    · rcases Sys.holds_lock.1 hy with hby | ⟨rfl, -⟩
      · exact hfree x hxr _ hby hab.symm
      · exact absurd rfl hab
  | commit => exact hclose _
  | rollback => exact hclose _
  | abort i => exact hclose i

/-! ## Safe programs -/

/-- the locks that a session which holds `L` excludes -/
def Blocked (clash : ρ → ρ → Prop) (L : Set ρ) : Set ρ := fun x => ∃ y, L y ∧ clash x y

theorem blocked_mono {clash : ρ → ρ → Prop} {L L' : Set ρ} (h : L ≤ L') : Blocked clash L ≤ Blocked clash L' :=
  fun _ ⟨y, hy, hxy⟩ => ⟨y, h hy, hxy⟩

section Safety

variable (clash : ρ → ρ → Prop) (G : D → Prop) (guarantee : R → Set ρ → D → D → Prop)

/-- what other sessions may do while this one holds the locks `L` -/
abbrev Meanwhile (L : Set ρ) : D → D → Prop := Interference G guarantee (Blocked clash L)

/-- the weakest condition under which the program, holding `L`, ends well under any interference -/
def Safe : Txn D ρ R → Set ρ → D → Prop
  | .stmt rows k, L, d => ∀ d', Meanwhile clash G guarantee L d d' → G d' →
      Safe (k d') (fun x => x ∈ rows d' ∨ L x) d'
  | .commit w r, L, d => ∀ d', Meanwhile clash G guarantee L d d' → G d' → G (w d') ∧ guarantee r L d' (w d')
  | .rollback _, _, _ => True

variable {clash G guarantee} {L L' L'' : Set ρ} {d d' d'' : D}

theorem Safe.interfere {p : Txn D ρ R} (h : Safe clash G guarantee p L d) (hd : Meanwhile clash G guarantee L d d') :
    Safe clash G guarantee p L d' := by
  cases p with
  | stmt rows k => intro d₂ h₂ hG; exact h d₂ (hd.trans h₂) hG
  | commit w r => intro d₂ h₂ hG; exact h d₂ (hd.trans h₂) hG
  | rollback r => trivial

theorem safe_rollback (r : R) : Safe clash G guarantee (.rollback r) L d := trivial

theorem safe_commit {w : D → D} {r : R}
    (h : ∀ d', Meanwhile clash G guarantee L d d' → G d' → G (w d') ∧ guarantee r L d' (w d')) :
    Safe clash G guarantee (.commit w r) L d := h

variable (clash G guarantee) in
/-- a later moment of the same transaction: it holds the same locks or more, and others have gone on meanwhile -/
structure Later (L : Set ρ) (d : D) (L' : Set ρ) (d' : D) : Prop where
  locks : L ≤ L'
  meanwhile : Meanwhile clash G guarantee L d d'
  good : G d'

theorem Later.trans (h : Later clash G guarantee L d L' d') (h' : Later clash G guarantee L' d' L'' d'') :
    Later clash G guarantee L d L'' d'' :=
  ⟨h.locks.trans h'.locks, h.meanwhile.trans (h'.meanwhile.weaken (blocked_mono h.locks)), h'.good⟩

/-- **A statement**: the rest is safe at every later moment at which the rows are locked. -/
theorem safe_stmt {rows : D → List ρ} {k : D → Txn D ρ R}
    (h : ∀ L' d', Later clash G guarantee L d L' d' → (∀ x ∈ rows d', L' x) → Safe clash G guarantee (k d') L' d') :
    Safe clash G guarantee (.stmt rows k) L d := fun d' hd hG =>
  h _ d' ⟨fun _ hx => .inr hx, hd, hG⟩ fun _ hx => .inl hx

theorem safe_read {k : D → Txn D ρ R}
    (h : ∀ L' d', Later clash G guarantee L d L' d' → Safe clash G guarantee (k d') L' d') :
    Safe clash G guarantee (Txn.read k) L d := safe_stmt fun L' d' hd _ => h L' d' hd

/-- **Stability rule**: what every guaranteed change under locks that do not clash preserves, time preserves. -/
theorem Meanwhile.preserves {P : D → Prop} (h : Meanwhile clash G guarantee L d d')
    (hstep : ∀ a b r M, G a → (∀ x y, M x → L y → ¬ clash x y) → guarantee r M a b → P a → P b) (hd : P d) : P d' :=
  Interference.preserves h (fun a b r M hG hdisj hg =>
    hstep a b r M hG (fun _ y hx hy hxy => Set.disjoint_left.1 hdisj hx ⟨y, hy, hxy⟩) hg) hd

end Safety

/-! ## The rules for runs -/

variable {clash : ρ → ρ → Prop} {G : D → Prop} {guarantee : R → Set ρ → D → D → Prop}

/-- every open session is safe -/
structure Inv (clash : ρ → ρ → Prop) (G : D → Prop) (guarantee : R → Set ρ → D → D → Prop) (s : Sys D ρ R) :
    Prop where
  good : G s.db
  /-- a lock is held by an open session -/
  open' : ∀ h ∈ s.held, s.sessions h.1 ≠ none
  safe : ∀ i p, s.sessions i = some p → Safe clash G guarantee p (s.holds i) s.db

/-- what is to be shown of the programs that are started, and of the schedules:
- conflicts are mutual;
- a program is safe when it is started;
- a session commits only under locks that clash with none of another session. -/
structure Obligations (conflict clash : ρ → ρ → Prop) (ok : Sys D ρ R → Op (Txn D ρ R) → Prop) (G : D → Prop)
    (guarantee : R → Set ρ → D → D → Prop) : Prop where
  symm : ∀ x y, conflict x y → conflict y x
  start : ∀ s i p, ok s (.start i p) → G s.db → Safe clash G guarantee p (fun _ => False) s.db
  apart : ∀ s i w r, Compatible conflict s → ok s (.exec i) → s.sessions i = some (.commit w r) →
    ∀ k, k ≠ i → ∀ x y, s.holds i x → s.holds k y → ¬ clash x y

theorem Inv.close {s : Sys D ρ R} (h : Inv clash G guarantee s) (i : ℕ) : Inv clash G guarantee (s.close i) := by
  refine ⟨h.good, fun x hx => ?_, fun k p hk => ?_⟩
  · obtain ⟨hx, hne⟩ := List.mem_filter.1 hx
    have hne : x.1 ≠ i := of_decide_eq_true hne
    simp only [Sys.close, Function.update_of_ne hne]
    exact h.open' x hx
  · obtain ⟨hne, hp⟩ := Sys.sessions_close hk
    have hholds : (s.close i).holds k = s.holds k := by
      funext x
      exact propext (Sys.holds_close.trans (and_iff_left hne))
    rw [hholds]
    exact h.safe k p hp

/-- A step of sessions whose locks keep them apart keeps the invariant. -/
theorem step_inv (ho : Obligations conflict clash ok G guarantee) {s : Sys D ρ R} (hcomp : Compatible conflict s)
    (o : Op (Txn D ρ R)) (hok : ok s o) (h : Inv clash G guarantee s) : Inv clash G guarantee (step conflict s o) := by
  have hc := step_cases conflict s o
  generalize step conflict s o = s' at hc
  cases hc with
  | same => exact h
  | @start i p hi =>
    refine ⟨h.good, fun x hx => ?_, fun k q hk => ?_⟩
    · by_cases hki : x.1 = i
      · simp [hki]
      · simp only [Function.update_of_ne hki]; exact h.open' x hx
    · simp only [Function.update_apply] at hk
      split_ifs at hk with hki
      · obtain rfl : p = q := Option.some.inj hk
        have hnone : s.holds k = fun _ => False := by
          funext x
          exact eq_false fun hx => h.open' _ hx (hki ▸ hi)
        have hsafe := ho.start s i p hok h.good
        rw [← hnone] at hsafe
        exact hsafe
      · exact h.safe k q hk
  | @stmt i rows k hi hfree =>
    refine ⟨h.good, fun x hx => ?_, fun j q hj => ?_⟩
    · by_cases hxi : x.1 = i
      · simp [Sys.lock, hxi]
      · simp only [Sys.lock, Function.update_of_ne hxi]
        rcases List.mem_append.1 hx with hx | hx
        · exact h.open' x hx
        · obtain ⟨y, -, rfl⟩ := List.mem_map.1 hx
          exact absurd rfl hxi
    · have hholds : (s.lock i (rows s.db) (k s.db)).holds j = fun x => s.holds j x ∨ (j = i ∧ x ∈ rows s.db) := by
        funext x
        exact propext Sys.holds_lock
      rw [hholds]
      rcases Sys.sessions_lock hj with ⟨rfl, rfl⟩ | ⟨hne, hj⟩
      · have hsafe := h.safe j _ hi s.db .refl h.good
        have hset : (fun x => s.holds j x ∨ (j = j ∧ x ∈ rows s.db)) = fun x => x ∈ rows s.db ∨ s.holds j x := by
          funext x
          simp [or_comm]
        rw [hset]
        exact hsafe
      · have hset : (fun x => s.holds j x ∨ (j = i ∧ x ∈ rows s.db)) = s.holds j := by
          funext x
          simp [hne]
        rw [hset]
        exact h.safe j q hj
  | @commit i w r hi =>
    obtain ⟨hG, hg⟩ := h.safe i _ hi s.db .refl h.good
    have hclosed := h.close i
    refine ⟨hG, hclosed.open', fun k q hk => ?_⟩
    obtain ⟨hne, hq⟩ := Sys.sessions_close hk
    refine (hclosed.safe k q hk).interfere (.single ⟨h.good, r, s.holds i, ?_, hg⟩)
    refine Set.disjoint_left.2 fun x hx => ?_
    rintro ⟨y, hy, hxy⟩
    exact ho.apart s i w r hcomp hok hi k hne x y hx (Sys.holds_close.1 hy).1 hxy
  | @rollback i r hi =>
    have hclosed := h.close i
    exact ⟨h.good, hclosed.open', hclosed.safe⟩
  | abort i => exact h.close i

theorem inv_run (ho : Obligations conflict clash ok G guarantee) {d : D} (hd : G d) {s : Sys D ρ R}
    (hs : Run (step conflict) ok (Sys.init d) s) : Inv clash G guarantee s := by
  have hboth : Compatible conflict s ∧ Inv clash G guarantee s := by
    refine hs.inv (I := fun s => Compatible conflict s ∧ Inv clash G guarantee s)
      (fun s o hok h => ⟨compatible_step ho.symm o h.1, step_inv ho h.1 o hok h.2⟩) ⟨?_, hd, ?_, ?_⟩
    · exact fun _ _ _ _ _ hx => absurd hx (by simp [Sys.holds, Sys.init])
    · exact fun x hx => absurd hx (by simp [Sys.init])
    · exact fun i p hp => by cases hp
  exact hboth.2

/-- what the step commits, if it commits: the write and the result -/
def committing (s : Sys D ρ R) : Op (Txn D ρ R) → Option ((D → D) × R)
  | .exec i =>
    match s.sessions i with
    | some (.commit w r) => some (w, r)
    | _ => none
  | _ => none

theorem committing_some {s : Sys D ρ R} {o : Op (Txn D ρ R)} {w : D → D} {r : R} (h : committing s o = some (w, r)) :
    ∃ i, o = .exec i ∧ s.sessions i = some (.commit w r) := by
  unfold committing at h
  split at h
  · next i =>
    split at h
    · next w' r' hi =>
      obtain ⟨rfl, rfl⟩ := Prod.mk.inj (Option.some.inj h)
      exact ⟨i, rfl, hi⟩
    · cases h
  · cases h

/-- only a commit changes the database -/
theorem step_db (s : Sys D ρ R) (o : Op (Txn D ρ R)) :
    (step conflict s o).db = ((committing s o).map fun c => c.1 s.db).getD s.db := by
  cases o with
  | start i p =>
    simp only [step]
    split <;> rfl
  | abort i => rfl
  | exec i =>
    simp only [step, committing]
    split
    · next hi => simp [hi]
    · next hi => simp only [hi]; split_ifs <;> rfl
    · next hi => simp [hi]
    · next hi => simp [hi, Sys.close]

theorem step_db_none {s : Sys D ρ R} {o : Op (Txn D ρ R)} (h : committing s o = none) : (step conflict s o).db = s.db := by
  rw [step_db, h]; rfl

theorem step_db_some {s : Sys D ρ R} {o : Op (Txn D ρ R)} {w : D → D} {r : R} (h : committing s o = some (w, r)) :
    (step conflict s o).db = w s.db := by
  rw [step_db, h]; rfl

/-- If every program is safe when it starts, the invariant holds in every committed state, and every commit is as guaranteed. -/
theorem safe_rule (ho : Obligations conflict clash ok G guarantee) {d : D} (hd : G d) {s : Sys D ρ R}
    (hs : Run (step conflict) ok (Sys.init d) s) :
    G s.db ∧ ∀ o w r, committing s o = some (w, r) → ∃ L, guarantee r L s.db (w s.db) := by
  have hinv := inv_run ho hd hs
  refine ⟨hinv.good, fun o w r hc => ?_⟩
  obtain ⟨i, rfl, hi⟩ := committing_some hc
  have hsafe := hinv.safe i _ hi
  exact ⟨s.holds i, (hsafe s.db .refl hinv.good).2⟩

/-! ## Histories -/

variable (conflict) in
/-- the results of the transactions that commit in a schedule, in the order of their commits -/
def history (s : Sys D ρ R) : List (Op (Txn D ρ R)) → List R
  | [] => []
  | o :: ops => (committing s o).toList.map (·.2) ++ history (step conflict s o) ops

/-- **The rule for histories**: a schedule, from any reachable state, makes one guaranteed commit for each result. -/
theorem chain_rule (ho : Obligations conflict clash ok G guarantee) {d : D} (hd : G d) {s : Sys D ρ R}
    (hs : Run (step conflict) ok (Sys.init d) s) {ops : List (Op (Txn D ρ R))}
    (hops : Admissible (step conflict) ok s ops) :
    Chain G guarantee s.db (history conflict s ops) (run (step conflict) s ops).db := by
  induction ops generalizing s with
  | nil => rfl
  | cons o ops ih =>
    have hs' := hs.tail o hops.1
    have hrest := ih hs' hops.2
    rw [run_cons]
    cases hc : committing s o with
    | none =>
      rw [step_db_none hc] at hrest
      simpa [history, hc] using hrest
    | some c =>
      obtain ⟨hG, hg⟩ := safe_rule ho hd hs
      obtain ⟨L, hchange⟩ := hg o c.1 c.2 hc
      have hG' := (safe_rule ho hd hs').1
      rw [step_db_some hc] at hrest hG'
      have hchain : Chain G guarantee s.db (c.2 :: history conflict (step conflict s o) ops)
          (run (step conflict) (step conflict s o) ops).db := ⟨hG, _, L, hG', hchange, hrest⟩
      simpa [history, hc] using hchain

/-- only programs of the given kind are started -/
def Starts (start : Txn D ρ R → Prop) (_ : Sys D ρ R) : Op (Txn D ρ R) → Prop
  | .start _ p => start p
  | _ => True

theorem of_start_mem_schedule {start : Txn D ρ R → Prop} {ps : List (Txn D ρ R)} (h : ∀ p ∈ ps, start p)
    {turns : List ℕ} {i : ℕ} {p : Txn D ρ R} (hp : .start i p ∈ Transaction.schedule ps turns) : start p := by
  rcases List.mem_append.1 hp with hp | hp
  · obtain ⟨j, hj, he⟩ := List.mem_mapIdx.1 hp
    cases he
    exact h _ (List.getElem_mem hj)
  · obtain ⟨j, -, he⟩ := List.mem_map.1 hp
    cases he

theorem schedule_admissible {start : Txn D ρ R → Prop} {ps : List (Txn D ρ R)} (h : ∀ p ∈ ps, start p) (turns : List ℕ)
    (s : Sys D ρ R) : Admissible (step conflict) (Starts start) s (Transaction.schedule ps turns) := by
  refine .of_forall (fun o ho s => ?_) s
  rcases List.mem_append.1 ho with ho | ho
  · obtain ⟨i, hi, rfl⟩ := List.mem_mapIdx.1 ho
    exact h _ (List.getElem_mem hi)
  · obtain ⟨i, -, rfl⟩ := List.mem_map.1 ho
    trivial

/-! ## Programs on a component of the database -/

section Zoom

variable {E σ S : Type} (get : E → D) (set : D → E → E) (lock : ρ → σ) (res : R → S)

/-- the program, on the component `get` of a larger database, with its locks and results renamed -/
def zoom : Txn D ρ R → Txn E σ S
  | .stmt rows k => .stmt (fun e => (rows (get e)).map lock) fun e => zoom (k (get e))
  | .commit w r => .commit (fun e => set (w (get e)) e) (res r)
  | .rollback r => .rollback (res r)

variable {get set lock res} {G₁ : D → Prop} {guarantee₁ : R → Set ρ → D → D → Prop} {clash : σ → σ → Prop} {G : E → Prop}
  {guarantee : S → Set σ → E → E → Prop}

/-- **Safety of a component**: what the guarantee of the larger database says of the component follows the component's own,
and the other way round for a commit of the component. -/
theorem safe_zoom (hinj : Function.Injective lock) (hgood : ∀ e, G e → G₁ (get e))
    (hstep : ∀ a b r (M L : Set σ), G a → (∀ x y, M x → L y → ¬ clash x y) → guarantee r M a b →
      Interference G₁ guarantee₁ (fun x => L (lock x)) (get a) (get b))
    (hcommit : ∀ r (L : Set σ) e d, G e → G₁ d → guarantee₁ r (fun x => L (lock x)) (get e) d →
      G (set d e) ∧ guarantee (res r) L e (set d e))
    {p : Txn D ρ R} {L : Set σ} {e : E} (h : Transaction.Safe G₁ guarantee₁ p (fun x => L (lock x)) (get e)) :
    Safe clash G guarantee (zoom get set lock res p) L e := by
  have hinner : ∀ {L : Set σ} {e e' : E}, Meanwhile clash G guarantee L e e' →
      Interference G₁ guarantee₁ (fun x => L (lock x)) (get e) (get e') := by
    intro L e e' he
    induction he with
    | refl => exact .refl
    | tail _ hb ih =>
      obtain ⟨hG, r, M, hdisj, hg⟩ := hb
      refine ih.trans (hstep _ _ r M L hG (fun x y hx hy hxy => ?_) hg)
      exact Set.disjoint_left.1 hdisj hx ⟨y, hy, hxy⟩
  induction p generalizing L e with
  | stmt rows k ih =>
    intro e' he hG
    have hk := Transaction.safe_stmt_iff.1 h (get e') (hinner he) (hgood e' hG)
    refine ih (get e') ?_
    have hset : (fun x => lock x ∈ (rows (get e')).map lock ∨ L (lock x)) = fun x => x ∈ rows (get e') ∨ L (lock x) := by
      funext x
      rw [List.mem_map_of_injective hinj]
    rw [hset]
    exact hk
  | commit w r =>
    intro e' he hG
    obtain ⟨hG₁, hg₁⟩ := Transaction.safe_commit_iff.1 h (get e') (hinner he) (hgood e' hG)
    exact hcommit r L e' _ hG hG₁ hg₁
  | rollback r => trivial

end Zoom

-- from here on safety is proved by the rules above, statement by statement
attribute [irreducible] Safe

end AtlasRag.Lib.LockMode
