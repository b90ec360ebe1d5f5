/-
Transaction programs, and rely/guarantee reasoning about them under row locks.

A program is a tree: each statement names the rows it locks and continues with what it reads; both are functions of the
database at the moment at which it runs. What the program writes is a function on the database that takes effect at the
commit, on what is committed then. `Lib.RowLock` interleaves such programs.

A guarantee says what a commit under given locks may do to the database. While a session holds the locks `L`, others
change the database only by commits under locks disjoint from `L` that meet the guarantee: `Interference L`. A program is
`Safe` if, whatever interference happens between its statements, its commit keeps the invariant `G` and meets the
guarantee itself.

Results:
- `Safe.interfere`: safety is stable under interference;
- `step_db`: only a commit changes the database;
- `safe_rule`: if every program started is safe then `G` holds in every reachable state, and every commit follows the
  guarantee;
- `sessions_rule`: what a program says holds of every open session;
- `reports_rule`: what the results say of the database;
- `chain_rule`, `history_rule`: a schedule makes one guaranteed commit for each result of its history;
- `history_eq_log`: where the results tell commits from rollbacks, the history can be read off the log.
-/
import AtlasRag.Lib.RowLock

namespace AtlasRag.Lib.Transaction

open AtlasRag.Lib AtlasRag.Lib.RowLock

inductive Txn (D ρ R : Type) where
  | stmt (rows : D → List ρ) (k : D → Txn D ρ R)
  | commit (w : D → D) (r : R)
  | rollback (r : R)

variable {D ρ R : Type}

/-- the next action, on the database as it is committed now -/
def next (d : D) : Txn D ρ R → Act D (Txn D ρ R) ρ R
  | .stmt rows k => .stmt (rows d) (k d)
  | .commit w r => .commit (w d) r
  | .rollback r => .rollback r

/-- a statement that locks nothing -/
def Txn.read (k : D → Txn D ρ R) : Txn D ρ R := .stmt (fun _ => []) k

/-! ## A program run with nothing in between -/

/-- the database and the result that it ends with -/
def Txn.alone : Txn D ρ R → D → D × R
  | .stmt _ k, d => (k d).alone d
  | .commit w r, d => (w d, r)
  | .rollback r, d => (d, r)

/-- **A session alone** does what its program does alone: if no other session holds a lock, its next actions end it. -/
theorem run_alone [DecidableEq ρ] {p : Txn D ρ R} {s : Sys D (Txn D ρ R) ρ R} {i : ℕ} (hi : s.sessions i = some p)
    (hheld : ∀ x j, s.held x = some j → j = i) :
    ∃ n, (run (step next) s (List.replicate n (.exec i))).db = (p.alone s.db).1 ∧
      (run (step next) s (List.replicate n (.exec i))).log = s.log ++ [(i, (p.alone s.db).2)] := by
  induction p generalizing s with
  | stmt rows k ih =>
    have hfree : ∀ x ∈ rows s.db, s.held x = none ∨ s.held x = some i := by
      intro x _
      cases hx : s.held x with
      | none => exact .inl rfl
      | some j => exact .inr (by rw [hheld x j hx])
    have hstep : step next s (.exec i) = s.lock i (rows s.db) (k s.db) := by simp [step, hi, next, if_pos hfree]
    have hheld' : ∀ x j, (s.lock i (rows s.db) (k s.db)).held x = some j → j = i := by
      intro x j hx
      simp only [Sys.lock] at hx
      split_ifs at hx
      · exact (Option.some.inj hx).symm
      · exact hheld x j hx
    obtain ⟨n, hdb, hlog⟩ := ih s.db (s := s.lock i (rows s.db) (k s.db)) (by simp [Sys.lock]) hheld'
    refine ⟨n + 1, ?_, ?_⟩
    · rw [List.replicate_succ, run_cons, hstep, hdb]; rfl
    · rw [List.replicate_succ, run_cons, hstep, hlog]; rfl
  | commit w r => exact ⟨1, by simp [step, hi, next, Txn.alone], by simp [step, hi, next, Txn.alone]⟩
  | rollback r => exact ⟨1, by simp [step, hi, next, Txn.alone, Sys.close], by simp [step, hi, next, Txn.alone]⟩

/-! ## Interference -/

/-- what other sessions may do while this one holds the locks `L` -/
def Interference (G : D → Prop) (guarantee : R → Set ρ → D → D → Prop) (L : Set ρ) : D → D → Prop :=
  Relation.ReflTransGen fun d d' => G d ∧ ∃ r M, Disjoint M L ∧ guarantee r M d d'

variable {G : D → Prop} {guarantee : R → Set ρ → D → D → Prop} {L : Set ρ} {d d' : D}

/-- **Stability rule**: what every guaranteed change under other locks preserves is preserved by interference. -/
theorem Interference.preserves {P : D → Prop} (h : Interference G guarantee L d d')
    (hstep : ∀ a b r M, G a → Disjoint M L → guarantee r M a b → P a → P b) (hd : P d) : P d' := by
  induction h with
  | refl => exact hd
  | tail _ hb ih =>
    obtain ⟨hG, r, M, hdisj, hg⟩ := hb
    exact hstep _ _ r M hG hdisj hg ih

/-- … and what every such change leaves as it is -/
theorem Interference.keeps {β : Type} (f : D → β) (h : Interference G guarantee L d d')
    (hstep : ∀ a b r M, Disjoint M L → guarantee r M a b → f b = f a) : f d' = f d := by
  induction h with
  | refl => rfl
  | tail _ hb ih =>
    obtain ⟨-, r, M, hdisj, hg⟩ := hb
    exact (hstep _ _ r M hdisj hg).trans ih

/-- more locks, less interference -/
theorem Interference.weaken {L' : Set ρ} (h : Interference G guarantee L' d d') (hL : L ≤ L') :
    Interference G guarantee L d d' := by
  refine Relation.ReflTransGen.mono ?_ _ _ h
  rintro a b ⟨hG, r, M, hdisj, hg⟩
  exact ⟨hG, r, M, hdisj.mono_right hL, hg⟩

/-! ## Safe programs -/

/-- the weakest condition under which the program, holding `L`, ends well under any interference -/
def Safe (G : D → Prop) (guarantee : R → Set ρ → D → D → Prop) : Txn D ρ R → Set ρ → D → Prop
  | .stmt rows k, L, d => ∀ d', Interference G guarantee L d d' → G d' →
      Safe G guarantee (k d') (fun x => x ∈ rows d' ∨ L x) d'
  | .commit w r, L, d => ∀ d', Interference G guarantee L d d' → G d' → G (w d') ∧ guarantee r L d' (w d')
  | .rollback _, _, _ => True

theorem safe_stmt_iff {rows : D → List ρ} {k : D → Txn D ρ R} : Safe G guarantee (.stmt rows k) L d ↔
    ∀ d', Interference G guarantee L d d' → G d' → Safe G guarantee (k d') (fun x => x ∈ rows d' ∨ L x) d' := Iff.rfl

theorem safe_commit_iff {w : D → D} {r : R} : Safe G guarantee (.commit w r) L d ↔
    ∀ d', Interference G guarantee L d d' → G d' → G (w d') ∧ guarantee r L d' (w d') := Iff.rfl

theorem Safe.interfere {p : Txn D ρ R} (h : Safe G guarantee p L d) (hd : Interference G guarantee L d d') :
    Safe G guarantee p L d' := by
  cases p with
  | stmt rows k => intro d₂ h₂ hG; exact h d₂ (hd.trans h₂) hG
  | commit w r => intro d₂ h₂ hG; exact h d₂ (hd.trans h₂) hG
  | rollback r => trivial

theorem safe_rollback (r : R) : Safe G guarantee (.rollback r) L d := trivial

theorem safe_of_commit {w : D → D} {r : R}
    (h : ∀ d', Interference G guarantee L d d' → G d' → G (w d') ∧ guarantee r L d' (w d')) :
    Safe G guarantee (.commit w r) L d := h

/-- a later moment of the same transaction: it holds the same locks or more, and others have gone on meanwhile -/
structure Later (G : D → Prop) (guarantee : R → Set ρ → D → D → Prop) (L : Set ρ) (d : D) (L' : Set ρ) (d' : D) :
    Prop where
  locks : L ≤ L'
  meanwhile : Interference G guarantee L d d'
  good : G d'

theorem Later.refl (hG : G d) : Later G guarantee L d L d := ⟨le_rfl, .refl, hG⟩

theorem Later.trans {L' L'' : Set ρ} {d'' : D} (h : Later G guarantee L d L' d') (h' : Later G guarantee L' d' L'' d'') :
    Later G guarantee L d L'' d'' :=
  ⟨h.locks.trans h'.locks, h.meanwhile.trans (h'.meanwhile.weaken h.locks), h'.good⟩

/-- **A statement**: the rest is safe at every later moment at which the rows are locked. -/
theorem safe_stmt {rows : D → List ρ} {k : D → Txn D ρ R}
    (h : ∀ L' d', Later G guarantee L d L' d' → (∀ x ∈ rows d', L' x) → Safe G guarantee (k d') L' d') :
    Safe G guarantee (.stmt rows k) L d := fun d' hd hG =>
  h _ d' ⟨fun _ hx => .inr hx, hd, hG⟩ fun _ hx => .inl hx

theorem safe_read {k : D → Txn D ρ R} (h : ∀ L' d', Later G guarantee L d L' d' → Safe G guarantee (k d') L' d') :
    Safe G guarantee (Txn.read k) L d := safe_stmt fun L' d' hd _ => h L' d' hd

variable [DecidableEq ρ] {start : Txn D ρ R → Prop}

/-- only programs of the given kind are started -/
def Starts (start : Txn D ρ R → Prop) (_ : Sys D (Txn D ρ R) ρ R) : Op (Txn D ρ R) → Prop
  | .start _ p => start p
  | _ => True

/-- the programs are started, as the sessions 0, 1, and so on, and then take turns -/
def schedule (ps : List (Txn D ρ R)) (turns : List ℕ) : List (Op (Txn D ρ R)) :=
  ps.mapIdx Op.start ++ turns.map Op.exec

theorem schedule_admissible {ps : List (Txn D ρ R)} (h : ∀ p ∈ ps, start p) (turns : List ℕ)
    (s : Sys D (Txn D ρ R) ρ R) : Admissible (step next) (Starts start) s (schedule ps turns) := by
  refine .of_forall (fun o ho s => ?_) s
  rcases List.mem_append.1 ho with ho | ho
  · obtain ⟨i, hi, rfl⟩ := List.mem_mapIdx.1 ho
    exact h _ (List.getElem_mem hi)
  · obtain ⟨i, -, rfl⟩ := List.mem_map.1 ho
    trivial

variable {ok : Sys D (Txn D ρ R) ρ R → Op (Txn D ρ R) → Prop}

omit [DecidableEq ρ] in
/-- the obligations of the rule for interleaved sessions; what may be started can depend on the state -/
theorem obligations
    (hstart : ∀ s i p, ok s (.start i p) → G s.db → Safe G guarantee p (fun _ => False) s.db) :
    Obligations next ok (fun d (_ : List (ℕ × R)) => G d) (fun d L p => Safe G guarantee p L d) where
  start s i p hok hinv := hstart s i p hok hinv.global
  stmt s i p rows p' _ hi hinv hn := by
    have hsafe := hinv.session i p hi
    cases p with
    | stmt rows₀ k =>
      cases hn
      exact hsafe s.db .refl hinv.global
    | commit w r => cases hn
    | rollback r => cases hn
  commit s i p d r _ hi hinv hn := by
    have hsafe := hinv.session i p hi
    cases p with
    | stmt rows k => cases hn
    | rollback r => cases hn
    | commit w _ =>
      cases hn
      obtain ⟨hG, hg⟩ := hsafe s.db .refl hinv.global
      refine ⟨hG, fun k p' _ _ hdisj hk => hk.interfere ?_⟩
      exact .single ⟨hinv.global, r, _, hdisj, hg⟩
  rollback s _ _ _ _ hinv _ := hinv.global

/-- what the step commits, if it commits: the write and the result -/
def committing (s : Sys D (Txn D ρ R) ρ R) : Op (Txn D ρ R) → Option ((D → D) × R)
  | .exec i =>
    match s.sessions i with
    | some (.commit w r) => some (w, r)
    | _ => none
  | _ => none

omit [DecidableEq ρ] in
theorem committing_some {s : Sys D (Txn D ρ R) ρ R} {o : Op (Txn D ρ R)} {w : D → D} {r : R}
    (h : committing s o = some (w, r)) : ∃ i, o = .exec i ∧ s.sessions i = some (.commit w r) := by
  unfold committing at h
  split at h
  · next i =>
    split at h
    · next w' r' hi =>
      obtain ⟨rfl, rfl⟩ := Prod.mk.inj (Option.some.inj h)
      exact ⟨i, rfl, hi⟩
    · cases h
  · cases h

/-- only a commit changes the database -/
theorem step_db (s : Sys D (Txn D ρ R) ρ R) (o : Op (Txn D ρ R)) :
    (step next s o).db = ((committing s o).map fun c => c.1 s.db).getD s.db := by
  cases o with
  | start i p =>
    simp only [step]
    split <;> rfl
  | abort i => rfl
  | exec i =>
    simp only [step, committing]
    cases s.sessions i with
    | none => rfl
    | some p =>
      cases p with
      | stmt rows k => simp only [next]; split_ifs <;> rfl
      | commit w r => rfl
      | rollback r => rfl

theorem step_db_none {s : Sys D (Txn D ρ R) ρ R} {o : Op (Txn D ρ R)} (h : committing s o = none) :
    (step next s o).db = s.db := by
  rw [step_db, h]; rfl

theorem step_db_some {s : Sys D (Txn D ρ R) ρ R} {o : Op (Txn D ρ R)} {w : D → D} {r : R}
    (h : committing s o = some (w, r)) : (step next s o).db = w s.db := by
  rw [step_db, h]; rfl

/-- If every program is safe when it starts, the invariant holds in every committed state, and every commit is as
guaranteed. -/
theorem safe_rule (hstart : ∀ s i p, ok s (.start i p) → G s.db → Safe G guarantee p (fun _ => False) s.db) {d : D}
    (hd : G d) {s : Sys D (Txn D ρ R) ρ R} (hs : Run (step next) ok (Sys.init d) s) :
    G s.db ∧ ∀ o w r, committing s o = some (w, r) → ∃ L, guarantee r L s.db (w s.db) := by
  have hinv := Sys.inv_rule (obligations hstart) hd hs
  refine ⟨hinv.global, fun o w r hc => ?_⟩
  obtain ⟨i, rfl, hi⟩ := committing_some hc
  have hsafe := hinv.session i _ hi
  exact ⟨s.holds i, (hsafe s.db .refl hinv.global).2⟩

/-- **The rule for what commits keep**: what every guaranteed commit preserves holds in every reachable state. -/
theorem preserved_rule (hstart : ∀ s i p, ok s (.start i p) → G s.db → Safe G guarantee p (fun _ => False) s.db) {d : D}
    (hd : G d) {P : D → Prop} (h0 : P d) (hstep : ∀ d r L d', G d → guarantee r L d d' → P d → P d')
    {s : Sys D (Txn D ρ R) ρ R} (hs : Run (step next) ok (Sys.init d) s) : P s.db := by
  induction hs with
  | refl => exact h0
  | @tail s hs o ho ih =>
    cases hc : committing s o with
    | none => rw [step_db_none hc]; exact ih
    | some c =>
      obtain ⟨hG, hg⟩ := safe_rule hstart hd hs
      obtain ⟨L, hchange⟩ := hg o c.1 c.2 hc
      rw [step_db_some hc]
      exact hstep _ _ L _ hG hchange ih

/-- **The rule for what programs say.** A property of programs that those started have, and that a program keeps with each
statement on a database that meets `I`, holds of every open session. -/
theorem sessions_rule {I : D → Prop} {Q : Txn D ρ R → Prop} {d : D}
    (hI : ∀ s, Run (step next) ok (Sys.init d) s → I s.db) (hstart : ∀ s i p, ok s (.start i p) → Q p)
    (hstmt : ∀ rows k d, I d → Q (.stmt rows k) → Q (k d)) {s : Sys D (Txn D ρ R) ρ R}
    (hs : Run (step next) ok (Sys.init d) s) : ∀ i p, s.sessions i = some p → Q p := by
  induction hs with
  | refl => intro i p hi; cases hi
  | @tail s hs o ho ih =>
    have hc := step_cases next s o
    generalize step next s o = s' at hc
    cases hc with
    | same => exact ih
    | @start i p hi =>
      intro k p' hk
      simp only [Function.update_apply] at hk
      split_ifs at hk
      · obtain rfl : p = p' := Option.some.inj hk
        exact hstart s i p ho
      · exact ih k p' hk
    | @stmt i p p' rows hi hn =>
      intro k p'' hk
      simp only [Sys.lock, Function.update_apply] at hk
      split_ifs at hk
      · obtain rfl : p' = p'' := Option.some.inj hk
        cases p with
        | stmt rows₀ k₀ =>
          cases hn
          exact hstmt rows₀ k₀ s.db (hI s hs) (ih i _ hi)
        | commit => cases hn
        | rollback => cases hn
      · exact ih k p'' hk
    | commit => intro k p' hk; exact ih k p' (Sys.sessions_close hk).2
    | rollback => intro k p' hk; exact ih k p' (Sys.sessions_close hk).2
    | abort => intro k p' hk; exact ih k p' (Sys.sessions_close hk).2

/-- the results of the sessions that have ended, and of those that are about to roll back -/
def Replied (s : Sys D (Txn D ρ R) ρ R) (r : R) : Prop :=
  (∃ i, (i, r) ∈ s.log) ∨ ∃ i, s.sessions i = some (.rollback r)

/-- a step can add the result of a program started, of a commit, or of a statement that fails -/
theorem replied_step {s : Sys D (Txn D ρ R) ρ R} {o : Op (Txn D ρ R)} {r : R} (h : Replied (step next s o) r) :
    Replied s r ∨ (∃ i, o = .start i (.rollback r)) ∨ (∃ w, committing s o = some (w, r)) ∨
      ∃ i rows k, o = .exec i ∧ s.sessions i = some (.stmt rows k) ∧
        (∀ x ∈ rows s.db, s.held x = none ∨ s.held x = some i) ∧ k s.db = .rollback r := by
  have hc := step_cases next s o
  generalize step next s o = s' at h hc
  cases hc with
  | same => exact .inl h
  | @start i p hi =>
    rcases h with ⟨k, hk⟩ | ⟨k, hk⟩
    · exact .inl (.inl ⟨k, hk⟩)
    · simp only [Function.update_apply] at hk
      split_ifs at hk
      · rw [Option.some.inj hk]
        exact .inr (.inl ⟨i, rfl⟩)
      · exact .inl (.inr ⟨k, hk⟩)
  | @stmt i p p' rows hi hn hfree =>
    rcases h with ⟨k, hk⟩ | ⟨k, hk⟩
    · exact .inl (.inl ⟨k, hk⟩)
    · simp only [Sys.lock, Function.update_apply] at hk
      split_ifs at hk
      · cases p with
        | stmt rows₀ k₀ =>
          cases hn
          exact .inr (.inr (.inr ⟨i, rows₀, k₀, rfl, hi, hfree, Option.some.inj hk⟩))
        | commit => cases hn
        | rollback => cases hn
      · exact .inl (.inr ⟨k, hk⟩)
  | @commit i p d r' hi hn =>
    rcases h with ⟨k, hk⟩ | ⟨k, hk⟩
    · rcases List.mem_append.1 hk with hk | hk
      · exact .inl (.inl ⟨k, hk⟩)
      · obtain ⟨rfl, rfl⟩ := Prod.mk.inj (List.mem_singleton.1 hk)
        cases p with
        | commit w r₀ =>
          cases hn
          exact .inr (.inr (.inl ⟨w, by simp [committing, hi]⟩))
        | stmt => cases hn
        | rollback => cases hn
    · exact .inl (.inr ⟨k, (Sys.sessions_close hk).2⟩)
  | @rollback i p r' hi hn =>
    rcases h with ⟨k, hk⟩ | ⟨k, hk⟩
    · rcases List.mem_append.1 hk with hk | hk
      · exact .inl (.inl ⟨k, hk⟩)
      · obtain ⟨rfl, rfl⟩ := Prod.mk.inj (List.mem_singleton.1 hk)
        cases p with
        | rollback r₀ =>
          cases hn
          exact .inl (.inr ⟨k, hi⟩)
        | stmt => cases hn
        | commit => cases hn
    · exact .inl (.inr ⟨k, (Sys.sessions_close hk).2⟩)
  | abort i =>
    rcases h with hk | ⟨k, hk⟩
    · exact .inl (.inl hk)
    · exact .inl (.inr ⟨k, (Sys.sessions_close hk).2⟩)

/-! ## What results say -/

/-- whatever others commit meanwhile, `I` holds of the database and the result when the program ends -/
def Reports (G : D → Prop) (guarantee : R → Set ρ → D → D → Prop) (I : D → R → Prop) : Txn D ρ R → D → Prop
  | .stmt _ k, d => ∀ d', Interference G guarantee (fun _ => False) d d' → G d' → Reports G guarantee I (k d') d'
  | .commit _ r, d => ∀ d', Interference G guarantee (fun _ => False) d d' → G d' → I d' r
  | .rollback r, d => ∀ d', Interference G guarantee (fun _ => False) d d' → G d' → I d' r

omit [DecidableEq ρ] in
theorem Reports.interfere {I : D → R → Prop} {p : Txn D ρ R} (h : Reports G guarantee I p d)
    (hd : Interference G guarantee (fun _ => False) d d') : Reports G guarantee I p d' := by
  cases p with
  | stmt rows k => intro d₂ h₂ hG; exact h d₂ (hd.trans h₂) hG
  | commit w r => intro d₂ h₂ hG; exact h d₂ (hd.trans h₂) hG
  | rollback r => intro d₂ h₂ hG; exact h d₂ (hd.trans h₂) hG

/-- the result with which the step ends a session -/
def ending (s : Sys D (Txn D ρ R) ρ R) : Op (Txn D ρ R) → Option R
  | .exec i =>
    match s.sessions i with
    | some (.commit _ r) => some r
    | some (.rollback r) => some r
    | _ => none
  | _ => none

omit [DecidableEq ρ] in
theorem ending_of_committing {s : Sys D (Txn D ρ R) ρ R} {o : Op (Txn D ρ R)} {w : D → D} {r : R}
    (h : committing s o = some (w, r)) : ending s o = some r := by
  obtain ⟨i, rfl, hi⟩ := committing_some h
  simp [ending, hi]

/-- a commit that is guaranteed is interference with every session that holds nothing -/
theorem interference_of_step
    (hstart : ∀ s i p, ok s (.start i p) → G s.db → Safe G guarantee p (fun _ => False) s.db) {d : D} (hd : G d)
    {s : Sys D (Txn D ρ R) ρ R} (hs : Run (step next) ok (Sys.init d) s) (o : Op (Txn D ρ R)) :
    Interference G guarantee (fun _ => False) s.db (step next s o).db := by
  cases hc : committing s o with
  | none =>
    rw [step_db_none hc]
    exact .refl
  | some c =>
    obtain ⟨hG, hg⟩ := safe_rule hstart hd hs
    obtain ⟨L, hchange⟩ := hg o c.1 c.2 hc
    rw [step_db_some hc]
    exact .single ⟨hG, c.2, L, Set.disjoint_left.2 fun _ _ h => h, hchange⟩

/-- **The rule for what results say**: in every reachable state each open session reports `I`. -/
theorem reports_rule {I : D → R → Prop}
    (hstart : ∀ s i p, ok s (.start i p) → G s.db → Safe G guarantee p (fun _ => False) s.db)
    (hreports : ∀ s i p, ok s (.start i p) → G s.db → Reports G guarantee I p s.db) {d : D} (hd : G d)
    {s : Sys D (Txn D ρ R) ρ R} (hs : Run (step next) ok (Sys.init d) s) :
    ∀ i p, s.sessions i = some p → Reports G guarantee I p s.db := by
  induction hs with
  | refl => intro i p hi; cases hi
  | @tail s hs o ho ih =>
    have hG := (safe_rule hstart hd hs).1
    have hinterfere := interference_of_step hstart hd hs o
    have hc := step_cases next s o
    generalize step next s o = s' at hc hinterfere
    cases hc with
    | same => exact ih
    | @start i p hi =>
      intro k p' hk
      simp only [Function.update_apply] at hk
      split_ifs at hk
      · obtain rfl : p = p' := Option.some.inj hk
        exact hreports s i p ho hG
      · exact ih k p' hk
    | @stmt i p p' rows hi hn =>
      intro k p'' hk
      simp only [Sys.lock, Function.update_apply] at hk
      split_ifs at hk
      · obtain rfl : p' = p'' := Option.some.inj hk
        cases p with
        | stmt rows₀ k₀ =>
          cases hn
          exact ih i _ hi s.db .refl hG
        | commit => cases hn
        | rollback => cases hn
      · exact ih k p'' hk
    | commit => intro k p' hk; exact (ih k p' (Sys.sessions_close hk).2).interfere hinterfere
    | rollback => intro k p' hk; exact ih k p' (Sys.sessions_close hk).2
    | abort => intro k p' hk; exact ih k p' (Sys.sessions_close hk).2

/-- … and what ends a session says `I` of the database at that moment -/
theorem reports_ending {I : D → R → Prop}
    (hstart : ∀ s i p, ok s (.start i p) → G s.db → Safe G guarantee p (fun _ => False) s.db)
    (hreports : ∀ s i p, ok s (.start i p) → G s.db → Reports G guarantee I p s.db) {d : D} (hd : G d)
    {s : Sys D (Txn D ρ R) ρ R} (hs : Run (step next) ok (Sys.init d) s) {o : Op (Txn D ρ R)} {r : R}
    (ho : ending s o = some r) : I s.db r := by
  have hG := (safe_rule hstart hd hs).1
  cases o with
  | exec i =>
    simp only [ending] at ho
    split at ho
    · next w r' hi =>
      obtain rfl := Option.some.inj ho
      exact reports_rule hstart hreports hd hs i _ hi s.db .refl hG
    · next r' hi =>
      obtain rfl := Option.some.inj ho
      exact reports_rule hstart hreports hd hs i _ hi s.db .refl hG
    · cases ho
  | start => cases ho
  | abort => cases ho

/-! ## Histories -/

/-- the results of the transactions that commit in a schedule, in the order of their commits -/
def history (s : Sys D (Txn D ρ R) ρ R) : List (Op (Txn D ρ R)) → List R
  | [] => []
  | o :: ops => (committing s o).toList.map (·.2) ++ history (step next s o) ops

/-- one guaranteed commit for each result, from `d` to `d'` -/
def Chain (G : D → Prop) (guarantee : R → Set ρ → D → D → Prop) : D → List R → D → Prop
  | d, [], d' => d' = d
  | d, r :: h, d' => G d ∧ ∃ d₁ L, G d₁ ∧ guarantee r L d d₁ ∧ Chain G guarantee d₁ h d'

/-- **The rule for histories**: a schedule, from any reachable state, makes one guaranteed commit for each result. -/
theorem chain_rule (hstart : ∀ s i p, ok s (.start i p) → G s.db → Safe G guarantee p (fun _ => False) s.db) {d : D}
    (hd : G d) {s : Sys D (Txn D ρ R) ρ R} (hs : Run (step next) ok (Sys.init d) s) {ops : List (Op (Txn D ρ R))}
    (hops : Admissible (step next) ok s ops) : Chain G guarantee s.db (history s ops) (run (step next) s ops).db := by
  induction ops generalizing s with
  | nil => rfl
  | cons o ops ih =>
    have hs' := hs.tail o hops.1
    have hrest := ih hs' hops.2
    rw [run_cons]
    cases hc : committing s o with
    | none =>
      rw [step_db_none hc] at hrest
      simpa [history, hc] using hrest
    | some c =>
      obtain ⟨hG, hg⟩ := safe_rule hstart hd hs
      obtain ⟨L, hchange⟩ := hg o c.1 c.2 hc
      have hG' := (safe_rule hstart hd hs').1
      rw [step_db_some hc] at hrest hG'
      have hchain : Chain G guarantee s.db (c.2 :: history (step next s o) ops) (run (step next) (step next s o) ops).db :=
        ⟨hG, _, L, hG', hchange, hrest⟩
      simpa [history, hc] using hchain

omit [DecidableEq ρ] in
theorem Chain.trans {d d' d'' : D} {h h' : List R} (hc : Chain G guarantee d h d') (hc' : Chain G guarantee d' h' d'') :
    Chain G guarantee d (h ++ h') d'' := by
  induction h generalizing d with
  | nil =>
    obtain rfl : d' = d := hc
    exact hc'
  | cons r h ih =>
    obtain ⟨hG, d₁, L, hG₁, hg, hrest⟩ := hc
    exact ⟨hG, d₁, L, hG₁, hg, ih hrest⟩

omit [DecidableEq ρ] in
/-- what every guaranteed commit preserves holds at the end -/
theorem Chain.preserves {P : D → Prop} (hstep : ∀ d r L d', G d → guarantee r L d d' → P d → P d') {d d' : D} {h : List R}
    (hc : Chain G guarantee d h d') (h0 : P d) : P d' := by
  induction h generalizing d with
  | nil =>
    obtain rfl : d' = d := hc
    exact h0
  | cons r h ih =>
    obtain ⟨hG, d₁, L, -, hg, hrest⟩ := hc
    exact ih hrest (hstep d r L d₁ hG hg h0)

omit [DecidableEq ρ] in
/-- what relates the database to the results so far, and follows every guaranteed commit, holds at the end -/
theorem Chain.inv {H : D → List R → Prop}
    (hstep : ∀ d h r L d', G d → G d' → guarantee r L d d' → H d h → H d' (h ++ [r])) {d d' : D} {h : List R}
    (hc : Chain G guarantee d h d') {h₀ : List R} (h0 : H d h₀) : H d' (h₀ ++ h) := by
  induction h generalizing d h₀ with
  | nil =>
    obtain rfl : d' = d := hc
    simpa using h0
  | cons r h ih =>
    obtain ⟨hG, d₁, L, hG₁, hg, hrest⟩ := hc
    have hnext := ih hrest (hstep d h₀ r L d₁ hG hG₁ hg h0)
    simpa using hnext

/-- … in particular from the start of a run -/
theorem history_rule (hstart : ∀ s i p, ok s (.start i p) → G s.db → Safe G guarantee p (fun _ => False) s.db) {d : D}
    (hd : G d) {H : D → List R → Prop} (h0 : H d [])
    (hstep : ∀ d h r L d', G d → G d' → guarantee r L d d' → H d h → H d' (h ++ [r]))
    {ops : List (Op (Txn D ρ R))} (hops : Admissible (step next) ok (Sys.init d) ops) :
    H (run (step next) (Sys.init d) ops).db (history (Sys.init d) ops) :=
  (chain_rule hstart hd .refl hops).inv hstep h0

/-! ## How programs end -/

/-- `C` holds of every result that the program can commit with, `B` of every one that it can roll back with -/
def Txn.Ends (C B : R → Prop) : Txn D ρ R → Prop
  | .stmt _ k => ∀ d, (k d).Ends C B
  | .commit _ r => C r
  | .rollback r => B r

omit [DecidableEq ρ] in
theorem Txn.Ends.mono {C B C' B' : R → Prop} {p : Txn D ρ R} (h : p.Ends C B) (hC : ∀ r, C r → C' r)
    (hB : ∀ r, B r → B' r) : p.Ends C' B' := by
  induction p with
  | stmt rows k ih => exact fun d => ih d (h d)
  | commit w r => exact hC r h
  | rollback r => exact hB r h

omit [DecidableEq ρ] in
/-- a program reports what follows from all results that it can end with -/
theorem reports_of_ends {C : R → Prop} {I : D → R → Prop} {p : Txn D ρ R} (h : p.Ends C C)
    (hI : ∀ d' r, Interference G guarantee (fun _ => False) d d' → G d' → C r → I d' r) : Reports G guarantee I p d := by
  induction p generalizing d with
  | stmt rows k ih =>
    intro d' hd hG
    exact ih d' (h d') fun d₂ r h₂ => hI d₂ r (hd.trans h₂)
  | commit w r => exact fun d' hd hG => hI d' r hd hG h
  | rollback r => exact fun d' hd hG => hI d' r hd hG h

/-- what one step adds to the results that meet `P`: the one that it commits -/
theorem step_log_filter {P : R → Prop} [DecidablePred P]
    (hstart : ∀ s i p, ok s (.start i p) → p.Ends P fun r => ¬ P r) {d : D} {s : Sys D (Txn D ρ R) ρ R}
    (hs : Run (step next) ok (Sys.init d) s) (o : Op (Txn D ρ R)) :
    ((step next s o).log.map (·.2)).filter P = (s.log.map (·.2)).filter P ++ (committing s o).toList.map (·.2) := by
  have hends : ∀ i p, s.sessions i = some p → p.Ends P fun r => ¬ P r :=
    sessions_rule (I := fun _ => True) (fun _ _ => trivial) hstart (fun _ _ d _ h => h d) hs
  cases o with
  | start i p =>
    simp only [step, committing]
    split <;> simp
  | abort i => simp [step, committing, Sys.close]
  | exec i =>
    cases hi : s.sessions i with
    | none => simp [step, committing, hi]
    | some p =>
      have hp := hends i p hi
      cases p with
      | stmt rows k =>
        simp only [step, committing, hi, next]
        split_ifs <;> simp [Sys.lock]
      | commit w r =>
        have hr : P r := hp
        simp [step, committing, hi, next, hr]
      | rollback r =>
        have hr : ¬ P r := hp
        simp [step, committing, hi, next, hr]

/-- **The history is what the log says.** If programs commit exactly with the results that meet `P`, the history of a run is
the list of the results of its log that meet `P`. -/
theorem history_eq_log {P : R → Prop} [DecidablePred P]
    (hstart : ∀ s i p, ok s (.start i p) → p.Ends P fun r => ¬ P r) {d : D} {ops : List (Op (Txn D ρ R))}
    (hops : Admissible (step next) ok (Sys.init d) ops) :
    history (Sys.init d) ops = ((run (step next) (Sys.init d) ops).log.map (·.2)).filter P := by
  have hgeneral : ∀ s, Run (step next) ok (Sys.init d) s → Admissible (step next) ok s ops →
      ((run (step next) s ops).log.map (·.2)).filter P = (s.log.map (·.2)).filter P ++ history s ops := by
    clear hops
    induction ops with
    | nil => intro s _ _; simp [history]
    | cons o ops ih =>
      intro s hs hops
      rw [run_cons, ih _ (hs.tail o hops.1) hops.2, step_log_filter hstart hs o, history, List.append_assoc]
  rw [hgeneral _ .refl hops]
  rfl

-- from here on safety is proved by the rules above, statement by statement
attribute [irreducible] Safe

end AtlasRag.Lib.Transaction
