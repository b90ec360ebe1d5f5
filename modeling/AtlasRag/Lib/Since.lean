/-
What has been committed since a session read what it read.

A session that checks something with one statement, and acts on the answer with a later one, relies on what others commit in
between. `Watched` runs the interleaved programs of `Lib.Transaction` and notes, for each statement of every open session, the
results committed since; a condition on a schedule can speak of them. The notes do not change what happens.

`Throughout` is the weakest condition under which an assertion holds at every point of a program, whatever guaranteed commits
happen between its statements and are noted.

Results:
- `watch_sys`, `run_watch_sys`: the notes are about the run as it is;
- `throughout_rule`: what holds throughout every program that is started holds of every open session.
-/
import AtlasRag.Lib.Transaction

namespace AtlasRag.Lib.Since

open AtlasRag.Lib AtlasRag.Lib.RowLock AtlasRag.Lib.Transaction

variable {D ρ R : Type}

structure Watched (D ρ R : Type) where
  sys : Sys D (Txn D ρ R) ρ R
  /-- for each statement of a session, the last one first, the results committed since, in their order -/
  notes : ℕ → List (List R)

namespace Watched

def init (d : D) : Watched D ρ R := ⟨Sys.init d, fun _ => []⟩

@[simp] theorem init_sys (d : D) : (init d : Watched D ρ R).sys = Sys.init d := rfl

/-- the results committed since a statement of the session; the last one is number 0, the one before it number 1 -/
def since (w : Watched D ρ R) (i n : ℕ) : List R := (w.notes i).getD n []

end Watched

variable [DecidableEq ρ]

/-- the notes after a step -/
def note (s : Sys D (Txn D ρ R) ρ R) (notes : ℕ → List (List R)) : Op (Txn D ρ R) → ℕ → List (List R)
  | .start i _ => if s.sessions i = none then Function.update notes i [] else notes
  | .exec i =>
    match s.sessions i with
    | some (.stmt rows _) =>
      if ∀ x ∈ rows s.db, s.held x = none ∨ s.held x = some i then Function.update notes i ([] :: notes i) else notes
    | some (.commit _ r) => fun j => (notes j).map (· ++ [r])
    | _ => notes
  | .abort _ => notes

def watch (w : Watched D ρ R) (o : Op (Txn D ρ R)) : Watched D ρ R := ⟨step next w.sys o, note w.sys w.notes o⟩

@[simp] theorem watch_sys (w : Watched D ρ R) (o : Op (Txn D ρ R)) : (watch w o).sys = step next w.sys o := rfl

theorem run_watch_sys (w : Watched D ρ R) (ops : List (Op (Txn D ρ R))) :
    (run watch w ops).sys = run (step next) w.sys ops := by
  induction ops generalizing w with
  | nil => rfl
  | cons o ops ih => rw [run_cons, run_cons, ih, watch_sys]

variable {ok : Sys D (Txn D ρ R) ρ R → Op (Txn D ρ R) → Prop}

/-- a schedule that the system admits is admitted with its notes -/
theorem admissible_watch {w : Watched D ρ R} {ops : List (Op (Txn D ρ R))}
    (h : Admissible (step next) ok w.sys ops) : Admissible watch (fun w o => ok w.sys o) w ops := by
  induction ops generalizing w with
  | nil => trivial
  | cons o ops ih => exact ⟨h.1, ih h.2⟩

theorem run_sys {d : D} {w : Watched D ρ R} (h : Run watch (fun w o => ok w.sys o) (Watched.init d) w) :
    Run (step next) ok (Sys.init d) w.sys := by
  induction h with
  | refl => exact .refl
  | tail _ o ho ih => exact ih.tail o ho

/-! ## Assertions about the notes -/

section Throughout

variable (G : D → Prop) (guarantee : R → Set ρ → D → D → Prop) (A : D → List (List R) → Txn D ρ R → Prop)

/-- at every point of the program `A` holds of the database, the notes and what is left of the program, whatever others
commit meanwhile -/
def Throughout : Txn D ρ R → D → List (List R) → Prop
  | .stmt rows k, d, notes => ∀ h d', Chain G guarantee d h d' → G d' →
      A d' (notes.map (· ++ h)) (.stmt rows k) ∧ Throughout (k d') d' ([] :: notes.map (· ++ h))
  | .commit w r, d, notes => ∀ h d', Chain G guarantee d h d' → G d' → A d' (notes.map (· ++ h)) (.commit w r)
  | .rollback r, d, notes => ∀ h d', Chain G guarantee d h d' → G d' → A d' (notes.map (· ++ h)) (.rollback r)

variable {G guarantee A} {d d' : D} {notes : List (List R)} {p : Txn D ρ R}

omit [DecidableEq ρ] in
theorem map_append_append (notes : List (List R)) (h h' : List R) :
    (notes.map (· ++ h)).map (· ++ h') = notes.map (· ++ (h ++ h')) := by
  simp [List.map_map, Function.comp_def]

omit [DecidableEq ρ] in
theorem Throughout.interfere {h : List R} (ht : Throughout G guarantee A p d notes) (hc : Chain G guarantee d h d') :
    Throughout G guarantee A p d' (notes.map (· ++ h)) := by
  cases p with
  | stmt rows k =>
    intro h' d'' hc' hG
    rw [map_append_append]
    exact ht _ d'' (hc.trans hc') hG
  | commit w r =>
    intro h' d'' hc' hG
    rw [map_append_append]
    exact ht _ d'' (hc.trans hc') hG
  | rollback r =>
    intro h' d'' hc' hG
    rw [map_append_append]
    exact ht _ d'' (hc.trans hc') hG

omit [DecidableEq ρ] in
theorem Throughout.here (ht : Throughout G guarantee A p d notes) (hG : G d) : A d notes p := by
  have hnil : notes.map (· ++ ([] : List R)) = notes := by simp
  have hrefl : Chain G guarantee d [] d := rfl
  cases p with
  | stmt rows k => exact hnil ▸ (ht [] d hrefl hG).1
  | commit w r => exact hnil ▸ ht [] d hrefl hG
  | rollback r => exact hnil ▸ ht [] d hrefl hG

omit [DecidableEq ρ] in
/-- an assertion that follows from the result alone, and says nothing before -/
theorem throughout_of_ends {C B : R → Prop} (hp : p.Ends C B) (hstmt : ∀ d notes rows k, A d notes (.stmt rows k))
    (hcommit : ∀ d notes w r, C r → A d notes (.commit w r)) (hrollback : ∀ d notes r, B r → A d notes (.rollback r)) :
    Throughout G guarantee A p d notes := by
  induction p generalizing d notes with
  | stmt rows k ih => exact fun h d' _ _ => ⟨hstmt _ _ _ _, ih d' (hp d')⟩
  | commit w r => exact fun h d' _ _ => hcommit _ _ _ _ hp
  | rollback r => exact fun h d' _ _ => hrollback _ _ _ hp

/-- **The rule for notes.** If an assertion holds throughout every program that is started, it holds of every open session,
with what has been noted for it. -/
theorem throughout_rule (hstart : ∀ s i p, ok s (.start i p) → G s.db → Safe G guarantee p (fun _ => False) s.db)
    (hthrough : ∀ s i p, ok s (.start i p) → G s.db → Throughout G guarantee A p s.db []) {d : D} (hd : G d)
    {w : Watched D ρ R} (hw : Run watch (fun w o => ok w.sys o) (Watched.init d) w) :
    ∀ i p, w.sys.sessions i = some p → Throughout G guarantee A p w.sys.db (w.notes i) := by
  induction hw with
  | refl => intro i p hi; cases hi
  | @tail w hw o ho ih =>
    have hs := run_sys hw
    obtain ⟨hG, hg⟩ := safe_rule hstart hd hs
    have hG' := (safe_rule hstart hd (hs.tail o ho)).1
    intro j q hj
    cases o with
    | start i p =>
      simp only [watch, note, step] at hj ⊢
      cases hi : w.sys.sessions i with
      | some p' =>
        simp only [hi] at hj ⊢
        exact ih j q hj
      | none =>
        simp only [hi, if_true] at hj ⊢
        by_cases hji : j = i
        · subst hji
          simp only [Function.update_self] at hj ⊢
          obtain rfl : p = q := Option.some.inj hj
          exact hthrough w.sys j p ho hG
        · simp only [Function.update_of_ne hji] at hj ⊢
          exact ih j q hj
    | abort i => exact ih j q (Sys.sessions_close hj).2
    | exec i =>
      cases hi : w.sys.sessions i with
      | none =>
        simp only [watch, note, step, hi] at hj ⊢
        exact ih j q hj
      | some p =>
        cases p with
        | stmt rows k =>
          simp only [watch, note, step, hi, next] at hj ⊢
          split_ifs at hj ⊢ with hfree
          · by_cases hji : j = i
            · subst hji
              simp only [Sys.lock, Function.update_self] at hj ⊢
              obtain rfl : k w.sys.db = q := Option.some.inj hj
              have hrest := (ih j _ hi [] w.sys.db rfl hG).2
              simpa using hrest
            · simp only [Sys.lock, Function.update_of_ne hji] at hj ⊢
              exact ih j q hj
          · exact ih j q hj
        | commit wr r =>
          have hc : committing w.sys (.exec i) = some (wr, r) := by simp [committing, hi]
          obtain ⟨L, hchange⟩ := hg _ _ _ hc
          have hnext : (step next w.sys (.exec i)).db = wr w.sys.db := step_db_some hc
          rw [hnext] at hG'
          simp only [watch, note, step, hi, next] at hj ⊢
          exact (ih j q (Sys.sessions_close hj).2).interfere ⟨hG, _, L, hG', hchange, rfl⟩
        | rollback r =>
          simp only [watch, note, step, hi, next] at hj ⊢
          exact ih j q (Sys.sessions_close hj).2

end Throughout

end AtlasRag.Lib.Since
