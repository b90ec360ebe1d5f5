/-
Computations that change a state, and return or raise.

`Meets P x Q R`: from a state with `P`, the computation `x` returns a value with `Q` or raises an error with `R`. There is a
rule for each construct, among them `try … finally` (`ensuring`) and a block with locals of its own (`withLocals`).
`Keeps I x`: the computation keeps `I`, whatever it ends with.
-/
import Mathlib

namespace AtlasRag.Lib.Effect

variable {S T E α β : Type}

def Eff (S E α : Type) : Type := S → Except E α × S

instance : Monad (Eff S E) where
  pure a := fun s => (.ok a, s)
  bind x f := fun s =>
    match x s with
    | (.ok a, s') => f a s'
    | (.error e, s') => (.error e, s')

def fail (e : E) : Eff S E α := fun s => (.error e, s)

def get : Eff S E S := fun s => (.ok s, s)

def modify (f : S → S) : Eff S E Unit := fun s => (.ok (), f s)

/-- `try: x finally: fin`; an error of `fin` takes the place of what `x` ended with -/
def ensuring (x : Eff S E α) (fin : Eff S E Unit) : Eff S E α := fun s =>
  match fin (x s).2 with
  | (.ok (), s') => ((x s).1, s')
  | (.error e, s') => (.error e, s')

/-- a block with locals -/
def withLocals (locals : T) (x : Eff (S × T) E α) : Eff S E α := fun s => ((x (s, locals)).1, (x (s, locals)).2.1)

theorem pure_run (a : α) (s : S) : (pure a : Eff S E α) s = (.ok a, s) := rfl

theorem fail_run (e : E) (s : S) : (fail e : Eff S E α) s = (.error e, s) := rfl

theorem get_run (s : S) : (get : Eff S E S) s = (.ok s, s) := rfl

theorem modify_run (f : S → S) (s : S) : (modify f : Eff S E Unit) s = (.ok (), f s) := rfl

theorem bind_ok {x : Eff S E α} {f : α → Eff S E β} {s s' : S} {a : α} (h : x s = (.ok a, s')) : (x >>= f) s = f a s' := by
  show (match x s with
    | (.ok a, s') => f a s'
    | (.error e, s') => (.error e, s')) = f a s'
  rw [h]

theorem bind_error {x : Eff S E α} {f : α → Eff S E β} {s s' : S} {e : E} (h : x s = (.error e, s')) :
    (x >>= f) s = (.error e, s') := by
  show (match x s with
    | (.ok a, s') => f a s'
    | (.error e, s') => (.error e, s')) = (.error e, s')
  rw [h]

/-- a computation that returns has gone through both of its parts -/
theorem eff_bind_eq_ok {x : Eff S E α} {f : α → Eff S E β} {s : S} {b : β} (h : ((x >>= f) s).1 = .ok b) :
    ∃ a s', x s = (.ok a, s') ∧ (f a s').1 = .ok b := by
  rcases hx : x s with ⟨e | a, s'⟩
  · rw [bind_error hx] at h
    cases h
  · rw [bind_ok hx] at h
    exact ⟨a, s', rfl, h⟩

theorem bind_eq_ok {x : Except E α} {f : α → Except E β} {b : β} (h : (x >>= f) = .ok b) : ∃ a, x = .ok a ∧ f a = .ok b := by
  cases x with
  | error e => cases h
  | ok a => exact ⟨a, rfl, h⟩

/-- from a state with `P`, the computation returns in one with `Q` or raises in one with `R` -/
def Meets (P : S → Prop) (x : Eff S E α) (Q : α → S → Prop) (R : E → S → Prop) : Prop :=
  ∀ s, P s → match x s with
    | (.ok a, s') => Q a s'
    | (.error e, s') => R e s'

variable {P P' : S → Prop} {Q Q' : α → S → Prop} {Q'' : β → S → Prop} {R R' : E → S → Prop}

theorem Meets.weaken {x : Eff S E α} (h : Meets P x Q R) (hP : ∀ s, P' s → P s) (hQ : ∀ a s, Q a s → Q' a s)
    (hR : ∀ e s, R e s → R' e s) : Meets P' x Q' R' := by
  intro s hs
  have hx := h s (hP s hs)
  revert hx
  rcases x s with ⟨e | a, s'⟩
  · exact hR e s'
  · exact hQ a s'

theorem meets_pure {a : α} (h : ∀ s, P s → Q a s) : Meets P (pure a : Eff S E α) Q R := h

theorem meets_fail {e : E} (h : ∀ s, P s → R e s) : Meets P (fail e : Eff S E α) Q R := h

theorem meets_modify {f : S → S} {Q : Unit → S → Prop} (h : ∀ s, P s → Q () (f s)) :
    Meets P (modify f : Eff S E Unit) Q R := h

theorem meets_bind {x : Eff S E α} {f : α → Eff S E β} (hx : Meets P x Q R) (hf : ∀ a, Meets (Q a) (f a) Q'' R) :
    Meets P (x >>= f) Q'' R := by
  intro s hs
  have hxs := hx s hs
  show match (match x s with
    | (.ok a, s') => f a s'
    | (.error e, s') => (.error e, s')) with
    | (.ok b, s') => Q'' b s'
    | (.error e, s') => R e s'
  revert hxs
  rcases x s with ⟨e | a, s'⟩
  · exact id
  · exact hf a s'

/-- the state is read -/
theorem meets_get {f : S → Eff S E β} (h : ∀ s₀, Meets (fun s => P s ∧ s = s₀) (f s₀) Q'' R) :
    Meets P (get >>= f) Q'' R := fun s hs => h s s ⟨hs, rfl⟩

/-- **`finally`**: the last block runs in either case, and keeps the outcome unless it raises itself. -/
theorem meets_ensuring {x : Eff S E α} {fin : Eff S E Unit} (hx : Meets P x Q R)
    (hret : ∀ a, Meets (Q a) fin (fun _ => Q' a) R') (hexc : ∀ e, Meets (R e) fin (fun _ => R' e) R') :
    Meets P (ensuring x fin) Q' R' := by
  intro s hs
  have hxs := hx s hs
  rw [ensuring]
  revert hxs
  rcases x s with ⟨e | a, s'⟩
  · intro hR
    have hfin := hexc e s' hR
    revert hfin
    rcases fin s' with ⟨e' | ⟨⟩, s''⟩ <;> exact id
  · intro hQ
    have hfin := hret a s' hQ
    revert hfin
    rcases fin s' with ⟨e' | ⟨⟩, s''⟩ <;> exact id

theorem meets_withLocals {locals : T} {x : Eff (S × T) E α}
    (h : Meets (fun s => P s.1 ∧ s.2 = locals) x (fun a s => Q a s.1) fun e s => R e s.1) :
    Meets P (withLocals locals x) Q R := by
  intro s hs
  have hx := h (s, locals) ⟨hs, rfl⟩
  rw [withLocals]
  revert hx
  rcases x (s, locals) with ⟨e | a, s'⟩ <;> exact id

/-- one of two cases, as a condition decides -/
theorem meets_ite {c : Prop} [Decidable c] {x y : Eff S E α} (hx : c → Meets P x Q R) (hy : ¬ c → Meets P y Q R) :
    Meets P (if c then x else y) Q R := by
  split_ifs with hc
  · exact hx hc
  · exact hy hc

/-! ## Invariants -/

def Keeps (I : S → Prop) (x : Eff S E α) : Prop := Meets I x (fun _ => I) fun _ => I

variable {I : S → Prop}

theorem keeps_pure (a : α) : Keeps I (pure a : Eff S E α) := fun _ hs => hs

theorem keeps_fail (e : E) : Keeps I (fail e : Eff S E α) := fun _ hs => hs

theorem keeps_get : Keeps I (get : Eff S E S) := fun _ hs => hs

theorem keeps_modify {f : S → S} (h : ∀ s, I s → I (f s)) : Keeps I (modify f : Eff S E Unit) := h

theorem keeps_bind {x : Eff S E α} {f : α → Eff S E β} (hx : Keeps I x) (hf : ∀ a, Keeps I (f a)) : Keeps I (x >>= f) :=
  meets_bind hx hf

theorem keeps_ite {c : Prop} [Decidable c] {x y : Eff S E α} (hx : Keeps I x) (hy : Keeps I y) :
    Keeps I (if c then x else y) := meets_ite (fun _ => hx) fun _ => hy

theorem keeps_ensuring {x : Eff S E α} {fin : Eff S E Unit} (hx : Keeps I x) (hfin : Keeps I fin) :
    Keeps I (ensuring x fin) := meets_ensuring hx (fun _ => hfin) fun _ => hfin

theorem keeps_withLocals {locals : T} {x : Eff (S × T) E α} (h : Keeps (fun s => I s.1) x) : Keeps I (withLocals locals x) :=
  meets_withLocals (h.weaken (fun _ hs => hs.1) (fun _ _ hs => hs) fun _ _ hs => hs)

/-- what is kept holds at the end -/
theorem Keeps.run {x : Eff S E α} (h : Keeps I x) {s : S} (hs : I s) : I (x s).2 := by
  have hx := h s hs
  revert hx
  rcases x s with ⟨e | a, s'⟩ <;> exact id

end AtlasRag.Lib.Effect
