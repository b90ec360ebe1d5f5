/-
Texts that can be read off from the front: a sequence of pieces, with separators between them and a mark at its end, can be
taken apart where its pieces can be told from what follows them.

Result:
- `sequence_inj`: the pieces, and what follows the sequence.
-/
import Mathlib

namespace AtlasRag.Lib.Codes

variable {α : Type} {stop : List α → Prop} {sep close : α} {r r' x y : List α} {xs ys : List (List α)}

/-- where a text begins with `x` as well as with `y`, each before a stop, the two are the same -/
def Apart (stop : List α → Prop) (x y : List α) : Prop := ∀ r r', stop r → stop r' → x ++ r = y ++ r' → x = y

/-- the pieces after the first, and the end -/
def rest (sep close : α) : List (List α) → List α
  | [] => [close]
  | x :: xs => sep :: (x ++ rest sep close xs)

theorem intercalate_rest (sep close : α) (x : List α) (xs : List (List α)) :
    [sep].intercalate (x :: xs) ++ [close] = x ++ rest sep close xs := by
  induction xs generalizing x with
  | nil => simp [List.intercalate, rest]
  | cons y xs ih =>
    have hcons : [sep].intercalate (x :: y :: xs) = x ++ ([sep] ++ [sep].intercalate (y :: xs)) := by
      simp [List.intercalate, List.intersperse]
    rw [hcons, rest, List.append_assoc, List.append_assoc, ih]
    rfl

theorem stop_rest (hsep : ∀ r, stop (sep :: r)) (hclose : ∀ r, stop (close :: r)) (xs : List (List α)) (r : List α) :
    stop (rest sep close xs ++ r) := by
  cases xs with
  | nil => exact hclose r
  | cons x xs => exact hsep _

/-- one piece, and what is left -/
theorem piece_inj (hsep : ∀ r, stop (sep :: r)) (hclose : ∀ r, stop (close :: r)) (hxy : Apart stop x y)
    (h : x ++ (rest sep close xs ++ r) = y ++ (rest sep close ys ++ r')) :
    x = y ∧ rest sep close xs ++ r = rest sep close ys ++ r' := by
  obtain rfl := hxy _ _ (stop_rest hsep hclose xs r) (stop_rest hsep hclose ys r') h
  exact ⟨rfl, List.append_cancel_left h⟩

theorem rest_inj (hne : sep ≠ close) (hsep : ∀ r, stop (sep :: r)) (hclose : ∀ r, stop (close :: r))
    (hxy : ∀ x ∈ xs, ∀ y ∈ ys, Apart stop x y) (h : rest sep close xs ++ r = rest sep close ys ++ r') : xs = ys ∧ r = r' := by
  induction xs generalizing ys with
  | nil =>
    cases ys with
    | nil => exact ⟨rfl, (List.cons.inj h).2⟩
    | cons y ys => exact absurd (List.cons.inj h).1.symm hne
  | cons x xs ih =>
    cases ys with
    | nil => exact absurd (List.cons.inj h).1 hne
    | cons y ys =>
      have htail : x ++ rest sep close xs ++ r = y ++ rest sep close ys ++ r' := (List.cons.inj h).2
      rw [List.append_assoc, List.append_assoc] at htail
      obtain ⟨rfl, hrest⟩ := piece_inj hsep hclose (hxy x List.mem_cons_self y List.mem_cons_self) htail
      obtain ⟨rfl, hr⟩ := ih (fun x' hx' y' hy' => hxy x' (List.mem_cons_of_mem _ hx') y' (List.mem_cons_of_mem _ hy')) hrest
      exact ⟨rfl, hr⟩

/-- the piece does not begin with the mark of the end -/
def Opens (close : α) (x : List α) : Prop := ∃ c t, x = c :: t ∧ c ≠ close

/-- The code of a sequence determines its elements, if these are told apart where they stop. -/
theorem sequence_inj (hne : sep ≠ close) (hsep : ∀ r, stop (sep :: r)) (hclose : ∀ r, stop (close :: r))
    (hxs : ∀ x ∈ xs, Opens close x) (hys : ∀ y ∈ ys, Opens close y) (hxy : ∀ x ∈ xs, ∀ y ∈ ys, Apart stop x y)
    (h : [sep].intercalate xs ++ [close] ++ r = [sep].intercalate ys ++ [close] ++ r') : xs = ys ∧ r = r' := by
  cases xs with
  | nil =>
    cases ys with
    | nil => exact ⟨rfl, List.append_cancel_left h⟩
    | cons y ys =>
      obtain ⟨c, t, rfl, hc⟩ := hys y List.mem_cons_self
      rw [intercalate_rest] at h
      exact absurd (List.cons.inj h).1.symm hc
  | cons x xs =>
    cases ys with
    | nil =>
      obtain ⟨c, t, rfl, hc⟩ := hxs x List.mem_cons_self
      rw [intercalate_rest] at h
      exact absurd (List.cons.inj h).1 hc
    | cons y ys =>
      rw [intercalate_rest, intercalate_rest, List.append_assoc, List.append_assoc] at h
      obtain ⟨rfl, hrest⟩ := piece_inj hsep hclose (hxy x List.mem_cons_self y List.mem_cons_self) h
      obtain ⟨rfl, hr⟩ := rest_inj hne hsep hclose
        (fun x' hx' y' hy' => hxy x' (List.mem_cons_of_mem _ hx') y' (List.mem_cons_of_mem _ hy')) hrest
      exact ⟨rfl, hr⟩

end AtlasRag.Lib.Codes
