/-
Facts about lists: those with at most one element of a kind, and those whose elements are related one by one.

Results:
- `eq_of_countP_le_one`, `length_le_one`: at most one element;
- `mapM_eq_some`, `exists_mapM`: the images of all elements;
- `exists_of_mem`: an element has its counterpart;
- `getElem?_set_cases`, `getElem?_snoc_cases`: the elements of a list that has been changed.
-/
import Mathlib

namespace AtlasRag.Lib.Lists

variable {α β : Type}

/-! ## At most one element -/

/-- at most one element of the list meets the predicate: two that do are the same -/
theorem eq_of_countP_le_one {p : α → Bool} {l : List α} (h : l.countP p ≤ 1) {x y : α} (hx : x ∈ l)
    (hy : y ∈ l) (hpx : p x = true) (hpy : p y = true) : x = y := by
  induction l with
  | nil => cases hx
  | cons z l ih =>
    rw [List.countP_cons] at h
    have hrest : ∀ w ∈ l, p w = true → p z = true → False := fun w hw hpw hpz => by
      have hpos : 0 < l.countP p := List.countP_pos_iff.2 ⟨w, hw, hpw⟩
      rw [if_pos hpz] at h
      omega
    rcases List.mem_cons.1 hx with hxz | hxl
    · rcases List.mem_cons.1 hy with hyz | hyl
      · exact hxz.trans hyz.symm
      · exact (hrest y hyl hpy (hxz ▸ hpx)).elim
    · rcases List.mem_cons.1 hy with hyz | hyl
      · exact (hrest x hxl hpx (hyz ▸ hpy)).elim
      · exact ih (Nat.le_of_add_right_le h) hxl hyl

theorem length_le_one {l : List α} (hnodup : l.Nodup) (huniq : ∀ x ∈ l, ∀ y ∈ l, x = y) : l.length ≤ 1 := by
  rcases l with _ | ⟨x, _ | ⟨y, l⟩⟩
  · exact Nat.zero_le 1
  · exact le_refl 1
  · have hxy := huniq x List.mem_cons_self y (List.mem_cons_of_mem _ List.mem_cons_self)
    exact absurd (hxy ▸ List.mem_cons_self) (List.nodup_cons.1 hnodup).1

theorem head?_eq_some_iff {l : List α} (h : l.length ≤ 1) {x : α} : l.head? = some x ↔ x ∈ l := by
  rcases l with _ | ⟨y, _ | ⟨z, l⟩⟩
  · simp
  · simp [eq_comm]
  · simp at h

/-! ## Element by element -/

theorem mapM_eq_some {f : α → Option β} {xs : List α} {ys : List β} :
    xs.mapM f = some ys ↔ List.Forall₂ (fun x y => f x = some y) xs ys := by
  induction xs generalizing ys with
  | nil => simp [eq_comm]
  | cons x xs ih =>
    rw [List.mapM_cons, List.forall₂_cons_left_iff]
    simp only [Option.bind_eq_bind, Option.bind_eq_some_iff, Option.pure_def, Option.some.injEq, ih, @eq_comm _ ys,
      exists_and_left]

theorem exists_forall₂ {R : α → β → Prop} {as : List α} (h : ∀ a ∈ as, ∃ b, R a b) : ∃ bs, List.Forall₂ R as bs := by
  induction as with
  | nil => exact ⟨[], .nil⟩
  | cons a as ih =>
    obtain ⟨b, hb⟩ := h a List.mem_cons_self
    obtain ⟨bs, hbs⟩ := ih fun a' ha' => h a' (List.mem_cons_of_mem a ha')
    exact ⟨b :: bs, .cons hb hbs⟩

theorem exists_mapM {f : α → Option β} {xs : List α} (h : ∀ x ∈ xs, ∃ y, f x = some y) : ∃ ys, xs.mapM f = some ys := by
  obtain ⟨ys, hys⟩ := exists_forall₂ h
  exact ⟨ys, mapM_eq_some.2 hys⟩

theorem exists_of_mem {R : α → β → Prop} {as : List α} {bs : List β} (h : List.Forall₂ R as bs) :
    ∀ a ∈ as, ∃ b ∈ bs, R a b := by
  induction h with
  | nil => simp
  | @cons a b _ _ hab _ ih =>
    intro a' ha'
    rcases List.mem_cons.1 ha' with rfl | ha'
    · exact ⟨b, List.mem_cons_self, hab⟩
    · obtain ⟨b', hb', hab'⟩ := ih a' ha'
      exact ⟨b', List.mem_cons_of_mem b hb', hab'⟩

/-- elements with one counterpart -/
theorem forall₂_join {γ : Type} {R : α → γ → Prop} {S : β → γ → Prop} {as : List α} {bs : List β} {cs : List γ}
    (hR : List.Forall₂ R as cs) (hS : List.Forall₂ S bs cs) :
    List.Forall₂ (fun a b => a ∈ as ∧ b ∈ bs ∧ ∃ c, R a c ∧ S b c) as bs := by
  induction hR generalizing bs with
  | nil =>
    cases hS
    exact .nil
  | cons hac _ ih =>
    cases hS with
    | cons hbc hS =>
      refine .cons ⟨List.mem_cons_self, List.mem_cons_self, _, hac, hbc⟩ ((ih hS).imp fun a b h => ?_)
      exact ⟨List.mem_cons_of_mem _ h.1, List.mem_cons_of_mem _ h.2.1, h.2.2⟩

/-- the counterparts of related elements are the same -/
theorem forall₂_unique {γ : Type} {R : α → γ → Prop} {S : α → β → Prop} {T : β → γ → Prop} {as : List α} {bs : List β}
    {cs cs' : List γ} (hR : List.Forall₂ R as cs) (hS : List.Forall₂ S as bs) (hT : List.Forall₂ T bs cs')
    (h : ∀ a ∈ as, ∀ b ∈ bs, S a b → ∀ c c', R a c → T b c' → c = c') : cs = cs' := by
  induction hR generalizing bs cs' with
  | nil =>
    cases hS
    cases hT
    rfl
  | cons hac _ ih =>
    cases hS with
    | cons hab hS =>
      cases hT with
      | cons hbc hT =>
        rw [h _ List.mem_cons_self _ List.mem_cons_self hab _ _ hac hbc,
          ih hS hT fun a ha b hb => h a (List.mem_cons_of_mem _ ha) b (List.mem_cons_of_mem _ hb)]

/-! ## One element changed -/

theorem getElem?_set_self {l : List α} {i : ℕ} {a : α} (h : l[i]? = some a) (b : α) : (l.set i b)[i]? = some b := by
  obtain ⟨hlt, -⟩ := List.getElem?_eq_some_iff.1 h
  exact List.getElem?_set_self hlt

theorem getElem?_set_cases {l : List α} {i j : ℕ} {a b : α} (h : (l.set i a)[j]? = some b) :
    j = i ∧ b = a ∨ j ≠ i ∧ l[j]? = some b := by
  rw [List.getElem?_set] at h
  split_ifs at h with hij hlt
  · exact .inl ⟨hij.symm, (Option.some.inj h).symm⟩
  · exact .inr ⟨fun hji => hij hji.symm, h⟩

theorem getElem?_snoc_cases {l : List α} {j : ℕ} {a b : α} (h : (l ++ [a])[j]? = some b) :
    j = l.length ∧ b = a ∨ j < l.length ∧ l[j]? = some b := by
  rcases lt_trichotomy j l.length with hlt | rfl | hgt
  · rw [List.getElem?_append_left hlt] at h
    exact .inr ⟨hlt, h⟩
  · rw [List.getElem?_concat_length] at h
    exact .inl ⟨rfl, (Option.some.inj h).symm⟩
  · rw [List.getElem?_eq_none (by simpa using hgt)] at h
    cases h

end AtlasRag.Lib.Lists
