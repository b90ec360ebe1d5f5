/-
Recursive queries over a finite graph: `WITH RECURSIVE r AS (base UNION step)`, where `step` joins the working table with
a list of edges.

The evaluation is the database's own: the base rows are the first result and the first working table; as long as the
working table is not empty, the recursive term runs on it, the rows that are not in the result yet are added to it, and
they are the next working table. `evaluate` carries a fuel argument; `recursiveUnion` shows that it is not needed.

Results:
- `recursiveUnion`: the query ends, on every graph, and yields the rows reachable from a base row;
- `acyclic_append`: a new edge keeps a graph acyclic iff its source cannot be reached from its target;
- `path_iff_new`: where there was no path, there is one iff a new edge is on one.
-/
import Mathlib

namespace AtlasRag.Lib.Closure

open Relation

variable {α : Type*}

/-- the relation that a list of edges holds -/
def Edge (edges : List (α × α)) (x y : α) : Prop := (x, y) ∈ edges

/-- `y` can be reached from `x`, in any number of steps -/
def Reaches (edges : List (α × α)) : α → α → Prop := ReflTransGen (Edge edges)

theorem Reaches.mono {edges edges' : List (α × α)} (h : edges ⊆ edges') {x y : α} (hxy : Reaches edges x y) :
    Reaches edges' x y := ReflTransGen.mono (fun _ _ he => h he) _ _ hxy

/-! ## Evaluation -/

section Evaluation

variable [DecidableEq α]

/-- the recursive term: the targets of the edges that leave the working table -/
def image (edges : List (α × α)) (work : Finset α) : Finset α := ((edges.filter (·.1 ∈ work)).map (·.2)).toFinset

theorem mem_image {edges : List (α × α)} {work : Finset α} {y : α} :
    y ∈ image edges work ↔ ∃ x ∈ work, Edge edges x y := by
  simp only [image, List.mem_toFinset, List.mem_map, List.mem_filter, decide_eq_true_eq]
  constructor
  · rintro ⟨e, ⟨he, hx⟩, rfl⟩; exact ⟨e.1, hx, he⟩
  · rintro ⟨x, hx, he⟩; exact ⟨(x, y), ⟨he, hx⟩, rfl⟩

/-- the loop on the working table; `none`: out of fuel -/
def evaluate (edges : List (α × α)) : ℕ → Finset α → Finset α → Option (Finset α)
  | 0, _, _ => none
  | n + 1, work, result =>
    if work = ∅ then some result
    else evaluate edges n (image edges work \ result) (result ∪ image edges work)

/-- **What the loop yields**: from a working table inside the result, whose other rows have been expanded, it adds what
can be reached and nothing else. -/
theorem evaluate_sound {edges : List (α × α)} {n : ℕ} {work result S : Finset α} (h : evaluate edges n work result = some S)
    (hwork : work ⊆ result) (hexp : ∀ x ∈ result, x ∉ work → ∀ y, Edge edges x y → y ∈ result) (y : α) :
    y ∈ S ↔ ∃ x ∈ result, Reaches edges x y := by
  induction n generalizing work result with
  | zero => cases h
  | succ n ih =>
    unfold evaluate at h
    split_ifs at h with hempty
    · -- the working table is empty: every row has been expanded
      obtain rfl := Option.some.inj h
      refine ⟨fun hy => ⟨y, hy, .refl⟩, ?_⟩
      rintro ⟨x, hx, hxy⟩
      clear ih
      induction hxy with
      | refl => exact hx
      | tail _ he ihy => exact hexp _ ihy (hempty ▸ Finset.notMem_empty _) _ he
    · have hexp' : ∀ x ∈ result ∪ image edges work, x ∉ image edges work \ result → ∀ z, Edge edges x z →
          z ∈ result ∪ image edges work := by
        intro x hx hnew z he
        have hxr : x ∈ result := by
          by_contra hxr
          exact hnew (Finset.mem_sdiff.2 ⟨(Finset.mem_union.1 hx).resolve_left hxr, hxr⟩)
        by_cases hxw : x ∈ work
        · exact Finset.mem_union_right _ (mem_image.2 ⟨x, hxw, he⟩)
        · exact Finset.mem_union_left _ (hexp x hxr hxw z he)
      have hsub : image edges work \ result ⊆ result ∪ image edges work := fun x hx =>
        Finset.mem_union_right _ (Finset.mem_sdiff.1 hx).1
      rw [ih h hsub hexp']
      constructor
      · rintro ⟨x, hx, hxy⟩
        rcases Finset.mem_union.1 hx with hx | hx
        · exact ⟨x, hx, hxy⟩
        · obtain ⟨w, hw, he⟩ := mem_image.1 hx
          exact ⟨w, hwork hw, ReflTransGen.head he hxy⟩
      · rintro ⟨x, hx, hxy⟩
        exact ⟨x, Finset.mem_union_left _ hx, hxy⟩

/-- every round adds a target of an edge, so there are at most as many as there are targets left -/
theorem evaluate_total (edges : List (α × α)) {n : ℕ} {work result : Finset α}
    (hn : ((edges.map (·.2)).toFinset \ result).card + 2 ≤ n) : ∃ S, evaluate edges n work result = some S := by
  induction n generalizing work result with
  | zero => omega
  | succ n ih =>
    unfold evaluate
    split_ifs
    · exact ⟨_, rfl⟩
    · by_cases hnew : image edges work \ result = ∅
      · obtain ⟨k, rfl⟩ : ∃ k, n = k + 1 := ⟨n - 1, by omega⟩
        exact ⟨result ∪ image edges work, by unfold evaluate; rw [if_pos hnew]⟩
      · refine ih ?_
        have hsub : (edges.map (·.2)).toFinset \ (result ∪ image edges work) ⊂ (edges.map (·.2)).toFinset \ result := by
          obtain ⟨y, hy⟩ := Finset.nonempty_iff_ne_empty.2 hnew
          obtain ⟨hyi, hyr⟩ := Finset.mem_sdiff.1 hy
          have hyt : y ∈ (edges.map (·.2)).toFinset := by
            obtain ⟨x, -, he⟩ := mem_image.1 hyi
            exact List.mem_toFinset.2 (List.mem_map.2 ⟨(x, y), he, rfl⟩)
          refine Finset.ssubset_iff_subset_ne.2 ⟨Finset.sdiff_subset_sdiff le_rfl Finset.subset_union_left, fun heq => ?_⟩
          have hy' : y ∈ (edges.map (·.2)).toFinset \ (result ∪ image edges work) :=
            heq ▸ Finset.mem_sdiff.2 ⟨hyt, hyr⟩
          exact (Finset.mem_sdiff.1 hy').2 (Finset.mem_union_right _ hyi)
        have hlt := Finset.card_lt_card hsub
        omega

/-- **The recursive query**: with any fuel from this bound on it ends with the rows that a base row reaches. -/
theorem recursiveUnion (edges : List (α × α)) (base : Finset α) {n : ℕ} (hn : edges.length + 2 ≤ n) :
    ∃ S, evaluate edges n base base = some S ∧ ∀ y, y ∈ S ↔ ∃ x ∈ base, Reaches edges x y := by
  have hcard : ((edges.map (·.2)).toFinset \ base).card ≤ edges.length :=
    calc ((edges.map (·.2)).toFinset \ base).card
        ≤ (edges.map (·.2)).toFinset.card := Finset.card_le_card Finset.sdiff_subset
      _ ≤ (edges.map (·.2)).length := List.toFinset_card_le _
      _ = edges.length := List.length_map _
  have hfuel : ((edges.map (·.2)).toFinset \ base).card + 2 ≤ n := by omega
  obtain ⟨S, hS⟩ : ∃ S, evaluate edges n base base = some S := evaluate_total edges hfuel
  exact ⟨S, hS, evaluate_sound hS le_rfl fun x hx hnx => absurd hx hnx⟩

end Evaluation

/-! ## Acyclic graphs -/

def Acyclic (edges : List (α × α)) : Prop := ∀ x, ¬ TransGen (Edge edges) x x

theorem Acyclic.subset {edges edges' : List (α × α)} (h : Acyclic edges') (hs : edges ⊆ edges') : Acyclic edges :=
  fun x hx => h x (TransGen.mono (fun _ _ he => hs he) _ _ hx)

/-- a graph whose edges all go upwards -/
theorem acyclic_of_rank {edges : List (α × α)} (rank : α → ℕ) (h : ∀ e ∈ edges, rank e.1 < rank e.2) : Acyclic edges := by
  intro x hx
  have hlt : ∀ y, TransGen (Edge edges) x y → rank x < rank y := by
    intro y hy
    induction hy with
    | single he => exact h _ he
    | tail _ he ih => exact ih.trans (h _ he)
  exact lt_irrefl _ (hlt x hx)

/-- a path with the new edge uses it or not -/
theorem Reaches.append {edges : List (α × α)} {g m x y : α} (h : Reaches (edges ++ [(g, m)]) x y) :
    Reaches edges x y ∨ (Reaches edges x g ∧ Reaches edges m y) := by
  induction h with
  | refl => exact .inl .refl
  | @tail b c hxb hbc ih =>
    rcases List.mem_append.1 hbc with hbc | hbc
    · rcases ih with ih | ⟨ihg, ihm⟩
      · exact .inl (ih.tail hbc)
      · exact .inr ⟨ihg, ihm.tail hbc⟩
    · obtain ⟨rfl, rfl⟩ := Prod.mk.inj (List.mem_singleton.1 hbc)
      rcases ih with ih | ⟨ihg, -⟩
      · exact .inr ⟨ih, .refl⟩
      · exact .inr ⟨ihg, .refl⟩

/-- **A new edge closes a cycle** iff its target reaches its source already. -/
theorem acyclic_append {edges : List (α × α)} {g m : α} :
    Acyclic (edges ++ [(g, m)]) ↔ Acyclic edges ∧ ¬ Reaches edges m g := by
  have hnew : Edge (edges ++ [(g, m)]) g m := List.mem_append_right _ (List.mem_singleton_self _)
  constructor
  · intro h
    refine ⟨h.subset (List.subset_append_left _ _), fun hmg => h g ?_⟩
    exact TransGen.head' hnew (hmg.mono (List.subset_append_left _ _))
  · rintro ⟨h, hmg⟩ x hx
    obtain ⟨b, hxb, hbx⟩ := TransGen.tail'_iff.1 hx
    rcases List.mem_append.1 hbx with hbx | hbx
    · rcases Reaches.append hxb with hxb | ⟨hxg, hmb⟩
      · exact h x (TransGen.tail' hxb hbx)
      · exact hmg ((hmb.tail hbx).trans hxg)
    · obtain ⟨rfl, rfl⟩ := Prod.mk.inj (List.mem_singleton.1 hbx)
      rcases Reaches.append hxb with hxb | ⟨hxg, -⟩
      · exact hmg hxb
      · exact hmg hxg

/-! ## New paths -/

/-- the edge is on a path from `x` to `y` -/
def OnPath (edges : List (α × α)) (x y : α) (e : α × α) : Prop := Reaches edges x e.1 ∧ e ∈ edges ∧ Reaches edges e.2 y

/-- **A new path** has a new edge on it. -/
theorem path_iff_new {edges edges' : List (α × α)} {new : α × α → Prop} (hnew : ∀ e ∈ edges', e ∈ edges ∨ new e) {x y : α}
    (hnone : ¬ TransGen (Edge edges) x y) : TransGen (Edge edges') x y ↔ ∃ e, new e ∧ OnPath edges' x y e := by
  constructor
  · intro h
    have hpath : ∀ z, TransGen (Edge edges') x z → TransGen (Edge edges) x z ∨ ∃ e, new e ∧ OnPath edges' x z e := by
      intro z hz
      induction hz with
      | single he =>
        rcases hnew _ he with hold | hn
        · exact .inl (.single hold)
        · exact .inr ⟨_, hn, .refl, he, .refl⟩
      | @tail b c hxb he ih =>
        rcases ih with ih | ⟨e, hn, hxe, hmem, heb⟩
        · rcases hnew _ he with hold | hn
          · exact .inl (ih.tail hold)
          · exact .inr ⟨_, hn, hxb.to_reflTransGen, he, .refl⟩
        · exact .inr ⟨e, hn, hxe, hmem, heb.tail he⟩
    exact (hpath y h).resolve_left hnone
  · rintro ⟨e, -, hxe, hmem, hey⟩
    have hedge : Edge edges' e.1 e.2 := hmem
    exact TransGen.trans_right hxe (TransGen.head' hedge hey)

end AtlasRag.Lib.Closure
