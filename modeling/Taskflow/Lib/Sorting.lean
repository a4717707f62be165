import Mathlib

/-!
# `std::sort`

The standard library promises a sorted permutation and nothing about elements that compare equal, so code that
sorts is modelled with any function that keeps this promise (`StdSort`).  A stable sort is one of them
(`StdSort.stable`).
-/

/-- A sorting function, for comparisons that are strict weak orders. -/
structure StdSort where
  sort : {α : Type} → (α → α → Bool) → List α → List α
  perm : ∀ {α : Type} (lt : α → α → Bool) (l : List α), (sort lt l).Perm l
  sorted : ∀ {α : Type} (lt : α → α → Bool) (l : List α),
    (∀ a b, lt a b = true → lt b a = false) → (∀ a b c, lt a b = false → lt b c = false →
      lt a c = false) →
      (sort lt l).Pairwise fun a b => lt b a = false

namespace StdSort

variable {α : Type} (s : StdSort) {lt : α → α → Bool} {l : List α}

theorem mem_sort {a : α} : a ∈ s.sort lt l ↔ a ∈ l := (s.perm lt l).mem_iff

theorem sort_ne_nil (h : l ≠ []) : s.sort lt l ≠ [] := by
  intro hnil
  have hperm := s.perm lt l
  rw [hnil] at hperm
  exact h hperm.symm.eq_nil

/-- A stable sort. -/
def stable : StdSort where
  sort lt l := l.mergeSort fun a b => !lt b a
  perm _ l := List.mergeSort_perm l _
  sorted lt l hasymm htrans := by
    have hpair : (l.mergeSort fun a b => !lt b a).Pairwise fun a b => (!lt b a) = true := List.pairwise_mergeSort
      (fun a b c hab hbc => by
        simp only [Bool.not_eq_true'] at *
        exact htrans c b a hbc hab)
      (fun a b => by
        simp only [Bool.or_eq_true, Bool.not_eq_true']
        cases hab : lt b a with
        | false => exact Or.inl rfl
        | true => exact Or.inr (hasymm b a hab)) l
    exact hpair.imp fun h => by simpa using h

end StdSort
