import Mathlib

/-!
# Stable priority queues

A queue is the list of its items in the order in which they were pushed, each with its class.  The next item is the
earliest one of the highest class (`Pop`).  Kept class by class (`waiting`), a push appends to one class and a pop
takes the first item of the highest class that has one (`exists_pop`).
-/

namespace StableQueue

variable {κ α : Type} [LinearOrder κ]

/-- What remains of a class, the earliest item first. -/
def waiting (s : List (κ × α)) (k : κ) : List α := (s.filter fun x => x.1 = k).map (·.2)

/-- The earliest item of the highest class leaves. -/
inductive Pop : List (κ × α) → Option α → List (κ × α) → Prop
  | nothing : Pop [] none []
  | next {before after : List (κ × α)} {k : κ} {a : α} (hhighest : ∀ x ∈ before ++ after, x.1 ≤ k)
      (hearliest : ∀ x ∈ before, x.1 ≠ k) : Pop (before ++ (k, a) :: after) (some a) (before ++ after)

section Waiting

variable {s before after : List (κ × α)} {k k' : κ} {a : α} {rest : List α}

@[simp] theorem waiting_nil : waiting ([] : List (κ × α)) k = [] := rfl

@[simp] theorem waiting_append : waiting (before ++ after) k = waiting before k ++ waiting after k := by
  simp [waiting]

theorem waiting_cons : waiting ((k, a) :: s) k' = if k = k' then a :: waiting s k' else waiting s k' := by
  by_cases h : k = k'
  · simp [waiting, h]
  · simp [waiting, h]

theorem mem_waiting : a ∈ waiting s k ↔ (k, a) ∈ s := by
  rw [waiting, List.mem_map]
  constructor
  · rintro ⟨⟨k', b⟩, hmem, rfl⟩
    rw [List.mem_filter, decide_eq_true_eq] at hmem
    rw [← hmem.2]
    exact hmem.1
  · intro hmem
    exact ⟨(k, a), List.mem_filter.2 ⟨hmem, by simp⟩, rfl⟩

theorem waiting_eq_nil : waiting s k = [] ↔ ∀ x ∈ s, x.1 ≠ k := by
  rw [waiting, List.map_eq_nil_iff, List.filter_eq_nil_iff]
  simp

theorem eq_nil_of_waiting (h : ∀ k, waiting s k = []) : s = [] := by
  rw [List.eq_nil_iff_forall_not_mem]
  intro x hx
  exact waiting_eq_nil.1 (h x.1) x hx rfl

/-- The items of all classes together. -/
theorem length_eq_sum [Fintype κ] (s : List (κ × α)) : s.length = ∑ k, (waiting s k).length := by
  induction s with
  | nil => simp
  | cons x s ih =>
    obtain ⟨k, a⟩ := x
    have hone : ∀ k', (waiting ((k, a) :: s) k').length = (waiting s k').length + if k = k' then 1 else 0 := by
      intro k'
      rw [waiting_cons]
      split <;> simp
    simp only [hone, Finset.sum_add_distrib, Finset.sum_ite_eq, Finset.mem_univ, if_true, List.length_cons, ih]

/-- The first item of the highest class that is not empty is popped, and the other classes stay. -/
theorem exists_pop (hfirst : waiting s k = a :: rest) (hhigher : ∀ k', k < k' → waiting s k' = []) :
    ∃ s', Pop s (some a) s' ∧ ∀ k', waiting s' k' = if k = k' then rest else waiting s k' := by
  -- the items before the first one of class `k` are of other classes
  have hsplit : ∃ before after, s = before ++ (k, a) :: after ∧ (∀ x ∈ before, x.1 ≠ k) ∧
      waiting after k = rest := by
    clear hhigher
    induction s with
    | nil => cases hfirst
    | cons x s ih =>
      obtain ⟨k', b⟩ := x
      rw [waiting_cons] at hfirst
      by_cases hk : k' = k
      · subst hk
        rw [if_pos rfl] at hfirst
        cases hfirst
        exact ⟨[], s, rfl, by simp, rfl⟩
      · rw [if_neg hk] at hfirst
        obtain ⟨before, after, rfl, hbefore, hrest⟩ := ih hfirst
        exact ⟨(k', b) :: before, after, rfl, by simpa [hk] using hbefore, hrest⟩
  obtain ⟨before, after, rfl, hbefore, hrest⟩ := hsplit
  refine ⟨before ++ after, .next ?_ hbefore, ?_⟩
  · intro x hx
    by_contra hlt
    refine waiting_eq_nil.1 (hhigher x.1 (not_le.1 hlt)) x ?_ rfl
    rcases List.mem_append.1 hx with hx | hx
    · exact List.mem_append_left _ hx
    · exact List.mem_append_right _ (List.mem_cons_of_mem _ hx)
  · intro k'
    rw [waiting_append, waiting_append, waiting_cons]
    by_cases hk : k = k'
    · subst hk
      rw [if_pos rfl, waiting_eq_nil.2 hbefore, List.nil_append, hrest]
    · rw [if_neg hk, if_neg hk]

end Waiting

/-- A pop takes nothing else away. -/
theorem Pop.perm {s s' : List (κ × α)} {o : Option α} (h : Pop s o s') :
    (s.map (·.2)).Perm (o.toList ++ s'.map (·.2)) := by
  cases h with
  | nothing => exact .refl _
  | next _ _ =>
    simp only [List.map_append, List.map_cons, Option.toList_some]
    exact List.perm_middle

end StableQueue
