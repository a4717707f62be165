import Mathlib

/-!
# Positions on a ring

Points at positions below `N` on a ring of circumference `N`.  The nearest point clockwise of a start is the one at
the least `clockwise` distance.  In a list sorted by position it is the first point at or past the start, or the
first point at all (`successor_le`).  A nearest point stays nearest when another point leaves (`Nearest.diff`).
-/

namespace HashRing

variable {α : Type}

/-- How far it is clockwise from `start` to `position`. -/
def clockwise (N start position : Nat) : Nat := (position + (N - start)) % N

section Distance

variable {N start p q : Nat}

theorem clockwise_of_le (hp : p < N) (h : start ≤ p) : clockwise N start p = p - start := by
  have hsum : p + (N - start) = p - start + N := by omega
  rw [clockwise, hsum, Nat.add_mod_right, Nat.mod_eq_of_lt (by omega)]

theorem clockwise_of_lt (hstart : start < N) (h : p < start) : clockwise N start p = p + (N - start) := by
  rw [clockwise, Nat.mod_eq_of_lt (by omega)]

theorem clockwise_inj (hstart : start < N) (hp : p < N) (hq : q < N)
    (h : clockwise N start p = clockwise N start q) :
    p = q := by
  by_cases hlp : start ≤ p
  · rw [clockwise_of_le hp hlp] at h
    by_cases hlq : start ≤ q
    · rw [clockwise_of_le hq hlq] at h
      omega
    · rw [clockwise_of_lt hstart (by omega)] at h
      omega
  · rw [clockwise_of_lt hstart (by omega)] at h
    by_cases hlq : start ≤ q
    · rw [clockwise_of_le hq hlq] at h
      omega
    · rw [clockwise_of_lt hstart (by omega)] at h
      omega

end Distance

/-- The first point of the ring at or past the start, or else the first point. -/
def successor (start : Nat) (position : α → Nat) (ring : List α) : Option α :=
  (ring.find? fun a => start ≤ position a).or ring.head?

section Successor

variable {N start : Nat} {position : α → Nat} {ring : List α} {a : α}

theorem successor_mem (h : successor start position ring = some a) : a ∈ ring := by
  unfold successor at h
  cases hfind : ring.find? fun a => start ≤ position a with
  | some b =>
    rw [hfind] at h
    cases h
    exact List.mem_of_find?_eq_some hfind
  | none =>
    rw [hfind] at h
    exact List.mem_of_head? h

/-- On a sorted ring no point is nearer than the successor. -/
theorem successor_le (hsorted : ring.Pairwise fun a b => position a ≤ position b)
    (hrange : ∀ a ∈ ring, position a < N) (hstart : start < N) (h : successor start position ring = some a) {b : α}
    (hb : b ∈ ring) : clockwise N start (position a) ≤ clockwise N start (position b) := by
  have ha := hrange a (successor_mem h)
  unfold successor at h
  cases hfind : ring.find? fun a => start ≤ position a with
  | some c =>
    rw [hfind] at h
    cases h
    obtain ⟨hpast, before, after, rfl, hbefore⟩ := List.find?_eq_some_iff_append.1 hfind
    simp only [decide_eq_true_eq] at hpast
    rw [clockwise_of_le ha hpast]
    by_cases hb' : start ≤ position b
    · rw [clockwise_of_le (hrange b hb) hb']
      -- the points before the successor lie before the start
      have hle : position a ≤ position b := by
        rcases List.mem_append.1 hb with hfirst | hlast
        · have hnot := hbefore b hfirst
          simp only [Bool.not_eq_eq_eq_not, Bool.not_true, decide_eq_false_iff_not] at hnot
          exact absurd hb' hnot
        · rcases List.mem_cons.1 hlast with rfl | hlater
          · exact le_refl _
          · exact List.rel_of_pairwise_cons (List.pairwise_append.1 hsorted).2.1 hlater
      omega
    · rw [clockwise_of_lt hstart (by omega)]
      omega
  | none =>
    rw [hfind] at h
    have hnone := List.find?_eq_none.1 hfind
    simp only [decide_eq_true_eq] at hnone
    have ha' := hnone a (List.mem_of_head? h)
    have hb' := hnone b hb
    rw [clockwise_of_lt hstart (by omega), clockwise_of_lt hstart (by omega)]
    -- the first point of a sorted list has the least position
    have hle : position a ≤ position b := by
      obtain ⟨rest, rfl⟩ := List.head?_eq_some_iff.1 h
      rcases List.mem_cons.1 hb with rfl | hlater
      · exact le_refl _
      · exact List.rel_of_pairwise_cons hsorted hlater
    omega

end Successor

/-- The only point of the set at its distance or nearer. -/
structure Nearest (distance : α → Nat) (A : Set α) (a : α) : Prop where
  mem : a ∈ A
  lt : ∀ b ∈ A, b ≠ a → distance a < distance b

namespace Nearest

variable {distance : α → Nat} {A : Set α} {a b v : α}

theorem unique (ha : Nearest distance A a) (hb : Nearest distance A b) : a = b := by
  by_contra hne
  have h₁ := ha.lt b hb.mem (Ne.symm hne)
  have h₂ := hb.lt a ha.mem hne
  omega

/-- A point that leaves does not change the nearest of the others. -/
theorem diff (ha : Nearest distance A a) (hne : a ≠ v) : Nearest distance (A \ {v}) a :=
  ⟨⟨ha.mem, hne⟩, fun b hb => ha.lt b hb.1⟩

end Nearest

end HashRing
