import Mathlib

/-!
# Taking turns

The items of a list come in turn, round and round.  In any number of turns each item comes equally often, up to one
(`count_turns`).
-/

namespace Turns

variable {α : Type}

/-- The next `n` items, from position `start` on, which counts round the list. -/
def turns (l : List α) (start : Nat) : Nat → List α
  | 0 => []
  | n + 1 => l[start % l.length]?.toList ++ turns l (start + 1) n

section Count

variable [BEq α] [LawfulBEq α] {l : List α} {a : α} {j : Nat}

/-- An item comes whenever the position is its own. -/
theorem count_turns_eq (hl : l.Nodup) (hj : l[j]? = some a) (start n : Nat) :
    (turns l start n).count a = Nat.count (fun k => (start + k) % l.length = j) n := by
  obtain ⟨hlt, rfl⟩ := List.getElem?_eq_some_iff.1 hj
  induction n generalizing start with
  | zero => rfl
  | succ n ih =>
    have hpos : start % l.length < l.length := Nat.mod_lt _ (by omega)
    have hshift : ∀ k, start + 1 + k = start + (k + 1) := fun k => by omega
    rw [turns, List.count_append, ih, Nat.count_succ', List.getElem?_eq_getElem hpos, Option.toList_some,
      List.count_singleton]
    simp only [hshift, Nat.add_zero, beq_iff_eq, hl.getElem_inj_iff]
    exact Nat.add_comm _ _

/-- The positions of one item among the next `n`. -/
private theorem count_positions {r : Nat} (hj : j < r) (start n : Nat) :
    Nat.count (fun k => (start + k) % r = j) n = n / r ∨
      n % r ≠ 0 ∧ Nat.count (fun k => (start + k) % r = j) n = n / r + 1 := by
  have hr : 0 < r := by omega
  -- the first number of turns after which the position is `j`, or one that differs from it by whole rounds
  let v := j + start * (r - 1)
  have hv : start + v ≡ j [MOD r] := by
    have hround : start + v = j + r * start := by
      obtain ⟨r, rfl⟩ : ∃ m, r = m + 1 := ⟨r - 1, by omega⟩
      simp only [v, Nat.add_sub_cancel]
      ring
    rw [hround]
    exact Nat.add_mul_mod_self_left j r start
  have hposition : ∀ k, (start + k) % r = j ↔ k ≡ v [MOD r] := by
    intro k
    constructor
    · intro hk
      have hsame : start + k ≡ start + v [MOD r] := by
        rw [Nat.ModEq, hv, hk, Nat.mod_eq_of_lt hj]
      exact Nat.ModEq.add_left_cancel' start hsame
    · intro hk
      have hsame := (Nat.ModEq.add_left start hk).trans hv
      rwa [Nat.ModEq, Nat.mod_eq_of_lt hj] at hsame
  simp only [hposition, Nat.count_modEq_card n hr v]
  split
  · right
    exact ⟨by omega, rfl⟩
  · left
    rfl

/-- Each item comes `⌊n / r⌋` or `⌈n / r⌉` times, where `r` is the number of items. -/
theorem count_turns (hl : l.Nodup) (ha : a ∈ l) (start n : Nat) :
    (turns l start n).count a = n / l.length ∨ (turns l start n).count a = (n + l.length - 1) / l.length := by
  obtain ⟨j, hlt, rfl⟩ := List.getElem_of_mem ha
  rw [count_turns_eq hl (List.getElem?_eq_getElem hlt)]
  refine (count_positions hlt start n).imp_right ?_
  rintro ⟨hrest, hcount⟩
  rw [hcount]
  have hsplit := Nat.div_add_mod n l.length
  have hsmall := Nat.mod_lt n (show 0 < l.length by omega)
  have hmul : (n / l.length + 1) * l.length = l.length * (n / l.length) + l.length := by ring
  symm
  rw [Nat.div_eq_iff (by omega), hmul]
  omega

/-- In one round each item comes once. -/
theorem count_round (hl : l.Nodup) (ha : a ∈ l) (start : Nat) : (turns l start l.length).count a = 1 := by
  have hpos : 0 < l.length := List.length_pos_of_mem ha
  obtain ⟨j, hlt, rfl⟩ := List.getElem_of_mem ha
  rw [count_turns_eq hl (List.getElem?_eq_getElem hlt)]
  rcases count_positions hlt start l.length with hcount | ⟨hrest, -⟩
  · rw [hcount, Nat.div_self hpos]
  · exact absurd (Nat.mod_self _) hrest

end Count

end Turns
