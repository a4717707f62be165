import Mathlib

/-!
# First come, first served

A desk serves the items of a line one after the other.  It takes the head in hand and serves it, or sends it back to
the end of the line, where it arrives once more.  Items are served in the order of their latest arrivals
(`Desk.Reachable.latest`), and in the order in which they first arrived if none is sent back behind another
(`Desk.Reachable.first`).
-/

namespace FirstCome

variable {α : Type}

/-! ### Order in a list -/

/-- `a` stands in the list before `b`. -/
def Before (l : List α) (a b : α) : Prop := [a, b].Sublist l

instance [DecidableEq α] (l : List α) (a b : α) : Decidable (Before l a b) :=
  inferInstanceAs (Decidable ([a, b].Sublist l))

section Before

variable {l l' : List α} {a b : α}

theorem before_filter {p : α → Bool} (ha : p a = true) (hb : p b = true) : Before (l.filter p) a b ↔
    Before l a b := by
  constructor
  · exact fun h => h.trans List.filter_sublist
  · intro h
    have hfilter := h.filter p
    rwa [List.filter_cons_of_pos ha, List.filter_cons_of_pos hb, List.filter_nil] at hfilter

/-- What stands before an item of the first part is in the first part. -/
theorem before_append (hnodup : (l ++ l').Nodup) (hb : b ∈ l) : Before (l ++ l') a b ↔ Before l a b := by
  constructor
  · intro h
    obtain ⟨first, second, hsplit, hfirst, hsecond⟩ := List.sublist_append_iff.1 h
    rcases List.eq_nil_or_concat second with rfl | ⟨init, last, rfl⟩
    · rw [List.append_nil] at hsplit
      rwa [Before, hsplit]
    · -- then the item itself is in the second part
      rw [List.concat_eq_append, ← List.append_assoc] at hsplit
      have hlast := (List.append_inj' (show [a] ++ [b] = _ from hsplit) rfl).2
      obtain rfl := (List.cons.inj hlast).1
      have hmem : b ∈ l' := hsecond.subset (by simp)
      exact absurd rfl ((List.nodup_append.1 hnodup).2.2 b hb b hmem)
  · exact fun h => h.trans (List.sublist_append_left l l')

theorem Before.mem_right (h : Before l a b) : b ∈ l := h.subset (by simp)

/-- The latest occurrences, after one more item. -/
theorem dedup_snoc [DecidableEq α] (l : List α) (x : α) : (l ++ [x]).dedup = l.dedup.filter (· ≠ x) ++ [x] := by
  induction l with
  | nil => rfl
  | cons y l ih =>
    rw [List.cons_append, List.dedup_cons, List.dedup_cons, ih]
    by_cases hy : y ∈ l
    · rw [if_pos hy, if_pos (List.mem_append_left _ hy)]
    · by_cases hx : y = x
      · subst hx
        simp [hy]
      · rw [if_neg hy, if_neg (by simp [hy, hx]), List.filter_cons_of_pos (by simpa using hx), List.cons_append]

/-- The latest occurrences of some of the items. -/
theorem dedup_filter [DecidableEq α] (p : α → Bool) (l : List α) : (l.filter p).dedup = l.dedup.filter p := by
  induction l with
  | nil => rfl
  | cons x l ih =>
    rw [List.dedup_cons]
    cases hx : p x with
    | true =>
      rw [List.filter_cons_of_pos hx, List.dedup_cons, ih]
      by_cases hmem : x ∈ l
      · rw [if_pos hmem, if_pos (List.mem_filter.2 ⟨hmem, hx⟩)]
      · rw [if_neg hmem, if_neg fun h => hmem (List.mem_filter.1 h).1, List.filter_cons_of_pos hx]
    | false =>
      rw [List.filter_cons_of_neg (by simp [hx]), ih]
      split
      · rfl
      · rw [List.filter_cons_of_neg (by simp [hx])]

private theorem filter_ne [DecidableEq α] {x : α} (hx : x ∉ l) : l.filter (· ≠ x) = l := by
  rw [List.filter_eq_self]
  intro y hy
  rw [decide_eq_true_eq]
  rintro rfl
  exact hx hy

end Before

/-! ### The desk -/

structure Desk (α : Type) where
  /-- Every arrival, also of an item that was sent back. -/
  arrivals : List α
  newcomers : List α
  waiting : List α
  inHand : Option α
  served : List α

/-- Nothing has arrived. -/
def Desk.opened : Desk α := ⟨[], [], [], none, []⟩

/-- One step; an item that is sent back is `alone` if it finds the line empty. -/
inductive Desk.Step (alone : Prop) : Desk α → Desk α → Prop
  | arrive {d : Desk α} {x : α} (hwaiting : x ∉ d.waiting) (hhand : d.inHand ≠ some x)
      (hserved : x ∉ d.served) :
    Step alone d ⟨d.arrivals ++ [x], d.newcomers ++ [x], d.waiting ++ [x], d.inHand, d.served⟩
  | take {d : Desk α} {x : α} {rest : List α} (hline : d.waiting = x :: rest) (hhand : d.inHand = none) :
    Step alone d ⟨d.arrivals, d.newcomers, rest, some x, d.served⟩
  | sendBack {d : Desk α} {x : α} (hhand : d.inHand = some x) (halone : alone → d.waiting = []) :
    Step alone d ⟨d.arrivals ++ [x], d.newcomers, d.waiting ++ [x], none, d.served⟩
  | serve {d : Desk α} {x : α} (hhand : d.inHand = some x) :
    Step alone d ⟨d.arrivals, d.newcomers, d.waiting, none, d.served ++ [x]⟩

def Desk.Reachable (alone : Prop) : Desk α → Prop := Relation.ReflTransGen (Step alone) opened

/-- Served, in hand and waiting: the order in which the items leave. -/
def Desk.line (d : Desk α) : List α := d.served ++ d.inHand.toList ++ d.waiting

section Order

variable [DecidableEq α] {alone : Prop} {d d' : Desk α}

theorem Desk.Step.latest (h : Step alone d d') (hd : d.arrivals.dedup = d.line) : d'.arrivals.dedup = d'.line := by
  have hnodup : d.line.Nodup := hd ▸ List.nodup_dedup _
  cases h with
  | @arrive x hwaiting hhand hserved =>
    have hnew : x ∉ d.line := by
      simp only [line, List.mem_append, Option.mem_toList, not_or]
      exact ⟨⟨hserved, hhand⟩, hwaiting⟩
    rw [dedup_snoc, hd, filter_ne hnew]
    simp only [line, List.append_assoc]
  | take hline hhand =>
    rw [hd]
    simp [line, hline, hhand]
  | @sendBack x hhand _ =>
    rw [line, hhand, Option.toList_some, List.nodup_append', List.nodup_append'] at hnodup
    obtain ⟨⟨-, -, hserved⟩, -, hwaiting⟩ := hnodup
    have hnoserved : x ∉ d.served := fun hx => hserved hx (List.mem_singleton_self x)
    have hnowaiting : x ∉ d.waiting := hwaiting (List.mem_append_right _ (List.mem_singleton_self x))
    rw [dedup_snoc, hd, line, hhand, List.filter_append, List.filter_append, filter_ne hnoserved,
      filter_ne hnowaiting]
    simp [line]
  | serve hhand =>
    rw [hd]
    simp [line, hhand]

/-- Items leave in the order of their latest arrivals. -/
theorem Desk.Reachable.latest (h : Reachable alone d) : d.arrivals.dedup = d.line := by
  induction h with
  | refl => rfl
  | tail _ hstep ih => exact hstep.latest ih

omit [DecidableEq α] in
theorem Desk.Step.first (h : Step True d d') (hd : d.newcomers = d.line) : d'.newcomers = d'.line := by
  cases h with
  | arrive _ _ _ =>
    rw [hd]
    simp only [line, List.append_assoc]
  | take hline hhand =>
    rw [hd]
    simp [line, hline, hhand]
  | sendBack hhand halone =>
    rw [hd]
    simp [line, hhand, halone trivial]
  | serve hhand =>
    rw [hd]
    simp [line, hhand]

omit [DecidableEq α] in
/-- If an item that is sent back is always alone, items leave in the order in which they first arrived. -/
theorem Desk.Reachable.first (h : Reachable True d) : d.newcomers = d.line := by
  induction h with
  | refl => rfl
  | tail _ hstep ih => exact hstep.first ih

/-- `a` is served before `b` if and only if `b` is served and stands behind `a` in the line. -/
theorem Desk.Reachable.served_iff (h : Reachable alone d) {a b : α} :
    Before d.served a b ↔ b ∈ d.served ∧ Before d.line a b := by
  have hnodup : d.line.Nodup := h.latest ▸ List.nodup_dedup _
  rw [line, List.append_assoc] at hnodup ⊢
  constructor
  · exact fun hab => ⟨hab.mem_right, (before_append hnodup hab.mem_right).2 hab⟩
  · exact fun hab => (before_append hnodup hab.1).1 hab.2

end Order

end FirstCome
