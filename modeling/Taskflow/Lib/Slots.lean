import Mathlib

/-!
# Items with flags

Two lists of the same length: items, and for each of them whether it is marked.  `marked` are the marked items;
setting and clearing one flag adds and removes one of them.
-/

namespace Slots

variable {α : Type}

/-- The items whose flag is set. -/
def marked (items : List α) (flags : List Bool) : List α := ((items.zip flags).filter (·.2)).map (·.1)

variable {items : List α} {flags : List Bool} {x : α} {i : Nat}

@[simp] theorem marked_nil : marked ([] : List α) flags = [] := rfl

@[simp] theorem marked_cons (f : Bool) :
    marked (x :: items) (f :: flags) = if f then x :: marked items flags else marked items flags := by
  cases f <;> simp [marked]

theorem mem_marked : x ∈ marked items flags ↔ ∃ i : Nat, items[i]? = some x ∧ flags[i]? = some true := by
  constructor
  · intro hx
    obtain ⟨⟨y, f⟩, hmem, hy⟩ := List.mem_map.1 hx
    obtain ⟨hzip, htrue⟩ := List.mem_filter.1 hmem
    obtain ⟨i, hi⟩ := List.mem_iff_getElem?.1 hzip
    obtain ⟨hitem, hflag⟩ := List.getElem?_zip_eq_some.1 hi
    exact ⟨i, hitem.trans (congrArg some hy), hflag.trans (congrArg some htrue)⟩
  · intro ⟨i, hitem, hflag⟩
    have hzip : (x, true) ∈ items.zip flags :=
      List.mem_iff_getElem?.2 ⟨i, List.getElem?_zip_eq_some.2 ⟨hitem, hflag⟩⟩
    exact List.mem_map.2 ⟨(x, true), List.mem_filter.2 ⟨hzip, rfl⟩, rfl⟩

theorem length_marked (hl : items.length = flags.length) : (marked items flags).length = flags.count true := by
  induction items generalizing flags with
  | nil =>
    have hflags : flags = [] := List.length_eq_zero_iff.1 hl.symm
    subst hflags
    rfl
  | cons y items ih =>
    cases flags with
    | nil => cases hl
    | cons f flags =>
      have ih := ih (Nat.succ.inj hl)
      cases f <;> simp [ih]

theorem marked_sublist : (marked items flags).Sublist items := by
  induction items generalizing flags with
  | nil => exact List.Sublist.refl []
  | cons y items ih =>
    cases flags with
    | nil => exact List.nil_sublist _
    | cons f flags =>
      cases f with
      | false => exact ih.cons y
      | true => exact ih.cons_cons y

theorem nodup_append_singleton (h : items.Nodup) (hx : x ∉ items) : (items ++ [x]).Nodup := by
  rw [← List.concat_eq_append]
  exact List.Nodup.concat hx h

theorem marked_append (hl : items.length = flags.length) (f : Bool) :
    marked (items ++ [x]) (flags ++ [f]) = marked items flags ++ if f then [x] else [] := by
  cases f <;> simp [marked, List.zip_append hl]

/-- Where no flag is clear, all items are marked. -/
theorem mem_marked_of_full (hl : items.length = flags.length) (hfull : false ∉ flags) (hx : x ∈ items) :
    x ∈ marked items flags := by
  obtain ⟨i, hi⟩ := List.mem_iff_getElem?.1 hx
  have hlt : i < flags.length := hl ▸ (List.getElem?_eq_some_iff.1 hi).1
  have hmem : flags[i] ∈ flags := List.getElem_mem hlt
  have htrue : flags[i] = true := by
    cases hf : flags[i] with
    | true => rfl
    | false => exact absurd (hf ▸ hmem) hfull
  exact mem_marked.2 ⟨i, hi, htrue ▸ List.getElem?_eq_getElem hlt⟩

theorem length_marked_of_full (hl : items.length = flags.length) (hfull : false ∉ flags) :
    (marked items flags).length = items.length := by
  have hall : ∀ f ∈ flags, true = f := by
    intro f hf
    cases f with
    | true => rfl
    | false => exact absurd hf hfull
  rw [length_marked hl, hl]
  exact List.count_eq_length.2 hall

/-- Setting a flag that was clear. -/
theorem marked_set_true (hi : items[i]? = some x) (hf : flags[i]? = some false) :
    (marked items (flags.set i true)).Perm (x :: marked items flags) := by
  induction items generalizing flags i with
  | nil => simp at hi
  | cons y items ih =>
    cases flags with
    | nil => simp at hf
    | cons f flags =>
      cases i with
      | zero =>
        simp only [List.getElem?_cons_zero, Option.some.injEq] at hi hf
        subst hi hf
        simp
      | succ i =>
        have ih : (marked items (flags.set i true)).Perm (x :: marked items flags) :=
          ih (by simpa using hi) (by simpa using hf)
        cases f with
        | false => simpa using ih
        | true => simpa using (ih.cons y).trans (.swap x y _)

/-- Clearing a flag that was set. -/
theorem marked_set_false (hi : items[i]? = some x) (hf : flags[i]? = some true) :
    (x :: marked items (flags.set i false)).Perm (marked items flags) := by
  obtain ⟨hlt, hget⟩ := List.getElem?_eq_some_iff.1 hf
  have hset : (flags.set i false).set i true = flags := by
    rw [List.set_set, ← hget]
    exact List.set_getElem_self hlt
  have hclear : (flags.set i false)[i]? = some false := by simp [hlt]
  have hperm := marked_set_true hi hclear
  rw [hset] at hperm
  exact hperm.symm

end Slots
