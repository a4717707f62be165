import Taskflow.RedisLemmas

/-!
# The three lists

What `RPUSH` and `LPOP` do to the lists of waiting ids: an id is `Appended` to one list or `Taken` from the head of
one, the other keys stay, and the number of its occurrences over all lists (`occurrences`) goes up or down by one.
-/

namespace Taskflow

open Text Effects Prog

/-- The ids waiting in a queue, the next one first. -/
def queueItems (w : Keyspace) (queue : Bytes) : List Bytes :=
  match w[queue]? with
  | some (.list l) => l
  | _ => []

/-- The key is free or holds a list. -/
def IsQueue (w : Keyspace) (queue : Bytes) : Prop :=
  ∀ v, w[queue]? = some v → ∃ l, v = .list l

theorem queueItems_congr {w w' : Keyspace} {queue : Bytes} (h : w'[queue]? = w[queue]?) :
    queueItems w' queue = queueItems w queue := by
  simp only [queueItems, h]

theorem isQueue_congr {w w' : Keyspace} {queue : Bytes} (h : w'[queue]? = w[queue]?) (hq : IsQueue w queue) :
    IsQueue w' queue := fun v hv => hq v (h ▸ hv)

theorem exec_rpush {w : Keyspace} {queue : Bytes} (hq : IsQueue w queue) (x : Bytes) :
    (exec (.rpush queue x) w).2[queue]? = some (.list (queueItems w queue ++ [x])) := by
  cases hw : w[queue]? with
  | none => simp [exec, hw, queueItems]
  | some v =>
    obtain ⟨l, rfl⟩ := hq v hw
    simp [exec, hw, queueItems]

/-- `LPOP` takes the first id of a queue, or finds it empty and changes nothing. -/
theorem exec_lpop {w : Keyspace} {queue : Bytes} (hq : IsQueue w queue) :
    (∃ x, (exec (.lpop queue) w).1 = .string x ∧
      queueItems w queue = x :: queueItems (exec (.lpop queue) w).2 queue ∧
      IsQueue (exec (.lpop queue) w).2 queue) ∨
    ((exec (.lpop queue) w).1 = .nil ∧ (exec (.lpop queue) w).2 = w ∧ queueItems w queue = []) := by
  cases hw : w[queue]? with
  | none => right; simp [exec, hw, queueItems]
  | some v =>
    obtain ⟨l, rfl⟩ := hq v hw
    rcases l with _ | ⟨x, _ | ⟨y, l⟩⟩
    · right; simp [exec, hw, queueItems]
    · left; exact ⟨x, by simp [exec, hw, queueItems, IsQueue]⟩
    · left; exact ⟨x, by simp [exec, hw, queueItems, IsQueue]⟩

/-- A list that takes a command holds no value of another kind. -/
theorem isQueue_of_ok {w : Keyspace} {q x : Bytes} (hok : (exec (.rpush q x) w).1.isError = false ∨
    (exec (.lpop q) w).1.isError = false) : IsQueue w q := by
  intro value hvalue
  cases value with
  | list l => exact ⟨l, rfl⟩
  | string b => simp [exec, hvalue, Reply.isError] at hok
  | hash h => simp [exec, hvalue, Reply.isError] at hok

theorem queueItems_insert (w : Keyspace) (key : Bytes) (v : Value) :
    queueItems (w.insert key v) key = match v with | .list l => l | _ => [] := by
  have hlookup : (w.insert key v)[key]? = some v := by simp
  simp only [queueItems, hlookup]
  cases v <;> rfl

private theorem execIncrby_items {key : Bytes} {n : Int} {w : Keyspace} {x : Bytes}
    (h : x ∈ queueItems (execIncrby key n w).2 key) : x ∈ queueItems w key := by
  unfold execIncrby at h
  split at h
  · dsimp only at h
    split at h
    · rw [queueItems_insert] at h
      cases h
    · exact h
  · split at h
    · dsimp only at h
      split at h
      · rw [queueItems_insert] at h
        cases h
      · exact h
    · exact h
  · exact h

/-- Only `RPUSH` brings a text into a list. -/
theorem mem_queueItems_exec {cmd : Command} {w : Keyspace} {q x : Bytes} (h : x ∈ queueItems (exec cmd w).2 q) :
    x ∈ queueItems w q ∨ cmd = .rpush q x := by
  by_cases hkey : cmd.key = q
  · subst hkey
    cases cmd with
    | rpush key value =>
      simp only [Command.key, exec] at h ⊢
      split at h
      · rw [queueItems_insert] at h
        exact .inr (by rw [List.mem_singleton.1 h])
      · rename_i l hl
        rw [queueItems_insert] at h
        rcases List.mem_append.1 h with h | h
        · left
          simpa only [queueItems, hl] using h
        · exact .inr (by rw [List.mem_singleton.1 h])
      · exact .inl h
    | lpop key =>
      simp only [Command.key, exec] at h ⊢
      left
      split at h
      · exact h
      · rename_i y hl
        simp [queueItems] at h
      · rename_i y l _ hl
        rw [queueItems_insert] at h
        simp only [queueItems, hl]
        exact List.mem_cons_of_mem _ h
      · exact h
      · exact h
    | incr key => exact .inl (execIncrby_items h)
    | incrby key n => exact .inl (execIncrby_items h)
    -- what replaces the value of a key leaves no list under it
    | setex key seconds value =>
      simp only [Command.key, exec] at h ⊢
      split at h
      · rw [queueItems_insert] at h
        cases h
      · exact .inl h
    | hset key field value =>
      simp only [Command.key, exec] at h ⊢
      split at h
      · rw [queueItems_insert] at h
        cases h
      · rw [queueItems_insert] at h
        cases h
      · exact .inl h
    | hmset key fields =>
      simp only [Command.key, exec] at h ⊢
      split at h
      · rw [queueItems_insert] at h
        cases h
      · rw [queueItems_insert] at h
        cases h
      · exact .inl h
    | _ =>
      rw [exec_reads rfl] at h
      exact .inl h
  · rw [queueItems_congr (exec_frame cmd w hkey)] at h
    exact .inl h

/-- How often an id occurs over the three lists. -/
def occurrences (w : Keyspace) (i : Bytes) : Nat := (queueKeys.map fun q => (queueItems w q).count i).sum

theorem occurrences_congr {w w' : Keyspace} (h : ∀ q ∈ queueKeys, w'[q]? = w[q]?) (i : Bytes) :
    occurrences w' i = occurrences w i := by
  unfold occurrences
  rw [List.map_congr_left]
  intro q hq
  rw [queueItems_congr (h q hq)]

theorem occurrences_eq_zero {w : Keyspace} {i : Bytes} :
    occurrences w i = 0 ↔ ∀ q ∈ queueKeys, i ∉ queueItems w q := by
  simp [occurrences, queueKeys, List.count_eq_zero]

/-! ### Changing one list -/

section Changes

variable {w w' : Keyspace}

/-- The id `x` was appended to the list `q`. -/
structure Appended (w w' : Keyspace) (q x : Bytes) : Prop where
  mem : q ∈ queueKeys
  frame : ∀ key, q ≠ key → w'[key]? = w[key]?
  list : w'[q]? = some (.list (queueItems w q ++ [x]))

/-- The id `x` was taken from the head of the list `q`. -/
structure Taken (w w' : Keyspace) (q x : Bytes) : Prop where
  mem : q ∈ queueKeys
  frame : ∀ key, q ≠ key → w'[key]? = w[key]?
  isQueue : IsQueue w' q
  items : queueItems w q = x :: queueItems w' q

theorem Appended.items_eq {q x : Bytes} (h : Appended w w' q x) (q' : Bytes) :
    queueItems w' q' = if q = q' then queueItems w q' ++ [x] else queueItems w q' := by
  split
  · rename_i he
    subst he
    simp only [queueItems, h.list]
  · rename_i he
    exact queueItems_congr (h.frame q' he)

/-- What holds of all that was there and of the new id, holds of all that is there. -/
theorem Appended.forall_items {q x : Bytes} (h : Appended w w' q x) {P : Bytes → Prop}
    (hold : ∀ q ∈ queueKeys, ∀ y ∈ queueItems w q, P y) (hnew : P x) :
    ∀ q ∈ queueKeys, ∀ y ∈ queueItems w' q, P y := by
  intro q' hq' y hy
  rw [h.items_eq] at hy
  split at hy
  · rcases List.mem_append.1 hy with hy | hy
    · exact hold q' hq' y hy
    · rw [List.mem_singleton.1 hy]
      exact hnew
  · exact hold q' hq' y hy

theorem Appended.isQueue {q x : Bytes} (h : Appended w w' q x) {q' : Bytes} (hq : IsQueue w q') :
    IsQueue w' q' := by
  by_cases he : q = q'
  · subst he
    rintro v hv
    rw [h.list] at hv
    exact ⟨_, (Option.some.inj hv).symm⟩
  · exact isQueue_congr (h.frame q' he) hq

theorem Appended.count {q x : Bytes} (h : Appended w w' q x) (q' i : Bytes) :
    (queueItems w' q').count i = (queueItems w q').count i + if q = q' ∧ x = i then 1 else 0 := by
  rw [h.items_eq]
  by_cases he : q = q'
  · by_cases hx : x = i <;> simp [he, hx]
  · simp [he]

/-- One more occurrence of `x` in the list `q`. -/
private theorem occurrences_add {q x i : Bytes} (hq : q ∈ queueKeys)
    (hcount : ∀ q', (queueItems w' q').count i = (queueItems w q').count i + if q = q' ∧ x = i then 1 else 0) :
    occurrences w' i = occurrences w i + if x = i then 1 else 0 := by
  have hne : queueHigh ≠ queueMedium ∧ queueHigh ≠ queueLow ∧ queueMedium ≠ queueLow := by decide
  simp only [queueKeys, List.mem_cons, List.not_mem_nil, or_false] at hq
  simp only [occurrences, queueKeys, List.map_cons, List.map_nil, List.sum_cons, List.sum_nil, hcount]
  rcases hq with rfl | rfl | rfl
  · simp only [true_and, hne.1, hne.2.1, false_and, if_false]
    omega
  · simp only [true_and, hne.1.symm, hne.2.2, false_and, if_false]
    omega
  · simp only [true_and, hne.2.1.symm, hne.2.2.symm, false_and, if_false]
    omega

theorem Appended.occurrences {q x : Bytes} (h : Appended w w' q x) (i : Bytes) :
    occurrences w' i = occurrences w i + if x = i then 1 else 0 :=
  occurrences_add h.mem fun q' => h.count q' i

/-- Taking the head and appending are inverse to each other, as far as counting goes. -/
theorem Taken.count {q x : Bytes} (h : Taken w w' q x) (q' i : Bytes) :
    (queueItems w q').count i = (queueItems w' q').count i + if q = q' ∧ x = i then 1 else 0 := by
  by_cases he : q = q'
  · subst he
    rw [h.items, List.count_cons]
    by_cases hx : x = i <;> simp [hx]
  · rw [queueItems_congr (h.frame q' he)]
    simp [he]

theorem Taken.occurrences {q x : Bytes} (h : Taken w w' q x) (i : Bytes) :
    occurrences w i = occurrences w' i + if x = i then 1 else 0 :=
  occurrences_add h.mem fun q' => h.count q' i

theorem appended_rpush {w : Keyspace} {q x : Bytes} (hq : q ∈ queueKeys) (hw : IsQueue w q) :
    Appended w (exec (.rpush q x) w).2 q x :=
  ⟨hq, fun _ hne => exec_frame _ w hne, exec_rpush hw x⟩

end Changes

end Taskflow
