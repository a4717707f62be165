import Taskflow.Lib.HashRing
import Taskflow.WorkerSelection

/-!
# Consistent hashing

`consistentHashSelect` takes the first worker at or past the hash of the task in a list sorted by hash, or the first
worker of the list.  That is the worker nearest clockwise (`selectWorker_nearest`), which depends on nothing but the
set of available workers, so a worker that joins or leaves moves only its own tasks (`consistent_hashing`).
-/

namespace Taskflow

open Text History HashRing

namespace LoadBalancer

/-- The workers that are active and that their breakers, if they have one, admit. -/
def availableSet (lb : LoadBalancer) (now : Int) : Set Bytes :=
  {id | ∃ node, lb.workers[id]? = some node ∧ node.status = active ∧
    ∀ breaker, lb.circuitBreakers[id]? = some breaker → (breaker.allowRequest now).1 = true}

/-- `(hash(w) - hash(t)) mod 2^64`. -/
def distance (taskId workerId : Bytes) : Nat := (hash workerId - hash taskId).toNat

theorem distance_eq (taskId workerId : Bytes) :
    distance taskId workerId = clockwise (2 ^ 64) (hash taskId).toNat (hash workerId).toNat := by
  rw [distance, UInt64.toNat_sub, clockwise, Nat.add_comm]

theorem mem_availableSet {lb : LoadBalancer} {now : Int} {id : Bytes} :
    id ∈ lb.availableSet now ↔ id ∈ (lb.available now).map (·.1) := by
  rw [List.mem_map]
  constructor
  · rintro ⟨node, hnode, hactive, hallow⟩
    refine ⟨(id, node), mem_available.2 ⟨hnode, ?_⟩, rfl⟩
    have hentry : (lb.entry id).node = some node := hnode
    rw [WorkerEntry.ask, if_pos (by simp [hentry, hactive])]
    cases hbreaker : (lb.entry id).breaker with
    | none => rfl
    | some breaker => exact hallow breaker hbreaker
  · rintro ⟨⟨_, node⟩, hmem, rfl⟩
    obtain ⟨hnode, hask⟩ := mem_available.1 hmem
    have hactive : node.status = active := by
      by_contra hne
      simp [WorkerEntry.ask, hnode, hne] at hask
    refine ⟨node, hnode, hactive, ?_⟩
    intro breaker hbreaker
    have hentry : (lb.entry _).breaker = some breaker := hbreaker
    simpa [WorkerEntry.ask, hnode, hactive, hentry] using hask

/-- Without an available worker nothing is selected. -/
theorem selectWorker_nobody (sort : StdSort) {lb : LoadBalancer} {now : Int} (taskId : Bytes)
    (h : lb.availableSet now = ∅) : (lb.selectWorker sort taskId now).1 = [] := by
  refine (selectWorker_chosen sort lb taskId now).nobody ?_
  rw [← List.map_eq_nil_iff, List.eq_nil_iff_forall_not_mem]
  intro id hid
  have hmem : id ∈ lb.availableSet now := mem_availableSet.2 hid
  rw [h] at hmem
  exact hmem

/-- The sorted hashes of the available workers. -/
def circles (sort : StdSort) (lb : LoadBalancer) (now : Int) : List (UInt64 × Bytes) :=
  sort.sort (fun a b => a.1 < b.1) ((lb.available now).map fun p => (hash p.1, p.1))

theorem mem_circles {sort : StdSort} {lb : LoadBalancer} {now : Int} {circle : UInt64 × Bytes} :
    circle ∈ lb.circles sort now ↔ circle.2 ∈ lb.availableSet now ∧ circle.1 = hash circle.2 := by
  rw [circles, StdSort.mem_sort, List.mem_map, mem_availableSet, List.mem_map]
  constructor
  · rintro ⟨p, hp, rfl⟩
    exact ⟨⟨p, hp, rfl⟩, rfl⟩
  · rintro ⟨⟨p, hp, hid⟩, hhash⟩
    exact ⟨p, hp, Prod.ext (by rw [hhash, hid]) hid⟩

theorem circles_sorted (sort : StdSort) (lb : LoadBalancer) (now : Int) :
    (lb.circles sort now).Pairwise fun a b => a.1.toNat ≤ b.1.toNat := by
  have hsorted := sort.sorted (fun a b : UInt64 × Bytes => decide (a.1 < b.1))
    ((lb.available now).map fun p => (hash p.1, p.1))
    (fun a b hab => by
      simp only [decide_eq_true_eq, decide_eq_false_iff_not, UInt64.lt_iff_toNat_lt] at *
      omega)
    (fun a b c hab hbc => by
      simp only [decide_eq_false_iff_not, UInt64.lt_iff_toNat_lt] at *
      omega)
  refine hsorted.imp ?_
  intro a b hab
  rw [decide_eq_false_iff_not, UInt64.lt_iff_toNat_lt] at hab
  omega

/-- The selection is the successor of the task on the ring of the sorted hashes. -/
theorem consistentHashSelect_successor (sort : StdSort) (lb : LoadBalancer) {taskId : Bytes} (now : Int)
    (htask : taskId ≠ []) :
    (lb.consistentHashSelect sort taskId now).1 =
      ((successor (hash taskId).toNat (fun circle => circle.1.toNat) (lb.circles sort now)).map (·.2)).getD [] := by
  have hcircles := lb.forAvailable_fst now (fun circles workerId _ => circles ++ [(hash workerId, workerId)]) []
  rw [foldl_append fun p : Bytes × WorkerNode => (hash p.1, p.1), List.nil_append] at hcircles
  unfold consistentHashSelect
  rw [if_neg (by simpa using htask)]
  dsimp only
  rw [hcircles]
  split
  · rename_i hempty
    rw [List.isEmpty_iff] at hempty
    have hsorted : lb.circles sort now = [] := by
      rw [circles, hempty]
      exact (sort.perm _ []).eq_nil
    rw [hsorted]
    rfl
  · -- the comparison of the words is the comparison of their numbers
    have hfound : (lb.circles sort now).find? (fun circle => (hash taskId).toNat ≤ circle.1.toNat) =
        (lb.circles sort now).find? (fun circle => hash taskId ≤ circle.1) := by
      congr 1
    rw [successor, hfound, circles]
    split
    · rename_i circle hfind
      rw [hfind]
      rfl
    · rename_i hfind
      rw [hfind]
      rfl

theorem selectWorker_consistentHash (sort : StdSort) {lb : LoadBalancer} (taskId : Bytes) {now : Int}
    (hstrategy : lb.strategy = .CONSISTENT_HASH) (hne : (lb.availableSet now).Nonempty) :
    lb.selectWorker sort taskId now = lb.consistentHashSelect sort taskId now := by
  obtain ⟨id, node, hnode, -⟩ := hne
  rw [selectWorker, if_neg (by simp [isEmpty_eq_false_of_getElem? hnode]), hstrategy]

/-- The selected worker is the one nearest clockwise. -/
theorem selectWorker_nearest (sort : StdSort) {lb : LoadBalancer} {taskId : Bytes} {now : Int}
    (hstrategy : lb.strategy = .CONSISTENT_HASH) (hdistinct : Set.InjOn hash (lb.availableSet now))
    (htask : taskId ≠ []) (hne : (lb.availableSet now).Nonempty) :
    Nearest (distance taskId) (lb.availableSet now) (lb.selectWorker sort taskId now).1 := by
  have hselect := consistentHashSelect_successor sort lb now htask
  rw [← selectWorker_consistentHash sort taskId hstrategy hne] at hselect
  cases hsucc : successor (hash taskId).toNat (fun circle => circle.1.toNat) (lb.circles sort now) with
  | none =>
    -- a ring with a worker on it has a successor
    obtain ⟨id, hid⟩ := hne
    have hring : (hash id, id) ∈ lb.circles sort now := mem_circles.2 ⟨hid, rfl⟩
    unfold successor at hsucc
    rw [Option.or_eq_none_iff, List.head?_eq_none_iff] at hsucc
    rw [hsucc.2] at hring
    cases hring
  | some circle =>
    rw [hsucc, Option.map_some, Option.getD_some] at hselect
    obtain ⟨hmem, hhash⟩ := mem_circles.1 (successor_mem hsucc)
    rw [hselect]
    refine ⟨hmem, ?_⟩
    intro b hb hbne
    have hcircle : (hash b, b) ∈ lb.circles sort now := mem_circles.2 ⟨hb, rfl⟩
    have hle := successor_le (circles_sorted sort lb now) (fun a _ => a.1.toNat_lt)
      (hash taskId).toNat_lt hsucc hcircle
    rw [hhash, ← distance_eq, ← distance_eq] at hle
    refine lt_of_le_of_ne hle ?_
    intro heq
    rw [distance_eq, distance_eq] at heq
    have hpos := clockwise_inj (hash taskId).toNat_lt (UInt64.toNat_lt _) (UInt64.toNat_lt _) heq
    exact hbne (hdistinct hb hmem (UInt64.toNat_inj.1 hpos.symm))

/-- The selection with `v` available and the selection without it. -/
theorem selectWorker_without (sort sort' : StdSort) {lb lb' : LoadBalancer} {now now' : Int} {taskId v : Bytes}
    (hstrategy : lb.strategy = .CONSISTENT_HASH) (hstrategy' : lb'.strategy = .CONSISTENT_HASH)
    (hdistinct : Set.InjOn hash (lb.availableSet now))
    (hwithout : lb'.availableSet now' = lb.availableSet now \ {v})
    (htask : taskId ≠ []) (hv : (lb.selectWorker sort taskId now).1 ≠ v) :
    (lb'.selectWorker sort' taskId now').1 = (lb.selectWorker sort taskId now).1 := by
  by_cases hne : (lb.availableSet now).Nonempty
  · have hnearest := (selectWorker_nearest sort hstrategy hdistinct htask hne).diff hv
    rw [← hwithout] at hnearest
    have hdistinct' : Set.InjOn hash (lb'.availableSet now') := by
      rw [hwithout]
      exact hdistinct.mono Set.sdiff_subset
    exact (selectWorker_nearest sort' hstrategy' hdistinct' htask ⟨_, hnearest.mem⟩).unique hnearest
  · rw [Set.not_nonempty_iff_eq_empty] at hne
    rw [selectWorker_nobody sort taskId hne,
      selectWorker_nobody sort' taskId (by rw [hwithout, hne, Set.empty_sdiff])]

end LoadBalancer

open LoadBalancer in
/-- Consistent hashing selects the nearest available worker clockwise, which is the only one; when a worker leaves,
the tasks of the others keep theirs, and when it joins, a task that changes its worker changes to it. -/
theorem consistent_hashing (sort sort' : StdSort) {lb lb' : LoadBalancer} {now now' : Int} {taskId : Bytes}
    (hstrategy : lb.strategy = .CONSISTENT_HASH) (hdistinct : Set.InjOn hash (lb.availableSet now))
    (htask : taskId ≠ []) :
    ((lb.availableSet now).Nonempty → ∀ w, (lb.selectWorker sort taskId now).1 = w ↔
      w ∈ lb.availableSet now ∧ ∀ b ∈ lb.availableSet now, b ≠ w →
      distance taskId w < distance taskId b) ∧
    ∀ v, lb'.strategy = .CONSISTENT_HASH → lb'.availableSet now' = lb.availableSet now \ {v} →
      ((lb.selectWorker sort taskId now).1 ≠ v →
        (lb'.selectWorker sort' taskId now').1 = (lb.selectWorker sort taskId now).1) ∧
      ((lb.selectWorker sort taskId now).1 ≠ (lb'.selectWorker sort' taskId now').1 →
        (lb.selectWorker sort taskId now).1 = v) := by
  constructor
  · intro hne w
    have hnearest := selectWorker_nearest sort hstrategy hdistinct htask hne
    constructor
    · rintro rfl
      exact ⟨hnearest.mem, hnearest.lt⟩
    · rintro ⟨hmem, hlt⟩
      exact hnearest.unique ⟨hmem, hlt⟩
  · intro v hstrategy' hwithout
    have hkeep := selectWorker_without sort sort' hstrategy hstrategy' hdistinct hwithout htask
    refine ⟨hkeep, ?_⟩
    intro hchange
    by_contra hv
    exact hchange (hkeep hv).symm

/-- A registry that lists two workers, -/
def bothJoin : Timed BalancerOp :=
  ⟨.updateWorkers [(⟨bytes "worker", bytes "worker-1", bytes "host", 50052⟩, 0),
    (⟨bytes "worker", bytes "worker-2", bytes "host", 50053⟩, 0)], 0⟩

open LoadBalancer in
/-- and one of them is marked dead. -/
theorem consistent_hashing_oneDead :
    ((afterCalls .stable (bytes "consistent_hash") [bothJoin]).selectWorker .stable (bytes "17") 5).1 =
        bytes "worker-1" ∨
      ((afterCalls .stable (bytes "consistent_hash")
        [⟨.markWorkerDead (bytes "worker-1"), 1⟩, bothJoin]).selectWorker
        .stable (bytes "17") 5).1 =
        ((afterCalls .stable (bytes "consistent_hash") [bothJoin]).selectWorker .stable (bytes "17") 5).1 := by
  have hboth : ((afterCalls .stable (bytes "consistent_hash") [bothJoin]).available 5).map (·.1) =
      [bytes "worker-1", bytes "worker-2"] := by decide
  have hone : ((afterCalls .stable (bytes "consistent_hash")
      [⟨.markWorkerDead (bytes "worker-1"), 1⟩, bothJoin]).available 5).map (·.1) = [bytes "worker-2"] := by decide
  refine or_iff_not_imp_left.2 ((consistent_hashing .stable .stable (by decide) ?_ (by decide)).2 (bytes "worker-1")
    (by decide) ?_).1
  · intro a ha b hb hab
    rw [mem_availableSet, hboth] at ha hb
    simp only [List.mem_cons, List.not_mem_nil, or_false] at ha hb
    rcases ha with rfl | rfl <;> rcases hb with rfl | rfl
    · rfl
    · exact absurd hab (by decide)
    · exact absurd hab (by decide)
    · rfl
  · ext id
    rw [Set.mem_sdiff, mem_availableSet, mem_availableSet, hone, hboth, Set.mem_singleton_iff]
    simp only [List.mem_cons, List.not_mem_nil, or_false]
    constructor
    · rintro rfl
      exact ⟨Or.inr rfl, by decide⟩
    · rintro ⟨h | h, hne⟩
      · exact absurd h hne
      · exact h

end Taskflow
