import Taskflow.Lib.Turns
import Taskflow.WorkerSelection

/-!
# Round robin and least connection

While the same workers are available, round robin takes them in turn: the candidates are listed by their ids, so the
list is the same at every call, and the index advances by one (`selections_eq_turns`, `roundRobin_fair`).  Least
connection takes the first worker of smallest load in that list (`leastConnectionSelect_minimum`).
-/

namespace Taskflow

open Text History Turns

namespace LoadBalancer

/-- The ids of the available workers, in order. -/
def availableIds (lb : LoadBalancer) (now : Int) : List Bytes := (lb.available now).map (·.1)

theorem mem_availableIds {lb : LoadBalancer} {now : Int} {id : Bytes} :
    id ∈ lb.availableIds now ↔ (lb.isWorkerAvailable id now).1 = true := by
  rw [(isWorkerAvailable_eq lb id now).1, availableIds, List.mem_map]
  constructor
  · rintro ⟨⟨id, node⟩, hmem, rfl⟩
    exact (mem_available.1 hmem).2
  · intro hask
    cases hnode : (lb.entry id).node with
    | none =>
      unfold WorkerEntry.ask at hask
      rw [hnode] at hask
      cases hask
    | some node => exact ⟨(id, node), mem_available.2 ⟨hnode, hask⟩, rfl⟩

theorem available_ordered (lb : LoadBalancer) (now : Int) :
    (lb.available now).Pairwise fun p q => compare p.1 q.1 = .lt :=
  Std.ExtTreeMap.ordered_keys_toList.filter _

theorem availableIds_ordered (lb : LoadBalancer) (now : Int) :
    (lb.availableIds now).Pairwise fun a b => compare a b = .lt :=
  List.pairwise_map.2 (lb.available_ordered now)

theorem nodup_of_ordered {l : List Bytes} (h : l.Pairwise fun a b => compare a b = .lt) : l.Nodup := by
  refine h.imp ?_
  rintro a b hlt rfl
  have hself : compare a a = .eq := Std.ReflCmp.compare_self
  rw [hself] at hlt
  cases hlt

/-- The order of the candidates is that of their ids. -/
theorem ordered_unique {l l' : List Bytes} (h : l.Pairwise fun a b => compare a b = .lt)
    (h' : l'.Pairwise fun a b => compare a b = .lt) (hmem : ∀ a, a ∈ l ↔ a ∈ l') : l = l' := by
  have hperm : l.Perm l' := (List.perm_ext_iff_of_nodup (nodup_of_ordered h) (nodup_of_ordered h')).2 hmem
  refine hperm.eq_of_pairwise ?_ h h'
  intro a b _ _ hab hba
  have hswap : compare a b = (compare b a).swap := Std.OrientedCmp.eq_swap
  rw [hswap, hba] at hab
  cases hab

/-! ### Round robin -/

/-- What the `selectWorker` calls of a run return. -/
def selections (sort : StdSort) : LoadBalancer → List (Timed BalancerOp) → List Bytes
  | _, [] => []
  | lb, call :: calls =>
    match call.op with
    | .selectWorker taskId =>
        (lb.selectWorker sort taskId call.time).1 :: selections sort (lb.apply sort call) calls
    | _ => selections sort (lb.apply sort call) calls

/-- Every `selectWorker` call of the run is by round robin and finds the workers of `A` available. -/
def SameAvailable (sort : StdSort) (A : Finset Bytes) : LoadBalancer → List (Timed BalancerOp) → Prop
  | _, [] => True
  | lb, call :: calls =>
    (∀ taskId, call.op = .selectWorker taskId →
      lb.strategy = .ROUND_ROBIN ∧ ∀ id, (lb.isWorkerAvailable id call.time).1 = true ↔ id ∈ A) ∧
        SameAvailable sort A (lb.apply sort call) calls

section Index

variable {lb : LoadBalancer} {workerId : Bytes} {now : Int}

theorem modifyNode_roundRobinIndex (change : WorkerNode → WorkerNode) :
    (lb.modifyNode workerId change).roundRobinIndex = lb.roundRobinIndex := by
  unfold modifyNode
  split <;> rfl

theorem modifyBreaker_roundRobinIndex (change : CircuitBreaker → CircuitBreaker) :
    (lb.modifyBreaker workerId change).roundRobinIndex = lb.roundRobinIndex := by
  unfold modifyBreaker
  split <;> rfl

theorem forAvailable_roundRobinIndex {β : Type} (visit : β → Bytes → WorkerNode → β) (start : β) :
    (lb.forAvailable now visit start).2.roundRobinIndex = lb.roundRobinIndex := by
  have hloop : ∀ (l : List (Bytes × WorkerNode)) (state : β × LoadBalancer),
      (l.foldl (visitAvailable now visit) state).2.roundRobinIndex = state.2.roundRobinIndex := by
    intro l
    induction l with
    | nil => exact fun _ => rfl
    | cons p l ih =>
      intro state
      rw [List.foldl_cons, ih]
      unfold visitAvailable
      split
      · rfl
      · dsimp only
        split
        · exact modifyBreaker_roundRobinIndex _
        · exact modifyBreaker_roundRobinIndex _
  exact hloop _ _

theorem updateWorkers_roundRobinIndex (services : List (ServiceInfo × Int64)) :
    (lb.updateWorkers services now).roundRobinIndex = lb.roundRobinIndex := by
  have hlist : ∀ (l : List (ServiceInfo × Int64)) (state : StringMap Bool × LoadBalancer),
      (l.foldl (fun state listed =>
        (state.1.insert listed.1.id true, updateWorker state.2 listed.1 listed.2 now)) state).2.roundRobinIndex =
          state.2.roundRobinIndex := by
    intro l
    induction l with
    | nil => exact fun _ => rfl
    | cons s l ih =>
      intro state
      rw [List.foldl_cons, ih]
      dsimp only
      unfold updateWorker
      split <;> rfl
  have herase : ∀ (current : StringMap Bool) (l : List (Bytes × WorkerNode)) (lb : LoadBalancer),
      (l.foldl (fun lb (p : Bytes × WorkerNode) =>
        if p.1 ∈ current then lb else lb.eraseWorker p.1) lb).roundRobinIndex = lb.roundRobinIndex := by
    intro current l
    induction l with
    | nil => exact fun _ => rfl
    | cons p l ih =>
      intro lb
      rw [List.foldl_cons, ih]
      split <;> rfl
  exact (herase _ _ _).trans (hlist services (∅, lb))

theorem isWorkerAvailable_roundRobinIndex :
    (lb.isWorkerAvailable workerId now).2.roundRobinIndex = lb.roundRobinIndex := by
  unfold isWorkerAvailable
  split
  · rfl
  · split
    · rfl
    · exact modifyBreaker_roundRobinIndex _

theorem setStrategy_roundRobinIndex (strategy : Bytes) :
    (lb.setStrategy strategy).roundRobinIndex = lb.roundRobinIndex := by
  unfold setStrategy
  split
  · rfl
  · split
    · rfl
    · split <;> rfl

/-- Only a selection advances the index. -/
theorem apply_roundRobinIndex (sort : StdSort) {call : Timed BalancerOp}
    (h : ∀ taskId, call.op ≠ .selectWorker taskId) :
    (lb.apply sort call).roundRobinIndex = lb.roundRobinIndex := by
  obtain ⟨op, now⟩ := call
  cases op with
  | setStrategy strategy => exact setStrategy_roundRobinIndex strategy
  | updateWorkers services => exact updateWorkers_roundRobinIndex services
  | updateWorkerLoad workerId load => exact modifyNode_roundRobinIndex _
  | removeWorker workerId => rfl
  | markWorkerDead workerId => exact modifyNode_roundRobinIndex _
  | selectWorker taskId => exact absurd rfl (h taskId)
  | isWorkerAvailable workerId => exact isWorkerAvailable_roundRobinIndex
  | recordSuccess workerId => exact modifyBreaker_roundRobinIndex _
  | recordFailure workerId => exact modifyBreaker_roundRobinIndex _

end Index

section RoundRobin

variable {lb : LoadBalancer} {now : Int} {l : List Bytes}

/-- The candidate whose turn it is; the index advances by one. -/
theorem selectWorker_roundRobin (sort : StdSort) (taskId : Bytes) (hstrategy : lb.strategy = .ROUND_ROBIN)
    (hids : lb.availableIds now = l) (hne : l ≠ []) :
    l[lb.roundRobinIndex.toNat % l.length]? = some (lb.selectWorker sort taskId now).1 ∧
      (lb.selectWorker sort taskId now).2.roundRobinIndex = lb.roundRobinIndex + 1 := by
  have hlist := lb.forAvailable_fst now (fun ids workerId _ => ids ++ [workerId]) []
  rw [foldl_append fun p : Bytes × WorkerNode => p.1, List.nil_append] at hlist
  have hlist' : (lb.forAvailable now (fun ids workerId _ => ids ++ [workerId]) []).1 = l := hlist.trans hids
  have hworkers : lb.workers.isEmpty = false := by
    rw [Bool.eq_false_iff]
    intro hempty
    rw [Std.ExtTreeMap.isEmpty_iff] at hempty
    refine hne ?_
    rw [← hids, availableIds, available, hempty]
    rfl
  have hpos : lb.roundRobinIndex.toNat % l.length < l.length := Nat.mod_lt _ (List.length_pos_iff.2 hne)
  have hselect : lb.selectWorker sort taskId now = lb.roundRobinSelect now := by
    unfold selectWorker
    rw [hworkers, hstrategy]
    rfl
  rw [hselect]
  unfold roundRobinSelect
  dsimp only
  rw [hlist', if_neg (by simpa using hne), forAvailable_roundRobinIndex]
  refine ⟨?_, rfl⟩
  rw [List.getElem?_eq_getElem hpos, List.getD_eq_getElem _ _ hpos]

/-- While the same workers are available, they are selected in turn. -/
theorem selections_eq_turns (sort : StdSort) {A : Finset Bytes} (hl : l.Pairwise fun a b => compare a b = .lt)
    (hA : ∀ id, id ∈ l ↔ id ∈ A) (hne : l ≠ []) {calls : List (Timed BalancerOp)} {start : Nat}
    (hsame : SameAvailable sort A lb calls) (hindex : lb.roundRobinIndex = UInt64.ofNat start)
    (hwrap : start + (selections sort lb calls).length ≤ 2 ^ 64) :
    selections sort lb calls = turns l start (selections sort lb calls).length := by
  induction calls generalizing lb start with
  | nil => rfl
  | cons call calls ih =>
    obtain ⟨hcall, hrest⟩ := hsame
    by_cases hselect : ∃ taskId, call.op = .selectWorker taskId
    · obtain ⟨taskId, hop⟩ := hselect
      obtain ⟨hstrategy, havailable⟩ := hcall taskId hop
      have hids : lb.availableIds call.time = l := by
        refine ordered_unique (lb.availableIds_ordered _) hl fun id => ?_
        rw [mem_availableIds, havailable, hA]
      have hsplit : selections sort lb (call :: calls) =
          (lb.selectWorker sort taskId call.time).1 :: selections sort (lb.apply sort call) calls := by
        simp only [selections, hop]
      have happly : lb.apply sort call = (lb.selectWorker sort taskId call.time).2 := by
        simp only [apply, hop]
      rw [hsplit, List.length_cons] at hwrap
      -- the index has not wrapped before this call
      have hstart : lb.roundRobinIndex.toNat = start := by
        rw [hindex, UInt64.toNat_ofNat', Nat.mod_eq_of_lt (by omega)]
      obtain ⟨hturn, hadvance⟩ := selectWorker_roundRobin sort taskId hstrategy hids hne
      rw [hstart] at hturn
      have hnext : (lb.apply sort call).roundRobinIndex = UInt64.ofNat (start + 1) := by
        rw [happly, hadvance, hindex, UInt64.ofNat_add]
        rfl
      have htail := ih hrest hnext (by omega)
      rw [hsplit, List.length_cons, turns, hturn, Option.toList_some, List.singleton_append, ← htail]
    · have hother : ∀ taskId, call.op ≠ .selectWorker taskId := fun taskId hop => hselect ⟨taskId, hop⟩
      have hsplit : selections sort lb (call :: calls) = selections sort (lb.apply sort call) calls := by
        obtain ⟨op, time⟩ := call
        cases op with
        | selectWorker taskId => exact absurd rfl (hother taskId)
        | _ => rfl
      rw [hsplit] at hwrap ⊢
      exact ih hrest ((apply_roundRobinIndex sort hother).trans hindex) hwrap

/-- In a run during which the same workers are available at each `selectWorker` call and the index does not
wrap, from any balancer, each of them is selected equally often, up to one; and once, if there are as many calls
as workers.  A window of a run is a run from the balancer at its start. -/
theorem roundRobin_fair (sort : StdSort) {A : Finset Bytes} {calls : List (Timed BalancerOp)}
    (hsame : SameAvailable sort A lb calls)
    (hwrap : lb.roundRobinIndex.toNat + (selections sort lb calls).length ≤ 2 ^ 64) :
    ∀ id ∈ A,
      ((selections sort lb calls).count id = (selections sort lb calls).length / A.card ∨
        (selections sort lb calls).count id = ((selections sort lb calls).length + A.card - 1) / A.card) ∧
      ((selections sort lb calls).length = A.card → (selections sort lb calls).count id = 1) := by
  intro id hid
  -- the candidates in the order of their ids
  obtain ⟨l, hl, hA⟩ : ∃ l : List Bytes, (l.Pairwise fun a b => compare a b = .lt) ∧ ∀ id,
      id ∈ l ↔ id ∈ A := by
    refine ⟨(Std.ExtTreeSet.ofList A.toList).toList, Std.ExtTreeSet.ordered_toList, fun id => ?_⟩
    rw [Std.ExtTreeSet.mem_toList, Std.ExtTreeSet.mem_ofList, List.contains_iff_mem, Finset.mem_toList]
  have hmem : id ∈ l := (hA id).2 hid
  have hnodup := nodup_of_ordered hl
  have hcard : A.card = l.length := by
    rw [← List.toFinset_card_of_nodup hnodup]
    congr 1
    ext a
    rw [List.mem_toFinset, hA]
  have hturns := selections_eq_turns sort hl hA (List.ne_nil_of_mem hmem) hsame (UInt64.ofNat_toNat).symm hwrap
  rw [hcard]
  generalize selections sort lb calls = selected at *
  constructor
  · have hcount := count_turns hnodup hmem lb.roundRobinIndex.toNat selected.length
    rwa [← hturns] at hcount
  · intro hround
    have hcount := count_round hnodup hmem lb.roundRobinIndex.toNat
    rwa [← hround, ← hturns] at hcount

/-- Two workers under round robin, -/
def twoWorkers : LoadBalancer := afterCalls .stable (bytes "round_robin")
  [⟨.updateWorkers [(⟨bytes "worker", bytes "worker-1", bytes "host", 50052⟩, 0),
    (⟨bytes "worker", bytes "worker-2", bytes "host", 50053⟩, 0)], 0⟩]

/-- and two selections with a report of a load between them. -/
def twoSelections : List (Timed BalancerOp) :=
  [⟨.selectWorker (bytes "1"), 1⟩, ⟨.updateWorkerLoad (bytes "worker-1") 7, 2⟩,
    ⟨.selectWorker (bytes "2"), 3⟩]

private theorem sameAvailable_twoSelections :
    SameAvailable .stable {bytes "worker-1", bytes "worker-2"} twoWorkers twoSelections := by
  have hids : ∀ {lb : LoadBalancer} {now : Int}, lb.availableIds now = [bytes "worker-1", bytes "worker-2"] →
      ∀ id, (lb.isWorkerAvailable id now).1 = true ↔ id ∈ ({bytes "worker-1", bytes "worker-2"} :
          Finset Bytes) := by
    intro lb now h id
    rw [← mem_availableIds, h]
    simp
  refine ⟨?_, ?_, ?_, trivial⟩
  · intro taskId _
    exact ⟨by decide, hids (by decide)⟩
  · intro taskId hop
    cases hop
  · intro taskId _
    exact ⟨by decide, hids (by decide)⟩

theorem roundRobin_fair_twoSelections :
    (selections .stable twoWorkers twoSelections).count (bytes "worker-2") = 1 :=
  (roundRobin_fair .stable sameAvailable_twoSelections (by decide) (bytes "worker-2") (by decide)).2 (by decide)

end RoundRobin

/-! ### Least connection -/

section LeastConnection

variable {lb : LoadBalancer} {now : Int}

/-- The loop of `leastConnectionSelect` keeps the first worker of smallest load. -/
theorem lessLoaded_first (l : List (Bytes × WorkerNode)) (best : Bytes × WorkerNode) :
    ∃ p, l.foldl (fun best p => lessLoaded best p.1 p.2) (some best) = some p ∧
      ((p = best ∧ ∀ q ∈ l, best.2.currentLoad ≤ q.2.currentLoad) ∨
        ∃ before after, l = before ++ p :: after ∧ p.2.currentLoad < best.2.currentLoad ∧
          (∀ q ∈ before, p.2.currentLoad < q.2.currentLoad) ∧ ∀ q ∈ after,
            p.2.currentLoad ≤ q.2.currentLoad) := by
  induction l generalizing best with
  | nil => exact ⟨best, rfl, .inl ⟨rfl, fun _ hq => nomatch hq⟩⟩
  | cons r l ih =>
    rw [List.foldl_cons]
    by_cases hless : r.2.currentLoad < best.2.currentLoad
    · have hstep : lessLoaded (some best) r.1 r.2 = some r := if_pos hless
      rw [hstep]
      obtain ⟨p, hp, ⟨rfl, hall⟩ | ⟨before, after, rfl, hbest, hbefore, hafter⟩⟩ := ih r
      · exact ⟨p, hp, .inr ⟨[], l, rfl, hless, fun _ hq => (nomatch hq), hall⟩⟩
      · refine ⟨p, hp, .inr ⟨r :: before, after, rfl, Int32.lt_trans hbest hless, ?_, hafter⟩⟩
        rw [List.forall_mem_cons]
        exact ⟨hbest, hbefore⟩
    · have hstep : lessLoaded (some best) r.1 r.2 = some best := if_neg hless
      have hle : best.2.currentLoad ≤ r.2.currentLoad := Int32.not_lt.1 hless
      rw [hstep]
      obtain ⟨p, hp, ⟨rfl, hall⟩ | ⟨before, after, rfl, hbest, hbefore, hafter⟩⟩ := ih best
      · refine ⟨p, hp, .inl ⟨rfl, ?_⟩⟩
        rw [List.forall_mem_cons]
        exact ⟨hle, hall⟩
      · refine ⟨p, hp, .inr ⟨r :: before, after, rfl, hbest, ?_, hafter⟩⟩
        rw [List.forall_mem_cons]
        exact ⟨Int32.lt_of_lt_of_le hbest hle, hbefore⟩

/-- The worker that the loop over the candidates ends with. -/
theorem lessLoaded_nonempty {l : List (Bytes × WorkerNode)} (hne : l ≠ []) :
    ∃ p before after, l.foldl (fun best p => lessLoaded best p.1 p.2) none = some p ∧ l = before ++ p :: after ∧
      (∀ q ∈ before, p.2.currentLoad < q.2.currentLoad) ∧ ∀ q ∈ after,
        p.2.currentLoad ≤ q.2.currentLoad := by
  cases l with
  | nil => exact absurd rfl hne
  | cons r l =>
    obtain ⟨p, hp, ⟨rfl, hall⟩ | ⟨before, after, rfl, hbest, hbefore, hafter⟩⟩ := lessLoaded_first l r
    · exact ⟨p, [], l, hp, rfl, fun _ hq => (nomatch hq), hall⟩
    · refine ⟨p, r :: before, after, hp, rfl, ?_, hafter⟩
      rw [List.forall_mem_cons]
      exact ⟨hbest, hbefore⟩

/-- Least connection selects an available worker of smallest load, the one with the smallest id among these, and
nothing if no worker is available. -/
theorem leastConnectionSelect_minimum (lb : LoadBalancer) (now : Int) :
    ((∃ id, (lb.isWorkerAvailable id now).1 = true) →
      (lb.isWorkerAvailable (lb.leastConnectionSelect now).1 now).1 = true ∧
        ∃ best, lb.workers[(lb.leastConnectionSelect now).1]? = some best ∧
          ∀ (id : Bytes) (node : WorkerNode), lb.workers[id]? = some node →
          (lb.isWorkerAvailable id now).1 = true →
            best.currentLoad ≤ node.currentLoad ∧
              (node.currentLoad = best.currentLoad → compare (lb.leastConnectionSelect now).1 id ≠ .gt)) ∧
      ((∀ id, (lb.isWorkerAvailable id now).1 = false) → (lb.leastConnectionSelect now).1 = []) := by
  have hresult : (lb.leastConnectionSelect now).1 =
      (((lb.available now).foldl (fun best p => lessLoaded best p.1 p.2) none).map (·.1)).getD [] := by
    rw [← lb.forAvailable_fst now lessLoaded none]
    rfl
  constructor
  · rintro ⟨id, havailable⟩
    have hne : lb.available now ≠ [] := by
      intro hempty
      rw [← mem_availableIds, availableIds, hempty] at havailable
      cases havailable
    obtain ⟨p, before, after, hbest, hsplit, hbefore, hafter⟩ := lessLoaded_nonempty hne
    rw [hbest] at hresult
    have hid : (lb.leastConnectionSelect now).1 = p.1 := hresult
    have hmem : p ∈ lb.available now := by
      rw [hsplit]
      simp
    rw [hid]
    refine ⟨mem_availableIds.1 (List.mem_map_of_mem hmem), p.2, (mem_available.1 hmem).1, ?_⟩
    intro id node hnode hask
    rw [(isWorkerAvailable_eq lb id now).1] at hask
    -- a candidate before the chosen one has a greater load, one after it a greater id
    have hcandidate : (id, node) ∈ before ++ p :: after := hsplit ▸ mem_available.2 ⟨hnode, hask⟩
    rcases List.mem_append.1 hcandidate with hmem | hmem
    · have hless := hbefore _ hmem
      refine ⟨Int32.le_of_lt hless, fun heq => ?_⟩
      rw [heq] at hless
      exact (Int32.lt_irrefl hless).elim
    · rcases List.mem_cons.1 hmem with rfl | hmem
      · have hself : compare id id = .eq := Std.ReflCmp.compare_self
        exact ⟨Int32.le_refl _, fun _ => by rw [hself]; decide⟩
      · have hordered := lb.available_ordered now
        rw [hsplit, List.pairwise_append, List.pairwise_cons] at hordered
        have hlt : compare p.1 id = .lt := hordered.2.1.1 _ hmem
        exact ⟨hafter _ hmem, fun _ => by rw [hlt]; decide⟩
  · intro hnone
    have hempty : lb.available now = [] := by
      rw [List.eq_nil_iff_forall_not_mem]
      intro p hp
      have havailable := mem_availableIds.1 (List.mem_map_of_mem hp)
      rw [hnone] at havailable
      cases havailable
    rw [hresult, hempty]
    rfl

end LeastConnection

end LoadBalancer

end Taskflow
