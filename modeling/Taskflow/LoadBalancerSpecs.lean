import Taskflow.LoadBalancer

/-!
# The load balancer worker by worker

What the balancer knows of one worker is its `entry`, the node and the breaker.  Each operation acts on the entries
one by one (`updateWorkers_entry` and its siblings), so the balancer is a family of independent entries.  They keep
that an entry has both parts or none (`Consistent`).
-/

namespace Taskflow

open Text History

structure WorkerEntry where
  node : Option WorkerNode
  breaker : Option CircuitBreaker

namespace WorkerEntry

def absent : WorkerEntry := ⟨none, none⟩

/-- A service is listed by `updateWorkers`. -/
def list (service : ServiceInfo) (heartbeat : Int64) (now : Int) (e : WorkerEntry) : WorkerEntry :=
  match e.node with
  | none =>
    ⟨some { id := service.id, address := service.address, port := service.port, currentLoad := 0,
            status := LoadBalancer.active, lastHeartbeat := heartbeat, lastCheck := now },
      some { name := service.id, config := {} }⟩
  | some node =>
    ⟨some { node with address := service.address, port := service.port, lastHeartbeat := heartbeat }, e.breaker⟩

def listed (services : List (ServiceInfo × Int64)) (workerId : Bytes) : Bool :=
  services.any fun s => s.1.id = workerId

@[simp] theorem listed_iff {services : List (ServiceInfo × Int64)} {workerId : Bytes} :
    listed services workerId = true ↔ workerId ∈ services.map (·.1.id) := by
  simp [listed]

/-- The entry after a loop of `updateWorkers` over `services`. -/
def listAll (workerId : Bytes) (services : List (ServiceInfo × Int64)) (now : Int)
    (e : WorkerEntry) : WorkerEntry :=
  (services.filter fun s => s.1.id = workerId).foldl (fun e s => e.list s.1 s.2 now) e

/-- The worker is asked whether it takes a request, if it is active. -/
def ask (now : Int) (e : WorkerEntry) : Bool × WorkerEntry :=
  if e.node.any fun node => node.status = LoadBalancer.active then
    (e.breaker.all fun b => (b.allowRequest now).1, ⟨e.node, e.breaker.map fun b => (b.allowRequest now).2⟩)
  else (false, e)

theorem list_node (service : ServiceInfo) (heartbeat : Int64) (now : Int) (e : WorkerEntry) :
    (e.list service heartbeat now).node.isSome = true := by
  unfold list
  split <;> rfl

theorem list_breaker_of_node {e : WorkerEntry} (service : ServiceInfo) (heartbeat : Int64) (now : Int)
    (h : e.node.isSome = true) : (e.list service heartbeat now).breaker = e.breaker := by
  unfold list
  split
  · rename_i hnone
    rw [hnone] at h
    cases h
  · rfl

private theorem foldl_list_breaker (now : Int) (l : List (ServiceInfo × Int64)) {e : WorkerEntry}
    (h : e.node.isSome = true) : (l.foldl (fun e s => e.list s.1 s.2 now) e).breaker = e.breaker := by
  induction l generalizing e with
  | nil => rfl
  | cons s l ih =>
    rw [List.foldl_cons, ih (list_node s.1 s.2 now e)]
    exact list_breaker_of_node s.1 s.2 now h

/-- A worker that is there keeps its breaker, -/
theorem listAll_breaker_of_node {workerId : Bytes} {e : WorkerEntry}
    (services : List (ServiceInfo × Int64)) (now : Int)
    (h : e.node.isSome = true) : (e.listAll workerId services now).breaker = e.breaker :=
  foldl_list_breaker now _ h

/-- a new one gets a fresh breaker. -/
theorem listAll_breaker_of_new {workerId : Bytes} {e : WorkerEntry}
    {services : List (ServiceInfo × Int64)} (now : Int)
    (h : e.node = none) (hlisted : workerId ∈ services.map (·.1.id)) :
    (e.listAll workerId services now).breaker = some { name := workerId, config := {} } := by
  obtain ⟨s, hs, hid⟩ := List.mem_map.1 hlisted
  unfold listAll
  cases hl : services.filter fun s => s.1.id = workerId with
  | nil =>
    rw [List.filter_eq_nil_iff] at hl
    exact absurd (by simpa using hid) (hl s hs)
  | cons t l =>
    have ht : t ∈ services.filter fun s => s.1.id = workerId := hl ▸ List.mem_cons_self
    rw [List.mem_filter, decide_eq_true_eq] at ht
    rw [List.foldl_cons, foldl_list_breaker now l (list_node t.1 t.2 now e), list, h, ← ht.2]

/-- A member that `updateWorkers` sets in new nodes only: a known worker keeps it however often it is listed, a new
worker gets the initial value. -/
theorem listAll_member {α : Type} {member : WorkerNode → α} {initial : α} {workerId : Bytes} {e : WorkerEntry}
    {services : List (ServiceInfo × Int64)} {now : Int}
    (hnew : ∀ service heartbeat, ((absent.list service heartbeat now).node.map member) = some initial)
    (hkept : ∀ service heartbeat node,
      ((WorkerEntry.mk (some node) none).list service heartbeat now).node.map member = some (member node))
    (hlisted : listed services workerId = true) :
    (e.listAll workerId services now).node.map member = some ((e.node.map member).getD initial) := by
  have hone : ∀ (e : WorkerEntry) (s : ServiceInfo × Int64),
      (e.list s.1 s.2 now).node.map member = some ((e.node.map member).getD initial) := by
    intro e s
    obtain ⟨node, breaker⟩ := e
    cases node with
    | none => exact hnew s.1 s.2
    | some node => exact hkept s.1 s.2 node
  have hall : ∀ (l : List (ServiceInfo × Int64)) (e : WorkerEntry), l ≠ [] →
      (l.foldl (fun e s => e.list s.1 s.2 now) e).node.map member = some ((e.node.map member).getD initial) := by
    intro l
    induction l with
    | nil => exact fun _ hne => absurd rfl hne
    | cons s l ih =>
      intro e _
      rw [List.foldl_cons]
      cases l with
      | nil => exact hone e s
      | cons t l => rw [ih _ (List.cons_ne_nil t l), hone e s, Option.getD_some]
  refine hall _ e ?_
  obtain ⟨s, hs, hid⟩ := List.any_eq_true.1 hlisted
  exact List.ne_nil_of_mem (List.mem_filter.2 ⟨hs, hid⟩)

/-- An entry has a node, under the worker's id, and a breaker, or neither. -/
def Consistent (workerId : Bytes) (e : WorkerEntry) : Prop :=
  e = absent ∨ ∃ node breaker, e = ⟨some node, some breaker⟩ ∧ node.id = workerId

theorem consistent_list {service : ServiceInfo} {heartbeat : Int64} {now : Int} {e : WorkerEntry}
    (h : Consistent service.id e) : Consistent service.id (e.list service heartbeat now) := by
  rcases h with rfl | ⟨node, breaker, rfl, hid⟩
  · exact Or.inr ⟨_, _, rfl, rfl⟩
  · exact Or.inr ⟨_, _, rfl, hid⟩

theorem consistent_listAll {workerId : Bytes} {services : List (ServiceInfo × Int64)} {now : Int} {e : WorkerEntry}
    (h : Consistent workerId e) : Consistent workerId (e.listAll workerId services now) := by
  unfold listAll
  induction services generalizing e with
  | nil => exact h
  | cons s services ih =>
    by_cases hid : s.1.id = workerId
    · rw [List.filter_cons_of_pos (by simpa using hid), List.foldl_cons]
      refine ih ?_
      rw [← hid] at h ⊢
      exact consistent_list h
    · rw [List.filter_cons_of_neg (by simpa using hid)]
      exact ih h

theorem consistent_map {workerId : Bytes} {change : WorkerNode → WorkerNode} {e : WorkerEntry}
    (h : Consistent workerId e) (hid : ∀ node, (change node).id = node.id) :
    Consistent workerId ⟨e.node.map change, e.breaker⟩ := by
  rcases h with rfl | ⟨node, breaker, rfl, hnode⟩
  · exact Or.inl rfl
  · exact Or.inr ⟨_, _, rfl, (hid node).trans hnode⟩

theorem consistent_mapBreaker {workerId : Bytes} {e : WorkerEntry} (h : Consistent workerId e)
    (change : CircuitBreaker → CircuitBreaker) : Consistent workerId ⟨e.node, e.breaker.map change⟩ := by
  rcases h with rfl | ⟨node, breaker, rfl, hnode⟩
  · exact Or.inl rfl
  · exact Or.inr ⟨_, _, rfl, hnode⟩

theorem consistent_ask {workerId : Bytes} {now : Int} {e : WorkerEntry} (h : Consistent workerId e) :
    Consistent workerId (e.ask now).2 := by
  unfold ask
  split
  · rcases h with rfl | ⟨node, breaker, rfl, hid⟩
    · exact Or.inl rfl
    · exact Or.inr ⟨_, _, rfl, hid⟩
  · exact h

end WorkerEntry

namespace LoadBalancer

open WorkerEntry

def entry (lb : LoadBalancer) (workerId : Bytes) : WorkerEntry :=
  ⟨lb.workers[workerId]?, lb.circuitBreakers[workerId]?⟩

theorem mem_workers_iff {lb : LoadBalancer} {id : Bytes} : id ∈ lb.workers ↔ (lb.entry id).node.isSome = true :=
  Std.ExtTreeMap.mem_iff_isSome_getElem?

theorem mem_breakers_iff {lb : LoadBalancer} {id : Bytes} :
    id ∈ lb.circuitBreakers ↔ (lb.entry id).breaker.isSome = true :=
  Std.ExtTreeMap.mem_iff_isSome_getElem?

/-! ### Operations on one worker -/

theorem setStrategy_entry (lb : LoadBalancer) (strategy id : Bytes) :
    (lb.setStrategy strategy).entry id = lb.entry id := by
  unfold setStrategy
  split
  · rfl
  · split
    · rfl
    · split <;> rfl

theorem updateWorker_entry (lb : LoadBalancer) (service : ServiceInfo) (heartbeat : Int64)
    (now : Int) (id : Bytes) :
    (lb.updateWorker service heartbeat now).entry id =
      if service.id = id then (lb.entry id).list service heartbeat now else lb.entry id := by
  unfold updateWorker
  by_cases hid : service.id = id
  · subst hid
    cases h : lb.workers[service.id]? with
    | none => simp [entry, WorkerEntry.list, h]
    | some node => simp [entry, WorkerEntry.list, h]
  · cases h : lb.workers[service.id]? with
    | none => simp [entry, hid]
    | some node => simp [entry, hid]

theorem eraseWorker_entry (lb : LoadBalancer) (workerId id : Bytes) :
    (lb.eraseWorker workerId).entry id = if workerId = id then absent else lb.entry id := by
  unfold eraseWorker entry
  by_cases hid : workerId = id
  · simp [hid, absent]
  · simp [hid]

theorem modifyNode_entry (lb : LoadBalancer) (workerId : Bytes) (change : WorkerNode → WorkerNode) (id : Bytes) :
    (lb.modifyNode workerId change).entry id =
      if workerId = id then ⟨(lb.entry id).node.map change, (lb.entry id).breaker⟩ else lb.entry id := by
  unfold modifyNode
  by_cases hid : workerId = id
  · subst hid
    cases h : lb.workers[workerId]? with
    | none => simp [entry, h]
    | some node => simp [entry, h]
  · cases h : lb.workers[workerId]? with
    | none => simp [hid]
    | some node => simp [entry, hid]

theorem modifyBreaker_entry (lb : LoadBalancer) (workerId : Bytes) (change : CircuitBreaker → CircuitBreaker)
    (id : Bytes) :
    (lb.modifyBreaker workerId change).entry id =
      if workerId = id then ⟨(lb.entry id).node, (lb.entry id).breaker.map change⟩ else lb.entry id := by
  unfold modifyBreaker
  by_cases hid : workerId = id
  · subst hid
    cases h : lb.circuitBreakers[workerId]? with
    | none => simp [entry, h]
    | some breaker => simp [entry, h]
  · cases h : lb.circuitBreakers[workerId]? with
    | none => simp [hid]
    | some breaker => simp [entry, hid]

theorem admits_fst (lb : LoadBalancer) (workerId : Bytes) (now : Int) :
    (lb.admits workerId now).1 = (lb.entry workerId).breaker.all fun b => (b.allowRequest now).1 := rfl

theorem admits_entry (lb : LoadBalancer) (workerId : Bytes) (now : Int) (id : Bytes) :
    (lb.admits workerId now).2.entry id =
      if workerId = id then ⟨(lb.entry id).node, (lb.entry id).breaker.map fun b => (b.allowRequest now).2⟩
      else lb.entry id :=
  modifyBreaker_entry lb workerId _ id

/-- `isWorkerAvailable` asks the worker. -/
theorem isWorkerAvailable_eq (lb : LoadBalancer) (workerId : Bytes) (now : Int) :
    (lb.isWorkerAvailable workerId now).1 = ((lb.entry workerId).ask now).1 ∧
      ∀ id, (lb.isWorkerAvailable workerId now).2.entry id =
        if workerId = id then ((lb.entry id).ask now).2 else lb.entry id := by
  unfold isWorkerAvailable
  cases h : lb.workers[workerId]? with
  | none =>
    have hnode : (lb.entry workerId).node = none := h
    refine ⟨by simp [ask, hnode], ?_⟩
    intro id
    by_cases hid : workerId = id
    · subst hid
      simp [ask, hnode]
    · simp [hid]
  | some node =>
    have hnode : (lb.entry workerId).node = some node := h
    by_cases hactive : node.status = active
    · simp only [hactive, ne_eq, not_true_eq_false, if_false]
      refine ⟨by simp [admits_fst, ask, hnode, hactive], ?_⟩
      intro id
      rw [admits_entry]
      by_cases hid : workerId = id
      · subst hid
        simp [ask, hnode, hactive]
      · simp [hid]
    · simp only [hactive, ne_eq, not_false_eq_true, if_true]
      refine ⟨by simp [ask, hnode, hactive], ?_⟩
      intro id
      by_cases hid : workerId = id
      · subst hid
        simp [ask, hnode, hactive]
      · simp [hid]

/-! ### The list of services -/

private theorem updateWorkers_listed (services : List (ServiceInfo × Int64)) (now : Int)
    (state : StringMap Bool × LoadBalancer) :
    (∀ id, id ∈ (services.foldl (fun (current, lb) (service, heartbeat) =>
        (current.insert service.id true, updateWorker lb service heartbeat now)) state).1 ↔
          id ∈ state.1 ∨ id ∈ services.map (·.1.id)) ∧
      ∀ id, (services.foldl (fun (current, lb) (service, heartbeat) =>
        (current.insert service.id true, updateWorker lb service heartbeat now)) state).2.entry id =
          (state.2.entry id).listAll id services now := by
  induction services generalizing state with
  | nil => simp [listAll]
  | cons s services ih =>
    obtain ⟨service, heartbeat⟩ := s
    obtain ⟨current, lb⟩ := state
    obtain ⟨hcurrent, hentry⟩ := ih (current.insert service.id true, updateWorker lb service heartbeat now)
    rw [List.foldl_cons]
    refine ⟨?_, ?_⟩
    · intro id
      rw [hcurrent, Std.ExtTreeMap.mem_insert, Std.compare_eq_iff_eq, List.map_cons, List.mem_cons, or_assoc,
        or_left_comm, eq_comm]
    · intro id
      rw [hentry, updateWorker_entry]
      unfold listAll
      by_cases hid : service.id = id
      · simp [hid]
      · simp [hid]

private theorem updateWorkers_erased (current : StringMap Bool) (l : List (Bytes × WorkerNode)) (lb : LoadBalancer)
    (id : Bytes) :
    (l.foldl (fun lb (p : Bytes × WorkerNode) => if p.1 ∈ current then lb else lb.eraseWorker p.1) lb).entry id =
      if id ∈ l.map (·.1) ∧ id ∉ current then absent else lb.entry id := by
  induction l generalizing lb with
  | nil => simp
  | cons p l ih =>
    rw [List.foldl_cons, ih]
    by_cases hid : p.1 = id
    · subst hid
      by_cases hcurrent : p.1 ∈ current
      · simp [hcurrent]
      · simp [hcurrent, eraseWorker_entry]
    · have hmem : id ∈ (p :: l).map (·.1) ↔ id ∈ l.map (·.1) := by
        rw [List.map_cons, List.mem_cons, or_iff_right (Ne.symm hid)]
      have hentry : (if p.1 ∈ current then lb else lb.eraseWorker p.1).entry id = lb.entry id := by
        split
        · rfl
        · rw [eraseWorker_entry, if_neg hid]
      rw [hentry]
      simp only [hmem]

/-- A listed worker is added or refreshed, any other worker is erased. -/
theorem updateWorkers_entry (lb : LoadBalancer) (services : List (ServiceInfo × Int64)) (now : Int) (id : Bytes) :
    (lb.updateWorkers services now).entry id =
      if listed services id then (lb.entry id).listAll id services now
      else if (lb.entry id).node.isSome then absent
      else lb.entry id := by
  obtain ⟨hcurrent, hentry⟩ := updateWorkers_listed services now (∅, lb)
  unfold updateWorkers
  generalize services.foldl _ _ = state at *
  obtain ⟨current, lb'⟩ := state
  replace hcurrent : ∀ id, id ∈ current ↔ id ∈ services.map (·.1.id) := by
    intro id
    rw [hcurrent id]
    simp
  refine (updateWorkers_erased current lb'.workers.toList lb' id).trans ?_
  have hkey : id ∈ lb'.workers.toList.map (·.1) ↔ (lb'.entry id).node.isSome = true := by
    rw [List.mem_map, Option.isSome_iff_exists]
    constructor
    · rintro ⟨⟨k, node⟩, hmem, rfl⟩
      exact ⟨node, mem_toList.1 hmem⟩
    · rintro ⟨node, hnode⟩
      exact ⟨(id, node), mem_toList.2 hnode, rfl⟩
  have hentry' : lb'.entry id = (lb.entry id).listAll id services now := hentry id
  simp only [hkey, hcurrent, hentry', listed_iff]
  by_cases hlisted : id ∈ services.map (·.1.id)
  · simp only [hlisted, not_true_eq_false, and_false, if_false, if_true]
  · have hnone : (services.filter fun s => s.1.id = id) = [] := by
      rw [List.filter_eq_nil_iff]
      intro s hs
      rw [decide_eq_true_eq]
      intro hid
      exact hlisted (List.mem_map.2 ⟨s, hs, hid⟩)
    simp only [hlisted, listAll, hnone, List.foldl_nil, not_false_eq_true, and_true, if_false]

/-! ### The loop over the workers -/

/-- The workers that say yes when asked, in the order of their ids. -/
def available (lb : LoadBalancer) (now : Int) : List (Bytes × WorkerNode) :=
  lb.workers.toList.filter fun p => ((lb.entry p.1).ask now).1

theorem mem_available {lb : LoadBalancer} {now : Int} {id : Bytes} {node : WorkerNode} :
    (id, node) ∈ lb.available now ↔ (lb.entry id).node = some node ∧ ((lb.entry id).ask now).1 = true := by
  unfold available
  rw [List.mem_filter, mem_toList]
  rfl

section Loop

variable {β : Type} {lb : LoadBalancer}

/-- One round of the loop asks its worker, whose entry is still as it was in `lb`. -/
theorem visitAvailable_eq (now : Int) (visit : β → Bytes → WorkerNode → β) {state : β × LoadBalancer}
    {workerId : Bytes} {node : WorkerNode}
    (hnode : (lb.entry workerId).node = some node) (hsame : state.2.entry workerId = lb.entry workerId) :
    (visitAvailable now visit state (workerId, node)).1 =
        (if ((lb.entry workerId).ask now).1 then visit state.1 workerId node else state.1) ∧
      ∀ id, (visitAvailable now visit state (workerId, node)).2.entry id =
        if workerId = id then ((lb.entry id).ask now).2 else state.2.entry id := by
  unfold visitAvailable
  by_cases hactive : node.status = active
  · have hask : ((lb.entry workerId).ask now).1 = (state.2.admits workerId now).1 := by
      simp [ask, hnode, hactive, admits_fst, hsame]
    have hentry : ∀ id, (state.2.admits workerId now).2.entry id =
        if workerId = id then ((lb.entry id).ask now).2 else state.2.entry id := by
      intro id
      rw [admits_entry]
      by_cases hid : workerId = id
      · subst hid
        simp [ask, hnode, hactive, hsame]
      · simp [hid]
    simp only [hactive, ne_eq, not_true_eq_false, if_false, hask]
    cases (state.2.admits workerId now).1 with
    | true => exact ⟨rfl, hentry⟩
    | false => exact ⟨rfl, hentry⟩
  · have hask : (lb.entry workerId).ask now = (false, lb.entry workerId) := by simp [ask, hnode, hactive]
    simp only [hactive, ne_eq, not_false_eq_true, if_true]
    refine ⟨by simp [hask], ?_⟩
    intro id
    by_cases hid : workerId = id
    · subst hid
      simp [hask, hsame]
    · simp [hid]

/-- The keys differ, so the loop finds each entry as it was before the loop. -/
private theorem forAvailable_loop (now : Int) (visit : β → Bytes → WorkerNode → β)
    (l : List (Bytes × WorkerNode)) (hdistinct : (l.map (·.1)).Nodup)
    (hnode : ∀ p ∈ l, (lb.entry p.1).node = some p.2) (state : β × LoadBalancer)
    (hsame : ∀ p ∈ l, state.2.entry p.1 = lb.entry p.1) :
    (l.foldl (visitAvailable now visit) state).1 =
        (l.filter fun p => ((lb.entry p.1).ask now).1).foldl (fun acc p => visit acc p.1 p.2) state.1 ∧
      ∀ id, (l.foldl (visitAvailable now visit) state).2.entry id =
        if id ∈ l.map (·.1) then ((lb.entry id).ask now).2 else state.2.entry id := by
  induction l generalizing state with
  | nil => simp
  | cons p l ih =>
    obtain ⟨workerId, node⟩ := p
    rw [List.map_cons, List.nodup_cons] at hdistinct
    obtain ⟨hnotin, hdistinct⟩ := hdistinct
    obtain ⟨hstep, hentry⟩ := visitAvailable_eq now visit (hnode _ List.mem_cons_self)
      (hsame _ List.mem_cons_self)
    obtain ⟨hfst, hsnd⟩ := ih hdistinct (fun q hq => hnode q (List.mem_cons_of_mem _ hq))
      (visitAvailable now visit state (workerId, node)) (fun q hq => by
        have hne : workerId ≠ q.1 := fun heq => hnotin (List.mem_map.2 ⟨q, hq, heq.symm⟩)
        rw [hentry, if_neg hne]
        exact hsame q (List.mem_cons_of_mem _ hq))
    rw [List.foldl_cons]
    refine ⟨?_, ?_⟩
    · rw [hfst, hstep, List.filter_cons]
      split <;> rfl
    · intro id
      rw [hsnd, hentry, List.map_cons]
      by_cases hid : workerId = id
      · subst hid
        simp [hnotin]
      · have hmem : id ∈ workerId :: l.map (·.1) ↔ id ∈ l.map (·.1) := by
          rw [List.mem_cons, or_iff_right (Ne.symm hid)]
        simp only [hid, if_false, hmem]

theorem forAvailable_fst (lb : LoadBalancer) (now : Int) (visit : β → Bytes → WorkerNode → β) (start : β) :
    (lb.forAvailable now visit start).1 = (lb.available now).foldl (fun acc p => visit acc p.1 p.2) start :=
  (forAvailable_loop now visit lb.workers.toList (nodup_keys_toList _) (fun _ hp => mem_toList.1 hp) (start, lb)
    (fun _ _ => rfl)).1

/-- The loop asks every worker. -/
theorem forAvailable_entry (lb : LoadBalancer) (now : Int) (visit : β → Bytes → WorkerNode → β) (start : β)
    (id : Bytes) : (lb.forAvailable now visit start).2.entry id = ((lb.entry id).ask now).2 := by
  have hloop := (forAvailable_loop now visit lb.workers.toList (nodup_keys_toList _) (fun _ hp => mem_toList.1 hp)
    (start, lb) (fun _ _ => rfl)).2 id
  refine hloop.trans ?_
  split
  · rfl
  · rename_i hnotin
    cases h : lb.workers[id]? with
    | none =>
      have hnode : (lb.entry id).node = none := h
      simp only [ask, hnode, Option.any_none, Bool.false_eq_true, if_false]
    | some node => exact absurd (List.mem_map.2 ⟨_, mem_toList.2 h, rfl⟩) hnotin

end Loop

end LoadBalancer

end Taskflow
