import Taskflow.WorkerSelection

/-!
# The table of workers

`workers_` and `circuit_breakers_` have the same keys after any run of calls, and `updateWorkers` makes them the
ids of the service list: it keeps what the balancer knows of a worker, adds the new ones and forgets the rest
(`updateWorkers_reconciles`).
-/

namespace Taskflow

open Text History

namespace LoadBalancer

open WorkerEntry

/-- The two maps have the same keys, and a node is stored under its id. -/
structure SameKeys (lb : LoadBalancer) : Prop where
  keys : ∀ id, id ∈ lb.workers ↔ id ∈ lb.circuitBreakers
  ids : ∀ (id : Bytes) (node : WorkerNode), lb.workers[id]? = some node → node.id = id

/-- What becomes of the balancer `lb` when it is updated with a list of services. -/
structure Reconciled (lb : LoadBalancer) (services : List ServiceInfo) (lb' : LoadBalancer) : Prop where
  workers : ∀ id, id ∈ lb'.workers ↔ id ∈ services.map (·.id)
  breakers : ∀ id, id ∈ lb'.circuitBreakers ↔ id ∈ services.map (·.id)
  known : ∀ (id : Bytes) (node : WorkerNode), lb.workers[id]? = some node → id ∈ services.map (·.id) →
    ∃ node', lb'.workers[id]? = some node' ∧ node'.currentLoad = node.currentLoad ∧ node'.status = node.status ∧
      lb'.circuitBreakers[id]? = lb.circuitBreakers[id]?
  added : ∀ id ∈ services.map (·.id), id ∉ lb.workers →
    ∃ node breaker, lb'.workers[id]? = some node ∧ lb'.circuitBreakers[id]? = some breaker ∧
    node.currentLoad = 0 ∧
      node.status = active ∧ breaker.state = .CLOSED ∧ breaker.failureCount = 0 ∧ breaker.successCount = 0
  latest : ∀ before service after, services = before ++ service :: after → service.id ∉ after.map (·.id) →
    ∃ node, lb'.workers[service.id]? = some node ∧ node.address = service.address ∧ node.port = service.port

theorem sameKeys_of_consistent {lb : LoadBalancer} (h : ∀ id, Consistent id (lb.entry id)) : lb.SameKeys := by
  constructor
  · intro id
    rw [mem_workers_iff, mem_breakers_iff]
    rcases h id with he | ⟨node, breaker, he, -⟩
    · rw [he]
      rfl
    · rw [he]
      exact iff_of_true rfl rfl
  · intro id node hnode
    have hentry : (lb.entry id).node = some node := hnode
    rcases h id with he | ⟨node', breaker, he, hid⟩
    · rw [he] at hentry
      cases hentry
    · rw [he] at hentry
      cases hentry
      exact hid

section Update

variable {lb : LoadBalancer} {services : List (ServiceInfo × Int64)} {now : Int} {id : Bytes}

theorem updateWorkers_entry_listed (h : id ∈ services.map (·.1.id)) :
    (lb.updateWorkers services now).entry id = (lb.entry id).listAll id services now := by
  rw [updateWorkers_entry, if_pos (listed_iff.2 h)]

/-- A listed worker has a node, whose load and status are those of before, or the initial ones. -/
theorem updateWorkers_node (lb : LoadBalancer) (now : Int) (h : id ∈ services.map (·.1.id)) : ∃ node,
    (lb.updateWorkers services now).workers[id]? = some node ∧
      node.currentLoad = ((lb.entry id).node.map (·.currentLoad)).getD 0 ∧
      node.status = ((lb.entry id).node.map (·.status)).getD active := by
  have hlisted := listed_iff.2 h
  have hload : ((lb.entry id).listAll id services now).node.map (·.currentLoad) =
      some (((lb.entry id).node.map (·.currentLoad)).getD 0) :=
    listAll_member (fun _ _ => rfl) (fun _ _ _ => rfl) hlisted
  have hstatus : ((lb.entry id).listAll id services now).node.map (·.status) =
      some (((lb.entry id).node.map (·.status)).getD active) :=
    listAll_member (fun _ _ => rfl) (fun _ _ _ => rfl) hlisted
  rw [← updateWorkers_entry_listed h] at hload hstatus
  obtain ⟨node, hnode, hload⟩ := Option.map_eq_some_iff.1 hload
  rw [hnode] at hstatus
  exact ⟨node, hnode, hload, Option.some.inj hstatus⟩

/-- The last entry of the list for a worker gives its address and port. -/
theorem listAll_latest (e : WorkerEntry) (now : Int) (before after : List (ServiceInfo × Int64))
    (service : ServiceInfo × Int64) (hafter : service.1.id ∉ after.map (·.1.id)) : ∃ node,
      (e.listAll service.1.id (before ++ service :: after) now).node = some node ∧
        node.address = service.1.address ∧ node.port = service.1.port := by
  have hnone : (after.filter fun s => s.1.id = service.1.id) = [] := by
    rw [List.filter_eq_nil_iff]
    intro s hs
    rw [decide_eq_true_eq]
    exact fun hid => hafter (List.mem_map.2 ⟨s, hs, hid⟩)
  rw [listAll, List.filter_append, List.filter_cons_of_pos (by simp), hnone, List.foldl_append, List.foldl_cons,
    List.foldl_nil]
  unfold list
  split
  · exact ⟨_, rfl, rfl, rfl⟩
  · exact ⟨_, rfl, rfl, rfl⟩

end Update

/-- In every state that a run of calls leaves, the maps agree, and `updateWorkers` makes their keys the ids of the
list. -/
theorem updateWorkers_reconciles (sort : StdSort) (strategy : Bytes) (h : List (Timed BalancerOp))
    (services : List (ServiceInfo × Int64)) (now : Int) :
    (afterCalls sort strategy h).SameKeys ∧
      (afterCalls sort strategy h).Reconciled (services.map (·.1))
        ((afterCalls sort strategy h).updateWorkers services now) := by
  have hconsistent := consistent_afterCalls sort strategy h
  generalize afterCalls sort strategy h = lb at *
  have hids : (services.map (·.1)).map (·.id) = services.map (·.1.id) := by
    rw [List.map_map]
    rfl
  -- a worker that stays keeps its breaker, a new one gets a fresh one
  have hbreaker : ∀ {id}, id ∈ services.map (·.1.id) →
      (lb.updateWorkers services now).circuitBreakers[id]? =
        if (lb.entry id).node.isSome then (lb.entry id).breaker
        else some { name := id, config := {} } := by
    intro id hid
    show ((lb.updateWorkers services now).entry id).breaker = _
    rw [updateWorkers_entry_listed hid]
    cases hnode : (lb.entry id).node with
    | none => exact listAll_breaker_of_new now hnode hid
    | some node => exact listAll_breaker_of_node services now (by rw [hnode]; rfl)
  have hafter : ∀ id, Consistent id ((lb.updateWorkers services now).entry id) := by
    intro id
    rw [updateWorkers_entry]
    split
    · exact consistent_listAll (hconsistent id)
    · split
      · exact Or.inl rfl
      · exact hconsistent id
  have hworkers : ∀ id, id ∈ (lb.updateWorkers services now).workers ↔ id ∈ services.map (·.1.id) := by
    intro id
    rw [mem_workers_iff]
    constructor
    -- a worker that is not listed is erased
    · intro hsome
      by_contra hid
      rw [updateWorkers_entry, if_neg (by rwa [listed_iff])] at hsome
      split at hsome
      · cases hsome
      · rename_i hnone
        exact hnone hsome
    · intro hid
      obtain ⟨node, hnode, -⟩ := updateWorkers_node lb now hid
      exact Option.isSome_of_eq_some hnode
  refine ⟨sameKeys_of_consistent hconsistent, ?_, ?_, ?_, ?_, ?_⟩
  · intro id
    rw [hworkers, hids]
  · intro id
    rw [← (sameKeys_of_consistent hafter).keys, hworkers, hids]
  -- the workers that stay
  · intro id node hnode hid
    rw [hids] at hid
    have hentry : (lb.entry id).node = some node := hnode
    obtain ⟨node', hnode', hload, hstatus⟩ := updateWorkers_node lb now hid
    rw [hentry] at hload hstatus
    refine ⟨node', hnode', hload, hstatus, ?_⟩
    rw [hbreaker hid, hentry]
    rfl
  -- the new ones
  · intro id hid hnew
    rw [hids] at hid
    have hentry : (lb.entry id).node = none := by
      rw [mem_workers_iff] at hnew
      simpa using hnew
    obtain ⟨node, hnode, hload, hstatus⟩ := updateWorkers_node lb now hid
    rw [hentry] at hload hstatus
    refine ⟨node, { name := id, config := {} }, hnode, ?_, hload, hstatus, rfl, rfl, rfl⟩
    rw [hbreaker hid, hentry]
    rfl
  -- of two services with one id the later one counts
  · intro before service after hsplit hlast
    obtain ⟨before, rest, rfl, rfl, hrest⟩ := List.map_eq_append_iff.1 hsplit
    obtain ⟨service, after, rfl, rfl, rfl⟩ := List.map_eq_cons_iff.1 hrest
    have hmem : service.1.id ∈ (before ++ service :: after).map (·.1.id) :=
      List.mem_map_of_mem (List.mem_append_right _ List.mem_cons_self)
    rw [List.map_map] at hlast
    obtain ⟨node, hnode, hplace⟩ := listAll_latest (lb.entry service.1.id) now before after service hlast
    refine ⟨node, ?_, hplace⟩
    show ((lb.updateWorkers _ now).entry service.1.id).node = some node
    rw [updateWorkers_entry_listed hmem, hnode]

end LoadBalancer

end Taskflow
