import Taskflow.EtcdClient
import Taskflow.LoadBalancerSpecs

/-!
# Service discovery and the refresh of the worker table

`getPrefix` sends the prefix itself as the end of the range, and a range whose ends are equal is empty, so the
answer is the empty list whatever is stored and whatever fails (`getServices_empty`).  The consequences: discovery
is exact only for a service without registrations (`discovery_exact_iff`), and each iteration of the scheduler's
refresh loop empties the worker table, whatever it held (`refresh_keeps_registered_iff`).
-/

namespace Taskflow

open Text Effects Prog EtcdClient

/-! ### The empty range -/

theorem range_self (store : EtcdStore) (key : Bytes) : store.range key (some key) = [] := by
  unfold EtcdStore.range
  rw [List.filter_eq_nil_iff]
  intro x _ hx
  simp only [Bool.and_eq_true, decide_eq_true_eq] at hx
  exact absurd hx.2 (List.not_lt.2 hx.1)

variable {faulty : Prop} {store : EtcdStore}

/-- Every run ends with `a` and leaves the store as it is. -/
def Gives {α : Type} (faulty : Prop) (p : EtcdCode α) (store : EtcdStore) (a : α) : Prop :=
  wp (etcdServed faulty) p (fun _ o w => o = .ok a ∧ w = store) store

theorem Gives.bind {α β : Type} {p : EtcdCode α} {f : α → EtcdCode β} {a : α} {b : β}
    (hp : Gives faulty p store a) (hf : Gives faulty (f a) store b) : Gives faulty (p >>= f) store b := by
  refine wp.bind hp ?_ ?_
  · intro τ a' w' ⟨ho, hw⟩
    cases ho
    subst hw
    exact hf
  · intro τ x w' ⟨ho, _⟩
    cases ho

theorem getPrefix_empty (faulty : Prop) (store : EtcdStore) (keyPrefix : Bytes) :
    Gives faulty (getPrefix keyPrefix) store [] := by
  intro r w' hserved
  obtain ⟨hw, hr⟩ := hserved
  subst hw
  rcases hr with rfl | ⟨-, rfl⟩
  · rw [range_self]
    exact ⟨rfl, rfl⟩
  · exact ⟨rfl, rfl⟩

theorem getServices_empty (faulty : Prop) (store : EtcdStore) (name : Bytes) :
    Gives faulty (EtcdClient.getServices name) store [] := by
  have hall : Gives faulty (getAllWithPrefix (servicePrefix name)) store ∅ :=
    (getPrefix_empty faulty store _).bind ⟨rfl, rfl⟩
  refine hall.bind ?_
  rw [Std.ExtTreeMap.toList_eq_nil_iff.2 rfl]
  exact ⟨rfl, rfl⟩

theorem registry_getServices_empty (faulty : Prop) (store : EtcdStore) (client : Bool) (name : Bytes) :
    Gives faulty (ServiceRegistry.getServices client name) store [] := by
  unfold ServiceRegistry.getServices
  split
  · exact getServices_empty faulty store name
  · exact ⟨rfl, rfl⟩

/-- The range request answers, and nothing more is asked. -/
theorem getServices_run (store : EtcdStore) (name : Bytes) {r : Option (List (Bytes × Bytes))}
    (hr : etcdServed faulty (.range (servicePrefix name) (some (servicePrefix name))) store r store)
    (hempty : r = some [] ∨ r = none) :
    Run (etcdServed faulty) (EtcdClient.getServices name) store
      [⟨.range (servicePrefix name) (some (servicePrefix name)), r⟩] (.ok []) store := by
  rcases hempty with rfl | rfl
  · exact .call hr (.ret [] store)
  · exact .call hr (.ret [] store)

/-! ### Discovery -/

/-- The stored keys with a prefix, in their order. -/
def EtcdStore.keysWith (store : EtcdStore) (keyPrefix : Bytes) : List Bytes :=
  (store.toList.map (·.1)).filter fun key => keyPrefix.isPrefixOf key

/-- The keys of a service are registrations: an id without slash, and a value that `registerService` writes for an
address without quote and a port that is not negative. -/
def WellRegistered (store : EtcdStore) (name : Bytes) : Prop :=
  ∀ key value, store[key]? = some value → servicePrefix name <+: key →
    ∃ id address port metadata, key = serviceKey name id ∧ 47 ∉ id ∧
      value = registration address port metadata ∧ 34 ∉ address ∧ 0 ≤ port.toInt

/-- One `ServiceInfo` for each registered id, with the endpoint that `getService` finds. -/
def ListsServices (store : EtcdStore) (name : Bytes) : Prop :=
  ∀ τ o w, Run (etcdServed False) (EtcdClient.getServices name) store τ o w →
    ∃ infos, o = .ok infos ∧
      infos.map (fun info => serviceKey name info.id) = store.keysWith (servicePrefix name) ∧
      ∀ info ∈ infos, ∀ τ' o' w', Run (etcdServed False) (getService name info.id) store τ' o' w' →
        ∃ info', o' = .ok info' ∧ info'.address = info.address ∧ info'.port = info.port

/-- Discovery of a service is complete and exact. -/
structure DiscoveryExact (store : EtcdStore) (name : Bytes) : Prop where
  keys : ∀ τ o w, Run (etcdServed False) (getPrefix (servicePrefix name)) store τ o w →
    o = .ok (store.keysWith (servicePrefix name))
  services : WellRegistered store name → ListsServices store name

theorem keysWith_eq_nil {keyPrefix : Bytes} :
    store.keysWith keyPrefix = [] ↔ ∀ key ∈ store, ¬ keyPrefix <+: key := by
  unfold EtcdStore.keysWith
  rw [List.filter_eq_nil_iff, Std.ExtTreeMap.map_fst_toList_eq_keys]
  simp only [List.isPrefixOf_iff_prefix, Std.ExtTreeMap.mem_keys]

theorem getPrefix_run (store : EtcdStore) (keyPrefix : Bytes) :
    Run (etcdServed False) (getPrefix keyPrefix) store [⟨.range keyPrefix (some keyPrefix), some []⟩]
      (.ok []) store :=
  .call ⟨rfl, Or.inl (by rw [range_self])⟩ (.ret [] store)

/-- A service is listed as registered exactly when it has no registration. -/
theorem listsServices_iff (name : Bytes) :
    ListsServices store name ↔ ∀ key ∈ store, ¬ servicePrefix name <+: key := by
  rw [← keysWith_eq_nil]
  constructor
  · intro h
    have hrange : etcdServed False (.range (servicePrefix name)
        (some (servicePrefix name))) store (some []) store :=
      ⟨rfl, Or.inl (by rw [range_self])⟩
    obtain ⟨infos, ho, hkeys, -⟩ := h _ _ _ (getServices_run store name hrange (Or.inl rfl))
    cases ho
    exact hkeys.symm
  · intro hnil τ o w hrun
    obtain ⟨rfl, -⟩ := wp.run (getServices_empty False store name) hrun
    exact ⟨[], rfl, hnil.symm, by simp⟩

/-- Discovery is exact for the services that nothing is registered under, and for no other. -/
theorem discovery_exact_iff (store : EtcdStore) (name : Bytes) :
    DiscoveryExact store name ↔ ∀ key ∈ store, ¬ servicePrefix name <+: key := by
  constructor
  · intro h
    have hkeys := h.keys _ _ _ (getPrefix_run store (servicePrefix name))
    cases hkeys' : store.keysWith (servicePrefix name) with
    | nil => exact keysWith_eq_nil.1 hkeys'
    | cons key keys =>
      rw [hkeys'] at hkeys
      cases hkeys
  · intro hnone
    refine ⟨?_, fun _ => (listsServices_iff name).2 hnone⟩
    intro τ o w hrun
    obtain ⟨rfl, -⟩ := wp.run (getPrefix_empty False store (servicePrefix name)) hrun
    rw [keysWith_eq_nil.2 hnone]

/-- The store with one registered worker. -/
def oneWorker : EtcdStore :=
  (∅ : EtcdStore).insert (serviceKey (bytes "worker") (bytes "worker-1")) (registration (bytes "host") 50052 ∅)

theorem discovery_misses_worker : ¬ DiscoveryExact oneWorker (bytes "worker") := by
  intro h
  have hkeys := h.keys _ _ _ (getPrefix_run oneWorker (servicePrefix (bytes "worker")))
  exact absurd hkeys (by decide)

/-! ### The refresh of the worker table -/

/-- One iteration of the scheduler's main loop: what etcd stores, the reading of the steady clock, and the services
with the readings of the system clock. -/
structure RefreshIteration where
  store : EtcdStore
  services : List (ServiceInfo × Int64)
  now : Int

/-- The iteration lists what a run of `getServices` returned; any of its requests may have failed. -/
def RefreshIteration.Answered (it : RefreshIteration) : Prop :=
  ∃ τ w, Run (etcdServed True) (ServiceRegistry.getServices true (bytes "worker")) it.store τ
    (.ok (it.services.map (·.1))) w

/-- The balancer after a number of iterations. -/
def refresh (lb : LoadBalancer) (its : List RefreshIteration) : LoadBalancer :=
  its.foldl (fun lb it => lb.updateWorkers it.services it.now) lb

/-- The load, the status and the breaker are as they were. -/
structure SameWorker (before after : WorkerEntry) : Prop where
  node : after.node.map (fun node => (node.currentLoad, node.status)) =
    before.node.map fun node => (node.currentLoad, node.status)
  breaker : after.breaker = before.breaker

/-- A worker is registered in etcd during all iterations. -/
def RegisteredThroughout (its : List RefreshIteration) (id : Bytes) : Prop :=
  ∀ it ∈ its, serviceKey (bytes "worker") id ∈ it.store

theorem RefreshIteration.Answered.services_eq {it : RefreshIteration} (h : it.Answered) : it.services = [] := by
  obtain ⟨τ, w, hrun⟩ := h
  have hempty := registry_getServices_empty True it.store true (bytes "worker")
  obtain ⟨ho, -⟩ := wp.run hempty hrun
  exact List.map_eq_nil_iff.1 (Except.ok.inj ho)

theorem updateWorkers_nil_entry (lb : LoadBalancer) (now : Int) (id : Bytes) :
    (lb.updateWorkers [] now).entry id =
      if (lb.entry id).node.isSome then WorkerEntry.absent else lb.entry id := by
  rw [LoadBalancer.updateWorkers_entry]
  rfl

/-- An iteration leaves no worker in the table, and the later ones add none. -/
theorem refresh_entry {its : List RefreshIteration} (hanswered : ∀ it ∈ its, it.Answered) (hne : its ≠ [])
    (lb : LoadBalancer) (id : Bytes) :
    (refresh lb its).entry id = if (lb.entry id).node.isSome then WorkerEntry.absent else lb.entry id := by
  unfold refresh
  induction its generalizing lb with
  | nil => exact absurd rfl hne
  | cons it its ih =>
    have hnil : it.services = [] := (hanswered it List.mem_cons_self).services_eq
    rw [List.foldl_cons, hnil]
    cases its with
    | nil => exact updateWorkers_nil_entry lb it.now id
    | cons it' its =>
      rw [ih (fun it hit => hanswered it (List.mem_cons_of_mem _ hit)) (List.cons_ne_nil _ _)]
      simp only [updateWorkers_nil_entry]
      by_cases hnode : (lb.entry id).node.isSome = true
      · simp only [hnode, if_true, ite_self]
      · simp only [if_neg hnode]

theorem sameWorker_erased_iff (e : WorkerEntry) :
    SameWorker e (if e.node.isSome then WorkerEntry.absent else e) ↔ e.node = none := by
  obtain ⟨node, breaker⟩ := e
  cases node with
  | none => exact ⟨fun _ => rfl, fun _ => ⟨rfl, rfl⟩⟩
  | some node =>
    constructor
    · intro h
      exact absurd h.node (by simp [WorkerEntry.absent])
    · intro h
      cases h

/-- Whatever fails, the iterations keep the registered workers exactly when the table holds none of them. -/
theorem refresh_keeps_registered_iff (lb : LoadBalancer) (its : List RefreshIteration)
    (hanswered : ∀ it ∈ its, it.Answered) (hne : its ≠ []) :
    (∀ id, RegisteredThroughout its id → SameWorker (lb.entry id) ((refresh lb its).entry id)) ↔
      ∀ id, RegisteredThroughout its id → lb.workers[id]? = none := by
  simp only [refresh_entry hanswered hne, sameWorker_erased_iff]
  rfl

/-- A request that fails, with one worker registered. -/
def failedRefresh : RefreshIteration := ⟨oneWorker, [], 0⟩

theorem failedRefresh_answered : failedRefresh.Answered :=
  ⟨_, _, getServices_run oneWorker (bytes "worker") ⟨rfl, Or.inr ⟨trivial, rfl⟩⟩ (Or.inr rfl)⟩

/-- The table with the registered worker, before the request fails. -/
def listedWorker : LoadBalancer :=
  ({} : LoadBalancer).updateWorkers [(⟨bytes "worker", bytes "worker-1", bytes "host", 50052⟩, 1000)] 0

theorem refresh_keeps_registered_iff_failed :
    (∀ it ∈ [failedRefresh], it.Answered) ∧ [failedRefresh] ≠ [] ∧
      ((∀ id, RegisteredThroughout [failedRefresh] id →
          SameWorker (listedWorker.entry id) ((refresh listedWorker [failedRefresh]).entry id)) ↔
        ∀ id, RegisteredThroughout [failedRefresh] id → listedWorker.workers[id]? = none) := by
  have hanswered : ∀ it ∈ [failedRefresh], it.Answered := by
    intro it hit
    rw [List.mem_singleton.1 hit]
    exact failedRefresh_answered
  exact ⟨hanswered, List.cons_ne_nil _ _,
    refresh_keeps_registered_iff listedWorker _ hanswered (List.cons_ne_nil _ _)⟩

theorem refresh_forgets_registered :
    ¬ ∀ (lb : LoadBalancer) (it : RefreshIteration), it.Answered → ∀ id, RegisteredThroughout [it] id →
      SameWorker (lb.entry id) ((refresh lb [it]).entry id) := by
  intro h
  have hregistered : RegisteredThroughout [failedRefresh] (bytes "worker-1") := by
    intro it hit
    rw [List.mem_singleton.1 hit]
    decide
  have hsame := (h listedWorker failedRefresh failedRefresh_answered (bytes "worker-1") hregistered).node
  exact absurd hsame (by decide)

end Taskflow
