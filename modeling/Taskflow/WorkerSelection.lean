import Taskflow.LoadBalancerSpecs

/-!
# Which worker is selected

All three algorithms choose among the workers that say yes when asked, and ask every worker (`Chosen`), so a run of
the balancer is a run of each entry for itself (`entry_afterCalls`).  The main result is
`selectWorker_sound_complete`: a worker is selected exactly when one is available, and the selected one is.
-/

namespace Taskflow

open Text History

namespace LoadBalancer

open WorkerEntry

/-- What a selection does: it returns an available worker if there is one, and asks all workers. -/
structure Chosen (lb : LoadBalancer) (now : Int) (r : Bytes × LoadBalancer) : Prop where
  nobody : lb.available now = [] → r.1 = []
  somebody : lb.available now ≠ [] → r.1 ∈ (lb.available now).map (·.1)
  entry : ∀ id, r.2.entry id = ((lb.entry id).ask now).2

theorem foldl_append {α β : Type} (f : α → β) (l : List α) (acc : List β) :
    l.foldl (fun acc a => acc ++ [f a]) acc = acc ++ l.map f := by
  induction l generalizing acc with
  | nil => simp
  | cons a l ih => simp [ih]

theorem roundRobinSelect_chosen (lb : LoadBalancer) (now : Int) : Chosen lb now (lb.roundRobinSelect now) := by
  have hids := lb.forAvailable_fst now (fun ids workerId _ => ids ++ [workerId]) []
  have hentry := lb.forAvailable_entry now (fun ids workerId _ => ids ++ [workerId]) []
  rw [foldl_append fun p : Bytes × WorkerNode => p.1, List.nil_append] at hids
  unfold roundRobinSelect
  dsimp only
  rw [hids]
  split
  · rename_i hempty
    rw [List.isEmpty_iff, List.map_eq_nil_iff] at hempty
    exact ⟨fun _ => rfl, fun hne => absurd hempty hne, hentry⟩
  · rename_i hne
    rw [List.isEmpty_iff] at hne
    refine ⟨fun hempty => absurd (by rw [hempty]; rfl) hne, fun _ => ?_, fun id => hentry id⟩
    dsimp only
    rw [List.getD_eq_getElem _ _ (Nat.mod_lt _ (List.length_pos_iff.2 hne))]
    exact List.getElem_mem _

/-- The loop of `leastConnectionSelect` ends without a best worker only if it has seen none. -/
theorem lessLoaded_foldl (l : List (Bytes × WorkerNode)) (best : Option (Bytes × WorkerNode)) :
    (l.foldl (fun best p => lessLoaded best p.1 p.2) best = none ↔ l = [] ∧ best = none) ∧
      ∀ p, l.foldl (fun best p => lessLoaded best p.1 p.2) best = some p → p ∈ l ∨ best = some p := by
  induction l generalizing best with
  | nil => simp
  | cons q l ih =>
    obtain ⟨hnone, hsome⟩ := ih (lessLoaded best q.1 q.2)
    rw [List.foldl_cons]
    have hkeep : ∃ p, lessLoaded best q.1 q.2 = some p ∧ (p = q ∨ best = some p) := by
      unfold lessLoaded
      cases best with
      | none => exact ⟨q, rfl, Or.inl rfl⟩
      | some b =>
        dsimp only
        split
        · exact ⟨q, rfl, Or.inl rfl⟩
        · exact ⟨b, rfl, Or.inr rfl⟩
    obtain ⟨p, hp, hwho⟩ := hkeep
    refine ⟨by rw [hnone, hp]; simp, ?_⟩
    intro r hr
    rcases hsome r hr with hmem | heq
    · exact Or.inl (List.mem_cons_of_mem _ hmem)
    · rw [hp] at heq
      cases heq
      rcases hwho with rfl | hbest
      · exact Or.inl List.mem_cons_self
      · exact Or.inr hbest

theorem leastConnectionSelect_chosen (lb : LoadBalancer) (now : Int) :
    Chosen lb now (lb.leastConnectionSelect now) := by
  have hbest := lb.forAvailable_fst now lessLoaded none
  have hentry := lb.forAvailable_entry now lessLoaded none
  obtain ⟨hnone, hsome⟩ := lessLoaded_foldl (lb.available now) none
  unfold leastConnectionSelect
  dsimp only
  rw [hbest]
  cases h : (lb.available now).foldl (fun best p => lessLoaded best p.1 p.2) none with
  | none => exact ⟨fun _ => rfl, fun hne => absurd (hnone.1 h).1 hne, hentry⟩
  | some p =>
    rcases hsome p h with hmem | hnothing
    · refine ⟨fun hempty => ?_, fun _ => List.mem_map_of_mem hmem, hentry⟩
      rw [hempty] at hmem
      cases hmem
    · cases hnothing

theorem consistentHashSelect_chosen (sort : StdSort) (lb : LoadBalancer) (taskId : Bytes) (now : Int) :
    Chosen lb now (lb.consistentHashSelect sort taskId now) := by
  have hcircles := lb.forAvailable_fst now (fun circles workerId _ => circles ++ [(hash workerId, workerId)]) []
  have hentry := lb.forAvailable_entry now (fun circles workerId _ => circles ++ [(hash workerId, workerId)]) []
  rw [foldl_append fun p : Bytes × WorkerNode => (hash p.1, p.1), List.nil_append] at hcircles
  unfold consistentHashSelect
  split
  · exact leastConnectionSelect_chosen lb now
  · dsimp only
    rw [hcircles]
    split
    · rename_i hempty
      rw [List.isEmpty_iff, List.map_eq_nil_iff] at hempty
      exact ⟨fun _ => rfl, fun hne => absurd hempty hne, hentry⟩
    · rename_i hne
      rw [List.isEmpty_iff] at hne
      have hsome : ∀ circle ∈ sort.sort (fun a b => decide (a.1 < b.1))
          ((lb.available now).map fun p => (hash p.1, p.1)), circle.2 ∈ (lb.available now).map (·.1) := by
        intro circle hmem
        rw [StdSort.mem_sort, List.mem_map] at hmem
        obtain ⟨p, hp, rfl⟩ := hmem
        exact List.mem_map_of_mem hp
      have hne' : lb.available now = [] → False := fun hempty => hne (by rw [hempty]; rfl)
      split
      · rename_i circle hfind
        exact ⟨fun hempty => absurd hempty hne', fun _ => hsome _ (List.mem_of_find?_eq_some hfind), hentry⟩
      · -- past the last position of the ring the first one is taken
        refine ⟨fun hempty => absurd hempty hne', fun _ => ?_, hentry⟩
        cases hsorted : sort.sort (fun a b => decide (a.1 < b.1))
            ((lb.available now).map fun p => (hash p.1, p.1)) with
        | nil => exact absurd hsorted (sort.sort_ne_nil hne)
        | cons circle circles =>
          rw [hsorted] at hsome
          exact hsome circle List.mem_cons_self

theorem selectWorker_chosen (sort : StdSort) (lb : LoadBalancer) (taskId : Bytes) (now : Int) :
    Chosen lb now (lb.selectWorker sort taskId now) := by
  unfold selectWorker
  split
  · rename_i hempty
    rw [Std.ExtTreeMap.isEmpty_iff] at hempty
    have hnode : ∀ id, (lb.entry id).node = none := by
      intro id
      simp [LoadBalancer.entry, hempty]
    refine ⟨fun _ => rfl, fun hne => ?_, fun id => ?_⟩
    · exact absurd (by simp [available, hempty]) hne
    · simp [ask, hnode]
  · split
    · exact roundRobinSelect_chosen lb now
    · exact leastConnectionSelect_chosen lb now
    · exact consistentHashSelect_chosen sort lb taskId now

end LoadBalancer

/-! ### Entries over a run -/

namespace WorkerEntry

/-- What a call of the balancer does to the entry of one worker. -/
def step (workerId : Bytes) (e : WorkerEntry) (call : Timed BalancerOp) : WorkerEntry :=
  match call.op with
  | .setStrategy _ => e
  | .updateWorkers services =>
    if listed services workerId then e.listAll workerId services call.time
    else if e.node.isSome then absent else e
  | .updateWorkerLoad id load =>
    if id = workerId then ⟨e.node.map fun node => { node with currentLoad := load }, e.breaker⟩ else e
  | .removeWorker id => if id = workerId then absent else e
  | .markWorkerDead id =>
    if id = workerId then ⟨e.node.map fun node => { node with status := LoadBalancer.dead }, e.breaker⟩ else e
  | .selectWorker _ => (e.ask call.time).2
  | .isWorkerAvailable id => if id = workerId then (e.ask call.time).2 else e
  | .recordSuccess id => if id = workerId then ⟨e.node, e.breaker.map CircuitBreaker.recordSuccess⟩ else e
  | .recordFailure id => if id = workerId then ⟨e.node, e.breaker.map fun b => b.recordFailure call.time⟩ else e

theorem consistent_step {workerId : Bytes} {e : WorkerEntry} (h : Consistent workerId e) (call : Timed BalancerOp) :
    Consistent workerId (e.step workerId call) := by
  obtain ⟨op, now⟩ := call
  cases op with
  | setStrategy strategy => exact h
  | updateWorkers services =>
    dsimp only [step]
    split
    · exact consistent_listAll h
    · split
      · exact Or.inl rfl
      · exact h
  | updateWorkerLoad id load =>
    dsimp only [step]
    split
    · exact consistent_map h (fun _ => rfl)
    · exact h
  | removeWorker id =>
    dsimp only [step]
    split
    · exact Or.inl rfl
    · exact h
  | markWorkerDead id =>
    dsimp only [step]
    split
    · exact consistent_map h (fun _ => rfl)
    · exact h
  | selectWorker taskId => exact consistent_ask h
  | isWorkerAvailable id =>
    dsimp only [step]
    split
    · exact consistent_ask h
    · exact h
  | recordSuccess id =>
    dsimp only [step]
    split
    · exact consistent_mapBreaker h _
    · exact h
  | recordFailure id =>
    dsimp only [step]
    split
    · exact consistent_mapBreaker h _
    · exact h

end WorkerEntry

namespace LoadBalancer

open WorkerEntry

/-- The balancer is the family of its entries: a call acts on each of them alone. -/
theorem apply_entry (sort : StdSort) (lb : LoadBalancer) (call : Timed BalancerOp) (id : Bytes) :
    (lb.apply sort call).entry id = (lb.entry id).step id call := by
  obtain ⟨op, now⟩ := call
  cases op with
  | setStrategy strategy => exact setStrategy_entry lb strategy id
  | updateWorkers services => exact updateWorkers_entry lb services now id
  | updateWorkerLoad workerId load => exact modifyNode_entry lb workerId _ id
  | removeWorker workerId => exact eraseWorker_entry lb workerId id
  | markWorkerDead workerId => exact modifyNode_entry lb workerId _ id
  | selectWorker taskId => exact (selectWorker_chosen sort lb taskId now).entry id
  | isWorkerAvailable workerId => exact (isWorkerAvailable_eq lb workerId now).2 id
  | recordSuccess workerId => exact modifyBreaker_entry lb workerId _ id
  | recordFailure workerId => exact modifyBreaker_entry lb workerId _ id

theorem entry_afterCalls (sort : StdSort) (strategy : Bytes) (h : List (Timed BalancerOp)) (id : Bytes) :
    (afterCalls sort strategy h).entry id = after (WorkerEntry.step id) absent h := by
  induction h with
  | nil => exact (setStrategy_entry _ _ _).trans (by simp [LoadBalancer.entry, absent])
  | cons call h ih =>
    rw [after_cons, ← ih]
    exact apply_entry sort _ call id

theorem consistent_afterCalls (sort : StdSort) (strategy : Bytes) (h : List (Timed BalancerOp)) (id : Bytes) :
    Consistent id ((afterCalls sort strategy h).entry id) := by
  rw [entry_afterCalls]
  induction h with
  | nil => exact Or.inl rfl
  | cons call h ih => exact consistent_step ih call

/-! ### Soundness and completeness -/

/-- A registered worker is active and its breaker lets a request through. -/
def TakesRequest (lb : LoadBalancer) (workerId : Bytes) (now : Int) : Prop :=
  ∃ node breaker, lb.workers[workerId]? = some node ∧ node.status = active ∧
    lb.circuitBreakers[workerId]? = some breaker ∧ (breaker.allowRequest now).1 = true

/-- In a consistent balancer a worker takes a request exactly when it says yes to being asked. -/
theorem takesRequest_iff_ask {lb : LoadBalancer} {workerId : Bytes} (now : Int)
    (h : Consistent workerId (lb.entry workerId)) :
    lb.TakesRequest workerId now ↔ ((lb.entry workerId).ask now).1 = true := by
  constructor
  · intro ⟨node, breaker, hnode, hactive, hbreaker, hallow⟩
    simp [LoadBalancer.entry, ask, hnode, hactive, hbreaker, hallow]
  · intro hask
    rcases h with habsent | ⟨node, breaker, hentry, -⟩
    · rw [habsent] at hask
      cases hask
    · rw [hentry] at hask
      by_cases hactive : node.status = active
      · refine ⟨node, breaker, congrArg WorkerEntry.node hentry, hactive, congrArg WorkerEntry.breaker hentry, ?_⟩
        simpa [ask, hactive] using hask
      · simp [ask, hactive] at hask

theorem takesRequest_iff_isWorkerAvailable {lb : LoadBalancer} {workerId : Bytes} (now : Int)
    (h : Consistent workerId (lb.entry workerId)) :
    lb.TakesRequest workerId now ↔ (lb.isWorkerAvailable workerId now).1 = true := by
  rw [takesRequest_iff_ask now h, (isWorkerAvailable_eq lb workerId now).1]

theorem mem_available_iff {lb : LoadBalancer} {workerId : Bytes} (now : Int)
    (h : Consistent workerId (lb.entry workerId)) :
    workerId ∈ (lb.available now).map (·.1) ↔ lb.TakesRequest workerId now := by
  rw [takesRequest_iff_ask now h, List.mem_map]
  constructor
  · rintro ⟨⟨id, node⟩, hmem, rfl⟩
    exact (mem_available.1 hmem).2
  · intro hask
    rcases h with habsent | ⟨node, breaker, hentry, -⟩
    · rw [habsent] at hask
      cases hask
    · exact ⟨(workerId, node), mem_available.2 ⟨by rw [hentry], hask⟩, rfl⟩

/-- The worker that was let through is left with a breaker that is not open. -/
theorem TakesRequest.not_opened {lb : LoadBalancer} {workerId : Bytes} {now : Int} {r : Bytes × LoadBalancer}
    (h : lb.TakesRequest workerId now) (hr : Chosen lb now r) :
    ∃ breaker, r.2.circuitBreakers[workerId]? = some breaker ∧ breaker.state ≠ .OPEN := by
  obtain ⟨node, breaker, hnode, hactive, hbreaker, hallow⟩ := h
  have hentry := congrArg WorkerEntry.breaker (hr.entry workerId)
  refine ⟨(breaker.allowRequest now).2, ?_, CircuitBreaker.allowRequest_not_opened hallow⟩
  simpa [LoadBalancer.entry, ask, hnode, hactive, hbreaker] using hentry

end LoadBalancer

open LoadBalancer in
/-- In every reachable state whose worker ids are not empty, `selectWorker` finds a worker exactly when one takes
requests, and the one it finds does. -/
theorem selectWorker_sound_complete (sort : StdSort) (strategy : Bytes) (h : List (Timed BalancerOp))
    (hids : ∀ id ∈ (afterCalls sort strategy h).workers, id ≠ []) (taskId : Bytes) (now : Int) :
    (((afterCalls sort strategy h).selectWorker sort taskId now).1 ≠ [] ↔
        ∃ id, (afterCalls sort strategy h).TakesRequest id now) ∧
      (((afterCalls sort strategy h).selectWorker sort taskId now).1 ≠ [] ↔
        ∃ id, ((afterCalls sort strategy h).isWorkerAvailable id now).1 = true) ∧
      ∀ id, ((afterCalls sort strategy h).selectWorker sort taskId now).1 = id → id ≠ [] →
        (afterCalls sort strategy h).TakesRequest id now ∧
          ∃ breaker, ((afterCalls sort strategy h).selectWorker sort taskId now).2.circuitBreakers[id]? =
            some breaker ∧
            breaker.state ≠ .OPEN := by
  have hconsistent := consistent_afterCalls sort strategy h
  generalize afterCalls sort strategy h = lb at *
  have hchosen := selectWorker_chosen sort lb taskId now
  have hfound : ∀ id, (lb.selectWorker sort taskId now).1 = id → id ≠ [] → lb.TakesRequest id now := by
    intro id hid hne
    rw [← mem_available_iff now (hconsistent id), ← hid]
    refine hchosen.somebody ?_
    intro hempty
    exact hne (hid ▸ hchosen.nobody hempty)
  have hcomplete : ∀ id, lb.TakesRequest id now → (lb.selectWorker sort taskId now).1 ≠ [] := by
    intro id htakes
    have hmem := (mem_available_iff now (hconsistent id)).2 htakes
    have hselected := hchosen.somebody fun hempty => by
      rw [hempty] at hmem
      cases hmem
    obtain ⟨node, _, hnode, -⟩ := (mem_available_iff now (hconsistent _)).1 hselected
    refine hids _ ?_
    rw [Std.ExtTreeMap.mem_iff_isSome_getElem?, hnode]
    rfl
  have hiff : (lb.selectWorker sort taskId now).1 ≠ [] ↔ ∃ id, lb.TakesRequest id now :=
    ⟨fun hne => ⟨_, hfound _ rfl hne⟩, fun ⟨id, htakes⟩ => hcomplete id htakes⟩
  refine ⟨hiff, hiff.trans ?_, ?_⟩
  · exact exists_congr fun id => takesRequest_iff_isWorkerAvailable now (hconsistent id)
  · intro id hid hne
    have htakes := hfound id hid hne
    exact ⟨htakes, htakes.not_opened hchosen⟩

/-- The first call of a balancer whose registry lists one worker. -/
def workerJoins : Timed BalancerOp :=
  ⟨.updateWorkers [(⟨bytes "worker", bytes "worker-1", bytes "host", 50052⟩, 0)], 0⟩

open LoadBalancer in
theorem selectWorker_sound_complete_joined :
    ((afterCalls .stable (bytes "round_robin") [workerJoins]).selectWorker .stable (bytes "17") 5).1 ≠ [] ↔
      ∃ id, (afterCalls .stable (bytes "round_robin") [workerJoins]).TakesRequest id 5 := by
  refine (selectWorker_sound_complete .stable (bytes "round_robin") [workerJoins] ?_ (bytes "17") 5).1
  intro id hid hempty
  subst hempty
  have hentry := entry_afterCalls .stable (bytes "round_robin") [workerJoins] []
  have hnode : (afterCalls .stable (bytes "round_robin") [workerJoins]).workers[([] : Bytes)]? = none :=
    congrArg WorkerEntry.node hentry
  rw [Std.ExtTreeMap.mem_iff_isSome_getElem?, hnode] at hid
  cases hid

end Taskflow
