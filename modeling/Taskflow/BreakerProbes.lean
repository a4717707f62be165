import Taskflow.WorkerSelection

/-!
# What a test of availability does to the breakers

A worker is tested with `allowRequest`, which takes an open breaker whose recovery timeout is over to `HALF_OPEN`.
`selectWorker` tests all active workers before it chooses one, and `isWorkerAvailable` tests the worker it is asked
about; no request need follow.  `breaker_tests`: these are all the changes, and there is no other way into
`HALF_OPEN`.
-/

namespace Taskflow

open Text History

/-- The breaker is open and its recovery timeout is over. -/
def CircuitBreaker.Recovering (b : CircuitBreaker) (now : Int) : Prop :=
  b.state = .OPEN ∧ b.config.recoveryTimeoutSeconds.toInt ≤ CircuitBreaker.toSeconds (now - b.lastFailureTime)

instance (b : CircuitBreaker) (now : Int) : Decidable (b.Recovering now) := inferInstanceAs (Decidable (_ ∧ _))

/-- The one change that `allowRequest` makes. -/
theorem CircuitBreaker.allowRequest_state (b : CircuitBreaker) (now : Int) :
    (b.allowRequest now).2.state = if b.Recovering now then .HALF_OPEN else b.state := by
  by_cases h : b.Recovering now
  · rw [if_pos h]
    obtain ⟨hopen, hover⟩ := h
    simp [CircuitBreaker.allowRequest, hopen, hover]
  · rw [if_neg h]
    unfold CircuitBreaker.allowRequest
    split
    · rfl
    · rename_i hopen
      dsimp only
      rw [if_neg fun hover => h ⟨hopen, hover⟩]
    · rfl

namespace WorkerEntry

def breakerState (e : WorkerEntry) : Option CircuitState := e.breaker.map (·.state)

/-- The worker is active, and its breaker only waits for a test. -/
def Recovering (e : WorkerEntry) (now : Int) : Prop :=
  (e.node.any fun node => node.status = LoadBalancer.active) = true ∧
    (e.breaker.any fun b => decide (b.Recovering now)) = true

instance (e : WorkerEntry) (now : Int) : Decidable (e.Recovering now) := inferInstanceAs (Decidable (_ ∧ _))

variable {e : WorkerEntry} {workerId : Bytes} {call : Timed BalancerOp}

theorem ask_breakerState (e : WorkerEntry) (now : Int) :
    (e.ask now).2.breakerState = if e.Recovering now then some .HALF_OPEN else e.breakerState := by
  obtain ⟨node, breaker⟩ := e
  by_cases hactive : (node.any fun node => node.status = LoadBalancer.active) = true
  · have hask : (ask now ⟨node, breaker⟩).2 = ⟨node, breaker.map fun b => (b.allowRequest now).2⟩ := by
      rw [ask, if_pos hactive]
    rw [hask]
    cases breaker with
    | none =>
      rw [if_neg fun h => Bool.noConfusion h.2]
      rfl
    | some b =>
      have hstate := b.allowRequest_state now
      by_cases hb : b.Recovering now
      · rw [if_pos hb] at hstate
        rw [if_pos ⟨hactive, decide_eq_true hb⟩]
        exact congrArg some hstate
      · rw [if_neg hb] at hstate
        rw [if_neg fun h => hb (of_decide_eq_true h.2)]
        exact congrArg some hstate
  · have hask : (ask now ⟨node, breaker⟩).2 = ⟨node, breaker⟩ := by rw [ask, if_neg hactive]
    rw [hask, if_neg fun h => hactive h.1]

/-- A service that is listed keeps its breaker or gets a closed one. -/
theorem listAll_breakerState (services : List (ServiceInfo × Int64)) (now : Int)
    (hlisted : workerId ∈ services.map (·.1.id)) :
    (e.listAll workerId services now).breakerState = e.breakerState ∨
      (e.listAll workerId services now).breakerState = some .CLOSED := by
  cases hnode : e.node with
  | none =>
    right
    rw [breakerState, listAll_breaker_of_new now hnode hlisted]
    rfl
  | some node =>
    left
    rw [breakerState, listAll_breaker_of_node services now (by rw [hnode]; rfl)]
    rfl

theorem recordSuccess_state (b : CircuitBreaker) (h : b.recordSuccess.state = .HALF_OPEN) :
    b.state = .HALF_OPEN := by
  by_contra hne
  unfold CircuitBreaker.recordSuccess at h
  rw [if_neg hne] at h
  split at h
  · exact hne h
  · exact hne h

theorem recordFailure_state (b : CircuitBreaker) (now : Int) : (b.recordFailure now).state ≠ .HALF_OPEN := by
  unfold CircuitBreaker.recordFailure CircuitBreaker.tripOpen
  dsimp only
  split
  · simp
  · rename_i hne
    split
    · rename_i hclosed
      split
      · simp
      · simp [hclosed]
    · exact hne

/-- A call of the balancer that takes the breaker to `HALF_OPEN` tests the worker. -/
theorem step_halfOpen (hafter : (e.step workerId call).breakerState = some .HALF_OPEN)
    (hbefore : e.breakerState ≠ some .HALF_OPEN) :
    ((∃ taskId, call.op = .selectWorker taskId) ∨ call.op = .isWorkerAvailable workerId) ∧
      e.Recovering call.time := by
  have hasked : (e.ask call.time).2.breakerState = some .HALF_OPEN → e.Recovering call.time := by
    intro hask
    by_contra hnot
    rw [ask_breakerState, if_neg hnot] at hask
    exact hbefore hask
  obtain ⟨op, now⟩ := call
  cases op with
  | selectWorker taskId => exact ⟨.inl ⟨taskId, rfl⟩, hasked hafter⟩
  | isWorkerAvailable id =>
    dsimp only [step] at hafter
    split at hafter
    · rename_i hid
      exact ⟨.inr (by rw [hid]), hasked hafter⟩
    · exact absurd hafter hbefore
  | setStrategy strategy => exact absurd hafter hbefore
  | updateWorkers services =>
    dsimp only [step] at hafter
    split at hafter
    · rename_i hlisted
      rcases listAll_breakerState (e := e) services now (listed_iff.1 hlisted) with hsame | hclosed
      · exact absurd (hsame.symm.trans hafter) hbefore
      · rw [hclosed] at hafter
        cases hafter
    · split at hafter
      · cases hafter
      · exact absurd hafter hbefore
  | updateWorkerLoad id load =>
    dsimp only [step] at hafter
    split at hafter
    · exact absurd hafter hbefore
    · exact absurd hafter hbefore
  | removeWorker id =>
    dsimp only [step] at hafter
    split at hafter
    · cases hafter
    · exact absurd hafter hbefore
  | markWorkerDead id =>
    dsimp only [step] at hafter
    split at hafter
    · exact absurd hafter hbefore
    · exact absurd hafter hbefore
  | recordSuccess id =>
    dsimp only [step] at hafter
    split at hafter
    · obtain ⟨b', hb', hstate⟩ := Option.map_eq_some_iff.1 hafter
      obtain ⟨b, hb, rfl⟩ := Option.map_eq_some_iff.1 hb'
      exact absurd (by rw [breakerState, hb, Option.map_some, recordSuccess_state b hstate]) hbefore
    · exact absurd hafter hbefore
  | recordFailure id =>
    dsimp only [step] at hafter
    split at hafter
    · obtain ⟨b', hb', hstate⟩ := Option.map_eq_some_iff.1 hafter
      obtain ⟨b, hb, rfl⟩ := Option.map_eq_some_iff.1 hb'
      exact absurd hstate (recordFailure_state b now)
    · exact absurd hafter hbefore

end WorkerEntry

namespace LoadBalancer

/-- The state of the worker's breaker, if it has one. -/
def breakerState (lb : LoadBalancer) (workerId : Bytes) : Option CircuitState :=
  lb.circuitBreakers[workerId]?.map (·.state)

/-- The worker is active and its breaker is open with the recovery timeout over. -/
def Recovering (lb : LoadBalancer) (workerId : Bytes) (now : Int) : Prop := (lb.entry workerId).Recovering now

instance (lb : LoadBalancer) (workerId : Bytes) (now : Int) : Decidable (lb.Recovering workerId now) :=
  inferInstanceAs (Decidable (WorkerEntry.Recovering _ _))

theorem selectWorker_breakerState (sort : StdSort) (lb : LoadBalancer) (taskId : Bytes) (now : Int) (id : Bytes) :
    (lb.selectWorker sort taskId now).2.breakerState id =
      if lb.Recovering id now then some .HALF_OPEN else lb.breakerState id := by
  have hentry := (selectWorker_chosen sort lb taskId now).entry id
  show ((lb.selectWorker sort taskId now).2.entry id).breakerState = _
  rw [hentry]
  exact WorkerEntry.ask_breakerState _ now

theorem isWorkerAvailable_breakerState (lb : LoadBalancer) (workerId : Bytes) (now : Int) (id : Bytes) :
    (lb.isWorkerAvailable workerId now).2.breakerState id =
      if workerId = id ∧ lb.Recovering id now then some .HALF_OPEN else lb.breakerState id := by
  have hentry := (isWorkerAvailable_eq lb workerId now).2 id
  show ((lb.isWorkerAvailable workerId now).2.entry id).breakerState = _
  rw [hentry]
  by_cases hid : workerId = id
  · rw [if_pos hid]
    simp only [hid, true_and]
    exact WorkerEntry.ask_breakerState _ now
  · rw [if_neg hid, if_neg fun h => hid h.1]
    rfl

end LoadBalancer

open LoadBalancer in
/-- `selectWorker` takes the breakers of the active workers whose recovery timeout is over to `HALF_OPEN`, and
`isWorkerAvailable` that of the worker it is asked about; they change no other breaker, and no other call takes a
breaker to `HALF_OPEN`. -/
theorem breaker_tests (sort : StdSort) (lb : LoadBalancer) :
    (∀ taskId now id, (lb.selectWorker sort taskId now).2.breakerState id =
      if lb.Recovering id now then some .HALF_OPEN else lb.breakerState id) ∧
    (∀ workerId now id, (lb.isWorkerAvailable workerId now).2.breakerState id =
      if workerId = id ∧ lb.Recovering id now then some .HALF_OPEN else lb.breakerState id) ∧
    ∀ call id, (lb.apply sort call).breakerState id = some .HALF_OPEN → lb.breakerState id ≠ some .HALF_OPEN →
      ((∃ taskId, call.op = .selectWorker taskId) ∨ call.op = .isWorkerAvailable id) ∧
        lb.Recovering id call.time := by
  refine ⟨lb.selectWorker_breakerState sort, lb.isWorkerAvailable_breakerState, ?_⟩
  intro call id hafter hbefore
  have hentry := apply_entry sort lb call id
  have hstep : ((lb.entry id).step id call).breakerState = some .HALF_OPEN := hentry ▸ hafter
  exact WorkerEntry.step_halfOpen hstep hbefore

/-- Two workers have joined, and three failures of the second have opened its breaker. -/
def secondTripped : List (Timed BalancerOp) :=
  [⟨.recordFailure (bytes "worker-2"), 3⟩, ⟨.recordFailure (bytes "worker-2"), 2⟩,
    ⟨.recordFailure (bytes "worker-2"), 1⟩,
    ⟨.updateWorkers [(⟨bytes "worker", bytes "worker-1", bytes "host", 50052⟩, 0),
      (⟨bytes "worker", bytes "worker-2", bytes "host", 50053⟩, 0)], 0⟩]

open LoadBalancer in
/-- A selection half a minute later has tested the second worker. -/
theorem breaker_tests_second :
    (afterCalls .stable (bytes "least_connection") secondTripped).Recovering (bytes "worker-2") 40000000000 :=
  ((breaker_tests .stable (afterCalls .stable (bytes "least_connection") secondTripped)).2.2
    ⟨.selectWorker (bytes "17"), 40000000000⟩ (bytes "worker-2") (by decide +kernel) (by decide +kernel)).2

open LoadBalancer in
/-- That selection returns the first worker, and asking about the second has the same effect. -/
theorem tests_touch_others :
    (¬∀ (sort : StdSort) (lb : LoadBalancer) (taskId : Bytes) (now : Int) (id : Bytes),
      id ≠ (lb.selectWorker sort taskId now).1 →
        (lb.selectWorker sort taskId now).2.breakerState id = lb.breakerState id) ∧
    ¬∀ (lb : LoadBalancer) (workerId : Bytes) (now : Int) (id : Bytes),
      (lb.isWorkerAvailable workerId now).2.breakerState id = lb.breakerState id := by
  constructor
  · intro h
    have hsame := h .stable (afterCalls .stable (bytes "least_connection") secondTripped) (bytes "17") 40000000000
      (bytes "worker-2") (by decide +kernel)
    exact absurd hsame (by decide +kernel)
  · intro h
    have hsame := h (afterCalls .stable (bytes "least_connection") secondTripped) (bytes "worker-2") 40000000000
      (bytes "worker-2")
    exact absurd hsame (by decide +kernel)

end Taskflow
