import Taskflow.CircuitBreaker
import Taskflow.EtcdClient
import Taskflow.Lib.Sorting

/-!
# `LoadBalancer`

`src/scheduler/load_balancer.cpp`.  Every operation runs under the mutex, so it is a function on the members; `now`
is the reading of the steady clock at the call.  The three selection algorithms share the loop over the workers
that admits those that are active and whose breaker allows a request (`forAvailable`); the loop changes breakers
while it goes on.
-/

namespace Taskflow

open Text History

structure WorkerNode where
  id : Bytes
  address : Bytes
  port : Int32
  currentLoad : Int32
  status : Bytes
  lastHeartbeat : Int64
  lastCheck : Int
  deriving DecidableEq

inductive LoadBalanceStrategy where
  | ROUND_ROBIN
  | LEAST_CONNECTION
  | CONSISTENT_HASH
  deriving DecidableEq

structure LoadBalancer where
  strategy : LoadBalanceStrategy := .LEAST_CONNECTION
  workers : StringMap WorkerNode := ∅
  roundRobinIndex : UInt64 := 0
  circuitBreakers : StringMap CircuitBreaker := ∅

namespace LoadBalancer

def active : Bytes := bytes "active"
def dead : Bytes := bytes "dead"

def setStrategy (lb : LoadBalancer) (strategy : Bytes) : LoadBalancer :=
  if strategy = bytes "round_robin" then { lb with strategy := .ROUND_ROBIN }
  else if strategy = bytes "least_connection" then { lb with strategy := .LEAST_CONNECTION }
  else if strategy = bytes "consistent_hash" then { lb with strategy := .CONSISTENT_HASH }
  else { lb with strategy := .LEAST_CONNECTION }

/-- The constructor. -/
def create (strategy : Bytes) : LoadBalancer := ({} : LoadBalancer).setStrategy strategy

/-- The body of the first loop of `updateWorkers`; `heartbeat` is the system clock in milliseconds. -/
def updateWorker (lb : LoadBalancer) (service : ServiceInfo) (heartbeat : Int64) (now : Int) : LoadBalancer :=
  match lb.workers[service.id]? with
  | none =>
    let node : WorkerNode :=
      { id := service.id, address := service.address, port := service.port, currentLoad := 0, status := active,
        lastHeartbeat := heartbeat, lastCheck := now }
    let cbConfig : CircuitBreaker.Config :=
      { failureThreshold := 3, recoveryTimeoutSeconds := 30, successThreshold := 1 }
    { lb with
      workers := lb.workers.insert service.id node
      circuitBreakers := lb.circuitBreakers.insert service.id { name := service.id, config := cbConfig } }
  | some node =>
    { lb with
      workers := lb.workers.insert service.id
        { node with address := service.address, port := service.port, lastHeartbeat := heartbeat } }

def eraseWorker (lb : LoadBalancer) (workerId : Bytes) : LoadBalancer :=
  { lb with
    workers := lb.workers.erase workerId
    circuitBreakers := lb.circuitBreakers.erase workerId }

/-- Each service comes with the reading of the system clock at its turn in the loop. -/
def updateWorkers (lb : LoadBalancer) (services : List (ServiceInfo × Int64)) (now : Int) : LoadBalancer :=
  let (currentWorkers, lb) := services.foldl
    (fun (current, lb) (service, heartbeat) =>
      (current.insert service.id true, updateWorker lb service heartbeat now))
    ((∅ : StringMap Bool), lb)
  lb.workers.toList.foldl
    (fun lb (workerId, _) => if workerId ∈ currentWorkers then lb else lb.eraseWorker workerId) lb

/-- The node that `workers_.find` gives is changed in place. -/
def modifyNode (lb : LoadBalancer) (workerId : Bytes) (change : WorkerNode → WorkerNode) : LoadBalancer :=
  match lb.workers[workerId]? with
  | some node => { lb with workers := lb.workers.insert workerId (change node) }
  | none => lb

/-- The breaker that `circuit_breakers_.find` gives is changed in place. -/
def modifyBreaker (lb : LoadBalancer) (workerId : Bytes) (change : CircuitBreaker → CircuitBreaker) :
    LoadBalancer :=
  match lb.circuitBreakers[workerId]? with
  | some breaker => { lb with circuitBreakers := lb.circuitBreakers.insert workerId (change breaker) }
  | none => lb

def updateWorkerLoad (lb : LoadBalancer) (workerId : Bytes) (load : Int32) : LoadBalancer :=
  lb.modifyNode workerId fun node => { node with currentLoad := load }

def removeWorker (lb : LoadBalancer) (workerId : Bytes) : LoadBalancer := lb.eraseWorker workerId

def markWorkerDead (lb : LoadBalancer) (workerId : Bytes) : LoadBalancer :=
  lb.modifyNode workerId fun node => { node with status := dead }

/-- `cb_it == circuit_breakers_.end() || cb_it->second->allowRequest()`. -/
def admits (lb : LoadBalancer) (workerId : Bytes) (now : Int) : Bool × LoadBalancer :=
  (lb.circuitBreakers[workerId]?.all fun breaker => (breaker.allowRequest now).1,
    lb.modifyBreaker workerId fun breaker => (breaker.allowRequest now).2)

section Selection

variable {β : Type}

/-- The body of the loop over `workers_` that the selection algorithms share; `visit` is what is done with an
admitted worker. -/
def visitAvailable (now : Int) (visit : β → Bytes → WorkerNode → β) (state : β × LoadBalancer)
    (pair : Bytes × WorkerNode) : β × LoadBalancer :=
  if pair.2.status ≠ active then state
  else
    let (admitted, lb) := state.2.admits pair.1 now
    if admitted then (visit state.1 pair.1 pair.2, lb) else (state.1, lb)

def forAvailable (lb : LoadBalancer) (now : Int) (visit : β → Bytes → WorkerNode → β) (start : β) :
    β × LoadBalancer :=
  lb.workers.toList.foldl (visitAvailable now visit) (start, lb)

end Selection

def roundRobinSelect (lb : LoadBalancer) (now : Int) : Bytes × LoadBalancer :=
  let (availableWorkers, lb) := lb.forAvailable now (fun ids workerId _ => ids ++ [workerId]) []
  if availableWorkers.isEmpty then ([], lb)
  else
    let index := lb.roundRobinIndex.toNat % availableWorkers.length
    (availableWorkers.getD index [], { lb with roundRobinIndex := lb.roundRobinIndex + 1 })

/-- The comparison with the best worker so far. -/
def lessLoaded (best : Option (Bytes × WorkerNode)) (workerId : Bytes) (node : WorkerNode) :
    Option (Bytes × WorkerNode) :=
  match best with
  | none => some (workerId, node)
  | some (bestId, best) =>
    if node.currentLoad < best.currentLoad then some (workerId, node) else some (bestId, best)

def leastConnectionSelect (lb : LoadBalancer) (now : Int) : Bytes × LoadBalancer :=
  let (best, lb) := lb.forAvailable now lessLoaded none
  ((best.map (·.1)).getD [], lb)

/-- `char` is signed. -/
def hash (key : Bytes) : UInt64 :=
  key.foldl (fun hash c => ((hash <<< 5) + hash) + c.toInt8.toInt64.toUInt64) 5381

def consistentHashSelect (sort : StdSort) (lb : LoadBalancer) (taskId : Bytes) (now : Int) : Bytes × LoadBalancer :=
  if taskId.isEmpty then lb.leastConnectionSelect now
  else
    let hashValue := hash taskId
    let (circles, lb) := lb.forAvailable now (fun circles workerId _ => circles ++ [(hash workerId, workerId)]) []
    if circles.isEmpty then ([], lb)
    else
      let circles := sort.sort (fun a b => a.1 < b.1) circles
      match circles.find? fun circle => hashValue ≤ circle.1 with
      | some circle => (circle.2, lb)
      | none => ((circles.head?.map (·.2)).getD [], lb)

def selectWorker (sort : StdSort) (lb : LoadBalancer) (taskId : Bytes) (now : Int) : Bytes × LoadBalancer :=
  if lb.workers.isEmpty then ([], lb)
  else
    match lb.strategy with
    | .ROUND_ROBIN => lb.roundRobinSelect now
    | .LEAST_CONNECTION => lb.leastConnectionSelect now
    | .CONSISTENT_HASH => lb.consistentHashSelect sort taskId now

def isWorkerAvailable (lb : LoadBalancer) (workerId : Bytes) (now : Int) : Bool × LoadBalancer :=
  match lb.workers[workerId]? with
  | none => (false, lb)
  | some node => if node.status ≠ active then (false, lb) else lb.admits workerId now

def recordSuccess (lb : LoadBalancer) (workerId : Bytes) : LoadBalancer :=
  lb.modifyBreaker workerId CircuitBreaker.recordSuccess

def recordFailure (lb : LoadBalancer) (workerId : Bytes) (now : Int) : LoadBalancer :=
  lb.modifyBreaker workerId fun breaker => breaker.recordFailure now

end LoadBalancer

/-! ### Runs -/

/-- The calls that change the balancer. -/
inductive BalancerOp where
  | setStrategy (strategy : Bytes)
  | updateWorkers (services : List (ServiceInfo × Int64))
  | updateWorkerLoad (workerId : Bytes) (load : Int32)
  | removeWorker (workerId : Bytes)
  | markWorkerDead (workerId : Bytes)
  | selectWorker (taskId : Bytes)
  | isWorkerAvailable (workerId : Bytes)
  | recordSuccess (workerId : Bytes)
  | recordFailure (workerId : Bytes)

namespace LoadBalancer

def apply (sort : StdSort) (lb : LoadBalancer) (call : Timed BalancerOp) : LoadBalancer :=
  match call.op with
  | .setStrategy strategy => lb.setStrategy strategy
  | .updateWorkers services => lb.updateWorkers services call.time
  | .updateWorkerLoad workerId load => lb.updateWorkerLoad workerId load
  | .removeWorker workerId => lb.removeWorker workerId
  | .markWorkerDead workerId => lb.markWorkerDead workerId
  | .selectWorker taskId => (lb.selectWorker sort taskId call.time).2
  | .isWorkerAvailable workerId => (lb.isWorkerAvailable workerId call.time).2
  | .recordSuccess workerId => lb.recordSuccess workerId
  | .recordFailure workerId => lb.recordFailure workerId call.time

/-- The balancer that a history of calls leaves. -/
def afterCalls (sort : StdSort) (strategy : Bytes) (h : List (Timed BalancerOp)) : LoadBalancer :=
  after (apply sort) (create strategy) h

end LoadBalancer

end Taskflow
