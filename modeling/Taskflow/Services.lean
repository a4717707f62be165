import Taskflow.HttpHandler
import Taskflow.Lib.Interfaces
import Taskflow.LoadCache
import Taskflow.Snowflake
import Taskflow.TaskQueries
import Taskflow.WorkerLiveness
import Taskflow.WorkerMain

/-!
# The services around one Redis

The RPCs of the scheduler and the loops of its threads (`src/scheduler.cpp`), the RPCs of the tracker and of the
statistics service (`src/tracker.cpp`, `src/stats.cpp`), the heartbeat loop of a worker (`src/worker.cpp`), and
the connections to the gateway (`src/gateway.cpp`), which call the scheduler.  Any number of them run at once,
interleaved effect by effect (`services`): the scheduler's threads share the id generator and the balancer, and
all processes share one Redis.  Every call that changes tasks is here: no service calls `completeTask`,
`failTask` or `retryTask`.

The tracker and the statistics service each use one `RedisClient` in all their handlers, without a lock, and a
context of hiredis must not be used by two threads at once.  The model is about runs in which every command on
such a client gets its own reply, as when one handler at a time uses it.
-/

namespace Taskflow

open Text Effects Prog

/-! ### What the services ask for -/

/-- What the dispatcher asks for, an id of the generator, a request to etcd, the calls of the balancer that only the
scheduler's own threads make, and the transport of a message between processes. -/
inductive ServiceEffect where
  | dispatcher (e : Effect)
  | nextId
  | etcd (e : EtcdEffect)
  | updateWorkers (services : List ServiceInfo)
  | getWorkers
  | markWorkerDead (workerId : Bytes)
  | transport

/-- The transport answers with an error message, or not at all if the message has arrived. -/
@[reducible] def ServiceEffect.Answer : ServiceEffect → Type
  | .dispatcher e => e.Answer
  | .nextId => Except Thrown Int64
  | .etcd e => e.Answer
  | .updateWorkers _ => Unit
  | .getWorkers => List WorkerNode
  | .markWorkerDead _ => Unit
  | .transport => Option Bytes

abbrev ServiceCode (α : Type) := Prog ServiceEffect ServiceEffect.Answer StdException α

/-- Code of the dispatcher and of `RedisClient`. -/
def dispatcher {α : Type} (p : Code α) : ServiceCode α := p.embed ServiceEffect.dispatcher fun _ answer => answer

/-- Code of `ServiceRegistry`. -/
def registry {α : Type} (p : EtcdCode α) : ServiceCode α := p.embed ServiceEffect.etcd fun _ answer => answer

/-- `Snowflake::instance().nextId()` -/
def nextId : ServiceCode Int64 := do
  let result ← perform ServiceEffect.nextId
  ofExcept (result.mapError (·.exception))

/-! ### The scheduler -/

/-- `taskflow.SubmitTaskRequest`: both enumerations are open. -/
structure SubmitTaskMessage where
  type : Int32
  priority : Int32
  data : Bytes

/-- `taskflow.WorkerInfo` -/
structure WorkerInfo where
  workerId : Bytes
  address : Bytes
  port : Int32
  currentLoad : Int32
  status : Bytes
  lastHeartbeat : Int64
  deriving DecidableEq

/-- `taskflow.RegisterWorkerReply` -/
structure RegisterWorkerReply where
  success : Bool
  message : Bytes

namespace SchedulerServiceImpl

def submitTask (request : SubmitTaskMessage) : ServiceCode SubmitTaskReply := do
  let id ← nextId
  let taskId := decimal id.toInt
  let now ← dispatcher systemClock
  let task : TaskRequest :=
    { id := taskId, type := request.type, priority := request.priority, data := request.data, createdAt := now }
  if ← dispatcher (Taskflow.submitTask task) then
    return ⟨true, taskId, bytes "Task submitted successfully"⟩
  return ⟨false, [], bytes "Failed to submit task"⟩

/-- The worker is logged, and that is all. -/
def registerWorker (_workerId _address : Bytes) (_port : Int32) : ServiceCode RegisterWorkerReply :=
  return ⟨true, bytes "Worker registered successfully"⟩

def workerInfo (worker : WorkerNode) : WorkerInfo where
  workerId := worker.id
  address := worker.address
  port := worker.port
  currentLoad := worker.currentLoad
  status := worker.status
  lastHeartbeat := worker.lastHeartbeat

def getWorkers : ServiceCode (List WorkerInfo) := do
  let workers ← perform ServiceEffect.getWorkers
  return workers.map workerInfo

end SchedulerServiceImpl

/-- `Heartbeat` of the scheduler's `WorkerServiceImpl`. -/
def WorkerServiceImpl.heartbeat (workerId : Bytes) (currentLoad : Int32) : ServiceCode HeartbeatReply := do
  dispatcher (updateWorkerLoad workerId currentLoad)
  return ⟨true, bytes "Heartbeat received"⟩

/-- The loop of `workerCheckLoop` over its copy of the table. -/
def markMissing (now : Int64) : List WorkerNode → ServiceCode Unit
  | [] => return ()
  | worker :: workers => do
    if missedHeartbeat now worker then
      perform (ServiceEffect.markWorkerDead worker.id)
    markMissing now workers

/-- One iteration of `workerCheckLoop`. -/
def workerCheckIteration : ServiceCode Unit := do
  let workers ← perform ServiceEffect.getWorkers
  let now ← dispatcher systemClock
  markMissing now workers

/-- One iteration of the loop at the end of the scheduler's `main`; its registry has a client. -/
def refreshIteration : ServiceCode Unit := do
  let workers ← registry (ServiceRegistry.getServices true (bytes "worker"))
  perform (ServiceEffect.updateWorkers workers)

/-! ### The statistics service -/

/-- `taskflow.WorkerStats`; the time is a `double`. -/
structure WorkerStats where
  workerId : Bytes
  totalTasks : Int32
  successTasks : Int32
  failedTasks : Int32
  avgExecutionTimeMs : Int

/-- `taskflow.GetStatsReply` -/
structure GetStatsReply where
  totalTasks : Int32
  pendingTasks : Int32
  runningTasks : Int32
  successTasks : Int32
  failedTasks : Int32
  timestamp : Int64
  workerStats : List WorkerStats

/-- The service has a connection of its own and does not start without it. -/
structure StatsServiceImpl where
  redis : RedisClient
  connected : redis.connected = true

namespace StatsServiceImpl

def workerStats (worker : ServiceInfo) : WorkerStats := ⟨worker.id, 0, 0, 0, 0⟩

/-- The sum of the three lengths becomes a 32-bit member of the reply. -/
def getStats (stats : StatsServiceImpl) : ServiceCode GetStatsReply := do
  let high ← dispatcher (stats.redis.llen (bytes "queue:high"))
  let medium ← dispatcher (stats.redis.llen (bytes "queue:medium"))
  let low ← dispatcher (stats.redis.llen (bytes "queue:low"))
  let pendingTasks := high + medium + low
  let now ← dispatcher systemClock
  let workers ← registry (ServiceRegistry.getServices true (bytes "worker"))
  return {
    totalTasks := 0, pendingTasks := .ofInt pendingTasks, runningTasks := 0, successTasks := 0, failedTasks := 0,
    timestamp := now, workerStats := workers.map workerStats }

end StatsServiceImpl

/-! ### The heartbeat of a worker -/

def heartbeatKey (workerId : Bytes) : Bytes := bytes "worker:heartbeat:" ++ workerId

/-- One iteration of `heartbeatLoop`, after the sleep; the clock is read in milliseconds. -/
def heartbeatIteration (config : Config.WorkerConfig) (redis : RedisClient) : Code Unit := do
  let now ← systemClock
  let seconds := config.heartbeatInterval * 2
  let _ ← redis.setex (heartbeatKey (workerName config.id)) (decimal (now / 1000).toInt) seconds
  return ()

/-! ### The gateway -/

/-- A call of another process.  The request or the reply may get lost, and an exception of the handler becomes a
status that is not OK. -/
def rpc {α : Type} (handler : ServiceCode α) : ServiceCode (Except Bytes α) := do
  match ← perform ServiceEffect.transport with
  | some message => return .error message
  | none =>
    match ← handler.attempt with
    | .error _ => return .error (bytes "Unexpected error in RPC handling")
    | .ok reply =>
      match ← perform ServiceEffect.transport with
      | some message => return .error message
      | none => return .ok reply

def TaskType.number : TaskType → Int32
  | .ORDER_DISPATCH => 0
  | .PERSONNEL_SCHEDULE => 1
  | .MESSAGE_NOTIFY => 2
  | .DATA_STATS => 3

/-- The request on the wire. -/
def SubmitTaskRequest.message (request : SubmitTaskRequest) : SubmitTaskMessage :=
  ⟨request.type.number, request.priority, request.data⟩

/-- What the gateway reads of a reply; without a task it reads the defaults. -/
def TaskReply.view (reply : TaskReply) : TaskStatusReply where
  success := reply.success
  task := match reply.task with
    | none => ⟨[], 0, 0, 0, 0, [], []⟩
    | some task =>
      ⟨task.id, task.status, task.createdAt, task.startedAt, task.finishedAt, task.errorMessage, task.result⟩

def WorkerInfo.view (worker : WorkerInfo) : WorkerView :=
  ⟨worker.workerId, worker.address, worker.port, worker.currentLoad, worker.status⟩

/-- The scheduler answers the gateway. -/
def GatewayEffect.serve : (e : GatewayEffect) → ServiceCode e.Answer
  | .submitTask request => rpc (SchedulerServiceImpl.submitTask request.message)
  | .getTaskStatus taskId => do
    let result ← rpc (dispatcher (SchedulerServiceImpl.getTaskStatus taskId))
    return result.map TaskReply.view
  | .getWorkers => do
    let result ← rpc SchedulerServiceImpl.getWorkers
    return result.map fun workers => workers.map WorkerInfo.view

/-- A connection to the gateway, when `read_until` has left `buffered` in the buffer and the socket will deliver
`later`: what it is answered with, if anything. -/
def connection (buffered later : Bytes) : ServiceCode (Option Bytes) := do
  let result ← ((serveConnection buffered later).handle GatewayEffect.serve).attempt
  return result.toOption

/-! ### All of them -/

/-- One RPC, one of the loops, or one connection to the gateway. -/
inductive Service where
  | submitTask (request : SubmitTaskMessage)
  | getTaskStatus (taskId : Bytes)
  | registerWorker (workerId address : Bytes) (port : Int32)
  | getWorkers
  | heartbeat (workerId : Bytes) (currentLoad : Int32)
  | taskDispatchLoop
  | workerCheckLoop
  | refreshLoop
  | queryTask (tracker : TrackerServiceImpl) (taskId : Bytes)
  | getStats (stats : StatsServiceImpl)
  | heartbeatLoop (config : Config.WorkerConfig) (redis : RedisClient)
  | connection (buffered later : Bytes)

/-- What an RPC replies and what a connection is answered with; a loop ends an iteration. -/
inductive ServiceReply where
  | submitted (reply : SubmitTaskReply)
  | task (reply : TaskReply)
  | registered (reply : RegisterWorkerReply)
  | workers (reply : List WorkerInfo)
  | heartbeat (reply : HeartbeatReply)
  | stats (reply : GetStatsReply)
  | response (text : Option Bytes)
  | iterated

def Service.code : Service → ServiceCode ServiceReply
  | .submitTask request => do return .submitted (← SchedulerServiceImpl.submitTask request)
  | .getTaskStatus taskId => do return .task (← dispatcher (SchedulerServiceImpl.getTaskStatus taskId))
  | .registerWorker workerId address port => do
    return .registered (← SchedulerServiceImpl.registerWorker workerId address port)
  | .getWorkers => do return .workers (← SchedulerServiceImpl.getWorkers)
  | .heartbeat workerId currentLoad => do return .heartbeat (← WorkerServiceImpl.heartbeat workerId currentLoad)
  | .taskDispatchLoop => do dispatcher taskDispatchIteration; return .iterated
  | .workerCheckLoop => do workerCheckIteration; return .iterated
  | .refreshLoop => do refreshIteration; return .iterated
  | .queryTask tracker taskId => do return .task (← dispatcher (tracker.queryTask taskId))
  | .getStats stats => do return .stats (← stats.getStats)
  | .heartbeatLoop config redis => do dispatcher (heartbeatIteration config redis); return .iterated
  | .connection buffered later => do return .response (← Taskflow.connection buffered later)

/-- A loop starts its next iteration when one has ended. -/
def Service.again : Service → Option (ServiceCode ServiceReply)
  | .taskDispatchLoop => some Service.taskDispatchLoop.code
  | .workerCheckLoop => some Service.workerCheckLoop.code
  | .refreshLoop => some Service.refreshLoop.code
  | .heartbeatLoop config redis => some (Service.heartbeatLoop config redis).code
  | _ => none

/-- What the services share. -/
structure Deployment where
  redis : Keyspace
  generator : Snowflake
  balancer : LoadBalancer

/-- Redis and the pool; `faulty` permits the pool to have no connection and any command to fail, before Redis has
executed it or after that, when only the reply is lost. -/
def attempted (faulty : Prop) : Semantics Effect Effect.Answer Keyspace
  | .getConnection, w, r, w' => w' = w ∧ (∀ conn, r = some conn → conn.connected = true) ∧ (r = none → faulty)
  | .command context cmd, w, r, w' => answered (.command context cmd) w r w' ∨
    faulty ∧ (w' = w ∧ (r = none ∨ r = some .error) ∨ r = none ∧ w' = (exec cmd w).2)
  | e, w, r, w' => answered e w r w'

/-- The environment of the services.  `discovers` says what etcd may answer; the generator's clock shows times that
fit the timestamp of an id; messages between the processes may always get lost. -/
def deployed (faulty : Prop) (discovers : (e : EtcdEffect) → e.Answer → Prop) (sort : StdSort) :
    Semantics ServiceEffect ServiceEffect.Answer Deployment
  | .dispatcher e, w, r, w' =>
    attempted faulty e w.redis r w'.redis ∧ w.balancer.serves sort e r w'.balancer ∧ w'.generator = w.generator
  | .nextId, w, r, w' =>
    ∃ generator readings rest, (∀ t ∈ readings, Snowflake.InEpoch t) ∧
      w.generator.nextId readings = some (r, generator, rest) ∧ w' = { w with generator := generator }
  | .etcd e, w, r, w' => w' = w ∧ discovers e r
  | .updateWorkers services, w, _, w' =>
    ∃ listed now, listed.map (·.1) = services ∧
      w' = { w with balancer := w.balancer.updateWorkers listed now }
  | .getWorkers, w, r, w' => w' = w ∧ r = w.balancer.getWorkers
  | .markWorkerDead workerId, w, _, w' => w' = { w with balancer := w.balancer.markWorkerDead workerId }
  | .transport, w, _, w' => w' = w

/-- Before any service has started: Redis is empty, and the generator is that of worker 1. -/
def freshDeployment (strategy : Bytes) : Deployment where
  redis := ∅
  generator := (({} : Snowflake).init 1).2
  balancer := .create strategy

end Taskflow
