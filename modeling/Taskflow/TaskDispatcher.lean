import Taskflow.RedisClient

/-!
# `TaskDispatcher` and the dispatch loop

`src/scheduler/task_dispatcher.cpp` and `taskDispatchLoop` of `src/scheduler.cpp`.  Each operation takes a
connection, issues its commands one after the other and returns the connection; what a command answered is mostly
ignored.
-/

namespace Taskflow

open Text Effects Prog

structure TaskRequest where
  id : Bytes
  type : Int32
  priority : Int32
  data : Bytes
  createdAt : Int64

/-- `TaskResult`; the operations read no other member. -/
structure TaskResult where
  result : Bytes

/-- The members `started_at` and `finished_at` of the saved record are never assigned. -/
def submitTask (task : TaskRequest) : Code Bool := do
  let some redis ← getConnection | return false
  let declared ← declareTaskInfo
  let taskInfo := { declared with
    id := task.id, type := task.type, priority := task.priority, data := task.data, createdAt := task.createdAt,
    status := 0, retryCount := 0 }
  if !(← redis.saveTask taskInfo) then
    returnConnection redis
    return false
  if !(← redis.pushToPriorityQueue task.priority task.id) then
    returnConnection redis
    return false
  returnConnection redis
  return true

def popNextTask : Code Bytes := do
  let some redis ← getConnection | return []
  let taskId ← redis.popFromPriorityQueue
  returnConnection redis
  return taskId

def assignTaskToWorker (taskId workerId : Bytes) : Code Bool := do
  let some redis ← getConnection | return false
  let task ← redis.getTask taskId
  if task.id.isEmpty then
    returnConnection redis
    return false
  let now ← systemClock
  let _ ← redis.hset (taskKey taskId) (bytes "status") (bytes "1")
  let _ ← redis.hset (taskKey taskId) (bytes "worker_id") workerId
  let _ ← redis.hset (taskKey taskId) (bytes "started_at") (decimal now.toInt)
  let _ ← redis.incrementWorkerLoad workerId
  let load ← redis.getWorkerLoad workerId
  updateWorkerLoad workerId load
  returnConnection redis
  return true

def completeTask (taskId : Bytes) (result : TaskResult) : Code Bool := do
  let some redis ← getConnection | return false
  let workerId ← redis.hget (taskKey taskId) (bytes "worker_id")
  let _ ← redis.updateTaskStatus taskId 2 []
  let _ ← redis.hset (taskKey taskId) (bytes "result") result.result
  if !workerId.isEmpty then
    let _ ← redis.decrementWorkerLoad workerId
    let load ← redis.getWorkerLoad workerId
    updateWorkerLoad workerId load
    recordSuccess workerId
  returnConnection redis
  return true

def failTask (taskId error : Bytes) : Code Bool := do
  let some redis ← getConnection | return false
  let workerId ← redis.hget (taskKey taskId) (bytes "worker_id")
  let _ ← redis.updateTaskStatus taskId 3 error
  if !workerId.isEmpty then
    let _ ← redis.decrementWorkerLoad workerId
    let load ← redis.getWorkerLoad workerId
    updateWorkerLoad workerId load
    recordFailure workerId
  returnConnection redis
  return true

/-- `1 << retry_count`: the shift count is the low five bits of the operand on the hardware the code runs on. -/
def retryDelay (retryCount : Int32) : Int32 := 1 <<< retryCount

/-- What `retryTask` does once the task is off its worker. -/
def RedisClient.requeueRetry (redis : RedisClient) (taskId : Bytes) (retryCount : Int32) : Code Bool := do
  let _ ← redis.incrementTaskRetry taskId
  let task ← redis.getTask taskId
  let _now ← systemClock
  let delaySeconds := retryDelay retryCount
  let retryKey := bytes "retry:" ++ decimal delaySeconds.toInt ++ bytes ":" ++ taskId
  let _ ← redis.setex retryKey taskId delaySeconds
  let _ ← redis.pushToPriorityQueue task.priority taskId
  returnConnection redis
  return true

def retryTask (taskId : Bytes) : Code Bool := do
  let some redis ← getConnection | return false
  let retryCount := (← redis.getTask taskId).retryCount
  if 3 ≤ retryCount then
    returnConnection redis
    return false
  let workerId ← redis.hget (taskKey taskId) (bytes "worker_id")
  if !workerId.isEmpty then
    let _ ← redis.decrementWorkerLoad workerId
    let load ← redis.getWorkerLoad workerId
    updateWorkerLoad workerId load
  redis.requeueRetry taskId retryCount

/-- The reply to `LLEN` is not negative, so the cast to `size_t` keeps it. -/
def getQueueSize (priority : Int32) : Code Nat := do
  let some redis ← getConnection | return 0
  let queue :=
    if priority = 2 then bytes "queue:high" else if priority = 1 then bytes "queue:medium" else bytes "queue:low"
  let size ← redis.llen queue
  returnConnection redis
  return size.toNat

def getTotalQueueSize : Code Nat := do
  return (← getQueueSize 2) + (← getQueueSize 1) + (← getQueueSize 0)

/-- One iteration of `taskDispatchLoop`. -/
def taskDispatchIteration : Code Unit := do
  let taskId ← popNextTask
  if taskId.isEmpty then return ()
  let workerId ← selectWorker taskId
  if workerId.isEmpty then
    let some redis ← getConnection | return ()
    let task ← redis.getTask taskId
    if !task.id.isEmpty then
      let _ ← redis.pushToPriorityQueue task.priority taskId
    returnConnection redis
    return ()
  let _ ← assignTaskToWorker taskId workerId
  return ()

end Taskflow
