import Taskflow.Redis

/-!
# `RedisClient`

The wrappers of `src/common/redis_client.cpp` that the scheduler uses, one program each.  A wrapper passes its
arguments through `%s`, which ends at a NUL byte (`cStr`); `hmset` alone passes lengths.  Every wrapper answers
something also when the command failed (`""`, `false`, an empty map), and the callers often ignore it.
-/

namespace Taskflow

open Text Effects Prog

def taskPrefix : Bytes := bytes "task:"
def queueHigh : Bytes := bytes "queue:high"
def queueMedium : Bytes := bytes "queue:medium"
def queueLow : Bytes := bytes "queue:low"
def workerLoadPrefix : Bytes := bytes "worker:load:"

/-- The key of a task's record. -/
def taskKey (taskId : Bytes) : Bytes := taskPrefix ++ taskId

def workerLoadKey (workerId : Bytes) : Bytes := workerLoadPrefix ++ workerId

/-- `reply && reply->type != REDIS_REPLY_ERROR` -/
def succeeded : Option Reply → Bool
  | none => false
  | some reply => !reply.isError

/-- The text of a string reply, `""` for any other reply or none. -/
def replyText : Option Reply → Bytes
  | some (.string b) => b
  | _ => []

/-- The number of an integer reply, `0` for any other reply or none. -/
def replyInteger : Option Reply → Int
  | some (.integer n) => n
  | _ => 0

/-- The map that `hgetall` builds from the elements of an array reply, two at a time. -/
def pairElements : List Reply → StringMap Bytes → StringMap Bytes
  | .string field :: .string value :: rest, result => pairElements rest (result.insert field value)
  | _ :: _ :: rest, result => pairElements rest result
  | _, result => result

def replyFields : Option Reply → StringMap Bytes
  | some (.array elements) => pairElements elements ∅
  | _ => ∅

namespace RedisClient

def setex (redis : RedisClient) (key value : Bytes) (seconds : Int32) : Code Bool := do
  if !redis.connected then return false
  let reply ← command redis (.setex (cStr key) seconds (cStr value))
  return succeeded reply

def get (redis : RedisClient) (key : Bytes) : Code Bytes := do
  if !redis.connected then return []
  let reply ← command redis (.get (cStr key))
  return replyText reply

def rpush (redis : RedisClient) (key value : Bytes) : Code Bool := do
  if !redis.connected then return false
  let reply ← command redis (.rpush (cStr key) (cStr value))
  return succeeded reply

def lpop (redis : RedisClient) (key : Bytes) : Code Bytes := do
  if !redis.connected then return []
  let reply ← command redis (.lpop (cStr key))
  return replyText reply

def llen (redis : RedisClient) (key : Bytes) : Code Int := do
  if !redis.connected then return 0
  let reply ← command redis (.llen (cStr key))
  return replyInteger reply

def hset (redis : RedisClient) (key field value : Bytes) : Code Bool := do
  if !redis.connected then return false
  let reply ← command redis (.hset (cStr key) (cStr field) (cStr value))
  return succeeded reply

def hget (redis : RedisClient) (key field : Bytes) : Code Bytes := do
  if !redis.connected then return []
  let reply ← command redis (.hget (cStr key) (cStr field))
  return replyText reply

def hmset (redis : RedisClient) (key : Bytes) (fields : StringMap Bytes) : Code Bool := do
  if !redis.connected || fields.isEmpty then return false
  let reply ← command redis (.hmset key fields.toList)
  return succeeded reply

def hgetall (redis : RedisClient) (key : Bytes) : Code (StringMap Bytes) := do
  if !redis.connected then return ∅
  let reply ← command redis (.hgetall (cStr key))
  return replyFields reply

def incr (redis : RedisClient) (key : Bytes) : Code Int := do
  if !redis.connected then return 0
  let reply ← command redis (.incr (cStr key))
  return replyInteger reply

def incrby (redis : RedisClient) (key : Bytes) (increment : Int) : Code Int := do
  if !redis.connected then return 0
  let reply ← command redis (.incrby (cStr key) increment)
  return replyInteger reply

end RedisClient

/-! ### Task records -/

/-- `TaskInfo task;`: the strings are empty, the integers have no determined value. -/
def declareTaskInfo : Code TaskInfo := do
  let stack ← indeterminate
  return { stack with id := [], data := [], errorMessage := [], result := [] }

/-- The lambda `getInt` of `getTask`. -/
def getInt (fields : StringMap Bytes) (field : String) : Except StdException Int64 :=
  match fields[bytes field]? with
  | some text => stoll text
  | none => .ok 0

/-- `fields.count(field) ? fields[field] : ""` -/
def getText (fields : StringMap Bytes) (field : String) : Bytes := (fields[bytes field]?).getD []

/-- The assignments of `getTask` from a non-empty map of fields, in order. -/
def readFields (task : TaskInfo) (fields : StringMap Bytes) : Except StdException TaskInfo := do
  let type ← getInt fields "type"
  let priority ← getInt fields "priority"
  let createdAt ← getInt fields "created_at"
  let startedAt ← getInt fields "started_at"
  let finishedAt ← getInt fields "finished_at"
  let status ← getInt fields "status"
  let retryCount ← getInt fields "retry_count"
  return { task with
    type := type.toInt32, priority := priority.toInt32, data := getText fields "data", createdAt := createdAt,
    startedAt := startedAt, finishedAt := finishedAt, status := status.toInt32, retryCount := retryCount.toInt32,
    errorMessage := getText fields "error_message", result := getText fields "result" }

/-- The initializer of the map `fields` of `saveTask`. -/
def recordEntries (task : TaskInfo) : List (Bytes × Bytes) := [
  (bytes "type", decimal task.type.toInt),
  (bytes "priority", decimal task.priority.toInt),
  (bytes "data", task.data),
  (bytes "created_at", decimal task.createdAt.toInt),
  (bytes "started_at", decimal task.startedAt.toInt),
  (bytes "finished_at", decimal task.finishedAt.toInt),
  (bytes "status", decimal task.status.toInt),
  (bytes "retry_count", decimal task.retryCount.toInt),
  (bytes "error_message", task.errorMessage),
  (bytes "result", task.result)]

/-- The fields that `saveTask` writes. -/
def recordFields (task : TaskInfo) : StringMap Bytes := .ofList (recordEntries task)

/-- The queue that a priority chooses. -/
def queueOf (priority : Int32) : Bytes :=
  if priority = 2 then queueHigh else if priority = 1 then queueMedium else queueLow

namespace RedisClient

/-- A record that does not exist leaves the members indeterminate, but the id is always set. -/
def getTask (redis : RedisClient) (taskId : Bytes) : Code TaskInfo := do
  let declared ← declareTaskInfo
  let task := { declared with id := taskId }
  let fields ← redis.hgetall (taskKey taskId)
  if fields.isEmpty then return task
  ofExcept (readFields task fields)

def saveTask (redis : RedisClient) (task : TaskInfo) : Code Bool :=
  redis.hmset (taskKey task.id) (recordFields task)

def updateTaskStatus (redis : RedisClient) (taskId : Bytes) (status : Int32) (errorMsg : Bytes) : Code Bool := do
  let _ ← redis.hset (taskKey taskId) (bytes "status") (decimal status.toInt)
  if !errorMsg.isEmpty then
    let _ ← redis.hset (taskKey taskId) (bytes "error_message") errorMsg
  if status = 2 || status = 3 then
    let now ← systemClock
    let _ ← redis.hset (taskKey taskId) (bytes "finished_at") (decimal now.toInt)
  return true

def incrementTaskRetry (redis : RedisClient) (taskId : Bytes) : Code Bool := do
  let current ← redis.hget (taskKey taskId) (bytes "retry_count")
  let retry ← ofExcept (if current.isEmpty then .ok 0 else stoi 10 current)
  redis.hset (taskKey taskId) (bytes "retry_count") (decimal (retry + 1).toInt)

def pushToPriorityQueue (redis : RedisClient) (priority : Int32) (taskId : Bytes) : Code Bool :=
  redis.rpush (queueOf priority) taskId

def popFromPriorityQueue (redis : RedisClient) : Code Bytes := do
  let taskId ← redis.lpop queueHigh
  if !taskId.isEmpty then return taskId
  let taskId ← redis.lpop queueMedium
  if !taskId.isEmpty then return taskId
  redis.lpop queueLow

def incrementWorkerLoad (redis : RedisClient) (workerId : Bytes) : Code Bool := do
  let _ ← redis.incr (workerLoadKey workerId)
  return true

/-- `std::stoll` throws when the counter does not exist: `get` then answers `""`. -/
def decrementWorkerLoad (redis : RedisClient) (workerId : Bytes) : Code Bool := do
  let text ← redis.get (workerLoadKey workerId)
  let load ← ofExcept (stoll text)
  if 0 < load then
    let _ ← redis.incrby (workerLoadKey workerId) (-1)
  return true

def getWorkerLoad (redis : RedisClient) (workerId : Bytes) : Code Int32 := do
  let load ← redis.get (workerLoadKey workerId)
  ofExcept (if load.isEmpty then .ok 0 else stoi 10 load)

end RedisClient

end Taskflow
