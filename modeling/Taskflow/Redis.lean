import Taskflow.Lib.Effects
import Taskflow.Lib.Text

/-!
# The Redis server and the effects of the scheduler

`Keyspace` is the content of a Redis server, `exec` what one command does to it and replies.  The scheduler's
code (`src/scheduler`, `src/common/redis_client.cpp`) is modelled as programs over `Effect`: Redis commands,
taking and returning a pooled connection, reading the clock, reading members that were never assigned, and calls
of the load balancer, which runs under its own mutex.  `served` is the environment: the server executes commands
one at a time; when it is `faulty`, the pool may have no connection, and any command may fail, before it was
executed or after.  `accounted` is the same environment with a log of what has become of each command.

`SETEX` stores its value without the expiry: only keys that no code reads are set with one.
-/

namespace Taskflow

open Text Effects

/-! ### The server -/

inductive Value where
  | string (b : Bytes)
  | list (l : List Bytes)
  | hash (h : StringMap Bytes)

abbrev Keyspace := StringMap Value

inductive Reply where
  | nil
  | status
  | error
  | integer (n : Int)
  | string (b : Bytes)
  | array (elements : List Reply)

def Reply.isError : Reply → Bool
  | .error => true
  | _ => false

inductive Command where
  | get (key : Bytes)
  | setex (key : Bytes) (seconds : Int32) (value : Bytes)
  | hset (key field value : Bytes)
  | hget (key field : Bytes)
  | hmset (key : Bytes) (fields : List (Bytes × Bytes))
  | hgetall (key : Bytes)
  | rpush (key value : Bytes)
  | lpop (key : Bytes)
  | llen (key : Bytes)
  | incr (key : Bytes)
  | incrby (key : Bytes) (increment : Int)

/-- The integer a string value stands for: Redis takes only the canonical decimal of a 64-bit integer. -/
def redisInteger (b : Bytes) : Option Int :=
  (strtol 10 b).filter fun n => decimal n == b && decide (-2 ^ 63 ≤ n) && decide (n < 2 ^ 63)

/-- `INCRBY`; a missing key counts as `0`. -/
def execIncrby (key : Bytes) (increment : Int) (w : Keyspace) : Reply × Keyspace :=
  let add (n : Int) : Reply × Keyspace :=
    if -2 ^ 63 ≤ n + increment ∧ n + increment < 2 ^ 63 then
      (.integer (n + increment), w.insert key (.string (decimal (n + increment))))
    else (.error, w)
  match w[key]? with
  | none => add 0
  | some (.string b) =>
    match redisInteger b with
    | some n => add n
    | none => (.error, w)
  | some _ => (.error, w)

/-- The fields of a hash after storing `fields` in order. -/
def storeFields (h : StringMap Bytes) (fields : List (Bytes × Bytes)) : StringMap Bytes :=
  fields.foldl (fun h p => h.insert p.1 p.2) h

/-- What one command replies, and the content it leaves. -/
def exec : Command → Keyspace → Reply × Keyspace
  | .get key, w =>
    match w[key]? with
    | none => (.nil, w)
    | some (.string b) => (.string b, w)
    | some _ => (.error, w)
  | .setex key seconds value, w => if 0 < seconds then (.status, w.insert key (.string value)) else (.error, w)
  | .hset key field value, w =>
    match w[key]? with
    | none => (.integer 1, w.insert key (.hash ((∅ : StringMap Bytes).insert field value)))
    | some (.hash h) => (.integer (if field ∈ h then 0 else 1), w.insert key (.hash (h.insert field value)))
    | some _ => (.error, w)
  | .hget key field, w =>
    match w[key]? with
    | none => (.nil, w)
    | some (.hash h) => (match h[field]? with | some v => .string v | none => .nil, w)
    | some _ => (.error, w)
  | .hmset key fields, w =>
    match w[key]? with
    | none => (.status, w.insert key (.hash (storeFields ∅ fields)))
    | some (.hash h) => (.status, w.insert key (.hash (storeFields h fields)))
    | some _ => (.error, w)
  | .hgetall key, w =>
    match w[key]? with
    | none => (.array [], w)
    | some (.hash h) => (.array (h.toList.flatMap fun p => [.string p.1, .string p.2]), w)
    | some _ => (.error, w)
  | .rpush key value, w =>
    match w[key]? with
    | none => (.integer 1, w.insert key (.list [value]))
    | some (.list l) => (.integer (l.length + 1), w.insert key (.list (l ++ [value])))
    | some _ => (.error, w)
  | .lpop key, w =>
    match w[key]? with
    | none => (.nil, w)
    | some (.list (x :: [])) => (.string x, w.erase key)
    | some (.list (x :: l)) => (.string x, w.insert key (.list l))
    | some (.list []) => (.nil, w)
    | some _ => (.error, w)
  | .llen key, w =>
    match w[key]? with
    | none => (.integer 0, w)
    | some (.list l) => (.integer l.length, w)
    | some _ => (.error, w)
  | .incr key, w => execIncrby key 1 w
  | .incrby key increment, w => execIncrby key increment w

/-! ### The effects of the scheduler's code -/

/-- A pooled connection: its hiredis context and the flag `connected_`. -/
structure RedisClient where
  context : Nat
  connected : Bool
  deriving DecidableEq, Repr

/-- `TaskInfo` of `redis_client.h`. -/
structure TaskInfo where
  id : Bytes
  type : Int32
  priority : Int32
  data : Bytes
  createdAt : Int64
  startedAt : Int64
  finishedAt : Int64
  status : Int32
  retryCount : Int32
  errorMessage : Bytes
  result : Bytes
  deriving DecidableEq, Inhabited

inductive Effect where
  | getConnection
  | returnConnection (conn : RedisClient)
  | command (context : Nat) (cmd : Command)
  | systemClock
  | indeterminate
  | selectWorker (taskId : Bytes)
  | updateWorkerLoad (workerId : Bytes) (load : Int32)
  | recordSuccess (workerId : Bytes)
  | recordFailure (workerId : Bytes)

/-- The type of an effect's answer.  A command is answered by the reply hiredis returns, `none` for `NULL`; the
clock by milliseconds; `indeterminate` by a record whose integer members are those of a local `TaskInfo` that
were never assigned. -/
@[reducible] def Effect.Answer : Effect → Type
  | .getConnection => Option RedisClient
  | .returnConnection _ => Unit
  | .command _ _ => Option Reply
  | .systemClock => Int64
  | .indeterminate => TaskInfo
  | .selectWorker _ => Bytes
  | .updateWorkerLoad _ _ => Unit
  | .recordSuccess _ => Unit
  | .recordFailure _ => Unit

/-- The scheduler's code: a program over its effects. -/
abbrev Code (α : Type) := Prog Effect Effect.Answer StdException α

section Requests

open Prog

def getConnection : Code (Option RedisClient) := perform Effect.getConnection
def returnConnection (redis : RedisClient) : Code Unit := perform (Effect.returnConnection redis)
def command (redis : RedisClient) (cmd : Command) : Code (Option Reply) :=
  perform (Effect.command redis.context cmd)
def systemClock : Code Int64 := perform Effect.systemClock
def indeterminate : Code TaskInfo := perform Effect.indeterminate
def selectWorker (taskId : Bytes) : Code Bytes := perform (Effect.selectWorker taskId)
def updateWorkerLoad (workerId : Bytes) (load : Int32) : Code Unit :=
  perform (Effect.updateWorkerLoad workerId load)
def recordSuccess (workerId : Bytes) : Code Unit := perform (Effect.recordSuccess workerId)
def recordFailure (workerId : Bytes) : Code Unit := perform (Effect.recordFailure workerId)

variable {α : Type}

@[simp] theorem getConnection_bind (f : Option RedisClient → Code α) :
    (getConnection >>= f) = call .getConnection f := rfl

@[simp] theorem returnConnection_bind (redis : RedisClient) (f : Unit → Code α) :
    (returnConnection redis >>= f) = call (.returnConnection redis) f := rfl

@[simp] theorem command_bind (redis : RedisClient) (cmd : Command) (f : Option Reply → Code α) :
    (command redis cmd >>= f) = call (.command redis.context cmd) f := rfl

@[simp] theorem systemClock_bind (f : Int64 → Code α) : (systemClock >>= f) = call .systemClock f := rfl

@[simp] theorem indeterminate_bind (f : TaskInfo → Code α) : (indeterminate >>= f) = call .indeterminate f := rfl

@[simp] theorem selectWorker_bind (taskId : Bytes) (f : Bytes → Code α) :
    (selectWorker taskId >>= f) = call (.selectWorker taskId) f := rfl

@[simp] theorem updateWorkerLoad_bind (workerId : Bytes) (load : Int32) (f : Unit → Code α) :
    (updateWorkerLoad workerId load >>= f) = call (.updateWorkerLoad workerId load) f := rfl

@[simp] theorem recordSuccess_bind (workerId : Bytes) (f : Unit → Code α) :
    (recordSuccess workerId >>= f) = call (.recordSuccess workerId) f := rfl

@[simp] theorem recordFailure_bind (workerId : Bytes) (f : Unit → Code α) :
    (recordFailure workerId >>= f) = call (.recordFailure workerId) f := rfl

end Requests

/-- An identifier as the services make them: `std::to_string` of a snowflake id for a task, `worker-<n>` for a
worker.  It is not empty and has no NUL byte. -/
structure ValidId (id : Bytes) : Prop where
  nonempty : id ≠ []
  noNul : 0 ∉ id

theorem validId_decimal (n : Int) : ValidId (decimal n) := ⟨decimal_ne_nil n, noNul_decimal n⟩

/-- What becomes of a command: it is executed and answered, it is executed and the reply is lost, or it is not
executed. -/
inductive Fate where
  | answered
  | lost
  | refused
  deriving DecidableEq

/-- What the code gets for a command of this fate, and the content that is left. -/
def Delivered (cmd : Command) (w : Keyspace) : Fate → Option Reply → Keyspace → Prop
  | .answered, r, w' => r = some (exec cmd w).1 ∧ w' = (exec cmd w).2 ∧ (exec cmd w).1.isError = false
  | .lost, r, w' => r = none ∧ w' = (exec cmd w).2 ∧ (exec cmd w).1.isError = false
  | .refused, r, w' => w' = w ∧ (r = none ∨ r = some .error)

/-- The environment of the scheduler's code, as far as Redis is concerned.  `faulty` permits the pool to have no
connection and any single command to fail; the code cannot tell whether a command without a reply was executed. -/
def served (faulty : Prop) : Semantics Effect Effect.Answer Keyspace
  | .getConnection, w, r, w' => w' = w ∧ (∀ conn, r = some conn → conn.connected = true) ∧ (r = none → faulty)
  | .returnConnection _, w, _, w' => w' = w
  | .command _ cmd, w, r, w' => ∃ fate, (fate ≠ .answered → faulty) ∧ Delivered cmd w fate r w'
  | .systemClock, w, _, w' => w' = w
  | .indeterminate, w, _, w' => w' = w
  | .selectWorker _, w, r, w' => w' = w ∧ (r ≠ [] → ValidId r)
  | .updateWorkerLoad _ _, w, _, w' => w' = w
  | .recordSuccess _, w, _, w' => w' = w
  | .recordFailure _, w, _, w' => w' = w

/-- The environment when nothing fails: the pool has a connection, and the server answers every command, with an
error reply where a key holds a value of another kind. -/
def answered : Semantics Effect Effect.Answer Keyspace
  | .getConnection, w, r, w' => w' = w ∧ ∃ conn, r = some conn ∧ conn.connected = true
  | .returnConnection _, w, _, w' => w' = w
  | .command _ cmd, w, r, w' => r = some (exec cmd w).1 ∧ w' = (exec cmd w).2
  | .systemClock, w, _, w' => w' = w
  | .indeterminate, w, _, w' => w' = w
  | .selectWorker _, w, _, w' => w' = w
  | .updateWorkerLoad _ _, w, _, w' => w' = w
  | .recordSuccess _, w, _, w' => w' = w
  | .recordFailure _, w, _, w' => w' = w

theorem answered_total (e : Effect) (w : Keyspace) : ∃ r w', answered e w r w' := by
  cases e with
  | getConnection => exact ⟨some ⟨0, true⟩, w, rfl, _, rfl, rfl⟩
  | returnConnection conn => exact ⟨(), w, rfl⟩
  | command context cmd => exact ⟨_, _, rfl, rfl⟩
  | systemClock => exact ⟨0, w, rfl⟩
  | indeterminate => exact ⟨default, w, rfl⟩
  | selectWorker taskId => exact ⟨[], w, rfl⟩
  | updateWorkerLoad workerId load => exact ⟨(), w, rfl⟩
  | recordSuccess workerId => exact ⟨(), w, rfl⟩
  | recordFailure workerId => exact ⟨(), w, rfl⟩

/-- A command in the log: its fate, and what the server replied to it, or would have. -/
structure Sent where
  command : Command
  fate : Fate
  reply : Reply

/-- The same environment, which writes down what becomes of each command. -/
def accounted (faulty : Prop) : Account Effect Effect.Answer Keyspace Sent
  | .command _ cmd, w, r, w', sent =>
    ∃ fate, (fate ≠ .answered → faulty) ∧ Delivered cmd w fate r w' ∧ sent = [⟨cmd, fate, (exec cmd w).1⟩]
  | e, w, r, w', sent => served faulty e w r w' ∧ sent = []

theorem served_of_accounted {faulty : Prop} {e : Effect} {w : Keyspace} {r : e.Answer} {w' : Keyspace}
    {sent : List Sent} (hs : accounted faulty e w r w' sent) : served faulty e w r w' := by
  cases e with
  | command context cmd =>
    obtain ⟨fate, hf, hdelivered, -⟩ := hs
    exact ⟨fate, hf, hdelivered⟩
  | _ => exact hs.1

theorem accounted_of_served {faulty : Prop} {e : Effect} {w : Keyspace} {r : e.Answer} {w' : Keyspace}
    (hs : served faulty e w r w') : ∃ sent, accounted faulty e w r w' sent := by
  cases e with
  | command context cmd =>
    obtain ⟨fate, hf, hdelivered⟩ := hs
    exact ⟨_, fate, hf, hdelivered, rfl⟩
  | _ => exact ⟨[], hs, rfl⟩

section Delivery

variable {cmd : Command} {w w' : Keyspace} {fate : Fate} {r : Option Reply}

/-- What was not refused was executed, the rest changes nothing. -/
theorem Delivered.world (h : Delivered cmd w fate r w') :
    fate = .refused ∧ w' = w ∨ fate ≠ .refused ∧ w' = (exec cmd w).2 ∧ (exec cmd w).1.isError = false := by
  cases fate with
  | answered => exact Or.inr ⟨nofun, h.2⟩
  | lost => exact Or.inr ⟨nofun, h.2⟩
  | refused => exact Or.inl ⟨rfl, h.1⟩

/-- A command that failed has no reply, or an error. -/
theorem Delivered.failed (h : Delivered cmd w fate r w') (hf : fate ≠ .answered) : r = none ∨ r = some .error := by
  cases fate with
  | answered => exact absurd rfl hf
  | lost => exact Or.inl h.1
  | refused => exact h.2

end Delivery

/-- An environment that changes the content by commands only; a command that succeeds is executed. -/
structure Serves (S : Semantics Effect Effect.Answer Keyspace) : Prop where
  changes : ∀ {e w r w'}, S e w r w' → w' = w ∨ ∃ context cmd, e = .command context cmd ∧ w' = (exec cmd w).2
  executes : ∀ {context cmd w} {r : Option Reply} {w'}, S (.command context cmd) w r w' →
    (∃ reply, r = some reply ∧ reply.isError = false) → r = some (exec cmd w).1 ∧ w' = (exec cmd w).2

theorem served_serves (faulty : Prop) : Serves (served faulty) := by
  constructor
  · intro e w r w' hs
    cases e with
    | command context cmd =>
      obtain ⟨fate, -, hdelivered⟩ := hs
      rcases hdelivered.world with ⟨-, rfl⟩ | ⟨-, rfl, -⟩
      · exact Or.inl rfl
      · exact Or.inr ⟨context, cmd, rfl, rfl⟩
    | getConnection => exact Or.inl hs.1
    | selectWorker taskId => exact Or.inl hs.1
    | _ => exact Or.inl hs
  · rintro context cmd w r w' ⟨fate, -, hdelivered⟩ ⟨reply, hreply, herr⟩
    by_cases hfate : fate = .answered
    · subst hfate
      exact ⟨hdelivered.1, hdelivered.2.1⟩
    · rcases hdelivered.failed hfate with rfl | rfl
      · cases hreply
      · cases hreply
        cases herr

theorem answered_serves : Serves answered := by
  constructor
  · intro e w r w' hs
    cases e with
    | command context cmd => exact Or.inr ⟨context, cmd, rfl, hs.2⟩
    | getConnection => exact Or.inl hs.1
    | _ => exact Or.inl hs
  · intro context cmd w r w' hs _
    exact hs

/-- Where nothing fails, every command is executed and answered. -/
theorem served_command {context : Nat} {cmd : Command} {w : Keyspace} {r : Option Reply} {w' : Keyspace}
    (hs : served False (.command context cmd) w r w') :
    r = some (exec cmd w).1 ∧ w' = (exec cmd w).2 ∧ (exec cmd w).1.isError = false := by
  obtain ⟨fate, hfate, hdelivered⟩ := hs
  obtain rfl : fate = .answered := by_contra hfate
  exact hdelivered

/-- Where nothing fails, every command is answered. -/
theorem answered_of_served {e : Effect} {w : Keyspace} {r : e.Answer} {w' : Keyspace} (hs : served False e w r w') :
    answered e w r w' := by
  cases e with
  | getConnection =>
    obtain ⟨hw, hconn, hnone⟩ := hs
    cases r with
    | none => exact (hnone rfl).elim
    | some redis => exact ⟨hw, redis, rfl, hconn redis rfl⟩
  | command context cmd => exact ⟨(served_command hs).1, (served_command hs).2.1⟩
  | selectWorker taskId => exact hs.1
  | _ => exact hs

/-- An environment in which the commands that `fails` names fail and everything else succeeds; the balancer always
selects `worker`, and the clock stands still. -/
def answer (fails : Command → Bool) (worker : Bytes) : (e : Effect) → Keyspace → Option (e.Answer × Keyspace)
  | .getConnection, w => some (some ⟨0, true⟩, w)
  | .returnConnection _, w => some ((), w)
  | .command _ cmd, w =>
    if fails cmd then some (none, w)
    else if (exec cmd w).1.isError then none
    else some (some (exec cmd w).1, (exec cmd w).2)
  | .systemClock, w => some (0, w)
  | .indeterminate, w => some (default, w)
  | .selectWorker _, w => some (worker, w)
  | .updateWorkerLoad _ _, w => some ((), w)
  | .recordSuccess _, w => some ((), w)
  | .recordFailure _, w => some ((), w)

theorem answer_served {faulty : Prop} {fails : Command → Bool} {worker : Bytes}
    (hworker : worker ≠ [] → ValidId worker)
    (hfails : ∀ cmd, fails cmd = true → faulty) (e : Effect) (w : Keyspace) (r : e.Answer) (w' : Keyspace)
    (h : answer fails worker e w = some (r, w')) : served faulty e w r w' := by
  cases e with
  | getConnection =>
    cases h
    refine ⟨rfl, ?_, fun hr => nomatch hr⟩
    rintro conn ⟨⟩
    rfl
  | command context cmd =>
    simp only [answer] at h
    split at h
    · rename_i hf
      cases h
      exact ⟨.refused, fun _ => hfails cmd hf, rfl, Or.inl rfl⟩
    · split at h
      · cases h
      · rename_i herr
        cases h
        exact ⟨.answered, fun hne => absurd rfl hne, rfl, rfl, by simpa using herr⟩
  | selectWorker taskId =>
    cases h
    exact ⟨rfl, hworker⟩
  | _ =>
    cases h
    rfl

theorem answer_fault_free {faulty : Prop} : ∀ e w r w', answer (fun _ => false) [] e w = some (r, w') →
    served faulty e w r w' :=
  answer_served (fun h => absurd rfl h) (fun _ h => Bool.noConfusion h)

end Taskflow
