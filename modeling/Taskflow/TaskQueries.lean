import Taskflow.Scheduler

/-!
# Looking up a task

`getTaskStatus` and `getTaskInfo` of the dispatcher, and the RPCs `GetTaskStatus` of the scheduler and
`QueryTask` of the tracker (`src/scheduler.cpp`, `src/tracker.cpp`).  Both RPCs take an empty id for a task that
does not exist, and `getTask` sets the id before it looks for the record, so they find every task that anyone
asks for (`lookups_agree_iff`).
-/

namespace Taskflow

open Text Effects Prog

/-! ### The code -/

/-- `TaskInfo{}` -/
def noTaskInfo : TaskInfo := ⟨[], 0, 0, [], 0, 0, 0, 0, 0, [], []⟩

def getTaskRetryCount (taskId : Bytes) : Code Int32 := do
  let some redis ← getConnection | return 0
  let retryCount := (← redis.getTask taskId).retryCount
  returnConnection redis
  return retryCount

def getTaskStatus (taskId : Bytes) : Code Bytes := do
  let some redis ← getConnection | return bytes "unknown"
  let status ← redis.hget (taskKey taskId) (bytes "status")
  returnConnection redis
  if status.isEmpty then return bytes "not_found"
  let statusCode ← ofExcept (stoi 10 status)
  if statusCode = 0 then return bytes "pending"
  if statusCode = 1 then return bytes "running"
  if statusCode = 2 then return bytes "success"
  if statusCode = 3 then return bytes "failed"
  return bytes "unknown"

def getTaskInfo (taskId : Bytes) : Code TaskInfo := do
  let some redis ← getConnection | return noTaskInfo
  let info ← redis.getTask taskId
  returnConnection redis
  return info

/-- `TaskStatusReply` and `QueryTaskReply`; the message `Task` has the members of `TaskInfo`. -/
structure TaskReply where
  success : Bool
  message : Bytes
  task : Option TaskInfo

/-- How both RPCs fill the reply. -/
def taskReply (info : TaskInfo) : TaskReply :=
  if info.id.isEmpty then ⟨false, bytes "Task not found", none⟩ else ⟨true, bytes "Task found", some info⟩

def SchedulerServiceImpl.getTaskStatus (taskId : Bytes) : Code TaskReply := do
  let taskInfo ← getTaskInfo taskId
  return taskReply taskInfo

/-- The tracker has a connection of its own and does not start without it. -/
structure TrackerServiceImpl where
  redis : RedisClient
  connected : redis.connected = true

def TrackerServiceImpl.queryTask (tracker : TrackerServiceImpl) (taskId : Bytes) : Code TaskReply := do
  let task ← tracker.redis.getTask taskId
  return taskReply task

/-! ### Records that `submitTask` creates -/

/-- The hash `task:<id>` exists. -/
def HasRecord (w : Keyspace) (id : Bytes) : Prop := ∃ h, w[taskKey id]? = some (.hash h)

/-- A content in which `submitTask` has created the record of `id`; operations on any task may have followed. -/
inductive Created (id : Bytes) : Keyspace → Prop
  | submitTask {task : TaskRequest} {w w' : Keyspace} {τ : List (Event Effect Effect.Answer)} (hid : task.id = id)
      (hvalid : ValidId id) (hrun : Run answered (submitTask task) w τ (.ok true) w') : Created id w'
  | later {operation : Operation} {w w' : Keyspace} {τ : List (Event Effect Effect.Answer)}
      {o : Except StdException Unit} (h : Created id w)
        (hrun : Run answered operation.code w τ o w') : Created id w'

/-- What stays of such a record: its numbers can be read, and it has a status. -/
def Recorded (id : Bytes) (w : Keyspace) : Prop :=
  ∃ h, w[taskKey id]? = some (.hash h) ∧ Readable h ∧ (h[bytes "status"]?).isSome

/-! ### What the lookups answer -/

/-- The RPC ends with `success = true`. -/
def Found (o : Except StdException TaskReply) : Prop := ∃ reply, o = .ok reply ∧ reply.success = true

/-- The RPC reports `Task not found`. -/
def ReportsMissing (o : Except StdException TaskReply) : Prop :=
  ∃ reply, o = .ok reply ∧ reply.success = false ∧ reply.message = bytes "Task not found"

/-- Unless the dispatcher says `not_found`, the RPC finds the task, and the other way round. -/
def AgreesWithStatus (id : Bytes) (w : Keyspace) (o : Except StdException TaskReply) : Prop :=
  Post answered (getTaskStatus id) (fun status _ => Found o ↔ status ≠ .ok (bytes "not_found")) w

/-- All ways to look up a task agree on whether it exists, whatever the members that were never assigned hold. -/
structure LookupsAgree (w : Keyspace) (id : Bytes) : Prop where
  scheduler : Post answered (SchedulerServiceImpl.getTaskStatus id) (fun o _ => Found o ↔ HasRecord w id) w
  tracker : ∀ tracker : TrackerServiceImpl,
    Post answered (tracker.queryTask id) (fun o _ => Found o ↔ HasRecord w id) w
  status : Created id w →
    Post answered (SchedulerServiceImpl.getTaskStatus id) (fun o _ => AgreesWithStatus id w o) w ∧
      ∀ tracker : TrackerServiceImpl, Post answered (tracker.queryTask id) (fun o _ => AgreesWithStatus id w o) w
  missing : ¬ HasRecord w id →
    Post answered (SchedulerServiceImpl.getTaskStatus id) (fun o _ => ReportsMissing o) w ∧
      ∀ tracker : TrackerServiceImpl, Post answered (tracker.queryTask id) (fun o _ => ReportsMissing o) w

/-- The fields that `HGETALL` answers for a task. -/
def storedFields (w : Keyspace) (id : Bytes) : StringMap Bytes :=
  replyFields (some (exec (.hgetall (cStr (taskKey id))) w).1)

/-- What `getTask` returns where the members that were never assigned hold those of `stack`. -/
def readTask (stack : TaskInfo) (w : Keyspace) (id : Bytes) : Except StdException TaskInfo :=
  let task := { stack with id := id, data := [], errorMessage := [], result := [] }
  if (storedFields w id).isEmpty then .ok task else readFields task (storedFields w id)

section Lookups

variable {w w' : Keyspace} {id : Bytes} {redis : RedisClient} {α : Type} {Q : Except StdException α →
  Keyspace → Prop}

theorem post_answered_connection {f : Option RedisClient → Code α}
    (h : ∀ redis, redis.connected = true → Post answered (f (some redis)) Q w) :
    Post answered (getConnection >>= f) Q w := by
  intro r w' hs
  obtain ⟨rfl, redis, rfl, hc⟩ := hs
  exact h redis hc

theorem post_answered_hget (hc : redis.connected = true) (taskId : Bytes) {field : Bytes} (hf : 0 ∉ field) :
    Post answered (redis.hget (taskKey taskId) field)
      (fun o w' => w' = w ∧ o = .ok (recordText w (cStr taskId) field)) w := by
  rw [hget_eq hc, cStr_taskKey_eq, cStr_of_noNul hf]
  intro r w' hs
  obtain ⟨rfl, rfl⟩ := hs
  exact ⟨exec_reads rfl w, by rw [replyText_hget_record]⟩

theorem post_getTask (hc : redis.connected = true) (w : Keyspace) (id : Bytes) :
    Post answered (redis.getTask id) (fun o w' => w' = w ∧ ∃ stack, o = readTask stack w id) w := by
  rw [RedisClient.getTask, hgetall_eq hc]
  intro stack w₁ hstack
  cases (hstack : w₁ = w)
  intro r w₂ hs
  obtain ⟨rfl, rfl⟩ := hs
  rw [exec_hgetall]
  show Post answered (if (storedFields w id).isEmpty = true then _ else _) _ w
  by_cases hempty : (storedFields w id).isEmpty = true
  · rw [if_pos hempty]
    exact ⟨rfl, stack, by rw [readTask, if_pos hempty]⟩
  · rw [if_neg hempty]
    exact Post.ofExcept ⟨rfl, stack, by rw [readTask, if_neg hempty]; rfl⟩

/-- Both RPCs answer what `getTask` read. -/
theorem post_scheduler (w : Keyspace) (id : Bytes) : Post answered (SchedulerServiceImpl.getTaskStatus id)
    (fun o _ => ∃ stack, o = (readTask stack w id).map taskReply) w := by
  have hinfo : Post answered (getTaskInfo id) (fun o _ => ∃ stack, o = readTask stack w id) w := by
    refine post_answered_connection fun redis hc => (post_getTask hc w id).bind ?_ ?_
    · intro info w' ⟨_, hread⟩ r w'' _
      exact hread
    · intro x w' ⟨_, hread⟩
      exact hread
  refine hinfo.bind ?_ ?_
  · intro info w' ⟨stack, hread⟩
    exact ⟨stack, by rw [← hread]; rfl⟩
  · intro x w' ⟨stack, hread⟩
    exact ⟨stack, by rw [← hread]; rfl⟩

theorem post_tracker (tracker : TrackerServiceImpl) (w : Keyspace) (id : Bytes) :
    Post answered (tracker.queryTask id) (fun o _ => ∃ stack, o = (readTask stack w id).map taskReply) w := by
  refine (post_getTask tracker.connected w id).bind ?_ ?_
  · intro info w' ⟨_, stack, hread⟩
    exact ⟨stack, by rw [← hread]; rfl⟩
  · intro x w' ⟨_, stack, hread⟩
    exact ⟨stack, by rw [← hread]; rfl⟩

/-- The record is read with the id that was asked for, unless a number does not parse. -/
theorem readTask_ok {stack info : TaskInfo} (h : readTask stack w id = .ok info) :
    info.id = id ∧ NumbersParse (storedFields w id) := by
  unfold readTask at h
  by_cases hempty : (storedFields w id).isEmpty = true
  · rw [if_pos hempty] at h
    cases h
    refine ⟨rfl, ?_⟩
    intro f _ v hv
    rw [Std.ExtTreeMap.isEmpty_iff] at hempty
    rw [hempty] at hv
    simp at hv
  · rw [if_neg hempty] at h
    exact readFields_ok h

theorem readTask_of_parse (stack : TaskInfo) (h : NumbersParse (storedFields w id)) :
    ∃ info, readTask stack w id = .ok info ∧ info.id = id := by
  by_cases hempty : (storedFields w id).isEmpty = true
  · exact ⟨_, by rw [readTask, if_pos hempty], rfl⟩
  · obtain ⟨info, hinfo⟩ := h.readFields { stack with id := id, data := [], errorMessage := [], result := [] }
    exact ⟨info, by rw [readTask, if_neg hempty]; exact hinfo, readFields_id hinfo⟩

/-- A reply is about the id that was asked for, and all numbers of the record could be read. -/
theorem reply_of_readTask {stack : TaskInfo} {reply : TaskReply}
    (h : (readTask stack w id).map taskReply = .ok reply) :
    ∃ info, reply = taskReply info ∧ info.id = id ∧ NumbersParse (storedFields w id) := by
  cases hread : readTask stack w id with
  | error x =>
    rw [hread] at h
    cases h
  | ok info =>
    rw [hread] at h
    cases h
    exact ⟨info, rfl, readTask_ok hread⟩

theorem found_iff (stack : TaskInfo) (w : Keyspace) (id : Bytes) :
    Found ((readTask stack w id).map taskReply) ↔ id ≠ [] ∧ NumbersParse (storedFields w id) := by
  constructor
  · intro ⟨reply, hreply, hsuccess⟩
    obtain ⟨info, rfl, hid, hparse⟩ := reply_of_readTask hreply
    refine ⟨?_, hparse⟩
    intro hempty
    simp [taskReply, hid, hempty] at hsuccess
  · intro ⟨hne, hparse⟩
    obtain ⟨info, hread, hid⟩ := readTask_of_parse stack hparse
    refine ⟨taskReply info, by rw [hread]; rfl, ?_⟩
    simp [taskReply, hid, hne]

theorem reportsMissing_iff (stack : TaskInfo) (w : Keyspace) (id : Bytes) :
    ReportsMissing ((readTask stack w id).map taskReply) ↔ id = [] ∧ NumbersParse (storedFields w id) := by
  constructor
  · intro ⟨reply, hreply, hsuccess, _⟩
    obtain ⟨info, rfl, hid, hparse⟩ := reply_of_readTask hreply
    refine ⟨?_, hparse⟩
    by_contra hne
    simp [taskReply, hid, hne] at hsuccess
  · intro ⟨hempty, hparse⟩
    obtain ⟨info, hread, hid⟩ := readTask_of_parse stack hparse
    refine ⟨taskReply info, by rw [hread]; rfl, ?_⟩
    simp [taskReply, hid, hempty]

end Lookups

/-! ### Created records stay -/

section Created

variable {w w' : Keyspace} {id : Bytes}

/-- The stored record has the fields of `info`; there may be others. -/
def Saved (info : TaskInfo) (w : Keyspace) : Prop :=
  ∃ h : StringMap Bytes, w[taskKey info.id]? = some (.hash h) ∧
    ∀ field v : Bytes, (recordFields info)[field]? = some v → h[field]? = some v

theorem saved_hmset {info : TaskInfo}
    (h : (exec (.hmset (taskKey info.id) (recordFields info).toList) w).1.isError = false) :
    Saved info (exec (.hmset (taskKey info.id) (recordFields info).toList) w).2 := by
  have hstored (old : StringMap Bytes) (field v : Bytes) (hv : (recordFields info)[field]? = some v) :
      (storeFields old (recordFields info).toList)[field]? = some v := by
    rw [storeFields_getElem?, hv]
    rfl
  cases hw : w[taskKey info.id]? with
  | none =>
    refine ⟨_, ?_, hstored ∅⟩
    simp [exec, hw]
  | some v =>
    cases v with
    | hash old =>
      refine ⟨_, ?_, hstored old⟩
      simp [exec, hw]
    | string b => simp [exec, hw, Reply.isError] at h
    | list l => simp [exec, hw, Reply.isError] at h

theorem Saved.recorded {info : TaskInfo} (h : Saved info w) : Recorded info.id w := by
  obtain ⟨record, hrecord, hfields⟩ := h
  refine ⟨record, hrecord, ?_, ?_⟩
  · intro f hf v hv
    obtain ⟨n, hn⟩ := recordFields_number info hf
    rw [hfields f _ hn] at hv
    exact ⟨n, (Option.some.inj hv).symm⟩
  · obtain ⟨n, hn⟩ := recordFields_number info (f := bytes "status") (by decide)
    rw [hfields _ _ hn]
    rfl

theorem Saved.text {info : TaskInfo} (h : Saved info w) {field v : Bytes}
    (hv : (recordFields info)[field]? = some v) :
    recordText w info.id field = v := by
  obtain ⟨record, hrecord, hfields⟩ := h
  rw [recordText_of_hash hrecord, hfields field v hv]
  rfl

/-- A created record survives the commands of the dispatcher. -/
theorem Recorded.exec (h : Recorded id w) {cmd : Command} (ht : Tame cmd) : Recorded id (exec cmd w).2 := by
  obtain ⟨record, hrecord, hreadable, hstatus⟩ := h
  by_cases hkey : cmd.key = taskKey id
  · cases cmd with
    | hmset key fields =>
      obtain ⟨task, rfl, rfl⟩ := ht
      have hid : task.id = id := taskKey_injective hkey
      subst hid
      exact (saved_hmset (by simp [Taskflow.exec, hrecord, Reply.isError])).recorded
    | hset key field value =>
      obtain ⟨_, hnumber⟩ := ht
      simp only [Command.key] at hkey
      subst hkey
      refine ⟨record.insert field value, by rw [exec_hset hrecord]; simp, hreadable.insert hnumber, ?_⟩
      rw [getElem?_insert]
      split
      · rfl
      · exact hstatus
    | rpush key value => exact absurd hkey.symm (taskKey_ne_queue ht.1 id)
    | lpop key => exact absurd hkey.symm (taskKey_ne_queue ht id)
    | setex key n value => exact absurd hkey (ht.2 id)
    | incr key =>
      obtain ⟨v, rfl⟩ := ht
      exact absurd hkey (workerLoadKey_ne_taskKey v id)
    | incrby key n =>
      obtain ⟨v, rfl⟩ := ht
      exact absurd hkey (workerLoadKey_ne_taskKey v id)
    | get key => exact ⟨record, by rw [exec_reads rfl]; exact hrecord, hreadable, hstatus⟩
    | hget key field => exact ⟨record, by rw [exec_reads rfl]; exact hrecord, hreadable, hstatus⟩
    | hgetall key => exact ⟨record, by rw [exec_reads rfl]; exact hrecord, hreadable, hstatus⟩
    | llen key => exact ⟨record, by rw [exec_reads rfl]; exact hrecord, hreadable, hstatus⟩
  · exact ⟨record, by rw [exec_frame cmd w hkey]; exact hrecord, hreadable, hstatus⟩

section Serving

variable {S : Semantics Effect Effect.Answer Keyspace} (hS : Serves S)
include hS

theorem post_recorded {α : Type} {p : Code α} (hp : p.Every (Issues Tame)) (h : Recorded id w) :
    Post S p (fun _ w' => Recorded id w') w := by
  have hkeep := post_issues hS (K := fun w w' => Recorded id w → Recorded id w') (fun _ h => h)
    (fun h h' hr => h' (h hr)) (fun _ _ ht hr => hr.exec ht) hp w
  exact hkeep.mono fun _ _ hr => hr h

theorem post_saveTask (redis : RedisClient) (info : TaskInfo) (w : Keyspace) :
    Post S (redis.saveTask info) (fun o w' => o = .ok true → Saved info w') w := by
  cases hc : redis.connected with
  | false =>
    have hfails : redis.saveTask info = .ret false := by
      simp only [RedisClient.saveTask, RedisClient.hmset, hc]
      rfl
    rw [hfails]
    intro hfalse
    cases hfalse
  | true =>
    rw [RedisClient.saveTask, hmset_eq hc _ (recordFields_record info).isEmpty]
    intro r w' hs hsaved
    have hsucceeded := Except.ok.inj hsaved
    cases r with
    | none => cases hsucceeded
    | some reply =>
      simp only [succeeded, Bool.not_eq_true'] at hsucceeded
      obtain ⟨hreply, rfl⟩ := hS.executes hs ⟨reply, rfl, hsucceeded⟩
      rw [Option.some.inj hreply] at hsucceeded
      exact saved_hmset hsucceeded

/-- A submission that returns `true` has saved its record. -/
theorem post_submitTask (task : TaskRequest) (w : Keyspace) :
    Post S (submitTask task) (fun o w' => o = .ok true → ∃ info, SubmittedInfo task info ∧ Saved info w') w := by
  have hquiet : ∀ {e : Effect} {w r w'}, S e w r w' → (∀ context cmd, e ≠ .command context cmd) → w' = w := by
    intro e w r w' hs hne
    rcases hS.changes hs with he | ⟨context, cmd, he, -⟩
    · exact he
    · exact absurd he (hne context cmd)
  rw [submitTask, getConnection_bind]
  intro r w₁ hs
  obtain rfl := hquiet hs fun _ _ he => by cases he
  cases r with
  | none =>
    intro hfalse
    cases hfalse
  | some redis =>
    dsimp only
    rw [declareTaskInfo_bind]
    intro stack w₂ hstack
    obtain rfl := hquiet hstack fun _ _ he => by cases he
    refine Post.bind (post_saveTask hS redis _ _) ?_ ?_
    · intro saved w₃ hsaved
      cases saved with
      | false =>
        intro r w₄ _ hfalse
        cases hfalse
      | true =>
        -- what follows are commands on a queue
        have hrest : (do
            if (!(← redis.pushToPriorityQueue task.priority task.id)) = true then
              returnConnection redis
              return false
            returnConnection redis
            return true : Code Bool).Every (Issues fun cmd => cmd.key ∈ queueKeys) := by
          refine .bind (issues_of_local <| pushToPriorityQueue_local (queueOf_mem _)) fun pushed => ?_
          cases pushed with
          | false => exact ⟨trivial, fun _ => trivial⟩
          | true => exact ⟨trivial, fun _ => trivial⟩
        have hkeep := post_issues hS (K := fun w w' => ∀ j, w'[taskKey j]? = w[taskKey j]?) (fun _ _ => rfl)
          (fun h h' j => (h' j).trans (h j))
          (fun cmd w hq j => exec_frame cmd w (taskKey_ne_queue hq j).symm) hrest w₃
        refine hkeep.mono ?_
        intro _ w' hrecords _
        obtain ⟨record, hrecord, hfields⟩ := hsaved rfl
        exact ⟨_, ⟨rfl, rfl, rfl, rfl, rfl, rfl, rfl, rfl, rfl⟩, record, (hrecords _).trans hrecord, hfields⟩
    · intro x w₃ _ hfalse
      cases hfalse

end Serving

/-- A created record stays, with a status. -/
theorem Created.recorded (h : Created id w) : ValidId id ∧ Recorded id w := by
  induction h with
  | submitTask hid hvalid hrun =>
    obtain ⟨info, hinfo, hsaved⟩ := (post_submitTask answered_serves _ _).run hrun rfl
    have hrecorded := hsaved.recorded
    rw [hinfo.id, hid] at hrecorded
    exact ⟨hvalid, hrecorded⟩
  | later _ hrun ih =>
    exact ⟨ih.1, (post_recorded answered_serves (issues_mono (Operation.issues _) fun _ h => h.tame) ih.2).run hrun⟩

theorem Recorded.parse (hvalid : ValidId id) (h : Recorded id w) : NumbersParse (storedFields w id) := by
  obtain ⟨record, hrecord, hreadable, _⟩ := h
  rw [storedFields, cStr_taskKey hvalid.noNul, replyFields_hgetall hrecord]
  exact hreadable.parse

/-- The dispatcher finds the status of such a record. -/
theorem post_getTaskStatus (hvalid : ValidId id) (h : Recorded id w) :
    Post answered (getTaskStatus id) (fun status _ => status ≠ .ok (bytes "not_found")) w := by
  obtain ⟨record, hrecord, hreadable, hstatus⟩ := h
  obtain ⟨text, htext⟩ := Option.isSome_iff_exists.1 hstatus
  obtain ⟨n, rfl⟩ := hreadable _ (by decide) _ htext
  have hread : recordText w (cStr id) (bytes "status") = decimal n.toInt := by
    rw [cStr_of_noNul hvalid.noNul, recordText_of_hash hrecord, htext]
    rfl
  refine post_answered_connection fun redis hc => (post_answered_hget hc id (by decide)).bind ?_ ?_
  · intro status w₁ ⟨_, hok⟩ r w₂ _
    rw [hread] at hok
    cases hok
    have hne : (decimal n.toInt).isEmpty = false := by simp [decimal_ne_nil]
    simp only [hne, Bool.false_eq_true, if_false]
    cases stoi 10 (decimal n.toInt) with
    | error x =>
      intro hcontra
      cases hcontra
    | ok statusCode =>
      simp only [ofExcept_ok, ret_bind]
      have hname {name : Bytes} (hne : name ≠ bytes "not_found") :
          (Except.ok name : Except StdException Bytes) ≠ .ok (bytes "not_found") :=
        fun hcontra => hne (Except.ok.inj hcontra)
      split
      · exact hname (by decide)
      · split
        · exact hname (by decide)
        · split
          · exact hname (by decide)
          · split
            · exact hname (by decide)
            · exact hname (by decide)
  · intro x w₁ ⟨_, hcontra⟩
    cases hcontra

/-- For a created record both RPCs agree with the dispatcher's status. -/
theorem Created.agrees (h : Created id w) (stack : TaskInfo) :
    AgreesWithStatus id w ((readTask stack w id).map taskReply) := by
  obtain ⟨hvalid, hrecorded⟩ := h.recorded
  have hfound : Found ((readTask stack w id).map taskReply) :=
    (found_iff stack w id).2 ⟨hvalid.nonempty, hrecorded.parse hvalid⟩
  exact (post_getTaskStatus hvalid hrecorded).mono fun _ _ hne => iff_of_true hfound hne

end Created

/-! ### When the lookups agree -/

/-- Without a record there is nothing to read. -/
theorem parse_of_missing {w : Keyspace} {id : Bytes} (hid : 0 ∉ id) (h : ¬ HasRecord w id) :
    NumbersParse (storedFields w id) := by
  have hempty : storedFields w id = ∅ := by
    rw [storedFields, cStr_taskKey hid]
    cases hw : w[taskKey id]? with
    | none => simp [exec, hw, replyFields, pairElements]
    | some v =>
      cases v with
      | hash record => exact absurd ⟨record, hw⟩ h
      | string b => simp [exec, hw, replyFields]
      | list l => simp [exec, hw, replyFields]
  intro f _ v hv
  rw [hempty] at hv
  simp at hv

/-- All lookups agree, exactly for an existing record whose numbers can be read under an id that is not empty, and
for a missing record under the empty id: no other id is ever reported missing. -/
theorem lookups_agree_iff (w : Keyspace) (id : Bytes) :
    LookupsAgree w id ↔
      (HasRecord w id ∧ id ≠ [] ∧ NumbersParse (storedFields w id)) ∨ (¬ HasRecord w id ∧ id = []) := by
  constructor
  · intro h
    obtain ⟨τ, o, w', hrun⟩ := exists_run answered_total (SchedulerServiceImpl.getTaskStatus id) w
    obtain ⟨stack, rfl⟩ := (post_scheduler w id).run hrun
    by_cases hrecord : HasRecord w id
    · exact .inl ⟨hrecord, (found_iff stack w id).1 ((h.scheduler.run hrun).2 hrecord)⟩
    · have hmissing := (h.missing hrecord).1.run hrun
      exact .inr ⟨hrecord, ((reportsMissing_iff stack w id).1 hmissing).1⟩
  · intro hcase
    -- what the RPCs answer is known up to the members that were never assigned
    have hboth {P : Except StdException TaskReply → Prop} (hP : ∀ stack, P ((readTask stack w id).map taskReply)) :
        Post answered (SchedulerServiceImpl.getTaskStatus id) (fun o _ => P o) w ∧
          ∀ tracker : TrackerServiceImpl, Post answered (tracker.queryTask id) (fun o _ => P o) w := by
      constructor
      · refine (post_scheduler w id).mono ?_
        intro o _ ⟨stack, ho⟩
        exact ho ▸ hP stack
      · intro tracker
        refine (post_tracker tracker w id).mono ?_
        intro o _ ⟨stack, ho⟩
        exact ho ▸ hP stack
    have hfound : ∀ stack, Found ((readTask stack w id).map taskReply) ↔ HasRecord w id := by
      intro stack
      rw [found_iff]
      rcases hcase with ⟨hrecord, hread⟩ | ⟨hrecord, hempty⟩
      · exact iff_of_true hread hrecord
      · exact iff_of_false (fun hread => hread.1 hempty) hrecord
    refine ⟨(hboth hfound).1, (hboth hfound).2, fun hcreated => hboth hcreated.agrees, ?_⟩
    intro hrecord
    refine hboth fun stack => (reportsMissing_iff stack w id).2 ?_
    rcases hcase with ⟨hrecord', _⟩ | ⟨_, rfl⟩
    · exact absurd hrecord' hrecord
    · exact ⟨rfl, parse_of_missing (by simp) hrecord⟩

/-- In an empty Redis both RPCs find the task `1`. -/
theorem missing_task_found : ¬ HasRecord ∅ (bytes "1") ∧
    Post answered (SchedulerServiceImpl.getTaskStatus (bytes "1")) (fun o _ => Found o) ∅ ∧
    ∀ tracker : TrackerServiceImpl, Post answered (tracker.queryTask (bytes "1")) (fun o _ => Found o) ∅ := by
  have hmissing : ¬ HasRecord ∅ (bytes "1") := by
    intro ⟨record, hrecord⟩
    simp at hrecord
  have hfound : ∀ stack, Found ((readTask stack ∅ (bytes "1")).map taskReply) := by
    intro stack
    exact (found_iff stack ∅ (bytes "1")).2 ⟨by decide, parse_of_missing (by decide) hmissing⟩
  refine ⟨hmissing, (post_scheduler _ _).mono ?_, fun tracker => (post_tracker tracker _ _).mono ?_⟩
  · intro o _ ⟨stack, ho⟩
    exact ho ▸ hfound stack
  · intro o _ ⟨stack, ho⟩
    exact ho ▸ hfound stack

end Taskflow
