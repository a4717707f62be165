import Taskflow.GatewayCalls

/-!
# How far a thread has come with a task

A thread that submits a task gets an id, saves the record and pushes the id; a dispatch loop pops an id, reads its
record, and pushes the id back or writes into the record.  `Stage` says how far a thread is, as its own events tell,
and `Stage.Allows` which commands it may issue there.  Every service keeps to this, whatever it is answered
(`Service.obeys`); what the commands do to Redis does not matter here.
-/

namespace Taskflow

open Text Effects Prog

/-- `fields` is what was saved, `read` what `HGETALL` has answered since the id was popped.  A command without a
reply may have been executed or not: after `HMSET` the thread is `unsure` of its record and goes no further, a
thread has `pushed` its id when it has issued `RPUSH`, and one that has tried to push back an id, or to store
its worker, no longer holds it. -/
inductive Stage where
  | idle
  | issued (taskId : Bytes)
  | unsure (taskId : Bytes) (fields : List (Bytes × Bytes))
  | saved (taskId : Bytes) (fields : List (Bytes × Bytes))
  | pushed (taskId : Bytes) (fields : List (Bytes × Bytes))
  | holding (taskId : Bytes) (read : Option (StringMap Bytes))
  | assigned (taskId : Bytes)

namespace Stage

/-- The stage after a command and its reply. -/
def command : Stage → Command → Option Reply → Stage
  | .issued i, .hmset _ fields, reply => if succeeded reply then .saved i fields else .unsure i fields
  | .saved i fields, .rpush _ _, _ => .pushed i fields
  | .idle, .lpop _, reply => if replyText reply = [] then .idle else .holding (replyText reply) none
  | .holding _ _, .rpush _ _, _ => .idle
  | .holding i _, .hgetall _, reply => .holding i (some (replyFields reply))
  | .holding i read, .hset _ field _, _ => if field = bytes "worker_id" then .assigned i else .holding i read
  | stage, _, _ => stage

/-- The stage after an id was asked for. -/
def issue : Stage → Except Thrown Int64 → Stage
  | .idle, .ok id => .issued (decimal id.toInt)
  | stage, _ => stage

def observe (stage : Stage) : Event ServiceEffect ServiceEffect.Answer → Stage
  | ⟨.dispatcher (.command _ cmd), reply⟩ => stage.command cmd reply
  | ⟨.nextId, result⟩ => stage.issue result
  | _ => stage

/-- The queue that the priority in the fields chooses; any queue if there are no fields. -/
def Chosen (fields : StringMap Bytes) (queue : Bytes) : Prop :=
  queue ∈ queueKeys ∧ (fields.isEmpty = false → ∃ n, getInt fields "priority" = .ok n ∧
    queue = queueOf n.toInt32)

/-- What a dispatch loop may write into a record: a status, a worker, a start time. -/
def Writes (field value : Bytes) : Prop :=
  (field = bytes "status" ∧ value = bytes "1") ∨ field = bytes "worker_id" ∨
    field = bytes "started_at" ∧ ∃ n : Int64, value = decimal n.toInt

/-- The commands that a thread may issue; it saves only tasks that it wants. -/
def Allows (wants : TaskRequest → Prop) : Stage → Command → Prop
  | .issued i, .hmset key fields =>
    ∃ task info, wants task ∧ SubmittedInfo task info ∧ info.id = i ∧ key = taskKey i ∧
    fields = (recordFields info).toList
  | .saved i fields, .rpush queue x =>
    x = cStr i ∧ ∃ info, fields = (recordFields info).toList ∧ queue = queueOf info.priority
  | .idle, .lpop queue => queue ∈ queueKeys
  | .holding i read, .rpush queue x => x = cStr i ∧ ∃ fields, read = some fields ∧ Chosen fields queue
  | .holding i _, .hgetall key => key = taskKey (cStr i)
  | .holding i _, .hset key field value => key = taskKey (cStr i) ∧ Writes field value
  | .assigned i, .hset key field value =>
    key = taskKey (cStr i) ∧ field = bytes "started_at" ∧ ∃ n : Int64, value = decimal n.toInt
  | _, .setex key _ _ => key ∉ queueKeys ∧ ∀ i, key ≠ taskKey i
  | _, .incr key => ∃ v, key = workerLoadKey v
  | _, cmd => cmd.reads = true

def AllowsEffect (wants : TaskRequest → Prop) (stage : Stage) : ServiceEffect → Prop
  | .dispatcher (.command _ cmd) => stage.Allows wants cmd
  | .nextId => stage = .idle
  | _ => True

/-- The thread works on a task that it has popped. -/
def Works (i : Bytes) (stage : Stage) : Prop := (∃ read, stage = .holding i read) ∨ stage = .assigned i

end Stage

/-- The protocol of the stages. -/
def stages (wants : TaskRequest → Prop) : Protocol ServiceEffect ServiceEffect.Answer Stage :=
  ⟨Stage.AllowsEffect wants, Stage.observe⟩

/-- What the dispatcher's code sees of it. -/
abbrev taskStages (wants : TaskRequest → Prop) : Protocol Effect Effect.Answer Stage :=
  (stages wants).pull ServiceEffect.dispatcher fun _ answer => answer

section Obeying

variable {α β : Type} {wants : TaskRequest → Prop} {Q : α → Stage → Prop} {stage : Stage} {redis : RedisClient}
  {i : Bytes}

theorem obeys_dispatcher {p : Code α} (hp : p.Obeys (taskStages wants) Q stage) :
    (dispatcher p).Obeys (stages wants) Q stage :=
  hp.embed fun _ _ => rfl

/-! ### Effects that move no task -/

/-- The stages whose stage no reading changes. -/
def Stage.still : Stage → Bool
  | .holding _ _ => false
  | _ => true

theorem stays_of_reads {cmd : Command} (h : cmd.reads = true) (hs : stage.still = true ∨ ∀ key,
    cmd ≠ .hgetall key)
    (context : Nat) : (taskStages wants).Stays stage (.command context cmd) := by
  have hreads : stage.Allows wants cmd ∧ ∀ reply, stage.command cmd reply = stage := by
    cases cmd with
    | hgetall key =>
      cases stage with
      | holding i read =>
        rcases hs with hs | hs
        · cases hs
        · exact absurd rfl (hs key)
      | _ => exact ⟨rfl, fun _ => rfl⟩
    | get key => cases stage <;> exact ⟨rfl, fun _ => rfl⟩
    | hget key field => cases stage <;> exact ⟨rfl, fun _ => rfl⟩
    | llen key => cases stage <;> exact ⟨rfl, fun _ => rfl⟩
    | _ => cases h
  exact hreads

theorem stays_incr (v : Bytes) (context : Nat) :
    (taskStages wants).Stays stage (.command context (.incr (workerLoadKey v))) := by
  have hincr : stage.Allows wants (.incr (workerLoadKey v)) ∧
      ∀ reply, stage.command (.incr (workerLoadKey v)) reply = stage := by
    cases stage <;> exact ⟨⟨v, rfl⟩, fun _ => rfl⟩
  exact hincr

/-- Programs that issue only such commands. -/
theorem stays_of_commands {A : Command → Prop} {p : Code α} (hp : p.Every (Commands A))
    (hA : ∀ cmd context, A cmd → (taskStages wants).Stays stage (.command context cmd)) :
    p.Every ((taskStages wants).Stays stage) := by
  refine hp.mono ?_
  intro e he
  cases e with
  | command context cmd => exact hA cmd context he
  | _ => exact ⟨trivial, fun _ => rfl⟩

theorem obeys_connection {f : Option RedisClient → Code α}
    (h : ∀ conn, (f conn).Obeys (taskStages wants) Q stage) :
    (getConnection >>= f).Obeys (taskStages wants) Q stage :=
  ⟨trivial, h⟩

theorem obeys_return {a : α} (h : Q a stage) : (do returnConnection redis; return a :
    Code α).Obeys (taskStages wants) Q stage :=
  ⟨trivial, fun _ => h⟩

/-- A wrapper: no command on a client that is not connected, else one command. -/
theorem obeys_wrapper {b : Bool} {a : α} {cmd : Command} {context : Nat} {f : Option Reply → α}
    (hoff : b = true → Q a stage)
    (hon : b = false → stage.Allows wants cmd ∧ ∀ reply, Q (f reply) (stage.command cmd reply)) :
    (if b = true then ret a else call (.command context cmd) fun reply => ret (f reply) :
      Code α).Obeys (taskStages wants) Q
      stage := by
  cases b with
  | true => exact hoff rfl
  | false => exact hon rfl

/-! ### Submitting -/

theorem obeys_saveTask {task : TaskRequest} {info : TaskInfo} (hwants : wants task)
    (hinfo : SubmittedInfo task info) (hid : info.id = i) :
    (redis.saveTask info).Obeys (taskStages wants)
      (fun ok stage => ok = true → stage = .saved i (recordFields info).toList) (.issued i) := by
  refine obeys_wrapper (fun _ h => nomatch h) fun _ => ⟨⟨task, info, hwants, hinfo, hid, by rw [hid], rfl⟩, ?_⟩
  intro reply hok
  exact if_pos hok

theorem obeys_pushSubmitted {info : TaskInfo} :
    (redis.pushToPriorityQueue info.priority i).Obeys (taskStages wants)
      (fun ok stage => ok = true → stage = .pushed i (recordFields info).toList)
      (.saved i (recordFields info).toList) := by
  rw [RedisClient.pushToPriorityQueue, RedisClient.rpush, cStr_queue (queueOf_mem _)]
  refine obeys_wrapper (fun _ h => by cases h) fun _ => ⟨⟨rfl, info, rfl, rfl⟩, ?_⟩
  exact fun reply _ => rfl

/-- A submission that succeeds has saved a record of the task and pushed the id. -/
theorem obeys_submitTask {task : TaskRequest} (hwants : wants task) (hid : task.id = i) :
    (submitTask task).Obeys (taskStages wants)
      (fun ok stage => ok = true → ∃ fields, stage = .pushed i fields)
      (.issued i) := by
  refine obeys_connection fun conn => ?_
  cases conn with
  | none => exact fun h => nomatch h
  | some redis =>
    dsimp only
    rw [declareTaskInfo_bind]
    refine ⟨trivial, fun stack => ?_⟩
    have hinfo : SubmittedInfo task
        { stack with
          id := task.id, type := task.type, priority := task.priority, data := task.data,
          createdAt := task.createdAt, status := 0, retryCount := 0, errorMessage := [], result := [] } :=
      ⟨rfl, rfl, rfl, rfl, rfl, rfl, rfl, rfl, rfl⟩
    refine (obeys_saveTask hwants hinfo hid).bind fun saved t ht => ?_
    cases saved with
    | false => exact obeys_return fun h => nomatch h
    | true =>
      obtain rfl := ht rfl
      rw [hid]
      refine Obeys.bind obeys_pushSubmitted fun pushed u hu => ?_
      cases pushed with
      | false => exact obeys_return fun h => nomatch h
      | true =>
        obtain rfl := hu rfl
        exact obeys_return fun _ => ⟨_, rfl⟩

/-! ### Dispatching -/

/-- A pop that returns an id leaves the thread with it in hand. -/
def TookUp (x : Bytes) (stage : Stage) : Prop := x = [] ∧ stage = .idle ∨ x ≠ [] ∧ stage = .holding x none

theorem obeys_lpop {q : Bytes} (hq : q ∈ queueKeys) : (redis.lpop q).Obeys (taskStages wants) TookUp .idle := by
  rw [RedisClient.lpop, cStr_queue hq]
  refine obeys_wrapper (fun _ => Or.inl ⟨rfl, rfl⟩) fun _ => ⟨hq, fun reply => ?_⟩
  by_cases hreply : replyText reply = []
  · exact Or.inl ⟨hreply, if_pos hreply⟩
  · exact Or.inr ⟨hreply, if_neg hreply⟩

theorem obeys_popNextTask : popNextTask.Obeys (taskStages wants) TookUp .idle := by
  have hrest : ∀ {x : Bytes} {stage : Stage} {p : Code Bytes}, TookUp x stage →
    p.Obeys (taskStages wants) TookUp .idle →
      (if !x.isEmpty then ret x else p).Obeys (taskStages wants) TookUp stage := by
    rintro x stage p (⟨rfl, rfl⟩ | ⟨hx, rfl⟩) hp
    · exact hp
    · rw [if_pos (by simpa using hx)]
      exact Or.inr ⟨hx, rfl⟩
  refine obeys_connection fun conn => ?_
  cases conn with
  | none => exact Or.inl ⟨rfl, rfl⟩
  | some redis =>
    have hpop : redis.popFromPriorityQueue.Obeys (taskStages wants) TookUp .idle := by
      refine (obeys_lpop (by simp [queueKeys])).bind fun x t ht => hrest ht ?_
      refine (obeys_lpop (by simp [queueKeys])).bind fun x t ht => hrest ht ?_
      exact obeys_lpop (by simp [queueKeys])
    exact hpop.bind fun x t ht => obeys_return ht

/-- What the loop knows when it has read the record of its task: the priority is the one in the fields. -/
def ReadBack (redis : RedisClient) (i : Bytes) (task : TaskInfo) (stage : Stage) : Prop :=
  task.id = i ∧ ∃ read, stage = .holding i read ∧ (redis.connected = true → ∃ fields, read = some fields ∧
    (fields.isEmpty = false → ∃ n, getInt fields "priority" = .ok n ∧ task.priority = n.toInt32))

theorem readFields_priority {task t : TaskInfo} {h : StringMap Bytes} (ht : readFields task h = .ok t) :
    ∃ n, getInt h "priority" = .ok n ∧ t.priority = n.toInt32 := by
  unfold readFields at ht
  obtain ⟨type, -, ht⟩ := except_bind_ok ht
  obtain ⟨priority, hpriority, ht⟩ := except_bind_ok ht
  obtain ⟨created, -, ht⟩ := except_bind_ok ht
  obtain ⟨started, -, ht⟩ := except_bind_ok ht
  obtain ⟨finished, -, ht⟩ := except_bind_ok ht
  obtain ⟨status, -, ht⟩ := except_bind_ok ht
  obtain ⟨retry, -, ht⟩ := except_bind_ok ht
  cases ht
  exact ⟨priority, hpriority, rfl⟩

theorem obeys_getTask (read : Option (StringMap Bytes)) :
    (redis.getTask i).Obeys (taskStages wants) (ReadBack redis i) (.holding i read) := by
  have hfields : (redis.hgetall (taskKey i)).Obeys (taskStages wants)
      (fun fields stage => ∃ read, stage = .holding i read ∧ (redis.connected = true → read = some fields))
      (.holding i read) := by
    rw [RedisClient.hgetall]
    refine obeys_wrapper (fun hoff => ⟨read, rfl, fun hc => ?_⟩) fun _ =>
      ⟨cStr_taskKey_eq i, fun reply => ⟨_, rfl, fun _ => rfl⟩⟩
    rw [hc] at hoff
    cases hoff
  rw [RedisClient.getTask, declareTaskInfo_bind]
  refine ⟨trivial, fun stack => hfields.bind fun fields t ht => ?_⟩
  obtain ⟨read, rfl, hread⟩ := ht
  split
  · rename_i hempty
    refine ⟨rfl, read, rfl, fun hc => ⟨fields, hread hc, fun h => ?_⟩⟩
    rw [hempty] at h
    cases h
  · refine .ofExcept fun task htask => ⟨readFields_id htask, read, rfl, fun hc =>
      ⟨fields, hread hc, fun _ => ?_⟩⟩
    exact readFields_priority htask

/-- A field of the record is written; a worker assigns the task. -/
theorem obeys_write {field value : Bytes} (hf : 0 ∉ field) (hworks : stage.Works i)
    (hw : stage.Allows wants (.hset (taskKey (cStr i)) field (cStr value))) :
    (redis.hset (taskKey i) field value).Obeys (taskStages wants)
      (fun _ t => t = stage ∨ field = bytes "worker_id" ∧ t = .assigned i) stage := by
  rw [RedisClient.hset, cStr_taskKey_eq, cStr_of_noNul hf]
  refine obeys_wrapper (fun _ => Or.inl rfl) fun _ => ⟨hw, fun reply => ?_⟩
  rcases hworks with ⟨read, rfl⟩ | rfl
  · by_cases hassigned : field = bytes "worker_id"
    · exact Or.inr ⟨hassigned, if_pos hassigned⟩
    · exact Or.inl (if_neg hassigned)
  · exact Or.inl rfl

private theorem started_allowed (hworks : stage.Works i) (n : Int64) :
    stage.Allows wants (.hset (taskKey (cStr i)) (bytes "started_at") (cStr (decimal n.toInt))) := by
  rw [cStr_of_noNul (noNul_decimal _)]
  rcases hworks with ⟨read, rfl⟩ | rfl
  · exact ⟨rfl, Or.inr (Or.inr ⟨rfl, n, rfl⟩)⟩
  · exact ⟨rfl, rfl, n, rfl⟩

theorem obeys_assignTaskToWorker {workerId : Bytes} (read : Option (StringMap Bytes)) :
    (assignTaskToWorker i workerId).Obeys (taskStages wants) (fun _ stage => stage.Works i) (.holding i read) := by
  have hone : cStr (bytes "1") = bytes "1" := by decide
  refine obeys_connection fun conn => ?_
  cases conn with
  | none => exact Or.inl ⟨read, rfl⟩
  | some redis =>
    refine (obeys_getTask read).bind ?_
    rintro task stage ⟨-, read, rfl, -⟩
    split
    · exact obeys_return (Or.inl ⟨read, rfl⟩)
    refine ⟨trivial, fun now => ?_⟩
    have hstatus : (Stage.holding i read).Allows wants (.hset (taskKey (cStr i)) (bytes "status")
        (cStr (bytes "1"))) :=
      ⟨rfl, Or.inl ⟨rfl, hone⟩⟩
    refine (obeys_write (by decide) (Or.inl ⟨read, rfl⟩) hstatus).bind ?_
    rintro - stage (rfl | ⟨hfield, -⟩)
    · refine (obeys_write (by decide) (Or.inl ⟨read, rfl⟩) ⟨rfl, Or.inr (Or.inl rfl)⟩).bind ?_
      intro _ stage hstage
      have hworks : stage.Works i := by
        rcases hstage with rfl | ⟨-, rfl⟩
        · exact Or.inl ⟨read, rfl⟩
        · exact Or.inr rfl
      refine (obeys_write (by decide) hworks (started_allowed hworks now)).bind ?_
      rintro - stage' (rfl | ⟨hfield, -⟩)
      · refine .after (stays_of_commands (commands_of_only (incrementWorkerLoad_only (A := fun cmd =>
          ∃ v, cmd = .incr (workerLoadKey v))
          ⟨_, rfl⟩)) ?_) fun _ => ?_
        · rintro _ context ⟨v, rfl⟩
          exact stays_incr v context
        refine .after (stays_of_commands (commands_of_only (getWorkerLoad_only (A := fun cmd =>
          ∃ key, cmd = .get key)
          ⟨_, rfl⟩)) ?_) fun load => ⟨trivial, fun _ => obeys_return hworks⟩
        rintro _ context ⟨key, rfl⟩
        refine stays_of_reads rfl (Or.inr ?_) context
        rintro _ ⟨⟩
      · exact absurd hfield (by decide)
    · exact absurd hfield (by decide)

/-- A thread that is not submitting. -/
def Stage.free : Stage → Bool
  | .idle => true
  | .holding _ _ => true
  | .assigned _ => true
  | _ => false

theorem free_of_works (h : stage.Works i) : stage.free = true := by
  rcases h with ⟨read, rfl⟩ | rfl
  · rfl
  · rfl

/-- Pushing back the id, to the queue that the record names. -/
theorem obeys_requeue {task : TaskInfo} (h : ReadBack redis i task stage) :
    (redis.pushToPriorityQueue task.priority i).Obeys (taskStages wants)
    (fun _ stage => stage.free = true) stage := by
  obtain ⟨-, read, rfl, hread⟩ := h
  rw [RedisClient.pushToPriorityQueue, RedisClient.rpush, cStr_queue (queueOf_mem _)]
  refine obeys_wrapper (fun _ => rfl) fun hon => ?_
  obtain ⟨fields, rfl, hfields⟩ := hread (by simpa using hon)
  refine ⟨⟨rfl, fields, rfl, queueOf_mem _, fun hne => ?_⟩, fun reply => ?_⟩
  · obtain ⟨n, hn, hp⟩ := hfields hne
    exact ⟨n, hn, by rw [hp]⟩
  · exact rfl

theorem obeys_taskDispatchIteration :
    taskDispatchIteration.Obeys (taskStages wants) (fun _ stage => stage.free = true) .idle := by
  refine obeys_popNextTask.bind ?_
  rintro x stage (⟨rfl, rfl⟩ | ⟨hx, rfl⟩)
  · exact rfl
  · rw [if_neg (by simpa using hx)]
    refine .after (p := selectWorker x) ⟨⟨trivial, fun _ => rfl⟩, fun _ => trivial⟩ fun workerId => ?_
    split
    · refine obeys_connection fun conn => ?_
      cases conn with
      | none => exact rfl
      | some redis =>
        refine (obeys_getTask none).bind fun task stage hread => ?_
        split
        · exact (obeys_requeue hread).bind fun _ stage hfree => obeys_return hfree
        · obtain ⟨-, read, rfl, -⟩ := hread
          exact obeys_return rfl
    · exact (obeys_assignTaskToWorker none).bind fun _ stage hworks => free_of_works hworks

end Obeying

/-! ### Every service -/

/-- The requests that a service submits: a connection the one that its client has sent. -/
def Service.Submits : Service → SubmitTaskMessage → Prop
  | .submitTask request, message => message = request
  | .connection buffered later, message => ∃ request made, handleConnection buffered later = .ok request ∧
    Asks request (.submitTask made) ∧ message = made.message
  | _, _ => False

/-- The tasks that a service saves. -/
def Service.wants (service : Service) (task : TaskRequest) : Prop :=
  ∃ request, service.Submits request ∧ task.type = request.type ∧ task.priority = request.priority ∧
    task.data = request.data

/-- The reply says that a task was submitted, under this id. -/
def ServiceReply.Accepts : ServiceReply → Bytes → Prop
  | .submitted reply, taskId => reply.success = true ∧ reply.taskId = taskId
  | .response (some text), taskId => Confirms text taskId
  | _, _ => False

/-- What a service has done when it replies: a loop holds no submission, and an id that was accepted has been
pushed. -/
structure Service.Ends (service : Service) (reply : ServiceReply) (stage : Stage) : Prop where
  loop : service.again.isSome → stage.free = true
  accepted : ∀ request taskId, service.Submits request → reply.Accepts taskId → ∃ fields,
    stage = .pushed taskId fields

theorem ends_of_free {service : Service} {reply : ServiceReply} {stage : Stage}
    (hno : ∀ request, ¬ service.Submits request) (h : stage.free = true) : service.Ends reply stage :=
  ⟨fun _ => h, fun request _ hrequest => absurd hrequest (hno request)⟩

/-- The request is settled by the service. -/
theorem Service.Submits.unique {service : Service} {request request' : SubmitTaskMessage}
    (h : service.Submits request) (h' : service.Submits request') : request = request' := by
  cases service with
  | submitTask r => exact Eq.trans h (Eq.symm h')
  | connection buffered later =>
    obtain ⟨http, made, hhttp, hasks, rfl⟩ := h
    obtain ⟨http', made', hhttp', hasks', rfl⟩ := h'
    obtain rfl := Except.ok.inj (hhttp.symm.trans hhttp')
    cases hasks with
    | submitTask _ _ hmade =>
      cases hasks' with
      | submitTask _ _ hmade' => rw [Except.ok.inj (hmade.symm.trans hmade')]
  | _ => exact False.elim h

theorem Service.Submits.again {service : Service} {request : SubmitTaskMessage} (h : service.Submits request) :
    service.again = none := by
  cases service with
  | submitTask r => rfl
  | connection buffered later => rfl
  | _ => exact False.elim h

section Services

variable {α : Type} {wants : TaskRequest → Prop} {Q : α → Stage → Prop}

theorem obeys_nextId : nextId.Obeys (stages wants) (fun id stage => stage = .issued (decimal id.toInt)) .idle := by
  refine ⟨rfl, fun result => ?_⟩
  cases result with
  | error e => trivial
  | ok id => exact rfl

private theorem submitted_plain : PlainString (bytes "Task submitted successfully") := by decide

/-- What the scheduler replies when it has pushed an id. -/
def PushedReply (reply : SubmitTaskReply) (stage : Stage) : Prop :=
  reply.success = true →
    (∃ fields, stage = .pushed reply.taskId fields) ∧ PlainString reply.taskId ∧ PlainString reply.message

theorem obeys_schedulerSubmit {request : SubmitTaskMessage} (hwants : ∀ task : TaskRequest,
    task.type = request.type ∧ task.priority = request.priority ∧ task.data = request.data → wants task) :
    (SchedulerServiceImpl.submitTask request).Obeys (stages wants) PushedReply .idle := by
  refine obeys_nextId.bind ?_
  rintro id _ rfl
  refine .after (Every.embed ⟨⟨trivial, fun _ => rfl⟩, fun _ => trivial⟩) fun now => ?_
  let task : TaskRequest := ⟨decimal id.toInt, request.type, request.priority, request.data, now⟩
  refine Obeys.bind (p := dispatcher (submitTask task))
    (obeys_dispatcher (obeys_submitTask (hwants task ⟨rfl, rfl, rfl⟩) rfl)) ?_
  intro ok stage hok
  cases ok with
  | false => exact fun h => nomatch h
  | true => exact fun _ => ⟨hok rfl, plainString_decimal _, submitted_plain⟩

/-- A program of effects that move no task, in a service that submits nothing. -/
theorem obeys_idle {p : ServiceCode α} (hp : p.Every ((stages wants).Stays .idle)) :
    p.Obeys (stages wants) (fun _ stage => stage.free = true) .idle := by
  refine (Obeys.of_every hp).mono ?_
  rintro a t rfl
  rfl

theorem registry_stays {stage : Stage} (p : EtcdCode α) : (registry p).Every ((stages wants).Stays stage) := by
  refine Every.embed ?_
  induction p with
  | ret a => trivial
  | throw x => trivial
  | call e k ih => exact ⟨⟨trivial, fun _ => rfl⟩, ih⟩

/-- Code that only reads. -/
theorem reads_stay {p : Code α} (hp : p.Every (Commands fun cmd => cmd.reads = true)) :
    (dispatcher p).Every ((stages wants).Stays .idle) :=
  Every.embed (stays_of_commands hp fun _ context h => stays_of_reads h (Or.inl rfl) context)

theorem getTask_reads (redis : RedisClient) (taskId : Bytes) :
    (redis.getTask taskId).Every (Commands fun cmd => cmd.reads = true) := commands_of_only (getTask_only rfl)

theorem getTaskStatus_reads (taskId : Bytes) :
    (SchedulerServiceImpl.getTaskStatus taskId).Every (Commands fun cmd => cmd.reads = true) := by
  have hinfo : (getTaskInfo taskId).Every (Commands fun cmd => cmd.reads = true) := by
    refine .bind ⟨trivial, fun _ => trivial⟩ fun conn => ?_
    cases conn with
    | none => trivial
    | some redis => exact .bind (getTask_reads redis taskId) fun _ => ⟨trivial, fun _ => trivial⟩
  exact .bind hinfo fun _ => trivial

theorem queryTask_reads (tracker : TrackerServiceImpl) (taskId : Bytes) :
    (tracker.queryTask taskId).Every (Commands fun cmd => cmd.reads = true) := by
  unfold TrackerServiceImpl.queryTask
  exact .bind (getTask_reads tracker.redis taskId) fun _ => trivial

theorem llen_reads (redis : RedisClient) (key : Bytes) :
    (redis.llen key).Every (Commands fun cmd => cmd.reads = true) := by
  unfold RedisClient.llen
  split
  · trivial
  · exact ⟨rfl, fun _ => trivial⟩

theorem getStats_stays (stats : StatsServiceImpl) : stats.getStats.Every ((stages wants).Stays .idle) := by
  refine .bind (reads_stay (llen_reads _ _)) fun high => .bind (reads_stay (llen_reads _ _)) fun medium => ?_
  refine .bind (reads_stay (llen_reads _ _)) fun low => ?_
  refine .bind (Every.embed ⟨⟨trivial, fun _ => rfl⟩, fun _ => trivial⟩) fun now => ?_
  exact .bind (registry_stays _) fun workers => trivial

theorem markMissing_stays (now : Int64) (workers : List WorkerNode) :
    (markMissing now workers).Every ((stages wants).Stays .idle) := by
  induction workers with
  | nil => trivial
  | cons worker workers ih =>
    rw [markMissing]
    split
    · exact ⟨⟨trivial, fun _ => rfl⟩, fun _ => ih⟩
    · exact ih

theorem heartbeatKey_foreign (workerId : Bytes) :
    cStr (heartbeatKey workerId) ∉ queueKeys ∧ ∀ i, cStr (heartbeatKey workerId) ≠ taskKey i := by
  have hhead : (cStr (heartbeatKey workerId)).head? = some 119 := by
    rw [heartbeatKey, cStr_append (by decide)]
    rfl
  constructor
  · intro hq
    simp only [queueKeys, List.mem_cons, List.not_mem_nil, or_false] at hq
    rcases hq with he | he | he
    · rw [he] at hhead; exact absurd hhead (by decide)
    · rw [he] at hhead; exact absurd hhead (by decide)
    · rw [he] at hhead; exact absurd hhead (by decide)
  · intro i he
    have htask : (taskKey i).head? = some 116 := rfl
    rw [he, htask] at hhead
    exact absurd hhead (by decide)

theorem heartbeatIteration_stays (config : Config.WorkerConfig) (redis : RedisClient) :
    (dispatcher (heartbeatIteration config redis)).Every ((stages wants).Stays .idle) := by
  refine Every.embed ⟨⟨trivial, fun _ => rfl⟩, fun now => ?_⟩
  refine .bind (p := redis.setex _ _ _) (stays_of_commands (commands_of_only (setex_only (A := fun cmd =>
    ∃ seconds value, cmd = .setex (cStr (heartbeatKey (workerName config.id))) seconds value) ⟨_, _, rfl⟩)) ?_)
    fun _ => trivial
  rintro _ context ⟨seconds, value, rfl⟩
  exact ⟨heartbeatKey_foreign _, fun _ => rfl⟩

/-! ### The gateway -/

/-- Whatever the transport does: a reply that arrives is one of the handler. -/
theorem obeys_rpc {p : ServiceCode α} {stage : Stage} (hp : p.Obeys (stages wants) Q stage) :
    (rpc p).Obeys (stages wants) (fun result stage => ∀ reply, result = .ok reply → Q reply stage) stage := by
  refine ⟨trivial, fun lost => ?_⟩
  cases lost with
  | some message => exact fun _ h => by cases h
  | none =>
    refine hp.attempt (fun reply stage hreply => ⟨trivial, fun lost => ?_⟩) fun x stage => ?_
    · cases lost with
      | some message => exact fun _ h => by cases h
      | none =>
        rintro _ ⟨⟩
        exact hreply
    · exact fun _ h => by cases h

theorem obeys_serve {e : GatewayEffect} (hsubmit : ∀ made, e = .submitTask made → ∀ task : TaskRequest,
    task.type = made.message.type ∧ task.priority = made.message.priority ∧
    task.data = made.message.data → wants task) :
    e.serve.Obeys (stages wants) (fun answer stage => ∀ taskId, Confirms (responseText (e.response answer)) taskId →
      (∃ made, e = .submitTask made) → ∃ fields, stage = .pushed taskId fields) .idle := by
  cases e with
  | submitTask made =>
    refine (obeys_rpc (obeys_schedulerSubmit (hsubmit made rfl))).mono ?_
    rintro answer stage hreply taskId hconfirms -
    obtain ⟨reply, rfl, hsuccess, hid⟩ := confirms_submit hconfirms
    obtain ⟨hpushed, hplain, hmessage⟩ := hreply reply rfl hsuccess
    rwa [hid hplain hmessage] at hpushed
  | getTaskStatus taskId =>
    refine (obeys_rpc (obeys_idle (reads_stay (getTaskStatus_reads taskId)))).bind fun result stage _ => ?_
    rintro taskId - ⟨made, ⟨⟩⟩
  | getWorkers =>
    have hworkers : SchedulerServiceImpl.getWorkers.Obeys (stages wants) (fun _ _ => True) .idle :=
      ⟨trivial, fun _ => trivial⟩
    refine (obeys_rpc hworkers).bind fun result stage _ => ?_
    rintro taskId - ⟨made, ⟨⟩⟩

theorem obeys_connectionTo (buffered later : Bytes) :
    (Service.connection buffered later).code.Obeys (stages (Service.connection buffered later).wants)
      (Service.connection buffered later).Ends .idle := by
  rcases connection_cases buffered later with ⟨request, e, hrequest, hasks, hcode⟩ | ⟨hnone, text, hcode⟩
  · have hsubmits : ∀ {made}, e = .submitTask made → (Service.connection buffered later).Submits made.message :=
      fun he => ⟨request, _, hrequest, he ▸ hasks, rfl⟩
    refine Obeys.bind (p := Taskflow.connection buffered later)
      (Q := fun text stage => (Service.connection buffered later).Ends (.response text) stage) ?_ fun _ _ h => h
    rw [hcode]
    have htext : (e.serve >>= fun answer => ret (responseText (e.response answer))).Obeys
        (stages (Service.connection buffered later).wants) (fun text stage => ∀ taskId, Confirms text taskId →
          (∃ made, e = .submitTask made) → ∃ fields, stage = .pushed taskId fields) .idle := by
      refine (obeys_serve fun made he task htask => ?_).bind fun answer stage hanswer => hanswer
      exact ⟨made.message, hsubmits he, htask⟩
    refine htext.attempt (fun text stage htext => ?_) fun x stage => ?_
    · refine ⟨fun h => (by cases h), fun message taskId hmessage hconfirms => ?_⟩
      obtain ⟨request', made, hrequest', hmade, -⟩ := hmessage
      obtain rfl := Except.ok.inj (hrequest.symm.trans hrequest')
      exact htext taskId hconfirms ⟨made, hasks.unique hmade⟩
    · exact ⟨fun h => (by cases h), fun _ _ _ h => False.elim h⟩
  · rw [code_connection hcode]
    refine ends_of_free (fun message hmessage => ?_) rfl
    obtain ⟨request, made, hrequest, hmade, -⟩ := hmessage
    exact hnone request _ hrequest hmade

/-- Every service keeps to the protocol, whatever it is answered. -/
theorem Service.obeys (service : Service) : service.code.Obeys (stages service.wants) service.Ends .idle := by
  cases service with
  | submitTask request =>
    have hwants : ∀ task : TaskRequest, task.type = request.type ∧ task.priority = request.priority ∧
        task.data = request.data → (Service.submitTask request).wants task := fun task htask =>
          ⟨request, rfl, htask⟩
    refine (obeys_schedulerSubmit hwants).bind fun reply stage hreply => ⟨fun h => (by cases h), ?_⟩
    rintro _ taskId - ⟨hsuccess, rfl⟩
    exact (hreply hsuccess).1
  | getTaskStatus taskId =>
    exact (obeys_idle (reads_stay (getTaskStatus_reads taskId))).bind fun _ _ h => ends_of_free (fun _ => id) h
  | registerWorker workerId address port => exact ends_of_free (fun _ => id) rfl
  | getWorkers => exact ⟨trivial, fun _ => ends_of_free (fun _ => id) rfl⟩
  | heartbeat workerId currentLoad => exact ⟨trivial, fun _ => ends_of_free (fun _ => id) rfl⟩
  | taskDispatchLoop =>
    exact (obeys_dispatcher obeys_taskDispatchIteration).bind fun _ _ h => ends_of_free (fun _ => id) h
  | workerCheckLoop =>
    refine Obeys.bind (obeys_idle ?_) fun _ _ h => ends_of_free (fun _ => id) h
    exact ⟨⟨trivial, fun _ => rfl⟩, fun workers => ⟨⟨trivial, fun _ => rfl⟩, fun now =>
      markMissing_stays now workers⟩⟩
  | refreshLoop =>
    refine Obeys.bind (obeys_idle ?_) fun _ _ h => ends_of_free (fun _ => id) h
    exact .bind (registry_stays _) fun workers => ⟨⟨trivial, fun _ => rfl⟩, fun _ => trivial⟩
  | queryTask tracker taskId =>
    exact (obeys_idle (reads_stay (queryTask_reads tracker taskId))).bind fun _ _ h => ends_of_free (fun _ => id) h
  | getStats stats => exact (obeys_idle (getStats_stays stats)).bind fun _ _ h => ends_of_free (fun _ => id) h
  | heartbeatLoop config redis =>
    exact (obeys_idle (heartbeatIteration_stays config redis)).bind fun _ _ h => ends_of_free (fun _ => id) h
  | connection buffered later => exact obeys_connectionTo buffered later

end Services

end Taskflow
