import Taskflow.TaskLifecycle
import Taskflow.TaskRecords

/-!
# What holds among the services

Consequences of the invariant for any services at once: submissions do not meet (`submissions_apart`), a task gets a
worker at most once (`assigned_once`), what is stored and what waits is what was submitted (`records_truthful`), and
who asks for a task after its submission finds it (`lookups_find_submission`).
-/

namespace Taskflow

open Text Effects Prog

variable {ι : Type}

abbrev ServiceMoment (ι : Type) := Moment ι ServiceEffect ServiceEffect.Answer Deployment

/-- The thread has submitted the request, and its client knows under which id. -/
def Accepted (service : ι → Service) (P : ServicePool ι) (t : ι) (request : SubmitTaskMessage)
    (taskId : Bytes) : Prop :=
  (service t).Submits request ∧ ∃ reply, (P.thread t).prog = .ret reply ∧ reply.Accepts taskId

/-- The moment stores a worker in the record of the task. -/
def Assigns (taskId workerId : Bytes) (m : ServiceMoment ι) : Prop :=
  ∃ context reply, m.event = ⟨.dispatcher (.command context (.hset (taskKey taskId) (bytes "worker_id") workerId)),
    reply⟩ ∧ succeeded reply = true

/-- The record of the request's task: as it was saved, or with another status, a start time and a worker. -/
def RecordOf (request : SubmitTaskMessage) (taskId : Bytes) (h : StringMap Bytes) : Prop :=
  ∃ createdAt info, SubmittedInfo ⟨taskId, request.type, request.priority, request.data, createdAt⟩ info ∧
    Evolved True (recordFields info) h

/-! ### What the stages permit -/

section Stages

variable {wants : TaskRequest → Prop} {stage : Stage} {key : Bytes}

theorem issued_of_hmset {fields : List (Bytes × Bytes)} (h : stage.Allows wants (.hmset key fields)) :
    ∃ i, stage = .issued i ∧ key = taskKey i := by
  cases stage with
  | issued i =>
    obtain ⟨task, info, -, -, -, hkey, -⟩ := h
    exact ⟨i, rfl, hkey⟩
  | _ => cases h

theorem holding_of_worker {value : Bytes} (h : stage.Allows wants (.hset key (bytes "worker_id") value)) :
    ∃ i read, stage = .holding i read ∧ key = taskKey (cStr i) := by
  cases stage with
  | holding i read => exact ⟨i, read, rfl, h.1⟩
  | assigned i => exact absurd h.2.1 (by decide)
  | _ => cases h

end Stages

/-- Where a worker is stored, none was stored before. -/
theorem LifeInv.assigns {wants : ι → TaskRequest → Prop} {written faulty : Prop} {w w' : Deployment}
    {n : ι → Stage} {t : ι}
    {i v : Bytes} {context : Nat} {reply : Option Reply} (h : LifeInv wants written faulty w n)
    (hallows : (n t).Allows (wants t) (.hset (taskKey i) (bytes "worker_id") v))
    (hs : attempted faulty (.command context (.hset (taskKey i) (bytes "worker_id") v)) w.redis reply w'.redis)
    (hok : succeeded reply = true) : storedWorker w.redis i = none ∧ storedWorker w'.redis i = some v := by
  obtain ⟨j, read, hn, hkey⟩ := holding_of_worker hallows
  have hheld : (n t).held = some j := by rw [hn]; rfl
  have hpushed : Pushed n j := h.known.popped t j (Stage.popped_of_held hheld)
  rw [cStr_of_noNul (h.noNul hpushed).noNul] at hkey
  obtain rfl := taskKey_injective hkey
  obtain ⟨f, hf, -⟩ := h.record hpushed
  constructor
  · by_contra hne
    exact ((h.once i).unassigned (Option.isSome_iff_ne_none.2 hne)).2 t hheld
  · rcases hs with ⟨-, hw⟩ | ⟨-, ⟨-, hr⟩ | ⟨rfl, -⟩⟩
    · rw [exec_hset hf] at hw
      simp [storedWorker, hw]
    · rw [succeeded_of_failed hr] at hok
      cases hok
    · cases hok

/-! ### Reading a record -/

/-- The RPC looks up the task. -/
def Service.LooksUp (service : Service) (taskId : Bytes) : Prop :=
  service = .getTaskStatus taskId ∨ ∃ tracker, service = .queryTask tracker taskId

/-- The task that a reply shows is the one that the request submitted. -/
structure Shows (request : SubmitTaskMessage) (taskId : Bytes) (task : TaskInfo) : Prop where
  id : task.id = taskId
  type : task.type = request.type
  priority : task.priority = request.priority
  data : task.data = request.data
  status : task.status = 0 ∨ task.status = 1
  retryCount : task.retryCount = 0
  errorMessage : task.errorMessage = []
  result : task.result = []

/-- What `getTask` makes of fields in `C` is a task in `T`; without fields it is the one that was declared. -/
structure ReadAs (C : StringMap Bytes → Prop) (taskId : Bytes) (T : TaskInfo → Prop) : Prop where
  id : ∀ task, T task → task.id = taskId
  read : ∀ task h, task.id = taskId → C h → ∃ t,
    (if h.isEmpty then .ok task else readFields task h) = .ok t ∧ T t

/-- `HGETALL` of a record that a loop has written to is read as the saved task with another status and start
time. -/
theorem readFields_evolved {info : TaskInfo} {h : StringMap Bytes} (hevolved : Evolved True (recordFields info) h) :
    h.isEmpty = false ∧ ∃ (status : Int32) (startedAt : Int64), (status = 0 ∨ status = 1) ∧
      (h[bytes "status"]? = some (bytes "1") ↔ status = 1) ∧
      ∀ task, readFields task h = .ok { info with id := task.id, status := status, startedAt := startedAt } := by
  obtain ⟨startedAt, hstarted⟩ := hevolved.started
  have hstatus : ∃ status : Int32, (status = 0 ∨ status = 1) ∧
      (h[bytes "status"]? = some (bytes "1") ↔ status = 1) ∧ h[bytes "status"]? = some (decimal status.toInt) := by
    have hzero : decimal (0 : Int32).toInt = bytes "0" := by decide
    have hone : decimal (1 : Int32).toInt = bytes "1" := by decide
    rcases hevolved.status with hs | hs
    · exact ⟨0, Or.inl rfl, by rw [hs]; decide, by rw [hzero]; exact hs⟩
    · exact ⟨1, Or.inr rfl, by rw [hs]; decide, by rw [hone]; exact hs⟩
  obtain ⟨status, hvalue, hrunning, hstatus⟩ := hstatus
  let info' := { info with status := status, startedAt := startedAt }
  refine ⟨isEmpty_eq_false_of_getElem? hstarted, status, startedAt, hvalue, hrunning,
    fun task => @readFields_saved info' h ?_ task⟩
  intro field v hv
  have hentry := mem_recordEntries hv
  have hkept : ∀ {field v : Bytes}, field ≠ bytes "status" → field ≠ bytes "worker_id" →
      field ≠ bytes "started_at" → (field, v) ∈ recordEntries info → h[field]? = some v := by
    intro field v hs hw ht hmem
    rw [hevolved.kept field hs hw ht]
    exact recordFields_of_mem hmem
  simp only [recordEntries, List.mem_cons, List.not_mem_nil, or_false, Prod.mk.injEq] at hentry
  rcases hentry with ⟨rfl, rfl⟩ | ⟨rfl, rfl⟩ | ⟨rfl, rfl⟩ | ⟨rfl, rfl⟩ | ⟨rfl, rfl⟩ |
    ⟨rfl, rfl⟩ | ⟨rfl, rfl⟩ | ⟨rfl, rfl⟩ | ⟨rfl, rfl⟩ | ⟨rfl, rfl⟩
  · exact hkept (by decide) (by decide) (by decide) (by simp [recordEntries, info'])
  · exact hkept (by decide) (by decide) (by decide) (by simp [recordEntries, info'])
  · exact hkept (by decide) (by decide) (by decide) (by simp [recordEntries, info'])
  · exact hkept (by decide) (by decide) (by decide) (by simp [recordEntries, info'])
  · exact hstarted
  · exact hkept (by decide) (by decide) (by decide) (by simp [recordEntries, info'])
  · exact hstatus
  · exact hkept (by decide) (by decide) (by decide) (by simp [recordEntries, info'])
  · exact hkept (by decide) (by decide) (by decide) (by simp [recordEntries, info'])
  · exact hkept (by decide) (by decide) (by decide) (by simp [recordEntries, info'])

/-- Such a record is never empty, and every lookup shows the task. -/
theorem RecordOf.readAs (request : SubmitTaskMessage) (taskId : Bytes) :
    ReadAs (RecordOf request taskId) taskId (Shows request taskId) := by
  refine ⟨fun _ hshows => hshows.id, ?_⟩
  rintro task h hid ⟨createdAt, info, hinfo, hevolved⟩
  obtain ⟨hempty, status, startedAt, hstatus, -, hread⟩ := readFields_evolved hevolved
  rw [hempty, if_neg Bool.false_ne_true]
  exact ⟨_, hread task, hid, hinfo.type, hinfo.priority, hinfo.data, hstatus, hinfo.retryCount, hinfo.errorMessage,
    hinfo.result⟩

/-! ### Lookups -/

section Lookups

variable {A : (e : Effect) → e.Answer → Prop} {F : Effect → Prop} {redis : RedisClient} {taskId : Bytes}
  {Q : Except StdException TaskInfo → Prop}

/-- `getTask`, where `HGETALL` gives fields in `C`. -/
theorem given_getTask {C : StringMap Bytes → Prop} (hdeclare : F .indeterminate)
    (hfields : (redis.hgetall (taskKey taskId)).Given A F fun o => ∃ h, o = .ok h ∧ C h)
    (hread : ∀ (task : TaskInfo) h, task.id = taskId → C h →
      Q (if h.isEmpty then .ok task else readFields task h)) :
    (redis.getTask taskId).Given A F Q := by
  rw [RedisClient.getTask, declareTaskInfo_bind]
  refine ⟨hdeclare, fun stack _ => hfields.bind ?_ ?_⟩
  · rintro h ⟨_, ⟨⟩, hC⟩
    have htask := hread { stack with id := taskId, data := [], errorMessage := [], result := [] } h rfl hC
    split
    · rename_i hempty
      rwa [if_pos hempty] at htask
    · rename_i hempty
      rw [if_neg hempty] at htask
      exact .ofExcept htask
  · rintro x ⟨_, ⟨⟩, -⟩

/-- `HGETALL` on a connection. -/
theorem given_hgetall {C : StringMap Bytes → Prop} (hc : redis.connected = true)
    (hcommand : ∀ context, F (.command context (.hgetall (taskKey (cStr taskId)))) ∧
      ∀ reply, A (.command context (.hgetall (taskKey (cStr taskId)))) reply → C (replyFields reply)) :
    (redis.hgetall (taskKey taskId)).Given A F fun o => ∃ h, o = .ok h ∧ C h := by
  rw [hgetall_eq hc, cStr_taskKey_eq]
  exact ⟨(hcommand _).1, fun reply hreply => ⟨_, rfl, (hcommand _).2 reply hreply⟩⟩

end Lookups

/-- What effects answer while the record of the task is in `C`. -/
def recordAnswers (C : StringMap Bytes → Prop) (taskId : Bytes) : (e : ServiceEffect) → e.Answer → Prop
  | .dispatcher .getConnection, r => ∃ redis : RedisClient, r = some redis ∧ redis.connected = true
  | .dispatcher (.command _ (.hgetall key)), r => key = taskKey taskId → C (replyFields r)
  | _, _ => True

/-- The reply is about a task in `T`. -/
def FindsTask (T : TaskInfo → Prop) (o : Except StdException TaskReply) : Prop := ∃ task, T task ∧
    o = .ok (taskReply task)

theorem taskReply_found {taskId : Bytes} (hvalid : ValidId taskId) {task : TaskInfo} (hid : task.id = taskId) :
    taskReply task = ⟨true, bytes "Task found", some task⟩ := by
  rw [taskReply, if_neg]
  rw [hid]
  simpa using hvalid.nonempty

section Found

variable {C : StringMap Bytes → Prop} {taskId : Bytes} {T : TaskInfo → Prop} (hread : ReadAs C taskId T)
include hread

theorem given_recordRead {redis : RedisClient} (hc : redis.connected = true) :
    (redis.getTask taskId).Given (fun e r => recordAnswers C (cStr taskId) (.dispatcher e) r) (fun _ => True)
      fun o => ∃ task, o = .ok task ∧ T task := by
  refine given_getTask (C := C) trivial (given_hgetall hc fun context => ⟨trivial, ?_⟩) ?_
  · exact fun reply hreply => hreply rfl
  · intro task h hid hC
    obtain ⟨t, ht, hT⟩ := hread.read task h hid hC
    exact ⟨t, ht, hT⟩

theorem given_getTaskStatus : (SchedulerServiceImpl.getTaskStatus taskId).Given
    (fun e r => recordAnswers C (cStr taskId) (.dispatcher e) r) (fun _ => True) (FindsTask T) := by
  refine Given.bind (Q := fun o => ∃ task, o = .ok task ∧ T task) ?_ ?_ ?_
  · refine ⟨trivial, ?_⟩
    rintro _ ⟨redis, rfl, hc⟩
    refine (given_recordRead hread hc).bind ?_ ?_
    · rintro task ⟨_, ⟨⟩, hT⟩
      exact ⟨trivial, fun _ _ => ⟨task, rfl, hT⟩⟩
    · rintro x ⟨_, ⟨⟩, -⟩
  · rintro task ⟨_, ⟨⟩, hT⟩
    exact ⟨task, hT, rfl⟩
  · rintro x ⟨_, ⟨⟩, -⟩

theorem given_queryTask (tracker : TrackerServiceImpl) : (tracker.queryTask taskId).Given
    (fun e r => recordAnswers C (cStr taskId) (.dispatcher e) r) (fun _ => True) (FindsTask T) := by
  refine (given_recordRead hread tracker.connected).bind ?_ ?_
  · rintro task ⟨_, ⟨⟩, hT⟩
    exact ⟨task, hT, rfl⟩
  · rintro x ⟨_, ⟨⟩, -⟩

omit hread in
/-- Code of the dispatcher, among the other effects. -/
theorem given_dispatcher {i : Bytes} {p : Code TaskReply} {Q : Except StdException TaskReply → Prop}
    (hp : p.Given (fun e r => recordAnswers C i (.dispatcher e) r) (fun _ => True) Q) :
    (dispatcher p).Given (recordAnswers C i) (fun _ => True) Q :=
  hp.embed (fun _ _ => trivial) fun _ _ hr => hr

/-- A lookup that gets such answers replies with such a task. -/
theorem given_lookup {service : Service} (h : service.LooksUp taskId) :
    service.code.Given (recordAnswers C (cStr taskId)) (fun _ => True) fun o =>
      ∃ task, T task ∧ o = .ok (.task (taskReply task)) := by
  have hreply : ∀ {p : Code TaskReply},
      p.Given (fun e r => recordAnswers C (cStr taskId) (.dispatcher e) r) (fun _ => True) (FindsTask T) →
      (do return ServiceReply.task (← dispatcher p) :
        ServiceCode ServiceReply).Given (recordAnswers C (cStr taskId))
        (fun _ => True) fun o => ∃ task, T task ∧ o = .ok (.task (taskReply task)) := by
    intro p hp
    refine Given.bind (given_dispatcher hp) ?_ ?_
    · rintro reply ⟨task, hT, ⟨⟩⟩
      exact ⟨task, hT, rfl⟩
    · rintro x ⟨task, -, ⟨⟩⟩
  rcases h with rfl | ⟨tracker, rfl⟩
  · exact hreply (given_getTaskStatus hread)
  · exact hreply (given_queryTask hread tracker)

end Found

/-! ### Played runs -/

/-- An environment in which nothing fails: the generator's clock shows `clock`, the other one 0, and etcd stores
`pairs`, all of them services. -/
def answerServices (sort : StdSort) (clock : Int64) (pairs : List (Bytes × Bytes)) :
    (e : ServiceEffect) → Deployment → Option (e.Answer × Deployment)
  | .dispatcher (.selectWorker taskId), w =>
    some ((w.balancer.selectWorker sort taskId 0).1,
      { w with balancer := (w.balancer.selectWorker sort taskId 0).2 })
  | .dispatcher (.updateWorkerLoad workerId load), w =>
    some ((), { w with balancer := w.balancer.updateWorkerLoad workerId load })
  | .dispatcher (.recordSuccess _), _ => none
  | .dispatcher (.recordFailure _), _ => none
  | .dispatcher e, w =>
    (answer (fun _ => false) [] e w.redis).map fun reply => (reply.1, { w with redis := reply.2 })
  | .nextId, w => (w.generator.nextId [clock]).map fun issued => (issued.1, { w with generator := issued.2.1 })
  | .etcd (.range key rangeEnd), w => some (some (pairs.filter fun pair => rangeEnd.isSome || pair.1 = key), w)
  | .etcd .indeterminate, w => some (0, w)
  | .etcd _, _ => none
  | .updateWorkers workers, w =>
    some ((), { w with balancer := w.balancer.updateWorkers (workers.map fun worker => (worker, 0)) 0 })
  | .getWorkers, w => some (w.balancer.getWorkers, w)
  | .markWorkerDead workerId, w => some ((), { w with balancer := w.balancer.markWorkerDead workerId })
  | .transport, w => some (none, w)

theorem answerServices_deployed {faulty : Prop} {discovers : (e : EtcdEffect) → e.Answer → Prop} {sort : StdSort}
    {clock : Int64} {pairs : List (Bytes × Bytes)} (hclock : Snowflake.InEpoch clock)
    (hrange : ∀ key rangeEnd, discovers (.range key rangeEnd)
      (some (pairs.filter fun pair => rangeEnd.isSome || pair.1 = key))) (hport :
      discovers .indeterminate (0 : Int32)) :
    ∀ e w r w', answerServices sort clock pairs e w = some (r, w') → deployed faulty discovers sort e w r w' := by
  have hredis : ∀ {e : Effect} {w w' : Deployment} {r : e.Answer},
      (answer (fun _ => false) [] e w.redis).map (fun reply =>
        (reply.1, { w with redis := reply.2 })) = some (r, w') →
      answered e w.redis r w'.redis ∧ w'.balancer = w.balancer ∧ w'.generator = w.generator := by
    intro e w w' r h
    obtain ⟨⟨r', redis⟩, hanswer, heq⟩ := Option.map_eq_some_iff.1 h
    cases heq
    exact ⟨answered_of_served (answer_fault_free _ _ _ _ hanswer), rfl, rfl⟩
  intro e w r w' h
  cases e with
  | dispatcher e =>
    cases e with
    | selectWorker taskId =>
      cases h
      exact ⟨rfl, ⟨0, rfl⟩, rfl⟩
    | updateWorkerLoad workerId load =>
      cases h
      exact ⟨rfl, rfl, rfl⟩
    | recordSuccess workerId => cases h
    | recordFailure workerId => cases h
    | getConnection =>
      obtain ⟨⟨hw, redis, rfl, hc⟩, hbalancer, hgenerator⟩ := hredis (e := .getConnection) (w := w) h
      refine ⟨⟨hw, ?_, fun hr => by cases hr⟩, hbalancer, hgenerator⟩
      rintro conn ⟨⟩
      exact hc
    | command context cmd =>
      obtain ⟨hanswered, hbalancer, hgenerator⟩ := hredis (e := .command context cmd) (w := w) h
      exact ⟨Or.inl hanswered, hbalancer, hgenerator⟩
    | returnConnection redis => exact hredis (e := .returnConnection redis) (w := w) h
    | systemClock => exact hredis (e := .systemClock) (w := w) h
    | indeterminate => exact hredis (e := .indeterminate) (w := w) h
  | nextId =>
    obtain ⟨⟨result, generator, rest⟩, hnext, heq⟩ := Option.map_eq_some_iff.1 h
    cases heq
    refine ⟨generator, [clock], rest, fun t ht => ?_, hnext, rfl⟩
    rw [List.mem_singleton.1 ht]
    exact hclock
  | etcd e =>
    cases e with
    | range key rangeEnd =>
      cases h
      exact ⟨rfl, hrange key rangeEnd⟩
    | indeterminate =>
      cases h
      exact ⟨rfl, hport⟩
    | _ => cases h
  | updateWorkers workers =>
    cases h
    exact ⟨_, 0, by rw [List.map_map]; exact List.map_id _, rfl⟩
  | getWorkers =>
    cases h
    exact ⟨rfl, rfl⟩
  | markWorkerDead workerId =>
    cases h
    rfl
  | transport =>
    cases h
    rfl

/-- Two submissions, a refresh of the worker table, a dispatch loop, a lookup of the first task, and two
connections to the gateway, for a submission and a lookup. -/
def someServices : Fin 7 → Service
  | 0 => .submitTask ⟨1, 2, bytes "data"⟩
  | 1 => .submitTask ⟨1, 0, bytes "other"⟩
  | 2 => .refreshLoop
  | 3 => .taskDispatchLoop
  | 4 => .getTaskStatus (bytes "4198400")
  | 5 => .connection (bytes "POST /task HTTP/1.1\r\nContent-Length: 14\r\n\r\n\x7b\"priority\":1\x7d") []
  | 6 => .connection (bytes "GET /task?id=4198400 HTTP/1.1\r\n\r\n") []

def startSome : ServicePool (Fin 7) := startServices (bytes "round_robin") someServices

/-- What these do in the order of the schedule, from pool `P` on. -/
def playServices (clock : Int64) (pairs : List (Bytes × Bytes)) (schedule : List (Fin 7))
    (P : ServicePool (Fin 7)) :
    Option (List (ServiceMoment (Fin 7)) × ServicePool (Fin 7)) :=
  P.play (services True (fun _ _ => True) .stable someServices) (fun _ _ _ _ => true)
    (answerServices .stable clock pairs)
    schedule

theorem execution_of_play {faulty : Prop} {discovers : (e : EtcdEffect) → e.Answer → Prop} {clock : Int64}
    {pairs : List (Bytes × Bytes)} {schedule : List (Fin 7)} {P₀ P : ServicePool (Fin 7)}
    {τ : List (ServiceMoment (Fin 7))} {run : List (ServiceMoment (Fin 7)) × ServicePool (Fin 7)}
    (hclock : Snowflake.InEpoch clock) (hrange : ∀ key rangeEnd, discovers (.range key rangeEnd)
      (some (pairs.filter fun pair => rangeEnd.isSome || pair.1 = key))) (hport :
      discovers .indeterminate (0 : Int32))
    (hτ : Execution (services faulty discovers .stable someServices) P₀ τ P)
    (h : playServices clock pairs schedule P = some run) :
    Execution (services faulty discovers .stable someServices) P₀ (τ ++ run.1) run.2 := by
  have hsame : P.play (services faulty discovers .stable someServices) (fun _ _ _ _ => true)
      (answerServices .stable clock pairs) schedule = some run := by
    rw [← h, playServices]
    refine play_congr ?_ schedule P
    rfl
  exact hτ.play (answerServices_deployed hclock hrange hport) hsame

/-- The id that a submission has replied. -/
def acceptedId : ServiceCode ServiceReply → Option Bytes
  | .ret (.submitted reply) => if reply.success then some reply.taskId else none
  | _ => none

theorem accepted_of_id {service : ι → Service} {P : ServicePool ι} {t : ι} {i : Bytes}
    {request : SubmitTaskMessage}
    (hrequest : (service t).Submits request) (h : acceptedId (P.thread t).prog = some i) :
    Accepted service P t request i := by
  unfold acceptedId at h
  split at h
  · rename_i reply hprog
    split at h
    · rename_i hok
      exact ⟨hrequest, _, hprog, hok, Option.some.inj h⟩
    · cases h
  · cases h

/-- The reply of a lookup. -/
def shownTask : ServiceCode ServiceReply → Option TaskReply
  | .ret (.task reply) => some reply
  | _ => none

def thrown : ServiceCode ServiceReply → Option StdException
  | .throw x => some x
  | _ => none

/-- What etcd stores for the worker `w`. -/
def workerPairs : List (Bytes × Bytes) := [(bytes "/services/worker/w", bytes "\x7b\"port\":1\x7d")]

/-- The first thread submits, and then the second. -/
def bothSubmitted : List (Fin 7) := List.replicate 7 0 ++ List.replicate 7 1

/-- After the refresh of the worker table an iteration gives the first task its worker. -/
def assignedByLoop : List (Fin 7) := bothSubmitted ++ List.replicate 4 2 ++ List.replicate 14 3

/-- The first thread submits, no worker is found, and the task is pushed back. -/
def pushedBack : List (Fin 7) := List.replicate 7 0 ++ List.replicate 2 2 ++ List.replicate 9 3

/-- What these schedules lead to, and what a lookup after a submission and a submission at an earlier time lead
to. -/
theorem some_runs :
    ((playServices 1609459200001 [] bothSubmitted startSome).map fun run => (acceptedId (run.2.thread 0).prog,
      acceptedId (run.2.thread 1).prog, (run.2.world.redis[taskKey (bytes "4198400")]?).isSome)) =
        some (some (bytes "4198400"), some (bytes "4198401"), true) ∧
    ((playServices 1609459200001 workerPairs assignedByLoop startSome).map fun run =>
      storedWorker run.2.world.redis (bytes "4198400")) = some (some (bytes "w")) ∧
    ((playServices 1609459200001 [] (List.replicate 7 0) startSome).bind fun run =>
      (playServices 1609459200001 [] (List.replicate 4 4) run.2).map fun run' =>
        (acceptedId (run.2.thread 0).prog, (shownTask (run'.2.thread 4).prog).isSome)) =
          some (some (bytes "4198400"), true) ∧
    ((playServices 1609459200001 [] pushedBack startSome).map fun run =>
      occurrences run.2.world.redis (bytes "4198400")) = some 1 ∧
    ((playServices 1609459200002 [] (List.replicate 7 0) startSome).bind fun run =>
      (playServices 1609459200001 [] [1] run.2).map fun run' =>
        (thrown (run'.2.thread 1).prog).isSome) = some true := by
  decide +kernel

section Runs

variable [DecidableEq ι] {faulty : Prop} {discovers : (e : EtcdEffect) → e.Answer → Prop} {sort : StdSort}
  {service : ι → Service} {strategy : Bytes} {P : ServicePool ι} {τ : List (ServiceMoment ι)} {i : Bytes} {t : ι}

omit [DecidableEq ι] in
/-- The record of a task that a thread has tried to save, if it is there. -/
theorem LifeInv.recordOf {written : Prop} {w : Deployment} {n : ι → Stage}
    (h : LifeInv (fun t => (service t).wants) written faulty w n) {fields : List (Bytes × Bytes)} {value : Value}
    (ht : (n t).record = some (i, fields)) (hvalue : w.redis[taskKey i]? = some value) :
    ∃ request createdAt info f, (service t).Submits request ∧
      SubmittedInfo ⟨i, request.type, request.priority, request.data, createdAt⟩ info ∧
      Evolved written (recordFields info) f ∧ fields = (recordFields info).toList ∧ value = .hash f := by
  obtain ⟨task, info, f, hwants, hinfo, hid, hfields, hf, hevolved⟩ := h.known.recorded ht hvalue
  obtain ⟨request, hrequest, htype, hpriority, hdata⟩ := hwants
  refine ⟨request, task.createdAt, info, f, hrequest, ?_, hevolved, hfields, hf⟩
  rw [← htype, ← hpriority, ← hdata, ← hid, hinfo.id]
  exact hinfo

omit [DecidableEq ι] in
/-- The record of a task whose id a thread has pushed. -/
theorem LifeInv.recordOfPushed {written : Prop} {w : Deployment} {n : ι → Stage}
    (h : LifeInv (fun t => (service t).wants) written faulty w n) {fields : List (Bytes × Bytes)}
    (ht : n t = .pushed i fields) : ∃ request createdAt info f, (service t).Submits request ∧
      SubmittedInfo ⟨i, request.type, request.priority, request.data, createdAt⟩ info ∧
      Evolved written (recordFields info) f ∧ fields = (recordFields info).toList ∧
      w.redis[taskKey i]? = some (.hash f) := by
  obtain ⟨value, hvalue⟩ := Option.ne_none_iff_exists'.1 (h.known.present t i fields (by rw [ht]; rfl))
  obtain ⟨request, createdAt, info, f, hrequest, hinfo, hevolved, hfields, rfl⟩ :=
    h.recordOf (by rw [ht]; rfl : (n t).record = some (i, fields)) hvalue
  exact ⟨request, createdAt, info, f, hrequest, hinfo, hevolved, hfields, hvalue⟩

/-! ### Submissions -/

omit [DecidableEq ι] in
theorem Accepted.pushed {request : SubmitTaskMessage} (hobey : Obedient (services faulty discovers sort service)
    (fun t => Stage.AllowsEffect (service t).wants) (fun t => (service t).Ends) P) (h :
    Accepted service P t request i) :
    ∃ fields, P.notes t = .pushed i fields := by
  obtain ⟨hrequest, reply, hprog, haccepts⟩ := h
  have hends := hobey.threads t
  rw [hprog] at hends
  exact hends.accepted request i hrequest haccepts

/-- Whatever the services do at once and whatever fails: two submissions never get one id, and a submission
saves its task where nothing was stored. -/
theorem submissions_apart (h : Execution (services faulty discovers sort service)
    (startServices strategy service) τ P) :
    (∀ t t' request request' i, Accepted service P t request i → Accepted service P t' request' i → t = t') ∧
    ∀ m ∈ τ, ∀ context key fields reply,
      m.event = ⟨.dispatcher (.command context (.hmset key fields)), reply⟩ →
      m.world.redis[key]? = none := by
  obtain ⟨hobey, hinv⟩ := lifeInv_reachable h.reachable
  constructor
  · intro t t' request request' i hacc hacc'
    obtain ⟨fields, ht⟩ := hacc.pushed hobey
    obtain ⟨fields', ht'⟩ := hacc'.pushed hobey
    exact hinv.issued.distinct t t' i (by rw [ht]; rfl) (by rw [ht']; rfl)
  · intro m hm context key fields reply hevent
    obtain ⟨n, w', hbefore, hallows, -⟩ :=
      (services_obedient strategy).moments preserved (lifeInv_start _ True faulty strategy) h m hm
    rw [hevent] at hallows
    obtain ⟨i, hn, rfl⟩ := issued_of_hmset hallows
    exact hbefore.absent hn

theorem submissions_apart_two : ∃ (τ : List (ServiceMoment (Fin 7))) (P : ServicePool (Fin 7)) (i j : Bytes),
    Accepted someServices P 0 ⟨1, 2, bytes "data"⟩ i ∧ Accepted someServices P 1 ⟨1, 0, bytes "other"⟩ j ∧
      (∀ t t' request request' i, Accepted someServices P t request i →
        Accepted someServices P t' request' i → t = t') ∧
      ∀ m ∈ τ, ∀ context key fields reply,
        m.event = ⟨.dispatcher (.command context (.hmset key fields)), reply⟩ →
        m.world.redis[key]? = none := by
  obtain ⟨⟨τ, P⟩, hrun, hids⟩ := Option.map_eq_some_iff.1 some_runs.1
  simp only [Prod.mk.injEq] at hids
  have hτ : Execution (services True (fun _ _ => True) .stable someServices) startSome _ P :=
    execution_of_play ⟨by decide, by decide⟩ (fun _ _ => trivial) trivial .start hrun
  exact ⟨_, P, _, _, accepted_of_id rfl hids.1, accepted_of_id rfl hids.2.1, submissions_apart hτ⟩

/-! ### Workers -/

/-- A worker is stored at most once for a task, whatever fails, and from then on the task waits in no list.  The
last part is about workers however they came to be stored: the reply of the command that did it may have been
lost. -/
theorem assigned_once (h : Execution (services faulty discovers sort service) (startServices strategy service) τ P)
    (i : Bytes) :
    (∀ m ∈ τ, ∀ v, Assigns i v m → storedWorker P.world.redis i = some v ∧
      occurrences P.world.redis i = 0) ∧
      (τ.Pairwise fun m m' => ∀ v v', Assigns i v m → ¬ Assigns i v' m') ∧
      ∀ m ∈ τ, ∀ v, storedWorker m.world.redis i = some v →
        storedWorker P.world.redis i = some v ∧ occurrences P.world.redis i = 0 ∧ ∀ v', ¬ Assigns i v' m := by
  have hrun : (∀ m ∈ τ, ∀ v, Assigns i v m → storedWorker P.world.redis i = some v) ∧
      (τ.Pairwise fun m m' => ∀ v v', Assigns i v m → ¬ Assigns i v' m') ∧
      ∀ m ∈ τ, ∀ v, storedWorker m.world.redis i = some v →
        storedWorker P.world.redis i = some v ∧ ∀ v', ¬ Assigns i v' m := by
    induction h with
    | start => exact ⟨fun _ hm => (by cases hm), .nil, fun _ hm => (by cases hm)⟩
    | @exec τ P e k r w hτ t hp hs ih =>
      obtain ⟨hobey, hinv⟩ := lifeInv_reachable hτ.reachable
      have hcall := hobey.threads t
      rw [hp] at hcall
      obtain ⟨-, hkeeps⟩ := hinv.effect (t := t) hcall.1 (fun _ _ _ _ _ => trivial) hs
      -- a worker that is stored was not stored before
      have hnew : ∀ v, Assigns i v ⟨P.world, t, e, r⟩ →
          storedWorker P.world.redis i = none ∧ storedWorker w.redis i = some v := by
        rintro v ⟨context, reply, hevent, hok⟩
        cases hevent
        exact hinv.assigns hcall.1 hs.1 hok
      refine ⟨?_, ?_, ?_⟩
      · intro m hm v hv
        rcases List.mem_append.1 hm with hm | hm
        · exact hkeeps.storedWorker (ih.1 m hm v hv)
        · rw [List.mem_singleton.1 hm] at hv
          exact (hnew v hv).2
      · refine List.pairwise_append.2 ⟨ih.2.1, List.pairwise_singleton .., ?_⟩
        intro m hm m' hm' v v' hv hv'
        rw [List.mem_singleton.1 hm'] at hv'
        have hstored := ih.1 m hm v hv
        rw [(hnew v' hv').1] at hstored
        cases hstored
      · intro m hm v hv
        rcases List.mem_append.1 hm with hm | hm
        · obtain ⟨hstored, hnone⟩ := ih.2.2 m hm v hv
          exact ⟨hkeeps.storedWorker hstored, hnone⟩
        · obtain rfl := List.mem_singleton.1 hm
          refine ⟨hkeeps.storedWorker hv, fun v' hv' => ?_⟩
          rw [(hnew v' hv').1] at hv
          cases hv
    | again hτ t hp hb ih => exact ih
  obtain ⟨-, hinv⟩ := lifeInv_reachable h.reachable
  have hwaits : ∀ v, storedWorker P.world.redis i = some v → occurrences P.world.redis i = 0 := fun v hstored =>
    ((hinv.once i).unassigned (by rw [hstored]; rfl)).1
  refine ⟨fun m hm v hv => ?_, hrun.2.1, fun m hm v hv => ?_⟩
  · exact ⟨hrun.1 m hm v hv, hwaits v (hrun.1 m hm v hv)⟩
  · obtain ⟨hstored, hnone⟩ := hrun.2.2 m hm v hv
    exact ⟨hstored, hwaits v hstored, hnone⟩

theorem assigned_once_byLoop : ∃ (τ : List (ServiceMoment (Fin 7))) (P : ServicePool (Fin 7)),
    storedWorker P.world.redis (bytes "4198400") = some (bytes "w") ∧
      (∀ m ∈ τ, ∀ v, Assigns (bytes "4198400") v m →
        storedWorker P.world.redis (bytes "4198400") = some v ∧ occurrences P.world.redis (bytes "4198400") = 0) ∧
      (τ.Pairwise fun m m' => ∀ v v', Assigns (bytes "4198400") v m → ¬ Assigns (bytes "4198400") v' m') ∧
      ∀ m ∈ τ, ∀ v, storedWorker m.world.redis (bytes "4198400") = some v →
        storedWorker P.world.redis (bytes "4198400") = some v ∧ occurrences P.world.redis (bytes "4198400") = 0 ∧
          ∀ v', ¬ Assigns (bytes "4198400") v' m := by
  obtain ⟨⟨τ, P⟩, hrun, hworker⟩ := Option.map_eq_some_iff.1 some_runs.2.1
  have hτ : Execution (services True (fun _ _ => True) .stable someServices) startSome _ P :=
    execution_of_play ⟨by decide, by decide⟩ (fun _ _ => trivial) trivial .start hrun
  exact ⟨_, P, hworker, assigned_once hτ (bytes "4198400")⟩

/-! ### Records and lists -/

/-- What is stored for a task is what some submission saved, and every id in a list has such a record; where nothing
fails, it waits in the list of its own priority. -/
theorem records_truthful (h : Reachable (services faulty discovers sort service)
    (startServices strategy service) P) :
    (∀ i value, P.world.redis[taskKey i]? = some value → ∃ t request f, (service t).Submits request ∧
      value = .hash f ∧ RecordOf request i f) ∧
    ∀ q ∈ queueKeys, ∀ i ∈ queueItems P.world.redis q, ∃ t request f, (service t).Submits request ∧
      P.world.redis[taskKey i]? = some (.hash f) ∧ RecordOf request i f ∧
      (¬ faulty → q = queueOf request.priority) := by
  obtain ⟨-, hinv⟩ := lifeInv_reachable h
  constructor
  · intro i value hvalue
    obtain ⟨t, fields, ht⟩ := hinv.known.records i (by rw [hvalue]; exact Option.some_ne_none _)
    obtain ⟨request, createdAt, info, f, hservice, hinfo, hevolved, -, hf⟩ := hinv.recordOf ht hvalue
    exact ⟨t, request, f, hservice, hf, createdAt, info, hinfo, hevolved⟩
  · intro q hq i hi
    obtain ⟨t, fields, ht⟩ := hinv.known.waiting q hq i hi
    obtain ⟨request, createdAt, info, f, hservice, hinfo, hevolved, rfl, hf⟩ := hinv.recordOfPushed ht
    refine ⟨t, request, f, hservice, hf, ⟨createdAt, info, hinfo, hevolved⟩, fun hfault => ?_⟩
    rw [(hinv.placed hfault).waiting q hq i hi t info ht, hinfo.priority]

theorem records_truthful_two : ∃ P : ServicePool (Fin 7), P.world.redis[taskKey (bytes "4198400")]? ≠ none ∧
    (∀ i value, P.world.redis[taskKey i]? = some value → ∃ t request f, (someServices t).Submits request ∧
      value = .hash f ∧ RecordOf request i f) ∧
    ∀ q ∈ queueKeys, ∀ i ∈ queueItems P.world.redis q, ∃ t request f, (someServices t).Submits request ∧
      P.world.redis[taskKey i]? = some (.hash f) ∧ RecordOf request i f ∧
      (¬ False → q = queueOf request.priority) := by
  obtain ⟨⟨τ, P⟩, hrun, hrecord⟩ := Option.map_eq_some_iff.1 some_runs.1
  simp only [Prod.mk.injEq] at hrecord
  have hτ : Execution (services False (fun _ _ => True) .stable someServices) startSome _ P :=
    execution_of_play ⟨by decide, by decide⟩ (fun _ _ => trivial) trivial .start hrun
  exact ⟨P, Option.isSome_iff_ne_none.1 hrecord.2.2, records_truthful hτ.reachable⟩

/-! ### Lookups after a submission -/

/-- From the moment on when the client knows the id, the record of its task is there: the fields that were
saved, and what loops have written since. -/
theorem Accepted.evolved {request : SubmitTaskMessage}
    (h : Reachable (services faulty discovers sort service) (startServices strategy service) P)
    (haccepted : Accepted service P t request i) : (∃ id : Int64, i = decimal id.toInt) ∧ ∃ createdAt info,
      SubmittedInfo ⟨i, request.type, request.priority, request.data, createdAt⟩ info ∧
      ∀ P', Reachable (services faulty discovers sort service) P P' →
        ∃ f, P'.world.redis[taskKey i]? = some (.hash f) ∧ Evolved True (recordFields info) f := by
  obtain ⟨hobey, hinv⟩ := lifeInv_reachable h
  obtain ⟨fields, ht⟩ := haccepted.pushed hobey
  obtain ⟨request', createdAt, info, -, hrequest', hinfo, -, hfields, -⟩ := hinv.recordOfPushed ht
  obtain rfl := haccepted.1.unique hrequest'
  refine ⟨hinv.number ⟨t, fields, ht⟩, createdAt, info, hinfo, fun P' hP' => ?_⟩
  -- the thread has ended, so its note stays
  have hstill : P'.notes t = .pushed i fields := by
    obtain ⟨hrequest, reply, hprog, -⟩ := haccepted
    rw [Pool.notes, hP'.ended hprog hrequest.again]
    exact ht
  obtain ⟨-, -, info', f, -, -, hevolved, hfields', hf⟩ :=
    (lifeInv_reachable (h.trans hP')).2.recordOfPushed hstill
  have hsame : recordFields info = recordFields info' := Std.ExtTreeMap.toList_inj.1 (hfields.symm.trans hfields')
  exact ⟨f, hf, hsame ▸ hevolved⟩

theorem Accepted.record {P' : ServicePool ι} {request : SubmitTaskMessage}
    (h : Reachable (services faulty discovers sort service) (startServices strategy service) P)
    (haccepted : Accepted service P t request i) (hrest : Reachable (services faulty discovers sort service) P P') :
    (∃ id : Int64, i = decimal id.toInt) ∧ ∃ f, P'.world.redis[taskKey i]? = some (.hash f) ∧
    RecordOf request i f := by
  obtain ⟨hid, createdAt, info, hinfo, hevolved⟩ := haccepted.evolved h
  obtain ⟨f, hf, hf'⟩ := hevolved P' hrest
  exact ⟨hid, f, hf, createdAt, info, hinfo, hf'⟩

omit [DecidableEq ι] in
theorem recordAnswers_of_deployed {C : StringMap Bytes → Prop} {w w' : Deployment}
    {e : ServiceEffect} {r : e.Answer}
    (hrecord : C (replyFields (some (exec (.hgetall (taskKey i)) w.redis).1))) (hfault : ¬ faulty)
    (hs : deployed faulty discovers sort e w r w') : recordAnswers C i e r := by
  cases e with
  | dispatcher e =>
    obtain ⟨hs, -, -⟩ := hs
    cases e with
    | getConnection =>
      obtain ⟨-, hconnected, hnone⟩ := hs
      cases r with
      | none => exact absurd (hnone rfl) hfault
      | some redis => exact ⟨redis, rfl, hconnected redis rfl⟩
    | command context cmd =>
      rcases hs with ⟨rfl, -⟩ | ⟨hfaulty, -⟩
      · cases cmd with
        | hgetall key =>
          rintro rfl
          exact hrecord
        | _ => trivial
      · exact absurd hfaulty hfault
    | _ => trivial
  | _ => trivial

/-- Where nothing fails, a thread gets such answers only while the record is in `C`. -/
theorem given_reader {C : StringMap Bytes → Prop} {P' : ServicePool ι} {t' : ι}
    {Q : Except StdException ServiceReply → Prop}
    (hrecord : ∀ P₁, Reachable (services False discovers sort service) P P₁ →
      Reachable (services False discovers sort service) P₁ P' → ∃ f,
        P₁.world.redis[taskKey i]? = some (.hash f) ∧ C f)
    (hvalid : ValidId i) (hstart : (P.thread t').prog = (service t').code)
    (hrest : Reachable (services False discovers sort service) P P')
    (hcode : (service t').code.Given (recordAnswers C (cStr i)) (fun _ => True) Q) :
    (P'.thread t').prog.Given (recordAnswers C i) (fun _ => True) Q := by
  rw [cStr_of_noNul hvalid.noNul] at hcode
  refine Reachable.given_thread (J := fun w => C (replyFields (some (exec (.hgetall (taskKey i)) w.redis).1)))
    (fun P₁ h₁ h₂ => ?_) (fun hw hs => recordAnswers_of_deployed hw id hs) ?_ ?_ hrest
  · obtain ⟨f, hf, hC⟩ := hrecord P₁ h₁ h₂
    rwa [replyFields_hgetall hf]
  · rwa [hstart]
  · intro body hbody
    rwa [again_code hbody]

/-- Where nothing fails: a lookup that starts after the submission has replied shows the submitted task, pending or
running, whatever else goes on. -/
theorem lookups_find_submission {P' : ServicePool ι} {t' : ι} {request : SubmitTaskMessage}
    (h : Reachable (services False discovers sort service) (startServices strategy service) P)
    (haccepted : Accepted service P t request i) (hlookup : (service t').LooksUp i)
    (hstart : (P.thread t').prog = (service t').code)
    (hrest : Reachable (services False discovers sort service) P P') :
    (∀ x, (P'.thread t').prog ≠ .throw x) ∧
      ∀ reply, (P'.thread t').prog = .ret reply → ∃ task,
        reply = .task ⟨true, bytes "Task found", some task⟩ ∧
        Shows request i task := by
  obtain ⟨⟨id, rfl⟩, -⟩ := haccepted.record h .refl
  have hlooking := given_reader (fun P₁ hP₁ _ => (haccepted.record h hP₁).2) (validId_decimal _) hstart hrest
    (given_lookup (RecordOf.readAs request _) hlookup)
  constructor
  · intro x hx
    rw [hx] at hlooking
    obtain ⟨task, -, hcontra⟩ := hlooking
    cases hcontra
  · intro reply hreply
    rw [hreply] at hlooking
    obtain ⟨task, hshows, hsame⟩ := hlooking
    rw [taskReply_found (validId_decimal _) hshows.id] at hsame
    exact ⟨task, Except.ok.inj hsame, hshows⟩

theorem lookups_find_submission_first : ∃ P : ServicePool (Fin 7), (shownTask (P.thread 4).prog).isSome ∧
    (∀ x, (P.thread 4).prog ≠ .throw x) ∧
      ∀ reply, (P.thread 4).prog = .ret reply → ∃ task,
        reply = .task ⟨true, bytes "Task found", some task⟩ ∧
        Shows ⟨1, 2, bytes "data"⟩ (bytes "4198400") task := by
  obtain ⟨⟨τ, P⟩, hrun, hrest⟩ := Option.bind_eq_some_iff.1 some_runs.2.2.1
  obtain ⟨⟨τ', P'⟩, hrun', hshown⟩ := Option.map_eq_some_iff.1 hrest
  simp only [Prod.mk.injEq] at hshown
  have hτ : Execution (services False (fun _ _ => True) .stable someServices) startSome _ P :=
    execution_of_play ⟨by decide, by decide⟩ (fun _ _ => trivial) trivial .start hrun
  have hτ' : Execution (services False (fun _ _ => True) .stable someServices) P _ P' :=
    execution_of_play ⟨by decide, by decide⟩ (fun _ _ => trivial) trivial .start hrun'
  have hstart : (P.thread 4).prog = (someServices 4).code := by
    rw [play_thread hrun (by decide)]
    rfl
  have haccepted : Accepted someServices P 0 ⟨1, 2, bytes "data"⟩ (bytes "4198400") := accepted_of_id rfl hshown.1
  exact ⟨P', hshown.2, lookups_find_submission hτ.reachable haccepted (Or.inl rfl) hstart hτ'.reachable⟩

end Runs

end Taskflow
