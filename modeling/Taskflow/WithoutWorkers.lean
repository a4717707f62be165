import Taskflow.ServiceDiscovery
import Taskflow.ServiceRuns

/-!
# The services beside the real etcd

The range that discovery asks for is empty, so the refresh loop never lists a worker, and none is ever selected.
What follows for whole runs: the dispatch loops only pop and push back, and no task leaves the state in which it
was submitted (`nothing_dispatched`); and since every stored record can be read, no loop and no RPC ever ends
with an exception, except a submission that gets no id (`services_survive`).
-/

namespace Taskflow

open Text Effects Prog

variable {ι : Type}

/-- What etcd may answer, whatever it stores and whatever fails. -/
def etcdAnswers (e : EtcdEffect) (r : e.Answer) : Prop := ∃ store store', etcdServed True e store r store'

/-- The answers while the worker table is empty and every record can be read. -/
def idleAnswers : (e : ServiceEffect) → e.Answer → Prop
  | .dispatcher (.selectWorker _), r => r = ([] : Bytes)
  | .dispatcher (.command _ (.hgetall key)), r => (∃ i, key = taskKey i) → Readable (replyFields r)
  | .getWorkers, r => r = ([] : List WorkerNode)
  | .etcd (.range key rangeEnd), r => rangeEnd = some key →
      r = (some [] : Option (List (Bytes × Bytes))) ∨ r = none
  | _, _ => True

/-- Effects that neither write into a record nor list a worker. -/
def Sparing : ServiceEffect → Prop
  | .dispatcher (.command _ (.hset _ _ _)) => False
  | .updateWorkers workers => workers = []
  | _ => True

/-! ### What the services do with such answers -/

section Code

variable {α β : Type} {redis : RedisClient}

/-- Code of the dispatcher that spares the records and ends without an exception. -/
abbrev Survives (p : Code α) : Prop :=
  p.Concludes (fun e r => idleAnswers (.dispatcher e) r) fun e => Sparing (.dispatcher e)

theorem survives_connection {f : Option RedisClient → Code α} (h : ∀ conn, Survives (f conn)) :
    Survives (getConnection >>= f) := ⟨trivial, fun conn _ => h conn⟩

theorem survives_returnConnection {a : α} : Survives (do returnConnection redis; return a : Code α) :=
  ⟨trivial, fun _ _ => concludes_ret a⟩

theorem survives_wrapper {b : Bool} {a : α} {cmd : Command} {context : Nat} {f : Option Reply → α}
    (h : Sparing (.dispatcher (.command context cmd))) :
    Survives (if b = true then ret a else call (.command context cmd) fun reply => ret (f reply) : Code α) :=
  .ite (concludes_ret a) ⟨h, fun reply _ => concludes_ret (f reply)⟩

theorem survives_lpop (key : Bytes) : Survives (redis.lpop key) := survives_wrapper trivial

theorem survives_llen (key : Bytes) : Survives (redis.llen key) := survives_wrapper trivial

theorem survives_pushToPriorityQueue (priority : Int32) (taskId : Bytes) :
    Survives (redis.pushToPriorityQueue priority taskId) := survives_wrapper trivial

theorem survives_getTask (taskId : Bytes) : Survives (redis.getTask taskId) := by
  refine given_getTask (C := Readable) trivial ?_ ?_
  · by_cases hc : redis.connected = true
    · exact given_hgetall hc fun context => ⟨trivial, fun reply hreply => hreply ⟨_, rfl⟩⟩
    · rw [RedisClient.hgetall, if_pos (by simpa using hc)]
      refine ⟨∅, rfl, fun f _ v hv => ?_⟩
      rw [Std.ExtTreeMap.getElem?_empty] at hv
      cases hv
  · intro task h _ hreadable
    split
    · exact ⟨task, rfl⟩
    · exact hreadable.readFields task

theorem survives_popNextTask : Survives popNextTask := by
  refine survives_connection fun conn => ?_
  cases conn with
  | none => exact concludes_ret _
  | some redis =>
    have hpop : Survives redis.popFromPriorityQueue := by
      refine (survives_lpop _).bind fun taskId => .ite (concludes_ret _) ?_
      exact (survives_lpop _).bind fun taskId => .ite (concludes_ret _) (survives_lpop _)
    exact hpop.bind fun taskId => survives_returnConnection

/-- An iteration selects no worker, so it pushes the task back. -/
theorem survives_taskDispatchIteration : Survives taskDispatchIteration := by
  refine survives_popNextTask.bind fun taskId => .ite (concludes_ret _) ?_
  refine Given.bind (p := selectWorker taskId) (Q := fun o => o = .ok [])
    ⟨trivial, fun _ hr => congrArg Except.ok hr⟩ ?_ fun _ hx => by cases hx
  rintro _ ⟨⟩
  refine survives_connection fun conn => ?_
  cases conn with
  | none => exact concludes_ret _
  | some redis =>
    refine (survives_getTask taskId).bind fun task => .ite ?_ survives_returnConnection
    exact (survives_pushToPriorityQueue _ _).bind fun _ => survives_returnConnection

theorem survives_getTaskStatus (taskId : Bytes) : Survives (SchedulerServiceImpl.getTaskStatus taskId) := by
  have hinfo : Survives (getTaskInfo taskId) := by
    refine survives_connection fun conn => ?_
    cases conn with
    | none => exact concludes_ret _
    | some redis => exact (survives_getTask taskId).bind fun _ => survives_returnConnection
  exact hinfo.bind fun _ => concludes_ret _

theorem survives_setex (key value : Bytes) (seconds : Int32) : Survives (redis.setex key value seconds) :=
  survives_wrapper trivial

theorem survives_heartbeatIteration (config : Config.WorkerConfig) : Survives (heartbeatIteration config redis) :=
  ⟨trivial, fun _ _ => (survives_setex _ _ _).bind fun _ => concludes_ret _⟩

end Code

section Services

variable {α β : Type}

/-- Code of a service that ends without an exception. -/
abbrev ServiceSurvives (p : ServiceCode α) : Prop := p.Concludes idleAnswers Sparing

theorem Survives.service {p : Code α} (hp : Survives p) : ServiceSurvives (dispatcher p) := by
  refine Given.embed ?_ ?_ hp
  · exact fun _ he => he
  · exact fun _ _ hr => hr

/-- Discovery finds nothing. -/
theorem given_getServices : (registry (ServiceRegistry.getServices true (bytes "worker"))).Given idleAnswers Sparing
    fun o => o = .ok [] := by
  refine ⟨trivial, fun r hr => ?_⟩
  have hnone : ∀ services : List ServiceInfo, services = [] →
      (Except.ok services : Except StdException _) = .ok [] :=
    fun services h => by rw [h]
  rcases hr rfl with rfl | rfl
  · exact hnone _ rfl
  · exact hnone _ rfl

theorem survives_refreshIteration : ServiceSurvives refreshIteration := by
  refine given_getServices.bind ?_ ?_
  · rintro workers ⟨⟩
    exact ⟨rfl, fun _ _ => ⟨(), rfl⟩⟩
  · rintro x ⟨⟩

theorem survives_markMissing (now : Int64) (workers : List WorkerNode) :
    ServiceSurvives (markMissing now workers) := by
  induction workers with
  | nil => exact ⟨(), rfl⟩
  | cons worker workers ih =>
    rw [markMissing]
    split
    · exact ⟨trivial, fun _ _ => ih⟩
    · exact ih

theorem given_getStats (stats : StatsServiceImpl) :
    stats.getStats.Given idleAnswers Sparing fun o => ∃ reply, o = .ok reply ∧ reply.workerStats = [] := by
  have hlengths : ∀ {p : Code Int} {f : Int → ServiceCode GetStatsReply}, Survives p →
      (∀ n, (f n).Given idleAnswers Sparing fun o => ∃ reply, o = .ok reply ∧ reply.workerStats = []) →
      (dispatcher p >>= f).Given idleAnswers Sparing fun o => ∃ reply, o = .ok reply ∧ reply.workerStats = [] :=
    fun hp hf => Given.bind hp.service (fun n _ => hf n) (by rintro x ⟨_, ⟨⟩⟩)
  refine hlengths (survives_llen _) fun high => hlengths (survives_llen _) fun medium => ?_
  refine hlengths (survives_llen _) fun low => ⟨trivial, fun now _ => ?_⟩
  refine given_getServices.bind ?_ ?_
  · rintro workers ⟨⟩
    exact ⟨_, rfl, rfl⟩
  · rintro x ⟨⟩

theorem spares_submitTask (request : SubmitTaskMessage) :
    (SchedulerServiceImpl.submitTask request).Every Sparing := by
  have hcode : ∀ task, (Taskflow.submitTask task).Every fun e => Sparing (.dispatcher e) := by
    intro task
    refine (submitTask_issues fun _ h => h).mono ?_
    intro e he
    cases e with
    | command context cmd =>
      cases cmd with
      | hset key field value =>
        rcases he with he | ⟨info, -, he⟩ | he
        · cases he
        · cases he
        · cases he
      | _ => trivial
    | _ => trivial
  refine .bind ⟨trivial, fun result => .ofExcept _⟩ fun id => .bind ⟨trivial, fun _ => trivial⟩ fun now => ?_
  exact .bind (Every.embed (hcode _)) fun ok => .ite trivial trivial

theorem given_submitTask (request : SubmitTaskMessage) :
    (SchedulerServiceImpl.submitTask request).Given idleAnswers Sparing fun _ => True := by
  have hall : ∀ p : ServiceCode SubmitTaskReply, p.Every Sparing → p.Given idleAnswers Sparing fun _ => True := by
    intro p hp
    induction p with
    | ret a => trivial
    | throw x => trivial
    | call e k ih => exact ⟨hp.1, fun r _ => ih r (hp.2 r)⟩
  exact hall _ (spares_submitTask request)

/-- How a service ends: no reply and no response shows a worker, and only a submission ends with an exception. -/
def Service.Idle : Service → Except StdException ServiceReply → Prop
  | .submitTask _, _ => True
  | .getWorkers, o => o = .ok (.workers [])
  | .getStats _, o => ∃ reply, o = .ok (.stats reply) ∧ reply.workerStats = []
  | .connection buffered later, o => ∃ text, o = .ok (.response text) ∧ ∀ request,
    handleConnection buffered later = .ok request → Asks request .getWorkers → ∃ answer,
      text = some (responseText (GatewayEffect.getWorkers.response answer)) ∧ ∀ workers,
        answer = .ok workers → workers = []
  | _, o => ∃ reply, o = .ok reply

/-- What the scheduler answers the gateway. -/
def idleReplies : (e : GatewayEffect) → e.Answer → Prop
  | .getWorkers, answer => ∀ workers, answer = .ok workers → workers = []
  | _, _ => True

theorem given_serve (e : GatewayEffect) :
    e.serve.Given idleAnswers Sparing fun o => ∃ answer, o = .ok answer ∧ idleReplies e answer := by
  cases e with
  | submitTask made =>
    refine (given_rpc trivial (given_submitTask made.message)).mono ?_
    rintro o ⟨result, rfl, -⟩
    exact ⟨result, rfl, trivial⟩
  | getTaskStatus taskId =>
    refine (given_rpc trivial (survives_getTaskStatus taskId).service).bind ?_ ?_
    · intro result _
      exact ⟨_, rfl, trivial⟩
    · rintro x ⟨_, ⟨⟩, -⟩
  | getWorkers =>
    have hworkers : SchedulerServiceImpl.getWorkers.Given idleAnswers Sparing fun o => o = .ok [] :=
      ⟨trivial, fun _ hr => by rw [hr]; rfl⟩
    refine (given_rpc trivial hworkers).bind ?_ ?_
    · rintro result ⟨_, ⟨⟩, hresult⟩
      refine ⟨_, rfl, fun workers hworkers => ?_⟩
      cases result with
      | error message => cases hworkers
      | ok listed =>
        cases hresult listed rfl
        cases hworkers
        rfl
    · rintro x ⟨_, ⟨⟩, -⟩

/-- A service that replies with what such code returns. -/
theorem Survives.replies {p : Code α} (hp : Survives p) (reply : α → ServiceReply) :
    (dispatcher p >>= fun a => ret (reply a)).Given idleAnswers Sparing fun o => ∃ reply, o = .ok reply :=
  hp.service.bind fun _ => concludes_ret _

theorem Service.given (service : Service) : service.code.Given idleAnswers Sparing service.Idle := by
  cases service with
  | submitTask request => exact (given_submitTask request).bind (fun _ _ => trivial) fun _ _ => trivial
  | getTaskStatus taskId => exact (survives_getTaskStatus taskId).replies _
  | registerWorker workerId address port => exact ⟨_, rfl⟩
  | getWorkers =>
    refine ⟨trivial, ?_⟩
    rintro _ rfl
    rfl
  | heartbeat workerId currentLoad => exact ⟨trivial, fun _ _ => ⟨_, rfl⟩⟩
  | taskDispatchLoop => exact survives_taskDispatchIteration.replies fun _ => .iterated
  | workerCheckLoop =>
    have hcheck : ServiceSurvives workerCheckIteration :=
      ⟨trivial, fun workers _ => ⟨trivial, fun now _ => survives_markMissing now workers⟩⟩
    exact hcheck.bind fun _ => concludes_ret _
  | refreshLoop => exact survives_refreshIteration.bind fun _ => concludes_ret _
  | queryTask tracker taskId =>
    have hquery : Survives (tracker.queryTask taskId) := (survives_getTask taskId).bind fun _ => concludes_ret _
    exact hquery.replies _
  | getStats stats =>
    refine (given_getStats stats).bind ?_ ?_
    · rintro reply ⟨_, ⟨⟩, hnone⟩
      exact ⟨reply, rfl, hnone⟩
    · rintro x ⟨_, ⟨⟩, -⟩
  | heartbeatLoop config redis => exact (survives_heartbeatIteration config).replies fun _ => .iterated
  | connection buffered later =>
    refine (given_connection buffered later fun _ e _ _ => given_serve e).mono ?_
    rintro _ ⟨text, rfl, hanswered⟩
    exact ⟨text, rfl, fun request hrequest hworkers => hanswered request _ hrequest hworkers⟩

end Services

/-! ### A submission that fails -/

/-- Once it has an id, a submission ends without an exception, whatever it is answered. -/
theorem concludes_submitTask (task : TaskRequest) :
    (Taskflow.submitTask task).Concludes (fun _ _ => True) fun _ => True := by
  refine Concludes.bind (p := getConnection) ⟨trivial, fun conn _ => concludes_ret conn⟩ fun conn => ?_
  cases conn with
  | none => exact concludes_ret false
  | some redis =>
    have hwrapper : ∀ {b : Bool} {a : Bool} {cmd : Command} {context : Nat} {f : Option Reply → Bool},
        (if b = true then ret a else call (.command context cmd) fun reply => ret (f reply) : Code Bool).Concludes
          (fun _ _ => True) fun _ => True :=
      fun {b a cmd context f} => .ite (concludes_ret a) ⟨trivial, fun reply _ => concludes_ret (f reply)⟩
    have hreturn : ∀ ok : Bool, (do returnConnection redis; return ok : Code Bool).Concludes (fun _ _ => True)
        fun _ => True := fun ok => ⟨trivial, fun _ _ => concludes_ret ok⟩
    refine Concludes.bind (p := declareTaskInfo) ⟨trivial, fun _ _ => concludes_ret _⟩ fun declared => ?_
    refine Concludes.bind (p := redis.saveTask _) hwrapper fun saved => .ite (hreturn _) ?_
    exact Concludes.bind (p := redis.pushToPriorityQueue _ _) hwrapper fun pushed => .ite (hreturn _) (hreturn _)

theorem submission_throws {request : SubmitTaskMessage}
    {S : Semantics ServiceEffect ServiceEffect.Answer Deployment}
    {τ : List (ServiceMoment ι)} {x : StdException} (h : (Service.submitTask request).code.Does S τ (.throw x)) :
    ∃ m e, τ = [m] ∧ m.event = ⟨.nextId, .error e⟩ := by
  cases τ with
  | nil => cases h
  | cons m τ =>
    obtain ⟨result, w', hevent, -, hrest⟩ := h
    cases result with
    | error e =>
      cases τ with
      | nil => exact ⟨m, e, rfl, hevent⟩
      | cons m' τ => exact hrest.elim
    | ok id =>
      exfalso
      have hsubmit : ∀ task : TaskRequest, (dispatcher (Taskflow.submitTask task)).Concludes (fun _ _ => True)
          fun _ => True := fun task => Given.embed (fun _ _ => trivial) (fun _ _ _ => trivial)
            (concludes_submitTask task)
      have hrest' := Given.does (A := fun _ _ => True) (F := fun _ => True) (Q := fun o => ∃ a, o = .ok a) ?_
        (fun _ _ => trivial) hrest
      · obtain ⟨_, hcontra⟩ := hrest'
        cases hcontra
      · refine Concludes.bind ?_ fun _ => concludes_ret _
        exact ⟨trivial, fun now _ => (hsubmit _).bind fun ok => .ite (concludes_ret _) (concludes_ret _)⟩

/-! ### What the environment answers -/

theorem Evolved.readable {info : TaskInfo} {h : StringMap Bytes} {written : Prop}
    (hevolved : Evolved written (recordFields info) h) :
    Readable h := by
  intro field hfield v hv
  have hzero : bytes "0" = decimal (0 : Int64).toInt := by decide
  have hone : bytes "1" = decimal (1 : Int64).toInt := by decide
  by_cases hs : field = bytes "status"
  · subst hs
    rcases hevolved.status with hstatus | hstatus
    · rw [hstatus] at hv
      cases hv
      exact ⟨0, hzero⟩
    · rw [hstatus] at hv
      cases hv
      exact ⟨1, hone⟩
  · by_cases ht : field = bytes "started_at"
    · subst ht
      obtain ⟨n, hn⟩ := hevolved.started
      rw [hn] at hv
      cases hv
      exact ⟨n, rfl⟩
    · have hw : field ≠ bytes "worker_id" := by
        rintro rfl
        revert hfield
        decide
      rw [hevolved.kept field hs hw ht] at hv
      exact (recordFields_record info).numbers field hfield v hv

/-- Every record can be read. -/
def RecordsReadable (w : Deployment) : Prop :=
  ∀ i value, w.redis[taskKey i]? = some value → ∃ h, value = .hash h ∧ Readable h

theorem LifeInv.recordsReadable {wants : ι → TaskRequest → Prop} {written faulty : Prop} {w : Deployment}
    {n : ι → Stage} (h : LifeInv wants written faulty w n) : RecordsReadable w := by
  intro i value hvalue
  obtain ⟨t, fields, ht⟩ := h.known.records i (by rw [hvalue]; exact Option.some_ne_none _)
  obtain ⟨task, info, f, -, -, -, -, hf, hevolved⟩ := h.known.recorded ht hvalue
  exact ⟨f, hf, hevolved.readable⟩

theorem readable_noFields : Readable ∅ := by
  intro field _ v hv
  rw [Std.ExtTreeMap.getElem?_empty] at hv
  cases hv

theorem create_workers (strategy : Bytes) : (LoadBalancer.create strategy).workers = ∅ := by
  unfold LoadBalancer.create LoadBalancer.setStrategy
  split
  · rfl
  · split
    · rfl
    · split <;> rfl

section Balancer

variable {lb : LoadBalancer} (h : lb.workers = ∅)
include h

theorem getWorkers_empty : lb.getWorkers = [] := by
  rw [LoadBalancer.getWorkers, h, Std.ExtTreeMap.toList_eq_nil_iff.2 rfl]
  rfl

theorem modifyNode_empty (workerId : Bytes) (change : WorkerNode → WorkerNode) :
    lb.modifyNode workerId change = lb := by
  rw [LoadBalancer.modifyNode, h, Std.ExtTreeMap.getElem?_empty]

theorem updateWorkers_empty (now : Int) : (lb.updateWorkers [] now).workers = ∅ := by
  simp only [LoadBalancer.updateWorkers, List.foldl_nil]
  rw [h, Std.ExtTreeMap.toList_eq_nil_iff.2 rfl]
  exact h

theorem selectWorker_empty (sort : StdSort) (taskId : Bytes) (now : Int) :
    lb.selectWorker sort taskId now = ([], lb) := by
  rw [LoadBalancer.selectWorker, h]
  rfl

end Balancer

/-- With an empty table and readable records the environment answers so, and the table stays empty. -/
theorem idle_of_deployed {faulty : Prop} {sort : StdSort} {w w' : Deployment} {e : ServiceEffect} {r : e.Answer}
    (hsparing : Sparing e) (hreadable : RecordsReadable w) (hempty : w.balancer.workers = ∅)
    (hs : deployed faulty etcdAnswers sort e w r w') : idleAnswers e r ∧ w'.balancer.workers = ∅ := by
  cases e with
  | dispatcher e =>
    obtain ⟨hredis, hbalancer, -⟩ := hs
    cases e with
    | selectWorker taskId =>
      obtain ⟨now, hselect⟩ := hbalancer
      rw [selectWorker_empty hempty] at hselect
      obtain ⟨rfl, hsame⟩ := Prod.mk.inj hselect
      exact ⟨rfl, by rw [← hsame]; exact hempty⟩
    | updateWorkerLoad workerId load =>
      rw [show w'.balancer = _ from hbalancer, LoadBalancer.updateWorkerLoad, modifyNode_empty hempty]
      exact ⟨trivial, hempty⟩
    | recordSuccess workerId =>
      rw [show w'.balancer = _ from hbalancer, LoadBalancer.recordSuccess, modifyBreaker_workers]
      exact ⟨trivial, hempty⟩
    | recordFailure workerId =>
      obtain ⟨now, hbalancer⟩ := hbalancer
      rw [hbalancer, LoadBalancer.recordFailure, modifyBreaker_workers]
      exact ⟨trivial, hempty⟩
    | command context cmd =>
      refine ⟨?_, by rw [show w'.balancer = _ from hbalancer]; exact hempty⟩
      cases cmd with
      | hgetall key =>
        rintro ⟨i, rfl⟩
        rcases hredis with ⟨rfl, -⟩ | ⟨-, ⟨-, rfl | rfl⟩ | ⟨rfl, -⟩⟩
        · cases hvalue : w.redis[taskKey i]? with
          | none =>
            simp only [exec, hvalue]
            exact readable_noFields
          | some value =>
            obtain ⟨h, rfl, hread⟩ := hreadable i value hvalue
            rwa [replyFields_hgetall hvalue]
        · exact readable_noFields
        · exact readable_noFields
        · exact readable_noFields
      | _ => trivial
    | _ => exact ⟨trivial, by rw [show w'.balancer = _ from hbalancer]; exact hempty⟩
  | nextId =>
    obtain ⟨generator, readings, rest, -, -, rfl⟩ := hs
    exact ⟨trivial, hempty⟩
  | etcd e =>
    obtain ⟨rfl, store, store', hserved⟩ := hs
    refine ⟨?_, hempty⟩
    cases e with
    | range key rangeEnd =>
      rintro rfl
      obtain ⟨-, rfl | ⟨-, rfl⟩⟩ := hserved
      · exact Or.inl (congrArg some (range_self store key))
      · exact Or.inr rfl
    | _ => trivial
  | updateWorkers workers =>
    obtain ⟨listed, now, hlisted, rfl⟩ := hs
    rw [show workers = [] from hsparing, List.map_eq_nil_iff] at hlisted
    subst hlisted
    exact ⟨trivial, updateWorkers_empty hempty now⟩
  | transport =>
    obtain rfl := hs
    exact ⟨trivial, hempty⟩
  | getWorkers =>
    obtain ⟨rfl, rfl⟩ := hs
    exact ⟨getWorkers_empty hempty, hempty⟩
  | markWorkerDead workerId =>
    obtain rfl := hs
    refine ⟨trivial, ?_⟩
    rw [LoadBalancer.markWorkerDead, modifyNode_empty hempty]
    exact hempty

/-! ### Whole runs -/

section Runs

variable [DecidableEq ι] {faulty : Prop} {sort : StdSort} {service : ι → Service} {strategy : Bytes}
  {P : ServicePool ι} {τ : List (ServiceMoment ι)}

/-- The table stays empty, and every thread goes on with the answers of an empty table. -/
theorem idle_reachable (h : Reachable (services faulty etcdAnswers sort service)
    (startServices strategy service) P) :
    P.world.balancer.workers = ∅ ∧ ∀ t, (P.thread t).prog.Given idleAnswers Sparing (service t).Idle := by
  refine Reachable.given (J := RecordsReadable) (I := fun w => w.balancer.workers = ∅) (A := fun _ => idleAnswers)
    (F := fun _ => Sparing) (Q := fun t => (service t).Idle) ?_ ?_ ?_ ?_ ?_ h
  · exact fun P₁ hP₁ _ => (lifeInv_reachable hP₁).2.recordsReadable
  · exact fun t e w r w' hsparing hreadable hempty hs => idle_of_deployed hsparing hreadable hempty hs
  · exact create_workers strategy
  · exact fun t => (service t).given
  · intro t body hbody
    rw [again_code hbody]
    exact (service t).given

/-- No loop writes into a record. -/
theorem unwritten_reachable
    (h : Reachable (services faulty etcdAnswers sort service) (startServices strategy service) P) :
    LifeInv (fun t => (service t).wants) False faulty P.world P.notes := by
  induction h with
  | refl => exact lifeInv_start _ False faulty strategy
  | @tail P₁ P₂ hr hstep ih =>
    obtain ⟨hobey, -⟩ := lifeInv_reachable hr
    cases hstep with
    | exec t hp hs =>
      have hcall := hobey.threads t
      have hidle := (idle_reachable hr).2 t
      rw [hp] at hcall hidle
      rw [notes_update]
      refine (ih.effect hcall.1 ?_ hs).1
      rintro context key field value rfl
      exact hidle.1
    | again t hp hb =>
      have hends := hobey.threads t
      rw [hp] at hends
      have hloop : (service t).again.isSome := by
        rw [show (service t).again = _ from hb]
        rfl
      rw [notes_update]
      exact ih.rest (hends.loop hloop)

/-- No worker is ever listed or shown, and every record is as its submission saved it: no task ever gets a
worker, and each stays pending. -/
theorem nothing_dispatched (h : Reachable (services faulty etcdAnswers sort service)
    (startServices strategy service) P) :
    P.world.balancer.workers = ∅ ∧
    (∀ i value, P.world.redis[taskKey i]? = some value → ∃ t request createdAt info,
      (service t).Submits request ∧
      SubmittedInfo ⟨i, request.type, request.priority, request.data, createdAt⟩ info ∧
      value = .hash (recordFields info)) ∧
    ∀ t reply, (P.thread t).prog = .ret reply → (service t).Idle (.ok reply) := by
  obtain ⟨hempty, hidle⟩ := idle_reachable h
  have hinv := unwritten_reachable h
  refine ⟨hempty, ?_, ?_⟩
  · intro i value hvalue
    obtain ⟨t, fields, ht⟩ := hinv.known.records i (by rw [hvalue]; exact Option.some_ne_none _)
    obtain ⟨request, createdAt, info, f, hservice, hinfo, hevolved, -, rfl⟩ := hinv.recordOf ht hvalue
    exact ⟨t, request, createdAt, info, hservice, hinfo, by rw [hevolved.unwritten id]⟩
  · intro t reply hreply
    have hthread := hidle t
    rwa [hreply] at hthread

theorem etcdAnswers_nothing (key : Bytes) (rangeEnd : Option Bytes) :
    etcdAnswers (.range key rangeEnd)
      (some (([] : List (Bytes × Bytes)).filter fun pair => rangeEnd.isSome || pair.1 = key)) := by
  refine ⟨∅, ∅, rfl, Or.inl ?_⟩
  have hempty : (∅ : EtcdStore).toList = [] := Std.ExtTreeMap.toList_eq_nil_iff.2 rfl
  cases rangeEnd with
  | none => simp [EtcdStore.range, hempty]
  | some rangeEnd => simp [EtcdStore.range, hempty]

/-- A task is submitted, the worker table refreshed, and the task pushed back. -/
theorem nothing_dispatched_pushedBack : ∃ P : ServicePool (Fin 7),
    occurrences P.world.redis (bytes "4198400") = 1 ∧ P.world.balancer.workers = ∅ ∧
      (∀ i value, P.world.redis[taskKey i]? = some value → ∃ t request createdAt info,
        (someServices t).Submits request ∧
        SubmittedInfo ⟨i, request.type, request.priority, request.data, createdAt⟩ info ∧
        value = .hash (recordFields info)) ∧
      ∀ t reply, (P.thread t).prog = .ret reply → (someServices t).Idle (.ok reply) := by
  obtain ⟨⟨τ, P⟩, hrun, hwaits⟩ := Option.map_eq_some_iff.1 some_runs.2.2.2.1
  have hτ : Execution (services True etcdAnswers .stable someServices) startSome _ P :=
    execution_of_play ⟨by decide, by decide⟩ etcdAnswers_nothing ⟨∅, ∅, rfl⟩ .start hrun
  exact ⟨P, hwaits, nothing_dispatched hτ.reachable⟩

/-- Only a submission ends with an exception, and it has then done nothing but ask for an id in vain. -/
theorem services_survive (h : Execution (services faulty etcdAnswers sort service)
    (startServices strategy service) τ P) (t : ι) (x : StdException) (hx : (P.thread t).prog = .throw x) :
    ∃ request m e, service t = .submitTask request ∧ own t τ = [m] ∧ m.event = ⟨.nextId, .error e⟩ := by
  have hidle := (idle_reachable h.reachable).2 t
  rw [hx] at hidle
  cases hservice : service t with
  | submitTask request =>
    refine ⟨request, ?_⟩
    have hdoes := h.does (i := t) (by show (service t).again = none; rw [hservice]; rfl)
    rw [hx] at hdoes
    have hcode : ((startServices strategy service).thread t).prog = (Service.submitTask request).code := by
      show (service t).code = _
      rw [hservice]
    rw [hcode] at hdoes
    obtain ⟨m, e, hown, hevent⟩ := submission_throws hdoes
    exact ⟨m, e, rfl, hown, hevent⟩
  | getWorkers => rw [hservice] at hidle; cases hidle
  | getStats stats =>
    rw [hservice] at hidle
    obtain ⟨_, hcontra, -⟩ := hidle
    cases hcontra
  | connection buffered later =>
    rw [hservice] at hidle
    obtain ⟨_, hcontra, -⟩ := hidle
    cases hcontra
  | _ =>
    rw [hservice] at hidle
    obtain ⟨_, hcontra⟩ := hidle
    cases hcontra

/-- The clock is turned back between two submissions. -/
theorem services_survive_clock : ∃ (τ : List (ServiceMoment (Fin 7))) (P : ServicePool (Fin 7)) (x : StdException),
    (P.thread 1).prog = .throw x ∧
      ∃ request m e, someServices 1 = .submitTask request ∧ own 1 τ = [m] ∧
      m.event = ⟨.nextId, .error e⟩ := by
  obtain ⟨⟨τ, P⟩, hrun, hrest⟩ := Option.bind_eq_some_iff.1 some_runs.2.2.2.2
  obtain ⟨⟨τ', P'⟩, hrun', hthrown⟩ := Option.map_eq_some_iff.1 hrest
  have hτ : Execution (services True etcdAnswers .stable someServices) startSome _ P :=
    execution_of_play ⟨by decide, by decide⟩ etcdAnswers_nothing ⟨∅, ∅, rfl⟩ .start hrun
  have hτ' := execution_of_play ⟨by decide, by decide⟩ etcdAnswers_nothing ⟨∅, ∅, rfl⟩ hτ hrun'
  obtain ⟨x, hx⟩ : ∃ x, (P'.thread 1).prog = .throw x := by
    unfold thrown at hthrown
    split at hthrown
    · rename_i x hprog
      exact ⟨x, hprog⟩
    · cases hthrown
  exact ⟨_, P', x, hx, services_survive hτ' 1 x hx⟩

end Runs

end Taskflow
