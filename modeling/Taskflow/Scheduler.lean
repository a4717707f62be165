import Taskflow.Lib.Threads
import Taskflow.Queues

/-!
# All operations of the dispatcher together

Any number of threads run the operations of `TaskDispatcher` and iterations of `taskDispatchLoop` against one
Redis, with any failures (`schedulerSystem`).  What survives all of that is the shape of the content
(`WellFormed`): the three lists hold texts without NUL, and the keys of tasks hold hashes whose numbers can be read
back.  Every command that an operation can issue is `Tame`, and tame commands keep the shape.
-/

namespace Taskflow

open Text Effects Prog

/-- One call of the dispatcher, or one iteration of the dispatch loop. -/
inductive Operation where
  | submitTask (task : TaskRequest)
  | popNextTask
  | assignTaskToWorker (taskId workerId : Bytes)
  | completeTask (taskId : Bytes) (result : TaskResult)
  | failTask (taskId error : Bytes)
  | retryTask (taskId : Bytes)
  | dispatchIteration

def Operation.code : Operation → Code Unit
  | .submitTask task => do let _ ← Taskflow.submitTask task
  | .popNextTask => do let _ ← Taskflow.popNextTask
  | .assignTaskToWorker taskId workerId => do let _ ← Taskflow.assignTaskToWorker taskId workerId
  | .completeTask taskId result => do let _ ← Taskflow.completeTask taskId result
  | .failTask taskId error => do let _ ← Taskflow.failTask taskId error
  | .retryTask taskId => do let _ ← Taskflow.retryTask taskId
  | .dispatchIteration => taskDispatchIteration

/-- Every thread runs one operation; commands and connections may fail. -/
def schedulerSystem (ι : Type) : System ι Effect Effect.Answer StdException Unit Keyspace Unit where
  sem := served True
  observe _ _ := ()
  fresh := ()
  again _ := none

/-- An empty Redis, and no operation has started. -/
def schedulerStart {ι : Type} (operation : ι → Operation) :
    Pool ι Effect Effect.Answer StdException Unit Keyspace Unit where
  world := ∅
  thread i := ⟨(operation i).code, ()⟩

/-! ### The shape of the content -/

structure WellFormed (w : Keyspace) : Prop where
  queues : ∀ q ∈ queueKeys, IsQueue w q
  items : ∀ q ∈ queueKeys, ∀ x ∈ queueItems w q, 0 ∉ x
  records : ∀ i v, w[taskKey i]? = some v → ∃ h, v = .hash h ∧ Readable h

/-- The commands that the dispatcher issues. -/
def Tame : Command → Prop
  | .hmset key fields => ∃ task, key = taskKey task.id ∧ fields = (recordFields task).toList
  | .rpush key value => key ∈ queueKeys ∧ 0 ∉ value
  | .lpop key => key ∈ queueKeys
  | .hset key field value => (∃ i, key = taskKey i) ∧ (field ∈ numberFields → ∃ n : Int64,
      value = decimal n.toInt)
  | .setex key _ _ => key ∉ queueKeys ∧ ∀ i, key ≠ taskKey i
  | .incr key => ∃ v, key = workerLoadKey v
  | .incrby key _ => ∃ v, key = workerLoadKey v
  | _ => True

theorem WellFormed.empty : WellFormed ∅ := by
  constructor <;> simp [IsQueue, queueItems]

/-- A command on another key than those of queues and tasks. -/
theorem WellFormed.frame {w w' : Keyspace} (h : WellFormed w) (hq : ∀ q ∈ queueKeys, w'[q]? = w[q]?)
    (hi : ∀ i, w'[taskKey i]? = w[taskKey i]?) : WellFormed w' := by
  constructor
  · intro q hm
    exact isQueue_congr (hq q hm) (h.queues q hm)
  · intro q hm x hx
    rw [queueItems_congr (hq q hm)] at hx
    exact h.items q hm x hx
  · intro i v hv
    rw [hi] at hv
    exact h.records i v hv

theorem WellFormed.outside {w : Keyspace} (h : WellFormed w) {cmd : Command} (hq : cmd.key ∉ queueKeys)
    (hi : ∀ i, cmd.key ≠ taskKey i) : WellFormed (exec cmd w).2 := by
  apply h.frame
  · intro q hm
    apply exec_frame
    rintro rfl
    exact hq hm
  · intro i
    exact exec_frame cmd w (hi i)

/-- A command on the record of a task that stores numbers only as decimals. -/
theorem WellFormed.recorded {w w' : Keyspace} {i : Bytes} (h : WellFormed w)
    (hw : ∀ a, taskKey i ≠ a → w'[a]? = w[a]?)
    (hr : ∀ v, w'[taskKey i]? = some v → ∃ f, v = .hash f ∧ Readable f) : WellFormed w' := by
  have hq : ∀ q ∈ queueKeys, w'[q]? = w[q]? := fun q hm => hw q (taskKey_ne_queue hm i)
  constructor
  · intro q hm
    exact isQueue_congr (hq q hm) (h.queues q hm)
  · intro q hm x hx
    rw [queueItems_congr (hq q hm)] at hx
    exact h.items q hm x hx
  · intro j v hv
    by_cases he : i = j
    · subst he
      exact hr v hv
    · rw [hw _ (by simpa using he)] at hv
      exact h.records j v hv

private theorem storeFields_readable {f : StringMap Bytes} (hf : Readable f) {l : List (Bytes × Bytes)}
    (hl : ∀ p ∈ l, p.1 ∈ numberFields → ∃ n : Int64, p.2 = decimal n.toInt) : Readable (storeFields f l) := by
  induction l generalizing f with
  | nil => exact hf
  | cons p l ih =>
    apply ih (hf.insert (hl p (by simp)))
    intro p' hp'
    exact hl p' (by simp [hp'])

private theorem readable_empty : Readable ∅ := by
  intro f _ v hv
  simp at hv

theorem WellFormed.hset {w : Keyspace} (h : WellFormed w) {i field value : Bytes}
    (hv : field ∈ numberFields → ∃ n : Int64, value = decimal n.toInt) :
    WellFormed (exec (.hset (taskKey i) field value) w).2 := by
  refine h.recorded (i := i) (fun a ha => exec_frame _ w ha) ?_
  intro v hr
  cases hw : w[taskKey i]? with
  | none =>
    simp only [exec, hw, getElem?_insert, if_true, Option.some.injEq] at hr
    exact ⟨_, hr.symm, readable_empty.insert hv⟩
  | some u =>
    obtain ⟨f, rfl, hf⟩ := h.records i u hw
    rw [exec_hset hw, getElem?_insert, if_pos rfl] at hr
    exact ⟨_, (Option.some.inj hr).symm, hf.insert hv⟩

theorem WellFormed.hmset {w : Keyspace} (h : WellFormed w) (task : TaskInfo) :
    WellFormed (exec (.hmset (taskKey task.id) (recordFields task).toList) w).2 := by
  have hfields : ∀ p ∈ (recordFields task).toList, p.1 ∈ numberFields → ∃ n : Int64,
      p.2 = decimal n.toInt := by
    rintro ⟨f, v⟩ hp hf
    rw [Std.ExtTreeMap.mem_toList_iff_getElem?_eq_some] at hp
    exact (recordFields_record task).numbers f hf v hp
  refine h.recorded (i := task.id) (fun a ha => exec_frame _ w ha) ?_
  intro v hr
  cases hw : w[taskKey task.id]? with
  | none =>
    simp only [exec, hw, getElem?_insert, if_true, Option.some.injEq] at hr
    exact ⟨_, hr.symm, storeFields_readable readable_empty hfields⟩
  | some u =>
    obtain ⟨f, rfl, hf⟩ := h.records task.id u hw
    simp only [exec, hw, getElem?_insert, if_true, Option.some.injEq] at hr
    exact ⟨_, hr.symm, storeFields_readable hf hfields⟩

/-- A command on a list: records stay, and what comes to the list must be free of NUL. -/
theorem WellFormed.queued {w w' : Keyspace} {q : Bytes} (h : WellFormed w) (hq : q ∈ queueKeys)
    (hw : ∀ a, q ≠ a → w'[a]? = w[a]?) (hlist : IsQueue w' q) (hitems : ∀ x ∈ queueItems w' q, 0 ∉ x) :
    WellFormed w' := by
  constructor
  · intro q' hm
    by_cases he : q = q'
    · subst he
      exact hlist
    · exact isQueue_congr (hw q' he) (h.queues q' hm)
  · intro q' hm x hx
    by_cases he : q = q'
    · subst he
      exact hitems x hx
    · rw [queueItems_congr (hw q' he)] at hx
      exact h.items q' hm x hx
  · intro i v hv
    rw [hw _ (taskKey_ne_queue hq i).symm] at hv
    exact h.records i v hv

theorem WellFormed.rpush {w : Keyspace} (h : WellFormed w) {q x : Bytes} (hq : q ∈ queueKeys) (hx : 0 ∉ x) :
    WellFormed (exec (.rpush q x) w).2 := by
  have hlist := exec_rpush (h.queues q hq) x
  refine h.queued hq (fun a ha => exec_frame _ w ha) ?_ ?_
  · intro v hv
    rw [hlist] at hv
    exact ⟨_, (Option.some.inj hv).symm⟩
  · intro y hy
    simp only [queueItems, hlist, List.mem_append, List.mem_singleton] at hy
    rcases hy with hy | rfl
    · exact h.items q hq y hy
    · exact hx

theorem WellFormed.lpop {w : Keyspace} (h : WellFormed w) {q : Bytes} (hq : q ∈ queueKeys) :
    WellFormed (exec (.lpop q) w).2 := by
  rcases exec_lpop (h.queues q hq) with ⟨x, -, hitems, hlist⟩ | ⟨-, hw, -⟩
  · refine h.queued hq (fun a ha => exec_frame _ w ha) hlist ?_
    intro y hy
    exact h.items q hq y (by rw [hitems]; exact List.mem_cons_of_mem _ hy)
  · rw [hw]
    exact h

/-- Tame commands keep the shape. -/
theorem WellFormed.exec {w : Keyspace} (h : WellFormed w) {cmd : Command} (ht : Tame cmd) :
    WellFormed (exec cmd w).2 := by
  have hload : ∀ v, workerLoadKey v ∉ queueKeys := fun v hq => workerLoadKey_ne_queue hq v rfl
  have hreads : ∀ cmd : Command, cmd.reads = true → WellFormed (Taskflow.exec cmd w).2 := by
    intro cmd hcmd
    rw [exec_reads hcmd]
    exact h
  cases cmd with
  | hmset key fields =>
    obtain ⟨task, rfl, rfl⟩ := ht
    exact h.hmset task
  | rpush key value => exact h.rpush ht.1 ht.2
  | lpop key => exact h.lpop ht
  | hset key field value =>
    obtain ⟨⟨i, rfl⟩, hv⟩ := ht
    exact h.hset hv
  | setex key n value => exact h.outside ht.1 ht.2
  | incr key =>
    obtain ⟨v, rfl⟩ := ht
    exact h.outside (hload v) (workerLoadKey_ne_taskKey v)
  | incrby key n =>
    obtain ⟨v, rfl⟩ := ht
    exact h.outside (hload v) (workerLoadKey_ne_taskKey v)
  | get key => exact hreads _ rfl
  | hget key field => exact hreads _ rfl
  | hgetall key => exact hreads _ rfl
  | llen key => exact hreads _ rfl

/-- Effects of the dispatcher. -/
def TameEffect : Effect → Prop
  | .command _ cmd => Tame cmd
  | _ => True

theorem WellFormed.step {w w' : Keyspace} (h : WellFormed w) {faulty : Prop} {e : Effect} {r : e.Answer}
    (ht : TameEffect e) (hs : served faulty e w r w') : WellFormed w' := by
  rcases (served_serves faulty).changes hs with rfl | ⟨context, cmd, rfl, rfl⟩
  · exact h
  · exact h.exec ht

/-! ### What an operation may write -/

/-- What `updateTaskStatus` may write. -/
def StatusWrites (taskId : Bytes) (status : Int32) (errorMsg : Bytes) (cmd : Command) : Prop :=
  cmd = .hset (taskKey (cStr taskId)) (bytes "status") (decimal status.toInt) ∨
    (errorMsg ≠ [] ∧ cmd = .hset (taskKey (cStr taskId)) (bytes "error_message") (cStr errorMsg)) ∨
    ∃ now : Int64, cmd = .hset (taskKey (cStr taskId)) (bytes "finished_at") (decimal now.toInt)

/-- What `assignTaskToWorker` may write. -/
def AssignWrites (taskId workerId : Bytes) (cmd : Command) : Prop :=
  cmd = .hset (taskKey (cStr taskId)) (bytes "status") (bytes "1") ∨
    cmd = .hset (taskKey (cStr taskId)) (bytes "worker_id") (cStr workerId) ∨
    (∃ now : Int64, cmd = .hset (taskKey (cStr taskId)) (bytes "started_at") (decimal now.toInt)) ∨
    cmd = .incr (workerLoadKey (cStr workerId))

/-- The record that `submitTask` saves. -/
structure SubmittedInfo (task : TaskRequest) (info : TaskInfo) : Prop where
  id : info.id = task.id
  type : info.type = task.type
  priority : info.priority = task.priority
  data : info.data = task.data
  createdAt : info.createdAt = task.createdAt
  status : info.status = 0
  retryCount : info.retryCount = 0
  errorMessage : info.errorMessage = []
  result : info.result = []

/-- The commands that an operation may issue, besides those that only read. -/
def Operation.Writes : Operation → Command → Prop
  | .submitTask task, cmd =>
    (∃ info, SubmittedInfo task info ∧ cmd = .hmset (taskKey task.id) (recordFields info).toList) ∨
      cmd = .rpush (queueOf task.priority) (cStr task.id)
  | .popNextTask, cmd => ∃ q ∈ queueKeys, cmd = .lpop q
  | .assignTaskToWorker taskId workerId, cmd => AssignWrites taskId workerId cmd
  | .completeTask taskId result, cmd =>
    StatusWrites taskId 2 [] cmd ∨ cmd = .hset (taskKey (cStr taskId)) (bytes "result") (cStr result.result) ∨
      ∃ v, cmd = .incrby (workerLoadKey (cStr v)) (-1)
  | .failTask taskId error, cmd => StatusWrites taskId 3 error cmd ∨ ∃ v,
      cmd = .incrby (workerLoadKey (cStr v)) (-1)
  | .retryTask taskId, cmd =>
    (∃ n : Int32, cmd = .hset (taskKey (cStr taskId)) (bytes "retry_count") (decimal n.toInt)) ∨
      (∃ v, cmd = .incrby (workerLoadKey (cStr v)) (-1)) ∨
      (∃ n : Int32, cmd = .setex (cStr (bytes "retry:" ++ decimal n.toInt ++ bytes ":" ++ taskId)) n
        (cStr taskId)) ∨
      ∃ p, cmd = .rpush (queueOf p) (cStr taskId)
  | .dispatchIteration, cmd =>
    (∃ q ∈ queueKeys, cmd = .lpop q) ∨ (∃ p i, cmd = .rpush (queueOf p) (cStr i)) ∨ ∃ i v,
      AssignWrites i v cmd

/-- Of the commands that do not only read, only those in `C` are issued. -/
def Issues (C : Command → Prop) : Effect → Prop
  | .command _ cmd => cmd.reads = true ∨ C cmd
  | _ => True

/-- The same, and neither the pool nor the balancer is called. -/
def Local (C : Command → Prop) : Effect → Prop
  | .command _ cmd => cmd.reads = true ∨ C cmd
  | .systemClock => True
  | .indeterminate => True
  | _ => False

/-- Every command is in `A`, and neither the pool nor the balancer is called. -/
def Only (A : Command → Prop) : Effect → Prop
  | .command _ cmd => A cmd
  | .systemClock => True
  | .indeterminate => True
  | _ => False

theorem local_eq_only (C : Command → Prop) : Local C = Only fun cmd => cmd.reads = true ∨ C cmd := by
  funext e
  cases e <;> rfl

theorem local_of_only {α : Type} {C : Command → Prop} {p : Code α}
    (h : p.Every (Only fun cmd => cmd.reads = true ∨ C cmd)) : p.Every (Local C) := by
  rwa [local_eq_only]

/-- Every command is in `A`. -/
def Commands (A : Command → Prop) : Effect → Prop
  | .command _ cmd => A cmd
  | _ => True

theorem commands_of_only {α : Type} {A : Command → Prop} {p : Code α} (hp : p.Every (Only A)) :
    p.Every (Commands A) := by
  refine hp.mono ?_
  intro e he
  cases e with
  | command context cmd => exact he
  | _ => trivial

theorem commands_mono {α : Type} {A B : Command → Prop} {p : Code α} (hp : p.Every (Commands A))
    (h : ∀ cmd, A cmd → B cmd) : p.Every (Commands B) := by
  refine hp.mono ?_
  intro e he
  cases e with
  | command context cmd => exact h cmd he
  | _ => trivial

theorem issues_of_local {α : Type} {C : Command → Prop} {p : Code α} (h : p.Every (Local C)) :
    p.Every (Issues C) := by
  refine h.mono ?_
  intro e he
  cases e with
  | command context cmd => exact he
  | _ => trivial

theorem issues_mono {α : Type} {C C' : Command → Prop} {p : Code α} (hp : p.Every (Issues C))
    (h : ∀ cmd, C cmd → C' cmd) : p.Every (Issues C') := by
  refine hp.mono ?_
  intro e he
  cases e with
  | command context cmd => exact he.imp_right (h cmd)
  | _ => trivial

/-- What the commands of `C` keep, a program that issues no others keeps. -/
theorem post_issues {α : Type} {S : Semantics Effect Effect.Answer Keyspace} (hS : Serves S) {C : Command → Prop}
    {K : Keyspace → Keyspace → Prop} (hrefl : ∀ w, K w w) (htrans : ∀ {w w' w''}, K w w' →
      K w' w'' → K w w'')
    (hexec : ∀ cmd w, C cmd → K w (exec cmd w).2) {p : Code α} (hp : p.Every (Issues C)) (w : Keyspace) :
    Post S p (fun _ w' => K w w') w := by
  refine wp.every hrefl htrans ?_ hp w
  intro e w r w' he hs
  rcases hS.changes hs with rfl | ⟨context, cmd, rfl, rfl⟩
  · exact hrefl _
  · rcases he with hreads | hC
    · rw [exec_reads hreads]
      exact hrefl w
    · exact hexec cmd w hC

section Footprints

variable {redis : RedisClient} {α : Type} {A C : Command → Prop}

private theorem guarded_only {b : Bool} {a : α} {p : Code α} (hp : p.Every (Only A)) :
    (if b = true then ret a else p).Every (Only A) := by
  cases b with
  | false => exact hp
  | true => trivial

private theorem command_only {cmd : Command} {f : Option Reply → α} (h : A cmd) :
    (do let reply ← command redis cmd; return f reply : Code α).Every (Only A) :=
  ⟨h, fun _ => trivial⟩

theorem get_only {key : Bytes} (h : A (.get (cStr key))) : (redis.get key).Every (Only A) :=
  guarded_only (command_only h)

theorem hget_only {key field : Bytes} (h : A (.hget (cStr key) (cStr field))) :
    (redis.hget key field).Every (Only A) :=
  guarded_only (command_only h)

theorem hgetall_only {key : Bytes} (h : A (.hgetall (cStr key))) : (redis.hgetall key).Every (Only A) :=
  guarded_only (command_only h)

theorem lpop_only {key : Bytes} (h : A (.lpop (cStr key))) : (redis.lpop key).Every (Only A) :=
  guarded_only (command_only h)

theorem rpush_only {key value : Bytes} (h : A (.rpush (cStr key) (cStr value))) :
    (redis.rpush key value).Every (Only A) :=
  guarded_only (command_only h)

theorem hset_only {key field value : Bytes} (h : A (.hset (cStr key) (cStr field) (cStr value))) :
    (redis.hset key field value).Every (Only A) :=
  guarded_only (command_only h)

/-- A field of a task's record, under a name without NUL. -/
theorem hset_record_only {taskId field value : Bytes} (hf : 0 ∉ field)
    (h : A (.hset (taskKey (cStr taskId)) field (cStr value))) :
    (redis.hset (taskKey taskId) field value).Every (Only A) :=
  hset_only (by rwa [cStr_taskKey_eq, cStr_of_noNul hf])

theorem hset_number_only {taskId field : Bytes} {n : Int} (hf : 0 ∉ field)
    (h : A (.hset (taskKey (cStr taskId)) field (decimal n))) :
    (redis.hset (taskKey taskId) field (decimal n)).Every (Only A) :=
  hset_record_only hf (by rwa [cStr_of_noNul (noNul_decimal n)])

theorem incr_only {v : Bytes} (h : A (.incr (workerLoadKey (cStr v)))) :
    (redis.incr (workerLoadKey v)).Every (Only A) :=
  guarded_only (command_only (by rwa [cStr_workerLoadKey_eq]))

theorem incrby_only {v : Bytes} {n : Int} (h : A (.incrby (workerLoadKey (cStr v)) n)) :
    (redis.incrby (workerLoadKey v) n).Every (Only A) :=
  guarded_only (command_only (by rwa [cStr_workerLoadKey_eq]))

theorem setex_only {key value : Bytes} {n : Int32} (h : A (.setex (cStr key) n (cStr value))) :
    (redis.setex key value n).Every (Only A) :=
  guarded_only (command_only h)

theorem hmset_only {key : Bytes} {fields : StringMap Bytes} (h : A (.hmset key fields.toList)) :
    (redis.hmset key fields).Every (Only A) :=
  guarded_only (command_only h)

/-- The strings of a declared record are empty. -/
theorem declareTaskInfo_bind (f : TaskInfo → Code α) : (declareTaskInfo >>= f) =
    .call .indeterminate fun stack => f { stack with id := [], data := [], errorMessage := [], result := [] } := rfl

theorem declareTaskInfo_only : declareTaskInfo.Every (Only A) := ⟨trivial, fun _ => trivial⟩

theorem getTask_only {i : Bytes} (h : A (.hgetall (taskKey (cStr i)))) : (redis.getTask i).Every (Only A) := by
  refine .bind declareTaskInfo_only fun declared => .bind (hgetall_only (by rwa [cStr_taskKey_eq])) fun fields => ?_
  split
  · trivial
  · exact .ofExcept _

theorem updateTaskStatus_only {i errorMsg : Bytes} {status : Int32}
    (h : ∀ cmd, StatusWrites i status errorMsg cmd → A cmd) :
    (redis.updateTaskStatus i status errorMsg).Every (Only A) := by
  have hfinished : (do
      if (decide (status = 2) || decide (status = 3)) = true then
        let now ← systemClock
        let _ ← redis.hset (taskKey i) (bytes "finished_at") (decimal now.toInt)
      return true : Code Bool).Every (Only A) := by
    split
    · refine .bind ⟨trivial, fun _ => trivial⟩ fun now => .bind ?_ fun _ => trivial
      exact hset_number_only (by decide) (h _ (Or.inr (Or.inr ⟨now, rfl⟩)))
    · trivial
  refine .bind (hset_number_only (by decide) (h _ (Or.inl rfl))) fun _ => ?_
  dsimp only
  split
  · rename_i hmsg
    refine .bind (hset_record_only (by decide) (h _ (Or.inr (Or.inl ⟨?_, rfl⟩)))) fun _ => hfinished
    simpa using hmsg
  · exact hfinished

theorem pushToPriorityQueue_only {p : Int32} {x : Bytes} (h : A (.rpush (queueOf p) (cStr x))) :
    (redis.pushToPriorityQueue p x).Every (Only A) :=
  rpush_only (by rwa [cStr_queue (queueOf_mem p)])

theorem popFromPriorityQueue_only (h : ∀ q ∈ queueKeys, A (.lpop q)) :
    redis.popFromPriorityQueue.Every (Only A) := by
  have hlpop : ∀ q ∈ queueKeys, (redis.lpop q).Every (Only A) := by
    intro q hq
    exact lpop_only (by rw [cStr_queue hq]; exact h q hq)
  refine .bind (hlpop _ (by simp [queueKeys])) fun i => ?_
  split
  · trivial
  refine .bind (hlpop _ (by simp [queueKeys])) fun i => ?_
  split
  · trivial
  · exact hlpop _ (by simp [queueKeys])

theorem incrementWorkerLoad_only {v : Bytes} (h : A (.incr (workerLoadKey (cStr v)))) :
    (redis.incrementWorkerLoad v).Every (Only A) :=
  .bind (incr_only h) fun _ => trivial

theorem decrementWorkerLoad_only {v : Bytes} (hget : A (.get (workerLoadKey (cStr v))))
    (h : A (.incrby (workerLoadKey (cStr v)) (-1))) : (redis.decrementWorkerLoad v).Every (Only A) := by
  refine .bind (get_only (by rwa [cStr_workerLoadKey_eq])) fun text => .bind (.ofExcept _) fun load => ?_
  dsimp only
  split
  · exact .bind (incrby_only h) fun _ => trivial
  · trivial

theorem getWorkerLoad_only {v : Bytes} (h : A (.get (workerLoadKey (cStr v)))) :
    (redis.getWorkerLoad v).Every (Only A) :=
  .bind (get_only (by rwa [cStr_workerLoadKey_eq])) fun _ => .ofExcept _

theorem incrementTaskRetry_only {i : Bytes} (hget : A (.hget (taskKey (cStr i)) (bytes "retry_count")))
    (h : ∀ n : Int32, A (.hset (taskKey (cStr i)) (bytes "retry_count") (decimal n.toInt))) :
    (redis.incrementTaskRetry i).Every (Only A) := by
  have hfield : cStr (bytes "retry_count") = bytes "retry_count" := cStr_bytes (by decide)
  refine .bind (hget_only (by rwa [cStr_taskKey_eq, hfield])) fun _ => .bind (.ofExcept _) fun retry => ?_
  exact hset_number_only (by decide) (h (retry + 1))

theorem hget_local (key field : Bytes) : (redis.hget key field).Every (Local C) :=
  local_of_only (hget_only (Or.inl rfl))

theorem hset_local {key field value : Bytes} (h : C (.hset (cStr key) (cStr field) (cStr value))) :
    (redis.hset key field value).Every (Local C) :=
  local_of_only (hset_only (Or.inr h))

theorem hset_record_local {taskId field value : Bytes} (hf : 0 ∉ field)
    (h : C (.hset (taskKey (cStr taskId)) field (cStr value))) :
    (redis.hset (taskKey taskId) field value).Every (Local C) :=
  local_of_only (hset_record_only hf (Or.inr h))

theorem hset_number_local {taskId field : Bytes} {n : Int} (hf : 0 ∉ field)
    (h : C (.hset (taskKey (cStr taskId)) field (decimal n))) :
    (redis.hset (taskKey taskId) field (decimal n)).Every (Local C) :=
  local_of_only (hset_number_only hf (Or.inr h))

theorem setex_local {key value : Bytes} {n : Int32} (h : C (.setex (cStr key) n (cStr value))) :
    (redis.setex key value n).Every (Local C) :=
  local_of_only (setex_only (Or.inr h))

theorem getTask_local (i : Bytes) : (redis.getTask i).Every (Local C) := local_of_only (getTask_only (Or.inl rfl))

theorem saveTask_local {task : TaskInfo} (h : C (.hmset (taskKey task.id) (recordFields task).toList)) :
    (redis.saveTask task).Every (Local C) :=
  local_of_only (hmset_only (Or.inr h))

theorem updateTaskStatus_local {i errorMsg : Bytes} {status : Int32}
    (h : ∀ cmd, StatusWrites i status errorMsg cmd → C cmd) :
    (redis.updateTaskStatus i status errorMsg).Every (Local C) :=
  local_of_only (updateTaskStatus_only fun cmd hcmd => Or.inr (h cmd hcmd))

theorem incrementTaskRetry_local {i : Bytes}
    (h : ∀ n : Int32, C (.hset (taskKey (cStr i)) (bytes "retry_count") (decimal n.toInt))) :
    (redis.incrementTaskRetry i).Every (Local C) :=
  local_of_only (incrementTaskRetry_only (Or.inl rfl) fun n => Or.inr (h n))

theorem pushToPriorityQueue_local {p : Int32} {x : Bytes} (h : C (.rpush (queueOf p) (cStr x))) :
    (redis.pushToPriorityQueue p x).Every (Local C) :=
  local_of_only (pushToPriorityQueue_only (Or.inr h))

theorem popFromPriorityQueue_local (h : ∀ q ∈ queueKeys, C (.lpop q)) :
    redis.popFromPriorityQueue.Every (Local C) :=
  local_of_only (popFromPriorityQueue_only fun q hq => Or.inr (h q hq))

theorem incrementWorkerLoad_local {v : Bytes} (h : C (.incr (workerLoadKey (cStr v)))) :
    (redis.incrementWorkerLoad v).Every (Local C) :=
  local_of_only (incrementWorkerLoad_only (Or.inr h))

theorem decrementWorkerLoad_local {v : Bytes} (h : C (.incrby (workerLoadKey (cStr v)) (-1))) :
    (redis.decrementWorkerLoad v).Every (Local C) :=
  local_of_only (decrementWorkerLoad_only (Or.inl rfl) (Or.inr h))

theorem getWorkerLoad_local (v : Bytes) : (redis.getWorkerLoad v).Every (Local C) :=
  local_of_only (getWorkerLoad_only (Or.inl rfl))

private theorem every_connection {f : Option RedisClient → Code α} (hnone : (f none).Every (Issues C))
    (h : ∀ redis, (f (some redis)).Every (Issues C)) : (getConnection >>= f).Every (Issues C) := by
  refine .bind ⟨trivial, fun _ => trivial⟩ fun r => ?_
  cases r with
  | none => exact hnone
  | some redis => exact h redis

private theorem every_return {a : α} : (do returnConnection redis; return a : Code α).Every (Issues C) :=
  ⟨trivial, fun _ => trivial⟩

theorem submitTask_issues {task : TaskRequest} (h : ∀ cmd, (Operation.submitTask task).Writes cmd → C cmd) :
    (submitTask task).Every (Issues C) := by
  have hsave : ∀ (redis : RedisClient) {info : TaskInfo}, SubmittedInfo task info →
      (redis.saveTask info).Every (Issues C) := by
    intro redis info hinfo
    exact issues_of_local <| saveTask_local (h _ (Or.inl ⟨info, hinfo, by rw [hinfo.id]⟩))
  refine every_connection trivial fun redis => ?_
  dsimp only
  rw [declareTaskInfo_bind]
  refine ⟨trivial, fun stack => ?_⟩
  refine Prog.Every.bind (hsave redis ⟨rfl, rfl, rfl, rfl, rfl, rfl, rfl, rfl, rfl⟩) fun saved => ?_
  cases saved with
  | false => exact every_return
  | true =>
    refine .bind (issues_of_local <| pushToPriorityQueue_local (h _ (Or.inr rfl))) fun pushed => ?_
    cases pushed with
    | false => exact every_return
    | true => exact every_return

theorem popNextTask_issues (h : ∀ q ∈ queueKeys, C (.lpop q)) : popNextTask.Every (Issues C) :=
  every_connection trivial fun _ => .bind (issues_of_local <| popFromPriorityQueue_local h) fun _ => every_return

theorem assignTaskToWorker_issues {taskId workerId : Bytes} (h : ∀ cmd, AssignWrites taskId workerId cmd → C cmd) :
    (assignTaskToWorker taskId workerId).Every (Issues C) := by
  have hone : cStr (bytes "1") = bytes "1" := by decide
  refine every_connection trivial fun redis => .bind (issues_of_local <| getTask_local _) fun task => ?_
  split
  · exact every_return
  refine .bind ⟨trivial, fun _ => trivial⟩ fun now => ?_
  refine .bind (issues_of_local <| hset_record_local (by decide) (by rw [hone]; exact h _ (Or.inl rfl))) fun _ => ?_
  refine .bind (issues_of_local <| hset_record_local (by decide) (h _ (Or.inr (Or.inl rfl)))) fun _ => ?_
  have hnow := h _ (Or.inr (Or.inr (Or.inl ⟨now, rfl⟩)))
  refine .bind (issues_of_local <| hset_number_local (by decide) hnow) fun _ => ?_
  refine .bind (issues_of_local <| incrementWorkerLoad_local (h _ (Or.inr (Or.inr (Or.inr rfl))))) fun _ => ?_
  exact .bind (issues_of_local <| getWorkerLoad_local _) fun load => ⟨trivial, fun _ => every_return⟩

/-- Both reports end by taking the task off its worker, if it has one. -/
theorem report_issues {workerId : Bytes} {report : Code Unit} (hr : report.Every (Issues C))
    (h : ∀ v, C (.incrby (workerLoadKey (cStr v)) (-1))) : (do
      if (!workerId.isEmpty) = true then
        let _ ← redis.decrementWorkerLoad workerId
        let load ← redis.getWorkerLoad workerId
        updateWorkerLoad workerId load
        report
      returnConnection redis
      return true : Code Bool).Every (Issues C) := by
  dsimp only
  split
  · refine .bind (issues_of_local <| decrementWorkerLoad_local (h _)) fun _ => ?_
    refine .bind (issues_of_local <| getWorkerLoad_local _) fun load => ?_
    exact .bind ⟨trivial, fun _ => trivial⟩ fun _ => .bind hr fun _ => every_return
  · exact every_return

theorem completeTask_issues {taskId : Bytes} {result : TaskResult}
    (h : ∀ cmd, (Operation.completeTask taskId result).Writes cmd → C cmd) :
    (completeTask taskId result).Every (Issues C) := by
  refine every_connection trivial fun redis => .bind (issues_of_local <| hget_local _ _) fun workerId => ?_
  refine .bind (issues_of_local <| updateTaskStatus_local fun cmd hcmd => h cmd (Or.inl hcmd)) fun _ => ?_
  refine .bind (issues_of_local <| hset_record_local (by decide) (h _ (Or.inr (Or.inl rfl)))) fun _ => ?_
  exact report_issues ⟨trivial, fun _ => trivial⟩ fun v => h _ (Or.inr (Or.inr ⟨v, rfl⟩))

theorem failTask_issues {taskId error : Bytes} (h : ∀ cmd, (Operation.failTask taskId error).Writes cmd → C cmd) :
    (failTask taskId error).Every (Issues C) := by
  refine every_connection trivial fun redis => .bind (issues_of_local <| hget_local _ _) fun workerId => ?_
  refine .bind (issues_of_local <| updateTaskStatus_local fun cmd hcmd => h cmd (Or.inl hcmd)) fun _ => ?_
  exact report_issues ⟨trivial, fun _ => trivial⟩ fun v => h _ (Or.inr ⟨v, rfl⟩)

/-- What a retry does after it has taken the task off its worker. -/
private theorem every_retry {taskId : Bytes} {retryCount : Int32}
    (h : ∀ cmd, (Operation.retryTask taskId).Writes cmd → C cmd) :
    (redis.requeueRetry taskId retryCount).Every (Issues C) := by
  refine .bind (issues_of_local <| incrementTaskRetry_local fun n => h _ (Or.inl ⟨n, rfl⟩)) fun _ => ?_
  refine .bind (issues_of_local <| getTask_local _) fun task => .bind ⟨trivial, fun _ => trivial⟩ fun _ => ?_
  refine .bind (issues_of_local <| setex_local (h _ (Or.inr (Or.inr (Or.inl ⟨_, rfl⟩))))) fun _ => ?_
  have hpush {p : Int32} := h (.rpush (queueOf p) (cStr taskId)) (Or.inr (Or.inr (Or.inr ⟨_, rfl⟩)))
  exact .bind (issues_of_local <| pushToPriorityQueue_local hpush) fun _ => every_return

theorem retryTask_issues {taskId : Bytes} (h : ∀ cmd, (Operation.retryTask taskId).Writes cmd → C cmd) :
    (retryTask taskId).Every (Issues C) := by
  refine every_connection trivial fun redis => .bind (issues_of_local <| getTask_local _) fun task => ?_
  dsimp only
  split
  · exact every_return
  refine .bind (issues_of_local <| hget_local _ _) fun workerId => ?_
  split
  · refine .bind (issues_of_local <| decrementWorkerLoad_local (h _ (Or.inr (Or.inl ⟨_, rfl⟩)))) fun _ => ?_
    exact .bind (issues_of_local <| getWorkerLoad_local _) fun load => ⟨trivial, fun _ => every_retry h⟩
  · exact every_retry h

/-- What an iteration does with the task that it popped. -/
theorem afterPop_issues {taskId : Bytes} (hpush : ∀ p i, C (.rpush (queueOf p) (cStr i)))
    (hassign : ∀ i v cmd, AssignWrites i v cmd → C cmd) : (do
      if taskId.isEmpty then return ()
      let workerId ← selectWorker taskId
      if workerId.isEmpty then
        let some redis ← getConnection | return ()
        let task ← redis.getTask taskId
        if !task.id.isEmpty then
          let _ ← redis.pushToPriorityQueue task.priority taskId
        returnConnection redis
        return ()
      let _ ← assignTaskToWorker taskId workerId
      return () : Code Unit).Every (Issues C) := by
  split
  · trivial
  refine .bind ⟨trivial, fun _ => trivial⟩ fun workerId => ?_
  split
  · refine every_connection trivial fun redis => .bind (issues_of_local <| getTask_local _) fun task => ?_
    dsimp only
    split
    · exact .bind (issues_of_local <| pushToPriorityQueue_local (hpush _ _)) fun _ => every_return
    · exact every_return
  · exact .bind (assignTaskToWorker_issues (hassign _ _)) fun _ => trivial

theorem taskDispatchIteration_issues (h : ∀ cmd, Operation.dispatchIteration.Writes cmd → C cmd) :
    taskDispatchIteration.Every (Issues C) := by
  refine .bind (popNextTask_issues fun q hq => h _ (Or.inl ⟨q, hq, rfl⟩)) fun taskId => ?_
  refine afterPop_issues (fun p i => h _ (Or.inr (Or.inl ⟨p, i, rfl⟩))) fun i v cmd hcmd => ?_
  exact h cmd (Or.inr (Or.inr ⟨i, v, hcmd⟩))

/-- An operation issues no other commands than its own. -/
theorem Operation.issues (operation : Operation) : operation.code.Every (Issues operation.Writes) := by
  cases operation with
  | submitTask task => exact .bind (submitTask_issues fun _ h => h) fun _ => trivial
  | popNextTask => exact .bind (popNextTask_issues fun q hq => ⟨q, hq, rfl⟩) fun _ => trivial
  | assignTaskToWorker taskId workerId => exact .bind (assignTaskToWorker_issues fun _ h => h) fun _ => trivial
  | completeTask taskId result => exact .bind (completeTask_issues fun _ h => h) fun _ => trivial
  | failTask taskId error => exact .bind (failTask_issues fun _ h => h) fun _ => trivial
  | retryTask taskId => exact .bind (retryTask_issues fun _ h => h) fun _ => trivial
  | dispatchIteration => exact taskDispatchIteration_issues fun _ h => h

end Footprints

/-! ### All of it is tame -/

theorem tame_of_reads {cmd : Command} (h : cmd.reads = true) : Tame cmd := by
  cases cmd with
  | get key => trivial
  | hget key field => trivial
  | hgetall key => trivial
  | llen key => trivial
  | _ => cases h

/-- A key that starts like `retry:` is neither a queue nor the record of a task. -/
theorem retryKey_foreign {key : Bytes} (h : key.head? = some 114) :
    key ∉ queueKeys ∧ ∀ i, key ≠ taskKey i := by
  constructor
  · intro hq
    simp only [queueKeys, List.mem_cons, List.not_mem_nil, or_false] at hq
    rcases hq with he | he | he
    · rw [he] at h; exact absurd h (by decide)
    · rw [he] at h; exact absurd h (by decide)
    · rw [he] at h; exact absurd h (by decide)
  · intro i he
    have htask : (taskKey i).head? = some 116 := rfl
    rw [he, htask] at h
    exact absurd h (by decide)

theorem retryKey_ne_workerLoadKey {key : Bytes} (h : key.head? = some 114) (v : Bytes) : key ≠ workerLoadKey v := by
  intro he
  have hload : (workerLoadKey v).head? = some 119 := rfl
  rw [he, hload] at h
  exact absurd h (by decide)

theorem retryKey_head (n : Int) (taskId : Bytes) :
    (cStr (bytes "retry:" ++ decimal n ++ bytes ":" ++ taskId)).head? = some 114 := by
  rw [List.append_assoc, List.append_assoc, cStr_append (by decide)]
  rfl

private theorem tame_number (i field : Bytes) (n : Int64) : Tame (.hset (taskKey i) field (decimal n.toInt)) :=
  ⟨⟨i, rfl⟩, fun _ => ⟨n, rfl⟩⟩

private theorem tame_int (i field : Bytes) (n : Int32) : Tame (.hset (taskKey i) field (decimal n.toInt)) := by
  rw [← Int32.toInt_toInt64]
  exact tame_number i field n.toInt64

private theorem tame_text (i value : Bytes) {field : Bytes} (hf : field ∉ numberFields) :
    Tame (.hset (taskKey i) field value) :=
  ⟨⟨i, rfl⟩, fun h => absurd h hf⟩

theorem StatusWrites.tame {taskId errorMsg : Bytes} {status : Int32} {cmd : Command}
    (h : StatusWrites taskId status errorMsg cmd) : Tame cmd := by
  rcases h with rfl | ⟨-, rfl⟩ | ⟨now, rfl⟩
  · exact tame_int _ _ status
  · exact tame_text _ _ (by decide)
  · exact tame_number _ _ now

theorem AssignWrites.tame {taskId workerId : Bytes} {cmd : Command} (h : AssignWrites taskId workerId cmd) :
    Tame cmd := by
  rcases h with rfl | rfl | ⟨now, rfl⟩ | rfl
  · exact ⟨⟨_, rfl⟩, fun _ => ⟨1, by decide⟩⟩
  · exact tame_text _ _ (by decide)
  · exact tame_number _ _ now
  · exact ⟨_, rfl⟩

theorem Operation.Writes.tame {operation : Operation} {cmd : Command} (h : operation.Writes cmd) : Tame cmd := by
  cases operation with
  | submitTask task =>
    rcases h with ⟨info, hinfo, rfl⟩ | rfl
    · exact ⟨info, by rw [hinfo.id], rfl⟩
    · exact ⟨queueOf_mem _, noNul_cStr _⟩
  | popNextTask =>
    obtain ⟨q, hq, rfl⟩ := h
    exact hq
  | assignTaskToWorker taskId workerId => exact AssignWrites.tame h
  | completeTask taskId result =>
    rcases h with h | rfl | ⟨v, rfl⟩
    · exact h.tame
    · exact tame_text _ _ (by decide)
    · exact ⟨_, rfl⟩
  | failTask taskId error =>
    rcases h with h | ⟨v, rfl⟩
    · exact h.tame
    · exact ⟨_, rfl⟩
  | retryTask taskId =>
    rcases h with ⟨n, rfl⟩ | ⟨v, rfl⟩ | ⟨n, rfl⟩ | ⟨p, rfl⟩
    · exact tame_int _ _ n
    · exact ⟨_, rfl⟩
    · exact retryKey_foreign (retryKey_head _ _)
    · exact ⟨queueOf_mem _, noNul_cStr _⟩
  | dispatchIteration =>
    rcases h with ⟨q, hq, rfl⟩ | ⟨p, i, rfl⟩ | ⟨i, v, h⟩
    · exact hq
    · exact ⟨queueOf_mem _, noNul_cStr _⟩
    · exact h.tame

theorem tame_of_issues {α : Type} {C : Command → Prop} {p : Code α} (hC : ∀ cmd, C cmd → Tame cmd)
    (hp : p.Every (Issues C)) : p.Every TameEffect := by
  refine hp.mono ?_
  intro e he
  cases e with
  | command context cmd =>
    rcases he with hreads | hwrites
    · exact tame_of_reads hreads
    · exact hC cmd hwrites
  | _ => trivial

theorem Operation.tame (operation : Operation) : operation.code.Every TameEffect :=
  tame_of_issues (fun _ h => h.tame) operation.issues

/-- Every state that the operations can reach, in any interleaving and with any failures, is well formed. -/
theorem wellFormed_of_reachable {ι : Type} [DecidableEq ι] {operation : ι → Operation}
    {P : Pool ι Effect Effect.Answer StdException Unit Keyspace Unit}
    (hr : Reachable (schedulerSystem ι) (schedulerStart operation) P) : WellFormed P.world := by
  have hout : ∀ {p : Code Unit} {i : ι}, p.Every TameEffect →
      Outline (schedulerSystem ι) (fun w _ => WellFormed w) i (fun _ _ => True) p () := by
    intro p i hp
    apply Outline.of_every hp
    intro e w r w' ht hw hs
    exact hw.step ht hs
  have hstart : Outlined (schedulerSystem ι) (fun w _ => WellFormed w) (fun _ _ _ => True)
      (schedulerStart operation) := by
    constructor
    · exact WellFormed.empty
    · exact fun i => hout (operation i).tame
    · exact fun _ _ hb => nomatch hb
    · exact fun _ _ _ _ _ hw _ => hw
  exact (hstart.reachable hr).inv

end Taskflow
