import Taskflow.TaskRecords
import Taskflow.RetryBackoff

/-!
# Operations on a task that does not exist

`assignTaskToWorker` and `retryTask` look at what `getTask` returns, which has the id that was asked for even
when there is no record, and whose other members then have no determined value.  `completeTask` and `failTask`
do not look at all.  So an operation on an unknown task refuses only for the empty id, or where an indeterminate
retry count happens to be 3 or more (`unknown_refused_iff`); otherwise it creates a partial record.
-/

namespace Taskflow

open Text Effects Prog

/-- An operation on a task that was submitted. -/
inductive TaskOperation where
  | assignTaskToWorker (workerId : Bytes)
  | completeTask (result : TaskResult)
  | failTask (error : Bytes)
  | retryTask

def TaskOperation.code (taskId : Bytes) : TaskOperation → Code Bool
  | .assignTaskToWorker workerId => Taskflow.assignTaskToWorker taskId workerId
  | .completeTask result => Taskflow.completeTask taskId result
  | .failTask error => Taskflow.failTask taskId error
  | .retryTask => Taskflow.retryTask taskId

/-- Calls that change the load balancer. -/
def ChangesBalancer : Effect → Prop
  | .updateWorkerLoad _ _ => True
  | .recordSuccess _ => True
  | .recordFailure _ => True
  | _ => False

/-- The delay `1 << retry_count` is used by this command alone. -/
def SetsDelay (e : Effect) : Prop := ∃ context key seconds value, e = .command context (.setex key seconds value)

/-- The operation returns `false` and has changed nothing. -/
structure Refused (w : Keyspace) (τ : Trace) (o : Except StdException Bool) (w' : Keyspace) : Prop where
  result : o = .ok false
  content : w' = w
  balancer : ∀ event ∈ τ, ¬ ChangesBalancer event.1
  delay : ∀ event ∈ τ, ¬ SetsDelay event.1

/-- What the members of the first local `TaskInfo` held. -/
def firstStack (τ : Trace) : Option TaskInfo :=
  τ.findSome? fun
    | ⟨.indeterminate, stack⟩ => some stack
    | _ => none

/-- When an operation refuses an unknown task. -/
def TaskOperation.Refuses (taskId : Bytes) (τ : Trace) : TaskOperation → Prop
  | .assignTaskToWorker _ => taskId = []
  | .completeTask _ => False
  | .failTask _ => False
  | .retryTask => ∃ stack, firstStack τ = some stack ∧ 3 ≤ stack.retryCount

/-! ### Records that appear -/

section Present

variable {w : Keyspace} {key : Bytes} {α : Type} {redis : RedisClient} {taskId : Bytes}

def NoLpop (cmd : Command) : Prop := ∀ key, cmd ≠ .lpop key

private theorem execIncrby_present {n : Int} (h : (w[key]?).isSome) : ((execIncrby key n w).2[key]?).isSome := by
  unfold execIncrby
  split
  · rename_i hnone
    rw [hnone] at h
    cases h
  · split
    · dsimp only
      split
      · simp
      · exact h
    · exact h
  · exact h

theorem exec_present {cmd : Command} (hcmd : NoLpop cmd) (h : (w[key]?).isSome) :
    ((exec cmd w).2[key]?).isSome := by
  by_cases hkey : cmd.key = key
  · subst hkey
    obtain ⟨v, hv⟩ := Option.isSome_iff_exists.1 h
    cases hreads : cmd.reads with
    | true => rwa [exec_reads hreads]
    | false =>
      cases cmd with
      | lpop key => exact absurd rfl (hcmd key)
      | incr key => exact execIncrby_present h
      | incrby key n => exact execIncrby_present h
      | get key => cases hreads
      | hget key field => cases hreads
      | hgetall key => cases hreads
      | llen key => cases hreads
      | setex key seconds value =>
        simp only [exec, Command.key] at h ⊢
        split
        · simp
        · exact h
      | _ =>
        simp only [Command.key] at hv
        cases v <;> simp [exec, Command.key, hv]
  · rw [exec_frame cmd w hkey]
    exact h

/-- Only `LPOP` removes a key. -/
theorem post_present {p : Code α} (hp : p.Every (Issues NoLpop)) (h : (w[key]?).isSome) :
    Post answered p (fun _ w' => (w'[key]?).isSome) w := by
  have hkeep := post_issues answered_serves (K := fun w w' => (w[key]?).isSome → (w'[key]?).isSome) (fun _ h => h)
    (fun h h' hw => h' (h hw)) (fun _ _ hcmd hw => exec_present hcmd hw) hp w
  exact hkeep.mono fun _ _ hw => hw h

/-- The first `HSET` on an unknown task creates its record. -/
theorem post_creates (hc : redis.connected = true) (hfresh : FreshId w taskId) {field value : Bytes}
    {f : Bool → Code α} (hp : (redis.hset (taskKey taskId) field value >>= f).Every (Issues NoLpop)) :
    Post answered (redis.hset (taskKey taskId) field value >>= f) (fun _ w' => ¬ FreshId w' taskId) w := by
  rw [hset_eq hc, cStr_taskKey_eq] at hp ⊢
  intro r w' hs
  obtain ⟨rfl, rfl⟩ := hs
  have hcreated :
      ((exec (.hset (taskKey (cStr taskId)) (cStr field) (cStr value)) w).2[taskKey (cStr taskId)]?).isSome := by
    simp only [exec, show w[taskKey (cStr taskId)]? = none from hfresh]
    simp
  refine (post_present (hp.2 _) hcreated).mono ?_
  intro o w' hpresent hnone
  rw [show w'[taskKey (cStr taskId)]? = none from hnone] at hpresent
  cases hpresent

end Present

/-! ### The operations -/

section Operations

variable {w : Keyspace} {α : Type} {redis : RedisClient} {taskId : Bytes}

theorem recordText_fresh (hfresh : FreshId w taskId) (field : Bytes) : recordText w (cStr taskId) field = [] := by
  simp only [recordText, show w[taskKey (cStr taskId)]? = none from hfresh]

/-- `getTask` of an unknown task, with its events. -/
theorem wp_getTask_fresh (hc : redis.connected = true) (hfresh : FreshId w taskId) :
    wp answered (redis.getTask taskId) (fun τ o w' => w' = w ∧ ∃ stack r,
      τ = [⟨.indeterminate, stack⟩, ⟨.command redis.context (.hgetall (taskKey (cStr taskId))), r⟩] ∧
      o = .ok { stack with id := taskId, data := [], errorMessage := [], result := [] }) w := by
  rw [RedisClient.getTask, hgetall_eq hc, cStr_taskKey_eq]
  intro stack w₁ hstack
  obtain rfl : w₁ = w := hstack
  intro r w₂ hs
  obtain ⟨rfl, rfl⟩ := hs
  have hnone : replyFields (some (exec (.hgetall (taskKey (cStr taskId))) w₁).1) = ∅ := by
    simp only [exec, show w₁[taskKey (cStr taskId)]? = none from hfresh, replyFields, pairElements]
  dsimp only
  rw [hnone]
  exact ⟨exec_hgetall _ w₁, stack, _, rfl, rfl⟩

theorem wp_assignTaskToWorker_fresh (hfresh : FreshId w taskId) (workerId : Bytes) :
    wp answered (assignTaskToWorker taskId workerId) (fun τ o w' =>
      if taskId = [] then Refused w τ o w' else ¬ FreshId w' taskId) w := by
  have hall : (assignTaskToWorker taskId workerId).Every (Issues NoLpop) := by
    refine assignTaskToWorker_issues fun cmd h => ?_
    exact Operation.Writes.noPop (show (Operation.assignTaskToWorker taskId workerId).Writes cmd from h) rfl
  rw [assignTaskToWorker, getConnection_bind] at hall ⊢
  rintro r w ⟨rfl, redis, rfl, hc⟩
  refine wp.bind_every (wp_getTask_fresh hc hfresh) (hall.2 (some redis)) ?_ ?_
  · rintro τ task w' ⟨rfl, stack, r, rfl, ho⟩ hrest
    cases ho
    by_cases hempty : taskId = []
    · subst hempty
      intro _ w₂ hreturn
      obtain rfl : w₂ = w' := hreturn
      refine ⟨rfl, rfl, ?_, ?_⟩
      · simp [ChangesBalancer]
      · simp [SetsDelay]
    · have hne : taskId.isEmpty = false := by simpa using hempty
      dsimp only at hrest ⊢
      rw [hne] at hrest ⊢
      intro now w₂ hclock
      obtain rfl : w₂ = w' := hclock
      refine wp.mono (post_creates hc hfresh (hrest.2 now)) ?_
      intro τ o w' hpresent
      dsimp only
      rwa [if_neg hempty]
  · rintro τ x w' ⟨_, _, _, _, ho⟩
    cases ho

/-- Both reports read the worker and then store a status. -/
theorem post_report_fresh (hc : redis.connected = true) (hfresh : FreshId w taskId) {status : Int32} {error : Bytes}
    {f : Bytes → Bool → Code α} (hall : (redis.hget (taskKey taskId) (bytes "worker_id") >>= fun workerId =>
      redis.updateTaskStatus taskId status error >>= f workerId).Every (Issues NoLpop)) :
    Post answered (redis.hget (taskKey taskId) (bytes "worker_id") >>= fun workerId =>
      redis.updateTaskStatus taskId status error >>= f workerId) (fun _ w' => ¬ FreshId w' taskId) w := by
  refine Post.bind_every (post_answered_hget hc taskId (by decide)) hall ?_ ?_
  · rintro workerId w' ⟨rfl, -⟩ hrest
    rw [RedisClient.updateTaskStatus, bind_assoc] at hrest ⊢
    exact post_creates hc hfresh hrest
  · rintro x w' ⟨_, ho⟩
    cases ho

theorem post_completeTask_fresh (hfresh : FreshId w taskId) (result : TaskResult) :
    Post answered (completeTask taskId result) (fun _ w' => ¬ FreshId w' taskId) w := by
  have hall : (completeTask taskId result).Every (Issues NoLpop) :=
    completeTask_issues fun cmd h => Operation.Writes.noPop h rfl
  rw [completeTask, getConnection_bind] at hall ⊢
  rintro r w ⟨rfl, redis, rfl, hc⟩
  exact post_report_fresh hc hfresh (hall.2 (some redis))

theorem post_failTask_fresh (hfresh : FreshId w taskId) (error : Bytes) :
    Post answered (failTask taskId error) (fun _ w' => ¬ FreshId w' taskId) w := by
  have hall : (failTask taskId error).Every (Issues NoLpop) :=
    failTask_issues fun cmd h => Operation.Writes.noPop h rfl
  rw [failTask, getConnection_bind] at hall ⊢
  rintro r w ⟨rfl, redis, rfl, hc⟩
  exact post_report_fresh hc hfresh (hall.2 (some redis))

theorem wp_retryTask_fresh (hfresh : FreshId w taskId) :
    wp answered (retryTask taskId) (fun τ o w' => ∃ stack, firstStack τ = some stack ∧
      if 3 ≤ stack.retryCount then Refused w τ o w' else ¬ FreshId w' taskId) w := by
  have hall : (retryTask taskId).Every (Issues NoLpop) := retryTask_issues fun cmd h => Operation.Writes.noPop h rfl
  rw [retryTask, getConnection_bind] at hall ⊢
  rintro r w ⟨rfl, redis, rfl, hc⟩
  refine wp.bind_every (wp_getTask_fresh hc hfresh) (hall.2 (some redis)) ?_ ?_
  · rintro τ task w' ⟨rfl, stack, r, rfl, ho⟩ hrest
    cases ho
    dsimp only at hrest ⊢
    by_cases hmax : 3 ≤ stack.retryCount
    · rw [if_pos hmax]
      intro _ w₂ hreturn
      obtain rfl : w₂ = w' := hreturn
      refine ⟨stack, rfl, ?_⟩
      rw [if_pos hmax]
      refine ⟨rfl, rfl, ?_, ?_⟩
      · simp [ChangesBalancer]
      · simp [SetsDelay]
    -- an empty reading of the count is 0, and the increment creates the hash
    · rw [if_neg hmax] at hrest ⊢
      refine wp.mono (?_ : Post answered _ (fun _ w' => ¬ FreshId w' taskId) _) ?_
      · refine Post.bind_every (post_answered_hget hc taskId (by decide)) hrest ?_ ?_
        · rintro workerId w₁ ⟨rfl, hworker⟩ hrest
          cases hworker
          rw [recordText_fresh hfresh] at hrest ⊢
          rw [if_neg (by simp), RedisClient.requeueRetry, RedisClient.incrementTaskRetry, bind_assoc] at hrest ⊢
          refine Post.bind_every (post_answered_hget hc taskId (by decide)) hrest ?_ ?_
          · rintro current w₂ ⟨rfl, hcurrent⟩ hrest
            cases hcurrent
            rw [recordText_fresh hfresh, if_pos List.isEmpty_nil] at hrest ⊢
            exact post_creates hc hfresh hrest
          · rintro x w₂ ⟨_, ho⟩
            cases ho
        · rintro x w₁ ⟨_, ho⟩
          cases ho
      · intro τ o w' hpresent
        exact ⟨stack, rfl, by rwa [if_neg hmax]⟩
  · rintro τ x w' ⟨_, _, _, _, ho⟩
    cases ho

end Operations

/-! ### When an unknown task is refused -/

/-- An operation on an unknown task refuses exactly if it is an assignment of the empty id, or a retry whose local
`TaskInfo` happens to hold a retry count of 3 or more. -/
theorem unknown_refused_iff {op : TaskOperation} {taskId : Bytes} {w w' : Keyspace} {τ : Trace}
    {o : Except StdException Bool} (hfresh : FreshId w taskId) (hrun : Run answered (op.code taskId) w τ o w') :
    Refused w τ o w' ↔ op.Refuses taskId τ := by
  have hcreated : ¬ FreshId w' taskId → ¬ Refused w τ o w' := fun h hrefused => h (hrefused.content ▸ hfresh)
  cases op with
  | assignTaskToWorker workerId =>
    have hassign := (wp_assignTaskToWorker_fresh hfresh workerId).run hrun
    by_cases hempty : taskId = []
    · rw [if_pos hempty] at hassign
      exact iff_of_true hassign hempty
    · rw [if_neg hempty] at hassign
      exact iff_of_false (hcreated hassign) hempty
  | completeTask result =>
    exact iff_of_false (hcreated ((post_completeTask_fresh hfresh result).run hrun)) id
  | failTask error =>
    exact iff_of_false (hcreated ((post_failTask_fresh hfresh error).run hrun)) id
  | retryTask =>
    obtain ⟨stack, hstack, hretry⟩ := (wp_retryTask_fresh hfresh).run hrun
    by_cases hmax : 3 ≤ stack.retryCount
    · rw [if_pos hmax] at hretry
      exact iff_of_true hretry ⟨stack, hstack, hmax⟩
    · rw [if_neg hmax] at hretry
      refine iff_of_false (hcreated hretry) ?_
      rintro ⟨stack', hstack', hmax'⟩
      obtain rfl : stack' = stack := Option.some.inj (hstack'.symm.trans hstack)
      exact hmax hmax'

/-- Every command gets the server's reply, an error included; the members that were never assigned hold those of
`stack`. -/
private def answerAlways (stack : TaskInfo) : (e : Effect) → Keyspace → Option (e.Answer × Keyspace)
  | .command _ cmd, w => some (some (exec cmd w).1, (exec cmd w).2)
  | e, w => answerStack stack e w

private theorem answerAlways_answered (stack : TaskInfo) (e : Effect) (w : Keyspace) (r : e.Answer) (w' : Keyspace)
    (h : answerAlways stack e w = some (r, w')) : answered e w r w' := by
  cases e with
  | command context cmd =>
    cases h
    exact ⟨rfl, rfl⟩
  | _ => exact answered_of_served (answerStack_served stack _ w r w' h)

def retriedStack (retryCount : Int32) : TaskInfo := { cleanTask pendingRequest with retryCount := retryCount }

theorem unknown_refused_usedUp : ∃ τ o w', Run answered (TaskOperation.retryTask.code (bytes "1")) ∅ τ o w' ∧
    Refused ∅ τ o w' := by
  have hplay : ((TaskOperation.retryTask.code (bytes "1")).play (answerAlways (retriedStack 5)) ∅).map
      (fun run => firstStack run.1) = some (some (retriedStack 5)) := by decide +kernel
  obtain ⟨⟨τ, o, w'⟩, hplay, hstack⟩ := Option.map_eq_some_iff.1 hplay
  have hrun : Run answered (TaskOperation.retryTask.code (bytes "1")) ∅ τ o w' :=
    Run.of_play (answerAlways_answered _) hplay
  have hfresh : FreshId ∅ (bytes "1") := rfl
  exact ⟨τ, o, w', hrun, (unknown_refused_iff hfresh hrun).2 ⟨_, hstack, by decide⟩⟩

/-- Where the local `TaskInfo` holds a retry count of -1, a retry of an unknown task shifts by it, creates a partial
record and pushes the id. -/
theorem unknown_retried : FreshId ∅ (bytes "1") ∧
    ∃ τ w', Run answered (TaskOperation.retryTask.code (bytes "1")) ∅ τ (.ok true) w' ∧
      ¬ Refused ∅ τ (.ok true) w' ∧ occurrences w' (bytes "1") = 1 ∧
      recordText w' (bytes "1") (bytes "retry_count") = bytes "1" := by
  have hplay : ((TaskOperation.retryTask.code (bytes "1")).play (answerAlways (retriedStack (-1))) ∅).map
      (fun run => (run.2.1.toOption, occurrences run.2.2 (bytes "1"),
        recordText run.2.2 (bytes "1") (bytes "retry_count"))) =
      some (some true, 1, bytes "1") := by decide +kernel
  obtain ⟨⟨τ, o, w'⟩, hplay, hend⟩ := Option.map_eq_some_iff.1 hplay
  simp only [Prod.mk.injEq] at hend
  obtain ⟨ho, hqueue, hrecord⟩ := hend
  obtain rfl := eq_ok_of_toOption ho
  refine ⟨rfl, τ, w', Run.of_play (answerAlways_answered _) hplay, ?_, hqueue, hrecord⟩
  intro hrefused
  cases hrefused.result

end Taskflow
