import Taskflow.TaskQueries
import Taskflow.DispatchFailures

/-!
# Task records

`saveTask` stores all members of a `TaskInfo` as text, and `getTask` reads them back (`saved_task_reads_back`).
`submitTask` saves a record whose members `started_at` and `finished_at` were never assigned, so the task is
stored as a clean one only where these happen to be 0 (`submitted_clean_iff`); and when the push onto the list
fails, or the record is stored and the reply lost, the record stays although the submission is rejected
(`rejected_without_trace_iff`).
-/

namespace Taskflow

open Text Effects Prog

/-! ### Reading back -/

section ReadBack

variable {info : TaskInfo} {h : StringMap Bytes}
  (hs : ∀ field v : Bytes, (recordFields info)[field]? = some v → h[field]? = some v)
include hs

private theorem getInt_saved {f : String} {n : Int64} (hentry : (bytes f, decimal n.toInt) ∈ recordEntries info) :
    getInt h f = .ok n := by
  have hfield : h[bytes f]? = some (decimal n.toInt) := hs _ _ (recordFields_of_mem hentry)
  simp only [getInt, hfield, stoll_decimal]

private theorem getInt_saved32 {f : String} {n : Int32} (hentry : (bytes f, decimal n.toInt) ∈ recordEntries info) :
    getInt h f = .ok n.toInt64 := by
  refine getInt_saved hs ?_
  rwa [Int32.toInt_toInt64]

private theorem getText_saved {f : String} {v : Bytes} (hentry : (bytes f, v) ∈ recordEntries info) :
    getText h f = v := by
  have hfield : h[bytes f]? = some v := hs _ _ (recordFields_of_mem hentry)
  simp only [getText, hfield, Option.getD_some]

/-- All members are read back, except the id, which the caller sets. -/
theorem readFields_saved (task : TaskInfo) : readFields task h = .ok { info with id := task.id } := by
  unfold readFields
  rw [getInt_saved32 hs (f := "type") (n := info.type) (by simp [recordEntries]),
    getInt_saved32 hs (f := "priority") (n := info.priority) (by simp [recordEntries]),
    getInt_saved hs (f := "created_at") (n := info.createdAt) (by simp [recordEntries]),
    getInt_saved hs (f := "started_at") (n := info.startedAt) (by simp [recordEntries]),
    getInt_saved hs (f := "finished_at") (n := info.finishedAt) (by simp [recordEntries]),
    getInt_saved32 hs (f := "status") (n := info.status) (by simp [recordEntries]),
    getInt_saved32 hs (f := "retry_count") (n := info.retryCount) (by simp [recordEntries]),
    getText_saved hs (f := "data") (v := info.data) (by simp [recordEntries]),
    getText_saved hs (f := "error_message") (v := info.errorMessage) (by simp [recordEntries]),
    getText_saved hs (f := "result") (v := info.result) (by simp [recordEntries])]
  show Except.ok _ = Except.ok _
  simp only [Int32.toInt32_toInt64]

end ReadBack

/-- `getTask` of a saved record. -/
theorem readTask_saved {info : TaskInfo} {w : Keyspace} (h : Saved info w) (hid : 0 ∉ info.id) (stack : TaskInfo) :
    readTask stack w info.id = .ok info := by
  obtain ⟨f, hf, hfields⟩ := h
  have hstored : storedFields w info.id = f := by
    rw [storedFields, cStr_taskKey hid, replyFields_hgetall hf]
  have hempty : f.isEmpty = false :=
    isEmpty_eq_false_of_getElem? (hfields _ _ (recordFields_record info).priority)
  rw [readTask, hstored, hempty, if_neg Bool.false_ne_true, readFields_saved hfields]

section Lookups

variable {w w' v : Keyspace} {key : Bytes} {α : Type} {τ : List (Event Effect Effect.Answer)}
  {o : Except StdException α} {redis : RedisClient}

theorem exec_reads_congr {cmd : Command} (hreads : cmd.reads = true) (h : w'[cmd.key]? = w[cmd.key]?) :
    (exec cmd w').1 = (exec cmd w).1 := by
  cases cmd with
  | get key =>
    simp only [Command.key] at h
    simp only [exec, h]
    split <;> rfl
  | hget key field =>
    simp only [Command.key] at h
    simp only [exec, h]
    split <;> rfl
  | hgetall key =>
    simp only [Command.key] at h
    simp only [exec, h]
    split <;> rfl
  | llen key =>
    simp only [Command.key] at h
    simp only [exec, h]
    split <;> rfl
  | _ => cases hreads

/-- A program that only looks at one key does the same wherever that key holds the same. -/
theorem run_looks {p : Code α} (hp : p.Every (Only fun cmd => cmd.reads = true ∧ cmd.key = key))
    (hkey : w'[key]? = w[key]?) (h : Run answered p w τ o v) : Run answered p w' τ o w' := by
  induction h with
  | ret a w => exact .ret a w'
  | throw x w => exact .throw x w'
  | @call e k u u' v r τ o hs _ ih =>
    have hsame : u' = u ∧ answered e w' r w' := by
      cases e with
      | command context cmd =>
        obtain ⟨hreads, rfl⟩ := hp.1
        obtain ⟨rfl, rfl⟩ := hs
        exact ⟨exec_reads hreads u, by rw [exec_reads_congr hreads hkey], (exec_reads hreads w').symm⟩
      | systemClock => exact ⟨hs, rfl⟩
      | indeterminate => exact ⟨hs, rfl⟩
      | _ => exact hp.1.elim
    obtain ⟨rfl, hanswer⟩ := hsame
    exact .call hanswer (ih (hp.2 r) hkey)

theorem getTask_looks (redis : RedisClient) (id : Bytes) :
    (redis.getTask id).Every (Only fun cmd => cmd.reads = true ∧ cmd.key = taskKey (cStr id)) :=
  getTask_only ⟨rfl, rfl⟩

/-- What `saveTask` does to other keys. -/
theorem post_saveTask_frame (redis : RedisClient) (info : TaskInfo) (w : Keyspace) (h : taskKey info.id ≠ key) :
    Post (served True) (redis.saveTask info) (fun _ w' => w'[key]? = w[key]?) w := by
  cases hc : redis.connected with
  | false =>
    have hfails : redis.saveTask info = .ret false := by
      simp only [RedisClient.saveTask, RedisClient.hmset, hc]
      rfl
    rw [hfails]
    exact rfl
  | true =>
    rw [RedisClient.saveTask, hmset_eq hc _ (recordFields_record info).isEmpty]
    intro r w' hs
    exact served_frame hs h

end Lookups

/-- After `saveTask` has returned `true`, `getTask` of the task does not throw and returns it, and `getTask` of any
other task does what it did before. -/
theorem saved_task_reads_back {info : TaskInfo} (hid : 0 ∉ info.id) {redis : RedisClient} {w w' : Keyspace}
    {τ : List (Event Effect Effect.Answer)} (hrun : Run (served True) (redis.saveTask info) w τ (.ok true) w') :
    ∀ redis : RedisClient, redis.connected = true →
      ((∃ τ o v, Run answered (redis.getTask info.id) w' τ o v) ∧
        ∀ τ o v, Run answered (redis.getTask info.id) w' τ o v → o = .ok info) ∧
      ∀ u, 0 ∉ u → u ≠ info.id → ∀ τ o,
        (∃ v, Run answered (redis.getTask u) w' τ o v) ↔ ∃ v, Run answered (redis.getTask u) w τ o v := by
  intro redis' hc
  have hsaved := (post_saveTask (served_serves True) redis info w).run hrun rfl
  refine ⟨⟨exists_run answered_total _ _, ?_⟩, ?_⟩
  · intro τ o v hget
    obtain ⟨-, stack, ho⟩ := (post_getTask hc w' info.id).run hget
    rw [ho, readTask_saved hsaved hid]
  · intro u hu hne τ o
    have hother : taskKey info.id ≠ taskKey (cStr u) := by
      rw [cStr_of_noNul hu]
      exact fun he => hne (taskKey_injective he).symm
    have hkey := (post_saveTask_frame redis info w hother).run hrun
    constructor
    · rintro ⟨v, hget⟩
      exact ⟨w, run_looks (getTask_looks redis' u) hkey.symm hget⟩
    · rintro ⟨v, hget⟩
      exact ⟨w', run_looks (getTask_looks redis' u) hkey hget⟩

/-- A record whose texts are not C strings, and whose numbers are the least ones. -/
def binaryTask : TaskInfo where
  id := bytes "17"
  type := -2147483648
  priority := -2147483648
  data := [0, 255, 0]
  createdAt := -9223372036854775808
  startedAt := -9223372036854775808
  finishedAt := -9223372036854775808
  status := -2147483648
  retryCount := -2147483648
  errorMessage := []
  result := [0]

theorem saved_task_reads_back_binary :
    ∃ τ w', Run (served True) (RedisClient.saveTask ⟨0, true⟩ binaryTask) ∅ τ (.ok true) w' ∧
      ∀ τ o v, Run answered (RedisClient.getTask ⟨0, true⟩ (bytes "17")) w' τ o v → o = .ok binaryTask := by
  have hplay : ((RedisClient.saveTask ⟨0, true⟩ binaryTask).play (answer (fun _ => false) []) ∅).map
      (fun run => run.2.1.toOption) = some (some true) := by decide
  obtain ⟨⟨τ, o, w'⟩, hplay, ho⟩ := Option.map_eq_some_iff.1 hplay
  obtain rfl := eq_ok_of_toOption ho
  have hrun : Run (served True) (RedisClient.saveTask ⟨0, true⟩ binaryTask) ∅ τ (.ok true) w' :=
    Run.of_play answer_fault_free hplay
  exact ⟨τ, w', hrun, (saved_task_reads_back (by decide) hrun ⟨0, true⟩ rfl).1.2⟩

/-! ### A submission -/

/-- What `submitTask` saves; `stack` is what the members of the local `TaskInfo` held before. -/
def submittedInfo (task : TaskRequest) (stack : TaskInfo) : TaskInfo :=
  { stack with
    id := task.id, type := task.type, priority := task.priority, data := task.data, createdAt := task.createdAt,
    status := 0, retryCount := 0, errorMessage := [], result := [] }

section Submission

variable {faulty : Prop} {task : TaskRequest} {w w' : Keyspace} {τ : List (Event Effect Effect.Answer)}
  {o : Except StdException Bool}

/-- The `HMSET` of a submission. -/
def saveCommand (task : TaskRequest) (stack : TaskInfo) : Command :=
  .hmset (taskKey task.id) (recordFields (submittedInfo task stack)).toList

/-- The `RPUSH` of a submission. -/
def pushCommand (task : TaskRequest) : Command := .rpush (queueOf task.priority) (cStr task.id)

/-- All that a submission may do: it gets no connection, its `HMSET` fails, or its `HMSET` is answered and its
`RPUSH` decides what it returns. -/
inductive Submission (task : TaskRequest) (w : Keyspace) :
    List (Event Effect Effect.Answer) → List Sent → Bool → Keyspace → Prop
  | unconnected : Submission task w [⟨.getConnection, none⟩] [] false w
  | unsaved (redis : RedisClient) (stack : TaskInfo) {r : Option Reply} {fate : Fate} {w' : Keyspace}
      (hfate : fate ≠ .answered) (hsave : Delivered (saveCommand task stack) w fate r w') :
    Submission task w [⟨.getConnection, some redis⟩, ⟨.indeterminate, stack⟩,
      ⟨.command redis.context (saveCommand task stack), r⟩, ⟨.returnConnection redis, ()⟩]
      [⟨saveCommand task stack, fate, (exec (saveCommand task stack) w).1⟩] false w'
  | unqueued (redis : RedisClient) (stack : TaskInfo) {r r' : Option Reply} {fate : Fate} {w₁ w' : Keyspace}
      (hsave : Delivered (saveCommand task stack) w .answered r w₁) (hfate : fate ≠ .answered)
      (hpush : Delivered (pushCommand task) w₁ fate r' w') :
    Submission task w [⟨.getConnection, some redis⟩, ⟨.indeterminate, stack⟩,
      ⟨.command redis.context (saveCommand task stack), r⟩, ⟨.command redis.context (pushCommand task), r'⟩,
      ⟨.returnConnection redis, ()⟩]
      [⟨saveCommand task stack, .answered, (exec (saveCommand task stack) w).1⟩,
        ⟨pushCommand task, fate, (exec (pushCommand task) w₁).1⟩] false w'
  | queued (redis : RedisClient) (stack : TaskInfo) {r r' : Option Reply} {w₁ w' : Keyspace}
      (hsave : Delivered (saveCommand task stack) w .answered r w₁)
      (hpush : Delivered (pushCommand task) w₁ .answered r' w') :
    Submission task w [⟨.getConnection, some redis⟩, ⟨.indeterminate, stack⟩,
      ⟨.command redis.context (saveCommand task stack), r⟩, ⟨.command redis.context (pushCommand task), r'⟩,
      ⟨.returnConnection redis, ()⟩]
      [⟨saveCommand task stack, .answered, (exec (saveCommand task stack) w).1⟩,
        ⟨pushCommand task, .answered, (exec (pushCommand task) w₁).1⟩] true w'

/-- What the client makes of a command's fate. -/
theorem succeeded_eq {cmd : Command} {fate : Fate} {r : Option Reply} (h : Delivered cmd w fate r w') :
    succeeded r = decide (fate = .answered) := by
  by_cases hfate : fate = .answered
  · subst hfate
    rw [h.1, succeeded_of_ok h.2.2]
    rfl
  · rw [succeeded_of_failed (h.failed hfate), decide_eq_false hfate]

theorem wp_submitTask (faulty : Prop) (task : TaskRequest) (w : Keyspace) :
    (accounted faulty).wp (submitTask task) (fun τ l o w' => ∃ ok, o = .ok ok ∧
      Submission task w τ l ok w') w := by
  rw [submitTask, getConnection_bind]
  rintro conn w₁ _ ⟨⟨rfl, hconn, -⟩, rfl⟩
  cases conn with
  | none => exact ⟨false, rfl, .unconnected⟩
  | some redis =>
    have hc := hconn redis rfl
    have hsave : ∀ stack, redis.saveTask (submittedInfo task stack) =
        .call (.command redis.context (saveCommand task stack)) (fun reply => .ret (succeeded reply)) :=
      fun stack => hmset_eq hc _ (recordFields_record _).isEmpty
    have hpush : redis.pushToPriorityQueue task.priority task.id =
        .call (.command redis.context (pushCommand task)) (fun reply => .ret (succeeded reply)) := by
      rw [RedisClient.pushToPriorityQueue, rpush_eq hc, cStr_queue (queueOf_mem _)]
      rfl
    dsimp only
    rw [declareTaskInfo_bind]
    rintro stack w₂ _ ⟨hstack, rfl⟩
    -- the two writes in turn; the second is issued only if the first was answered
    obtain rfl : w₂ = w₁ := hstack
    show Account.wp _ (redis.saveTask (submittedInfo task stack) >>= _) _ _
    rw [hsave, call_bind]
    rintro r w₃ _ ⟨fate, -, hd, rfl⟩
    dsimp only [ret_bind]
    rw [succeeded_eq hd]
    by_cases hfate : fate = .answered
    · subst hfate
      rw [decide_eq_true rfl, hpush]
      rintro r' w₄ _ ⟨fate, -, hd', rfl⟩
      dsimp only [ret_bind]
      rw [succeeded_eq hd']
      by_cases hfate : fate = .answered
      · subst hfate
        rintro _ w₅ _ ⟨hreturn, rfl⟩
        obtain rfl := hreturn
        exact ⟨true, rfl, .queued redis stack hd hd'⟩
      · rw [decide_eq_false hfate]
        rintro _ w₅ _ ⟨hreturn, rfl⟩
        obtain rfl := hreturn
        exact ⟨false, rfl, .unqueued redis stack hd hfate hd'⟩
    · rw [decide_eq_false hfate]
      rintro _ w₄ _ ⟨hreturn, rfl⟩
      obtain rfl := hreturn
      exact ⟨false, rfl, .unsaved redis stack hfate hd⟩

/-- The same for a run of which no log was kept. -/
theorem submission_of_run {ok : Bool} (hrun : Run (served faulty) (submitTask task) w τ (.ok ok) w') :
    ∃ l, Submission task w τ l ok w' := by
  obtain ⟨l, hlogged⟩ := Account.exists_logged accounted_of_served hrun []
  obtain ⟨_, ⟨⟩, hsub⟩ := (wp_submitTask faulty task w).run_nil hlogged
  exact ⟨l, hsub⟩

/-- A record that was stored has the members of the local `TaskInfo`. -/
theorem saved_of_delivered {stack : TaskInfo} {fate : Fate} {r : Option Reply}
    (hd : Delivered (saveCommand task stack) w fate r w') (hfate : fate ≠ .refused) :
    Saved (submittedInfo task stack) w' := by
  rcases hd.world with ⟨hrefused, -⟩ | ⟨-, rfl, hok⟩
  · exact absurd hrefused hfate
  · exact saved_hmset hok

/-- The push that follows leaves it as it is. -/
theorem Saved.push {stack : TaskInfo} {fate : Fate} {r : Option Reply} (h : Saved (submittedInfo task stack) w)
    (hd : Delivered (pushCommand task) w fate r w') : Saved (submittedInfo task stack) w' := by
  obtain ⟨f, hrecord, hfields⟩ := h
  have hframe : (pushCommand task).key ≠ taskKey (submittedInfo task stack).id :=
    (taskKey_ne_queue (queueOf_mem task.priority) _).symm
  exact ⟨f, (hd.frame hframe).trans hrecord, hfields⟩

end Submission

/-! ### Clean records -/

/-- What a submitted task should read as. -/
def cleanTask (task : TaskRequest) : TaskInfo where
  id := task.id
  type := task.type
  priority := task.priority
  data := task.data
  createdAt := task.createdAt
  startedAt := 0
  finishedAt := 0
  status := 0
  retryCount := 0
  errorMessage := []
  result := []

/-- Whatever its own local members hold, `getTask` returns the clean task. -/
def StoredClean (task : TaskRequest) (w : Keyspace) : Prop :=
  ∀ redis : RedisClient, redis.connected = true →
    ∀ τ o v, Run answered (redis.getTask task.id) w τ o v → o = .ok (cleanTask task)

theorem submittedInfo_clean_iff (task : TaskRequest) (stack : TaskInfo) :
    submittedInfo task stack = cleanTask task ↔ stack.startedAt = 0 ∧ stack.finishedAt = 0 := by
  constructor
  · intro h
    exact ⟨congrArg TaskInfo.startedAt h, congrArg TaskInfo.finishedAt h⟩
  · intro ⟨hstarted, hfinished⟩
    simp only [submittedInfo, cleanTask, hstarted, hfinished]

/-- `getTask` may find any values in its local members. -/
theorem run_getTask {redis : RedisClient} (hc : redis.connected = true) (w : Keyspace) (id : Bytes)
    (stack : TaskInfo) :
    ∃ τ v, Run answered (redis.getTask id) w τ (readTask stack w id) v := by
  have hrest : ∃ τ v, Run answered (if (storedFields w id).isEmpty then
      (.ret { stack with id := id, data := [], errorMessage := [], result := [] } : Code TaskInfo)
    else ofExcept (readFields { stack with id := id, data := [], errorMessage := [], result := [] }
      (storedFields w id))) (exec (.hgetall (cStr (taskKey id))) w).2 τ (readTask stack w id) v := by
    unfold readTask
    dsimp only
    split
    · exact ⟨_, _, .ret _ _⟩
    · cases readFields _ (storedFields w id) with
      | ok info => exact ⟨_, _, .ret _ _⟩
      | error x => exact ⟨_, _, .throw _ _⟩
  obtain ⟨τ, v, hrest⟩ := hrest
  rw [RedisClient.getTask, hgetall_eq hc]
  have hstack : answered .indeterminate w stack w := rfl
  exact ⟨_, v, .call hstack (.call ⟨rfl, rfl⟩ hrest)⟩

/-- No lookup finds a record under such an id. -/
def FreshId (w : Keyspace) (id : Bytes) : Prop := w[taskKey (cStr id)]? = none

/-- Without a record `getTask` returns its own local members, whatever they hold. -/
theorem readTask_fresh {w : Keyspace} {id : Bytes} (h : FreshId w id) (stack : TaskInfo) :
    readTask stack w id = .ok { stack with id := id, data := [], errorMessage := [], result := [] } := by
  have hempty : storedFields w id = ∅ := by
    rw [storedFields, cStr_taskKey_eq]
    simp only [exec, show w[taskKey (cStr id)]? = none from h, replyFields, pairElements]
  rw [readTask, hempty]
  rfl

section Clean

variable {task : TaskRequest} {stack : TaskInfo} {w : Keyspace}

theorem not_clean_of_fresh (h : FreshId w task.id) : ¬ StoredClean task w := by
  intro hclean
  obtain ⟨τ, v, hget⟩ :=
    run_getTask (rfl : RedisClient.connected ⟨0, true⟩ = true) w task.id { cleanTask task with startedAt := 1 }
  have ho := hclean _ rfl _ _ _ hget
  rw [readTask_fresh h] at ho
  have hstarted : (1 : Int64) = 0 := congrArg TaskInfo.startedAt (Except.ok.inj ho)
  exact absurd hstarted (by decide)

theorem clean_of_saved_iff (h : Saved (submittedInfo task stack) w) (hid : 0 ∉ task.id) :
    StoredClean task w ↔ submittedInfo task stack = cleanTask task := by
  have hread := readTask_saved h hid
  constructor
  · intro hclean
    obtain ⟨τ, v, hget⟩ := run_getTask (rfl : RedisClient.connected ⟨0, true⟩ = true) w task.id stack
    have ho := (hread stack).symm.trans (hclean _ rfl _ _ _ hget)
    exact Except.ok.inj ho
  · intro hinfo redis hc τ o v hget
    obtain ⟨-, stack', ho⟩ := (post_getTask hc w task.id).run hget
    exact ho.trans ((hread stack').trans (congrArg Except.ok hinfo))

/-- A submission writes under the whole id, the lookups search up to its first NUL. -/
theorem fresh_of_queued {r r' : Option Reply} {w₁ w' : Keyspace} (h : FreshId w task.id) (hid : 0 ∈ task.id)
    (hsave : Delivered (saveCommand task stack) w .answered r w₁)
    (hpush : Delivered (pushCommand task) w₁ .answered r' w') : FreshId w' task.id := by
  have hother : (saveCommand task stack).key ≠ taskKey (cStr task.id) := by
    intro he
    have heq : task.id = cStr task.id := taskKey_injective he
    rw [heq] at hid
    exact noNul_cStr _ hid
  have hqueue : (pushCommand task).key ≠ taskKey (cStr task.id) :=
    (taskKey_ne_queue (queueOf_mem task.priority) _).symm
  exact (hpush.frame hqueue).trans ((hsave.frame hother).trans h)

end Clean

/-- A submitted task is stored clean, exactly if its id is a C string and the two members that `submitTask` never
assigns happen to hold 0. -/
theorem submitted_clean_iff {task : TaskRequest} {w w' : Keyspace} {τ : List (Event Effect Effect.Answer)}
    (hfresh : FreshId w task.id) (hrun : Run (served True) (submitTask task) w τ (.ok true) w') {stack : TaskInfo}
    (hstack : ⟨.indeterminate, stack⟩ ∈ τ) :
    StoredClean task w' ↔ 0 ∉ task.id ∧ stack.startedAt = 0 ∧ stack.finishedAt = 0 := by
  obtain ⟨l, hsub⟩ := submission_of_run hrun
  cases hsub with
  | queued redis stack' hsave hpush =>
    obtain rfl : stack = stack' := by simpa using hstack
    by_cases hid : 0 ∈ task.id
    · exact iff_of_false (not_clean_of_fresh (fresh_of_queued hfresh hid hsave hpush)) (fun h => h.1 hid)
    · have hsaved := (saved_of_delivered hsave nofun).push hpush
      rw [clean_of_saved_iff hsaved hid, submittedInfo_clean_iff]
      exact (and_iff_right hid).symm

def pendingRequest : TaskRequest := ⟨bytes "1", 0, 0, [], 0⟩

theorem submitted_clean_pending : ∃ τ w', Run (served True) (submitTask pendingRequest) ∅ τ (.ok true) w' ∧
    ∃ stack, ⟨.indeterminate, stack⟩ ∈ τ ∧
      (StoredClean pendingRequest w' ↔ 0 ∉ bytes "1" ∧ stack.startedAt = 0 ∧ stack.finishedAt = 0) := by
  have hplay : ((submitTask pendingRequest).play (answer (fun _ => false) []) ∅).map
      (fun run => run.2.1.toOption) = some (some true) := by decide +kernel
  obtain ⟨⟨τ, o, w'⟩, hplay, ho⟩ := Option.map_eq_some_iff.1 hplay
  obtain rfl := eq_ok_of_toOption ho
  have hrun : Run (served True) (submitTask pendingRequest) ∅ τ (.ok true) w' := Run.of_play answer_fault_free hplay
  have hstack : ∃ stack, ⟨.indeterminate, stack⟩ ∈ τ := by
    obtain ⟨l, hsub⟩ := submission_of_run hrun
    cases hsub with
    | queued redis stack hsave hpush => exact ⟨stack, by simp⟩
  obtain ⟨stack, hstack⟩ := hstack
  have hfresh : FreshId ∅ pendingRequest.id := rfl
  exact ⟨τ, w', hrun, stack, hstack, submitted_clean_iff hfresh hrun hstack⟩

/-- The environment in which nothing fails and the members that were never assigned hold those of `stack`. -/
def answerStack (stack : TaskInfo) : (e : Effect) → Keyspace → Option (e.Answer × Keyspace)
  | .indeterminate, w => some (stack, w)
  | e, w => answer (fun _ => false) [] e w

theorem answerStack_served {faulty : Prop} (stack : TaskInfo) (e : Effect) (w : Keyspace) (r : e.Answer)
    (w' : Keyspace) (h : answerStack stack e w = some (r, w')) : served faulty e w r w' := by
  cases e with
  | indeterminate =>
    cases h
    rfl
  | _ => exact answer_fault_free _ w r w' h

/-- Where a local `TaskInfo` holds another start time, it is stored with the submitted task. -/
theorem submitted_already_started : FreshId ∅ pendingRequest.id ∧
    ∃ τ w', Run (served True) (submitTask pendingRequest) ∅ τ (.ok true) w' ∧
    ¬ StoredClean pendingRequest w' := by
  let stack : TaskInfo := { cleanTask pendingRequest with startedAt := 7 }
  have hplay : ((submitTask pendingRequest).play (answerStack stack) ∅).bind (fun run =>
      ((RedisClient.getTask ⟨0, true⟩ (bytes "1")).play (answerStack stack) run.2.2).map fun read =>
        (run.2.1.toOption, read.2.1.toOption.map TaskInfo.startedAt)) = some (some true, some 7) := by
    decide +kernel
  obtain ⟨⟨τ, o, w'⟩, hplay, hread⟩ := Option.bind_eq_some_iff.1 hplay
  obtain ⟨⟨τ', o', v⟩, hget, hread⟩ := Option.map_eq_some_iff.1 hread
  simp only [Prod.mk.injEq] at hread
  obtain ⟨ho, ho'⟩ := hread
  obtain rfl := eq_ok_of_toOption ho
  refine ⟨rfl, τ, w', Run.of_play (answerStack_served stack) hplay, fun hclean => ?_⟩
  have hrun : Run answered (RedisClient.getTask ⟨0, true⟩ (bytes "1")) w' τ' o' v :=
    Run.of_play (fun e w r w' h => answered_of_served (answerStack_served stack e w r w' h)) hget
  rw [hclean _ rfl _ _ _ hrun] at ho'
  cases ho'

/-! ### Rejected submissions -/

/-- Redis knows nothing of the id. -/
structure NoTrace (w : Keyspace) (id : Bytes) : Prop where
  record : w[taskKey id]? = none
  queues : occurrences w id = 0
  lookup : Post answered (getTaskStatus id) (fun o _ => o = .ok (bytes "not_found")) w

def isSave : Command → Bool
  | .hmset _ _ => true
  | _ => false

/-- No `RPUSH` failed, and no `HMSET` was executed without a reply. -/
structure UndoneWhole (l : List Sent) : Prop where
  push : refused isPush l = false
  answer : replyLost isPush l = false
  save : replyLost isSave l = false

theorem NoTrace.not_saved {info : TaskInfo} {w : Keyspace} (h : NoTrace w info.id) : ¬ Saved info w := by
  rintro ⟨f, hrecord, -⟩
  cases h.record.symm.trans hrecord

/-- A rejected submission leaves no trace, exactly if it is not the `RPUSH` that failed, and not only the reply
of the `HMSET` that was lost. -/
theorem rejected_without_trace_iff {task : TaskRequest} {w w' : Keyspace} {τ : List (Event Effect Effect.Answer)}
    {l : List Sent} (hfresh : NoTrace w task.id)
    (hrun : Run (accounted True).logged (submitTask task) (w, []) τ (.ok false) (w', l)) :
    NoTrace w' task.id ↔ UndoneWhole l := by
  obtain ⟨_, ⟨⟩, hsub⟩ := (wp_submitTask True task w).run_nil hrun
  cases hsub with
  | unconnected => exact iff_of_true hfresh ⟨rfl, rfl, rfl⟩
  | unsaved redis stack hfate hsave =>
    rename_i r fate
    cases fate with
    | answered => exact absurd rfl hfate
    | lost =>
      have hsaved : Saved (submittedInfo task stack) w' := saved_of_delivered hsave nofun
      refine iff_of_false (fun htrace => htrace.not_saved hsaved) fun hundone => ?_
      have hlost := hundone.save
      cases hlost
    | refused =>
      obtain rfl := hsave.1
      exact iff_of_true hfresh ⟨rfl, rfl, rfl⟩
  | unqueued redis stack hsave hfate hpush =>
    rename_i r r' fate w₁
    have hsaved : Saved (submittedInfo task stack) w' := (saved_of_delivered hsave nofun).push hpush
    refine iff_of_false (fun htrace => htrace.not_saved hsaved) fun hundone => ?_
    cases fate with
    | answered => exact absurd rfl hfate
    | lost =>
      have hlost := hundone.answer
      cases hlost
    | refused =>
      have hrefused := hundone.push
      cases hrefused

theorem noTrace_empty : NoTrace ∅ (bytes "1") := by
  refine ⟨rfl, by decide, ?_⟩
  refine post_answered_connection fun redis hc => (post_answered_hget hc _ (by decide)).bind ?_ ?_
  · intro status w₁ ⟨_, hstatus⟩ r w₂ _
    cases hstatus
    exact rfl
  · intro x w₁ ⟨_, hcontra⟩
    cases hcontra

/-- The fates of commands where the replies of every `HMSET` are lost. -/
private def savedUnanswered (cmd : Command) : Fate := if isSave cmd then .lost else .answered

/-- The fates of commands where every `RPUSH` is refused. -/
private def pushRefused (cmd : Command) : Fate := if isPush cmd then .refused else .answered

/-- A submission is rejected, and its record is that of a pending task. -/
private def RejectedPending (lost : Bool) : Prop :=
  ∃ τ l w', Run (accounted True).logged (submitTask pendingRequest) (∅, []) τ (.ok false) (w', l) ∧
    replyLost isSave l = lost ∧ recordText w' (bytes "1") (bytes "status") = bytes "0"

private theorem rejected_runs : RejectedPending false ∧ RejectedPending true := by
  have hplay : ([pushRefused, savedUnanswered].map fun fate =>
      ((submitTask pendingRequest).play (account fate []) (∅, [])).map fun run =>
        (run.2.1.toOption, replyLost isSave run.2.2.2, recordText run.2.2.1 (bytes "1") (bytes "status"))) =
      [some (some false, false, bytes "0"), some (some false, true, bytes "0")] := by decide +kernel
  have hrejected : ∀ fate lost, ((submitTask pendingRequest).play (account fate []) (∅, [])).map (fun run =>
      (run.2.1.toOption, replyLost isSave run.2.2.2, recordText run.2.2.1 (bytes "1") (bytes "status"))) =
        some (some false, lost, bytes "0") → RejectedPending lost := by
    intro fate lost hone
    obtain ⟨⟨τ, o, w', l⟩, hplay, hend⟩ := Option.map_eq_some_iff.1 hone
    simp only [Prod.mk.injEq] at hend
    obtain ⟨ho, hlost, hstatus⟩ := hend
    obtain rfl := eq_ok_of_toOption ho
    exact ⟨τ, l, w', Run.of_play (account_logged (fun _ _ => trivial) fun h => absurd rfl h) hplay, hlost, hstatus⟩
  simp only [List.map_cons, List.map_nil, List.cons.injEq] at hplay
  exact ⟨hrejected _ _ hplay.1, hrejected _ _ hplay.2.1⟩

theorem rejected_without_trace_pending :
    ∃ τ l w', Run (accounted True).logged (submitTask pendingRequest) (∅, []) τ (.ok false) (w', l) ∧
      replyLost isSave l = true ∧ (NoTrace w' (bytes "1") ↔ UndoneWhole l) := by
  obtain ⟨τ, l, w', hrun, hlost, -⟩ := rejected_runs.2
  have hfresh : NoTrace ∅ pendingRequest.id := noTrace_empty
  exact ⟨τ, l, w', hrun, hlost, rejected_without_trace_iff hfresh hrun⟩

theorem rejected_leaves_record : NoTrace ∅ (bytes "1") ∧ ∃ τ l w',
    Run (accounted True).logged (submitTask pendingRequest) (∅, []) τ (.ok false) (w', l) ∧
    ¬ NoTrace w' (bytes "1") := by
  obtain ⟨τ, l, w', hrun, -, hstatus⟩ := rejected_runs.1
  refine ⟨noTrace_empty, τ, l, w', hrun, fun htrace => ?_⟩
  rw [recordText, htrace.record] at hstatus
  exact absurd hstatus (by decide)

end Taskflow
