import Taskflow.StatusTransitions
import Taskflow.RetryBackoff
import Taskflow.UnknownTasks

/-!
# The retry count over whole runs

In a run of calls in which nothing fails, the stored count of a submitted task is the number of its retries that
returned `true` (`RetryCounted`): a retry that ends with an exception has not reached the increment, and no
other call writes the field.  A retry reads the count first and refuses from 3 on, so the count stays at most 3
and `1 << retry_count` is evaluated for 0, 1 and 2 only (`retries_bounded`).
-/

namespace Taskflow

open Text Effects Prog

/-! ### What is counted -/

/-- The record of `i` can be read, and its retry count is `c`. -/
def RetryCounted (i : Bytes) (c : Int32) (w : Keyspace) : Prop :=
  ∃ p f, w[taskKey i]? = some (.hash f) ∧ TaskRecord p f ∧ f[bytes "retry_count"]? = some (decimal c.toInt)

/-- The operand of `1 << retry_count` in a call of `retryTask` that comes to it: the retry count of the record
that was read first. -/
def shiftOperand : Trace → Option Int32
  | ⟨.getConnection, _⟩ :: ⟨.indeterminate, stack⟩ :: ⟨.command _ (.hgetall _), reply⟩ :: rest =>
    if rest.any (fun event => match event.1 with | .command _ (.setex _ _ _) => true | _ => false) then
      if (replyFields reply).isEmpty then some stack.retryCount
      else (readFields stack (replyFields reply)).toOption.map TaskInfo.retryCount
    else none
  | _ => none

/-- A retry that does not refuse counts if it returns `true`, and ends with an exception otherwise. -/
def RetryEnds (i : Bytes) (c : Int32) (o : Except StdException Bool) (w' : Keyspace) : Prop :=
  (o = .ok true ∧ RetryCounted i (c + 1) w') ∨ ((∃ x, o = .error x) ∧ RetryCounted i c w')

/-- What a retry of a task with count `c` does. -/
structure RetryOutcome (i : Bytes) (c : Int32) (w : Keyspace) (τ : Trace) (o : Except StdException Bool)
    (w' : Keyspace) : Prop where
  operand : ∀ e, shiftOperand τ = some e → e = c ∧ ¬ 3 ≤ c
  refused : 3 ≤ c → Refused w τ o w'
  retried : ¬ 3 ≤ c → RetryEnds i c o w'

section Calls

variable {w w' : Keyspace} {i : Bytes} {c : Int32} {redis : RedisClient} {f : StringMap Bytes}

theorem RetryCounted.congr (h : RetryCounted i c w) (hsame : w'[taskKey i]? = w[taskKey i]?) :
    RetryCounted i c w' := by
  obtain ⟨p, f, hw, hr, hcount⟩ := h
  exact ⟨p, f, hsame.trans hw, hr, hcount⟩

/-- `getTask` of a counted task, with its events. -/
theorem wp_getTask_counted (hc : redis.connected = true) (hi : 0 ∉ i) {p : Int32} (hr : TaskRecord p f)
    (hcount : f[bytes "retry_count"]? = some (decimal c.toInt)) (hw : w[taskKey i]? = some (.hash f)) :
    wp (served False) (redis.getTask i) (fun τ o w' => w' = w ∧ ∃ stack reply,
      τ = [⟨.indeterminate, stack⟩, ⟨.command redis.context (.hgetall (taskKey i)), reply⟩] ∧
      replyFields reply = f ∧
      ∃ task, o = .ok task ∧ task.retryCount = c) w := by
  rw [RedisClient.getTask, hgetall_eq hc, cStr_taskKey hi]
  intro stack w₁ hstack
  obtain rfl : w₁ = w := hstack
  intro reply w₂ hs
  obtain ⟨rfl, rfl, -⟩ := served_command hs
  dsimp only
  rw [replyFields_hgetall hw]
  show wp _ (if f.isEmpty = true then _ else _) _ _
  rw [if_neg (by simp [hr.isEmpty])]
  obtain ⟨task, htask, -, -, hretry⟩ :=
    hr.readFields { stack with id := i, data := [], errorMessage := [], result := [] }
  have heq : task.retryCount = c := by
    rw [hcount] at hretry
    exact Int32.toInt_inj.1 (decimal_injective (Option.some.inj hretry)).symm
  rw [show readFields _ f = .ok task from htask]
  exact ⟨exec_hgetall _ w₁, stack, _, rfl, replyFields_hgetall hw, task, rfl, heq⟩

/-- A counted record is read as counted. -/
theorem shiftOperand_counted {conn : Option RedisClient} {stack : TaskInfo} {context : Nat} {key : Bytes}
    {reply : Option Reply} {τ : Trace} {p : Int32} (hr : TaskRecord p f)
    (hcount : f[bytes "retry_count"]? = some (decimal c.toInt)) (hreply : replyFields reply = f) {e : Int32}
    (he : shiftOperand (⟨.getConnection, conn⟩ :: ⟨.indeterminate, stack⟩ ::
      ⟨.command context (.hgetall key), reply⟩ :: τ) = some e) : e = c := by
  obtain ⟨task, htask, -, -, hretry⟩ := hr.readFields stack
  rw [hcount] at hretry
  have heq : task.retryCount = c := Int32.toInt_inj.1 (decimal_injective (Option.some.inj hretry)).symm
  simp only [shiftOperand, hreply, hr.isEmpty, htask] at he
  split at he
  · have hread : some task.retryCount = some e := he
    rw [← heq]
    exact (Option.some.inj hread).symm
  · cases he

/-- Taking the task off its worker changes no record, even when it ends with an exception. -/
theorem ends_records {α : Type} {p : Code α}
    (hp : p.Every (Issues fun cmd => ∃ v, cmd = .incrby (workerLoadKey v) (-1)))
    (w : Keyspace) : Ends p (fun _ w' => ∀ j, w'[taskKey j]? = w[taskKey j]?) w :=
  post_issues (served_serves False) (K := fun w w' => ∀ j, w'[taskKey j]? = w[taskKey j]?) (fun _ _ => rfl)
    (fun h h' j => (h' j).trans (h j)) (fun cmd w hcmd j => by
      obtain ⟨v, rfl⟩ := hcmd
      exact exec_frame _ w (workerLoadKey_ne_taskKey v j)) hp w

/-- Once the task is off its worker, a retry increments the count. -/
private theorem ends_countedRetry (hc : redis.connected = true) (hi : ValidId i) (h : RetryCounted i c w)
    (retryCount : Int32) :
    Ends (redis.requeueRetry i retryCount) (RetryEnds i c) w := by
  obtain ⟨p, f, hw, hr, hcount⟩ := h
  refine (ends_requeueRetry hc hi hr hw hcount retryCount).mono ?_
  rintro o w' ⟨ho, hstored, -⟩
  exact Or.inl ⟨ho, p, _, hstored, hr.retried (c + 1), by simp⟩

theorem wp_retryTask_counted (hi : ValidId i) (h : RetryCounted i c w) :
    wp (served False) (retryTask i) (fun τ o w' => RetryOutcome i c w τ o w') w := by
  obtain ⟨p, f, hw, hr, hcount⟩ := h
  rw [retryTask, getConnection_bind]
  rintro r w ⟨rfl, hconn, hnone⟩
  cases r with
  | none => exact (hnone rfl).elim
  | some redis =>
    have hc := hconn redis rfl
    refine wp.bind (wp_getTask_counted hc hi.noNul hr hcount hw) ?_ ?_
    · rintro τ task w ⟨rfl, stack, reply, rfl, hreply, _, ⟨⟩, rfl⟩
      dsimp only
      by_cases hmax : 3 ≤ task.retryCount
      · rw [if_pos hmax]
        intro u w₂ hreturn
        obtain rfl : w₂ = w := hreturn
        refine ⟨?_, fun _ => ⟨rfl, rfl, ?_, ?_⟩, fun h => absurd hmax h⟩
        · intro e he
          simp [shiftOperand] at he
        · simp [ChangesBalancer]
        · simp [SetsDelay]
      · rw [if_neg hmax]
        refine wp.mono (?_ : Ends _ (RetryEnds i task.retryCount) w) ?_
        · apply Returns.bind (returns_hget hc hi.noNul hw (by decide))
          rintro workerId w ⟨rfl, -⟩
          have hcounted : RetryCounted i task.retryCount w := ⟨p, f, hw, hr, hcount⟩
          split
          · -- the counter is read with `stoll` and `stoi`, which may throw
            have hdec : (redis.decrementWorkerLoad workerId).Every
                (Issues fun cmd => ∃ v, cmd = .incrby (workerLoadKey v) (-1)) :=
              issues_of_local <| decrementWorkerLoad_local ⟨cStr workerId, rfl⟩
            have hload : (redis.getWorkerLoad workerId).Every
                (Issues fun cmd => ∃ v, cmd = .incrby (workerLoadKey v) (-1)) :=
              issues_of_local <| getWorkerLoad_local workerId
            apply Ends.bind (ends_records hdec w)
            · intro _ w₁ hw₁
              apply Ends.bind (ends_records hload w₁)
              · intro load w₂ hw₂
                refine ends_unchanged (fun _ _ hs => hs) fun _ => ?_
                exact ends_countedRetry hc hi (hcounted.congr ((hw₂ i).trans (hw₁ i))) task.retryCount
              · intro x w₂ hw₂
                exact Or.inr ⟨⟨x, rfl⟩, hcounted.congr ((hw₂ i).trans (hw₁ i))⟩
            · intro x w₁ hw₁
              exact Or.inr ⟨⟨x, rfl⟩, hcounted.congr (hw₁ i)⟩
          · exact ends_countedRetry hc hi hcounted task.retryCount
        · intro τ o w' hout
          exact ⟨fun e he => ⟨shiftOperand_counted hr hcount hreply he, hmax⟩, fun h =>
            absurd h hmax, fun _ => hout⟩
    · rintro τ x w₁ ⟨_, _, _, _, _, _, ho, _⟩
      cases ho

/-! ### Calls that leave the count -/

theorem RetryCounted.exec {cmd : Command} (h : RetryCounted i c w) (ht : Tame cmd)
    (hp : Leaves i (bytes "priority") cmd) (hcount : Leaves i (bytes "retry_count") cmd) :
    RetryCounted i c (exec cmd w).2 := by
  by_cases hkey : cmd.key = taskKey i
  · cases cmd with
    | hset key field value =>
      simp only [Command.key] at hkey
      subst hkey
      obtain ⟨p, f, hw, hr, hstored⟩ := h
      have hother : field ≠ bytes "retry_count" := hcount rfl
      refine ⟨p, f.insert field value, ?_, hr.insert (hp rfl) hother ht.2, ?_⟩
      · rw [exec_hset hw, lookup_inserted]
      · rw [getElem?_insert, if_neg hother, hstored]
    | _ => exact absurd hkey hcount
  · exact h.congr (exec_frame cmd w hkey)

/-- Only a submission and the retries of a task write its count. -/
theorem Operation.Writes.leavesCount {op : Operation} {cmd : Command} (h : op.Writes cmd)
    (hsubmit : ∀ task, op = .submitTask task → task.id ≠ i)
    (hretry : ∀ taskId, op = .retryTask taskId → cStr taskId ≠ i) :
    Leaves i (bytes "priority") cmd ∧ Leaves i (bytes "retry_count") cmd := by
  -- a report stores neither field; only a retry stores the count
  have hreport : op.IsReport → (∀ taskId, op ≠ .retryTask taskId) → Leaves i (bytes "priority") cmd ∧
      Leaves i (bytes "retry_count") cmd := by
    intro hop hne
    have hfields : bytes "priority" ∉ op.fields ∧ bytes "retry_count" ∉ op.fields := by
      cases op with
      | retryTask taskId => exact absurd rfl (hne taskId)
      | _ => simp only [Operation.fields]; decide
    exact ⟨h.leaves hop fun hmem => hfields.1 hmem.2, h.leaves hop fun hmem => hfields.2 hmem.2⟩
  have hqueue : ∀ {key value : Bytes}, key ∈ queueKeys → cmd = .rpush key value →
    Leaves i (bytes "priority") cmd ∧
      Leaves i (bytes "retry_count") cmd := by
    rintro key value hq rfl
    exact ⟨(taskKey_ne_queue hq i).symm, (taskKey_ne_queue hq i).symm⟩
  cases op with
  | submitTask task =>
    rcases h with ⟨info, hinfo, rfl⟩ | rfl
    · have hne : taskKey task.id ≠ taskKey i := fun he => hsubmit task rfl (taskKey_injective he)
      exact ⟨hne, hne⟩
    · exact hqueue (queueOf_mem _) rfl
  | popNextTask =>
    obtain ⟨q, hq, rfl⟩ := h
    exact ⟨(taskKey_ne_queue hq i).symm, (taskKey_ne_queue hq i).symm⟩
  | assignTaskToWorker taskId workerId => exact hreport ⟨_, rfl⟩ fun _ he => by cases he
  | completeTask taskId result => exact hreport ⟨_, rfl⟩ fun _ he => by cases he
  | failTask taskId error => exact hreport ⟨_, rfl⟩ fun _ he => by cases he
  | retryTask taskId =>
    have hne : ¬(Operation.retryTask taskId).About i := hretry taskId rfl
    exact ⟨h.leaves ⟨_, rfl⟩ fun hmem => hne hmem.1, h.leaves ⟨_, rfl⟩ fun hmem => hne hmem.1⟩
  | dispatchIteration =>
    rcases h with ⟨q, hq, rfl⟩ | ⟨p, j, rfl⟩ | ⟨j, v, h⟩
    · exact ⟨(taskKey_ne_queue hq i).symm, (taskKey_ne_queue hq i).symm⟩
    · exact hqueue (queueOf_mem _) rfl
    · have hassign : (Operation.assignTaskToWorker j v).Writes cmd := h
      have hfields : bytes "priority" ∉ (Operation.assignTaskToWorker j v).fields ∧
          bytes "retry_count" ∉ (Operation.assignTaskToWorker j v).fields := by
        simp only [Operation.fields]
        decide
      exact ⟨hassign.leaves ⟨_, rfl⟩ fun hmem => hfields.1 hmem.2, hassign.leaves ⟨_, rfl⟩ fun hmem =>
        hfields.2 hmem.2⟩

theorem post_counted {op : Operation} (hsubmit : ∀ task, op = .submitTask task → task.id ≠ i)
    (hretry : ∀ taskId, op = .retryTask taskId → cStr taskId ≠ i) (h : RetryCounted i c w) :
    Post (served False) op.call (fun _ w' => RetryCounted i c w') w := by
  have hkeep := post_issues (served_serves False) (K := fun w w' => RetryCounted i c w → RetryCounted i c w')
    (fun _ h => h) (fun h h' hw => h' (h hw)) (fun cmd w hcmd hw => by
      obtain ⟨hp, hcount⟩ := hcmd.leavesCount hsubmit hretry
      exact hw.exec hcmd.tame hp hcount) op.call_issues w
  exact hkeep.mono fun _ _ hw => hw h

/-- A submission starts the count. -/
theorem Saved.retryCounted {info : TaskInfo} (h : Saved info w) : RetryCounted info.id info.retryCount w := by
  obtain ⟨record, hrecord, hfields⟩ := h
  have hcount : record[bytes "retry_count"]? = some (decimal info.retryCount.toInt) :=
    hfields _ _ (recordFields_of_mem (by simp [recordEntries]))
  refine ⟨info.priority, record, hrecord, ⟨?_, ?_, info.retryCount, hcount⟩, hcount⟩
  · exact hfields _ _ (recordFields_record info).priority
  · intro field hf v hv
    obtain ⟨n, hn⟩ := recordFields_number info hf
    rw [hfields field _ hn] at hv
    exact ⟨n, (Option.some.inj hv).symm⟩

end Calls

/-! ### Runs on submitted tasks -/

/-- The task that a call is told about. -/
def Operation.target : Operation → Option Bytes
  | .assignTaskToWorker taskId _ => some taskId
  | .completeTask taskId _ => some taskId
  | .failTask taskId _ => some taskId
  | .retryTask taskId => some taskId
  | _ => none

/-- The id that a call asks to submit. -/
def Operation.submits : Operation → Option Bytes
  | .submitTask task => some task.id
  | _ => none

/-- A submission of the task that returned `true`. -/
def Submitted (earlier : List TimedCall) (taskId : Bytes) : Prop :=
  ∃ c ∈ earlier, c.operation.submits = some taskId ∧ c.result = .ok (.flag true)

/-- The ids submitted are valid and distinct, and a call about a task comes after its submission. -/
structure OnSubmittedTasks (run : List TimedCall) : Prop where
  distinct : (run.filterMap fun c => c.operation.submits).Nodup
  valid : ∀ c ∈ run, ∀ i, c.operation.submits = some i → ValidId i
  submitted : ∀ earlier c rest, run = earlier ++ c :: rest → ∀ i, c.operation.target = some i →
    Submitted earlier i

/-- The calls of `retryTask` for this task that returned `true`. -/
def retriesOf (taskId : Bytes) (earlier : List TimedCall) : Nat := earlier.countP fun c => c.retries taskId

/-- The call returns `false` and changes nothing. -/
structure TimedCall.Refuses (c : TimedCall) (w : Keyspace) : Prop where
  result : c.result = .ok (.flag false)
  content : c.world = w
  balancer : ∀ event ∈ c.trace, ¬ ChangesBalancer event.1

/-- What holds of a submitted task after the first calls of a run, whatever comes next. -/
structure RetriesBounded (w : Keyspace) (earlier : List TimedCall) (taskId : Bytes) (rest : List TimedCall) :
    Prop where
  stored : recordText (worldAfter w earlier) taskId (bytes "retry_count") = decimal (retriesOf taskId earlier)
  bound : retriesOf taskId earlier ≤ 3
  exponent : ∀ c ∈ rest.head?, c.operation = .retryTask taskId → ∀ e, shiftOperand c.trace = some e →
    e.toInt = retriesOf taskId earlier ∧ retriesOf taskId earlier ≤ 2
  refused : ∀ c ∈ rest.head?, c.operation = .retryTask taskId → retriesOf taskId earlier = 3 →
    c.Refuses (worldAfter w earlier)

section Runs

variable {faulty : Prop} {w : Keyspace} {i : Bytes} {earlier rest run : List TimedCall} {c : TimedCall} {n : Nat}

/-- The counts that occur. -/
theorem countOf_le_three (h : n ≤ 3) : (Int32.ofNat n).toInt = n ∧ (3 ≤ Int32.ofNat n ↔ n = 3) ∧
    (n ≠ 3 → Int32.ofNat n + 1 = Int32.ofNat (n + 1)) := by
  have hcases : n = 0 ∨ n = 1 ∨ n = 2 ∨ n = 3 := by omega
  rcases hcases with rfl | rfl | rfl | rfl <;> decide

theorem worldAfter_snoc : worldAfter w (earlier ++ [c]) = c.world := by
  induction earlier generalizing w with
  | nil => rfl
  | cons first earlier ih => exact ih

theorem Submitted.mem (h : Submitted earlier i) : i ∈ earlier.filterMap fun c => c.operation.submits := by
  obtain ⟨c, hc, hsubmits, -⟩ := h
  exact List.mem_filterMap.2 ⟨c, hc, hsubmits⟩

theorem Submitted.valid (hrun : OnSubmittedTasks (earlier ++ rest)) (h : Submitted earlier i) : ValidId i := by
  obtain ⟨c, hc, hsubmits, -⟩ := h
  exact hrun.valid c (List.mem_append_left _ hc) i hsubmits

/-- Before its submission no retry of a task has been called. -/
theorem retriesOf_unsubmitted (hrun : OnSubmittedTasks (earlier ++ rest)) (h : ¬ Submitted earlier i) :
    retriesOf i earlier = 0 := by
  refine List.countP_eq_zero.2 fun c hc hretry => ?_
  obtain ⟨before, after, rfl⟩ := List.append_of_mem hc
  have hop := (TimedCall.operation_of_retries hretry).1
  obtain ⟨submit, hsubmit, hid⟩ := hrun.submitted before c (after ++ rest) (by simp) i (by rw [hop]; rfl)
  exact h ⟨submit, List.mem_append_left _ hsubmit, hid⟩

/-- A submission that returned `true` has started the count. -/
theorem submitted_counted {task : TaskRequest} {τ : Trace} {w' : Keyspace}
    (h : Run (served False) (Operation.call (.submitTask task)) w τ (.ok (.flag true)) w') :
    RetryCounted task.id 0 w' := by
  have hpost : Post (served False) (Operation.call (.submitTask task))
      (fun o w' => o = .ok (.flag true) → RetryCounted task.id 0 w') w := by
    refine Post.bind (post_submitTask (served_serves False) task w) ?_ ?_
    · intro flag w' hsaved hflag
      obtain rfl : flag = true := by
        injection hflag with hflag
        injection hflag
      obtain ⟨info, hinfo, hsaved⟩ := hsaved rfl
      obtain ⟨hid, hcount⟩ : info.id = task.id ∧ info.retryCount = 0 := ⟨hinfo.id, hinfo.retryCount⟩
      rw [← hid, ← hcount]
      exact hsaved.retryCounted
    · intro x w' _ he
      cases he
  exact hpost.run h rfl

/-- What a call of `retryTask` does with a counted task, with the result as a `CallResult`. -/
theorem retry_outcome {count : Int32} {τ : Trace} {o : Except StdException CallResult} {w' : Keyspace}
    (hi : ValidId i)
    (hcounted : RetryCounted i count w) (h : Run (served False) (Operation.call (.retryTask i)) w τ o w') :
    ∃ flag, RetryOutcome i count w τ flag w' ∧ o = flag.map CallResult.flag := by
  have hwp : wp (served False) (Operation.call (.retryTask i))
      (fun τ o w' => ∃ flag, RetryOutcome i count w τ flag w' ∧ o = flag.map CallResult.flag) w := by
    refine wp.bind (wp_retryTask_counted hi hcounted) ?_ ?_
    · intro τ flag w' hout
      refine ⟨.ok flag, ?_, rfl⟩
      rw [List.append_nil]
      exact hout
    · intro τ x w' hout
      exact ⟨.error x, hout, rfl⟩
  exact hwp.run h

/-- One call keeps the count of a submitted task equal to the number of its retries. -/
theorem counted_step (hn : n ≤ 3) (hi : ValidId i) (hcounted : RetryCounted i (Int32.ofNat n) w)
    (hcall : Run (served False) c.operation.call w c.trace c.result c.world)
    (hsubmit : c.operation.submits ≠ some i) (htarget : ∀ j, c.operation.target = some j → ValidId j) :
    n + (if c.retries i then 1 else 0) ≤ 3 ∧
      RetryCounted i (Int32.ofNat (n + (if c.retries i then 1 else 0))) c.world := by
  obtain ⟨time, op, τ, l, o, w'⟩ := c
  dsimp only at hcall hsubmit htarget ⊢
  by_cases hop : op = .retryTask i
  · subst hop
    obtain ⟨flag, hout, rfl⟩ := retry_outcome hi hcounted hcall
    obtain ⟨-, hthree, hsucc⟩ := countOf_le_three hn
    by_cases hmax : n = 3
    · obtain ⟨rfl, rfl, -, -⟩ := hout.refused (hthree.2 hmax)
      exact ⟨by simpa [TimedCall.retries, Except.map] using hn, hcounted⟩
    · rcases hout.retried (fun h => hmax (hthree.1 h)) with ⟨rfl, hstored⟩ | ⟨⟨x, rfl⟩, hstored⟩
      · have hretries :
            TimedCall.retries ⟨time, .retryTask i, τ, l, Except.map CallResult.flag (.ok true), w'⟩ i = true := by
          simp [TimedCall.retries, Except.map]
        rw [if_pos hretries]
        exact ⟨by omega, hsucc hmax ▸ hstored⟩
      · exact ⟨hn, hstored⟩
  · have hretries : ¬ TimedCall.retries ⟨time, op, τ, l, o, w'⟩ i = true :=
      fun h => hop (TimedCall.operation_of_retries h).1
    rw [if_neg hretries]
    refine ⟨hn, (post_counted ?_ ?_ hcounted).run hcall⟩
    · rintro task rfl hid
      exact hsubmit (congrArg some hid)
    · rintro taskId rfl he
      rw [cStr_of_noNul (htarget taskId rfl).noNul] at he
      exact hop (he ▸ rfl)

/-- The count of a submitted task is the number of its retries. -/
theorem IsTimedRun.counted (h : IsTimedRun False w (earlier ++ rest)) (hrun : OnSubmittedTasks (earlier ++ rest))
    (hi : Submitted earlier i) :
    retriesOf i earlier ≤ 3 ∧ RetryCounted i (Int32.ofNat (retriesOf i earlier)) (worldAfter w earlier) := by
  induction earlier using List.reverseRecOn generalizing rest with
  | nil =>
    obtain ⟨_, hc, -⟩ := hi
    cases hc
  | append_singleton earlier c ih =>
    have hlist : earlier ++ [c] ++ rest = earlier ++ c :: rest := List.append_cons earlier c rest ▸ rfl
    rw [hlist] at h hrun
    have hcount : retriesOf i (earlier ++ [c]) = retriesOf i earlier + (if c.retries i then 1 else 0) := by
      simp [retriesOf, List.countP_append, List.countP_singleton]
    have hvalid := Submitted.valid (hlist ▸ hrun) hi
    have hcall := h.call
    rw [hcount, worldAfter_snoc]
    by_cases hsubmits : c.operation.submits = some i
    · -- the submission of `i`: it is the only one, so no retry came before it
      have hfirst : ¬ Submitted earlier i := by
        intro hearlier
        have hnodup := hrun.distinct
        rw [List.filterMap_append, List.nodup_append] at hnodup
        exact hnodup.2.2 i hearlier.mem i (List.mem_filterMap.2 ⟨c, List.mem_cons_self, hsubmits⟩) rfl
      obtain ⟨submit, hmem, hid, hresult⟩ := hi
      rcases List.mem_append.1 hmem with hmem | hmem
      · exact absurd ⟨submit, hmem, hid, hresult⟩ hfirst
      · obtain rfl := List.mem_singleton.1 hmem
        obtain ⟨time, op, τ, l, o, w'⟩ := submit
        cases op with
        | submitTask task =>
          cases hsubmits
          cases hresult
          rw [retriesOf_unsubmitted hrun hfirst]
          exact ⟨Nat.zero_le 3, submitted_counted hcall⟩
        | _ => cases hsubmits
    · have hearlier : Submitted earlier i := by
        obtain ⟨submit, hmem, hid, hresult⟩ := hi
        rcases List.mem_append.1 hmem with hmem | hmem
        · exact ⟨submit, hmem, hid, hresult⟩
        · obtain rfl := List.mem_singleton.1 hmem
          exact absurd hid hsubmits
      obtain ⟨hn, hcounted⟩ := ih h hrun hearlier
      exact counted_step hn hvalid hcounted hcall hsubmits fun j hj =>
        (hrun.submitted earlier c rest rfl j hj).valid hrun

/-- Over every run in which nothing fails, the stored count of a submitted task is the number of its retries and
at most 3, `1 << retry_count` is evaluated up to 2, and a retry after the third changes nothing. -/
theorem retries_bounded (h : IsTimedRun False w (earlier ++ rest)) (hrun : OnSubmittedTasks (earlier ++ rest))
    (hi : Submitted earlier i) : RetriesBounded w earlier i rest := by
  obtain ⟨hn, hcounted⟩ := h.counted hrun hi
  obtain ⟨hint, hthree, -⟩ := countOf_le_three hn
  have houtcome : ∀ c ∈ rest.head?, c.operation = .retryTask i → ∃ flag,
      RetryOutcome i (Int32.ofNat (retriesOf i earlier)) (worldAfter w earlier) c.trace flag c.world ∧
        c.result = flag.map CallResult.flag := by
    intro c hc hop
    obtain ⟨rest, rfl⟩ : ∃ tail, rest = c :: tail := List.head?_eq_some_iff.1 hc
    exact retry_outcome (hi.valid hrun) hcounted (hop ▸ h.call)
  refine ⟨?_, hn, ?_, ?_⟩
  · obtain ⟨p, f, hw, -, hstored⟩ := hcounted
    rw [hint] at hstored
    simp [recordText, hw, hstored]
  · intro c hc hop e he
    obtain ⟨flag, hout, -⟩ := houtcome c hc hop
    obtain ⟨rfl, hmax⟩ := hout.operand e he
    have hne : retriesOf i earlier ≠ 3 := fun h => hmax (hthree.2 h)
    exact ⟨hint, by omega⟩
  · intro c hc hop hmax
    obtain ⟨flag, hout, hresult⟩ := houtcome c hc hop
    obtain ⟨rfl, hcontent, hbalancer, -⟩ := hout.refused (hthree.2 hmax)
    exact ⟨hresult, hcontent, hbalancer⟩

end Runs

/-! ### Four retries -/

private def fourRetries : List (Int × Operation) :=
  (0, .submitTask { id := bytes "1", type := 0, priority := 1, data := [], createdAt := 0 }) ::
    List.replicate 4 (0, .retryTask (bytes "1"))

private def TimedCall.succeeds (c : TimedCall) : Bool :=
  match c.result with
  | .ok (.flag b) => b
  | _ => false

private theorem TimedCall.result_of_succeeds {c : TimedCall} (h : c.succeeds = true) :
    c.result = .ok (.flag true) := by
  obtain ⟨time, op, τ, l, o, w'⟩ := c
  simp only [TimedCall.succeeds] at h
  split at h
  · rw [h]
  · cases h

/-- A run on one task, whose submission comes first. -/
private theorem onSubmittedTasks_of_first {i : Bytes} {first : TimedCall} {rest : List TimedCall} (hi : ValidId i)
    (hsubmits : first.operation.submits = some i) (hresult : first.result = .ok (.flag true))
    (hrest : ∀ c ∈ rest, c.operation.submits = none ∧ c.operation.target = some i) :
    OnSubmittedTasks (first :: rest) := by
  have hnone : rest.filterMap (fun c => c.operation.submits) = [] :=
    List.filterMap_eq_nil_iff.2 fun c hc => (hrest c hc).1
  refine ⟨?_, ?_, ?_⟩
  · simp [hsubmits, hnone]
  · intro c hc j hj
    rcases List.mem_cons.1 hc with rfl | hc
    · rw [hsubmits] at hj
      cases hj
      exact hi
    · rw [(hrest c hc).1] at hj
      cases hj
  · intro earlier c later he j hj
    cases earlier with
    | nil =>
      injection he with he
      subst he
      obtain ⟨time, op, τ, l, o, w'⟩ := first
      cases op with
      | submitTask task => cases hj
      | _ => cases hsubmits
    | cons submit earlier =>
      injection he with he hrest'
      subst he
      rw [(hrest c (by simp [hrest'])).2] at hj
      cases hj
      exact ⟨first, List.mem_cons_self, hsubmits, hresult⟩

private theorem playTimed_operations {w : Keyspace} {calls : List (Int × Operation)} {run : List TimedCall}
    (h : playTimed w calls = some run) : run.map TimedCall.operation = calls.map Prod.snd := by
  induction calls generalizing w run with
  | nil =>
    cases h
    rfl
  | cons c calls ih =>
    obtain ⟨time, op⟩ := c
    rw [playTimed] at h
    split at h
    · cases h
    · obtain ⟨rest, hrest, rfl⟩ := Option.map_eq_some_iff.1 h
      simp [ih hrest]

private theorem fourRetries_played : ∃ submit first second third last,
    playTimed ∅ fourRetries = some ([submit, first, second, third] ++ [last]) ∧
      OnSubmittedTasks ([submit, first, second, third] ++ [last]) ∧
      Submitted [submit, first, second, third] (bytes "1") ∧ last.operation = .retryTask (bytes "1") ∧
      (∀ c ∈ [first, second, third], c.retries (bytes "1") = true) ∧
      retriesOf (bytes "1") [submit, first, second, third] = 3 := by
  have h : ((playTimed ∅ fourRetries).map fun run => run.map fun c => (c.succeeds, c.retries (bytes "1"))) =
      some [(true, false), (true, true), (true, true), (true, true), (false, false)] := by decide +kernel
  obtain ⟨run, hplay, h⟩ := Option.map_eq_some_iff.1 h
  have hops := playTimed_operations hplay
  obtain ⟨submit, _, rfl, hsubmit, h⟩ := List.map_eq_cons_iff.1 h
  obtain ⟨first, _, rfl, hfirst, h⟩ := List.map_eq_cons_iff.1 h
  obtain ⟨second, _, rfl, hsecond, h⟩ := List.map_eq_cons_iff.1 h
  obtain ⟨third, _, rfl, hthird, h⟩ := List.map_eq_cons_iff.1 h
  obtain ⟨last, _, rfl, -, h⟩ := List.map_eq_cons_iff.1 h
  obtain rfl := List.map_eq_nil_iff.1 h
  simp only [fourRetries, List.map_cons, List.map_nil, List.replicate, List.cons.injEq] at hops
  obtain ⟨hop, hop₁, hop₂, hop₃, hop₄, -⟩ := hops
  simp only [Prod.mk.injEq] at hsubmit hfirst hsecond hthird
  have hsubmits : submit.operation.submits = some (bytes "1") := by rw [hop]; rfl
  have hresult := TimedCall.result_of_succeeds hsubmit.1
  have hretries : ∀ c ∈ [first, second, third, last], c.operation = .retryTask (bytes "1") := by
    intro c hc
    simp only [List.mem_cons, List.not_mem_nil, or_false] at hc
    rcases hc with rfl | rfl | rfl | rfl <;> assumption
  refine ⟨submit, first, second, third, last, hplay, ?_, ?_, hop₄, ?_, ?_⟩
  · refine onSubmittedTasks_of_first ⟨by decide, by decide⟩ hsubmits hresult fun c hc => ?_
    rw [hretries c hc]
    exact ⟨rfl, rfl⟩
  · exact ⟨submit, List.mem_cons_self, hsubmits, hresult⟩
  · simp [hfirst.2, hsecond.2, hthird.2]
  · simp [retriesOf, hsubmit.2, hfirst.2, hsecond.2, hthird.2]

/-- Three retries return `true`, the fourth one is refused. -/
theorem fourth_retry_refused : ∃ submit first second third last,
    playTimed ∅ fourRetries = some ([submit, first, second, third] ++ [last]) ∧
      (∀ c ∈ [first, second, third], c.retries (bytes "1") = true) ∧
      RetriesBounded ∅ [submit, first, second, third] (bytes "1") [last] ∧ last.Refuses third.world := by
  obtain ⟨submit, first, second, third, last, hplay, hrun, hi, hop, hretries, hcount⟩ := fourRetries_played
  have hbounded := retries_bounded (playTimed_isTimedRun hplay) hrun hi
  exact ⟨submit, first, second, third, last, hplay, hretries, hbounded, hbounded.refused last rfl hop hcount⟩

end Taskflow
