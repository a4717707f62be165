import Taskflow.DispatchFailures

/-!
# Retries and their backoff

`retryTask` computes a delay of `2 ^ retry_count` seconds and stores it under a key `retry:` that nothing reads;
the id goes to the tail of its list at once.  In a run of calls at any times, with any failures, the lists are
lines: what an `LPOP` takes out is who has stood there longest (`line_eq`), whether a delay is over or not.  So
whether a task comes back too early is a matter of its places in the lines and of how many are taken out before
it (`backoff_respected_iff`).
-/

namespace Taskflow

open Text Effects Prog

/-! ### Calls at times -/

inductive CallResult where
  | done
  | flag (b : Bool)
  | task (taskId : Bytes)

/-- An operation with what it returns. -/
def Operation.call : Operation → Code CallResult
  | .submitTask task => do return .flag (← Taskflow.submitTask task)
  | .popNextTask => do return .task (← Taskflow.popNextTask)
  | .assignTaskToWorker taskId workerId => do return .flag (← Taskflow.assignTaskToWorker taskId workerId)
  | .completeTask taskId result => do return .flag (← Taskflow.completeTask taskId result)
  | .failTask taskId error => do return .flag (← Taskflow.failTask taskId error)
  | .retryTask taskId => do return .flag (← Taskflow.retryTask taskId)
  | .dispatchIteration => do taskDispatchIteration; return .done

/-- A call with its time in milliseconds, its events, what became of its commands, what it returned and the
content it left. -/
structure TimedCall where
  time : Int
  operation : Operation
  trace : Trace
  log : List Sent
  result : Except StdException CallResult
  world : Keyspace

/-- The calls one after the other. -/
def IsTimedRun (faulty : Prop) : Keyspace → List TimedCall → Prop
  | _, [] => True
  | w, c :: rest =>
    Run (accounted faulty).logged c.operation.call (w, []) c.trace c.result (c.world, c.log) ∧
      IsTimedRun faulty c.world rest

/-- The content after the calls. -/
def worldAfter : Keyspace → List TimedCall → Keyspace
  | w, [] => w
  | _, c :: rest => worldAfter c.world rest

/-- A call of `retryTask` for this task that returned `true`. -/
def TimedCall.retries (c : TimedCall) (taskId : Bytes) : Bool :=
  match c.operation, c.result with
  | .retryTask i, .ok (.flag true) => i == taskId
  | _, _ => false

/-- When the delay of a retry is over: the `r`-th retry of a task waits `2 ^ r` seconds. -/
def backoffEnd (before : List TimedCall) (retry : TimedCall) (taskId : Bytes) : Int :=
  retry.time + 1000 * 2 ^ before.countP fun c => c.retries taskId

/-- No task is popped after its retry until the delay is over. -/
def BackoffRespected (run : List TimedCall) : Prop :=
  ∀ before retry between pop rest taskId, run = before ++ retry :: (between ++ pop :: rest) →
    retry.retries taskId = true → taskId ∈ pops pop.trace → backoffEnd before retry taskId ≤ pop.time

/-! ### Places and turns -/

/-- The text that an `LPOP` took out of this list, whether its reply arrived or not. -/
def Sent.left (queue : Bytes) (x : Sent) : Option Bytes :=
  match x.command, x.reply with
  | .lpop key, .string i => if key = queue ∧ x.fate ≠ .refused then some i else none
  | _, _ => none

/-- The text that an `RPUSH` appended to this list. -/
def Sent.joined (queue : Bytes) (x : Sent) : Option Bytes :=
  match x.command with
  | .rpush key i => if key = queue ∧ x.fate ≠ .refused then some i else none
  | _ => none

/-- The text reached the code. -/
def Sent.Gives (i : Bytes) (x : Sent) : Prop := x.fate = .answered ∧ ∃ queue ∈ queueKeys, x.left queue = some i

/-- Somebody is taken out of a list: when, and what became of the `LPOP`. -/
structure Turn where
  time : Int
  fate : Fate

/-- The turns of a list in some calls. -/
def turnsOf (queue : Bytes) (run : List TimedCall) : List Turn :=
  run.flatMap fun c => (c.log.filter fun x => (x.left queue).isSome).map fun x => ⟨c.time, x.fate⟩

/-- Who stands in line: those who wait there, and behind them those who join during some calls. -/
def line (queue : Bytes) (w : Keyspace) (run : List TimedCall) : List Bytes :=
  queueItems w queue ++ run.flatMap fun c => c.log.filterMap (Sent.joined queue)

/-- From a retry on, at each place in a line where the task stands the turn comes when the delay is over, if it
comes at all and its reply is not lost.  The line starts with those who waited there before the retry, the retry
itself appends the task. -/
def TurnsComeLate (w : Keyspace) (run : List TimedCall) : Prop :=
  ∀ before retry after taskId, run = before ++ retry :: after → retry.retries taskId = true → taskId ≠ [] →
    ∀ queue ∈ queueKeys, ∀ (place : Nat) turn,
      (line queue (worldAfter w before) (retry :: after))[place]? = some taskId →
      (turnsOf queue (retry :: after))[place]? = some turn → turn.fate = .answered →
      backoffEnd before retry taskId ≤ turn.time

/-! ### First in, first out -/

section Lines

variable {faulty : Prop} {w v w' : Keyspace} {τ τ' : Trace} {l l' : List Sent}

/-- What the commands of a program did to the lists, and what of it the program received. -/
structure QueueAccount (w : Keyspace) (τ : Trace) (l : List Sent) (w' : Keyspace) : Prop where
  wellFormed : WellFormed w'
  line : ∀ queue ∈ queueKeys,
    queueItems w queue ++ l.filterMap (Sent.joined queue) = l.filterMap (Sent.left queue) ++ queueItems w' queue
  received : ∀ i, i ∈ pops τ ↔ i ≠ [] ∧ ∃ x ∈ l, x.Gives i

theorem QueueAccount.append (h : QueueAccount w τ l v) (h' : QueueAccount v τ' l' w') :
    QueueAccount w (τ ++ τ') (l ++ l') w' := by
  refine ⟨h'.wellFormed, fun queue hq => ?_, fun i => ?_⟩
  · rw [List.filterMap_append, List.filterMap_append, ← List.append_assoc, h.line queue hq, List.append_assoc,
      h'.line queue hq, List.append_assoc]
  · rw [pops_append, List.mem_append, h.received, h'.received]
    simp only [List.mem_append, or_and_right, exists_or, ← and_or_left]

/-- Nothing is pushed or popped. -/
theorem queueAccount_still (hw : WellFormed w') (hitems : ∀ queue ∈ queueKeys,
    queueItems w' queue = queueItems w queue)
    (hpops : pops τ = []) (hl : ∀ x ∈ l, ∀ queue, x.joined queue = none ∧ x.left queue = none) :
    QueueAccount w τ l w' := by
  refine ⟨hw, fun queue hq => ?_, fun i => ?_⟩
  · rw [List.filterMap_eq_nil_iff.2 fun x hx => (hl x hx queue).1, List.filterMap_eq_nil_iff.2 fun x hx =>
      (hl x hx queue).2, hitems queue hq, List.append_nil, List.nil_append]
  · refine iff_of_false (by simp [hpops]) ?_
    rintro ⟨-, x, hx, -, queue, -, hleft⟩
    rw [(hl x hx queue).2] at hleft
    cases hleft

/-- A command that is not executed. -/
theorem sent_refused (cmd : Command) (reply : Reply) (queue : Bytes) :
    (Sent.mk cmd .refused reply).joined queue = none ∧ (Sent.mk cmd .refused reply).left queue = none := by
  constructor
  · unfold Sent.joined
    split <;> simp
  · unfold Sent.left
    split <;> simp

variable {context : Nat} {cmd : Command} {r : Option Reply} {fate : Fate}

/-- `RPUSH` appends to its list. -/
private theorem queueAccount_rpush {key i : Bytes} (hw : WellFormed w) (hq : key ∈ queueKeys)
    (hw' : WellFormed (exec (.rpush key i) w).2) (hfate : fate ≠ .refused) :
    QueueAccount w [⟨.command context (.rpush key i), r⟩] [⟨.rpush key i, fate, (exec (.rpush key i) w).1⟩]
      (exec (.rpush key i) w).2 := by
  have happended := appended_rpush (x := i) hq (hw.queues key hq)
  refine ⟨hw', fun queue _ => ?_, fun j => iff_of_false (by simp [pops]) ?_⟩
  · rw [happended.items_eq]
    by_cases he : key = queue <;> simp [Sent.joined, Sent.left, he, hfate]
  · rintro ⟨-, x, hx, -, queue, -, hleft⟩
    obtain rfl := List.mem_singleton.1 hx
    cases hleft

/-- `LPOP` takes the head of its list, and gives it to the program if its reply arrives. -/
private theorem queueAccount_lpop {key : Bytes} (hw : WellFormed w) (hq : key ∈ queueKeys)
    (hw' : WellFormed (exec (.lpop key) w).2) (hfate : fate ≠ .refused)
    (hr : (fate = .answered ∧ r = some (exec (.lpop key) w).1) ∨ (fate ≠ .answered ∧ r = none)) :
    QueueAccount w [⟨.command context (.lpop key), r⟩] [⟨.lpop key, fate, (exec (.lpop key) w).1⟩]
      (exec (.lpop key) w).2 := by
  rcases exec_lpop (hw.queues key hq) with ⟨x, hx, hitems, hqueue⟩ | ⟨hx, hsame, -⟩
  · refine ⟨hw', fun queue hmem => ?_, fun i => ?_⟩
    · by_cases he : key = queue
      · subst he
        simp [Sent.joined, Sent.left, hx, hfate, hitems]
      · have hframe : queueItems (exec (.lpop key) w).2 queue = queueItems w queue :=
          queueItems_congr (exec_frame _ w he)
        simp [Sent.joined, Sent.left, hx, he, hframe]
    · have hleft : ∀ queue, Sent.left queue ⟨.lpop key, fate, .string x⟩ =
          if key = queue then some x else none := by
        intro queue
        simp [Sent.left, hfate]
      simp only [List.mem_singleton, exists_eq_left, Sent.Gives, hx, hleft]
      have hgives : (∃ queue ∈ queueKeys, (if key = queue then some x else none) = some i) ↔ i = x := by
        constructor
        · rintro ⟨queue, -, hsome⟩
          split at hsome
          · exact (Option.some.inj hsome).symm
          · cases hsome
        · rintro rfl
          exact ⟨key, hq, if_pos rfl⟩
      rw [hgives]
      rcases hr with ⟨hanswered, rfl⟩ | ⟨hlost, rfl⟩
      · rw [hx]
        by_cases hempty : x = []
        · exact iff_of_false (by simp [pops, replyText, hempty]) fun h => h.1 (h.2.2.trans hempty)
        · have hpops : pops [⟨.command context (.lpop key), some (.string x)⟩] = [x] := by
            simp [pops, replyText, hempty]
          rw [hpops, List.mem_singleton]
          exact ⟨fun h => ⟨h ▸ hempty, hanswered, h⟩, fun h => h.2.2⟩
      · exact iff_of_false (by simp [pops, replyText]) fun h => hlost h.2.1
  · refine queueAccount_still hw' (fun queue _ => by rw [hsame]) ?_ ?_
    · rcases hr with ⟨-, rfl⟩ | ⟨-, rfl⟩
      · simp [pops, hx, replyText]
      · rfl
    · intro x hmem queue
      obtain rfl := List.mem_singleton.1 hmem
      rw [hx]
      exact ⟨rfl, rfl⟩

/-- One command of the dispatcher, whatever becomes of it. -/
theorem queueAccount_command (hw : WellFormed w) (ht : Tame cmd) (hw' : WellFormed w')
    (hd : Delivered cmd w fate r w') :
    QueueAccount w [⟨.command context cmd, r⟩] [⟨cmd, fate, (exec cmd w).1⟩] w' := by
  rcases hd.world with ⟨rfl, rfl⟩ | ⟨hfate, rfl, -⟩
  · refine queueAccount_still hw' (fun _ _ => rfl) ?_ fun x hx queue => ?_
    · have htext : replyText r = [] := by rcases hd.failed (by decide) with rfl | rfl <;> rfl
      cases cmd <;> simp [pops, htext]
    · rw [List.mem_singleton.1 hx]
      exact sent_refused cmd _ queue
  · have hother : cmd.key ∉ queueKeys ∨ cmd.reads = true → isPush cmd = false → isPop cmd = false →
        QueueAccount w [⟨.command context cmd, r⟩] [⟨cmd, fate, (exec cmd w).1⟩] (exec cmd w).2 := by
      intro hkey hpush hpop
      refine queueAccount_still hw' (fun queue hq => ?_) ?_ fun x hx queue => ?_
      · rcases hkey with hkey | hreads
        · refine queueItems_congr (exec_frame cmd w ?_)
          rintro rfl
          exact hkey hq
        · rw [exec_reads hreads]
      · cases cmd with
        | lpop key => cases hpop
        | _ => rfl
      · rw [List.mem_singleton.1 hx]
        cases cmd with
        | rpush key i => cases hpush
        | lpop key => cases hpop
        | _ => exact ⟨rfl, rfl⟩
    have htask : ∀ i, taskKey i ∉ queueKeys := fun i hq => taskKey_ne_queue hq i rfl
    have hload : ∀ v, workerLoadKey v ∉ queueKeys := fun v hq => workerLoadKey_ne_queue hq v rfl
    cases cmd with
    | rpush key i => exact queueAccount_rpush hw ht.1 hw' hfate
    | lpop key =>
      refine queueAccount_lpop hw ht hw' hfate ?_
      cases fate with
      | answered => exact Or.inl ⟨rfl, hd.1⟩
      | lost => exact Or.inr ⟨by decide, hd.1⟩
      | refused => exact absurd rfl hfate
    | hmset key fields =>
      obtain ⟨task, rfl, -⟩ := ht
      exact hother (Or.inl (htask task.id)) rfl rfl
    | hset key field value =>
      obtain ⟨⟨i, rfl⟩, -⟩ := ht
      exact hother (Or.inl (htask i)) rfl rfl
    | setex key seconds value => exact hother (Or.inl ht.1) rfl rfl
    | incr key =>
      obtain ⟨v, rfl⟩ := ht
      exact hother (Or.inl (hload v)) rfl rfl
    | incrby key n =>
      obtain ⟨v, rfl⟩ := ht
      exact hother (Or.inl (hload v)) rfl rfl
    | _ => exact hother (Or.inr rfl) rfl rfl

theorem wp_queueAccount {α : Type} {p : Code α} (hp : p.Every TameEffect) (hw : WellFormed w) :
    (accounted faulty).wp p (fun τ l _ w' => QueueAccount w τ l w') w := by
  refine (Account.wp.collect (K := fun w τ l w' => WellFormed w → QueueAccount w τ l w') ?_ ?_ hp w).mono ?_
  · exact fun w hw => queueAccount_still hw (fun _ _ => rfl) rfl fun _ h => by cases h
  · intro e w r w' entries τ l w'' ht hs hrest hw
    have hw' := hw.step ht (served_of_accounted hs)
    refine QueueAccount.append (τ := [⟨e, r⟩]) ?_ (hrest hw')
    cases e with
    | command context cmd =>
      obtain ⟨fate, -, hd, rfl⟩ := hs
      exact queueAccount_command hw ht hw' hd
    | getConnection =>
      obtain ⟨⟨rfl, -⟩, rfl⟩ := hs
      exact queueAccount_still hw (fun _ _ => rfl) rfl fun _ h => by cases h
    | selectWorker taskId =>
      obtain ⟨⟨rfl, -⟩, rfl⟩ := hs
      exact queueAccount_still hw (fun _ _ => rfl) rfl fun _ h => by cases h
    | _ =>
      obtain ⟨hsame, rfl⟩ := hs
      obtain rfl := hsame
      exact queueAccount_still hw (fun _ _ => rfl) rfl fun _ h => by cases h
  · exact fun τ l o w' h => h hw

end Lines

/-! ### What a call pops -/

/-- `popNextTask`, alone or at the start of an iteration of the dispatch loop. -/
def Operation.popsTask : Operation → Bool
  | .popNextTask => true
  | .dispatchIteration => true
  | _ => false

/-- Effects other than `LPOP`. -/
def NoPop (e : Effect) : Prop := ∀ context key, e ≠ .command context (.lpop key)

theorem pops_noPop {τ : Trace} (h : ∀ event ∈ τ, NoPop event.1) : pops τ = [] := by
  refine List.filterMap_eq_nil_iff.2 ?_
  rintro ⟨e, r⟩ hevent
  split
  · rename_i context key r heq
    cases heq
    exact absurd rfl (h _ hevent context key)
  · rfl

theorem noPop_of_issues {e : Effect} (h : Issues (fun cmd => ∀ key, cmd ≠ .lpop key) e) : NoPop e := by
  rintro context key rfl
  rcases h with hreads | hne
  · cases hreads
  · exact hne key rfl

/-- No other command of the dispatcher takes anything from a list. -/
theorem Operation.Writes.noPop {op : Operation} {cmd : Command} (h : op.Writes cmd) (hop : op.popsTask = false)
    (key : Bytes) : cmd ≠ .lpop key := by
  rintro rfl
  cases op with
  | submitTask task => rcases h with ⟨info, -, he⟩ | he <;> cases he
  | popNextTask => cases hop
  | assignTaskToWorker taskId workerId => rcases h with he | he | ⟨now, he⟩ | he <;> cases he
  | completeTask taskId result => rcases h with (he | ⟨-, he⟩ | ⟨now, he⟩) | he | ⟨v, he⟩ <;> cases he
  | failTask taskId error => rcases h with (he | ⟨-, he⟩ | ⟨now, he⟩) | ⟨v, he⟩ <;> cases he
  | retryTask taskId => rcases h with ⟨n, he⟩ | ⟨v, he⟩ | ⟨n, he⟩ | ⟨p, he⟩ <;> cases he
  | dispatchIteration => cases hop

theorem Operation.call_issues (op : Operation) : op.call.Every (Issues op.Writes) := by
  cases op with
  | submitTask task => exact .bind (submitTask_issues fun _ h => h) fun _ => trivial
  | popNextTask => exact .bind (popNextTask_issues fun q hq => ⟨q, hq, rfl⟩) fun _ => trivial
  | assignTaskToWorker taskId workerId => exact .bind (assignTaskToWorker_issues fun _ h => h) fun _ => trivial
  | completeTask taskId result => exact .bind (completeTask_issues fun _ h => h) fun _ => trivial
  | failTask taskId error => exact .bind (failTask_issues fun _ h => h) fun _ => trivial
  | retryTask taskId => exact .bind (retryTask_issues fun _ h => h) fun _ => trivial
  | dispatchIteration => exact .bind (taskDispatchIteration_issues fun _ h => h) fun _ => trivial

/-- A retry pops nothing. -/
theorem pops_retryTask {faulty : Prop} {w w' : Keyspace} {taskId : Bytes} {τ : Trace}
    {o : Except StdException CallResult} (h : Run (served faulty) (Operation.call (.retryTask taskId)) w τ o w') :
    pops τ = [] := by
  have hevents : (Operation.call (.retryTask taskId)).Every NoPop := by
    refine (Operation.call_issues _).mono fun e he => ?_
    cases e with
    | command context cmd =>
      exact noPop_of_issues (e := .command context cmd) (he.imp_right fun h => h.noPop rfl)
    | _ => exact fun context key he => by cases he
  exact pops_noPop ((wp.events hevents w).run h)

/-! ### What a retry pushes -/

section Retries

variable {faulty : Prop} {w : Keyspace} {redis : RedisClient} {i : Bytes}

/-- The `RPUSH`es of a program. -/
def pushesOf (l : List Sent) : List Sent := l.filter fun x => isPush x.command

theorem wp_noPush {α : Type} {p : Code α} (hp : p.Every (Issues fun cmd => isPush cmd = false)) (w : Keyspace) :
    (accounted faulty).wp p (fun _ l _ _ => pushesOf l = []) w := by
  refine Account.wp.collect (K := fun _ _ l _ => pushesOf l = []) (fun _ => rfl) ?_ hp w
  intro e w r w' entries τ l w'' he hs hrest
  rw [pushesOf, List.filter_append, show l.filter (fun x => isPush x.command) = [] from hrest, List.append_nil]
  cases e with
  | command context cmd =>
    obtain ⟨fate, -, -, rfl⟩ := hs
    have hpush : isPush cmd = false := by
      rcases he with hreads | hpush
      · cases cmd <;> first | rfl | cases hreads
      · exact hpush
    simp [hpush]
  | _ =>
    obtain ⟨-, rfl⟩ := hs
    rfl

/-- A retry that returns `true` has pushed its id once. -/
def PushesOnce (i : Bytes) (l : List Sent) : Prop :=
  ∃ p fate reply, pushesOf l = [⟨.rpush (queueOf p) (cStr i), fate, reply⟩]

theorem PushesOnce.after {l l' : List Sent} (hl : pushesOf l = []) (h : PushesOnce i l') :
    PushesOnce i (l ++ l') := by
  obtain ⟨p, fate, reply, hpush⟩ := h
  refine ⟨p, fate, reply, ?_⟩
  rw [pushesOf, List.filter_append]
  show pushesOf l ++ pushesOf l' = _
  rw [hl, hpush, List.nil_append]

/-- A first part that pushes nothing. -/
theorem wp_pushesOnce {α : Type} {p : Code α} {f : α → Code Bool}
    (hp : p.Every (Issues fun cmd => isPush cmd = false))
    (hf : ∀ a w, (accounted faulty).wp (f a) (fun _ l o _ => o = .ok true → PushesOnce i l) w) (w : Keyspace) :
    (accounted faulty).wp (p >>= f) (fun _ l o _ => o = .ok true → PushesOnce i l) w := by
  refine Account.wp.bind (wp_noPush hp w) ?_ fun _ _ _ _ _ he => by cases he
  intro τ l a w' hl
  refine (hf a w').mono ?_
  intro τ' l' o w'' hrest ho
  exact (hrest ho).after hl

theorem wp_requeueRetry_pushes (hc : redis.connected = true) (i : Bytes) (retryCount : Int32) (w : Keyspace) :
    (accounted faulty).wp (redis.requeueRetry i retryCount) (fun _ l o _ => o = .ok true → PushesOnce i l) w := by
  refine wp_pushesOnce (issues_of_local <| incrementTaskRetry_local fun n => rfl) (fun _ w => ?_) w
  refine wp_pushesOnce (issues_of_local <| getTask_local _) (fun task w => ?_) w
  refine wp_pushesOnce (p := systemClock) ⟨trivial, fun _ => trivial⟩ (fun now w => ?_) w
  refine wp_pushesOnce (issues_of_local <| setex_local rfl) (fun _ w => ?_) w
  rw [RedisClient.pushToPriorityQueue, rpush_eq hc, cStr_queue (queueOf_mem _)]
  rintro r w₁ _ ⟨fate, -, -, rfl⟩ _ w₂ _ ⟨-, rfl⟩ -
  exact ⟨task.priority, fate, _, rfl⟩

theorem wp_retryTask_pushes (i : Bytes) (w : Keyspace) :
    (accounted faulty).wp (retryTask i) (fun _ l o _ => o = .ok true → PushesOnce i l) w := by
  rw [retryTask, getConnection_bind]
  rintro r w' _ ⟨⟨-, hconn, -⟩, rfl⟩
  cases r with
  | none => exact fun he => by cases he
  | some redis =>
    have hc := hconn redis rfl
    refine wp_pushesOnce (issues_of_local <| getTask_local _) (fun task w => ?_) w'
    dsimp only
    split
    · exact fun _ _ _ _ he => by cases he
    · refine wp_pushesOnce (issues_of_local <| hget_local _ _) (fun workerId w => ?_) w
      split
      · refine wp_pushesOnce (issues_of_local <| decrementWorkerLoad_local rfl) (fun _ w => ?_) w
        refine wp_pushesOnce (issues_of_local <| getWorkerLoad_local _) (fun load w => ?_) w
        rintro u w₁ _ ⟨-, rfl⟩
        exact wp_requeueRetry_pushes hc i _ w₁
      · exact wp_requeueRetry_pushes hc i _ w

end Retries

/-! ### Whole runs -/

section Runs

variable {faulty : Prop} {w : Keyspace} {earlier rest run : List TimedCall} {c : TimedCall}

theorem IsTimedRun.logged (h : IsTimedRun faulty w (earlier ++ c :: rest)) :
    Run (accounted faulty).logged c.operation.call (worldAfter w earlier,
      []) c.trace c.result (c.world, c.log) := by
  induction earlier generalizing w with
  | nil => exact h.1
  | cons first earlier ih => exact ih h.2

theorem IsTimedRun.call (h : IsTimedRun faulty w (earlier ++ c :: rest)) :
    Run (served faulty) c.operation.call (worldAfter w earlier) c.trace c.result c.world :=
  Account.run_of_logged (S := served faulty) served_of_accounted h.logged

/-- The rest of a run is one from the content that its start has left. -/
theorem IsTimedRun.drop (h : IsTimedRun faulty w (earlier ++ rest)) :
    IsTimedRun faulty (worldAfter w earlier) rest := by
  induction earlier generalizing w with
  | nil => exact h
  | cons first earlier ih => exact ih h.2

theorem Operation.tame_call (op : Operation) : op.call.Every TameEffect :=
  tame_of_issues (fun _ h => h.tame) op.call_issues

theorem IsTimedRun.account (h : IsTimedRun faulty w (c :: rest)) (hw : WellFormed w) :
    QueueAccount w c.trace c.log c.world :=
  (wp_queueAccount c.operation.tame_call hw).run_nil h.1

theorem IsTimedRun.wellFormed (h : IsTimedRun faulty w (earlier ++ rest)) (hw : WellFormed w) :
    WellFormed (worldAfter w earlier) := by
  induction earlier generalizing w with
  | nil => exact hw
  | cons first earlier ih => exact ih h.2 (h.account hw).wellFormed

/-- Those who are taken out of a list, with their turns. -/
def departures (queue : Bytes) (run : List TimedCall) : List (Turn × Bytes) :=
  run.flatMap fun c => c.log.filterMap fun x => (x.left queue).map fun i => (⟨c.time, x.fate⟩, i)

theorem turns_eq (queue : Bytes) (run : List TimedCall) :
    turnsOf queue run = (departures queue run).map Prod.fst := by
  have hcall : ∀ (time : Int) (l : List Sent),
      (l.filter fun x => (x.left queue).isSome).map (fun x => (⟨time, x.fate⟩ : Turn)) =
        (l.filterMap fun x => (x.left queue).map fun i => ((⟨time, x.fate⟩ : Turn), i)).map Prod.fst := by
    intro time l
    induction l with
    | nil => rfl
    | cons x l ih => cases hx : x.left queue <;> simp [hx, ih]
  simp only [turnsOf, departures, List.map_flatMap, hcall]

theorem TimedCall.operation_of_retries {i : Bytes} (h : c.retries i = true) :
    c.operation = .retryTask i ∧ c.result = .ok (.flag true) := by
  obtain ⟨time, op, τ, l, o, w'⟩ := c
  simp only [TimedCall.retries] at h
  split at h
  · rename_i taskId
    obtain rfl : taskId = i := by simpa using h
    exact ⟨rfl, rfl⟩
  · cases h

/-- The lists are lines: those who stand there leave in this order. -/
theorem line_eq (h : IsTimedRun faulty w run) (hw : WellFormed w) {queue : Bytes} (hq : queue ∈ queueKeys) :
    line queue w run = (departures queue run).map Prod.snd ++ queueItems (worldAfter w run) queue := by
  induction run generalizing w with
  | nil => simp [line, departures, worldAfter]
  | cons c rest ih =>
    have haccount := h.account hw
    have htexts : (c.log.filterMap fun x => (x.left queue).map fun i =>
      ((⟨c.time, x.fate⟩ : Turn), i)).map Prod.snd =
        c.log.filterMap (Sent.left queue) := by
      rw [List.map_filterMap]
      congr 1
      funext x
      cases x.left queue <;> rfl
    have hrest := ih h.2 haccount.wellFormed
    calc line queue w (c :: rest)
        = (queueItems w queue ++ c.log.filterMap (Sent.joined queue)) ++
            rest.flatMap (fun c => c.log.filterMap (Sent.joined queue)) := by simp [line]
      _ = c.log.filterMap (Sent.left queue) ++ line queue c.world rest := by
        rw [haccount.line queue hq, List.append_assoc]
        rfl
      _ = (departures queue (c :: rest)).map Prod.snd ++ queueItems (worldAfter w (c :: rest)) queue := by
        have hdepartures : departures queue (c :: rest) =
            (c.log.filterMap fun x => (x.left queue).map fun i =>
              (⟨c.time, x.fate⟩, i)) ++ departures queue rest := rfl
        rw [hrest, hdepartures, List.map_append, htexts, List.append_assoc]
        rfl

/-- Whose turn it is. -/
theorem IsTimedRun.stands (h : IsTimedRun faulty w run) (hw : WellFormed w) {queue : Bytes} (hq : queue ∈ queueKeys)
    {place : Nat} {turn : Turn} {i : Bytes} (hd : (departures queue run)[place]? = some (turn, i)) :
    (line queue w run)[place]? = some i ∧ (turnsOf queue run)[place]? = some turn := by
  have hmap : ((departures queue run).map Prod.snd)[place]? = some i := by rw [List.getElem?_map, hd]; rfl
  have hlt : place < ((departures queue run).map Prod.snd).length := (List.getElem?_eq_some_iff.1 hmap).1
  constructor
  · rw [line_eq h hw hq, List.getElem?_append_left hlt, hmap]
  · rw [turns_eq, List.getElem?_map, hd]
    rfl

/-- A turn that comes too early at a place where a retried task stands pops the task. -/
theorem turnsComeLate_of_respected (hw : WellFormed w) (hrun : IsTimedRun faulty w run) (h : BackoffRespected run) :
    TurnsComeLate w run := by
  rintro before retry after taskId rfl hretry hne queue hq place turn hplace hturn hanswered
  have hfrom := hrun.drop
  have hw' := hrun.wellFormed hw
  -- who leaves at this turn is who stands at this place
  rw [turns_eq, List.getElem?_map] at hturn
  obtain ⟨⟨_, i⟩, hdeparture, rfl⟩ := Option.map_eq_some_iff.1 hturn
  have hi : i = taskId := by
    rw [(hfrom.stands hw' hq hdeparture).1] at hplace
    exact Option.some.inj hplace
  subst hi
  obtain ⟨c, hc, hleft⟩ := List.mem_flatMap.1 (List.mem_of_getElem? hdeparture)
  obtain ⟨x, hx, hleft⟩ := List.mem_filterMap.1 hleft
  obtain ⟨_, hleft, heq⟩ := Option.map_eq_some_iff.1 hleft
  cases heq
  obtain ⟨between, rest, hsplit⟩ := List.append_of_mem hc
  have haccount := (hsplit ▸ hfrom).drop.account ((hsplit ▸ hfrom).wellFormed hw')
  have hpops : i ∈ pops c.trace := (haccount.received i).2 ⟨hne, x, hx, hanswered, queue, hq, hleft⟩
  cases between with
  | nil =>
    obtain ⟨rfl, rfl⟩ := List.cons.inj hsplit
    have hcall := hrun.call
    rw [(TimedCall.operation_of_retries hretry).1] at hcall
    rw [pops_retryTask hcall] at hpops
    cases hpops
  | cons first between =>
    obtain ⟨rfl, rfl⟩ := List.cons.inj hsplit
    exact h before retry between c rest i rfl hretry hpops

/-- What is popped stood in a line, and it was its turn. -/
theorem respected_of_turnsComeLate (hw : WellFormed w) (hrun : IsTimedRun faulty w run) (h : TurnsComeLate w run) :
    BackoffRespected run := by
  rintro before retry between pop rest taskId rfl hretry hpops
  have hfrom := hrun.drop
  have hw' := hrun.wellFormed hw
  have hlater : IsTimedRun faulty (worldAfter w before) ((retry :: between) ++ pop :: rest) := hfrom
  obtain ⟨hne, x, hx, hanswered, queue, hq, hleft⟩ :=
    (((hlater.drop).account (hlater.wellFormed hw')).received taskId).1 hpops
  have hmem : (⟨pop.time, x.fate⟩, taskId) ∈ departures queue (retry :: (between ++ pop :: rest)) := by
    refine List.mem_flatMap.2 ⟨pop, by simp, List.mem_filterMap.2 ⟨x, hx, ?_⟩⟩
    rw [hleft]
    rfl
  obtain ⟨place, hplace⟩ := List.mem_iff_getElem?.1 hmem
  obtain ⟨hstands, hturn⟩ := hfrom.stands hw' hq hplace
  exact h before retry _ taskId rfl hretry hne queue hq place _ hstands hturn hanswered

/-- A retry appends its task to a list, unless its `RPUSH` is refused. -/
theorem joined_of_retry {retry : TimedCall} (h : IsTimedRun faulty w (retry :: rest)) {i : Bytes} (hi : 0 ∉ i)
    (hretry : retry.retries i = true) (hpush : refused isPush retry.log = false) :
    ∃ queue ∈ queueKeys, retry.log.filterMap (Sent.joined queue) = [i] := by
  have hwp : (accounted faulty).wp (Operation.call (.retryTask i))
      (fun _ l o _ => o = .ok (.flag true) → PushesOnce i l) w := by
    refine Account.wp.bind (wp_retryTask_pushes i w) ?_ fun _ _ _ _ _ he => by cases he
    intro τ l flag w' hpushes he
    rw [List.append_nil]
    cases flag with
    | false => cases he
    | true => exact hpushes rfl
  obtain ⟨hop, hresult⟩ := TimedCall.operation_of_retries hretry
  have hrun := h.1
  rw [hop] at hrun
  obtain ⟨p, fate, reply, hpushes⟩ := hwp.run_nil hrun hresult
  refine ⟨queueOf p, queueOf_mem p, ?_⟩
  -- only an `RPUSH` appends
  have hjoined : retry.log.filterMap (Sent.joined (queueOf p)) =
      (pushesOf retry.log).filterMap (Sent.joined (queueOf p)) := by
    rw [pushesOf, List.filterMap_filter]
    refine List.filterMap_congr fun x _ => ?_
    obtain ⟨cmd, _, _⟩ := x
    cases cmd <;> rfl
  have hfate : fate ≠ .refused := by
    rintro rfl
    have hmem : (⟨.rpush (queueOf p) (cStr i), .refused, reply⟩ : Sent) ∈ pushesOf retry.log := by simp [hpushes]
    have hrefused : refused isPush retry.log = true :=
      List.any_eq_true.2 ⟨_, (List.mem_filter.1 hmem).1, rfl⟩
    rw [hpush] at hrefused
    cases hrefused
  rw [hjoined, hpushes]
  simp [Sent.joined, hfate, cStr_of_noNul hi]

/-- So a retried task stands at the end of a line at once: it is back too early when those who wait there are
taken out while the delay runs, and the task after them. -/
theorem retried_stands_last {before after : List TimedCall} {retry : TimedCall} {i : Bytes}
    (hi : 0 ∉ i) (hne : i ≠ [])
    (hw : WellFormed w) (hrun : IsTimedRun faulty w (before ++ retry :: after)) (hretry : retry.retries i = true)
    (hpush : refused isPush retry.log = false) (h : BackoffRespected (before ++ retry :: after)) :
    ∃ queue ∈ queueKeys, ∀ turn,
      (turnsOf queue (retry :: after))[(queueItems (worldAfter w before) queue).length]? = some turn →
        turn.fate = .answered → backoffEnd before retry i ≤ turn.time := by
  obtain ⟨queue, hq, hjoined⟩ := joined_of_retry hrun.drop hi hretry hpush
  refine ⟨queue, hq, fun turn hturn hanswered => ?_⟩
  refine turnsComeLate_of_respected hw hrun h before retry after i rfl hretry hne queue hq _ turn ?_ hturn hanswered
  simp [line, hjoined]

end Runs

/-! ### A retry that is popped at once -/

/-- Makes the calls at their times with nothing failing. -/
def playTimed : Keyspace → List (Int × Operation) → Option (List TimedCall)
  | _, [] => some []
  | w, (time, op) :: rest =>
    match op.call.play (account (fun _ => .answered) []) (w, []) with
    | none => none
    | some (τ, o, w', l) => (playTimed w' rest).map (⟨time, op, τ, l, o, w'⟩ :: ·)

theorem playTimed_isTimedRun {w : Keyspace} {calls : List (Int × Operation)} {run : List TimedCall}
    (h : playTimed w calls = some run) : IsTimedRun False w run := by
  induction calls generalizing w run with
  | nil =>
    cases h
    trivial
  | cons c calls ih =>
    obtain ⟨time, op⟩ := c
    rw [playTimed] at h
    split at h
    · cases h
    · rename_i τ o w' l hplay
      obtain ⟨rest, hrest, rfl⟩ := Option.map_eq_some_iff.1 h
      exact ⟨Run.of_play (account_logged (fun _ h => absurd rfl h) fun h => absurd rfl h) hplay, ih hrest⟩

private def retryAtOnce : List (Int × Operation) :=
  [(0, .submitTask { id := bytes "1", type := 0, priority := 1, data := [], createdAt := 0 }), (0, .popNextTask),
    (0, .retryTask (bytes "1")), (1, .popNextTask)]

private theorem retryAtOnce_pops : ∃ submit pop retry again,
    playTimed ∅ retryAtOnce = some [submit, pop, retry, again] ∧
    retry.time = 0 ∧ again.time = 1 ∧ retry.retries (bytes "1") = true ∧ bytes "1" ∈ pops again.trace := by
  have h : ((playTimed ∅ retryAtOnce).map fun run =>
      run.map fun c => (c.time, c.retries (bytes "1"), pops c.trace)) =
        some [(0, false, []), (0, false, [bytes "1"]), (0, true, []), (1, false, [bytes "1"])] := by decide
  obtain ⟨run, hrun, h⟩ := Option.map_eq_some_iff.1 h
  obtain ⟨submit, _, rfl, -, h⟩ := List.map_eq_cons_iff.1 h
  obtain ⟨pop, _, rfl, -, h⟩ := List.map_eq_cons_iff.1 h
  obtain ⟨retry, _, rfl, hretry, h⟩ := List.map_eq_cons_iff.1 h
  obtain ⟨again, _, rfl, hagain, h⟩ := List.map_eq_cons_iff.1 h
  obtain rfl := List.map_eq_nil_iff.1 h
  injection hretry with htime hretries
  injection hretries with hretries
  injection hagain with hlater hpops
  injection hpops with _ hpops
  exact ⟨submit, pop, retry, again, hrun, htime, hlater, hretries, by rw [hpops]; simp⟩

end Taskflow
