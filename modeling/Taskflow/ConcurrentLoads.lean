import Taskflow.DispatcherSpecs
import Taskflow.Lib.Executions

/-!
# Worker counters under concurrent reports

Any number of `completeTask`, `failTask` and `retryTask` calls, interleaved command by command (`reportSystem`).
`decrementWorkerLoad` looks at the counter with `GET` and takes one off with `INCRBY`, and other calls may do the
same in between.  A decrement is due on a counter from the moment its `GET` has read a positive number until its
`INCRBY`.  The counters stay non-negative as long as no decrement becomes due on a counter that is not above the
number of decrements that are due on it already (`loads_nonneg`).
-/

namespace Taskflow

open Text Effects Prog

/-- A call that takes a task off its worker. -/
inductive Report where
  | completeTask (taskId : Bytes) (result : TaskResult)
  | failTask (taskId error : Bytes)
  | retryTask (taskId : Bytes)

def Report.code : Report → Code Bool
  | .completeTask taskId result => Taskflow.completeTask taskId result
  | .failTask taskId error => Taskflow.failTask taskId error
  | .retryTask taskId => Taskflow.retryTask taskId

/-- How far a call has come with its decrement. -/
inductive Decrement where
  | ahead
  | due (key : Bytes)
  | past
  deriving DecidableEq

def Decrement.observe : Decrement → Event Effect Effect.Answer → Decrement
  | .ahead, ⟨.command _ (.get key), reply⟩ =>
    match stoll (replyText reply) with
    | .ok load => if 0 < load then .due key else .past
    | .error _ => .past
  | .due _, ⟨.command _ (.incrby _ _), _⟩ => .past
  | stage, _ => stage

/-- Every thread makes one call. -/
def reportSystem (ι : Type) (faulty : Prop) :
    System ι Effect Effect.Answer StdException Bool Keyspace Decrement where
  sem := served faulty
  observe := Decrement.observe
  fresh := .ahead
  again _ := none

def reportStart {ι : Type} (report : ι → Report) (w : Keyspace) :
    Pool ι Effect Effect.Answer StdException Bool Keyspace Decrement where
  world := w
  thread i := ⟨(report i).code, .ahead⟩

/-- The integer that a key holds. -/
def integerAt (w : Keyspace) (key : Bytes) : Option Int :=
  match w[key]? with
  | some (.string b) => redisInteger b
  | _ => none

theorem integerAt_congr {w w' : Keyspace} {key : Bytes} (h : w'[key]? = w[key]?) :
    integerAt w' key = integerAt w key := by
  simp only [integerAt, h]

theorem workerLoad_eq_integerAt (w : Keyspace) (v : Bytes) :
    workerLoad w v = (integerAt w (workerLoadKey v)).getD 0 := by
  unfold workerLoad integerAt
  cases w[workerLoadKey v]? with
  | none => rfl
  | some value => cases value <;> rfl

variable {ι : Type} [Fintype ι]

/-- The number of decrements that are due on a counter. -/
def pending (n : ι → Decrement) (key : Bytes) : Nat := tally (· == .due key) n

/-- Where a decrement becomes due, the counter is above the number of those that are due on it already. -/
def LeavesEnough : Proviso ι Effect Effect.Answer Keyspace Decrement := fun w n i event =>
  ∀ key c, n i = .ahead → Decrement.observe (n i) event = .due key → integerAt w key = some c →
    pending n key < c

/-- No more decrements are due on a counter than it holds. -/
structure LoadsCover (w : Keyspace) (n : ι → Decrement) : Prop where
  absent : ∀ v, w[workerLoadKey v]? = none → pending n (workerLoadKey v) = 0
  covered : ∀ v c, integerAt w (workerLoadKey v) = some c → pending n (workerLoadKey v) ≤ c

theorem LoadsCover.nonneg {w : Keyspace} {n : ι → Decrement} (h : LoadsCover w n) (v : Bytes) :
    0 ≤ workerLoad w v := by
  rw [workerLoad_eq_integerAt]
  cases hc : integerAt w (workerLoadKey v) with
  | none => simp
  | some c =>
    have hcover := h.covered v c hc
    simp only [Option.getD_some]
    omega

/-! ### Counting the decrements that are due -/

section Pending

variable [DecidableEq ι] {n : ι → Decrement} {i : ι}

theorem pending_update (n : ι → Decrement) (i : ι) (g : Decrement) (key : Bytes) :
    pending (Function.update n i g) key + (if n i = .due key then 1 else 0) =
      pending n key + if g = .due key then 1 else 0 := by
  have h := tally_update (· == .due key) n i g
  simp only [beq_iff_eq] at h
  exact h

/-- A stage that is not due on a counter, before and after. -/
theorem pending_same {g : Decrement} {key : Bytes} (hn : n i ≠ .due key) (hg : g ≠ .due key) :
    pending (Function.update n i g) key = pending n key :=
  tally_same (by rw [beq_false_of_ne hn, beq_false_of_ne hg])

end Pending

/-! ### The commands on counters -/

theorem LoadsCover.of_same {w w' : Keyspace} {n : ι → Decrement} (h : LoadsCover w n)
    (hsame : ∀ v, w'[workerLoadKey v]? = w[workerLoadKey v]?) : LoadsCover w' n := by
  constructor
  · intro v hv
    exact h.absent v ((hsame v).symm.trans hv)
  · intro v c hc
    exact h.covered v c ((integerAt_congr (hsame v)).symm.trans hc)

section Guard

variable [DecidableEq ι] {w w' : Keyspace} {n : ι → Decrement} {i : ι} {v : Bytes}

/-- `GET` of a counter that is not positive, or cannot be read. -/
theorem LoadsCover.passed (h : LoadsCover w n) (hn : ∀ key, n i ≠ .due key) :
    LoadsCover w (Function.update n i .past) := by
  have hsame : ∀ u, pending (Function.update n i .past) (workerLoadKey u) = pending n (workerLoadKey u) :=
    fun u => pending_same (hn _) (fun hg => nomatch hg)
  constructor
  · intro u hu
    rw [hsame]
    exact h.absent u hu
  · intro u c hc
    rw [hsame]
    exact h.covered u c hc

/-- `GET` of a positive counter. -/
theorem LoadsCover.guarded (h : LoadsCover w n) (hn : n i = .ahead) (hpresent : w[workerLoadKey v]? ≠ none)
    (henough : ∀ c, integerAt w (workerLoadKey v) = some c → pending n (workerLoadKey v) < c) :
    LoadsCover w (Function.update n i (.due (workerLoadKey v))) := by
  have hcount := fun u => pending_update n i (.due (workerLoadKey v)) (workerLoadKey u)
  simp only [hn, reduceCtorEq, if_false, Decrement.due.injEq, workerLoadKey_inj] at hcount
  constructor
  · intro u hu
    have hne : v ≠ u := by
      rintro rfl
      exact hpresent hu
    have hbefore := h.absent u hu
    have hafter := hcount u
    rw [if_neg hne] at hafter
    omega
  · intro u c hc
    have hafter := hcount u
    by_cases he : v = u
    · subst he
      have hless := henough c hc
      rw [if_pos rfl] at hafter
      omega
    · have hbefore := h.covered u c hc
      rw [if_neg he] at hafter
      omega

/-- What `INCRBY` leaves in a counter: one less, or what it was. -/
theorem integerAt_decremented {c : Int} {key : Bytes} (hkey : w[key]? ≠ none)
    (hc : integerAt (execIncrby key (-1) w).2 key = some c) :
    integerAt w key = some (c + 1) ∨ integerAt w key = some c := by
  unfold execIncrby at hc
  cases hw : w[key]? with
  | none => exact absurd hw hkey
  | some value =>
    rw [hw] at hc
    cases value with
    | list l => exact .inr hc
    | hash f => exact .inr hc
    | string b =>
      dsimp only at hc
      cases hb : redisInteger b with
      | none =>
        rw [hb] at hc
        exact .inr hc
      | some m =>
        rw [hb] at hc
        dsimp only at hc
        split at hc
        · rename_i hrange
          have hread := redisInteger_of_bounds hrange.1 hrange.2
          simp only [integerAt, lookup_inserted, hread, Option.some.injEq] at hc
          left
          simp only [integerAt, hw, hb, Option.some.injEq]
          omega
        · exact .inr hc

theorem present_of_incrby {key : Bytes} (h : (execIncrby key (-1) w).2[key]? = none) : w[key]? = none := by
  cases hw : w[key]? with
  | none => rfl
  | some value =>
    unfold execIncrby at h
    rw [hw] at h
    cases value with
    | list l => exact absurd (hw.symm.trans h) (by simp)
    | hash f => exact absurd (hw.symm.trans h) (by simp)
    | string b =>
      dsimp only at h
      split at h
      · split at h
        · simp at h
        · exact absurd (hw.symm.trans h) (by simp)
      · exact absurd (hw.symm.trans h) (by simp)

/-- `INCRBY` of a call whose decrement is due; nothing is taken off when it fails. -/
theorem LoadsCover.decremented (h : LoadsCover w n) (hn : n i = .due (workerLoadKey v))
    (hw : w' = (exec (.incrby (workerLoadKey v) (-1)) w).2 ∨ w' = w) :
    LoadsCover w' (Function.update n i .past) := by
  have hcount := fun u => pending_update n i .past (workerLoadKey u)
  simp only [hn, reduceCtorEq, if_false, Decrement.due.injEq, workerLoadKey_inj] at hcount
  have hmine := hcount v
  rw [if_pos rfl] at hmine
  have hpresent : w[workerLoadKey v]? ≠ none := by
    intro hnone
    have hzero := h.absent v hnone
    omega
  have hother : ∀ u, v ≠ u → w'[workerLoadKey u]? = w[workerLoadKey u]? := by
    intro u hu
    rcases hw with rfl | rfl
    · exact exec_frame _ _ (by simpa [Command.key] using hu)
    · rfl
  have hkept : w'[workerLoadKey v]? = none → w[workerLoadKey v]? = none := by
    rcases hw with rfl | rfl
    · exact present_of_incrby
    · exact id
  -- a command that the server refuses leaves the counter one too high, which is enough as well
  have hless : ∀ c, integerAt w' (workerLoadKey v) = some c →
      integerAt w (workerLoadKey v) = some (c + 1) ∨ integerAt w (workerLoadKey v) = some c := by
    rcases hw with rfl | rfl
    · exact fun c hc => integerAt_decremented hpresent hc
    · exact fun c hc => .inr hc
  constructor
  · intro u hu
    have hafter := hcount u
    by_cases he : v = u
    · subst he
      exact absurd (hkept hu) hpresent
    · have hbefore := h.absent u ((hother u he).symm.trans hu)
      omega
  · intro u c hc
    have hafter := hcount u
    by_cases he : v = u
    · subst he
      rcases hless c hc with hbefore | hbefore
      · have hcover := h.covered v _ hbefore
        omega
      · have hcover := h.covered v _ hbefore
        omega
    · have hcover := h.covered u c ((integerAt_congr (hother u he)).symm.trans hc)
      rw [if_neg he] at hafter
      omega

end Guard

/-! ### The calls -/

/-- The commands that neither change the stage nor a counter. -/
def Decrement.Ignores : Decrement → Command → Prop
  | .ahead, cmd => (∀ key, cmd ≠ .get key) ∧ ∀ v, cmd.key ≠ workerLoadKey v
  | .due _, _ => False
  | .past, cmd => cmd.reads = true ∨ ∀ v, cmd.key ≠ workerLoadKey v

theorem Decrement.observe_ignored {stage : Decrement} {e : Effect} (r : e.Answer) (h : Commands stage.Ignores e)
    (hdue : ∀ key, stage ≠ .due key) : stage.observe ⟨e, r⟩ = stage := by
  cases stage with
  | past => rfl
  | due key => exact absurd rfl (hdue key)
  | ahead =>
    cases e with
    | command context cmd =>
      cases cmd with
      | get key => exact absurd rfl (h.1 key)
      | _ => rfl
    | _ => rfl

theorem Decrement.Ignores.past {cmd : Command} (h : Decrement.ahead.Ignores cmd) : Decrement.past.Ignores cmd :=
  .inr h.2

section Calls

variable {faulty : Prop} {redis : RedisClient} {i : ι} {α β : Type} {Q : Except StdException β →
  Decrement → Prop}

theorem quiet_ignored {stage : Decrement} (hdue : ∀ key, stage ≠ .due key) :
    Quiet (reportSystem ι faulty) LoadsCover stage (Commands stage.Ignores) := by
  refine ⟨fun e r he => Decrement.observe_ignored r he hdue, fun e w n r w' he h hs => ?_⟩
  rcases (served_serves faulty).changes hs with rfl | ⟨context, cmd, rfl, rfl⟩
  · exact h
  have hsame : cmd.reads = true ∨ ∀ v, cmd.key ≠ workerLoadKey v := by
    cases stage with
    | ahead => exact .inr he.2
    | due key => exact absurd rfl (hdue key)
    | past => exact he
  rcases hsame with hreads | hkey
  · rwa [exec_reads hreads]
  · exact h.of_same fun v => exec_frame cmd w (hkey v)

theorem quiet_ahead : Quiet (reportSystem ι faulty) LoadsCover .ahead (Commands Decrement.ahead.Ignores) :=
  quiet_ignored fun _ h => nomatch h

theorem quiet_past : Quiet (reportSystem ι faulty) LoadsCover .past (Commands Decrement.past.Ignores) :=
  quiet_ignored fun _ h => nomatch h

variable [DecidableEq ι]

/-- The program of thread `i` keeps `LoadsCover`. -/
def Covers (faulty : Prop) (i : ι) (Q : Except StdException β → Decrement → Prop) (p : Code β)
    (g : Decrement) : Prop :=
  OutlineIf (reportSystem ι faulty) LeavesEnough LoadsCover i Q p g

theorem Covers.after {p : Code α} {f : α → Code β} (hp : p.Every (Only Decrement.ahead.Ignores))
    (hok : ∀ a, Covers faulty i Q (f a) .ahead) (herr : ∀ x, Q (.error x) .ahead) :
    Covers faulty i Q (p >>= f) .ahead :=
  OutlineIf.after quiet_ahead (commands_of_only hp) hok herr

theorem Covers.rest {p : Code β} (hp : p.Every (Commands Decrement.past.Ignores)) :
    Covers faulty i (fun _ _ => True) p .past :=
  (OutlineIf.quiet quiet_past hp).mono fun _ _ _ => trivial

theorem Covers.idle {p : Code β} (hp : p.Every (Commands Decrement.ahead.Ignores)) :
    Covers faulty i (fun _ _ => True) p .ahead :=
  (OutlineIf.quiet quiet_ahead hp).mono fun _ _ _ => trivial

theorem Covers.connection {f : Option RedisClient → Code β} (hnone : Covers faulty i Q (f none) .ahead)
    (h : ∀ redis, redis.connected = true → Covers faulty i Q (f (some redis)) .ahead) :
    Covers faulty i Q (getConnection >>= f) .ahead := by
  refine OutlineIf.call quiet_ahead trivial ?_
  rintro w n r w' - ⟨-, hconn, -⟩
  cases r with
  | none => exact hnone
  | some redis => exact h redis (hconn redis rfl)

/-- `decrementWorkerLoad`: a decrement becomes due at `GET`, if at all, and is past after `INCRBY`. -/
theorem Covers.decrementWorkerLoad (hc : redis.connected = true) (v : Bytes) :
    Covers faulty i (fun _ g => g = .past) (redis.decrementWorkerLoad v) .ahead := by
  rw [RedisClient.decrementWorkerLoad, get_eq hc, cStr_workerLoadKey_eq, call_bind]
  intro w n r w' hI hn hs henough
  replace hs : served faulty (.command redis.context (.get (workerLoadKey (cStr v)))) w r w' := hs
  obtain rfl : w' = w := served_reads rfl hs
  have hnote : (reportSystem ι faulty).observe .ahead ⟨.command redis.context (.get (workerLoadKey (cStr v))), r⟩ =
      match stoll (replyText r) with
      | .ok load => if 0 < load then .due (workerLoadKey (cStr v)) else .past
      | .error _ => .past := rfl
  dsimp only [ret_bind]
  cases hload : stoll (replyText r) with
  | error x =>
    rw [hload] at hnote
    rw [hnote]
    exact ⟨hI.passed fun key hdue => (nomatch hn.symm.trans hdue), rfl⟩
  | ok load =>
    rw [hload] at hnote
    dsimp only at hnote
    rw [ofExcept_ok, ret_bind, hnote]
    by_cases hpos : 0 < load
    · rw [if_pos hpos] at hnote ⊢
      rw [if_pos hpos, incrby_eq hc, cStr_workerLoadKey_eq, call_bind]
      have hpresent : w'[workerLoadKey (cStr v)]? ≠ none := by
        intro hnone
        have htext : replyText r = [] := by
          rcases served_reply hs with ⟨rfl, -⟩ | ⟨-, rfl | rfl⟩
          · simp only [exec, hnone, replyText]
          · rfl
          · rfl
        rw [htext] at hload
        cases hload
      have hdue := hI.guarded hn hpresent fun c hcounter =>
        henough _ c hn (by rw [hn]; exact hnote) hcounter
      refine ⟨hdue, ?_⟩
      -- the second command: others may have run since the first one
      intro w₁ n₁ r₁ w₂ hI₁ hn₁ hs₁ _
      have hserved : served faulty (.command redis.context (.incrby (workerLoadKey (cStr v)) (-1)))
        w₁ r₁ w₂ := hs₁
      exact ⟨hI₁.decremented hn₁ ((served_world hserved).symm.imp_left And.left), rfl⟩
    · rw [if_neg hpos] at hnote ⊢
      rw [if_neg hpos]
      exact ⟨hI.passed fun key hdue => (nomatch hn.symm.trans hdue), rfl⟩

theorem getWorkerLoad_ignored (v : Bytes) : (redis.getWorkerLoad v).Every (Commands Decrement.past.Ignores) :=
  commands_of_only (getWorkerLoad_only (.inl rfl))

/-- The commands on a record of a task. -/
theorem record_ignored {cmd : Command} {taskId : Bytes} (hkey : cmd.key = taskKey taskId)
    (hget : ∀ key, cmd ≠ .get key) : Decrement.ahead.Ignores cmd :=
  ⟨hget, fun v h => workerLoadKey_ne_taskKey v taskId (h.symm.trans hkey)⟩

theorem hget_ignored (taskId field : Bytes) :
    (redis.hget (taskKey taskId) field).Every (Only Decrement.ahead.Ignores) :=
  hget_only (record_ignored (cStr_taskKey_eq taskId) fun _ h => nomatch h)

theorem updateTaskStatus_ignored (taskId errorMsg : Bytes) (status : Int32) :
    (redis.updateTaskStatus taskId status errorMsg).Every (Only Decrement.ahead.Ignores) := by
  refine updateTaskStatus_only ?_
  rintro cmd (rfl | ⟨-, rfl⟩ | ⟨now, rfl⟩)
  · exact record_ignored rfl fun _ h => nomatch h
  · exact record_ignored rfl fun _ h => nomatch h
  · exact record_ignored rfl fun _ h => nomatch h

theorem return_ignored {A : Command → Prop} {a : α} :
    (do returnConnection redis; return a : Code α).Every (Commands A) :=
  ⟨trivial, fun _ => trivial⟩

/-- The end of both reports: the task is taken off its worker. -/
theorem Covers.report {workerId : Bytes} (hc : redis.connected = true) {report : Code Unit}
    (hr : report.Every (Commands Decrement.past.Ignores)) : Covers faulty i (fun _ _ => True) (do
      if (!workerId.isEmpty) = true then
        let _ ← redis.decrementWorkerLoad workerId
        let load ← redis.getWorkerLoad workerId
        updateWorkerLoad workerId load
        report
      returnConnection redis
      return true : Code Bool) .ahead := by
  dsimp only
  split
  · refine OutlineIf.bind (Covers.decrementWorkerLoad hc workerId) ?_ (fun _ _ _ => trivial)
    rintro _ _ rfl
    refine Covers.rest (.bind (getWorkerLoad_ignored workerId) fun load => ?_)
    exact .bind ⟨trivial, fun _ => trivial⟩ fun _ => .bind hr fun _ => return_ignored
  · exact Covers.idle return_ignored

theorem Covers.completeTask (taskId : Bytes) (result : TaskResult) :
    Covers faulty i (fun _ _ => True) (completeTask taskId result) .ahead := by
  refine Covers.connection trivial fun redis hc => ?_
  refine Covers.after (hget_ignored taskId _) (fun workerId => ?_) (fun _ => trivial)
  refine Covers.after (updateTaskStatus_ignored taskId [] 2) (fun _ => ?_) (fun _ => trivial)
  refine Covers.after (hset_record_only (by decide) (record_ignored rfl fun _ h => nomatch h)) (fun _ => ?_)
    (fun _ => trivial)
  exact Covers.report hc ⟨trivial, fun _ => trivial⟩

theorem Covers.failTask (taskId error : Bytes) :
    Covers faulty i (fun _ _ => True) (failTask taskId error) .ahead := by
  refine Covers.connection trivial fun redis hc => ?_
  refine Covers.after (hget_ignored taskId _) (fun workerId => ?_) (fun _ => trivial)
  refine Covers.after (updateTaskStatus_ignored taskId error 3) (fun _ => ?_) (fun _ => trivial)
  exact Covers.report hc ⟨trivial, fun _ => trivial⟩

/-- What a retry does after it has taken the task off its worker. -/
theorem requeue_ignored (taskId : Bytes) (retryCount : Int32) :
    (redis.requeueRetry taskId retryCount).Every (Commands Decrement.ahead.Ignores) := by
  refine .bind (commands_of_only (incrementTaskRetry_only ?_ fun n => ?_)) fun _ => ?_
  · exact record_ignored rfl fun _ h => nomatch h
  · exact record_ignored rfl fun _ h => nomatch h
  refine .bind (commands_of_only (getTask_only (record_ignored rfl fun _ h => nomatch h))) fun task => ?_
  refine .bind ⟨trivial, fun _ => trivial⟩ fun _ => ?_
  have hset : ∀ n, Decrement.ahead.Ignores (.setex (cStr (bytes "retry:" ++ decimal n ++ bytes ":" ++ taskId))
      (retryDelay retryCount) (cStr taskId)) :=
    fun n => ⟨fun _ h => (nomatch h), retryKey_ne_workerLoadKey (retryKey_head n taskId)⟩
  have hpush : Decrement.ahead.Ignores (.rpush (queueOf task.priority) (cStr taskId)) :=
    ⟨fun _ h => (nomatch h), fun v h => workerLoadKey_ne_queue (queueOf_mem task.priority) v h.symm⟩
  refine .bind (commands_of_only (setex_only (hset _))) fun _ => ?_
  exact .bind (commands_of_only (pushToPriorityQueue_only hpush)) fun _ => return_ignored

theorem Covers.retryTask (taskId : Bytes) :
    Covers faulty i (fun _ _ => True) (retryTask taskId) .ahead := by
  refine Covers.connection trivial fun redis hc => ?_
  refine Covers.after (getTask_only (record_ignored rfl fun _ h => nomatch h)) (fun task => ?_) (fun _ => trivial)
  dsimp only
  split
  · exact Covers.idle return_ignored
  refine Covers.after (hget_ignored taskId _) (fun workerId => ?_) (fun _ => trivial)
  split
  · refine OutlineIf.bind (Covers.decrementWorkerLoad hc workerId) ?_ (fun _ _ _ => trivial)
    rintro _ _ rfl
    refine Covers.rest (.bind (getWorkerLoad_ignored workerId) fun load => ?_)
    exact .bind ⟨trivial, fun _ => trivial⟩ fun _ => commands_mono (requeue_ignored taskId _) fun _ => .past
  · exact Covers.idle (requeue_ignored taskId _)

theorem Covers.report_code (report : Report) : Covers faulty i (fun _ _ => True) report.code .ahead := by
  cases report with
  | completeTask taskId result => exact Covers.completeTask taskId result
  | failTask taskId error => exact Covers.failTask taskId error
  | retryTask taskId => exact Covers.retryTask taskId

end Calls

/-! ### Every interleaving -/

theorem LoadsCover.start {w : Keyspace} (h : ∀ v, 0 ≤ workerLoad w v) : LoadsCover w fun _ : ι =>
    Decrement.ahead := by
  have hnone : ∀ key, pending (fun _ : ι => Decrement.ahead) key = 0 := by
    exact fun key => tally_eq_zero fun _ => rfl
  constructor
  · exact fun v _ => hnone _
  · intro v c hc
    have hload := h v
    rw [workerLoad_eq_integerAt, hc, Option.getD_some] at hload
    rw [hnone]
    omega

/-- In every interleaving in which a decrement becomes due only where the counter is above the number of decrements
that are due on it already, no counter becomes negative. -/
theorem loads_nonneg [DecidableEq ι] {faulty : Prop} {report : ι → Report} {w : Keyspace}
    (h : ∀ v, 0 ≤ workerLoad w v) {P : Pool ι Effect Effect.Answer StdException Bool Keyspace Decrement}
    (hr : ReachableIf (reportSystem ι faulty) LeavesEnough (reportStart report w) P) (v : Bytes) :
    0 ≤ workerLoad P.world v := by
  have hstart : OutlinedIf (reportSystem ι faulty) LeavesEnough LoadsCover (fun _ _ _ => True)
      (reportStart report w) := by
    constructor
    · exact LoadsCover.start h
    · exact fun i => Covers.report_code (report i)
    · exact fun _ _ hb => nomatch hb
    · exact fun _ _ _ _ hb => nomatch hb
  exact (hstart.reachable hr).inv.nonneg v

/-- The condition can be checked while a schedule is played. -/
def leavesEnough (w : Keyspace) (n : ι → Decrement) (i : ι) (event : Event Effect Effect.Answer) : Bool :=
  match n i, Decrement.observe (n i) event with
  | .ahead, .due key => (integerAt w key).all fun c => decide ((pending n key : Int) < c)
  | _, _ => true

theorem leavesEnough_sound (w : Keyspace) (n : ι → Decrement) (i : ι) (event : Event Effect Effect.Answer)
    (h : leavesEnough w n i event = true) : LeavesEnough w n i event := by
  intro key c hahead hdue hc
  rw [leavesEnough, hdue, hahead] at h
  simpa [hc] using h

/-- Two tasks that run on the same worker, and its counter. -/
def twoOnOneWorker (load : Bytes) : Keyspace :=
  (((∅ : Keyspace).insert (workerLoadKey (bytes "w")) (.string load)).insert (taskKey (bytes "1"))
    (.hash ((∅ : StringMap Bytes).insert (bytes "worker_id") (bytes "w")))).insert (taskKey (bytes "2"))
    (.hash ((∅ : StringMap Bytes).insert (bytes "worker_id") (bytes "w")))

private theorem twoOnOneWorker_nonneg {load : Bytes} (h : 0 ≤ (redisInteger load).getD 0) (v : Bytes) :
    0 ≤ workerLoad (twoOnOneWorker load) v := by
  have hload : (twoOnOneWorker load)[workerLoadKey v]? = if bytes "w" = v then some (.string load) else none := by
    simp [twoOnOneWorker]
  unfold workerLoad
  rw [hload]
  split
  · rename_i b hb
    split at hb
    · cases hb
      exact h
    · cases hb
  · decide

/-- Both tasks are reported at once. -/
private def twoReports (b : Bool) : Report := .completeTask (if b then bytes "1" else bytes "2") ⟨[]⟩

/-- Both reads come before both decrements. -/
private def readBothFirst : List Bool := List.replicate 7 true ++ List.replicate 7 false ++ [true, false]

/-- Two reports that both read `1` and both take one off. -/
theorem counter_goes_negative : ¬∀ (report : Bool → Report) (w : Keyspace), (∀ v, 0 ≤ workerLoad w v) →
    ∀ P, Reachable (reportSystem Bool False) (reportStart report w) P → ∀ v, 0 ≤ workerLoad P.world v := by
  intro h
  have hplay : ((reportStart twoReports (twoOnOneWorker (bytes "1"))).play (reportSystem Bool False)
      (fun _ _ _ _ => true) (answer (fun _ => false) []) readBothFirst).map
        (fun run => workerLoad run.2.world (bytes "w")) = some (-1) := by decide +kernel
  obtain ⟨⟨τ, P⟩, hP, hload⟩ := Option.map_eq_some_iff.1 hplay
  have hr : ReachableIf _ (fun _ _ _ _ => True) _ P :=
    ReachableIf.of_play answer_fault_free (fun _ _ _ _ _ => trivial) hP
  have hnonneg := h _ _ (twoOnOneWorker_nonneg (by decide)) P hr.reachable (bytes "w")
  rw [hload] at hnonneg
  exact absurd hnonneg (by decide)

/-- The same two reports find a counter of `2`: the second decrement becomes due while the first one is, and
both are taken off. -/
theorem loads_nonneg_bothDue : ∃ P, ReachableIf (reportSystem Bool False) LeavesEnough
    (reportStart twoReports (twoOnOneWorker (bytes "2"))) P ∧
    (∀ b, (P.thread b).note = .past) ∧ workerLoad P.world (bytes "w") = 0 ∧ ∀ v,
      0 ≤ workerLoad P.world v := by
  have hplay : ((reportStart twoReports (twoOnOneWorker (bytes "2"))).play (reportSystem Bool False)
      leavesEnough (answer (fun _ => false) []) readBothFirst).map
        (fun run => ((run.2.thread true).note, (run.2.thread false).note, workerLoad run.2.world (bytes "w"))) =
      some (.past, .past, 0) := by decide +kernel
  obtain ⟨⟨τ, P⟩, hP, hends⟩ := Option.map_eq_some_iff.1 hplay
  simp only [Prod.mk.injEq] at hends
  have hr := ReachableIf.of_play answer_fault_free leavesEnough_sound hP
  refine ⟨P, hr, fun b => ?_, hends.2.2, fun v => loads_nonneg (twoOnOneWorker_nonneg (by decide)) hr v⟩
  cases b with
  | true => exact hends.1
  | false => exact hends.2.1

end Taskflow
