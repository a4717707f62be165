import Taskflow.DispatcherSpecs
import Taskflow.Lib.Executions
import Taskflow.Lib.BitFields

/-!
# Concurrent retries of one task

Any number of `retryTask` calls for the same task, interleaved command by command (`retrySystem`).
`incrementTaskRetry` reads the count with `HGET` and stores one more with `HSET`, and other calls may do the same in
between.  If every call still finds the count that it read when it stores, and that count is below the limit, then
the calls that returned `true` are counted, and there are no more of them than retries left (`retries_counted`).
-/

namespace Taskflow

open Text Effects Prog

/-- How far a call has come with storing the count and pushing the id. -/
inductive RetryStage where
  | checking
  | read (count : Int32)
  | stored
  | lost
  | pushed
  deriving DecidableEq

/-- The count that `incrementTaskRetry` reads. -/
def readCount (text : Bytes) : Except StdException Int32 := if text.isEmpty then .ok 0 else stoi 10 text

def RetryStage.observe : RetryStage → Event Effect Effect.Answer → RetryStage
  | .checking, ⟨.command _ (.hget _ field), reply⟩ =>
    if field = bytes "retry_count" then
      match readCount (replyText reply) with
      | .ok count => .read count
      | .error _ => .checking
    else .checking
  | .read _, ⟨.command _ (.hset _ _ _), reply⟩ => if succeeded reply then .stored else .lost
  | .stored, ⟨.command _ (.rpush _ _), _⟩ => .pushed
  | stage, _ => stage

/-- The call has stored the count. -/
def RetryStage.hasStored : RetryStage → Bool
  | .stored => true
  | .pushed => true
  | _ => false

def RetryStage.hasPushed : RetryStage → Bool
  | .pushed => true
  | _ => false

/-- Every thread makes one call. -/
def retrySystem (ι : Type) (faulty : Prop) :
    System ι Effect Effect.Answer StdException Bool Keyspace RetryStage where
  sem := served faulty
  observe := RetryStage.observe
  fresh := .checking
  again _ := none

@[simp] theorem retrySystem_observe (ι : Type) (faulty : Prop) :
    (retrySystem ι faulty).observe = RetryStage.observe := rfl

/-- All threads retry the same task. -/
def retryStart (ι : Type) (taskId : Bytes) (w : Keyspace) :
    Pool ι Effect Effect.Answer StdException Bool Keyspace RetryStage where
  world := w
  thread _ := ⟨retryTask taskId, .checking⟩

variable {ι : Type}

/-- When a call stores, the record has the count that the call read, which is below the limit, and `HSET`
succeeds. -/
def Undisturbed (taskId : Bytes) : Proviso ι Effect Effect.Answer Keyspace RetryStage := fun w n j event =>
  match n j with
  | .read count =>
    recordText w taskId (bytes "retry_count") = decimal count.toInt ∧ count < 3 ∧ (n j).observe event = .stored
  | _ => True

/-- A call that has ended, with a value or with an exception. -/
def hasEnded {α : Type} : Code α → Bool
  | .call _ _ => false
  | _ => true

/-- A call that has returned `true`. -/
def returnedTrue : Code Bool → Bool
  | .ret b => b
  | _ => false

/-- The number of calls that have returned `true`. -/
def retries [Fintype ι] (P : Pool ι Effect Effect.Answer StdException Bool Keyspace RetryStage) : Nat :=
  tally (fun thread => returnedTrue thread.prog) P.thread

/-- The record counts the calls that have stored, which are no more than retries were left; each of them has pushed
the id at most once. -/
structure RetriesCounted [Fintype ι] (taskId : Bytes) (count : Int32) (copies : Nat) (w : Keyspace)
    (n : ι → RetryStage) : Prop where
  record : ∃ p f m, w[taskKey taskId]? = some (.hash f) ∧ TaskRecord p f ∧
    f[bytes "retry_count"]? = some (decimal (Int32.toInt m)) ∧ m.toInt = count.toInt + tally RetryStage.hasStored n
  most : count.toInt + tally RetryStage.hasStored n ≤ 3
  copies : occurrences w taskId ≤ copies + tally RetryStage.hasPushed n

section Commands

variable [Fintype ι] {i : Bytes} {c : Int32} {k : Nat} {w w' : Keyspace} {n : ι → RetryStage} {j : ι}

theorem RetriesCounted.of_same (h : RetriesCounted i c k w n) (hrec : w'[taskKey i]? = w[taskKey i]?)
    (hqueues : ∀ q ∈ queueKeys, w'[q]? = w[q]?) : RetriesCounted i c k w' n := by
  obtain ⟨p, f, m, hf, hr, hm, hcount⟩ := h.record
  refine ⟨⟨p, f, m, hrec.trans hf, hr, hm, hcount⟩, h.most, ?_⟩
  rw [occurrences_congr hqueues]
  exact h.copies

/-- A stage that counts as before. -/
theorem RetriesCounted.moved [DecidableEq ι] (h : RetriesCounted i c k w n) {stage : RetryStage}
    (hstored : stage.hasStored = (n j).hasStored) (hpushed : stage.hasPushed = (n j).hasPushed) :
    RetriesCounted i c k w (Function.update n j stage) := by
  obtain ⟨p, f, m, hf, hr, hm, hcount⟩ := h.record
  refine ⟨⟨p, f, m, hf, hr, hm, ?_⟩, ?_, ?_⟩
  · rw [tally_same hstored]
    exact hcount
  · rw [tally_same hstored]
    exact h.most
  · rw [tally_same hpushed]
    exact h.copies

/-- `HSET` of a call that is undisturbed. -/
theorem RetriesCounted.storing [DecidableEq ι] (h : RetriesCounted i c k w n) {count : Int32}
    (hn : n j = .read count) (hfound : recordText w i (bytes "retry_count") = decimal count.toInt)
    (hmax : count < 3)
    (hw : w' = (exec (.hset (taskKey i) (bytes "retry_count") (decimal (count + 1).toInt)) w).2) :
    RetriesCounted i c k w' (Function.update n j .stored) := by
  obtain ⟨p, f, m, hf, hr, hm, hcount⟩ := h.record
  rw [recordText_of_hash hf, hm, Option.getD_some] at hfound
  obtain rfl : m = count := Int32.toInt_inj.1 (decimal_injective hfound)
  have hstored := tally_update RetryStage.hasStored n j .stored
  have hpushed := tally_update RetryStage.hasPushed n j .stored
  rw [hn] at hstored hpushed
  simp only [RetryStage.hasStored, RetryStage.hasPushed, Bool.false_eq_true, if_false, if_true, add_zero]
    at hstored hpushed
  have hless : m.toInt < (3 : Int32).toInt := Int32.lt_iff_toInt_lt.1 hmax
  have hsucc := BitFields.toInt_succ hless
  have hthree : (3 : Int32).toInt = 3 := rfl
  rw [hw, exec_hset hf]
  refine ⟨⟨p, _, m + 1, lookup_inserted _ _ _, hr.retried (m + 1), by simp, ?_⟩, ?_, ?_⟩
  · omega
  · omega
  · rw [hpushed, occurrences_congr (w := w)]
    · exact h.copies
    · intro q hq
      rw [getElem?_insert, if_neg (taskKey_ne_queue hq i)]

/-- `RPUSH` of a call that has stored. -/
theorem RetriesCounted.pushing [DecidableEq ι] (h : RetriesCounted i c k w n) (hn : n j = .stored)
    (hrec : w'[taskKey i]? = w[taskKey i]?) (hocc : occurrences w' i ≤ occurrences w i + 1) :
    RetriesCounted i c k w' (Function.update n j .pushed) := by
  obtain ⟨p, f, m, hf, hr, hm, hcount⟩ := h.record
  have hsame : RetryStage.pushed.hasStored = (n j).hasStored := by
    rw [hn]
    rfl
  have hpushed := tally_update RetryStage.hasPushed n j .pushed
  rw [hn] at hpushed
  simp only [RetryStage.hasPushed, Bool.false_eq_true, if_false, if_true, add_zero] at hpushed
  refine ⟨⟨p, f, m, hrec.trans hf, hr, hm, ?_⟩, ?_, ?_⟩
  · rw [tally_same hsame]
    exact hcount
  · rw [tally_same hsame]
    exact h.most
  · have hcopies := h.copies
    omega

end Commands

/-! ### The calls -/

/-- A command that touches neither records nor lists. -/
def Uncounted (cmd : Command) : Prop := cmd.reads = true ∨ (∀ i, cmd.key ≠ taskKey i) ∧ cmd.key ∉ queueKeys

/-- The commands that change neither the stage nor what is counted. -/
def RetryStage.Ignores : RetryStage → Command → Prop
  | .checking, cmd => Uncounted cmd ∧ ∀ key, cmd ≠ .hget key (bytes "retry_count")
  | .read _, _ => False
  | .stored, cmd => Uncounted cmd ∧ ∀ key value, cmd ≠ .rpush key value
  | _, cmd => Uncounted cmd

theorem RetryStage.Ignores.uncounted {stage : RetryStage} {cmd : Command} (h : stage.Ignores cmd) :
    Uncounted cmd := by
  cases stage with
  | checking => exact h.1
  | read count => exact h.elim
  | stored => exact h.1
  | lost => exact h
  | pushed => exact h

theorem RetryStage.observe_ignored {stage : RetryStage} {e : Effect} (r : e.Answer) (h : Commands stage.Ignores e)
    (hread : ∀ count, stage ≠ .read count) : stage.observe ⟨e, r⟩ = stage := by
  cases stage with
  | read count => exact absurd rfl (hread count)
  | lost => rfl
  | pushed => rfl
  | checking =>
    cases e with
    | command context cmd =>
      cases cmd with
      | hget key field =>
        have hfield : field ≠ bytes "retry_count" := by
          rintro rfl
          exact h.2 key rfl
        exact if_neg hfield
      | _ => rfl
    | _ => rfl
  | stored =>
    cases e with
    | command context cmd =>
      cases cmd with
      | rpush key value => exact absurd rfl (h.2 key value)
      | _ => rfl
    | _ => rfl

section Calls

variable [Fintype ι] {faulty : Prop} {redis : RedisClient} {i : Bytes} {c : Int32} {k : Nat} {j : ι}
  {α β : Type} {Q : Except StdException β → RetryStage → Prop} {stage : RetryStage}

theorem quiet_uncounted (hread : ∀ count, stage ≠ .read count) :
    Quiet (retrySystem ι faulty) (RetriesCounted i c k) stage (Commands stage.Ignores) := by
  refine ⟨fun e r he => RetryStage.observe_ignored r he hread, fun e w n r w' he h hs => ?_⟩
  rcases (served_serves faulty).changes hs with rfl | ⟨context, cmd, rfl, rfl⟩
  · exact h
  rcases (show stage.Ignores cmd from he).uncounted with hreads | ⟨hrecord, hqueue⟩
  · rwa [exec_reads hreads]
  · refine h.of_same (exec_frame cmd w (hrecord i)) fun q hq => exec_frame cmd w ?_
    rintro rfl
    exact hqueue hq

variable [DecidableEq ι]

/-- The program of thread `j` keeps `RetriesCounted`. -/
def KeepsCount (faulty : Prop) (i : Bytes) (c : Int32) (k : Nat) (j : ι) (Q : Except StdException β →
    RetryStage → Prop)
    (p : Code β) (stage : RetryStage) : Prop :=
  OutlineIf (retrySystem ι faulty) (Undisturbed i) (RetriesCounted i c k) j Q p stage

theorem KeepsCount.after {p : Code α} {f : α → Code β} (hread : ∀ count, stage ≠ .read count)
    (hp : p.Every (Only stage.Ignores)) (hok : ∀ a, KeepsCount faulty i c k j Q (f a) stage)
    (herr : ∀ x, Q (.error x) stage) : KeepsCount faulty i c k j Q (p >>= f) stage :=
  OutlineIf.after (quiet_uncounted hread) (commands_of_only hp) hok herr

theorem KeepsCount.call {e : Effect} {f : e.Answer → Code β} (hread : ∀ count, stage ≠ .read count)
    (he : Commands stage.Ignores e)
    (hk : ∀ w (n : ι → RetryStage) r w', RetriesCounted i c k w n → served faulty e w r w' →
      KeepsCount faulty i c k j Q (f r) stage) :
    KeepsCount faulty i c k j Q (.call e f) stage :=
  OutlineIf.call (quiet_uncounted hread) he hk

theorem KeepsCount.connection {f : Option RedisClient → Code β}
    (hnone : KeepsCount faulty i c k j Q (f none) .checking)
    (h : ∀ redis, redis.connected = true → KeepsCount faulty i c k j Q (f (some redis)) .checking) :
    KeepsCount faulty i c k j Q (getConnection >>= f) .checking := by
  refine KeepsCount.call (fun _ h => nomatch h) trivial ?_
  rintro w n r w' - ⟨-, hconn, -⟩
  cases r with
  | none => exact hnone
  | some redis => exact h redis (hconn redis rfl)

/-- A first part that does not throw. -/
theorem KeepsCount.seq {stage' : RetryStage} {p : Code α} {f : α → Code β}
    (hp : KeepsCount faulty i c k j (fun o g => (∃ a, o = .ok a) ∧ g = stage') p stage)
    (hf : ∀ a, KeepsCount faulty i c k j Q (f a) stage') : KeepsCount faulty i c k j Q (p >>= f) stage := by
  refine OutlineIf.bind hp ?_ ?_
  · rintro a _ ⟨-, rfl⟩
    exact hf a
  · rintro x _ ⟨⟨a, ha⟩, -⟩
    cases ha

/-- `incrementTaskRetry`: the call has stored the count, unless an exception was thrown before. -/
theorem KeepsCount.incrementTaskRetry (hc : redis.connected = true) (hi : ValidId i) :
    KeepsCount faulty i c k j
      (fun o stage => (∃ b, o = .ok b) ∧ stage = .stored ∨ (∃ x, o = .error x) ∧ stage.hasStored = false)
      (redis.incrementTaskRetry i) .checking := by
  have hfield : cStr (bytes "retry_count") = bytes "retry_count" := cStr_bytes (by decide)
  rw [RedisClient.incrementTaskRetry, hget_eq hc, cStr_taskKey hi.noNul, hfield, call_bind]
  intro w n r w' hI hn hs _
  replace hs : served faulty (.command redis.context (.hget (taskKey i) (bytes "retry_count"))) w r w' := hs
  obtain rfl : w' = w := served_reads rfl hs
  dsimp only [ret_bind]
  have hnote : (retrySystem ι faulty).observe .checking
      ⟨.command redis.context (.hget (taskKey i) (bytes "retry_count")), r⟩ =
        match readCount (replyText r) with
        | .ok count => .read count
        | .error _ => .checking := by
    simp only [retrySystem_observe, RetryStage.observe, if_true]
  rw [hnote]
  change _ ∧ OutlineIf _ _ _ _ _ (Prog.ofExcept (readCount (replyText r)) >>= _) _
  cases hcount : readCount (replyText r) with
  | error x => exact ⟨hI.moved (by rw [hn]) (by rw [hn]), .inr ⟨⟨x, rfl⟩, rfl⟩⟩
  | ok count =>
    dsimp only
    rw [ofExcept_ok, ret_bind, hset_eq hc, cStr_taskKey hi.noNul, hfield, cStr_of_noNul (noNul_decimal _)]
    refine ⟨hI.moved (by rw [hn]; rfl) (by rw [hn]; rfl), ?_⟩
    -- the second command: others may have run since the first one
    intro w₁ n₁ r₁ w₂ hI₁ hn₁ hs₁ hundisturbed
    rw [Undisturbed, hn₁] at hundisturbed
    obtain ⟨hfound, hmax, hstored⟩ := hundisturbed
    have hsucceeded : succeeded r₁ = true := by
      cases hr : succeeded r₁ with
      | true => rfl
      | false =>
        simp only [RetryStage.observe, hr] at hstored
        cases hstored
    have hreply : ∃ reply, r₁ = some reply ∧ reply.isError = false := by
      cases r₁ with
      | none => cases hsucceeded
      | some reply => exact ⟨reply, rfl, by simpa [succeeded] using hsucceeded⟩
    obtain ⟨-, hw₂⟩ := @Serves.executes _ (served_serves faulty) redis.context _ w₁ r₁ w₂ hs₁ hreply
    rw [retrySystem_observe, hstored]
    exact ⟨hI₁.storing hn₁ hfound hmax hw₂, .inl ⟨⟨_, rfl⟩, rfl⟩⟩

/-- `getTask` of the record that counts does not throw. -/
theorem KeepsCount.getTask (hc : redis.connected = true) (hi : ValidId i) (hread : ∀ count, stage ≠ .read count)
    (hreads : ∀ cmd : Command, cmd.reads = true → (∀ key field, cmd ≠ .hget key field) → stage.Ignores cmd) :
    KeepsCount faulty i c k j (fun o stage' => (∃ task, o = .ok task) ∧ stage' = stage)
      (redis.getTask i) stage := by
  rw [RedisClient.getTask, declareTaskInfo_bind]
  refine KeepsCount.call hread trivial fun _ _ stack _ _ _ => ?_
  rw [hgetall_eq hc, cStr_taskKey hi.noNul, call_bind]
  refine KeepsCount.call hread (hreads _ rfl fun _ _ h => nomatch h) fun w n r w' hI hs => ?_
  dsimp only [ret_bind]
  split
  · exact ⟨⟨_, rfl⟩, rfl⟩
  rename_i hfields
  obtain ⟨p, f, m, hf, hr, -⟩ := hI.record
  have hreply : replyFields r = f := by
    rcases served_reply hs with ⟨rfl, -, -⟩ | ⟨-, rfl | rfl⟩
    · exact replyFields_hgetall hf
    · exact absurd rfl hfields
    · exact absurd rfl hfields
  rw [hreply]
  obtain ⟨task, htask, -⟩ := hr.readFields _
  rw [htask]
  exact ⟨⟨task, rfl⟩, rfl⟩

/-- `pushToPriorityQueue` of a call that has stored. -/
theorem KeepsCount.pushToPriorityQueue (hc : redis.connected = true) (hi : ValidId i) (p : Int32) :
    KeepsCount faulty i c k j (fun o stage => (∃ b, o = .ok b) ∧ stage = .pushed) (redis.pushToPriorityQueue p i)
      .stored := by
  have hq := queueOf_mem p
  rw [RedisClient.pushToPriorityQueue, rpush_eq hc, cStr_queue hq, cStr_of_noNul hi.noNul]
  intro w n r w' hI hn hs _
  replace hs : served faulty (.command redis.context (.rpush (queueOf p) i)) w r w' := hs
  refine ⟨hI.pushing hn (served_frame hs (taskKey_ne_queue hq i).symm) ?_, ⟨_, rfl⟩, rfl⟩
  rcases served_world hs with rfl | ⟨rfl, hok⟩
  · omega
  · have happended := appended_rpush (x := i) hq (isQueue_of_ok (.inl hok))
    rw [happended.occurrences, if_pos rfl]

/-- How a call may end: having stored and pushed, if it returns `true`, and without having stored otherwise. -/
def RetryEnd (o : Except StdException Bool) (stage : RetryStage) : Prop :=
  o = .ok true ∧ stage = .pushed ∨ o ≠ .ok true ∧ stage.hasStored = false

theorem retryEnd_error (x : StdException) : RetryEnd (.error x) .checking := .inr ⟨fun h => (nomatch h), rfl⟩

/-- What a retry does after it has taken the task off its worker. -/
private theorem KeepsCount.requeue (hc : redis.connected = true) (hi : ValidId i) (retryCount : Int32) :
    KeepsCount faulty i c k j RetryEnd (redis.requeueRetry i retryCount) .checking := by
  have hread : ∀ count, RetryStage.stored ≠ .read count := fun _ h => nomatch h
  have hreads : ∀ cmd : Command, cmd.reads = true → (∀ key field, cmd ≠ .hget key field) →
      RetryStage.stored.Ignores cmd := by
    intro cmd hcmd _
    refine ⟨.inl hcmd, ?_⟩
    rintro key value rfl
    cases hcmd
  refine OutlineIf.bind (KeepsCount.incrementTaskRetry hc hi) ?_ ?_
  · rintro _ _ (⟨-, rfl⟩ | ⟨⟨x, hx⟩, -⟩)
    · refine KeepsCount.seq (KeepsCount.getTask hc hi hread hreads) fun task => ?_
      refine KeepsCount.call hread trivial fun _ _ _ _ _ _ => ?_
      dsimp only
      rw [setex_eq hc, call_bind]
      refine KeepsCount.call hread ⟨.inr ?_, fun _ _ h => (nomatch h)⟩ fun _ _ _ _ _ _ => ?_
      · exact (retryKey_foreign (retryKey_head _ i)).symm
      · rw [ret_bind]
        refine KeepsCount.seq (KeepsCount.pushToPriorityQueue hc hi task.priority) fun _ => ?_
        exact KeepsCount.call (fun _ h => nomatch h) trivial fun _ _ _ _ _ _ => .inl ⟨rfl, rfl⟩
    · cases hx
  · rintro x stage (⟨⟨b, hb⟩, -⟩ | ⟨-, hstage⟩)
    · cases hb
    · exact .inr ⟨fun h => (nomatch h), hstage⟩

theorem KeepsCount.retryTask (hi : ValidId i) : KeepsCount faulty i c k j RetryEnd (retryTask i) .checking := by
  have hread : ∀ count, RetryStage.checking ≠ .read count := fun _ h => nomatch h
  have hreads : ∀ cmd : Command, cmd.reads = true → (∀ key field, cmd ≠ .hget key field) →
      RetryStage.checking.Ignores cmd := fun cmd hcmd hget => ⟨.inl hcmd, fun key => hget key _⟩
  have hrefuse : ∀ redis : RedisClient, KeepsCount faulty i c k j RetryEnd
      (do returnConnection redis; return false : Code Bool) .checking :=
    fun _ => KeepsCount.call hread trivial fun _ _ _ _ _ _ => .inr ⟨fun h => (nomatch h), rfl⟩
  refine KeepsCount.connection (.inr ⟨fun h => (nomatch h), rfl⟩) fun redis hc => ?_
  refine KeepsCount.seq (KeepsCount.getTask hc hi hread hreads) fun task => ?_
  dsimp only
  split
  · exact hrefuse redis
  refine KeepsCount.after hread (hget_only ⟨.inl rfl, fun key h => ?_⟩) (fun workerId => ?_) retryEnd_error
  · have hfield : cStr (bytes "worker_id") = bytes "retry_count" := (Command.hget.inj h).2
    exact absurd hfield (by decide)
  split
  · refine KeepsCount.after hread (decrementWorkerLoad_only ?_ ?_) (fun _ => ?_) retryEnd_error
    · exact ⟨.inl rfl, fun _ h => nomatch h⟩
    · refine ⟨.inr ⟨fun i' => workerLoadKey_ne_taskKey _ i', fun hq => ?_⟩, fun _ h => nomatch h⟩
      exact workerLoadKey_ne_queue hq _ rfl
    refine KeepsCount.after hread (getWorkerLoad_only ⟨.inl rfl, fun _ h => nomatch h⟩)
      (fun load => ?_) retryEnd_error
    exact KeepsCount.call hread trivial fun _ _ _ _ _ _ => KeepsCount.requeue hc hi _
  · exact KeepsCount.requeue hc hi _

end Calls

/-! ### Every interleaving -/

section Runs

variable [Fintype ι] {i : Bytes} {c : Int32} {w : Keyspace} {p : Int32} {f : StringMap Bytes}

theorem RetriesCounted.start (hw : w[taskKey i]? = some (.hash f)) (hr : TaskRecord p f)
    (hcount : f[bytes "retry_count"]? = some (decimal c.toInt)) (hmax : c ≤ 3) :
    RetriesCounted i c (occurrences w i) w fun _ : ι => RetryStage.checking := by
  have hzero : tally RetryStage.hasStored (fun _ : ι => RetryStage.checking) = 0 := tally_eq_zero fun _ => rfl
  have hthree : (3 : Int32).toInt = 3 := rfl
  have hle := Int32.le_iff_toInt_le.1 hmax
  refine ⟨⟨p, f, c, hw, hr, hcount, ?_⟩, ?_, ?_⟩
  · omega
  · omega
  · omega

/-- When every call finds the count that it read as it stores, and below the limit, the record counts the calls that
return `true`; they are no more than retries were left, and have not pushed the id more often. -/
theorem retries_counted [DecidableEq ι] {faulty : Prop} (hi : ValidId i) (hw : w[taskKey i]? = some (.hash f))
    (hr : TaskRecord p f) (hcount : f[bytes "retry_count"]? = some (decimal c.toInt)) (hmax : c ≤ 3)
    {P : Pool ι Effect Effect.Answer StdException Bool Keyspace RetryStage}
    (hrun : ReachableIf (retrySystem ι faulty) (Undisturbed i) (retryStart ι i w) P)
    (hend : ∀ j, hasEnded (P.thread j).prog = true) :
    recordText P.world i (bytes "retry_count") = decimal (c.toInt + retries P) ∧ c.toInt + retries P ≤ 3 ∧
      occurrences P.world i + c.toInt ≤ occurrences w i + 3 := by
  have hstart : OutlinedIf (retrySystem ι faulty) (Undisturbed i) (RetriesCounted i c (occurrences w i))
      (fun _ => RetryEnd) (retryStart ι i w) := by
    constructor
    · exact RetriesCounted.start hw hr hcount hmax
    · exact fun j => KeepsCount.retryTask hi
    · exact fun _ _ hb => nomatch hb
    · exact fun _ _ _ _ hb => nomatch hb
  have hlast := hstart.reachable hrun
  -- what a call has returned and what it has stored
  have hthread : ∀ j, returnedTrue (P.thread j).prog = (P.thread j).note.hasStored := by
    intro j
    have hout := hlast.threads j
    have hended := hend j
    cases hprog : (P.thread j).prog with
    | call e k =>
      rw [hprog] at hended
      cases hended
    | ret b =>
      rw [hprog] at hout
      rcases hout with ⟨hb, hnote⟩ | ⟨hb, hnote⟩
      · cases hb
        rw [hnote]
        rfl
      · rw [hnote]
        cases b with
        | true => exact absurd rfl hb
        | false => rfl
    | throw x =>
      rw [hprog] at hout
      rcases hout with ⟨hb, -⟩ | ⟨-, hnote⟩
      · cases hb
      · rw [hnote]
        rfl
  have hretries : retries P = tally RetryStage.hasStored P.notes := by
    unfold retries tally
    simp only [hthread]
    rfl
  obtain ⟨p', f', m, hf', -, hm, hvalue⟩ := hlast.inv.record
  have hmost := hlast.inv.most
  have hcopies := hlast.inv.copies
  have hpushed : tally RetryStage.hasPushed P.notes ≤ tally RetryStage.hasStored P.notes := by
    refine tally_mono ?_
    rintro (_ | _ | _ | _ | _) h <;> first | exact h | rfl
  refine ⟨?_, ?_, ?_⟩
  · rw [recordText_of_hash hf', hm, Option.getD_some, hvalue, hretries]
  · rw [hretries]
    exact hmost
  · omega

end Runs

/-- A task that has been submitted. -/
def onceSubmitted : TaskInfo := { (default : TaskInfo) with id := bytes "17", priority := 2 }

private def afterSubmission : Keyspace :=
  (∅ : Keyspace).insert (taskKey (bytes "17")) (.hash (recordFields onceSubmitted))

private theorem afterSubmission_count :
    (recordFields onceSubmitted)[bytes "retry_count"]? = some (decimal (Int32.toInt 0)) :=
  recordFields_of_mem (by decide)

/-- Two calls that both read `0` and both store `1`. -/
theorem retry_count_lost : ¬∀ (i : Bytes) (w : Keyspace) (p c : Int32) (f : StringMap Bytes), ValidId i →
    w[taskKey i]? = some (.hash f) → TaskRecord p f → f[bytes "retry_count"]? = some (decimal c.toInt) →
    0 ≤ c → c ≤ 3 →
    ∀ P, Reachable (retrySystem Bool False) (retryStart Bool i w) P → (∀ j, hasEnded (P.thread j).prog = true) →
      recordText P.world i (bytes "retry_count") = decimal (c.toInt + retries P) ∧ c.toInt + retries P ≤ 3 ∧
        occurrences P.world i + c.toInt ≤ occurrences w i + 3 := by
  intro h
  have hplay : ((retryStart Bool (bytes "17") afterSubmission).play (retrySystem Bool False) (fun _ _ _ _ => true)
      (answer (fun _ => false) []) (List.replicate 5 true ++ List.replicate 12 false ++ List.replicate 7 true)).map
        (fun run => (hasEnded (run.2.thread true).prog, hasEnded (run.2.thread false).prog, retries run.2,
          recordText run.2.world (bytes "17") (bytes "retry_count"))) = some (true, true, 2, bytes "1") := by
    decide +kernel
  obtain ⟨⟨τ, P⟩, hP, heq⟩ := Option.map_eq_some_iff.1 hplay
  simp only [Prod.mk.injEq] at heq
  obtain ⟨htrue, hfalse, hretries, hcount⟩ := heq
  have hr : ReachableIf _ (fun _ _ _ _ => True) _ P :=
    ReachableIf.of_play answer_fault_free (fun _ _ _ _ _ => trivial) hP
  have hend : ∀ j, hasEnded (P.thread j).prog = true := by
    intro j
    cases j with
    | true => exact htrue
    | false => exact hfalse
  obtain ⟨hstored, -⟩ := h (bytes "17") afterSubmission 2 0 (recordFields onceSubmitted) ⟨by decide, by decide⟩
    (lookup_inserted _ _ _) (recordFields_record onceSubmitted) afterSubmission_count (by decide) (by decide) P
    hr.reachable hend
  rw [hcount, hretries] at hstored
  exact absurd hstored (by decide)

/-- Two calls one after the other, by the condition that `Undisturbed` states. -/
private def checkUndisturbed (w : Keyspace) (n : Bool → RetryStage) (j : Bool)
    (event : Event Effect Effect.Answer) :
    Bool :=
  match n j with
  | .read count => recordText w (bytes "17") (bytes "retry_count") = decimal count.toInt && count < 3 &&
      (n j).observe event = .stored
  | _ => true

private theorem undisturbed_of_check (w : Keyspace) (n : Bool → RetryStage) (j : Bool)
    (event : Event Effect Effect.Answer) (h : checkUndisturbed w n j event = true) :
    Undisturbed (bytes "17") w n j event := by
  unfold checkUndisturbed at h
  unfold Undisturbed
  split at h
  · simp only [Bool.and_eq_true, decide_eq_true_eq] at h
    exact ⟨h.1.1, h.1.2, h.2⟩
  · trivial

theorem retries_counted_in_turn : ∃ P,
    ReachableIf (retrySystem Bool False) (Undisturbed (bytes "17"))
      (retryStart Bool (bytes "17") afterSubmission) P ∧
      retries P = 2 ∧ recordText P.world (bytes "17") (bytes "retry_count") = decimal 2 := by
  have hplay : ((retryStart Bool (bytes "17") afterSubmission).play (retrySystem Bool False) checkUndisturbed
      (answer (fun _ => false) []) (List.replicate 12 true ++ List.replicate 12 false)).map
        (fun run => (hasEnded (run.2.thread true).prog, hasEnded (run.2.thread false).prog, retries run.2)) =
      some (true, true, 2) := by
    decide +kernel
  obtain ⟨⟨τ, P⟩, hP, heq⟩ := Option.map_eq_some_iff.1 hplay
  simp only [Prod.mk.injEq] at heq
  obtain ⟨htrue, hfalse, hretries⟩ := heq
  have hr := ReachableIf.of_play answer_fault_free undisturbed_of_check hP
  have hend : ∀ j, hasEnded (P.thread j).prog = true := by
    intro j
    cases j with
    | true => exact htrue
    | false => exact hfalse
  obtain ⟨hstored, -⟩ := retries_counted ⟨by decide, by decide⟩ (lookup_inserted _ _ _)
    (recordFields_record onceSubmitted) afterSubmission_count (by decide) hr hend
  rw [hretries] at hstored
  exact ⟨P, hr, hretries, hstored⟩

end Taskflow
