import Taskflow.UnknownTasks
import Taskflow.ConcurrentRetries

/-!
# What a reported success says

The operations on a task ignore what their writing commands answer, and return `true` when they come to their
end.  The content is then that of the writes that were executed, one after the other (`wp_replays`), and each
operation has a fixed list of writes.  So a reported success took effect exactly if the writes that it needs
were executed, answered or not, or the fields had their values already (`success_took_effect_iff`).
-/

namespace Taskflow

open Text Effects Prog

/-! ### The writes of a call -/

/-- The commands that write, and whether they were executed. -/
def writes (l : List Sent) : List (Command × Bool) :=
  l.filterMap fun x => if x.command.reads then none else some (x.command, x.fate != .refused)

/-- The writes are executed in order, those that were refused are left out. -/
def Replays : List (Command × Bool) → Keyspace → Keyspace → Prop
  | [], w, w' => w' = w
  | (cmd, true) :: rest, w, w' => (exec cmd w).1.isError = false ∧ Replays rest (exec cmd w).2 w'
  | (_, false) :: rest, w, w' => Replays rest w w'

@[simp] theorem writes_append (l l' : List Sent) : writes (l ++ l') = writes l ++ writes l' := List.filterMap_append

@[simp] theorem writes_nil : writes [] = [] := rfl

@[simp] theorem writes_cons (x : Sent) (l : List Sent) : writes (x :: l) =
    if x.command.reads then writes l else (x.command, x.fate != .refused) :: writes l := by
  cases h : x.command.reads <;> simp [writes, h]

section Writes

variable {faulty : Prop} {α : Type} {w w' : Keyspace} {C : Command → Prop} {l : List (Command × Bool)}

/-- What is left after a run is what its writes make of the content before it. -/
theorem wp_replays (p : Code α) (w : Keyspace) :
    (accounted faulty).wp p (fun _ l _ w' => Replays (writes l) w w') w := by
  induction p generalizing w with
  | ret a => exact rfl
  | throw x => exact rfl
  | call e k ih =>
    intro r w₁ entries hs
    refine (ih r w₁).mono ?_
    intro τ l o w' hrest
    cases e with
    | command context cmd =>
      obtain ⟨fate, -, hd, rfl⟩ := hs
      rw [List.singleton_append, writes_cons]
      dsimp only
      cases hreads : cmd.reads with
      | true =>
        have hsame : w₁ = w := by
          rcases hd.world with ⟨-, hw⟩ | ⟨-, hw, -⟩
          · exact hw
          · rw [hw, exec_reads hreads]
        rw [if_pos rfl, ← hsame]
        exact hrest
      | false =>
        rw [if_neg (by simp)]
        rcases hd.world with ⟨rfl, rfl⟩ | ⟨hfate, rfl, hok⟩
        · exact hrest
        · rw [show (fate != .refused) = true by simpa using hfate]
          exact ⟨hok, hrest⟩
    | getConnection =>
      obtain ⟨⟨rfl, -⟩, rfl⟩ := hs
      exact hrest
    | selectWorker taskId =>
      obtain ⟨⟨rfl, -⟩, rfl⟩ := hs
      exact hrest
    | _ =>
      obtain ⟨hsame, rfl⟩ := hs
      obtain rfl := hsame
      exact hrest

/-- A program that issues only writes in `C`. -/
theorem wp_writes {p : Code α} (hp : p.Every (Issues C)) (w : Keyspace) :
    (accounted faulty).wp p (fun _ l _ _ => ∀ x ∈ writes l, C x.1) w := by
  refine Account.wp.collect (K := fun _ _ l _ => ∀ x ∈ writes l, C x.1) (fun _ x hx => by cases hx) ?_ hp w
  intro e w r w' entries τ l w'' he hs hrest x hx
  rw [writes_append, List.mem_append] at hx
  rcases hx with hx | hx
  · cases e with
    | command context cmd =>
      obtain ⟨fate, -, -, rfl⟩ := hs
      rw [writes_cons] at hx
      split at hx
      · cases hx
      · rename_i hwrites
        obtain rfl := List.mem_singleton.1 hx
        exact he.resolve_left hwrites
    | _ =>
      obtain ⟨-, rfl⟩ := hs
      cases hx
  · exact hrest x hx

theorem wp_quiet {p : Code α} (hp : p.Every (Issues fun _ => False)) (w : Keyspace) :
    (accounted faulty).wp p (fun _ l _ _ => writes l = []) w := by
  refine (wp_writes hp w).mono ?_
  intro τ l o w' hnone
  exact List.eq_nil_iff_forall_not_mem.2 hnone

theorem Replays.frame (h : Replays l w w') {a : Bytes} (hl : ∀ x ∈ l, x.1.key ≠ a) : w'[a]? = w[a]? := by
  induction l generalizing w with
  | nil => rw [h]
  | cons x l ih =>
    obtain ⟨cmd, ok⟩ := x
    have hrest : ∀ y ∈ l, y.1.key ≠ a := fun y hy => hl y (List.mem_cons_of_mem _ hy)
    cases ok with
    | true =>
      rw [ih h.2 hrest]
      exact exec_frame cmd w (hl _ List.mem_cons_self)
    | false => exact ih h hrest

end Writes

/-! ### The content after the writes -/

/-- What a command stores in a field of a record. -/
def Command.stored (i field : Bytes) : Command → Option Bytes
  | .hset key f value => if key = taskKey i ∧ f = field then some value else none
  | _ => none

/-- What a command adds to the counter of a worker. -/
def Command.counted (v : Bytes) : Command → Int
  | .incr key => if key = workerLoadKey v then 1 else 0
  | .incrby key n => if key = workerLoadKey v then n else 0
  | _ => 0

/-- How often a command pushes an id. -/
def Command.pushed (i : Bytes) : Command → Nat
  | .rpush _ value => if value = i then 1 else 0
  | _ => 0

/-- The commands that operations on existing tasks write with. -/
def Updates : Command → Prop
  | .hset key _ _ => ∃ i, key = taskKey i
  | .incr key => ∃ v, key = workerLoadKey v
  | .incrby key _ => ∃ v, key = workerLoadKey v
  | .setex key _ _ => key.head? = some 114
  | .rpush key _ => key ∈ queueKeys
  | _ => False

section Content

variable {w w' : Keyspace} {l : List (Command × Bool)} {cmd : Command}

/-- What each write does to a part of the content, the writes do to it in order. -/
theorem Replays.fold {β : Type} (part : Keyspace → β) (change : Command → β → β) (h : Replays l w w')
    (hstep : ∀ x ∈ l, ∀ w, (exec x.1 w).1.isError = false → part (exec x.1 w).2 = change x.1 (part w)) :
    part w' = l.foldl (fun b x => if x.2 then change x.1 b else b) (part w) := by
  induction l generalizing w with
  | nil => rw [h, List.foldl_nil]
  | cons x l ih =>
    obtain ⟨cmd, ok⟩ := x
    have hrest := fun y hy => hstep y (List.mem_cons_of_mem _ hy)
    cases ok with
    | true =>
      rw [ih h.2 hrest, hstep _ List.mem_cons_self w h.1]
      rfl
    | false => exact ih h hrest

theorem recordText_exec (hcmd : Updates cmd) (hok : (exec cmd w).1.isError = false) (i field : Bytes) :
    recordText (exec cmd w).2 i field = (cmd.stored i field).getD (recordText w i field) := by
  by_cases hkey : cmd.key = taskKey i
  · cases cmd with
    | hset key f value =>
      simp only [Command.key] at hkey
      subst hkey
      rw [recordText_exec_hset, hok]
      by_cases hf : f = field <;> simp [Command.stored, hf]
    | incr key =>
      obtain ⟨v, rfl⟩ := hcmd
      exact absurd hkey (workerLoadKey_ne_taskKey v i)
    | incrby key n =>
      obtain ⟨v, rfl⟩ := hcmd
      exact absurd hkey (workerLoadKey_ne_taskKey v i)
    | setex key n value => exact absurd hkey ((retryKey_foreign hcmd).2 i)
    | rpush key value => exact absurd hkey.symm (taskKey_ne_queue hcmd i)
    | _ => exact hcmd.elim
  · rw [recordText_congr (exec_frame cmd w hkey)]
    cases cmd with
    | hset key f value =>
      have hne : ¬(key = taskKey i ∧ f = field) := fun h => hkey h.1
      rw [Command.stored, if_neg hne]
      rfl
    | _ => rfl

/-- `INCRBY` of a counter that it can read. -/
private theorem workerLoad_execIncrby {v : Bytes} {n : Int}
    (hok : (execIncrby (workerLoadKey v) n w).1.isError = false) :
    workerLoad (execIncrby (workerLoadKey v) n w).2 v = workerLoad w v + n := by
  have hadd : ∀ m : Int, -2 ^ 63 ≤ m + n ∧ m + n < 2 ^ 63 →
      workerLoad (w.insert (workerLoadKey v) (.string (decimal (m + n)))) v = m + n := by
    intro m hrange
    simp only [workerLoad, lookup_inserted, redisInteger_of_bounds hrange.1 hrange.2, Option.getD_some]
  cases hw : w[workerLoadKey v]? with
  | none =>
    simp only [execIncrby, hw] at hok ⊢
    split at hok
    · rename_i hrange
      rw [if_pos hrange, hadd 0 hrange, workerLoad_of_none hw]
    · cases hok
  | some value =>
    cases value with
    | string b =>
      cases hb : redisInteger b with
      | none => simp [execIncrby, hw, hb, Reply.isError] at hok
      | some m =>
        have hload : workerLoad w v = m := by simp only [workerLoad, hw, hb, Option.getD_some]
        simp only [execIncrby, hw, hb] at hok ⊢
        split at hok
        · rename_i hrange
          rw [if_pos hrange, hadd m hrange, hload]
        · cases hok
    | hash h => simp [execIncrby, hw, Reply.isError] at hok
    | list l => simp [execIncrby, hw, Reply.isError] at hok

theorem workerLoad_exec (hcmd : Updates cmd) (hok : (exec cmd w).1.isError = false) (v : Bytes) :
    workerLoad (exec cmd w).2 v = workerLoad w v + cmd.counted v := by
  by_cases hkey : cmd.key = workerLoadKey v
  · cases cmd with
    | incr key =>
      simp only [Command.key] at hkey
      subst hkey
      rw [Command.counted, if_pos rfl]
      exact workerLoad_execIncrby hok
    | incrby key n =>
      simp only [Command.key] at hkey
      subst hkey
      rw [Command.counted, if_pos rfl]
      exact workerLoad_execIncrby hok
    | hset key f value =>
      obtain ⟨i, rfl⟩ := hcmd
      exact absurd hkey.symm (workerLoadKey_ne_taskKey v i)
    | setex key n value => exact absurd hkey (retryKey_ne_workerLoadKey hcmd v)
    | rpush key value => exact absurd hkey.symm (workerLoadKey_ne_queue hcmd v)
    | _ => exact hcmd.elim
  · rw [workerLoad_congr (exec_frame cmd w hkey)]
    cases cmd with
    | incr key =>
      simp only [Command.key] at hkey
      rw [Command.counted, if_neg hkey, add_zero]
    | incrby key n =>
      simp only [Command.key] at hkey
      rw [Command.counted, if_neg hkey, add_zero]
    | _ => exact (add_zero _).symm

theorem occurrences_exec (hcmd : Updates cmd) (hok : (exec cmd w).1.isError = false) (i : Bytes) :
    occurrences (exec cmd w).2 i = occurrences w i + cmd.pushed i := by
  by_cases hkey : cmd.key ∈ queueKeys
  · cases cmd with
    | rpush key value => exact (appended_rpush hkey (isQueue_of_ok (.inl hok))).occurrences i
    | hset key f value =>
      obtain ⟨j, rfl⟩ := hcmd
      exact absurd rfl (taskKey_ne_queue hkey j)
    | incr key =>
      obtain ⟨v, rfl⟩ := hcmd
      exact absurd rfl (workerLoadKey_ne_queue hkey v)
    | incrby key n =>
      obtain ⟨v, rfl⟩ := hcmd
      exact absurd rfl (workerLoadKey_ne_queue hkey v)
    | setex key n value => exact absurd hkey (retryKey_foreign hcmd).1
    | _ => exact hcmd.elim
  · have hsame : ∀ q ∈ queueKeys, (exec cmd w).2[q]? = w[q]? := by
      intro q hq
      apply exec_frame
      rintro rfl
      exact hkey hq
    rw [occurrences_congr hsame]
    cases cmd with
    | rpush key value => exact absurd hcmd hkey
    | _ => rfl

theorem Replays.recordText (h : Replays l w w') (hl : ∀ x ∈ l, Updates x.1) (i field : Bytes) :
    recordText w' i field =
      l.foldl (fun text x => if x.2 then (x.1.stored i field).getD text else text) (recordText w i field) :=
  h.fold (Taskflow.recordText · i field) (fun cmd text => (cmd.stored i field).getD text)
    fun x hx _ hok => recordText_exec (hl x hx) hok i field

theorem Replays.workerLoad (h : Replays l w w') (hl : ∀ x ∈ l, Updates x.1) (v : Bytes) :
    workerLoad w' v = l.foldl (fun n x => if x.2 then n + x.1.counted v else n) (workerLoad w v) :=
  h.fold (Taskflow.workerLoad · v) (fun cmd n => n + cmd.counted v) fun x hx _ hok =>
    workerLoad_exec (hl x hx) hok v

theorem Replays.occurrences (h : Replays l w w') (hl : ∀ x ∈ l, Updates x.1) (i : Bytes) :
    occurrences w' i = l.foldl (fun n x => if x.2 then n + x.1.pushed i else n) (occurrences w i) :=
  h.fold (Taskflow.occurrences · i) (fun cmd n => n + cmd.pushed i) fun x hx _ hok =>
    occurrences_exec (hl x hx) hok i

end Content

/-! ### The writes of each operation -/

/-- The clock showed this time during the call. -/
def ReadTime (τ : Trace) (now : Int64) : Prop := ⟨.systemClock, now⟩ ∈ τ

section Operations

variable {faulty : Prop} {w : Keyspace} {redis : RedisClient} {i v : Bytes}

/-- The writes of an assignment that returns `true`. -/
def AssignmentWrites (i v : Bytes) (τ : Trace) (l : List Sent) : Prop :=
  ∃ (now : Int64) (a b c d : Bool), ReadTime τ now ∧ writes l = [
    (.hset (taskKey (cStr i)) (bytes "status") (bytes "1"), a),
    (.hset (taskKey (cStr i)) (bytes "worker_id") (cStr v), b),
    (.hset (taskKey (cStr i)) (bytes "started_at") (decimal now.toInt), c),
    (.incr (workerLoadKey (cStr v)), d)]

theorem getTask_quiet (i : Bytes) : (redis.getTask i).Every (Issues fun _ => False) :=
  issues_of_local (getTask_local i)

theorem getWorkerLoad_quiet (v : Bytes) : (redis.getWorkerLoad v).Every (Issues fun _ => False) :=
  issues_of_local (getWorkerLoad_local v)

theorem hget_quiet (key field : Bytes) : (redis.hget key field).Every (Issues fun _ => False) :=
  issues_of_local (hget_local key field)

/-- An operation that returns `false` without a connection. -/
theorem wp_connected {f : Option RedisClient → Code Bool} {P : Trace → List Sent → Prop}
    (hnone : f none = .ret false) (hsome : ∀ redis, redis.connected = true →
      (accounted faulty).wp (f (some redis))
        (fun τ l o _ => o = .ok true → P (⟨.getConnection, some redis⟩ :: τ) l) w) :
    (accounted faulty).wp (.call .getConnection f) (fun τ l o _ => o = .ok true → P τ l) w := by
  rintro r w _ ⟨⟨rfl, hconn, -⟩, rfl⟩
  cases r with
  | none =>
    rw [hnone]
    intro hfalse
    cases hfalse
  | some redis => exact hsome redis (hconn redis rfl)

theorem wp_assignTaskToWorker_writes (i v : Bytes) (w : Keyspace) :
    (accounted faulty).wp (assignTaskToWorker i v) (fun τ l o _ => o = .ok true → AssignmentWrites i v τ l) w := by
  rw [assignTaskToWorker, getConnection_bind]
  refine wp_connected rfl fun redis hc => ?_
  refine Account.wp.bind (wp_quiet (getTask_quiet i) w) ?_ ?_
  · intro τ l task w₁ hl
    split
    · rintro _ w₂ _ - hfalse
      cases hfalse
    · have hstatus : cStr (bytes "status") = bytes "status" ∧ cStr (bytes "1") = bytes "1" := by decide
      have hworker : cStr (bytes "worker_id") = bytes "worker_id" := by decide
      have hstarted : cStr (bytes "started_at") = bytes "started_at" := by decide
      rw [hset_eq hc, hset_eq hc, RedisClient.incrementWorkerLoad, incr_eq hc]
      rintro now w₂ _ ⟨-, rfl⟩ _ w₃ _ ⟨a, -, -, rfl⟩ _ w₄ _ ⟨b, -, -, rfl⟩
      show Account.wp _ (redis.hset (taskKey i) (bytes "started_at") (decimal now.toInt) >>= _) _ _
      rw [hset_eq hc]
      rintro _ w₅ _ ⟨c, -, -, rfl⟩ _ w₆ _ ⟨d, -, -, rfl⟩
      show Account.wp _ (redis.getWorkerLoad v >>= _) _ _
      refine Account.wp.bind (wp_quiet (getWorkerLoad_quiet v) w₆) ?_ ?_
      · rintro τ' l' load w₇ hl' _ w₈ _ ⟨-, rfl⟩ _ w₉ _ ⟨-, rfl⟩ -
        refine ⟨now, a != .refused, b != .refused, c != .refused, d != .refused, ?_, ?_⟩
        · simp [ReadTime]
        · simp [Command.reads, hl, hl', cStr_taskKey_eq, cStr_workerLoadKey_eq, hstatus, hworker, hstarted,
            cStr_of_noNul (noNul_decimal _)]
      · intro τ' l' x w₇ _ hfalse
        cases hfalse
  · intro τ l x w₁ _ hfalse
    cases hfalse

/-- The writes of `updateTaskStatus` for a task that has ended. -/
def StatusWritten (i : Bytes) (status : Int32) (errorMsg : Bytes) (τ : Trace) (l : List Sent) : Prop :=
  ∃ (now : Int64) (a b c : Bool), ReadTime τ now ∧ writes l =
    (.hset (taskKey (cStr i)) (bytes "status") (decimal status.toInt), a) ::
      ((if errorMsg = [] then [] else [(.hset (taskKey (cStr i)) (bytes "error_message") (cStr errorMsg), b)]) ++
        [(.hset (taskKey (cStr i)) (bytes "finished_at") (decimal now.toInt), c)])

theorem wp_updateTaskStatus_writes (hc : redis.connected = true) {status : Int32} (hs : status = 2 ∨ status = 3)
    (i errorMsg : Bytes) (w : Keyspace) :
    (accounted faulty).wp (redis.updateTaskStatus i status errorMsg)
      (fun τ l _ _ => StatusWritten i status errorMsg τ l) w := by
  have hstatus : cStr (bytes "status") = bytes "status" ∧ cStr (bytes "error_message") = bytes "error_message" := by
    decide
  have hfinished : cStr (bytes "finished_at") = bytes "finished_at" := by decide
  have hended : (decide (status = 2) || decide (status = 3)) = true := by simpa using hs
  rw [RedisClient.updateTaskStatus, hset_eq hc]
  rintro _ w₁ _ ⟨a, -, -, rfl⟩
  dsimp only
  rw [if_pos hended]
  by_cases herr : errorMsg = []
  · subst herr
    rintro now w₂ _ ⟨-, rfl⟩
    show Account.wp _ (redis.hset (taskKey i) (bytes "finished_at") (decimal now.toInt) >>= _) _ _
    rw [hset_eq hc]
    rintro _ w₃ _ ⟨c, -, -, rfl⟩
    refine ⟨now, a != .refused, false, c != .refused, by simp [ReadTime], ?_⟩
    simp [Command.reads, cStr_taskKey_eq, hstatus, hfinished, cStr_of_noNul (noNul_decimal _)]
  · have hne : (!errorMsg.isEmpty) = true := by simpa using herr
    show Account.wp _ (if (!errorMsg.isEmpty) = true then _ else _) _ _
    rw [if_pos hne, hset_eq hc]
    rintro _ w₂ _ ⟨b, -, -, rfl⟩ now w₃ _ ⟨-, rfl⟩
    show Account.wp _ (redis.hset (taskKey i) (bytes "finished_at") (decimal now.toInt) >>= _) _ _
    rw [hset_eq hc]
    rintro _ w₄ _ ⟨c, -, -, rfl⟩
    refine ⟨now, a != .refused, b != .refused, c != .refused, by simp [ReadTime], ?_⟩
    simp [Command.reads, cStr_taskKey_eq, hstatus, hfinished, herr, cStr_of_noNul (noNul_decimal _)]

/-- Both reports may take the task off its worker. -/
def TakesOff (x : Command × Bool) : Prop := ∃ v, x.1 = .incrby (workerLoadKey v) (-1)

def CompletionWrites (i : Bytes) (result : TaskResult) (τ : Trace) (l : List Sent) : Prop :=
  ∃ (now : Int64) (a b c : Bool) (rest : List (Command × Bool)), ReadTime τ now ∧ (∀ x ∈ rest, TakesOff x) ∧
    writes l = [
      (.hset (taskKey (cStr i)) (bytes "status") (bytes "2"), a),
      (.hset (taskKey (cStr i)) (bytes "finished_at") (decimal now.toInt), b),
      (.hset (taskKey (cStr i)) (bytes "result") (cStr result.result), c)] ++ rest

def FailureWrites (i error : Bytes) (τ : Trace) (l : List Sent) : Prop :=
  ∃ (now : Int64) (a b c : Bool) (rest : List (Command × Bool)), ReadTime τ now ∧
    (∀ x ∈ rest, TakesOff x) ∧ writes l =
    ((.hset (taskKey (cStr i)) (bytes "status") (bytes "3"), a) ::
      ((if error = [] then [] else [(.hset (taskKey (cStr i)) (bytes "error_message") (cStr error), b)]) ++
        [(.hset (taskKey (cStr i)) (bytes "finished_at") (decimal now.toInt), c)])) ++ rest

theorem wp_report_writes (redis : RedisClient) (workerId : Bytes) {report : Code Unit}
    (hr : report.Every (Issues fun cmd => ∃ v, cmd = .incrby (workerLoadKey v) (-1))) (w : Keyspace) :
    (accounted faulty).wp (do
      if (!workerId.isEmpty) = true then
        let _ ← redis.decrementWorkerLoad workerId
        let load ← redis.getWorkerLoad workerId
        updateWorkerLoad workerId load
        report
      returnConnection redis
      return true : Code Bool) (fun _ l _ _ => ∀ x ∈ writes l, TakesOff x) w :=
  wp_writes (report_issues hr fun v => ⟨cStr v, rfl⟩) w

theorem wp_completeTask_writes (i : Bytes) (result : TaskResult) (w : Keyspace) :
    (accounted faulty).wp (completeTask i result) (fun τ l o _ => o = .ok true →
      CompletionWrites i result τ l) w := by
  rw [completeTask, getConnection_bind]
  refine wp_connected rfl fun redis hc => ?_
  refine Account.wp.bind (wp_quiet (hget_quiet _ _) w) ?_ ?_
  · intro τ l workerId w₁ hl
    refine Account.wp.bind (wp_updateTaskStatus_writes hc (Or.inl rfl) i [] w₁) ?_ ?_
    · rintro τ₁ l₁ _ w₂ ⟨now, a, b, c, hnow, hwrites⟩
      have hresult : cStr (bytes "result") = bytes "result" := by decide
      rw [hset_eq hc]
      rintro _ w₃ _ ⟨d, -, -, rfl⟩
      have hreport : (recordSuccess workerId).Every (Issues fun cmd => ∃ v, cmd = .incrby (workerLoadKey v) (-1)) :=
        ⟨trivial, fun _ => trivial⟩
      refine (wp_report_writes redis workerId hreport w₃).mono ?_
      intro τ₂ l₂ o w₄ hrest _
      refine ⟨now, a, c, d != .refused, writes l₂, ?_, hrest, ?_⟩
      · unfold ReadTime at hnow ⊢
        simp [hnow]
      · have htwo : decimal 2 = bytes "2" := by decide
        simp [Command.reads, hl, hwrites, cStr_taskKey_eq, hresult, htwo]
    · intro τ₁ l₁ x w₂ _ hfalse
      cases hfalse
  · intro τ l x w₁ _ hfalse
    cases hfalse

theorem wp_failTask_writes (i error : Bytes) (w : Keyspace) :
    (accounted faulty).wp (failTask i error) (fun τ l o _ => o = .ok true → FailureWrites i error τ l) w := by
  rw [failTask, getConnection_bind]
  refine wp_connected rfl fun redis hc => ?_
  refine Account.wp.bind (wp_quiet (hget_quiet _ _) w) ?_ ?_
  · intro τ l workerId w₁ hl
    refine Account.wp.bind (wp_updateTaskStatus_writes hc (Or.inr rfl) i error w₁) ?_ ?_
    · rintro τ₁ l₁ _ w₂ ⟨now, a, b, c, hnow, hwrites⟩
      have hreport : (recordFailure workerId).Every (Issues fun cmd => ∃ v, cmd = .incrby (workerLoadKey v) (-1)) :=
        ⟨trivial, fun _ => trivial⟩
      refine (wp_report_writes redis workerId hreport w₂).mono ?_
      intro τ₂ l₂ o w₄ hrest _
      refine ⟨now, a, b, c, writes l₂, ?_, hrest, ?_⟩
      · unfold ReadTime at hnow ⊢
        simp [hnow]
      · have hthree : decimal 3 = bytes "3" := by decide
        simp [hl, hwrites, hthree]
    · intro τ₁ l₁ x w₂ _ hfalse
      cases hfalse
  · intro τ l x w₁ _ hfalse
    cases hfalse

/-- The `HGET` of the retry count failed. -/
def countUnread (τ : Trace) : Bool :=
  τ.any fun
    | ⟨.command _ (.hget _ f), r⟩ => f == bytes "retry_count" && !succeeded r
    | _ => false

@[simp] theorem countUnread_append (τ τ' : Trace) : countUnread (τ ++ τ') = (countUnread τ || countUnread τ') :=
  List.any_append

theorem countUnread_other {e : Effect} {r : e.Answer}
    (h : ∀ context key field, e ≠ .command context (.hget key field))
    (τ : Trace) : countUnread (⟨e, r⟩ :: τ) = countUnread τ := by
  cases e with
  | command context cmd =>
    cases cmd with
    | hget key field => exact absurd rfl (h context key field)
    | _ => rfl
  | _ => rfl

theorem wp_incrementTaskRetry_writes (hc : redis.connected = true) (i : Bytes) (w : Keyspace) :
    (accounted faulty).wp (redis.incrementTaskRetry i) (fun τ l o _ => ∀ stored, o = .ok stored →
      ∃ (n : Int32) (a : Bool),
      (if countUnread τ then n = 0 else readCount (recordText w (cStr i) (bytes "retry_count")) = .ok n) ∧
      writes l = [(.hset (taskKey (cStr i)) (bytes "retry_count") (decimal (n + 1).toInt), a)]) w := by
  have hfield : cStr (bytes "retry_count") = bytes "retry_count" := by decide
  rw [RedisClient.incrementTaskRetry, hget_eq hc]
  rintro r w₁ _ hs
  show Account.wp _ (ofExcept (readCount (replyText r)) >>= _) _ _
  have hread : if succeeded r then replyText r = recordText w (cStr i)
      (bytes "retry_count") else replyText r = [] := by
    rcases served_reply (served_of_accounted hs) with ⟨rfl, -, hok⟩ | ⟨-, hr⟩
    · rw [succeeded_of_ok hok, if_pos rfl, cStr_taskKey_eq, hfield, replyText_hget_record]
    · rw [succeeded_of_failed hr, if_neg (by simp)]
      rcases hr with rfl | rfl <;> rfl
  obtain ⟨fate, -, -, rfl⟩ := hs
  cases hcount : readCount (replyText r) with
  | error x =>
    intro stored hfalse
    cases hfalse
  | ok n =>
    show Account.wp _ (redis.hset (taskKey i) (bytes "retry_count") (decimal (n + 1).toInt)) _ _
    rw [hset_eq hc]
    rintro _ w₂ _ ⟨a, -, -, rfl⟩ stored -
    refine ⟨n, a != .refused, ?_, ?_⟩
    · cases hr : succeeded r with
      | true =>
        rw [hr, if_pos rfl] at hread
        rw [if_neg (by simp [countUnread, hfield, hr]), ← hread, hcount]
      | false =>
        rw [hr, if_neg (by simp)] at hread
        rw [if_pos (by simp [countUnread, hfield, hr])]
        rw [hread] at hcount
        exact (Except.ok.inj hcount).symm
    · simp [Command.reads, cStr_taskKey_eq, hfield, cStr_of_noNul (noNul_decimal _)]

/-- Commands of `retryTask` before it increments the count. -/
def BeforeCount : Command → Prop
  | .get _ => True
  | .hgetall _ => True
  | .hget _ field => field = bytes "worker_id"
  | .incrby key n => (∃ v, key = workerLoadKey v) ∧ n = -1
  | _ => False

/-- They take the task off its worker at most, and the record stays. -/
structure Prepared (i : Bytes) (w : Keyspace) (τ : Trace) (l : List Sent) (w' : Keyspace) : Prop where
  unread : countUnread τ = false
  writes : ∀ x ∈ writes l, TakesOff x
  record : w'[taskKey i]? = w[taskKey i]?

theorem wp_beforeCount {α : Type} {p : Code α} (i : Bytes) (hp : p.Every (Only BeforeCount)) (w : Keyspace) :
    (accounted faulty).wp p (fun τ l _ w' => Prepared i w τ l w') w := by
  have hissues : p.Every (Issues fun cmd => ∃ v, cmd = .incrby (workerLoadKey v) (-1)) := by
    refine hp.mono fun e he => ?_
    cases e with
    | command context cmd =>
      cases cmd with
      | get key => exact Or.inl rfl
      | hget key field => exact Or.inl rfl
      | hgetall key => exact Or.inl rfl
      | incrby key n =>
        obtain ⟨⟨v, rfl⟩, rfl⟩ := he
        exact Or.inr ⟨v, rfl⟩
      | _ => exact he.elim
    | _ => trivial
  have hevents := Account.wp.of_wp (A := accounted faulty) served_of_accounted (wp.events hp w)
  refine ((hevents.and (wp_writes hissues w)).and (wp_replays p w)).mono ?_
  rintro τ l o w' ⟨⟨hevents, hwrites⟩, hreplays⟩
  refine ⟨?_, hwrites, ?_⟩
  · refine List.any_eq_false.2 ?_
    rintro ⟨e, r⟩ hmem
    split
    · rename_i context key field r heq
      cases heq
      have hworker : field = bytes "worker_id" := hevents _ hmem
      rw [hworker]
      simp [show ¬ bytes "worker_id" = bytes "retry_count" by decide]
    · simp
  · refine hreplays.frame fun x hx => ?_
    obtain ⟨v, hv⟩ := hwrites x hx
    rw [hv]
    exact workerLoadKey_ne_taskKey v i

def RetryWrites (i : Bytes) (w : Keyspace) (τ : Trace) (l : List Sent) : Prop :=
  ∃ (before : List (Command × Bool)) (n seconds : Int32) (key : Bytes) (p : Int32) (a b c : Bool),
    (∀ x ∈ before, TakesOff x) ∧ key.head? = some 114 ∧
    (if countUnread τ then n = 0 else readCount (recordText w (cStr i) (bytes "retry_count")) = .ok n) ∧
    writes l = before ++ [
      (.hset (taskKey (cStr i)) (bytes "retry_count") (decimal (n + 1).toInt), a),
      (.setex key seconds (cStr i), b), (.rpush (queueOf p) (cStr i), c)]

/-- What a retry writes after it has taken the task off its worker. -/
private theorem wp_countedRetry (hc : redis.connected = true) (retryCount : Int32) (i : Bytes) (w : Keyspace) :
    (accounted faulty).wp (redis.requeueRetry i retryCount) (fun τ l o _ => o = .ok true →
      RetryWrites i w τ l) w := by
  refine Account.wp.bind (wp_incrementTaskRetry_writes hc i w) ?_ ?_
  · intro τ l stored w₁ hretry
    obtain ⟨n, a, hcount, hwrites⟩ := hretry stored rfl
    have hread : (redis.getTask i).Every (Only BeforeCount) := getTask_only trivial
    refine Account.wp.bind ((wp_quiet (getTask_quiet i) w₁).and (wp_beforeCount i hread w₁)) ?_ ?_
    · rintro τ₁ l₁ task w₂ ⟨hl₁, hprepared⟩ now w₃ _ ⟨-, rfl⟩
      show Account.wp _ (redis.setex _ i (retryDelay retryCount) >>= _) _ _
      rw [setex_eq hc]
      rintro _ w₄ _ ⟨b, -, -, rfl⟩
      show Account.wp _ (redis.pushToPriorityQueue task.priority i >>= _) _ _
      rw [RedisClient.pushToPriorityQueue, rpush_eq hc, cStr_queue (queueOf_mem _)]
      rintro _ w₅ _ ⟨c, -, -, rfl⟩ _ w₆ _ ⟨-, rfl⟩ -
      refine ⟨[], n, retryDelay retryCount, _, task.priority, a, b != .refused, c != .refused,
        (fun x hx => by cases hx),
        retryKey_head (retryDelay retryCount).toInt i, ?_, ?_⟩
      · have hnil : countUnread [] = false := rfl
        simpa [hprepared.unread, countUnread_other, hnil] using hcount
      · simp [Command.reads, hwrites, hl₁]
    · intro τ₁ l₁ x w₂ _ hfalse
      cases hfalse
  · intro τ l x w₁ _ hfalse
    cases hfalse

theorem RetryWrites.after {w w₁ : Keyspace} {τ τ' : Trace} {l l' : List Sent} (hτ : Prepared (cStr i) w τ l w₁)
    (h : RetryWrites i w₁ τ' l') : RetryWrites i w (τ ++ τ') (l ++ l') := by
  obtain ⟨before, n, seconds, key, p, a, b, c, hbefore, hkey, hcount, hwrites⟩ := h
  refine ⟨writes l ++ before, n, seconds, key, p, a, b, c, ?_, hkey, ?_, ?_⟩
  · intro x hx
    rcases List.mem_append.1 hx with hx | hx
    · exact hτ.writes x hx
    · exact hbefore x hx
  · rw [recordText_congr hτ.record] at hcount
    simpa [hτ.unread] using hcount
  · rw [writes_append, hwrites, List.append_assoc]

theorem wp_retryTask_writes (i : Bytes) (w : Keyspace) :
    (accounted faulty).wp (retryTask i) (fun τ l o _ => o = .ok true → RetryWrites i w τ l) w := by
  rw [retryTask, getConnection_bind]
  refine wp_connected rfl fun redis hc => ?_
  -- everything up to the increment leaves the record alone; a throw there never reports `true`
  have hevent : Prepared (cStr i) w [⟨.getConnection, some redis⟩] [] w := ⟨rfl, (fun x hx => by cases hx), rfl⟩
  have hread : (redis.getTask i).Every (Only BeforeCount) := getTask_only trivial
  refine Account.wp.bind (wp_beforeCount (cStr i) hread w) ?_ ?_
  · intro τ l task w₁ hτ
    dsimp only
    split
    · rintro _ w₂ _ - hfalse
      cases hfalse
    · have hworker : (redis.hget (taskKey i) (bytes "worker_id")).Every (Only BeforeCount) :=
        hget_only (show cStr (bytes "worker_id") = bytes "worker_id" by decide)
      refine Account.wp.bind (wp_beforeCount (cStr i) hworker w₁) ?_ ?_
      · intro τ₁ l₁ workerId w₂ hτ₁
        split
        · have hdec : (redis.decrementWorkerLoad workerId).Every (Only BeforeCount) :=
            decrementWorkerLoad_only trivial ⟨⟨_, rfl⟩, rfl⟩
          have hload : (redis.getWorkerLoad workerId).Every (Only BeforeCount) := getWorkerLoad_only trivial
          refine Account.wp.bind (wp_beforeCount (cStr i) hdec w₂) ?_ ?_
          · intro τ₂ l₂ _ w₃ hτ₂
            refine Account.wp.bind (wp_beforeCount (cStr i) hload w₃) ?_ ?_
            · rintro τ₃ l₃ load w₄ hτ₃ u w₅ _ ⟨hupdate, rfl⟩
              obtain rfl : w₅ = w₄ := hupdate
              refine (wp_countedRetry hc task.retryCount i w₅).mono ?_
              intro τ₄ l₄ o w' hrest ho
              have hreport : Prepared (cStr i) w₅ [⟨.updateWorkerLoad workerId load, u⟩] [] w₅ :=
                ⟨rfl, (fun x hx => by cases hx), rfl⟩
              have hdecremented := (((hrest ho).after hreport).after hτ₃).after hτ₂
              have hall := ((hdecremented.after hτ₁).after hτ).after hevent
              exact hall
            · intro τ₃ l₃ x w₄ _ hfalse
              cases hfalse
          · intro τ₂ l₂ x w₃ _ hfalse
            cases hfalse
        · refine (wp_countedRetry hc task.retryCount i w₂).mono ?_
          intro τ₂ l₂ o w' hrest ho
          have hall := (((hrest ho).after hτ₁).after hτ).after hevent
          exact hall
      · intro τ₁ l₁ x w₂ _ hfalse
        cases hfalse
  · intro τ l x w₁ _ hfalse
    cases hfalse

end Operations

/-! ### When a reported success took effect -/

/-- A write of this kind was not executed. -/
def writeFailed (kind : Command → Bool) (l : List Sent) : Bool := (writes l).any fun x => kind x.1 && !x.2

def isIncr : Command → Bool
  | .incr _ => true
  | _ => false

/-- The field is stored, and not cut at a NUL byte; where that fails, it had the value before. -/
def Takes (w : Keyspace) (i field value : Bytes) (l : List Sent) : Prop :=
  if writeFailed (storesTo field) l then recordText w i field = value else 0 ∉ value

/-- What an operation that returned `true` should have done to the task `i`. -/
def TaskOperation.TookEffect (i : Bytes) (w : Keyspace) (τ : Trace) (w' : Keyspace) : TaskOperation → Prop
  | .assignTaskToWorker workerId =>
    recordText w' i (bytes "status") = bytes "1" ∧ recordText w' i (bytes "worker_id") = workerId ∧
      (∃ now, ReadTime τ now ∧ recordText w' i (bytes "started_at") = decimal now.toInt) ∧
      workerLoad w' workerId = workerLoad w workerId + 1
  | .completeTask result =>
    recordText w' i (bytes "status") = bytes "2" ∧
      (∃ now, ReadTime τ now ∧ recordText w' i (bytes "finished_at") = decimal now.toInt) ∧
      recordText w' i (bytes "result") = result.result
  | .failTask error =>
    recordText w' i (bytes "status") = bytes "3" ∧
      (∃ now, ReadTime τ now ∧ recordText w' i (bytes "finished_at") = decimal now.toInt) ∧
      recordText w' i (bytes "error_message") = error
  | .retryTask =>
    (∃ n : Int32, recordText w i (bytes "retry_count") = decimal n.toInt ∧
      recordText w' i (bytes "retry_count") = decimal (n.toInt + 1)) ∧ occurrences w' i = occurrences w i + 1

/-- The writes that the operation needs were executed, or were not needed. -/
def TaskOperation.WritesTaken (i : Bytes) (w : Keyspace) (τ : Trace) (l : List Sent) : TaskOperation → Prop
  | .assignTaskToWorker workerId =>
    Takes w i (bytes "status") (bytes "1") l ∧ Takes w i (bytes "worker_id") workerId l ∧
      (∃ now, ReadTime τ now ∧ Takes w i (bytes "started_at") (decimal now.toInt) l) ∧
      0 ∉ workerId ∧ writeFailed isIncr l = false
  | .completeTask result =>
    Takes w i (bytes "status") (bytes "2") l ∧
      (∃ now, ReadTime τ now ∧ Takes w i (bytes "finished_at") (decimal now.toInt) l) ∧
      Takes w i (bytes "result") result.result l
  | .failTask error =>
    Takes w i (bytes "status") (bytes "3") l ∧
      (∃ now, ReadTime τ now ∧ Takes w i (bytes "finished_at") (decimal now.toInt) l) ∧
      if error = [] then recordText w i (bytes "error_message") = [] else Takes w i (bytes "error_message") error l
  | .retryTask =>
    (∃ n : Int32, recordText w i (bytes "retry_count") = decimal n.toInt ∧
      if countUnread τ then n = 0 else n.toInt + 1 < 2 ^ 31) ∧
      writeFailed (storesTo (bytes "retry_count")) l = false ∧ writeFailed isPush l = false

section Success

variable {w w' : Keyspace} {τ : Trace} {l : List Sent} {i : Bytes}

/-- A field that the operation writes once. -/
theorem taken_iff {field value : Bytes} (ok : Bool) (hfailed : writeFailed (storesTo field) l = !ok)
    (htext : recordText w' i field = if ok then cStr value else recordText w i field) :
    recordText w' i field = value ↔ Takes w i field value l := by
  rw [htext, Takes, hfailed]
  cases ok with
  | true => exact cStr_eq_iff value
  | false => exact Iff.rfl

/-- The same for a field that stores the time. -/
theorem timed_iff {field : Bytes} {now : Int64} (ok : Bool) (hnow : ReadTime τ now)
    (hfailed : writeFailed (storesTo field) l = !ok)
    (htext : recordText w' i field = if ok then decimal now.toInt else recordText w i field) :
    (∃ t, ReadTime τ t ∧ recordText w' i field = decimal t.toInt) ↔
      ∃ t, ReadTime τ t ∧ Takes w i field (decimal t.toInt) l := by
  simp only [htext, Takes, hfailed]
  cases ok with
  | true => exact iff_of_true ⟨now, hnow, rfl⟩ ⟨now, hnow, noNul_decimal _⟩
  | false => exact Iff.rfl

theorem assigned_iff {workerId : Bytes} (hid : 0 ∉ i) (hτ : AssignmentWrites i workerId τ l)
    (hreplays : Replays (writes l) w w') :
    (TaskOperation.assignTaskToWorker workerId).TookEffect i w τ w' ↔
      (TaskOperation.assignTaskToWorker workerId).WritesTaken i w τ l := by
  obtain ⟨now, a, b, c, d, hnow, hwrites⟩ := hτ
  rw [cStr_of_noNul hid] at hwrites
  have hupdates : ∀ x ∈ writes l, Updates x.1 := by
    rw [hwrites]
    simp [Updates]
  have htext := hreplays.recordText hupdates i
  have hload := hreplays.workerLoad hupdates workerId
  have hsw : ¬ bytes "status" = bytes "worker_id" ∧ ¬ bytes "status" = bytes "started_at" := by decide
  have hws : ¬ bytes "worker_id" = bytes "status" ∧ ¬ bytes "worker_id" = bytes "started_at" := by decide
  have hss : ¬ bytes "started_at" = bytes "status" ∧ ¬ bytes "started_at" = bytes "worker_id" := by decide
  have hone : cStr (bytes "1") = bytes "1" := by decide
  have hstatus : recordText w' i (bytes "status") = bytes "1" ↔ Takes w i (bytes "status") (bytes "1") l := by
    apply taken_iff a
    · simp [writeFailed, hwrites, storesTo, hws, hss]
    · rw [htext, hwrites]
      simp [Command.stored, hws, hss, hone]
  have hworker : recordText w' i (bytes "worker_id") = workerId ↔ Takes w i (bytes "worker_id") workerId l := by
    apply taken_iff b
    · simp [writeFailed, hwrites, storesTo, hsw, hss]
    · rw [htext, hwrites]
      simp [Command.stored, hsw, hss]
  have hstarted : (∃ t, ReadTime τ t ∧ recordText w' i (bytes "started_at") = decimal t.toInt) ↔
      ∃ t, ReadTime τ t ∧ Takes w i (bytes "started_at") (decimal t.toInt) l := by
    apply timed_iff c hnow
    · simp [writeFailed, hwrites, storesTo, hsw, hws]
    · rw [htext, hwrites]
      simp [Command.stored, hsw, hws]
  have hcount : workerLoad w' workerId = workerLoad w workerId + 1 ↔ 0 ∉ workerId ∧
      writeFailed isIncr l = false := by
    have hkey : workerLoadKey (cStr workerId) = workerLoadKey workerId ↔ 0 ∉ workerId :=
      workerLoadKey_inj.trans (cStr_eq_iff workerId)
    have hfailed : writeFailed isIncr l = !d := by simp [writeFailed, hwrites, isIncr]
    rw [hload, hwrites, hfailed]
    -- the key is cut off at the first zero byte, so the counter of another worker is raised
    by_cases hnul : 0 ∈ workerId
    · have hne := mt hkey.1 (not_not_intro hnul)
      simp [Command.counted, hne, hnul]
    · have heq := hkey.2 hnul
      cases d <;> simp [Command.counted, heq, hnul]
  exact and_congr hstatus (and_congr hworker (and_congr hstarted hcount))

/-- What taking the task off its worker leaves alone. -/
theorem foldl_takesOff {β : Type} {rest : List (Command × Bool)} (h : ∀ x ∈ rest, TakesOff x)
    (change : Command → β → β) (hsame : ∀ v b, change (.incrby (workerLoadKey v) (-1)) b = b) (b : β) :
    rest.foldl (fun b x => if x.2 then change x.1 b else b) b = b := by
  induction rest with
  | nil => rfl
  | cons x rest ih =>
    obtain ⟨cmd, ok⟩ := x
    obtain ⟨v, rfl⟩ : ∃ v, cmd = .incrby (workerLoadKey v) (-1) := h (cmd, ok) List.mem_cons_self
    have hone : (if ok then change (.incrby (workerLoadKey v) (-1)) b else b) = b := by
      rw [hsame, ite_self]
    rw [List.foldl_cons, hone]
    exact ih fun x hx => h x (List.mem_cons_of_mem _ hx)

theorem any_takesOff {kind : Command → Bool} {rest : List (Command × Bool)} (h : ∀ x ∈ rest, TakesOff x)
    (hkind : ∀ v, kind (.incrby (workerLoadKey v) (-1)) = false) :
    (rest.any fun x => kind x.1 && !x.2) = false := by
  refine List.any_eq_false.2 fun x hx => ?_
  obtain ⟨v, hv⟩ := h x hx
  simp [hv, hkind]

theorem TakesOff.updates {x : Command × Bool} (h : TakesOff x) : Updates x.1 := by
  obtain ⟨v, hv⟩ := h
  rw [hv]
  exact ⟨v, rfl⟩

section Reports

variable {mine rest : List (Command × Bool)} (hwrites : writes l = mine ++ rest) (hrest : ∀ x ∈ rest, TakesOff x)
include hwrites hrest

theorem writeFailed_report (field : Bytes) :
    writeFailed (storesTo field) l = mine.any fun x => storesTo field x.1 && !x.2 := by
  rw [writeFailed, hwrites, List.any_append, any_takesOff hrest fun v => rfl, Bool.or_false]

theorem recordText_report (hreplays : Replays (writes l) w w') (hmine : ∀ x ∈ mine, Updates x.1) (field : Bytes) :
    recordText w' i field =
      mine.foldl (fun text x => if x.2 then (x.1.stored i field).getD text else text) (recordText w i field) := by
  have hupdates : ∀ x ∈ writes l, Updates x.1 := by
    intro x hx
    rw [hwrites] at hx
    rcases List.mem_append.1 hx with hx | hx
    · exact hmine x hx
    · exact (hrest x hx).updates
  rw [hreplays.recordText hupdates i, hwrites, List.foldl_append]
  exact foldl_takesOff hrest (fun cmd text => (cmd.stored i field).getD text) (fun v b => rfl) _

end Reports

theorem completed_iff {result : TaskResult} (hid : 0 ∉ i) (hτ : CompletionWrites i result τ l)
    (hreplays : Replays (writes l) w w') :
    (TaskOperation.completeTask result).TookEffect i w τ w' ↔
      (TaskOperation.completeTask result).WritesTaken i w τ l := by
  obtain ⟨now, a, b, c, rest, hnow, hrest, hwrites⟩ := hτ
  rw [cStr_of_noNul hid] at hwrites
  have hfailed := writeFailed_report hwrites hrest
  have htext := recordText_report (i := i) hwrites hrest hreplays (by simp [Updates])
  have hsf : ¬ bytes "status" = bytes "finished_at" ∧ ¬ bytes "status" = bytes "result" := by decide
  have hfs : ¬ bytes "finished_at" = bytes "status" ∧ ¬ bytes "finished_at" = bytes "result" := by decide
  have hrs : ¬ bytes "result" = bytes "status" ∧ ¬ bytes "result" = bytes "finished_at" := by decide
  have htwo : cStr (bytes "2") = bytes "2" := by decide
  refine and_congr (taken_iff a ?_ ?_) (and_congr (timed_iff b hnow ?_ ?_) (taken_iff c ?_ ?_))
  · simp [hfailed, storesTo, hfs, hrs]
  · simp [htext, Command.stored, hfs, hrs, htwo]
  · simp [hfailed, storesTo, hsf, hrs]
  · simp [htext, Command.stored, hsf, hrs]
  · simp [hfailed, storesTo, hsf, hfs]
  · simp [htext, Command.stored, hsf, hfs]

theorem failed_iff {error : Bytes} (hid : 0 ∉ i) (hτ : FailureWrites i error τ l)
    (hreplays : Replays (writes l) w w') :
    (TaskOperation.failTask error).TookEffect i w τ w' ↔ (TaskOperation.failTask error).WritesTaken i w τ l := by
  obtain ⟨now, a, b, c, rest, hnow, hrest, hwrites⟩ := hτ
  rw [cStr_of_noNul hid] at hwrites
  have hse : ¬ bytes "status" = bytes "error_message" ∧ ¬ bytes "status" = bytes "finished_at" := by decide
  have hes : ¬ bytes "error_message" = bytes "status" ∧ ¬ bytes "error_message" = bytes "finished_at" := by decide
  have hfs : ¬ bytes "finished_at" = bytes "status" ∧ ¬ bytes "finished_at" = bytes "error_message" := by decide
  have hthree : cStr (bytes "3") = bytes "3" := by decide
  by_cases herr : error = []
  · subst herr
    rw [if_pos rfl, List.nil_append] at hwrites
    have hfailed := writeFailed_report hwrites hrest
    have htext := recordText_report (i := i) hwrites hrest hreplays (by simp [Updates])
    have hkept : recordText w' i (bytes "error_message") = recordText w i (bytes "error_message") := by
      simp [htext, Command.stored, hse, hfs]
    refine and_congr (taken_iff a ?_ ?_) (and_congr (timed_iff c hnow ?_ ?_) ?_)
    · simp [hfailed, storesTo, hfs]
    · simp [htext, Command.stored, hfs, hthree]
    · simp [hfailed, storesTo, hse]
    · simp [htext, Command.stored, hse]
    · rw [hkept, if_pos rfl]
  · rw [if_neg herr, List.singleton_append] at hwrites
    have hfailed := writeFailed_report hwrites hrest
    have htext := recordText_report (i := i) hwrites hrest hreplays (by simp [Updates])
    refine and_congr (taken_iff a ?_ ?_) (and_congr (timed_iff c hnow ?_ ?_) ?_)
    · simp [hfailed, storesTo, hes, hfs]
    · simp [htext, Command.stored, hes, hfs, hthree]
    · simp [hfailed, storesTo, hse, hes]
    · simp [htext, Command.stored, hse, hes]
    · rw [if_neg herr]
      apply taken_iff b
      · simp [hfailed, storesTo, hse, hfs]
      · simp [htext, Command.stored, hse, hfs]

/-- The count that `incrementTaskRetry` stores is the next one, unless it did not read the old one. -/
theorem nextCount_iff {n m : Int32} {text : Bytes} {unread : Bool} (htext : text = decimal m.toInt)
    (hcount : if unread then n = 0 else readCount text = .ok n) :
    decimal (n + 1).toInt = decimal (m.toInt + 1) ↔ if unread then m = 0 else m.toInt + 1 < 2 ^ 31 := by
  have hlow := m.le_toInt
  have hhigh := m.toInt_lt
  have hinj : decimal (n + 1).toInt = decimal (m.toInt + 1) ↔ (n + 1).toInt = m.toInt + 1 :=
    ⟨decimal_injective, fun h => by rw [h]⟩
  rw [hinj]
  cases unread with
  | true =>
    rw [if_pos rfl] at hcount ⊢
    subst hcount
    have hone : ((0 : Int32) + 1).toInt = 1 := by decide
    rw [hone, ← Int32.toInt_inj, Int32.toInt_zero]
    omega
  | false =>
    rw [if_neg (by simp)] at hcount ⊢
    have hread : readCount (decimal m.toInt) = .ok m := by
      rw [readCount, if_neg (by simp [decimal_ne_nil]), stoi_decimal]
    rw [htext, hread] at hcount
    obtain rfl := Except.ok.inj hcount
    constructor
    · intro h
      have hnext := (m + 1).toInt_lt
      omega
    · intro h
      have hmax : (Int32.maxValue).toInt = 2 ^ 31 - 1 := by decide
      exact BitFields.toInt_succ (b := Int32.maxValue) (by omega)

theorem retried_iff (hid : 0 ∉ i) (hτ : RetryWrites i w τ l) (hreplays : Replays (writes l) w w') :
    TaskOperation.retryTask.TookEffect i w τ w' ↔ TaskOperation.retryTask.WritesTaken i w τ l := by
  obtain ⟨before, n, seconds, key, p, a, b, c, hbefore, hkey, hcount, hwrites⟩ := hτ
  rw [cStr_of_noNul hid] at hwrites hcount
  have hupdates : ∀ x ∈ writes l, Updates x.1 := by
    rw [hwrites]
    simp only [List.mem_append]
    rintro x (hx | hx)
    · exact (hbefore x hx).updates
    · revert x
      simp [Updates, hkey, queueOf_mem]
  have htext : recordText w' i (bytes "retry_count") =
      if a then decimal (n + 1).toInt else recordText w i (bytes "retry_count") := by
    rw [hreplays.recordText hupdates i, hwrites, List.foldl_append,
      foldl_takesOff hbefore (fun cmd text => (cmd.stored i (bytes "retry_count")).getD text) fun v b => rfl]
    simp [Command.stored]
  have hqueue : occurrences w' i = occurrences w i + if c then 1 else 0 := by
    rw [hreplays.occurrences hupdates i, hwrites, List.foldl_append,
      foldl_takesOff hbefore (fun cmd n => n + cmd.pushed i) fun v b => rfl]
    cases c <;> simp [Command.pushed]
  have hstore : writeFailed (storesTo (bytes "retry_count")) l = !a := by
    rw [writeFailed, hwrites, List.any_append, any_takesOff hbefore fun v => rfl]
    simp [storesTo]
  have hpush : writeFailed isPush l = !c := by
    rw [writeFailed, hwrites, List.any_append, any_takesOff hbefore fun v => rfl]
    simp [isPush]
  show (∃ m : Int32, _ ∧ _) ∧ _ ↔ (∃ m : Int32, _ ∧ _) ∧ _ ∧ _
  rw [htext, hqueue, hstore, hpush]
  -- the push is seen in the lists; a count that was not stored is told by its text
  cases c with
  | false => simp
  | true =>
    cases a with
    | false =>
      refine iff_of_false ?_ (by simp)
      rintro ⟨⟨m, hm, hsame⟩, -⟩
      have hnext := decimal_injective (hm.symm.trans hsame)
      omega
    | true =>
      simp only [if_true, Bool.not_true, and_self, and_true]
      exact exists_congr fun m => and_congr_right fun hm => nextCount_iff hm hcount

end Success

/-- A reported success took effect, exactly if the writes that the operation needs were executed, or the fields had
their values before. -/
theorem success_took_effect_iff {op : TaskOperation} {i : Bytes} (hid : 0 ∉ i) {w w' : Keyspace} {τ : Trace}
    {l : List Sent} (hrun : Run (accounted True).logged (op.code i) (w, []) τ (.ok true) (w', l)) :
    op.TookEffect i w τ w' ↔ op.WritesTaken i w τ l := by
  have hreplays := (wp_replays (op.code i) w).run_nil hrun
  cases op with
  | assignTaskToWorker workerId =>
    exact assigned_iff hid ((wp_assignTaskToWorker_writes i workerId w).run_nil hrun rfl) hreplays
  | completeTask result => exact completed_iff hid ((wp_completeTask_writes i result w).run_nil hrun rfl) hreplays
  | failTask error => exact failed_iff hid ((wp_failTask_writes i error w).run_nil hrun rfl) hreplays
  | retryTask => exact retried_iff hid ((wp_retryTask_writes i w).run_nil hrun rfl) hreplays

/-- The fates of commands where the status cannot be stored, and the replies of the other `HSET`s are lost. -/
private def statusRefused (cmd : Command) : Fate :=
  if storesTo (bytes "status") cmd then .refused
  else match cmd with
    | .hset _ _ _ => .lost
    | _ => .answered

/-- A submitted task whose status cannot be stored is assigned. -/
private theorem assigned_run : ∃ w w' τ₀ τ l, Run (served True)
    (submitTask pendingRequest) ∅ τ₀ (.ok true) w ∧
    Run (accounted True).logged ((TaskOperation.assignTaskToWorker (bytes "w")).code (bytes "1"))
      (w, []) τ (.ok true) (w', l) ∧
    recordText w' (bytes "1") (bytes "status") = bytes "0" ∧ recordText w' (bytes "1")
      (bytes "worker_id") = bytes "w" := by
  have hplay : ((submitTask pendingRequest).play (answer (fun _ => false) []) ∅).bind (fun run =>
      (((TaskOperation.assignTaskToWorker (bytes "w")).code (bytes "1")).play
        (account statusRefused []) (run.2.2, [])).map fun run' =>
          (run.2.1.toOption, run'.2.1.toOption, recordText run'.2.2.1 (bytes "1") (bytes "status"),
            recordText run'.2.2.1 (bytes "1") (bytes "worker_id"))) =
      some (some true, some true, bytes "0", bytes "w") := by decide +kernel
  obtain ⟨⟨τ₀, o₀, w⟩, hsubmit, hassign⟩ := Option.bind_eq_some_iff.1 hplay
  obtain ⟨⟨τ, o, w', l⟩, hassign, hend⟩ := Option.map_eq_some_iff.1 hassign
  simp only [Prod.mk.injEq] at hend
  obtain ⟨ho₀, ho, hstatus, hworker⟩ := hend
  obtain rfl := eq_ok_of_toOption ho₀
  obtain rfl := eq_ok_of_toOption ho
  exact ⟨w, w', τ₀, τ, l, Run.of_play answer_fault_free hsubmit,
    Run.of_play (account_logged (fun _ _ => trivial) fun h => absurd rfl h) hassign, hstatus, hworker⟩

theorem success_took_effect_assigned : ∃ w w' τ l,
    Run (accounted True).logged ((TaskOperation.assignTaskToWorker (bytes "w")).code (bytes "1"))
      (w, []) τ (.ok true) (w', l) ∧
    ((TaskOperation.assignTaskToWorker (bytes "w")).TookEffect (bytes "1") w τ w' ↔
      (TaskOperation.assignTaskToWorker (bytes "w")).WritesTaken (bytes "1") w τ l) := by
  obtain ⟨w, w', _, τ, l, _, hrun, _⟩ := assigned_run
  exact ⟨w, w', τ, l, hrun, success_took_effect_iff (by decide) hrun⟩

/-- The assignment of a submitted task reports success, and its record says that it is still pending. -/
theorem assigned_but_pending : ∃ w w' τ₀ τ l, Run (served True)
    (submitTask pendingRequest) ∅ τ₀ (.ok true) w ∧
    Run (accounted True).logged ((TaskOperation.assignTaskToWorker (bytes "w")).code (bytes "1"))
      (w, []) τ (.ok true) (w', l) ∧
    ¬ (TaskOperation.assignTaskToWorker (bytes "w")).TookEffect (bytes "1") w τ w' := by
  obtain ⟨w, w', τ₀, τ, l, hsubmit, hassign, hstatus, -⟩ := assigned_run
  refine ⟨w, w', τ₀, τ, l, hsubmit, hassign, fun heffect => ?_⟩
  have hone := hstatus.symm.trans heffect.1
  exact absurd hone (by decide)

end Taskflow
