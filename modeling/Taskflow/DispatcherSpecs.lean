import Taskflow.Scheduler

/-!
# What the operations of `TaskDispatcher` do when nothing fails

One specification for each wrapper and each operation: the content of Redis after every fault-free run, in terms of
the stored record and the worker's counter before it.  `Ends` speaks of all outcomes, `Returns` says in addition
that no exception is thrown; both are weakest preconditions that forget the events.  The counter is read with
`std::stoi` after it was changed, so `assignTaskToWorker`, `completeTask` and `failTask` may throw, but only when
their writes are done.
-/

namespace Taskflow

open Text Effects Prog

variable {α β : Type} {w w' : Keyspace} {redis : RedisClient} {i v : Bytes} {f : StringMap Bytes}

/-! ### Fault-free runs -/

/-- Every fault-free run from `w` ends in `Q`. -/
def Ends (p : Code α) (Q : Except StdException α → Keyspace → Prop) (w : Keyspace) : Prop :=
  wp (served False) p (fun _ => Q) w

/-- Every fault-free run from `w` returns a value, in `Q`. -/
def Returns (p : Code α) (Q : α → Keyspace → Prop) (w : Keyspace) : Prop :=
  Ends p (fun o w' => ∃ a, o = .ok a ∧ Q a w') w

section Rules

variable {p : Code α} {g : α → Code β} {Q : Except StdException α → Keyspace → Prop}
  {Q' : Except StdException β → Keyspace → Prop} {R : α → Keyspace → Prop}

theorem Ends.run (h : Ends p Q w) {τ : List (Event Effect Effect.Answer)} {o : Except StdException α}
    (hr : Run (served False) p w τ o w') : Q o w' := wp.run h hr

theorem Ends.mono {R : Except StdException α → Keyspace → Prop} (h : Ends p Q w)
    (hQ : ∀ o w', Q o w' → R o w') :
    Ends p R w := wp.mono h fun _ => hQ

theorem Ends.bind (h : Ends p Q w) (hok : ∀ a w', Q (.ok a) w' → Ends (g a) Q' w')
    (herr : ∀ x w', Q (.error x) w' → Q' (.error x) w') : Ends (p >>= g) Q' w :=
  wp.bind h (fun _ => hok) (fun _ => herr)

theorem Returns.bind (h : Returns p R w) (hg : ∀ a w', R a w' → Ends (g a) Q' w') : Ends (p >>= g) Q' w := by
  apply Ends.bind h
  · rintro a w' ⟨_, ⟨⟩, ha⟩
    exact hg a w' ha
  · rintro x w' ⟨_, ho, -⟩
    cases ho

theorem returns_ret {a : α} (h : R a w) : Returns (.ret a) R w := ⟨a, rfl, h⟩

/-- An effect that changes nothing. -/
theorem ends_unchanged {e : Effect} {k : e.Answer → Code α} (hs : ∀ r w', served False e w r w' → w' = w)
    (hk : ∀ r, Ends (k r) Q w) : Ends (.call e k) Q w := by
  intro r w' h
  obtain rfl := hs r w' h
  exact hk r

theorem ends_connection {g : Option RedisClient → Code α}
    (h : ∀ redis, redis.connected = true → Ends (g (some redis)) Q w) : Ends (getConnection >>= g) Q w := by
  rintro r w' ⟨rfl, hconn, hnone⟩
  cases r with
  | none => exact (hnone rfl).elim
  | some redis => exact h redis (hconn redis rfl)

/-- A command that succeeds. -/
theorem ends_command {c : Nat} {cmd : Command} {k : Option Reply → Code α}
    (h : (exec cmd w).1.isError = false → Ends (k (some (exec cmd w).1)) Q (exec cmd w).2) :
    Ends (.call (.command c cmd) k) Q w := by
  intro r w' hs
  obtain ⟨rfl, rfl, hok⟩ := served_command hs
  exact h hok

theorem ends_return {a : α} (h : Q (.ok a) w) : Ends (do returnConnection redis; return a) Q w :=
  ends_unchanged (fun _ _ hs => hs) fun _ => h

theorem returns_declareTaskInfo : Returns declareTaskInfo (fun _ w' => w' = w) w :=
  ends_unchanged (fun _ _ hs => hs) fun _ => returns_ret rfl

end Rules

/-! ### Records -/

theorem lookup_inserted (w : Keyspace) (key : Bytes) (v : Value) : (w.insert key v)[key]? = some v := by simp

theorem insert_insert (w : Keyspace) (key : Bytes) (a b : Value) :
    (w.insert key a).insert key b = w.insert key b := by
  apply Std.ExtTreeMap.ext_getElem?
  intro k
  by_cases he : key = k <;> simp [he]

section Records

variable (hc : redis.connected = true) (hi : 0 ∉ i) (hw : w[taskKey i]? = some (.hash f))
include hc hi hw

theorem returns_hset {field : Bytes} (value : Bytes) (hf : 0 ∉ field) :
    Returns (redis.hset (taskKey i) field value)
      (fun _ w' => w' = w.insert (taskKey i) (.hash (f.insert field (cStr value)))) w := by
  rw [hset_eq hc, cStr_taskKey hi, cStr_of_noNul hf]
  apply ends_command
  intro _
  exact returns_ret (exec_hset hw)

theorem returns_hget {field : Bytes} (hf : 0 ∉ field) :
    Returns (redis.hget (taskKey i) field) (fun text w' => w' = w ∧ text = (f[field]?).getD []) w := by
  rw [hget_eq hc, cStr_taskKey hi, cStr_of_noNul hf]
  apply ends_command
  intro _
  exact returns_ret ⟨exec_reads rfl w, replyText_hget hw⟩

theorem returns_getTask {p : Int32} (hr : TaskRecord p f) :
    Returns (redis.getTask i) (fun task w' => w' = w ∧ task.id = i ∧ task.priority = p ∧
      f[bytes "retry_count"]? = some (decimal task.retryCount.toInt)) w := by
  have hfields : Returns (redis.hgetall (taskKey i)) (fun fields w' => w' = w ∧ fields = f) w := by
    rw [hgetall_eq hc, cStr_taskKey hi]
    apply ends_command
    intro _
    exact returns_ret ⟨exec_hgetall _ w, replyFields_hgetall hw⟩
  apply Returns.bind returns_declareTaskInfo
  rintro declared _ rfl
  apply Returns.bind hfields
  rintro fields _ ⟨rfl, rfl⟩
  rw [if_neg (by simp [hr.isEmpty])]
  obtain ⟨task, htask, hid, hp, hretry⟩ := hr.readFields { declared with id := i }
  rw [htask]
  exact returns_ret ⟨rfl, hid, hp, hretry⟩

end Records

/-- The fields after `updateTaskStatus` with the status of a task that has ended. -/
def statusFields (f : StringMap Bytes) (status : Int32) (errorMsg : Bytes) (now : Int64) : StringMap Bytes :=
  let f := f.insert (bytes "status") (decimal status.toInt)
  let f := if errorMsg.isEmpty then f else f.insert (bytes "error_message") (cStr errorMsg)
  f.insert (bytes "finished_at") (decimal now.toInt)

private theorem returns_finish (hc : redis.connected = true) (hi : 0 ∉ i) (hw : w[taskKey i]? = some (.hash f))
    {status : Int32} (hs : status = 2 ∨ status = 3) :
    Returns (do
        if (decide (status = 2) || decide (status = 3)) = true then
          let now ← systemClock
          let _ ← redis.hset (taskKey i) (bytes "finished_at") (decimal now.toInt)
        return true : Code Bool)
      (fun _ w' => ∃ now : Int64,
        w' = w.insert (taskKey i) (.hash (f.insert (bytes "finished_at") (decimal now.toInt)))) w := by
  dsimp only
  rw [if_pos (by simpa using hs)]
  refine ends_unchanged (fun _ _ hs => hs) fun now => ?_
  apply Returns.bind (returns_hset hc hi hw (decimal now.toInt) (by decide))
  rintro _ w' rfl
  rw [cStr_of_noNul (noNul_decimal _)]
  exact returns_ret ⟨now, rfl⟩

theorem returns_updateTaskStatus (hc : redis.connected = true) (hi : 0 ∉ i) (hw : w[taskKey i]? = some (.hash f))
    {status : Int32} (hs : status = 2 ∨ status = 3) (errorMsg : Bytes) :
    Returns (redis.updateTaskStatus i status errorMsg)
      (fun _ w' => ∃ now, w' = w.insert (taskKey i) (.hash (statusFields f status errorMsg now))) w := by
  apply Returns.bind (returns_hset hc hi hw (decimal status.toInt) (by decide))
  rintro _ w₁ rfl
  rw [cStr_of_noNul (noNul_decimal _)]
  unfold statusFields
  cases herr : errorMsg.isEmpty with
  | true =>
    refine (returns_finish hc hi (lookup_inserted _ _ _) hs).mono ?_
    rintro o w' ⟨a, rfl, now, rfl⟩
    exact ⟨a, rfl, now, insert_insert _ _ _ _⟩
  | false =>
    apply Returns.bind (returns_hset hc hi (lookup_inserted _ _ _) errorMsg (by decide))
    rintro _ w₂ rfl
    refine (returns_finish hc hi (lookup_inserted _ _ _) hs).mono ?_
    rintro o w' ⟨a, rfl, now, rfl⟩
    exact ⟨a, rfl, now, by rw [insert_insert, insert_insert]; rfl⟩

/-! ### Counters -/

/-- The counter of a worker: what `GET` shows, `0` if there is none. -/
def workerLoad (w : Keyspace) (v : Bytes) : Int :=
  match w[workerLoadKey v]? with
  | some (.string b) => (redisInteger b).getD 0
  | _ => 0

/-- The counter exists and is `n`. -/
def CounterIs (w : Keyspace) (v : Bytes) (n : Int64) : Prop :=
  w[workerLoadKey v]? = some (.string (decimal n.toInt))

theorem redisInteger_of_bounds {n : Int} (h₁ : -2 ^ 63 ≤ n) (h₂ : n < 2 ^ 63) :
    redisInteger (decimal n) = some n := by
  simp only [redisInteger, strtol_decimal, Option.filter_some]
  rw [if_pos]
  simp only [beq_self_eq_true, Bool.true_and, Bool.and_eq_true, decide_eq_true_eq]
  exact ⟨h₁, h₂⟩

theorem redisInteger_decimal (n : Int64) : redisInteger (decimal n.toInt) = some n.toInt :=
  redisInteger_of_bounds n.le_toInt n.toInt_lt

theorem CounterIs.workerLoad {n : Int64} (h : CounterIs w v n) : workerLoad w v = n.toInt := by
  simp only [Taskflow.workerLoad, show w[workerLoadKey v]? = _ from h, redisInteger_decimal, Option.getD_some]

theorem workerLoad_of_none (h : w[workerLoadKey v]? = none) : workerLoad w v = 0 := by
  simp only [workerLoad, h]

theorem workerLoad_congr (h : w'[workerLoadKey v]? = w[workerLoadKey v]?) : workerLoad w' v = workerLoad w v := by
  simp only [workerLoad, h]

private theorem int64_of_bounds {m : Int} (h₁ : -2 ^ 63 ≤ m) (h₂ : m < 2 ^ 63) : ∃ n : Int64, n.toInt = m :=
  ⟨Int64.ofInt m, Int64.toInt_ofInt_of_le h₁ h₂⟩

/-- `INCRBY` of a counter, or of a key that does not exist, when it does not overflow. -/
private theorem exec_incrby_counter {n : Int64} {k : Int}
    (hw : CounterIs w v n ∨ w[workerLoadKey v]? = none ∧ n = 0)
    (hok : (execIncrby (workerLoadKey v) k w).1.isError = false) :
    ∃ m : Int64, m.toInt = n.toInt + k ∧
      (execIncrby (workerLoadKey v) k w).2 = w.insert (workerLoadKey v) (.string (decimal m.toInt)) := by
  have hadd : execIncrby (workerLoadKey v) k w =
      if -2 ^ 63 ≤ n.toInt + k ∧ n.toInt + k < 2 ^ 63 then
        (.integer (n.toInt + k), w.insert (workerLoadKey v) (.string (decimal (n.toInt + k))))
      else (.error, w) := by
    rcases hw with hw | ⟨hw, rfl⟩
    · simp only [execIncrby, show w[workerLoadKey v]? = _ from hw, redisInteger_decimal]
    · simp only [execIncrby, hw]
      rfl
  rw [hadd] at hok ⊢
  split at hok
  · rename_i hb
    obtain ⟨m, hm⟩ := int64_of_bounds hb.1 hb.2
    refine ⟨m, hm, ?_⟩
    rw [if_pos hb, hm]
  · cases hok

section Counters

variable (hc : redis.connected = true) (hv : 0 ∉ v)
include hc hv

theorem returns_incrementWorkerLoad {n : Int64} (hw : CounterIs w v n ∨ w[workerLoadKey v]? = none ∧ n = 0) :
    Returns (redis.incrementWorkerLoad v) (fun _ w' => ∃ m : Int64, m.toInt = n.toInt + 1 ∧
      w' = w.insert (workerLoadKey v) (.string (decimal m.toInt))) w := by
  rw [RedisClient.incrementWorkerLoad, incr_eq hc, cStr_workerLoadKey hv]
  apply ends_command
  intro hok
  exact returns_ret (exec_incrby_counter hw hok)

/-- The content after one decrement: the counter goes down by one, but not below zero. -/
def Decremented (w : Keyspace) (v : Bytes) (n : Int64) (w' : Keyspace) : Prop :=
  if 0 < n.toInt then ∃ m : Int64, m.toInt = n.toInt - 1 ∧
    w' = w.insert (workerLoadKey v) (.string (decimal m.toInt))
  else w' = w

theorem returns_decrementWorkerLoad {n : Int64} (hw : CounterIs w v n) :
    Returns (redis.decrementWorkerLoad v) (fun _ w' => Decremented w v n w') w := by
  have hload : Returns (redis.get (workerLoadKey v)) (fun text w' => w' = w ∧ text = decimal n.toInt) w := by
    rw [get_eq hc, cStr_workerLoadKey hv]
    apply ends_command
    intro _
    refine returns_ret ⟨exec_reads rfl w, ?_⟩
    simp only [exec, show w[workerLoadKey v]? = _ from hw]
    rfl
  apply Returns.bind hload
  rintro text _ ⟨rfl, rfl⟩
  rw [stoll_decimal]
  show Ends (if 0 < n then _ else _) _ _
  have hpos : 0 < n ↔ 0 < n.toInt := Int64.lt_iff_toInt_lt
  by_cases hn : 0 < n
  · rw [if_pos hn, incrby_eq hc, cStr_workerLoadKey hv]
    apply ends_command
    intro hok
    refine returns_ret ?_
    rw [Decremented, if_pos (hpos.1 hn)]
    exact exec_incrby_counter (Or.inl hw) hok
  · rw [if_neg hn]
    refine returns_ret ?_
    rw [Decremented, if_neg (fun h => hn (hpos.2 h))]

/-- `std::stoi` throws for a counter that does not fit, but nothing changes. -/
theorem ends_getWorkerLoad : Ends (redis.getWorkerLoad v)
    (fun o w' => w' = w ∧ ∀ n, CounterIs w v n → o = stoi 10 (decimal n.toInt)) w := by
  rw [RedisClient.getWorkerLoad, get_eq hc, cStr_workerLoadKey hv]
  apply ends_command
  intro _
  rw [exec_reads rfl]
  refine Post.ofExcept ⟨rfl, fun n hn => ?_⟩
  have htext : replyText (some (exec (.get (workerLoadKey v)) w).1) = decimal n.toInt := by
    simp only [exec, show w[workerLoadKey v]? = _ from hn]
    rfl
  rw [htext, if_neg (by simp [decimal_ne_nil])]

/-- What follows the change of a counter reads it and tells the load balancer. -/
theorem ends_reportLoad {p : Int32 → Code α} (hp : ∀ load, Ends (p load) (fun _ w' => w' = w) w) :
    Ends (do
      let load ← redis.getWorkerLoad v
      updateWorkerLoad v load
      p load) (fun _ w' => w' = w) w := by
  apply Ends.bind (ends_getWorkerLoad hc hv)
  · rintro load _ ⟨rfl, -⟩
    exact ends_unchanged (fun _ _ hs => hs) fun _ => hp load
  · rintro x _ ⟨rfl, -⟩
    rfl

end Counters

/-! ### Operations -/

/-- The records and the counters are as before. -/
structure Unaccounted (w w' : Keyspace) : Prop where
  records : ∀ j, w'[taskKey j]? = w[taskKey j]?
  counters : ∀ u, w'[workerLoadKey u]? = w[workerLoadKey u]?

theorem Unaccounted.refl (w : Keyspace) : Unaccounted w w := ⟨fun _ => rfl, fun _ => rfl⟩

theorem Unaccounted.trans {w'' : Keyspace} (h : Unaccounted w w') (h' : Unaccounted w' w'') : Unaccounted w w'' :=
  ⟨fun j => (h'.records j).trans (h.records j), fun u => (h'.counters u).trans (h.counters u)⟩

theorem unaccounted_exec {cmd : Command} (hi : ∀ j, cmd.key ≠ taskKey j) (hv : ∀ u, cmd.key ≠ workerLoadKey u)
    (w : Keyspace) : Unaccounted w (exec cmd w).2 :=
  ⟨fun j => exec_frame cmd w (hi j), fun u => exec_frame cmd w (hv u)⟩

private theorem queue_unaccounted {q : Bytes} (hq : q ∈ queueKeys) {cmd : Command} (hkey : cmd.key = q)
    (w : Keyspace) :
    Unaccounted w (exec cmd w).2 := by
  subst hkey
  exact unaccounted_exec (fun j => (taskKey_ne_queue hq j).symm) (fun u => (workerLoadKey_ne_queue hq u).symm) w

theorem returns_pushToPriorityQueue (hc : redis.connected = true) (p : Int32) {x : Bytes} (hx : 0 ∉ x) :
    Returns (redis.pushToPriorityQueue p x) (fun pushed w' => pushed = true ∧ Unaccounted w w' ∧
      ∀ j, occurrences w' j = occurrences w j + if x = j then 1 else 0) w := by
  have hq := queueOf_mem p
  rw [RedisClient.pushToPriorityQueue, rpush_eq hc, cStr_queue hq, cStr_of_noNul hx]
  apply ends_command
  intro hok
  have happended := appended_rpush (x := x) hq (isQueue_of_ok (Or.inl hok))
  exact returns_ret ⟨by simp [succeeded, hok], queue_unaccounted hq rfl w, happended.occurrences⟩

theorem ends_submitTask {task : TaskRequest} (hid : ValidId task.id) (hw : w[taskKey task.id]? = none) :
    Ends (submitTask task) (fun o w' => o = .ok true ∧ ∃ info, SubmittedInfo task info ∧
      Unaccounted (w.insert (taskKey task.id) (.hash (recordFields info))) w' ∧
      ∀ j, occurrences w' j = occurrences w j + if task.id = j then 1 else 0) w := by
  apply ends_connection
  intro redis hc
  dsimp only
  rw [declareTaskInfo_bind]
  refine ends_unchanged (fun _ _ hs => hs) fun stack => ?_
  have hsave : ∀ info : TaskInfo, info.id = task.id → Returns (redis.saveTask info)
      (fun saved w' => saved = true ∧ w' = w.insert (taskKey task.id) (.hash (recordFields info))) w := by
    intro info hinfo
    rw [RedisClient.saveTask, hmset_eq hc _ (recordFields_record info).isEmpty, hinfo]
    apply ends_command
    intro hok
    exact returns_ret ⟨by simp [succeeded, hok], exec_hmset hw⟩
  apply Returns.bind (hsave _ rfl)
  rintro _ _ ⟨rfl, rfl⟩
  apply Returns.bind (returns_pushToPriorityQueue hc _ hid.noNul)
  rintro _ w' ⟨rfl, hsame, hocc⟩
  refine ends_return ⟨rfl, _, ⟨rfl, rfl, rfl, rfl, rfl, rfl, rfl, rfl, rfl⟩, hsame, fun j => ?_⟩
  rw [hocc j, occurrences_congr]
  intro q hq
  rw [getElem?_insert, if_neg (taskKey_ne_queue hq task.id)]

/-- One list, or all of them, after a pop: `i` is gone once, if it is not empty. -/
structure PoppedFrom (w w' : Keyspace) (i : Bytes) : Prop where
  same : Unaccounted w w'
  occurrences : ∀ j, j ≠ [] → occurrences w j = occurrences w' j + if i = j then 1 else 0
  fewer : ∀ j, Taskflow.occurrences w' j ≤ Taskflow.occurrences w j

theorem PoppedFrom.after {u : Keyspace} {x : Bytes} (h' : PoppedFrom u w' i) (hx : x = []) (h : PoppedFrom w u x) :
    PoppedFrom w w' i := by
  refine ⟨h.same.trans h'.same, fun j hj => ?_, fun j => (h'.fewer j).trans (h.fewer j)⟩
  have hne : ¬x = j := fun he => hj (by rw [← he, hx])
  rw [h.occurrences j hj, h'.occurrences j hj, if_neg hne]
  omega

theorem returns_lpop (hc : redis.connected = true) {q : Bytes} (hq : q ∈ queueKeys) :
    Returns (redis.lpop q) (fun i w' => PoppedFrom w w' i) w := by
  rw [lpop_eq hc, cStr_queue hq]
  apply ends_command
  intro hok
  have hsame := queue_unaccounted hq (show (Command.lpop q).key = q from rfl) w
  rcases exec_lpop (isQueue_of_ok (x := []) (Or.inr hok)) with ⟨x, hx, hitems, hqueue⟩ | ⟨hx, hempty, -⟩
  · have htaken : Taken w (exec (.lpop q) w).2 q x := ⟨hq, fun _ hne => exec_frame _ w hne, hqueue, hitems⟩
    rw [hx]
    refine returns_ret ⟨hsame, fun j _ => htaken.occurrences j, fun j => ?_⟩
    have hocc := htaken.occurrences j
    omega
  · rw [hx, hempty]
    refine returns_ret ⟨Unaccounted.refl w, fun j hj => ?_, fun _ => le_rfl⟩
    simp [replyText, hj.symm]

theorem returns_popNextTask : Returns popNextTask (fun i w' => PoppedFrom w w' i) w := by
  have hmem : queueHigh ∈ queueKeys ∧ queueMedium ∈ queueKeys ∧ queueLow ∈ queueKeys := by simp [queueKeys]
  apply ends_connection
  intro redis hc
  have hpop : Returns redis.popFromPriorityQueue (fun i w' => PoppedFrom w w' i) w := by
    apply Returns.bind (returns_lpop hc hmem.1)
    intro i w₁ h₁
    split
    · exact returns_ret h₁
    rename_i hempty₁
    apply Returns.bind (returns_lpop hc hmem.2.1)
    intro i' w₂ h₂
    split
    · exact returns_ret (h₂.after (by simpa using hempty₁) h₁)
    rename_i hempty₂
    refine (returns_lpop hc hmem.2.2).mono ?_
    rintro o w₃ ⟨i, ho, h₃⟩
    exact ⟨i, ho, (h₃.after (by simpa using hempty₂) h₂).after (by simpa using hempty₁) h₁⟩
  apply Returns.bind hpop
  intro i w' hw'
  exact ends_return ⟨i, rfl, hw'⟩

/-- The fields of a record after an assignment. -/
def assignFields (f : StringMap Bytes) (workerId : Bytes) (now : Int64) : StringMap Bytes :=
  ((f.insert (bytes "status") (bytes "1")).insert (bytes "worker_id") workerId).insert (bytes "started_at")
    (decimal now.toInt)

theorem ends_assignTaskToWorker (hi : ValidId i) (hv : ValidId v) {p : Int32} (hr : TaskRecord p f)
    (hw : w[taskKey i]? = some (.hash f)) {n : Int64} (hn : CounterIs w v n ∨ w[workerLoadKey v]? = none ∧ n = 0) :
    Ends (assignTaskToWorker i v) (fun _ w' => ∃ now m : Int64, m.toInt = n.toInt + 1 ∧
      w' = (w.insert (taskKey i) (.hash (assignFields f v now))).insert (workerLoadKey v)
        (.string (decimal m.toInt))) w := by
  apply ends_connection
  intro redis hc
  apply Returns.bind (returns_getTask hc hi.noNul hw hr)
  rintro task _ ⟨rfl, hid, -⟩
  rw [if_neg (by simp [hid, hi.nonempty])]
  refine ends_unchanged (fun _ _ hs => hs) fun now => ?_
  apply Returns.bind (returns_hset hc hi.noNul hw (bytes "1") (by decide))
  rintro _ w₁ rfl
  apply Returns.bind (returns_hset hc hi.noNul (lookup_inserted _ _ _) v (by decide))
  rintro _ w₂ rfl
  apply Returns.bind (returns_hset hc hi.noNul (lookup_inserted _ _ _) (decimal now.toInt) (by decide))
  rintro _ w₃ rfl
  have hone : cStr (bytes "1") = bytes "1" := by decide
  rw [insert_insert, insert_insert, hone, cStr_of_noNul hv.noNul, cStr_of_noNul (noNul_decimal _)]
  apply Returns.bind (returns_incrementWorkerLoad hc hv.noNul (n := n) (by simpa [CounterIs] using hn))
  rintro _ w₄ ⟨m, hm, rfl⟩
  refine (ends_reportLoad hc hv.noNul fun _ => ends_return rfl).mono ?_
  rintro o _ rfl
  exact ⟨now, m, hm, rfl⟩

/-- The end of both reports: the task is taken off its worker. -/
private theorem ends_report (hc : redis.connected = true) (hv : ValidId v) {n : Int64} (hn : CounterIs w v n)
    {report : Code Unit} (hr : ∀ w, Returns report (fun _ w' => w' = w) w) :
    Ends (do
      if (!v.isEmpty) = true then
        let _ ← redis.decrementWorkerLoad v
        let load ← redis.getWorkerLoad v
        updateWorkerLoad v load
        report
      returnConnection redis
      return true : Code Bool) (fun _ w' => Decremented w v n w') w := by
  dsimp only
  rw [if_pos (by simp [hv.nonempty])]
  apply Returns.bind (returns_decrementWorkerLoad hc hv.noNul hn)
  intro _ u hu
  have hrest : ∀ load : Int32, Ends (do
      report
      returnConnection redis
      return true : Code Bool) (fun _ w' => w' = u) u := by
    intro _
    apply Returns.bind (hr u)
    rintro _ _ rfl
    exact ends_return rfl
  refine (ends_reportLoad hc hv.noNul hrest).mono ?_
  rintro o _ rfl
  exact hu

section Reports

variable {n : Int64} (hi : ValidId i) (hv : ValidId v) (hw : w[taskKey i]? = some (.hash f))
  (hworker : f[bytes "worker_id"]? = some v) (hn : CounterIs w v n)
include hi hv hw hworker hn

theorem ends_completeTask (result : TaskResult) :
    Ends (completeTask i result) (fun _ w' => ∃ now, Decremented
      (w.insert (taskKey i)
        (.hash ((statusFields f 2 [] now).insert (bytes "result") (cStr result.result)))) v n w')
      w := by
  apply ends_connection
  intro redis hc
  apply Returns.bind (returns_hget hc hi.noNul hw (by decide))
  rintro workerId _ ⟨rfl, hid⟩
  obtain rfl : workerId = v := by rw [hid, hworker]; rfl
  apply Returns.bind (returns_updateTaskStatus hc hi.noNul hw (Or.inl rfl) [])
  rintro _ _ ⟨now, rfl⟩
  apply Returns.bind (returns_hset hc hi.noNul (lookup_inserted _ _ _) result.result (by decide))
  rintro _ _ rfl
  rw [insert_insert]
  refine (ends_report hc hv (n := n) (by simpa [CounterIs] using hn)
    fun w => ends_unchanged (e := .recordSuccess workerId) (fun _ _ hs => hs) fun _ => returns_ret rfl).mono ?_
  intro o w' hdec
  exact ⟨now, hdec⟩

theorem ends_failTask (error : Bytes) :
    Ends (failTask i error) (fun _ w' => ∃ now, Decremented
      (w.insert (taskKey i) (.hash (statusFields f 3 error now))) v n w') w := by
  apply ends_connection
  intro redis hc
  apply Returns.bind (returns_hget hc hi.noNul hw (by decide))
  rintro workerId _ ⟨rfl, hid⟩
  obtain rfl : workerId = v := by rw [hid, hworker]; rfl
  apply Returns.bind (returns_updateTaskStatus hc hi.noNul hw (Or.inr rfl) error)
  rintro _ _ ⟨now, rfl⟩
  refine (ends_report hc hv (n := n) (by simpa [CounterIs] using hn)
    fun w => ends_unchanged (e := .recordFailure workerId) (fun _ _ hs => hs) fun _ => returns_ret rfl).mono ?_
  intro o w' hdec
  exact ⟨now, hdec⟩

end Reports

/-- What a retry changes besides the counter of the worker: at most the retry count of the record. -/
structure Retried (w : Keyspace) (i : Bytes) (f : StringMap Bytes) (w' : Keyspace) : Prop where
  record : w'[taskKey i]? = some (.hash f) ∨
    ∃ c : Int32, w'[taskKey i]? = some (.hash (f.insert (bytes "retry_count") (decimal c.toInt)))
  records : ∀ j, j ≠ i → w'[taskKey j]? = w[taskKey j]?
  counters : ∀ u, w'[workerLoadKey u]? = w[workerLoadKey u]?

theorem TaskRecord.retried {p : Int32} (hr : TaskRecord p f) (c : Int32) :
    TaskRecord p (f.insert (bytes "retry_count") (decimal c.toInt)) := by
  have hp : bytes "retry_count" ≠ bytes "priority" := by decide
  constructor
  · simp [hp, hr.priority]
  · apply hr.numbers.insert
    intro _
    exact ⟨c.toInt64, by rw [Int32.toInt_toInt64]⟩
  · exact ⟨c, by simp⟩

theorem returns_incrementTaskRetry (hc : redis.connected = true) (hi : 0 ∉ i) {c : Int32}
    (hcount : f[bytes "retry_count"]? = some (decimal c.toInt)) (hw : w[taskKey i]? = some (.hash f)) :
    Returns (redis.incrementTaskRetry i) (fun _ w' =>
      w' = w.insert (taskKey i) (.hash (f.insert (bytes "retry_count") (decimal (c + 1).toInt)))) w := by
  apply Returns.bind (returns_hget hc hi hw (by decide))
  rintro text _ ⟨rfl, htext⟩
  rw [hcount, Option.getD_some] at htext
  rw [htext, if_neg (by simp [decimal_ne_nil]), stoi_decimal]
  refine (returns_hset hc hi hw (decimal (c + 1).toInt) (by decide)).mono ?_
  rintro o w' ⟨b, ho, rfl⟩
  rw [cStr_of_noNul (noNul_decimal _)]
  exact ⟨b, ho, rfl⟩

theorem returns_setex (hc : redis.connected = true) {key : Bytes} (value : Bytes) (n : Int32)
    (hkey : (cStr key).head? = some 114) :
    Returns (redis.setex key value n) (fun _ w' => Unaccounted w w' ∧ ∀ j,
      occurrences w' j = occurrences w j) w := by
  rw [setex_eq hc]
  apply ends_command
  intro _
  obtain ⟨hqueue, htask⟩ := retryKey_foreign hkey
  refine returns_ret ⟨unaccounted_exec ?_ ?_ w, fun j => occurrences_congr ?_ j⟩
  · exact htask
  · exact retryKey_ne_workerLoadKey hkey
  · intro q hq
    apply exec_frame
    rintro rfl
    exact hqueue hq

/-- The task waits once more, and nothing else in the lists has changed. -/
def Requeued (i : Bytes) (w w' : Keyspace) : Prop :=
  ∀ j, occurrences w' j = occurrences w j + if i = j then 1 else 0

/-- What a retry does after it has taken the task off its worker. -/
theorem ends_requeueRetry (hc : redis.connected = true) (hi : ValidId i) {p : Int32} (hr : TaskRecord p f)
    (hw : w[taskKey i]? = some (.hash f)) {c : Int32} (hcount : f[bytes "retry_count"]? = some (decimal c.toInt))
    (retryCount : Int32) :
    Ends (redis.requeueRetry i retryCount) (fun o w' => o = .ok true ∧
        w'[taskKey i]? = some (.hash (f.insert (bytes "retry_count") (decimal (c + 1).toInt))) ∧
        (∀ j, j ≠ i → w'[taskKey j]? = w[taskKey j]?) ∧ (∀ u, w'[workerLoadKey u]? = w[workerLoadKey u]?) ∧
        Requeued i w w') w := by
  apply Returns.bind (returns_incrementTaskRetry hc hi.noNul hcount hw)
  rintro _ _ rfl
  apply Returns.bind (returns_getTask hc hi.noNul (lookup_inserted _ _ _) (hr.retried (c + 1)))
  rintro task w₁ ⟨hw₁, -⟩
  refine ends_unchanged (fun _ _ hs => hs) fun _ => ?_
  apply Returns.bind (returns_setex hc _ _ (retryKey_head _ _))
  rintro _ w₂ ⟨h₂, hocc₂⟩
  apply Returns.bind (returns_pushToPriorityQueue hc _ hi.noNul)
  rintro _ w₃ ⟨-, h₃, hocc₃⟩
  have hsame := h₂.trans h₃
  rw [hw₁] at hsame
  refine ends_return ⟨rfl, ?_, ?_, ?_, ?_⟩
  · rw [hsame.records]
    simp
  · intro j hj
    rw [hsame.records]
    simp [hj.symm]
  · intro u
    rw [hsame.counters]
    simp
  · intro j
    rw [hocc₃ j, hocc₂ j, hw₁, occurrences_congr]
    intro q hq
    rw [getElem?_insert, if_neg (taskKey_ne_queue hq i)]

theorem Decremented.records {n : Int64} (h : Decremented w v n w') (j : Bytes) :
    w'[taskKey j]? = w[taskKey j]? := by
  unfold Decremented at h
  split at h
  · obtain ⟨m, -, rfl⟩ := h
    simp
  · rw [h]

theorem Decremented.queues {n : Int64} (h : Decremented w v n w') : ∀ q ∈ queueKeys, w'[q]? = w[q]? := by
  unfold Decremented at h
  split at h
  · obtain ⟨m, -, rfl⟩ := h
    intro q hq
    rw [getElem?_insert, if_neg (workerLoadKey_ne_queue hq v)]
  · intro q _
    rw [h]

/-- A counter after one decrement. -/
def decrementedLoad (n : Int) : Int := if 0 < n then n - 1 else n

theorem Decremented.counter {n : Int64} (h : Decremented w v n w') (hn : CounterIs w v n) :
    ∃ m, CounterIs w' v m ∧ m.toInt = decrementedLoad n.toInt := by
  unfold decrementedLoad
  by_cases hpos : 0 < n.toInt
  · rw [Decremented, if_pos hpos] at h
    obtain ⟨m, hm, rfl⟩ := h
    exact ⟨m, lookup_inserted _ _ _, by rw [if_pos hpos, hm]⟩
  · rw [Decremented, if_neg hpos] at h
    exact ⟨n, h ▸ hn, by rw [if_neg hpos]⟩

def FitsInt (n : Int) : Prop := -2 ^ 31 ≤ n ∧ n < 2 ^ 31

/-- `std::stoi` takes the decimals of the numbers that fit an `int`. -/
theorem stoi_decimal_ok (n : Int) : (∃ m, stoi 10 (decimal n) = .ok m) ↔ FitsInt n := by
  simp only [stoi, strtol_decimal]
  by_cases hrange : -2 ^ 31 ≤ n ∧ n < 2 ^ 31
  · rw [if_pos hrange]
    exact iff_of_true ⟨_, rfl⟩ hrange
  · rw [if_neg hrange]
    refine iff_of_false ?_ hrange
    rintro ⟨m, hm⟩
    cases hm

/-- A retry refuses when the retries are used up.  Otherwise it takes the task off its worker, and throws then
if the counter does not fit an `int`; if it fits, the task waits again. -/
theorem ends_retryTask {n : Int64} (hi : ValidId i) (hv : ValidId v) {p : Int32} (hr : TaskRecord p f)
    (hw : w[taskKey i]? = some (.hash f)) (hworker : f[bytes "worker_id"]? = some v) (hn : CounterIs w v n) :
    Ends (retryTask i) (fun o w' => ∃ c : Int32, f[bytes "retry_count"]? = some (decimal c.toInt) ∧
      if 3 ≤ c then o = .ok false ∧ w' = w
      else ∃ u, Decremented w v n u ∧ Retried u i f w' ∧
        (o = .ok true ∧ FitsInt (decrementedLoad n.toInt) ∧ Requeued i u w' ∨
          (∃ x, o = .error x) ∧ ¬FitsInt (decrementedLoad n.toInt) ∧ w' = u)) w := by
  apply ends_connection
  intro redis hc
  apply Returns.bind (returns_getTask hc hi.noNul hw hr)
  rintro task w ⟨rfl, -, -, hcount⟩
  dsimp only
  by_cases hmax : 3 ≤ task.retryCount
  · rw [if_pos hmax]
    refine ends_return ⟨task.retryCount, hcount, ?_⟩
    rw [if_pos hmax]
    exact ⟨rfl, rfl⟩
  rw [if_neg hmax]
  apply Returns.bind (returns_hget hc hi.noNul hw (by decide))
  rintro workerId w ⟨rfl, hid⟩
  obtain rfl : workerId = v := by rw [hid, hworker]; rfl
  rw [if_pos (by simp [hv.nonempty])]
  apply Returns.bind (returns_decrementWorkerLoad hc hv.noNul hn)
  intro _ u hu
  have hrecord := (hu.records i).trans hw
  obtain ⟨m, hm, hdec⟩ := hu.counter hn
  have hfits := stoi_decimal_ok m.toInt
  rw [hdec] at hfits
  apply Ends.bind (ends_getWorkerLoad hc hv.noNul)
  · rintro load _ ⟨rfl, hload⟩
    refine ends_unchanged (fun _ _ hs => hs) fun _ => ?_
    refine (ends_requeueRetry hc hi hr hrecord hcount task.retryCount).mono ?_
    rintro o w' ⟨ho, hstored, hrecords, hcounters, hqueued⟩
    refine ⟨task.retryCount, hcount, ?_⟩
    rw [if_neg hmax]
    have hrange := hfits.1 ⟨load, by rw [← hdec, hload m hm]⟩
    exact ⟨_, hu, ⟨Or.inr ⟨_, hstored⟩, hrecords, hcounters⟩, Or.inl ⟨ho, hrange, hqueued⟩⟩
  · rintro x _ ⟨rfl, hload⟩
    refine ⟨task.retryCount, hcount, ?_⟩
    rw [if_neg hmax]
    refine ⟨_, hu, ⟨Or.inl hrecord, fun _ _ => rfl, fun _ => rfl⟩, Or.inr ⟨⟨x, rfl⟩, ?_, rfl⟩⟩
    intro hrange
    obtain ⟨load, hok⟩ := hfits.2 hrange
    rw [← hdec, ← hload m hm] at hok
    cases hok

end Taskflow
