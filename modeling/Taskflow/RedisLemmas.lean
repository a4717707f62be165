import Taskflow.TaskDispatcher

/-!
# What the commands do to records, queues and counters

The keys of records, queues and worker counters are pairwise different, so a command on one of them leaves the
others as they are.  Each wrapper of `RedisClient`, on a connected client, is one command followed by a reading of
its reply (`hset_eq` and its siblings); programs that call the wrappers unfold with these equations and never with
the definitions.
-/

namespace Taskflow

open Text Effects Prog

/-! ### Keys -/

theorem taskKey_injective {i j : Bytes} (h : taskKey i = taskKey j) : i = j := List.append_cancel_left h

@[simp] theorem taskKey_inj {i j : Bytes} : taskKey i = taskKey j ↔ i = j := ⟨taskKey_injective, congrArg taskKey⟩

@[simp] theorem workerLoadKey_inj {v w : Bytes} : workerLoadKey v = workerLoadKey w ↔ v = w :=
  ⟨List.append_cancel_left, congrArg workerLoadKey⟩

/-- The three lists that `popFromPriorityQueue` pops from. -/
def queueKeys : List Bytes := [queueHigh, queueMedium, queueLow]

theorem queueOf_mem (p : Int32) : queueOf p ∈ queueKeys := by
  unfold queueOf queueKeys
  split
  · simp
  · split <;> simp

private theorem head_queueKeys {q : Bytes} (hq : q ∈ queueKeys) : q.head? = some 113 := by
  simp only [queueKeys, List.mem_cons, List.not_mem_nil, or_false] at hq
  rcases hq with rfl | rfl | rfl <;> decide

theorem taskKey_ne_queue {q : Bytes} (hq : q ∈ queueKeys) (i : Bytes) : taskKey i ≠ q := by
  intro h
  have hhead := head_queueKeys hq
  rw [← h] at hhead
  have htask : (taskKey i).head? = some 116 := rfl
  rw [htask] at hhead
  exact absurd hhead (by decide)

theorem workerLoadKey_ne_queue {q : Bytes} (hq : q ∈ queueKeys) (v : Bytes) : workerLoadKey v ≠ q := by
  intro h
  have hhead := head_queueKeys hq
  rw [← h] at hhead
  have hload : (workerLoadKey v).head? = some 119 := rfl
  rw [hload] at hhead
  exact absurd hhead (by decide)

@[simp] theorem workerLoadKey_ne_taskKey (v i : Bytes) : workerLoadKey v ≠ taskKey i := by
  intro h
  have hhead := congrArg List.head? h
  have hload : (workerLoadKey v).head? = some 119 := rfl
  have htask : (taskKey i).head? = some 116 := rfl
  rw [hload, htask] at hhead
  exact absurd hhead (by decide)

@[simp] theorem taskKey_ne_workerLoadKey (i v : Bytes) : taskKey i ≠ workerLoadKey v :=
  (workerLoadKey_ne_taskKey v i).symm

theorem cStr_bytes {s : String} (h : 0 ∉ bytes s) : cStr (bytes s) = bytes s := cStr_of_noNul h

theorem cStr_taskKey {i : Bytes} (hi : 0 ∉ i) : cStr (taskKey i) = taskKey i :=
  cStr_of_noNul (noNul_append (by decide) hi)

theorem cStr_taskKey_eq (i : Bytes) : cStr (taskKey i) = taskKey (cStr i) := cStr_append (by decide) i

theorem cStr_workerLoadKey_eq (v : Bytes) : cStr (workerLoadKey v) = workerLoadKey (cStr v) :=
  cStr_append (by decide) v

theorem cStr_workerLoadKey {v : Bytes} (hv : 0 ∉ v) : cStr (workerLoadKey v) = workerLoadKey v :=
  cStr_of_noNul (noNul_append (by decide) hv)

theorem cStr_queue {q : Bytes} (hq : q ∈ queueKeys) : cStr q = q := by
  simp only [queueKeys, List.mem_cons, List.not_mem_nil, or_false] at hq
  rcases hq with rfl | rfl | rfl <;> decide

/-! ### The wrappers on a connected client -/

section Wrappers

variable {redis : RedisClient} (h : redis.connected = true)
include h

theorem get_eq (key : Bytes) : redis.get key =
    .call (.command redis.context (.get (cStr key))) (fun reply => .ret (replyText reply)) := by
  simp [RedisClient.get, h]

theorem setex_eq (key value : Bytes) (seconds : Int32) : redis.setex key value seconds =
    .call (.command redis.context (.setex (cStr key) seconds (cStr value)))
      (fun reply => .ret (succeeded reply)) := by
  simp [RedisClient.setex, h]

theorem rpush_eq (key value : Bytes) : redis.rpush key value =
    .call (.command redis.context (.rpush (cStr key) (cStr value))) (fun reply => .ret (succeeded reply)) := by
  simp [RedisClient.rpush, h]

theorem lpop_eq (key : Bytes) : redis.lpop key =
    .call (.command redis.context (.lpop (cStr key))) (fun reply => .ret (replyText reply)) := by
  simp [RedisClient.lpop, h]

theorem hset_eq (key field value : Bytes) : redis.hset key field value =
    .call (.command redis.context (.hset (cStr key) (cStr field) (cStr value)))
      (fun reply => .ret (succeeded reply)) := by
  simp [RedisClient.hset, h]

theorem hget_eq (key field : Bytes) : redis.hget key field =
    .call (.command redis.context (.hget (cStr key) (cStr field))) (fun reply => .ret (replyText reply)) := by
  simp [RedisClient.hget, h]

theorem hmset_eq (key : Bytes) {fields : StringMap Bytes} (hf : fields.isEmpty = false) :
    redis.hmset key fields =
      .call (.command redis.context (.hmset key fields.toList)) (fun reply => .ret (succeeded reply)) := by
  simp [RedisClient.hmset, h, hf]

theorem hgetall_eq (key : Bytes) : redis.hgetall key =
    .call (.command redis.context (.hgetall (cStr key))) (fun reply => .ret (replyFields reply)) := by
  simp [RedisClient.hgetall, h]

theorem incr_eq (key : Bytes) : redis.incr key =
    .call (.command redis.context (.incr (cStr key))) (fun reply => .ret (replyInteger reply)) := by
  simp [RedisClient.incr, h]

theorem incrby_eq (key : Bytes) (n : Int) : redis.incrby key n =
    .call (.command redis.context (.incrby (cStr key) n)) (fun reply => .ret (replyInteger reply)) := by
  simp [RedisClient.incrby, h]

end Wrappers

/-! ### Commands and their keys -/

def Command.key : Command → Bytes
  | .get key => key
  | .setex key _ _ => key
  | .hset key _ _ => key
  | .hget key _ => key
  | .hmset key _ => key
  | .hgetall key => key
  | .rpush key _ => key
  | .lpop key => key
  | .llen key => key
  | .incr key => key
  | .incrby key _ => key

private theorem execIncrby_frame (key : Bytes) (n : Int) (w : Keyspace) {a : Bytes} (h : key ≠ a) :
    (execIncrby key n w).2[a]? = w[a]? := by
  unfold execIncrby
  split
  · dsimp only
    split <;> simp [h]
  · split
    · dsimp only
      split <;> simp [h]
    · rfl
  · rfl

/-- A command changes no key but its own. -/
theorem exec_frame (cmd : Command) (w : Keyspace) {a : Bytes} (h : cmd.key ≠ a) : (exec cmd w).2[a]? = w[a]? := by
  cases cmd with
  | incr key => exact execIncrby_frame key 1 w h
  | incrby key n => exact execIncrby_frame key n w h
  | _ =>
    simp only [Command.key] at h
    simp only [exec]
    try split
    all_goals simp [h]

/-- Commands that only look. -/
def Command.reads : Command → Bool
  | .get _ => true
  | .hget _ _ => true
  | .hgetall _ => true
  | .llen _ => true
  | _ => false

theorem exec_reads {cmd : Command} (h : cmd.reads = true) (w : Keyspace) : (exec cmd w).2 = w := by
  cases cmd with
  | get key => simp only [exec]; split <;> rfl
  | hget key field => simp only [exec]; split <;> rfl
  | hgetall key => simp only [exec]; split <;> rfl
  | llen key => simp only [exec]; split <;> rfl
  | _ => cases h

theorem exec_hgetall (key : Bytes) (w : Keyspace) : (exec (.hgetall key) w).2 = w := exec_reads rfl w

section Served

variable {faulty : Prop} {context : Nat} {cmd : Command} {w w' : Keyspace} {r : Option Reply}

/-- The code sees the server's reply, or a failure. -/
theorem served_reply (hs : served faulty (.command context cmd) w r w') :
    (r = some (exec cmd w).1 ∧ w' = (exec cmd w).2 ∧ (exec cmd w).1.isError = false) ∨
      faulty ∧ (r = none ∨ r = some .error) := by
  obtain ⟨fate, hfaulty, hdelivered⟩ := hs
  by_cases hfate : fate = .answered
  · subst hfate
    exact Or.inl hdelivered
  · exact Or.inr ⟨hfaulty hfate, hdelivered.failed hfate⟩

/-- Whatever the code sees, the command was executed or not. -/
theorem served_world (hs : served faulty (.command context cmd) w r w') :
    w' = w ∨ w' = (exec cmd w).2 ∧ (exec cmd w).1.isError = false := by
  obtain ⟨fate, -, hdelivered⟩ := hs
  exact hdelivered.world.imp And.right And.right

/-- A command that only looks changes nothing, whatever becomes of it. -/
theorem served_reads (h : cmd.reads = true) (hs : served faulty (.command context cmd) w r w') : w' = w := by
  rcases served_world hs with hw | ⟨hw, -⟩
  · exact hw
  · rw [hw, exec_reads h]

/-- No command changes another key than its own. -/
theorem served_frame (hs : served faulty (.command context cmd) w r w') {a : Bytes} (h : cmd.key ≠ a) :
    w'[a]? = w[a]? := by
  rcases served_world hs with rfl | ⟨rfl, -⟩
  · rfl
  · exact exec_frame cmd w h

end Served

/-! ### Hashes -/

private theorem storeFields_of_not_mem {l : List (Bytes × Bytes)} {k : Bytes} (h : ∀ v, (k, v) ∉ l)
    (m : StringMap Bytes) : (storeFields m l)[k]? = m[k]? := by
  induction l generalizing m with
  | nil => rfl
  | cons p l ih =>
    have hp : p.1 ≠ k := by
      rintro rfl
      exact h p.2 (by simp)
    have hl : ∀ v, (k, v) ∉ l := fun v hv => h v (by simp [hv])
    show (storeFields (m.insert p.1 p.2) l)[k]? = m[k]?
    rw [ih hl, getElem?_insert, if_neg hp]

private theorem storeFields_of_mem {l : List (Bytes × Bytes)} {k v : Bytes}
    (hd : l.Pairwise (fun p q => p.1 ≠ q.1)) (h : (k, v) ∈ l) (m : StringMap Bytes) :
    (storeFields m l)[k]? = some v := by
  induction l generalizing m with
  | nil => simp at h
  | cons p l ih =>
    rw [List.pairwise_cons] at hd
    rcases List.mem_cons.1 h with rfl | h
    · have hl : ∀ v', (k, v') ∉ l := fun v' hv => hd.1 _ hv rfl
      show (storeFields (m.insert k v) l)[k]? = some v
      rw [storeFields_of_not_mem hl, getElem?_insert, if_pos rfl]
    · exact ih hd.2 h _

/-- Storing all fields of a map puts them in front of the old ones. -/
theorem storeFields_getElem? (h m : StringMap Bytes) (k : Bytes) :
    (storeFields h m.toList)[k]? = m[k]?.or h[k]? := by
  have hd : m.toList.Pairwise (fun p q => p.1 ≠ q.1) := by
    refine m.distinct_keys_toList.imp ?_
    intro p q h he
    exact h (by simp [he])
  cases hk : m[k]? with
  | some v => exact storeFields_of_mem hd (Std.ExtTreeMap.mem_toList_iff_getElem?_eq_some.2 hk) _
  | none =>
    rw [storeFields_of_not_mem]
    · rfl
    · intro v hv
      rw [Std.ExtTreeMap.mem_toList_iff_getElem?_eq_some, hk] at hv
      cases hv

/-- Storing all fields of a map one after the other gives the map. -/
theorem storeFields_toList (m : StringMap Bytes) : storeFields ∅ m.toList = m := by
  apply Std.ExtTreeMap.ext_getElem?
  intro k
  rw [storeFields_getElem?]
  simp

private theorem pairElements_flatMap (l : List (Bytes × Bytes)) (m : StringMap Bytes) :
    pairElements (l.flatMap fun p => [.string p.1, .string p.2]) m = storeFields m l := by
  induction l generalizing m with
  | nil => rfl
  | cons p l ih => exact ih (m.insert p.1 p.2)

/-- `hgetall` reads back the hash. -/
theorem replyFields_hgetall {key : Bytes} {h : StringMap Bytes} {w : Keyspace} (hw : w[key]? = some (.hash h)) :
    replyFields (some (exec (.hgetall key) w).1) = h := by
  simp only [exec, hw, replyFields, pairElements_flatMap, storeFields_toList]

theorem exec_hset {key field value : Bytes} {h : StringMap Bytes} {w : Keyspace} (hw : w[key]? = some (.hash h)) :
    (exec (.hset key field value) w).2 = w.insert key (.hash (h.insert field value)) := by
  simp only [exec, hw]

theorem exec_hmset {key : Bytes} {fields : StringMap Bytes} {w : Keyspace} (hw : w[key]? = none) :
    (exec (.hmset key fields.toList) w).2 = w.insert key (.hash fields) := by
  simp only [exec, hw, storeFields_toList]

theorem replyText_hget {key field : Bytes} {h : StringMap Bytes} {w : Keyspace} (hw : w[key]? = some (.hash h)) :
    replyText (some (exec (.hget key field) w).1) = (h[field]?).getD [] := by
  simp only [exec, hw]
  cases h[field]? <;> rfl

/-! ### Records -/

/-- What `HGET` answers for a field of a task's record, `""` when it is not stored. -/
def recordText (w : Keyspace) (i field : Bytes) : Bytes :=
  match w[taskKey i]? with
  | some (.hash h) => (h[field]?).getD []
  | _ => []

theorem recordText_congr {w w' : Keyspace} {i : Bytes} (h : w'[taskKey i]? = w[taskKey i]?) (field : Bytes) :
    recordText w' i field = recordText w i field := by
  simp only [recordText, h]

theorem recordText_of_hash {w : Keyspace} {i : Bytes} {h : StringMap Bytes} (hw : w[taskKey i]? = some (.hash h))
    (field : Bytes) : recordText w i field = (h[field]?).getD [] := by
  simp only [recordText, hw]

/-- `HGET` answers it, whatever the key holds. -/
theorem replyText_hget_record (w : Keyspace) (i field : Bytes) :
    replyText (some (exec (.hget (taskKey i) field) w).1) = recordText w i field := by
  unfold recordText
  cases hw : w[taskKey i]? with
  | none => simp only [exec, hw, replyText]
  | some v =>
    cases v with
    | hash h => exact replyText_hget hw
    | string b => simp only [exec, hw, replyText]
    | list l => simp only [exec, hw, replyText]

/-- `HSET` changes its own field, unless the key holds something else than a hash. -/
theorem recordText_exec_hset (i f value field : Bytes) (w : Keyspace) :
    recordText (exec (.hset (taskKey i) f value) w).2 i field =
      if f = field ∧ (exec (.hset (taskKey i) f value) w).1.isError = false then value
        else recordText w i field := by
  cases hw : w[taskKey i]? with
  | none => by_cases hf : f = field <;> simp [exec, recordText, hw, hf, Reply.isError]
  | some v =>
    cases v with
    | hash old => by_cases hf : f = field <;> simp [exec, recordText, hw, hf, Reply.isError]
    | string b => simp [exec, recordText, hw, Reply.isError]
    | list l => simp [exec, recordText, hw, Reply.isError]

/-- The integer members of a stored record. -/
def numberFields : List Bytes :=
  [bytes "type", bytes "priority", bytes "created_at", bytes "started_at", bytes "finished_at", bytes "status",
    bytes "retry_count"]

/-- Every number that is stored is the decimal of a 64-bit integer. -/
def Readable (h : StringMap Bytes) : Prop :=
  ∀ f ∈ numberFields, ∀ v, h[f]? = some v → ∃ n : Int64, v = decimal n.toInt

/-- A record as the dispatcher writes it. -/
structure TaskRecord (priority : Int32) (h : StringMap Bytes) : Prop where
  priority : h[bytes "priority"]? = some (decimal priority.toInt)
  numbers : Readable h
  retryCount : ∃ n : Int32, h[bytes "retry_count"]? = some (decimal n.toInt)

theorem stoll_decimal_int32 (n : Int32) : stoll (decimal n.toInt) = .ok n.toInt64 := by
  have h := stoll_decimal n.toInt64
  rwa [Int32.toInt_toInt64] at h

/-- All numbers of a hash can be read; a missing one counts as 0. -/
def NumbersParse (h : StringMap Bytes) : Prop := ∀ f ∈ numberFields, ∀ v, h[f]? = some v → ∃ n,
    stoll v = .ok n

theorem Readable.parse {h : StringMap Bytes} (hr : Readable h) : NumbersParse h := by
  intro f hf v hv
  obtain ⟨n, rfl⟩ := hr f hf v hv
  exact ⟨n, stoll_decimal n⟩

private theorem NumbersParse.getInt {h : StringMap Bytes} (hr : NumbersParse h) {f : String}
    (hf : bytes f ∈ numberFields) : ∃ n, Taskflow.getInt h f = .ok n := by
  unfold Taskflow.getInt
  cases hv : h[bytes f]? with
  | none => exact ⟨0, rfl⟩
  | some v => exact hr _ hf v hv

/-- `getTask` reads such a hash without throwing. -/
theorem NumbersParse.readFields {h : StringMap Bytes} (hr : NumbersParse h) (task : TaskInfo) :
    ∃ t, Taskflow.readFields task h = .ok t := by
  obtain ⟨type, htype⟩ := hr.getInt (f := "type") (by decide)
  obtain ⟨priority, hpriority⟩ := hr.getInt (f := "priority") (by decide)
  obtain ⟨created, hcreated⟩ := hr.getInt (f := "created_at") (by decide)
  obtain ⟨started, hstarted⟩ := hr.getInt (f := "started_at") (by decide)
  obtain ⟨finished, hfinished⟩ := hr.getInt (f := "finished_at") (by decide)
  obtain ⟨status, hstatus⟩ := hr.getInt (f := "status") (by decide)
  obtain ⟨retry, hretry⟩ := hr.getInt (f := "retry_count") (by decide)
  unfold Taskflow.readFields
  rw [htype, hpriority, hcreated, hstarted, hfinished, hstatus, hretry]
  exact ⟨_, rfl⟩

theorem Readable.readFields {h : StringMap Bytes} (hr : Readable h) (task : TaskInfo) :
    ∃ t, Taskflow.readFields task h = .ok t := hr.parse.readFields task

theorem Readable.insert {h : StringMap Bytes} (hr : Readable h) {field value : Bytes}
    (hv : field ∈ numberFields → ∃ n : Int64, value = decimal n.toInt) : Readable (h.insert field value) := by
  intro f hf v
  rw [getElem?_insert]
  split
  · rename_i he
    subst he
    rintro ⟨⟩
    exact hv hf
  · exact hr f hf v

/-- What `getTask` reads are the stored numbers. -/
theorem TaskRecord.readFields {p : Int32} {h : StringMap Bytes} (hr : TaskRecord p h) (task : TaskInfo) :
    ∃ t, Taskflow.readFields task h = .ok t ∧ t.id = task.id ∧ t.priority = p ∧
      h[bytes "retry_count"]? = some (decimal t.retryCount.toInt) := by
  obtain ⟨type, htype⟩ := hr.numbers.parse.getInt (f := "type") (by decide)
  obtain ⟨created, hcreated⟩ := hr.numbers.parse.getInt (f := "created_at") (by decide)
  obtain ⟨started, hstarted⟩ := hr.numbers.parse.getInt (f := "started_at") (by decide)
  obtain ⟨finished, hfinished⟩ := hr.numbers.parse.getInt (f := "finished_at") (by decide)
  obtain ⟨status, hstatus⟩ := hr.numbers.parse.getInt (f := "status") (by decide)
  obtain ⟨retry, hretry⟩ := hr.retryCount
  have hpriority : Taskflow.getInt h "priority" = .ok p.toInt64 := by
    simp only [Taskflow.getInt, hr.priority, stoll_decimal_int32]
  have hcount : Taskflow.getInt h "retry_count" = .ok retry.toInt64 := by
    simp only [Taskflow.getInt, hretry, stoll_decimal_int32]
  refine ⟨{ task with
    type := type.toInt32, priority := p, data := getText h "data", createdAt := created, startedAt := started,
    finishedAt := finished, status := status.toInt32, retryCount := retry,
    errorMessage := getText h "error_message", result := getText h "result" }, ?_, rfl, rfl, hretry⟩
  · unfold Taskflow.readFields
    rw [htype, hpriority, hcreated, hstarted, hfinished, hstatus, hcount]
    show Except.ok _ = Except.ok _
    rw [Int32.toInt32_toInt64, Int32.toInt32_toInt64]

theorem TaskRecord.isEmpty {p : Int32} {h : StringMap Bytes} (hr : TaskRecord p h) : h.isEmpty = false :=
  isEmpty_eq_false_of_getElem? hr.priority

/-- Writing a field keeps a record, if what is written to a number is a number. -/
theorem TaskRecord.insert {p : Int32} {h : StringMap Bytes} (hr : TaskRecord p h) {field value : Bytes}
    (hp : field ≠ bytes "priority") (hc : field ≠ bytes "retry_count")
    (hv : field ∈ numberFields → ∃ n : Int64, value = decimal n.toInt) : TaskRecord p (h.insert field value) := by
  refine ⟨?_, hr.numbers.insert hv, ?_⟩
  · simp [hp, hr.priority]
  · simp [hc, hr.retryCount]

theorem except_bind_ok {X α β : Type} {x : Except X α} {f : α → Except X β} {b : β} (h : x >>= f = .ok b) :
    ∃ a, x = .ok a ∧ f a = .ok b := by
  cases x with
  | error e => cases h
  | ok a => exact ⟨a, rfl, h⟩

/-- A record that is read: the id is the one that the caller set, and all numbers could be read. -/
theorem readFields_ok {task t : TaskInfo} {h : StringMap Bytes} (ht : readFields task h = .ok t) :
    t.id = task.id ∧ NumbersParse h := by
  unfold readFields at ht
  obtain ⟨type, htype, ht⟩ := except_bind_ok ht
  obtain ⟨priority, hpriority, ht⟩ := except_bind_ok ht
  obtain ⟨created, hcreated, ht⟩ := except_bind_ok ht
  obtain ⟨started, hstarted, ht⟩ := except_bind_ok ht
  obtain ⟨finished, hfinished, ht⟩ := except_bind_ok ht
  obtain ⟨status, hstatus, ht⟩ := except_bind_ok ht
  obtain ⟨retry, hretry, ht⟩ := except_bind_ok ht
  cases ht
  refine ⟨rfl, ?_⟩
  have hparse {f : String} {n : Int64} (hn : getInt h f = .ok n) {v : Bytes} (hv : h[bytes f]? = some v) :
      ∃ n, stoll v = .ok n := by
    rw [getInt, hv] at hn
    exact ⟨n, hn⟩
  intro f hf v hv
  simp only [numberFields, List.mem_cons, List.not_mem_nil, or_false] at hf
  rcases hf with rfl | rfl | rfl | rfl | rfl | rfl | rfl
  · exact hparse htype hv
  · exact hparse hpriority hv
  · exact hparse hcreated hv
  · exact hparse hstarted hv
  · exact hparse hfinished hv
  · exact hparse hstatus hv
  · exact hparse hretry hv

theorem readFields_id {task t : TaskInfo} {h : StringMap Bytes} (ht : readFields task h = .ok t) : t.id = task.id :=
  (readFields_ok ht).1

private theorem recordEntries_distinct (task : TaskInfo) :
    (recordEntries task).Pairwise fun a b => ¬compare a.1 b.1 = .eq := by
  have h : ((recordEntries task).map Prod.fst).Pairwise fun a b => ¬compare a b = .eq := by
    show ([bytes "type", bytes "priority", bytes "data", bytes "created_at", bytes "started_at",
      bytes "finished_at",
      bytes "status", bytes "retry_count", bytes "error_message", bytes "result"] : List Bytes).Pairwise _
    decide
  exact List.pairwise_map.1 h

theorem recordFields_of_mem {task : TaskInfo} {f v : Bytes} (h : (f, v) ∈ recordEntries task) :
    (recordFields task)[f]? = some v :=
  Std.ExtTreeMap.getElem?_ofList_of_mem (k := f) Std.ReflCmp.compare_self (recordEntries_distinct task) h

theorem mem_recordEntries {task : TaskInfo} {f v : Bytes} (h : (recordFields task)[f]? = some v) :
    (f, v) ∈ recordEntries task := by
  by_cases hf : ((recordEntries task).map Prod.fst).contains f = true
  · obtain ⟨⟨f', v'⟩, hmem, rfl⟩ := List.mem_map.1 (List.contains_iff_mem.1 hf)
    rw [recordFields_of_mem hmem] at h
    cases h
    exact hmem
  · have hnone : (recordFields task)[f]? = none :=
      Std.ExtTreeMap.getElem?_ofList_of_contains_eq_false (by simpa using hf)
    rw [hnone] at h
    cases h

theorem recordFields_worker (task : TaskInfo) : (recordFields task)[bytes "worker_id"]? = none := by
  apply Std.ExtTreeMap.getElem?_ofList_of_contains_eq_false
  show List.contains [bytes "type", bytes "priority", bytes "data", bytes "created_at", bytes "started_at",
    bytes "finished_at", bytes "status", bytes "retry_count", bytes "error_message", bytes "result"] _ = false
  decide

/-- Every number is among what `saveTask` writes. -/
theorem recordFields_number (task : TaskInfo) {f : Bytes} (hf : f ∈ numberFields) :
    ∃ n : Int64, (recordFields task)[f]? = some (decimal n.toInt) := by
  have hentry : ∃ n : Int64, (f, decimal n.toInt) ∈ recordEntries task := by
    simp only [numberFields, List.mem_cons, List.not_mem_nil, or_false] at hf
    rcases hf with rfl | rfl | rfl | rfl | rfl | rfl | rfl
    · exact ⟨task.type.toInt64, by simp [recordEntries]⟩
    · exact ⟨task.priority.toInt64, by simp [recordEntries]⟩
    · exact ⟨task.createdAt, by simp [recordEntries]⟩
    · exact ⟨task.startedAt, by simp [recordEntries]⟩
    · exact ⟨task.finishedAt, by simp [recordEntries]⟩
    · exact ⟨task.status.toInt64, by simp [recordEntries]⟩
    · exact ⟨task.retryCount.toInt64, by simp [recordEntries]⟩
  obtain ⟨n, hn⟩ := hentry
  exact ⟨n, recordFields_of_mem hn⟩

/-- What `saveTask` writes, `getTask` can read. -/
theorem recordFields_record (task : TaskInfo) : TaskRecord task.priority (recordFields task) := by
  constructor
  · exact recordFields_of_mem (by simp [recordEntries])
  · intro f hf v hv
    obtain ⟨n, hn⟩ := recordFields_number task hf
    rw [hn] at hv
    exact ⟨n, (Option.some.inj hv).symm⟩
  · exact ⟨task.retryCount, recordFields_of_mem (by simp [recordEntries])⟩

theorem recordFields_pending {info : TaskInfo} (hs : info.status = 0) :
    (recordFields info)[bytes "status"]? = some (bytes "0") := by
  apply recordFields_of_mem
  have hzero : decimal info.status.toInt = bytes "0" := by
    rw [hs]
    decide
  rw [← hzero]
  simp [recordEntries]

end Taskflow
