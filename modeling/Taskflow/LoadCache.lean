import Taskflow.DispatcherSpecs
import Taskflow.Scheduler
import Taskflow.WorkerSelection

/-!
# The cached loads and the counters in Redis

`leastConnectionSelect` compares the loads in the balancer's nodes, while the counters live in Redis.  The task
operations read the counter they changed and store it in the node, so they keep the two in step whatever Redis
holds; `updateWorkers` gives a new node the load 0 without looking.  Hence the loads agree in every run that adds
workers only while their counters are 0 (`loads_agree`).
-/

namespace Taskflow

open Text Effects Prog

/-- The content of Redis, and the balancer. -/
structure Cluster where
  redis : Keyspace
  balancer : LoadBalancer

/-- What an effect does to the balancer, and what it answers. -/
def LoadBalancer.serves (sort : StdSort) : (e : Effect) → LoadBalancer → e.Answer → LoadBalancer → Prop
  | .selectWorker taskId, lb, r, lb' => ∃ now, lb.selectWorker sort taskId now = (r, lb')
  | .updateWorkerLoad workerId load, lb, _, lb' => lb' = lb.updateWorkerLoad workerId load
  | .recordSuccess workerId, lb, _, lb' => lb' = lb.recordSuccess workerId
  | .recordFailure workerId, lb, _, lb' => ∃ now, lb' = lb.recordFailure workerId now
  | _, lb, _, lb' => lb' = lb

/-- Nothing fails, and the balancer is the one that the effects call. -/
def clusterServed (sort : StdSort) : Semantics Effect Effect.Answer Cluster :=
  fun e s r s' => answered e s.redis r s'.redis ∧ s.balancer.serves sort e r s'.balancer

/-- What `getWorkerLoad` answers. -/
def readLoad (w : Keyspace) (v : Bytes) : Except StdException Int32 :=
  let load := replyText (some (exec (.get (cStr (workerLoadKey v))) w).1)
  if load.isEmpty then .ok 0 else stoi 10 load

inductive ClusterCall where
  | updateWorkers (services : List (ServiceInfo × Int64)) (now : Int)
  | assignTaskToWorker (taskId workerId : Bytes)
  | completeTask (taskId : Bytes) (result : TaskResult)
  | failTask (taskId error : Bytes)
  | retryTask (taskId : Bytes)

inductive ClusterStep (sort : StdSort) : Cluster → ClusterCall → Cluster → Prop
  | updateWorkers {s services now} :
      ClusterStep sort s (.updateWorkers services now) ⟨s.redis, s.balancer.updateWorkers services now⟩
  | assignTaskToWorker {s s' taskId workerId τ o}
      (hrun : Run (clusterServed sort) (assignTaskToWorker taskId workerId) s τ o s') :
      ClusterStep sort s (.assignTaskToWorker taskId workerId) s'
  | completeTask {s s' taskId result τ o} (hrun : Run (clusterServed sort) (completeTask taskId result) s τ o s') :
      ClusterStep sort s (.completeTask taskId result) s'
  | failTask {s s' taskId error τ o} (hrun : Run (clusterServed sort) (failTask taskId error) s τ o s') :
      ClusterStep sort s (.failTask taskId error) s'
  | retryTask {s s' taskId τ o} (hrun : Run (clusterServed sort) (retryTask taskId) s τ o s') :
      ClusterStep sort s (.retryTask taskId) s'

/-- The calls of a run, each with the state it leaves. -/
def IsClusterRun (sort : StdSort) : Cluster → List (ClusterCall × Cluster) → Prop
  | _, [] => True
  | s, (c, s') :: rest => ClusterStep sort s c s' ∧ IsClusterRun sort s' rest

/-- The loads of the registered workers are what `getWorkerLoad` answers. -/
def Agrees (s : Cluster) : Prop :=
  ∀ id node, s.balancer.workers[id]? = some node → readLoad s.redis id = .ok node.currentLoad

/-- No other registered worker has the counter of `v`: keys end at a NUL byte. -/
def OwnCounter (s : Cluster) (v : Bytes) : Prop :=
  ∀ id, s.balancer.workers[id]?.isSome → cStr id = cStr v → id = v

/-- The worker that is stored in the record of a task. -/
def assignedWorker (s : Cluster) (taskId : Bytes) : Bytes := recordText s.redis (cStr taskId) (bytes "worker_id")

/-- A new worker has the counter 0; a worker that gets a task is not at the largest `int`; a counter belongs to
one worker. -/
def KnownLoad (s : Cluster) : ClusterCall → Prop
  | .updateWorkers services _ =>
    ∀ id ∈ services.map (·.1.id), s.balancer.workers[id]? = none → readLoad s.redis id = .ok 0
  | .assignTaskToWorker _ v =>
    OwnCounter s v ∧ (s.balancer.workers[v]?.isSome → workerLoad s.redis (cStr v) ≠ 2 ^ 31 - 1)
  | .completeTask taskId _ => OwnCounter s (assignedWorker s taskId)
  | .failTask taskId _ => OwnCounter s (assignedWorker s taskId)
  | .retryTask taskId => OwnCounter s (assignedWorker s taskId)

/-- The condition holds of every call of the run, in the state before it. -/
def KnownLoads : Cluster → List (ClusterCall × Cluster) → Prop
  | _, [] => True
  | s, (c, s') :: rest => KnownLoad s c ∧ KnownLoads s' rest

/-! ### What leaves the loads alone -/

section Loads

variable {sort : StdSort} {s s' s'' : Cluster} {v : Bytes} {redis : RedisClient} {w w' : Keyspace}

theorem readLoad_congr (h : w'[workerLoadKey (cStr v)]? = w[workerLoadKey (cStr v)]?) :
    readLoad w' v = readLoad w v := by
  simp only [readLoad, exec, cStr_workerLoadKey_eq, h]
  split <;> rfl

/-- The counters and the nodes are as before. -/
structure SameLoads (s s' : Cluster) : Prop where
  counters : ∀ v, s'.redis[workerLoadKey v]? = s.redis[workerLoadKey v]?
  workers : s'.balancer.workers = s.balancer.workers

theorem SameLoads.refl (s : Cluster) : SameLoads s s := ⟨fun _ => rfl, rfl⟩

theorem SameLoads.trans (h : SameLoads s s') (h' : SameLoads s' s'') : SameLoads s s'' :=
  ⟨fun v => (h'.counters v).trans (h.counters v), h'.workers.trans h.workers⟩

theorem SameLoads.agrees (h : SameLoads s s') (ha : Agrees s) : Agrees s' := by
  intro id node hnode
  rw [h.workers] at hnode
  rw [readLoad_congr (h.counters _)]
  exact ha id node hnode

/-- A command on another key than those of the counters. -/
def OffCounters (cmd : Command) : Prop := ∀ v, cmd.key ≠ workerLoadKey v

/-- The effects that change neither a counter nor a node. -/
def Quiet : Effect → Prop
  | .command _ cmd => cmd.reads = true ∨ OffCounters cmd
  | .selectWorker _ => False
  | .updateWorkerLoad _ _ => False
  | _ => True

theorem modifyBreaker_workers (lb : LoadBalancer) (workerId : Bytes) (change : CircuitBreaker → CircuitBreaker) :
    (lb.modifyBreaker workerId change).workers = lb.workers := by
  unfold LoadBalancer.modifyBreaker
  split <;> rfl

theorem quiet_step {e : Effect} {r : e.Answer} (hq : Quiet e) (hs : clusterServed sort e s r s') :
    SameLoads s s' := by
  obtain ⟨hredis, hbalancer⟩ := hs
  cases e with
  | command context cmd =>
    have hb : s'.balancer = s.balancer := hbalancer
    refine ⟨?_, by rw [hb]⟩
    intro v
    rw [show s'.redis = (exec cmd s.redis).2 from hredis.2]
    rcases hq with hreads | hkey
    · rw [exec_reads hreads]
    · exact exec_frame cmd s.redis (hkey v)
  | selectWorker taskId => exact hq.elim
  | updateWorkerLoad workerId load => exact hq.elim
  | getConnection =>
    have hw : s'.redis = s.redis := hredis.1
    have hb : s'.balancer = s.balancer := hbalancer
    exact ⟨fun v => by rw [hw], by rw [hb]⟩
  | recordSuccess workerId =>
    have hw : s'.redis = s.redis := hredis
    have hb : s'.balancer = s.balancer.recordSuccess workerId := hbalancer
    exact ⟨fun v => by rw [hw], by rw [hb]; exact modifyBreaker_workers _ _ _⟩
  | recordFailure workerId =>
    have hw : s'.redis = s.redis := hredis
    obtain ⟨now, hb⟩ := hbalancer
    exact ⟨fun v => by rw [hw], by rw [hb]; exact modifyBreaker_workers _ _ _⟩
  | _ =>
    have hw : s'.redis = s.redis := hredis
    have hb : s'.balancer = s.balancer := hbalancer
    exact ⟨fun v => by rw [hw], by rw [hb]⟩

theorem post_quiet {α : Type} {p : Code α} (hp : p.Every Quiet) (s : Cluster) :
    Post (clusterServed sort) p (fun _ s' => SameLoads s s') s :=
  wp.every SameLoads.refl (fun h h' => h.trans h') quiet_step hp s

/-- A program that only reads leaves everything as it is. -/
theorem post_reads {α : Type} {p : Code α} (hp : p.Every (Local fun _ => False)) (s : Cluster) :
    Post (clusterServed sort) p (fun _ s' => s' = s) s := by
  refine wp.every (K := fun s s' => s' = s) (fun _ => rfl) (fun h h' => h'.trans h) ?_ hp s
  rintro e ⟨w, lb⟩ r ⟨w', lb'⟩ he ⟨hredis, hbalancer⟩
  have hb : lb' = lb := by
    cases e with
    | command context cmd => exact hbalancer
    | systemClock => exact hbalancer
    | indeterminate => exact hbalancer
    | _ => exact he.elim
  have hw : w' = w := by
    cases e with
    | command context cmd =>
      rcases he with hreads | hfalse
      · rw [← exec_reads hreads w]
        exact hredis.2
      · exact hfalse.elim
    | systemClock => exact hredis
    | indeterminate => exact hredis
    | _ => exact he.elim
  rw [hb, hw]

theorem quiet_of_local {α : Type} {p : Code α} (hp : p.Every (Local OffCounters)) : p.Every Quiet := by
  refine hp.mono ?_
  intro e he
  cases e with
  | command context cmd => exact he
  | systemClock => trivial
  | indeterminate => trivial
  | _ => exact he.elim

/-! ### Counters -/

theorem readLoad_decimal {n : Int} (h : w[workerLoadKey (cStr v)]? = some (.string (decimal n))) :
    readLoad w v = if -2 ^ 31 ≤ n ∧ n < 2 ^ 31 then .ok (Int32.ofInt n) else .error .outOfRange := by
  have htext : (decimal n).isEmpty = false := by simp [decimal_ne_nil]
  simp only [readLoad, exec, cStr_workerLoadKey_eq, h, replyText, htext, Bool.false_eq_true, if_false, stoi,
    strtol_decimal]

/-- The counter of a worker is `n`; a missing one counts as 0. -/
def Counts (w : Keyspace) (v : Bytes) (n : Int) : Prop :=
  w[workerLoadKey (cStr v)]? = some (.string (decimal n)) ∨ (w[workerLoadKey (cStr v)]? = none ∧ n = 0)

/-- A counter that can be read is in the range of an `int`. -/
theorem Counts.range {n : Int} {c : Int32} (h : Counts w v n) (hread : readLoad w v = .ok c) :
    -2 ^ 31 ≤ n ∧ n < 2 ^ 31 := by
  rcases h with hn | ⟨-, rfl⟩
  · rw [readLoad_decimal hn] at hread
    split at hread
    · assumption
    · cases hread
  · omega

theorem redisInteger_eq_some {b : Bytes} {n : Int} (h : redisInteger b = some n) :
    b = decimal n ∧ -2 ^ 63 ≤ n ∧ n < 2 ^ 63 := by
  unfold redisInteger at h
  obtain ⟨-, hn⟩ := Option.filter_eq_some_iff.1 h
  simp only [Bool.and_eq_true, beq_iff_eq, decide_eq_true_eq] at hn
  exact ⟨hn.1.1.symm, hn.1.2, hn.2⟩

/-- `INCRBY` fails and changes nothing, or adds to the counter. -/
theorem execIncrby_cases (w : Keyspace) (v : Bytes) (k : Int) :
    (execIncrby (workerLoadKey (cStr v)) k w).2 = w ∨ ∃ n, Counts w v n ∧
      (execIncrby (workerLoadKey (cStr v)) k w).2 =
        w.insert (workerLoadKey (cStr v)) (.string (decimal (n + k))) := by
  have hadd : ∀ n : Int, Counts w v n → ∀ r : Reply × Keyspace,
      r = (if -2 ^ 63 ≤ n + k ∧ n + k < 2 ^ 63 then
        (.integer (n + k), w.insert (workerLoadKey (cStr v)) (.string (decimal (n + k)))) else (.error, w)) →
      r.2 = w ∨ ∃ n, Counts w v n ∧ r.2 = w.insert (workerLoadKey (cStr v)) (.string (decimal (n + k))) := by
    rintro n hn r rfl
    split
    · exact Or.inr ⟨n, hn, rfl⟩
    · exact Or.inl rfl
  cases hw : w[workerLoadKey (cStr v)]? with
  | none =>
    refine hadd 0 (Or.inr ⟨hw, rfl⟩) _ ?_
    simp only [execIncrby, hw]
  | some value =>
    cases value with
    | string b =>
      cases hb : redisInteger b with
      | some n =>
        refine hadd n (Or.inl ?_) _ ?_
        · rw [hw, (redisInteger_eq_some hb).1]
        · simp only [execIncrby, hw, hb]
      | none =>
        left
        simp only [execIncrby, hw, hb]
    | list l =>
      left
      simp only [execIncrby, hw]
    | hash f =>
      left
      simp only [execIncrby, hw]

theorem workerLoad_of_counts {n : Int} {c : Int32} (h : Counts w v n) (hread : readLoad w v = .ok c) :
    workerLoad w (cStr v) = n := by
  obtain ⟨hlo, hhi⟩ := h.range hread
  rcases h with hn | ⟨hnone, rfl⟩
  · have hinteger : redisInteger (decimal n) = some n := redisInteger_of_bounds (by omega) (by omega)
    simp only [workerLoad, hn, hinteger, Option.getD_some]
  · exact workerLoad_of_none hnone

theorem readable_increment {c : Int32} (hmax : workerLoad w (cStr v) ≠ 2 ^ 31 - 1) (hread : readLoad w v = .ok c) :
    ∃ c', readLoad (execIncrby (workerLoadKey (cStr v)) 1 w).2 v = .ok c' := by
  rcases execIncrby_cases w v 1 with hsame | ⟨n, hn, hadd⟩
  · exact ⟨c, by rw [hsame, hread]⟩
  · obtain ⟨hlo, hhi⟩ := hn.range hread
    rw [workerLoad_of_counts hn hread] at hmax
    refine ⟨Int32.ofInt (n + 1), ?_⟩
    have hstored : (execIncrby (workerLoadKey (cStr v)) 1 w).2[workerLoadKey (cStr v)]? =
        some (.string (decimal (n + 1))) := by
      rw [hadd]
      simp
    rw [readLoad_decimal hstored, if_pos (by omega)]

/-- A counter goes down only from a positive number. -/
theorem readable_decrement {c : Int32} {load : Int64}
    (hload : stoll (replyText (some (exec (.get (workerLoadKey (cStr v))) w).1)) = .ok load) (hpos : 0 < load)
    (hread : readLoad w v = .ok c) : ∃ c', readLoad (execIncrby (workerLoadKey (cStr v)) (-1) w).2 v = .ok c' := by
  rcases execIncrby_cases w v (-1) with hsame | ⟨n, hn, hadd⟩
  · exact ⟨c, by rw [hsame, hread]⟩
  · obtain ⟨hlo, hhi⟩ := hn.range hread
    have hn' : 0 < n := by
      rcases hn with hn | ⟨hnone, -⟩
      · simp only [exec, hn, replyText] at hload
        have hdecimal := stoll_decimal (Int64.ofInt n)
        rw [Int64.toInt_ofInt_of_le (by omega) (by omega), hload] at hdecimal
        cases hdecimal
        rwa [Int64.lt_iff_toInt_lt, Int64.toInt_ofInt_of_le (by omega) (by omega)] at hpos
      · simp only [exec, hnone, replyText] at hload
        cases hload
    refine ⟨Int32.ofInt (n + -1), ?_⟩
    have hstored : (execIncrby (workerLoadKey (cStr v)) (-1) w).2[workerLoadKey (cStr v)]? =
        some (.string (decimal (n + -1))) := by
      rw [hadd]
      simp
    rw [readLoad_decimal hstored, if_pos (by omega)]

/-! ### A task is counted -/

/-- A load that can be read can be read again. -/
def StaysReadable (v : Bytes) (s s' : Cluster) : Prop :=
  ∀ c, readLoad s.redis v = .ok c → ∃ c', readLoad s'.redis v = .ok c'

/-- No counter but that of `v` has changed, and the node of `v` holds the load, if it can be read. -/
structure Counted (v : Bytes) (s s' : Cluster) : Prop where
  others : ∀ u, u ≠ cStr v → s'.redis[workerLoadKey u]? = s.redis[workerLoadKey u]?
  cached : ∀ load, readLoad s'.redis v = .ok load →
    s'.balancer.workers = (s.balancer.updateWorkerLoad v load).workers
  unread : ∀ x, readLoad s'.redis v = .error x → s'.balancer.workers = s.balancer.workers

theorem Counted.agrees (h : Counted v s s') (hown : OwnCounter s v)
    (hread : s.balancer.workers[v]?.isSome → StaysReadable v s s') (ha : Agrees s) : Agrees s' := by
  have hother : ∀ id node, id ≠ v → s.balancer.workers[id]? = some node →
      readLoad s'.redis id = .ok node.currentLoad := by
    intro id node hid hnode
    have hkey : cStr id ≠ cStr v := fun heq => hid (hown id (by rw [hnode]; rfl) heq)
    rw [readLoad_congr (h.others _ hkey)]
    exact ha id node hnode
  intro id node hnode
  cases hload : readLoad s'.redis v with
  | ok load =>
    have hentry := LoadBalancer.modifyNode_entry s.balancer v (fun node => { node with currentLoad := load }) id
    have hnode' : ((s.balancer.updateWorkerLoad v load).entry id).node = some node := by
      rw [h.cached load hload] at hnode
      exact hnode
    rw [LoadBalancer.updateWorkerLoad, hentry] at hnode'
    by_cases hid : v = id
    · subst hid
      rw [if_pos rfl] at hnode'
      obtain ⟨n, -, rfl⟩ := Option.map_eq_some_iff.1 hnode'
      exact hload
    · rw [if_neg hid] at hnode'
      exact hother id node (Ne.symm hid) hnode'
  | error x =>
    rw [h.unread x hload] at hnode
    refine hother id node ?_ hnode
    rintro rfl
    obtain ⟨c, hc⟩ := hread (by rw [hnode]; rfl) _ (ha id node hnode)
    rw [hload] at hc
    cases hc

theorem updateWorkerLoad_workers {lb lb' : LoadBalancer} (h : lb'.workers = lb.workers) (v : Bytes) (load : Int32) :
    (lb'.updateWorkerLoad v load).workers = (lb.updateWorkerLoad v load).workers := by
  unfold LoadBalancer.updateWorkerLoad LoadBalancer.modifyNode
  rw [h]
  split <;> simp [h]

theorem SameLoads.counted (h : SameLoads s s') (h' : Counted v s' s'') : Counted v s s'' := by
  constructor
  · intro u hu
    rw [h'.others u hu, h.counters]
  · intro load hload
    rw [h'.cached load hload, updateWorkerLoad_workers h.workers]
  · intro x hx
    rw [h'.unread x hx, h.workers]

theorem Counted.same (h : Counted v s s') (h' : SameLoads s' s'') : Counted v s s'' := by
  have hread : readLoad s''.redis v = readLoad s'.redis v := readLoad_congr (h'.counters _)
  constructor
  · intro u hu
    rw [h'.counters, h.others u hu]
  · intro load hload
    rw [h'.workers]
    exact h.cached load (hread ▸ hload)
  · intro x hx
    rw [h'.workers]
    exact h.unread x (hread ▸ hx)

/-! ### The parts of the operations -/

section Parts

variable {α : Type} {Q : Except StdException α → Cluster → Prop}

theorem post_command {c : Nat} {cmd : Command} {k : Option Reply → Code α}
    (h : Post (clusterServed sort) (k (some (exec cmd s.redis).1)) Q ⟨(exec cmd s.redis).2, s.balancer⟩) :
    Post (clusterServed sort) (.call (.command c cmd) k) Q s := by
  rintro r ⟨w, lb⟩ ⟨⟨hr, hw⟩, hb⟩
  cases hr
  cases hw
  cases hb
  exact h

theorem post_connection {f : Option RedisClient → Code α}
    (h : ∀ redis, redis.connected = true → Post (clusterServed sort) (f (some redis)) Q s) :
    Post (clusterServed sort) (getConnection >>= f) Q s := by
  rintro r ⟨w, lb⟩ ⟨⟨hw, redis, hr, hc⟩, hb⟩
  cases hw
  cases hr
  cases hb
  exact h redis hc

theorem post_getWorkerLoad (hc : redis.connected = true) :
    Post (clusterServed sort) (redis.getWorkerLoad v) (fun o s' => s' = s ∧ o = readLoad s.redis v) s := by
  rw [RedisClient.getWorkerLoad, get_eq hc]
  refine post_command (Post.ofExcept ⟨?_, rfl⟩)
  rw [exec_reads rfl]

/-- After a change of the counter it is read and stored in the node. -/
theorem post_readBack (hc : redis.connected = true) (s s' : Cluster)
    (hothers : ∀ u, u ≠ cStr v → s'.redis[workerLoadKey u]? = s.redis[workerLoadKey u]?)
    (hworkers : s'.balancer.workers = s.balancer.workers) {rest : Int32 → Code α}
    (hrest : ∀ load, (rest load).Every Quiet) :
    Post (clusterServed sort) (do
      let load ← redis.getWorkerLoad v
      updateWorkerLoad v load
      rest load) (fun _ s'' => Counted v s s'' ∧ readLoad s''.redis v = readLoad s'.redis v) s' := by
  refine (post_getWorkerLoad hc).bind ?_ ?_
  · rintro load s₁ ⟨rfl, hload⟩
    rintro r ⟨w, lb⟩ ⟨hw, hb⟩
    cases hw
    cases hb
    refine (post_quiet (hrest load) _).mono ?_
    intro o s₂ hsame
    have hread : readLoad s₂.redis v = readLoad s₁.redis v := readLoad_congr (hsame.counters _)
    have hcounted : Counted v s ⟨s₁.redis, s₁.balancer.updateWorkerLoad v load⟩ := by
      refine ⟨hothers, ?_, ?_⟩
      · intro load' hload'
        rw [← hload] at hload'
        cases hload'
        exact updateWorkerLoad_workers hworkers v load
      · intro x hx
        rw [← hload] at hx
        cases hx
    exact ⟨hcounted.same hsame, hread⟩
  · rintro x s₁ ⟨rfl, hload⟩
    refine ⟨⟨hothers, ?_, fun _ _ => hworkers⟩, rfl⟩
    intro load' hload'
    rw [← hload] at hload'
    cases hload'

theorem post_hget (hc : redis.connected = true) (taskId : Bytes) {field : Bytes} (hf : 0 ∉ field) :
    Post (clusterServed sort) (redis.hget (taskKey taskId) field)
      (fun o s' => s' = s ∧ o = .ok (recordText s.redis (cStr taskId) field)) s := by
  rw [hget_eq hc, cStr_taskKey_eq, cStr_of_noNul hf]
  exact post_command ⟨by rw [exec_reads rfl], by rw [replyText_hget_record]⟩

theorem post_incrementWorkerLoad (hc : redis.connected = true) (v : Bytes) :
    Post (clusterServed sort) (redis.incrementWorkerLoad v) (fun o s' => o = .ok true ∧
      s' = ⟨(execIncrby (workerLoadKey (cStr v)) 1 s.redis).2, s.balancer⟩) s := by
  rw [RedisClient.incrementWorkerLoad, incr_eq hc, cStr_workerLoadKey_eq]
  exact post_command ⟨rfl, rfl⟩

/-- Either nothing happens, or the counter was positive and is decremented. -/
theorem post_decrementWorkerLoad (hc : redis.connected = true) (v : Bytes) :
    Post (clusterServed sort) (redis.decrementWorkerLoad v) (fun o s' => s' = s ∨ (o = .ok true ∧
      s' = ⟨(execIncrby (workerLoadKey (cStr v)) (-1) s.redis).2, s.balancer⟩ ∧ StaysReadable v s s')) s := by
  rw [RedisClient.decrementWorkerLoad, get_eq hc, cStr_workerLoadKey_eq]
  refine post_command ?_
  rw [exec_reads rfl]
  cases hload : stoll (replyText (some (exec (.get (workerLoadKey (cStr v))) s.redis).1)) with
  | error x =>
    show Post _ (ofExcept (stoll _) >>= _) _ _
    rw [hload]
    exact Or.inl rfl
  | ok load =>
    show Post _ (ofExcept (stoll _) >>= _) _ _
    rw [hload]
    show Post _ (if 0 < load then _ else _) _ _
    split
    · rename_i hpos
      rw [incrby_eq hc, cStr_workerLoadKey_eq]
      exact post_command (Or.inr ⟨rfl, rfl, fun c hread => readable_decrement hload hpos hread⟩)
    · exact Or.inl rfl

theorem incrby_others (k : Int) (s : Cluster) {u : Bytes} (hu : u ≠ cStr v) :
    (execIncrby (workerLoadKey (cStr v)) k s.redis).2[workerLoadKey u]? = s.redis[workerLoadKey u]? :=
  exec_frame (.incrby (workerLoadKey (cStr v)) k) s.redis (by simpa [Command.key] using Ne.symm hu)

/-- What an operation does that takes a task off `v`, or gives it one. -/
def Tracks (v : Bytes) (s s' : Cluster) : Prop := SameLoads s s' ∨ (Counted v s s' ∧ StaysReadable v s s')

theorem SameLoads.tracks (h : SameLoads s s') (h' : Tracks v s' s'') : Tracks v s s'' := by
  rcases h' with h' | ⟨h', hread⟩
  · exact Or.inl (h.trans h')
  · refine Or.inr ⟨h.counted h', ?_⟩
    intro c hc
    rw [← readLoad_congr (h.counters _)] at hc
    exact hread c hc

theorem Tracks.agrees (h : Tracks v s s') (hown : OwnCounter s v) (ha : Agrees s) : Agrees s' := by
  rcases h with h | ⟨h, hread⟩
  · exact h.agrees ha
  · exact h.agrees hown (fun _ => hread) ha

theorem post_takeOff (hc : redis.connected = true) {rest : Int32 → Code α}
    (hrest : ∀ load, (rest load).Every Quiet) :
    Post (clusterServed sort) (do
      let _ ← redis.decrementWorkerLoad v
      let load ← redis.getWorkerLoad v
      updateWorkerLoad v load
      rest load) (fun _ s' => Tracks v s s') s := by
  refine (post_decrementWorkerLoad hc v).bind ?_ ?_
  · rintro b s₁ (rfl | ⟨-, rfl, hread⟩)
    · refine (post_readBack hc s₁ s₁ (fun _ _ => rfl) rfl hrest).mono ?_
      rintro o s' ⟨hcounted, hsame⟩
      exact Or.inr ⟨hcounted, fun c hread => ⟨c, hsame.trans hread⟩⟩
    · refine (post_readBack hc s ⟨(execIncrby (workerLoadKey (cStr v)) (-1) s.redis).2, s.balancer⟩
        (fun u hu => incrby_others (-1) s hu) rfl hrest).mono ?_
      rintro o s' ⟨hcounted, hsame⟩
      refine Or.inr ⟨hcounted, fun c hc => ?_⟩
      obtain ⟨c', hc'⟩ := hread c hc
      exact ⟨c', hsame.trans hc'⟩
  · rintro x s₁ (rfl | ⟨ho, -⟩)
    · exact Or.inl (SameLoads.refl _)
    · cases ho

end Parts

/-! ### The operations -/

private theorem offCounters_record (i field value : Bytes) : OffCounters (.hset (taskKey i) field value) :=
  fun v => taskKey_ne_workerLoadKey i v

private theorem hset_quiet (i field value : Bytes) : (redis.hset (taskKey i) field value).Every Quiet := by
  refine quiet_of_local (hset_local ?_)
  rw [cStr_taskKey_eq]
  exact offCounters_record _ _ _

private theorem updateTaskStatus_quiet (i : Bytes) (status : Int32) (errorMsg : Bytes) :
    (redis.updateTaskStatus i status errorMsg).Every Quiet := by
  refine quiet_of_local (updateTaskStatus_local ?_)
  rintro cmd (rfl | ⟨-, rfl⟩ | ⟨now, rfl⟩)
  · exact offCounters_record _ _ _
  · exact offCounters_record _ _ _
  · exact offCounters_record _ _ _

private theorem return_quiet {α : Type} (a : α) : (do returnConnection redis; return a : Code α).Every Quiet :=
  ⟨trivial, fun _ => trivial⟩

private theorem recordSuccess_quiet (v : Bytes) : (recordSuccess v).Every Quiet := ⟨trivial, fun _ => trivial⟩

private theorem recordFailure_quiet (v : Bytes) : (recordFailure v).Every Quiet := ⟨trivial, fun _ => trivial⟩

private theorem requeue_quiet (i : Bytes) (retryCount : Int32) : (redis.requeueRetry i retryCount).Every Quiet := by
  refine .bind (quiet_of_local (incrementTaskRetry_local fun n => offCounters_record _ _ _)) fun _ => ?_
  refine .bind (quiet_of_local (getTask_local i)) fun task => .bind ⟨trivial, fun _ => trivial⟩ fun _ => ?_
  refine .bind (quiet_of_local (setex_local fun v hkey => ?_)) fun _ => ?_
  · have hhead := retryKey_head (retryDelay retryCount).toInt i
    have hload : (workerLoadKey v).head? = some 119 := rfl
    rw [show cStr _ = workerLoadKey v from hkey, hload] at hhead
    exact absurd hhead (by decide)
  · refine .bind (quiet_of_local (pushToPriorityQueue_local fun v hkey => ?_)) fun _ => return_quiet true
    exact workerLoadKey_ne_queue (queueOf_mem _) v hkey.symm

theorem post_assignTaskToWorker (i v : Bytes) :
    Post (clusterServed sort) (assignTaskToWorker i v) (fun _ s' => SameLoads s s' ∨
      (Counted v s s' ∧ (workerLoad s.redis (cStr v) ≠ 2 ^ 31 - 1 → StaysReadable v s s'))) s := by
  refine post_connection fun redis hc => ?_
  refine (post_reads (getTask_local i) s).bind ?_ (by rintro x s' rfl; exact Or.inl (SameLoads.refl _))
  rintro task s rfl
  split
  · exact (post_quiet (return_quiet false) s).mono fun o s' h => Or.inl h
  refine (post_quiet (p := systemClock) ⟨trivial, fun _ => trivial⟩ s).bind ?_ (fun x s' h => Or.inl h)
  intro now s₂ h₂
  refine (post_quiet (hset_quiet i _ _) s₂).bind ?_ (fun x s' h => Or.inl (h₂.trans h))
  intro _ s₃ h₃
  refine (post_quiet (hset_quiet i _ _) s₃).bind ?_ (fun x s' h => Or.inl (h₂.trans (h₃.trans h)))
  intro _ s₄ h₄
  have hbefore := h₂.trans (h₃.trans h₄)
  refine (post_quiet (hset_quiet i _ _) s₄).bind ?_ (fun x s' h => Or.inl (hbefore.trans h))
  intro _ s₅ h₅
  have hquiet := hbefore.trans h₅
  refine (post_incrementWorkerLoad hc v).bind ?_ ?_
  · rintro _ s₆ ⟨-, rfl⟩
    refine (post_readBack hc s₅ ⟨(execIncrby (workerLoadKey (cStr v)) 1 s₅.redis).2, s₅.balancer⟩
      (fun u hu => incrby_others 1 s₅ hu) rfl fun load => return_quiet true).mono ?_
    rintro o s' ⟨hcounted, hsame⟩
    refine Or.inr ⟨hquiet.counted hcounted, fun hmax c hread => ?_⟩
    rw [← workerLoad_congr (hquiet.counters (cStr v))] at hmax
    rw [← readLoad_congr (hquiet.counters _)] at hread
    obtain ⟨c', hc'⟩ := readable_increment hmax hread
    exact ⟨c', hsame.trans hc'⟩
  · rintro x s₆ ⟨ho, -⟩
    cases ho

section Reports

variable (i : Bytes)

/-- Both reports end by taking the task off its worker, if it has one. -/
private theorem post_report {report : Code Unit} (hr : report.Every Quiet)
    (hc : redis.connected = true) (v : Bytes) :
    Post (clusterServed sort) (do
      if (!v.isEmpty) = true then
        let _ ← redis.decrementWorkerLoad v
        let load ← redis.getWorkerLoad v
        updateWorkerLoad v load
        report
      returnConnection redis
      return true : Code Bool) (fun _ s' => Tracks v s s') s := by
  dsimp only
  split
  · exact post_takeOff hc fun load => .bind hr fun _ => return_quiet true
  · exact (post_quiet (return_quiet true) s).mono fun o s' h => Or.inl h

theorem post_completeTask (result : TaskResult) : Post (clusterServed sort) (completeTask i result)
    (fun _ s' => Tracks (assignedWorker s i) s s') s := by
  refine post_connection fun redis hc => ?_
  refine (post_hget hc i (by decide)).bind ?_ (by rintro x s' ⟨-, ho⟩; cases ho)
  rintro v s ⟨rfl, hv⟩
  cases hv
  refine (post_quiet (updateTaskStatus_quiet i 2 []) s).bind ?_ (fun x s' h => Or.inl h)
  intro _ s₁ h₁
  refine (post_quiet (hset_quiet i _ _) s₁).bind ?_ (fun x s' h => Or.inl (h₁.trans h))
  intro _ s₂ h₂
  refine (post_report (recordSuccess_quiet _) hc _).mono ?_
  intro o s' h
  exact (h₁.trans h₂).tracks h

theorem post_failTask (error : Bytes) : Post (clusterServed sort) (failTask i error)
    (fun _ s' => Tracks (assignedWorker s i) s s') s := by
  refine post_connection fun redis hc => ?_
  refine (post_hget hc i (by decide)).bind ?_ (by rintro x s' ⟨-, ho⟩; cases ho)
  rintro v s ⟨rfl, hv⟩
  cases hv
  refine (post_quiet (updateTaskStatus_quiet i 3 error) s).bind ?_ (fun x s' h => Or.inl h)
  intro _ s₁ h₁
  refine (post_report (recordFailure_quiet _) hc _).mono ?_
  intro o s' h
  exact h₁.tracks h

theorem post_retryTask : Post (clusterServed sort) (retryTask i)
    (fun _ s' => Tracks (assignedWorker s i) s s') s := by
  refine post_connection fun redis hc => ?_
  refine (post_reads (getTask_local i) s).bind ?_ (by rintro x s' rfl; exact Or.inl (SameLoads.refl _))
  rintro task s rfl
  dsimp only
  split
  · exact (post_quiet (return_quiet false) s).mono fun o s' h => Or.inl h
  refine (post_hget hc i (by decide)).bind ?_ (by rintro x s' ⟨-, ho⟩; cases ho)
  rintro v s ⟨rfl, hv⟩
  cases hv
  split
  · exact post_takeOff hc fun load => requeue_quiet i task.retryCount
  · exact (post_quiet (requeue_quiet i task.retryCount) s).mono fun o s' h => Or.inl h

end Reports

/-! ### Whole runs -/

/-- `updateWorkers` keeps the agreement exactly when the workers it adds have the counter 0. -/
theorem updated_agrees_iff (services : List (ServiceInfo × Int64)) (now : Int) (ha : Agrees s) :
    Agrees ⟨s.redis, s.balancer.updateWorkers services now⟩ ↔ KnownLoad s (.updateWorkers services now) := by
  have hlisted : ∀ id, WorkerEntry.listed services id = true →
      ((s.balancer.updateWorkers services now).entry id).node.map (·.currentLoad) =
        some (((s.balancer.entry id).node.map (·.currentLoad)).getD 0) := by
    intro id hid
    rw [LoadBalancer.updateWorkers_entry, if_pos hid]
    exact WorkerEntry.listAll_member (fun _ _ => rfl) (fun _ _ _ => rfl) hid
  constructor
  · intro h id hid hnone
    have hload := hlisted id (WorkerEntry.listed_iff.2 hid)
    have hnode : (s.balancer.entry id).node = none := hnone
    rw [hnode] at hload
    obtain ⟨node, hsome, hzero⟩ := Option.map_eq_some_iff.1 hload
    rw [h id node hsome, hzero]
    rfl
  · intro h id node hnode
    by_cases hid : WorkerEntry.listed services id = true
    · have hload := hlisted id hid
      have hnode' : ((s.balancer.updateWorkers services now).entry id).node = some node := hnode
      rw [hnode', Option.map_some] at hload
      rw [Option.some.inj hload]
      cases hold : (s.balancer.entry id).node with
      | none => exact h id (WorkerEntry.listed_iff.1 hid) hold
      | some n => exact ha id n hold
    · have hentry := LoadBalancer.updateWorkers_entry s.balancer services now id
      have hnode' : ((s.balancer.updateWorkers services now).entry id).node = some node := hnode
      rw [hentry, if_neg hid] at hnode'
      split at hnode'
      · cases hnode'
      · exact ha id node hnode'

theorem ClusterStep.agrees {c : ClusterCall} (hs : ClusterStep sort s c s') (hknown : KnownLoad s c)
    (ha : Agrees s) :
    Agrees s' := by
  cases hs with
  | updateWorkers => exact (updated_agrees_iff _ _ ha).2 hknown
  | assignTaskToWorker hrun =>
    rcases (post_assignTaskToWorker _ _).run hrun with hsame | ⟨hcounted, hread⟩
    · exact hsame.agrees ha
    · exact hcounted.agrees hknown.1 (fun hsome => hread (hknown.2 hsome)) ha
  | completeTask hrun => exact ((post_completeTask _ _).run hrun).agrees hknown ha
  | failTask hrun => exact ((post_failTask _ _).run hrun).agrees hknown ha
  | retryTask hrun => exact ((post_retryTask _).run hrun).agrees hknown ha

theorem agrees_of_run {run : List (ClusterCall × Cluster)} (hrun : IsClusterRun sort s run)
    (hknown : KnownLoads s run) (ha : Agrees s) : ∀ p ∈ run, Agrees p.2 := by
  induction run generalizing s with
  | nil => simp
  | cons p run ih =>
    obtain ⟨c, s'⟩ := p
    have hnext := hrun.1.agrees hknown.1 ha
    intro p hp
    rcases List.mem_cons.1 hp with rfl | hp
    · exact hnext
    · exact ih hrun.2 hknown.2 hnext p hp

end Loads

/-- In every run whose calls all meet the condition, from any content of Redis, the cached loads are the loads that
`getWorkerLoad` answers. -/
theorem loads_agree (sort : StdSort) (strategy : Bytes) (w : Keyspace) {run : List (ClusterCall × Cluster)}
    (hrun : IsClusterRun sort ⟨w, .create strategy⟩ run) (hknown : KnownLoads ⟨w, .create strategy⟩ run) :
    ∀ p ∈ run, Agrees p.2 := by
  refine agrees_of_run hrun hknown ?_
  intro id node hnode
  have hentry := LoadBalancer.setStrategy_entry {} strategy id
  have hnode' : ((LoadBalancer.create strategy).entry id).node = some node := hnode
  rw [LoadBalancer.create, hentry] at hnode'
  simp [LoadBalancer.entry] at hnode'

/-- The registry lists one worker. -/
def joinWorker : List (ServiceInfo × Int64) := [(⟨bytes "worker", bytes "worker-1", bytes "host", 50052⟩, 1000)]

/-! ### A worker that leaves with a task and comes back -/

/-- Nothing fails, and the clock stands still; nobody selects a worker. -/
def answerCluster : (e : Effect) → Cluster → Option (e.Answer × Cluster)
  | .getConnection, s => some (some ⟨0, true⟩, s)
  | .returnConnection _, s => some ((), s)
  | .command _ cmd, s => some (some (exec cmd s.redis).1, { s with redis := (exec cmd s.redis).2 })
  | .systemClock, s => some (0, s)
  | .indeterminate, s => some (default, s)
  | .selectWorker _, _ => none
  | .updateWorkerLoad workerId load, s =>
      some ((), { s with balancer := s.balancer.updateWorkerLoad workerId load })
  | .recordSuccess workerId, s => some ((), { s with balancer := s.balancer.recordSuccess workerId })
  | .recordFailure workerId, s => some ((), { s with balancer := s.balancer.recordFailure workerId 0 })

theorem answerCluster_served (sort : StdSort) (e : Effect) (s : Cluster) (r : e.Answer) (s' : Cluster)
    (h : answerCluster e s = some (r, s')) : clusterServed sort e s r s' := by
  cases e with
  | getConnection =>
    cases h
    exact ⟨⟨rfl, _, rfl, rfl⟩, rfl⟩
  | command context cmd =>
    cases h
    exact ⟨⟨rfl, rfl⟩, rfl⟩
  | selectWorker taskId => cases h
  | recordFailure workerId =>
    cases h
    exact ⟨rfl, 0, rfl⟩
  | _ =>
    cases h
    exact ⟨rfl, rfl⟩

def Cluster.call (s : Cluster) : ClusterCall → Option Cluster
  | .updateWorkers services now => some ⟨s.redis, s.balancer.updateWorkers services now⟩
  | .assignTaskToWorker taskId workerId => ((assignTaskToWorker taskId workerId).play answerCluster s).map (·.2.2)
  | .completeTask taskId result => ((completeTask taskId result).play answerCluster s).map (·.2.2)
  | .failTask taskId error => ((failTask taskId error).play answerCluster s).map (·.2.2)
  | .retryTask taskId => ((retryTask taskId).play answerCluster s).map (·.2.2)

theorem Cluster.call_step (sort : StdSort) {s s' : Cluster} {c : ClusterCall} (h : s.call c = some s') :
    ClusterStep sort s c s' := by
  cases c with
  | updateWorkers services now =>
    cases h
    exact .updateWorkers
  | assignTaskToWorker taskId workerId =>
    obtain ⟨⟨τ, o, s''⟩, hplay, rfl⟩ := Option.map_eq_some_iff.1 h
    exact .assignTaskToWorker (Run.of_play (answerCluster_served sort) hplay)
  | completeTask taskId result =>
    obtain ⟨⟨τ, o, s''⟩, hplay, rfl⟩ := Option.map_eq_some_iff.1 h
    exact .completeTask (Run.of_play (answerCluster_served sort) hplay)
  | failTask taskId error =>
    obtain ⟨⟨τ, o, s''⟩, hplay, rfl⟩ := Option.map_eq_some_iff.1 h
    exact .failTask (Run.of_play (answerCluster_served sort) hplay)
  | retryTask taskId =>
    obtain ⟨⟨τ, o, s''⟩, hplay, rfl⟩ := Option.map_eq_some_iff.1 h
    exact .retryTask (Run.of_play (answerCluster_served sort) hplay)

/-- `OwnCounter`, over the table. -/
def ownCounter (s : Cluster) (v : Bytes) : Bool :=
  s.balancer.workers.toList.all fun worker => cStr worker.1 != cStr v || worker.1 == v

theorem ownCounter_sound {s : Cluster} {v : Bytes} (h : ownCounter s v = true) : OwnCounter s v := by
  intro id hsome hsame
  obtain ⟨node, hnode⟩ := Option.isSome_iff_exists.1 hsome
  have hid := List.all_eq_true.1 h (id, node) (mem_toList.2 hnode)
  simpa [hsame] using hid

/-- `KnownLoad`, checked. -/
def knownLoad (s : Cluster) : ClusterCall → Bool
  | .updateWorkers services _ => services.all fun service =>
      s.balancer.workers[service.1.id]?.isSome || (readLoad s.redis service.1.id).toOption == some 0
  | .assignTaskToWorker _ v => ownCounter s v && workerLoad s.redis (cStr v) != 2 ^ 31 - 1
  | .completeTask taskId _ => ownCounter s (assignedWorker s taskId)
  | .failTask taskId _ => ownCounter s (assignedWorker s taskId)
  | .retryTask taskId => ownCounter s (assignedWorker s taskId)

theorem knownLoad_sound {s : Cluster} {c : ClusterCall} (h : knownLoad s c = true) : KnownLoad s c := by
  cases c with
  | updateWorkers services now =>
    intro id hid hnone
    obtain ⟨service, hs, rfl⟩ := List.mem_map.1 hid
    have hzero := List.all_eq_true.1 h service hs
    rw [hnone] at hzero
    exact eq_ok_of_toOption (by simpa using hzero)
  | assignTaskToWorker taskId v =>
    simp only [knownLoad, Bool.and_eq_true, bne_iff_ne] at h
    exact ⟨ownCounter_sound h.1, fun _ => h.2⟩
  | completeTask taskId result => exact ownCounter_sound h
  | failTask taskId error => exact ownCounter_sound h
  | retryTask taskId => exact ownCounter_sound h

/-- Makes the calls one after the other, as long as they are due and meet the condition. -/
def Cluster.calls : Cluster → List ClusterCall → Option (List (ClusterCall × Cluster))
  | _, [] => some []
  | s, c :: cs =>
    if knownLoad s c then
      (s.call c).bind fun s' => (s'.calls cs).map fun run => (c, s') :: run
    else none

theorem Cluster.calls_run (sort : StdSort) {s : Cluster} {cs : List ClusterCall}
    {run : List (ClusterCall × Cluster)}
    (h : s.calls cs = some run) : IsClusterRun sort s run ∧ KnownLoads s run := by
  induction cs generalizing s run with
  | nil =>
    cases h
    exact ⟨trivial, trivial⟩
  | cons c cs ih =>
    rw [Cluster.calls] at h
    split at h
    · rename_i hknown
      obtain ⟨s', hs', hrest⟩ := Option.bind_eq_some_iff.1 h
      obtain ⟨run', hrun', rfl⟩ := Option.map_eq_some_iff.1 hrest
      obtain ⟨hrun, hknowns⟩ := ih hrun'
      exact ⟨⟨Cluster.call_step sort hs', hrun⟩, knownLoad_sound hknown, hknowns⟩
    · cases h

/-- `worker-1` leaves while it holds task 1, which is completed before it comes back; task 2 fails on `worker-2`
and is retried, which takes it off twice. -/
def leavesAndReturns : List ClusterCall :=
  let first : ServiceInfo × Int64 := (⟨bytes "worker", bytes "worker-1", bytes "host", 50052⟩, 1000)
  let second : ServiceInfo × Int64 := (⟨bytes "worker", bytes "worker-2", bytes "host", 50053⟩, 1000)
  [.updateWorkers [first, second] 0, .assignTaskToWorker (bytes "1") (bytes "worker-1"),
    .assignTaskToWorker (bytes "2") (bytes "worker-2"), .assignTaskToWorker (bytes "3") (bytes "worker-2"),
    .updateWorkers [second] 1, .completeTask (bytes "1") ⟨bytes "done"⟩, .updateWorkers [first, second] 2,
    .failTask (bytes "2") (bytes "timeout"), .retryTask (bytes "2"), .assignTaskToWorker (bytes "2")
      (bytes "worker-1")]

/-- The cached loads of the two workers after each of these calls. -/
theorem loads_agree_leavesAndReturns : ∃ run,
    IsClusterRun .stable ⟨∅, .create (bytes "least_connection")⟩ run ∧
    run.map (fun p => p.2.balancer.workers.toList.map fun worker => (worker.1, worker.2.currentLoad)) =
      [[(bytes "worker-1", 0), (bytes "worker-2", 0)], [(bytes "worker-1", 1), (bytes "worker-2", 0)],
        [(bytes "worker-1", 1), (bytes "worker-2", 1)], [(bytes "worker-1", 1), (bytes "worker-2", 2)],
        [(bytes "worker-2", 2)], [(bytes "worker-2", 2)], [(bytes "worker-1", 0), (bytes "worker-2", 2)],
        [(bytes "worker-1", 0), (bytes "worker-2", 1)], [(bytes "worker-1", 0), (bytes "worker-2", 0)],
        [(bytes "worker-1", 1), (bytes "worker-2", 0)]] ∧
    KnownLoads ⟨∅, .create (bytes "least_connection")⟩ run ∧ ∀ p ∈ run, Agrees p.2 := by
  have hcalls : ((⟨∅, .create (bytes "least_connection")⟩ : Cluster).calls leavesAndReturns).map
      (fun run => run.map fun p =>
        p.2.balancer.workers.toList.map fun worker => (worker.1, worker.2.currentLoad)) =
      some [[(bytes "worker-1", 0), (bytes "worker-2", 0)], [(bytes "worker-1", 1), (bytes "worker-2", 0)],
        [(bytes "worker-1", 1), (bytes "worker-2", 1)], [(bytes "worker-1", 1), (bytes "worker-2", 2)],
        [(bytes "worker-2", 2)], [(bytes "worker-2", 2)], [(bytes "worker-1", 0), (bytes "worker-2", 2)],
        [(bytes "worker-1", 0), (bytes "worker-2", 1)], [(bytes "worker-1", 0), (bytes "worker-2", 0)],
        [(bytes "worker-1", 1), (bytes "worker-2", 0)]] := by decide +kernel
  obtain ⟨run, hrun, hloads⟩ := Option.map_eq_some_iff.1 hcalls
  obtain ⟨hsteps, hknown⟩ := Cluster.calls_run .stable hrun
  exact ⟨run, hsteps, hloads, hknown, loads_agree .stable (bytes "least_connection") ∅ hsteps hknown⟩

/-- The worker joins while three tasks are counted on it. -/
theorem joins_with_load : ¬ ∀ (sort : StdSort) (strategy : Bytes) (w : Keyspace)
    (run : List (ClusterCall × Cluster)),
    IsClusterRun sort ⟨w, .create strategy⟩ run → ∀ p ∈ run, Agrees p.2 := by
  intro h
  let w : Keyspace := (∅ : Keyspace).insert (workerLoadKey (bytes "worker-1")) (.string (bytes "3"))
  let lb := (LoadBalancer.create (bytes "round_robin")).updateWorkers joinWorker 0
  have hagrees := h .stable (bytes "round_robin") w [(.updateWorkers joinWorker 0, ⟨w, lb⟩)]
    ⟨.updateWorkers, trivial⟩
    _ List.mem_cons_self
  have hload : lb.workers[bytes "worker-1"]?.map (·.currentLoad) = some 0 := by decide
  obtain ⟨node, hnode, hzero⟩ := Option.map_eq_some_iff.1 hload
  have hread := hagrees (bytes "worker-1") node hnode
  rw [hzero] at hread
  exact absurd hread (by decide)

end Taskflow
