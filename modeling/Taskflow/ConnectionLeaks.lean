import Taskflow.BrokenConnections
import Taskflow.DispatchFailures

/-!
# Connections that are not returned

Each operation of the dispatcher returns its connection at every `return`, but not when a number in a reply
cannot be converted: `std::stoi` and `std::stoll` then throw between `getConnection` and `returnConnection`, and
the connection stays in use.  So the number of connections in use is the same after an operation as before it
exactly when none of its replies is one that the code cannot convert (`connections_kept_iff`).  One such reply
is none at all, to the `GET` of `decrementWorkerLoad`.
-/

namespace Taskflow

open Text Effects Prog

namespace Pooling

/-! ### Replies that cannot be converted -/

/-- One of the numbers of a record cannot be read. -/
def rejectsFields (fields : StringMap Bytes) : Bool :=
  numberFields.any fun field => (fields[field]?).any fun text => !(stoll text).isOk

/-- The function that reads a worker's counter next. -/
inductive CounterReader where
  | decrementWorkerLoad
  | getWorkerLoad
  deriving DecidableEq

/-- The conversion of this reply throws.  `decrementWorkerLoad` converts an empty text as well. -/
def rejected (reader : CounterReader) : Event Effect Effect.Answer → Bool
  | ⟨.command _ (.hgetall _), reply⟩ => rejectsFields (replyFields reply)
  | ⟨.command _ (.hget _ field), reply⟩ =>
    field == bytes "retry_count" && !(replyText reply).isEmpty && !(stoi 10 (replyText reply)).isOk
  | ⟨.command _ (.get _), reply⟩ =>
    match reader with
    | .decrementWorkerLoad => !(stoll (replyText reply)).isOk
    | .getWorkerLoad => !(replyText reply).isEmpty && !(stoi 10 (replyText reply)).isOk
  | _ => false

/-- After the `GET` of `decrementWorkerLoad` and the `INCR` of `incrementWorkerLoad` it is `getWorkerLoad`. -/
def nextReader (reader : CounterReader) : Event Effect Effect.Answer → CounterReader
  | ⟨.command _ (.get _), _⟩ => .getWorkerLoad
  | ⟨.command _ (.incr _), _⟩ => .getWorkerLoad
  | _ => reader

/-- One of the replies is rejected. -/
def conversionFails : CounterReader → Trace → Bool
  | _, [] => false
  | reader, event :: τ => rejected reader event || conversionFails (nextReader reader event) τ

/-! ### Where an operation throws -/

/-- Connections that `getConnection` answers are connected. -/
def Usable : Event Effect Effect.Answer → Prop
  | ⟨.getConnection, redis⟩ => ∀ conn, redis = some conn → conn.connected = true
  | _ => True

/-- While it holds a connection the program throws at the replies that are rejected, and at no others.  `Q`
holds where it returns. -/
def Strict {α : Type} (Q : Option Nat → CounterReader → Prop) : Option Nat → CounterReader → Code α → Prop
  | held, reader, .ret _ => Q held reader
  | held, _, .throw _ => held = none
  | held, reader, .call e k => ∀ r, Usable ⟨e, r⟩ →
    match rejected reader ⟨e, r⟩ with
    | true => borrowing.next held ⟨e, r⟩ ≠ none ∧ ∃ x, k r = .throw x
    | false => Strict Q (borrowing.next held ⟨e, r⟩) (nextReader reader ⟨e, r⟩) (k r)

section Rules

variable {α β : Type} {Q Q' : Option Nat → CounterReader → Prop} {held : Option Nat} {reader : CounterReader}
  {p q : Code α} {f : α → Code β}

theorem Strict.bind (hp : Strict Q held reader p) (hf : ∀ a h u, Q h u → Strict Q' h u (f a)) :
    Strict Q' held reader (p >>= f) := by
  induction p generalizing held reader with
  | ret a => exact hf a held reader hp
  | throw x => exact hp
  | call e k ih =>
    intro r hr
    have hnext := hp r hr
    dsimp only
    cases hrej : rejected reader ⟨e, r⟩ with
    | true =>
      rw [hrej] at hnext
      obtain ⟨hheld, x, hx⟩ := hnext
      exact ⟨hheld, x, by rw [hx]; rfl⟩
    | false =>
      rw [hrej] at hnext
      exact ih r hnext

theorem Strict.ite {c : Prop} [Decidable c] (hp : Strict Q held reader p) (hq : Strict Q held reader q) :
    Strict Q held reader (if c then p else q) := by
  split
  · exact hp
  · exact hq

/-- A part that throws at nothing and reads no counter. -/
abbrev Steady (held : Option Nat) (reader : CounterReader) (p : Code α) : Prop :=
  Strict (fun h u => h = held ∧ u = reader) held reader p

theorem Strict.after (hp : Steady held reader p) (hf : ∀ a, Strict Q held reader (f a)) :
    Strict Q held reader (p >>= f) := by
  refine hp.bind ?_
  rintro a _ _ ⟨rfl, rfl⟩
  exact hf a

/-- An operation gives its connection back exactly when no reply is rejected. -/
theorem Strict.returns_iff {W : Type} {S : Semantics Effect Effect.Answer W}
    (hS : ∀ {e w r w'}, S e w r w' → Usable ⟨e, r⟩) (hp : Strict (fun h _ => h = none) held reader p) {w w' : W}
    {τ : Trace} {o : Except StdException α} (hrun : Run S p w τ o w') :
    borrowing.after held τ = none ↔ conversionFails reader τ = false := by
  induction hrun generalizing held reader with
  | ret a w => exact ⟨fun _ => rfl, fun _ => hp⟩
  | throw x w => exact ⟨fun _ => rfl, fun _ => hp⟩
  | @call e k w w' w'' r τ o hs hk ih =>
    have hnext := hp r (hS hs)
    cases hrej : rejected reader ⟨e, r⟩ with
    | true =>
      rw [hrej] at hnext
      obtain ⟨hheld, x, hx⟩ := hnext
      rw [hx] at hk
      cases hk
      simp only [conversionFails, hrej]
      exact iff_of_false hheld (by simp)
    | false =>
      rw [hrej] at hnext
      simp only [conversionFails, hrej, Bool.false_or]
      exact ih hnext

end Rules

section Wrappers

variable {α : Type} {Q : Option Nat → CounterReader → Prop} {held : Option Nat} {reader : CounterReader}
  {redis : RedisClient}

/-- Commands whose replies are not converted. -/
def Unconverted (cmd : Command) : Prop :=
  ∀ context reader (r : Option Reply), rejected reader ⟨.command context cmd, r⟩ = false ∧
    nextReader reader ⟨.command context cmd, r⟩ = reader

private theorem guarded_steady {b : Bool} {a : α} {cmd : Command} {f : Option Reply → α} (h : Unconverted cmd) :
    Steady held reader (if b = true then ret a else command redis cmd >>= fun reply => ret (f reply)) := by
  refine .ite ⟨rfl, rfl⟩ fun r _ => ?_
  obtain ⟨hrej, hstill⟩ := h redis.context reader r
  rw [hrej]
  exact ⟨rfl, hstill⟩

theorem hset_steady (key field value : Bytes) : Steady held reader (redis.hset key field value) :=
  guarded_steady fun _ _ _ => ⟨rfl, rfl⟩

theorem hget_steady (key : Bytes) {field : Bytes} (hf : cStr field ≠ bytes "retry_count") :
    Steady held reader (redis.hget key field) := by
  refine guarded_steady fun context reader r => ⟨?_, rfl⟩
  simp [rejected, hf]

theorem setex_steady (key value : Bytes) (n : Int32) : Steady held reader (redis.setex key value n) :=
  guarded_steady fun _ _ _ => ⟨rfl, rfl⟩

theorem pushToPriorityQueue_steady (priority : Int32) (taskId : Bytes) :
    Steady held reader (redis.pushToPriorityQueue priority taskId) :=
  guarded_steady fun _ _ _ => ⟨rfl, rfl⟩

theorem saveTask_steady (info : TaskInfo) : Steady held reader (redis.saveTask info) :=
  guarded_steady fun _ _ _ => ⟨rfl, rfl⟩

theorem llen_steady (queue : Bytes) : Steady held reader (redis.llen queue) :=
  guarded_steady fun _ _ _ => ⟨rfl, rfl⟩

theorem systemClock_steady : Steady held reader systemClock := fun _ _ => ⟨rfl, rfl⟩

theorem declareTaskInfo_steady : Steady held reader declareTaskInfo := fun _ _ => ⟨rfl, rfl⟩

theorem updateTaskStatus_steady (taskId errorMsg : Bytes) (status : Int32) :
    Steady held reader (redis.updateTaskStatus taskId status errorMsg) := by
  have hfinished : Steady held reader (do
      if (decide (status = 2) || decide (status = 3)) = true then
        let now ← systemClock
        let _ ← redis.hset (taskKey taskId) (bytes "finished_at") (decimal now.toInt)
      return true : Code Bool) :=
    .ite (.after systemClock_steady fun _ => .after (hset_steady _ _ _) fun _ => ⟨rfl, rfl⟩) ⟨rfl, rfl⟩
  exact .after (hset_steady _ _ _) fun _ => .ite (.after (hset_steady _ _ _) fun _ => hfinished) hfinished

theorem popFromPriorityQueue_steady : Steady held reader redis.popFromPriorityQueue := by
  have hlpop (queue : Bytes) : Steady held reader (redis.lpop queue) := guarded_steady fun _ _ _ => ⟨rfl, rfl⟩
  exact .after (hlpop _) fun _ => .ite ⟨rfl, rfl⟩ (.after (hlpop _) fun _ => .ite ⟨rfl, rfl⟩ (hlpop _))

/-- A record whose numbers cannot all be read is rejected, whatever the members were before. -/
theorem rejectsFields_eq_false {fields : StringMap Bytes} : rejectsFields fields = false ↔ NumbersParse fields := by
  simp only [rejectsFields, List.any_eq_false, NumbersParse]
  refine forall_congr' fun field => forall_congr' fun hf => ?_
  cases hv : fields[field]? with
  | none => simp
  | some text =>
    cases hn : stoll text with
    | ok n => simp [hn, Except.isOk, Except.toBool]
    | error x => simp [hn, Except.isOk, Except.toBool]

variable {context : Nat} {β : Type}

/-- A command whose reply is converted. -/
theorem Strict.converted {cmd : Command} {g : Option Reply → Except StdException β} {f : β → Code α}
    (hrej : ∀ r : Option Reply, rejected reader ⟨.command redis.context cmd, r⟩ = !(g r).isOk)
    (hf : ∀ b (r : Option Reply), Strict Q (some context)
      (nextReader reader ⟨.command redis.context cmd, r⟩) (f b)) :
    Strict Q (some context) reader (.call (.command redis.context cmd) fun r => ofExcept (g r) >>= f) := by
  intro r _
  rw [hrej r]
  dsimp only
  cases hg : g r with
  | ok b => exact hf b r
  | error x => exact ⟨Option.some_ne_none _, x, rfl⟩

/-- `getTask` throws where the record has a number that cannot be read. -/
private theorem rejectsFields_eq (task : TaskInfo) (fields : StringMap Bytes) : rejectsFields fields =
    !(if fields.isEmpty then .ok task else readFields task fields : Except StdException TaskInfo).isOk := by
  by_cases hparse : NumbersParse fields
  · rw [rejectsFields_eq_false.2 hparse]
    obtain ⟨t, ht⟩ := hparse.readFields task
    rw [ht]
    split <;> rfl
  · rw [Bool.eq_true_of_not_eq_false (mt rejectsFields_eq_false.1 hparse)]
    cases hempty : fields.isEmpty with
    | true =>
      refine absurd (fun field _ v hv => ?_) hparse
      rw [isEmpty_eq_false_of_getElem? hv] at hempty
      cases hempty
    | false =>
      cases ht : readFields task fields with
      | ok t => exact absurd (readFields_ok ht).2 hparse
      | error x => rfl

theorem getTask_steady (hc : redis.connected = true) (taskId : Bytes) :
    Steady (some context) reader (redis.getTask taskId) := by
  refine .after declareTaskInfo_steady fun declared => ?_
  have hread (fields : StringMap Bytes) : (if fields.isEmpty then ret { declared with id := taskId }
      else ofExcept (readFields { declared with id := taskId } fields) : Code TaskInfo) =
        ofExcept (if fields.isEmpty then .ok { declared with id := taskId }
          else readFields { declared with id := taskId } fields) >>= ret := by
    rw [bind_ret']
    split <;> rfl
  simp only [hgetall_eq hc, call_bind, ret_bind, pure_eq, hread]
  exact Strict.converted (fun r => rejectsFields_eq _ _) fun task r => ⟨rfl, rfl⟩

theorem incrementTaskRetry_steady (hc : redis.connected = true) (taskId : Bytes) :
    Steady (some context) reader (redis.incrementTaskRetry taskId) := by
  have hfield : cStr (bytes "retry_count") = bytes "retry_count" := by decide
  rw [RedisClient.incrementTaskRetry, hget_eq hc, hfield]
  refine Strict.converted (fun r => ?_) fun retry r => hset_steady _ _ _
  cases hempty : (replyText r).isEmpty <;> simp [rejected, hempty, Except.isOk, Except.toBool]

theorem decrementWorkerLoad_strict (hc : redis.connected = true) (workerId : Bytes) :
    Strict (fun h u => h = some context ∧ u = .getWorkerLoad) (some context) .decrementWorkerLoad
      (redis.decrementWorkerLoad workerId) := by
  rw [RedisClient.decrementWorkerLoad, get_eq hc]
  refine Strict.converted (fun r => rfl) fun load r => ?_
  have hincrby : Steady (some context) .getWorkerLoad (redis.incrby (workerLoadKey workerId) (-1)) :=
    guarded_steady fun _ _ _ => ⟨rfl, rfl⟩
  exact .ite (.after hincrby fun _ => ⟨rfl, rfl⟩) ⟨rfl, rfl⟩

theorem getWorkerLoad_steady (hc : redis.connected = true) (workerId : Bytes) :
    Steady (some context) .getWorkerLoad (redis.getWorkerLoad workerId) := by
  rw [RedisClient.getWorkerLoad, get_eq hc]
  rw [← bind_ret' (_ >>= _)]
  refine Strict.converted (fun r => ?_) fun load r => ⟨rfl, rfl⟩
  cases hempty : (replyText r).isEmpty <;> simp [rejected, hempty, Except.isOk, Except.toBool]

/-- The counter that is read after the `INCR` of an assignment is read by `getWorkerLoad`. -/
theorem incrementWorkerLoad_strict (hc : redis.connected = true) (workerId : Bytes) :
    Strict (fun h u => h = held ∧ u = .getWorkerLoad) held reader (redis.incrementWorkerLoad workerId) := by
  rw [RedisClient.incrementWorkerLoad, incr_eq hc]
  intro r _
  exact ⟨rfl, rfl⟩

end Wrappers

/-! ### The operations -/

section Operations

variable {α : Type} {reader : CounterReader} {redis : RedisClient}

/-- The operation starts without a connection and returns without one. -/
abbrev GivesBack (reader : CounterReader) (p : Code α) : Prop := Strict (fun h _ => h = none) none reader p

private theorem givesBack_connection {f : Option RedisClient → Code α} {a : α} (hnone : f none = ret a)
    (h : ∀ redis, redis.connected = true → Strict (fun h _ => h = none)
      (some redis.context) reader (f (some redis))) :
    GivesBack reader (getConnection >>= f) := by
  intro r hr
  cases r with
  | none =>
    show Strict _ none reader (f none)
    rw [hnone]
    rfl
  | some redis => exact h redis (hr redis rfl)

private theorem strict_return {context : Nat} {f : Unit → Code α} (h : GivesBack reader (f ())) :
    Strict (fun h _ => h = none) (some context) reader (returnConnection redis >>= f) := fun _ _ => h

private theorem strict_end {context : Nat} {a : α} :
    Strict (fun h _ => h = none) (some context) reader (do returnConnection redis; return a) := strict_return rfl

/-- How an operation ends that takes its task off the worker. -/
private theorem strict_unload (hc : redis.connected = true) {workerId : Bytes} {rest : Code α}
    (h : Strict (fun h _ => h = none) (some redis.context) .getWorkerLoad rest) :
    Strict (fun h _ => h = none) (some redis.context) .decrementWorkerLoad (do
      let _ ← redis.decrementWorkerLoad workerId
      let load ← redis.getWorkerLoad workerId
      updateWorkerLoad workerId load
      rest : Code α) := by
  refine (decrementWorkerLoad_strict hc workerId).bind ?_
  rintro _ _ _ ⟨rfl, rfl⟩
  exact .after (getWorkerLoad_steady hc _) fun load _ _ => h

private theorem strict_retry (hc : redis.connected = true) (taskId : Bytes) (retryCount : Int32) :
    Strict (fun h _ => h = none) (some redis.context) reader (redis.requeueRetry taskId retryCount) := by
  refine .after (incrementTaskRetry_steady hc _) fun _ => .after (getTask_steady hc _) fun task => ?_
  refine .after systemClock_steady fun _ => .after (setex_steady _ _ _) fun _ => ?_
  exact .after (pushToPriorityQueue_steady _ _) fun _ => strict_end

private theorem givesBack_getQueueSize (priority : Int32) : GivesBack reader (getQueueSize priority) :=
  givesBack_connection rfl fun _ _ => .after (llen_steady _) fun _ => strict_end

/-- Every operation of the dispatcher throws only where a reply is rejected, or after it has returned its
connection. -/
theorem IsOperation.givesBack {p : Code α} (h : IsOperation p) : GivesBack .decrementWorkerLoad p := by
  have hworker : cStr (bytes "worker_id") ≠ bytes "retry_count" := by decide
  cases h with
  | submitTask task =>
    refine givesBack_connection rfl fun redis hc => .after declareTaskInfo_steady fun declared => ?_
    exact .after (saveTask_steady _) fun _ => .ite strict_end
      (.after (pushToPriorityQueue_steady _ _) fun _ => .ite strict_end strict_end)
  | popNextTask =>
    exact givesBack_connection rfl fun redis hc => .after popFromPriorityQueue_steady fun _ => strict_end
  | assignTaskToWorker taskId workerId =>
    refine givesBack_connection rfl fun redis hc => .after (getTask_steady hc _) fun task => .ite strict_end ?_
    refine .after systemClock_steady fun now => ?_
    refine .after (hset_steady _ _ _) fun _ => .after (hset_steady _ _ _) fun _ => ?_
    refine .after (hset_steady _ _ _) fun _ => (incrementWorkerLoad_strict hc workerId).bind ?_
    rintro _ _ _ ⟨rfl, rfl⟩
    exact .after (getWorkerLoad_steady hc _) fun load _ _ => strict_end
  | completeTask taskId result =>
    refine givesBack_connection rfl fun redis hc => .after (hget_steady _ hworker) fun workerId => ?_
    refine .after (updateTaskStatus_steady _ _ _) fun _ => .after (hset_steady _ _ _) fun _ => .ite ?_ strict_end
    exact strict_unload hc fun _ _ => strict_end
  | failTask taskId error =>
    refine givesBack_connection rfl fun redis hc => .after (hget_steady _ hworker) fun workerId => ?_
    refine .after (updateTaskStatus_steady _ _ _) fun _ => .ite ?_ strict_end
    exact strict_unload hc fun _ _ => strict_end
  | retryTask taskId =>
    refine givesBack_connection rfl fun redis hc => .after (getTask_steady hc _) fun task => .ite strict_end ?_
    refine .after (hget_steady _ hworker) fun workerId => .ite (strict_unload hc ?_) ?_
    · exact strict_retry hc taskId task.retryCount
    · exact strict_retry hc taskId task.retryCount
  | getTaskRetryCount taskId =>
    exact givesBack_connection rfl fun redis hc => .after (getTask_steady hc _) fun _ => strict_end
  | getTaskStatus taskId =>
    refine givesBack_connection rfl fun redis hc => .after (hget_steady _ (by decide)) fun status => ?_
    refine strict_return (.ite rfl ?_)
    -- the status is converted after the connection was returned
    cases stoi 10 status with
    | error x => exact rfl
    | ok code => exact .ite rfl (.ite rfl (.ite rfl (.ite rfl rfl)))
  | getTaskInfo taskId =>
    exact givesBack_connection rfl fun redis hc => .after (getTask_steady hc _) fun _ => strict_end
  | getQueueSize priority => exact givesBack_getQueueSize priority
  | getTotalQueueSize =>
    refine (givesBack_getQueueSize 2).bind ?_
    rintro high _ reader rfl
    refine (givesBack_getQueueSize 1).bind ?_
    rintro medium _ reader rfl
    refine (givesBack_getQueueSize 0).bind ?_
    rintro low _ reader rfl
    rfl

end Operations

/-! ### The pool -/

section Pool

variable {ι : Type} [DecidableEq ι] (connects : Nat → Attempt) (caller : ι)

/-- The environment of an operation that runs for `caller`: the pool, and the content of Redis with commands of
which any may fail.  A connection is named by its address. -/
def withPool : Semantics Effect Effect.Answer (Keyspace × Lending ι)
  | .getConnection, s, redis, s' => s' = (s.1, s.2.call connects (.getConnection caller)) ∧
      redis = (s.2.pool.getConnection connects).1.map fun conn => ⟨conn, s'.2.pool.heap.isConnected conn⟩
  | .returnConnection redis, s, _, s' => s' = (s.1, s.2.call connects (.returnConnection caller redis.context))
  | e, s, r, s' => s'.2 = s.2 ∧ served True e s.1 r s'.1

variable {connects caller}

/-- What the caller holds, in front of what was held before. -/
def holdings (caller : ι) (held : Option Nat) (L : Lending ι) : List (ι × Address) :=
  (held.map fun conn => (caller, conn)).toList ++ L.held

theorem withPool_kept {L : Lending ι} {held : Option Nat} {e : Effect} {s s' : Keyspace × Lending ι} {r : e.Answer}
    (hallows : borrowing.allows held e) (h : Kept s.2 ∧ s.2.held = holdings caller held L)
    (hs : withPool connects caller e s r s') :
    Kept s'.2 ∧ s'.2.held = holdings caller (borrowing.next held ⟨e, r⟩) L := by
  obtain ⟨hkept, hheld⟩ := h
  cases e with
  | getConnection =>
    obtain ⟨rfl, rfl⟩ := hs
    obtain rfl : held = none := hallows
    refine ⟨hkept.call (c := .getConnection caller) trivial, ?_⟩
    show (s.2.call connects (.getConnection caller)).held = _
    rw [Lending.call]
    generalize s.2.pool.getConnection connects = answer
    obtain ⟨conn, P⟩ := answer
    cases conn with
    | none => exact hheld
    | some conn => exact congrArg ((caller, conn) :: ·) hheld
  | returnConnection redis =>
    obtain rfl := hs
    obtain rfl : held = some redis.context := hallows
    have hmem : (caller, redis.context) ∈ s.2.held := by simp [hheld, holdings]
    have hpermits : s.2.Permits (.returnConnection caller redis.context) := hmem
    refine ⟨@Kept.call ι s.2 _ connects hkept _ hpermits, ?_⟩
    show s.2.held.erase (caller, redis.context) = _
    rw [hheld]
    exact List.erase_cons_head (a := (caller, redis.context)) (l := L.held)
  | _ =>
    obtain ⟨hsame, -⟩ := hs
    rw [hsame]
    exact ⟨hkept, hheld⟩

/-- A connection that was free is connected, if necessary anew. -/
theorem takeFree_connected (slots : List Nat) (P : RedisPool) {client : Address}
    (h : (P.takeFree connects slots).1 = some client) :
    (P.takeFree connects slots).2.heap.isConnected client = true := by
  induction slots generalizing P with
  | nil => cases h
  | cons i rest ih =>
    rw [RedisPool.takeFree] at h ⊢
    split at h
    · rename_i c hclient hfree
      dsimp only at h ⊢
      by_cases hconn : P.heap.isConnected c = true
      · rw [if_pos hconn] at h ⊢
        obtain rfl : c = client := Option.some.inj h
        exact hconn
      · rw [if_neg hconn] at h ⊢
        by_cases hok : (P.heap.connect connects c).1 = true
        · simp only [hok, if_true] at h ⊢
          obtain rfl : c = client := Option.some.inj h
          exact Heap.connected_of_connect hok
        · simp only [hok] at h ⊢
          exact ih _ h
    · exact ih _ h

theorem getConnection_connected {P : RedisPool} {client : Address}
    (h : (P.getConnection connects).1 = some client) :
    (P.getConnection connects).2.heap.isConnected client = true := by
  have htake : (P.takeFree connects (List.range P.pool.length)).1 = some client →
      (P.takeFree connects (List.range P.pool.length)).2.heap.isConnected client = true := takeFree_connected _ P
  rw [RedisPool.getConnection] at h ⊢
  split at h
  · rename_i c P' heq
    rw [heq] at htake
    exact htake h
  · rename_i P' heq
    dsimp only at h ⊢
    by_cases hok : (P'.heap.makeShared.2.connect connects P'.heap.makeShared.1).1 = true
    · rw [if_pos hok] at h ⊢
      obtain rfl : P'.heap.makeShared.1 = client := Option.some.inj h
      exact Heap.connected_of_connect hok
    · rw [if_neg hok] at h
      cases h

theorem withPool_usable {e : Effect} {s s' : Keyspace × Lending ι} {r : e.Answer}
    (hs : withPool connects caller e s r s') : Usable ⟨e, r⟩ := by
  cases e with
  | getConnection =>
    obtain ⟨rfl, rfl⟩ := hs
    rintro conn hconn
    obtain ⟨client, hclient, rfl⟩ := Option.map_eq_some_iff.1 hconn
    have hconnected := getConnection_connected hclient
    show (s.2.call connects (.getConnection caller)).pool.heap.isConnected client = true
    rw [Lending.call]
    generalize s.2.pool.getConnection connects = answer at hclient hconnected
    obtain ⟨c, P⟩ := answer
    cases hclient
    exact hconnected
  | _ => trivial

/-- In every run of an operation, with a pool that any callers have used before and whatever fails, the number of
connections in use is the same before and after exactly when no reply is one that the code cannot convert. -/
theorem connections_kept_iff {α : Type} {p : Code α} (hp : IsOperation p) {poolSize peak : Nat} {heap : Heap}
    {L L' : Lending ι} (hlent : Lent connects ⟨.create connects poolSize heap, []⟩ peak L)
    {w w' : Keyspace} {τ : Trace}
    {o : Except StdException α} (hrun : Run (withPool connects caller) p (w, L) τ o (w', L')) :
    L'.pool.getActiveConnections = L.pool.getActiveConnections ↔
    conversionFails .decrementWorkerLoad τ = false := by
  have hkept : Kept L := (kept_create connects poolSize heap).lent hlent
  have htracks : wp (withPool connects caller) p (fun τ _ s' => Kept s'.2 ∧
      s'.2.held = holdings caller (borrowing.after none τ) L) (w, L) :=
    wp.tracks (I := fun held (s : Keyspace × Lending ι) => Kept s.2 ∧ s.2.held = holdings caller held L)
      withPool_kept hp.borrows
      ⟨hkept, rfl⟩
  obtain ⟨hkept', hheld⟩ := htracks.run hrun
  rw [← hp.givesBack.returns_iff withPool_usable hrun, hkept'.oneHolder.active, hkept.oneHolder.active, hheld]
  cases borrowing.after none τ with
  | none => simp [holdings]
  | some conn => simp [holdings]

end Pool

/-! ### A completion whose `GET` fails -/

/-- Plays an operation with a pool; the commands that `fails` names fail. -/
def answerWithPool (connects : Nat → Attempt) (fails : Command → Bool) :
    (e : Effect) → Keyspace × Lending Unit → Option (e.Answer × (Keyspace × Lending Unit))
  | .getConnection, s =>
    let L := s.2.call connects (.getConnection ())
    some ((s.2.pool.getConnection connects).1.map fun conn => ⟨conn, L.pool.heap.isConnected conn⟩, s.1, L)
  | .returnConnection redis, s => some ((), s.1, s.2.call connects (.returnConnection () redis.context))
  | e, s => (answer fails [] e s.1).map fun r => (r.1, r.2, s.2)

theorem answerWithPool_withPool {connects : Nat → Attempt} {fails : Command → Bool} (e : Effect)
    (s : Keyspace × Lending Unit) (r : e.Answer) (s' : Keyspace × Lending Unit)
    (h : answerWithPool connects fails e s = some (r, s')) : withPool connects () e s r s' := by
  have hserved : ∀ e w r w', answer fails [] e w = some (r, w') → served True e w r w' :=
    answer_served (fun h => absurd rfl h) fun _ _ => trivial
  cases e with
  | getConnection =>
    cases h
    exact ⟨rfl, rfl⟩
  | returnConnection redis =>
    cases h
    rfl
  | _ =>
    have hmap : (answer fails [] _ s.1).map (fun r => (r.1, r.2, s.2)) = some (r, s') := h
    obtain ⟨⟨r', w'⟩, hr, he⟩ := Option.map_eq_some_iff.1 hmap
    cases he
    exact ⟨rfl, hserved _ _ _ _ hr⟩

private def connectsAlways : Nat → Attempt := fun n => .context n false

private def poolOfOne : Lending Unit := ⟨.create connectsAlways 1 ⟨[], 0⟩, []⟩

/-- Task `1` has been submitted and assigned to worker `w`. -/
private def assignOne : Code Bool := do
  let _ ← submitTask { id := bytes "1", type := 0, priority := 1, data := [], createdAt := 0 }
  assignTaskToWorker (bytes "1") (bytes "w")

private def failsGet : Command → Bool
  | .get _ => true
  | _ => false

private theorem completion_played : ∃ w τ o w' L', Run (withPool connectsAlways ())
    (completeTask (bytes "1") ⟨[]⟩) (w, poolOfOne) τ o (w', L') ∧
      L'.pool.getActiveConnections = 1 ∧ conversionFails .decrementWorkerLoad τ = true := by
  have h : ((assignOne.play (answer (fun _ => false) []) ∅).bind fun assigned =>
      ((completeTask (bytes "1") ⟨[]⟩).play (answerWithPool connectsAlways failsGet) (assigned.2.2, poolOfOne)).map
        fun r => (r.2.2.2.pool.getActiveConnections, conversionFails .decrementWorkerLoad r.1)) =
      some (1, true) := by decide +kernel
  obtain ⟨assigned, -, h⟩ := Option.bind_eq_some_iff.1 h
  obtain ⟨⟨τ, o, w', L'⟩, hplay, h⟩ := Option.map_eq_some_iff.1 h
  injection h with hactive hfails
  exact ⟨_, τ, o, w', L', Run.of_play answerWithPool_withPool hplay, hactive, hfails⟩

theorem connection_leaks : ¬∀ (connects : Nat → Attempt) (poolSize peak : Nat) (heap : Heap) (L L' : Lending Unit)
    (p : Code Bool) (w w' : Keyspace) (τ : Trace) (o : Except StdException Bool), IsOperation p →
    Lent connects ⟨.create connects poolSize heap, []⟩ peak L →
    Run (withPool connects ()) p (w, L) τ o (w', L') →
    L'.pool.getActiveConnections = L.pool.getActiveConnections := by
  intro h
  obtain ⟨w, τ, o, w', L', hrun, hactive, -⟩ := completion_played
  have hsame := h _ 1 _ ⟨[], 0⟩ poolOfOne L' _ w w' τ o (.completeTask _ _) .start hrun
  rw [hactive] at hsame
  exact absurd hsame (by decide)

/-- The connection of a completion whose `GET` fails stays in use. -/
theorem connections_kept_iff_completion : ∃ w τ o w' L', Run (withPool connectsAlways ())
    (completeTask (bytes "1") ⟨[]⟩) (w, poolOfOne) τ o (w', L') ∧
    conversionFails .decrementWorkerLoad τ = true ∧
      (L'.pool.getActiveConnections = poolOfOne.pool.getActiveConnections ↔
        conversionFails .decrementWorkerLoad τ = false) := by
  obtain ⟨w, τ, o, w', L', hrun, -, hfails⟩ := completion_played
  exact ⟨w, τ, o, w', L', hrun, hfails, connections_kept_iff (.completeTask _ _) .start hrun⟩

end Pooling

end Taskflow
