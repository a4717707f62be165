import Taskflow.HandOverSteps
import Taskflow.Lib.Executions

/-!
# Exactly-once hand-over of tasks

Outlines of `submitTask` and of an iteration of `taskDispatchLoop`: each of their commands, issued in any state
that the other threads left, keeps `Inv`.  So `Inv` holds in every interleaving, and a task whose submission
returned `true` is waiting in one list, in the hands of one loop, or dispatched, and never two of these
(`handed_over_exactly_once`).
-/

namespace Taskflow

open Text Effects Prog

variable {σ δ : Type} [DecidableEq σ] [DecidableEq δ] {W : Workload σ} {t : σ ⊕ δ} {β : Type}
  {Q : β → Note → Prop} {g : Note} {redis : RedisClient}

/-- The outline of a program in the system of submitters and dispatch loops. -/
abbrev HandsOver (W : Workload σ) (t : σ ⊕ δ) (Q : β → Note → Prop) (p : Code β) (g : Note) : Prop :=
  Outline (dispatchSystem σ δ) (Inv W) t Q p g

/-! ### Effects that move no task -/

theorem HandsOver.quiet {e : Effect} {k : e.Answer → Code β} {A : e.Answer → Prop}
    (ho : ∀ r, observe g ⟨e, r⟩ = g) (hs : ∀ w r w', served False e w r w' → w' = w ∧ A r)
    (hk : ∀ r, A r → HandsOver W t Q (k r) g) : HandsOver W t Q (.call e k) g := by
  refine Outline.skip ho ?_ hk
  intro w n r w' hI hsem
  obtain ⟨rfl, hr⟩ := hs w r w' hsem
  exact ⟨hI, hr⟩

theorem HandsOver.connection {k : Option RedisClient → Code β}
    (hk : ∀ redis, redis.connected = true → HandsOver W t Q (k (some redis)) g) :
    HandsOver W t Q (.call .getConnection k) g := by
  refine HandsOver.quiet (A := fun r => ∃ redis, r = some redis ∧ redis.connected = true) (fun _ => rfl) ?_ ?_
  · rintro w r w' ⟨rfl, hconn, hnone⟩
    refine ⟨rfl, ?_⟩
    cases r with
    | none => exact (hnone rfl).elim
    | some redis => exact ⟨redis, rfl, hconn redis rfl⟩
  · rintro _ ⟨redis, rfl, hredis⟩
    exact hk redis hredis

theorem HandsOver.unchanged {e : Effect} {k : e.Answer → Code β} (ho : ∀ r, observe g ⟨e, r⟩ = g)
    (hs : ∀ w r w', served False e w r w' → w' = w) (hk : ∀ r, HandsOver W t Q (k r) g) :
    HandsOver W t Q (.call e k) g :=
  HandsOver.quiet (A := fun _ => True) ho (fun w r w' h => ⟨hs w r w' h, trivial⟩) (fun r _ => hk r)

theorem HandsOver.returnConnection {k : Unit → Code β} (hk : HandsOver W t Q (k ()) g) :
    HandsOver W t Q (.call (.returnConnection redis) k) g :=
  HandsOver.unchanged (fun _ => rfl) (fun _ _ _ h => h) (fun _ => hk)

/-- Commands on keys of neither records nor queues. -/
theorem HandsOver.foreign {c : Nat} {cmd : Command} {k : Option Reply → Code β}
    (ho : ∀ r, observe g ⟨.command c cmd, r⟩ = g) (hq : ∀ q ∈ queueKeys, cmd.key ≠ q)
    (hi : ∀ i, cmd.key ≠ taskKey i)
    (hk : ∀ r, HandsOver W t Q (k r) g) : HandsOver W t Q (.call (.command c cmd) k) g := by
  refine Outline.skip (A := fun _ => True) ho ?_ (fun r _ => hk r)
  intro w n r w' hI hs
  obtain ⟨-, rfl, -⟩ := @served_command c cmd w r w' hs
  exact ⟨hI.frame (fun q hm => exec_frame cmd w (hq q hm)) (fun i => exec_frame cmd w (hi i)), trivial⟩

/-- A command that succeeds: what is left to show is that its effect keeps the invariant. -/
theorem HandsOver.served {c : Nat} {cmd : Command} {k : Option Reply → Code β}
    (h : ∀ w n, Inv W w n → n t = g → (exec cmd w).1.isError = false →
      Inv W (exec cmd w).2 (Function.update n t (observe g ⟨.command c cmd, some (exec cmd w).1⟩)) ∧
        HandsOver W t Q (k (some (exec cmd w).1)) (observe g ⟨.command c cmd, some (exec cmd w).1⟩)) :
    HandsOver W t Q (.call (.command c cmd) k) g := by
  intro w n r w' hI hn hs
  obtain ⟨rfl, rfl, hok⟩ := @served_command c cmd w r w' hs
  exact h w n hI hn hok

theorem HandsOver.declareTaskInfo : HandsOver W t (fun _ g' => g' = g) declareTaskInfo g :=
  HandsOver.unchanged (fun _ => rfl) (fun _ _ _ h => h) (fun _ => rfl)

theorem HandsOver.ofExcept {x : Except StdException β} (h : ∀ b, Q b g) : HandsOver W t Q (ofExcept x) g := by
  cases x with
  | ok b => exact h b
  | error e => trivial

/-! ### Submitting -/

section Submitting

variable {s : σ}

theorem HandsOver.saveTask {task : TaskInfo} (hc : redis.connected = true) (hid : task.id = (W.request s).id)
    (hp : task.priority = (W.request s).priority) (hs : task.status = 0) :
    HandsOver (δ := δ) W (.inl s) (fun _ g => g = .saved) (redis.saveTask task) .idle := by
  have hrec := recordFields_record task
  have hpend : Pending (W.request s).priority (bytes "0") (recordFields task) := by
    refine ⟨hp ▸ hrec, ?_, recordFields_worker task⟩
    apply recordFields_of_mem
    have hzero : decimal task.status.toInt = bytes "0" := by rw [hs]; decide
    rw [← hzero]
    simp [recordEntries]
  rw [RedisClient.saveTask, hmset_eq hc _ hrec.isEmpty]
  apply HandsOver.served
  intro w n hI hn hok
  have hplace := hI.places s
  rw [hn] at hplace
  have hfree : w[taskKey task.id]? = none := by rw [hid]; exact hplace.1
  have hnote : observe .idle ⟨.command redis.context (.hmset (taskKey task.id) (recordFields task).toList),
      some (exec (.hmset (taskKey task.id) (recordFields task).toList) w).1⟩ = .saved := by
    simp [observe, succeeded, hok]
  rw [hnote, exec_hmset hfree, hid]
  exact ⟨hI.saved hn hpend, rfl⟩

theorem HandsOver.pushSubmitted (hc : redis.connected = true) :
    HandsOver (δ := δ) W (.inl s) (fun _ g => g = .pushed)
      (redis.pushToPriorityQueue (W.request s).priority (W.request s).id) .saved := by
  have hq := queueOf_mem (W.request s).priority
  rw [RedisClient.pushToPriorityQueue, rpush_eq hc, cStr_queue hq, cStr_of_noNul (W.valid s).noNul]
  apply HandsOver.served
  intro w n hI hn hok
  have hnote : observe .saved ⟨.command redis.context (.rpush (queueOf (W.request s).priority) (W.request s).id),
      some (exec (.rpush (queueOf (W.request s).priority) (W.request s).id) w).1⟩ = .pushed := by
    simp [observe, succeeded, hok]
  rw [hnote]
  exact ⟨hI.submitted hn (appended_rpush hq (hI.queues _ hq)), rfl⟩

theorem HandsOver.submitTask :
    HandsOver (δ := δ) W (.inl s) (fun ok g => ok = true → g = .pushed) (submitTask (W.request s)) .idle := by
  rw [Taskflow.submitTask, getConnection_bind]
  apply HandsOver.connection
  intro redis hc
  refine Outline.bind HandsOver.declareTaskInfo ?_
  rintro declared g rfl
  refine Outline.bind (HandsOver.saveTask hc rfl rfl rfl) ?_
  rintro saved g rfl
  cases saved with
  | false => exact HandsOver.returnConnection (fun h => nomatch h)
  | true =>
    refine Outline.bind (HandsOver.pushSubmitted hc) ?_
    rintro pushed g rfl
    cases pushed with
    | false => exact HandsOver.returnConnection (fun h => nomatch h)
    | true => exact HandsOver.returnConnection (fun _ => rfl)

theorem HandsOver.submitThread :
    HandsOver (δ := δ) W (.inl s) (fun r g => r = .submitted true → g = .pushed)
      (submitThread (W.request s)) .idle := by
  refine Outline.bind HandsOver.submitTask ?_
  intro ok g hg hr
  have hok : ok = true := by injection hr
  exact hg hok

end Submitting

/-! ### Dispatching -/

section Dispatching

variable {d : δ} {i : Bytes}

theorem HandsOver.lpop {q : Bytes} (hc : redis.connected = true) (hq : q ∈ queueKeys) :
    HandsOver W (.inr d) (fun i g => (i = [] ∧ g = .idle) ∨ (ValidId i ∧ g = .holding i false)) (redis.lpop q)
      .idle := by
  rw [lpop_eq hc, cStr_queue hq]
  apply HandsOver.served
  intro w n hI hn _
  rcases exec_lpop (hI.queues q hq) with ⟨x, hr, hitems, hqueue⟩ | ⟨hr, hw, -⟩
  · have hvalid : ValidId x := hI.items q hq x (by rw [hitems]; exact List.mem_cons_self)
    have hnote : observe .idle ⟨.command redis.context (.lpop q),
        some (exec (.lpop q) w).1⟩ = .holding x false := by
      simp [observe, replyText, hr, hvalid.nonempty]
    have htaken : Taken w (exec (.lpop q) w).2 q x :=
      ⟨hq, fun _ hne => exec_frame _ w hne, hqueue, hitems⟩
    rw [hnote]
    refine ⟨hI.popped hn htaken, ?_⟩
    show (_ ∨ _)
    rw [hr]
    exact Or.inr ⟨hvalid, rfl⟩
  · have hnote : observe .idle ⟨.command redis.context (.lpop q), some (exec (.lpop q) w).1⟩ = .idle := by
      simp [observe, replyText, hr]
    rw [hnote, hw, ← hn, Function.update_eq_self, hn]
    refine ⟨hI, ?_⟩
    show (_ ∨ _)
    rw [hr]
    exact Or.inl ⟨rfl, rfl⟩

theorem HandsOver.popNextTask :
    HandsOver W (.inr d) (fun i g => (i = [] ∧ g = .idle) ∨
      (ValidId i ∧ g = .holding i false)) popNextTask .idle := by
  rw [Taskflow.popNextTask, getConnection_bind]
  apply HandsOver.connection
  intro redis hc
  have hpop : HandsOver W (.inr d) (fun i g => (i = [] ∧ g = .idle) ∨ (ValidId i ∧ g = .holding i false))
      redis.popFromPriorityQueue .idle := by
    refine Outline.bind (HandsOver.lpop hc (by simp [queueKeys])) ?_
    rintro i g (⟨rfl, rfl⟩ | ⟨hi, rfl⟩)
    · refine Outline.bind (HandsOver.lpop hc (by simp [queueKeys])) ?_
      rintro i g (⟨rfl, rfl⟩ | ⟨hi, rfl⟩)
      · exact HandsOver.lpop hc (by simp [queueKeys])
      · simpa [hi.nonempty] using hi
    · simpa [hi.nonempty] using hi
  refine Outline.bind hpop ?_
  intro i g hg
  exact HandsOver.returnConnection hg

theorem HandsOver.getTask (hc : redis.connected = true) (hi : ValidId i) :
    HandsOver W (.inr d) (fun task g => g = .holding i false ∧ task.id = i ∧
      ∀ s, (W.request s).id = i → task.priority = (W.request s).priority) (redis.getTask i) (.holding i false) := by
  refine Outline.bind HandsOver.declareTaskInfo ?_
  rintro declared g rfl
  rw [hgetall_eq hc, cStr_taskKey hi.noNul, call_bind]
  apply HandsOver.served
  intro w n hI hn hok
  -- the record of the task in hand has been stored, with its own priority
  have hrecord : ∀ s, (W.request s).id = i →
      ∃ f, w[taskKey i]? = some (.hash f) ∧ TaskRecord (W.request s).priority f := by
    intro s hid
    obtain ⟨-, -, -, f, hf, hrec, -⟩ := hI.holder hn hid
    exact ⟨f, hf, hrec⟩
  have hnote : observe (.holding i false) ⟨.command redis.context (.hgetall (taskKey i)),
      some (exec (.hgetall (taskKey i)) w).1⟩ = .holding i false := rfl
  rw [hnote, exec_hgetall, ← hn, Function.update_eq_self, hn, ret_bind]
  refine ⟨hI, ?_⟩
  cases hw : w[taskKey i]? with
  | none =>
    have hnone : ∀ s, (W.request s).id ≠ i := by
      intro s hid
      obtain ⟨f, hf, -⟩ := hrecord s hid
      exact absurd (hw.symm.trans hf) (by simp)
    have hfields : replyFields (some (exec (.hgetall (taskKey i)) w).1) = ∅ := by
      simp [exec, hw, replyFields, pairElements]
    rw [hfields]
    exact ⟨rfl, rfl, fun s hid => absurd hid (hnone s)⟩
  | some v =>
    cases v with
    -- a key with another value answers with an error
    | string b => simp [exec, hw, Reply.isError] at hok
    | list l => simp [exec, hw, Reply.isError] at hok
    | hash h =>
      have hfield : ∀ s, (W.request s).id = i → TaskRecord (W.request s).priority h := by
        intro s hid
        obtain ⟨f, hf, hrec⟩ := hrecord s hid
        have he : h = f := by
          rw [hw] at hf
          injection hf with hf
          injection hf
        exact he ▸ hrec
      rw [replyFields_hgetall hw]
      split
      · rename_i hempty
        refine ⟨rfl, rfl, fun s hid => ?_⟩
        rw [(hfield s hid).isEmpty] at hempty
        cases hempty
      · cases hread : readFields { declared with id := i } h with
        | error e => trivial
        | ok task =>
          refine ⟨rfl, readFields_id hread, fun s hid => ?_⟩
          obtain ⟨task', hread', -, hp, -⟩ := (hfield s hid).readFields { declared with id := i }
          rw [hread] at hread'
          injection hread' with he
          rw [he, hp]

private theorem hset_record {w : Keyspace} {f : StringMap Bytes} {field value : Bytes}
    (hw : w[taskKey i]? = some (.hash f)) :
    (exec (.hset (taskKey i) field value) w).2[taskKey i]? = some (.hash (f.insert field value)) := by
  rw [exec_hset hw]
  simp

theorem HandsOver.hsetStatus (hc : redis.connected = true) (hi : ValidId i) :
    HandsOver W (.inr d) (fun _ g => g = .holding i true)
      (redis.hset (taskKey i) (bytes "status") (bytes "1")) (.holding i false) := by
  rw [hset_eq hc, cStr_taskKey hi.noNul, cStr_bytes (by decide), cStr_bytes (by decide)]
  apply HandsOver.served
  intro w n hI hn hok
  have hnote : observe (.holding i false) ⟨.command redis.context (.hset (taskKey i) (bytes "status") (bytes "1")),
      some (exec (.hset (taskKey i) (bytes "status") (bytes "1")) w).1⟩ = .holding i true := by
    simp [observe, succeeded, hok]
  rw [hnote]
  exact ⟨hI.marked hn (fun _ ha => exec_frame _ w ha) (fun _ hf => hset_record hf), rfl⟩

theorem HandsOver.hsetWorker {v : Bytes} (hc : redis.connected = true) (hi : ValidId i) (hv : ValidId v) :
    HandsOver W (.inr d) (fun _ g => g = .assigned i) (redis.hset (taskKey i) (bytes "worker_id") v)
      (.holding i true) := by
  rw [hset_eq hc, cStr_taskKey hi.noNul, cStr_bytes (by decide), cStr_of_noNul hv.noNul]
  apply HandsOver.served
  intro w n hI hn hok
  have hne : bytes "worker_id" ≠ bytes "status" := by decide
  have hnote : observe (.holding i true) ⟨.command redis.context (.hset (taskKey i) (bytes "worker_id") v),
      some (exec (.hset (taskKey i) (bytes "worker_id") v) w).1⟩ = .assigned i := by
    simp [observe, succeeded, hok, hne]
  rw [hnote]
  exact ⟨hI.assigned hn hv.nonempty (fun _ ha => exec_frame _ w ha) (fun _ hf => hset_record hf), rfl⟩

theorem HandsOver.hsetStarted {now : Int64} (hc : redis.connected = true) (hi : ValidId i) :
    HandsOver W (.inr d) (fun _ g => g = .assigned i)
      (redis.hset (taskKey i) (bytes "started_at") (decimal now.toInt)) (.assigned i) := by
  rw [hset_eq hc, cStr_taskKey hi.noNul, cStr_bytes (by decide), cStr_of_noNul (noNul_decimal _)]
  apply HandsOver.served
  intro w n hI hn _
  have hnote : observe (.assigned i) ⟨.command redis.context (.hset (taskKey i) (bytes "started_at")
      (decimal now.toInt)), some (exec (.hset (taskKey i) (bytes "started_at") (decimal now.toInt)) w).1⟩ =
      .assigned i := rfl
  rw [hnote, ← hn, Function.update_eq_self]
  exact ⟨hI.started hn (fun _ ha => exec_frame _ w ha) (fun _ hf => hset_record hf), rfl⟩

/-- The worker's counter is neither a record nor a list. -/
theorem HandsOver.countWorker {c : Nat} {cmd : Command} {k : Option Reply → Code β} {v : Bytes} (hv : ValidId v)
    (ho : ∀ r, observe g ⟨.command c cmd, r⟩ = g) (hkey : cmd.key = cStr (workerLoadKey v))
    (hk : ∀ r, HandsOver W t Q (k r) g) : HandsOver W t Q (.call (.command c cmd) k) g := by
  rw [cStr_workerLoadKey hv.noNul] at hkey
  apply HandsOver.foreign ho ?_ ?_ hk
  · exact fun q hq => hkey ▸ workerLoadKey_ne_queue hq v
  · exact fun i => hkey ▸ workerLoadKey_ne_taskKey v i

theorem HandsOver.incrementWorkerLoad {v : Bytes} (hc : redis.connected = true) (hv : ValidId v) :
    HandsOver W t (fun _ g' => g' = g) (redis.incrementWorkerLoad v) g := by
  rw [RedisClient.incrementWorkerLoad, incr_eq hc]
  exact HandsOver.countWorker hv (fun _ => rfl) rfl (fun _ => rfl)

theorem HandsOver.getWorkerLoad {v : Bytes} (hc : redis.connected = true) (hv : ValidId v) :
    HandsOver W t (fun _ g' => g' = g) (redis.getWorkerLoad v) g := by
  rw [RedisClient.getWorkerLoad, get_eq hc]
  exact HandsOver.countWorker hv (fun _ => rfl) rfl (fun _ => HandsOver.ofExcept (fun _ => rfl))

theorem HandsOver.assignTaskToWorker {v : Bytes} (hi : ValidId i) (hv : ValidId v) :
    HandsOver W (.inr d) (fun _ g => g = .assigned i) (assignTaskToWorker i v) (.holding i false) := by
  rw [Taskflow.assignTaskToWorker, getConnection_bind]
  apply HandsOver.connection
  intro redis hc
  refine Outline.bind (HandsOver.getTask hc hi) ?_
  rintro task g ⟨rfl, hid, -⟩
  rw [if_neg (by simp [hid, hi.nonempty]), systemClock_bind]
  refine HandsOver.unchanged (fun _ => rfl) (fun _ _ _ h => h) ?_
  intro now
  refine Outline.bind (HandsOver.hsetStatus hc hi) ?_
  rintro _ g rfl
  refine Outline.bind (HandsOver.hsetWorker hc hi hv) ?_
  rintro _ g rfl
  refine Outline.bind (HandsOver.hsetStarted hc hi) ?_
  rintro _ g rfl
  refine Outline.bind (HandsOver.incrementWorkerLoad hc hv) ?_
  rintro _ g rfl
  refine Outline.bind (HandsOver.getWorkerLoad hc hv) ?_
  rintro load g rfl
  refine HandsOver.unchanged (fun _ => rfl) (fun _ _ _ h => h) ?_
  intro _
  exact HandsOver.returnConnection rfl

/-- The loop found no worker and pushes the task back. -/
theorem HandsOver.requeue {p : Int32} (hc : redis.connected = true) (hi : ValidId i)
    (hp : ∀ s, (W.request s).id = i → p = (W.request s).priority) :
    HandsOver W (.inr d) (fun _ g => g = .pushed) (redis.pushToPriorityQueue p i) (.holding i false) := by
  have hq := queueOf_mem p
  rw [RedisClient.pushToPriorityQueue, rpush_eq hc, cStr_queue hq, cStr_of_noNul hi.noNul]
  apply HandsOver.served
  intro w n hI hn hok
  have hnote : observe (.holding i false) ⟨.command redis.context (.rpush (queueOf p) i),
      some (exec (.rpush (queueOf p) i) w).1⟩ = .pushed := by
    simp [observe, succeeded, hok]
  rw [hnote]
  exact ⟨hI.requeued hn (appended_rpush hq (hI.queues _ hq)) hp, rfl⟩

theorem HandsOver.taskDispatchIteration :
    HandsOver W (.inr d) (fun _ g => g.held = none) taskDispatchIteration .idle := by
  refine Outline.bind HandsOver.popNextTask ?_
  rintro i g (⟨rfl, rfl⟩ | ⟨hi, rfl⟩)
  · exact rfl
  rw [if_neg (by simp [hi.nonempty]), selectWorker_bind]
  refine HandsOver.quiet (A := fun v => v ≠ [] → ValidId v) (fun _ => rfl) (fun _ _ _ h => h) ?_
  intro v hv
  by_cases hnone : v = []
  · subst hnone
    rw [if_pos List.isEmpty_nil, getConnection_bind]
    apply HandsOver.connection
    intro redis hc
    refine Outline.bind (HandsOver.getTask hc hi) ?_
    rintro task g ⟨rfl, hid, hp⟩
    rw [if_pos (by simp [hid, hi.nonempty])]
    refine Outline.bind (HandsOver.requeue hc hi hp) ?_
    rintro _ g rfl
    exact HandsOver.returnConnection rfl
  · rw [if_neg (by simpa using hnone)]
    refine Outline.bind (HandsOver.assignTaskToWorker hi (hv hnone)) ?_
    rintro _ g rfl
    exact rfl

theorem HandsOver.dispatchThread :
    HandsOver W (.inr d) (fun _ g => g.held = none) dispatchThread .idle := by
  refine Outline.bind HandsOver.taskDispatchIteration ?_
  intro _ g hg
  exact hg

end Dispatching

/-! ### Every interleaving -/

/-- How the threads may end: an accepted task has been pushed, and a loop ends its iteration holding nothing. -/
def Ended : σ ⊕ δ → ThreadResult → Note → Prop
  | .inl _, r, g => r = .submitted true → g = .pushed
  | .inr _, _, g => g.held = none

omit [DecidableEq σ] [DecidableEq δ] in
theorem Workload.start_inv (W : Workload σ) : Inv W (W.start δ).world (W.start δ).notes := by
  refine ⟨W.queues, fun q hq x hx => (W.items q hq x hx).1, ?_, ?_⟩
  · intro d i hi
    have hnone : (Note.idle).task = some i := hi
    cases hnone
  · intro s
    refine ⟨W.fresh s, ?_, fun d hd => by cases hd⟩
    rw [occurrences_eq_zero]
    intro q hq hmem
    exact (W.items q hq _ hmem).2 s rfl

theorem Workload.start_outlined (W : Workload σ) : Outlined (dispatchSystem σ δ) (Inv W) Ended (W.start δ) := by
  constructor
  · exact W.start_inv
  · rintro (s | d)
    · exact HandsOver.submitThread
    · exact HandsOver.dispatchThread
  · rintro (s | d) body hb
    · cases hb
    · obtain rfl : Taskflow.dispatchThread = body := Option.some.inj hb
      exact HandsOver.dispatchThread
  · rintro (s | d) a w n hagain hI hended
    · cases hagain
    · exact hI.released hended

/-- (a) The id waits once in the three lists, in the one that its stored priority chooses, with status 0. -/
def Waiting (w : Keyspace) (i : Bytes) : Prop :=
  occurrences w i = 1 ∧ ∃ h, w[taskKey i]? = some (.hash h) ∧ h[bytes "status"]? = some (bytes "0") ∧
    ∃ p : Int32, h[bytes "priority"]? = some (decimal p.toInt) ∧ i ∈ queueItems w (queueOf p)

/-- (b) Exactly one dispatch loop has popped the id and neither pushed it back nor stored status and worker; the id
is in no list. -/
def InHand (P : Pool (σ ⊕ δ) Effect Effect.Answer StdException ThreadResult Keyspace Note) (i : Bytes) : Prop :=
  (∃! d, (P.thread (.inr d)).note.held = some i) ∧ occurrences P.world i = 0

/-- (c) Status 1 and a worker are stored; the id is in no list. -/
def Dispatched (w : Keyspace) (i : Bytes) : Prop :=
  occurrences w i = 0 ∧ ∃ h, w[taskKey i]? = some (.hash h) ∧ h[bytes "status"]? = some (bytes "1") ∧
    ∃ v, v ≠ [] ∧ h[bytes "worker_id"]? = some v

/-- In every state that submitters and dispatch loops can reach, a task whose submission has returned `true` is in
exactly one of the three situations. -/
theorem handed_over_exactly_once {P : Pool (σ ⊕ δ) Effect Effect.Answer StdException ThreadResult Keyspace Note}
    (hr : Reachable (dispatchSystem σ δ) (W.start δ) P) {s : σ}
    (hs : (P.thread (.inl s)).prog = .ret (.submitted true)) :
    let i := (W.request s).id
    (Waiting P.world i ∧ ¬InHand P i ∧ ¬Dispatched P.world i) ∨
      (¬Waiting P.world i ∧ InHand P i ∧ ¬Dispatched P.world i) ∨
        (¬Waiting P.world i ∧ ¬InHand P i ∧ Dispatched P.world i) := by
  intro i
  have hout := W.start_outlined.reachable hr
  have hplace : TaskInv i _ _ _ _ := hout.inv.places s
  have hpushed : P.notes (.inl s) = .pushed := by
    have hended := hout.threads (.inl s)
    rw [hs] at hended
    exact hended rfl
  rw [hpushed] at hplace
  -- one place each; `occurrences` and the stored worker exclude the other two
  rcases hplace with ⟨⟨h, hh, hrec, h0, hw⟩, ho, hin, hu⟩ | ⟨d, marked, hd, hone, ho, h, hh, hrec, -, hw⟩ |
    ⟨⟨h, hh, hrec, h1, v, hv, hw⟩, ho, hu⟩
  · refine Or.inl ⟨⟨ho, h, hh, h0, _, hrec.priority, hin⟩, ?_, ?_⟩
    · rintro ⟨-, hzero⟩
      omega
    · rintro ⟨hzero, -⟩
      omega
  · refine Or.inr (Or.inl ⟨?_, ⟨⟨d, ?_, hone⟩, ho⟩, ?_⟩)
    · rintro ⟨hone, -⟩
      omega
    · show ((P.notes (.inr d)).held = some i)
      rw [show P.notes (.inr d) = _ from hd]
      rfl
    · rintro ⟨-, h', hh', -, v, -, hv⟩
      rw [hh] at hh'
      injection hh' with he
      injection he with he
      rw [← he, hw] at hv
      cases hv
  · refine Or.inr (Or.inr ⟨?_, ?_, ho, h, hh, h1, v, hv, hw⟩)
    · rintro ⟨hone, -⟩
      omega
    · rintro ⟨⟨d, hd, -⟩, -⟩
      exact hu d hd

def twoRequests (second : Bool) : TaskRequest :=
  { id := if second then bytes "2" else bytes "1", type := 0, priority := 1, data := [], createdAt := 0 }

private theorem twoRequests_valid (second : Bool) : ValidId (twoRequests second).id := by
  cases second with
  | false => exact ⟨by decide, by decide⟩
  | true => exact ⟨by decide, by decide⟩

private theorem twoRequests_distinct : Function.Injective fun second => (twoRequests second).id := by
  have hne : (twoRequests false).id ≠ (twoRequests true).id := by decide
  intro second second' h
  cases second with
  | false =>
    cases second' with
    | false => rfl
    | true => exact absurd h hne
  | true =>
    cases second' with
    | false => exact absurd h.symm hne
    | true => rfl

private theorem empty_queues (q : Bytes) (_ : q ∈ queueKeys) : IsQueue ∅ q := by
  intro v hv
  simp at hv

private theorem empty_items (q : Bytes) (_ : q ∈ queueKeys) (x : Bytes) (hx : x ∈ queueItems ∅ q) :
    ValidId x ∧ ∀ second, x ≠ (twoRequests second).id := by
  simp [queueItems] at hx

private theorem empty_fresh (second : Bool) : (∅ : Keyspace)[taskKey (twoRequests second).id]? = none := by simp

/-- Two tasks of one priority, submitted to an empty Redis. -/
def twoTasks : Workload Bool :=
  ⟨twoRequests, ∅, twoRequests_valid, twoRequests_distinct, empty_queues, empty_items, empty_fresh⟩

private def noteAndResult (t : Thread Effect Effect.Answer StdException ThreadResult Note) :
    Note × Option ThreadResult :=
  (t.note, match t.prog with
    | .ret r => some r
    | _ => none)

private theorem ret_of_noteAndResult {t : Thread Effect Effect.Answer StdException ThreadResult Note} {note : Note}
    {r : ThreadResult} (h : noteAndResult t = (note, some r)) : t.prog = .ret r := by
  obtain ⟨-, hr⟩ := Prod.mk.inj h
  split at hr
  · rename_i r' hp
    rw [hp, Option.some.inj hr]
  · cases hr

/-- Both tasks are submitted, one loop gives `1` the worker `w`, and the other one pops `2`. -/
private theorem twoTasks_played :
    ((twoTasks.start Bool).play (dispatchSystem Bool Bool) (fun _ _ _ _ => true)
      (answer (fun _ => false) (bytes "w"))
      (List.replicate 5 (.inl false) ++ List.replicate 5 (.inl true) ++ List.replicate 11 (.inr false) ++
        List.replicate 3 (.inr true))).map (fun run => (noteAndResult (run.2.thread (.inl false)),
          noteAndResult (run.2.thread (.inl true)), (run.2.thread (.inr false)).note,
          (run.2.thread (.inr true)).note, occurrences run.2.world (bytes "1"),
          occurrences run.2.world (bytes "2"))) =
      some ((.pushed, some (.submitted true)), (.pushed, some (.submitted true)), .assigned (bytes "1"),
        .holding (bytes "2") false, 0, 0) := by
  decide +kernel

/-- Two loops share the tasks: `1` is dispatched, and `2` in the hands of the second loop. -/
theorem handed_over_after_submission :
    ∃ P, Reachable (dispatchSystem Bool Bool) (twoTasks.start Bool) P ∧
      (P.thread (.inl false)).prog = .ret (.submitted true) ∧ (P.thread (.inl true)).prog = .ret (.submitted true) ∧
      (¬Waiting P.world (bytes "1") ∧ ¬InHand P (bytes "1") ∧ Dispatched P.world (bytes "1")) ∧
      (¬Waiting P.world (bytes "2") ∧ InHand P (bytes "2") ∧ ¬Dispatched P.world (bytes "2")) := by
  obtain ⟨⟨τ, P⟩, hplay, h⟩ := Option.map_eq_some_iff.1 twoTasks_played
  simp only [Prod.mk.injEq] at h
  obtain ⟨hfirst, hsecond, hloop, hloop', hzero, hzero'⟩ := h
  have hanswer : ∀ e w r w', answer (fun _ => false) (bytes "w") e w = some (r, w') →
      (dispatchSystem Bool Bool).sem e w r w' :=
    answer_served (fun _ => ⟨by decide, by decide⟩) (fun _ h => Bool.noConfusion h)
  have hr := (Execution.start.play (S := dispatchSystem Bool Bool) hanswer hplay).reachable
  have hret := ret_of_noteAndResult hfirst
  have hret' := ret_of_noteAndResult hsecond
  have hne : bytes "2" ≠ bytes "1" := by decide
  have hnotHeld : ¬InHand P (bytes "1") := by
    rintro ⟨⟨d, hd, -⟩, -⟩
    cases d with
    | false =>
      rw [hloop] at hd
      cases hd
    | true =>
      rw [hloop'] at hd
      exact hne (Option.some.inj hd)
  have hheld : InHand P (bytes "2") := by
    refine ⟨⟨true, by dsimp only; rw [hloop']; rfl, fun d hd => ?_⟩, hzero'⟩
    cases d with
    | false =>
      rw [hloop] at hd
      cases hd
    | true => rfl
  refine ⟨P, hr, hret, hret', ?_, ?_⟩
  · rcases handed_over_exactly_once (s := false) hr hret with h | h | h
    · exact absurd (h.1.1.symm.trans hzero) (by decide)
    · exact absurd h.2.1 hnotHeld
    · exact h
  · rcases handed_over_exactly_once (s := true) hr hret' with h | h | h
    · exact absurd (h.1.1.symm.trans hzero') (by decide)
    · exact h
    · exact absurd hheld h.2.1

end Taskflow
