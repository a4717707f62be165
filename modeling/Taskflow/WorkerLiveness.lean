import Taskflow.Lib.BitFields
import Taskflow.WorkerSelection

/-!
# Workers marked dead

Three threads decide whether a worker counts as alive: the main loop lists the registered workers
(`updateWorkers`), the workers call `Heartbeat`, and `workerCheckLoop` marks dead the workers that its copy of the
table shows as silent.  A mark is only undone by leaving and joining again (`listed_active_iff`), and it may hit a
worker that was heard of after the copy was made, or through `Heartbeat`, which the check does not look at
(`informed_marks_stale`).
-/

namespace Taskflow

open Text History

namespace WorkerEntry

/-! ### The status of a worker -/

/-- A known worker keeps its status however often it is listed, a new one is active. -/
theorem listAll_status {workerId : Bytes} {e : WorkerEntry} {services : List (ServiceInfo × Int64)} (now : Int)
    (hlisted : listed services workerId = true) :
    (e.listAll workerId services now).node.map (·.status) =
      some ((e.node.map (·.status)).getD LoadBalancer.active) :=
  listAll_member (fun _ _ => rfl) (fun _ _ _ => rfl) hlisted

end WorkerEntry

namespace LoadBalancer

open WorkerEntry

theorem dead_ne_active : dead ≠ active := by decide

/-- The calls after which the worker is not registered. -/
def leaves (workerId : Bytes) : BalancerOp → Bool
  | .removeWorker id => id = workerId
  | .updateWorkers services => !listed services workerId
  | _ => false

def marksDead (workerId : Bytes) : BalancerOp → Bool
  | .markWorkerDead id => id = workerId
  | _ => false

section Marks

variable (sort : StdSort) (strategy workerId : Bytes)

/-- The `markWorkerDead` calls that found the worker registered, since it last left. -/
def marks : List (Timed BalancerOp) → Nat :=
  countSince (fun call h => marksDead workerId call.op && (afterCalls sort strategy h).workers[workerId]?.isSome)
    fun call _ => leaves workerId call.op

/-- What the marks say of the node of a worker. -/
def Marked (count : Nat) : Option WorkerNode → Prop
  | none => count = 0
  | some node => node.status = active ↔ count = 0

end Marks

section

variable {sort : StdSort} {strategy workerId : Bytes} {h : List (Timed BalancerOp)} {e : WorkerEntry}

theorem Marked.status {count : Nat} {node node' : Option WorkerNode} (hm : Marked count node)
    (hs : node'.map (·.status) = node.map (·.status)) : Marked count node' := by
  cases node with
  | none =>
    cases node' with
    | none => exact hm
    | some n => cases hs
  | some m =>
    cases node' with
    | none => cases hs
    | some n =>
      have hstatus : n.status = m.status := Option.some.inj hs
      show n.status = active ↔ count = 0
      rw [hstatus]
      exact hm

private theorem Marked.ask {count : Nat} {now : Int} (hm : Marked count e.node) :
    Marked count (e.ask now).2.node := by
  unfold WorkerEntry.ask
  split
  · exact hm
  · exact hm

/-- A call that neither marks the worker nor lets it leave. -/
private theorem marks_other {call : Timed BalancerOp} (hl : leaves workerId call.op = false)
    (hm : marksDead workerId call.op = false) :
    marks sort strategy workerId (call :: h) = marks sort strategy workerId h :=
  countSince_skip hl (by simp [hm])

theorem marked_afterCalls (sort : StdSort) (strategy workerId : Bytes) (h : List (Timed BalancerOp)) :
    Marked (marks sort strategy workerId h) ((afterCalls sort strategy h).entry workerId).node := by
  induction h with
  | nil =>
    rw [entry_afterCalls]
    rfl
  | cons call h ih =>
    have hstep : (afterCalls sort strategy (call :: h)).entry workerId =
        ((afterCalls sort strategy h).entry workerId).step workerId call := apply_entry sort _ call workerId
    rw [hstep]
    have hisSome : (afterCalls sort strategy h).workers[workerId]?.isSome =
      ((afterCalls sort strategy h).entry workerId).node.isSome := rfl
    obtain ⟨op, now⟩ := call
    cases op with
    | setStrategy s =>
      rw [marks_other rfl rfl]
      exact ih
    | updateWorkers services =>
      dsimp only [WorkerEntry.step]
      cases hlisted : listed services workerId with
      | true =>
        rw [marks_other (by simp [leaves, hlisted]) rfl, if_pos rfl]
        -- listed: a node that was there keeps its status, a new one is active
        have hstatus := listAll_status (e := (afterCalls sort strategy h).entry workerId) now hlisted
        cases hnode : ((afterCalls sort strategy h).entry workerId).node with
        | none =>
          rw [hnode] at ih hstatus
          obtain ⟨node, hsome, hactive⟩ := Option.map_eq_some_iff.1 hstatus
          rw [hsome]
          exact iff_of_true hactive ih
        | some node =>
          rw [hnode] at hstatus
          exact ih.status (by rw [hstatus, hnode]; rfl)
      | false =>
        -- not listed: the worker leaves, and its marks are counted anew
        have hzero : marks sort strategy workerId (⟨.updateWorkers services, now⟩ :: h) = 0 :=
          countSince_boundary (by simp [leaves, hlisted])
        rw [hzero, if_neg Bool.false_ne_true]
        cases hnode : ((afterCalls sort strategy h).entry workerId).node with
        | none =>
          rw [if_neg (by simp), hnode]
          rfl
        | some node =>
          rw [if_pos (by simp)]
          rfl
    | updateWorkerLoad id load =>
      rw [marks_other rfl rfl]
      dsimp only [WorkerEntry.step]
      split
      · refine ih.status ?_
        rw [Option.map_map]
        rfl
      · exact ih
    | removeWorker id =>
      dsimp only [WorkerEntry.step]
      by_cases hid : id = workerId
      · have hzero : marks sort strategy workerId (⟨.removeWorker id, now⟩ :: h) = 0 :=
          countSince_boundary (by simp [leaves, hid])
        rw [hzero, if_pos hid]
        rfl
      · rw [marks_other (by simp [leaves, hid]) rfl, if_neg hid]
        exact ih
    | markWorkerDead id =>
      dsimp only [WorkerEntry.step]
      by_cases hid : id = workerId
      · rw [if_pos hid]
        cases hnode : ((afterCalls sort strategy h).entry workerId).node with
        | none =>
          -- no such worker: the call marks nothing and is not counted
          have hskip : marks sort strategy workerId (⟨.markWorkerDead id, now⟩ :: h) =
              marks sort strategy workerId h :=
            countSince_skip rfl (by simp [hisSome, hnode])
          rw [hnode] at ih
          rw [hskip]
          exact ih
        | some node =>
          have hcount : marks sort strategy workerId (⟨.markWorkerDead id, now⟩ :: h) =
              marks sort strategy workerId h + 1 := countSince_count rfl (by simp [marksDead, hid, hisSome, hnode])
          rw [hcount]
          exact iff_of_false dead_ne_active (Nat.succ_ne_zero _)
      · rw [marks_other rfl (by simp [marksDead, hid]), if_neg hid]
        exact ih
    | selectWorker taskId =>
      rw [marks_other rfl rfl]
      exact ih.ask
    | isWorkerAvailable id =>
      rw [marks_other rfl rfl]
      dsimp only [WorkerEntry.step]
      split
      · exact ih.ask
      · exact ih
    | recordSuccess id =>
      rw [marks_other rfl rfl]
      dsimp only [WorkerEntry.step]
      split
      · exact ih
      · exact ih
    | recordFailure id =>
      rw [marks_other rfl rfl]
      dsimp only [WorkerEntry.step]
      split
      · exact ih
      · exact ih

end

/-- The listed workers are active after `updateWorkers` exactly when none of them was marked dead since it
joined. -/
theorem listed_active_iff (sort : StdSort) (strategy : Bytes) (h : List (Timed BalancerOp))
    (services : List (ServiceInfo × Int64)) (now : Int) :
    (∀ id ∈ services.map (·.1.id), ∃ node,
        (afterCalls sort strategy (⟨.updateWorkers services, now⟩ :: h)).workers[id]? = some node ∧
          node.status = active) ↔
      ∀ id ∈ services.map (·.1.id), marks sort strategy id h = 0 := by
  refine forall_congr' fun id => forall_congr' fun hid => ?_
  have hlisted : listed services id = true := listed_iff.2 hid
  have hmarked := marked_afterCalls sort strategy id (⟨.updateWorkers services, now⟩ :: h)
  have hcount : marks sort strategy id (⟨.updateWorkers services, now⟩ :: h) = marks sort strategy id h :=
    marks_other (by simp [leaves, hlisted]) rfl
  rw [hcount] at hmarked
  have hentry : (afterCalls sort strategy (⟨.updateWorkers services, now⟩ :: h)).entry id =
      ((afterCalls sort strategy h).entry id).listAll id services now := by
    have hupdate := updateWorkers_entry (afterCalls sort strategy h) services now id
    rwa [if_pos hlisted] at hupdate
  have hsome : ∃ node, (afterCalls sort strategy (⟨.updateWorkers services, now⟩ :: h)).workers[id]? =
      some node := by
    have hstatus := listAll_status (e := (afterCalls sort strategy h).entry id) now hlisted
    rw [← hentry] at hstatus
    obtain ⟨node, hnode, -⟩ := Option.map_eq_some_iff.1 hstatus
    exact ⟨node, hnode⟩
  obtain ⟨node, hnode⟩ := hsome
  have hentryNode : ((afterCalls sort strategy (⟨.updateWorkers services, now⟩ :: h)).entry id).node =
      some node := hnode
  rw [hentryNode] at hmarked
  constructor
  · intro ⟨node', hnode', hactive⟩
    rw [hnode] at hnode'
    cases hnode'
    exact hmarked.1 hactive
  · intro hzero
    exact ⟨node, hnode, hmarked.2 hzero⟩

/-- Joined, marked, and still listed. -/
theorem listed_stays_dead : ¬ ∀ (sort : StdSort) (strategy : Bytes) (h : List (Timed BalancerOp))
    (services : List (ServiceInfo × Int64)) (now : Int), ∀ id ∈ services.map (·.1.id), ∃ node,
      (afterCalls sort strategy (⟨.updateWorkers services, now⟩ :: h)).workers[id]? = some node ∧
        node.status = active := by
  intro hall
  let h : List (Timed BalancerOp) := [⟨.markWorkerDead (bytes "worker-1"), 1⟩, workerJoins]
  let services : List (ServiceInfo × Int64) := [(⟨bytes "worker", bytes "worker-1", bytes "host", 50052⟩, 2)]
  obtain ⟨node, hnode, hactive⟩ := hall .stable (bytes "round_robin") h services 2 (bytes "worker-1") (by decide)
  have hmarked := marked_afterCalls .stable (bytes "round_robin") (bytes "worker-1")
    (⟨.updateWorkers services, 2⟩ :: h)
  have hentry : ((afterCalls .stable (bytes "round_robin") (⟨.updateWorkers services, 2⟩ :: h)).entry
    (bytes "worker-1")).node = some node := hnode
  rw [hentry] at hmarked
  exact absurd (hmarked.1 hactive) (by decide)

end LoadBalancer

/-! ### The check loop beside the other threads -/

structure HeartbeatReply where
  success : Bool
  message : Bytes

namespace LoadBalancer

/-- `WorkerServiceImpl::Heartbeat`. -/
def heartbeat (lb : LoadBalancer) (workerId : Bytes) (currentLoad : Int32) : HeartbeatReply × LoadBalancer :=
  (⟨true, bytes "Heartbeat received"⟩, lb.updateWorkerLoad workerId currentLoad)

def getWorkers (lb : LoadBalancer) : List WorkerNode := lb.workers.toList.map (·.2)

end LoadBalancer

/-- Where `workerCheckLoop` is: asleep, with its copy of the table, or at the next worker of the copy. -/
inductive CheckLoop where
  | sleeping
  | listed (workers : List WorkerNode)
  | checking (now : Int64) (workers : List WorkerNode)

/-- `now - worker.last_heartbeat > 15000` -/
def missedHeartbeat (now : Int64) (worker : WorkerNode) : Bool := 15000 < now - worker.lastHeartbeat

/-- The balancer, the latest reading of the system clock in milliseconds, the readings at the latest
`updateWorkers` call that listed a worker and at its latest `Heartbeat`, and the check loop. -/
structure Liveness where
  balancer : LoadBalancer
  clock : Int64
  lastListed : StringMap Int64
  lastHeartbeat : StringMap Int64
  checkLoop : CheckLoop

inductive LivenessCall where
  | updateWorkers (services : List (ServiceInfo × Int64)) (now : Int)
  | heartbeat (workerId : Bytes) (currentLoad : Int32) (time : Int64)
  | getWorkers
  | readClock (now : Int64)
  | checkWorker (time : Int64)
  | sleep

/-- Readings of a clock that does not go back. -/
def timely : Int64 → List Int64 → Bool
  | _, [] => true
  | clock, time :: times => clock ≤ time && timely time times

namespace Liveness

def start (strategy : Bytes) : Liveness := ⟨.create strategy, 0, ∅, ∅, .sleeping⟩

/-- One thread makes its next call; `none` when the call is not due. -/
def step (s : Liveness) : LivenessCall → Option Liveness
  | .updateWorkers services now =>
    if timely s.clock (services.map (·.2)) then
      some { s with
        balancer := s.balancer.updateWorkers services now
        clock := ((services.map (·.2)).getLast?).getD s.clock
        lastListed := services.foldl (fun times service => times.insert service.1.id service.2) s.lastListed }
    else none
  | .heartbeat workerId currentLoad time =>
    if s.clock ≤ time then
      some { s with
        balancer := (s.balancer.heartbeat workerId currentLoad).2
        clock := time
        lastHeartbeat := s.lastHeartbeat.insert workerId time }
    else none
  | .getWorkers =>
    match s.checkLoop with
    | .sleeping => some { s with checkLoop := .listed s.balancer.getWorkers }
    | _ => none
  | .readClock now =>
    match s.checkLoop with
    | .listed workers =>
      if s.clock ≤ now then some { s with clock := now, checkLoop := .checking now workers } else none
    | _ => none
  | .checkWorker time =>
    match s.checkLoop with
    | .checking now (worker :: workers) =>
      if s.clock ≤ time then
        some { s with
          balancer := if missedHeartbeat now worker then s.balancer.markWorkerDead worker.id else s.balancer
          clock := time
          checkLoop := .checking now workers }
      else none
    | _ => none
  | .sleep =>
    match s.checkLoop with
    | .checking _ [] => some { s with checkLoop := .sleeping }
    | _ => none

/-- `P` holds of every call of the run, in the state before it. -/
def EachCall (P : Liveness → LivenessCall → Prop) : Liveness → List LivenessCall → Prop
  | _, [] => True
  | s, call :: calls => ∀ s', s.step call = some s' → P s call ∧ EachCall P s' calls

instance EachCall.decidable {P : Liveness → LivenessCall → Prop} [∀ s call, Decidable (P s call)] :
    ∀ s calls, Decidable (EachCall P s calls)
  | _, [] => isTrue trivial
  | s, call :: calls =>
    match h : s.step call with
    | none => isTrue fun s' hs => by rw [h] at hs; cases hs
    | some s' =>
      have := EachCall.decidable (P := P) s' calls
      decidable_of_iff (P s call ∧ EachCall P s' calls)
        ⟨fun hp s'' hs => by rw [h] at hs; cases hs; exact hp, fun hp => hp s' h⟩

/-- If there was such a moment, then more than 15000 ms have passed since. -/
def Passed (time : Int64) (moment : Option Int64) : Prop :=
  ∀ t, moment = some t → 15000 < time.toInt - t.toInt

/-- Neither a listing nor a `Heartbeat` of the worker is recent. -/
def Stale (s : Liveness) (time : Int64) (workerId : Bytes) : Prop :=
  Passed time s.lastListed[workerId]? ∧ Passed time s.lastHeartbeat[workerId]?

/-- If this call of the check loop marks a worker, the worker is stale. -/
def MarksStale (s : Liveness) : LivenessCall → Prop
  | .checkWorker time =>
    match s.checkLoop with
    | .checking now (worker :: _) => missedHeartbeat now worker → s.Stale time worker.id
    | _ => True
  | _ => True

/-- A listing or a `Heartbeat` of the worker is recent. -/
def Heard (s : Liveness) (time : Int64) (workerId : Bytes) : Prop :=
  (∃ t ∈ s.lastListed[workerId]?, time.toInt - t.toInt ≤ 15000) ∨
    ∃ t ∈ s.lastHeartbeat[workerId]?, time.toInt - t.toInt ≤ 15000

/-- The copy shows a recent listing of the worker. -/
def ShownFresh (now : Int64) (worker : WorkerNode) : Prop := now.toInt - worker.lastHeartbeat.toInt ≤ 15000

/-- The copy shows as fresh what is heard of: whoever was listed or sent a `Heartbeat` recently when the check
loop reads the clock, and whoever is still to be checked and is listed or sends a `Heartbeat` during the pass.
Nothing is asked of the checks. -/
def Informed (s : Liveness) : LivenessCall → Prop
  | .readClock now =>
    match s.checkLoop with
    | .listed workers => ∀ worker ∈ workers, s.Heard now worker.id → ShownFresh now worker
    | _ => True
  | .heartbeat workerId _ _ =>
    match s.checkLoop with
    | .checking now workers => ∀ worker ∈ workers, worker.id = workerId → ShownFresh now worker
    | _ => True
  | .updateWorkers services _ =>
    match s.checkLoop with
    | .checking now workers => ∀ worker ∈ workers, ∀ service ∈ services, service.1.id = worker.id →
      (((services.map (·.2)).getLast?).getD s.clock).toInt - service.2.toInt ≤ 15000 → ShownFresh now worker
    | _ => True
  | _ => True

instance (s : Liveness) (time : Int64) (workerId : Bytes) : Decidable (s.Heard time workerId) :=
  inferInstanceAs (Decidable (_ ∨ _))

instance (now : Int64) (worker : WorkerNode) : Decidable (ShownFresh now worker) :=
  inferInstanceAs (Decidable (_ ≤ _))

instance : ∀ (s : Liveness) (call : LivenessCall), Decidable (s.Informed call)
  | ⟨_, _, _, _, .listed workers⟩, .readClock _ => inferInstanceAs (Decidable (∀ worker ∈ workers, _ → _))
  | ⟨_, _, _, _, .checking _ workers⟩, .heartbeat _ _ _ =>
      inferInstanceAs (Decidable (∀ worker ∈ workers, _ → _))
  | ⟨_, _, _, _, .checking _ workers⟩, .updateWorkers services _ =>
    inferInstanceAs (Decidable (∀ worker ∈ workers, ∀ service ∈ services, _ → _ → _))
  | ⟨_, _, _, _, .sleeping⟩, .readClock _ | ⟨_, _, _, _, .checking _ _⟩, .readClock _ => isTrue trivial
  | ⟨_, _, _, _, .sleeping⟩, .heartbeat _ _ _ | ⟨_, _, _, _, .listed _⟩, .heartbeat _ _ _ => isTrue trivial
  | ⟨_, _, _, _, .sleeping⟩, .updateWorkers _ _ | ⟨_, _, _, _, .listed _⟩, .updateWorkers _ _ => isTrue trivial
  | _, .getWorkers | _, .checkWorker _ | _, .sleep => isTrue trivial

/-- A check loop that goes on at once after this call marks only stale workers. -/
def MarksStaleAtOnce (s : Liveness) (call : LivenessCall) : Prop :=
  ∀ s', s.step call = some s' → ∀ n, EachCall MarksStale s' (List.replicate n (.checkWorker s'.clock))

/-! ### What the copy of the table says -/

/-- The readings in a copy are old. -/
def CopyTimely (clock : Int64) : CheckLoop → Prop
  | .sleeping => True
  | .listed workers => ∀ worker ∈ workers, 0 ≤ worker.lastHeartbeat.toInt
  | .checking now workers =>
    0 ≤ now.toInt ∧ now.toInt ≤ clock.toInt ∧ ∀ worker ∈ workers, 0 ≤ worker.lastHeartbeat.toInt

/-- The table holds the reading of the latest listing. -/
structure Inv (s : Liveness) : Prop where
  clock : 0 ≤ s.clock.toInt
  listed : ∀ (id : Bytes) (t : Int64), s.lastListed[id]? = some t → 0 ≤ t.toInt
  table : ∀ (id : Bytes) (node : WorkerNode), s.balancer.workers[id]? = some node →
    s.lastListed[id]? = some node.lastHeartbeat
  copy : CopyTimely s.clock s.checkLoop

section Steps

variable {s s' : Liveness}

theorem timely_le {clock : Int64} {times : List Int64} (h : timely clock times = true) :
    (∀ t ∈ times, clock.toInt ≤ t.toInt) ∧ clock.toInt ≤ (times.getLast?.getD clock).toInt := by
  induction times generalizing clock with
  | nil => simp
  | cons t times ih =>
    rw [timely, Bool.and_eq_true, decide_eq_true_eq, Int64.le_iff_toInt_le] at h
    obtain ⟨hle, hrest⟩ := h
    obtain ⟨hall, hlast⟩ := ih hrest
    constructor
    · intro u hu
      rcases List.mem_cons.1 hu with rfl | hu
      · exact hle
      · have hu' := hall u hu
        omega
    · have hgetLast : ((t :: times).getLast?).getD clock = times.getLast?.getD t := by
        cases times with
        | nil => rfl
        | cons u us => rw [List.getLast?_cons_cons, List.getLast?_eq_some_getLast (List.cons_ne_nil u us)]; rfl
      rw [hgetLast]
      omega

theorem CopyTimely.later {clock clock' : Int64} {loop : CheckLoop} (h : CopyTimely clock loop)
    (hle : clock.toInt ≤ clock'.toInt) : CopyTimely clock' loop := by
  cases loop with
  | sleeping => trivial
  | listed workers => exact h
  | checking now workers => exact ⟨h.1, by have hnow := h.2.1; omega, h.2.2⟩

/-- Listing a worker stores the reading that becomes the latest. -/
private theorem listAll_lastHeartbeat (id : Bytes) (services : List (ServiceInfo × Int64)) (now : Int)
    {e : WorkerEntry} {times : StringMap Int64} (h : ∀ node, e.node = some node →
      times[id]? = some node.lastHeartbeat) :
    ∀ node, (e.listAll id services now).node = some node →
      (services.foldl (fun times service => times.insert service.1.id service.2) times)[id]? =
        some node.lastHeartbeat := by
  induction services generalizing e times with
  | nil => exact h
  | cons service services ih =>
    rw [List.foldl_cons]
    unfold WorkerEntry.listAll
    by_cases hid : service.1.id = id
    · rw [List.filter_cons_of_pos (by simpa using hid), List.foldl_cons]
      refine ih ?_
      intro node hnode
      rw [getElem?_insert, if_pos hid]
      unfold WorkerEntry.list at hnode
      split at hnode
      · cases hnode
        rfl
      · cases hnode
        rfl
    · rw [List.filter_cons_of_neg (by simpa using hid)]
      refine ih ?_
      intro node hnode
      rw [getElem?_insert, if_neg hid]
      exact h node hnode

private theorem lastListed_mem (services : List (ServiceInfo × Int64)) (times : StringMap Int64)
    {id : Bytes} {t : Int64}
    (h : (services.foldl (fun times service => times.insert service.1.id service.2) times)[id]? = some t) :
    (∃ service ∈ services, service.1.id = id ∧ service.2 = t) ∨ times[id]? = some t := by
  induction services generalizing times with
  | nil => exact Or.inr h
  | cons service services ih =>
    rw [List.foldl_cons] at h
    rcases ih _ h with ⟨s, hmem, hs⟩ | hold
    · exact Or.inl ⟨s, List.mem_cons_of_mem _ hmem, hs⟩
    · rw [getElem?_insert] at hold
      split at hold
      · rename_i hid
        exact Or.inl ⟨service, List.mem_cons_self, hid, Option.some.inj hold⟩
      · exact Or.inr hold

private theorem le_lastListed {services : List (ServiceInfo × Int64)} {times : StringMap Int64}
    {id : Bytes} {t : Int64}
    (hall : ∀ service ∈ services, t.toInt ≤ service.2.toInt) (h : ∃ t₀, times[id]? = some t₀ ∧
      t.toInt ≤ t₀.toInt) :
    ∃ t', (services.foldl (fun times service => times.insert service.1.id service.2) times)[id]? = some t' ∧
      t.toInt ≤ t'.toInt := by
  induction services generalizing times with
  | nil => exact h
  | cons service services ih =>
    rw [List.foldl_cons]
    refine ih (fun s hs => hall s (List.mem_cons_of_mem _ hs)) ?_
    rw [getElem?_insert]
    split
    · exact ⟨service.2, rfl, hall service List.mem_cons_self⟩
    · exact h

/-- The latest listing of a worker is no earlier than any reading that names it. -/
private theorem listed_lastListed {services : List (ServiceInfo × Int64)} (times : StringMap Int64) {clock : Int64}
    (ht : timely clock (services.map (·.2)) = true) {service : ServiceInfo × Int64} (hs : service ∈ services) :
    ∃ t, (services.foldl (fun times service => times.insert service.1.id service.2) times)[service.1.id]? = some t ∧
      service.2.toInt ≤ t.toInt := by
  induction services generalizing clock times with
  | nil => cases hs
  | cons first services ih =>
    rw [List.map_cons, timely, Bool.and_eq_true] at ht
    rw [List.foldl_cons]
    rcases List.mem_cons.1 hs with rfl | hs
    · refine le_lastListed ?_ ⟨service.2, by rw [getElem?_insert, if_pos rfl], Int.le_refl _⟩
      intro s hs
      exact (timely_le ht.2).1 s.2 (List.mem_map_of_mem hs)
    · exact ih _ ht.2 hs

theorem Inv.updated (h : s.Inv) {services : List (ServiceInfo × Int64)} (now : Int)
    (ht : timely s.clock (services.map (·.2)) = true) :
    Inv { s with
      balancer := s.balancer.updateWorkers services now
      clock := ((services.map (·.2)).getLast?).getD s.clock
      lastListed := services.foldl (fun times service => times.insert service.1.id service.2) s.lastListed } := by
  obtain ⟨hall, hlast⟩ := timely_le ht
  have hclock := h.clock
  constructor
  · show 0 ≤ (((services.map (·.2)).getLast?).getD s.clock).toInt
    omega
  · intro id t ht'
    rcases lastListed_mem services s.lastListed ht' with ⟨service, hmem, -, rfl⟩ | hold
    · have hle := hall service.2 (List.mem_map_of_mem hmem)
      omega
    · exact h.listed id t hold
  · intro id node hnode
    have hentry := LoadBalancer.updateWorkers_entry s.balancer services now id
    have hnode' : ((s.balancer.updateWorkers services now).entry id).node = some node := hnode
    rw [hentry] at hnode'
    split at hnode'
    · exact listAll_lastHeartbeat id services now (fun n hn => h.table id n hn) node hnode'
    · rename_i hlisted
      split at hnode'
      · cases hnode'
      · rename_i hnone
        rw [hnode'] at hnone
        exact absurd rfl hnone
  · exact h.copy.later hlast

/-- A change of the node that keeps the time of the listing. -/
theorem Inv.modified (h : s.Inv) (workerId : Bytes) {change : WorkerNode → WorkerNode}
    (hchange : ∀ node, (change node).lastHeartbeat = node.lastHeartbeat) :
    ∀ (id : Bytes) (node : WorkerNode), (s.balancer.modifyNode workerId change).workers[id]? = some node →
      s.lastListed[id]? = some node.lastHeartbeat := by
  intro id node hnode
  have hentry := LoadBalancer.modifyNode_entry s.balancer workerId change id
  have hnode' : ((s.balancer.modifyNode workerId change).entry id).node = some node := hnode
  rw [hentry] at hnode'
  split at hnode'
  · obtain ⟨n, hn, rfl⟩ := Option.map_eq_some_iff.1 hnode'
    rw [hchange]
    exact h.table id n hn
  · exact h.table id node hnode'

/-- A check takes the first worker of the copy, and the clock has not gone back. -/
theorem step_checkWorker {time : Int64} (hs : s.step (.checkWorker time) = some s') :
    ∃ now worker workers, s.checkLoop = .checking now (worker :: workers) ∧ s.clock.toInt ≤ time.toInt ∧
      s' = { s with
        balancer := if missedHeartbeat now worker then s.balancer.markWorkerDead worker.id else s.balancer
        clock := time
        checkLoop := .checking now workers } := by
  simp only [Liveness.step] at hs
  split at hs
  · rename_i now worker workers hloop
    split at hs
    · rename_i hle
      exact ⟨now, worker, workers, hloop, Int64.le_iff_toInt_le.1 hle, (Option.some.inj hs).symm⟩
    · cases hs
  · cases hs

theorem Inv.step (h : s.Inv) {call : LivenessCall} (hs : s.step call = some s') : s'.Inv := by
  have hclock := h.clock
  cases call with
  | updateWorkers services now =>
    simp only [Liveness.step] at hs
    split at hs
    · rename_i ht
      cases hs
      exact h.updated now ht
    · cases hs
  | heartbeat workerId currentLoad time =>
    simp only [Liveness.step] at hs
    split at hs
    · rename_i hle
      rw [Int64.le_iff_toInt_le] at hle
      cases hs
      exact ⟨by show 0 ≤ time.toInt; omega, h.listed, h.modified workerId fun _ => rfl, h.copy.later hle⟩
    · cases hs
  | getWorkers =>
    simp only [Liveness.step] at hs
    split at hs
    · cases hs
      refine ⟨h.clock, h.listed, h.table, ?_⟩
      intro worker hworker
      obtain ⟨⟨id, node⟩, hmem, rfl⟩ := List.mem_map.1 hworker
      exact h.listed id _ (h.table id node (mem_toList.1 hmem))
    · cases hs
  | readClock now =>
    simp only [Liveness.step] at hs
    split at hs
    · rename_i workers hloop
      split at hs
      · rename_i hle
        rw [Int64.le_iff_toInt_le] at hle
        cases hs
        have hcopy := h.copy
        rw [hloop] at hcopy
        exact ⟨by show 0 ≤ now.toInt; omega, h.listed, h.table, by show 0 ≤ now.toInt; omega,
          Int.le_refl _, hcopy⟩
      · cases hs
    · cases hs
  | checkWorker time =>
    obtain ⟨now, worker, workers, hloop, hle, rfl⟩ := step_checkWorker hs
    have hcopy := h.copy
    rw [hloop] at hcopy
    obtain ⟨hnow, hbefore, hworkers⟩ := hcopy
    -- the copy of the table gets shorter, and the clock does not go back
    refine ⟨by show 0 ≤ time.toInt; omega, h.listed, ?_, hnow, ?_, ?_⟩
    · dsimp only
      split
      · exact h.modified worker.id fun _ => rfl
      · exact h.table
    · show now.toInt ≤ time.toInt
      omega
    · intro w hw
      exact hworkers w (List.mem_cons_of_mem _ hw)
  | sleep =>
    simp only [Liveness.step] at hs
    split at hs
    · cases hs
      exact ⟨h.clock, h.listed, h.table, trivial⟩
    · cases hs

theorem Inv.start (strategy : Bytes) : Inv (start strategy) := by
  constructor
  · exact Int.le_refl 0
  · intro id t ht
    simp [Liveness.start] at ht
  · intro id node hnode
    have hentry := LoadBalancer.setStrategy_entry {} strategy id
    have hnode' : ((LoadBalancer.create strategy).entry id).node = some node := hnode
    rw [LoadBalancer.create, hentry] at hnode'
    simp [LoadBalancer.entry] at hnode'
  · trivial

theorem Passed.later {time time' : Int64} {moment : Option Int64} (h : Passed time moment)
    (hle : time.toInt ≤ time'.toInt) : Passed time' moment := by
  intro t ht
  have hpassed := h t ht
  omega

theorem Stale.later {time time' : Int64} {id : Bytes} (h : s.Stale time id) (hle : time.toInt ≤ time'.toInt) :
    s.Stale time' id := ⟨h.1.later hle, h.2.later hle⟩

theorem stale_iff {time : Int64} {id : Bytes} : s.Stale time id ↔ ¬ s.Heard time id := by
  simp only [Stale, Heard, Passed, not_or, not_exists, not_and, Int.not_le]
  exact Iff.rfl

/-- The readings are no later than the clock, so their difference does not overflow. -/
theorem missedHeartbeat_iff {now : Int64} {worker : WorkerNode} (hnow : 0 ≤ now.toInt)
    (hworker : 0 ≤ worker.lastHeartbeat.toInt) : missedHeartbeat now worker = true ↔ ¬ ShownFresh now worker := by
  have hnowlt := now.toInt_lt
  have hworkerlt := worker.lastHeartbeat.toInt_lt
  unfold missedHeartbeat ShownFresh
  rw [decide_eq_true_eq, Int64.lt_iff_toInt_lt, BitFields.toInt_sub (by omega) (by omega), Int.not_le]
  rfl

/-- The workers that the rest of the pass will mark are stale. -/
def Told (s : Liveness) : Prop :=
  match s.checkLoop with
  | .checking now workers => ∀ worker ∈ workers, missedHeartbeat now worker = true → s.Stale s.clock worker.id
  | _ => True

theorem Told.marksStale (ht : s.Told) {call : LivenessCall} (hs : s.step call = some s') : s.MarksStale call := by
  cases call with
  | checkWorker time =>
    obtain ⟨now, worker, workers, hloop, hle, -⟩ := step_checkWorker hs
    simp only [Told, hloop] at ht
    simp only [MarksStale, hloop]
    intro hmissed
    exact (ht worker List.mem_cons_self hmissed).later hle
  | _ => trivial

/-- A check changes neither the times of the listings nor those of the heartbeats. -/
theorem Told.checked (ht : s.Told) {time : Int64} (hs : s.step (.checkWorker time) = some s') : s'.Told := by
  obtain ⟨now, worker, workers, hloop, hle, rfl⟩ := step_checkWorker hs
  simp only [Told, hloop] at ht
  intro w hw hmissed
  exact (ht w (List.mem_cons_of_mem _ hw) hmissed).later hle

theorem atOnce_iff : (∀ n, EachCall MarksStale s (List.replicate n (.checkWorker s.clock))) ↔ s.Told := by
  constructor
  · intro h
    unfold Told
    split
    · rename_i now workers hloop
      -- the worker at place `n` is the one of the check `n + 1`
      induction workers generalizing s with
      | nil => simp
      | cons worker workers ih =>
        have hstep : s.step (.checkWorker s.clock) = some { s with
            balancer := if missedHeartbeat now worker then s.balancer.markWorkerDead worker.id else s.balancer
            checkLoop := .checking now workers } := by
          simp only [Liveness.step, hloop]
          rw [if_pos (Int64.le_iff_toInt_le.2 (Int.le_refl _))]
        have hhead := ((h 1) _ hstep).1
        simp only [MarksStale, hloop] at hhead
        have hrest := ih (fun n => ((h (n + 1)) _ hstep).2) rfl
        intro w hw
        rcases List.mem_cons.1 hw with rfl | hw
        · exact hhead
        · exact hrest w hw
    · trivial
  · intro ht n
    generalize s.clock = time
    induction n generalizing s with
    | zero => trivial
    | succ n ih =>
      intro s' hs
      exact ⟨ht.marksStale hs, ih (ht.checked hs)⟩

/-- A worker that was silent is silent after a listing if and only if no recent reading of the listing names it. -/
private theorem passed_listed {services : List (ServiceInfo × Int64)} {times : StringMap Int64} {clock time : Int64}
    {id : Bytes} (ht : timely clock (services.map (·.2)) = true) (hold : Passed time times[id]?) :
    Passed time (services.foldl (fun times service => times.insert service.1.id service.2) times)[id]? ↔
      ∀ service ∈ services, service.1.id = id → ¬ time.toInt - service.2.toInt ≤ 15000 := by
  constructor
  · rintro hpassed service hs rfl hrecent
    obtain ⟨t, hlast, hle⟩ := listed_lastListed times ht hs
    have hold := hpassed t hlast
    omega
  · intro hnone t hlast
    rcases lastListed_mem services times hlast with ⟨service, hs, hid, rfl⟩ | hsame
    · exact Int.not_le.1 (hnone service hs hid)
    · exact hold t hsame

/-- After a call, the rest of the pass will mark only stale workers if and only if the call was informed. -/
theorem Inv.told_iff (h : s.Inv) (ht : s.Told) {call : LivenessCall} (hs : s.step call = some s') :
    s'.Told ↔ s.Informed call := by
  have hcopy := h.copy
  cases call with
  | updateWorkers services now =>
    simp only [Liveness.step] at hs
    split at hs
    · rename_i htimely
      cases hs
      cases hloop : s.checkLoop with
      | checking now workers =>
        rw [hloop] at hcopy
        simp only [Told, hloop] at ht
        simp only [Told, Informed, hloop]
        refine forall_congr' fun worker => forall_congr' fun hw => ?_
        have hmissed := missedHeartbeat_iff hcopy.1 (hcopy.2.2 worker hw)
        by_cases hfresh : ShownFresh now worker
        · exact iff_of_true (fun h => absurd hfresh (hmissed.1 h)) fun _ _ _ _ => hfresh
        · have hstale := (ht worker hw (hmissed.2 hfresh)).later (timely_le htimely).2
          rw [forall_prop_of_true (hmissed.2 hfresh)]
          show _ ∧ _ ↔ _
          rw [and_iff_left hstale.2, passed_listed htimely hstale.1]
          refine forall_congr' fun service => forall_congr' fun hmem => forall_congr' fun hid => ?_
          exact ⟨fun hnot hrecent => absurd hrecent hnot, fun himp hrecent => hfresh (himp hrecent)⟩
      | _ => simp only [Told, Informed, hloop]
    · cases hs
  | heartbeat workerId currentLoad time =>
    simp only [Liveness.step] at hs
    split at hs
    · rename_i hle
      rw [Int64.le_iff_toInt_le] at hle
      cases hs
      cases hloop : s.checkLoop with
      | checking now workers =>
        rw [hloop] at hcopy
        simp only [Told, hloop] at ht
        simp only [Told, Informed, hloop]
        refine forall_congr' fun worker => forall_congr' fun hw => ?_
        have hmissed := missedHeartbeat_iff hcopy.1 (hcopy.2.2 worker hw)
        by_cases hfresh : ShownFresh now worker
        · exact iff_of_true (fun h => absurd hfresh (hmissed.1 h)) fun _ => hfresh
        · have hstale := (ht worker hw (hmissed.2 hfresh)).later hle
          rw [forall_prop_of_true (hmissed.2 hfresh)]
          show _ ∧ Passed time (s.lastHeartbeat.insert workerId time)[worker.id]? ↔ _
          rw [and_iff_right hstale.1, getElem?_insert]
          by_cases hid : worker.id = workerId
          · -- the `Heartbeat` that arrives now is recent
            rw [if_pos hid.symm]
            refine iff_of_false ?_ fun himp => hfresh (himp hid)
            intro hpassed
            have hlt := hpassed time rfl
            omega
          · rw [if_neg (Ne.symm hid)]
            exact iff_of_true hstale.2 fun h => absurd h hid
      | _ => simp only [Told, Informed, hloop]
    · cases hs
  | getWorkers =>
    simp only [Liveness.step] at hs
    split at hs
    · cases hs
      exact Iff.rfl
    · cases hs
  | readClock now =>
    simp only [Liveness.step] at hs
    split at hs
    · rename_i workers hloop
      split at hs
      · rename_i hle
        cases hs
        rw [hloop] at hcopy
        rw [Int64.le_iff_toInt_le] at hle
        have hclock := h.clock
        simp only [Told, Informed, hloop]
        refine forall_congr' fun worker => forall_congr' fun hw => ?_
        rw [missedHeartbeat_iff (by omega) (hcopy worker hw)]
        exact Iff.trans (imp_congr_right fun _ => stale_iff (s := s)) not_imp_not
      · cases hs
    · cases hs
  | checkWorker time => exact iff_of_true (ht.checked hs) trivial
  | sleep =>
    simp only [Liveness.step] at hs
    split at hs
    · cases hs
      exact Iff.rfl
    · cases hs

end Steps

/-- The state after a run, if every call of it is due. -/
def after (s : Liveness) (calls : List LivenessCall) : Option Liveness := calls.foldlM Liveness.step s

/-- Between the readings for the two workers, 13 seconds pass; the second worker reports before and after the check
loop has read the clock. -/
def slowListing : List LivenessCall :=
  [.updateWorkers [(⟨bytes "worker", bytes "worker-1", bytes "host", 50052⟩, 1000),
      (⟨bytes "worker", bytes "worker-2", bytes "host", 50053⟩, 14000)] 0,
    .heartbeat (bytes "worker-2") 3 16000, .getWorkers, .readClock 17000, .heartbeat (bytes "worker-2") 2 17001,
    .checkWorker 17002, .checkWorker 17003, .sleep]

end Liveness

end Taskflow
