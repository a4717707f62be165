import Taskflow.DispatcherSpecs
import Taskflow.Scheduler

/-!
# The worker counters over the life of tasks

A fault-free sequential run in which every task is submitted, popped, assigned, then completed or failed, and after
a failure perhaps retried (`LifecycleStep`).  Assigning a task counts its worker up, completing and failing count it
down; `retryTask` counts it down once more, for a task that no longer runs.  As long as the clamp at zero makes that
last decrement vanish, the counter of a worker is the number of tasks that run on it, and it is wrong from the first
other retry on (`load_accounting_iff`).
-/

namespace Taskflow

open Text Effects Prog

inductive Phase where
  | queued
  | popped
  | assigned
  | completed
  | failed
  deriving DecidableEq

/-- Redis, the ids submitted so far, and how far each of them has come. -/
structure Lifecycle where
  world : Keyspace
  tasks : List Bytes
  phase : Bytes → Phase

def Lifecycle.moved (s : Lifecycle) (w : Keyspace) (taskId : Bytes) (phase : Phase) : Lifecycle :=
  { s with world := w, phase := Function.update s.phase taskId phase }

/-- One fault-free call of the dispatcher, on a task for which it is due. -/
inductive LifecycleStep : Lifecycle → Operation → Lifecycle → Prop
  | submitTask {s task τ o w} (hid : ValidId task.id) (hfresh : task.id ∉ s.tasks)
      (hrun : Run (served False) (submitTask task) s.world τ o w) :
      LifecycleStep s (.submitTask task) ⟨w, task.id :: s.tasks, Function.update s.phase task.id .queued⟩
  | popNothing {s τ o w} (hrun : Run (served False) popNextTask s.world τ o w) (ho : o = .ok []) :
      LifecycleStep s .popNextTask { s with world := w }
  | popNextTask {s i τ w} (hmem : i ∈ s.tasks) (hphase : s.phase i = .queued)
      (hrun : Run (served False) popNextTask s.world τ (.ok i) w) :
      LifecycleStep s .popNextTask (s.moved w i .popped)
  | assignTaskToWorker {s i v τ o w} (hmem : i ∈ s.tasks) (hphase : s.phase i = .popped) (hv : ValidId v)
      (hrun : Run (served False) (assignTaskToWorker i v) s.world τ o w) :
      LifecycleStep s (.assignTaskToWorker i v) (s.moved w i .assigned)
  | completeTask {s i result τ o w} (hmem : i ∈ s.tasks) (hphase : s.phase i = .assigned)
      (hrun : Run (served False) (completeTask i result) s.world τ o w) :
      LifecycleStep s (.completeTask i result) (s.moved w i .completed)
  | failTask {s i error τ o w} (hmem : i ∈ s.tasks) (hphase : s.phase i = .assigned)
      (hrun : Run (served False) (failTask i error) s.world τ o w) :
      LifecycleStep s (.failTask i error) (s.moved w i .failed)
  | retryTask {s i τ b w} (hmem : i ∈ s.tasks) (hphase : s.phase i = .failed)
      (hrun : Run (served False) (retryTask i) s.world τ (.ok b) w) :
      LifecycleStep s (.retryTask i) (s.moved w i (if b then .queued else .failed))
  | retryThrows {s i τ x w} (hmem : i ∈ s.tasks) (hphase : s.phase i = .failed)
      (hrun : Run (served False) (retryTask i) s.world τ (.error x) w) :
      LifecycleStep s (.retryTask i) (s.moved w i .failed)

/-- An empty Redis without tasks. -/
def Lifecycle.start : Lifecycle := ⟨∅, [], fun _ => .queued⟩

/-- The calls of a run, each with the state it leaves. -/
def IsLifecycle : Lifecycle → List (Operation × Lifecycle) → Prop
  | _, [] => True
  | s, (op, s') :: rest => LifecycleStep s op s' ∧ IsLifecycle s' rest

/-- Status 1 and the worker `v` are stored. -/
def runsOn (w : Keyspace) (v i : Bytes) : Bool :=
  recordText w i (bytes "status") = bytes "1" && recordText w i (bytes "worker_id") = v

/-- Every counter is the number of tasks that run on its worker. -/
def Accounted (s : Lifecycle) : Prop :=
  ∀ v, workerLoad s.world v = s.tasks.countP (runsOn s.world v)

/-- A retry that takes nothing off a counter: the retries are used up, or the counter is zero already. -/
def RetryIdle (w : Keyspace) : Operation → Prop
  | .retryTask i =>
    (∃ c : Int32, recordText w i (bytes "retry_count") = decimal c.toInt ∧ 3 ≤ c) ∨
      workerLoad w (recordText w i (bytes "worker_id")) = 0
  | _ => True

def RetriesIdle : Lifecycle → List (Operation × Lifecycle) → Prop
  | _, [] => True
  | s, (op, s') :: rest => RetryIdle s.world op ∧ RetriesIdle s' rest

/-! ### What holds in every state, accounted or not -/

/-- The record of a task in its phase.  A worker that is stored has a counter. -/
structure PhaseRecord (w : Keyspace) (i : Bytes) (phase : Phase) (p : Int32) (f : StringMap Bytes) : Prop where
  stored : w[taskKey i]? = some (.hash f)
  record : TaskRecord p f
  status : f[bytes "status"]? = some (bytes "1") ↔ phase = .assigned
  worker : phase = .assigned ∨ phase = .failed → ∃ v n, ValidId v ∧ f[bytes "worker_id"]? = some v ∧
    CounterIs w v n

structure LifecycleInv (s : Lifecycle) : Prop where
  nodup : s.tasks.Nodup
  fresh : ∀ i, i ∉ s.tasks → s.world[taskKey i]? = none
  valid : ∀ i ∈ s.tasks, ValidId i
  records : ∀ i ∈ s.tasks, ∃ p f, PhaseRecord s.world i (s.phase i) p f
  counters : ∀ v, s.world[workerLoadKey v]? = none ∨ ∃ n, CounterIs s.world v n

section Steps

variable {s : Lifecycle} {w w' : Keyspace} {i v : Bytes}

/-- A step that changes the record of one task, and counters only to numbers. -/
theorem LifecycleInv.moved (h : LifecycleInv s) (hmem : i ∈ s.tasks) {phase : Phase}
    (hothers : ∀ j, j ≠ i → w[taskKey j]? = s.world[taskKey j]?)
    (hcounters : ∀ u, w[workerLoadKey u]? = s.world[workerLoadKey u]? ∨ ∃ n, CounterIs w u n)
    (hrec : ∃ p f, PhaseRecord w i phase p f) : LifecycleInv (s.moved w i phase) := by
  have hkeep : ∀ {u n}, CounterIs s.world u n → ∃ m, CounterIs w u m := by
    intro u n hu
    rcases hcounters u with he | he
    · exact ⟨n, he.trans hu⟩
    · exact he
  constructor
  · exact h.nodup
  · intro j hj
    have hne : j ≠ i := fun he => hj (he ▸ hmem)
    show w[taskKey j]? = none
    rw [hothers j hne]
    exact h.fresh j hj
  · exact h.valid
  · intro j hj
    by_cases he : j = i
    · subst he
      simpa [Lifecycle.moved] using hrec
    · obtain ⟨p, f, hf⟩ := h.records j hj
      have hphase : (s.moved w i phase).phase j = s.phase j := Function.update_of_ne he _ _
      refine ⟨p, f, (hothers j he).trans hf.stored, hf.record, ?_, ?_⟩
      · rw [hphase]
        exact hf.status
      · rw [hphase]
        intro hp
        obtain ⟨u, n, hu, hworker, hn⟩ := hf.worker hp
        obtain ⟨m, hm⟩ := hkeep hn
        exact ⟨u, m, hu, hworker, hm⟩
  · intro u
    rcases hcounters u with he | he
    · rcases h.counters u with hu | ⟨n, hn⟩
      · exact Or.inl (he.trans hu)
      · exact Or.inr (hkeep hn)
    · exact Or.inr he

/-- If two predicates differ at one element only, so do the numbers of elements that satisfy them. -/
private theorem countP_change {l : List Bytes} (hl : l.Nodup) (hi : i ∈ l) {P P' : Bytes → Bool}
    (hother : ∀ j ∈ l, j ≠ i → P' j = P j) :
    l.countP P' + (if P i then 1 else 0) = l.countP P + if P' i then 1 else 0 := by
  induction l with
  | nil => simp at hi
  | cons x l ih =>
    rw [List.nodup_cons] at hl
    rw [List.countP_cons, List.countP_cons]
    by_cases hx : x = i
    · subst hx
      have hsame : l.countP P' = l.countP P := by
        apply List.countP_congr
        intro j hj
        rw [hother j (List.mem_cons_of_mem _ hj) (fun he => hl.1 (he ▸ hj))]
      omega
    · have hmem : i ∈ l := (List.mem_cons.1 hi).resolve_left fun he => hx he.symm
      have hrest := ih hl.2 hmem fun j hj => hother j (List.mem_cons_of_mem _ hj)
      rw [hother x List.mem_cons_self hx]
      omega

/-- The number of tasks on a worker, when one record has changed. -/
theorem LifecycleInv.countP_moved (h : LifecycleInv s) (hmem : i ∈ s.tasks)
    (hothers : ∀ j, j ≠ i → w[taskKey j]? = s.world[taskKey j]?) (u : Bytes) :
    s.tasks.countP (runsOn w u) + (if runsOn s.world u i then 1 else 0) =
      s.tasks.countP (runsOn s.world u) + if runsOn w u i then 1 else 0 := by
  apply countP_change h.nodup hmem
  intro j _ hj
  simp only [runsOn, recordText_congr (hothers j hj)]

theorem PhaseRecord.runsOn_eq {phase : Phase} {p : Int32} {f : StringMap Bytes} (h : PhaseRecord w i phase p f)
    (u : Bytes) : runsOn w u i = (decide (phase = .assigned) && decide ((f[bytes "worker_id"]?).getD [] = u)) := by
  have hone : (f[bytes "status"]?).getD [] = bytes "1" ↔ phase = .assigned := by
    rw [← h.status]
    constructor
    · intro he
      cases hs : f[bytes "status"]? with
      | none =>
        rw [hs] at he
        exact absurd he (by decide)
      | some text =>
        rw [hs, Option.getD_some] at he
        rw [he]
    · intro he
      rw [he, Option.getD_some]
  simp only [runsOn, recordText_of_hash h.stored, hone]

theorem PhaseRecord.not_runsOn {phase : Phase} {p : Int32} {f : StringMap Bytes} (h : PhaseRecord w i phase p f)
    (hphase : phase ≠ .assigned) (u : Bytes) : runsOn w u i = false := by
  rw [h.runsOn_eq]
  simp [hphase]

/-- The counter that a retry looks at. -/
theorem PhaseRecord.load_eq {phase : Phase} {p : Int32} {f : StringMap Bytes} {n : Int64}
    (h : PhaseRecord w i phase p f) (hworker : f[bytes "worker_id"]? = some v) (hn : CounterIs w v n) :
    workerLoad w (recordText w i (bytes "worker_id")) = n.toInt := by
  rw [recordText_of_hash h.stored, hworker, Option.getD_some, hn.workerLoad]

theorem PhaseRecord.usedUp_iff {phase : Phase} {p c : Int32} {f : StringMap Bytes} (h : PhaseRecord w i phase p f)
    (hcount : f[bytes "retry_count"]? = some (decimal c.toInt)) :
    (∃ c' : Int32, recordText w i (bytes "retry_count") = decimal c'.toInt ∧ 3 ≤ c') ↔ 3 ≤ c := by
  rw [recordText_of_hash h.stored, hcount, Option.getD_some]
  constructor
  · rintro ⟨c', he, hc'⟩
    rwa [Int32.toInt_inj.1 (decimal_injective he)]
  · exact fun hc => ⟨c, rfl, hc⟩

/-! ### One step -/

theorem LifecycleInv.unaccounted (h : LifecycleInv s) (hsame : Unaccounted s.world w) :
    LifecycleInv { s with world := w } := by
  refine ⟨h.nodup, fun i hi => (hsame.records i).trans (h.fresh i hi), h.valid, ?_, ?_⟩
  · intro i hi
    obtain ⟨p, f, hf⟩ := h.records i hi
    refine ⟨p, f, (hsame.records i).trans hf.stored, hf.record, hf.status, fun hp => ?_⟩
    obtain ⟨v, n, hv, hworker, hn⟩ := hf.worker hp
    exact ⟨v, n, hv, hworker, (hsame.counters v).trans hn⟩
  · intro v
    rcases h.counters v with hv | ⟨n, hn⟩
    · exact Or.inl ((hsame.counters v).trans hv)
    · exact Or.inr ⟨n, (hsame.counters v).trans hn⟩

theorem LifecycleInv.popped (h : LifecycleInv s) (hsame : Unaccounted s.world w) (hmem : i ∈ s.tasks)
    (hphase : s.phase i = .queued) : LifecycleInv (s.moved w i .popped) := by
  obtain ⟨p, f, hf⟩ := h.records i hmem
  apply h.moved hmem (fun j _ => hsame.records j) (fun u => Or.inl (hsame.counters u))
  refine ⟨p, f, (hsame.records i).trans hf.stored, hf.record, ?_, ?_⟩
  · rw [hf.status, hphase]
    simp
  · rintro (he | he) <;> cases he

theorem Accounted.unaccounted (h : Accounted s) (hsame : Unaccounted s.world w) (u : Bytes) :
    workerLoad w u = s.tasks.countP (runsOn w u) := by
  have hruns : runsOn w u = runsOn s.world u := by
    funext j
    simp only [runsOn, recordText_congr (hsame.records j)]
  rw [workerLoad_congr (hsame.counters u), hruns]
  exact h u

theorem LifecycleInv.submitted (h : LifecycleInv s) {info : TaskInfo} (hi : ValidId i) (hfresh : i ∉ s.tasks)
    (hs : info.status = 0) (hsame : Unaccounted (s.world.insert (taskKey i) (.hash (recordFields info))) w) :
    LifecycleInv ⟨w, i :: s.tasks, Function.update s.phase i .queued⟩ ∧
      (Accounted s → Accounted ⟨w, i :: s.tasks, Function.update s.phase i .queued⟩) := by
  have hne : ∀ j ∈ s.tasks, j ≠ i := fun j hj he => hfresh (he ▸ hj)
  have hother : ∀ j, j ≠ i → w[taskKey j]? = s.world[taskKey j]? := by
    intro j hj
    rw [hsame.records]
    simp [hj.symm]
  have hload : ∀ u, w[workerLoadKey u]? = s.world[workerLoadKey u]? := by
    intro u
    rw [hsame.counters]
    simp
  have hnew : PhaseRecord w i .queued info.priority (recordFields info) := by
    refine ⟨?_, recordFields_record info, ?_, ?_⟩
    · rw [hsame.records]
      simp
    · rw [recordFields_pending hs]
      decide
    · rintro (he | he) <;> cases he
  constructor
  · constructor
    · exact List.nodup_cons.2 ⟨hfresh, h.nodup⟩
    · intro j hj
      have hji : j ≠ i := fun he => hj (he ▸ List.mem_cons_self)
      exact (hother j hji).trans (h.fresh j fun hm => hj (List.mem_cons_of_mem _ hm))
    · intro j hj
      rcases List.mem_cons.1 hj with rfl | hj
      · exact hi
      · exact h.valid j hj
    · intro j hj
      rcases List.mem_cons.1 hj with rfl | hj
      · exact ⟨_, _, by simpa using hnew⟩
      · obtain ⟨p, f, hf⟩ := h.records j hj
        have hphase : Function.update s.phase i .queued j = s.phase j := Function.update_of_ne (hne j hj) _ _
        have hrec : PhaseRecord w j (s.phase j) p f := by
          refine ⟨(hother j (hne j hj)).trans hf.stored, hf.record, hf.status, ?_⟩
          intro hp
          obtain ⟨u, n, hu, hworker, hn⟩ := hf.worker hp
          exact ⟨u, n, hu, hworker, (hload u).trans hn⟩
        refine ⟨p, f, ?_⟩
        show PhaseRecord w j (Function.update s.phase i .queued j) p f
        rw [hphase]
        exact hrec
    · intro u
      rcases h.counters u with hu | ⟨n, hn⟩
      · exact Or.inl ((hload u).trans hu)
      · exact Or.inr ⟨n, (hload u).trans hn⟩
  -- the new task is pending, so it runs on no worker
  · intro hacc u
    have hruns : s.tasks.countP (runsOn w u) = s.tasks.countP (runsOn s.world u) := by
      apply List.countP_congr
      intro j hj
      simp only [runsOn, recordText_congr (hother j (hne j hj))]
    show workerLoad w u = ((i :: s.tasks).countP (runsOn w u) : Nat)
    rw [List.countP_cons, hnew.not_runsOn (by decide), hruns, workerLoad_congr (hload u), hacc u]
    simp

theorem assignFields_record {p : Int32} {f : StringMap Bytes} (hr : TaskRecord p f) (v : Bytes) (now : Int64) :
    TaskRecord p (assignFields f v now) := by
  unfold assignFields
  refine ((hr.insert (by decide) (by decide) ?_).insert (by decide)
    (by decide) ?_).insert (by decide) (by decide) ?_
  · exact fun _ => ⟨1, by decide⟩
  · exact fun hf => absurd hf (by decide)
  · exact fun _ => ⟨now, rfl⟩

@[simp] theorem assignFields_status (f : StringMap Bytes) (v : Bytes) (now : Int64) :
    (assignFields f v now)[bytes "status"]? = some (bytes "1") := by
  have hne : bytes "worker_id" ≠ bytes "status" ∧ bytes "started_at" ≠ bytes "status" := by decide
  simp only [assignFields, getElem?_insert, hne, if_true, if_false]

@[simp] theorem assignFields_worker (f : StringMap Bytes) (v : Bytes) (now : Int64) :
    (assignFields f v now)[bytes "worker_id"]? = some v := by
  have hne : bytes "started_at" ≠ bytes "worker_id" := by decide
  simp only [assignFields, getElem?_insert, hne, if_true, if_false]

theorem LifecycleInv.assigned (h : LifecycleInv s) (hmem : i ∈ s.tasks) (hphase : s.phase i = .popped)
    (hv : ValidId v) {τ : List (Event Effect Effect.Answer)} {o : Except StdException Bool}
    (hrun : Run (served False) (assignTaskToWorker i v) s.world τ o w) :
    LifecycleInv (s.moved w i .assigned) ∧ (Accounted s → Accounted (s.moved w i .assigned)) := by
  obtain ⟨p, f, hf⟩ := h.records i hmem
  -- a counter that does not exist yet counts from 0
  obtain ⟨n, hn⟩ : ∃ n, CounterIs s.world v n ∨ s.world[workerLoadKey v]? = none ∧ n = 0 := by
    rcases h.counters v with hnone | ⟨n, hn⟩
    · exact ⟨0, Or.inr ⟨hnone, rfl⟩⟩
    · exact ⟨n, Or.inl hn⟩
  have hload : workerLoad s.world v = n.toInt := by
    rcases hn with hn | ⟨hnone, rfl⟩
    · exact hn.workerLoad
    · exact workerLoad_of_none hnone
  obtain ⟨now, m, hm, hw⟩ := (ends_assignTaskToWorker (h.valid i hmem) hv hf.record hf.stored hn).run hrun
  have hothers : ∀ j, j ≠ i → w[taskKey j]? = s.world[taskKey j]? := by
    intro j hj
    rw [hw]
    simp [hj.symm]
  have hrecord : w[taskKey i]? = some (.hash (assignFields f v now)) := by
    rw [hw, getElem?_insert, if_neg (workerLoadKey_ne_taskKey v i), lookup_inserted]
  have hcounter : CounterIs w v m := by
    rw [hw]
    exact lookup_inserted _ _ _
  have hload' : ∀ u, v ≠ u → w[workerLoadKey u]? = s.world[workerLoadKey u]? := by
    intro u hu
    rw [hw]
    simp [hu]
  have hnew : PhaseRecord w i .assigned p (assignFields f v now) := by
    refine ⟨hrecord, assignFields_record hf.record v now, ?_, fun _ => ⟨v, m, hv, ?_, hcounter⟩⟩
    · simp
    · simp
  constructor
  · apply h.moved hmem hothers
    · intro u
      by_cases he : v = u
      · exact Or.inr ⟨m, he ▸ hcounter⟩
      · exact Or.inl (hload' u he)
    · exact ⟨p, _, hnew⟩
  · intro hacc u
    -- the task that moves is the only one whose worker changes
    have hcount := h.countP_moved hmem hothers u
    rw [hf.not_runsOn (by rw [hphase]; decide), hnew.runsOn_eq, assignFields_worker, Option.getD_some] at hcount
    show workerLoad w u = (s.tasks.countP (runsOn w u) : Nat)
    by_cases he : v = u
    · subst he
      have hbefore := hacc v
      simp only [decide_true, Bool.and_true, if_true, Bool.false_eq_true, if_false] at hcount
      rw [hcounter.workerLoad]
      omega
    · have hbefore := hacc u
      simp only [he, decide_false, Bool.and_false, Bool.false_eq_true, if_false] at hcount
      rw [workerLoad_congr (hload' u he)]
      omega

theorem Decremented.counters {n : Int64} (h : Decremented w v n w') (u : Bytes) :
    w'[workerLoadKey u]? = w[workerLoadKey u]? ∨ ∃ m, CounterIs w' u m := by
  unfold Decremented at h
  split at h
  · obtain ⟨m, -, rfl⟩ := h
    by_cases he : v = u
    · exact Or.inr ⟨m, he ▸ lookup_inserted _ _ _⟩
    · exact Or.inl (by simp [he])
  · exact Or.inl (by rw [h])

theorem Decremented.other {n : Int64} (h : Decremented w v n w') {u : Bytes} (hu : v ≠ u) :
    w'[workerLoadKey u]? = w[workerLoadKey u]? := by
  unfold Decremented at h
  split at h
  · obtain ⟨m, -, rfl⟩ := h
    simp [hu]
  · rw [h]

theorem Decremented.load {n : Int64} (h : Decremented w v n w') (hn : CounterIs w v n) :
    workerLoad w' v = if 0 < n.toInt then n.toInt - 1 else n.toInt := by
  obtain ⟨m, hm, hload⟩ := h.counter hn
  rw [hm.workerLoad, hload, decrementedLoad]

/-- A report ends a running task: the task is taken off its worker's counter. -/
theorem LifecycleInv.ended (h : LifecycleInv s) (hmem : i ∈ s.tasks) {p : Int32}
    {f f' : StringMap Bytes} {n : Int64}
    (hf : PhaseRecord s.world i .assigned p f) (hv : ValidId v) (hworker : f[bytes "worker_id"]? = some v)
    (hn : CounterIs s.world v n) (hrec : TaskRecord p f') (hstatus : f'[bytes "status"]? ≠ some (bytes "1"))
    (hsame : f'[bytes "worker_id"]? = some v) (hdec : Decremented (s.world.insert (taskKey i) (.hash f')) v n w)
    {phase : Phase} (hphase : phase ≠ .assigned) :
    LifecycleInv (s.moved w i phase) ∧ (Accounted s → Accounted (s.moved w i phase)) := by
  have hothers : ∀ j, j ≠ i → w[taskKey j]? = s.world[taskKey j]? := by
    intro j hj
    rw [hdec.records]
    simp [hj.symm]
  have hload : ∀ u, (s.world.insert (taskKey i) (.hash f'))[workerLoadKey u]? = s.world[workerLoadKey u]? := by
    intro u
    simp
  have hcounters : ∀ u, w[workerLoadKey u]? = s.world[workerLoadKey u]? ∨ ∃ m, CounterIs w u m := by
    intro u
    rcases hdec.counters u with he | he
    · exact Or.inl (he.trans (hload u))
    · exact Or.inr he
  have hnew : PhaseRecord w i phase p f' := by
    refine ⟨?_, hrec, ⟨fun he => absurd he hstatus, fun he => absurd he hphase⟩, fun _ => ?_⟩
    · rw [hdec.records]
      exact lookup_inserted _ _ _
    · rcases hcounters v with he | ⟨m, hm⟩
      · exact ⟨v, n, hv, hsame, he.trans hn⟩
      · exact ⟨v, m, hv, hsame, hm⟩
  constructor
  · exact h.moved hmem hothers hcounters ⟨p, f', hnew⟩
  · intro hacc u
    have hcount := h.countP_moved hmem hothers u
    rw [hf.runsOn_eq, hnew.not_runsOn hphase, hworker, Option.getD_some] at hcount
    have hbefore := hacc u
    show workerLoad w u = (s.tasks.countP (runsOn w u) : Nat)
    by_cases he : v = u
    · subst he
      simp only [decide_true, Bool.and_true, if_true, Bool.false_eq_true, if_false] at hcount
      rw [hn.workerLoad] at hbefore
      -- the task itself is counted, so the clamp at zero does not strike
      have hpos : 0 < n.toInt := by omega
      rw [hdec.load ((hload v).trans hn), if_pos hpos]
      omega
    · simp only [he, decide_false, Bool.and_false, Bool.false_eq_true, if_false] at hcount
      rw [workerLoad_congr ((hdec.other he).trans (hload u))]
      omega

theorem statusFields_status (f : StringMap Bytes) (status : Int32) (errorMsg : Bytes) (now : Int64) :
    (statusFields f status errorMsg now)[bytes "status"]? = some (decimal status.toInt) := by
  have hne : bytes "finished_at" ≠ bytes "status" ∧ bytes "error_message" ≠ bytes "status" := by decide
  unfold statusFields
  split <;> simp only [getElem?_insert, hne, if_true, if_false]

theorem statusFields_worker (f : StringMap Bytes) (status : Int32) (errorMsg : Bytes) (now : Int64) :
    (statusFields f status errorMsg now)[bytes "worker_id"]? = f[bytes "worker_id"]? := by
  have hne : bytes "finished_at" ≠ bytes "worker_id" ∧ bytes "error_message" ≠ bytes "worker_id" ∧
      bytes "status" ≠ bytes "worker_id" := by decide
  unfold statusFields
  split <;> simp only [getElem?_insert, hne, if_false]

theorem TaskRecord.ended {p : Int32} {f : StringMap Bytes} (hr : TaskRecord p f) (status : Int32) (errorMsg : Bytes)
    (now : Int64) : TaskRecord p (statusFields f status errorMsg now) := by
  have hone : TaskRecord p (f.insert (bytes "status") (decimal status.toInt)) := by
    apply hr.insert (by decide) (by decide)
    intro _
    exact ⟨status.toInt64, by rw [Int32.toInt_toInt64]⟩
  have hnow : bytes "finished_at" ∈ numberFields → ∃ n : Int64, decimal now.toInt = decimal n.toInt :=
    fun _ => ⟨now, rfl⟩
  unfold statusFields
  split
  · exact hone.insert (by decide) (by decide) hnow
  · exact (hone.insert (by decide) (by decide) (fun hf => absurd hf (by decide))).insert (by decide)
      (by decide) hnow

theorem LifecycleInv.completed (h : LifecycleInv s) (hmem : i ∈ s.tasks) (hphase : s.phase i = .assigned)
    {result : TaskResult} {τ : List (Event Effect Effect.Answer)} {o : Except StdException Bool}
    (hrun : Run (served False) (completeTask i result) s.world τ o w) :
    LifecycleInv (s.moved w i .completed) ∧ (Accounted s → Accounted (s.moved w i .completed)) := by
  obtain ⟨p, f, hf⟩ := h.records i hmem
  rw [hphase] at hf
  obtain ⟨v, n, hv, hworker, hn⟩ := hf.worker (Or.inl rfl)
  obtain ⟨now, hdec⟩ := (ends_completeTask (h.valid i hmem) hv hf.stored hworker hn result).run hrun
  have hne : bytes "result" ≠ bytes "status" ∧ bytes "result" ≠ bytes "worker_id" := by decide
  refine h.ended hmem hf hv hworker hn ?_ ?_ ?_ hdec (by decide)
  · exact (hf.record.ended 2 [] now).insert (by decide) (by decide) (fun hf => absurd hf (by decide))
  · rw [getElem?_insert, if_neg hne.1, statusFields_status]
    decide
  · rw [getElem?_insert, if_neg hne.2, statusFields_worker, hworker]

theorem LifecycleInv.failed (h : LifecycleInv s) (hmem : i ∈ s.tasks) (hphase : s.phase i = .assigned)
    {error : Bytes} {τ : List (Event Effect Effect.Answer)} {o : Except StdException Bool}
    (hrun : Run (served False) (failTask i error) s.world τ o w) :
    LifecycleInv (s.moved w i .failed) ∧ (Accounted s → Accounted (s.moved w i .failed)) := by
  obtain ⟨p, f, hf⟩ := h.records i hmem
  rw [hphase] at hf
  obtain ⟨v, n, hv, hworker, hn⟩ := hf.worker (Or.inl rfl)
  obtain ⟨now, hdec⟩ := (ends_failTask (h.valid i hmem) hv hf.stored hworker hn error).run hrun
  refine h.ended hmem hf hv hworker hn (hf.record.ended 3 error now) ?_ ?_ hdec (by decide)
  · rw [statusFields_status]
    decide
  · rw [statusFields_worker, hworker]

/-- A retry keeps the accounts if it is idle, and otherwise takes a task off the counter that does not run. -/
theorem LifecycleInv.retried (h : LifecycleInv s) (hmem : i ∈ s.tasks) (hphase : s.phase i = .failed)
    {τ : List (Event Effect Effect.Answer)} {o : Except StdException Bool}
    (hrun : Run (served False) (retryTask i) s.world τ o w) {phase : Phase}
    (hnext : phase = .queued ∨ phase = .failed) :
    LifecycleInv (s.moved w i phase) ∧
      (Accounted s → (Accounted (s.moved w i phase) ↔ RetryIdle s.world (.retryTask i))) := by
  obtain ⟨p, f, hf⟩ := h.records i hmem
  rw [hphase] at hf
  obtain ⟨v, n, hv, hworker, hn⟩ := hf.worker (Or.inr rfl)
  obtain ⟨c, hcount, hcases⟩ := (ends_retryTask (h.valid i hmem) hv hf.record hf.stored hworker hn).run hrun
  have hidle : phase ≠ .assigned := by rcases hnext with rfl | rfl <;> decide
  have hstatus : f[bytes "status"]? ≠ some (bytes "1") := fun he => absurd (hf.status.1 he) (by decide)
  have hcond : RetryIdle s.world (.retryTask i) ↔ 3 ≤ c ∨ n.toInt = 0 := by
    simp only [RetryIdle, hf.load_eq hworker hn, hf.usedUp_iff hcount]
  -- what the counters do decides; the record keeps status and worker
  have hmoved : ∀ {f'}, w[taskKey i]? = some (.hash f') → TaskRecord p f' →
      f'[bytes "status"]? = f[bytes "status"]? → f'[bytes "worker_id"]? = f[bytes "worker_id"]? →
      (∀ j, j ≠ i → w[taskKey j]? = s.world[taskKey j]?) →
      (∀ u, w[workerLoadKey u]? = s.world[workerLoadKey u]? ∨ ∃ m, CounterIs w u m) →
      LifecycleInv (s.moved w i phase) ∧
        ∀ u, s.tasks.countP (runsOn w u) = s.tasks.countP (runsOn s.world u) := by
    intro f' hstored hrec hst hwk hothers hcounters
    have hnew : PhaseRecord w i phase p f' := by
      refine ⟨hstored, hrec, ⟨fun he => absurd (hst ▸ he) hstatus, fun he => absurd he hidle⟩, fun _ => ?_⟩
      rcases hcounters v with he | ⟨m, hm⟩
      · exact ⟨v, n, hv, hwk.trans hworker, he.trans hn⟩
      · exact ⟨v, m, hv, hwk.trans hworker, hm⟩
    refine ⟨h.moved hmem hothers hcounters ⟨p, f', hnew⟩, fun u => ?_⟩
    have hcountP := h.countP_moved hmem hothers u
    rw [hf.not_runsOn (by decide), hnew.not_runsOn hidle] at hcountP
    simpa using hcountP
  split at hcases
  · rename_i hmax
    obtain ⟨-, rfl⟩ := hcases
    -- the retries are used up: nothing changes
    obtain ⟨hinv, hruns⟩ := hmoved hf.stored hf.record rfl rfl (fun _ _ => rfl) (fun _ => Or.inl rfl)
    refine ⟨hinv, fun hacc => ⟨fun _ => hcond.2 (Or.inl hmax), fun _ u => ?_⟩⟩
    exact hacc u
  · rename_i hmax
    obtain ⟨u, hdec, hretried, -⟩ := hcases
    have hothers : ∀ j, j ≠ i → w[taskKey j]? = s.world[taskKey j]? :=
      fun j hj => (hretried.records j hj).trans (hdec.records j)
    have hcounters : ∀ x, w[workerLoadKey x]? = s.world[workerLoadKey x]? ∨ ∃ m, CounterIs w x m := by
      intro x
      rcases hdec.counters x with he | ⟨m, hm⟩
      · exact Or.inl ((hretried.counters x).trans he)
      · exact Or.inr ⟨m, (hretried.counters x).trans hm⟩
    have hne : bytes "retry_count" ≠ bytes "status" ∧ bytes "retry_count" ≠ bytes "worker_id" := by decide
    obtain ⟨hinv, hruns⟩ : LifecycleInv (s.moved w i phase) ∧
        ∀ u, s.tasks.countP (runsOn w u) = s.tasks.countP (runsOn s.world u) := by
      rcases hretried.record with hrec | ⟨c', hrec⟩
      · exact hmoved hrec hf.record rfl rfl hothers hcounters
      · refine hmoved hrec (hf.record.retried c') ?_ ?_ hothers hcounters
        · rw [getElem?_insert, if_neg hne.1]
        · rw [getElem?_insert, if_neg hne.2]
    refine ⟨hinv, fun hacc => ?_⟩
    -- nobody runs the task, so the decrement breaks the account unless the counter is 0
    have hload : workerLoad w v = if 0 < n.toInt then n.toInt - 1 else n.toInt := by
      rw [workerLoad_congr (hretried.counters v), hdec.load hn]
    have hbefore := hacc v
    rw [hn.workerLoad] at hbefore
    rw [hcond]
    constructor
    · intro hafter
      right
      have hv' : workerLoad w v = (s.tasks.countP (runsOn w v) : Nat) := hafter v
      rw [hload, hruns, ← hbefore] at hv'
      split at hv' <;> omega
    · rintro (hc | hzero) x
      · exact absurd hc hmax
      · show workerLoad w x = (s.tasks.countP (runsOn w x) : Nat)
        rw [hruns, ← hacc x]
        by_cases he : v = x
        · subst he
          rw [hload, hn.workerLoad, if_neg (by omega)]
        · exact workerLoad_congr ((hretried.counters x).trans (hdec.other he))

end Steps

/-! ### Whole runs -/

theorem LifecycleStep.spec {s s' : Lifecycle} {op : Operation} (h : LifecycleInv s) (hs : LifecycleStep s op s') :
    LifecycleInv s' ∧ (Accounted s → (Accounted s' ↔ RetryIdle s.world op)) := by
  cases hs with
  | submitTask hid hfresh hrun =>
    obtain ⟨-, info, hinfo, hsame, -⟩ := (ends_submitTask hid (h.fresh _ hfresh)).run hrun
    obtain ⟨hinv, hacc⟩ := h.submitted hid hfresh hinfo.status hsame
    exact ⟨hinv, fun ha => iff_of_true (hacc ha) trivial⟩
  | popNothing hrun ho =>
    obtain ⟨_, -, hpopped⟩ := returns_popNextTask.run hrun
    have hsame := hpopped.same
    exact ⟨h.unaccounted hsame, fun ha => iff_of_true (ha.unaccounted hsame) trivial⟩
  | popNextTask hmem hphase hrun =>
    obtain ⟨_, -, hpopped⟩ := returns_popNextTask.run hrun
    have hsame := hpopped.same
    exact ⟨h.popped hsame hmem hphase, fun ha => iff_of_true (ha.unaccounted hsame) trivial⟩
  | assignTaskToWorker hmem hphase hv hrun =>
    obtain ⟨hinv, hacc⟩ := h.assigned hmem hphase hv hrun
    exact ⟨hinv, fun ha => iff_of_true (hacc ha) trivial⟩
  | completeTask hmem hphase hrun =>
    obtain ⟨hinv, hacc⟩ := h.completed hmem hphase hrun
    exact ⟨hinv, fun ha => iff_of_true (hacc ha) trivial⟩
  | failTask hmem hphase hrun =>
    obtain ⟨hinv, hacc⟩ := h.failed hmem hphase hrun
    exact ⟨hinv, fun ha => iff_of_true (hacc ha) trivial⟩
  | retryTask hmem hphase hrun =>
    exact h.retried hmem hphase hrun (by split <;> simp)
  | retryThrows hmem hphase hrun =>
    exact h.retried hmem hphase hrun (Or.inr rfl)

theorem accounted_iff_of_inv {s : Lifecycle} {run : List (Operation × Lifecycle)} (h : LifecycleInv s)
    (hacc : Accounted s) (hrun : IsLifecycle s run) : (∀ p ∈ run, Accounted p.2) ↔ RetriesIdle s run := by
  induction run generalizing s with
  | nil => simp [RetriesIdle]
  | cons p rest ih =>
    obtain ⟨op, s'⟩ := p
    obtain ⟨hstep, hrest⟩ := hrun
    obtain ⟨hinv, hnext⟩ := hstep.spec h
    have hone := hnext hacc
    constructor
    · intro hall
      have hacc' : Accounted s' := hall _ List.mem_cons_self
      exact ⟨hone.1 hacc', (ih hinv hacc' hrest).1 fun p hp => hall p (List.mem_cons_of_mem _ hp)⟩
    · rintro ⟨hidle, hidles⟩ p hp
      have hacc' : Accounted s' := hone.2 hidle
      rcases List.mem_cons.1 hp with rfl | hp
      · exact hacc'
      · exact (ih hinv hacc' hrest).2 hidles p hp

theorem LifecycleInv.start : LifecycleInv .start := by
  constructor <;> simp [Lifecycle.start]

theorem Accounted.start : Accounted .start := by
  intro v
  simp [Lifecycle.start, workerLoad]

/-- The counters are the numbers of running tasks after every call of a run if and only if every retry in it is
idle. -/
theorem load_accounting_iff {run : List (Operation × Lifecycle)} (hrun : IsLifecycle .start run) :
    (∀ p ∈ run, Accounted p.2) ↔ RetriesIdle .start run :=
  accounted_iff_of_inv LifecycleInv.start Accounted.start hrun

/-! ### A run that loses count -/

/-- Runs a call while nothing fails and the clock stands still. -/
def Lifecycle.after {α : Type} (s : Lifecycle) (p : Code α)
    (next : Except StdException α → Keyspace → Option Lifecycle) : Option Lifecycle :=
  match p.play (answer (fun _ => false) []) s.world with
  | some (_, o, w) => next o w
  | none => none

theorem Lifecycle.after_run {α : Type} {s s' : Lifecycle} {p : Code α}
    {next : Except StdException α → Keyspace → Option Lifecycle} (h : s.after p next = some s') :
    ∃ τ o w, Run (served False) p s.world τ o w ∧ next o w = some s' := by
  unfold Lifecycle.after at h
  split at h
  · rename_i τ o w hplay
    exact ⟨τ, o, w, Run.of_play answer_fault_free hplay, h⟩
  · cases h

/-- One call of the run, if it is due. -/
def Lifecycle.call (s : Lifecycle) : Operation → Option Lifecycle
  | .submitTask task =>
    if task.id ≠ [] ∧ 0 ∉ task.id ∧ task.id ∉ s.tasks then
      s.after (Taskflow.submitTask task) fun _ w =>
        some ⟨w, task.id :: s.tasks, Function.update s.phase task.id .queued⟩
    else none
  | .popNextTask =>
    s.after Taskflow.popNextTask fun
      | .ok i, w => if i ∈ s.tasks ∧ s.phase i = .queued then some (s.moved w i .popped) else none
      | .error _, _ => none
  | .assignTaskToWorker i v =>
    if i ∈ s.tasks ∧ s.phase i = .popped ∧ v ≠ [] ∧ 0 ∉ v then
      s.after (Taskflow.assignTaskToWorker i v) fun _ w => some (s.moved w i .assigned)
    else none
  | .completeTask i result =>
    if i ∈ s.tasks ∧ s.phase i = .assigned then
      s.after (Taskflow.completeTask i result) fun _ w => some (s.moved w i .completed)
    else none
  | .failTask i error =>
    if i ∈ s.tasks ∧ s.phase i = .assigned then
      s.after (Taskflow.failTask i error) fun _ w => some (s.moved w i .failed)
    else none
  | .retryTask i =>
    if i ∈ s.tasks ∧ s.phase i = .failed then
      s.after (Taskflow.retryTask i) fun
        | .ok b, w => some (s.moved w i (if b then .queued else .failed))
        | .error _, w => some (s.moved w i .failed)
    else none
  | .dispatchIteration => none

theorem Lifecycle.call_step {s s' : Lifecycle} {op : Operation} (h : s.call op = some s') :
    LifecycleStep s op s' := by
  cases op with
  | submitTask task =>
    simp only [Lifecycle.call] at h
    split at h
    · rename_i hc
      obtain ⟨τ, o, w, hrun, he⟩ := Lifecycle.after_run h
      cases he
      exact .submitTask ⟨hc.1, hc.2.1⟩ hc.2.2 hrun
    · cases h
  | popNextTask =>
    simp only [Lifecycle.call] at h
    obtain ⟨τ, o, w, hrun, he⟩ := Lifecycle.after_run h
    cases o with
    | error x => cases he
    | ok i =>
      simp only at he
      split at he
      · rename_i hc
        cases he
        exact .popNextTask hc.1 hc.2 hrun
      · cases he
  | assignTaskToWorker i v =>
    simp only [Lifecycle.call] at h
    split at h
    · rename_i hc
      obtain ⟨τ, o, w, hrun, he⟩ := Lifecycle.after_run h
      cases he
      exact .assignTaskToWorker hc.1 hc.2.1 ⟨hc.2.2.1, hc.2.2.2⟩ hrun
    · cases h
  | completeTask i result =>
    simp only [Lifecycle.call] at h
    split at h
    · rename_i hc
      obtain ⟨τ, o, w, hrun, he⟩ := Lifecycle.after_run h
      cases he
      exact .completeTask hc.1 hc.2 hrun
    · cases h
  | failTask i error =>
    simp only [Lifecycle.call] at h
    split at h
    · rename_i hc
      obtain ⟨τ, o, w, hrun, he⟩ := Lifecycle.after_run h
      cases he
      exact .failTask hc.1 hc.2 hrun
    · cases h
  | retryTask i =>
    simp only [Lifecycle.call] at h
    split at h
    · rename_i hc
      obtain ⟨τ, o, w, hrun, he⟩ := Lifecycle.after_run h
      cases o with
      | ok b =>
        cases he
        exact .retryTask hc.1 hc.2 hrun
      | error x =>
        cases he
        exact .retryThrows hc.1 hc.2 hrun
    · cases h
  | dispatchIteration => cases h

/-- The calls one after the other. -/
def Lifecycle.calls : Lifecycle → List Operation → Option (List (Operation × Lifecycle))
  | _, [] => some []
  | s, op :: ops =>
    match s.call op with
    | none => none
    | some s' => (s'.calls ops).map fun run => (op, s') :: run

theorem Lifecycle.calls_isLifecycle {s : Lifecycle} {ops : List Operation} {run : List (Operation × Lifecycle)}
    (h : s.calls ops = some run) : IsLifecycle s run := by
  induction ops generalizing s run with
  | nil =>
    cases h
    trivial
  | cons op ops ih =>
    rw [Lifecycle.calls] at h
    split at h
    · cases h
    · rename_i s' hs'
      obtain ⟨rest, hrest, rfl⟩ := Option.map_eq_some_iff.1 h
      exact ⟨Lifecycle.call_step hs', ih hrest⟩

/-- Two tasks run on `worker-1`; one of them fails and is retried. -/
private def retryBesideRunning : List Operation :=
  let request (id : String) : TaskRequest :=
    { id := bytes id, type := 0, priority := 1, data := [], createdAt := 0 }
  [.submitTask (request "1"), .submitTask (request "2"), .popNextTask, .popNextTask,
    .assignTaskToWorker (bytes "1") (bytes "worker-1"), .assignTaskToWorker (bytes "2") (bytes "worker-1"),
    .failTask (bytes "1") (bytes "error"), .retryTask (bytes "1")]

private theorem retryBesideRunning_counts : ∃ run, Lifecycle.start.calls retryBesideRunning = some run ∧
    (run.getLast?.map fun p => (workerLoad p.2.world (bytes "worker-1"),
      p.2.tasks.countP (runsOn p.2.world (bytes "worker-1")))) = some (0, 1) := by
  have h : ((Lifecycle.start.calls retryBesideRunning).bind fun run => run.getLast?.map fun p =>
      (workerLoad p.2.world (bytes "worker-1"), p.2.tasks.countP (runsOn p.2.world (bytes "worker-1")))) =
      some (0, 1) := by decide
  obtain ⟨run, hrun, hlast⟩ := Option.bind_eq_some_iff.1 h
  exact ⟨run, hrun, hlast⟩

/-- After such a retry the counter is zero while one task runs. -/
theorem load_accounting_fails : ¬∀ run, IsLifecycle .start run → ∀ p ∈ run, Accounted p.2 := by
  intro h
  obtain ⟨run, hcalls, hlast⟩ := retryBesideRunning_counts
  obtain ⟨p, hp, hcounts⟩ := Option.map_eq_some_iff.1 hlast
  have hacc := h run (Lifecycle.calls_isLifecycle hcalls) p (List.mem_of_getLast? hp) (bytes "worker-1")
  injection hcounts with hload hcount
  rw [hload, hcount] at hacc
  cases hacc

theorem load_accounting_iff_retryBesideRunning : ∃ run, IsLifecycle .start run ∧
    Lifecycle.start.calls retryBesideRunning = some run ∧
    ((∀ p ∈ run, Accounted p.2) ↔ RetriesIdle .start run) := by
  obtain ⟨run, hcalls, -⟩ := retryBesideRunning_counts
  have hrun := Lifecycle.calls_isLifecycle hcalls
  exact ⟨run, hrun, hcalls, load_accounting_iff hrun⟩

end Taskflow
