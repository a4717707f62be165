import Taskflow.Lib.Threads
import Taskflow.Queues

/-!
# Submitters and dispatch loops

Any number of `submitTask` calls and of `taskDispatchLoop` threads share one Redis, interleaved command by command
(`dispatchSystem`).  A thread's note says how far it has come: a submitter has saved its record and pushed its id;
a dispatch loop holds the id it popped until it has pushed it back or stored status and `worker_id`.

`TaskInv` says where one submitted task can be, in terms of the stored record, the three lists and the notes of the
loops: not yet stored, stored, queued, held by one loop, or assigned.  A step that touches neither the record of a
task, nor its positions in the lists, nor the loop that works on it, leaves it where it is (`TaskInv.frame`).
-/

namespace Taskflow

open Text Effects Prog

/-- What a thread has done so far. -/
inductive Note where
  | idle
  | saved
  | pushed
  | holding (taskId : Bytes) (marked : Bool)
  | assigned (taskId : Bytes)
  deriving DecidableEq

/-- The task that a dispatch loop has popped and has neither pushed back nor assigned; a task is assigned when its
status and its worker are stored. -/
def Note.held : Note → Option Bytes
  | .holding taskId _ => some taskId
  | _ => none

/-- The task that a dispatch loop works on, until its next iteration. -/
def Note.task : Note → Option Bytes
  | .holding taskId _ => some taskId
  | .assigned taskId => some taskId
  | _ => none

theorem Note.task_of_held {note : Note} {i : Bytes} (h : note.held = some i) : note.task = some i := by
  cases note with
  | holding j m => exact h
  | _ => simp [Note.held] at h

/-- How a command that succeeded changes the note of the thread that issued it. -/
def observe (note : Note) : Event Effect Effect.Answer → Note
  | ⟨.command _ (.hmset _ _), reply⟩ => if succeeded reply then .saved else note
  | ⟨.command _ (.rpush _ _), reply⟩ => if succeeded reply then .pushed else note
  | ⟨.command _ (.lpop _), reply⟩ => if replyText reply = [] then note else .holding (replyText reply) false
  | ⟨.command _ (.hset key field _), reply⟩ =>
    match note with
    | .holding taskId _ =>
      if succeeded reply ∧ key = taskKey taskId ∧ field = bytes "status" then .holding taskId true
      else if succeeded reply ∧ key = taskKey taskId ∧ field = bytes "worker_id" then .assigned taskId
      else note
    | _ => note
  | _ => note

/-- How a thread of the pool ends: a submitter with the value of its call, a dispatch loop with an iteration. -/
inductive ThreadResult where
  | submitted (ok : Bool)
  | iterated
  deriving DecidableEq

def submitThread (task : TaskRequest) : Code ThreadResult := do
  let ok ← submitTask task
  return .submitted ok

def dispatchThread : Code ThreadResult := do
  taskDispatchIteration
  return .iterated

variable {σ δ : Type}

/-- A submitter runs once; a dispatch loop starts its next iteration when one has ended. -/
def dispatchSystem (σ δ : Type) :
    System (σ ⊕ δ) Effect Effect.Answer StdException ThreadResult Keyspace Note where
  sem := served False
  observe := observe
  fresh := .idle
  again
    | .inl _ => none
    | .inr _ => some dispatchThread

/-- The tasks that are submitted, to a Redis that does not know them.  Their ids are distinct and as `SubmitTask`
makes them; the lists may hold other ids. -/
structure Workload (σ : Type) where
  request : σ → TaskRequest
  initial : Keyspace
  valid : ∀ s, ValidId (request s).id
  distinct : Function.Injective fun s => (request s).id
  queues : ∀ q ∈ queueKeys, IsQueue initial q
  items : ∀ q ∈ queueKeys, ∀ x ∈ queueItems initial q, ValidId x ∧ ∀ s, x ≠ (request s).id
  fresh : ∀ s, initial[taskKey (request s).id]? = none

/-- No thread has started. -/
def Workload.start (W : Workload σ) (δ : Type) :
    Pool (σ ⊕ δ) Effect Effect.Answer StdException ThreadResult Keyspace Note where
  world := W.initial
  thread
    | .inl s => ⟨submitThread (W.request s), .idle⟩
    | .inr _ => ⟨dispatchThread, .idle⟩

/-! ### Where a task can be -/

/-- The stored record of a task: a hash whose fields satisfy `A`. -/
def Stored (w : Keyspace) (i : Bytes) (A : StringMap Bytes → Prop) : Prop :=
  ∃ h, w[taskKey i]? = some (.hash h) ∧ A h

/-- A record with a status and without a worker. -/
def Pending (p : Int32) (status : Bytes) (h : StringMap Bytes) : Prop :=
  TaskRecord p h ∧ h[bytes "status"]? = some status ∧ h[bytes "worker_id"]? = none

/-- A record with status `1` and a worker. -/
def Running (p : Int32) (h : StringMap Bytes) : Prop :=
  TaskRecord p h ∧ h[bytes "status"]? = some (bytes "1") ∧ ∃ v, v ≠ [] ∧ h[bytes "worker_id"]? = some v

def Unheld (loops : δ → Note) (i : Bytes) : Prop := ∀ d, (loops d).held ≠ some i

/-- Once in the lists, in the one of its priority. -/
def Queued (i : Bytes) (p : Int32) (w : Keyspace) (loops : δ → Note) : Prop :=
  Stored w i (Pending p (bytes "0")) ∧ occurrences w i = 1 ∧ i ∈ queueItems w (queueOf p) ∧ Unheld loops i

/-- Held by one loop; the loop may have stored status `1` already. -/
def Held (i : Bytes) (p : Int32) (w : Keyspace) (loops : δ → Note) : Prop :=
  ∃ d marked, loops d = .holding i marked ∧ (∀ d', (loops d').held = some i → d' = d) ∧
    occurrences w i = 0 ∧
    Stored w i (Pending p (if marked then bytes "1" else bytes "0"))

def Assigned (i : Bytes) (p : Int32) (w : Keyspace) (loops : δ → Note) : Prop :=
  Stored w i (Running p) ∧ occurrences w i = 0 ∧ Unheld loops i

/-- Where the task `i` of priority `p` is, when the note of its submitter is `m`. -/
def TaskInv (i : Bytes) (p : Int32) (m : Note) (w : Keyspace) (loops : δ → Note) : Prop :=
  match m with
  | .idle => w[taskKey i]? = none ∧ occurrences w i = 0 ∧ ∀ d, (loops d).task ≠ some i
  | .saved => Stored w i (Pending p (bytes "0")) ∧ occurrences w i = 0 ∧ ∀ d, (loops d).task ≠ some i
  | .pushed => Queued i p w loops ∨ Held i p w loops ∨ Assigned i p w loops
  | _ => False

structure Inv (W : Workload σ) (w : Keyspace) (n : σ ⊕ δ → Note) : Prop where
  queues : ∀ q ∈ queueKeys, IsQueue w q
  items : ∀ q ∈ queueKeys, ∀ x ∈ queueItems w q, ValidId x
  tasks : ∀ d i, (n (.inr d)).task = some i → ValidId i
  places : ∀ s, TaskInv (W.request s).id (W.request s).priority (n (.inl s)) w (fun d => n (.inr d))

/-! ### Tasks that a step does not touch -/

/-- A step that leaves the record, the list positions and the loops of a task alone. -/
theorem TaskInv.frame {i : Bytes} {p : Int32} {m : Note} {w w' : Keyspace} {loops loops' : δ → Note}
    (h : TaskInv i p m w loops) (hrec : w'[taskKey i]? = w[taskKey i]?)
    (hocc : ∀ q ∈ queueKeys, (queueItems w' q).count i = (queueItems w q).count i)
    (hloops : ∀ d, loops' d = loops d ∨ ((loops' d).task ≠ some i ∧ (loops d).task ≠ some i)) :
    TaskInv i p m w' loops' := by
  have hsum : occurrences w' i = occurrences w i := by
    unfold occurrences
    rw [List.map_congr_left hocc]
  have htask : (∀ d, (loops d).task ≠ some i) → ∀ d, (loops' d).task ≠ some i := by
    intro ht d
    rcases hloops d with hd | hd
    · rw [hd]; exact ht d
    · exact hd.1
  have hheld : ∀ d, (loops' d).held = some i → loops' d = loops d := by
    intro d hd
    rcases hloops d with he | he
    · exact he
    · exact absurd (Note.task_of_held hd) he.1
  have hunheld : Unheld loops i → Unheld loops' i := by
    intro hu d hd
    exact hu d (by rw [← hheld d hd]; exact hd)
  have hstored : ∀ {A : StringMap Bytes → Prop}, Stored w i A → Stored w' i A := by
    rintro A ⟨f, hf, hA⟩
    exact ⟨f, by rw [hrec, hf], hA⟩
  cases m with
  | idle => exact ⟨by rw [hrec]; exact h.1, by rw [hsum]; exact h.2.1, htask h.2.2⟩
  | saved => exact ⟨hstored h.1, by rw [hsum]; exact h.2.1, htask h.2.2⟩
  | pushed =>
    -- it waits, a loop has it in hand, or it is assigned
    rcases h with ⟨hs, ho, hin, hu⟩ | ⟨d, marked, hd, hone, ho, hs⟩ | ⟨hs, ho, hu⟩
    · refine Or.inl ⟨hstored hs, by rw [hsum]; exact ho, ?_, hunheld hu⟩
      have hq := hocc _ (queueOf_mem p)
      have hpos := List.count_pos_iff.2 hin
      exact List.count_pos_iff.1 (by omega)
    · refine Or.inr (Or.inl ⟨d, marked, ?_, ?_, by rw [hsum]; exact ho, hstored hs⟩)
      · rcases hloops d with he | he
        · rw [he, hd]
        · exact absurd (by rw [hd]; rfl) he.2
      · intro d' hd'
        exact hone d' (by rw [← hheld d' hd']; exact hd')
    · exact Or.inr (Or.inr ⟨hstored hs, by rw [hsum]; exact ho, hunheld hu⟩)
  | holding j marked => exact h
  | assigned j => exact h

end Taskflow
