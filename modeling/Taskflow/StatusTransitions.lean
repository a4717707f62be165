import Taskflow.DispatcherSpecs
import Taskflow.TaskQueries

/-!
# The stored status under reports in any order

`assignTaskToWorker`, `completeTask`, `failTask` and `retryTask` in any order and with any repetitions.  None of
them looks at the stored status: each of the first three stores its own over whatever is there, and a retry
stores none (`status_transitions`).  So a task that has succeeded keeps its status, its result and its
`finished_at` until the next report, and not longer.
-/

namespace Taskflow

open Text Effects Prog

/-! ### Calls -/

/-- A report on the task `i`, or its assignment or retry. -/
def Operation.About (i : Bytes) : Operation → Prop
  | .assignTaskToWorker taskId _ => cStr taskId = i
  | .completeTask taskId _ => cStr taskId = i
  | .failTask taskId _ => cStr taskId = i
  | .retryTask taskId => cStr taskId = i
  | _ => False

/-- The calls that the law of the status is about. -/
def Operation.IsReport (op : Operation) : Prop := ∃ i, op.About i

/-- The fields of the task's record that a call may write. -/
def Operation.fields : Operation → List Bytes
  | .assignTaskToWorker _ _ => [bytes "status", bytes "worker_id", bytes "started_at"]
  | .completeTask _ _ => [bytes "status", bytes "finished_at", bytes "result"]
  | .failTask _ _ => [bytes "status", bytes "error_message", bytes "finished_at"]
  | .retryTask _ => [bytes "retry_count"]
  | _ => []

/-- The status that a call stores. -/
def Operation.newStatus : Operation → Option Bytes
  | .assignTaskToWorker _ _ => some (bytes "1")
  | .completeTask _ _ => some (bytes "2")
  | .failTask _ _ => some (bytes "3")
  | _ => none

/-- A call with its events and the content it leaves. -/
structure ReportCall where
  operation : Operation
  trace : List (Event Effect Effect.Answer)
  world : Keyspace

/-- One call of the four, from start to end; commands may fail if `faulty`. -/
def ReportStep (faulty : Prop) (w : Keyspace) (c : ReportCall) : Prop :=
  c.operation.IsReport ∧ ∃ o, Run (served faulty) c.operation.code w c.trace o c.world

/-- The calls one after the other. -/
def Along (R : Keyspace → ReportCall → Prop) : Keyspace → List ReportCall → Prop
  | _, [] => True
  | w, c :: rest => R w c ∧ Along R c.world rest

/-- The pool had no connection, or a command failed. -/
def eventFailed : Event Effect Effect.Answer → Bool
  | ⟨.getConnection, r⟩ => r.isNone
  | ⟨.command _ _, r⟩ => !succeeded r
  | _ => false

def statusTexts : List Bytes := [bytes "0", bytes "1", bytes "2", bytes "3"]

/-! ### The law, and what the code does -/

/-- PENDING to RUNNING, RUNNING to SUCCESS or FAILED, and a retry from FAILED or RUNNING to a new attempt. -/
def LegalMove (op : Operation) (s s' : Bytes) : Prop :=
  s' = s ∨ (s = bytes "0" ∧ s' = bytes "1") ∨ (s = bytes "1" ∧ (s' = bytes "2" ∨ s' = bytes "3")) ∨
    ((s = bytes "3" ∨ s = bytes "1") ∧ s' = bytes "0" ∧ ∃ i, op = .retryTask i)

/-- The status of `i` moves legally, and after SUCCESS nothing changes. -/
structure Lawful (i : Bytes) (w : Keyspace) (c : ReportCall) : Prop where
  move : LegalMove c.operation (recordText w i (bytes "status")) (recordText c.world i (bytes "status"))
  final : recordText w i (bytes "status") = bytes "2" →
    ∀ field ∈ [bytes "status", bytes "result", bytes "finished_at"],
      recordText c.world i field = recordText w i field

/-- A call stores its own status whatever was stored before, and touches no other fields than its own.  Where
something fails during the call, the status may stay; what failed during other calls does not matter. -/
structure Reported (i : Bytes) (w : Keyspace) (c : ReportCall) : Prop where
  status : recordText c.world i (bytes "status") = recordText w i (bytes "status") ∨
    c.operation.About i ∧ c.operation.newStatus = some (recordText c.world i (bytes "status"))
  stored : (∀ event ∈ c.trace, eventFailed event = false) → c.operation.About i →
    ∀ s, c.operation.newStatus = some s → recordText c.world i (bytes "status") = s
  others : ∀ field, ¬(c.operation.About i ∧ field ∈ c.operation.fields) →
    recordText c.world i field = recordText w i field

/-! ### Commands that leave a field alone -/

/-- Commands that do not write `field` of the record of `i`. -/
def Leaves (i field : Bytes) : Command → Prop
  | .hset key f _ => key = taskKey i → f ≠ field
  | cmd => cmd.key ≠ taskKey i

section Fields

variable {i field : Bytes} {w : Keyspace}

theorem recordText_leaves {cmd : Command} (h : Leaves i field cmd) (w : Keyspace) :
    recordText (exec cmd w).2 i field = recordText w i field := by
  by_cases hkey : cmd.key = taskKey i
  · cases cmd with
    | hset key f value =>
      simp only [Command.key] at hkey
      subst hkey
      have hne : f ≠ field := h rfl
      rw [recordText_exec_hset, if_neg (by simp [hne])]
    | _ => exact absurd hkey h
  · exact recordText_congr (exec_frame cmd w hkey) field

/-- `HSET` stores the field, if the key does not hold something else than a hash. -/
theorem recordText_hset_self (i field value : Bytes) (w : Keyspace) :
    let w' := (exec (.hset (taskKey i) field value) w).2
    recordText w' i field = value ∨ recordText w' i field = recordText w i field ∧
      (exec (.hset (taskKey i) field value) w).1.isError = true := by
  dsimp only
  rw [recordText_exec_hset]
  cases herr : (exec (.hset (taskKey i) field value) w).1.isError with
  | true => exact .inr ⟨if_neg (by simp), rfl⟩
  | false => exact .inl (if_pos ⟨rfl, rfl⟩)

/-- What `HSET` on a task's record does not write. -/
private theorem leaves_hset {j f v : Bytes} (h : j = i → f ≠ field) : Leaves i field (.hset (taskKey j) f v) :=
  fun he => h (taskKey_injective he)

theorem StatusWrites.leaves {j errorMsg : Bytes} {status : Int32} {cmd : Command}
    (h : StatusWrites j status errorMsg cmd) (hs : cStr j = i → bytes "status" ≠ field)
    (he : cStr j = i → errorMsg ≠ [] → bytes "error_message" ≠ field)
    (hf : cStr j = i → bytes "finished_at" ≠ field) : Leaves i field cmd := by
  rcases h with rfl | ⟨hmsg, rfl⟩ | ⟨now, rfl⟩
  · exact leaves_hset hs
  · exact leaves_hset fun hj => he hj hmsg
  · exact leaves_hset hf

/-- A call writes no field of another task, and of its own task only its fields. -/
theorem Operation.Writes.leaves {op : Operation} {cmd : Command} (h : op.Writes cmd) (hop : op.IsReport)
    (hf : ¬(op.About i ∧ field ∈ op.fields)) : Leaves i field cmd := by
  have hne : op.About i → ∀ f ∈ op.fields, f ≠ field := fun habout f hmem he => hf ⟨habout, he ▸ hmem⟩
  cases op with
  | assignTaskToWorker taskId workerId =>
    rcases h with rfl | rfl | ⟨now, rfl⟩ | rfl
    · exact leaves_hset fun hj => hne hj _ (by simp [Operation.fields])
    · exact leaves_hset fun hj => hne hj _ (by simp [Operation.fields])
    · exact leaves_hset fun hj => hne hj _ (by simp [Operation.fields])
    · exact workerLoadKey_ne_taskKey _ i
  | completeTask taskId result =>
    rcases h with h | rfl | ⟨v, rfl⟩
    · refine h.leaves (fun hj => hne hj _ ?_) (fun _ hmsg => absurd rfl hmsg) (fun hj => hne hj _ ?_)
      · simp [Operation.fields]
      · simp [Operation.fields]
    · exact leaves_hset fun hj => hne hj _ (by simp [Operation.fields])
    · exact workerLoadKey_ne_taskKey _ i
  | failTask taskId error =>
    rcases h with h | ⟨v, rfl⟩
    · refine h.leaves (fun hj => hne hj _ ?_) (fun hj _ => hne hj _ ?_) (fun hj => hne hj _ ?_)
      · simp [Operation.fields]
      · simp [Operation.fields]
      · simp [Operation.fields]
    · exact workerLoadKey_ne_taskKey _ i
  | retryTask taskId =>
    rcases h with ⟨n, rfl⟩ | ⟨v, rfl⟩ | ⟨n, rfl⟩ | ⟨p, rfl⟩
    · exact leaves_hset fun hj => hne hj _ (by simp [Operation.fields])
    · exact workerLoadKey_ne_taskKey _ i
    · exact (retryKey_foreign (retryKey_head _ _)).2 i
    · exact (taskKey_ne_queue (queueOf_mem p) i).symm
  | submitTask task => exact hop.elim fun _ he => he.elim
  | popNextTask => exact hop.elim fun _ he => he.elim
  | dispatchIteration => exact hop.elim fun _ he => he.elim

/-- The only status that a call stores is its own. -/
theorem Operation.Writes.status {op : Operation} {cmd : Command} (h : op.Writes cmd)
    (hop : op.IsReport) (i : Bytes) :
    Leaves i (bytes "status") cmd ∨
      op.About i ∧ ∃ s, op.newStatus = some s ∧ cmd = .hset (taskKey i) (bytes "status") s := by
  have htwo : decimal (2 : Int32).toInt = bytes "2" ∧ decimal (3 : Int32).toInt = bytes "3" := by decide
  have hother : ∀ {j f v : Bytes}, f ≠ bytes "status" → Leaves i (bytes "status") (.hset (taskKey j) f v) :=
    fun hf => leaves_hset fun _ => hf
  by_cases habout : op.About i
  · cases op with
    | assignTaskToWorker taskId workerId =>
      cases (habout : cStr taskId = i)
      rcases h with rfl | rfl | ⟨now, rfl⟩ | rfl
      · exact Or.inr ⟨rfl, _, rfl, rfl⟩
      · exact Or.inl (hother (by decide))
      · exact Or.inl (hother (by decide))
      · exact Or.inl (workerLoadKey_ne_taskKey _ _)
    | completeTask taskId result =>
      cases (habout : cStr taskId = i)
      rcases h with (rfl | ⟨-, rfl⟩ | ⟨now, rfl⟩) | rfl | ⟨v, rfl⟩
      · exact Or.inr ⟨rfl, _, rfl, by rw [htwo.1]⟩
      · exact Or.inl (hother (by decide))
      · exact Or.inl (hother (by decide))
      · exact Or.inl (hother (by decide))
      · exact Or.inl (workerLoadKey_ne_taskKey _ _)
    | failTask taskId error =>
      cases (habout : cStr taskId = i)
      rcases h with (rfl | ⟨-, rfl⟩ | ⟨now, rfl⟩) | ⟨v, rfl⟩
      · exact Or.inr ⟨rfl, _, rfl, by rw [htwo.2]⟩
      · exact Or.inl (hother (by decide))
      · exact Or.inl (hother (by decide))
      · exact Or.inl (workerLoadKey_ne_taskKey _ _)
    | retryTask taskId =>
      refine Or.inl (Operation.Writes.leaves h hop ?_)
      rintro ⟨-, hmem⟩
      exact absurd hmem (by simp only [Operation.fields]; decide)
    | submitTask task => exact habout.elim
    | popNextTask => exact habout.elim
    | dispatchIteration => exact habout.elim
  · exact Or.inl (h.leaves hop fun he => habout he.1)

end Fields

/-! ### One call -/

section Calls

variable {i : Bytes} {op : Operation} {w w' : Keyspace} {α : Type} {p : Code α} {redis : RedisClient}

/-- Of a field that a call does not write, nothing changes; of the status, at most to the call's own. -/
theorem post_fields {S : Semantics Effect Effect.Answer Keyspace} (hS : Serves S) (hp : p.Every (Issues op.Writes))
    (hop : op.IsReport) {field : Bytes} (hf : ¬(op.About i ∧ field ∈ op.fields)) (w : Keyspace) :
    Post S p (fun _ w' => recordText w' i field = recordText w i field) w :=
  post_issues hS (K := fun w w' => recordText w' i field = recordText w i field) (fun _ => rfl)
    (fun h h' => h'.trans h) (fun _ w h => recordText_leaves (h.leaves hop hf) w) hp w

theorem post_status {S : Semantics Effect Effect.Answer Keyspace} (hS : Serves S) (hp : p.Every (Issues op.Writes))
    (hop : op.IsReport) (i : Bytes) (w : Keyspace) :
    Post S p (fun _ w' => recordText w' i (bytes "status") = recordText w i (bytes "status") ∨
      op.About i ∧ op.newStatus = some (recordText w' i (bytes "status"))) w := by
  refine post_issues hS (K := fun w w' => recordText w' i (bytes "status") = recordText w i (bytes "status") ∨
    op.About i ∧ op.newStatus = some (recordText w' i (bytes "status"))) (fun _ => Or.inl rfl) ?_ ?_ hp w
  · intro w w' w'' h h'
    rcases h' with hsame | hown
    · rw [hsame]
      exact h
    · exact Or.inr hown
  · intro cmd w h
    rcases h.status hop i with hleaves | ⟨habout, s, hs, rfl⟩
    · exact Or.inl (recordText_leaves hleaves w)
    · rcases recordText_hset_self i (bytes "status") s w with hstored | ⟨hsame, -⟩
      · exact Or.inr ⟨habout, by rw [hs, hstored]⟩
      · exact Or.inl hsame

/-- Once the status is stored, the rest of the call leaves it. -/
private theorem ends_stored (hc : redis.connected = true) {j s : Bytes} {f : Bool → Code α}
    (hp : (redis.hset (taskKey j) (bytes "status") s >>= f).Every (Issues op.Writes)) (hop : op.About (cStr j))
    (hs : op.newStatus = some s) (hnul : 0 ∉ s) :
    Ends (redis.hset (taskKey j) (bytes "status") s >>= f)
      (fun _ w' => recordText w' (cStr j) (bytes "status") = s) w := by
  have hfield : 0 ∉ bytes "status" := by decide
  rw [hset_eq hc, cStr_taskKey_eq, cStr_of_noNul hfield, cStr_of_noNul hnul, call_bind] at hp ⊢
  apply ends_command
  intro hok
  have hstored : recordText (exec (.hset (taskKey (cStr j)) (bytes "status") s) w).2 (cStr j)
      (bytes "status") = s := by
    rcases recordText_hset_self (cStr j) (bytes "status") s w with hstored | ⟨-, herr⟩
    · exact hstored
    · rw [hok] at herr
      cases herr
  refine (post_status (served_serves False) (hp.2 _) ⟨_, hop⟩ (cStr j) _).mono ?_
  intro o w' hw'
  rcases hw' with hsame | ⟨-, hown⟩
  · rw [hsame, hstored]
  · rw [hs] at hown
    exact (Option.some.inj hown).symm

/-- `getTask` finds every record that it can read. -/
private theorem ends_getTask (hc : redis.connected = true) {j : Bytes} (h : Recorded (cStr j) w) :
    Ends (redis.getTask j) (fun o w' => w' = w ∧ ∃ task, o = .ok task ∧ task.id = j) w := by
  have hfields : storedFields w j = storedFields w (cStr j) := by
    simp only [storedFields, cStr_taskKey_eq, cStr_of_noNul (noNul_cStr j)]
  refine (Post.sem_mono (fun _ _ _ _ => answered_of_served) (post_getTask hc w j)).mono ?_
  intro o w' hread
  obtain ⟨hw', stack, rfl⟩ := hread
  obtain ⟨record, hrecord, hreadable, -⟩ := h
  have hparse : NumbersParse (storedFields w j) := by
    rw [hfields, storedFields, cStr_taskKey (noNul_cStr j), replyFields_hgetall hrecord]
    exact hreadable.parse
  obtain ⟨task, hok, hid⟩ := readTask_of_parse stack hparse
  exact ⟨hw', task, hok, hid⟩

theorem ends_assigned (j v : Bytes) (hne : j ≠ []) (h : Recorded (cStr j) w) :
    Ends (assignTaskToWorker j v) (fun _ w' => recordText w' (cStr j) (bytes "status") = bytes "1") w := by
  have hp : (assignTaskToWorker j v).Every (Issues (Operation.assignTaskToWorker j v).Writes) :=
    assignTaskToWorker_issues fun _ h => h
  apply ends_connection
  intro redis hc
  refine Post.bind_every (ends_getTask hc h) (hp.2 (some redis)) ?_ ?_
  · intro task w₁ hread hp
    obtain ⟨rfl, _, hok, hid⟩ := hread
    cases hok
    have hfound : ¬task.id.isEmpty = true := by simpa [hid] using hne
    rw [if_neg hfound] at hp ⊢
    refine ends_unchanged (fun _ _ hs => hs) fun now => ?_
    exact ends_stored hc (hp.2 now) rfl rfl (by decide)
  · intro x w₁ hread
    obtain ⟨-, _, hthrow, -⟩ := hread
    cases hthrow

/-- Both reports read the worker and store their status then. -/
private theorem ends_updated (hc : redis.connected = true) {j : Bytes} {status : Int32} {msg : Bytes}
    {f : Bytes → Bool → Code α}
    (hp : (redis.hget (taskKey j) (bytes "worker_id") >>= fun workerId =>
      redis.updateTaskStatus j status msg >>= f workerId).Every (Issues op.Writes))
    (hop : op.About (cStr j)) (hs : op.newStatus = some (decimal status.toInt)) :
    Ends (redis.hget (taskKey j) (bytes "worker_id") >>= fun workerId =>
        redis.updateTaskStatus j status msg >>= f workerId)
      (fun _ w' => recordText w' (cStr j) (bytes "status") = decimal status.toInt) w := by
  have hread : Ends (redis.hget (taskKey j) (bytes "worker_id")) (fun o _ => ∃ text, o = .ok text) w := by
    rw [hget_eq hc]
    exact ends_command fun _ => ⟨_, rfl⟩
  refine Post.bind_every hread hp ?_ ?_
  · intro workerId w₁ _ hp
    rw [RedisClient.updateTaskStatus, bind_assoc] at hp ⊢
    exact ends_stored hc hp hop hs (noNul_decimal _)
  · intro x w₁ hthrow
    obtain ⟨_, hthrow⟩ := hthrow
    cases hthrow

theorem ends_completed (j : Bytes) (result : TaskResult) :
    Ends (completeTask j result) (fun _ w' => recordText w' (cStr j) (bytes "status") = bytes "2") w := by
  have hp : (completeTask j result).Every (Issues (Operation.completeTask j result).Writes) :=
    completeTask_issues fun _ h => h
  have htwo : decimal (2 : Int32).toInt = bytes "2" := by decide
  rw [← htwo]
  apply ends_connection
  intro redis hc
  exact ends_updated hc (hp.2 (some redis)) rfl (by rw [htwo]; rfl)

theorem ends_failed (j error : Bytes) :
    Ends (failTask j error) (fun _ w' => recordText w' (cStr j) (bytes "status") = bytes "3") w := by
  have hp : (failTask j error).Every (Issues (Operation.failTask j error).Writes) := failTask_issues fun _ h => h
  have hthree : decimal (3 : Int32).toInt = bytes "3" := by decide
  rw [← hthree]
  apply ends_connection
  intro redis hc
  exact ends_updated hc (hp.2 (some redis)) rfl (by rw [hthree]; rfl)

/-- Where nothing fails, a call stores its status, whatever was stored before. -/
theorem ends_newStatus (hi : ValidId i) (h : Recorded i w) (hop : op.About i) {s : Bytes}
    (hs : op.newStatus = some s) :
    Ends op.code (fun _ w' => recordText w' i (bytes "status") = s) w := by
  have hcode : ∀ {p : Code Bool}, Ends p (fun _ w' => recordText w' i (bytes "status") = s) w →
      Ends (p >>= fun _ => .ret ()) (fun _ w' => recordText w' i (bytes "status") = s) w :=
    fun hp => Ends.bind hp (fun _ _ h => h) (fun _ _ h => h)
  cases op with
  | assignTaskToWorker taskId workerId =>
    cases (hop : cStr taskId = i)
    cases hs
    have hne : taskId ≠ [] := fun he => hi.nonempty (by rw [he]; rfl)
    exact hcode (ends_assigned taskId workerId hne h)
  | completeTask taskId result =>
    cases (hop : cStr taskId = i)
    cases hs
    exact hcode (ends_completed taskId result)
  | failTask taskId error =>
    cases (hop : cStr taskId = i)
    cases hs
    exact hcode (ends_failed taskId error)
  | retryTask taskId => cases hs
  | submitTask task => exact hop.elim
  | popNextTask => exact hop.elim
  | dispatchIteration => exact hop.elim

/-- A run in which nothing failed is one beside a server that does not fail. -/
theorem run_of_no_failure {faulty : Prop} {τ : List (Event Effect Effect.Answer)} {o : Except StdException α}
    (h : Run (served faulty) p w τ o w') (hτ : ∀ event ∈ τ, eventFailed event = false) :
    Run (served False) p w τ o w' := by
  refine h.restrict hτ fun {e w r w'} hs hevent => ?_
  cases e with
  | getConnection =>
    obtain ⟨hw, hconn, -⟩ := hs
    refine ⟨hw, hconn, ?_⟩
    rintro rfl
    cases hevent
  | command context cmd =>
    obtain ⟨fate, -, hd⟩ := hs
    by_cases hfate : fate = .answered
    · exact ⟨fate, fun hne => hne hfate, hd⟩
    · rcases hd.failed hfate with rfl | rfl <;> cases hevent
  | _ => exact hs

/-- What one call does to a task that was submitted, whatever failed. -/
theorem ReportStep.reported {faulty : Prop} {c : ReportCall} (hs : ReportStep faulty w c) (hi : ValidId i)
    (h : Recorded i w) : Reported i w c ∧ Recorded i c.world := by
  obtain ⟨hop, o, hrun⟩ := hs
  refine ⟨⟨?_, ?_, ?_⟩, ?_⟩
  · exact (post_status (served_serves faulty) c.operation.issues hop i w).run hrun
  · intro hτ habout s hs
    exact (ends_newStatus hi h habout hs).run (run_of_no_failure hrun hτ)
  · intro field hf
    exact (post_fields (served_serves faulty) c.operation.issues hop hf w).run hrun
  · exact (post_recorded (served_serves faulty) (issues_mono c.operation.issues fun _ h => h.tame) h).run hrun

end Calls

/-! ### Whole sequences -/

/-- Whatever one call keeps, the calls of a sequence keep. -/
theorem Along.invariant {R R' : Keyspace → ReportCall → Prop} {I : Keyspace → Prop}
    (hstep : ∀ {w c}, I w → R w c → R' w c ∧ I c.world) {w : Keyspace} {run : List ReportCall}
    (hI : I w) (h : Along R w run) : Along R' w run ∧ ∀ c ∈ run, I c.world := by
  induction run generalizing w with
  | nil => exact ⟨trivial, fun _ hc => nomatch hc⟩
  | cons c rest ih =>
    obtain ⟨hone, hI'⟩ := hstep hI h.1
    obtain ⟨hall, hinv⟩ := ih hI' h.2
    refine ⟨⟨hone, hall⟩, ?_⟩
    intro c' hc
    rcases List.mem_cons.1 hc with rfl | hc
    · exact hI'
    · exact hinv c' hc

theorem newStatus_mem {op : Operation} {s : Bytes} (h : op.newStatus = some s) : s ∈ statusTexts := by
  cases op with
  | assignTaskToWorker taskId workerId => cases h; simp [statusTexts]
  | completeTask taskId result => cases h; simp [statusTexts]
  | failTask taskId error => cases h; simp [statusTexts]
  | retryTask taskId => cases h
  | submitTask task => cases h
  | popNextTask => cases h
  | dispatchIteration => cases h

/-- After a submission, every call during which nothing fails stores its own status whatever the status was,
every other call stores it or leaves the status; no call writes other fields of the task than its own, and the
status is one of the four. -/
theorem status_transitions {faulty : Prop} {task : TaskRequest} (hid : ValidId task.id) {w₀ w : Keyspace}
    {τ : List (Event Effect Effect.Answer)} (hsubmit : Run (served faulty) (submitTask task) w₀ τ (.ok true) w)
    {run : List ReportCall} (hrun : Along (ReportStep faulty) w run) :
    Along (Reported task.id) w run ∧ ∀ c ∈ run, recordText c.world task.id (bytes "status") ∈ statusTexts := by
  obtain ⟨info, hinfo, hsaved⟩ := (post_submitTask (served_serves faulty) task w₀).run hsubmit rfl
  have hrecorded : Recorded task.id w := hinfo.id ▸ hsaved.recorded
  have hzero : recordText w task.id (bytes "status") = bytes "0" := by
    rw [← hinfo.id, hsaved.text (recordFields_pending hinfo.status)]
  have hstart : Recorded task.id w ∧ recordText w task.id (bytes "status") ∈ statusTexts := by
    refine ⟨hrecorded, ?_⟩
    rw [hzero]
    simp [statusTexts]
  have hstep : ∀ {w c}, Recorded task.id w ∧ recordText w task.id (bytes "status") ∈ statusTexts →
      ReportStep faulty w c → Reported task.id w c ∧
        Recorded task.id c.world ∧ recordText c.world task.id (bytes "status") ∈ statusTexts := by
    intro w c hI hs
    obtain ⟨hreported, hrecorded'⟩ := hs.reported hid hI.1
    refine ⟨hreported, hrecorded', ?_⟩
    rcases hreported.status with hsame | ⟨-, hown⟩
    · rw [hsame]
      exact hI.2
    · exact newStatus_mem hown
  obtain ⟨hall, hinv⟩ := Along.invariant (I := fun w =>
    Recorded task.id w ∧ recordText w task.id (bytes "status") ∈ statusTexts) hstep hstart hrun
  exact ⟨hall, fun c hc => (hinv c hc).2⟩

/-! ### A report that comes late -/

/-- The calls one after the other while the clock stands still; in each of them the commands that it comes with
fail. -/
def playReports : Keyspace → List (Operation × (Command → Bool)) → Option (List ReportCall)
  | _, [] => some []
  | w, (op, fails) :: ops =>
    match op.code.play (answer fails []) w with
    | none => none
    | some (τ, _, w') => (playReports w' ops).map fun run => ⟨op, τ, w'⟩ :: run

theorem playReports_along {faulty : Prop} {w : Keyspace} {ops : List (Operation × (Command → Bool))}
    {run : List ReportCall} (hops : ∀ op ∈ ops, op.1.IsReport ∧ ∀ cmd, op.2 cmd = true → faulty)
    (h : playReports w ops = some run) : Along (ReportStep faulty) w run := by
  induction ops generalizing w run with
  | nil =>
    cases h
    trivial
  | cons op ops ih =>
    obtain ⟨op, fails⟩ := op
    rw [playReports] at h
    split at h
    · cases h
    · rename_i τ o w' hplay
      obtain ⟨rest, hrest, rfl⟩ := Option.map_eq_some_iff.1 h
      obtain ⟨hreport, hfails⟩ := hops _ List.mem_cons_self
      have hstep : ReportStep faulty w ⟨op, τ, w'⟩ :=
        ⟨hreport, o, Run.of_play (answer_served (fun h => absurd rfl h) hfails) hplay⟩
      exact ⟨hstep, ih (fun op hop => hops op (List.mem_cons_of_mem _ hop)) hrest⟩

private def lateTask : TaskRequest := { id := bytes "1", type := 0, priority := 1, data := [], createdAt := 0 }

/-- The task is done when a second report says that it failed. -/
private def lateReport : List Operation :=
  [.assignTaskToWorker (bytes "1") (bytes "worker-1"), .completeTask (bytes "1") ⟨bytes "42"⟩,
    .failTask (bytes "1") (bytes "timeout"), .retryTask (bytes "1")]

private theorem lateReport_isReport : ∀ op ∈ lateReport, op.IsReport := by
  intro op hop
  simp only [lateReport, List.mem_cons, List.not_mem_nil, or_false] at hop
  rcases hop with rfl | rfl | rfl | rfl
  · exact ⟨_, rfl⟩
  · exact ⟨_, rfl⟩
  · exact ⟨_, rfl⟩
  · exact ⟨_, rfl⟩

/-- The same calls; the one that reports the success comes twice, and at first no `HSET` of it is answered. -/
private def repeatedReport : List (Operation × (Command → Bool)) :=
  (.completeTask (bytes "1") ⟨bytes "41"⟩, fun cmd => cmd.key == taskKey (bytes "1")) ::
    lateReport.map fun op => (op, fun _ => false)

private theorem lateReport_statuses : ∃ τ w run repeated,
    (∀ faulty, Run (served faulty) (submitTask lateTask) ∅ τ (.ok true) w) ∧
    playReports w (lateReport.map fun op => (op, fun _ => false)) = some run ∧
    run.map (fun c => recordText c.world (bytes "1") (bytes "status")) = [bytes "1", bytes "2",
      bytes "3", bytes "3"] ∧
    playReports w repeatedReport = some repeated ∧
    repeated.map (fun c => recordText c.world (bytes "1") (bytes "status")) =
      [bytes "0", bytes "1", bytes "2", bytes "3", bytes "3"] := by
  have h : (((submitTask lateTask).play (answer (fun _ => false) []) ∅).bind fun r =>
      (playReports r.2.2 (lateReport.map fun op => (op, fun _ => false))).bind fun run =>
        (playReports r.2.2 repeatedReport).map fun repeated =>
          (r.2.1.toOption, run.map (fun c => recordText c.world (bytes "1") (bytes "status")),
            repeated.map fun c => recordText c.world (bytes "1") (bytes "status"))) =
      some (some true, [bytes "1", bytes "2", bytes "3", bytes "3"],
        [bytes "0", bytes "1", bytes "2", bytes "3", bytes "3"]) := by decide
  obtain ⟨⟨τ, o, w⟩, hplay, h⟩ := Option.bind_eq_some_iff.1 h
  obtain ⟨run, hrun, h⟩ := Option.bind_eq_some_iff.1 h
  obtain ⟨repeated, hrepeated, h⟩ := Option.map_eq_some_iff.1 h
  simp only [Prod.mk.injEq] at h
  obtain ⟨ho, hstatuses, hagain⟩ := h
  have hok : o = .ok true := eq_ok_of_toOption ho
  exact ⟨τ, w, run, repeated, fun _ => hok ▸ Run.of_play answer_fault_free hplay, hrun, hstatuses,
    hrepeated, hagain⟩

/-- The report of a failure after the success makes the task a failed one. -/
theorem status_law_fails : ¬∀ (task : TaskRequest) (w₀ w : Keyspace) (τ : List (Event Effect Effect.Answer))
    (run : List ReportCall), ValidId task.id →
      Run (served False) (submitTask task) w₀ τ (.ok true) w → Along (ReportStep False) w run →
        Along (Lawful task.id) w run := by
  intro h
  obtain ⟨τ, w, run, _, hsubmit, hrun, hstatuses, -⟩ := lateReport_statuses
  have hreports : ∀ op ∈ lateReport.map (fun op => (op, fun _ : Command => false)),
      op.1.IsReport ∧ ∀ cmd, op.2 cmd = true → False := by
    intro op hop
    obtain ⟨op, hmem, rfl⟩ := List.mem_map.1 hop
    exact ⟨lateReport_isReport op hmem, fun _ hfalse => by cases hfalse⟩
  have hlaw : Along (Lawful (bytes "1")) w run :=
    h lateTask ∅ w τ run ⟨by decide, by decide⟩ (hsubmit False) (playReports_along hreports hrun)
  obtain ⟨_, _, rfl, -, hstatuses⟩ := List.map_eq_cons_iff.1 hstatuses
  obtain ⟨completed, _, rfl, hdone, hstatuses⟩ := List.map_eq_cons_iff.1 hstatuses
  obtain ⟨failed, _, rfl, hfailed, -⟩ := List.map_eq_cons_iff.1 hstatuses
  have hkept := hlaw.2.2.1.final hdone (bytes "status") (by simp)
  rw [hdone, hfailed] at hkept
  exact absurd hkept (by decide)

theorem status_transitions_lateReport : ∃ w run, playReports w repeatedReport = some run ∧
    run.map (fun c => recordText c.world (bytes "1") (bytes "status")) =
      [bytes "0", bytes "1", bytes "2", bytes "3", bytes "3"] ∧
    Along (Reported (bytes "1")) w run ∧
      ∀ c ∈ run, recordText c.world (bytes "1") (bytes "status") ∈ statusTexts := by
  obtain ⟨τ, w, _, run, hsubmit, -, -, hrun, hstatuses⟩ := lateReport_statuses
  have hreports : ∀ op ∈ repeatedReport, op.1.IsReport ∧ ∀ cmd, op.2 cmd = true → True := by
    intro op hop
    rcases List.mem_cons.1 hop with rfl | hop
    · exact ⟨⟨_, rfl⟩, fun _ _ => trivial⟩
    · obtain ⟨op, hmem, rfl⟩ := List.mem_map.1 hop
      exact ⟨lateReport_isReport op hmem, fun _ _ => trivial⟩
  have hid : ValidId lateTask.id := ⟨by decide, by decide⟩
  exact ⟨w, run, hrun, hstatuses, status_transitions hid (hsubmit True) (playReports_along hreports hrun)⟩

end Taskflow
