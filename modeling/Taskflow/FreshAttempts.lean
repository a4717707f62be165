import Taskflow.LoadAccounting
import Taskflow.StatusTransitions

/-!
# What a retry leaves behind

The runs of `LifecycleStep` again.  `submitTask` stores status 0 before it pushes the id; `retryTask` pushes the
id and stores no status, so the task waits as a failed one, and the `finished_at` and the error of the failed
attempt stay in the record when the task runs and succeeds later.  Attempts are fresh in every state of a run if
and only if none of its retries pushes (`fresh_attempts_iff`).
-/

namespace Taskflow

open Text Effects Prog

/-! ### Fresh attempts -/

/-- An id in a list is PENDING, a running task has neither the end nor the error of an earlier attempt, and a
task that succeeded has no error.  `first` are the texts of `finished_at` that submissions have stored. -/
structure Fresh (first : Bytes → Bytes) (s : Lifecycle) : Prop where
  queued : ∀ q ∈ queueKeys, ∀ i ∈ queueItems s.world q, recordText s.world i (bytes "status") = bytes "0"
  running : ∀ i ∈ s.tasks, recordText s.world i (bytes "status") = bytes "1" →
    recordText s.world i (bytes "finished_at") = first i ∧ recordText s.world i (bytes "error_message") = []
  succeeded : ∀ i ∈ s.tasks, recordText s.world i (bytes "status") = bytes "2" →
    recordText s.world i (bytes "error_message") = []

/-- The same after one more call: `submitTask` stores a member that was never assigned. -/
def firstAfter (first : Bytes → Bytes) : Operation × Lifecycle → Bytes → Bytes
  | (.submitTask task, s) => Function.update first task.id (recordText s.world task.id (bytes "finished_at"))
  | _ => first

/-- Attempts are fresh after every call. -/
def FreshAlong : (Bytes → Bytes) → List (Operation × Lifecycle) → Prop
  | _, [] => True
  | first, p :: rest => Fresh (firstAfter first p) p.2 ∧ FreshAlong (firstAfter first p) rest

/-- A retry that pushes nothing: the retries are used up, or the counter of the worker does not fit an `int` and
`retryTask` throws. -/
def RetryRefused (w : Keyspace) : Operation → Prop
  | .retryTask i =>
    (∃ c : Int32, recordText w i (bytes "retry_count") = decimal c.toInt ∧ 3 ≤ c) ∨
      ¬FitsInt (decrementedLoad (workerLoad w (recordText w i (bytes "worker_id"))))
  | _ => True

def RetriesRefused : Lifecycle → List (Operation × Lifecycle) → Prop
  | _, [] => True
  | s, (op, s') :: rest => RetryRefused s.world op ∧ RetriesRefused s' rest

/-! ### Records and lists, phase by phase -/

def Phase.status : Phase → Bytes
  | .queued => bytes "0"
  | .popped => bytes "0"
  | .assigned => bytes "1"
  | .completed => bytes "2"
  | .failed => bytes "3"

/-- Submitted, and not yet ended. -/
def Phase.pending : Phase → Prop
  | .queued => True
  | .popped => True
  | .assigned => True
  | _ => False

structure AttemptInv (first : Bytes → Bytes) (s : Lifecycle) : Prop where
  queued : ∀ i, occurrences s.world i ≠ 0 → i ∈ s.tasks ∧ s.phase i = .queued
  once : ∀ i, occurrences s.world i ≤ 1
  status : ∀ i ∈ s.tasks, recordText s.world i (bytes "status") = (s.phase i).status
  error : ∀ i ∈ s.tasks, s.phase i ≠ .failed → recordText s.world i (bytes "error_message") = []
  finished : ∀ i ∈ s.tasks, (s.phase i).pending → recordText s.world i (bytes "finished_at") = first i

section Steps

variable {first : Bytes → Bytes} {s : Lifecycle} {w : Keyspace} {i : Bytes} {op : Operation}
  {τ : List (Event Effect Effect.Answer)}

theorem AttemptInv.fresh (h : AttemptInv first s) : Fresh first s := by
  constructor
  · intro q hq i hi
    have hocc : occurrences s.world i ≠ 0 := fun hzero => occurrences_eq_zero.1 hzero q hq hi
    obtain ⟨hmem, hphase⟩ := h.queued i hocc
    rw [h.status i hmem, hphase]
    rfl
  · intro i hi hone
    rw [h.status i hi] at hone
    have hphase : s.phase i = .assigned := by
      cases hp : s.phase i with
      | assigned => rfl
      | _ =>
        rw [hp] at hone
        exact absurd hone (by decide)
    exact ⟨h.finished i hi (by rw [hphase]; trivial), h.error i hi (by rw [hphase]; decide)⟩
  · intro i hi htwo
    refine h.error i hi ?_
    intro hfailed
    rw [h.status i hi, hfailed] at htwo
    exact absurd htwo (by decide)

/-- A step that writes the record of one task, which waits in no list after it. -/
theorem AttemptInv.moved (h : AttemptInv first s) {phase : Phase}
    (hothers : ∀ j, j ≠ i → ∀ field, recordText w j field = recordText s.world j field)
    (hfewer : ∀ j, occurrences w j ≤ occurrences s.world j) (hgone : occurrences w i = 0)
    (hstatus : recordText w i (bytes "status") = phase.status)
    (herror : phase ≠ .failed → recordText w i (bytes "error_message") = [])
    (hfinished : phase.pending → recordText w i (bytes "finished_at") = first i) :
    AttemptInv first (s.moved w i phase) := by
  have hphase : ∀ j, j ≠ i → (s.moved w i phase).phase j = s.phase j := fun j hj => Function.update_of_ne hj _ _
  have hown : (s.moved w i phase).phase i = phase := Function.update_self ..
  constructor
  · intro j hj
    have hne : j ≠ i := fun he => hj (by rw [he]; exact hgone)
    have hocc : occurrences s.world j ≠ 0 := by
      have hle := hfewer j
      have hpos : occurrences w j ≠ 0 := hj
      omega
    rw [hphase j hne]
    exact h.queued j hocc
  · intro j
    exact (hfewer j).trans (h.once j)
  · intro j hj
    by_cases he : j = i
    · subst he
      rw [hown]
      exact hstatus
    · rw [hphase j he]
      exact (hothers j he _).trans (h.status j hj)
  · intro j hj
    by_cases he : j = i
    · subst he
      rw [hown]
      exact herror
    · rw [hphase j he]
      exact fun hne => (hothers j he _).trans (h.error j hj hne)
  · intro j hj
    by_cases he : j = i
    · subst he
      rw [hown]
      exact hfinished
    · rw [hphase j he]
      exact fun hpending => (hothers j he _).trans (h.finished j hj hpending)

/-- Reports and assignments push nothing and pop nothing. -/
theorem Operation.Writes.key_not_queue {cmd : Command} (h : op.Writes cmd) (hop : op.newStatus ≠ none) :
    ∀ q ∈ queueKeys, cmd.key ≠ q := by
  intro q hq
  have htask : ∀ j : Bytes, taskKey j ≠ q := taskKey_ne_queue hq
  have hload : ∀ v : Bytes, workerLoadKey v ≠ q := workerLoadKey_ne_queue hq
  have hupdated : ∀ {j msg : Bytes} {status : Int32}, StatusWrites j status msg cmd → cmd.key ≠ q := by
    intro j msg status hwrites
    rcases hwrites with rfl | ⟨-, rfl⟩ | ⟨now, rfl⟩
    · exact htask _
    · exact htask _
    · exact htask _
  cases op with
  | assignTaskToWorker taskId workerId =>
    rcases h with rfl | rfl | ⟨now, rfl⟩ | rfl
    · exact htask _
    · exact htask _
    · exact htask _
    · exact hload _
  | completeTask taskId result =>
    rcases h with h | rfl | ⟨v, rfl⟩
    · exact hupdated h
    · exact htask _
    · exact hload _
  | failTask taskId error =>
    rcases h with h | ⟨v, rfl⟩
    · exact hupdated h
    · exact hload _
  | retryTask taskId => exact absurd rfl hop
  | submitTask task => exact absurd rfl hop
  | popNextTask => exact absurd rfl hop
  | dispatchIteration => exact absurd rfl hop

/-- An assignment or a report: it stores the status of the next phase, and writes no field that must stay. -/
theorem AttemptInv.reported (h : AttemptInv first s) (hinv : LifecycleInv s) (hmem : i ∈ s.tasks) {phase : Phase}
    {p : Code Bool} {o : Except StdException Bool} (hp : p.Every (Issues op.Writes)) (hop : op.About (cStr i))
    (hnew : op.newStatus ≠ none)
    (hends : Ends p (fun _ w' => recordText w' (cStr i) (bytes "status") = phase.status) s.world)
    (hrun : Run (served False) p s.world τ o w) (hphase : s.phase i ≠ .queued)
    (herror : phase ≠ .failed → s.phase i ≠ .failed ∧ bytes "error_message" ∉ op.fields)
    (hfinished : phase.pending → (s.phase i).pending ∧ bytes "finished_at" ∉ op.fields) :
    AttemptInv first (s.moved w i phase) := by
  have hi : cStr i = i := cStr_of_noNul (hinv.valid i hmem).noNul
  have hfield : ∀ j field, ¬(op.About j ∧ field ∈ op.fields) →
      recordText w j field = recordText s.world j field :=
    fun j field hf => (post_fields (served_serves False) hp ⟨_, hop⟩ hf s.world).run hrun
  have habout : ∀ j, op.About j → j = i := by
    intro j hj
    rw [hi] at hop
    cases op with
    | assignTaskToWorker taskId workerId => exact (show cStr taskId = j from hj).symm.trans hop
    | completeTask taskId result => exact (show cStr taskId = j from hj).symm.trans hop
    | failTask taskId error => exact (show cStr taskId = j from hj).symm.trans hop
    | retryTask taskId => exact (show cStr taskId = j from hj).symm.trans hop
    | submitTask task => exact hj.elim
    | popNextTask => exact hj.elim
    | dispatchIteration => exact hj.elim
  have hqueues : ∀ q ∈ queueKeys, w[q]? = s.world[q]? := by
    refine (post_issues (served_serves False) (K := fun w w' => ∀ q ∈ queueKeys, w'[q]? = w[q]?) (fun _ _ _ => rfl)
      (fun h h' q hq => (h' q hq).trans (h q hq)) ?_ hp s.world).run hrun
    exact fun cmd w hwrites q hq => exec_frame cmd w (hwrites.key_not_queue hnew q hq)
  have hocc : ∀ j, occurrences w j = occurrences s.world j := occurrences_congr hqueues
  have hstatus := hends.run hrun
  rw [hi] at hstatus
  refine h.moved (fun j hj field => hfield j field fun he => hj (habout j he.1))
    (fun j => (hocc j).le) ?_ hstatus ?_ ?_
  · rw [hocc i]
    by_contra hne
    exact hphase (h.queued i hne).2
  · intro hne
    obtain ⟨hbefore, hf⟩ := herror hne
    rw [hfield i _ fun he => hf he.2]
    exact h.error i hmem hbefore
  · intro hpending
    obtain ⟨hbefore, hf⟩ := hfinished hpending
    rw [hfield i _ fun he => hf he.2]
    exact h.finished i hmem hbefore

/-- The record has a status, so it is one that operations can read. -/
theorem AttemptInv.recorded (h : AttemptInv first s) (hinv : LifecycleInv s) (hmem : i ∈ s.tasks) :
    Recorded i s.world := by
  obtain ⟨p, f, hf⟩ := hinv.records i hmem
  refine ⟨f, hf.stored, hf.record.numbers, ?_⟩
  have hstatus := h.status i hmem
  rw [recordText_of_hash hf.stored] at hstatus
  cases hs : f[bytes "status"]? with
  | some text => rfl
  | none =>
    rw [hs] at hstatus
    cases hp : s.phase i with
    | _ =>
      rw [hp] at hstatus
      exact absurd hstatus (by decide)

theorem AttemptInv.submitted (h : AttemptInv first s) (hinv : LifecycleInv s) {task : TaskRequest}
    {o : Except StdException Bool} (hid : ValidId task.id) (hfresh : task.id ∉ s.tasks)
    (hrun : Run (served False) (submitTask task) s.world τ o w) :
    let s' : Lifecycle := ⟨w, task.id :: s.tasks, Function.update s.phase task.id .queued⟩
    AttemptInv (firstAfter first (.submitTask task, s')) s' := by
  intro s'
  obtain ⟨-, info, hinfo, hsame, hocc⟩ := (ends_submitTask hid (hinv.fresh _ hfresh)).run hrun
  have hrecord : w[taskKey task.id]? = some (.hash (recordFields info)) :=
    (hsame.records _).trans (lookup_inserted _ _ _)
  have hothers : ∀ j ∈ s.tasks, j ≠ task.id ∧ ∀ field, recordText w j field = recordText s.world j field := by
    intro j hj
    have hne : j ≠ task.id := fun he => hfresh (he ▸ hj)
    refine ⟨hne, recordText_congr ?_⟩
    rw [hsame.records, getElem?_insert, if_neg (by simpa using hne.symm)]
  have hphase : ∀ j ∈ s.tasks, s'.phase j = s.phase j := fun j hj => Function.update_of_ne (hothers j hj).1 _ _
  have hown : s'.phase task.id = .queued := Function.update_self ..
  -- an id that was never submitted is in no list
  have hzero : occurrences s.world task.id = 0 := by
    by_contra hne
    exact hfresh (h.queued _ hne).1
  constructor
  · intro j hj
    by_cases he : task.id = j
    · subst he
      exact ⟨List.mem_cons_self, hown⟩
    · have hbefore : occurrences s.world j ≠ 0 := by
        have hsum := hocc j
        rw [if_neg he] at hsum
        have hpos : occurrences w j ≠ 0 := hj
        omega
      obtain ⟨hmem, hqueued⟩ := h.queued j hbefore
      exact ⟨List.mem_cons_of_mem _ hmem, by rw [hphase j hmem, hqueued]⟩
  · intro j
    show occurrences w j ≤ 1
    have hsum := hocc j
    by_cases he : task.id = j
    · subst he
      rw [if_pos rfl] at hsum
      omega
    · rw [if_neg he] at hsum
      have hone := h.once j
      omega
  · intro j hj
    rcases List.mem_cons.1 hj with rfl | hj
    · rw [hown]
      show recordText w task.id (bytes "status") = _
      rw [recordText_of_hash hrecord, recordFields_pending hinfo.status]
      rfl
    · rw [hphase j hj]
      exact ((hothers j hj).2 _).trans (h.status j hj)
  · intro j hj
    rcases List.mem_cons.1 hj with rfl | hj
    · intro _
      show recordText w task.id (bytes "error_message") = []
      have hempty : (recordFields info)[bytes "error_message"]? = some [] := by
        apply recordFields_of_mem
        rw [← hinfo.errorMessage]
        simp [recordEntries]
      rw [recordText_of_hash hrecord, hempty]
      rfl
    · rw [hphase j hj]
      exact fun hne => ((hothers j hj).2 _).trans (h.error j hj hne)
  · intro j hj
    rcases List.mem_cons.1 hj with rfl | hj
    · intro _
      exact (Function.update_self (f := first) ..).symm
    · rw [hphase j hj]
      intro hpending
      refine ((hothers j hj).2 _).trans ((h.finished j hj hpending).trans ?_)
      exact (Function.update_of_ne (hothers j hj).1 _ first).symm

theorem AttemptInv.popped (h : AttemptInv first s) (hinv : LifecycleInv s) (hmem : i ∈ s.tasks)
    (hphase : s.phase i = .queued) (hpop : PoppedFrom s.world w i) : AttemptInv first (s.moved w i .popped) := by
  have hsame : ∀ j field, recordText w j field = recordText s.world j field :=
    fun j => recordText_congr (hpop.same.records j)
  have hgone : occurrences w i = 0 := by
    have hocc := hpop.occurrences i (hinv.valid i hmem).nonempty
    rw [if_pos rfl] at hocc
    have hone := h.once i
    omega
  refine h.moved (fun j _ => hsame j) hpop.fewer hgone ?_ (fun _ => ?_) (fun _ => ?_)
  · rw [hsame, h.status i hmem, hphase]
    rfl
  · rw [hsame]
    exact h.error i hmem (by rw [hphase]; decide)
  · rw [hsame]
    exact h.finished i hmem (by rw [hphase]; trivial)

/-- Nothing was popped: the lists lose at most ids that are empty. -/
theorem AttemptInv.poppedNothing (h : AttemptInv first s) (hpop : PoppedFrom s.world w []) :
    AttemptInv first { s with world := w } := by
  have hsame : ∀ j field, recordText w j field = recordText s.world j field :=
    fun j => recordText_congr (hpop.same.records j)
  constructor
  · intro j hj
    have hfewer := hpop.fewer j
    have hpos : occurrences w j ≠ 0 := hj
    exact h.queued j (by omega)
  · exact fun j => (hpop.fewer j).trans (h.once j)
  · exact fun j hj => (hsame j _).trans (h.status j hj)
  · exact fun j hj hne => (hsame j _).trans (h.error j hj hne)
  · exact fun j hj hpending => (hsame j _).trans (h.finished j hj hpending)

/-- A refused retry leaves the task as it is; any other pushes it while it is stored as failed. -/
theorem AttemptInv.retried (h : AttemptInv first s) (hinv : LifecycleInv s) (hmem : i ∈ s.tasks)
    (hphase : s.phase i = .failed) {o : Except StdException Bool}
    (hrun : Run (served False) (retryTask i) s.world τ o w) :
    (RetryRefused s.world (.retryTask i) ∧ o ≠ .ok true ∧ AttemptInv first (s.moved w i .failed)) ∨
      (¬RetryRefused s.world (.retryTask i) ∧ o = .ok true ∧
        ∃ q ∈ queueKeys, i ∈ queueItems w q ∧ recordText w i (bytes "status") = bytes "3") := by
  obtain ⟨p, f, hf⟩ := hinv.records i hmem
  rw [hphase] at hf
  obtain ⟨v, n, hv, hworker, hn⟩ := hf.worker (Or.inr rfl)
  obtain ⟨c, hcount, hcases⟩ := (ends_retryTask (hinv.valid i hmem) hv hf.record hf.stored hworker hn).run hrun
  have hcond : RetryRefused s.world (.retryTask i) ↔ 3 ≤ c ∨ ¬FitsInt (decrementedLoad n.toInt) := by
    simp only [RetryRefused, hf.load_eq hworker hn, hf.usedUp_iff hcount]
  have hstatus := h.status i hmem
  rw [hphase] at hstatus
  have hgone : occurrences s.world i = 0 := by
    by_contra hne
    have hqueued := (h.queued i hne).2
    rw [hphase] at hqueued
    cases hqueued
  -- a retry that pushes nothing touches the load alone
  have hidle : ∀ {u}, (∀ j, u[taskKey j]? = s.world[taskKey j]?) → (∀ q ∈ queueKeys, u[q]? = s.world[q]?) →
      AttemptInv first (s.moved u i .failed) := by
    intro u hrecords hqueues
    have hocc := occurrences_congr hqueues
    refine h.moved (fun j _ => recordText_congr (hrecords j)) (fun j => (hocc j).le) ?_ ?_ ?_ ?_
    · rw [hocc i, hgone]
    · rw [recordText_congr (hrecords i), hstatus]
    · exact fun hne => absurd rfl hne
    · exact fun hpending => hpending.elim
  split at hcases
  · rename_i hmax
    obtain ⟨rfl, rfl⟩ := hcases
    exact Or.inl ⟨hcond.2 (Or.inl hmax), by simp, hidle (fun _ => rfl) fun _ _ => rfl⟩
  · rename_i hmax
    -- it pushes the task, or throws on the load before the count is stored
    obtain ⟨u, hdec, hretried, ⟨rfl, hfits, hrequeued⟩ | ⟨⟨x, rfl⟩, hfits, rfl⟩⟩ := hcases
    · right
      refine ⟨fun hrefused => (hcond.1 hrefused).elim hmax fun hne => hne hfits, rfl, ?_⟩
      have hwaits : occurrences w i ≠ 0 := by
        have hocc := hrequeued i
        rw [if_pos rfl] at hocc
        omega
      have hfailed : recordText w i (bytes "status") = bytes "3" := by
        have hkept : recordText w i (bytes "status") = recordText s.world i (bytes "status") := by
          have hne : bytes "retry_count" ≠ bytes "status" := by decide
          rw [recordText_of_hash hf.stored]
          rcases hretried.record with hrec | ⟨c', hrec⟩
          · rw [recordText_of_hash hrec]
          · rw [recordText_of_hash hrec, getElem?_insert, if_neg hne]
        rw [hkept, hstatus]
        rfl
      by_contra hnone
      refine hwaits (occurrences_eq_zero.2 fun q hq hi => hnone ⟨q, hq, hi, hfailed⟩)
    · left
      exact ⟨hcond.2 (Or.inr hfits), by simp, hidle hdec.records hdec.queues⟩

/-- One call: the invariant goes on if and only if the call is no retry that pushes. -/
theorem LifecycleStep.attempt {s' : Lifecycle} (hs : LifecycleStep s op s') (hinv : LifecycleInv s)
    (h : AttemptInv first s) :
    (RetryRefused s.world op → AttemptInv (firstAfter first (op, s')) s') ∧
      (Fresh (firstAfter first (op, s')) s' → RetryRefused s.world op) := by
  cases hs with
  | submitTask hid hfresh hrun => exact ⟨fun _ => h.submitted hinv hid hfresh hrun, fun _ => trivial⟩
  | popNothing hrun ho =>
    obtain ⟨i, hok, hpop⟩ := returns_popNextTask.run hrun
    cases ho
    cases hok
    exact ⟨fun _ => h.poppedNothing hpop, fun _ => trivial⟩
  | popNextTask hmem hphase hrun =>
    obtain ⟨i, hok, hpop⟩ := returns_popNextTask.run hrun
    cases hok
    exact ⟨fun _ => h.popped hinv hmem hphase hpop, fun _ => trivial⟩
  | @assignTaskToWorker i v _ _ _ hmem hphase hv hrun =>
    refine ⟨fun _ => ?_, fun _ => trivial⟩
    have hi : cStr i = i := cStr_of_noNul (hinv.valid i hmem).noNul
    have hp : (Taskflow.assignTaskToWorker i v).Every (Issues (Operation.assignTaskToWorker i v).Writes) :=
      assignTaskToWorker_issues fun _ h => h
    refine h.reported hinv hmem hp rfl (by simp [Operation.newStatus]) ?_ hrun ?_ ?_ ?_
    · exact ends_assigned i v (hinv.valid i hmem).nonempty (hi.symm ▸ h.recorded hinv hmem)
    · rw [hphase]
      decide
    · rw [hphase]
      exact fun _ => ⟨by decide, by simp only [Operation.fields]; decide⟩
    · rw [hphase]
      exact fun _ => ⟨trivial, by simp only [Operation.fields]; decide⟩
  | @completeTask i result _ _ _ hmem hphase hrun =>
    refine ⟨fun _ => ?_, fun _ => trivial⟩
    have hp : (Taskflow.completeTask i result).Every (Issues (Operation.completeTask i result).Writes) :=
      completeTask_issues fun _ h => h
    refine h.reported hinv hmem hp rfl (by simp [Operation.newStatus]) (ends_completed i result) hrun ?_ ?_ ?_
    · rw [hphase]
      decide
    · rw [hphase]
      exact fun _ => ⟨by decide, by simp only [Operation.fields]; decide⟩
    · exact fun hpending => hpending.elim
  | @failTask i error _ _ _ hmem hphase hrun =>
    refine ⟨fun _ => ?_, fun _ => trivial⟩
    have hp : (Taskflow.failTask i error).Every (Issues (Operation.failTask i error).Writes) :=
      failTask_issues fun _ h => h
    refine h.reported hinv hmem hp rfl (by simp [Operation.newStatus]) (ends_failed i error) hrun ?_ ?_ ?_
    · rw [hphase]
      decide
    · exact fun hne => absurd rfl hne
    · exact fun hpending => hpending.elim
  | @retryTask i _ b _ hmem hphase hrun =>
    -- a retry that pushes leaves a count of three in the list, which no fresh attempt has
    rcases h.retried hinv hmem hphase hrun with ⟨hrefused, hno, hkeep⟩ | ⟨hpushes, -, q, hq, hi, hthree⟩
    · have hb : b = false := by simpa using hno
      subst hb
      exact ⟨fun _ => hkeep, fun _ => hrefused⟩
    · refine ⟨fun hrefused => absurd hrefused hpushes, fun hfresh => ?_⟩
      have hzero := hfresh.queued q hq i hi
      exact absurd (hthree.symm.trans hzero) (by decide)
  | retryThrows hmem hphase hrun =>
    rcases h.retried hinv hmem hphase hrun with ⟨hrefused, -, hkeep⟩ | ⟨-, hok, -⟩
    · exact ⟨fun _ => hkeep, fun _ => hrefused⟩
    · cases hok

end Steps

/-! ### Whole runs -/

theorem freshAlong_iff_of_inv {first : Bytes → Bytes} {s : Lifecycle} {run : List (Operation × Lifecycle)}
    (hinv : LifecycleInv s) (h : AttemptInv first s) (hrun : IsLifecycle s run) :
    FreshAlong first run ↔ RetriesRefused s run := by
  induction run generalizing first s with
  | nil => exact Iff.rfl
  | cons p rest ih =>
    obtain ⟨op, s'⟩ := p
    obtain ⟨hstep, hrest⟩ := hrun
    obtain ⟨hkeep, hneeds⟩ := hstep.attempt hinv h
    have hinv' := (hstep.spec hinv).1
    constructor
    · rintro ⟨hfresh, hall⟩
      have hrefused := hneeds hfresh
      exact ⟨hrefused, (ih hinv' (hkeep hrefused) hrest).1 hall⟩
    · rintro ⟨hrefused, hall⟩
      have hnext := hkeep hrefused
      exact ⟨hnext.fresh, (ih hinv' hnext hrest).2 hall⟩

theorem AttemptInv.start (first : Bytes → Bytes) : AttemptInv first .start := by
  constructor <;> simp [Lifecycle.start, occurrences, queueItems, queueKeys]

/-- Every attempt is a fresh one after every call of a run if and only if no retry of the run pushes its task. -/
theorem fresh_attempts_iff {run : List (Operation × Lifecycle)} (hrun : IsLifecycle .start run)
    (first : Bytes → Bytes) : FreshAlong first run ↔ RetriesRefused .start run :=
  freshAlong_iff_of_inv LifecycleInv.start (AttemptInv.start first) hrun

/-! ### A retry that pushes -/

/-- A task fails once and is retried. -/
private def failOnce : List Operation :=
  [.submitTask { id := bytes "1", type := 0, priority := 1, data := [], createdAt := 0 }, .popNextTask,
    .assignTaskToWorker (bytes "1") (bytes "worker-1"), .failTask (bytes "1") (bytes "error"),
      .retryTask (bytes "1")]

private theorem failOnce_waits : ∃ run, Lifecycle.start.calls failOnce = some run ∧
    (run.getLast?.map fun p => (queueItems p.2.world queueMedium,
      recordText p.2.world (bytes "1") (bytes "status"))) = some ([bytes "1"], bytes "3") := by
  have h : ((Lifecycle.start.calls failOnce).bind fun run => run.getLast?.map fun p =>
      (queueItems p.2.world queueMedium, recordText p.2.world (bytes "1") (bytes "status"))) =
      some ([bytes "1"], bytes "3") := by decide
  obtain ⟨run, hrun, hlast⟩ := Option.bind_eq_some_iff.1 h
  exact ⟨run, hrun, hlast⟩

private theorem FreshAlong.mem {first : Bytes → Bytes} {run : List (Operation × Lifecycle)}
    (h : FreshAlong first run) {p : Operation × Lifecycle} (hp : p ∈ run) : ∃ first, Fresh first p.2 := by
  induction run generalizing first with
  | nil => cases hp
  | cons p' rest ih =>
    rcases List.mem_cons.1 hp with rfl | hp
    · exact ⟨_, h.1⟩
    · exact ih h.2 hp

/-- After such a retry the task waits with status 3. -/
theorem fresh_attempts_fail : ¬∀ first run, IsLifecycle .start run → FreshAlong first run := by
  intro h
  obtain ⟨run, hcalls, hlast⟩ := failOnce_waits
  obtain ⟨p, hp, htexts⟩ := Option.map_eq_some_iff.1 hlast
  injection htexts with hitems hstatus
  obtain ⟨first, hfresh⟩ :=
    (h (fun _ => []) run (Lifecycle.calls_isLifecycle hcalls)).mem (List.mem_of_getLast? hp)
  have hzero := hfresh.queued queueMedium (by simp [queueKeys]) (bytes "1") (by rw [hitems]; simp)
  rw [hstatus] at hzero
  exact absurd hzero (by decide)

theorem fresh_attempts_iff_failOnce : ∃ run, IsLifecycle .start run ∧ Lifecycle.start.calls failOnce = some run ∧
    (FreshAlong (fun _ => []) run ↔ RetriesRefused .start run) := by
  obtain ⟨run, hcalls, -⟩ := failOnce_waits
  have hrun := Lifecycle.calls_isLifecycle hcalls
  exact ⟨run, hrun, hcalls, fresh_attempts_iff hrun fun _ => []⟩

end Taskflow
