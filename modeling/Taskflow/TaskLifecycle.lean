import Taskflow.DispatchFailures
import Taskflow.DispatchOrder
import Taskflow.TaskStages

/-!
# The life of a task among the services

Whatever the services do at once, and whatever fails: an id belongs to one submission; what waits in a list, is
held by a dispatch loop or has a record comes from the submission of its id; and a task is in one place, waiting
once, held by one loop, or with a worker (`LifeInv`).  `preserved`: each effect that the stages allow keeps
this, and records only advance.
-/

namespace Taskflow

open Text Effects Prog

variable {ι : Type}

/-- The running services; a loop starts again, an RPC does not. -/
def services (faulty : Prop) (discovers : (e : EtcdEffect) → e.Answer → Prop) (sort : StdSort)
    (service : ι → Service) :
    System ι ServiceEffect ServiceEffect.Answer StdException ServiceReply Deployment Stage where
  sem := deployed faulty discovers sort
  observe := Stage.observe
  fresh := .idle
  again i := (service i).again

abbrev ServicePool (ι : Type) :=
  Pool ι ServiceEffect ServiceEffect.Answer StdException ServiceReply Deployment Stage

/-- Nothing has happened yet. -/
def startServices (strategy : Bytes) (service : ι → Service) : ServicePool ι where
  world := freshDeployment strategy
  thread i := ⟨(service i).code, .idle⟩

/-! ### What the stages say of an id -/

namespace Stage

/-- The id that the thread submits. -/
def submits : Stage → Option Bytes
  | .issued i => some i
  | .unsure i _ => some i
  | .saved i _ => some i
  | .pushed i _ => some i
  | _ => none

/-- The id that the thread has popped, and has tried neither to push back nor to give a worker. -/
def held : Stage → Option Bytes
  | .holding i _ => some i
  | _ => none

/-- The id that the thread has popped last. -/
def popped : Stage → Option Bytes
  | .holding i _ => some i
  | .assigned i => some i
  | _ => none

/-- The id whose record the thread has saved, and the fields of the record. -/
def stored : Stage → Option (Bytes × List (Bytes × Bytes))
  | .saved i fields => some (i, fields)
  | .pushed i fields => some (i, fields)
  | _ => none

/-- The id whose record the thread has tried to save, and the fields of the record. -/
def record : Stage → Option (Bytes × List (Bytes × Bytes))
  | .unsure i fields => some (i, fields)
  | .saved i fields => some (i, fields)
  | .pushed i fields => some (i, fields)
  | _ => none

theorem record_of_stored {stage : Stage} {record : Bytes × List (Bytes × Bytes)} (h : stage.stored = some record) :
    stage.record = some record := by
  cases stage <;> cases h <;> rfl

theorem submits_of_record {stage : Stage} {i : Bytes} {fields : List (Bytes × Bytes)}
    (h : stage.record = some (i, fields)) : stage.submits = some i := by
  cases stage <;> cases h <;> rfl

theorem record_of_free {stage : Stage} (h : stage.free = true) : stage.record = none := by
  cases stage with
  | idle => rfl
  | holding i read => rfl
  | assigned i => rfl
  | _ => cases h

theorem popped_of_held {stage : Stage} {i : Bytes} (h : stage.held = some i) : stage.popped = some i := by
  cases stage <;> cases h
  rfl

theorem submits_of_free {stage : Stage} (h : stage.free = true) : stage.submits = none := by
  cases stage with
  | idle => rfl
  | holding i read => rfl
  | assigned i => rfl
  | _ => cases h

theorem stored_of_free {stage : Stage} (h : stage.free = true) : stage.stored = none := by
  cases stage with
  | idle => rfl
  | holding i read => rfl
  | assigned i => rfl
  | _ => cases h

theorem free_of_popped {stage : Stage} {i : Bytes} (h : stage.popped = some i) : stage.free = true := by
  cases stage with
  | holding i read => rfl
  | assigned i => rfl
  | _ => cases h

theorem free_of_record {stage : Stage} {record : Bytes × List (Bytes × Bytes)} (h : stage.record = some record) :
    stage.free = false := by
  cases stage with
  | unsure i fields => rfl
  | saved i fields => rfl
  | pushed i fields => rfl
  | _ => cases h

end Stage

/-- Some thread has issued the `RPUSH` of its submission. -/
def Pushed (n : ι → Stage) (i : Bytes) : Prop := ∃ t fields, n t = .pushed i fields

/-- What a saved record can become where loops have `written`: another status, a start time, a worker. -/
structure Evolved (written : Prop) (saved h : StringMap Bytes) : Prop where
  kept : ∀ f, f ≠ bytes "status" → f ≠ bytes "worker_id" → f ≠ bytes "started_at" → h[f]? = saved[f]?
  status : h[bytes "status"]? = some (bytes "0") ∨ h[bytes "status"]? = some (bytes "1")
  started : ∃ n : Int64, h[bytes "started_at"]? = some (decimal n.toInt)
  unwritten : ¬ written → h = saved

/-- The ids that were issued are distinct, and the generator is further than all of them. -/
structure IssuedIds (w : Deployment) (n : ι → Stage) : Prop where
  generator : Snowflake.Valid w.generator
  behind : ∀ t i, (n t).submits = some i →
    ∃ id : Int64, i = decimal id.toInt ∧ Snowflake.positionOf id ≤ w.generator.position
  distinct : ∀ t t' i, (n t).submits = some i → (n t').submits = some i → t = t'

/-- Everything there is comes from a submission. -/
structure Known (wants : ι → TaskRequest → Prop) (written : Prop) (w : Keyspace) (n : ι → Stage) : Prop where
  queues : ∀ q ∈ queueKeys, IsQueue w q
  waiting : ∀ q ∈ queueKeys, ∀ x ∈ queueItems w q, Pushed n x
  popped : ∀ t i, (n t).popped = some i → Pushed n i
  records : ∀ i, w[taskKey i]? ≠ none → ∃ t fields, (n t).record = some (i, fields)
  present : ∀ t i fields, (n t).stored = some (i, fields) → w[taskKey i]? ≠ none
  fresh : ∀ t i fields, n t = .saved i fields → storedWorker w i = none
  evolved : ∀ t i fields, (n t).record = some (i, fields) → ∃ task info, wants t task ∧
    SubmittedInfo task info ∧ info.id = i ∧ fields = (recordFields info).toList ∧
    ∀ value, w[taskKey i]? = some value → ∃ h, value = .hash h ∧ Evolved written (recordFields info) h

/-- A record that a thread has tried to save, if it is there. -/
theorem Known.recorded {wants : ι → TaskRequest → Prop} {written : Prop} {w : Keyspace} {n : ι → Stage}
    (h : Known wants written w n) {t : ι} {i : Bytes} {fields : List (Bytes × Bytes)} {value : Value}
    (ht : (n t).record = some (i, fields)) (hvalue : w[taskKey i]? = some value) : ∃ task info h, wants t task ∧
      SubmittedInfo task info ∧ info.id = i ∧ fields = (recordFields info).toList ∧ value = .hash h ∧
      Evolved written (recordFields info) h := by
  obtain ⟨task, info, hwants, hinfo, hid, hfields, hevolved⟩ := h.evolved t i fields ht
  obtain ⟨f, rfl, hf⟩ := hevolved value hvalue
  exact ⟨task, info, f, hwants, hinfo, hid, hfields, rfl, hf⟩

/-- A record that a thread has saved. -/
theorem Known.stored {wants : ι → TaskRequest → Prop} {written : Prop} {w : Keyspace} {n : ι → Stage}
    (h : Known wants written w n) {t : ι} {i : Bytes} {fields : List (Bytes × Bytes)}
    (ht : (n t).stored = some (i, fields)) : ∃ task info h, wants t task ∧
    SubmittedInfo task info ∧ info.id = i ∧
      fields = (recordFields info).toList ∧ w[taskKey i]? = some (.hash h) ∧
      Evolved written (recordFields info) h := by
  obtain ⟨value, hvalue⟩ := Option.ne_none_iff_exists'.1 (h.present t i fields ht)
  obtain ⟨task, info, f, hwants, hinfo, hid, hfields, rfl, hf⟩ := h.recorded (Stage.record_of_stored ht) hvalue
  exact ⟨task, info, f, hwants, hinfo, hid, hfields, hvalue, hf⟩

/-- The task waits once, is held once, or has its worker, and no two of these. -/
structure Once (w : Keyspace) (n : ι → Stage) (i : Bytes) : Prop where
  once : occurrences w i ≤ 1
  alone : ∀ t, (n t).held = some i → occurrences w i = 0
  single : ∀ t t', (n t).held = some i → (n t').held = some i → t = t'
  unassigned : (storedWorker w i).isSome → occurrences w i = 0 ∧ ∀ t, (n t).held ≠ some i

/-- Where nothing fails, an id waits in the list of its priority, and a loop has read that priority. -/
structure Placed (w : Keyspace) (n : ι → Stage) : Prop where
  waiting : ∀ q ∈ queueKeys, ∀ x ∈ queueItems w q, ∀ t info, n t = .pushed x (recordFields info).toList →
    q = queueOf info.priority
  read : ∀ t i fields, n t = .holding i (some fields) → ∀ t' info, n t' = .pushed i (recordFields info).toList →
    fields[bytes "priority"]? = some (decimal info.priority.toInt)

structure LifeInv (wants : ι → TaskRequest → Prop) (written faulty : Prop) (w : Deployment)
    (n : ι → Stage) : Prop where
  issued : IssuedIds w n
  known : Known wants written w.redis n
  once : ∀ i, Once w.redis n i
  placed : ¬ faulty → Placed w.redis n

/-- What may become of a record: a task that runs does not wait again, a worker stays, and the rest stays too,
the start time apart. -/
structure Advances (f f' : StringMap Bytes) : Prop where
  kept : ∀ g, g ≠ bytes "status" → g ≠ bytes "worker_id" → g ≠ bytes "started_at" → f'[g]? = f[g]?
  running : f[bytes "status"]? = some (bytes "1") → f'[bytes "status"]? = some (bytes "1")
  worker : ∀ v, f[bytes "worker_id"]? = some v → f'[bytes "worker_id"]? = some v

/-- Records advance, and none goes away. -/
def KeepsRecords (w w' : Deployment) : Prop :=
  ∀ i f, w.redis[taskKey i]? = some (.hash f) → ∃ f', w'.redis[taskKey i]? = some (.hash f') ∧ Advances f f'

theorem Advances.refl (f : StringMap Bytes) : Advances f f := ⟨fun _ _ _ _ => rfl, id, fun _ => id⟩

theorem Advances.trans {f f' f'' : StringMap Bytes} (h : Advances f f') (h' : Advances f' f'') : Advances f f'' :=
  ⟨fun g hs hw ht => (h'.kept g hs hw ht).trans (h.kept g hs hw ht), fun hr => h'.running (h.running hr),
    fun v hv => h'.worker v (h.worker v hv)⟩

theorem KeepsRecords.refl (w : Deployment) : KeepsRecords w w := fun _ f hf => ⟨f, hf, .refl f⟩

theorem KeepsRecords.trans {w w' w'' : Deployment} (h : KeepsRecords w w') (h' : KeepsRecords w' w'') :
    KeepsRecords w w'' := by
  intro i f hf
  obtain ⟨f', hf', hadvances⟩ := h i f hf
  obtain ⟨f'', hf'', hadvances'⟩ := h' i f' hf'
  exact ⟨f'', hf'', hadvances.trans hadvances'⟩

/-- A worker that is stored stays stored. -/
theorem KeepsRecords.storedWorker {w w' : Deployment} (h : KeepsRecords w w') {i v : Bytes}
    (hv : Taskflow.storedWorker w.redis i = some v) : Taskflow.storedWorker w'.redis i = some v := by
  unfold Taskflow.storedWorker at hv
  split at hv
  · rename_i f hf
    obtain ⟨f', hf', hadvances⟩ := h i f hf
    simp only [Taskflow.storedWorker, hf']
    exact hadvances.worker v hv
  · cases hv

/-! ### The commands -/

/-- A command on neither a list nor a record, or one that only reads. -/
def MovesNothing (cmd : Command) : Prop := cmd.reads = true ∨ cmd.key ∉ queueKeys ∧ ∀ i, cmd.key ≠ taskKey i

/-- What a thread can do at a stage. -/
inductive StageMove (wants : TaskRequest → Prop) : Stage → Command → Prop
  | still {stage : Stage} {cmd : Command} (h : MovesNothing cmd) (hstage : ∀ reply, stage.command cmd reply = stage) :
    StageMove wants stage cmd
  | save {i : Bytes} {task : TaskRequest} {info : TaskInfo} (hwants : wants task) (hinfo : SubmittedInfo task info)
      (hid : info.id = i) :
    StageMove wants (.issued i) (.hmset (taskKey i) (recordFields info).toList)
  | push {i : Bytes} (info : TaskInfo) :
    StageMove wants (.saved i (recordFields info).toList) (.rpush (queueOf info.priority) (cStr i))
  | pop {q : Bytes} (hq : q ∈ queueKeys) : StageMove wants .idle (.lpop q)
  | read {i : Bytes} (read : Option (StringMap Bytes)) :
    StageMove wants (.holding i read) (.hgetall (taskKey (cStr i)))
  | requeue {i q : Bytes} {fields : StringMap Bytes} (h : Stage.Chosen fields q) :
    StageMove wants (.holding i (some fields)) (.rpush q (cStr i))
  | assign {i field value : Bytes} (read : Option (StringMap Bytes)) (h : Stage.Writes field value) :
    StageMove wants (.holding i read) (.hset (taskKey (cStr i)) field value)
  | start (i : Bytes) (m : Int64) :
    StageMove wants (.assigned i) (.hset (taskKey (cStr i)) (bytes "started_at") (decimal m.toInt))

theorem movesNothing_incr (v : Bytes) : MovesNothing (.incr (workerLoadKey v)) :=
  Or.inr ⟨fun hq => workerLoadKey_ne_queue hq v rfl, workerLoadKey_ne_taskKey v⟩

theorem stageMove_of_allows {wants : TaskRequest → Prop} {stage : Stage} {cmd : Command}
    (h : stage.Allows wants cmd) :
    StageMove wants stage cmd := by
  cases cmd with
  | setex key seconds value => cases stage <;> exact .still (Or.inr h) fun _ => rfl
  | incr key =>
    have hkey : ∃ v, key = workerLoadKey v := by cases stage <;> exact h
    obtain ⟨v, rfl⟩ := hkey
    cases stage <;> exact .still (movesNothing_incr v) fun _ => rfl
  | get key => cases stage <;> exact .still (Or.inl rfl) fun _ => rfl
  | hget key field => cases stage <;> exact .still (Or.inl rfl) fun _ => rfl
  | llen key => cases stage <;> exact .still (Or.inl rfl) fun _ => rfl
  | incrby key m => cases stage <;> cases h
  | hgetall key =>
    cases stage with
    | holding i read =>
      obtain rfl : key = taskKey (cStr i) := h
      exact .read read
    | _ => exact .still (Or.inl rfl) fun _ => rfl
  | hmset key fields =>
    cases stage with
    | issued i =>
      obtain ⟨task, info, hwants, hinfo, hid, rfl, rfl⟩ := h
      exact .save hwants hinfo hid
    | _ => cases h
  | rpush key value =>
    cases stage with
    | saved i fields =>
      obtain ⟨rfl, info, rfl, rfl⟩ := h
      exact .push info
    | holding i read =>
      obtain ⟨rfl, fields, rfl, hchosen⟩ := h
      exact .requeue hchosen
    | _ => cases h
  | lpop key =>
    cases stage with
    | idle => exact .pop h
    | _ => cases h
  | hset key field value =>
    cases stage with
    | holding i read =>
      obtain ⟨rfl, hwrites⟩ := h
      exact .assign read hwrites
    | assigned i =>
      obtain ⟨rfl, rfl, m, rfl⟩ := h
      exact .start i m
    | _ => cases h

/-! ### Steps that move no task -/

section Steps

variable {wants : ι → TaskRequest → Prop} {written faulty : Prop} {w w' : Deployment}
  {n n' : ι → Stage} {i : Bytes}

theorem IssuedIds.keep (h : IssuedIds w n) (hg : w'.generator = w.generator)
    (hs : ∀ t i, (n' t).submits = some i → (n t).submits = some i) : IssuedIds w' n' := by
  refine ⟨by rw [hg]; exact h.generator, ?_, ?_⟩
  · intro t i ht
    rw [hg]
    exact h.behind t i (hs t i ht)
  · intro t t' i ht ht'
    exact h.distinct t t' i (hs t i ht) (hs t' i ht')

/-- A change of Redis outside the lists and the records. -/
theorem LifeInv.frame (h : LifeInv wants written faulty w n) (hg : w'.generator = w.generator)
    (hq : ∀ q ∈ queueKeys, w'.redis[q]? = w.redis[q]?) (hi : ∀ i, w'.redis[taskKey i]? = w.redis[taskKey i]?) :
    LifeInv wants written faulty w' n := by
  have hitems : ∀ q ∈ queueKeys, queueItems w'.redis q = queueItems w.redis q := fun q hm =>
    queueItems_congr (hq q hm)
  have hocc : ∀ i, occurrences w'.redis i = occurrences w.redis i := occurrences_congr hq
  have hworker : ∀ i, storedWorker w'.redis i = storedWorker w.redis i := fun i => storedWorker_congr (hi i)
  refine ⟨h.issued.keep hg fun _ _ ht => ht, ?_, fun i => ?_, fun hf => ?_⟩
  · refine ⟨fun q hm => isQueue_congr (hq q hm) (h.known.queues q hm), ?_, h.known.popped, ?_, ?_, ?_, ?_⟩
    · intro q hm x hx
      rw [hitems q hm] at hx
      exact h.known.waiting q hm x hx
    · intro i hne
      rw [hi] at hne
      exact h.known.records i hne
    · intro t i fields ht
      rw [hi]
      exact h.known.present t i fields ht
    · intro t i fields ht
      rw [hworker]
      exact h.known.fresh t i fields ht
    · intro t i fields ht
      rw [hi]
      exact h.known.evolved t i fields ht
  · have hi' := h.once i
    refine ⟨by rw [hocc]; exact hi'.once, fun t ht => by rw [hocc]; exact hi'.alone t ht, hi'.single, ?_⟩
    rw [hocc, hworker]
    exact hi'.unassigned
  · refine ⟨?_, (h.placed hf).read⟩
    intro q hm x hx
    rw [hitems q hm] at hx
    exact (h.placed hf).waiting q hm x hx

section Notes

variable [DecidableEq ι] {t : ι} {g : Stage}

/-- What is new of the notes was so of the note before. -/
theorem of_update (A : Stage → Prop) (h : A g → A (n t)) {t' : ι}
    (ht : A (Function.update n t g t')) : A (n t') := by
  by_cases he : t' = t
  · subst he
    rw [Function.update_self] at ht
    exact h ht
  · rwa [Function.update_of_ne he] at ht

/-- What the new note keeps, the notes keep. -/
theorem at_update (A : Stage → Prop) (h : A (n t) → A g) {t' : ι} (ht : A (n t')) :
    A (Function.update n t g t') := by
  by_cases he : t' = t
  · subst he
    rw [Function.update_self]
    exact h ht
  · rwa [Function.update_of_ne he]

theorem Pushed.keep (h : Pushed n i) (hn : ∀ fields, n t ≠ .pushed i fields) :
    Pushed (Function.update n t g) i := by
  obtain ⟨t', fields, ht⟩ := h
  exact ⟨t', fields, at_update (· = .pushed i fields) (fun he => absurd he (hn fields)) ht⟩

omit [DecidableEq ι] in
theorem ne_pushed_of_free (hn : (n t).free = true) (fields : List (Bytes × Bytes)) : n t ≠ .pushed i fields := by
  intro he
  rw [he] at hn
  cases hn

/-- The new note of a free thread says no more of records, lists and held tasks than the one before. -/
theorem LifeInv.note (h : LifeInv wants written faulty w n) (hredis : w'.redis = w.redis) (hn : (n t).free = true)
    (hissued : IssuedIds w' (Function.update n t g)) (hg : g.record = none)
    (hpopped : ∀ i, g.popped = some i → (n t).popped = some i) (hheld : ∀ i, g.held = some i →
      (n t).held = some i)
    (hread : ¬ faulty → ∀ i fields, g = .holding i (some fields) → ∀ t' info,
      n t' = .pushed i (recordFields info).toList →
        fields[bytes "priority"]? = some (decimal info.priority.toInt)) :
    LifeInv wants written faulty w' (Function.update n t g) := by
  have hrecord : ∀ {t' i fields}, (Function.update n t g t').record = some (i, fields) →
      (n t').record = some (i, fields) := by
    intro t' i fields
    refine of_update (·.record = some (i, fields)) fun he => ?_
    rw [hg] at he
    cases he
  have hstored : ∀ {t' i fields}, (Function.update n t g t').stored = some (i, fields) →
      (n t').stored = some (i, fields) := by
    intro t' i fields
    refine of_update (·.stored = some (i, fields)) fun he => ?_
    rw [Stage.record_of_stored he] at hg
    cases hg
  have hpushed : ∀ {t' i fields}, Function.update n t g t' = .pushed i fields → n t' = .pushed i fields := by
    intro t' i fields
    refine of_update (· = .pushed i fields) fun he => ?_
    rw [he] at hg
    cases hg
  refine ⟨hissued, ?_, fun i => ?_, fun hf => ?_⟩
  · rw [hredis]
    refine ⟨h.known.queues, fun q hq x hx => (h.known.waiting q hq x hx).keep (ne_pushed_of_free hn), ?_,
      ?_, ?_, ?_, ?_⟩
    · intro t' i ht
      exact (h.known.popped t' i (of_update (·.popped = some i) (hpopped i) ht)).keep (ne_pushed_of_free hn)
    · intro i hne
      obtain ⟨t', fields, ht⟩ := h.known.records i hne
      refine ⟨t', fields, at_update (·.record = some (i, fields)) (fun he => ?_) ht⟩
      rw [Stage.free_of_record he] at hn
      cases hn
    · exact fun t' i fields ht => h.known.present t' i fields (hstored ht)
    · intro t' i fields ht
      refine h.known.fresh t' i fields (of_update (· = .saved i fields) (fun he => ?_) ht)
      rw [he] at hg
      cases hg
    · exact fun t' i fields ht => h.known.evolved t' i fields (hrecord ht)
  · rw [hredis]
    refine ⟨(h.once i).once, ?_, ?_, ?_⟩
    · exact fun t' ht => (h.once i).alone t' (of_update (·.held = some i) (hheld i) ht)
    · intro t₁ t₂ h₁ h₂
      exact (h.once i).single t₁ t₂ (of_update (·.held = some i) (hheld i) h₁)
        (of_update (·.held = some i) (hheld i) h₂)
    · intro hworker
      obtain ⟨hzero, hfree⟩ := (h.once i).unassigned hworker
      exact ⟨hzero, fun t' ht => hfree t' (of_update (·.held = some i) (hheld i) ht)⟩
  · rw [hredis]
    refine ⟨fun q hq x hx t' info ht => (h.placed hf).waiting q hq x hx t' info (hpushed ht), ?_⟩
    intro t' i fields ht t'' info ht'
    by_cases he : t' = t
    · subst he
      rw [Function.update_self] at ht
      exact hread hf i fields ht t'' info (hpushed ht')
    · rw [Function.update_of_ne he] at ht
      exact (h.placed hf).read t' i fields ht t'' info (hpushed ht')

/-- A thread that starts again. -/
theorem LifeInv.rest (h : LifeInv wants written faulty w n) (hn : (n t).free = true) :
    LifeInv wants written faulty w (Function.update n t .idle) := by
  refine h.note rfl hn (h.issued.keep rfl fun t' i => ?_) rfl ?_ ?_ ?_
  · refine of_update (·.submits = some i) fun he => ?_
    cases he
  · exact fun i hi => by cases hi
  · exact fun i hi => by cases hi
  · exact fun _ i fields hi => by cases hi

/-- The generator issues an id that is further than all others, or throws. -/
theorem LifeInv.issue (h : LifeInv wants written faulty w n) (hn : n t = .idle) {generator : Snowflake}
    {readings rest : List Int64} {result : Except Thrown Int64} (hclock : ∀ t ∈ readings, Snowflake.InEpoch t)
    (hnext : w.generator.nextId readings = some (result, generator, rest)) :
    LifeInv wants written faulty { w with generator := generator } (Function.update n t ((n t).issue result)) := by
  rw [hn]
  obtain ⟨-, ⟨⟨e, rfl⟩, rfl⟩ | ⟨id, rfl, hissued⟩⟩ :=
    Snowflake.nextId_spec h.issued.generator hclock hnext
  · show LifeInv wants written faulty w (Function.update n t .idle)
    rw [← hn, Function.update_eq_self]
    exact h
  · have hfree : (n t).free = true := by rw [hn]; rfl
    have hposition := Snowflake.positionOf_eq hissued.valid hissued.spelled
    have hfurther := hissued.further
    refine h.note rfl hfree ⟨hissued.valid, ?_, ?_⟩ rfl ?_ ?_ ?_
    · intro t' i ht
      by_cases he : t' = t
      · subst he
        rw [Function.update_self] at ht
        cases ht
        exact ⟨id, rfl, hposition.le⟩
      · rw [Function.update_of_ne he] at ht
        obtain ⟨old, rfl, hold⟩ := h.issued.behind t' i ht
        exact ⟨old, rfl, hold.trans hfurther.le⟩
    · -- an older id is not as far
      have hnew : ∀ t', t' ≠ t → (n t').submits ≠ some (decimal id.toInt) := by
        intro t' _ ht
        obtain ⟨old, hid, hold⟩ := h.issued.behind t' _ ht
        have hsame : id = old := Int64.toInt_inj.1 (decimal_injective hid)
        subst hsame
        omega
      intro t₁ t₂ i h₁ h₂
      by_cases he₁ : t₁ = t
      · by_cases he₂ : t₂ = t
        · rw [he₁, he₂]
        · subst he₁
          rw [Function.update_self] at h₁
          cases h₁
          rw [Function.update_of_ne he₂] at h₂
          exact absurd h₂ (hnew t₂ he₂)
      · by_cases he₂ : t₂ = t
        · subst he₂
          rw [Function.update_self] at h₂
          cases h₂
          rw [Function.update_of_ne he₁] at h₁
          exact absurd h₁ (hnew t₁ he₁)
        · rw [Function.update_of_ne he₁] at h₁
          rw [Function.update_of_ne he₂] at h₂
          exact h.issued.distinct t₁ t₂ i h₁ h₂
    · exact fun i hi => by cases hi
    · exact fun i hi => by cases hi
    · exact fun _ i fields hi => by cases hi

/-! ### Submitting -/

omit [DecidableEq ι] in
/-- The id of a thread that has not pushed it waits nowhere, and no loop has it. -/
theorem LifeInv.unpushed (h : LifeInv wants written faulty w n) (hi : (n t).submits = some i)
    (hn : ∀ fields, n t ≠ .pushed i fields) :
    ¬ Pushed n i ∧ occurrences w.redis i = 0 ∧ ∀ t', (n t').popped ≠ some i := by
  have hnot : ¬ Pushed n i := by
    rintro ⟨t', fields, ht⟩
    have hsame : t' = t := h.issued.distinct t' t i (by rw [ht]; rfl) hi
    subst hsame
    exact hn fields ht
  refine ⟨hnot, occurrences_eq_zero.2 fun q hq hmem => hnot (h.known.waiting q hq i hmem), ?_⟩
  exact fun t' ht => hnot (h.known.popped t' i ht)

omit [DecidableEq ι] in
/-- An id that was only issued has no record. -/
theorem LifeInv.absent (h : LifeInv wants written faulty w n) (hn : n t = .issued i) :
    w.redis[taskKey i]? = none := by
  by_contra hne
  obtain ⟨t', fields, ht⟩ := h.known.records i hne
  have hsame : t' = t := h.issued.distinct t' t i (Stage.submits_of_record ht) (by rw [hn]; rfl)
  subst hsame
  rw [hn] at ht
  cases ht

/-- `HMSET` of a submission, executed or not; without a reply the thread is unsure of it. -/
theorem LifeInv.saved (h : LifeInv wants written faulty w n) (hn : n t = .issued i) {task : TaskRequest}
    {info : TaskInfo}
    (hwants : wants t task) (hinfo : SubmittedInfo task info) (hid : info.id = i) (hg : w'.generator = w.generator)
    (hframe : ∀ key, taskKey i ≠ key → w'.redis[key]? = w.redis[key]?)
    (hself : w'.redis[taskKey i]? = some (.hash (recordFields info)) ∨
      w'.redis[taskKey i]? = none ∧ g = .unsure i (recordFields info).toList)
    (hstage : g = .saved i (recordFields info).toList ∨ g = .unsure i (recordFields info).toList) :
    LifeInv wants written faulty w' (Function.update n t g) := by
  have hother : ∀ {j}, j ≠ i → w'.redis[taskKey j]? = w.redis[taskKey j]? := fun {j} hj =>
    hframe _ fun he => hj (taskKey_injective he).symm
  have hq : ∀ q ∈ queueKeys, w'.redis[q]? = w.redis[q]? := fun q hq => hframe q (taskKey_ne_queue hq i)
  have hitems : ∀ q ∈ queueKeys, queueItems w'.redis q = queueItems w.redis q := fun q hm =>
    queueItems_congr (hq q hm)
  have hnot : ∀ {j} fields, n t ≠ .pushed j fields := fun fields he => by rw [hn] at he; cases he
  have hworker : storedWorker w'.redis i = none := by
    rcases hself with hself | ⟨hself, -⟩
    · simp only [storedWorker, hself]
      exact recordFields_worker info
    · simp only [storedWorker, hself]
  -- what the two new stages have in common
  have hrecord : g.record = some (i, (recordFields info).toList) := by rcases hstage with rfl | rfl <;> rfl
  have hpopped : g.popped = none := by rcases hstage with rfl | rfl <;> rfl
  have hholds : g.held = none := by rcases hstage with rfl | rfl <;> rfl
  have hgpushed : ∀ {j fields}, g ≠ .pushed j fields := by
    rintro j fields rfl
    rcases hstage with he | he <;> cases he
  have hreading : ∀ {j fields}, g ≠ .holding j fields := by
    rintro j fields rfl
    rcases hstage with he | he <;> cases he
  have hheld : ∀ {t' j}, (Function.update n t g t').held = some j → (n t').held = some j :=
    fun {t' j} => of_update (·.held = some j) (by rw [hholds]; intro he; cases he)
  -- another submission has another id
  have hne : ∀ {t' j}, t' ≠ t → (n t').submits = some j → j ≠ i := by
    rintro t' j ht hj rfl
    exact ht (h.issued.distinct t' t j hj (by rw [hn]; rfl))
  refine ⟨h.issued.keep hg fun t' j => ?_, ⟨?_, ?_, ?_, ?_, ?_, ?_, ?_⟩, fun j => ⟨?_, ?_, ?_, ?_⟩,
    fun hf => ⟨?_, ?_⟩⟩
  · refine of_update (·.submits = some j) fun he => ?_
    rw [Stage.submits_of_record hrecord] at he
    rw [hn]
    exact he
  · exact fun q hm => isQueue_congr (hq q hm) (h.known.queues q hm)
  · intro q hm x hx
    rw [hitems q hm] at hx
    exact (h.known.waiting q hm x hx).keep hnot
  · intro t' j ht
    refine (h.known.popped t' j (of_update (·.popped = some j) (fun he => ?_) ht)).keep hnot
    rw [hpopped] at he
    cases he
  · intro j hj
    by_cases he : j = i
    · subst he
      exact ⟨t, _, by rw [Function.update_self]; exact hrecord⟩
    · rw [hother he] at hj
      obtain ⟨t', fields, ht⟩ := h.known.records j hj
      refine ⟨t', fields, at_update (·.record = some (j, fields)) (fun he => ?_) ht⟩
      rw [hn] at he
      cases he
  · intro t' j fields ht
    by_cases he : t' = t
    · subst he
      rw [Function.update_self] at ht
      rcases hself with hself | ⟨-, rfl⟩
      · have hstored := Stage.record_of_stored ht
        rw [hrecord] at hstored
        cases hstored
        rw [hself]
        exact Option.some_ne_none _
      · cases ht
    · rw [Function.update_of_ne he] at ht
      rw [hother (hne he (Stage.submits_of_record (Stage.record_of_stored ht)))]
      exact h.known.present t' j fields ht
  · intro t' j fields ht
    by_cases he : t' = t
    · subst he
      rw [Function.update_self] at ht
      rw [ht] at hrecord
      cases hrecord
      exact hworker
    · rw [Function.update_of_ne he] at ht
      rw [storedWorker_congr (hother (hne he (by rw [ht]; rfl)))]
      exact h.known.fresh t' j fields ht
  · intro t' j fields ht
    by_cases he : t' = t
    · subst he
      rw [Function.update_self, hrecord] at ht
      cases ht
      refine ⟨task, info, hwants, hinfo, hid, rfl, fun value hvalue => ?_⟩
      rcases hself with hself | ⟨hself, -⟩
      · rw [hself] at hvalue
        cases hvalue
        refine ⟨_, rfl, fun _ _ _ _ => rfl, ?_, ?_, fun _ => rfl⟩
        · exact Or.inl (recordFields_pending hinfo.status)
        · exact recordFields_number info (by decide)
      · rw [hself] at hvalue
        cases hvalue
    · rw [Function.update_of_ne he] at ht
      rw [hother (hne he (Stage.submits_of_record ht))]
      exact h.known.evolved t' j fields ht
  · rw [occurrences_congr hq]
    exact (h.once j).once
  · intro t' ht
    rw [occurrences_congr hq]
    exact (h.once j).alone t' (hheld ht)
  · exact fun t₁ t₂ h₁ h₂ => (h.once j).single t₁ t₂ (hheld h₁) (hheld h₂)
  · intro hsome
    by_cases he : j = i
    · subst he
      rw [hworker] at hsome
      cases hsome
    · rw [storedWorker_congr (hother he)] at hsome
      obtain ⟨hzero, hfree⟩ := (h.once j).unassigned hsome
      exact ⟨by rw [occurrences_congr hq]; exact hzero, fun t' ht => hfree t' (hheld ht)⟩
  · intro q hm x hx t' info' ht
    rw [hitems q hm] at hx
    exact (h.placed hf).waiting q hm x hx t' info' (of_update (· = .pushed x _) (fun he => absurd he hgpushed) ht)
  · intro t' j fields ht t'' info' ht'
    exact (h.placed hf).read t' j fields (of_update (· = .holding j (some fields))
      (fun he => absurd he hreading) ht)
      t'' info' (of_update (· = .pushed j _) (fun he => absurd he hgpushed) ht')

/-! ### Pushing -/

/-- An id comes into a list: it waited nowhere, had no worker and was held by no other thread. -/
theorem LifeInv.appended (h : LifeInv wants written faulty w n) (hg : w'.generator = w.generator) {q : Bytes}
    (ha : Appended w.redis w'.redis q i) (hnot : ∀ {j} fields, n t ≠ .pushed j fields)
    (hsubmits : ∀ j, g.submits = some j → (n t).submits = some j) (hstored : g.stored = (n t).stored)
    (hrecord : g.record = (n t).record) (hsaved : ∀ j fields, g ≠ .saved j fields)
    (hpopped : g.popped = none) (hpushed : Pushed (Function.update n t g) i) (hzero : occurrences w.redis i = 0)
    (hholder : ∀ t', (n t').held = some i → t' = t) (hworker : storedWorker w.redis i = none)
    (hplaced : ¬ faulty → ∀ t' info, Function.update n t g t' = .pushed i (recordFields info).toList →
      q = queueOf info.priority)
    (hold : ∀ {t' j fields}, j ≠ i → Function.update n t g t' = .pushed j fields → n t' = .pushed j fields) :
    LifeInv wants written faulty w' (Function.update n t g) := by
  have hrec : ∀ j, w'.redis[taskKey j]? = w.redis[taskKey j]? := fun j =>
    ha.frame _ (taskKey_ne_queue ha.mem j).symm
  have hheldNone : ∀ {j}, g.held ≠ some j := fun he => by
    rw [Stage.popped_of_held he] at hpopped
    cases hpopped
  have hheld : ∀ {t' j}, (Function.update n t g t').held = some j → t' ≠ t ∧ (n t').held = some j := by
    intro t' j ht
    by_cases he : t' = t
    · subst he
      rw [Function.update_self] at ht
      exact absurd ht hheldNone
    · rw [Function.update_of_ne he] at ht
      exact ⟨he, ht⟩
  have hread : ∀ {t' j fields}, Function.update n t g t' = .holding j (some fields) →
      n t' = .holding j (some fields) ∧ j ≠ i := by
    intro t' j fields ht
    obtain ⟨hne, hj⟩ := hheld (j := j) (by rw [ht]; rfl)
    rw [Function.update_of_ne hne] at ht
    exact ⟨ht, fun he => hne (hholder t' (by rw [← he]; exact hj))⟩
  refine ⟨h.issued.keep hg fun t' j => of_update (·.submits = some j) (hsubmits j), ⟨?_, ?_, ?_, ?_, ?_, ?_, ?_⟩,
    fun j => ⟨?_, ?_, ?_, ?_⟩, fun hf => ⟨?_, ?_⟩⟩
  · exact fun q' hq' => ha.isQueue (h.known.queues q' hq')
  · exact ha.forall_items (fun q' hq' x hx => (h.known.waiting q' hq' x hx).keep hnot) hpushed
  · intro t' j ht
    refine (h.known.popped t' j (of_update (·.popped = some j) (fun he => ?_) ht)).keep hnot
    rw [hpopped] at he
    cases he
  · intro j hj
    rw [hrec] at hj
    obtain ⟨t', fields, ht⟩ := h.known.records j hj
    exact ⟨t', fields, at_update (·.record = some (j, fields)) (fun he => by rw [hrecord]; exact he) ht⟩
  · intro t' j fields ht
    rw [hrec]
    exact h.known.present t' j fields
      (of_update (·.stored = some (j, fields)) (fun he => by rw [← hstored]; exact he) ht)
  · intro t' j fields ht
    rw [storedWorker_congr (hrec j)]
    exact h.known.fresh t' j fields (of_update (· = .saved j fields) (fun he => absurd he (hsaved j fields)) ht)
  · intro t' j fields ht
    rw [hrec]
    exact h.known.evolved t' j fields
      (of_update (·.record = some (j, fields)) (fun he => by rw [← hrecord]; exact he) ht)
  · rw [ha.occurrences]
    by_cases he : i = j
    · subst he
      rw [hzero]
      simp
    · rw [if_neg he]
      exact (h.once j).once
  · intro t' ht
    obtain ⟨hne, ht⟩ := hheld ht
    rw [ha.occurrences, if_neg fun he => hne (hholder t' (by rw [he]; exact ht))]
    exact (h.once j).alone t' ht
  · exact fun t₁ t₂ h₁ h₂ => (h.once j).single t₁ t₂ (hheld h₁).2 (hheld h₂).2
  · intro hsome
    rw [storedWorker_congr (hrec j)] at hsome
    obtain ⟨hj, hfree⟩ := (h.once j).unassigned hsome
    refine ⟨?_, fun t' ht => hfree t' (hheld ht).2⟩
    rw [ha.occurrences, if_neg ?_, hj]
    rintro rfl
    rw [hworker] at hsome
    cases hsome
  · intro q' hq' x hx t' info ht
    rw [ha.items_eq] at hx
    by_cases he : x = i
    · subst he
      have hnone : ∀ q ∈ queueKeys, x ∉ queueItems w.redis q := occurrences_eq_zero.1 hzero
      split at hx
      · rename_i hq
        rw [← hq]
        exact hplaced hf t' info ht
      · exact absurd hx (hnone q' hq')
    · have hx' : x ∈ queueItems w.redis q' := by
        split at hx
        · rcases List.mem_append.1 hx with hx | hx
          · exact hx
          · exact absurd (List.mem_singleton.1 hx) he
        · exact hx
      exact (h.placed hf).waiting q' hq' x hx' t' info (hold he ht)
  · intro t' j fields ht t'' info ht'
    obtain ⟨ht, hne⟩ := hread ht
    exact (h.placed hf).read t' j fields ht t'' info (hold hne ht')

theorem priority_eq_of_toList {info info' : TaskInfo}
    (h : (recordFields info).toList = (recordFields info').toList) : info.priority = info'.priority := by
  have hsame : recordFields info = recordFields info' := by
    rw [← storeFields_toList (recordFields info), h, storeFields_toList]
  have hpriority := (recordFields_record info).priority
  rw [hsame, (recordFields_record info').priority] at hpriority
  exact (Int32.toInt_inj.1 (decimal_injective (Option.some.inj hpriority))).symm

/-- `RPUSH` of a submission. -/
theorem LifeInv.submitted (h : LifeInv wants written faulty w n) {info : TaskInfo}
    (hn : n t = .saved i (recordFields info).toList)
    (hg : w'.generator = w.generator) (ha : Appended w.redis w'.redis (queueOf info.priority) i) :
    LifeInv wants written faulty w' (Function.update n t (.pushed i (recordFields info).toList)) := by
  have hnot : ∀ {j} fields, n t ≠ .pushed j fields := fun fields he => by rw [hn] at he; cases he
  obtain ⟨-, hzero, hfree⟩ := h.unpushed (t := t) (i := i) (by rw [hn]; rfl) hnot
  refine h.appended hg ha hnot ?_ (by rw [hn]; rfl) (by rw [hn]; rfl) ?_ rfl ⟨t, _, Function.update_self ..⟩ hzero
    ?_ ?_ ?_ ?_
  · intro j hj
    rw [hn]
    exact hj
  · intro j fields he
    cases he
  · exact fun t' ht => absurd (Stage.popped_of_held ht) (hfree t')
  · exact h.known.fresh t i _ hn
  · intro _ t' info' ht
    by_cases he : t' = t
    · subst he
      rw [Function.update_self] at ht
      rw [priority_eq_of_toList (Stage.pushed.inj ht).2]
    · rw [Function.update_of_ne he] at ht
      exact absurd (h.issued.distinct t' t i (by rw [ht]; rfl) (by rw [hn]; rfl)) he
  · intro t' j fields hj ht
    exact of_update (· = .pushed j fields) (fun he => absurd (Stage.pushed.inj he).1.symm hj) ht

/-- `RPUSH` of a submission that was not executed. -/
theorem LifeInv.unheard (h : LifeInv wants written faulty w n) {fields : List (Bytes × Bytes)}
    (hn : n t = .saved i fields)
    (hfaulty : faulty) (hg : w'.generator = w.generator) (hw : w'.redis = w.redis) :
    LifeInv wants written faulty w' (Function.update n t (.pushed i fields)) := by
  have hnot : ∀ {j} fields, n t ≠ .pushed j fields := fun fields he => by rw [hn] at he; cases he
  have hheld : ∀ {t' j}, (Function.update n t (.pushed i fields) t').held = some j → (n t').held = some j :=
    fun {t' j} => of_update (·.held = some j) (by intro he; cases he)
  refine ⟨h.issued.keep hg fun t' j => ?_, ?_, fun j => ?_, fun hf => absurd hfaulty hf⟩
  · exact of_update (·.submits = some j) fun he => by rw [hn]; exact he
  · rw [hw]
    refine ⟨h.known.queues, fun q hm x hx => (h.known.waiting q hm x hx).keep hnot, ?_, ?_, ?_, ?_, ?_⟩
    · exact fun t' j ht =>
        (h.known.popped t' j (of_update (·.popped = some j) (by intro he; cases he) ht)).keep hnot
    · intro j hj
      obtain ⟨t', fields', ht⟩ := h.known.records j hj
      exact ⟨t', fields', at_update (·.record = some (j, fields')) (fun he => by rw [hn] at he; exact he) ht⟩
    · exact fun t' j fields' ht => h.known.present t' j fields'
        (of_update (·.stored = some (j, fields')) (fun he => by rw [hn]; exact he) ht)
    · exact fun t' j fields' ht => h.known.fresh t' j fields' (of_update (· = .saved j fields')
        (by intro he; cases he) ht)
    · exact fun t' j fields' ht => h.known.evolved t' j fields'
        (of_update (·.record = some (j, fields')) (fun he => by rw [hn]; exact he) ht)
  · rw [hw]
    refine ⟨(h.once j).once, fun t' ht => (h.once j).alone t' (hheld ht),
      fun t₁ t₂ h₁ h₂ => (h.once j).single t₁ t₂ (hheld h₁) (hheld h₂), fun hsome => ?_⟩
    obtain ⟨hzero, hfree⟩ := (h.once j).unassigned hsome
    exact ⟨hzero, fun t' ht => hfree t' (hheld ht)⟩

/-- `RPUSH` of a loop that has read the record. -/
theorem LifeInv.requeued (h : LifeInv wants written faulty w n) {fields : StringMap Bytes} {q : Bytes}
    (hn : n t = .holding i (some fields)) (hchosen : Stage.Chosen fields q) (hg : w'.generator = w.generator)
    (ha : Appended w.redis w'.redis q i) : LifeInv wants written faulty w' (Function.update n t .idle) := by
  have hnot : ∀ {j} fields, n t ≠ .pushed j fields := fun fields he => by rw [hn] at he; cases he
  have hheld : (n t).held = some i := by rw [hn]; rfl
  have hpushed : Pushed n i := h.known.popped t i (Stage.popped_of_held hheld)
  have hold : ∀ {t' j fields}, Function.update n t .idle t' = .pushed j fields → n t' = .pushed j fields :=
    fun {t' j fields} => of_update (· = .pushed j fields) (by intro he; cases he)
  refine h.appended hg ha hnot ?_ (by rw [hn]; rfl) (by rw [hn]; rfl) ?_ rfl (hpushed.keep hnot)
    ((h.once i).alone t hheld) ?_ ?_ ?_ ?_
  · exact fun j hj => by cases hj
  · intro j fields he
    cases he
  · exact fun t' ht => (h.once i).single t' t ht hheld
  · by_contra hne
    exact ((h.once i).unassigned (Option.isSome_iff_ne_none.2 hne)).2 t hheld
  · intro hf t' info ht
    have hpriority := (h.placed hf).read t i fields hn t' info (hold ht)
    obtain ⟨m, hm, rfl⟩ := hchosen.2 (isEmpty_eq_false_of_getElem? hpriority)
    rw [getInt, hpriority] at hm
    simp only [stoll_decimal_int32, Except.ok.injEq] at hm
    rw [← hm, Int32.toInt32_toInt64]
  · exact fun _ ht => hold ht

/-! ### Dispatching -/

/-- `LPOP`: the id leaves its list, and the loop holds it; if the reply is lost, nobody does. -/
theorem LifeInv.popped (h : LifeInv wants written faulty w n) (hn : n t = .idle)
    (hg : w'.generator = w.generator) {q : Bytes}
    (ht : Taken w.redis w'.redis q i) (hstage : g = .holding i none ∨ g = .idle) :
    LifeInv wants written faulty w' (Function.update n t g) := by
  have hrec : ∀ j, w'.redis[taskKey j]? = w.redis[taskKey j]? := fun j =>
    ht.frame _ (taskKey_ne_queue ht.mem j).symm
  have hitems : ∀ q' ∈ queueKeys, ∀ x ∈ queueItems w'.redis q', x ∈ queueItems w.redis q' := by
    intro q' _ x hx
    by_cases he : q = q'
    · subst he
      rw [ht.items]
      exact List.mem_cons_of_mem _ hx
    · rwa [queueItems_congr (ht.frame q' he)] at hx
  have hnot : ∀ {j} fields, n t ≠ .pushed j fields := fun fields he => by rw [hn] at he; cases he
  have hpushed : Pushed n i := h.known.waiting q ht.mem i (by rw [ht.items]; exact List.mem_cons_self)
  -- it waited once, so nobody held it and it had no worker
  have hcount := ht.occurrences i
  rw [if_pos rfl] at hcount
  have honce := (h.once i).once
  have hfree : ∀ t', (n t').held ≠ some i := by
    intro t' ht'
    have hzero := (h.once i).alone t' ht'
    omega
  have hrecord : g.record = none := by rcases hstage with rfl | rfl <;> rfl
  have hpops : ∀ {j}, g.popped = some j → j = i := by
    rintro j he
    rcases hstage with rfl | rfl
    · exact (Option.some.inj he).symm
    · cases he
  have hheld : ∀ {t' j}, j ≠ i → (Function.update n t g t').held = some j → (n t').held = some j :=
    fun {t' j} hj => of_update (·.held = some j) fun he => absurd (hpops (Stage.popped_of_held he)) hj
  have hold : ∀ {t' j fields}, Function.update n t g t' = .pushed j fields → n t' = .pushed j fields :=
    fun {t' j fields} => of_update (· = .pushed j fields) fun he => by rw [he] at hrecord; cases hrecord
  have hself : ∀ {t'}, (Function.update n t g t').held = some i → t' = t := by
    intro t' ht'
    by_contra he
    rw [Function.update_of_ne he] at ht'
    exact hfree t' ht'
  refine ⟨h.issued.keep hg fun t' j => of_update (·.submits = some j) fun he => ?_, ⟨?_, ?_, ?_, ?_, ?_, ?_, ?_⟩,
    fun j => ?_, fun hf => ⟨?_, ?_⟩⟩
  · rcases hstage with rfl | rfl <;> cases he
  · intro q' hq'
    by_cases he : q = q'
    · subst he
      exact ht.isQueue
    · exact isQueue_congr (ht.frame q' he) (h.known.queues q' hq')
  · exact fun q' hq' x hx => (h.known.waiting q' hq' x (hitems q' hq' x hx)).keep hnot
  · intro t' j ht'
    by_cases he : t' = t
    · subst he
      rw [Function.update_self] at ht'
      rw [hpops ht']
      exact hpushed.keep hnot
    · rw [Function.update_of_ne he] at ht'
      exact (h.known.popped t' j ht').keep hnot
  · intro j hj
    rw [hrec] at hj
    obtain ⟨t', fields, ht'⟩ := h.known.records j hj
    refine ⟨t', fields, at_update (·.record = some (j, fields)) (fun he => ?_) ht'⟩
    rw [hn] at he
    cases he
  · intro t' j fields ht'
    rw [hrec]
    refine h.known.present t' j fields (of_update (·.stored = some (j, fields)) (fun he => ?_) ht')
    rw [Stage.record_of_stored he] at hrecord
    cases hrecord
  · intro t' j fields ht'
    rw [storedWorker_congr (hrec j)]
    refine h.known.fresh t' j fields (of_update (· = .saved j fields) (fun he => ?_) ht')
    rw [he] at hrecord
    cases hrecord
  · intro t' j fields ht'
    rw [hrec]
    refine h.known.evolved t' j fields (of_update (·.record = some (j, fields)) (fun he => ?_) ht')
    rw [hrecord] at he
    cases he
  · by_cases hj : j = i
    · subst hj
      refine ⟨by omega, fun _ _ => by omega, fun t₁ t₂ h₁ h₂ => (hself h₁).trans (hself h₂).symm,
        fun hsome => ?_⟩
      rw [storedWorker_congr (hrec j)] at hsome
      have hzero := ((h.once j).unassigned hsome).1
      omega
    · have hocc : occurrences w'.redis j = occurrences w.redis j := by
        rw [ht.occurrences j, if_neg (Ne.symm hj)]
        rfl
      refine ⟨by rw [hocc]; exact (h.once j).once, fun t' ht' =>
        by rw [hocc]; exact (h.once j).alone t' (hheld hj ht'),
        fun t₁ t₂ h₁ h₂ => (h.once j).single t₁ t₂ (hheld hj h₁) (hheld hj h₂), fun hsome => ?_⟩
      rw [storedWorker_congr (hrec j)] at hsome
      obtain ⟨hzero, hnone⟩ := (h.once j).unassigned hsome
      exact ⟨by rw [hocc]; exact hzero, fun t' ht' => hnone t' (hheld hj ht')⟩
  · exact fun q' hq' x hx t' info ht' => (h.placed hf).waiting q' hq' x (hitems q' hq' x hx) t' info (hold ht')
  · intro t' j fields ht' t'' info ht''
    have hreading := of_update (· = .holding j (some fields))
      (fun he => by rcases hstage with rfl | rfl <;> cases he) ht'
    exact (h.placed hf).read t' j fields hreading t'' info (hold ht'')

/-- What a loop writes keeps the record what the submission saved. -/
theorem Evolved.insert {saved f : StringMap Bytes} (h : Evolved written saved f) {field value : Bytes}
    (hw : Stage.Writes field value) (hwritten : written) : Evolved written saved (f.insert field value) := by
  refine ⟨?_, ?_, ?_, fun hn => absurd hwritten hn⟩
  · intro field' hs hwork ht
    rw [getElem?_insert, if_neg ?_]
    · exact h.kept field' hs hwork ht
    · rintro rfl
      rcases hw with ⟨rfl, -⟩ | rfl | ⟨rfl, -⟩
      · exact hs rfl
      · exact hwork rfl
      · exact ht rfl
  · rw [getElem?_insert]
    rcases hw with ⟨rfl, rfl⟩ | rfl | ⟨rfl, -⟩
    · exact Or.inr (if_pos rfl)
    · rw [if_neg (by decide)]
      exact h.status
    · rw [if_neg (by decide)]
      exact h.status
  · rw [getElem?_insert]
    rcases hw with ⟨rfl, -⟩ | rfl | ⟨rfl, m, rfl⟩
    · rw [if_neg (by decide)]
      exact h.started
    · rw [if_neg (by decide)]
      exact h.started
    · exact ⟨m, if_pos rfl⟩

/-- `HSET` of a loop into the record of its task; `g` is its stage afterwards. -/
theorem LifeInv.stored (h : LifeInv wants written faulty w n) (hwritten : written) {f : StringMap Bytes}
    {field value : Bytes} (hwrites : Stage.Writes field value) (hpopped : (n t).popped = some i)
    (hg : w'.generator = w.generator)
    (hf : w.redis[taskKey i]? = some (.hash f)) (hw : w'.redis = w.redis.insert (taskKey i)
      (.hash (f.insert field value)))
    (hstage : field ≠ bytes "worker_id" ∧ g = n t ∨
      field = bytes "worker_id" ∧ (n t).held = some i ∧ g = .assigned i) :
    LifeInv wants written faulty w' (Function.update n t g) := by
  have hself : w'.redis[taskKey i]? = some (.hash (f.insert field value)) := by rw [hw]; simp
  have hother : ∀ {j}, j ≠ i → w'.redis[taskKey j]? = w.redis[taskKey j]? := by
    intro j hj
    rw [hw]
    simp [hj.symm]
  have hq : ∀ q ∈ queueKeys, w'.redis[q]? = w.redis[q]? := by
    intro q hq
    rw [hw]
    simp [taskKey_ne_queue hq i]
  have hitems : ∀ q ∈ queueKeys, queueItems w'.redis q = queueItems w.redis q := fun q hm =>
    queueItems_congr (hq q hm)
  have hnfree : (n t).free = true := Stage.free_of_popped hpopped
  have hgpopped : g.popped = some i := by
    rcases hstage with ⟨-, rfl⟩ | ⟨-, -, rfl⟩
    · exact hpopped
    · rfl
  have hgfree : g.free = true := Stage.free_of_popped hgpopped
  have hgheld : ∀ {j}, g.held = some j → (n t).held = some j := by
    rcases hstage with ⟨-, rfl⟩ | ⟨-, -, rfl⟩
    · exact id
    · exact fun he => by cases he
  have hheld : ∀ {t' j}, (Function.update n t g t').held = some j → (n t').held = some j :=
    fun {t' j} => of_update (·.held = some j) hgheld
  have hold : ∀ {t' stage}, stage.free = false → Function.update n t g t' = stage → n t' = stage := by
    intro t' stage hstage
    refine of_update (· = stage) fun he => ?_
    rw [← he, hgfree] at hstage
    cases hstage
  -- the task was pushed by a thread that has not just saved it
  obtain ⟨t₀, fields₀, ht₀⟩ := h.known.popped t i hpopped
  have hsavedNe : ∀ {t' j fields}, n t' = .saved j fields → j ≠ i := by
    rintro t' j fields ht' rfl
    have hsame : t' = t₀ := h.issued.distinct t' t₀ j (by rw [ht']; rfl) (by rw [ht₀]; rfl)
    subst hsame
    rw [ht₀] at ht'
    cases ht'
  refine ⟨h.issued.keep hg fun t' j => of_update (·.submits = some j) fun he => ?_, ⟨?_, ?_, ?_, ?_, ?_, ?_, ?_⟩,
    fun j => ⟨?_, ?_, ?_, ?_⟩, fun hfault => ⟨?_, ?_⟩⟩
  · rw [Stage.submits_of_free hgfree] at he
    cases he
  · exact fun q hm => isQueue_congr (hq q hm) (h.known.queues q hm)
  · intro q hm x hx
    rw [hitems q hm] at hx
    exact (h.known.waiting q hm x hx).keep (ne_pushed_of_free hnfree)
  · intro t' j ht'
    refine (h.known.popped t' j (of_update (·.popped = some j) (fun he => ?_) ht')).keep (ne_pushed_of_free hnfree)
    rw [hgpopped] at he
    rw [hpopped, he]
  · intro j hj
    have hne : w.redis[taskKey j]? ≠ none := by
      by_cases he : j = i
      · rw [he, hf]
        exact Option.some_ne_none _
      · rwa [hother he] at hj
    obtain ⟨t', fields, ht'⟩ := h.known.records j hne
    refine ⟨t', fields, at_update (·.record = some (j, fields)) (fun he => ?_) ht'⟩
    rw [Stage.record_of_free hnfree] at he
    cases he
  · intro t' j fields ht'
    have hpresent := h.known.present t' j fields (of_update (·.stored = some (j, fields))
      (fun he => by rw [Stage.stored_of_free hgfree] at he; cases he) ht')
    by_cases he : j = i
    · rw [he, hself]
      exact Option.some_ne_none _
    · rwa [hother he]
  · intro t' j fields ht'
    have hsaved := hold rfl ht'
    rw [storedWorker_congr (hother (hsavedNe hsaved))]
    exact h.known.fresh t' j fields hsaved
  · intro t' j fields ht'
    have hrecord := of_update (·.record = some (j, fields))
      (fun he => by rw [Stage.record_of_free hgfree] at he; cases he) ht'
    by_cases he : j = i
    · subst he
      obtain ⟨task, info, f', hwants, hinfo, hid, hfields, hf', hevolved⟩ := h.known.recorded hrecord hf
      cases hf'
      refine ⟨task, info, hwants, hinfo, hid, hfields, fun value hvalue => ?_⟩
      rw [hself] at hvalue
      cases hvalue
      exact ⟨_, rfl, hevolved.insert hwrites hwritten⟩
    · rw [hother he]
      exact h.known.evolved t' j fields hrecord
  · rw [occurrences_congr hq]
    exact (h.once j).once
  · intro t' ht'
    rw [occurrences_congr hq]
    exact (h.once j).alone t' (hheld ht')
  · exact fun t₁ t₂ h₁ h₂ => (h.once j).single t₁ t₂ (hheld h₁) (hheld h₂)
  · intro hsome
    rw [occurrences_congr hq]
    by_cases he : j = i
    · subst he
      rcases hstage with ⟨hfield, -⟩ | ⟨-, hholds, rfl⟩
      · -- the worker was there before
        have hsame : storedWorker w'.redis j = storedWorker w.redis j := by
          simp only [storedWorker, hself, hf, getElem?_insert, if_neg hfield]
        rw [hsame] at hsome
        obtain ⟨hzero, hnone⟩ := (h.once j).unassigned hsome
        exact ⟨hzero, fun t' ht' => hnone t' (hheld ht')⟩
      · refine ⟨(h.once j).alone t hholds, fun t' ht' => ?_⟩
        have hsame : t' = t := (h.once j).single t' t (hheld ht') hholds
        subst hsame
        rw [Function.update_self] at ht'
        cases ht'
    · rw [storedWorker_congr (hother he)] at hsome
      obtain ⟨hzero, hnone⟩ := (h.once j).unassigned hsome
      exact ⟨hzero, fun t' ht' => hnone t' (hheld ht')⟩
  · intro q hm x hx t' info ht'
    rw [hitems q hm] at hx
    exact (h.placed hfault).waiting q hm x hx t' info (hold rfl ht')
  · intro t' j fields ht' t'' info ht''
    refine (h.placed hfault).read t' j fields (of_update (· = .holding j (some fields)) (fun he => ?_) ht') t'' info
      (hold rfl ht'')
    rcases hstage with ⟨-, rfl⟩ | ⟨-, -, rfl⟩
    · exact he
    · cases he

/-! ### Every command -/

omit [DecidableEq ι] in
/-- The ids of submissions are decimals. -/
theorem LifeInv.number (h : LifeInv wants written faulty w n) (hi : Pushed n i) : ∃ id : Int64,
    i = decimal id.toInt := by
  obtain ⟨t', fields, ht'⟩ := hi
  obtain ⟨id, hid, -⟩ := h.issued.behind t' i (by rw [ht']; rfl)
  exact ⟨id, hid⟩

omit [DecidableEq ι] in
theorem LifeInv.noNul (h : LifeInv wants written faulty w n) (hi : Pushed n i) : ValidId i := by
  obtain ⟨id, rfl⟩ := h.number hi
  exact validId_decimal _

omit [DecidableEq ι] in
theorem KeepsRecords.of_eq (h : ∀ i, w'.redis[taskKey i]? = w.redis[taskKey i]?) : KeepsRecords w w' := by
  intro i f hf
  exact ⟨f, by rw [h i]; exact hf, .refl f⟩

omit [DecidableEq ι] in
/-- One record has changed. -/
theorem KeepsRecords.of_one (hi : ∀ f, w.redis[taskKey i]? = some (.hash f) →
    ∃ f', w'.redis[taskKey i]? = some (.hash f') ∧ Advances f f')
    (h : ∀ j, j ≠ i → w'.redis[taskKey j]? = w.redis[taskKey j]?) : KeepsRecords w w' := by
  intro j f hf
  by_cases hj : j = i
  · subst hj
    exact hi f hf
  · exact ⟨f, by rw [h j hj]; exact hf, .refl f⟩

/-- A loop writes; it writes a worker only where there is none. -/
theorem Advances.insert {f : StringMap Bytes} {field value : Bytes} (hw : Stage.Writes field value)
    (hworker : field = bytes "worker_id" → f[bytes "worker_id"]? = none) : Advances f (f.insert field value) := by
  constructor
  · intro g hs hwork ht
    rw [getElem?_insert, if_neg]
    rintro rfl
    rcases hw with ⟨rfl, -⟩ | rfl | ⟨rfl, -⟩
    · exact hs rfl
    · exact hwork rfl
    · exact ht rfl
  · intro hrunning
    rw [getElem?_insert]
    split
    · rename_i hfield
      rcases hw with ⟨-, rfl⟩ | hw | ⟨hw, -⟩
      · rfl
      · exact absurd (hw.symm.trans hfield) (by decide)
      · exact absurd (hw.symm.trans hfield) (by decide)
    · exact hrunning
  · intro v hv
    rw [getElem?_insert, if_neg]
    · exact hv
    · intro hfield
      rw [hworker hfield] at hv
      cases hv

/-- A command that failed, or that moves nothing. -/
theorem LifeInv.still (h : LifeInv wants written faulty w n) {g : Stage} (hg : w'.generator = w.generator)
    (hq : ∀ q ∈ queueKeys, w'.redis[q]? = w.redis[q]?) (hi : ∀ i, w'.redis[taskKey i]? = w.redis[taskKey i]?)
    (hstage : g = n t) : LifeInv wants written faulty w' (Function.update n t g) ∧ KeepsRecords w w' := by
  subst hstage
  rw [Function.update_eq_self]
  exact ⟨h.frame hg hq hi, .of_eq hi⟩

omit [DecidableEq ι] in
/-- The record of a task that was submitted. -/
theorem LifeInv.record (h : LifeInv wants written faulty w n) (hi : Pushed n i) :
    ∃ f, w.redis[taskKey i]? = some (.hash f) ∧ ∀ t info, n t = .pushed i (recordFields info).toList →
      f[bytes "priority"]? = some (decimal info.priority.toInt) := by
  obtain ⟨t₀, fields₀, ht₀⟩ := hi
  obtain ⟨-, info₀, f, -, -, -, -, hf, hevolved⟩ := h.known.stored (by rw [ht₀]; rfl :
    (n t₀).stored = some (i, fields₀))
  refine ⟨f, hf, fun t info ht => ?_⟩
  obtain ⟨-, info', f', -, -, -, hfields, hf', hevolved'⟩ := h.known.stored (t := t) (by rw [ht]; rfl)
  rw [hf] at hf'
  cases hf'
  rw [hevolved'.kept _ (by decide) (by decide) (by decide), (recordFields_record info').priority,
    priority_eq_of_toList hfields]

/-- A command that was not executed: the thread goes on as if it might have been. -/
theorem LifeInv.refused (h : LifeInv wants written faulty w n) {stage : Stage} {cmd : Command} {r : Option Reply}
    (hmove : StageMove (wants t) stage cmd) (hn : n t = stage) (hfaulty : faulty) (hr : r = none ∨ r = some .error)
    (hg : w'.generator = w.generator) (hw : w'.redis = w.redis) :
    LifeInv wants written faulty w' (Function.update n t (stage.command cmd r)) ∧ KeepsRecords w w' := by
  have hfail : ¬succeeded r = true := by simp [succeeded_of_failed hr]
  have hkeeps : KeepsRecords w w' := .of_eq fun _ => by rw [hw]
  have hsame : stage.command cmd r = stage →
      LifeInv wants written faulty w' (Function.update n t (stage.command cmd r)) ∧ KeepsRecords w w' := by
    intro hstage
    exact h.still hg (fun _ _ => by rw [hw]) (fun _ => by rw [hw]) (by rw [hstage, hn])
  -- a loop that takes its task for pushed back, assigned or read without fields
  have hloop : ∀ {g : Stage}, (n t).free = true → g.free = true →
    (∀ j, g.popped = some j → (n t).popped = some j) →
      (∀ j, g.held = some j → (n t).held = some j) → LifeInv wants written faulty w' (Function.update n t g) := by
    intro g hfree hgfree hpopped hheld
    refine h.note hw hfree (h.issued.keep hg fun t' j => ?_) (Stage.record_of_free hgfree) hpopped hheld
      fun hf => absurd hfaulty hf
    refine of_update (·.submits = some j) fun he => ?_
    rw [Stage.submits_of_free hgfree] at he
    cases he
  cases hmove with
  | still hcmd hstage => exact hsame (hstage r)
  | @save i task info hwants hinfo hid =>
    refine ⟨?_, hkeeps⟩
    rw [Stage.command, if_neg hfail]
    have habsent : w'.redis[taskKey i]? = none := by rw [hw]; exact h.absent hn
    exact h.saved hn hwants hinfo hid hg (fun _ _ => by rw [hw]) (Or.inr ⟨habsent, rfl⟩) (Or.inr rfl)
  | push info => exact ⟨h.unheard hn hfaulty hg hw, hkeeps⟩
  | pop hq =>
    have htext : replyText r = [] := by rcases hr with rfl | rfl <;> rfl
    exact hsame (if_pos htext)
  | requeue hchosen =>
    exact ⟨hloop (by rw [hn]; rfl) rfl (fun j hj => by cases hj) (fun j hj => by cases hj), hkeeps⟩
  | @assign i field value read hwrites =>
    by_cases hfield : field = bytes "worker_id"
    · refine ⟨?_, hkeeps⟩
      rw [Stage.command, if_pos hfield]
      exact hloop (by rw [hn]; rfl) rfl (fun j hj => by rw [hn]; exact hj) (fun j hj => by cases hj)
    · exact hsame (if_neg hfield)
  | start i m => exact hsame rfl
  | read i =>
    exact ⟨hloop (by rw [hn]; rfl) rfl (fun j hj => by rw [hn]; exact hj)
      (fun j hj => by rw [hn]; exact hj), hkeeps⟩

/-- A command that Redis executed, whether its reply arrives or not. -/
theorem LifeInv.executed (h : LifeInv wants written faulty w n) {stage : Stage} {cmd : Command} {r : Option Reply}
    (hmove : StageMove (wants t) stage cmd) (hn : n t = stage)
    (hwritten : ∀ key field value, cmd = .hset key field value → written)
    (hr : r = some (exec cmd w.redis).1 ∨ faulty ∧ r = none) (hg : w'.generator = w.generator)
    (hw : w'.redis = (exec cmd w.redis).2) :
    LifeInv wants written faulty w' (Function.update n t (stage.command cmd r)) ∧ KeepsRecords w w' := by
  have hother : ∀ key, cmd.key ≠ key → w'.redis[key]? = w.redis[key]? := by
    intro key hkey
    rw [hw]
    exact exec_frame cmd w.redis hkey
  cases hmove with
  | still hcmd hstage =>
    have hframe : (∀ q ∈ queueKeys, w'.redis[q]? = w.redis[q]?) ∧ ∀ i,
        w'.redis[taskKey i]? = w.redis[taskKey i]? := by
      rcases hcmd with hreads | ⟨hq, hi⟩
      · rw [hw, exec_reads hreads]
        exact ⟨fun _ _ => rfl, fun _ => rfl⟩
      · refine ⟨fun q hm => hother q ?_, fun i => hother _ (hi i)⟩
        rintro rfl
        exact hq hm
    exact h.still hg hframe.1 hframe.2 (by rw [hstage, hn])
  | @save i task info hwants hinfo hid =>
    have habsent := h.absent hn
    rw [exec_hmset habsent] at hw
    refine ⟨?_, .of_one (i := i) (fun f hf => ?_) fun j hj => hother _ ?_⟩
    · refine h.saved hn hwants hinfo hid hg hother (Or.inl (by rw [hw]; simp)) ?_
      rw [Stage.command]
      split
      · exact Or.inl rfl
      · exact Or.inr rfl
    · rw [habsent] at hf
      cases hf
    · simpa [Command.key] using hj.symm
  | @push i info =>
    have hvalid : cStr i = i := by
      obtain ⟨id, rfl, -⟩ := h.issued.behind t i (by rw [hn]; rfl)
      exact cStr_of_noNul (noNul_decimal _)
    rw [hvalid] at hw ⊢
    have hqueue := h.known.queues _ (queueOf_mem info.priority)
    refine ⟨h.submitted hn hg ?_, .of_eq fun j => hother _ (taskKey_ne_queue (queueOf_mem _) j).symm⟩
    rw [hw]
    exact appended_rpush (queueOf_mem _) hqueue
  | @requeue i q fields hchosen =>
    have hvalid : cStr i = i :=
      cStr_of_noNul (h.noNul (h.known.popped t i (by rw [hn]; rfl))).noNul
    rw [hvalid] at hw ⊢
    have hqueue := h.known.queues _ hchosen.1
    refine ⟨h.requeued hn hchosen hg ?_, .of_eq fun j => hother _ (taskKey_ne_queue hchosen.1 j).symm⟩
    rw [hw]
    exact appended_rpush hchosen.1 hqueue
  | @pop q hq =>
    have hkeeps : KeepsRecords w w' := .of_eq fun j => hother _ (taskKey_ne_queue hq j).symm
    rcases exec_lpop (h.known.queues q hq) with ⟨x, hx, hitems, hqueue⟩ | ⟨hx, hsame, -⟩
    · have hpushed : Pushed n x := h.known.waiting q hq x (by rw [hitems]; exact List.mem_cons_self)
      have htaken : Taken w.redis w'.redis q x := ⟨hq, hother, by rw [hw]; exact hqueue, by rw [hw]; exact hitems⟩
      refine ⟨h.popped hn hg htaken ?_, hkeeps⟩
      rw [hx] at hr
      rcases hr with rfl | ⟨-, rfl⟩
      · exact Or.inl (if_neg (h.noNul hpushed).nonempty)
      · exact Or.inr rfl
    · rw [hsame] at hw
      rw [hx] at hr
      refine h.still hg (fun _ _ => by rw [hw]) (fun _ => by rw [hw]) ?_
      rw [hn]
      rcases hr with rfl | ⟨-, rfl⟩
      · rfl
      · rfl
  | @read i read =>
    have hpushed : Pushed n i := h.known.popped t i (by rw [hn]; rfl)
    obtain ⟨f, hf, hpriority⟩ := h.record hpushed
    have hvalid : cStr i = i := cStr_of_noNul (h.noNul hpushed).noNul
    rw [exec_hgetall] at hw
    refine ⟨h.note hw (by rw [hn]; rfl) (h.issued.keep hg fun t' j => ?_) rfl ?_ ?_ ?_, .of_eq fun _ => by rw [hw]⟩
    · exact of_update (·.submits = some j) (by intro he; cases he)
    · exact fun j hj => by rw [hn]; exact hj
    · exact fun j hj => by rw [hn]; exact hj
    · rintro hf' j fields he t' info ht
      rcases hr with rfl | ⟨hfaulty, -⟩
      · rw [Stage.command, hvalid, replyFields_hgetall hf] at he
        cases he
        exact hpriority t' info ht
      · exact absurd hfaulty hf'
  | @assign i field value read hwrites =>
    have hpushed : Pushed n i := h.known.popped t i (by rw [hn]; rfl)
    obtain ⟨f, hf, -⟩ := h.record hpushed
    have hvalid : cStr i = i := cStr_of_noNul (h.noNul hpushed).noNul
    have hheld : (n t).held = some i := by rw [hn]; rfl
    rw [hvalid] at hw hother ⊢
    rw [exec_hset hf] at hw
    have hnone : storedWorker w.redis i = none := by
      by_contra hne
      exact ((h.once i).unassigned (Option.isSome_iff_ne_none.2 hne)).2 t hheld
    simp only [storedWorker, hf] at hnone
    refine ⟨?_, .of_one (i := i) (fun f' hf' => ?_) fun j hj => hother _ ?_⟩
    · refine h.stored (hwritten _ _ _ rfl) hwrites (Stage.popped_of_held hheld) hg hf hw ?_
      by_cases hfield : field = bytes "worker_id"
      · exact Or.inr ⟨hfield, hheld, if_pos hfield⟩
      · refine Or.inl ⟨hfield, ?_⟩
        rw [hn]
        exact if_neg hfield
    · rw [hf] at hf'
      cases hf'
      exact ⟨_, by rw [hw]; simp, .insert hwrites fun _ => hnone⟩
    · simpa [Command.key] using hj.symm
  | start i m =>
    have hpopped : (n t).popped = some i := by rw [hn]; rfl
    have hpushed : Pushed n i := h.known.popped t i hpopped
    obtain ⟨f, hf, -⟩ := h.record hpushed
    have hvalid : cStr i = i := cStr_of_noNul (h.noNul hpushed).noNul
    rw [hvalid] at hw hother ⊢
    rw [exec_hset hf] at hw
    have hwrites : Stage.Writes (bytes "started_at") (decimal m.toInt) := Or.inr (Or.inr ⟨rfl, m, rfl⟩)
    refine ⟨?_, .of_one (i := i) (fun f' hf' => ?_) fun j hj => hother _ ?_⟩
    · exact h.stored (hwritten _ _ _ rfl) hwrites hpopped hg hf hw (Or.inl ⟨by decide, by rw [hn]; rfl⟩)
    · rw [hf] at hf'
      cases hf'
      exact ⟨_, by rw [hw]; simp, .insert hwrites fun hfield => absurd hfield (by decide)⟩
    · simpa [Command.key] using hj.symm

/-- Every command at every stage. -/
theorem LifeInv.command (h : LifeInv wants written faulty w n) {cmd : Command} {context : Nat} {r : Option Reply}
    (hallows : (n t).Allows (wants t) cmd) (hwritten : ∀ key field value, cmd = .hset key field value → written)
    (hg : w'.generator = w.generator)
    (hs : attempted faulty (.command context cmd) w.redis r w'.redis) :
    LifeInv wants written faulty w' (Function.update n t ((n t).command cmd r)) ∧ KeepsRecords w w' := by
  rcases hs with ⟨hr, hw⟩ | ⟨hfaulty, ⟨hw, hr⟩ | ⟨hr, hw⟩⟩
  · exact h.executed (stageMove_of_allows hallows) rfl hwritten (Or.inl hr) hg hw
  · exact h.refused (stageMove_of_allows hallows) rfl hfaulty hr hg hw
  · exact h.executed (stageMove_of_allows hallows) rfl hwritten (Or.inr ⟨hfaulty, hr⟩) hg hw

/-! ### Every effect -/

theorem LifeInv.effect (h : LifeInv wants written faulty w n) {discovers : (e : EtcdEffect) → e.Answer → Prop}
    {sort : StdSort} {e : ServiceEffect} {r : e.Answer} (hallows : (n t).AllowsEffect (wants t) e)
    (hwritten : ∀ context key field value, e = .dispatcher (.command context (.hset key field value)) → written)
    (hs : deployed faulty discovers sort e w r w') :
    LifeInv wants written faulty w' (Function.update n t ((n t).observe ⟨e, r⟩)) ∧ KeepsRecords w w' := by
  have hsame : w'.redis = w.redis → w'.generator = w.generator →
      LifeInv wants written faulty w' (Function.update n t (n t)) ∧ KeepsRecords w w' :=
    fun hredis hgenerator => h.still hgenerator (fun _ _ => by rw [hredis]) (fun _ => by rw [hredis]) rfl
  cases e with
  | dispatcher e =>
    obtain ⟨hredis, -, hgenerator⟩ := hs
    cases e with
    | command context cmd => exact h.command hallows (fun key field value he =>
        hwritten context key field value (by rw [he])) hgenerator hredis
    | getConnection => exact hsame hredis.1 hgenerator
    | _ => exact hsame hredis hgenerator
  | nextId =>
    obtain ⟨generator, readings, rest, hclock, hnext, rfl⟩ := hs
    exact ⟨h.issue hallows hclock hnext, .of_eq fun _ => rfl⟩
  | etcd e =>
    obtain ⟨rfl, -⟩ := hs
    exact hsame rfl rfl
  | updateWorkers workers =>
    obtain ⟨listed, now, -, rfl⟩ := hs
    exact hsame rfl rfl
  | getWorkers =>
    obtain ⟨rfl, -⟩ := hs
    exact hsame rfl rfl
  | markWorkerDead workerId =>
    obtain rfl := hs
    exact hsame rfl rfl
  | transport =>
    obtain rfl := hs
    exact hsame rfl rfl

end Notes

end Steps

/-! ### Whole runs -/

section Runs

variable {faulty : Prop} {discovers : (e : EtcdEffect) → e.Answer → Prop} {sort : StdSort}
  {service : ι → Service}

theorem preserved [DecidableEq ι] : Preserved (services faulty discovers sort service)
    (fun t => Stage.AllowsEffect (service t).wants)
    (fun t => (service t).Ends) (LifeInv (fun t => (service t).wants) True faulty) KeepsRecords := by
  refine ⟨fun t e r hallows h hs => h.effect hallows (fun _ _ _ _ _ => trivial) hs, ?_, .refl, .trans⟩
  exact fun t hloop h hends => h.rest (hends.loop hloop)

theorem again_code {s : Service} {body : ServiceCode ServiceReply} (h : s.again = some body) : body = s.code := by
  cases s <;> cases h <;> rfl

theorem services_obedient [DecidableEq ι] (strategy : Bytes) : Obedient (services faulty discovers sort service)
    (fun t => Stage.AllowsEffect (service t).wants) (fun t => (service t).Ends)
    (startServices strategy service) := by
  refine ⟨fun t => (service t).obeys, fun t body hbody => ?_⟩
  rw [again_code hbody]
  exact (service t).obeys

theorem lifeInv_start (wants : ι → TaskRequest → Prop) (written faulty : Prop) (strategy : Bytes) :
    LifeInv wants written faulty (freshDeployment strategy) fun _ : ι => Stage.idle := by
  have hempty : ∀ key : Bytes, (freshDeployment strategy).redis[key]? = none := fun key => by
    simp [freshDeployment]
  have hitems : ∀ q, queueItems (freshDeployment strategy).redis q = [] := fun q => by
    simp only [queueItems, hempty]
  have hocc : ∀ i, occurrences (freshDeployment strategy).redis i = 0 := fun i => by
    simp only [occurrences, hitems]
    rfl
  have hnone : ∀ i, storedWorker (freshDeployment strategy).redis i = none := fun i => by
    simp only [storedWorker, hempty]
  refine ⟨⟨?_, ?_, ?_⟩, ⟨?_, ?_, ?_, ?_, ?_, ?_, ?_⟩, fun i => ⟨?_, ?_, ?_, ?_⟩, fun _ => ⟨?_, ?_⟩⟩
  · exact (Snowflake.init_spec Snowflake.valid_start 1).1
  · exact fun t i ht => by cases ht
  · exact fun t t' i ht => by cases ht
  · intro q hq v hv
    rw [hempty] at hv
    cases hv
  · intro q hq x hx
    rw [hitems] at hx
    cases hx
  · exact fun t i ht => by cases ht
  · exact fun i hi => absurd (hempty _) hi
  · exact fun t i fields ht => by cases ht
  · exact fun t i fields ht => by cases ht
  · exact fun t i fields ht => by cases ht
  · rw [hocc]
    exact Nat.zero_le 1
  · exact fun _ _ => hocc i
  · exact fun t t' ht => by cases ht
  · intro hsome
    rw [hnone] at hsome
    cases hsome
  · intro q hq x hx
    rw [hitems] at hx
    cases hx
  · exact fun t i fields ht => by cases ht

variable [DecidableEq ι] {strategy : Bytes} {P : ServicePool ι}

/-- The invariant holds in every interleaving of any services. -/
theorem lifeInv_reachable (h : Reachable (services faulty discovers sort service)
    (startServices strategy service) P) :
    Obedient (services faulty discovers sort service) (fun t => Stage.AllowsEffect (service t).wants)
        (fun t => (service t).Ends) P ∧
      LifeInv (fun t => (service t).wants) True faulty P.world P.notes :=
  (services_obedient strategy).reachable preserved (lifeInv_start _ True faulty strategy) h

end Runs

end Taskflow
