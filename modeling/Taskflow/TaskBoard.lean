import Taskflow.TaskReadings

/-!
# The services as one board of tasks

Submissions, dispatch loops and lookups run interleaved, command by command, and yet as if there were one board
on which a task appears at once, moves on, and is looked up.  Each command turns the board or leaves it, and
each reply is what the board showed at a moment of the call (`tasks_linearize`).
-/

namespace Taskflow

open Text Effects Prog

/-! ### The board -/

/-- The tasks by their ids. -/
abbrev Board := Bytes → Option TaskInfo

/-- A task moves on: it may start, and its start time may be written. -/
def TaskInfo.Moves (task task' : TaskInfo) : Prop :=
  ∃ (status : Int32) (startedAt : Int64), task' = { task with status := status, startedAt := startedAt } ∧
    (status = 0 ∨ status = 1) ∧ (task.status = 1 → status = 1)

namespace Board

/-- What may happen at once: nothing, a task in `wants` appears, or one task moves on. -/
inductive Turn (wants : TaskRequest → Prop) (b : Board) : Board → Prop
  | rest : Turn wants b b
  | submit {task : TaskRequest} {info : TaskInfo} (hwants : wants task) (hinfo : SubmittedInfo task info)
    (habsent : b info.id = none) : Turn wants b (Function.update b info.id (some info))
  | move {i : Bytes} {task task' : TaskInfo} (hi : b i = some task) (hmoves : task.Moves task') :
    Turn wants b (Function.update b i (some task'))

/-- What may be answered about the id: the task on the board; of a task that is not there only the id is right. -/
def Answers (b : Board) (i : Bytes) (info : TaskInfo) : Prop :=
  info.id = i ∧ ∀ task, b (cStr i) = some task → info = { task with id := i }

end Board

/-- The board that Redis holds: the records that can be read. -/
def board (w : Keyspace) : Board := fun i =>
  match w[taskKey i]? with
  | some (.hash f) => (readFields ⟨i, 0, 0, [], 0, 0, 0, 0, 0, [], []⟩ f).toOption
  | _ => none

section Boards

variable {w w' : Keyspace} {i : Bytes} {f : StringMap Bytes} {info : TaskInfo}

theorem board_absent (h : w[taskKey i]? = none) : board w i = none := by
  unfold board
  rw [h]

theorem board_congr (h : ∀ i, w'[taskKey i]? = w[taskKey i]?) : board w' = board w := by
  funext i
  unfold board
  rw [h i]

/-- One record has changed. -/
theorem board_update {o : Option TaskInfo} (hi : board w' i = o)
    (h : ∀ j, j ≠ i → w'[taskKey j]? = w[taskKey j]?) :
    board w' = Function.update (board w) i o := by
  funext j
  rw [Function.update_apply]
  by_cases hj : j = i
  · rw [if_pos hj, hj, hi]
  · rw [if_neg hj]
    unfold board
    rw [h j hj]

/-- A record that comes from a submission is on the board. -/
theorem board_evolved (hf : w[taskKey i]? = some (.hash f)) (hid : info.id = i)
    (hevolved : Evolved True (recordFields info) f) : f.isEmpty = false ∧ ∃ (status : Int32) (startedAt : Int64),
      (status = 0 ∨ status = 1) ∧ (f[bytes "status"]? = some (bytes "1") ↔ status = 1) ∧
      board w i = some { info with status := status, startedAt := startedAt } ∧
      ∀ task, readFields task f = .ok { info with id := task.id, status := status, startedAt := startedAt } := by
  obtain ⟨hempty, status, startedAt, hstatus, hrunning, hread⟩ := readFields_evolved hevolved
  refine ⟨hempty, status, startedAt, hstatus, hrunning, ?_, hread⟩
  subst hid
  unfold board
  rw [hf]
  simp only [hread]
  rfl

/-- A record that was just saved shows the task as it was submitted. -/
theorem board_saved (hid : info.id = i) (hf : w[taskKey i]? = some (.hash (recordFields info))) :
    board w i = some info := by
  subst hid
  unfold board
  rw [hf]
  simp only [readFields_saved fun _ _ h => h]
  rfl

end Boards

/-! ### One command -/

section Turns

variable {ι : Type} [DecidableEq ι] {wants : ι → TaskRequest → Prop} {faulty : Prop} {w w' : Deployment}
  {n : ι → Stage} {t : ι} {i : Bytes}

omit [DecidableEq ι] in
/-- A loop writes into the record of a task that was submitted. -/
theorem LifeInv.writes (h : LifeInv wants True faulty w n) (hi : Pushed n i) {field value : Bytes}
    (hwrites : Stage.Writes field value) (hw : w'.redis = (exec (.hset (taskKey i) field value) w.redis).2)
    {p : TaskRequest → Prop} :
    (board w.redis).Turn p (board w'.redis) := by
  obtain ⟨t₀, fields, ht₀⟩ := hi
  obtain ⟨-, info, f, -, -, hid, -, hf, hevolved⟩ := h.known.stored (by rw [ht₀]; rfl :
    (n t₀).stored = some (i, fields))
  rw [exec_hset hf] at hw
  have hf' : w'.redis[taskKey i]? = some (.hash (f.insert field value)) := by rw [hw]; simp
  have hother : ∀ j, j ≠ i → w'.redis[taskKey j]? = w.redis[taskKey j]? := by
    intro j hj
    rw [hw]
    simp [hj.symm]
  obtain ⟨-, status, startedAt, -, hrunning, hboard, -⟩ := board_evolved hf hid hevolved
  obtain ⟨-, status', startedAt', hstatus', hrunning', hboard', -⟩ :=
    board_evolved hf' hid (hevolved.insert hwrites trivial)
  rw [board_update hboard' hother]
  refine .move hboard ⟨status', startedAt', rfl, hstatus', fun hs => hrunning'.1 ?_⟩
  -- the status that a loop writes is that of a running task
  have hbefore := hrunning.2 hs
  rw [getElem?_insert]
  split
  · rename_i hfield
    rcases hwrites with ⟨-, rfl⟩ | rfl | ⟨rfl, -⟩
    · rfl
    · exact absurd hfield (by decide)
    · exact absurd hfield (by decide)
  · exact hbefore

omit [DecidableEq ι] in
/-- Every command, at every stage, turns the board or leaves it. -/
theorem LifeInv.turn (h : LifeInv wants True faulty w n) {cmd : Command} {context : Nat} {r : Option Reply}
    (hallows : (n t).Allows (wants t) cmd) (hs : attempted faulty (.command context cmd) w.redis r w'.redis) :
    (board w.redis).Turn (wants t) (board w'.redis) := by
  have hcases : w'.redis = (exec cmd w.redis).2 ∨ w'.redis = w.redis := by
    rcases hs with ⟨-, hw⟩ | ⟨-, ⟨hw, -⟩ | ⟨-, hw⟩⟩
    · exact Or.inl hw
    · exact Or.inr hw
    · exact Or.inl hw
  rcases hcases with hw | hw
  · have hother : ∀ key, cmd.key ≠ key → w'.redis[key]? = w.redis[key]? := by
      intro key hkey
      rw [hw]
      exact exec_frame cmd w.redis hkey
    have hsame : (∀ i, w'.redis[taskKey i]? = w.redis[taskKey i]?) → (board w.redis).Turn (wants t)
        (board w'.redis) := by
      intro hi
      rw [board_congr hi]
      exact .rest
    have hmove := stageMove_of_allows hallows
    generalize hn : n t = stage at hmove
    cases hmove with
    | still hcmd hstage =>
      rcases hcmd with hreads | ⟨-, hi⟩
      · rw [exec_reads hreads] at hw
        exact hsame fun _ => by rw [hw]
      · exact hsame fun i => hother _ (hi i)
    | @save i task info hwants hinfo hid =>
      subst hid
      have habsent := h.absent hn
      rw [exec_hmset habsent] at hw
      have hsaved : board w'.redis info.id = some info := board_saved rfl (by rw [hw]; simp)
      rw [board_update hsaved fun j hj => hother _ (by simpa [Command.key] using hj.symm)]
      exact .submit hwants hinfo (board_absent habsent)
    | push info => exact hsame fun i => hother _ (taskKey_ne_queue (queueOf_mem _) i).symm
    | requeue hchosen => exact hsame fun i => hother _ (taskKey_ne_queue hchosen.1 i).symm
    | pop hq => exact hsame fun i => hother _ (taskKey_ne_queue hq i).symm
    | read i =>
      rw [exec_hgetall] at hw
      exact hsame fun _ => by rw [hw]
    | @assign i field value read hwrites =>
      have hpushed : Pushed n i := h.known.popped t i (by rw [hn]; rfl)
      rw [cStr_of_noNul (h.noNul hpushed).noNul] at hw
      exact h.writes hpushed hwrites hw
    | start i m =>
      have hpushed : Pushed n i := h.known.popped t i (by rw [hn]; rfl)
      rw [cStr_of_noNul (h.noNul hpushed).noNul] at hw
      exact h.writes hpushed (Or.inr (Or.inr ⟨rfl, m, rfl⟩)) hw
  · rw [hw]
    exact .rest

end Turns

/-- A record is saved by `HMSET`. -/
theorem Stage.saves {stage : Stage} {event : Event ServiceEffect ServiceEffect.Answer} {i : Bytes}
    {fields : List (Bytes × Bytes)} (h : (stage.observe event).stored = some (i, fields))
    (hbefore : stage.stored ≠ some (i, fields)) : ∃ context key reply, stage = .issued i ∧
      event = ⟨.dispatcher (.command context (.hmset key fields)), reply⟩ ∧ succeeded reply = true := by
  obtain ⟨e, r⟩ := event
  have hsame : stage.observe ⟨e, r⟩ ≠ stage := fun hsame => hbefore (by rw [hsame] at h; exact h)
  cases e with
  | dispatcher e =>
    cases e with
    | command context cmd =>
      have hcommand : (stage.command cmd r).stored = some (i, fields) := h
      have hother : stage.command cmd r ≠ stage := hsame
      cases stage with
      | issued j =>
        cases cmd with
        | hmset key fields' =>
          rw [Stage.command] at hcommand hother
          split at hcommand
          · rename_i hok
            cases hcommand
            exact ⟨context, key, r, rfl, rfl, hok⟩
          · cases hcommand
        | _ => exact absurd rfl hother
      | unsure j fields' => exact absurd (by cases cmd <;> rfl) hother
      | saved j fields' =>
        cases cmd with
        | rpush key x =>
          cases hcommand
          exact absurd rfl hbefore
        | _ => exact absurd rfl hother
      | idle =>
        cases cmd with
        | lpop key =>
          rw [Stage.command] at hcommand
          split at hcommand <;> cases hcommand
        | _ => exact absurd rfl hother
      | holding j read =>
        cases cmd with
        | rpush key x => cases hcommand
        | hgetall key => cases hcommand
        | hset key field value =>
          rw [Stage.command] at hcommand
          split at hcommand <;> cases hcommand
        | _ => exact absurd rfl hother
      | pushed j fields' => exact absurd (by cases cmd <;> rfl) hother
      | assigned j => exact absurd (by cases cmd <;> rfl) hother
    | _ => exact absurd rfl hsame
  | nextId =>
    cases stage with
    | idle =>
      cases r with
      | ok id => cases h
      | error x => cases h
    | _ => exact absurd rfl hsame
  | _ => exact absurd rfl hsame

/-! ### Whole runs -/

/-- At some moment of the thread the board answered so. -/
def AnsweredAt {ι : Type} (τ : List (ServiceMoment ι)) (t : ι) (taskId : Bytes) (info : TaskInfo) : Prop :=
  ∃ m ∈ τ, m.thread = t ∧ (board m.world.redis).Answers taskId info

section Runs

variable {ι : Type} [DecidableEq ι] {faulty : Prop} {discovers : (e : EtcdEffect) → e.Answer → Prop}
  {sort : StdSort}
  {service : ι → Service} {strategy : Bytes} {P : ServicePool ι} {τ : List (ServiceMoment ι)} {i : Bytes} {t : ι}

omit [DecidableEq ι] in
/-- Only commands change what Redis stores. -/
theorem redis_kept {w w' : Deployment} {e : ServiceEffect} {r : e.Answer}
    (hs : deployed faulty discovers sort e w r w') :
    w'.redis = w.redis ∨ ∃ context cmd, e = .dispatcher (.command context cmd) := by
  cases e with
  | dispatcher e =>
    obtain ⟨hredis, -, -⟩ := hs
    cases e with
    | command context cmd => exact Or.inr ⟨context, cmd, rfl⟩
    | getConnection => exact Or.inl hredis.1
    | _ => exact Or.inl hredis
  | nextId =>
    obtain ⟨generator, readings, rest, -, -, rfl⟩ := hs
    exact Or.inl rfl
  | etcd e => exact Or.inl (by rw [hs.1])
  | updateWorkers workers =>
    obtain ⟨listed, now, -, rfl⟩ := hs
    exact Or.inl rfl
  | getWorkers => exact Or.inl (by rw [hs.1])
  | markWorkerDead workerId =>
    obtain rfl := hs
    exact Or.inl rfl
  | transport => exact Or.inl (by rw [show w' = w from hs])

/-- Every move turns the board or leaves it. -/
theorem moves_turn (h : Execution (services faulty discovers sort service) (startServices strategy service) τ P) :
    ∀ x ∈ moves τ P.world, (board x.1.world.redis).Turn (service x.1.thread).wants (board x.2.redis) := by
  rintro ⟨⟨w, t, e, r⟩, w'⟩ hx
  obtain ⟨Q, hQ, rfl, ⟨k, hprog⟩, hs⟩ := h.at _ hx
  obtain ⟨hobey, hinv⟩ := lifeInv_reachable hQ
  have hcall := hobey.threads t
  rw [hprog] at hcall
  rcases redis_kept hs with hsame | ⟨context, cmd, rfl⟩
  · rw [hsame]
    exact .rest
  · exact hinv.turn hcall.1 hs.1

/-- A submission puts its task on the board at one move of its thread. -/
theorem submission_appears (h : Execution (services faulty discovers sort service)
    (startServices strategy service) τ P)
    {request : SubmitTaskMessage} (haccepted : Accepted service P t request i) :
    ∃ x ∈ moves τ P.world, x.1.thread = t ∧ board x.1.world.redis i = none ∧ ∃ createdAt info,
      SubmittedInfo ⟨i, request.type, request.priority, request.data, createdAt⟩ info ∧
      board x.2.redis = Function.update (board x.1.world.redis) i (some info) := by
  obtain ⟨hobey, hinv⟩ := lifeInv_reachable h.reachable
  obtain ⟨fields, hpushed⟩ := haccepted.pushed hobey
  obtain ⟨⟨⟨w, t', e, r⟩, w'⟩, hx, rfl, Q, hQ, ⟨rfl, ⟨k, hprog⟩, hs⟩, hbefore, hafter⟩ :=
    h.arises (B := fun stage => stage.stored = some (i, fields)) (i := t) (fun hs => by cases hs)
      (fun hs => by cases hs)
      (show (P.notes t).stored = some (i, fields) by rw [hpushed]; rfl)
  obtain ⟨context, key, reply, hstage, hevent, hok⟩ := Stage.saves hafter hbefore
  cases hevent
  obtain ⟨hobeyQ, hinvQ⟩ := lifeInv_reachable hQ
  have hcall := hobeyQ.threads t'
  rw [hprog] at hcall
  have hallows : (Q.notes t').Allows (service t').wants (.hmset key fields) := hcall.1
  rw [show Q.notes t' = .issued i from hstage] at hallows
  obtain ⟨task, info, ⟨request', hrequest', htype, hpriority, hdata⟩, hinfo, hid, rfl, rfl⟩ := hallows
  obtain rfl := haccepted.1.unique hrequest'
  have habsent := hinvQ.absent hstage
  refine ⟨_, hx, rfl, board_absent habsent, task.createdAt, info, ?_, ?_⟩
  · rw [← htype, ← hpriority, ← hdata, ← hid, hinfo.id]
    exact hinfo
  · rcases hs.1 with ⟨-, hw⟩ | ⟨-, ⟨-, hr⟩ | ⟨rfl, -⟩⟩
    · rw [exec_hmset habsent] at hw
      refine board_update (board_saved hid (by rw [hw]; simp)) fun j hj => ?_
      rw [hw]
      simp [hj.symm]
    · rw [succeeded_of_failed hr] at hok
      cases hok
    · cases hok

/-- What a lookup reads is what the board showed at that moment. -/
theorem readAs_board (h : Execution (services faulty discovers sort service)
    (startServices strategy service) τ P) (t : ι) (i : Bytes) : ReadAs (fun f => ∃ m ∈ τ, m.thread = t ∧
      f = replyFields (some (exec (.hgetall (taskKey (cStr i))) m.world.redis).1)) i (AnsweredAt τ t i) := by
  constructor
  · rintro task ⟨m, -, -, hid, -⟩
    exact hid
  · rintro task f rfl ⟨m, hm, hthread, rfl⟩
    obtain ⟨before, after, hτ⟩ := List.append_of_mem hm
    obtain ⟨Q, hQ, hworld⟩ := h.before hτ
    obtain ⟨-, hinv⟩ := lifeInv_reachable hQ.reachable
    rw [hworld] at hinv
    cases hrecord : m.world.redis[taskKey (cStr task.id)]? with
    | none =>
      refine ⟨task, ?_, m, hm, hthread, rfl, fun shown hshown => ?_⟩
      · simp [exec, hrecord, replyFields, pairElements]
      · rw [board_absent hrecord] at hshown
        cases hshown
    | some value =>
      obtain ⟨t₀, fields, ht₀⟩ := hinv.known.records (cStr task.id)
        (by rw [hrecord]; exact Option.some_ne_none _)
      obtain ⟨-, info, f, -, -, hid, -, rfl, hevolved⟩ := hinv.known.recorded ht₀ hrecord
      obtain ⟨hempty, status, startedAt, -, -, hboard, hread⟩ := board_evolved hrecord hid hevolved
      rw [replyFields_hgetall hrecord, hempty, if_neg Bool.false_ne_true]
      refine ⟨_, hread task, m, hm, hthread, rfl, fun shown hshown => ?_⟩
      rw [hboard] at hshown
      obtain rfl := Option.some.inj hshown
      rfl

/-- Where nothing fails, a thread of this code is answered by the board. -/
theorem given_board (hfault : ¬ faulty)
    (h : Execution (services faulty discovers sort service) (startServices strategy service) τ P)
    (hagain : (service t).again = none) {Q : Except StdException ServiceReply → Prop}
    (hcode : (service t).code.Given (recordAnswers (fun f => ∃ m ∈ τ, m.thread = t ∧
      f = replyFields (some (exec (.hgetall (taskKey (cStr i))) m.world.redis).1)) (cStr i)) (fun _ => True) Q)
    {reply : ServiceReply} (hreply : (P.thread t).prog = .ret reply) : Q (.ok reply) := by
  have hdoes := h.does (i := t) hagain
  rw [hreply] at hdoes
  refine Given.does hcode (fun m hm => ?_) hdoes
  obtain ⟨hmem, hthread⟩ := List.mem_filter.1 hm
  obtain ⟨-, w', -, -, hs⟩ :=
    (services_obedient strategy).moments preserved (lifeInv_start _ True faulty strategy) h m hmem
  exact recordAnswers_of_deployed ⟨m, hmem, of_decide_eq_true hthread, rfl⟩ hfault hs

/-- The services run as if there were one board.  It is empty at first, each move turns it or leaves it, a
submission puts its task there at one move of its own, and where nothing fails, a reply to a lookup is what the
board showed at a moment of the lookup. -/
theorem tasks_linearize (h : Execution (services faulty discovers sort service)
    (startServices strategy service) τ P) :
    (∀ i, board (startServices strategy service).world.redis i = none) ∧
    (∀ x ∈ moves τ P.world, (board x.1.world.redis).Turn (service x.1.thread).wants (board x.2.redis)) ∧
    (∀ t request i, Accepted service P t request i → ∃ x ∈ moves τ P.world, x.1.thread = t ∧
      board x.1.world.redis i = none ∧ ∃ createdAt info,
        SubmittedInfo ⟨i, request.type, request.priority, request.data, createdAt⟩ info ∧
        board x.2.redis = Function.update (board x.1.world.redis) i (some info)) ∧
    (¬ faulty → ∀ t i reply, (P.thread t).prog = .ret reply →
      ((service t).LooksUp i → ∃ info, AnsweredAt τ t i info ∧ reply = .task (taskReply info)) ∧
      ((service t).AsksFor i → ∃ answer : (GatewayEffect.getTaskStatus i).Answer,
        reply = .response (some (responseText ((GatewayEffect.getTaskStatus i).response answer))) ∧
        ∀ found, answer = .ok found → ∃ info, AnsweredAt τ t i info ∧ found = (taskReply info).view)) := by
  refine ⟨fun i => board_absent ?_, moves_turn h, fun t request i => submission_appears h,
      fun hfault t i reply hreply =>
    ⟨fun hlookup => ?_, fun hasks => ?_⟩⟩
  · simp [startServices, freshDeployment]
  · have hagain : (service t).again = none := by
      rcases hlookup with hs | ⟨tracker, hs⟩ <;> rw [hs] <;> rfl
    obtain ⟨info, hinfo, hsame⟩ := given_board hfault h hagain (given_lookup (readAs_board h t i) hlookup) hreply
    exact ⟨info, hinfo, Except.ok.inj hsame⟩
  · have hagain : (service t).again = none := by
      obtain ⟨buffered, later, request, hs, -, -⟩ := hasks
      rw [hs]
      rfl
    obtain ⟨answer, hanswer, hsame⟩ := given_board hfault h hagain (given_asksFor (readAs_board h t i) hasks) hreply
    exact ⟨answer, Except.ok.inj hsame, hanswer⟩

end Runs

/-- A task is submitted and given a worker, and a lookup reads it from the board while it runs. -/
theorem tasks_linearize_running : ∃ (τ : List (ServiceMoment (Fin 7))) (P : ServicePool (Fin 7)) (reply : TaskReply)
    (info : TaskInfo), (P.thread 4).prog = .ret (.task reply) ∧ reply.view.task.status = 1 ∧
      AnsweredAt τ 4 (bytes "4198400") info ∧ reply = taskReply info ∧
      (∃ x ∈ moves τ P.world, x.1.thread = 0 ∧ board x.1.world.redis (bytes "4198400") = none) ∧
      ∀ x ∈ moves τ P.world, (board x.1.world.redis).Turn (someServices x.1.thread).wants (board x.2.redis) := by
  obtain ⟨-, hplay, -, -⟩ := some_lookups
  obtain ⟨⟨τ₀, P₀⟩, hrun₀, hrest⟩ := Option.bind_eq_some_iff.1 hplay
  obtain ⟨⟨τ, P⟩, hrun, hrest⟩ := Option.bind_eq_some_iff.1 hrest
  obtain ⟨run', -, hends⟩ := Option.map_eq_some_iff.1 hrest
  simp only [Prod.mk.injEq] at hends
  obtain ⟨reply, hshown, hstatus⟩ := Option.map_eq_some_iff.1 hends.2.1
  simp only [Prod.mk.injEq] at hstatus
  have hτ₀ : Execution (services False (fun _ _ => True) .stable someServices) startSome _ P₀ :=
    execution_of_play ⟨by decide, by decide⟩ (fun _ _ => trivial) trivial .start hrun₀
  have hτ : Execution (services False (fun _ _ => True) .stable someServices) startSome _ P :=
    execution_of_play ⟨by decide, by decide⟩ (fun _ _ => trivial) trivial hτ₀ hrun
  have haccepted : Accepted someServices P 0 ⟨1, 2, bytes "data"⟩ (bytes "4198400") := by
    refine accepted_of_id rfl ?_
    rw [play_thread hrun (by decide)]
    exact hends.1
  obtain ⟨-, hturns, happears, hreplies⟩ := tasks_linearize hτ
  obtain ⟨x, hx, hthread, habsent, -⟩ := happears 0 _ _ haccepted
  obtain ⟨info, hinfo, hreply⟩ := (hreplies id 4 (bytes "4198400") _ (task_of_shown hshown)).1 (Or.inl rfl)
  exact ⟨_, P, reply, info, task_of_shown hshown, hstatus.2, hinfo, ServiceReply.task.inj hreply,
    ⟨x, hx, hthread, habsent⟩, hturns⟩

end Taskflow
