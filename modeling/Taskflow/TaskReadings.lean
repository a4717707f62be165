import Taskflow.GatewayLookups

/-!
# Readings of one task

A client reads the state of its task in the reply of a lookup or in a response of the gateway.  Where no command
fails, what it reads later, from whichever service, is the same task further on: a task that ran does not wait
again (`readings_advance`).
-/

namespace Taskflow

open Text Effects Prog

/-- A client reads the state of the task, by RPC or through the gateway. -/
def Service.ReadsTask (service : Service) (taskId : Bytes) : Prop := service.LooksUp taskId ∨ service.AsksFor taskId

/-- What a client reads in a reply. -/
def ServiceReply.Reads : ServiceReply → TaskView → Prop
  | .task reply, view => reply.success = true ∧ reply.view.task = view
  | .response (some text), view => ∃ message, Http.read text = some (message, []) ∧
    message.startLine = bytes "HTTP/1.1 200 OK" ∧ parseJson message.body = some (statusJson ⟨true, view⟩)
  | _, _ => False

/-- What is read after `view`: the same task, and if it ran, it runs.  The start time may have been written
since. -/
structure TaskView.Precedes (view view' : TaskView) : Prop where
  id : view'.id = view.id
  createdAt : view'.createdAt = view.createdAt
  finishedAt : view'.finishedAt = view.finishedAt
  errorMessage : view'.errorMessage = view.errorMessage
  result : view'.result = view.result
  running : view.status = 1 → view'.status = 1

/-! ### One reading -/

theorem taskStatusName_injective {s s' : Int32} (hs : s = 0 ∨ s = 1) (h : taskStatusName s' = taskStatusName s) :
    s' = s := by
  by_contra hne
  rcases hs with rfl | rfl
  · rw [show taskStatusName 0 = bytes "PENDING" from rfl, taskStatusName, if_neg hne] at h
    split_ifs at h <;> exact absurd h (by decide)
  · rw [show taskStatusName 1 = bytes "RUNNING" from rfl, taskStatusName, if_neg hne] at h
    split_ifs at h <;> exact absurd h (by decide)

/-- The client finds every field again. -/
theorem statusJson_injective {reply reply' : TaskStatusReply} (hs : reply.task.status = 0 ∨ reply.task.status = 1)
    (h : statusJson reply' = statusJson reply) : reply' = reply := by
  obtain ⟨success, id, status, createdAt, startedAt, finishedAt, errorMessage, result⟩ := reply
  obtain ⟨success', id', status', createdAt', startedAt', finishedAt', errorMessage', result'⟩ := reply'
  simp only [statusJson, taskJson, Json.object.injEq, List.cons.injEq, Prod.mk.injEq, Json.bool.injEq,
    Json.string.injEq,
    Json.number.injEq, true_and, and_true] at h
  obtain ⟨rfl, rfl, hstatus, hcreated, hstarted, hfinished, rfl, rfl⟩ := h
  obtain rfl := taskStatusName_injective hs hstatus
  obtain rfl := Int64.toInt_inj.1 (decimal_injective hcreated)
  obtain rfl := Int64.toInt_inj.1 (decimal_injective hstarted)
  obtain rfl := Int64.toInt_inj.1 (decimal_injective hfinished)
  rfl

/-- The saved task with another status and start time; `B` says whether it runs. -/
def ReadingOf (info : TaskInfo) (taskId : Bytes) (B : Prop → Prop) (task : TaskInfo) : Prop :=
  ∃ (status : Int32) (startedAt : Int64),
    task = { info with id := taskId, status := status, startedAt := startedAt } ∧
      (status = 0 ∨ status = 1) ∧ B (status = 1)

/-- What has become of the saved record; `B` says whether the task runs. -/
def RecordIs (info : TaskInfo) (B : Prop → Prop) (f : StringMap Bytes) : Prop :=
  Evolved True (recordFields info) f ∧ B (f[bytes "status"]? = some (bytes "1"))

theorem RecordIs.readAs (info : TaskInfo) (taskId : Bytes) (B : Prop → Prop) :
    ReadAs (RecordIs info B) taskId (ReadingOf info taskId B) := by
  constructor
  · rintro _ ⟨status, startedAt, rfl, -⟩
    rfl
  · rintro task f rfl ⟨hevolved, hB⟩
    obtain ⟨hempty, status, startedAt, hstatus, hrunning, hread⟩ := readFields_evolved hevolved
    rw [propext hrunning] at hB
    rw [hempty, if_neg Bool.false_ne_true]
    exact ⟨_, hread task, status, startedAt, rfl, hstatus, hB⟩

/-- The task as a client sees it. -/
def viewOf (task : TaskInfo) : TaskView := (TaskReply.view ⟨true, bytes "Task found", some task⟩).task

theorem readingOf_response {info : TaskInfo} {taskId : Bytes} {B : Prop → Prop} {view : TaskView}
    {answer : (GatewayEffect.getTaskStatus taskId).Answer} (hvalid : ValidId taskId) (hplain : PlainString taskId)
    (herror : info.errorMessage = []) (hresult : info.result = [])
    (hanswer : StateAnswer (ReadingOf info taskId B) taskId answer)
    (h : (ServiceReply.response
      (some (responseText ((GatewayEffect.getTaskStatus taskId).response answer)))).Reads view) :
    ∃ task, ReadingOf info taskId B task ∧ viewOf task = view := by
  obtain ⟨message, hread, hline, hbody⟩ := h
  obtain ⟨rfl, -⟩ := Prod.mk.inj (Option.some.inj ((read_stateAnswer answer).symm.trans hread))
  cases answer with
  | error message =>
    rw [startLine_error] at hline
    exact absurd hline (by decide)
  | ok reply =>
    obtain ⟨_, ⟨status, startedAt, rfl, hstatus, hB⟩, rfl⟩ := hanswer _ rfl
    rw [taskReply_found hvalid rfl] at hbody
    rw [parseJson_state (by exact hplain) (by exact herror) (by exact hresult)] at hbody
    have hsame := statusJson_injective (by exact hstatus) (Option.some.inj hbody).symm
    exact ⟨_, ⟨status, startedAt, rfl, hstatus, hB⟩, (congrArg TaskStatusReply.task hsame).symm⟩

/-- What a client reads while the record is what `B` says. -/
theorem given_reading {info : TaskInfo} {taskId : Bytes} {B : Prop → Prop} (hvalid : ValidId taskId)
    (hplain : PlainString taskId) (herror : info.errorMessage = []) (hresult : info.result = []) {service : Service}
    (h : service.ReadsTask taskId) :
    service.code.Given (recordAnswers (RecordIs info B) (cStr taskId)) (fun _ => True) fun o => ∀ reply view,
      o = .ok reply →
      reply.Reads view → ∃ task, ReadingOf info taskId B task ∧ viewOf task = view := by
  rcases h with h | h
  · refine (given_lookup (RecordIs.readAs info taskId B) h).mono ?_
    rintro _ ⟨task, hreading, rfl⟩ reply view ⟨⟩ ⟨-, hview⟩
    rw [taskReply_found hvalid ((RecordIs.readAs info taskId B).id task hreading)] at hview
    exact ⟨task, hreading, hview⟩
  · refine (given_asksFor (RecordIs.readAs info taskId B) h).mono ?_
    rintro _ ⟨answer, hanswer, rfl⟩ reply view ⟨⟩ hreads
    exact readingOf_response hvalid hplain herror hresult hanswer hreads

/-! ### Two readings -/

section Runs

variable {ι : Type} [DecidableEq ι] {discovers : (e : EtcdEffect) → e.Answer → Prop} {sort : StdSort}
  {service : ι → Service}
  {strategy : Bytes} {P₀ P P' : ServicePool ι} {i : Bytes} {t t₁ t₂ : ι} {request : SubmitTaskMessage}
  {reply reply' : ServiceReply} {view view' : TaskView}

/-- Where no command fails, whatever else goes on and whatever the transport loses: a client that knows the id
of its task reads its state, and when it has the reply, it asks again, the same service or another one.  What it
reads then does not precede what it has read. -/
theorem readings_advance
    (h : Reachable (services False discovers sort service) (startServices strategy service) P₀)
    (haccepted : Accepted service P₀ t request i)
    (hreader : (service t₁).ReadsTask i) (hstart : (P₀.thread t₁).prog = (service t₁).code)
    (hfirst : Reachable (services False discovers sort service) P₀ P)
    (hreply : (P.thread t₁).prog = .ret reply) (hread : reply.Reads view)
    (hreader' : (service t₂).ReadsTask i) (hstart' : (P.thread t₂).prog = (service t₂).code)
    (hsecond : Reachable (services False discovers sort service) P P')
    (hreply' : (P'.thread t₂).prog = .ret reply') (hread' : reply'.Reads view') : view.Precedes view' := by
  obtain ⟨⟨id, rfl⟩, createdAt, info, hinfo, hevolved⟩ := haccepted.evolved h
  obtain ⟨f, hf, hcurrent⟩ := hevolved P hfirst
  -- when the first reply is there, the task runs, or it does not
  let running := f[bytes "status"]? = some (bytes "1")
  have hadvances : ∀ {P₁ P₂ : ServicePool ι}, Reachable (services False discovers sort service) P₀ P₁ →
      Reachable (services False discovers sort service) P₁ P₂ → KeepsRecords P₁.world P₂.world := by
    intro P₁ P₂ h₁ h₂
    obtain ⟨hobey, hinv⟩ := lifeInv_reachable (h.trans h₁)
    exact hobey.guarantee preserved hinv h₂
  have hbefore : ∃ task, ReadingOf info (decimal id.toInt) (fun runs => runs → running) task ∧
      viewOf task = view := by
    have hreading := given_reader (C := RecordIs info fun runs => runs → running) (fun P₁ h₁ h₂ => ?_)
      (validId_decimal _) hstart hfirst
      (given_reading (validId_decimal _) (plainString_decimal _) hinfo.errorMessage hinfo.result hreader)
    · rw [hreply] at hreading
      exact hreading reply view rfl hread
    · obtain ⟨g, hg, hg'⟩ := hevolved P₁ h₁
      obtain ⟨f', hf', hadvance⟩ := hadvances h₁ h₂ _ g hg
      rw [hf] at hf'
      cases hf'
      exact ⟨g, hg, hg', hadvance.running⟩
  have hafter : ∃ task, ReadingOf info (decimal id.toInt) (fun runs => running → runs) task ∧
      viewOf task = view' := by
    have hreading := given_reader (C := RecordIs info fun runs => running → runs) (fun P₁ h₁ h₂ => ?_)
      (validId_decimal _) hstart' hsecond
      (given_reading (validId_decimal _) (plainString_decimal _) hinfo.errorMessage hinfo.result hreader')
    · rw [hreply'] at hreading
      exact hreading reply' view' rfl hread'
    · obtain ⟨g, hg, hg'⟩ := hevolved P₁ (hfirst.trans h₁)
      obtain ⟨f', hf', hadvance⟩ := hadvances hfirst h₁ _ f hf
      rw [hg] at hf'
      cases hf'
      exact ⟨g, hg, hg', hadvance.running⟩
  obtain ⟨_, ⟨status, startedAt, rfl, -, hruns⟩, rfl⟩ := hbefore
  obtain ⟨_, ⟨status', startedAt', rfl, -, hruns'⟩, rfl⟩ := hafter
  exact ⟨rfl, rfl, rfl, rfl, rfl, fun hs => hruns' (hruns hs)⟩

end Runs

theorem task_of_shown {p : ServiceCode ServiceReply} {reply : TaskReply} (h : shownTask p = some reply) :
    p = .ret (.task reply) := by
  unfold shownTask at h
  split at h
  · rw [Option.some.inj h]
  · cases h

/-- A task is read while it runs, by RPC, and then again through the gateway. -/
theorem readings_advance_running : ∃ (P P' : ServicePool (Fin 7)) (reply : TaskReply) (reply' : ServiceReply)
    (view' : TaskView),
    (P.thread 4).prog = .ret (.task reply) ∧ (P'.thread 6).prog = .ret reply' ∧ reply.view.task.status = 1 ∧
      reply'.Reads view' ∧ reply.view.task.Precedes view' := by
  obtain ⟨-, hplay, -, hasks⟩ := some_lookups
  obtain ⟨⟨τ₀, P₀⟩, hrun₀, hrest⟩ := Option.bind_eq_some_iff.1 hplay
  obtain ⟨⟨τ, P⟩, hrun, hrest⟩ := Option.bind_eq_some_iff.1 hrest
  obtain ⟨⟨τ', P'⟩, hrun', hends⟩ := Option.map_eq_some_iff.1 hrest
  simp only [Prod.mk.injEq] at hends
  obtain ⟨hid, hshown, htext⟩ := hends
  obtain ⟨reply, hshown, hstatus⟩ := Option.map_eq_some_iff.1 hshown
  simp only [Prod.mk.injEq] at hstatus
  have hτ₀ : Execution (services False (fun _ _ => True) .stable someServices) startSome _ P₀ :=
    execution_of_play ⟨by decide, by decide⟩ (fun _ _ => trivial) trivial .start hrun₀
  have hτ : Execution (services False (fun _ _ => True) .stable someServices) P₀ _ P :=
    execution_of_play ⟨by decide, by decide⟩ (fun _ _ => trivial) trivial .start hrun
  have hτ' : Execution (services False (fun _ _ => True) .stable someServices) P _ P' :=
    execution_of_play ⟨by decide, by decide⟩ (fun _ _ => trivial) trivial .start hrun'
  have hstart : (P₀.thread 4).prog = (someServices 4).code := by
    rw [play_thread hrun₀ (by decide)]
    rfl
  have hstart' : (P.thread 6).prog = (someServices 6).code := by
    rw [play_thread hrun (by decide), play_thread hrun₀ (by decide)]
    rfl
  have haccepted : Accepted someServices P₀ 0 ⟨1, 2, bytes "data"⟩ (bytes "4198400") := accepted_of_id rfl hid
  have hreads : (ServiceReply.response (some (responseText ((GatewayEffect.getTaskStatus (bytes "4198400")).response
      (.ok ⟨true, runningView⟩))))).Reads runningView :=
    ⟨_, read_stateAnswer _, (GatewayEffect.regular (.getTaskStatus _) _).startLine.2 rfl,
      parseJson_state (by decide) rfl rfl⟩
  exact ⟨P, P', reply, _, runningView, task_of_shown hshown, response_of_text htext, hstatus.2, hreads,
    readings_advance hτ₀.reachable haccepted (Or.inl (Or.inl rfl)) hstart hτ.reachable (task_of_shown hshown)
      ⟨hstatus.1, rfl⟩ (Or.inr hasks) hstart' hτ'.reachable (response_of_text htext) hreads⟩

end Taskflow
