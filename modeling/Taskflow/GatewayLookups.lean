import Taskflow.ServiceRuns

/-!
# The gateway in front of the services

A client knows only what it sends and what it reads on its connections.  Where no command fails: once it has
read the id of its task, it reads the state of the task when it asks for it, unless the scheduler cannot be
reached (`gateway_finds_submission`).
-/

namespace Taskflow

open Text Effects Prog

/-- The service is a connection on which a client asks for the task. -/
def Service.AsksFor (service : Service) (taskId : Bytes) : Prop :=
  ∃ buffered later request, service = .connection buffered later ∧ handleConnection buffered later = .ok request ∧
    Asks request (.getTaskStatus taskId)

/-- The client reads that the scheduler is not to be reached, or the state of the task. -/
def ReadsState (text taskId : Bytes) : Prop :=
  ∃ message, Http.read text = some (message, []) ∧
    (message.startLine = bytes "HTTP/1.1 503 OK" ∨ message.startLine = bytes "HTTP/1.1 200 OK" ∧
      ∃ task : TaskView,
      parseJson message.body = some (statusJson ⟨true, task⟩) ∧ task.id = taskId ∧
        (task.status = 0 ∨ task.status = 1) ∧ task.errorMessage = [] ∧ task.result = [])

/-- The scheduler's answer, if it arrives, is about a task in `T`. -/
def StateAnswer (T : TaskInfo → Prop) (taskId : Bytes)
    (answer : (GatewayEffect.getTaskStatus taskId).Answer) : Prop :=
  ∀ reply, answer = .ok reply → ∃ task, T task ∧ reply = (taskReply task).view

/-- The answers to a connection that asks for a task in `T`. -/
def stateAnswers (T : TaskInfo → Prop) : (e : GatewayEffect) → e.Answer → Prop
  | .getTaskStatus taskId, answer => StateAnswer T taskId answer
  | _, _ => True

/-- What is written is a message with the answer in it. -/
theorem read_stateAnswer {taskId : Bytes} (answer : (GatewayEffect.getTaskStatus taskId).Answer) :
    Http.read (responseText ((GatewayEffect.getTaskStatus taskId).response answer)) =
      some (((GatewayEffect.getTaskStatus taskId).response answer).message, []) := by
  have hread := (GatewayEffect.regular (.getTaskStatus taskId) answer).read []
  rwa [List.append_nil] at hread

theorem startLine_error {taskId message : Bytes} :
    ((GatewayEffect.getTaskStatus taskId).response (.error message)).message.startLine =
      bytes "HTTP/1.1 503 OK" := by
  simp only [HttpResponse.message, GatewayEffect.response, GatewayEffect.statusCode]
  decide

/-- The body of a reply that shows the task. -/
theorem parseJson_state {taskId : Bytes} {reply : TaskStatusReply} (hid : PlainString reply.task.id)
    (herror : reply.task.errorMessage = []) (hresult : reply.task.result = []) :
    parseJson ((GatewayEffect.getTaskStatus taskId).response (.ok reply)).message.body =
      some (statusJson reply) := by
  refine (@decodes_iff _ (.getTaskStatus taskId) (.ok reply) rfl).2 ?_
  have hempty : PlainString [] := by decide
  simp only [GatewayEffect.contents, List.forall_mem_cons]
  exact ⟨hid, herror ▸ hempty, hresult ▸ hempty, fun _ h => by cases h⟩

/-- A reply about the task that arrives is written so that the client reads its state. -/
theorem readsState_of_answer {request : SubmitTaskMessage} {taskId : Bytes} (hvalid : ValidId taskId)
    (hplain : PlainString taskId) {answer : (GatewayEffect.getTaskStatus taskId).Answer}
    (h : StateAnswer (Shows request taskId) taskId answer) :
    ReadsState (responseText ((GatewayEffect.getTaskStatus taskId).response answer)) taskId := by
  refine ⟨_, read_stateAnswer answer, ?_⟩
  cases answer with
  | error message => exact Or.inl startLine_error
  | ok reply =>
    obtain ⟨task, hshows, rfl⟩ := h _ rfl
    rw [taskReply_found hvalid hshows.id]
    refine Or.inr ⟨(GatewayEffect.regular (.getTaskStatus taskId) _).startLine.2 rfl,
      (TaskReply.view ⟨true, bytes "Task found", some task⟩).task, ?_, hshows.id, hshows.status,
        hshows.errorMessage,
      hshows.result⟩
    refine parseJson_state ?_ hshows.errorMessage hshows.result
    rwa [show (TaskReply.view ⟨true, bytes "Task found", some task⟩).task.id = taskId from hshows.id]

/-- A connection that asks for the task, while its record is in `C`. -/
theorem given_asksFor {C : StringMap Bytes → Prop} {taskId : Bytes} {T : TaskInfo → Prop}
    (hread : ReadAs C taskId T) {service : Service} (h : service.AsksFor taskId) :
    service.code.Given (recordAnswers C (cStr taskId)) (fun _ => True) fun o => ∃ answer,
      StateAnswer T taskId answer ∧
      o = .ok (.response (some (responseText ((GatewayEffect.getTaskStatus taskId).response answer)))) := by
  obtain ⟨buffered, later, http, rfl, hhttp, hasks⟩ := h
  refine (given_connection (C := stateAnswers T) buffered later fun http' e hhttp' hasks' => ?_).mono ?_
  · obtain rfl := Except.ok.inj (hhttp.symm.trans hhttp')
    obtain rfl := hasks.unique hasks'
    refine (given_rpc trivial (given_dispatcher (given_getTaskStatus hread))).bind ?_ ?_
    · rintro result ⟨_, ⟨⟩, hresult⟩
      refine ⟨_, rfl, fun reply hreply => ?_⟩
      cases result with
      | error message => cases hreply
      | ok found =>
        obtain ⟨task, hT, hfound⟩ := hresult found rfl
        obtain rfl := Except.ok.inj hfound
        exact ⟨task, hT, (Except.ok.inj hreply).symm⟩
    · rintro x ⟨_, ⟨⟩, -⟩
  · rintro _ ⟨text, rfl, htext⟩
    obtain ⟨answer, rfl, hanswer⟩ := htext http _ hhttp hasks
    exact ⟨answer, hanswer, rfl⟩

section Runs

variable {ι : Type} [DecidableEq ι] {discovers : (e : EtcdEffect) → e.Answer → Prop} {sort : StdSort}
  {service : ι → Service}
  {strategy : Bytes} {P P' : ServicePool ι} {i : Bytes} {t t' : ι} {request : SubmitTaskMessage}

/-- Where no command fails, whatever else goes on and whatever the transport loses: a connection that starts after a
client knows the id and that asks for the task never ends with an exception, and when it ends, it has a response, in
which a client reads that the scheduler is not to be reached or the state of the task, pending or running. -/
theorem gateway_finds_submission
    (h : Reachable (services False discovers sort service) (startServices strategy service) P)
    (haccepted : Accepted service P t request i) (hasks : (service t').AsksFor i)
    (hstart : (P.thread t').prog = (service t').code)
    (hrest : Reachable (services False discovers sort service) P P') :
    (∀ x, (P'.thread t').prog ≠ .throw x) ∧
      ∀ reply, (P'.thread t').prog = .ret reply → ∃ text, reply = .response (some text) ∧
      ReadsState text i := by
  obtain ⟨⟨id, rfl⟩, -⟩ := haccepted.record h .refl
  have hasking := given_reader (fun P₁ hP₁ _ => (haccepted.record h hP₁).2) (validId_decimal _) hstart hrest
    (given_asksFor (RecordOf.readAs request _) hasks)
  constructor
  · intro x hx
    rw [hx] at hasking
    obtain ⟨answer, -, hcontra⟩ := hasking
    cases hcontra
  · intro reply hreply
    rw [hreply] at hasking
    obtain ⟨answer, hanswer, hsame⟩ := hasking
    exact ⟨_, Except.ok.inj hsame, readsState_of_answer (validId_decimal _) (plainString_decimal _) hanswer⟩

end Runs

/-- The text of a response. -/
def writtenText : ServiceCode ServiceReply → Option Bytes
  | .ret (.response text) => text
  | _ => none

theorem response_of_text {p : ServiceCode ServiceReply} {text : Bytes} (h : writtenText p = some text) :
    p = .ret (.response (some text)) := by
  unfold writtenText at h
  split at h
  · rw [h]
  · cases h

/-- What the request of the first connection becomes. -/
def postedTask : SubmitTaskRequest := ⟨.ORDER_DISPATCH, 1, bytes "\x7b\"priority\":1\x7d"⟩

/-- What is read of a task that was looked up when it had a worker. -/
def runningView : TaskView := ⟨bytes "4198400", 1, 0, 0, 0, [], []⟩

/-- A task is posted and asked for; a task is submitted, given a worker, looked up by RPC and asked for. -/
theorem some_lookups :
    ((playServices 1609459200001 [] (List.replicate 9 5) startSome).bind fun run =>
      (playServices 1609459200001 [] (List.replicate 6 6) run.2).map fun run' =>
        (writtenText (run.2.thread 5).prog, (writtenText (run'.2.thread 6).prog).isSome)) =
      some (some (responseText ((GatewayEffect.submitTask postedTask).response
        (.ok ⟨true, bytes "4198400", bytes "Task submitted successfully"⟩))), true) ∧
    ((playServices 1609459200001 workerPairs (List.replicate 7 0 ++ List.replicate 4 2 ++ List.replicate 14 3)
        startSome).bind fun run =>
      (playServices 1609459200001 [] (List.replicate 4 4) run.2).bind fun run' =>
        (playServices 1609459200001 [] (List.replicate 6 6) run'.2).map fun run'' =>
          (acceptedId (run.2.thread 0).prog, (shownTask (run'.2.thread 4).prog).map fun reply =>
            (reply.success, reply.view.task.status), writtenText (run''.2.thread 6).prog)) =
      some (some (bytes "4198400"), some (true, 1), some (responseText ((GatewayEffect.getTaskStatus
        (bytes "4198400")).response (.ok ⟨true, runningView⟩)))) ∧
    (someServices 5).Submits postedTask.message ∧ (someServices 6).AsksFor (bytes "4198400") := by
  refine ⟨by decide +kernel, by decide +kernel, ?_, ?_⟩
  · refine ⟨⟨bytes "POST", bytes "/task", postedTask.data⟩, postedTask, by decide +kernel, ?_, rfl⟩
    exact .submitTask rfl (by decide +kernel) (by decide +kernel)
  · refine ⟨_, _, ⟨bytes "GET", bytes "/task?id=4198400", []⟩, rfl, by decide +kernel, ?_⟩
    exact .getTaskStatus rfl (by decide +kernel) (by decide +kernel) (by decide)

theorem gateway_finds_submission_posted : ∃ P : ServicePool (Fin 7), (writtenText (P.thread 6).prog).isSome ∧
    (∀ x, (P.thread 6).prog ≠ .throw x) ∧
      ∀ reply, (P.thread 6).prog = .ret reply → ∃ text, reply = .response (some text) ∧
      ReadsState text (bytes "4198400") := by
  obtain ⟨hplay, -, hsubmits, hasks⟩ := some_lookups
  obtain ⟨⟨τ, P⟩, hrun, hrest⟩ := Option.bind_eq_some_iff.1 hplay
  obtain ⟨⟨τ', P'⟩, hrun', hwritten⟩ := Option.map_eq_some_iff.1 hrest
  simp only [Prod.mk.injEq] at hwritten
  have hτ : Execution (services False (fun _ _ => True) .stable someServices) startSome _ P :=
    execution_of_play ⟨by decide, by decide⟩ (fun _ _ => trivial) trivial .start hrun
  have hτ' : Execution (services False (fun _ _ => True) .stable someServices) P _ P' :=
    execution_of_play ⟨by decide, by decide⟩ (fun _ _ => trivial) trivial .start hrun'
  have hstart : (P.thread 6).prog = (someServices 6).code := by
    rw [play_thread hrun (by decide)]
    rfl
  have haccepted : Accepted someServices P 5 postedTask.message (bytes "4198400") :=
    ⟨hsubmits, _, response_of_text hwritten.1, confirms_reply _ (by decide) (by decide)⟩
  exact ⟨P', hwritten.2, gateway_finds_submission hτ.reachable haccepted hasks hstart hτ'.reachable⟩

end Taskflow
