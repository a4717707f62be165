import Taskflow.HttpHandler
import Taskflow.Lib.PlainJson

/-!
# The bodies of the gateway's responses

`handleSubmitTask`, `handleGetStatus` and `handleGetWorkers` of `src/gateway/http_handler.cpp` put their bodies
together from text, and the strings of the scheduler's answers go into them as they are.  Each body is the text of a
JSON value without escaping, so `bodies_decode_iff` says when a client gets back what the scheduler answered.
-/

namespace Taskflow

open Text Effects Prog

/-! ### What the bodies are to say -/

def submitJson (reply : SubmitTaskReply) : Json :=
  .object [(bytes "success", .bool reply.success), (bytes "task_id", .string reply.taskId),
    (bytes "message", .string reply.message)]

def submitErrorJson (message : Bytes) : Json :=
  .object [(bytes "success", .bool false), (bytes "error", .string message)]

def taskJson (task : TaskView) : Json :=
  .object [(bytes "id", .string task.id), (bytes "status", .string (taskStatusName task.status)),
    (bytes "created_at", .number (decimal task.createdAt.toInt)),
    (bytes "started_at", .number (decimal task.startedAt.toInt)),
    (bytes "finished_at", .number (decimal task.finishedAt.toInt)),
    (bytes "error_message", .string task.errorMessage), (bytes "result", .string task.result)]

def statusJson (reply : TaskStatusReply) : Json :=
  .object [(bytes "success", .bool reply.success), (bytes "task", taskJson reply.task)]

def workerJson (worker : WorkerView) : Json :=
  .object [(bytes "id", .string worker.workerId), (bytes "address", .string worker.address),
    (bytes "port", .number (decimal worker.port.toInt)),
    (bytes "current_load", .number (decimal worker.currentLoad.toInt)), (bytes "status", .string worker.status)]

def workersJson (reply : GetWorkersReply) : Json := .object [(bytes "workers", .array (reply.map workerJson))]

def errorJson (message : Bytes) : Json := .object [(bytes "error", .string message)]

/-- The value that stands for an answer of the scheduler. -/
def GatewayEffect.json : (e : GatewayEffect) → e.Answer → Json
  | .submitTask _, .ok reply => submitJson reply
  | .submitTask _, .error message => submitErrorJson message
  | .getTaskStatus _, .ok reply => statusJson reply
  | .getTaskStatus _, .error message => errorJson message
  | .getWorkers, .ok reply => workersJson reply
  | .getWorkers, .error message => errorJson message

/-- The strings of an answer that go into the body. -/
def GatewayEffect.contents : (e : GatewayEffect) → e.Answer → List Bytes
  | .submitTask _, .ok reply => [reply.taskId, reply.message]
  | .getTaskStatus _, .ok reply => [reply.task.id, reply.task.errorMessage, reply.task.result]
  | .getWorkers, .ok reply => reply.flatMap fun worker => [worker.workerId, worker.address, worker.status]
  | .submitTask _, .error message => [message]
  | .getTaskStatus _, .error message => [message]
  | .getWorkers, .error message => [message]

/-- The handlers that answer with what the scheduler says. -/
inductive GatewayHandler where
  | submitTask
  | getStatus
  | getWorkers

def GatewayHandler.handle : GatewayHandler → HttpRequest → HttpResponse → GatewayCode HttpResponse
  | submitTask => handleSubmitTask
  | getStatus => handleGetStatus
  | getWorkers => fun _ => handleGetWorkers

/-! ### The bodies are texts of these values -/

theorem submitBody_eq (reply : SubmitTaskReply) : submitBody reply = (submitJson reply).plain := by
  simp only [submitBody, submitJson, boolText, Json.plain, plainMembers, List.append_assoc, List.cons_append]
  rfl

theorem submitErrorBody_eq (message : Bytes) : submitErrorBody message = (submitErrorJson message).plain := by
  simp only [submitErrorBody, submitErrorJson, Json.plain, plainMembers, List.append_assoc, List.cons_append]
  rfl

theorem errorBody_eq (message : Bytes) : errorBody message = (errorJson message).plain := by
  simp only [errorBody, errorJson, Json.plain, plainMembers, List.append_assoc, List.cons_append]
  rfl

theorem statusBody_eq (reply : TaskStatusReply) : statusBody reply = (statusJson reply).plain := by
  have hsuccess : bytes "\x7b\"success\":" = 123 :: 34 :: (bytes "success" ++ [34, 58]) := rfl
  have htask : bytes ",\"task\":\x7b" = 44 :: 34 :: (bytes "task" ++ [34, 58, 123]) := rfl
  have hid : bytes "\"id\":\"" = 34 :: (bytes "id" ++ [34, 58, 34]) := rfl
  have hquote : bytes "\"" = [34] := rfl
  have hstatus : bytes ",\"status\":\"" = 44 :: 34 :: (bytes "status" ++ [34, 58, 34]) := rfl
  have hcreated : bytes ",\"created_at\":" = 44 :: 34 :: (bytes "created_at" ++ [34, 58]) := rfl
  have hstarted : bytes ",\"started_at\":" = 44 :: 34 :: (bytes "started_at" ++ [34, 58]) := rfl
  have hfinished : bytes ",\"finished_at\":" = 44 :: 34 :: (bytes "finished_at" ++ [34, 58]) := rfl
  have herror : bytes ",\"error_message\":\"" = 44 :: 34 :: (bytes "error_message" ++ [34, 58, 34]) := rfl
  have hresult : bytes ",\"result\":\"" = 44 :: 34 :: (bytes "result" ++ [34, 58, 34]) := rfl
  have hclose : bytes "\x7d\x7d" = [125, 125] := rfl
  unfold statusBody
  simp only [hsuccess, htask, hid, hquote, hstatus, hcreated, hstarted, hfinished, herror, hresult,
    hclose, boolText]
  unfold statusJson taskJson
  simp only [Json.plain, plainMembers, List.append_assoc, List.cons_append, List.nil_append]

theorem workerBody_eq (worker : WorkerView) : workerBody worker = (workerJson worker).plain := by
  simp only [workerBody, workerJson, Json.plain, plainMembers, List.append_assoc, List.cons_append]
  rfl

theorem elements_eq (reply : GetWorkersReply) :
    ((reply.map workerBody).intersperse (bytes ",")).flatten ++ bytes "]" =
      plainElements (reply.map workerJson) := by
  induction reply with
  | nil => rfl
  | cons worker reply ih =>
    cases reply with
    | nil =>
      simp only [List.map_cons, List.map_nil, plainElements, ← workerBody_eq, List.intersperse_singleton,
        List.flatten_cons, List.flatten_nil, List.append_nil]
      rfl
    | cons next reply =>
      simp only [List.map_cons] at ih
      simp only [List.map_cons, plainElements, ← workerBody_eq, ← ih, List.intersperse_cons_cons, List.flatten_cons,
        List.append_assoc]
      rfl

theorem workersBody_eq (reply : GetWorkersReply) : workersBody reply = (workersJson reply).plain := by
  simp only [workersBody, workersJson, Json.plain, plainMembers, ← elements_eq, List.append_assoc, List.cons_append]
  rfl

/-! ### The strings in them -/

theorem integral_worker (worker : WorkerView) : (workerJson worker).Integral := by
  rw [workerJson, Json.integral_object]
  simp only [List.forall_mem_cons]
  exact ⟨Json.integral_string _, Json.integral_string _, Json.integral_decimal _, Json.integral_decimal _,
    Json.integral_string _, List.forall_mem_nil _⟩

theorem integral_task (task : TaskView) : (taskJson task).Integral := by
  rw [taskJson, Json.integral_object]
  simp only [List.forall_mem_cons]
  exact ⟨Json.integral_string _, Json.integral_string _, Json.integral_decimal _, Json.integral_decimal _,
    Json.integral_decimal _, Json.integral_string _, Json.integral_string _, List.forall_mem_nil _⟩

theorem integral_status (reply : TaskStatusReply) : (statusJson reply).Integral := by
  rw [statusJson, Json.integral_object]
  simp only [List.forall_mem_cons]
  exact ⟨Json.integral_bool _, integral_task reply.task, List.forall_mem_nil _⟩

theorem integral_workers (reply : GetWorkersReply) : (workersJson reply).Integral := by
  rw [workersJson, Json.integral_object, List.forall_mem_singleton, Json.integral_array, List.forall_mem_map]
  exact fun worker _ => integral_worker worker

theorem json_integral (e : GatewayEffect) (answer : e.Answer) : (e.json answer).Integral := by
  cases e with
  | submitTask request =>
    cases answer with
    | ok reply => exact fun text htext => by cases htext
    | error message => exact fun text htext => by cases htext
  | getTaskStatus taskId =>
    cases answer with
    | ok reply => exact integral_status reply
    | error message => exact fun text htext => by cases htext
  | getWorkers =>
    cases answer with
    | ok reply => exact integral_workers reply
    | error message => exact fun text htext => by cases htext

/-- Where the names need no escape, the strings of the values decide. -/
theorem forall_strings_named {members : List (Bytes × Json)} (hnames : ∀ name ∈ members.map (·.1),
    PlainString name) :
    (∀ s ∈ (Json.object members).strings, PlainString s) ↔ ∀ m ∈ members, ∀ s ∈ m.2.strings,
      PlainString s := by
  rw [Json.forall_strings_object]
  constructor
  · intro h m hm
    exact (h m hm).2
  · intro h m hm
    exact ⟨hnames m.1 (List.mem_map_of_mem hm), h m hm⟩

theorem taskStatusName_plain (status : Int32) : PlainString (taskStatusName status) := by
  unfold taskStatusName
  split
  · decide
  · split
    · decide
    · split
      · decide
      · split
        · decide
        · decide

theorem strings_submit (reply : SubmitTaskReply) :
    (∀ s ∈ (submitJson reply).strings, PlainString s) ↔ PlainString reply.taskId ∧
    PlainString reply.message := by
  have hnames : ∀ name ∈ [bytes "success", bytes "task_id", bytes "message"], PlainString name := by decide
  refine Iff.trans (forall_strings_named ?_) ?_
  · exact hnames
  · simp [Json.strings]

theorem strings_submitError (message : Bytes) :
    (∀ s ∈ (submitErrorJson message).strings, PlainString s) ↔ PlainString message := by
  have hnames : ∀ name ∈ [bytes "success", bytes "error"], PlainString name := by decide
  refine Iff.trans (forall_strings_named ?_) ?_
  · exact hnames
  · simp [Json.strings]

theorem strings_error (message : Bytes) :
    (∀ s ∈ (errorJson message).strings, PlainString s) ↔ PlainString message := by
  have hnames : ∀ name ∈ [bytes "error"], PlainString name := by decide
  refine Iff.trans (forall_strings_named ?_) ?_
  · exact hnames
  · simp [Json.strings]

theorem strings_task (task : TaskView) :
    (∀ s ∈ (taskJson task).strings, PlainString s) ↔
      PlainString task.id ∧ PlainString task.errorMessage ∧ PlainString task.result := by
  have hnames : ∀ name ∈ [bytes "id", bytes "status", bytes "created_at", bytes "started_at", bytes "finished_at",
      bytes "error_message", bytes "result"], PlainString name := by decide
  refine Iff.trans (forall_strings_named ?_) ?_
  · exact hnames
  · simp [Json.strings, taskStatusName_plain]

theorem strings_status (reply : TaskStatusReply) :
    (∀ s ∈ (statusJson reply).strings, PlainString s) ↔ ∀ s ∈ (taskJson reply.task).strings,
      PlainString s := by
  have hnames : ∀ name ∈ [bytes "success", bytes "task"], PlainString name := by decide
  refine Iff.trans (forall_strings_named ?_) ?_
  · exact hnames
  · simp [Json.strings]

theorem strings_worker (worker : WorkerView) :
    (∀ s ∈ (workerJson worker).strings, PlainString s) ↔
      PlainString worker.workerId ∧ PlainString worker.address ∧ PlainString worker.status := by
  have hnames : ∀ name ∈ [bytes "id", bytes "address", bytes "port", bytes "current_load", bytes "status"],
      PlainString name := by decide
  refine Iff.trans (forall_strings_named ?_) ?_
  · exact hnames
  · simp [Json.strings]

theorem strings_workers (reply : GetWorkersReply) :
    (∀ s ∈ (workersJson reply).strings, PlainString s) ↔
      ∀ worker ∈ reply, PlainString worker.workerId ∧ PlainString worker.address ∧
      PlainString worker.status := by
  have hnames : ∀ name ∈ [bytes "workers"], PlainString name := by decide
  refine Iff.trans (forall_strings_named ?_) ?_
  · exact hnames
  · rw [List.forall_mem_singleton, Json.forall_strings_array, List.forall_mem_map]
    simp only [strings_worker]

/-- The names in a body need no escape, nor do the names of states. -/
theorem strings_plain_iff (e : GatewayEffect) (answer : e.Answer) :
    (∀ s ∈ (e.json answer).strings, PlainString s) ↔ ∀ s ∈ e.contents answer, PlainString s := by
  cases e with
  | submitTask request =>
    cases answer with
    | ok reply => exact (strings_submit reply).trans (by simp [GatewayEffect.contents])
    | error message => exact (strings_submitError message).trans (by simp [GatewayEffect.contents])
  | getTaskStatus taskId =>
    cases answer with
    | ok reply =>
      refine (strings_status reply).trans ((strings_task reply.task).trans ?_)
      simp [GatewayEffect.contents]
    | error message => exact (strings_error message).trans (by simp [GatewayEffect.contents])
  | getWorkers =>
    cases answer with
    | ok reply =>
      refine (strings_workers reply).trans ?_
      simp only [GatewayEffect.contents, List.forall_mem_flatMap, List.forall_mem_cons]
      simp
    | error message => exact (strings_error message).trans (by simp [GatewayEffect.contents])

/-- A body that is put together from the strings as they are. -/
theorem decodes_iff {body : Bytes} {e : GatewayEffect} {answer : e.Answer} (hbody : body = (e.json answer).plain) :
    parseJson body = some (e.json answer) ↔ ∀ s ∈ e.contents answer, PlainString s := by
  rw [hbody, parseJson_plain_iff (json_integral e answer), strings_plain_iff]

/-! ### The handlers -/

/-- The body of the response is JSON and says what the scheduler answered, no more and no less. -/
def Carries (o : Except StdException HttpResponse) (event : Event GatewayEffect GatewayEffect.Answer) : Prop :=
  ∃ response, o = .ok response ∧ parseJson response.body = some (event.1.json event.2)

/-- A handler asks at most once, and its body is the text of the answer. -/
theorem handle_body (handler : GatewayHandler) (request : HttpRequest) (response : HttpResponse) :
    wp anyAnswer (handler.handle request response) (fun τ o _ => ∀ event ∈ τ, ∃ answered : HttpResponse,
      o = .ok answered ∧ answered.body = (event.1.json event.2).plain) () := by
  cases handler with
  | submitTask =>
    change wp anyAnswer (handleSubmitTask request response) _ ()
    unfold handleSubmitTask
    cases submitRequest request.body with
    | error x => exact fun event hevent => by cases hevent
    | ok task =>
      intro answer _ _
      cases answer with
      | ok reply => exact List.forall_mem_singleton.2 ⟨_, rfl, submitBody_eq reply⟩
      | error message => exact List.forall_mem_singleton.2 ⟨_, rfl, submitErrorBody_eq message⟩
  | getStatus =>
    change wp anyAnswer (handleGetStatus request response) _ ()
    unfold handleGetStatus
    dsimp only
    split
    · exact fun event hevent => by cases hevent
    · intro answer _ _
      cases answer with
      | ok reply => exact List.forall_mem_singleton.2 ⟨_, rfl, statusBody_eq reply⟩
      | error message => exact List.forall_mem_singleton.2 ⟨_, rfl, errorBody_eq message⟩
  | getWorkers =>
    intro answer _ _
    cases answer with
    | ok reply => exact List.forall_mem_singleton.2 ⟨_, rfl, workersBody_eq reply⟩
    | error message => exact List.forall_mem_singleton.2 ⟨_, rfl, errorBody_eq message⟩

/-- In every run of a handler, a client can read the scheduler's answer in the body exactly when the strings that go
into it have no quote, no backslash and no control character, and are UTF-8. -/
theorem bodies_decode_iff (handler : GatewayHandler) (request : HttpRequest) (response : HttpResponse)
    {τ : List (Event GatewayEffect GatewayEffect.Answer)} {o : Except StdException HttpResponse}
    (h : Run anyAnswer (handler.handle request response) () τ o ()) :
    ∀ event ∈ τ, (Carries o event ↔ ∀ s ∈ event.1.contents event.2, PlainString s) := by
  intro event hevent
  obtain ⟨answered, rfl, hbody⟩ := wp.run (handle_body handler request response) h event hevent
  rw [← decodes_iff hbody]
  constructor
  · rintro ⟨response, ho, hparse⟩
    cases ho
    exact hparse
  · intro hparse
    exact ⟨answered, rfl, hparse⟩

/-- One worker, with nothing to escape. -/
def plainWorker : WorkerView := ⟨bytes "worker-1", bytes "127.0.0.1", 50052, 3, bytes "ACTIVE"⟩

theorem bodies_decode_iff_worker :
    Carries (.ok ⟨200, workersBody [plainWorker], ∅⟩) ⟨.getWorkers, .ok [plainWorker]⟩ := by
  have hrun : Run anyAnswer (GatewayHandler.getWorkers.handle ⟨[], [], []⟩ ⟨404, [], ∅⟩) ()
      [⟨.getWorkers, .ok [plainWorker]⟩] (.ok ⟨200, workersBody [plainWorker], ∅⟩) () :=
        .call trivial (.ret _ ())
  exact (bodies_decode_iff .getWorkers _ _ hrun _ List.mem_cons_self).2 (by decide)

/-- An error message that ends its literal and has a member of its own. -/
def injectedMessage : Bytes := bytes "x\",\"workers\":\"none"

/-- What a client finds in the body. -/
def injectedJson : Json :=
  .object [(bytes "error", .string (bytes "x")), (bytes "workers", .string (bytes "none"))]

theorem parseJson_injected : parseJson (errorBody injectedMessage) = some injectedJson := by
  have htext : errorBody injectedMessage = injectedJson.plain := by decide
  have hnames : ∀ name ∈ [bytes "error", bytes "workers"], PlainString name := by decide
  have hvalues : PlainString (bytes "x") ∧ PlainString (bytes "none") := by decide
  have hintegral : injectedJson.Integral := fun text htext => by cases htext
  rw [htext, parseJson_plain_iff hintegral]
  refine Iff.mpr (forall_strings_named ?_) ?_
  · exact hnames
  · simp [Json.strings, hvalues]

/-- The member gets into the body. -/
theorem message_adds_member :
    parseJson (errorBody injectedMessage) = some injectedJson ∧
    ¬∀ (handler : GatewayHandler) (request : HttpRequest) (response : HttpResponse)
      (τ : List (Event GatewayEffect GatewayEffect.Answer)) (o : Except StdException HttpResponse),
      Run anyAnswer (handler.handle request response) () τ o () → ∀ event ∈ τ, Carries o event := by
  refine ⟨parseJson_injected, fun h => ?_⟩
  have hrun : Run anyAnswer (GatewayHandler.getWorkers.handle ⟨[], [], []⟩ ⟨404, [], ∅⟩) ()
      [⟨.getWorkers, .error injectedMessage⟩] (.ok ⟨503, errorBody injectedMessage, ∅⟩) () :=
        .call trivial (.ret _ ())
  obtain ⟨response, ho, hcarried⟩ := h .getWorkers _ _ _ _ hrun _ List.mem_cons_self
  cases ho
  dsimp only at hcarried
  rw [parseJson_injected] at hcarried
  have hmembers := Json.object.inj (Option.some.inj hcarried)
  exact absurd (congrArg List.length hmembers) (by decide)

end Taskflow
