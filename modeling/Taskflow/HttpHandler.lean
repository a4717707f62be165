import Taskflow.HttpServer
import Taskflow.Lib.Effects
import Taskflow.Lib.Pattern

/-!
# `HttpHandler`

The gateway's handler of `src/gateway/http_handler.cpp`, and the end of `SimpleHttpServer::handleConnection` in
`src/gateway.cpp`, which writes what the handler answers.  The handlers are programs over the calls that they
make to the scheduler.  A body is searched with regular expressions, and the bodies of the responses are put
together from text without escaping anything.  `std::regex_search` may give up on a long body (`Engine`); where
no engine is named, every search is carried out.
-/

namespace Taskflow

open Text Effects Prog

/-! ### Messages -/

inductive TaskType where
  | ORDER_DISPATCH
  | PERSONNEL_SCHEDULE
  | MESSAGE_NOTIFY
  | DATA_STATS
  deriving DecidableEq, Repr

/-- The priority is an enumeration of the protocol, which is open: any `int` can be stored. -/
structure SubmitTaskRequest where
  type : TaskType := .ORDER_DISPATCH
  priority : Int32 := 0
  data : Bytes := []
  deriving DecidableEq

structure SubmitTaskReply where
  success : Bool
  taskId : Bytes
  message : Bytes

/-- The members of `Task` that the gateway reads. -/
structure TaskView where
  id : Bytes
  status : Int32
  createdAt : Int64
  startedAt : Int64
  finishedAt : Int64
  errorMessage : Bytes
  result : Bytes

structure TaskStatusReply where
  success : Bool
  task : TaskView

/-- The members of `WorkerInfo` that the gateway reads. -/
structure WorkerView where
  workerId : Bytes
  address : Bytes
  port : Int32
  currentLoad : Int32
  status : Bytes

abbrev GetWorkersReply := List WorkerView

/-- The calls to the scheduler. -/
inductive GatewayEffect where
  | submitTask (request : SubmitTaskRequest)
  | getTaskStatus (taskId : Bytes)
  | getWorkers

/-- The type of a call's answer: the reply, or the error message of a status that is not OK. -/
@[reducible] def GatewayEffect.Answer : GatewayEffect → Type
  | .submitTask _ => Except Bytes SubmitTaskReply
  | .getTaskStatus _ => Except Bytes TaskStatusReply
  | .getWorkers => Except Bytes GetWorkersReply

abbrev GatewayCode (α : Type) := Prog GatewayEffect GatewayEffect.Answer StdException α

structure HttpResponse where
  statusCode : Int
  body : Bytes
  headers : StringMap Bytes

/-! ### Queries -/

def extractPath (path : Bytes) : Bytes :=
  match splitFirst 63 path with
  | some (before, _) => before
  | none => path

/-- The loop over the pairs of a query. -/
def parsePairs (stream : Bytes) (params : StringMap Bytes) : StringMap Bytes :=
  match h : getlineUntil 38 stream with
  | none => params
  | some (pair, rest) =>
    have := getlineUntil_shorter h
    parsePairs rest
      (match splitFirst 61 pair with
      | some (key, value) => params.insert key value
      | none => params)
termination_by stream.length

def parseQueryParams (query : Bytes) : StringMap Bytes :=
  let queryString := match splitFirst 63 query with
    | some (_, rest) => rest
    | none => query
  parsePairs queryString ∅

def parseQueryParam (query key : Bytes) : Bytes := ((parseQueryParams query)[key]?).getD []

/-! ### Submitting a task -/

/-- `\s*:\s*"([^"]+)"`, behind the name of the field. -/
def stringField (rest : Bytes) : Option Bytes := ((spacedColon rest).bind (expect 34)).bind untilQuoteNonempty

/-- `\s*:\s*(\d+)`, behind the name of the field. -/
def numberField (rest : Bytes) : Option Bytes := (spacedColon rest).bind leadingDigits

def searchType (body : Bytes) : Option Bytes := searchAfter (bytes "\"type\"") stringField body
def searchPriority (body : Bytes) : Option Bytes := searchAfter (bytes "\"priority\"") numberField body
def searchData (body : Bytes) : Option Bytes := searchAfter (bytes "\"data\"") stringField body

/-- The names of the types; another name leaves the type as it is. -/
def SubmitTaskRequest.setType (request : SubmitTaskRequest) (type : Bytes) : SubmitTaskRequest :=
  if type = bytes "order" then { request with type := .ORDER_DISPATCH }
  else if type = bytes "personnel" then { request with type := .PERSONNEL_SCHEDULE }
  else if type = bytes "message" then { request with type := .MESSAGE_NOTIFY }
  else if type = bytes "stats" then { request with type := .DATA_STATS }
  else request

/-- The request that `handleSubmitTask` makes of the body.  `set_data` is called a second time, with the whole
body. -/
def submitRequest (body : Bytes) (engine : Engine := tireless) : Except StdException SubmitTaskRequest := do
  let request : SubmitTaskRequest := {}
  let request := match ← search engine (bytes "type") body (searchType body) with
    | some type => request.setType type
    | none => request
  let priority ← match ← search engine (bytes "priority") body (searchPriority body) with
    | some digits => stoi 10 digits
    | none => .ok 1
  let request := { request with priority := priority }
  let request := match ← search engine (bytes "data") body (searchData body) with
    | some data => { request with data := data }
    | none => request
  return { request with data := body }

def boolText (b : Bool) : Bytes := if b then bytes "true" else bytes "false"

def submitBody (reply : SubmitTaskReply) : Bytes :=
  bytes "\x7b\"success\":" ++ boolText reply.success ++
    bytes ",\"task_id\":\"" ++ reply.taskId ++ bytes "\"" ++
    bytes ",\"message\":\"" ++ reply.message ++ bytes "\"\x7d"

def submitErrorBody (message : Bytes) : Bytes :=
  bytes "\x7b\"success\":false,\"error\":\"" ++ message ++ bytes "\"\x7d"

def handleSubmitTask (request : HttpRequest) (response : HttpResponse) (engine : Engine := tireless) :
    GatewayCode HttpResponse := do
  let grpcRequest ← ofExcept (submitRequest request.body engine)
  match ← perform (GatewayEffect.submitTask grpcRequest) with
  | .ok reply =>
    return { response with statusCode := if reply.success then 200 else 500, body := submitBody reply }
  | .error message => return { response with statusCode := 503, body := submitErrorBody message }

/-! ### Asking -/

/-- `TaskStatus_Name`; a number without a name gives `""`. -/
def taskStatusName (status : Int32) : Bytes :=
  if status = 0 then bytes "PENDING"
  else if status = 1 then bytes "RUNNING"
  else if status = 2 then bytes "SUCCESS"
  else if status = 3 then bytes "FAILED"
  else []

def statusBody (reply : TaskStatusReply) : Bytes :=
  bytes "\x7b\"success\":" ++ boolText reply.success ++
    bytes ",\"task\":\x7b" ++
    bytes "\"id\":\"" ++ reply.task.id ++ bytes "\"" ++
    bytes ",\"status\":\"" ++ taskStatusName reply.task.status ++ bytes "\"" ++
    bytes ",\"created_at\":" ++ decimal reply.task.createdAt.toInt ++
    bytes ",\"started_at\":" ++ decimal reply.task.startedAt.toInt ++
    bytes ",\"finished_at\":" ++ decimal reply.task.finishedAt.toInt ++
    bytes ",\"error_message\":\"" ++ reply.task.errorMessage ++ bytes "\"" ++
    bytes ",\"result\":\"" ++ reply.task.result ++ bytes "\"" ++
    bytes "\x7d\x7d"

def errorBody (message : Bytes) : Bytes := bytes "\x7b\"error\":\"" ++ message ++ bytes "\"\x7d"

def handleGetStatus (request : HttpRequest) (response : HttpResponse) : GatewayCode HttpResponse := do
  let taskId := parseQueryParam request.path (bytes "id")
  if taskId.isEmpty then
    return { response with statusCode := 400, body := bytes "\x7b\"error\":\"Missing task id\"\x7d" }
  match ← perform (GatewayEffect.getTaskStatus taskId) with
  | .ok reply =>
    return { response with statusCode := if reply.success then 200 else 404, body := statusBody reply }
  | .error message => return { response with statusCode := 503, body := errorBody message }

def workerBody (worker : WorkerView) : Bytes :=
  bytes "\x7b" ++
    bytes "\"id\":\"" ++ worker.workerId ++ bytes "\"" ++
    bytes ",\"address\":\"" ++ worker.address ++ bytes "\"" ++
    bytes ",\"port\":" ++ decimal worker.port.toInt ++
    bytes ",\"current_load\":" ++ decimal worker.currentLoad.toInt ++
    bytes ",\"status\":\"" ++ worker.status ++ bytes "\"" ++
    bytes "\x7d"

def workersBody (reply : GetWorkersReply) : Bytes :=
  bytes "\x7b\"workers\":[" ++ ((reply.map workerBody).intersperse (bytes ",")).flatten ++ bytes "]\x7d"

def handleGetWorkers (response : HttpResponse) : GatewayCode HttpResponse := do
  match ← perform GatewayEffect.getWorkers with
  | .ok reply => return { response with statusCode := 200, body := workersBody reply }
  | .error message => return { response with statusCode := 503, body := errorBody message }

def handleGetStats (response : HttpResponse) : HttpResponse :=
  { response with statusCode := 200, body := bytes "\x7b\"stats\":\"not implemented\"\x7d" }

def handleHealthCheck (response : HttpResponse) : HttpResponse :=
  { response with statusCode := 200, body := bytes "\x7b\"status\":\"ok\",\"service\":\"gateway\"\x7d" }

def handleGetQueueStatus (response : HttpResponse) : HttpResponse :=
  { response with statusCode := 200, body := bytes "\x7b\"queue\":\"not implemented\"\x7d" }

/-! ### Requests -/

def handleRequest (request : HttpRequest) (engine : Engine := tireless) : GatewayCode HttpResponse :=
  let response : HttpResponse :=
    { statusCode := 404, body := bytes "Not Found"
      headers := (∅ : StringMap Bytes).insert (bytes "Content-Type") (bytes "application/json") }
  let path := extractPath request.path
  if request.method = bytes "GET" ∧ path = bytes "/health" then return handleHealthCheck response
  else if request.method = bytes "POST" ∧ path = bytes "/task" then handleSubmitTask request response engine
  else if request.method = bytes "GET" ∧ path = bytes "/task" then handleGetStatus request response
  else if request.method = bytes "GET" ∧ path = bytes "/workers" then handleGetWorkers response
  else if request.method = bytes "GET" ∧ path = bytes "/stats" then return handleGetStats response
  else if request.method = bytes "GET" ∧ path = bytes "/queue" then return handleGetQueueStatus response
  else return response

/-- The bytes that `handleConnection` writes. -/
def responseText (response : HttpResponse) : Bytes :=
  bytes "HTTP/1.1 " ++ decimal response.statusCode ++ bytes " OK\r\n" ++
    bytes "Content-Type: " ++ ((response.headers[bytes "Content-Type"]?).getD []) ++ bytes "\r\n" ++
    bytes "Content-Length: " ++ decimal response.body.length ++ bytes "\r\n" ++
    bytes "Connection: close\r\n" ++ bytes "\r\n" ++ response.body

/-- All of `handleConnection`: the request is framed, handled, and answered with one write.  An exception is caught
and ends the connection without one. -/
def serveConnection (buffered later : Bytes) (engine : Engine := tireless) : GatewayCode Bytes := do
  let request ← ofExcept (handleConnection buffered later)
  let response ← handleRequest request engine
  return responseText response

/-! ### Runs -/

/-- The scheduler may give any answer to any call. -/
def anyAnswer : Semantics GatewayEffect GatewayEffect.Answer Unit := fun _ _ _ _ => True

theorem anyAnswer_total (e : GatewayEffect) (w : Unit) : ∃ r w', anyAnswer e w r w' := by
  cases e with
  | submitTask request => exact ⟨.error [], (), trivial⟩
  | getTaskStatus taskId => exact ⟨.error [], (), trivial⟩
  | getWorkers => exact ⟨.error [], (), trivial⟩

/-- Of the request only the priority can be missing, and the data is the body. -/
theorem submitRequest_eq (body : Bytes) : ∃ type, submitRequest body =
    (((searchPriority body).map (stoi 10)).getD (.ok 1)).map fun priority => ⟨type, priority, body⟩ := by
  refine ⟨((searchType body).elim {} ({} : SubmitTaskRequest).setType).type, ?_⟩
  simp only [submitRequest, search_tireless, Bind.bind, Except.bind]
  cases searchPriority body with
  | none =>
    cases searchType body with
    | none => cases searchData body <;> rfl
    | some type => cases searchData body <;> rfl
  | some digits =>
    dsimp only [Option.map_some, Option.getD_some]
    cases stoi 10 digits with
    | error x => rfl
    | ok priority =>
      cases searchType body with
      | none => cases searchData body <;> rfl
      | some type => cases searchData body <;> rfl

/-- Where all searches of a body are carried out, the request is what it would be without an engine that gives up;
otherwise there is none. -/
theorem submitRequest_engine (body : Bytes) (engine : Engine) :
    ((∀ name ∈ [bytes "type", bytes "priority", bytes "data"], engine name body = true) →
      submitRequest body engine = submitRequest body) ∧
    (∀ task, submitRequest body engine = .ok task →
      ∀ name ∈ [bytes "type", bytes "priority", bytes "data"], engine name body = true) := by
  rw [List.forall_mem_cons, List.forall_mem_cons, List.forall_mem_singleton]
  simp only [submitRequest, search, tireless, if_true, Bind.bind, Except.bind]
  cases engine (bytes "type") body with
  | false => exact ⟨fun h => (by cases h.1), fun task h => (by cases h)⟩
  | true =>
    cases engine (bytes "priority") body with
    | false => exact ⟨fun h => (by cases h.2.1), fun task h => (by cases h)⟩
    | true =>
      cases engine (bytes "data") body with
      | true => exact ⟨fun _ => rfl, fun _ _ => ⟨rfl, rfl, rfl⟩⟩
      | false =>
        refine ⟨fun h => (by cases h.2.2), fun task h => ?_⟩
        -- the last search comes after the conversion of the priority
        cases hpriority : searchPriority body with
        | none => simp [hpriority] at h
        | some digits =>
          cases hnumber : stoi 10 digits with
          | error x => simp [hpriority, hnumber] at h
          | ok priority => simp [hpriority, hnumber] at h

theorem submitRequest_data {body : Bytes} {request : SubmitTaskRequest} (h : submitRequest body = .ok request) :
    request.data = body := by
  obtain ⟨type, heq⟩ := submitRequest_eq body
  rw [heq] at h
  cases hpriority : ((searchPriority body).map (stoi 10)).getD (.ok 1) with
  | error x =>
    rw [hpriority] at h
    cases h
  | ok priority =>
    rw [hpriority] at h
    cases h
    rfl

end Taskflow
