import Taskflow.AnsweredRequests
import Taskflow.Lib.HttpMessages
import Taskflow.ResponseBodies

/-!
# The responses of the gateway

`handleRequest` calls the scheduler at most once, and the answer makes the status and the body of the response.
What `handleConnection` of `src/gateway.cpp` writes is one message with the length of its body, so a client
finds the status and the body again, whatever the scheduler's answer has put there (`responses_framed`).
-/

namespace Taskflow

open Text Effects Prog

/-! ### The call that a request leads to -/

/-- What the request asks of the scheduler. -/
inductive Asks (request : HttpRequest) : GatewayEffect → Prop
  | submitTask {made : SubmitTaskRequest} (hmethod : request.method = bytes "POST")
      (hpath : extractPath request.path = bytes "/task") (hmade : submitRequest request.body = .ok made) :
      Asks request (.submitTask made)
  | getTaskStatus {taskId : Bytes} (hmethod : request.method = bytes "GET")
      (hpath : extractPath request.path = bytes "/task") (hid : parseQueryParam request.path (bytes "id") = taskId)
      (hne : taskId ≠ []) : Asks request (.getTaskStatus taskId)
  | getWorkers (hmethod : request.method = bytes "GET") (hpath : extractPath request.path = bytes "/workers") :
      Asks request .getWorkers

namespace GatewayEffect

def statusCode : (e : GatewayEffect) → e.Answer → Int
  | .submitTask _, .ok reply => if reply.success then 200 else 500
  | .getTaskStatus _, .ok reply => if reply.success then 200 else 404
  | .getWorkers, .ok _ => 200
  | .submitTask _, .error _ => 503
  | .getTaskStatus _, .error _ => 503
  | .getWorkers, .error _ => 503

/-- The response that an answer leads to. -/
def response (e : GatewayEffect) (answer : e.Answer) : HttpResponse where
  statusCode := e.statusCode answer
  body := (e.json answer).plain
  headers := (∅ : StringMap Bytes).insert (bytes "Content-Type") (bytes "application/json")

end GatewayEffect

/-- What every handler leaves in the response. -/
structure HttpResponse.Regular (response : HttpResponse) : Prop where
  status : response.statusCode ∈ ([200, 400, 404, 500, 503] : List Int)
  headers : response.headers[bytes "Content-Type"]? = some (bytes "application/json")

section Handlers

variable {request : HttpRequest} {e : GatewayEffect}

theorem statusCode_mem (e : GatewayEffect) (answer : e.Answer) :
    e.statusCode answer ∈ ([200, 400, 404, 500, 503] : List Int) := by
  cases e with
  | submitTask made =>
    cases answer with
    | ok reply =>
      simp only [GatewayEffect.statusCode]
      split <;> decide
    | error message => simp [GatewayEffect.statusCode]
  | getTaskStatus taskId =>
    cases answer with
    | ok reply =>
      simp only [GatewayEffect.statusCode]
      split <;> decide
    | error message => simp [GatewayEffect.statusCode]
  | getWorkers => cases answer <;> simp [GatewayEffect.statusCode]

theorem GatewayEffect.regular (e : GatewayEffect) (answer : e.Answer) : (e.response answer).Regular :=
  ⟨statusCode_mem e answer, by simp [GatewayEffect.response]⟩

/-- The method and the path settle the call. -/
theorem Asks.unique {e' : GatewayEffect} (h : Asks request e) (h' : Asks request e') : e = e' := by
  have hmethods : bytes "POST" ≠ bytes "GET" := by decide
  have hpaths : bytes "/task" ≠ bytes "/workers" := by decide
  cases h with
  | submitTask hmethod hpath hmade =>
    cases h' with
    | submitTask _ _ hmade' => rw [Except.ok.inj (hmade.symm.trans hmade')]
    | getTaskStatus hmethod' => exact absurd (hmethod.symm.trans hmethod') hmethods
    | getWorkers hmethod' => exact absurd (hmethod.symm.trans hmethod') hmethods
  | getTaskStatus hmethod hpath hid =>
    cases h' with
    | submitTask hmethod' => exact absurd (hmethod'.symm.trans hmethod) hmethods
    | getTaskStatus _ _ hid' => rw [← hid, ← hid']
    | getWorkers _ hpath' => exact absurd (hpath.symm.trans hpath') hpaths
  | getWorkers hmethod hpath =>
    cases h' with
    | submitTask hmethod' => exact absurd (hmethod'.symm.trans hmethod) hmethods
    | getTaskStatus _ hpath' => exact absurd (hpath'.symm.trans hpath) hpaths
    | getWorkers => rfl

/-- A request that asks something of the scheduler is answered with what the scheduler answers. -/
theorem handleRequest_asks (h : Asks request e) :
    handleRequest request = call e fun answer => ret (e.response answer) := by
  have hpost : bytes "POST" ≠ bytes "GET" := by decide
  have htask : bytes "/task" ≠ bytes "/health" := by decide
  have hworkers : bytes "/workers" ≠ bytes "/health" ∧ bytes "/workers" ≠ bytes "/task" := by decide
  cases h with
  | submitTask hmethod hpath hmade =>
    simp only [handleRequest, hmethod, hpath, hpost, false_and, and_self, if_true, if_false,
      handleSubmitTask, hmade]
    refine congrArg (call _) (funext fun answer => ?_)
    cases answer with
    | ok reply => rw [GatewayEffect.response, GatewayEffect.json, ← submitBody_eq]; rfl
    | error message => rw [GatewayEffect.response, GatewayEffect.json, ← submitErrorBody_eq]; rfl
  | getTaskStatus hmethod hpath hid hne =>
    subst hid
    simp only [handleRequest, hmethod, hpath, hpost.symm, htask, false_and, and_false, and_self, if_true, if_false,
      handleGetStatus]
    rw [if_neg (by simpa using hne)]
    refine congrArg (call _) (funext fun answer => ?_)
    cases answer with
    | ok reply => rw [GatewayEffect.response, GatewayEffect.json, ← statusBody_eq]; rfl
    | error message => rw [GatewayEffect.response, GatewayEffect.json, ← errorBody_eq]; rfl
  | getWorkers hmethod hpath =>
    simp only [handleRequest, hmethod, hpath, hpost.symm, hworkers, and_false, and_self, if_true, if_false,
      handleGetWorkers]
    refine congrArg (call _) (funext fun answer => ?_)
    cases answer with
    | ok reply => rw [GatewayEffect.response, GatewayEffect.json, ← workersBody_eq]; rfl
    | error message => rw [GatewayEffect.response, GatewayEffect.json, ← errorBody_eq]; rfl

/-- Any other request calls nobody. -/
theorem handleRequest_silent (h : ∀ e, ¬ Asks request e) :
    (∃ x, handleRequest request = throw x) ∨ ∃ response, response.Regular ∧
    handleRequest request = ret response := by
  have hheaders : ((∅ : StringMap Bytes).insert (bytes "Content-Type")
    (bytes "application/json"))[bytes "Content-Type"]? =
      some (bytes "application/json") := by simp
  unfold handleRequest
  dsimp only
  split
  · exact Or.inr ⟨_, ⟨by decide, hheaders⟩, rfl⟩
  split
  · rename_i hsubmit
    unfold handleSubmitTask
    cases hmade : submitRequest request.body with
    | error x => exact Or.inl ⟨x, rfl⟩
    | ok made => exact absurd (.submitTask hsubmit.1 hsubmit.2 hmade) (h _)
  split
  · rename_i hstatus
    unfold handleGetStatus
    dsimp only
    split
    · exact Or.inr ⟨_, ⟨by decide, hheaders⟩, rfl⟩
    · rename_i hne
      exact absurd (.getTaskStatus hstatus.1 hstatus.2 rfl (by simpa using hne)) (h _)
  split
  · rename_i hworkers
    exact absurd (.getWorkers hworkers.1 hworkers.2) (h _)
  split
  · exact Or.inr ⟨_, ⟨by decide, hheaders⟩, rfl⟩
  split
  · exact Or.inr ⟨_, ⟨by decide, hheaders⟩, rfl⟩
  · exact Or.inr ⟨_, ⟨by decide, hheaders⟩, rfl⟩

end Handlers

/-! ### On the wire -/

/-- The parts of a response on the wire. -/
def HttpResponse.message (response : HttpResponse) : Http.Message where
  startLine := bytes "HTTP/1.1 " ++ decimal response.statusCode ++ bytes " OK"
  fields := [(bytes "Content-Type", (response.headers[bytes "Content-Type"]?).getD []),
    (bytes "Content-Length", decimal response.body.length), (bytes "Connection", bytes "close")]
  body := response.body

theorem responseText_eq (response : HttpResponse) : responseText response = response.message.text := by
  have hcrlf : bytes "\r\n" = Http.crlf := by decide
  have hok : bytes " OK\r\n" = bytes " OK" ++ Http.crlf := by decide
  have htype : bytes "Content-Type: " = bytes "Content-Type" ++ bytes ": " := by decide
  have hlength : bytes "Content-Length: " = bytes "Content-Length" ++ bytes ": " := by decide
  have hclose : bytes "Connection: close\r\n" = bytes "Connection" ++ bytes ": " ++ bytes "close" ++ Http.crlf := by
    decide
  simp only [responseText, HttpResponse.message, Http.Message.text, Http.fieldLine, hcrlf, hok, htype,
    hlength, hclose,
    List.flatMap_cons, List.flatMap_nil, List.append_nil, List.append_assoc]

theorem mem_decimal {n : Int} {c : UInt8} (h : c ∈ decimal n) : c = 45 ∨ isDigit 10 c = true := by
  unfold decimal at h
  split at h
  · rcases List.mem_cons.1 h with h | h
    · exact Or.inl h
    · exact Or.inr (isDigit_of_mem_natDecimal h)
  · exact Or.inr (isDigit_of_mem_natDecimal h)

theorem noNewline_decimal (n : Int) : 10 ∉ decimal n := by
  intro h
  rcases mem_decimal h with h | h
  · exact absurd h (by decide)
  · exact absurd h (by decide)

theorem noBlank_decimal {n : Int} {c : UInt8} (h : c ∈ decimal n) : isBlank c = false := by
  rcases mem_decimal h with rfl | hdigit
  · decide
  · have hle := (digit_toNat hdigit).1
    have hne : ∀ d : UInt8, d.toNat < 48 → c ≠ d := by
      rintro d hd rfl
      omega
    simp [isBlank, hne 32 (by decide), hne 9 (by decide)]

theorem plainString_decimal (n : Int) : PlainString (decimal n) := by
  have hrange : ∀ c ∈ decimal n, c.toNat = 45 ∨ 48 ≤ c.toNat ∧ c.toNat ≤ 57 := by
    intro c hc
    rcases mem_decimal hc with rfl | hdigit
    · exact Or.inl rfl
    · exact Or.inr (digit_toNat hdigit)
  constructor
  · intro c hc
    have hc := hrange c hc
    refine ⟨?_, ?_, ?_⟩
    · rintro rfl
      revert hc
      decide
    · rintro rfl
      revert hc
      decide
    · rw [UInt8.le_iff_toNat_le]
      have h32 : (32 : UInt8).toNat = 32 := rfl
      omega
  · refine isUtf8_of_ascii fun c hc => ?_
    have hc := hrange c hc
    rw [UInt8.lt_iff_toNat_lt]
    have h128 : (0x80 : UInt8).toNat = 128 := rfl
    omega

theorem sendable_decimal {name : Bytes} (hname : 58 ∉ name ∧ 10 ∉ name) (n : Int) :
    Http.Sendable (name, decimal n) := by
  refine ⟨hname, noNewline_decimal n, ?_, ?_⟩
  · rw [Option.all_eq_true]
    intro c hc
    rw [noBlank_decimal (List.mem_of_mem_head? hc)]
    rfl
  · rw [Option.all_eq_true]
    intro c hc
    rw [noBlank_decimal (List.mem_of_mem_getLast? hc)]
    rfl

theorem HttpResponse.Regular.wellFormed {response : HttpResponse} (h : response.Regular) :
    response.message.WellFormed := by
  have htext : decimal (response.body.length : Int) = natDecimal response.body.length := rfl
  have hdigits : natDecimal response.body.length ≠ [] ∧ (natDecimal response.body.length).all (isDigit 10) = true :=
    ⟨natDecimal_ne_nil _, List.all_eq_true.2 fun c hc => isDigit_of_mem_natDecimal hc⟩
  refine ⟨?_, ?_, ?_⟩
  · simp only [HttpResponse.message, List.mem_append, not_or]
    exact ⟨⟨by decide, noNewline_decimal _⟩, by decide⟩
  · intro field hfield
    simp only [HttpResponse.message, h.headers, Option.getD_some, List.mem_cons, List.not_mem_nil,
      or_false] at hfield
    rcases hfield with rfl | rfl | rfl
    · exact ⟨⟨by decide, by decide⟩, by decide, by decide, by decide⟩
    · exact sendable_decimal ⟨by decide, by decide⟩ _
    · exact ⟨⟨by decide, by decide⟩, by decide, by decide, by decide⟩
  · have hfilter : (response.message.fields.filter fun field => lower field.1 = bytes "content-length") =
        [(bytes "Content-Length", decimal response.body.length)] := by
      have htype : lower (bytes "Content-Type") ≠ bytes "content-length" := by decide
      have hlength : lower (bytes "Content-Length") = bytes "content-length" := by decide
      have hclose : lower (bytes "Connection") ≠ bytes "content-length" := by decide
      simp [HttpResponse.message, htype, hlength, hclose]
    rw [Http.contentLength, hfilter, htext]
    dsimp only
    rw [if_pos hdigits, digitsValue_natDecimal]
    rfl

/-- A client finds the status, the fields and the body again. -/
theorem HttpResponse.Regular.read {response : HttpResponse} (h : response.Regular) (rest : Bytes) :
    Http.read (responseText response ++ rest) = some (response.message, rest) := by
  rw [responseText_eq]
  exact Http.Message.read_text h.wellFormed rest

section Connections

variable {buffered later : Bytes} {request : HttpRequest}

theorem serveConnection_error {x : StdException} (hrequest : handleConnection buffered later = .error x) :
    serveConnection buffered later = throw x := by
  rw [serveConnection, hrequest]
  rfl

theorem serveConnection_asks {e : GatewayEffect} (hrequest : handleConnection buffered later = .ok request)
    (h : Asks request e) :
    serveConnection buffered later = call e fun answer => ret (responseText (e.response answer)) := by
  rw [serveConnection, hrequest, ofExcept_ok, ret_bind, handleRequest_asks h]
  rfl

theorem serveConnection_silent (hrequest : handleConnection buffered later = .ok request)
    (h : ∀ e, ¬ Asks request e) :
    (∃ x, serveConnection buffered later = throw x) ∨
      ∃ response, response.Regular ∧ serveConnection buffered later = ret (responseText response) := by
  rw [serveConnection, hrequest, ofExcept_ok, ret_bind]
  rcases handleRequest_silent h with ⟨x, hx⟩ | ⟨response, hregular, hresponse⟩
  · exact Or.inl ⟨x, by rw [hx]; rfl⟩
  · exact Or.inr ⟨response, hregular, by rw [hresponse]; rfl⟩

/-- Whatever the scheduler answers: the gateway asks it at most once, and a client finds in what the gateway
wrote the status and the body that belong to the answer, whatever bytes they have and whatever follows on the
connection. -/
theorem responses_framed {text : Bytes} {τ : List (Event GatewayEffect GatewayEffect.Answer)}
    (h : Run anyAnswer (serveConnection buffered later) () τ (.ok text) ()) :
    ∃ request response, handleConnection buffered later = .ok request ∧ response.Regular ∧
      (∀ rest, Http.read (text ++ rest) = some (response.message, rest)) ∧
      (τ = [] ∧ (∀ e, ¬ Asks request e) ∨
        ∃ event, τ = [event] ∧ Asks request event.1 ∧ response = event.1.response event.2) := by
  cases hrequest : handleConnection buffered later with
  | error x =>
    rw [serveConnection_error hrequest] at h
    cases h
  | ok request =>
    by_cases hasks : ∃ e, Asks request e
    · obtain ⟨e, hasks⟩ := hasks
      have hwp : wp anyAnswer (serveConnection buffered later) (fun τ o _ => ∃ answer : e.Answer,
          τ = [⟨e, answer⟩] ∧ o = .ok (responseText (e.response answer))) () := by
        rw [serveConnection_asks hrequest hasks]
        exact fun answer _ _ => ⟨answer, rfl, rfl⟩
      obtain ⟨answer, rfl, htext⟩ := hwp.run h
      obtain rfl := Except.ok.inj htext
      exact ⟨request, _, rfl, e.regular answer, (e.regular answer).read, Or.inr ⟨_, rfl, hasks, rfl⟩⟩
    · have hnone : ∀ e, ¬ Asks request e := fun e he => hasks ⟨e, he⟩
      rcases serveConnection_silent hrequest hnone with ⟨x, hx⟩ | ⟨response, hregular, hresponse⟩
      · rw [hx] at h
        cases h
      · rw [hresponse] at h
        cases h
        exact ⟨request, response, rfl, hregular, hregular.read, Or.inl ⟨rfl, hnone⟩⟩

end Connections

/-! ### What a client learns -/

/-- The client reads that its task is submitted, and under which id. -/
def Confirms (text taskId : Bytes) : Prop :=
  ∃ message rest members, Http.read text = some (message, rest) ∧ message.startLine = bytes "HTTP/1.1 200 OK" ∧
    parseJson message.body = some (.object members) ∧ (bytes "task_id", .string taskId) ∈ members

theorem HttpResponse.Regular.startLine {response : HttpResponse} (h : response.Regular) :
    response.message.startLine = bytes "HTTP/1.1 200 OK" ↔ response.statusCode = 200 := by
  have hstatus := h.status
  simp only [List.mem_cons, List.not_mem_nil, or_false] at hstatus
  simp only [HttpResponse.message]
  rcases hstatus with hs | hs | hs | hs | hs <;> rw [hs] <;> decide

/-- The id that a client reads is the one that the scheduler replied. -/
theorem confirms_submit {made : SubmitTaskRequest} {answer : (GatewayEffect.submitTask made).Answer}
    {taskId : Bytes} (h : Confirms (responseText ((GatewayEffect.submitTask made).response answer)) taskId) :
    ∃ reply, answer = .ok reply ∧ reply.success = true ∧
      (PlainString reply.taskId → PlainString reply.message → reply.taskId = taskId) := by
  obtain ⟨message, rest, members, hread, hstart, hjson, hmem⟩ := h
  have hregular := GatewayEffect.regular (.submitTask made) answer
  have hsame := hregular.read []
  rw [List.append_nil, hread] at hsame
  obtain ⟨rfl, rfl⟩ := Prod.mk.inj (Option.some.inj hsame)
  rw [hregular.startLine] at hstart
  cases answer with
  | error message => exact absurd hstart (by simp [GatewayEffect.response, GatewayEffect.statusCode])
  | ok reply =>
    have hsuccess : reply.success = true := by
      by_contra hno
      simp [GatewayEffect.response, GatewayEffect.statusCode, hno] at hstart
    refine ⟨reply, rfl, hsuccess, fun hid hmessage => ?_⟩
    have hdecodes := (@decodes_iff _ (.submitTask made)
      (.ok reply) rfl).2 (by simp [GatewayEffect.contents, hid, hmessage])
    have hmembers : (GatewayEffect.submitTask made).json (.ok reply) = .object members := by
      rw [← Option.some_inj, ← hdecodes]
      exact hjson
    simp only [GatewayEffect.json, submitJson, Json.object.injEq] at hmembers
    subst hmembers
    have hnames : bytes "task_id" ≠ bytes "success" ∧ bytes "task_id" ≠ bytes "message" := by decide
    simpa [hnames, eq_comm] using hmem

theorem confirms_reply (made : SubmitTaskRequest) {taskId message : Bytes} (hid : PlainString taskId)
    (hmessage : PlainString message) :
    Confirms (responseText ((GatewayEffect.submitTask made).response (.ok ⟨true, taskId, message⟩))) taskId := by
  have hregular := GatewayEffect.regular (.submitTask made) (.ok ⟨true, taskId, message⟩)
  have hread := hregular.read []
  rw [List.append_nil] at hread
  let members : List (Bytes × Json) := [(bytes "success", .bool true), (bytes "task_id", .string taskId),
    (bytes "message", .string message)]
  refine ⟨_, [], members, hread, hregular.startLine.2 rfl, ?_, ?_⟩
  · exact (@decodes_iff _ (.submitTask made) (.ok ⟨true, taskId, message⟩) rfl).2
      (by simp [GatewayEffect.contents, hid, hmessage])
  · simp [members]

private def workersHead : RequestHead :=
  ⟨bytes "GET /workers HTTP/1.1\r", [], [], by decide, fun _ h => by cases h⟩

/-- The scheduler is away. -/
theorem responses_framed_workers : ∃ text request response, handleConnection workersHead.text [] = .ok request ∧
    response.Regular ∧ (∀ rest, Http.read (text ++ rest) = some (response.message, rest)) ∧
      ([⟨.getWorkers, .error (bytes "away")⟩] = ([] : List (Event GatewayEffect GatewayEffect.Answer)) ∧
          (∀ e, ¬ Asks request e) ∨
        ∃ event : Event GatewayEffect GatewayEffect.Answer, [⟨.getWorkers, .error (bytes "away")⟩] = [event] ∧
          Asks request event.1 ∧ response = event.1.response event.2) := by
  have hrequest : handleConnection workersHead.text [] = .ok ⟨bytes "GET", bytes "/workers", []⟩ :=
    (RequestHead.handleConnection_text (n := 0) rfl rfl).trans (by decide)
  have hrun : Run anyAnswer (serveConnection workersHead.text []) () [⟨.getWorkers, .error (bytes "away")⟩]
      (.ok (responseText (GatewayEffect.getWorkers.response (.error (bytes "away"))))) () := by
    rw [serveConnection_asks hrequest (.getWorkers rfl (by decide))]
    exact .call trivial (.ret _ ())
  exact ⟨_, responses_framed hrun⟩

end Taskflow
