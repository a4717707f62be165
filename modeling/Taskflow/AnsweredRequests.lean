import Taskflow.HttpHandler

/-!
# Which requests are answered

`SimpleHttpServer::handleConnection` of `src/gateway.cpp` writes its response last, and every exception before
that ends the connection without one.  A received head is a request line, header lines and the blank line; the
numbers in it and in the body are converted by `std::stoi`, and the body of a new task is searched by an engine
that may give up.  `answered_iff`: the requests that get their response.
-/

namespace Taskflow

open Text Effects Prog

/-! ### Heads -/

/-- What `read_until` leaves in the buffer: a head with the blank line that ends it, and what has come behind. -/
structure RequestHead where
  requestLine : Bytes
  lines : List Bytes
  extra : Bytes
  requestLine_line : 10 ∉ requestLine
  lines_line : ∀ line ∈ lines, 10 ∉ line ∧ line ≠ [13]

namespace RequestHead

def headers (head : RequestHead) : Bytes := (head.lines.flatMap fun line => line ++ [10]) ++ 13 :: 10 :: head.extra

def text (head : RequestHead) : Bytes := head.requestLine ++ 10 :: head.headers

def method (head : RequestHead) : Bytes := (extractWord head.requestLine).1

def path (head : RequestHead) : Bytes := (extractWord (extractWord head.requestLine).2).1

/-- The field `Content-Length`, in capital or small letters. -/
def isLengthLine (line : Bytes) : Bool :=
  decide (58 ∈ line) && lower (line.takeWhile fun c => c ≠ 58) == bytes "content-length"

/-- The length that the peer announces: the number in its last `Content-Length`, when there is one that is not
negative. -/
def announced (head : RequestHead) : Nat :=
  match (head.lines.filter isLengthLine).getLast? with
  | some line => ((strtol 10 (afterColon line)).getD 0).toNat
  | none => 0

/-- The body of `n` bytes: the end of what is buffered, which is filled up if it is too short. -/
def body (head : RequestHead) (n : Nat) (later : Bytes) : Bytes :=
  if head.extra.length < n then (head.extra ++ later).take n else head.extra.drop (head.extra.length - n)

/-- The engine carries out the three searches of this body, and a priority in it fits. -/
def Searchable (engine : Engine) (body : Bytes) : Prop :=
  (∀ name ∈ [bytes "type", bytes "priority", bytes "data"], engine name body = true) ∧
    ∀ digits, searchPriority body = some digits → digitsValue 10 digits < 2 ^ 31

/-- The lines that mention a content length have numbers, the size that the last one gives is not more than what is
announced, and the body of a new task can be searched, with a priority that fits. -/
def Serviceable (head : RequestHead) (later : Bytes) (engine : Engine) : Prop :=
  ∃ n, Announces head.lines n ∧ n ≤ head.announced ∧
    (head.method = bytes "POST" → extractPath head.path = bytes "/task" → Searchable engine (head.body n later))

end RequestHead

/-- Every run of the program returns, whatever the scheduler answers. -/
def Completes {α : Type} (p : GatewayCode α) : Prop := Post anyAnswer p (fun o _ => ∃ a, o = .ok a) ()

/-- The header lines are read to their end, the body is not longer than announced, and the response is written. -/
def Answered (head : RequestHead) (later : Bytes) (engine : Engine) : Prop :=
  (∃ n, readHeaders 0 head.headers = .ok (n, head.extra) ∧ n ≤ head.announced) ∧
    Completes (serveConnection head.text later engine)

/-! ### Every buffer has a head -/

section Head

variable {line rest s : Bytes}

/-- The blank line comes right behind this line, or later. -/
theorem blank_line_behind (hline : 10 ∉ line) (h : [10, 13, 10] <:+: line ++ 10 :: rest) :
    [13, 10] <+: rest ∨ [10, 13, 10] <:+: rest := by
  induction line with
  | nil =>
    rw [List.nil_append, List.infix_cons_iff] at h
    exact h.imp_left fun hstart => (List.cons_prefix_cons.1 hstart).2
  | cons c line ih =>
    rw [List.mem_cons, not_or] at hline
    rw [List.cons_append, List.infix_cons_iff] at h
    rcases h with hstart | hinside
    · exact absurd (List.cons_prefix_cons.1 hstart).1 hline.1
    · exact ih hline.2 hinside

/-- The lines before the first blank one. -/
theorem exists_lines (n : Nat) (hn : s.length ≤ n) (h : [13, 10] <+: s ∨ [10, 13, 10] <:+: s) :
    ∃ (lines : List Bytes) (extra : Bytes), s = (lines.flatMap fun line => line ++ [10]) ++ 13 :: 10 :: extra ∧
      ∀ line ∈ lines, 10 ∉ line ∧ line ≠ [13] := by
  induction n generalizing s with
  | zero =>
    obtain rfl := List.eq_nil_of_length_eq_zero (Nat.le_zero.1 hn)
    rcases h with h | h
    · exact absurd (List.prefix_nil.1 h) (by decide)
    · exact absurd (List.infix_nil.1 h) (by decide)
  | succ n ih =>
    by_cases hblank : [13, 10] <+: s
    · obtain ⟨extra, rfl⟩ := hblank
      exact ⟨[], extra, rfl, fun line hline => by cases hline⟩
    · have hinside := h.resolve_left hblank
      obtain ⟨line, rest, rfl, hline⟩ := List.eq_append_cons_of_mem (hinside.subset List.mem_cons_self)
      have hlength : rest.length ≤ n := by
        rw [List.length_append, List.length_cons] at hn
        omega
      obtain ⟨lines, extra, rfl, hlines⟩ := ih hlength (blank_line_behind hline hinside)
      refine ⟨line :: lines, extra, by simp, ?_⟩
      rw [List.forall_mem_cons]
      refine ⟨⟨hline, ?_⟩, hlines⟩
      rintro rfl
      exact hblank ⟨_, rfl⟩

theorem exists_head (h : bytes "\r\n\r\n" <:+: s) : ∃ head : RequestHead, head.text = s := by
  have hinside : [10, 13, 10] <:+: s := List.IsInfix.trans (by decide) h
  obtain ⟨line, rest, rfl, hline⟩ := List.eq_append_cons_of_mem (hinside.subset List.mem_cons_self)
  obtain ⟨lines, extra, rfl, hlines⟩ := exists_lines rest.length le_rfl (blank_line_behind hline hinside)
  exact ⟨⟨line, lines, extra, hline, hlines⟩, rfl⟩

end Head

/-! ### Handlers -/

section Handlers

variable {α β : Type} {request : HttpRequest} {engine : Engine}

theorem completes_map (p : GatewayCode α) (f : α → β) : Completes (p >>= fun a => ret (f a)) ↔ Completes p := by
  induction p with
  | ret a => exact iff_of_true ⟨f a, rfl⟩ ⟨a, rfl⟩
  | throw x =>
    refine iff_of_false ?_ ?_
    · rintro ⟨a, ha⟩
      cases ha
    · rintro ⟨a, ha⟩
      cases ha
  | call e k ih => exact forall_congr' fun r => forall_congr' fun _ => forall_congr' fun _ => ih r

theorem completes_pure (a : α) : Completes (ret a : GatewayCode α) := ⟨a, rfl⟩

theorem not_completes_throw (x : StdException) : ¬Completes (throw x : GatewayCode α) := by
  rintro ⟨a, ha⟩
  cases ha

/-- Where every search is carried out, only the priority can make the request fail. -/
theorem submitRequest_tireless (body : Bytes) :
    (∃ task, submitRequest body = .ok task) ↔
      ∀ digits, searchPriority body = some digits → digitsValue 10 digits < 2 ^ 31 := by
  obtain ⟨type, heq⟩ := submitRequest_eq body
  rw [heq]
  cases hsearch : searchPriority body with
  | none => exact iff_of_true ⟨_, rfl⟩ fun digits hdigits => by cases hdigits
  | some digits =>
    have hdigits : digits ≠ [] ∧ ∀ c ∈ digits, isDigit 10 c = true := by
      obtain ⟨rest, hrest⟩ := searchAfter_captured hsearch
      obtain ⟨found, -, hfound⟩ := Option.bind_eq_some_iff.1 hrest
      exact leadingDigits_spec hfound
    have hstoi := stoi_digits_iff hdigits.1 hdigits.2
    constructor
    · rintro ⟨task, htask⟩ digits' ⟨⟩
      refine hstoi.1 ?_
      cases hn : stoi 10 digits with
      | ok n => exact ⟨n, rfl⟩
      | error x =>
        rw [Option.map_some, Option.getD_some, hn] at htask
        cases htask
    · intro hfits
      obtain ⟨n, hn⟩ := hstoi.2 (hfits digits rfl)
      rw [Option.map_some, Option.getD_some, hn]
      exact ⟨_, rfl⟩

theorem submitRequest_ok_iff (body : Bytes) :
    (∃ task, submitRequest body engine = .ok task) ↔ RequestHead.Searchable engine body := by
  obtain ⟨hsame, hsearched⟩ := submitRequest_engine body engine
  constructor
  · rintro ⟨task, htask⟩
    have hends := hsearched task htask
    exact ⟨hends, (submitRequest_tireless body).1 ⟨task, (hsame hends).symm.trans htask⟩⟩
  · rintro ⟨hends, hfits⟩
    rw [hsame hends]
    exact (submitRequest_tireless body).2 hfits

theorem completes_handleSubmitTask (request : HttpRequest) (response : HttpResponse) :
    Completes (handleSubmitTask request response engine) ↔ ∃ task,
      submitRequest request.body engine = .ok task := by
  unfold handleSubmitTask
  cases submitRequest request.body engine with
  | error x =>
    refine iff_of_false (not_completes_throw x) ?_
    rintro ⟨task, htask⟩
    cases htask
  | ok task =>
    refine iff_of_true ?_ ⟨task, rfl⟩
    intro answer _ _
    cases answer with
    | ok reply => exact completes_pure _
    | error message => exact completes_pure _

theorem completes_handleGetStatus (request : HttpRequest) (response : HttpResponse) :
    Completes (handleGetStatus request response) := by
  unfold handleGetStatus
  dsimp only
  split
  · exact completes_pure _
  · intro answer _ _
    cases answer with
    | ok reply => exact completes_pure _
    | error message => exact completes_pure _

theorem completes_handleGetWorkers (response : HttpResponse) : Completes (handleGetWorkers response) := by
  intro answer _ _
  cases answer with
  | ok reply => exact completes_pure _
  | error message => exact completes_pure _

/-- Every request is handled, but a new task only with a body that can be searched. -/
theorem completes_handleRequest (request : HttpRequest) :
    Completes (handleRequest request engine) ↔
      (request.method = bytes "POST" → extractPath request.path = bytes "/task" →
        ∃ task, submitRequest request.body engine = .ok task) := by
  by_cases hpost : request.method = bytes "POST" ∧ extractPath request.path = bytes "/task"
  · have hget : ¬ (request.method = bytes "GET" ∧ extractPath request.path = bytes "/health") := by
      rintro ⟨hmethod, -⟩
      rw [hpost.1] at hmethod
      exact absurd hmethod (by decide)
    unfold handleRequest
    rw [if_neg hget, if_pos hpost, completes_handleSubmitTask]
    exact ⟨fun h _ _ => h, fun h => h hpost.1 hpost.2⟩
  · refine iff_of_true ?_ fun hmethod hpath => absurd ⟨hmethod, hpath⟩ hpost
    unfold handleRequest
    dsimp only
    rw [if_neg hpost]
    split
    · exact completes_pure _
    · split
      · exact completes_handleGetStatus _ _
      · split
        · exact completes_handleGetWorkers _
        · split
          · exact completes_pure _
          · split
            · exact completes_pure _
            · exact completes_pure _

end Handlers

/-! ### The connection -/

namespace RequestHead

variable {head : RequestHead} {later : Bytes} {n : Nat}

theorem readHeaders_headers (head : RequestHead) :
    readHeaders 0 head.headers = head.lines.foldlM readHeader 0 >>= fun n => .ok (n, head.extra) :=
  readHeaders_lines head.lines_line 0 head.extra

theorem readBody_body (h : n ≤ head.extra.length + later.length) :
    readBody n head.extra later = .ok (head.body n later) := by
  unfold readBody body
  by_cases hzero : n = 0
  · rw [if_pos hzero, hzero, if_neg (by omega), Nat.sub_zero, List.drop_length]
  · rw [if_neg hzero]
    dsimp only
    rw [if_neg (by omega)]
    by_cases hshort : head.extra.length < n
    · have htake : (head.extra ++ later).take n = head.extra ++ later.take (n - head.extra.length) := by
        rw [List.take_append, List.take_of_length_le hshort.le]
      have hlength : ((head.extra ++ later).take n).length = n := by
        rw [List.length_take, List.length_append]
        omega
      rw [if_pos hshort, ← htake, hlength, Nat.sub_self, List.drop_zero, List.take_of_length_le hlength.le]
    · have hnone : n - head.extra.length = 0 := by omega
      rw [if_neg hshort, hnone, List.take_zero, List.append_nil, List.take_of_length_le]
      rw [List.length_drop]
      omega

/-- The request that is handed to the handler. -/
theorem handleConnection_text (hsize : head.lines.foldlM readHeader 0 = .ok n)
    (hbody : readBody n head.extra later = .ok (head.body n later)) :
    handleConnection head.text later = .ok ⟨head.method, head.path, head.body n later⟩ := by
  unfold handleConnection
  rw [text, getline_append head.requestLine_line]
  simp only [Option.getD_some, readHeaders_headers, hsize]
  change (readBody n head.extra later >>= _) = _
  rw [hbody]
  rfl

/-- Once the body is there, only the searches and the priority of a new task can be in the way of the response. -/
theorem completes_serveConnection {engine : Engine} (hsize : head.lines.foldlM readHeader 0 = .ok n)
    (h : n ≤ head.extra.length + later.length) :
    Completes (serveConnection head.text later engine) ↔
      (head.method = bytes "POST" → extractPath head.path = bytes "/task" →
        Searchable engine (head.body n later)) := by
  unfold serveConnection
  rw [handleConnection_text hsize (readBody_body h), ofExcept_ok, ret_bind, ← submitRequest_ok_iff]
  exact (completes_map _ _).trans (completes_handleRequest _)

end RequestHead

/-- A buffer with a complete head is a request line, header lines and what follows the blank line.  If the peer
sends what it announces, the request gets its response, with a body that is not longer, exactly when it is
serviceable, whichever searches are carried out. -/
theorem answered_iff {buffered : Bytes} (hblank : bytes "\r\n\r\n" <:+: buffered) :
    (∃ head : RequestHead, head.text = buffered) ∧
    ∀ (head : RequestHead) (later : Bytes) (engine : Engine), head.text = buffered →
      head.announced ≤ head.extra.length + later.length →
        (Answered head later engine ↔ head.Serviceable later engine) := by
  refine ⟨exists_head hblank, fun head later engine _ hsent => ?_⟩
  unfold Answered RequestHead.Serviceable
  simp only [← foldlM_readHeader_iff]
  rw [head.readHeaders_headers]
  cases hsize : head.lines.foldlM readHeader 0 with
  | error x =>
    refine iff_of_false ?_ ?_
    · rintro ⟨⟨n, hn, -⟩, -⟩
      cases hn
    · rintro ⟨n, hn, -⟩
      cases hn
  | ok n =>
    constructor
    · rintro ⟨⟨n', hn', hle⟩, hrun⟩
      cases hn'
      exact ⟨n, rfl, hle, (RequestHead.completes_serveConnection hsize (hle.trans hsent)).1 hrun⟩
    · rintro ⟨n', hn', hle, hfits⟩
      cases hn'
      exact ⟨⟨n, rfl, hle⟩, (RequestHead.completes_serveConnection hsize (hle.trans hsent)).2 hfits⟩

private theorem task_line : 10 ∉ bytes "POST /task HTTP/1.1\r" := by decide

/-- A new task with one header line and a body that has come with it. -/
def taskHead (line body : Bytes) (h : 10 ∉ line ∧ line ≠ [13]) : RequestHead :=
  ⟨bytes "POST /task HTTP/1.1\r", [line], body, task_line, List.forall_mem_singleton.2 h⟩

/-- An engine that gives up on bodies of more than 30000 bytes. -/
def shortBodies : Engine := fun _ body => body.length ≤ 30000

theorem answered_iff_task :
    Answered (taskHead (bytes "Content-Length: 14\r") (bytes "\x7b\"priority\":1\x7d") (by decide))
      [] shortBodies := by
  refine ((answered_iff (by decide)).2 _ [] shortBodies rfl (by decide)).2
    ⟨14, (foldlM_readHeader_iff _ _).1 rfl, by decide, ?_⟩
  intro _ _
  refine ⟨by decide, ?_⟩
  intro digits hdigits
  have hfound : digits = bytes "1" := Option.some.inj (hdigits.symm.trans (by decide))
  rw [hfound]
  decide

/-- Everything that is announced has come, and there is no answer, although every search is carried out. -/
def Unanswered (head : RequestHead) : Prop := head.announced ≤ head.extra.length ∧ ¬Answered head [] tireless

/-- A length that is no number, one that is negative, and a priority that does not fit. -/
theorem unanswered_requests :
    Unanswered (taskHead (bytes "Content-Length: abc\r") [] (by decide)) ∧
    Unanswered (taskHead (bytes "Content-Length: -1\r") [] (by decide)) ∧
    Unanswered (taskHead (bytes "Content-Length: 24\r") (bytes "\x7b\"priority\":99999999999\x7d")
      (by decide)) := by
  refine ⟨⟨by decide, ?_⟩, ⟨by decide, ?_⟩, by decide, ?_⟩
  · rintro ⟨⟨n, hn, -⟩, -⟩
    have hsize : [bytes "Content-Length: abc\r"].foldlM readHeader 0 = .error .invalidArgument := by decide
    rw [RequestHead.readHeaders_headers, taskHead, hsize] at hn
    cases hn
  · rintro ⟨⟨n, hn, hle⟩, -⟩
    have hsize : [bytes "Content-Length: -1\r"].foldlM readHeader 0 = .ok (2 ^ 64 - 1) := by decide
    have hnone : (taskHead (bytes "Content-Length: -1\r") [] (by decide)).announced = 0 := by decide
    rw [RequestHead.readHeaders_headers, taskHead, hsize] at hn
    cases hn
    rw [hnone] at hle
    exact absurd hle (by decide)
  · rintro ⟨-, hrun⟩
    have hsize : [bytes "Content-Length: 24\r"].foldlM readHeader 0 = .ok 24 := by decide
    have hfits := ((RequestHead.completes_serveConnection hsize (by decide)).1 hrun (by decide) (by decide)).2
      (bytes "99999999999") (by decide)
    exact absurd hfits (by decide)

end Taskflow
