import Taskflow.Lib.Lines

/-!
# The framing of HTTP requests

`SimpleHttpServer::handleConnection` of `src/gateway.cpp`, up to the request that it hands to the handler.  The
size of the body is taken from the last header line that has the text `Content-Length:` anywhere in it, in this
spelling, and the body is the end of what is buffered.

`framed_iff`: which well-formed requests arrive as they were sent, for every way the bytes may have been buffered.
-/

namespace Taskflow

open Text

/-! ### The code -/

/-- `HttpRequest`; `handleConnection` sets no other member. -/
structure HttpRequest where
  method : Bytes
  path : Bytes
  body : Bytes
  deriving DecidableEq

/-- An `int` that becomes a `size_t`. -/
def toSize (n : Int32) : Nat := (n.toInt % 2 ^ 64).toNat

/-- `line.substr(line.find(':') + 1)` -/
def afterColon (line : Bytes) : Bytes := (line.dropWhile fun c => c ≠ 58).drop 1

/-- What the loop over the header lines does with one line. -/
def readHeader (bodySize : Nat) (line : Bytes) : Except StdException Nat := do
  if contains line (bytes "Content-Length:") && contains line (bytes ":") then
    let n ← stoi 10 (afterColon line)
    return toSize n
  return bodySize

/-- The loop over the header lines: the size of the body, and what is left in the buffer. -/
def readHeaders (bodySize : Nat) (buffer : Bytes) : Except StdException (Nat × Bytes) :=
  match h : getline buffer with
  | none => .ok (bodySize, [])
  | some (line, rest) =>
    have := getline_shorter h
    if line = [13] then .ok (bodySize, rest)
    else do
      let bodySize ← readHeader bodySize line
      readHeaders bodySize rest
termination_by buffer.length

/-- The end of `handleConnection`: the socket delivers what is missing in the buffer, or reading past its end
throws. -/
def readBody (bodySize : Nat) (buffer later : Bytes) : Except StdException Bytes :=
  if bodySize = 0 then .ok []
  else
    -- nothing is missing when the buffer has enough
    let missing := bodySize - buffer.length
    if later.length < missing then .error .runtimeError
    else
      let buffer := buffer ++ later.take missing
      .ok ((buffer.drop (buffer.length - bodySize)).take bodySize)

/-- `handleConnection`, when `read_until` has left `buffered` in the buffer and the socket will deliver `later`.  An
exception ends the connection, and no request is handled. -/
def handleConnection (buffered later : Bytes) : Except StdException HttpRequest := do
  let (requestLine, buffer) := (getline buffered).getD ([], [])
  let (method, parser) := extractWord requestLine
  let (path, _) := extractWord parser
  let (bodySize, buffer) ← readHeaders 0 buffer
  let body ← readBody bodySize buffer later
  return ⟨method, path, body⟩

/-! ### Requests -/

/-- A request as its sender writes it. -/
structure HttpMessage where
  method : Bytes
  path : Bytes
  headers : List (Bytes × Bytes)
  body : Bytes

namespace HttpMessage

/-- The header lines without the newlines that end them. -/
def lines (m : HttpMessage) : List Bytes := m.headers.map fun header =>
    header.1 ++ bytes ":" ++ header.2 ++ bytes "\r"

/-- The request line and the header lines, up to and with the blank line. -/
def head (m : HttpMessage) : Bytes :=
  m.method ++ bytes " " ++ m.path ++ bytes " HTTP/1.1\r\n" ++ (m.lines.flatMap fun line => line ++ bytes "\n") ++
    bytes "\r\n"

/-- A header field: its name is not empty and has no blank, colon or control character, and nothing ends the
line. -/
structure WellFormedHeader (name value : Bytes) : Prop where
  name_ne_nil : name ≠ []
  name_token : ∀ c ∈ name, isSpace c = false ∧ c ≠ 58
  value_line : ∀ c ∈ value, c ≠ 10 ∧ c ≠ 13

/-- Blanks, the decimal digits of `n`, blanks. -/
def DecimalValue (value : Bytes) (n : Nat) : Prop :=
  ∃ before digits after, value = before ++ digits ++ after ∧ (∀ c ∈ before ++ after, isBlank c = true) ∧
    digits ≠ [] ∧ (∀ c ∈ digits, isDigit 10 c = true) ∧ digitsValue 10 digits = n

/-- A request with one `Content-Length`, which gives the length of the body. -/
structure WellFormed (m : HttpMessage) : Prop where
  method_word : m.method ≠ [] ∧ ∀ c ∈ m.method, isSpace c = false
  path_word : m.path ≠ [] ∧ ∀ c ∈ m.path, isSpace c = false
  headers : ∀ header ∈ m.headers, WellFormedHeader header.1 header.2
  content_length : ∃ name value,
    (m.headers.filter fun header => lower header.1 = bytes "content-length") = [(name, value)] ∧
    DecimalValue value m.body.length

/-- The bytes on the wire, when `rest` follows the request: `read_until` has buffered some of them, at least up
to the blank line. -/
structure Arrives (m : HttpMessage) (rest buffered later : Bytes) : Prop where
  bytes : buffered ++ later = m.head ++ m.body ++ rest
  head : m.head <+: buffered

end HttpMessage

/-- The line has the text that the code looks for. -/
def Mentions (line : Bytes) : Prop := bytes "Content-Length:" <:+: line

instance (line : Bytes) : Decidable (Mentions line) := inferInstanceAs (Decidable (_ <:+: _))

/-- Every line that mentions a content length has a number behind its first colon, and the last one gives `n`. -/
def Announces (lines : List Bytes) (n : Nat) : Prop :=
  (∀ line ∈ lines, Mentions line → ∃ k, stoi 10 (afterColon line) = .ok k) ∧
    match (lines.filter fun line => decide (Mentions line)).getLast? with
    | none => n = 0
    | some line => ∃ k, stoi 10 (afterColon line) = .ok k ∧ toSize k = n

/-! ### The header lines -/

section Headers

variable {line rest : Bytes} {lines : List Bytes} {bodySize n : Nat}

theorem readHeader_of_mentions (h : Mentions line) (bodySize : Nat) :
    readHeader bodySize line = (stoi 10 (afterColon line)).map toSize := by
  have hcolon : bytes ":" <:+: line := List.IsInfix.trans (by decide) h
  have hboth : (contains line (bytes "Content-Length:") && contains line (bytes ":")) = true := by
    rw [Bool.and_eq_true]
    exact ⟨decide_eq_true h, decide_eq_true hcolon⟩
  rw [readHeader, if_pos hboth]
  cases stoi 10 (afterColon line) with
  | ok k => rfl
  | error x => rfl

theorem readHeader_of_not_mentions (h : ¬ Mentions line) (bodySize : Nat) :
    readHeader bodySize line = .ok bodySize := by
  have hnot : ¬ (contains line (bytes "Content-Length:") && contains line (bytes ":")) = true := by
    rw [Bool.and_eq_true]
    intro hboth
    exact h (of_decide_eq_true hboth.1)
  rw [readHeader, if_neg hnot]
  rfl

theorem readHeaders_line (hline : 10 ∉ line) (hne : line ≠ [13]) (bodySize : Nat) (rest : Bytes) :
    readHeaders bodySize (line ++ 10 :: rest) = readHeader bodySize line >>= fun n => readHeaders n rest := by
  rw [readHeaders]
  split
  · rename_i h
    rw [getline_append hline] at h
    cases h
  · rename_i line' rest' h
    rw [getline_append hline] at h
    cases h
    rw [if_neg hne]

theorem readHeaders_blank (bodySize : Nat) (rest : Bytes) :
    readHeaders bodySize (13 :: 10 :: rest) = .ok (bodySize, rest) := by
  have hblank : getline ([13] ++ 10 :: rest) = some ([13], rest) := getline_append (by decide) rest
  rw [readHeaders]
  split
  · rename_i h
    rw [List.singleton_append] at hblank
    rw [hblank] at h
    cases h
  · rename_i line' rest' h
    rw [List.singleton_append] at hblank
    rw [hblank] at h
    cases h
    rfl

/-- The loop goes through all lines up to the blank one. -/
theorem readHeaders_lines (hlines : ∀ line ∈ lines, 10 ∉ line ∧ line ≠ [13]) (bodySize : Nat) (rest : Bytes) :
    readHeaders bodySize ((lines.flatMap fun line => line ++ [10]) ++ 13 :: 10 :: rest) =
      lines.foldlM readHeader bodySize >>= fun n => .ok (n, rest) := by
  induction lines generalizing bodySize with
  | nil => exact readHeaders_blank bodySize rest
  | cons line lines ih =>
    obtain ⟨hline, hne⟩ := hlines line List.mem_cons_self
    have ih := ih fun l hl => hlines l (List.mem_cons_of_mem _ hl)
    rw [List.flatMap_cons, List.append_assoc, List.append_assoc, List.singleton_append, readHeaders_line hline hne,
      List.foldlM_cons, bind_assoc]
    exact congrArg _ (funext ih)

/-- The loop ends without an exception exactly when each line that mentions a content length has a number. -/
theorem foldlM_readHeader (lines : List Bytes) (bodySize : Nat) :
    (∃ n, lines.foldlM readHeader bodySize = .ok n) ↔
      ∀ line ∈ lines, Mentions line → ∃ k, stoi 10 (afterColon line) = .ok k := by
  induction lines generalizing bodySize with
  | nil => exact ⟨fun _ line hline => (nomatch hline), fun _ => ⟨bodySize, rfl⟩⟩
  | cons line lines ih =>
    rw [List.foldlM_cons, List.forall_mem_cons]
    by_cases hm : Mentions line
    · rw [readHeader_of_mentions hm]
      cases hk : stoi 10 (afterColon line) with
      | error x =>
        refine ⟨fun ⟨n, hn⟩ => (nomatch hn), fun ⟨h, _⟩ => ?_⟩
        obtain ⟨k, hk'⟩ := h hm
        cases hk'
      | ok k => exact (ih _).trans ⟨fun h => ⟨fun _ => ⟨k, rfl⟩, h⟩, fun h => h.2⟩
    · rw [readHeader_of_not_mentions hm]
      exact (ih _).trans ⟨fun h => ⟨fun h' => absurd h' hm, h⟩, fun h => h.2⟩

theorem foldlM_readHeader_iff (lines : List Bytes) (n : Nat) :
    lines.foldlM readHeader 0 = .ok n ↔ Announces lines n := by
  induction lines using List.reverseRecOn with
  | nil => exact ⟨fun h => ⟨fun _ hline => (nomatch hline), (Except.ok.inj h).symm⟩, fun h =>
      congrArg _ h.2.symm⟩
  | append_singleton lines line ih =>
    rw [List.foldlM_append]
    simp only [List.foldlM_cons, List.foldlM_nil, bind_pure]
    unfold Announces
    rw [List.forall_mem_append, List.filter_append, List.forall_mem_singleton]
    by_cases hm : Mentions line
    · -- the last line decides, if the loop gets there
      rw [List.filter_cons_of_pos (by simpa using hm), List.filter_nil, List.getLast?_concat]
      simp only [readHeader_of_mentions hm, ← foldlM_readHeader lines 0]
      cases hall : lines.foldlM readHeader 0 with
      | error x =>
        refine ⟨fun h => (nomatch h), fun h => ?_⟩
        obtain ⟨⟨⟨b, hb⟩, _⟩, _⟩ := h
        cases hb
      | ok b =>
        cases hk : stoi 10 (afterColon line) with
        | error x =>
          refine ⟨fun h => (nomatch h), fun h => ?_⟩
          obtain ⟨_, k, hk', _⟩ := h
          cases hk'
        | ok k =>
          constructor
          · intro h
            exact ⟨⟨⟨b, rfl⟩, fun _ => ⟨k, rfl⟩⟩, k, rfl, Except.ok.inj h⟩
          · rintro ⟨_, k', hk', hn⟩
            cases hk'
            exact congrArg Except.ok hn
    · rw [List.filter_cons_of_neg (by simpa using hm), List.filter_nil, List.append_nil]
      simp only [readHeader_of_not_mentions hm]
      have hsame : (lines.foldlM readHeader 0 >>= fun b => Except.ok b) = lines.foldlM readHeader 0 := bind_pure _
      rw [hsame, ih]
      exact ⟨fun h => ⟨⟨h.1, fun h' => absurd h' hm⟩, h.2⟩, fun h => ⟨h.1.1, h.2⟩⟩

end Headers

/-! ### The body -/

/-- What is buffered behind the blank line is part of the body, or the body with bytes behind it.  The code
takes the last bytes of it. -/
theorem readBody_iff {body rest extra later : Bytes} (hbytes : extra ++ later = body ++ rest) (size : Nat) :
    readBody size extra later = .ok body ↔ size = body.length ∧
      (body = [] ∨ extra.length ≤ body.length ∨ extra.drop (extra.length - body.length) = body) := by
  have htotal : extra.length + later.length = body.length + rest.length := by
    have := congrArg List.length hbytes
    rwa [List.length_append, List.length_append] at this
  unfold readBody
  by_cases hzero : size = 0
  · rw [if_pos hzero]
    constructor
    · intro h
      obtain rfl := Except.ok.inj h
      exact ⟨hzero, .inl rfl⟩
    · rintro ⟨hsize, -⟩
      rw [List.eq_nil_of_length_eq_zero (hsize.symm.trans hzero)]
  rw [if_neg hzero]
  dsimp only
  constructor
  · intro h
    split at h
    · cases h
    · rename_i hlater
      have hbody := Except.ok.inj h
      have hlength : (extra ++ later.take (size - extra.length)).length = extra.length + (size - extra.length) := by
        rw [List.length_append, List.length_take]
        omega
      have hsize : size = body.length := by
        rw [← hbody, List.length_take, List.length_drop, hlength]
        omega
      refine ⟨hsize, .inr ?_⟩
      by_cases henough : extra.length ≤ body.length
      · exact .inl henough
      · right
        have hmissing : size - extra.length = 0 := by omega
        rw [hmissing, List.take_zero, List.append_nil, hsize, List.take_of_length_le] at hbody
        · exact hbody
        · rw [List.length_drop]
          omega
  · rintro ⟨hsize, hcases⟩
    have hne : body ≠ [] := fun h => hzero (by rw [hsize, h, List.length_nil])
    have henough : ¬ later.length < size - extra.length := by omega
    rw [if_neg henough]
    refine congrArg Except.ok ?_
    rcases hcases with h | hle | hlast
    · exact absurd h hne
    · -- the buffer is filled up to the end of the body
      have hbuffer : extra ++ later.take (size - extra.length) = body := by
        have htake := congrArg (List.take size) hbytes
        rw [List.take_append, List.take_of_length_le (by omega), hsize, List.take_left] at htake
        rw [hsize]
        exact htake
      rw [hbuffer, hsize, Nat.sub_self, List.drop_zero, List.take_length]
    · by_cases hle : extra.length ≤ body.length
      · have hsame : extra = body := by
          rwa [Nat.sub_eq_zero_of_le hle, List.drop_zero] at hlast
        rw [hsame, hsize, Nat.sub_self, List.take_zero, List.append_nil, Nat.sub_self, List.drop_zero,
          List.take_length]
      · have hmissing : size - extra.length = 0 := by omega
        rw [hmissing, List.take_zero, List.append_nil, hsize, hlast, List.take_length]

/-! ### The whole request -/

namespace HttpMessage

variable {m : HttpMessage} {rest buffered later : Bytes}

theorem WellFormed.lines (h : m.WellFormed) : ∀ line ∈ m.lines, 10 ∉ line ∧ line ≠ [13] := by
  intro line hline
  obtain ⟨header, hheader, rfl⟩ := List.mem_map.1 hline
  have hwell := h.headers header hheader
  constructor
  · intro hmem
    simp only [List.mem_append] at hmem
    rcases hmem with ((hname | hcolon) | hvalue) | hend
    · exact absurd (hwell.name_token 10 hname).1 (by decide)
    · exact absurd hcolon (by decide)
    · exact (hwell.value_line 10 hvalue).1 rfl
    · exact absurd hend (by decide)
  · intro heq
    have hlength := congrArg List.length heq
    simp [bytes] at hlength
    omega

/-- Of a well-formed request the code gets the method and the path, and goes on to the headers and the body. -/
theorem WellFormed.handle (h : m.WellFormed) (extra later : Bytes) :
    handleConnection (m.head ++ extra) later = (m.lines.foldlM readHeader 0).bind fun bodySize =>
      (readBody bodySize extra later).map fun body => ⟨m.method, m.path, body⟩ := by
  have hplain : ∀ word : Bytes, (∀ c ∈ word, isSpace c = false) → 10 ∉ word := by
    intro word hword hmem
    exact absurd (hword 10 hmem) (by decide)
  have hhead : m.head ++ extra = (m.method ++ 32 :: (m.path ++ 32 :: bytes "HTTP/1.1\r")) ++ 10 ::
      ((m.lines.flatMap fun line => line ++ [10]) ++ 13 :: 10 :: extra) := by
    simp [head, bytes, List.append_assoc]
  have hline : 10 ∉ m.method ++ 32 :: (m.path ++ 32 :: bytes "HTTP/1.1\r") := by
    have hmethod := hplain _ h.method_word.2
    have hpath := hplain _ h.path_word.2
    simp [hmethod, hpath, bytes]
  rw [hhead, handleConnection, getline_append hline]
  simp only [Option.getD_some, extractWord_append h.method_word.2 h.method_word.1, extractWord_blank,
    extractWord_append h.path_word.2 h.path_word.1, readHeaders_lines h.lines, bind_assoc]
  refine congrArg _ (funext fun bodySize => ?_)
  change (readBody bodySize extra later).bind _ = _
  cases readBody bodySize extra later with
  | error x => rfl
  | ok body => rfl

end HttpMessage

open HttpMessage in
/-- A well-formed request arrives as it was sent exactly when the lines that mention `Content-Length:` announce
the length of its body, and what is buffered behind the blank line is no more than the body, or ends with a copy
of it. -/
theorem framed_iff {m : HttpMessage} {rest buffered later : Bytes} (h : m.WellFormed)
    (ha : m.Arrives rest buffered later) :
    handleConnection buffered later = .ok ⟨m.method, m.path, m.body⟩ ↔
      Announces m.lines m.body.length ∧
        let extra := buffered.drop m.head.length
        (m.body = [] ∨ extra.length ≤ m.body.length ∨ extra.drop (extra.length - m.body.length) = m.body) := by
  obtain ⟨extra, rfl⟩ := ha.head
  have hbytes : extra ++ later = m.body ++ rest := by
    have := ha.bytes
    rwa [List.append_assoc, List.append_assoc, List.append_cancel_left_eq] at this
  rw [h.handle, List.drop_left, ← foldlM_readHeader_iff]
  dsimp only
  cases hsize : m.lines.foldlM readHeader 0 with
  | error x => exact ⟨fun h => (nomatch h), fun h => (nomatch h.1)⟩
  | ok size =>
    rw [Except.ok.injEq, ← readBody_iff hbytes size]
    change (readBody size extra later).map _ = _ ↔ _
    cases readBody size extra later with
    | error x => exact ⟨fun h => (nomatch h), fun h => (nomatch h)⟩
    | ok body =>
      constructor
      · intro heq
        have hsame := congrArg HttpRequest.body (Except.ok.inj heq)
        exact congrArg Except.ok hsame
      · intro heq
        obtain rfl := Except.ok.inj heq
        rfl

/-- A request whose body has two bytes, under the given name for its length. -/
def twoBytes (name : Bytes) : HttpMessage where
  method := bytes "POST"
  path := bytes "/api/tasks"
  headers := [(bytes "Host", bytes " localhost"), (name, bytes " 2")]
  body := bytes "hi"

private theorem twoBytes_wellFormed {name : Bytes} (hname : ∀ c ∈ name, isSpace c = false ∧ c ≠ 58)
    (hlength : lower name = bytes "content-length") : (twoBytes name).WellFormed := by
  have hmethod : bytes "POST" ≠ [] ∧ ∀ c ∈ bytes "POST", isSpace c = false := by decide +kernel
  have hpath : bytes "/api/tasks" ≠ [] ∧ ∀ c ∈ bytes "/api/tasks", isSpace c = false := by decide +kernel
  have hhost : bytes "Host" ≠ [] ∧ ∀ c ∈ bytes "Host", isSpace c = false ∧ c ≠ 58 := by decide +kernel
  have hvalues : ∀ c ∈ bytes " localhost" ++ bytes " 2", c ≠ 10 ∧ c ≠ 13 := by decide +kernel
  have hother : lower (bytes "Host") ≠ bytes "content-length" := by decide +kernel
  refine ⟨hmethod, hpath, ?_, name, bytes " 2", by simp [twoBytes, hother, hlength], ?_⟩
  · intro header hheader
    simp only [twoBytes, List.mem_cons, List.not_mem_nil, or_false] at hheader
    rcases hheader with rfl | rfl
    · exact ⟨hhost.1, hhost.2, fun c hc => hvalues c (List.mem_append_left _ hc)⟩
    · refine ⟨?_, hname, fun c hc => hvalues c (List.mem_append_right _ hc)⟩
      rintro rfl
      cases hlength
  · have hdecimal : HttpMessage.DecimalValue (bytes " 2") 2 :=
      ⟨bytes " ", bytes "2", [], by decide +kernel, by decide +kernel, by decide +kernel, by decide +kernel,
        by decide +kernel⟩
    exact hdecimal

/-- One byte of the body comes with the head, the other one later. -/
theorem framed_iff_split :
    handleConnection ((twoBytes (bytes "Content-Length")).head ++ bytes "h") (bytes "i") =
      .ok ⟨bytes "POST", bytes "/api/tasks", bytes "hi"⟩ := by
  have hwell : (twoBytes (bytes "Content-Length")).WellFormed :=
    twoBytes_wellFormed (by decide +kernel) (by decide +kernel)
  have harrives : (twoBytes (bytes "Content-Length")).Arrives []
      ((twoBytes (bytes "Content-Length")).head ++ bytes "h") (bytes "i") :=
    ⟨by simp [twoBytes, bytes], List.prefix_append _ _⟩
  refine (framed_iff hwell harrives).2 ⟨(foldlM_readHeader_iff _ _).1 rfl, .inr (.inl ?_)⟩
  rw [List.drop_left]
  decide

/-- With its name in small letters the content length is not found, and the body is lost. -/
theorem small_letters_lose_body : ¬ ∀ (m : HttpMessage) (rest buffered later : Bytes), m.WellFormed →
    m.Arrives rest buffered later → handleConnection buffered later = .ok ⟨m.method, m.path, m.body⟩ := by
  intro h
  have hwell : (twoBytes (bytes "content-length")).WellFormed :=
    twoBytes_wellFormed (by decide +kernel) (by decide +kernel)
  have hrequest := h _ [] _ (bytes "hi") hwell ⟨by simp [twoBytes], List.prefix_append _ []⟩
  have hsize : (twoBytes (bytes "content-length")).lines.foldlM readHeader 0 = .ok 0 := rfl
  rw [hwell.handle, hsize] at hrequest
  have hbody := congrArg HttpRequest.body (Except.ok.inj hrequest)
  cases hbody

end Taskflow
