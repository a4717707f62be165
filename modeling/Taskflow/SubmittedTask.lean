import Taskflow.HttpHandler

/-!
# Tasks submitted over HTTP

What `HttpHandler::handleSubmitTask` reads out of a JSON body with a task.  The three searches find their fields
in any order of the members and with any white space, and the type and the priority get to the scheduler.  The
data does not: `set_data` is called a second time, with the whole body (`submitted_data_lost`).
-/

namespace Taskflow

open Text Effects Prog

/-! ### Bodies -/

def JsonBlank (s : Bytes) : Prop := ∀ c ∈ s, isJsonSpace c = true

instance (s : Bytes) : Decidable (JsonBlank s) := List.decidableBAll (fun c => isJsonSpace c = true) s

/-- A string that nothing in it has to be escaped. -/
def jsonString (s : Bytes) : Bytes := 34 :: (s ++ [34])

inductive FieldValue where
  | text (s : Bytes)
  | number (n : Nat)
  deriving DecidableEq

namespace FieldValue

def written : FieldValue → Bytes
  | text s => jsonString s
  | number n => natDecimal n

/-- What a search is to capture. -/
def content : FieldValue → Bytes
  | text s => s
  | number n => natDecimal n

end FieldValue

/-- A member of an object, and the white space around its parts. -/
structure JsonMember where
  lead : Bytes
  name : Bytes
  before : Bytes
  after : Bytes
  value : FieldValue
  trail : Bytes

namespace JsonMember

def text (m : JsonMember) : Bytes :=
  m.lead ++ jsonString m.name ++ m.before ++ bytes ":" ++ m.after ++ m.value.written ++ m.trail

structure WellFormed (m : JsonMember) : Prop where
  blank : JsonBlank m.lead ∧ JsonBlank m.before ∧ JsonBlank m.after ∧ JsonBlank m.trail
  name_plain : 34 ∉ m.name
  value_plain : ∀ s, m.value = .text s → 34 ∉ s

end JsonMember

/-- The members with a comma between them, and the brace that ends the object. -/
def membersText : List JsonMember → Bytes
  | [] => bytes "\x7d"
  | [m] => m.text ++ bytes "\x7d"
  | m :: next :: members => m.text ++ bytes "," ++ membersText (next :: members)

structure SubmittedTask where
  type : TaskType
  priority : Nat
  data : Bytes
  priority_le : priority ≤ 2
  data_ne_nil : data ≠ []
  data_plain : 34 ∉ data ∧ 92 ∉ data

def TaskType.jsonName : TaskType → Bytes
  | ORDER_DISPATCH => bytes "order"
  | PERSONNEL_SCHEDULE => bytes "personnel"
  | MESSAGE_NOTIFY => bytes "message"
  | DATA_STATS => bytes "stats"

namespace SubmittedTask

def fields (task : SubmittedTask) : List (Bytes × FieldValue) :=
  [(bytes "type", .text task.type.jsonName), (bytes "priority", .number task.priority),
    (bytes "data", .text task.data)]

/-- The request that the submitter means. -/
def request (task : SubmittedTask) : SubmitTaskRequest := ⟨task.type, Int32.ofNat task.priority, task.data⟩

/-- An object with the fields of the task, in any order and with any white space. -/
structure Body (task : SubmittedTask) where
  before : Bytes
  members : List JsonMember
  after : Bytes
  blank : JsonBlank before ∧ JsonBlank after
  wellFormed : ∀ m ∈ members, m.WellFormed
  fields : (members.map fun m => (m.name, m.value)).Perm task.fields

def Body.text {task : SubmittedTask} (body : task.Body) : Bytes :=
  body.before ++ bytes "\x7b" ++ membersText body.members ++ body.after

end SubmittedTask

/-- Somewhere in the text there is a member with this name and this value. -/
def HasMember (text name value : Bytes) : Prop :=
  ∃ start before after rest, JsonBlank before ∧ JsonBlank after ∧
    text = start ++ jsonString name ++ before ++ bytes ":" ++ after ++ value ++ rest

/-- In every run the program makes one call to the scheduler, which submits this task. -/
def Submits (p : GatewayCode HttpResponse) (request : SubmitTaskRequest) : Prop :=
  ∀ τ o, Run anyAnswer p () τ o () → τ.map (·.1) = [.submitTask request]

/-! ### Searching an object -/

section Search

variable {name : Bytes} {capture : Bytes → Option Bytes} {c d : UInt8} {s : Bytes}

theorem JsonBlank.cases (h : JsonBlank s) (hc : c ∈ s) : c = 32 ∨ c = 9 ∨ c = 10 ∨ c = 13 := by
  simpa [isJsonSpace, or_assoc] using h c hc

theorem JsonBlank.isSpace (h : JsonBlank s) : ∀ c ∈ s, isSpace c = true := by
  intro c hc
  rcases h.cases hc with rfl | rfl | rfl | rfl
  · decide
  · decide
  · decide
  · decide

theorem JsonBlank.not_mem (h : JsonBlank s) (hc : Text.isSpace c = false) : c ∉ s := by
  intro hmem
  rw [h.isSpace c hmem] at hc
  cases hc

/-- What the names of the fields and the three searches have in common: a name begins with a letter, and nothing is
captured where no colon stands behind it. -/
structure Searchable (name : Bytes) (capture : Bytes → Option Bytes) : Prop where
  plain : 34 ∉ name
  letter : ∃ d t, name = d :: t ∧ Text.isSpace d = false ∧ d ≠ 58 ∧ d ≠ 44 ∧ d ≠ 125
  no_colon : ∀ {trail c}, JsonBlank trail → Text.isSpace c = false → c ≠ 58 → ∀ rest,
    capture (trail ++ c :: rest) = none

/-- Behind a closing quote there is white space, a colon, a comma or a brace. -/
theorem Searchable.not_prefix (h : Searchable name capture) (hs : JsonBlank s) (hc : c = 58 ∨ c = 44 ∨ c = 125)
    (rest : Bytes) : ¬jsonString name <+: 34 :: (s ++ c :: rest) := by
  obtain ⟨d, t, rfl, hspace, h58, h44, h125⟩ := h.letter
  rintro ⟨u, hu⟩
  have htail : d :: (t ++ [34] ++ u) = s ++ c :: rest := by simpa [jsonString] using hu
  cases s with
  | nil =>
    obtain rfl := (List.cons.inj htail).1
    rcases hc with hc | hc | hc
    · exact h58 hc
    · exact h44 hc
    · exact h125 hc
  | cons e s =>
    obtain rfl := (List.cons.inj htail).1
    exact hs.not_mem hspace List.mem_cons_self

theorem isSpace_end (hc : c = 44 ∨ c = 125) : Text.isSpace c = false := by
  rcases hc with rfl | rfl
  · decide
  · decide

/-- The text of a member with what follows it, in the order in which it is searched. -/
theorem JsonMember.text_append (m : JsonMember) (rest : Bytes) :
    m.text ++ rest = m.lead ++ (34 :: (m.name ++ 34 :: (m.before ++ 58 :: (m.after ++ (m.value.written ++
      (m.trail ++ rest)))))) := by
  have hcolon : bytes ":" = [58] := rfl
  simp [text, jsonString, hcolon]

theorem not_mem_natDecimal (n : Nat) : 34 ∉ natDecimal n := by
  intro h
  exact absurd (isDigit_of_mem_natDecimal h) (by decide)

/-- A member with another name is skipped, also when its value is the name. -/
theorem search_other {m : JsonMember} (h : Searchable name capture) (hm : m.WellFormed) (hne : m.name ≠ name)
    (hc : c = 44 ∨ c = 125) (rest : Bytes) :
    searchAfter (jsonString name) capture (m.text ++ c :: rest) = searchAfter (jsonString name) capture rest := by
  obtain ⟨hlead, hbefore, hafter, htrail⟩ := hm.blank
  have hquote : Text.isSpace 34 = false := by decide
  have hend : 34 ∉ m.trail ++ [c] := by
    rw [List.mem_append, not_or, List.mem_singleton]
    refine ⟨htrail.not_mem hquote, ?_⟩
    rcases hc with rfl | rfl
    · decide
    · decide
  have hcolon : 34 ∉ m.before ++ 58 :: m.after := by
    simp [hbefore.not_mem hquote, hafter.not_mem hquote]
  have hskip : searchAfter (jsonString name) capture (m.trail ++ c :: rest) =
      searchAfter (jsonString name) capture rest := by
    rw [List.append_cons]
    exact searchAfter_skip hend
  have hmiddle : ∀ t, searchAfter (jsonString name) capture (m.before ++ 58 :: (m.after ++ t)) =
      searchAfter (jsonString name) capture t := by
    intro t
    have hsplit : m.before ++ 58 :: (m.after ++ t) = m.before ++ 58 :: m.after ++ t := by simp
    rw [hsplit]
    exact searchAfter_skip hcolon
  rw [m.text_append, jsonString, searchAfter_skip (hlead.not_mem hquote),
    searchAfter_quoted h.plain hm.name_plain (fun heq _ => absurd heq hne) (h.not_prefix hbefore (.inl rfl) _),
    ← jsonString, hmiddle]
  cases hvalue : m.value with
  | text s =>
    have hclose := h.not_prefix htrail (.inr hc) rest
    have hnone : capture (m.trail ++ c :: rest) = none :=
      h.no_colon htrail (isSpace_end hc) (by rcases hc with rfl | rfl <;> decide) rest
    have hwritten : (FieldValue.text s).written ++ (m.trail ++ c :: rest) =
        34 :: (s ++ 34 :: (m.trail ++ c :: rest)) := by
      simp [FieldValue.written, jsonString]
    rw [hwritten, ← hskip]
    exact searchAfter_quoted h.plain (hm.value_plain s hvalue) (fun _ _ => hnone) hclose
  | number n =>
    rw [← hskip]
    exact searchAfter_skip (not_mem_natDecimal n)

/-- The member that is looked for. -/
theorem search_found {m : JsonMember} (hm : m.WellFormed) (hname : m.name = name) {found : Bytes} (rest : Bytes)
    (hfound : capture (m.before ++ 58 :: (m.after ++ (m.value.written ++ (m.trail ++ rest)))) = some found) :
    searchAfter (jsonString name) capture (m.text ++ rest) = some found := by
  have hquote : Text.isSpace 34 = false := by decide
  have hhead : ∀ t : Bytes, 34 :: (m.name ++ 34 :: t) = jsonString name ++ t := by
    intro t
    simp [jsonString, hname]
  rw [m.text_append, hhead, jsonString, searchAfter_skip (hm.blank.1.not_mem hquote), ← jsonString]
  exact searchAfter_here (by simp [jsonString]) hfound

/-- The search goes through the members up to the one with the name. -/
theorem search_members {members : List JsonMember} {value : FieldValue} (h : Searchable name capture)
    (hwell : ∀ m ∈ members, m.WellFormed) (hvalue : ∀ m ∈ members, m.name = name → m.value = value)
    (hmem : ∃ m ∈ members, m.name = name) (hfound : ∀ {before after trail c}, JsonBlank before →
      JsonBlank after →
      JsonBlank trail → c = 44 ∨ c = 125 → ∀ rest,
      capture (before ++ 58 :: (after ++ (value.written ++ (trail ++ c :: rest)))) = some value.content)
    (rest : Bytes) :
    searchAfter (jsonString name) capture (membersText members ++ rest) = some value.content := by
  have hhere : ∀ m ∈ members, m.name = name → ∀ c, c = 44 ∨ c = 125 → ∀ rest,
      searchAfter (jsonString name) capture (m.text ++ c :: rest) = some value.content := by
    intro m hm hname c hc rest
    have hblank := (hwell m hm).blank
    refine search_found (hwell m hm) hname (c :: rest) ?_
    rw [hvalue m hm hname]
    exact hfound hblank.2.1 hblank.2.2.1 hblank.2.2.2 hc rest
  induction members with
  | nil =>
    obtain ⟨m, hm, -⟩ := hmem
    cases hm
  | cons m members ih =>
    have hm := hwell m List.mem_cons_self
    cases members with
    | nil =>
      have hname : m.name = name := by simpa using hmem
      have htext : membersText [m] ++ rest = m.text ++ 125 :: rest := by
        have hbrace : bytes "\x7d" = [125] := rfl
        simp [membersText, hbrace]
      rw [htext]
      exact hhere m List.mem_cons_self hname 125 (.inr rfl) rest
    | cons next members =>
      have htext : membersText (m :: next :: members) ++ rest =
          m.text ++ 44 :: (membersText (next :: members) ++ rest) := by
        have hcomma : bytes "," = [44] := rfl
        simp [membersText, hcomma]
      rw [htext]
      by_cases hname : m.name = name
      · exact hhere m List.mem_cons_self hname 44 (.inl rfl) _
      · rw [search_other h hm hname (.inl rfl)]
        refine ih (fun m' hm' => hwell m' (List.mem_cons_of_mem _ hm'))
          (fun m' hm' => hvalue m' (List.mem_cons_of_mem _ hm')) ?_
          (fun m' hm' => hhere m' (List.mem_cons_of_mem _ hm'))
        obtain ⟨m', hm', hname'⟩ := hmem
        rcases List.mem_cons.1 hm' with rfl | hm'
        · exact absurd hname' hname
        · exact ⟨m', hm', hname'⟩

theorem stringField_text {before after : Bytes} (hbefore : JsonBlank before)
    (hafter : JsonBlank after) (hs : 34 ∉ s) (hne : s ≠ []) (rest : Bytes) :
    stringField (before ++ 58 :: (after ++ (jsonString s ++ rest))) = some s := by
  have hquote : Text.isSpace 34 = false := by decide
  have htext : jsonString s ++ rest = 34 :: (s ++ 34 :: rest) := by simp [jsonString]
  rw [htext, stringField, spacedColon_append hbefore.isSpace hafter.isSpace hquote]
  simp [expect, untilQuoteNonempty, untilQuote_append hs, hne]

theorem numberField_digits {before after trail : Bytes} (hbefore : JsonBlank before) (hafter : JsonBlank after)
    (htrail : JsonBlank trail) (hc : c = 44 ∨ c = 125) (n : Nat) (rest : Bytes) :
    numberField (before ++ 58 :: (after ++ (natDecimal n ++ (trail ++ c :: rest)))) = some (natDecimal n) := by
  -- what follows the digits is not a digit
  obtain ⟨d, t, hd, hstop⟩ : ∃ d t, trail ++ c :: rest = d :: t ∧ isDigit 10 d = false := by
    cases trail with
    | nil =>
      refine ⟨c, rest, rfl, ?_⟩
      rcases hc with rfl | rfl
      · decide
      · decide
    | cons d trail =>
      refine ⟨d, trail ++ c :: rest, rfl, ?_⟩
      rcases htrail.cases List.mem_cons_self with rfl | rfl | rfl | rfl
      · decide
      · decide
      · decide
      · decide
  obtain ⟨e, u, he, hspace⟩ : ∃ e u, natDecimal n = e :: u ∧ Text.isSpace e = false := by
    cases hn : natDecimal n with
    | nil => exact absurd hn (natDecimal_ne_nil n)
    | cons e u =>
      have hdigit := digit_toNat (isDigit_of_mem_natDecimal (n := n) (c := e) (by simp [hn]))
      refine ⟨e, u, rfl, ?_⟩
      rw [Text.isSpace, Bool.or_eq_false_iff, decide_eq_false_iff_not, Bool.and_eq_false_iff]
      refine ⟨?_, .inr (by rw [decide_eq_false_iff_not]; omega)⟩
      rintro rfl
      exact absurd hdigit.1 (by decide)
  have hcolon := spacedColon_append hbefore.isSpace hafter.isSpace hspace (u ++ d :: t)
  have hdigits := leadingDigits_append n hstop t
  rw [he] at hdigits
  rw [hd, numberField, he, List.cons_append, hcolon]
  exact hdigits

theorem searchable_type : Searchable (bytes "type") stringField where
  plain := by decide
  letter := ⟨116, bytes "ype", rfl, by decide, by decide, by decide, by decide⟩
  no_colon htrail hspace hcolon rest := by
    rw [stringField, spacedColon_eq_none htrail.isSpace hspace hcolon]
    rfl

theorem searchable_data : Searchable (bytes "data") stringField where
  plain := by decide
  letter := ⟨100, bytes "ata", rfl, by decide, by decide, by decide, by decide⟩
  no_colon := searchable_type.no_colon

theorem searchable_priority : Searchable (bytes "priority") numberField where
  plain := by decide
  letter := ⟨112, bytes "riority", rfl, by decide, by decide, by decide, by decide⟩
  no_colon htrail hspace hcolon rest := by
    rw [numberField, spacedColon_eq_none htrail.isSpace hspace hcolon]
    rfl

end Search

/-! ### The request -/

namespace SubmittedTask

variable {task : SubmittedTask}

theorem type_plain (type : TaskType) : 34 ∉ type.jsonName ∧ type.jsonName ≠ [] := by
  cases type with
  | ORDER_DISPATCH => decide
  | PERSONNEL_SCHEDULE => decide
  | MESSAGE_NOTIFY => decide
  | DATA_STATS => decide

theorem Body.mem_fields (body : task.Body) {m : JsonMember} (hm : m ∈ body.members) :
    (m.name, m.value) ∈ task.fields := body.fields.subset (List.mem_map_of_mem hm)

theorem Body.exists_member (body : task.Body) {name : Bytes} {value : FieldValue}
    (h : (name, value) ∈ task.fields) :
    ∃ m ∈ body.members, m.name = name := by
  obtain ⟨m, hm, heq⟩ := List.mem_map.1 (body.fields.symm.subset h)
  exact ⟨m, hm, congrArg Prod.fst heq⟩

/-- The fields have different names. -/
theorem fields_value {name : Bytes} {value value' : FieldValue} (h : (name, value) ∈ task.fields)
    (h' : (name, value') ∈ task.fields) : value' = value := by
  have hnames : bytes "type" ≠ bytes "priority" ∧ bytes "type" ≠ bytes "data" ∧
      bytes "priority" ≠ bytes "data" := by
    decide
  obtain ⟨htp, htd, hpd⟩ := hnames
  simp only [fields, List.mem_cons, List.not_mem_nil, or_false, Prod.mk.injEq] at h h'
  rcases h with ⟨rfl, rfl⟩ | ⟨rfl, rfl⟩ | ⟨rfl, rfl⟩
  · simpa [htp, htd] using h'
  · simpa [htp.symm, hpd] using h'
  · simpa [htd.symm, hpd.symm] using h'

/-- A search for a field of the task finds what the body has in it. -/
theorem Body.search (body : task.Body) (name : Bytes) (value : FieldValue) {capture : Bytes → Option Bytes}
    (h : Searchable name capture) (hfield : (name, value) ∈ task.fields)
    (hfound : ∀ {before after trail c}, JsonBlank before → JsonBlank after → JsonBlank trail →
      c = 44 ∨ c = 125 →
      ∀ rest, capture (before ++ 58 :: (after ++ (value.written ++ (trail ++ c :: rest)))) = some value.content) :
    searchAfter (jsonString name) capture body.text = some value.content := by
  have hopen : 34 ∉ body.before ++ bytes "\x7b" := by
    simp [body.blank.1.not_mem (c := 34) (by decide), bytes]
  have hvalue : ∀ m ∈ body.members, m.name = name → m.value = value := by
    rintro m hm rfl
    exact fields_value hfield (body.mem_fields hm)
  rw [Body.text, List.append_assoc, jsonString, searchAfter_skip hopen, ← jsonString]
  exact search_members h body.wellFormed hvalue (body.exists_member hfield) hfound body.after

theorem Body.searchType (body : task.Body) : searchType body.text = some task.type.jsonName := by
  refine body.search (bytes "type") (.text task.type.jsonName) searchable_type (by simp [SubmittedTask.fields]) ?_
  intro before after trail c hbefore hafter _ _ rest
  exact stringField_text hbefore hafter (type_plain task.type).1 (type_plain task.type).2 _

theorem Body.searchPriority (body : task.Body) : searchPriority body.text = some (natDecimal task.priority) := by
  refine body.search (bytes "priority")
    (.number task.priority) searchable_priority (by simp [SubmittedTask.fields]) ?_
  intro before after trail c hbefore hafter htrail hc rest
  exact numberField_digits hbefore hafter htrail hc task.priority rest

theorem Body.searchData (body : task.Body) : searchData body.text = some task.data := by
  refine body.search (bytes "data") (.text task.data) searchable_data (by simp [SubmittedTask.fields]) ?_
  intro before after trail c hbefore hafter _ _ rest
  exact stringField_text hbefore hafter task.data_plain.1 task.data_ne_nil _

theorem setType_jsonName (request : SubmitTaskRequest) (type : TaskType) :
    request.setType type.jsonName = { request with type := type } := by
  cases type with
  | ORDER_DISPATCH => rfl
  | PERSONNEL_SCHEDULE => rfl
  | MESSAGE_NOTIFY => rfl
  | DATA_STATS => rfl

theorem stoi_priority {n : Nat} (h : n ≤ 2) : stoi 10 (natDecimal n) = .ok (Int32.ofNat n) := by
  interval_cases n
  · decide
  · decide
  · decide

/-- All three fields are found, and the data that was found is overwritten. -/
theorem Body.submitRequest (body : task.Body) :
    submitRequest body.text = .ok ⟨task.type, Int32.ofNat task.priority, body.text⟩ := by
  unfold Taskflow.submitRequest
  rw [body.searchType, body.searchPriority, body.searchData]
  simp only [search_tireless, Bind.bind, Except.bind]
  rw [stoi_priority task.priority_le, setType_jsonName]
  rfl

end SubmittedTask

/-- What the scheduler gets is what the handler makes of the body. -/
theorem submits_iff (request : HttpRequest) (response : HttpResponse) (task : SubmitTaskRequest) :
    Submits (handleSubmitTask request response) task ↔ submitRequest request.body = .ok task := by
  have hrun : ∀ made, submitRequest request.body = .ok made → Submits (handleSubmitTask request response) made := by
    intro made hmade τ o hrun
    refine wp.run (S := anyAnswer) (Q := fun τ _ _ => τ.map (·.1) = [.submitTask made]) ?_ hrun
    unfold handleSubmitTask
    rw [hmade]
    intro answer _ _
    cases answer with
    | ok reply => rfl
    | error message => rfl
  refine ⟨fun h => ?_, hrun task⟩
  cases hmade : submitRequest request.body with
  | error x =>
    have hthrow : handleSubmitTask request response = .throw x := by
      unfold handleSubmitTask
      rw [hmade]
      rfl
    have hevents := h [] (.error x) (hthrow ▸ .throw x ())
    cases hevents
  | ok made =>
    obtain ⟨τ, o, ⟨⟩, hsome⟩ := exists_run anyAnswer_total (handleSubmitTask request response) ()
    have hboth := (hrun made hmade τ o hsome).symm.trans (h τ o hsome)
    cases hboth
    rfl

theorem HasMember.quote_mem {text name value : Bytes} (h : HasMember text name value) : 34 ∈ text := by
  obtain ⟨start, before, after, rest, -, -, rfl⟩ := h
  simp [jsonString]

theorem not_submits_data {request : HttpRequest} {task : SubmitTaskRequest} (hquote : 34 ∈ request.body)
    (hdata : 34 ∉ task.data) (response : HttpResponse) : ¬Submits (handleSubmitTask request response) task := by
  intro h
  rw [submitRequest_data ((submits_iff request response task).1 h)] at hdata
  exact hdata hquote

/-- Whatever else a body with a data field holds, the data does not get to the scheduler.  For a body with the three
fields in any order and with any white space, the type and the priority do, and the data is the whole body. -/
theorem submitted_data_lost (request : HttpRequest) (response : HttpResponse) :
    (∀ (type : TaskType) (priority : Int32) (data : Bytes),
      HasMember request.body (bytes "data") (jsonString data) → 34 ∉ data →
      ¬Submits (handleSubmitTask request response) ⟨type, priority, data⟩) ∧
    ∀ (task : SubmittedTask) (body : task.Body), request.body = body.text →
      Submits (handleSubmitTask request response) ⟨task.type, Int32.ofNat task.priority, body.text⟩ ∧
        ¬Submits (handleSubmitTask request response) task.request := by
  constructor
  · intro type priority data hmember hdata
    exact not_submits_data hmember.quote_mem hdata response
  · intro task body hbody
    have hquote : 34 ∈ request.body := by
      rw [hbody]
      by_contra hnone
      have hfound := body.searchType
      rw [searchType, ← List.append_nil body.text] at hfound
      have hskip : searchAfter (bytes "\"type\"") stringField (body.text ++ []) = none := searchAfter_skip hnone
      rw [hskip] at hfound
      cases hfound
    constructor
    · rw [submits_iff, hbody]
      exact body.submitRequest
    · exact not_submits_data hquote task.data_plain.1 response

private theorem type_is_data : bytes "type" ≠ [] ∧ 34 ∉ bytes "type" ∧ 92 ∉ bytes "type" := by decide

/-- An order whose data is the name of a field. -/
def anOrder : SubmittedTask where
  type := .ORDER_DISPATCH
  priority := 1
  data := bytes "type"
  priority_le := Nat.le_succ 1
  data_ne_nil := type_is_data.1
  data_plain := type_is_data.2

/-- Its members, the data first. -/
def orderMembers : List JsonMember :=
  [⟨[], bytes "data", [], bytes " ", .text (bytes "type"), []⟩,
    ⟨bytes " ", bytes "priority", [], [], .number 1, []⟩,
    ⟨[], bytes "type", bytes "\n", [], .text (bytes "order"), []⟩]

private theorem orderMembers_wellFormed : ∀ m ∈ orderMembers, m.WellFormed := by
  intro m hm
  simp only [orderMembers, List.mem_cons, List.not_mem_nil, or_false] at hm
  rcases hm with rfl | rfl | rfl
  · exact ⟨by decide, by decide, by rintro s ⟨⟩; decide⟩
  · exact ⟨by decide, by decide, by rintro s ⟨⟩⟩
  · exact ⟨by decide, by decide, by rintro s ⟨⟩; decide⟩

private theorem blank_nil : JsonBlank [] := by decide

private theorem orderMembers_fields : (orderMembers.map fun m => (m.name, m.value)).Perm anOrder.fields :=
  List.reverse_perm anOrder.fields

def orderBody : anOrder.Body :=
  ⟨[], orderMembers, [], ⟨blank_nil, blank_nil⟩, orderMembers_wellFormed, orderMembers_fields⟩

/-- The answer that is filled in. -/
def blankResponse : HttpResponse := ⟨404, bytes "Not Found", ∅⟩

theorem submitted_data_lost_order :
    Submits (handleSubmitTask ⟨bytes "POST", bytes "/task", orderBody.text⟩ blankResponse)
      ⟨.ORDER_DISPATCH, 1, orderBody.text⟩ :=
  ((submitted_data_lost _ blankResponse).2 anOrder orderBody rfl).1

/-- The whole body is sent as the data. -/
theorem body_sent_as_data : ¬∀ (task : SubmittedTask) (body : task.Body) (request : HttpRequest),
    request.body = body.text → Submits (handleSubmitTask request blankResponse) task.request := by
  intro h
  have hsent := h anOrder orderBody ⟨bytes "POST", bytes "/task", orderBody.text⟩ rfl
  exact not_submits_data (by decide) (by decide) blankResponse hsent

end Taskflow
