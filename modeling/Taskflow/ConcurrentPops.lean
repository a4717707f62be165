import Taskflow.Lib.Executions
import Taskflow.PriorityQueue

/-!
# Concurrent pops

Any number of pushes, pops and size queries, interleaved command by command (`queueSystem`).  A pop looks at the
three lists one after the other, at three moments.  Each list that it passes was empty when it looked, and what
it returns was at the head of its list when it looked; it is the head of all lists together if nothing was
pushed meanwhile onto a list that the pop had passed (`pop_inspects`).
-/

namespace Taskflow

open Text Effects Prog

/-- The calls, each on a connection of its own, and the lists before.  The ids are as the services make them. -/
structure QueueClients (ι : Type) where
  redis : ι → RedisClient
  connected : ∀ i, (redis i).connected = true
  call : ι → QueueCall
  valid : ∀ i, (call i).Valid
  initial : Keyspace
  items : ∀ q ∈ queueKeys, [] ∉ queueItems initial q

/-- Every thread makes one call. -/
def queueSystem (ι : Type) : System ι Effect Effect.Answer StdException QueueResult Keyspace Unit where
  sem := served False
  observe _ _ := ()
  fresh := ()
  again _ := none

def QueueClients.start {ι : Type} (clients : QueueClients ι) :
    Pool ι Effect Effect.Answer StdException QueueResult Keyspace Unit where
  world := clients.initial
  thread i := ⟨(clients.call i).code (clients.redis i), ()⟩

/-- The head of the first list that is not empty. -/
def headOfQueues (w : Keyspace) : Option Bytes := queueKeys.findSome? fun q => (queueItems w q).head?

abbrev QueueMoment (ι : Type) := Moment ι Effect Effect.Answer Keyspace

variable {ι : Type}

/-- An `LPOP` of this list. -/
def Inspects (m : QueueMoment ι) (q : Bytes) : Prop := ∃ context, m.event.1 = .command context (.lpop q)

/-- An `RPUSH` onto this list. -/
def PushesOnto (m : QueueMoment ι) (q : Bytes) : Prop := ∃ context x, m.event.1 = .command context (.rpush q x)

/-- An `LPOP` that finds the list empty. -/
def FindsEmpty (m : QueueMoment ι) (q : Bytes) : Prop := Inspects m q ∧ queueItems m.world q = []

/-- After thread `i` has looked at a list, an id was pushed onto it. -/
def PushedBehind (i : ι) (τ : List (QueueMoment ι)) (q : Bytes) : Prop :=
  ∃ before m between m' rest, τ = before ++ m :: (between ++ m' :: rest) ∧ m.thread = i ∧ Inspects m q ∧
    PushesOnto m' q

/-- Up to the last command of thread `i` nothing is pushed onto a list that it has looked at. -/
def NothingPushedBehind (i : ι) (τ : List (QueueMoment ι)) : Prop :=
  ∀ before m rest, τ = before ++ m :: rest → m.thread = i → ∀ q, ¬PushedBehind i before q

/-! ### One pop -/

/-- The cascade of `popFromPriorityQueue`, over any lists. -/
def popFrom (redis : RedisClient) : List Bytes → Code Bytes
  | [] => .ret []
  | q :: rest => do
    let taskId ← redis.lpop q
    if !taskId.isEmpty then return taskId
    popFrom redis rest

theorem popFromPriorityQueue_eq (redis : RedisClient) : redis.popFromPriorityQueue = popFrom redis queueKeys := by
  have hlast : popFrom redis [queueLow] = redis.lpop queueLow := by
    conv_rhs => rw [← bind_ret' (redis.lpop queueLow)]
    refine congrArg _ (funext fun taskId => ?_)
    cases taskId <;> rfl
  rw [RedisClient.popFromPriorityQueue, ← hlast]
  rfl

section Does

variable {redis : RedisClient} {α : Type} {a : α}

/-- A program that starts with `LPOP`. -/
theorem lpop_does (hc : redis.connected = true) {q : Bytes} (hq : q ∈ queueKeys) {f : Bytes → Code α}
    {τ : List (QueueMoment ι)} (hitems : ∀ m ∈ τ, [] ∉ queueItems m.world q)
    (h : (redis.lpop q >>= f).Does (served False) τ (.ret a)) :
    ∃ m rest x, τ = m :: rest ∧ Inspects m q ∧ (queueItems m.world q).head? = x ∧
      (f (x.getD [])).Does (served False) rest (.ret a) ∧ x ≠ some [] := by
  rw [lpop_eq hc, cStr_queue hq, call_bind] at h
  cases τ with
  | nil => cases h
  | cons m rest =>
    obtain ⟨r, w', hevent, hs, hrest⟩ := h
    have hinspects : Inspects m q := ⟨redis.context, by rw [hevent]⟩
    have hnone := hitems m List.mem_cons_self
    obtain ⟨rfl, -, hok⟩ : r = some (exec (.lpop q) m.world).1 ∧ w' = (exec (.lpop q) m.world).2 ∧
        (exec (.lpop q) m.world).1.isError = false := served_command hs
    dsimp only [ret_bind] at hrest
    rcases exec_lpop (isQueue_of_ok (x := []) (.inr hok)) with ⟨x, hx, hhead, -⟩ | ⟨hx, -, hempty⟩
    · rw [hx] at hrest
      refine ⟨m, rest, some x, rfl, hinspects, by rw [hhead]; rfl, hrest, ?_⟩
      rintro ⟨⟩
      exact hnone (hhead ▸ List.mem_cons_self)
    · rw [hx] at hrest
      exact ⟨m, rest, none, rfl, hinspects, by rw [hempty]; rfl, hrest, fun h => nomatch h⟩

/-- A pop passes the lists that it finds empty, and takes the head of the first one that it does not. -/
theorem popFrom_does (hc : redis.connected = true) {queues : List Bytes} (hqueues : ∀ q ∈ queues, q ∈ queueKeys)
    {x : Bytes} {τ : List (QueueMoment ι)} (hitems : ∀ q ∈ queues, ∀ m ∈ τ, [] ∉ queueItems m.world q)
    (h : (popFrom redis queues).Does (served False) τ (.ret x)) :
    (∃ higher q lower before m, queues = higher ++ q :: lower ∧ τ = before ++ [m] ∧
        List.Forall₂ FindsEmpty before higher ∧ Inspects m q ∧
        (queueItems m.world q).head? = some x ∧ x ≠ []) ∨
      x = [] ∧ List.Forall₂ FindsEmpty τ queues := by
  induction queues generalizing τ with
  | nil =>
    cases τ with
    | nil =>
      cases h
      exact .inr ⟨rfl, .nil⟩
    | cons m rest => exact h.elim
  | cons q queues ih =>
    rw [List.forall_mem_cons] at hqueues hitems
    obtain ⟨m, rest, text, rfl, hinspects, hhead, hrest, hne⟩ := lpop_does hc hqueues.1 hitems.1 h
    cases text with
    | none =>
      have hempty : queueItems m.world q = [] := List.head?_eq_none_iff.1 hhead
      have hthere : ∀ q ∈ queues, ∀ m ∈ rest, [] ∉ queueItems m.world q :=
        fun q hq m hm => hitems.2 q hq m (List.mem_cons_of_mem _ hm)
      rcases ih hqueues.2 hthere hrest with ⟨higher, q', lower, before, m', rfl, rfl, hbefore,
        hlast⟩ | ⟨hx, hall⟩
      · exact .inl ⟨q :: higher, q', lower, m :: before, m', rfl, rfl,
          .cons ⟨hinspects, hempty⟩ hbefore, hlast⟩
      · exact .inr ⟨hx, .cons ⟨hinspects, hempty⟩ hall⟩
    | some text =>
      have hfull : text ≠ [] := fun he => hne (by rw [he])
      rw [Option.getD_some, if_pos (by simpa using hfull)] at hrest
      cases rest with
      | nil =>
        obtain rfl : text = x := by
          cases hrest
          rfl
        exact .inl ⟨[], q, queues, [], m, rfl, rfl, .nil, hinspects, hhead, hfull⟩
      | cons m' rest => exact hrest.elim

end Does

/-! ### What the others may do meanwhile -/

/-- The commands of the calls push no empty text. -/
def PushesText (cmd : Command) : Prop := ∀ key x, cmd = .rpush key x → x ≠ []

theorem queueCall_pushesText (redis : RedisClient) {call : QueueCall} (hcall : call.Valid) :
    (call.code redis).Every (Commands PushesText) := by
  have hother : ∀ {cmd : Command}, (∀ key x, cmd ≠ .rpush key x) → PushesText cmd :=
    fun h key x he => absurd he (h key x)
  have hsize : ∀ priority, (getQueueSize priority).Every (Commands PushesText) := by
    intro priority
    refine .bind ⟨trivial, fun _ => trivial⟩ fun r => ?_
    cases r with
    | none => trivial
    | some redis =>
      refine .bind ?_ fun size => ⟨trivial, fun _ => trivial⟩
      refine .ite trivial ?_
      exact ⟨hother fun _ _ h => (nomatch h), fun _ => trivial⟩
  cases call with
  | push priority taskId =>
    have hid : ValidId taskId := hcall
    refine .bind (commands_of_only (pushToPriorityQueue_only ?_)) fun _ => trivial
    rintro key x ⟨⟩
    rw [cStr_of_noNul hid.noNul]
    exact hid.nonempty
  | pop =>
    refine .bind (commands_of_only (popFromPriorityQueue_only fun q _ => ?_)) fun _ => trivial
    exact hother fun _ _ h => nomatch h
  | size priority => exact .bind (hsize priority) fun _ => trivial
  | totalSize =>
    refine .bind ?_ fun _ => trivial
    exact .bind (hsize 2) fun _ => .bind (hsize 1) fun _ => .bind (hsize 0) fun _ => trivial

section Runs

variable [DecidableEq ι] {clients : QueueClients ι} {τ : List (QueueMoment ι)}
  {P : Pool ι Effect Effect.Answer StdException QueueResult Keyspace Unit} {i : ι}

/-- An effect adds nothing to a list, unless it is an `RPUSH`. -/
theorem mem_of_served {e : Effect} {w w' : Keyspace} {r : e.Answer} (hs : served False e w r w') {q x : Bytes}
    (hx : x ∈ queueItems w' q) : x ∈ queueItems w q ∨ ∃ context, e = .command context (.rpush q x) := by
  rcases (served_serves False).changes hs with rfl | ⟨context, cmd, rfl, rfl⟩
  · exact .inl hx
  · refine (mem_queueItems_exec hx).imp_right ?_
    rintro rfl
    exact ⟨context, rfl⟩

/-- There is never an empty text in a list. -/
theorem QueueClients.no_empty_text (h : Execution (queueSystem ι) clients.start τ P) :
    (∀ q ∈ queueKeys, ∀ m ∈ τ, [] ∉ queueItems m.world q) ∧ ∀ q ∈ queueKeys,
      [] ∉ queueItems P.world q := by
  have hstart : ∀ i, (clients.start.thread i).prog.Every (Commands PushesText) :=
    fun i => queueCall_pushesText _ (clients.valid i)
  induction h with
  | start => exact ⟨fun _ _ _ hm => (nomatch hm), clients.items⟩
  | @exec τ P e k r w h i hp hs ih =>
    refine ⟨fun q hq m hm => ?_, fun q hq hmem => ?_⟩
    · rcases List.mem_append.1 hm with hm | hm
      · exact ih.1 q hq m hm
      · rw [List.mem_singleton.1 hm]
        exact ih.2 q hq
    · rcases mem_of_served hs hmem with hold | ⟨context, rfl⟩
      · exact ih.2 q hq hold
      · have hcall := (h.every (F := fun _ => Commands PushesText) hstart fun _ _ hb => nomatch hb).2 i
        rw [hp] at hcall
        exact hcall.1 q [] rfl rfl
  | again h i hp hb => cases hb

/-- A list that a pop has found empty is empty until something is pushed onto it. -/
theorem QueueClients.still_empty (h : Execution (queueSystem ι) clients.start τ P) {q : Bytes} {m : QueueMoment ι}
    (hm : m ∈ τ) (hi : m.thread = i) (hempty : FindsEmpty m q) (hnone : ¬PushedBehind i τ q) :
    queueItems P.world q = [] := by
  induction h with
  | start => cases hm
  | @exec τ P e k r w h j hp hs ih =>
    have hold : queueItems P.world q = [] := by
      rcases List.mem_append.1 hm with hm | hm
      · refine ih hm fun hpushed => hnone ?_
        obtain ⟨before, m₁, between, m₂, rest, rfl, hrest⟩ := hpushed
        exact ⟨before, m₁, between, m₂, rest ++ [⟨P.world, j, e, r⟩], by simp, hrest⟩
      · rw [List.mem_singleton.1 hm] at hempty
        exact hempty.2
    refine List.eq_nil_iff_forall_not_mem.2 fun x hx => ?_
    rcases mem_of_served hs hx with hmem | ⟨context, rfl⟩
    · rw [hold] at hmem
      cases hmem
    · rcases List.mem_append.1 hm with hm | hm
      · obtain ⟨before, between, rfl⟩ := List.append_of_mem hm
        exact hnone ⟨before, m, between, ⟨P.world, j, _, r⟩, [], by simp, hi, hempty.1, context, x, rfl⟩
      · obtain ⟨context', hlpop⟩ := hempty.1
        rw [List.mem_singleton.1 hm] at hlpop
        cases hlpop
  | again h i hp hb => cases hb

omit [DecidableEq ι] in
private theorem exists_of_forall₂ {moments : List (QueueMoment ι)} {queues : List Bytes}
    (h : List.Forall₂ FindsEmpty moments queues) : ∀ q ∈ queues, ∃ m ∈ moments, FindsEmpty m q := by
  induction h with
  | nil => exact fun _ hq => nomatch hq
  | cons hempty _ ih =>
    rw [List.forall_mem_cons]
    refine ⟨⟨_, List.mem_cons_self, hempty⟩, fun q hq => ?_⟩
    obtain ⟨m, hm, hempty⟩ := ih q hq
    exact ⟨m, List.mem_cons_of_mem _ hm, hempty⟩

/-- The lists that a pop has passed are empty at its last command, if nothing was pushed behind it. -/
theorem QueueClients.passed_empty (h : Execution (queueSystem ι) clients.start τ P)
    (hnone : NothingPushedBehind i τ)
    {before : List (QueueMoment ι)} {m : QueueMoment ι} {higher : List Bytes} (hown : own i τ = before ++ [m])
    (hbefore : List.Forall₂ FindsEmpty before higher) : ∀ q ∈ higher, queueItems m.world q = [] := by
  intro q hq
  obtain ⟨τ₁, τ₂, rfl, hτ₁, hτ₂⟩ := List.filter_eq_append_iff.1 hown
  obtain ⟨τ₃, τ₄, rfl, -, hm, -⟩ := List.filter_eq_cons_iff.1 hτ₂
  obtain ⟨Q, hQ, hworld⟩ := h.before (List.append_assoc τ₁ τ₃ (m :: τ₄)).symm
  have hlast : m.thread = i := by simpa using hm
  obtain ⟨m', hm', hempty⟩ := exists_of_forall₂ hbefore q hq
  rw [← hτ₁, List.mem_filter] at hm'
  have hstill := QueueClients.still_empty hQ (List.mem_append_left _ hm'.1) (by simpa using hm'.2) hempty
    (hnone _ _ _ (List.append_assoc τ₁ τ₃ (m :: τ₄)).symm hlast q)
  rwa [hworld] at hstill

theorem headOfQueues_eq {w : Keyspace} {higher lower : List Bytes} {q x : Bytes}
    (hqueues : queueKeys = higher ++ q :: lower) (hempty : ∀ q ∈ higher, queueItems w q = [])
    (hhead : (queueItems w q).head? = some x) : headOfQueues w = some x := by
  have hskip : higher.findSome? (fun q => (queueItems w q).head?) = none := by
    rw [List.findSome?_eq_none_iff]
    intro q hq
    rw [hempty q hq]
    rfl
  rw [headOfQueues, hqueues, List.findSome?_append, hskip, List.findSome?_cons, hhead]
  rfl

/-- A pop passes lists that are empty at the moment it looks at them, one after the other, and returns what is
at the head of the next one at that moment, or nothing if all three were empty.  If nothing is pushed onto a
list that it has passed before it ends, then at its last moment it takes the head of all lists. -/
theorem pop_inspects (h : Execution (queueSystem ι) clients.start τ P) (hcall : clients.call i = .pop) {x : Bytes}
    (hret : (P.thread i).prog = .ret (.popped x)) :
    ((∃ higher q lower before m, queueKeys = higher ++ q :: lower ∧ own i τ = before ++ [m] ∧
        List.Forall₂ FindsEmpty before higher ∧ Inspects m q ∧
        (queueItems m.world q).head? = some x ∧ x ≠ []) ∨
      x = [] ∧ List.Forall₂ FindsEmpty (own i τ) queueKeys) ∧
    (NothingPushedBehind i τ → ∃ m ∈ own i τ, headOfQueues m.world = if x = [] then none else some x) := by
  have hdoes := h.does (i := i) rfl
  have hstart : (clients.start.thread i).prog = popFrom (clients.redis i) queueKeys >>= fun x =>
      .ret (.popped x) := by
    rw [← popFromPriorityQueue_eq]
    show (clients.call i).code (clients.redis i) = _
    rw [hcall]
    rfl
  rw [hret, hstart] at hdoes
  obtain ⟨y, hpopped, hy⟩ := hdoes.of_map
  obtain rfl := QueueResult.popped.inj hy
  have hitems : ∀ q ∈ queueKeys, ∀ m ∈ own i τ, [] ∉ queueItems m.world q :=
    fun q hq m hm => (QueueClients.no_empty_text h).1 q hq m (List.mem_of_mem_filter hm)
  have hpop := popFrom_does (clients.connected i) (fun _ hq => hq) hitems hpopped
  refine ⟨hpop, fun hnone => ?_⟩
  rcases hpop with ⟨higher, q, lower, before, m, hqueues, hown, hbefore, -, hhead, hne⟩ | ⟨rfl, hall⟩
  · refine ⟨m, by rw [hown]; simp, ?_⟩
    rw [if_neg hne]
    exact headOfQueues_eq hqueues (QueueClients.passed_empty h hnone hown hbefore) hhead
  · -- the moments of the three commands
    obtain ⟨m₁, own₁, hhigh, hall₁, hown⟩ := List.forall₂_cons_right_iff.1 hall
    obtain ⟨m₂, own₂, hmedium, hall₂, rfl⟩ := List.forall₂_cons_right_iff.1 hall₁
    obtain ⟨m₃, own₃, hlow, hall₃, rfl⟩ := List.forall₂_cons_right_iff.1 hall₂
    obtain rfl := List.forall₂_nil_right_iff.1 hall₃
    have hpassed := QueueClients.passed_empty h hnone (show own i τ = [m₁, m₂] ++ [m₃] from hown)
      (.cons hhigh (.cons hmedium .nil))
    refine ⟨m₃, by rw [hown]; simp, ?_⟩
    have hnohigh := hpassed queueHigh (by simp)
    have hnomedium := hpassed queueMedium (by simp)
    simp only [headOfQueues, queueKeys, List.findSome?_cons, hnohigh, hnomedium, hlow.2, List.head?_nil,
      List.findSome?_nil, if_true]

end Runs

/-! ### Pops that are overtaken -/

/-- Two pushes while a pop is under way. -/
def twoPushes : QueueClients (Fin 4) where
  redis i := ⟨i, true⟩
  connected _ := rfl
  call := ![.pop, .push 2 (bytes "1"), .push 1 (bytes "2"), .totalSize]
  valid i := by
    fin_cases i
    · trivial
    · exact ⟨by decide, by decide⟩
    · exact ⟨by decide, by decide⟩
    · trivial
  initial := ∅
  items q _ := by simp [queueItems]

/-- A push and a pop while another pop is under way. -/
def twoPops : QueueClients (Fin 4) where
  redis i := ⟨i, true⟩
  connected _ := rfl
  call := ![.pop, .push 2 (bytes "1"), .pop, .totalSize]
  valid i := by
    fin_cases i
    · trivial
    · exact ⟨by decide, by decide⟩
    · trivial
    · trivial
  initial := (∅ : Keyspace).insert queueLow (.list [bytes "3"])
  items := by decide

private def poppedId : Code QueueResult → Option Bytes
  | .ret (.popped x) => some x
  | _ => none

private theorem eq_of_poppedId {p : Code QueueResult} {x : Bytes} (h : poppedId p = some x) :
    p = .ret (.popped x) := by
  unfold poppedId at h
  split at h
  · rw [Option.some.inj h]
  · cases h

private def pushesOne : Effect → Bool
  | .command _ (.rpush _ _) => true
  | _ => false

/-- Another pop looks at the high list while one takes `3`, and nothing is pushed. -/
theorem pop_inspects_twoPops : ∃ τ P, Execution (queueSystem (Fin 4)) twoPops.start τ P ∧
    (P.thread 0).prog = .ret (.popped (bytes "3")) ∧ ∃ m ∈ own 0 τ, headOfQueues m.world = some (bytes "3") := by
  have hplay : (twoPops.start.play (queueSystem (Fin 4)) (fun _ _ _ _ => true) (answer (fun _ => false) [])
      [0, 2, 0, 0]).map (fun run => (poppedId (run.2.thread 0).prog, run.1.any fun m => pushesOne m.event.1)) =
        some (some (bytes "3"), false) := by
    decide +kernel
  obtain ⟨⟨τ, P⟩, hP, heq⟩ := Option.map_eq_some_iff.1 hplay
  rw [Prod.mk.injEq] at heq
  obtain ⟨hx, hquiet⟩ := heq
  have hτ := Execution.start.play answer_fault_free hP
  rw [List.nil_append] at hτ
  have hret := eq_of_poppedId hx
  refine ⟨τ, P, hτ, hret, ?_⟩
  obtain ⟨-, hhead⟩ := pop_inspects hτ rfl hret
  rw [if_neg (by decide)] at hhead
  refine hhead ?_
  rintro before m rest rfl - q ⟨before', m', between, m'', rest', rfl, -, -, context, x, hpush⟩
  rw [List.any_eq_false] at hquiet
  refine hquiet m'' (by simp) ?_
  rw [hpush]
  rfl

/-- A pop of thread `0`: what it returns, and whether that was the head at some instant of the run. -/
private def popped (clients : QueueClients (Fin 4)) (schedule : List (Fin 4)) : Option (Option Bytes × Bool) :=
  (clients.start.play (queueSystem (Fin 4)) (fun _ _ _ _ => true)
      (answer (fun _ => false) []) schedule).map fun run =>
    let x := poppedId (run.2.thread 0).prog
    (x, (run.1.map (·.world) ++ [run.2.world]).any fun w => headOfQueues w = x.filter (!·.isEmpty))

private theorem popped_execution (clients : QueueClients (Fin 4)) (schedule : List (Fin 4)) (x : Bytes)
    (h : popped clients schedule = some (some x, false)) :
    ∃ τ P, Execution (queueSystem (Fin 4)) clients.start τ P ∧ (P.thread 0).prog = .ret (.popped x) ∧
      ∀ w, w = P.world ∨ (∃ m ∈ τ, m.world = w) → headOfQueues w ≠ if x = [] then none else some x := by
  obtain ⟨⟨τ, P⟩, hplay, heq⟩ := Option.map_eq_some_iff.1 h
  rw [Prod.mk.injEq] at heq
  obtain ⟨hx, hnever⟩ := heq
  have hτ := Execution.start.play answer_fault_free hplay
  refine ⟨τ, P, hτ, eq_of_poppedId hx, fun w hw hhead => ?_⟩
  rw [hx, List.any_eq_false] at hnever
  have hfilter : (some x).filter (fun x => !x.isEmpty) = if x = [] then none else some x := by
    cases x <;> rfl
  refine hnever w ?_ (by rw [hfilter, hhead, decide_eq_true_eq])
  rcases hw with rfl | ⟨m, hm, rfl⟩
  · simp
  · exact List.mem_append_left _ (List.mem_map_of_mem hm)

/-- A pop that passes the empty high list, before `1` is pushed there and then `2` onto the medium list, returns
`2`; and one that passes two empty lists while `3` waits in the low one, before `1` is pushed onto the high list
and another pop takes `3`, returns nothing. -/
theorem pop_overtaken :
    (¬∀ (clients : QueueClients (Fin 4)) τ P i x, Execution (queueSystem (Fin 4)) clients.start τ P →
      clients.call i = .pop → (P.thread i).prog = .ret (.popped x) → x ≠ [] →
        ∃ w, (w = P.world ∨ ∃ m ∈ τ, m.world = w) ∧ headOfQueues w = some x) ∧
    ¬∀ (clients : QueueClients (Fin 4)) τ P i, Execution (queueSystem (Fin 4)) clients.start τ P →
      clients.call i = .pop → (P.thread i).prog = .ret (.popped []) →
        ∃ w, (w = P.world ∨ ∃ m ∈ τ, m.world = w) ∧ headOfQueues w = none := by
  constructor
  · intro h
    obtain ⟨τ, P, hτ, hret, hnever⟩ := popped_execution twoPushes [0, 1, 2, 0] (bytes "2") (by decide +kernel)
    obtain ⟨w, hw, hhead⟩ := h _ τ P 0 _ hτ rfl hret (by decide)
    exact hnever w hw hhead
  · intro h
    obtain ⟨τ, P, hτ, hret, hnever⟩ := popped_execution twoPops [0, 0, 2, 2, 1, 2, 0] [] (by decide +kernel)
    obtain ⟨w, hw, hhead⟩ := h _ τ P 0 hτ rfl hret
    exact hnever w hw hhead

end Taskflow
