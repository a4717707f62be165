import Taskflow.Scheduler

/-!
# Failures during an iteration of the dispatch loop

`LPOP` takes the id out of Redis, and until the loop has pushed it back or stored status and worker only a local
variable holds it; where the reply of the `LPOP` is lost, nobody does.  The loop ignores what its commands
answer, so it goes on after a failure.  The log of a run says what became of each command.
`dispatch_keeps_task_iff` says for every state that the scheduler can reach, and every pattern of failures,
which of the popped ids are in a list or assigned at the end of the iteration; in a state where the id waits
only once and is not assigned, that is when the reply of the `LPOP` arrives and the second connection, the
`RPUSH` and the `HSET`s of status and worker succeed.
-/

namespace Taskflow

open Text Effects Prog

abbrev Trace := List (Event Effect Effect.Answer)

/-! ### What became of the commands of an iteration -/

/-- The ids that the loop received. -/
def pops (τ : Trace) : List Bytes :=
  τ.filterMap fun
    | ⟨.command _ (.lpop _), r⟩ => if replyText r = [] then none else some (replyText r)
    | _ => none

/-- Some call of `getConnection` returned `nullptr`. -/
def connectionFailed (τ : Trace) : Bool :=
  τ.any fun
    | ⟨.getConnection, r⟩ => r.isNone
    | _ => false

/-- The id that an `LPOP` took out, whether its reply arrived or not. -/
def Sent.taken (x : Sent) : Option Bytes :=
  match x.command, x.reply with
  | .lpop _, .string i => if x.fate = .refused ∨ i = [] then none else some i
  | _, _ => none

/-- The ids that were popped. -/
def removedIds (l : List Sent) : List Bytes := l.filterMap Sent.taken

/-- Some command of this kind was not executed. -/
def refused (kind : Command → Bool) (l : List Sent) : Bool := l.any fun x => kind x.command && x.fate == .refused

/-- Some command of this kind was executed, and its reply was lost. -/
def replyLost (kind : Command → Bool) (l : List Sent) : Bool := l.any fun x => kind x.command && x.fate == .lost

def isPush : Command → Bool
  | .rpush _ _ => true
  | _ => false

def isPop : Command → Bool
  | .lpop _ => true
  | _ => false

/-- `HSET` of this field. -/
def storesTo (field : Bytes) : Command → Bool
  | .hset _ f _ => decide (f = field)
  | _ => false

section Traces

variable (τ τ' : Trace) (l l' : List Sent)

@[simp] theorem pops_append : pops (τ ++ τ') = pops τ ++ pops τ' := List.filterMap_append

@[simp] theorem connectionFailed_append :
    connectionFailed (τ ++ τ') = (connectionFailed τ || connectionFailed τ') := List.any_append

@[simp] theorem removedIds_append : removedIds (l ++ l') = removedIds l ++ removedIds l' := List.filterMap_append

@[simp] theorem refused_append (kind : Command → Bool) :
    refused kind (l ++ l') = (refused kind l || refused kind l') := List.any_append

/-- Nothing was popped, and nothing failed that the outcome depends on. -/
structure Calm : Prop where
  pops : pops τ = []
  popped : removedIds l = []
  connection : connectionFailed τ = false
  push : refused isPush l = false
  store : ∀ field, refused (storesTo field) l = false

variable {τ τ' l l'}

theorem Calm.append (h : Calm τ l) (h' : Calm τ' l') : Calm (τ ++ τ') (l ++ l') := by
  constructor
  · rw [pops_append, h.pops, h'.pops]; rfl
  · rw [removedIds_append, h.popped, h'.popped]; rfl
  · rw [connectionFailed_append, h.connection, h'.connection]; rfl
  · rw [refused_append, h.push, h'.push]; rfl
  · intro field
    rw [refused_append, h.store, h'.store]; rfl

theorem Calm.nil : Calm [] [] := ⟨rfl, rfl, rfl, rfl, fun _ => rfl⟩

/-- An effect that is no command. -/
theorem Calm.silent {e : Effect} {r : e.Answer} (hcommand : ∀ context cmd, e ≠ .command context cmd)
    (hconnection : e ≠ .getConnection) : Calm [⟨e, r⟩] [] := by
  cases e with
  | command context cmd => exact absurd rfl (hcommand context cmd)
  | getConnection => exact absurd rfl hconnection
  | _ => exact ⟨rfl, rfl, rfl, rfl, fun _ => rfl⟩

end Traces

/-! ### Records and lists after one command -/

/-- The place of a task is as before: its occurrences in the lists and its record. -/
structure Untouched (i : Bytes) (w w' : Keyspace) : Prop where
  occurrences : occurrences w' i = occurrences w i
  record : ∀ field, recordText w' i field = recordText w i field

theorem Untouched.refl (i : Bytes) (w : Keyspace) : Untouched i w w := ⟨rfl, fun _ => rfl⟩

theorem Untouched.trans {i : Bytes} {w w' w'' : Keyspace} (h : Untouched i w w') (h' : Untouched i w' w'') :
    Untouched i w w'' :=
  ⟨h'.occurrences.trans h.occurrences, fun field => (h'.record field).trans (h.record field)⟩

section Outcomes

variable {w w' : Keyspace} {c : Nat} {i : Bytes} {r : Option Reply} {fate : Fate}

theorem succeeded_of_failed (h : r = none ∨ r = some .error) : succeeded r = false := by
  rcases h with rfl | rfl <;> rfl

theorem succeeded_of_ok {reply : Reply} (h : reply.isError = false) : succeeded (some reply) = true := by
  simp [succeeded, h]

/-- A command leaves the other keys alone, whatever becomes of it. -/
theorem Delivered.frame {cmd : Command} (hd : Delivered cmd w fate r w') {a : Bytes} (h : cmd.key ≠ a) :
    w'[a]? = w[a]? := by
  rcases hd.world with ⟨-, rfl⟩ | ⟨-, rfl, -⟩
  · rfl
  · exact exec_frame cmd w h

/-- A command on a key of neither the queues nor this task. -/
theorem Delivered.untouched {cmd : Command} (hd : Delivered cmd w fate r w') (hq : ∀ q ∈ queueKeys, cmd.key ≠ q)
    (hi : cmd.key ≠ taskKey i) : Untouched i w w' :=
  ⟨occurrences_congr (fun q hm => hd.frame (hq q hm)) i, recordText_congr (hd.frame hi)⟩

/-- `HSET` of a field stores the value or is refused. -/
theorem recordText_hset {field value : Bytes}
    (hd : Delivered (.hset (taskKey i) field value) w fate r w') (g : Bytes) :
    recordText w' i g = if fate ≠ .refused ∧ field = g then value else recordText w i g := by
  rcases hd.world with ⟨rfl, rfl⟩ | ⟨hfate, rfl, hok⟩
  · simp
  · rw [recordText_exec_hset, hok]
    by_cases he : field = g <;> simp [he, hfate]

/-- An `HSET` of a record leaves the lists and the other tasks alone. -/
theorem occurrences_hset {field value j : Bytes} (hd : Delivered (.hset (taskKey i) field value) w fate r w') :
    occurrences w' j = occurrences w j :=
  occurrences_congr (fun _ hq => hd.frame (taskKey_ne_queue hq i)) j

theorem untouched_hset {field value j : Bytes} (hne : j ≠ i)
    (hd : Delivered (.hset (taskKey i) field value) w fate r w') : Untouched j w w' :=
  hd.untouched (fun _ hq => taskKey_ne_queue hq i) (fun he => hne (taskKey_injective he).symm)

/-- `RPUSH` of the id appends it or is refused. -/
theorem occurrences_rpush {q j : Bytes} (hw : WellFormed w) (hq : q ∈ queueKeys)
    (hd : Delivered (.rpush q i) w fate r w') :
    occurrences w' j = occurrences w j + if fate ≠ .refused ∧ i = j then 1 else 0 := by
  rcases hd.world with ⟨rfl, rfl⟩ | ⟨hfate, rfl, -⟩
  · simp
  · rw [(appended_rpush hq (hw.queues q hq)).occurrences j]
    simp [hfate]

end Outcomes

/-! ### The parts of an iteration -/

section Parts

variable {w : Keyspace} {i : Bytes} {redis : RedisClient} {faulty : Prop}

theorem wp_declareTaskInfo : (accounted faulty).wp declareTaskInfo
    (fun τ l o w' => w' = w ∧ Calm τ l ∧ ∃ task, o = .ok task) w := by
  rintro stack w' _ ⟨hs, rfl⟩
  exact ⟨hs, .silent nofun nofun, _, rfl⟩

/-- Reading a task never throws: what is stored is readable, and a failed `HGETALL` reads as no record. -/
theorem wp_getTask (hw : WellFormed w) (hc : redis.connected = true) (hi : 0 ∉ i) :
    (accounted faulty).wp (redis.getTask i)
      (fun τ l o w' => w' = w ∧ Calm τ l ∧ ∃ task, o = .ok task ∧ task.id = i) w := by
  refine Account.wp.bind wp_declareTaskInfo ?_ (fun τ l x w' h => by obtain ⟨-, -, task, ho⟩ := h; cases ho)
  rintro τ l declared w' ⟨rfl, hcalm, -⟩
  rw [hgetall_eq hc, cStr_taskKey hi, call_bind]
  intro r w'' _ hs
  obtain rfl : w'' = w' := served_reads rfl (served_of_accounted hs)
  have hreadable : Readable (replyFields r) := by
    rcases served_reply (served_of_accounted hs) with ⟨rfl, -, -⟩ | ⟨-, rfl | rfl⟩
    · cases hrec : w''[taskKey i]? with
      | none =>
        intro f _ v hv
        simp [exec, hrec, replyFields, pairElements] at hv
      | some v =>
        obtain ⟨h, rfl, hh⟩ := hw.records i v hrec
        rw [replyFields_hgetall hrec]
        exact hh
    · exact fun f _ v hv => by simp [replyFields] at hv
    · exact fun f _ v hv => by simp [replyFields] at hv
  obtain ⟨fate, -, -, rfl⟩ := hs
  have hread : Calm [⟨.command redis.context (.hgetall (taskKey i)), r⟩]
      [⟨.hgetall (taskKey i), fate, (exec (.hgetall (taskKey i)) w'').1⟩] := ⟨rfl, rfl, rfl, rfl, fun _ => rfl⟩
  have hall := hcalm.append hread
  simp only [ret_bind]
  split
  · exact ⟨rfl, hall, _, rfl, rfl⟩
  · obtain ⟨task, htask⟩ := hreadable.readFields { declared with id := i }
    rw [htask]
    exact ⟨rfl, hall, task, rfl, readFields_id htask⟩

/-! ### Popping -/

/-- What `popNextTask` does when it gives the id `i`, or nothing: each id that was taken out is in the lists so many
times less, and of these the loop received `i` only. -/
structure Popped (w : Keyspace) (i : Bytes) (τ : Trace) (l : List Sent) (w' : Keyspace) : Prop where
  wellFormed : WellFormed w'
  occurrences : ∀ j, j ≠ [] → occurrences w j = occurrences w' j + (removedIds l).count j
  record : ∀ j field, recordText w' j field = recordText w j field
  pops : pops τ = if i = [] then [] else [i]
  noNul : i ≠ [] → 0 ∉ i
  nonempty : ∀ j ∈ removedIds l, j ≠ []
  calm : connectionFailed τ = false ∧ refused isPush l = false ∧ ∀ field, refused (storesTo field) l = false

theorem Popped.append {v w' : Keyspace} {τ τ' : Trace} {l l' : List Sent} (h : Popped w [] τ l v)
    (h' : Popped v i τ' l' w') : Popped w i (τ ++ τ') (l ++ l') w' := by
  obtain ⟨hc, hp, hs⟩ := h.calm
  obtain ⟨hc', hp', hs'⟩ := h'.calm
  refine ⟨h'.wellFormed, ?_, ?_, ?_, h'.noNul, ?_, ?_, ?_, ?_⟩
  · intro j hj
    rw [h.occurrences j hj, h'.occurrences j hj, removedIds_append, List.count_append]
    omega
  · intro j field
    rw [h'.record, h.record]
  · rw [pops_append, h.pops, h'.pops, if_pos rfl, List.nil_append]
  · intro j hj
    rw [removedIds_append, List.mem_append] at hj
    exact hj.elim (h.nonempty j) (h'.nonempty j)
  · rw [connectionFailed_append, hc, hc']; rfl
  · rw [refused_append, hp, hp']; rfl
  · intro field
    rw [refused_append, hs, hs']; rfl

theorem Popped.before {w' : Keyspace} {τ τ' : Trace} {l l' : List Sent} (h : Popped w i τ l w')
    (hcalm : Calm τ' l') :
    Popped w i (τ ++ τ') (l ++ l') w' := by
  obtain ⟨hc, hp, hs⟩ := h.calm
  refine ⟨h.wellFormed, ?_, h.record, ?_, h.noNul, ?_, ?_, ?_, ?_⟩
  · intro j hj
    rw [h.occurrences j hj, removedIds_append, hcalm.popped, List.append_nil]
  · rw [pops_append, hcalm.pops, List.append_nil, h.pops]
  · rw [removedIds_append, hcalm.popped, List.append_nil]
    exact h.nonempty
  · rw [connectionFailed_append, hc, hcalm.connection]; rfl
  · rw [refused_append, hp, hcalm.push]; rfl
  · intro field
    rw [refused_append, hs, hcalm.store]; rfl

/-- Nothing happens to the lists. -/
theorem popped_of_calm {τ : Trace} {l : List Sent} (hw : WellFormed w) (hcalm : Calm τ l) : Popped w [] τ l w := by
  refine ⟨hw, ?_, fun _ _ => rfl, hcalm.pops, fun h => absurd rfl h, ?_, hcalm.connection, hcalm.push, hcalm.store⟩
  · intro j _
    rw [hcalm.popped]
    rfl
  · rw [hcalm.popped]
    exact nofun

/-- An `LPOP` that is executed takes the head of its list. -/
private theorem popped_of_head {q x : Bytes} {c : Nat} {r : Option Reply} {fate : Fate} (hw : WellFormed w)
    (hq : q ∈ queueKeys) (hw' : WellFormed (exec (.lpop q) w).2) (hx : (exec (.lpop q) w).1 = .string x)
    (hitems : queueItems w q = x :: queueItems (exec (.lpop q) w).2 q) (hqueue : IsQueue (exec (.lpop q) w).2 q)
    (hfate : fate ≠ .refused) (hr : replyText r = [] ∨ replyText r = x) :
    Popped w (replyText r) [⟨.command c (.lpop q), r⟩] [⟨.lpop q, fate, (exec (.lpop q) w).1⟩]
      (exec (.lpop q) w).2 := by
  have htaken : Taken w (exec (.lpop q) w).2 q x := ⟨hq, fun _ hne => exec_frame _ w hne, hqueue, hitems⟩
  have hmem : x ∈ queueItems w q := by
    rw [hitems]
    exact List.mem_cons_self
  have hids : removedIds [⟨.lpop q, fate, (exec (.lpop q) w).1⟩] = if x = [] then [] else [x] := by
    by_cases hempty : x = [] <;> simp [removedIds, Sent.taken, hx, hfate, hempty]
  refine ⟨hw', ?_, fun j => recordText_congr (htaken.frame _ (taskKey_ne_queue hq j).symm), ?_, ?_, ?_, rfl, rfl,
    fun _ => rfl⟩
  · intro j hj
    rw [htaken.occurrences j, hids]
    by_cases he : x = j
    · subst he
      simp [hj]
    · by_cases hempty : x = [] <;> simp [he, hempty, Ne.symm hj]
  · by_cases hempty : replyText r = [] <;> simp [pops, hempty]
  · intro hne
    rw [hr.resolve_left hne]
    exact hw.items q hq x hmem
  · rw [hids]
    split
    · exact nofun
    · rename_i hempty
      simpa using hempty

/-- One `LPOP`: nothing is popped, or the id at the head, and it is received unless the reply is lost. -/
theorem wp_lpop {q : Bytes} (hw : WellFormed w) (hc : redis.connected = true) (hq : q ∈ queueKeys) :
    (accounted faulty).wp (redis.lpop q) (fun τ l o w' => ∃ i, o = .ok i ∧ Popped w i τ l w') w := by
  rw [lpop_eq hc, cStr_queue hq]
  intro r w' _ hs
  have hwf : WellFormed w' := hw.step (e := .command redis.context (.lpop q)) hq (served_of_accounted hs)
  obtain ⟨fate, -, hd, rfl⟩ := hs
  refine ⟨_, rfl, ?_⟩
  have hcalm : replyText r = [] → Sent.taken ⟨.lpop q, fate, (exec (.lpop q) w).1⟩ = none →
      Calm [⟨.command redis.context (.lpop q), r⟩] [⟨.lpop q, fate, (exec (.lpop q) w).1⟩] := by
    intro htext htaken
    exact ⟨by simp [pops, htext], by simp [removedIds, htaken], rfl, rfl, fun _ => rfl⟩
  rcases hd.world with ⟨rfl, rfl⟩ | ⟨hfate, rfl, -⟩
  · have htext : replyText r = [] := by rcases hd.failed nofun with rfl | rfl <;> rfl
    have htaken : Sent.taken ⟨.lpop q, .refused, (exec (.lpop q) w').1⟩ = none := by
      unfold Sent.taken
      split <;> simp
    rw [htext]
    exact popped_of_calm hw (hcalm htext htaken)
  · have htext : replyText r = [] ∨ r = some (exec (.lpop q) w).1 := by
      cases fate with
      | answered => exact Or.inr hd.1
      | lost => exact Or.inl (by rw [hd.1]; rfl)
      | refused => exact absurd rfl hfate
    rcases exec_lpop (hw.queues q hq) with ⟨x, hx, hitems, hqueue⟩ | ⟨hx, hsame, -⟩
    · refine popped_of_head hw hq hwf hx hitems hqueue hfate (htext.imp_right ?_)
      rintro rfl
      rw [hx]
      rfl
    · have hempty : replyText r = [] := htext.elim id fun h => by rw [h, hx]; rfl
      have htaken : Sent.taken ⟨.lpop q, fate, (exec (.lpop q) w).1⟩ = none := by rw [hx]; rfl
      have hsilent := popped_of_calm hw (hcalm hempty htaken)
      rwa [hempty, hsame]

/-- The lists are tried one after the other, each only when the ones before gave nothing. -/
theorem wp_popFromPriorityQueue (hw : WellFormed w) (hc : redis.connected = true) :
    (accounted faulty).wp redis.popFromPriorityQueue (fun τ l o w' => ∃ i, o = .ok i ∧ Popped w i τ l w') w := by
  refine Account.wp.bind (wp_lpop hw hc (by simp [queueKeys])) ?_
    (fun τ l x w' h => by obtain ⟨i, ho, -⟩ := h; cases ho)
  rintro τ l i w₁ ⟨_, ⟨⟩, hfirst⟩
  by_cases hi : i = []
  · subst hi
    refine Account.wp.bind (wp_lpop hfirst.wellFormed hc (by simp [queueKeys])) ?_
      (fun τ l x w' h => by obtain ⟨i, ho, -⟩ := h; cases ho)
    rintro τ₁ l₁ i w₂ ⟨_, ⟨⟩, hsecond⟩
    by_cases hi : i = []
    · subst hi
      refine (wp_lpop hsecond.wellFormed hc (by simp [queueKeys])).mono ?_
      rintro τ₂ l₂ o w₃ ⟨i, rfl, hthird⟩
      exact ⟨i, rfl, hfirst.append (hsecond.append hthird)⟩
    · rw [if_pos (by simpa using hi)]
      refine ⟨i, rfl, ?_⟩
      rw [List.append_nil, List.append_nil]
      exact hfirst.append hsecond
  · rw [if_pos (by simpa using hi)]
    refine ⟨i, rfl, ?_⟩
    rw [List.append_nil, List.append_nil]
    exact hfirst

theorem wp_popNextTask (hw : WellFormed w) : (accounted faulty).wp popNextTask (fun τ l o w' =>
    ∃ i, o = .ok i ∧ (Popped w i τ l w' ∨ i = [] ∧ removedIds l = [])) w := by
  rw [popNextTask, getConnection_bind]
  rintro r w' _ ⟨⟨rfl, hconn, -⟩, rfl⟩
  cases r with
  | none => exact ⟨[], rfl, Or.inr ⟨rfl, rfl⟩⟩
  | some redis =>
    refine Account.wp.bind (wp_popFromPriorityQueue hw (hconn redis rfl)) ?_
      (fun τ l x w' h => by obtain ⟨i, ho, -⟩ := h; cases ho)
    rintro τ l i w₁ ⟨_, ⟨⟩, hpop⟩
    rintro ⟨⟩ w₂ _ ⟨hs, rfl⟩
    obtain rfl : w₂ = w₁ := hs
    have hstart : Popped w' [] [⟨.getConnection, some redis⟩] [] w' :=
      popped_of_calm hw ⟨rfl, rfl, rfl, rfl, fun _ => rfl⟩
    exact ⟨i, rfl, Or.inl (hstart.append (hpop.before (.silent nofun nofun)))⟩

/-! ### Pushing back and assigning -/

/-- What pushing back does: the task is in a list once more, unless a failure prevents it. -/
structure RequeueEffect (w : Keyspace) (i : Bytes) (τ : Trace) (l : List Sent) (w' : Keyspace) : Prop where
  pops : pops τ = []
  popped : removedIds l = []
  store : ∀ field, refused (storesTo field) l = false
  record : ∀ j field, recordText w' j field = recordText w j field
  occurrences : ∀ j, occurrences w' j =
    occurrences w j + if (connectionFailed τ || refused isPush l) = false ∧ i = j then 1 else 0

theorem wp_requeue (hw : WellFormed w) (hne : i ≠ []) (hi : 0 ∉ i) :
    (accounted faulty).wp (do
        let some redis ← getConnection | return ()
        let task ← redis.getTask i
        if !task.id.isEmpty then
          let _ ← redis.pushToPriorityQueue task.priority i
        returnConnection redis
        return () : Code Unit)
      (fun τ l _ w' => RequeueEffect w i τ l w') w := by
  rw [getConnection_bind]
  rintro r w' _ ⟨⟨rfl, hconn, -⟩, rfl⟩
  cases r with
  | none => exact ⟨rfl, rfl, fun _ => rfl, fun _ _ => rfl, fun _ => rfl⟩
  | some redis =>
    have hc := hconn redis rfl
    refine Account.wp.bind (wp_getTask hw hc hi) ?_ (fun τ l x w' h =>
      by obtain ⟨-, -, task, ho, -⟩ := h; cases ho)
    rintro τ l task w₁ ⟨rfl, hcalm, _, ⟨⟩, hid⟩
    rw [if_pos (by simp [hid, hne]), RedisClient.pushToPriorityQueue, rpush_eq hc, cStr_queue (queueOf_mem _),
      cStr_of_noNul hi]
    rintro r w₂ _ ⟨fate, -, hpush, rfl⟩ _ w₃ _ ⟨hreturn, rfl⟩
    obtain rfl : w₃ = w₂ := hreturn
    refine ⟨?_, ?_, ?_, fun j => recordText_congr (hpush.frame (taskKey_ne_queue (queueOf_mem _) j).symm), ?_⟩
    · show pops (τ ++ _) = []
      rw [pops_append, hcalm.pops]
      rfl
    · rw [List.nil_append, removedIds_append, hcalm.popped]
      rfl
    · intro field
      rw [List.nil_append, refused_append, hcalm.store]
      rfl
    -- the task is back in a list unless the push was refused
    · intro j
      show _ = _ + if (connectionFailed (τ ++ _) || refused isPush ([] ++ (l ++ _))) = false ∧ i = j then 1 else 0
      rw [occurrences_rpush hw (queueOf_mem _) hpush, List.nil_append, connectionFailed_append, hcalm.connection,
        refused_append, hcalm.push]
      cases fate <;> simp [connectionFailed, refused, isPush]

/-- Effects of the worker's counter and of the load balancer. -/
def Harmless : Effect → Prop
  | .command _ (.get _) => True
  | .command _ (.incr key) => ∃ v, key = workerLoadKey v
  | .updateWorkerLoad _ _ => True
  | .returnConnection _ => True
  | _ => False

private theorem harmless_step {e : Effect} {r : e.Answer} {w' : Keyspace} {l : List Sent} (he : Harmless e)
    (hs : accounted faulty e w r w' l) (i : Bytes) : Calm [⟨e, r⟩] l ∧ Untouched i w w' := by
  cases e with
  | command c cmd =>
    obtain ⟨fate, -, hd, rfl⟩ := hs
    cases cmd with
    | get key =>
      have hserved : served True (.command c (.get key)) w r w' := ⟨fate, fun _ => trivial, hd⟩
      obtain rfl : w' = w := served_reads rfl hserved
      exact ⟨⟨rfl, rfl, rfl, rfl, fun _ => rfl⟩, Untouched.refl i _⟩
    | incr key =>
      obtain ⟨v, rfl⟩ := he
      refine ⟨⟨rfl, rfl, rfl, rfl, fun _ => rfl⟩, ?_⟩
      exact hd.untouched (fun q hq => workerLoadKey_ne_queue hq v) (workerLoadKey_ne_taskKey v i)
    | _ => exact he.elim
  | updateWorkerLoad workerId load =>
    obtain ⟨hsame, rfl⟩ := hs
    obtain rfl : w' = w := hsame
    exact ⟨.silent nofun nofun, Untouched.refl i _⟩
  | returnConnection redis =>
    obtain ⟨hsame, rfl⟩ := hs
    obtain rfl : w' = w := hsame
    exact ⟨.silent nofun nofun, Untouched.refl i _⟩
  | _ => exact he.elim

/-- A program of harmless effects leaves every task where it is. -/
theorem wp_harmless {α : Type} {p : Code α} (hp : p.Every Harmless) (w : Keyspace) :
    (accounted faulty).wp p (fun τ l _ w' => Calm τ l ∧ ∀ i, Untouched i w w') w := by
  refine Account.wp.collect (K := fun w τ l w' => Calm τ l ∧ ∀ i, Untouched i w w')
    (fun w => ⟨Calm.nil, fun i => Untouched.refl i w⟩) ?_ hp w
  rintro e w r w' entries τ l w'' he hs ⟨hcalm, hsame⟩
  have hone := harmless_step he hs
  exact ⟨(hone []).1.append hcalm, fun i => (hone i).2.trans (hsame i)⟩

theorem loadUpdate_harmless {v : Bytes} (hc : redis.connected = true) (hv : 0 ∉ v) :
    (do
        let _ ← redis.incrementWorkerLoad v
        let load ← redis.getWorkerLoad v
        updateWorkerLoad v load
        returnConnection redis
        return true : Code Bool).Every Harmless := by
  rw [RedisClient.incrementWorkerLoad, RedisClient.getWorkerLoad, incr_eq hc, get_eq hc, cStr_workerLoadKey hv]
  refine .bind ⟨⟨v, rfl⟩, fun _ => trivial⟩ fun _ => .bind ⟨trivial, fun _ => .ofExcept _⟩ fun load => ?_
  exact ⟨trivial, fun _ => ⟨trivial, fun _ => trivial⟩⟩

/-- What an assignment does: status and worker of the task are stored, each unless a failure prevents it. -/
structure AssignEffect (w : Keyspace) (i v : Bytes) (τ : Trace) (l : List Sent) (w' : Keyspace) : Prop where
  pops : pops τ = []
  popped : removedIds l = []
  push : refused isPush l = false
  occurrences : ∀ j, occurrences w' j = occurrences w j
  others : ∀ j, j ≠ i → ∀ field, recordText w' j field = recordText w j field
  status : recordText w' i (bytes "status") = if connectionFailed τ || refused (storesTo (bytes "status")) l
    then recordText w i (bytes "status") else bytes "1"
  worker : recordText w' i (bytes "worker_id") = if connectionFailed τ || refused (storesTo (bytes "worker_id")) l
    then recordText w i (bytes "worker_id") else v

/-- The three `HSET`s of an assignment, between effects that do not matter. -/
private theorem assignEffect_of_hsets (c : Nat) {w₁ w₂ w₃ w₄ : Keyspace} {v t : Bytes}
    {r₁ r₂ r₃ : Option Reply} {f₁ f₂ f₃ : Fate} {τ τ' : Trace} {l l' : List Sent}
    (h₁ : Delivered (.hset (taskKey i) (bytes "status") (bytes "1")) w f₁ r₁ w₁)
    (h₂ : Delivered (.hset (taskKey i) (bytes "worker_id") v) w₁ f₂ r₂ w₂)
    (h₃ : Delivered (.hset (taskKey i) (bytes "started_at") t) w₂ f₃ r₃ w₃)
    (hcalm : Calm τ l) (hcalm' : Calm τ' l') (h₄ : ∀ j, Untouched j w₃ w₄) :
    AssignEffect w i v (τ ++ ([⟨.command c (.hset (taskKey i) (bytes "status") (bytes "1")), r₁⟩] ++
      ([⟨.command c (.hset (taskKey i) (bytes "worker_id") v), r₂⟩] ++
        ([⟨.command c (.hset (taskKey i) (bytes "started_at") t), r₃⟩] ++ τ'))))
      (l ++ ([⟨.hset (taskKey i) (bytes "status") (bytes "1"), f₁,
          (exec (.hset (taskKey i) (bytes "status") (bytes "1")) w).1⟩] ++
        ([⟨.hset (taskKey i)
          (bytes "worker_id") v, f₂, (exec (.hset (taskKey i) (bytes "worker_id") v) w₁).1⟩] ++
          ([⟨.hset (taskKey i) (bytes "started_at") t, f₃,
            (exec (.hset (taskKey i) (bytes "started_at") t) w₂).1⟩] ++ l')))) w₄ := by
  have hsw : bytes "status" ≠ bytes "worker_id" := by decide
  have hts : bytes "started_at" ≠ bytes "status" := by decide
  have htw : bytes "started_at" ≠ bytes "worker_id" := by decide
  constructor
  · simp only [pops_append, hcalm.pops, hcalm'.pops]
    rfl
  · simp only [removedIds_append, hcalm.popped, hcalm'.popped]
    rfl
  · simp only [refused_append, hcalm.push, hcalm'.push]
    rfl
  · intro j
    rw [(h₄ j).occurrences, occurrences_hset h₃, occurrences_hset h₂, occurrences_hset h₁]
  · intro j hj field
    rw [(h₄ j).record, (untouched_hset hj h₃).record, (untouched_hset hj h₂).record,
      (untouched_hset hj h₁).record]
  · rw [(h₄ i).record, recordText_hset h₃, recordText_hset h₂, recordText_hset h₁]
    simp only [connectionFailed_append, hcalm.connection, hcalm'.connection, refused_append,
      hcalm.store, hcalm'.store]
    cases f₁ <;> simp [connectionFailed, refused, storesTo, hsw.symm, hts]
  · rw [(h₄ i).record, recordText_hset h₃, recordText_hset h₂, recordText_hset h₁]
    simp only [connectionFailed_append, hcalm.connection, hcalm'.connection, refused_append,
      hcalm.store, hcalm'.store]
    cases f₂ <;> simp [connectionFailed, refused, storesTo, hsw, htw]

theorem wp_assignTaskToWorker {v : Bytes} (hw : WellFormed w) (hne : i ≠ []) (hi : 0 ∉ i) (hv : 0 ∉ v) :
    (accounted faulty).wp (assignTaskToWorker i v) (fun τ l _ w' => AssignEffect w i v τ l w') w := by
  rw [assignTaskToWorker, getConnection_bind]
  rintro r w' _ ⟨⟨rfl, hconn, -⟩, rfl⟩
  cases r with
  | none => exact ⟨rfl, rfl, rfl, fun _ => rfl, fun _ _ _ => rfl, rfl, rfl⟩
  | some redis =>
    have hc := hconn redis rfl
    refine Account.wp.bind (wp_getTask hw hc hi) ?_ (fun τ l x w' h =>
      by obtain ⟨-, -, task, ho, -⟩ := h; cases ho)
    rintro τ l task w₁ ⟨rfl, hread, _, ⟨⟩, hid⟩
    rw [if_neg (by simp [hid, hne]), systemClock_bind]
    rintro now w₂ _ ⟨hclock, rfl⟩
    obtain rfl : w₂ = w₁ := hclock
    have hcalm : Calm ([⟨.getConnection, some redis⟩] ++ (τ ++ [⟨.systemClock, now⟩])) ([] ++ (l ++ [])) :=
      Calm.append ⟨rfl, rfl, rfl, rfl, fun _ => rfl⟩ (hread.append (.silent nofun nofun))
    have hone : cStr (bytes "status") = bytes "status" ∧ cStr (bytes "1") = bytes "1" := by decide
    rw [hset_eq hc, cStr_taskKey hi, hone.1, hone.2]
    rintro r₁ w₃ _ ⟨f₁, -, h₁, rfl⟩
    show Account.wp _ (redis.hset (taskKey i) (bytes "worker_id") v >>= _) _ _
    have htwo : cStr (bytes "worker_id") = bytes "worker_id" := by decide
    rw [hset_eq hc, cStr_taskKey hi, htwo, cStr_of_noNul hv]
    rintro r₂ w₄ _ ⟨f₂, -, h₂, rfl⟩
    show Account.wp _ (redis.hset (taskKey i) (bytes "started_at") (decimal now.toInt) >>= _) _ _
    have hthree : cStr (bytes "started_at") = bytes "started_at" := by decide
    rw [hset_eq hc, cStr_taskKey hi, hthree, cStr_of_noNul (noNul_decimal _)]
    rintro r₃ w₅ _ ⟨f₃, -, h₃, rfl⟩
    refine (wp_harmless (loadUpdate_harmless hc hv) w₅).mono ?_
    rintro τ' l' o w₆ ⟨hcalm', hsame⟩
    have heffect := assignEffect_of_hsets redis.context h₁ h₂ h₃ hcalm hcalm' hsame
    simpa using heffect

end Parts

/-! ### The iteration -/

/-- The task waits in a list, or status 1 and a worker are stored. -/
def Kept (w : Keyspace) (i : Bytes) : Prop :=
  occurrences w i ≠ 0 ∨ recordText w i (bytes "status") = bytes "1" ∧ recordText w i (bytes "worker_id") ≠ []

/-- A failure prevents that the task is pushed back or that the field is stored. -/
def prevented (field : Bytes) (τ : Trace) (l : List Sent) : Bool :=
  connectionFailed τ || refused isPush l || refused (storesTo field) l

/-- The condition under which the iteration keeps a task `i` that it pops: the id waits once more than it is
popped, or both status and worker are stored, already before the iteration or because the loop received the id
and no failure prevents it. -/
def Unharmed (w : Keyspace) (i : Bytes) (τ : Trace) (l : List Sent) : Prop :=
  (removedIds l).count i < occurrences w i ∨
    (recordText w i (bytes "status") = bytes "1" ∨ i ∈ pops τ ∧ prevented (bytes "status") τ l = false) ∧
      (recordText w i (bytes "worker_id") ≠ [] ∨ i ∈ pops τ ∧ prevented (bytes "worker_id") τ l = false)

section Iteration

variable {w v w' : Keyspace} {i j : Bytes} {τ τ' : Trace} {l l' : List Sent} {faulty : Prop}

/-- A task that the loop did not receive is kept where a list or the record has it still. -/
theorem kept_of_unseen (h : Popped w i τ l v) (hpops : j ∉ pops (τ ++ τ')) (hpopped : removedIds l' = [])
    (hj : j ∈ removedIds (l ++ l')) (hocc : occurrences w' j = occurrences v j)
    (hrec : ∀ field, recordText w' j field = recordText v j field) : Kept w' j ↔ Unharmed w j (τ ++ τ')
    (l ++ l') := by
  rw [removedIds_append, hpopped, List.append_nil] at hj
  have hone := h.occurrences j (h.nonempty j hj)
  unfold Kept Unharmed
  have hcount : occurrences w' j ≠ 0 ↔ (removedIds (l ++ l')).count j < occurrences w j := by
    rw [removedIds_append, hpopped, List.append_nil]
    omega
  rw [hcount, hrec, hrec, h.record, h.record]
  simp only [hpops, false_and, or_false]

private theorem prevented_popped (h : Popped w i τ l v) (field : Bytes) :
    prevented field (τ ++ τ') (l ++ l') = prevented field τ' l' := by
  obtain ⟨hc, hp, hs⟩ := h.calm
  simp [prevented, hc, hp, hs]

/-- What the loop received. -/
private theorem mem_pops_iff (h : Popped w i τ l v) (hi : i ≠ []) (hpops : pops τ' = []) :
    j ∈ pops (τ ++ τ') ↔ j = i := by
  rw [pops_append, hpops, List.append_nil, h.pops, if_neg hi, List.mem_singleton]

theorem kept_of_requeue (h : Popped w i τ l v) (hi : i ≠ []) (he : RequeueEffect v i τ' l' w')
    (hj : j ∈ removedIds (l ++ l')) : Kept w' j ↔ Unharmed w j (τ ++ τ') (l ++ l') := by
  by_cases hji : j = i
  · subst hji
    have hocc := he.occurrences j
    have hone := h.occurrences j hi
    unfold Kept Unharmed
    rw [prevented_popped h, prevented_popped h, he.record, he.record, h.record, h.record,
      removedIds_append, he.popped,
      List.append_nil]
    simp only [prevented, he.store, Bool.or_false, (mem_pops_iff h hi he.pops).2 rfl, true_and]
    cases hf : connectionFailed τ' || refused isPush l' with
    | true =>
      rw [hf, if_neg (by simp)] at hocc
      have hcount : occurrences w' j ≠ 0 ↔ (removedIds l).count j < occurrences w j := by omega
      simp [hcount]
    | false =>
      rw [hf, if_pos ⟨rfl, rfl⟩] at hocc
      have hcount : occurrences w' j ≠ 0 := by omega
      simp [hcount]
  · have hunseen : j ∉ pops (τ ++ τ') := fun hmem => hji ((mem_pops_iff h hi he.pops).1 hmem)
    refine kept_of_unseen h hunseen he.popped hj ?_ (he.record j)
    rw [he.occurrences j, if_neg fun hcontra => hji hcontra.2.symm]
    rfl

theorem kept_of_assign {worker : Bytes} (h : Popped w i τ l v) (hi : i ≠ []) (hworker : worker ≠ [])
    (he : AssignEffect v i worker τ' l' w') (hj : j ∈ removedIds (l ++ l')) :
    Kept w' j ↔ Unharmed w j (τ ++ τ') (l ++ l') := by
  by_cases hji : j = i
  · subst hji
    have hocc := he.occurrences j
    have hone := h.occurrences j hi
    have hcount : occurrences w' j ≠ 0 ↔ (removedIds l).count j < occurrences w j := by omega
    unfold Kept Unharmed
    rw [prevented_popped h, prevented_popped h, he.status, he.worker, h.record, h.record, hcount, removedIds_append,
      he.popped, List.append_nil]
    simp only [prevented, he.push, Bool.or_false, (mem_pops_iff h hi he.pops).2 rfl, true_and]
    cases connectionFailed τ' || refused (storesTo (bytes "status")) l' <;>
      cases connectionFailed τ' || refused (storesTo (bytes "worker_id")) l' <;> simp [hworker]
  · have hunseen : j ∉ pops (τ ++ τ') := fun hmem => hji ((mem_pops_iff h hi he.pops).1 hmem)
    exact kept_of_unseen h hunseen he.popped hj (he.occurrences j) (he.others j hji)

theorem wp_taskDispatchIteration (hw : WellFormed w) : (accounted faulty).wp taskDispatchIteration
    (fun τ l _ w' => ∀ i ∈ removedIds l, Kept w' i ↔ Unharmed w i τ l) w := by
  refine Account.wp.bind (wp_popNextTask hw) ?_ (fun τ l x w' h => by obtain ⟨i, ho, -⟩ := h; cases ho)
  rintro τ l i w₁ ⟨_, ⟨⟩, hpop | ⟨rfl, hnone⟩⟩
  · by_cases hi : i = []
    · -- nothing was received; what was taken out is gone
      subst hi
      intro j hj
      have hunseen : j ∉ pops (τ ++ []) := by
        rw [List.append_nil, hpop.pops, if_pos rfl]
        exact nofun
      exact kept_of_unseen hpop hunseen rfl hj rfl fun _ => rfl
    · rw [if_neg (by simpa using hi), selectWorker_bind]
      rintro worker w₂ _ ⟨⟨rfl, hworker⟩, rfl⟩
      dsimp only
      have hselected : Popped w i (τ ++ [⟨.selectWorker i, worker⟩]) (l ++ []) w₂ :=
        hpop.before (.silent nofun nofun)
      by_cases hnone : worker = []
      · subst hnone
        rw [if_pos List.isEmpty_nil]
        refine (wp_requeue hpop.wellFormed hi (hpop.noNul hi)).mono ?_
        intro τ' l' o w' he j hj
        have hkept := kept_of_requeue hselected hi he (by simpa using hj)
        rwa [List.append_assoc, List.append_assoc] at hkept
      · rw [if_neg (by simpa using hnone)]
        have hassign : ∀ {τ' : Trace} {l' : List Sent} {w' : Keyspace}, AssignEffect w₂ i worker τ' l' w' →
            ∀ j ∈ removedIds (l ++ ([] ++ l')),
              Kept w' j ↔ Unharmed w j (τ ++ ([⟨.selectWorker i, worker⟩] ++ τ')) (l ++ ([] ++ l')) := by
          intro τ' l' w' he j hj
          have hkept := kept_of_assign hselected hi hnone he (by simpa using hj)
          rwa [List.append_assoc, List.append_assoc] at hkept
        refine Account.wp.bind (wp_assignTaskToWorker hpop.wellFormed hi (hpop.noNul hi)
          (hworker hnone).noNul) ?_ ?_
        · intro τ' l' b w' he j hj
          rw [List.append_nil] at hj ⊢
          rw [List.append_nil]
          exact hassign he j hj
        · intro τ' l' x w' he
          exact hassign he
  · intro j hj
    rw [List.append_nil, hnone] at hj
    cases hj

end Iteration

/-- Whatever state the scheduler has reached and whatever fails during an iteration: an id that it popped is in
a list or assigned at its end exactly under the condition `Unharmed`. -/
theorem dispatch_keeps_task_iff {ι : Type} [DecidableEq ι] {operation : ι → Operation}
    {P : Pool ι Effect Effect.Answer StdException Unit Keyspace Unit}
    (hr : Reachable (schedulerSystem ι) (schedulerStart operation) P) {τ : Trace} {o : Except StdException Unit}
    {w' : Keyspace} {l : List Sent}
    (hrun : Run (accounted True).logged taskDispatchIteration (P.world, []) τ o (w', l)) {i : Bytes}
    (hi : i ∈ removedIds l) : Kept w' i ↔ Unharmed P.world i τ l := by
  have hw : WellFormed P.world := wellFormed_of_reachable hr
  exact (wp_taskDispatchIteration hw).run_nil hrun i hi

instance (w : Keyspace) (i : Bytes) : Decidable (Kept w i) := inferInstanceAs (Decidable (_ ∨ _ ∧ _))

/-! ### An iteration that loses what it popped -/

/-- Every command has its fate, and what became of it is written down; everything else succeeds, and the balancer
selects `worker`. -/
def account (fate : Command → Fate) (worker : Bytes) :
    (e : Effect) → Keyspace × List Sent → Option (e.Answer × Keyspace × List Sent)
  | .command _ cmd, s =>
    let sent : Sent := ⟨cmd, fate cmd, (exec cmd s.1).1⟩
    match fate cmd with
    | .refused => some (none, s.1, s.2 ++ [sent])
    | .lost => if sent.reply.isError then none else some (none, (exec cmd s.1).2, s.2 ++ [sent])
    | .answered => if sent.reply.isError then none else some (some sent.reply, (exec cmd s.1).2, s.2 ++ [sent])
  | e, s => (answer (fun _ => false) worker e s.1).map fun run => (run.1, run.2, s.2)

theorem account_logged {faulty : Prop} {fate : Command → Fate} {worker : Bytes}
    (hfate : ∀ cmd, fate cmd ≠ .answered → faulty) (hworker : worker ≠ [] → ValidId worker) (e : Effect)
    (s : Keyspace × List Sent) (r : e.Answer) (s' : Keyspace × List Sent)
    (h : account fate worker e s = some (r, s')) :
    (accounted faulty).logged e s r s' := by
  have hserved : ∀ r w', answer (fun _ => false) worker e s.1 = some (r, w') → served faulty e s.1 r w' :=
    answer_served hworker (fun _ h => Bool.noConfusion h) e s.1
  cases e with
  | command context cmd =>
    refine ⟨[⟨cmd, fate cmd, (exec cmd s.1).1⟩], ?_⟩
    simp only [account] at h
    cases hcmd : fate cmd with
    | refused =>
      rw [hcmd] at h
      cases h
      exact ⟨⟨.refused, fun h => hfate cmd (hcmd ▸ h), ⟨rfl, Or.inl rfl⟩, rfl⟩, rfl⟩
    | lost =>
      rw [hcmd] at h
      dsimp only at h
      split at h
      · cases h
      · rename_i hok
        cases h
        exact ⟨⟨.lost, fun h => hfate cmd (hcmd ▸ h), ⟨rfl, rfl, by simpa using hok⟩, rfl⟩, rfl⟩
    | answered =>
      rw [hcmd] at h
      dsimp only at h
      split at h
      · cases h
      · rename_i hok
        cases h
        exact ⟨⟨.answered, fun h => absurd rfl h, ⟨rfl, rfl, by simpa using hok⟩, rfl⟩, rfl⟩
  | _ =>
    simp only [account] at h
    obtain ⟨⟨answer, w'⟩, hanswer, heq⟩ := Option.map_eq_some_iff.1 h
    cases heq
    exact ⟨[], ⟨hserved _ _ hanswer, rfl⟩, (List.append_nil _).symm⟩

private def submission (id : String) (priority : Int32) : Operation :=
  .submitTask { id := bytes id, type := 0, priority := priority, data := [], createdAt := 0 }

private def twoSubmissions (i : ℕ) : Operation := if i = 0 then submission "17" 2 else submission "18" 1

/-- The `LPOP` of the first list loses its reply, and every `RPUSH` is refused. -/
private def lossy : Command → Fate
  | .lpop key => if key = queueHigh then .lost else .answered
  | .rpush _ _ => .refused
  | _ => .answered

/-- Two tasks are submitted.  The reply of the `LPOP` that takes out the first one is lost; the second one is
received, no worker is available, and it cannot be pushed back. -/
private theorem lossy_iteration : ∃ P τ l o w', Reachable (schedulerSystem ℕ) (schedulerStart twoSubmissions) P ∧
    Run (accounted True).logged taskDispatchIteration (P.world, []) τ o (w', l) ∧
    removedIds l = [bytes "17", bytes "18"] ∧ pops τ = [bytes "18"] ∧ ¬Kept w' (bytes "17") ∧
    ¬Kept w' (bytes "18") := by
  have hplay : (((twoSubmissions 0).code.play (answer (fun _ => false) []) ∅).bind fun first =>
      ((twoSubmissions 1).code.play (answer (fun _ => false) []) first.2.2).bind fun second =>
        (taskDispatchIteration.play (account lossy []) (second.2.2, [])).map fun run =>
          ((first.2.1.toOption, second.2.1.toOption), (removedIds run.2.2.2, pops run.1),
            decide (Kept run.2.2.1 (bytes "17")), decide (Kept run.2.2.1 (bytes "18")))) =
      some ((some (), some ()), ([bytes "17", bytes "18"], [bytes "18"]), false, false) := by decide +kernel
  obtain ⟨⟨τ₁, o₁, w₁⟩, hfirst, hplay⟩ := Option.bind_eq_some_iff.1 hplay
  obtain ⟨⟨τ₂, o₂, w₂⟩, hsecond, hplay⟩ := Option.bind_eq_some_iff.1 hplay
  obtain ⟨⟨τ, o, w', l⟩, hiteration, hend⟩ := Option.map_eq_some_iff.1 hplay
  simp only [Prod.mk.injEq, decide_eq_false_iff_not] at hend
  obtain ⟨⟨ho₁, ho₂⟩, ⟨hids, hpops⟩, hkept, hkept'⟩ := hend
  obtain rfl := eq_ok_of_toOption ho₁
  obtain rfl := eq_ok_of_toOption ho₂
  have hrun₁ : Run (served True) (twoSubmissions 0).code ∅ τ₁ (.ok ()) w₁ :=
    Run.of_play answer_fault_free hfirst
  have hrun₂ : Run (served True) (twoSubmissions 1).code w₁ τ₂ (.ok ()) w₂ :=
    Run.of_play answer_fault_free hsecond
  obtain ⟨P₁, hr₁, rfl, -, hothers⟩ :=
    Run.reachable (S := schedulerSystem ℕ) (P := schedulerStart twoSubmissions) (i := 0) hrun₁
  have hnext : (P₁.thread 1).prog = (twoSubmissions 1).code := by
    rw [hothers 1 nofun]
    rfl
  rw [← hnext] at hrun₂
  obtain ⟨P₂, hr₂, rfl, -⟩ := Run.reachable (S := schedulerSystem ℕ) (i := 1) hrun₂
  have hrun : Run (accounted True).logged taskDispatchIteration (P₂.world, []) τ o (w', l) :=
    Run.of_play (account_logged (fun _ _ => trivial) fun h => absurd rfl h) hiteration
  exact ⟨P₂, τ, l, o, w', hr₁.trans hr₂, hrun, hids, hpops, hkept, hkept'⟩

/-- The dispatch loop can lose a task. -/
theorem dispatch_can_lose_task :
    ¬∀ (operation : ℕ → Operation) (P : Pool ℕ Effect Effect.Answer StdException Unit Keyspace Unit),
      Reachable (schedulerSystem ℕ) (schedulerStart operation) P →
      ∀ τ l o w' i, Run (accounted True).logged taskDispatchIteration (P.world, []) τ o (w', l) →
      i ∈ removedIds l →
        Kept w' i := by
  intro h
  obtain ⟨P, τ, l, o, w', hr, hrun, hids, -, -, hlost⟩ := lossy_iteration
  exact hlost (h _ P hr τ l o w' _ hrun (by simp [hids]))

theorem dispatch_keeps_task_iff_lossy : ∃ P τ l o w', Reachable (schedulerSystem ℕ)
    (schedulerStart twoSubmissions) P ∧
    Run (accounted True).logged taskDispatchIteration (P.world, []) τ o (w', l) ∧
      bytes "17" ∈ removedIds l ∧ (Kept w' (bytes "17") ↔ Unharmed P.world (bytes "17") τ l) ∧
      bytes "18" ∈ removedIds l ∧ (Kept w' (bytes "18") ↔ Unharmed P.world (bytes "18") τ l) := by
  obtain ⟨P, τ, l, o, w', hr, hrun, hids, -⟩ := lossy_iteration
  have hfirst : bytes "17" ∈ removedIds l := by simp [hids]
  have hsecond : bytes "18" ∈ removedIds l := by simp [hids]
  exact ⟨P, τ, l, o, w', hr, hrun, hfirst, dispatch_keeps_task_iff hr hrun hfirst, hsecond,
    dispatch_keeps_task_iff hr hrun hsecond⟩

end Taskflow
