import Taskflow.DispatcherSpecs
import Taskflow.Lib.StableQueue

/-!
# The priority queue

Pushes, pops and size queries, one after another and without faults, behave as one stable priority queue with three
classes (`queue_refines`): the list of a class holds what remains of it, the switches of `pushToPriorityQueue` and
`getQueueSize` choose the same list, and the cascade of `popFromPriorityQueue` takes the first item of the highest
class.  The arguments pass through `%s`, so this is so for ids without a NUL byte.
-/

namespace Taskflow

open Text Effects Prog StableQueue

/-! ### The abstract queue -/

inductive PriorityClass where
  | low
  | medium
  | high
  deriving DecidableEq

namespace PriorityClass

instance : Fintype PriorityClass := ⟨{.high, .medium, .low}, fun k => by cases k <;> decide⟩

def rank : PriorityClass → Nat
  | .low => 0
  | .medium => 1
  | .high => 2

instance : LinearOrder PriorityClass := LinearOrder.lift' rank (by decide)

/-- The list that holds the class. -/
def queue : PriorityClass → Bytes
  | .low => queueLow
  | .medium => queueMedium
  | .high => queueHigh

theorem queue_mem (k : PriorityClass) : k.queue ∈ queueKeys := by
  cases k <;> simp [queue, queueKeys]

theorem queue_injective {k k' : PriorityClass} (h : k.queue = k'.queue) : k = k' := by
  revert k k'
  decide

end PriorityClass

/-- Priority 2 is high, 1 is medium, every other is low. -/
def classOf (priority : Int32) : PriorityClass :=
  if priority = 2 then .high else if priority = 1 then .medium else .low

theorem queueOf_eq (priority : Int32) : queueOf priority = (classOf priority).queue := by
  unfold queueOf classOf
  split
  · rfl
  · split <;> rfl

inductive QueueCall where
  | push (priority : Int32) (taskId : Bytes)
  | pop
  | size (priority : Int32)
  | totalSize

inductive QueueResult where
  | pushed (success : Bool)
  | popped (taskId : Bytes)
  | size (n : Nat)
  deriving DecidableEq

/-- What a stable priority queue answers, and what remains of it. -/
inductive Answers : List (PriorityClass × Bytes) → QueueCall → QueueResult →
    List (PriorityClass × Bytes) → Prop
  | push (s : List (PriorityClass × Bytes)) (priority : Int32) (taskId : Bytes) :
    Answers s (.push priority taskId) (.pushed true) (s ++ [(classOf priority, taskId)])
  | pop {s s' : List (PriorityClass × Bytes)} {next : Option Bytes} (h : Pop s next s') :
    Answers s .pop (.popped (next.getD [])) s'
  | size (s : List (PriorityClass × Bytes)) (priority : Int32) :
    Answers s (.size priority) (.size (waiting s (classOf priority)).length) s
  | totalSize (s : List (PriorityClass × Bytes)) : Answers s .totalSize (.size s.length) s

/-- Calls one after the other, with what they returned. -/
inductive AbstractRun : List (PriorityClass × Bytes) → List (QueueCall × Except StdException QueueResult) →
    List (PriorityClass × Bytes) → Prop
  | nil (s : List (PriorityClass × Bytes)) : AbstractRun s [] s
  | cons {s s' s'' : List (PriorityClass × Bytes)} {call : QueueCall} {result : QueueResult}
    {rest : List (QueueCall × Except StdException QueueResult)} (h : Answers s call result s')
    (hrest : AbstractRun s' rest s'') : AbstractRun s ((call, .ok result) :: rest) s''

/-! ### The calls on Redis -/

/-- A call, on a pooled connection or one that it takes. -/
def QueueCall.code (redis : RedisClient) : QueueCall → Code QueueResult
  | .push priority taskId => do return .pushed (← redis.pushToPriorityQueue priority taskId)
  | .pop => do return .popped (← redis.popFromPriorityQueue)
  | .size priority => do return .size (← getQueueSize priority)
  | .totalSize => do return .size (← getTotalQueueSize)

/-- Calls one after the other on connected clients, without faults. -/
inductive QueueRun : Keyspace → List (QueueCall × Except StdException QueueResult) → Keyspace → Prop
  | nil (w : Keyspace) : QueueRun w [] w
  | cons {w w' w'' : Keyspace} {redis : RedisClient} {call : QueueCall} {τ : List (Event Effect Effect.Answer)}
    {o : Except StdException QueueResult} {rest : List (QueueCall × Except StdException QueueResult)}
    (hconnected : redis.connected = true) (h : Run (served False) (call.code redis) w τ o w')
    (hrest : QueueRun w' rest w'') : QueueRun w ((call, o) :: rest) w''

/-- The lists hold what remains, class by class. -/
structure Represents (s : List (PriorityClass × Bytes)) (w : Keyspace) : Prop where
  isQueue : ∀ q ∈ queueKeys, IsQueue w q
  items : ∀ k : PriorityClass, queueItems w k.queue = waiting s k
  nonempty : ∀ x ∈ s, x.2 ≠ []

theorem represents_nil {w : Keyspace} (h : ∀ q ∈ queueKeys, w[q]? = none) : Represents [] w := by
  refine ⟨?_, ?_, ?_⟩
  · intro q hq v hv
    rw [h q hq] at hv
    cases hv
  · intro k
    simp [queueItems, h _ k.queue_mem]
  · intro x hx
    cases hx

section Calls

variable {s : List (PriorityClass × Bytes)} {w : Keyspace} {redis : RedisClient}

/-- A push appends to the class that its priority chooses. -/
theorem returns_push (h : Represents s w) (hc : redis.connected = true) (priority : Int32) {taskId : Bytes}
    (hid : ValidId taskId) : Returns (redis.pushToPriorityQueue priority taskId)
      (fun pushed w' => pushed = true ∧ Represents (s ++ [(classOf priority, taskId)]) w') w := by
  have hq := (classOf priority).queue_mem
  rw [RedisClient.pushToPriorityQueue, queueOf_eq, rpush_eq hc, cStr_queue hq, cStr_of_noNul hid.noNul]
  apply ends_command
  intro hok
  have happended := appended_rpush (x := taskId) hq (h.isQueue _ hq)
  refine returns_ret ⟨by simp [succeeded, hok], ⟨fun q hq' => happended.isQueue (h.isQueue q hq'), ?_, ?_⟩⟩
  · intro k
    rw [happended.items_eq, h.items k, waiting_append, waiting_cons, waiting_nil]
    by_cases hk : classOf priority = k
    · rw [if_pos (congrArg _ hk), if_pos hk]
    · rw [if_neg (fun he => hk (PriorityClass.queue_injective he)), if_neg hk, List.append_nil]
  · intro x hx
    rcases List.mem_append.1 hx with hx | hx
    · exact h.nonempty x hx
    · rw [List.mem_singleton] at hx
      rw [hx]
      exact hid.nonempty

/-- An `LPOP` of a class whose betters are empty is the pop of the queue, or finds the class empty too. -/
theorem returns_lpop_class (h : Represents s w) (hc : redis.connected = true) (k : PriorityClass)
    (hhigher : ∀ k', k < k' → waiting s k' = []) : Returns (redis.lpop k.queue) (fun taskId w' =>
      (taskId = [] ∧ w' = w ∧ waiting s k = []) ∨
        taskId ≠ [] ∧ ∃ s', Pop s (some taskId) s' ∧ Represents s' w') w := by
  have hq := k.queue_mem
  rw [lpop_eq hc, cStr_queue hq]
  apply ends_command
  intro _
  rcases exec_lpop (h.isQueue _ hq) with ⟨x, hx, hitems, hqueue⟩ | ⟨hx, hsame, hempty⟩
  · rw [hx]
    rw [h.items k] at hitems
    obtain ⟨s', hpop, hwaiting⟩ := exists_pop hitems hhigher
    have hframe : ∀ key, k.queue ≠ key → (exec (.lpop k.queue) w).2[key]? = w[key]? :=
      fun _ hne => exec_frame _ w hne
    refine returns_ret (Or.inr ⟨h.nonempty _ (mem_waiting.1 (hitems ▸ List.mem_cons_self)), s', hpop, ?_, ?_, ?_⟩)
    · intro q hq'
      by_cases he : k.queue = q
      · exact he ▸ hqueue
      · exact isQueue_congr (hframe q he) (h.isQueue q hq')
    · intro k'
      rw [hwaiting]
      by_cases hk : k = k'
      · rw [if_pos hk, ← hk]
      · rw [if_neg hk, ← h.items k', queueItems_congr (hframe _ fun he => hk (PriorityClass.queue_injective he))]
    · intro y hy
      have hmem : y.2 ∈ s.map (·.2) := hpop.perm.mem_iff.2 (List.mem_append_right _ (List.mem_map_of_mem hy))
      obtain ⟨z, hz, hzy⟩ := List.mem_map.1 hmem
      exact hzy ▸ h.nonempty z hz
  · rw [hx, hsame]
    exact returns_ret (Or.inl ⟨rfl, rfl, (h.items k).symm.trans hempty⟩)

/-- The cascade tries the classes from the highest to the lowest. -/
theorem returns_popFromPriorityQueue (h : Represents s w) (hc : redis.connected = true) :
    Returns redis.popFromPriorityQueue (fun taskId w' => ∃ next s', taskId = next.getD [] ∧ Pop s next s' ∧
      Represents s' w') w := by
  have hfound : ∀ {taskId : Bytes} {w' : Keyspace}, (∃ s', Pop s (some taskId) s' ∧ Represents s' w') →
      ∃ next s', taskId = next.getD [] ∧ Pop s next s' ∧ Represents s' w' :=
    fun ⟨s', hpop, hrep⟩ => ⟨_, s', rfl, hpop, hrep⟩
  have habove : ∀ k', ¬PriorityClass.high < k' := by decide
  apply Returns.bind (returns_lpop_class h hc .high fun k' hk' => absurd hk' (habove k'))
  rintro taskId _ (⟨rfl, rfl, hhigh⟩ | ⟨hne, hpop⟩)
  · rw [if_neg (by simp)]
    have hhigher : ∀ k', PriorityClass.medium < k' → waiting s k' = [] := by
      intro k' hk'
      cases k' with
      | high => exact hhigh
      | medium => exact absurd hk' (lt_irrefl _)
      | low => exact absurd hk' (by decide)
    apply Returns.bind (returns_lpop_class h hc .medium hhigher)
    rintro taskId _ (⟨rfl, rfl, hmedium⟩ | ⟨hne, hpop⟩)
    · rw [if_neg (by simp)]
      have hhigher : ∀ k', PriorityClass.low < k' → waiting s k' = [] := by
        intro k' hk'
        cases k' with
        | high => exact hhigh
        | medium => exact hmedium
        | low => exact absurd hk' (lt_irrefl _)
      refine (returns_lpop_class h hc .low hhigher).mono ?_
      rintro o w' ⟨taskId, rfl, ⟨rfl, rfl, hlow⟩ | ⟨hne, hpop⟩⟩
      · have hempty : s = [] := eq_nil_of_waiting fun k => by cases k <;> assumption
        subst hempty
        exact ⟨_, rfl, none, [], rfl, .nothing, h⟩
      · exact ⟨_, rfl, hfound hpop⟩
    · rw [if_pos (by simpa using hne)]
      exact returns_ret (hfound hpop)
  · rw [if_pos (by simpa using hne)]
    exact returns_ret (hfound hpop)

theorem returns_getQueueSize (h : Represents s w) (priority : Int32) : Returns (getQueueSize priority)
    (fun n w' => n = (waiting s (classOf priority)).length ∧ w' = w) w := by
  -- the switch of this function, as against that of the push
  have hqueue : (if priority = 2 then bytes "queue:high" else if priority = 1 then bytes "queue:medium"
      else bytes "queue:low") = (classOf priority).queue := (queueOf_eq priority)
  have hq := (classOf priority).queue_mem
  apply ends_connection
  intro redis hc
  dsimp only
  rw [hqueue]
  have hllen : Returns (redis.llen (classOf priority).queue)
      (fun n w' => n = (waiting s (classOf priority)).length ∧ w' = w) w := by
    rw [RedisClient.llen, if_neg (by simp [hc]), command_bind, cStr_queue hq]
    apply ends_command
    intro _
    refine returns_ret ⟨?_, exec_reads rfl w⟩
    rw [← h.items]
    unfold queueItems
    cases hw : w[(classOf priority).queue]? with
    | none => simp [exec, hw, replyInteger]
    | some v =>
      obtain ⟨l, rfl⟩ := h.isQueue _ hq v hw
      simp [exec, hw, replyInteger]
  apply Returns.bind hllen
  rintro _ _ ⟨rfl, rfl⟩
  exact ends_unchanged (fun _ _ hs => hs) fun _ => returns_ret ⟨by simp, rfl⟩

theorem returns_getTotalQueueSize (h : Represents s w) : Returns getTotalQueueSize
    (fun n w' => n = s.length ∧ w' = w) w := by
  apply Returns.bind (returns_getQueueSize h 2)
  rintro _ _ ⟨rfl, rfl⟩
  apply Returns.bind (returns_getQueueSize h 1)
  rintro _ _ ⟨rfl, rfl⟩
  apply Returns.bind (returns_getQueueSize h 0)
  rintro _ _ ⟨rfl, rfl⟩
  refine returns_ret ⟨?_, rfl⟩
  have hclasses : (Finset.univ : Finset PriorityClass) = {.high, .medium, .low} := rfl
  rw [length_eq_sum s, hclasses]
  simp [classOf, Nat.add_assoc]

/-- A push of an id without a NUL byte, or another call. -/
def QueueCall.Valid : QueueCall → Prop
  | .push _ taskId => ValidId taskId
  | _ => True

theorem returns_queueCall (h : Represents s w) (hc : redis.connected = true) {call : QueueCall}
    (hcall : call.Valid) :
    Returns (call.code redis) (fun result w' => ∃ s', Answers s call result s' ∧ Represents s' w') w := by
  cases call with
  | push priority taskId =>
    apply Returns.bind (returns_push h hc priority hcall)
    rintro _ w' ⟨rfl, hrep⟩
    exact returns_ret ⟨_, .push s priority taskId, hrep⟩
  | pop =>
    apply Returns.bind (returns_popFromPriorityQueue h hc)
    rintro _ w' ⟨next, s', rfl, hpop, hrep⟩
    exact returns_ret ⟨s', .pop hpop, hrep⟩
  | size priority =>
    apply Returns.bind (returns_getQueueSize h priority)
    rintro _ _ ⟨rfl, rfl⟩
    exact returns_ret ⟨s, .size s priority, h⟩
  | totalSize =>
    apply Returns.bind (returns_getTotalQueueSize h)
    rintro _ _ ⟨rfl, rfl⟩
    exact returns_ret ⟨s, .totalSize s, h⟩

end Calls

/-! ### Whole runs -/

def pushedIds (run : List (QueueCall × Except StdException QueueResult)) : List Bytes :=
  run.filterMap fun
    | (.push _ taskId, _) => some taskId
    | _ => none

/-- The ids that the pops have returned, without the `""` of those that found nothing. -/
def poppedIds (run : List (QueueCall × Except StdException QueueResult)) : List Bytes :=
  run.filterMap fun
    | (.pop, .ok (.popped taskId)) => if taskId = [] then none else some taskId
    | _ => none

/-- What one call of the abstract queue does to the balance of ids. -/
theorem Answers.balance {s s' : List (PriorityClass × Bytes)} {call : QueueCall} {result : QueueResult}
    (h : Answers s call result s') (hs : ∀ x ∈ s, x.2 ≠ []) :
    (s.map (·.2) ++ pushedIds [(call, .ok result)]).Perm (poppedIds [(call, .ok result)] ++ s'.map (·.2)) := by
  cases h with
  | push priority taskId => simp [pushedIds, poppedIds]
  | @pop _ next hpop =>
    have hperm := hpop.perm
    cases next with
    | none => simpa [pushedIds, poppedIds] using hperm
    | some taskId =>
      have hne : taskId ≠ [] := by
        have hmem : taskId ∈ s.map (·.2) := hperm.mem_iff.2 (by simp)
        obtain ⟨x, hx, rfl⟩ := List.mem_map.1 hmem
        exact hs x hx
      simpa [pushedIds, poppedIds, hne] using hperm
  | size priority => simp [pushedIds, poppedIds]
  | totalSize => simp [pushedIds, poppedIds]

private theorem pushedIds_cons (c : QueueCall × Except StdException QueueResult)
    (run : List (QueueCall × Except StdException QueueResult)) :
    pushedIds (c :: run) = pushedIds [c] ++ pushedIds run := by
  rw [pushedIds, ← List.singleton_append, List.filterMap_append]
  rfl

private theorem poppedIds_cons (c : QueueCall × Except StdException QueueResult)
    (run : List (QueueCall × Except StdException QueueResult)) :
    poppedIds (c :: run) = poppedIds [c] ++ poppedIds run := by
  rw [poppedIds, ← List.singleton_append, List.filterMap_append]
  rfl

/-- No id is lost or returned more often than it was pushed. -/
theorem AbstractRun.balance {s s' : List (PriorityClass × Bytes)}
    {run : List (QueueCall × Except StdException QueueResult)} (h : AbstractRun s run s')
    (hs : ∀ x ∈ s, x.2 ≠ []) (hpushed : ∀ taskId ∈ pushedIds run, taskId ≠ []) :
    (s.map (·.2) ++ pushedIds run).Perm (poppedIds run ++ s'.map (·.2)) := by
  induction h with
  | nil s => simp [pushedIds, poppedIds]
  | @cons _ s₁ _ call result rest hanswer _ ih =>
    rw [pushedIds_cons] at hpushed
    have hfirst := hanswer.balance hs
    have hs₁ : ∀ x ∈ s₁, x.2 ≠ [] := by
      intro x hx
      have hmem := hfirst.mem_iff.2 (List.mem_append_right _ (List.mem_map_of_mem hx))
      rcases List.mem_append.1 hmem with hold | hnew
      · obtain ⟨y, hy, hyx⟩ := List.mem_map.1 hold
        exact hyx ▸ hs y hy
      · exact hpushed _ (List.mem_append_left _ hnew)
    have hrest := ih hs₁ fun taskId hid => hpushed taskId (List.mem_append_right _ hid)
    rw [pushedIds_cons, poppedIds_cons, ← List.append_assoc, List.append_assoc (poppedIds [_])]
    refine (hfirst.append_right _).trans ?_
    rw [List.append_assoc]
    exact hrest.append_left _

/-- In every run that pushes only ids without a NUL byte, the lists behave as a stable priority queue: no call
throws, each answers as the queue does, no id is lost or returned more often than it was pushed, and the ids
that remain are the pushes less the pops. -/
theorem queue_refines {s : List (PriorityClass × Bytes)} {w w' : Keyspace}
    {run : List (QueueCall × Except StdException QueueResult)} (h : Represents s w) (hids : ∀ c ∈ run, c.1.Valid)
    (hrun : QueueRun w run w') :
    ∃ s', AbstractRun s run s' ∧ Represents s' w' ∧
      (s.map (·.2) ++ pushedIds run).Perm (poppedIds run ++ s'.map (·.2)) ∧
      s.length + (pushedIds run).length = (poppedIds run).length + s'.length := by
  have hsteps : ∃ s', AbstractRun s run s' ∧ Represents s' w' := by
    induction hrun generalizing s with
    | nil w => exact ⟨s, .nil s, h⟩
    | cons hconnected hcall _ ih =>
      obtain ⟨result, rfl, s₁, hanswer, hrep⟩ :=
        Ends.run (returns_queueCall h hconnected (hids _ List.mem_cons_self)) hcall
      obtain ⟨s', habstract, hrep'⟩ := ih hrep fun c hc => hids c (List.mem_cons_of_mem _ hc)
      exact ⟨s', .cons hanswer habstract, hrep'⟩
  obtain ⟨s', habstract, hrep⟩ := hsteps
  have hpushed : ∀ taskId ∈ pushedIds run, taskId ≠ [] := by
    intro taskId hid
    obtain ⟨⟨call, o⟩, hc, hcall⟩ := List.mem_filterMap.1 hid
    cases call with
    | push priority id =>
      cases hcall
      have hvalid : ValidId taskId := hids _ hc
      exact hvalid.nonempty
    | _ => cases hcall
  have hperm := habstract.balance h.nonempty hpushed
  exact ⟨s', habstract, hrep, hperm, by simpa using hperm.length_eq⟩

/-! ### An id that is cut at its NUL byte -/

/-- What the calls return one after the other on a connected client, without faults. -/
private def playQueue : Keyspace → List QueueCall → Option (List QueueResult)
  | _, [] => some []
  | w, c :: calls =>
    match (c.code ⟨0, true⟩).play (answer (fun _ => false) []) w with
    | some (_, .ok result, w') => (playQueue w' calls).map (result :: ·)
    | _ => none

private theorem queueRun_of_play {w : Keyspace} {calls : List QueueCall} {results : List QueueResult}
    (h : playQueue w calls = some results) :
    ∃ w', QueueRun w (List.zip calls (results.map Except.ok)) w' := by
  induction calls generalizing w results with
  | nil => exact ⟨w, .nil w⟩
  | cons c calls ih =>
    rw [playQueue] at h
    split at h
    · rename_i τ result w' hplay
      obtain ⟨rest, hrest, rfl⟩ := Option.map_eq_some_iff.1 h
      obtain ⟨w'', hrun⟩ := ih hrest
      exact ⟨w'', .cons rfl (Run.of_play answer_fault_free hplay) hrun⟩
    · cases h

/-- The pop returns the id up to its NUL byte. -/
theorem queue_cuts_id : ¬∀ run w', QueueRun ∅ run w' →
    (∀ priority taskId, (.push priority taskId) ∈ run.map (·.1) →
    taskId ≠ []) → ∃ s', AbstractRun [] run s' := by
  intro h
  have hplay : playQueue ∅ [.push 0 [97, 0, 98], .pop] = some [.pushed true, .popped [97]] := by decide
  obtain ⟨w, hrun⟩ := queueRun_of_play hplay
  obtain ⟨s', hs⟩ := h _ w hrun (by simp)
  have hperm := hs.balance (by simp) (by simp [pushedIds])
  have hmem : ([97] : Bytes) ∈ pushedIds [(.push 0 [97, 0, 98], .ok (.pushed true)), (.pop, .ok (.popped [97]))] :=
    hperm.mem_iff.2 (List.mem_append_left _ (by simp [poppedIds]))
  simp [pushedIds] at hmem

/-- Four tasks of three classes: the high one comes first, then the medium ones in their order. -/
theorem queue_refines_pushThenPop : ∃ run w s', QueueRun ∅ run w ∧ AbstractRun [] run s' ∧ Represents s' w ∧
    run = [(.push 0 (bytes "1"), .ok (.pushed true)), (.push 1 (bytes "2"), .ok (.pushed true)),
      (.push 2 (bytes "3"), .ok (.pushed true)), (.push 1 (bytes "4"), .ok (.pushed true)),
      (.pop, .ok (.popped (bytes "3"))), (.pop, .ok (.popped (bytes "2"))), (.totalSize, .ok (.size 2)),
      (.pop, .ok (.popped (bytes "4")))] := by
  have hplay : playQueue ∅ [.push 0 (bytes "1"), .push 1 (bytes "2"), .push 2 (bytes "3"),
    .push 1 (bytes "4"), .pop,
      .pop, .totalSize, .pop] = some [.pushed true, .pushed true, .pushed true, .pushed true, .popped (bytes "3"),
        .popped (bytes "2"), .size 2, .popped (bytes "4")] := by decide
  obtain ⟨w, hrun⟩ := queueRun_of_play hplay
  obtain ⟨s', habstract, hrep, -⟩ := queue_refines (represents_nil (w := ∅) fun q _ => by simp) (by
    intro c hc
    fin_cases hc <;> first | trivial | exact ⟨by decide, by decide⟩) hrun
  exact ⟨_, w, s', hrun, habstract, hrep, rfl⟩

end Taskflow
