import Taskflow.WorkerSelection

/-!
# The recovery window of a tripped worker

A worker is tripped by three failures that its breaker received while `CLOSED`, with no success between them, and
stays so until a success arrives after the recovery (`tripped`).  The invariant `Watch` relates breaker, counts
and times to the history of calls; from it, a tripped worker is selected at no time before 30 full seconds have
passed since its latest failure (`tripped_not_selected`).
-/

namespace Taskflow

open Text History

namespace LoadBalancer

open WorkerEntry

def failureOf (w : Bytes) : BalancerOp → Bool
  | .recordFailure id => id = w
  | _ => false

def successOf (w : Bytes) : BalancerOp → Bool
  | .recordSuccess id => id = w
  | _ => false

section Window

variable (sort : StdSort) (strategy w : Bytes)

/-- The breaker of `w` is in state `s` after the history. -/
def breakerIn (s : CircuitState) (h : List (Timed BalancerOp)) : Bool :=
  (afterCalls sort strategy h).circuitBreakers[w]?.any fun breaker => breaker.state = s

/-- The `recordFailure(w)` calls made while the breaker was `CLOSED`, since the latest `recordSuccess(w)`. -/
def closedFailures : List (Timed BalancerOp) → Nat :=
  countSince (fun e h => failureOf w e.op && breakerIn sort strategy w .CLOSED h) fun e _ => successOf w e.op

/-- `w` has been tripped by a third failure.  A success ends this when the breaker has recovered, that is, is
`HALF_OPEN`; until then any further failure starts a new window. -/
def tripped : List (Timed BalancerOp) → Bool
  | [] => false
  | e :: h =>
    if successOf w e.op then tripped h && !breakerIn sort strategy w .HALF_OPEN h
    else tripped h || (failureOf w e.op && 3 ≤ closedFailures sort strategy w (e :: h))

/-- Once added, `w` is listed in every `updateWorkers` call and never removed. -/
def StaysListed : List (Timed BalancerOp) → Prop
  | [] => True
  | e :: h => StaysListed h ∧ (w ∈ (afterCalls sort strategy h).workers →
      match e.op with
      | .updateWorkers services => w ∈ services.map (·.1.id)
      | .removeWorker id => id ≠ w
      | _ => True)

/-- What the history says of the breaker of `w`, in each of its states. -/
inductive Watch (h : List (Timed BalancerOp)) : Option CircuitBreaker → Prop
  | absent (hcount : closedFailures sort strategy w h = 0)
      (htrip : tripped sort strategy w h = false) : Watch h none
  | closed {b : CircuitBreaker} (hconfig : b.config = {}) (hs : b.state = .CLOSED) (hzero : b.successCount = 0)
      (hcount : b.failureCount.toInt = closedFailures sort strategy w h)
      (hlt : closedFailures sort strategy w h < 3) (htrip : tripped sort strategy w h = false) : Watch h (some b)
  | opened {b : CircuitBreaker} {f : Timed BalancerOp} (hconfig : b.config = {}) (hs : b.state = .OPEN)
      (hzero : b.successCount = 0) (hf : latest (failureOf w) h = some f) (hlast : b.lastFailureTime = f.time) :
      Watch h (some b)
  | halfOpen {b : CircuitBreaker} {f e : Timed BalancerOp} (hconfig : b.config = {}) (hs : b.state = .HALF_OPEN)
      (hzero : b.successCount = 0) (hf : latest (failureOf w) h = some f) (hmem : e ∈ h)
      (hpassed : f.time + 30 * 1000000000 ≤ e.time) : Watch h (some b)

end Window

/-! ### One more call -/

section Calls

variable {sort : StdSort} {strategy w : Bytes} {h : List (Timed BalancerOp)} {call : Timed BalancerOp}
  {breaker : Option CircuitBreaker}

theorem closedFailures_other (hf : failureOf w call.op = false) (hs : successOf w call.op = false) :
    closedFailures sort strategy w (call :: h) = closedFailures sort strategy w h :=
  countSince_skip hs (by simp [hf])

theorem closedFailures_success (hs : successOf w call.op = true) :
    closedFailures sort strategy w (call :: h) = 0 :=
  countSince_boundary hs

theorem closedFailures_failure (hf : failureOf w call.op = true) (hs : successOf w call.op = false)
    (hclosed : breakerIn sort strategy w .CLOSED h = true) :
    closedFailures sort strategy w (call :: h) = closedFailures sort strategy w h + 1 :=
  countSince_count hs (by simp [hf, hclosed])

theorem tripped_other (hf : failureOf w call.op = false) (hs : successOf w call.op = false) :
    tripped sort strategy w (call :: h) = tripped sort strategy w h := by
  simp [tripped, hf, hs]

theorem tripped_success (hs : successOf w call.op = true)
    (h' : tripped sort strategy w h = false ∨ breakerIn sort strategy w .HALF_OPEN h = true) :
    tripped sort strategy w (call :: h) = false := by
  rcases h' with htrip | hhalf
  · simp [tripped, hs, htrip]
  · simp [tripped, hs, hhalf]

theorem breakerIn_some {b : CircuitBreaker} {s : CircuitState}
    (hb : (afterCalls sort strategy h).circuitBreakers[w]? = some b) :
    breakerIn sort strategy w s h = decide (b.state = s) := by
  simp [breakerIn, hb]

/-- A call that reports nothing about `w`, and keeps its breaker, keeps what is known of it. -/
theorem Watch.other (hw : Watch sort strategy w h breaker) (hf : failureOf w call.op = false)
    (hs : successOf w call.op = false) : Watch sort strategy w (call :: h) breaker := by
  have hcount : closedFailures sort strategy w (call :: h) = closedFailures sort strategy w h :=
    closedFailures_other hf hs
  have htripped : tripped sort strategy w (call :: h) = tripped sort strategy w h := tripped_other hf hs
  have hlatest : latest (failureOf w) (call :: h) = latest (failureOf w) h := latest_cons_of_not h hf
  cases hw with
  | absent hc htrip => exact .absent (hcount.trans hc) (htripped.trans htrip)
  | closed hconfig hstate hzero hc hlt htrip =>
    rw [← hcount] at hc hlt
    exact .closed hconfig hstate hzero hc hlt (htripped.trans htrip)
  | opened hconfig hstate hzero hfail hlast =>
    exact .opened hconfig hstate hzero (hlatest.trans hfail) hlast
  | halfOpen hconfig hstate hzero hfail hmem hpassed =>
    exact .halfOpen hconfig hstate hzero (hlatest.trans hfail) (List.mem_cons_of_mem _ hmem) hpassed

/-- A worker that joins has a fresh breaker, and no history. -/
theorem Watch.joined (hw : Watch sort strategy w h none) (name : Bytes) :
    Watch sort strategy w h (some { name := name, config := {} }) := by
  cases hw with
  | absent hcount htrip => exact .closed rfl rfl rfl (by rw [hcount]; rfl) (by omega) htrip

theorem Watch.asked (hw : Watch sort strategy w h breaker) (hf : failureOf w call.op = false)
    (hs : successOf w call.op = false) :
    Watch sort strategy w (call :: h) (breaker.map fun b => (b.allowRequest call.time).2) := by
  have hother := hw.other hf hs
  cases hw with
  | absent _ _ => exact hother
  | @closed b _ hstate _ _ _ _ =>
    have hsame : (b.allowRequest call.time).2 = b := by simp [CircuitBreaker.allowRequest, hstate]
    rwa [Option.map_some, hsame]
  | @halfOpen b _ _ _ hstate _ _ _ _ =>
    have hsame : (b.allowRequest call.time).2 = b := by simp [CircuitBreaker.allowRequest, hstate]
    rwa [Option.map_some, hsame]
  | @opened b f hconfig hstate hzero hfail hlast =>
    have htrans := b.allowRequest_transition call.time
    rw [Option.map_some]
    generalize (b.allowRequest call.time).2 = b' at htrans
    cases htrans with
    | allowed _ => exact hother
    | refused _ _ => exact hother
    | probe _ he =>
      -- thirty whole seconds have passed, so this call is the one that recovers
      refine .halfOpen hconfig rfl hzero ((latest_cons_of_not h hf).trans hfail) List.mem_cons_self ?_
      have hthirty : ({} : CircuitBreaker.Config).recoveryTimeoutSeconds.toInt = 30 := rfl
      rw [hconfig, hthirty, hlast] at he
      have hpassed := CircuitBreaker.le_of_le_toSeconds (by omega) he
      omega

theorem Watch.succeeded (hw : Watch sort strategy w h breaker) (hs : successOf w call.op = true)
    (hf : failureOf w call.op = false) (hb : (afterCalls sort strategy h).circuitBreakers[w]? = breaker) :
    Watch sort strategy w (call :: h) (breaker.map CircuitBreaker.recordSuccess) := by
  have hcount : closedFailures sort strategy w (call :: h) = 0 := closedFailures_success hs
  have hlatest : latest (failureOf w) (call :: h) = latest (failureOf w) h := latest_cons_of_not h hf
  cases hw with
  | absent _ htrip => exact .absent hcount (tripped_success hs (Or.inl htrip))
  | @closed b hconfig hstate hzero _ _ htrip =>
    have hcleared : b.recordSuccess = { b with failureCount := 0 } := by
      simp [CircuitBreaker.recordSuccess, hstate]
    rw [Option.map_some, hcleared]
    exact .closed hconfig hstate hzero (by rw [hcount]; rfl) (by omega) (tripped_success hs (Or.inl htrip))
  | @opened b f hconfig hstate hzero hfail hlast =>
    -- a late success is ignored
    have hsame : b.recordSuccess = b := by simp [CircuitBreaker.recordSuccess, hstate]
    rw [Option.map_some, hsame]
    exact .opened hconfig hstate hzero (hlatest.trans hfail) hlast
  | @halfOpen b f e hconfig hstate hzero hfail hmem hpassed =>
    have hreset : b.recordSuccess = b.resetToClosed := by
      simp [CircuitBreaker.recordSuccess, hstate, hzero, hconfig, CircuitBreaker.resetToClosed]
    have hhalf : breakerIn sort strategy w .HALF_OPEN h = true := by simp [breakerIn_some hb, hstate]
    rw [Option.map_some, hreset]
    exact .closed hconfig rfl rfl (by rw [hcount]; rfl) (by omega) (tripped_success hs (Or.inr hhalf))

theorem Watch.failed (hw : Watch sort strategy w h breaker) (hf : failureOf w call.op = true)
    (hs : successOf w call.op = false) (hb : (afterCalls sort strategy h).circuitBreakers[w]? = breaker) :
    Watch sort strategy w (call :: h) (breaker.map fun b => b.recordFailure call.time) := by
  have hlatest : latest (failureOf w) (call :: h) = some call := latest_cons_of h hf
  cases hw with
  | absent hcount htrip =>
    -- without a breaker the failure is not recorded
    have hnone : breakerIn sort strategy w .CLOSED h = false := by simp [breakerIn, hb]
    have hcount' : closedFailures sort strategy w (call :: h) = 0 :=
      (countSince_skip hs (by simp [hnone])).trans hcount
    exact .absent hcount' (by simp [tripped, hs, htrip, hcount'])
  | @closed b hconfig hstate hzero hcount hlt htrip =>
    have hclosed : breakerIn sort strategy w .CLOSED h = true := by simp [breakerIn_some hb, hstate]
    have hcount' := closedFailures_failure hf hs hclosed
    have htrans := b.recordFailure_transition call.time
    have hthree : ({} : CircuitBreaker.Config).failureThreshold.toInt = 3 := rfl
    have hsucc : (b.failureCount + 1).toInt = b.failureCount.toInt + 1 :=
      BitFields.toInt_succ (b := ({} : CircuitBreaker.Config).failureThreshold) (by omega)
    rw [Option.map_some]
    generalize b.recordFailure call.time = b' at htrans
    cases htrans with
    | failed _ hc =>
      rw [hconfig, Int32.lt_iff_toInt_lt, hsucc, hthree] at hc
      refine .closed hconfig hstate hzero ?_ ?_ ?_
      · rw [hsucc, hcount']
        omega
      · omega
      · have hnot : ¬ 3 ≤ closedFailures sort strategy w (call :: h) := by omega
        simp [tripped, hs, htrip, hnot]
    | tripped _ _ => exact .opened hconfig rfl rfl hlatest rfl
    -- the other two transitions start elsewhere
    | late hs' => simp [hstate] at hs'
    | relapsed hs' => simp [hstate] at hs'
  | @opened b f hconfig hstate hzero _ _ =>
    have hlate : b.recordFailure call.time =
        { b with failureCount := b.failureCount + 1, lastFailureTime := call.time } := by
      simp [CircuitBreaker.recordFailure, hstate]
    rw [Option.map_some, hlate]
    exact .opened hconfig hstate hzero hlatest rfl
  | @halfOpen b f e hconfig hstate _ _ _ _ =>
    have htrip : b.recordFailure call.time =
        { b with state := .OPEN, failureCount := b.failureCount + 1, successCount := 0,
                 lastFailureTime := call.time } := by
      simp [CircuitBreaker.recordFailure, hstate, CircuitBreaker.tripOpen]
    rw [Option.map_some, htrip]
    exact .opened hconfig rfl rfl hlatest rfl

end Calls

/-! ### Whole runs -/

section Runs

variable {sort : StdSort} {strategy w : Bytes} {h : List (Timed BalancerOp)}

/-- One call keeps what is known of the breaker. -/
theorem watch_step {call : Timed BalancerOp} (hlisted : StaysListed sort strategy w (call :: h))
    (hw : Watch sort strategy w h ((afterCalls sort strategy h).entry w).breaker) :
    Watch sort strategy w (call :: h) ((afterCalls sort strategy (call :: h)).entry w).breaker := by
  have hconsistent := consistent_afterCalls sort strategy h w
  have hstep : (afterCalls sort strategy (call :: h)).entry w =
      ((afterCalls sort strategy h).entry w).step w call :=
    apply_entry sort _ call w
  obtain ⟨-, hlisted⟩ := hlisted
  rw [mem_workers_iff] at hlisted
  rw [hstep]
  have hbreaker : (afterCalls sort strategy h).circuitBreakers[w]? =
      ((afterCalls sort strategy h).entry w).breaker :=
    rfl
  generalize (afterCalls sort strategy h).entry w = e at *
  obtain ⟨op, now⟩ := call
  cases op with
  | setStrategy s => exact hw.other rfl rfl
  | updateWorkers services =>
    dsimp only [WorkerEntry.step] at hlisted ⊢
    cases hnode : e.node.isSome with
    | true =>
      rw [if_pos (listed_iff.2 (hlisted hnode)), listAll_breaker_of_node services now hnode]
      exact hw.other rfl rfl
    | false =>
      -- no node, so no breaker either: a listing makes a new one
      have habsent : e = WorkerEntry.absent := by
        rcases hconsistent with habsent | ⟨node, b, he, -⟩
        · exact habsent
        · rw [he] at hnode
          cases hnode
      subst habsent
      split
      · rename_i hmem
        rw [listAll_breaker_of_new now rfl (listed_iff.1 hmem)]
        exact (hw.other rfl rfl).joined w
      · exact hw.other rfl rfl
  | updateWorkerLoad id load =>
    dsimp only [WorkerEntry.step]
    split <;> exact hw.other rfl rfl
  | removeWorker id =>
    dsimp only [WorkerEntry.step] at hlisted ⊢
    split
    · rename_i hid
      rcases hconsistent with habsent | ⟨node, b, he, -⟩
      · rw [habsent] at hw
        exact hw.other rfl rfl
      -- a worker that stays listed is not removed
      · exact absurd hid (hlisted (by rw [he]; rfl))
    · exact hw.other rfl rfl
  | markWorkerDead id =>
    dsimp only [WorkerEntry.step]
    split <;> exact hw.other rfl rfl
  | selectWorker taskId =>
    dsimp only [WorkerEntry.step, ask]
    split
    · exact hw.asked rfl rfl
    · exact hw.other rfl rfl
  | isWorkerAvailable id =>
    dsimp only [WorkerEntry.step, ask]
    split
    · split
      · exact hw.asked rfl rfl
      · exact hw.other rfl rfl
    · exact hw.other rfl rfl
  | recordSuccess id =>
    dsimp only [WorkerEntry.step]
    split
    · rename_i hid
      exact hw.succeeded (by simpa [successOf] using hid) rfl hbreaker
    · rename_i hid
      exact hw.other rfl (by simpa [successOf] using hid)
  | recordFailure id =>
    dsimp only [WorkerEntry.step]
    split
    · rename_i hid
      exact hw.failed (by simpa [failureOf] using hid) rfl hbreaker
    · rename_i hid
      exact hw.other (by simpa [failureOf] using hid) rfl

theorem watch_afterCalls (hlisted : StaysListed sort strategy w h) :
    Watch sort strategy w h ((afterCalls sort strategy h).entry w).breaker := by
  induction h with
  | nil =>
    rw [entry_afterCalls]
    exact .absent rfl rfl
  | cons call h ih => exact watch_step hlisted (ih hlisted.1)

/-- A worker that is refused when asked is neither available nor selected. -/
theorem not_yielded {lb : LoadBalancer} {now : Int} (hask : ((lb.entry w).ask now).1 = false) :
    (lb.isWorkerAvailable w now).1 = false ∧
      ∀ taskId, w ≠ [] → (lb.selectWorker sort taskId now).1 ≠ w := by
  refine ⟨(isWorkerAvailable_eq lb w now).1.trans hask, ?_⟩
  intro taskId hne hselected
  have hchosen := selectWorker_chosen sort lb taskId now
  have hmem : w ∈ (lb.available now).map (·.1) := by
    rw [← hselected]
    refine hchosen.somebody ?_
    intro hempty
    exact hne (hselected ▸ hchosen.nobody hempty)
  obtain ⟨⟨id, node⟩, havailable, rfl⟩ := List.mem_map.1 hmem
  rw [(mem_available.1 havailable).2] at hask
  cases hask

end Runs

end LoadBalancer

open LoadBalancer in
/-- A tripped worker is yielded by no call made before 30 full seconds have passed since the latest failure that
was reported of it. -/
theorem tripped_not_selected (sort : StdSort) (strategy w : Bytes) (h : List (Timed BalancerOp))
    (hlisted : StaysListed sort strategy w h) (htrip : tripped sort strategy w h = true) :
    ∃ f, latest (failureOf w) h = some f ∧
      ∀ now, (∀ e ∈ h, e.time ≤ now) → now < f.time + 30 * 1000000000 →
        ((afterCalls sort strategy h).isWorkerAvailable w now).1 = false ∧
          ∀ taskId, w ≠ [] → ((afterCalls sort strategy h).selectWorker sort taskId now).1 ≠ w := by
  have hw := watch_afterCalls hlisted
  generalize hb : ((afterCalls sort strategy h).entry w).breaker = breaker at hw
  cases hw with
  | absent _ hnot =>
    rw [hnot] at htrip
    cases htrip
  | closed _ _ _ _ _ hnot =>
    rw [hnot] at htrip
    cases htrip
  | @opened b f hconfig hstate _ hf hlast =>
    refine ⟨f, hf, fun now hclock hearly => not_yielded ?_⟩
    have hrefused : (b.allowRequest now).1 = false := by
      have hle := hclock f (latest_mem hf)
      have hthirty : ({} : CircuitBreaker.Config).recoveryTimeoutSeconds.toInt = 30 := rfl
      have hlt : ¬ CircuitBreaker.toSeconds (now - f.time) ≥ 30 := by
        rw [CircuitBreaker.toSeconds_of_nonneg (by omega)]
        omega
      simp only [CircuitBreaker.allowRequest, hstate, hconfig, hlast, hthirty, if_neg hlt]
    unfold WorkerEntry.ask
    split
    · simp [hb, hrefused]
    · rfl
  | @halfOpen b f e _ _ _ hf hmem hpassed =>
    -- the call that recovered the breaker came after the window
    refine ⟨f, hf, fun now hclock hearly => ?_⟩
    have hle := hclock e hmem
    omega

open LoadBalancer in
/-- Three failures by the time 3, and a call at the last nanosecond of the window. -/
theorem tripped_not_selected_third :
    ((afterCalls .stable (bytes "round_robin") [⟨.recordFailure (bytes "worker-1"), 3⟩,
      ⟨.recordFailure (bytes "worker-1"), 2⟩, ⟨.recordFailure (bytes "worker-1"), 1⟩,
      workerJoins]).isWorkerAvailable (bytes "worker-1") 30000000002).1 = false := by
  obtain ⟨f, hf, hwindow⟩ := tripped_not_selected .stable (bytes "round_robin") (bytes "worker-1")
    [⟨.recordFailure (bytes "worker-1"), 3⟩, ⟨.recordFailure (bytes "worker-1"), 2⟩,
      ⟨.recordFailure (bytes "worker-1"), 1⟩, workerJoins]
    ⟨⟨⟨⟨trivial, fun _ => List.mem_singleton.2 rfl⟩, fun _ => trivial⟩, fun _ => trivial⟩, fun _ =>
      trivial⟩ (by decide)
  cases hf
  refine (hwindow 30000000002 ?_ (by decide)).1
  simp [workerJoins]

end Taskflow
