import Taskflow.Lib.BitFields
import Taskflow.Lib.History
import Taskflow.Lib.Text

/-!
# `CircuitBreaker`

`src/common/circuit_breaker.cpp`.  Times are readings of the steady clock in nanoseconds.  Key facts: each operation
takes an arrow of the state diagram (`apply_transition`), the members are functions of the history of calls
(`inv_afterCalls`), and so the breaker meets its history specification (`breaker_meets_history`).
-/

namespace Taskflow

open Text History

inductive CircuitState where
  | CLOSED
  | OPEN
  | HALF_OPEN
  deriving DecidableEq, Repr

structure CircuitBreaker.Config where
  failureThreshold : Int32 := 3
  recoveryTimeoutSeconds : Int32 := 30
  successThreshold : Int32 := 1
  deriving DecidableEq

structure CircuitBreaker where
  name : Bytes
  config : CircuitBreaker.Config
  state : CircuitState := .CLOSED
  failureCount : Int32 := 0
  successCount : Int32 := 0
  lastFailureTime : Int := 0
  deriving DecidableEq

namespace CircuitBreaker

/-- `duration_cast` from nanoseconds to seconds. -/
def toSeconds (duration : Int) : Int := duration.tdiv 1000000000

def allowRequest (b : CircuitBreaker) (now : Int) : Bool × CircuitBreaker :=
  match b.state with
  | .CLOSED => (true, b)
  | .OPEN =>
    let elapsed := toSeconds (now - b.lastFailureTime)
    if elapsed ≥ b.config.recoveryTimeoutSeconds.toInt then (true, { b with state := .HALF_OPEN }) else (false, b)
  | .HALF_OPEN => (true, b)

def tripOpen (b : CircuitBreaker) : CircuitBreaker := { b with state := .OPEN, successCount := 0 }

def resetToClosed (b : CircuitBreaker) : CircuitBreaker :=
  { b with state := .CLOSED, failureCount := 0, successCount := 0 }

def recordSuccess (b : CircuitBreaker) : CircuitBreaker :=
  if b.state = .HALF_OPEN then
    let b := { b with successCount := b.successCount + 1 }
    if b.successCount ≥ b.config.successThreshold then b.resetToClosed else b
  else if b.state = .CLOSED then { b with failureCount := 0 }
  else b

def recordFailure (b : CircuitBreaker) (now : Int) : CircuitBreaker :=
  let b := { b with failureCount := b.failureCount + 1, lastFailureTime := now }
  if b.state = .HALF_OPEN then b.tripOpen
  else if b.state = .CLOSED then
    if b.failureCount ≥ b.config.failureThreshold then b.tripOpen else b
  else b

def reset (b : CircuitBreaker) : CircuitBreaker := b.resetToClosed

end CircuitBreaker

/-! ### Histories of a breaker -/

inductive BreakerOp where
  | allowRequest
  | recordSuccess
  | recordFailure
  | reset
  deriving DecidableEq

namespace CircuitBreaker

def apply (b : CircuitBreaker) (e : Timed BreakerOp) : CircuitBreaker :=
  match e.op with
  | .allowRequest => (b.allowRequest e.time).2
  | .recordSuccess => b.recordSuccess
  | .recordFailure => b.recordFailure e.time
  | .reset => b.reset

/-- The breaker that a history of calls leaves. -/
def afterCalls (name : Bytes) (config : Config) (h : List (Timed BreakerOp)) : CircuitBreaker :=
  after apply { name := name, config := config } h

section Specification

variable (name : Bytes) (config : Config)

def stateAfter (h : List (Timed BreakerOp)) : CircuitState := (afterCalls name config h).state

/-- The call `e` takes the breaker into state `s` from another one. -/
def entered (s : CircuitState) (e : Timed BreakerOp) (h : List (Timed BreakerOp)) : Bool :=
  stateAfter name config h ≠ s && stateAfter name config (e :: h) = s

/-- The `recordFailure` calls since the latest of construction, entry into `CLOSED`, `reset` and `recordSuccess`. -/
def failures : List (Timed BreakerOp) → Nat :=
  countSince (fun e _ => e.op = .recordFailure) fun e h =>
    entered name config .CLOSED e h || e.op = .reset || e.op = .recordSuccess

/-- The `recordSuccess` calls since the latest entry into `HALF_OPEN`. -/
def probes : List (Timed BreakerOp) → Nat :=
  countSince (fun e _ => e.op = .recordSuccess) (entered name config .HALF_OPEN)

def latestFailure : List (Timed BreakerOp) → Option (Timed BreakerOp) := latest (· = .recordFailure)

/-- What the history specification says of the breaker after `h`, and of one more call `e`. -/
structure MeetsHistory (h : List (Timed BreakerOp)) : Prop where
  closed : stateAfter name config h = .CLOSED →
    (afterCalls name config h).failureCount.toInt = failures name config h ∧
      failures name config h < config.failureThreshold.toInt ∧
      ∀ e, stateAfter name config (e :: h) ≠ .CLOSED ↔
        e.op = .recordFailure ∧ failures name config h + 1 = config.failureThreshold.toInt
  opened : stateAfter name config h = .OPEN → ∃ f, latestFailure h = some f ∧
    ∀ now, Timely (⟨.allowRequest, now⟩ :: h) →
    (((afterCalls name config h).allowRequest now).1 = false ↔
        (now - f.time) / 1000000000 < config.recoveryTimeoutSeconds.toInt) ∧
      (stateAfter name config (⟨.allowRequest, now⟩ :: h) = .HALF_OPEN ↔
        config.recoveryTimeoutSeconds.toInt ≤ (now - f.time) / 1000000000)
  halfOpen : stateAfter name config h = .HALF_OPEN →
    (afterCalls name config h).successCount.toInt = probes name config h ∧
      (∀ e, e.op ≠ .reset → (stateAfter name config (e :: h) = .CLOSED ↔
        e.op = .recordSuccess ∧ probes name config h + 1 = config.successThreshold.toInt)) ∧
      ∀ e, e.op = .recordFailure → stateAfter name config (e :: h) = .OPEN
  notDirectly : stateAfter name config h = .OPEN → ∀ e, e.op ≠ .reset →
    stateAfter name config (e :: h) ≠ .CLOSED

end Specification

/-! ### The transitions -/

theorem toSeconds_of_nonneg {d : Int} (hd : 0 ≤ d) : toSeconds d = d / 1000000000 :=
  Int.tdiv_eq_ediv_of_nonneg hd

/-- So many whole seconds are at least so many nanoseconds. -/
theorem le_of_le_toSeconds {seconds d : Int} (hpos : 0 < seconds) (h : seconds ≤ toSeconds d) :
    seconds * 1000000000 ≤ d := by
  rcases le_total 0 d with hd | hd
  · rw [toSeconds_of_nonneg hd] at h
    omega
  · have hneg : toSeconds d = -(-d / 1000000000) := by
      rw [← toSeconds_of_nonneg (by omega), toSeconds, toSeconds, Int.neg_tdiv, neg_neg]
    omega

/-- The state diagram: what each operation does in each state. -/
inductive Transition (b : CircuitBreaker) : BreakerOp → Int → CircuitBreaker → Prop
  | allowed {now : Int} (hs : b.state ≠ .OPEN) : Transition b .allowRequest now b
  | refused {now : Int} (hs : b.state = .OPEN)
      (he : toSeconds (now - b.lastFailureTime) < b.config.recoveryTimeoutSeconds.toInt) :
      Transition b .allowRequest now b
  | probe {now : Int} (hs : b.state = .OPEN)
      (he : b.config.recoveryTimeoutSeconds.toInt ≤ toSeconds (now - b.lastFailureTime)) :
      Transition b .allowRequest now { b with state := .HALF_OPEN }
  | cleared {now : Int} (hs : b.state = .CLOSED) : Transition b .recordSuccess now { b with failureCount := 0 }
  | ignored {now : Int} (hs : b.state = .OPEN) : Transition b .recordSuccess now b
  | counted {now : Int} (hs : b.state = .HALF_OPEN) (hc : b.successCount + 1 < b.config.successThreshold) :
      Transition b .recordSuccess now { b with successCount := b.successCount + 1 }
  | recovered {now : Int} (hs : b.state = .HALF_OPEN) (hc : b.config.successThreshold ≤ b.successCount + 1) :
      Transition b .recordSuccess now { b with state := .CLOSED, failureCount := 0, successCount := 0 }
  | failed {now : Int} (hs : b.state = .CLOSED) (hc : b.failureCount + 1 < b.config.failureThreshold) :
      Transition b .recordFailure now { b with failureCount := b.failureCount + 1, lastFailureTime := now }
  | tripped {now : Int} (hs : b.state = .CLOSED) (hc : b.config.failureThreshold ≤ b.failureCount + 1) :
      Transition b .recordFailure now
        { b with state := .OPEN, failureCount := b.failureCount + 1, successCount := 0, lastFailureTime := now }
  | late {now : Int} (hs : b.state = .OPEN) :
      Transition b .recordFailure now { b with failureCount := b.failureCount + 1, lastFailureTime := now }
  | relapsed {now : Int} (hs : b.state = .HALF_OPEN) :
      Transition b .recordFailure now
        { b with state := .OPEN, failureCount := b.failureCount + 1, successCount := 0, lastFailureTime := now }
  | reset {now : Int} :
      Transition b .reset now { b with state := .CLOSED, failureCount := 0, successCount := 0 }

theorem allowRequest_transition (b : CircuitBreaker) (now : Int) :
    Transition b .allowRequest now (b.allowRequest now).2 := by
  unfold allowRequest
  split
  · rename_i hs
    exact .allowed (by rw [hs]; decide)
  · rename_i hs
    dsimp only
    split
    · rename_i he
      exact .probe hs he
    · rename_i he
      exact .refused hs (not_le.1 he)
  · rename_i hs
    exact .allowed (by rw [hs]; decide)

theorem recordSuccess_transition (b : CircuitBreaker) (now : Int) :
    Transition b .recordSuccess now b.recordSuccess := by
  unfold recordSuccess
  split
  · rename_i hs
    dsimp only
    split
    · rename_i hc
      exact .recovered hs hc
    · rename_i hc
      exact .counted hs (Int32.not_le.1 hc)
  · rename_i hs
    split
    · rename_i hs
      exact .cleared hs
    · rename_i hs'
      refine .ignored ?_
      cases h : b.state with
      | CLOSED => exact absurd h hs'
      | OPEN => rfl
      | HALF_OPEN => exact absurd h hs

theorem recordFailure_transition (b : CircuitBreaker) (now : Int) :
    Transition b .recordFailure now (b.recordFailure now) := by
  unfold recordFailure
  cases h : b.state with
  | CLOSED =>
    simp only [reduceCtorEq, if_false, if_true]
    split
    · rename_i hc
      exact .tripped h hc
    · rename_i hc
      have hfailed := @Transition.failed b now h (Int32.not_le.1 hc)
      rwa [h] at hfailed
  | OPEN =>
    simp only [reduceCtorEq, if_false]
    have hlate := @Transition.late b now h
    rwa [h] at hlate
  | HALF_OPEN => exact .relapsed h

/-- A breaker that lets a request through is not open afterwards. -/
theorem allowRequest_not_opened {b : CircuitBreaker} {now : Int} (h : (b.allowRequest now).1 = true) :
    (b.allowRequest now).2.state ≠ .OPEN := by
  unfold allowRequest at h ⊢
  split
  · rename_i hs
    simp [hs]
  · rename_i hs
    rw [hs] at h
    dsimp only at h ⊢
    split
    · simp
    · rename_i hlt
      rw [if_neg hlt] at h
      cases h
  · rename_i hs
    simp [hs]

theorem apply_transition (b : CircuitBreaker) (e : Timed BreakerOp) : Transition b e.op e.time (b.apply e) := by
  unfold apply
  cases e.op with
  | allowRequest => exact allowRequest_transition b e.time
  | recordSuccess => exact recordSuccess_transition b e.time
  | recordFailure => exact recordFailure_transition b e.time
  | reset => exact .reset

/-! ### The invariant of a history -/

section Invariant

variable {name : Bytes} {config : Config} {h : List (Timed BreakerOp)} {e : Timed BreakerOp}

theorem failures_reset (hb : entered name config .CLOSED e h = true ∨ e.op = .reset ∨ e.op = .recordSuccess) :
    failures name config (e :: h) = 0 := by
  refine countSince_boundary ?_
  simpa only [Bool.or_eq_true, decide_eq_true_eq, or_assoc] using hb

theorem failures_counted (hs : stateAfter name config h = .CLOSED) (he : e.op = .recordFailure) :
    failures name config (e :: h) = failures name config h + 1 :=
  countSince_count (by simp [entered, hs, he]) (by simp [he])

theorem failures_kept (hs : stateAfter name config h = .CLOSED) (he : e.op = .allowRequest) :
    failures name config (e :: h) = failures name config h :=
  countSince_skip (by simp [entered, hs, he]) (by simp [he])

theorem probes_entered (hb : entered name config .HALF_OPEN e h = true) : probes name config (e :: h) = 0 :=
  countSince_boundary hb

theorem probes_counted (hs : stateAfter name config h = .HALF_OPEN) (he : e.op = .recordSuccess) :
    probes name config (e :: h) = probes name config h + 1 :=
  countSince_count (by simp [entered, hs]) (by simp [he])

theorem probes_kept (hs : stateAfter name config h = .HALF_OPEN) (he : e.op = .allowRequest) :
    probes name config (e :: h) = probes name config h :=
  countSince_skip (by simp [entered, hs]) (by simp [he])

theorem latestFailure_failure (he : e.op = .recordFailure) : latestFailure (e :: h) = some e :=
  latest_cons_of h (by simp [he])

theorem latestFailure_other (he : e.op ≠ .recordFailure) : latestFailure (e :: h) = latestFailure h :=
  latest_cons_of_not h (by simp [he])

/-- What the members hold in each state, in terms of the history. -/
structure Inv (name : Bytes) (config : Config) (h : List (Timed BreakerOp)) : Prop where
  sameConfig : (afterCalls name config h).config = config
  closed : (afterCalls name config h).state = .CLOSED →
    (afterCalls name config h).failureCount.toInt = failures name config h ∧
      failures name config h < config.failureThreshold.toInt
  opened : (afterCalls name config h).state = .OPEN → (afterCalls name config h).successCount = 0 ∧
    ∃ f, latestFailure h = some f ∧ (afterCalls name config h).lastFailureTime = f.time
  halfOpen : (afterCalls name config h).state = .HALF_OPEN →
    (afterCalls name config h).successCount.toInt = probes name config h ∧
      probes name config h < config.successThreshold.toInt

theorem inv_start (hf : 1 ≤ config.failureThreshold.toInt) : Inv name config [] := by
  refine ⟨rfl, fun _ => ⟨rfl, ?_⟩, fun hs => ?_, fun hs => ?_⟩
  · simp only [failures, countSince]
    omega
  · cases hs
  · cases hs

private theorem inv_closed {b : CircuitBreaker} (hb : afterCalls name config h = b) (hconfig : b.config = config)
    (hs : b.state = .CLOSED) (hcount : b.failureCount.toInt = failures name config h)
    (hlt : failures name config h < config.failureThreshold.toInt) : Inv name config h := by
  subst hb
  refine ⟨hconfig, fun _ => ⟨hcount, hlt⟩, fun hs' => ?_, fun hs' => ?_⟩
  · rw [hs] at hs'
    cases hs'
  · rw [hs] at hs'
    cases hs'

private theorem inv_opened {b : CircuitBreaker} {f : Timed BreakerOp} (hb : afterCalls name config h = b)
    (hconfig : b.config = config) (hs : b.state = .OPEN) (hsuccess : b.successCount = 0)
    (hf : latestFailure h = some f) (hlast : b.lastFailureTime = f.time) : Inv name config h := by
  subst hb
  refine ⟨hconfig, fun hs' => ?_, fun _ => ⟨hsuccess, f, hf, hlast⟩, fun hs' => ?_⟩
  · rw [hs] at hs'
    cases hs'
  · rw [hs] at hs'
    cases hs'

private theorem inv_halfOpen {b : CircuitBreaker} (hb : afterCalls name config h = b) (hconfig : b.config = config)
    (hs : b.state = .HALF_OPEN) (hcount : b.successCount.toInt = probes name config h)
    (hlt : probes name config h < config.successThreshold.toInt) : Inv name config h := by
  subst hb
  refine ⟨hconfig, fun hs' => ?_, fun hs' => ?_, fun _ => ⟨hcount, hlt⟩⟩
  · rw [hs] at hs'
    cases hs'
  · rw [hs] at hs'
    cases hs'

/-- One call keeps the invariant: one case for each arrow of the state diagram. -/
theorem inv_step (hf : 1 ≤ config.failureThreshold.toInt) (hp : 1 ≤ config.successThreshold.toInt)
    (hinv : Inv name config h) (e : Timed BreakerOp) : Inv name config (e :: h) := by
  obtain ⟨op, now⟩ := e
  have htrans := apply_transition (afterCalls name config h) ⟨op, now⟩
  obtain ⟨hconfig, hclosed, hopened, hhalf⟩ := hinv
  have hbefore : stateAfter name config h = (afterCalls name config h).state := rfl
  have hafter : stateAfter name config (⟨op, now⟩ :: h) = (afterCalls name config (⟨op, now⟩ :: h)).state := rfl
  generalize hb' : CircuitBreaker.apply _ _ = b' at htrans
  replace hb' : afterCalls name config (⟨op, now⟩ :: h) = b' := hb'
  rw [hb'] at hafter
  generalize hb : afterCalls name config h = b at *
  dsimp only at htrans
  cases htrans with
  | allowed hs =>
    cases hstate : b'.state with
    | CLOSED =>
      obtain ⟨hcount, hlt⟩ := hclosed hstate
      have hkept : failures name config (⟨.allowRequest, now⟩ :: h) = failures name config h :=
        failures_kept (hbefore.trans hstate) rfl
      rw [← hkept] at hcount hlt
      exact inv_closed hb' hconfig hstate hcount hlt
    | OPEN => exact absurd hstate hs
    | HALF_OPEN =>
      obtain ⟨hcount, hlt⟩ := hhalf hstate
      have hkept : probes name config (⟨.allowRequest, now⟩ :: h) = probes name config h :=
        probes_kept (hbefore.trans hstate) rfl
      rw [← hkept] at hcount hlt
      exact inv_halfOpen hb' hconfig hstate hcount hlt
  | refused hs he =>
    obtain ⟨hzero, f, hfail, hlast⟩ := hopened hs
    exact inv_opened hb' hconfig hs hzero ((latestFailure_other (by simp)).trans hfail) hlast
  | probe hs he =>
    have hentered : probes name config (⟨.allowRequest, now⟩ :: h) = 0 :=
      probes_entered (by simp [entered, hbefore, hafter, hs])
    refine inv_halfOpen hb' hconfig rfl ?_ ?_
    · -- `tripOpen` has cleared the count that the probes start from
      simp [hentered, (hopened hs).1]
    · rw [hentered]
      omega
  | cleared hs =>
    have hzero : failures name config (⟨.recordSuccess, now⟩ :: h) = 0 := failures_reset (by simp)
    refine inv_closed hb' hconfig hs ?_ ?_
    · simp [hzero]
    · rw [hzero]
      omega
  | ignored hs =>
    obtain ⟨hzero, f, hfail, hlast⟩ := hopened hs
    exact inv_opened hb' hconfig hs hzero ((latestFailure_other (by simp)).trans hfail) hlast
  | counted hs hc =>
    obtain ⟨hcount, hlt⟩ := hhalf hs
    rw [hconfig, Int32.lt_iff_toInt_lt, BitFields.toInt_succ (hcount ▸ hlt)] at hc
    have hprobes : probes name config (⟨.recordSuccess, now⟩ :: h) = probes name config h + 1 :=
      probes_counted (hbefore.trans hs) rfl
    refine inv_halfOpen hb' hconfig hs ?_ ?_
    · rw [BitFields.toInt_succ (hcount ▸ hlt), hprobes]
      omega
    · rw [hprobes]
      omega
  | recovered hs hc =>
    have hzero : failures name config (⟨.recordSuccess, now⟩ :: h) = 0 := failures_reset (by simp)
    refine inv_closed hb' hconfig rfl ?_ ?_
    · simp [hzero]
    · rw [hzero]
      omega
  | failed hs hc =>
    obtain ⟨hcount, hlt⟩ := hclosed hs
    rw [hconfig, Int32.lt_iff_toInt_lt, BitFields.toInt_succ (hcount ▸ hlt)] at hc
    have hfailures : failures name config (⟨.recordFailure, now⟩ :: h) = failures name config h + 1 :=
      failures_counted (hbefore.trans hs) rfl
    refine inv_closed hb' hconfig hs ?_ ?_
    · rw [BitFields.toInt_succ (hcount ▸ hlt), hfailures]
      omega
    · rw [hfailures]
      omega
  | tripped hs hc => exact inv_opened hb' hconfig rfl rfl (latestFailure_failure rfl) rfl
  | late hs => exact inv_opened hb' hconfig hs (hopened hs).1 (latestFailure_failure rfl) rfl
  | relapsed hs => exact inv_opened hb' hconfig rfl rfl (latestFailure_failure rfl) rfl
  | reset =>
    have hzero : failures name config (⟨.reset, now⟩ :: h) = 0 := failures_reset (by simp)
    refine inv_closed hb' hconfig rfl ?_ ?_
    · simp [hzero]
    · rw [hzero]
      omega

theorem inv_afterCalls (hf : 1 ≤ config.failureThreshold.toInt) (hp : 1 ≤ config.successThreshold.toInt)
    (h : List (Timed BreakerOp)) : Inv name config h := by
  induction h with
  | nil => exact inv_start hf
  | cons e h ih => exact inv_step hf hp ih e

/-- From `CLOSED` a breaker goes on only to `OPEN`, with the failure that reaches the threshold. -/
theorem leaves_closed (hinv : Inv name config h) (hs : stateAfter name config h = .CLOSED) (e : Timed BreakerOp) :
    stateAfter name config (e :: h) ≠ .CLOSED ↔
      e.op = .recordFailure ∧ failures name config h + 1 = config.failureThreshold.toInt := by
  obtain ⟨hcount, hlt⟩ := hinv.closed hs
  have hconfig := hinv.sameConfig
  have hafter : stateAfter name config (e :: h) = ((afterCalls name config h).apply e).state := rfl
  have htrans := apply_transition (afterCalls name config h) e
  rw [hafter]
  replace hs : (afterCalls name config h).state = .CLOSED := hs
  generalize (afterCalls name config h).apply e = b' at htrans
  generalize afterCalls name config h = b at *
  have hsucc := BitFields.toInt_succ (hcount ▸ hlt)
  obtain ⟨op, now⟩ := e
  dsimp only at htrans
  cases htrans with
  | allowed _ => simp [hs]
  | refused hs' _ => simp [hs] at hs'
  | probe hs' _ => simp [hs] at hs'
  | cleared _ => simp [hs]
  | ignored hs' => simp [hs] at hs'
  | counted hs' _ => simp [hs] at hs'
  | recovered hs' _ => simp [hs] at hs'
  | failed _ hc =>
    rw [hconfig, Int32.lt_iff_toInt_lt, hsucc] at hc
    simp only [hs, ne_eq, not_true_eq_false, true_and, false_iff]
    omega
  | tripped _ hc =>
    rw [hconfig, Int32.le_iff_toInt_le, hsucc] at hc
    simp only [ne_eq, reduceCtorEq, not_false_eq_true, true_and, true_iff]
    omega
  | late hs' => simp [hs] at hs'
  | relapsed hs' => simp [hs] at hs'
  | reset => simp

/-- While `OPEN`, a request is refused until the timeout has passed since the latest failure; then it is a probe. -/
theorem allowRequest_opened (hinv : Inv name config h) (hs : stateAfter name config h = .OPEN) :
    ∃ f, latestFailure h = some f ∧ ∀ now, Timely (⟨.allowRequest, now⟩ :: h) →
      (((afterCalls name config h).allowRequest now).1 = false ↔
          (now - f.time) / 1000000000 < config.recoveryTimeoutSeconds.toInt) ∧
        (stateAfter name config (⟨.allowRequest, now⟩ :: h) = .HALF_OPEN ↔
          config.recoveryTimeoutSeconds.toInt ≤ (now - f.time) / 1000000000) := by
  obtain ⟨-, f, hf, hlast⟩ := hinv.opened hs
  refine ⟨f, hf, ?_⟩
  intro now ht
  have hle : f.time ≤ now := ht.le (latest_mem hf)
  have hafter : stateAfter name config (⟨.allowRequest, now⟩ :: h) =
    ((afterCalls name config h).allowRequest now).2.state := rfl
  replace hs : (afterCalls name config h).state = .OPEN := hs
  rw [hafter]
  unfold allowRequest
  rw [hs, hinv.sameConfig, hlast]
  dsimp only
  rw [toSeconds_of_nonneg (by omega)]
  split
  · rename_i hge
    simp [hge, not_lt.2 hge]
  · rename_i hlt
    simp [hs, not_le.1 hlt, hlt]

/-- From `HALF_OPEN` a breaker closes with the success that reaches the threshold, and reopens with any failure. -/
theorem leaves_halfOpen (hinv : Inv name config h) (hs : stateAfter name config h = .HALF_OPEN)
    (e : Timed BreakerOp) :
    (e.op ≠ .reset → (stateAfter name config (e :: h) = .CLOSED ↔
        e.op = .recordSuccess ∧ probes name config h + 1 = config.successThreshold.toInt)) ∧
      (e.op = .recordFailure → stateAfter name config (e :: h) = .OPEN) := by
  obtain ⟨hcount, hlt⟩ := hinv.halfOpen hs
  have hconfig := hinv.sameConfig
  have hafter : stateAfter name config (e :: h) = ((afterCalls name config h).apply e).state := rfl
  have htrans := apply_transition (afterCalls name config h) e
  rw [hafter]
  replace hs : (afterCalls name config h).state = .HALF_OPEN := hs
  generalize (afterCalls name config h).apply e = b' at htrans
  generalize afterCalls name config h = b at *
  have hsucc := BitFields.toInt_succ (hcount ▸ hlt)
  obtain ⟨op, now⟩ := e
  dsimp only at htrans
  cases htrans with
  | allowed _ => simp [hs]
  | refused hs' _ => simp [hs] at hs'
  | probe hs' _ => simp [hs] at hs'
  | cleared hs' => simp [hs] at hs'
  | ignored hs' => simp [hs] at hs'
  -- below the threshold the success is only counted
  | counted _ hc =>
    rw [hconfig, Int32.lt_iff_toInt_lt, hsucc] at hc
    refine ⟨fun _ => ?_, fun he => by cases he⟩
    simp only [hs, reduceCtorEq, true_and, false_iff]
    omega
  | recovered _ hc =>
    rw [hconfig, Int32.le_iff_toInt_le, hsucc] at hc
    refine ⟨fun _ => ?_, fun he => by cases he⟩
    simp only [true_and, true_iff]
    omega
  | failed hs' _ => simp [hs] at hs'
  | tripped hs' _ => simp [hs] at hs'
  | late hs' => simp [hs] at hs'
  | relapsed _ => simp
  | reset => simp

theorem opened_not_closed {b b' : CircuitBreaker} {op : BreakerOp} {now : Int} (h : Transition b op now b')
    (hs : b.state = .OPEN) (hop : op ≠ .reset) : b'.state ≠ .CLOSED := by
  intro hs'
  cases h with
  | allowed hs'' => exact hs'' hs
  | reset => exact hop rfl
  | _ => simp_all

end Invariant

end CircuitBreaker

open CircuitBreaker in
/-- The breaker is what its history says, for every history of calls and all thresholds. -/
theorem breaker_meets_history (name : Bytes) (config : CircuitBreaker.Config)
    (hf : 1 ≤ config.failureThreshold.toInt) (hp : 1 ≤ config.successThreshold.toInt)
    (h : List (Timed BreakerOp)) : MeetsHistory name config h := by
  have hinv : Inv name config h := inv_afterCalls hf hp h
  refine ⟨?_, allowRequest_opened hinv, ?_, ?_⟩
  · intro hs
    obtain ⟨hcount, hlt⟩ := hinv.closed hs
    exact ⟨hcount, hlt, leaves_closed hinv hs⟩
  · intro hs
    exact ⟨(hinv.halfOpen hs).1, fun e => (leaves_halfOpen hinv hs e).1, fun e => (leaves_halfOpen hinv hs e).2⟩
  · intro hs e he
    exact opened_not_closed (apply_transition _ e) hs he

open CircuitBreaker in
/-- The breaker of a worker after three failures. -/
theorem breaker_meets_history_tripped :
    MeetsHistory (bytes "worker-1") {} [⟨.recordFailure, 3⟩, ⟨.recordFailure, 2⟩, ⟨.recordFailure, 1⟩] :=
  breaker_meets_history _ _ (by decide) (by decide) _

end Taskflow
