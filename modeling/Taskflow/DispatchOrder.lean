import Taskflow.ExactlyOnce
import Taskflow.Lib.Executions
import Taskflow.Lib.FirstCome
import Taskflow.Scheduler

/-!
# The order of dispatch

One dispatch loop and any number of submitters.  The submitted tasks of one list are a line before a desk
(`FirstCome.Desk`): the loop takes the head in hand and gives it a worker, or pushes it back to the end when
none is available.  So tasks of one priority get their workers in the order of their latest pushes, and in the
order of their submissions if none is pushed back behind another (`dispatched_in_order`).
-/

namespace Taskflow

open Text Effects Prog FirstCome

abbrev DispatchMoment (σ : Type) := Moment (σ ⊕ Unit) Effect Effect.Answer Keyspace

/-- The id that an effect pushes onto a list. -/
def pushedId : Effect → Option Bytes
  | .command _ (.rpush _ x) => some x
  | _ => none

/-- The worker stored in a task's record. -/
def storedWorker (w : Keyspace) (i : Bytes) : Option Bytes :=
  match w[taskKey i]? with
  | some (.hash h) => h[bytes "worker_id"]?
  | _ => none

/-- The task that an effect gives its first worker. -/
def assignedId (w : Keyspace) : Effect → Option Bytes
  | .command _ (.hset key field _) =>
    let i := key.drop taskPrefix.length
    if field = bytes "worker_id" ∧ storedWorker w i = none then some i else none
  | _ => none

variable {σ : Type}

/-- The ids in the order of all pushes. -/
def pushes (τ : List (DispatchMoment σ)) : List Bytes := τ.filterMap fun m => pushedId m.event.1

/-- The ids in the order of the pushes by `submitTask`. -/
def submissions (τ : List (DispatchMoment σ)) : List Bytes :=
  τ.filterMap fun m => if m.thread.isLeft then pushedId m.event.1 else none

/-- The ids in the order in which they get a worker. -/
def assignments (τ : List (DispatchMoment σ)) : List Bytes := τ.filterMap fun m => assignedId m.world m.event.1

/-- The loop pushes a submitted task back onto the list `q` only when no other one waits there. -/
def RequeuedAlone (W : Workload σ) (q : Bytes) (τ : List (DispatchMoment σ)) : Prop :=
  ∀ m ∈ τ, m.thread = .inr () → ∀ context s, m.event.1 = .command context (.rpush q (W.request s).id) →
    ∀ s', (W.request s').id ∉ queueItems m.world q

/-! ### Where a submitted task is -/

variable {W : Workload σ} {w w' : Keyspace} {n n' : σ ⊕ Unit → Note}

/-- A submitted task is not pushed yet, waits in its list, is in the hands of the loop, or has a worker. -/
inductive Whereabouts (W : Workload σ) (w : Keyspace) (n : σ ⊕ Unit → Note) (s : σ) : Prop
  | new (hn : n (.inl s) ≠ .pushed) (hlists : ∀ q ∈ queueKeys, (W.request s).id ∉ queueItems w q)
      (hhand : (n (.inr ())).held ≠ some (W.request s).id) (hworker : storedWorker w (W.request s).id = none)
  | waiting (hn : n (.inl s) = .pushed) (hlist : (W.request s).id ∈ queueItems w (queueOf (W.request s).priority))
      (honce : occurrences w (W.request s).id = 1) (hhand : (n (.inr ())).held ≠ some (W.request s).id)
      (hworker : storedWorker w (W.request s).id = none)
  | inHand (hn : n (.inl s) = .pushed) (hlists : ∀ q ∈ queueKeys, (W.request s).id ∉ queueItems w q)
      (hhand : (n (.inr ())).held = some (W.request s).id) (hworker : storedWorker w (W.request s).id = none)
  | assigned (hn : n (.inl s) = .pushed) (hlists : ∀ q ∈ queueKeys, (W.request s).id ∉ queueItems w q)
      (hhand : (n (.inr ())).held ≠ some (W.request s).id) (hworker : storedWorker w (W.request s).id ≠ none)

theorem Stored.worker {i : Bytes} {A : StringMap Bytes → Prop} (h : Stored w i A) :
    ∃ f, A f ∧ storedWorker w i = f[bytes "worker_id"]? := by
  obtain ⟨f, hf, hA⟩ := h
  exact ⟨f, hA, by simp only [storedWorker, hf]⟩

theorem Inv.whereabouts (h : Inv W w n) (s : σ) : Whereabouts W w n s := by
  have hplace := h.places s
  have hfree : (∀ d, (n (.inr d)).task ≠ some (W.request s).id) → (n (.inr ())).held ≠ some (W.request s).id :=
    fun ht hheld => ht () (Note.task_of_held hheld)
  cases hm : n (.inl s) with
  | idle =>
    rw [hm] at hplace
    obtain ⟨hnone, hzero, ht⟩ := hplace
    exact .new (by rw [hm]; decide) (occurrences_eq_zero.1 hzero) (hfree ht) (by simp only [storedWorker, hnone])
  | saved =>
    rw [hm] at hplace
    obtain ⟨hstored, hzero, ht⟩ := hplace
    obtain ⟨f, hpend, hworker⟩ := hstored.worker
    exact .new (by rw [hm]; decide) (occurrences_eq_zero.1 hzero) (hfree ht) (by rw [hworker, hpend.2.2])
  | pushed =>
    rw [hm] at hplace
    rcases hplace with ⟨hstored, hone, hlist, hu⟩ | ⟨d, marked, hd, -, hzero, hstored⟩ |
      ⟨hstored, hzero, hu⟩
    · obtain ⟨f, hpend, hworker⟩ := hstored.worker
      exact .waiting hm hlist hone (hu ()) (by rw [hworker, hpend.2.2])
    · obtain ⟨f, hpend, hworker⟩ := hstored.worker
      have hheld : (n (.inr ())).held = some (W.request s).id := by
        rw [show n (.inr ()) = _ from hd]
        rfl
      exact .inHand hm (occurrences_eq_zero.1 hzero) hheld (by rw [hworker, hpend.2.2])
    · obtain ⟨f, ⟨-, -, v, -, hv⟩, hworker⟩ := hstored.worker
      exact .assigned hm (occurrences_eq_zero.1 hzero) (hu ()) (by rw [hworker, hv]; exact fun he => nomatch he)
  | holding j marked => rw [hm] at hplace; exact hplace.elim
  | assigned j => rw [hm] at hplace; exact hplace.elim

section Hands

variable {s : σ}

/-- A task in the hands of the loop is pushed, in no list and without a worker, and every such task is. -/
theorem held_iff (h : Inv W w n) (s : σ) : (n (.inr ())).held = some (W.request s).id ↔
    n (.inl s) = .pushed ∧ (∀ q ∈ queueKeys, (W.request s).id ∉ queueItems w q) ∧
      storedWorker w (W.request s).id = none := by
  cases h.whereabouts s with
  | new hn hlists hhand hworker => exact iff_of_false hhand fun h => hn h.1
  | waiting hn hlist honce hhand hworker => exact iff_of_false hhand fun h => h.2.1 _ (queueOf_mem _) hlist
  | inHand hn hlists hhand hworker => exact iff_of_true hhand ⟨hn, hlists, hworker⟩
  | assigned hn hlists hhand hworker => exact iff_of_false hhand fun h => hworker h.2.2

/-- A task in a list waits there, once. -/
theorem waiting_of_mem (h : Inv W w n) {q : Bytes} (hq : q ∈ queueKeys) (hmem : (W.request s).id ∈ queueItems w q) :
    n (.inl s) = .pushed ∧ (W.request s).id ∈ queueItems w (queueOf (W.request s).priority) ∧
      occurrences w (W.request s).id = 1 ∧ (n (.inr ())).held ≠ some (W.request s).id ∧
      storedWorker w (W.request s).id = none := by
  cases h.whereabouts s with
  | new _ hlists _ _ => exact absurd hmem (hlists q hq)
  | waiting hn hlist honce hhand hworker => exact ⟨hn, hlist, honce, hhand, hworker⟩
  | inHand _ hlists _ _ => exact absurd hmem (hlists q hq)
  | assigned _ hlists _ _ => exact absurd hmem (hlists q hq)

/-- A step of the loop leaves a task in its hands or out of them, if it changes neither its lists nor its worker. -/
theorem held_congr (h : Inv W w n) (h' : Inv W w' n') (hnote : n' (.inl s) = n (.inl s))
    (hlists : ∀ q ∈ queueKeys, (W.request s).id ∈ queueItems w' q ↔ (W.request s).id ∈ queueItems w q)
    (hworker : storedWorker w' (W.request s).id = storedWorker w (W.request s).id) :
    (n' (.inr ())).held = some (W.request s).id ↔ (n (.inr ())).held = some (W.request s).id := by
  rw [held_iff h, held_iff h', hnote, hworker]
  refine and_congr_right fun _ => and_congr_left fun _ => forall_congr' fun q => forall_congr' fun hq => ?_
  rw [hlists q hq]

end Hands

/-! ### The worker of a task -/

section Workers

variable {i : Bytes}

theorem storedWorker_congr (h : w'[taskKey i]? = w[taskKey i]?) : storedWorker w' i = storedWorker w i := by
  rw [storedWorker, storedWorker, h]

/-- The record after a write to it. -/
theorem storedWorker_insert {h : StringMap Bytes} :
    storedWorker (w.insert (taskKey i) (.hash h)) i = h[bytes "worker_id"]? := by
  simp [storedWorker]

theorem storedWorker_hset {j f v : Bytes} (hok : (exec (.hset (taskKey j) f v) w).1.isError = false) :
    storedWorker (exec (.hset (taskKey j) f v) w).2 i =
      if j = i ∧ f = bytes "worker_id" then some v else storedWorker w i := by
  by_cases hj : j = i
  · subst hj
    cases hw : w[taskKey j]? with
    | none =>
      simp only [exec, hw, storedWorker_insert]
      by_cases hf : f = bytes "worker_id" <;> simp [hf, storedWorker, hw]
    | some value =>
      cases value with
      | hash old =>
        simp only [exec, hw, storedWorker_insert]
        by_cases hf : f = bytes "worker_id" <;> simp [hf, storedWorker, hw]
      | string b => simp [exec, hw, Reply.isError] at hok
      | list l => simp [exec, hw, Reply.isError] at hok
  · rw [if_neg fun h => hj h.1]
    exact storedWorker_congr (exec_frame _ w fun he => hj (taskKey_injective he))

/-- A worker that is stored stays, whatever is written to the record. -/
theorem storedWorker_hmset {key : Bytes} {fields : StringMap Bytes} (h : storedWorker w i ≠ none) :
    storedWorker (exec (.hmset key fields.toList) w).2 i ≠ none := by
  by_cases hkey : key = taskKey i
  · subst hkey
    cases hw : w[taskKey i]? with
    | none => simp [storedWorker, hw] at h
    | some value =>
      cases value with
      | hash old =>
        have hold : storedWorker w i = old[bytes "worker_id"]? := by simp only [storedWorker, hw]
        rw [hold] at h
        simp only [exec, hw, storedWorker_insert, storeFields_getElem?]
        intro hnone
        exact h (Option.or_eq_none_iff.1 hnone).2
      | string b => simpa [exec, hw] using h
      | list l => simpa [exec, hw] using h
  · rwa [storedWorker_congr (exec_frame (.hmset key fields.toList) w hkey)]

end Workers

/-! ### The desk of a list -/

/-- A submitted task of the list `q`. -/
def Ours (W : Workload σ) (q x : Bytes) : Prop := ∃ s, (W.request s).id = x ∧ queueOf (W.request s).priority = q

open Classical in
/-- The submitted tasks of the list `q` after the moments `τ`. -/
noncomputable def desk (W : Workload σ) (q : Bytes) (τ : List (DispatchMoment σ)) (w : Keyspace)
    (n : σ ⊕ Unit → Note) :
    Desk Bytes where
  arrivals := (pushes τ).filter (Ours W q)
  newcomers := (submissions τ).filter (Ours W q)
  waiting := (queueItems w q).filter (Ours W q)
  inHand := (n (.inr ())).held.filter (Ours W q)
  served := (assignments τ).filter (Ours W q)

section Steps

variable {q : Bytes} {τ : List (DispatchMoment σ)} {alone : Prop} {t : σ ⊕ Unit} {e : Effect} {r : e.Answer}

theorem ours_id {s : σ} : Ours W q (W.request s).id ↔ queueOf (W.request s).priority = q := by
  constructor
  · rintro ⟨s', hid, hq⟩
    rwa [← W.distinct hid]
  · exact fun hq => ⟨s, rfl, hq⟩

theorem desk_inHand {x : Bytes} : (desk W q τ w n).inHand = some x ↔ (n (.inr ())).held = some x ∧ Ours W q x := by
  simp [desk, Option.filter_eq_some_iff]

theorem desk_waiting {x : Bytes} : x ∈ (desk W q τ w n).waiting ↔ x ∈ queueItems w q ∧ Ours W q x := by
  simp [desk]

theorem desk_served {x : Bytes} : x ∈ (desk W q τ w n).served ↔ x ∈ assignments τ ∧ Ours W q x := by
  simp [desk]

theorem pushes_snoc (m : DispatchMoment σ) : pushes (τ ++ [m]) = pushes τ ++ (pushedId m.event.1).toList := by
  cases h : pushedId m.event.1 <;> simp [pushes, h]

theorem submissions_snoc (m : DispatchMoment σ) :
    submissions (τ ++ [m]) = submissions τ ++ (if m.thread.isLeft then pushedId m.event.1 else none).toList := by
  cases h : (if m.thread.isLeft then pushedId m.event.1 else none) <;> simp [submissions, h]

theorem assignments_snoc (m : DispatchMoment σ) :
    assignments (τ ++ [m]) = assignments τ ++ (assignedId m.world m.event.1).toList := by
  cases h : assignedId m.world m.event.1 <;> simp [assignments, h]

open Classical in
private theorem filter_toList {o : Option Bytes} (h : ∀ x, o = some x → ¬Ours W q x) :
    o.toList.filter (Ours W q) = [] := by
  cases o with
  | none => rfl
  | some x => simp [h x rfl]

open Classical in
/-- A moment at which no task of the list is pushed. -/
theorem desk_unpushed (hpush : ∀ x, pushedId e = some x → ¬Ours W q x) :
    desk W q (τ ++ [⟨w, t, e, r⟩]) w' n' = ⟨(desk W q τ w n).arrivals, (desk W q τ w n).newcomers,
      (desk W q τ w' n').waiting, (desk W q τ w' n').inHand,
      (desk W q τ w n).served ++ (assignedId w e).toList.filter (Ours W q)⟩ := by
  have hsubmit : ∀ x, (if t.isLeft then pushedId e else none) = some x → ¬Ours W q x := by
    intro x hx
    split at hx
    · exact hpush x hx
    · cases hx
  simp only [desk, pushes_snoc, submissions_snoc, assignments_snoc, List.filter_append, filter_toList hpush,
    filter_toList hsubmit, List.append_nil]

/-- A moment that concerns no task of the list. -/
theorem desk_quiet (hpush : ∀ x, pushedId e = some x → ¬Ours W q x)
    (hassign : ∀ x, assignedId w e = some x → ¬Ours W q x)
    (hwaiting : (desk W q τ w' n').waiting = (desk W q τ w n).waiting)
    (hhand : (desk W q τ w' n').inHand = (desk W q τ w n).inHand) :
    desk W q (τ ++ [⟨w, t, e, r⟩]) w' n' = desk W q τ w n := by
  rw [desk_unpushed (w := w) (n := n) hpush, filter_toList hassign, List.append_nil, hwaiting, hhand]

/-- A push of a task of the list. -/
theorem desk_pushed {x : Bytes} (hpush : pushedId e = some x) (hours : Ours W q x) (hassign : assignedId w e = none)
    (hwaiting : queueItems w' q = queueItems w q ++ [x]) :
    desk W q (τ ++ [⟨w, t, e, r⟩]) w' n' = ⟨(desk W q τ w n).arrivals ++ [x],
      (desk W q τ w n).newcomers ++ (if t.isLeft then [x] else []), (desk W q τ w n).waiting ++ [x],
      (desk W q τ w' n').inHand, (desk W q τ w n).served⟩ := by
  simp only [desk, pushes_snoc, submissions_snoc, assignments_snoc, List.filter_append, hpush, hassign, hwaiting]
  cases t.isLeft <;> simp [hours]

/-- The desk makes a step, or stays as it is. -/
def Moves (alone : Prop) (d d' : Desk Bytes) : Prop := d' = d ∨ Desk.Step alone d d'

theorem waiting_congr (h : queueItems w' q = queueItems w q) :
    (desk W q τ w' n').waiting = (desk W q τ w n).waiting := by
  simp only [desk, h]

/-- The hands of the loop hold the same tasks of the list. -/
theorem inHand_congr (h : ∀ s, queueOf (W.request s).priority = q →
      ((n' (.inr ())).held = some (W.request s).id ↔ (n (.inr ())).held = some (W.request s).id)) :
    (desk W q τ w' n').inHand = (desk W q τ w n).inHand := by
  refine Option.ext fun x => ?_
  rw [desk_inHand, desk_inHand]
  refine and_congr_left ?_
  rintro ⟨s, rfl, hq⟩
  exact h s hq

/-- The hands hold one task: where it is not there on the other side, and any other one there is here too, they are
empty. -/
theorem inHand_eq_none {x : Bytes} (hheld : (n (.inr ())).held = some x) (hgone : (n' (.inr ())).held ≠ some x)
    (hothers : ∀ s, (W.request s).id ≠ x → (n' (.inr ())).held = some (W.request s).id →
      (n (.inr ())).held = some (W.request s).id) :
    (desk W q τ w' n').inHand = none := by
  refine Option.eq_none_iff_forall_ne_some.2 fun y hy => ?_
  obtain ⟨hy, s, rfl, -⟩ := desk_inHand.1 hy
  by_cases hs : (W.request s).id = x
  · exact hgone (hs ▸ hy)
  · exact hs (Option.some.inj ((hothers s hs hy).symm.trans hheld))

/-- A task that was pushed is in its own list, and was in none before. -/
theorem pushed_place (h' : Inv W w' n') {s : σ} {q' : Bytes} (ha : Appended w w' q' (W.request s).id) :
    n' (.inl s) = .pushed ∧ q' = queueOf (W.request s).priority ∧
    (∀ q ∈ queueKeys, (W.request s).id ∉ queueItems w q) ∧
      (n' (.inr ())).held ≠ some (W.request s).id ∧ storedWorker w (W.request s).id = none := by
  have hmem : (W.request s).id ∈ queueItems w' q' := by simp [ha.items_eq]
  obtain ⟨hn, hlist, honce, hhand, hworker⟩ := waiting_of_mem h' ha.mem hmem
  have hzero : occurrences w (W.request s).id = 0 := by
    have hocc := ha.occurrences (W.request s).id
    rw [if_pos rfl] at hocc
    omega
  have hbefore := occurrences_eq_zero.1 hzero
  refine ⟨hn, ?_, hbefore, hhand, ?_⟩
  · by_contra hne
    rw [ha.items_eq, if_neg hne] at hlist
    exact hbefore _ (queueOf_mem _) hlist
  · rwa [storedWorker_congr (ha.frame _ (taskKey_ne_queue ha.mem _).symm)] at hworker

/-- A submitted task joins the line. -/
theorem moves_submitted (h' : Inv W w' n') (hassigned : ∀ x ∈ assignments τ, storedWorker w x ≠ none) {s : σ}
    (ha : Appended w w' (queueOf (W.request s).priority) (W.request s).id) (hloop : n' (.inr ()) = n (.inr ()))
    {c : Nat} {r : Option Reply} : Moves alone (desk W q τ w n)
      (desk W q
        (τ ++ [⟨w, .inl s, .command c (.rpush (queueOf (W.request s).priority) (W.request s).id), r⟩]) w' n') := by
  obtain ⟨-, -, hbefore, hhand, hworker⟩ := pushed_place h' ha
  have hheld : (desk W q τ w' n').inHand = (desk W q τ w n).inHand := by simp only [desk, hloop]
  by_cases hq : queueOf (W.request s).priority = q
  · right
    have hours : Ours W q (W.request s).id := ours_id.2 hq
    rw [desk_pushed (x := (W.request s).id) rfl hours rfl (by rw [ha.items_eq, if_pos hq]), hheld]
    refine .arrive ?_ ?_ ?_
    · rw [desk_waiting]
      exact fun hmem => hbefore q (hq ▸ ha.mem) hmem.1
    · rw [← hheld, ne_eq, desk_inHand]
      exact fun hin => hhand hin.1
    · rw [desk_served]
      exact fun hmem => hassigned _ hmem.1 hworker
  · left
    refine desk_quiet ?_ (fun _ hx => nomatch hx) (waiting_congr ?_) hheld
    · rintro x ⟨⟩
      rwa [ours_id]
    · rw [ha.items_eq, if_neg hq]

section Loop

variable (h : Inv W w n) (h' : Inv W w' n') (hnotes : ∀ s, n' (.inl s) = n (.inl s))
include h h' hnotes

/-- A task is pushed back to the end of the line. -/
theorem moves_requeued {q' x : Bytes} (ha : Appended w w' q' x)
    (halone : alone → q' = q → Ours W q x → ∀ s, (W.request s).id ∉ queueItems w q) {c : Nat}
    {r : Option Reply} :
    Moves alone (desk W q τ w n) (desk W q (τ ++ [⟨w, .inr (), .command c (.rpush q' x), r⟩]) w' n') := by
  have hworker : ∀ i, storedWorker w' i = storedWorker w i :=
    fun i => storedWorker_congr (ha.frame _ (taskKey_ne_queue ha.mem i).symm)
  have hothers : ∀ s, (W.request s).id ≠ x →
      ((n' (.inr ())).held = some (W.request s).id ↔ (n (.inr ())).held = some (W.request s).id) := by
    refine fun s hne => held_congr h h' (hnotes s) (fun q'' _ => ?_) (hworker _)
    rw [ha.items_eq]
    split
    · simp [hne]
    · rfl
  by_cases hours : Ours W q x
  · right
    obtain ⟨s, rfl, hq⟩ := id hours
    obtain ⟨hn, hlist, hbefore, hhand, hnone⟩ := pushed_place h' ha
    have hheld := (held_iff h s).2 ⟨(hnotes s).symm.trans hn, hbefore, hnone⟩
    have hempty : (desk W q τ w' n').inHand = none :=
      inHand_eq_none hheld hhand fun s' hs => (hothers s' hs).1
    rw [desk_pushed rfl hours rfl (by rw [ha.items_eq, if_pos (hlist.trans hq)]), hempty]
    refine (?_ : Desk.Step alone (desk W q τ w n) ⟨_, _ ++ [], _, _, _⟩)
    rw [List.append_nil]
    refine .sendBack (desk_inHand.2 ⟨hheld, hours⟩) fun hal => ?_
    refine List.eq_nil_iff_forall_not_mem.2 fun y hy => ?_
    obtain ⟨hy, s', rfl, -⟩ := desk_waiting.1 hy
    exact halone hal (hlist.trans hq) hours s' hy
  · left
    refine desk_quiet ?_ (fun _ hx => nomatch hx) ?_ ?_
    · rintro y ⟨⟩
      exact hours
    · simp only [desk, ha.items_eq]
      split
      · simp [hours]
      · rfl
    · exact inHand_congr fun s hq => hothers s fun hs => hours ⟨s, hs, hq⟩

/-- The loop takes the head of a list. -/
theorem moves_popped {q' x : Bytes} (ht : Taken w w' q' x) {c : Nat} {r : Option Reply} :
    Moves alone (desk W q τ w n) (desk W q (τ ++ [⟨w, .inr (), .command c (.lpop q'), r⟩]) w' n') := by
  have hworker : ∀ i, storedWorker w' i = storedWorker w i :=
    fun i => storedWorker_congr (ht.frame _ (taskKey_ne_queue ht.mem i).symm)
  have hhead : x ∈ queueItems w q' := by simp [ht.items]
  have hothers : ∀ s, (W.request s).id ≠ x →
      ((n' (.inr ())).held = some (W.request s).id ↔ (n (.inr ())).held = some (W.request s).id) := by
    refine fun s hne => held_congr h h' (hnotes s) (fun q'' _ => ?_) (hworker _)
    by_cases he : q' = q''
    · subst he
      simp [ht.items, hne]
    · rw [queueItems_congr (ht.frame q'' he)]
  by_cases hours : Ours W q x
  · right
    obtain ⟨s, rfl, hq⟩ := id hours
    obtain ⟨hn, hlist, honce, hhand, hnone⟩ := waiting_of_mem h ht.mem hhead
    have hzero : occurrences w' (W.request s).id = 0 := by
      have hocc := ht.occurrences (W.request s).id
      rw [if_pos rfl] at hocc
      omega
    have hnolist := occurrences_eq_zero.1 hzero
    have hsame : q' = q := by
      by_contra hne
      rw [hq, ← queueItems_congr (ht.frame q hne)] at hlist
      exact hnolist q (hq ▸ queueOf_mem _) hlist
    subst hsame
    have hheld := (held_iff h' s).2 ⟨(hnotes s).trans hn, hnolist, (hworker _).trans hnone⟩
    have hempty : (desk W q' τ w n).inHand = none :=
      inHand_eq_none hheld hhand fun s' hs => (hothers s' hs).2
    have hline : (desk W q' τ w n).waiting = (W.request s).id :: (desk W q' τ w' n').waiting := by
      simp [desk, ht.items, hours]
    have hhand' : (desk W q' τ w' n').inHand = some (W.request s).id := desk_inHand.2 ⟨hheld, hours⟩
    rw [desk_unpushed (w := w) (n := n) (fun x hx => by cases hx), hhand']
    refine (?_ : Desk.Step alone (desk W q' τ w n) ⟨_, _, _, _, _ ++ []⟩)
    rw [List.append_nil]
    exact .take hline hempty
  · left
    refine desk_quiet (fun _ hx => nomatch hx) (fun _ hx => nomatch hx) ?_ ?_
    · by_cases he : q' = q
      · subst he
        simp [desk, ht.items, hours]
      · exact waiting_congr (queueItems_congr (ht.frame q he))
    · exact inHand_congr fun s hq => hothers s fun hs => hours ⟨s, hs, hq⟩

/-- The loop stores a worker, or another field of a record. -/
theorem moves_recorded (hq : q ∈ queueKeys) {j f v : Bytes}
    (hok : (exec (.hset (taskKey j) f v) w).1.isError = false)
    (hw' : w' = (exec (.hset (taskKey j) f v) w).2) {c : Nat} {r : Option Reply} :
    Moves alone (desk W q τ w n)
      (desk W q (τ ++ [⟨w, .inr (), .command c (.hset (taskKey j) f v), r⟩]) w' n') := by
  have hlists : ∀ q ∈ queueKeys, queueItems w' q = queueItems w q := by
    intro q hq
    rw [hw']
    exact queueItems_congr (exec_frame _ w (taskKey_ne_queue hq j))
  have hworker : ∀ i, storedWorker w' i = if j = i ∧ f = bytes "worker_id" then some v else storedWorker w i := by
    intro i
    rw [hw']
    exact storedWorker_hset hok
  have hothers : ∀ s, storedWorker w' (W.request s).id = storedWorker w (W.request s).id →
      ((n' (.inr ())).held = some (W.request s).id ↔ (n (.inr ())).held = some (W.request s).id) :=
    fun s hsame => held_congr h h' (hnotes s) (fun q hq => by rw [hlists q hq]) hsame
  have hid : assignedId w (.command c (.hset (taskKey j) f v)) =
      if f = bytes "worker_id" ∧ storedWorker w j = none then some j else none := by
    simp [assignedId, taskKey]
  by_cases hfirst : f = bytes "worker_id" ∧ storedWorker w j = none
  · rw [if_pos hfirst] at hid
    have hstored : storedWorker w' j ≠ none := by simp [hworker, hfirst.1]
    by_cases hours : Ours W q j
    · right
      obtain ⟨s, rfl, -⟩ := id hours
      have hplace : n' (.inl s) = .pushed ∧ (∀ q ∈ queueKeys, (W.request s).id ∉ queueItems w' q) ∧
          (n' (.inr ())).held ≠ some (W.request s).id := by
        cases h'.whereabouts s with
        | new _ _ _ hnone => exact absurd hnone hstored
        | waiting _ _ _ _ hnone => exact absurd hnone hstored
        | inHand _ _ _ hnone => exact absurd hnone hstored
        | assigned hn hnolist hhand _ => exact ⟨hn, hnolist, hhand⟩
      obtain ⟨hn, hnolist, hhand⟩ := hplace
      have hheld := (held_iff h s).2
        ⟨(hnotes s).symm.trans hn, fun q hq => hlists q hq ▸ hnolist q hq, hfirst.2⟩
      have hempty : (desk W q τ w' n').inHand = none := by
        refine inHand_eq_none hheld hhand fun s' hs => (hothers s' ?_).1
        rw [hworker, if_neg fun he => hs he.1.symm]
      rw [desk_unpushed (w := w) (n := n) (fun x hx => by cases hx), hempty, hid,
        waiting_congr (n := n) (τ := τ) (hlists q hq)]
      simp only [Option.toList_some, List.filter_cons, hours, List.filter_nil, decide_true, if_true]
      exact .serve (desk_inHand.2 ⟨hheld, hours⟩)
    · left
      refine desk_quiet (fun x hx => by cases hx) ?_ (waiting_congr (hlists q hq)) (inHand_congr fun s hs => ?_)
      · rw [hid]
        rintro x ⟨⟩
        exact hours
      · refine hothers s ?_
        rw [hworker, if_neg]
        rintro ⟨rfl, -⟩
        exact hours ⟨s, rfl, hs⟩
  · left
    rw [if_neg hfirst] at hid
    refine desk_quiet (fun x hx => by cases hx) (fun x hx => by rw [hid] at hx; cases hx)
      (waiting_congr (hlists q hq))
      (inHand_congr fun s _ => ?_)
    by_cases hagain : j = (W.request s).id ∧ f = bytes "worker_id"
    · -- a task with a worker is not in the hands of the loop
      obtain ⟨rfl, hf⟩ := hagain
      have hold : storedWorker w (W.request s).id ≠ none := fun hnone => hfirst ⟨hf, hnone⟩
      refine iff_of_false (fun hin => ?_) fun hin => hold ((held_iff h s).1 hin).2.2
      have hnone := ((held_iff h' s).1 hin).2.2
      rw [hworker, if_pos ⟨rfl, hf⟩] at hnone
      cases hnone
    · exact hothers s (by rw [hworker, if_neg hagain])

/-- The loop changes neither the lists nor a worker. -/
theorem moves_quiet (hq : q ∈ queueKeys) (hlists : ∀ q ∈ queueKeys, queueItems w' q = queueItems w q)
    (hworkers : ∀ i, storedWorker w' i = storedWorker w i) (hpush : pushedId e = none)
    (hassign : assignedId w e = none) :
    Moves alone (desk W q τ w n) (desk W q (τ ++ [⟨w, t, e, r⟩]) w' n') := by
  refine .inl (desk_quiet (fun x hx => by rw [hpush] at hx; cases hx) (fun x hx => by rw [hassign] at hx; cases hx)
    (waiting_congr (hlists q hq)) (inHand_congr fun s _ => ?_))
  exact held_congr h h' (hnotes s) (fun q hq => by rw [hlists q hq]) (hworkers _)

end Loop

end Steps

/-! ### What can happen -/

/-- What a moment does to the lists and the records, and who has it. -/
inductive Happening (W : Workload σ) (w w' : Keyspace) : σ ⊕ Unit → Effect → Prop
  | quiet {t : σ ⊕ Unit} {e : Effect} (hlists : ∀ q ∈ queueKeys, queueItems w' q = queueItems w q)
      (hworkers : ∀ i, storedWorker w' i = storedWorker w i) (hpush : pushedId e = none)
      (hassign : assignedId w e = none) :
      Happening W w w' t e
  | saved {s : σ} {c : Nat} {key : Bytes} {fields : List (Bytes × Bytes)}
      (hlists : ∀ q ∈ queueKeys, queueItems w' q = queueItems w q)
      (hworkers : ∀ i, storedWorker w i ≠ none → storedWorker w' i ≠ none) :
      Happening W w w' (.inl s) (.command c (.hmset key fields))
  | submitted {s : σ} {c : Nat} (ha : Appended w w' (queueOf (W.request s).priority) (W.request s).id) :
      Happening W w w' (.inl s) (.command c (.rpush (queueOf (W.request s).priority) (W.request s).id))
  | requeued {c : Nat} {q x : Bytes} (ha : Appended w w' q x) : Happening W w w' (.inr ()) (.command c (.rpush q x))
  | popped {c : Nat} {q x : Bytes} (ht : Taken w w' q x) : Happening W w w' (.inr ()) (.command c (.lpop q))
  | recorded {c : Nat} {j f v : Bytes} (hok : (exec (.hset (taskKey j) f v) w).1.isError = false)
      (hw' : w' = (exec (.hset (taskKey j) f v) w).2) :
      Happening W w w' (.inr ()) (.command c (.hset (taskKey j) f v))

/-- The effects that a thread may ask for. -/
def ThreadEffect (W : Workload σ) : σ ⊕ Unit → Effect → Prop
  | .inl s => Issues (Operation.submitTask (W.request s)).Writes
  | .inr _ => Issues Operation.dispatchIteration.Writes

private theorem quiet_of_foreign {t : σ ⊕ Unit} {c : Nat} {cmd : Command} (hq : ∀ q ∈ queueKeys, cmd.key ≠ q)
    (hi : ∀ i, cmd.key ≠ taskKey i) (hpush : pushedId (.command c cmd) = none)
    (hassign : assignedId w (.command c cmd) = none) : Happening W w (exec cmd w).2 t (.command c cmd) :=
  .quiet (fun q hm => queueItems_congr (exec_frame cmd w (hq q hm)))
    (fun i => storedWorker_congr (exec_frame cmd w (hi i)))
    hpush hassign

/-- Every moment of the system is one of these. -/
theorem happens {t : σ ⊕ Unit} {e : Effect} {r : e.Answer} (h : Inv W w n) (hF : ThreadEffect W t e)
    (hs : served False e w r w') : Happening W w w' t e := by
  cases e with
  | command c cmd =>
    obtain ⟨-, rfl, hok⟩ := served_command hs
    have hreads : cmd.reads = true → Happening W w (exec cmd w).2 t (.command c cmd) := by
      intro hread
      rw [exec_reads hread]
      refine .quiet (fun _ _ => rfl) (fun _ => rfl) ?_ ?_
      · cases cmd <;> first | rfl | cases hread
      · cases cmd <;> first | rfl | cases hread
    cases t with
    | inl s =>
      rcases hF with hread | ⟨info, hinfo, rfl⟩ | rfl
      · exact hreads hread
      · refine .saved (fun q hq => ?_) fun i => storedWorker_hmset
        exact queueItems_congr (exec_frame _ w (taskKey_ne_queue hq _))
      · have hid := cStr_of_noNul (W.valid s).noNul
        rw [hid]
        exact .submitted (appended_rpush (queueOf_mem _) (h.queues _ (queueOf_mem _)))
    | inr d =>
      obtain rfl : d = () := rfl
      rcases hF with hread | ⟨q, hq, rfl⟩ | ⟨p, i, rfl⟩ | ⟨i, v, rfl | rfl | ⟨now, rfl⟩ | rfl⟩
      · exact hreads hread
      -- an `LPOP` of an empty list changes nothing
      · rcases exec_lpop (h.queues q hq) with ⟨x, hr, hitems, hqueue⟩ | ⟨-, hw, -⟩
        · exact .popped (x := x) ⟨hq, fun _ hne => exec_frame _ w hne, hqueue, hitems⟩
        · rw [hw]
          exact .quiet (fun _ _ => rfl) (fun _ => rfl) rfl rfl
      · exact .requeued (appended_rpush (queueOf_mem _) (h.queues _ (queueOf_mem _)))
      · exact .recorded hok rfl
      · exact .recorded hok rfl
      · exact .recorded hok rfl
      · exact quiet_of_foreign (fun q hq => workerLoadKey_ne_queue hq _) (fun i => workerLoadKey_ne_taskKey _ i)
          rfl rfl
  | getConnection =>
    obtain ⟨rfl, -⟩ := hs
    exact .quiet (fun _ _ => rfl) (fun _ => rfl) rfl rfl
  | selectWorker taskId =>
    obtain ⟨rfl, -⟩ := hs
    exact .quiet (fun _ _ => rfl) (fun _ => rfl) rfl rfl
  | _ =>
    obtain rfl : w' = w := hs
    exact .quiet (fun _ _ => rfl) (fun _ => rfl) rfl rfl

section Executions

variable {q : Bytes} {τ : List (DispatchMoment σ)} {alone : Prop} {t : σ ⊕ Unit} {e : Effect} {r : e.Answer}

/-- A task that was assigned keeps a worker. -/
theorem Happening.assigned (hh : Happening W w w' t e) (hassigned : ∀ x ∈ assignments τ,
    storedWorker w x ≠ none) :
    ∀ x ∈ assignments (τ ++ [⟨w, t, e, r⟩]), storedWorker w' x ≠ none := by
  have hsame : (∀ i, storedWorker w' i = storedWorker w i) → ∀ x ∈ assignments τ, storedWorker w' x ≠ none :=
    fun hw x hx => hw x ▸ hassigned x hx
  intro x hx
  rw [assignments_snoc, List.mem_append, Option.mem_toList] at hx
  cases hh with
  | quiet _ hworkers _ hassign =>
    rw [hassign] at hx
    exact hsame hworkers x (hx.resolve_right nofun)
  | saved _ hworkers => exact hworkers x (hassigned x (hx.resolve_right nofun))
  | submitted ha =>
    exact hsame (fun i => storedWorker_congr (ha.frame _ (taskKey_ne_queue ha.mem i).symm)) x
      (hx.resolve_right nofun)
  | requeued ha =>
    exact hsame (fun i => storedWorker_congr (ha.frame _ (taskKey_ne_queue ha.mem i).symm)) x
      (hx.resolve_right nofun)
  | popped ht =>
    exact hsame (fun i => storedWorker_congr (ht.frame _ (taskKey_ne_queue ht.mem i).symm)) x
      (hx.resolve_right nofun)
  | @recorded c j f v hok hw' =>
    rw [hw', storedWorker_hset hok]
    split
    · nofun
    · rename_i hother
      rcases hx with hx | hx
      · exact hassigned x hx
      · simp only [assignedId, taskKey, List.drop_left] at hx
        split at hx
        · rename_i hfirst
          exact absurd ⟨Option.some.inj hx, hfirst.1⟩ hother
        · cases hx

/-- The programs of the threads ask for no other effects. -/
theorem Workload.start_effects (W : Workload σ) : (∀ t, ((W.start Unit).thread t).prog.Every (ThreadEffect W t)) ∧
    ∀ t body, (dispatchSystem σ Unit).again t = some body → body.Every (ThreadEffect W t) := by
  have hdispatch : dispatchThread.Every (Issues Operation.dispatchIteration.Writes) :=
    .bind (taskDispatchIteration_issues fun _ hcmd => hcmd) fun _ => trivial
  constructor
  · rintro (s | d)
    · exact .bind (submitTask_issues fun _ hcmd => hcmd) fun _ => trivial
    · exact hdispatch
  · rintro (s | d) body hb
    · cases hb
    · cases hb
      exact hdispatch

variable [DecidableEq σ]

/-- One moment is a step before the desk, or none. -/
theorem Happening.moves (hh : Happening W w w' t e) (hq : q ∈ queueKeys) (h : Inv W w n)
    (h' : Inv W w' (Function.update n t (observe (n t) ⟨e, r⟩)))
    (hassigned : ∀ x ∈ assignments τ, storedWorker w x ≠ none)
    (halone : alone → RequeuedAlone W q (τ ++ [⟨w, t, e, r⟩])) :
    Moves alone (desk W q τ w n)
      (desk W q (τ ++ [⟨w, t, e, r⟩]) w' (Function.update n t (observe (n t) ⟨e, r⟩))) := by
  have hloop : ∀ s, t = .inl s → Function.update n t (observe (n t) ⟨e, r⟩) (.inr ()) = n (.inr ()) := by
    rintro s rfl
    simp
  have hnotes : t = .inr () → ∀ s, Function.update n t (observe (n t) ⟨e, r⟩) (.inl s) = n (.inl s) := by
    rintro rfl s
    simp
  -- what a submitter does between its pushes leaves the desk as it is
  have hlists : (∀ q ∈ queueKeys, queueItems w' q = queueItems w q) → ∀ s, t = .inl s → pushedId e = none →
      assignedId w e = none → Moves alone (desk W q τ w n)
        (desk W q (τ ++ [⟨w, t, e, r⟩]) w' (Function.update n t (observe (n t) ⟨e, r⟩))) := by
    intro hsame s hs hpush hassign
    refine .inl (desk_quiet (fun x hx => by rw [hpush] at hx; cases hx)
      (fun x hx => by rw [hassign] at hx; cases hx)
      (waiting_congr (hsame q hq)) ?_)
    simp only [desk, hloop s hs]
  cases hh with
  | quiet hsame hworkers hpush hassign =>
    cases t with
    | inl s => exact hlists hsame s rfl hpush hassign
    | inr d => exact moves_quiet h h' (hnotes rfl) hq hsame hworkers hpush hassign
  | saved hsame _ => exact hlists hsame _ rfl rfl rfl
  | submitted ha => exact moves_submitted h' hassigned ha (hloop _ rfl)
  | requeued ha =>
    refine moves_requeued h h' (hnotes rfl) ha fun hal hsame hours => ?_
    obtain ⟨s, rfl, -⟩ := hours
    subst hsame
    exact halone hal _ (List.mem_append_right _ List.mem_cons_self) rfl _ s rfl
  | popped ht => exact moves_popped h h' (hnotes rfl) ht
  | recorded hok hw' => exact moves_recorded h h' (hnotes rfl) hq hok hw'

/-- What the threads do is, for the tasks of one list, what happens before a desk. -/
theorem desk_reachable {P : Pool (σ ⊕ Unit) Effect Effect.Answer StdException ThreadResult Keyspace Note}
    (hq : q ∈ queueKeys) (h : Execution (dispatchSystem σ Unit) (W.start Unit) τ P)
    (halone : alone → RequeuedAlone W q τ) :
    Desk.Reachable alone (desk W q τ P.world P.notes) ∧ ∀ x ∈ assignments τ,
      storedWorker P.world x ≠ none := by
  induction h with
  | start =>
    have hopened : desk W q [] (W.start Unit).world (W.start Unit).notes = Desk.opened := by
      have hwaiting : (desk W q [] (W.start Unit).world (W.start Unit).notes).waiting = [] := by
        refine List.eq_nil_iff_forall_not_mem.2 fun x hx => ?_
        obtain ⟨hx, s, rfl, -⟩ := desk_waiting.1 hx
        exact (W.items q hq _ hx).2 s rfl
      have hdesk : desk W q [] (W.start Unit).world (W.start Unit).notes =
          ⟨[], [], (desk W q [] (W.start Unit).world (W.start Unit).notes).waiting, none, []⟩ := rfl
      rw [hdesk, hwaiting]
      rfl
    rw [hopened]
    exact ⟨.refl, fun x hx => nomatch hx⟩
  | @exec τ P e k r w h t hp hs ih =>
    obtain ⟨hreach, hassigned⟩ := ih fun hal m hm => halone hal m (List.mem_append_left _ hm)
    have hinv := (W.start_outlined.reachable h.reachable).inv
    have hinv' := (W.start_outlined.reachable (h.exec t hp hs).reachable).inv
    have heffect := (h.every W.start_effects.1 W.start_effects.2).2 t
    rw [hp] at heffect
    have hhappens := happens hinv heffect.1 hs
    rw [notes_update] at hinv' ⊢
    refine ⟨?_, hhappens.assigned hassigned⟩
    rcases hhappens.moves hq hinv hinv' hassigned halone with hsame | hstep
    · exact hsame ▸ hreach
    · exact hreach.tail hstep
  | @again τ P a body h t hp hb ih =>
    obtain ⟨hreach, hassigned⟩ := ih halone
    have hinv := (W.start_outlined.reachable h.reachable).inv
    have hinv' := (W.start_outlined.reachable (h.again t hp hb).reachable).inv
    rw [notes_update] at hinv' ⊢
    refine ⟨?_, hassigned⟩
    cases t with
    | inl s => cases hb
    | inr d =>
      -- the loop starts again with empty hands, which it had before
      have hhand : (desk W q τ P.world (Function.update P.notes (.inr d) (dispatchSystem σ Unit).fresh)).inHand =
          (desk W q τ P.world P.notes).inHand :=
        inHand_congr fun s _ => held_congr hinv hinv' (by simp) (fun _ _ => Iff.rfl) rfl
      simp only [desk] at hhand hreach ⊢
      rw [hhand]
      exact hreach

/-- Tasks of one list get their workers in the order of their latest pushes; and in the order in which they were
submitted, if no task is pushed back while others of the list wait. -/
theorem dispatched_in_order {P : Pool (σ ⊕ Unit) Effect Effect.Answer StdException ThreadResult Keyspace Note}
    (h : Execution (dispatchSystem σ Unit) (W.start Unit) τ P) {s s' : σ}
    (hq : queueOf (W.request s).priority = queueOf (W.request s').priority) :
    (Before (assignments τ) (W.request s).id (W.request s').id ↔
      (W.request s').id ∈ assignments τ ∧ Before (pushes τ).dedup (W.request s).id (W.request s').id) ∧
    (RequeuedAlone W (queueOf (W.request s).priority) τ →
      (Before (assignments τ) (W.request s).id (W.request s').id ↔
        (W.request s').id ∈ assignments τ ∧ Before (submissions τ) (W.request s).id (W.request s').id)) := by
  have hours : Ours W (queueOf (W.request s).priority) (W.request s).id := ours_id.2 rfl
  have hours' : Ours W (queueOf (W.request s).priority) (W.request s').id := ours_id.2 hq.symm
  have hserved : Before (desk W (queueOf (W.request s).priority) τ P.world P.notes).served (W.request s).id
      (W.request s').id ↔ Before (assignments τ) (W.request s).id (W.request s').id :=
    before_filter (by simpa using hours) (by simpa using hours')
  have hmem : (W.request s').id ∈ (desk W (queueOf (W.request s).priority) τ P.world P.notes).served ↔
      (W.request s').id ∈ assignments τ := desk_served.trans (and_iff_left hours')
  constructor
  · have hreach : Desk.Reachable False (desk W (queueOf (W.request s).priority) τ P.world P.notes) :=
      (desk_reachable (queueOf_mem _) h fun hal => hal.elim).1
    rw [← hserved, hreach.served_iff, hmem, ← hreach.latest]
    refine and_congr_right fun _ => ?_
    simp only [desk]
    rw [dedup_filter]
    exact before_filter (by simpa using hours) (by simpa using hours')
  · intro halone
    have hreach : Desk.Reachable True (desk W (queueOf (W.request s).priority) τ P.world P.notes) :=
      (desk_reachable (queueOf_mem _) h fun _ => halone).1
    rw [← hserved, hreach.served_iff, hmem, ← hreach.first]
    refine and_congr_right fun _ => ?_
    exact before_filter (by simpa using hours) (by simpa using hours')

end Executions

/-! ### A task that is pushed back behind another -/

private def hasIterated : Code ThreadResult → Bool
  | .ret .iterated => true
  | _ => false

private theorem eq_of_hasIterated {p : Code ThreadResult} (h : hasIterated p = true) : p = .ret .iterated := by
  unfold hasIterated at h
  split at h
  · rfl
  · cases h

/-- In each round the balancer selects one worker, and the schedule ends with an iteration of the loop, which then
starts again. -/
private def playRounds : List (Bytes × List (Bool ⊕ Unit)) →
    Pool (Bool ⊕ Unit) Effect Effect.Answer StdException ThreadResult Keyspace Note →
    Option (List (DispatchMoment Bool) ×
      Pool (Bool ⊕ Unit) Effect Effect.Answer StdException ThreadResult Keyspace Note)
  | [], P => some ([], P)
  | (worker, schedule) :: rounds, P =>
    (P.play (dispatchSystem Bool Unit) (fun _ _ _ _ => true)
      (answer (fun _ => false) worker) schedule).bind fun run =>
      if hasIterated (run.2.thread (.inr ())).prog then
        (playRounds rounds ⟨run.2.world, Function.update run.2.thread (.inr ()) ⟨dispatchThread, .idle⟩⟩).map
          fun rest => (run.1 ++ rest.1, rest.2)
      else none

private theorem playRounds_execution {P₀ P :
    Pool (Bool ⊕ Unit) Effect Effect.Answer StdException ThreadResult Keyspace
    Note} {τ : List (DispatchMoment Bool)} (hτ : Execution (dispatchSystem Bool Unit) P₀ τ P)
    {rounds : List (Bytes × List (Bool ⊕ Unit))} {run} (hworkers : ∀ x ∈ rounds, x.1 ≠ [] → ValidId x.1)
    (h : playRounds rounds P = some run) : Execution (dispatchSystem Bool Unit) P₀ (τ ++ run.1) run.2 := by
  induction rounds generalizing τ P run with
  | nil =>
    cases h
    simpa using hτ
  | cons x rounds ih =>
    obtain ⟨⟨τ₁, P₁⟩, hplay, hrest⟩ := Option.bind_eq_some_iff.1 h
    have hanswer : ∀ e w r w', answer (fun _ => false) x.1 e w = some (r, w') →
        (dispatchSystem Bool Unit).sem e w r w' :=
      answer_served (hworkers x List.mem_cons_self) (fun _ h => Bool.noConfusion h)
    have hτ₁ := hτ.play hanswer hplay
    split at hrest
    · rename_i hiterated
      obtain ⟨rest, hplay', rfl⟩ := Option.map_eq_some_iff.1 hrest
      have hafter := ih (hτ₁.again (.inr ()) (eq_of_hasIterated hiterated) rfl)
        (fun y hy => hworkers y (List.mem_cons_of_mem _ hy)) hplay'
      rwa [List.append_assoc] at hafter
    · cases hrest

/-- Both tasks are submitted, an iteration finds no worker, and the next one gets `w`. -/
private def pushedBackBehind : List (Bytes × List (Bool ⊕ Unit)) :=
  [([], List.replicate 5 (.inl false) ++ List.replicate 5 (.inl true) ++ List.replicate 10 (.inr ())),
    (bytes "w", List.replicate 16 (.inr ()))]

/-- The first task is pushed back before the second is submitted, and then each gets the worker `w`. -/
private def pushedBackAlone : List (Bytes × List (Bool ⊕ Unit)) :=
  [([], List.replicate 5 (.inl false) ++ List.replicate 10 (.inr ())),
    (bytes "w", List.replicate 5 (.inl true) ++ List.replicate 16 (.inr ())),
    (bytes "w", List.replicate 16 (.inr ()))]

/-- Whenever the loop pushes an id, the list is empty. -/
private def requeuesAlone (q : Bytes) (τ : List (DispatchMoment Bool)) : Bool :=
  τ.all fun m => m.thread.isLeft || (pushedId m.event.1).isNone || (queueItems m.world q).isEmpty

private theorem requeuedAlone_of_requeuesAlone {W : Workload Bool} {q : Bytes} {τ : List (DispatchMoment Bool)}
    (h : requeuesAlone q τ = true) : RequeuedAlone W q τ := by
  intro m hm ht context s he s' hmem
  have hmoment := List.all_eq_true.1 h m hm
  rw [ht, he] at hmoment
  have hempty : queueItems m.world q = [] := by simpa [pushedId] using hmoment
  rw [hempty] at hmem
  cases hmem

private theorem rounds_played :
    (playRounds pushedBackBehind (twoTasks.start Unit)).map
        (fun run => (submissions run.1, pushes run.1, assignments run.1)) =
      some ([bytes "1", bytes "2"], [bytes "1", bytes "2", bytes "1"], [bytes "2"]) ∧
    (playRounds pushedBackAlone (twoTasks.start Unit)).map
        (fun run => (submissions run.1, pushes run.1, assignments run.1, requeuesAlone (queueOf 1) run.1)) =
      some ([bytes "1", bytes "2"], [bytes "1", bytes "1", bytes "2"], [bytes "1", bytes "2"], true) := by
  decide +kernel

private theorem pushedBack_execution : ∃ τ P, Execution (dispatchSystem Bool Unit) (twoTasks.start Unit) τ P ∧
    submissions τ = [bytes "1", bytes "2"] ∧ pushes τ = [bytes "1", bytes "2", bytes "1"] ∧
      assignments τ = [bytes "2"] := by
  obtain ⟨⟨τ, P⟩, hplay, h⟩ := Option.map_eq_some_iff.1 rounds_played.1
  simp only [Prod.mk.injEq] at h
  refine ⟨τ, P, playRounds_execution .start ?_ hplay, h⟩
  simp only [pushedBackBehind, List.mem_cons, List.not_mem_nil, or_false, forall_eq_or_imp, forall_eq]
  exact ⟨fun hne => absurd rfl hne, fun _ => ⟨by decide, by decide⟩⟩

private theorem alone_execution : ∃ τ P, Execution (dispatchSystem Bool Unit) (twoTasks.start Unit) τ P ∧
    submissions τ = [bytes "1", bytes "2"] ∧ pushes τ = [bytes "1", bytes "1", bytes "2"] ∧
      assignments τ = [bytes "1", bytes "2"] ∧ RequeuedAlone twoTasks (queueOf 1) τ := by
  obtain ⟨⟨τ, P⟩, hplay, h⟩ := Option.map_eq_some_iff.1 rounds_played.2
  simp only [Prod.mk.injEq] at h
  refine ⟨τ, P, playRounds_execution .start ?_ hplay, h.1, h.2.1, h.2.2.1, requeuedAlone_of_requeuesAlone h.2.2.2⟩
  simp only [pushedBackAlone, List.mem_cons, List.not_mem_nil, or_false, forall_eq_or_imp, forall_eq]
  exact ⟨fun hne => absurd rfl hne, fun _ => ⟨by decide, by decide⟩, fun _ => ⟨by decide, by decide⟩⟩

/-- Task `1` is submitted first, and pushed back behind `2` when no worker is available; `2` gets the next one. -/
theorem pushed_back_overtaken : ¬∀ (W : Workload Bool) τ P s s',
    Execution (dispatchSystem Bool Unit) (W.start Unit) τ P → (W.request s).priority = (W.request s').priority →
    Before (submissions τ) (W.request s).id (W.request s').id → (W.request s').id ∈ assignments τ →
    Before (assignments τ) (W.request s).id (W.request s').id := by
  intro h
  obtain ⟨τ, P, hτ, hsubmissions, -, hassignments⟩ := pushedBack_execution
  have hbefore := h twoTasks τ P false true hτ rfl (by rw [hsubmissions]; decide) (by rw [hassignments]; decide)
  rw [hassignments] at hbefore
  exact absurd hbefore (by decide)

/-- In that run the latest push of `1` is behind that of `2`; in another one `1` is pushed back alone, and the tasks
get their workers in the order of their submissions. -/
theorem dispatched_in_order_pushedBack :
    (∃ τ P, Execution (dispatchSystem Bool Unit) (twoTasks.start Unit) τ P ∧
      pushes τ = [bytes "1", bytes "2", bytes "1"] ∧ assignments τ = [bytes "2"] ∧
      (Before (assignments τ) (bytes "1") (bytes "2") ↔
        bytes "2" ∈ assignments τ ∧ Before (pushes τ).dedup (bytes "1") (bytes "2"))) ∧
    ∃ τ P, Execution (dispatchSystem Bool Unit) (twoTasks.start Unit) τ P ∧
      pushes τ = [bytes "1", bytes "1", bytes "2"] ∧ assignments τ = [bytes "1", bytes "2"] ∧
      RequeuedAlone twoTasks (queueOf 1) τ ∧
      (Before (assignments τ) (bytes "1") (bytes "2") ↔
        bytes "2" ∈ assignments τ ∧ Before (submissions τ) (bytes "1") (bytes "2")) := by
  have hq : queueOf (twoTasks.request false).priority = queueOf (twoTasks.request true).priority := rfl
  constructor
  · obtain ⟨τ, P, hτ, -, hpushes, hassignments⟩ := pushedBack_execution
    exact ⟨τ, P, hτ, hpushes, hassignments, (dispatched_in_order hτ hq).1⟩
  · obtain ⟨τ, P, hτ, -, hpushes, hassignments, halone⟩ := alone_execution
    exact ⟨τ, P, hτ, hpushes, hassignments, halone, (dispatched_in_order hτ hq).2 halone⟩

end Taskflow
