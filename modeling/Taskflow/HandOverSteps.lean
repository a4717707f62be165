import Taskflow.HandOver

/-!
# What each command does to the places of the tasks

One lemma for each command that moves a task: `Inv` holds again after it, with the note of the thread that issued
it updated.  The commands of a submitter are `HMSET` and `RPUSH`, those of a dispatch loop `LPOP`, then either
`RPUSH` or three `HSET`s, and then it starts again (`Inv.released`); every other command leaves lists and records
alone (`Inv.frame`).
-/

namespace Taskflow

open Text Effects Prog

variable {σ δ : Type} {W : Workload σ} {w w' : Keyspace} {n : σ ⊕ δ → Note}

/-! ### Notes of one thread -/

theorem Inv.of_submitter [DecidableEq σ] [DecidableEq δ] {s : σ} {g : Note} (hq : ∀ q ∈ queueKeys, IsQueue w' q)
    (hx : ∀ q ∈ queueKeys, ∀ x ∈ queueItems w' q, ValidId x)
    (ht : ∀ d i, (n (.inr d)).task = some i → ValidId i)
    (hs : TaskInv (W.request s).id (W.request s).priority g w' (fun d => n (.inr d)))
    (ho : ∀ s', s' ≠ s →
      TaskInv (W.request s').id (W.request s').priority (n (.inl s')) w' (fun d => n (.inr d))) :
    Inv W w' (Function.update n (.inl s) g) := by
  refine ⟨hq, hx, ?_, ?_⟩
  · intro d i hd
    exact ht d i (by simpa using hd)
  · intro s'
    by_cases he : s' = s
    · subst he
      simpa using hs
    · simpa [he] using ho s' he

theorem Inv.of_loop [DecidableEq σ] [DecidableEq δ] {d : δ} {g : Note} (hq : ∀ q ∈ queueKeys, IsQueue w' q)
    (hx : ∀ q ∈ queueKeys, ∀ x ∈ queueItems w' q, ValidId x)
    (ht : ∀ d i, (n (.inr d)).task = some i → ValidId i) (hg : ∀ i, g.task = some i → ValidId i)
    (hs : ∀ s, TaskInv (W.request s).id (W.request s).priority (n (.inl s)) w'
      (Function.update (fun d => n (.inr d)) d g)) :
    Inv W w' (Function.update n (.inr d) g) := by
  have hloops : (fun d' => Function.update n (.inr d) g (.inr d')) = Function.update (fun d => n (.inr d)) d g := by
    funext d'
    by_cases he : d' = d
    · subst he; simp
    · simp [he]
  refine ⟨hq, hx, ?_, ?_⟩
  · intro d' i hd
    by_cases he : d' = d
    · subst he
      exact hg i (by simpa using hd)
    · exact ht d' i (by simpa [he] using hd)
  · intro s
    have h := hs s
    rw [← hloops] at h
    simpa using h

/-! ### The commands -/

/-- Commands on other keys, and reading. -/
theorem Inv.frame (h : Inv W w n) (hq : ∀ q ∈ queueKeys, w'[q]? = w[q]?)
    (hrec : ∀ i, w'[taskKey i]? = w[taskKey i]?) : Inv W w' n := by
  refine ⟨?_, ?_, h.tasks, ?_⟩
  · exact fun q hm => isQueue_congr (hq q hm) (h.queues q hm)
  · intro q hm x hx
    rw [queueItems_congr (hq q hm)] at hx
    exact h.items q hm x hx
  · intro s
    refine (h.places s).frame (hrec _) ?_ (fun d => Or.inl rfl)
    intro q hm
    rw [queueItems_congr (hq q hm)]

private theorem frame_record {i : Bytes} {v : Value} {q : Bytes} (hq : q ∈ queueKeys) :
    (w.insert (taskKey i) v)[q]? = w[q]? := by
  simp [taskKey_ne_queue hq i]

section Submitter

variable [DecidableEq σ] [DecidableEq δ] {s : σ}

/-- `HMSET` of a submitter. -/
theorem Inv.saved (h : Inv W w n) (hn : n (.inl s) = .idle) {f : StringMap Bytes}
    (hf : Pending (W.request s).priority (bytes "0") f) :
    Inv W (w.insert (taskKey (W.request s).id) (.hash f)) (Function.update n (.inl s) .saved) := by
  have hframe : ∀ q ∈ queueKeys, queueItems (w.insert (taskKey (W.request s).id) (.hash f)) q = queueItems w q :=
    fun q hq => queueItems_congr (frame_record hq)
  have hplace := h.places s
  rw [hn] at hplace
  refine Inv.of_submitter ?_ ?_ h.tasks ⟨⟨f, by simp, hf⟩, ?_, hplace.2.2⟩ ?_
  · exact fun q hq => isQueue_congr (frame_record hq) (h.queues q hq)
  · intro q hq x hx
    rw [hframe q hq] at hx
    exact h.items q hq x hx
  · rw [occurrences_congr (fun q hq => frame_record hq), hplace.2.1]
  · intro s' hs'
    refine (h.places s').frame ?_ (fun q hq => by rw [hframe q hq]) (fun d => Or.inl rfl)
    have hid : (W.request s).id ≠ (W.request s').id := fun he => hs' (W.distinct he).symm
    simp [hid]

/-- `RPUSH` of a submitter. -/
theorem Inv.submitted (h : Inv W w n) (hn : n (.inl s) = .saved)
    (ha : Appended w w' (queueOf (W.request s).priority) (W.request s).id) :
    Inv W w' (Function.update n (.inl s) .pushed) := by
  have hplace := h.places s
  rw [hn] at hplace
  obtain ⟨⟨f, hf, hpend⟩, hzero, hfree⟩ := hplace
  have hrec : ∀ i, w'[taskKey i]? = w[taskKey i]? := fun i => ha.frame _ (taskKey_ne_queue ha.mem i).symm
  refine Inv.of_submitter ?_ ?_ h.tasks (Or.inl ⟨⟨f, by rw [hrec, hf], hpend⟩, ?_, ?_, ?_⟩) ?_
  · exact fun q hq => ha.isQueue (h.queues q hq)
  · exact ha.forall_items h.items (W.valid s)
  · rw [ha.occurrences, hzero]
    simp
  · rw [ha.items_eq]
    simp
  · exact fun d hd => hfree d (Note.task_of_held hd)
  · intro s' hs'
    have hid : (W.request s).id ≠ (W.request s').id := fun he => hs' (W.distinct he).symm
    refine (h.places s').frame (hrec _) (fun q _ => ?_) (fun d => Or.inl rfl)
    rw [ha.count]
    simp [hid]

end Submitter

section Loop

variable [DecidableEq σ] [DecidableEq δ] {d : δ} {i : Bytes}

private theorem update_frame {loops : δ → Note} {g : Note} {j : Bytes} (hd : (loops d).task ≠ some j)
    (hg : g.task ≠ some j) (d' : δ) :
    Function.update loops d g d' = loops d' ∨
      ((Function.update loops d g d').task ≠ some j ∧ (loops d').task ≠ some j) := by
  by_cases he : d' = d
  · subst he
    right
    simpa using ⟨hg, hd⟩
  · left
    simp [he]

private theorem update_unheld {loops : δ → Note} {g : Note} {j : Bytes}
    (hu : ∀ d', d' ≠ d → (loops d').held ≠ some j)
    (hg : g.held ≠ some j) : Unheld (Function.update loops d g) j := by
  intro d'
  by_cases he : d' = d
  · subst he
    simpa using hg
  · simpa [he] using hu d' he

/-- `LPOP`: the id leaves its list and the loop holds it. -/
theorem Inv.popped (h : Inv W w n) (hn : n (.inr d) = .idle) {q : Bytes} (ht : Taken w w' q i) :
    Inv W w' (Function.update n (.inr d) (.holding i false)) := by
  have hrec : ∀ j, w'[taskKey j]? = w[taskKey j]? := fun j => ht.frame _ (taskKey_ne_queue ht.mem j).symm
  have hsub : ∀ q' ∈ queueKeys, ∀ x ∈ queueItems w' q', x ∈ queueItems w q' := by
    intro q' _ x hx
    by_cases he : q = q'
    · subst he
      rw [ht.items]
      exact List.mem_cons_of_mem _ hx
    · rwa [queueItems_congr (ht.frame q' he)] at hx
  have hi : i ∈ queueItems w q := by rw [ht.items]; exact List.mem_cons_self
  refine Inv.of_loop ?_ ?_ h.tasks ?_ ?_
  · intro q' hq'
    by_cases he : q = q'
    · subst he; exact ht.isQueue
    · exact isQueue_congr (ht.frame q' he) (h.queues q' hq')
  · exact fun q' hq' x hx => h.items q' hq' x (hsub q' hq' x hx)
  · rintro j ⟨⟩
    exact h.items q ht.mem i hi
  · intro s
    have hplace := h.places s
    by_cases hid : i = (W.request s).id
    · subst hid
      have hpos : occurrences w (W.request s).id ≠ 0 := by
        intro hz
        exact occurrences_eq_zero.1 hz q ht.mem hi
      have hocc := ht.occurrences (W.request s).id
      simp only [if_true] at hocc
      -- the task was waiting in a list, so the other notes of its submitter are excluded
      cases hm : n (.inl s) with
      | idle => rw [hm] at hplace; exact absurd hplace.2.1 hpos
      | saved => rw [hm] at hplace; exact absurd hplace.2.1 hpos
      | pushed =>
        rw [hm] at hplace
        rcases hplace with ⟨⟨f, hf, hpend⟩, hone, -, hu⟩ | ⟨_, _, _, _, ho, _⟩ | ⟨_, ho, _⟩
        · refine Or.inr (Or.inl ⟨d, false, by simp, ?_, by omega, f, by rw [hrec, hf], hpend⟩)
          intro d' hd'
          by_contra hne
          exact hu d' (by simpa [hne] using hd')
        · exact absurd ho hpos
        · exact absurd ho hpos
      | holding j marked => rw [hm] at hplace; exact hplace
      | assigned j => rw [hm] at hplace; exact hplace
    · refine hplace.frame (hrec _) (fun q' _ => ?_) (update_frame ?_ ?_)
      · have hc := ht.count q' (W.request s).id
        simp only [hid, and_false, if_false] at hc
        omega
      · rw [hn]; simp [Note.task]
      · simpa [Note.task] using hid

omit [DecidableEq σ] [DecidableEq δ] in
/-- The loop that holds a submitted task is the only one, and the task is in no list and has no worker. -/
theorem Inv.holder {marked : Bool} (h : Inv W w n) (hn : n (.inr d) = .holding i marked) {s : σ}
    (hi : (W.request s).id = i) :
    n (.inl s) = .pushed ∧ (∀ d', (n (.inr d')).held = some i → d' = d) ∧ occurrences w i = 0 ∧
      Stored w i (Pending (W.request s).priority (if marked then bytes "1" else bytes "0")) := by
  have hplace := h.places s
  have hheld : (n (.inr d)).held = some i := by rw [hn]; rfl
  rw [hi] at hplace
  cases hm : n (.inl s) with
  | idle => rw [hm] at hplace; exact absurd (Note.task_of_held hheld) (hplace.2.2 d)
  | saved => rw [hm] at hplace; exact absurd (Note.task_of_held hheld) (hplace.2.2 d)
  | pushed =>
    rw [hm] at hplace
    rcases hplace with ⟨_, _, _, hu⟩ | ⟨d', marked', hd', hone, ho, hs⟩ | ⟨_, _, hu⟩
    · exact absurd hheld (hu d)
    · obtain rfl := hone d hheld
      have he : Note.holding i marked' = .holding i marked := hd'.symm.trans hn
      injection he with _ he
      subst he
      exact ⟨rfl, hone, ho, hs⟩
    · exact absurd hheld (hu d)
  | holding j marked => rw [hm] at hplace; exact hplace.elim
  | assigned j => rw [hm] at hplace; exact hplace.elim

/-- `RPUSH` of a loop that holds the id: the task is queued again. -/
theorem Inv.requeued (h : Inv W w n) (hn : n (.inr d) = .holding i false) {p : Int32}
    (ha : Appended w w' (queueOf p) i) (hp : ∀ s, (W.request s).id = i → p = (W.request s).priority) :
    Inv W w' (Function.update n (.inr d) .pushed) := by
  have hrec : ∀ j, w'[taskKey j]? = w[taskKey j]? := fun j => ha.frame _ (taskKey_ne_queue ha.mem j).symm
  refine Inv.of_loop ?_ ?_ h.tasks (fun j hj => by simp [Note.task] at hj) ?_
  · exact fun q hq => ha.isQueue (h.queues q hq)
  · exact ha.forall_items h.items (h.tasks d i (by rw [hn]; rfl))
  · intro s
    by_cases hid : i = (W.request s).id
    · obtain ⟨hm, hone, ho, f, hf, hpend⟩ := h.holder hn hid.symm
      rw [hm, ← hid]
      refine Or.inl ⟨⟨f, by rw [hrec, hf], hpend⟩, by rw [ha.occurrences, ho]; simp, ?_, ?_⟩
      · rw [ha.items_eq, hp s hid.symm]
        simp
      · exact update_unheld (fun d' hne hd' => hne (hone d' hd')) (by simp [Note.held])
    · refine (h.places s).frame (hrec _) (fun q _ => ?_) (update_frame ?_ ?_)
      · rw [ha.count]
        simp [hid]
      · rw [hn]
        simpa [Note.task] using hid
      · simp [Note.task]

/-- Commands on the record of the task that a loop works on; what becomes of that task is left to show. -/
theorem Inv.recorded (h : Inv W w n) {g : Note} (hn : (n (.inr d)).task = some i) (hg : g.task = some i)
    (hw : ∀ a, taskKey i ≠ a → w'[a]? = w[a]?)
    (hs : ∀ s, (W.request s).id = i → TaskInv i (W.request s).priority (n (.inl s)) w'
      (Function.update (fun d => n (.inr d)) d g)) :
    Inv W w' (Function.update n (.inr d) g) := by
  have hq : ∀ q ∈ queueKeys, w'[q]? = w[q]? := fun q hq => hw q (taskKey_ne_queue hq i)
  refine Inv.of_loop ?_ ?_ h.tasks ?_ ?_
  · exact fun q hm => isQueue_congr (hq q hm) (h.queues q hm)
  · intro q hm x hx
    rw [queueItems_congr (hq q hm)] at hx
    exact h.items q hm x hx
  · intro j hj
    rw [hg] at hj
    exact h.tasks d j (hn.trans hj)
  · intro s
    by_cases hid : i = (W.request s).id
    · rw [← hid]
      exact hs s hid.symm
    · refine (h.places s).frame (hw _ (by simpa using hid)) (fun q hm => ?_) (update_frame ?_ ?_)
      · rw [queueItems_congr (hq q hm)]
      · rw [hn]
        simpa using hid
      · rw [hg]
        simpa using hid

private theorem occurrences_record (hw : ∀ a, taskKey i ≠ a → w'[a]? = w[a]?) (j : Bytes) :
    occurrences w' j = occurrences w j :=
  occurrences_congr (fun q hq => hw q (taskKey_ne_queue hq i)) j

/-- `HSET` of the status. -/
theorem Inv.marked (h : Inv W w n) (hn : n (.inr d) = .holding i false)
    (hw : ∀ a, taskKey i ≠ a → w'[a]? = w[a]?)
    (hr : ∀ f, w[taskKey i]? = some (.hash f) →
      w'[taskKey i]? = some (.hash (f.insert (bytes "status") (bytes "1")))) :
    Inv W w' (Function.update n (.inr d) (.holding i true)) := by
  refine h.recorded (by rw [hn]; rfl) rfl hw ?_
  intro s hid
  obtain ⟨hm, hone, ho, f, hf, hrec, _, hworker⟩ := h.holder hn hid
  rw [hm]
  refine Or.inr (Or.inl ⟨d, true, by simp, ?_, by rw [occurrences_record hw, ho], _, hr f hf, ?_, ?_, ?_⟩)
  · intro d' hd'
    by_contra hne
    exact hne (hone d' (by simpa [hne] using hd'))
  · exact hrec.insert (by decide) (by decide) (fun _ => ⟨1, by decide⟩)
  · simp
  · have hne : bytes "status" ≠ bytes "worker_id" := by decide
    simp [hne, hworker]

/-- `HSET` of the worker: with the status stored, the task is assigned. -/
theorem Inv.assigned (h : Inv W w n) (hn : n (.inr d) = .holding i true) {v : Bytes} (hv : v ≠ [])
    (hw : ∀ a, taskKey i ≠ a → w'[a]? = w[a]?)
    (hr : ∀ f, w[taskKey i]? = some (.hash f) → w'[taskKey i]? = some (.hash (f.insert (bytes "worker_id") v))) :
    Inv W w' (Function.update n (.inr d) (.assigned i)) := by
  refine h.recorded (by rw [hn]; rfl) rfl hw ?_
  intro s hid
  obtain ⟨hm, hone, ho, f, hf, hrec, hstatus, _⟩ := h.holder hn hid
  rw [hm]
  refine Or.inr (Or.inr ⟨⟨_, hr f hf, ?_, ?_, v, hv, by simp⟩, by rw [occurrences_record hw, ho], ?_⟩)
  · exact hrec.insert (by decide) (by decide) (fun hmem => absurd hmem (by decide))
  · have hne : bytes "worker_id" ≠ bytes "status" := by decide
    simpa [hne] using hstatus
  · exact update_unheld (fun d' hne hd' => hne (hone d' hd')) (by simp [Note.held])

/-- `HSET` of the start time of an assigned task. -/
theorem Inv.started (h : Inv W w n) (hn : n (.inr d) = .assigned i) {t : Int64}
    (hw : ∀ a, taskKey i ≠ a → w'[a]? = w[a]?)
    (hr : ∀ f, w[taskKey i]? = some (.hash f) →
      w'[taskKey i]? = some (.hash (f.insert (bytes "started_at") (decimal t.toInt)))) :
    Inv W w' n := by
  have hself : Function.update n (.inr d) (.assigned i) = n := by rw [← hn, Function.update_eq_self]
  have hloops : Function.update (fun d => n (.inr d)) d (.assigned i) = fun d => n (.inr d) := by
    rw [← hn]
    exact Function.update_eq_self d (fun d => n (.inr d))
  rw [← hself]
  refine h.recorded (by rw [hn]; rfl) rfl hw ?_
  intro s hid
  rw [hloops]
  have hrec : ∀ {p : Int32} {f : StringMap Bytes}, TaskRecord p f →
      TaskRecord p (f.insert (bytes "started_at") (decimal t.toInt)) := fun h' =>
    h'.insert (by decide) (by decide) (fun _ => ⟨t, rfl⟩)
  have hstatus : bytes "started_at" ≠ bytes "status" := by decide
  have hworker : bytes "started_at" ≠ bytes "worker_id" := by decide
  have hpend : ∀ {p : Int32} {st : Bytes}, Stored w i (Pending p st) → Stored w' i (Pending p st) := by
    rintro p st ⟨f, hf, h1, h2, h3⟩
    exact ⟨_, hr f hf, hrec h1, by simpa [hstatus] using h2, by simpa [hworker] using h3⟩
  have hocc := occurrences_record hw i
  have htask : (n (.inr d)).task = some i := by rw [hn]; rfl
  have hplace := h.places s
  rw [hid] at hplace
  cases hm : n (.inl s) with
  | idle => rw [hm] at hplace; exact absurd htask (hplace.2.2 d)
  | saved => rw [hm] at hplace; exact absurd htask (hplace.2.2 d)
  | pushed =>
    rw [hm] at hplace
    rcases hplace with ⟨hs, ho, hin, hu⟩ | ⟨d', marked, hd', hone, ho, hs⟩ |
      ⟨⟨f, hf, h1, h2, v, hv, h3⟩, ho, hu⟩
    · refine Or.inl ⟨hpend hs, by rw [hocc, ho], ?_, hu⟩
      rwa [queueItems_congr (hw _ (taskKey_ne_queue (queueOf_mem _) i))]
    · exact Or.inr (Or.inl ⟨d', marked, hd', hone, by rw [hocc, ho], hpend hs⟩)
    · exact Or.inr (Or.inr ⟨⟨_, hr f hf, hrec h1, by simpa [hstatus] using h2, v, hv,
        by simpa [hworker] using h3⟩,
        by rw [hocc, ho], hu⟩)
  | holding j marked => rw [hm] at hplace; exact hplace.elim
  | assigned j => rw [hm] at hplace; exact hplace.elim

/-- The next iteration of a loop that holds no task. -/
theorem Inv.released (h : Inv W w n) (hn : (n (.inr d)).held = none) :
    Inv W w (Function.update n (.inr d) .idle) := by
  have hunheld : ∀ {j}, Unheld (fun d => n (.inr d)) j →
      Unheld (Function.update (fun d => n (.inr d)) d .idle) j := fun hu =>
    update_unheld (fun d' _ => hu d') (by simp [Note.held])
  have hfree : ∀ {j}, (∀ d, (n (.inr d)).task ≠ some j) →
      ∀ d', (Function.update (fun d => n (.inr d)) d .idle d').task ≠ some j := by
    intro j hu d'
    by_cases he : d' = d
    · subst he
      simp [Note.task]
    · simpa [he] using hu d'
  refine Inv.of_loop h.queues h.items h.tasks (fun j hj => by simp [Note.task] at hj) ?_
  intro s
  have hplace := h.places s
  cases hm : n (.inl s) with
  | idle => rw [hm] at hplace; exact ⟨hplace.1, hplace.2.1, hfree hplace.2.2⟩
  | saved => rw [hm] at hplace; exact ⟨hplace.1, hplace.2.1, hfree hplace.2.2⟩
  | pushed =>
    rw [hm] at hplace
    rcases hplace with ⟨hs, ho, hin, hu⟩ | ⟨d', marked, hd', hone, ho, hs⟩ | ⟨hs, ho, hu⟩
    · exact Or.inl ⟨hs, ho, hin, hunheld hu⟩
    · have hne : d' ≠ d := by
        rintro rfl
        have he : n (.inr d') = .holding (W.request s).id marked := hd'
        simp [he, Note.held] at hn
      refine Or.inr (Or.inl ⟨d', marked, by simpa [hne] using hd', ?_, ho, hs⟩)
      intro d'' hd''
      by_cases he : d'' = d
      · subst he
        simp [Note.held] at hd''
      · exact hone d'' (by simpa [he] using hd'')
    · exact Or.inr (Or.inr ⟨hs, ho, hunheld hu⟩)
  | holding j marked => rw [hm] at hplace; exact hplace.elim
  | assigned j => rw [hm] at hplace; exact hplace.elim

end Loop

end Taskflow
