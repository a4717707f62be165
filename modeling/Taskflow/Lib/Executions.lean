import Taskflow.Lib.Threads

/-!
# Recorded interleavings

An execution is an interleaving with its moments: for each event the thread that had it and the world that it
found.  What one thread has done is a run of its program in worlds that the others may have changed from one
event to the next (`Execution.does`).
-/

namespace Effects

variable {ι E : Type} {R : E → Type} {X α W G : Type}

structure Moment (ι E : Type) (R : E → Type) (W : Type) where
  world : W
  thread : ι
  event : Event E R

section Executions

variable [DecidableEq ι] {S : System ι E R X α W G} {P P' : Pool ι E R X α W G} {τ : List (Moment ι E R W)}

/-- An interleaving, and its moments in order. -/
inductive Execution (S : System ι E R X α W G) (P : Pool ι E R X α W G) :
    List (Moment ι E R W) → Pool ι E R X α W G → Prop
  | start : Execution S P [] P
  | exec {τ : List (Moment ι E R W)} {P' : Pool ι E R X α W G} {e : E} {k : R e → Prog E R X α} {r : R e} {w : W}
      (h : Execution S P τ P') (i : ι) (hp : (P'.thread i).prog = .call e k) (hs : S.sem e P'.world r w) :
      Execution S P (τ ++ [⟨P'.world, i, e, r⟩])
        ⟨w, Function.update P'.thread i ⟨k r, S.observe (P'.thread i).note ⟨e, r⟩⟩⟩
  | again {τ : List (Moment ι E R W)} {P' : Pool ι E R X α W G} {a : α} {body : Prog E R X α}
      (h : Execution S P τ P') (i : ι) (hp : (P'.thread i).prog = .ret a) (hb : S.again i = some body) :
      Execution S P τ ⟨P'.world, Function.update P'.thread i ⟨body, S.fresh⟩⟩

theorem Execution.reachable (h : Execution S P τ P') : Reachable S P P' := by
  induction h with
  | start => exact .refl
  | exec _ i hp hs ih => exact ih.tail (.exec i hp hs)
  | again _ i hp hb ih => exact ih.tail (.again i hp hb)

/-- What came before a moment, led to the world that it found. -/
theorem Execution.before {m : Moment ι E R W} {before after : List (Moment ι E R W)}
    (h : Execution S P τ P') (hτ : τ = before ++ m :: after) : ∃ Q, Execution S P before Q ∧
    Q.world = m.world := by
  induction h generalizing after with
  | start => cases before <;> cases hτ
  | @exec τ P' e k r w h i hp hs ih =>
    rcases List.eq_nil_or_concat after with rfl | ⟨after, last, rfl⟩
    · obtain ⟨rfl, hm⟩ := List.append_inj' hτ rfl
      obtain rfl := (List.cons.inj hm).1
      exact ⟨P', h, rfl⟩
    · rw [List.concat_eq_append, ← List.cons_append, ← List.append_assoc] at hτ
      exact ih (List.append_inj' hτ rfl).1
  | again _ i hp hb ih => exact ih hτ

/-- The moments of thread `i`. -/
def own (i : ι) (τ : List (Moment ι E R W)) : List (Moment ι E R W) := τ.filter fun m => m.thread = i

/-- From `p`, the events of these moments, each possible in the world that it found, lead to `p'`. -/
def Prog.Does (S : Semantics E R W) : List (Moment ι E R W) → Prog E R X α → Prog E R X α → Prop
  | [], p, p' => p = p'
  | m :: τ, .call e k, p' => ∃ r w', m.event = ⟨e, r⟩ ∧ S e m.world r w' ∧ (k r).Does S τ p'
  | _ :: _, _, _ => False

omit [DecidableEq ι] in
theorem Prog.Does.snoc {S : Semantics E R W} {p : Prog E R X α} {e : E} {k : R e → Prog E R X α}
    {r : R e} {w w' : W}
    (h : p.Does S τ (.call e k)) (i : ι) (hs : S e w r w') : p.Does S (τ ++ [⟨w, i, e, r⟩]) (k r) := by
  induction τ generalizing p with
  | nil =>
    obtain rfl : p = .call e k := h
    exact ⟨r, w', rfl, hs, rfl⟩
  | cons m τ ih =>
    cases p with
    | ret a => exact h.elim
    | throw x => exact h.elim
    | call e' k' =>
      obtain ⟨r', v, hevent, hsem, hrest⟩ := h
      exact ⟨r', v, hevent, hsem, ih hrest⟩

omit [DecidableEq ι] in
/-- A program that passes on what it computes. -/
theorem Prog.Does.of_map {β : Type} {S : Semantics E R W} {p : Prog E R X β} {f : β → α} {a : α}
    (h : (p >>= fun b => .ret (f b)).Does S τ (.ret a)) : ∃ b, p.Does S τ (.ret b) ∧ f b = a := by
  induction τ generalizing p with
  | nil =>
    cases p with
    | ret b =>
      cases h
      exact ⟨b, rfl, rfl⟩
    | throw x => cases h
    | call e k => cases h
  | cons m τ ih =>
    cases p with
    | ret b => exact h.elim
    | throw x => exact h.elim
    | call e k =>
      obtain ⟨r, w', hevent, hs, hrest⟩ := h
      obtain ⟨b, hb, hf⟩ := ih hrest
      exact ⟨b, ⟨r, w', hevent, hs, hb⟩, hf⟩

/-- What a thread has done. -/
theorem Execution.does (h : Execution S P τ P') {i : ι} (hagain : S.again i = none) :
    (P.thread i).prog.Does S.sem (own i τ) (P'.thread i).prog := by
  induction h with
  | start => exact rfl
  | @exec τ P' e k r w _ j hp hs ih =>
    by_cases hj : j = i
    · subst hj
      rw [hp] at ih
      simpa [own] using ih.snoc j hs
    · have hji : i ≠ j := fun he => hj he.symm
      simpa [own, hj, hji] using ih
  | again _ j hp hb ih =>
    have hji : i ≠ j := by
      rintro rfl
      rw [hagain] at hb
      cases hb
    simpa [hji] using ih

/-- The events of a thread are those that its programs may ask for. -/
theorem Execution.every {F : ι → E → Prop} (h : Execution S P τ P') (hp : ∀ i, (P.thread i).prog.Every (F i))
    (hb : ∀ i body, S.again i = some body → body.Every (F i)) :
    (∀ m ∈ τ, F m.thread m.event.1) ∧ ∀ i, (P'.thread i).prog.Every (F i) := by
  have hupdate : ∀ {P' : Pool ι E R X α W G} {i : ι} {p : Prog E R X α} {g : G}, p.Every (F i) →
      (∀ j, (P'.thread j).prog.Every (F j)) → ∀ j,
          (Function.update P'.thread i ⟨p, g⟩ j).prog.Every (F j) := by
    intro P' i p g hp hall j
    by_cases hj : j = i
    · subst hj
      simpa using hp
    · simpa [hj] using hall j
  induction h with
  | start => exact ⟨fun _ hm => (nomatch hm), hp⟩
  | exec _ i hprog hs ih =>
    have hcall := ih.2 i
    rw [hprog] at hcall
    refine ⟨fun m hm => ?_, hupdate (hcall.2 _) ih.2⟩
    rcases List.mem_append.1 hm with hm | hm
    · exact ih.1 m hm
    · rw [List.mem_singleton.1 hm]
      exact hcall.1
  | again _ i hprog hbody ih => exact ⟨ih.1, hupdate (hb i _ hbody) ih.2⟩

/-! ### Moments and the worlds they leave -/

/-- Each moment with the world after it; the last one is `w`. -/
def moves : List (Moment ι E R W) → W → List (Moment ι E R W × W)
  | [], _ => []
  | m :: τ, w => (m, (τ.head?.map (·.world)).getD w) :: moves τ w

omit [DecidableEq ι] in
theorem moves_snoc (τ : List (Moment ι E R W)) (m : Moment ι E R W) (w : W) :
    moves (τ ++ [m]) w = moves τ m.world ++ [(m, w)] := by
  induction τ with
  | nil => rfl
  | cons m' τ ih =>
    rw [List.cons_append, moves, moves, ih, List.cons_append]
    cases τ <;> rfl

/-- A moment of thread `i` in pool `Q`: it asks for the effect, and the world may become `w`. -/
def Pool.At (S : System ι E R X α W G) (Q : Pool ι E R X α W G) (m : Moment ι E R W) (w : W) : Prop :=
  Q.world = m.world ∧ (∃ k, (Q.thread m.thread).prog = .call m.event.1 k) ∧ S.sem m.event.1 m.world m.event.2 w

/-- Every move is one from a pool on the way. -/
theorem Execution.at (h : Execution S P τ P') : ∀ x ∈ moves τ P'.world, ∃ Q, Reachable S P Q ∧
    Q.At S x.1 x.2 := by
  induction h with
  | start => exact fun x hx => (by cases hx)
  | @exec τ P' e k r w h i hp hs ih =>
    intro x hx
    rw [moves_snoc] at hx
    rcases List.mem_append.1 hx with hx | hx
    · exact ih x hx
    · obtain rfl := List.mem_singleton.1 hx
      exact ⟨P', h.reachable, rfl, ⟨k, hp⟩, hs⟩
  | again _ i hp hb ih => exact ih

/-- What the note of a thread says at the end and not at the start, it has come to say at a move of the thread. -/
theorem Execution.arises {B : G → Prop} (h : Execution S P τ P') {i : ι} (hstart : ¬ B (P.thread i).note)
    (hfresh : ¬ B S.fresh) (hend : B (P'.thread i).note) :
    ∃ x ∈ moves τ P'.world, x.1.thread = i ∧ ∃ Q, Reachable S P Q ∧ Q.At S x.1 x.2 ∧
    ¬ B (Q.thread i).note ∧
      B (S.observe (Q.thread i).note x.1.event) := by
  induction h with
  | start => exact absurd hend hstart
  | @exec τ P' e k r w h j hp hs ih =>
    rw [moves_snoc]
    dsimp only at hend
    by_cases hbefore : B (P'.thread i).note
    · obtain ⟨x, hx, hrest⟩ := ih hbefore
      exact ⟨x, List.mem_append_left _ hx, hrest⟩
    · have hj : j = i := by
        by_contra hne
        rw [Function.update_of_ne (Ne.symm hne)] at hend
        exact hbefore hend
      subst hj
      rw [Function.update_self] at hend
      exact ⟨_, List.mem_append_right _ List.mem_cons_self, rfl, P', h.reachable,
        ⟨rfl, ⟨k, hp⟩, hs⟩, hbefore, hend⟩
  | again h j hp hb ih =>
    dsimp only at hend
    by_cases hj : i = j
    · subst hj
      rw [Function.update_self] at hend
      exact absurd hend hfresh
    · rw [Function.update_of_ne hj] at hend
      exact ih hend

/-! ### Schedules -/

/-- What the threads do when they are scheduled in the given order and the environment answers by a handler;
`none` when a scheduled thread has ended, gets no answer, or takes a step that the check refuses. -/
def Pool.play (S : System ι E R X α W G) (check : W → (ι → G) → ι → Event E R → Bool)
    (f : (e : E) → W → Option (R e × W)) :
    List ι → Pool ι E R X α W G → Option (List (Moment ι E R W) × Pool ι E R X α W G)
  | [], P => some ([], P)
  | i :: schedule, P =>
    match (P.thread i).prog with
    | .call e k =>
      match f e P.world with
      | some (r, w) =>
        if check P.world P.notes i ⟨e, r⟩ then
          (Pool.play S check f schedule
            ⟨w, Function.update P.thread i ⟨k r, S.observe (P.thread i).note ⟨e, r⟩⟩⟩).map
              fun run => (⟨P.world, i, e, r⟩ :: run.1, run.2)
        else none
      | none => none
    | _ => none

section Play

variable {check : W → (ι → G) → ι → Event E R → Bool} {f : (e : E) → W → Option (R e × W)}
  (hf : ∀ e w r w', f e w = some (r, w') → S.sem e w r w')
include hf

/-- One scheduled step, and the rest of the schedule. -/
private theorem play_cons {i : ι} {schedule : List ι} {run : List (Moment ι E R W) × Pool ι E R X α W G}
    (h : P.play S check f (i :: schedule) = some run) : ∃ (e : E) (k : R e → Prog E R X α) (r : R e)
    (w : W) (run' : _),
      (P.thread i).prog = .call e k ∧ S.sem e P.world r w ∧ check P.world P.notes i ⟨e, r⟩ = true ∧
        Pool.play S check f schedule
          ⟨w, Function.update P.thread i ⟨k r, S.observe (P.thread i).note ⟨e, r⟩⟩⟩ = some run' ∧
        run = (⟨P.world, i, e, r⟩ :: run'.1, run'.2) := by
  rw [Pool.play] at h
  split at h
  · rename_i e k hp
    split at h
    · rename_i r w hanswer
      split at h
      · rename_i hmet
        obtain ⟨run', hrun', heq⟩ := Option.map_eq_some_iff.1 h
        exact ⟨e, k, r, w, run', hp, hf e _ r w hanswer, hmet, hrun', heq.symm⟩
      · cases h
    · cases h
  · cases h

omit hf in
/-- Only the notes of the system take part. -/
theorem play_congr {S' : System ι E R X α W G} (h : S.observe = S'.observe) (schedule : List ι)
    (P : Pool ι E R X α W G) : P.play S check f schedule = P.play S' check f schedule := by
  induction schedule generalizing P with
  | nil => rfl
  | cons i schedule ih => simp only [Pool.play, ih, h]

omit hf in
/-- A thread that is not scheduled stays as it is. -/
theorem play_thread {i : ι} {schedule : List ι} {run : List (Moment ι E R W) × Pool ι E R X α W G}
    (h : P.play S check f schedule = some run) (hi : i ∉ schedule) : run.2.thread i = P.thread i := by
  induction schedule generalizing P run with
  | nil =>
    cases h
    rfl
  | cons j schedule ih =>
    obtain ⟨hj, hschedule⟩ := List.ne_and_not_mem_of_not_mem_cons hi
    rw [Pool.play] at h
    split at h
    · split at h
      · split at h
        · obtain ⟨run', hrun', rfl⟩ := Option.map_eq_some_iff.1 h
          simpa [hj] using ih hrun' hschedule
        · cases h
      · cases h
    · cases h

/-- A schedule is an interleaving, if the handler answers as the environment may. -/
theorem ReachableIf.of_play {C : Proviso ι E R W G}
    (hcheck : ∀ w n i event, check w n i event = true → C w n i event)
    {schedule : List ι} {run : List (Moment ι E R W) × Pool ι E R X α W G}
    (h : P.play S check f schedule = some run) : ReachableIf S C P run.2 := by
  induction schedule generalizing P run with
  | nil =>
    cases h
    exact .refl
  | cons i schedule ih =>
    obtain ⟨e, k, r, w, run', hp, hs, hmet, hrest, rfl⟩ := play_cons hf h
    have hafter := ih hrest
    exact .head (.exec i hp hs (hcheck _ _ _ _ hmet)) hafter

/-- A schedule played after an execution. -/
theorem Execution.play (hτ : Execution S P τ P') {schedule : List ι}
    {run : List (Moment ι E R W) × Pool ι E R X α W G} (h : P'.play S check f schedule = some run) :
    Execution S P (τ ++ run.1) run.2 := by
  induction schedule generalizing τ P' run with
  | nil =>
    cases h
    simpa using hτ
  | cons i schedule ih =>
    obtain ⟨e, k, r, w, run', hp, hs, -, hrest, rfl⟩ := play_cons hf h
    have hafter := ih (hτ.exec i hp hs) hrest
    rwa [List.append_assoc] at hafter

end Play

end Executions

end Effects
