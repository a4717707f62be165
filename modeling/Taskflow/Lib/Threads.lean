import Taskflow.Lib.Effects

/-!
# Interleaving threads

A pool of threads runs programs against one world, one effect at a time, in any order.  Every thread carries a
note, a summary of its own events that changes with each of them (`observe`), so that an invariant can speak of
what a thread has done.  A thread whose program has returned may start its body again.

The proof rule is the invariant rule: an outline of a program (`Outline`) shows for each effect of the program that
whatever the other threads did before, the effect keeps the invariant and the rest of the program is outlined
again.  If all threads are outlined, the invariant holds in every reachable pool (`Outlined.reachable`).
-/

namespace Effects

variable {ι E : Type} {R : E → Type} {X α β W G : Type}

/-- A thread: what is left of its program, and its note. -/
structure Thread (E : Type) (R : E → Type) (X α G : Type) where
  prog : Prog E R X α
  note : G

/-- The world and all threads. -/
structure Pool (ι E : Type) (R : E → Type) (X α W G : Type) where
  world : W
  thread : ι → Thread E R X α G

/-- The rules of a pool: what effects do, how a note follows the events, and the body that thread `i` starts again
when its program has returned, with the note `fresh`. -/
structure System (ι E : Type) (R : E → Type) (X α W G : Type) where
  sem : Semantics E R W
  observe : G → Event E R → G
  fresh : G
  again : ι → Option (Prog E R X α)

def Pool.notes (P : Pool ι E R X α W G) : ι → G := fun i => (P.thread i).note

variable [DecidableEq ι]

/-- One thread performs one effect, or starts its body again. -/
inductive Step (S : System ι E R X α W G) : Pool ι E R X α W G → Pool ι E R X α W G → Prop
  | exec {P : Pool ι E R X α W G} {e : E} {k : R e → Prog E R X α} {r : R e} {w : W} (i : ι)
      (hp : (P.thread i).prog = .call e k) (hs : S.sem e P.world r w) :
      Step S P ⟨w, Function.update P.thread i ⟨k r, S.observe (P.thread i).note ⟨e, r⟩⟩⟩
  | again {P : Pool ι E R X α W G} {a : α} {body : Prog E R X α} (i : ι)
      (hp : (P.thread i).prog = .ret a) (hb : S.again i = some body) :
      Step S P ⟨P.world, Function.update P.thread i ⟨body, S.fresh⟩⟩

/-- Any interleaving of steps. -/
def Reachable (S : System ι E R X α W G) : Pool ι E R X α W G → Pool ι E R X α W G → Prop :=
  Relation.ReflTransGen (Step S)

/-- A thread may run to its end without interruption; the others stay where they are. -/
theorem Run.reachable {S : System ι E R X α W G} {P : Pool ι E R X α W G} {i : ι} {τ : List (Event E R)} {a : α}
    {w : W} (h : Run S.sem (P.thread i).prog P.world τ (.ok a) w) :
    ∃ P', Reachable S P P' ∧ P'.world = w ∧ (P'.thread i).prog = .ret a ∧ ∀ j, j ≠ i →
    P'.thread j = P.thread j := by
  generalize hp : (P.thread i).prog = p at h
  generalize hv : P.world = v at h
  generalize ho : (Except.ok a : Except X α) = o at h
  induction h generalizing P with
  | ret b v =>
    cases ho
    exact ⟨P, .refl, hv, hp, fun _ _ => rfl⟩
  | throw x v => cases ho
  | @call e k _ w' _ r _ _ hs _ ih =>
    subst hv
    have hprog : (Function.update P.thread i ⟨k r, S.observe (P.thread i).note ⟨e, r⟩⟩ i).prog = k r := by simp
    obtain ⟨P', hr, hw, hret, hothers⟩ := ih (P := ⟨w', _⟩) hprog rfl ho
    refine ⟨P', .head (.exec i hp hs) hr, hw, hret, fun j hj => ?_⟩
    rw [hothers j hj]
    exact Function.update_of_ne hj _ _

/-- The program of thread `i`, whose note is `g`, keeps `Inv` at each of its effects, and returns only with values
and notes in `Q`. -/
def Outline (S : System ι E R X α W G) (Inv : W → (ι → G) → Prop) (i : ι) (Q : β → G → Prop) :
    Prog E R X β → G → Prop
  | .ret b, g => Q b g
  | .throw _, _ => True
  | .call e k, g => ∀ w n r w', Inv w n → n i = g → S.sem e w r w' →
      Inv w' (Function.update n i (S.observe g ⟨e, r⟩)) ∧ Outline S Inv i Q (k r) (S.observe g ⟨e, r⟩)

section Rules

variable {S : System ι E R X α W G} {Inv : W → (ι → G) → Prop} {i : ι} {g : G}

@[simp] theorem outline_ret {Q : β → G → Prop} {b : β} : Outline S Inv i Q (.ret b) g ↔ Q b g := Iff.rfl

@[simp] theorem outline_throw {Q : β → G → Prop} {x : X} : Outline S Inv i Q (.throw x) g := trivial

theorem Outline.bind {γ : Type} {Q : β → G → Prop} {Q' : γ → G → Prop} {p : Prog E R X β}
    {f : β → Prog E R X γ} (h : Outline S Inv i Q p g) (hf : ∀ b g, Q b g → Outline S Inv i Q' (f b) g) :
    Outline S Inv i Q' (p >>= f) g := by
  induction p generalizing g with
  | ret b => exact hf b g h
  | throw x => trivial
  | call e k ih =>
    intro w n r w' hI hn hs
    exact ⟨(h w n r w' hI hn hs).1, ih r (h w n r w' hI hn hs).2⟩

/-- An effect that changes neither the note nor anything the invariant looks at. -/
theorem Outline.skip {Q : β → G → Prop} {e : E} {k : R e → Prog E R X β} {A : R e → Prop}
    (hnote : ∀ r, S.observe g ⟨e, r⟩ = g) (hinv : ∀ w n r w', Inv w n → S.sem e w r w' → Inv w' n ∧ A r)
    (hk : ∀ r, A r → Outline S Inv i Q (k r) g) : Outline S Inv i Q (.call e k) g := by
  intro w n r w' hI hn hs
  have h := hinv w n r w' hI hs
  rw [hnote r, ← hn, Function.update_eq_self, hn]
  exact ⟨h.1, hk r h.2⟩

/-- Programs all of whose effects keep an invariant of the world keep it. -/
theorem Outline.of_every {I : W → Prop} {P : E → Prop} {p : Prog E R X β} (hp : p.Every P)
    (hs : ∀ e w r w', P e → I w → S.sem e w r w' → I w') :
    Outline S (fun w _ => I w) i (fun _ _ => True) p g := by
  induction p generalizing g with
  | ret b => trivial
  | throw x => trivial
  | call e k ih =>
    intro w n r w' hI _ hsem
    exact ⟨hs e w r w' hp.1 hI hsem, ih r (hp.2 r)⟩

end Rules

/-! ### Runs under a condition -/

/-- A condition on steps: on the world and the notes before the step, the thread, and its event. -/
abbrev Proviso (ι E : Type) (R : E → Type) (W G : Type) := W → (ι → G) → ι → Event E R → Prop

/-- A step whose event meets the condition. -/
inductive StepIf (S : System ι E R X α W G) (C : Proviso ι E R W G) :
    Pool ι E R X α W G → Pool ι E R X α W G → Prop
  | exec {P : Pool ι E R X α W G} {e : E} {k : R e → Prog E R X α} {r : R e} {w : W} (i : ι)
      (hp : (P.thread i).prog = .call e k) (hs : S.sem e P.world r w) (hc : C P.world P.notes i ⟨e, r⟩) :
      StepIf S C P ⟨w, Function.update P.thread i ⟨k r, S.observe (P.thread i).note ⟨e, r⟩⟩⟩
  | again {P : Pool ι E R X α W G} {a : α} {body : Prog E R X α} (i : ι)
      (hp : (P.thread i).prog = .ret a) (hb : S.again i = some body) :
      StepIf S C P ⟨P.world, Function.update P.thread i ⟨body, S.fresh⟩⟩

/-- Any interleaving of steps that meet the condition. -/
def ReachableIf (S : System ι E R X α W G) (C : Proviso ι E R W G) :
    Pool ι E R X α W G → Pool ι E R X α W G → Prop :=
  Relation.ReflTransGen (StepIf S C)

/-- Where the steps meet the condition `C`, the program of thread `i`, whose note is `g`, keeps `Inv` at each of its
effects, and it ends only with outcomes and notes in `Q`. -/
def OutlineIf (S : System ι E R X α W G) (C : Proviso ι E R W G) (Inv : W → (ι → G) → Prop) (i : ι)
    (Q : Except X β → G → Prop) : Prog E R X β → G → Prop
  | .ret b, g => Q (.ok b) g
  | .throw x, g => Q (.error x) g
  | .call e k, g => ∀ w n r w', Inv w n → n i = g → S.sem e w r w' → C w n i ⟨e, r⟩ →
      Inv w' (Function.update n i (S.observe g ⟨e, r⟩)) ∧ OutlineIf S C Inv i Q (k r) (S.observe g ⟨e, r⟩)

/-- The effects in `P` leave the note `g` as it is, and keep the invariant. -/
structure Quiet (S : System ι E R X α W G) (Inv : W → (ι → G) → Prop) (g : G) (P : E → Prop) : Prop where
  note : ∀ e r, P e → S.observe g ⟨e, r⟩ = g
  inv : ∀ e w n r w', P e → Inv w n → S.sem e w r w' → Inv w' n

section ConditionalRules

variable {S : System ι E R X α W G} {C : Proviso ι E R W G} {Inv : W → (ι → G) → Prop} {i : ι} {g : G}

theorem OutlineIf.bind {γ : Type} {Q : Except X β → G → Prop} {Q' : Except X γ → G → Prop}
    {p : Prog E R X β} {f : β → Prog E R X γ} (h : OutlineIf S C Inv i Q p g)
    (hok : ∀ b g, Q (.ok b) g → OutlineIf S C Inv i Q' (f b) g)
    (herr : ∀ x g, Q (.error x) g → Q' (.error x) g) : OutlineIf S C Inv i Q' (p >>= f) g := by
  induction p generalizing g with
  | ret b => exact hok b g h
  | throw x => exact herr x g h
  | call e k ih =>
    intro w n r w' hI hn hs hc
    exact ⟨(h w n r w' hI hn hs hc).1, ih r (h w n r w' hI hn hs hc).2⟩

theorem OutlineIf.mono {Q Q' : Except X β → G → Prop} {p : Prog E R X β} (h : OutlineIf S C Inv i Q p g)
    (hQ : ∀ o g, Q o g → Q' o g) : OutlineIf S C Inv i Q' p g := by
  induction p generalizing g with
  | ret b => exact hQ _ g h
  | throw x => exact hQ _ g h
  | call e k ih =>
    intro w n r w' hI hn hs hc
    exact ⟨(h w n r w' hI hn hs hc).1, ih r (h w n r w' hI hn hs hc).2⟩

/-- A program of effects that are quiet for the note. -/
theorem OutlineIf.quiet {P : E → Prop} {p : Prog E R X β} (hq : Quiet S Inv g P) (hp : p.Every P) :
    OutlineIf S C Inv i (fun _ g' => g' = g) p g := by
  induction p with
  | ret b => rfl
  | throw x => rfl
  | call e k ih =>
    intro w n r w' hI hn hs _
    rw [hq.note e r hp.1, ← hn, Function.update_eq_self, hn]
    exact ⟨hq.inv e w n r w' hp.1 hI hs, ih r (hp.2 r)⟩

/-- A first part of such effects. -/
theorem OutlineIf.after {γ : Type} {P : E → Prop} {Q : Except X γ → G → Prop} {p : Prog E R X β}
    {f : β → Prog E R X γ} (hq : Quiet S Inv g P) (hp : p.Every P) (hok : ∀ b, OutlineIf S C Inv i Q (f b) g)
    (herr : ∀ x, Q (.error x) g) : OutlineIf S C Inv i Q (p >>= f) g := by
  refine (OutlineIf.quiet hq hp).bind ?_ ?_
  · rintro b _ rfl
    exact hok b
  · rintro x _ rfl
    exact herr x

/-- One such effect, with what is known of its answer. -/
theorem OutlineIf.call {P : E → Prop} {Q : Except X β → G → Prop} {e : E} {k : R e → Prog E R X β}
    (hq : Quiet S Inv g P) (he : P e) (hk : ∀ w n r w', Inv w n → S.sem e w r w' →
      OutlineIf S C Inv i Q (k r) g) :
    OutlineIf S C Inv i Q (.call e k) g := by
  intro w n r w' hI hn hs _
  rw [hq.note e r he, ← hn, Function.update_eq_self, hn]
  exact ⟨hq.inv e w n r w' he hI hs, hk w n r w' hI hs⟩

end ConditionalRules

/-- All threads of the pool are outlined under the condition. -/
structure OutlinedIf (S : System ι E R X α W G) (C : Proviso ι E R W G) (Inv : W → (ι → G) → Prop)
    (Q : ι → Except X α → G → Prop) (P : Pool ι E R X α W G) : Prop where
  inv : Inv P.world P.notes
  threads : ∀ i, OutlineIf S C Inv i (Q i) (P.thread i).prog (P.thread i).note
  restart : ∀ i body, S.again i = some body → OutlineIf S C Inv i (Q i) body S.fresh
  rest : ∀ i a w n, (S.again i).isSome → Inv w n → Q i (.ok a) (n i) → Inv w (Function.update n i S.fresh)

theorem notes_update (P : Pool ι E R X α W G) (w : W) (i : ι) (p : Prog E R X α) (g : G) :
    (⟨w, Function.update P.thread i ⟨p, g⟩⟩ : Pool ι E R X α W G).notes = Function.update P.notes i g := by
  funext j
  by_cases hj : j = i
  · subst hj; simp [Pool.notes]
  · simp [Pool.notes, hj]

section ConditionalRuns

variable {S : System ι E R X α W G} {C : Proviso ι E R W G} {Inv : W → (ι → G) → Prop}
  {Q : ι → Except X α → G → Prop} {P P' : Pool ι E R X α W G}

theorem OutlinedIf.step (h : OutlinedIf S C Inv Q P) (hs : StepIf S C P P') : OutlinedIf S C Inv Q P' := by
  have others : ∀ (i : ι) (p : Prog E R X α) (g : G), OutlineIf S C Inv i (Q i) p g →
      ∀ j, OutlineIf S C Inv j (Q j) (Function.update P.thread i ⟨p, g⟩ j).prog
        (Function.update P.thread i ⟨p, g⟩ j).note := by
    intro i p g hp j
    by_cases hj : j = i
    · subst hj; simpa using hp
    · simpa [hj] using h.threads j
  cases hs with
  | exec i hp hsem hc =>
    have ho := h.threads i
    rw [hp] at ho
    obtain ⟨hinv, hrest⟩ := ho _ _ _ _ h.inv rfl hsem hc
    exact ⟨by rw [notes_update]; exact hinv, others i _ _ hrest, h.restart, h.rest⟩
  | again i hp hb =>
    have ho := h.threads i
    rw [hp] at ho
    have hinv := h.rest i _ _ _ (by rw [hb]; rfl) h.inv ho
    exact ⟨by rw [notes_update]; exact hinv, others i _ _ (h.restart i _ hb), h.restart, h.rest⟩

/-- The invariant rule for runs whose steps all meet the condition. -/
theorem OutlinedIf.reachable (h : OutlinedIf S C Inv Q P) (hr : ReachableIf S C P P') :
    OutlinedIf S C Inv Q P' := by
  induction hr with
  | refl => exact h
  | tail _ hs ih => exact ih.step hs

end ConditionalRuns

/-- Runs of an environment whose answers all meet the condition. -/
theorem Reachable.reachableIf {S : System ι E R X α W G} {C : Proviso ι E R W G} {P P' : Pool ι E R X α W G}
    (h : Reachable S P P') (hC : ∀ w n i e r w', S.sem e w r w' → C w n i ⟨e, r⟩) : ReachableIf S C P P' := by
  refine Relation.ReflTransGen.mono (fun P P' hs => ?_) _ _ h
  cases hs with
  | exec i hp hs => exact .exec i hp hs (hC _ _ i _ _ _ hs)
  | again i hp hb => exact .again i hp hb

theorem StepIf.step {S : System ι E R X α W G} {C : Proviso ι E R W G} {P P' : Pool ι E R X α W G}
    (h : StepIf S C P P') : Step S P P' := by
  cases h with
  | exec i hp hs _ => exact .exec i hp hs
  | again i hp hb => exact .again i hp hb

theorem ReachableIf.reachable {S : System ι E R X α W G} {C : Proviso ι E R W G} {P P' : Pool ι E R X α W G}
    (h : ReachableIf S C P P') : Reachable S P P' :=
  Relation.ReflTransGen.mono (fun _ _ h => StepIf.step h) _ _ h

/-- All threads of the pool are outlined, and a thread that starts again may do so whenever it has returned. -/
structure Outlined (S : System ι E R X α W G) (Inv : W → (ι → G) → Prop) (Q : ι → α → G → Prop)
    (P : Pool ι E R X α W G) : Prop where
  inv : Inv P.world P.notes
  threads : ∀ i, Outline S Inv i (Q i) (P.thread i).prog (P.thread i).note
  restart : ∀ i body, S.again i = some body → Outline S Inv i (Q i) body S.fresh
  rest : ∀ i a w n, (S.again i).isSome → Inv w n → Q i a (n i) → Inv w (Function.update n i S.fresh)

theorem Outline.outlineIf {S : System ι E R X α W G} {Inv : W → (ι → G) → Prop} {i : ι}
    {Q : β → G → Prop} {p : Prog E R X β} {g : G} : Outline S Inv i Q p g ↔
      OutlineIf S (fun _ _ _ _ => True) Inv i (fun o g => ∀ b, o = .ok b → Q b g) p g := by
  induction p generalizing g with
  | ret b =>
    constructor
    · rintro h _ ⟨⟩
      exact h
    · exact fun h => h b rfl
  | throw x => exact iff_of_true trivial fun _ h => nomatch h
  | call e k ih =>
    constructor
    · intro h w n r w' hI hn hs _
      exact ⟨(h w n r w' hI hn hs).1, (ih r).1 (h w n r w' hI hn hs).2⟩
    · intro h w n r w' hI hn hs
      exact ⟨(h w n r w' hI hn hs trivial).1, (ih r).2 (h w n r w' hI hn hs trivial).2⟩

/-- The invariant rule: outlined threads keep the invariant in every interleaving. -/
theorem Outlined.reachable {S : System ι E R X α W G} {Inv : W → (ι → G) → Prop} {Q : ι → α → G → Prop}
    {P P' : Pool ι E R X α W G} (h : Outlined S Inv Q P) (hr : Reachable S P P') : Outlined S Inv Q P' := by
  have hcond : OutlinedIf S (fun _ _ _ _ => True) Inv (fun i o g => ∀ a, o = .ok a → Q i a g) P :=
    ⟨h.inv, fun i => Outline.outlineIf.1 (h.threads i), fun i body hb => Outline.outlineIf.1 (h.restart i body hb),
      fun i a w n hb hI hq => h.rest i a w n hb hI (hq a rfl)⟩
  have hend := hcond.reachable (hr.reachableIf fun _ _ _ _ _ _ _ => trivial)
  exact ⟨hend.inv, fun i => Outline.outlineIf.2 (hend.threads i), h.restart, h.rest⟩

/-! ### Counting threads -/

/-- The number of threads whose notes satisfy `p`. -/
def tally [Fintype ι] (p : G → Bool) (n : ι → G) : Nat := (Finset.univ.filter fun i => p (n i)).card

theorem tally_update [Fintype ι] (p : G → Bool) (n : ι → G) (i : ι) (g : G) :
    tally p (Function.update n i g) + (if p (n i) then 1 else 0) = tally p n + if p g then 1 else 0 := by
  simp only [tally, Finset.card_filter]
  rw [← Finset.add_sum_erase _ _ (Finset.mem_univ i), ← Finset.add_sum_erase Finset.univ _ (Finset.mem_univ i)]
  have hothers : ∑ j ∈ Finset.univ.erase i, (if p (Function.update n i g j) then 1 else 0) =
      ∑ j ∈ Finset.univ.erase i, if p (n j) then 1 else 0 := by
    apply Finset.sum_congr rfl
    intro j hj
    rw [Function.update_of_ne (Finset.ne_of_mem_erase hj)]
  rw [hothers, Function.update_self]
  omega

/-- A note that counts as before. -/
theorem tally_same [Fintype ι] {p : G → Bool} {n : ι → G} {i : ι} {g : G} (h : p g = p (n i)) :
    tally p (Function.update n i g) = tally p n := by
  have hcount := tally_update p n i g
  rw [h] at hcount
  omega

omit [DecidableEq ι] in
theorem tally_eq_zero [Fintype ι] {p : G → Bool} {n : ι → G} (h : ∀ i, p (n i) = false) : tally p n = 0 := by
  refine Finset.card_eq_zero.2 (Finset.filter_eq_empty_iff.2 fun i _ hi => ?_)
  rw [h i] at hi
  cases hi

omit [DecidableEq ι] in
theorem tally_mono [Fintype ι] {p q : G → Bool} {n : ι → G} (h : ∀ g, p g = true → q g = true) :
    tally p n ≤ tally q n :=
  Finset.card_le_card (Finset.monotone_filter_right _ fun _ _ hi => h _ hi)

end Effects
