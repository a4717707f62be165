import Taskflow.Lib.Executions

/-!
# Programs over a larger interface, and threads that obey a protocol

A program that asks for effects of `E` can run wherever these effects are offered among others (`embed`).

A protocol whose states are the notes of the threads says which effects a thread may ask for, as far as its own
events tell (`Obeys`).  That is a matter of the program text alone.  What the effects do to the world is a
second, separate matter: if each effect that the protocol allows keeps an invariant, then obedient threads keep
it in every interleaving (`Obedient.reachable`), and what each step guarantees, whole runs guarantee
(`Obedient.guarantee`).

What is known of the worlds of a run says how effects can be answered there, and so how the programs end, exceptions
included (`Given`, `Reachable.given`).
-/

namespace Effects

variable {E E' : Type} {R : E → Type} {R' : E' → Type} {X α β σ : Type}

/-! ### Larger interfaces -/

section Embedding

variable (f : E → E') (g : ∀ e, R' (f e) → R e)

/-- The program over `E'`: an effect `e` of `E` is asked for as `f e`, and `g` reads the answer. -/
def Prog.embed : Prog E R X α → Prog E' R' X α
  | ret a => ret a
  | throw x => throw x
  | call e k => call (f e) fun r => (k (g e r)).embed

/-- The protocol as the smaller interface sees it. -/
def Protocol.pull (N : Protocol E' R' σ) (r : ∀ e, R e → R' (f e)) : Protocol E R σ where
  allows s e := N.allows s (f e)
  next s event := N.next s ⟨f event.1, r event.1 event.2⟩

variable {f g}

@[simp] theorem Prog.embed_ret (a : α) : (ret a : Prog E R X α).embed f g = ret a := rfl

@[simp] theorem Prog.embed_call (e : E) (k : R e → Prog E R X α) :
    (call e k).embed f g = call (f e) fun r => (k (g e r)).embed f g := rfl

theorem Prog.Every.embed {P : E' → Prop} {p : Prog E R X α} (hp : p.Every fun e => P (f e)) :
    (p.embed f g).Every P := by
  induction p with
  | ret a => trivial
  | throw x => trivial
  | call e k ih => exact ⟨hp.1, fun r => ih (g e r) (hp.2 (g e r))⟩

end Embedding

/-! ### Effects that programs answer, and exceptions as results -/

/-- The program whose effects are answered by the programs `h`. -/
def Prog.handle (h : (e : E) → Prog E' R' X (R e)) : Prog E R X α → Prog E' R' X α
  | ret a => ret a
  | throw x => throw x
  | call e k => h e >>= fun r => (k r).handle h

/-- The program that returns the exceptions. -/
def Prog.attempt : Prog E R X α → Prog E R X (Except X α)
  | ret a => ret (.ok a)
  | throw x => ret (.error x)
  | call e k => call e fun r => (k r).attempt

section Handling

variable {h : (e : E) → Prog E' R' X (R e)}

@[simp] theorem Prog.handle_ret (a : α) : (ret a : Prog E R X α).handle h = ret a := rfl

@[simp] theorem Prog.handle_throw (x : X) : (throw x : Prog E R X α).handle h = throw x := rfl

@[simp] theorem Prog.handle_call (e : E) (k : R e → Prog E R X α) :
    (call e k).handle h = h e >>= fun r => (k r).handle h := rfl

/-- If the programs `h` answer as the environment `S` may, or throw exceptions of `T`, then what holds of a
program in `S` holds of it when they answer its effects. -/
theorem Post.handle {W : Type} {S : Semantics E R W} {S' : Semantics E' R' W} {T : X → Prop}
    (hh : ∀ e w, Post S' (h e) (fun o w' => (∀ r, o = .ok r → S e w r w') ∧ ∀ x, o = .error x → T x) w)
    {p : Prog E R X α} {Q : Except X α → W → Prop} {w : W} (hp : Post S p Q w)
    (hthrows : ∀ x w', T x → Q (.error x) w') : Post S' (p.handle h) Q w := by
  induction p generalizing w with
  | ret a => exact hp
  | throw x => exact hp
  | call e k ih =>
    refine (hh e w).bind ?_ ?_
    · intro r w' hr
      exact ih r (hp r w' (hr.1 r rfl))
    · intro x w' hx
      exact hthrows x w' (hx.2 x rfl)

end Handling

/-! ### Obeying a protocol -/

/-- From state `s` on, the program asks only for effects that the protocol allows, and returns only with values and
states in `Q`. -/
def Prog.Obeys (N : Protocol E R σ) (Q : α → σ → Prop) : σ → Prog E R X α → Prop
  | s, ret a => Q a s
  | _, throw _ => True
  | s, call e k => N.allows s e ∧ ∀ r, (k r).Obeys N Q (N.next s ⟨e, r⟩)

section Obeying

variable {N : Protocol E R σ} {Q Q' : α → σ → Prop} {s : σ}

theorem Prog.Obeys.bind {Q' : β → σ → Prop} {p : Prog E R X α} {f : α → Prog E R X β} (hp : p.Obeys N Q s)
    (hf : ∀ a t, Q a t → (f a).Obeys N Q' t) : (p >>= f).Obeys N Q' s := by
  induction p generalizing s with
  | ret a => exact hf a s hp
  | throw x => trivial
  | call e k ih => exact ⟨hp.1, fun r => ih r (hp.2 r)⟩

theorem Prog.Obeys.mono {p : Prog E R X α} (hp : p.Obeys N Q s) (h : ∀ a t, Q a t → Q' a t) : p.Obeys N Q' s := by
  induction p generalizing s with
  | ret a => exact h a s hp
  | throw x => trivial
  | call e k ih => exact ⟨hp.1, fun r => ih r (hp.2 r)⟩

theorem Prog.Obeys.ite {c : Prop} [Decidable c] {p q : Prog E R X α} (hp : p.Obeys N Q s) (hq : q.Obeys N Q s) :
    (if c then p else q).Obeys N Q s := by
  split
  · exact hp
  · exact hq

theorem Prog.Obeys.ofExcept {x : Except X α} (h : ∀ a, x = .ok a → Q a s) : (Prog.ofExcept x).Obeys N Q s := by
  cases x with
  | ok a => exact h a rfl
  | error x => trivial

/-- What comes after an exception starts in any state. -/
theorem Prog.Obeys.attempt {Q' : β → σ → Prop} {p : Prog E R X α} {f : Except X α → Prog E R X β}
    (hp : p.Obeys N Q s)
    (hok : ∀ a t, Q a t → (f (.ok a)).Obeys N Q' t) (herr : ∀ x t, (f (.error x)).Obeys N Q' t) :
    (p.attempt >>= f).Obeys N Q' s := by
  induction p generalizing s with
  | ret a => exact hok a s hp
  | throw x => exact herr x s
  | call e k ih => exact ⟨hp.1, fun r => ih r (hp.2 r)⟩

/-- Effects that leave the protocol in its state. -/
theorem Prog.Obeys.of_every {p : Prog E R X α} (hp : p.Every (N.Stays s)) : p.Obeys N (fun _ t => t = s) s := by
  induction p with
  | ret a => exact rfl
  | throw x => trivial
  | call e k ih =>
    refine ⟨hp.1.1, fun r => ?_⟩
    rw [hp.1.2 r]
    exact ih r (hp.2 r)

/-- A first part of such effects. -/
theorem Prog.Obeys.after {Q' : β → σ → Prop} {p : Prog E R X α} {f : α → Prog E R X β}
    (hp : p.Every (N.Stays s)) (hf : ∀ a, (f a).Obeys N Q' s) : (p >>= f).Obeys N Q' s := by
  refine (Obeys.of_every hp).bind ?_
  rintro a t rfl
  exact hf a

/-- An embedded program obeys a protocol if the program obeys what it sees of it. -/
theorem Prog.Obeys.embed {N : Protocol E' R' σ} {f : E → E'} {g : ∀ e, R' (f e) → R e}
    {r : ∀ e, R e → R' (f e)} (hr : ∀ e a, r e (g e a) = a) {p : Prog E R X α} (hp : p.Obeys (N.pull f r) Q s) :
    (p.embed f g).Obeys N Q s := by
  induction p generalizing s with
  | ret a => exact hp
  | throw x => trivial
  | call e k ih =>
    refine ⟨hp.1, fun a => ?_⟩
    have hnext : (N.pull f r).next s ⟨e, g e a⟩ = N.next s ⟨f e, a⟩ := by
      show N.next s ⟨f e, r e (g e a)⟩ = _
      rw [hr]
    rw [← hnext]
    exact ih _ (hp.2 (g e a))

end Obeying

/-! ### What is known of the answers -/

/-- Where each effect is answered as `A` permits, the program asks only for effects of `F`, and ends only in `Q`. -/
def Prog.Given (A : (e : E) → R e → Prop) (F : E → Prop) (Q : Except X α → Prop) : Prog E R X α → Prop
  | ret a => Q (.ok a)
  | throw x => Q (.error x)
  | call e k => F e ∧ ∀ r, A e r → (k r).Given A F Q

section Given

variable {A : (e : E) → R e → Prop} {F : E → Prop} {Q Q' : Except X α → Prop}

theorem Prog.Given.bind {Q' : Except X β → Prop} {p : Prog E R X α} {f : α → Prog E R X β} (hp : p.Given A F Q)
    (hok : ∀ a, Q (.ok a) → (f a).Given A F Q') (herr : ∀ x, Q (.error x) → Q' (.error x)) :
    (p >>= f).Given A F Q' := by
  induction p with
  | ret a => exact hok a hp
  | throw x => exact herr x hp
  | call e k ih => exact ⟨hp.1, fun r hr => ih r (hp.2 r hr)⟩

theorem Prog.Given.mono {p : Prog E R X α} (hp : p.Given A F Q) (h : ∀ o, Q o → Q' o) : p.Given A F Q' := by
  induction p with
  | ret a => exact h _ hp
  | throw x => exact h _ hp
  | call e k ih => exact ⟨hp.1, fun r hr => ih r (hp.2 r hr)⟩

theorem Prog.Given.ite {c : Prop} [Decidable c] {p q : Prog E R X α} (hp : p.Given A F Q) (hq : q.Given A F Q) :
    (if c then p else q).Given A F Q := by
  split
  · exact hp
  · exact hq

theorem Prog.Given.ofExcept {x : Except X α} (h : Q x) : (Prog.ofExcept x).Given A F Q := by
  cases x with
  | ok a => exact h
  | error x => exact h

theorem Prog.Given.attempt {Q' : Except X β → Prop} {p : Prog E R X α} {f : Except X α → Prog E R X β}
    (hp : p.Given A F Q) (hf : ∀ o, Q o → (f o).Given A F Q') : (p.attempt >>= f).Given A F Q' := by
  induction p with
  | ret a => exact hf _ hp
  | throw x => exact hf _ hp
  | call e k ih => exact ⟨hp.1, fun r hr => ih r (hp.2 r hr)⟩

/-- A program whose effects are answered by programs that end with such answers. -/
theorem Prog.Given.handle {A' : (e : E') → R' e → Prop} {F' : E' → Prop} {h : (e : E) → Prog E' R' X (R e)}
    (hh : ∀ e, F e → (h e).Given A' F' fun o => ∃ r, o = .ok r ∧ A e r) {p : Prog E R X α}
    (hp : p.Given A F Q) :
    (p.handle h).Given A' F' Q := by
  induction p with
  | ret a => exact hp
  | throw x => exact hp
  | call e k ih =>
    refine (hh e hp.1).bind ?_ ?_
    · rintro r ⟨_, ⟨⟩, hr⟩
      exact ih r (hp.2 r hr)
    · rintro x ⟨_, ⟨⟩, -⟩

/-- An embedded program, where `f e` is answered as `e` is. -/
theorem Prog.Given.embed {f : E → E'} {g : ∀ e, R' (f e) → R e} {A' : (e : E') → R' e → Prop}
    {F' : E' → Prop}
    (hF : ∀ e, F e → F' (f e)) (hA : ∀ e r, A' (f e) r → A e (g e r)) {p : Prog E R X α} (hp : p.Given A F Q) :
    (p.embed f g).Given A' F' Q := by
  induction p with
  | ret a => exact hp
  | throw x => exact hp
  | call e k ih => exact ⟨hF e hp.1, fun r hr => ih (g e r) (hp.2 _ (hA e r hr))⟩

/-- The rest of a program whose effects were answered so. -/
theorem Prog.Given.does {ι W : Type} {S : Semantics E R W} {τ : List (Moment ι E R W)} {p p' : Prog E R X α}
    (hp : p.Given A F Q) (hτ : ∀ m ∈ τ, A m.event.1 m.event.2) (h : p.Does S τ p') : p'.Given A F Q := by
  induction τ generalizing p with
  | nil =>
    obtain rfl : p = p' := h
    exact hp
  | cons m τ ih =>
    cases p with
    | ret a => exact h.elim
    | throw x => exact h.elim
    | call e k =>
      obtain ⟨r, w', hevent, -, hrest⟩ := h
      have hanswer := hτ m List.mem_cons_self
      rw [hevent] at hanswer
      exact ih (hp.2 r hanswer) (fun m' hm' => hτ m' (List.mem_cons_of_mem _ hm')) hrest

/-- The program ends without an exception. -/
def Prog.Concludes (A : (e : E) → R e → Prop) (F : E → Prop) (p : Prog E R X α) : Prop :=
  p.Given A F fun o => ∃ a, o = .ok a

theorem Prog.concludes_ret (a : α) : (ret a : Prog E R X α).Concludes A F := ⟨a, rfl⟩

theorem Prog.Concludes.bind {p : Prog E R X α} {f : α → Prog E R X β} (hp : p.Concludes A F)
    (hf : ∀ a, (f a).Concludes A F) : (p >>= f).Concludes A F := by
  refine Given.bind hp ?_ ?_
  · rintro a -
    exact hf a
  · rintro x ⟨_, ⟨⟩⟩

theorem Prog.Concludes.ite {c : Prop} [Decidable c] {p q : Prog E R X α} (hp : p.Concludes A F)
    (hq : q.Concludes A F) : (if c then p else q).Concludes A F := Given.ite hp hq

end Given

section GivenRuns

variable {ι W G : Type} [DecidableEq ι] {S : System ι E R X α W G} {A : ι → (e : E) → R e → Prop}
  {F : ι → E → Prop} {Q : ι → Except X α → Prop} {I J : W → Prop} {P P' : Pool ι E R X α W G}

/-- `J` is known of all worlds of the run.  If it yields the answers, and with them the effects keep `I`, then
`I` holds at the end and each thread ends as its program does with these answers. -/
theorem Reachable.given (hJ : ∀ P₁, Reachable S P P₁ → Reachable S P₁ P' → J P₁.world)
    (hs : ∀ i {e w r w'}, F i e → J w → I w → S.sem e w r w' → A i e r ∧ I w') (hI : I P.world)
    (hp : ∀ i, (P.thread i).prog.Given (A i) (F i) (Q i))
    (hb : ∀ i body, S.again i = some body → body.Given (A i) (F i) (Q i)) (hr : Reachable S P P') :
    I P'.world ∧ ∀ i, (P'.thread i).prog.Given (A i) (F i) (Q i) := by
  have hupdate : ∀ {P₁ : Pool ι E R X α W G} {i : ι} {p : Prog E R X α} {g : G}, p.Given (A i) (F i) (Q i) →
      (∀ j, (P₁.thread j).prog.Given (A j) (F j) (Q j)) →
      ∀ j, (Function.update P₁.thread i ⟨p, g⟩ j).prog.Given (A j) (F j) (Q j) := by
    intro P₁ i p g hp hall j
    by_cases hj : j = i
    · subst hj
      simpa using hp
    · simpa [hj] using hall j
  induction hr with
  | refl => exact ⟨hI, hp⟩
  | @tail P₁ P₂ hr hstep ih =>
    have ih := ih fun Q hQ hQ₁ => hJ Q hQ (hQ₁.tail hstep)
    have hbefore := hJ P₁ hr (.single hstep)
    cases hstep with
    | exec i hprog hsem =>
      have hcall := ih.2 i
      rw [hprog] at hcall
      obtain ⟨hanswer, hinv⟩ := hs i hcall.1 hbefore ih.1 hsem
      exact ⟨hinv, hupdate (hcall.2 _ hanswer) ih.2⟩
    | again i hprog hbody => exact ⟨ih.1, hupdate (hb i _ hbody) ih.2⟩

/-- The same for one thread: how its effects are answered in worlds of `J` says how it ends. -/
theorem Reachable.given_thread {A : (e : E) → R e → Prop} {Q : Except X α → Prop} {i : ι}
    (hJ : ∀ P₁, Reachable S P P₁ → Reachable S P₁ P' → J P₁.world)
    (hs : ∀ {e w r w'}, J w → S.sem e w r w' → A e r) (hp : (P.thread i).prog.Given A (fun _ => True) Q)
    (hb : ∀ body, S.again i = some body → body.Given A (fun _ => True) Q) (hr : Reachable S P P') :
    (P'.thread i).prog.Given A (fun _ => True) Q := by
  have htrivial : ∀ p : Prog E R X α, p.Given (fun _ _ => True) (fun _ => True) fun _ => True := by
    intro p
    induction p with
    | ret a => trivial
    | throw x => trivial
    | call e k ih => exact ⟨trivial, fun r _ => ih r⟩
  have hothers : ∀ (j : ι) (p : Prog E R X α), (j = i → p.Given A (fun _ => True) Q) →
      p.Given (fun e r => j = i → A e r) (fun _ => True) fun o => j = i → Q o := by
    intro j p hp
    by_cases hj : j = i
    · simpa [hj] using hp hj
    · simpa [hj] using htrivial p
  have hall := (Reachable.given (I := fun _ => True) hJ
    (fun j _ _ _ _ _ hw _ hsem => ⟨fun _ => hs hw hsem, trivial⟩) trivial
    (fun j => hothers j _ fun hj => hj ▸ hp)
    (fun j body hbody => hothers j body fun hj => hb body (hj ▸ hbody)) hr).2 i
  simpa using hall

end GivenRuns

/-- A thread that has returned and does not start again stays as it is. -/
theorem Reachable.ended {ι W G : Type} [DecidableEq ι] {S : System ι E R X α W G} {P P' : Pool ι E R X α W G}
    (h : Reachable S P P') {i : ι} {a : α} (hp : (P.thread i).prog = .ret a) (hagain : S.again i = none) :
    P'.thread i = P.thread i := by
  induction h with
  | refl => rfl
  | tail hr hstep ih =>
    cases hstep with
    | exec j hprog hsem =>
      have hj : i ≠ j := by
        rintro rfl
        rw [ih, hp] at hprog
        cases hprog
      simpa [hj] using ih
    | again j hprog hbody =>
      have hj : i ≠ j := by
        rintro rfl
        rw [hagain] at hbody
        cases hbody
      simpa [hj] using ih

/-! ### Pools of obedient threads -/

section Pools

variable {ι W G : Type} [DecidableEq ι] {S : System ι E R X α W G}

/-- The protocol of a system: the notes are its states. -/
def System.protocol (S : System ι E R X α W G) (allows : G → E → Prop) : Protocol E R G := ⟨allows, S.observe⟩

/-- All threads obey the protocol, also when they start again. -/
structure Obedient (S : System ι E R X α W G) (allows : ι → G → E → Prop) (Q : ι → α → G → Prop)
    (P : Pool ι E R X α W G) :
    Prop where
  threads : ∀ i, (P.thread i).prog.Obeys (S.protocol (allows i)) (Q i) (P.thread i).note
  restart : ∀ i body, S.again i = some body → body.Obeys (S.protocol (allows i)) (Q i) S.fresh

/-- What the protocol allows keeps the invariant and the guarantee `K`, and so does starting again. -/
structure Preserved (S : System ι E R X α W G) (allows : ι → G → E → Prop) (Q : ι → α → G → Prop)
    (Inv : W → (ι → G) → Prop) (K : W → W → Prop) : Prop where
  step : ∀ {w n w'} (i : ι) (e : E) {r : R e}, allows i (n i) e → Inv w n → S.sem e w r w' →
    Inv w' (Function.update n i (S.observe (n i) ⟨e, r⟩)) ∧ K w w'
  rest : ∀ {w n a} (i : ι), (S.again i).isSome → Inv w n → Q i a (n i) → Inv w (Function.update n i S.fresh)
  refl : ∀ w, K w w
  trans : ∀ {w w' w''}, K w w' → K w' w'' → K w w''

variable {allows : ι → G → E → Prop} {Q : ι → α → G → Prop} {Inv : W → (ι → G) → Prop}
  {K : W → W → Prop} {P P' : Pool ι E R X α W G}

private theorem obeys_update (h : Obedient S allows Q P) {i : ι} {p : Prog E R X α} {g : G} {w : W}
    (hp : p.Obeys (S.protocol (allows i)) (Q i) g) :
    Obedient S allows Q ⟨w, Function.update P.thread i ⟨p, g⟩⟩ := by
  refine ⟨fun j => ?_, h.restart⟩
  by_cases hj : j = i
  · subst hj
    simpa using hp
  · simpa [hj] using h.threads j

theorem Obedient.step (hK : Preserved S allows Q Inv K) (h : Obedient S allows Q P) (hI : Inv P.world P.notes)
    (hs : Step S P P') : Obedient S allows Q P' ∧ Inv P'.world P'.notes ∧ K P.world P'.world := by
  cases hs with
  | @exec e k r w i hp hsem =>
    have hcall := h.threads i
    rw [hp] at hcall
    obtain ⟨hinv, hk⟩ := hK.step (n := P.notes) i e hcall.1 hI hsem
    exact ⟨obeys_update h (hcall.2 r), by rw [notes_update]; exact hinv, hk⟩
  | @again a body i hp hb =>
    have hret := h.threads i
    rw [hp] at hret
    have hinv := hK.rest (a := a) i (by rw [hb]; rfl) hI hret
    exact ⟨obeys_update h (h.restart i body hb), by rw [notes_update]; exact hinv, hK.refl _⟩

/-- The invariant rule: obedient threads keep the invariant in every interleaving. -/
theorem Obedient.reachable (hK : Preserved S allows Q Inv K) (h : Obedient S allows Q P) (hI : Inv P.world P.notes)
    (hr : Reachable S P P') : Obedient S allows Q P' ∧ Inv P'.world P'.notes := by
  induction hr with
  | refl => exact ⟨h, hI⟩
  | tail _ hs ih =>
    obtain ⟨hobey, hinv, -⟩ := ih.1.step hK ih.2 hs
    exact ⟨hobey, hinv⟩

/-- The guarantee of the steps is one of whole runs. -/
theorem Obedient.guarantee (hK : Preserved S allows Q Inv K) (h : Obedient S allows Q P) (hI : Inv P.world P.notes)
    (hr : Reachable S P P') : K P.world P'.world := by
  induction hr with
  | refl => exact hK.refl _
  | tail hr hs ih =>
    obtain ⟨hobey, hinv⟩ := h.reachable hK hI hr
    exact hK.trans ih (hobey.step hK hinv hs).2.2

/-- Each event of an execution was one that the protocol allowed, in a world and with notes of the invariant. -/
theorem Obedient.moments (hK : Preserved S allows Q Inv K) (h : Obedient S allows Q P) (hI : Inv P.world P.notes)
    {τ : List (Moment ι E R W)} (hτ : Execution S P τ P') :
    ∀ m ∈ τ, ∃ n w', Inv m.world n ∧ allows m.thread (n m.thread) m.event.1 ∧
    S.sem m.event.1 m.world m.event.2 w' := by
  induction hτ with
  | start => exact fun m hm => by cases hm
  | @exec τ P' e k r w hτ i hp hs ih =>
    intro m hm
    rcases List.mem_append.1 hm with hm | hm
    · exact ih m hm
    · obtain rfl := List.mem_singleton.1 hm
      obtain ⟨hobey, hinv⟩ := h.reachable hK hI hτ.reachable
      have hcall := hobey.threads i
      rw [hp] at hcall
      exact ⟨P'.notes, w, hinv, hcall.1, hs⟩
  | again _ i hp hb ih => exact ih

end Pools

end Effects
