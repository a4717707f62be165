import Mathlib

/-!
# Programs over effects

A program is a tree of effects: at each node it asks its environment for one effect and goes on with the answer.
The tree says nothing about what the effects do, so one program has many readings: it can be run alone against a
world (`Run`), or be one of many threads whose effects interleave.  `Run` is a relation, since the environment
may answer an effect in several ways; it records the events, and `wp` is its weakest precondition, which follows
the tree and so unfolds with the program.
-/

namespace Effects

/-- A program that asks for effects of `E`, effect `e` being answered by a value of `R e`.  It ends with a value
of `α` or with an uncaught exception of `X`. -/
inductive Prog (E : Type) (R : E → Type) (X α : Type) where
  | ret (a : α) : Prog E R X α
  | throw (x : X) : Prog E R X α
  | call (e : E) (k : R e → Prog E R X α) : Prog E R X α

namespace Prog

variable {E : Type} {R : E → Type} {X α β γ : Type}

def bind : Prog E R X α → (α → Prog E R X β) → Prog E R X β
  | ret a, f => f a
  | throw x, _ => throw x
  | call e k, f => call e (fun r => (k r).bind f)

instance : Monad (Prog E R X) where
  pure := ret
  bind := bind

/-- Ask for one effect. -/
def perform (e : E) : Prog E R X (R e) := call e ret

/-- Go on with a computed value, or raise its exception. -/
def ofExcept : Except X α → Prog E R X α
  | .ok a => ret a
  | .error x => throw x

@[simp] theorem pure_eq (a : α) : (pure a : Prog E R X α) = ret a := rfl

@[simp] theorem ret_bind (a : α) (f : α → Prog E R X β) : (ret a >>= f) = f a := rfl

@[simp] theorem throw_bind (x : X) (f : α → Prog E R X β) : (throw x >>= f) = throw x := rfl

@[simp] theorem call_bind (e : E) (k : R e → Prog E R X α) (f : α → Prog E R X β) :
    (call e k >>= f) = call e (fun r => k r >>= f) := rfl

@[simp] theorem perform_bind (e : E) (f : R e → Prog E R X β) : (perform e >>= f) = call e f := rfl

@[simp] theorem ofExcept_ok (a : α) : (ofExcept (.ok a) : Prog E R X α) = ret a := rfl

@[simp] theorem ofExcept_error (x : X) : (ofExcept (.error x) : Prog E R X α) = throw x := rfl

theorem bind_assoc' (p : Prog E R X α) (f : α → Prog E R X β) (g : β → Prog E R X γ) :
    (p >>= f) >>= g = p >>= fun a => f a >>= g := by
  induction p with
  | ret a => rfl
  | throw x => rfl
  | call e k ih => exact congrArg (call e) (funext ih)

theorem bind_ret' (p : Prog E R X α) : p >>= ret = p := by
  induction p with
  | ret a => rfl
  | throw x => rfl
  | call e k ih => exact congrArg (call e) (funext ih)

instance : LawfulMonad (Prog E R X) :=
  LawfulMonad.mk' (Prog E R X) bind_ret' (fun _ _ => rfl) bind_assoc'

/-- All effects that the program may ask for, whatever it is answered, satisfy `P`. -/
def Every (P : E → Prop) : Prog E R X α → Prop
  | ret _ => True
  | throw _ => True
  | call e k => P e ∧ ∀ r, (k r).Every P

theorem Every.bind {P : E → Prop} {p : Prog E R X α} {f : α → Prog E R X β} (hp : p.Every P)
    (hf : ∀ a, (f a).Every P) : (p >>= f).Every P := by
  induction p with
  | ret a => exact hf a
  | throw x => trivial
  | call e k ih => exact ⟨hp.1, fun r => ih r (hp.2 r)⟩

theorem Every.mono {P Q : E → Prop} {p : Prog E R X α} (hp : p.Every P) (h : ∀ e, P e → Q e) : p.Every Q := by
  induction p with
  | ret a => trivial
  | throw x => trivial
  | call e k ih => exact ⟨h e hp.1, fun r => ih r (hp.2 r)⟩

theorem Every.ofExcept {P : E → Prop} (x : Except X α) : (ofExcept x : Prog E R X α).Every P := by
  cases x <;> trivial

theorem Every.ite {P : E → Prop} {c : Prop} [Decidable c] {p q : Prog E R X α} (hp : p.Every P) (hq : q.Every P) :
    (if c then p else q).Every P := by
  split
  · exact hp
  · exact hq

end Prog

/-- An effect together with the answer it got. -/
abbrev Event (E : Type) (R : E → Type) := Σ e, R e

/-- A protocol for the effects of a program: which effects a state of it allows, and the state after an event. -/
structure Protocol (E : Type) (R : E → Type) (σ : Type) where
  allows : σ → E → Prop
  next : σ → Event E R → σ

section Protocols

variable {E : Type} {R : E → Type} {X α β σ : Type} {N : Protocol E R σ} {s : σ}

/-- From state `s` on, the program asks only for effects that the protocol allows, and returns in states in `Q`. -/
def Prog.Follows (N : Protocol E R σ) (Q : σ → Prop) : σ → Prog E R X α → Prop
  | s, ret _ => Q s
  | _, throw _ => True
  | s, call e k => N.allows s e ∧ ∀ r, (k r).Follows N Q (N.next s ⟨e, r⟩)

variable {Q Q' : σ → Prop}

theorem Prog.Follows.bind {p : Prog E R X α} {f : α → Prog E R X β} (hp : p.Follows N Q s)
    (hf : ∀ a t, Q t → (f a).Follows N Q' t) : (p >>= f).Follows N Q' s := by
  induction p generalizing s with
  | ret a => exact hf a s hp
  | throw x => trivial
  | call e k ih => exact ⟨hp.1, fun r => ih r (hp.2 r)⟩

theorem Prog.Follows.ite {c : Prop} [Decidable c] {p q : Prog E R X α} (hp : p.Follows N Q s)
    (hq : q.Follows N Q s) :
    (if c then p else q).Follows N Q s := by
  split
  · exact hp
  · exact hq

/-- The state of a protocol after some events. -/
def Protocol.after (N : Protocol E R σ) (s : σ) (τ : List (Event E R)) : σ := τ.foldl N.next s

/-- The effects that a protocol allows in state `s` and that leave it there. -/
def Protocol.Stays (N : Protocol E R σ) (s : σ) (e : E) : Prop := N.allows s e ∧ ∀ r, N.next s ⟨e, r⟩ = s

theorem Prog.Follows.of_every {p : Prog E R X α} (hp : p.Every (N.Stays s)) : p.Follows N (· = s) s := by
  induction p with
  | ret a => rfl
  | throw x => trivial
  | call e k ih =>
    refine ⟨hp.1.1, fun r => ?_⟩
    rw [hp.1.2 r]
    exact ih r (hp.2 r)

/-- A first part that stays in its state. -/
theorem Prog.Follows.after {p : Prog E R X α} {f : α → Prog E R X β} (hp : p.Every (N.Stays s))
    (hf : ∀ a, (f a).Follows N Q s) : (p >>= f).Follows N Q s := by
  refine (Follows.of_every hp).bind ?_
  rintro a t rfl
  exact hf a

end Protocols

/-- What the environment may do: in world `w` it may answer effect `e` with `r` and move to `w'`. -/
abbrev Semantics (E : Type) (R : E → Type) (W : Type) := (e : E) → W → R e → W → Prop

/-- `Run S p w τ o w'`: from world `w` the program `p` has the events `τ`, ends with `o` and leaves `w'`. -/
inductive Run {E : Type} {R : E → Type} {X α W : Type} (S : Semantics E R W) :
    Prog E R X α → W → List (Event E R) → Except X α → W → Prop
  | ret (a : α) (w : W) : Run S (.ret a) w [] (.ok a) w
  | throw (x : X) (w : W) : Run S (.throw x) w [] (.error x) w
  | call {e : E} {k : R e → Prog E R X α} {w w' w'' : W} {r : R e} {τ : List (Event E R)} {o : Except X α}
      (h : S e w r w') (hk : Run S (k r) w' τ o w'') : Run S (.call e k) w (⟨e, r⟩ :: τ) o w''

section Handler

variable {E : Type} {R : E → Type} {X α W : Type}

/-- Runs a program with an environment that answers in one way only; `none` when it does not answer. -/
def Prog.play (f : (e : E) → W → Option (R e × W)) :
    Prog E R X α → W → Option (List (Event E R) × Except X α × W)
  | .ret a, w => some ([], .ok a, w)
  | .throw x, w => some ([], .error x, w)
  | .call e k, w =>
    match f e w with
    | none => none
    | some (r, w') => ((k r).play f w').map fun run => (⟨e, r⟩ :: run.1, run.2)

/-- What a handler does is a run, if each of its answers is one that the environment may give. -/
theorem Run.of_play {S : Semantics E R W} {f : (e : E) → W → Option (R e × W)}
    (hf : ∀ e w r w', f e w = some (r, w') → S e w r w') {p : Prog E R X α} {w w' : W} {τ : List (Event E R)}
    {o : Except X α} (h : p.play f w = some (τ, o, w')) : Run S p w τ o w' := by
  induction p generalizing w τ with
  | ret a =>
    cases h
    exact .ret a _
  | throw x =>
    cases h
    exact .throw x _
  | call e k ih =>
    rw [Prog.play] at h
    cases he : f e w with
    | none =>
      rw [he] at h
      cases h
    | some answer =>
      obtain ⟨r, v⟩ := answer
      rw [he] at h
      obtain ⟨⟨τ', rest⟩, hrest, heq⟩ := Option.map_eq_some_iff.1 h
      cases heq
      exact .call (hf e w r v he) (ih r hrest)

/-- The outcome of a played program that returned a value. -/
theorem eq_ok_of_toOption {o : Except X α} {a : α} (h : o.toOption = some a) : o = .ok a := by
  cases o with
  | ok b => exact congrArg Except.ok (Option.some.inj h)
  | error x => cases h

end Handler

section WeakestPrecondition

variable {E : Type} {R : E → Type} {X α β W : Type} {S : Semantics E R W}

/-- Every run of `p` from `w` ends in `Q`. -/
def wp (S : Semantics E R W) :
    Prog E R X α → (List (Event E R) → Except X α → W → Prop) → W → Prop
  | .ret a, Q, w => Q [] (.ok a) w
  | .throw x, Q, w => Q [] (.error x) w
  | .call e k, Q, w => ∀ r w', S e w r w' → wp S (k r) (fun τ => Q (⟨e, r⟩ :: τ)) w'

@[simp] theorem wp_ret {a : α} {Q : List (Event E R) → Except X α → W → Prop} {w : W} :
    wp S (.ret a) Q w ↔ Q [] (.ok a) w := Iff.rfl

@[simp] theorem wp_throw {x : X} {Q : List (Event E R) → Except X α → W → Prop} {w : W} :
    wp S (.throw x) Q w ↔ Q [] (.error x) w := Iff.rfl

@[simp] theorem wp_call {e : E} {k : R e → Prog E R X α} {Q : List (Event E R) → Except X α → W →
  Prop} {w : W} :
    wp S (.call e k) Q w ↔ ∀ r w', S e w r w' → wp S (k r) (fun τ => Q (⟨e, r⟩ :: τ)) w' := Iff.rfl

theorem wp.mono {p : Prog E R X α} {Q Q' : List (Event E R) → Except X α → W → Prop} {w : W}
    (h : wp S p Q w) (hQ : ∀ τ o w', Q τ o w' → Q' τ o w') : wp S p Q' w := by
  induction p generalizing Q Q' w with
  | ret a => exact hQ _ _ _ h
  | throw x => exact hQ _ _ _ h
  | call e k ih => exact fun r w' hs => ih r (h r w' hs) (fun τ o w'' => hQ _ o w'')

theorem wp.and {p : Prog E R X α} {Q Q' : List (Event E R) → Except X α → W → Prop} {w : W} (h : wp S p Q w)
    (h' : wp S p Q' w) : wp S p (fun τ o w' => Q τ o w' ∧ Q' τ o w') w := by
  induction p generalizing Q Q' w with
  | ret a => exact ⟨h, h'⟩
  | throw x => exact ⟨h, h'⟩
  | call e k ih => exact fun r w' hs => ih r (h r w' hs) (h' r w' hs)

/-- The rule of composition: the second program starts where the first one ended, unless that one threw. -/
theorem wp.bind {p : Prog E R X α} {f : α → Prog E R X β} {Q : List (Event E R) → Except X α → W → Prop}
    {Q' : List (Event E R) → Except X β → W → Prop} {w : W} (h : wp S p Q w)
    (hok : ∀ τ a w', Q τ (.ok a) w' → wp S (f a) (fun τ' => Q' (τ ++ τ')) w')
    (herr : ∀ τ x w', Q τ (.error x) w' → Q' τ (.error x) w') : wp S (p >>= f) Q' w := by
  induction p generalizing Q Q' w with
  | ret a => simpa using hok _ _ _ h
  | throw x => exact herr _ _ _ h
  | call e k ih =>
    intro r w' hs
    exact ih r (h r w' hs) (fun τ a w'' hq => hok _ a w'' hq) (fun τ x w'' hq => herr _ x w'' hq)

/-- The rule of composition for a program whose effects satisfy `P`: those of its second part do. -/
theorem wp.bind_every {P : E → Prop} {p : Prog E R X α} {f : α → Prog E R X β}
    {Q : List (Event E R) → Except X α → W → Prop} {Q' : List (Event E R) → Except X β → W → Prop} {w : W}
    (h : wp S p Q w) (hp : (p >>= f).Every P)
    (hok : ∀ τ a w', Q τ (.ok a) w' → (f a).Every P → wp S (f a) (fun τ' => Q' (τ ++ τ')) w')
    (herr : ∀ τ x w', Q τ (.error x) w' → Q' τ (.error x) w') : wp S (p >>= f) Q' w := by
  induction p generalizing Q Q' w with
  | ret a => simpa using hok _ _ _ h hp
  | throw x => exact herr _ _ _ h
  | call e k ih =>
    intro r w' hs
    exact ih r (h r w' hs) (hp.2 r) (fun τ a w'' hq => hok _ a w'' hq) (fun τ x w'' hq => herr _ x w'' hq)

/-- What holds of each event of a program and can be composed holds of its runs. -/
theorem wp.collect {P : E → Prop} {K : W → List (Event E R) → W → Prop} (hnil : ∀ w, K w [] w)
    (hcons : ∀ {e w r w' τ w''}, P e → S e w r w' → K w' τ w'' → K w (⟨e, r⟩ :: τ) w'')
    {p : Prog E R X α} (hp : p.Every P) (w : W) : wp S p (fun τ _ w' => K w τ w') w := by
  induction p generalizing w with
  | ret a => exact hnil w
  | throw x => exact hnil w
  | call e k ih =>
    intro r w' hs
    refine (ih r (hp.2 r) w').mono ?_
    intro τ o w'' hrest
    exact hcons hp.1 hs hrest

/-- What each effect of a program keeps, the program keeps. -/
theorem wp.every {P : E → Prop} {K : W → W → Prop} (hrefl : ∀ w, K w w)
    (htrans : ∀ {w w' w''}, K w w' → K w' w'' → K w w'') (hstep : ∀ {e w r w'}, P e → S e w r w' → K w w')
    {p : Prog E R X α} (hp : p.Every P) (w : W) : wp S p (fun _ _ w' => K w w') w :=
  wp.collect (K := fun w _ w' => K w w') hrefl (fun he hs hrest => htrans (hstep he hs) hrest) hp w

/-- The events of a run are effects that the program may ask for. -/
theorem wp.events {P : E → Prop} {p : Prog E R X α} (hp : p.Every P) (w : W) :
    wp S p (fun τ _ _ => ∀ event ∈ τ, P event.1) w := by
  refine wp.collect (K := fun _ τ _ => ∀ event ∈ τ, P event.1) (fun _ _ h => nomatch h) ?_ hp w
  intro e w r w' τ w'' he _ hrest event hevent
  rcases List.mem_cons.1 hevent with rfl | hevent
  · exact he
  · exact hrest event hevent

/-- Where each effect that a protocol allows keeps an invariant that knows the state of the protocol, the events of
a program that follows the protocol are as the invariant permits. -/
theorem wp.follows {σ : Type} {N : Protocol E R σ} {I : σ → W → Prop} {A : Event E R → Prop}
    (hstep : ∀ {s e w r w'}, N.allows s e → I s w → S e w r w' → I (N.next s ⟨e, r⟩) w' ∧ A ⟨e, r⟩)
    {Q : σ → Prop} {p : Prog E R X α} {s : σ} {w : W} (hp : p.Follows N Q s) (h : I s w) :
    wp S p (fun τ _ _ => ∀ event ∈ τ, A event) w := by
  induction p generalizing s w with
  | ret a => exact fun _ h => nomatch h
  | throw x => exact fun _ h => nomatch h
  | call e k ih =>
    intro r w' hs
    obtain ⟨hnext, hevent⟩ := hstep hp.1 h hs
    refine (ih r (hp.2 r) hnext).mono ?_
    intro τ o w'' hrest event hmem
    rcases List.mem_cons.1 hmem with rfl | hmem
    · exact hevent
    · exact hrest event hmem

/-- Such an invariant holds at the end of a run, for the state that the events led to. -/
theorem wp.tracks {σ : Type} {N : Protocol E R σ} {I : σ → W → Prop}
    (hstep : ∀ {s e w r w'}, N.allows s e → I s w → S e w r w' → I (N.next s ⟨e, r⟩) w') {Q : σ → Prop}
    {p : Prog E R X α} {s : σ} {w : W} (hp : p.Follows N Q s) (h : I s w) :
    wp S p (fun τ _ w' => I (N.after s τ) w') w := by
  induction p generalizing s w with
  | ret a => exact h
  | throw x => exact h
  | call e k ih =>
    intro r w' hs
    exact ih r (hp.2 r) (hstep hp.1 h hs)

theorem wp.run {p : Prog E R X α} {Q : List (Event E R) → Except X α → W → Prop} {w w' : W}
    {τ : List (Event E R)} {o : Except X α} (h : wp S p Q w) (hr : Run S p w τ o w') : Q τ o w' := by
  induction hr generalizing Q with
  | ret a w => exact h
  | throw x w => exact h
  | call hs _ ih => exact ih (h _ _ hs)

/-- A run whose events are such that another environment does the same. -/
theorem Run.restrict {S' : Semantics E R W} {A : Event E R → Prop} {p : Prog E R X α} {w w' : W}
    {τ : List (Event E R)} {o : Except X α} (h : Run S p w τ o w') (hτ : ∀ event ∈ τ, A event)
    (hS : ∀ {e w r w'}, S e w r w' → A ⟨e, r⟩ → S' e w r w') : Run S' p w τ o w' := by
  induction h with
  | ret a w => exact .ret a w
  | throw x w => exact .throw x w
  | call hs _ ih =>
    exact .call (hS hs (hτ _ List.mem_cons_self)) (ih fun event hevent => hτ event (List.mem_cons_of_mem _ hevent))

/-- Where the environment always has an answer, a program has a run from every world. -/
theorem exists_run (htotal : ∀ e w, ∃ r w', S e w r w') (p : Prog E R X α) (w : W) : ∃ τ o w',
    Run S p w τ o w' := by
  induction p generalizing w with
  | ret a => exact ⟨[], .ok a, w, .ret a w⟩
  | throw x => exact ⟨[], .error x, w, .throw x w⟩
  | call e k ih =>
    obtain ⟨r, w', hs⟩ := htotal e w
    obtain ⟨τ, o, w'', hr⟩ := ih r w'
    exact ⟨⟨e, r⟩ :: τ, o, w'', .call hs hr⟩

/-- Every run of `p` from `w` ends in `Q`, which does not look at the events. -/
def Post (S : Semantics E R W) (p : Prog E R X α) (Q : Except X α → W → Prop) (w : W) : Prop :=
  wp S p (fun _ => Q) w

section Post

variable {p : Prog E R X α} {f : α → Prog E R X β} {Q Q' : Except X α → W → Prop}
  {Q'' : Except X β → W → Prop} {w w' : W}

theorem Post.mono (h : Post S p Q w) (hQ : ∀ o w', Q o w' → Q' o w') : Post S p Q' w := wp.mono h fun _ => hQ

theorem Post.bind (h : Post S p Q w) (hok : ∀ a w', Q (.ok a) w' → Post S (f a) Q'' w')
    (herr : ∀ x w', Q (.error x) w' → Q'' (.error x) w') : Post S (p >>= f) Q'' w :=
  wp.bind h (fun _ => hok) (fun _ => herr)

theorem Post.run {τ : List (Event E R)} {o : Except X α} (h : Post S p Q w) (hr : Run S p w τ o w') : Q o w' :=
  wp.run h hr

/-- The same for `Post`. -/
theorem Post.bind_every {P : E → Prop} (h : Post S p Q w) (hp : (p >>= f).Every P)
    (hok : ∀ a w', Q (.ok a) w' → (f a).Every P → Post S (f a) Q'' w')
    (herr : ∀ x w', Q (.error x) w' → Q'' (.error x) w') : Post S (p >>= f) Q'' w :=
  wp.bind_every h hp (fun _ => hok) (fun _ => herr)

/-- What holds for an environment holds for one that may do less. -/
theorem Post.sem_mono {S' : Semantics E R W} (hS : ∀ e w r w', S' e w r w' → S e w r w') (h : Post S p Q w) :
    Post S' p Q w := by
  induction p generalizing w with
  | ret a => exact h
  | throw x => exact h
  | call e k ih =>
    intro r w' hs
    exact ih r (h r w' (hS e w r w' hs))

theorem Post.ofExcept {x : Except X α} (h : Q x w) : Post S (Prog.ofExcept x) Q w := by
  cases x with
  | ok a => exact h
  | error x => exact h

end Post

end WeakestPrecondition

section Accounts

variable {E : Type} {R : E → Type} {X α β W L : Type}

/-- An environment that gives an account of what it does: with each answer it writes entries into a log, which the
program does not see. -/
abbrev Account (E : Type) (R : E → Type) (W L : Type) := (e : E) → W → R e → W → List L → Prop

namespace Account

/-- The log is a part of the world. -/
def logged (A : Account E R W L) : Semantics E R (W × List L) :=
  fun e s r s' => ∃ entries, A e s.1 r s'.1 entries ∧ s'.2 = s.2 ++ entries

/-- Every run of the program from `w` ends in `Q`, which knows what the run has written into the log. -/
def wp (A : Account E R W L) :
    Prog E R X α → (List (Event E R) → List L → Except X α → W → Prop) → W → Prop
  | .ret a, Q, w => Q [] [] (.ok a) w
  | .throw x, Q, w => Q [] [] (.error x) w
  | .call e k, Q, w =>
    ∀ r w' entries, A e w r w' entries → A.wp (k r) (fun τ l => Q (⟨e, r⟩ :: τ) (entries ++ l)) w'

variable {A : Account E R W L}

@[simp] theorem wp_ret {a : α} {Q : List (Event E R) → List L → Except X α → W → Prop} {w : W} :
    A.wp (.ret a) Q w ↔ Q [] [] (.ok a) w := Iff.rfl

@[simp] theorem wp_call {e : E} {k : R e → Prog E R X α} {Q : List (Event E R) → List L →
  Except X α → W → Prop}
    {w : W} : A.wp (.call e k) Q w ↔
      ∀ r w' entries, A e w r w' entries → A.wp (k r)
        (fun τ l => Q (⟨e, r⟩ :: τ) (entries ++ l)) w' := Iff.rfl

theorem wp.mono {p : Prog E R X α} {Q Q' : List (Event E R) → List L → Except X α → W → Prop} {w : W}
    (h : A.wp p Q w) (hQ : ∀ τ l o w', Q τ l o w' → Q' τ l o w') : A.wp p Q' w := by
  induction p generalizing Q Q' w with
  | ret a => exact hQ _ _ _ _ h
  | throw x => exact hQ _ _ _ _ h
  | call e k ih => exact fun r w' entries hs => ih r (h r w' entries hs) (fun τ l o w'' => hQ _ _ o w'')

theorem wp.and {p : Prog E R X α} {Q Q' : List (Event E R) → List L → Except X α → W → Prop} {w : W}
    (h : A.wp p Q w) (h' : A.wp p Q' w) : A.wp p (fun τ l o w' => Q τ l o w' ∧ Q' τ l o w') w := by
  induction p generalizing Q Q' w with
  | ret a => exact ⟨h, h'⟩
  | throw x => exact ⟨h, h'⟩
  | call e k ih => exact fun r w' entries hs => ih r (h r w' entries hs) (h' r w' entries hs)

/-- The rule of composition: the logs of the two parts follow each other. -/
theorem wp.bind {p : Prog E R X α} {f : α → Prog E R X β} {Q : List (Event E R) → List L →
    Except X α → W → Prop}
    {Q' : List (Event E R) → List L → Except X β → W → Prop} {w : W} (h : A.wp p Q w)
    (hok : ∀ τ l a w', Q τ l (.ok a) w' → A.wp (f a) (fun τ' l' => Q' (τ ++ τ') (l ++ l')) w')
    (herr : ∀ τ l x w', Q τ l (.error x) w' → Q' τ l (.error x) w') : A.wp (p >>= f) Q' w := by
  induction p generalizing Q Q' w with
  | ret a => simpa using hok _ _ _ _ h
  | throw x => exact herr _ _ _ _ h
  | call e k ih =>
    intro r w' entries hs
    refine ih r (h r w' entries hs) (fun τ l a w'' hq => ?_) (fun τ l x w'' hq => herr _ _ x w'' hq)
    simpa using hok _ _ a w'' hq

/-- What holds of each event of a program and can be composed holds of its runs. -/
theorem wp.collect {P : E → Prop} {K : W → List (Event E R) → List L → W → Prop} (hnil : ∀ w, K w [] [] w)
    (hcons : ∀ {e w r w' entries τ l w''}, P e → A e w r w' entries → K w' τ l w'' →
      K w (⟨e, r⟩ :: τ) (entries ++ l) w'')
    {p : Prog E R X α} (hp : p.Every P) (w : W) : A.wp p (fun τ l _ w' => K w τ l w') w := by
  induction p generalizing w with
  | ret a => exact hnil w
  | throw x => exact hnil w
  | call e k ih =>
    intro r w' entries hs
    refine (ih r (hp.2 r) w').mono ?_
    intro τ l o w'' hrest
    exact hcons hp.1 hs hrest

/-- What holds of a run whatever the log says. -/
theorem wp.of_wp {S : Semantics E R W} (hS : ∀ {e w r w' entries}, A e w r w' entries → S e w r w')
    {p : Prog E R X α} {Q : List (Event E R) → Except X α → W → Prop} {w : W} (h : Effects.wp S p Q w) :
    A.wp p (fun τ _ => Q τ) w := by
  induction p generalizing Q w with
  | ret a => exact h
  | throw x => exact h
  | call e k ih => exact fun r w' entries hs => ih r (h r w' (hS hs))

theorem wp.run {p : Prog E R X α} {Q : List (Event E R) → List L → Except X α → W → Prop} {s s' : W × List L}
    {τ : List (Event E R)} {o : Except X α} (h : A.wp p Q s.1) (hr : Run A.logged p s τ o s') :
    ∃ l, s'.2 = s.2 ++ l ∧ Q τ l o s'.1 := by
  induction hr generalizing Q with
  | ret a s => exact ⟨[], (List.append_nil _).symm, h⟩
  | throw x s => exact ⟨[], (List.append_nil _).symm, h⟩
  | call hs _ ih =>
    obtain ⟨entries, hA, hlog⟩ := hs
    obtain ⟨l, hl, hQ⟩ := ih (h _ _ _ hA)
    exact ⟨entries ++ l, by rw [hl, hlog, List.append_assoc], hQ⟩

/-- A run that starts with an empty log. -/
theorem wp.run_nil {p : Prog E R X α} {Q : List (Event E R) → List L → Except X α → W → Prop} {w w' : W}
    {τ : List (Event E R)} {l : List L} {o : Except X α} (h : A.wp p Q w)
    (hr : Run A.logged p (w, []) τ o (w', l)) : Q τ l o w' := by
  obtain ⟨l', hl, hQ⟩ := h.run hr
  rw [show l = l' from hl]
  exact hQ

/-- A log can be kept of every run. -/
theorem exists_logged {S : Semantics E R W} (hS : ∀ {e w r w'}, S e w r w' → ∃ entries, A e w r w' entries)
    {p : Prog E R X α} {w w' : W} {τ : List (Event E R)} {o : Except X α} (h : Run S p w τ o w') (l : List L) :
    ∃ l', Run A.logged p (w, l) τ o (w', l') := by
  induction h generalizing l with
  | ret a w => exact ⟨l, .ret a (w, l)⟩
  | throw x w => exact ⟨l, .throw x (w, l)⟩
  | call hs _ ih =>
    obtain ⟨entries, hA⟩ := hS hs
    obtain ⟨l', hrest⟩ := ih (l ++ entries)
    exact ⟨l', .call ⟨entries, hA, rfl⟩ hrest⟩

theorem run_of_logged {S : Semantics E R W} (hS : ∀ {e w r w' entries}, A e w r w' entries → S e w r w')
    {p : Prog E R X α} {s s' : W × List L} {τ : List (Event E R)} {o : Except X α} (h : Run A.logged p s τ o s') :
    Run S p s.1 τ o s'.1 := by
  induction h with
  | ret a s => exact .ret a s.1
  | throw x s => exact .throw x s.1
  | call hs _ ih =>
    obtain ⟨entries, hA, -⟩ := hs
    exact .call (hS hA) ih

end Account

end Accounts

end Effects
