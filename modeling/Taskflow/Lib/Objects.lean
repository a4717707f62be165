import Taskflow.Lib.Effects

/-!
# Objects and their abstract behaviour

The calls of an object are effects: an environment says what a call may answer and what state it leaves.
`Calls` is a sequence of calls with their answers.  A `Behaviour` is a deterministic abstract object, a function
of the call and its state.  Where one step of the object keeps a relation to the abstract state
(`Calls.simulates`), every sequence keeps it, and the answers are the abstract ones exactly if no step on the
way deviates.
-/

namespace Effects

variable {E : Type} {R : E → Type} {W A : Type}

/-- From `w`, the calls `τ` are made one after the other, each with its answer, and leave `w'`. -/
inductive Calls (S : Semantics E R W) : W → List (Event E R) → W → Prop
  | nil (w : W) : Calls S w [] w
  | cons {e : E} {r : R e} {τ : List (Event E R)} {w w' w'' : W} (h : S e w r w') (hτ : Calls S w' τ w'') :
      Calls S w (⟨e, r⟩ :: τ) w''

/-- Where each call can be answered, each sequence of calls can be made. -/
theorem exists_calls {S : Semantics E R W} (htotal : ∀ e w, ∃ r w', S e w r w') (es : List E) (w : W) :
    ∃ τ w', Calls S w τ w' ∧ τ.map (·.1) = es := by
  induction es generalizing w with
  | nil => exact ⟨[], w, .nil w, rfl⟩
  | cons e es ih =>
    obtain ⟨r, w', h⟩ := htotal e w
    obtain ⟨τ, w'', hτ, rfl⟩ := ih w'
    exact ⟨⟨e, r⟩ :: τ, w'', .cons h hτ, rfl⟩

/-- An abstract object: the answer to a call, and the state after it. -/
abbrev Behaviour (E : Type) (R : E → Type) (A : Type) := (e : E) → A → R e × A

namespace Behaviour

variable (B : Behaviour E R A)

/-- The calls with their answers. -/
def answers : A → List E → List (Event E R)
  | _, [] => []
  | a, e :: es => ⟨e, (B e a).1⟩ :: answers (B e a).2 es

/-- The state after the calls. -/
def after : A → List E → A
  | a, [] => a
  | a, e :: es => after (B e a).2 es

/-- Each call is made in a state that permits it. -/
def Always (P : E → A → Prop) : A → List E → Prop
  | _, [] => True
  | a, e :: es => P e a ∧ Always P (B e a).2 es

end Behaviour

/-- An object whose steps are those of an abstract one, up to a relation of their states, has its sequences. -/
theorem Calls.follows {S : Semantics E R W} {B : Behaviour E R A} {Rel : W → A → Prop}
    (hstep : ∀ {e w a r w'}, Rel w a → S e w r w' → Rel w' (B e a).2 ∧ r = (B e a).1) {w w' : W} {a : A}
    {τ : List (Event E R)} (hτ : Calls S w τ w') (h : Rel w a) :
    Rel w' (B.after a (τ.map (·.1))) ∧ τ = B.answers a (τ.map (·.1)) := by
  induction hτ generalizing a with
  | nil w => exact ⟨h, rfl⟩
  | @cons e r τ w w' w'' hs hτ ih =>
    obtain ⟨hrel, rfl⟩ := hstep h hs
    obtain ⟨hend, hrest⟩ := ih hrel
    exact ⟨hend, congrArg (List.cons _) hrest⟩

/-- A step lemma gives one for sequences: `Rel` relates the states before and after each call that satisfies
`P`, and the call answers as the abstract object does exactly if `Q` holds of it there. -/
theorem Calls.simulates {S : Semantics E R W} {B : Behaviour E R A} {Rel : W → A → Prop} {P : E → Prop}
    {Q : E → A → Prop} (hstep : ∀ {e w a r w'}, P e → Rel w a → S e w r w' →
      Rel w' (B e a).2 ∧ (r = (B e a).1 ↔ Q e a)) {w w' : W} {a : A} {τ : List (Event E R)} (hτ : Calls S w τ w')
    (h : Rel w a) (hP : ∀ e ∈ τ.map (·.1), P e) :
    Rel w' (B.after a (τ.map (·.1))) ∧ (τ = B.answers a (τ.map (·.1)) ↔ B.Always Q a (τ.map (·.1))) := by
  induction hτ generalizing a with
  | nil w => exact ⟨h, iff_of_true rfl trivial⟩
  | @cons e r τ w w' w'' hs hτ ih =>
    obtain ⟨hrel, hanswer⟩ := hstep (hP e (by simp)) h hs
    obtain ⟨hend, hrest⟩ := ih hrel fun e he => hP e (List.mem_cons_of_mem _ he)
    refine ⟨hend, ?_⟩
    show ⟨e, r⟩ :: τ = ⟨e, (B e a).1⟩ :: B.answers (B e a).2 (τ.map (·.1)) ↔
      Q e a ∧ B.Always Q (B e a).2 (τ.map (·.1))
    rw [List.cons.injEq, hrest, ← hanswer, Sigma.mk.injEq, heq_eq_eq, eq_self, true_and]

end Effects
