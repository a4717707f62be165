import Mathlib

/-!
# Histories of timed operations

A history lists the operations made on an object, the newest first, each with the clock reading at its call.  The
state of the object is a function of its history (`after`).  The file has the vocabulary in which specifications
speak of the past: the latest operation of a kind (`latest`) and the number of operations of a kind since a
boundary (`countSince`), with the rules for one more operation.
-/

namespace History

variable {Op σ : Type}

/-- An operation and the clock reading at its call. -/
structure Timed (Op : Type) where
  op : Op
  time : Int

/-- The clock never went back. -/
def Timely (h : List (Timed Op)) : Prop := h.Pairwise fun later earlier => earlier.time ≤ later.time

theorem Timely.le {e f : Timed Op} {h : List (Timed Op)} (ht : Timely (e :: h)) (hf : f ∈ h) : f.time ≤ e.time :=
  List.rel_of_pairwise_cons ht hf

theorem Timely.tail {e : Timed Op} {h : List (Timed Op)} (ht : Timely (e :: h)) : Timely h :=
  List.Pairwise.of_cons ht

/-- The state that a history leads to. -/
def after (step : σ → Timed Op → σ) (start : σ) : List (Timed Op) → σ
  | [] => start
  | e :: h => step (after step start h) e

@[simp] theorem after_nil (step : σ → Timed Op → σ) (start : σ) : after step start [] = start := rfl

@[simp] theorem after_cons (step : σ → Timed Op → σ) (start : σ) (e : Timed Op) (h : List (Timed Op)) :
    after step start (e :: h) = step (after step start h) e := rfl

/-- The latest operation of a kind. -/
def latest (kind : Op → Bool) (h : List (Timed Op)) : Option (Timed Op) := h.find? fun e => kind e.op

theorem latest_mem {kind : Op → Bool} {h : List (Timed Op)} {f : Timed Op} (hf : latest kind h = some f) : f ∈ h :=
  List.mem_of_find?_eq_some hf

theorem latest_cons_of {kind : Op → Bool} {e : Timed Op} (h : List (Timed Op)) (he : kind e.op = true) :
    latest kind (e :: h) = some e := by
  simp [latest, he]

theorem latest_cons_of_not {kind : Op → Bool} {e : Timed Op} (h : List (Timed Op)) (he : kind e.op = false) :
    latest kind (e :: h) = latest kind h := by
  simp [latest, he]

/-- The number of counted operations since the latest boundary; what an operation is may depend on what came
before it. -/
def countSince (counted boundary : Timed Op → List (Timed Op) → Bool) : List (Timed Op) → Nat
  | [] => 0
  | e :: h =>
    if boundary e h then 0
    else if counted e h then countSince counted boundary h + 1
    else countSince counted boundary h

section CountSince

variable {counted boundary : Timed Op → List (Timed Op) → Bool} {e : Timed Op} {h : List (Timed Op)}

theorem countSince_boundary (hb : boundary e h = true) : countSince counted boundary (e :: h) = 0 := by
  simp [countSince, hb]

theorem countSince_count (hb : boundary e h = false) (hc : counted e h = true) :
    countSince counted boundary (e :: h) = countSince counted boundary h + 1 := by
  simp [countSince, hb, hc]

theorem countSince_skip (hb : boundary e h = false) (hc : counted e h = false) :
    countSince counted boundary (e :: h) = countSince counted boundary h := by
  simp [countSince, hb, hc]

end CountSince

end History
