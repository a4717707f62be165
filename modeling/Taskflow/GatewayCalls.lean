import Taskflow.HttpResponses
import Taskflow.Services

/-!
# What a connection to the gateway does

It makes the one call that its request asks for, or none (`connection_cases`), and it never ends with an exception.
What is known of the scheduler's answers says what is written (`given_connection`).
-/

namespace Taskflow

open Text Effects Prog

/-- A connection makes the one call that its request asks for, or none. -/
theorem connection_cases (buffered later : Bytes) :
    (∃ request e, handleConnection buffered later = .ok request ∧ Asks request e ∧
      Taskflow.connection buffered later = (do
        let result ← (e.serve >>= fun answer => ret (responseText (e.response answer))).attempt
        return result.toOption)) ∨
    (∀ request e, handleConnection buffered later = .ok request → ¬ Asks request e) ∧
      ∃ text, Taskflow.connection buffered later = ret text := by
  unfold Taskflow.connection
  cases hrequest : handleConnection buffered later with
  | error x =>
    rw [serveConnection_error hrequest]
    exact Or.inr ⟨fun _ _ h => (by cases h), none, rfl⟩
  | ok request =>
    by_cases hasks : ∃ e, Asks request e
    · obtain ⟨e, hasks⟩ := hasks
      rw [serveConnection_asks hrequest hasks]
      exact Or.inl ⟨request, e, rfl, hasks, rfl⟩
    · have hnone : ∀ e, ¬ Asks request e := fun e he => hasks ⟨e, he⟩
      refine Or.inr ⟨fun request' e h => Except.ok.inj h ▸ hnone e, ?_⟩
      rcases serveConnection_silent hrequest hnone with ⟨x, hx⟩ | ⟨response, -, hresponse⟩
      · exact ⟨none, by rw [hx]; rfl⟩
      · exact ⟨some (responseText response), by rw [hresponse]; rfl⟩

/-- A connection that makes no call. -/
theorem code_connection {buffered later : Bytes} {text : Option Bytes}
    (h : Taskflow.connection buffered later = ret text) :
    (Service.connection buffered later).code = ret (.response text) := by
  rw [Service.code, h]
  rfl

section Answers

variable {α : Type} {A : (e : ServiceEffect) → e.Answer → Prop} {F : ServiceEffect → Prop}

/-- Whatever the handler does, the call ends without an exception, and a reply that arrives is one of the
handler. -/
theorem given_rpc {p : ServiceCode α} {Q : Except StdException α → Prop} (hF : F .transport) (hp : p.Given A F Q) :
    (rpc p).Given A F fun o => ∃ result, o = .ok result ∧ ∀ reply, result = .ok reply → Q (.ok reply) := by
  have hlost : ∀ {message : Bytes}, ∃ result, (Except.ok (.error message) : Except StdException (Except Bytes α)) =
      .ok result ∧ ∀ reply, result = .ok reply → Q (.ok reply) := ⟨_, rfl, fun _ h => by cases h⟩
  refine ⟨hF, fun lost _ => ?_⟩
  cases lost with
  | some message => exact hlost
  | none =>
    refine hp.attempt fun o ho => ?_
    cases o with
    | error x => exact hlost
    | ok reply =>
      refine ⟨hF, fun lost _ => ?_⟩
      cases lost with
      | some message => exact hlost
      | none =>
        refine ⟨_, rfl, ?_⟩
        rintro _ ⟨⟩
        exact ho

/-- A connection, where the call that it makes is answered with an answer in `C`. -/
theorem given_connection {C : (e : GatewayEffect) → e.Answer → Prop} (buffered later : Bytes)
    (hserve : ∀ request e, handleConnection buffered later = .ok request → Asks request e →
      e.serve.Given A F fun o => ∃ answer, o = .ok answer ∧ C e answer) :
    (Service.connection buffered later).code.Given A F fun o => ∃ text, o = .ok (.response text) ∧ ∀ request e,
      handleConnection buffered later = .ok request → Asks request e →
      ∃ answer, text = some (responseText (e.response answer)) ∧ C e answer := by
  rcases connection_cases buffered later with ⟨request, e, hrequest, hasks, hcode⟩ | ⟨hnone, text, hcode⟩
  · have htext : (e.serve >>= fun answer => ret (responseText (e.response answer))).Given A F
        fun o => ∃ answer, o = .ok (responseText (e.response answer)) ∧ C e answer := by
      refine (hserve request e hrequest hasks).bind ?_ ?_
      · rintro answer ⟨_, ⟨⟩, hanswer⟩
        exact ⟨answer, rfl, hanswer⟩
      · rintro x ⟨_, ⟨⟩, -⟩
    have hconnection : (Taskflow.connection buffered later).Given A F
        fun o => ∃ answer, o = .ok (some (responseText (e.response answer))) ∧ C e answer := by
      rw [hcode]
      refine htext.attempt ?_
      rintro _ ⟨answer, rfl, hanswer⟩
      exact ⟨answer, rfl, hanswer⟩
    refine hconnection.bind ?_ ?_
    · rintro text ⟨answer, htext, hanswer⟩
      refine ⟨text, rfl, fun request' e' hrequest' hasks' => ?_⟩
      obtain rfl := Except.ok.inj (hrequest.symm.trans hrequest')
      obtain rfl := hasks.unique hasks'
      exact ⟨answer, Except.ok.inj htext, hanswer⟩
    · rintro x ⟨_, ⟨⟩, -⟩
  · rw [code_connection hcode]
    exact ⟨text, rfl, fun request e hrequest hasks => absurd hasks (hnone request e hrequest)⟩

end Answers

end Taskflow
