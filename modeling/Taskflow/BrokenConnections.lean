import Taskflow.RedisPool
import Taskflow.TaskQueries
import Taskflow.Scheduler

/-!
# Failed contexts in the pool

hiredis marks a context as failed at its first I/O error, and every later command on it returns `NULL`.  The
wrappers of `RedisClient` report such a command as failed and leave `connected_` alone, which is all that
`getConnection` looks at.  So a connection that is returned after an I/O error is handed out again, and stays in
the pool for good; and one whose link the server drops while it lies in the pool is handed out with a context
that fails at its next command.

`unbroken_iff`: a run hands out connections whose context has not failed, now and later, exactly when none was
returned with a failed one; and the operations that start once the server is reachable are all answered exactly
when no connection of the pool has lost its link unnoticed.
-/

namespace Taskflow

open Slots Text Effects Prog

namespace Pooling

/-! ### Commands on pooled connections -/

/-- The pool with its callers, and for each client whether the member `err` of its context is set and whether
its link to the server is cut. -/
structure Session (ι : Type) where
  lending : Lending ι
  err : Address → Bool
  cut : Address → Bool

/-- A call of the pool; a command on a connection, where `ioError` says whether its I/O fails although the link is
there; or the server drops the link of a connection, which is not noticed before the next command on it. -/
inductive Action (ι : Type) where
  | call (c : Call ι)
  | command (caller : ι) (conn : Address) (ioError : Bool)
  | drop (conn : Address)

def Call.caller {ι : Type} : Call ι → ι
  | .getConnection caller => caller
  | .returnConnection caller _ => caller

def Action.caller {ι : Type} : Action ι → Option ι
  | .call c => some c.caller
  | .command caller _ _ => some caller
  | .drop _ => none

section Runs

variable {ι : Type} [DecidableEq ι] (connects : Nat → Attempt)

/-- A call of the pool; a client whose context is replaced has one without an error, and a new link. -/
def Session.call (S : Session ι) (c : Call ι) : Session ι :=
  let lending := S.lending.call connects c
  let same client := lending.pool.heap.clients[client]? == S.lending.pool.heap.clients[client]?
  ⟨lending, fun client => S.err client && same client, fun client => S.cut client && same client⟩

/-- What a wrapper of `RedisClient` does with its one command: whether there is a reply, and the state after it. -/
def Session.command (S : Session ι) (conn : Address) (ioError : Bool) : Bool × Session ι :=
  if !S.lending.pool.heap.isConnected conn then (false, S)
  else if S.err conn || S.cut conn || ioError then (false, { S with err := Function.update S.err conn true })
  else (true, S)

def Session.act (S : Session ι) : Action ι → Session ι
  | .call c => S.call connects c
  | .command _ conn ioError => (S.command conn ioError).2
  | .drop conn => { S with cut := Function.update S.cut conn true }

/-- A caller uses only the connections that it holds. -/
def Session.Permits (S : Session ι) : Action ι → Prop
  | .call c => S.lending.Permits c
  | .command caller conn _ => (caller, conn) ∈ S.lending.held
  | .drop conn => conn ∈ S.lending.pool.pool

/-- `P` holds at every step of a run. -/
def Throughout (P : Session ι → Action ι → Prop) (S : Session ι) : List (Action ι) → Prop
  | [] => True
  | a :: rest => P S a ∧ Throughout P (S.act connects a) rest

def Session.run (S : Session ι) (actions : List (Action ι)) : Session ι := actions.foldl (Session.act connects) S

/-- The answer of `getConnection`, if it is not `nullptr`, is a connection whose context has not failed. -/
def Session.HandsOutWhole (S : Session ι) : Action ι → Prop
  | .call (.getConnection caller) => ∀ conn, (S.lending.pool.getConnection connects).1 = some conn →
      (S.call connects (.getConnection caller)).err conn = false
  | _ => True

/-- A connection is returned only as long as its context has not failed. -/
def Session.ReturnsWhole (S : Session ι) : Action ι → Prop
  | .call (.returnConnection _ conn) => S.err conn = false
  | _ => True

instance (S : Session ι) (a : Action ι) : Decidable (S.Permits a) :=
  match a with
  | .call (.getConnection _) => inferInstanceAs (Decidable True)
  | .call (.returnConnection caller conn) => inferInstanceAs (Decidable ((caller, conn) ∈ S.lending.held))
  | .command caller conn _ => inferInstanceAs (Decidable ((caller, conn) ∈ S.lending.held))
  | .drop conn => inferInstanceAs (Decidable (conn ∈ S.lending.pool.pool))

instance (S : Session ι) (a : Action ι) : Decidable (S.ReturnsWhole a) :=
  match a with
  | .call (.getConnection _) => inferInstanceAs (Decidable True)
  | .call (.returnConnection _ conn) => inferInstanceAs (Decidable (S.err conn = false))
  | .command _ _ _ => inferInstanceAs (Decidable True)
  | .drop _ => inferInstanceAs (Decidable True)

instance Throughout.decidable {P : Session ι → Action ι → Prop} [∀ S a, Decidable (P S a)] :
    (S : Session ι) → (actions : List (Action ι)) → Decidable (Throughout connects P S actions)
  | _, [] => inferInstanceAs (Decidable True)
  | S, a :: rest =>
    have := Throughout.decidable (P := P) (S.act connects a) rest
    inferInstanceAs (Decidable (P S a ∧ Throughout connects P (S.act connects a) rest))

/-- The callers ask for a connection one after the other, and none is returned. -/
def asks (callers : List ι) : List (Action ι) := callers.map fun caller => .call (.getConnection caller)

/-- A new pool; no context has failed, and all links are there. -/
def Session.create (poolSize : Nat) (heap : Heap) : Session ι :=
  ⟨⟨.create connects poolSize heap, []⟩, fun _ => false, fun _ => false⟩

end Runs

/-- No free slot of the pool holds a connection in `bad`. -/
def Spared (P : RedisPool) (bad : Address → Bool) : Prop :=
  ∀ (i : Nat) client, P.pool[i]? = some client → P.inUse[i]? = some false → bad client = false

/-- Every connection of the pool whose context has not failed has its link: none is lost unnoticed. -/
def Session.Linked {ι : Type} (S : Session ι) : Prop :=
  ∀ conn ∈ S.lending.pool.pool, S.err conn = false → S.cut conn = false

instance {ι : Type} (S : Session ι) : Decidable S.Linked :=
  inferInstanceAs (Decidable (∀ conn ∈ S.lending.pool.pool, S.err conn = false → S.cut conn = false))

/-! ### Pools without a failed connection -/

section Whole

variable {ι : Type} {connects : Nat → Attempt} {S : Session ι} {a : Action ι} {caller : ι} {conn : Address}

/-- The pool is kept, only its clients can have failed or lost their links, and none that is free has failed. -/
structure Whole (S : Session ι) : Prop where
  kept : Kept S.lending
  clients : ∀ client, S.err client = true → client ∈ S.lending.pool.pool
  links : ∀ client, S.cut client = true → client ∈ S.lending.pool.pool
  free : Spared S.lending.pool S.err

theorem whole_create (connects : Nat → Attempt) (poolSize : Nat) (heap : Heap) :
    Whole (Session.create connects poolSize heap : Session ι) :=
  ⟨kept_create connects poolSize heap, fun _ h => (by cases h), fun _ h => (by cases h), fun _ _ _ _ => rfl⟩

/-- A command changes nothing but the error of its context. -/
theorem Session.command_lending (S : Session ι) (conn : Address) (ioError : Bool) :
    (S.command conn ioError).2.lending = S.lending := by
  unfold Session.command
  split
  · rfl
  · split <;> rfl

theorem Session.command_cut (S : Session ι) (conn : Address) (ioError : Bool) :
    (S.command conn ioError).2.cut = S.cut := by
  unfold Session.command
  split
  · rfl
  · split <;> rfl

theorem Session.err_command {ioError : Bool} {client : Address} (h : (S.command conn ioError).2.err client = true) :
    S.err client = true ∨ client = conn := by
  unfold Session.command at h
  split at h
  · exact .inl h
  · split at h
    · by_cases hc : client = conn
      · exact .inr hc
      · exact .inl (by simpa [hc] using h)
    · exact .inl h

theorem Session.err_command_mono {ioError : Bool} {client : Address} (h : S.err client = true) :
    (S.command conn ioError).2.err client = true := by
  unfold Session.command
  split
  · exact h
  · split
    · by_cases hc : client = conn
      · simp [hc]
      · simpa [hc] using h
    · exact h

/-- What a caller holds is in use, so it is in no free slot. -/
theorem Kept.not_free (h : Kept S.lending) (hheld : (caller, conn) ∈ S.lending.held) {i : Nat}
    (hi : S.lending.pool.pool[i]? = some conn) : S.lending.pool.inUse[i]? = some true :=
  (h.oneHolder.inUse_iff i conn hi).2 ⟨caller, hheld⟩

theorem Kept.held_pooled (h : Kept S.lending) (hheld : (caller, conn) ∈ S.lending.held) :
    conn ∈ S.lending.pool.pool := by
  obtain ⟨i, hi, -⟩ := mem_marked.1 (h.mem_held.2 ⟨caller, hheld⟩)
  exact List.mem_of_getElem? hi

theorem Whole.command (h : Whole S) (hheld : (caller, conn) ∈ S.lending.held) (ioError : Bool) :
    Whole (S.command conn ioError).2 := by
  have hsame := S.command_lending conn ioError
  refine ⟨by rw [hsame]; exact h.kept, ?_, by rw [hsame, S.command_cut]; exact h.links, ?_⟩
  · intro client hc
    rw [hsame]
    rcases Session.err_command hc with hc | rfl
    · exact h.clients client hc
    · exact h.kept.held_pooled hheld
  · intro i client hclient hfree
    rw [hsame] at hclient hfree
    by_contra hne
    rcases Session.err_command (Bool.eq_true_of_not_eq_false hne) with hc | rfl
    · rw [h.free i client hclient hfree] at hc
      cases hc
    · rw [h.kept.not_free hheld hclient] at hfree
      cases hfree

/-- A link that is lost changes nothing else. -/
theorem Whole.drop (h : Whole S) (hconn : conn ∈ S.lending.pool.pool) :
    Whole { S with cut := Function.update S.cut conn true } := by
  refine ⟨h.kept, h.clients, ?_, h.free⟩
  intro client hc
  by_cases heq : client = conn
  · rw [heq]
    exact hconn
  · exact h.links client (by simpa [heq] using hc)

theorem Kept.isConnected {L : Lending ι} {conn : Address} (h : Kept L) (hheld : (caller, conn) ∈ L.held) :
    L.pool.heap.isConnected conn = true := by
  obtain ⟨i, hi, -⟩ := mem_marked.1 (h.mem_held.2 ⟨caller, hheld⟩)
  exact h.connected conn (List.mem_of_getElem? hi)

/-- Where a slot is free, a free slot is taken, and no client is touched. -/
theorem Kept.takes {L : Lending ι} (h : Kept L) {i : Nat} (hi : L.pool.pool[i]? = some conn)
    (hfree : L.pool.inUse[i]? = some false) (connects : Nat → Attempt) :
    ∃ (j : Nat) (client : Address), L.pool.pool[j]? = some client ∧ L.pool.inUse[j]? = some false ∧
      L.pool.getConnection connects = (some client, { L.pool with inUse := L.pool.inUse.set j true }) := by
  have hlt : i < L.pool.pool.length := (List.getElem?_eq_some_iff.1 hi).1
  have htakes := @RedisPool.takeFree_cases connects _ h.connected (List.range L.pool.pool.length)
  obtain ⟨-, hbusy⟩ | ⟨j, client, hclient, hflag, htake⟩ := htakes
  · exact absurd hfree (hbusy i (List.mem_range.2 hlt) hlt)
  · exact ⟨j, client, hclient, hflag, by rw [RedisPool.getConnection, htake]⟩

variable [DecidableEq ι]

theorem Session.err_call {c : Call ι} {client : Address} (h : (S.call connects c).err client = true) :
    S.err client = true :=
  (Bool.and_eq_true_iff.1 h).1

theorem Session.cut_call {c : Call ι} {client : Address} (h : (S.call connects c).cut client = true) :
    S.cut client = true :=
  (Bool.and_eq_true_iff.1 h).1

theorem Session.call_lending (S : Session ι) (c : Call ι) :
    (S.call connects c).lending = S.lending.call connects c := rfl

theorem Session.act_kept (h : Kept S.lending) (ha : S.Permits a) : Kept (S.act connects a).lending := by
  cases a with
  | call c => exact h.call ha
  | command caller conn ioError =>
    have hsame : (S.act connects (.command caller conn ioError)).lending = S.lending :=
      S.command_lending conn ioError
    rwa [hsame]
  | drop conn => exact h

omit [DecidableEq ι] in
/-- Of connections that lie in no free slot of the pool, none is handed out. -/
theorem Kept.handsOut {L : Lending ι} {bad : Address → Bool} (h : Kept L) (hpooled : ∀ c, bad c = true →
    c ∈ L.pool.pool)
    (hfree : Spared L.pool bad) (hget : (L.pool.getConnection connects).1 = some conn) : bad conn = false := by
  have hgets := RedisPool.getConnection_gets connects h.lengths h.connected
  generalize L.pool.getConnection connects = answer at hgets hget
  obtain ⟨conn?, P⟩ := answer
  obtain rfl : conn? = some conn := hget
  cases hgets with
  | taken hclient hflag => exact hfree _ _ hclient hflag
  | grown hfull hnew hclient hkeep =>
    by_contra hne
    exact hnew (hpooled conn (by simpa using hne))

/-- A request makes no slot free. -/
theorem Kept.spared_get {L : Lending ι} {bad : Address → Bool} (h : Kept L)
    (hfree : Spared L.pool bad) (caller : ι) :
    Spared (L.call connects (.getConnection caller)).pool bad := by
  intro i client hclient hflag
  have hgets := RedisPool.getConnection_gets connects h.lengths h.connected
  rw [Lending.call] at hclient hflag
  generalize L.pool.getConnection connects = answer at hgets hclient hflag
  obtain ⟨conn?, P⟩ := answer
  cases hgets with
  | @taken j c hc hf =>
    by_cases hij : j = i
    · subst hij
      rw [List.getElem?_set_self (List.getElem?_eq_some_iff.1 hf).1] at hflag
      cases hflag
    · rw [List.getElem?_set_ne hij] at hflag
      exact hfree i client hclient hflag
  | grown hfull hnew hconn hkeep =>
    -- no slot was free, and the new one is taken
    have hmem : false ∈ L.pool.inUse ++ [true] := List.mem_of_getElem? hflag
    simp [hfull] at hmem
  | failed hkeep => exact hfree i client hclient hflag

/-- The clients of the pool stay in it. -/
theorem Kept.pooled_get {L : Lending ι} (h : Kept L) (caller : ι) {client : Address} (hmem : client ∈ L.pool.pool) :
    client ∈ (L.call connects (.getConnection caller)).pool.pool := by
  have hgets := RedisPool.getConnection_gets connects h.lengths h.connected
  rw [Lending.call]
  generalize L.pool.getConnection connects = answer at hgets
  obtain ⟨conn?, P⟩ := answer
  cases hgets with
  | taken hclient hfree => exact hmem
  | grown hfull hnew hclient hkeep => exact List.mem_append_left _ hmem
  | failed hkeep => exact hmem

theorem Kept.held_get {L : Lending ι} (h : (L.pool.getConnection connects).1 = some conn) (caller : ι) :
    (caller, conn) ∈ (L.call connects (.getConnection caller)).held := by
  rw [Lending.call]
  generalize L.pool.getConnection connects = answer at h
  obtain ⟨conn?, P⟩ := answer
  cases h
  exact List.mem_cons_self

theorem Spared.mono {P : RedisPool} {bad bad' : Address → Bool} (h : Spared P bad)
    (hle : ∀ c, bad' c = true → bad c = true) : Spared P bad' := by
  intro i client hclient hflag
  by_contra hne
  have hbad := hle client (Bool.eq_true_of_not_eq_false hne)
  rw [h i client hclient hflag] at hbad
  cases hbad

/-- The connection that is handed out has not failed, and the caller holds it. -/
theorem Whole.handsOut (h : Whole S) (caller : ι)
    (hget : (S.lending.pool.getConnection connects).1 = some conn) :
    (S.call connects (.getConnection caller)).err conn = false ∧
      (caller, conn) ∈ (S.call connects (.getConnection caller)).lending.held := by
  refine ⟨?_, Kept.held_get hget caller⟩
  have herr : S.err conn = false := h.kept.handsOut h.clients h.free hget
  by_contra hne
  have hbefore := Session.err_call (Bool.eq_true_of_not_eq_false hne)
  rw [herr] at hbefore
  cases hbefore

theorem Whole.call_get (h : Whole S) (caller : ι) : Whole (S.call connects (.getConnection caller)) := by
  have hkept : Kept (S.lending.call connects (.getConnection caller)) := h.kept.call trivial
  refine ⟨hkept, ?_, ?_, (h.kept.spared_get h.free caller).mono fun _ => Session.err_call⟩
  · intro client herr
    exact h.kept.pooled_get caller (h.clients client (Session.err_call herr))
  · intro client hcut
    exact h.kept.pooled_get caller (h.links client (Session.cut_call hcut))

/-- The slot of a returned connection. -/
theorem Kept.returned (connects : Nat → Attempt) {L : Lending ι} (h : Kept L) (hheld : (caller, conn) ∈ L.held) :
    ∃ i, L.pool.pool[i]? = some conn ∧ L.pool.inUse[i]? = some true ∧
      (L.call connects (.returnConnection caller conn)).pool =
        { L.pool with inUse := L.pool.inUse.set i false } := by
  obtain ⟨i, hi, hflag⟩ := mem_marked.1 (h.mem_held.2 ⟨caller, hheld⟩)
  exact ⟨i, hi, hflag, RedisPool.returnConnection_eq h.nodup hi⟩

/-- A returned connection is in a free slot. -/
theorem Kept.returned_free (connects : Nat → Attempt) {L : Lending ι} (h : Kept L)
    (hheld : (caller, conn) ∈ L.held) :
    ∃ i : Nat, (L.call connects (.returnConnection caller conn)).pool.pool[i]? = some conn ∧
      (L.call connects (.returnConnection caller conn)).pool.inUse[i]? = some false := by
  obtain ⟨i, hi, hflag, hpool⟩ := h.returned connects hheld
  rw [hpool]
  exact ⟨i, hi, List.getElem?_set_self (List.getElem?_eq_some_iff.1 hflag).1⟩

/-- The contexts and the links are the same after a connection was returned. -/
theorem Session.same_return (hkept : Kept S.lending) (hheld : (caller, conn) ∈ S.lending.held) :
    (S.call connects (.returnConnection caller conn)).err = S.err ∧
      (S.call connects (.returnConnection caller conn)).cut = S.cut := by
  obtain ⟨i, -, -, hpool⟩ := hkept.returned connects hheld
  have hsame : (S.lending.call connects (.returnConnection caller conn)).pool.heap = S.lending.pool.heap := by
    rw [hpool]
  constructor
  · funext client
    simp [Session.call, hsame]
  · funext client
    simp [Session.call, hsame]

theorem Session.err_return (hkept : Kept S.lending) (hheld : (caller, conn) ∈ S.lending.held) (client : Address) :
    (S.call connects (.returnConnection caller conn)).err client = S.err client := by
  rw [(Session.same_return hkept hheld).1]

theorem Kept.spared_return (connects : Nat → Attempt) {L : Lending ι} {bad : Address → Bool} (h : Kept L)
    (hfree : Spared L.pool bad) (hheld : (caller, conn) ∈ L.held) (hconn : bad conn = false) :
    Spared (L.call connects (.returnConnection caller conn)).pool bad := by
  obtain ⟨i, hi, hflag, hpool⟩ := h.returned connects hheld
  intro j client hclient hfree'
  rw [hpool] at hclient hfree'
  by_cases hij : i = j
  · subst hij
    rw [Option.some.inj (hclient.symm.trans hi)]
    exact hconn
  · rw [List.getElem?_set_ne hij] at hfree'
    exact hfree j client hclient hfree'

theorem Whole.call_return (h : Whole S) (hheld : (caller, conn) ∈ S.lending.held) (herr : S.err conn = false) :
    Whole (S.call connects (.returnConnection caller conn)) := by
  have hkept : Kept (S.lending.call connects (.returnConnection caller conn)) := h.kept.call hheld
  obtain ⟨i, hi, hflag, hpool⟩ := h.kept.returned connects hheld
  obtain ⟨hsame, hlinks⟩ := @Session.same_return _ connects S caller conn _ h.kept hheld
  refine ⟨hkept, ?_, ?_, ?_⟩
  · rw [hsame, Session.call_lending, hpool]
    exact h.clients
  · rw [hlinks, Session.call_lending, hpool]
    exact h.links
  · rw [hsame]
    exact Kept.spared_return connects h.kept h.free hheld herr

/-- A step that returns no failed connection. -/
theorem Whole.act (h : Whole S) (ha : S.Permits a) (hreturn : S.ReturnsWhole a) : Whole (S.act connects a) := by
  cases a with
  | call c =>
    cases c with
    | getConnection caller => exact h.call_get caller
    | returnConnection caller conn => exact h.call_return ha hreturn
  | command caller conn ioError => exact h.command ha ioError
  | drop conn => exact h.drop ha

theorem Whole.throughout (h : Whole S) {actions : List (Action ι)}
    (hp : Throughout connects Session.Permits S actions)
    (hreturns : Throughout connects Session.ReturnsWhole S actions) :
    Throughout connects (Session.HandsOutWhole connects) S actions ∧ Whole (S.run connects actions) := by
  induction actions generalizing S with
  | nil => exact ⟨trivial, h⟩
  | cons a rest ih =>
    obtain ⟨hrest, hend⟩ := ih (h.act hp.1 hreturns.1) hp.2 hreturns.2
    refine ⟨⟨?_, hrest⟩, hend⟩
    cases a with
    | call c =>
      cases c with
      | getConnection caller => exact fun conn hget => (h.handsOut caller hget).1
      | returnConnection caller conn => trivial
    | command caller conn ioError => trivial
    | drop conn => trivial

theorem throughout_append {P : Session ι → Action ι → Prop} {actions rest : List (Action ι)} :
    Throughout connects P S (actions ++ rest) ↔
      Throughout connects P S actions ∧ Throughout connects P (S.run connects actions) rest := by
  induction actions generalizing S with
  | nil => simp [Throughout, Session.run]
  | cons a actions ih =>
    rw [List.cons_append, Throughout, Throughout, ih, and_assoc]
    rfl

/-- Asking for connections is always permitted, and returns none. -/
theorem throughout_asks {P : Session ι → Action ι → Prop} (hP : ∀ S caller, P S (.call (.getConnection caller)))
    (callers : List ι) : Throughout connects P S (asks callers) := by
  induction callers generalizing S with
  | nil => trivial
  | cons caller rest ih => exact ⟨hP S caller, ih⟩

/-! ### Pools with a failed connection -/

/-- A free slot of the pool holds a connection whose context has failed. -/
structure Poisoned (conn : Address) (S : Session ι) : Prop where
  kept : Kept S.lending
  err : S.err conn = true
  free : ∃ i : Nat, S.lending.pool.pool[i]? = some conn ∧ S.lending.pool.inUse[i]? = some false

/-- A request takes a free slot, if there is one, and leaves all contexts and links as they are. -/
theorem Session.call_get_free (h : Kept S.lending) {i : Nat} (hi : S.lending.pool.pool[i]? = some conn)
    (hfree : S.lending.pool.inUse[i]? = some false) (connects : Nat → Attempt) (caller : ι) :
    ∃ (j : Nat) (client : Address), S.lending.pool.pool[j]? = some client ∧
    S.lending.pool.inUse[j]? = some false ∧
      (S.lending.pool.getConnection connects).1 = some client ∧
      S.call connects (.getConnection caller) =
        ⟨⟨{ S.lending.pool with inUse := S.lending.pool.inUse.set j true },
          (caller, client) :: S.lending.held⟩, S.err,
          S.cut⟩ := by
  obtain ⟨j, client, hclient, hflag, hget⟩ := h.takes hi hfree connects
  have hlending : S.lending.call connects (.getConnection caller) =
      ⟨{ S.lending.pool with inUse := S.lending.pool.inUse.set j true }, (caller, client) :: S.lending.held⟩ := by
    rw [Lending.call, hget]
  refine ⟨j, client, hclient, hflag, by rw [hget], ?_⟩
  simp [Session.call, hlending]

/-- After fewer requests than there are free slots, the connection in a free slot is the next one to be handed
out. -/
theorem Session.next_after_asks (h : Kept S.lending) {i : Nat} (hi : S.lending.pool.pool[i]? = some conn)
    (hfree : S.lending.pool.inUse[i]? = some false) (connects : Nat → Attempt) (caller : ι) :
    ∃ n, let S' := S.run connects (asks (List.replicate n caller))
      (S'.lending.pool.getConnection connects).1 = some conn ∧ Kept S'.lending ∧
        ∃ L, S'.call connects (.getConnection caller) = ⟨L, S.err, S.cut⟩ := by
  generalize hcount : S.lending.pool.inUse.count false = count
  induction count generalizing S with
  | zero =>
    have hpos : 0 < S.lending.pool.inUse.count false := List.count_pos_iff.2 (List.mem_of_getElem? hfree)
    omega
  | succ count ih =>
    obtain ⟨j, client, hclient, hflag, hget, hcall⟩ := Session.call_get_free h hi hfree connects caller
    by_cases hij : j = i
    · subst hij
      obtain rfl : client = conn := Option.some.inj (hclient.symm.trans hi)
      exact ⟨0, hget, h, _, hcall⟩
    · -- another free slot is taken first
      have hkept : Kept (S.call connects (.getConnection caller)).lending :=
        Session.act_kept (a := .call (.getConnection caller)) h trivial
      have hlt : j < S.lending.pool.inUse.length := (List.getElem?_eq_some_iff.1 hflag).1
      have hj : S.lending.pool.inUse[j] = false := (List.getElem?_eq_some_iff.1 hflag).2
      have hless : (S.lending.pool.inUse.set j true).count false = count := by
        simp only [List.count_set hlt, hj]
        simp
        omega
      obtain ⟨n, hnext, hkept', L, hL⟩ :=
        @ih (S.call connects (.getConnection caller)) hkept (by rw [hcall]; exact hi)
        (by rw [hcall, List.getElem?_set_ne hij]; exact hfree) (by rw [hcall]; exact hless)
      exact ⟨n + 1, hnext, hkept', L, hL.trans (by rw [hcall])⟩

theorem Poisoned.act (h : Poisoned conn S) (ha : S.Permits a) (hout : S.HandsOutWhole connects a) :
    Poisoned conn (S.act connects a) := by
  obtain ⟨i, hi, hfree⟩ := h.free
  cases a with
  | call c =>
    cases c with
    | getConnection caller =>
      obtain ⟨j, client, hclient, hflag, hget, hcall⟩ := Session.call_get_free h.kept hi hfree connects caller
      have hne : j ≠ i := by
        rintro rfl
        obtain rfl : client = conn := Option.some.inj (hclient.symm.trans hi)
        have hwhole := hout client hget
        rw [hcall, h.err] at hwhole
        cases hwhole
      refine ⟨Session.act_kept (a := .call (.getConnection caller)) h.kept trivial, ?_, i, ?_, ?_⟩
      · rw [Session.act, hcall]
        exact h.err
      · rw [Session.act, hcall]
        exact hi
      · rw [Session.act, hcall, List.getElem?_set_ne hne]
        exact hfree
    | returnConnection caller other =>
      obtain ⟨j, hj, hflag, hpool⟩ := h.kept.returned connects ha
      refine ⟨Session.act_kept h.kept ha, (Session.err_return h.kept ha conn).trans h.err, i, ?_, ?_⟩
      · change (S.lending.call connects _).pool.pool[i]? = _
        rw [hpool]
        exact hi
      · change (S.lending.call connects _).pool.inUse[i]? = _
        rw [hpool]
        by_cases hij : j = i
        · subst hij
          exact List.getElem?_set_self (List.getElem?_eq_some_iff.1 hfree).1
        · rw [List.getElem?_set_ne hij]
          exact hfree
  | command caller other ioError =>
    have hsame : (S.act connects (.command caller other ioError)).lending = S.lending :=
      S.command_lending other ioError
    exact ⟨by rw [hsame]; exact h.kept, Session.err_command_mono h.err, i, by rw [hsame]; exact ⟨hi, hfree⟩⟩
  | drop other => exact ⟨h.kept, h.err, i, hi, hfree⟩

/-- Further requests come to the failed connection. -/
theorem Poisoned.handedOut (h : Poisoned conn S) (connects : Nat → Attempt) (caller : ι) :
    ∃ callers, ¬ Throughout connects (Session.HandsOutWhole connects) S (asks callers) := by
  obtain ⟨i, hi, hfree⟩ := h.free
  obtain ⟨n, hget, -, L, hcall⟩ := Session.next_after_asks h.kept hi hfree connects caller
  refine ⟨List.replicate n caller ++ [caller], ?_⟩
  intro hout
  rw [asks, List.map_append] at hout
  have hlast := (throughout_append.1 hout).2.1 conn hget
  rw [← asks, hcall, h.err] at hlast
  cases hlast

theorem Poisoned.throughout (h : Poisoned conn S) {actions : List (Action ι)}
    (hp : Throughout connects Session.Permits S actions)
    (hout : Throughout connects (Session.HandsOutWhole connects) S actions) :
    Poisoned conn (S.run connects actions) := by
  induction actions generalizing S with
  | nil => exact h
  | cons a rest ih => exact ih (h.act hp.1 hout.1) hp.2 hout.2

/-- From a pool without a failed connection: a run hands out no failed connection, and neither do further requests
after it, exactly when no failed connection was returned. -/
theorem Whole.handsOut_iff (h : Whole S) {actions : List (Action ι)}
    (hp : Throughout connects Session.Permits S actions) :
    (∀ callers, Throughout connects (Session.HandsOutWhole connects) S (actions ++ asks callers)) ↔
      Throughout connects Session.ReturnsWhole S actions := by
  constructor
  · intro hout
    induction actions generalizing S with
    | nil => trivial
    | cons a rest ih =>
      have hreturn : S.ReturnsWhole a := by
        cases a with
        | command caller conn ioError => trivial
        | drop conn => trivial
        | call c =>
          cases c with
          | getConnection caller => trivial
          | returnConnection caller conn =>
            by_contra hne
            -- the failed connection is now in a free slot, and stays there until it is handed out
            have herr : S.err conn = true := Bool.eq_true_of_not_eq_false hne
            have hpoisoned : Poisoned conn (S.act connects (.call (.returnConnection caller conn))) :=
              ⟨Session.act_kept h.kept hp.1, (Session.err_return h.kept hp.1 conn).trans herr,
                h.kept.returned_free connects hp.1⟩
            have hend := hpoisoned.throughout hp.2 (throughout_append.1 (hout []).2).1
            obtain ⟨callers, hnot⟩ := hend.handedOut connects caller
            exact hnot (throughout_append.1 (hout callers).2).2
      exact ⟨hreturn, ih (h.act hp.1 hreturn) hp.2 fun callers => (hout callers).2⟩
  · intro hreturns callers
    refine (h.throughout ?_ ?_).1
    · exact throughout_append.2 ⟨hp, throughout_asks (fun _ _ => trivial) callers⟩
    · exact throughout_append.2 ⟨hreturns, throughout_asks (fun _ _ => trivial) callers⟩

end Whole

/-! ### Operations of the dispatcher -/

/-- How an operation uses the pool: every command is on the connection it has taken and not yet returned. -/
def borrowing : Protocol Effect Effect.Answer (Option Nat) where
  allows held
    | .getConnection => held = none
    | .returnConnection redis => held = some redis.context
    | .command context _ => held = some context
    | _ => True
  next held
    | ⟨.getConnection, redis⟩ => Option.map RedisClient.context redis
    | ⟨.returnConnection _, _⟩ => none
    | _ => held

/-- The operations of `TaskDispatcher`. -/
inductive IsOperation : {α : Type} → Code α → Prop
  | submitTask (task : TaskRequest) : IsOperation (submitTask task)
  | popNextTask : IsOperation popNextTask
  | assignTaskToWorker (taskId workerId : Bytes) : IsOperation (assignTaskToWorker taskId workerId)
  | completeTask (taskId : Bytes) (result : TaskResult) : IsOperation (completeTask taskId result)
  | failTask (taskId error : Bytes) : IsOperation (failTask taskId error)
  | retryTask (taskId : Bytes) : IsOperation (retryTask taskId)
  | getTaskRetryCount (taskId : Bytes) : IsOperation (getTaskRetryCount taskId)
  | getTaskStatus (taskId : Bytes) : IsOperation (getTaskStatus taskId)
  | getTaskInfo (taskId : Bytes) : IsOperation (getTaskInfo taskId)
  | getQueueSize (priority : Int32) : IsOperation (getQueueSize priority)
  | getTotalQueueSize : IsOperation getTotalQueueSize

section Environment

variable {ι : Type} [DecidableEq ι] (connects : Nat → Attempt) (caller : ι)

/-- What some of the callers do, who return no failed connection, while the server drops no links. -/
def Session.Proceeds (callers : ι → Prop) : Session ι → Session ι → Prop :=
  Relation.ReflTransGen fun S S' =>
    ∃ (a : Action ι) (other : ι), a.caller = some other ∧ callers other ∧ S.Permits a ∧ S.ReturnsWhole a ∧
      S' = S.act connects a

/-- What the other callers do between two effects of `caller`. -/
def Session.Meanwhile : Session ι → Session ι → Prop := Session.Proceeds connects fun other => other ≠ caller

/-- The environment of an operation that runs for `caller`: the pool, while the server drops no links and no I/O
of the operation's commands fails on a link that is there.  A connection is named by its address. -/
def pooled : Semantics Effect Effect.Answer (Session ι)
  | .getConnection, S, redis, S' => ∃ S₁, S.Meanwhile connects caller S₁ ∧
      S' = S₁.call connects (.getConnection caller) ∧
      redis = (S₁.lending.pool.getConnection connects).1.map fun conn =>
        ⟨conn, S'.lending.pool.heap.isConnected conn⟩
  | .returnConnection redis, S, _, S' => ∃ S₁, S.Meanwhile connects caller S₁ ∧
      S' = S₁.call connects (.returnConnection caller redis.context)
  | .command conn _, S, reply, S' => ∃ S₁, S.Meanwhile connects caller S₁ ∧
      (reply.isSome, S') = S₁.command conn false
  | _, S, _, S' => S.Meanwhile connects caller S'

/-- From now on every attempt to connect succeeds. -/
def Session.Reachable (S : Session ι) : Prop :=
  ∀ n, S.lending.pool.heap.attempts ≤ n → ∃ ctx, connects n = .context ctx false

end Environment

/-- The operation has got what it asked for: a connected connection, a reply. -/
def Replied : Event Effect Effect.Answer → Prop
  | ⟨.getConnection, redis⟩ => ∃ conn, redis = some ⟨conn, true⟩
  | ⟨.command _ _, reply⟩ => reply ≠ none
  | _ => True

/-- Whatever the callers do first that return no failed connection, an operation gets what it asks for. -/
def Session.Answers {ι : Type} [DecidableEq ι] (connects : Nat → Attempt) (S : Session ι) : Prop :=
  ∀ S₁, S.Proceeds connects (fun _ => True) S₁ → ∀ {α : Type} {p : Code α}, IsOperation p → ∀ caller τ o S',
    Run (pooled connects caller) p S₁ τ o S' → ∀ event ∈ τ, Replied event

section Operations

variable {α : Type} {redis : RedisClient}

/-- The effects of an operation between taking and returning `redis`. -/
abbrev OnConnection (redis : RedisClient) : Effect → Prop := borrowing.Stays (some redis.context)

private theorem guarded_on {b : Bool} {a : α} {cmd : Command} {f : Option Reply → α} :
    (if b = true then ret a else command redis cmd >>= fun reply => ret (f reply)).Every (OnConnection redis) :=
  .ite trivial ⟨⟨rfl, fun _ => rfl⟩, fun _ => trivial⟩

theorem hset_on (key field value : Bytes) : (redis.hset key field value).Every (OnConnection redis) := guarded_on

theorem hget_on (key field : Bytes) : (redis.hget key field).Every (OnConnection redis) := guarded_on

theorem get_on (key : Bytes) : (redis.get key).Every (OnConnection redis) := guarded_on

theorem systemClock_on : systemClock.Every (OnConnection redis) := ⟨⟨trivial, fun _ => rfl⟩, fun _ => trivial⟩

theorem declareTaskInfo_on : declareTaskInfo.Every (OnConnection redis) :=
  ⟨⟨trivial, fun _ => rfl⟩, fun _ => trivial⟩

theorem getTask_on (taskId : Bytes) : (redis.getTask taskId).Every (OnConnection redis) := by
  have hgetall : (redis.hgetall (taskKey taskId)).Every (OnConnection redis) := guarded_on
  exact .bind declareTaskInfo_on fun declared => .bind hgetall fun fields => .ite trivial (.ofExcept _)

theorem updateTaskStatus_on (taskId errorMsg : Bytes) (status : Int32) :
    (redis.updateTaskStatus taskId status errorMsg).Every (OnConnection redis) := by
  have hfinished : (do
      if (decide (status = 2) || decide (status = 3)) = true then
        let now ← systemClock
        let _ ← redis.hset (taskKey taskId) (bytes "finished_at") (decimal now.toInt)
      return true : Code Bool).Every (OnConnection redis) :=
    .ite (.bind systemClock_on fun _ => .bind (hset_on _ _ _) fun _ => trivial) trivial
  exact .bind (hset_on _ _ _) fun _ => .ite (.bind (hset_on _ _ _) fun _ => hfinished) hfinished

theorem incrementTaskRetry_on (taskId : Bytes) : (redis.incrementTaskRetry taskId).Every (OnConnection redis) :=
  .bind (hget_on _ _) fun _ => .bind (.ofExcept _) fun _ => hset_on _ _ _

theorem pushToPriorityQueue_on (priority : Int32) (taskId : Bytes) :
    (redis.pushToPriorityQueue priority taskId).Every (OnConnection redis) := guarded_on

theorem popFromPriorityQueue_on : redis.popFromPriorityQueue.Every (OnConnection redis) := by
  have hlpop (queue : Bytes) : (redis.lpop queue).Every (OnConnection redis) := guarded_on
  exact .bind (hlpop _) fun _ => .ite trivial (.bind (hlpop _) fun _ => .ite trivial (hlpop _))

theorem decrementWorkerLoad_on (workerId : Bytes) :
    (redis.decrementWorkerLoad workerId).Every (OnConnection redis) := by
  have hincrby : (redis.incrby (workerLoadKey workerId) (-1)).Every (OnConnection redis) := guarded_on
  exact .bind (get_on _) fun _ => .bind (.ofExcept _) fun _ => .ite (.bind hincrby fun _ => trivial) trivial

theorem getWorkerLoad_on (workerId : Bytes) : (redis.getWorkerLoad workerId).Every (OnConnection redis) :=
  .bind (get_on _) fun _ => .ofExcept _

/-- The operation holds one connection at most, and none when it returns. -/
def Borrows (p : Code α) : Prop := p.Follows borrowing (· = none) none

private theorem borrows_connection {f : Option RedisClient → Code α} {a : α} (hnone : f none = ret a)
    (h : ∀ redis, (f (some redis)).Follows borrowing (· = none) (some redis.context)) :
    Borrows (getConnection >>= f) := by
  refine ⟨rfl, fun r => ?_⟩
  cases r with
  | none =>
    change (f none).Follows borrowing _ none
    rw [hnone]
    rfl
  | some redis => exact h redis

private theorem follows_return {f : Unit → Code α} (h : Borrows (f ())) :
    (returnConnection redis >>= f).Follows borrowing (· = none) (some redis.context) :=
  ⟨rfl, fun _ => h⟩

private theorem follows_end {a : α} :
    (do returnConnection redis; return a : Code α).Follows borrowing (· = none) (some redis.context) :=
  follows_return rfl

/-- How an operation ends that takes its task off the worker. -/
private theorem follows_unload {workerId : Bytes} {rest : Code α}
    (h : rest.Follows borrowing (· = none) (some redis.context)) :
    (do
      let _ ← redis.decrementWorkerLoad workerId
      let load ← redis.getWorkerLoad workerId
      updateWorkerLoad workerId load
      rest : Code α).Follows borrowing (· = none) (some redis.context) :=
  .after (decrementWorkerLoad_on _) fun _ => .after (getWorkerLoad_on _) fun _ => ⟨trivial, fun _ => h⟩

/-- What a retry does after it has taken the task off its worker. -/
private theorem follows_retry (taskId : Bytes) (retryCount : Int32) :
    (redis.requeueRetry taskId retryCount).Follows borrowing (· = none) (some redis.context) := by
  have hsetex (key value : Bytes) (n : Int32) : (redis.setex key value n).Every (OnConnection redis) := guarded_on
  refine .after (incrementTaskRetry_on _) fun _ => .after (getTask_on _) fun task =>
    .after systemClock_on fun _ => ?_
  exact .after (hsetex _ _ _) fun _ => .after (pushToPriorityQueue_on _ _) fun _ => follows_end

theorem borrows_getQueueSize (priority : Int32) : Borrows (getQueueSize priority) := by
  have hllen (redis : RedisClient) (queue : Bytes) : (redis.llen queue).Every (OnConnection redis) := guarded_on
  exact borrows_connection rfl fun redis => .after (hllen redis _) fun _ => follows_end

/-- Every operation of the dispatcher uses the one connection that it took. -/
theorem IsOperation.borrows {p : Code α} (h : IsOperation p) : Borrows p := by
  cases h with
  | submitTask task =>
    have hsave (redis : RedisClient) (info : TaskInfo) :
      (redis.saveTask info).Every (OnConnection redis) := guarded_on
    refine borrows_connection rfl fun redis => .after declareTaskInfo_on fun declared => ?_
    exact .after (hsave redis _) fun _ => .ite follows_end
      (.after (pushToPriorityQueue_on _ _) fun _ => .ite follows_end follows_end)
  | popNextTask =>
    exact borrows_connection rfl fun redis => .after popFromPriorityQueue_on fun _ => follows_end
  | assignTaskToWorker taskId workerId =>
    have hincr (redis : RedisClient) : (redis.incrementWorkerLoad workerId).Every (OnConnection redis) :=
      .bind guarded_on fun _ => trivial
    refine borrows_connection rfl fun redis => .after (getTask_on _) fun task => .ite follows_end ?_
    refine .after systemClock_on fun now => .after (hset_on _ _ _) fun _ => .after (hset_on _ _ _) fun _ => ?_
    refine .after (hset_on _ _ _) fun _ => .after (hincr redis) fun _ => ?_
    exact .after (getWorkerLoad_on _) fun load => ⟨trivial, fun _ => follows_end⟩
  | completeTask taskId result =>
    refine borrows_connection rfl fun redis => .after (hget_on _ _) fun workerId => ?_
    refine .after (updateTaskStatus_on _ _ _) fun _ => .after (hset_on _ _ _) fun _ => .ite ?_ follows_end
    exact follows_unload ⟨trivial, fun _ => follows_end⟩
  | failTask taskId error =>
    refine borrows_connection rfl fun redis => .after (hget_on _ _) fun workerId => ?_
    exact .after (updateTaskStatus_on _ _ _) fun _ =>
      .ite (follows_unload ⟨trivial, fun _ => follows_end⟩) follows_end
  | retryTask taskId =>
    refine borrows_connection rfl fun redis => .after (getTask_on _) fun task => .ite follows_end ?_
    refine .after (hget_on _ _) fun workerId => .ite (follows_unload ?_) ?_
    · exact follows_retry taskId task.retryCount
    · exact follows_retry taskId task.retryCount
  | getTaskRetryCount taskId =>
    exact borrows_connection rfl fun redis => .after (getTask_on _) fun _ => follows_end
  | getTaskStatus taskId =>
    refine borrows_connection rfl fun redis => .after (hget_on _ _) fun status => follows_return (.ite rfl ?_)
    exact .after (.ofExcept _) fun code => .ite rfl (.ite rfl (.ite rfl (.ite rfl rfl)))
  | getTaskInfo taskId => exact borrows_connection rfl fun redis => .after (getTask_on _) fun _ => follows_end
  | getQueueSize priority => exact borrows_getQueueSize priority
  | getTotalQueueSize =>
    refine (borrows_getQueueSize 2).bind ?_
    rintro high _ rfl
    refine (borrows_getQueueSize 1).bind ?_
    rintro medium _ rfl
    refine (borrows_getQueueSize 0).bind ?_
    rintro low _ rfl
    rfl

end Operations

/-! ### After an outage -/

section Recovery

variable {connects : Nat → Attempt}

theorem Heap.attempts_connect (connects : Nat → Attempt) (H : Heap) (client : Address) :
    H.attempts ≤ (H.connect connects client).2.attempts := by
  unfold Heap.connect
  split
  · exact Nat.le_refl _
  · split
    · exact Nat.le_refl _
    · split
      · exact Nat.le_succ _
      · exact Nat.le_succ _
      · exact Nat.le_succ _

theorem RedisPool.attempts_takeFree (connects : Nat → Attempt) (P : RedisPool) (slots : List Nat) :
    P.heap.attempts ≤ (P.takeFree connects slots).2.heap.attempts := by
  induction slots generalizing P with
  | nil => exact Nat.le_refl _
  | cons i rest ih =>
    rw [RedisPool.takeFree]
    split
    · rename_i client hclient hflag
      have hle : P.heap.attempts ≤
          (if P.heap.isConnected client then (true, P.heap) else P.heap.connect connects client).2.attempts := by
        split
        · exact Nat.le_refl _
        · exact P.heap.attempts_connect connects client
      generalize (if P.heap.isConnected client then (true, P.heap) else P.heap.connect connects client) = r at hle
      dsimp only
      split
      · exact hle
      · exact hle.trans (ih { P with heap := r.2 })
    · exact ih P

theorem RedisPool.attempts_getConnection (connects : Nat → Attempt) (P : RedisPool) :
    P.heap.attempts ≤ (P.getConnection connects).2.heap.attempts := by
  have htake := P.attempts_takeFree connects (List.range P.pool.length)
  rw [RedisPool.getConnection]
  split
  · rename_i client P' h
    rw [h] at htake
    exact htake
  · rename_i P' h
    rw [h] at htake
    have hconnect := P'.heap.makeShared.2.attempts_connect connects P'.heap.makeShared.1
    dsimp only
    split
    · exact htake.trans hconnect
    · exact htake.trans hconnect

/-- Where attempts to connect succeed, there is always a connection. -/
theorem RedisPool.getConnection_some {P : RedisPool}
    (hreach : ∀ n, P.heap.attempts ≤ n → ∃ ctx, connects n = .context ctx false) :
    (P.getConnection connects).1 ≠ none := by
  have htake := P.attempts_takeFree connects (List.range P.pool.length)
  rw [RedisPool.getConnection]
  split
  · exact Option.some_ne_none _
  · rename_i P' h
    rw [h] at htake
    obtain ⟨ctx, hctx⟩ := hreach P'.heap.attempts htake
    have hnew : P'.heap.makeShared.2.clients[P'.heap.makeShared.1]? = some ⟨none, false⟩ :=
      by simp [Heap.makeShared]
    have hok : (P'.heap.makeShared.2.connect connects P'.heap.makeShared.1).1 = true := by
      have hattempts : connects P'.heap.makeShared.2.attempts = .context ctx false := hctx
      simp [Heap.connect, hnew, hattempts]
    dsimp only
    rw [if_pos hok]
    exact Option.some_ne_none _

variable {ι : Type} [DecidableEq ι] {S S' : Session ι} {a : Action ι} {caller : ι}

theorem Session.attempts_act (h : Kept S.lending) (ha : S.Permits a) :
    S.lending.pool.heap.attempts ≤ (S.act connects a).lending.pool.heap.attempts := by
  cases a with
  | call c =>
    cases c with
    | getConnection caller =>
      have hle := S.lending.pool.attempts_getConnection connects
      change _ ≤ (S.lending.call connects _).pool.heap.attempts
      rw [Lending.call]
      generalize S.lending.pool.getConnection connects = answer at hle
      obtain ⟨conn?, P⟩ := answer
      cases conn? with
      | none => exact hle
      | some conn => exact hle
    | returnConnection caller conn =>
      obtain ⟨i, -, -, hpool⟩ := h.returned connects ha
      change _ ≤ (S.lending.call connects _).pool.heap.attempts
      rw [hpool]
  | command caller conn ioError =>
    have hsame : (S.act connects (.command caller conn ioError)).lending = S.lending :=
      S.command_lending conn ioError
    rw [hsame]
  | drop conn => exact Nat.le_refl _

/-- What holds once the server can be reached: the pool is whole, and its links are there. -/
structure Serves (connects : Nat → Attempt) (S : Session ι) : Prop where
  whole : Whole S
  linked : S.Linked
  reachable : S.Reachable connects

/-- A lost link belongs to a connection of the pool from before, whose context is still the same. -/
theorem Session.Linked.call (h : S.Linked) (hwhole : Whole S) (c : Call ι) : (S.call connects c).Linked := by
  intro conn _ herr
  by_contra hne
  obtain ⟨hcut, hsame⟩ := Bool.and_eq_true_iff.1 (Bool.eq_true_of_not_eq_false hne)
  have hbefore : S.err conn = false := by
    simpa [Session.call, hsame] using herr
  rw [h conn (hwhole.links conn hcut) hbefore] at hcut
  cases hcut

omit [DecidableEq ι] in
theorem Session.Linked.command (h : S.Linked) (conn : Address) (ioError : Bool) :
    (S.command conn ioError).2.Linked := by
  intro client hclient herr
  rw [S.command_lending] at hclient
  rw [S.command_cut]
  refine h client hclient ?_
  by_contra hne
  rw [Session.err_command_mono (Bool.eq_true_of_not_eq_false hne)] at herr
  cases herr

/-- A caller's action, if it returns no failed connection. -/
theorem Serves.act {other : ι} (h : Serves connects S) (hcaller : a.caller = some other) (ha : S.Permits a)
    (hreturn : S.ReturnsWhole a) : Serves connects (S.act connects a) := by
  refine ⟨h.whole.act ha hreturn, ?_, fun n hn => h.reachable n ((S.attempts_act h.whole.kept ha).trans hn)⟩
  cases a with
  | call c => exact h.linked.call h.whole c
  | command caller conn ioError => exact h.linked.command conn ioError
  | drop conn => cases hcaller

theorem Serves.proceeds {callers : ι → Prop} (h : Serves connects S) (hp : S.Proceeds connects callers S') :
    Serves connects S' := by
  induction hp with
  | refl => exact h
  | tail _ hstep ih =>
    obtain ⟨a, other, hcaller, -, ha, hreturn, rfl⟩ := hstep
    exact ih.act hcaller ha hreturn

/-- What an operation can rely on while it runs: the connection that it holds, if any, has not failed. -/
structure Relies (connects : Nat → Attempt) (caller : ι) (held : Option Nat) (S : Session ι) : Prop where
  serves : Serves connects S
  holds : ∀ conn, held = some conn → (caller, conn) ∈ S.lending.held ∧ S.err conn = false

variable {held : Option Nat}

omit [DecidableEq ι] in
/-- A command on the connection that it holds is answered. -/
theorem Relies.command {conn : Address} (h : Relies connects caller (some conn) S) :
    S.command conn false = (true, S) := by
  obtain ⟨hheld, herr⟩ := h.holds conn rfl
  have hkept := h.serves.whole.kept
  have hcut := h.serves.linked conn (hkept.held_pooled hheld) herr
  simp [Session.command, hkept.isConnected hheld, herr, hcut]

/-- Another caller's action neither takes the connection away nor lets it fail. -/
theorem Relies.other {other : ι} (h : Relies connects caller held S) (hcaller : a.caller = some other)
    (hother : other ≠ caller) (ha : S.Permits a) (hreturn : S.ReturnsWhole a) :
    Relies connects caller held (S.act connects a) := by
  refine ⟨h.serves.act hcaller ha hreturn, ?_⟩
  intro conn hconn
  obtain ⟨hmem, herr⟩ := h.holds conn hconn
  cases a with
  | call c =>
    have hkeep : (S.call connects c).err conn = false := by
      by_contra hne
      have hbefore := Session.err_call (Bool.eq_true_of_not_eq_false hne)
      rw [herr] at hbefore
      cases hbefore
    refine ⟨?_, hkeep⟩
    cases c with
    | getConnection second =>
      change _ ∈ (S.lending.call connects _).held
      rw [Lending.call]
      generalize S.lending.pool.getConnection connects = answer
      obtain ⟨conn?, P⟩ := answer
      cases conn? with
      | none => exact hmem
      | some new => exact List.mem_cons_of_mem _ hmem
    | returnConnection second conn' =>
      obtain rfl : second = other := Option.some.inj hcaller
      have hne : (caller, conn) ≠ (second, conn') := by
        intro heq
        exact hother (congrArg Prod.fst heq).symm
      exact (List.mem_erase_of_ne hne).2 hmem
  | command second conn' ioError =>
    obtain rfl : second = other := Option.some.inj hcaller
    have hsame : (S.act connects (.command second conn' ioError)).lending = S.lending :=
      S.command_lending conn' ioError
    refine ⟨by rw [hsame]; exact hmem, ?_⟩
    by_contra hne
    rcases Session.err_command (Bool.eq_true_of_not_eq_false hne) with hfailed | rfl
    · rw [herr] at hfailed
      cases hfailed
    · exact hother (h.serves.whole.kept.oneHolder.holder conn second caller ha hmem)
  | drop conn' => cases hcaller

theorem Relies.meanwhile (h : Relies connects caller held S) (hm : S.Meanwhile connects caller S') :
    Relies connects caller held S' := by
  induction hm with
  | refl => exact h
  | tail _ hstep ih =>
    obtain ⟨a, other, hcaller, hother, ha, hreturn, rfl⟩ := hstep
    exact ih.other hcaller hother ha hreturn

/-- One effect of an operation, on whatever the others have left. -/
theorem Relies.effect {e : Effect} {r : e.Answer} (h : Relies connects caller held S)
    (hallowed : borrowing.allows held e) (hs : pooled connects caller e S r S') :
    Relies connects caller (borrowing.next held ⟨e, r⟩) S' ∧ Replied ⟨e, r⟩ := by
  cases e with
  | getConnection =>
    obtain ⟨S₁, hm, rfl, rfl⟩ := hs
    have h₁ := h.meanwhile hm
    obtain ⟨conn, hconn⟩ := Option.ne_none_iff_exists'.1 (RedisPool.getConnection_some h₁.serves.reachable)
    obtain ⟨herr, hheld⟩ := h₁.serves.whole.handsOut caller hconn
    have hserves : Serves connects (S₁.call connects (.getConnection caller)) :=
      h₁.serves.act (a := .call (.getConnection caller)) rfl trivial trivial
    refine ⟨⟨hserves, ?_⟩, conn, ?_⟩
    · intro c hc
      simp only [borrowing, hconn, Option.map_some, Option.some.injEq] at hc
      subst hc
      exact ⟨hheld, herr⟩
    · rw [hconn, Option.map_some, hserves.whole.kept.isConnected hheld]
  | returnConnection redis =>
    obtain ⟨S₁, hm, rfl⟩ := hs
    have h₁ := h.meanwhile hm
    obtain ⟨hheld, herr⟩ := h₁.holds redis.context hallowed
    have hserves : Serves connects (S₁.call connects (.returnConnection caller redis.context)) :=
      h₁.serves.act (a := .call (.returnConnection caller redis.context)) rfl hheld herr
    exact ⟨⟨hserves, fun c hc => (by cases hc)⟩, trivial⟩
  | command conn cmd =>
    obtain ⟨S₁, hm, heq⟩ := hs
    obtain rfl : held = some conn := hallowed
    have h₁ := h.meanwhile hm
    rw [h₁.command] at heq
    obtain ⟨hsome, rfl⟩ := Prod.mk.inj heq
    refine ⟨h₁, ?_⟩
    rintro rfl
    cases hsome
  | systemClock => exact ⟨h.meanwhile hs, trivial⟩
  | indeterminate => exact ⟨h.meanwhile hs, trivial⟩
  | selectWorker taskId => exact ⟨h.meanwhile hs, trivial⟩
  | updateWorkerLoad workerId load => exact ⟨h.meanwhile hs, trivial⟩
  | recordSuccess workerId => exact ⟨h.meanwhile hs, trivial⟩
  | recordFailure workerId => exact ⟨h.meanwhile hs, trivial⟩

/-- An operation that starts while the server can be reached and no link is lost gets what it asks for. -/
theorem Serves.replied {α : Type} {p : Code α} (h : Serves connects S) (hp : Borrows p)
    {τ : List (Event Effect Effect.Answer)} {o : Except StdException α}
    (hrun : Run (pooled connects caller) p S τ o S') :
    ∀ event ∈ τ, Replied event := by
  have hstart : Relies connects caller none S := ⟨h, fun conn hconn => (by cases hconn)⟩
  exact (wp.follows (I := Relies connects caller) (fun hallowed h hs => h.effect hallowed hs) hp hstart).run hrun

theorem pooled_total (e : Effect) (S : Session ι) : ∃ r S', pooled connects caller e S r S' := by
  cases e with
  | getConnection => exact ⟨_, _, S, .refl, rfl, rfl⟩
  | returnConnection redis => exact ⟨(), _, S, .refl, rfl⟩
  | command conn cmd =>
    cases hreplied : (S.command conn false).1 with
    | true => exact ⟨some .nil, _, S, .refl, Prod.ext (by rw [hreplied]; rfl) rfl⟩
    | false => exact ⟨none, _, S, .refl, Prod.ext (by rw [hreplied]; rfl) rfl⟩
  | systemClock => exact ⟨0, S, .refl⟩
  | indeterminate => exact ⟨default, S, .refl⟩
  | selectWorker taskId => exact ⟨[], S, .refl⟩
  | updateWorkerLoad workerId load => exact ⟨(), S, .refl⟩
  | recordSuccess workerId => exact ⟨(), S, .refl⟩
  | recordFailure workerId => exact ⟨(), S, .refl⟩

/-- `popNextTask` on a connection that has lost its link: its first command has no reply. -/
theorem popNextTask_unanswered (caller : ι) (hget : (S.lending.pool.getConnection connects).1 = some conn)
    (hkept : Kept S.lending) (hcut : (S.call connects (.getConnection caller)).cut conn = true) :
    ∃ τ o S', Run (pooled connects caller) popNextTask S τ o S' ∧ ¬ ∀ event ∈ τ, Replied event := by
  have hkept' : Kept (S.call connects (.getConnection caller)).lending :=
    Session.act_kept (a := .call (.getConnection caller)) hkept trivial
  have hconnected := hkept'.isConnected (Kept.held_get hget caller)
  have hfails : ((S.call connects (.getConnection caller)).command conn false).1 = false := by
    simp [Session.command, hconnected, hcut]
  have hprogram : ∃ (k : Option RedisClient → Code Bytes) (cmd : Command) (rest : Option Reply → Code Bytes),
      popNextTask = .call .getConnection k ∧ k (some ⟨conn, true⟩) = .call (.command conn cmd) rest :=
    ⟨_, _, _, rfl, rfl⟩
  obtain ⟨k, cmd, rest, hpop, hfirst⟩ := hprogram
  have htotal : ∀ e S, ∃ r S', pooled connects caller e S r S' := pooled_total
  obtain ⟨τ, o, S', hrest⟩ := exists_run htotal (rest none)
    ((S.call connects (.getConnection caller)).command conn false).2
  have hlpop : Run (pooled connects caller) (k (some ⟨conn, true⟩)) (S.call connects (.getConnection caller))
      (⟨.command conn cmd, none⟩ :: τ) o S' := by
    rw [hfirst]
    exact .call ⟨_, .refl, Prod.ext hfails.symm rfl⟩ hrest
  have hrun : Run (pooled connects caller) popNextTask S
      (⟨.getConnection, some ⟨conn, true⟩⟩ :: ⟨.command conn cmd, none⟩ :: τ) o S' := by
    rw [hpop]
    exact .call ⟨S, .refl, rfl, by rw [hget, ← hconnected]; rfl⟩ hlpop
  refine ⟨_, o, S', hrun, ?_⟩
  intro hreplied
  exact hreplied ⟨.command conn cmd, none⟩ (List.mem_cons_of_mem _ List.mem_cons_self) rfl

theorem Session.proceeds_asks (S : Session ι) (connects : Nat → Attempt) (callers : List ι) :
    S.Proceeds connects (fun _ => True) (S.run connects (asks callers)) := by
  induction callers generalizing S with
  | nil => exact .refl
  | cons caller rest ih =>
    exact .head ⟨.call (.getConnection caller), caller, rfl, trivial, trivial, trivial, rfl⟩ (ih _)

/-- A connection of the pool lies there, or its holder returns it. -/
theorem Whole.comes_free {conn : Address} (h : Whole S) (hconn : conn ∈ S.lending.pool.pool)
    (herr : S.err conn = false) (connects : Nat → Attempt) :
    ∃ (S₁ : Session ι) (i : Nat), S.Proceeds connects (fun _ => True) S₁ ∧ Kept S₁.lending ∧
      S₁.cut = S.cut ∧ S₁.lending.pool.pool[i]? = some conn ∧ S₁.lending.pool.inUse[i]? = some false := by
  obtain ⟨i, hi⟩ := List.mem_iff_getElem?.1 hconn
  have hlt : i < S.lending.pool.inUse.length := by
    rw [← h.kept.lengths]
    exact (List.getElem?_eq_some_iff.1 hi).1
  cases hflag : S.lending.pool.inUse[i] with
  | false => exact ⟨S, i, .refl, h.kept, rfl, hi, List.getElem?_eq_some_iff.2 ⟨hlt, hflag⟩⟩
  | true =>
    obtain ⟨holder, hheld⟩ :=
      (h.kept.oneHolder.inUse_iff i conn hi).1 (List.getElem?_eq_some_iff.2 ⟨hlt, hflag⟩)
    have hreturn : S.Permits (.call (.returnConnection holder conn)) := hheld
    obtain ⟨j, hj, hfree⟩ := h.kept.returned_free connects hheld
    exact ⟨S.act connects (.call (.returnConnection holder conn)), j,
      .single ⟨_, holder, rfl, trivial, hreturn, herr, rfl⟩, Session.act_kept h.kept hreturn,
      (Session.same_return h.kept hheld).2, hj, hfree⟩

/-- A connection that has lost its link unnoticed comes to an operation, whose first command fails. -/
theorem Whole.unanswered {conn : Address} (h : Whole S) (hconn : conn ∈ S.lending.pool.pool)
    (herr : S.err conn = false) (hcut : S.cut conn = true) (connects : Nat → Attempt) (caller : ι) :
    ¬ S.Answers connects := by
  obtain ⟨S₁, i, hreturned, hkept₁, hcuts, hi, hfree⟩ := h.comes_free hconn herr connects
  obtain ⟨n, hget, hkept, L, hcall⟩ := Session.next_after_asks hkept₁ hi hfree connects caller
  obtain ⟨τ, o, S', hrun, hnot⟩ := popNextTask_unanswered caller hget hkept (by rw [hcall, hcuts]; exact hcut)
  intro hanswers
  exact hnot (hanswers _ (hreturned.trans (S₁.proceeds_asks connects _)) .popNextTask caller τ o S' hrun)

end Recovery

/-- The runs in which no connection is returned after its context has failed are exactly those that hand out no
connection with a failed context, neither in the run nor to callers that ask after it.  And where the server is
reachable from then on, every operation of the dispatcher that starts after such a run gets a connection and a
reply to each of its commands, whatever else the callers do that return no failed connection, exactly when no
connection of the pool whose context has not failed has lost its link. -/
theorem unbroken_iff {ι : Type} [DecidableEq ι] [Nonempty ι] {connects : Nat → Attempt}
    {poolSize : Nat} {heap : Heap} {actions : List (Action ι)}
    (hp : Throughout connects Session.Permits (.create connects poolSize heap) actions) :
    (∀ callers, Throughout connects (Session.HandsOutWhole connects) (.create connects poolSize heap)
        (actions ++ asks callers)) ∧
      (let S := (Session.create connects poolSize heap).run connects actions
       S.Reachable connects → S.Answers connects) ↔
    Throughout connects Session.ReturnsWhole (.create connects poolSize heap) actions ∧
      (let S := (Session.create connects poolSize heap).run connects actions
       S.Reachable connects → S.Linked) := by
  have hstart : Whole (Session.create connects poolSize heap : Session ι) := whole_create connects poolSize heap
  constructor
  · intro ⟨hout, hanswers⟩
    have hreturns := (hstart.handsOut_iff hp).1 hout
    refine ⟨hreturns, ?_⟩
    intro S hreach conn hconn herr
    have hwhole : Whole S := (hstart.throughout hp hreturns).2
    by_contra hne
    obtain ⟨caller⟩ := ‹Nonempty ι›
    exact hwhole.unanswered hconn herr (Bool.eq_true_of_not_eq_false hne) connects caller (hanswers hreach)
  · intro ⟨hreturns, hlinked⟩
    refine ⟨(hstart.handsOut_iff hp).2 hreturns, ?_⟩
    intro S hreach S₁ hproceeds α p hoperation caller τ o S' hrun
    have hserves : Serves connects S := ⟨(hstart.throughout hp hreturns).2, hlinked hreach, hreach⟩
    exact (hserves.proceeds hproceeds).replied hoperation.borrows hrun

/-- The server drops the link of the first caller, whose command fails and who keeps its connection; the second
caller returns one whose link is there. -/
def droppedWhileHeld : List (Action Nat) :=
  [.call (.getConnection 0), .drop 0, .command 0 0 false, .call (.getConnection 1), .command 1 1 false,
    .call (.returnConnection 1 1)]

theorem unbroken_iff_kept :
    let connects : Nat → Attempt := fun n => .context n false
    let start : Session Nat := .create connects 1 ⟨[], 0⟩
    (∀ callers, Throughout connects (Session.HandsOutWhole connects) start (droppedWhileHeld ++ asks callers)) ∧
      (start.run connects droppedWhileHeld).Answers connects := by
  intro connects start
  have hp : Throughout connects Session.Permits start droppedWhileHeld := by decide
  have hreturns : Throughout connects Session.ReturnsWhole start droppedWhileHeld := by decide
  have hlinked : (start.run connects droppedWhileHeld).Linked := by decide
  obtain ⟨hout, hanswers⟩ := (unbroken_iff hp).2 ⟨hreturns, fun _ => hlinked⟩
  exact ⟨hout, hanswers fun n _ => ⟨n, rfl⟩⟩

/-- One command whose I/O fails; its caller returns the connection, and the next one gets it. -/
theorem failed_connection_handed_out : ¬ ∀ (connects : Nat → Attempt) (poolSize : Nat) (heap : Heap)
    (actions : List (Action Nat)), Throughout connects Session.Permits (.create connects poolSize heap) actions →
      Throughout connects (Session.HandsOutWhole connects) (.create connects poolSize heap) actions := by
  intro h
  let connects : Nat → Attempt := fun n => .context n false
  have hrun := h connects 1 ⟨[], 0⟩ [.call (.getConnection 0), .command 0 0 true, .call (.returnConnection 0 0),
    .call (.getConnection 1)] (by decide)
  have hwhole := hrun.2.2.2.1 0 (by decide)
  exact absurd hwhole (by decide)

end Pooling

end Taskflow
