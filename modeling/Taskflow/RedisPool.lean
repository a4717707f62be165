import Taskflow.Lib.Slots

/-!
# `RedisPool`

`RedisPool` and the connection handling of `RedisClient` (`src/common/redis_client.cpp`).  The clients are objects
on the heap, which `pool_` shares with whoever holds a connection, so the pool is a list of addresses.  Each call
runs under the pool's mutex, so a run is a sequence of calls.

`one_holder`: whatever the callers do and whichever connection attempts fail, a connection has one holder at most
and the pool grows only when all its connections are held.
-/

namespace Taskflow

open Slots

namespace Pooling

/-! ### The code -/

/-- A `RedisClient` object: its context, which may be null, and the flag `connected_`. -/
structure Client where
  context : Option Nat
  connected : Bool
  deriving DecidableEq, Repr

/-- What `redisConnectWithTimeout` returns: a null pointer, or a context, which may have its member `err` set. -/
inductive Attempt where
  | null
  | context (ctx : Nat) (err : Bool)

abbrev Address := Nat

/-- The clients allocated so far and the number of connection attempts made so far. -/
structure Heap where
  clients : List Client
  attempts : Nat

structure RedisPool where
  poolSize : Nat
  pool : List Address
  inUse : List Bool
  heap : Heap

namespace Heap

variable (connects : Nat → Attempt)

def isConnected (H : Heap) (client : Address) : Bool := (H.clients[client]?).any (·.connected)

/-- `std::make_shared<RedisClient>(host_, port_)` -/
def makeShared (H : Heap) : Address × Heap :=
  (H.clients.length, { H with clients := H.clients ++ [⟨none, false⟩] })

/-- `RedisClient::connect`; attempt number `n` of the process has the outcome `connects n`. -/
def connect (H : Heap) (client : Address) : Bool × Heap :=
  match H.clients[client]? with
  | none => (false, H)
  | some c =>
    if c.connected && c.context.isSome then (true, H)
    else
      match connects H.attempts with
      | .context ctx false => (true, ⟨H.clients.set client ⟨some ctx, true⟩, H.attempts + 1⟩)
      -- a context with `err` set is freed
      | .context _ true => (false, ⟨H.clients.set client ⟨none, false⟩, H.attempts + 1⟩)
      | .null => (false, ⟨H.clients.set client ⟨none, false⟩, H.attempts + 1⟩)

end Heap

namespace RedisPool

variable (connects : Nat → Attempt)

/-- The loop of the constructor. -/
def fill : Nat → RedisPool → RedisPool
  | 0, P => P
  | n + 1, P =>
    let (client, heap) := P.heap.makeShared
    let (ok, heap) := heap.connect connects client
    if ok then fill n { P with pool := P.pool ++ [client], inUse := P.inUse ++ [false], heap := heap }
    else fill n { P with heap := heap }

/-- The constructor. -/
def create (poolSize : Nat) (heap : Heap) : RedisPool := fill connects poolSize ⟨poolSize, [], [], heap⟩

/-- The loop of `getConnection` over the indices that are left. -/
def takeFree : List Nat → RedisPool → Option Address × RedisPool
  | [], P => (none, P)
  | i :: rest, P =>
    match P.pool[i]?, P.inUse[i]? with
    | some client, some false =>
      let (ok, heap) := if P.heap.isConnected client then (true, P.heap) else P.heap.connect connects client
      if ok then (some client, { P with inUse := P.inUse.set i true, heap := heap })
      else takeFree rest { P with heap := heap }
    | _, _ => takeFree rest P

/-- `getConnection`; the answer `none` is `nullptr`. -/
def getConnection (P : RedisPool) : Option Address × RedisPool :=
  match takeFree connects (List.range P.pool.length) P with
  | (some client, P) => (some client, P)
  | (none, P) =>
    let (client, heap) := P.heap.makeShared
    let (ok, heap) := heap.connect connects client
    if ok then (some client, { P with pool := P.pool ++ [client], inUse := P.inUse ++ [true], heap := heap })
    else (none, { P with heap := heap })

/-- The loop of `returnConnection` over the indices that are left. -/
def release (conn : Address) : List Nat → RedisPool → RedisPool
  | [], P => P
  | i :: rest, P =>
    if P.pool[i]? == some conn then { P with inUse := P.inUse.set i false } else release conn rest P

def returnConnection (conn : Address) (P : RedisPool) : RedisPool := release conn (List.range P.pool.length) P

def getActiveConnections (P : RedisPool) : Nat :=
  P.inUse.foldl (fun count inUse => if inUse then count + 1 else count) 0

end RedisPool

/-! ### Runs -/

inductive Call (ι : Type) where
  | getConnection (caller : ι)
  | returnConnection (caller : ι) (conn : Address)

/-- The pool and who holds which of its connections. -/
structure Lending (ι : Type) where
  pool : RedisPool
  held : List (ι × Address)

section Runs

variable {ι : Type} [DecidableEq ι] (connects : Nat → Attempt)

/-- What a call does to the pool and to the holdings of its caller. -/
def Lending.call (L : Lending ι) : Call ι → Lending ι
  | .getConnection caller =>
    match L.pool.getConnection connects with
    | (some conn, P) => ⟨P, (caller, conn) :: L.held⟩
    | (none, P) => ⟨P, L.held⟩
  | .returnConnection caller conn => ⟨L.pool.returnConnection conn, L.held.erase (caller, conn)⟩

/-- A caller returns only a connection it holds. -/
def Lending.Permits (L : Lending ι) : Call ι → Prop
  | .getConnection _ => True
  | .returnConnection caller conn => (caller, conn) ∈ L.held

/-- `Lent connects start peak L`: calls that were all permitted lead from `start` to `L`, and `peak` is the largest
number of connections held at once on the way. -/
inductive Lent (start : Lending ι) : Nat → Lending ι → Prop
  | start : Lent start start.held.length start
  | call {peak : Nat} {L : Lending ι} (c : Call ι) (hrun : Lent start peak L) (hc : L.Permits c) :
      Lent start (max peak (L.call connects c).held.length) (L.call connects c)

end Runs

/-! ### What each operation does -/

namespace Heap

variable {connects : Nat → Attempt} {H : Heap} {client other : Address}

theorem isConnected_iff : H.isConnected client = true ↔ ∃ c, H.clients[client]? = some c ∧
    c.connected = true := by
  simp [isConnected, Option.any_eq_true]

theorem not_isConnected_fresh : H.isConnected H.makeShared.1 = false := by
  simp [isConnected, makeShared]

theorem isConnected_makeShared (h : H.isConnected client = true) : H.makeShared.2.isConnected client = true := by
  obtain ⟨c, hc, hconnected⟩ := isConnected_iff.1 h
  have hlt : client < H.clients.length := (List.getElem?_eq_some_iff.1 hc).1
  refine isConnected_iff.2 ⟨c, ?_, hconnected⟩
  rw [makeShared, List.getElem?_append_left hlt]
  exact hc

/-- An attempt for one client leaves the others as they are. -/
theorem isConnected_connect (h : H.isConnected other = true) (hne : other ≠ client) :
    (H.connect connects client).2.isConnected other = true := by
  obtain ⟨c, hc, hconnected⟩ := isConnected_iff.1 h
  have hset (v : Client) : (H.clients.set client v)[other]? = some c := by
    rw [List.getElem?_set_ne hne.symm]
    exact hc
  unfold connect
  split
  · exact h
  · split
    · exact h
    · split
      · exact isConnected_iff.2 ⟨c, hset _, hconnected⟩
      · exact isConnected_iff.2 ⟨c, hset _, hconnected⟩
      · exact isConnected_iff.2 ⟨c, hset _, hconnected⟩

theorem connected_of_connect (hok : (H.connect connects client).1 = true) :
    (H.connect connects client).2.isConnected client = true := by
  unfold connect at hok ⊢
  cases hclient : H.clients[client]? with
  | none => simp [hclient] at hok
  | some c =>
    have hlt : client < H.clients.length := (List.getElem?_eq_some_iff.1 hclient).1
    simp only [hclient] at hok ⊢
    by_cases hkeep : (c.connected && c.context.isSome) = true
    · simp only [hkeep, if_true]
      exact isConnected_iff.2 ⟨c, hclient, (Bool.and_eq_true_iff.1 hkeep).1⟩
    · simp only [hkeep] at hok ⊢
      cases hattempt : connects H.attempts with
      | null => simp [hattempt] at hok
      | context ctx err =>
        cases err with
        | true => simp [hattempt] at hok
        | false => exact isConnected_iff.2 ⟨⟨some ctx, true⟩, by simp [hlt], rfl⟩

/-- The client that `make_shared` makes next, after one attempt to connect it. -/
theorem connect_fresh (connects : Nat → Attempt) (H : Heap) :
    ((H.makeShared.2.connect connects H.makeShared.1).1 = true →
      (H.makeShared.2.connect connects H.makeShared.1).2.isConnected H.makeShared.1 = true) ∧
    ∀ p, H.isConnected p = true → (H.makeShared.2.connect connects H.makeShared.1).2.isConnected p = true := by
  refine ⟨connected_of_connect, ?_⟩
  intro p hp
  have hne : p ≠ H.makeShared.1 := by
    intro heq
    rw [heq, not_isConnected_fresh] at hp
    cases hp
  exact isConnected_connect (isConnected_makeShared hp) hne

end Heap

namespace RedisPool

variable {connects : Nat → Attempt} {P : RedisPool}

/-- All pooled clients are connected. -/
def Connected (P : RedisPool) : Prop := ∀ client ∈ P.pool, P.heap.isConnected client = true

theorem Connected.fresh (h : P.Connected) : P.heap.makeShared.1 ∉ P.pool := by
  intro hmem
  have hc := h _ hmem
  rw [Heap.not_isConnected_fresh] at hc
  cases hc

/-- The first free slot is taken, since its client is connected. -/
theorem takeFree_cases (hconn : P.Connected) (slots : List Nat) :
    (P.takeFree connects slots = (none, P) ∧
      ∀ i ∈ slots, i < P.pool.length → P.inUse[i]? ≠ some false) ∨
    ∃ (i : Nat) (client : Address), P.pool[i]? = some client ∧ P.inUse[i]? = some false ∧
      P.takeFree connects slots = (some client, { P with inUse := P.inUse.set i true }) := by
  induction slots with
  | nil => exact .inl ⟨rfl, fun i hi => nomatch hi⟩
  | cons i rest ih =>
    by_cases hfree : ∃ client, P.pool[i]? = some client ∧ P.inUse[i]? = some false
    · obtain ⟨client, hclient, hflag⟩ := hfree
      have hc : P.heap.isConnected client = true := hconn client (List.mem_of_getElem? hclient)
      exact .inr ⟨i, client, hclient, hflag, by simp [takeFree, hclient, hflag, hc]⟩
    · have hskip : P.takeFree connects (i :: rest) = P.takeFree connects rest := by
        rw [takeFree]
        split
        · rename_i client hclient hflag
          exact absurd ⟨client, hclient, hflag⟩ hfree
        · rfl
      rw [hskip]
      refine ih.imp_left ?_
      intro ⟨hnone, hrest⟩
      refine ⟨hnone, ?_⟩
      intro j hj hlt hflag
      rcases List.mem_cons.1 hj with rfl | hj
      · exact hfree ⟨P.pool[j], List.getElem?_eq_getElem hlt, hflag⟩
      · exact hrest j hj hlt hflag

/-- What `getConnection` does: it takes a free slot, or adds a client when there is none, or fails to connect it. -/
inductive Gets (P : RedisPool) : Option Address → RedisPool → Prop
  | taken {i : Nat} {client : Address} (hclient : P.pool[i]? = some client) (hfree : P.inUse[i]? = some false) :
      Gets P (some client) { P with inUse := P.inUse.set i true }
  | grown {client : Address} {heap : Heap} (hfull : false ∉ P.inUse) (hnew : client ∉ P.pool)
      (hclient : heap.isConnected client = true)
      (hkeep : ∀ p, P.heap.isConnected p = true → heap.isConnected p = true) :
      Gets P (some client) { P with pool := P.pool ++ [client], inUse := P.inUse ++ [true], heap := heap }
  | failed {heap : Heap} (hkeep : ∀ p, P.heap.isConnected p = true → heap.isConnected p = true) :
      Gets P none { P with heap := heap }

theorem getConnection_gets (connects : Nat → Attempt) (hl : P.pool.length = P.inUse.length) (hconn : P.Connected) :
    Gets P (P.getConnection connects).1 (P.getConnection connects).2 := by
  obtain ⟨hnone, hbusy⟩ | ⟨i, client, hclient, hfree, htake⟩ := takeFree_cases hconn (List.range P.pool.length)
  · obtain ⟨hfresh, hkeep⟩ := Heap.connect_fresh connects P.heap
    have hfull : false ∉ P.inUse := by
      intro hmem
      obtain ⟨i, hi⟩ := List.mem_iff_getElem?.1 hmem
      have hlt : i < P.inUse.length := (List.getElem?_eq_some_iff.1 hi).1
      have hrange : i < P.pool.length := by omega
      exact hbusy i (List.mem_range.2 hrange) hrange hi
    by_cases hok : (P.heap.makeShared.2.connect connects P.heap.makeShared.1).1 = true
    · have hget : P.getConnection connects = (some P.heap.makeShared.1,
        ⟨P.poolSize, P.pool ++ [P.heap.makeShared.1],
          P.inUse ++ [true], (P.heap.makeShared.2.connect connects P.heap.makeShared.1).2⟩) := by
        rw [getConnection, hnone]
        exact if_pos hok
      rw [hget]
      exact .grown hfull hconn.fresh (hfresh hok) hkeep
    · have hget : P.getConnection connects = (none, ⟨P.poolSize, P.pool, P.inUse,
          (P.heap.makeShared.2.connect connects P.heap.makeShared.1).2⟩) := by
        rw [getConnection, hnone]
        exact if_neg hok
      rw [hget]
      exact .failed hkeep
  · have hget : P.getConnection connects = (some client, { P with inUse := P.inUse.set i true }) := by
      rw [getConnection, htake]
    rw [hget]
    exact .taken hclient hfree

theorem release_eq {i : Nat} {conn : Address} (hnodup : P.pool.Nodup) (hi : P.pool[i]? = some conn)
    {slots : List Nat} (hmem : i ∈ slots) : P.release conn slots = { P with inUse := P.inUse.set i false } := by
  induction slots with
  | nil => cases hmem
  | cons j rest ih =>
    by_cases hj : P.pool[j]? = some conn
    · have hlt : i < P.pool.length := (List.getElem?_eq_some_iff.1 hi).1
      have hij : i = j := (List.getElem?_inj hlt hnodup).1 (hi.trans hj.symm)
      subst hij
      simp [release, hi]
    · have hrest : i ∈ rest := by
        rcases List.mem_cons.1 hmem with rfl | hrest
        · exact absurd hi hj
        · exact hrest
      have hskip : P.release conn (j :: rest) = P.release conn rest := by simp [release, hj]
      rw [hskip, ih hrest]

/-- A connection of the pool is returned to its one slot. -/
theorem returnConnection_eq {i : Nat} {conn : Address} (hnodup : P.pool.Nodup) (hi : P.pool[i]? = some conn) :
    P.returnConnection conn = { P with inUse := P.inUse.set i false } := by
  have hlt : i < P.pool.length := (List.getElem?_eq_some_iff.1 hi).1
  exact release_eq hnodup hi (List.mem_range.2 hlt)

theorem getActiveConnections_eq (P : RedisPool) : P.getActiveConnections = P.inUse.count true := by
  have hfold (flags : List Bool) (n : Nat) :
      flags.foldl (fun count inUse => if inUse then count + 1 else count) n = n + flags.count true := by
    induction flags generalizing n with
    | nil => rfl
    | cons f flags ih =>
      rw [List.foldl_cons, ih]
      cases f with
      | true =>
        simp
        omega
      | false => simp
  have h := hfold P.inUse 0
  rw [Nat.zero_add] at h
  exact h

end RedisPool

section Invariant

variable {ι : Type}

/-- The pool as its callers see it: the connections they hold are those marked in use. -/
structure Kept (L : Lending ι) : Prop where
  lengths : L.pool.pool.length = L.pool.inUse.length
  nodup : L.pool.pool.Nodup
  connected : L.pool.Connected
  held : (L.held.map (·.2)).Perm (marked L.pool.pool L.pool.inUse)

variable {L : Lending ι}

theorem Kept.fill (connects : Nat → Attempt) (n : Nat) {P : RedisPool} (h : Kept (⟨P, []⟩ : Lending ι)) :
    Kept (⟨P.fill connects n, []⟩ : Lending ι) := by
  induction n generalizing P with
  | zero => exact h
  | succ n ih =>
    obtain ⟨hfresh, hkeep⟩ := Heap.connect_fresh connects P.heap
    have hconn : ∀ client ∈ P.pool, _ := fun client hc => hkeep client (h.connected client hc)
    have hnew : P.heap.makeShared.1 ∉ P.pool := h.connected.fresh
    rw [RedisPool.fill]
    by_cases hok : (P.heap.makeShared.2.connect connects P.heap.makeShared.1).1 = true
    · dsimp only
      rw [if_pos hok]
      refine ih ⟨?_, nodup_append_singleton h.nodup hnew, ?_, ?_⟩
      · simp [h.lengths]
      · intro client hc
        rcases List.mem_append.1 hc with hc | hc
        · exact hconn client hc
        · exact List.mem_singleton.1 hc ▸ hfresh hok
      · rw [marked_append h.lengths]
        simpa using h.held
    · dsimp only
      rw [if_neg hok]
      exact ih ⟨h.lengths, h.nodup, hconn, h.held⟩

/-- The constructor makes a pool of connected clients, none in use. -/
theorem kept_create (connects : Nat → Attempt) (poolSize : Nat) (heap : Heap) :
    Kept (⟨RedisPool.create connects poolSize heap, []⟩ : Lending ι) := by
  refine Kept.fill connects poolSize ⟨rfl, List.nodup_nil, ?_, List.Perm.nil⟩
  intro client hc
  cases hc

theorem Kept.held_le (h : Kept L) : L.held.length ≤ L.pool.pool.length := by
  have := h.held.length_eq
  rw [List.length_map] at this
  rw [this]
  exact marked_sublist.length_le

theorem Kept.mem_held (h : Kept L) {conn : Address} :
    conn ∈ marked L.pool.pool L.pool.inUse ↔ ∃ caller, (caller, conn) ∈ L.held := by
  rw [← h.held.mem_iff, List.mem_map]
  constructor
  · intro ⟨⟨caller, p⟩, hmem, hp⟩
    exact ⟨caller, hp ▸ hmem⟩
  · intro ⟨caller, hmem⟩
    exact ⟨_, hmem, rfl⟩

/-- What a caller can rely on: no other holder of its connection, and vectors that say who holds what. -/
structure OneHolder (L : Lending ι) : Prop where
  lengths : L.pool.pool.length = L.pool.inUse.length
  nodup : L.pool.pool.Nodup
  inUse_iff : ∀ (i : Nat) (conn : Address), L.pool.pool[i]? = some conn →
    (L.pool.inUse[i]? = some true ↔ ∃ caller, (caller, conn) ∈ L.held)
  holder : ∀ conn caller caller', (caller, conn) ∈ L.held → (caller', conn) ∈ L.held → caller = caller'
  once : L.held.Nodup
  active : L.pool.getActiveConnections = L.held.length

theorem Kept.oneHolder (h : Kept L) : OneHolder L := by
  have hnodup : (L.held.map (·.2)).Nodup := h.held.nodup_iff.2 (h.nodup.sublist marked_sublist)
  refine ⟨h.lengths, h.nodup, ?_, ?_, hnodup.of_map, ?_⟩
  · intro i conn hi
    rw [← h.mem_held, mem_marked]
    constructor
    · intro hflag
      exact ⟨i, hi, hflag⟩
    · intro ⟨j, hj, hflag⟩
      have hlt : i < L.pool.pool.length := (List.getElem?_eq_some_iff.1 hi).1
      have hij : i = j := (List.getElem?_inj hlt h.nodup).1 (hi.trans hj.symm)
      rw [hij]
      exact hflag
  · intro conn caller caller' hmem hmem'
    have heq := List.inj_on_of_nodup_map hnodup hmem hmem' rfl
    exact congrArg Prod.fst heq
  · have hlen := h.held.length_eq
    rw [List.length_map, length_marked h.lengths] at hlen
    rw [RedisPool.getActiveConnections_eq, hlen]

variable [DecidableEq ι] {connects : Nat → Attempt}

theorem Kept.call (h : Kept L) {c : Call ι} (hc : L.Permits c) : Kept (L.call connects c) := by
  cases c with
  | getConnection caller =>
    have hgets := RedisPool.getConnection_gets connects h.lengths h.connected
    generalize hget : L.pool.getConnection connects = answer at hgets
    obtain ⟨conn?, P⟩ := answer
    rw [Lending.call, hget]
    cases hgets with
    | taken hclient hfree =>
      refine ⟨by simp [h.lengths], h.nodup, h.connected, ?_⟩
      exact (h.held.cons _).trans (marked_set_true hclient hfree).symm
    | grown hfull hnew hclient hkeep =>
      refine ⟨by simp [h.lengths], nodup_append_singleton h.nodup hnew, ?_, ?_⟩
      · intro p hp
        rcases List.mem_append.1 hp with hp | hp
        · exact hkeep p (h.connected p hp)
        · exact List.mem_singleton.1 hp ▸ hclient
      · rw [marked_append h.lengths]
        exact (h.held.cons _).trans (List.perm_append_singleton _ _).symm
    | failed hkeep => exact ⟨h.lengths, h.nodup, fun p hp => hkeep p (h.connected p hp), h.held⟩
  | returnConnection caller conn =>
    have hmem : conn ∈ marked L.pool.pool L.pool.inUse :=
      h.held.mem_iff.1 (List.mem_map_of_mem hc)
    obtain ⟨i, hi, hflag⟩ := mem_marked.1 hmem
    rw [Lending.call, RedisPool.returnConnection_eq h.nodup hi]
    refine ⟨by simp [h.lengths], h.nodup, h.connected, ?_⟩
    have herase : (L.held.map (·.2)).Perm (conn :: (L.held.erase (caller, conn)).map (·.2)) :=
      (List.perm_cons_erase hc).map (·.2)
    have hmarked := marked_set_false hi hflag
    exact (herase.symm.trans (h.held.trans hmarked.symm)).cons_inv

/-- A call leaves the size as it is, or every connection was held and one more is now. -/
theorem Kept.call_size (h : Kept L) (connects : Nat → Attempt) (c : Call ι) :
    (L.call connects c).pool.pool.length = L.pool.pool.length ∨
      false ∉ L.pool.inUse ∧ (L.call connects c).pool.pool.length = L.pool.pool.length + 1 ∧
        (L.call connects c).held.length = L.pool.pool.length + 1 := by
  cases c with
  | getConnection caller =>
    have hgets := RedisPool.getConnection_gets connects h.lengths h.connected
    generalize hget : L.pool.getConnection connects = answer at hgets
    obtain ⟨conn?, P⟩ := answer
    rw [Lending.call, hget]
    cases hgets with
    | taken hclient hfree => exact .inl rfl
    | grown hfull hnew hclient hkeep =>
      have hheld : L.held.length = L.pool.pool.length := by
        have := h.held.length_eq
        rw [List.length_map, length_marked_of_full h.lengths hfull] at this
        exact this
      exact .inr ⟨hfull, by simp, by simp [hheld]⟩
    | failed hkeep => exact .inl rfl
  | returnConnection caller conn =>
    refine .inl ?_
    have hpool (slots : List Nat) : (L.pool.release conn slots).pool = L.pool.pool := by
      induction slots with
      | nil => rfl
      | cons i rest ih =>
        rw [RedisPool.release]
        split
        · rfl
        · exact ih
    exact congrArg List.length (hpool _)

variable {start : Lending ι} {peak : Nat}

theorem Kept.lent (h : Kept start) (hrun : Lent connects start peak L) : Kept L := by
  induction hrun with
  | start => exact h
  | call c _ hc ih => exact ih.call hc

/-- The size of the pool is the larger of its initial size and the peak of the connections held at once. -/
theorem Kept.lent_size (h : Kept start) (hrun : Lent connects start peak L) :
    L.pool.pool.length = max start.pool.pool.length peak := by
  induction hrun with
  | start =>
    have := h.held_le
    omega
  | @call peak L c hrun hc ih =>
    have hL : Kept L := h.lent hrun
    have hle : (L.call connects c).held.length ≤ (L.call connects c).pool.pool.length := (hL.call hc).held_le
    rcases hL.call_size connects c with hsame | ⟨_, hgrown, hheld⟩
    · omega
    · omega

end Invariant

/-- Whatever the callers do, as long as each of them returns only what it holds, and whichever connection attempts
fail: every connection has one holder at most, and the pool has grown no further than its callers made it. -/
theorem one_holder {ι : Type} [DecidableEq ι] {connects : Nat → Attempt} {poolSize peak : Nat} {heap : Heap}
    {L : Lending ι} (hrun : Lent connects ⟨.create connects poolSize heap, []⟩ peak L) :
    OneHolder L ∧
      (∀ c, L.pool.pool.length < (L.call connects c).pool.pool.length →
        ∀ conn ∈ L.pool.pool, ∃ caller, (caller, conn) ∈ L.held) ∧
      L.pool.pool.length = max (RedisPool.create connects poolSize heap).pool.length peak := by
  have hstart : Kept (⟨.create connects poolSize heap, []⟩ : Lending ι) := kept_create connects poolSize heap
  have h : Kept L := hstart.lent hrun
  refine ⟨h.oneHolder, ?_, hstart.lent_size hrun⟩
  intro c hgrows conn hconn
  rcases h.call_size connects c with hsame | ⟨hfull, _, _⟩
  · omega
  · exact h.mem_held.1 (mem_marked_of_full h.lengths hfull hconn)

/-- Two callers at once make a pool of one connection grow to two, and then the first one returns its connection. -/
theorem one_holder_grown :
    ∃ L L' : Lending Nat,
      Lent (fun n => .context n false) ⟨.create (fun n => .context n false) 1 ⟨[], 0⟩, []⟩ 2 L ∧
      L.held = [(1, 1), (0, 0)] ∧ OneHolder L ∧ L.pool.pool.length = max 1 2 ∧
      Lent (fun n => .context n false) ⟨.create (fun n => .context n false) 1 ⟨[], 0⟩, []⟩ 2 L' ∧
      L'.held = [(1, 1)] ∧ OneHolder L' := by
  let connects : Nat → Attempt := fun n => .context n false
  have hstart : Lent connects (⟨.create connects 1 ⟨[], 0⟩, []⟩ : Lending Nat) 0 _ := .start
  have hfirst := hstart.call (.getConnection 0) trivial
  have hrun := hfirst.call (.getConnection 1) trivial
  have hreturned := hrun.call (.returnConnection 0 0) (List.mem_cons_of_mem _ List.mem_cons_self)
  exact ⟨_, _, hrun, rfl, (one_holder hrun).1, (one_holder hrun).2.2, hreturned, rfl, (one_holder hreturned).1⟩

end Pooling

end Taskflow
