import Taskflow.EtcdCodec

/-!
# The refresh of a registration

etcd with leases, and the iterations of the refresh loop of `ServiceRegistry`.  An iteration reads the value
back from etcd and writes what it has read, bound to a new lease; it keeps no copy.  So once the key is gone, an
iteration in which everything succeeds leaves the service unregistered, and so do all that follow.

`refresh_keeps_iff`: the iterations without a failing request keep the service registered exactly when each of them
finds the key with its value.
-/

namespace Taskflow

open Text Effects Prog EtcdClient

/-! ### etcd with leases -/

/-- What etcd holds: under each key the value that was put and the lease it is bound to, and the leases that
live. -/
structure LeaseStore where
  pairs : StringMap (Bytes × Option Int64)
  leases : List Int64

namespace LeaseStore

/-- Leases run out, and the keys bound to them are deleted. -/
def expire (w : LeaseStore) (gone : List Int64) : LeaseStore :=
  ⟨w.pairs.filter fun _ pair => pair.2.all fun lease => !gone.contains lease,
    w.leases.filter fun lease => !gone.contains lease⟩

/-- A put with a lease that does not live is refused. -/
def Accepts (w : LeaseStore) (leaseId : Int64) : Prop := 0 < leaseId → leaseId ∈ w.leases

/-- A lease id that is not positive is not sent. -/
def put (w : LeaseStore) (key value : Bytes) (leaseId : Int64) : LeaseStore :=
  { w with pairs := w.pairs.insert key (value, if 0 < leaseId then some leaseId else none) }

def grant (w : LeaseStore) (leaseId : Int64) : LeaseStore := { w with leases := leaseId :: w.leases }

/-- What a client reads: `readBack` is what a range request gives for a value that was put, after the codec. -/
def contents (w : LeaseStore) (readBack : Bytes → Bytes) : EtcdStore := w.pairs.map fun _ pair => readBack pair.1

end LeaseStore

/-- The client finds the id of the new lease in the response to a grant. -/
def NamesLease (text : Bytes) (leaseId : Int64) : Prop :=
  ∃ digits, searchAfter (bytes "\"ID\":") leadingDigits text = some digits ∧ stoll digits = .ok leaseId

/-- How etcd answers a request.  `faulty` permits any request to fail; one that fails may have taken effect or
not. -/
def leaseRequest (readBack : Bytes → Bytes) (faulty : Prop) : Semantics EtcdEffect EtcdEffect.Answer LeaseStore
  | .range key rangeEnd, w, r, w' =>
    w' = w ∧ (r = some ((w.contents readBack).range key rangeEnd) ∨ faulty ∧ r = none)
  | .put key value leaseId, w, r, w' =>
    (w.Accepts leaseId ∧ w' = w.put key value leaseId ∧ (r = true ∨ faulty)) ∨
      (r = false ∧ w' = w ∧ (faulty ∨ ¬ w.Accepts leaseId))
  | .del key, w, r, w' =>
    (w' = { w with pairs := w.pairs.erase key } ∧ (r = true ∨ faulty)) ∨ (faulty ∧ r = false ∧ w' = w)
  | .leaseGrant _, w, r, w' =>
    (∃ text leaseId, NamesLease text leaseId ∧ 0 < leaseId ∧ leaseId ∉ w.leases ∧ w' = w.grant leaseId ∧
      (r = some text ∨ faulty ∧ r = none)) ∨ (faulty ∧ r = none ∧ w' = w)
  | .leaseKeepAlive _, w, r, w' => w' = w ∧ (r = true ∨ faulty)
  | .leaseRevoke leaseId, w, r, w' => (w' = w.expire [leaseId] ∧ (r = true ∨ faulty)) ∨
      (faulty ∧ r = false ∧ w' = w)
  | .indeterminate, w, _, w' => w' = w

/-- Before each request any leases may have run out. -/
def etcdLeased (readBack : Bytes → Bytes) (faulty : Prop) : Semantics EtcdEffect EtcdEffect.Answer LeaseStore :=
  fun e w r w' => ∃ gone, gone ⊆ w.leases ∧ leaseRequest readBack faulty e (w.expire gone) r w'

/-! ### `ServiceRegistry` -/

def ServiceRegistry.registerService (client : Bool) (name id address : Bytes) (port : Int32)
    (metadata : StringMap Bytes) : EtcdCode Bool := do
  if !client then return false
  let leaseId ← EtcdClient.registerService name id address port metadata 10
  return decide (0 < leaseId)

/-- What the loop of `startRefreshLoop` does after each sleep, as long as it is not stopped. -/
def ServiceRegistry.refreshIteration (client : Bool) (name id : Bytes) : EtcdCode Unit := do
  if client && !name.isEmpty && !id.isEmpty then
    let _ ← refreshService name id

/-- One iteration: the requests with their answers, how it ended, and what etcd holds then. -/
structure Iteration where
  events : List (Event EtcdEffect EtcdEffect.Answer)
  outcome : Except StdException Unit
  store : LeaseStore

/-- The iterations of the loop, one after the other; an exception ends the process. -/
inductive RefreshLoop (S : Semantics EtcdEffect EtcdEffect.Answer LeaseStore) (name id : Bytes) :
    LeaseStore → List Iteration → Prop
  | stop (w : LeaseStore) : RefreshLoop S name id w []
  | iterate {w : LeaseStore} {it : Iteration} {rest : List Iteration}
      (hrun : Run S (ServiceRegistry.refreshIteration true name id) w it.events it.outcome it.store)
      (hrest : RefreshLoop S name id it.store rest) (hok : it.outcome = .ok () ∨ rest = []) :
      RefreshLoop S name id w (it :: rest)

/-- A request that was answered with success. -/
def Succeeded : Event EtcdEffect EtcdEffect.Answer → Prop
  | ⟨.range _ _, r⟩ => r ≠ none
  | ⟨.put _ _ _, r⟩ => r = true
  | ⟨.del _, r⟩ => r = true
  | ⟨.leaseGrant _, r⟩ => r ≠ none
  | ⟨.leaseKeepAlive _, r⟩ => r = true
  | ⟨.leaseRevoke _, r⟩ => r = true
  | ⟨.indeterminate, _⟩ => True

def Iteration.AllSucceed (it : Iteration) : Prop := ∀ event ∈ it.events, Succeeded event

/-- After the iteration the key exists with its value, bound to a lease that was granted in it. -/
def Iteration.Registered (key value : Bytes) (it : Iteration) : Prop :=
  ∃ ttlSeconds text leaseId, ⟨.leaseGrant ttlSeconds, some text⟩ ∈ it.events ∧ NamesLease text leaseId ∧
    it.store.pairs[key]? = some (value, some leaseId)

/-- The range request of the iteration finds the key. -/
def Iteration.Finds (key : Bytes) (it : Iteration) : Prop :=
  ∃ pairs, ⟨.range key none, some pairs⟩ ∈ it.events ∧ pairs ≠ []

/-- The range request of the iteration finds the key with this value. -/
def Iteration.FindsValue (key value : Bytes) (it : Iteration) : Prop :=
  ⟨.range key none, some [(key, value)]⟩ ∈ it.events

/-- `refreshService` gets past the searches for the address and the port. -/
def Refreshable (name id value : Bytes) : Prop :=
  name ≠ [] ∧ id ≠ [] ∧ ∃ info, readEndpoint ⟨name, id, [], 0⟩ value = .ok info

/-! ### One iteration -/

theorem range_key (store : EtcdStore) (key : Bytes) :
    store.range key none = (store[key]?).toList.map fun value => (key, value) := by
  unfold EtcdStore.range
  have hnodup : (store.toList.filter fun x => decide (x.1 = key)).Nodup := by
    refine List.Nodup.filter _ (List.Nodup.of_map (·.1) ?_)
    rw [Std.ExtTreeMap.map_fst_toList_eq_keys]
    exact Std.ExtTreeMap.nodup_keys
  have hmem (x : Bytes × Bytes) : x ∈ (store.toList.filter fun x => decide (x.1 = key)) ↔
      x.1 = key ∧ store[key]? = some x.2 := by
    rw [List.mem_filter, Std.ExtTreeMap.mem_toList_iff_getElem?_eq_some, decide_eq_true_eq]
    constructor
    · intro ⟨hx, hkey⟩
      exact ⟨hkey, hkey ▸ hx⟩
    · intro ⟨hkey, hx⟩
      exact ⟨hkey ▸ hx, hkey⟩
  cases hkey : store[key]? with
  | none =>
    refine List.eq_nil_iff_forall_not_mem.2 fun x hx => ?_
    rw [hmem, hkey] at hx
    cases hx.2
  | some value =>
    have hperm : (store.toList.filter fun x => decide (x.1 = key)).Perm [(key, value)] := by
      refine (List.perm_ext_iff_of_nodup hnodup (List.nodup_singleton _)).2 fun x => ?_
      rw [hmem, hkey, List.mem_singleton, Prod.ext_iff, Option.some.injEq, eq_comm (a := value)]
    exact List.perm_singleton.1 hperm

/-- What is stored under the key, if anything, satisfies `P`. -/
def Stores (P : Bytes → Prop) (key : Bytes) (w : LeaseStore) : Prop := ∀ pair,
    w.pairs[key]? = some pair → P pair.1

section Iteration

variable {readBack : Bytes → Bytes} {P : Bytes → Prop} {name id key value : Bytes} {w : LeaseStore}

theorem Stores.expire (h : Stores P key w) (gone : List Int64) : Stores P key (w.expire gone) := by
  intro pair hpair
  simp only [LeaseStore.expire, Std.ExtTreeMap.getElem?_filter', Option.filter_eq_some_iff] at hpair
  exact h pair hpair.1

theorem Stores.put (hvalue : P value) (key : Bytes) (w : LeaseStore) (leaseId : Int64) :
    Stores P key (w.put key value leaseId) := by
  intro pair hpair
  simp only [LeaseStore.put, Std.ExtTreeMap.getElem?_insert_self, Option.some.injEq] at hpair
  rw [← hpair]
  exact hvalue

/-- A range request for one key lists it with the value that its holder reads back, or lists nothing. -/
theorem range_contents (w : LeaseStore) (key : Bytes) : (w.contents readBack).range key none =
    (w.pairs[key]?).toList.map fun pair => (key, readBack pair.1) := by
  rw [range_key, LeaseStore.contents, Std.ExtTreeMap.getElem?_map]
  cases w.pairs[key]? with
  | none => rfl
  | some pair => rfl

/-- What an iteration does, from what etcd held before it to what it holds after it. -/
structure Refreshed (readBack : Bytes → Bytes) (name id value : Bytes) (w : LeaseStore)
    (it : Iteration) : Prop where
  registered : it.AllSucceed → (it.Registered (serviceKey name id) value ↔
    Refreshable name id value ∧ it.FindsValue (serviceKey name id) value)
  keeps : ∀ P : Bytes → Prop, (∀ s, P s → P (readBack s)) → Stores P (serviceKey name id) w →
    Stores P (serviceKey name id) it.store ∧
      ∀ pairs, ⟨.range (serviceKey name id) none, some pairs⟩ ∈ it.events →
        pairs = [] ∨ ∃ s, P s ∧ pairs = [(serviceKey name id, readBack s)]

/-- What `get` asks, and what its caller goes on with: nothing was found, or a value as it is read back. -/
theorem wp_get {α : Type} {faulty : Prop} {f : Bytes → EtcdCode α}
    {Q : List (Event EtcdEffect EtcdEffect.Answer) → Except StdException α → LeaseStore → Prop}
    (hfailed : ∀ gone, wp (etcdLeased readBack faulty) (f []) (fun τ => Q (⟨.range key none, none⟩ :: τ))
      (w.expire gone))
    (hmissing : ∀ gone, (w.expire gone).pairs[key]? = none →
      wp (etcdLeased readBack faulty) (f []) (fun τ => Q (⟨.range key none, some []⟩ :: τ)) (w.expire gone))
    (hfound : ∀ gone pair, (w.expire gone).pairs[key]? = some pair →
      wp (etcdLeased readBack faulty) (f (readBack pair.1))
        (fun τ => Q (⟨.range key none, some [(key, readBack pair.1)]⟩ :: τ)) (w.expire gone)) :
    wp (etcdLeased readBack faulty) (EtcdClient.get key >>= f) Q w := by
  intro r w' ⟨gone, _, hw', hr⟩
  subst hw'
  rcases hr with rfl | ⟨_, rfl⟩
  · rw [range_contents]
    cases hpair : (w.expire gone).pairs[key]? with
    | none => exact hmissing gone hpair
    | some pair => exact hfound gone pair hpair
  · exact hfailed gone

/-- What `createLease` asks, and what its caller goes on with. -/
theorem wp_createLease {α : Type} {faulty : Prop} {ttlSeconds : Int32} {f : Int64 → EtcdCode α}
    {Q : List (Event EtcdEffect EtcdEffect.Answer) → Except StdException α → LeaseStore → Prop}
    (hnone : ∀ w', (∃ gone, w' = w.expire gone ∨ ∃ leaseId, w' = (w.expire gone).grant leaseId) →
      wp (etcdLeased readBack faulty) (f 0) (fun τ => Q (⟨.leaseGrant ttlSeconds, none⟩ :: τ)) w')
    (hsome : ∀ gone text leaseId, NamesLease text leaseId → 0 < leaseId →
      wp (etcdLeased readBack faulty) (f leaseId) (fun τ => Q (⟨.leaseGrant ttlSeconds, some text⟩ :: τ))
        ((w.expire gone).grant leaseId)) :
    wp (etcdLeased readBack faulty) (createLease ttlSeconds >>= f) Q w := by
  intro r w' ⟨gone, _, hreq⟩
  rcases hreq with ⟨text, leaseId, hnames, hpos, _, rfl, rfl | ⟨_, rfl⟩⟩ | ⟨_, rfl, rfl⟩
  · obtain ⟨digits, hsearch, hid⟩ := hnames
    have h := hsome gone text leaseId ⟨digits, hsearch, hid⟩ hpos
    dsimp only [Prog.bind]
    rw [hsearch]
    change wp _ (Prog.ofExcept (stoll digits) >>= f) _ _
    rw [hid]
    exact h
  · exact hnone _ ⟨gone, .inr ⟨leaseId, rfl⟩⟩
  · exact hnone _ ⟨gone, .inl rfl⟩

section Answers

variable {α : Type} {f : Bytes → EtcdCode α} {g : Int64 → EtcdCode α} {w' : LeaseStore}
  {τ : List (Event EtcdEffect EtcdEffect.Answer)} {o : Except StdException α} {faulty : Prop} (gone : List Int64)

/-- A range request that finds nothing. -/
theorem Run.get_missing (hgone : gone ⊆ w.leases) (hmissing : (w.expire gone).pairs[key]? = none)
    (hrest : Run (etcdLeased readBack faulty) (f []) (w.expire gone) τ o w') :
    Run (etcdLeased readBack faulty) (EtcdClient.get key >>= f) w (⟨.range key none, some []⟩ :: τ) o w' := by
  have hrange : ((w.expire gone).contents readBack).range key none = [] := by
    rw [range_contents, hmissing]
    rfl
  exact .call ⟨gone, hgone, rfl, .inl (by rw [hrange])⟩ hrest

theorem Run.get_found (hgone : gone ⊆ w.leases) {pair : Bytes × Option Int64}
    (hpair : (w.expire gone).pairs[key]? = some pair)
    (hrest : Run (etcdLeased readBack faulty) (f (readBack pair.1)) (w.expire gone) τ o w') :
    Run (etcdLeased readBack faulty) (EtcdClient.get key >>= f) w
      (⟨.range key none, some [(key, readBack pair.1)]⟩ :: τ) o w' := by
  have hrange : ((w.expire gone).contents readBack).range key none = [(key, readBack pair.1)] := by
    rw [range_contents, hpair]
    rfl
  exact .call ⟨gone, hgone, rfl, .inl (by rw [hrange])⟩ hrest

/-- A grant that succeeds. -/
theorem Run.createLease {ttlSeconds : Int32} {text : Bytes} {leaseId : Int64} (hgone : gone ⊆ w.leases)
    (hnames : NamesLease text leaseId) (hpos : 0 < leaseId) (hfresh : leaseId ∉ (w.expire gone).leases)
    (hrest : Run (etcdLeased readBack faulty) (g leaseId) ((w.expire gone).grant leaseId) τ o w') :
    Run (etcdLeased readBack faulty) (createLease ttlSeconds >>= g) w
      (⟨.leaseGrant ttlSeconds, some text⟩ :: τ) o w' := by
  obtain ⟨digits, hsearch, hid⟩ := hnames
  refine .call ⟨gone, hgone, .inl ⟨text, leaseId, ⟨digits, hsearch, hid⟩, hpos, hfresh, rfl, .inl rfl⟩⟩ ?_
  dsimp only [Prog.bind]
  rw [hsearch]
  change Run _ (Prog.ofExcept (stoll digits) >>= g) _ _ _ _
  rw [hid]
  exact hrest

end Answers

theorem refreshService_spec (hvalue : value ≠ []) (hname : name ≠ []) (hid : id ≠ []) (w : LeaseStore) :
    wp (etcdLeased readBack True) (refreshService name id)
      (fun τ _ w' => Refreshed readBack name id value w ⟨τ, .ok (), w'⟩) w := by
  rw [refreshService_eq]
  refine wp_get ?_ ?_ ?_
  · -- the range request failed, and nothing else is asked
    intro gone
    refine ⟨?_, fun P _ h => ⟨h.expire gone, ?_⟩⟩
    · intro h
      exact absurd rfl (h _ List.mem_cons_self)
    · intro pairs hmem
      simp at hmem
  · -- the key is gone
    intro gone hmissing
    refine ⟨fun _ => ?_, fun P _ h => ⟨h.expire gone, ?_⟩⟩
    · constructor
      · rintro ⟨ttlSeconds, text, leaseId, hmem, -⟩
        simp at hmem
      · rintro ⟨-, hfinds⟩
        simp [Iteration.FindsValue] at hfinds
    · intro pairs hmem
      simp at hmem
      exact .inl hmem
  intro gone pair hpair
  -- the key was found, and the only range request says with which value
  have hfinds {rest : List (Event EtcdEffect EtcdEffect.Answer)} {w' : LeaseStore}
      (hrest : ∀ pairs, ⟨.range (serviceKey name id) none, some pairs⟩ ∉ rest) :
      Iteration.FindsValue (serviceKey name id) value
        ⟨⟨.range (serviceKey name id) none, some [(serviceKey name id, readBack pair.1)]⟩ ::
          rest, .ok (), w'⟩ ↔
        readBack pair.1 = value := by
    simp [Iteration.FindsValue, hrest, eq_comm]
  have hanswer {P : Bytes → Prop} {rest : List (Event EtcdEffect EtcdEffect.Answer)}
      (h : Stores P (serviceKey name id) w)
        (hrest : ∀ pairs, ⟨.range (serviceKey name id) none, some pairs⟩ ∉ rest)
      (pairs : List (Bytes × Bytes)) (hmem : ⟨.range (serviceKey name id) none, some pairs⟩ ∈
        ⟨.range (serviceKey name id) none, some [(serviceKey name id, readBack pair.1)]⟩ :: rest) :
      pairs = [] ∨ ∃ s, P s ∧ pairs = [(serviceKey name id, readBack s)] := by
    rcases List.mem_cons.1 hmem with heq | hmem
    · simp only [Sigma.mk.injEq, heq_eq_eq, Option.some.injEq, true_and] at heq
      exact .inr ⟨pair.1, h.expire gone pair hpair, heq⟩
    · exact absurd hmem (hrest pairs)
  by_cases hempty : readBack pair.1 = []
  · rw [if_pos (by rw [hempty]; rfl)]
    refine ⟨fun _ => ?_, fun P _ h => ⟨h.expire gone, hanswer h (by simp)⟩⟩
    rw [hfinds (by simp)]
    constructor
    · rintro ⟨ttlSeconds, text, leaseId, hmem, -⟩
      simp at hmem
    · rintro ⟨-, hread⟩
      exact absurd (hread.symm.trans hempty) hvalue
  rw [if_neg (by simpa using hempty)]
  cases hendpoint : readEndpoint ⟨name, id, [], 0⟩ (readBack pair.1) with
  | error x =>
    -- the port in the value is no number that fits, and the process ends
    refine ⟨fun _ => ?_, fun P _ h => ⟨h.expire gone, hanswer h (by simp)⟩⟩
    rw [hfinds (by simp)]
    constructor
    · rintro ⟨ttlSeconds, text, leaseId, hmem, -⟩
      simp at hmem
    · rintro ⟨⟨-, -, info, hinfo⟩, hread⟩
      rw [← hread, hendpoint] at hinfo
      cases hinfo
  | ok info =>
    refine wp_createLease ?_ ?_
    · -- no lease was granted
      intro w' hw'
      rw [if_pos rfl]
      refine ⟨?_, fun P _ h => ⟨?_, hanswer h (by simp)⟩⟩
      · intro hall
        exact absurd rfl (hall ⟨.leaseGrant 10, none⟩ (List.mem_cons_of_mem _ List.mem_cons_self))
      · obtain ⟨gone', rfl | ⟨leaseId, rfl⟩⟩ := hw'
        · exact (h.expire gone).expire gone'
        · exact (h.expire gone).expire gone'
    · intro gone' text leaseId hnames hpos
      have hne : leaseId ≠ 0 := by
        rintro rfl
        exact absurd hpos (by decide)
      rw [if_neg hne]
      intro r w' ⟨gone'', _, hput⟩
      refine ⟨?_, fun P hback h => ⟨?_, hanswer h (by simp)⟩⟩
      · intro hall
        have hr : r = true := hall ⟨.put _ _ _, r⟩ (by simp)
        rcases hput with ⟨_, rfl, _⟩ | ⟨hrefused, _, _⟩
        · rw [hfinds (by simp)]
          constructor
          · rintro ⟨ttlSeconds, text', leaseId', hmem, hnames', hstored⟩
            simp only [LeaseStore.put, Std.ExtTreeMap.getElem?_insert_self, Option.some.injEq,
              Prod.mk.injEq] at hstored
            exact ⟨⟨hname, hid, info, hstored.1 ▸ hendpoint⟩, hstored.1⟩
          · rintro ⟨-, hread⟩
            refine ⟨10, text, leaseId, by simp, hnames, ?_⟩
            simp [LeaseStore.put, hpos, hread]
        · rw [hrefused] at hr
          cases hr
      · rcases hput with ⟨_, rfl, _⟩ | ⟨_, rfl, _⟩
        · exact .put (hback _ (h.expire gone pair hpair)) _ _ _
        · exact ((h.expire gone).expire gone').expire gone''

theorem refreshIteration_spec (hvalue : value ≠ []) (w : LeaseStore) :
    wp (etcdLeased readBack True) (ServiceRegistry.refreshIteration true name id)
      (fun τ o w' => Refreshed readBack name id value w ⟨τ, o, w'⟩) w := by
  unfold ServiceRegistry.refreshIteration
  by_cases hnames : name ≠ [] ∧ id ≠ []
  · rw [if_pos (by simp [hnames.1, hnames.2])]
    refine (refreshService_spec hvalue hnames.1 hnames.2 w).bind ?_ ?_
    · intro τ a w' h
      simpa using ⟨h.registered, h.keeps⟩
    · intro τ x w' h
      exact ⟨h.registered, h.keeps⟩
  · -- without a name or an id nothing is refreshed
    rw [if_neg (by simp; tauto)]
    refine ⟨fun _ => ?_, fun P _ h => ⟨h, fun pairs hmem => nomatch hmem⟩⟩
    constructor
    · rintro ⟨ttlSeconds, text, leaseId, hmem, -⟩
      cases hmem
    · rintro ⟨⟨hname, hid, -⟩, -⟩
      exact absurd ⟨hname, hid⟩ hnames

/-- What a run of the loop keeps and reads. -/
theorem RefreshLoop.keeps {its : List Iteration} (hloop : RefreshLoop (etcdLeased readBack True) name id w its)
    (hback : ∀ s, P s → P (readBack s)) (h : Stores P (serviceKey name id) w) :
    ∀ it ∈ its, ∀ pairs, ⟨.range (serviceKey name id) none, some pairs⟩ ∈ it.events →
      pairs = [] ∨ ∃ s, P s ∧ pairs = [(serviceKey name id, readBack s)] := by
  induction hloop with
  | stop w => exact fun it hit => nomatch hit
  | iterate hrun hrest hok ih =>
    have hstep := (refreshIteration_spec (List.cons_ne_nil 0 []) _).run hrun
    obtain ⟨hnext, hread⟩ := hstep.keeps P hback h
    intro it hit
    rcases List.mem_cons.1 hit with rfl | hit
    · exact hread
    · exact ih hnext it hit

theorem RefreshLoop.registered_iff (hvalue : value ≠ []) {its : List Iteration}
    (hloop : RefreshLoop (etcdLeased readBack True) name id w its) :
    ∀ it ∈ its, it.AllSucceed → (it.Registered (serviceKey name id) value ↔
      Refreshable name id value ∧ it.FindsValue (serviceKey name id) value) := by
  induction hloop with
  | stop w => exact fun it hit => nomatch hit
  | iterate hrun hrest hok ih =>
    intro it hit
    rcases List.mem_cons.1 hit with rfl | hit
    · exact ((refreshIteration_spec hvalue _).run hrun).registered
    · exact ih it hit

/-- A registration that succeeds leaves its value under the key. -/
theorem registerService_spec (name id address : Bytes) (port : Int32) (metadata : StringMap Bytes)
    (w : LeaseStore) :
    Post (etcdLeased readBack True) (ServiceRegistry.registerService true name id address port metadata)
      (fun o w' => o = .ok true → Stores (· = registration address port metadata) (serviceKey name id) w') w := by
  unfold ServiceRegistry.registerService EtcdClient.registerService
  rw [if_neg (by simp), bind_assoc]
  refine wp_createLease ?_ ?_
  · intro w' _ h
    cases h
  · intro gone text leaseId hnames hpos
    have hne : leaseId ≠ 0 := by
      rintro rfl
      exact absurd hpos (by decide)
    rw [if_neg hne]
    intro r w' ⟨gone', _, hput⟩
    cases r with
    | true =>
      rcases hput with ⟨_, rfl, _⟩ | ⟨hrefused, _, _⟩
      · exact fun _ => Stores.put (P := (· = registration address port metadata)) rfl _ _ _
      · cases hrefused
    | false =>
      -- the lease is revoked, and the answer is `false`
      intro r' w'' _ h
      cases h

end Iteration

theorem registration_ne_nil (address : Bytes) (port : Int32) (metadata : StringMap Bytes) :
    registration address port metadata ≠ [] := by
  simp [registration, bytes]

/-- In every run of the loop, an iteration in which all requests succeed leaves the service registered, with its
value and under a lease of that iteration, exactly when it finds the key with that value and can read the port
in it.  Where values come back as they were put, it need only find the key. -/
theorem refresh_keeps_iff {readBack : Bytes → Bytes} {name id address : Bytes} {port : Int32}
    {metadata : StringMap Bytes} {w₀ w : LeaseStore} {τ : List (Event EtcdEffect EtcdEffect.Answer)}
    (hregister : Run (etcdLeased readBack True)
      (ServiceRegistry.registerService true name id address port metadata) w₀ τ (.ok true) w)
    {its : List Iteration} (hloop : RefreshLoop (etcdLeased readBack True) name id w its) :
    let key := serviceKey name id
    let value := registration address port metadata
    ((∀ it ∈ its, it.AllSucceed → it.Registered key value) ↔
        ∀ it ∈ its, it.AllSucceed → Refreshable name id value ∧ it.FindsValue key value) ∧
      (readBack value = value → ∀ it ∈ its, it.FindsValue key value ↔ it.Finds key) := by
  intro key value
  have hiff := hloop.registered_iff (registration_ne_nil address port metadata)
  refine ⟨⟨fun h it hit hall => (hiff it hit hall).1 (h it hit hall),
    fun h it hit hall => (hiff it hit hall).2 (h it hit hall)⟩, ?_⟩
  intro hback it hit
  have hstored : Stores (· = value) key w :=
    (registerService_spec name id address port metadata w₀).run hregister rfl
  have hclosed : ∀ s, s = value → readBack s = value := by
    rintro s rfl
    exact hback
  constructor
  · intro hfinds
    exact ⟨_, hfinds, List.cons_ne_nil _ _⟩
  · intro ⟨pairs, hmem, hne⟩
    rcases hloop.keeps hclosed hstored it hit pairs hmem with hnil | ⟨s, hs, hpairs⟩
    · exact absurd hnil hne
    · rw [hpairs, hclosed s hs] at hmem
      exact hmem

def workerServiceKey : Bytes := serviceKey (bytes "worker") (bytes "worker-1")

def workerRegistration : Bytes := registration (bytes "host") 50052 ∅

/-- An etcd that was empty, after the grant and the put of a registration. -/
def workerStore : LeaseStore :=
  ((((LeaseStore.mk ∅ []).expire []).grant 1).expire []).put workerServiceKey workerRegistration 1

private theorem worker_registered : ∃ τ, Run (etcdLeased id True)
    (ServiceRegistry.registerService true (bytes "worker") (bytes "worker-1") (bytes "host") 50052 ∅) ⟨∅, []⟩ τ
    (.ok true) workerStore := by
  have hnames : NamesLease (bytes "\x7b\"ID\":1\x7d") 1 := ⟨bytes "1", rfl, rfl⟩
  unfold ServiceRegistry.registerService EtcdClient.registerService
  rw [if_neg (by simp), bind_assoc]
  refine ⟨⟨.leaseGrant 10, some (bytes "\x7b\"ID\":1\x7d")⟩ ::
    [⟨.put workerServiceKey workerRegistration 1, true⟩],
    Run.createLease [] (List.nil_subset _) hnames (by decide) (by decide) ?_⟩
  rw [if_neg (by decide)]
  exact .call ⟨[], List.nil_subset _, .inl ⟨fun _ => by decide, rfl, .inl rfl⟩⟩ (.ret _ _)

/-- An iteration that finds the worker and writes it under a second lease. -/
def refreshedIteration : Iteration where
  events := [⟨.range workerServiceKey none, some [(workerServiceKey, workerRegistration)]⟩,
    ⟨.leaseGrant 10, some (bytes "\x7b\"ID\":2\x7d")⟩, ⟨.put workerServiceKey workerRegistration 2, true⟩]
  outcome := .ok ()
  store := ((((workerStore.expire []).expire []).grant 2).expire []).put workerServiceKey workerRegistration 2

private theorem refreshed_run : Run (etcdLeased id True)
    (ServiceRegistry.refreshIteration true (bytes "worker")
      (bytes "worker-1")) workerStore refreshedIteration.events
    refreshedIteration.outcome refreshedIteration.store := by
  have hnames : NamesLease (bytes "\x7b\"ID\":2\x7d") 2 := ⟨bytes "2", rfl, rfl⟩
  have hpair : (workerStore.expire []).pairs[workerServiceKey]? = some (workerRegistration, some 1) := by
    simp [workerStore, LeaseStore.put, LeaseStore.expire]
  have hendpoint : readEndpoint ⟨bytes "worker", bytes "worker-1", [], 0⟩ workerRegistration =
      .ok ⟨bytes "worker", bytes "worker-1", bytes "host", 50052⟩ := rfl
  unfold ServiceRegistry.refreshIteration
  rw [if_pos (by decide), refreshService_eq, bind_assoc]
  refine Run.get_found [] (List.nil_subset _) hpair ?_
  rw [if_neg (by decide), id, hendpoint]
  simp only [ofExcept_ok, ret_bind, bind_assoc]
  refine Run.createLease [] (List.nil_subset _) hnames (by decide) (by decide) ?_
  rw [if_neg (by decide)]
  exact .call ⟨[], List.nil_subset _, .inl ⟨fun _ => by decide, rfl, .inl rfl⟩⟩ (.ret _ _)

/-- The service is refreshed once. -/
theorem refresh_keeps_iff_once :
    refreshedIteration.AllSucceed ∧ refreshedIteration.Registered workerServiceKey workerRegistration := by
  obtain ⟨τ, hregister⟩ := worker_registered
  have hloop : RefreshLoop (etcdLeased id True) (bytes "worker")
      (bytes "worker-1") workerStore [refreshedIteration] :=
    .iterate refreshed_run (.stop _) (.inl rfl)
  have hall : refreshedIteration.AllSucceed := by
    intro event hevent
    simp only [refreshedIteration, List.mem_cons, List.not_mem_nil, or_false] at hevent
    rcases hevent with rfl | rfl | rfl
    · exact Option.some_ne_none _
    · exact Option.some_ne_none _
    · rfl
  refine ⟨hall, (refresh_keeps_iff hregister hloop).1.2 ?_ refreshedIteration List.mem_cons_self hall⟩
  intro it hit _
  obtain rfl := List.mem_singleton.1 hit
  exact ⟨⟨by decide, by decide, _, rfl⟩, List.mem_cons_self⟩

/-- An iteration while etcd does not answer. -/
def failedIteration : Iteration := ⟨[⟨.range workerServiceKey none, none⟩], .ok (), workerStore.expire []⟩

/-- The first iteration after the outage, which outlasted the lease. -/
def lostIteration : Iteration := ⟨[⟨.range workerServiceKey none, some []⟩], .ok (),
    failedIteration.store.expire [1]⟩

private theorem outage : RefreshLoop (etcdLeased id True) (bytes "worker") (bytes "worker-1") workerStore
    [failedIteration, lostIteration] := by
  have hfailed : Run (etcdLeased id True)
      (ServiceRegistry.refreshIteration true (bytes "worker") (bytes "worker-1")) workerStore failedIteration.events
      failedIteration.outcome failedIteration.store :=
    .call ⟨[], List.nil_subset _, rfl, .inr ⟨trivial, rfl⟩⟩ (.ret () _)
  have hmissing : (failedIteration.store.expire [1]).pairs[workerServiceKey]? = none := by
    simp [failedIteration, workerStore, LeaseStore.put, LeaseStore.expire]
  refine .iterate hfailed (.iterate ?_ (.stop _) (.inl rfl)) (.inl rfl)
  unfold ServiceRegistry.refreshIteration
  rw [if_pos (by decide), refreshService_eq, bind_assoc]
  exact Run.get_missing [1] (by decide) hmissing (.ret () _)

theorem outage_unregisters : ¬ ∀ (readBack : Bytes → Bytes) (name id address : Bytes) (port : Int32)
    (metadata : StringMap Bytes) (w₀ w : LeaseStore) (τ : List (Event EtcdEffect EtcdEffect.Answer))
    (its : List Iteration), (∀ s, readBack s = s) →
      Run (etcdLeased readBack True) (ServiceRegistry.registerService true name id address port metadata) w₀ τ
        (.ok true) w →
      RefreshLoop (etcdLeased readBack True) name id w its →
      ∀ it ∈ its, it.AllSucceed → it.Registered (serviceKey name id) (registration address port metadata) := by
  intro h
  obtain ⟨τ, hregister⟩ := worker_registered
  have hall : lostIteration.AllSucceed := by
    intro event hevent
    obtain rfl := List.mem_singleton.1 hevent
    exact Option.some_ne_none _
  obtain ⟨ttlSeconds, text, leaseId, hmem, -⟩ :=
    h id _ _ _ _ _ _ _ τ _ (fun _ => rfl) hregister outage lostIteration
    (List.mem_cons_of_mem _ List.mem_cons_self) hall
  -- the last iteration asks for no lease
  exact absurd (List.mem_singleton.1 hmem) (by simp)

/-! ### A server that returns texts as they were sent -/

/-- A value after some round trips through the codec: the same, or less of it. -/
def Worn (value s : Bytes) : Prop :=
  s = value ∨ escapes s < escapes value ∨ escapes s = escapes value ∧ s.length < value.length

theorem Worn.drift {value s out : Bytes} (hvalue : 3 ≤ escapes value) (h : Worn value s) (hdrift : Drift s out) :
    Worn value out ∧ out ≠ value := by
  have hle : escapes s ≤ escapes value ∧ (escapes s = escapes value → s.length ≤ value.length) := by
    rcases h with rfl | h | h
    · exact ⟨le_refl _, fun _ => le_refl _⟩
    · exact ⟨by omega, by omega⟩
    · exact ⟨by omega, by omega⟩
  -- three escapes shorten the text, since only one of them can be left as it is
  have hless : escapes out < escapes value ∨ escapes out = escapes value ∧ out.length < value.length := by
    have hfewer := hdrift.fewer
    rcases hdrift.length with hlt | ⟨lost, kept, hkept, hsum, hlength⟩
    · exact .inl (by omega)
    · by_cases hout : escapes out < escapes value
      · exact .inl hout
      · exact .inr ⟨by omega, by omega⟩
  refine ⟨.inr hless, ?_⟩
  rintro rfl
  omega

theorem escapes_registration (address : Bytes) (port : Int32) (metadata : StringMap Bytes) :
    3 ≤ escapes (registration address port metadata) := by
  have hopen : escapes (bytes "\x7b\"address\":") = 2 := by decide
  have hport : escapes (bytes ",\"port\":") = 2 := by decide
  simp only [registration, escapes, List.countP_append] at hopen hport ⊢
  omega

/-- Where the server gives back the text that it was sent, the codec has spoiled the value after the first iteration
in which everything succeeds, and no later one restores it. -/
theorem refresh_spoils {readBack : Bytes → Bytes} {name id address : Bytes} {port : Int32}
    {metadata : StringMap Bytes} {w₀ w : LeaseStore} {τ : List (Event EtcdEffect EtcdEffect.Answer)}
    (hback : ∀ s, decodeValue (encodeValue s) = .ok (readBack s))
    (hregister : Run (etcdLeased readBack True)
      (ServiceRegistry.registerService true name id address port metadata) w₀ τ (.ok true) w)
    {its : List Iteration} (hloop : RefreshLoop (etcdLeased readBack True) name id w its) :
    ∀ it ∈ its, it.AllSucceed → ¬ it.Registered (serviceKey name id) (registration address port metadata) := by
  have hdrift (s : Bytes) (hs : Worn (registration address port metadata) s) :
      Worn (registration address port metadata) (readBack s) ∧ readBack s ≠ registration address port metadata := by
    obtain ⟨out, hout, hd⟩ := decodeValue_drift s
    obtain rfl := Except.ok.inj ((hback s).symm.trans hout)
    exact hs.drift (escapes_registration address port metadata) hd
  have hstored : Stores (Worn (registration address port metadata)) (serviceKey name id) w := by
    intro pair hpair
    exact .inl ((registerService_spec name id address port metadata w₀).run hregister rfl pair hpair)
  intro it hit hall hregistered
  obtain ⟨-, hfinds⟩ := (hloop.registered_iff (registration_ne_nil address port metadata) it hit hall).1 hregistered
  rcases hloop.keeps (fun s hs => (hdrift s hs).1) hstored it hit _ hfinds with hnil | ⟨s, hs, hpairs⟩
  · cases hnil
  · have heq : readBack s = registration address port metadata := by simpa using hpairs.symm
    exact (hdrift s hs).2 heq

end Taskflow
