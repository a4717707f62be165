import Taskflow.Lib.Yaml

/-!
# `ConfigLoader`

`getPath` and `hasKey` (`include/common/config_loader.h`, `src/common/config_loader.cpp`) and the functions that
load the configuration of each service.  A lookup walks the path with `node = node[part]`, and the first such
assignment makes the node of `config_` itself refer to the data of `part`.

`lookups_truthful`: a lookup is right as long as it meets no node that was re-pointed before it or by its own loop.
`lookups_truthful_iff`: which sequences of lookups are right whatever the document.  `getPath_repoints` says what a
lookup of a field of a section does to all later ones, and the `load…_section` theorems what the services get.
-/

namespace Taskflow

open Text Yaml

namespace Config

/-! ### The code -/

/-- The parts of a path at its dots. -/
def parts (path : Bytes) : List Bytes := path.splitOn 46

/-- The loops of `getPath` and `hasKey`, which alone looks for undefined values (`stop`); `none` when the loop
left the function.  The second `node[part]` of `hasKey` finds what the first one found. -/
def walk (stop : Bool) (n : NodeId) : List Bytes → Memory → Option NodeId × Memory
  | [], m => (some n, m)
  | [key], m =>
    match m.subscript n key with
    | none => (none, m)
    | some (v, m) => (some v, m)
  | part :: next :: rest, m =>
    match m.subscript n part with
    | none => (none, m)
    | some (v, m) =>
      if stop && !(m.dataOf v).defined then (none, m)
      else walk stop (m.assign n v).1 (next :: rest) (m.assign n v).2

/-- A conversion `as<T>` to a scalar type, from the text of a scalar or from null.  Texts convert to at least two
values. -/
structure Conversion (T : Type) where
  decode : Option Bytes → Option T
  other : ∀ d, ∃ text v, decode (some text) = some v ∧ v ≠ d

/-- `config_` is the handle of the node `root`. -/
def getPath {T : Type} (as : Conversion T) (root : NodeId) (path : Bytes) (defaultValue : T) (m : Memory) :
    T × Memory :=
  match walk false root (parts path) m with
  | (none, m) => (defaultValue, m)
  | (some v, m) => (((m.scalar v).bind as.decode).getD defaultValue, m)

def hasKey (root : NodeId) (key : Bytes) (m : Memory) : Bool × Memory :=
  match walk true root (parts key) m with
  | (none, m) => (false, m)
  | (some v, m) => ((m.dataOf v).defined, m)

/-! ### Documents and the functions that load them -/

/-- A document as it is loaded: every node is defined and has its own data.  An alias is one more entry with the
node of its anchor. -/
structure Document where
  root : NodeId
  memory : Memory
  root_lt : root < memory.next
  ref_lt : ∀ n < memory.next, memory.ref n < memory.next
  ref_inj : ∀ n < memory.next, ∀ n' < memory.next, memory.ref n = memory.ref n' → n = n'
  entry_lt : ∀ d < memory.next, ∀ e ∈ (memory.data d).body.entries, e.2 < memory.next
  defined : ∀ d < memory.next, (memory.data d).defined = true

theorem Document.closed (doc : Document) : Closed doc.memory := ⟨doc.ref_lt, doc.entry_lt⟩

/-- No node is inside itself, as it is when an alias names a map or sequence around it: the values can be ranked so
that each has a higher rank than the map or sequence it is in. -/
def Document.Acyclic (doc : Document) : Prop :=
  ∃ rank : Nat → Nat, ∀ d < doc.memory.next, ∀ e ∈ (doc.memory.data d).body.entries,
    rank d < rank (doc.memory.ref e.2)

theorem Document.Acyclic.graded {doc : Document} (h : doc.Acyclic) : ∃ rank depth,
    Graded rank depth doc.memory := by
  obtain ⟨rank, hrank⟩ := h
  refine ⟨rank, (Finset.range doc.memory.next).sup rank, doc.ref_lt, ?_⟩
  intro d hd e he
  have hlt := doc.entry_lt d hd e he
  refine ⟨hlt, ?_⟩
  intro _
  exact ⟨doc.defined d hd, hrank d hd e he, Finset.le_sup (Finset.mem_range.2 (doc.ref_lt e.2 hlt))⟩

section Load

structure GatewayConfig where
  port : Int32 := 8080
  logLevel : Bytes := bytes "info"
  schedulerAddr : Bytes := bytes "localhost:50051"
  logDir : Bytes := bytes "./logs"

structure SchedulerConfig where
  port : Int32 := 50051
  loadBalance : Bytes := bytes "least_connection"
  workerCheckInterval : Int32 := 5
  taskTimeoutSeconds : Int32 := 60
  etcdEndpoints : Bytes := bytes "localhost:2379"
  redisAddr : Bytes := bytes "localhost:6379"
  logLevel : Bytes := bytes "info"
  logDir : Bytes := bytes "./logs"

structure WorkerConfig where
  id : Int32 := 1
  port : Int32 := 50052
  address : Bytes := bytes "localhost"
  schedulerAddr : Bytes := bytes "localhost:50051"
  etcdEndpoints : Bytes := bytes "localhost:2379"
  heartbeatInterval : Int32 := 5
  maxConcurrentTasks : Int32 := 10
  logLevel : Bytes := bytes "info"
  logDir : Bytes := bytes "./logs"

structure TrackerConfig where
  port : Int32 := 50053
  redisAddr : Bytes := bytes "localhost:6379"
  logLevel : Bytes := bytes "info"
  logDir : Bytes := bytes "./logs"

structure StatsConfig where
  port : Int32 := 50054
  redisAddr : Bytes := bytes "localhost:6379"
  etcdEndpoints : Bytes := bytes "localhost:2379"
  collectionInterval : Int32 := 10
  logLevel : Bytes := bytes "info"
  logDir : Bytes := bytes "./logs"

/-- `getPath` of a loader whose `config_` names `root`. -/
def lookup {T : Type} (as : Conversion T) (root : NodeId) (path : String) (defaultValue : T) : StateM Memory T :=
  fun m => getPath as root (bytes path) defaultValue m

/-- The configuration of a service: `none` is a file that does not load, for which the fields stay as the
constructor set them. -/
def load {C : Type} (loaded : Option Document) (config : C) (read : NodeId → StateM Memory C) : C :=
  match loaded with
  | none => config
  | some doc => (read doc.root doc.memory).1

variable (asInt : Conversion Int32) (asString : Conversion Bytes) (loaded : Option Document)

def loadGatewayConfig : GatewayConfig := load loaded {} fun root => do
  let port ← lookup asInt root "gateway.port" 8080
  let logLevel ← lookup asString root "gateway.log_level" (bytes "info")
  let schedulerAddr ← lookup asString root "gateway.scheduler_addr" (bytes "localhost:50051")
  let logDir ← lookup asString root "gateway.log_dir" (bytes "./logs")
  return { port, logLevel, schedulerAddr, logDir }

def loadSchedulerConfig : SchedulerConfig := load loaded {} fun root => do
  let port ← lookup asInt root "scheduler.port" 50051
  let loadBalance ← lookup asString root "scheduler.load_balance" (bytes "least_connection")
  let workerCheckInterval ← lookup asInt root "scheduler.worker_check_interval" 5
  let taskTimeoutSeconds ← lookup asInt root "scheduler.task_timeout_seconds" 60
  let etcdEndpoints ← lookup asString root "scheduler.etcd_endpoints" (bytes "localhost:2379")
  let redisAddr ← lookup asString root "scheduler.redis_addr" (bytes "localhost:6379")
  let logLevel ← lookup asString root "scheduler.log_level" (bytes "info")
  let logDir ← lookup asString root "scheduler.log_dir" (bytes "./logs")
  return { port, loadBalance, workerCheckInterval, taskTimeoutSeconds, etcdEndpoints, redisAddr, logLevel, logDir }

def loadWorkerConfig : WorkerConfig := load loaded {} fun root => do
  let id ← lookup asInt root "worker.id" 1
  let port ← lookup asInt root "worker.port" 50052
  let address ← lookup asString root "worker.address" (bytes "localhost")
  let schedulerAddr ← lookup asString root "worker.scheduler_addr" (bytes "localhost:50051")
  let etcdEndpoints ← lookup asString root "worker.etcd_endpoints" (bytes "localhost:2379")
  let heartbeatInterval ← lookup asInt root "worker.heartbeat_interval" 5
  let maxConcurrentTasks ← lookup asInt root "worker.max_concurrent_tasks" 10
  let logLevel ← lookup asString root "worker.log_level" (bytes "info")
  let logDir ← lookup asString root "worker.log_dir" (bytes "./logs")
  return {
    id, port, address, schedulerAddr, etcdEndpoints, heartbeatInterval, maxConcurrentTasks, logLevel, logDir }

def loadTrackerConfig : TrackerConfig := load loaded {} fun root => do
  let port ← lookup asInt root "tracker.port" 50053
  let redisAddr ← lookup asString root "tracker.redis_addr" (bytes "localhost:6379")
  let logLevel ← lookup asString root "tracker.log_level" (bytes "info")
  let logDir ← lookup asString root "tracker.log_dir" (bytes "./logs")
  return { port, redisAddr, logLevel, logDir }

/-- `etcd_endpoints` is not read. -/
def loadStatsConfig : StatsConfig := load loaded {} fun root => do
  let port ← lookup asInt root "stats.port" 50054
  let redisAddr ← lookup asString root "stats.redis_addr" (bytes "localhost:6379")
  let collectionInterval ← lookup asInt root "stats.collection_interval" 10
  let logLevel ← lookup asString root "stats.log_level" (bytes "info")
  let logDir ← lookup asString root "stats.log_dir" (bytes "./logs")
  return { port, redisAddr, collectionInterval, logLevel, logDir }

end Load

/-! ### What a lookup should answer -/

/-- The value that a document holds at a path, converted, or the default where it is missing or does not convert. -/
def lookedUp {T : Type} (as : Conversion T) (root : NodeId) (path : Bytes) (defaultValue : T) (m : Memory) : T :=
  ((m.value root (parts path)).bind as.decode).getD defaultValue

inductive Call : Type 1 where
  | getPath {T : Type} (as : Conversion T) (path : Bytes) (defaultValue : T)
  | hasKey (key : Bytes)

def Call.path : Call → Bytes
  | .getPath _ path _ => path
  | .hasKey key => key

def Call.dotted (c : Call) : Bool := c.path.contains 46

def Call.reads : Call → Bool
  | .getPath _ _ _ => true
  | .hasKey _ => false

/-- The memory after a call. -/
def Call.after (root : NodeId) (m : Memory) : Call → Memory
  | .getPath as path defaultValue => (Config.getPath as root path defaultValue m).2
  | .hasKey key => (Config.hasKey root key m).2

/-- The call answers what the document `doc` holds, when the memory has become `m`. -/
def Call.Truthful (root : NodeId) (doc m : Memory) : Call → Prop
  | .getPath as path defaultValue =>
    (Config.getPath as root path defaultValue m).1 = lookedUp as root path defaultValue doc
  | .hasKey _ => True

/-- All `getPath` calls of a sequence answer what the document holds. -/
def Truthful (root : NodeId) (doc : Memory) : List Call → Memory → Prop
  | [], _ => True
  | c :: calls, m => c.Truthful root doc m ∧ Truthful root doc calls (c.after root m)

/-- Does the loop over the parts of a path come to a node of the document that has been moved?  An assignment moves
the node that it is made to, unless that is the value itself. -/
def meetsMoved (doc : Memory) (moved : NodeId → Bool) (n : NodeId) : List Bytes → Bool
  | [] => moved n
  | [key] => moved n || ((doc.dataOf n).body.entries.lookup key).any moved
  | key :: next :: rest =>
    moved n || match (doc.dataOf n).body.entries.lookup key with
      | none => false
      | some v => meetsMoved doc (if v = n then moved else fun u => u == n || moved u) v (next :: rest)

/-- A `getPath` call finds the node of `config_` where the document has it, and its own loop does not come back to a
node that it has moved. -/
def Call.Undisturbed (root : NodeId) (doc m : Memory) : Call → Prop
  | .getPath _ path _ => m.ref root = doc.ref root ∧ meetsMoved doc (fun _ => false) root (parts path) = false
  | .hasKey _ => True

/-- All calls of a sequence are undisturbed, each in the memory that it finds. -/
def Undisturbed (root : NodeId) (doc : Memory) : List Call → Memory → Prop
  | [], _ => True
  | c :: calls, m => c.Undisturbed root doc m ∧ Undisturbed root doc calls (c.after root m)

/-! ### One lookup -/

section

variable {rank : Nat → Nat} {depth : Nat} {m m' : Memory} {n root v : NodeId} {path : Bytes} {keys : List Bytes}

theorem parts_of_undotted (h : path.contains 46 = false) : parts path = [path] := by
  refine List.splitOn_eq_singleton ?_
  simpa using h

theorem parts_of_dotted (h : path.contains 46 = true) : ∃ part next rest, parts path = part :: next :: rest := by
  have hmem : 46 ∈ path := by simpa using h
  obtain ⟨part, rest, heq, hpart⟩ := List.eq_append_cons_of_mem hmem
  have hsplit : parts path = part :: parts rest := by
    rw [heq]
    exact List.splitOn_append_cons_self_of_not_mem hpart rest
  cases hrest : parts rest with
  | nil => exact absurd hrest (List.splitOn_ne_nil 46 rest)
  | cons next more => exact ⟨part, next, more, by rw [hsplit, hrest]⟩

theorem parts_ne_nil (path : Bytes) : parts path ≠ [] := List.splitOn_ne_nil 46 path

/-- A subscript fails on a scalar only, where there is nothing to read. -/
theorem entries_of_subscript_none {key : Bytes} (h : m.subscript n key = none) :
    (m.dataOf n).body.entries = [] := by
  unfold Memory.subscript at h
  split at h
  · rename_i text heq
    rw [heq]
    rfl
  · split at h
    · cases h
    · cases h

theorem value_of_subscript_none {key : Bytes} (h : m.subscript n key = none) : m.value n (key :: keys) = none := by
  rw [Memory.value, entries_of_subscript_none h]
  rfl

/-- What a walk does at a key: it fails, it ends, it leaves at an undefined value, or it goes on from the value. -/
theorem walk_step (stop : Bool) (key : Bytes) (keys : List Bytes) (hn : m.ref n < m.next) :
    m.subscript n key = none ∧ walk stop n (key :: keys) m = (none, m) ∨
    ∃ v m', Subscripted m n key v m' ∧
      (keys = [] ∧ walk stop n (key :: keys) m = (some v, m') ∨
        (stop = true ∧ (m'.dataOf v).defined = false) ∧ walk stop n (key :: keys) m = (none, m') ∨
        keys ≠ [] ∧ walk stop n (key :: keys) m = walk stop (m'.assign n v).1 keys (m'.assign n v).2) := by
  cases hsub : m.subscript n key with
  | none =>
    refine .inl ⟨rfl, ?_⟩
    cases keys with
    | nil => simp only [walk, hsub]
    | cons next rest => simp only [walk, hsub]
  | some answer =>
    obtain ⟨v, m'⟩ := answer
    refine .inr ⟨v, m', subscripted hn hsub, ?_⟩
    cases keys with
    | nil => exact .inl ⟨rfl, by simp only [walk, hsub]⟩
    | cons next rest =>
      simp only [walk, hsub]
      split
      · rename_i hstop
        exact .inr (.inl ⟨by simpa using hstop, rfl⟩)
      · exact .inr (.inr ⟨by simp, rfl⟩)

theorem walk_cons (stop : Bool) (key : Bytes) (keys : List Bytes) (hm : Graded rank depth m) (hn : n < m.next) :
    m.subscript n key = none ∧ walk stop n (key :: keys) m = (none, m) ∨
    ∃ v m', Subscripted m n key v m' ∧
      (keys = [] ∧ walk stop n (key :: keys) m = (some v, m') ∨
        (stop = true ∧ (m'.dataOf v).defined = false) ∧ walk stop n (key :: keys) m = (none, m') ∨
        keys ≠ [] ∧ walk stop n (key :: keys) m = walk stop (m'.assign n v).1 keys (m'.assign n v).2) :=
  walk_step stop key keys (hm.ref_lt n hn)

/-- The walk of `getPath` ends at the value at its path, however it has changed the nodes it passed. -/
theorem walk_value (hm : Graded rank depth m) (hn : n < m.next) (hkeys : keys ≠ []) :
    (walk false n keys m).1.bind (walk false n keys m).2.scalar = m.value n keys := by
  induction keys generalizing n m with
  | nil => exact absurd rfl hkeys
  | cons key keys ih =>
    obtain ⟨hsub, hwalk⟩ | ⟨v, m', hs, ⟨rfl, hwalk⟩ | ⟨⟨hstop, _⟩, _⟩ | ⟨hne, hwalk⟩⟩ :=
      walk_cons false key keys hm hn
    · rw [hwalk, value_of_subscript_none hsub]
      rfl
    · have hchild : m'.value v [] = m.value n [key] := hs.value_child hm hn
      rw [hwalk]
      exact hchild
    · cases hstop
    · rw [hwalk, ih (hs.hop_later hm hn).graded (hs.hop_lt hm hn) hne]
      exact (hs.hop_value hm hn).1

theorem getPath_value {T : Type} (as : Conversion T) (defaultValue : T) (hm : Graded rank depth m)
    (hroot : root < m.next) :
    (getPath as root path defaultValue m).1 = lookedUp as root path defaultValue m := by
  have hwalk := walk_value hm hroot (parts_ne_nil path)
  rw [lookedUp, ← hwalk]
  unfold getPath
  split
  · rename_i heq
    rw [heq]
    rfl
  · rename_i heq
    rw [heq]
    rfl

/-- A walk moves no node up. -/
theorem later_walk (stop : Bool) (hm : Graded rank depth m) (hn : n < m.next) :
    Later rank depth m (walk stop n keys m).2 := by
  induction keys generalizing n m with
  | nil => exact .refl hm
  | cons key keys ih =>
    obtain ⟨_, hwalk⟩ | ⟨v, m', hs, ⟨_, hwalk⟩ | ⟨_, hwalk⟩ | ⟨_, hwalk⟩⟩ :=
      walk_cons stop key keys hm hn
    · rw [hwalk]
      exact .refl hm
    · rw [hwalk]
      exact .subscript hs hm
    · rw [hwalk]
      exact .subscript hs hm
    · rw [hwalk]
      exact (hs.hop_later hm hn).trans (ih (hs.hop_later hm hn).graded (hs.hop_lt hm hn))

/-- The value a walk ends at lies as many steps deeper as the path has parts, or it is undefined. -/
theorem walk_below {r : Nat} {stop : Bool} (hm : Graded rank depth m) (hn : n < m.next) (h : Below rank r m n)
    (hkeys : keys ≠ []) (hwalk : walk stop n keys m = (some v, m')) (hv : (m'.dataOf v).defined = true) :
    r + keys.length ≤ depth := by
  induction keys generalizing n m r with
  | nil => exact absurd rfl hkeys
  | cons key keys ih =>
    obtain ⟨_, heq⟩ | ⟨w, m₁, hs, ⟨rfl, heq⟩ | ⟨_, heq⟩ | ⟨hne, heq⟩⟩ :=
      walk_cons stop key keys hm hn
    · rw [heq] at hwalk
      cases hwalk
    · rw [heq] at hwalk
      cases hwalk
      have hd := hs.deeper hm hn
      have hbelow := hd.below ((Later.subscript hs hm).below n hn r h) hv
      have hle := (hd hv).2.2
      simp only [List.length_cons, List.length_nil]
      omega
    · rw [heq] at hwalk
      cases hwalk
    · rw [heq] at hwalk
      have hlen := ih (hs.hop_later hm hn).graded (hs.hop_lt hm hn) (hs.hop_below hm hn h).2 hne hwalk
      simp only [List.length_cons]
      omega

/-- A lookup whose path is longer than the document is deep from where the node of `config_` lies. -/
theorem getPath_default {T : Type} (as : Conversion T) (defaultValue : T) {r : Nat} (hm : Graded rank depth m)
    (hroot : root < m.next) (h : Below rank r m root) (hlong : depth < r + (parts path).length) :
    (getPath as root path defaultValue m).1 = defaultValue := by
  unfold getPath
  split
  · rfl
  · rename_i v m' hwalk
    have hundefined : (m'.dataOf v).defined = false := by
      by_contra hne
      have hle := walk_below hm hroot h (parts_ne_nil path) hwalk (by simpa using hne)
      omega
    rw [Memory.scalar_undefined hundefined]
    rfl

/-! ### Sequences of lookups -/

theorem after_eq (root : NodeId) (m : Memory) (c : Call) :
    c.after root m = (walk (!c.reads) root (parts c.path) m).2 := by
  cases c with
  | getPath as path defaultValue =>
    simp only [Call.after, getPath, Call.reads, Call.path, Bool.not_true]
    split
    · rename_i heq
      rw [heq]
    · rename_i heq
      rw [heq]
  | hasKey key =>
    simp only [Call.after, hasKey, Call.reads, Call.path, Bool.not_false]
    split
    · rename_i heq
      rw [heq]
    · rename_i heq
      rw [heq]

theorem later_after (hm : Graded rank depth m) (hroot : root < m.next) (c : Call) :
    Later rank depth m (c.after root m) := by
  rw [after_eq]
  exact later_walk _ hm hroot

/-- A path without a dot is one subscript. -/
theorem undotted_after (hroot : m.ref root < m.next) {c : Call} (hc : c.dotted = false) :
    c.after root m = m ∨ ∃ v, Subscripted m root c.path v (c.after root m) := by
  rw [after_eq, parts_of_undotted hc]
  obtain ⟨_, hwalk⟩ | ⟨v, m', hs, ⟨_, hwalk⟩ | ⟨_, hwalk⟩ | ⟨hne, _⟩⟩ :=
    walk_step (!c.reads) c.path [] hroot
  · rw [hwalk]
    exact .inl rfl
  · rw [hwalk]
    exact .inr ⟨v, hs⟩
  · rw [hwalk]
    exact .inr ⟨v, hs⟩
  · exact absurd rfl hne

end

/-! ### Where nothing has been moved -/

section Undisturbed

variable {doc m m' : Memory} {n root v : NodeId} {key : Bytes} {keys : List Bytes} {moved : NodeId → Bool}

/-- A walk adds undefined values and re-points nodes, and does nothing else. -/
theorem grown_walk (stop : Bool) (h : Grown doc m) (hn : n < m.next) : Grown doc (walk stop n keys m).2 := by
  induction keys generalizing n m with
  | nil => exact h
  | cons key keys ih =>
    obtain ⟨_, hwalk⟩ | ⟨v, m', hs, ⟨_, hwalk⟩ | ⟨_, hwalk⟩ | ⟨_, hwalk⟩⟩ :=
      walk_step stop key keys (h.closed.ref_lt n hn)
    · rw [hwalk]
      exact h
    · rw [hwalk]
      exact h.subscript hs hn
    · rw [hwalk]
      exact h.subscript hs hn
    · have h' := h.subscript hs hn
      have hv := h.child_lt hs hn h'.closed
      have hn' := Nat.lt_of_lt_of_le hn hs.next_le
      rw [hwalk]
      exact ih (h'.assign hv fun hle => h.child_new hs hn hle) (by simpa using assign_lt hn' hv)

/-- From an added node a walk finds nothing. -/
theorem walk_new (h : Grown doc m) (hn : n < m.next) (hle : doc.next ≤ n) :
    (walk false n keys m).1.bind (walk false n keys m).2.scalar = none := by
  induction keys generalizing n m with
  | nil => exact h.scalar_new hn hle
  | cons key keys ih =>
    obtain ⟨_, hwalk⟩ | ⟨v, m', hs, ⟨_, hwalk⟩ | ⟨⟨hstop, _⟩, _⟩ | ⟨_, hwalk⟩⟩ :=
      walk_step false key keys (h.closed.ref_lt n hn)
    · rw [hwalk]
      rfl
    · have h' := h.subscript hs hn
      rw [hwalk]
      exact h'.scalar_new (h.child_lt hs hn h'.closed) (h.child_new hs hn hle)
    · cases hstop
    · have h' := h.subscript hs hn
      have hv := h.child_lt hs hn h'.closed
      have hn' := Nat.lt_of_lt_of_le hn hs.next_le
      rw [hwalk]
      refine ih (h'.assign hv fun hle => h.child_new hs hn hle) (by simpa using assign_lt hn' hv) ?_
      unfold Memory.assign
      split
      · exact hle
      · exact h.child_new hs hn hle

/-- At a key that the document does not have, a walk finds nothing. -/
theorem walk_missing (h : Grown doc m) (hn : n < doc.next) (hd : doc.ref n < doc.next)
    (hplace : m.ref n = doc.ref n) (hnone : (doc.dataOf n).body.entries.lookup key = none) :
    (walk false n (key :: keys) m).1.bind (walk false n (key :: keys) m).2.scalar = none := by
  have hn' := Nat.lt_of_lt_of_le hn h.next_le
  obtain ⟨_, hwalk⟩ | ⟨v, m', hs, hcase⟩ := walk_step false key keys (h.closed.ref_lt n hn')
  · rw [hwalk]
    rfl
  · have h' := h.subscript hs hn'
    have hv := h.child_lt hs hn' h'.closed
    have hnew : doc.next ≤ v := by
      have hchild := hs.child
      rw [hplace] at hchild
      obtain hold | ⟨_, hnew⟩ := h'.lookup hd hchild
      · rw [Memory.dataOf, hold] at hnone
        cases hnone
      · exact hnew
    obtain ⟨_, hwalk⟩ | ⟨⟨hstop, _⟩, _⟩ | ⟨_, hwalk⟩ := hcase
    · rw [hwalk]
      exact h'.scalar_new hv hnew
    · cases hstop
    · have hne : m'.ref n ≠ m'.ref v := by
        have hold : m'.ref n < doc.next := by
          rw [hs.ref_eq n hn', hplace]
          exact hd
        exact Nat.ne_of_lt (Nat.lt_of_lt_of_le hold (h'.new v hv hnew).1)
      have hhandle : (m'.assign n v).1 = v := by simp [Memory.assign, hne]
      rw [hwalk, hhandle]
      exact walk_new (h'.assign hv fun hle => absurd hn (Nat.not_lt.2 hle)) (by simpa using hv) hnew

/-- The walk of `getPath` ends at the value at its path, if it meets no moved node on the way. -/
theorem walk_unmoved (hdoc : Closed doc) (hinj : ∀ n < doc.next, ∀ n' < doc.next, doc.ref n = doc.ref n' → n = n')
    (h : Grown doc m) (hempty : ∀ d < doc.next, (doc.data d).body.entries = [] → m.data d = doc.data d)
    (hmoved : ∀ u < doc.next, moved u = false → m.ref u = doc.ref u) (hn : n < doc.next)
    (hmeets : meetsMoved doc moved n keys = false) (hkeys : keys ≠ []) :
    (walk false n keys m).1.bind (walk false n keys m).2.scalar = doc.value n keys := by
  induction keys generalizing n m moved with
  | nil => exact absurd rfl hkeys
  | cons key keys ih =>
    have hn' := Nat.lt_of_lt_of_le hn h.next_le
    have hd := hdoc.ref_lt n hn
    have hplace : m.ref n = doc.ref n := by
      refine hmoved n hn ?_
      cases keys with
      | nil => exact (Bool.or_eq_false_iff.1 hmeets).1
      | cons next rest => exact (Bool.or_eq_false_iff.1 hmeets).1
    rw [Memory.value]
    cases hc : (doc.dataOf n).body.entries.lookup key with
    | none => exact walk_missing h hn hd hplace hc
    | some c =>
      have hcl : c < doc.next := hdoc.entry_lt _ hd (key, c) (mem_of_lookup hc)
      obtain ⟨hsub, _⟩ | ⟨v, m', hs, hcase⟩ := walk_step false key keys (h.closed.ref_lt n hn')
      · -- a subscript fails on scalars only
        have hnil := entries_of_subscript_none hsub
        obtain ⟨added, heq, _⟩ := h.entries hd
        rw [Memory.dataOf, hplace, heq, List.append_eq_nil_iff] at hnil
        rw [Memory.dataOf, hnil.1] at hc
        cases hc
      · have h' := h.subscript hs hn'
        have hv : v = c := by
          have hchild := hs.child
          rw [hplace] at hchild
          obtain hold | ⟨hnone, _⟩ := h'.lookup hd hchild
          · rw [Memory.dataOf, hold] at hc
            exact Option.some.inj hc
          · rw [Memory.dataOf, hnone] at hc
            cases hc
        subst hv
        have hv' := Nat.lt_of_lt_of_le hcl h.next_le
        have hempty' : ∀ d < doc.next, (doc.data d).body.entries = [] → m'.data d = doc.data d := by
          intro d hdlt hnil
          rw [hs.other d (Nat.lt_of_lt_of_le hdlt h.next_le), hempty d hdlt hnil]
          rintro rfl
          rw [Memory.dataOf, ← hplace, hnil] at hc
          cases hc
        obtain ⟨rfl, hwalk⟩ | ⟨⟨hstop, _⟩, _⟩ | ⟨hne, hwalk⟩ := hcase
        · have hcplace : m'.ref v = doc.ref v := by
            rw [hs.ref_eq v hv']
            refine hmoved v hcl ?_
            rw [meetsMoved, hc] at hmeets
            exact (Bool.or_eq_false_iff.1 hmeets).2
          rw [hwalk]
          exact h'.scalar_eq hcplace (hdoc.ref_lt v hcl) (hempty' _ (hdoc.ref_lt v hcl))
        · cases hstop
        · obtain ⟨next, rest, rfl⟩ := List.exists_cons_of_ne_nil hne
          rw [meetsMoved, hc, Bool.or_eq_false_iff] at hmeets
          obtain ⟨-, hrest⟩ := hmeets
          dsimp only at hrest
          rw [hwalk]
          by_cases hself : v = n
          · -- the value is the node itself: the assignment does nothing
            subst hself
            have hsame : m'.assign v v = (v, m') := by simp [Memory.assign]
            rw [if_pos rfl] at hrest
            rw [hsame]
            refine ih h' hempty' ?_ hcl hrest hne
            intro u hu hfalse
            rw [hs.ref_eq u (Nat.lt_of_lt_of_le hu h.next_le)]
            exact hmoved u hu hfalse
          · rw [if_neg hself] at hrest
            have hcplace : m'.ref v = doc.ref v := by
              rw [hs.ref_eq v hv']
              refine hmoved v hcl ?_
              have hhead : (v == n || moved v) = false := by
                cases rest with
                | nil => exact (Bool.or_eq_false_iff.1 hrest).1
                | cons second more => exact (Bool.or_eq_false_iff.1 hrest).1
              exact (Bool.or_eq_false_iff.1 hhead).2
            have hrefs : m'.ref n ≠ m'.ref v := by
              rw [hs.ref_eq n hn', hplace, hcplace]
              intro heq
              exact hself (hinj n hn v hcl heq).symm
            have hhandle : (m'.assign n v).1 = v := by simp [Memory.assign, hrefs]
            rw [hhandle]
            refine ih (h'.assign (Nat.lt_of_lt_of_le hv' hs.next_le) fun hle => absurd hn (Nat.not_lt.2 hle))
              (by simpa using hempty') ?_ hcl hrest hne
            intro u hu hfalse
            obtain ⟨hun, hfalse⟩ := Bool.or_eq_false_iff.1 hfalse
            rw [assign_ref, Function.update_of_ne (by simpa using hun),
              hs.ref_eq u (Nat.lt_of_lt_of_le hu h.next_le)]
            exact hmoved u hu hfalse

/-- No node has been re-pointed; only the data of the root may have got more entries. -/
structure InPlace (root : NodeId) (doc m : Memory) : Prop where
  grown : Grown doc m
  ref_eq : ∀ u < doc.next, m.ref u = doc.ref u
  data_eq : ∀ d < doc.next, d ≠ doc.ref root → m.data d = doc.data d

/-- The data of the root is lost: no node refers to it. -/
structure Displaced (root : NodeId) (doc m : Memory) : Prop where
  grown : Grown doc m
  lost : ∀ u < m.next, m.ref u ≠ doc.ref root

theorem InPlace.refl (h : Closed doc) : InPlace root doc doc := ⟨.refl h, fun _ _ => rfl, fun _ _ _ => rfl⟩

theorem InPlace.subscript (h : InPlace root doc m) (hroot : root < doc.next) (hs : Subscripted m root key v m') :
    InPlace root doc m' := by
  have hle := h.grown.next_le
  refine ⟨h.grown.subscript hs (Nat.lt_of_lt_of_le hroot hle), ?_, ?_⟩
  · intro u hu
    rw [hs.ref_eq u (Nat.lt_of_lt_of_le hu hle)]
    exact h.ref_eq u hu
  · intro d hd hne
    rw [hs.other d (Nat.lt_of_lt_of_le hd hle) (by rw [h.ref_eq root hroot]; exact hne)]
    exact h.data_eq d hd hne

theorem Displaced.walk (stop : Bool) (hd : doc.ref root < doc.next) (h : Displaced root doc m) (hn : n < m.next) :
    Displaced root doc (Config.walk stop n keys m).2 := by
  refine ⟨grown_walk stop h.grown hn, ?_⟩
  induction keys generalizing n m with
  | nil => exact h.lost
  | cons key keys ih =>
    have hlost' : ∀ {v m'}, Subscripted m n key v m' → ∀ u < m'.next, m'.ref u ≠ doc.ref root := by
      intro v m' hs u hu
      by_cases hold : u < m.next
      · rw [hs.ref_eq u hold]
        exact h.lost u hold
      · have hle := (hs.undefined_new u hu (Nat.le_of_not_lt hold)).1
        have hnext := h.grown.next_le
        omega
    obtain ⟨_, hwalk⟩ | ⟨v, m', hs, ⟨_, hwalk⟩ | ⟨_, hwalk⟩ | ⟨_, hwalk⟩⟩ :=
      walk_step stop key keys (h.grown.closed.ref_lt n hn)
    · rw [hwalk]
      exact h.lost
    · rw [hwalk]
      exact hlost' hs
    · rw [hwalk]
      exact hlost' hs
    · have h' := h.grown.subscript hs hn
      have hv := h.grown.child_lt hs hn h'.closed
      rw [hwalk]
      refine ih ⟨h'.assign hv fun hle => h.grown.child_new hs hn hle, ?_⟩
        (by simpa using assign_lt (Nat.lt_of_lt_of_le hn hs.next_le) hv)
      intro u hu
      rw [assign_next] at hu
      rw [assign_ref]
      by_cases hun : u = n
      · rw [hun, Function.update_self]
        exact hlost' hs v hv
      · rw [Function.update_of_ne hun]
        exact hlost' hs u hu

/-- A walk from the root leaves all nodes in place, or the data of the root is lost. -/
theorem InPlace.walk (stop : Bool) (hdoc : Closed doc)
    (hinj : ∀ n < doc.next, ∀ n' < doc.next, doc.ref n = doc.ref n' → n = n') (h : InPlace root doc m)
    (hroot : root < doc.next) :
    InPlace root doc (Config.walk stop root keys m).2 ∨ Displaced root doc (Config.walk stop root keys m).2 := by
  have hd := hdoc.ref_lt root hroot
  induction keys generalizing m with
  | nil => exact .inl h
  | cons key keys ih =>
    have hroot' := Nat.lt_of_lt_of_le hroot h.grown.next_le
    obtain ⟨_, hwalk⟩ | ⟨v, m', hs, ⟨_, hwalk⟩ | ⟨_, hwalk⟩ | ⟨_, hwalk⟩⟩ :=
      walk_step stop key keys (h.grown.closed.ref_lt root hroot')
    · rw [hwalk]
      exact .inl h
    · rw [hwalk]
      exact .inl (h.subscript hroot hs)
    · rw [hwalk]
      exact .inl (h.subscript hroot hs)
    · have h' := h.subscript hroot hs
      rw [hwalk]
      by_cases heq : m'.ref root = m'.ref v
      · have hsame : m'.assign root v = (root, m') := by simp [Memory.assign, heq]
        rw [hsame]
        exact ih h'
      · right
        have hv := h.grown.child_lt hs hroot' h'.grown.closed
        have hgrown := h'.grown.assign hv fun hle => absurd hroot (Nat.not_lt.2 hle)
        refine Displaced.walk stop hd ⟨hgrown, ?_⟩
          (by simpa using assign_lt (Nat.lt_of_lt_of_le hroot' hs.next_le) hv)
        -- the root was the only node with its data
        intro u hu
        rw [assign_next] at hu
        rw [assign_ref]
        by_cases hun : u = root
        · rw [hun, Function.update_self, ← h'.ref_eq root hroot]
          exact Ne.symm heq
        · rw [Function.update_of_ne hun]
          by_cases hold : u < doc.next
          · rw [h'.ref_eq u hold]
            intro hsame
            exact hun (hinj u hold root hroot hsame)
          · have hnew := (h'.grown.new u hu (Nat.le_of_not_lt hold)).1
            omega

/-- An undisturbed `getPath` answers what the document holds. -/
theorem InPlace.getPath {T : Type} {path : Bytes} (as : Conversion T) (defaultValue : T) (hdoc : Closed doc)
    (hinj : ∀ n < doc.next, ∀ n' < doc.next, doc.ref n = doc.ref n' → n = n') (h : InPlace root doc m)
    (hroot : root < doc.next) (hmeets : meetsMoved doc (fun _ => false) root (parts path) = false) :
    (Config.getPath as root path defaultValue m).1 = lookedUp as root path defaultValue doc := by
  have hwalk : (Config.walk false root (parts path) m).1.bind (Config.walk false root (parts path) m).2.scalar =
      doc.value root (parts path) := by
    by_cases hnil : (doc.dataOf root).body.entries = []
    · -- nothing can be read in the document
      obtain ⟨key, keys, hparts⟩ := List.exists_cons_of_ne_nil (parts_ne_nil path)
      have hnone : (doc.dataOf root).body.entries.lookup key = none := by rw [hnil]; rfl
      rw [hparts, Memory.value, hnone]
      exact walk_missing h.grown hroot (hdoc.ref_lt root hroot) (h.ref_eq root hroot) hnone
    · refine walk_unmoved hdoc hinj h.grown ?_ (fun u hu _ => h.ref_eq u hu) hroot hmeets (parts_ne_nil path)
      intro d hd hempty
      refine h.data_eq d hd ?_
      rintro rfl
      exact hnil hempty
  rw [lookedUp, ← hwalk]
  unfold Config.getPath
  split
  · rename_i heq
    rw [heq]
    rfl
  · rename_i heq
    rw [heq]
    rfl

theorem truthful_of_undisturbed {calls : List Call} (hdoc : Closed doc)
    (hinj : ∀ n < doc.next, ∀ n' < doc.next, doc.ref n = doc.ref n' → n = n') (hroot : root < doc.next)
    (h : InPlace root doc m ∨ Displaced root doc m) (hcalls : Undisturbed root doc calls m) :
    Truthful root doc calls m := by
  induction calls generalizing m with
  | nil => trivial
  | cons c calls ih =>
    obtain ⟨hcall, hrest⟩ := hcalls
    have hnext : InPlace root doc (c.after root m) ∨ Displaced root doc (c.after root m) := by
      rw [after_eq]
      rcases h with h | h
      · exact h.walk _ hdoc hinj hroot
      · exact .inr (h.walk _ (hdoc.ref_lt root hroot) (Nat.lt_of_lt_of_le hroot h.grown.next_le))
    refine ⟨?_, ih hnext hrest⟩
    cases c with
    | getPath as path defaultValue =>
      obtain ⟨hplace, hmeets⟩ := hcall
      rcases h with h | h
      · exact h.getPath as defaultValue hdoc hinj hroot hmeets
      · exact absurd hplace (h.lost root (Nat.lt_of_lt_of_le hroot h.grown.next_le))
    | hasKey key => trivial

end Undisturbed

/-- On every document, whatever its aliases, the `getPath` calls of an undisturbed sequence of lookups answer
what the document holds. -/
theorem lookups_truthful (doc : Document) (calls : List Call)
    (h : Undisturbed doc.root doc.memory calls doc.memory) : Truthful doc.root doc.memory calls doc.memory :=
  truthful_of_undisturbed doc.closed doc.ref_inj doc.root_lt (.inl (.refl doc.closed)) h

section

variable {rank : Nat → Nat} {depth : Nat} {m : Memory} {n root v : NodeId} {path : Bytes} {keys : List Bytes}

/-- In a document without recursive aliases no loop comes back. -/
theorem meetsMoved_of_graded {doc : Memory} {moved : NodeId → Bool} (hm : Graded rank depth doc) (hn : n < doc.next)
    (hdefined : ∀ u < doc.next, (doc.dataOf u).defined = true)
    (hmoved : ∀ u, moved u = true → rank (doc.ref u) < rank (doc.ref n)) : meetsMoved doc moved n keys = false := by
  have hfalse : ∀ u, rank (doc.ref n) ≤ rank (doc.ref u) → moved u = false := by
    intro u hle
    by_contra hne
    have hlt := hmoved u (by simpa using hne)
    omega
  induction keys generalizing n moved with
  | nil => exact hfalse n le_rfl
  | cons key keys ih =>
    have hchild : ∀ v, (doc.dataOf n).body.entries.lookup key = some v →
        v < doc.next ∧ rank (doc.ref n) < rank (doc.ref v) := by
      intro v hv
      obtain ⟨hlt, hdeep⟩ := hm.child hn hv
      exact ⟨hlt, (hdeep (hdefined v hlt)).2.1⟩
    cases keys with
    | nil =>
      rw [meetsMoved, hfalse n le_rfl, Bool.false_or]
      cases hv : (doc.dataOf n).body.entries.lookup key with
      | none => rfl
      | some v => exact hfalse v (Nat.le_of_lt (hchild v hv).2)
    | cons next rest =>
      rw [meetsMoved, hfalse n le_rfl, Bool.false_or]
      cases hv : (doc.dataOf n).body.entries.lookup key with
      | none => rfl
      | some v =>
        obtain ⟨hlt, hrank⟩ := hchild v hv
        have hself : v ≠ n := by
          rintro rfl
          omega
        have hmoved' : ∀ u, (u == n || moved u) = true → rank (doc.ref u) < rank (doc.ref v) := by
          intro u hu
          rcases Bool.or_eq_true_iff.1 hu with hu | hu
          · rw [eq_of_beq hu]
            exact hrank
          · have hlt' := hmoved u hu
            omega
        dsimp only
        rw [if_neg hself]
        refine ih hlt hmoved' ?_
        intro u hle
        by_contra hne
        have hlt' := hmoved' u (Bool.eq_true_of_not_eq_false hne)
        omega

theorem undisturbed_of_no_reads {doc : Memory} {calls : List Call} (h : ∀ c ∈ calls, c.reads = false) :
    Undisturbed root doc calls m := by
  induction calls generalizing m with
  | nil => trivial
  | cons c calls ih =>
    refine ⟨?_, ih fun c' hc' => h c' (List.mem_cons_of_mem _ hc')⟩
    cases c with
    | getPath as path defaultValue => cases h _ List.mem_cons_self
    | hasKey key => trivial

/-- As long as no path has had a dot, nothing has been moved. -/
theorem undisturbed_of_pairwise {doc : Memory} {calls : List Call} (hroot : root < m.next)
    (hclosed : m.ref root < m.next) (hplace : m.ref root = doc.ref root)
    (hmeets : ∀ keys, meetsMoved doc (fun _ => false) root keys = false)
    (hcalls : calls.Pairwise fun earlier later => earlier.dotted = true → later.reads = false) :
    Undisturbed root doc calls m := by
  induction calls generalizing m with
  | nil => trivial
  | cons c calls ih =>
    obtain ⟨hlater, hrest⟩ := List.pairwise_cons.1 hcalls
    constructor
    · cases c with
      | getPath as path defaultValue => exact ⟨hplace, hmeets _⟩
      | hasKey key => trivial
    · cases hc : c.dotted with
      | true => exact undisturbed_of_no_reads fun c' hc' => hlater c' hc' hc
      | false =>
        obtain heq | ⟨v, hs⟩ := undotted_after hclosed hc
        · rw [heq]
          exact ih hroot hclosed hplace hrest
        · have href := hs.ref_eq root hroot
          exact ih (Nat.lt_of_lt_of_le hroot hs.next_le)
            (by rw [href]; exact Nat.lt_of_lt_of_le hclosed hs.next_le) (href.trans hplace) hrest

/-- Otherwise there is a first path with a dot, and a `getPath` after it. -/
theorem exists_read_after_dotted {calls : List Call}
    (h : ¬ calls.Pairwise fun earlier later => earlier.dotted = true → later.reads = false) :
    ∃ before c between g rest, calls = before ++ c :: (between ++ g :: rest) ∧
      (∀ b ∈ before, b.dotted = false) ∧ c.dotted = true ∧ g.reads = true := by
  induction calls with
  | nil => exact absurd List.Pairwise.nil h
  | cons c calls ih =>
    cases hc : c.dotted with
    | false =>
      have hrest : ¬ calls.Pairwise fun earlier later => earlier.dotted = true → later.reads = false := by
        intro hpair
        refine h (List.pairwise_cons.2 ⟨?_, hpair⟩)
        intro _ _ hdotted
        rw [hc] at hdotted
        cases hdotted
      obtain ⟨before, c', between, g, rest, heq, hbefore, hdotted, hreads⟩ := ih hrest
      refine ⟨c :: before, c', between, g, rest, by rw [heq]; rfl, ?_, hdotted, hreads⟩
      intro b hb
      rcases List.mem_cons.1 hb with rfl | hb
      · exact hc
      · exact hbefore b hb
    | true =>
      by_cases hread : ∃ g ∈ calls, g.reads = true
      · obtain ⟨g, hg, hreads⟩ := hread
        obtain ⟨between, rest, heq⟩ := List.append_of_mem hg
        exact ⟨[], c, between, g, rest, by rw [heq]; rfl, by simp, hc, hreads⟩
      · have hnone : ∀ g ∈ calls, g.reads = false := by
          intro g hg
          by_contra hne
          exact hread ⟨g, hg, by simpa using hne⟩
        refine absurd (List.pairwise_cons.2 ⟨fun g hg _ => hnone g hg, ?_⟩) h
        exact List.pairwise_of_forall_mem_list fun _ _ g hg _ => hnone g hg

theorem truthful_append {doc : Memory} {calls calls' : List Call} :
    Truthful root doc (calls ++ calls') m ↔
      Truthful root doc calls m ∧ Truthful root doc calls' (calls.foldl (Call.after root) m) := by
  induction calls generalizing m with
  | nil => exact (and_iff_right trivial).symm
  | cons c calls ih =>
    rw [List.cons_append, Truthful, ih, Truthful, List.foldl_cons, and_assoc]

theorem later_calls (hm : Graded rank depth m) (hroot : root < m.next) (calls : List Call) :
    Later rank depth m (calls.foldl (Call.after root) m) := by
  induction calls generalizing m with
  | nil => exact .refl hm
  | cons c calls ih =>
    have hlater := later_after hm hroot c
    exact hlater.trans (ih hlater.graded (Nat.lt_of_lt_of_le hroot hlater.next_le))

/-- Paths without a dot leave the entries of the root in place. -/
theorem lookup_undotted {key : Bytes} {calls : List Call} (hm : Graded rank depth m) (hroot : root < m.next)
    (hcalls : ∀ c ∈ calls, c.dotted = false) (hv : v < m.next)
    (hlookup : (m.dataOf root).body.entries.lookup key = some v) (hdef : (m.dataOf v).defined = true) :
    ((calls.foldl (Call.after root) m).dataOf root).body.entries.lookup key = some v ∧
      ((calls.foldl (Call.after root) m).dataOf v).defined = true := by
  induction calls generalizing m with
  | nil => exact ⟨hlookup, hdef⟩
  | cons c calls ih =>
    have hlater := later_after hm hroot c
    have hrest : ∀ c' ∈ calls, c'.dotted = false := fun c' hc' => hcalls c' (List.mem_cons_of_mem _ hc')
    have hroot' : root < (c.after root m).next := Nat.lt_of_lt_of_le hroot hlater.next_le
    have hv' : v < (c.after root m).next := Nat.lt_of_lt_of_le hv hlater.next_le
    refine ih hlater.graded hroot' hrest hv' ?_ ?_
    · obtain heq | ⟨w, hs⟩ := undotted_after (hm.ref_lt root hroot) (hcalls c List.mem_cons_self)
      · rw [heq]
        exact hlookup
      · obtain ⟨added, hentries, _⟩ := hs.entries
        rw [Memory.dataOf, hs.ref_eq root hroot, hentries, List.lookup_append, hlookup]
        rfl
    · obtain heq | ⟨w, hs⟩ := undotted_after (hm.ref_lt root hroot) (hcalls c List.mem_cons_self)
      · rw [heq]
        exact hdef
      · rw [hs.dataOf_defined hm hv]
        exact hdef

/-- A path with a dot whose first part is there makes the node of `config_` refer to deeper data. -/
theorem below_dotted {key : Bytes} {next : Bytes} {rest : List Bytes} {c : Call} (hm : Graded rank depth m)
    (hroot : root < m.next) (hparts : parts c.path = key :: next :: rest)
    (hlookup : (m.dataOf root).body.entries.lookup key = some v) (hdef : (m.dataOf v).defined = true) :
    Below rank 1 (c.after root m) root := by
  rw [after_eq, hparts]
  obtain ⟨hnone, _⟩ | ⟨w, m', hs, ⟨hnil, _⟩ | ⟨⟨_, hstop⟩, _⟩ | ⟨_, hwalk⟩⟩ :=
    walk_cons (!c.reads) key (next :: rest) hm hroot
  · rw [entries_of_subscript_none hnone] at hlookup
    cases hlookup
  · cases hnil
  · obtain ⟨added, hentries, _⟩ := hs.entries
    have hchild := hs.child
    rw [hentries, List.lookup_append, hlookup] at hchild
    cases hchild
    rw [hs.dataOf_defined hm (hm.child hroot hlookup).1, hdef] at hstop
    cases hstop
  · rw [hwalk]
    have hbelow : Below rank 1 (m'.assign root w).2 root :=
      (hs.hop_below hm hroot (r := 0) fun _ => Nat.zero_le _).1
    have hroot' : root < (m'.assign root w).2.next :=
      Nat.lt_of_lt_of_le hroot (hs.hop_later hm hroot).next_le
    exact (later_walk _ (hs.hop_later hm hroot).graded (hs.hop_lt hm hroot)).below root hroot' 1 hbelow

end

/-! ### A document for each pair of paths -/

/-- A text at the path `keys`, and an empty entry `first` next to the first of them. -/
def single (keys : List Bytes) (first text : Bytes) : Memory where
  ref := id
  data d :=
    ⟨true,
      if d < keys.length then
        .map ((keys.getD d [], d + 1) :: if d = 0 then [(first, keys.length + 1)] else [])
      else if d = keys.length then .scalar text
      else .null⟩
  next := keys.length + 2

section Single

variable {keys : List Bytes} {first text : Bytes}

theorem entries_single {d : Nat} (hd : d < keys.length) :
    ((single keys first text).dataOf d).body.entries =
      (keys[d], d + 1) :: if d = 0 then [(first, keys.length + 1)] else [] := by
  have hget : keys.getD d [] = keys[d] := List.getD_eq_getElem _ _ hd
  have hbody : ((single keys first text).dataOf d).body.entries =
      (keys.getD d [], d + 1) :: if d = 0 then [(first, keys.length + 1)] else [] := by
    simp only [Memory.dataOf, single, id_eq, hd, if_true, Body.entries_map]
  rw [hbody, hget]

theorem single_entry {d : Nat} {e : Bytes × NodeId} (he : e ∈ ((single keys first text).data d).body.entries) :
    d < keys.length ∧ (e.2 = d + 1 ∨ d = 0 ∧ e.2 = keys.length + 1) := by
  by_cases hd : d < keys.length
  · simp only [single, hd, if_true, Body.entries_map, List.mem_cons] at he
    refine ⟨hd, ?_⟩
    rcases he with rfl | he
    · exact .inl rfl
    · by_cases h0 : d = 0
      · simp only [h0, if_true, List.mem_singleton] at he
        exact .inr ⟨h0, by rw [he]⟩
      · simp [h0] at he
  · by_cases hlen : d = keys.length
    · simp [single, hlen, Body.entries] at he
    · simp [single, hd, hlen] at he

/-- The rank of an entry is its depth. -/
def singleRank (keys : List Bytes) (d : Nat) : Nat := if d = keys.length + 1 then 1 else d

theorem graded_single (hkeys : keys ≠ []) : Graded (singleRank keys) keys.length (single keys first text) := by
  have hlen : 0 < keys.length := List.length_pos_iff.2 hkeys
  refine ⟨fun n hn => hn, ?_⟩
  intro d _ e he
  obtain ⟨hd, hcase⟩ := single_entry he
  have hnext : (single keys first text).next = keys.length + 2 := rfl
  have href : (single keys first text).ref e.2 = e.2 := rfl
  rw [hnext, href]
  have hlt : e.2 < keys.length + 2 := by
    rcases hcase with hcase | ⟨_, hcase⟩
    · rw [hcase]
      exact Nat.succ_lt_succ (Nat.lt_succ_of_lt hd)
    · rw [hcase]
      exact Nat.lt_succ_self _
  refine ⟨hlt, fun _ => ⟨rfl, ?_⟩⟩
  unfold singleRank
  rcases hcase with hcase | ⟨h0, hcase⟩
  · rw [hcase]
    split
    · omega
    · split
      · omega
      · omega
  · rw [hcase, h0]
    simp
    omega

theorem value_single (k : Nat) (hk : k ≤ keys.length) :
    (single keys first text).value k (keys.drop k) = some (some text) := by
  generalize hrest : keys.drop k = rest
  induction rest generalizing k with
  | nil =>
    have hlen : k = keys.length := by
      have := List.drop_eq_nil_iff.1 hrest
      omega
    subst hlen
    simp [Memory.value, Memory.scalar, Memory.dataOf, single]
  | cons key rest ih =>
    have hlt : k < keys.length := by
      by_contra hge
      rw [List.drop_eq_nil_iff.2 (by omega)] at hrest
      cases hrest
    rw [List.drop_eq_getElem_cons hlt] at hrest
    obtain ⟨hkey, htail⟩ := List.cons.inj hrest
    have hentry : ((single keys first text).dataOf k).body.entries.lookup key = some (k + 1) := by
      rw [entries_single hlt, hkey, List.lookup_cons_self]
    rw [Memory.value, hentry]
    exact ih (k + 1) hlt htail

theorem lookup_single (hkeys : keys ≠ []) (first text : Bytes) :
    ∃ v, v < (single keys first text).next ∧
      ((single keys first text).dataOf 0).body.entries.lookup first = some v := by
  have hlen : 0 < keys.length := List.length_pos_iff.2 hkeys
  by_cases hfirst : first = keys[0]
  · refine ⟨1, by simp only [single]; omega, ?_⟩
    rw [entries_single hlen, ← hfirst, List.lookup_cons_self]
  · refine ⟨keys.length + 1, by simp only [single]; omega, ?_⟩
    have hne : (first == keys[0]) = false := beq_eq_false_iff_ne.2 hfirst
    rw [entries_single hlen, List.lookup_cons, hne, if_pos rfl, List.lookup_cons_self]

/-- The document itself. -/
def singleDocument (hkeys : keys ≠ []) (first text : Bytes) : Document where
  root := 0
  memory := single keys first text
  root_lt := Nat.succ_pos _
  ref_lt := fun _ hn => hn
  ref_inj := fun _ _ _ _ heq => heq
  entry_lt := fun d hd e he => ((graded_single hkeys).entry d hd e he).1
  defined := fun _ _ => rfl

theorem singleDocument_acyclic (hkeys : keys ≠ []) : (singleDocument hkeys first text).Acyclic := by
  refine ⟨singleRank keys, ?_⟩
  intro d hd e he
  exact (((graded_single hkeys).entry d hd e he).2 rfl).2.1

end Single

/-- In this document a `getPath` after a path with a dot misses the text at its own path. -/
theorem not_truthful_of_read {before : List Call} {c g : Call} (between rest : List Call)
    (hbefore : ∀ b ∈ before, b.dotted = false) (hc : c.dotted = true) (hg : g.reads = true) :
    ∃ doc : Document, doc.Acyclic ∧
      ¬ Truthful doc.root doc.memory (before ++ c :: (between ++ g :: rest)) doc.memory := by
  cases g with
  | hasKey key => cases hg
  | @getPath T as path defaultValue =>
    obtain ⟨text, x, htext, hother⟩ := as.other defaultValue
    obtain ⟨first, next, more, hparts⟩ := parts_of_dotted hc
    have hkeys : parts path ≠ [] := parts_ne_nil path
    refine ⟨singleDocument hkeys first text, singleDocument_acyclic hkeys, ?_⟩
    have hgraded : Graded (singleRank (parts path)) (parts path).length (single (parts path) first text) :=
      graded_single hkeys
    have hroot : 0 < (single (parts path) first text).next := Nat.succ_pos _
    intro htruthful
    obtain ⟨_, _, htruthful⟩ := truthful_append.1 htruthful
    obtain ⟨_, hread, _⟩ := truthful_append.1 htruthful
    -- before the dotted path the first part is found, after it the root lies deeper
    have hlater := later_calls hgraded hroot before
    obtain ⟨v, hv, hlookup⟩ := lookup_single hkeys first text
    obtain ⟨hlookup', hdef⟩ := lookup_undotted hgraded hroot hbefore hv hlookup rfl
    have hroot' := Nat.lt_of_lt_of_le hroot hlater.next_le
    have hbelow := below_dotted hlater.graded hroot' hparts hlookup' hdef
    have hafter := later_after hlater.graded hroot' c
    have hroot'' := Nat.lt_of_lt_of_le hroot' hafter.next_le
    have hbetween := later_calls hafter.graded hroot'' between
    have hlong : (parts path).length < 1 + (parts path).length := by omega
    have hdefault := getPath_default as defaultValue hbetween.graded
      (Nat.lt_of_lt_of_le hroot'' hbetween.next_le) (hbetween.below 0 hroot'' 1 hbelow) hlong
    have hvalue : (single (parts path) first text).value 0 (parts path) = some (some text) :=
      value_single 0 (Nat.zero_le _)
    have hexpected : lookedUp as 0 path defaultValue (single (parts path) first text) = x := by
      rw [lookedUp, hvalue, Option.bind_some, htext]
      rfl
    exact hother (hexpected.symm.trans (hread.symm.trans hdefault))

/-- The lookups of a sequence all answer what the document holds, whatever the document, exactly when no `getPath`
comes after a path with a dot. -/
theorem lookups_truthful_iff (calls : List Call) :
    (∀ doc : Document, doc.Acyclic → Truthful doc.root doc.memory calls doc.memory) ↔
      calls.Pairwise fun earlier later => earlier.dotted = true → later.reads = false := by
  constructor
  · intro h
    by_contra hne
    obtain ⟨before, c, between, g, rest, rfl, hbefore, hc, hg⟩ := exists_read_after_dotted hne
    obtain ⟨doc, hacyclic, hnot⟩ := not_truthful_of_read between rest hbefore hc hg
    exact hnot (h doc hacyclic)
  · intro hcalls doc hacyclic
    obtain ⟨rank, depth, hm⟩ := hacyclic.graded
    have hmeets : ∀ keys, meetsMoved doc.memory (fun _ => false) doc.root keys = false := fun keys =>
      meetsMoved_of_graded hm doc.root_lt (fun u hu => doc.defined _ (doc.ref_lt u hu)) fun _ hu => by cases hu
    exact truthful_of_undisturbed doc.closed doc.ref_inj doc.root_lt (.inl (.refl doc.closed))
      (undisturbed_of_pairwise doc.root_lt (doc.ref_lt _ doc.root_lt) rfl hmeets hcalls)

/-- A conversion to `std::string`, as long as null does not convert. -/
def asText : Conversion Bytes where
  decode := id
  other d := ⟨0 :: d, 0 :: d, rfl, List.cons_ne_self 0 d⟩

/-- The data of the file `&root {self: *root, a: hello}`. -/
def aliasData : Nat → NodeData
  | 0 => ⟨true, .map [(bytes "self", 0), (bytes "a", 1)]⟩
  | _ => ⟨true, .scalar (bytes "hello")⟩

def aliasFile : Document where
  root := 0
  memory := ⟨id, aliasData, 2⟩
  root_lt := by decide
  ref_lt := fun _ hn => hn
  ref_inj := fun _ _ _ _ heq => heq
  entry_lt := by decide
  defined := by decide

/-- `hasKey` leaves at the missing `x`, the assignments of the first `getPath` make the root refer to its own
data, and only the last call, of which nothing is asked, moves a node. -/
def aliasCalls : List Call :=
  [.hasKey (bytes "x.y"), .getPath asText (bytes "self.self.a") (bytes "none"), .getPath asText (bytes "a")
    (bytes "none"),
    .getPath asText (bytes "x") (bytes "none"), .hasKey (bytes "a.b")]

theorem lookups_truthful_alias :
    Undisturbed aliasFile.root aliasFile.memory aliasCalls aliasFile.memory ∧
      lookedUp asText aliasFile.root (bytes "self.self.a") (bytes "none") aliasFile.memory = bytes "hello" ∧
      lookedUp asText aliasFile.root (bytes "a") (bytes "none") aliasFile.memory = bytes "hello" ∧
      Truthful aliasFile.root aliasFile.memory aliasCalls aliasFile.memory := by
  have hundisturbed : Undisturbed aliasFile.root aliasFile.memory aliasCalls aliasFile.memory :=
    ⟨trivial, ⟨by decide, by decide⟩, ⟨by decide, by decide⟩, ⟨by decide, by decide⟩, trivial, trivial⟩
  exact ⟨hundisturbed, by decide, by decide, lookups_truthful aliasFile aliasCalls hundisturbed⟩

/-- The data of a file with the section `scheduler`, where `load_balance` is `round_robin` and `log_level`
`debug`. -/
def schedulerData : Nat → NodeData
  | 0 => ⟨true, .map [(bytes "scheduler", 1)]⟩
  | 1 => ⟨true, .map [(bytes "load_balance", 2), (bytes "log_level", 3)]⟩
  | 2 => ⟨true, .scalar (bytes "round_robin")⟩
  | _ => ⟨true, .scalar (bytes "debug")⟩

theorem schedulerData_entry : ∀ d < 4, ∀ e ∈ (schedulerData d).body.entries, d < e.2 ∧ e.2 < 4 := by decide

def schedulerFile : Document where
  root := 0
  memory := ⟨id, schedulerData, 4⟩
  root_lt := by decide
  ref_lt := fun _ hn => hn
  ref_inj := fun _ _ _ _ heq => heq
  entry_lt := fun d hd e he => (schedulerData_entry d hd e he).2
  defined := by decide

/-- Two lookups of one section: the second one does not find the field that is there. -/
theorem second_lookup_misses :
    schedulerFile.Acyclic ∧
      lookedUp asText schedulerFile.root (bytes "scheduler.log_level") (bytes "info") schedulerFile.memory =
        bytes "debug" ∧
      (getPath asText schedulerFile.root (bytes "scheduler.log_level") (bytes "info")
        (getPath asText schedulerFile.root (bytes "scheduler.load_balance") (bytes "least_connection")
          schedulerFile.memory).2).1 = bytes "info" :=
  ⟨⟨id, fun d hd e he => (schedulerData_entry d hd e he).1⟩, by decide, by decide⟩

/-! ### What the services get -/

section Section

variable {rank : Nat → Nat} {depth : Nat} {m : Memory} {root : NodeId} {path key field : Bytes} {keys : List Bytes}

/-- After a lookup of a field of a section, every path is looked up in that section. -/
theorem getPath_repoints {T : Type} (as : Conversion T) (defaultValue : T) (hm : Graded rank depth m)
    (hroot : root < m.next) (hparts : parts path = [key, field]) (hkeys : keys ≠ []) :
    (getPath as root path defaultValue m).2.value root keys = m.value root (key :: keys) := by
  have hafter : (getPath as root path defaultValue m).2 = (walk false root [key, field] m).2 := by
    rw [← hparts]
    exact after_eq root m (.getPath as path defaultValue)
  rw [hafter]
  obtain ⟨hnone, hwalk⟩ | ⟨v, m', hs, ⟨hnil, _⟩ | ⟨⟨hstop, _⟩, _⟩ | ⟨_, hwalk⟩⟩ :=
    walk_cons false key [field] hm hroot
  · obtain ⟨first, rest, rfl⟩ := List.exists_cons_of_ne_nil hkeys
    rw [hwalk, value_of_subscript_none hnone, Memory.value, entries_of_subscript_none hnone]
    rfl
  · cases hnil
  · cases hstop
  · have hg := (hs.hop_later hm hroot).graded
    have hlt := hs.hop_lt hm hroot
    have hroot' : root < (m'.assign root v).2.next := Nat.lt_of_lt_of_le hroot (hs.hop_later hm hroot).next_le
    have hsame : (m'.assign root v).2.ref (m'.assign root v).1 = (m'.assign root v).2.ref root := by
      rw [assign_ref_handle, assign_ref, Function.update_self]
    have hkeep : (walk false (m'.assign root v).1 [field] (m'.assign root v).2).2.value root keys =
        (m'.assign root v).2.value root keys := by
      obtain ⟨_, hlast⟩ | ⟨w, m'', hs', ⟨_, hlast⟩ | ⟨_, hlast⟩ | ⟨hne, _⟩⟩ :=
        walk_cons false field [] hg hlt
      · rw [hlast]
      · rw [hlast]
        exact hs'.value_eq hg hroot' fun _ => ⟨Nat.le_of_eq (congrArg rank hsame), .inl hkeys⟩
      · rw [hlast]
        exact hs'.value_eq hg hroot' fun _ => ⟨Nat.le_of_eq (congrArg rank hsame), .inl hkeys⟩
      · exact absurd rfl hne
    rw [hwalk, hkeep]
    exact (hs.hop_value hm hroot).2

/-- There is nothing to read in the section `key`. -/
structure Gone (root : NodeId) (key : Bytes) (m : Memory) : Prop where
  graded : ∃ rank depth, Graded rank depth m
  root_lt : root < m.next
  value : ∀ keys, m.value root (key :: keys) = none

/-- Run where the section is gone, the program returns `a`, and the section stays gone. -/
def Yields (root : NodeId) (key : Bytes) {α : Type} (prog : StateM Memory α) (a : α) : Prop :=
  ∀ m, Gone root key m → (prog m).1 = a ∧ Gone root key (prog m).2

theorem Yields.pure {α : Type} (a : α) : Yields root key (Pure.pure a : StateM Memory α) a := fun _ h => ⟨rfl, h⟩

theorem Yields.bind {α β : Type} {prog : StateM Memory α} {rest : α → StateM Memory β} {a : α} {b : β}
    (h : Yields root key prog a) (hrest : Yields root key (rest a) b) : Yields root key (prog >>= rest) b := by
  intro m hgone
  obtain ⟨ha, hgone'⟩ := h m hgone
  have hbind : (prog >>= rest) m = rest (prog m).1 (prog m).2 := rfl
  rw [hbind, ha]
  exact hrest _ hgone'

/-- Each further lookup in the section returns its default. -/
theorem Yields.lookup {T : Type} {as : Conversion T} {path : String} {defaultValue : T}
    (hparts : parts (bytes path) = [key, field]) :
    Yields root key (lookup as root path defaultValue) defaultValue := by
  intro m hgone
  obtain ⟨rank, depth, hm⟩ := hgone.graded
  have hlater : Later rank depth m (getPath as root (bytes path) defaultValue m).2 :=
    later_after hm hgone.root_lt (.getPath as (bytes path) defaultValue)
  refine ⟨?_, ⟨rank, depth, hlater.graded⟩, Nat.lt_of_lt_of_le hgone.root_lt hlater.next_le, ?_⟩
  · have hvalue : (getPath as root (bytes path) defaultValue m).1 = lookedUp as root (bytes path) defaultValue m :=
      getPath_value as defaultValue hm hgone.root_lt
    rw [lookedUp, hparts, hgone.value] at hvalue
    exact hvalue
  · intro keys
    exact (getPath_repoints as defaultValue hm hgone.root_lt hparts (List.cons_ne_nil key keys)).trans
      (hgone.value (key :: keys))

/-- The first lookup in a section answers what the document holds; if the section has no entry of its own name, the
section is gone afterwards. -/
theorem read_section {T C : Type} {as : Conversion T} {path : String} {defaultValue : T}
    {rest : T → StateM Memory C}
    {c : C} {doc : Document} (hdoc : doc.Acyclic) (hparts : parts (bytes path) = [key, field])
    (hgone : ∀ keys, doc.memory.value doc.root (key :: key :: keys) = none)
    (hrest : Yields doc.root key (rest (lookedUp as doc.root (bytes path) defaultValue doc.memory)) c) :
    ((lookup as doc.root path defaultValue >>= rest) doc.memory).1 = c := by
  obtain ⟨rank, depth, hm⟩ := hdoc.graded
  have hlater : Later rank depth doc.memory (getPath as doc.root (bytes path) defaultValue doc.memory).2 :=
    later_after hm doc.root_lt (.getPath as (bytes path) defaultValue)
  have hvalue : (getPath as doc.root (bytes path) defaultValue doc.memory).1 =
      lookedUp as doc.root (bytes path) defaultValue doc.memory := getPath_value as defaultValue hm doc.root_lt
  have hafter : Gone doc.root key (getPath as doc.root (bytes path) defaultValue doc.memory).2 := by
    refine ⟨⟨rank, depth, hlater.graded⟩, Nat.lt_of_lt_of_le doc.root_lt hlater.next_le, ?_⟩
    intro keys
    exact (getPath_repoints as defaultValue hm doc.root_lt hparts (List.cons_ne_nil key keys)).trans (hgone keys)
  have hbind : (lookup as doc.root path defaultValue >>= rest) doc.memory =
      rest (getPath as doc.root (bytes path) defaultValue doc.memory).1
        (getPath as doc.root (bytes path) defaultValue doc.memory).2 := rfl
  rw [hbind, hvalue]
  exact (hrest _ hafter).1

variable {doc : Document} (asInt : Conversion Int32) (asString : Conversion Bytes)

/-- Of a file whose section has no entry of the section's own name only the first field is read: all other fields
have their defaults, whatever the file says.  The same holds for each service. -/
theorem loadSchedulerConfig_section (hdoc : doc.Acyclic)
    (hgone : ∀ keys, doc.memory.value doc.root (bytes "scheduler" :: bytes "scheduler" :: keys) = none) :
    loadSchedulerConfig asInt asString (some doc) =
      { port := lookedUp asInt doc.root (bytes "scheduler.port") 50051 doc.memory } :=
  read_section hdoc rfl hgone
    (.bind (.lookup rfl) (.bind (.lookup rfl) (.bind (.lookup rfl) (.bind (.lookup rfl) (.bind (.lookup rfl)
      (.bind (.lookup rfl) (.bind (.lookup rfl) (.pure _))))))))

theorem loadWorkerConfig_section (hdoc : doc.Acyclic)
    (hgone : ∀ keys, doc.memory.value doc.root (bytes "worker" :: bytes "worker" :: keys) = none) :
    loadWorkerConfig asInt asString (some doc) =
      { id := lookedUp asInt doc.root (bytes "worker.id") 1 doc.memory } :=
  read_section hdoc rfl hgone
    (.bind (.lookup rfl) (.bind (.lookup rfl) (.bind (.lookup rfl) (.bind (.lookup rfl) (.bind (.lookup rfl)
      (.bind (.lookup rfl) (.bind (.lookup rfl) (.bind (.lookup rfl) (.pure _)))))))))

theorem loadGatewayConfig_section (hdoc : doc.Acyclic)
    (hgone : ∀ keys, doc.memory.value doc.root (bytes "gateway" :: bytes "gateway" :: keys) = none) :
    loadGatewayConfig asInt asString (some doc) =
      { port := lookedUp asInt doc.root (bytes "gateway.port") 8080 doc.memory } :=
  read_section hdoc rfl hgone (.bind (.lookup rfl) (.bind (.lookup rfl) (.bind (.lookup rfl) (.pure _))))

theorem loadTrackerConfig_section (hdoc : doc.Acyclic)
    (hgone : ∀ keys, doc.memory.value doc.root (bytes "tracker" :: bytes "tracker" :: keys) = none) :
    loadTrackerConfig asInt asString (some doc) =
      { port := lookedUp asInt doc.root (bytes "tracker.port") 50053 doc.memory } :=
  read_section hdoc rfl hgone (.bind (.lookup rfl) (.bind (.lookup rfl) (.bind (.lookup rfl) (.pure _))))

theorem loadStatsConfig_section (hdoc : doc.Acyclic)
    (hgone : ∀ keys, doc.memory.value doc.root (bytes "stats" :: bytes "stats" :: keys) = none) :
    loadStatsConfig asInt asString (some doc) =
      { port := lookedUp asInt doc.root (bytes "stats.port") 50054 doc.memory } :=
  read_section hdoc rfl hgone
    (.bind (.lookup rfl) (.bind (.lookup rfl) (.bind (.lookup rfl) (.bind (.lookup rfl) (.pure _)))))

end Section

end Config

end Taskflow
