import Taskflow.ConfigLoader
import Taskflow.EtcdClient

/-!
# The identity of a worker

`main` of `src/worker.cpp` up to the registration.  A file is what `YAML::LoadFile` makes of it, `none` when that
fails.  The configuration that is loaded replaces the one that holds the id of the command line, and the path of
`--config=` loses its first character, so the command line is followed only without `--config` and with a file whose
id is the same or 0 (`worker_identity_iff`).
-/

namespace Taskflow

open Text Yaml Config Effects Prog

/-! ### `main` -/

def idFlag : Bytes := bytes "--id="
def configFlag : Bytes := bytes "--config="
def defaultConfigPath : Bytes := bytes "config/worker.yaml"

/-- The first loop over the arguments.  `substr` throws when it starts past the end. -/
def readArguments : List Bytes → WorkerConfig × Bytes → Except StdException (WorkerConfig × Bytes)
  | [], state => .ok state
  | arg :: args, (config, configPath) =>
    if idFlag.isPrefixOf arg then do
      let id ← stoi 10 (arg.drop 5)
      readArguments args ({ config with id }, configPath)
    else if configFlag.isPrefixOf arg then
      if arg.length < 10 then .error .outOfRange
      else readArguments args (config, arg.drop 10)
    else readArguments args (config, configPath)

/-- The second loop, which ends at the first `--id=`. -/
def readId : List Bytes → Int32 → Except StdException Int32
  | [], id => .ok id
  | arg :: args, id => if idFlag.isPrefixOf arg then stoi 10 (arg.drop 5) else readId args id

/-- `config_path != "" && config_path.find("--") == std::string::npos` -/
def isConfigPath (configPath : Bytes) : Bool := !configPath.isEmpty && !decide (bytes "--" <:+: configPath)

/-- The file that was loaded, if any, and the configuration that the worker runs with. -/
structure WorkerStart where
  loaded : Option Bytes
  config : WorkerConfig

/-- `if (config.id == 0)`, with the second loop. -/
def settleId (args : List Bytes) (config : WorkerConfig) : Except StdException WorkerConfig :=
  if config.id = 0 then do
    let id ← readId args config.id
    return { config with id := if id = 0 then 1 else id }
  else .ok config

/-- `main` after the first loop. -/
def startWorker (asInt : Conversion Int32) (asString : Conversion Bytes) (files : Bytes → Option Document)
    (args : List Bytes) (config : WorkerConfig) (configPath : Bytes) : Except StdException WorkerStart := do
  let loaded := if isConfigPath configPath then some configPath else none
  let config ← settleId args ((loaded.map fun path => loadWorkerConfig asInt asString (files path)).getD config)
  return ⟨loaded, config⟩

def workerMain (asInt : Conversion Int32) (asString : Conversion Bytes) (files : Bytes → Option Document)
    (args : List Bytes) : Except StdException WorkerStart := do
  let (config, configPath) ← readArguments args ({}, defaultConfigPath)
  startWorker asInt asString files args config configPath

/-- `"worker-" + std::to_string(config.id)` -/
def workerName (id : Int32) : Bytes := bytes "worker-" ++ decimal id.toInt

/-- What `registerWithScheduler` has `ServiceRegistry` ask of etcd. -/
def registerWithScheduler (config : WorkerConfig) : EtcdCode Int64 :=
  EtcdClient.registerService (bytes "worker") (workerName config.id) config.address config.port
    ((∅ : StringMap Bytes).insert (bytes "max_load") (decimal config.maxConcurrentTasks.toInt)) 10

def workerKey (id : Int32) : Bytes := EtcdClient.serviceKey (bytes "worker") (workerName id)

theorem workerName_injective {m n : Int32} (h : workerName m = workerName n) : m = n :=
  Int32.toInt_inj.1 (decimal_injective (List.append_cancel_left h))

theorem workerKey_injective {m n : Int32} (h : workerKey m = workerKey n) : m = n :=
  workerName_injective (List.append_cancel_left h)

/-- The registration writes no other key. -/
theorem registerWithScheduler_key (config : WorkerConfig) :
    (registerWithScheduler config).Every fun e => ∀ key value leaseId, e = .put key value leaseId →
      key = workerKey config.id := by
  have hlease : (EtcdClient.createLease 10).Every fun e => ∀ key value leaseId, e = .put key value leaseId →
      key = workerKey config.id := EtcdClient.createLease_every fun _ _ _ he => (by cases he)
  refine .bind hlease fun leaseId => ?_
  split
  · trivial
  · refine .bind ⟨fun _ _ _ he => (by cases he; rfl), fun _ => trivial⟩ fun success => ?_
    split
    · trivial
    · exact .bind ⟨fun _ _ _ he => (by cases he), fun _ => trivial⟩ fun _ => trivial

/-! ### The id of the file -/

section Lookup

variable {m : Memory} {n v u : NodeId} {key : Bytes}

theorem scalar_of_lookup (h : (m.dataOf n).body.entries.lookup key = some v) : m.scalar n = none := by
  unfold Memory.scalar
  split
  · rename_i heq
    rw [heq] at h
    cases h
  · rename_i heq
    rw [heq] at h
    cases h
  · rfl

/-- Turning a node that has entries into a map changes nothing that can be read. -/
theorem setBody_entries (h : (m.dataOf n).body.entries.lookup key = some v) (u : NodeId) :
    ((m.setBody (m.ref n) (.map (m.dataOf n).body.entries)).dataOf u).body.entries = (m.dataOf u).body.entries ∧
      (m.setBody (m.ref n) (.map (m.dataOf n).body.entries)).scalar u = m.scalar u := by
  by_cases hu : m.ref u = m.ref n
  · have hentries : (m.dataOf u).body.entries = (m.dataOf n).body.entries :=
      by rw [Memory.dataOf, hu, ← Memory.dataOf]
    have hset : ((m.setBody (m.ref n) (.map (m.dataOf n).body.entries)).dataOf u).body.entries =
        (m.dataOf n).body.entries := by
      simp [Memory.setBody, Memory.dataOf, hu]
    refine ⟨hset.trans hentries.symm, ?_⟩
    rw [scalar_of_lookup (hset ▸ h), scalar_of_lookup (hentries ▸ h)]
  · have hdata : (m.setBody (m.ref n) (.map (m.dataOf n).body.entries)).dataOf u = m.dataOf u := by
      simp [Memory.setBody, Memory.dataOf, hu]
    refine ⟨by rw [hdata], ?_⟩
    simp only [Memory.scalar, hdata]

/-- The last subscript of a path finds what can be read there. -/
theorem scalar_subscript (key : Bytes) (hn : m.ref n < m.next) :
    ((m.subscript n key).bind fun r => r.2.scalar r.1) = ((m.dataOf n).body.entries.lookup key).bind m.scalar := by
  unfold Memory.subscript
  split
  · rename_i text hbody
    rw [hbody]
    rfl
  · cases hv : (m.dataOf n).body.entries.lookup key with
    | some v => exact (setBody_entries hv v).2
    | none =>
      refine Memory.scalar_undefined ?_
      have hne : m.ref n ≠ m.next := Nat.ne_of_lt hn
      simp [Memory.create, Memory.setBody, Memory.dataOf]

/-- The first lookup of a field of a section answers what the document holds, also when a node is inside itself. -/
theorem getPath_field {T : Type} (as : Conversion T) {path field : Bytes} (defaultValue : T) {root : NodeId}
    (hparts : parts path = [key, field]) (hroot : m.ref root < m.next)
    (hchild : ∀ v, (m.dataOf root).body.entries.lookup key = some v → m.ref v < m.next) :
    (getPath as root path defaultValue m).1 = lookedUp as root path defaultValue m := by
  have hwalk : (walk false root [key, field] m).1.bind (walk false root [key, field] m).2.scalar =
      m.value root [key, field] := by
    cases hsub : m.subscript root key with
    | none =>
      simp only [walk, hsub]
      exact (value_of_subscript_none hsub).symm
    | some r =>
      obtain ⟨v, m'⟩ := r
      have hnext : walk false root [key, field] m = walk false (m'.assign root v).1 [field]
          (m'.assign root v).2 := by
        simp only [walk, hsub, Bool.false_and, Bool.false_eq_true, if_false]
      have hlast : ∀ (m : Memory) (n : NodeId), (walk false n [field] m).1.bind (walk false n [field] m).2.scalar =
          (m.subscript n field).bind fun r => r.2.scalar r.1 := by
        intro m n
        cases h : m.subscript n field with
        | none => simp only [walk, h, Option.bind_none]
        | some r => simp only [walk, h, Option.bind_some]
      have hdata := (assign_dataOf m' root v).2
      have hread : ((m.dataOf root).body.entries.lookup key).bind (fun v => m.value v [field]) =
          ((m'.dataOf v).body.entries.lookup field).bind (m'.assign root v).2.scalar ∧ m'.ref v < m'.next := by
        unfold Memory.subscript at hsub
        split at hsub
        · cases hsub
        · split at hsub
          · rename_i hfound
            cases hsub
            obtain ⟨hentries, -⟩ := setBody_entries hfound v
            refine ⟨?_, hchild v hfound⟩
            rw [hfound, Option.bind_some, Memory.value, hentries]
            cases hfield : (m.dataOf v).body.entries.lookup field with
            | none => rfl
            | some w =>
              rw [Option.bind_some, Option.bind_some, Memory.value]
              by_cases hw : w = root
              · -- the field is the root itself, which is no scalar
                subst hw
                rw [scalar_of_lookup hfound, scalar_of_lookup]
                rw [(assign_dataOf _ w v).1, hentries]
                exact hfield
              · rw [← (setBody_entries hfound w).2]
                simp only [Memory.scalar, assign_dataOf_of_ne hw]
          · rename_i hmissing
            cases hsub
            refine ⟨?_, by simp [Memory.create, Memory.setBody]⟩
            rw [hmissing]
            have hnew : ((m.setBody (m.ref root)
              (.map ((m.dataOf root).body.entries ++ [(key, m.next)]))).create.dataOf
                m.next).body.entries = [] := by
              simp [Memory.create, Memory.setBody, Memory.dataOf]
            rw [hnew]
            rfl
      have href : (m'.assign root v).2.ref (m'.assign root v).1 < (m'.assign root v).2.next := by
        rw [assign_ref_handle, assign_next]
        exact hread.2
      rw [hnext, hlast, scalar_subscript field href, hdata, Memory.value]
      exact hread.1.symm
  rw [lookedUp, hparts, ← hwalk]
  unfold getPath
  rw [hparts]
  split
  · rename_i heq
    rw [heq]
    rfl
  · rename_i heq
    rw [heq]
    rfl

end Lookup

section Identity

variable (asInt : Conversion Int32) (asString : Conversion Bytes)

/-- The id that a configuration file gives: `worker.id`, 1 where it is missing or does not convert. -/
def fileId (loaded : Option Document) : Int32 :=
  match loaded with
  | none => 1
  | some doc => lookedUp asInt doc.root (bytes "worker.id") 1 doc.memory

theorem loadWorkerConfig_id (loaded : Option Document) :
    (loadWorkerConfig asInt asString loaded).id = fileId asInt loaded := by
  cases loaded with
  | none => rfl
  | some doc =>
    have hparts : parts (bytes "worker.id") = [bytes "worker", bytes "id"] := by decide
    refine getPath_field asInt 1 hparts (doc.ref_lt _ doc.root_lt) ?_
    intro v hv
    exact doc.ref_lt v (doc.entry_lt _ (doc.ref_lt _ doc.root_lt) _ (mem_of_lookup hv))

/-! ### The command line -/

/-- A command line with one `--id=`, whose text is the number `id`, and at most one `--config=`. -/
structure CommandLine (args : List Bytes) (id : Int32) (config : Option Bytes) : Prop where
  ids : ∃ text, args.filter idFlag.isPrefixOf = [idFlag ++ text] ∧ stoi 10 text = .ok id
  configs : args.filter configFlag.isPrefixOf = config.toList.map (configFlag ++ ·)
  nonzero : id ≠ 0
  path : ∀ path ∈ config, path ≠ [] ∧ ¬bytes "--" <:+: path

/-- The worker loads the file that the command line names and runs under the id that it gives. -/
def FollowsCommandLine (start : Except StdException WorkerStart) (id : Int32) (config : Option Bytes) : Prop :=
  ∃ s, start = .ok s ∧ s.loaded = some (config.getD defaultConfigPath) ∧ workerName s.config.id = workerName id

variable {args : List Bytes} {id : Int32} {config : Option Bytes}

theorem not_both_flags {arg : Bytes} (h : idFlag.isPrefixOf arg = true) : configFlag.isPrefixOf arg = false := by
  rw [List.isPrefixOf_iff_prefix] at h
  obtain ⟨text, rfl⟩ := h
  rfl

/-- The first loop takes the number of the last `--id=` and the text of the last `--config=`, without its first
character. -/
theorem readArguments_of_commandLine (state : WorkerConfig × Bytes) {text : Bytes}
    (hids : args.filter idFlag.isPrefixOf = [] ∨
      args.filter idFlag.isPrefixOf = [idFlag ++ text] ∧ stoi 10 text = .ok id)
    (hconfigs : args.filter configFlag.isPrefixOf = config.toList.map (configFlag ++ ·))
    (hpath : ∀ path ∈ config, path ≠ []) :
    readArguments args state = .ok (
      { state.1 with id := if (args.filter idFlag.isPrefixOf).isEmpty then state.1.id else id },
      (config.map (·.drop 1)).getD state.2) := by
  induction args generalizing state config with
  | nil =>
    cases config with
    | none => rfl
    | some path => cases hconfigs
  | cons arg args ih =>
    obtain ⟨start, configPath⟩ := state
    rw [readArguments]
    by_cases hid : idFlag.isPrefixOf arg = true
    · rw [List.filter_cons_of_pos hid] at hids ⊢
      rw [List.filter_cons_of_neg (by simp [not_both_flags hid])] at hconfigs
      rcases hids with hids | ⟨hids, hstoi⟩
      · cases hids
      · obtain ⟨rfl, hrest⟩ := List.cons.inj hids
        have htext : (idFlag ++ text).drop 5 = text := rfl
        rw [if_pos hid, htext, hstoi]
        refine (ih _ (.inl hrest) hconfigs hpath).trans ?_
        rw [hrest]
        rfl
    · rw [List.filter_cons_of_neg hid] at hids ⊢
      rw [if_neg hid]
      by_cases hconfig : configFlag.isPrefixOf arg = true
      · rw [List.filter_cons_of_pos hconfig] at hconfigs
        cases config with
        | none => cases hconfigs
        | some path =>
          obtain ⟨rfl, hrest⟩ := List.cons.inj hconfigs
          -- `substr(10)` of a 9-byte flag: the first byte of the path is lost, but it does not throw
          have hlength : ¬(configFlag ++ path).length < 10 := by
            have hpos := List.length_pos_iff.2 (hpath path rfl)
            have hflag : configFlag.length = 9 := by decide
            rw [List.length_append]
            omega
          have hdrop : (configFlag ++ path).drop 10 = path.drop 1 := rfl
          rw [if_pos hconfig, if_neg hlength, hdrop]
          have hnone : args.filter configFlag.isPrefixOf = (none :
            Option Bytes).toList.map (configFlag ++ ·) := hrest
          exact ih _ hids hnone (by simp)
      · rw [List.filter_cons_of_neg hconfig] at hconfigs
        rw [if_neg hconfig]
        exact ih _ hids hconfigs hpath

/-- The second loop finds the number of the one `--id=`. -/
theorem readId_of_commandLine {start : Int32} {text : Bytes}
    (hids : args.filter idFlag.isPrefixOf = [idFlag ++ text])
    (hstoi : stoi 10 text = .ok id) : readId args start = .ok id := by
  induction args with
  | nil => cases hids
  | cons arg args ih =>
    rw [readId]
    by_cases hid : idFlag.isPrefixOf arg = true
    · rw [List.filter_cons_of_pos hid] at hids
      obtain ⟨rfl, -⟩ := List.cons.inj hids
      rw [if_pos hid]
      exact hstoi
    · rw [List.filter_cons_of_neg hid] at hids
      rw [if_neg hid]
      exact ih hids

theorem workerMain_eq {files : Bytes → Option Document} {start : WorkerConfig} {configPath : Bytes}
    (hread : readArguments args ({}, defaultConfigPath) = .ok (start, configPath)) :
    workerMain asInt asString files args = startWorker asInt asString files args start configPath := by
  rw [workerMain, hread]
  rfl

/-- The path decides what is loaded. -/
theorem startWorker_loaded {files : Bytes → Option Document} {start : WorkerConfig} {configPath : Bytes}
    {s : WorkerStart} (h : startWorker asInt asString files args start configPath = .ok s) :
    s.loaded = if isConfigPath configPath then some configPath else none := by
  unfold startWorker at h
  dsimp only at h
  generalize settleId args _ = settled at h
  cases settled with
  | error x => cases h
  | ok config =>
    cases h
    rfl

/-- Without `--config` the file at the default path is loaded, and its id counts unless it is 0. -/
theorem workerMain_default (files : Bytes → Option Document) (h : CommandLine args id none) :
    ∃ s, workerMain asInt asString files args = .ok s ∧ s.loaded = some defaultConfigPath ∧
      s.config.id = if fileId asInt (files defaultConfigPath) = 0 then id
        else fileId asInt (files defaultConfigPath) := by
  obtain ⟨text, hids, hstoi⟩ := h.ids
  have hread := readArguments_of_commandLine ({}, defaultConfigPath) (.inr ⟨hids, hstoi⟩) h.configs
    fun path hpath => (h.path path hpath).1
  have hpath : isConfigPath defaultConfigPath = true := by decide
  have hid := loadWorkerConfig_id asInt asString (files defaultConfigPath)
  rw [workerMain_eq asInt asString hread, startWorker]
  simp only [Option.map_none, Option.getD_none, hpath, if_true, Option.map_some, Option.getD_some, settleId]
  by_cases hzero : fileId asInt (files defaultConfigPath) = 0
  · rw [hid, if_pos hzero, readId_of_commandLine hids hstoi]
    exact ⟨_, rfl, rfl, by simp [hzero, h.nonzero]⟩
  · rw [hid, if_neg hzero]
    exact ⟨_, rfl, rfl, by rw [if_neg hzero, hid]⟩

/-- With `--config` another path than the one given is loaded, or none. -/
theorem workerMain_config (files : Bytes → Option Document) {path : Bytes} (h : CommandLine args id (some path)) :
    ¬FollowsCommandLine (workerMain asInt asString files args) id (some path) := by
  rintro ⟨s, hs, hloaded, -⟩
  obtain ⟨text, hids, hstoi⟩ := h.ids
  have hread := readArguments_of_commandLine ({}, defaultConfigPath) (.inr ⟨hids, hstoi⟩) h.configs
    fun path hpath => (h.path path hpath).1
  rw [workerMain_eq asInt asString hread] at hs
  rw [startWorker_loaded asInt asString hs] at hloaded
  simp only [Option.map_some, Option.getD_some] at hloaded
  split at hloaded
  · have hpos := List.length_pos_iff.2 (h.path path rfl).1
    have hlength := congrArg List.length (Option.some.inj hloaded)
    rw [List.length_drop] at hlength
    omega
  · cases hloaded

end Identity

/-- The command line decides the file and the identity of a worker exactly when it has no `--config` and the
file gives the same id or 0.  Workers with different ids, started without `--config` beside the same file, have
different keys exactly when the file gives 0; and a worker registers under no key but its own. -/
theorem worker_identity_iff (asInt : Conversion Int32) (asString : Conversion Bytes)
    (files : Bytes → Option Document) :
    (∀ args id config, CommandLine args id config →
      (FollowsCommandLine (workerMain asInt asString files args) id config ↔
        config = none ∧ (fileId asInt (files defaultConfigPath) = id ∨
          fileId asInt (files defaultConfigPath) = 0))) ∧
    (∀ args₁ args₂ id₁ id₂ s₁ s₂, CommandLine args₁ id₁ none →
      CommandLine args₂ id₂ none → id₁ ≠ id₂ →
      workerMain asInt asString files args₁ = .ok s₁ → workerMain asInt asString files args₂ = .ok s₂ →
        (workerKey s₁.config.id ≠ workerKey s₂.config.id ↔ fileId asInt (files defaultConfigPath) = 0)) ∧
    ∀ config, (registerWithScheduler config).Every fun e => ∀ key value leaseId, e = .put key value leaseId →
      key = workerKey config.id := by
  refine ⟨?_, ?_, registerWithScheduler_key⟩
  · intro args id config h
    cases config with
    | some path =>
      constructor
      · intro hfollows
        exact absurd hfollows (workerMain_config asInt asString files h)
      · rintro ⟨hnone, -⟩
        cases hnone
    | none =>
      obtain ⟨s, hs, hloaded, hid⟩ := workerMain_default asInt asString files h
      constructor
      · rintro ⟨s', hs', -, hname⟩
        rw [hs] at hs'
        cases hs'
        -- the name carries the id, so the file decides which id it is
        have hsame := workerName_injective hname
        rw [hid] at hsame
        split at hsame
        · rename_i hzero
          exact ⟨rfl, .inr hzero⟩
        · exact ⟨rfl, .inl hsame⟩
      · rintro ⟨-, hfile⟩
        refine ⟨s, hs, hloaded, ?_⟩
        rw [hid]
        rcases hfile with hsame | hzero
        · rw [hsame, if_neg h.nonzero]
        · rw [if_pos hzero]
  · intro args₁ args₂ id₁ id₂ s₁ s₂ h₁ h₂ hne hs₁ hs₂
    obtain ⟨t₁, ht₁, -, hid₁⟩ := workerMain_default asInt asString files h₁
    obtain ⟨t₂, ht₂, -, hid₂⟩ := workerMain_default asInt asString files h₂
    cases hs₁.symm.trans ht₁
    cases hs₂.symm.trans ht₂
    rw [hid₁, hid₂]
    by_cases hzero : fileId asInt (files defaultConfigPath) = 0
    · simp only [hzero, if_true, iff_true]
      exact fun hkey => hne (workerKey_injective hkey)
    · simp [hzero]

/-- `as<int>` of a decimal. -/
def asDecimal : Conversion Int32 where
  decode text := text.bind fun text => (stoi 10 text).toOption
  other d := by
    by_cases hd : d = 1
    · exact ⟨bytes "2", 2, by decide, by rw [hd]; decide⟩
    · exact ⟨bytes "1", 1, by decide, fun h => hd h.symm⟩

/-- The file that the scripts start the workers with gives the id 1. -/
def workerFile : Document :=
  have hkeys : [bytes "worker", bytes "id"] ≠ [] := List.cons_ne_nil _ _
  singleDocument hkeys (bytes "other") (bytes "1")

theorem workerFile_id : fileId asDecimal (some workerFile) = 1 := by decide

private theorem commandLine_two : CommandLine [bytes "--id=2"] 2 none :=
  ⟨⟨bytes "2", by decide, by decide⟩, by decide, by decide, by simp⟩

/-- Started with `--id=2` beside this file, the worker runs under the id 1. -/
theorem worker_identity_fails : ¬∀ (files : Bytes → Option Document) args id config, CommandLine args id config →
    FollowsCommandLine (workerMain asDecimal asText files args) id config := by
  intro h
  obtain ⟨s, hs, -, hname⟩ := h (fun _ => some workerFile) _ _ _ commandLine_two
  obtain ⟨s', hs', -, hid⟩ := workerMain_default asDecimal asText (fun _ => some workerFile) commandLine_two
  cases hs.symm.trans hs'
  rw [hid, workerFile_id] at hname
  exact absurd hname (by decide)

theorem worker_identity_iff_two : ¬FollowsCommandLine (workerMain asDecimal asText (fun _ => some workerFile)
    [bytes "--id=2"]) 2 none := by
  rw [(worker_identity_iff asDecimal asText fun _ => some workerFile).1 _ _ _ commandLine_two]
  rintro ⟨-, h | h⟩
  · rw [workerFile_id] at h
    exact absurd h (by decide)
  · rw [workerFile_id] at h
    exact absurd h (by decide)

end Taskflow
