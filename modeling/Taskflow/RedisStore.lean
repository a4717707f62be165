import Taskflow.RedisLemmas
import Taskflow.Lib.Objects

/-!
# `RedisClient` as a store of texts and field maps

The wrappers of `src/common/redis_client.cpp` for plain keys and for hashes, compared with an abstract store: a
map from keys to byte strings or to field maps with at least one field.  All wrappers but `hmset` pass their
arguments through `%s`, which ends at a NUL byte, and `del` tests the type of its reply the wrong way round.  So
each call does what the abstract store does for its arguments up to their first NUL (`store_step`), except that
`del` always answers `false`.  Where no argument has a NUL, the answers of a sequence of calls are the abstract
ones exactly if no `del` finds its key (`store_refined_iff`).
-/

namespace Taskflow

open Text Effects Prog

/-! ### The commands on keys and fields -/

inductive KeyCommand where
  | set (key value : Bytes)
  | del (key : Bytes)
  | «exists» (key : Bytes)
  | hdel (key field : Bytes)
  | hexists (key field : Bytes)

/-- Redis keeps no hash without fields. -/
def keepHash (w : Keyspace) (key : Bytes) (h : StringMap Bytes) : Keyspace :=
  if h.isEmpty then w.erase key else w.insert key (.hash h)

/-- What one of these commands replies, and the content it leaves. -/
def execKey : KeyCommand → Keyspace → Reply × Keyspace
  | .set key value, w => (.status, w.insert key (.string value))
  | .del key, w => (.integer (if key ∈ w then 1 else 0), w.erase key)
  | .exists key, w => (.integer (if key ∈ w then 1 else 0), w)
  | .hdel key field, w =>
    match w[key]? with
    | none => (.integer 0, w)
    | some (.hash h) => (.integer (if field ∈ h then 1 else 0), keepHash w key (h.erase field))
    | some _ => (.error, w)
  | .hexists key field, w =>
    match w[key]? with
    | none => (.integer 0, w)
    | some (.hash h) => (.integer (if field ∈ h then 1 else 0), w)
    | some _ => (.error, w)

/-- A command sent on a context. -/
structure KeyEffect where
  context : Nat
  cmd : KeyCommand

@[reducible] def KeyEffect.Answer (_ : KeyEffect) : Type := Option Reply

/-- The code of these wrappers, which does nothing but send commands. -/
abbrev KeyCode (α : Type) := Prog KeyEffect KeyEffect.Answer StdException α

def keyCommand (redis : RedisClient) (cmd : KeyCommand) : KeyCode (Option Reply) := perform ⟨redis.context, cmd⟩

@[simp] theorem keyCommand_bind {α : Type} (redis : RedisClient) (cmd : KeyCommand) (f : Option Reply → KeyCode α) :
    (keyCommand redis cmd >>= f) = call ⟨redis.context, cmd⟩ f := rfl

/-- The server answers every command. -/
def keyAnswered : Semantics KeyEffect KeyEffect.Answer Keyspace
  | e, w, r, w' => r = some (execKey e.cmd w).1 ∧ w' = (execKey e.cmd w).2

/-! ### The wrappers -/

/-- `reply->type == REDIS_REPLY_INTEGER` -/
def Reply.isInteger : Reply → Bool
  | .integer _ => true
  | _ => false

/-- The member `integer` of a reply; hiredis clears it in a reply of another type. -/
def Reply.integerMember : Reply → Int
  | .integer n => n
  | _ => 0

/-- `reply && reply->type == REDIS_REPLY_INTEGER && reply->integer > 0` -/
def positive : Option Reply → Bool
  | none => false
  | some reply => reply.isInteger && decide (0 < reply.integerMember)

/-- `reply && reply->type != REDIS_REPLY_INTEGER && reply->integer > 0`, the test of `del` -/
def deleted : Option Reply → Bool
  | none => false
  | some reply => !reply.isInteger && decide (0 < reply.integerMember)

namespace RedisClient

def set (redis : RedisClient) (key value : Bytes) : KeyCode Bool := do
  if !redis.connected then return false
  let reply ← keyCommand redis (.set (cStr key) (cStr value))
  return succeeded reply

def del (redis : RedisClient) (key : Bytes) : KeyCode Bool := do
  if !redis.connected then return false
  let reply ← keyCommand redis (.del (cStr key))
  return deleted reply

def «exists» (redis : RedisClient) (key : Bytes) : KeyCode Bool := do
  if !redis.connected then return false
  let reply ← keyCommand redis (.exists (cStr key))
  return positive reply

def hdel (redis : RedisClient) (key field : Bytes) : KeyCode Bool := do
  if !redis.connected then return false
  let reply ← keyCommand redis (.hdel (cStr key) (cStr field))
  return succeeded reply

def hexists (redis : RedisClient) (key field : Bytes) : KeyCode Bool := do
  if !redis.connected then return false
  let reply ← keyCommand redis (.hexists (cStr key) (cStr field))
  return positive reply

end RedisClient

section Wrappers

variable {redis : RedisClient} (h : redis.connected = true)
include h

theorem set_eq (key value : Bytes) : redis.set key value =
    .call ⟨redis.context, .set (cStr key) (cStr value)⟩ (fun reply => .ret (succeeded reply)) := by
  simp [RedisClient.set, h]

theorem del_eq (key : Bytes) : redis.del key =
    .call ⟨redis.context, .del (cStr key)⟩ (fun reply => .ret (deleted reply)) := by
  simp [RedisClient.del, h]

theorem exists_eq (key : Bytes) : redis.exists key =
    .call ⟨redis.context, .exists (cStr key)⟩ (fun reply => .ret (positive reply)) := by
  simp [RedisClient.exists, h]

theorem hdel_eq (key field : Bytes) : redis.hdel key field =
    .call ⟨redis.context, .hdel (cStr key) (cStr field)⟩ (fun reply => .ret (succeeded reply)) := by
  simp [RedisClient.hdel, h]

theorem hexists_eq (key field : Bytes) : redis.hexists key field =
    .call ⟨redis.context, .hexists (cStr key) (cStr field)⟩ (fun reply => .ret (positive reply)) := by
  simp [RedisClient.hexists, h]

end Wrappers

/-! ### The calls of the store -/

inductive StoreCall where
  | set (key value : Bytes)
  | get (key : Bytes)
  | del (key : Bytes)
  | «exists» (key : Bytes)
  | hset (key field value : Bytes)
  | hmset (key : Bytes) (fields : StringMap Bytes)
  | hget (key field : Bytes)
  | hgetall (key : Bytes)
  | hdel (key field : Bytes)
  | hexists (key field : Bytes)

/-- What a call returns. -/
inductive StoreAnswer where
  | flag (b : Bool)
  | text (b : Bytes)
  | fields (m : StringMap Bytes)

/-- How a call ends: it returns, or it throws. -/
abbrev StoreCall.Outcome (_ : StoreCall) : Type := Except StdException StoreAnswer

/-- The program `p` may run from `w` to `w'`, and what it returns is `o` as an answer. -/
def EndsWith {E : Type} {R : E → Type} {α : Type} (S : Semantics E R Keyspace) (answer : α → StoreAnswer)
    (p : Prog E R StdException α) (w : Keyspace) (o : Except StdException StoreAnswer) (w' : Keyspace) : Prop :=
  ∃ τ r, Run S p w τ r w' ∧ o = r.map answer

/-- One call on a client, from start to end. -/
def Performs (redis : RedisClient) : Semantics StoreCall StoreCall.Outcome Keyspace
  | .set key value => EndsWith keyAnswered .flag (redis.set key value)
  | .get key => EndsWith answered .text (redis.get key)
  | .del key => EndsWith keyAnswered .flag (redis.del key)
  | .exists key => EndsWith keyAnswered .flag (redis.exists key)
  | .hset key field value => EndsWith answered .flag (redis.hset key field value)
  | .hmset key fields => EndsWith answered .flag (redis.hmset key fields)
  | .hget key field => EndsWith answered .text (redis.hget key field)
  | .hgetall key => EndsWith answered .fields (redis.hgetall key)
  | .hdel key field => EndsWith keyAnswered .flag (redis.hdel key field)
  | .hexists key field => EndsWith keyAnswered .flag (redis.hexists key field)

/-- The call with its arguments as the server gets them: `%s` ends at a NUL byte, `hmset` gives lengths. -/
def StoreCall.cut : StoreCall → StoreCall
  | .set key value => .set (cStr key) (cStr value)
  | .get key => .get (cStr key)
  | .del key => .del (cStr key)
  | .exists key => .exists (cStr key)
  | .hset key field value => .hset (cStr key) (cStr field) (cStr value)
  | .hmset key fields => .hmset key fields
  | .hget key field => .hget (cStr key) (cStr field)
  | .hgetall key => .hgetall (cStr key)
  | .hdel key field => .hdel (cStr key) (cStr field)
  | .hexists key field => .hexists (cStr key) (cStr field)

/-- No argument that goes through `%s` has a NUL byte. -/
def StoreCall.NoNul : StoreCall → Prop
  | .set key value => 0 ∉ key ∧ 0 ∉ value
  | .get key => 0 ∉ key
  | .del key => 0 ∉ key
  | .exists key => 0 ∉ key
  | .hset key field value => 0 ∉ key ∧ 0 ∉ field ∧ 0 ∉ value
  | .hmset _ _ => True
  | .hget key field => 0 ∉ key ∧ 0 ∉ field
  | .hgetall key => 0 ∉ key
  | .hdel key field => 0 ∉ key ∧ 0 ∉ field
  | .hexists key field => 0 ∉ key ∧ 0 ∉ field

theorem StoreCall.cut_of_noNul {c : StoreCall} (h : c.NoNul) : c.cut = c := by
  cases c with
  | hmset key fields => rfl
  | set key value => rw [cut, cStr_of_noNul h.1, cStr_of_noNul h.2]
  | hset key field value => rw [cut, cStr_of_noNul h.1, cStr_of_noNul h.2.1, cStr_of_noNul h.2.2]
  | hget key field => rw [cut, cStr_of_noNul h.1, cStr_of_noNul h.2]
  | hdel key field => rw [cut, cStr_of_noNul h.1, cStr_of_noNul h.2]
  | hexists key field => rw [cut, cStr_of_noNul h.1, cStr_of_noNul h.2]
  | get key => rw [cut, cStr_of_noNul h]
  | del key => rw [cut, cStr_of_noNul h]
  | «exists» key => rw [cut, cStr_of_noNul h]
  | hgetall key => rw [cut, cStr_of_noNul h]

/-! ### The abstract store -/

/-- The fields of a key: there is at least one. -/
structure FieldMap where
  fields : StringMap Bytes
  nonempty : fields.isEmpty = false

inductive Entry where
  | text (b : Bytes)
  | fields (m : FieldMap)

/-- A map from keys to byte strings or field maps. -/
abbrev Store := Bytes → Option Entry

/-- The entry that has the fields `m`. -/
def Entry.ofFields (m : StringMap Bytes) : Option Entry :=
  if h : m.isEmpty = false then some (.fields ⟨m, h⟩) else none

/-- The fields that a key may be given or asked for; a text has none. -/
def Entry.fieldsOf : Option Entry → Option (StringMap Bytes)
  | none => some ∅
  | some (.fields m) => some m.fields
  | some (.text _) => none

namespace Store

def readText (a : Store) (key : Bytes) : Bytes :=
  match a key with
  | some (.text b) => b
  | _ => []

def readFields (a : Store) (key : Bytes) : StringMap Bytes := (Entry.fieldsOf (a key)).getD ∅

def write (a : Store) (key : Bytes) (entry : Option Entry) : Store := Function.update a key entry

/-- Changes the fields of a key; a text is left as it is, and the change refused. -/
def change (a : Store) (key : Bytes) (f : StringMap Bytes → StringMap Bytes) : StoreAnswer × Store :=
  match Entry.fieldsOf (a key) with
  | none => (.flag false, a)
  | some m => (.flag true, a.write key (Entry.ofFields (f m)))

/-- What a call answers, and the store after it.  Fields of a later `hmset` stand before the old ones; one without
fields is refused. -/
def perform : StoreCall → Store → StoreAnswer × Store
  | .set key value, a => (.flag true, a.write key (some (.text value)))
  | .get key, a => (.text (a.readText key), a)
  | .del key, a => (.flag (a key).isSome, a.write key none)
  | .exists key, a => (.flag (a key).isSome, a)
  | .hset key field value, a => a.change key fun m => m.insert field value
  | .hmset key fields, a => if fields.isEmpty then (.flag false, a) else a.change key fun m => m ∪ fields
  | .hget key field, a => (.text (((a.readFields key)[field]?).getD []), a)
  | .hgetall key, a => (.fields (a.readFields key), a)
  | .hdel key field, a => a.change key fun m => m.erase field
  | .hexists key field, a => (.flag (decide (field ∈ a.readFields key)), a)

/-- The store as an object that never throws. -/
def behaviour : Behaviour StoreCall StoreCall.Outcome Store := fun c a => (.ok (a.perform c).1, (a.perform c).2)

end Store

/-- A `del` does not find its key; any other call is free. -/
def StoreCall.Misses : StoreCall → Store → Prop
  | .del key, a => a key = none
  | _, _ => True

/-! ### The server as a store -/

def Entry.value : Entry → Value
  | .text b => .string b
  | .fields m => .hash m.fields

/-- The server holds exactly the entries of the store. -/
def Mirrors (w : Keyspace) (a : Store) : Prop := ∀ key : Bytes, w[key]? = (a key).map Entry.value

theorem mirrors_empty : Mirrors ∅ fun _ => none := by
  intro key
  simp

section Mirrors

variable {w : Keyspace} {a : Store} (h : Mirrors w a)
include h

theorem Mirrors.insert (key : Bytes) (e : Entry) : Mirrors (w.insert key e.value) (a.write key (some e)) := by
  intro b
  rw [getElem?_insert, Store.write, Function.update_apply]
  by_cases hb : key = b
  · subst hb
    rw [if_pos rfl, if_pos rfl, Option.map_some]
  · rw [if_neg hb, if_neg (Ne.symm hb), h b]

theorem Mirrors.erase (key : Bytes) : Mirrors (w.erase key) (a.write key none) := by
  intro b
  rw [getElem?_erase, Store.write, Function.update_apply]
  by_cases hb : key = b
  · subst hb
    rw [if_pos rfl, if_pos rfl, Option.map_none]
  · rw [if_neg hb, if_neg (Ne.symm hb), h b]

theorem Mirrors.kept (key : Bytes) (m : StringMap Bytes) :
    Mirrors (keepHash w key m) (a.write key (Entry.ofFields m)) := by
  unfold keepHash Entry.ofFields
  by_cases hm : m.isEmpty = false
  · rw [dif_pos hm, hm, if_neg (by simp)]
    exact h.insert key (.fields ⟨m, hm⟩)
  · rw [dif_neg hm, if_pos (by simpa using hm)]
    exact h.erase key

theorem Mirrors.fieldsOf (key : Bytes) : Entry.fieldsOf (a key) =
    match w[key]? with
    | none => some ∅
    | some (.hash m) => some m
    | some _ => none := by
  rw [h key]
  cases a key with
  | none => rfl
  | some e => cases e <;> rfl

theorem Mirrors.mem_iff (key : Bytes) : key ∈ w ↔ (a key).isSome = true := by
  rw [← Std.ExtTreeMap.isSome_getElem?_iff_mem, h key, Option.isSome_map]

end Mirrors

/-! ### One call -/

section Replies

variable {w : Keyspace} {a : Store} (h : Mirrors w a)
include h

theorem Mirrors.get (key : Bytes) : replyText (some (exec (.get key) w).1) = a.readText key := by
  have hk := h key
  unfold Store.readText
  cases ha : a key with
  | none =>
    rw [ha] at hk
    simp only [exec, hk, Option.map_none, replyText]
  | some e =>
    rw [ha] at hk
    cases e <;> simp only [exec, hk, Option.map_some, Entry.value, replyText]

theorem Mirrors.hgetall (key : Bytes) : replyFields (some (exec (.hgetall key) w).1) = a.readFields key := by
  rw [Store.readFields, h.fieldsOf key]
  cases hw : w[key]? with
  | none => simp only [exec, hw]; rfl
  | some v =>
    cases v with
    | hash m => exact replyFields_hgetall hw
    | string b => simp only [exec, hw]; rfl
    | list l => simp only [exec, hw]; rfl

theorem Mirrors.hget (key field : Bytes) :
    replyText (some (exec (.hget key field) w).1) = ((a.readFields key)[field]?).getD [] := by
  rw [Store.readFields, h.fieldsOf key]
  cases hw : w[key]? with
  | none => simp [exec, hw, replyText]
  | some v =>
    cases v with
    | hash m => exact replyText_hget hw
    | string b => simp [exec, hw, replyText]
    | list l => simp [exec, hw, replyText]

theorem Mirrors.exists (key : Bytes) : positive (some (execKey (.exists key) w).1) = (a key).isSome := by
  by_cases hk : key ∈ w
  · rw [(h.mem_iff key).1 hk, execKey, if_pos hk]
    rfl
  · have hnone : (a key).isSome = false := Bool.eq_false_iff.2 fun hs => hk ((h.mem_iff key).2 hs)
    rw [hnone, execKey, if_neg hk]
    rfl

theorem Mirrors.hexists (key field : Bytes) : (execKey (.hexists key field) w).2 = w ∧
    positive (some (execKey (.hexists key field) w).1) = decide (field ∈ a.readFields key) := by
  rw [Store.readFields, h.fieldsOf key]
  cases hw : w[key]? with
  | none => simp [execKey, hw, positive, Reply.isInteger, Reply.integerMember]
  | some v =>
    cases v with
    | hash m => by_cases hf : field ∈ m <;> simp [execKey, hw, positive, Reply.isInteger, Reply.integerMember, hf]
    | string b => simp [execKey, hw, positive, Reply.isInteger]
    | list l => simp [execKey, hw, positive, Reply.isInteger]

/-- A command that changes the fields of a key as `f` does, and is refused where the key has none. -/
theorem Mirrors.change {key : Bytes} {f : StringMap Bytes → StringMap Bytes} {r : Reply × Keyspace}
    (hr : match Entry.fieldsOf (a key) with
      | none => r.1.isError = true ∧ r.2 = w
      | some m => r.1.isError = false ∧ r.2 = keepHash w key (f m)) :
    Mirrors r.2 (a.change key f).2 ∧ StoreAnswer.flag (succeeded (some r.1)) = (a.change key f).1 := by
  unfold Store.change
  split at hr
  · obtain ⟨herr, hw⟩ := hr
    rw [hw, succeeded, herr]
    exact ⟨h, rfl⟩
  · obtain ⟨herr, hw⟩ := hr
    rw [hw, succeeded, herr]
    exact ⟨h.kept key _, rfl⟩

end Replies

theorem keepHash_of_mem {w : Keyspace} {key field value : Bytes} {m : StringMap Bytes}
    (hm : m[field]? = some value) :
    keepHash w key m = w.insert key (.hash m) := by
  rw [keepHash, isEmpty_eq_false_of_getElem? hm, if_neg (by simp)]

theorem keepHash_empty {w : Keyspace} {key : Bytes} (hw : w[key]? = none) : keepHash w key ∅ = w := by
  rw [keepHash, if_pos (by simp)]
  apply Std.ExtTreeMap.ext_getElem?
  intro b
  rw [getElem?_erase]
  by_cases hb : key = b
  · subst hb
    rw [if_pos rfl, hw]
  · rw [if_neg hb]

/-- Storing the fields of a map one after the other is the union. -/
theorem storeFields_union (m fields : StringMap Bytes) : storeFields m fields.toList = m ∪ fields := by
  apply Std.ExtTreeMap.ext_getElem?
  intro k
  rw [storeFields_getElem?, Std.ExtTreeMap.getElem?_union]

/-- A map with a field shows one. -/
theorem exists_field {m : StringMap Bytes} (hm : m.isEmpty = false) :
    ∃ field value : Bytes, m[field]? = some value := by
  by_contra hnone
  have hempty : m = ∅ := by
    apply Std.ExtTreeMap.ext_getElem?
    intro k
    cases hk : m[k]? with
    | none => simp
    | some v => exact (hnone ⟨k, v, hk⟩).elim
  simp [hempty] at hm

section Changes

variable {w : Keyspace} {a : Store} (h : Mirrors w a)
include h

theorem Mirrors.hset (key field value : Bytes) :
    Mirrors (exec (.hset key field value) w).2 (a.perform (.hset key field value)).2 ∧
      StoreAnswer.flag (succeeded (some (exec (.hset key field value) w).1)) =
        (a.perform (.hset key field value)).1 := by
  apply h.change
  have hkeep (m : StringMap Bytes) :
      keepHash w key (m.insert field value) = w.insert key (.hash (m.insert field value)) := by
    have hfield : (m.insert field value)[field]? = some value := by simp
    exact keepHash_of_mem hfield
  rw [h.fieldsOf key]
  cases hw : w[key]? with
  | none => simp only [exec, hw, hkeep, Reply.isError, and_self]
  | some v =>
    cases v with
    | hash m => simp only [exec, hw, hkeep, Reply.isError, and_self]
    | string b => simp only [exec, hw, Reply.isError, and_self]
    | list l => simp only [exec, hw, Reply.isError, and_self]

theorem Mirrors.hmset (key : Bytes) {fields : StringMap Bytes} (hf : fields.isEmpty = false) :
    Mirrors (exec (.hmset key fields.toList) w).2 (a.perform (.hmset key fields)).2 ∧
      StoreAnswer.flag (succeeded (some (exec (.hmset key fields.toList) w).1)) =
        (a.perform (.hmset key fields)).1 := by
  rw [Store.perform, hf, if_neg (by simp)]
  apply h.change
  obtain ⟨field, value, hfield⟩ := exists_field hf
  have hkeep (m : StringMap Bytes) : keepHash w key (m ∪ fields) = w.insert key (.hash (m ∪ fields)) := by
    have hunion : (m ∪ fields)[field]? = some value := by
      rw [Std.ExtTreeMap.getElem?_union, hfield]
      rfl
    exact keepHash_of_mem hunion
  rw [h.fieldsOf key]
  cases hw : w[key]? with
  | none => simp only [exec, hw, storeFields_union, hkeep, Reply.isError, and_self]
  | some v =>
    cases v with
    | hash m => simp only [exec, hw, storeFields_union, hkeep, Reply.isError, and_self]
    | string b => simp only [exec, hw, Reply.isError, and_self]
    | list l => simp only [exec, hw, Reply.isError, and_self]

theorem Mirrors.hdel (key field : Bytes) :
    Mirrors (execKey (.hdel key field) w).2 (a.perform (.hdel key field)).2 ∧
      StoreAnswer.flag (succeeded (some (execKey (.hdel key field) w).1)) = (a.perform (.hdel key field)).1 := by
  apply h.change
  rw [h.fieldsOf key]
  cases hw : w[key]? with
  | none =>
    have herase : (∅ : StringMap Bytes).erase field = ∅ := by simp
    simp only [execKey, hw, herase, keepHash_empty hw, Reply.isError, and_self]
  | some v =>
    cases v with
    | hash m => simp only [execKey, hw, Reply.isError, and_self]
    | string b => simp only [execKey, hw, Reply.isError, and_self]
    | list l => simp only [execKey, hw, Reply.isError, and_self]

end Changes

section EndsWith

variable {E : Type} {R : E → Type} {α : Type} {S : Semantics E R Keyspace} {answer : α → StoreAnswer}
  {w w' : Keyspace} {o : Except StdException StoreAnswer}

theorem EndsWith.of_ret {x : α} (h : EndsWith S answer (.ret x) w o w') : o = .ok (answer x) ∧ w' = w := by
  obtain ⟨τ, r, hrun, rfl⟩ := h
  cases hrun
  exact ⟨rfl, rfl⟩

theorem EndsWith.of_call {e : E} {g : R e → α} (h : EndsWith S answer (.call e fun r => .ret (g r)) w o w') :
    ∃ r, S e w r w' ∧ o = .ok (answer (g r)) := by
  obtain ⟨τ, r, hrun, rfl⟩ := h
  cases hrun with
  | call hs hk =>
    cases hk
    exact ⟨_, hs, rfl⟩

theorem exists_endsWith (htotal : ∀ e w, ∃ r w', S e w r w') (p : Prog E R StdException α) (w : Keyspace) :
    ∃ o w', EndsWith S answer p w o w' := by
  obtain ⟨τ, r, w', hrun⟩ := exists_run htotal p w
  exact ⟨_, w', τ, r, hrun, rfl⟩

end EndsWith

theorem keyAnswered_total (e : KeyEffect) (w : Keyspace) : ∃ r w', keyAnswered e w r w' := ⟨_, _, rfl, rfl⟩

/-- Every call ends. -/
theorem performs_total (redis : RedisClient) (c : StoreCall) (w : Keyspace) : ∃ o w', Performs redis c w o w' := by
  cases c with
  | set key value => exact exists_endsWith keyAnswered_total _ w
  | get key => exact exists_endsWith answered_total _ w
  | del key => exact exists_endsWith keyAnswered_total _ w
  | «exists» key => exact exists_endsWith keyAnswered_total _ w
  | hset key field value => exact exists_endsWith answered_total _ w
  | hmset key fields => exact exists_endsWith answered_total _ w
  | hget key field => exact exists_endsWith answered_total _ w
  | hgetall key => exact exists_endsWith answered_total _ w
  | hdel key field => exact exists_endsWith keyAnswered_total _ w
  | hexists key field => exact exists_endsWith keyAnswered_total _ w

/-- What a call answers: as the store does, but `del` answers `false`. -/
def StoreCall.returned (c : StoreCall) (a : Store) : StoreAnswer :=
  match c with
  | .del _ => .flag false
  | c => (a.perform c).1

theorem StoreCall.returned_eq_iff (c : StoreCall) (a : Store) : c.returned a = (a.perform c).1 ↔ c.Misses a := by
  cases c with
  | del key =>
    show StoreAnswer.flag false = .flag (a key).isSome ↔ a key = none
    cases a key with
    | none => exact iff_of_true rfl rfl
    | some e => simp
  | _ => exact iff_of_true rfl trivial

section Step

variable {redis : RedisClient} (hc : redis.connected = true)
include hc

/-- Each call does what the abstract store does for the arguments that the server gets. -/
theorem store_step {c : StoreCall} {w w' : Keyspace} {a : Store} {o : Except StdException StoreAnswer}
    (h : Mirrors w a)
    (hp : Performs redis c w o w') : Mirrors w' (a.perform c.cut).2 ∧ o = .ok (c.cut.returned a) := by
  cases c with
  | set key value =>
    rw [Performs, set_eq hc] at hp
    obtain ⟨r, ⟨rfl, rfl⟩, rfl⟩ := hp.of_call
    exact ⟨h.insert (cStr key) (.text (cStr value)), rfl⟩
  | get key =>
    rw [Performs, get_eq hc] at hp
    obtain ⟨r, ⟨rfl, rfl⟩, rfl⟩ := hp.of_call
    rw [exec_reads rfl, h.get]
    exact ⟨h, rfl⟩
  | del key =>
    -- the reply is an integer, so the test fails whether the key was there or not
    rw [Performs, del_eq hc] at hp
    obtain ⟨r, ⟨rfl, rfl⟩, rfl⟩ := hp.of_call
    exact ⟨h.erase (cStr key), rfl⟩
  | «exists» key =>
    rw [Performs, exists_eq hc] at hp
    obtain ⟨r, ⟨rfl, hw⟩, rfl⟩ := hp.of_call
    rw [hw, h.exists]
    exact ⟨h, rfl⟩
  | hset key field value =>
    rw [Performs, hset_eq hc] at hp
    obtain ⟨r, ⟨rfl, rfl⟩, rfl⟩ := hp.of_call
    obtain ⟨hmirrors, hanswer⟩ := h.hset (cStr key) (cStr field) (cStr value)
    exact ⟨hmirrors, congrArg Except.ok hanswer⟩
  | hmset key fields =>
    cases hf : fields.isEmpty with
    | true =>
      have hcode : redis.hmset key fields = .ret false := by simp [RedisClient.hmset, hf]
      rw [Performs, hcode] at hp
      obtain ⟨rfl, hw⟩ := hp.of_ret
      have hrefused : a.perform (.hmset key fields) = (.flag false, a) := by rw [Store.perform, hf, if_pos rfl]
      show Mirrors w' (a.perform (.hmset key fields)).2 ∧ Except.ok _ = .ok (a.perform (.hmset key fields)).1
      rw [hrefused, hw]
      exact ⟨h, rfl⟩
    | false =>
      rw [Performs, hmset_eq hc key hf] at hp
      obtain ⟨r, ⟨rfl, rfl⟩, rfl⟩ := hp.of_call
      obtain ⟨hmirrors, hanswer⟩ := h.hmset key hf
      exact ⟨hmirrors, congrArg Except.ok hanswer⟩
  | hget key field =>
    rw [Performs, hget_eq hc] at hp
    obtain ⟨r, ⟨rfl, rfl⟩, rfl⟩ := hp.of_call
    rw [exec_reads rfl, h.hget]
    exact ⟨h, rfl⟩
  | hgetall key =>
    rw [Performs, hgetall_eq hc] at hp
    obtain ⟨r, ⟨rfl, rfl⟩, rfl⟩ := hp.of_call
    rw [exec_reads rfl, h.hgetall]
    exact ⟨h, rfl⟩
  | hdel key field =>
    rw [Performs, hdel_eq hc] at hp
    obtain ⟨r, ⟨rfl, rfl⟩, rfl⟩ := hp.of_call
    obtain ⟨hmirrors, hanswer⟩ := h.hdel (cStr key) (cStr field)
    exact ⟨hmirrors, congrArg Except.ok hanswer⟩
  | hexists key field =>
    rw [Performs, hexists_eq hc] at hp
    obtain ⟨r, ⟨rfl, rfl⟩, rfl⟩ := hp.of_call
    obtain ⟨hsame, hanswer⟩ := h.hexists (cStr key) (cStr field)
    rw [hsame, hanswer]
    exact ⟨h, rfl⟩

end Step

/-- Of a key that is new, `hset` and `hmset` store the same exactly if nothing has to be cut. -/
theorem hset_eq_hmset_iff {redis : RedisClient} (hc : redis.connected = true) {w w₁ w₂ : Keyspace}
    {key field value : Bytes} (hkey : w[key]? = none) (hcut : w[cStr key]? = none)
    {o₁ o₂ : Except StdException StoreAnswer} (hset : Performs redis (.hset key field value) w o₁ w₁)
    (hmset : Performs redis (.hmset key ((∅ : StringMap Bytes).insert field value)) w o₂ w₂) :
    w₁ = w₂ ↔ 0 ∉ key ∧ 0 ∉ field ∧ 0 ∉ value := by
  rw [Performs, hset_eq hc] at hset
  rw [Performs, hmset_eq hc key (isEmpty_eq_false_of_getElem? (k := field) (v := value) (by simp))] at hmset
  obtain ⟨r₁, ⟨rfl, rfl⟩, -⟩ := hset.of_call
  obtain ⟨r₂, ⟨rfl, rfl⟩, -⟩ := hmset.of_call
  rw [exec_hmset hkey]
  simp only [exec, hcut]
  rw [← cStr_eq_iff key, ← cStr_eq_iff field, ← cStr_eq_iff value]
  constructor
  · intro he
    have hkeys : cStr key = key := by
      by_contra hne
      have hlook := congrArg (fun w : Keyspace => w[key]?) he
      simp [hne, hkey] at hlook
    rw [hkeys] at he
    have hhash : (∅ : StringMap Bytes).insert (cStr field)
        (cStr value) = (∅ : StringMap Bytes).insert field value := by
      simpa using congrArg (fun w : Keyspace => w[key]?) he
    have hfield := congrArg (fun m : StringMap Bytes => m[field]?) hhash
    by_cases hf : cStr field = field
    · exact ⟨hkeys, hf, by simpa [hf] using hfield⟩
    · simp [hf] at hfield
  · rintro ⟨hk, hf, hv⟩
    rw [hk, hf, hv]

/-! ### Sequences of calls -/

/-- The wrappers as an object over the abstract store: they cut their arguments, and `del` answers `false`. -/
def Store.wrapped : Behaviour StoreCall StoreCall.Outcome Store :=
  fun c a => (.ok (c.cut.returned a), (a.perform c.cut).2)

/-- From corresponding contents, whatever the calls and their arguments: the answers, and what is stored at the
end. -/
theorem store_run {redis : RedisClient} (hc : redis.connected = true) {w w' : Keyspace} {a : Store}
    (h : Mirrors w a) {τ : List (Event StoreCall StoreCall.Outcome)} (hτ : Calls (Performs redis) w τ w') :
    Mirrors w' (Store.wrapped.after a (τ.map (·.1))) ∧ τ = Store.wrapped.answers a (τ.map (·.1)) := by
  have hstep {c : StoreCall} {w w' : Keyspace} {a : Store} {o : c.Outcome} (hw : Mirrors w a)
      (hp : Performs redis c w o w') : Mirrors w' (Store.wrapped c a).2 ∧ o = (Store.wrapped c a).1 :=
    store_step hc hw hp
  exact hτ.follows hstep h

/-- However the calls are made from `w`, they answer as those of the abstract store do from `a`. -/
def Refined (redis : RedisClient) (w : Keyspace) (a : Store) (calls : List StoreCall) : Prop :=
  ∀ τ w', Calls (Performs redis) w τ w' → τ.map (·.1) = calls → τ = Store.behaviour.answers a calls

/-- Calls without NUL bytes in the arguments that go through `%s` can be made, and they leave what the abstract
store has then.  They answer as it does exactly if no `del` on the way is of a key that exists. -/
theorem store_refined_iff {redis : RedisClient} (hc : redis.connected = true) {w : Keyspace} {a : Store}
    (h : Mirrors w a) {calls : List StoreCall} (hnul : ∀ c ∈ calls, c.NoNul) :
    (∃ τ w', Calls (Performs redis) w τ w' ∧ τ.map (·.1) = calls) ∧
      (∀ τ w', Calls (Performs redis) w τ w' → τ.map (·.1) = calls →
        Mirrors w' (Store.behaviour.after a calls)) ∧
      (Refined redis w a calls ↔ Store.behaviour.Always StoreCall.Misses a calls) := by
  have hstep {c : StoreCall} {w w' : Keyspace} {a : Store} {o : c.Outcome} (hplain : c.NoNul) (hw : Mirrors w a)
      (hp : Performs redis c w o w') :
      Mirrors w' (Store.behaviour c a).2 ∧ (o = (Store.behaviour c a).1 ↔ c.Misses a) := by
    obtain ⟨hmirrors, rfl⟩ := store_step hc hw hp
    rw [StoreCall.cut_of_noNul hplain] at hmirrors ⊢
    refine ⟨hmirrors, ?_⟩
    show Except.ok (c.returned a) = .ok (a.perform c).1 ↔ c.Misses a
    rw [Except.ok.injEq, StoreCall.returned_eq_iff]
  have hrun {τ : List (Event StoreCall StoreCall.Outcome)} {w' : Keyspace} (hτ : Calls (Performs redis) w τ w')
      (hcalls : τ.map (·.1) = calls) := hτ.simulates hstep h (hcalls ▸ hnul)
  have hexists := exists_calls (performs_total redis) calls w
  refine ⟨hexists, ?_, ?_⟩
  · rintro τ w' hτ rfl
    exact (hrun hτ rfl).1
  · constructor
    · intro hrefined
      obtain ⟨τ, w', hτ, rfl⟩ := hexists
      exact (hrun hτ rfl).2.1 (hrefined τ w' hτ rfl)
    · rintro hmisses τ w' hτ rfl
      exact (hrun hτ rfl).2.2 hmisses

theorem store_refined_iff_text : Refined ⟨0, true⟩ ∅ (fun _ => none)
    [.set (bytes "k") (bytes "v"), .get (bytes "k"), .hset (bytes "h") (bytes "f") (bytes "v"),
      .hget (bytes "h") (bytes "f"), .hdel (bytes "h") (bytes "f"), .hexists (bytes "h") (bytes "f"),
      .del (bytes "m"), .exists (bytes "k")] := by
  apply (store_refined_iff rfl mirrors_empty _).2.2.2
  · exact ⟨trivial, trivial, trivial, trivial, trivial, trivial, rfl, trivial, trivial⟩
  · intro c hcall
    fin_cases hcall
    · exact ⟨by decide, by decide⟩
    · show 0 ∉ bytes "k"
      decide
    · exact ⟨by decide, by decide, by decide⟩
    · exact ⟨by decide, by decide⟩
    · exact ⟨by decide, by decide⟩
    · exact ⟨by decide, by decide⟩
    · show 0 ∉ bytes "m"
      decide
    · show 0 ∉ bytes "k"
      decide

/-- A call uses its key as a text if `asText` says so, as a hash otherwise; `del` and `exists` take any key. -/
def StoreCall.Uses (asText : Bytes → Prop) : StoreCall → Prop
  | .set key _ => asText key
  | .get key => asText key
  | .del _ => True
  | .exists _ => True
  | .hset key _ _ => ¬asText key
  | .hmset key _ => ¬asText key
  | .hget key _ => ¬asText key
  | .hgetall key => ¬asText key
  | .hdel key _ => ¬asText key
  | .hexists key _ => ¬asText key

/-- `set k v` and then `del k`: the key existed, and `del` answers `false`. -/
theorem del_denied : ¬∀ calls : List StoreCall, (∃ asText, ∀ c ∈ calls, c.Uses asText) →
    Refined ⟨0, true⟩ ∅ (fun _ => none) calls := by
  intro hall
  have htexts : ∀ c ∈ ([.set (bytes "k") (bytes "v"), .del (bytes "k")] : List StoreCall),
      c.Uses fun _ => True := by
    intro c hcall
    simp only [List.mem_cons, List.not_mem_nil, or_false] at hcall
    rcases hcall with rfl | rfl
    · trivial
    · trivial
  have hrefined := hall _ ⟨fun _ => True, htexts⟩
  obtain ⟨τ, w', hτ, hcalls⟩ := exists_calls (performs_total ⟨0, true⟩)
    [.set (bytes "k") (bytes "v"), .del (bytes "k")] ∅
  have hanswers := (store_run rfl mirrors_empty hτ).2
  rw [hcalls] at hanswers
  have hsame := hanswers.symm.trans (hrefined τ w' hτ hcalls)
  have hsecond : (Except.ok (.flag false) : Except StdException StoreAnswer) = .ok (.flag true) := by
    have hlast := (List.cons.inj (List.cons.inj hsame).2).1
    exact eq_of_heq (Sigma.mk.inj hlast).2
  cases hsecond

end Taskflow
