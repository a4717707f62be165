import Taskflow.Lib.Effects
import Taskflow.Lib.Pattern

/-!
# `EtcdClient`

The etcd client of `src/common/etcd_client.cpp` and what `ServiceRegistry` asks of it: the codec that keys and
values pass through (`encodeValue`, `decodeValue`), and the operations, which are programs over requests.  Here
a request carries keys and values as the caller wrote them, and the answer to a range request is the list of
pairs that the client reads out of the response.  How a request is sent, with the codec at work in its body and
in the response, is the subject of `EtcdRequests`.
-/

namespace Taskflow

open Text Effects Prog

/-- `ServiceInfo`; `getServices` assigns no other member. -/
structure ServiceInfo where
  name : Bytes
  id : Bytes
  address : Bytes
  port : Int32
  deriving DecidableEq

/-! ### The codec -/

/-- The bytes that `encodeValue` escapes. -/
def needsEscape (c : UInt8) : Bool := c = 34 || c = 92 || c < 32

def hexDigit (n : Nat) : UInt8 := UInt8.ofNat (if n < 10 then 48 + n else 87 + n)

/-- `"\\u" << std::hex << std::setw(2) << std::setfill('0') << (int)c` -/
def escape (c : UInt8) : Bytes := [92, 117, hexDigit (c.toNat / 16), hexDigit (c.toNat % 16)]

def encodeValue (value : Bytes) : Bytes := value.flatMap fun c => if needsEscape c then escape c else [c]

/-- An escape is read when six bytes are left: the four after `\u` are the hexadecimal number. -/
def decodeValue : Bytes → Except StdException Bytes
  | [] => .ok []
  | 92 :: 117 :: a :: b :: c :: d :: rest => do
    let n ← stoi 16 [a, b, c, d]
    let result ← decodeValue rest
    return n.toUInt32.toUInt8 :: result
  | c :: rest => do
    let result ← decodeValue rest
    return c :: result

/-! ### Requests -/

inductive EtcdEffect where
  | range (key : Bytes) (rangeEnd : Option Bytes)
  | put (key value : Bytes) (leaseId : Int64)
  | del (key : Bytes)
  | leaseGrant (ttlSeconds : Int32)
  | leaseKeepAlive (leaseId : Int64)
  | leaseRevoke (leaseId : Int64)
  | indeterminate

/-- The type of a request's answer: the pairs of a range and the text of a granted lease, `none` when the request
failed; whether the other requests succeeded; and the value of an integer member that was never assigned. -/
@[reducible] def EtcdEffect.Answer : EtcdEffect → Type
  | .range _ _ => Option (List (Bytes × Bytes))
  | .put _ _ _ => Bool
  | .del _ => Bool
  | .leaseGrant _ => Option Bytes
  | .leaseKeepAlive _ => Bool
  | .leaseRevoke _ => Bool
  | .indeterminate => Int32

abbrev EtcdCode (α : Type) := Prog EtcdEffect EtcdEffect.Answer StdException α

namespace EtcdClient

/-- The value is encoded when the request is sent. -/
def put (key value : Bytes) (leaseId : Int64) : EtcdCode Bool := perform (EtcdEffect.put key value leaseId)

/-- The value has been found in the response and decoded. -/
def get (key : Bytes) : EtcdCode Bytes := do
  let some pairs ← perform (EtcdEffect.range key none) | return []
  return ((pairs.head?).map (·.2)).getD []

def del (key : Bytes) : EtcdCode Bool := perform (EtcdEffect.del key)

/-- The request's `range_end` is the prefix itself. -/
def getPrefix (keyPrefix : Bytes) : EtcdCode (List Bytes) := do
  let some pairs ← perform (EtcdEffect.range keyPrefix (some keyPrefix)) | return []
  return pairs.map (·.1)

/-- The loop of `getAllWithPrefix` over the keys. -/
def getValues : List Bytes → StringMap Bytes → EtcdCode (StringMap Bytes)
  | [], result => return result
  | key :: keys, result => do
    let value ← get key
    getValues keys (if value.isEmpty then result else result.insert key value)

def getAllWithPrefix (keyPrefix : Bytes) : EtcdCode (StringMap Bytes) := do
  let keys ← getPrefix keyPrefix
  getValues keys ∅

def createLease (ttlSeconds : Int32) : EtcdCode Int64 := do
  let some response ← perform (EtcdEffect.leaseGrant ttlSeconds) | return 0
  match searchAfter (bytes "\"ID\":") leadingDigits response with
  | some digits => ofExcept (stoll digits)
  | none => return 0

def keepAlive (leaseId : Int64) : EtcdCode Bool := perform (EtcdEffect.leaseKeepAlive leaseId)

def revokeLease (leaseId : Int64) : EtcdCode Bool := perform (EtcdEffect.leaseRevoke leaseId)

/-- The prefix of the keys of a service. -/
def servicePrefix (name : Bytes) : Bytes := bytes "/services/" ++ name ++ bytes "/"

def serviceKey (name id : Bytes) : Bytes := servicePrefix name ++ id

def quoted (s : Bytes) : Bytes := bytes "\"" ++ s ++ bytes "\""

/-- The text that `registerService` stores: nothing in the strings is escaped. -/
def registration (address : Bytes) (port : Int32) (metadata : StringMap Bytes) : Bytes :=
  bytes "\x7b\"address\":" ++ quoted address ++ bytes ",\"port\":" ++ decimal port.toInt ++
    (if metadata.isEmpty then []
      else bytes ",\"metadata\":\x7b" ++
        ((metadata.toList.map fun m => quoted m.1 ++ bytes ":" ++ quoted m.2).intersperse (bytes ",")).flatten ++
        bytes "\x7d") ++
    bytes "\x7d"

def registerService (name id address : Bytes) (port : Int32) (metadata : StringMap Bytes) (ttlSeconds : Int32) :
    EtcdCode Int64 := do
  let leaseId ← createLease ttlSeconds
  if leaseId = 0 then return 0
  if ← put (serviceKey name id) (registration address port metadata) leaseId then return leaseId
  let _ ← revokeLease leaseId
  return 0

def deregisterService (name id : Bytes) : EtcdCode Bool := del (serviceKey name id)

/-- `key.substr(key.find_last_of('/') + 1)`, if there is a slash. -/
def afterLastSlash (key : Bytes) : Option Bytes :=
  if 47 ∈ key then some (key.reverse.takeWhile fun c => c ≠ 47).reverse else none

def searchAddress (value : Bytes) : Option Bytes := searchAfter (bytes "\"address\":\"") untilQuote value

def searchPort (value : Bytes) : Option Bytes := searchAfter (bytes "\"port\":") leadingDigits value

/-- The two searches that assign `address` and `port`. -/
def readEndpoint (info : ServiceInfo) (value : Bytes) (engine : Engine := tireless) :
    Except StdException ServiceInfo := do
  let info := match ← search engine (bytes "address") value (searchAddress value) with
    | some address => { info with address := address }
    | none => info
  match ← search engine (bytes "port") value (searchPort value) with
  | some digits => do
    let port ← stoi 10 digits
    return { info with port := port }
  | none => return info

/-- `ServiceInfo info;`: the port has no determined value. -/
def declareServiceInfo (name id : Bytes) : EtcdCode ServiceInfo := do
  let port ← perform EtcdEffect.indeterminate
  return { name := name, id := id, address := [], port := port }

/-- The loop of `getServices` over the pairs. -/
def readServices (name : Bytes) (engine : Engine := tireless) : List (Bytes × Bytes) → EtcdCode (List ServiceInfo)
  | [] => return []
  | (key, value) :: rest => do
    let info ← declareServiceInfo name ((afterLastSlash key).getD [])
    let info ← ofExcept (readEndpoint info value engine)
    let infos ← readServices name engine rest
    return info :: infos

def getServices (name : Bytes) (engine : Engine := tireless) : EtcdCode (List ServiceInfo) := do
  let services ← getAllWithPrefix (servicePrefix name)
  readServices name engine services.toList

def getService (name id : Bytes) (engine : Engine := tireless) : EtcdCode ServiceInfo := do
  let value ← get (serviceKey name id)
  let info ← declareServiceInfo name id
  if value.isEmpty then return info
  ofExcept (readEndpoint info value engine)

/-- The first part of `refreshService`: the value, with the endpoint that its variables `address` and `port` get. -/
def readRegistration (name id : Bytes) (engine : Engine := tireless) : EtcdCode (Option (Bytes × ServiceInfo)) := do
  let value ← get (serviceKey name id)
  if value.isEmpty then return none
  let info ← ofExcept (readEndpoint { name := name, id := id, address := [], port := 0 } value engine)
  return some (value, info)

def refreshService (name id : Bytes) (engine : Engine := tireless) : EtcdCode Bool := do
  -- the address and the port are not used
  let some (value, _) ← readRegistration name id engine | return false
  let leaseId ← createLease 10
  if leaseId = 0 then return false
  put (serviceKey name id) value leaseId

theorem refreshService_eq (name id : Bytes) (engine : Engine) : refreshService name id engine = (do
    let value ← get (serviceKey name id)
    if value.isEmpty then return false
    let _ ← ofExcept (readEndpoint { name := name, id := id, address := [], port := 0 } value engine)
    let leaseId ← createLease 10
    if leaseId = 0 then return false
    put (serviceKey name id) value leaseId) := by
  unfold refreshService readRegistration
  rw [bind_assoc']
  refine congrArg (get (serviceKey name id) >>= ·) (funext fun value => ?_)
  split
  · rfl
  · rw [bind_assoc']
    rfl

/-- A lease is created with one request. -/
theorem createLease_every {P : EtcdEffect → Prop} {ttlSeconds : Int32} (h : P (.leaseGrant ttlSeconds)) :
    (createLease ttlSeconds).Every P := by
  refine .bind ⟨h, fun _ => trivial⟩ fun response => ?_
  split
  · split
    · exact .ofExcept _
    · trivial
  · trivial

end EtcdClient

/-- `ServiceRegistry::getServices`, with or without a client. -/
def ServiceRegistry.getServices (client : Bool) (name : Bytes) : EtcdCode (List ServiceInfo) :=
  if client then EtcdClient.getServices name else return []

/-! ### The server -/

/-- What etcd stores, ordered by the bytes of the keys. -/
abbrev EtcdStore := StringMap Bytes

/-- The pairs of a range: those with `key ≤ x < rangeEnd`, or the pair of the one key. -/
def EtcdStore.range (store : EtcdStore) (key : Bytes) (rangeEnd : Option Bytes) : List (Bytes × Bytes) :=
  match rangeEnd with
  | none => store.toList.filter fun x => x.1 = key
  | some rangeEnd => store.toList.filter fun x => key ≤ x.1 && x.1 < rangeEnd

/-- The environment of the client's code.  `faulty` permits any request to fail; a failed write may have taken
effect or not. -/
def etcdServed (faulty : Prop) : Semantics EtcdEffect EtcdEffect.Answer EtcdStore
  | .range key rangeEnd, w, r, w' => w' = w ∧ (r = some (w.range key rangeEnd) ∨ faulty ∧ r = none)
  | .put key value _, w, r, w' => (w' = w.insert key value ∧ (r = true ∨ faulty)) ∨
      (faulty ∧ w' = w ∧ r = false)
  | .del key, w, r, w' => (w' = w.erase key ∧ (r = true ∨ faulty)) ∨ (faulty ∧ w' = w ∧ r = false)
  | .leaseGrant _, w, r, w' => w' = w ∧ (r = none → faulty)
  | .leaseKeepAlive _, w, r, w' => w' = w ∧ (r = true ∨ faulty)
  | .leaseRevoke _, w, r, w' => w' = w ∧ (r = true ∨ faulty)
  | .indeterminate, w, _, w' => w' = w

end Taskflow
