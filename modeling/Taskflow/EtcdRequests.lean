import Taskflow.EtcdClient
import Taskflow.Lib.Interfaces

/-!
# The requests of `EtcdClient`

How `EtcdClient` sends its requests: `makeRequest` with a method, a path and a body in which keys and values are
encoded, and regular expressions that find the encoded values in the response.  `sent` answers each effect of
the client's operations with the code that does so; an operation with its effects answered (`Prog.handle`) is
the whole of its source.
-/

namespace Taskflow

open Text Effects Prog

inductive WireEffect where
  | makeRequest (method path body : Bytes)
  | indeterminate

/-- A request is answered by the response, `none` when `success` was left false: no caller looks at the response
then. -/
@[reducible] def WireEffect.Answer : WireEffect → Type
  | .makeRequest _ _ _ => Option Bytes
  | .indeterminate => Int32

abbrev WireCode (α : Type) := Prog WireEffect WireEffect.Answer StdException α

namespace EtcdClient

def makeRequest (method path body : Bytes) : WireCode (Option Bytes) :=
  perform (WireEffect.makeRequest method path body)

/-! ### Bodies -/

def keyBody (key : Bytes) : Bytes := bytes "\x7b\"key\":\"" ++ (encodeValue key ++ bytes "\"\x7d")

def prefixBody (key rangeEnd : Bytes) : Bytes :=
  bytes "\x7b\"key\":\"" ++ (encodeValue key ++ (bytes "\",\"range_end\":\"" ++ encodeValue rangeEnd ++
    bytes "\",\"count_only\":false\x7d"))

def putBody (key value : Bytes) (leaseId : Int64) : Bytes :=
  bytes "\x7b\"key\":\"" ++ encodeValue key ++ bytes "\",\"value\":\"" ++ encodeValue value ++ bytes "\"" ++
    (if 0 < leaseId then bytes ",\"lease\":" ++ decimal leaseId.toInt else []) ++ bytes "\x7d"

/-- The bodies of the requests for leases. -/
def numberBody (name : Bytes) (n : Int) : Bytes :=
  bytes "\x7b\"" ++ name ++ bytes "\":" ++ decimal n ++ bytes "\x7d"

/-! ### Responses -/

def searchValue (response : Bytes) : Option Bytes := searchAfter (bytes "\"value\":\"") untilQuote response

/-- What the loop of `getPrefix` finds. -/
def searchKeys (response : Bytes) : List Bytes := searchAll (bytes "\"key\":\"") untilQuote 1 0 response

/-- How each request is sent, and what is read out of its response.  `getPrefix` reads no values, so its pairs have
none. -/
def sent (engine : Engine := tireless) : (e : EtcdEffect) → WireCode e.Answer
  | .range key none => do
    let some response ← makeRequest (bytes "POST") (bytes "/v3/kv/range") (keyBody key) | return none
    let some text ← ofExcept (search engine (bytes "value") response (searchValue response)) | return some []
    let value ← ofExcept (decodeValue text)
    return some [(key, value)]
  | .range key (some rangeEnd) => do
    let some response ← makeRequest (bytes "POST") (bytes "/v3/kv/range") (prefixBody key rangeEnd) | return none
    let texts ← ofExcept (search engine (bytes "key") response (searchKeys response))
    let keys ← ofExcept (texts.mapM decodeValue)
    return some (keys.map fun key => (key, []))
  | .put key value leaseId => do
    let response ← makeRequest (bytes "PUT") (bytes "/v3/kv/put") (putBody key value leaseId)
    return response.isSome
  | .del key => do
    let response ← makeRequest (bytes "DELETE") (bytes "/v3/kv/del") (keyBody key)
    return response.isSome
  | .leaseGrant ttlSeconds =>
    makeRequest (bytes "POST") (bytes "/v3/lease/grant") (numberBody (bytes "TTL") ttlSeconds.toInt)
  | .leaseKeepAlive leaseId => do
    let response ← makeRequest (bytes "POST") (bytes "/v3/lease/keepalive") (numberBody (bytes "ID") leaseId.toInt)
    return response.isSome
  | .leaseRevoke leaseId => do
    let response ← makeRequest (bytes "POST") (bytes "/v3/lease/revoke") (numberBody (bytes "ID") leaseId.toInt)
    return response.isSome
  | .indeterminate => perform WireEffect.indeterminate

end EtcdClient

end Taskflow
