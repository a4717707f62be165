import Taskflow.Lib.Lines

/-!
# The address of the Redis server

The part of `main` of `src/scheduler.cpp` that splits `redis_addr` into host and port.  The port is read from
`redis_stream.str()`, which is the whole text and not what `getline` has left of it, so it is the number at the head
of the host.  `redis_address_iff`: this is the configured port for few hosts, and mostly there is no number at all.
-/

namespace Taskflow

open Text

/-- The arguments of the constructor of `RedisPool`. -/
structure RedisAddress where
  host : Bytes
  port : Int32
  deriving DecidableEq

/-- `redis_host` and `redis_port`. -/
def parseRedisAddr (redisAddr : Bytes) : Except StdException RedisAddress := do
  -- on an empty stream `getline` leaves the host as it was
  let redisHost := ((getlineUntil 58 redisAddr).map (·.1)).getD []
  let redisPort ← if redisAddr.isEmpty then .ok 6379 else stoi 10 redisAddr
  return ⟨redisHost, redisPort⟩

/-- `host:port` -/
def redisAddr (host : Bytes) (port : Int32) : Bytes := host ++ 58 :: decimal port.toInt

/-- `std::stoi` does not go past the colon. -/
theorem stoi_redisAddr (host : Bytes) (port : Int32) : stoi 10 (redisAddr host port) = stoi 10 host := by
  have hstop : isSpace 58 = false ∧ isDigit 10 58 = false := by decide
  unfold stoi redisAddr
  rw [strtol_append_stop hstop.1 (by decide) hstop.2]

theorem parseRedisAddr_eq {host : Bytes} (hhost : 58 ∉ host) (port : Int32) :
    parseRedisAddr (redisAddr host port) = (stoi 10 host).map fun n => ⟨host, n⟩ := by
  have hline : getlineUntil 58 (redisAddr host port) = some (host, decimal port.toInt) :=
    getlineUntil_append hhost _
  have hne : (redisAddr host port).isEmpty = false := by simp [redisAddr]
  unfold parseRedisAddr
  rw [hline, hne, if_neg Bool.false_ne_true, stoi_redisAddr]
  cases stoi 10 host with
  | ok n => rfl
  | error x => rfl

theorem parseRedisAddr_plain {addr : Bytes} (haddr : 58 ∉ addr) (hne : addr ≠ []) :
    parseRedisAddr addr = (stoi 10 addr).map fun n => ⟨addr, n⟩ := by
  have hline : getlineUntil 58 addr = some (addr, []) := getlineUntil_last haddr hne
  unfold parseRedisAddr
  rw [hline, if_neg (by simpa using hne)]
  cases stoi 10 addr with
  | ok n => rfl
  | error x => rfl

private theorem map_eq_iff {x : Except StdException Int32} {host : Bytes} {port : Int32} :
    (x.map fun n => (⟨host, n⟩ : RedisAddress)) = .ok ⟨host, port⟩ ↔ x = .ok port := by
  cases x with
  | ok n =>
    constructor
    · intro h
      cases h
      rfl
    · rintro ⟨⟩
      rfl
  | error e =>
    constructor
    · intro h
      cases h
    · intro h
      cases h

/-- The address `host:port` is read as written exactly when the host itself begins with the number `port`, and an
address without a port gets the default port exactly when it is empty or begins with this number. -/
theorem redis_address_iff {host : Bytes} (hhost : 58 ∉ host) :
    (∀ port : Int32, host ≠ [] → 1 ≤ port.toInt → port.toInt ≤ 65535 →
      (parseRedisAddr (redisAddr host port) = .ok ⟨host, port⟩ ↔ stoi 10 host = .ok port)) ∧
    (parseRedisAddr host = .ok ⟨host, 6379⟩ ↔ host = [] ∨ stoi 10 host = .ok 6379) := by
  constructor
  · intro port _ _ _
    rw [parseRedisAddr_eq hhost, map_eq_iff]
  · by_cases hne : host = []
    · subst hne
      exact iff_of_true rfl (.inl rfl)
    · rw [parseRedisAddr_plain hhost hne, map_eq_iff]
      exact ⟨.inr, fun h => h.resolve_left hne⟩

/-- A host that is read as its own port. -/
theorem redis_address_iff_digits : parseRedisAddr (redisAddr (bytes "80") 80) = .ok ⟨bytes "80", 80⟩ :=
  ((redis_address_iff (by decide)).1 80 (by decide) (by decide) (by decide)).2 (by decide)

/-- The default configuration throws, and a numeric address gives its first number as the port. -/
theorem redis_address_lost :
    parseRedisAddr (redisAddr (bytes "localhost") 6379) = .error .invalidArgument ∧
      parseRedisAddr (redisAddr (bytes "127.0.0.1") 6379) = .ok ⟨bytes "127.0.0.1", 127⟩ ∧
      parseRedisAddr (bytes "localhost") = .error .invalidArgument := by
  decide

end Taskflow
