import Taskflow.EtcdCodec
import Taskflow.EtcdRequests

/-!
# The endpoint in a registration

`EtcdClient::registerService` puts the address and the port in front of the metadata, and nothing is escaped.  The
three readers of the value take the first text that matches.  `endpoints_exact`: whatever the metadata is, what they
read is the endpoint that was registered.

The readers run with their requests as they are sent, against any server out of whose responses the client reads
the registered value.  Such a server can always answer (`registered_total`); one that returns the texts of the
requests as they came is none (`registration_not_echoed`).
-/

namespace Taskflow

open Text Effects Prog EtcdClient

/-- What a service registers: any metadata, and an address without quotes. -/
structure RegisteredService where
  address : Bytes
  port : Int32
  metadata : StringMap Bytes
  address_plain : 34 ∉ address
  port_nonneg : 0 ≤ port.toInt

def RegisteredService.value (service : RegisteredService) : Bytes :=
  registration service.address service.port service.metadata

/-- The information has the endpoint of the service. -/
def HasEndpoint (info : ServiceInfo) (service : RegisteredService) : Prop :=
  info.address = service.address ∧ info.port = service.port

/-! ### Searches that may be given up -/

/-- Some search is not carried out. -/
def GivesUp (engine : Engine) : Prop := ∃ name text, engine name text = false

/-- A result in `Q`, or an exception of a search that was given up. -/
def Searched {α : Type} (engine : Engine) (Q : α → Prop) : Except StdException α → Prop
  | .ok a => Q a
  | .error _ => GivesUp engine

section Endings

variable {α β W E : Type} {R : E → Type} {S : Semantics E R W} {engine : Engine} {Q : α → Prop}
  {Q' : β → Prop}

theorem Searched.bind {x : Except StdException α} {f : α → Except StdException β} (hx : Searched engine Q x)
    (hf : ∀ a, Q a → Searched engine Q' (f a)) : Searched engine Q' (x >>= f) := by
  cases x with
  | ok a => exact hf a hx
  | error x => exact hx

theorem search_ends (engine : Engine) (name text : Bytes) (found : α) :
    Searched engine (· = found) (search engine name text found) := by
  unfold search
  cases hcarried : engine name text with
  | true => exact rfl
  | false => exact ⟨name, text, hcarried⟩

/-- A program that goes on with a result. -/
theorem Searched.post {x : Except StdException α} {f : α → Prog E R StdException β} {w : W}
    (hx : Searched engine Q x) (hf : ∀ a, Q a → Post S (f a) (fun o _ => Searched engine Q' o) w) :
    Post S (Prog.ofExcept x >>= f) (fun o _ => Searched engine Q' o) w := by
  cases x with
  | ok a => exact hf a hx
  | error x => exact hx

/-- A program that goes on after another one. -/
theorem Post.bind_ends {p : Prog E R StdException α} {f : α → Prog E R StdException β} {w : Unit}
    {S : Semantics E R Unit} (hp : Post S p (fun o _ => Searched engine Q o) w)
    (hf : ∀ a, Q a → Post S (f a) (fun o _ => Searched engine Q' o) ()) :
    Post S (p >>= f) (fun o _ => Searched engine Q' o) w :=
  Post.bind hp (fun a _ ha => hf a ha) fun _ _ hx => hx

end Endings

/-! ### Reading one value -/

section Value

variable (service : RegisteredService)

/-- What follows the port. -/
def RegisteredService.tail : Bytes :=
  (if service.metadata.isEmpty then []
    else bytes ",\"metadata\":\x7b" ++
      ((service.metadata.toList.map fun m =>
        EtcdClient.quoted m.1 ++ bytes ":" ++ EtcdClient.quoted m.2).intersperse
        (bytes ",")).flatten ++ bytes "\x7d") ++
    bytes "\x7d"

/-- The genuine port, and what follows it. -/
def RegisteredService.portText : Bytes := bytes "\"port\":" ++ (decimal service.port.toInt ++ service.tail)

theorem RegisteredService.value_eq : service.value = bytes "\x7b" ++ (bytes "\"address\":\"" ++
    (service.address ++ 34 :: (bytes "," ++ service.portText))) := by
  simp [value, registration, portText, tail, EtcdClient.quoted, bytes]

/-- The number ends where the port does. -/
theorem RegisteredService.tail_stop : ∃ c rest, service.tail = c :: rest ∧ isDigit 10 c = false := by
  unfold tail
  split
  · exact ⟨125, [], rfl, by decide⟩
  · exact ⟨44, _, rfl, by decide⟩

theorem searchAddress_value : searchAddress service.value = some service.address := by
  have hbrace : (34 : UInt8) ∉ bytes "\x7b" := by decide
  rw [searchAddress, service.value_eq]
  refine (searchAfter_skip hbrace).trans ?_
  exact searchAfter_here (by decide) (untilQuote_append service.address_plain _)

theorem searchPort_portText : searchPort service.portText = some (decimal service.port.toInt) := by
  obtain ⟨c, rest, htail, hstop⟩ := service.tail_stop
  have hdecimal : decimal service.port.toInt = natDecimal service.port.toInt.natAbs :=
    if_neg (not_lt.2 service.port_nonneg)
  refine searchAfter_here (by decide) ?_
  rw [htail, hdecimal]
  exact leadingDigits_append _ hstop rest

/-- In front of the genuine port there are two quoted texts, the name of the address and the address.  Neither
is the name of the port with its colon: the address is followed by a comma. -/
theorem searchPort_value : searchPort service.value = some (decimal service.port.toInt) := by
  have hbrace : (34 : UInt8) ∉ bytes "\x7b" := by decide
  have hname : 34 ∉ bytes "port" ∧ 34 ∉ bytes "address" ∧ bytes "address" ≠ bytes "port" := by decide
  have hpunctuation : (34 : UInt8) ∉ bytes ":" ∧ (34 : UInt8) ∉ bytes "," := by decide
  have haddress : searchAfter (34 :: (bytes "port" ++ 34 :: [58])) leadingDigits (34 :: (bytes "address" ++
      34 :: (bytes ":" ++ (34 :: (service.address ++ 34 :: (bytes "," ++ service.portText)))))) =
      searchAfter (34 :: (bytes "port" ++ 34 :: [58])) leadingDigits
        (bytes ":" ++ (34 :: (service.address ++ 34 :: (bytes "," ++ service.portText)))) :=
    searchAfter_quoted hname.1 hname.2.1 (fun heq => absurd heq hname.2.2) (by simp [bytes])
  have hvalue : searchAfter (34 :: (bytes "port" ++ 34 :: [58])) leadingDigits
      (34 :: (service.address ++ 34 :: (bytes "," ++ service.portText))) =
      searchAfter (34 :: (bytes "port" ++ 34 :: [58])) leadingDigits (bytes "," ++ service.portText) :=
    searchAfter_quoted hname.1 service.address_plain (fun _ hcolon => absurd hcolon (by simp [bytes]))
      (by simp [bytes])
  rw [searchPort, service.value_eq]
  calc searchAfter (bytes "\"port\":") leadingDigits (bytes "\x7b" ++ (bytes "\"address\":\"" ++
        (service.address ++ 34 :: (bytes "," ++ service.portText))))
      = _ := searchAfter_skip hbrace
    _ = _ := haddress
    _ = _ := searchAfter_skip hpunctuation.1
    _ = _ := hvalue
    _ = _ := searchAfter_skip hpunctuation.2
    _ = some (decimal service.port.toInt) := searchPort_portText service

/-- The information with the endpoint of the service. -/
def ServiceInfo.withEndpoint (info : ServiceInfo) : ServiceInfo :=
  { info with address := service.address, port := service.port }

/-- Each reader gets the registered endpoint, whatever it had before. -/
theorem readEndpoint_value (info : ServiceInfo) (engine : Engine) :
    Searched engine (· = info.withEndpoint service) (readEndpoint info service.value engine) := by
  unfold readEndpoint
  rw [searchAddress_value, searchPort_value]
  refine (search_ends engine (bytes "address") service.value (some service.address)).bind ?_
  rintro _ rfl
  refine (search_ends engine (bytes "port") service.value (some (decimal service.port.toInt))).bind ?_
  rintro _ rfl
  simp only [stoi_decimal]
  rfl

theorem RegisteredService.value_ne_nil : service.value ≠ [] := by
  simp [value_eq, bytes]

theorem RegisteredService.value_nonempty : ¬service.value.isEmpty = true := by
  rw [List.isEmpty_iff]
  exact service.value_ne_nil

/-- The value is full of quotes, so what `put` sends does not decode to it. -/
theorem registration_not_echoed : decodeValue (encodeValue service.value) ≠ .ok service.value := by
  intro h
  have hquote : (34 : UInt8) ∈ service.value := by simp [service.value_eq, bytes]
  exact absurd (plain_of_decode_encode h 34 hquote) (by decide)

end Value

/-! ### The server -/

/-- What a server has registered under its keys, and which keys it lists for a prefix. -/
structure Registrations where
  service : Bytes → Option RegisteredService
  listed : Bytes → List Bytes

/-- The client reads the value that is registered out of the response to a request for the key. -/
def Registrations.Finds (R : Registrations) (key response : Bytes) : Prop :=
  match R.service key with
  | some service => ∃ text, searchValue response = some text ∧ decodeValue text = .ok service.value
  | none => searchValue response = none

/-- The client reads the keys out of the response to a request for the prefix. -/
def Registrations.Lists (R : Registrations) (keyPrefix response : Bytes) : Prop :=
  (searchKeys response).mapM decodeValue = .ok (R.listed keyPrefix)

/-- A server with these registrations.  `faulty` permits any request to fail; other responses may be any text. -/
def registered (R : Registrations) (faulty : Prop) : Semantics WireEffect WireEffect.Answer Unit
  | .makeRequest _ path body, _, r, _ => (r = none → faulty) ∧
    ∀ response, r = some response → path = bytes "/v3/kv/range" →
      (∀ key, body = keyBody key → R.Finds key response) ∧
      ∀ keyPrefix rangeEnd, body = prefixBody keyPrefix rangeEnd → R.Lists keyPrefix response
  | .indeterminate, _, _, _ => True

/-- What the client reads out of the responses. -/
def readOut (R : Registrations) (faulty : Prop) : Semantics EtcdEffect EtcdEffect.Answer Unit
  | .range key none, _, r, _ =>
    r = some ((R.service key).toList.map fun service => (key, service.value)) ∨ faulty ∧ r = none
  | .range keyPrefix (some _), _, r, _ => r = some ((R.listed keyPrefix).map fun key => (key, [])) ∨
      faulty ∧ r = none
  | _, _, _, _ => True

section Responses

variable {R : Registrations} {faulty : Prop}

/-- Each effect is answered as the server's responses read. -/
theorem sent_readOut (engine : Engine) (e : EtcdEffect) :
    Post (registered R faulty) (sent engine e)
      (fun o _ => Searched engine (fun r => readOut R faulty e () r ()) o) () := by
  cases e with
  | range key rangeEnd =>
    cases rangeEnd with
    | none =>
      rintro r ⟨⟩ ⟨hfailed, hresponse⟩
      cases r with
      | none => exact .inr ⟨hfailed rfl, rfl⟩
      | some response =>
        have hfinds := (hresponse response rfl rfl).1 key rfl
        refine (search_ends engine (bytes "value") response (searchValue response)).post ?_
        rintro _ rfl
        unfold Registrations.Finds at hfinds
        cases hservice : R.service key with
        | none =>
          rw [hservice] at hfinds
          dsimp only at hfinds
          rw [hfinds]
          exact .inl (by rw [hservice]; rfl)
        | some service =>
          rw [hservice] at hfinds
          obtain ⟨text, htext, hvalue⟩ := hfinds
          rw [htext]
          dsimp only
          rw [hvalue]
          exact .inl (by rw [hservice]; rfl)
    | some rangeEnd =>
      rintro r ⟨⟩ ⟨hfailed, hresponse⟩
      cases r with
      | none => exact .inr ⟨hfailed rfl, rfl⟩
      | some response =>
        have hlists : (searchKeys response).mapM decodeValue = .ok (R.listed key) :=
          (hresponse response rfl rfl).2 key rangeEnd rfl
        refine (search_ends engine (bytes "key") response (searchKeys response)).post ?_
        rintro _ rfl
        rw [hlists]
        exact .inl rfl
  | put key value leaseId => exact fun r w' _ => trivial
  | del key => exact fun r w' _ => trivial
  | leaseGrant ttlSeconds => exact fun r w' _ => trivial
  | leaseKeepAlive leaseId => exact fun r w' _ => trivial
  | leaseRevoke leaseId => exact fun r w' _ => trivial
  | indeterminate => exact fun r w' _ => trivial

/-- What an operation makes of the values that are read is what it makes of the responses. -/
theorem Post.sent {α : Type} {engine : Engine} {p : EtcdCode α} {Q : α → Prop}
    (hp : Post (readOut R faulty) p (fun o _ => Searched engine Q o) ()) :
    Post (registered R faulty) (p.handle (sent engine)) (fun o _ => Searched engine Q o) () := by
  refine Post.handle (T := fun _ => GivesUp engine) ?_ hp fun _ _ hgives => hgives
  rintro e ⟨⟩
  refine (sent_readOut engine e).mono ?_
  rintro o ⟨⟩ ho
  cases o with
  | ok r =>
    refine ⟨?_, fun x hx => (by cases hx)⟩
    rintro _ ⟨⟩
    exact ho
  | error x => exact ⟨fun r hr => (by cases hr), fun _ _ => ho⟩

end Responses

/-! ### The readers -/

/-- What `getService` returns: the endpoint that is registered, or no address where nothing is registered or a
request failed. -/
structure Registrations.Returns (R : Registrations) (faulty : Prop) (name id : Bytes)
    (info : ServiceInfo) : Prop where
  name_eq : info.name = name
  id_eq : info.id = id
  endpoint : ∀ service, R.service (serviceKey name id) = some service →
    HasEndpoint info service ∨ faulty ∧ info.address = []
  unregistered : R.service (serviceKey name id) = none → info.address = []

/-- The information describes what is registered under the key. -/
def Registrations.Describes (R : Registrations) (name key : Bytes) (info : ServiceInfo) : Prop :=
  info.name = name ∧ info.id = (afterLastSlash key).getD [] ∧
    ∃ service, R.service key = some service ∧ HasEndpoint info service

/-- What `getServices` returns: descriptions of registered services, and of all of them unless requests fail. -/
structure Registrations.ReturnsAll (R : Registrations) (faulty : Prop) (name : Bytes) (infos : List ServiceInfo) :
    Prop where
  exact : ∀ info ∈ infos, ∃ key ∈ R.listed (servicePrefix name), R.Describes name key info
  complete : ¬faulty → ∀ key ∈ R.listed (servicePrefix name), (R.service key).isSome →
    ∃ info ∈ infos, R.Describes name key info

/-- What `refreshService` reads: the value and the endpoint that are registered, or nothing. -/
structure Registrations.Reads (R : Registrations) (faulty : Prop) (name id : Bytes)
    (found : Option (Bytes × ServiceInfo)) : Prop where
  exact : ∀ value info, found = some (value, info) → ∃ service, R.service (serviceKey name id) = some service ∧
    value = service.value ∧ HasEndpoint info service
  complete : ¬faulty → (R.service (serviceKey name id)).isSome → found.isSome

section Readers

variable {R : Registrations} {faulty : Prop} {engine : Engine}

/-- What `get` may give back. -/
def Registrations.Value (R : Registrations) (faulty : Prop) (key value : Bytes) : Prop :=
  (∃ service, R.service key = some service ∧ value = service.value) ∨ value = [] ∧
    (R.service key = none ∨ faulty)

theorem get_value (key : Bytes) :
    Post (readOut R faulty) (EtcdClient.get key) (fun o _ => Searched engine (R.Value faulty key) o) () := by
  rintro r ⟨⟩ (rfl | ⟨hfaulty, rfl⟩)
  · cases hservice : R.service key with
    | none => exact .inr ⟨rfl, .inl hservice⟩
    | some service => exact .inl ⟨service, hservice, rfl⟩
  · exact .inr ⟨rfl, .inr hfaulty⟩

theorem getService_returns (name id : Bytes) :
    Post (readOut R faulty) (getService name id engine)
      (fun o _ => Searched engine (R.Returns faulty name id) o) () := by
  refine Post.bind_ends (get_value (serviceKey name id)) fun value hvalue => ?_
  rintro port ⟨⟩ -
  change Post (readOut R faulty) (if value.isEmpty then ret ⟨name, id, [], port⟩
    else Prog.ofExcept (readEndpoint ⟨name, id, [], port⟩ value engine)) _ ()
  rcases hvalue with ⟨service, hservice, rfl⟩ | ⟨rfl, hmissing⟩
  · rw [if_neg service.value_nonempty]
    have hends := readEndpoint_value service ⟨name, id, [], port⟩ engine
    refine Post.ofExcept ?_
    cases hread : readEndpoint ⟨name, id, [], port⟩ service.value engine with
    | error x =>
      rw [hread] at hends
      exact hends
    | ok info =>
      rw [hread] at hends
      obtain rfl : info = _ := hends
      refine ⟨rfl, rfl, fun service' hservice' => ?_, fun hnone => ?_⟩
      · rw [hservice] at hservice'
        cases hservice'
        exact .inl ⟨rfl, rfl⟩
      · rw [hservice] at hnone
        cases hnone
  · refine ⟨rfl, rfl, fun service hservice => .inr ⟨?_, rfl⟩, fun _ => rfl⟩
    rcases hmissing with hnone | hfaulty
    · rw [hservice] at hnone
      cases hnone
    · exact hfaulty

theorem readRegistration_reads (name id : Bytes) :
    Post (readOut R faulty) (readRegistration name id engine)
      (fun o _ => Searched engine (R.Reads faulty name id) o) () := by
  refine Post.bind_ends (get_value (serviceKey name id)) fun value hvalue => ?_
  rcases hvalue with ⟨service, hservice, rfl⟩ | ⟨rfl, hmissing⟩
  · rw [if_neg service.value_nonempty]
    refine (readEndpoint_value service ⟨name, id, [], 0⟩ engine).post ?_
    rintro _ rfl
    refine ⟨fun value info hfound => ?_, fun _ _ => rfl⟩
    cases hfound
    exact ⟨service, hservice, rfl, rfl, rfl⟩
  · refine ⟨fun value info hfound => (by cases hfound), fun hfaulty hsome => ?_⟩
    rcases hmissing with hnone | hfaulty'
    · rw [hnone] at hsome
      cases hsome
    · exact absurd hfaulty' hfaulty

/-- What the loop of `getAllWithPrefix` has collected: values that are registered under listed keys. -/
def Registrations.Collected (R : Registrations) (keys : List Bytes) (m : StringMap Bytes) : Prop :=
  ∀ key value, m[key]? = some value → key ∈ keys ∧ ∃ service, R.service key = some service ∧
    value = service.value

/-- What the loop makes of `m`, when `keys` are left. -/
structure Registrations.Extends (R : Registrations) (faulty : Prop) (listed keys : List Bytes)
    (m m' : StringMap Bytes) : Prop where
  collected : R.Collected listed m'
  kept : ∀ key : Bytes, m[key]? ≠ none → m'[key]? ≠ none
  found : ¬faulty → ∀ key ∈ keys, (R.service key).isSome → m'[key]? ≠ none

theorem getValues_collected (engine : Engine) {listed : List Bytes} (keys : List Bytes)
    (hkeys : ∀ key ∈ keys, key ∈ listed) {m : StringMap Bytes} (hm : R.Collected listed m) :
    Post (readOut R faulty) (getValues keys m)
      (fun o _ => Searched engine (R.Extends faulty listed keys m) o) () := by
  induction keys generalizing m with
  | nil => exact ⟨hm, fun _ h => h, fun _ key hkey => absurd hkey List.not_mem_nil⟩
  | cons key keys ih =>
    rw [List.forall_mem_cons] at hkeys
    refine Post.bind_ends (get_value key) fun value hvalue => ?_
    rcases hvalue with ⟨service, hservice, rfl⟩ | ⟨rfl, hmissing⟩
    · rw [if_neg service.value_nonempty]
      have hinsert : R.Collected listed (m.insert key service.value) := by
        intro a v hv
        rw [getElem?_insert] at hv
        split at hv
        · rename_i hkey
          subst hkey
          cases hv
          exact ⟨hkeys.1, service, hservice, rfl⟩
        · exact hm a v hv
      refine (ih hkeys.2 hinsert).mono ?_
      rintro (x | m') ⟨⟩ ho
      · exact ho
      · obtain ⟨hcollected, hkept, hfound⟩ := ho
        have hkept' : ∀ a : Bytes, m[a]? ≠ none → m'[a]? ≠ none := by
          intro a ha
          refine hkept a ?_
          rw [getElem?_insert]
          split
          · exact Option.some_ne_none _
          · exact ha
        refine ⟨hcollected, hkept', fun hfaulty => ?_⟩
        rw [List.forall_mem_cons]
        refine ⟨fun _ => hkept key ?_, hfound hfaulty⟩
        simp
    · refine (ih hkeys.2 hm).mono ?_
      rintro (x | m') ⟨⟩ ho
      · exact ho
      · obtain ⟨hcollected, hkept, hfound⟩ := ho
        refine ⟨hcollected, hkept, fun hfaulty => ?_⟩
        rw [List.forall_mem_cons]
        refine ⟨fun hsome => ?_, hfound hfaulty⟩
        rcases hmissing with hnone | hfaulty'
        · rw [hnone] at hsome
          cases hsome
        · exact absurd hfaulty' hfaulty

theorem readServices_describes (name : Bytes) {pairs : List (Bytes × Bytes)}
    (h : ∀ pair ∈ pairs, ∃ service, R.service pair.1 = some service ∧ pair.2 = service.value) :
    Post (readOut R faulty) (readServices name engine pairs)
      (fun o _ => Searched engine (fun infos =>
        (∀ info ∈ infos, ∃ pair ∈ pairs, R.Describes name pair.1 info) ∧
        ∀ pair ∈ pairs, ∃ info ∈ infos, R.Describes name pair.1 info) o) () := by
  induction pairs with
  | nil => exact ⟨fun info hinfo => absurd hinfo List.not_mem_nil, fun pair hpair => absurd hpair List.not_mem_nil⟩
  | cons pair pairs ih =>
    obtain ⟨key, value⟩ := pair
    rw [List.forall_mem_cons] at h
    obtain ⟨⟨service, hservice, hvalue⟩, hrest⟩ := h
    dsimp only at hservice hvalue
    subst hvalue
    rintro port ⟨⟩ -
    refine (readEndpoint_value service ⟨name, (afterLastSlash key).getD [], [], port⟩ engine).post ?_
    rintro _ rfl
    refine Post.bind_ends (ih hrest) fun infos hinfos => ?_
    have hhere : R.Describes name key
        (ServiceInfo.withEndpoint service ⟨name, (afterLastSlash key).getD [], [], port⟩) :=
      ⟨rfl, rfl, service, hservice, rfl, rfl⟩
    constructor
    · rw [List.forall_mem_cons]
      refine ⟨⟨_, List.mem_cons_self, hhere⟩, fun info hinfo => ?_⟩
      obtain ⟨pair, hpair, hdescribes⟩ := hinfos.1 info hinfo
      exact ⟨pair, List.mem_cons_of_mem _ hpair, hdescribes⟩
    · rw [List.forall_mem_cons]
      refine ⟨⟨_, List.mem_cons_self, hhere⟩, fun pair hpair => ?_⟩
      obtain ⟨info, hinfo, hdescribes⟩ := hinfos.2 pair hpair
      exact ⟨info, List.mem_cons_of_mem _ hinfo, hdescribes⟩

theorem getServices_returnsAll (name : Bytes) :
    Post (readOut R faulty) (EtcdClient.getServices name engine)
      (fun o _ => Searched engine (R.ReturnsAll faulty name) o) () := by
  have hall : Post (readOut R faulty) (getAllWithPrefix (servicePrefix name))
      (fun o _ => Searched engine (fun m : StringMap Bytes =>
      R.Collected (R.listed (servicePrefix name)) m ∧
      (¬faulty → ∀ key ∈ R.listed (servicePrefix name), (R.service key).isSome → m[key]? ≠ none)) o) () := by
    have hempty (listed : List Bytes) : R.Collected listed ∅ := fun key value hvalue => (by simp at hvalue)
    rintro r ⟨⟩ (rfl | ⟨hfaulty, rfl⟩)
    · have hkeys : ((R.listed (servicePrefix name)).map fun key => (key, ([] : Bytes))).map (·.1) =
          R.listed (servicePrefix name) := by
        rw [List.map_map]
        exact List.map_id _
      dsimp only [Prog.bind, pure_eq]
      rw [hkeys]
      refine (getValues_collected engine _ (fun _ h => h) (hempty _)).mono ?_
      rintro (x | m) ⟨⟩ ho
      · exact ho
      · exact ⟨ho.collected, ho.found⟩
    · exact ⟨hempty _, fun hnot => absurd hfaulty hnot⟩
  refine Post.bind_ends hall ?_
  rintro m ⟨hcollected, hcomplete⟩
  refine (readServices_describes name fun pair hpair => (hcollected _ _ (mem_toList.1 hpair)).2).mono ?_
  rintro (x | infos) ⟨⟩ ho
  · exact ho
  · refine ⟨fun info hinfo => ?_, fun hfaulty key hkey hsome => ?_⟩
    · obtain ⟨pair, hpair, hdescribes⟩ := ho.1 info hinfo
      exact ⟨pair.1, (hcollected _ _ (mem_toList.1 hpair)).1, hdescribes⟩
    · obtain ⟨value, hvalue⟩ := Option.ne_none_iff_exists'.1 (hcomplete hfaulty key hkey hsome)
      obtain ⟨info, hinfo, hdescribes⟩ := ho.2 (key, value) (mem_toList.2 hvalue)
      exact ⟨info, hinfo, hdescribes⟩

end Readers

/-- Whatever the metadata is, all three readers get the registered endpoint out of a value, and so they do in
every run against a server that has such values registered, as far as the searches are carried out. -/
theorem endpoints_exact :
    (∀ (service : RegisteredService) (info : ServiceInfo) (engine : Engine),
      Searched engine (HasEndpoint · service) (readEndpoint info service.value engine)) ∧
    ∀ (R : Registrations) (faulty : Prop) (engine : Engine),
      (∀ name id τ o, Run (registered R faulty) ((getService name id engine).handle (sent engine)) () τ o () →
        Searched engine (R.Returns faulty name id) o) ∧
      (∀ name τ o, Run (registered R faulty)
        ((EtcdClient.getServices name engine).handle (sent engine)) () τ o () →
        Searched engine (R.ReturnsAll faulty name) o) ∧
      ∀ name id τ o, Run (registered R faulty)
        ((readRegistration name id engine).handle (sent engine)) () τ o () →
        Searched engine (R.Reads faulty name id) o := by
  refine ⟨fun service info engine => ?_, fun R faulty engine => ⟨?_, ?_, ?_⟩⟩
  · have hends := readEndpoint_value service info engine
    cases hread : readEndpoint info service.value engine with
    | error x =>
      rw [hread] at hends
      exact hends
    | ok info' =>
      rw [hread] at hends
      obtain rfl : info' = _ := hends
      exact ⟨rfl, rfl⟩
  · intro name id τ o hrun
    exact Post.run (Post.sent (getService_returns name id)) hrun
  · intro name τ o hrun
    exact Post.run (Post.sent (getServices_returnsAll name)) hrun
  · intro name id τ o hrun
    exact Post.run (Post.sent (readRegistration_reads name id)) hrun

/-! ### A server for every registration -/

/-- Two texts without quotes, each up to its closing quote. -/
private theorem quoted_inj {s t rest rest' : Bytes} (hs : 34 ∉ s) (ht : 34 ∉ t)
    (h : s ++ 34 :: rest = t ++ 34 :: rest') : s = t ∧ rest = rest' := by
  have hfound := untilQuote_append hs rest
  rw [h, untilQuote_append ht] at hfound
  obtain rfl := Option.some.inj hfound
  exact ⟨rfl, (List.cons.inj (List.append_cancel_left h)).2⟩

theorem keyBody_eq (key : Bytes) : keyBody key = bytes "\x7b\"key\":\"" ++ (encodeValue key ++ 34 :: [125]) := rfl

theorem prefixBody_eq (key rangeEnd : Bytes) :
    prefixBody key rangeEnd = bytes "\x7b\"key\":\"" ++ (encodeValue key ++
    34 :: (bytes ",\"range_end\":\"" ++ encodeValue rangeEnd ++ bytes "\",\"count_only\":false\x7d")) := rfl

theorem keyBody_inj {key key' : Bytes} (h : keyBody key = keyBody key') : key = key' := by
  rw [keyBody_eq, keyBody_eq] at h
  exact encodeValue_inj (quoted_inj (quote_notMem_encodeValue _) (quote_notMem_encodeValue _)
    (List.append_cancel_left h)).1

theorem prefixBody_inj {key key' rangeEnd rangeEnd' : Bytes}
    (h : prefixBody key rangeEnd = prefixBody key' rangeEnd') :
    key = key' := by
  rw [prefixBody_eq, prefixBody_eq] at h
  exact encodeValue_inj (quoted_inj (quote_notMem_encodeValue _) (quote_notMem_encodeValue _)
    (List.append_cancel_left h)).1

theorem keyBody_ne_prefixBody (key key' rangeEnd : Bytes) : keyBody key ≠ prefixBody key' rangeEnd := by
  intro h
  rw [keyBody_eq, prefixBody_eq] at h
  have hrest := (quoted_inj (quote_notMem_encodeValue _) (quote_notMem_encodeValue _) (List.append_cancel_left h)).2
  exact absurd (List.cons.inj hrest).1 (by decide)

/-- A response with the value. -/
def valueResponse (value : Bytes) : Bytes := bytes "\"value\":\"" ++ (fullyEscaped value ++ 34 :: bytes "\x7d")

/-- A response with the keys. -/
def keysResponse (keys : List Bytes) : Bytes :=
  keys.flatMap fun key => bytes "\"key\":\"" ++ (fullyEscaped key ++ [34])

theorem searchValue_valueResponse (value : Bytes) : searchValue (valueResponse value) = some (fullyEscaped value) :=
  searchAfter_here (by decide) (untilQuote_append (quote_notMem_fullyEscaped value) _)

theorem searchKeys_keysResponse (keys : List Bytes) : searchKeys (keysResponse keys) = keys.map fullyEscaped := by
  induction keys with
  | nil => rfl
  | cons key keys ih =>
    have hkey : untilQuote (fullyEscaped key ++ ([34] ++ keysResponse keys)) = some (fullyEscaped key) :=
      untilQuote_append (quote_notMem_fullyEscaped key) _
    have hhere := @searchAll_here (bytes "\"key\":\"") _ _ _ [34] (by decide) hkey
    have hcons : keysResponse (key :: keys) =
        bytes "\"key\":\"" ++ (fullyEscaped key ++ ([34] ++ keysResponse keys)) := by
      simp [keysResponse]
    unfold searchKeys at ih ⊢
    rw [hcons]
    exact hhere.trans (congrArg (fullyEscaped key :: ·) ih)

theorem mapM_decodeValue (keys : List Bytes) : (keys.map fullyEscaped).mapM decodeValue = .ok keys := by
  induction keys with
  | nil => rfl
  | cons key keys ih =>
    rw [List.map_cons, List.mapM_cons, decodeValue_fullyEscaped, ih]
    rfl

/-- Whatever is registered and listed, the server has an answer to every request, and need not fail. -/
theorem registered_total (R : Registrations) (faulty : Prop) (e : WireEffect) (w : Unit) :
    ∃ r w', registered R faulty e w r w' := by
  cases e with
  | indeterminate => exact ⟨0, (), trivial⟩
  | makeRequest method path body =>
    by_cases hkey : ∃ key, body = keyBody key
    · obtain ⟨key, rfl⟩ := hkey
      have hfinds : ∃ response, R.Finds key response := by
        unfold Registrations.Finds
        cases R.service key with
        | none => exact ⟨[], rfl⟩
        | some service => exact ⟨_, _, searchValue_valueResponse service.value, decodeValue_fullyEscaped _⟩
      obtain ⟨response, hfinds⟩ := hfinds
      refine ⟨some response, (), fun h => (by cases h), ?_⟩
      rintro _ ⟨⟩ -
      refine ⟨fun key' hkey' => ?_, fun keyPrefix rangeEnd h => absurd h (keyBody_ne_prefixBody _ _ _)⟩
      rw [← keyBody_inj hkey']
      exact hfinds
    · by_cases hprefix : ∃ keyPrefix rangeEnd, body = prefixBody keyPrefix rangeEnd
      · obtain ⟨keyPrefix, rangeEnd, rfl⟩ := hprefix
        refine ⟨some (keysResponse (R.listed keyPrefix)), (), fun h => (by cases h), ?_⟩
        rintro _ ⟨⟩ -
        refine ⟨fun key' hkey' => absurd ⟨key', hkey'⟩ hkey, fun keyPrefix' rangeEnd' h => ?_⟩
        rw [← prefixBody_inj h]
        unfold Registrations.Lists
        rw [searchKeys_keysResponse]
        exact mapM_decodeValue _
      · refine ⟨some [], (), fun h => (by cases h), ?_⟩
        rintro _ ⟨⟩ -
        exact ⟨fun key h => absurd ⟨key, h⟩ hkey,
          fun keyPrefix rangeEnd h => absurd ⟨keyPrefix, rangeEnd, h⟩ hprefix⟩

private theorem host_plain : (34 : UInt8) ∉ bytes "host" := by decide

private theorem port_nonneg_50052 : 0 ≤ (50052 : Int32).toInt := by decide

/-- Metadata that names another endpoint. -/
def misleadingService : RegisteredService where
  address := bytes "host"
  port := 50052
  metadata := (∅ : StringMap Bytes).insert (bytes "a\":\"\",\"address") (bytes "x\",\"port\":1,\"b\":\"")
  address_plain := host_plain
  port_nonneg := port_nonneg_50052

def misleadingKey : Bytes := serviceKey (bytes "worker") (bytes "worker-1")

def misleadingRegistrations : Registrations where
  service key := if key = misleadingKey then some misleadingService else none
  listed _ := [misleadingKey, bytes "/services/worker/worker-2"]

/-- The three readers run against a server with this registration, and all get its endpoint. -/
theorem endpoints_exact_misleading :
    (∃ τ info, Run (registered misleadingRegistrations False)
      ((getService (bytes "worker") (bytes "worker-1")).handle sent) () τ (.ok info) () ∧
      HasEndpoint info misleadingService) ∧
    (∃ τ infos, Run (registered misleadingRegistrations False)
      ((EtcdClient.getServices (bytes "worker")).handle sent) () τ (.ok infos) () ∧
      ∃ info ∈ infos, info.id = bytes "worker-1" ∧ HasEndpoint info misleadingService) ∧
    ∃ τ info, Run (registered misleadingRegistrations False)
      ((readRegistration (bytes "worker") (bytes "worker-1")).handle sent) () τ
      (.ok (some (misleadingService.value, info))) () ∧ HasEndpoint info misleadingService := by
  have hregistered : misleadingRegistrations.service (serviceKey (bytes "worker") (bytes "worker-1")) =
      some misleadingService := by
    change (if misleadingKey = misleadingKey then some misleadingService else none) = _
    exact if_pos rfl
  obtain ⟨hgetService, hgetServices, hread⟩ := endpoints_exact.2 misleadingRegistrations False tireless
  have hcarried : ¬GivesUp tireless := by
    rintro ⟨name, text, h⟩
    cases h
  have htotal := registered_total misleadingRegistrations False
  refine ⟨?_, ?_, ?_⟩
  · obtain ⟨τ, o, ⟨⟩, hrun⟩ := exists_run htotal
      ((getService (bytes "worker") (bytes "worker-1")).handle sent) ()
    have hends := hgetService _ _ _ _ hrun
    cases o with
    | error x => exact absurd hends hcarried
    | ok info =>
      rcases hends.endpoint _ hregistered with hendpoint | ⟨hfaulty, -⟩
      · exact ⟨τ, info, hrun, hendpoint⟩
      · exact hfaulty.elim
  · obtain ⟨τ, o, ⟨⟩, hrun⟩ := exists_run htotal ((EtcdClient.getServices (bytes "worker")).handle sent) ()
    have hends := hgetServices _ _ _ hrun
    cases o with
    | error x => exact absurd hends hcarried
    | ok infos =>
      obtain ⟨info, hinfo, -, hid, service, hservice, hendpoint⟩ :=
        hends.complete not_false misleadingKey List.mem_cons_self rfl
      rw [misleadingKey, hregistered] at hservice
      cases hservice
      exact ⟨τ, infos, hrun, info, hinfo, hid, hendpoint⟩
  · obtain ⟨τ, o, ⟨⟩, hrun⟩ := exists_run htotal
      ((readRegistration (bytes "worker") (bytes "worker-1")).handle sent) ()
    have hends := hread _ _ _ _ hrun
    cases o with
    | error x => exact absurd hends hcarried
    | ok found =>
      obtain ⟨⟨value, info⟩, rfl⟩ := Option.isSome_iff_exists.1 (hends.complete not_false rfl)
      obtain ⟨service, hservice, rfl, hendpoint⟩ := hends.exact value info rfl
      rw [hregistered] at hservice
      cases hservice
      exact ⟨τ, info, hrun, hendpoint⟩

end Taskflow
