import Taskflow.Lib.BitFields
import Taskflow.Lib.Text

/-!
# `Snowflake`

The id generator of `src/common/snowflake.cpp`.  A call reads the system clock once, and again in
`waitNextMillis`; the readings are a list that the calls of a run consume.  Key facts: an id is the number that
its bit fields spell (`nextId_spec`), the pair of millisecond and sequence of the last id strictly increases with
every id (`Issued`), and so no id is returned twice (`ids_never_repeat`).
-/

namespace Taskflow

open Text

def kTwepoch : Int64 := 1609459200000
def kWorkerIdBits : Int64 := 5
def kDatacenterIdBits : Int64 := 5
def kSequenceBits : Int64 := 12

def kMaxWorkerId : Int64 := (1 <<< kWorkerIdBits) - 1

def kWorkerIdShift : Int64 := kSequenceBits
def kDatacenterIdShift : Int64 := kSequenceBits + kWorkerIdBits
def kTimestampLeftShift : Int64 := kSequenceBits + kWorkerIdBits + kDatacenterIdBits
def kSequenceMask : Int64 := (1 <<< kSequenceBits) - 1

/-- The members, as the constructor leaves them. -/
structure Snowflake where
  workerId : Int64 := 0
  datacenterId : Int64 := 0
  sequence : Int64 := 0
  lastTimestamp : Int64 := -1
  deriving DecidableEq

/-- An exception and its text. -/
structure Thrown where
  exception : StdException
  what : Bytes
  deriving DecidableEq

namespace Snowflake

def init (s : Snowflake) (workerId : Int64) : Except Thrown Unit × Snowflake :=
  if workerId < 0 || workerId > kMaxWorkerId then
    (.error ⟨.invalidArgument, bytes "Worker ID must be between 0 and " ++ decimal kMaxWorkerId.toInt⟩, s)
  else
    (.ok (), { s with workerId := workerId })

/-- The loop of `waitNextMillis`, with the clock readings still to come; `none` while it has not ended. -/
def waitNextMillis (s : Snowflake) (timestamp : Int64) : List Int64 → Option (Int64 × List Int64)
  | [] => if timestamp ≤ s.lastTimestamp then none else some (timestamp, [])
  | now :: rest => if timestamp ≤ s.lastTimestamp then s.waitNextMillis now rest else some (timestamp, now :: rest)

/-- The end of `nextIdLocked`, where the timestamp and the sequence of the new id are known. -/
def issue (s : Snowflake) (timestamp sequence : Int64) : Int64 × Snowflake :=
  let s := { s with sequence := sequence, lastTimestamp := timestamp }
  (((timestamp - kTwepoch) <<< kTimestampLeftShift)
    ||| (s.datacenterId <<< kDatacenterIdShift)
    ||| (s.workerId <<< kWorkerIdShift)
    ||| s.sequence, s)

/-- `nextId` on the clock readings to come: what the call returns or throws, the generator after it and the
readings it has not used; `none` when the call has not returned after all of them. -/
def nextId (s : Snowflake) : List Int64 → Option (Except Thrown Int64 × Snowflake × List Int64)
  | [] => none
  | timestamp :: readings =>
    if timestamp < s.lastTimestamp then
      some (.error ⟨.runtimeError, bytes "Clock moved backwards"⟩, s, readings)
    else if s.lastTimestamp = timestamp then
      let sequence := (s.sequence + 1) &&& kSequenceMask
      if sequence = 0 then
        (s.waitNextMillis timestamp readings).map fun (timestamp, rest) =>
          let (id, s) := s.issue timestamp sequence
          (.ok id, s, rest)
      else
        let (id, s) := s.issue timestamp sequence
        some (.ok id, s, readings)
    else
      let (id, s) := s.issue timestamp 0
      some (.ok id, s, readings)

end Snowflake

/-- A call of the generator, -/
inductive SnowflakeCall where
  | init (workerId : Int64)
  | nextId

/-- and how it ended. -/
inductive SnowflakeResult where
  | init (result : Except Thrown Unit)
  | nextId (result : Except Thrown Int64)

def SnowflakeResult.id? : SnowflakeResult → Option Int64
  | .nextId (.ok id) => some id
  | _ => none

/-- The result of an `init` that took its worker id. -/
def SnowflakeResult.isInit : SnowflakeResult → Bool
  | .init (.ok _) => true
  | _ => false

namespace Snowflake

def call (s : Snowflake) : SnowflakeCall → List Int64 → Option (SnowflakeResult × Snowflake × List Int64)
  | .init workerId, readings =>
    let (result, s) := s.init workerId
    some (.init result, s, readings)
  | .nextId, readings => (s.nextId readings).map fun (result, s, rest) => (.nextId result, s, rest)

/-- A run of calls that have all returned. -/
def run (s : Snowflake) : List SnowflakeCall → List Int64 → Option (List SnowflakeResult × Snowflake × List Int64)
  | [], readings => some ([], s, readings)
  | c :: calls, readings => do
    let (result, s, readings) ← s.call c readings
    let (results, s, rest) ← run s calls readings
    some (result :: results, s, rest)

/-- The ids that a run has returned, in call order. -/
def ids (results : List SnowflakeResult) : List Int64 := results.filterMap SnowflakeResult.id?

/-- Clock readings whose distance from the epoch fits the timestamp field. -/
def InEpoch (timestamp : Int64) : Prop :=
  kTwepoch.toInt ≤ timestamp.toInt ∧ timestamp.toInt < kTwepoch.toInt + 2 ^ 41

example : (({} : Snowflake).nextId [1609459200001]).map (·.1) = some (.ok 4194304) := by decide

/-! ### The number of an id -/

/-- The generator's fields are in the ranges that its bit layout gives them. -/
structure Valid (s : Snowflake) : Prop where
  worker : 0 ≤ s.workerId.toInt ∧ s.workerId.toInt < 32
  datacenter : 0 ≤ s.datacenterId.toInt ∧ s.datacenterId.toInt < 32
  sequence : 0 ≤ s.sequence.toInt ∧ s.sequence.toInt < 4096
  timestamp : s.lastTimestamp = -1 ∨ InEpoch s.lastTimestamp

/-- Milliseconds and sequence as one number: how many ids could have been issued before. -/
def position (s : Snowflake) : Int := (s.lastTimestamp.toInt - kTwepoch.toInt) * 4096 + s.sequence.toInt

/-- The number that the bit fields of the state spell. -/
def spelled (s : Snowflake) : Int :=
  (s.lastTimestamp.toInt - kTwepoch.toInt) * 2 ^ 22 + s.datacenterId.toInt * 2 ^ 17 + s.workerId.toInt * 2 ^ 12
    + s.sequence.toInt

/-- The position that can be read off an id. -/
def positionOf (id : Int64) : Int := id.toInt / 2 ^ 22 * 4096 + id.toInt % 4096

theorem valid_start : Valid {} := by
  refine ⟨by decide, by decide, by decide, Or.inl rfl⟩

theorem positionOf_eq {id : Int64} {s : Snowflake} (h : Valid s) (hid : id.toInt = s.spelled) :
    positionOf id = s.position := by
  have hw := h.worker
  have hd := h.datacenter
  have hs := h.sequence
  unfold positionOf position
  rw [hid]
  unfold spelled
  have hdiv : ((s.lastTimestamp.toInt - kTwepoch.toInt) * 2 ^ 22 + s.datacenterId.toInt * 2 ^ 17
      + s.workerId.toInt * 2 ^ 12 + s.sequence.toInt) / 2 ^ 22 = s.lastTimestamp.toInt - kTwepoch.toInt := by
    omega
  have hmod : ((s.lastTimestamp.toInt - kTwepoch.toInt) * 2 ^ 22 + s.datacenterId.toInt * 2 ^ 17
      + s.workerId.toInt * 2 ^ 12 + s.sequence.toInt) % 4096 = s.sequence.toInt := by
    omega
  rw [hdiv, hmod]

/-- With equal worker and datacenter the position decides the order. -/
theorem spelled_lt {s t : Snowflake} (hs : Valid s) (ht : Valid t) (hw : t.workerId = s.workerId)
    (hd : t.datacenterId = s.datacenterId) (h : s.position < t.position) : s.spelled < t.spelled := by
  have h₁ := hs.sequence
  have h₂ := ht.sequence
  unfold position at h
  unfold spelled
  rw [hw, hd]
  omega

/-- The fields below the timestamp are in the ranges that the bit layout gives them. -/
structure FieldsFit (s : Snowflake) : Prop where
  worker : 0 ≤ s.workerId.toInt ∧ s.workerId.toInt < 32
  datacenter : 0 ≤ s.datacenterId.toInt ∧ s.datacenterId.toInt < 32
  sequence : 0 ≤ s.sequence.toInt ∧ s.sequence.toInt < 4096

theorem Valid.fieldsFit {s : Snowflake} (h : Valid s) : FieldsFit s := ⟨h.worker, h.datacenter, h.sequence⟩

/-- The fields do not overlap, so or-ing them adds, also where the timestamp overflows its field. -/
theorem issue_fields {s : Snowflake} {timestamp sequence : Int64} (h : (s.issue timestamp sequence).2.FieldsFit) :
    (2 ^ 22 : Int) ∣ ((timestamp - kTwepoch) <<< kTimestampLeftShift).toInt ∧
      (s.issue timestamp sequence).1.toInt = ((timestamp - kTwepoch) <<< kTimestampLeftShift).toInt
        + s.datacenterId.toInt * 2 ^ 17 + s.workerId.toInt * 2 ^ 12 + sequence.toInt := by
  have hw : 0 ≤ s.workerId.toInt ∧ s.workerId.toInt < 32 := h.worker
  have hd : 0 ≤ s.datacenterId.toInt ∧ s.datacenterId.toInt < 32 := h.datacenter
  have hs : 0 ≤ sequence.toInt ∧ sequence.toInt < 4096 := h.sequence
  have hdvd := BitFields.dvd_toInt_shiftLeft (a := timestamp - kTwepoch) (k := kTimestampLeftShift) (n := 22)
    (by decide) (by omega)
  have hmax := ((timestamp - kTwepoch) <<< kTimestampLeftShift).toInt_lt
  have hshift₂ := BitFields.toInt_shiftLeft (a := s.datacenterId) (k := kDatacenterIdShift) (n := 17)
    (by decide) (by omega) (by omega) (by omega)
  have hshift₃ := BitFields.toInt_shiftLeft (a := s.workerId) (k := kWorkerIdShift) (n := 12)
    (by decide) (by omega) (by omega) (by omega)
  -- each field lies below the lowest bit of those or-ed before it
  have hor₁ := BitFields.toInt_or (b := s.datacenterId <<< kDatacenterIdShift) (by omega) hdvd (by omega) (by omega)
    (by omega)
  have hor₂ := BitFields.toInt_or (n := 17) (by omega) (by rw [hor₁]; omega) (b := s.workerId <<< kWorkerIdShift)
    (by omega) (by omega) (by omega)
  have hor₃ := BitFields.toInt_or (n := 12) (by omega) (by rw [hor₂]; omega) (b := sequence) hs.1 (by omega)
    (by omega)
  rw [hor₂, hor₁, hshift₂, hshift₃] at hor₃
  exact ⟨hdvd, hor₃⟩

theorem issue_toInt {s : Snowflake} {timestamp sequence : Int64} (h : Valid s) (ht : InEpoch timestamp)
    (hs : 0 ≤ sequence.toInt ∧ sequence.toInt < 4096) :
    (s.issue timestamp sequence).1.toInt = (s.issue timestamp sequence).2.spelled := by
  obtain ⟨ht₁, ht₂⟩ := ht
  have hsub : (timestamp - kTwepoch).toInt = timestamp.toInt - kTwepoch.toInt :=
    BitFields.toInt_sub (by omega) (by omega)
  have hshift := BitFields.toInt_shiftLeft (a := timestamp - kTwepoch) (k := kTimestampLeftShift) (n := 22)
    (by decide) (by omega) (by omega) (by omega)
  have hfit : (s.issue timestamp sequence).2.FieldsFit := ⟨h.worker, h.datacenter, hs⟩
  rw [(issue_fields hfit).2, hshift, hsub]
  rfl

/-! ### One call -/

theorem waitNextMillis_spec {s : Snowflake} {timestamp now : Int64} {readings rest : List Int64}
    (h : s.waitNextMillis timestamp readings = some (now, rest)) :
    s.lastTimestamp < now ∧ (now = timestamp ∨ now ∈ readings) ∧ rest ⊆ readings := by
  induction readings generalizing timestamp with
  | nil =>
    unfold waitNextMillis at h
    split at h
    · cases h
    · cases h
      exact ⟨Int64.not_le.1 ‹_›, Or.inl rfl, by simp⟩
  | cons reading readings ih =>
    unfold waitNextMillis at h
    split at h
    · obtain ⟨hlt, hmem, hrest⟩ := ih h
      refine ⟨hlt, Or.inr ?_, ?_⟩
      · rw [List.mem_cons]
        exact hmem
      · exact List.subset_cons_of_subset _ hrest
    · cases h
      exact ⟨Int64.not_le.1 ‹_›, Or.inl rfl, List.Subset.refl _⟩

/-- What a call that returns an id does: the id spells the new state, which is further than the old one. -/
structure Issued (s s' : Snowflake) (id : Int64) : Prop where
  valid : Valid s'
  worker : s'.workerId = s.workerId
  datacenter : s'.datacenterId = s.datacenterId
  further : s.position < s'.position
  spelled : id.toInt = s'.spelled

private theorem issued_of_lt {s : Snowflake} {timestamp sequence : Int64} (h : Valid s) (ht : InEpoch timestamp)
    (hs : 0 ≤ sequence.toInt ∧ sequence.toInt < 4096)
    (hlt : s.lastTimestamp.toInt < timestamp.toInt ∨
      s.lastTimestamp = timestamp ∧ s.sequence.toInt < sequence.toInt) :
    Issued s (s.issue timestamp sequence).2 (s.issue timestamp sequence).1 := by
  refine ⟨⟨h.worker, h.datacenter, hs, Or.inr ht⟩, rfl, rfl, ?_, issue_toInt h ht hs⟩
  have hseq := h.sequence
  have hpos : (s.issue timestamp sequence).2.position =
    (timestamp.toInt - kTwepoch.toInt) * 4096 + sequence.toInt := rfl
  rw [hpos]
  unfold position
  rcases hlt with hlt | ⟨heq, hlt⟩
  · omega
  · rw [heq]
    omega

theorem next_sequence {s : Snowflake} (h : FieldsFit s) :
    ((s.sequence + 1) &&& kSequenceMask).toInt = (s.sequence.toInt + 1) % 4096 := by
  have hseq := h.sequence
  have hone : (1 : Int64).toInt = 1 := rfl
  have hadd : (s.sequence + 1).toInt = s.sequence.toInt + 1 := by
    rw [BitFields.toInt_add, hone]
    · omega
    · omega
  rw [BitFields.toInt_and_mask (n := 12) (by omega) (by decide), hadd]
  rfl

/-- A call either throws and changes nothing, or issues an id at a reading and a sequence that come after the last
ones, whatever the clock reads. -/
theorem nextId_cases {s s' : Snowflake} {readings rest : List Int64} {result : Except Thrown Int64}
    (h : FieldsFit s) (hrun : s.nextId readings = some (result, s', rest)) :
    rest ⊆ readings ∧ ((∃ e, result = .error e) ∧ s' = s ∨ ∃ timestamp sequence : Int64,
      timestamp ∈ readings ∧
      (0 ≤ sequence.toInt ∧ sequence.toInt < 4096) ∧
      (s.lastTimestamp.toInt < timestamp.toInt ∨
        s.lastTimestamp = timestamp ∧ s.sequence.toInt < sequence.toInt) ∧
      result = .ok (s.issue timestamp sequence).1 ∧ s' = (s.issue timestamp sequence).2) := by
  cases readings with
  | nil => cases hrun
  | cons timestamp readings =>
    have hzero : (0 : Int64).toInt = 0 := rfl
    simp only [nextId] at hrun
    split at hrun
    · cases hrun
      exact ⟨List.subset_cons_self _ _, Or.inl ⟨⟨_, rfl⟩, rfl⟩⟩
    · rename_i hge
      rw [Int64.not_lt, Int64.le_iff_toInt_le] at hge
      have hseq := h.sequence
      have hnext := next_sequence h
      split at hrun
      · rename_i heq
        split at hrun
        · -- the sequence has wrapped: a later millisecond is waited for
          rename_i hwrap
          rw [Option.map_eq_some_iff] at hrun
          obtain ⟨⟨now, rest'⟩, hwait, hrun⟩ := hrun
          cases hrun
          obtain ⟨hlt, hmem, hsub⟩ := waitNextMillis_spec hwait
          rw [Int64.lt_iff_toInt_lt] at hlt
          exact ⟨List.subset_cons_of_subset _ hsub,
            Or.inr ⟨now, _, List.mem_cons.2 hmem, by omega, Or.inl hlt, rfl, rfl⟩⟩
        · rename_i hwrap
          cases hrun
          rw [← Int64.toInt_inj, hnext, hzero] at hwrap
          exact ⟨List.subset_cons_self _ _,
            Or.inr ⟨timestamp, _, List.mem_cons_self, by omega, Or.inr ⟨heq, by omega⟩, rfl, rfl⟩⟩
      · rename_i hne
        cases hrun
        rw [← Int64.toInt_inj] at hne
        exact ⟨List.subset_cons_self _ _,
          Or.inr ⟨timestamp, 0, List.mem_cons_self, by omega, Or.inl (by omega), rfl, rfl⟩⟩

theorem nextId_spec {s s' : Snowflake} {readings rest : List Int64} {result : Except Thrown Int64} (h : Valid s)
    (hclock : ∀ t ∈ readings, InEpoch t) (hrun : s.nextId readings = some (result, s', rest)) :
    rest ⊆ readings ∧
      ((∃ e, result = .error e) ∧ s' = s ∨ ∃ id, result = .ok id ∧ Issued s s' id) := by
  obtain ⟨hsub, hcases⟩ := nextId_cases h.fieldsFit hrun
  refine ⟨hsub, hcases.imp_right ?_⟩
  rintro ⟨timestamp, sequence, hmem, hseq, hlt, rfl, rfl⟩
  exact ⟨_, rfl, issued_of_lt h (hclock timestamp hmem) hseq hlt⟩

/-- A call that throws leaves the generator as it was, whatever its state. -/
theorem nextId_throw {s s' : Snowflake} {readings rest : List Int64} {e : Thrown}
    (hrun : s.nextId readings = some (.error e, s', rest)) : s' = s := by
  cases readings with
  | nil => cases hrun
  | cons timestamp readings =>
    simp only [nextId] at hrun
    split at hrun
    · cases hrun
      rfl
    · split at hrun
      · split at hrun
        · rw [Option.map_eq_some_iff] at hrun
          obtain ⟨_, _, hrun⟩ := hrun
          cases hrun
        · cases hrun
      · cases hrun

theorem init_spec {s : Snowflake} (h : Valid s) (workerId : Int64) :
    Valid (s.init workerId).2 ∧ (s.init workerId).2.position = s.position ∧
      ((SnowflakeResult.init (s.init workerId).1).isInit = false → (s.init workerId).2 = s) := by
  unfold init
  split
  · exact ⟨h, rfl, fun _ => rfl⟩
  · rename_i hrange
    simp only [Bool.or_eq_true, decide_eq_true_eq, not_or, Int64.not_lt, Int64.le_iff_toInt_le] at hrange
    have hmax : kMaxWorkerId.toInt = 31 := by decide
    have hzero : (0 : Int64).toInt = 0 := rfl
    refine ⟨⟨?_, h.datacenter, h.sequence, h.timestamp⟩, rfl, fun hinit => ?_⟩
    · simp only
      omega
    · cases hinit

/-! ### Runs -/

theorem run_cons {s s' : Snowflake} {c : SnowflakeCall} {calls : List SnowflakeCall} {readings rest : List Int64}
    {results : List SnowflakeResult} (h : s.run (c :: calls) readings = some (results, s', rest)) :
    ∃ result t mid results', s.call c readings = some (result, t, mid) ∧
      t.run calls mid = some (results', s', rest) ∧ results = result :: results' := by
  simp only [run, Option.bind_eq_bind, Option.bind_eq_some_iff] at h
  obtain ⟨⟨result, t, mid⟩, hcall, ⟨results', s'', rest'⟩, hrun, h⟩ := h
  cases h
  exact ⟨result, t, mid, results', hcall, hrun, rfl⟩

/-- One call issues an id, or keeps the position; only a successful `init` changes the state without an id. -/
theorem call_spec {s s' : Snowflake} {c : SnowflakeCall} {readings rest : List Int64} {result : SnowflakeResult}
    (h : Valid s) (hclock : ∀ t ∈ readings, InEpoch t) (hcall : s.call c readings = some (result, s', rest)) :
    Valid s' ∧ rest ⊆ readings ∧
      ((∃ id, result.id? = some id ∧ Issued s s' id) ∨
        result.id? = none ∧ s'.position = s.position ∧ (result.isInit = false → s' = s)) := by
  cases c with
  | init workerId =>
    obtain ⟨hvalid, hpos, hsame⟩ := init_spec h workerId
    cases hcall
    exact ⟨hvalid, List.Subset.refl _, Or.inr ⟨rfl, hpos, hsame⟩⟩
  | nextId =>
    simp only [call, Option.map_eq_some_iff] at hcall
    obtain ⟨⟨result, t, mid⟩, hnext, hcall⟩ := hcall
    cases hcall
    obtain ⟨hsub, hspec⟩ := nextId_spec h hclock hnext
    rcases hspec with ⟨⟨e, rfl⟩, rfl⟩ | ⟨id, rfl, hissued⟩
    · exact ⟨h, hsub, Or.inr ⟨rfl, rfl, fun _ => rfl⟩⟩
    · exact ⟨hissued.valid, hsub, Or.inl ⟨id, rfl, hissued⟩⟩

theorem run_valid {s s' : Snowflake} {calls : List SnowflakeCall} {readings rest : List Int64}
    {results : List SnowflakeResult} (h : Valid s) (hclock : ∀ t ∈ readings, InEpoch t)
    (hrun : s.run calls readings = some (results, s', rest)) : Valid s' ∧ ∀ t ∈ rest, InEpoch t := by
  induction calls generalizing s readings results with
  | nil =>
    cases hrun
    exact ⟨h, hclock⟩
  | cons c calls ih =>
    obtain ⟨result, t, mid, results', hcall, hlater, rfl⟩ := run_cons hrun
    obtain ⟨hvalid, hsub, -⟩ := call_spec h hclock hcall
    exact ih hvalid (fun t ht => hclock t (hsub ht)) hlater

/-- A run whose results are split was two runs. -/
theorem run_split {s s' : Snowflake} {calls : List SnowflakeCall} {readings rest : List Int64}
    {a b : List SnowflakeResult} (hrun : s.run calls readings = some (a ++ b, s', rest)) :
    ∃ calls₁ calls₂ t mid, s.run calls₁ readings = some (a, t, mid) ∧
      t.run calls₂ mid = some (b, s', rest) := by
  induction a generalizing s calls readings with
  | nil => exact ⟨[], calls, s, readings, rfl, hrun⟩
  | cons x a ih =>
    cases calls with
    | nil => cases hrun
    | cons c calls =>
      obtain ⟨result, t, mid, results', hcall, hrun, heq⟩ := run_cons hrun
      rw [List.cons_append, List.cons.injEq] at heq
      obtain ⟨rfl, rfl⟩ := heq
      obtain ⟨calls₁, calls₂, u, last, h₁, h₂⟩ := ih hrun
      refine ⟨c :: calls₁, calls₂, u, last, ?_, h₂⟩
      simp [run, hcall, h₁]

/-- A measure that every issued id raises, and that the other calls of the run keep, increases along the ids. -/
theorem run_increasing {m : Snowflake → Int} {f : Int64 → Int}
    (hissue : ∀ s s' id, Valid s → Issued s s' id → m s < m s' ∧ f id = m s')
    {s s' : Snowflake} {calls : List SnowflakeCall} {readings rest : List Int64} {results : List SnowflakeResult}
    (hkeep : ∀ s s' : Snowflake, ∀ result ∈ results, s'.position = s.position →
      (result.isInit = false → s' = s) → m s' = m s)
    (h : Valid s) (hclock : ∀ t ∈ readings, InEpoch t) (hrun : s.run calls readings = some (results, s', rest)) :
    (m s :: (ids results).map f).Pairwise (· < ·) := by
  induction calls generalizing s readings results with
  | nil =>
    cases hrun
    simp [ids]
  | cons c calls ih =>
    obtain ⟨result, t, mid, results', hcall, hlater, rfl⟩ := run_cons hrun
    obtain ⟨hvalid, hsub, hspec⟩ := call_spec h hclock hcall
    have htail := ih (fun s s' r hr => hkeep s s' r (List.mem_cons_of_mem _ hr)) hvalid
      (fun t ht => hclock t (hsub ht)) hlater
    rcases hspec with ⟨id, hid, hissued⟩ | ⟨hnone, hpos, hsame⟩
    · obtain ⟨hlt, hf⟩ := hissue s t id h hissued
      have hids : (ids (result :: results')).map f = m t :: (ids results').map f := by
        simp [ids, List.filterMap_cons_some hid, hf]
      rw [hids, List.pairwise_cons]
      refine ⟨?_, htail⟩
      intro x hx
      rw [List.mem_cons] at hx
      rcases hx with rfl | hx
      · exact hlt
      · have hx' := List.rel_of_pairwise_cons htail hx
        omega
    · have hids : ids (result :: results') = ids results' := List.filterMap_cons_none hnone
      rw [hids, ← hkeep s t result List.mem_cons_self hpos hsame]
      exact htail

/-- Without a successful `init` the ids of a run increase. -/
theorem run_ids_increasing {s s' : Snowflake} {calls : List SnowflakeCall} {readings rest : List Int64}
    {results : List SnowflakeResult} (h : Valid s) (hclock : ∀ t ∈ readings, InEpoch t)
    (hrun : s.run calls readings = some (results, s', rest)) (hinit : ∀ r ∈ results, r.isInit = false) :
    (ids results).Pairwise (· < ·) := by
  have hissue : ∀ s s' id, Valid s → Issued s s' id → spelled s < spelled s' ∧ id.toInt = spelled s' :=
    fun s s' id hs hi => ⟨spelled_lt hs hi.valid hi.worker hi.datacenter hi.further, hi.spelled⟩
  have hincr := run_increasing hissue
    (fun s s' r hr _ hsame => by rw [hsame (hinit r hr)]) h hclock hrun
  rw [List.pairwise_cons, List.pairwise_map] at hincr
  exact hincr.2.imp fun hlt => Int64.lt_iff_toInt_lt.2 hlt

/-- Whatever the worker ids were, the positions of the ids increase, so no id comes twice. -/
theorem run_ids_nodup {s s' : Snowflake} {calls : List SnowflakeCall} {readings rest : List Int64}
    {results : List SnowflakeResult} (h : Valid s) (hclock : ∀ t ∈ readings, InEpoch t)
    (hrun : s.run calls readings = some (results, s', rest)) : (ids results).Nodup := by
  have hissue : ∀ s s' id, Valid s → Issued s s' id → position s < position s' ∧ positionOf id = position s' :=
    fun s s' id _ hi => ⟨hi.further, positionOf_eq hi.valid hi.spelled⟩
  have hincr := run_increasing hissue (fun _ _ _ _ hpos _ => hpos) h hclock hrun
  rw [List.pairwise_cons, List.pairwise_map] at hincr
  exact hincr.2.imp fun hlt heq => by
    rw [heq] at hlt
    omega

end Snowflake

open Snowflake in
/-- In every run from the constructor whose clock readings fit the timestamp field, all ids are distinct; between
two `init` calls they increase, and a call that throws has changed nothing. -/
theorem ids_never_repeat {s : Snowflake} {calls : List SnowflakeCall} {readings rest : List Int64}
    {results : List SnowflakeResult} (hclock : ∀ t ∈ readings, InEpoch t)
    (hrun : ({} : Snowflake).run calls readings = some (results, s, rest)) :
    (ids results).Nodup ∧
      (∀ before between after, results = before ++ between ++ after → (∀ r ∈ between, r.isInit = false) →
        (ids between).Pairwise (· < ·)) ∧
      ∀ (before : Snowflake) (now later : List Int64) (e : Thrown) (after : Snowflake),
        before.nextId now = some (.error e, after, later) → after = before := by
  refine ⟨run_ids_nodup valid_start hclock hrun, ?_, fun _ _ _ _ _ hthrow => nextId_throw hthrow⟩
  intro before between after heq hinit
  rw [heq] at hrun
  obtain ⟨_, _, _, _, hfirst, -⟩ := run_split hrun
  obtain ⟨_, _, t, mid, hbefore, hbetween⟩ := run_split hfirst
  obtain ⟨hvalid, hclock'⟩ := run_valid valid_start hclock hbefore
  exact run_ids_increasing hvalid hclock' hbetween hinit

/-- A worker id change and a clock that steps back between ids of one millisecond. -/
theorem ids_never_repeat_across_init :
    ∃ (calls : List SnowflakeCall) (readings : List Int64) (results : List SnowflakeResult) (s : Snowflake),
      calls = [.init 1, .nextId, .nextId, .init 2, .nextId, .nextId] ∧
      readings = [1609459200005, 1609459200005, 1609459200004, 1609459200005] ∧
      ({} : Snowflake).run calls readings = some (results, s, []) ∧
      results = [.init (.ok ()), .nextId (.ok 20975616), .nextId (.ok 20975617), .init (.ok ()),
        .nextId (.error ⟨.runtimeError, bytes "Clock moved backwards"⟩), .nextId (.ok 20979714)] ∧
      (Snowflake.ids results).Nodup ∧
      ∀ before between after, results = before ++ between ++ after → (∀ r ∈ between, r.isInit = false) →
        (Snowflake.ids between).Pairwise (· < ·) := by
  have hrun : ({} : Snowflake).run [.init 1, .nextId, .nextId, .init 2, .nextId, .nextId]
      [1609459200005, 1609459200005, 1609459200004, 1609459200005] =
      some ([.init (.ok ()), .nextId (.ok 20975616), .nextId (.ok 20975617), .init (.ok ()),
        .nextId (.error ⟨.runtimeError, bytes "Clock moved backwards"⟩), .nextId (.ok 20979714)],
        { workerId := 2, sequence := 2, lastTimestamp := 1609459200005 }, []) := by rfl
  have hclock : ∀ t ∈ [1609459200005, 1609459200005, 1609459200004, 1609459200005], Snowflake.InEpoch t := by
    intro t ht
    simp only [List.mem_cons, List.not_mem_nil, or_false] at ht
    rcases ht with rfl | rfl | rfl | rfl
    · constructor <;> decide
    · constructor <;> decide
    · constructor <;> decide
    · constructor <;> decide
  obtain ⟨hnodup, hincreasing, -⟩ := ids_never_repeat hclock hrun
  exact ⟨_, _, _, _, rfl, rfl, hrun, rfl, hnodup, hincreasing⟩

end Taskflow
