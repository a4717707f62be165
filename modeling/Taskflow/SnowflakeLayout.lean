import Taskflow.Snowflake

/-!
# The layout of the ids

Shifting and masking an id gives back the fields that `nextIdLocked` put into it (`issue_spells`).  The worker field
does so whatever the clock reads (`workerOf_issue`), so generators with different worker ids never issue the same id
(`ids_carry_fields`).
-/

namespace Taskflow

def kMaxDatacenterId : Int64 := (1 <<< kDatacenterIdBits) - 1

namespace Snowflake

/-! ### The fields of an id -/

def timestampOf (id : Int64) : Int64 := (id >>> kTimestampLeftShift) + kTwepoch
def datacenterOf (id : Int64) : Int64 := (id >>> kDatacenterIdShift) &&& kMaxDatacenterId
def workerOf (id : Int64) : Int64 := (id >>> kWorkerIdShift) &&& kMaxWorkerId
def sequenceOf (id : Int64) : Int64 := id &&& kSequenceMask

theorem timestampOf_toInt (id : Int64) : (timestampOf id).toInt = id.toInt / 2 ^ 22 + kTwepoch.toInt := by
  have hshift := BitFields.toInt_shiftRight (a := id) (k := kTimestampLeftShift) (n := 22) (by decide) (by omega)
  have hlow := id.le_toInt
  have hhigh := id.toInt_lt
  have hepoch : kTwepoch.toInt = 1609459200000 := by decide
  rw [timestampOf, BitFields.toInt_add, hshift]
  · omega
  · omega

theorem datacenterOf_toInt (id : Int64) : (datacenterOf id).toInt = id.toInt / 2 ^ 17 % 32 := by
  have hshift := BitFields.toInt_shiftRight (a := id) (k := kDatacenterIdShift) (n := 17) (by decide) (by omega)
  rw [datacenterOf, BitFields.toInt_and_mask (n := 5) (by omega) (by decide), hshift]
  rfl

theorem workerOf_toInt (id : Int64) : (workerOf id).toInt = id.toInt / 2 ^ 12 % 32 := by
  have hshift := BitFields.toInt_shiftRight (a := id) (k := kWorkerIdShift) (n := 12) (by decide) (by omega)
  rw [workerOf, BitFields.toInt_and_mask (n := 5) (by omega) (by decide), hshift]
  rfl

theorem sequenceOf_toInt (id : Int64) : (sequenceOf id).toInt = id.toInt % 4096 := by
  rw [sequenceOf, BitFields.toInt_and_mask (n := 12) (by omega) (by decide)]
  rfl

/-- The id is the number that its four fields spell, which no overflow has changed, and they can be read off it. -/
structure Spells (id timestamp datacenterId workerId sequence : Int64) : Prop where
  nonneg : 0 ≤ id.toInt
  exact : id.toInt = (timestamp.toInt - kTwepoch.toInt) * 2 ^ 22 + datacenterId.toInt * 2 ^ 17 +
    workerId.toInt * 2 ^ 12
    + sequence.toInt
  timestamp : timestampOf id = timestamp
  datacenter : datacenterOf id = datacenterId
  worker : workerOf id = workerId
  sequence : sequenceOf id = sequence

theorem issue_spells {s : Snowflake} {timestamp sequence : Int64} (ht : InEpoch timestamp)
    (h : (s.issue timestamp sequence).2.FieldsFit) :
    Spells (s.issue timestamp sequence).1 timestamp s.datacenterId s.workerId sequence := by
  have hw : 0 ≤ s.workerId.toInt ∧ s.workerId.toInt < 32 := h.worker
  have hd : 0 ≤ s.datacenterId.toInt ∧ s.datacenterId.toInt < 32 := h.datacenter
  have hs : 0 ≤ sequence.toInt ∧ sequence.toInt < 4096 := h.sequence
  obtain ⟨ht₁, ht₂⟩ := ht
  have hexact : (s.issue timestamp sequence).1.toInt = (timestamp.toInt - kTwepoch.toInt) * 2 ^ 22
      + s.datacenterId.toInt * 2 ^ 17 + s.workerId.toInt * 2 ^ 12 + sequence.toInt := by
    have hsub : (timestamp - kTwepoch).toInt = timestamp.toInt - kTwepoch.toInt :=
      BitFields.toInt_sub (by omega) (by omega)
    have hshift := BitFields.toInt_shiftLeft (a := timestamp - kTwepoch) (k := kTimestampLeftShift) (n := 22)
      (by decide) (by omega) (by omega) (by omega)
    rw [(issue_fields h).2, hshift, hsub]
  refine ⟨by omega, hexact, ?_, ?_, ?_, ?_⟩
  · rw [← Int64.toInt_inj, timestampOf_toInt]
    omega
  · rw [← Int64.toInt_inj, datacenterOf_toInt]
    omega
  · rw [← Int64.toInt_inj, workerOf_toInt]
    omega
  · rw [← Int64.toInt_inj, sequenceOf_toInt]
    omega

/-- The timestamp field lies above the worker field, also where it overflows. -/
theorem workerOf_issue {s : Snowflake} {timestamp sequence : Int64} (h : (s.issue timestamp sequence).2.FieldsFit) :
    workerOf (s.issue timestamp sequence).1 = s.workerId := by
  have hw : 0 ≤ s.workerId.toInt ∧ s.workerId.toInt < 32 := h.worker
  have hd : 0 ≤ s.datacenterId.toInt ∧ s.datacenterId.toInt < 32 := h.datacenter
  have hs : 0 ≤ sequence.toInt ∧ sequence.toInt < 4096 := h.sequence
  obtain ⟨⟨m, hm⟩, hid⟩ := issue_fields h
  rw [← Int64.toInt_inj, workerOf_toInt]
  omega

/-! ### Runs of two generators -/

/-- A generator that has been given the worker id `w`. -/
structure ServesWorker (w : Int64) (s : Snowflake) : Prop extends FieldsFit s where
  workerId : s.workerId = w

theorem init_servesWorker {s : Snowflake} {w : Int64} (h : ServesWorker w s) : ServesWorker w (s.init w).2 := by
  unfold init
  split
  · exact h
  · exact { h with worker := h.workerId ▸ h.worker, workerId := rfl }

/-- After a call the generator still has the worker id, and an id that it has returned carries it. -/
theorem call_servesWorker {s s' : Snowflake} {w : Int64} {c : SnowflakeCall} {readings rest : List Int64}
    {result : SnowflakeResult} (h : ServesWorker w s) (hc : ∀ workerId, c = .init workerId → workerId = w)
    (hcall : s.call c readings = some (result, s', rest)) :
    ServesWorker w s' ∧ ∀ id, result.id? = some id → workerOf id = w := by
  cases c with
  | init workerId =>
    obtain rfl := hc workerId rfl
    cases hcall
    refine ⟨init_servesWorker h, ?_⟩
    intro id hid
    cases hid
  | nextId =>
    simp only [call, Option.map_eq_some_iff] at hcall
    obtain ⟨⟨result, t, mid⟩, hnext, hcall⟩ := hcall
    cases hcall
    obtain ⟨-, ⟨⟨e, rfl⟩, rfl⟩ | ⟨timestamp, sequence, -, hseq, -, rfl, rfl⟩⟩ :=
      nextId_cases h.toFieldsFit hnext
    · refine ⟨h, ?_⟩
      intro id hid
      cases hid
    · have hfit : (s.issue timestamp sequence).2.FieldsFit := ⟨h.worker, h.datacenter, hseq⟩
      refine ⟨{ hfit with workerId := h.workerId }, ?_⟩
      rintro id ⟨⟩
      rw [workerOf_issue hfit]
      exact h.workerId

theorem run_servesWorker {s s' : Snowflake} {w : Int64} {calls : List SnowflakeCall} {readings rest : List Int64}
    {results : List SnowflakeResult} (h : ServesWorker w s)
    (hcalls : ∀ workerId, .init workerId ∈ calls → workerId = w)
    (hrun : s.run calls readings = some (results, s', rest)) : ∀ id ∈ ids results, workerOf id = w := by
  induction calls generalizing s readings results with
  | nil =>
    cases hrun
    intro id hid
    cases hid
  | cons c calls ih =>
    obtain ⟨result, t, mid, results', hcall, hlater, rfl⟩ := run_cons hrun
    obtain ⟨ht, hresult⟩ := call_servesWorker h (fun _ hc => hcalls _ (hc ▸ List.mem_cons_self)) hcall
    have hrest := ih ht (fun _ hc => hcalls _ (List.mem_cons_of_mem _ hc)) hlater
    intro id hid
    cases hr : result.id? with
    | none =>
      rw [ids, List.filterMap_cons_none hr] at hid
      exact hrest id hid
    | some first =>
      rw [ids, List.filterMap_cons_some hr, List.mem_cons] at hid
      rcases hid with rfl | hid
      · exact hresult id hr
      · exact hrest id hid

/-- A run from the constructor in which only this worker id is set. -/
structure InitialisedRun (w : Int64) (results : List SnowflakeResult) : Prop where
  run : ∃ calls readings s rest, ({} : Snowflake).run (.init w :: calls) readings =
    some (.init (.ok ()) :: results, s, rest) ∧ ∀ workerId, .init workerId ∈ calls → workerId = w

theorem InitialisedRun.worker {w : Int64} {results : List SnowflakeResult} (h : InitialisedRun w results) :
    ∀ id ∈ ids results, workerOf id = w := by
  obtain ⟨calls, readings, s, rest, hrun, hcalls⟩ := h
  obtain ⟨result, t, mid, results', hcall, hlater, heq⟩ := run_cons hrun
  obtain ⟨rfl, rfl⟩ := List.cons.inj heq
  refine run_servesWorker ?_ hcalls hlater
  -- the first call has taken the worker id
  simp only [call, init] at hcall
  split at hcall
  · cases hcall
  · rename_i hrange
    cases hcall
    simp only [Bool.or_eq_true, decide_eq_true_eq, not_or, Int64.not_lt, Int64.le_iff_toInt_le] at hrange
    have hmax : kMaxWorkerId.toInt = 31 := by decide
    have hzero : (0 : Int64).toInt = 0 := rfl
    refine ⟨⟨?_, valid_start.datacenter, valid_start.sequence⟩, rfl⟩
    simp only
    omega

end Snowflake

open Snowflake in
/-- An id gives back the four fields it was assembled from, and generators with different worker ids never issue the
same id, whatever their clocks read. -/
theorem ids_carry_fields :
    (∀ (s : Snowflake) (timestamp sequence : Int64), InEpoch timestamp →
      (s.issue timestamp sequence).2.FieldsFit →
      Spells (s.issue timestamp sequence).1 timestamp s.datacenterId s.workerId sequence) ∧
    ∀ (w₁ w₂ : Int64) (results₁ results₂ : List SnowflakeResult), w₁ ≠ w₂ →
    InitialisedRun w₁ results₁ →
      InitialisedRun w₂ results₂ → (ids results₁).Disjoint (ids results₂) := by
  refine ⟨fun s timestamp sequence ht h => issue_spells ht h, ?_⟩
  intro w₁ w₂ results₁ results₂ hne h₁ h₂ id hid₁ hid₂
  have hw₁ := h₁.worker id hid₁
  have hw₂ := h₂.worker id hid₂
  exact hne (hw₁.symm.trans hw₂)

/-- Two generators whose clocks read the same millisecond. -/
theorem ids_carry_fields_sameMillisecond : ∃ results₁ results₂ s₁ s₂,
    ({} : Snowflake).run [.init 1, .nextId] [1609459200001] = some (results₁, s₁, []) ∧
    ({} : Snowflake).run [.init 2, .nextId] [1609459200001] = some (results₂, s₂, []) ∧
    Snowflake.ids results₁ = [4198400] ∧ Snowflake.ids results₂ = [4202496] ∧
    (Snowflake.ids results₁).Disjoint (Snowflake.ids results₂) := by
  have hrun₁ : ({} : Snowflake).run [.init 1, .nextId] [1609459200001] =
      some ([.init (.ok ()), .nextId (.ok 4198400)],
        { workerId := 1, lastTimestamp := 1609459200001 }, []) := by rfl
  have hrun₂ : ({} : Snowflake).run [.init 2, .nextId] [1609459200001] =
      some ([.init (.ok ()), .nextId (.ok 4202496)],
        { workerId := 2, lastTimestamp := 1609459200001 }, []) := by rfl
  have hdisjoint := ids_carry_fields.2 1 2 _ _ (by decide) ⟨[.nextId], _, _, _, hrun₁, by simp⟩
    ⟨[.nextId], _, _, _, hrun₂, by simp⟩
  exact ⟨_, _, _, _, hrun₁, hrun₂, rfl, rfl, hdisjoint⟩

end Taskflow
