import Taskflow.ConsistentHashing
import Taskflow.FairSelection
import Taskflow.WorkerMain
import Taskflow.Lib.Horner

/-!
# The ring positions of the workers

The ids of the workers are `worker-` and a number of at most ten digits.  Ids of one length are told apart by their
digits, which differ by less than the factor 33 of the hash; ids of two lengths have hashes in two windows, and the
windows of the ten lengths do not meet modulo `2 ^ 64` (`windows_disjoint`).
-/

namespace Taskflow

open Text Horner

namespace LoadBalancer

/-! ### The hash of a text -/

/-- The conversion from a signed `char` keeps an ASCII character. -/
theorem toUInt64_char {c : UInt8} (hc : c.toNat < 128) : c.toInt8.toInt64.toUInt64.toNat = c.toNat := by
  have hextend : c.toInt8.toInt64.toUInt64.toBitVec = c.toBitVec.signExtend 64 := by simp
  have hmsb : c.toBitVec.msb = false := by
    rw [BitVec.msb_eq_false_iff_two_mul_lt, UInt8.toNat_toBitVec]
    omega
  show c.toInt8.toInt64.toUInt64.toBitVec.toNat = c.toNat
  rw [hextend, BitVec.toNat_signExtend, hmsb]
  simp

theorem hash_step (h : UInt64) {c : UInt8} (hc : c.toNat < 128) :
    (((h <<< 5) + h) + c.toInt8.toInt64.toUInt64).toNat = (h.toNat * 33 + c.toNat) % 2 ^ 64 := by
  have hfive : (5 : UInt64).toNat % 64 = 5 := rfl
  rw [UInt64.toNat_add, UInt64.toNat_add, UInt64.toNat_shiftLeft, toUInt64_char hc, hfive, Nat.shiftLeft_eq]
  omega

/-- On ASCII text the hash is the recurrence with factor 33. -/
theorem hash_toNat {key : Bytes} (hkey : ∀ c ∈ key, c.toNat < 128) :
    (hash key).toNat = horner 33 5381 (key.map UInt8.toNat) % 2 ^ 64 := by
  induction key using List.reverseRecOn with
  | nil => rfl
  | append_singleton key c ih =>
    have hsnoc : hash (key ++ [c]) = ((hash key <<< 5) + hash key) + c.toInt8.toInt64.toUInt64 := by
      simp [hash, List.foldl_append]
    rw [hsnoc, hash_step _ (hkey c (by simp)), ih fun d hd => hkey d (by simp [hd]), List.map_append,
      List.map_singleton, horner_snoc, Nat.add_mod, Nat.mod_mul_mod, ← Nat.add_mod]

/-! ### Windows -/

/-- The value behind `worker-`, which does not go around. -/
def prefixHash : Nat := 229488009530220

def windowLow (k : Nat) : Nat := prefixHash * 33 ^ k + 48 * ones 33 k
def windowWidth (k : Nat) : Nat := 9 * ones 33 k

theorem windows_disjoint : ∀ k < 11, windowLow k % 2 ^ 64 + windowWidth k < 2 ^ 64 ∧
    ∀ l < 11, k ≠ l → windowLow k % 2 ^ 64 + windowWidth k < windowLow l % 2 ^ 64 ∨
      windowLow l % 2 ^ 64 + windowWidth l < windowLow k % 2 ^ 64 := by
  decide +kernel

/-- The codes of the digits of a number. -/
def codes (n : Int32) : List Nat := (natDecimal n.toInt.natAbs).map UInt8.toNat

theorem codes_within (n : Int32) : Within 48 57 (codes n) := by
  intro d hd
  obtain ⟨c, hc, rfl⟩ := List.mem_map.1 hd
  exact digit_toNat (isDigit_of_mem_natDecimal hc)

theorem length_codes (n : Int32) : (codes n).length < 11 := by
  have hlow := n.le_toInt
  have hhigh := n.toInt_lt
  have hlength : (natDecimal n.toInt.natAbs).length ≤ 10 := length_natDecimal_le (by omega) (by omega)
  rw [codes, List.length_map]
  omega

theorem codes_injective {m n : Int32} (hm : 0 ≤ m.toInt) (hn : 0 ≤ n.toInt) (h : codes m = codes n) : m = n := by
  have hdigits : natDecimal m.toInt.natAbs = natDecimal n.toInt.natAbs :=
    List.map_injective_iff.2 (fun a b => UInt8.toNat_inj.1) h
  have hvalue := congrArg (digitsValue 10) hdigits
  rw [digitsValue_natDecimal, digitsValue_natDecimal] at hvalue
  exact Int32.toInt_inj.1 (by omega)

theorem hash_workerName {n : Int32} (hn : 0 ≤ n.toInt) :
    (hash (workerName n)).toNat = horner 33 prefixHash (codes n) % 2 ^ 64 := by
  have hdecimal : decimal n.toInt = natDecimal n.toInt.natAbs := by rw [decimal, if_neg (by omega)]
  have hprefix : ∀ c ∈ bytes "worker-", c.toNat < 128 := by decide +kernel
  have hascii : ∀ c ∈ workerName n, c.toNat < 128 := by
    intro c hc
    rw [workerName, hdecimal] at hc
    rcases List.mem_append.1 hc with hc | hc
    · exact hprefix c hc
    · have hdigit := digit_toNat (isDigit_of_mem_natDecimal hc)
      omega
  rw [hash_toNat hascii, workerName, hdecimal, List.map_append, horner_append, ← codes]
  rfl

theorem hash_mem_window {n : Int32} (hn : 0 ≤ n.toInt) :
    windowLow (codes n).length % 2 ^ 64 ≤ (hash (workerName n)).toNat ∧
      (hash (workerName n)).toNat ≤ windowLow (codes n).length % 2 ^ 64 + windowWidth (codes n).length := by
  obtain ⟨hlow, hhigh⟩ := horner_mem_window (b := 33) (h := prefixHash) (codes_within n)
  rw [hash_workerName hn]
  refine mod_mem_window (windows_disjoint _ (length_codes n)).1 hlow (hhigh.trans_eq ?_)
  rw [windowLow, windowWidth]
  ring

/-- Two workers are at two positions. -/
theorem hash_workerName_injective {m n : Int32} (hm : 0 ≤ m.toInt) (hn : 0 ≤ n.toInt)
    (h : hash (workerName m) = hash (workerName n)) : m = n := by
  by_cases hlen : (codes m).length = (codes n).length
  · -- one length: the digits are read off the value
    have heq := congrArg UInt64.toNat h
    rw [hash_workerName hm, hash_workerName hn] at heq
    have hwidth : (57 - 48) * ones 33 (codes m).length < 2 ^ 64 := by
      have hfit := (windows_disjoint _ (length_codes m)).1
      rw [windowWidth] at hfit
      omega
    exact codes_injective hm hn (horner_mod_inj (by omega) (codes_within m) (codes_within n) hlen hwidth heq)
  · -- two lengths: the windows do not meet
    obtain ⟨hmlow, hmhigh⟩ := hash_mem_window hm
    obtain ⟨hnlow, hnhigh⟩ := hash_mem_window hn
    rw [h] at hmlow hmhigh
    rcases (windows_disjoint _ (length_codes m)).2 _ (length_codes n) hlen with hlt | hlt
    · omega
    · omega

/-! ### The ring -/

/-- The workers have the ids that workers register with. -/
def NamesWorkers (lb : LoadBalancer) : Prop := ∀ id ∈ lb.workers, ∃ n : Int32, 0 ≤ n ∧ id = workerName n

theorem NamesWorkers.injOn {lb : LoadBalancer} (h : lb.NamesWorkers) (now : Int) :
    Set.InjOn hash (lb.availableSet now) := by
  have hname : ∀ id ∈ lb.availableSet now, ∃ n : Int32, 0 ≤ n ∧ id = workerName n := by
    rintro id ⟨node, hnode, -⟩
    exact h id (Std.ExtTreeMap.mem_iff_isSome_getElem?.2 (Option.isSome_of_eq_some hnode))
  intro a ha b hb hab
  obtain ⟨m, hm, rfl⟩ := hname a ha
  obtain ⟨n, hn, rfl⟩ := hname b hb
  rw [hash_workerName_injective (Int32.le_iff_toInt_le.1 hm) (Int32.le_iff_toInt_le.1 hn) hab]

/-- On such a ring no two positions are equal. -/
theorem NamesWorkers.circles_increasing {lb : LoadBalancer} (h : lb.NamesWorkers) (sort : StdSort) (now : Int) :
    (lb.circles sort now).Pairwise fun a b => a.1 < b.1 := by
  have hinj := h.injOn now
  have hkeys : ((lb.available now).map fun p => (hash p.1, p.1)).Pairwise fun a b => a.1 ≠ b.1 := by
    rw [List.pairwise_map]
    refine (lb.available_ordered now).imp_of_mem fun {p q} hp hq hlt heq => ?_
    have hid := hinj (mem_availableSet.2 (List.mem_map_of_mem hp)) (mem_availableSet.2 (List.mem_map_of_mem hq)) heq
    have hself : compare q.1 q.1 = .eq := Std.ReflCmp.compare_self
    rw [hid, hself] at hlt
    cases hlt
  have hdistinct : (lb.circles sort now).Pairwise fun a b => a.1 ≠ b.1 :=
    (sort.perm _ _).symm.pairwise hkeys fun hne => hne.symm
  refine ((lb.circles_sorted sort now).and hdistinct).imp ?_
  rintro a b ⟨hle, hne⟩
  have hne' : a.1.toNat ≠ b.1.toNat := fun heq => hne (UInt64.toNat_inj.1 heq)
  rw [UInt64.lt_iff_toNat_lt]
  omega

/-- Every sort gives the same ring. -/
theorem NamesWorkers.circles_eq {lb : LoadBalancer} (h : lb.NamesWorkers) (sort sort' : StdSort) (now : Int) :
    lb.circles sort now = lb.circles sort' now := by
  have hperm : (lb.circles sort now).Perm (lb.circles sort' now) := (sort.perm _ _).trans (sort'.perm _ _).symm
  refine hperm.eq_of_pairwise ?_ (h.circles_increasing sort now) (h.circles_increasing sort' now)
  intro a b _ _ hab hba
  rw [UInt64.lt_iff_toNat_lt] at hab hba
  omega

theorem NamesWorkers.consistentHashSelect_eq {lb : LoadBalancer} (h : lb.NamesWorkers) (sort sort' : StdSort)
    (taskId : Bytes) (now : Int) :
    lb.consistentHashSelect sort taskId now = lb.consistentHashSelect sort' taskId now := by
  have hring := h.circles_eq sort sort' now
  have hcircles := lb.forAvailable_fst now (fun circles workerId _ => circles ++ [(hash workerId, workerId)]) []
  rw [foldl_append fun p : Bytes × WorkerNode => (hash p.1, p.1), List.nil_append] at hcircles
  unfold consistentHashSelect
  dsimp only
  rw [hcircles]
  unfold circles at hring
  rw [hring]

end LoadBalancer

open LoadBalancer in
/-- No two workers have the same hash, so the ring is sorted in one way only. -/
theorem worker_hashes_distinct :
    (∀ m n : Int32, 0 ≤ m → 0 ≤ n → m ≠ n →
      LoadBalancer.hash (workerName m) ≠ LoadBalancer.hash (workerName n)) ∧
    ∀ lb : LoadBalancer, lb.NamesWorkers → ∀ (sort sort' : StdSort) (taskId : Bytes) (now : Int),
      (lb.circles sort now).Pairwise (fun a b => a.1 < b.1) ∧
        lb.consistentHashSelect sort taskId now = lb.consistentHashSelect sort' taskId now := by
  constructor
  · intro m n hm hn hne heq
    exact hne (hash_workerName_injective (Int32.le_iff_toInt_le.1 hm) (Int32.le_iff_toInt_le.1 hn) heq)
  · intro lb h sort sort' taskId now
    exact ⟨h.circles_increasing sort now, h.consistentHashSelect_eq sort sort' taskId now⟩

open LoadBalancer in
/-- Two workers that have joined. -/
theorem worker_hashes_distinct_two :
    LoadBalancer.hash (workerName 1) ≠ LoadBalancer.hash (workerName 2) ∧
      ((afterCalls .stable (bytes "consistent_hash") [bothJoin]).circles .stable 5).Pairwise fun a b =>
        a.1 < b.1 := by
  have hkeys : (afterCalls .stable (bytes "consistent_hash") [bothJoin]).workers.keys =
      [workerName 1, workerName 2] := by decide +kernel
  have hnames : (afterCalls .stable (bytes "consistent_hash") [bothJoin]).NamesWorkers := by
    intro id hid
    rw [← Std.ExtTreeMap.mem_keys, hkeys] at hid
    rcases List.mem_pair.1 hid with rfl | rfl
    · exact ⟨1, by decide, rfl⟩
    · exact ⟨2, by decide, rfl⟩
  exact ⟨worker_hashes_distinct.1 1 2 (by decide) (by decide) (by decide),
    (worker_hashes_distinct.2 _ hnames .stable .stable [] 5).1⟩

end Taskflow
