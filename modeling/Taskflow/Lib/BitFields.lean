import Mathlib

/-!
# Numbers packed in bit fields

Shifting and or-ing signed 64-bit words that hold small natural numbers.  Key facts: a shift that stays below the
sign bit multiplies (`toInt_shiftLeft`), or-ing a multiple of a power of two with a smaller number adds
(`toInt_or`), a shift to the right divides (`toInt_shiftRight`), and a mask of low bits is the remainder
(`toInt_and_mask`).
-/

namespace BitFields

private theorem toNat_toBitVec {a : Int64} (ha : 0 ≤ a.toInt) : (a.toBitVec.toNat : Int) = a.toInt := by
  have h : a.toInt = a.toBitVec.toInt := rfl
  rw [h, BitVec.toInt_eq_toNat_bmod] at ha ⊢
  have hlt := a.toBitVec.isLt
  rw [Int.bmod_eq_emod] at ha ⊢
  split
  · split at ha <;> omega
  · omega

private theorem toInt_of_toNat {a : Int64} {n : Nat} (h : a.toBitVec.toNat = n) (hn : n < 2 ^ 63) :
    a.toInt = n := by
  have ha : a.toInt = a.toBitVec.toInt := rfl
  rw [ha, BitVec.toInt_eq_toNat_of_lt (by omega), h]

/-- Subtraction that stays in the range of the type. -/
theorem toInt_sub {a b : Int64} (h₁ : -2 ^ 63 ≤ a.toInt - b.toInt) (h₂ : a.toInt - b.toInt < 2 ^ 63) :
    (a - b).toInt = a.toInt - b.toInt := by
  rw [Int64.toInt_sub, Int.bmod_eq_of_le]
  · omega
  · omega

/-- Counting up to a bound. -/
theorem toInt_succ {a b : Int32} (h : a.toInt < b.toInt) : (a + 1).toInt = a.toInt + 1 := by
  have hone : (1 : Int32).toInt = 1 := rfl
  have hlow := a.le_toInt
  have hhigh := b.toInt_lt
  rw [Int32.toInt_add, hone, Int.bmod_eq_of_le]
  · omega
  · omega

theorem toInt_add {a b : Int64} (h₁ : -2 ^ 63 ≤ a.toInt + b.toInt) (h₂ : a.toInt + b.toInt < 2 ^ 63) :
    (a + b).toInt = a.toInt + b.toInt := by
  rw [Int64.toInt_add, Int.bmod_eq_of_le]
  · omega
  · omega

/-- A left shift multiplies as long as the result stays below the sign bit. -/
theorem toInt_shiftLeft {a k : Int64} {n : Nat} (hk : k.toBitVec.smod 64 = BitVec.ofNat 64 n) (hn : n < 64)
    (ha : 0 ≤ a.toInt) (h : a.toInt * 2 ^ n < 2 ^ 63) : (a <<< k).toInt = a.toInt * 2 ^ n := by
  have hnat := toNat_toBitVec ha
  have hbound : a.toBitVec.toNat * 2 ^ n < 2 ^ 63 := by
    rw [← hnat] at h
    exact_mod_cast h
  have hshift : (a <<< k).toBitVec.toNat = a.toBitVec.toNat * 2 ^ n := by
    rw [Int64.toBitVec_shiftLeft, hk, BitVec.shiftLeft_eq', BitVec.toNat_shiftLeft, BitVec.toNat_ofNat,
      Nat.mod_eq_of_lt (by omega : n < 2 ^ 64), Nat.shiftLeft_eq, Nat.mod_eq_of_lt (by omega)]
  rw [toInt_of_toNat hshift hbound, ← hnat]
  push_cast
  rfl

/-- A shift to the left leaves a multiple of a power of two, also where it overflows. -/
theorem dvd_toInt_shiftLeft {a k : Int64} {n : Nat} (hk : k.toBitVec.smod 64 = BitVec.ofNat 64 n) (hn : n < 64) :
    (2 ^ n : Int) ∣ (a <<< k).toInt := by
  have hshift : (a <<< k).toInt = (a.toInt * 2 ^ n).bmod (2 ^ 64) := by
    have ha : a.toInt = a.toBitVec.toInt := rfl
    have hs : (a <<< k).toInt = (a <<< k).toBitVec.toInt := rfl
    rw [hs, ha, Int64.toBitVec_shiftLeft, hk, BitVec.shiftLeft_eq', BitVec.toNat_ofNat,
      Nat.mod_eq_of_lt (by omega : n < 2 ^ 64), BitVec.toInt_shiftLeft, BitVec.toInt_eq_toNat_bmod,
        Nat.shiftLeft_eq]
    push_cast
    rw [Int.bmod_mul_bmod]
  have hword : (2 ^ n : Int) ∣ 2 ^ 64 := pow_dvd_pow 2 (by omega)
  rw [hshift, Int.bmod_eq_self_sub_mul_bdiv]
  exact dvd_sub (Dvd.intro_left _ rfl) (hword.mul_right _)

/-- Or-ing a multiple of a power of two with a smaller number adds them. -/
theorem toInt_or {a b : Int64} {n : Nat} (hn : n ≤ 64) (ha : (2 ^ n : Int) ∣ a.toInt) (hb : 0 ≤ b.toInt)
    (hbn : b.toInt < 2 ^ n) (h : a.toInt + b.toInt < 2 ^ 63) : (a ||| b).toInt = a.toInt + b.toInt := by
  have hbnat := toNat_toBitVec hb
  have hbval : b.toBitVec.toNat < 2 ^ n := by
    rw [← hbnat] at hbn
    exact_mod_cast hbn
  have hword : (2 ^ n : Int) ∣ 2 ^ 64 := pow_dvd_pow 2 hn
  have hdvd : 2 ^ n ∣ a.toBitVec.toNat := by
    have hanat : a.toInt = a.toBitVec.toInt := rfl
    rw [hanat, BitVec.toInt_eq_toNat_cond] at ha
    zify
    split at ha
    · exact ha
    · exact (dvd_sub_left (by exact_mod_cast hword)).1 ha
  obtain ⟨m, haval⟩ := hdvd
  have hor : (a ||| b).toBitVec.toNat = a.toBitVec.toNat + b.toBitVec.toNat := by
    rw [Int64.toBitVec_or, BitVec.toNat_or, haval, Nat.mul_comm, ← Nat.shiftLeft_eq,
      Nat.shiftLeft_add_eq_or_of_lt hbval]
  have hadd : a ||| b = a + b := by
    rw [← Int64.toBitVec_inj]
    refine BitVec.eq_of_toNat_eq ?_
    rw [Int64.toBitVec_add, BitVec.toNat_add, ← hor, Nat.mod_eq_of_lt (a ||| b).toBitVec.isLt]
  have hrange := a.le_toInt
  rw [hadd, toInt_add (by omega) h]

/-- A mask of the `n` low bits takes the remainder. -/
theorem toInt_and_mask {a mask : Int64} {n : Nat} (hn : n < 63) (hmask : mask.toInt = 2 ^ n - 1) :
    (a &&& mask).toInt = a.toInt % 2 ^ n := by
  have hpow : (1 : Int) ≤ 2 ^ n := one_le_pow₀ (by omega)
  have hmnat := toNat_toBitVec (a := mask) (by omega)
  have hmval : mask.toBitVec.toNat = 2 ^ n - 1 := by
    rw [hmask] at hmnat
    have hpos := Nat.one_le_two_pow (n := n)
    zify [hpos]
    exact hmnat
  have hand : (a &&& mask).toBitVec.toNat = a.toBitVec.toNat % 2 ^ n := by
    rw [Int64.toBitVec_and, BitVec.toNat_and, hmval, Nat.and_two_pow_sub_one_eq_mod]
  have hlt : a.toBitVec.toNat % 2 ^ n < 2 ^ 63 :=
    lt_of_lt_of_le (Nat.mod_lt _ (by positivity)) (Nat.pow_le_pow_right (by omega) (by omega))
  have hsame : (a.toBitVec.toNat : Int) % 2 ^ n = a.toInt % 2 ^ n := by
    have ha : a.toInt = a.toBitVec.toInt := rfl
    have hword : (2 ^ n : Int) ∣ (2 ^ 64 : Nat) := by exact_mod_cast pow_dvd_pow 2 (show n ≤ 64 by omega)
    rw [ha, BitVec.toInt_eq_toNat_bmod, Int.bmod_eq_self_sub_mul_bdiv, Int.sub_emod,
      Int.emod_eq_zero_of_dvd (hword.mul_right _), sub_zero, Int.emod_emod_of_dvd _ (dvd_refl _)]
  rw [toInt_of_toNat hand hlt, ← hsame]
  push_cast
  rfl

/-- A shift to the right divides. -/
theorem toInt_shiftRight {a k : Int64} {n : Nat} (hk : k.toBitVec.smod 64 = BitVec.ofNat 64 n) (hn : n < 64) :
    (a >>> k).toInt = a.toInt / 2 ^ n := by
  have ha : a.toInt = a.toBitVec.toInt := rfl
  have hs : (a >>> k).toInt = (a >>> k).toBitVec.toInt := rfl
  rw [hs, ha, Int64.toBitVec_shiftRight, hk, BitVec.toInt_sshiftRight', BitVec.toNat_ofNat,
    Nat.mod_eq_of_lt (by omega : n < 2 ^ 64), Int.shiftRight_eq_div_pow]
  push_cast
  rfl

end BitFields
