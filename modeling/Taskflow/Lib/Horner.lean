import Mathlib

/-!
# The recurrence of multiplicative hashes

`horner b h ds` is what the loop `h = h * b + d` over the digits `ds` leaves of `h`.  The digits need not be smaller
than the base.  Key facts: digits that differ by less than the base are determined by the value (`horner_inj`), also
modulo a number that the values of one length do not go around (`horner_mod_inj`), and digits between `lo` and `hi`
keep the value in a window that depends on their number alone (`horner_mem_window`).
-/

namespace Horner

def horner (b h : Nat) (ds : List Nat) : Nat := ds.foldl (fun h d => h * b + d) h

/-- The value of `k` ones. -/
def ones (b : Nat) : Nat → Nat
  | 0 => 0
  | k + 1 => ones b k * b + 1

variable {b h lo hi N : Nat} {ds es : List Nat}

theorem horner_snoc (b h : Nat) (ds : List Nat) (d : Nat) : horner b h (ds ++ [d]) = horner b h ds * b + d := by
  simp [horner, List.foldl_append]

theorem horner_append (b h : Nat) (ds es : List Nat) : horner b h (ds ++ es) = horner b (horner b h ds) es := by
  simp [horner, List.foldl_append]

theorem horner_start (b h : Nat) (ds : List Nat) : horner b h ds = h * b ^ ds.length + horner b 0 ds := by
  induction ds using List.reverseRecOn with
  | nil => simp [horner]
  | append_singleton ds d ih =>
    rw [horner_snoc, horner_snoc, ih, List.length_append, List.length_singleton, pow_succ]
    ring

/-- Digits between `lo` and `hi`. -/
def Within (lo hi : Nat) (ds : List Nat) : Prop := ∀ d ∈ ds, lo ≤ d ∧ d ≤ hi

theorem horner_bounds (hds : Within lo hi ds) :
    lo * ones b ds.length ≤ horner b 0 ds ∧ horner b 0 ds ≤ hi * ones b ds.length := by
  induction ds using List.reverseRecOn with
  | nil => simp [horner, ones]
  | append_singleton ds d ih =>
    obtain ⟨hlow, hhigh⟩ := ih fun e he => hds e (List.mem_append_left _ he)
    obtain ⟨hlo, hhi⟩ := hds d (List.mem_append_right _ (List.mem_singleton_self d))
    rw [horner_snoc, List.length_append, List.length_singleton, ones]
    constructor
    · calc lo * (ones b ds.length * b + 1) = lo * ones b ds.length * b + lo := by ring
        _ ≤ horner b 0 ds * b + d := Nat.add_le_add (Nat.mul_le_mul_right b hlow) hlo
    · calc horner b 0 ds * b + d ≤ hi * ones b ds.length * b + hi :=
        Nat.add_le_add (Nat.mul_le_mul_right b hhigh) hhi
        _ = hi * (ones b ds.length * b + 1) := by ring

/-- Digits that differ by less than the base can be read off the value. -/
theorem horner_inj (hb : hi < lo + b) (hds : Within lo hi ds) (hes : Within lo hi es) (hlen : ds.length = es.length)
    (heq : horner b 0 ds = horner b 0 es) : ds = es := by
  induction ds using List.reverseRecOn generalizing es with
  | nil => exact (List.eq_nil_of_length_eq_zero hlen.symm).symm
  | append_singleton ds d ih =>
    cases es using List.reverseRecOn with
    | nil => simp at hlen
    | append_singleton es e =>
      simp only [List.length_append, List.length_singleton, Nat.add_right_cancel_iff] at hlen
      rw [horner_snoc, horner_snoc] at heq
      obtain ⟨hdlo, hdhi⟩ := hds d (by simp)
      obtain ⟨helo, hehi⟩ := hes e (by simp)
      -- the last digits agree modulo the base
      have hhead : horner b 0 ds = horner b 0 es := by
        rcases Nat.lt_trichotomy (horner b 0 ds) (horner b 0 es) with hlt | hsame | hlt
        · have hstep := Nat.mul_le_mul_right b hlt
          rw [Nat.succ_mul] at hstep
          omega
        · exact hsame
        · have hstep := Nat.mul_le_mul_right b hlt
          rw [Nat.succ_mul] at hstep
          omega
      have hlast : d = e := by
        rw [hhead] at heq
        omega
      rw [hlast, ih (fun x hx => hds x (by simp [hx])) (fun x hx => hes x (by simp [hx])) hlen hhead]

/-- The window of the values of `k` digits behind the value `h`. -/
theorem horner_mem_window (hds : Within lo hi ds) :
    h * b ^ ds.length + lo * ones b ds.length ≤ horner b h ds ∧
      horner b h ds ≤ h * b ^ ds.length + hi * ones b ds.length := by
  obtain ⟨hlow, hhigh⟩ := horner_bounds (b := b) hds
  rw [horner_start]
  omega

/-- Values of one length that agree modulo `N` are equal when their window is smaller than `N`. -/
theorem horner_mod_inj (hb : hi < lo + b) (hds : Within lo hi ds) (hes : Within lo hi es)
    (hlen : ds.length = es.length) (hwidth : (hi - lo) * ones b ds.length < N)
    (heq : horner b h ds % N = horner b h es % N) : ds = es := by
  obtain ⟨hdlow, hdhigh⟩ := horner_mem_window (b := b) (h := h) hds
  obtain ⟨helow, hehigh⟩ := horner_mem_window (b := b) (h := h) hes
  rw [← hlen] at helow hehigh
  rw [Nat.sub_mul] at hwidth
  have hvalue : horner b h ds = horner b h es := by
    rcases le_total (horner b h ds) (horner b h es) with hle | hle
    · have hdvd := (Nat.modEq_iff_dvd' hle).1 heq
      have hzero := Nat.eq_zero_of_dvd_of_lt hdvd (by omega)
      omega
    · have hdvd := (Nat.modEq_iff_dvd' hle).1 heq.symm
      have hzero := Nat.eq_zero_of_dvd_of_lt hdvd (by omega)
      omega
  rw [horner_start, horner_start b h es, hlen] at hvalue
  exact horner_inj hb hds hes hlen (Nat.add_left_cancel hvalue)

/-- The remainders of a window that does not go around are the window of the remainders. -/
theorem mod_mem_window {low width v : Nat} (hfit : low % N + width < N) (hlow : low ≤ v) (hhigh : v ≤ low + width) :
    low % N ≤ v % N ∧ v % N ≤ low % N + width := by
  obtain ⟨k, rfl⟩ := Nat.exists_eq_add_of_le hlow
  have hmod : (low + k) % N = low % N + k := by
    rw [Nat.add_mod, Nat.add_mod_mod, Nat.mod_eq_of_lt (by omega)]
  omega

end Horner
