import Mathlib

/-!
# Byte strings and the text conversions of C and C++

A `std::string` is a list of bytes, a `std::map` keyed by strings a tree ordered by the bytes.  The file has the
conversions of the standard library that programs use between text and numbers: `std::to_string` (`decimal`) and
the `std::stoi` family, which reads the longest numeric prefix and throws when there is none or the value does not
fit.  Key facts: reading back a decimal gives the number (`strtol_decimal`), also when other text follows, and
`c_str` is the identity on a string without NUL bytes (`cStr_of_noNul`).
-/

namespace Text

/-- A `std::string`. -/
abbrev Bytes := List UInt8

/-- A `std::map` from strings. -/
abbrev StringMap (β : Type) := Std.ExtTreeMap Bytes β

/-- The exceptions of the standard library that reach a caller. -/
inductive StdException where
  | invalidArgument
  | outOfRange
  | runtimeError
  deriving DecidableEq, Repr

/-- The bytes of an ASCII literal. -/
def bytes (s : String) : Bytes := s.toList.map fun c => c.toNat.toUInt8

/-- What a function taking a `char*` sees of a string: the bytes before the first NUL. -/
def cStr (s : Bytes) : Bytes := s.takeWhile fun c => c ≠ 0

theorem cStr_of_noNul {s : Bytes} (h : 0 ∉ s) : cStr s = s := by
  unfold cStr
  rw [List.takeWhile_eq_self_iff]
  intro c hc
  simp only [ne_eq, decide_eq_true_eq]
  rintro rfl
  exact h hc

/-- Text up to the first NUL of a concatenation whose first part has none. -/
theorem cStr_append {s : Bytes} (h : 0 ∉ s) (t : Bytes) : cStr (s ++ t) = s ++ cStr t := by
  unfold cStr
  rw [List.takeWhile_append_of_pos]
  intro c hc
  simp only [ne_eq, decide_eq_true_eq]
  rintro rfl
  exact h hc

theorem noNul_cStr (s : Bytes) : 0 ∉ cStr s := by
  intro h
  have hne := List.mem_takeWhile_imp h
  simp at hne

theorem cStr_eq_iff (s : Bytes) : cStr s = s ↔ 0 ∉ s := by
  constructor
  · intro h
    rw [← h]
    exact noNul_cStr s
  · exact cStr_of_noNul

theorem noNul_append {s t : Bytes} (hs : 0 ∉ s) (ht : 0 ∉ t) : 0 ∉ s ++ t := by
  simp [hs, ht]

/-! ### Digits -/

/-- The value of a digit in bases up to 36; `255` for any other byte. -/
def digitValue (c : UInt8) : Nat :=
  if 48 ≤ c.toNat ∧ c.toNat ≤ 57 then c.toNat - 48
  else if 97 ≤ c.toNat ∧ c.toNat ≤ 122 then c.toNat - 87
  else if 65 ≤ c.toNat ∧ c.toNat ≤ 90 then c.toNat - 55
  else 255

def isDigit (base : Nat) (c : UInt8) : Bool := decide (digitValue c < base)

def isSpace (c : UInt8) : Bool := c = 32 || (9 ≤ c.toNat && c.toNat ≤ 13)

/-- Blank and tab, which do not end a line. -/
def isBlank (c : UInt8) : Bool := c = 32 || c = 9

/-- White space of JSON. -/
def isJsonSpace (c : UInt8) : Bool := c = 32 || c = 9 || c = 10 || c = 13

/-- ASCII letters become small. -/
def lower (s : Bytes) : Bytes := s.map fun c => if 65 ≤ c ∧ c ≤ 90 then c + 32 else c

def digitsValue (base : Nat) (s : Bytes) : Nat := s.foldl (fun v c => base * v + digitValue c) 0

/-- The decimal digits of a natural number. -/
def natDecimal (n : Nat) : Bytes :=
  if n = 0 then [48] else (Nat.digits 10 n).reverse.map fun d => UInt8.ofNat (48 + d)

/-- `std::to_string` of an integer. -/
def decimal (n : Int) : Bytes :=
  if n < 0 then 45 :: natDecimal n.natAbs else natDecimal n.natAbs

theorem digitsValue_lt {base : Nat} {s : Bytes} (h : ∀ c ∈ s, isDigit base c = true) :
    digitsValue base s < base ^ s.length := by
  induction s using List.reverseRecOn with
  | nil => simp [digitsValue]
  | append_singleton s c ih =>
    have hc : digitValue c < base := of_decide_eq_true (h c (by simp))
    have hs := ih fun d hd => h d (by simp [hd])
    have hsplit : digitsValue base (s ++ [c]) = base * digitsValue base s + digitValue c := by
      simp [digitsValue, List.foldl_append]
    have hstep : base * digitsValue base s + base ≤ base * base ^ s.length := by
      calc base * digitsValue base s + base = base * (digitsValue base s + 1) := by ring
        _ ≤ base * base ^ s.length := Nat.mul_le_mul_left _ hs
    rw [hsplit, List.length_append, List.length_singleton, pow_succ']
    omega

private theorem digitValue_ofNat {d : Nat} (hd : d < 10) : digitValue (UInt8.ofNat (48 + d)) = d := by
  have h : (UInt8.ofNat (48 + d)).toNat = 48 + d := by
    rw [UInt8.toNat_ofNat']
    omega
  unfold digitValue
  rw [h]
  split
  · omega
  · omega

private theorem digits_lt {n d : Nat} (h : d ∈ (Nat.digits 10 n).reverse) : d < 10 :=
  Nat.digits_lt_base (by omega) (List.mem_reverse.1 h)

theorem isDigit_of_mem_natDecimal {n : Nat} {c : UInt8} (h : c ∈ natDecimal n) : isDigit 10 c = true := by
  unfold natDecimal at h
  split at h
  · simp only [List.mem_singleton] at h
    subst h
    decide
  · rw [List.mem_map] at h
    obtain ⟨d, hd, rfl⟩ := h
    unfold isDigit
    rw [digitValue_ofNat (digits_lt hd)]
    exact decide_eq_true (digits_lt hd)

theorem natDecimal_ne_nil (n : Nat) : natDecimal n ≠ [] := by
  unfold natDecimal
  split
  · simp
  · rename_i h
    simpa [Nat.digits_eq_nil_iff_eq_zero] using h

private theorem foldl_digits (ds : List Nat) (h : ∀ d ∈ ds, d < 10) (v : Nat) :
    (ds.map fun d => UInt8.ofNat (48 + d)).foldl (fun v c => 10 * v + digitValue c) v =
      ds.foldl (fun v d => 10 * v + d) v := by
  induction ds generalizing v with
  | nil => rfl
  | cons d ds ih =>
    simp only [List.map_cons, List.foldl_cons, digitValue_ofNat (h d (by simp))]
    exact ih (fun d hd => h d (by simp [hd])) _

theorem digitsValue_natDecimal (n : Nat) : digitsValue 10 (natDecimal n) = n := by
  unfold natDecimal digitsValue
  split
  · rename_i h
    subst h
    decide
  · rw [foldl_digits _ (fun d hd => digits_lt hd), List.foldl_reverse]
    conv => rhs; rw [← Nat.ofDigits_digits 10 n, Nat.ofDigits_eq_foldr]
    congr 1
    funext d v
    simp only [Nat.cast_id]
    omega

theorem decimal_ne_nil (n : Int) : decimal n ≠ [] := by
  unfold decimal
  split
  · simp
  · exact natDecimal_ne_nil _

theorem digit_toNat {c : UInt8} (h : isDigit 10 c = true) : 48 ≤ c.toNat ∧ c.toNat ≤ 57 := by
  have hlt : digitValue c < 10 := of_decide_eq_true h
  unfold digitValue at hlt
  split at hlt
  · assumption
  · split at hlt
    · omega
    · split at hlt <;> omega

theorem length_natDecimal_le {n k : Nat} (hk : 0 < k) (h : n < 10 ^ k) : (natDecimal n).length ≤ k := by
  unfold natDecimal
  split
  · exact hk
  · rw [List.length_map, List.length_reverse, Nat.digits_length_le_iff (by omega)]
    exact h

theorem noNul_decimal (n : Int) : 0 ∉ decimal n := by
  have hnat : ∀ m, (0 : UInt8) ∉ natDecimal m := by
    intro m hm
    exact absurd (isDigit_of_mem_natDecimal hm) (by decide)
  unfold decimal
  split
  · simp [hnat]
  · exact hnat _

/-! ### Reading numbers -/

/-- Whether `strtol` skips a `0x` at the head of the text. -/
def hasHexPrefix (s : Bytes) : Bool :=
  s.take 2 == bytes "0x" || s.take 2 == bytes "0X"

/-- `strtol`: the number at the head of the text, or `none` when no digits are there. -/
def strtol (base : Nat) (s : Bytes) : Option Int :=
  let s := s.dropWhile isSpace
  let negative := s.head? == some 45
  let s := if negative || s.head? == some 43 then s.tail else s
  let s := if base == 16 && hasHexPrefix s && ((s.drop 2).head?.any (isDigit 16)) then s.drop 2 else s
  let digits := s.takeWhile (isDigit base)
  if digits.isEmpty then none
  else some (if negative then -(digitsValue base digits : Int) else digitsValue base digits)

/-- `std::stoll`. -/
def stoll (s : Bytes) : Except StdException Int64 :=
  match strtol 10 s with
  | none => .error .invalidArgument
  | some n => if -2 ^ 63 ≤ n ∧ n < 2 ^ 63 then .ok (Int64.ofInt n) else .error .outOfRange

/-- `std::stoi` in a base. -/
def stoi (base : Nat) (s : Bytes) : Except StdException Int32 :=
  match strtol base s with
  | none => .error .invalidArgument
  | some n => if -2 ^ 31 ≤ n ∧ n < 2 ^ 31 then .ok (Int32.ofInt n) else .error .outOfRange

private theorem takeWhile_digits {n : Nat} {rest : Bytes} (h : rest.head?.all (fun c => !isDigit 10 c) = true) :
    (natDecimal n ++ rest).takeWhile (isDigit 10) = natDecimal n := by
  rw [List.takeWhile_append_of_pos (fun c hc => isDigit_of_mem_natDecimal hc)]
  cases rest with
  | nil => simp
  | cons c rest =>
    simp only [List.head?_cons, Option.all_some, Bool.not_eq_true'] at h
    simp [h]

private theorem natDecimal_head (n : Nat) : ∃ c t, natDecimal n = c :: t ∧ 48 ≤ c.toNat ∧ c.toNat ≤ 57 := by
  cases h : natDecimal n with
  | nil => exact absurd h (natDecimal_ne_nil n)
  | cons c t => exact ⟨c, t, rfl, digit_toNat (isDigit_of_mem_natDecimal (h ▸ List.mem_cons_self))⟩

/-- `strtol` reads back a decimal followed by text that does not start with a digit. -/
theorem strtol_decimal_append (n : Int) {rest : Bytes} (h : rest.head?.all (fun c => !isDigit 10 c) = true) :
    strtol 10 (decimal n ++ rest) = some n := by
  obtain ⟨c, t, hc, h48, h57⟩ := natDecimal_head n.natAbs
  have hspace : isSpace c = false := by
    simp only [isSpace, Bool.or_eq_false_iff, decide_eq_false_iff_not, Bool.and_eq_false_iff]
    exact ⟨fun h => by subst h; simp at h48, Or.inr (by omega)⟩
  have hdigits := takeWhile_digits (n := n.natAbs) h
  have hvalue := digitsValue_natDecimal n.natAbs
  unfold decimal
  split
  · rename_i hneg
    have hs : isSpace 45 = false := by decide
    simp [strtol, hs, hdigits, natDecimal_ne_nil, hvalue, abs_of_neg hneg]
  · rename_i hpos
    have h45 : c ≠ 45 := by rintro rfl; simp at h48
    have h43 : c ≠ 43 := by rintro rfl; simp at h48
    rw [hc] at hdigits hvalue ⊢
    rw [List.cons_append] at hdigits ⊢
    simp [strtol, hspace, h45, h43, hdigits, hvalue, abs_of_nonneg (not_lt.1 hpos)]

theorem strtol_decimal (n : Int) : strtol 10 (decimal n) = some n := by
  have h := @strtol_decimal_append n [] (by simp)
  rwa [List.append_nil] at h

/-- `strtol` does not go past a character that is neither white space, sign nor digit. -/
theorem strtol_append_stop {c : UInt8} (hspace : isSpace c = false) (hsign : c ≠ 45 ∧ c ≠ 43)
    (hdigit : isDigit 10 c = false) (s rest : Bytes) : strtol 10 (s ++ c :: rest) = strtol 10 s := by
  have hskip : (s ++ c :: rest).dropWhile isSpace = s.dropWhile isSpace ++ c :: rest := by
    rw [List.dropWhile_append]
    split
    · rename_i hempty
      rw [List.isEmpty_iff] at hempty
      rw [hempty, List.dropWhile_cons_of_neg (by simp [hspace]), List.nil_append]
    · rfl
  have hdigits : ∀ t : Bytes, (t ++ c :: rest).takeWhile (isDigit 10) = t.takeWhile (isDigit 10) := by
    intro t
    induction t with
    | nil => simp [hdigit]
    | cons d t ih =>
      rw [List.cons_append, List.takeWhile_cons, List.takeWhile_cons, ih]
  unfold strtol
  rw [hskip]
  cases s.dropWhile isSpace with
  | nil => simp [hsign.1, hsign.2, hdigit]
  | cons d t =>
    have hall := hdigits (d :: t)
    rw [List.cons_append] at hall
    by_cases h45 : d = 45
    · simp [h45, hdigits t]
    · by_cases h43 : d = 43
      · simp [h43, hdigits t]
      · simp [h45, h43, hall]

/-- A text of digits alone. -/
theorem strtol_digits {s : Bytes} (hne : s ≠ []) (h : ∀ c ∈ s, isDigit 10 c = true) :
    strtol 10 s = some (digitsValue 10 s : Int) := by
  cases s with
  | nil => exact absurd rfl hne
  | cons c t =>
    have hc := digit_toNat (h c List.mem_cons_self)
    have hspace : isSpace c = false := by
      rw [isSpace, Bool.or_eq_false_iff, decide_eq_false_iff_not, Bool.and_eq_false_iff]
      refine ⟨?_, .inr (by rw [decide_eq_false_iff_not]; omega)⟩
      rintro rfl
      exact absurd hc.1 (by decide)
    have h45 : c ≠ 45 := by
      rintro rfl
      exact absurd hc.1 (by decide)
    have h43 : c ≠ 43 := by
      rintro rfl
      exact absurd hc.1 (by decide)
    have hdigits : (c :: t).takeWhile (isDigit 10) = c :: t := List.takeWhile_eq_self_iff.2 h
    simp [strtol, hspace, h45, h43, hdigits]

/-- Digits are read when their number fits. -/
theorem stoi_digits_iff {s : Bytes} (hne : s ≠ []) (h : ∀ c ∈ s, isDigit 10 c = true) :
    (∃ n, stoi 10 s = .ok n) ↔ digitsValue 10 s < 2 ^ 31 := by
  unfold stoi
  rw [strtol_digits hne h]
  simp only
  by_cases hfits : digitsValue 10 s < 2 ^ 31
  · rw [if_pos ⟨by omega, by exact_mod_cast hfits⟩]
    exact iff_of_true ⟨_, rfl⟩ hfits
  · rw [if_neg fun hboth => hfits (by exact_mod_cast hboth.2)]
    refine iff_of_false ?_ hfits
    rintro ⟨n, hn⟩
    cases hn

theorem decimal_injective {m n : Int} (h : decimal m = decimal n) : m = n := by
  have hm := strtol_decimal m
  rw [h, strtol_decimal n] at hm
  exact (Option.some.inj hm).symm

theorem stoll_decimal (n : Int64) : stoll (decimal n.toInt) = .ok n := by
  have h₁ := n.le_toInt
  have h₂ := n.toInt_lt
  unfold stoll
  rw [strtol_decimal]
  simp only
  rw [if_pos ⟨h₁, h₂⟩, Int64.ofInt_toInt]

theorem stoi_decimal (n : Int32) : stoi 10 (decimal n.toInt) = .ok n := by
  have h₁ := n.le_toInt
  have h₂ := n.toInt_lt
  unfold stoi
  rw [strtol_decimal]
  simp only
  rw [if_pos ⟨h₁, h₂⟩, Int32.ofInt_toInt]

/-! ### Maps from strings -/

@[simp] theorem getElem?_insert {β : Type} (m : StringMap β) (k a : Bytes) (v : β) :
    (m.insert k v)[a]? = if k = a then some v else m[a]? := by
  rw [Std.ExtTreeMap.getElem?_insert]
  simp

@[simp] theorem getElem?_erase {β : Type} (m : StringMap β) (k a : Bytes) :
    (m.erase k)[a]? = if k = a then none else m[a]? := by
  rw [Std.ExtTreeMap.getElem?_erase]
  simp

theorem isEmpty_eq_false_of_getElem? {β : Type} {m : StringMap β} {k : Bytes} {v : β} (h : m[k]? = some v) :
    m.isEmpty = false := by
  rw [Bool.eq_false_iff]
  intro hempty
  rw [Std.ExtTreeMap.isEmpty_iff] at hempty
  subst hempty
  simp at h

/-- The keys of a map are pairwise different. -/
theorem nodup_keys_toList {β : Type} (m : StringMap β) : (m.toList.map (·.1)).Nodup := by
  have hdistinct := Std.ExtTreeMap.distinct_keys_toList (t := m)
  rw [List.Nodup, List.pairwise_map]
  exact hdistinct.imp fun hne heq => hne (by rw [heq]; exact Std.ReflCmp.compare_self)

theorem mem_toList {β : Type} {m : StringMap β} {k : Bytes} {v : β} : (k, v) ∈ m.toList ↔ m[k]? = some v :=
  Std.ExtTreeMap.mem_toList_iff_getElem?_eq_some

end Text
