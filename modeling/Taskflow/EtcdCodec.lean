import Taskflow.EtcdClient

/-!
# The codec of keys and values

The encoder writes two hexadecimal digits after `\u` and the decoder reads four characters, so an escape takes the
two characters behind it along, or is not recognised near the end.  Key facts: decoding an encoded value never
throws (`decodeValue_drift`), and gives the value back exactly when no byte of it needs an escape
(`decode_encode_iff`).
-/

namespace Taskflow

open Text

/-! ### Reading an escape -/

private theorem hexDigit_facts : ∀ n < 16, isDigit 16 (hexDigit n) = true ∧ isSpace (hexDigit n) = false ∧
    hexDigit n ≠ 45 ∧ hexDigit n ≠ 43 ∧ hexDigit n ≠ 120 ∧ hexDigit n ≠ 88 ∧
    needsEscape (hexDigit n) = false := by
  decide

/-- Four characters of which the first is a hexadecimal digit, and not that of a `0x`, are a number. -/
private theorem stoi_escape {m n : Nat} (hm : m < 16) (hn : n < 16) (c d : UInt8) :
    ∃ x, stoi 16 [hexDigit m, hexDigit n, c, d] = .ok x := by
  obtain ⟨hdigit, hspace, h45, h43, -⟩ := hexDigit_facts m hm
  obtain ⟨-, -, -, -, h120, h88, -⟩ := hexDigit_facts n hn
  have hprefix : hasHexPrefix [hexDigit m, hexDigit n, c, d] = false := by
    simp [hasHexPrefix, bytes, h120, h88]
  have hvalue : strtol 16 [hexDigit m, hexDigit n, c, d] =
      some (digitsValue 16 ([hexDigit m, hexDigit n, c, d].takeWhile (isDigit 16)) : Int) := by
    simp [strtol, hspace, h45, h43, hprefix, hdigit]
  have hlength := (List.takeWhile_prefix (l := [hexDigit m, hexDigit n, c, d]) (isDigit 16)).length_le
  have hlt := @digitsValue_lt 16 ([hexDigit m, hexDigit n, c, d].takeWhile (isDigit 16))
    fun e he => List.mem_takeWhile_imp he
  have hpow : 16 ^ ([hexDigit m, hexDigit n, c, d].takeWhile (isDigit 16)).length ≤ 16 ^ 4 :=
    Nat.pow_le_pow_right (by omega) hlength
  unfold stoi
  rw [hvalue]
  exact ⟨_, if_pos (by omega)⟩

/-! ### The drift of a round trip -/

def escapes (s : Bytes) : Nat := s.countP needsEscape

theorem encodeValue_plain {c : UInt8} (h : needsEscape c = false) (s : Bytes) :
    encodeValue (c :: s) = c :: encodeValue s := by
  simp [encodeValue, h]

theorem encodeValue_escape {c : UInt8} (h : needsEscape c = true) (s : Bytes) :
    encodeValue (c :: s) =
      92 :: 117 :: hexDigit (c.toNat / 16) :: hexDigit (c.toNat % 16) :: encodeValue s := by
  simp [encodeValue, h, escape]

theorem decodeValue_plain {c : UInt8} (h : needsEscape c = false) {s out : Bytes} (hs : decodeValue s = .ok out) :
    decodeValue (c :: s) = .ok (c :: out) := by
  have hc : c ≠ 92 := by
    rintro rfl
    cases h
  rw [decodeValue, hs]
  · rfl
  · intro a b c d rest heq
    exact absurd heq hc

/-- The digits of an escape. -/
private theorem escapeDigits_lt (c : UInt8) : c.toNat / 16 < 16 ∧ c.toNat % 16 < 16 := by
  have hlt := c.toNat_lt
  omega

private theorem escapeDigits_plain (c : UInt8) :
    needsEscape (hexDigit (c.toNat / 16)) = false ∧ needsEscape (hexDigit (c.toNat % 16)) = false := by
  obtain ⟨h₁, h₂⟩ := escapeDigits_lt c
  obtain ⟨-, -, -, -, -, -, hp₁⟩ := hexDigit_facts _ h₁
  obtain ⟨-, -, -, -, -, -, hp₂⟩ := hexDigit_facts _ h₂
  exact ⟨hp₁, hp₂⟩

theorem decodeValue_escape (c x y : UInt8) {s out : Bytes} (hs : decodeValue s = .ok out) :
    ∃ d, decodeValue (92 :: 117 :: hexDigit (c.toNat / 16) :: hexDigit (c.toNat % 16) :: x :: y :: s) =
      .ok (d :: out) := by
  obtain ⟨h₁, h₂⟩ := escapeDigits_lt c
  obtain ⟨n, hn⟩ := stoi_escape h₁ h₂ x y
  refine ⟨n.toUInt32.toUInt8, ?_⟩
  rw [decodeValue, hn, hs]
  rfl

theorem decode_plain {s : Bytes} (h : ∀ c ∈ s, needsEscape c = false) : decodeValue (encodeValue s) = .ok s := by
  induction s with
  | nil => rfl
  | cons c s ih =>
    rw [encodeValue_plain (h c List.mem_cons_self)]
    exact decodeValue_plain (h c List.mem_cons_self) (ih fun d hd => h d (List.mem_cons_of_mem _ hd))

/-- With fewer than two bytes behind it an escape is not read. -/
theorem decode_short (c : UInt8) {s : Bytes} (hlen : s.length ≤ 1) (hs : ∀ x ∈ s, needsEscape x = false) :
    decodeValue (92 :: 117 :: hexDigit (c.toNat / 16) :: hexDigit (c.toNat % 16) :: encodeValue s) =
      .ok (92 :: 117 :: hexDigit (c.toNat / 16) :: hexDigit (c.toNat % 16) :: s) := by
  obtain ⟨h₁, h₂⟩ := escapeDigits_plain c
  have hu : needsEscape 117 = false := rfl
  have htail := decodeValue_plain hu (decodeValue_plain h₁ (decodeValue_plain h₂ (decode_plain hs)))
  rw [decodeValue, htail]
  · rfl
  · intro a b x y rest _ heq
    have hlength := congrArg List.length heq
    have hencoded : (encodeValue s).length = s.length := by
      match s with
      | [] => rfl
      | [x] =>
        rw [encodeValue_plain (hs x List.mem_cons_self)]
        rfl
    simp only [List.length_cons, hencoded] at hlength
    omega

/-- How far `out` may be from `s` after a round trip: bytes that need an escape become fewer, or every escape
either took two bytes along (`lost`) or stayed as four bytes (`kept`), which only the last one can. -/
structure Drift (s out : Bytes) : Prop where
  fewer : escapes out ≤ escapes s
  length : escapes out < escapes s ∨
    ∃ lost kept, kept ≤ 1 ∧ lost + kept = escapes s ∧ out.length + 2 * lost = s.length + 3 * kept

theorem escapes_plain {c : UInt8} (h : needsEscape c = false) (s : Bytes) : escapes (c :: s) = escapes s := by
  simp [escapes, h]

theorem escapes_escape {c : UInt8} (h : needsEscape c = true) (s : Bytes) : escapes (c :: s) = escapes s + 1 := by
  simp [escapes, h]

private theorem escapes_cons_le (c : UInt8) (s : Bytes) : escapes (c :: s) ≤ escapes s + 1 := by
  cases h : needsEscape c with
  | false => rw [escapes_plain h]; omega
  | true => rw [escapes_escape h]

theorem Drift.plain {s out : Bytes} {c : UInt8} (h : Drift s out) (hc : needsEscape c = false) :
    Drift (c :: s) (c :: out) := by
  have hs := escapes_plain hc s
  have hout := escapes_plain hc out
  obtain ⟨hfewer, hlength⟩ := h
  refine ⟨by omega, ?_⟩
  rcases hlength with hlt | ⟨lost, kept, hkept, hsum, hlen⟩
  · exact Or.inl (by omega)
  · refine Or.inr ⟨lost, kept, hkept, by omega, ?_⟩
    simp only [List.length_cons]
    omega

/-- The two bytes behind the escape are lost. -/
theorem Drift.lost {s out : Bytes} {c x y : UInt8} (h : Drift s out) (hc : needsEscape c = true)
    (hx : needsEscape x = false) (hy : needsEscape y = false) (d : UInt8) : Drift (c :: x :: y :: s)
    (d :: out) := by
  have hs : escapes (c :: x :: y :: s) = escapes s + 1 := by
    rw [escapes_escape hc, escapes_plain hx, escapes_plain hy]
  have hout := escapes_cons_le d out
  obtain ⟨hfewer, hlength⟩ := h
  refine ⟨by omega, ?_⟩
  rcases hlength with hlt | ⟨lost, kept, hkept, hsum, hlen⟩
  · exact Or.inl (by omega)
  · refine Or.inr ⟨lost + 1, kept, hkept, by omega, ?_⟩
    simp only [List.length_cons]
    omega

/-- An escape that takes the head of the next one along leaves a remainder with two escapes less. -/
theorem Drift.overlap {s t out : Bytes} (h : Drift t out) (hst : escapes t + 2 ≤ escapes s) (d : UInt8) :
    Drift s (d :: out) := by
  have hout := escapes_cons_le d out
  have hfewer := h.fewer
  exact ⟨by omega, Or.inl (by omega)⟩

/-- Near the end the escape stays as it is. -/
theorem Drift.kept {c : UInt8} {s : Bytes} (hc : needsEscape c = true) (hs : escapes s = 0) :
    Drift (c :: s) (92 :: 117 :: hexDigit (c.toNat / 16) :: hexDigit (c.toNat % 16) :: s) := by
  obtain ⟨h₁, h₂⟩ := escapeDigits_plain c
  have h92 : needsEscape 92 = true := rfl
  have h117 : needsEscape 117 = false := rfl
  have hin := escapes_escape hc s
  have hout : escapes (92 :: 117 :: hexDigit (c.toNat / 16) :: hexDigit (c.toNat % 16) :: s) = 1 := by
    rw [escapes_escape h92, escapes_plain h117, escapes_plain h₁, escapes_plain h₂, hs]
  refine ⟨by omega, Or.inr ⟨0, 1, le_refl _, by omega, ?_⟩⟩
  simp only [List.length_cons]

/-- What is left of an escape without its head needs no escape. -/
theorem encodeValue_digits (c : UInt8) (s : Bytes) :
    encodeValue (hexDigit (c.toNat / 16) :: hexDigit (c.toNat % 16) :: s) =
      hexDigit (c.toNat / 16) :: hexDigit (c.toNat % 16) :: encodeValue s := by
  obtain ⟨h₁, h₂⟩ := escapeDigits_plain c
  rw [encodeValue_plain h₁, encodeValue_plain h₂]

theorem escapes_digits (c : UInt8) (s : Bytes) :
    escapes (hexDigit (c.toNat / 16) :: hexDigit (c.toNat % 16) :: s) = escapes s := by
  obtain ⟨h₁, h₂⟩ := escapeDigits_plain c
  rw [escapes_plain h₁, escapes_plain h₂]

theorem decodeValue_drift (s : Bytes) : ∃ out, decodeValue (encodeValue s) = .ok out ∧ Drift s out := by
  -- the decoder eats the encoded text, and what it leaves is again an encoded text
  induction hn : (encodeValue s).length using Nat.strong_induction_on generalizing s with
  | _ n ih =>
    cases s with
    | nil => exact ⟨[], rfl, le_refl _, Or.inr ⟨0, 0, by omega, rfl, rfl⟩⟩
    | cons c s =>
      cases hc : needsEscape c with
      | false =>
        rw [encodeValue_plain hc] at hn ⊢
        obtain ⟨out, hout, hdrift⟩ := ih _ (by simp [← hn]) s rfl
        exact ⟨c :: out, decodeValue_plain hc hout, hdrift.plain hc⟩
      | true =>
        rw [encodeValue_escape hc] at hn ⊢
        simp only [List.length_cons] at hn
        match s with
        | [] => exact ⟨_, decode_short c (by simp) (by simp), .kept hc rfl⟩
        | x :: s =>
          cases hx : needsEscape x with
          | true =>
            -- the next escape loses its backslash and its `u`
            rw [encodeValue_escape hx, ← encodeValue_digits] at hn ⊢
            simp only [List.length_cons] at hn
            obtain ⟨out, hout, hdrift⟩ :=
              ih _ (by omega) (hexDigit (x.toNat / 16) :: hexDigit (x.toNat % 16) :: s) rfl
            obtain ⟨d, hd⟩ := decodeValue_escape c 92 117 hout
            refine ⟨d :: out, hd, hdrift.overlap ?_ d⟩
            rw [escapes_escape hc, escapes_escape hx, escapes_digits]
          | false =>
            match s with
            | [] =>
              refine ⟨_, decode_short c (by simp) (by simp [hx]), .kept hc ?_⟩
              rw [escapes_plain hx]
              rfl
            | y :: s =>
              rw [encodeValue_plain hx] at hn ⊢
              cases hy : needsEscape y with
              | true =>
                -- the next escape loses its backslash
                have hu : needsEscape 117 = false := rfl
                rw [encodeValue_escape hy, ← encodeValue_digits, ← encodeValue_plain hu] at hn ⊢
                simp only [List.length_cons] at hn
                obtain ⟨out, hout, hdrift⟩ :=
                  ih _ (by omega) (117 :: hexDigit (y.toNat / 16) :: hexDigit (y.toNat % 16) :: s) rfl
                obtain ⟨d, hd⟩ := decodeValue_escape c x 92 hout
                refine ⟨d :: out, hd, hdrift.overlap ?_ d⟩
                rw [escapes_escape hc, escapes_plain hx, escapes_escape hy, escapes_plain hu, escapes_digits]
              | false =>
                rw [encodeValue_plain hy] at hn ⊢
                simp only [List.length_cons] at hn
                obtain ⟨out, hout, hdrift⟩ := ih _ (by omega) s rfl
                obtain ⟨d, hd⟩ := decodeValue_escape c x y hout
                exact ⟨d :: out, hd, hdrift.lost hc hx hy d⟩

/-- A value that needs an escape does not come back. -/
theorem plain_of_decode_encode {s : Bytes} (h : decodeValue (encodeValue s) = .ok s) :
    ∀ c ∈ s, needsEscape c = false := by
  obtain ⟨out, hout, hdrift⟩ := decodeValue_drift s
  rw [h] at hout
  cases hout
  have hnone : escapes s = 0 := by
    rcases hdrift.length with hlt | ⟨lost, kept, hkept, hsum, hlen⟩
    · omega
    · omega
  intro c hc
  have hnot := List.countP_eq_zero.1 hnone c hc
  exact Bool.eq_false_iff.2 hnot

/-- The codec gives a value back exactly when nothing in it needs an escape. -/
theorem decode_encode_iff (s : Bytes) :
    decodeValue (encodeValue s) = .ok s ↔ ∀ c ∈ s, needsEscape c = false :=
  ⟨plain_of_decode_encode, decode_plain⟩

/-- A single quote comes back as the text of its escape. -/
theorem decode_encode_quote : decodeValue (encodeValue [34]) ≠ .ok [34] := by
  decide

/-! ### Encoded texts in a body -/

theorem quote_notMem_encodeValue (s : Bytes) : 34 ∉ encodeValue s := by
  induction s with
  | nil => exact List.not_mem_nil
  | cons c s ih =>
    cases hc : needsEscape c with
    | false =>
      rw [encodeValue_plain hc, List.mem_cons, not_or]
      refine ⟨?_, ih⟩
      rintro rfl
      cases hc
    | true =>
      obtain ⟨h₁, h₂⟩ := escapeDigits_plain c
      have hdigit : ∀ d, needsEscape d = false → 34 ≠ d := by
        rintro d hd rfl
        cases hd
      rw [encodeValue_escape hc]
      simp only [List.mem_cons, not_or]
      exact ⟨by decide, by decide, hdigit _ h₁, hdigit _ h₂, ih⟩

private theorem hexDigit_inj : ∀ m < 16, ∀ n < 16, hexDigit m = hexDigit n → m = n := by decide

theorem encodeValue_ne_nil (c : UInt8) (s : Bytes) : encodeValue (c :: s) ≠ [] := by
  cases hc : needsEscape c with
  | false =>
    rw [encodeValue_plain hc]
    exact List.cons_ne_nil _ _
  | true =>
    rw [encodeValue_escape hc]
    exact List.cons_ne_nil _ _

/-- Different keys are sent in different bodies. -/
theorem encodeValue_inj {s t : Bytes} (h : encodeValue s = encodeValue t) : s = t := by
  have hbackslash : needsEscape 92 = true := rfl
  induction s generalizing t with
  | nil =>
    cases t with
    | nil => rfl
    | cons d t => exact absurd h.symm (encodeValue_ne_nil d t)
  | cons c s ih =>
    cases t with
    | nil => exact absurd h (encodeValue_ne_nil c s)
    | cons d t =>
      cases hc : needsEscape c with
      | false =>
        cases hd : needsEscape d with
        | false =>
          rw [encodeValue_plain hc, encodeValue_plain hd] at h
          obtain ⟨rfl, hrest⟩ := List.cons.inj h
          rw [ih hrest]
        | true =>
          rw [encodeValue_plain hc, encodeValue_escape hd] at h
          rw [(List.cons.inj h).1, hbackslash] at hc
          cases hc
      | true =>
        cases hd : needsEscape d with
        | false =>
          rw [encodeValue_escape hc, encodeValue_plain hd] at h
          rw [← (List.cons.inj h).1, hbackslash] at hd
          cases hd
        | true =>
          rw [encodeValue_escape hc, encodeValue_escape hd] at h
          simp only [List.cons.injEq, true_and] at h
          obtain ⟨hhigh, hlow, hrest⟩ := h
          obtain ⟨hc₁, hc₂⟩ := escapeDigits_lt c
          obtain ⟨hd₁, hd₂⟩ := escapeDigits_lt d
          have h₁ := hexDigit_inj _ hc₁ _ hd₁ hhigh
          have h₂ := hexDigit_inj _ hc₂ _ hd₂ hlow
          have hcd : c = d := UInt8.toNat_inj.1 (by omega)
          rw [hcd, ih hrest]

/-! ### Escapes of four digits -/

/-- The escape that the decoder reads as it is meant. -/
def fullEscape (c : UInt8) : Bytes := [92, 117, 48, 48, hexDigit (c.toNat / 16), hexDigit (c.toNat % 16)]

/-- What a server may write for a value so that the client reads it. -/
def fullyEscaped (s : Bytes) : Bytes := s.flatMap fullEscape

private theorem stoi_fullEscape : ∀ n < 256, (stoi 16 [48, 48, hexDigit (n / 16), hexDigit (n % 16)]).toOption.map
    (fun x => x.toUInt32.toUInt8) = some (UInt8.ofNat n) := by
  decide +kernel

theorem decodeValue_fullyEscaped (s : Bytes) : decodeValue (fullyEscaped s) = .ok s := by
  induction s with
  | nil => rfl
  | cons c s ih =>
    have hnumber := stoi_fullEscape c.toNat c.toNat_lt
    have hcons : fullyEscaped (c :: s) =
        92 :: 117 :: 48 :: 48 :: hexDigit (c.toNat / 16) :: hexDigit (c.toNat % 16) :: fullyEscaped s := rfl
    rw [UInt8.ofNat_toNat] at hnumber
    rw [hcons, decodeValue, ih]
    cases hn : stoi 16 [48, 48, hexDigit (c.toNat / 16), hexDigit (c.toNat % 16)] with
    | error x =>
      rw [hn] at hnumber
      cases hnumber
    | ok n =>
      rw [hn] at hnumber
      exact congrArg (fun d => Except.ok (d :: s)) (Option.some.inj hnumber)

theorem quote_notMem_fullyEscaped (s : Bytes) : 34 ∉ fullyEscaped s := by
  rw [fullyEscaped, List.mem_flatMap]
  rintro ⟨c, -, hc⟩
  obtain ⟨h₁, h₂⟩ := escapeDigits_plain c
  have hdigit : ∀ d, needsEscape d = false → 34 ≠ d := by
    rintro d hd rfl
    cases hd
  simp only [fullEscape, List.mem_cons, List.not_mem_nil, or_false] at hc
  rcases hc with hc | hc | hc | hc | hc | hc
  · exact absurd hc (by decide)
  · exact absurd hc (by decide)
  · exact absurd hc (by decide)
  · exact absurd hc (by decide)
  · exact hdigit _ h₁ hc
  · exact hdigit _ h₂ hc

end Taskflow
