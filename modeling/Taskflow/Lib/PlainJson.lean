import Taskflow.Lib.Json

/-!
# Reading JSON that was written without escaping

The parser of `Lib/Json` on the texts of its plain writer.  Each part of a value is read back with any text
behind it, and a string, which may end in the wrong place, comes back as it was only if it is plain.
`parseJson_plain_iff` puts this together by induction on the value.
-/

namespace Text

/-! ### Numbers -/

section Numbers

variable {rest : Bytes}

/-- What may follow a value: a comma, a closing bracket or nothing. -/
def Stops (rest : Bytes) : Prop := ∀ c ∈ rest.head?, c = 44 ∨ c = 93 ∨ c = 125

theorem stops_cons {c : UInt8} (h : c = 44 ∨ c = 93 ∨ c = 125) (rest : Bytes) : Stops (c :: rest) := by
  intro d hd
  cases hd
  exact h

theorem Stops.head?_ne (h : Stops rest) {c : UInt8} (hc : ¬(c = 44 ∨ c = 93 ∨ c = 125)) : rest.head? ≠ some c :=
  fun heq => hc (h c heq)

/-- Only the number zero begins with the digit. -/
theorem natDecimal_leading (n : Nat) : ∃ c t, natDecimal n = c :: t ∧ isDigit 10 c = true ∧
    (c = 48 → t = []) := by
  by_cases hn : n = 0
  · subst hn
    exact ⟨48, [], rfl, by decide, fun _ => rfl⟩
  · have hne : Nat.digits 10 n ≠ [] := Nat.digits_ne_nil_iff_ne_zero.2 hn
    have hlast := Nat.getLast_digit_ne_zero 10 hn
    have hlt : (Nat.digits 10 n).getLast hne < 10 := Nat.digits_lt_base (by omega) (List.getLast_mem hne)
    have hhead : natDecimal n = UInt8.ofNat (48 + (Nat.digits 10 n).getLast hne) ::
        ((Nat.digits 10 n).dropLast.reverse.map fun d => UInt8.ofNat (48 + d)) := by
      unfold natDecimal
      rw [if_neg hn]
      conv => lhs; rw [← List.dropLast_append_getLast hne, List.reverse_append]
      rfl
    have hdigit : isDigit 10 (UInt8.ofNat (48 + (Nat.digits 10 n).getLast hne)) = true := by
      refine isDigit_of_mem_natDecimal (n := n) ?_
      rw [hhead]
      exact List.mem_cons_self
    refine ⟨_, _, hhead, hdigit, fun hzero => ?_⟩
    have hvalue := congrArg UInt8.toNat hzero
    rw [UInt8.toNat_ofNat'] at hvalue
    exfalso
    have h48 : (48 : UInt8).toNat = 48 := rfl
    omega

/-- The digits end where the text stops. -/
theorem digits_append (h : Stops rest) (n : Nat) :
    (natDecimal n ++ rest).takeWhile (isDigit 10) = natDecimal n ∧
      (natDecimal n ++ rest).dropWhile (isDigit 10) = rest := by
  have hall : ∀ c ∈ natDecimal n, isDigit 10 c = true := fun c hc => isDigit_of_mem_natDecimal hc
  rw [List.takeWhile_append_of_pos hall, List.dropWhile_append_of_pos hall]
  cases rest with
  | nil => simp
  | cons c rest =>
    have hc : isDigit 10 c = false := by
      rcases h c rfl with rfl | rfl | rfl
      · decide
      · decide
      · decide
    simp [hc]

theorem scanFraction_stops (h : Stops rest) : scanFraction rest = some ([], rest) :=
  if_neg (h.head?_ne (by decide))

theorem scanExponent_stops (h : Stops rest) : scanExponent rest = some ([], rest) :=
  if_neg (not_or.2 ⟨h.head?_ne (by decide), h.head?_ne (by decide)⟩)

/-- An integer is read back. -/
theorem scanNumber_decimal (h : Stops rest) (n : Int) :
    scanNumber (decimal n ++ rest) = some (decimal n, rest) := by
  obtain ⟨c, t, hhead, hdigit, hzero⟩ := natDecimal_leading n.natAbs
  obtain ⟨htake, hdrop⟩ := digits_append h n.natAbs
  have hfirst : ¬((natDecimal n.natAbs).isEmpty = true ∨
      ((natDecimal n.natAbs).head? = some 48 ∧ natDecimal n.natAbs ≠ [48])) := by
    rw [hhead, not_or]
    refine ⟨Bool.false_ne_true, ?_⟩
    rintro ⟨h48, hne⟩
    obtain rfl := Option.some.inj h48
    rw [hzero rfl] at hne
    exact hne rfl
  have hsign : ∀ d : UInt8, isDigit 10 d = true → d ≠ 45 := by
    rintro d hd rfl
    exact absurd hd (by decide)
  unfold scanNumber decimal
  by_cases hneg : n < 0
  · rw [if_pos hneg]
    simp only [List.cons_append, List.head?_cons, List.tail_cons, if_true, htake, hdrop, if_neg hfirst,
      scanFraction_stops h, scanExponent_stops h, Option.bind_some, Option.map_some, List.append_nil,
        List.nil_append]
  · have hplus : (natDecimal n.natAbs ++ rest).head? ≠ some 45 := by
      rw [hhead]
      exact fun heq => hsign c hdigit (Option.some.inj heq)
    rw [if_neg hneg]
    simp only [if_neg hplus, htake, hdrop, if_neg hfirst, scanFraction_stops h, scanExponent_stops h,
      Option.bind_some, Option.map_some, List.append_nil, List.nil_append]

end Numbers

/-! ### Values -/

/-- Induction on a value, with the hypothesis for all elements of an array and all values of an object. -/
@[elab_as_elim]
theorem Json.induct {P : Json → Prop} (null : P .null) (bool : ∀ b, P (.bool b))
    (number : ∀ text, P (.number text))
    (string : ∀ s, P (.string s)) (array : ∀ elements, (∀ e ∈ elements, P e) → P (.array elements))
    (object : ∀ members, (∀ m ∈ members, P m.2) → P (.object members)) (v : Json) : P v :=
  @Json.rec P (fun elements => ∀ e ∈ elements, P e) (fun members => ∀ m ∈ members, P m.2)
    (fun m => P m.2) null bool
    number string array object (List.forall_mem_nil _) (fun _ _ he hes => List.forall_mem_cons.2 ⟨he, hes⟩)
    (List.forall_mem_nil _) (fun _ _ hm hms => List.forall_mem_cons.2 ⟨hm, hms⟩) (fun _ _ hv => hv) v

section Values

variable {v e : Json} {elements : List Json} {members : List (Bytes × Json)} {name s rest r : Bytes} {fuel : Nat}
  {c : UInt8}

theorem mem_elementNumbers {text : Bytes} : text ∈ elementNumbers elements ↔ ∃ e ∈ elements,
    text ∈ e.numbers := by
  induction elements with
  | nil => simp [elementNumbers]
  | cons e elements ih => simp [elementNumbers, ih]

theorem mem_memberNumbers {text : Bytes} : text ∈ memberNumbers members ↔ ∃ m ∈ members,
    text ∈ m.2.numbers := by
  induction members with
  | nil => simp [memberNumbers]
  | cons m members ih => simp [memberNumbers, ih]

theorem Json.integral_bool (b : Bool) : (Json.bool b).Integral := fun text htext => by cases htext

theorem Json.integral_string (s : Bytes) : (Json.string s).Integral := fun text htext => by cases htext

theorem Json.integral_decimal (n : Int) : (Json.number (decimal n)).Integral := by
  intro text htext
  rw [Json.numbers, List.mem_singleton] at htext
  exact ⟨n, htext⟩

theorem Json.integral_array : (Json.array elements).Integral ↔ ∀ e ∈ elements, e.Integral := by
  unfold Json.Integral
  simp only [Json.numbers, mem_elementNumbers]
  exact ⟨fun h e he text htext => h text ⟨e, he, htext⟩, fun h text ⟨e, he, htext⟩ => h e he text htext⟩

theorem Json.integral_object : (Json.object members).Integral ↔ ∀ m ∈ members, m.2.Integral := by
  unfold Json.Integral
  simp only [Json.numbers, mem_memberNumbers]
  exact ⟨fun h m hm text htext => h text ⟨m, hm, htext⟩, fun h text ⟨m, hm, htext⟩ => h m hm text htext⟩

theorem Json.forall_strings_array {P : Bytes → Prop} :
    (∀ s ∈ (Json.array elements).strings, P s) ↔ ∀ e ∈ elements, ∀ s ∈ e.strings, P s := by
  rw [Json.strings]
  induction elements with
  | nil => simp [elementStrings]
  | cons e elements ih => rw [elementStrings, List.forall_mem_append, List.forall_mem_cons, ih]

theorem Json.forall_strings_object {P : Bytes → Prop} :
    (∀ s ∈ (Json.object members).strings, P s) ↔ ∀ m ∈ members, P m.1 ∧ ∀ s ∈ m.2.strings, P s := by
  rw [Json.strings]
  induction members with
  | nil => simp [memberStrings]
  | cons m members ih =>
    rw [memberStrings, List.forall_mem_cons, List.forall_mem_append, List.forall_mem_cons, ih, and_assoc]

theorem skipBlank_cons (hc : isJsonSpace c = false) (s : Bytes) : skipBlank (c :: s) = c :: s :=
  List.dropWhile_cons_of_neg (by rw [hc]; exact Bool.false_ne_true)

/-- The text of a value does not begin with a blank or a closing bracket. -/
theorem plain_head (h : v.Integral) : ∃ c t, v.plain = c :: t ∧ isJsonSpace c = false ∧ c ≠ 93 := by
  cases v with
  | null => exact ⟨110, bytes "ull", rfl, by decide, by decide⟩
  | bool b =>
    cases b with
    | true => exact ⟨116, bytes "rue", rfl, by decide, by decide⟩
    | false => exact ⟨102, bytes "alse", rfl, by decide, by decide⟩
  | number text =>
    obtain ⟨n, rfl⟩ := h text List.mem_cons_self
    obtain ⟨c, t, hhead, hdigit, -⟩ := natDecimal_leading n.natAbs
    have hc := digit_toNat hdigit
    rw [Json.plain]
    unfold decimal
    split
    · exact ⟨45, _, rfl, by decide, by decide⟩
    · refine ⟨c, t, hhead, ?_, ?_⟩
      · have hne : ∀ d : UInt8, d.toNat < 48 → c ≠ d := by
          rintro d hd rfl
          omega
        simp [isJsonSpace, hne 32 (by decide), hne 9 (by decide), hne 10 (by decide), hne 13 (by decide)]
      · rintro rfl
        exact absurd hc.2 (by decide)
  | string s => exact ⟨34, s ++ [34], rfl, by decide, by decide⟩
  | array elements => exact ⟨91, _, rfl, by decide, by decide⟩
  | object members => exact ⟨123, _, rfl, by decide, by decide⟩

theorem unescaped_decimal (n : Int) : Unescaped (decimal n) := by
  have hnat : ∀ m, Unescaped (natDecimal m) := by
    intro m c hc
    have hdigit := digit_toNat (isDigit_of_mem_natDecimal hc)
    refine ⟨?_, ?_, ?_⟩
    · rintro rfl
      exact absurd hdigit.1 (by decide)
    · rintro rfl
      exact absurd hdigit.2 (by decide)
    · rw [UInt8.le_iff_toNat_le]
      exact le_trans (by decide) hdigit.1
  unfold decimal
  split
  · intro c hc
    rcases List.mem_cons.1 hc with rfl | hc
    · decide
    · exact hnat _ c hc
  · exact hnat _

theorem plainUpToQuote_elements (h : PlainUpToQuote rest)
    (hall : ∀ e ∈ elements, ∀ rest, PlainUpToQuote rest → PlainUpToQuote (e.plain ++ rest)) :
    PlainUpToQuote (plainElements elements ++ rest) := by
  have hclose : PlainUpToQuote (93 :: rest) := h.cons (by decide)
  induction elements with
  | nil => exact hclose
  | cons e elements ih =>
    rw [List.forall_mem_cons] at hall
    cases elements with
    | nil =>
      rw [plainElements, List.append_assoc]
      exact hall.1 _ hclose
    | cons next elements =>
      rw [plainElements, List.append_assoc]
      exact hall.1 _ ((ih hall.2).cons (by decide))

theorem plainUpToQuote_members (h : PlainUpToQuote rest) : PlainUpToQuote (plainMembers members ++ rest) := by
  cases members with
  | nil => exact h.cons (by decide)
  | cons m members =>
    cases members with
    | nil => exact plainUpToQuote_quote _
    | cons next members => exact plainUpToQuote_quote _

/-- Up to its first quote the text of a value is plain. -/
theorem plainUpToQuote_plain (hv : v.Integral) (h : PlainUpToQuote rest) : PlainUpToQuote (v.plain ++ rest) := by
  induction v using Json.induct generalizing rest with
  | null => exact h.append (by decide)
  | bool b =>
    cases b with
    | true => exact h.append (by decide)
    | false => exact h.append (by decide)
  | number text =>
    obtain ⟨n, rfl⟩ := hv text List.mem_cons_self
    exact h.append (unescaped_decimal n)
  | string s => exact plainUpToQuote_quote _
  | array elements ih =>
    rw [Json.plain]
    refine (plainUpToQuote_elements h ?_).cons (by decide)
    intro e he rest hrest
    exact ih e he (fun text htext => hv text (mem_elementNumbers.2 ⟨e, he, htext⟩)) hrest
  | object members _ =>
    rw [Json.plain]
    exact (plainUpToQuote_members h).cons (by decide)

/-- A name is read back if it is plain. -/
theorem parseName_iff (hrest : PlainUpToQuote rest) :
    parseName (34 :: (name ++ 34 :: 58 :: rest)) = some (name, r) ↔ PlainString name ∧ r = rest := by
  have hcolon : ∀ t : Bytes, (expect 58 (skipBlank (58 :: t))) = some t := fun t => rfl
  have hopen : (expect 34 (skipBlank (34 :: (name ++ 34 :: 58 :: rest)))).bind parseString =
      parseString (name ++ 34 :: 58 :: rest) := rfl
  have hstring : ∀ t, parseString (name ++ 34 :: 58 :: rest) = some (name, t) ↔ PlainString name ∧
      t = 58 :: rest :=
    fun t => parseString_iff (hrest.cons (by decide)) (by simp)
  unfold parseName
  rw [hopen, Option.bind_eq_some_iff]
  constructor
  · rintro ⟨⟨found, t⟩, hfound, h⟩
    obtain ⟨behind, hbehind, heq⟩ := Option.map_eq_some_iff.1 h
    obtain ⟨rfl, rfl⟩ := Prod.mk.inj heq
    obtain ⟨hplain, rfl⟩ := (hstring t).1 hfound
    rw [hcolon] at hbehind
    exact ⟨hplain, (Option.some.inj hbehind).symm⟩
  · rintro ⟨hplain, rfl⟩
    refine ⟨_, (hstring _).2 ⟨hplain, rfl⟩, ?_⟩
    dsimp only
    rw [hcolon]
    rfl

/-- What the parser does for the first element and for the others. -/
theorem parseElements_iff :
    parseElements (fuel + 1) s = some (e :: elements, r) ↔ ∃ t more u, parseValue fuel s = some (e, t) ∧
      parseSeparator 93 t = some (more, u) ∧
      if more then parseElements fuel u = some (elements, r) else elements = [] ∧ r = u := by
  rw [parseElements, Option.bind_eq_some_iff]
  constructor
  · rintro ⟨⟨value, t⟩, hvalue, h⟩
    obtain ⟨⟨more, u⟩, hmore, h⟩ := Option.bind_eq_some_iff.1 h
    cases more with
    | true =>
      obtain ⟨⟨elements', u'⟩, helements, heq⟩ := Option.map_eq_some_iff.1 h
      cases heq
      exact ⟨t, true, u, hvalue, hmore, helements⟩
    | false =>
      cases h
      exact ⟨t, false, u, hvalue, hmore, rfl, rfl⟩
  · rintro ⟨t, more, u, hvalue, hmore, h⟩
    refine ⟨_, hvalue, Option.bind_eq_some_iff.2 ⟨_, hmore, ?_⟩⟩
    cases more with
    | true => exact Option.map_eq_some_iff.2 ⟨_, h, rfl⟩
    | false =>
      obtain ⟨rfl, rfl⟩ := h
      rfl

theorem parseMembers_iff :
    parseMembers (fuel + 1) s = some ((name, v) :: members, r) ↔ ∃ t u more w, parseName s = some (name, t) ∧
      parseValue fuel t = some (v, u) ∧ parseSeparator 125 u = some (more, w) ∧
      if more then parseMembers fuel w = some (members, r) else members = [] ∧ r = w := by
  rw [parseMembers, Option.bind_eq_some_iff]
  constructor
  · rintro ⟨⟨name', t⟩, hname, h⟩
    obtain ⟨⟨value, u⟩, hvalue, h⟩ := Option.bind_eq_some_iff.1 h
    obtain ⟨⟨more, w⟩, hmore, h⟩ := Option.bind_eq_some_iff.1 h
    cases more with
    | true =>
      obtain ⟨⟨members', w'⟩, hmembers, heq⟩ := Option.map_eq_some_iff.1 h
      cases heq
      exact ⟨t, u, true, w, hname, hvalue, hmore, hmembers⟩
    | false =>
      cases h
      exact ⟨t, u, false, w, hname, hvalue, hmore, rfl, rfl⟩
  · rintro ⟨t, u, more, w, hname, hvalue, hmore, h⟩
    refine ⟨_, hname, Option.bind_eq_some_iff.2 ⟨_, hvalue, Option.bind_eq_some_iff.2 ⟨_, hmore, ?_⟩⟩⟩
    cases more with
    | true => exact Option.map_eq_some_iff.2 ⟨_, h, rfl⟩
    | false =>
      obtain ⟨rfl, rfl⟩ := h
      rfl

/-- The value is read back, in front of any text that may follow it, exactly if its strings are plain. -/
def ReadsBack (v : Json) : Prop :=
  v.Integral → ∀ {fuel rest r}, 2 * v.plain.length ≤ fuel → Stops rest → PlainUpToQuote rest →
    (parseValue fuel (v.plain ++ rest) = some (v, r) ↔ (∀ s ∈ v.strings, PlainString s) ∧ r = rest)

theorem elements_read_back (hall : ∀ e' ∈ e :: elements, ReadsBack e')
    (hnumbers : ∀ text ∈ elementNumbers (e :: elements), ∃ n, text = decimal n)
    (hfuel : 2 * (plainElements (e :: elements)).length + 1 ≤ fuel) (hrest : PlainUpToQuote rest) :
    parseElements fuel (plainElements (e :: elements) ++ rest) = some (e :: elements, r) ↔
      (∀ s ∈ elementStrings (e :: elements), PlainString s) ∧ r = rest := by
  induction elements generalizing e fuel with
  | nil =>
    obtain ⟨fuel, rfl⟩ := Nat.exists_eq_succ_of_ne_zero (by omega : fuel ≠ 0)
    have hvalue : ∀ t, parseValue fuel (e.plain ++ 93 :: rest) = some (e, t) ↔
        (∀ s ∈ e.strings, PlainString s) ∧ t = 93 :: rest := by
      intro t
      refine hall e List.mem_cons_self (fun text htext => hnumbers text ?_) ?_ (stops_cons (by decide) rest)
        (hrest.cons (by decide))
      · exact mem_elementNumbers.2 ⟨e, List.mem_cons_self, htext⟩
      · rw [plainElements, List.length_append] at hfuel
        omega
    have hclose : parseSeparator 93 (93 :: rest) = some (false, rest) := rfl
    have htext : plainElements [e] ++ rest = e.plain ++ 93 :: rest := by simp [plainElements]
    have hstrings : elementStrings [e] = e.strings := by simp [elementStrings]
    rw [htext, hstrings, parseElements_iff]
    constructor
    · rintro ⟨t, more, u, ht, hmore, h⟩
      obtain ⟨hplain, rfl⟩ := (hvalue t).1 ht
      rw [hclose] at hmore
      cases hmore
      exact ⟨hplain, h.2⟩
    · rintro ⟨hplain, rfl⟩
      exact ⟨_, _, _, (hvalue _).2 ⟨hplain, rfl⟩, hclose, rfl, rfl⟩
  | cons next elements ih =>
    obtain ⟨fuel, rfl⟩ := Nat.exists_eq_succ_of_ne_zero (by omega : fuel ≠ 0)
    obtain ⟨hhead, htail⟩ := List.forall_mem_cons.1 hall
    rw [plainElements, List.length_append, List.length_cons] at hfuel
    rw [elementNumbers, List.forall_mem_append] at hnumbers
    have hbehind : PlainUpToQuote (44 :: (plainElements (next :: elements) ++ rest)) := by
      refine (plainUpToQuote_elements hrest fun e' he' rest' hrest' => ?_).cons (by decide)
      exact plainUpToQuote_plain (fun text htext => hnumbers.2 text (mem_elementNumbers.2 ⟨e', he', htext⟩)) hrest'
    have hvalue : ∀ t, parseValue fuel (e.plain ++ 44 :: (plainElements (next :: elements) ++ rest)) = some (e, t) ↔
        (∀ s ∈ e.strings, PlainString s) ∧ t = 44 :: (plainElements (next :: elements) ++ rest) :=
      fun t => hhead hnumbers.1 (by omega) (stops_cons (by decide) _) hbehind
    have hothers : parseElements fuel (plainElements (next :: elements) ++ rest) = some (next :: elements, r) ↔
        (∀ s ∈ elementStrings (next :: elements), PlainString s) ∧ r = rest := ih htail hnumbers.2 (by omega)
    have hcomma : parseSeparator 93 (44 :: (plainElements (next :: elements) ++ rest)) =
        some (true, plainElements (next :: elements) ++ rest) := rfl
    have htext : plainElements (e :: next :: elements) ++ rest =
        e.plain ++ 44 :: (plainElements (next :: elements) ++ rest) := by simp [plainElements]
    rw [htext, parseElements_iff, elementStrings, List.forall_mem_append]
    constructor
    · rintro ⟨t, more, u, ht, hmore, h⟩
      obtain ⟨hplain, rfl⟩ := (hvalue t).1 ht
      rw [hcomma] at hmore
      cases hmore
      obtain ⟨hplains, rfl⟩ := hothers.1 h
      exact ⟨⟨hplain, hplains⟩, rfl⟩
    · rintro ⟨⟨hplain, hplains⟩, rfl⟩
      exact ⟨_, _, _, (hvalue _).2 ⟨hplain, rfl⟩, hcomma, hothers.2 ⟨hplains, rfl⟩⟩

theorem members_read_back (hall : ∀ m ∈ (name, v) :: members, ReadsBack m.2)
    (hnumbers : ∀ text ∈ memberNumbers ((name, v) :: members), ∃ n, text = decimal n)
    (hfuel : 2 * (plainMembers ((name, v) :: members)).length + 1 ≤ fuel) (hrest : PlainUpToQuote rest) :
    parseMembers fuel (plainMembers ((name, v) :: members) ++ rest) = some ((name, v) :: members, r) ↔
      (∀ s ∈ memberStrings ((name, v) :: members), PlainString s) ∧ r = rest := by
  induction members generalizing name v fuel with
  | nil =>
    obtain ⟨fuel, rfl⟩ := Nat.exists_eq_succ_of_ne_zero (by omega : fuel ≠ 0)
    have hintegral : v.Integral := fun text htext =>
      hnumbers text (mem_memberNumbers.2 ⟨_, List.mem_cons_self, htext⟩)
    have hlength : 2 * v.plain.length ≤ fuel := by
      simp only [plainMembers, List.length_append, List.length_cons] at hfuel
      omega
    have hbrace : PlainUpToQuote (125 :: rest) := hrest.cons (by decide)
    have hname : ∀ t, parseName (34 :: (name ++ 34 :: 58 :: (v.plain ++ 125 :: rest))) = some (name, t) ↔
        PlainString name ∧ t = v.plain ++ 125 :: rest :=
      fun t => parseName_iff (plainUpToQuote_plain hintegral hbrace)
    have hvalue : ∀ t, parseValue fuel (v.plain ++ 125 :: rest) = some (v, t) ↔
        (∀ s ∈ v.strings, PlainString s) ∧ t = 125 :: rest :=
      fun t => hall _ List.mem_cons_self hintegral hlength (stops_cons (by decide) rest) hbrace
    have hclose : parseSeparator 125 (125 :: rest) = some (false, rest) := rfl
    have htext : plainMembers [(name, v)] ++ rest = 34 :: (name ++ 34 :: 58 :: (v.plain ++ 125 :: rest)) := by
      simp [plainMembers]
    have hstrings : memberStrings [(name, v)] = name :: v.strings := by simp [memberStrings]
    rw [htext, hstrings, parseMembers_iff, List.forall_mem_cons]
    constructor
    · rintro ⟨t, u, more, w, ht, hu, hmore, h⟩
      obtain ⟨hplain, rfl⟩ := (hname t).1 ht
      obtain ⟨hplains, rfl⟩ := (hvalue u).1 hu
      rw [hclose] at hmore
      cases hmore
      exact ⟨⟨hplain, hplains⟩, h.2⟩
    · rintro ⟨⟨hplain, hplains⟩, rfl⟩
      exact ⟨_, _, _, _, (hname _).2 ⟨hplain, rfl⟩, (hvalue _).2 ⟨hplains, rfl⟩, hclose, rfl, rfl⟩
  | cons next members ih =>
    obtain ⟨name', v'⟩ := next
    obtain ⟨fuel, rfl⟩ := Nat.exists_eq_succ_of_ne_zero (by omega : fuel ≠ 0)
    obtain ⟨hhead, htail⟩ := List.forall_mem_cons.1 hall
    have hhead : ReadsBack v := hhead
    rw [memberNumbers, List.forall_mem_append] at hnumbers
    simp only [plainMembers, List.length_append, List.length_cons] at hfuel
    have hbehind : PlainUpToQuote (44 :: (plainMembers ((name', v') :: members) ++ rest)) :=
      (plainUpToQuote_members hrest).cons (by decide)
    have hname : ∀ t, parseName (34 :: (name ++ 34 :: 58 :: (v.plain ++ 44 ::
        (plainMembers ((name', v') :: members) ++ rest)))) = some (name, t) ↔
        PlainString name ∧ t = v.plain ++ 44 :: (plainMembers ((name', v') :: members) ++ rest) :=
      fun t => parseName_iff (plainUpToQuote_plain hnumbers.1 hbehind)
    have hvalue : ∀ t, parseValue fuel (v.plain ++ 44 :: (plainMembers ((name', v') :: members) ++ rest)) =
        some (v, t) ↔
        (∀ s ∈ v.strings, PlainString s) ∧ t = 44 :: (plainMembers ((name', v') :: members) ++ rest) :=
      fun t => hhead hnumbers.1 (by omega) (stops_cons (by decide) _) hbehind
    have hothers : parseMembers fuel (plainMembers ((name', v') :: members) ++ rest) =
        some ((name', v') :: members, r) ↔
        (∀ s ∈ memberStrings ((name', v') :: members), PlainString s) ∧ r = rest := ih htail hnumbers.2 (by omega)
    have hcomma : parseSeparator 125 (44 :: (plainMembers ((name', v') :: members) ++ rest)) =
        some (true, plainMembers ((name', v') :: members) ++ rest) := rfl
    have htext : plainMembers ((name, v) :: (name', v') :: members) ++ rest =
        34 :: (name ++ 34 :: 58 :: (v.plain ++ 44 :: (plainMembers ((name', v') :: members) ++ rest))) := by
      simp [plainMembers]
    rw [htext, parseMembers_iff, memberStrings, List.forall_mem_cons, List.forall_mem_append]
    constructor
    · rintro ⟨t, u, more, w, ht, hu, hmore, h⟩
      obtain ⟨hplain, rfl⟩ := (hname t).1 ht
      obtain ⟨hplains, rfl⟩ := (hvalue u).1 hu
      rw [hcomma] at hmore
      cases hmore
      obtain ⟨hlater, rfl⟩ := hothers.1 h
      exact ⟨⟨hplain, hplains, hlater⟩, rfl⟩
    · rintro ⟨⟨hplain, hplains, hlater⟩, rfl⟩
      exact ⟨_, _, _, _, (hname _).2 ⟨hplain, rfl⟩, (hvalue _).2 ⟨hplains, rfl⟩, hcomma,
        hothers.2 ⟨hlater, rfl⟩⟩

/-- The first character says what kind of value follows. -/
theorem parseValue_cons (hc : isJsonSpace c = false) (t : Bytes) :
    parseValue (fuel + 1) (c :: t) =
      if c = 123 then
        if (skipBlank t).head? = some 125 then some (.object [], (skipBlank t).tail)
        else (parseMembers fuel t).map fun members => (.object members.1, members.2)
      else if c = 91 then
        if (skipBlank t).head? = some 93 then some (.array [], (skipBlank t).tail)
        else (parseElements fuel t).map fun elements => (.array elements.1, elements.2)
      else if c = 34 then (parseString t).map fun s => (.string s.1, s.2)
      else if bytes "null" <+: c :: t then some (.null, t.drop 3)
      else if bytes "true" <+: c :: t then some (.bool true, t.drop 3)
      else if bytes "false" <+: c :: t then some (.bool false, t.drop 4)
      else (scanNumber (c :: t)).map fun text => (.number text.1, text.2) := by
  rw [parseValue, skipBlank_cons hc]

/-- What is found is wrapped by a constructor. -/
private theorem map_found_iff {α β : Type} {o : Option (α × Bytes)} {f : α → β}
    (hf : ∀ a b, f a = f b → a = b) {a : α} :
    (o.map fun p => (f p.1, p.2)) = some (f a, r) ↔ o = some (a, r) := by
  rw [Option.map_eq_some_iff]
  constructor
  · rintro ⟨⟨found, t⟩, hfound, heq⟩
    obtain ⟨hsame, rfl⟩ := Prod.mk.inj heq
    obtain rfl : found = a := hf _ _ hsame
    exact hfound
  · rintro rfl
    exact ⟨_, rfl, rfl⟩

/-- A value without strings, of which the parser does not need more than the first character to know its kind. -/
theorem readsBack_scalar (hstrings : v.strings = []) (hread : v.Integral → ∀ fuel rest, Stops rest →
    parseValue (fuel + 1) (v.plain ++ rest) = some (v, rest)) : ReadsBack v := by
  intro hintegral fuel rest r hfuel hstop _
  obtain ⟨c, t, hhead, -⟩ := plain_head hintegral
  obtain ⟨fuel, rfl⟩ := Nat.exists_eq_succ_of_ne_zero (n := fuel) (by
    rw [hhead, List.length_cons] at hfuel
    omega)
  rw [hread hintegral fuel rest hstop, hstrings]
  constructor
  · rintro ⟨⟩
    exact ⟨List.forall_mem_nil _, rfl⟩
  · rintro ⟨-, rfl⟩
    rfl

theorem readsBack_number (text : Bytes) : ReadsBack (.number text) := by
  refine readsBack_scalar rfl fun hintegral fuel rest hstop => ?_
  obtain ⟨n, rfl⟩ := hintegral text List.mem_cons_self
  obtain ⟨c, t, hhead, hblank, -⟩ := plain_head hintegral
  have hplain : (Json.number (decimal n)).plain = decimal n := by rw [Json.plain]
  have hfirst : isDigit 10 c = true ∨ c = 45 := by
    rw [hplain] at hhead
    unfold decimal at hhead
    split at hhead
    · exact .inr (List.cons.inj hhead).1.symm
    · refine .inl (isDigit_of_mem_natDecimal (n := n.natAbs) ?_)
      rw [hhead]
      exact List.mem_cons_self
  have hne : ∀ d : UInt8, isDigit 10 d = false → d ≠ 45 → c ≠ d := by
    rintro d hd h45 rfl
    rcases hfirst with hdigit | h
    · rw [hd] at hdigit
      cases hdigit
    · exact h45 h
  have hnot : ∀ (d : UInt8) (w : Bytes), isDigit 10 d = false → d ≠ 45 → ¬d :: w <+: c :: (t ++ rest) :=
    fun d w hd h45 h => hne d hd h45 (List.cons_prefix_cons.1 h).1.symm
  have hnull : ¬bytes "null" <+: c :: (t ++ rest) := hnot 110 (bytes "ull") (by decide) (by decide)
  have htrue : ¬bytes "true" <+: c :: (t ++ rest) := hnot 116 (bytes "rue") (by decide) (by decide)
  have hfalse : ¬bytes "false" <+: c :: (t ++ rest) := hnot 102 (bytes "alse") (by decide) (by decide)
  have hnumber := scanNumber_decimal hstop n
  rw [← hplain, hhead, List.cons_append] at hnumber
  rw [hhead, List.cons_append, parseValue_cons hblank, if_neg (hne 123 (by decide) (by decide)),
    if_neg (hne 91 (by decide) (by decide)), if_neg (hne 34 (by decide) (by decide)),
    if_neg hnull, if_neg htrue, if_neg hfalse, hnumber, ← hhead, hplain]
  rfl

theorem readsBack_string (s : Bytes) : ReadsBack (.string s) := by
  intro _ fuel rest r hfuel hstop hrest
  simp only [Json.plain, List.length_cons] at hfuel
  obtain ⟨fuel, rfl⟩ := Nat.exists_eq_succ_of_ne_zero (n := fuel) (by omega)
  have htext : (Json.string s).plain ++ rest = 34 :: (s ++ 34 :: rest) := by simp [Json.plain]
  have hstrings : (Json.string s).strings = [s] := by rw [Json.strings]
  rw [htext, parseValue_cons (by decide), if_neg (by decide), if_neg (by decide), if_pos rfl, hstrings,
    List.forall_mem_singleton, ← parseString_iff hrest (hstop.head?_ne (by decide))]
  exact map_found_iff fun _ _ => Json.string.inj

theorem readsBack_array (hall : ∀ e ∈ elements, ReadsBack e) : ReadsBack (.array elements) := by
  intro hintegral fuel rest r hfuel hstop hrest
  simp only [Json.plain, List.length_cons] at hfuel
  obtain ⟨fuel, rfl⟩ := Nat.exists_eq_succ_of_ne_zero (n := fuel) (by omega)
  rw [Json.plain, List.cons_append, parseValue_cons (by decide), if_neg (by decide), if_pos rfl]
  cases elements with
  | nil =>
    have hclose : skipBlank (plainElements [] ++ rest) = 93 :: rest := rfl
    rw [hclose, List.head?_cons, if_pos rfl]
    constructor
    · rintro ⟨⟩
      exact ⟨fun s hs => (by cases hs), rfl⟩
    · rintro ⟨-, rfl⟩
      rfl
  | cons e elements =>
    have hothers : parseElements fuel (plainElements (e :: elements) ++ rest) = some (e :: elements, r) ↔
        (∀ s ∈ elementStrings (e :: elements), PlainString s) ∧ r = rest :=
      elements_read_back hall hintegral (by omega) hrest
    have hopen : (skipBlank (plainElements (e :: elements) ++ rest)).head? ≠ some 93 := by
      have he : e.Integral := fun text htext => hintegral text (mem_elementNumbers.2 ⟨e, List.mem_cons_self, htext⟩)
      obtain ⟨c, t, hhead, hblank, h93⟩ := plain_head he
      have hcons : ∃ u, plainElements (e :: elements) ++ rest = c :: u := by
        cases elements with
        | nil => exact ⟨_, by rw [plainElements, hhead]; rfl⟩
        | cons next elements => exact ⟨_, by rw [plainElements, hhead]; rfl⟩
      obtain ⟨u, hu⟩ := hcons
      rw [hu, skipBlank_cons hblank]
      exact fun heq => h93 (Option.some.inj heq)
    rw [if_neg hopen, Json.strings, ← hothers]
    exact map_found_iff fun _ _ => Json.array.inj

theorem readsBack_object (hall : ∀ m ∈ members, ReadsBack m.2) : ReadsBack (.object members) := by
  intro hintegral fuel rest r hfuel hstop hrest
  simp only [Json.plain, List.length_cons] at hfuel
  obtain ⟨fuel, rfl⟩ := Nat.exists_eq_succ_of_ne_zero (n := fuel) (by omega)
  rw [Json.plain, List.cons_append, parseValue_cons (by decide), if_pos rfl]
  cases members with
  | nil =>
    have hclose : skipBlank (plainMembers [] ++ rest) = 125 :: rest := rfl
    rw [hclose, List.head?_cons, if_pos rfl]
    constructor
    · rintro ⟨⟩
      exact ⟨fun s hs => (by cases hs), rfl⟩
    · rintro ⟨-, rfl⟩
      rfl
  | cons m members =>
    obtain ⟨name, v⟩ := m
    have hothers : parseMembers fuel (plainMembers ((name, v) :: members) ++ rest) =
      some ((name, v) :: members, r) ↔
        (∀ s ∈ memberStrings ((name, v) :: members), PlainString s) ∧ r = rest :=
      members_read_back hall hintegral (by omega) hrest
    have hopen : (skipBlank (plainMembers ((name, v) :: members) ++ rest)).head? ≠ some 125 := by
      cases members with
      | nil => exact fun heq => absurd (Option.some.inj heq) (by decide)
      | cons next members => exact fun heq => absurd (Option.some.inj heq) (by decide)
    rw [if_neg hopen, Json.strings, ← hothers]
    exact map_found_iff fun _ _ => Json.object.inj

theorem readsBack (v : Json) : ReadsBack v := by
  induction v using Json.induct with
  | null => exact readsBack_scalar rfl fun _ fuel rest _ => rfl
  | bool b =>
    cases b with
    | true => exact readsBack_scalar rfl fun _ fuel rest _ => rfl
    | false => exact readsBack_scalar rfl fun _ fuel rest _ => rfl
  | number text => exact readsBack_number text
  | string s => exact readsBack_string s
  | array elements ih => exact readsBack_array ih
  | object members ih => exact readsBack_object ih

end Values

/-- Without escaping, a value is read back exactly if its strings are plain. -/
theorem parseJson_plain_iff {v : Json} (h : v.Integral) :
    parseJson v.plain = some v ↔ ∀ s ∈ v.strings, PlainString s := by
  have hread : ∀ r, parseValue (2 * v.plain.length + 2) v.plain = some (v, r) ↔
      (∀ s ∈ v.strings, PlainString s) ∧ r = [] := by
    intro r
    have hnil := @readsBack v h (2 * v.plain.length + 2) [] r (Nat.le_add_right _ 2) (by simp [Stops])
      (by simp [PlainUpToQuote, Unescaped])
    rwa [List.append_nil] at hnil
  unfold parseJson
  rw [Option.map_eq_some_iff]
  constructor
  · rintro ⟨⟨value, r⟩, hvalue, rfl⟩
    exact ((hread r).1 (Option.filter_eq_some_iff.1 hvalue).1).1
  · intro hplain
    exact ⟨(v, []), Option.filter_eq_some_iff.2 ⟨(hread []).2 ⟨hplain, rfl⟩, rfl⟩, rfl⟩

end Text
