import Taskflow.Lib.Pattern

/-!
# JSON

A parser for JSON texts (RFC 8259) over bytes, and a writer that escapes nothing, as programs have it that put a
text together by hand.  Numbers are kept as they are written, and an object keeps its members in their order, so
nothing that is in the text is lost.  `parseJson_plain_iff`: the writer is inverted by the parser exactly on the
values whose strings need no escape.
-/

namespace Text

inductive Json where
  | null
  | bool (b : Bool)
  | number (text : Bytes)
  | string (s : Bytes)
  | array (elements : List Json)
  | object (members : List (Bytes × Json))

/-! ### UTF-8 -/

/-- Where a reader is: between two characters, or in one that needs one, two or three more bytes, or behind a first
byte that limits the second one. -/
inductive Utf8State where
  | start
  | one
  | two
  | three
  | afterE0
  | afterED
  | afterF0
  | afterF4
  deriving DecidableEq

def Utf8State.next (state : Utf8State) (c : UInt8) : Option Utf8State :=
  match state with
  | start =>
    if c < 0x80 then some start
    else if 0xC2 ≤ c ∧ c ≤ 0xDF then some one
    else if c = 0xE0 then some afterE0
    else if c = 0xED then some afterED
    else if 0xE1 ≤ c ∧ c ≤ 0xEF then some two
    else if c = 0xF0 then some afterF0
    else if 0xF1 ≤ c ∧ c ≤ 0xF3 then some three
    else if c = 0xF4 then some afterF4
    else none
  | one => if 0x80 ≤ c ∧ c ≤ 0xBF then some start else none
  | two => if 0x80 ≤ c ∧ c ≤ 0xBF then some one else none
  | three => if 0x80 ≤ c ∧ c ≤ 0xBF then some two else none
  | afterE0 => if 0xA0 ≤ c ∧ c ≤ 0xBF then some one else none
  | afterED => if 0x80 ≤ c ∧ c ≤ 0x9F then some one else none
  | afterF0 => if 0x90 ≤ c ∧ c ≤ 0xBF then some two else none
  | afterF4 => if 0x80 ≤ c ∧ c ≤ 0x8F then some two else none

def isUtf8 (s : Bytes) : Bool := s.foldlM Utf8State.next .start == some .start

/-- The bytes of a code point. -/
def utf8Encode (n : Nat) : Bytes :=
  if n < 0x80 then [UInt8.ofNat n]
  else if n < 0x800 then [UInt8.ofNat (0xC0 + n / 64), UInt8.ofNat (0x80 + n % 64)]
  else if n < 0x10000 then
    [UInt8.ofNat (0xE0 + n / 4096), UInt8.ofNat (0x80 + n / 64 % 64), UInt8.ofNat (0x80 + n % 64)]
  else
    [UInt8.ofNat (0xF0 + n / 262144), UInt8.ofNat (0x80 + n / 4096 % 64), UInt8.ofNat (0x80 + n / 64 % 64),
      UInt8.ofNat (0x80 + n % 64)]

/-! ### Strings -/

/-- Four hexadecimal digits. -/
def readHex4 (s : Bytes) : Option (Nat × Bytes) :=
  let digits := s.take 4
  if digits.length = 4 ∧ digits.all (isDigit 16) then some (digitsValue 16 digits, s.drop 4) else none

/-- The second half of a surrogate pair behind the first one: the code point of both. -/
def readLowSurrogate (high : Nat) (s : Bytes) : Option (Nat × Bytes) :=
  if 0xD800 ≤ high ∧ high < 0xDC00 ∧ s.take 2 = [92, 117] then
    (readHex4 (s.drop 2)).bind fun low =>
      if 0xDC00 ≤ low.1 ∧ low.1 < 0xE000 then some (0x10000 + (high - 0xD800) * 1024 + (low.1 - 0xDC00), low.2)
      else none
  else none

/-- The escapes of one letter. -/
def letterEscape (c : UInt8) : Option UInt8 :=
  if c = 34 ∨ c = 92 ∨ c = 47 then some c
  else if c = 98 then some 8
  else if c = 102 then some 12
  else if c = 110 then some 10
  else if c = 114 then some 13
  else if c = 116 then some 9
  else none

/-- What stands behind a backslash. -/
def readEscape : Bytes → Option (Bytes × Bytes)
  | [] => none
  | c :: rest =>
    if c = 117 then
      (readHex4 rest).map fun high =>
        let codePoint := (readLowSurrogate high.1 high.2).getD high
        (utf8Encode codePoint.1, codePoint.2)
    else (letterEscape c).map fun d => ([d], rest)

/-- The text of a string up to its closing quote, behind the opening one, with `fuel` for its characters. -/
def scanString : Nat → Bytes → Option (Bytes × Bytes)
  | 0, _ => none
  | _ + 1, [] => none
  | fuel + 1, c :: rest =>
    if c = 34 then some ([], rest)
    else if c = 92 then
      (readEscape rest).bind fun escape =>
        (scanString fuel escape.2).map fun scanned => (escape.1 ++ scanned.1, scanned.2)
    else if c < 32 then none
    else (scanString fuel rest).map fun scanned => (c :: scanned.1, scanned.2)

def parseString (s : Bytes) : Option (Bytes × Bytes) :=
  (scanString (s.length + 1) s).filter fun scanned => isUtf8 (s.take (s.length - scanned.2.length))

/-! ### Numbers -/

def scanFraction (s : Bytes) : Option (Bytes × Bytes) :=
  if s.head? = some 46 then
    let digits := s.tail.takeWhile (isDigit 10)
    if digits.isEmpty then none else some (46 :: digits, s.tail.dropWhile (isDigit 10))
  else some ([], s)

def scanExponent (s : Bytes) : Option (Bytes × Bytes) :=
  if s.head? = some 101 ∨ s.head? = some 69 then
    let signed := s.tail.head? = some 43 ∨ s.tail.head? = some 45
    let sign := s.take (if signed then 2 else 1)
    let rest := s.drop (if signed then 2 else 1)
    let digits := rest.takeWhile (isDigit 10)
    if digits.isEmpty then none else some (sign ++ digits, rest.dropWhile (isDigit 10))
  else some ([], s)

/-- A number, as it is written. -/
def scanNumber (s : Bytes) : Option (Bytes × Bytes) :=
  let sign := if s.head? = some 45 then [45] else []
  let unsigned := if s.head? = some 45 then s.tail else s
  let digits := unsigned.takeWhile (isDigit 10)
  -- no zero stands in front of other digits
  if digits.isEmpty ∨ (digits.head? = some 48 ∧ digits ≠ [48]) then none
  else
    (scanFraction (unsigned.dropWhile (isDigit 10))).bind fun fraction =>
      (scanExponent fraction.2).map fun exponent => (sign ++ digits ++ fraction.1 ++ exponent.1, exponent.2)

/-! ### Values -/

def skipBlank (s : Bytes) : Bytes := s.dropWhile isJsonSpace

/-- A name, and the colon behind it. -/
def parseName (s : Bytes) : Option (Bytes × Bytes) :=
  ((expect 34 (skipBlank s)).bind parseString).bind fun name =>
    (expect 58 (skipBlank name.2)).map fun rest => (name.1, rest)

/-- Behind an element: whether a comma or the closing bracket follows. -/
def parseSeparator (close : UInt8) (s : Bytes) : Option (Bool × Bytes) :=
  match skipBlank s with
  | [] => none
  | c :: rest => if c = 44 then some (true, rest) else if c = close then some (false, rest) else none

mutual

def parseValue : Nat → Bytes → Option (Json × Bytes)
  | 0, _ => none
  | fuel + 1, s =>
    match skipBlank s with
    | [] => none
    | c :: rest =>
      if c = 123 then
        if (skipBlank rest).head? = some 125 then some (.object [], (skipBlank rest).tail)
        else (parseMembers fuel rest).map fun members => (.object members.1, members.2)
      else if c = 91 then
        if (skipBlank rest).head? = some 93 then some (.array [], (skipBlank rest).tail)
        else (parseElements fuel rest).map fun elements => (.array elements.1, elements.2)
      else if c = 34 then (parseString rest).map fun s => (.string s.1, s.2)
      else if bytes "null" <+: c :: rest then some (.null, rest.drop 3)
      else if bytes "true" <+: c :: rest then some (.bool true, rest.drop 3)
      else if bytes "false" <+: c :: rest then some (.bool false, rest.drop 4)
      else (scanNumber (c :: rest)).map fun text => (.number text.1, text.2)

def parseElements : Nat → Bytes → Option (List Json × Bytes)
  | 0, _ => none
  | fuel + 1, s =>
    (parseValue fuel s).bind fun value => (parseSeparator 93 value.2).bind fun more =>
      if more.1 then (parseElements fuel more.2).map fun elements => (value.1 :: elements.1, elements.2)
      else some ([value.1], more.2)

def parseMembers : Nat → Bytes → Option (List (Bytes × Json) × Bytes)
  | 0, _ => none
  | fuel + 1, s =>
    (parseName s).bind fun name => (parseValue fuel name.2).bind fun value =>
      (parseSeparator 125 value.2).bind fun more =>
        if more.1 then (parseMembers fuel more.2).map fun members => ((name.1, value.1) :: members.1, members.2)
        else some ([(name.1, value.1)], more.2)

end

/-- A whole text.  No value nests deeper than its text is long. -/
def parseJson (s : Bytes) : Option Json :=
  ((parseValue (2 * s.length + 2) s).filter fun value => (skipBlank value.2).isEmpty).map (·.1)

/-! ### Writing -/

mutual

/-- The text of a value, with its strings as they are. -/
def Json.plain : Json → Bytes
  | .null => bytes "null"
  | .bool b => if b then bytes "true" else bytes "false"
  | .number text => text
  | .string s => 34 :: (s ++ [34])
  | .array elements => 91 :: plainElements elements
  | .object members => 123 :: plainMembers members

def plainElements : List Json → Bytes
  | [] => [93]
  | [e] => e.plain ++ [93]
  | e :: next :: elements => e.plain ++ 44 :: plainElements (next :: elements)

def plainMembers : List (Bytes × Json) → Bytes
  | [] => [125]
  | [(name, value)] => 34 :: (name ++ 34 :: 58 :: (value.plain ++ [125]))
  | (name, value) :: next :: members =>
    34 :: (name ++ 34 :: 58 :: (value.plain ++ 44 :: plainMembers (next :: members)))

end

mutual

/-- All strings in a value, also the names of members. -/
def Json.strings : Json → List Bytes
  | .string s => [s]
  | .array elements => elementStrings elements
  | .object members => memberStrings members
  | _ => []

def elementStrings : List Json → List Bytes
  | [] => []
  | e :: elements => e.strings ++ elementStrings elements

def memberStrings : List (Bytes × Json) → List Bytes
  | [] => []
  | (name, value) :: members => name :: (value.strings ++ memberStrings members)

end

mutual

/-- All numbers in a value. -/
def Json.numbers : Json → List Bytes
  | .number text => [text]
  | .array elements => elementNumbers elements
  | .object members => memberNumbers members
  | _ => []

def elementNumbers : List Json → List Bytes
  | [] => []
  | e :: elements => e.numbers ++ elementNumbers elements

def memberNumbers : List (Bytes × Json) → List Bytes
  | [] => []
  | (_, value) :: members => value.numbers ++ memberNumbers members

end

/-- No quote, backslash or control character. -/
def Unescaped (s : Bytes) : Prop := ∀ c ∈ s, c ≠ 34 ∧ c ≠ 92 ∧ 32 ≤ c

instance (s : Bytes) : Decidable (Unescaped s) := List.decidableBAll (fun c => c ≠ 34 ∧ c ≠ 92 ∧ 32 ≤ c) s

/-- A string can be written as it is: nothing in it has to be escaped, and it is UTF-8. -/
def PlainString (s : Bytes) : Prop := Unescaped s ∧ isUtf8 s = true

instance (s : Bytes) : Decidable (PlainString s) := inferInstanceAs (Decidable (Unescaped s ∧ isUtf8 s = true))

/-- All numbers are integers as `std::to_string` writes them. -/
def Json.Integral (v : Json) : Prop := ∀ text ∈ v.numbers, ∃ n, text = decimal n

/-! ### Scanning a string -/

section Strings

variable {s t rest out decoded : Bytes} {n fuel : Nat} {c : UInt8}

theorem utf8Encode_length (n : Nat) : (utf8Encode n).length ≤ 4 := by
  unfold utf8Encode
  split
  · simp
  · split
    · simp
    · split
      · simp
      · simp

theorem readHex4_spec (h : readHex4 s = some (n, rest)) : ∃ raw, s = raw ++ rest ∧
    raw.length = 4 ∧ 34 ∉ raw := by
  unfold readHex4 at h
  dsimp only at h
  split at h
  · rename_i hdigits
    cases h
    refine ⟨s.take 4, (List.take_append_drop 4 s).symm, hdigits.1, ?_⟩
    intro hquote
    exact absurd (List.all_eq_true.1 hdigits.2 34 hquote) (by decide)
  · cases h

theorem readLowSurrogate_spec {high : Nat} (h : readLowSurrogate high s = some (n, rest)) :
    ∃ raw, s = raw ++ rest ∧ 34 ∉ raw := by
  unfold readLowSurrogate at h
  split at h
  · rename_i hhigh
    obtain ⟨low, hread, h⟩ := Option.bind_eq_some_iff.1 h
    split at h
    · obtain ⟨-, rfl⟩ := Prod.mk.inj (Option.some.inj h)
      obtain ⟨raw, hraw, -, hplain⟩ := readHex4_spec hread
      refine ⟨[92, 117] ++ raw, ?_, ?_⟩
      · rw [List.append_assoc, ← hraw, ← hhigh.2.2, List.take_append_drop]
      · simp [hplain]
    · cases h
  · cases h

/-- An escape is not shorter than what it stands for, and the only quote that it may have is its letter. -/
theorem readEscape_spec (h : readEscape s = some (out, rest)) :
    ∃ raw, s = raw ++ rest ∧ out.length ≤ raw.length ∧ (raw = [34] ∧ out = [34] ∨ 34 ∉ raw) := by
  cases s with
  | nil => cases h
  | cons c s =>
    rw [readEscape] at h
    by_cases hu : c = 117
    · rw [if_pos hu] at h
      obtain ⟨⟨n, rest'⟩, hread, heq⟩ := Option.map_eq_some_iff.1 h
      obtain ⟨raw, rfl, hlength, hplain⟩ := readHex4_spec hread
      have hc : c ≠ 34 := by
        rw [hu]
        decide
      obtain ⟨rfl, rfl⟩ := Prod.mk.inj heq
      cases hlow : readLowSurrogate n rest' with
      | none =>
        refine ⟨c :: raw, rfl, ?_, .inr (by simp [hc.symm, hplain])⟩
        rw [List.length_cons, hlength]
        exact (utf8Encode_length _).trans (Nat.le_succ 4)
      | some low =>
        obtain ⟨raw', hraw', hplain'⟩ := readLowSurrogate_spec hlow
        refine ⟨c :: (raw ++ raw'), by simp [hraw'], ?_, .inr (by simp [hc.symm, hplain, hplain'])⟩
        have hout := utf8Encode_length low.1
        rw [List.length_cons, List.length_append, hlength]
        dsimp only [Option.getD_some]
        omega
    · rw [if_neg hu] at h
      obtain ⟨d, hd, heq⟩ := Option.map_eq_some_iff.1 h
      cases heq
      refine ⟨[c], rfl, le_rfl, ?_⟩
      by_cases hc : c = 34
      · left
        subst hc
        cases hd
        exact ⟨rfl, rfl⟩
      · exact .inr (by simpa using Ne.symm hc)

/-- Every string ends with a quote. -/
theorem quote_mem_of_scanString (h : scanString fuel s = some (decoded, rest)) : 34 ∈ s := by
  induction fuel generalizing s decoded with
  | zero => cases h
  | succ fuel ih =>
    cases s with
    | nil => cases h
    | cons c s =>
      unfold scanString at h
      split at h
      · rename_i hc
        rw [hc]
        exact List.mem_cons_self
      · split at h
        · obtain ⟨⟨out, s'⟩, hread, h⟩ := Option.bind_eq_some_iff.1 h
          obtain ⟨⟨decoded', rest'⟩, hscan, heq⟩ := Option.map_eq_some_iff.1 h
          cases heq
          obtain ⟨raw, rfl, -⟩ := readEscape_spec hread
          exact List.mem_cons_of_mem _ (List.mem_append_right _ (ih hscan))
        · split at h
          · cases h
          · obtain ⟨⟨decoded', rest'⟩, hscan, heq⟩ := Option.map_eq_some_iff.1 h
            cases heq
            exact List.mem_cons_of_mem _ (ih hscan)

/-- Text without anything to escape is read as it is. -/
theorem scanString_plain (h : Unescaped s) (hfuel : s.length < fuel) (rest : Bytes) :
    scanString fuel (s ++ 34 :: rest) = some (s, rest) := by
  induction s generalizing fuel with
  | nil =>
    cases fuel with
    | zero => cases hfuel
    | succ fuel => rfl
  | cons c s ih =>
    cases fuel with
    | zero => cases hfuel
    | succ fuel =>
      obtain ⟨h34, h92, hcontrol⟩ := h c List.mem_cons_self
      have hrest := ih (fun d hd => h d (List.mem_cons_of_mem _ hd)) (Nat.lt_of_succ_lt_succ hfuel)
      rw [List.cons_append, scanString, if_neg h34, if_neg h92, if_neg (UInt8.not_lt.2 hcontrol), hrest]
      rfl

/-- Whatever the fuel was, such text is all that is scanned. -/
theorem scanString_behind {more r : Bytes} (h : Unescaped s)
    (hscan : scanString fuel (s ++ 34 :: more) = some (decoded, r)) : decoded = s := by
  induction s generalizing fuel decoded with
  | nil =>
    cases fuel with
    | zero => cases hscan
    | succ fuel =>
      cases hscan
      rfl
  | cons c s ih =>
    cases fuel with
    | zero => cases hscan
    | succ fuel =>
      obtain ⟨h34, h92, hcontrol⟩ := h c List.mem_cons_self
      rw [List.cons_append, scanString, if_neg h34, if_neg h92, if_neg (UInt8.not_lt.2 hcontrol)] at hscan
      obtain ⟨scanned, hrest, heq⟩ := Option.map_eq_some_iff.1 hscan
      cases heq
      rw [ih (fun d hd => h d (List.mem_cons_of_mem _ hd)) hrest]

/-- A string is put in front of a quote, and the whole is scanned.  The scan ends too early, or at this quote, when
there was nothing to escape, or it goes past it, when the string ends with a backslash. -/
theorem scanString_cases {a r : Bytes} (h : scanString fuel (a ++ 34 :: rest) = some (decoded, r)) :
    decoded.length < a.length ∨ (decoded = a ∧ Unescaped a ∧ r = rest) ∨
      ∃ before behind fuel', decoded = before ++ 34 :: behind ∧ a.getLast? = some 92 ∧
        scanString fuel' rest = some (behind, r) := by
  induction fuel generalizing a decoded with
  | zero => cases h
  | succ fuel ih =>
    cases a with
    | nil =>
      cases h
      exact .inr (.inl ⟨rfl, fun c hc => (by cases hc), rfl⟩)
    | cons c a =>
      have hlast : a.getLast? = some 92 → (c :: a).getLast? = some 92 := by
        intro hlast
        rw [List.getLast?_cons, hlast]
        rfl
      rw [List.cons_append] at h
      unfold scanString at h
      split at h
      · -- a quote in the string ends it
        cases h
        exact .inl (Nat.succ_pos _)
      · rename_i h34
        split at h
        · rename_i h92
          obtain ⟨⟨out, t⟩, hread, h⟩ := Option.bind_eq_some_iff.1 h
          obtain ⟨⟨decoded', r'⟩, hscan, heq⟩ := Option.map_eq_some_iff.1 h
          cases heq
          dsimp only at hscan ⊢
          obtain ⟨raw, hraw, hlength, hquote⟩ := readEscape_spec hread
          rcases List.append_eq_append_iff.1 hraw with ⟨more, hraw, hrest⟩ | ⟨more, ha, ht⟩
          · cases more with
            | nil =>
              rw [List.append_nil] at hraw
              change 34 :: rest = t at hrest
              subst hraw
              left
              rw [← hrest] at hscan
              cases fuel with
              | zero => cases hscan
              | succ fuel =>
                cases hscan
                rw [List.append_nil, List.length_cons]
                omega
            | cons d more =>
              -- the backslash is the last character, and takes the quote
              obtain ⟨rfl, hbehind⟩ := List.cons.inj hrest
              rcases hquote with ⟨hraw', rfl⟩ | hquote
              · rw [hraw'] at hraw
                obtain ⟨rfl, hmore⟩ : a = [] ∧ more = [] := by
                  cases a with
                  | nil => exact ⟨rfl, (List.cons.inj hraw).2.symm⟩
                  | cons e a =>
                    have hlen := congrArg List.length hraw
                    simp at hlen
                subst hmore
                change rest = t at hbehind
                subst hbehind
                exact .inr (.inr ⟨[], decoded', fuel, rfl, by rw [h92]; rfl, hscan⟩)
              · rw [hraw] at hquote
                exact absurd (by simp) hquote
          · subst ha
            rw [ht] at hscan
            rcases ih hscan with hless | ⟨rfl, -, -⟩ | ⟨before, behind, fuel', rfl, hlast', hbehind⟩
            · left
              rw [List.length_append, List.length_cons, List.length_append]
              omega
            · left
              rw [List.length_append, List.length_cons, List.length_append]
              omega
            · refine .inr (.inr ⟨out ++ before, behind, fuel', by simp, hlast ?_, hbehind⟩)
              rw [List.getLast?_append, hlast']
              rfl
        · rename_i h92
          split at h
          · cases h
          · rename_i hcontrol
            obtain ⟨⟨decoded', r'⟩, hscan, heq⟩ := Option.map_eq_some_iff.1 h
            cases heq
            rcases ih hscan with hless | ⟨rfl, hplain, rfl⟩ | ⟨before, behind, fuel', rfl, hlast', hbehind⟩
            · exact .inl (Nat.succ_lt_succ hless)
            · refine .inr (.inl ⟨rfl, ?_, rfl⟩)
              unfold Unescaped
              rw [List.forall_mem_cons]
              exact ⟨⟨h34, h92, UInt8.not_lt.1 hcontrol⟩, hplain⟩
            · exact .inr (.inr ⟨c :: before, behind, fuel', rfl, hlast hlast', hbehind⟩)

/-- Behind a string there is no backslash and no control character up to the next quote. -/
def PlainUpToQuote (rest : Bytes) : Prop := Unescaped (rest.takeWhile fun c => c ≠ 34)

theorem plainUpToQuote_quote (rest : Bytes) : PlainUpToQuote (34 :: rest) := by
  intro c hc
  cases hc

theorem PlainUpToQuote.append (h : PlainUpToQuote rest) (hs : Unescaped s) : PlainUpToQuote (s ++ rest) := by
  unfold PlainUpToQuote
  rw [List.takeWhile_append_of_pos fun c hc => decide_eq_true (hs c hc).1]
  intro c hc
  rcases List.mem_append.1 hc with hc | hc
  · exact hs c hc
  · exact h c hc

theorem PlainUpToQuote.cons (h : PlainUpToQuote rest) (hc : c ≠ 34 ∧ c ≠ 92 ∧ 32 ≤ c) :
    PlainUpToQuote (c :: rest) :=
  @PlainUpToQuote.append [c] rest h (List.forall_mem_singleton.2 hc)

/-- A character is complete in front of one of ASCII. -/
theorem isUtf8_append_ascii (hc : c < 0x80) (s : Bytes) : isUtf8 (s ++ [c]) = isUtf8 s := by
  have hge : ∀ low : UInt8, 0x80 ≤ low → ¬low ≤ c := fun low hlow h =>
    UInt8.not_lt.2 (UInt8.le_trans hlow h) hc
  unfold isUtf8
  rw [List.foldlM_append]
  cases s.foldlM Utf8State.next .start with
  | none => rfl
  | some state =>
    change ((state.next c >>= fun state => some state) == some .start) = (some state == some .start)
    cases state with
    | start => simp [Utf8State.next, hc]
    | one => simp [Utf8State.next, hge]
    | two => simp [Utf8State.next, hge]
    | three => simp [Utf8State.next, hge]
    | afterE0 => simp [Utf8State.next, hge]
    | afterED => simp [Utf8State.next, hge]
    | afterF0 => simp [Utf8State.next, hge]
    | afterF4 => simp [Utf8State.next, hge]

theorem isUtf8_of_ascii (h : ∀ c ∈ s, c < 0x80) : isUtf8 s = true := by
  induction s using List.reverseRecOn with
  | nil => rfl
  | append_singleton s c ih =>
    rw [isUtf8_append_ascii (h c (by simp))]
    exact ih fun d hd => h d (List.mem_append_left _ hd)

/-- A string that is written as it is comes back exactly when it is plain. -/
theorem parseString_iff {a r : Bytes} (hrest : PlainUpToQuote rest) (hne : rest.head? ≠ some 34) :
    parseString (a ++ 34 :: rest) = some (a, r) ↔ PlainString a ∧ r = rest := by
  have hutf8 : isUtf8 ((a ++ 34 :: rest).take ((a ++ 34 :: rest).length - rest.length)) = isUtf8 a := by
    have hlength : (a ++ 34 :: rest).length - rest.length = (a ++ [34]).length := by
      simp only [List.length_append, List.length_cons, List.length_nil]
      omega
    have hsplit : a ++ 34 :: rest = a ++ [34] ++ rest := List.append_cons a 34 rest
    rw [hlength, hsplit, List.take_left]
    exact isUtf8_append_ascii (by decide) a
  unfold parseString
  rw [Option.filter_eq_some_iff]
  constructor
  · rintro ⟨hscan, hvalid⟩
    rcases scanString_cases hscan with hless | ⟨-, hplain, rfl⟩ |
      ⟨before, behind, fuel, hdecoded, hlast, hbehind⟩
    · exact absurd hless (lt_irrefl _)
    · dsimp only at hvalid
      rw [hutf8] at hvalid
      exact ⟨⟨hplain, hvalid⟩, rfl⟩
    · -- the string would end with what follows it up to the next quote, which is no backslash
      exfalso
      obtain ⟨between, more, hsplit, hquote⟩ := List.eq_append_cons_of_mem (quote_mem_of_scanString hbehind)
      have hbetween : Unescaped between := by
        intro d hd
        refine hrest d ?_
        have hall : ∀ e ∈ between, decide (e ≠ 34) = true := by
          intro e he
          rw [decide_eq_true_eq]
          rintro rfl
          exact hquote he
        rw [hsplit, List.takeWhile_append_of_pos hall]
        exact List.mem_append_left _ hd
      rw [hsplit] at hbehind
      obtain rfl := scanString_behind hbetween hbehind
      cases hb : behind.getLast? with
      | none =>
        rw [List.getLast?_eq_none_iff] at hb
        rw [hsplit, hb] at hne
        exact hne rfl
      | some d =>
        rw [hdecoded, List.getLast?_append, List.getLast?_cons, hb] at hlast
        have hd : d = 92 := by simpa using hlast
        exact (hbetween d (List.mem_of_getLast? hb)).2.1 hd
  · rintro ⟨hplain, rfl⟩
    refine ⟨scanString_plain hplain.1 ?_ _, ?_⟩
    · rw [List.length_append]
      omega
    · dsimp only
      rw [hutf8]
      exact hplain.2

end Strings

end Text
