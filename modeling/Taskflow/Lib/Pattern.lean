import Taskflow.Lib.Text

/-!
# Searching text for a pattern

`std::regex_search` for the patterns that programs use to pick one value out of a text: a literal followed by a
captured run of characters.  The search tries every position from the left and takes the first one that matches.
It may give up on a long text (`Engine`); where no engine is named, every search is carried out.
-/

namespace Text

/-- The capture at the leftmost position where `literal` is followed by text that `capture` accepts. -/
def searchAfter (literal : Bytes) (capture : Bytes → Option Bytes) : Bytes → Option Bytes
  | [] => if literal = [] then capture [] else none
  | c :: rest =>
    match if literal <+: c :: rest then capture ((c :: rest).drop literal.length) else none with
    | some captured => some captured
    | none => searchAfter literal capture rest

/-- The captures of successive searches, each from the end of the match before it: `skip` bytes of the text
still belong to a match, and a match ends `close` bytes behind its capture. -/
def searchAll (literal : Bytes) (capture : Bytes → Option Bytes) (close : Nat) : Nat → Bytes → List Bytes
  | _, [] => []
  | skip + 1, _ :: rest => searchAll literal capture close skip rest
  | 0, c :: rest =>
    match if literal <+: c :: rest then capture ((c :: rest).drop literal.length) else none with
    | some captured =>
      captured :: searchAll literal capture close (literal.length + captured.length + close - 1) rest
    | none => searchAll literal capture close 0 rest

/-- Which searches are carried out: the member that is searched for, and the text.  On a long text
`std::regex_search` may throw `std::regex_error`, or use up the stack. -/
abbrev Engine := Bytes → Bytes → Bool

def tireless : Engine := fun _ _ => true

/-- What a search finds.  When it gives up, its function ends with an exception. -/
def search {α : Type} (engine : Engine) (name text : Bytes) (found : α) : Except StdException α :=
  if engine name text then .ok found else .error .runtimeError

@[simp] theorem search_tireless {α : Type} (name text : Bytes) (found : α) :
    search tireless name text found = .ok found := rfl

/-- One character. -/
def expect (c : UInt8) : Bytes → Option Bytes
  | [] => none
  | d :: rest => if d = c then some rest else none

/-- `\s*:\s*` -/
def spacedColon (rest : Bytes) : Option Bytes := (expect 58 (rest.dropWhile isSpace)).map (·.dropWhile isSpace)

/-- `([^"]*)"`: the text before the next quote. -/
def untilQuote (rest : Bytes) : Option Bytes :=
  if 34 ∈ rest then some (rest.takeWhile fun c => c ≠ 34) else none

/-- `([0-9]+)`: the digits at the head. -/
def leadingDigits (rest : Bytes) : Option Bytes :=
  let digits := rest.takeWhile (isDigit 10)
  if digits.isEmpty then none else some digits

/-- `([^"]+)"` -/
def untilQuoteNonempty (rest : Bytes) : Option Bytes := (untilQuote rest).filter fun captured => !captured.isEmpty

/-! ### Where a search stops -/

section Search

variable {literal pre rest captured : Bytes} {capture : Bytes → Option Bytes} {c : UInt8}

theorem searchAfter_here (hne : literal ≠ []) (h : capture rest = some captured) :
    searchAfter literal capture (literal ++ rest) = some captured := by
  cases literal with
  | nil => exact absurd rfl hne
  | cons c literal =>
    rw [List.cons_append, searchAfter, if_pos ⟨rest, rfl⟩]
    simp [h]

theorem searchAfter_next (h : ¬literal <+: c :: rest) :
    searchAfter literal capture (c :: rest) = searchAfter literal capture rest := by
  rw [searchAfter, if_neg h]

/-- The literal is there, but not what is to be captured behind it. -/
theorem searchAfter_retry (h : capture rest = none) :
    searchAfter (c :: literal) capture (c :: literal ++ rest) =
      searchAfter (c :: literal) capture (literal ++ rest) := by
  rw [List.cons_append, searchAfter, if_pos ⟨rest, rfl⟩]
  simp [h]

/-- Text without the first character of the literal. -/
theorem searchAfter_skip {first : UInt8} (h : first ∉ pre) :
    searchAfter (first :: literal) capture (pre ++ rest) = searchAfter (first :: literal) capture rest := by
  induction pre with
  | nil => rfl
  | cons d pre ih =>
    rw [List.mem_cons, not_or] at h
    rw [List.cons_append, searchAfter_next, ih h.2]
    rintro ⟨t, ht⟩
    exact h.1 (List.cons.inj ht).1

/-- Whatever is found was captured somewhere. -/
theorem searchAfter_captured {s : Bytes} (h : searchAfter literal capture s = some captured) :
    ∃ rest, capture rest = some captured := by
  induction s with
  | nil =>
    rw [searchAfter] at h
    split at h
    · exact ⟨[], h⟩
    · cases h
  | cons c s ih =>
    rw [searchAfter] at h
    split at h
    · rename_i found hfound
      split at hfound
      · exact ⟨_, hfound.trans h⟩
      · cases hfound
    · exact ih h

/-- What still belongs to a match is passed over. -/
theorem searchAll_skip (literal : Bytes) (capture : Bytes → Option Bytes) (close : Nat) (pre rest : Bytes) :
    searchAll literal capture close pre.length (pre ++ rest) = searchAll literal capture close 0 rest := by
  induction pre with
  | nil => rfl
  | cons c pre ih => exact ih

/-- A match, and the searches behind it. -/
theorem searchAll_here {closing : Bytes} (hne : literal ≠ [])
    (h : capture (captured ++ (closing ++ rest)) = some captured) :
    searchAll literal capture closing.length 0 (literal ++ (captured ++ (closing ++ rest))) =
      captured :: searchAll literal capture closing.length 0 rest := by
  cases literal with
  | nil => exact absurd rfl hne
  | cons c literal =>
    have hrest := searchAll_skip (c :: literal) capture closing.length (literal ++ captured ++ closing) rest
    have hlength : (c :: literal).length + captured.length + closing.length - 1 =
        (literal ++ captured ++ closing).length := by
      simp only [List.length_cons, List.length_append]
      omega
    simp only [List.append_assoc] at hrest hlength
    rw [List.cons_append, searchAll, if_pos ⟨_, rfl⟩, List.length_cons, List.drop_succ_cons, List.drop_left, h]
    dsimp only
    rw [← List.length_cons (a := c), hlength, hrest]

/-- White space and a colon are not there. -/
theorem spacedColon_eq_none {before : Bytes} (hbefore : ∀ c ∈ before, isSpace c = true) (hstop : isSpace c = false)
    (hcolon : c ≠ 58) (rest : Bytes) : spacedColon (before ++ c :: rest) = none := by
  rw [spacedColon, List.dropWhile_append_of_pos hbefore, List.dropWhile_cons_of_neg (by simp [hstop])]
  simp [expect, hcolon]

theorem untilQuote_append (h : 34 ∉ captured) (rest : Bytes) :
    untilQuote (captured ++ 34 :: rest) = some captured := by
  have hplain : ∀ c ∈ captured, decide (c ≠ 34) = true := by
    intro c hc
    rw [decide_eq_true_eq]
    rintro rfl
    exact h hc
  rw [untilQuote, if_pos (by simp), List.takeWhile_append_of_pos hplain]
  simp

/-- A name with its quotes can stand at a quoted text only if it is this text. -/
theorem prefix_quoted_iff {name s more : Bytes} (hname : 34 ∉ name) (hs : 34 ∉ s) :
    34 :: (name ++ 34 :: more) <+: 34 :: (s ++ 34 :: rest) ↔ s = name ∧ more <+: rest := by
  constructor
  · rintro ⟨t, ht⟩
    have heq : name ++ 34 :: (more ++ t) = s ++ 34 :: rest := by simpa using ht
    have hfound := untilQuote_append hname (more ++ t)
    rw [heq, untilQuote_append hs] at hfound
    obtain rfl := Option.some.inj hfound
    exact ⟨rfl, t, (List.cons.inj (List.append_cancel_left heq)).2⟩
  · rintro ⟨rfl, t, rfl⟩
    exact ⟨t, by simp⟩

/-- A quoted text that is not what is searched, and not at its closing quote either. -/
theorem searchAfter_quoted {name s more : Bytes} (hname : 34 ∉ name) (hs : 34 ∉ s)
    (hopen : s = name → more <+: rest → capture (rest.drop more.length) = none)
    (hclose : ¬34 :: (name ++ 34 :: more) <+: 34 :: rest) :
    searchAfter (34 :: (name ++ 34 :: more)) capture (34 :: (s ++ 34 :: rest)) =
      searchAfter (34 :: (name ++ 34 :: more)) capture rest := by
  have htail : searchAfter (34 :: (name ++ 34 :: more)) capture (s ++ 34 :: rest) =
      searchAfter (34 :: (name ++ 34 :: more)) capture rest := by
    rw [searchAfter_skip hs, searchAfter_next hclose]
  by_cases hhere : s = name ∧ more <+: rest
  · obtain ⟨rfl, behind, rfl⟩ := hhere
    have hnone := hopen rfl ⟨behind, rfl⟩
    rw [List.drop_left] at hnone
    have hretry := @searchAfter_retry (s ++ 34 :: more) behind capture 34 hnone
    rw [List.cons_append, List.append_assoc, List.cons_append] at hretry
    rw [hretry, htail]
  · rw [searchAfter_next fun h => hhere ((prefix_quoted_iff hname hs).1 h), htail]

theorem leadingDigits_spec (h : leadingDigits rest = some captured) :
    captured ≠ [] ∧ ∀ c ∈ captured, isDigit 10 c = true := by
  unfold leadingDigits at h
  dsimp only at h
  split at h
  · cases h
  · rename_i hne
    cases h
    exact ⟨by simpa using hne, fun c hc => List.mem_takeWhile_imp hc⟩

/-- The digits of a number, up to a character that is not one. -/
theorem leadingDigits_append (n : Nat) (hstop : isDigit 10 c = false) (rest : Bytes) :
    leadingDigits (natDecimal n ++ c :: rest) = some (natDecimal n) := by
  have hdigits : (natDecimal n ++ c :: rest).takeWhile (isDigit 10) = natDecimal n := by
    rw [List.takeWhile_append_of_pos fun d hd => isDigit_of_mem_natDecimal hd]
    simp [hstop]
  unfold leadingDigits
  rw [hdigits, if_neg (by simpa using natDecimal_ne_nil n)]

theorem spacedColon_append {before after : Bytes} (hbefore : ∀ c ∈ before, isSpace c = true)
    (hafter : ∀ c ∈ after, isSpace c = true) (hstop : isSpace c = false) (rest : Bytes) :
    spacedColon (before ++ 58 :: (after ++ c :: rest)) = some (c :: rest) := by
  have hcolon : isSpace 58 = false := by decide
  rw [spacedColon, List.dropWhile_append_of_pos hbefore, List.dropWhile_cons_of_neg (by simp [hcolon])]
  simp only [expect, if_true, Option.map_some]
  rw [List.dropWhile_append_of_pos hafter, List.dropWhile_cons_of_neg (by simp [hstop])]

end Search

end Text
