import Taskflow.Lib.Text

/-!
# Reading a text stream by lines and words

What programs read a protocol's text with: `std::getline`, which takes everything before the next newline or
another delimiter, `>>` into a string, which skips white space and takes the word behind it, and `find` of one
character.  Key facts: a line that was written with its newline is read back with any text behind it
(`getline_append`), and so is a word in front of a blank (`extractWord_append`); what was joined by a character
that the first part does not have is split there (`splitFirst_append`).
-/

namespace Text

/-- `std::getline`: the line and what is left of the stream; `none` when nothing is left to read. -/
def getline (stream : Bytes) : Option (Bytes × Bytes) :=
  if stream.isEmpty then none
  else some (stream.takeWhile fun c => c ≠ 10, (stream.dropWhile fun c => c ≠ 10).drop 1)

/-- `std::getline` with another delimiter. -/
def getlineUntil (delim : UInt8) (stream : Bytes) : Option (Bytes × Bytes) :=
  if stream.isEmpty then none
  else some (stream.takeWhile fun c => c ≠ delim, (stream.dropWhile fun c => c ≠ delim).drop 1)

/-- The text before and behind the first `c`: `s.substr(0, s.find(c))` and `s.substr(s.find(c) + 1)`. -/
def splitFirst (c : UInt8) (s : Bytes) : Option (Bytes × Bytes) :=
  if c ∈ s then some (s.takeWhile fun d => d ≠ c, (s.dropWhile fun d => d ≠ c).drop 1) else none

/-- `>>` into a `std::string`: the word and what is left of the stream. -/
def extractWord (stream : Bytes) : Bytes × Bytes :=
  let stream := stream.dropWhile isSpace
  (stream.takeWhile fun c => !isSpace c, stream.dropWhile fun c => !isSpace c)

/-- `s.find(text) != npos` -/
def contains (s text : Bytes) : Bool := decide (text <:+: s)

variable {s line rest word : Bytes}

variable {c delim : UInt8}

theorem getlineUntil_shorter (h : getlineUntil delim s = some (line, rest)) : rest.length < s.length := by
  unfold getlineUntil at h
  split at h
  · cases h
  · rename_i hne
    have hpos : 0 < s.length := List.length_pos_iff.2 (by simpa using hne)
    have hle := (List.dropWhile_suffix (l := s) fun c => decide (c ≠ delim)).length_le
    obtain ⟨-, rfl⟩ := Prod.mk.inj (Option.some.inj h)
    rw [List.length_drop]
    omega

theorem getline_shorter (h : getline s = some (line, rest)) : rest.length < s.length := getlineUntil_shorter h

private theorem all_ne (hline : c ∉ line) : ∀ d ∈ line, decide (d ≠ c) = true := by
  intro d hd
  rw [decide_eq_true_eq]
  rintro rfl
  exact hline hd

theorem getlineUntil_append (hline : delim ∉ line) (rest : Bytes) :
    getlineUntil delim (line ++ delim :: rest) = some (line, rest) := by
  unfold getlineUntil
  rw [if_neg (by simp), List.takeWhile_append_of_pos (all_ne hline), List.dropWhile_append_of_pos (all_ne hline)]
  simp

theorem getline_append (hline : 10 ∉ line) (rest : Bytes) : getline (line ++ 10 :: rest) = some (line, rest) :=
  getlineUntil_append hline rest

/-- The last line need not be ended. -/
theorem getlineUntil_last (hline : delim ∉ line) (hne : line ≠ []) : getlineUntil delim line = some (line, []) := by
  unfold getlineUntil
  rw [if_neg (by simpa using hne), List.takeWhile_eq_self_iff.2 (all_ne hline),
    List.dropWhile_eq_nil_iff.2 (all_ne hline), List.drop_nil]

theorem splitFirst_append (hline : c ∉ line) (rest : Bytes) :
    splitFirst c (line ++ c :: rest) = some (line, rest) := by
  unfold splitFirst
  rw [if_pos (by simp), List.takeWhile_append_of_pos (all_ne hline), List.dropWhile_append_of_pos (all_ne hline)]
  simp

theorem splitFirst_of_not_mem (h : c ∉ s) : splitFirst c s = none := if_neg h

/-- A word, read up to a blank. -/
theorem extractWord_append (hword : ∀ c ∈ word, isSpace c = false) (hne : word ≠ []) (rest : Bytes) :
    extractWord (word ++ 32 :: rest) = (word, 32 :: rest) := by
  have hplain : ∀ c ∈ word, (!isSpace c) = true := by
    intro c hc
    rw [hword c hc]
    rfl
  have hblank : isSpace 32 = true := by decide
  cases word with
  | nil => exact absurd rfl hne
  | cons c word =>
    have hc : isSpace c = false := hword c List.mem_cons_self
    have hstart : ((c :: word) ++ 32 :: rest).dropWhile isSpace = (c :: word) ++ 32 :: rest := by
      rw [List.cons_append, List.dropWhile_cons_of_neg (by rw [hc]; decide)]
    unfold extractWord
    dsimp only
    rw [hstart, List.takeWhile_append_of_pos hplain, List.dropWhile_append_of_pos hplain]
    simp [hblank]

/-- Blanks in front of a word are skipped. -/
theorem extractWord_blank (s : Bytes) : extractWord (32 :: s) = extractWord s := by
  have hblank : isSpace 32 = true := by decide
  unfold extractWord
  rw [List.dropWhile_cons_of_pos hblank]

end Text
