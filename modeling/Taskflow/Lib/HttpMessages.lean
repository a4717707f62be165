import Taskflow.Lib.Lines

/-!
# HTTP messages with a content length

A message is a start line, fields and a body; on the wire a blank line stands before the body, whose length is
one of the fields.  A reader that knows nothing else finds the parts again and stops where the message ends,
whatever bytes the body has and whatever follows (`Message.read_text`).
-/

namespace Http

open Text

structure Message where
  startLine : Bytes
  fields : List (Bytes × Bytes)
  body : Bytes
  deriving DecidableEq

def crlf : Bytes := [13, 10]

def fieldLine (field : Bytes × Bytes) : Bytes := field.1 ++ bytes ": " ++ field.2

/-- The message on the wire. -/
def Message.text (m : Message) : Bytes :=
  m.startLine ++ crlf ++ (m.fields.flatMap fun field => fieldLine field ++ crlf) ++ crlf ++ m.body

/-! ### Reading -/

/-- A line that ends with CR and LF, without them, and what follows. -/
def readLine (s : Bytes) : Option (Bytes × Bytes) :=
  match splitFirst 10 s with
  | some (line, rest) => if line.getLast? = some 13 then some (line.dropLast, rest) else none
  | none => none

/-- The name is in front of the first colon; blanks around the value do not count. -/
def readField (line : Bytes) : Option (Bytes × Bytes) :=
  (splitFirst 58 line).map fun field => (field.1, (field.2.dropWhile isBlank).rdropWhile isBlank)

/-- The fields up to the blank line, and what follows it. -/
def readFields : Nat → Bytes → Option (List (Bytes × Bytes) × Bytes)
  | 0, _ => none
  | lines + 1, s => do
    let (line, rest) ← readLine s
    if line = [] then return ([], rest)
    let field ← readField line
    let (fields, rest) ← readFields lines rest
    return (field :: fields, rest)

/-- The value of the one field `Content-Length`, in any spelling. -/
def contentLength (fields : List (Bytes × Bytes)) : Option Nat :=
  match fields.filter fun field => lower field.1 = bytes "content-length" with
  | [(_, digits)] => if digits ≠ [] ∧ digits.all (isDigit 10) then some (digitsValue 10 digits) else none
  | _ => none

/-- The first message in `s`, and what follows it. -/
def read (s : Bytes) : Option (Message × Bytes) := do
  let (startLine, rest) ← readLine s
  let (fields, rest) ← readFields rest.length rest
  let n ← contentLength fields
  if n ≤ rest.length then return (⟨startLine, fields, rest.take n⟩, rest.drop n) else none

/-! ### Reading what was written -/

/-- A field with a name, without a colon in it, and a value that is neither broken nor surrounded by blanks. -/
structure Sendable (field : Bytes × Bytes) : Prop where
  name : 58 ∉ field.1 ∧ 10 ∉ field.1
  value : 10 ∉ field.2
  first : field.2.head?.all fun c => !isBlank c
  last : field.2.getLast?.all fun c => !isBlank c

/-- A start line in one line, such fields, and among them the length of the body. -/
structure Message.WellFormed (m : Message) : Prop where
  startLine : 10 ∉ m.startLine
  fields : ∀ field ∈ m.fields, Sendable field
  length : contentLength m.fields = some m.body.length

theorem readLine_append {line : Bytes} (h : 10 ∉ line) (rest : Bytes) :
    readLine (line ++ crlf ++ rest) = some (line, rest) := by
  have hsplit : splitFirst 10 ((line ++ [13]) ++ 10 :: rest) = some (line ++ [13], rest) :=
    splitFirst_append (by simpa using h) rest
  have htext : line ++ crlf ++ rest = (line ++ [13]) ++ 10 :: rest := by simp [crlf]
  rw [readLine, htext, hsplit]
  simp

theorem readField_fieldLine {field : Bytes × Bytes} (h : Sendable field) :
    readField (fieldLine field) = some field := by
  obtain ⟨name, value⟩ := field
  have hline : fieldLine (name, value) = name ++ 58 :: (32 :: value) := by simp [fieldLine, bytes]
  have hfirst : (32 :: value).dropWhile isBlank = value := by
    have hblank : isBlank 32 = true := by decide
    rw [List.dropWhile_cons_of_pos hblank]
    cases value with
    | nil => rfl
    | cons c value =>
      have hc : isBlank c = false := by simpa using h.first
      exact List.dropWhile_cons_of_neg (by simp [hc])
  have hlast : value.rdropWhile isBlank = value := by
    rw [List.rdropWhile_eq_self_iff]
    intro hne
    have hall := h.last
    rw [List.getLast?_eq_getLast_of_ne_nil hne] at hall
    simpa using hall
  rw [readField, hline, splitFirst_append h.name.1, Option.map_some, hfirst, hlast]

theorem readFields_append {fields : List (Bytes × Bytes)} (h : ∀ field ∈ fields, Sendable field) (rest : Bytes) :
    ∀ lines, fields.length < lines →
      readFields lines ((fields.flatMap fun field => fieldLine field ++ crlf) ++ crlf ++ rest) =
        some (fields, rest) := by
  induction fields with
  | nil =>
    intro lines hlines
    obtain ⟨lines, rfl⟩ := Nat.exists_eq_succ_of_ne_zero (Nat.ne_of_gt hlines)
    have hline := @readLine_append [] (by simp) rest
    simp only [List.nil_append] at hline
    simp [readFields, hline]
  | cons field fields ih =>
    intro lines hlines
    obtain ⟨lines, rfl⟩ := Nat.exists_eq_succ_of_ne_zero (Nat.ne_of_gt (Nat.lt_of_le_of_lt (Nat.zero_le _) hlines))
    have hfield := h field List.mem_cons_self
    have hne : fieldLine field ≠ [] := by simp [fieldLine, bytes]
    have hno : 10 ∉ fieldLine field := by
      simp [fieldLine, bytes, hfield.name.2, hfield.value]
    have hrest := ih (fun f hf => h f (List.mem_cons_of_mem _ hf)) lines (by simpa using hlines)
    have htext : ((field :: fields).flatMap fun field => fieldLine field ++ crlf) ++ crlf ++ rest =
        fieldLine field ++ crlf ++ ((fields.flatMap fun field => fieldLine field ++ crlf) ++ crlf ++ rest) := by
      simp
    rw [htext, readFields, readLine_append hno]
    simp only [Option.bind_eq_bind, Option.bind_some, if_neg hne, readField_fieldLine hfield, hrest,
      Option.pure_def]

/-- The reader finds the message and what follows it. -/
theorem Message.read_text {m : Message} (h : m.WellFormed) (rest : Bytes) :
    read (m.text ++ rest) = some (m, rest) := by
  have htext : m.text ++ rest = m.startLine ++ crlf ++
      ((m.fields.flatMap fun field => fieldLine field ++ crlf) ++ crlf ++ (m.body ++ rest)) := by
    simp [Message.text]
  have hlines : m.fields.length <
      ((m.fields.flatMap fun field => fieldLine field ++ crlf) ++ crlf ++ (m.body ++ rest)).length := by
    have hsum : m.fields.length ≤ (m.fields.flatMap fun field => fieldLine field ++ crlf).length := by
      rw [List.length_flatMap]
      refine le_trans (by simp) (List.card_nsmul_le_sum _ 1 ?_)
      intro n hn
      obtain ⟨field, -, rfl⟩ := List.mem_map.1 hn
      simp [crlf]
    have hcrlf : crlf.length = 2 := rfl
    simp only [List.length_append, hcrlf]
    omega
  rw [htext, read, readLine_append h.startLine]
  simp only [Option.bind_eq_bind, Option.bind_some, readFields_append h.fields (m.body ++ rest) _ hlines, h.length]
  simp

end Http
