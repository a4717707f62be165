import Taskflow.Lib.Text

/-!
# Nodes of a yaml-cpp document

A `YAML::Node` is a handle: it names a node, and a node refers to data.  Copying a handle shares the node, and
assigning to a handle that already names a node makes that node refer to the data of the right-hand side
(`set_ref`), for every other handle of it as well.  The subscript of a handle that is not `const` adds a missing
key, with an undefined value.

`value` is what a document holds at a path, read without touching it.  A document in which no node is inside itself
can be graded (`Graded`): every value lies deeper than its map.  Key facts for graded documents: a subscript keeps
what is read below the node (`Subscripted.value_child`), re-pointing a node keeps what is read below its new data
(`value_assign`), and neither moves a node up (`Later`).
-/

namespace Yaml

open Text

abbrev NodeId := Nat

/-- `node_data`: a key is kept as its text, since only a scalar key compares equal to a string. -/
inductive Body where
  | null
  | scalar (text : Bytes)
  | sequence (items : List NodeId)
  | map (entries : List (Bytes × NodeId))

/-- The entries of a node once a subscript has turned it into a map; a sequence is keyed by its positions. -/
def Body.entries : Body → List (Bytes × NodeId)
  | .map entries => entries
  | .sequence items => items.zipIdx.map fun item => (decimal item.2, item.1)
  | .null => []
  | .scalar _ => []

@[simp] theorem Body.entries_map (entries : List (Bytes × NodeId)) : (Body.map entries).entries = entries := rfl

@[simp] theorem Body.entries_null : Body.null.entries = [] := rfl

structure NodeData where
  defined : Bool
  body : Body

/-- The nodes and the data they refer to; the identifiers from `next` on are not in use. -/
structure Memory where
  ref : NodeId → Nat
  data : Nat → NodeData
  next : Nat

namespace Memory

def dataOf (m : Memory) (n : NodeId) : NodeData := m.data (m.ref n)

def setBody (m : Memory) (d : Nat) (body : Body) : Memory :=
  { m with data := Function.update m.data d ⟨(m.data d).defined, body⟩ }

/-- `create_node`: a new node, undefined. -/
def create (m : Memory) : Memory :=
  ⟨Function.update m.ref m.next m.next, Function.update m.data m.next ⟨false, .null⟩, m.next + 1⟩

/-- `operator[]` of a handle that is not `const`; `none` is the exception `BadSubscript`. -/
def subscript (m : Memory) (n : NodeId) (key : Bytes) : Option (NodeId × Memory) :=
  match (m.dataOf n).body with
  | .scalar _ => none
  | body =>
    match body.entries.lookup key with
    | some v => some (v, m.setBody (m.ref n) (.map body.entries))
    | none => some (m.next, (m.setBody (m.ref n) (.map (body.entries ++ [(key, m.next)]))).create)

/-- `operator=` of a handle of `n`: the node that the handle names afterwards, and the memory. -/
def assign (m : Memory) (n v : NodeId) : NodeId × Memory :=
  if m.ref n = m.ref v then (n, m) else (v, { m with ref := Function.update m.ref n (m.ref v) })

/-- What a conversion to a scalar type sees of a node: the text of a scalar, no text for a null node. -/
def scalar (m : Memory) (n : NodeId) : Option (Option Bytes) :=
  match m.dataOf n with
  | ⟨true, .scalar text⟩ => some (some text)
  | ⟨true, .null⟩ => some none
  | _ => none

/-- What a conversion sees at a path below a node. -/
def value (m : Memory) (n : NodeId) : List Bytes → Option (Option Bytes)
  | [] => m.scalar n
  | key :: path => ((m.dataOf n).body.entries.lookup key).bind fun v => m.value v path

end Memory

/-- All identifiers are in use, and a defined value belongs to a defined map and lies deeper than it. -/
structure Graded (rank : Nat → Nat) (depth : Nat) (m : Memory) : Prop where
  ref_lt : ∀ n < m.next, m.ref n < m.next
  entry : ∀ d < m.next, ∀ e ∈ (m.data d).body.entries, e.2 < m.next ∧
    ((m.dataOf e.2).defined = true →
      (m.data d).defined = true ∧ rank d < rank (m.ref e.2) ∧ rank (m.ref e.2) ≤ depth)

section

variable {rank : Nat → Nat} {depth : Nat} {m m' : Memory} {n v u : NodeId} {key : Bytes} {path : List Bytes}

theorem mem_of_lookup {entries : List (Bytes × NodeId)} (h : entries.lookup key = some v) : (key, v) ∈ entries := by
  obtain ⟨before, after, heq, _⟩ := List.lookup_eq_some_iff.1 h
  simp [heq]

theorem Memory.scalar_undefined (h : (m.dataOf n).defined = false) : m.scalar n = none := by
  unfold Memory.scalar
  split
  · rename_i heq
    rw [heq] at h
    cases h
  · rename_i heq
    rw [heq] at h
    cases h
  · rfl

namespace Graded

theorem child (hm : Graded rank depth m) (hn : n < m.next) (hv : (m.dataOf n).body.entries.lookup key = some v) :
    v < m.next ∧ ((m.dataOf v).defined = true →
      (m.dataOf n).defined = true ∧ rank (m.ref n) < rank (m.ref v) ∧ rank (m.ref v) ≤ depth) :=
  hm.entry (m.ref n) (hm.ref_lt n hn) (key, v) (mem_of_lookup hv)

/-- Below an undefined node there is nothing to read. -/
theorem value_undefined (hm : Graded rank depth m) (hn : n < m.next) (h : (m.dataOf n).defined = false) :
    m.value n path = none := by
  induction path generalizing n with
  | nil => exact Memory.scalar_undefined h
  | cons key path ih =>
    rw [Memory.value]
    cases hv : (m.dataOf n).body.entries.lookup key with
    | none => rfl
    | some v =>
      obtain ⟨hlt, hdefined⟩ := hm.child hn hv
      have hundefined : (m.dataOf v).defined = false := by
        by_contra hne
        have hd := (hdefined (by simpa using hne)).1
        rw [h] at hd
        cases hd
      exact ih hlt hundefined

end Graded

/-- What a subscript does: the node becomes a map with the same entries and, if the key was missing, one more, whose
value is undefined. -/
structure Subscripted (m : Memory) (n : NodeId) (key : Bytes) (v : NodeId) (m' : Memory) : Prop where
  next_le : m.next ≤ m'.next
  ref_eq : ∀ u < m.next, m'.ref u = m.ref u
  ref_new : ∀ u < m'.next, m.next ≤ u → m'.ref u < m'.next
  defined_eq : ∀ d < m.next, (m'.data d).defined = (m.data d).defined
  other : ∀ d < m.next, d ≠ m.ref n → m'.data d = m.data d
  data_new : ∀ d < m'.next, m.next ≤ d → (m'.data d).body.entries = []
  entries : ∃ added, (m'.data (m.ref n)).body.entries = (m.dataOf n).body.entries ++ added ∧
    ∀ e ∈ added, e.2 < m'.next ∧ (m'.dataOf e.2).defined = false
  child : (m'.data (m.ref n)).body.entries.lookup key = some v
  not_scalar : ∀ text, (m.dataOf n).body ≠ .scalar text
  turned : ∃ added, m'.data (m.ref n) = ⟨(m.dataOf n).defined, .map ((m.dataOf n).body.entries ++ added)⟩ ∧
    ∀ e ∈ added, m.next ≤ e.2 ∧ e.2 < m'.next
  undefined_new : ∀ u < m'.next, m.next ≤ u → m.next ≤ m'.ref u ∧ (m'.data u).defined = false

theorem subscripted_of_found (hv : (m.dataOf n).body.entries.lookup key = some v)
    (hscalar : ∀ text, (m.dataOf n).body ≠ .scalar text) :
    Subscripted m n key v (m.setBody (m.ref n) (.map (m.dataOf n).body.entries)) := by
  refine ⟨le_rfl, fun _ _ => rfl, ?_, ?_, ?_, ?_, ⟨[], ?_, ?_⟩, ?_, hscalar, ⟨[], ?_, ?_⟩, ?_⟩
  · intro u hu hle
    exact absurd hu (Nat.not_lt.2 hle)
  · intro d _
    by_cases hd : d = m.ref n
    · subst hd
      simp [Memory.setBody]
    · simp [Memory.setBody, hd]
  · intro d _ hd
    simp [Memory.setBody, hd]
  · intro d hd hle
    exact absurd hd (Nat.not_lt.2 hle)
  · simp [Memory.setBody]
  · intro e he
    cases he
  · simpa [Memory.setBody] using hv
  · simp [Memory.setBody, Memory.dataOf]
  · intro e he
    cases he
  · intro u hu hle
    exact absurd hu (Nat.not_lt.2 hle)

theorem subscripted_of_missing (hn : m.ref n < m.next) (hv : (m.dataOf n).body.entries.lookup key = none)
    (hscalar : ∀ text, (m.dataOf n).body ≠ .scalar text) :
    Subscripted m n key m.next
      (m.setBody (m.ref n) (.map ((m.dataOf n).body.entries ++ [(key, m.next)]))).create := by
  have hne : m.ref n ≠ m.next := Nat.ne_of_lt hn
  refine ⟨Nat.le_succ _, ?_, ?_, ?_, ?_, ?_, ⟨[(key, m.next)], ?_, ?_⟩, ?_, hscalar,
    ⟨[(key, m.next)], ?_, ?_⟩, ?_⟩
  · intro u hu
    simp [Memory.create, Memory.setBody, Nat.ne_of_lt hu]
  · intro u hu hle
    have hu : u = m.next := by
      simp only [Memory.create, Memory.setBody] at hu
      omega
    subst hu
    simp [Memory.create, Memory.setBody]
  · intro d hlt
    by_cases hd : d = m.ref n
    · subst hd
      simp [Memory.create, Memory.setBody, hne]
    · simp [Memory.create, Memory.setBody, hd, Nat.ne_of_lt hlt]
  · intro d hlt hd
    simp [Memory.create, Memory.setBody, hd, Nat.ne_of_lt hlt]
  · intro d hlt hle
    have hd : d = m.next := by
      simp only [Memory.create, Memory.setBody] at hlt
      omega
    subst hd
    simp [Memory.create, Memory.setBody]
  · simp [Memory.create, Memory.setBody, hne]
  · intro e he
    have heq := List.mem_singleton.1 he
    subst heq
    simp [Memory.create, Memory.setBody, Memory.dataOf]
  · simp [Memory.create, Memory.setBody, hne, List.lookup_append, hv]
  · simp [Memory.create, Memory.setBody, Memory.dataOf, hne]
  · intro e he
    have heq := List.mem_singleton.1 he
    subst heq
    exact ⟨le_rfl, Nat.lt_succ_self _⟩
  · intro u hu hle
    have hu : u = m.next := by
      simp only [Memory.create, Memory.setBody] at hu
      omega
    subst hu
    simp [Memory.create, Memory.setBody]

theorem subscripted (hn : m.ref n < m.next) (h : m.subscript n key = some (v, m')) : Subscripted m n key v m' := by
  unfold Memory.subscript at h
  split at h
  · cases h
  · rename_i hscalar
    split at h
    · rename_i hv
      cases h
      exact subscripted_of_found hv hscalar
    · rename_i hv
      cases h
      exact subscripted_of_missing hn hv hscalar

namespace Subscripted

theorem dataOf_defined (hs : Subscripted m n key v m') (hm : Graded rank depth m) (hu : u < m.next) :
    (m'.dataOf u).defined = (m.dataOf u).defined := by
  rw [Memory.dataOf, hs.ref_eq u hu]
  exact hs.defined_eq _ (hm.ref_lt u hu)

theorem graded (hs : Subscripted m n key v m') (hm : Graded rank depth m) : Graded rank depth m' := by
  have hold : ∀ d < m.next, ∀ e ∈ (m.data d).body.entries, e.2 < m'.next ∧ ((m'.dataOf e.2).defined = true →
      (m'.data d).defined = true ∧ rank d < rank (m'.ref e.2) ∧ rank (m'.ref e.2) ≤ depth) := by
    intro d hd e he
    obtain ⟨hlt, hdefined⟩ := hm.entry d hd e he
    refine ⟨Nat.lt_of_lt_of_le hlt hs.next_le, ?_⟩
    rw [hs.dataOf_defined hm hlt, hs.defined_eq d hd, hs.ref_eq _ hlt]
    exact hdefined
  refine ⟨?_, ?_⟩
  · intro u hu
    by_cases hlt : u < m.next
    · rw [hs.ref_eq u hlt]
      exact Nat.lt_of_lt_of_le (hm.ref_lt u hlt) hs.next_le
    · exact hs.ref_new u hu (Nat.le_of_not_lt hlt)
  · intro d hd e he
    by_cases hlt : d < m.next
    · by_cases hdn : d = m.ref n
      · subst hdn
        obtain ⟨added, hentries, hundefined⟩ := hs.entries
        rw [hentries] at he
        rcases List.mem_append.1 he with he | he
        · exact hold _ hlt e he
        · obtain ⟨hin, hfalse⟩ := hundefined e he
          refine ⟨hin, ?_⟩
          intro htrue
          rw [hfalse] at htrue
          cases htrue
      · rw [hs.other d hlt hdn] at he
        exact hold d hlt e he
    · rw [hs.data_new d hd (Nat.le_of_not_lt hlt)] at he
      cases he

theorem child_lt (hs : Subscripted m n key v m') (hm : Graded rank depth m) (hn : n < m.next) : v < m'.next := by
  have hg := hs.graded hm
  exact (hg.entry (m.ref n) (Nat.lt_of_lt_of_le (hm.ref_lt n hn) hs.next_le) (key, v) (mem_of_lookup hs.child)).1

/-- A subscript keeps what is read from nodes that do not lie above the node, apart from the node itself. -/
theorem value_eq (hs : Subscripted m n key v m') (hm : Graded rank depth m) (hu : u < m.next)
    (hdeep : (m.dataOf u).defined = true → rank (m.ref n) ≤ rank (m.ref u) ∧
      (path ≠ [] ∨ m.ref u ≠ m.ref n)) :
    m'.value u path = m.value u path := by
  have hg := hs.graded hm
  induction path generalizing u with
  | nil =>
    cases hdef : (m.dataOf u).defined with
    | false =>
      have hdef' : (m'.dataOf u).defined = false := (hs.dataOf_defined hm hu).trans hdef
      exact (Memory.scalar_undefined hdef').trans (Memory.scalar_undefined hdef).symm
    | true =>
      have hne : m.ref u ≠ m.ref n := (hdeep hdef).2.resolve_left (by simp)
      have hdata : m'.dataOf u = m.dataOf u := by
        rw [Memory.dataOf, hs.ref_eq u hu]
        exact hs.other _ (hm.ref_lt u hu) hne
      simp only [Memory.value, Memory.scalar, hdata]
  | cons k path ih =>
    cases hdef : (m.dataOf u).defined with
    | false =>
      have hdef' : (m'.dataOf u).defined = false := (hs.dataOf_defined hm hu).trans hdef
      rw [hm.value_undefined hu hdef, hg.value_undefined (Nat.lt_of_lt_of_le hu hs.next_le) hdef']
    | true =>
      have hle := (hdeep hdef).1
      have hchild : ∀ c, (m.dataOf u).body.entries.lookup k = some c → m'.value c path = m.value c path := by
        intro c hc
        obtain ⟨hlt, hdefined⟩ := hm.child hu hc
        refine ih hlt ?_
        intro hcdef
        obtain ⟨_, hrank, _⟩ := hdefined hcdef
        refine ⟨by omega, Or.inr ?_⟩
        intro heq
        rw [heq] at hrank
        omega
      have hdata : m'.dataOf u = m'.data (m.ref u) := by rw [Memory.dataOf, hs.ref_eq u hu]
      rw [Memory.value, Memory.value, hdata]
      by_cases hsame : m.ref u = m.ref n
      · obtain ⟨added, hentries, hundefined⟩ := hs.entries
        have hbody : (m.dataOf u).body = (m.dataOf n).body := by rw [Memory.dataOf, hsame, ← Memory.dataOf]
        rw [hsame, hentries, ← hbody, List.lookup_append]
        cases hc : (m.dataOf u).body.entries.lookup k with
        | some c => exact hchild c hc
        | none =>
          cases hc' : added.lookup k with
          | none => rfl
          | some c =>
            obtain ⟨hlt, hfalse⟩ := hundefined (k, c) (mem_of_lookup hc')
            exact hg.value_undefined hlt hfalse
      · rw [hs.other _ (hm.ref_lt u hu) hsame, ← Memory.dataOf]
        cases hc : (m.dataOf u).body.entries.lookup k with
        | none => rfl
        | some c => exact hchild c hc

/-- What is read below the value of a subscript is what was read below the node at that key. -/
theorem value_child (hs : Subscripted m n key v m') (hm : Graded rank depth m) (hn : n < m.next) :
    m'.value v path = m.value n (key :: path) := by
  have hg := hs.graded hm
  obtain ⟨added, hentries, hundefined⟩ := hs.entries
  have hlookup := hs.child
  rw [hentries, List.lookup_append] at hlookup
  rw [Memory.value]
  cases hc : (m.dataOf n).body.entries.lookup key with
  | some c =>
    rw [hc] at hlookup
    cases hlookup
    obtain ⟨hlt, hdefined⟩ := hm.child hn hc
    refine hs.value_eq hm hlt ?_
    intro hdef
    obtain ⟨_, hrank, _⟩ := hdefined hdef
    refine ⟨by omega, Or.inr ?_⟩
    intro heq
    rw [heq] at hrank
    omega
  | none =>
    rw [hc] at hlookup
    obtain ⟨hlt, hfalse⟩ := hundefined (key, v) (mem_of_lookup hlookup)
    exact hg.value_undefined hlt hfalse

end Subscripted

/-! ### Assignment -/

@[simp] theorem assign_next (n v : NodeId) : (m.assign n v).2.next = m.next := by
  unfold Memory.assign
  split <;> rfl

@[simp] theorem assign_data (n v : NodeId) : (m.assign n v).2.data = m.data := by
  unfold Memory.assign
  split <;> rfl

theorem assign_ref (n v : NodeId) : (m.assign n v).2.ref = Function.update m.ref n (m.ref v) := by
  unfold Memory.assign
  split
  · rename_i heq
    rw [← heq, Function.update_eq_self]
  · rfl

theorem assign_ref_handle (m : Memory) (n v : NodeId) : (m.assign n v).2.ref (m.assign n v).1 = m.ref v := by
  by_cases heq : m.ref n = m.ref v
  · simp [Memory.assign, heq]
  · by_cases hvn : v = n
    · simp [Memory.assign, hvn]
    · simp [Memory.assign, heq, hvn]

/-- Both handles name the data of the right-hand side. -/
theorem assign_dataOf (m : Memory) (n v : NodeId) :
    (m.assign n v).2.dataOf n = m.dataOf v ∧ (m.assign n v).2.dataOf (m.assign n v).1 = m.dataOf v := by
  constructor
  · rw [Memory.dataOf, assign_data, assign_ref, Function.update_self, Memory.dataOf]
  · rw [Memory.dataOf, assign_data, assign_ref_handle, Memory.dataOf]

theorem assign_lt (hn : n < m.next) (hv : v < m.next) : (m.assign n v).1 < m.next := by
  unfold Memory.assign
  split
  · exact hn
  · exact hv

theorem assign_dataOf_of_ne (hu : u ≠ n) : (m.assign n v).2.dataOf u = m.dataOf u := by
  rw [Memory.dataOf, assign_data, assign_ref, Function.update_of_ne hu, Memory.dataOf]

theorem value_congr (h : m.dataOf u = m.dataOf v) : m.value u path = m.value v path := by
  cases path with
  | nil => simp only [Memory.value, Memory.scalar, h]
  | cons key path => simp only [Memory.value, h]

/-- Node `v` is undefined, or `n` is defined and `v` lies deeper. -/
def Deeper (rank : Nat → Nat) (depth : Nat) (m : Memory) (n v : NodeId) : Prop :=
  (m.dataOf v).defined = true →
    (m.dataOf n).defined = true ∧ rank (m.ref n) < rank (m.ref v) ∧ rank (m.ref v) ≤ depth

theorem Graded.assign (hm : Graded rank depth m) (hv : v < m.next) (hd : Deeper rank depth m n v) :
    Graded rank depth (m.assign n v).2 := by
  refine ⟨?_, ?_⟩
  · intro u hu
    rw [assign_next] at hu ⊢
    rw [assign_ref]
    by_cases hun : u = n
    · rw [hun, Function.update_self]
      exact hm.ref_lt v hv
    · rw [Function.update_of_ne hun]
      exact hm.ref_lt u hu
  · intro d hlt e he
    rw [assign_next] at hlt ⊢
    rw [assign_data] at he ⊢
    obtain ⟨hin, hdefined⟩ := hm.entry d hlt e he
    refine ⟨hin, ?_⟩
    by_cases hen : e.2 = n
    · rw [hen] at hdefined ⊢
      rw [(assign_dataOf m n v).1, assign_ref, Function.update_self]
      intro hvd
      obtain ⟨hnd, hrank, hle⟩ := hd hvd
      obtain ⟨hdd, hrank', _⟩ := hdefined hnd
      exact ⟨hdd, by omega, hle⟩
    · rw [assign_dataOf_of_ne hen, assign_ref, Function.update_of_ne hen]
      exact hdefined

/-- An undefined node stays undefined. -/
theorem assign_undefined (hd : Deeper rank depth m n v) (hu : (m.dataOf u).defined = false) :
    ((m.assign n v).2.dataOf u).defined = false := by
  by_cases hun : u = n
  · subst hun
    rw [(assign_dataOf m u v).1]
    cases hv : (m.dataOf v).defined with
    | false => rfl
    | true =>
      have hdef := (hd hv).1
      rw [hu] at hdef
      cases hdef
  · rw [assign_dataOf_of_ne hun]
    exact hu

/-- Re-pointing `n` keeps what is read from nodes that lie deeper. -/
theorem value_assign_deeper (hm : Graded rank depth m) (hv : v < m.next) (hd : Deeper rank depth m n v)
    (hu : u < m.next) (hdeep : (m.dataOf u).defined = true → rank (m.ref n) < rank (m.ref u)) :
    (m.assign n v).2.value u path = m.value u path := by
  have hg := hm.assign hv hd
  induction path generalizing u with
  | nil =>
    cases hdef : (m.dataOf u).defined with
    | false => exact (Memory.scalar_undefined (assign_undefined hd hdef)).trans (Memory.scalar_undefined hdef).symm
    | true =>
      have hun : u ≠ n := by
        intro heq
        have hrank := hdeep hdef
        rw [heq] at hrank
        omega
      simp only [Memory.value, Memory.scalar, assign_dataOf_of_ne hun]
  | cons key path ih =>
    cases hdef : (m.dataOf u).defined with
    | false =>
      rw [hm.value_undefined hu hdef, hg.value_undefined (by simpa using hu) (assign_undefined hd hdef)]
    | true =>
      have hrank := hdeep hdef
      have hun : u ≠ n := by
        intro heq
        rw [heq] at hrank
        omega
      rw [Memory.value, Memory.value, assign_dataOf_of_ne hun]
      cases hc : (m.dataOf u).body.entries.lookup key with
      | none => rfl
      | some c =>
        obtain ⟨hlt, hdefined⟩ := hm.child hu hc
        refine ih hlt ?_
        intro hcdef
        obtain ⟨_, hrank', _⟩ := hdefined hcdef
        omega

/-- What was read below `v` is read below the handle of `n` after the assignment, and below `n` itself. -/
theorem value_assign (hm : Graded rank depth m) (hv : v < m.next) (hd : Deeper rank depth m n v) :
    (m.assign n v).2.value (m.assign n v).1 path = m.value v path ∧
      (m.assign n v).2.value n path = m.value v path := by
  obtain ⟨hn, hhandle⟩ := assign_dataOf m n v
  have hfst : (m.assign n v).2.value (m.assign n v).1 path = m.value v path := by
    by_cases heq : m.ref n = m.ref v
    · have hsame : m.assign n v = (n, m) := by simp [Memory.assign, heq]
      have hdata : m.dataOf n = m.dataOf v := by rw [Memory.dataOf, heq, Memory.dataOf]
      rw [hsame]
      exact value_congr hdata
    · have hv' : (m.assign n v).1 = v := by simp [Memory.assign, heq]
      rw [hv']
      exact value_assign_deeper hm hv hd hv fun hdef => (hd hdef).2.1
  exact ⟨hfst, (value_congr (hn.trans hhandle.symm)).trans hfst⟩

/-! ### What is left of a document -/

/-- The nodes and the data that are in use name nodes and data in use. -/
structure Closed (m : Memory) : Prop where
  ref_lt : ∀ n < m.next, m.ref n < m.next
  entry_lt : ∀ d < m.next, ∀ e ∈ (m.data d).body.entries, e.2 < m.next

/-- The data of a document is as it was, up to undefined values that were added to maps, sequences and nulls; its
nodes may refer to other data. -/
structure Grown (doc m : Memory) : Prop where
  closed : Closed m
  next_le : doc.next ≤ m.next
  kept : ∀ d < doc.next, m.data d = doc.data d ∨ (∀ text, (doc.data d).body ≠ .scalar text) ∧
    ∃ added, m.data d = ⟨(doc.data d).defined, .map ((doc.data d).body.entries ++ added)⟩ ∧
      ∀ e ∈ added, doc.next ≤ e.2
  new : ∀ n < m.next, doc.next ≤ n → doc.next ≤ m.ref n ∧ (m.data n).defined = false ∧
    ∀ e ∈ (m.data n).body.entries, doc.next ≤ e.2

namespace Grown

variable {doc : Memory}

theorem refl (h : Closed doc) : Grown doc doc :=
  ⟨h, le_rfl, fun _ _ => .inl rfl, fun _ hn hle => absurd hn (Nat.not_lt.2 hle)⟩

theorem entries (h : Grown doc m) {d : Nat} (hd : d < doc.next) :
    ∃ added, (m.data d).body.entries = (doc.data d).body.entries ++ added ∧ ∀ e ∈ added, doc.next ≤ e.2 := by
  obtain heq | ⟨_, added, heq, hadded⟩ := h.kept d hd
  · exact ⟨[], by rw [heq, List.append_nil], by simp⟩
  · exact ⟨added, by rw [heq]; rfl, hadded⟩

/-- What a key leads to: the value that the document has for it, or a value that was added. -/
theorem lookup (h : Grown doc m) {d : Nat} (hd : d < doc.next) (hv : (m.data d).body.entries.lookup key = some v) :
    (doc.data d).body.entries.lookup key = some v ∨
      (doc.data d).body.entries.lookup key = none ∧ doc.next ≤ v := by
  obtain ⟨added, heq, hadded⟩ := h.entries hd
  rw [heq, List.lookup_append] at hv
  cases hdoc : (doc.data d).body.entries.lookup key with
  | some c =>
    rw [hdoc] at hv
    exact .inl hv
  | none =>
    rw [hdoc] at hv
    exact .inr ⟨rfl, hadded (key, v) (mem_of_lookup hv)⟩

theorem scalar_new (h : Grown doc m) (hn : n < m.next) (hle : doc.next ≤ n) : m.scalar n = none :=
  Memory.scalar_undefined (h.new (m.ref n) (h.closed.ref_lt n hn) (h.new n hn hle).1).2.1

/-- A node in its place reads the same, unless it was an empty one that has been turned into a map. -/
theorem scalar_eq (h : Grown doc m) (hplace : m.ref n = doc.ref n) (hd : doc.ref n < doc.next)
    (hempty : (doc.data (doc.ref n)).body.entries = [] → m.data (doc.ref n) = doc.data (doc.ref n)) :
    m.scalar n = doc.scalar n := by
  simp only [Memory.scalar, Memory.dataOf, hplace]
  obtain hsame | ⟨hscalar, added, hmap, -⟩ := h.kept _ hd
  · rw [hsame]
  · rw [hmap]
    cases hdata : doc.data (doc.ref n) with
    | mk defined body =>
      rw [hdata] at hscalar hempty hmap
      cases body with
      | null =>
        have hsame := hmap.symm.trans (hempty rfl)
        cases hsame
      | scalar text => exact absurd rfl (hscalar text)
      | sequence items => cases defined <;> rfl
      | map entries => cases defined <;> rfl

theorem child_lt (h : Grown doc m) (hs : Subscripted m n key v m') (hn : n < m.next)
    (h' : Closed m') : v < m'.next :=
  h'.entry_lt (m.ref n) (Nat.lt_of_lt_of_le (h.closed.ref_lt n hn) hs.next_le) (key, v) (mem_of_lookup hs.child)

/-- The value of a subscript of an added node was added. -/
theorem child_new (h : Grown doc m) (hs : Subscripted m n key v m') (hn : n < m.next) (hle : doc.next ≤ n) :
    doc.next ≤ v := by
  obtain ⟨added, heq, hadded⟩ := hs.turned
  have hmem := mem_of_lookup hs.child
  rw [heq, Body.entries_map] at hmem
  rcases List.mem_append.1 hmem with hold | hnew
  · exact (h.new (m.ref n) (h.closed.ref_lt n hn) (h.new n hn hle).1).2.2 _ hold
  · exact Nat.le_trans h.next_le (hadded _ hnew).1

theorem subscript (h : Grown doc m) (hs : Subscripted m n key v m') (hn : n < m.next) : Grown doc m' := by
  have hd := h.closed.ref_lt n hn
  obtain ⟨added, heq, hadded⟩ := hs.turned
  have hle := h.next_le
  have hle' := hs.next_le
  refine ⟨⟨?_, ?_⟩, Nat.le_trans hle hle', ?_, ?_⟩
  · intro u hu
    by_cases hlt : u < m.next
    · rw [hs.ref_eq u hlt]
      exact Nat.lt_of_lt_of_le (h.closed.ref_lt u hlt) hle'
    · exact hs.ref_new u hu (Nat.le_of_not_lt hlt)
  · intro d hlt e he
    by_cases hold : d < m.next
    · by_cases hdn : d = m.ref n
      · rw [hdn, heq, Body.entries_map] at he
        rcases List.mem_append.1 he with he | he
        · exact Nat.lt_of_lt_of_le (h.closed.entry_lt _ hd e he) hle'
        · exact (hadded e he).2
      · rw [hs.other d hold hdn] at he
        exact Nat.lt_of_lt_of_le (h.closed.entry_lt d hold e he) hle'
    · rw [hs.data_new d hlt (Nat.le_of_not_lt hold)] at he
      cases he
  · intro d hlt
    have hold := Nat.lt_of_lt_of_le hlt hle
    by_cases hdn : d = m.ref n
    · -- the data of `n`: one more step of the same kind
      subst hdn
      obtain hsame | ⟨hscalar, before, hbefore, hnew⟩ := h.kept _ hlt
      · refine .inr ⟨?_, added, ?_, fun e he => Nat.le_trans hle (hadded e he).1⟩
        · rw [← hsame]
          exact hs.not_scalar
        · rw [heq, Memory.dataOf, hsame]
      · refine .inr ⟨hscalar, before ++ added, ?_, ?_⟩
        · rw [heq, Memory.dataOf, hbefore, Body.entries_map, List.append_assoc]
        · intro e he
          rcases List.mem_append.1 he with he | he
          · exact hnew e he
          · exact Nat.le_trans hle (hadded e he).1
    · rw [hs.other d hold hdn]
      exact h.kept d hlt
  · intro u hlt hge
    by_cases hold : u < m.next
    · obtain ⟨href, hdefined, hentries⟩ := h.new u hold hge
      refine ⟨by rw [hs.ref_eq u hold]; exact href, by rw [hs.defined_eq u hold]; exact hdefined, ?_⟩
      by_cases hun : u = m.ref n
      · intro e he
        rw [hun, heq, Body.entries_map] at he
        rcases List.mem_append.1 he with he | he
        · rw [hun] at hentries
          exact hentries e he
        · exact Nat.le_trans hle (hadded e he).1
      · rw [hs.other u hold hun]
        exact hentries
    · have hge' := Nat.le_of_not_lt hold
      obtain ⟨href, hdefined⟩ := hs.undefined_new u hlt hge'
      refine ⟨Nat.le_trans hle href, hdefined, ?_⟩
      intro e he
      rw [hs.data_new u hlt hge'] at he
      cases he

theorem assign (h : Grown doc m) (hv : v < m.next) (hnew : doc.next ≤ n → doc.next ≤ v) :
    Grown doc (m.assign n v).2 := by
  refine ⟨⟨?_, ?_⟩, by simpa using h.next_le, by simpa using h.kept, ?_⟩
  · intro u hu
    rw [assign_next] at hu ⊢
    rw [assign_ref]
    by_cases hun : u = n
    · rw [hun, Function.update_self]
      exact h.closed.ref_lt v hv
    · rw [Function.update_of_ne hun]
      exact h.closed.ref_lt u hu
  · simpa using h.closed.entry_lt
  · intro u hu hge
    rw [assign_next] at hu
    rw [assign_ref, assign_data]
    obtain ⟨href, hrest⟩ := h.new u hu hge
    refine ⟨?_, hrest⟩
    by_cases hun : u = n
    · rw [hun] at hge
      rw [hun, Function.update_self]
      exact (h.new v hv (hnew hge)).1
    · rw [Function.update_of_ne hun]
      exact href

end Grown

/-! ### Nodes only move down -/

/-- Node `n` lies at depth `r` or deeper, if it is defined. -/
def Below (rank : Nat → Nat) (r : Nat) (m : Memory) (n : NodeId) : Prop :=
  (m.dataOf n).defined = true → r ≤ rank (m.ref n)

/-- A later state of a graded memory: no node has moved up. -/
structure Later (rank : Nat → Nat) (depth : Nat) (m m' : Memory) : Prop where
  graded : Graded rank depth m'
  next_le : m.next ≤ m'.next
  below : ∀ u < m.next, ∀ r, Below rank r m u → Below rank r m' u

namespace Later

theorem refl (hm : Graded rank depth m) : Later rank depth m m := ⟨hm, le_rfl, fun _ _ _ h => h⟩

theorem trans {m'' : Memory} (h : Later rank depth m m') (h' : Later rank depth m' m'') :
    Later rank depth m m'' := by
  refine ⟨h'.graded, Nat.le_trans h.next_le h'.next_le, ?_⟩
  intro u hu r hbelow
  exact h'.below u (Nat.lt_of_lt_of_le hu h.next_le) r (h.below u hu r hbelow)

theorem subscript (hs : Subscripted m n key v m') (hm : Graded rank depth m) : Later rank depth m m' := by
  refine ⟨hs.graded hm, hs.next_le, ?_⟩
  intro u hu r hbelow hdef
  rw [hs.ref_eq u hu]
  rw [hs.dataOf_defined hm hu] at hdef
  exact hbelow hdef

theorem assign (hm : Graded rank depth m) (hv : v < m.next) (hd : Deeper rank depth m n v) :
    Later rank depth m (m.assign n v).2 := by
  refine ⟨hm.assign hv hd, by simp, ?_⟩
  intro u hu r hbelow hdef
  by_cases hun : u = n
  · subst hun
    rw [(assign_dataOf m u v).1] at hdef
    obtain ⟨hnd, hrank, _⟩ := hd hdef
    have hle := hbelow hnd
    rw [assign_ref, Function.update_self]
    omega
  · rw [assign_dataOf_of_ne hun] at hdef
    rw [assign_ref, Function.update_of_ne hun]
    exact hbelow hdef

end Later

/-- The value of a subscript lies deeper than the node. -/
theorem Subscripted.deeper (hs : Subscripted m n key v m') (hm : Graded rank depth m) (hn : n < m.next) :
    Deeper rank depth m' n v := by
  have hn' : n < m'.next := Nat.lt_of_lt_of_le hn hs.next_le
  have hchild : (m'.dataOf n).body.entries.lookup key = some v := by
    rw [Memory.dataOf, hs.ref_eq n hn]
    exact hs.child
  exact ((hs.graded hm).child hn' hchild).2

theorem Deeper.below {r : Nat} (hd : Deeper rank depth m n v) (h : Below rank r m n) : Below rank (r + 1) m v := by
  intro hdef
  obtain ⟨hnd, hrank, _⟩ := hd hdef
  have hle := h hnd
  omega

/-- Both handles of an assignment lie as deep as its right-hand side. -/
theorem below_assign {r : Nat} (h : Below rank r m v) :
    Below rank r (m.assign n v).2 n ∧ Below rank r (m.assign n v).2 (m.assign n v).1 := by
  obtain ⟨hn, hhandle⟩ := assign_dataOf m n v
  constructor
  · intro hdef
    rw [hn] at hdef
    rw [assign_ref, Function.update_self]
    exact h hdef
  · intro hdef
    rw [hhandle] at hdef
    rw [assign_ref_handle]
    exact h hdef

/-! ### `node = node[key]` -/

theorem Subscripted.hop_lt (hs : Subscripted m n key v m') (hm : Graded rank depth m) (hn : n < m.next) :
    (m'.assign n v).1 < (m'.assign n v).2.next := by
  rw [assign_next]
  exact assign_lt (Nat.lt_of_lt_of_le hn hs.next_le) (hs.child_lt hm hn)

theorem Subscripted.hop_later (hs : Subscripted m n key v m') (hm : Graded rank depth m) (hn : n < m.next) :
    Later rank depth m (m'.assign n v).2 :=
  (Later.subscript hs hm).trans (.assign (hs.graded hm) (hs.child_lt hm hn) (hs.deeper hm hn))

/-- The handle, and the node it named before, are read where the node was read at the key. -/
theorem Subscripted.hop_value (hs : Subscripted m n key v m') (hm : Graded rank depth m) (hn : n < m.next) :
    (m'.assign n v).2.value (m'.assign n v).1 path = m.value n (key :: path) ∧
      (m'.assign n v).2.value n path = m.value n (key :: path) := by
  obtain ⟨hhandle, hnode⟩ := value_assign (hs.graded hm) (hs.child_lt hm hn) (hs.deeper hm hn)
  have hchild : m'.value v path = m.value n (key :: path) := hs.value_child hm hn
  exact ⟨hhandle.trans hchild, hnode.trans hchild⟩

theorem Subscripted.hop_below {r : Nat} (hs : Subscripted m n key v m') (hm : Graded rank depth m) (hn : n < m.next)
    (h : Below rank r m n) :
    Below rank (r + 1) (m'.assign n v).2 n ∧ Below rank (r + 1) (m'.assign n v).2 (m'.assign n v).1 :=
  below_assign ((hs.deeper hm hn).below ((Later.subscript hs hm).below n hn r h))

end

end Yaml
