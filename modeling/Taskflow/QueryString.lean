import Taskflow.HttpHandler

/-!
# Query strings

What `HttpHandler::parseQueryParams` and `extractPath` make of a path and a query that were put together from
pairs, with segments between them that are no pairs.  `query_undone`: they give back the path, and for each key
the value of its last pair.
-/

namespace Taskflow

open Text

/-- A segment of a query: a pair, or text without `=`. -/
inductive QuerySegment where
  | pair (key value : Bytes)
  | other (text : Bytes)

namespace QuerySegment

def text : QuerySegment → Bytes
  | pair key value => key ++ 61 :: value
  | other text => text

/-- Keys have no `=`, and nothing has an `&`. -/
def WellFormed : QuerySegment → Prop
  | pair key value => 61 ∉ key ∧ 38 ∉ key ∧ 38 ∉ value
  | other text => 61 ∉ text ∧ 38 ∉ text

def asPair : QuerySegment → Option (Bytes × Bytes)
  | pair key value => some (key, value)
  | other _ => none

end QuerySegment

/-- The segments, with `&` between them. -/
def queryText : List QuerySegment → Bytes
  | [] => []
  | [segment] => segment.text
  | segment :: next :: segments => segment.text ++ 38 :: queryText (next :: segments)

/-- The value of the last pair with this key. -/
def lastValue (segments : List QuerySegment) (key : Bytes) : Option Bytes :=
  ((segments.filterMap QuerySegment.asPair).reverse.find? fun pair => decide (pair.1 = key)).map (·.2)

section

variable {segment : QuerySegment} {segments : List QuerySegment}

/-- What the loop does with one segment. -/
def QuerySegment.addTo (params : StringMap Bytes) : QuerySegment → StringMap Bytes
  | .pair key value => params.insert key value
  | .other _ => params

theorem QuerySegment.WellFormed.no_ampersand (h : segment.WellFormed) : 38 ∉ segment.text := by
  cases segment with
  | pair key value => simp [QuerySegment.text, h.2.1, h.2.2]
  | other text => exact h.2

theorem QuerySegment.WellFormed.split (h : segment.WellFormed) (params : StringMap Bytes) :
    (match splitFirst 61 segment.text with
      | some (key, value) => params.insert key value
      | none => params) = segment.addTo params := by
  cases segment with
  | pair key value =>
    rw [QuerySegment.text, splitFirst_append h.1]
    rfl
  | other text =>
    rw [QuerySegment.text, splitFirst_of_not_mem h.1]
    rfl

theorem parsePairs_nil (params : StringMap Bytes) : parsePairs [] params = params := by
  rw [parsePairs]
  split
  · rfl
  · rename_i h
    cases h

theorem parsePairs_of_getline {stream line rest : Bytes} (h : getlineUntil 38 stream = some (line, rest))
    (params : StringMap Bytes) :
    parsePairs stream params = parsePairs rest (match splitFirst 61 line with
      | some (key, value) => params.insert key value
      | none => params) := by
  rw [parsePairs]
  split
  · rename_i hnone
    rw [h] at hnone
    cases hnone
  · rename_i line' rest' hsome
    rw [h] at hsome
    cases hsome
    rfl

/-- A segment in front of an `&`. -/
theorem parsePairs_segment (h : segment.WellFormed) (rest : Bytes) (params : StringMap Bytes) :
    parsePairs (segment.text ++ 38 :: rest) params = parsePairs rest (segment.addTo params) := by
  rw [parsePairs_of_getline (getlineUntil_append h.no_ampersand rest), h.split]

/-- The last segment, which the stream does not have when it is empty. -/
theorem parsePairs_last (h : segment.WellFormed) (params : StringMap Bytes) :
    parsePairs segment.text params = segment.addTo params := by
  by_cases hne : segment.text = []
  · cases segment with
    | pair key value => simp [QuerySegment.text] at hne
    | other text =>
      rw [hne, parsePairs_nil]
      rfl
  · rw [parsePairs_of_getline (getlineUntil_last h.no_ampersand hne), h.split, parsePairs_nil]

/-- The loop goes through all segments. -/
theorem parsePairs_queryText (h : ∀ segment ∈ segments, segment.WellFormed) (params : StringMap Bytes) :
    parsePairs (queryText segments) params = segments.foldl QuerySegment.addTo params := by
  induction segments generalizing params with
  | nil => exact parsePairs_nil params
  | cons segment segments ih =>
    have hhead := h segment List.mem_cons_self
    have ih := ih fun s hs => h s (List.mem_cons_of_mem _ hs)
    cases segments with
    | nil => exact parsePairs_last hhead params
    | cons next segments =>
      rw [queryText, parsePairs_segment hhead, ih]
      rfl

theorem lastValue_pair (segments : List QuerySegment) (k value key : Bytes) :
    lastValue (segments ++ [.pair k value]) key = if k = key then some value else lastValue segments key := by
  unfold lastValue
  rw [List.filterMap_append]
  by_cases hkey : k = key
  · simp [QuerySegment.asPair, hkey]
  · simp [QuerySegment.asPair, hkey]

theorem lastValue_other (segments : List QuerySegment) (text key : Bytes) :
    lastValue (segments ++ [.other text]) key = lastValue segments key := by
  have hnone : [QuerySegment.other text].filterMap QuerySegment.asPair = [] := rfl
  unfold lastValue
  rw [List.filterMap_append, hnone, List.append_nil]

theorem getElem?_addTo_foldl (segments : List QuerySegment) (key : Bytes) :
    (segments.foldl QuerySegment.addTo ∅)[key]? = lastValue segments key := by
  induction segments using List.reverseRecOn with
  | nil => exact Std.ExtTreeMap.getElem?_empty
  | append_singleton segments segment ih =>
    rw [List.foldl_append, List.foldl_cons, List.foldl_nil]
    cases segment with
    | pair k value =>
      rw [lastValue_pair, ← ih]
      exact getElem?_insert _ _ _ _
    | other text => rwa [lastValue_other]

theorem splitFirst_query {path : Bytes} (hpath : 63 ∉ path) (segments : List QuerySegment) :
    splitFirst 63 (path ++ bytes "?" ++ queryText segments) = some (path, queryText segments) := by
  rw [List.append_assoc]
  exact splitFirst_append hpath _

end

/-- A path and a query made of pairs, with any other segments between them, are read back: the path as it is, and
each key with the value of its last pair. -/
theorem query_undone (path : Bytes) (segments : List QuerySegment) (hpath : 63 ∉ path)
    (hsegments : ∀ segment ∈ segments, segment.WellFormed) :
    (∀ key, (parseQueryParams (path ++ bytes "?" ++ queryText segments))[key]? = lastValue segments key) ∧
      extractPath (path ++ bytes "?" ++ queryText segments) = path := by
  constructor
  · intro key
    unfold parseQueryParams
    rw [splitFirst_query hpath]
    dsimp only
    rw [parsePairs_queryText hsegments, getElem?_addTo_foldl]
  · unfold extractPath
    rw [splitFirst_query hpath]

/-- A key that comes twice, a value with `=` and `?`, and an empty segment at the end. -/
theorem query_undone_repeated :
    (parseQueryParams (bytes "/task" ++ bytes "?" ++ bytes "id=1&x&id=a=?&"))[bytes "id"]? =
      some (bytes "a=?") := by
  have hquery := query_undone (bytes "/task")
    [.pair (bytes "id") (bytes "1"), .other (bytes "x"), .pair (bytes "id") (bytes "a=?"), .other []]
    (by decide) (by
      intro segment hsegment
      simp only [List.mem_cons, List.not_mem_nil, or_false] at hsegment
      rcases hsegment with rfl | rfl | rfl | rfl
      · exact ⟨by decide, by decide, by decide⟩
      · exact ⟨by decide, by decide⟩
      · exact ⟨by decide, by decide, by decide⟩
      · exact ⟨by decide, by decide⟩)
  exact hquery.1 (bytes "id")

end Taskflow
