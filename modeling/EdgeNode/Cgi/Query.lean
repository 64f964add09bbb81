import EdgeNode.Lib.CString

/-! The query string of a CGI request: its tuples counted by `FTE_CGI_QUERY_count` and cut out in place
by `FTE_CGI_QUERY_parser`. -/

namespace EdgeNode.Cgi

open CString

def ampersand : UInt8 := 38
def equals : UInt8 := 61

section Count

/-- The loop of `FTE_CGI_QUERY_count` from `pStart` on. Every round passes a separator, so that as many
rounds as the string has bytes are enough. -/
def countFrom (pQuery : List UInt8) : Nat → Nat → Nat → Option Nat
  | 0, _, _ => none
  | k + 1, pStart, ulCount => do
    let pEnd ← strchr pQuery pStart ampersand
    let pValue ← strchr pQuery pStart equals
    let ulCount := if pValue.isSome then ulCount + 1 else ulCount
    match pEnd with
    | none => some ulCount
    | some e => countFrom pQuery k (e + 1) ulCount

/-- `FTE_CGI_QUERY_count`; no string in memory has enough characters to wrap the count. -/
def count (pQuery : List UInt8) : Option Nat := do
  let n ← strlen pQuery 0
  if n ≠ 0 then countFrom pQuery pQuery.length 0 0 else some 0

end Count

section Parse

/-- `FTE_CGI_QUERY_TUPLE`, with its pointers as positions in the string. -/
structure Tuple where
  pName : Nat
  pValue : Nat

/-- `FTE_CGI_QUERY`, where `ulCount` is the number of tuples. -/
structure Query where
  ulMaxCount : Nat
  pTuples : List Tuple

/-- `FTE_CGI_QUERY_alloc`. -/
def alloc (ulCount : Nat) : Query := ⟨ulCount, []⟩

/-- The entry behind the last tuple, which is to be one of the table. -/
def Query.store (pQuery : Query) (t : Tuple) : Option Query :=
  if pQuery.pTuples.length < pQuery.ulMaxCount then
    some { pQuery with pTuples := pQuery.pTuples ++ [t] }
  else none

/-- The rest of a round once the segment at `pStart` is cut off. -/
def parseSegment (pString : List UInt8) (pStart : Nat) (pQuery : Query) :
    Option (List UInt8 × Query) := do
  let pValue ← strchr pString pStart equals
  match pValue with
  | none => some (pString, pQuery)
  | some v => do
    let pString ← poke pString v 0
    let pQuery ← pQuery.store ⟨pStart, v + 1⟩
    some (pString, pQuery)

/-- The loop of `FTE_CGI_QUERY_parser`. -/
def parseFrom : Nat → List UInt8 → Nat → Query → Option (List UInt8 × Query)
  | 0, _, _, _ => none
  | k + 1, pString, pStart, pQuery => do
    let pEnd ← strchr pString pStart ampersand
    match pEnd with
    | none => parseSegment pString pStart pQuery
    | some e => do
      let pString ← poke pString e 0
      let (pString, pQuery) ← parseSegment pString pStart pQuery
      parseFrom k pString (e + 1) pQuery

/-- `FTE_CGI_QUERY_parser`. -/
def parse (pString : List UInt8) (pQuery : Query) : Option (List UInt8 × Query) := do
  let pQuery := { pQuery with pTuples := [] }
  let n ← strlen pString 0
  if n = 0 then some (pString, pQuery) else parseFrom pString.length pString 0 pQuery

end Parse

section Spec

/-- Name and value of a segment, on both sides of its first `=`. -/
def pair (segment : List UInt8) : Option (List UInt8 × List UInt8) :=
  if equals ∈ segment then
    some (segment.takeWhile (· ≠ equals), (segment.dropWhile (· ≠ equals)).tail)
  else none

def pairs (s : List UInt8) : List (List UInt8 × List UInt8) :=
  (s.splitOn ampersand).filterMap pair

/-- What a tuple stands for in the string that was cut. -/
def Tuple.texts (pString : List UInt8) (t : Tuple) : List UInt8 × List UInt8 :=
  (textAt pString t.pName, textAt pString t.pValue)

theorem pairs_last {s : List UInt8} (h : ampersand ∉ s) : pairs s = (pair s).toList := by
  rw [pairs, List.splitOn_eq_singleton h, List.filterMap_cons]
  cases pair s <;> rfl

theorem pairs_next {segment : List UInt8} (h : ampersand ∉ segment) (s : List UInt8) :
    pairs (segment ++ ampersand :: s) = (pair segment).toList ++ pairs s := by
  rw [pairs, List.splitOn_append_cons_self_of_not_mem h, List.filterMap_cons, pairs]
  cases pair segment <;> rfl

end Spec

section Proofs

variable {pre post segment : List UInt8} {pQuery : Query}

theorem length_pair_le (segment : List UInt8) :
    (pair segment).toList.length = if equals ∈ segment then 1 else 0 := by
  unfold pair
  split
  · rfl
  · rfl

theorem ampersand_ne_zero : ampersand ≠ 0 := by decide

theorem equals_ne_zero : equals ≠ 0 := by decide

theorem pair_append {name : List UInt8} (h : equals ∉ name) (value : List UInt8) :
    pair (name ++ equals :: value) = some (name, value) := by
  have hname : ∀ b ∈ name, decide (b ≠ equals) = true := by
    intro b hb
    exact decide_eq_true fun he => h (he ▸ hb)
  rw [pair, if_pos (List.mem_append_right _ List.mem_cons_self), List.takeWhile_append_of_pos hname,
    List.dropWhile_append_of_pos hname]
  simp

/-- The counter looks for the `=` behind the next separator too, and counts no less than there are
pairs. -/
theorem countFrom_spec (s : List UInt8) (hs : 0 ∉ s) (pre : List UInt8) (k ulCount : Nat)
    (hk : s.length < k) :
    ∃ n, countFrom (pre ++ (s ++ [0])) k pre.length ulCount = some n ∧
      ulCount + (pairs s).length ≤ n := by
  induction s using split_induction ampersand generalizing pre k ulCount with
  | last s hlast =>
    cases k with
    | zero => exact absurd hk (Nat.not_lt_zero _)
    | succ k =>
      obtain ⟨r, hr, hfound⟩ := strchr_isSome pre [] hs equals_ne_zero
      have hlen := length_pair_le s
      rw [countFrom, strchr_missing hlast hs ampersand_ne_zero, hr, pairs_last hlast]
      refine ⟨_, rfl, ?_⟩
      split
      next h =>
        rw [if_pos (hfound.mp h)] at hlen
        omega
      next h =>
        rw [if_neg (mt hfound.mpr h)] at hlen
        omega
  | next segment s hseg ih =>
    cases k with
    | zero => exact absurd hk (Nat.not_lt_zero _)
    | succ k =>
      obtain ⟨r, hr, hfound⟩ := strchr_isSome pre [] hs equals_ne_zero
      have hlen := length_pair_le segment
      have hz : 0 ∉ segment := fun h => hs (List.mem_append_left _ h)
      have hz' : 0 ∉ s := fun h => hs (List.mem_append_right _ (List.mem_cons_of_mem _ h))
      have hmem : equals ∈ segment → r.isSome = true := fun h =>
        hfound.mpr (List.mem_append_left _ h)
      have hk' : s.length < k := by
        rw [List.length_append, List.length_cons] at hk
        omega
      obtain ⟨n, hn, hle⟩ := ih hz' (pre ++ (segment ++ [ampersand])) k
        (if r.isSome then ulCount + 1 else ulCount) hk'
      have hbuf : pre ++ (segment ++ ampersand :: s ++ [0]) =
          (pre ++ (segment ++ [ampersand])) ++ (s ++ [0]) := by simp
      have hpos : (pre ++ (segment ++ [ampersand])).length = pre.length + segment.length + 1 := by
        simp [Nat.add_assoc]
      have hamp : strchr (pre ++ (segment ++ ampersand :: s ++ [0])) pre.length ampersand =
          some (some (pre.length + segment.length)) := by
        rw [List.append_assoc]
        exact strchr_found hseg hz
      refine ⟨n, ?_, ?_⟩
      · rw [countFrom, hamp, hr, hbuf]
        rw [hpos] at hn
        exact hn
      · rw [pairs_next hseg, List.length_append]
        split at hle
        next h =>
          split at hlen <;> omega
        next h =>
          rw [if_neg (mt hmem h)] at hlen
          omega

theorem parseSegment_spec (pre post : List UInt8) (hz : 0 ∉ segment)
    (hroom : pQuery.pTuples.length + (pair segment).toList.length ≤ pQuery.ulMaxCount) :
    ∃ rest new, parseSegment (pre ++ (segment ++ 0 :: post)) pre.length pQuery =
        some (pre ++ (rest ++ 0 :: post), { pQuery with pTuples := pQuery.pTuples ++ new }) ∧
      rest.length = segment.length ∧
      ∀ post', new.map (Tuple.texts (pre ++ (rest ++ 0 :: post'))) = (pair segment).toList := by
  by_cases he : equals ∈ segment
  · obtain ⟨name, value, rfl, hname⟩ := List.eq_append_cons_of_mem he
    have hzn : 0 ∉ name := fun h => hz (List.mem_append_left _ h)
    have hzv : 0 ∉ value := fun h => hz (List.mem_append_right _ (List.mem_cons_of_mem _ h))
    rw [pair_append hname] at hroom ⊢
    refine ⟨name ++ 0 :: value, [⟨pre.length, pre.length + name.length + 1⟩], ?_, ?_, ?_⟩
    · have hpoke := poke_append (pre ++ name) (value ++ 0 :: post) equals 0
      rw [List.append_assoc, List.append_assoc, List.length_append] at hpoke
      rw [parseSegment, List.append_assoc, List.cons_append, strchr_found hname hzn]
      simp only [Option.bind_eq_bind, Option.bind_some]
      have hfree : pQuery.pTuples.length < pQuery.ulMaxCount := hroom
      rw [hpoke, Option.bind_some, Query.store, if_pos hfree]
      simp
    · simp
    · intro post'
      have hvalue : textAt (pre ++ (name ++ 0 :: (value ++ 0 :: post')))
          (pre.length + name.length + 1) = value := by
        have hsame : pre ++ (name ++ 0 :: (value ++ 0 :: post')) =
            (pre ++ (name ++ [0])) ++ (value ++ 0 :: post') := by simp
        have hpos : pre.length + name.length + 1 = (pre ++ (name ++ [0])).length := by
          simp [Nat.add_assoc]
        rw [hsame, hpos]
        exact textAt_append hzv
      rw [List.append_assoc, List.cons_append, List.map_cons, Tuple.texts, textAt_append hzn, hvalue]
      rfl
  · refine ⟨segment, [], ?_, rfl, fun post' => ?_⟩
    · rw [parseSegment, strchr_missing he hz equals_ne_zero]
      simp
    · rw [pair, if_neg he]
      rfl

/-- From a segment on the string is cut into the texts of its pairs; what stands before is left as it
is. -/
theorem parseFrom_spec (s : List UInt8) (hs : 0 ∉ s) (pre : List UInt8) (k : Nat) (pQuery : Query)
    (hk : s.length < k) (hroom : pQuery.pTuples.length + (pairs s).length ≤ pQuery.ulMaxCount) :
    ∃ rest new, parseFrom k (pre ++ (s ++ [0])) pre.length pQuery =
        some (pre ++ (rest ++ [0]), { pQuery with pTuples := pQuery.pTuples ++ new }) ∧
      new.map (Tuple.texts (pre ++ (rest ++ [0]))) = pairs s := by
  induction s using split_induction ampersand generalizing pre k pQuery with
  | last s hlast =>
    cases k with
    | zero => exact absurd hk (Nat.not_lt_zero _)
    | succ k =>
      rw [pairs_last hlast] at hroom ⊢
      obtain ⟨rest, new, hsegment, -, htexts⟩ := parseSegment_spec pre [] hs hroom
      refine ⟨rest, new, ?_, htexts []⟩
      rw [parseFrom, strchr_missing hlast hs ampersand_ne_zero]
      exact hsegment
  | next segment s hseg ih =>
    cases k with
    | zero => exact absurd hk (Nat.not_lt_zero _)
    | succ k =>
      have hz : 0 ∉ segment := fun h => hs (List.mem_append_left _ h)
      have hz' : 0 ∉ s := fun h => hs (List.mem_append_right _ (List.mem_cons_of_mem _ h))
      rw [pairs_next hseg, List.length_append] at hroom
      have hfirst : pQuery.pTuples.length + (pair segment).toList.length ≤ pQuery.ulMaxCount := by omega
      obtain ⟨first, new, hsegment, hlen, htexts⟩ := parseSegment_spec pre (s ++ [0]) hz hfirst
      have hnew : new.length = (pair segment).toList.length := by
        rw [← htexts [], List.length_map]
      have hk' : s.length < k := by
        rw [List.length_append, List.length_cons] at hk
        omega
      have hroom' : (pQuery.pTuples ++ new).length + (pairs s).length ≤ pQuery.ulMaxCount := by
        rw [List.length_append, hnew]
        omega
      obtain ⟨rest, more, hmore, htexts'⟩ := ih hz' (pre ++ (first ++ [0])) k
        { pQuery with pTuples := pQuery.pTuples ++ new } hk' hroom'
      have hbuf : pre ++ (first ++ 0 :: (s ++ [0])) = (pre ++ (first ++ [0])) ++ (s ++ [0]) := by simp
      have hbuf' : pre ++ (first ++ 0 :: rest ++ [0]) = (pre ++ (first ++ [0])) ++ (rest ++ [0]) := by
        simp
      have hpos : (pre ++ (first ++ [0])).length = pre.length + segment.length + 1 := by
        simp [hlen, Nat.add_assoc]
      have hpoke := poke_append (pre ++ segment) (s ++ [0]) ampersand 0
      rw [List.append_assoc, List.append_assoc, List.length_append] at hpoke
      refine ⟨first ++ 0 :: rest, new ++ more, ?_, ?_⟩
      · rw [parseFrom, List.append_assoc, List.cons_append, strchr_found hseg hz]
        simp only [Option.bind_eq_bind, Option.bind_some]
        rw [hpoke, Option.bind_some, hsegment]
        rw [← hbuf, ← hbuf', hpos] at hmore
        rw [Option.bind_some, hmore, ← List.append_assoc pQuery.pTuples]
      · rw [pairs_next hseg, List.map_append, hbuf', htexts', ← hbuf', List.append_assoc,
          List.cons_append, htexts (rest ++ [0])]

end Proofs

/-- Both scans stay in the string, the tuples stay in the table that the counter sizes, and they are the
pairs of the string. -/
theorem query_parsed (s : Text) : ∃ ulCount pString pQuery, count s.buffer = some ulCount ∧
    parse s.buffer (alloc ulCount) = some (pString, pQuery) ∧
    pQuery.pTuples.length ≤ ulCount ∧
    pQuery.pTuples.map (Tuple.texts pString) = pairs s.val := by
  have hstrlen : strlen s.buffer 0 = some s.val.length :=
    strlen_append [] [] s.property
  by_cases hempty : s.val.length = 0
  · have hnil : s.val = [] := List.eq_nil_of_length_eq_zero hempty
    refine ⟨0, s.buffer, ⟨0, []⟩, ?_, ?_, Nat.le_refl 0, ?_⟩
    · rw [count, hstrlen, hempty]
      rfl
    · rw [parse, hstrlen, hempty]
      rfl
    · rw [hnil]
      rfl
  · have hlong : s.val.length < s.buffer.length := by simp [Text.buffer]
    obtain ⟨n, hcount, hle⟩ := countFrom_spec s.val s.property [] s.buffer.length 0 hlong
    rw [Nat.zero_add] at hle
    obtain ⟨rest, new, hparse, htexts⟩ := parseFrom_spec s.val s.property [] s.buffer.length
      (alloc n) hlong (by rwa [alloc, List.length_nil, Nat.zero_add])
    refine ⟨n, [] ++ (rest ++ [0]), ⟨n, [] ++ new⟩, ?_, ?_, ?_, htexts⟩
    · rw [count, hstrlen, Option.bind_eq_bind, Option.bind_some, if_pos hempty]
      exact hcount
    · rw [parse, hstrlen, Option.bind_eq_bind, Option.bind_some, if_neg hempty]
      exact hparse
    · have hlen := congrArg List.length htexts
      rw [List.length_map] at hlen
      rw [← hlen] at hle
      exact hle

end EdgeNode.Cgi
