import MeshDB.Roachpb.MergeSpans

/-!
# Spans in memory

The size of a span counts the capacities of the slices of its keys, which its bytes do not
determine. `MergeSpans` and `Combine` hand slices on, and `Next` may allocate one. Forgetting the
capacities gives the operations on spans.
-/
open Option
namespace MeshDB.Roachpb.Span

def valid (sp : Span) : Bool :=
  if sp.key.isEmpty && sp.endKeyBytes.isEmpty then false
  else if sp.endKeyBytes.isEmpty then true
  else sp.key < sp.endKeyBytes

def combineMin (s o : Span) : Key := if o.key < s.key then o.key else s.key

def combineMax (s o : Span) : Key :=
  let max := if s.endKeyBytes.isEmpty then s.key else s.endKeyBytes
  let max := if o.key < s.key then max else if max < o.key then o.key else max
  if max < o.endKeyBytes then o.endKeyBytes else max

/-- The least span that contains both spans and what lies between them. -/
def combine (s o : Span) : Span :=
  if !s.valid || !o.valid then ⟨[], none⟩
  else
    let min := combineMin s o
    let max := combineMax s o
    if min = max then ⟨min, none⟩
    else if s.key = max ∨ o.key = max then ⟨min, some max.next⟩
    else ⟨min, some max⟩

end MeshDB.Roachpb.Span

namespace MeshDB.KvCoord

open Roachpb

/-- The bytes of a key and the capacity of the slice that holds them. -/
structure KeySlice where
  key : Key
  cap : ℕ
  length_le : key.length ≤ cap
deriving DecidableEq

/-- A slice without spare capacity. -/
def KeySlice.ofKey (k : Key) : KeySlice := ⟨k, k.length, le_rfl⟩

lemma length_next (k : Key) : k.next.length = k.length + 1 := by
  simp [Key.next]

/-- `BytesNext`: the slice is extended in place if the byte after it happens to be zero. -/
def KeySlice.next (b : KeySlice) (zeroAfter : Bool) : KeySlice :=
  if h : b.key.length < b.cap ∧ zeroAfter then ⟨b.key.next, b.cap, (length_next _).trans_le h.1⟩
  else .ofKey b.key.next

structure StoredSpan where
  key : KeySlice
  endKey : Option KeySlice := none
deriving DecidableEq

namespace StoredSpan

/-- The span without the capacities. -/
def span (sp : StoredSpan) : Span := ⟨sp.key.key, sp.endKey.map KeySlice.key⟩

def ofSpan (sp : Span) : StoredSpan := ⟨.ofKey sp.key, sp.endKey.map .ofKey⟩

lemma span_ofSpan (sp : Span) : (ofSpan sp).span = sp := by
  obtain ⟨key, endKey⟩ := sp
  cases endKey <;> rfl

end StoredSpan

/-- `SpanOverhead` is the size of the two slice headers. -/
def spanSize (sp : StoredSpan) : Int := 48 + (sp.key.cap + (sp.endKey.map KeySlice.cap).getD 0 : ℕ)

structure SpanBucket where
  rangeID : ℕ
  bytes : Int
  spans : List StoredSpan
deriving DecidableEq

def bucketOrder (a b : SpanBucket) : Prop := b.bytes ≤ a.bytes

instance : DecidableRel bucketOrder := fun a b => inferInstanceAs (Decidable (b.bytes ≤ a.bytes))

def StoredSpan.sortLe (a b : StoredSpan) : Prop := a.span.sortLe b.span

instance : DecidableRel StoredSpan.sortLe := fun a b =>
  inferInstanceAs (Decidable (a.span.sortLe b.span))

/-- What the language leaves open: the bytes behind a slice, and the order of equal elements after
an unstable sort. -/
structure Runtime where
  zeroAfter : KeySlice → Bool
  sortSpans : List StoredSpan → List StoredSpan
  sortBuckets : List SpanBucket → List SpanBucket
  sortSpans_perm : ∀ spans, (sortSpans spans).Perm spans
  sortSpans_sorted : ∀ spans, (sortSpans spans).Pairwise StoredSpan.sortLe
  sortBuckets_perm : ∀ buckets, (sortBuckets buckets).Perm buckets
  sortBuckets_sorted : ∀ buckets, (sortBuckets buckets).Pairwise bucketOrder

/-- Stable sorts, and no zero byte behind a slice. -/
def Runtime.stable : Runtime where
  zeroAfter _ := false
  sortSpans := List.insertionSort StoredSpan.sortLe
  sortBuckets := List.insertionSort bucketOrder
  sortSpans_perm := List.perm_insertionSort _
  sortSpans_sorted spans := by
    have htotal : Std.Total StoredSpan.sortLe :=
      ⟨fun a b => le_total a.span.sortKey b.span.sortKey⟩
    have htrans : IsTrans StoredSpan StoredSpan.sortLe := ⟨fun _ _ _ h1 h2 => le_trans h1 h2⟩
    exact List.pairwise_insertionSort _ spans
  sortBuckets_perm := List.perm_insertionSort _
  sortBuckets_sorted buckets := by
    have htotal : Std.Total bucketOrder := ⟨fun a b => le_total b.bytes a.bytes⟩
    have htrans : IsTrans SpanBucket bucketOrder := ⟨fun _ _ _ h1 h2 => le_trans h2 h1⟩
    exact List.pairwise_insertionSort _ buckets

/-! ## Merging -/

/-- The spans before the last one of the result, and the last one. -/
structure StoredMerge where
  done : List StoredSpan
  prev : StoredSpan

namespace StoredMerge

def append (st : StoredMerge) (cur : StoredSpan) : StoredMerge :=
  ⟨st.done ++ [st.prev], cur⟩

def mergeTouching (rt : Runtime) (st : StoredMerge) (cur : StoredSpan) : StoredMerge :=
  match cur.endKey with
  | some endKey =>
    if st.prev.span.endKeyBytes < endKey.key then
      { st with prev := { st.prev with endKey := some endKey } }
    else st
  | none =>
    if cur.key.key = st.prev.span.endKeyBytes then
      { st with prev := { st.prev with endKey := some (cur.key.next (rt.zeroAfter cur.key)) } }
    else st

def mergeStep (rt : Runtime) (st : StoredMerge) (cur : StoredSpan) : StoredMerge :=
  if cur.span.isPoint && st.prev.span.isPoint then
    if cur.key.key ≠ st.prev.key.key then st.append cur else st
  else if st.prev.span.isPoint then
    if cur.key.key = st.prev.key.key then
      { st with prev := { st.prev with endKey := cur.endKey } }
    else st.append cur
  else if cur.key.key ≤ st.prev.span.endKeyBytes then mergeTouching rt st cur
  else st.append cur

/-- The state of the loop over the spans without capacities. -/
structure Forgets (st : StoredMerge) (m : MergeState) : Prop where
  done : m.done = st.done.map StoredSpan.span
  prev : m.prev = st.prev.span

end StoredMerge

/-- `MergeSpans` of spans in memory. -/
def mergeStored (rt : Runtime) (spans : List StoredSpan) : List StoredSpan :=
  match rt.sortSpans spans with
  | [] => []
  | sp :: rest =>
    let st := rest.foldl (StoredMerge.mergeStep rt) ⟨[], sp⟩
    st.done ++ [st.prev]

variable {rt : Runtime} {spans : List StoredSpan}

lemma KeySlice.key_next (b : KeySlice) (zeroAfter : Bool) : (b.next zeroAfter).key = b.key.next := by
  unfold next
  split_ifs <;> rfl

namespace StoredMerge

variable {st : StoredMerge} {m : MergeState}

lemma Forgets.append (h : Forgets st m) (cur : StoredSpan) :
    Forgets (st.append cur) (m.append cur.span) where
  done := by simp [MergeState.append, StoredMerge.append, h.done, h.prev]
  prev := rfl

lemma Forgets.mergeTouching (h : Forgets st m) (cur : StoredSpan) :
    Forgets (mergeTouching rt st cur) (Roachpb.mergeTouching m cur.span) := by
  obtain ⟨done, prev, distinct⟩ := m
  obtain ⟨rfl, rfl⟩ := h
  obtain ⟨key, endKey⟩ := cur
  cases endKey with
  | some endKey =>
    have hcur : StoredSpan.span ⟨key, some endKey⟩ = ⟨key.key, some endKey.key⟩ := rfl
    rw [hcur, StoredMerge.mergeTouching, Roachpb.mergeTouching]
    dsimp only
    split_ifs <;> exact ⟨rfl, rfl⟩
  | none =>
    have hcur : StoredSpan.span ⟨key, none⟩ = ⟨key.key, none⟩ := rfl
    rw [hcur, StoredMerge.mergeTouching, Roachpb.mergeTouching]
    dsimp only
    split_ifs
    · exact ⟨rfl, by simp [StoredSpan.span, KeySlice.key_next]⟩
    · exact ⟨rfl, rfl⟩

lemma Forgets.mergeStep (h : Forgets st m) (cur : StoredSpan) :
    Forgets (mergeStep rt st cur) (Roachpb.mergeStep m cur.span) := by
  have hkey : cur.span.key = cur.key.key := rfl
  have hprev : st.prev.span.key = st.prev.key.key := rfl
  unfold StoredMerge.mergeStep Roachpb.mergeStep
  rw [h.prev, hkey, hprev]
  split_ifs
  · exact h.append cur
  · exact ⟨h.done, rfl⟩
  · exact ⟨h.done, rfl⟩
  · exact h.append cur
  · exact h.mergeTouching cur
  · exact h.append cur

lemma Forgets.mergeLoop (h : Forgets st m) (rest : List StoredSpan) :
    Forgets (rest.foldl (StoredMerge.mergeStep rt) st)
      ((rest.map StoredSpan.span).foldl Roachpb.mergeStep m) := by
  induction rest generalizing st m with
  | nil => exact h
  | cons cur rest ih => exact ih (h.mergeStep cur)

lemma mergeStep_cases (st : StoredMerge) (cur : StoredSpan) :
    mergeStep rt st cur = st.append cur ∨ (mergeStep rt st cur).done = st.done := by
  have htouching : (mergeTouching rt st cur).done = st.done := by
    unfold mergeTouching
    cases cur.endKey with
    | some endKey => dsimp only; split_ifs <;> rfl
    | none => dsimp only; split_ifs <;> rfl
  unfold mergeStep
  split_ifs <;> simp [htouching]

lemma mergeLoop_length (rest : List StoredSpan) (st : StoredMerge) :
    (rest.foldl (mergeStep rt) st).done.length ≤ st.done.length + rest.length ∧
      ((rest.foldl (mergeStep rt) st).done.length = st.done.length + rest.length →
        (rest.foldl (mergeStep rt) st).done ++ [(rest.foldl (mergeStep rt) st).prev] =
          st.done ++ st.prev :: rest) := by
  induction rest generalizing st with
  | nil => simp
  | cons cur rest ih =>
    obtain ⟨hle, heq⟩ := ih (mergeStep rt st cur)
    rw [List.foldl_cons, List.length_cons]
    rcases @mergeStep_cases rt st cur with h | h
    · have hlength : (st.append cur).done.length = st.done.length + 1 := by simp [append]
      rw [h] at hle heq ⊢
      refine ⟨by omega, fun hall => ?_⟩
      rw [heq (by omega)]
      simp [append]
    rw [h] at hle
    refine ⟨by omega, fun hlength => ?_⟩
    omega

end StoredMerge

/-- If no span was merged into another one, the spans are those of before. -/
lemma mergeStored_perm (h : (mergeStored rt spans).length = spans.length) :
    (mergeStored rt spans).Perm spans := by
  have hperm := rt.sortSpans_perm spans
  rw [← hperm.length_eq] at h
  refine List.Perm.trans ?_ hperm
  unfold mergeStored at h ⊢
  cases hlist : rt.sortSpans spans with
  | nil => simp
  | cons sp rest =>
    rw [hlist] at h
    have heq := (@StoredMerge.mergeLoop_length rt rest ⟨[], sp⟩).2
    simp only [List.length_append, List.length_cons, List.length_nil, List.nil_append] at h heq
    dsimp only
    rw [heq (by omega)]

lemma Span.eq_of_sortLe {a b : Span} (ha : a.Proper) (hb : b.Proper) (hab : a.sortLe b)
    (hba : b.sortLe a) : a = b := by
  have hkeys : (a.key, a.endKeyBytes) = (b.key, b.endKeyBytes) :=
    congrArg ofLex (le_antisymm hab hba : a.sortKey = b.sortKey)
  obtain ⟨hkey, hend⟩ := Prod.mk.inj hkeys
  have ha' := ha.endKey_ne
  have hb' := hb.endKey_ne
  obtain ⟨key, endKey⟩ := a
  obtain ⟨key', endKey'⟩ := b
  cases endKey <;> cases endKey' <;> simp_all [Span.endKeyBytes]

/-- Merging spans in memory merges the spans. -/
lemma map_span_mergeStored (h : ∀ sp ∈ spans, sp.span.Proper) :
    (mergeStored rt spans).map StoredSpan.span =
      (mergeSpans (spans.map StoredSpan.span)).1 := by
  have hsorted : (rt.sortSpans spans).map StoredSpan.span =
      (spans.map StoredSpan.span).insertionSort Span.sortLe := by
    refine List.Perm.eq_of_pairwise ?_ (List.pairwise_map.mpr (rt.sortSpans_sorted spans))
      (pairwise_sortLe _)
      (((rt.sortSpans_perm spans).map _).trans (List.perm_insertionSort _ _).symm)
    intro a b ha hb hab hba
    have hproper : ∀ sp ∈ spans.map StoredSpan.span, sp.Proper := List.forall_mem_map.mpr h
    refine Span.eq_of_sortLe (hproper a ?_) (hproper b ?_) hab hba
    · exact ((rt.sortSpans_perm spans).map _).subset ha
    · exact (List.perm_insertionSort _ _).subset hb
  unfold mergeStored mergeSpans
  rw [← hsorted]
  cases rt.sortSpans spans with
  | nil => rfl
  | cons sp rest =>
    have hstart : StoredMerge.Forgets ⟨[], sp⟩ ⟨[], sp.span, true⟩ := ⟨rfl, rfl⟩
    have hloop := @StoredMerge.Forgets.mergeLoop rt _ _ hstart rest
    rw [List.map_cons, mergeSorted]
    dsimp only
    rw [hloop.done, hloop.prev, List.map_append, List.map_singleton]

/-! ## Combining -/

namespace StoredSpan

def combineMin (s o : StoredSpan) : KeySlice := if o.key.key < s.key.key then o.key else s.key

/-- The end key, or the key of a point. -/
def lastSlice (sp : StoredSpan) : KeySlice :=
  match sp.endKey with
  | some endKey => if endKey.key.isEmpty then sp.key else endKey
  | none => sp.key

def combineMax (s o : StoredSpan) : KeySlice :=
  let max := s.lastSlice
  let max := if o.key.key < s.key.key then max else if max.key < o.key.key then o.key else max
  match o.endKey with
  | some endKey => if max.key < endKey.key then endKey else max
  | none => max

/-- `Combine` of spans in memory. -/
def combine (rt : Runtime) (s o : StoredSpan) : StoredSpan :=
  if !s.span.valid || !o.span.valid then ⟨.ofKey [], none⟩
  else
    let min := combineMin s o
    let max := combineMax s o
    if min.key = max.key then ⟨min, none⟩
    else if s.key.key = max.key ∨ o.key.key = max.key then
      ⟨min, some (max.next (rt.zeroAfter max))⟩
    else ⟨min, some max⟩

lemma key_combineMin (s o : StoredSpan) :
    (combineMin s o).key = Span.combineMin s.span o.span := by
  unfold combineMin Span.combineMin
  exact apply_ite KeySlice.key _ _ _

lemma key_lastSlice (sp : StoredSpan) : sp.lastSlice.key =
    if sp.span.endKeyBytes.isEmpty then sp.span.key else sp.span.endKeyBytes := by
  obtain ⟨key, endKey⟩ := sp
  cases endKey with
  | none => rfl
  | some endKey =>
    exact apply_ite KeySlice.key _ _ _

lemma key_combineMax (s o : StoredSpan) :
    (combineMax s o).key = Span.combineMax s.span o.span := by
  obtain ⟨key, endKey⟩ := o
  unfold combineMax Span.combineMax
  rw [← key_lastSlice]
  have hmax : (if key.key < s.key.key then s.lastSlice
      else if s.lastSlice.key < key.key then key else s.lastSlice).key =
      if key.key < s.key.key then s.lastSlice.key
      else if s.lastSlice.key < key.key then key.key else s.lastSlice.key := by
    split_ifs <;> rfl
  cases endKey with
  | none => exact hmax.trans (if_neg (Key.not_lt_nil _)).symm
  | some endKey =>
    dsimp only
    rw [apply_ite KeySlice.key, hmax]
    rfl

lemma span_combine (s o : StoredSpan) : (combine rt s o).span = s.span.combine o.span := by
  unfold combine Span.combine
  rw [← key_combineMin, ← key_combineMax]
  dsimp only
  have hs : s.span.key = s.key.key := rfl
  have ho : o.span.key = o.key.key := rfl
  rw [hs, ho]
  split_ifs
  · rfl
  · rfl
  · simp [span, KeySlice.key_next]
  · rfl

end StoredSpan
end MeshDB.KvCoord
