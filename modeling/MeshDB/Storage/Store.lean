import Mathlib.Algebra.BigOperators.Group.List.Basic
import MeshDB.Storage.Mvcc

/-!
# The contents of an engine

The keys of an engine with their metadata and versions, and its MVCC range keys as fragments that
do not overlap. A combined iterator sees a range key at a position of its own only at its start.
-/
namespace MeshDB.Storage

open List Roachpb Hlc

lemma nil_lt_key {k : Key} (h : k ≠ []) : ([] : Key) < k := by
  cases k with
  | nil => exact absurd rfl h
  | cons b k => exact nil_lt_cons b k

lemma nil_le_key (k : Key) : ([] : Key) ≤ k := by
  by_cases h : k = []
  · exact h.ge
  · exact (nil_lt_key h).le

/-- The range keys between two keys, newest first. -/
structure RangeKeyStack where
  key : Key
  endKey : Key
  versions : List Version
deriving DecidableEq

def RangeKeyStack.contains (r : RangeKeyStack) (k : Key) : Bool :=
  decide (r.key ≤ k) && decide (k < r.endKey)

/-- A key with its metadata and its versions, newest first. -/
structure StoreKey where
  key : Key
  metadata : Option MVCCMetadata := none
  versions : List Version := []
deriving DecidableEq

structure Store where
  keys : List StoreKey := []
  rangeKeys : List RangeKeyStack := []
deriving DecidableEq

/-! ## Positions -/

inductive Point where
  | metadata (m : MVCCMetadata)
  | version (v : Version)
deriving DecidableEq

structure StorePosition where
  key : Key
  /-- What `HasPointAndRange` reports as the point. -/
  point : Option Point
  stack : Option RangeKeyStack
deriving DecidableEq

namespace Store

variable (s : Store)

def stackAt (k : Key) : Option RangeKeyStack := s.rangeKeys.find? (·.contains k)

def tombstonesAt (k : Key) : List Version :=
  match s.stackAt k with
  | some r => r.versions
  | none => []

def pointPositions (d : StoreKey) : List StorePosition :=
  (d.metadata.toList.map fun m => ⟨d.key, some (.metadata m), s.stackAt d.key⟩) ++
    d.versions.map fun v => ⟨d.key, some (.version v), s.stackAt d.key⟩

/-- With the position of a range key that starts there unless the metadata shares it. -/
def keyPositions (d : StoreKey) : List StorePosition :=
  if d.metadata.isNone ∧ s.rangeKeys.any (fun r => r.key = d.key) then
    ⟨d.key, none, s.stackAt d.key⟩ :: s.pointPositions d
  else s.pointPositions d

def addSlot (k : Key) (slots : List StoreKey) : List StoreKey :=
  if slots.any fun d => d.key = k then slots else OrderedSet.set StoreKey.key ⟨k, none, []⟩ slots

/-- The keys, with those at which only a range key starts. -/
def slots : List StoreKey := s.rangeKeys.foldr (fun r => addSlot r.key) s.keys

def positions : List StorePosition := s.slots.flatMap s.keyPositions

end Store

/-! ## Bounds -/

def RangeKeyStack.clip (lower upper : Key) (r : RangeKeyStack) : Option RangeKeyStack :=
  if max lower r.key < min upper r.endKey then
    some ⟨max lower r.key, min upper r.endKey, r.versions⟩
  else none

def Store.restrict (s : Store) (lower upper : Key) : Store where
  keys := s.keys.filter fun d => decide (lower ≤ d.key) && decide (d.key < upper)
  rangeKeys := s.rangeKeys.filterMap (RangeKeyStack.clip lower upper)

/-! ## Well-formed contents -/

/-- A key is committed, inline, or has an intent whose provisional value is its newest
version. -/
inductive StoreKey.Wf : StoreKey → Prop
  | committed {key : Key} {versions : List Version} (nonempty : versions ≠ [])
      (descending : Descending versions) (stamps : ∀ v ∈ versions, Stamp v.timestamp) :
      Wf ⟨key, none, versions⟩
  | inline {key : Key} {m : MVCCMetadata} (inline : m.isInline) : Wf ⟨key, some m, []⟩
  | intent {key : Key} {m : MVCCMetadata} {v : Version} {versions : List Version}
      (inline : m.isInline = false) (timestamp : v.timestamp.ord = m.timestamp.ord)
      (descending : Descending (v :: versions))
      (stamps : ∀ w ∈ v :: versions, Stamp w.timestamp) : Wf ⟨key, some m, v :: versions⟩

structure RangeKeyStack.Wf (r : RangeKeyStack) : Prop where
  key_ne : r.key ≠ []
  bounds : r.key < r.endKey
  descending : Descending r.versions
  stamps : ∀ v ∈ r.versions, Stamp v.timestamp
  tombstones : ∀ v ∈ r.versions, v.value.rawBytes = []

structure Store.Wf (s : Store) : Prop where
  sorted : OrderedSet.Sorted StoreKey.key s.keys
  key_ne : ∀ d ∈ s.keys, d.key ≠ []
  keys : ∀ d ∈ s.keys, d.Wf
  disjoint : s.rangeKeys.Pairwise (fun r r' => r.endKey ≤ r'.key)
  fragments : ∀ r ∈ s.rangeKeys, r.Wf

def StoreKey.committed (d : StoreKey) : List Version :=
  match d.metadata with
  | some _ => d.versions.tail
  | none => d.versions

namespace Store

variable {s : Store} {k : Key} {r r' : RangeKeyStack} {d : StoreKey} {β : Type}

lemma mem_of_stackAt (h : s.stackAt k = some r) : r ∈ s.rangeKeys := mem_of_find?_eq_some h

lemma contains_of_stackAt (h : s.stackAt k = some r) : r.contains k := by
  simpa using find?_some h

lemma Wf.rangeHistory (h : s.Wf) (k : Key) :
    Descending (s.tombstonesAt k) ∧ ∀ r ∈ s.tombstonesAt k, Stamp r.timestamp := by
  unfold tombstonesAt
  cases hr : s.stackAt k with
  | none => exact ⟨List.Pairwise.nil, by simp⟩
  | some r =>
    have hwf := h.fragments r (mem_of_stackAt hr)
    exact ⟨hwf.descending, hwf.stamps⟩

lemma Wf.history (h : s.Wf) (hd : d ∈ s.keys) : History d.committed (s.tombstonesAt d.key) := by
  have hversions : Descending d.committed ∧ ∀ v ∈ d.committed, Stamp v.timestamp := by
    cases h.keys d hd with
    | committed _ descending stamps => exact ⟨descending, stamps⟩
    | inline _ => exact ⟨List.Pairwise.nil, by simp [StoreKey.committed]⟩
    | intent _ _ descending stamps =>
      exact ⟨(descending_cons.mp descending).2, fun v hv => stamps v (.tail _ hv)⟩
  unfold tombstonesAt
  cases hr : s.stackAt d.key with
  | none =>
    exact ⟨hversions.1, List.Pairwise.nil, hversions.2, by simp, by simp⟩
  | some r =>
    have hwf := h.fragments r (mem_of_stackAt hr)
    exact ⟨hversions.1, hwf.descending, hversions.2, hwf.stamps, hwf.tombstones⟩

lemma Wf.rangeKeys_sorted (h : s.Wf) : OrderedSet.Sorted RangeKeyStack.key s.rangeKeys := by
  refine List.Pairwise.imp_of_mem ?_ h.disjoint
  intro a b ha _ hle
  exact (h.fragments a ha).bounds.trans_le hle

/-! ### Bounds -/

variable {lower upper : Key}

lemma mem_restrict_keys :
    d ∈ (s.restrict lower upper).keys ↔ d ∈ s.keys ∧ lower ≤ d.key ∧ d.key < upper := by
  simp [restrict]

lemma clip_eq_some (h : r.clip lower upper = some r') :
    max lower r.key < min upper r.endKey ∧
      r' = ⟨max lower r.key, min upper r.endKey, r.versions⟩ := by
  unfold RangeKeyStack.clip at h
  split_ifs at h with hlt
  exact ⟨hlt, by simpa using h.symm⟩

lemma Wf.restrict (h : s.Wf) : (s.restrict lower upper).Wf where
  sorted := h.sorted.filter _
  key_ne d hd := h.key_ne d (mem_restrict_keys.mp hd).1
  keys d hd := h.keys d (mem_restrict_keys.mp hd).1
  disjoint := by
    refine List.Pairwise.filterMap _ ?_ h.disjoint
    intro a a' hle b hb b' hb'
    obtain ⟨_, rfl⟩ := clip_eq_some hb
    obtain ⟨_, rfl⟩ := clip_eq_some hb'
    exact (min_le_right _ _).trans (hle.trans (le_max_right _ _))
  fragments := by
    intro r' hr'
    obtain ⟨r, hr, hclip⟩ := mem_filterMap.mp hr'
    obtain ⟨hlt, rfl⟩ := clip_eq_some hclip
    have hwf := h.fragments r hr
    refine ⟨?_, hlt, hwf.descending, hwf.stamps, hwf.tombstones⟩
    have hpos := (nil_lt_key hwf.key_ne).trans_le (le_max_right lower r.key)
    exact hpos.ne'

lemma tombstonesAt_restrict (hlower : lower ≤ k) (hupper : k < upper) :
    (s.restrict lower upper).tombstonesAt k = s.tombstonesAt k := by
  have hclip : ∀ r : RangeKeyStack, r.contains k →
      r.clip lower upper = some ⟨max lower r.key, min upper r.endKey, r.versions⟩ := by
    intro r hr
    simp only [RangeKeyStack.contains, Bool.and_eq_true, decide_eq_true_eq] at hr
    exact if_pos ((max_le hlower hr.1).trans_lt (lt_min hupper hr.2))
  have hcontains : ∀ r r' : RangeKeyStack, r.clip lower upper = some r' →
      r'.contains k = r.contains k := by
    intro r r' h
    obtain ⟨_, rfl⟩ := clip_eq_some h
    simp [RangeKeyStack.contains, hlower, hupper]
  unfold tombstonesAt stackAt Store.restrict
  induction s.rangeKeys with
  | nil => rfl
  | cons r rs ih =>
    rw [filterMap_cons]
    cases hr : r.contains k with
    | true =>
      have hcontains := hcontains r _ (hclip r hr)
      rw [hclip r hr]
      rw [find?_cons, find?_cons, hcontains, hr]
    | false =>
      rw [find?_cons, hr]
      cases hclip' : r.clip lower upper with
      | none => exact ih
      | some r' =>
        rw [find?_cons, hcontains r r' hclip', hr]
        exact ih

/-! ### The positions with a point -/

lemma flatMap_set (f : StoreKey → List β) {x : StoreKey} (hx : f x = [])
    {l : List StoreKey} (hl : ∀ d ∈ l, d.key ≠ x.key) :
    (OrderedSet.set StoreKey.key x l).flatMap f = l.flatMap f := by
  induction l with
  | nil => simp [OrderedSet.set, hx]
  | cons d l ih =>
    have hne : x.key ≠ d.key := (hl d (.head _)).symm
    rw [OrderedSet.set, if_neg hne]
    split_ifs
    · simp [hx]
    · rw [flatMap_cons, flatMap_cons, ih fun d' hd' => hl d' (.tail _ hd')]

lemma flatMap_slots (f : StoreKey → List β) (hf : ∀ k, f ⟨k, none, []⟩ = []) :
    s.slots.flatMap f = s.keys.flatMap f := by
  unfold slots
  induction s.rangeKeys with
  | nil => rfl
  | cons r rs ih =>
    rw [foldr_cons, addSlot]
    split_ifs with hany
    · exact ih
    rw [flatMap_set f (hf r.key), ih]
    intro d hd hkey
    apply hany
    rw [any_eq_true]
    exact ⟨d, hd, by simpa using hkey⟩

lemma filter_keyPositions (d : StoreKey) :
    (s.keyPositions d).filter (fun p => p.point.isSome) = s.pointPositions d := by
  have hpoints : (s.pointPositions d).filter (fun p => p.point.isSome) = s.pointPositions d := by
    apply filter_eq_self.mpr
    intro p hp
    simp only [pointPositions, mem_append, mem_map] at hp
    rcases hp with ⟨m, _, rfl⟩ | ⟨v, _, rfl⟩ <;> rfl
  unfold keyPositions
  split_ifs
  · rw [filter_cons_of_neg (by simp), hpoints]
  · exact hpoints

lemma sum_slots [AddCommMonoid β] (f : StoreKey → β)
    (hf : ∀ k, f ⟨k, none, []⟩ = 0) : (s.slots.map f).sum = (s.keys.map f).sum := by
  classical
  have hsum : ∀ l : List StoreKey,
      (l.map f).sum = (l.flatMap fun d => if f d = 0 then [] else [f d]).sum := by
    intro l
    induction l with
    | nil => rfl
    | cons d l ih =>
      rw [map_cons, sum_cons, flatMap_cons, sum_append, ih]
      split_ifs with hd
      · simp [hd]
      · simp
  rw [hsum, hsum, flatMap_slots]
  intro k
  simp [hf]

lemma filter_positions (s : Store) :
    s.positions.filter (fun p => p.point.isSome) = s.keys.flatMap s.pointPositions := by
  rw [positions, filter_flatMap]
  simp only [filter_keyPositions]
  apply flatMap_slots
  intro k
  rfl

end Store
end MeshDB.Storage
