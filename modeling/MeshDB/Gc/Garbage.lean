import MeshDB.Gc.GcIterator
import MeshDB.Storage.Resolved

/-!
# What the GC queue removes

The loop of the GC queue finds exactly the versions that no read at or above the threshold can
see, so their removal changes no such read, whatever becomes of the intents.
-/
namespace MeshDB.Gc

open Roachpb Hlc Storage List Store
open Timestamp (lessEq_iff less_iff ord_lt_iff)
variable {threshold ts : Timestamp} {key : Key} {s : Store}

/-! ## The points of one key -/

lemma stateAt_append {cur : BufferedPoint} {rest others : List BufferedPoint}
    (hothers : ∀ p ∈ others.head?, p.1.key.key ≠ cur.1.key.key) :
    stateAt cur (rest ++ others) = stateAt cur rest := by
  have hnone : GcIterator.sameKey cur.1 others[0]? = none := by
    cases others with
    | nil => rfl
    | cons p others =>
      have hne := hothers p rfl
      simp [GcIterator.sameKey, Option.filter_some, hne]
  match rest with
  | [] =>
    simp only [stateAt, nil_append, hnone]
    rfl
  | [next] =>
    simp only [stateAt, cons_append, nil_append, List.getElem?_cons_zero,
      List.getElem?_cons_succ, hnone]
    rfl
  | next :: afterNext :: rest => rfl

lemma classify_append {points others : List BufferedPoint}
    (hkey : ∀ p ∈ points, p.1.key.key = key) (hothers : ∀ p ∈ others.head?, p.1.key.key ≠ key) :
    classify threshold (points ++ others) =
      classify threshold points ++ classify threshold others := by
  match points with
  | [] => rfl
  | [cur] =>
    have hcur := hkey cur (.head _)
    cases others with
    | nil => simp [classify]
    | cons p others =>
      have hstate : stateAt cur (p :: others) = stateAt cur [] :=
        @stateAt_append cur [] (p :: others) (by rw [hcur]; exact hothers)
      have hintent : (stateAt cur []).curIsIntent = false := rfl
      rw [singleton_append, classify, classify, hstate]
      split_ifs with hvalue hintent'
      · rfl
      · simp [hintent] at hintent'
      · rfl
  | cur :: next :: rest =>
    have hcur := hkey cur (.head _)
    have hstate : stateAt cur (next :: rest ++ others) = stateAt cur (next :: rest) :=
      stateAt_append (by rw [hcur]; exact hothers)
    have hnext := classify_append (fun p (hp : p ∈ next :: rest) => hkey p (.tail _ hp)) hothers
    have hrest := classify_append (fun p (hp : p ∈ rest) => hkey p (.tail _ (.tail _ hp))) hothers
    rw [cons_append] at hstate hnext
    rw [cons_append, cons_append, classify, classify, hstate, hnext, hrest]
    split_ifs <;> rfl

def garbageKey : Found → Option MVCCKey
  | .garbage kv _ => some kv.key
  | _ => none

def garbageKeys (found : List Found) : List MVCCKey := found.filterMap garbageKey

def versionPoint (key : Key) (ts : Timestamp) (v : Version) : BufferedPoint :=
  (keyValue key (.version v), ts)

def removable (threshold ts : Timestamp) : List Version → List Version
  | [] => []
  | v :: rest =>
    if v.timestamp.lessEq threshold && (v.timestamp.less ts || v.value.isTombstone ||
        rest.head?.any fun w => w.timestamp.lessEq threshold) then
      v :: removable threshold ts rest
    else removable threshold ts rest

/-- The points after the committed versions of a key: nothing, or an intent. -/
inductive KeyEnd (key : Key) (ts : Timestamp) : List BufferedPoint → Prop
  | committed : KeyEnd key ts []
  | intent {v : Version} {m : MVCCMetadata} (stamp : Stamp v.timestamp) :
      KeyEnd key ts [versionPoint key ts v, (keyValue key (.metadata m), ts)]

lemma isValue_versionPoint {v : Version} (h : Stamp v.timestamp) :
    (versionPoint key ts v).1.isValue := by
  simp [MvccKeyValue.isValue, versionPoint, keyValue, h.not_isEmpty]

lemma stateAt_cons {v : Version} {p : BufferedPoint} {rest : List BufferedPoint}
    (hp : p.1.key.key = key) :
    stateAt (versionPoint key ts v) (p :: rest) =
      ⟨keyValue key (.version v), some p.1,
        GcIterator.sameKey (keyValue key (.version v)) rest[0]?, ts⟩ := by
  have hsame : GcIterator.sameKey (versionPoint key ts v).1 (p :: rest)[0]? = some p.1 := by
    simp [GcIterator.sameKey, versionPoint, keyValue, Option.filter_some, hp]
  simp only [stateAt, hsame]
  rfl

variable {v : Version} {d : StoreKey}

lemma garbageKeys_cons {rest : List BufferedPoint} (hv : Stamp v.timestamp)
    (hintent : (stateAt (versionPoint key ts v) rest).curIsIntent = false) :
    garbageKeys (classify threshold (versionPoint key ts v :: rest)) =
      (if garbage threshold (stateAt (versionPoint key ts v) rest) then [⟨key, v.timestamp⟩]
        else []) ++ garbageKeys (classify threshold rest) := by
  have hvalue : (stateAt (versionPoint key ts v) rest).curIsNotValue = false := by
    rw [GcIteratorState.curIsNotValue, stateAt_cur, isValue_versionPoint hv]
    rfl
  have hfound : ∀ found, garbageKeys
      (foundAt (stateAt (versionPoint key ts v) rest)
        (garbage threshold (stateAt (versionPoint key ts v) rest)) :: found) =
      (if garbage threshold (stateAt (versionPoint key ts v) rest) then [⟨key, v.timestamp⟩]
        else []) ++ garbageKeys found := by
    intro found
    have hcur := stateAt_cur (versionPoint key ts v) rest
    cases garbage threshold (stateAt (versionPoint key ts v) rest) with
    | false => rfl
    | true =>
      show (stateAt (versionPoint key ts v) rest).cur.key :: garbageKeys found = _
      rw [hcur]
      rfl
  cases rest with
  | nil =>
    simp only [classify, hvalue, Bool.false_eq_true, if_false, hfound]
  | cons next rest =>
    rw [classify, hvalue, hintent, if_neg Bool.false_ne_true, if_neg Bool.false_ne_true, hfound]

variable {p : BufferedPoint}

lemma sameKey_any {cur : MvccKeyValue} (h : p.1.isValue) :
    (GcIterator.sameKey cur (some p)).any (fun kv => !kv.isValue) = false := by
  rw [GcIterator.sameKey, Option.map_some, Option.filter_some]
  split_ifs
  · simp [h]
  · rfl

lemma garbage_next {next : MvccKeyValue} {afterNext : Option MvccKeyValue}
    (hv : Stamp v.timestamp) :
    garbage threshold ⟨keyValue key (.version v), some next, afterNext, ts⟩ =
      (v.timestamp.lessEq threshold && (v.timestamp.less ts || v.value.isTombstone ||
        (!(afterNext.any fun kv => !kv.isValue) && next.key.timestamp.lessEq threshold))) := by
  have hvalue : (keyValue key (.version v)).isValue := @isValue_versionPoint ts key v hv
  simp only [garbage, GcIteratorState.curIsNewest, hvalue, Bool.true_and, Option.isNone_some,
    Bool.false_or, Option.any_some]
  rfl

variable {last : List BufferedPoint}

lemma garbageKeys_keyEnd (h : KeyEnd key ts last) :
    garbageKeys (classify threshold last) = [] := by
  cases h with
  | committed => rfl
  | @intent v m stamp =>
    have hstate := @stateAt_cons ts key v (keyValue key (.metadata m), ts) [] rfl
    have hintent : (stateAt (versionPoint key ts v)
        [(keyValue key (.metadata m), ts)]).curIsIntent := by
      rw [hstate]
      rfl
    have hvalue : (stateAt (versionPoint key ts v)
        [(keyValue key (.metadata m), ts)]).curIsNotValue = false := by
      rw [GcIteratorState.curIsNotValue, stateAt_cur, isValue_versionPoint stamp]
      rfl
    rw [classify, hvalue, hintent, if_neg Bool.false_ne_true, if_pos rfl]
    rfl

variable {versions : List Version}

lemma garbageKeys_versions (hlast : KeyEnd key ts last)
    (hstamps : ∀ v ∈ versions, Stamp v.timestamp) :
    garbageKeys (classify threshold (versions.map (versionPoint key ts) ++ last)) =
      (removable threshold ts versions).map fun v => ⟨key, v.timestamp⟩ := by
  induction versions with
  | nil => exact garbageKeys_keyEnd hlast
  | cons v rest ih =>
    have ih := ih fun w hw => hstamps w (.tail _ hw)
    have hv := hstamps v (.head _)
    have hstate : (stateAt (versionPoint key ts v)
          (rest.map (versionPoint key ts) ++ last)).curIsIntent = false ∧
        garbage threshold (stateAt (versionPoint key ts v)
          (rest.map (versionPoint key ts) ++ last)) =
        (v.timestamp.lessEq threshold && (v.timestamp.less ts || v.value.isTombstone ||
          rest.head?.any fun w => w.timestamp.lessEq threshold)) := by
      cases rest with
      | nil =>
        cases hlast with
        | committed =>
          have hnewest : (stateAt (versionPoint key ts v) []).curIsNewest := by
            simp [GcIteratorState.curIsNewest, stateAt_cur, isValue_versionPoint hv]
            exact Or.inl rfl
          refine ⟨rfl, ?_⟩
          show garbage threshold (stateAt (versionPoint key ts v) []) = _
          rw [garbage, hnewest]
          simp [stateAt, versionPoint, keyValue, GcIterator.sameKey]
        | @intent w m stamp =>
          have heq := @stateAt_cons ts key v (versionPoint key ts w)
            [(keyValue key (.metadata m), ts)] rfl
          rw [map_nil, nil_append, heq, garbage_next hv]
          constructor
          · simp [GcIteratorState.curIsIntent, isValue_versionPoint stamp]
          have hafter : (GcIterator.sameKey (keyValue key (.version v))
              [((keyValue key (.metadata m), ts) : BufferedPoint)][0]?).any
                (fun kv => !kv.isValue) := by
            simp [GcIterator.sameKey, keyValue, Option.filter_some, MvccKeyValue.isValue,
              Timestamp.isEmpty]
          rw [hafter]
          rfl
      | cons w rest =>
        have hw := hstamps w (.tail _ (.head _))
        have heq := @stateAt_cons ts key v (versionPoint key ts w)
          (rest.map (versionPoint key ts) ++ last) rfl
        rw [map_cons, cons_append, heq, garbage_next hv]
        constructor
        · simp [GcIteratorState.curIsIntent, isValue_versionPoint hw]
        have hafter : (GcIterator.sameKey (keyValue key (.version v))
            (rest.map (versionPoint key ts) ++ last)[0]?).any
              (fun kv => !kv.isValue) = false := by
          cases rest with
          | nil =>
            cases hlast with
            | committed => rfl
            | intent stamp => exact sameKey_any (isValue_versionPoint stamp)
          | cons u rest => exact sameKey_any (isValue_versionPoint (hstamps u (by simp)))
        rw [hafter]
        rfl
    rw [map_cons, cons_append, garbageKeys_cons hv hstate.1, hstate.2, ih, removable]
    split_ifs <;> rfl

lemma not_less_empty (hv : Stamp v.timestamp) : ¬ v.timestamp.ord < ({} : Timestamp).ord := by
  rw [ord_lt_iff]
  have := hv.wallTime_nonneg
  have := hv.logical_nonneg
  simp only
  omega

lemma less_firstRangeTS_iff {r : RangeKeyStack} (hr : r.Wf) (hv : Stamp v.timestamp) :
    v.timestamp.less (firstRangeTS threshold r) ↔
      ∃ w ∈ r.versions, v.timestamp.ord < w.timestamp.ord ∧ w.timestamp.ord ≤ threshold.ord := by
  rw [less_iff, firstRangeTS, hr.descending.firstAtOrBelow]
  cases hfind : r.versions.find? (·.timestamp.lessEq threshold) with
  | none =>
    refine iff_of_false (not_less_empty hv) ?_
    rintro ⟨w, hw, _, hle⟩
    have hnot := find?_eq_none.mp hfind w hw
    exact hnot (lessEq_iff.mpr hle)
  | some u =>
    have hu : u.timestamp.ord ≤ threshold.ord := by
      simpa [lessEq_iff] using find?_some hfind
    have hmem := mem_of_find?_eq_some hfind
    constructor
    · intro hlt
      exact ⟨u, hmem, hlt, hu⟩
    rintro ⟨w, hw, hlt, hle⟩
    have hmax := hr.descending.le_of_find? hfind hw hle
    exact hlt.trans_le hmax

lemma mem_removable
    (hasc : versions.Pairwise fun a b => a.timestamp.ord < b.timestamp.ord) :
    v ∈ removable threshold ts versions ↔ v ∈ versions ∧ v.timestamp.ord ≤ threshold.ord ∧
      (v.timestamp.less ts ∨ v.value.isTombstone ∨
        ∃ w ∈ versions, v.timestamp.ord < w.timestamp.ord ∧ w.timestamp.ord ≤ threshold.ord) := by
  induction versions with
  | nil => simp [removable]
  | cons u rest ih =>
    obtain ⟨hu, hrest⟩ := pairwise_cons.mp hasc
    have hnext : (rest.head?.any fun w => w.timestamp.lessEq threshold) ↔
        ∃ w ∈ u :: rest, u.timestamp.ord < w.timestamp.ord ∧ w.timestamp.ord ≤ threshold.ord := by
      cases rest with
      | nil => simp
      | cons w rest =>
        rw [head?_cons, Option.any_some, lessEq_iff]
        constructor
        · intro hle
          exact ⟨w, by simp, hu w mem_cons_self, hle⟩
        rintro ⟨x, hx, hlt, hle⟩
        rcases mem_cons.mp hx with rfl | hx
        · exact absurd hlt (lt_irrefl _)
        rcases mem_cons.mp hx with rfl | hx
        · exact hle
        · exact ((pairwise_cons.mp hrest).1 x hx).le.trans hle
    have hmem : v ∈ removable threshold ts (u :: rest) ↔
        (v = u ∧ u.timestamp.ord ≤ threshold.ord ∧ (u.timestamp.less ts ∨
          u.value.isTombstone ∨ ∃ w ∈ u :: rest, u.timestamp.ord < w.timestamp.ord ∧
            w.timestamp.ord ≤ threshold.ord)) ∨
        v ∈ removable threshold ts rest := by
      rw [← hnext, ← or_assoc, ← lessEq_iff, ← Bool.or_eq_true, ← Bool.or_eq_true,
        ← Bool.and_eq_true, removable]
      split_ifs with hc
      · simp [hc]
      · simp [hc]
    rw [hmem, ih hrest, mem_cons]
    constructor
    · rintro (⟨rfl, hle, hcase⟩ | ⟨hv, hle, hcase⟩)
      · exact ⟨Or.inl rfl, hle, hcase⟩
      refine ⟨Or.inr hv, hle, hcase.imp_right (Or.imp_right ?_)⟩
      rintro ⟨w, hw, hlt⟩
      exact ⟨w, mem_cons_of_mem _ hw, hlt⟩
    rintro ⟨rfl | hv, hle, hcase⟩
    · exact Or.inl ⟨rfl, hle, hcase⟩
    refine Or.inr ⟨hv, hle, hcase.imp_right (Or.imp_right ?_)⟩
    rintro ⟨w, hw, hlt, hwle⟩
    rcases mem_cons.mp hw with rfl | hw
    · exact absurd (hlt.trans (hu v hv)) (lt_irrefl _)
    · exact ⟨w, hw, hlt, hwle⟩

/-! ## The points of a store -/

def tombstoneTS (threshold : Timestamp) (s : Store) (key : Key) : Timestamp :=
  match s.stackAt key with
  | some r => firstRangeTS threshold r
  | none => {}

def keyPoints (threshold : Timestamp) (s : Store) (d : StoreKey) : List BufferedPoint :=
  d.versions.reverse.map (versionPoint d.key (tombstoneTS threshold s d.key)) ++
    d.metadata.toList.map fun m =>
      (keyValue d.key (.metadata m), tombstoneTS threshold s d.key)

lemma key_of_mem_keyPoints
    (h : p ∈ keyPoints threshold s d) : p.1.key.key = d.key := by
  simp only [keyPoints, mem_append, mem_map] at h
  rcases h with ⟨v, _, rfl⟩ | ⟨m, _, rfl⟩ <;> rfl

lemma filterMap_pointPositions (d : StoreKey) :
    (s.pointPositions d).reverse.filterMap (bufferedPoint threshold) = keyPoints threshold s d := by
  have hversions : ∀ versions : List Version,
      (versions.map fun v => (⟨d.key, some (.version v), s.stackAt d.key⟩ :
        StorePosition)).filterMap (bufferedPoint threshold) =
      versions.map (versionPoint d.key (tombstoneTS threshold s d.key)) := by
    intro versions
    rw [filterMap_map, ← filterMap_eq_map]
    rfl
  have hmetadata : (d.metadata.toList.map fun m =>
      (⟨d.key, some (.metadata m), s.stackAt d.key⟩ : StorePosition)).filterMap
        (bufferedPoint threshold) = d.metadata.toList.map fun m =>
          (keyValue d.key (.metadata m), tombstoneTS threshold s d.key) := by
    rw [filterMap_map, ← filterMap_eq_map]
    rfl
  rw [pointPositions, reverse_append, filterMap_append, ← map_reverse, hversions, keyPoints]
  congr 1
  cases hm : d.metadata with
  | none => rfl
  | some m =>
    rw [hm] at hmetadata
    exact hmetadata

lemma filterMap_positions (threshold : Timestamp) (s : Store) :
    s.positions.reverse.filterMap (bufferedPoint threshold) =
      s.keys.reverse.flatMap (keyPoints threshold s) := by
  have hpoints : s.positions.reverse.filterMap (bufferedPoint threshold) =
      (s.positions.filter fun p => p.point.isSome).reverse.filterMap (bufferedPoint threshold) := by
    rw [← filter_reverse, filterMap_filter]
    congr 1
    funext p
    unfold bufferedPoint
    cases p.point <;> rfl
  rw [hpoints, filter_positions, reverse_flatMap, filterMap_flatMap]
  congr 1
  funext d
  exact filterMap_pointPositions d

lemma garbageKeys_keyPoints (h : d.Wf) :
    garbageKeys (classify threshold (keyPoints threshold s d)) =
      (removable threshold (tombstoneTS threshold s d.key) d.committed.reverse).map
        fun v => ⟨d.key, v.timestamp⟩ := by
  cases h with
  | committed _ _ stamps =>
    exact garbageKeys_versions .committed fun v hv => stamps v (mem_reverse.mp hv)
  | inline _ => rfl
  | @intent key m v versions _ _ _ stamps =>
    have hpoints : (v :: versions).reverse.map
        (versionPoint key (tombstoneTS threshold s key)) ++
          [(keyValue key (.metadata m), tombstoneTS threshold s key)] =
        versions.reverse.map (versionPoint key (tombstoneTS threshold s key)) ++
          [versionPoint key (tombstoneTS threshold s key) v,
            (keyValue key (.metadata m), tombstoneTS threshold s key)] := by
      simp
    show garbageKeys (classify threshold ((v :: versions).reverse.map _ ++ [_])) = _
    rw [hpoints]
    refine garbageKeys_versions (.intent (stamps v (.head _))) ?_
    intro w hw
    exact stamps w (.tail _ (mem_reverse.mp hw))

lemma garbageKeys_flatMap {ds : List StoreKey} (hwf : ∀ d ∈ ds, d.Wf)
    (hdistinct : ds.Pairwise fun d d' => d'.key ≠ d.key) :
    garbageKeys (classify threshold (ds.flatMap (keyPoints threshold s))) =
      ds.flatMap fun d =>
        (removable threshold (tombstoneTS threshold s d.key) d.committed.reverse).map
          fun v => ⟨d.key, v.timestamp⟩ := by
  induction ds with
  | nil => rfl
  | cons d ds ih =>
    obtain ⟨hd, hds⟩ := pairwise_cons.mp hdistinct
    have ih := ih (fun d' hd' => hwf d' (.tail _ hd')) hds
    have hothers : ∀ p ∈ (ds.flatMap (keyPoints threshold s)).head?, p.1.key.key ≠ d.key := by
      intro p hp
      obtain ⟨d', hd', hp'⟩ := mem_flatMap.mp (mem_of_mem_head? hp)
      rw [key_of_mem_keyPoints hp']
      exact hd d' hd'
    rw [flatMap_cons, classify_append (fun p hp => key_of_mem_keyPoints hp) hothers,
      garbageKeys, filterMap_append]
    show garbageKeys _ ++ garbageKeys _ = _
    rw [garbageKeys_keyPoints (hwf d (.head _)), ih, flatMap_cons]

/-! ## Garbage -/

/-- No read at or above the threshold sees the version: it is an old tombstone, or covered at or
below the threshold. -/
def Garbage (threshold : Timestamp) (s : Store) (d : StoreKey) (v : Version) : Prop :=
  v.timestamp.ord ≤ threshold.ord ∧
    (v.value.isTombstone ∨
      (∃ w ∈ d.committed, v.timestamp.ord < w.timestamp.ord ∧ w.timestamp.ord ≤ threshold.ord) ∨
      ∃ r ∈ s.tombstonesAt d.key, v.timestamp.ord < r.timestamp.ord ∧
        r.timestamp.ord ≤ threshold.ord)

lemma less_tombstoneTS_iff (h : s.Wf) (hv : Stamp v.timestamp) :
    v.timestamp.less (tombstoneTS threshold s key) ↔
      ∃ r ∈ s.tombstonesAt key, v.timestamp.ord < r.timestamp.ord ∧
        r.timestamp.ord ≤ threshold.ord := by
  unfold tombstoneTS tombstonesAt
  cases hstack : s.stackAt key with
  | some r => exact less_firstRangeTS_iff (h.fragments r (mem_of_stackAt hstack)) hv
  | none =>
    simp [less_iff, not_less_empty hv]

lemma mem_removable_committed (h : s.Wf) (hd : d ∈ s.keys) :
    v ∈ removable threshold (tombstoneTS threshold s d.key) d.committed.reverse ↔
      v ∈ d.committed ∧ Garbage threshold s d v := by
  have hhistory := h.history hd
  rw [mem_removable (pairwise_reverse.mpr hhistory.descending), mem_reverse]
  refine and_congr_right fun hv => ?_
  rw [less_tombstoneTS_iff h (hhistory.stamps v hv), Garbage]
  simp only [mem_reverse]
  refine and_congr_right fun _ => ?_
  rw [or_comm, or_assoc]

lemma processReplicatedKeyRange_eq (h : s.Wf) (threshold : Timestamp) :
    ∃ found, processReplicatedKeyRange s threshold = some found ∧
      ∀ k, k ∈ garbageKeys found ↔
        ∃ d ∈ s.keys, ∃ v ∈ d.committed, k = ⟨d.key, v.timestamp⟩ ∧ Garbage threshold s d v := by
  have hpending : (makeGCIterator s.positions.reverse threshold).Pending s.rangeKeys threshold
      (s.positions.reverse.filterMap (bufferedPoint threshold)) := by
    refine ⟨rfl, ⟨[], RingQueue.holds_empty (by decide), rfl⟩, ?_, ?_⟩
    · intro p hp r hr
      obtain ⟨d, _, hp⟩ := mem_flatMap.mp (mem_reverse.mp hp)
      have hstack : p.stack = s.stackAt d.key := by
        unfold keyPositions at hp
        simp only [pointPositions] at hp
        split_ifs at hp
        · simp only [mem_cons, mem_append, mem_map] at hp
          rcases hp with rfl | ⟨m, _, rfl⟩ | ⟨v, _, rfl⟩ <;> rfl
        simp only [mem_append, mem_map] at hp
        rcases hp with ⟨m, _, rfl⟩ | ⟨v, _, rfl⟩ <;> rfl
      exact mem_of_stackAt (hstack.symm.trans hr)
    · intro r hr hkey
      exact absurd hkey (h.fragments r hr).key_ne
  have hfuel : (s.positions.reverse.filterMap (bufferedPoint threshold)).length <
      s.positions.length + 1 := by
    refine Nat.lt_succ_of_le ?_
    have hlen := length_filterMap_le (bufferedPoint threshold) s.positions.reverse
    rwa [length_reverse] at hlen
  refine ⟨_, gcLoop_spec (fun _ hr _ => h.rangeKeys_sorted.eq_of_key_eq hr) hpending hfuel, ?_⟩
  intro k
  have hdistinct : s.keys.reverse.Pairwise fun d d' => d'.key ≠ d.key :=
    pairwise_reverse.mpr (h.sorted.imp fun hlt => hlt.ne)
  rw [filterMap_positions, garbageKeys_flatMap
    (fun d hd => h.keys d (mem_reverse.mp hd)) hdistinct, mem_flatMap]
  constructor
  · rintro ⟨d, hd, hk⟩
    have hd := mem_reverse.mp hd
    obtain ⟨v, hv, rfl⟩ := mem_map.mp hk
    obtain ⟨hv, hgarbage⟩ := (mem_removable_committed h hd).mp hv
    exact ⟨d, hd, v, hv, rfl, hgarbage⟩
  rintro ⟨d, hd, v, hv, rfl, hgarbage⟩
  refine ⟨d, mem_reverse.mpr hd, mem_map.mpr ⟨v, ?_, rfl⟩⟩
  exact (mem_removable_committed h hd).mpr ⟨hv, hgarbage⟩

/-! ## Reads -/

/-- The loop finds exactly the versions that no read at or above the threshold can see, and their
removal changes no such read. -/
theorem processReplicatedKeyRange_exact (h : s.Wf) (threshold : Timestamp) :
    ∃ found, processReplicatedKeyRange s threshold = some found ∧
      (∀ k, k ∈ garbageKeys found ↔
        ∃ d ∈ s.keys, ∃ v ∈ d.committed, k = ⟨d.key, v.timestamp⟩ ∧ Garbage threshold s d v) ∧
      ∀ d ∈ s.keys, ∀ resolution : Resolution, resolution.Admits d →
        ∀ ts, Stamp ts → threshold.ord ≤ ts.ord →
          mvccGet d.key { ts := ts }
              (resolved s d resolution fun v => decide (⟨d.key, v.timestamp⟩ ∉ garbageKeys found)) =
            mvccGet d.key { ts := ts } (resolved s d resolution fun _ => true) := by
  obtain ⟨found, hfound, hmem⟩ := processReplicatedKeyRange_eq h threshold
  refine ⟨found, hfound, hmem, ?_⟩
  intro d hd resolution hres ts hts hle
  suffices hremoved : ∀ v ∈ d.committed,
      decide (⟨d.key, v.timestamp⟩ ∉ garbageKeys found) = false ↔ Garbage threshold s d v by
    refine mvccGet_resolved h hd hres hts <| committedRead_filter (h.history hd) hle ?_
    intro v hv hgone
    obtain ⟨hvle, hgarbage⟩ := (hremoved v hv).mp hgone
    refine ⟨hgarbage.imp_right (Or.imp_right ?_), fun w hw hlt => ?_⟩
    · exact fun ⟨r, hr, hlt, hrle⟩ => ⟨r, hr, hlt.le, hrle⟩
    · rw [hremoved w hw]
      exact ⟨hlt.le.trans hvle, Or.inr (Or.inl ⟨v, hv, hlt, hvle⟩)⟩
  intro v hv
  rw [decide_eq_false_iff_not, not_not, hmem]
  constructor
  · rintro ⟨d', hd', v', hv', heq, hgarbage⟩
    have hkey : d.key = d'.key := congrArg MVCCKey.key heq
    have hstamp : v.timestamp = v'.timestamp := congrArg MVCCKey.timestamp heq
    cases h.sorted.eq_of_key_eq hd hd' hkey
    cases (h.history hd).descending.eq_of_ord_eq hv hv' (by rw [hstamp])
    exact hgarbage
  · intro hgarbage
    exact ⟨d, hd, v, hv, rfl, hgarbage⟩

/-- A key with an intent above two versions, one of them under a range tombstone. -/
def intentOverTwo : Store where
  keys := [⟨[1], some { txn := some { id := 7 }, timestamp := { wallTime := 9 } },
    [⟨{ wallTime := 9 }, { rawBytes := [1] }⟩, ⟨{ wallTime := 5 }, { rawBytes := [2] }⟩,
      ⟨{ wallTime := 2 }, { rawBytes := [3] }⟩]⟩]
  rangeKeys := [⟨[1], [2], [⟨{ wallTime := 3 }, { rawBytes := [] }⟩]⟩]

lemma wf_intentOverTwo : intentOverTwo.Wf where
  sorted := pairwise_singleton _ _
  key_ne := by simp [intentOverTwo]
  keys := by
    simp only [intentOverTwo, mem_singleton, forall_eq]
    exact .intent rfl rfl (by decide) (by decide)
  disjoint := pairwise_singleton _ _
  fragments := by
    simp only [intentOverTwo, mem_singleton, forall_eq]
    exact ⟨by simp, by decide, by decide, by decide, by simp⟩

/-- The version under the tombstone is garbage, and its removal changes no read. -/
theorem processReplicatedKeyRange_exact_intent :
    ∃ found, processReplicatedKeyRange intentOverTwo { wallTime := 4 } = some found ∧
      garbageKeys found = [⟨[1], { wallTime := 2 }⟩] ∧
      (∃ d ∈ intentOverTwo.keys, ∃ v ∈ d.committed,
        (⟨[1], { wallTime := 2 }⟩ : MVCCKey) = ⟨d.key, v.timestamp⟩ ∧
          Garbage { wallTime := 4 } intentOverTwo d v) ∧
      ∀ d ∈ intentOverTwo.keys, ∀ resolution : Resolution, resolution.Admits d →
        mvccGet d.key { ts := { wallTime := 6 } } (resolved intentOverTwo d resolution fun v =>
            decide (⟨d.key, v.timestamp⟩ ∉ garbageKeys found)) =
          mvccGet d.key { ts := { wallTime := 6 } }
            (resolved intentOverTwo d resolution fun _ => true) := by
  obtain ⟨found, hfound, hmem, hread⟩ :=
    processReplicatedKeyRange_exact wf_intentOverTwo { wallTime := 4 }
  have hkeys : (processReplicatedKeyRange intentOverTwo { wallTime := 4 }).map garbageKeys =
      some [⟨[1], { wallTime := 2 }⟩] := by decide
  rw [hfound] at hkeys
  have hkeys : garbageKeys found = [⟨[1], { wallTime := 2 }⟩] := Option.some.inj hkeys
  refine ⟨found, hfound, hkeys, (hmem _).mp (hkeys ▸ mem_singleton.mpr rfl), ?_⟩
  intro d hd resolution hres
  exact hread d hd resolution hres _ (by decide) (by decide)

end MeshDB.Gc
