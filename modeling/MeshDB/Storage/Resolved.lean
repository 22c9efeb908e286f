import MeshDB.Storage.KeyRead
import MeshDB.Storage.Store

/-!
# Reads after an intent was resolved

What becomes of an intent decides what later reads see. Removing versions from a key changes
no such read if it changes none of the committed versions.
-/
namespace MeshDB.Storage

open Roachpb Hlc List Option Timestamp
variable {ts : Timestamp} {key : Key} {s : Store}

/-- What becomes of an intent. -/
inductive Resolution where
  | abort
  | commit (ts : Timestamp)
deriving DecidableEq

def Resolution.Admits (d : StoreKey) : Resolution → Prop
  | .abort => True
  | .commit ts => Stamp ts ∧ ∀ v ∈ d.versions.head?, v.timestamp.ord ≤ ts.ord

def resolved (s : Store) (d : StoreKey) (resolution : Resolution) (keep : Version → Bool) :
    KeyState :=
  match d.metadata, d.versions, resolution with
  | none, versions, _ => ⟨none, versions.filter keep, s.tombstonesAt d.key⟩
  | some m, [], _ => ⟨some m, [], s.tombstonesAt d.key⟩
  | some _, _ :: versions, .abort => ⟨none, versions.filter keep, s.tombstonesAt d.key⟩
  | some _, v :: versions, .commit ts =>
    ⟨none, ⟨ts, v.value⟩ :: versions.filter keep, s.tombstonesAt d.key⟩

variable {d : StoreKey} {versions rangeTombstones : List Version} {keep : Version → Bool}

lemma mvccGet_plain (hkey : key ≠ []) (h : History versions rangeTombstones) (hts : Stamp ts) :
    mvccGet key { ts := ts } ⟨none, versions, rangeTombstones⟩ =
      .ok (committedRead { ts := ts } versions rangeTombstones, none) := by
  have hread := @mvccGet_committed { ts := ts } versions rangeTombstones key hkey h hts rfl rfl
  rcases hread with ⟨v, hv, ⟨_, huncertain⟩, _⟩ | hread
  · have hstamp : Stamp v.timestamp :=
      (mem_append.mp hv).elim (h.stamps v) (h.rangeStamps v)
    have := hstamp.wallTime_nonneg
    have := hstamp.pos
    simp [isUncertain, UncertaintyInterval.isUncertain, Timestamp.isEmpty] at huncertain
    rw [lessEq_iff, ord_le_iff] at huncertain
    simp only at huncertain
    omega
  · exact hread

lemma addVersion_eq_none {versions rangeTombstones : List Version} {v : Version}
    (h : History versions rangeTombstones) (hv : v.value.isTombstone ∨
      ∃ r ∈ rangeTombstones, v.timestamp.ord ≤ r.timestamp.ord ∧ r.timestamp.ord ≤ ts.ord) :
    addVersion { ts := ts } ⟨none, versions, rangeTombstones⟩ v = none := by
  unfold addVersion
  rw [coveredByRangeKey_eq h.rangeDescending]
  cases hcovered : (rangeTombstones.find? (·.timestamp.lessEq ts)).filter
      (v.timestamp.lessEq ·.timestamp) with
  | some r =>
    have hr := mem_of_find?_eq_some (filter_eq_some_iff.mp hcovered).1
    simp [add, h.tombstones r hr]
  | none =>
    rcases hv with hv | ⟨r, hr, hvr, hle⟩
    · simp only [MVCCValue.isTombstone, List.isEmpty_iff] at hv
      simp [add, hv]
    rw [filter_eq_none_iff] at hcovered
    obtain ⟨r', hfind⟩ : ∃ r', rangeTombstones.find? (·.timestamp.lessEq ts) = some r' := by
      rw [← isSome_iff_exists, find?_isSome]
      exact ⟨r, hr, lessEq_iff.mpr hle⟩
    have hmax := h.rangeDescending.le_of_find? hfind hr hle
    exact absurd (lessEq_iff.mpr (hvr.trans hmax)) (hcovered r' hfind)

/-- Removing versions changes no read if the first one it comes to shows nothing when removed, with
all older ones. -/
lemma find?_filter_bind {read : Version → Option Value} (h : Descending versions)
    (hremoved : ∀ v, versions.find? (·.timestamp.lessEq ts) = some v → keep v = false →
      read v = none ∧ ∀ w ∈ versions, w.timestamp.ord < v.timestamp.ord → keep w = false) :
    ((versions.filter keep).find? (·.timestamp.lessEq ts)).bind read =
      (versions.find? (·.timestamp.lessEq ts)).bind read := by
  rw [find?_filter]
  cases hfind : versions.find? (·.timestamp.lessEq ts) with
  | none =>
    rw [find?_eq_none.mpr]
    intro v hv
    simp [find?_eq_none.mp hfind v hv]
  | some v =>
    obtain ⟨hv, as, bs, heq, has⟩ := find?_eq_some_iff_append.mp hfind
    cases hkeep : keep v with
    | true =>
      rw [find?_eq_some_iff_append.mpr]
      refine ⟨by simp [hkeep, hv], as, bs, heq, ?_⟩
      intro w hw
      simp_all
    | false =>
      obtain ⟨hnone, holder⟩ := hremoved v hfind hkeep
      rw [bind_some, hnone, find?_eq_none.mpr]
      · rfl
      intro w hw
      have hmem := hw
      rw [heq] at hw h
      rcases mem_append.mp hw with hw | hw
      · have := has w hw
        simp_all
      rcases mem_cons.mp hw with rfl | hw
      · simp [hkeep]
      have hlt := (pairwise_cons.mp (pairwise_append.mp h).2.1).1 w hw
      simp [holder w hmem hlt]

lemma committedRead_filter {threshold : Timestamp} (h : History versions rangeTombstones)
    (hle : threshold.ord ≤ ts.ord)
    (hremoved : ∀ v ∈ versions, keep v = false →
      (v.value.isTombstone ∨
        (∃ w ∈ versions, v.timestamp.ord < w.timestamp.ord ∧ w.timestamp.ord ≤ threshold.ord) ∨
        ∃ r ∈ rangeTombstones, v.timestamp.ord ≤ r.timestamp.ord ∧
          r.timestamp.ord ≤ threshold.ord) ∧
      ∀ w ∈ versions, w.timestamp.ord < v.timestamp.ord → keep w = false) :
    committedRead { ts := ts } (versions.filter keep) rangeTombstones =
      committedRead { ts := ts } versions rangeTombstones := by
  refine find?_filter_bind h.descending fun v hfind hkeep => ?_
  obtain ⟨hgarbage, holder⟩ := hremoved v (mem_of_find?_eq_some hfind) hkeep
  refine ⟨?_, holder⟩
  apply @addVersion_eq_none ts [] _ v
    ⟨List.Pairwise.nil, h.rangeDescending, by simp, h.rangeStamps, h.tombstones⟩
  rcases hgarbage with htombstone | ⟨w, hw, hlt, hwle⟩ | ⟨r, hr, hge, hrle⟩
  · exact Or.inl htombstone
  · have := h.descending.le_of_find? hfind hw (hwle.trans hle)
    exact absurd hlt (not_lt.mpr this)
  · exact Or.inr ⟨r, hr, hge, hrle.trans hle⟩

lemma history_cons {v : Version} (h : History versions rangeTombstones) (hv : Stamp v.timestamp)
    (hbelow : Below versions v.timestamp) : History (v :: versions) rangeTombstones where
  descending := descending_cons.mpr ⟨hbelow, h.descending⟩
  rangeDescending := h.rangeDescending
  stamps := forall_mem_cons.mpr ⟨hv, h.stamps⟩
  rangeStamps := h.rangeStamps
  tombstones := h.tombstones

lemma history_filter {versions rangeTombstones : List Version} {keep : Version → Bool}
    (h : History versions rangeTombstones) : History (versions.filter keep) rangeTombstones where
  descending := h.descending.filter keep
  rangeDescending := h.rangeDescending
  stamps := fun w hw => h.stamps w (mem_filter.mp hw).1
  rangeStamps := h.rangeStamps
  tombstones := h.tombstones

lemma mvccGet_cons_filter {versions rangeTombstones : List Version} {v : Version}
    {keep : Version → Bool} (hkey : key ≠ []) (h : History versions rangeTombstones)
    (hv : Stamp v.timestamp) (hbelow : Below versions v.timestamp) (hts : Stamp ts)
    (hread : committedRead { ts := ts } (versions.filter keep) rangeTombstones =
      committedRead { ts := ts } versions rangeTombstones) :
    mvccGet key { ts := ts } ⟨none, v :: versions.filter keep, rangeTombstones⟩ =
      mvccGet key { ts := ts } ⟨none, v :: versions, rangeTombstones⟩ := by
  have hfilter := history_cons (@history_filter versions rangeTombstones keep h) hv
    fun w hw => hbelow w (mem_filter.mp hw).1
  rw [mvccGet_plain hkey hfilter hts, mvccGet_plain hkey (history_cons h hv hbelow) hts]
  refine congrArg (fun value => Except.ok (value, none)) ?_
  show ((v :: versions.filter keep).find? (·.timestamp.lessEq ts)).bind _ =
    ((v :: versions).find? (·.timestamp.lessEq ts)).bind _
  rw [find?_cons, find?_cons]
  cases v.timestamp.lessEq ts with
  | true => rfl
  | false => exact hread

/-- If reads of the committed versions stay the same, so do those after an intent was resolved. -/
lemma mvccGet_resolved (h : s.Wf) (hd : d ∈ s.keys) {resolution : Resolution}
    (hres : resolution.Admits d) (hts : Stamp ts)
    (hread : committedRead { ts := ts } (d.committed.filter keep) (s.tombstonesAt d.key) =
      committedRead { ts := ts } d.committed (s.tombstonesAt d.key)) :
    mvccGet d.key { ts := ts } (resolved s d resolution keep) =
      mvccGet d.key { ts := ts } (resolved s d resolution fun _ => true) := by
  have hkey := h.key_ne d hd
  have hhistory := h.history hd
  have hall : ∀ versions : List Version, versions.filter (fun _ => true) = versions := by simp
  have hcommitted : mvccGet d.key { ts := ts }
        ⟨none, d.committed.filter keep, s.tombstonesAt d.key⟩ =
      mvccGet d.key { ts := ts } ⟨none, d.committed, s.tombstonesAt d.key⟩ := by
    rw [mvccGet_plain hkey (history_filter hhistory) hts, mvccGet_plain hkey hhistory hts, hread]
  cases h.keys d hd with
  | committed _ _ _ =>
    simp only [resolved, hall]
    exact hcommitted
  | inline _ => rfl
  | @intent key m v versions _ _ descending stamps =>
    cases resolution with
    | abort =>
      simp only [resolved, hall]
      exact hcommitted
    | commit commitTS =>
      obtain ⟨hstamp, hge⟩ := hres
      have hbelow : Below versions commitTS := fun w hw =>
        ((descending_cons.mp descending).1 w hw).trans_le (hge v rfl)
      simp only [resolved, hall]
      exact @mvccGet_cons_filter ts key versions _ ⟨commitTS, v.value⟩ keep hkey hhistory
        hstamp hbelow hts hread

end MeshDB.Storage
