import MeshDB.Storage.Stats
import MeshDB.Storage.EngineKeyOrder
import MeshDB.Storage.Resolved

/-!
# Garbage collection by clear range

`MVCCGarbageCollectPointsWithClearRange`: one pass checks that all versions from a start key and
timestamp on are garbage, and only then are they removed together.
-/
namespace MeshDB.Storage

open Roachpb Hlc Timestamp List Option MVCCStats Counts

def updateStatsOnGC (key : Key) (keySize valSize : ℤ) (metaKey : Bool) (nonLiveMS : ℤ) :
    MVCCStats :=
  if isSysLocal key then
    ({} : MVCCStats).plus
      { sysBytes := -(keySize + valSize), sysCount := if metaKey then -1 else 0 }
  else
    (({} : MVCCStats).ageTo nonLiveMS).plus
      { keyBytes := -keySize, valBytes := -valSize
        keyCount := if metaKey then -1 else 0, valCount := if metaKey then 0 else -1 }

inductive GCError where
  | bareRangeKey
  | intent (key : Key)
  | aboveThreshold (key : MVCCKey) (gcThreshold : Timestamp)
  | visible (key : MVCCKey) (gcThreshold : Timestamp)
deriving DecidableEq

structure GcState where
  prevPointKey : MVCCKey := ⟨[], {}⟩
  firstKey : Bool := true
  ms : Option MVCCStats

def Point.timestamp : Point → Timestamp
  | .metadata _ => {}
  | .version v => v.timestamp

/-- The timestamp of the next newer version, or of a range tombstone between them. -/
def coveredBy (prev : Timestamp) (rangeTombstones : List Version) (ts : Timestamp) : Timestamp :=
  match firstAtOrAbove rangeTombstones ts with
  | some rangeKeyCover =>
    if prev.isEmpty || rangeKeyCover.timestamp.less prev then rangeKeyCover.timestamp else prev
  | none => prev

section
variable (sizes : Sizes) (start : Key) (startTimestamp gcThreshold : Timestamp)

def gcStats (newKey : Bool) (key : Key) (v : Version) (validTill : ℤ) (ms : MVCCStats) :
    MVCCStats :=
  let ms :=
    if newKey then
      ms.add (updateStatsOnGC key (encodedMVCCKeyPrefixLength key) 0 true validTill)
    else ms
  ms.add (updateStatsOnGC key mvccVersionTimestampSize (sizes.value v.value) false validTill)

def gcPoint (st : GcState) (rangeTombstones : List Version) (key : Key) (point : Point) :
    Except (GCError × Option MVCCStats) GcState :=
  let ts := point.timestamp
  let newKey := decide (st.prevPointKey.key ≠ key)
  let prev := if newKey then {} else st.prevPointKey.timestamp
  -- Points before the first one of the request are only seen.
  if st.firstKey && (MVCCKey.mk key ts).compare ⟨start, startTimestamp⟩ == .lt then
    .ok { st with prevPointKey := ⟨key, ts⟩ }
  else
    match point with
    | .metadata _ => .error (.intent key, st.ms)
    | .version v =>
      if ts.isEmpty then .error (.intent key, st.ms)
      else if gcThreshold.less ts then .error (.aboveThreshold ⟨key, ts⟩ gcThreshold, st.ms)
      else
        let covered := coveredBy prev rangeTombstones ts
        let isTombstone := v.value.isTombstone
        if !covered.isEmpty && covered.lessEq gcThreshold || isTombstone then
          let validTill := if isTombstone then ts else covered
          .ok ⟨⟨key, ts⟩, false, st.ms.map (gcStats sizes newKey key v validTill.wallTime)⟩
        else .error (.visible ⟨key, ts⟩ gcThreshold, st.ms)

end

def MVCCKey.within (lower upper k : MVCCKey) : Bool :=
  k.compare lower != .lt && k.compare upper == .lt

/-- `ClearMVCCVersions` at a key: inline values are among the versions, and intents are not. -/
def StoreKey.clearMVCCVersions (lower upper : MVCCKey) (d : StoreKey) : Option StoreKey :=
  let metadata := d.metadata.filter fun m => !(m.isInline && MVCCKey.within lower upper ⟨d.key, {}⟩)
  let versions := d.versions.filter fun v => !MVCCKey.within lower upper ⟨d.key, v.timestamp⟩
  if metadata.isNone && versions.isEmpty then none else some ⟨d.key, metadata, versions⟩

def Store.clearMVCCVersions (s : Store) (lower upper : MVCCKey) : Store :=
  { s with keys := s.keys.filterMap (StoreKey.clearMVCCVersions lower upper) }

structure GcResult where
  store : Store
  ms : Option MVCCStats
  error : Option GCError

def mvccGarbageCollectPointsWithClearRange (sizes : Sizes) (s : Store) (ms : Option MVCCStats)
    (start endKey : Key) (startTimestamp gcThreshold : Timestamp) : GcResult :=
  match iterate (fun st : GcState => (GCError.bareRangeKey, st.ms)) (fun st _ => st)
      (gcPoint sizes start startTimestamp gcThreshold) none (s.restrict start endKey).positions
      { ms := ms } with
  | .error (e, ms) => ⟨s, ms, some e⟩
  | .ok st => ⟨s.clearMVCCVersions ⟨start, startTimestamp⟩ ⟨endKey, {}⟩, st.ms, none⟩

def Store.resolvedAt (s : Store) (k : Key) (resolution : Resolution) : KeyState :=
  match s.keys.find? fun d => d.key = k with
  | some d => resolved s d resolution fun _ => true
  | none => ⟨none, [], s.tombstonesAt k⟩

variable {k : Key} {t : Timestamp}

lemma compare_eq_lt_iff {k' : Key} {u : Timestamp} :
    (MVCCKey.mk k t).compare ⟨k', u⟩ = .lt ↔
      k < k' ∨ k = k' ∧ u.isEmpty = false ∧ (t.isEmpty ∨ u.ord < t.ord) := by
  rw [← less_iff_compare, MVCCKey.less]
  by_cases hk : k = k'
  · subst hk
    cases t.isEmpty <;> cases u.isEmpty <;> simp [less_iff]
  · simp [hk]

variable {endKey : Key}

lemma within_iff {start : Key} {startTimestamp : Timestamp} :
    MVCCKey.within ⟨start, startTimestamp⟩ ⟨endKey, {}⟩ ⟨k, t⟩ ↔
      (MVCCKey.mk k t).compare ⟨start, startTimestamp⟩ ≠ .lt ∧ k < endKey := by
  have hupper : (MVCCKey.mk k t).compare ⟨endKey, {}⟩ = .lt ↔ k < endKey := by
    rw [compare_eq_lt_iff]
    simp [Timestamp.isEmpty]
  simp [MVCCKey.within, hupper]

/-! ## Covers -/

variable {rangeTombstones : List Version} {ts : Timestamp}

lemma nextRangeTombstone_eq (h : Descending rangeTombstones) :
    nextRangeTombstone rangeTombstones ts =
      match firstAtOrAbove rangeTombstones ts with
      | some v => v.timestamp
      | none => {} := by
  cases rangeTombstones with
  | nil => rfl
  | cons newest rest =>
    rw [nextRangeTombstone]
    split_ifs with hle
    · rfl
    cases hfirst : firstAtOrAbove (newest :: rest) ts with
    | none => rfl
    | some v =>
      obtain ⟨hv, hge⟩ := (h.firstAtOrAbove_iff.mp hfirst).1
      have hnewest : v.timestamp.ord ≤ newest.timestamp.ord := by
        rcases mem_cons.mp hv with rfl | hv
        · exact le_rfl
        · exact ((descending_cons.mp h).1 v hv).le
      exact absurd (lessEq_iff.mpr (hge.trans hnewest)) hle

lemma of_nextRangeTombstone (h : Descending rangeTombstones)
    (hnext : (nextRangeTombstone rangeTombstones ts).isEmpty = false) :
    ∃ r ∈ rangeTombstones, r.timestamp = nextRangeTombstone rangeTombstones ts ∧
      ts.ord ≤ r.timestamp.ord := by
  rw [nextRangeTombstone_eq h] at hnext ⊢
  cases hfirst : firstAtOrAbove rangeTombstones ts with
  | none =>
    rw [hfirst] at hnext
    cases hnext
  | some r =>
    obtain ⟨hr, hge⟩ := (h.firstAtOrAbove_iff.mp hfirst).1
    exact ⟨r, hr, rfl, hge⟩

lemma coveredBy_eq {prev : Timestamp} (h : Descending rangeTombstones)
    (hstamps : ∀ r ∈ rangeTombstones, Stamp r.timestamp) :
    coveredBy prev rangeTombstones ts =
      if !(nextRangeTombstone rangeTombstones ts).isEmpty &&
          (prev.isEmpty || (nextRangeTombstone rangeTombstones ts).less prev) then
        nextRangeTombstone rangeTombstones ts
      else prev := by
  unfold coveredBy
  rw [nextRangeTombstone_eq h]
  cases hfirst : firstAtOrAbove rangeTombstones ts with
  | none => simp [Timestamp.isEmpty]
  | some r =>
    have hstamp := hstamps r (h.firstAtOrAbove_iff.mp hfirst).1.1
    simp [hstamp.not_isEmpty]

/-- No read at or above the threshold can see the version. -/
def Collectable (gcThreshold : Timestamp) (rangeTombstones versions : List Version)
    (v : Version) : Prop :=
  v.timestamp.ord ≤ gcThreshold.ord ∧
    (v.value.isTombstone ∨
      (∃ w ∈ versions, v.timestamp.ord < w.timestamp.ord ∧ w.timestamp.ord ≤ gcThreshold.ord) ∨
      ∃ r ∈ rangeTombstones, v.timestamp.ord ≤ r.timestamp.ord ∧ r.timestamp.ord ≤ gcThreshold.ord)

lemma Collectable.mono {gcThreshold : Timestamp} {versions versions' : List Version}
    {v : Version} (h : Collectable gcThreshold rangeTombstones versions v)
    (hsub : ∀ w ∈ versions, w ∈ versions') :
    Collectable gcThreshold rangeTombstones versions' v := by
  refine ⟨h.1, h.2.imp_right (Or.imp_left ?_)⟩
  rintro ⟨w, hw, hlt⟩
  exact ⟨w, hsub w hw, hlt⟩

/-! ## Statistics -/

lemma countsAt_updateStatsOnGC_meta (key : Key) (validTill now : ℤ) :
    (updateStatsOnGC key (encodedMVCCKeyPrefixLength key) 0 true validTill).countsAt now =
      -metaEntry now key 0 false (some validTill) := by
  unfold updateStatsOnGC metaEntry
  cases isSysLocal key with
  | true =>
    simp only [if_true]
    rw [countsAt_plus, countsAt_empty, zero_add]
    ext <;> simp [Counts.aged, Counts.aging, Counts.gcBytes, add_def, neg_def,
      Counts.zipWith, encodedMVCCKeyPrefixLength]
  | false =>
    simp only [Bool.false_eq_true, if_false, if_true]
    rw [countsAt_plus, countsAt_ageTo, countsAt_empty, zero_add, Counts.since, ← aged_neg]
    congr 1

lemma countsAt_updateStatsOnGC_version (key : Key) (valueLen validTill now : ℤ) :
    (updateStatsOnGC key mvccVersionTimestampSize valueLen false validTill).countsAt now =
      -versionEntry now key valueLen (some validTill) := by
  unfold updateStatsOnGC versionEntry
  cases isSysLocal key with
  | true =>
    simp only [if_true, Bool.false_eq_true, if_false]
    rw [countsAt_plus, countsAt_empty, zero_add]
    ext <;> simp [Counts.aged, Counts.aging, Counts.gcBytes, add_def, neg_def,
      Counts.zipWith, add_comm]
  | false =>
    simp only [Bool.false_eq_true, if_false]
    rw [countsAt_plus, countsAt_ageTo, countsAt_empty, zero_add, Counts.since, ← aged_neg]
    congr 1

/-- The statistics lose a cost, which depends on the time they are for. -/
def Reduced (before after : Option MVCCStats) (cost : ℤ → Counts) : Prop :=
  ∀ ms ∈ before, ∃ ms' ∈ after, ∀ now, ms'.countsAt now = ms.countsAt now - cost now

lemma Reduced.refl (ms : Option MVCCStats) : Reduced ms ms fun _ => 0 :=
  fun ms hms => ⟨ms, hms, fun _ => (sub_zero _).symm⟩

variable {a b : Option MVCCStats} {cost cost' : ℤ → Counts}

lemma Reduced.trans {c : Option MVCCStats}
    (h : Reduced a b cost) (h' : Reduced b c cost') :
    Reduced a c fun now => cost now + cost' now := by
  intro ms hms
  obtain ⟨ms1, hms1, hcost⟩ := h ms hms
  obtain ⟨ms2, hms2, hcost'⟩ := h' ms1 hms1
  exact ⟨ms2, hms2, fun now => by rw [hcost', hcost, sub_sub]⟩

lemma Reduced.congr (h : Reduced a b cost)
    (heq : ∀ now, cost now = cost' now) : Reduced a b cost' := by
  rwa [← funext heq]

lemma reduced_gcStats {sizes : Sizes} (newKey : Bool) (key : Key) (v : Version)
    (validTill : ℤ) (ms : Option MVCCStats) :
    Reduced ms (ms.map (gcStats sizes newKey key v validTill)) fun now =>
      (if newKey then metaEntry now key 0 false (some validTill) else 0) +
        versionEntry now key (sizes.value v.value) (some validTill) := by
  intro ms hms
  cases hms
  refine ⟨_, rfl, ?_⟩
  intro now
  rw [gcStats, countsAt_add, countsAt_updateStatsOnGC_version]
  cases newKey with
  | true =>
    simp only [if_true]
    rw [countsAt_add, countsAt_updateStatsOnGC_meta]
    abel
  | false =>
    simp only [Bool.false_eq_true, if_false]
    abel

/-! ## The loop at the points of a key -/

variable {sizes : Sizes} {start key : Key} {startTimestamp gcThreshold : Timestamp}
  {rangeTombstones : List Version} {st st' : GcState} {v w : Version}

lemma gcPoint_skip {point : Point} (hfirst : st.firstKey)
    (hlt : (MVCCKey.mk key point.timestamp).compare ⟨start, startTimestamp⟩ = .lt) :
    gcPoint sizes start startTimestamp gcThreshold st rangeTombstones key point =
      .ok ⟨⟨key, point.timestamp⟩, true, st.ms⟩ := by
  simp [gcPoint, hfirst, hlt]

lemma gcPoint_ok (hrun : gcPoint sizes start startTimestamp gcThreshold st rangeTombstones key
      (.version v) = .ok st')
    (hfrom : (MVCCKey.mk key v.timestamp).compare ⟨start, startTimestamp⟩ ≠ .lt)
    {prev covered : Timestamp}
    (hprev : (if st.prevPointKey.key ≠ key then {} else st.prevPointKey.timestamp) = prev)
    (hcovered : coveredBy prev rangeTombstones v.timestamp = covered) :
    v.timestamp.ord ≤ gcThreshold.ord ∧
      (v.value.isTombstone ∨ covered.isEmpty = false ∧ covered.ord ≤ gcThreshold.ord) ∧
      st'.prevPointKey = ⟨key, v.timestamp⟩ ∧
      ∀ dead, (if v.value.isTombstone then v.timestamp else covered).wallTime = dead →
        Reduced st.ms st'.ms fun now =>
          (if st.prevPointKey.key ≠ key then metaEntry now key 0 false (some dead) else 0) +
            versionEntry now key (sizes.value v.value) (some dead) := by
  have hskip : ((MVCCKey.mk key v.timestamp).compare ⟨start, startTimestamp⟩ == .lt) = false := by
    simpa using hfrom
  unfold gcPoint at hrun
  simp only [Point.timestamp, hskip, Bool.and_false, Bool.false_eq_true, if_false,
    decide_eq_true_eq, hprev, hcovered] at hrun
  split_ifs at hrun with hempty hless hgarbage
  all_goals
    obtain rfl := Except.ok.inj hrun
    simp only [Bool.or_eq_true, Bool.and_eq_true, Bool.not_eq_true', lessEq_iff]
      at hgarbage
    refine ⟨?_, hgarbage.symm, rfl, ?_⟩
    · exact not_lt.mp fun hlt => hless (less_iff.mpr hlt)
    · rintro dead rfl
      simpa [*] using reduced_gcStats (decide (st.prevPointKey.key ≠ key)) key v _ st.ms

section
variable (hdesc : Descending rangeTombstones) (hstamps : ∀ r ∈ rangeTombstones, Stamp r.timestamp)
include hdesc hstamps

lemma gcPoint_older
    (hrun : gcPoint sizes start startTimestamp gcThreshold st rangeTombstones key
      (.version v) = .ok st')
    (hfrom : (MVCCKey.mk key v.timestamp).compare ⟨start, startTimestamp⟩ ≠ .lt)
    (hprev : st.prevPointKey = ⟨key, w.timestamp⟩) (hw : Stamp w.timestamp)
    (hlt : v.timestamp.ord < w.timestamp.ord) :
    Collectable gcThreshold rangeTombstones [w] v ∧ st'.prevPointKey = ⟨key, v.timestamp⟩ ∧
      Reduced st.ms st'.ms fun now => versionEntry now key (sizes.value v.value)
        (some (olderDead (nextRangeTombstone rangeTombstones v.timestamp)
          w.timestamp.wallTime v)) := by
  have hnotNew : ¬ st.prevPointKey.key ≠ key := by
    rw [hprev]
    simp
  have hprevTS : (if st.prevPointKey.key ≠ key then {} else st.prevPointKey.timestamp) =
      w.timestamp := by
    rw [if_neg hnotNew, hprev]
  have hcovered := @coveredBy_eq _ v.timestamp w.timestamp hdesc hstamps
  obtain ⟨hle, hgarbage, hkey, hreduced⟩ := gcPoint_ok hrun hfrom hprevTS hcovered
  simp only [hw.not_isEmpty, Bool.false_or, Bool.and_eq_true, Bool.not_eq_true',
    less_iff] at hgarbage
  refine ⟨⟨hle, ?_⟩, hkey, (hreduced (olderDead (nextRangeTombstone rangeTombstones v.timestamp)
    w.timestamp.wallTime v) ?_).congr fun now => by rw [if_neg hnotNew, zero_add]⟩
  · rcases hgarbage with htombstone | ⟨_, hcoveredLe⟩
    · exact Or.inl htombstone
    right
    split_ifs at hcoveredLe with hnext
    · obtain ⟨r, hr, heq, hge⟩ := of_nextRangeTombstone hdesc hnext.1
      exact Or.inr ⟨r, hr, hge, heq ▸ hcoveredLe⟩
    · exact Or.inl ⟨w, mem_singleton_self w, hlt, hcoveredLe⟩
  unfold olderDead
  rw [hw.not_isEmpty, Bool.false_or]
  cases v.value.isTombstone with
  | true => rfl
  | false =>
    cases hnext : (nextRangeTombstone rangeTombstones v.timestamp).isEmpty with
    | true => simp
    | false =>
      simp only [Bool.not_false, Bool.true_and, Bool.false_eq_true, if_false,
        decide_eq_true_eq, less_iff, ord_lt_iff]
      split_ifs <;> omega

lemma gcPoint_newest
    (hrun : gcPoint sizes start startTimestamp gcThreshold st rangeTombstones key
      (.version v) = .ok st')
    (hfrom : (MVCCKey.mk key v.timestamp).compare ⟨start, startTimestamp⟩ ≠ .lt)
    (hprev : st.prevPointKey.key ≠ key) {dead : Option ℤ}
    (hdead : newestDead v.value.isTombstone v.timestamp.wallTime
      (nextRangeTombstone rangeTombstones v.timestamp) = dead) :
    Collectable gcThreshold rangeTombstones [] v ∧ st'.prevPointKey = ⟨key, v.timestamp⟩ ∧
      Reduced st.ms st'.ms fun now =>
        metaEntry now key 0 false dead + versionEntry now key (sizes.value v.value) dead := by
  have hcovered : coveredBy {} rangeTombstones v.timestamp =
      nextRangeTombstone rangeTombstones v.timestamp := by
    rw [coveredBy_eq hdesc hstamps]
    split_ifs with hnext
    · rfl
    have hempty : (nextRangeTombstone rangeTombstones v.timestamp).isEmpty := by
      simpa [Timestamp.isEmpty] using hnext
    rw [nextRangeTombstone_eq hdesc] at hempty ⊢
    cases hfirst : firstAtOrAbove rangeTombstones v.timestamp with
    | none => rfl
    | some r =>
      rw [hfirst] at hempty
      have hstamp := hstamps r (hdesc.firstAtOrAbove_iff.mp hfirst).1.1
      rw [hstamp.not_isEmpty] at hempty
      cases hempty
  obtain ⟨hle, hgarbage, hkey, hreduced⟩ := gcPoint_ok hrun hfrom (if_pos hprev) hcovered
  refine ⟨⟨hle, ?_⟩, hkey, ?_⟩
  · rcases hgarbage with htombstone | ⟨hnext, hcoveredLe⟩
    · exact Or.inl htombstone
    obtain ⟨r, hr, heq, hge⟩ := of_nextRangeTombstone hdesc hnext
    exact Or.inr (Or.inr ⟨r, hr, hge, heq ▸ hcoveredLe⟩)
  have hreduced := hreduced _ rfl
  rw [newestDead] at hdead
  rcases hgarbage with htombstone | ⟨hnext, _⟩
  · rw [if_pos htombstone] at hdead hreduced
    simpa [hprev, hdead] using hreduced
  · rw [hnext, if_neg Bool.false_ne_true, ← apply_ite some, ← apply_ite Timestamp.wallTime] at hdead
    simpa [hprev, hdead] using hreduced

lemma gcPoints_older {versions : List Version}
    (hversions : Descending (w :: versions)) (hstamp : ∀ u ∈ w :: versions, Stamp u.timestamp)
    (hfrom : ∀ u ∈ versions, (MVCCKey.mk key u.timestamp).compare ⟨start, startTimestamp⟩ ≠ .lt)
    (hprev : st.prevPointKey = ⟨key, w.timestamp⟩)
    (hrun : iterPoints (gcPoint sizes start startTimestamp gcThreshold) rangeTombstones key
      (versions.map .version) st = .ok st') :
    (∀ u ∈ versions, Collectable gcThreshold rangeTombstones (w :: versions) u) ∧
      st'.prevPointKey.key = key ∧
      Reduced st.ms st'.ms fun now =>
        (olderEntries sizes now key rangeTombstones w.timestamp.wallTime versions).sum := by
  induction versions generalizing w st with
  | nil =>
    cases hrun
    exact ⟨by simp, by rw [hprev], (Reduced.refl _).congr fun _ => by simp [olderEntries]⟩
  | cons v versions ih =>
    obtain ⟨hbelow, htail⟩ := descending_cons.mp hversions
    obtain ⟨st1, hstep, hrest⟩ := Outcome.bind_eq_ok.mp hrun
    obtain ⟨hv, hprev1, hreduced⟩ := gcPoint_older hdesc hstamps hstep
      (hfrom v (.head _)) hprev (hstamp w (.head _))
      (hbelow v (.head _))
    obtain ⟨hothers, hkey, hreduced'⟩ := ih htail (fun u hu => hstamp u (.tail _ hu))
      (fun u hu => hfrom u (.tail _ hu)) hprev1 hrest
    refine ⟨?_, hkey, (hreduced.trans hreduced').congr fun now => by
      rw [olderEntries, sum_cons]⟩
    intro u hu
    rcases mem_cons.mp hu with rfl | hu
    · exact hv.mono (by simp)
    · exact (hothers u hu).mono fun x hx => mem_cons_of_mem _ hx

lemma gcPoints_skipped {kept removed : List Version}
    (hversions : Descending (w :: (kept ++ removed)))
    (hstamp : ∀ u ∈ w :: (kept ++ removed), Stamp u.timestamp)
    (hkept : ∀ u ∈ kept, (MVCCKey.mk key u.timestamp).compare ⟨start, startTimestamp⟩ = .lt)
    (hfrom : ∀ u ∈ removed, (MVCCKey.mk key u.timestamp).compare ⟨start, startTimestamp⟩ ≠ .lt)
    (hfirst : ∀ u ∈ kept, st.firstKey) (hprev : st.prevPointKey = ⟨key, w.timestamp⟩)
    (hrun : iterPoints (gcPoint sizes start startTimestamp gcThreshold) rangeTombstones key
      ((kept ++ removed).map .version) st = .ok st') :
    (∀ u ∈ removed, Collectable gcThreshold rangeTombstones (w :: (kept ++ removed)) u) ∧
      st'.prevPointKey.key = key ∧
      Reduced st.ms st'.ms fun now =>
        (olderEntries sizes now key rangeTombstones w.timestamp.wallTime (kept ++ removed)).sum -
          (olderEntries sizes now key rangeTombstones w.timestamp.wallTime kept).sum := by
  induction kept generalizing w st with
  | nil =>
    obtain ⟨hcollectable, hkey, hreduced⟩ :=
      gcPoints_older hdesc hstamps hversions hstamp hfrom hprev hrun
    exact ⟨hcollectable, hkey, hreduced.congr fun _ => by simp [olderEntries]⟩
  | cons v kept ih =>
    rw [cons_append, map_cons, iterPoints] at hrun
    rw [gcPoint_skip (hfirst v (.head _)) (hkept v (.head _))] at hrun
    obtain ⟨hcollectable, hkey, hreduced⟩ := ih (descending_cons.mp hversions).2
      (fun u hu => hstamp u (.tail _ hu))
      (fun u hu => hkept u (.tail _ hu))
      (fun _ _ => rfl) rfl hrun
    refine ⟨?_, hkey, hreduced.congr fun now => ?_⟩
    · intro u hu
      exact (hcollectable u hu).mono fun x hx => mem_cons_of_mem _ hx
    rw [cons_append, olderEntries, olderEntries, sum_cons, sum_cons]
    abel

end

lemma exists_split {versions : List Version} (h : Descending versions)
    (hstamp : ∀ u ∈ versions, Stamp u.timestamp) (lower : MVCCKey) :
    ∃ kept removed, versions = kept ++ removed ∧
      (∀ u ∈ kept, (MVCCKey.mk key u.timestamp).compare lower = .lt) ∧
      ∀ u ∈ removed, (MVCCKey.mk key u.timestamp).compare lower ≠ .lt := by
  induction versions with
  | nil => exact ⟨[], [], rfl, by simp, by simp⟩
  | cons v versions ih =>
    obtain ⟨hbelow, htail⟩ := descending_cons.mp h
    by_cases hlt : (MVCCKey.mk key v.timestamp).compare lower = .lt
    · obtain ⟨kept, removed, rfl, hkept, hremoved⟩ :=
        ih htail fun u hu => hstamp u (.tail _ hu)
      exact ⟨v :: kept, removed, rfl, forall_mem_cons.mpr ⟨hlt, hkept⟩, hremoved⟩
    refine ⟨[], v :: versions, rfl, by simp, ?_⟩
    intro u hu hult
    rcases mem_cons.mp hu with rfl | hmem
    · exact hlt hult
    apply hlt
    rw [compare_eq_lt_iff] at hult ⊢
    rcases hult with hult | ⟨heq, hempty, hult⟩
    · exact Or.inl hult
    refine Or.inr ⟨heq, hempty, Or.inr ?_⟩
    rw [(hstamp u hu).not_isEmpty] at hult
    rcases hult with hult | hult
    · cases hult
    · exact hult.trans (hbelow u hmem)

/-! ## The loop at a key -/

variable {sizes : Sizes} {start : Key} {startTimestamp gcThreshold : Timestamp}
  {rangeTombstones : List Version} {st st' : GcState} {d : StoreKey}

def clearedEntries (sizes : Sizes) (now : ℤ) (lower upper : MVCCKey)
    (rangeTombstones : List Version) (d : StoreKey) : List Counts :=
  (d.clearMVCCVersions lower upper).toList.flatMap (keyEntries sizes now rangeTombstones)

/-- What clearing takes from the counts of a key. -/
def clearedCounts (sizes : Sizes) (now : ℤ) (lower upper : MVCCKey)
    (rangeTombstones : List Version) (d : StoreKey) : Counts :=
  (keyEntries sizes now rangeTombstones d).sum -
    (clearedEntries sizes now lower upper rangeTombstones d).sum

/-- The range that is cleared starts after an intent's provisional value. -/
def StoreKey.KeepsIntent (lower upper : MVCCKey) (d : StoreKey) : Prop :=
  d.metadata.isSome → ∀ v ∈ d.versions.head?,
    MVCCKey.within lower upper ⟨d.key, v.timestamp⟩ = false

/-- What the loop finds out: an inline value is not cleared, and a version that is cleared is hidden
by another point. -/
structure Checked (start endKey : Key) (startTimestamp gcThreshold : Timestamp)
    (rangeTombstones : List Version) (d : StoreKey) : Prop where
  inline : ∀ m ∈ d.metadata, m.isInline →
    MVCCKey.within ⟨start, startTimestamp⟩ ⟨endKey, {}⟩ ⟨d.key, {}⟩ = false
  versions : ∀ v ∈ d.versions,
    MVCCKey.within ⟨start, startTimestamp⟩ ⟨endKey, {}⟩ ⟨d.key, v.timestamp⟩ →
      Collectable gcThreshold rangeTombstones d.versions v

variable {key : Key}

lemma filter_within {kept removed : List Version} (hkey : key < endKey)
    (hkept : ∀ u ∈ kept, (MVCCKey.mk key u.timestamp).compare ⟨start, startTimestamp⟩ = .lt)
    (hremoved : ∀ u ∈ removed, (MVCCKey.mk key u.timestamp).compare ⟨start, startTimestamp⟩ ≠ .lt) :
    (kept ++ removed).filter (fun v =>
      !MVCCKey.within ⟨start, startTimestamp⟩ ⟨endKey, {}⟩ ⟨key, v.timestamp⟩) = kept := by
  rw [filter_append, filter_eq_self.mpr, filter_eq_nil_iff.mpr, append_nil]
  · intro u hu
    simpa using within_iff.mpr ⟨hremoved u hu, hkey⟩
  intro u hu
  have hnot : ¬ MVCCKey.within ⟨start, startTimestamp⟩ ⟨endKey, {}⟩ ⟨key, u.timestamp⟩ = true := by
    rw [within_iff]
    exact fun h => h.1 (hkept u hu)
  simpa using hnot

lemma clearMVCCVersions_committed {kept removed : List Version} (hkey : key < endKey)
    (hkept : ∀ u ∈ kept, (MVCCKey.mk key u.timestamp).compare ⟨start, startTimestamp⟩ = .lt)
    (hremoved : ∀ u ∈ removed, (MVCCKey.mk key u.timestamp).compare ⟨start, startTimestamp⟩ ≠ .lt) :
    (StoreKey.mk key none (kept ++ removed)).clearMVCCVersions ⟨start, startTimestamp⟩
        ⟨endKey, {}⟩ = if kept.isEmpty then none else some ⟨key, none, kept⟩ := by
  simp only [StoreKey.clearMVCCVersions, filter_none, isNone_none, Bool.true_and,
    filter_within hkey hkept hremoved]

lemma clearMVCCVersions_intent {m : MVCCMetadata} (hinline : m.isInline = false)
    {kept removed : List Version} (hkey : key < endKey)
    (hkept : ∀ u ∈ kept, (MVCCKey.mk key u.timestamp).compare ⟨start, startTimestamp⟩ = .lt)
    (hremoved : ∀ u ∈ removed, (MVCCKey.mk key u.timestamp).compare ⟨start, startTimestamp⟩ ≠ .lt) :
    (StoreKey.mk key (some m) (kept ++ removed)).clearMVCCVersions ⟨start, startTimestamp⟩
        ⟨endKey, {}⟩ = some ⟨key, some m, kept⟩ := by
  simp [StoreKey.clearMVCCVersions, hinline, filter_within hkey hkept hremoved]

lemma gcKey_committed (hdesc : Descending rangeTombstones)
    (hstamps : ∀ r ∈ rangeTombstones, Stamp r.timestamp)
    {versions : List Version} (hnonempty : versions ≠ []) (hversions : Descending versions)
    (hstamp : ∀ u ∈ versions, Stamp u.timestamp) (hlower : start ≤ key) (hupper : key < endKey)
    (hprev : st.prevPointKey.key ≠ key) (hfirst : key = start → st.firstKey)
    (hrun : iterPoints (gcPoint sizes start startTimestamp gcThreshold) rangeTombstones key
      (versions.map .version) st = .ok st') :
    Checked start endKey startTimestamp gcThreshold rangeTombstones ⟨key, none, versions⟩ ∧
      st'.prevPointKey.key = key ∧
      Reduced st.ms st'.ms fun now =>
        clearedCounts sizes now ⟨start, startTimestamp⟩ ⟨endKey, {}⟩ rangeTombstones
          ⟨key, none, versions⟩ := by
  obtain ⟨kept, removed, rfl, hkept, hremoved⟩ :=
    @exists_split key versions hversions hstamp ⟨start, startTimestamp⟩
  have hclear := clearMVCCVersions_committed hupper hkept hremoved
  have hchecked : (∀ u ∈ removed, Collectable gcThreshold rangeTombstones (kept ++ removed) u) →
      Checked start endKey startTimestamp gcThreshold rangeTombstones
        ⟨key, none, kept ++ removed⟩ := by
    intro hcollectable
    refine ⟨fun m hm => (by cases hm), ?_⟩
    intro v hv hwithin
    rcases mem_append.mp hv with hv | hv
    · exact absurd (hkept v hv) (within_iff.mp hwithin).1
    · exact hcollectable v hv
  cases kept with
  | nil =>
    cases removed with
    | nil => exact absurd rfl hnonempty
    | cons v removed =>
      obtain ⟨st1, hstep, hrest⟩ := Outcome.bind_eq_ok.mp hrun
      obtain ⟨hv, hprev1, hreduced⟩ := gcPoint_newest hdesc hstamps hstep
        (hremoved v (.head _)) hprev rfl
      obtain ⟨hothers, hkey, hreduced'⟩ := gcPoints_older hdesc hstamps hversions hstamp
        (fun u hu => hremoved u (.tail _ hu)) hprev1 hrest
      refine ⟨hchecked ?_, hkey, (hreduced.trans hreduced').congr fun now => ?_⟩
      · exact forall_mem_cons.mpr ⟨hv.mono (by simp), hothers⟩
      simp only [clearedCounts, clearedEntries, hclear, keyEntries]
      simp
      abel
  | cons v kept =>
    have hstart : key = start := by
      rcases compare_eq_lt_iff.mp (hkept v (.head _)) with hlt | ⟨heq, _⟩
      · exact absurd hlt (not_lt.mpr hlower)
      · exact heq
    rw [cons_append, map_cons, iterPoints] at hrun
    rw [gcPoint_skip (hfirst hstart) (hkept v (.head _))] at hrun
    obtain ⟨hcollectable, hkey, hreduced⟩ := gcPoints_skipped hdesc hstamps hversions hstamp
      (fun u hu => hkept u (.tail _ hu)) hremoved (fun _ _ => rfl) rfl hrun
    refine ⟨hchecked hcollectable, hkey, hreduced.congr fun now => ?_⟩
    rw [clearedCounts, clearedEntries, hclear]
    simp only [keyEntries, cons_append, isEmpty_cons, Bool.false_eq_true, if_false,
      toList_some, flatMap_cons, flatMap_nil, append_nil, sum_cons]
    abel

lemma gcKey_metadata {m : MVCCMetadata} {points : List Point} (hlower : start ≤ key)
    (hrun : iterPoints (gcPoint sizes start startTimestamp gcThreshold) rangeTombstones key
      (.metadata m :: points) st = .ok st') :
    key = start ∧ startTimestamp.isEmpty = false ∧
      iterPoints (gcPoint sizes start startTimestamp gcThreshold) rangeTombstones key points
        ⟨⟨key, {}⟩, true, st.ms⟩ = .ok st' := by
  rw [iterPoints] at hrun
  by_cases hskip : st.firstKey ∧ (MVCCKey.mk key {}).compare ⟨start, startTimestamp⟩ = .lt
  · obtain ⟨hfirst, hlt⟩ := hskip
    rw [gcPoint_skip hfirst hlt] at hrun
    rcases compare_eq_lt_iff.mp hlt with hkey | ⟨hkey, hempty, _⟩
    · exact absurd hkey (not_lt.mpr hlower)
    · exact ⟨hkey, hempty, hrun⟩
  have herror : gcPoint sizes start startTimestamp gcThreshold st rangeTombstones key
      (.metadata m) = .error (.intent key, st.ms) := by
    have hskip : (st.firstKey &&
        (MVCCKey.mk key {}).compare ⟨start, startTimestamp⟩ == .lt) = false := by
      simpa using hskip
    simp only [gcPoint, Point.timestamp, hskip, Bool.false_eq_true, if_false]
  rw [herror] at hrun
  cases hrun

lemma gcKey_intent (hdesc : Descending rangeTombstones)
    (hstamps : ∀ r ∈ rangeTombstones, Stamp r.timestamp) {m : MVCCMetadata} {v : Version}
    {versions : List Version} (hinline : m.isInline = false)
    (htimestamp : v.timestamp.ord = m.timestamp.ord) (hversions : Descending (v :: versions))
    (hstamp : ∀ u ∈ v :: versions, Stamp u.timestamp) (hlower : start ≤ key) (hupper : key < endKey)
    (hkeeps : StoreKey.KeepsIntent ⟨start, startTimestamp⟩ ⟨endKey, {}⟩
      ⟨key, some m, v :: versions⟩)
    (hrun : iterPoints (gcPoint sizes start startTimestamp gcThreshold) rangeTombstones key
      (.metadata m :: (v :: versions).map .version) st = .ok st') :
    Checked start endKey startTimestamp gcThreshold rangeTombstones ⟨key, some m, v :: versions⟩ ∧
      st'.prevPointKey.key = key ∧
      Reduced st.ms st'.ms fun now =>
        clearedCounts sizes now ⟨start, startTimestamp⟩ ⟨endKey, {}⟩ rangeTombstones
          ⟨key, some m, v :: versions⟩ := by
  obtain ⟨-, -, hrest⟩ := gcKey_metadata hlower hrun
  have hv : (MVCCKey.mk key v.timestamp).compare ⟨start, startTimestamp⟩ = .lt := by
    by_contra hne
    have hwithin := hkeeps rfl v rfl
    rw [within_iff.mpr ⟨hne, hupper⟩] at hwithin
    cases hwithin
  obtain ⟨kept, removed, rfl, hkept, hremoved⟩ := @exists_split key versions
    (descending_cons.mp hversions).2 (fun u hu => hstamp u (.tail _ hu)) ⟨start, startTimestamp⟩
  rw [map_cons, iterPoints, gcPoint_skip rfl hv] at hrest
  obtain ⟨hcollectable, hkey, hreduced⟩ := gcPoints_skipped hdesc hstamps hversions hstamp hkept
    hremoved (fun _ _ => rfl) rfl hrest
  have hclear : (StoreKey.mk key (some m) (v :: (kept ++ removed))).clearMVCCVersions
      ⟨start, startTimestamp⟩ ⟨endKey, {}⟩ = some ⟨key, some m, v :: kept⟩ :=
    @clearMVCCVersions_intent endKey start startTimestamp key m hinline (v :: kept) removed hupper
      (forall_mem_cons.mpr ⟨hv, hkept⟩) hremoved
  have hwall : v.timestamp.wallTime = m.timestamp.wallTime :=
    congrArg (fun t : Int ×ₗ Int => (ofLex t).1) htimestamp
  refine ⟨⟨?_, ?_⟩, hkey, hreduced.congr fun now => ?_⟩
  · intro m' hm hinline'
    cases hm
    rw [hinline] at hinline'
    cases hinline'
  · intro u hu hwithin
    have hfrom := (within_iff.mp hwithin).1
    rcases mem_cons.mp hu with rfl | hu
    · exact absurd hv hfrom
    rcases mem_append.mp hu with hu | hu
    · exact absurd (hkept u hu) hfrom
    · exact hcollectable u hu
  rw [clearedCounts, clearedEntries, hclear]
  simp only [keyEntries, Option.toList_some, flatMap_cons, flatMap_nil, append_nil, sum_cons, hwall]
  abel

lemma gcKey_ok (hdesc : Descending rangeTombstones)
    (hstamps : ∀ r ∈ rangeTombstones, Stamp r.timestamp) (hd : d.Wf)
    (hlower : start ≤ d.key) (hupper : d.key < endKey) (hprev : st.prevPointKey.key ≠ d.key)
    (hfirst : d.key = start → st.firstKey)
    (hkeeps : d.KeepsIntent ⟨start, startTimestamp⟩ ⟨endKey, {}⟩)
    (hrun : iterPoints (gcPoint sizes start startTimestamp gcThreshold) rangeTombstones d.key
      d.points st = .ok st') :
    Checked start endKey startTimestamp gcThreshold rangeTombstones d ∧
      st'.prevPointKey.key = d.key ∧
      Reduced st.ms st'.ms fun now =>
        clearedCounts sizes now ⟨start, startTimestamp⟩ ⟨endKey, {}⟩ rangeTombstones d := by
  cases hd with
  | committed nonempty descending stamps =>
    exact gcKey_committed hdesc hstamps nonempty descending stamps hlower hupper hprev hfirst hrun
  | @inline key m inline =>
    obtain ⟨hkey, hempty, hrest⟩ := gcKey_metadata hlower hrun
    cases hrest
    have hwithin : MVCCKey.within ⟨start, startTimestamp⟩ ⟨endKey, {}⟩ ⟨key, {}⟩ = false := by
      have hlt : (MVCCKey.mk key {}).compare ⟨start, startTimestamp⟩ = .lt :=
        compare_eq_lt_iff.mpr (Or.inr ⟨hkey, hempty, Or.inl rfl⟩)
      simp [MVCCKey.within, hlt]
    have hclear : (StoreKey.mk key (some m) []).clearMVCCVersions ⟨start, startTimestamp⟩
        ⟨endKey, {}⟩ = some ⟨key, some m, []⟩ := by
      simp [StoreKey.clearMVCCVersions, filter_some, hwithin]
    refine ⟨⟨fun _ _ _ => hwithin, fun v hv => by cases hv⟩, rfl, (Reduced.refl _).congr fun now => ?_⟩
    simp [clearedCounts, clearedEntries, hclear]
  | intent inline timestamp descending stamps =>
    exact gcKey_intent hdesc hstamps inline timestamp descending stamps hlower hupper hkeeps hrun

lemma gcKeys_ok {s : Store} (hs : s.Wf) {endKey : Key} {prev : Option RangeKeyStack}
    {ds : List StoreKey} (hds : ∀ d ∈ ds, d.points = [] ∨ d.Wf)
    (hsorted : OrderedSet.Sorted StoreKey.key ds)
    (hbounds : ∀ d ∈ ds, start ≤ d.key ∧ d.key < endKey)
    (hprev : ∀ d ∈ ds, st.prevPointKey.key ≠ d.key) (hfirst : ∀ d ∈ ds, d.key = start → st.firstKey)
    (hkeeps : ∀ d ∈ ds, d.KeepsIntent ⟨start, startTimestamp⟩ ⟨endKey, {}⟩)
    (hrun : iterKeys (fun st _ => st) (gcPoint sizes start startTimestamp gcThreshold) s prev ds
      st = .ok st') :
    (∀ d ∈ ds, d.points = [] ∨
        Checked start endKey startTimestamp gcThreshold (s.tombstonesAt d.key) d) ∧
      Reduced st.ms st'.ms fun now => (ds.map fun d => clearedCounts sizes now
        ⟨start, startTimestamp⟩ ⟨endKey, {}⟩ (s.tombstonesAt d.key) d).sum := by
  induction ds generalizing prev st with
  | nil =>
    cases hrun
    exact ⟨by simp, (Reduced.refl _).congr fun _ => by simp⟩
  | cons d ds ih =>
    obtain ⟨hlt, hsorted⟩ := OrderedSet.sorted_cons.mp hsorted
    obtain ⟨hlower, hupper⟩ := hbounds d (.head _)
    rw [iterKeys, ite_self] at hrun
    obtain ⟨st1, hpoints, hrest⟩ := Outcome.bind_eq_ok.mp hrun
    obtain ⟨hchecked, hkey1, hreduced⟩ : (d.points = [] ∨
          Checked start endKey startTimestamp gcThreshold (s.tombstonesAt d.key) d) ∧
        (st1.prevPointKey.key = st.prevPointKey.key ∨ st1.prevPointKey.key = d.key) ∧
        Reduced st.ms st1.ms fun now =>
          clearedCounts sizes now ⟨start, startTimestamp⟩ ⟨endKey, {}⟩ (s.tombstonesAt d.key)
            d := by
      rcases hds d (.head _) with hnil | hwf
      · rw [hnil] at hpoints
        cases hpoints
        refine ⟨Or.inl hnil, Or.inl rfl, (Reduced.refl _).congr fun now => ?_⟩
        have hclear : d.clearMVCCVersions ⟨start, startTimestamp⟩ ⟨endKey, {}⟩ = none := by
          obtain ⟨hmetadata, hversions⟩ := points_eq_nil_iff.mp hnil
          simp [StoreKey.clearMVCCVersions, hmetadata, hversions]
        simp [clearedCounts, clearedEntries, hclear, keyEntries_of_points_eq_nil hnil]
      have hhistory := hs.rangeHistory d.key
      obtain ⟨hchecked, hkey, hreduced⟩ := gcKey_ok hhistory.1 hhistory.2 hwf hlower hupper
        (hprev d (.head _)) (hfirst d (.head _)) (hkeeps d (.head _)) hpoints
      exact ⟨Or.inr hchecked, Or.inr hkey, hreduced⟩
    have habove : ∀ d' ∈ ds, d'.key ≠ start := fun d' hd' =>
      (hlower.trans_lt (hlt d' hd')).ne'
    obtain ⟨hothers, hreduced'⟩ := ih (fun d' hd' => hds d' (.tail _ hd'))
      hsorted (fun d' hd' => hbounds d' (.tail _ hd'))
      (by
        intro d' hd'
        rcases hkey1 with hkey | hkey
        · rw [hkey]
          exact hprev d' (.tail _ hd')
        rw [hkey]
        exact (hlt d' hd').ne)
      (fun d' hd' hkey => absurd hkey (habove d' hd'))
      (fun d' hd' => hkeeps d' (.tail _ hd')) hrest
    refine ⟨forall_mem_cons.mpr ⟨hchecked, hothers⟩, ?_⟩
    exact (hreduced.trans hreduced').congr fun now => by rw [map_cons, sum_cons]

end MeshDB.Storage
