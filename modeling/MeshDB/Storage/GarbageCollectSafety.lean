import MeshDB.Storage.GarbageCollect

/-!
# The safety of garbage collection by clear range

What is left after all keys passed the check: every read at or above the threshold, every
intent, every version above the threshold, and statistics that agree with the contents.
-/
namespace MeshDB.Storage

open Roachpb Hlc List StoreKey
variable {s : Store} {start endKey : Key} {startTimestamp gcThreshold : Timestamp}
  {lower upper : MVCCKey} {d : StoreKey} {rangeTombstones : List Version} {sizes : Sizes}
  {ts : Timestamp} {l : List StoreKey}

lemma key_of_clearMVCCVersions {d' : StoreKey}
    (h : d.clearMVCCVersions lower upper = some d') : d'.key = d.key := by
  unfold clearMVCCVersions at h
  dsimp only at h
  split_ifs at h
  cases h
  rfl

lemma clearMVCCVersions_of_metadata_eq_none (h : d.metadata = none) :
    d.clearMVCCVersions lower upper =
      if (d.versions.filter fun v => !MVCCKey.within lower upper ⟨d.key, v.timestamp⟩).isEmpty
      then none
      else some ⟨d.key, none,
        d.versions.filter fun v => !MVCCKey.within lower upper ⟨d.key, v.timestamp⟩⟩ := by
  simp [clearMVCCVersions, h]

lemma clearMVCCVersions_outside {d : StoreKey} (hd : d.Wf)
    (hkey : ¬ (start ≤ d.key ∧ d.key < endKey)) :
    d.clearMVCCVersions ⟨start, startTimestamp⟩ ⟨endKey, {}⟩ = some d := by
  have hwithin : ∀ t, MVCCKey.within ⟨start, startTimestamp⟩ ⟨endKey, {}⟩ ⟨d.key, t⟩ = false := by
    intro t
    rw [← Bool.not_eq_true, within_iff]
    rintro ⟨hlower, hupper⟩
    refine hkey ⟨not_lt.mp fun hlt => hlower ?_, hupper⟩
    exact compare_eq_lt_iff.mpr (Or.inl hlt)
  cases hd with
  | committed nonempty _ _ => simpa [clearMVCCVersions, hwithin] using nonempty
  | inline _ => simp [clearMVCCVersions, hwithin]
  | intent _ _ _ _ => simp [clearMVCCVersions, hwithin]

lemma clearMVCCVersions_keepsIntent {k : Key} {m : MVCCMetadata} {v : Version}
    {versions : List Version} (hinline : m.isInline = false)
    (hv : MVCCKey.within lower upper ⟨k, v.timestamp⟩ = false) :
    (StoreKey.mk k (some m) (v :: versions)).clearMVCCVersions lower upper =
      some ⟨k, some m, v :: versions.filter fun u =>
        !MVCCKey.within lower upper ⟨k, u.timestamp⟩⟩ := by
  simp [clearMVCCVersions, hinline, hv]

lemma StoreKey.mem_of_mem_committed {v : Version} (h : v ∈ d.committed) : v ∈ d.versions := by
  unfold committed at h
  split at h
  · exact mem_of_mem_tail h
  · exact h

/-- The range that is cleared has all older versions too. -/
lemma within_of_older {k : Key} {t u : Timestamp}
    (h : MVCCKey.within ⟨start, startTimestamp⟩ ⟨endKey, {}⟩ ⟨k, t⟩ = true) (hu : Stamp u)
    (hlt : u.ord < t.ord) :
    MVCCKey.within ⟨start, startTimestamp⟩ ⟨endKey, {}⟩ ⟨k, u⟩ = true := by
  obtain ⟨hfrom, hupper⟩ := within_iff.mp h
  refine within_iff.mpr ⟨fun hbefore => hfrom ?_, hupper⟩
  rw [compare_eq_lt_iff] at hbefore ⊢
  refine hbefore.imp_right (And.imp_right (And.imp_right ?_))
  rw [hu.not_isEmpty]
  rintro (hempty | hbefore)
  · cases hempty
  · exact Or.inr (hbefore.trans hlt)

lemma checked_outside (hkey : ¬ (start ≤ d.key ∧ d.key < endKey)) :
    Checked start endKey startTimestamp gcThreshold rangeTombstones d := by
  have hwithin : ∀ t, MVCCKey.within ⟨start, startTimestamp⟩ ⟨endKey, {}⟩ ⟨d.key, t⟩ = false := by
    intro t
    rw [← Bool.not_eq_true, within_iff]
    rintro ⟨hlower, hupper⟩
    refine hkey ⟨not_lt.mp fun hlt => hlower ?_, hupper⟩
    exact compare_eq_lt_iff.mpr (Or.inl hlt)
  refine ⟨fun _ _ _ => hwithin {}, fun v _ hv => ?_⟩
  rw [hwithin] at hv
  cases hv

/-! ## Protected keys -/

/-- No version that is cleared is a provisional value, or hidden by one alone. -/
def StoreKey.Protected (start endKey : Key) (startTimestamp gcThreshold : Timestamp)
    (rangeTombstones : List Version) (d : StoreKey) : Prop :=
  ∀ v ∈ d.versions,
    MVCCKey.within ⟨start, startTimestamp⟩ ⟨endKey, {}⟩ ⟨d.key, v.timestamp⟩ = true →
      v ∈ d.committed ∧ Collectable gcThreshold rangeTombstones d.committed v

lemma StoreKey.Protected.keepsIntent
    (h : d.Protected start endKey startTimestamp gcThreshold rangeTombstones) (hd : d.Wf) :
    d.KeepsIntent ⟨start, startTimestamp⟩ ⟨endKey, {}⟩ := by
  intro hsome v hv
  cases hd with
  | committed _ _ _ => cases hsome
  | inline _ => cases hv
  | intent _ _ descending _ =>
    cases hv
    by_contra hwithin
    obtain ⟨hmem, -⟩ := h v (.head _) (by simpa using hwithin)
    exact absurd ((descending_cons.mp descending).1 v hmem) (lt_irrefl _)

/-- All keys are protected, and no inline value is cleared. -/
structure AllProtected (s : Store) (start endKey : Key) (startTimestamp gcThreshold : Timestamp) :
    Prop where
  inline : ∀ d ∈ s.keys, ∀ m ∈ d.metadata, m.isInline →
    MVCCKey.within ⟨start, startTimestamp⟩ ⟨endKey, {}⟩ ⟨d.key, {}⟩ = false
  keys : ∀ d ∈ s.keys,
    d.Protected start endKey startTimestamp gcThreshold (s.tombstonesAt d.key)

lemma AllProtected.of_checked
    (h : ∀ d ∈ s.keys, Checked start endKey startTimestamp gcThreshold (s.tombstonesAt d.key) d)
    (hprotected : ∀ d ∈ s.keys, d.metadata.isSome →
      d.Protected start endKey startTimestamp gcThreshold (s.tombstonesAt d.key)) :
    AllProtected s start endKey startTimestamp gcThreshold where
  inline d hd := (h d hd).inline
  keys d hd := by
    cases hmetadata : d.metadata with
    | some m => exact hprotected d hd (by simp [hmetadata])
    | none =>
      intro v hv hwithin
      have hcommitted : d.committed = d.versions := by rw [committed, hmetadata]
      rw [hcommitted]
      exact ⟨hv, (h d hd).versions v hv hwithin⟩

/-- A key with an intent or an inline value keeps it, with its provisional value. -/
lemma AllProtected.clear_of_metadata (h : s.Wf)
    (hall : AllProtected s start endKey startTimestamp gcThreshold) (hd : d ∈ s.keys)
    (hsome : d.metadata.isSome) :
    d.clearMVCCVersions ⟨start, startTimestamp⟩ ⟨endKey, {}⟩ =
      some ⟨d.key, d.metadata, d.versions.head?.toList ++ d.committed.filter fun v =>
        !MVCCKey.within ⟨start, startTimestamp⟩ ⟨endKey, {}⟩ ⟨d.key, v.timestamp⟩⟩ := by
  have hkeeps := (hall.keys d hd).keepsIntent (h.keys d hd) hsome
  have hinline := hall.inline d hd
  cases h.keys d hd with
  | committed _ _ _ => cases hsome
  | inline inline => simp [clearMVCCVersions, committed, hinline _ rfl inline]
  | intent inline _ _ _ => exact clearMVCCVersions_keepsIntent inline (hkeeps _ rfl)

lemma sorted_cleared (h : s.Wf) :
    OrderedSet.Sorted StoreKey.key (s.clearMVCCVersions lower upper).keys := by
  refine List.Pairwise.filterMap _ ?_ h.sorted
  intro a a' hlt b hb b' hb'
  rw [key_of_clearMVCCVersions hb, key_of_clearMVCCVersions hb']
  exact hlt

lemma AllProtected.wf (h : s.Wf)
    (hall : AllProtected s start endKey startTimestamp gcThreshold) :
    (s.clearMVCCVersions ⟨start, startTimestamp⟩ ⟨endKey, {}⟩).Wf where
  sorted := sorted_cleared h
  key_ne := by
    intro d' hd'
    obtain ⟨d, hd, hclear⟩ := mem_filterMap.mp hd'
    rw [key_of_clearMVCCVersions hclear]
    exact h.key_ne d hd
  keys := by
    intro d' hd'
    obtain ⟨d, hd, hclear⟩ := mem_filterMap.mp hd'
    cases h.keys d hd with
    | committed nonempty descending stamps =>
      rw [clearMVCCVersions_of_metadata_eq_none rfl] at hclear
      split_ifs at hclear with hempty
      cases hclear
      exact .committed (by simpa using hempty) (descending.filter _) fun v hv =>
        stamps v (mem_filter.mp hv).1
    | inline inline =>
      rw [hall.clear_of_metadata h hd rfl] at hclear
      cases hclear
      exact .inline inline
    | @intent _ _ v versions inline timestamp descending stamps =>
      rw [hall.clear_of_metadata h hd rfl] at hclear
      cases hclear
      have hsub : ∀ keep : Version → Bool, (v :: versions.filter keep).Sublist (v :: versions) :=
        fun _ => filter_sublist.cons_cons v
      exact .intent inline timestamp (descending.sublist (hsub _)) fun w hw =>
        stamps w ((hsub _).subset hw)
  disjoint := h.disjoint
  fragments := h.fragments

lemma AllProtected.sized (h : s.Wf) (hsized : s.Sized sizes)
    (hall : AllProtected s start endKey startTimestamp gcThreshold) :
    (s.clearMVCCVersions ⟨start, startTimestamp⟩ ⟨endKey, {}⟩).Sized sizes := by
  intro d' hd'
  obtain ⟨d, hd, hclear⟩ := mem_filterMap.mp hd'
  have hd_sized := hsized d hd
  cases h.keys d hd with
  | committed _ _ _ =>
    rw [clearMVCCVersions_of_metadata_eq_none rfl] at hclear
    split_ifs at hclear
    cases hclear
    simp [StoreKey.Sized]
  | inline _ | intent _ _ _ _ =>
    rw [hall.clear_of_metadata h hd rfl] at hclear
    cases hclear
    exact hd_sized

lemma AllProtected.intents_kept (h : s.Wf)
    (hall : AllProtected s start endKey startTimestamp gcThreshold) (hd : d ∈ s.keys)
    (hsome : d.metadata.isSome) :
    ∃ d' ∈ (s.clearMVCCVersions ⟨start, startTimestamp⟩ ⟨endKey, {}⟩).keys,
      d'.key = d.key ∧ d'.metadata = d.metadata ∧ d'.versions.head? = d.versions.head? := by
  refine ⟨_, mem_filterMap.mpr ⟨d, hd, hall.clear_of_metadata h hd hsome⟩, rfl, rfl, ?_⟩
  cases h.keys d hd with
  | committed _ _ _ => cases hsome
  | inline _ | intent _ _ _ _ => rfl

lemma AllProtected.versions_kept (hall : AllProtected s start endKey startTimestamp gcThreshold)
    (hd : d ∈ s.keys) {v : Version} (hv : v ∈ d.versions)
    (hlt : gcThreshold.ord < v.timestamp.ord) :
    ∃ d' ∈ (s.clearMVCCVersions ⟨start, startTimestamp⟩ ⟨endKey, {}⟩).keys,
      d'.key = d.key ∧ v ∈ d'.versions := by
  have hwithin : ¬ MVCCKey.within ⟨start, startTimestamp⟩ ⟨endKey, {}⟩ ⟨d.key, v.timestamp⟩ =
      true := by
    intro hwithin
    exact absurd hlt (not_lt.mpr (hall.keys d hd v hv hwithin).2.1)
  have hmem : v ∈ d.versions.filter fun v =>
      !MVCCKey.within ⟨start, startTimestamp⟩ ⟨endKey, {}⟩ ⟨d.key, v.timestamp⟩ :=
    mem_filter.mpr ⟨hv, by simpa using hwithin⟩
  obtain ⟨metadata, hclear⟩ : ∃ metadata,
      d.clearMVCCVersions ⟨start, startTimestamp⟩ ⟨endKey, {}⟩ = some ⟨d.key, metadata, _⟩ :=
    ⟨_, if_neg fun hnone => ne_nil_of_mem hmem (isEmpty_iff.mp (Bool.and_eq_true_iff.mp hnone).2)⟩
  exact ⟨_, mem_filterMap.mpr ⟨d, hd, hclear⟩, rfl, hmem⟩

lemma StoreKey.Protected.read
    (h : d.Protected start endKey startTimestamp gcThreshold rangeTombstones)
    (hhistory : History d.committed rangeTombstones) (hle : gcThreshold.ord ≤ ts.ord) :
    committedRead { ts := ts } (d.committed.filter fun v =>
        !MVCCKey.within ⟨start, startTimestamp⟩ ⟨endKey, {}⟩ ⟨d.key, v.timestamp⟩)
        rangeTombstones =
      committedRead { ts := ts } d.committed rangeTombstones := by
  refine committedRead_filter hhistory hle fun v hv hremoved => ?_
  have hwithin : MVCCKey.within ⟨start, startTimestamp⟩ ⟨endKey, {}⟩ ⟨d.key, v.timestamp⟩ =
      true := by simpa using hremoved
  refine ⟨(h v (mem_of_mem_committed hv) hwithin).2.2, fun w hw hlt => ?_⟩
  simpa using within_of_older hwithin (hhistory.stamps w hw) hlt

lemma find?_filterMap {clear : StoreKey → Option StoreKey}
    (hclear : ∀ d d', clear d = some d' → d'.key = d.key)
    (hsorted : OrderedSet.Sorted StoreKey.key l) (k : Key) :
    (l.filterMap clear).find? (fun d => decide (d.key = k)) =
      (l.find? fun d => decide (d.key = k)).bind clear := by
  induction l with
  | nil => rfl
  | cons d l ih =>
    obtain ⟨hlt, hsorted⟩ := OrderedSet.sorted_cons.mp hsorted
    rw [filterMap_cons, find?_cons]
    by_cases hk : d.key = k
    · have hlater : (l.find? fun d => decide (d.key = k)) = none := by
        rw [find?_eq_none]
        intro d' hd'
        simpa [← hk] using (hlt d' hd').ne'
      cases hd : clear d with
      | none =>
        rw [ih hsorted, hlater, decide_eq_true hk]
        exact hd.symm
      | some d' =>
        rw [find?_cons, hclear d d' hd, decide_eq_true hk]
        exact hd.symm
    cases hd : clear d with
    | none =>
      rw [ih hsorted, decide_eq_false hk]
    | some d' =>
      rw [find?_cons, hclear d d' hd, decide_eq_false hk, ih hsorted]

/-- Clearing a protected key and resolving its intent afterwards. -/
lemma AllProtected.resolved_clear (h : s.Wf)
    (hall : AllProtected s start endKey startTimestamp gcThreshold) (hd : d ∈ s.keys)
    (resolution : Resolution) :
    (match d.clearMVCCVersions ⟨start, startTimestamp⟩ ⟨endKey, {}⟩ with
      | some d' => resolved (s.clearMVCCVersions ⟨start, startTimestamp⟩ ⟨endKey, {}⟩) d' resolution
          fun _ => true
      | none => ⟨none, [], s.tombstonesAt d.key⟩) =
      resolved s d resolution fun v =>
        !MVCCKey.within ⟨start, startTimestamp⟩ ⟨endKey, {}⟩ ⟨d.key, v.timestamp⟩ := by
  cases h.keys d hd with
  | committed _ _ _ =>
    rw [clearMVCCVersions_of_metadata_eq_none rfl]
    split_ifs with hempty
    · simp only [resolved, isEmpty_iff.mp hempty]
    simp only [resolved, filter_true]
    rfl
  | inline _ =>
    rw [hall.clear_of_metadata h hd rfl]
    rfl
  | intent _ _ _ _ =>
    rw [hall.clear_of_metadata h hd rfl]
    cases resolution with
    | abort | commit commitTS =>
      simp only [resolved, Option.toList_some, head?_cons, cons_append, nil_append, filter_true]
      rfl

lemma AllProtected.read (h : s.Wf) (hall : AllProtected s start endKey startTimestamp gcThreshold)
    {k : Key} {resolution : Resolution}
    (hres : ∀ d ∈ s.keys, d.key = k → resolution.Admits d) (hts : Stamp ts)
    (hle : gcThreshold.ord ≤ ts.ord) :
    mvccGet k { ts := ts }
        ((s.clearMVCCVersions ⟨start, startTimestamp⟩ ⟨endKey, {}⟩).resolvedAt k resolution) =
      mvccGet k { ts := ts } (s.resolvedAt k resolution) := by
  have hfind : (s.clearMVCCVersions ⟨start, startTimestamp⟩ ⟨endKey, {}⟩).keys.find?
      (fun d => decide (d.key = k)) = _ :=
    find?_filterMap (fun _ _ => key_of_clearMVCCVersions) h.sorted k
  unfold Store.resolvedAt
  rw [hfind]
  cases hd : s.keys.find? fun d => decide (d.key = k) with
  | none => rfl
  | some d =>
    have hmem := mem_of_find?_eq_some hd
    obtain rfl : d.key = k := by simpa using find?_some hd
    have hread := mvccGet_resolved h hmem (hres d hmem rfl) hts
      ((hall.keys d hmem).read (h.history hmem) hle)
    rw [← hall.resolved_clear h hmem] at hread
    exact hread

lemma sum_entries_cleared (sizes : Sizes) (now : ℤ) :
    ((s.clearMVCCVersions ⟨start, startTimestamp⟩ ⟨endKey, {}⟩).entries sizes now).sum =
      (s.entries sizes now).sum - (s.keys.map fun d => clearedCounts sizes now
        ⟨start, startTimestamp⟩ ⟨endKey, {}⟩ (s.tombstonesAt d.key) d).sum := by
  have hkeys : ∀ l : List StoreKey,
      ((l.filterMap (clearMVCCVersions ⟨start, startTimestamp⟩ ⟨endKey, {}⟩)).flatMap
          fun d => keyEntries sizes now (s.tombstonesAt d.key) d).sum =
        (l.flatMap fun d => keyEntries sizes now (s.tombstonesAt d.key) d).sum -
          (l.map fun d => clearedCounts sizes now ⟨start, startTimestamp⟩ ⟨endKey, {}⟩
            (s.tombstonesAt d.key) d).sum := by
    intro l
    induction l with
    | nil => simp
    | cons d l ih =>
      have hd : ((d.clearMVCCVersions ⟨start, startTimestamp⟩ ⟨endKey, {}⟩).toList.flatMap
          fun d => keyEntries sizes now (s.tombstonesAt d.key) d) =
          clearedEntries sizes now ⟨start, startTimestamp⟩ ⟨endKey, {}⟩
            (s.tombstonesAt d.key) d := by
        unfold clearedEntries
        cases hclear : d.clearMVCCVersions ⟨start, startTimestamp⟩ ⟨endKey, {}⟩ with
        | none => rfl
        | some d' =>
          simp only [Option.toList_some, flatMap_singleton]
          rw [key_of_clearMVCCVersions hclear]
      rw [flatMap_cons, sum_append, map_cons, sum_cons, clearedCounts, ← hd,
        filterMap_eq_flatMap_toList, flatMap_cons, flatMap_append,
        sum_append, ← filterMap_eq_flatMap_toList, ih]
      abel
  unfold Store.entries
  rw [sum_append, sum_append]
  show ((s.keys.filterMap _).flatMap fun d => keyEntries sizes now (s.tombstonesAt d.key) d).sum +
    (s.rangeKeys.map (rangeCounts sizes now)).sum = _
  rw [hkeys]
  abel

lemma sum_map_filter {f g : StoreKey → Counts} {p : StoreKey → Bool}
    (hfg : ∀ d ∈ l, p d → f d = g d) (hg : ∀ d ∈ l, p d = false → g d = 0) :
    ((l.filter p).map f).sum = (l.map g).sum := by
  induction l with
  | nil => rfl
  | cons d l ih =>
    have ih := ih (fun d' hd' => hfg d' (.tail _ hd')) fun d' hd' => hg d' (.tail _ hd')
    rw [filter_cons, map_cons, sum_cons]
    cases hp : p d with
    | true => rw [if_pos rfl, map_cons, sum_cons, ih, hfg d (.head _) hp]
    | false => rw [if_neg Bool.false_ne_true, ih, hg d (.head _) hp, zero_add]

lemma gcLoop_ok (h : s.Wf) {ms : Option MVCCStats} {st : GcState}
    (hkeeps : ∀ d ∈ s.keys, d.KeepsIntent ⟨start, startTimestamp⟩ ⟨endKey, {}⟩)
    (hrun : iterate (fun st : GcState => (GCError.bareRangeKey, st.ms)) (fun st _ => st)
      (gcPoint sizes start startTimestamp gcThreshold) none (s.restrict start endKey).positions
      { ms := ms } = .ok st) :
    (∀ d ∈ s.keys, Checked start endKey startTimestamp gcThreshold (s.tombstonesAt d.key) d) ∧
      Reduced ms st.ms fun now => (s.keys.map fun d => clearedCounts sizes now
        ⟨start, startTimestamp⟩ ⟨endKey, {}⟩ (s.tombstonesAt d.key) d).sum := by
  have hwf : (s.restrict start endKey).Wf := h.restrict
  rw [hwf.iterate_positions] at hrun
  have hslots : ∀ d ∈ (s.restrict start endKey).slots,
      (d.points = [] ∨ d.Wf) ∧ (start ≤ d.key ∧ d.key < endKey) ∧ d.key ≠ [] ∧
        d.KeepsIntent ⟨start, startTimestamp⟩ ⟨endKey, {}⟩ := by
    intro d hd
    rcases hwf.isSlots.mem d hd with hd | ⟨r, hr, rfl⟩
    · obtain ⟨hmem, hbounds⟩ := Store.mem_restrict_keys.mp hd
      exact ⟨Or.inr (h.keys d hmem), hbounds, h.key_ne d hmem, hkeeps d hmem⟩
    refine ⟨Or.inl rfl, ?_, (hwf.fragments r hr).key_ne, fun hsome => by cases hsome⟩
    obtain ⟨r', _, hclip⟩ := mem_filterMap.mp hr
    obtain ⟨hlt, rfl⟩ := Store.clip_eq_some hclip
    exact ⟨le_max_left _ _, hlt.trans_le (min_le_left _ _)⟩
  obtain ⟨hchecked, hreduced⟩ := @gcKeys_ok sizes start startTimestamp gcThreshold { ms := ms } st
    (s.restrict start endKey) hwf endKey none (s.restrict start endKey).slots
    (fun d hd => (hslots d hd).1) hwf.isSlots.sorted (fun d hd => (hslots d hd).2.1)
    (fun d hd => (hslots d hd).2.2.1.symm) (fun _ _ _ => rfl) (fun d hd => (hslots d hd).2.2.2) hrun
  constructor
  · intro d hd
    by_cases hbounds : start ≤ d.key ∧ d.key < endKey
    · have hmem := Store.mem_restrict_keys.mpr ⟨hd, hbounds⟩
      rcases hchecked d (hwf.isSlots.keys_subset d hmem) with hnil | hchecked
      · exact absurd hnil (h.keys d hd).points_ne
      rw [Store.tombstonesAt_restrict hbounds.1 hbounds.2] at hchecked
      exact hchecked
    · exact checked_outside hbounds
  refine hreduced.congr fun now => ?_
  rw [Store.sum_slots]
  · apply sum_map_filter
    · intro d hd hbounds
      simp only [Bool.and_eq_true, decide_eq_true_eq] at hbounds
      rw [Store.tombstonesAt_restrict hbounds.1 hbounds.2]
    intro d hd hbounds
    have hclear := @clearMVCCVersions_outside start endKey startTimestamp d (h.keys d hd)
      (by simpa using hbounds)
    simp [clearedCounts, clearedEntries, hclear]
  · intro k
    simp [clearedCounts, clearedEntries, clearMVCCVersions, keyEntries]

/-- What garbage collection owes to everyone else: no read at or above the threshold changes
whatever becomes of an intent, no intent and no version above the threshold is removed, and the
statistics change as the recomputed ones do. -/
structure Safe (sizes : Sizes) (s : Store) (ms : Option MVCCStats) (gcThreshold : Timestamp)
    (r : GcResult) : Prop where
  reads : ∀ k resolution, (∀ d ∈ s.keys, d.key = k → resolution.Admits d) →
    ∀ ts, Stamp ts → gcThreshold.ord ≤ ts.ord →
      mvccGet k { ts := ts } (r.store.resolvedAt k resolution) =
        mvccGet k { ts := ts } (s.resolvedAt k resolution)
  intents : ∀ d ∈ s.keys, d.metadata.isSome = true → ∃ d' ∈ r.store.keys,
    d'.key = d.key ∧ d'.metadata = d.metadata ∧ d'.versions.head? = d.versions.head?
  versions : ∀ d ∈ s.keys, ∀ v ∈ d.versions, gcThreshold.ord < v.timestamp.ord →
    ∃ d' ∈ r.store.keys, d'.key = d.key ∧ v ∈ d'.versions
  stats : ∀ ms₀ ∈ ms, ∃ ms₁ ∈ r.ms, ∀ now, ∃ before after,
    computeStats sizes now s = .ok before ∧ computeStats sizes now r.store = .ok after ∧
      ms₁.countsAt now - ms₀.countsAt now = after.counts - before.counts

lemma AllProtected.safe (h : s.Wf) (hsized : s.Sized sizes)
    (hall : AllProtected s start endKey startTimestamp gcThreshold) {ms ms' : Option MVCCStats}
    (hreduced : Reduced ms ms' fun now => (s.keys.map fun d => clearedCounts sizes now
      ⟨start, startTimestamp⟩ ⟨endKey, {}⟩ (s.tombstonesAt d.key) d).sum) :
    Safe sizes s ms gcThreshold
      ⟨s.clearMVCCVersions ⟨start, startTimestamp⟩ ⟨endKey, {}⟩, ms', none⟩ where
  reads k resolution hres ts hts hle := hall.read h hres hts hle
  intents d hd hsome := hall.intents_kept h hd hsome
  versions d hd v hv hlt := hall.versions_kept hd hv hlt
  stats ms₀ hms₀ := by
    obtain ⟨ms₁, hms₁, hcost⟩ := hreduced ms₀ hms₀
    refine ⟨ms₁, hms₁, fun now => ⟨_, _, computeStats_eq h hsized now,
      computeStats_eq (hall.wf h) (hall.sized h hsized) now, ?_⟩⟩
    dsimp only
    rw [sum_entries_cleared, hcost]
    abel

lemma Safe.keepsIntent {r : GcResult} {ms : Option MVCCStats}
    (hsafe : Safe sizes s ms gcThreshold r) (h : s.Wf)
    (hr : r.store = s.clearMVCCVersions lower upper) (hd : d ∈ s.keys) :
    d.KeepsIntent lower upper := by
  intro hsome v hv
  obtain ⟨d', hd', hkey, -, hhead⟩ := hsafe.intents d hd hsome
  rw [hr] at hd'
  obtain ⟨d₀, hd₀, hclear⟩ := mem_filterMap.mp hd'
  have hsame : d₀ = d := h.sorted.eq_of_key_eq hd₀ hd
    ((key_of_clearMVCCVersions hclear).symm.trans hkey)
  subst hsame
  have hmem : v ∈ d'.versions := mem_of_mem_head? (hhead ▸ hv)
  unfold clearMVCCVersions at hclear
  dsimp only at hclear
  split_ifs at hclear
  cases hclear
  simpa using (mem_filter.mp hmem).2

/-- A version that nothing at or below the threshold hides is what a read at the threshold
returns. -/
lemma committedRead_visible {versions : List Version} {v : Version}
    (h : History versions rangeTombstones) (hv : v ∈ versions)
    (hle : v.timestamp.ord ≤ gcThreshold.ord)
    (hvisible : ¬ Collectable gcThreshold rangeTombstones versions v) :
    committedRead { ts := gcThreshold } versions rangeTombstones =
      some ⟨v.value.rawBytes, v.timestamp⟩ := by
  simp only [Collectable, hle, true_and, not_or, not_exists, not_and] at hvisible
  obtain ⟨htombstone, hnewer, hrange⟩ := hvisible
  have hfind : versions.find? (·.timestamp.lessEq gcThreshold) = some v := by
    obtain ⟨u, hu⟩ : ∃ u, versions.find? (·.timestamp.lessEq gcThreshold) = some u := by
      rw [← Option.isSome_iff_exists, find?_isSome]
      exact ⟨v, hv, Timestamp.lessEq_iff.mpr hle⟩
    have hule : u.timestamp.ord ≤ gcThreshold.ord := Timestamp.lessEq_iff.mp (find?_some hu :)
    have hvu := h.descending.le_of_find? hu hv hle
    rcases hvu.lt_or_eq with hlt | heq
    · exact absurd hule (hnewer u (mem_of_find?_eq_some hu) hlt)
    · rw [hu, h.descending.eq_of_ord_eq (mem_of_find?_eq_some hu) hv heq.symm]
  have hcovered : coveredByRangeKey { ts := gcThreshold } ⟨none, versions, rangeTombstones⟩
      v.timestamp = none := by
    rw [coveredByRangeKey_eq h.rangeDescending, Option.filter_eq_none_iff]
    intro r hr hvr
    exact hrange r (mem_of_find?_eq_some hr) (Timestamp.lessEq_iff.mp hvr)
      (Timestamp.lessEq_iff.mp (find?_some hr :))
  have hbytes : v.value.rawBytes.isEmpty = false := by
    simpa [MVCCValue.isTombstone] using htombstone
  simp [committedRead, addSavedRangeKey, hfind, addVersion, hcovered, add, hbytes]

/-- Without the provisional value, a version that only it hides is lost to a read at the
threshold. -/
lemma committedRead_cleared {versions : List Version} {v : Version}
    (h : History versions rangeTombstones) (hv : v ∈ versions) {k : Key}
    (hle : v.timestamp.ord ≤ gcThreshold.ord)
    (hvisible : ¬ Collectable gcThreshold rangeTombstones versions v)
    (hwithin : MVCCKey.within ⟨start, startTimestamp⟩ ⟨endKey, {}⟩ ⟨k, v.timestamp⟩ = true) :
    committedRead { ts := gcThreshold } (versions.filter fun v =>
      !MVCCKey.within ⟨start, startTimestamp⟩ ⟨endKey, {}⟩ ⟨k, v.timestamp⟩) rangeTombstones =
      none := by
  simp only [Collectable, hle, true_and, not_or, not_exists, not_and] at hvisible
  have hnone : (versions.filter fun v =>
      !MVCCKey.within ⟨start, startTimestamp⟩ ⟨endKey, {}⟩ ⟨k, v.timestamp⟩).find?
        (·.timestamp.lessEq gcThreshold) = none := by
    rw [find?_eq_none]
    intro w hw hwle
    obtain ⟨hmem, hkept⟩ := mem_filter.mp hw
    have hwv : w.timestamp.ord ≤ v.timestamp.ord := not_lt.mp fun hlt =>
      hvisible.2.1 w hmem hlt (Timestamp.lessEq_iff.mp hwle)
    have hremoved : MVCCKey.within ⟨start, startTimestamp⟩ ⟨endKey, {}⟩ ⟨k, w.timestamp⟩ =
        true := by
      rcases hwv.lt_or_eq with hlt | heq
      · exact within_of_older hwithin (h.stamps w hmem) hlt
      · rw [h.descending.eq_of_ord_eq hmem hv heq]
        exact hwithin
    rw [hremoved] at hkept
    cases hkept
  simp [committedRead, addSavedRangeKey, hnone]

lemma resolvedAt_of_mem (hsorted : OrderedSet.Sorted StoreKey.key s.keys) (hd : d ∈ s.keys)
    (resolution : Resolution) :
    s.resolvedAt d.key resolution = resolved s d resolution fun _ => true := by
  unfold Store.resolvedAt
  cases hfind : s.keys.find? fun d' => decide (d'.key = d.key) with
  | none => exact absurd (by simp) (find?_eq_none.mp hfind d hd)
  | some d' =>
    have hkey : d'.key = d.key := by simpa using find?_some hfind
    rw [hsorted.eq_of_key_eq (mem_of_find?_eq_some hfind) hd hkey]

/-- A safe pass protects every key with an intent. -/
lemma Safe.protected {r : GcResult} {ms : Option MVCCStats}
    (hsafe : Safe sizes s ms gcThreshold r) (h : s.Wf) (hthreshold : Stamp gcThreshold)
    (hr : r.store = s.clearMVCCVersions ⟨start, startTimestamp⟩ ⟨endKey, {}⟩)
    (hchecked : ∀ d ∈ s.keys,
      Checked start endKey startTimestamp gcThreshold (s.tombstonesAt d.key) d)
    (hd : d ∈ s.keys) (hsome : d.metadata.isSome) :
    d.Protected start endKey startTimestamp gcThreshold (s.tombstonesAt d.key) := by
  have hkeeps := hsafe.keepsIntent h hr hd hsome
  have hversions := (hchecked d hd).versions
  cases h.keys d hd with
  | committed _ _ _ => cases hsome
  | inline _ => exact fun v hv => (by cases hv)
  | @intent key m v versions inline _ _ _ =>
    intro u hu hwithin
    obtain ⟨hle, -⟩ := hversions u hu hwithin
    rcases mem_cons.mp hu with rfl | hu
    · rw [hkeeps u rfl] at hwithin
      cases hwithin
    have hkey : key ≠ [] := h.key_ne _ hd
    have hhistory : History versions (s.tombstonesAt key) := h.history hd
    refine ⟨hu, by_contra fun hvisible => ?_⟩
    change ¬ Collectable gcThreshold (s.tombstonesAt key) versions u at hvisible
    have hbefore : s.resolvedAt key .abort = ⟨none, versions, s.tombstonesAt key⟩ :=
      (resolvedAt_of_mem h.sorted hd .abort).trans (by simp only [resolved, filter_true])
    have hafter : r.store.resolvedAt key .abort = ⟨none, versions.filter fun v =>
        !MVCCKey.within ⟨start, startTimestamp⟩ ⟨endKey, {}⟩ ⟨key, v.timestamp⟩,
        s.tombstonesAt key⟩ := by
      rw [hr]
      refine (resolvedAt_of_mem (sorted_cleared h) (mem_filterMap.mpr
        ⟨_, hd, clearMVCCVersions_keepsIntent inline (hkeeps v rfl)⟩) .abort).trans ?_
      simp only [resolved, filter_true]
      rfl
    have hread := hsafe.reads key .abort (fun _ _ _ => trivial) gcThreshold hthreshold le_rfl
    rw [hbefore, hafter, mvccGet_plain hkey (history_filter hhistory) hthreshold,
      mvccGet_plain hkey hhistory hthreshold,
      committedRead_visible hhistory hu hle hvisible,
      committedRead_cleared hhistory hu hle hvisible hwithin] at hread
    cases hread

/-- A key with an intent over two committed versions. -/
def twoUnderIntent : StoreKey :=
  ⟨[5], some { txn := some { id := 1, writeTimestamp := { wallTime := 10 } }
               timestamp := { wallTime := 10 }, keyBytes := 12, valBytes := 1 },
    [⟨{ wallTime := 10 }, { rawBytes := [1] }⟩, ⟨{ wallTime := 7 }, { rawBytes := [2] }⟩,
      ⟨{ wallTime := 5 }, { rawBytes := [3] }⟩]⟩

lemma twoUnderIntent_wf : Store.Wf ⟨[twoUnderIntent], []⟩ where
  sorted := pairwise_singleton _ _
  key_ne := by simp [twoUnderIntent]
  keys := forall_mem_singleton.mpr (.intent rfl rfl (by decide) (by decide))
  disjoint := List.Pairwise.nil
  fragments := by simp

lemma twoUnderIntent_protected : twoUnderIntent.Protected [5] [6] { wallTime := 5 }
    { wallTime := 20 } [] := by
  intro v hv hwithin
  rcases hv with - | ⟨_, - | ⟨_, - | ⟨_, ⟨⟩⟩⟩⟩
  · exact absurd hwithin (by decide)
  · exact absurd hwithin (by decide)
  · refine ⟨.tail _ (.head _), by decide, .inr (.inl ?_)⟩
    exact ⟨⟨{ wallTime := 7 }, { rawBytes := [2] }⟩, .head _, by decide, by decide⟩

end MeshDB.Storage
