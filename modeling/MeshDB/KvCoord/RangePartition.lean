import MeshDB.KvCoord.TruncationSweep

/-!
# The loop partitions a batch

Over consecutive ranges the loop visits the ranges that some request has keys in, and the
truncated requests are the parts of the requests in these ranges.
-/
namespace MeshDB.KvCoord

open Roachpb Kvpb Sweep BatchTruncationHelper List Key RSpan

/-! ## Requests -/

/-- A request with global keys: a point, or a range that ends after its start. -/
structure RequestOk (req : Request) : Prop where
  isLocalKey : isLocalKey req.header.key = false
  isPoint : req.header.span.isPoint = !req.isRange
  lt : req.isRange → req.header.key < req.header.span.endKeyBytes
  isLocalEndKey : req.isRange → KvCoord.isLocalKey req.header.span.endKeyBytes = false
  keyMax : if req.isRange then req.header.span.endKeyBytes ≤ keyMax else req.header.key < keyMax

def requestStop (req : Request) : Key :=
  if req.isRange then req.header.span.endKeyBytes else req.header.key.next

def requestPart (dir : ScanDirection) (r : Request × ℕ) : Part dir :=
  part dir r.1 r.2 r.1.header.key (requestStop r.1)

def requestParts (dir : ScanDirection) (reqs : List Request) : List (Part dir) :=
  reqs.zipIdx.map (requestPart dir)

variable {dir : ScanDirection} {req : Request} {reqs : List Request} {rs : RSpan} {A : Addressing}

lemma RequestOk.endKey (h : RequestOk req) (hrange : req.isRange) :
    req.header.endKey = some req.header.span.endKeyBytes :=
  @endKey_of_not_isPoint req.header.span (by rw [h.isPoint, hrange]; rfl)

lemma RequestOk.lt_stop (h : RequestOk req) : req.header.key < requestStop req := by
  unfold requestStop
  split_ifs with hrange
  · exact h.lt hrange
  · exact lt_next _

lemma isLocalKey_next {k : Key} (h : isLocalKey k = false) : isLocalKey k.next = false := by
  cases k with
  | nil => rfl
  | cons b k => exact h

lemma RequestOk.isLocal_stop (h : RequestOk req) :
    KvCoord.isLocalKey (requestStop req) = false := by
  unfold requestStop
  split_ifs with hrange
  · exact h.isLocalEndKey hrange
  · exact isLocalKey_next h.isLocalKey

lemma RequestOk.stop_le (h : RequestOk req) : requestStop req ≤ Roachpb.keyMax := by
  have hmax := h.keyMax
  unfold requestStop
  split_ifs with hrange
  · rwa [if_pos hrange] at hmax
  rw [if_neg hrange] at hmax
  exact next_le_of_lt hmax

/-! ## The span of a batch -/

def extendSpan (rs : RSpan) (req : Request) : RSpan :=
  ⟨min req.header.key rs.key, max (requestStop req) rs.endKey⟩

lemma keysRangeStep_eq (h : RequestOk req) (rs : RSpan) :
    keysRangeStep A rs req = .ok (extendSpan rs req) := by
  have hlt : req.header.key < Roachpb.keyMax := h.lt_stop.trans_le h.stop_le
  have hmin : (if req.header.key < rs.key then req.header.key else rs.key) =
      min req.header.key rs.key := by convert (min_def_lt _ _).symm
  unfold keysRangeStep extendSpan requestStop
  dsimp only
  rw [h.isPoint, A.addr_global _ h.isLocalKey]
  simp only [Except.bind, hmin, hlt.not_gt, decide_false, Bool.and_false, Bool.false_eq_true,
    if_false]
  cases hrange : req.isRange with
  | false =>
    simp only [Bool.not_false, Bool.not_true, Bool.and_false, Bool.false_eq_true, if_false, if_true]
    split_ifs with hkey
    · rw [max_eq_right (next_le_of_lt hkey)]
    · rw [max_eq_left ((not_lt.mp hkey).trans (lt_next _).le)]
  | true =>
    have hend : req.header.span.endKeyBytes ≤ Roachpb.keyMax := by
      have hmax := h.keyMax
      rwa [if_pos hrange] at hmax
    have hnext := next_le_of_lt (h.lt hrange)
    simp only [Bool.not_true, Bool.false_and, Bool.false_eq_true, if_false, if_true,
      A.addrUpperBound_global _ (h.isLocalEndKey hrange), hend.not_gt]
    split_ifs with hkey hlt' hlt'
    · rw [max_eq_left hlt'.le]
    · rw [max_eq_right (not_lt.mp hlt')]
    · rw [max_eq_left]
      exact (not_lt.mp hkey).trans (h.lt hrange).le
    have heq : req.header.key.next = req.header.span.endKeyBytes :=
      hnext.antisymm (not_lt.mp hlt')
    rw [heq, max_eq_left ((not_lt.mp hkey).trans (h.lt hrange).le)]

lemma keysRange_eq (hok : ∀ req ∈ reqs, RequestOk req) :
    keysRange A reqs = .ok (reqs.foldl extendSpan ⟨Roachpb.keyMax, keyMin⟩) := by
  have hgen : ∀ rs, reqs.foldlM (keysRangeStep A) rs = .ok (reqs.foldl extendSpan rs) := by
    induction reqs with
    | nil => exact fun _ => rfl
    | cons req reqs ih =>
      intro rs
      rw [foldlM_cons, keysRangeStep_eq (hok req (.head _))]
      exact ih (fun req' hreq' => hok req' (.tail req hreq')) _
  exact hgen _

lemma extend_bounds (reqs : List Request) (rs : RSpan) :
    let rs' := reqs.foldl extendSpan rs
    (rs'.key ≤ rs.key ∧ rs.endKey ≤ rs'.endKey) ∧
      (∀ req ∈ reqs, rs'.key ≤ req.header.key ∧ requestStop req ≤ rs'.endKey) ∧
      (rs'.key = rs.key ∨ ∃ req ∈ reqs, rs'.key = req.header.key) ∧
      (rs'.endKey = rs.endKey ∨ ∃ req ∈ reqs, rs'.endKey = requestStop req) := by
  induction reqs generalizing rs with
  | nil => exact ⟨⟨le_rfl, le_rfl⟩, nofun, .inl rfl, .inl rfl⟩
  | cons req reqs ih =>
    obtain ⟨⟨hkey, hend⟩, hall, hkey', hend'⟩ := ih (extendSpan rs req)
    refine ⟨⟨hkey.trans (min_le_right _ _), (le_max_right _ _).trans hend⟩, ?_, ?_, ?_⟩
    · intro req' hreq'
      rcases mem_cons.mp hreq' with rfl | hreq'
      · exact ⟨hkey.trans (min_le_left _ _), (le_max_left _ _).trans hend⟩
      · exact hall req' hreq'
    · rcases hkey' with heq | ⟨req', hreq', heq⟩
      · rcases min_choice req.header.key rs.key with hmin | hmin
        · exact .inr ⟨req, .head _, heq.trans hmin⟩
        · exact .inl (heq.trans hmin)
      · exact .inr ⟨req', mem_cons_of_mem req hreq', heq⟩
    rcases hend' with heq | ⟨req', hreq', heq⟩
    · rcases max_choice (requestStop req) rs.endKey with hmax | hmax
      · exact .inr ⟨req, .head _, heq.trans hmax⟩
      · exact .inl (heq.trans hmax)
    · exact .inr ⟨req', mem_cons_of_mem req hreq', heq⟩

lemma keysRange_spec (A : Addressing) (hok : ∀ req ∈ reqs, RequestOk req) (hne : reqs ≠ []) :
    ∃ rs, keysRange A reqs = .ok rs ∧
      (∀ req ∈ reqs, rs.key ≤ req.header.key ∧ requestStop req ≤ rs.endKey) ∧
      (∃ req ∈ reqs, rs.key = req.header.key) ∧ ∃ req ∈ reqs, rs.endKey = requestStop req := by
  obtain ⟨-, hall, hkey, hend⟩ := extend_bounds reqs ⟨Roachpb.keyMax, keyMin⟩
  obtain ⟨req, hreq⟩ := exists_mem_of_ne_nil reqs hne
  obtain ⟨hle, hge⟩ := hall req hreq
  have hlt := (hok req hreq).lt_stop
  refine ⟨_, keysRange_eq hok, hall, hkey.resolve_left ?_, hend.resolve_left ?_⟩
  · intro heq
    rw [heq] at hle
    exact absurd (hle.trans_lt hlt) (hok req hreq).stop_le.not_gt
  intro heq
  rw [heq] at hge
  exact absurd (hlt.trans_le hge) (Key.not_lt_nil _)

/-! ## The legacy strategy -/

def clipRequest (rs : RSpan) (req : Request) : Option Request :=
  if max rs.key req.header.key < min rs.endKey (requestStop req) then
    some (piece req (max rs.key req.header.key) (min rs.endKey (requestStop req)))
  else none

lemma lt_of_clip (dir : ScanDirection) (rs : RSpan) (r : Request × ℕ) :
    max (nearEnd dir rs) (requestPart dir r).lo < min (farEnd dir rs) (requestPart dir r).hi ↔
      max rs.key r.1.header.key < min rs.endKey (requestStop r.1) := by
  cases dir with
  | ascending | descending => exact Iff.rfl

lemma request_clip (dir : ScanDirection) (rs : RSpan) (r : Request × ℕ) :
    ((requestPart dir r).clip (nearEnd dir rs) (farEnd dir rs)).map Part.request =
      (clipRequest rs r.1).map fun req => (req, r.2) := by
  unfold clipRequest Job.clip
  by_cases h : max rs.key r.1.header.key < min rs.endKey (requestStop r.1)
  · rw [if_pos h, if_pos ((lt_of_clip dir rs r).mpr h)]
    cases dir <;> rfl
  rw [if_neg h, if_neg (mt (lt_of_clip dir rs r).mp h)]
  rfl

lemma truncateOne_eq (h : RequestOk req) (rs : RSpan) :
    truncateOne A rs req = .ok (clipRequest rs req) := by
  unfold truncateOne clipRequest requestStop piece
  dsimp only
  rw [h.isPoint, A.addr_global _ h.isLocalKey]
  cases hrange : req.isRange with
  | false =>
    have hcontains : rs.containsKey req.header.key ↔
        max rs.key req.header.key < min rs.endKey req.header.key.next := by
      rw [max_lt_iff, lt_min_iff, lt_min_iff]
      simp only [containsKey, Bool.and_eq_true, decide_eq_true_eq]
      constructor
      · exact fun ⟨h1, h2⟩ => ⟨⟨h1.trans_lt h2, h1.trans_lt (lt_next _)⟩, h2, lt_next _⟩
      · exact fun ⟨⟨_, h1⟩, h2, _⟩ => ⟨le_of_lt_next h1, h2⟩
    simp only [Bool.not_false, Bool.not_true, if_true, Bool.false_eq_true, if_false, Except.map,
      hcontains]
  | true =>
    rw [A.addr_global _ (h.isLocalEndKey hrange)]
    simp only [Bool.not_true, Bool.false_eq_true, if_false, if_true, Except.bind, h.isLocalKey,
      h.isLocalEndKey hrange, bne_self_eq_false]
    have hkey : (if req.header.key < rs.key then rs.key else req.header.key) =
        max rs.key req.header.key := by
      rw [max_comm]
      convert (max_def_lt _ _).symm
    have hend : (if req.header.span.endKeyBytes < rs.endKey then req.header.span.endKeyBytes
        else rs.endKey) = min rs.endKey req.header.span.endKeyBytes := by
      rw [min_comm]
      convert (min_def_lt _ _).symm
    rw [hkey, hend]
    by_cases hchanged : (decide (req.header.key < rs.key) ||
        !decide (req.header.span.endKeyBytes < rs.endKey))
    · simp only [hchanged, Bool.true_and, if_true, decide_eq_true_eq]
      by_cases hempty : min rs.endKey req.header.span.endKeyBytes ≤ max rs.key req.header.key
      · rw [if_pos hempty, if_neg hempty.not_gt]
      · rw [if_neg hempty, if_pos (not_le.mp hempty)]
    simp only [Bool.not_eq_true] at hchanged
    simp only [hchanged, Bool.false_and, Bool.false_eq_true, if_false]
    simp only [Bool.or_eq_false_iff, decide_eq_false_iff_not, Bool.not_eq_false',
      decide_eq_true_eq] at hchanged
    rw [max_eq_right (not_lt.mp hchanged.1), min_eq_right hchanged.2.le,
      if_pos (h.lt hrange), ← h.endKey hrange]
    exact congrArg (fun r => Except.ok (some r)) (setHeader_self hrange).symm

lemma truncateLegacy_eq (A : Addressing) (hok : ∀ req ∈ reqs, RequestOk req) (rs : RSpan) :
    truncateLegacy A reqs rs =
      .ok ((between (nearEnd dir rs) (farEnd dir rs) (requestParts dir reqs)).map
        Part.request) := by
  have hgen : ∀ pos, truncateLegacyLoop A rs pos reqs =
      .ok ((between (nearEnd dir rs) (farEnd dir rs)
        ((reqs.zipIdx pos).map (requestPart dir))).map Part.request) := by
    induction reqs with
    | nil => exact fun _ => rfl
    | cons req reqs ih =>
      intro pos
      unfold truncateLegacyLoop
      rw [truncateOne_eq (hok req (.head _)),
        ih (fun req' hreq' => hok req' (.tail req hreq')) (pos + 1)]
      have hclip := request_clip dir rs (req, pos)
      simp only [zipIdx_cons, map_cons, between, filterMap_cons]
      cases hc : (requestPart dir (req, pos)).clip (nearEnd dir rs) (farEnd dir rs) with
      | none =>
        rw [hc] at hclip
        have hnone : clipRequest rs req = none := Option.map_eq_none_iff.mp hclip.symm
        rw [hnone]
        rfl
      | some j =>
        rw [hc] at hclip
        obtain ⟨req', hreq', heq⟩ := Option.map_eq_some_iff.mp hclip.symm
        rw [hreq', map_cons, ← heq]
        rfl
  exact hgen 0

/-! ## The initial entries -/

def newEntry (r : Request × ℕ) : Entry := ⟨r.1, r.1.header, some r.2, r.1.isRange⟩

lemma initEntries_eq (hok : ∀ req ∈ reqs, RequestOk req) (i : ℕ) :
    initEntries i reqs = .ok ((reqs.zipIdx i).map newEntry) := by
  induction reqs generalizing i with
  | nil => rfl
  | cons req reqs ih =>
    have hreq := hok req (.head _)
    have hentry : initEntry i req = .ok (newEntry (req, i)) := by
      unfold initEntry newEntry
      rw [hreq.isPoint, hreq.isLocalKey]
      cases hrange : req.isRange with
      | false => rfl
      | true => simp [hreq.isLocalEndKey hrange]
    unfold initEntries
    rw [hentry, ih (fun req' hreq' => hok req' (.tail req hreq')) (i + 1)]
    rfl

def dirEntry (dir : ScanDirection) (r : Request × ℕ) : Entry :=
  match dir with
  | .ascending => newEntry r
  | .descending => convertPoint (newEntry r)

lemma part_dirEntry (hok : RequestOk req) (i : ℕ) :
    (dirEntry dir (req, i)).part dir = some (requestPart dir (req, i)) ∧
      EntryOk dir (dirEntry dir (req, i)) ∧ (dirEntry dir (req, i)).position = some i := by
  cases dir with
  | ascending =>
    refine ⟨rfl, ⟨rfl, fun hrange => ?_, fun hrange => ?_, nofun⟩, rfl⟩
    · exact ⟨hok.endKey hrange, rfl⟩
    · exact hok.endKey hrange
  | descending =>
    unfold dirEntry convertPoint
    have hpoint : (newEntry (req, i)).header.span.isPoint = !req.isRange := hok.isPoint
    cases hrange : req.isRange with
    | false =>
      rw [hpoint, hrange, Bool.not_false, if_pos rfl]
      refine ⟨?_, ⟨rfl, ?_, ?_, fun _ _ => rfl⟩, rfl⟩
      · simp [Entry.part, newEntry, requestPart, requestStop, Entry.stop, hrange]
      · exact fun h => absurd (h.symm.trans hrange) Bool.true_eq_false.mp
      · exact fun h => absurd (h.symm.trans hrange) Bool.true_eq_false.mp
    | true =>
      rw [hpoint, hrange, Bool.not_true, if_neg Bool.false_ne_true]
      refine ⟨rfl, ⟨rfl, fun _ => ⟨hok.endKey hrange, rfl⟩, fun _ => ⟨rfl, ?_⟩, ?_⟩, rfl⟩
      · rw [← Bool.not_true, ← hrange]
        exact hok.isPoint
      · exact fun h => absurd (h.symm.trans hrange) Bool.false_ne_true

/-- A function that sorts as `sort.Sort` does, which need not be stable. -/
def Sorts (dir : ScanDirection) (sort : List Entry → List Entry) : Prop :=
  ∀ es, (sort es).Perm es ∧ (sort es).Pairwise fun e e' => less dir e' e = false

lemma requestPart_lt (h : RequestOk req) (i : ℕ) :
    (requestPart dir (req, i)).lo < (requestPart dir (req, i)).hi := by
  cases dir with
  | ascending | descending => exact h.lt_stop

variable {j : Part dir} {sort : List Entry → List Entry} {x : Cut dir} {h : BatchTruncationHelper}
  {js : List (Part dir)} {σ : Type}

lemma mem_requestParts : j ∈ requestParts dir reqs ↔
    ∃ req i, reqs[i]? = some req ∧ requestPart dir (req, i) = j := by
  unfold requestParts
  rw [mem_map]
  constructor
  · rintro ⟨⟨req, i⟩, hmem, rfl⟩
    exact ⟨req, i, mem_zipIdx_iff_getElem?.mp hmem, rfl⟩
  rintro ⟨req, i, hget, rfl⟩
  exact ⟨(req, i), mem_zipIdx_iff_getElem?.mpr hget, rfl⟩

lemma lo_le_of_not_less {e e' : Entry} (he : EntryOk dir e) (he' : EntryOk dir e')
    (h : less dir e' e = false) {j' : Part dir} (hj : e.part dir = some j)
    (hj' : e'.part dir = some j') : j.lo ≤ j'.lo := by
  obtain ⟨pos, -, rfl⟩ := Option.map_eq_some_iff.mp hj
  obtain ⟨pos', -, rfl⟩ := Option.map_eq_some_iff.mp hj'
  cases dir with
  | ascending =>
    have hle : ¬ e'.header.key < e.header.key := of_decide_eq_false h
    exact not_lt.mp hle
  | descending =>
    have hle : ¬ e.endKey < e'.endKey := of_decide_eq_false h
    rw [← he.stop_eq, ← he'.stop_eq] at hle
    exact not_lt.mp hle

lemma init_spec (hsort : Sorts dir sort)
    (hok : ∀ req ∈ reqs, RequestOk req) (mustPreserveOrder : Bool) :
    ∃ h, init sort dir mustPreserveOrder reqs = .ok h ∧ HelperOk dir h ∧ h.requests = reqs ∧
      h.mustPreserveOrder = mustPreserveOrder ∧
      (parts dir h.entries).Perm (requestParts dir reqs) ∧ Ordered (parts dir h.entries) := by
  obtain ⟨hperm, hsorted⟩ := hsort (reqs.zipIdx.map (dirEntry dir))
  have hget : ∀ r ∈ reqs.zipIdx, RequestOk r.1 := fun r hr =>
    hok r.1 (mem_of_getElem? (mem_zipIdx_iff_getElem?.mp hr))
  have hentry : ∀ e ∈ sort (reqs.zipIdx.map (dirEntry dir)), EntryOk dir e := by
    intro e he
    obtain ⟨⟨req, i⟩, hmem, rfl⟩ := mem_map.mp (hperm.mem_iff.mp he)
    exact (part_dirEntry (hget _ hmem) i).2.1
  have hparts : parts dir (reqs.zipIdx.map (dirEntry dir)) = requestParts dir reqs := by
    unfold parts requestParts
    rw [filterMap_map, ← filterMap_eq_map]
    exact filterMap_congr fun r hr => (part_dirEntry (hget r hr) r.2).1
  refine ⟨⟨dir, mustPreserveOrder, false, reqs, sort (reqs.zipIdx.map (dirEntry dir)), 0⟩, ?_,
    ⟨rfl, rfl, fun e he _ => hentry e he, by simp, Nat.zero_le _, ?_⟩, rfl, rfl, ?_, ?_, ?_⟩
  · have hlocal : ¬ (reqs.any fun req => isLocalKey req.header.key) := by
      rw [any_eq_true]
      rintro ⟨req, hreq, hlocal⟩
      rw [(hok req hreq).isLocalKey] at hlocal
      cases hlocal
    unfold init
    rw [if_neg hlocal, initEntries_eq hok]
    cases dir with
    | ascending => rfl
    | descending =>
      simp only [bind, Except.bind, pure, Except.pure, map_map]
      rfl
  · rw [hperm.length_eq, length_map, length_zipIdx]
  · rw [← hparts]
    exact hperm.filterMap _
  · have hmem := hsorted.imp_of_mem (S := fun e e' => EntryOk dir e ∧ EntryOk dir e' ∧
      less dir e' e = false) fun he he' h => ⟨hentry _ he, hentry _ he', h⟩
    refine hmem.filterMap _ ?_
    rintro e e' ⟨he, he', hless⟩ j hj j' hj'
    exact lo_le_of_not_less he he' hless hj hj'
  · intro j hj
    have hj' : j ∈ requestParts dir reqs := by
      rw [← hparts]
      exact (hperm.filterMap _).mem_iff.mp hj
    obtain ⟨req, i, hreq, rfl⟩ := mem_requestParts.mp hj'
    exact requestPart_lt (hok req (mem_of_getElem? hreq)) i

/-! ## The ranges of a cluster -/

/-- The ranges in key order, over all keys and never split at local keys. -/
structure Partition where
  ranges : List RSpan
  consecutive : Consecutive RSpan.key RSpan.endKey keyMin keyMax ranges
  isLocalKey : ∀ desc ∈ ranges, isLocalKey desc.key = false ∧ KvCoord.isLocalKey desc.endKey = false

def Partition.inOrder (P : Partition) : ScanDirection → List RSpan
  | .ascending => P.ranges
  | .descending => P.ranges.reverse

def firstCut : (dir : ScanDirection) → Cut dir
  | .ascending => cut .ascending keyMin
  | .descending => cut .descending keyMax

def lastCut : (dir : ScanDirection) → Cut dir
  | .ascending => cut .ascending keyMax
  | .descending => cut .descending keyMin

variable {P : Partition} {desc : RSpan}

lemma Partition.mem_inOrder : desc ∈ P.inOrder dir ↔ desc ∈ P.ranges := by
  cases dir with
  | ascending => exact Iff.rfl
  | descending => exact mem_reverse

lemma Partition.consecutive_inOrder (P : Partition) (dir : ScanDirection) :
    Consecutive (nearEnd dir) (farEnd dir) (firstCut dir) (lastCut dir) (P.inOrder dir) := by
  cases dir with
  | ascending => exact P.consecutive
  | descending => exact P.consecutive.reverse

lemma holdsKey_iff : holdsKey dir desc (uncut dir x) ↔
    nearEnd dir desc ≤ x ∧ x < farEnd dir desc := by
  cases dir with
  | ascending =>
    rw [holdsKey, containsKey, Bool.and_eq_true, decide_eq_true_eq, decide_eq_true_eq]
    exact Iff.rfl
  | descending =>
    rw [holdsKey, containsKeyInverted, Bool.and_eq_true, decide_eq_true_eq, decide_eq_true_eq]
    exact And.comm

lemma seekRange_eq (hdesc : desc ∈ P.ranges) (hnear : nearEnd dir desc ≤ x)
    (hfar : x < farEnd dir desc) : seekRange P.ranges dir (uncut dir x) = some desc := by
  have hcons := P.consecutive_inOrder dir
  have hunique : ∀ other ∈ P.ranges, nearEnd dir other ≤ x ∧ x < farEnd dir other →
      other = desc := fun other hother hx =>
    hcons.unique (P.mem_inOrder.mpr hother) (P.mem_inOrder.mpr hdesc) hx ⟨hnear, hfar⟩
  have hlast : x < lastCut dir :=
    hfar.trans_le (hcons.far_le.2 desc (P.mem_inOrder.mpr hdesc))
  have hvalid : ¬ ((dir = .ascending ∧ uncut dir x = keyMax) ∨
      (dir = .descending ∧ uncut dir x = keyMin)) := by
    rintro (⟨rfl, heq⟩ | ⟨rfl, heq⟩)
    · exact absurd (show x = lastCut .ascending from heq) hlast.ne
    · exact absurd (show x = lastCut .descending from heq) hlast.ne
  have hsome : (P.ranges.find? fun desc => holdsKey dir desc (uncut dir x)).isSome :=
    find?_isSome.mpr ⟨desc, hdesc, holdsKey_iff.mpr ⟨hnear, hfar⟩⟩
  obtain ⟨other, hother⟩ := Option.isSome_iff_exists.mp hsome
  have htest : holdsKey dir other (uncut dir x) := by simpa using find?_some hother
  rw [seekRange, if_neg hvalid, hother,
    hunique other (mem_of_find?_eq_some hother) (holdsKey_iff.mp htest)]

lemma intersect_eq (hkey : rs.key < desc.endKey) (hendKey : desc.key < rs.endKey) :
    rs.intersect desc = some ⟨max rs.key desc.key, min rs.endKey desc.endKey⟩ := by
  unfold intersect containsKeyRange
  have hempty : ¬ rs.endKey.isEmpty := by
    intro hempty
    rw [isEmpty_iff.mp hempty] at hendKey
    exact Key.not_lt_nil _ hendKey
  rw [if_neg (by simp [hkey, hendKey]), if_neg hempty, if_neg hendKey.not_gt, if_neg hendKey.ne']
  have hmax : (if rs.key < desc.key then desc.key else rs.key) = max rs.key desc.key := by
    convert (max_def_lt _ _).symm
  have hmin : (if rs.endKey ≤ desc.endKey then rs.endKey else desc.endKey) =
      min rs.endKey desc.endKey := (min_def _ _).symm
  simp only [le_refl, decide_true, Bool.true_and, decide_eq_true_eq, hmax, hmin]

lemma intersect_spec (hnear : nearEnd dir desc ≤ nearEnd dir rs)
    (hfar : nearEnd dir rs < farEnd dir desc) (hrs : nearEnd dir rs < farEnd dir rs) :
    ∃ cur, rs.intersect desc = some cur ∧ nearEnd dir cur = nearEnd dir rs ∧
      farEnd dir cur = min (farEnd dir desc) (farEnd dir rs) := by
  cases dir with
  | ascending =>
    refine ⟨_, intersect_eq hfar (lt_of_le_of_lt hnear hrs), max_eq_left hnear, ?_⟩
    exact min_comm rs.endKey desc.endKey
  | descending =>
    have hnear : rs.endKey ≤ desc.endKey := hnear
    refine ⟨_, intersect_eq (lt_of_lt_of_le hrs hnear) hfar, min_eq_left hnear, ?_⟩
    exact max_comm rs.key desc.key

lemma needAnother_iff : needAnother dir desc rs ↔ farEnd dir desc < farEnd dir rs := by
  cases dir with
  | ascending | descending => exact decide_eq_true_iff

lemma nearEnd_nextSpan (k : Key) : nearEnd dir (nextSpan dir rs k) = cut dir k := by
  cases dir <;> rfl

lemma farEnd_nextSpan (k : Key) : farEnd dir (nextSpan dir rs k) = farEnd dir rs := by
  cases dir <;> rfl

lemma key_lt_endKey_iff : rs.key < rs.endKey ↔ nearEnd dir rs < farEnd dir rs := by
  cases dir with
  | ascending | descending => exact Iff.rfl

/-! ## The loop -/

structure Matches (jobs : List (Part dir)) (mustPreserveOrder : Bool) (v : Visit)
    (w : RSpan × List (Part dir)) : Prop where
  desc : v.desc = w.1
  requests : v.requests.Perm (w.2.map Part.request)
  order : mustPreserveOrder → (v.requests.map Prod.snd).Pairwise (· < ·)
  span : between (nearEnd dir v.rs) (farEnd dir v.rs) jobs = w.2

/-- Batches are sent one after the other until the last one, or the one that stops the loop. -/
inductive Sends {σ : Type} (send : σ → Visit → Bool → σ × Bool) : σ → List Visit → σ → Bool → Prop
  | last (st : σ) (v : Visit) (lastRange : Bool) :
      Sends send st [v] (send st v lastRange).1 (send st v lastRange).2
  | next {st st' : σ} {v : Visit} {vs : List Visit} {lastRange stopped : Bool}
      (hgo : (send st v lastRange).2 = false)
      (h : Sends send (send st v lastRange).1 vs st' stopped) : Sends send st (v :: vs) st' stopped

/-- It sends the batches of a walk over the ranges, all of them unless it is stopped, and keeps the
next key. -/
structure Looped {σ : Type} (send : σ → Visit → Bool → σ × Bool) (jobs : List (Part dir))
    (mustPreserveOrder : Bool) (st : σ) (walked : List (RSpan × List (Part dir)))
    (res : LoopResult σ) : Prop where
  walked : ∃ sent rest, walked = sent ++ rest ∧
    List.Forall₂ (Matches jobs mustPreserveOrder) res.visits sent ∧
    (res.stopped = false → rest = [])
  sends : Sends send st res.visits res.state res.stopped
  seekKey : ∃ v, res.visits.getLast? = some v ∧
    res.seekKey = seekKeyOf (left (farEnd dir v.desc) jobs)

structure JobsOk (jobs : List (Part dir)) (n : ℕ) (far : Cut dir) : Prop where
  ordered : Ordered jobs
  isLocalKey : ∀ j ∈ jobs, isLocalKey (uncut dir j.lo) = false
  nodup : (jobs.map fun j => j.tag.1).Nodup
  lt : ∀ j ∈ jobs, j.tag.1 < n
  hi_le : ∀ j ∈ jobs, j.hi ≤ far
  attained : ∃ j ∈ jobs, j.hi = far

variable {jobs : List (Part dir)} {n : ℕ} {far : Cut dir}

lemma JobsOk.positions (h : JobsOk jobs n far) (a b : Cut dir) :
    ((between a b jobs).map fun j => j.tag.1).Nodup ∧ ∀ j ∈ between a b jobs, j.tag.1 < n := by
  have hsub := (tags_between a b jobs).map Prod.fst
  rw [map_map, map_map] at hsub
  refine ⟨hsub.nodup h.nodup, fun j hj => ?_⟩
  obtain ⟨i, hi, heq⟩ := mem_map.mp (hsub.subset (mem_map_of_mem hj))
  have htag : i.tag.1 = j.tag.1 := heq
  exact htag ▸ h.lt i hi

lemma max_cases_global {y : Cut dir} (hx : isLocalKey (uncut dir x) = false)
    (hy : isLocalKey (uncut dir y) = false) : isLocalKey (uncut dir (max x y)) = false := by
  rcases max_choice x y with h | h
  · rwa [h]
  · rwa [h]

lemma loopStep_spec (A : Addressing) (hjobs : JobsOk jobs n far) {cell : RSpan}
    (hcell : cell ∈ P.ranges) (hlt : nearEnd dir cell < farEnd dir cell) (hok : HelperOk dir h)
    (hlen : h.requests.length = n) (hparts : parts dir h.entries = left (nearEnd dir cell) jobs)
    (hleft : left (nearEnd dir cell) jobs = j :: js) (hin : j.lo < farEnd dir cell) {rs : RSpan}
    (hnear : nearEnd dir rs = j.lo) (hfar : farEnd dir rs = far) :
    ∃ cur h' reqs, seekRange P.ranges h.scanDir (uncut dir j.lo) = some cell ∧
      rs.intersect cell = some cur ∧
      h.truncate A cur = .ok (h', reqs, seekKeyOf (left (farEnd dir cell) jobs)) ∧
      reqs.isEmpty = false ∧ HelperOk dir h' ∧ h'.mustPreserveOrder = h.mustPreserveOrder ∧
      h'.requests.length = n ∧ parts dir h'.entries = left (farEnd dir cell) jobs ∧
      Matches jobs h.mustPreserveOrder ⟨cell, cur, reqs⟩
        (cell, between (nearEnd dir cell) (farEnd dir cell) jobs) := by
  have hhead : ∀ i ∈ left (nearEnd dir cell) jobs, j.lo ≤ i.lo := by
    have hord := ordered_left hjobs.ordered (nearEnd dir cell)
    rw [hleft] at hord ⊢
    exact hord.head_le
  have hmem : j ∈ left (nearEnd dir cell) jobs := hleft ▸ mem_cons_self
  obtain ⟨i, hi, hdone, heq⟩ := mem_left.mp hmem
  have hjlo : nearEnd dir cell ≤ j.lo := heq ▸ le_max_left _ _
  have hjfar : j.lo < far := by
    have hlo : j.lo < i.hi := heq ▸ max_lt hdone (hjobs.ordered.proper i hi)
    exact hlo.trans_le (hjobs.hi_le i hi)
  obtain ⟨cur, hcur, hcurNear, hcurFar⟩ := @intersect_spec dir rs cell (hnear ▸ hjlo) (hnear ▸ hin)
    (by rw [hnear, hfar]; exact hjfar)
  rw [hnear] at hcurNear
  rw [hfar] at hcurFar
  have hcle : nearEnd dir cell ≤ farEnd dir cur := by
    rw [hcurFar]
    exact le_min hlt.le (hjlo.trans hjfar.le)
  have hsweep : sweep (farEnd dir cur) (parts dir h.entries) =
      (between (nearEnd dir cell) (farEnd dir cell) jobs, left (farEnd dir cell) jobs) := by
    rw [hparts, sweep_left hjobs.ordered hcle, hcurFar, between_min hjobs.hi_le,
      left_min hjobs.hi_le]
  obtain ⟨hnodup, hpos⟩ := hjobs.positions (nearEnd dir cell) (farEnd dir cell)
  have hglobal : ∀ j ∈ left (farEnd dir cell) jobs, isLocalKey (uncut dir j.lo) = false := by
    intro j' hj'
    obtain ⟨i', hi', -, rfl⟩ := mem_left.mp hj'
    refine max_cases_global ?_ (hjobs.isLocalKey i' hi')
    have hlocal := P.isLocalKey cell hcell
    cases dir with
    | ascending => exact hlocal.2
    | descending => exact hlocal.1
  obtain ⟨h', reqs, htrunc, hok', hpres, hreqs, hparts', hperm, horder⟩ := truncate_spec A hok cur
    hsweep hglobal hnodup (hlen.symm ▸ hpos)
  refine ⟨cur, h', reqs, ?_, hcur, htrunc, ?_, hok', hpres, ?_, hparts', rfl, hperm, horder, ?_⟩
  · rw [hok.scanDir]
    exact seekRange_eq hcell hjlo hin
  · have hclip : i.clip (nearEnd dir cell) (farEnd dir cell) ≠ none := by
      rw [Job.clip, if_pos]
      · exact Option.some_ne_none _
      have hlo : max (nearEnd dir cell) i.lo < farEnd dir cell := by
        rw [← heq] at hin
        exact hin
      exact lt_min hlo (max_lt hdone (hjobs.ordered.proper i hi))
    cases reqs with
    | cons r reqs => rfl
    | nil =>
      have hnil : between (nearEnd dir cell) (farEnd dir cell) jobs = [] :=
        map_eq_nil_iff.mp hperm.symm.eq_nil
      exact absurd (filterMap_eq_nil_iff.mp hnil i hi) hclip
  · rw [hreqs, hlen]
  · dsimp only
    rw [hcurNear, hcurFar, between_min hjobs.hi_le, between_eq_of_le hjlo hhead]

lemma uncut_seekKeyOf (j : Part dir) (js : List (Part dir)) :
    seekKeyOf (j :: js) = uncut dir j.lo := by
  cases dir <;> rfl

section
variable (hjobs : JobsOk jobs n far) {cell : RSpan}
include hjobs

lemma JobsOk.needAnother_of_nil (hfar : farEnd dir rs = far)
    (hleft : left (farEnd dir cell) jobs = []) : needAnother dir cell rs = false := by
  rw [← Bool.not_eq_true, needAnother_iff, hfar]
  intro hlt
  obtain ⟨i, hi, heq⟩ := hjobs.attained
  have hmem := mem_left.mpr ⟨i, hi, heq.symm ▸ hlt, rfl⟩
  rw [hleft] at hmem
  cases hmem

lemma JobsOk.needAnother_of_cons (hfar : farEnd dir rs = far)
    (hleft : left (farEnd dir cell) jobs = j :: js) :
    needAnother dir cell rs ∧ (nextSpan dir rs (uncut dir j.lo)).key <
      (nextSpan dir rs (uncut dir j.lo)).endKey := by
  have hmem : j ∈ left (farEnd dir cell) jobs := hleft ▸ mem_cons_self
  obtain ⟨i, hi, hdone, heq⟩ := mem_left.mp hmem
  rw [needAnother_iff, @key_lt_endKey_iff dir, nearEnd_nextSpan, farEnd_nextSpan, cut_uncut, hfar]
  refine ⟨hdone.trans_le (hjobs.hi_le i hi), ?_⟩
  rw [← heq]
  exact (max_lt hdone (hjobs.ordered.proper i hi)).trans_le (hjobs.hi_le i hi)

lemma JobsOk.walk_of_lt {cells : List RSpan} (hlt : nearEnd dir cell < farEnd dir cell)
    (hleft : left (nearEnd dir cell) jobs = j :: js) (hin : j.lo < farEnd dir cell) :
    walk (farEnd dir) (cell :: cells) (left (nearEnd dir cell) jobs) =
      (cell, between (nearEnd dir cell) (farEnd dir cell) jobs) ::
        walk (farEnd dir) cells (left (farEnd dir cell) jobs) := by
  rw [hleft, walk, if_pos hin, ← hleft, sweep_left hjobs.ordered hlt.le]

lemma JobsOk.left_of_le (hlt : nearEnd dir cell < farEnd dir cell)
    (hleft : left (nearEnd dir cell) jobs = j :: js) (hle : farEnd dir cell ≤ j.lo) :
    left (farEnd dir cell) jobs = left (nearEnd dir cell) jobs := by
  refine left_eq_of_le hjobs.ordered hlt.le ?_
  have hord := ordered_left hjobs.ordered (nearEnd dir cell)
  rw [hleft] at hord ⊢
  exact fun i hi => hle.trans (hord.head_le i hi)

end

lemma Looped.cons {send : σ → Visit → Bool → σ × Bool} {st : σ} {v : Visit} {lastRange : Bool}
    {w : RSpan × List (Part dir)} {walked : List (RSpan × List (Part dir))}
    {mustPreserveOrder : Bool} {res : LoopResult σ} (hmatch : Matches jobs mustPreserveOrder v w)
    (hgo : (send st v lastRange).2 = false)
    (h : Looped send jobs mustPreserveOrder (send st v lastRange).1 walked res) :
    Looped send jobs mustPreserveOrder st (w :: walked) { res with visits := v :: res.visits } := by
  obtain ⟨⟨sent, rest, hsplit, hforall, hall⟩, hsends, last, hlast, hkey⟩ := h
  refine ⟨⟨w :: sent, rest, ?_, .cons hmatch hforall, hall⟩, .next hgo hsends, last, ?_, hkey⟩
  · rw [hsplit]
    rfl
  · dsimp only
    rw [getLast?_cons, hlast]
    rfl

lemma rangeLoop_spec (A : Addressing) (send : σ → Visit → Bool → σ × Bool)
    (hjobs : JobsOk jobs n far) {cells : List RSpan} {c d : Cut dir}
    (hcells : Consecutive (nearEnd dir) (farEnd dir) c d cells)
    (hsub : ∀ cell ∈ cells, cell ∈ P.ranges) (hd : far ≤ d)
    (hok : HelperOk dir h) (hlen : h.requests.length = n)
    (hparts : parts dir h.entries = left c jobs)
    (hleft : left c jobs = j :: js) {rs : RSpan} (hnear : nearEnd dir rs = j.lo)
    (hfar : farEnd dir rs = far) {fuel : ℕ} (hfuel : cells.length ≤ fuel) (st : σ) :
    ∃ res, rangeLoop A P.ranges send fuel st h rs (uncut dir j.lo) = .ok res ∧
      Looped send jobs h.mustPreserveOrder st (walk (farEnd dir) cells (left c jobs)) res := by
  induction cells generalizing c h j js rs fuel st with
  | nil =>
    obtain ⟨i, hi, hdone, -⟩ := mem_left.mp (hleft ▸ mem_cons_self : j ∈ left c jobs)
    have hle : i.hi ≤ c := (hjobs.hi_le i hi).trans (hd.trans (le_of_eq hcells.symm))
    exact absurd hdone hle.not_gt
  | cons cell cells ih =>
    obtain ⟨rfl, hlt, hrest⟩ := hcells
    have hsub' : ∀ cell ∈ cells, cell ∈ P.ranges := fun cell' hcell' =>
      hsub cell' (.tail cell hcell')
    by_cases hin : j.lo < farEnd dir cell
    · obtain ⟨fuel, rfl⟩ : ∃ m, fuel = m + 1 := ⟨fuel - 1, by simp at hfuel; omega⟩
      obtain ⟨cur, h', reqs, hseek, hcur, htrunc, hreqs, hok', hpres, hlen', hparts', hmatch⟩ :=
        loopStep_spec A hjobs (hsub cell (.head _)) hlt hok hlen hparts hleft hin hnear hfar
      unfold rangeLoop
      rw [hseek]
      dsimp only
      rw [hcur]
      dsimp only
      rw [htrunc]
      dsimp only
      rw [hreqs, if_neg Bool.false_ne_true, hjobs.walk_of_lt hlt hleft hin, hok.scanDir]
      generalize hsend : send st ⟨cell, cur, reqs⟩ (!needAnother dir cell rs) = r
      have hlast : Sends send st [⟨cell, cur, reqs⟩] r.1 r.2 := hsend ▸ .last st _ _
      cases hstop : r.2 with
      | true =>
        refine ⟨_, rfl, ⟨[_], _, rfl, .cons hmatch .nil, (by simp)⟩, hstop ▸ hlast, _, rfl, rfl⟩
      | false =>
        cases hleft' : left (farEnd dir cell) jobs with
        | nil =>
          rw [hjobs.needAnother_of_nil hfar hleft', Bool.not_false, Bool.true_or, if_pos rfl]
          have hkey : seekKeyOf (left (farEnd dir cell) jobs) = @seekKeyOf dir [] := by
            rw [hleft']
          refine ⟨_, rfl, ⟨[_], [], ?_, .cons hmatch .nil, fun _ => rfl⟩, hstop ▸ hlast,
            ⟨cell, cur, reqs⟩, rfl, ?_⟩
          · cases cells <;> rfl
          · exact hkey.symm
        | cons j' js' =>
          obtain ⟨hlastRange, hnext⟩ := hjobs.needAnother_of_cons hfar hleft'
          rw [uncut_seekKeyOf, hlastRange, Bool.not_true, Bool.false_or,
            decide_eq_true hnext, Bool.not_true, if_neg Bool.false_ne_true]
          have hnear' : nearEnd dir (nextSpan dir rs (uncut dir j'.lo)) = j'.lo := by
            rw [nearEnd_nextSpan, cut_uncut]
          have hfar' : farEnd dir (nextSpan dir rs (uncut dir j'.lo)) = far := by
            rw [farEnd_nextSpan, hfar]
          obtain ⟨res, hres, hlooped⟩ := ih hrest hsub' hok' hlen' hparts' hleft' hnear' hfar'
            (Nat.le_of_succ_le_succ hfuel) r.1
          rw [hres]
          rw [hpres] at hlooped
          refine ⟨_, rfl, ?_⟩
          rw [← hleft']
          exact .cons hmatch (hsend.symm ▸ hstop) (hsend.symm ▸ hlooped)
    · have heq := hjobs.left_of_le hlt hleft (not_lt.mp hin)
      have hwalk : walk (farEnd dir) (cell :: cells) (left (nearEnd dir cell) jobs) =
          walk (farEnd dir) cells (left (farEnd dir cell) jobs) := by
        rw [hleft, walk, if_neg hin, heq, hleft]
      rw [hwalk]
      exact ih hrest hsub' hok hlen (hparts.trans heq.symm) (heq.trans hleft) hnear hfar
        (by simp at hfuel; omega) st

lemma positions_requestParts (dir : ScanDirection) (reqs : List Request) :
    (requestParts dir reqs).map (fun j => j.tag.1) = List.range' 0 reqs.length := by
  unfold requestParts
  rw [map_map, ← zipIdx_map_snd]
  refine map_congr_left fun r _ => ?_
  cases dir <;> rfl

section
variable (hok : ∀ req ∈ reqs, RequestOk req)
include hok

lemma jobsOk_of_perm (hperm : jobs.Perm (requestParts dir reqs)) (hordered : Ordered jobs)
    (hall : ∀ req ∈ reqs, rs.key ≤ req.header.key ∧ requestStop req ≤ rs.endKey)
    (hkey : ∃ req ∈ reqs, rs.key = req.header.key)
    (hend : ∃ req ∈ reqs, rs.endKey = requestStop req) :
    JobsOk jobs reqs.length (farEnd dir rs) ∧ (∀ j ∈ jobs, nearEnd dir rs ≤ j.lo) ∧
      ∃ j ∈ jobs, j.lo = nearEnd dir rs := by
  have hmem : ∀ j ∈ jobs, ∃ req ∈ reqs, ∃ i, requestPart dir (req, i) = j := by
    intro j hj
    obtain ⟨req, i, hget, rfl⟩ := mem_requestParts.mp (hperm.mem_iff.mp hj)
    exact ⟨req, mem_of_getElem? hget, i, rfl⟩
  have hpart : ∀ req ∈ reqs, ∃ i, requestPart dir (req, i) ∈ jobs := by
    intro req hreq
    obtain ⟨i, hi⟩ := mem_iff_getElem?.mp hreq
    exact ⟨i, hperm.mem_iff.mpr (mem_requestParts.mpr ⟨req, i, hi, rfl⟩)⟩
  have hpos : (jobs.map fun j => j.tag.1).Perm (List.range' 0 reqs.length) := by
    rw [← positions_requestParts dir reqs]
    exact hperm.map _
  obtain ⟨first, hfirst, hkey⟩ := hkey
  obtain ⟨last, hlast, hend⟩ := hend
  obtain ⟨i, hi⟩ := hpart first hfirst
  obtain ⟨i', hi'⟩ := hpart last hlast
  refine ⟨⟨hordered, ?_, hpos.nodup_iff.mpr nodup_range', ?_, ?_, ?_⟩, ?_, ?_⟩
  · intro j hj
    obtain ⟨req, hreq, i, rfl⟩ := hmem j hj
    cases dir with
    | ascending => exact (hok req hreq).isLocalKey
    | descending => exact (hok req hreq).isLocal_stop
  · intro j hj
    have hrange := hpos.mem_iff.mp (mem_map_of_mem hj)
    simpa using hrange
  · intro j hj
    obtain ⟨req, hreq, i, rfl⟩ := hmem j hj
    cases dir with
    | ascending => exact (hall req hreq).2
    | descending => exact (hall req hreq).1
  · cases dir with
    | ascending => exact ⟨_, hi', hend.symm⟩
    | descending => exact ⟨_, hi, hkey.symm⟩
  · intro j hj
    obtain ⟨req, hreq, i, rfl⟩ := hmem j hj
    cases dir with
    | ascending => exact (hall req hreq).1
    | descending => exact (hall req hreq).2
  · cases dir with
    | ascending => exact ⟨_, hi, hkey.symm⟩
    | descending => exact ⟨_, hi', hend.symm⟩

lemma firstCut_le : ∀ j ∈ requestParts dir reqs, firstCut dir ≤ j.lo := by
  intro j hj
  obtain ⟨req, i, hget, rfl⟩ := mem_requestParts.mp hj
  cases dir with
  | ascending => exact not_lt.mp (Key.not_lt_nil _)
  | descending => exact (hok req (mem_of_getElem? hget)).stop_le

lemma le_lastCut : ∀ j ∈ requestParts dir reqs, j.hi ≤ lastCut dir := by
  intro j hj
  obtain ⟨req, i, hget, rfl⟩ := mem_requestParts.mp hj
  cases dir with
  | ascending => exact (hok req (mem_of_getElem? hget)).stop_le
  | descending => exact not_lt.mp (Key.not_lt_nil _)

end

lemma divideBatch_spec (A : Addressing) (P : Partition) (hsort : Sorts dir sort)
    (hok : ∀ req ∈ reqs, RequestOk req) (hne : reqs ≠ []) (mustPreserveOrder : Bool)
    (send : σ → Visit → Bool → σ × Bool) (st : σ) :
    ∃ res jobs, divideBatch A sort P.ranges dir mustPreserveOrder send st reqs = .ok res ∧
      jobs.Perm (requestParts dir reqs) ∧ Ordered jobs ∧
      Looped send jobs mustPreserveOrder st
        ((P.inOrder dir).filterMap (visit (nearEnd dir) (farEnd dir) jobs)) res := by
  obtain ⟨rs, hrs, hall, hkey, hend⟩ := keysRange_spec A hok hne
  obtain ⟨h, hinit, hhelper, hreqs, hpres, hperm, hordered⟩ :=
    init_spec hsort hok mustPreserveOrder
  obtain ⟨hjobs, hnear, hattained⟩ := jobsOk_of_perm hok hperm hordered hall hkey hend
  have hcells := P.consecutive_inOrder dir
  have hleft : left (firstCut dir) (parts dir h.entries) = parts dir h.entries :=
    left_of_le hordered.proper fun j hj => firstCut_le hok j (hperm.mem_iff.mp hj)
  have hwalk := walk_left hordered hcells
  have hfar : farEnd dir rs ≤ lastCut dir := by
    obtain ⟨j, hj, heq⟩ := hjobs.attained
    exact heq ▸ le_lastCut hok j (hperm.mem_iff.mp hj)
  cases hparts : parts dir h.entries with
  | nil =>
    obtain ⟨j, hj, -⟩ := hattained
    rw [hparts] at hj
    cases hj
  | cons j js =>
    have hlo : nearEnd dir rs = j.lo := by
      obtain ⟨i, hi, heq⟩ := hattained
      rw [hparts] at hordered hnear hi
      exact (hnear j (.head _)).antisymm (heq ▸ hordered.head_le i hi)
    have hlength : (P.inOrder dir).length ≤ P.ranges.length := by
      cases dir with
      | ascending => exact le_rfl
      | descending => exact (length_reverse).le
    obtain ⟨res, hres, hlooped⟩ := rangeLoop_spec A send hjobs hcells
      (fun cell hcell => P.mem_inOrder.mp hcell) hfar hhelper (by rw [hreqs]) hleft.symm
      (hleft.trans hparts) hlo rfl hlength st
    rw [hwalk, hpres] at hlooped
    refine ⟨res, parts dir h.entries, ?_, hperm, hordered, hlooped⟩
    unfold divideBatch
    rw [hrs, hinit]
    have hseek : firstSeekKey dir rs = uncut dir j.lo := by
      rw [← hlo]
      cases dir <;> rfl
    simp only [Except.mapError, bind, Except.bind]
    rw [hseek]
    exact hres

end MeshDB.KvCoord
