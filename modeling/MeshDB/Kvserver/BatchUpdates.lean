import MeshDB.Kvpb.Api
import MeshDB.Lib.Slice
import MeshDB.Roachpb.MergeSpans

/-!
# Stripping in-flight writes

Before a batch with a parallel committing `EndTxn` is evaluated, its own writes are moved from the
in-flight writes to the lock spans. The result shares the array of the lock spans until the first
append, and `MergeSpans` works in place.
-/
namespace MeshDB.Kvserver

open Roachpb Kvpb List Slice

def isParallelCommit (et : EndTxnRequest) : Bool := et.commit && !et.inFlightWrites.isEmpty

/-- A batch with its lock spans in shared memory. -/
structure StoredBatch where
  ba : BatchRequest
  lockSpans : Slice
deriving DecidableEq

def StoredBatch.load (b : StoredBatch) (m : Memory Span) : BatchRequest :=
  match b.ba.getEndTxn with
  | none => b.ba
  | some et => b.ba.setEndTxn { et with lockSpans := read m b.lockSpans }

/-- The merged spans and behind them the end of the sorted spans. -/
def mergedArray (spans : List Span) : List Span :=
  (mergeSpans spans).1 ++ (spans.insertionSort Span.sortLe).drop (mergeSpans spans).1.length

/-- Sorts and merges in the array it was given. -/
def mergeSpansInPlace (m : Memory Span) (s : Slice) : Memory Span × Slice × Bool :=
  let (merged, distinct) := mergeSpans (read m s)
  (write m s (mergedArray (read m s)), { s with len := merged.length }, distinct)

def isPointWrite (req : Kvpb.Request) : Bool := req.isIntentWrite && !req.isRange

def countWrites (reqs : List Kvpb.Request) : ℕ :=
  reqs.countP fun req => isPointWrite req || req.isQueryIntent

def lockSpan (w : SequencedWrite) : Span := ⟨w.key, none⟩

/-- The in-flight writes from `copiedTo` on, and those and the lock spans of the new `EndTxn`. -/
structure StripState where
  rest : List SequencedWrite
  inFlightWrites : List SequencedWrite
  mem : Memory Span
  lockSpans : Slice

/-- Strips the write a request stands for. -/
def stripOne (st : StripState) (req : Kvpb.Request) : Except ErrorDetail StripState :=
  if isPointWrite req then
    let isOther := fun w : SequencedWrite => w.sequence != req.header.sequence
    match st.rest.dropWhile isOther with
    | [] => .error (.internal "write in batch with EndTxn missing from in-flight writes")
    | w :: rest =>
      let (mem, lockSpans) := Slice.append st.mem st.lockSpans (lockSpan w)
      .ok {
        rest := rest
        inFlightWrites := st.inFlightWrites ++ st.rest.takeWhile isOther
        mem := mem
        lockSpans := lockSpans }
  else .ok st

/-- The `EndTxn` is replaced, the batch copied. -/
def finishStrip (b : StoredBatch) (et : EndTxnRequest) (inFlightWrites : List SequencedWrite)
    (m : Memory Span) (lockSpans : Slice) : Memory Span × StoredBatch :=
  let (m, lockSpans, distinct) := mergeSpansInPlace m lockSpans
  (m, {
    ba := { b.ba.setEndTxn { et with inFlightWrites := inFlightWrites } with
      distinctSpans := distinct }
    lockSpans := lockSpans })

/-- Over every request of the batch. -/
def stripSlowPath (m : Memory Span) (b : StoredBatch) (et : EndTxnRequest) :
    Except ErrorDetail (Memory Span × StoredBatch) := do
  let st ← b.ba.requests.dropLast.foldlM stripOne ⟨et.inFlightWrites, [], m, b.lockSpans.clip⟩
  return finishStrip b et (st.inFlightWrites ++ st.rest) st.mem st.lockSpans

/-- All in-flight writes are in the batch. -/
def stripFastPath (m : Memory Span) (b : StoredBatch) (et : EndTxnRequest) :
    Memory Span × StoredBatch :=
  let spans := read m b.lockSpans ++ et.inFlightWrites.map lockSpan
  let (m, lockSpans) := alloc m spans spans.length
  finishStrip b et [] m lockSpans

def maybeStripInFlightWrites (m : Memory Span) (b : StoredBatch) :
    Except ErrorDetail (Memory Span × StoredBatch) :=
  match b.ba.getEndTxn with
  | none => .ok (m, b)
  | some et =>
    let otherReqs := b.ba.requests.dropLast
    if !isParallelCommit et || otherReqs.isEmpty then .ok (m, b)
    else if et.inFlightWrites.length ≤ otherReqs.length then
      let writes := countWrites otherReqs
      if et.inFlightWrites.length < writes then
        .error (.internal "more write in batch with EndTxn than listed in in-flight writes")
      else if et.inFlightWrites.length = writes then .ok (stripFastPath m b et)
      else stripSlowPath m b et
    else stripSlowPath m b et

/-! ## The writes of a batch -/

def pointWrite (req : Kvpb.Request) : Option SequencedWrite :=
  if isPointWrite req then some ⟨req.header.key, req.header.sequence⟩ else none

def writeOf : Kvpb.Request → Option SequencedWrite
  | .queryIntent qi => some ⟨qi.key, qi.txn.sequence⟩
  | req => pointWrite req

def pointWrites (reqs : List Kvpb.Request) : List SequencedWrite := reqs.filterMap pointWrite

def batchWrites (reqs : List Kvpb.Request) : List SequencedWrite := reqs.filterMap writeOf

variable {w : SequencedWrite} {reqs : List Kvpb.Request} {spans : List Span}

lemma pointWrite_eq_writeOf {req : Kvpb.Request} (h : pointWrite req = some w) :
    writeOf req = some w := by
  cases req with
  | op method header => exact h
  | endTxn et => exact h
  | queryIntent qi => cases h

lemma mem_batchWrites_of_mem_pointWrites (h : w ∈ pointWrites reqs) : w ∈ batchWrites reqs := by
  obtain ⟨req, hreq, hw⟩ := mem_filterMap.mp h
  exact mem_filterMap.mpr ⟨req, hreq, pointWrite_eq_writeOf hw⟩

lemma writeOf_isSome (req : Kvpb.Request) :
    (writeOf req).isSome = (isPointWrite req || req.isQueryIntent) := by
  cases req with
  | op method header =>
    simp only [writeOf, pointWrite, Kvpb.Request.isQueryIntent, Bool.or_false]
    split_ifs with h
    · exact h.symm
    · exact (Bool.not_eq_true _ ▸ h).symm
  | endTxn et => rfl
  | queryIntent qi => rfl

lemma countWrites_eq (reqs : List Kvpb.Request) :
    countWrites reqs = (batchWrites reqs).length := by
  unfold countWrites batchWrites
  rw [length_filterMap_eq_countP]
  congr 1
  funext req
  exact (writeOf_isSome req).symm

/-! ## The slow path -/

def Ordered (ws : List SequencedWrite) : Prop := ws.Pairwise fun a b => a.sequence < b.sequence

lemma exists_split {rest : List SequencedWrite} {w : SequencedWrite} (hord : Ordered rest)
    (hw : w ∈ rest) : ∃ before after, rest = before ++ w :: after ∧
      rest.takeWhile (fun v => v.sequence != w.sequence) = before ∧
      rest.dropWhile (fun v => v.sequence != w.sequence) = w :: after := by
  obtain ⟨before, after, rfl⟩ := append_of_mem hw
  have hbefore : ∀ v ∈ before, (v.sequence != w.sequence) := by
    intro v hv
    have := (pairwise_append.mp hord).2.2 v hv w (.head _)
    simpa using this.ne
  refine ⟨before, after, rfl, ?_, ?_⟩
  · rw [takeWhile_append_of_pos hbefore]
    simp
  rw [dropWhile_append_of_pos hbefore]
  simp

lemma mem_after {before after : List SequencedWrite} {v : SequencedWrite}
    (hord : Ordered (before ++ w :: after)) (hv : v ∈ before ++ w :: after)
    (hlt : w.sequence < v.sequence) : v ∈ after := by
  rcases mem_append.mp hv with hv | hv
  · have := (pairwise_append.mp hord).2.2 v hv w (.head _)
    omega
  rcases mem_cons.mp hv with rfl | hv
  · exact absurd hlt (lt_irrefl _)
  · exact hv

lemma filter_split {before after ws : List SequencedWrite}
    (hord : Ordered (before ++ w :: after)) (hws : ∀ v ∈ ws, w.sequence < v.sequence) :
    (before ++ w :: after).filter (fun v => decide (v ∉ w :: ws)) =
      before ++ after.filter fun v => decide (v ∉ ws) := by
  obtain ⟨-, hafter, hbefore⟩ := pairwise_append.mp hord
  rw [filter_append, filter_cons_of_neg (by simp)]
  congr 1
  · rw [filter_eq_self]
    intro v hv
    have hlt := hbefore v hv w (.head _)
    rw [decide_eq_true_eq, mem_cons, not_or]
    constructor
    · rintro rfl
      exact lt_irrefl _ hlt
    intro hmem
    have := hws v hmem
    omega
  apply filter_congr
  intro v hv
  have hne : v ≠ w := by
    rintro rfl
    exact lt_irrefl _ ((pairwise_cons.mp hafter).1 v hv)
  simp [hne]

lemma stripLoop_spec {reqs : List Kvpb.Request} {st : StripState} (hord : Ordered st.rest)
    (hmem : ∀ w ∈ pointWrites reqs, w ∈ st.rest) (hws : Ordered (pointWrites reqs))
    (hvalid : st.lockSpans.Valid st.mem) :
    ∃ st', reqs.foldlM stripOne st = .ok st' ∧
      st'.inFlightWrites ++ st'.rest =
        st.inFlightWrites ++ st.rest.filter (fun w => decide (w ∉ pointWrites reqs)) ∧
      read st'.mem st'.lockSpans =
        read st.mem st.lockSpans ++ (pointWrites reqs).map lockSpan ∧
      st'.lockSpans.Valid st'.mem ∧
      ∀ m₀, Keeps m₀ st.mem →
        (st.lockSpans.cap ≤ st.lockSpans.len ∨ m₀.length ≤ st.lockSpans.array) →
        (pointWrites reqs = [] ∧ st'.mem = st.mem ∧ st'.lockSpans = st.lockSpans) ∨
          (Keeps m₀ st'.mem ∧ m₀.length ≤ st'.lockSpans.array) := by
  induction reqs generalizing st with
  | nil => exact ⟨st, rfl, by simp [pointWrites], by simp [pointWrites], hvalid,
      fun _ _ _ => .inl ⟨rfl, rfl, rfl⟩⟩
  | cons req reqs ih =>
    by_cases hreq : isPointWrite req
    · have hpoint : pointWrite req = some ⟨req.header.key, req.header.sequence⟩ := if_pos hreq
      generalize hw : (⟨req.header.key, req.header.sequence⟩ : SequencedWrite) = w at hpoint
      have hseq : req.header.sequence = w.sequence := congrArg SequencedWrite.sequence hw
      have hcons : pointWrites (req :: reqs) = w :: pointWrites reqs :=
        filterMap_cons_some hpoint
      rw [hcons] at hmem hws ⊢
      obtain ⟨hlt, hws⟩ := pairwise_cons.mp hws
      obtain ⟨before, after, hrest, htake, hdrop⟩ :=
        exists_split hord (hmem w (.head _))
      rw [hrest] at hord
      have hone : stripOne st req = .ok ⟨after, st.inFlightWrites ++ before,
          (Slice.append st.mem st.lockSpans (lockSpan w)).1,
          (Slice.append st.mem st.lockSpans (lockSpan w)).2⟩ := by
        simp only [stripOne, if_pos hreq, hseq, hdrop, htake]
      have hafter : Ordered after :=
        (pairwise_cons.mp (pairwise_append.mp hord).2.1).2
      obtain ⟨st', heq, hin, hspans, hvalid', hkeep⟩ := @ih
        ⟨after, st.inFlightWrites ++ before, (Slice.append st.mem st.lockSpans (lockSpan w)).1,
          (Slice.append st.mem st.lockSpans (lockSpan w)).2⟩ hafter
        (fun v hv => mem_after hord (hrest ▸ hmem v (.tail _ hv)) (hlt v hv)) hws
        (valid_append hvalid _)
      refine ⟨st', ?_, ?_, ?_, hvalid', ?_⟩
      · rw [foldlM_cons, hone]
        exact heq
      · rw [hin, hrest, filter_split hord hlt, append_assoc]
      · rw [hspans, read_append hvalid, map_cons, append_assoc]
        rfl
      intro m₀ hk hs
      obtain ⟨hk', hs'⟩ := keeps_append hk hs (lockSpan w)
      rcases hkeep m₀ hk' (.inr hs') with ⟨-, hmem', hspan'⟩ | h
      · rw [hmem', hspan']
        exact .inr ⟨hk', hs'⟩
      · exact .inr h
    · have hnone : pointWrites (req :: reqs) = pointWrites reqs :=
        filterMap_cons_none (if_neg hreq)
      rw [hnone] at hmem hws ⊢
      rw [foldlM_cons, stripOne, if_neg hreq]
      exact ih hord hmem hws hvalid

/-! ## Lock spans that are merged already -/

/-- A span ends before the next one, so that they neither overlap nor touch. -/
def EndsBefore (a b : Span) : Prop := (if a.isPoint then a.key else a.endKeyBytes) < b.key

instance : DecidableRel EndsBefore := fun _ _ => inferInstanceAs (Decidable (_ < _))

lemma EndsBefore.key_lt {a b : Span} (h : EndsBefore a b) (ha : a.Proper) : a.key < b.key := by
  unfold EndsBefore at h
  split_ifs at h with hpoint
  · exact h
  · exact (Span.lt_of_wf ha.wf hpoint).trans h

lemma mergeStep_of_endsBefore {st : MergeState} {cur : Span} (h : EndsBefore st.prev cur) :
    mergeStep st cur = st.append cur := by
  unfold EndsBefore at h
  unfold mergeStep
  split_ifs at h with hpoint
  · simp [hpoint, h.ne']
  · simp [hpoint, h.not_ge]

lemma mergeLoop_of_endsBefore (st : MergeState) (h : (st.prev :: spans).Pairwise EndsBefore) :
    (spans.foldl mergeStep st).done ++ [(spans.foldl mergeStep st).prev] =
      st.done ++ st.prev :: spans := by
  induction spans generalizing st with
  | nil => rfl
  | cons cur spans ih =>
    obtain ⟨hprev, hrest⟩ := pairwise_cons.mp h
    rw [foldl_cons, mergeStep_of_endsBefore (hprev cur (.head _)), ih _ hrest]
    simp [MergeState.append]

/-- Spans that are sorted and lie apart are what merging makes of them. -/
lemma mergedArray_of_endsBefore (hproper : ∀ sp ∈ spans, sp.Proper)
    (h : spans.Pairwise EndsBefore) : mergedArray spans = spans := by
  have hsorted : spans.insertionSort Span.sortLe = spans := by
    refine List.Pairwise.insertionSort_eq (h.imp_of_mem fun {a b} ha _ hab => ?_)
    exact Prod.Lex.toLex_le_toLex.mpr (.inl (hab.key_lt (hproper a ha)))
  have hmerged : (mergeSpans spans).1 = spans := by
    unfold mergeSpans
    rw [hsorted]
    cases spans with
    | nil => rfl
    | cons sp spans => exact mergeLoop_of_endsBefore ⟨[], sp, true⟩ h
  rw [mergedArray, hmerged, hsorted, drop_length, append_nil]

/-! ## The whole function -/

variable {m m₀ : Memory Span} {b : StoredBatch} {et : EndTxnRequest} {s : Slice}
  {ws : List SequencedWrite}

lemma getEndTxn_load (h : b.ba.getEndTxn = some et) :
    (b.load m).getEndTxn = some { et with lockSpans := read m b.lockSpans } := by
  unfold StoredBatch.load
  rw [h]
  exact BatchRequest.getEndTxn_setEndTxn _ _

lemma load_congr {m' : Memory Span}
    (h : read m' b.lockSpans = read m b.lockSpans) : b.load m' = b.load m := by
  unfold StoredBatch.load
  rw [h]

lemma getEndTxn_finishStrip (b : StoredBatch) (et : EndTxnRequest)
    (ws : List SequencedWrite) (hs : s.Valid m) :
    ((finishStrip b et ws m s).2.load (finishStrip b et ws m s).1).getEndTxn =
      some { et with
        inFlightWrites := ws
        lockSpans := (mergeSpans (read m s)).1 } := by
  have hget : (finishStrip b et ws m s).2.ba.getEndTxn =
      some { et with inFlightWrites := ws } := BatchRequest.getEndTxn_setEndTxn b.ba _
  have hread : read (finishStrip b et ws m s).1 (finishStrip b et ws m s).2.lockSpans =
      (mergeSpans (read m s)).1 := by
    have hlen : (mergeSpans (read m s)).1.length ≤ (mergedArray (read m s)).length := by
      rw [mergedArray, length_append]
      exact Nat.le_add_right _ _
    exact (read_write hs.1 hlen).trans take_left
  rw [getEndTxn_load hget, hread]

lemma keeps_finishStrip (b : StoredBatch) (et : EndTxnRequest) (ws : List SequencedWrite)
    (hk : Keeps m₀ m) (hs : m₀.length ≤ s.array) :
    Keeps m₀ (finishStrip b et ws m s).1 := hk.write hs

lemma finishStrip_mem_of_merged (b : StoredBatch) (et : EndTxnRequest)
    (ws : List SequencedWrite) (hs : s.Valid m)
    (h : mergedArray (read m s) = read m s) : (finishStrip b et ws m s).1 = m := by
  show write m s (mergedArray (read m s)) = m
  rw [h, write_read hs]

lemma covers_map_lockSpan {k : Key} : Covers (ws.map lockSpan) k ↔ ∃ w ∈ ws, w.key = k := by
  constructor
  · rintro ⟨sp, hsp, hk⟩
    obtain ⟨w, hw, rfl⟩ := mem_map.mp hsp
    exact ⟨w, hw, ((Span.mem_of_isPoint rfl).mp hk).symm⟩
  rintro ⟨w, hw, rfl⟩
  exact ⟨lockSpan w, mem_map_of_mem hw, (Span.mem_of_isPoint rfl).mpr rfl⟩

lemma covers_merged (hproper : ∀ sp ∈ spans, sp.Proper) {k : Key} :
    Covers (mergeSpans (spans ++ ws.map lockSpan)).1 k ↔ Covers spans k ∨ ∃ w ∈ ws, w.key = k := by
  rw [covers_mergeSpans_iff, covers_append, covers_map_lockSpan]
  exact forall_mem_append.mpr ⟨hproper, forall_mem_map.mpr fun w _ => .inl rfl⟩

/-- The key's lock will be resolved. -/
def Tracked (et : EndTxnRequest) (k : Key) : Prop :=
  Covers et.lockSpans k ∨ ∃ w ∈ et.inFlightWrites, w.key = k

structure Stripped (reqs : List Kvpb.Request) (et et' : EndTxnRequest) : Prop where
  tracked : ∀ k, Tracked et' k ↔ Tracked et k
  order : et'.inFlightWrites.Sublist et.inFlightWrites
  removed : ∀ w ∈ et.inFlightWrites, w ∉ et'.inFlightWrites → w ∈ batchWrites reqs

lemma Stripped.refl (reqs : List Kvpb.Request) (et : EndTxnRequest) : Stripped reqs et et :=
  ⟨fun _ => Iff.rfl, List.Sublist.refl _, fun _ h h' => absurd h h'⟩

lemma stripped_slow
    (hproper : ∀ sp ∈ spans, sp.Proper) (hmem : ∀ w ∈ pointWrites reqs, w ∈ et.inFlightWrites) :
    Stripped reqs { et with lockSpans := spans } { et with
      inFlightWrites := et.inFlightWrites.filter fun w => decide (w ∉ pointWrites reqs)
      lockSpans := (mergeSpans (spans ++ (pointWrites reqs).map lockSpan)).1 } where
  tracked k := by
    unfold Tracked
    rw [covers_merged hproper, or_assoc]
    apply or_congr_right
    constructor
    · rintro (⟨w, hw, hk⟩ | ⟨w, hw, hk⟩)
      · exact ⟨w, hmem w hw, hk⟩
      · exact ⟨w, (mem_filter.mp hw).1, hk⟩
    rintro ⟨w, hw, hk⟩
    by_cases hp : w ∈ pointWrites reqs
    · exact .inl ⟨w, hp, hk⟩
    · exact .inr ⟨w, mem_filter.mpr ⟨hw, decide_eq_true hp⟩, hk⟩
  order := filter_sublist
  removed w hw hnot := by
    by_contra hb
    exact hnot (mem_filter.mpr
      ⟨hw, decide_eq_true fun hp => hb (mem_batchWrites_of_mem_pointWrites hp)⟩)

lemma stripped_fast
    (hproper : ∀ sp ∈ spans, sp.Proper) (hall : ∀ w ∈ et.inFlightWrites, w ∈ batchWrites reqs) :
    Stripped reqs { et with lockSpans := spans } { et with
      inFlightWrites := []
      lockSpans := (mergeSpans (spans ++ et.inFlightWrites.map lockSpan)).1 } where
  tracked k := by
    unfold Tracked
    rw [covers_merged hproper]
    simp
  order := nil_sublist _
  removed w hw _ := hall w hw

lemma stripFastPath_spec (hslice : b.lockSpans.Valid m)
    (hproper : ∀ sp ∈ read m b.lockSpans, sp.Proper)
    (hall : ∀ w ∈ et.inFlightWrites, w ∈ batchWrites reqs) :
    ∃ et', ((stripFastPath m b et).2.load (stripFastPath m b et).1).getEndTxn = some et' ∧
      Stripped reqs { et with lockSpans := read m b.lockSpans } et' ∧
      b.load (stripFastPath m b et).1 = b.load m := by
  unfold stripFastPath
  generalize hspans : read m b.lockSpans ++ et.inFlightWrites.map lockSpan = spans
  have hget := getEndTxn_finishStrip b et [] (valid_alloc m spans spans.length)
  rw [read_alloc, ← hspans] at hget
  refine ⟨_, hspans ▸ hget, stripped_fast hproper hall, load_congr ?_⟩
  have hkeeps : Keeps m (finishStrip b et [] (alloc m spans spans.length).1
      (alloc m spans spans.length).2).1 :=
    keeps_finishStrip b et [] (keeps_alloc m spans spans.length) le_rfl
  exact hkeeps.read hslice.1

lemma stripSlowPath_spec (hslice : b.lockSpans.Valid m)
    (hproper : ∀ sp ∈ read m b.lockSpans, sp.Proper) (hseq : Ordered et.inFlightWrites)
    (hlisted : ∀ w ∈ pointWrites b.ba.requests.dropLast, w ∈ et.inFlightWrites)
    (horder : Ordered (pointWrites b.ba.requests.dropLast)) :
    ∃ m' b' et', stripSlowPath m b et = .ok (m', b') ∧ (b'.load m').getEndTxn = some et' ∧
      Stripped b.ba.requests.dropLast { et with lockSpans := read m b.lockSpans } et' ∧
      (pointWrites b.ba.requests.dropLast ≠ [] ∨ (read m b.lockSpans).Pairwise EndsBefore →
        b.load m' = b.load m) := by
  obtain ⟨st, hrun, hin, hspans, hvalid, hkeep⟩ := @stripLoop_spec b.ba.requests.dropLast
    ⟨et.inFlightWrites, [], m, b.lockSpans.clip⟩ hseq hlisted horder hslice
  have hget := getEndTxn_finishStrip b et (st.inFlightWrites ++ st.rest) hvalid
  rw [hspans] at hget
  have heq : stripSlowPath m b et =
      .ok (finishStrip b et (st.inFlightWrites ++ st.rest) st.mem st.lockSpans) := by
    rw [stripSlowPath, hrun]
    rfl
  refine ⟨_, _, _, heq, hget, ?_, ?_⟩
  · rw [hin]
    exact stripped_slow hproper hlisted
  intro hcond
  rcases hkeep m (.refl m) (.inl le_rfl) with ⟨hnil, hmem, hslice'⟩ | ⟨hk, hs⟩
  · have hmerged := mergedArray_of_endsBefore hproper (hcond.resolve_left (not_not.mpr hnil))
    rw [hmem, hslice']
    have hclip : b.lockSpans.clip.Valid m := hslice
    exact congrArg b.load
      (finishStrip_mem_of_merged b et (st.inFlightWrites ++ st.rest) hclip hmerged)
  · have hkept := keeps_finishStrip b et (st.inFlightWrites ++ st.rest) hk hs
    exact load_congr (hkept.read hslice.1)

/-- The stripping of a parallel committing batch whose writes are all listed succeeds. Every key
stays tracked, and only writes of the batch itself are taken out of the in-flight writes. The input
stays as it is if nothing is merged in place, or the lock spans are merged already. -/
theorem strip_in_flight_writes (het : b.ba.getEndTxn = some et)
    (hcommit : isParallelCommit et = true) (hslice : b.lockSpans.Valid m)
    (hproper : ∀ sp ∈ read m b.lockSpans, sp.Proper)
    (hseq : Ordered et.inFlightWrites) (hnodup : (batchWrites b.ba.requests.dropLast).Nodup)
    (hlisted : ∀ w ∈ batchWrites b.ba.requests.dropLast, w ∈ et.inFlightWrites)
    (horder : Ordered (pointWrites b.ba.requests.dropLast)) :
    ∃ m' b' et', maybeStripInFlightWrites m b = .ok (m', b') ∧ (b'.load m').getEndTxn = some et' ∧
      Stripped b.ba.requests.dropLast { et with lockSpans := read m b.lockSpans } et' ∧
      (b.ba.requests.dropLast = [] ∨ pointWrites b.ba.requests.dropLast ≠ [] ∨
        (batchWrites b.ba.requests.dropLast).length = et.inFlightWrites.length ∨
        (read m b.lockSpans).Pairwise EndsBefore → b.load m' = b.load m) := by
  have hpoint : ∀ w ∈ pointWrites b.ba.requests.dropLast, w ∈ et.inFlightWrites :=
    fun w hw => hlisted w (mem_batchWrites_of_mem_pointWrites hw)
  have hcount : countWrites b.ba.requests.dropLast ≤ et.inFlightWrites.length := by
    rw [countWrites_eq]
    exact (subperm_of_subset hnodup hlisted).length_le
  unfold maybeStripInFlightWrites
  rw [het]
  dsimp only
  by_cases hnone : b.ba.requests.dropLast.isEmpty = true
  · rw [if_pos (by rw [hnone, Bool.or_true])]
    exact ⟨m, b, _, rfl, getEndTxn_load het, .refl _ _, fun _ => rfl⟩
  rw [if_neg (by simp [hcommit, hnone])]
  by_cases hfast : et.inFlightWrites.length = countWrites b.ba.requests.dropLast
  · have hlen : et.inFlightWrites.length ≤ b.ba.requests.dropLast.length := by
      rw [hfast, countWrites]
      exact countP_le_length
    have hall : ∀ w ∈ et.inFlightWrites, w ∈ batchWrites b.ba.requests.dropLast := by
      have hperm := (subperm_of_subset hnodup hlisted).perm_of_length_le
        (by rw [← countWrites_eq, hfast])
      exact fun w hw => hperm.mem_iff.mpr hw
    rw [if_pos hlen, if_neg (by omega), if_pos hfast]
    obtain ⟨et', hget, hstripped, hload⟩ := stripFastPath_spec hslice hproper hall
    exact ⟨_, _, et', rfl, hget, hstripped, fun _ => hload⟩
  rw [if_neg (not_lt.mpr hcount), if_neg hfast, ite_self]
  obtain ⟨m', b', et', heq, hget, hstripped, hload⟩ :=
    stripSlowPath_spec hslice hproper hseq hpoint horder
  refine ⟨m', b', et', heq, hget, hstripped, ?_⟩
  rintro (h | h | h | h)
  · exact absurd (isEmpty_iff.mpr h) hnone
  · exact hload (.inl h)
  · exact absurd (countWrites_eq _ ▸ h).symm hfast
  · exact hload (.inr h)

def twoLocks : Memory Span := [[⟨[3], none⟩, ⟨[1], none⟩]]

def writeAndQuery : StoredBatch where
  ba := {
    txn := { id := 1 }
    requests := [
      .queryIntent { key := [7], txn := { id := 1, sequence := 1 }, errorIfMissing := true },
      .op .put { key := [5], sequence := 3 },
      .endTxn {
        commit := true
        sequence := 4
        inFlightWrites := [⟨[7], 1⟩, ⟨[6], 2⟩, ⟨[5], 3⟩] }] }
  lockSpans := ⟨0, 2, 2⟩

theorem strip_in_flight_writes_put :
    ∃ m' b' et', maybeStripInFlightWrites twoLocks writeAndQuery = .ok (m', b') ∧
      (b'.load m').getEndTxn = some et' ∧ Tracked et' [5] ∧
      writeAndQuery.load m' = writeAndQuery.load twoLocks := by
  obtain ⟨m', b', et', heq, hget, hstripped, hload⟩ := @strip_in_flight_writes
    twoLocks writeAndQuery _ rfl rfl ⟨by decide, by decide⟩
    (by decide) (by unfold Ordered; decide) (by decide) (by decide) (by unfold Ordered; decide)
  have htracked : Tracked et' [5] :=
    (hstripped.tracked [5]).mpr (.inr ⟨⟨[5], 3⟩, by decide, rfl⟩)
  exact ⟨m', b', et', heq, hget, htracked, hload (.inr (.inl (by decide)))⟩

def readAndEndTxn : StoredBatch where
  ba := {
    txn := { id := 1 }
    requests := [ .op (.get false) { key := [9] },
      .endTxn { commit := true, sequence := 2, inFlightWrites := [⟨[5], 1⟩] }] }
  lockSpans := ⟨0, 2, 2⟩

/-- Nothing is appended to the lock spans, so that `MergeSpans` sorts those of the input. -/
theorem input_lock_spans_sorted :
    read twoLocks readAndEndTxn.lockSpans = [⟨[3], none⟩, ⟨[1], none⟩] ∧
    ∃ m' b', maybeStripInFlightWrites twoLocks readAndEndTxn = .ok (m', b') ∧
      read m' readAndEndTxn.lockSpans = [⟨[1], none⟩, ⟨[3], none⟩] := by
  refine ⟨rfl, _, _, rfl, ?_⟩
  decide

end MeshDB.Kvserver
