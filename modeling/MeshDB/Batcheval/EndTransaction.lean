import Mathlib.Order.Interval.Set.LinearOrder
import MeshDB.Storage.ResolveIntent

/-!
# Ending a transaction

What `EndTxn` does with the locks of a finalized transaction: those in the range are resolved as
far as the limits allow, and the transaction record is kept for the others. No declared lock is
lost on the way.
-/
namespace MeshDB.Batcheval

open Roachpb Kvpb Storage List Span

/-! ## The spans of a range -/

def localRangeIDPrefix : Key := [1, 105]

def localRangeMax : Key := [1, 108]

/-- The addresses of local keys by `keys`, and the start of the keys of a range id. -/
structure Addressing where
  addr : Key → Option Key
  makeRangeIDPrefix : ℕ → Key

structure RangeDesc where
  rangeID : ℕ
  rspan : RSpan
deriving DecidableEq

section
variable (a : Addressing) (desc : RangeDesc)

def containsKey (key : Key) : Bool :=
  if localRangeIDPrefix.isPrefixOf key then
    (a.makeRangeIDPrefix desc.rangeID).isPrefixOf key
  else
    match a.addr key with
    | none => false
    | some keyAddr => desc.rspan.containsKey keyAddr

def containsKeyRange (start stop : Key) : Bool :=
  match a.addr start, a.addr stop with
  | some startAddr, some stopAddr => desc.rspan.containsKeyRange startAddr stopAddr
  | _, _ => false

/-- The part before the range is external. -/
def cutLeft (start : Key) (span : Span) : Span × List Span :=
  if span.key < start then
    let iCopy := if start < span.endKeyBytes then { span with endKey := some start } else span
    ({ span with key := iCopy.endKeyBytes }, [iCopy])
  else (span, [])

/-- The part behind the range is external. -/
def cutRight (stop : Key) (span : Span) : Span × List Span :=
  if span.key < span.endKeyBytes ∧ stop < span.endKeyBytes then
    let iCopy := if span.key < stop then { span with key := stop } else span
    ({ span with endKey := some iCopy.key }, [iCopy])
  else (span, [])

def intersectSpan (span : Span) : Except ResolveError (Option Span × List Span) :=
  let start := desc.rspan.key
  let stop := desc.rspan.endKey
  if span.isPoint then .error .panic
  else if span.key < localRangeMax then
    if localRangeMax ≤ span.endKeyBytes then .error .panic
    else if containsKeyRange a desc span.key span.endKeyBytes then .ok (some span, [])
    else .ok (none, [span])
  else
    let (span, left) := cutLeft start span
    let (span, right) := cutRight stop span
    if span.key < span.endKeyBytes ∧ start ≤ span.key ∧ span.endKeyBytes ≤ stop then
      .ok (some span, left ++ right)
    else .ok (none, left ++ right)

end

/-! ## Resolving the local locks -/

/-- What the evaluation of an `EndTxnRequest` reads, with the left descriptor of a merge trigger. -/
structure EndTxnArgs extends EndTxnRequest where
  poison : Bool := false
  mergeTrigger : Option RangeDesc := none

/-- The entry's `Priority` is read by nothing here and left out. -/
structure AbortSpanEntry where
  key : Option Key
  timestamp : Hlc.Timestamp
deriving DecidableEq

structure TransactionRecord extends TxnMeta where
  status : TransactionStatus
  lockSpans : List Span
  inFlightWrites : List SequencedWrite
  ignoredSeqNums : List IgnoredSeqNumRange
deriving DecidableEq

/-- The engine, with the inline keys of the abort span and of the transaction's record. -/
structure Engine where
  store : Store := {}
  abortSpan : TxnID → Option AbortSpanEntry := fun _ => none
  record : Option TransactionRecord := none

structure LockResolution where
  store : Store
  resolvedLocks : List LockUpdate := []
  externalLocks : List Span := []

section
variable (a : Addressing) (env : ResolveEnv) (desc : RangeDesc) (txn : Transaction)

/-- The function that `resolveLocalLocksWithPagination` calls for one lock span after the
other. -/
def resolveLockSpan (maxKeys targetBytes : ℤ) (span : Span) (st : LockResolution) :
    Except ResolveError (LockResolution × Added) :=
  let update := makeLockUpdate txn span
  if span.isPoint then
    if !containsKey a desc span.key then
      .ok ({ st with externalLocks := st.externalLocks ++ [span] }, {})
    else
      (mvccResolveWriteIntentPoint env update targetBytes st.store).map fun r =>
        match r.resumeSpan with
        | some resumeSpan =>
          ({ st with store := r.store, externalLocks := st.externalLocks ++ [resumeSpan] },
            ⟨r.numKeys, r.numBytes, some .byteLimit⟩)
        | none =>
          ({ st with store := r.store, resolvedLocks := st.resolvedLocks ++ [update] },
            ⟨r.numKeys, r.numBytes, none⟩)
  else
    (intersectSpan a desc span).bind fun (inSpan, outSpans) =>
      let externalLocks := st.externalLocks ++ outSpans
      match inSpan with
      | none => .ok ({ st with externalLocks := externalLocks }, {})
      | some inSpan =>
        let update := { update with span := inSpan }
        (mvccResolveWriteIntentRange env update maxKeys targetBytes st.store).map fun r =>
          match r.resumeSpan with
          | some resumeSpan =>
            let update := { update with span := { inSpan with endKey := some resumeSpan.key } }
            (⟨r.store, st.resolvedLocks ++ [update], externalLocks ++ [resumeSpan]⟩,
              ⟨r.numKeys, r.numBytes, r.resumeReason⟩)
          | none =>
            (⟨r.store, st.resolvedLocks ++ [update], externalLocks⟩,
              ⟨r.numKeys, r.numBytes, r.resumeReason⟩)

def writeAbortSpanOnResolve (status : TransactionStatus) (poison removedIntents : Bool) : Bool :=
  if status ≠ .aborted then false else if !poison then true else removedIntents

/-- Poisons or clears the transaction's entry. -/
def updateAbortSpan (txn : TxnMeta) (poison : Bool) (e : Engine) : Engine :=
  let curEntry := e.abortSpan txn.id
  let entry : AbortSpanEntry := ⟨txn.key, txn.writeTimestamp⟩
  if !poison then
    if curEntry.isNone then e
    else { e with abortSpan := Function.update e.abortSpan txn.id none }
  else if curEntry = some entry then e
  else { e with abortSpan := Function.update e.abortSpan txn.id (some entry) }

def resolveLocalLocksWithPagination (args : EndTxnArgs) (maxKeys targetBytes : ℤ) (e : Engine) :
    Except ResolveError (Engine × List LockUpdate × List Span) :=
  let desc := args.mergeTrigger.getD desc
  (mvccPaginate false (resolveLockSpan a env desc txn) maxKeys targetBytes args.lockSpans {}
      { store := e.store }).map fun (st, remainingLockSpans, added) =>
    let externalLocks := st.externalLocks ++ remainingLockSpans
    let e := { e with store := st.store }
    let removedAny := decide (0 < added.numKeys)
    let e :=
      if writeAbortSpanOnResolve txn.status args.poison removedAny then
        updateAbortSpan txn.toTxnMeta args.poison e
      else e
    (e, st.resolvedLocks, externalLocks)

def updateFinalizedTxn (recordAlreadyExisted : Bool) (externalLocks : List Span) (e : Engine) :
    Engine :=
  if externalLocks.isEmpty then
    if !recordAlreadyExisted then e else { e with record := none }
  else
    { e with
      record := some { txn.toTxnMeta with
        status := txn.status
        lockSpans := externalLocks
        inFlightWrites := []
        ignoredSeqNums := txn.ignoredSeqNums } }

end

/-! ## The parts of a span -/

variable {start stop j c e k : Key}

lemma mem_range (he : e ≠ []) : Span.Mem k ⟨j, some e⟩ ↔ j ≤ k ∧ k < e := by
  simp [Span.Mem, Span.isPoint, endKeyBytes, he]

lemma covers_range (he : e ≠ []) : Covers [⟨j, some e⟩] k ↔ j ≤ k ∧ k < e := by
  simp [Covers, mem_range he]

lemma exists_range {span : Span} (h : span.isPoint = false) :
    ∃ j e, span = ⟨j, some e⟩ ∧ e ≠ [] := by
  obtain ⟨j, _ | e⟩ := span
  · simp [Span.isPoint, endKeyBytes] at h
  · exact ⟨j, e, rfl, by simpa [Span.isPoint, endKeyBytes] using h⟩

lemma split_range (hj : j ≤ c) (he : c ≤ e) : j ≤ k ∧ k < e ↔ j ≤ k ∧ k < c ∨ c ≤ k ∧ k < e := by
  rw [← Set.mem_Ico, ← Set.Ico_union_Ico_eq_Ico hj he]
  rfl

lemma ne_nil_of_lt (h : j < k) : k ≠ [] := by
  rintro rfl
  cases h

lemma cutLeft_spec (hj : j ≠ []) (he : e ≠ []) :
    ∃ j' left, cutLeft start ⟨j, some e⟩ = (⟨j', some e⟩, left) ∧ j' ≠ [] ∧
      (start ≤ j' ∨ e ≤ j') ∧ ∀ k, j ≤ k ∧ k < e ↔ j' ≤ k ∧ k < e ∨ Covers left k := by
  unfold cutLeft
  simp only [endKeyBytes, Option.getD_some]
  by_cases hstart : j < start
  swap
  · simp only [hstart, if_false]
    exact ⟨j, _, rfl, hj, .inl (not_lt.mp hstart), by simp [Covers]⟩
  simp only [hstart, if_true]
  by_cases hlt : start < e
  · simp only [hlt, if_true, Option.getD_some]
    have hne := ne_nil_of_lt hstart
    refine ⟨start, _, rfl, hne, .inl le_rfl, ?_⟩
    intro k
    rw [covers_range hne, or_comm]
    exact split_range hstart.le hlt.le
  simp only [hlt, if_false, Option.getD_some]
  refine ⟨e, _, rfl, he, .inr le_rfl, ?_⟩
  intro k
  rw [covers_range he]
  constructor
  · exact .inr
  rintro (⟨hle, hlt⟩ | h)
  · exact absurd hle hlt.not_ge
  · exact h

lemma cutRight_spec (hj : j ≠ []) (he : e ≠ []) :
    ∃ e' right, cutRight stop ⟨j, some e⟩ = (⟨j, some e'⟩, right) ∧ e' ≠ [] ∧ e' ≤ e ∧
      (e' ≤ stop ∨ e' ≤ j) ∧ ∀ k, j ≤ k ∧ k < e ↔ j ≤ k ∧ k < e' ∨ Covers right k := by
  unfold cutRight
  simp only [endKeyBytes, Option.getD_some]
  by_cases hcut : j < e ∧ stop < e
  swap
  · simp only [hcut, if_false]
    refine ⟨e, _, rfl, he, le_rfl, ?_, by simp [Covers]⟩
    rw [not_and_or, not_lt, not_lt] at hcut
    exact hcut.symm
  simp only [hcut, and_self, if_true]
  by_cases hlt : j < stop
  · simp only [hlt, if_true]
    refine ⟨stop, _, rfl, ne_nil_of_lt hlt, hcut.2.le, .inl le_rfl, ?_⟩
    intro k
    rw [covers_range he]
    exact split_range hlt.le hcut.2.le
  simp only [hlt, if_false]
  refine ⟨j, _, rfl, hj, hcut.1.le, .inr le_rfl, ?_⟩
  intro k
  rw [covers_range he]
  exact split_range le_rfl hcut.1.le

/-- A lock span that `EndTxn` may declare: a point, or a range that does not cross the range-local
keys' end. -/
def Declared (span : Span) : Prop :=
  if span.isPoint then span.key ≠ []
  else localRangeMax ≤ span.key ∨ span.endKeyBytes < localRangeMax

instance (span : Span) : Decidable (Declared span) :=
  inferInstanceAs (Decidable (if span.isPoint then span.key ≠ []
    else localRangeMax ≤ span.key ∨ span.endKeyBytes < localRangeMax))

lemma intersectSpan_ok (a : Addressing) (desc : RangeDesc) {span : Span}
    (hrange : span.isPoint = false) (h : Declared span) :
    ∃ inSpan outSpans, intersectSpan a desc span = .ok (inSpan, outSpans) ∧
      (∀ sp, inSpan = some sp → sp.isPoint = false) ∧
      ∀ k, Span.Mem k span ↔ Covers (inSpan.toList ++ outSpans) k := by
  simp only [Declared, hrange, Bool.false_eq_true, if_false] at h
  unfold intersectSpan
  rw [if_neg (by simp [hrange])]
  by_cases hlocal : span.key < localRangeMax
  · have hend : ¬ localRangeMax ≤ span.endKeyBytes := by
      rcases h with h | h
      · exact absurd hlocal h.not_gt
      · exact h.not_ge
    split_ifs
    · exact ⟨_, _, rfl, by simpa using hrange, by simp [Covers]⟩
    · exact ⟨_, _, rfl, by simp, by simp [Covers]⟩
  rw [if_neg hlocal]
  obtain ⟨j, e, rfl, he⟩ := exists_range hrange
  have hj : j ≠ [] := by
    rintro rfl
    exact hlocal (nil_lt_cons _ _)
  obtain ⟨j', left, hleft, hj', hstart, hcoversLeft⟩ := cutLeft_spec hj he
  obtain ⟨e', right, hright, he', hle, hstop, hcoversRight⟩ := cutRight_spec hj' he
  rw [hleft]
  dsimp only
  rw [hright]
  have hcovers : ∀ k, Span.Mem k ⟨j, some e⟩ ↔ j' ≤ k ∧ k < e' ∨ Covers (left ++ right) k := by
    intro k
    rw [mem_range he, hcoversLeft, hcoversRight, covers_append, or_assoc, @or_comm (Covers right k)]
  by_cases hlt : j' < e'
  · have hin : desc.rspan.key ≤ j' ∧ e' ≤ desc.rspan.endKey :=
      ⟨hstart.resolve_right (hlt.trans_le hle).not_ge, hstop.resolve_right hlt.not_ge⟩
    refine ⟨some ⟨j', some e'⟩, left ++ right, if_pos ⟨hlt, hin⟩, ?_, ?_⟩
    · simpa [Span.isPoint, endKeyBytes] using he'
    intro k
    simp only [hcovers, Option.toList_some, covers_append, covers_range he']
  refine ⟨none, left ++ right, if_neg fun h => hlt h.1, by simp, ?_⟩
  intro k
  rw [hcovers, Option.toList_none, nil_append]
  apply or_iff_right
  rintro ⟨hle, hk⟩
  exact hlt (hle.trans_lt hk)

/-! ## No lock is lost -/

variable {env : ResolveEnv} {txn : Transaction} {id : TxnID} {maxKeys targetBytes : ℤ}
  {spans spans' : List Span} {span : Span} {st st' st'' : LockResolution} {ds ds' : List StoreKey}
  {rs rs' : List LockUpdate} {es es' : List Span} {k : Key}

/-- The intents of a transaction, in the order of their keys. -/
def ownedBy (id : TxnID) (s : Store) : List StoreKey := ownLocks id s.keys

/-- The locks in the order in which spans reach them: span by span, and by key within a span. -/
def inOrder (ds : List StoreKey) : List Span → List StoreKey
  | [] => []
  | sp :: spans => (ds.filter fun d => Span.Mem d.key sp) ++
      inOrder (ds.filter fun d => ¬ Span.Mem d.key sp) spans

/-- The intents of a transaction in resolved spans, in the order in which they are resolved. -/
def resolvedIntents (id : TxnID) (s : Store) (resolvedLocks : List LockUpdate) : List StoreKey :=
  inOrder (ownedBy id s) (resolvedLocks.map LockUpdate.span)

lemma inOrder_append (ds : List StoreKey) (spans spans' : List Span) :
    inOrder ds (spans ++ spans') =
      inOrder ds spans ++ inOrder (ds.filter fun d => ¬ ∃ sp ∈ spans, Span.Mem d.key sp) spans' := by
  induction spans generalizing ds with
  | nil => simp [inOrder]
  | cons sp spans ih =>
    rw [cons_append, inOrder, inOrder, ih, append_assoc, filter_filter]
    congr 3
    refine filter_congr fun d _ => ?_
    simp [Bool.and_comm]

lemma mem_ownedBy {s : Store} (h : OrderedSet.Sorted StoreKey.key s.keys) {d : StoreKey} :
    d ∈ ownedBy id s ↔ s.keyAt d.key = some d ∧ d.owner = some id := by
  simp [ownedBy, ownLocks, Store.mem_keys_iff h]

/-- What a run over spans resolves, with the resolved locks, in their order, and the spans that it
leaves to others. -/
structure Resolution (id : TxnID) (spans : List Span) (st st' : LockResolution)
    (ds : List StoreKey) (rs : List LockUpdate) (es : List Span) : Prop where
  resolves : Resolves id st.store st'.store ds
  resolvedLocks : st'.resolvedLocks = st.resolvedLocks ++ rs
  externalLocks : st'.externalLocks = st.externalLocks ++ es
  covers : ∀ k, Covers spans k ↔ Covers (rs.map LockUpdate.span ++ es) k
  free : ∀ k, Covers (rs.map LockUpdate.span) k → st'.store.ownerAt k ≠ some id
  inside : ∀ d ∈ ds, Covers (rs.map LockUpdate.span) d.key
  order : OrderedSet.Sorted StoreKey.key st.store.keys →
    ds = resolvedIntents id st.store rs

lemma Resolution.refl (id : TxnID) (h : OrderedSet.Sorted StoreKey.key st.store.keys) :
    Resolution id [] st st [] [] [] :=
  ⟨.refl id h, by simp, by simp, by simp, by simp [Covers], by simp, fun _ => rfl⟩

/-- The intents that are left are those outside the resolved spans. -/
lemma Resolution.ownedBy_eq (h : Resolution id spans st st' ds rs es)
    (hsorted : OrderedSet.Sorted StoreKey.key st.store.keys) :
    ownedBy id st'.store = (ownedBy id st.store).filter fun d =>
      ¬ ∃ sp ∈ rs.map LockUpdate.span, Span.Mem d.key sp := by
  refine OrderedSet.Sorted.ext (h.resolves.sorted.filter _) ((hsorted.filter _).filter _) ?_
  intro d
  rw [mem_filter, mem_ownedBy h.resolves.sorted, mem_ownedBy hsorted, decide_eq_true_eq]
  constructor
  · rintro ⟨hd, howner⟩
    have hafter : st'.store.ownerAt d.key = some id := by
      rw [Store.ownerAt, hd]
      exact howner
    have hnot := (h.resolves.ownerAt hafter).1
    rw [h.resolves.same _ hnot] at hd
    exact ⟨⟨hd, howner⟩, fun hcovers => h.free _ hcovers hafter⟩
  rintro ⟨⟨hd, howner⟩, hnot⟩
  have hkey : d.key ∉ ds.map StoreKey.key := by
    intro hmem
    obtain ⟨d', hd', hkey⟩ := mem_map.mp hmem
    exact hnot (hkey ▸ h.inside d' hd')
  rw [h.resolves.same _ hkey]
  exact ⟨hd, howner⟩

lemma Resolution.trans (h : Resolution id spans st st' ds rs es)
    (h' : Resolution id spans' st' st'' ds' rs' es') :
    Resolution id (spans ++ spans') st st'' (ds ++ ds') (rs ++ rs') (es ++ es') where
  resolves := h.resolves.trans h'.resolves
  resolvedLocks := by rw [h'.resolvedLocks, h.resolvedLocks, append_assoc]
  externalLocks := by rw [h'.externalLocks, h.externalLocks, append_assoc]
  covers k := by
    simp only [covers_append, h.covers, h'.covers, map_append]
    exact or_or_or_comm
  free := by
    intro k hk howner
    rw [map_append, covers_append] at hk
    rcases hk with hk | hk
    · exact h.free k hk (h'.resolves.ownerAt howner).2
    · exact h'.free k hk howner
  inside := by
    intro d hd
    rw [map_append, covers_append]
    rcases mem_append.mp hd with hd | hd
    · exact .inl (h.inside d hd)
    · exact .inr (h'.inside d hd)
  order := by
    intro hsorted
    rw [resolvedIntents, map_append, inOrder_append, ← resolvedIntents, ← h.order hsorted,
      ← h.ownedBy_eq hsorted, ← resolvedIntents, ← h'.order h.resolves.sorted]

lemma Resolution.outside (id : TxnID) (h : OrderedSet.Sorted StoreKey.key st.store.keys)
    (hes : ∀ k, Span.Mem k span ↔ Covers es k) :
    Resolution id [span] st { st with externalLocks := st.externalLocks ++ es } [] [] es :=
  ⟨.refl id h, by simp, rfl, by simpa [Covers] using hes, by simp [Covers], by simp, fun _ => rfl⟩

lemma Resolution.inside_range {update u : LockUpdate} {r : ResolveResult} {p : Key → Prop}
    (h : RangeResolved env update maxKeys targetBytes st.store r ds p)
    (hu : ∀ k, Span.Mem k u.span ↔ Span.Mem k update.span ∧ p k)
    (hes : ∀ k, Span.Mem k span ↔ Covers (u.span :: es) k) (hstore : st'.store = r.store)
    (hresolved : st'.resolvedLocks = st.resolvedLocks ++ [u])
    (hexternal : st'.externalLocks = st.externalLocks ++ es) :
    Resolution update.txn.id [span] st st' ds [u] es := by
  constructor
  · rw [hstore]
    exact h.resolves
  · exact hresolved
  · exact hexternal
  · simpa [Covers] using hes
  · intro k hk
    have hk := (hu k).mp (by simpa [Covers] using hk)
    rw [hstore]
    exact h.free k hk.1 hk.2
  · intro d hd
    simpa [Covers, hu] using h.inside d hd
  · intro hsorted
    simp only [resolvedIntents, map_cons, map_nil, inOrder, append_nil]
    refine h.sorted.ext ((hsorted.filter _).filter _) fun d => ?_
    rw [mem_filter, mem_ownedBy hsorted, decide_eq_true_eq, hu, h.resolves.mem_iff]
    constructor
    · rintro ⟨hd, howner, hne⟩
      exact ⟨⟨hd, howner⟩, h.inside d (h.resolves.mem_iff.mpr ⟨hd, howner, hne⟩)⟩
    · rintro ⟨⟨hd, howner⟩, hspan, hp⟩
      exact ⟨hd, howner, h.free d.key hspan hp⟩

structure Counts (env : ResolveEnv) (maxKeys targetBytes : ℤ) (ds : List StoreKey) (added : Added) :
    Prop where
  numKeys : added.numKeys = ds.length
  numBytes : added.numBytes = (ds.map env.bufferedSize).sum
  within : Within env maxKeys targetBytes ds
  reason : added.resumeReason = none ∨ Reached env maxKeys targetBytes ds added.resumeReason

lemma counts_nil (env : ResolveEnv) (maxKeys targetBytes : ℤ) :
    Counts env maxKeys targetBytes [] {} :=
  ⟨rfl, rfl, within_nil env maxKeys targetBytes, .inl rfl⟩

lemma resolveLockSpan_ok (a : Addressing) (env : ResolveEnv) (desc : RangeDesc)
    (hsorted : OrderedSet.Sorted StoreKey.key st.store.keys)
    (hlockable : ∀ k d, st.store.keyAt k = some d → d.Lockable)
    (hstatus : txn.status.isFinalized) (hmaxKeys : 0 ≤ maxKeys)
    (htargetBytes : 0 ≤ targetBytes) (h : Declared span) :
    ∃ st' added ds rs es,
      resolveLockSpan a env desc txn maxKeys targetBytes span st = .ok (st', added) ∧
      Resolution txn.id [span] st st' ds rs es ∧ Counts env maxKeys targetBytes ds added := by
  unfold resolveLockSpan
  cases hpoint : span.isPoint with
  | true =>
    simp only [Declared, hpoint, if_true] at h
    simp only [if_true]
    cases containsKey a desc span.key with
    | false =>
      exact ⟨_, _, [], [], [span], rfl, .outside txn.id hsorted (by simp [Covers]),
        counts_nil env maxKeys targetBytes⟩
    | true =>
      obtain ⟨r, ds, hr, hresume, hresolved⟩ := mvccResolveWriteIntentPoint_ok env
        (makeLockUpdate txn span) hsorted hlockable hstatus hmaxKeys htargetBytes h hpoint
      simp only [Bool.not_true, Bool.false_eq_true, if_false, hr, Except.map, hresume]
      refine ⟨_, _, ds, [makeLockUpdate txn span], [], rfl, ?_, ?_⟩
      · exact .inside_range hresolved (by simp) (by simp [Covers, makeLockUpdate]) rfl rfl (by simp)
      · exact ⟨hresolved.numKeys, hresolved.numBytes, hresolved.within, .inl rfl⟩
  | false =>
    obtain ⟨inSpan, outSpans, hintersect, hinside, hcovers⟩ := intersectSpan_ok a desc hpoint h
    simp only [hintersect, Except.bind]
    cases inSpan with
    | none =>
      exact ⟨_, _, [], [], outSpans, rfl, .outside txn.id hsorted (by simpa using hcovers),
        counts_nil env maxKeys targetBytes⟩
    | some inSpan =>
      have hrange := hinside inSpan rfl
      obtain ⟨r, ds, hr, hend⟩ := mvccResolveWriteIntentRange_ok env
        { makeLockUpdate txn span with span := inSpan } hsorted hlockable hstatus hmaxKeys
        htargetBytes hrange
      simp only [hr, Except.map]
      rcases hend with ⟨hresume, hreason, hresolved⟩ | ⟨last, hlast, hresume, hreached, hresolved⟩
      · simp only [hresume, hreason]
        refine ⟨_, _, ds, _, outSpans, rfl, .inside_range hresolved ?_ ?_ rfl rfl rfl, ?_⟩
        · simp
        · exact hcovers
        · exact ⟨hresolved.numKeys, hresolved.numBytes, hresolved.within, .inl rfl⟩
      simp only [hresume]
      obtain ⟨j, e, rfl, he⟩ := exists_range hrange
      have hnext : last.next ≠ [] := ne_nil_of_lt last.lt_next
      rw [mem_range he] at hlast
      refine ⟨_, _, ds, _, outSpans ++ [⟨last.next, some e⟩], rfl,
        .inside_range hresolved ?_ ?_ rfl rfl (by simp), ?_⟩
      · intro k
        rw [mem_range hnext, mem_range he]
        constructor
        · rintro ⟨hle, hlt⟩
          have hk := Key.le_of_lt_next hlt
          exact ⟨⟨hle, hk.trans_lt hlast.2⟩, hk⟩
        rintro ⟨⟨hle, _⟩, hk⟩
        exact ⟨hle, hk.trans_lt last.lt_next⟩
      · intro k
        have hsplit := split_range (k := k) (hlast.1.trans last.lt_next.le)
          (not_lt.mp fun hlt => (Key.le_of_lt_next hlt).not_gt hlast.2)
        rw [hcovers, Option.toList_some, ← singleton_append (x := Span.mk j (some last.next))]
        simp only [covers_append, covers_range he, covers_range hnext]
        rw [hsplit, or_assoc, @or_comm (last.next ≤ k ∧ k < e)]
      · exact ⟨hresolved.numKeys, hresolved.numBytes, hresolved.within, .inr hreached⟩

lemma limitReached_eq_none : limitReached maxKeys targetBytes = none ↔
    0 ≤ maxKeys ∧ 0 ≤ targetBytes := by
  unfold limitReached
  split_ifs <;> simp <;> omega

lemma mvccPaginate_resolveLockSpan (a : Addressing) (env : ResolveEnv) (desc : RangeDesc)
    (maxKeys targetBytes : ℤ) (added : Added) (st : LockResolution)
    (hstatus : txn.status.isFinalized) (hsorted : OrderedSet.Sorted StoreKey.key st.store.keys)
    (hlockable : ∀ k d, st.store.keyAt k = some d → d.Lockable)
    (hspans : ∀ sp ∈ spans, Declared sp) :
    ∃ st' done rest added' ds rs es, spans = done ++ rest ∧
      mvccPaginate false (resolveLockSpan a env desc txn) maxKeys targetBytes spans added st =
        .ok (st', rest, added') ∧
      Resolution txn.id done st st' ds rs es ∧ Within env maxKeys targetBytes ds ∧
      added'.numKeys = added.numKeys + ds.length := by
  induction spans generalizing st maxKeys targetBytes added with
  | nil =>
    exact ⟨st, [], [], _, [], [], [], rfl, rfl, .refl txn.id hsorted,
      within_nil env maxKeys targetBytes, by simp⟩
  | cons span spans ih =>
    rw [mvccPaginate]
    cases hlimit : limitReached maxKeys targetBytes with
    | some reason =>
      exact ⟨st, [], span :: spans, _, [], [], [], rfl, rfl, .refl txn.id hsorted,
        within_nil env maxKeys targetBytes, by simp⟩
    | none =>
      obtain ⟨hmaxKeys, htargetBytes⟩ := limitReached_eq_none.mp hlimit
      obtain ⟨st1, added1, ds1, rs1, es1, hspan, h1, hcounts⟩ :=
        resolveLockSpan_ok a env desc hsorted hlockable hstatus hmaxKeys htargetBytes
          (hspans span (.head _))
      obtain ⟨st2, done, rest, added2, ds2, rs2, es2, rfl, hrest, h2, hwithin, hnumKeys⟩ :=
        ih (remaining maxKeys ds1.length)
          (remaining targetBytes (ds1.map env.bufferedSize).sum) _ st1 h1.resolves.sorted
          (fun k d hd => h1.resolves.lockable hlockable hd)
          (fun sp hsp => hspans sp (.tail _ hsp))
      refine ⟨st2, span :: done, rest, added2, _, _, _, rfl, ?_, h1.trans h2,
        hcounts.within.append hwithin, ?_⟩
      · simp only [hspan, Except.bind,
          updateLimits_ok hcounts.numKeys hcounts.numBytes hcounts.within hcounts.reason]
        exact hrest
      rw [hnumKeys, length_append, hcounts.numKeys]
      push_cast
      omega

lemma updateAbortSpan_frame (status : TransactionStatus) (t : TxnMeta) (poison removed : Bool)
    (e : Engine) :
    let e' := if writeAbortSpanOnResolve status poison removed then updateAbortSpan t poison e
      else e
    e'.store = e.store ∧ e'.record = e.record ∧
      ∀ id, status = .committed ∨ id ≠ t.id → e'.abortSpan id = e.abortSpan id := by
  have hframe : (updateAbortSpan t poison e).store = e.store ∧
      (updateAbortSpan t poison e).record = e.record ∧
      ∀ id ≠ t.id, (updateAbortSpan t poison e).abortSpan id = e.abortSpan id := by
    unfold updateAbortSpan
    dsimp only
    split_ifs <;> simp +contextual
  split_ifs with hwrite
  · refine ⟨hframe.1, hframe.2.1, ?_⟩
    rintro id (rfl | hid)
    · simp [writeAbortSpanOnResolve] at hwrite
    · exact hframe.2.2 id hid
  · exact ⟨rfl, rfl, fun _ _ => rfl⟩

lemma record_updateFinalizedTxn (txn : Transaction) (externalLocks : List Span) {existed : Bool}
    {e : Engine} (h : existed = e.record.isSome) :
    let record := (updateFinalizedTxn txn existed externalLocks e).record
    (record = none ↔ externalLocks = []) ∧
      ∀ r, record = some r → r.lockSpans = externalLocks ∧ r.inFlightWrites = [] := by
  cases externalLocks with
  | nil => cases hr : e.record <;> simp [updateFinalizedTxn, h, hr]
  | cons sp sps =>
    refine ⟨by simp [updateFinalizedTxn], ?_⟩
    intro r hr
    cases hr
    exact ⟨rfl, rfl⟩

/-- Ending a transaction loses no lock: every declared key is resolved or external, only intents of
the transaction change, at most as many as the limits admit, in the order of the resolved spans, and
the record is kept exactly for the external spans. -/
theorem resolveLocalLocks_loses_no_lock (a : Addressing) (env : ResolveEnv) (desc : RangeDesc)
    (args : EndTxnArgs) (txn : Transaction) (maxKeys targetBytes : ℤ) (e : Engine)
    (hstatus : txn.status.isFinalized = true) (hstore : e.store.Wf)
    (htxn : ∀ d ∈ e.store.keys, ∀ m, d.metadata = some m → (m.isInline = true ↔ m.txn = none))
    (hspans : ∀ sp ∈ args.lockSpans, Declared sp) :
    ∃ e' resolvedLocks externalLocks,
      resolveLocalLocksWithPagination a env desc txn args maxKeys targetBytes e =
        .ok (e', resolvedLocks, externalLocks) ∧
      (∀ k, Covers args.lockSpans k ↔
        Covers (resolvedLocks.map LockUpdate.span) k ∨ Covers externalLocks k) ∧
      (∀ k, Covers (resolvedLocks.map LockUpdate.span) k → e'.store.ownerAt k ≠ some txn.id) ∧
      (∀ k, ¬ Covers (resolvedLocks.map LockUpdate.span) k ∨ e.store.ownerAt k ≠ some txn.id →
        e'.store.keyAt k = e.store.keyAt k) ∧
      e'.store.rangeKeys = e.store.rangeKeys ∧
      (∀ id, txn.status = .committed ∨ id ≠ txn.id → e'.abortSpan id = e.abortSpan id) ∧
      (∀ d, d ∈ resolvedIntents txn.id e.store resolvedLocks ↔ e.store.keyAt d.key = some d ∧
        d.owner = some txn.id ∧ e'.store.ownerAt d.key ≠ some txn.id) ∧
      (0 < maxKeys → (resolvedIntents txn.id e.store resolvedLocks).length ≤ maxKeys) ∧
      (0 < targetBytes →
        ((resolvedIntents txn.id e.store resolvedLocks).dropLast.map env.bufferedSize).sum <
          targetBytes) ∧
      let record := (updateFinalizedTxn txn e.record.isSome externalLocks e').record
      (record = none ↔ externalLocks = []) ∧
        ∀ r, record = some r → r.lockSpans = externalLocks ∧ r.inFlightWrites = [] := by
  have hlockable : ∀ k d, e.store.keyAt k = some d → d.Lockable := by
    intro k d hd
    have hmem := mem_of_find?_eq_some hd
    exact (hstore.keys d hmem).lockable (htxn d hmem)
  obtain ⟨st, done, rest, added, ds, rs, es, hdone, hpaginate, h, hwithin, -⟩ :=
    mvccPaginate_resolveLockSpan a env (args.mergeTrigger.getD desc) maxKeys targetBytes {}
      { store := e.store } hstatus hstore.sorted hlockable hspans
  have hframe := updateAbortSpan_frame txn.status txn.toTxnMeta args.poison
    (decide (0 < added.numKeys)) { e with store := st.store }
  obtain ⟨hstore', hrecord, habort⟩ := hframe
  rw [h.order hstore.sorted] at hwithin
  refine ⟨_, rs, es ++ rest, ?_, ?_, ?_, ?_, ?_, habort, ?_, hwithin.keys, hwithin.bytes, ?_⟩
  · simp only [resolveLocalLocksWithPagination, hpaginate, Except.map, h.resolvedLocks,
      h.externalLocks]
    rfl
  · intro k
    rw [hdone, covers_append, h.covers, covers_append, covers_append, or_assoc]
  · rw [hstore']
    exact h.free
  · intro k hk
    rw [hstore']
    apply h.resolves.same
    intro hmem
    obtain ⟨d, hd, rfl⟩ := mem_map.mp hmem
    rcases hk with hk | hk
    · exact hk (h.inside d hd)
    · exact hk (h.resolves.ownerAt_of_mem hd)
  · rw [hstore']
    exact h.resolves.rangeKeys
  · intro d
    rw [hstore', ← h.order hstore.sorted]
    exact h.resolves.mem_iff
  · exact record_updateFinalizedTxn txn (es ++ rest) (by rw [hrecord])

/-! ## Two intents -/

def twoIntents : Engine where
  store :=
    { keys := [[5], [7]].map fun k =>
        ⟨k, some { txn := some { id := 7 }, timestamp := { wallTime := 3 } },
          [⟨{ wallTime := 3 }, ⟨{}, [1]⟩⟩]⟩ }

def unitSizes : ResolveEnv := ⟨⟨fun _ => 1, fun _ => 1⟩, true, fun _ => 1⟩

def fiveToNine : RangeDesc := ⟨1, [5], [9]⟩

lemma wf_twoIntents : twoIntents.store.Wf where
  sorted := by
    apply OrderedSet.sorted_cons.mpr
    exact ⟨by decide, pairwise_singleton _ _⟩
  key_ne := by simp [twoIntents]
  keys := by
    intro d hd
    simp only [twoIntents, map_cons, map_nil, mem_cons, not_mem_nil, or_false] at hd
    rcases hd with rfl | rfl
    · exact .intent rfl rfl (by decide) (by decide)
    · exact .intent rfl rfl (by decide) (by decide)
  disjoint := List.Pairwise.nil
  fragments := by simp [twoIntents]

/-- A span that lies on both sides of the range, with a limit of one intent. -/
theorem resolveLocalLocks_loses_no_lock_twoIntents :
    ∃ e' resolvedLocks externalLocks,
      resolveLocalLocksWithPagination ⟨some, fun _ => []⟩ unitSizes fiveToNine
          { id := 7, status := .committed, writeTimestamp := { wallTime := 4 } }
          { commit := true, lockSpans := [⟨[3], some [12]⟩] } 1 0 twoIntents =
        .ok (e', resolvedLocks, externalLocks) ∧
      ∀ k, Covers [⟨[3], some [12]⟩] k ↔
        Covers (resolvedLocks.map LockUpdate.span) k ∨ Covers externalLocks k := by
  obtain ⟨e', resolvedLocks, externalLocks, h, hcovers, -⟩ :=
    resolveLocalLocks_loses_no_lock ⟨some, fun _ => []⟩ unitSizes fiveToNine
      { commit := true, lockSpans := [⟨[3], some [12]⟩] }
      { id := 7, status := .committed, writeTimestamp := { wallTime := 4 } } 1 0 twoIntents rfl
      wf_twoIntents (by simp [twoIntents, MVCCMetadata.isInline]) (by decide)
  exact ⟨e', resolvedLocks, externalLocks, h, hcovers⟩

/-- The range-local keys up to their end cannot be declared, and the abort span entry lies outside
the resolved spans. -/
theorem resolveLocalLocks_panics_and_poisons :
    (∀ k, Span.Mem k ⟨[1, 107], some localRangeMax⟩ → [1, 107] <+: k) ∧
      (resolveLocalLocksWithPagination ⟨some, fun _ => []⟩ unitSizes fiveToNine
          { id := 7, status := .committed }
          { commit := true, lockSpans := [⟨[1, 107], some localRangeMax⟩] } 0 0 twoIntents).map
        (fun r => r.2) = .error .panic ∧
      twoIntents.abortSpan 7 = none ∧
      (resolveLocalLocksWithPagination ⟨some, fun _ => []⟩ unitSizes fiveToNine
          { id := 7, status := .aborted }
          { commit := false, lockSpans := [⟨[5], none⟩], poison := true } 0 0 twoIntents).map
        (fun r => (r.1.abortSpan 7, r.2.1.map LockUpdate.span, r.2.2)) =
          .ok (some ⟨none, {}⟩, [⟨[5], none⟩], []) := by
  refine ⟨?_, rfl, rfl, rfl⟩
  intro k hk
  obtain ⟨hle, hlt⟩ := (mem_range (by decide)).mp hk
  rw [← not_lt] at hle
  rcases k with _ | ⟨b, _ | ⟨c, k⟩⟩
  · exact absurd (by decide) hle
  · simp only [localRangeMax, cons_lt_cons_iff, nil_lt_cons, and_true] at hle hlt
    exact absurd hlt hle
  simp only [localRangeMax, cons_lt_cons_iff, not_lt_nil, and_false, or_false] at hle hlt
  have hb : b = 1 := by grind
  have hc : c = 107 := by grind
  simp [hb, hc]

end MeshDB.Batcheval
