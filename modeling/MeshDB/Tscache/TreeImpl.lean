import MeshDB.Lib.Reachability
import MeshDB.Roachpb.MergeSpans
import MeshDB.Tscache.CacheValue

/-!
# The timestamp cache in an interval tree

The cache has disjoint ranges of keys with their values. `Add` goes along the ranges that overlap
the new one, and cuts them or the new range down to where each has the larger value.
-/
open List Option
namespace MeshDB.Tscache.TreeImpl

open Roachpb Hlc

structure Range where
  start : Key
  stop : Key
deriving DecidableEq

structure Entry extends Range where
  value : CacheValue
deriving DecidableEq

/-- `GetOverlaps`, in the order of the tree. An inverted range overlaps the entries around it. -/
def getOverlaps (cache : List Entry) (r : Range) : List Entry :=
  (cache.filter fun e => e.start < r.stop ∧ r.start < e.stop).insertionSort
    fun a b => a.start ≤ b.start

/-- What becomes of an entry, with the entries that are added, and the range that is left to be
added for a transaction, if any. -/
abbrev Round := List Entry × Option (Range × TxnID)

/-- The case of an entry with a lower timestamp. -/
def addOverOlder (w : CacheValue) (r : Range) (e : Entry) : Option Round :=
  if r.start = e.start ∧ r.stop = e.stop then some ([{ e with value := w }], none)
  else if r.start ≤ e.start ∧ e.stop ≤ r.stop then some ([], some (r, w.txnID))
  else if e.start < r.start ∧ r.stop < e.stop then
    some ([{ e with stop := r.start }, { e with start := r.stop }], some (r, w.txnID))
  else if e.stop ≤ r.stop then some ([{ e with stop := r.start }], some (r, w.txnID))
  else if r.start ≤ e.start then some ([{ e with start := r.stop }], some (r, w.txnID))
  else none

/-- The case of an entry with a higher timestamp. -/
def addOverNewer (w : CacheValue) (r : Range) (e : Entry) : Option Round :=
  if e.start ≤ r.start ∧ r.stop ≤ e.stop then some ([e], none)
  else if r.start < e.start ∧ e.stop < r.stop then
    some ([⟨⟨r.start, e.start⟩, w⟩, e], some (⟨e.stop, r.stop⟩, w.txnID))
  else if e.stop < r.stop then some ([e], some (⟨e.stop, r.stop⟩, w.txnID))
  else if r.start < e.start then some ([e], some (⟨r.start, e.start⟩, w.txnID))
  else none

/-- The case of an equal timestamp of the same transaction. -/
def addOverSame (w : CacheValue) (r : Range) (e : Entry) : Option Round :=
  if e.start ≤ r.start ∧ r.stop ≤ e.stop then some ([e], none)
  else if r.start ≤ e.start ∧ e.stop ≤ r.stop then some ([], some (r, w.txnID))
  else if e.stop ≤ r.stop then some ([{ e with stop := r.start }], some (r, w.txnID))
  else if r.start ≤ e.start then some ([{ e with start := r.stop }], some (r, w.txnID))
  else none

/-- The case of an equal timestamp of another transaction that is not all in the new range. -/
def addOverOtherPart (w : CacheValue) (r : Range) (e : Entry) : Option Round :=
  if e.start < r.start ∧ r.stop < e.stop then
    some ([{ e with stop := r.start }, { e with start := r.stop }], some (r, noTxnID))
  else if r.stop = e.stop then some ([{ e with stop := r.start }], some (r, noTxnID))
  else if r.start = e.start then some ([{ e with start := r.stop }], some (r, noTxnID))
  else if e.stop < r.stop then
    some ([{ e with stop := r.start }, ⟨⟨r.start, e.stop⟩, e.value.ts, noTxnID⟩],
      some (⟨e.stop, r.stop⟩, w.txnID))
  else if r.start < e.start then
    some ([{ e with start := r.stop }, ⟨⟨e.start, r.stop⟩, e.value.ts, noTxnID⟩],
      some (⟨r.start, e.start⟩, w.txnID))
  else none

/-- The case of an equal timestamp of another transaction, where no one owns the overlap. -/
def addOverOther (w : CacheValue) (r : Range) (e : Entry) : Option Round :=
  if r.start = e.start ∧ r.stop = e.stop then some ([⟨e.toRange, e.value.ts, noTxnID⟩], none)
  else if r.start = e.start ∧ e.stop < r.stop then
    some ([⟨e.toRange, e.value.ts, noTxnID⟩], some (⟨e.stop, r.stop⟩, w.txnID))
  else if r.start < e.start ∧ r.stop = e.stop then
    some ([⟨e.toRange, e.value.ts, noTxnID⟩], some (⟨r.start, e.start⟩, w.txnID))
  else if r.start < e.start ∧ e.stop < r.stop then
    some ([⟨e.toRange, e.value.ts, noTxnID⟩, ⟨⟨r.start, e.start⟩, w⟩],
      some (⟨e.stop, r.stop⟩, w.txnID))
  else addOverOtherPart w r e

/-- A round of the loop of `Add`; `none` is a panic. -/
def addRound (w : CacheValue) (r : Range) (e : Entry) : Option Round :=
  if e.value.ts.less w.ts then addOverOlder w r e
  else if w.ts.less e.value.ts then addOverNewer w r e
  else if e.value.txnID = w.txnID then addOverSame w r e
  else addOverOther w r e

structure Addition where
  start : Key
  stop : Key
  ts : Timestamp
  txnID : TxnID
deriving DecidableEq

/-- The range from a key to an end, which is left out for the key alone. -/
def Range.of (start stop : Key) : Range := ⟨start, if stop.length = 0 then start.next else stop⟩

def Addition.range (a : Addition) : Range := .of a.start a.stop

def Addition.value (a : Addition) : CacheValue := ⟨a.ts, a.txnID⟩

end TreeImpl

open Roachpb Hlc TreeImpl

structure TreeImpl where
  cache : List TreeImpl.Entry := []
  lowWater : Timestamp
  latest : Timestamp
deriving DecidableEq

namespace TreeImpl

def clear (lowWater : Timestamp) : TreeImpl := ⟨[], lowWater, lowWater⟩

/-- A round of the loop of `getMax`. -/
def nextMax (m : CacheValue) (e : Entry) : CacheValue :=
  if m.ts.less e.value.ts then e.value
  else if m.ts = e.value.ts ∧ m.txnID ≠ e.value.txnID then { m with txnID := noTxnID }
  else m

def getMax (tc : TreeImpl) (start stop : Key) : CacheValue :=
  (getOverlaps tc.cache (.of start stop)).foldl nextMax ⟨tc.lowWater, noTxnID⟩

/-- A maximum of the low water mark and the entries; the ones that meet it belong to its owner. -/
structure Owns (lowWater : Timestamp) (es : List Entry) (m : CacheValue) : Prop where
  mem : m.ts ∈ lowWater :: es.map (·.value.ts)
  le : ∀ t ∈ lowWater :: es.map (·.value.ts), t.ord ≤ m.ts.ord
  owner : m.txnID ≠ noTxnID → lowWater.ord < m.ts.ord ∧
    ∀ e ∈ es, e.value.ts.ord = m.ts.ord → e.value.txnID = m.txnID

/-- The cache, and what is left of the `Add` that holds its lock. -/
structure Locked where
  tc : TreeImpl
  adding : Option (List Entry × Range × CacheValue) := none
deriving DecidableEq

inductive Action where
  | add (a : Addition)
  | round
  | evict (e : Entry) (raise : Bool)
deriving DecidableEq

/-- A step of an `Add` or an eviction. The sizes and the queue of the entries are not modelled: any
entry may go when one is added, with the low water mark raised to it or not. -/
def Locked.step : Locked → Action → Option Locked
  | ⟨tc, none⟩, .add a => some ⟨{ tc with latest := tc.latest.forward a.ts },
    if tc.lowWater.less a.ts then some (getOverlaps tc.cache a.range, a.range, a.value) else none⟩
  | ⟨tc, some (e :: es, r, w)⟩, .round => (addRound w r e).map fun (pieces, next) =>
    ⟨{ tc with cache := pieces ++ tc.cache.filter (· ≠ e) },
      next.map fun (r, txnID) => (es, r, ⟨w.ts, txnID⟩)⟩
  | ⟨tc, some ([], r, w)⟩, .round =>
    if r.start < r.stop then some ⟨{ tc with cache := ⟨r, w⟩ :: tc.cache }, none⟩ else none
  | ⟨tc, adding⟩, .evict e raise =>
    if e ∈ tc.cache then
      some ⟨⟨tc.cache.filter (· ≠ e), if raise then e.value.ts else tc.lowWater, tc.latest⟩, adding⟩
    else none
  | _, _ => none

/-- No timestamp is a synthetic one. -/
structure Locked.Plain (s : Locked) : Prop where
  lowWater : s.tc.lowWater.synthetic = false
  cache : ∀ e ∈ s.tc.cache, e.value.ts.synthetic = false
  adding : ∀ es r w, s.adding = some (es, r, w) →
    w.ts.synthetic = false ∧ ∀ e ∈ es, e.value.ts.synthetic = false

def Action.Plain : Action → Prop
  | .add a => a.ts.synthetic = false
  | _ => True

lemma mem_of_mem_getOverlaps {cache : List Entry} {r : Range} {e : Entry}
    (h : e ∈ getOverlaps cache r) : e ∈ cache :=
  (mem_filter.mp ((perm_insertionSort _ _).mem_iff.mp h)).1

lemma addRound_ts {w : CacheValue} {r : Range} {e p : Entry} {round : Round}
    (h : addRound w r e = some round) (hp : p ∈ round.1) :
    p.value.ts = e.value.ts ∨ p.value.ts = w.ts := by
  unfold addRound at h
  split_ifs at h
  on_goal 1 => unfold addOverOlder at h
  on_goal 2 => unfold addOverNewer at h
  on_goal 3 => unfold addOverSame at h
  on_goal 4 => unfold addOverOther addOverOtherPart at h
  all_goals split_ifs at h <;> cases h <;> grind

lemma Locked.Plain.step {s s' : Locked} {a : Action} (h : s.Plain) (ha : a.Plain)
    (hstep : s.step a = some s') : s'.Plain := by
  obtain ⟨hlow, hcache, hadding⟩ := h
  unfold Locked.step at hstep
  split at hstep
  · cases hstep
    refine ⟨hlow, hcache, fun es r w heq => ?_⟩
    cases (ite_none_right_eq_some.mp heq).2
    exact ⟨ha, fun e he => hcache e (mem_of_mem_getOverlaps he)⟩
  · obtain ⟨⟨pieces, next⟩, hround, rfl⟩ := map_eq_some_iff.mp hstep
    obtain ⟨hw, hes⟩ := hadding _ _ _ rfl
    refine ⟨hlow, fun p hp => ?_, fun es r w heq => ?_⟩
    · rcases mem_append.mp hp with hp | hp
      · rcases addRound_ts hround hp with heq | heq
        · rw [heq]
          exact hes _ (.head _)
        · rwa [heq]
      · exact hcache p (mem_filter.mp hp).1
    obtain ⟨n, rfl, heq⟩ := map_eq_some_iff.mp heq
    cases heq
    exact ⟨hw, fun e he => hes e (.tail _ he)⟩
  · cases (ite_none_right_eq_some.mp hstep).2
    exact ⟨hlow, forall_mem_cons.mpr ⟨(hadding _ _ _ rfl).1, hcache⟩, by simp⟩
  · obtain ⟨he, hstep⟩ := ite_none_right_eq_some.mp hstep
    cases hstep
    refine ⟨?_, fun e he => hcache e (mem_filter.mp he).1, hadding⟩
    split_ifs
    · exact hcache _ he
    · exact hlow
  · cases hstep

lemma Owns.next {lowWater : Timestamp} {es : List Entry} {m : CacheValue} {e : Entry}
    (h : Owns lowWater es m) (hsyn : m.ts.synthetic = e.value.ts.synthetic) :
    Owns lowWater (es ++ [e]) (nextMax m e) := by
  obtain ⟨hmem, hle, howner⟩ := h
  have hes : ∀ x ∈ es, x.value.ts.ord ≤ m.ts.ord := fun x hx =>
    hle _ (.tail _ (List.mem_map.mpr ⟨x, hx, rfl⟩))
  unfold nextMax
  split_ifs with hless heq
  · have hlt := Timestamp.less_iff.mp hless
    constructor <;> grind
  · constructor <;> grind
  have hge := Timestamp.not_less_iff.mp (Bool.not_eq_true _ ▸ hless)
  have hts : m.ts.ord = e.value.ts.ord → m.ts = e.value.ts := fun h => CacheValue.ts_eq_of h hsyn
  constructor <;> grind

lemma owns_foldl {lowWater : Timestamp} {es done : List Entry} {m : CacheValue}
    (h : Owns lowWater done m) (hm : m.ts.synthetic = false)
    (hes : ∀ e ∈ es, e.value.ts.synthetic = false) :
    Owns lowWater (done ++ es) (es.foldl nextMax m) := by
  induction es generalizing done m with
  | nil => rwa [append_nil]
  | cons e es ih =>
    obtain ⟨he, hes⟩ := forall_mem_cons.mp hes
    rw [append_cons]
    refine ih (h.next (hm.trans he.symm)) ?_ hes
    unfold nextMax
    split_ifs <;> assumption

/-- As long as no synthetic timestamp is added, `getMax` returns the maximum, and an owner only of
a maximum above the low water mark that all entries which meet it belong to. -/
theorem getMax_owns {lowWater : Timestamp} {s : Locked} (hlow : lowWater.synthetic = false)
    (hs : Transition.Reachable Locked.step (fun _ a => a.Plain) ⟨clear lowWater, none⟩ s)
    (start stop : Key) :
    Owns s.tc.lowWater (getOverlaps s.tc.cache (.of start stop)) (s.tc.getMax start stop) := by
  have hplain : s.Plain := hs.invariant ⟨hlow, by simp [clear], by simp⟩
    fun _ _ _ _ h ha hstep => h.step ha hstep
  have hinit : Owns s.tc.lowWater [] ⟨s.tc.lowWater, noTxnID⟩ :=
    ⟨.head _, by simp, fun h => absurd rfl h⟩
  exact owns_foldl hinit hplain.lowWater fun e he => hplain.cache e (mem_of_mem_getOverlaps he)

theorem getMax_owns_evicted : ∃ s, Transition.Reachable Locked.step (fun _ a => a.Plain)
    ⟨clear {}, none⟩ s ∧ s.tc.lowWater = ⟨5, 0, false⟩ ∧
    Owns s.tc.lowWater (getOverlaps s.tc.cache (.of [1] [4])) (s.tc.getMax [1] [4]) := by
  obtain ⟨s, hs, hlow⟩ := @Transition.exists_reachable_of_run _ _ Locked.step
    (fun _ a => a.Plain) ⟨clear {}, none⟩
    [.add ⟨[1], [2], ⟨5, 0, false⟩, 1⟩, .round, .add ⟨[2], [3], ⟨7, 0, false⟩, 2⟩, .round,
      .evict ⟨⟨[1], [2]⟩, ⟨5, 0, false⟩, 1⟩ true] (by simp [Action.Plain])
    (fun s => s.tc.lowWater = ⟨5, 0, false⟩) (by decide)
  exact ⟨s, hs, of_decide_eq_true hlow, getMax_owns rfl hs [1] [4]⟩

/-- Two reads at one time, of which one is synthetic, take neither branch of the loop. -/
theorem getMax_synthetic_tie : ∃ s, Transition.Reachable Locked.step Transition.anyStep
    ⟨clear {}, none⟩ s ∧ s.adding = none ∧
    ¬ Owns s.tc.lowWater (getOverlaps s.tc.cache (.of [1] [3])) (s.tc.getMax [1] [3]) := by
  obtain ⟨s, hs, heq⟩ := @Transition.exists_reachable_of_run _ _ Locked.step Transition.anyStep
    ⟨clear {}, none⟩
    [.add ⟨[1], [2], ⟨5, 0, false⟩, 1⟩, .round, .add ⟨[2], [3], ⟨5, 0, true⟩, 2⟩, .round]
    (fun _ _ _ => trivial)
    (fun s => s = ⟨⟨[⟨⟨[2], [3]⟩, ⟨5, 0, true⟩, 2⟩, ⟨⟨[1], [2]⟩, ⟨5, 0, false⟩, 1⟩], {},
      ⟨5, 0, false⟩⟩, none⟩) (by decide)
  cases of_decide_eq_true heq
  refine ⟨_, hs, rfl, fun h => ?_⟩
  have howner := (h.owner (by decide)).2 ⟨⟨[2], [3]⟩, ⟨5, 0, true⟩, 2⟩ (by decide) (by decide)
  exact absurd howner (by decide)

end TreeImpl
end MeshDB.Tscache
