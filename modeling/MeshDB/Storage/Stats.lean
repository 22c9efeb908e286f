import Mathlib.Data.BitVec
import Mathlib.Tactic.Abel
import MeshDB.Storage.EngineKey
import MeshDB.Storage.StoreIteration

/-!
# MVCC statistics

`enginepb.MVCCStats`: counts and sizes of the keys of a range, with two ages that grow with time.
All operations age their arguments to one time first. Seen at one fixed time, statistics are added
as their counters are.
-/
namespace MeshDB.Storage

open Roachpb

/-- The counters, without those of the abort span. -/
@[ext] structure Counts (R : Type := ℤ) [CommRing R] where
  containsEstimates : R := 0
  intentAge : R := 0
  gcBytesAge : R := 0
  liveBytes : R := 0
  liveCount : R := 0
  keyBytes : R := 0
  keyCount : R := 0
  valBytes : R := 0
  valCount : R := 0
  intentBytes : R := 0
  intentCount : R := 0
  separatedIntentCount : R := 0
  rangeKeyCount : R := 0
  rangeKeyBytes : R := 0
  rangeValCount : R := 0
  rangeValBytes : R := 0
  sysBytes : R := 0
  sysCount : R := 0
deriving DecidableEq

namespace Counts

variable {R : Type} [CommRing R]

def zipWith (f : R → R → R) (c d : Counts R) : Counts R where
  containsEstimates := f c.containsEstimates d.containsEstimates
  intentAge := f c.intentAge d.intentAge
  gcBytesAge := f c.gcBytesAge d.gcBytesAge
  liveBytes := f c.liveBytes d.liveBytes
  liveCount := f c.liveCount d.liveCount
  keyBytes := f c.keyBytes d.keyBytes
  keyCount := f c.keyCount d.keyCount
  valBytes := f c.valBytes d.valBytes
  valCount := f c.valCount d.valCount
  intentBytes := f c.intentBytes d.intentBytes
  intentCount := f c.intentCount d.intentCount
  separatedIntentCount := f c.separatedIntentCount d.separatedIntentCount
  rangeKeyCount := f c.rangeKeyCount d.rangeKeyCount
  rangeKeyBytes := f c.rangeKeyBytes d.rangeKeyBytes
  rangeValCount := f c.rangeValCount d.rangeValCount
  rangeValBytes := f c.rangeValBytes d.rangeValBytes
  sysBytes := f c.sysBytes d.sysBytes
  sysCount := f c.sysCount d.sysCount

instance : Zero (Counts R) := ⟨{}⟩

instance : Add (Counts R) := ⟨zipWith (· + ·)⟩

instance : Neg (Counts R) := ⟨fun c => zipWith (fun _ x => -x) c c⟩

instance : Sub (Counts R) := ⟨zipWith (· - ·)⟩

lemma zero_def : (0 : Counts R) = {} := rfl

lemma add_def (c d : Counts R) : c + d = zipWith (· + ·) c d := rfl

lemma neg_def (c : Counts R) : -c = zipWith (fun _ x => -x) c c := rfl

lemma sub_def (c d : Counts R) : c - d = zipWith (· - ·) c d := rfl

instance : AddCommGroup (Counts R) where
  add_assoc c d e := by ext <;> simp [add_def, zipWith, add_assoc]
  zero_add c := by ext <;> simp [add_def, zero_def, zipWith]
  add_zero c := by ext <;> simp [add_def, zero_def, zipWith]
  add_comm c d := by ext <;> simp [add_def, zipWith, add_comm]
  neg_add_cancel c := by ext <;> simp [add_def, neg_def, zero_def, zipWith]
  sub_eq_add_neg c d := by ext <;> simp [add_def, neg_def, sub_def, zipWith, sub_eq_add_neg]
  nsmul := nsmulRec
  zsmul := zsmulRec

/-- The bytes not live. -/
def gcBytes (c : Counts R) : R :=
  c.keyBytes + c.valBytes + c.rangeKeyBytes + c.rangeValBytes - c.liveBytes

/-- What the two ages gain in so many seconds. -/
def aging (c : Counts R) (seconds : ℤ) : Counts R where
  intentAge := c.intentCount * seconds
  gcBytesAge := c.gcBytes * seconds

def aged (c : Counts R) (seconds : ℤ) : Counts R := c + c.aging seconds

variable (c d : Counts R) (s t : ℤ)

lemma aging_add : (c + d).aging s = c.aging s + d.aging s := by
  ext <;> simp [aging, gcBytes, add_def, zipWith] <;> ring

lemma aging_aging : (c.aging s).aging t = 0 := by
  ext <;> simp [aging, gcBytes, zero_def]

lemma aging_add_seconds : c.aging (s + t) = c.aging s + c.aging t := by
  ext <;> simp [aging, add_def, zipWith, mul_add]

lemma aging_neg : (-c).aging s = -c.aging s := by
  ext <;> simp [aging, gcBytes, neg_def, zipWith]
  ring

@[simp] lemma aging_zero : c.aging 0 = 0 := by
  ext <;> simp [aging, zero_def]

lemma aged_add : (c + d).aged s = c.aged s + d.aged s := by
  rw [aged, aged, aged, aging_add]
  abel

lemma aged_neg : (-c).aged s = -c.aged s := by
  rw [aged, aged, aging_neg]
  abel

lemma aged_aged : (c.aged s).aged t = c.aged (s + t) := by
  rw [aged, aged, aged, aging_add, aging_aging, aging_add_seconds]
  abel

@[simp] lemma zero_aged : (0 : Counts R).aged s = 0 := by
  ext <;> simp [aged, aging, gcBytes, add_def, zero_def, zipWith]

end Counts

/-- The whole seconds of a wall time, by the division of the language, towards zero. -/
def seconds (nanos : ℤ) : ℤ := nanos.tdiv 1000000000

/-- Statistics valid at a time. -/
structure MVCCStats (R : Type := ℤ) [CommRing R] where
  lastUpdateNanos : ℤ := 0
  counts : Counts R := {}
deriving DecidableEq

namespace MVCCStats

variable {R : Type} [CommRing R]

/-- `AgeTo`: seconds are counted where the wall time crosses the boundary of a second. -/
def ageTo (ms : MVCCStats R) (nowNanos : ℤ) : MVCCStats R :=
  ⟨nowNanos, ms.counts.aged (seconds nowNanos - seconds ms.lastUpdateNanos)⟩

/-- Time never goes back. -/
def forward (ms : MVCCStats R) (nowNanos : ℤ) : MVCCStats R :=
  if nowNanos ≤ ms.lastUpdateNanos then ms else ms.ageTo nowNanos

def plus (ms : MVCCStats R) (c : Counts R) : MVCCStats R := { ms with counts := ms.counts + c }

/-- Both sides are moved to the later time. -/
def add (ms oms : MVCCStats R) : MVCCStats R :=
  (ms.forward oms.lastUpdateNanos).plus
    (oms.forward (ms.forward oms.lastUpdateNanos).lastUpdateNanos).counts

/-- Both sides are moved to the later time. -/
def subtract (ms oms : MVCCStats R) : MVCCStats R :=
  (ms.forward oms.lastUpdateNanos).plus
    (-(oms.forward (ms.forward oms.lastUpdateNanos).lastUpdateNanos).counts)

/-- The counts as they stand at a time. -/
def countsAt (ms : MVCCStats R) (nowNanos : ℤ) : Counts R := (ms.ageTo nowNanos).counts

variable (ms oms : MVCCStats R) (t now : ℤ) (c : Counts R)

lemma countsAt_def : ms.countsAt now =
    ms.counts.aged (seconds now - seconds ms.lastUpdateNanos) := rfl

@[simp] lemma countsAt_ageTo : (ms.ageTo t).countsAt now = ms.countsAt now := by
  rw [countsAt_def, countsAt_def, ageTo, Counts.aged_aged]
  congr 1
  ring

@[simp] lemma countsAt_forward : (ms.forward t).countsAt now = ms.countsAt now := by
  unfold forward
  split_ifs
  · rfl
  · exact countsAt_ageTo ms t now

@[simp] lemma countsAt_empty : ({} : MVCCStats R).countsAt now = 0 := by
  exact Counts.zero_aged _

lemma countsAt_plus : (ms.plus c).countsAt now =
    ms.countsAt now + c.aged (seconds now - seconds ms.lastUpdateNanos) := by
  rw [countsAt_def, countsAt_def, plus, Counts.aged_add]

lemma lastUpdateNanos_forward :
    (oms.forward (ms.forward oms.lastUpdateNanos).lastUpdateNanos).lastUpdateNanos =
      (ms.forward oms.lastUpdateNanos).lastUpdateNanos := by
  by_cases hle : oms.lastUpdateNanos ≤ ms.lastUpdateNanos
  · have hms : ms.forward oms.lastUpdateNanos = ms := if_pos hle
    unfold forward
    split_ifs with hle'
    · omega
    · rfl
  have hms : ms.forward oms.lastUpdateNanos = ms.ageTo oms.lastUpdateNanos := if_neg hle
  rw [hms]
  have homs : oms.forward (ms.ageTo oms.lastUpdateNanos).lastUpdateNanos = oms := if_pos le_rfl
  rw [homs]
  rfl

lemma aged_forward :
    (oms.forward (ms.forward oms.lastUpdateNanos).lastUpdateNanos).counts.aged
        (seconds now - seconds (ms.forward oms.lastUpdateNanos).lastUpdateNanos) =
      oms.countsAt now := by
  have hforward := countsAt_forward oms (ms.forward oms.lastUpdateNanos).lastUpdateNanos now
  rw [countsAt_def, lastUpdateNanos_forward] at hforward
  exact hforward

lemma countsAt_add : (ms.add oms).countsAt now = ms.countsAt now + oms.countsAt now := by
  rw [add, countsAt_plus, countsAt_forward, aged_forward]

lemma countsAt_subtract :
    (ms.subtract oms).countsAt now = ms.countsAt now - oms.countsAt now := by
  rw [subtract, countsAt_plus, countsAt_forward, Counts.aged_neg, aged_forward, sub_eq_add_neg]

lemma lastUpdateNanos_forward_eq : (ms.forward t).lastUpdateNanos = max ms.lastUpdateNanos t := by
  unfold forward
  split_ifs with hle
  · exact (max_eq_left hle).symm
  · exact (max_eq_right (not_le.mp hle).le).symm

lemma lastUpdateNanos_add :
    (ms.add oms).lastUpdateNanos = max ms.lastUpdateNanos oms.lastUpdateNanos :=
  lastUpdateNanos_forward_eq ms _

/-- Statistics for one time are the same if they are so at any time. -/
lemma ext_countsAt {ms oms : MVCCStats R} (hlast : ms.lastUpdateNanos = oms.lastUpdateNanos)
    (hcounts : ∀ now, ms.countsAt now = oms.countsAt now) : ms = oms := by
  have hself : ∀ ms : MVCCStats R, ms.countsAt ms.lastUpdateNanos = ms.counts := by
    intro ms
    simp [countsAt_def, Counts.aged]
  have hnow := hcounts ms.lastUpdateNanos
  rw [hself, hlast, hself] at hnow
  cases ms
  cases oms
  congr

lemma add_comm' : ms.add oms = oms.add ms := by
  apply ext_countsAt
  · rw [lastUpdateNanos_add, lastUpdateNanos_add, max_comm]
  intro now
  rw [countsAt_add, countsAt_add, add_comm]

lemma add_assoc' (o : MVCCStats R) : (ms.add oms).add o = ms.add (oms.add o) := by
  apply ext_countsAt
  · simp only [lastUpdateNanos_add, max_assoc]
  intro now
  simp only [countsAt_add, add_assoc]

lemma ageTo_ageTo (t' : ℤ) : (ms.ageTo t).ageTo t' = ms.ageTo t' := by
  apply ext_countsAt
  · rfl
  intro now
  simp only [countsAt_ageTo]

lemma subtract_add : (ms.add oms).subtract oms = ms.forward oms.lastUpdateNanos := by
  apply ext_countsAt
  · have hsub : ((ms.add oms).subtract oms).lastUpdateNanos =
        max (ms.add oms).lastUpdateNanos oms.lastUpdateNanos := lastUpdateNanos_forward_eq _ _
    rw [hsub, lastUpdateNanos_add, lastUpdateNanos_forward_eq, max_assoc, max_self]
  intro now
  rw [countsAt_subtract, countsAt_add, countsAt_forward, add_sub_cancel_right]

end MVCCStats

/-- All counters, in 64-bit arithmetic that wraps around. -/
structure MVCCStats64 where
  stats : MVCCStats (BitVec 64) := {}
  abortSpanBytes : BitVec 64 := 0

namespace MVCCStats64

def ageTo (ms : MVCCStats64) (nowNanos : ℤ) : MVCCStats64 :=
  { ms with stats := ms.stats.ageTo nowNanos }

def forward (ms : MVCCStats64) (nowNanos : ℤ) : MVCCStats64 :=
  { ms with stats := ms.stats.forward nowNanos }

def add (ms oms : MVCCStats64) : MVCCStats64 :=
  ⟨ms.stats.add oms.stats, ms.abortSpanBytes + oms.abortSpanBytes⟩

def subtract (ms oms : MVCCStats64) : MVCCStats64 :=
  ⟨ms.stats.subtract oms.stats, ms.abortSpanBytes - oms.abortSpanBytes⟩

lemma add_add_comm (a b c : MVCCStats64) : (a.add b).add c = (a.add c).add b := by
  unfold add
  rw [MVCCStats.add_assoc', MVCCStats.add_comm' b.stats, ← MVCCStats.add_assoc', add_right_comm]

/-- Statistics are added in any order, aged over any times, and what was added can be
subtracted. -/
theorem mvccStats_order_independent (a b c : MVCCStats64) (t₁ t₂ : ℤ) :
    a.add b = b.add a ∧ (a.add b).add c = a.add (b.add c) ∧ (a.ageTo t₁).ageTo t₂ = a.ageTo t₂ ∧
      (a.add b).subtract b = a.forward b.stats.lastUpdateNanos ∧
      ∀ ds ds' : List MVCCStats64, ds.Perm ds' → ds.foldl add a = ds'.foldl add a := by
  refine ⟨?_, ?_, ?_, ?_, fun ds ds' hperm => ?_⟩
  · unfold add
    rw [MVCCStats.add_comm', add_comm]
  · unfold add
    rw [MVCCStats.add_assoc', add_assoc]
  · unfold ageTo
    rw [MVCCStats.ageTo_ageTo]
  · unfold add subtract forward
    rw [MVCCStats.subtract_add, add_sub_cancel_right]
  · have : RightCommutative add := ⟨add_add_comm⟩
    exact hperm.foldl_eq a

theorem mvccStats_order_independent_swap :
    [⟨⟨3000000000, { liveBytes := 5 }⟩, 7⟩, ⟨⟨9, { keyBytes := 4 }⟩, 1⟩].foldl add {} =
      [⟨⟨9, { keyBytes := 4 }⟩, 1⟩, ⟨⟨3000000000, { liveBytes := 5 }⟩, 7⟩].foldl add {} :=
  (mvccStats_order_independent {} {} {} 0 0).2.2.2.2 _ _ (.swap _ _ _)

end MVCCStats64

/-! ## Sizes -/

def localMax : Key := [2]

/-- Below the first global key. -/
def isSysLocal (key : Key) : Bool := decide (key < localMax)

def encodedMVCCKeyPrefixLength (key : Key) : ℤ := key.length + 1

/-!
## Recomputing statistics

`computeStatsForIterWithVisitors`: one pass over the points and range keys of an engine. The
result is the sum of one entry for every key, every version, which is live or ages from its
deletion, and every version of a fragment of range keys.
-/

open Hlc List

/-- The encoded lengths, which the counts depend on. -/
structure Sizes where
  value : MVCCValue → ℤ
  metadata : MVCCMetadata → ℤ

def encodedMVCCTimestampSuffixLength (ts : Timestamp) : ℤ :=
  if encodedMVCCTimestampLength ts = 0 then 0
  else encodedMVCCTimestampLength ts + mvccEncodedTimeLengthLen

/-- The metadata of a key does not have the size of its provisional value. -/
inductive StatsError where
  | keyBytes (got : ℤ)
  | valBytes (expected got : ℤ)
  | bareRangeKey
deriving DecidableEq

/-- The loop state of `ComputeStatsForIter`. -/
structure StatsState where
  counts : Counts := 0
  metadata : MVCCMetadata := {}
  prevKey : Key := []
  first : Bool := false
  accrueGCAgeNanos : ℤ := 0
deriving DecidableEq

section
variable (sizes : Sizes) (nowNanos : ℤ)

/-- The garbage age of bytes dead since `wallTime`. -/
def ageSince (bytes wallTime : ℤ) : Counts where
  gcBytesAge := bytes * (seconds nowNanos - seconds wallTime)

/-- One version of a fragment, of which the first one has the bounds. -/
def rangeVersionCounts (bounds : ℤ) (v : Version) : Counts :=
  let keyBytes := encodedMVCCTimestampSuffixLength v.timestamp + bounds
  let valBytes := sizes.value v.value
  ({ rangeKeyBytes := keyBytes, rangeValCount := 1, rangeValBytes := valBytes } : Counts) +
    ageSince nowNanos (keyBytes + valBytes) v.timestamp.wallTime

def boundsLength (r : RangeKeyStack) : ℤ :=
  encodedMVCCKeyPrefixLength r.key + encodedMVCCKeyPrefixLength r.endKey

/-- What one range key stack counts for. -/
def rangeCounts (r : RangeKeyStack) : Counts :=
  match r.versions with
  | [] => 0
  | v :: rest =>
    ({ rangeKeyCount := 1 } : Counts) + rangeVersionCounts sizes nowNanos (boundsLength r) v +
      (rest.map (rangeVersionCounts sizes nowNanos 0)).sum

/-- The stack is counted where it starts. -/
def onRangeKeyChanged (st : StatsState) (stack : Option RangeKeyStack) : StatsState :=
  match stack with
  | some r => { st with counts := st.counts + rangeCounts sizes nowNanos r }
  | none => st

/-- The oldest range tombstone not below `ts`. -/
def nextRangeTombstone (rangeTombstones : List Version) (ts : Timestamp) : Timestamp :=
  match rangeTombstones with
  | [] => {}
  | newest :: _ =>
    if ts.lessEq newest.timestamp then
      match firstAtOrAbove rangeTombstones ts with
      | some v => v.timestamp
      | none => {}
    else {}

/-- The age of the first version of a key, which can be live. -/
def firstAge (m : MVCCMetadata) (next : Timestamp) (bytes : ℤ) (live : Counts) : Counts :=
  if m.deleted then ageSince nowNanos bytes m.timestamp.wallTime
  else if !next.isEmpty then ageSince nowNanos bytes next.wallTime
  else live

/-- The bytes of a key's metadata. -/
def metaBytes (key : Key) (metaValSize : ℤ) (inline : Bool) : Counts where
  keyBytes := key.length + 1
  valBytes := metaValSize
  keyCount := 1
  valCount := if inline then 1 else 0

/-- The metadata record, live or dead with its first version. -/
def metaCounts (key : Key) (m : MVCCMetadata) (next : Timestamp) (metaValSize : ℤ) : Counts :=
  let totalBytes : ℤ := key.length + 1 + metaValSize
  if isSysLocal key then { sysBytes := totalBytes, sysCount := 1 }
  else
    firstAge nowNanos m next totalBytes { liveBytes := totalBytes, liveCount := 1 } +
      metaBytes key metaValSize m.isInline

/-- What an intent counts for. -/
def intentCounts (m : MVCCMetadata) (totalBytes : ℤ) : Counts :=
  if m.txn.isSome then
    { intentBytes := totalBytes, intentCount := 1, separatedIntentCount := 1,
      intentAge := seconds nowNanos - seconds m.timestamp.wallTime }
  else 0

def versionBytes (valueLen : ℤ) : Counts where
  keyBytes := mvccVersionTimestampSize
  valBytes := valueLen
  valCount := 1

/-- A version below the first one of its key. -/
def onVersion (st : StatsState) (key : Key) (v : Version) (next : Timestamp) :
    Except StatsError StatsState :=
  let valueLen := sizes.value v.value
  let totalBytes := valueLen + mvccVersionTimestampSize
  if isSysLocal key then .ok { st with counts := st.counts + { sysBytes := totalBytes } }
  else if st.first then
    if st.metadata.keyBytes ≠ mvccVersionTimestampSize then .error (.keyBytes st.metadata.keyBytes)
    else if st.metadata.valBytes ≠ valueLen then .error (.valBytes valueLen st.metadata.valBytes)
    else .ok { st with
      counts := st.counts + firstAge nowNanos st.metadata next totalBytes
          { liveBytes := totalBytes } + intentCounts nowNanos st.metadata totalBytes +
        versionBytes valueLen
      first := false
      accrueGCAgeNanos := st.metadata.timestamp.wallTime }
  else
    let age :=
      if v.value.isTombstone then ageSince nowNanos totalBytes v.timestamp.wallTime
      else if !next.isEmpty && next.wallTime < st.accrueGCAgeNanos then
        ageSince nowNanos totalBytes next.wallTime
      else ageSince nowNanos totalBytes st.accrueGCAgeNanos
    .ok { st with
      counts := st.counts + age + versionBytes valueLen
      accrueGCAgeNanos := v.timestamp.wallTime }

/-- The metadata a key without an intent stands for. -/
def implicitMetadata (v : Version) : MVCCMetadata where
  keyBytes := mvccVersionTimestampSize
  valBytes := sizes.value v.value
  deleted := v.value.isTombstone
  timestamp := { wallTime := v.timestamp.wallTime }

/-- One point key of the iteration. -/
def onPoint (st : StatsState) (rangeTombstones : List Version) (key : Key) (point : Point) :
    Except StatsError StatsState :=
  match point with
  | .metadata m =>
    .ok { st with
      counts := st.counts + metaCounts nowNanos key m {} (sizes.metadata m)
      metadata := m
      prevKey := key
      first := true }
  | .version v =>
    let next := nextRangeTombstone rangeTombstones v.timestamp
    let st' :=
      if st.prevKey = key then st
      else { st with
        counts := st.counts + metaCounts nowNanos key (implicitMetadata sizes v) next 0
        metadata := implicitMetadata sizes v
        prevKey := key
        first := true }
    onVersion sizes nowNanos st' key v next

/-- `ComputeStatsForIter` over a store. -/
def computeStats (s : Store) : Except StatsError MVCCStats :=
  (iterate (fun _ => .bareRangeKey) (onRangeKeyChanged sizes nowNanos) (onPoint sizes nowNanos) none
    s.positions {}).map fun st => ⟨nowNanos, st.counts⟩

/-! ## Entries -/

/-- Counts live, or dead since a time. -/
def Counts.since (c : Counts) (live : Counts) : Option ℤ → Counts
  | some wallTime => c.aged (seconds nowNanos - seconds wallTime)
  | none => c + live

/-- The entry of a key's metadata. -/
def metaEntry (key : Key) (metaValSize : ℤ) (inline : Bool) (dead : Option ℤ) : Counts :=
  if isSysLocal key then { sysBytes := key.length + 1 + metaValSize, sysCount := 1 }
  else
    Counts.since nowNanos (metaBytes key metaValSize inline)
      { liveBytes := key.length + 1 + metaValSize, liveCount := 1 } dead

/-- The entry of a version. -/
def versionEntry (key : Key) (valueLen : ℤ) (dead : Option ℤ) : Counts :=
  if isSysLocal key then { sysBytes := valueLen + mvccVersionTimestampSize }
  else
    Counts.since nowNanos (versionBytes valueLen)
      { liveBytes := valueLen + mvccVersionTimestampSize } dead

def intentEntry (key : Key) (m : MVCCMetadata) (valueLen : ℤ) : Counts :=
  if isSysLocal key then 0 else intentCounts nowNanos m (valueLen + mvccVersionTimestampSize)

/-- The wall time since which a newest version is not live, deleted or under a range
tombstone. -/
def newestDead (deleted : Bool) (deletedAt : ℤ) (next : Timestamp) : Option ℤ :=
  if deleted then some deletedAt
  else if next.isEmpty then none
  else some next.wallTime

/-- The wall time since which a version under another one is not live. -/
def olderDead (next : Timestamp) (above : ℤ) (v : Version) : ℤ :=
  if v.value.isTombstone then v.timestamp.wallTime
  else if !next.isEmpty && next.wallTime < above then next.wallTime
  else above

def olderEntries (key : Key) (rangeTombstones : List Version) : ℤ → List Version → List Counts
  | _, [] => []
  | above, v :: rest =>
    versionEntry nowNanos key (sizes.value v.value)
        (some (olderDead (nextRangeTombstone rangeTombstones v.timestamp) above v)) ::
      olderEntries key rangeTombstones v.timestamp.wallTime rest

/-- The entries of one key. -/
def keyEntries (rangeTombstones : List Version) (d : StoreKey) : List Counts :=
  match d.metadata, d.versions with
  | none, [] => []
  | none, v :: rest =>
    let dead := newestDead v.value.isTombstone v.timestamp.wallTime
      (nextRangeTombstone rangeTombstones v.timestamp)
    metaEntry nowNanos d.key 0 false dead ::
      versionEntry nowNanos d.key (sizes.value v.value) dead ::
      olderEntries sizes nowNanos d.key rangeTombstones v.timestamp.wallTime rest
  | some m, [] =>
    [metaEntry nowNanos d.key (sizes.metadata m) m.isInline
      (newestDead m.deleted m.timestamp.wallTime {})]
  | some m, v :: rest =>
    metaEntry nowNanos d.key (sizes.metadata m) m.isInline
        (newestDead m.deleted m.timestamp.wallTime {}) ::
      versionEntry nowNanos d.key (sizes.value v.value)
        (newestDead m.deleted m.timestamp.wallTime
          (nextRangeTombstone rangeTombstones v.timestamp)) ::
      intentEntry nowNanos d.key m (sizes.value v.value) ::
      olderEntries sizes nowNanos d.key rangeTombstones m.timestamp.wallTime rest

end

/-- The metadata of every intent has the size of its provisional value. -/
def StoreKey.Sized (sizes : Sizes) (d : StoreKey) : Prop :=
  ∀ m ∈ d.metadata, ∀ v ∈ d.versions.head?,
    m.keyBytes = mvccVersionTimestampSize ∧ m.valBytes = sizes.value v.value

def Store.Sized (sizes : Sizes) (s : Store) : Prop := ∀ d ∈ s.keys, d.Sized sizes

/-! ## The loop adds the entries -/

variable {sizes : Sizes} {nowNanos : ℤ} {st : StatsState} {key : Key} {v : Version}
  {rangeTombstones : List Version} {above : ℤ} {d : StoreKey}

lemma ageSince_add (c : Counts) {bytes wallTime : ℤ} (hbytes : c.gcBytes = bytes)
    (hintents : c.intentCount = 0) :
    ageSince nowNanos bytes wallTime + c = c.aged (seconds nowNanos - seconds wallTime) := by
  rw [Counts.aged, add_comm, ← hbytes]
  congr 1
  ext <;> simp [ageSince, Counts.aging, hintents]

lemma firstAge_add (c : Counts) {bytes : ℤ} (hbytes : c.gcBytes = bytes)
    (hintents : c.intentCount = 0) (m : MVCCMetadata) (next : Timestamp) (live : Counts) :
    firstAge nowNanos m next bytes live + c =
      Counts.since nowNanos c live (newestDead m.deleted m.timestamp.wallTime next) := by
  unfold firstAge newestDead
  cases m.deleted with
  | true => exact ageSince_add c hbytes hintents
  | false =>
    cases next.isEmpty with
    | true => exact add_comm live c
    | false => exact ageSince_add c hbytes hintents

lemma metaCounts_eq (key : Key) (m : MVCCMetadata) (next : Timestamp) (metaValSize : ℤ) :
    metaCounts nowNanos key m next metaValSize =
      metaEntry nowNanos key metaValSize m.isInline
        (newestDead m.deleted m.timestamp.wallTime next) := by
  unfold metaCounts metaEntry
  split_ifs with hsys
  · rfl
  apply firstAge_add
  · simp [metaBytes, Counts.gcBytes]
  · rfl

lemma gcBytes_versionBytes (valueLen : ℤ) :
    (versionBytes valueLen).gcBytes = valueLen + mvccVersionTimestampSize := by
  simp [versionBytes, Counts.gcBytes]
  ring

lemma onVersion_first (hfirst : st.first)
    (hkey : st.metadata.keyBytes = mvccVersionTimestampSize)
    (hval : st.metadata.valBytes = sizes.value v.value) :
    ∃ st', onVersion sizes nowNanos st key v (nextRangeTombstone rangeTombstones v.timestamp) =
        .ok st' ∧ st'.prevKey = st.prevKey ∧
      (isSysLocal key = false → st'.first = false ∧
        st'.accrueGCAgeNanos = st.metadata.timestamp.wallTime) ∧
      st'.counts = st.counts +
        (versionEntry nowNanos key (sizes.value v.value)
            (newestDead st.metadata.deleted st.metadata.timestamp.wallTime
              (nextRangeTombstone rangeTombstones v.timestamp)) +
          intentEntry nowNanos key st.metadata (sizes.value v.value)) := by
  unfold onVersion versionEntry intentEntry
  cases hsys : isSysLocal key with
  | true =>
    refine ⟨_, rfl, rfl, nofun, ?_⟩
    simp
  | false =>
    simp only [hfirst, hkey, hval, ne_eq, not_true_eq_false, if_true, if_false, Bool.false_eq_true]
    refine ⟨_, rfl, rfl, fun _ => ⟨rfl, rfl⟩, ?_⟩
    rw [← firstAge_add _ (gcBytes_versionBytes _) rfl]
    dsimp only
    abel

lemma onVersion_older
    (hst : isSysLocal key = false → st.first = false ∧ st.accrueGCAgeNanos = above) :
    ∃ st', onVersion sizes nowNanos st key v (nextRangeTombstone rangeTombstones v.timestamp) =
        .ok st' ∧ st'.prevKey = st.prevKey ∧
      (isSysLocal key = false → st'.first = false ∧ st'.accrueGCAgeNanos = v.timestamp.wallTime) ∧
      st'.counts = st.counts + versionEntry nowNanos key (sizes.value v.value)
        (some (olderDead (nextRangeTombstone rangeTombstones v.timestamp) above v)) := by
  unfold onVersion versionEntry
  cases hsys : isSysLocal key with
  | true => exact ⟨_, rfl, rfl, nofun, rfl⟩
  | false =>
    obtain ⟨hfirst, habove⟩ := hst hsys
    simp only [hfirst, if_false, Bool.false_eq_true]
    refine ⟨_, rfl, rfl, fun _ => ⟨rfl, rfl⟩, ?_⟩
    rw [add_assoc, habove, Counts.since, ← ageSince_add _ (gcBytes_versionBytes _) rfl]
    unfold olderDead
    split_ifs <;> rfl

lemma iterPoints_older {versions : List Version} (hkey : st.prevKey = key)
    (hst : isSysLocal key = false → st.first = false ∧ st.accrueGCAgeNanos = above) :
    ∃ st', iterPoints (onPoint sizes nowNanos) rangeTombstones key (versions.map .version) st =
        .ok st' ∧ st'.prevKey = key ∧
      st'.counts = st.counts +
        (olderEntries sizes nowNanos key rangeTombstones above versions).sum := by
  induction versions generalizing above st with
  | nil => exact ⟨st, rfl, hkey, by simp [olderEntries]⟩
  | cons v rest ih =>
    obtain ⟨st1, hstep, hkey1, hst1, hcounts1⟩ :=
      @onVersion_older sizes nowNanos st key v rangeTombstones above hst
    obtain ⟨st2, hrest, hkey2, hcounts2⟩ := ih (hkey1.trans hkey) hst1
    refine ⟨st2, ?_, hkey2, ?_⟩
    · rw [map_cons, iterPoints, onPoint]
      simp only [hkey, if_true]
      rw [hstep]
      exact hrest
    · rw [hcounts2, hcounts1, olderEntries, sum_cons, add_assoc]

lemma iterPoints_key (h : d.Wf) (hsized : d.Sized sizes)
    (hprev : st.prevKey ≠ d.key) :
    ∃ st', iterPoints (onPoint sizes nowNanos) rangeTombstones d.key d.points st = .ok st' ∧
      st'.prevKey = d.key ∧
      st'.counts = st.counts + (keyEntries sizes nowNanos rangeTombstones d).sum := by
  cases h with
  | @committed key versions nonempty _ _ =>
    cases versions with
    | nil => exact absurd rfl nonempty
    | cons v rest =>
      obtain ⟨st1, hstep, hkey1, hst1, hcounts1⟩ := @onVersion_first sizes nowNanos
        { st with
          counts := st.counts + metaCounts nowNanos key (implicitMetadata sizes v)
            (nextRangeTombstone rangeTombstones v.timestamp) 0
          metadata := implicitMetadata sizes v
          prevKey := key
          first := true } key v rangeTombstones rfl rfl rfl
      obtain ⟨st2, hrest, hkey2, hcounts2⟩ := @iterPoints_older sizes nowNanos st1 key
        rangeTombstones _ rest hkey1 hst1
      refine ⟨st2, ?_, hkey2, ?_⟩
      · show onPoint sizes nowNanos st rangeTombstones key (.version v) >>= _ = _
        rw [onPoint]
        simp only [if_neg hprev]
        rw [hstep]
        exact hrest
      rw [hcounts2, hcounts1, metaCounts_eq, keyEntries, sum_cons, sum_cons]
      have hinline : (implicitMetadata sizes v).isInline = false := rfl
      have hintent : intentEntry nowNanos key (implicitMetadata sizes v)
          (sizes.value v.value) = 0 := by
        simp [intentEntry, intentCounts, implicitMetadata]
      simp only [hinline, hintent, add_zero]
      exact (add_assoc _ _ _).trans (add_assoc _ _ _)
  | @inline key m _ =>
    refine ⟨_, rfl, rfl, ?_⟩
    rw [metaCounts_eq]
    simp [keyEntries]
  | @intent key m v versions _ _ _ _ =>
    obtain ⟨hkeyBytes, hvalBytes⟩ := hsized m rfl v rfl
    obtain ⟨st1, hstep, hkey1, hst1, hcounts1⟩ := @onVersion_first sizes nowNanos
      { st with
        counts := st.counts + metaCounts nowNanos key m {} (sizes.metadata m)
        metadata := m
        prevKey := key
        first := true } key v rangeTombstones rfl hkeyBytes hvalBytes
    obtain ⟨st2, hrest, hkey2, hcounts2⟩ := @iterPoints_older sizes nowNanos st1 key
      rangeTombstones _ versions hkey1 hst1
    refine ⟨st2, ?_, hkey2, ?_⟩
    · show onPoint sizes nowNanos _ rangeTombstones key (.version v) >>= _ = _
      rw [onPoint]
      simp only [if_true]
      rw [hstep]
      exact hrest
    · rw [hcounts2, hcounts1, metaCounts_eq, keyEntries, sum_cons, sum_cons, sum_cons]
      dsimp only
      abel

lemma points_eq_nil_iff : d.points = [] ↔ d.metadata = none ∧ d.versions = [] := by
  simp [StoreKey.points]

lemma keyEntries_of_points_eq_nil
    (h : d.points = []) : keyEntries sizes nowNanos rangeTombstones d = [] := by
  obtain ⟨hmetadata, hversions⟩ := points_eq_nil_iff.mp h
  rw [keyEntries, hmetadata, hversions]

lemma iterKeys_counts {s : Store} {prev : Option RangeKeyStack} {ds : List StoreKey}
    (hds : ∀ d ∈ ds, d.points = [] ∨ d.Wf ∧ d.Sized sizes)
    (hsorted : OrderedSet.Sorted StoreKey.key ds) {st : StatsState}
    (hprev : ∀ d ∈ ds, st.prevKey ≠ d.key) :
    ∃ st', iterKeys (onRangeKeyChanged sizes nowNanos) (onPoint sizes nowNanos) s prev ds st =
        .ok st' ∧
      st'.counts = st.counts +
        ((ds.flatMap fun d => keyEntries sizes nowNanos (s.tombstonesAt d.key) d).sum +
          ((s.changes prev (ds.map StoreKey.key)).map (rangeCounts sizes nowNanos)).sum) := by
  induction ds generalizing prev st with
  | nil => exact ⟨st, rfl, by simp [Store.changes]⟩
  | cons d ds ih =>
    obtain ⟨hlt, hsorted⟩ := OrderedSet.sorted_cons.mp hsorted
    have hd := hds d (.head _)
    obtain ⟨st0, hst0, hkey0, hcounts0⟩ : ∃ st0,
        (if s.stackAt d.key = prev then st
          else onRangeKeyChanged sizes nowNanos st (s.stackAt d.key)) = st0 ∧
        st0.prevKey = st.prevKey ∧
        st0.counts = st.counts + ((if s.stackAt d.key = prev then []
          else (s.stackAt d.key).toList).map (rangeCounts sizes nowNanos)).sum := by
      refine ⟨_, rfl, ?_⟩
      unfold onRangeKeyChanged
      split_ifs
      · simp
      · cases s.stackAt d.key <;> simp
    obtain ⟨st1, hpoints, hkey1, hcounts1⟩ : ∃ st1,
        iterPoints (onPoint sizes nowNanos) (s.tombstonesAt d.key) d.key d.points st0 =
          .ok st1 ∧ (st1.prevKey = st.prevKey ∨ st1.prevKey = d.key) ∧
        st1.counts = st0.counts + (keyEntries sizes nowNanos (s.tombstonesAt d.key) d).sum := by
      rcases hd with hnil | ⟨hwf, hsized⟩
      · refine ⟨st0, by rw [hnil, iterPoints], Or.inl hkey0, ?_⟩
        rw [keyEntries_of_points_eq_nil hnil, sum_nil, add_zero]
      obtain ⟨st1, hpoints, hkey1, hcounts1⟩ :=
        @iterPoints_key sizes nowNanos st0 (s.tombstonesAt d.key) d hwf hsized
          (hkey0 ▸ hprev d (.head _))
      exact ⟨st1, hpoints, Or.inr hkey1, hcounts1⟩
    obtain ⟨st2, hrest, hcounts2⟩ := @ih (s.stackAt d.key)
      (fun d' hd' => hds d' (.tail _ hd')) hsorted st1 (by
        intro d' hd'
        rcases hkey1 with hkey | hkey
        · rw [hkey]
          exact hprev d' (.tail _ hd')
        rw [hkey]
        exact (hlt d' hd').ne)
    refine ⟨st2, ?_, ?_⟩
    · rw [iterKeys, hst0, hpoints]
      exact hrest
    rw [hcounts2, hcounts1, hcounts0, flatMap_cons, sum_append, map_cons,
      Store.changes, map_append, sum_append]
    abel

/-- One entry for each thing counted. -/
def Store.entries (s : Store) (sizes : Sizes) (nowNanos : ℤ) : List Counts :=
  (s.keys.flatMap fun d => keyEntries sizes nowNanos (s.tombstonesAt d.key) d) ++
    s.rangeKeys.map (rangeCounts sizes nowNanos)

lemma computeStats_eq {s : Store} (h : s.Wf) (hsized : s.Sized sizes) (nowNanos : ℤ) :
    computeStats sizes nowNanos s = .ok ⟨nowNanos, (s.entries sizes nowNanos).sum⟩ := by
  have hds : ∀ d ∈ s.slots, d.points = [] ∨ d.Wf ∧ d.Sized sizes := by
    intro d hd
    rcases h.isSlots.mem d hd with hd | ⟨r, _, rfl⟩
    · exact Or.inr ⟨h.keys d hd, hsized d hd⟩
    · exact Or.inl rfl
  have hprev : ∀ d ∈ s.slots, ({} : StatsState).prevKey ≠ d.key := by
    intro d hd
    rcases h.isSlots.mem d hd with hd | ⟨r, hr, rfl⟩
    · exact (h.key_ne d hd).symm
    · exact (h.fragments r hr).key_ne.symm
  obtain ⟨st, hloop, hcounts⟩ :=
    @iterKeys_counts sizes nowNanos s none s.slots hds h.isSlots.sorted {} hprev
  rw [computeStats, h.iterate_positions, hloop]
  refine congrArg (fun c => Except.ok (⟨nowNanos, c⟩ : MVCCStats)) ?_
  rw [hcounts, h.changes_slots, Store.flatMap_slots _ (fun k => rfl), Store.entries, sum_append]
  exact zero_add _

end MeshDB.Storage
