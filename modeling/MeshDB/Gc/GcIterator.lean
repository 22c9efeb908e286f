import MeshDB.Lib.RingBuffer
import MeshDB.Storage.Store

/-!
# The iterator of the MVCC GC queue

The GC queue looks at all versions from the oldest to the newest, keys in reverse order. Its
iterator keeps up to three points in a ring buffer, and caches the timestamp of the newest range
tombstone that counts for the current fragment.
-/
namespace MeshDB.Gc

open List Option Roachpb Hlc Storage

/-- A point in the buffer, with the metadata of an intent or inline value if it is not a
version. -/
structure MvccKeyValue where
  key : MVCCKey
  mvccValueIsTombstone : Bool := false
  metaValue : Option MVCCMetadata := none
deriving DecidableEq

def MvccKeyValue.isValue (kv : MvccKeyValue) : Bool := !kv.key.timestamp.isEmpty

/-- A point with the timestamp of the first range tombstone at or below the threshold. -/
abbrev BufferedPoint := MvccKeyValue × Timestamp

def gcIteratorRingBufSize : ℕ := 3

/-- The iterator with its lookahead buffer. -/
structure GcIterator where
  /-- The positions from the current one on, in the order of the iteration. -/
  it : List StorePosition
  threshold : Timestamp
  buf : RingQueue BufferedPoint gcIteratorRingBufSize := {}
  cachedRangeTombstoneTS : Timestamp := {}
  cachedRangeTombstoneKey : Key := []

def makeGCIterator (it : List StorePosition) (threshold : Timestamp) : GcIterator :=
  { it := it, threshold := threshold }

/-- The newest tombstone the threshold reaches. -/
def firstRangeTS (threshold : Timestamp) (r : RangeKeyStack) : Timestamp :=
  match firstAtOrBelow r.versions threshold with
  | some v => v.timestamp
  | none => {}

def keyValue (key : Key) : Point → MvccKeyValue
  | .version v => ⟨⟨key, v.timestamp⟩, v.value.isTombstone, none⟩
  | .metadata m => ⟨⟨key, {}⟩, false, some m⟩

namespace GcIterator

/-- The tombstones of a stack are searched once. -/
def currentRangeTS (g : GcIterator) (r : RangeKeyStack) : GcIterator × Timestamp :=
  if r.key = g.cachedRangeTombstoneKey then (g, g.cachedRangeTombstoneTS)
  else
    ({ g with
        cachedRangeTombstoneKey := r.key
        cachedRangeTombstoneTS := firstRangeTS g.threshold r },
      firstRangeTS g.threshold r)

def rangeTS (g : GcIterator) (stack : Option RangeKeyStack) : GcIterator × Timestamp :=
  match stack with
  | some r => g.currentRangeTS r
  | none => (g, {})

/-- Buffers the point of a position. -/
def fill (g : GcIterator) (p : StorePosition) : Option GcIterator :=
  match p.point with
  | none => some g
  | some point =>
    ((g.rangeTS p.stack).1.buf.pushBack (keyValue p.key point, (g.rangeTS p.stack).2)).map
      fun buf => { (g.rangeTS p.stack).1 with buf := buf }

def fillLoop (targetLen : ℕ) : List StorePosition → GcIterator → Option (GcIterator × Bool)
  | [], g => some ({ g with it := [] }, decide (targetLen ≤ g.buf.len))
  | p :: it, g =>
    if g.buf.len < targetLen then (g.fill p).bind (fillLoop targetLen it)
    else some ({ g with it := p :: it }, true)

/-- Until `targetLen` points are buffered. -/
def fillTo (g : GcIterator) (targetLen : ℕ) : Option (GcIterator × Bool) :=
  fillLoop targetLen g.it g

/-- The `i`-th buffered point. -/
def peekAt (g : GcIterator) (i : ℕ) : Option (GcIterator × Option BufferedPoint) :=
  if g.buf.len ≤ i then
    (g.fillTo (i + 1)).map fun r => (r.1, if r.2 then r.1.buf.peek i else none)
  else some (g, g.buf.peek i)

end GcIterator

/-- The current point with the two after it. -/
structure GcIteratorState where
  cur : MvccKeyValue
  next : Option MvccKeyValue := none
  afterNext : Option MvccKeyValue := none
  firstRangeTombstoneTsAtOrBelowGC : Timestamp
deriving DecidableEq

namespace GcIteratorState

variable (s : GcIteratorState)

/-- No newer committed version of the key. -/
def curIsNewest : Bool :=
  s.cur.isValue && (s.next.isNone || s.afterNext.any fun kv => !kv.isValue)

def curLastKeyVersion : Bool := s.next.isNone

def curIsNotValue : Bool := !s.cur.isValue

/-- The iteration meets the key's metadata next. -/
def curIsIntent : Bool := s.next.any fun kv => !kv.isValue

end GcIteratorState

namespace GcIterator

/-- Lookahead ends at the next key. -/
def sameKey (cur : MvccKeyValue) (kv : Option BufferedPoint) : Option MvccKeyValue :=
  (kv.map Prod.fst).filter fun kv => kv.key.key = cur.key.key

/-- `state`, which has none at the end of the iteration. -/
def state (g : GcIterator) : Option (GcIterator × Option GcIteratorState) :=
  (g.peekAt 0).bind fun (g, cur) =>
    match cur with
    | none => some (g, none)
    | some (cur, ts) =>
      (g.peekAt 1).bind fun (g, next) =>
        match sameKey cur next with
        | none => some (g, some ⟨cur, none, none, ts⟩)
        | some next =>
          (g.peekAt 2).map fun (g, afterNext) =>
            (g, some ⟨cur, some next, sameKey cur afterNext, ts⟩)

/-- `step`, which panics if the buffer is empty. -/
def step (g : GcIterator) : Option GcIterator :=
  g.buf.removeFront.map fun buf => { g with buf := buf }

end GcIterator

/-- `isGarbage`, which panics for a version that is neither the newest nor followed by one. -/
def isGarbage (threshold : Timestamp) (cur : MvccKeyValue) (next : Option MvccKeyValue)
    (isNewestPoint : Bool) (firstRangeTombstoneTsAtOrBelowGC : Timestamp) : Option Bool :=
  if !cur.key.timestamp.lessEq threshold then some false
  else if cur.key.timestamp.less firstRangeTombstoneTsAtOrBelowGC then some true
  else if isNewestPoint && !cur.mvccValueIsTombstone then some false
  else if cur.mvccValueIsTombstone then some true
  else next.map fun next => next.key.timestamp.lessEq threshold

/-- What the iteration reports of a point. -/
inductive Found where
  | garbage (kv : MvccKeyValue) (isNewestPoint : Bool)
  | nonGCableData (kv : MvccKeyValue) (isNewestPoint : Bool)
  | intent (metadata : Option MvccKeyValue)
deriving DecidableEq

/-- The verdict on the current point. -/
def foundAt (s : GcIteratorState) (garbage : Bool) : Found :=
  if garbage then .garbage s.cur s.curLastKeyVersion else .nonGCableData s.cur s.curLastKeyVersion

/-- The loop of `processReplicatedKeyRange`. -/
def gcLoop : ℕ → GcIterator → Option (List Found)
  | 0, _ => none
  | fuel + 1, g =>
    g.state.bind fun (g, s) =>
      match s with
      | none => some []
      | some s =>
        if s.curIsNotValue then
          (g.step.bind (gcLoop fuel)).map fun found => .nonGCableData s.cur true :: found
        else if s.curIsIntent then
          -- The metadata of an intent is stepped over with its provisional value.
          ((g.step.bind GcIterator.step).bind (gcLoop fuel)).map fun found =>
            .nonGCableData s.cur true :: .intent s.next :: found
        else
          (isGarbage g.threshold s.cur s.next s.curIsNewest
            s.firstRangeTombstoneTsAtOrBelowGC).bind fun garbage =>
              (g.step.bind (gcLoop fuel)).map fun found => foundAt s garbage :: found

def processReplicatedKeyRange (s : Store) (threshold : Timestamp) : Option (List Found) :=
  gcLoop (s.positions.length + 1) (makeGCIterator s.positions.reverse threshold)

/-! ## The points that are left -/

def bufferedPoint (threshold : Timestamp) (p : StorePosition) : Option BufferedPoint :=
  p.point.map fun point =>
    (keyValue p.key point, match p.stack with
      | some r => firstRangeTS threshold r
      | none => {})

/-- The points in the buffer and ahead. The cache is right for its fragment. -/
structure GcIterator.Pending (rangeKeys : List RangeKeyStack) (threshold : Timestamp)
    (points : List BufferedPoint) (g : GcIterator) : Prop where
  threshold_eq : g.threshold = threshold
  holds : ∃ xs, g.buf.Holds xs ∧ points = xs ++ g.it.filterMap (bufferedPoint threshold)
  known : ∀ p ∈ g.it, ∀ r, p.stack = some r → r ∈ rangeKeys
  cached : ∀ r ∈ rangeKeys, r.key = g.cachedRangeTombstoneKey →
    g.cachedRangeTombstoneTS = firstRangeTS threshold r

variable {rangeKeys : List RangeKeyStack} {threshold : Timestamp} {points : List BufferedPoint}
  {g : GcIterator}

lemma GcIterator.Pending.len_le (h : g.Pending rangeKeys threshold points) :
    g.buf.len ≤ points.length := by
  obtain ⟨xs, hxs, rfl⟩ := h.holds
  rw [hxs.len_eq, length_append]
  omega

section
variable (hdistinct : ∀ r ∈ rangeKeys, ∀ r' ∈ rangeKeys, r.key = r'.key → r = r')
include hdistinct
variable {p : StorePosition} {it : List StorePosition}

lemma rangeTS_spec
    (h : { g with it := p :: it }.Pending rangeKeys threshold points) :
    (g.rangeTS p.stack).2 = (match p.stack with
      | some r => firstRangeTS threshold r
      | none => {}) ∧
      { (g.rangeTS p.stack).1 with it := p :: it }.Pending rangeKeys threshold points ∧
      (g.rangeTS p.stack).1.buf = g.buf := by
  have hthreshold : g.threshold = threshold := h.threshold_eq
  unfold GcIterator.rangeTS
  cases hstack : p.stack with
  | none => exact ⟨rfl, h, rfl⟩
  | some r =>
    have hr := h.known p (.head _) r hstack
    dsimp only
    unfold GcIterator.currentRangeTS
    split_ifs with hkey
    · exact ⟨h.cached r hr hkey, h, rfl⟩
    refine ⟨by rw [hthreshold], ⟨hthreshold, h.holds, h.known, ?_⟩, rfl⟩
    intro r' hr' hkey'
    cases hdistinct r' hr' r hr hkey'
    rw [hthreshold]

lemma fill_spec
    (h : { g with it := p :: it }.Pending rangeKeys threshold points)
    (hlt : g.buf.len < gcIteratorRingBufSize) :
    ∃ g', g.fill p = some g' ∧ { g' with it := it }.Pending rangeKeys threshold points := by
  obtain ⟨hts, hpending, hbuf⟩ := rangeTS_spec hdistinct h
  obtain ⟨xs, hxs, hpoints⟩ := hpending.holds
  have hxs : (g.rangeTS p.stack).1.buf.Holds xs := hxs
  have hknown : ∀ q ∈ it, ∀ r, q.stack = some r → r ∈ rangeKeys :=
    fun q hq => h.known q (.tail _ hq)
  unfold GcIterator.fill
  cases hpoint : p.point with
  | none =>
    refine ⟨g, rfl, h.threshold_eq, ?_, hknown, h.cached⟩
    obtain ⟨xs, hxs, hpoints⟩ := h.holds
    refine ⟨xs, hxs, ?_⟩
    rw [hpoints]
    simp [bufferedPoint, hpoint]
  | some point =>
    have hlen : xs.length < gcIteratorRingBufSize := by
      rw [← hxs.len_eq, hbuf]
      exact hlt
    obtain ⟨buf, hpush, hholds⟩ := hxs.pushBack hlen (keyValue p.key point, (g.rangeTS p.stack).2)
    refine ⟨{ (g.rangeTS p.stack).1 with buf := buf }, ?_, hpending.threshold_eq, ?_, hknown,
      hpending.cached⟩
    · simp only [hpush, map_some]
    refine ⟨_, hholds, ?_⟩
    rw [hpoints, hts]
    simp [bufferedPoint, hpoint]

lemma fillLoop_spec
    {targetLen : ℕ} (htarget : targetLen ≤ gcIteratorRingBufSize)
    (h : { g with it := it }.Pending rangeKeys threshold points) :
    ∃ g', GcIterator.fillLoop targetLen it g = some (g', decide (targetLen ≤ points.length)) ∧
      g'.Pending rangeKeys threshold points ∧
      (targetLen ≤ points.length → targetLen ≤ g'.buf.len) ∧ g.buf.len ≤ g'.buf.len := by
  induction it generalizing g with
  | nil =>
    obtain ⟨xs, hxs, hpoints⟩ := h.holds
    have hlen : g.buf.len = points.length := by
      rw [hpoints, filterMap_nil, append_nil]
      exact hxs.len_eq
    refine ⟨_, by rw [GcIterator.fillLoop, hlen], h, ?_, le_rfl⟩
    intro hle
    exact hle.trans hlen.ge
  | cons p it ih =>
    rw [GcIterator.fillLoop]
    split_ifs with hlt
    · obtain ⟨g1, hfill, hpending⟩ := fill_spec hdistinct h (hlt.trans_le htarget)
      obtain ⟨g', hloop, hpending', hle, hmono⟩ := ih hpending
      refine ⟨g', by rw [hfill, bind_some, hloop], hpending', hle, ?_⟩
      have hgrow : g.buf.len ≤ g1.buf.len := by
        unfold GcIterator.fill at hfill
        split at hfill
        · cases hfill
          exact le_rfl
        obtain ⟨buf, hpush, rfl⟩ := map_eq_some_iff.mp hfill
        unfold RingQueue.pushBack at hpush
        split_ifs at hpush
        cases hpush
        rw [(rangeTS_spec hdistinct h).2.2]
        exact Nat.le_succ _
      exact hgrow.trans hmono
    · have hle : targetLen ≤ points.length := (not_lt.mp hlt).trans h.len_le
      exact ⟨_, by simp [hle], h, fun _ => not_lt.mp hlt, le_rfl⟩

lemma peekAt_spec
    {i : ℕ} (hi : i < gcIteratorRingBufSize) (h : g.Pending rangeKeys threshold points) :
    ∃ g', g.peekAt i = some (g', points[i]?) ∧ g'.Pending rangeKeys threshold points ∧
      (i < points.length → i < g'.buf.len) ∧ g.buf.len ≤ g'.buf.len := by
  have hpeek : ∀ g' : GcIterator, g'.Pending rangeKeys threshold points → i < g'.buf.len →
      g'.buf.peek i = points[i]? := by
    intro g' h' hlt
    obtain ⟨xs, hxs, hpoints⟩ := h'.holds
    rw [hxs.peek_eq, hpoints, List.getElem?_append_left (by rw [← hxs.len_eq]; exact hlt)]
  unfold GcIterator.peekAt
  split_ifs with hle
  · have hself : { g with it := g.it }.Pending rangeKeys threshold points := h
    obtain ⟨g', hloop, hpending, hlen, hmono⟩ := fillLoop_spec hdistinct hi hself
    refine ⟨g', ?_, hpending, hlen, hmono⟩
    rw [GcIterator.fillTo, hloop, map_some]
    by_cases hlt : i + 1 ≤ points.length
    · simp only [hlt, decide_true, if_true]
      rw [hpeek g' hpending (hlen hlt)]
    simp only [hlt, decide_false, Bool.false_eq_true, if_false]
    rw [List.getElem?_eq_none (by omega)]
  · refine ⟨g, ?_, h, fun _ => by omega, le_rfl⟩
    rw [hpeek g h (by omega)]

/-- The state, read off the whole iteration. -/
def stateAt (cur : BufferedPoint) (rest : List BufferedPoint) : GcIteratorState :=
  match GcIterator.sameKey cur.1 rest[0]? with
  | none => ⟨cur.1, none, none, cur.2⟩
  | some next => ⟨cur.1, some next, GcIterator.sameKey cur.1 rest[1]?, cur.2⟩

def stateOf : List BufferedPoint → Option GcIteratorState
  | [] => none
  | cur :: rest => some (stateAt cur rest)

/-- `state` is a function of the points that are left, which are buffered as far as the loop steps.
-/
lemma state_spec (h : g.Pending rangeKeys threshold points) :
    ∃ g', g.state = some (g', stateOf points) ∧ g'.Pending rangeKeys threshold points ∧
      min 2 points.length ≤ g'.buf.len := by
  obtain ⟨g0, hpeek0, hpending0, hlen0, _⟩ := peekAt_spec hdistinct (i := 0) (by decide) h
  unfold GcIterator.state
  rw [hpeek0, bind_some]
  cases points with
  | nil => exact ⟨g0, rfl, hpending0, Nat.zero_le _⟩
  | cons cur rest =>
    obtain ⟨g1, hpeek1, hpending1, hlen1, hmono1⟩ :=
      peekAt_spec hdistinct (i := 1) (by decide) hpending0
    have hfirst : 0 < g0.buf.len := hlen0 (by simp)
    have hloaded : min 2 (cur :: rest).length ≤ g1.buf.len := by
      omega
    simp only [List.getElem?_cons_zero, stateOf, stateAt]
    rw [hpeek1, bind_some, List.getElem?_cons_succ]
    cases hnext : GcIterator.sameKey cur.1 rest[0]? with
    | none => exact ⟨g1, rfl, hpending1, hloaded⟩
    | some next =>
      obtain ⟨g2, hpeek2, hpending2, _, hmono2⟩ :=
        peekAt_spec hdistinct (i := 2) (by decide) hpending1
      refine ⟨g2, ?_, hpending2, hloaded.trans hmono2⟩
      simp only []
      rw [hpeek2, map_some, List.getElem?_cons_succ]

end

lemma step_spec {point : BufferedPoint} (h : g.Pending rangeKeys threshold (point :: points))
    (hlen : 0 < g.buf.len) :
    ∃ g', g.step = some g' ∧ g'.Pending rangeKeys threshold points ∧
      g'.buf.len = g.buf.len - 1 := by
  obtain ⟨xs, hxs, hpoints⟩ := h.holds
  cases xs with
  | nil =>
    rw [hxs.len_eq] at hlen
    cases hlen
  | cons x xs =>
    obtain ⟨buf, hremove, hholds⟩ := hxs.removeFront
    rw [cons_append] at hpoints
    cases hpoints
    refine ⟨{ g with buf := buf }, by rw [GcIterator.step, hremove, map_some],
      ⟨h.threshold_eq, ⟨xs, hholds, rfl⟩, h.known, h.cached⟩, ?_⟩
    rw [hholds.len_eq, hxs.len_eq]
    rfl

/-! ## The loop -/

def garbage (threshold : Timestamp) (s : GcIteratorState) : Bool :=
  s.cur.key.timestamp.lessEq threshold &&
    (s.cur.key.timestamp.less s.firstRangeTombstoneTsAtOrBelowGC || s.cur.mvccValueIsTombstone ||
      (!s.curIsNewest && s.next.any fun next => next.key.timestamp.lessEq threshold))

lemma isGarbage_eq {s : GcIteratorState} (h : s.curIsNotValue = false) :
    isGarbage threshold s.cur s.next s.curIsNewest s.firstRangeTombstoneTsAtOrBelowGC =
      some (garbage threshold s) := by
  have hnewest : s.next = none → s.curIsNewest := by
    intro hnone
    simp [GcIteratorState.curIsNewest, hnone]
    simpa [GcIteratorState.curIsNotValue] using h
  unfold isGarbage garbage
  cases s.cur.key.timestamp.lessEq threshold with
  | false => rfl
  | true =>
    cases s.cur.key.timestamp.less s.firstRangeTombstoneTsAtOrBelowGC with
    | true => rfl
    | false =>
      cases s.cur.mvccValueIsTombstone with
      | true => simp
      | false =>
        cases hnext : s.next with
        | none => simp [hnewest hnext]
        | some next => cases s.curIsNewest <;> simp

/-- The loop without its buffer. -/
def classify (threshold : Timestamp) : List BufferedPoint → List Found
  | [] => []
  | [cur] =>
    if (stateAt cur []).curIsNotValue then [.nonGCableData cur.1 true]
    else [foundAt (stateAt cur []) (garbage threshold (stateAt cur []))]
  | cur :: next :: rest =>
    if (stateAt cur (next :: rest)).curIsNotValue then
      .nonGCableData cur.1 true :: classify threshold (next :: rest)
    else if (stateAt cur (next :: rest)).curIsIntent then
      .nonGCableData cur.1 true :: .intent (stateAt cur (next :: rest)).next ::
        classify threshold rest
    else
      foundAt (stateAt cur (next :: rest)) (garbage threshold (stateAt cur (next :: rest))) ::
        classify threshold (next :: rest)

lemma stateAt_cur (cur : BufferedPoint) (rest : List BufferedPoint) :
    (stateAt cur rest).cur = cur.1 := by
  unfold stateAt
  split <;> rfl

lemma gcLoop_spec
    (hdistinct : ∀ r ∈ rangeKeys, ∀ r' ∈ rangeKeys, r.key = r'.key → r = r') {fuel : ℕ}
    (h : g.Pending rangeKeys threshold points) (hfuel : points.length < fuel) :
    gcLoop fuel g = some (classify threshold points) := by
  induction fuel generalizing g points with
  | zero => cases hfuel
  | succ fuel ih =>
    obtain ⟨g', hstate, hpending, hlen⟩ := state_spec hdistinct h
    rw [gcLoop, hstate, bind_some]
    match points, hpending, hlen, hfuel with
    | [], _, _, _ => rfl
    | [cur], hpending, hlen, hfuel =>
      have hlen : 1 ≤ g'.buf.len := by simpa using hlen
      obtain ⟨g1, hstep, hpending1, -⟩ := step_spec hpending (by omega)
      have hrest := ih hpending1 (by simpa using hfuel)
      simp only [stateOf, classify]
      split_ifs with hvalue hintent
      · rw [hstep, bind_some, hrest, stateAt_cur]
        rfl
      · cases hintent
      rw [hpending.threshold_eq, isGarbage_eq (by simpa using hvalue), bind_some,
        hstep, bind_some, hrest]
      rfl
    | cur :: next :: rest, hpending, hlen, hfuel =>
      have hlen : 2 ≤ g'.buf.len := by simpa using hlen
      have hfuel : rest.length + 1 < fuel := by simpa using hfuel
      obtain ⟨g1, hstep, hpending1, hlen1⟩ := step_spec hpending (by omega)
      have hrest := ih hpending1 (by simpa using hfuel)
      obtain ⟨g2, hstep2, hpending2, -⟩ := step_spec hpending1 (by omega)
      have hrest2 := ih hpending2 (by omega)
      simp only [stateOf, classify]
      split_ifs with hvalue hintent
      · rw [hstep, bind_some, hrest, map_some, stateAt_cur]
      · rw [hstep, bind_some, hstep2, bind_some, hrest2, map_some, stateAt_cur]
      rw [hpending.threshold_eq, isGarbage_eq (by simpa using hvalue), bind_some,
        hstep, bind_some, hrest, map_some]

end MeshDB.Gc
