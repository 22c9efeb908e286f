import MeshDB.Lib.GapMap
import MeshDB.Tscache.CacheValue

/-!
# The interval skip list of the timestamp cache

The cache is a list of pages, the newest first. A page is a sorted map of nodes in an arena that
may be full; a new page is then put in front of it, and old pages may be evicted and give way to
the floor timestamp. Calls run one after another. The iterator of the skip list is a pair of
lists, the nodes behind it in reverse and the nodes from it on.
-/
namespace MeshDB.Tscache

open Roachpb Hlc GapMap

abbrev Node := GapMap.Node Key CacheValue

/-- Which bounds a range leaves out. -/
structure RangeOptions where
  excludeFrom : Bool := false
  excludeTo : Bool := false
deriving DecidableEq

/-! ## Nodes -/

/-- What of a page changes with a node. `full` has the arena's next answers. -/
structure Arena where
  maxTime : Int
  isFull : Bool
  full : List Bool
deriving DecidableEq

/-- The environment decides when the arena is full. -/
def Arena.alloc (a : Arena) : Arena × Bool :=
  match a.full with
  | [] => (a, false)
  | b :: full => ({ a with full := full }, b)

def Arena.ratchetMaxTimestamp (a : Arena) (ts : Timestamp) : Arena :=
  if makeRatchetingTime ts ≤ a.maxTime then a else { a with maxTime := makeRatchetingTime ts }

/-- A value after `encodeValueSet` and `decodeValueSet`. -/
def encodeValue (val : CacheValue) : CacheValue := if val.ts.isEmpty then {} else val

def ratchetValueSet (a : Arena) (n : Node) (onlyIfUninitialized : Bool)
    (keyVal gapVal : CacheValue) (setInit : Bool) : Arena × Node × Bool :=
  if n.state = .initialized ∧ onlyIfUninitialized then (a, n, false)
  else if n.state = .cantInit then (a, n, true)
  else
    let state := if setInit then .initialized else n.state
    let newKey := ratchetValue n.keyVal keyVal
    let newGap := ratchetValue n.gapVal gapVal
    if newKey.2 || newGap.2 then
      let r := (a.ratchetMaxTimestamp (newKey.1.ts.forward newGap.1.ts)).alloc
      if r.2 then
        let state := if n.state = .initialized then .initialized else .cantInit
        ({ r.1 with isFull := true }, { n with state := state }, true)
      else
        (r.1, { n with
          keyVal := encodeValue newKey.1
          gapVal := encodeValue newGap.1
          state := state }, false)
    else (a, { n with state := state }, false)

/-! ## Scans -/

/-- An iterator between two nodes. -/
structure Cursor where
  before : List Node
  after : List Node

def Cursor.nodes (c : Cursor) : List Node := c.before.reverse ++ c.after

/-- Where a scan ended and what it saw. -/
structure ScanResult where
  arena : Arena
  cursor : Cursor
  prevGapVal : CacheValue
  maxVal : CacheValue

/-- The loop of `scanTo`. `skipKey` says that the key of the first node does not count. -/
def scanLoop (stop : Option Key) (excludeTo skipKey : Bool) (a : Arena) (before : List Node) :
    List Node → CacheValue → CacheValue → ScanResult
  | [], prevGapVal, maxVal => ⟨a, ⟨before, []⟩, prevGapVal, maxVal⟩
  | n :: ns, prevGapVal, maxVal =>
    if stop.any fun k => decide (k < n.key) || (decide (n.key = k) && excludeTo) then
      ⟨a, ⟨before, n :: ns⟩, prevGapVal, maxVal⟩
    else
      let r := ratchetValueSet a n true prevGapVal prevGapVal false
      let n := r.2.1
      let keyVal := if r.2.2 then (ratchetValue n.keyVal prevGapVal).1 else n.keyVal
      let gapVal := if r.2.2 then (ratchetValue n.gapVal prevGapVal).1 else n.gapVal
      let maxVal := if skipKey then maxVal else (ratchetValue maxVal keyVal).1
      if stop = some n.key then ⟨r.1, ⟨before, n :: ns⟩, prevGapVal, maxVal⟩
      else
        scanLoop stop excludeTo false r.1 (n :: before) ns gapVal (ratchetValue maxVal gapVal).1

/-- Scans up to `stop`, initializing on the way. -/
def scanTo (a : Arena) (c : Cursor) (stop : Option Key) (opt : RangeOptions)
    (initGapVal : CacheValue) : ScanResult :=
  scanLoop stop opt.excludeTo opt.excludeFrom a c.before c.after initGapVal initGapVal

/-- `SeekForPrev`: the last node up to the key is the first one behind the cursor. -/
def seekForPrev (nodes : List Node) (key : Key) : Cursor :=
  ⟨(nodes.takeWhile fun n => decide (n.key ≤ key)).reverse,
    nodes.dropWhile fun n => decide (n.key ≤ key)⟩

/-- Goes back to the last initialized node. -/
def prevInitNode : List Node → List Node → Cursor
  | [], ahead => ⟨[], ahead⟩
  | n :: back, ahead =>
    if n.state = .initialized then ⟨back, n :: ahead⟩ else prevInitNode back (n :: ahead)

/-- The gap value that reaches `key`. -/
def incomingGapVal (a : Arena) (c : Cursor) (key : Key) : ScanResult :=
  scanTo a (prevInitNode c.before c.after) (some key) {} {}

/-- The greatest value over a range. -/
def maxInRange (a : Arena) (c : Cursor) (start : Key) (stop : Option Key) (opt : RangeOptions) :
    ScanResult :=
  let r := incomingGapVal a c start
  match r.cursor.after with
  | [] => { r with maxVal := r.prevGapVal }
  | n :: _ =>
    if n.key = start then
      let prevGapVal := if n.state = .initialized then {} else r.prevGapVal
      scanTo r.arena r.cursor stop opt prevGapVal
    else scanTo r.arena r.cursor stop { opt with excludeFrom := false } r.prevGapVal

/-! ## Adding -/

/-- `ensureInitialized`, from the first node behind the cursor on, which is the node of
the key. -/
def ensureInitialized (a : Arena) (c : Cursor) (key : Key) : Arena × Cursor × Bool :=
  let r := incomingGapVal a c key
  match r.cursor.after with
  | [] => (r.arena, r.cursor, false)
  | n :: ns =>
    let (a, n, full) := ratchetValueSet r.arena n true r.prevGapVal r.prevGapVal true
    (a, ⟨r.cursor.before, n :: ns⟩, full)

/-- A new node inherits the gap it splits. -/
def addNewNode (a : Arena) (c : Cursor) (key : Key) (val keyVal gapVal : CacheValue) :
    Arena × List Node × Bool :=
  let r := incomingGapVal a c key
  if (ratchetValue r.prevGapVal val).2 = false then (r.arena, r.cursor.nodes, false)
  else
    let (a, full) := (r.arena.ratchetMaxTimestamp val.ts).alloc
    if full then ({ a with isFull := true }, r.cursor.nodes, true)
    else
      let n : Node := ⟨key, encodeValue keyVal, encodeValue gapVal, .initializing⟩
      let (a, c, full) := ensureInitialized a ⟨n :: r.cursor.before, r.cursor.after⟩ key
      (a, c.nodes, full)

def ratchetNode (a : Arena) (c : Cursor) (hasKey hasGap : Bool) (keyVal gapVal : CacheValue) :
    Arena × List Node × Bool :=
  match c.after with
  | [] => (a, c.nodes, false)
  | n :: ns =>
    if !hasKey && !hasGap then (a, c.nodes, false)
    else
      let (a, n, full) := ratchetValueSet a n false keyVal gapVal false
      (a, (⟨c.before, n :: ns⟩ : Cursor).nodes, full)

/-- Adds the node, or raises the one there. -/
def addNode (a : Arena) (nodes : List Node) (key : Key) (val : CacheValue)
    (hasKey hasGap mustInit : Bool) : Arena × List Node × Bool :=
  let keyVal := if hasKey then val else {}
  let gapVal := if hasGap then val else {}
  match seekForPrev nodes key with
  | ⟨[], ahead⟩ => addNewNode a ⟨[], ahead⟩ key val keyVal gapVal
  | ⟨n :: back, ahead⟩ =>
    if n.key = key then
      if n.state ≠ .initialized ∧ mustInit then
        let (a, c, full) := ensureInitialized a ⟨n :: back, ahead⟩ key
        if full then (a, c.nodes, true) else ratchetNode a c hasKey hasGap keyVal gapVal
      else ratchetNode a ⟨back, n :: ahead⟩ hasKey hasGap keyVal gapVal
    else addNewNode a ⟨n :: back, ahead⟩ key val keyVal gapVal

/-- Raises every node of the range. -/
def ensureFloorValue (a : Arena) (stop : Option Key) (val : CacheValue) :
    List Node → Arena × List Node × Bool
  | [] => (a, [], false)
  | n :: ns =>
    if stop.any fun k => decide (k ≤ n.key) then (a, n :: ns, false)
    else if a.isFull then (a, n :: ns, true)
    else
      let (a, n, full) := ratchetValueSet a n false val val false
      if full then (a, n :: ns, true)
      else
        let (a, ns, full) := ensureFloorValue a stop val ns
        (a, n :: ns, full)

/-- The range's end keeps what was behind it. -/
def addEndNode (a : Arena) (nodes : List Node) (stop : Option Key) (opt : RangeOptions)
    (val : CacheValue) : Arena × List Node × Bool :=
  match stop with
  | none => (a, nodes, false)
  | some stop => addNode a nodes stop val (!opt.excludeTo) false true

/-- End first, so no gap leaks over it. -/
def addRangeNodes (a : Arena) (nodes : List Node) (start stop : Option Key) (opt : RangeOptions)
    (val : CacheValue) : Arena × List Node × Bool :=
  let (a, nodes, full) := addEndNode a nodes stop opt val
  if full then (a, nodes, true)
  else
    match start with
    | none => (a, nodes, false)
    | some start =>
      let (a, nodes, full) := addNode a nodes start val (!opt.excludeFrom) true false
      if full then (a, nodes, true)
      else
        -- the iterator goes to the first node after the start, with or without a node there
        let c := seekForPrev nodes start
        let (a, after, full) := ensureFloorValue a stop val c.after
        (a, c.before.reverse ++ after, full)

/-! ## Pages -/

/-- One page of the cache. -/
structure Page where
  nodes : List Node := []
  maxTime : Int := 0
  isFull : Bool := false
deriving DecidableEq

namespace Page

def getMaxTimestamp (p : Page) : Timestamp := ratchetingTimeGet p.maxTime

def arena (p : Page) (full : List Bool) : Arena := ⟨p.maxTime, p.isFull, full⟩

def ofArena (a : Arena) (nodes : List Node) : Page := ⟨nodes, a.maxTime, a.isFull⟩

def addRange (p : Page) (full : List Bool) (start stop : Option Key) (opt : RangeOptions)
    (val : CacheValue) : Page × Bool :=
  let (a, nodes, filled) := addRangeNodes (p.arena full) p.nodes start stop opt val
  (ofArena a nodes, filled)

def lookupFrom (p : Page) (full : List Bool) (start : Key) (stop : Option Key)
    (opt : RangeOptions) : Page × List Bool × CacheValue :=
  let r := maxInRange (p.arena full) (seekForPrev p.nodes start) start stop opt
  (ofArena r.arena r.cursor.nodes, r.arena.full, r.maxVal)

def lookupTimestampRange (p : Page) (full : List Bool) (start stop : Option Key)
    (opt : RangeOptions) : Page × List Bool × CacheValue :=
  match start, stop with
  | none, none => (p, full, {})
  | some start, none => p.lookupFrom full start none opt
  | none, some stop =>
    if opt.excludeFrom && opt.excludeTo then (p, full, {})
    else p.lookupFrom full stop (some stop) {}
  | some start, some stop =>
    if stop < start then (p, full, {})
    else if start = stop then
      if opt.excludeFrom && opt.excludeTo then (p, full, {})
      else p.lookupFrom full stop (some stop) {}
    else p.lookupFrom full start (some stop) opt

end Page

/-- The pages with the floor of what was evicted. -/
structure IntervalSkl where
  pages : List Page := [{}]
  floorTS : Timestamp := {}
  minPages : ℕ := 2
deriving DecidableEq

namespace IntervalSkl

/-- The eviction loop of `rotatePages`, from the back page on. -/
def evict (minPages : ℕ) (minTSToRetain : Timestamp) : Timestamp → List Page → Timestamp × List Page
  | floorTS, [] => (floorTS, [])
  | floorTS, bp :: pages =>
    if pages.length + 1 < minPages then (floorTS, bp :: pages)
    else if minTSToRetain.lessEq bp.getMaxTimestamp then (floorTS, bp :: pages)
    else evict minPages minTSToRetain (floorTS.forward bp.getMaxTimestamp) pages

/-- A full page makes room for a new one. -/
def rotatePages (s : IntervalSkl) (fp : Page) (minTSToRetain : Timestamp) : IntervalSkl :=
  let (floorTS, pages) := evict s.minPages minTSToRetain s.floorTS s.pages.reverse
  { s with pages := { maxTime := fp.maxTime } :: pages.reverse, floorTS := floorTS }

/-- The answers of the arena, and the timestamp to retain if the pages are rotated. -/
structure Round where
  full : List Bool := []
  minTSToRetain : Timestamp := {}

/-- One attempt after another, each on a new page. -/
def addRangeLoop (start stop : Option Key) (opt : RangeOptions) (val : CacheValue) :
    List Round → IntervalSkl → Option IntervalSkl
  | [], _ => none
  | r :: rounds, s =>
    match s.pages with
    | [] => none
    | fp :: pages =>
      if val.ts.less s.floorTS then some s
      else
        let (fp, filled) := fp.addRange r.full start stop opt val
        let s := { s with pages := fp :: pages }
        if filled then
          addRangeLoop start stop opt val rounds (s.rotatePages fp r.minTSToRetain)
        else some s

/-- `AddRange`, which panics if both keys are nil or the range is inverted. -/
def addRange (s : IntervalSkl) (rounds : List Round) (start stop : Option Key)
    (opt : RangeOptions) (val : CacheValue) : Option IntervalSkl :=
  match start, stop with
  | none, none => none
  | some start, none => addRangeLoop (some start) none opt val rounds s
  | none, some stop =>
    if opt.excludeFrom && opt.excludeTo then some s
    else addRangeLoop none (some stop) {} val rounds s
  | some start, some stop =>
    if stop < start then none
    else if start = stop then
      if opt.excludeFrom && opt.excludeTo then some s
      else addRangeLoop none (some stop) {} val rounds s
    else addRangeLoop (some start) (some stop) opt val rounds s

def add (s : IntervalSkl) (rounds : List Round) (key : Key) (val : CacheValue) :
    Option IntervalSkl := s.addRange rounds none (some key) {} val

/-- Over the pages, newest first. -/
def lookupPages (start stop : Option Key) (opt : RangeOptions) (full : List Bool) :
    List Page → CacheValue → List Page × CacheValue
  | [], val => ([], val)
  | p :: pages, val =>
    if p.getMaxTimestamp.less val.ts then (p :: pages, val)
    else
      let (p, full, val₂) := p.lookupTimestampRange full start stop opt
      let (pages, val) := lookupPages start stop opt full pages (ratchetValue val val₂).1
      (p :: pages, val)

def lookupTimestampRange (s : IntervalSkl) (full : List Bool) (start stop : Option Key)
    (opt : RangeOptions) : Option (IntervalSkl × CacheValue) :=
  match start, stop with
  | none, none => none
  | start, stop =>
    let (pages, val) := lookupPages start stop opt full s.pages {}
    some ({ s with pages := pages }, (ratchetValue val ⟨s.floorTS, noTxnID⟩).1)

def lookupTimestamp (s : IntervalSkl) (full : List Bool) (key : Key) :
    Option (IntervalSkl × CacheValue) := s.lookupTimestampRange full none (some key) {}

end IntervalSkl
end MeshDB.Tscache
