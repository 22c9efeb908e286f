import MeshDB.Kvpb.Api
import MeshDB.KvCoord.CondensableSpanSet

/-!
# Truncating a batch to ranges

The `BatchTruncationHelper`: it restricts the requests of a batch to one range after the other
and tells where to look for the next range.
-/
namespace MeshDB
namespace Roachpb

def keyMin : Key := []

def keyMax : Key := [255, 255]

end Roachpb

namespace Kvpb

open Roachpb

def Request.setHeader (header : RequestHeader) : Request → Request
  | .op method _ => .op method header
  | .endTxn et => .endTxn { et with key := some header.key, sequence := header.sequence }
  | .queryIntent qi => .queryIntent { qi with key := header.key }

end Kvpb

namespace KvCoord

open Roachpb Kvpb

inductive ScanDirection where
  | ascending
  | descending
deriving DecidableEq

/-- The errors of the helper. -/
inductive TruncationError where
  /-- A request is not a range command, but its end key is set. -/
  | endKeySet (req : Request)
  /-- A local key is mixed with a global key in a range. -/
  | mixedKeys (req : Request)
  | address (msg : String)
deriving DecidableEq

/-- The addresses by `keys.Addr` and `keys.AddrUpperBound`, and the first local key of an address.
-/
structure Addressing where
  addr : Key → Except TruncationError Key
  addrUpperBound : Key → Except TruncationError Key
  makeRangeKeyPrefix : Key → Key
  addr_global : ∀ k, isLocalKey k = false → addr k = .ok k
  addrUpperBound_global : ∀ k, isLocalKey k = false → addrUpperBound k = .ok k

/-- One index of the slices. The header is the part not processed yet; without a position the
request is done. -/
structure Entry where
  request : Request
  header : RequestHeader
  position : Option ℕ
  isRange : Bool
deriving DecidableEq

namespace Entry

def endKey (e : Entry) : Key := e.header.span.endKeyBytes

/-- The request has been sent out whole. -/
def done (e : Entry) : Entry := { e with header := ⟨[], none, 0⟩, position := none }

end Entry

/-- The helper with the requests not yet sent. -/
structure BatchTruncationHelper where
  scanDir : ScanDirection
  mustPreserveOrder : Bool
  foundLocalKey : Bool
  /-- The requests in their original order, which the code keeps only for local keys. -/
  requests : List Request
  entries : List Entry := []
  startIdx : ℕ := 0
deriving DecidableEq

namespace BatchTruncationHelper

/-! ## Initialisation -/

/-- Refuses a range from local to global keys. -/
def initEntry (i : ℕ) (req : Request) : Except TruncationError Entry :=
  if req.isRange then
    if isLocalKey req.header.key != isLocalKey req.header.span.endKeyBytes then
      .error (.mixedKeys req)
    else .ok ⟨req, req.header, some i, true⟩
  else if req.header.span.isPoint then .ok ⟨req, req.header, some i, false⟩
  else .error (.endKeySet req)

def initEntries : ℕ → List Request → Except TruncationError (List Entry)
  | _, [] => .ok []
  | i, req :: reqs => do
      let e ← initEntry i req
      let es ← initEntries (i + 1) reqs
      return e :: es

/-- Point requests get an exclusive end. -/
def convertPoint (e : Entry) : Entry :=
  if e.header.span.isPoint then
    { e with header := { e.header with endKey := some e.header.key.next } }
  else e

/-- The order the requests are taken in. -/
def less (scanDir : ScanDirection) (e e' : Entry) : Bool :=
  match scanDir with
  | .ascending => decide (e.header.key < e'.header.key)
  | .descending => decide (e'.endKey < e.endKey)

def init (sort : List Entry → List Entry) (scanDir : ScanDirection) (mustPreserveOrder : Bool)
    (requests : List Request) : Except TruncationError BatchTruncationHelper :=
  if requests.any fun req => isLocalKey req.header.key then
    .ok ⟨scanDir, mustPreserveOrder, true, requests, [], 0⟩
  else do
    let entries ← initEntries 0 requests
    let entries := match scanDir with
      | .ascending => entries
      | .descending => entries.map convertPoint
    return ⟨scanDir, mustPreserveOrder, false, requests, sort entries, 0⟩

/-! ## The optimized strategy -/

/-- From the left, up to the range's end. -/
def truncateAscLoop (rs : RSpan) : List Entry → List Entry × List (Request × ℕ)
  | [] => ([], [])
  | e :: es =>
    match e.position with
    | none =>
      let r := truncateAscLoop rs es
      (e :: r.1, r.2)
    | some pos =>
      -- all of the remaining requests start after this range
      if rs.endKey ≤ e.header.key then (e :: es, [])
      else
        let r := truncateAscLoop rs es
        if !e.isRange then (e.done :: r.1, (e.request, pos) :: r.2)
        else if e.endKey ≤ rs.endKey then
          if e.request.header.key = e.header.key then
            (e.done :: r.1, (e.request, pos) :: r.2)
          else (e.done :: r.1, (e.request.setHeader e.header, pos) :: r.2)
        else
          ({ e with header := { e.header with key := rs.endKey } } :: r.1,
            (e.request.setHeader { e.header with endKey := some rs.endKey }, pos) :: r.2)

/-- From the right, down to the range's start. -/
def truncateDescLoop (rs : RSpan) : List Entry → List Entry × List (Request × ℕ)
  | [] => ([], [])
  | e :: es =>
    match e.position with
    | none =>
      let r := truncateDescLoop rs es
      (e :: r.1, r.2)
    | some pos =>
      -- all of the remaining requests end before this range
      if e.endKey ≤ rs.key then (e :: es, [])
      else
        let r := truncateDescLoop rs es
        if !e.isRange then (e.done :: r.1, (e.request, pos) :: r.2)
        else if rs.key ≤ e.header.key then
          if e.request.header.span.isPoint ∨ e.request.header.span.endKeyBytes = e.endKey then
            (e.done :: r.1, (e.request, pos) :: r.2)
          else (e.done :: r.1, (e.request.setHeader e.header, pos) :: r.2)
        else
          ({ e with header := { e.header with endKey := some rs.key } } :: r.1,
            (e.request.setHeader { e.header with key := rs.key }, pos) :: r.2)

def truncateLoop (scanDir : ScanDirection) (rs : RSpan) (es : List Entry) :
    List Entry × List (Request × ℕ) :=
  match scanDir with
  | .ascending => truncateAscLoop rs es
  | .descending => truncateDescLoop rs es

/-- Over global keys only. -/
def truncateOptimized (h : BatchTruncationHelper) (rs : RSpan) :
    BatchTruncationHelper × List (Request × ℕ) :=
  let r := truncateLoop h.scanDir rs (h.entries.drop h.startIdx)
  ({ h with entries := h.entries.take h.startIdx ++ r.1 }, r.2)

/-! ## The legacy strategy -/

/-- The part of one request inside the range. -/
def truncateOne (A : Addressing) (rs : RSpan) (args : Request) :
    Except TruncationError (Option Request) :=
  let header := args.header
  if !args.isRange then
    if !header.span.isPoint then .error (.endKeySet args)
    else (A.addr header.key).map fun keyAddr => if rs.containsKey keyAddr then some args else none
  else
    (A.addr header.key).bind fun keyAddr =>
      (A.addr header.span.endKeyBytes).bind fun endKeyAddr =>
        if isLocalKey header.key != isLocalKey header.span.endKeyBytes then .error (.mixedKeys args)
        else
          let isLocal := isLocalKey header.key
          let key := if keyAddr < rs.key then
              (if isLocal then A.makeRangeKeyPrefix rs.key else rs.key)
            else header.key
          let endKey := if endKeyAddr < rs.endKey then header.span.endKeyBytes
            else if isLocal then A.makeRangeKeyPrefix rs.endKey else rs.endKey
          let changed := decide (keyAddr < rs.key) || !decide (endKeyAddr < rs.endKey)
          -- the truncation may have left no keys
          if changed && decide (endKey ≤ key) then .ok none
          else if changed then .ok (some (args.setHeader ⟨key, some endKey, header.sequence⟩))
          else .ok (some args)

def truncateLegacyLoop (A : Addressing) (rs : RSpan) :
    ℕ → List Request → Except TruncationError (List (Request × ℕ))
  | _, [] => .ok []
  | pos, arg :: reqs => do
      let piece ← truncateOne A rs arg
      let rest ← truncateLegacyLoop A rs (pos + 1) reqs
      return (piece.toList.map fun req => (req, pos)) ++ rest

/-- Over every request, local keys included. -/
def truncateLegacy (A : Addressing) (reqs : List Request) (rs : RSpan) :
    Except TruncationError (List (Request × ℕ)) := truncateLegacyLoop A rs 0 reqs

/-! ## Seek keys -/

def nextLegacyLoop (A : Addressing) (k : Key) : List Request → Key → Except TruncationError Key
  | [], candidate => .ok candidate
  | req :: reqs, candidate => do
      let h := req.header
      let addr ← A.addr h.key
      if addr < k then
        if h.span.isPoint then nextLegacyLoop A k reqs candidate
        else
          let eAddr ← A.addrUpperBound h.span.endKeyBytes
          if k < eAddr then return k else nextLegacyLoop A k reqs candidate
      else nextLegacyLoop A k reqs (if addr < candidate then addr else candidate)

/-- The lowest key from `k` on that a request needs. -/
def nextLegacy (A : Addressing) (reqs : List Request) (k : Key) : Except TruncationError Key :=
  nextLegacyLoop A k reqs keyMax

def prevLegacyLoop (A : Addressing) (k : Key) : List Request → Key → Except TruncationError Key
  | [], candidate => .ok candidate
  | req :: reqs, candidate => do
      let h := req.header
      let addr ← A.addr h.key
      let endKey := if h.span.isPoint then h.key.next else h.span.endKeyBytes
      let eAddr ← A.addrUpperBound endKey
      if eAddr < k then prevLegacyLoop A k reqs (if candidate < eAddr then eAddr else candidate)
      else if addr < k then return k
      else prevLegacyLoop A k reqs candidate

/-- The highest key up to `k` that a request needs. -/
def prevLegacy (A : Addressing) (reqs : List Request) (k : Key) : Except TruncationError Key :=
  prevLegacyLoop A k reqs keyMin

/-- The first request not yet sent whole. -/
def firstUnprocessed (h : BatchTruncationHelper) : Option ℕ :=
  ((h.entries.drop h.startIdx).findIdx? fun e => e.position.isSome).map (h.startIdx + ·)

def next (A : Addressing) (h : BatchTruncationHelper) (k : Key) :
    Except TruncationError (BatchTruncationHelper × Key) :=
  if h.foundLocalKey then (nextLegacy A h.requests k).map fun seekKey => (h, seekKey)
  else
    match h.firstUnprocessed with
    | none => .ok ({ h with startIdx := h.requests.length }, keyMax)
    | some i => (A.addr ((h.entries[i]?.map fun e => e.header.key).getD [])).map fun seekKey =>
      ({ h with startIdx := i }, seekKey)

def prev (A : Addressing) (h : BatchTruncationHelper) (k : Key) :
    Except TruncationError (BatchTruncationHelper × Key) :=
  if h.foundLocalKey then (prevLegacy A h.requests k).map fun seekKey => (h, seekKey)
  else
    match h.firstUnprocessed with
    | none => .ok ({ h with startIdx := h.requests.length }, keyMin)
    | some i => (A.addr ((h.entries[i]?.map Entry.endKey).getD [])).map fun seekKey =>
      ({ h with startIdx := i }, seekKey)

/-- Where the range iterator goes next. -/
def nextSeekKey (A : Addressing) (h : BatchTruncationHelper) (rs : RSpan) :
    Except TruncationError (BatchTruncationHelper × Key) :=
  match h.scanDir with
  | .ascending => h.next A rs.endKey
  | .descending => h.prev A rs.key

/-! ## The order of the requests -/

/-- The `found` map of `restoreOrder`: the index of each position in the truncated requests. -/
def foundMap (numOriginalRequests : ℕ) (positions : List ℕ) : List (Option ℕ) :=
  positions.zipIdx.foldl (fun found p => found.set p.1 (some p.2))
    (List.replicate numOriginalRequests none)

/-- Back to the order of the batch. -/
def restoreOrder (numOriginalRequests : ℕ) (truncReqs : List (Request × ℕ)) : List (Request × ℕ) :=
  (foundMap numOriginalRequests (truncReqs.map Prod.snd)).zipIdx.filterMap fun p =>
    p.1.bind fun i => truncReqs[i]?.map fun r => (r.1, p.2)

/-! ## One range -/

/-- The part of the batch inside a range. -/
def truncate (A : Addressing) (h : BatchTruncationHelper) (rs : RSpan) :
    Except TruncationError (BatchTruncationHelper × List (Request × ℕ) × Key) := do
  let (h, truncReqs) ←
    if h.foundLocalKey then (truncateLegacy A h.requests rs).map fun truncReqs => (h, truncReqs)
    else
      let r := h.truncateOptimized rs
      let truncReqs := if h.mustPreserveOrder then restoreOrder h.requests.length r.2 else r.2
      .ok (r.1, truncReqs)
  let (h, seekKey) ← h.nextSeekKey A rs
  return (h, truncReqs, seekKey)

end BatchTruncationHelper

/-!
## The loop over the ranges of a batch

The loop of `divideAndSendBatchToRanges`: it seeks a range, truncates the batch to it, sends
the truncated batch and seeks the next range, until the batch is done or the caller stops it.
-/

open BatchTruncationHelper

/-! ## Ranges -/

def keysRangeStep (A : Addressing) (rs : RSpan) (req : Request) : Except TruncationError RSpan :=
  let h := req.header
  if !req.isRange && !h.span.isPoint then .error (.endKeySet req)
  else
    (A.addr h.key).bind fun key =>
      let start := if key < rs.key then key else rs.key
      if !decide (key < rs.endKey) && decide (keyMax < key) then
        .error (.address "must be less than KeyMax")
      else
        let stop := if key < rs.endKey then rs.endKey else key.next
        if h.span.isPoint then .ok ⟨start, stop⟩
        else
          (A.addrUpperBound h.span.endKeyBytes).bind fun endKey =>
            if keyMax < endKey then .error (.address "must be less than or equal to KeyMax")
            else .ok ⟨start, if stop < endKey then endKey else stop⟩

/-- The smallest span over all requests. -/
def keysRange (A : Addressing) (reqs : List Request) : Except TruncationError RSpan :=
  reqs.foldlM (keysRangeStep A) ⟨keyMax, keyMin⟩

/-- Descending seeks look to the left of the key. -/
def holdsKey (scanDir : ScanDirection) (desc : RSpan) (key : Key) : Bool :=
  match scanDir with
  | .ascending => desc.containsKey key
  | .descending => desc.containsKeyInverted key

/-- The range iterator. -/
def seekRange (ranges : List RSpan) (scanDir : ScanDirection) (key : Key) : Option RSpan :=
  if (scanDir = .ascending ∧ key = keyMax) ∨ (scanDir = .descending ∧ key = keyMin) then none
  else ranges.find? fun desc => holdsKey scanDir desc key

/-- The span reaches beyond the range. -/
def needAnother (scanDir : ScanDirection) (desc rs : RSpan) : Bool :=
  match scanDir with
  | .ascending => decide (desc.endKey < rs.endKey)
  | .descending => decide (rs.key < desc.key)

/-! ## The loop -/

/-- A truncated batch: its range, its span and its requests with their positions. -/
structure Visit where
  desc : RSpan
  rs : RSpan
  requests : List (Request × ℕ)
deriving DecidableEq

inductive LoopError where
  | truncation (e : TruncationError)
  /-- The range iterator could not seek. -/
  | seek (key : Key)
  | noOverlap (rs desc : RSpan)
  /-- The truncation resulted in an empty batch. -/
  | emptyBatch (rs : RSpan)
  | outOfFuel
deriving DecidableEq

/-- The batches sent, what the sender keeps, the last seek key, and whether it stopped. -/
structure LoopResult (σ : Type) where
  visits : List Visit
  state : σ
  seekKey : Key
  stopped : Bool

/-- What is left of the span. -/
def nextSpan (scanDir : ScanDirection) (rs : RSpan) (seekKey : Key) : RSpan :=
  match scanDir with
  | .ascending => { rs with key := seekKey }
  | .descending => { rs with endKey := seekKey }

/-- The loop, from a seek key on. Sending a batch tells whether to stop. -/
def rangeLoop {σ : Type} (A : Addressing) (ranges : List RSpan)
    (send : σ → Visit → Bool → σ × Bool) :
    ℕ → σ → BatchTruncationHelper → RSpan → Key → Except LoopError (LoopResult σ)
  | 0, _, _, _, _ => .error .outOfFuel
  | fuel + 1, st, h, rs, seekKey =>
    match seekRange ranges h.scanDir seekKey with
    | none => .error (.seek seekKey)
    | some desc =>
      match rs.intersect desc with
      | none => .error (.noOverlap rs desc)
      | some curRangeRS =>
        match h.truncate A curRangeRS with
        | .error e => .error (.truncation e)
        | .ok (h', requests, seekKey) =>
          if requests.isEmpty then .error (.emptyBatch rs)
          else
            let nextRS := nextSpan h.scanDir rs seekKey
            let lastRange := !needAnother h.scanDir desc rs
            let visit := ⟨desc, curRangeRS, requests⟩
            let r := send st visit lastRange
            if r.2 then .ok ⟨[visit], r.1, seekKey, true⟩
            else if lastRange || !decide (nextRS.key < nextRS.endKey) then
              .ok ⟨[visit], r.1, seekKey, false⟩
            else
              (rangeLoop A ranges send fuel r.1 h' nextRS seekKey).map fun res =>
                { res with visits := visit :: res.visits }

def firstSeekKey (scanDir : ScanDirection) (rs : RSpan) : Key :=
  match scanDir with
  | .ascending => rs.key
  | .descending => rs.endKey

/-- The loop over ranges; `σ` is the caller's state. -/
def divideBatch {σ : Type} (A : Addressing) (sort : List Entry → List Entry) (ranges : List RSpan)
    (scanDir : ScanDirection) (mustPreserveOrder : Bool) (send : σ → Visit → Bool → σ × Bool)
    (st : σ) (requests : List Request) : Except LoopError (LoopResult σ) := do
  let rs ← (keysRange A requests).mapError .truncation
  let h ← (init sort scanDir mustPreserveOrder requests).mapError .truncation
  rangeLoop A ranges send ranges.length st h rs (firstSeekKey scanDir rs)

end KvCoord
end MeshDB
