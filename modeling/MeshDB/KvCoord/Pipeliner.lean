import MeshDB.KvCoord.CondensableSpanSet
import MeshDB.Kvpb.Api
import MeshDB.Lib.OrderedSet

/-!
# The transaction pipeliner

The `txnPipeliner` interceptor tracks the writes in flight and the lock footprint. Before a
request that depends on a write in flight it puts a `QueryIntent`. Where the code panics or ends
the process, an operation has no result.
-/
namespace MeshDB.KvCoord.Pipeliner

open Roachpb Kvpb

/-!
## The set of writes in flight

The `inFlightWriteSet` of the transaction pipeliner. It holds at most one write to a
key, the one with the largest sequence number.
-/

/-- The in-flight writes, ordered by key. -/
structure InFlightWriteSet where
  t : List SequencedWrite := []
  bytes : Int := 0
  sorted : OrderedSet.Sorted SequencedWrite.key t := by exact OrderedSet.sorted_nil
deriving DecidableEq

def keySize (k : Key) : Int := k.length

namespace InFlightWriteSet

def len (s : InFlightWriteSet) : ℕ := s.t.length

def get (s : InFlightWriteSet) (key : Key) : Option SequencedWrite :=
  s.t.find? fun w => w.key = key

/-- The later sequence number wins. -/
def insert (s : InFlightWriteSet) (key : Key) (seq : Int) : InFlightWriteSet :=
  match s.get key with
  | some other =>
    if other.sequence < seq then
      { t := OrderedSet.set SequencedWrite.key ⟨key, seq⟩ s.t
        bytes := s.bytes
        sorted := s.sorted.set }
    else s
  | none =>
    { t := OrderedSet.set SequencedWrite.key ⟨key, seq⟩ s.t
      bytes := s.bytes + keySize key
      sorted := s.sorted.set }

/-- A later write to the key stays in flight. -/
def remove (s : InFlightWriteSet) (key : Key) (seq : Int) : Option InFlightWriteSet :=
  if s.len = 0 then some s
  else
    match s.get key with
    | none => some s
    | some w =>
      if seq < w.sequence then some s
      else
        let t := OrderedSet.delete SequencedWrite.key w s.t
        let bytes := s.bytes - keySize key
        if bytes < 0 then none
        else if t.length = 0 ∧ bytes ≠ 0 then none
        else some { t := t, bytes := bytes, sorted := s.sorted.delete }

def ascend (s : InFlightWriteSet) : List SequencedWrite := s.t

/-- The in-flight writes inside a span. -/
def ascendRange (s : InFlightWriteSet) (start : Key) : Option Key → List SequencedWrite
  | none => (s.get start).toList
  | some endKey => s.t.filter fun w => start ≤ w.key ∧ w.key < endKey

def clear (_ : InFlightWriteSet) : InFlightWriteSet := {}

/-- The write, or a later one to its key, is in flight. -/
def Holds (s : InFlightWriteSet) (w : SequencedWrite) : Prop :=
  ∃ w' ∈ s.t, w'.key = w.key ∧ w.sequence ≤ w'.sequence

variable {s : InFlightWriteSet} {w : SequencedWrite}

lemma Holds.of_mem (h : w ∈ s.t) : s.Holds w :=
  ⟨w, h, rfl, le_rfl⟩

lemma eq_of_key_eq {w' : SequencedWrite} (hw : w ∈ s.t)
    (hw' : w' ∈ s.t) (hk : w.key = w'.key) : w = w' := s.sorted.eq_of_key_eq hw hw' hk

lemma get_eq_some {k : Key} : s.get k = some w ↔ w ∈ s.t ∧ w.key = k := by
  constructor
  · intro h
    exact ⟨List.mem_of_find?_eq_some h, by simpa using List.find?_some h⟩
  rintro ⟨hw, rfl⟩
  unfold get
  cases hfind : s.t.find? fun x => x.key = w.key with
  | none =>
    rw [List.find?_eq_none] at hfind
    exact absurd (hfind w hw) (by simp)
  | some w' =>
    have hk : w'.key = w.key := by simpa using List.find?_some hfind
    rw [eq_of_key_eq (List.mem_of_find?_eq_some hfind) hw hk]

lemma get_eq_none {k : Key} : s.get k = none ↔ ∀ w ∈ s.t, w.key ≠ k := by
  simp [get, List.find?_eq_none]

lemma mem_ascendRange {start : Key} {endKey : Option Key} : w ∈ s.ascendRange start endKey ↔
      w ∈ s.t ∧ match endKey with
        | none => w.key = start
        | some endKey => start ≤ w.key ∧ w.key < endKey := by
  cases endKey with
  | none => simp only [ascendRange, Option.mem_toList, get_eq_some]
  | some endKey => simp [ascendRange]

lemma insert_spec (s : InFlightWriteSet) (key : Key) (seq : Int) :
    (s.insert key seq).Holds ⟨key, seq⟩ ∧ (∀ w ∈ s.t, (s.insert key seq).Holds w) ∧
      ∀ w ∈ (s.insert key seq).t, w = ⟨key, seq⟩ ∨ w ∈ s.t := by
  have hset : ∀ w, w ∈ OrderedSet.set SequencedWrite.key ⟨key, seq⟩ s.t ↔
      w = ⟨key, seq⟩ ∨ (w ∈ s.t ∧ w.key ≠ key) := fun w => OrderedSet.mem_set s.sorted
  unfold insert
  cases hget : s.get key with
  | none =>
    have hne := get_eq_none.mp hget
    refine ⟨.of_mem ((hset _).mpr (.inl rfl)), fun w hw => ?_, fun w hw => ?_⟩
    · exact .of_mem ((hset w).mpr (.inr ⟨hw, hne w hw⟩))
    · exact ((hset w).mp hw).imp_right And.left
  | some other =>
    obtain ⟨hother, hkey⟩ := get_eq_some.mp hget
    dsimp only
    split_ifs with hlt
    · refine ⟨.of_mem ((hset _).mpr (.inl rfl)), fun w hw => ?_, fun w hw => ?_⟩
      · by_cases hk : w.key = key
        · have heq : w = other := eq_of_key_eq hw hother (hk.trans hkey.symm)
          exact ⟨⟨key, seq⟩, (hset _).mpr (.inl rfl), hk.symm, heq ▸ hlt.le⟩
        · exact .of_mem ((hset w).mpr (.inr ⟨hw, hk⟩))
      · exact ((hset w).mp hw).imp_right And.left
    · exact ⟨⟨other, hother, hkey, not_lt.mp hlt⟩, fun w hw => .of_mem hw, fun w hw => .inr hw⟩

lemma mem_of_remove {s' : InFlightWriteSet} {key : Key} {seq : Int}
    (h : s.remove key seq = some s') (w : SequencedWrite) :
    w ∈ s'.t ↔ w ∈ s.t ∧ (w.key = key → seq < w.sequence) := by
  unfold remove at h
  split_ifs at h with hlen
  · cases h
    have hnil : s.t = [] := List.length_eq_zero_iff.mp hlen
    simp [hnil]
  cases hget : s.get key with
  | none =>
    simp only [hget, Option.some.injEq] at h
    subst h
    have hne := get_eq_none.mp hget
    exact ⟨fun hw => ⟨hw, fun hk => absurd hk (hne w hw)⟩, And.left⟩
  | some w0 =>
    obtain ⟨hw0, rfl⟩ := get_eq_some.mp hget
    simp only [hget] at h
    split_ifs at h with hseq
    · cases h
      refine ⟨fun hw => ⟨hw, fun hk => ?_⟩, And.left⟩
      rw [eq_of_key_eq hw hw0 hk]
      exact hseq
    cases h
    refine (OrderedSet.mem_delete s.sorted).trans (and_congr_right fun hw => ?_)
    refine ⟨fun hne hk => absurd hk hne, fun hlt hk => hseq ?_⟩
    rw [← eq_of_key_eq hw hw0 hk]
    exact hlt hk

end InFlightWriteSet

/-! ## The interceptor -/

/-- The fields of `txnPipeliner`. -/
structure State where
  ifWrites : InFlightWriteSet := {}
  lockFootprint : CondensableSpanSet := {}
  disabled : Bool := false
deriving DecidableEq

/-- The cluster settings of the pipeliner. -/
structure Settings where
  pipelinedWritesEnabled : Bool := true
  pipelinedWritesMaxBatchSize : Int := 128
  trackedWritesMaxSize : Int := 4194304
  rejectTxnOverTrackedWritesBudget : Bool := false
  rangeOf : Key → Option ℕ := fun _ => some 1

def seqLe (a b : SequencedWrite) : Prop := a.sequence ≤ b.sequence

instance : DecidableRel seqLe := fun a b => inferInstanceAs (Decidable (a.sequence ≤ b.sequence))

/-- Adds a locking request to the `EndTxn`: a point write in flight, any other as a lock span. -/
def attachRequest (et : EndTxnRequest) (req : Request) : EndTxnRequest :=
  let h := req.header
  if req.isLocking then
    if req.isIntentWrite && !req.isRange then
      { et with inFlightWrites := et.inFlightWrites ++ [⟨h.key, h.sequence⟩] }
    else { et with lockSpans := et.lockSpans ++ [h.span] }
  else et

/-- Locks and in-flight writes join the `EndTxn`. -/
def attachLocksToEndTxn (st : State) (ba : BatchRequest) : Except Error BatchRequest :=
  match ba.getEndTxn with
  | none => .ok ba
  | some et =>
    if !et.lockSpans.isEmpty then
      .error { detail := .internal "client must not pass intents to EndTxn" }
    else if !et.inFlightWrites.isEmpty then
      .error { detail := .internal "client must not pass in-flight writes to EndTxn" }
    else
      let et := { et with
        lockSpans := st.lockFootprint.s, inFlightWrites := st.ifWrites.ascend }
      let et := ba.requests.dropLast.foldl attachRequest et
      .ok (ba.setEndTxn { et with
        lockSpans := (mergeSpans et.lockSpans).1
        inFlightWrites := et.inFlightWrites.insertionSort seqLe })

/-- Rejects a locking batch over the budget. The footprint may get merged. -/
def maybeRejectOverBudget (st : State) (ba : BatchRequest) (maxBytes : Int) :
    State × Option Error :=
  if !ba.requests.any Request.isLocking then (st, none)
  else
    let locksBudget := maxBytes - st.ifWrites.bytes
    let (footprint, estimate) := st.lockFootprint.estimateSize
      ((lockSpans ba.requests).map .ofSpan) locksBudget
    let st := { st with lockFootprint := footprint }
    if locksBudget < estimate then
      (st, some { detail := .internal "the transaction is locking too many rows" })
    else (st, none)

/-- Accumulates the bytes the batch would track. -/
def asyncConsensusLoop (st : State) (maxTrackingBytes : Int) : List Request → Int → Bool
  | [], _ => true
  | req :: rest, addedIFBytes =>
    if !req.isIntentWrite || req.isRange then false
    else
      let addedIFBytes := addedIFBytes + keySize req.header.key
      if maxTrackingBytes < st.ifWrites.bytes + addedIFBytes + st.lockFootprint.bytes then false
      else asyncConsensusLoop st maxTrackingBytes rest addedIFBytes

/-- The batch may be pipelined. -/
def canUseAsyncConsensus (cfg : Settings) (st : State) (ba : BatchRequest) : Bool :=
  if ba.getEndTxn.isSome then false
  else if !cfg.pipelinedWritesEnabled || st.disabled then false
  else if 0 < cfg.pipelinedWritesMaxBatchSize ∧
      cfg.pipelinedWritesMaxBatchSize < ba.requests.length then false
  else asyncConsensusLoop st cfg.trackedWritesMaxSize ba.requests 0

/-! ## Chaining -/

/-- The proof of one in-flight write. -/
def queryIntentFor (txn : Transaction) (w : SequencedWrite) : Request :=
  .queryIntent {
    key := w.key
    txn := { txn.toTxnMeta with sequence := w.sequence }
    errorIfMissing := true }

/-- The batch under construction, copied on write. -/
structure ChainState where
  forked : Option (List Request) := none
  chainedKeys : List Key := []
deriving DecidableEq

/-- Queries a write once a batch. -/
def chainWrite (txn : Transaction) (before : List Request) (cs : ChainState)
    (w : SequencedWrite) : ChainState :=
  let reqs := cs.forked.getD before
  if w.key ∈ cs.chainedKeys then { cs with forked := some reqs }
  else {
    forked := some (reqs ++ [queryIntentFor txn w])
    chainedKeys := cs.chainedKeys ++ [w.key] }

/-- The writes a request depends on. -/
def writesToChain (s : InFlightWriteSet) (req : Request) : List SequencedWrite :=
  if !req.isTransactional then s.ascend
  else
    match req with
    | .endTxn et => if et.commit then s.ascend else []
    | _ => s.ascendRange req.header.key req.header.endKey

def chainRound (txn : Transaction) (s : InFlightWriteSet) (before : List Request)
    (cs : ChainState) (req : Request) : ChainState :=
  let cs :=
    if cs.chainedKeys.length < s.len then
      (writesToChain s req).foldl (chainWrite txn before) cs
    else cs
  { cs with forked := cs.forked.map (· ++ [req]) }

def chainLoop (txn : Transaction) (s : InFlightWriteSet) (before : List Request)
    (cs : ChainState) : List Request → ChainState
  | [] => cs
  | req :: rest => chainLoop txn s (before ++ [req]) (chainRound txn s before cs req) rest

/-- Prefixes the requests with their queries. -/
def chainToInFlightWrites (st : State) (ba : BatchRequest) : BatchRequest :=
  if st.ifWrites.len = 0 then ba
  else
    match (chainLoop ba.txn st.ifWrites [] {} ba.requests).forked with
    | none => ba
    | some reqs => { ba with requests := reqs }

/-! ## Lock tracking -/

/-- What one reply proves or leaves in flight. -/
def trackResponse (ba : BatchRequest) (st : State) (req : Request) (resp : Response) :
    Option State :=
  match req with
  | .queryIntent qi =>
    match resp with
    | .queryIntent true => do
        let ifWrites ← st.ifWrites.remove qi.key qi.txn.sequence
        return { st with
          ifWrites := ifWrites, lockFootprint := st.lockFootprint.insertSpans [⟨qi.key, none⟩] }
    | .queryIntent false => some st
    | _ => none
  | _ =>
    if req.isLocking then
      if ba.asyncConsensus then
        let h := req.header
        if req.isRange then none
        else some { st with ifWrites := st.ifWrites.insert h.key h.sequence }
      else some { st with
        lockFootprint := st.lockFootprint.insertSpans (actualSpan req (some resp)).toList }
    else some st

/-- The loop over the requests and their responses, of which there must be enough. -/
def trackResponses (ba : BatchRequest) : List Request → List Response → State → Option State
  | [], _, st => some st
  | _ :: _, [], _ => none
  | req :: reqs, resp :: resps, st => do
      let st ← trackResponse ba st req resp
      trackResponses ba reqs resps st

/-- The requests tracked after an error: all but the one an unambiguous error points at. -/
def strippedRequests (ba : BatchRequest) (pErr : Error) : Option (List Request) :=
  match pErr.index with
  | some i =>
    if pErr.isUnambiguous then
      if i < ba.requests.length then some (ba.requests.eraseIdx i) else none
    else some ba.requests
  | none => some ba.requests

/-- The footprint gains the requests' spans. -/
def trackLocks (st : State) (reqs : List Request) : State :=
  { st with lockFootprint := st.lockFootprint.insertSpans (lockSpans reqs) }

def updateLockTrackingInner (st : State) (ba : BatchRequest) :
    Except Error BatchResponse → Option State
  | .error pErr => (strippedRequests ba pErr).map (trackLocks st)
  | .ok br => do
      let txn ← br.txn
      match txn.status with
      | .aborted => return trackLocks st ba.requests
      | .committed => return { st with ifWrites := st.ifWrites.clear }
      | _ => trackResponses ba ba.requests br.responses st

/-- Condenses a footprint over its budget, unless such transactions are rejected. -/
def condenseLocks (cfg : Settings) (st : State) : Option State :=
  let locksBudget := cfg.trackedWritesMaxSize - st.ifWrites.bytes
  if st.lockFootprint.bytes ≤ locksBudget then some st
  else if cfg.rejectTxnOverTrackedWritesBudget then some st
  else do
    let (footprint, _) ← st.lockFootprint.maybeCondense cfg.rangeOf locksBudget
    return { st with lockFootprint := footprint }

/-- Then condenses over the budget. -/
def updateLockTracking (cfg : Settings) (st : State) (ba : BatchRequest)
    (r : Except Error BatchResponse) : Option State := do
  let st ← updateLockTrackingInner st ba r
  condenseLocks cfg st

def stripQueryIntents (br : BatchResponse) : BatchResponse :=
  { br with responses := br.responses.filter fun resp => !resp.isQueryIntent }

/-- The index in the batch the client sent. -/
def adjustIndex (ba : BatchRequest) (i : ℕ) : ℕ :=
  i - (ba.requests.take i).countP Request.isQueryIntent

/-- A missing intent is a retry error to the client. -/
def adjustDetail : ErrorDetail → ErrorDetail
  | .intentMissing _ => .transactionRetry .asyncWriteFailure
  | detail => detail

/-- Fixes the index of an error, which must not lie behind the batch, and its detail. -/
def adjustError (ba : BatchRequest) (pErr : Error) : Option Error :=
  match pErr.index with
  | some i =>
    if i ≤ ba.requests.length then
      some { pErr with detail := adjustDetail pErr.detail, index := some (adjustIndex ba i) }
    else none
  | none => some { pErr with detail := adjustDetail pErr.detail }

/-- Refuses a batch over the tracking budget. -/
def checkBudget (cfg : Settings) (st : State) (ba : BatchRequest) : State × Option Error :=
  if cfg.rejectTxnOverTrackedWritesBudget then
    maybeRejectOverBudget st ba cfg.trackedWritesMaxSize
  else (st, none)

/-- The batch as it is sent on. -/
def prepare (cfg : Settings) (st : State) (ba : BatchRequest) : State × Except Error BatchRequest :=
  match attachLocksToEndTxn st ba with
  | .error pErr => (st, .error pErr)
  | .ok ba =>
    match checkBudget cfg st ba with
    | (st, some pErr) => (st, .error pErr)
    | (st, none) =>
      let ba := { ba with asyncConsensus := canUseAsyncConsensus cfg st ba }
      (st, .ok (chainToInFlightWrites st ba))

/-- The reply as the client sees it. -/
def finish (ba : BatchRequest) : Except Error BatchResponse → Option (Except Error BatchResponse)
  | .error pErr => (adjustError ba pErr).map .error
  | .ok br => some (.ok (stripQueryIntents br))

/-- Unproven writes may still hold locks. -/
def epochBumpedLocked (st : State) : State :=
  if st.ifWrites.len = 0 then st
  else { st with
    lockFootprint := (st.lockFootprint.insertSpans
      (st.ifWrites.ascend.map fun w => ⟨w.key, none⟩)).mergeAndSort
    ifWrites := st.ifWrites.clear }

/-- The initial savepoint, or one with the sequence number of its creation. -/
inductive Savepoint where
  | initial
  | active (seqNum : Int)
deriving DecidableEq

def Savepoint.seqNum : Savepoint → Int
  | .initial => 0
  | .active seqNum => seqNum

def Savepoint.removeWrites (sp : Savepoint) (writes : List SequencedWrite)
    (s : InFlightWriteSet) : Option InFlightWriteSet :=
  match sp with
  | .initial => some s.clear
  | .active _ => writes.foldlM (fun s w => s.remove w.key w.sequence) s

/-- Writes since the savepoint move to the footprint. -/
def rollbackToSavepointLocked (st : State) (sp : Savepoint) : Option State := do
  let writes := st.ifWrites.ascend.filter fun w => sp.seqNum < w.sequence
  let ifWrites ← sp.removeWrites writes st.ifWrites
  return { st with
    lockFootprint := (st.lockFootprint.insertSpans (writes.map fun w => ⟨w.key, none⟩)).mergeAndSort
    ifWrites := ifWrites }

/-! ## Runs -/

/-- A batch is sent and replied to, the epoch is bumped, or the transaction rolls back. -/
inductive Action where
  | send (cfg : Settings) (ba : BatchRequest) (reply : Except Error BatchResponse)
  | epochBumped
  | rollbackToSavepoint (sp : Savepoint)

/-- `SendLocked` around the lower sender's reply. -/
def sendLocked (cfg : Settings) (st : State) (ba : BatchRequest)
    (reply : Except Error BatchResponse) : Option (State × Except Error BatchResponse) :=
  match prepare cfg st ba with
  | (st, .error pErr) => some (st, .error pErr)
  | (st, .ok sent) => do
      let st ← updateLockTracking cfg st sent reply
      let result ← finish sent reply
      return (st, result)

/-- One call of the interceptor. -/
def step (st : State) : Action → Option State
  | .send cfg ba reply => (sendLocked cfg st ba reply).map Prod.fst
  | .epochBumped => some (epochBumpedLocked st)
  | .rollbackToSavepoint sp => rollbackToSavepointLocked st sp

end MeshDB.KvCoord.Pipeliner
