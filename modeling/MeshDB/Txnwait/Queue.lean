import Mathlib.Data.Finset.Card
import MeshDB.Lib.Reachability
import MeshDB.Roachpb.Txn

/-!
# The wait queues for transactions

`txnwait.Queue`: a push of a pending transaction waits in the queue of the range with the record
of the pushee. A waiting pusher that is a transaction itself asks the range with its own record
which transactions wait for it. Where the pushee is among these, there is a deadlock, and one of
the pushers in it aborts its pushee.
-/
namespace MeshDB.Txnwait

open Roachpb Hlc Option

abbrev PushID := ℕ

abbrev RangeID := ℕ

/-! ## Transactions -/

def minTxnPriority : ℕ := 0

def maxTxnPriority : ℕ := 2147483647

/-- A transaction with what pushes look at. -/
structure Txn extends Transaction where
  priority : ℕ := 0
  minTimestamp : Timestamp := {}
  lastHeartbeat : Timestamp := {}
deriving DecidableEq

/-- The pushee as its pusher knows it. -/
structure TxnView extends TxnMeta where
  priority : ℕ := 0
  minTimestamp : Timestamp := {}
deriving DecidableEq

namespace Txn

def view (t : Txn) : TxnView where
  toTxnMeta := t.toTxnMeta
  priority := t.priority
  minTimestamp := t.minTimestamp

def isLocking (t : Txn) : Bool := t.key.isSome

/-- Synthetic read timestamps say nothing of the present. -/
def lastActive (t : Txn) : Timestamp :=
  if t.readTimestamp.synthetic then t.lastHeartbeat else t.lastHeartbeat.forward t.readTimestamp

/-- The minimum priority is never upgraded. -/
def upgradePriority (priority minPriority : ℕ) : ℕ :=
  if priority < minPriority ∧ priority ≠ minTxnPriority then minPriority else priority

/-- `Update`, which ends the process if it is a different transaction. -/
def update (t o : Txn) : Option Txn :=
  (t.toTransaction.update o.toTransaction).map fun u =>
    { toTransaction := u
      priority := upgradePriority t.priority o.priority
      minTimestamp :=
        if t.minTimestamp.isEmpty then o.minTimestamp
        else if o.minTimestamp.isEmpty then t.minTimestamp
        else t.minTimestamp.backward o.minTimestamp
      lastHeartbeat := t.lastHeartbeat.forward o.lastHeartbeat }

end Txn

/-- `SynthesizeTxnFromMeta`: whether the record can still be written, and the lowest commit
timestamp. -/
def synthesizeTxnFromMeta (txn : TxnView) (canCreate : Bool) (minCommitTS : Timestamp) : Txn :=
  let synth : Txn :=
    { toTransaction := { toTxnMeta := txn.toTxnMeta }, priority := txn.priority
      minTimestamp := txn.minTimestamp, lastHeartbeat := txn.minTimestamp }
  if txn.minTimestamp.isEmpty then { synth with status := .aborted }
  else if canCreate then
    { synth with writeTimestamp := txn.writeTimestamp.forward minCommitTS }
  else { synth with status := .aborted }

/-! ## Pushes -/

/-- `kvpb.PushTxnType`. -/
inductive PushTxnType where
  | timestamp
  | abort
  | touch
deriving DecidableEq

/-- A `PushTxn` request. -/
structure PushTxnRequest where
  pusherTxn : Txn
  pusheeTxn : TxnView
  pushType : PushTxnType := .abort
  pushTo : Timestamp := {}
  force : Bool := false
deriving DecidableEq

/-- Only the two extremes stand out. -/
def normalizePriority (p : ℕ) : ℕ :=
  if p = minTxnPriority ∨ p = maxTxnPriority then p else minTxnPriority + 1

def canPushWithPriority (pusher pushee : ℕ) : Bool :=
  decide (normalizePriority pushee < normalizePriority pusher)

/-- The push need not wait in the queue. -/
def shouldPushImmediately (req : PushTxnRequest) : Bool :=
  if req.force then true
  else if req.pushType = .touch then true
  else canPushWithPriority req.pusherTxn.priority req.pusheeTxn.priority

/-- The push has what it asked for. -/
def isPushed (req : PushTxnRequest) (txn : Txn) : Bool :=
  txn.status.isFinalized || (req.pushType = .timestamp && req.pushTo.lessEq txn.writeTimestamp)

/-- The heartbeat is too old. -/
def isExpired (txnLivenessThreshold : ℤ) (now : Timestamp) (txn : Txn) : Bool :=
  ({ txn.lastActive with wallTime := txn.lastActive.wallTime + txnLivenessThreshold } :
    Timestamp).less now

/-- The goroutine that queries the pusher. -/
inductive QueryPhase where
  | off
  /-- A query is under way, with the dependents that are known. -/
  | sent (known : Finset TxnID)
  /-- The query waits for an update of the pusher, perhaps only for some time. -/
  | waiting (known : Finset TxnID) (maxWait : Bool)
  | proceed
  | answered (txn : Txn) (dependents : Finset TxnID)
  | updated (known : Finset TxnID)
deriving DecidableEq

/-- Where the `select` loop of a push stands. -/
inductive LoopPhase where
  | selecting
  /-- The timer for the pushee has fired. -/
  | queryingPushee
  | pusheeAnswered (txn : Txn)
  | forcing
  | done
deriving DecidableEq

/-- A `waitingPush`, with the variables of its `waitForPush`. -/
structure Push where
  req : PushTxnRequest
  dependents : Finset TxnID := ∅
  /-- What is on the channel `pending`. -/
  pending : Option (Option Txn) := none
  /-- The pusher as its queries have updated it. -/
  pusher : Txn
  pusherPriority : ℕ
  pusheePriority : ℕ
  query : QueryPhase
  loop : LoopPhase := .selecting
deriving DecidableEq

def Push.new (req : PushTxnRequest) : Push where
  req := req
  pusher := req.pusherTxn
  pusherPriority := req.pusherTxn.priority
  pusheePriority := req.pusheeTxn.priority
  query := if req.pusherTxn.id ≠ 0 ∧ req.pusherTxn.isLocking then .sent ∅ else .off

/-! ## The system -/

/-- A pushee with the pushes waiting for it. -/
structure PendingTxn where
  txn : Txn
  waitingPushes : List PushID := []
deriving DecidableEq

/-- The queues of all ranges, nil where not enabled, with all pushes and transaction records. -/
structure System where
  queues : RangeID → Option (TxnID → Option PendingTxn)
  pushes : PushID → Option Push
  records : TxnID → Option Txn

def System.initial : System := ⟨fun _ => none, fun _ => none, fun _ => none⟩

namespace System

variable (home : TxnID → RangeID) (s : System)

/-- The entry of a transaction in the queue of the range with its record. -/
def pendingTxn (t : TxnID) : Option PendingTxn := (s.queues (home t)).bind fun txns => txns t

/-- Changes the entry of a transaction, if its queue is enabled. -/
def setPendingTxn (t : TxnID) (pt : Option PendingTxn) : System :=
  { s with
    queues := Function.update s.queues (home t)
      ((s.queues (home t)).map fun txns => Function.update txns t pt) }

def setPush (k : PushID) (p : Push) : System :=
  { s with pushes := Function.update s.pushes k (some p) }

/-- The pushers of `pt` with their own dependents. -/
def getDependentsSet (pt : PendingTxn) : Finset TxnID :=
  pt.waitingPushes.foldr (fun k set =>
    match s.pushes k with
    | some p =>
      if p.req.pusherTxn.id ≠ 0 then insert p.req.pusherTxn.id (p.dependents ∪ set) else set
    | none => set) ∅

/-- What the queue of `t` knows to wait for it. -/
def getDependents (t : TxnID) : Finset TxnID :=
  match s.pendingTxn home t with
  | some pt => s.getDependentsSet pt
  | none => ∅

/-- A waiting query has something new to report. -/
def isTxnUpdated (pt : PendingTxn) (txn : TxnView) (known : Finset TxnID) : Bool :=
  if pt.txn.status.isFinalized || decide (txn.priority < pt.txn.priority) then true
  else
    decide (known.card ≠ (s.getDependentsSet pt).card) ||
      decide (¬ known ⊆ s.getDependentsSet pt)

/-- A query waits no longer for updates of the transactions. -/
def released (p : Push) (t : TxnID → Bool) : Push :=
  match p.query with
  | .waiting _ _ => if t p.req.pusherTxn.id then { p with query := .proceed } else p
  | _ => p

/-- Wakes the queries of the given pushers. -/
def releaseWaiting (t : TxnID → Bool) : System :=
  { s with pushes := fun k => (s.pushes k).map (released · t) }

def releaseWaitingQueries (t : TxnID) : System := s.releaseWaiting fun u => decide (u = t)

def enqueueTxn (txn : Txn) : System :=
  match s.pendingTxn home txn.id with
  | some pt => s.setPendingTxn home txn.id (some { pt with txn := txn })
  | none => s.setPendingTxn home txn.id (some { txn := txn })

/-- Sends on the channels of the pushes. -/
def sendPending (ks : List PushID) (txn : Option Txn) : System :=
  { s with pushes := fun k =>
      if k ∈ ks then (s.pushes k).map fun p => { p with pending := some txn } else s.pushes k }

/-- Tells the waiting pushes of a change. -/
def updateTxn (txn : Txn) : System :=
  let s := s.releaseWaitingQueries txn.id
  match s.pendingTxn home txn.id with
  | none => s
  | some pt => (s.setPendingTxn home txn.id none).sendPending pt.waitingPushes (some txn)

/-- The queue forgets its pushes, at a lease change. -/
def clear (r : RangeID) (disable : Bool) : System :=
  { s with
    queues := Function.update s.queues r (if disable then none else some fun _ => none)
    pushes := fun k => (s.pushes k).map fun p =>
      let waits :=
        match (s.queues r).bind fun txns => txns p.req.pusheeTxn.id with
        | some pt => decide (k ∈ pt.waitingPushes)
        | none => false
      released (if waits then { p with pending := some none } else p) fun t => decide (home t = r) }

def enable (r : RangeID) : System :=
  { s with queues := Function.update s.queues r (some ((s.queues r).getD fun _ => none)) }

/-- Joins the pushee's queue. -/
def maybeWaitForPush (k : PushID) (req : PushTxnRequest) : System :=
  if shouldPushImmediately req then s
  else
    match s.pendingTxn home req.pusheeTxn.id with
    | none => s
    | some pt =>
      if isPushed req pt.txn then s
      else
        let s := s.setPush k (.new req)
        let s := s.setPendingTxn home req.pusheeTxn.id
          (some { pt with waitingPushes := pt.waitingPushes ++ [k] })
        s.releaseWaitingQueries req.pusheeTxn.id

/-- Leaves the queue of the pushee. -/
def finish (k : PushID) (p : Push) : System :=
  let s := s.setPush k { p with loop := .done, query := .off }
  match s.pendingTxn home p.req.pusheeTxn.id with
  | none => s
  | some pt => s.setPendingTxn home p.req.pusheeTxn.id
      (some { pt with waitingPushes := pt.waitingPushes.filter fun j => decide (j ≠ k) })

/-- Whether the query waits in the pusher's queue. -/
def maybeWaitForQuery (p : Push) (known : Finset TxnID) : QueryPhase :=
  match s.queues (home p.req.pusherTxn.id) with
  | none => .proceed
  | some txns =>
    match txns p.req.pusherTxn.id with
    | some pt =>
      if s.isTxnUpdated pt p.pusher.view known then .proceed else .waiting known false
    | none => .waiting known true

/-- The record, or one synthesised from the request. -/
def queryTxn (txn : TxnView) (canCreate : Bool) (minCommitTS : Timestamp) : Txn :=
  match s.records txn.id with
  | some record => record
  | none => synthesizeTxnFromMeta txn canCreate minCommitTS

/-- Stores the pushee in the entry in which the push waits, which can be gone. -/
def storePushee (k : PushID) (t : TxnID) (txn : Txn) : System :=
  match s.pendingTxn home t with
  | some pt =>
    if k ∈ pt.waitingPushes then s.setPendingTxn home t (some { pt with txn := txn }) else s
  | none => s

/-- `waitForPush` with an answer about the pushee. -/
def handlePushee (txnLivenessThreshold : ℤ) (k : PushID) (p : Push) (updatedPushee : Txn)
    (now : Timestamp) : System :=
  let p := { p with pusheePriority := updatedPushee.priority }
  let s := s.storePushee home k p.req.pusheeTxn.id updatedPushee
  if updatedPushee.status.isFinalized then
    let s := if updatedPushee.status = .aborted then s.updateTxn home updatedPushee else s
    s.finish home k p
  else if isExpired txnLivenessThreshold now updatedPushee then s.finish home k p
  else s.setPush k { p with loop := .selecting }

/-- The pushee waits for the pusher, which has precedence. -/
def breaksDeadlock (p : Push) : Bool :=
  decide (p.req.pusheeTxn.id ∈ p.dependents) &&
    (decide (p.pusheePriority < p.pusherPriority) ||
      (decide (p.pusheePriority = p.pusherPriority) &&
        decide (p.req.pusheeTxn.id < p.req.pusherTxn.id)))

/-- What the loop does with an answer on its pusher. -/
def handlePusher (k : PushID) (p : Push) (known : Finset TxnID) : System :=
  if p.pusher.status.isFinalized then s.finish home k p
  else
    let p := { p with pusherPriority := max p.pusherPriority p.pusher.priority }
    let s := s.releaseWaitingQueries p.req.pusheeTxn.id
    if breaksDeadlock p then s.setPush k { p with loop := .forcing, query := .off }
    else s.setPush k { p with query := .sent known }

end System

/-! ## Events -/

/-- What happens in the system, one lock hold at a time. -/
inductive Event where
  | idle
  | join (k : PushID) (req : PushTxnRequest)
  | enqueueTxn (txn : Txn)
  | updateTxn (txn : Txn)
  | clear (r : RangeID) (disable : Bool)
  | enable (r : RangeID)
  | writeRecord (t : TxnID) (record : Option Txn)
  /-- The context is done, a query fails, or the server stops. -/
  | giveUp (k : PushID)
  | receivePending (k : PushID)
  | fireTimer (k : PushID)
  | answerPushee (k : PushID) (canCreate : Bool) (minCommitTS : Timestamp)
  | handlePushee (k : PushID) (now : Timestamp)
  | deliverQuery (k : PushID)
  | endMaxWait (k : PushID)
  | answerQuery (k : PushID) (canCreate : Bool) (minCommitTS : Timestamp)
  | receiveAnswer (k : PushID)
  | handlePusher (k : PushID)
  | forced (k : PushID)

namespace System

variable (home : TxnID → RangeID) (txnLivenessThreshold : ℤ)

/-- One event; `none` where it cannot happen. -/
def step (s : System) : Event → Option System
  | .idle => some s
  | .join k req => if (s.pushes k).isSome then none else some (s.maybeWaitForPush home k req)
  | .enqueueTxn txn => some (s.enqueueTxn home txn)
  | .updateTxn txn => some (s.updateTxn home txn)
  | .clear r disable => some (s.clear home r disable)
  | .enable r => some (s.enable r)
  | .writeRecord t record => some { s with records := Function.update s.records t record }
  | .giveUp k => (s.pushes k).bind fun p =>
    if p.loop = .done then none else some (s.finish home k p)
  | .receivePending k => (s.pushes k).bind fun p =>
    if p.loop = .selecting ∧ p.pending.isSome then some (s.finish home k p) else none
  | .fireTimer k => (s.pushes k).bind fun p =>
    if p.loop = .selecting then some (s.setPush k { p with loop := .queryingPushee }) else none
  | .answerPushee k canCreate minCommitTS => (s.pushes k).bind fun p =>
    if p.loop = .queryingPushee then
      some (s.setPush k { p with
        loop := .pusheeAnswered (s.queryTxn p.req.pusheeTxn canCreate minCommitTS) })
    else none
  | .handlePushee k now => (s.pushes k).bind fun p =>
    match p.loop with
    | .pusheeAnswered txn => some (s.handlePushee home txnLivenessThreshold k p txn now)
    | _ => none
  | .deliverQuery k => (s.pushes k).bind fun p =>
    match p.query with
    | .sent known => some (s.setPush k { p with query := s.maybeWaitForQuery home p known })
    | _ => none
  | .endMaxWait k => (s.pushes k).bind fun p =>
    match p.query with
    | .waiting _ true => some (s.setPush k { p with query := .proceed })
    | _ => none
  | .answerQuery k canCreate minCommitTS => (s.pushes k).bind fun p =>
    if p.query = .proceed then
      some (s.setPush k { p with
        query := .answered (s.queryTxn p.pusher.view canCreate minCommitTS)
          (s.getDependents home p.req.pusherTxn.id) })
    else none
  | .receiveAnswer k => (s.pushes k).bind fun p =>
    match p.query with
    | .answered txn dependents => (p.pusher.update txn).map fun pusher =>
      s.setPush k { p with
        dependents := p.dependents ∪ dependents
        pusher := pusher
        query := .updated dependents }
    | _ => none
  | .handlePusher k => (s.pushes k).bind fun p =>
    match p.query with
    | .updated known => if p.loop = .selecting then some (s.handlePusher home k p known) else none
    | _ => none
  | .forced k => (s.pushes k).bind fun p =>
    if p.loop = .forcing then some (s.finish home k p) else none

variable (s : System)

/-- The events as a relation, for the proofs. -/
inductive Steps : Event → System → Prop where
  | idle : Steps .idle s
  | join {k req} (hk : s.pushes k = none) : Steps (.join k req) (s.maybeWaitForPush home k req)
  | enqueueTxn {txn} : Steps (.enqueueTxn txn) (s.enqueueTxn home txn)
  | updateTxn {txn} : Steps (.updateTxn txn) (s.updateTxn home txn)
  | clear {r disable} : Steps (.clear r disable) (s.clear home r disable)
  | enable {r} : Steps (.enable r) (s.enable r)
  | writeRecord {t record} : Steps (.writeRecord t record)
      { s with records := Function.update s.records t record }
  | giveUp {k p} (hp : s.pushes k = some p) : Steps (.giveUp k) (s.finish home k p)
  | receivePending {k p} (hp : s.pushes k = some p) : Steps (.receivePending k) (s.finish home k p)
  | fireTimer {k p} (hp : s.pushes k = some p) (hloop : p.loop = .selecting) : Steps (.fireTimer k)
        (s.setPush k { p with loop := .queryingPushee })
  | answerPushee {k canCreate minCommitTS p} (hp : s.pushes k = some p)
      (hloop : p.loop = .queryingPushee) : Steps (.answerPushee k canCreate minCommitTS)
        (s.setPush k { p with
          loop := .pusheeAnswered (s.queryTxn p.req.pusheeTxn canCreate minCommitTS) })
  | handlePushee {k now p txn} (hp : s.pushes k = some p) (hloop : p.loop = .pusheeAnswered txn) :
      Steps (.handlePushee k now)
        (s.handlePushee home txnLivenessThreshold k p txn now)
  | deliverQuery {k p known} (hp : s.pushes k = some p) (hquery : p.query = .sent known) :
      Steps (.deliverQuery k)
        (s.setPush k { p with query := s.maybeWaitForQuery home p known })
  | endMaxWait {k p known} (hp : s.pushes k = some p) (hquery : p.query = .waiting known true) :
      Steps (.endMaxWait k) (s.setPush k { p with query := .proceed })
  | answerQuery {k canCreate minCommitTS p} (hp : s.pushes k = some p)
      (hquery : p.query = .proceed) : Steps (.answerQuery k canCreate minCommitTS)
        (s.setPush k { p with
          query := .answered (s.queryTxn p.pusher.view canCreate minCommitTS)
            (s.getDependents home p.req.pusherTxn.id) })
  | receiveAnswer {k p txn dependents pusher} (hp : s.pushes k = some p)
      (hquery : p.query = .answered txn dependents) (hpusher : p.pusher.update txn = some pusher) :
      Steps (.receiveAnswer k)
        (s.setPush k { p with
          dependents := p.dependents ∪ dependents
          pusher := pusher
          query := .updated dependents })
  | handlePusher {k p known} (hp : s.pushes k = some p) (hquery : p.query = .updated known)
      (hloop : p.loop = .selecting) : Steps (.handlePusher k) (s.handlePusher home k p known)
  | forced {k p} (hp : s.pushes k = some p) : Steps (.forced k) (s.finish home k p)

variable {home txnLivenessThreshold}

lemma step_push {s s' : System} {k : PushID} {f : Push → Option System}
    (h : (s.pushes k).bind f = some s') : ∃ p, s.pushes k = some p ∧ f p = some s' :=
  bind_eq_some_iff.mp h

lemma step_cases {s s' : System} {e : Event} (h : s.step home txnLivenessThreshold e = some s') :
    Steps home txnLivenessThreshold s e s' := by
  cases e with
  | idle => cases h; exact .idle
  | join k req =>
    simp only [step] at h
    split_ifs at h with hk
    cases h
    exact .join (by simpa using hk)
  | enqueueTxn txn => cases h; exact .enqueueTxn
  | updateTxn txn => cases h; exact .updateTxn
  | clear r disable => cases h; exact .clear
  | enable r => cases h; exact .enable
  | writeRecord t record => cases h; exact .writeRecord
  | giveUp k =>
    obtain ⟨p, hp, h⟩ := step_push h
    split_ifs at h
    cases h
    exact .giveUp hp
  | receivePending k =>
    obtain ⟨p, hp, h⟩ := step_push h
    split_ifs at h
    cases h
    exact .receivePending hp
  | fireTimer k =>
    obtain ⟨p, hp, h⟩ := step_push h
    split_ifs at h with hloop
    cases h
    exact .fireTimer hp hloop
  | answerPushee k canCreate minCommitTS =>
    obtain ⟨p, hp, h⟩ := step_push h
    split_ifs at h with hloop
    cases h
    exact .answerPushee hp hloop
  | handlePushee k now =>
    obtain ⟨p, hp, h⟩ := step_push h
    cases hloop : p.loop with
    | pusheeAnswered txn =>
      simp only [hloop, some.injEq] at h
      rw [← h]
      exact .handlePushee hp hloop
    | _ => simp [hloop] at h
  | deliverQuery k =>
    obtain ⟨p, hp, h⟩ := step_push h
    cases hquery : p.query with
    | sent known =>
      simp only [hquery, some.injEq] at h
      rw [← h]
      exact .deliverQuery hp hquery
    | _ => simp [hquery] at h
  | endMaxWait k =>
    obtain ⟨p, hp, h⟩ := step_push h
    cases hquery : p.query with
    | waiting known maxWait =>
      cases maxWait with
      | true =>
        simp only [hquery, some.injEq] at h
        rw [← h]
        exact .endMaxWait hp hquery
      | false => simp [hquery] at h
    | _ => simp [hquery] at h
  | answerQuery k canCreate minCommitTS =>
    obtain ⟨p, hp, h⟩ := step_push h
    split_ifs at h with hquery
    cases h
    exact .answerQuery hp hquery
  | receiveAnswer k =>
    obtain ⟨p, hp, h⟩ := step_push h
    cases hquery : p.query with
    | answered txn dependents =>
      simp only [hquery, map_eq_some_iff] at h
      obtain ⟨pusher, hpusher, rfl⟩ := h
      exact .receiveAnswer hp hquery hpusher
    | _ => simp [hquery] at h
  | handlePusher k =>
    obtain ⟨p, hp, h⟩ := step_push h
    cases hquery : p.query with
    | updated known =>
      simp only [hquery] at h
      split_ifs at h with hloop
      cases h
      exact .handlePusher hp hquery hloop
    | _ => simp [hquery] at h
  | forced k =>
    obtain ⟨p, hp, h⟩ := step_push h
    split_ifs at h
    cases h
    exact .forced hp

end System
end MeshDB.Txnwait
