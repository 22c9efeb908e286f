import MeshDB.Lib.Outcome
import MeshDB.Lib.Pointwise
import MeshDB.Roachpb.Txn
import MeshDB.Spanset
import Mathlib.Data.List.DropRight

/-!
# The state of a lock

The `lockState` of the lock table: the holder of the lock on a key, its reservation and the
requests that wait for it. The pointers of a lock and of a guard are modelled by the data that
never changes, the rest is found in a memory.
-/
namespace MeshDB.Concurrency

open Roachpb Hlc Spanset Outcome Pointwise

/-- `lock.Durability`. -/
inductive Durability where
  | replicated
  | unreplicated
deriving DecidableEq

/-- What a request does at a conflicting lock. -/
inductive WaitPolicy where
  | block
  | error
  | skipLocked
deriving DecidableEq

/-- A lock struct: its identity, key and scope. -/
structure LockRef where
  id : ℕ
  key : Key
  ss : SpanScope
deriving DecidableEq

/-! ## Guards -/

/-- The immutable part of `lockTableGuardImpl`. -/
structure Guard where
  seqNum : ℕ
  txn : Option Transaction
  ts : Timestamp
  spans : SpanSet
  waitPolicy : WaitPolicy := .block
  maxWaitQueueLength : Int := 0
deriving DecidableEq

/-- The kinds of `waitingState`. -/
inductive WaitKind where
  | unset
  | waitFor
  | waitForDistinguished
  | waitElsewhere
  | waitSelf
  | waitQueueMaxLengthExceeded
  | doneWaiting
deriving DecidableEq

/-- What a waiting request is told. -/
structure WaitingState where
  kind : WaitKind := .unset
  txn : Option TxnMeta := none
  key : Key := []
  held : Bool := false
  queuedWriters : ℕ := 0
  queuedReaders : ℕ := 0
  guardAccess : SpanAccess := .spanReadOnly
deriving DecidableEq

namespace Guard

def txnMeta (g : Guard) : Option TxnMeta := g.txn.map Transaction.toTxnMeta

/-- The request belongs to the transaction. -/
def isSameTxn (g : Guard) (txn : TxnMeta) : Bool := g.txn.any fun t => t.id == txn.id

/-- The lock is reserved by the request's own transaction. -/
def isSameTxnAsReservation (g : Guard) (ws : WaitingState) : Bool :=
  !ws.held && ws.txn.any g.isSameTxn

end Guard

/-- The mutable part of `lockTableGuardImpl`. -/
structure GuardState where
  tableSnapshot : SpanScope → List LockRef := fun _ => []
  notRemovableLock : Option LockRef := none
  key : Key := []
  /-- The position `sa`, `ss` and `index` of the scan, counted over all spans in their order. -/
  index : Option ℕ := none
  startWait : Bool := false
  state : WaitingState := {}
  signal : Bool := false
  locks : Finset LockRef := ∅
  mustFindNextLockAfter : Bool := false
  toResolve : List LockUpdate := []

namespace GuardState

def updateState (s : GuardState) (newState : WaitingState) : GuardState :=
  { s with state := newState }

/-- Signals the request's channel. -/
def notify (s : GuardState) : GuardState := { s with signal := true }

def addLock (s : GuardState) (l : LockRef) : GuardState := { s with locks := insert l s.locks }

def deleteLock (s : GuardState) (l : LockRef) : GuardState := { s with locks := s.locks.erase l }

/-- The request may look for its next lock. -/
def doneWaitingAtLock (s : GuardState) (hasReservation : Bool) (l : LockRef) : GuardState :=
  let s := if hasReservation then s else s.deleteLock l
  { s with mustFindNextLockAfter := true }.notify

end GuardState

/-! ## Locks -/

/-- A queued writer; inactive ones do not wait here. -/
structure QueuedGuard where
  guard : Guard
  active : Bool
deriving DecidableEq

/-- What is known of the holder for one durability. -/
structure LockHolderInfo where
  txn : Option TxnMeta := none
  seqs : List Int := []
  ts : Timestamp := {}
deriving DecidableEq

def LockHolderInfo.isEmpty (lh : LockHolderInfo) : Bool :=
  lh.txn.isNone && lh.seqs.isEmpty && lh.ts.isEmpty

/-- The holder of a lock, with a record for each durability. -/
structure LockHolder where
  locked : Bool := false
  replicated : LockHolderInfo := {}
  unreplicated : LockHolderInfo := {}
deriving DecidableEq

/-- One lock with its holder, reservation and queues. -/
structure LockState where
  holder : LockHolder := {}
  reservation : Option Guard := none
  queuedWriters : List QueuedGuard := []
  waitingReaders : List Guard := []
  distinguishedWaiter : Option Guard := none
  notRemovable : Int := 0

/-- A lock with the guards it may change. -/
structure View where
  lock : LockState
  guards : Guard → GuardState

namespace LockHolder

/-- Panics where the source follows a nil pointer. -/
def isLockedBy (h : LockHolder) (id : TxnID) : Outcome Bool :=
  if h.locked then
    match h.unreplicated.txn with
    | some txn => .ok (id == txn.id)
    | none => (deref h.replicated.txn).map fun txn => id == txn.id
  else .ok false

/-- The holder and the timestamp of the lock, the lower one if it is held at both
durabilities. -/
def getLockHolder (h : LockHolder) : Option TxnMeta × Timestamp :=
  if !h.locked then (none, {})
  else if h.replicated.txn.isNone ||
      (h.unreplicated.txn.isSome && h.unreplicated.ts.less h.replicated.ts) then
    (h.unreplicated.txn, h.unreplicated.ts)
  else (h.replicated.txn, h.replicated.ts)

def info (h : LockHolder) : Durability → LockHolderInfo
  | .replicated => h.replicated
  | .unreplicated => h.unreplicated

def setInfo (h : LockHolder) (durability : Durability) (info : LockHolderInfo) : LockHolder :=
  match durability with
  | .replicated => { h with replicated := info }
  | .unreplicated => { h with unreplicated := info }

end LockHolder

namespace LockState

/-- Empty: no holder, no reservation, no waiter. -/
def isEmptyLock (l : LockState) : Outcome Bool :=
  if !l.holder.locked && l.reservation.isNone then
    if !l.holder.replicated.isEmpty || !l.holder.unreplicated.isEmpty then .error .panic
    else if !l.waitingReaders.isEmpty || !l.queuedWriters.isEmpty then .error .panic
    else .ok true
  else .ok false

def assertEmptyLock (l : LockState) : Outcome Unit := do
  if !(← l.isEmptyLock) then .error .panic

def clearLockHolder (l : LockState) : LockState := { l with holder := {} }

/-- The distinguished waiter leaves with `gone`. -/
def dropDistinguished (l : LockState) (gone : List Guard) : LockState :=
  { l with distinguishedWaiter := l.distinguishedWaiter.filter fun d => d ∉ gone }

end LockState

/-! ## Telling the waiters -/

/-- What the lock's waiters are to be told. -/
def waitForState (ref : LockRef) (l : LockState) : Outcome WaitingState :=
  let state : WaitingState := {
    kind := .waitFor
    key := ref.key
    queuedWriters := l.queuedWriters.length
    queuedReaders := l.waitingReaders.length }
  match l.holder.getLockHolder.1 with
  | some txn => .ok { state with txn := some txn, held := true }
  | none => (deref l.reservation).map fun r => { state with txn := r.txnMeta }

/-- The distinguished waiter, unless it waits for its own transaction, or the first active one that
does not. -/
def findDistinguished (state : WaitingState) (l : LockState) : Option Guard :=
  (l.distinguishedWaiter.filter fun d => !d.isSameTxnAsReservation state) <|>
    l.waitingReaders.head? <|>
      (l.queuedWriters.find? fun qg =>
        qg.active && !qg.guard.isSameTxnAsReservation state).map QueuedGuard.guard

/-- A waiting reader's new state. -/
def informReader (state : WaitingState) (distinguished : Option Guard) (g : Guard)
    (s : GuardState) : GuardState :=
  (s.updateState { state with
    kind := if distinguished = some g then .waitForDistinguished else state.kind
    guardAccess := .spanReadOnly }).notify

/-- A queued writer's new state. -/
def informWriter (state : WaitingState) (distinguished : Option Guard) (g : Guard)
    (s : GuardState) : GuardState :=
  (s.updateState (if g.isSameTxnAsReservation state then { state with kind := .waitSelf }
    else { state with
      kind := if distinguished = some g then .waitForDistinguished else state.kind
      guardAccess := .spanReadWrite })).notify

/-- `informActiveWaiters`. The distinguished waiter is the first one that can be. -/
def informActiveWaiters (ref : LockRef) (v : View) : Outcome View := do
  let state ← waitForState ref v.lock
  let distinguished := findDistinguished state v.lock
  let guards := modifyAll v.guards id (informReader state distinguished) v.lock.waitingReaders
  let guards := modifyAll guards QueuedGuard.guard
    (fun qg => informWriter state distinguished qg.guard)
    (v.lock.queuedWriters.filter QueuedGuard.active)
  return { v with
    lock := { v.lock with distinguishedWaiter := distinguished }
    guards := guards }

/-- The first waiter that is not the reservation's own. -/
def tryMakeNewDistinguished (v : View) : View :=
  let candidate : Option Guard :=
    match v.lock.waitingReaders with
    | g :: _ => some g
    | [] =>
      (v.lock.queuedWriters.find? fun qg => qg.active &&
        !(v.lock.reservation.bind Guard.txnMeta).any qg.guard.isSameTxn).map QueuedGuard.guard
  match candidate with
  | none => v
  | some g =>
    { v with
      lock := { v.lock with distinguishedWaiter := some g }
      guards := modify v.guards g fun s =>
        (s.updateState { s.state with kind := .waitForDistinguished }).notify }

/-! ## Releasing the waiters -/

/-- An inactive writer is only unlinked. -/
def releaseWriter (ref : LockRef) (qg : QueuedGuard) (s : GuardState) : GuardState :=
  if qg.active then s.doneWaitingAtLock false ref else s.deleteLock ref

def releaseWriters (ref : LockRef) (released kept : List QueuedGuard) (v : View) : View :=
  { v with
    lock := { v.lock.dropDistinguished
        ((released.filter QueuedGuard.active).map QueuedGuard.guard) with
      queuedWriters := kept }
    guards := modifyAll v.guards QueuedGuard.guard (releaseWriter ref) released }

def releaseReaders (ref : LockRef) (released kept : List Guard) (v : View) : View :=
  { v with
    lock := { v.lock.dropDistinguished released with waitingReaders := kept }
    guards := modifyAll v.guards id (fun _ s => s.doneWaitingAtLock false ref) released }

/-- The holder's own requests stop waiting. -/
def releaseWritersFromTxn (ref : LockRef) (txn : TxnMeta) (v : View) : View :=
  releaseWriters ref (v.lock.queuedWriters.filter fun qg => qg.guard.isSameTxn txn)
    (v.lock.queuedWriters.filter fun qg => !qg.guard.isSameTxn txn) v

/-- Readers below the new timestamp are released. -/
def increasedLockTs (ref : LockRef) (newTs : Timestamp) (v : View) : View :=
  let released := v.lock.waitingReaders.filter fun g => g.ts.less newTs
  let v' := releaseReaders ref released (v.lock.waitingReaders.filter fun g => !g.ts.less newTs) v
  if v.lock.distinguishedWaiter.any (· ∈ released) then tryMakeNewDistinguished v' else v'

/-- The first writer takes the reservation. -/
def reserve (ref : LockRef) (qg : QueuedGuard) (rest : List QueuedGuard) (v : View) : View :=
  let lock := { v.lock with reservation := some qg.guard, queuedWriters := rest }
  if qg.active then
    { v with
      lock := lock.dropDistinguished [qg.guard]
      guards := modify v.guards qg.guard fun s => s.doneWaitingAtLock true ref }
  else { v with lock := lock }

/-- Hands a released lock on to its waiters. -/
def lockIsFree (ref : LockRef) (v : View) : Outcome (View × Bool) :=
  if v.lock.holder.locked then .error .panic
  else if v.lock.reservation.isSome then .error .panic
  else
    let v := releaseReaders ref v.lock.waitingReaders [] v
    let nonTxn := fun qg : QueuedGuard => qg.guard.txn.isNone
    let v := releaseWriters ref (v.lock.queuedWriters.takeWhile nonTxn)
      (v.lock.queuedWriters.dropWhile nonTxn) v
    match v.lock.queuedWriters with
    | [] => do
        v.lock.assertEmptyLock
        return (v, true)
    | qg :: rest => (informActiveWaiters ref (reserve ref qg rest v)).map fun v => (v, false)

/-! ## Holding the lock -/

/-- Drops the sequence numbers rolled back. -/
def removeIgnored (held : List Int) (ignored : List IgnoredSeqNumRange) : List Int :=
  if ignored.isEmpty then held
  else
    held.filter fun n =>
      let i := BinarySearch.search ignored.length fun i =>
        (ignored[i]?).any fun r => decide (n ≤ r.stop)
      match ignored[i]? with
      | none => true
      | some r => decide (n < r.start)

/-- The unreplicated holder after an update. -/
def updateUnreplicated (up : LockUpdate) (advancedTs : Bool) (info : LockHolderInfo) :
    LockHolderInfo :=
  match info.txn with
  | none => info
  | some txn =>
    if txn.epoch < up.txn.epoch then {}
    else
      let info := if advancedTs then { info with ts := up.txn.writeTimestamp } else info
      if up.txn.epoch = txn.epoch then
        let seqs := removeIgnored info.seqs up.ignoredSeqNums
        if seqs.isEmpty then {}
        else { info with seqs := seqs, txn := if advancedTs then some up.txn else info.txn }
      else info

/-- `tryUpdateLockLocked` for a running transaction. The replicated record is forgotten. -/
def updatePending (ref : LockRef) (up : LockUpdate) (v : View) : Outcome (View × Bool × Bool) :=
  let ts := up.txn.writeTimestamp
  let h := v.lock.holder
  let advancedTs := h.getLockHolder.2.less ts
  let lock := { v.lock with holder := { h with
    replicated := if h.replicated.txn.isNone then h.replicated else {}
    unreplicated := updateUnreplicated up advancedTs h.unreplicated } }
  if lock.holder.unreplicated.txn.isNone then
    (lockIsFree ref { v with lock := lock.clearLockHolder }).map fun (v, gc) => (v, true, gc)
  else if advancedTs then .ok (increasedLockTs ref ts { v with lock := lock }, true, false)
  else .ok ({ v with lock := lock }, true, false)

/-- `tryUpdateLockLocked`: whether the transaction held the lock, and whether it can be collected.
-/
def tryUpdateLockLocked (ref : LockRef) (up : LockUpdate) (v : View) :
    Outcome (View × Bool × Bool) := do
  if ← v.lock.isEmptyLock then return (v, false, true)
  else if !(← v.lock.holder.isLockedBy up.txn.id) then return (v, false, false)
  else if up.status.isFinalized then
    (lockIsFree ref { v with lock := v.lock.clearLockHolder }).map fun (v, gc) => (v, true, gc)
  else updatePending ref up v

/-- Inserts into the sorted sequence numbers. -/
def insertSeq (seqs : List Int) (seq : Int) : Outcome (List Int) :=
  let i := BinarySearch.search seqs.length fun i => (seqs[i]?).any fun n => decide (seq ≤ n)
  match seqs[i]? with
  | none => .error .panic
  | some n => .ok (if n ≠ seq then seqs.take i ++ seq :: seqs.drop i else seqs)

/-- A new epoch forgets the old sequence numbers. -/
def currentSeqs (txn : TxnMeta) (info : LockHolderInfo) : List Int :=
  if info.txn.any (fun t => t.epoch < txn.epoch) then [] else info.seqs

/-- The record after another acquisition. One at a sequence number not above the last is idempotent.
-/
def acquireAgain (txn : TxnMeta) (ts : Timestamp) (info : LockHolderInfo) :
    Outcome LockHolderInfo :=
  let seqs := currentSeqs txn info
  if seqs.getLast?.any (fun n => txn.sequence ≤ n) then
    (insertSeq seqs txn.sequence).map fun seqs => { info with seqs := seqs }
  else .ok { txn := some txn, ts := info.ts.forward ts, seqs := seqs ++ [txn.sequence] }

/-- `acquireLock` of a lock that is held. An idempotent acquisition keeps the timestamp. -/
def reacquireLock (ref : LockRef) (durability : Durability) (txn : TxnMeta) (ts : Timestamp)
    (v : View) : Outcome View := do
  let beforeTxn ← deref v.lock.holder.getLockHolder.1
  let beforeTs := v.lock.holder.getLockHolder.2
  if txn.id ≠ beforeTxn.id then .error .fatal
  else do
    let info ← acquireAgain txn ts (v.lock.holder.info durability)
    let holder := v.lock.holder.setInfo durability info
    let v := { v with lock := { v.lock with holder := holder } }
    let afterTs := holder.getLockHolder.2
    return if beforeTs.less afterTs then increasedLockTs ref afterTs v else v

/-- The reservation goes back to the queue's front. -/
def queueReservation (l : LockState) : LockState :=
  match l.reservation with
  | none => l
  | some r => { l with
      reservation := none
      queuedWriters := ⟨r, false⟩ :: l.queuedWriters }

/-- An acquirer takes over the reservation. -/
def breakReservation (ref : LockRef) (txn : TxnMeta) (v : View) : Outcome View :=
  match v.lock.reservation with
  | some r =>
    match r.txn with
    | none => .error .panic
    | some rTxn =>
      if !v.lock.waitingReaders.isEmpty then .error .panic
      else if rTxn.id ≠ txn.id then .ok { v with lock := queueReservation v.lock }
      else
        .ok { v with
          lock := { v.lock with reservation := none }
          guards := modify v.guards r fun s => s.deleteLock ref }
  | none =>
    if !v.lock.queuedWriters.isEmpty || !v.lock.waitingReaders.isEmpty then .error .panic
    else .ok v

/-- `acquireLock`, for a held and for a free lock. -/
def acquireLock (ref : LockRef) (durability : Durability) (txn : TxnMeta) (ts : Timestamp)
    (v : View) : Outcome View :=
  if v.lock.holder.locked then reacquireLock ref durability txn ts v
  else do
    let v ← breakReservation ref txn v
    let holder := { v.lock.holder with locked := true }.setInfo durability
      { txn := some txn, ts := ts, seqs := [txn.sequence] }
    informActiveWaiters ref (releaseWritersFromTxn ref txn
      { v with lock := { v.lock with holder := holder } })

/-- Queues behind every earlier request. -/
def insertFromFront (qg : QueuedGuard) (queue : List QueuedGuard) : List QueuedGuard :=
  let lower := fun qqg : QueuedGuard => decide (qqg.guard.seqNum ≤ qg.guard.seqNum)
  queue.takeWhile lower ++ qg :: queue.dropWhile lower

/-- Records the replicated holder found by evaluation. -/
def addDiscoveredHolder (txn : TxnMeta) (ts : Timestamp) (h : LockHolder) : Outcome LockHolder := do
  if h.locked && !(← h.isLockedBy txn.id) then .error .fatal
  else if h.replicated.txn.isNone then
    return { h with
      locked := true
      replicated := { txn := some txn, ts := ts, seqs := h.replicated.seqs ++ [txn.sequence] } }
  else return { h with locked := true }

/-- A discovering writer queues at the lock. -/
def queueDiscoverer (ref : LockRef) (g : Guard) (sa : SpanAccess) (ts : Timestamp) (v : View) :
    Outcome View :=
  let v := { v with lock := queueReservation v.lock }
  match sa with
  | .spanReadOnly => if g.ts.less ts then .error .fatal else .ok v
  | .spanReadWrite =>
    if ref ∈ (v.guards g).locks then .ok v
    else
      .ok { v with
        lock := { v.lock with queuedWriters := insertFromFront ⟨g, false⟩ v.lock.queuedWriters }
        guards := modify v.guards g fun s => s.addLock ref }

/-- A lock found during evaluation joins the table. -/
def discoveredLock (ref : LockRef) (txn : TxnMeta) (ts : Timestamp) (g : Guard) (sa : SpanAccess)
    (notRemovable : Bool) (v : View) : Outcome View := do
  let lock := if notRemovable then
    { v.lock with notRemovable := v.lock.notRemovable + 1 } else v.lock
  let holder ← addDiscoveredHolder txn ts lock.holder
  let v ← queueDiscoverer ref g sa ts { v with lock := { lock with holder := holder } }
  informActiveWaiters ref (releaseWritersFromTxn ref txn v)

/-- Forgets a lock nobody queues for. -/
def tryFreeLockOnReplicatedAcquire (ref : LockRef) (v : View) : Outcome (View × Bool) :=
  if !v.lock.holder.locked || v.lock.holder.replicated.txn.isSome then .ok (v, false)
  else if !v.lock.queuedWriters.isEmpty then .ok (v, false)
  else do
    let (v, gc) ← lockIsFree ref { v with lock := v.lock.clearLockHolder }
    if !gc then .error .panic else return (v, true)

end MeshDB.Concurrency
