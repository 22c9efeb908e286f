import MeshDB.Kvserver.ForcedError
import Mathlib.Data.Finset.Basic

/-!
# The proposal buffer

`replica_proposal_buf.go`: requests that evaluate are tracked, their proposals enter the buffer,
and a flush hands them over to raft with a lease applied index and a closed timestamp. What an
evaluation produced is looked up in `reqs : ℕ → Request`; `ProposalData` keeps what changes
afterwards. Answers of other parts come from a `FlushEnv`. `none` is a fatal error or a panic.
-/
namespace MeshDB.Kvserver

open Hlc Roachpb

/-! ## Proposals -/

/-- What a proposal was made from. -/
structure Request where
  mine : Bool := true
  command : RaftCommand := {}
  appliesTimestampCache : Bool := false
  writeTimestamp : Timestamp := {}
  isSingleTransferLeaseRequest : Bool := false
  changeReplicas : Bool := false
  closedTimestampUpperBound : Timestamp := {}
  desc : Option RangeDescriptor := none
  gcThreshold : Option Timestamp := none
  deprecated_eq_none : command.deprecatedProposerLease = none := by rfl
  /-- Requests for leases and transfers do not consult the timestamp cache. -/
  not_lease : appliesTimestampCache →
    command.replicatedEvalResult.isLeaseRequest = false ∧
      isSingleTransferLeaseRequest = false := by decide
  /-- `evaluateProposal` copies the write timestamp. -/
  writeTimestamp_eq : appliesTimestampCache →
    command.replicatedEvalResult.writeTimestamp = writeTimestamp := by decide

namespace Request

def isSingleRequestLeaseRequest (q : Request) : Bool :=
  q.command.replicatedEvalResult.isLeaseRequest

end Request

/-- The evaluation tracker's token. -/
structure TrackedRequestToken where
  done : Bool := false
  /-- The removal token; the zero token has none. -/
  tok : Option ℕ := none
deriving DecidableEq

def TrackedRequestToken.stillTracked (t : TrackedRequestToken) : Bool := !t.done

/-- The fields marshalled last. -/
structure RaftCommandFooter where
  maxLeaseIndex : ℕ
  closedTimestamp : Timestamp
deriving DecidableEq

/-- What the waiting client is told. -/
inductive ProposalResult where
  | reply
  | rejected (err : ForcedError)
  /-- `reproposal failed due to closed timestamp` -/
  | closedTimestampPassed
  | proposeFailed
  /-- `refusing to acquire lease on follower` -/
  | redirected
  /-- `NewLeaseTransferRejectedBecauseTargetMayNeedSnapshotError` -/
  | leaseTransferRejected
  /-- `unable to determine whether command was applied via snapshot` -/
  | ambiguousSnapshot
  /-- `NewAmbiguousResultError` of the error of `ReinsertLocked` -/
  | ambiguousReinsert
deriving DecidableEq

/-- A proposal with the state of its reproposals. -/
structure ProposalData where
  created : Bool := false
  maxLeaseIndex : ℕ := 0
  /-- The footer of `encodedCommand`; its body is the command without these fields. -/
  footer : Option RaftCommandFooter := none
  tok : TrackedRequestToken := {}
  applied : Bool := false
  /-- The first result that was signalled; `doneCh` is nil afterwards. -/
  result : Option ProposalResult := none
deriving DecidableEq

namespace ProposalData

/-- Only the first result is delivered. -/
def signalProposalResult (p : ProposalData) (res : ProposalResult) : ProposalData :=
  if p.result.isNone then { p with result := some res } else p

end ProposalData

/-- A Raft log entry, by its command id. -/
structure Entry where
  idKey : ℕ
  footer : Option RaftCommandFooter := none
deriving DecidableEq

namespace Entry

def maxLeaseIndex (e : Entry) : ℕ := (e.footer.map RaftCommandFooter.maxLeaseIndex).getD 0

def closedTimestamp (e : Entry) : Timestamp :=
  (e.footer.map RaftCommandFooter.closedTimestamp).getD {}

/-- The command as it is applied. -/
def command (reqs : ℕ → Request) (e : Entry) : RaftCommand :=
  { (reqs e.idKey).command with maxLeaseIndex := e.maxLeaseIndex }

end Entry

/-! ## The replica -/

def propBufArrayMinSize : ℕ := 4

def propBufArrayMaxSize : ℕ := 256

def propBufArrayShrinkDelay : ℕ := 16

/-- The buffer, with its resizing heuristics. -/
structure PropBufArray where
  elems : List ℕ := []
  len : ℕ := propBufArrayMinSize
  shrink : ℕ := 0
deriving DecidableEq

/-- Grows at once, shrinks after a delay. -/
def PropBufArray.adjustSize (a : PropBufArray) (used : ℕ) : PropBufArray :=
  if used ≤ a.len / 4 then
    if a.len ≤ propBufArrayMinSize then a
    else if a.shrink + 1 = propBufArrayShrinkDelay then
      { a with shrink := 0, len := max (a.len / 2) propBufArrayMinSize }
    else { a with shrink := a.shrink + 1 }
  else if a.len ≤ used then
    { a with shrink := 0, len := if 2 * a.len ≤ propBufArrayMaxSize then 2 * a.len else a.len }
  else { a with shrink := 0 }

/-- The index and timestamp of a proposal. -/
structure Assignment where
  idKey : ℕ
  index : ℕ
  closedTimestamp : Timestamp
deriving DecidableEq

/-- What the side transport closed, with the lease applied index it published. -/
structure SideClosed where
  timestamp : Timestamp
  lai : ℕ
deriving DecidableEq

/-- A decoded command; `isLocal` when it is bound to its proposal. -/
structure ReplicatedCmd where
  entry : Entry
  isLocal : Bool
deriving DecidableEq

/-- A command with the verdict of its application. -/
structure CheckedCmd extends ReplicatedCmd where
  forcedErrResult : ForcedErrResult
deriving DecidableEq

/-- The replica: its buffer, tracker and Raft log. -/
structure Replica where
  storeID : ℕ
  replicaState : ReplicaState
  raftClosedTimestamp : Timestamp := {}
  /-- The tokens of the evaluation tracker, each with its timestamp. -/
  tracked : List (ℕ × Timestamp) := []
  nextTok : ℕ := 0
  arr : PropBufArray := {}
  assignedLAI : ℕ := 0
  assignedClosedTimestamp : Timestamp := {}
  /-- The tokens that are held by requests outside of their proposals. -/
  evaluating : List (ℕ × Timestamp) := []
  props : ℕ → ProposalData := fun _ => {}
  proposals : Finset ℕ := ∅
  sent : List Entry := []
  applyingEntries : Bool := false
  queue : List ReplicatedCmd := []
  staged : List CheckedCmd := []
  assigned : List Assignment := []
  accepted : List Entry := []
  sideClosed : List SideClosed := []

namespace Replica

def modify (r : Replica) (id : ℕ) (f : ProposalData → ProposalData) : Replica :=
  { r with props := Function.update r.props id (f (r.props id)) }

def encode (r : Replica) (id : ℕ) : Entry := ⟨id, (r.props id).footer⟩

/-- The proposal takes over the request's token. -/
def moveToken (r : Replica) (tok : Option ℕ) : Replica :=
  { r with evaluating := r.evaluating.filter fun x => some x.1 ≠ tok }

def untrack (r : Replica) (tok : Option ℕ) : Replica :=
  { r.moveToken tok with tracked := r.tracked.filter fun x => some x.1 ≠ tok }

/-- Untracks unless the token was taken over. -/
def doneIfNotMoved (r : Replica) (id : ℕ) : Replica :=
  if (r.props id).tok.done then r
  else (r.modify id fun p => { p with tok := { p.tok with done := true } }).untrack
    (r.props id).tok.tok

/-- Tells the client the result. -/
def finishApplication (r : Replica) (id : ℕ) (res : ProposalResult) : Replica :=
  r.modify id fun p => p.signalProposalResult res

def cleanupFailedProposal (r : Replica) (id : ℕ) : Replica :=
  { r with proposals := r.proposals.erase id }

def rejectProposalWithErr (r : Replica) (id : ℕ) (res : ProposalResult) : Replica :=
  (r.cleanupFailedProposal id).finishApplication id res

def registerProposal (r : Replica) (id : ℕ) : Replica :=
  { r with proposals := insert id r.proposals }

/-- Writes evaluate above the assigned closed timestamp. -/
def trackEvaluatingRequest (r : Replica) (wts : Timestamp) : Option (Replica × Timestamp × ℕ) :=
  r.assignedClosedTimestamp.next.map fun minTS =>
    ({ r with
        tracked := (r.nextTok, wts.forward minTS) :: r.tracked
        evaluating := (r.nextTok, wts.forward minTS) :: r.evaluating
        nextTok := r.nextTok + 1 },
      minTS, r.nextTok)

end Replica

/-! ## Flushing -/

/-- A tracker's lower bound on tracked requests. -/
structure EvalTracker where
  lowerBound : List (ℕ × Timestamp) → Timestamp
  lowerBound_le : ∀ tracked, ∀ x ∈ tracked, (lowerBound tracked).ord ≤ x.2.ord
  /-- The empty timestamp says that nothing is tracked. -/
  eq_nil_of_isEmpty : ∀ tracked, (lowerBound tracked).isEmpty → tracked = []

/-- What Raft does with an entry. -/
inductive StepResult where
  | appended
  | dropped
  | failed
deriving DecidableEq

/-- What the Raft group answers during a flush. -/
structure RaftGroup where
  iAmTheLeader : Bool := true
  leaderKnown : Bool := true
  leaderEligibleForLease : Bool := true
  ownsValidLease : Bool := false
  /-- The target of the lease transfer may need a snapshot, and safety checks are on. -/
  mayNeedSnapshot : ℕ → Bool := fun _ => false
  /-- The configuration change cannot be built. -/
  confChangeFails : ℕ → Bool := fun _ => false
  step : ℕ → StepResult := fun _ => .appended

/-- What a flush reads from outside. -/
structure FlushEnv where
  raftGroup : Option RaftGroup := some {}
  closedTSTarget : Timestamp := {}
  evalTracker : EvalTracker

/-- The loop state of `FlushLockedWithRaftGroup`. -/
structure Flush where
  r : Replica
  ents : List Entry := []
  calls : ℕ := 0
  firstErr : Bool := false

/-- The target, kept below evaluating requests. -/
def closedTarget (closedTSTarget lb upperBound : Timestamp) : Option Timestamp :=
  if lb.isEmpty then some (closedTSTarget.backward upperBound)
  else lb.floorPrev.map fun p => (closedTSTarget.backward p).backward upperBound

section
variable (reqs : ℕ → Request)

/-- Lease requests a follower must not make. -/
def maybeRejectUnsafeProposal (raftGroup : Option RaftGroup) (id : ℕ) : Option ProposalResult :=
  match raftGroup with
  | none => none
  | some g =>
    if (reqs id).isSingleRequestLeaseRequest then
      if g.iAmTheLeader then none
      else if g.leaderKnown && g.leaderEligibleForLease && !g.ownsValidLease then
        some .redirected
      else none
    else if (reqs id).isSingleTransferLeaseRequest then
      if g.mayNeedSnapshot id then some .leaseTransferRejected else none
    else none

namespace Replica

def marshallLAIAndClosedTimestamp (r : Replica) (id lai : ℕ) (closedTimestamp : Timestamp) :
    Replica :=
  r.modify id fun p =>
    { p with maxLeaseIndex := lai, footer := some ⟨lai, closedTimestamp⟩ }

/-- The next index and `closedTS`, or the one assigned before when that is not lower. -/
def assign (r : Replica) (id : ℕ) (closedTS : Timestamp) : Replica :=
  { r.marshallLAIAndClosedTimestamp id (r.assignedLAI + 1)
      (r.assignedClosedTimestamp.forward closedTS) with
    assignedLAI := r.assignedLAI + 1
    assignedClosedTimestamp := r.assignedClosedTimestamp.forward closedTS
    assigned := ⟨id, r.assignedLAI + 1, r.assignedClosedTimestamp.forward closedTS⟩ :: r.assigned }

/-- `allocateLAIAndClosedTimestampLocked` and its marshalling. A lease request gets neither. -/
def allocateLAIAndClosedTimestamp (r : Replica) (env : FlushEnv) (id : ℕ) : Option Replica :=
  if (reqs id).isSingleRequestLeaseRequest then
    some (r.marshallLAIAndClosedTimestamp id 0 {})
  else
    (closedTarget env.closedTSTarget (env.evalTracker.lowerBound r.tracked)
      (reqs id).closedTimestampUpperBound).map (r.assign id)

end Replica

namespace Flush

/-- One `Step` call of the group. -/
def send (f : Flush) (ents : List Entry) : StepResult → Flush
  | .appended => { f with r := { f.r with sent := f.r.sent ++ ents }, calls := f.calls + 1 }
  | .dropped => { f with calls := f.calls + 1 }
  | .failed => { f with calls := f.calls + 1, firstErr := true }

/-- Proposes the entries collected so far. -/
def proposeBatch (g : RaftGroup) (f : Flush) : Flush :=
  if f.ents = [] then f else { f.send f.ents (g.step f.calls) with ents := [] }

/-- Configuration changes go alone. -/
def handOver (g : RaftGroup) (f : Flush) (id : ℕ) : Flush :=
  if (reqs id).changeReplicas then
    if (f.proposeBatch g).firstErr then f.proposeBatch g
    else if g.confChangeFails id then { f.proposeBatch g with firstErr := true }
    else (f.proposeBatch g).send [f.r.encode id] (g.step (f.proposeBatch g).calls)
  else { f with ents := f.ents ++ [f.r.encode id] }

def proposeOne (env : FlushEnv) (f : Flush) (reproposal : Bool) (id : ℕ) : Option Flush :=
  match env.raftGroup with
  | none => some f
  | some g =>
    if f.firstErr then some f
    else if reproposal then some (f.handOver reqs g id)
    else (f.r.allocateLAIAndClosedTimestamp reqs env id).map fun r =>
      handOver reqs g { f with r := r } id

/-- One buffered proposal. -/
def flushOne (env : FlushEnv) (f : Flush) (id : ℕ) : Option Flush :=
  match maybeRejectUnsafeProposal reqs env.raftGroup id with
  | some res => some { f with r := (f.r.rejectProposalWithErr id res).doneIfNotMoved id }
  | none =>
    if (f.r.props id).tok.stillTracked && (reqs id).appliesTimestampCache &&
        (reqs id).writeTimestamp.less (env.evalTracker.lowerBound f.r.tracked) then none
    else
      proposeOne reqs env { f with r := (f.r.registerProposal id).doneIfNotMoved id }
        (!(f.r.props id).tok.stillTracked) id

/-- The last batch of the loop. -/
def finish (env : FlushEnv) (f : Flush) : Flush :=
  match env.raftGroup with
  | none => f
  | some g => if f.firstErr then f else f.proposeBatch g

end Flush

namespace Replica

/-- `FlushLockedWithRaftGroup`. -/
def flush (env : FlushEnv) (r : Replica) : Option (Replica × Bool) :=
  (r.arr.elems.foldlM (Flush.flushOne reqs env)
    { r := { r with arr := { r.arr with elems := [] } } }).map fun f =>
      ({ (f.finish env).r with
          arr := (f.finish env).r.arr.adjustSize r.arr.elems.length },
        (f.finish env).firstErr)

/-- `allocateIndex`, and whether there is room for one more proposal now. -/
def allocateIndex (env : FlushEnv) (r : Replica) : Option (Replica × Bool) :=
  if r.arr.elems.length < r.arr.len then some (r, true)
  else (r.flush reqs env).map fun x => (x.1, !x.2)

def insertIntoArray (r : Replica) (id : ℕ) : Replica :=
  { r with arr := { r.arr with elems := r.arr.elems ++ [id] } }

/-- `Replica.propose` of a command that passes the checks there, and whether it was
inserted. -/
def propose (env : FlushEnv) (r : Replica) (id : ℕ) (tok : Option ℕ) : Option (Replica × Bool) :=
  ((r.modify id fun p => { p with maxLeaseIndex := 0, footer := none }).allocateIndex reqs env).map
    fun x =>
      if x.2 then
        (((x.1.moveToken tok).modify id fun p =>
          { p with tok := ⟨false, tok⟩ }).insertIntoArray id, true)
      else
        ((x.1.modify id fun p => { p with maxLeaseIndex := (r.props id).maxLeaseIndex }).untrack
          tok, false)

/-- A reproposal under a new index. -/
def reinsert (env : FlushEnv) (r : Replica) (id : ℕ) : Option Replica :=
  (r.allocateIndex reqs env).map fun x =>
    if x.2 then x.1.insertIntoArray id
    else x.1.rejectProposalWithErr id .ambiguousReinsert

end Replica
end
end MeshDB.Kvserver
