import MeshDB.Roachpb.Lease

/-!
# The check below raft

`CheckForcedErr` of `kvserverbase`: whether a command from the log is applied in the
replica state it meets there. It reads only the command and that state, apart from
`isLocal`, which tells whether the proposal was made on the same replica.
-/
namespace MeshDB.Kvserver

open Hlc Roachpb

/-- The id of a proposal; the empty key of an empty raft command is `none`. -/
abbrev CmdIDKey := Option Nat

structure ReplicatedEvalResult where
  isProbe : Bool := false
  isLeaseRequest : Bool := false
  lease : Option Lease := none
  /-- `State.Lease` is set in every lease request. -/
  lease_isSome : isLeaseRequest → lease.isSome := by decide
  prevLeaseProposal : Option ClockTimestamp := none
  writeTimestamp : Timestamp := {}
deriving DecidableEq

structure RaftCommand where
  deprecatedProposerLease : Option Lease := none
  proposerLeaseSequence : Nat := 0
  maxLeaseIndex : Nat := 0
  replicatedEvalResult : ReplicatedEvalResult := {}
deriving DecidableEq

structure ReplicaState where
  lease : Lease
  desc : RangeDescriptor
  leaseAppliedIndex : Nat := 0
  gcThreshold : Timestamp := {}
deriving DecidableEq

inductive ProposalRejectionType where
  | permanent
  | illegalLeaseIndex
deriving DecidableEq

/-- The message of the `LeaseRejectedError` of a lease request. -/
inductive LeaseRejection where
  /-- `proposed under invalid lease` -/
  | proposedUnderInvalidLease
  /-- `replica not part of range` -/
  | replicaNotPartOfRange
deriving DecidableEq

inductive ForcedError where
  | noopOnProbeCommand
  | noopOnEmptyRaftCommand
  | leaseRejected (existing requested : Lease) (message : LeaseRejection)
  /-- `stale proposal: command was proposed under lease #%d but is being applied under
  lease: %s` -/
  | notLeaseHolder (lease : Lease) (proposerLeaseSequence : Nat)
  /-- `command observed at lease index %d, but required < %d` -/
  | observedAtLeaseIndex (leaseIndex maxLeaseIndex : Nat)
  | batchTimestampBeforeGC (timestamp threshold : Timestamp)
deriving DecidableEq

structure ForcedErrResult where
  leaseIndex : Nat := 0
  rejection : ProposalRejectionType := .permanent
  forcedError : Option ForcedError := none
deriving DecidableEq

def RaftCommand.requestedLease (raftCmd : RaftCommand) : Lease :=
  if raftCmd.replicatedEvalResult.isLeaseRequest then
    raftCmd.replicatedEvalResult.lease.getD {}
  else {}

def leaseMismatch (raftCmd : RaftCommand) (replicaState : ReplicaState) : Bool :=
  let res := raftCmd.replicatedEvalResult
  match raftCmd.deprecatedProposerLease with
  | some proposerLease => !proposerLease.equivalent replicaState.lease
  | none =>
    if raftCmd.proposerLeaseSequence ≠ replicaState.lease.sequence then true
    else if res.isLeaseRequest then
      (replicaState.lease.sequence == raftCmd.requestedLease.sequence &&
          !replicaState.lease.equivalent raftCmd.requestedLease) ||
        (res.prevLeaseProposal.isSome && res.prevLeaseProposal != replicaState.lease.proposedTS)
    else false

/-- The check against the garbage collection threshold, the last one. -/
def checkGC (raftCmd : RaftCommand) (replicaState : ReplicaState) (leaseIndex : Nat) :
    ForcedErrResult :=
  if !raftCmd.replicatedEvalResult.writeTimestamp.isEmpty &&
      raftCmd.replicatedEvalResult.writeTimestamp.lessEq replicaState.gcThreshold then
    { leaseIndex := leaseIndex
      forcedError := some (.batchTimestampBeforeGC
        raftCmd.replicatedEvalResult.writeTimestamp replicaState.gcThreshold) }
  else { leaseIndex := leaseIndex }

@[simp] lemma checkGC_leaseIndex (raftCmd : RaftCommand) (replicaState : ReplicaState)
    (leaseIndex : Nat) : (checkGC raftCmd replicaState leaseIndex).leaseIndex = leaseIndex := by
  unfold checkGC
  split_ifs <;> rfl

def checkForcedErr (idKey : CmdIDKey) (raftCmd : RaftCommand) (isLocal : Bool)
    (replicaState : ReplicaState) : ForcedErrResult :=
  if raftCmd.replicatedEvalResult.isProbe then { forcedError := some .noopOnProbeCommand }
  else if idKey.isNone then
    { leaseIndex := replicaState.leaseAppliedIndex, forcedError := some .noopOnEmptyRaftCommand }
  else if leaseMismatch raftCmd replicaState then
    { leaseIndex := replicaState.leaseAppliedIndex
      forcedError := some
        (if raftCmd.replicatedEvalResult.isLeaseRequest then
          .leaseRejected replicaState.lease raftCmd.requestedLease .proposedUnderInvalidLease
        else .notLeaseHolder replicaState.lease raftCmd.proposerLeaseSequence) }
  else if raftCmd.replicatedEvalResult.isLeaseRequest then
    if (replicaState.desc.getReplicaDescriptor raftCmd.requestedLease.replica.storeID).isNone then
      { leaseIndex := replicaState.leaseAppliedIndex
        forcedError := some
          (.leaseRejected replicaState.lease raftCmd.requestedLease .replicaNotPartOfRange) }
    else checkGC raftCmd replicaState replicaState.leaseAppliedIndex
  else if replicaState.leaseAppliedIndex < raftCmd.maxLeaseIndex then
    checkGC raftCmd replicaState raftCmd.maxLeaseIndex
  else
    { leaseIndex := replicaState.leaseAppliedIndex
      rejection := if isLocal then .illegalLeaseIndex else .permanent
      forcedError := some
        (.observedAtLeaseIndex replicaState.leaseAppliedIndex raftCmd.maxLeaseIndex) }

def accepted (idKey : CmdIDKey) (raftCmd : RaftCommand) (isLocal : Bool)
    (replicaState : ReplicaState) : Bool :=
  (checkForcedErr idKey raftCmd isLocal replicaState).forcedError.isNone

section
variable {idKey : CmdIDKey} {raftCmd : RaftCommand} {isLocal : Bool} {replicaState : ReplicaState}

lemma checkForcedErr_leaseIndex :
    (checkForcedErr idKey raftCmd isLocal replicaState).leaseIndex = 0 ∨
      (checkForcedErr idKey raftCmd isLocal replicaState).leaseIndex =
        replicaState.leaseAppliedIndex ∨
      (replicaState.leaseAppliedIndex < raftCmd.maxLeaseIndex ∧
        (checkForcedErr idKey raftCmd isLocal replicaState).leaseIndex =
          raftCmd.maxLeaseIndex) := by
  unfold checkForcedErr
  split_ifs <;> simp
  next hidx => exact .inr (.inr hidx)

lemma maxLeaseIndex_le_of_illegal
    (h : (checkForcedErr idKey raftCmd isLocal replicaState).rejection = .illegalLeaseIndex) :
    raftCmd.maxLeaseIndex ≤ replicaState.leaseAppliedIndex := by
  unfold checkForcedErr checkGC at h
  split_ifs at h
  all_goals simp_all

/-- The garbage collection threshold does not stand in the way. -/
def RaftCommand.AboveGC (raftCmd : RaftCommand) (gcThreshold : Timestamp) : Prop :=
  raftCmd.replicatedEvalResult.writeTimestamp.isEmpty ∨
    gcThreshold.ord < raftCmd.replicatedEvalResult.writeTimestamp.ord

lemma checkGC_eq_iff {leaseIndex : Nat} :
    (checkGC raftCmd replicaState leaseIndex).forcedError = none ↔
      raftCmd.AboveGC replicaState.gcThreshold := by
  unfold checkGC RaftCommand.AboveGC
  split_ifs with h
  · rw [Bool.and_eq_true, Timestamp.lessEq_iff] at h
    simpa [h.2] using h.1
  rw [Bool.and_eq_true, not_and_or, Bool.not_eq_true, Bool.not_eq_true,
    Timestamp.not_lessEq_iff] at h
  simpa using h

lemma checkForcedErr_of_unobstructed
    (hprobe : raftCmd.replicatedEvalResult.isProbe = false) (hid : idKey.isSome)
    (hm : leaseMismatch raftCmd replicaState = false)
    (hreq : raftCmd.replicatedEvalResult.isLeaseRequest = false) :
    checkForcedErr idKey raftCmd isLocal replicaState =
      if replicaState.leaseAppliedIndex < raftCmd.maxLeaseIndex then
        checkGC raftCmd replicaState raftCmd.maxLeaseIndex
      else
        { leaseIndex := replicaState.leaseAppliedIndex
          rejection := if isLocal then .illegalLeaseIndex else .permanent
          forcedError := some
            (.observedAtLeaseIndex replicaState.leaseAppliedIndex raftCmd.maxLeaseIndex) } := by
  have hnone : idKey.isNone = false := by simpa using hid
  unfold checkForcedErr
  simp only [hprobe, hnone, hm, hreq, Bool.false_eq_true, if_false]

variable (h : accepted idKey raftCmd isLocal replicaState)
include h

lemma leaseMismatch_of_accepted : leaseMismatch raftCmd replicaState = false := by
  by_contra hne
  unfold accepted checkForcedErr at h
  split_ifs at h <;> simp_all

/-- A command that is applied was proposed under the sequence number of the current
lease. -/
lemma sequence_of_accepted (hdep : raftCmd.deprecatedProposerLease = none) :
    raftCmd.proposerLeaseSequence = replicaState.lease.sequence := by
  have hm := leaseMismatch_of_accepted h
  simp only [leaseMismatch, hdep] at hm
  by_contra hne
  rw [if_pos hne] at hm
  cases hm

lemma prevLeaseProposal_of_accepted (hdep : raftCmd.deprecatedProposerLease = none)
    (hreq : raftCmd.replicatedEvalResult.isLeaseRequest)
    (hprev : raftCmd.replicatedEvalResult.prevLeaseProposal ≠ none) :
    raftCmd.replicatedEvalResult.prevLeaseProposal = replicaState.lease.proposedTS := by
  have hm := leaseMismatch_of_accepted h
  have hseq := sequence_of_accepted h hdep
  simp only [leaseMismatch, hdep] at hm
  rw [if_neg (not_not.mpr hseq), if_pos hreq, Bool.or_eq_false_iff] at hm
  simpa [Option.isSome_iff_ne_none.mpr hprev] using hm.2

lemma leaseIndex_of_accepted (hreq : raftCmd.replicatedEvalResult.isLeaseRequest = false) :
    replicaState.leaseAppliedIndex < raftCmd.maxLeaseIndex := by
  unfold accepted checkForcedErr at h
  simp only [hreq, Bool.false_eq_true, if_false] at h
  split_ifs at h with hprobe hid hm hidx <;> try simp at h
  exact hidx

lemma isProbe_of_accepted : raftCmd.replicatedEvalResult.isProbe = false := by
  by_contra hne
  unfold accepted checkForcedErr at h
  simp_all

lemma aboveGC_of_accepted : raftCmd.AboveGC replicaState.gcThreshold := by
  unfold accepted checkForcedErr at h
  split_ifs at h <;> simp [checkGC_eq_iff] at h
  all_goals exact h

end
end MeshDB.Kvserver
