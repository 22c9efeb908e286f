import MeshDB.Util.Hlc

/-!
# Range leases

`roachpb.Lease` with the equivalence that decides whether a new lease gets a new
sequence number, and the replica descriptors a lease is checked against.
-/
namespace MeshDB.Hlc

/-- A reading of some node's clock: a timestamp without the synthetic flag. -/
structure ClockTimestamp where
  wallTime : Int := 0
  logical : Int := 0
deriving DecidableEq, Inhabited

namespace ClockTimestamp

def toTimestamp (t : ClockTimestamp) : Timestamp where
  wallTime := t.wallTime
  logical := t.logical

def less (t s : ClockTimestamp) : Bool := t.toTimestamp.less s.toTimestamp

def forward (t s : ClockTimestamp) : ClockTimestamp := if t.less s then s else t

def backward (t s : ClockTimestamp) : ClockTimestamp := if s.less t then s else t

def backwardWithTimestamp (t : ClockTimestamp) (s : Timestamp) : ClockTimestamp :=
  if s.less t.toTimestamp then ⟨s.wallTime, s.logical⟩ else t

end ClockTimestamp
end MeshDB.Hlc

namespace MeshDB.Roachpb

open Hlc

/-! ## Replicas of a range -/

/-- The roles of a replica in joint configurations. -/
inductive ReplicaType where
  | voterFull
  | voterIncoming
  | voterOutgoing
  | voterDemotingLearner
  | voterDemotingNonVoter
  | learner
  | nonVoter
deriving DecidableEq

structure ReplicaDescriptor where
  nodeID : Nat := 0
  storeID : Nat := 0
  replicaID : Nat := 0
  type : ReplicaType := .voterFull
deriving DecidableEq

namespace ReplicaDescriptor

def isVoterOldConfig (r : ReplicaDescriptor) : Bool :=
  match r.type with
  | .voterFull | .voterOutgoing | .voterDemotingNonVoter | .voterDemotingLearner => true
  | _ => false

def isVoterNewConfig (r : ReplicaDescriptor) : Bool :=
  match r.type with
  | .voterFull | .voterIncoming => true
  | _ => false

end ReplicaDescriptor

/-- The replicas of a range. Store ids start at 1: 0 is the store of no replica. -/
structure RangeDescriptor where
  internalReplicas : List ReplicaDescriptor
  storeID_ne_zero : ∀ r ∈ internalReplicas, r.storeID ≠ 0
deriving DecidableEq

namespace RangeDescriptor

def getReplicaDescriptor (d : RangeDescriptor) (storeID : Nat) : Option ReplicaDescriptor :=
  d.internalReplicas.find? fun r => r.storeID == storeID

def getReplicaDescriptorByID (d : RangeDescriptor) (replicaID : Nat) : Option ReplicaDescriptor :=
  d.internalReplicas.find? fun r => r.replicaID == replicaID

def containsVoterIncoming (d : RangeDescriptor) : Bool :=
  d.internalReplicas.any fun r => r.type == .voterIncoming

lemma ne_zero_of_getReplicaDescriptor {d : RangeDescriptor} {storeID : Nat}
    (h : (d.getReplicaDescriptor storeID).isSome) : storeID ≠ 0 := by
  obtain ⟨r, hr⟩ := Option.isSome_iff_exists.mp h
  have hid : r.storeID = storeID := by simpa using List.find?_some hr
  rw [← hid]
  exact d.storeID_ne_zero r (List.mem_of_find?_eq_some hr)

end RangeDescriptor

inductive ReceiveLeaseError where
  | replicaNotFound
  | replicaCannotHoldLease
deriving DecidableEq

/-- Only a voter, or a demoted last leaseholder. -/
def checkCanReceiveLease (wouldbeLeaseholder : ReplicaDescriptor) (replDescs : RangeDescriptor)
    (wasLastLeaseholder : Bool) : Option ReceiveLeaseError :=
  match replDescs.getReplicaDescriptorByID wouldbeLeaseholder.replicaID with
  | none => some .replicaNotFound
  | some repDesc =>
    if repDesc.isVoterNewConfig ||
        (repDesc.isVoterOldConfig && replDescs.containsVoterIncoming && wasLastLeaseholder) then
      none
    else some .replicaCannotHoldLease

/-! ## Leases -/

inductive LeaseAcquisitionType where
  | unspecified
  | transfer
  | request
deriving DecidableEq

inductive LeaseType where
  | expiration
  | epoch
deriving DecidableEq

/-- A range lease. -/
structure Lease where
  start : ClockTimestamp := {}
  expiration : Option Timestamp := none
  replica : ReplicaDescriptor := {}
  deprecatedStartStasis : Option Timestamp := none
  /-- The clock reading when the lease was proposed; nil only in the zero lease. -/
  proposedTS : Option ClockTimestamp := none
  epoch : Nat := 0
  sequence : Nat := 0
  acquisitionType : LeaseAcquisitionType := .unspecified
deriving DecidableEq

namespace Lease

def ownedBy (l : Lease) (storeID : Nat) : Bool := l.replica.storeID == storeID

def type (l : Lease) : LeaseType := if l.epoch = 0 then .expiration else .epoch

def getExpiration (l : Lease) : Timestamp := l.expiration.getD {}

/-- The lease without the fields that `Equivalent` never compares. -/
def comparable (l : Lease) : Lease :=
  { l with
    proposedTS := none
    deprecatedStartStasis := none
    sequence := 0
    acquisitionType := .unspecified
    replica := { l.replica with type := .voterFull } }

/-- Not symmetric: an expiration-based lease is equivalent to its extensions only. -/
def equivalent (l newL : Lease) : Bool :=
  match l.type with
  | .epoch =>
    if l.epoch = newL.epoch then
      { l.comparable with expiration := none, epoch := 0 } ==
        { newL.comparable with expiration := none, epoch := 0 }
    else
      { l.comparable with expiration := none } == { newL.comparable with expiration := none }
  | .expiration =>
    if l.getExpiration.lessEq newL.getExpiration then
      { l.comparable with epoch := 0, expiration := none } ==
        { newL.comparable with epoch := 0, expiration := none }
    else { l.comparable with epoch := 0 } == { newL.comparable with epoch := 0 }

/-- An epoch lease lives by node liveness. -/
def EpochHasNoExpiration (l : Lease) : Prop := l.type = .epoch → l.expiration = none

/-- `m` is the lease `l` again, with an expiration that did not move back. -/
structure Extends (l m : Lease) : Prop where
  nodeID : m.replica.nodeID = l.replica.nodeID
  storeID : m.replica.storeID = l.replica.storeID
  replicaID : m.replica.replicaID = l.replica.replicaID
  start : m.start = l.start
  expiration : l.getExpiration.ord ≤ m.getExpiration.ord

variable {l m k : Lease}

lemma Extends.trans (hlm : l.Extends m) (hmk : m.Extends k) : l.Extends k where
  nodeID := hmk.nodeID.trans hlm.nodeID
  storeID := hmk.storeID.trans hlm.storeID
  replicaID := hmk.replicaID.trans hlm.replicaID
  start := hmk.start.trans hlm.start
  expiration := hlm.expiration.trans hmk.expiration

lemma Extends.refl (l : Lease) : l.Extends l := ⟨rfl, rfl, rfl, rfl, le_rfl⟩

lemma extends_of_equivalent (hl : l.EpochHasNoExpiration) (hm : m.EpochHasNoExpiration)
    (h : l.equivalent m) : l.Extends m := by
  cases htype : l.type with
  | epoch =>
    simp only [equivalent, htype] at h
    have hl0 : l.epoch ≠ 0 := by
      intro h0
      simp [type, h0] at htype
    split_ifs at h with he
    · simp only [comparable, beq_iff_eq, Lease.mk.injEq, ReplicaDescriptor.mk.injEq] at h
      have hmtype : m.type = .epoch := by simp [type, ← he, hl0]
      have hexp : m.getExpiration = l.getExpiration := by
        rw [getExpiration, getExpiration, hl htype, hm hmtype]
      exact ⟨h.2.2.1.1.symm, h.2.2.1.2.1.symm, h.2.2.1.2.2.1.symm, h.1.symm, by rw [hexp]⟩
    · simp [comparable, he] at h
  | expiration =>
    simp only [equivalent, htype] at h
    split_ifs at h with he
    · simp only [comparable, beq_iff_eq, Lease.mk.injEq, ReplicaDescriptor.mk.injEq] at h
      exact ⟨h.2.2.1.1.symm, h.2.2.1.2.1.symm, h.2.2.1.2.2.1.symm, h.1.symm,
        Timestamp.lessEq_iff.mp he⟩
    simp only [comparable, beq_iff_eq, Lease.mk.injEq] at h
    have hexp : l.getExpiration = m.getExpiration := by
      rw [getExpiration, getExpiration, h.2.1]
    rw [hexp, Timestamp.lessEq_iff] at he
    exact absurd le_rfl he

end Lease
end MeshDB.Roachpb
