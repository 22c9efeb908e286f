import MeshDB.Roachpb.Lease

/-!
# Evaluation of lease requests

`RequestLease` and `TransferLease` of `batcheval`, with the `evalNewLease` they end in,
and the part of `InitOrJoinRequest` that decides which of the two is sent. The lease
they evaluate against is the copy the evaluating replica has of the current lease.
-/
namespace MeshDB.Batcheval

open Hlc Roachpb Option

/-! ## Requests and results -/

/-- What a prior leaseholder may have read, per segment of the keyspace. -/
structure ReadSummary where
  localLowWater : Timestamp := {}
  globalLowWater : Timestamp := {}
deriving DecidableEq

def ReadSummary.fromTimestamp (ts : Timestamp) : ReadSummary := ⟨ts, ts⟩

def ReadSummary.merge (c o : ReadSummary) : ReadSummary :=
  ⟨c.localLowWater.forward o.localLowWater, c.globalLowWater.forward o.globalLowWater⟩

structure RequestLeaseRequest where
  lease : Lease
  prevLease : Lease
  minProposedTS : Option ClockTimestamp := none
deriving DecidableEq

structure TransferLeaseRequest where
  lease : Lease
  prevLease : Lease
deriving DecidableEq

inductive RejectedMessage where
  /-- `expected previous lease %s, found %s` -/
  | expectedPreviousLease (expected found : Lease)
  /-- The text of the error of `CheckCanReceiveLease`. -/
  | cannotReceive (err : ReceiveLeaseError)
  /-- `extension moved start timestamp backwards` -/
  | extensionMovedStart
  /-- `requested lease overlaps previous lease` -/
  | overlapsPreviousLease
  /-- `illegal lease: epoch=%d, interval=[%s, %s)` -/
  | illegalLease (epoch : Nat) (start : ClockTimestamp) (expiration : Option Timestamp)
  /-- `replica not found` -/
  | replicaNotFound
  /-- `sequence number should not be set` -/
  | sequenceSet
deriving DecidableEq

inductive EvalError where
  | leaseRejected (existing requested : Lease) (message : RejectedMessage)
  /-- `TransferLease` returns the error of `CheckCanReceiveLease` as it is. -/
  | cannotReceive (err : ReceiveLeaseError)
  /-- `ProposedTS must be set` -/
  | assertionFailed
  /-- A nil expiration was dereferenced or the largest timestamp advanced. -/
  | panic
deriving DecidableEq

structure LeaseResult where
  lease : Lease
  prevLeaseProposal : Option ClockTimestamp
  priorReadSummary : Option ReadSummary
deriving DecidableEq

/-! ## Evaluation -/

def successor (lease prevLease : Lease) (isTransfer : Bool) : Lease :=
  { lease with
    sequence := if prevLease.equivalent lease then prevLease.sequence else prevLease.sequence + 1
    acquisitionType := if isTransfer then .transfer else .request }

def evalNewLease (desc : RangeDescriptor) (lease prevLease : Lease)
    (priorReadSum : Option ReadSummary) (isTransfer : Bool) : Except EvalError LeaseResult :=
  if lease.proposedTS.isNone then .error .assertionFailed
  else if (lease.type == .expiration && lease.getExpiration.lessEq lease.start.toTimestamp) ||
      (lease.type == .epoch && lease.expiration.isSome) then
    .error (.leaseRejected prevLease lease (.illegalLease lease.epoch lease.start lease.expiration))
  else if (desc.getReplicaDescriptor lease.replica.storeID).isNone then
    .error (.leaseRejected prevLease lease .replicaNotFound)
  else if lease.sequence ≠ 0 then .error (.leaseRejected prevLease lease .sequenceSet)
  else
    .ok { lease := successor lease prevLease isTransfer
          prevLeaseProposal := prevLease.proposedTS
          priorReadSummary := priorReadSum }

/-- The requested start, wound back towards the previous lease; `none` is a panic. -/
def effectiveStart (args : RequestLeaseRequest) (prevLease : Lease) (isExtension : Bool) :
    Option ClockTimestamp :=
  if prevLease.replica.storeID = 0 ∨ isExtension then
    let start := args.lease.start.backward prevLease.start
    match args.minProposedTS with
    | some ts => if isExtension then some (start.forward ts) else some start
    | none => some start
  else if prevLease.type = .expiration then
    (prevLease.expiration.bind Timestamp.next).map args.lease.start.backwardWithTimestamp
  else some args.lease.start

/-- The expiration of an expiration-based extension is forwarded; `none` is a panic. -/
def forwardExpiration (newLease prevLease : Lease) : Option Lease :=
  if newLease.type = .expiration then
    newLease.expiration.map fun t =>
      { newLease with expiration := some (t.forward prevLease.getExpiration) }
  else some newLease

/-- The last step of `RequestLease`, after the checks against the previous lease. -/
def finishRequest (desc : RangeDescriptor) (newLease prevLease : Lease) (start : ClockTimestamp) :
    Except EvalError LeaseResult :=
  let lease := { newLease with start := start }
  evalNewLease desc lease prevLease
    (if prevLease.equivalent lease then none
      else some (ReadSummary.fromTimestamp start.toTimestamp)) false

/-- The checks of `RequestLease` on the effective start, and its last step. -/
def checkStart (prevLease : Lease) (desc : RangeDescriptor) (args : RequestLeaseRequest)
    (newLease : Lease) (isExtension : Bool) (start : ClockTimestamp) :
    Except EvalError LeaseResult :=
  if isExtension then
    if start.less prevLease.start then
      .error (.leaseRejected prevLease args.lease .extensionMovedStart)
    else
      match forwardExpiration newLease prevLease with
      | none => .error .panic
      | some newLease => finishRequest desc newLease prevLease start
  else if prevLease.type = .expiration ∧ start.toTimestamp.less prevLease.getExpiration then
    .error (.leaseRejected prevLease args.lease .overlapsPreviousLease)
  else finishRequest desc newLease prevLease start

def requestLease (prevLease : Lease) (desc : RangeDescriptor) (args : RequestLeaseRequest) :
    Except EvalError LeaseResult :=
  if prevLease.sequence ≠ args.prevLease.sequence ∨
      prevLease.proposedTS ≠ args.prevLease.proposedTS then
    .error (.leaseRejected prevLease args.lease (.expectedPreviousLease args.prevLease prevLease))
  else
    let newLease :=
      { args.lease with
        deprecatedStartStasis := args.lease.deprecatedStartStasis <|> args.lease.expiration }
    let isExtension := prevLease.replica.storeID == newLease.replica.storeID
    match checkCanReceiveLease args.lease.replica desc isExtension with
    | some err => .error (.leaseRejected prevLease args.lease (.cannotReceive err))
    | none =>
      match effectiveStart args prevLease isExtension with
      | none => .error .panic
      | some start => checkStart prevLease desc args newLease isExtension start

def transferLease (prevLease : Lease) (desc : RangeDescriptor) (now : ClockTimestamp)
    (currentReadSummary : ReadSummary) (args : TransferLeaseRequest) :
    Except EvalError LeaseResult :=
  match checkCanReceiveLease args.lease.replica desc false with
  | some err => .error (.cannotReceive err)
  | none =>
    let newLease := { args.lease with start := args.lease.start.forward now }
    evalNewLease desc newLease prevLease
      (some (currentReadSummary.merge (ReadSummary.fromTimestamp newLease.start.toTimestamp))) true

inductive LeaseRequest where
  | request (args : RequestLeaseRequest)
  | transfer (args : TransferLeaseRequest)
deriving DecidableEq

/-- `InitOrJoinRequest` without a request in progress. A lease for a remote replica is fatal. -/
def initOrJoinRequest (storeID : Nat) (statusLease reqLease : Lease)
    (minProposedTS : ClockTimestamp) : Option LeaseRequest :=
  let prevLocal := statusLease.ownedBy storeID
  let nextLocal := reqLease.replica.storeID == storeID
  if !prevLocal && !nextLocal then none
  else if prevLocal && !nextLocal then
    some (.transfer { lease := reqLease, prevLease := statusLease })
  else
    some (.request
      { lease := reqLease, prevLease := statusLease, minProposedTS := some minProposedTS })

/-! ## What a successful evaluation says -/

/-- What holds of every lease that an evaluation against `prevLease` produces. -/
structure Follows (prevLease lease : Lease) : Prop where
  proposedTS : lease.proposedTS.isSome
  epoch : lease.EpochHasNoExpiration
  storeID : lease.replica.storeID ≠ 0
  sequence : (prevLease.Extends lease ∧ lease.sequence = prevLease.sequence) ∨
    lease.sequence = prevLease.sequence + 1

variable {desc : RangeDescriptor} {lease prevLease : Lease} {sum : Option ReadSummary}
  {isTransfer : Bool} {r : LeaseResult}

lemma evalNewLease_ok (hprev : prevLease.EpochHasNoExpiration)
    (h : evalNewLease desc lease prevLease sum isTransfer = .ok r) :
    Follows prevLease r.lease ∧ r.prevLeaseProposal = prevLease.proposedTS ∧
      r.lease.start = lease.start ∧ r.lease.replica = lease.replica ∧
      r.lease.proposedTS = lease.proposedTS := by
  unfold evalNewLease at h
  split_ifs at h with hts hlegal hdesc hseq
  cases h
  simp only [Bool.or_eq_true, Bool.and_eq_true, beq_iff_eq, not_or, not_and] at hlegal
  have hepoch : lease.EpochHasNoExpiration := fun he => by simpa using hlegal.2 he
  refine ⟨⟨?_, hepoch, ?_, ?_⟩, rfl, rfl, rfl, rfl⟩
  · simpa [successor, isSome_iff_ne_none] using hts
  · have hsome : (desc.getReplicaDescriptor lease.replica.storeID).isSome := by
      simpa [isSome_iff_ne_none] using hdesc
    exact RangeDescriptor.ne_zero_of_getReplicaDescriptor hsome
  by_cases he : prevLease.equivalent lease
  · left
    have hext := Lease.extends_of_equivalent hprev hepoch he
    exact ⟨{ hext with }, by simp [successor, he]⟩
  right
  simp [successor, he]

/-- The evaluating replica's lease is the one the request was built on, and another store's lease is
not overlapped. -/
structure RequestFollows (args : RequestLeaseRequest) (prevLease : Lease) (r : LeaseResult) :
    Prop where
  follows : Follows prevLease r.lease
  sequence : prevLease.sequence = args.prevLease.sequence
  prevLeaseProposal : r.prevLeaseProposal = prevLease.proposedTS
  proposedTS : r.lease.proposedTS = args.lease.proposedTS
  noOverlap : prevLease.type = .expiration → r.lease.replica.storeID ≠ prevLease.replica.storeID →
    prevLease.getExpiration.ord ≤ r.lease.start.toTimestamp.ord

variable {newLease : Lease} {start : ClockTimestamp} {args : RequestLeaseRequest}

lemma forwardExpiration_eq {l : Lease} (h : forwardExpiration newLease prevLease = some l) :
    l.replica = newLease.replica ∧ l.proposedTS = newLease.proposedTS := by
  unfold forwardExpiration at h
  split_ifs at h
  · obtain ⟨t, -, rfl⟩ := map_eq_some_iff.mp h
    exact ⟨rfl, rfl⟩
  cases h
  exact ⟨rfl, rfl⟩

section
variable (hprev : prevLease.EpochHasNoExpiration)
include hprev

lemma checkStart_ok {isExtension : Bool}
    (hext : isExtension = (prevLease.replica.storeID == newLease.replica.storeID))
    (h : checkStart prevLease desc args newLease isExtension start = .ok r) :
    Follows prevLease r.lease ∧ r.prevLeaseProposal = prevLease.proposedTS ∧
      r.lease.proposedTS = newLease.proposedTS ∧
      (prevLease.type = .expiration → r.lease.replica.storeID ≠ prevLease.replica.storeID →
        prevLease.getExpiration.ord ≤ r.lease.start.toTimestamp.ord) := by
  unfold checkStart at h
  cases isExtension with
  | true =>
    simp only [if_true] at h
    split_ifs at h
    split at h
    · cases h
    rename_i l hl
    obtain ⟨hrepl, hts⟩ := forwardExpiration_eq hl
    obtain ⟨hf, hp, -, hr, ht⟩ := evalNewLease_ok hprev h
    refine ⟨hf, hp, ht.trans hts, fun _ hne => absurd ?_ hne⟩
    rw [hr, hrepl, beq_iff_eq.mp hext.symm]
  | false =>
    simp only [Bool.false_eq_true, if_false] at h
    split_ifs at h with hover
    obtain ⟨hf, hp, hs, -, ht⟩ := evalNewLease_ok hprev h
    refine ⟨hf, hp, ht, fun htype _ => ?_⟩
    rw [hs]
    exact Timestamp.not_less_iff.mp (by simpa using fun hless => hover ⟨htype, hless⟩)

lemma requestLease_ok
    (h : requestLease prevLease desc args = .ok r) : RequestFollows args prevLease r := by
  unfold requestLease at h
  split_ifs at h with hmatch
  rw [not_or, not_not, not_not] at hmatch
  dsimp only at h
  split at h
  · cases h
  split at h
  · cases h
  obtain ⟨hf, hp, ht, hover⟩ := checkStart_ok hprev rfl h
  exact ⟨hf, hmatch.1, hp, ht, hover⟩

lemma transferLease_ok {args : TransferLeaseRequest} {now : ClockTimestamp} {cur : ReadSummary}
    (h : transferLease prevLease desc now cur args = .ok r) :
    Follows prevLease r.lease ∧ r.lease.replica = args.lease.replica ∧
      r.lease.proposedTS = args.lease.proposedTS := by
  unfold transferLease at h
  split at h
  · cases h
  obtain ⟨hf, -, -, hr, ht⟩ := evalNewLease_ok hprev h
  exact ⟨hf, hr, ht⟩

end
end MeshDB.Batcheval
