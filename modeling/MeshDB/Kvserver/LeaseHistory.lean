import MeshDB.Batcheval.Lease
import MeshDB.Kvserver.ForcedError
import MeshDB.Lib.Reachability
import Mathlib.Data.List.Nodup

/-!
# The history of a range's lease

Replicas build and evaluate lease requests against their own copies of the current lease, and the
commands go through the check below raft in the order of the log, any number of times. The check
is the same for every replica, so the state here is that of the log. A replica's copy of the lease
is given by its place in the history.
-/
namespace MeshDB.Kvserver

open List Hlc Roachpb Batcheval Transition

/-! ## Proposals -/

/-- `prev` and `eval` are the places of the lease built on and of the one evaluated against. -/
structure LeaseProposal where
  isLeaseRequest : Bool
  prev : Nat
  eval : Nat
  proposerLeaseSequence : Nat
  result : LeaseResult
deriving DecidableEq

namespace LeaseProposal

def lease (p : LeaseProposal) : Lease := p.result.lease

/-- A transfer is proposed at a lease applied index, and again at a later one when it missed it. -/
def command (p : LeaseProposal) (maxLeaseIndex : Nat) : RaftCommand where
  proposerLeaseSequence := p.proposerLeaseSequence
  maxLeaseIndex := maxLeaseIndex
  replicatedEvalResult :=
    { isLeaseRequest := p.isLeaseRequest
      lease := some p.lease
      lease_isSome := fun _ => rfl
      prevLeaseProposal := p.result.prevLeaseProposal }

end LeaseProposal

def evalLeaseRequest (evalLease : Lease) (desc : RangeDescriptor) (now : ClockTimestamp)
    (reads : ReadSummary) (prev eval : Nat) : LeaseRequest → Option LeaseProposal
  | .request args =>
    (requestLease evalLease desc args).toOption.map fun r =>
      { isLeaseRequest := true, prev, eval,
        proposerLeaseSequence := args.prevLease.sequence, result := r }
  | .transfer args =>
    (transferLease evalLease desc now reads args).toOption.map fun r =>
      { isLeaseRequest := false, prev, eval,
        proposerLeaseSequence := args.prevLease.sequence, result := r }

/-! ## Runs -/

/-- The applied leases of a range with the proposals. -/
structure LeaseLog where
  initial : Lease
  replicaState : ReplicaState
  proposals : List LeaseProposal := []
  applied : List LeaseProposal := []
deriving DecidableEq

def LeaseLog.history (s : LeaseLog) : List Lease :=
  s.initial :: s.applied.map LeaseProposal.lease

def LeaseLog.start (replicaState : ReplicaState) : LeaseLog where
  initial := replicaState.lease
  replicaState := replicaState

inductive LeaseAction where
  /-- Builds a request on the lease at `prev` and evaluates it against the one at `eval`. -/
  | propose (storeID prev eval : Nat) (reqLease : Lease) (minProposedTS : ClockTimestamp)
      (desc : RangeDescriptor) (now : ClockTimestamp) (reads : ReadSummary)
  | applyLease (p : LeaseProposal) (maxLeaseIndex : Nat) (isLocal : Bool)
  /-- Another command, which may change the descriptor and the threshold. -/
  | applyOther (idKey : CmdIDKey) (raftCmd : RaftCommand) (isLocal : Bool)
      (desc : RangeDescriptor) (gcThreshold : Timestamp)

def LeaseLog.propose (s : LeaseLog) (storeID prev eval : Nat) (reqLease : Lease)
    (minProposedTS : ClockTimestamp) (desc : RangeDescriptor) (now : ClockTimestamp)
    (reads : ReadSummary) : Option LeaseLog :=
  match s.history[prev]?, s.history[eval]? with
  | some prevLease, some evalLease =>
    match initOrJoinRequest storeID prevLease reqLease minProposedTS with
    | none => none
    | some req =>
      match evalLeaseRequest evalLease desc now reads prev eval req with
      | none => some s
      | some p => some { s with proposals := p :: s.proposals }
  | _, _ => none

def LeaseLog.applyLease (s : LeaseLog) (p : LeaseProposal) (maxLeaseIndex : Nat)
    (isLocal : Bool) : LeaseLog :=
  if accepted (some 0) (p.command maxLeaseIndex) isLocal s.replicaState then
    { s with
      replicaState :=
        { s.replicaState with
          lease := p.lease
          leaseAppliedIndex := (checkForcedErr (some 0) (p.command maxLeaseIndex) isLocal
            s.replicaState).leaseIndex }
      applied := s.applied ++ [p] }
  else s

def LeaseLog.applyOther (s : LeaseLog) (idKey : CmdIDKey) (raftCmd : RaftCommand) (isLocal : Bool)
    (desc : RangeDescriptor) (gcThreshold : Timestamp) : LeaseLog :=
  if accepted idKey raftCmd isLocal s.replicaState then
    { s with
      replicaState :=
        { s.replicaState with
          desc := desc
          gcThreshold := gcThreshold
          leaseAppliedIndex := (checkForcedErr idKey raftCmd isLocal s.replicaState).leaseIndex } }
  else s

def LeaseLog.step (s : LeaseLog) : LeaseAction → Option LeaseLog
  | .propose storeID prev eval reqLease minProposedTS desc now reads =>
    -- a replica's copy of the lease only moves forward between the two readings
    if prev ≤ eval then s.propose storeID prev eval reqLease minProposedTS desc now reads
    else none
  | .applyLease p maxLeaseIndex isLocal =>
    if p ∈ s.proposals then some (s.applyLease p maxLeaseIndex isLocal) else none
  | .applyOther idKey raftCmd isLocal desc gcThreshold =>
    if raftCmd.replicatedEvalResult.lease = none then
      some (s.applyOther idKey raftCmd isLocal desc gcThreshold)
    else none

/-- Distinct proposals have distinct proposed timestamps. -/
def FreshProposal (s : LeaseLog) : LeaseAction → Prop
  | .propose _ _ _ reqLease _ _ _ _ =>
    reqLease.proposedTS ≠ s.initial.proposedTS ∧
      ∀ p ∈ s.proposals, p.lease.proposedTS ≠ reqLease.proposedTS
  | _ => True

instance (s : LeaseLog) (a : LeaseAction) : Decidable (FreshProposal s a) := by
  cases a <;> unfold FreshProposal <;> infer_instance

structure InitialLease (l : Lease) : Prop where
  zero : l.proposedTS = none → l = {}
  epoch : l.EpochHasNoExpiration

/-! ## The chain -/

/-- A new lease, or an extension of the same one. -/
def Succeeds (l m : Lease) : Prop :=
  l.sequence ≤ m.sequence ∧ (l.sequence = m.sequence → l.Extends m)

lemma Succeeds.refl (l : Lease) : Succeeds l l := ⟨le_rfl, fun _ => .refl l⟩

variable {l m : Lease} {rs : ReplicaState}

lemma Succeeds.trans {k : Lease} (hlm : Succeeds l m) (hmk : Succeeds m k) : Succeeds l k := by
  refine ⟨hlm.1.trans hmk.1, fun heq => ?_⟩
  have h1 := hlm.1
  have h2 := hmk.1
  exact (hlm.2 (by omega)).trans (hmk.2 (by omega))

lemma Succeeds.of_follows (h : Follows l m) : Succeeds l m := by
  rcases h.sequence with ⟨hext, hseq⟩ | hseq
  · exact ⟨hseq.ge, fun _ => hext⟩
  · exact ⟨by omega, fun heq => by omega⟩

/-- The proposal was built on earlier leases. -/
structure Made (history : List Lease) (p : LeaseProposal) (prevLease evalLease : Lease) : Prop where
  le : p.prev ≤ p.eval
  prev : history[p.prev]? = some prevLease
  eval : history[p.eval]? = some evalLease
  proposerLeaseSequence : p.proposerLeaseSequence = prevLease.sequence
  follows : Follows evalLease p.lease
  prevLeaseProposal : p.isLeaseRequest → p.result.prevLeaseProposal = evalLease.proposedTS
  noOverlap : p.isLeaseRequest → evalLease.type = .expiration →
    p.lease.replica.storeID ≠ evalLease.replica.storeID →
    evalLease.getExpiration.ord ≤ p.lease.start.toTimestamp.ord
  /-- A transfer goes to a store other than the holder. -/
  transfer : p.isLeaseRequest = false → p.lease.replica.storeID ≠ prevLease.replica.storeID

lemma Made.append {history more : List Lease} {p : LeaseProposal} {prevLease evalLease : Lease}
    (h : Made history p prevLease evalLease) : Made (history ++ more) p prevLease evalLease :=
  { h with
    prev := (List.getElem?_append_left (List.getElem?_eq_some_iff.mp h.prev).1).trans h.prev
    eval := (List.getElem?_append_left (List.getElem?_eq_some_iff.mp h.eval).1).trans h.eval }

structure LeaseInv (s : LeaseLog) : Prop where
  initial : InitialLease s.initial
  current : s.history[s.applied.length]? = some s.replicaState.lease
  made : ∀ p ∈ s.proposals, ∃ prevLease evalLease, Made s.history p prevLease evalLease
  fresh : ∀ p ∈ s.proposals, p.lease.proposedTS ≠ s.initial.proposedTS
  distinct : (s.proposals.map fun p => p.lease.proposedTS).Nodup
  applied : ∀ p ∈ s.applied, p ∈ s.proposals
  chain : s.history.Pairwise Succeeds
  nodup : (s.history.map Lease.proposedTS).Nodup
  /-- A lease request replaces the lease it was evaluated against. -/
  eval : ∀ (i : Nat) (p : LeaseProposal), s.applied[i]? = some p → p.isLeaseRequest → p.eval = i
  /-- Over the zero lease every lease has a sequence number of its own. -/
  positive : s.initial.proposedTS = none → ∀ p ∈ s.proposals, 1 ≤ p.lease.sequence

namespace LeaseInv

variable {s : LeaseLog} {p q : LeaseProposal} {l m : Lease} {i j : Nat}

lemma mem_history (hs : LeaseInv s) (hl : l ∈ s.history) :
    l = s.initial ∨ ∃ p ∈ s.proposals, p ∈ s.applied ∧ p.lease = l := by
  rcases mem_cons.mp hl with rfl | hmem
  · exact .inl rfl
  obtain ⟨p, hp, rfl⟩ := mem_map.mp hmem
  exact .inr ⟨p, hs.applied p hp, hp, rfl⟩

lemma epoch_of_mem (hs : LeaseInv s) (hl : l ∈ s.history) : l.EpochHasNoExpiration := by
  rcases hs.mem_history hl with rfl | ⟨p, hp, -, rfl⟩
  · exact hs.initial.epoch
  obtain ⟨_, _, hm⟩ := hs.made p hp
  exact hm.follows.epoch

lemma succeeds_of_le (hs : LeaseInv s) (hij : i ≤ j)
    (hl : s.history[i]? = some l) (hm : s.history[j]? = some m) : Succeeds l m := by
  rcases hij.eq_or_lt with rfl | hlt
  · rw [hl] at hm
    cases hm
    exact .refl l
  obtain ⟨hi, rfl⟩ := List.getElem?_eq_some_iff.mp hl
  obtain ⟨hj, rfl⟩ := List.getElem?_eq_some_iff.mp hm
  exact pairwise_iff_getElem.mp hs.chain i j hi hj hlt

lemma length_history (s : LeaseLog) : s.history.length = s.applied.length + 1 := by
  simp [LeaseLog.history]

lemma le_length (h : s.history[i]? = some l) : i ≤ s.applied.length := by
  have hlt := (List.getElem?_eq_some_iff.mp h).1
  rw [length_history] at hlt
  omega

lemma succeeds_current (hs : LeaseInv s) (hl : l ∈ s.history) :
    Succeeds l s.replicaState.lease := by
  obtain ⟨i, hi⟩ := mem_iff_getElem?.mp hl
  exact hs.succeeds_of_le (le_length hi) hi hs.current

lemma eq_of_proposedTS_eq (hs : LeaseInv s)
    (hl : s.history[i]? = some l) (hm : s.history[j]? = some m)
    (h : l.proposedTS = m.proposedTS) : i = j := by
  have hi : (s.history.map Lease.proposedTS)[i]? = some l.proposedTS := by simp [hl]
  have hj : (s.history.map Lease.proposedTS)[j]? = some l.proposedTS := by simp [hm, h]
  obtain ⟨hi', hi⟩ := List.getElem?_eq_some_iff.mp hi
  obtain ⟨hj', hj⟩ := List.getElem?_eq_some_iff.mp hj
  exact (hs.nodup.getElem_inj_iff).mp (hi.trans hj.symm)

lemma eq_zero_of_proposedTS_none (hs : LeaseInv s)
    (hl : s.history[i]? = some l) (hnone : l.proposedTS = none) :
    i = 0 ∧ s.initial.proposedTS = none := by
  rcases hs.mem_history (mem_of_getElem? hl) with rfl | ⟨p, hp, -, rfl⟩
  · exact ⟨hs.eq_of_proposedTS_eq hl (j := 0) rfl rfl, hnone⟩
  obtain ⟨_, _, hm⟩ := hs.made p hp
  have hsome := hm.follows.proposedTS
  rw [hnone] at hsome
  cases hsome

lemma applied_eq_nil (hs : LeaseInv s) (hnone : s.initial.proposedTS = none)
    (hseq : s.replicaState.lease.sequence = 0) : s.applied.length = 0 := by
  have hcur := hs.current
  cases happ : s.applied.length with
  | zero => rfl
  | succ n =>
    rw [happ] at hcur
    have hmem : s.replicaState.lease ∈ s.applied.map LeaseProposal.lease :=
      mem_of_getElem? (by simpa [LeaseLog.history] using hcur)
    obtain ⟨p, hp, hlease⟩ := mem_map.mp hmem
    have hpos := hs.positive hnone p (hs.applied p hp)
    rw [hlease] at hpos
    omega

variable {maxLeaseIndex : Nat} {isLocal : Bool}

section
variable (hs : LeaseInv s)
include hs

section
variable (hp : p ∈ s.proposals)
include hp

lemma eval_eq (hreq : p.isLeaseRequest)
    (hacc : accepted (some 0) (p.command maxLeaseIndex) isLocal s.replicaState) :
    p.eval = s.applied.length := by
  obtain ⟨prevLease, evalLease, hm⟩ := hs.made p hp
  have hprop := hm.prevLeaseProposal hreq
  by_cases hnone : evalLease.proposedTS = none
  · obtain ⟨heval, hinit⟩ := hs.eq_zero_of_proposedTS_none hm.eval hnone
    have hle := hm.le
    have hprev0 : p.prev = 0 := by omega
    have hprev := hm.prev
    rw [hprev0] at hprev
    have hzero : prevLease = {} := by
      rw [← hs.initial.zero hinit]
      exact (Option.some.inj hprev).symm
    have hseq : p.proposerLeaseSequence = s.replicaState.lease.sequence :=
      sequence_of_accepted hacc rfl
    rw [hm.proposerLeaseSequence, hzero] at hseq
    rw [heval, hs.applied_eq_nil hinit hseq.symm]
  · rw [← hprop] at hnone
    have hts : p.result.prevLeaseProposal = s.replicaState.lease.proposedTS :=
      prevLeaseProposal_of_accepted hacc rfl hreq hnone
    exact hs.eq_of_proposedTS_eq hm.eval hs.current (hprop.symm.trans hts)

lemma transfer_sequence (hreq : p.isLeaseRequest = false)
    (hacc : accepted (some 0) (p.command maxLeaseIndex) isLocal s.replicaState) :
    p.lease.sequence = s.replicaState.lease.sequence + 1 := by
  obtain ⟨prevLease, evalLease, hm⟩ := hs.made p hp
  have hseq : p.proposerLeaseSequence = s.replicaState.lease.sequence :=
    sequence_of_accepted hacc rfl
  rw [hm.proposerLeaseSequence] at hseq
  have hprev := hs.succeeds_of_le hm.le hm.prev hm.eval
  have hcur := hs.succeeds_current (mem_of_getElem? hm.eval)
  have h1 := hprev.1
  have h2 := hcur.1
  have hholder := (hprev.2 (by omega)).storeID
  rcases hm.follows.sequence with ⟨hext, -⟩ | hnew
  · exact absurd (hext.storeID.trans hholder) (hm.transfer hreq)
  · omega

section
variable (hacc : accepted (some 0) (p.command maxLeaseIndex) isLocal s.replicaState)
include hacc

lemma succeeds_of_accepted : Succeeds s.replicaState.lease p.lease := by
  cases hreq : p.isLeaseRequest with
  | true =>
    obtain ⟨prevLease, evalLease, hm⟩ := hs.made p hp
    have heval := hm.eval
    rw [hs.eval_eq hp hreq hacc, hs.current] at heval
    cases heval
    exact .of_follows hm.follows
  | false =>
    have hseq := hs.transfer_sequence hp hreq hacc
    exact ⟨by omega, fun heq => by omega⟩

lemma not_mem_applied : p ∉ s.applied := by
  intro hmem
  cases hreq : p.isLeaseRequest with
  | true =>
    obtain ⟨i, hi⟩ := mem_iff_getElem?.mp hmem
    have hlt := (List.getElem?_eq_some_iff.mp hi).1
    have heval := hs.eval i p hi hreq
    rw [hs.eval_eq hp hreq hacc] at heval
    omega
  | false =>
    have hseq := hs.transfer_sequence hp hreq hacc
    have hle := (hs.succeeds_current (.tail _ (mem_map_of_mem hmem : p.lease ∈ _))).1
    omega

lemma proposedTS_not_mem : ∀ l ∈ s.history, l.proposedTS ≠ p.lease.proposedTS := by
  intro l hl heq
  rcases hs.mem_history hl with rfl | ⟨q, hq, happ, rfl⟩
  · exact hs.fresh p hp heq.symm
  rw [inj_on_of_nodup_map hs.distinct hq hp heq] at happ
  exact hs.not_mem_applied hp hacc happ

end

/-! ### The steps keep the invariant -/

lemma applyLease : LeaseInv (s.applyLease p maxLeaseIndex isLocal) := by
  unfold LeaseLog.applyLease
  split_ifs with hacc
  swap
  · exact hs
  have hhist : ∀ rs, LeaseLog.history { s with replicaState := rs, applied := s.applied ++ [p] } =
      s.history ++ [p.lease] := by
    intro rs
    simp [LeaseLog.history]
  have hmade : ∀ q ∈ s.proposals, ∃ prevLease evalLease,
      Made (s.history ++ [p.lease]) q prevLease evalLease := by
    intro q hq
    obtain ⟨prevLease, evalLease, hm⟩ := hs.made q hq
    exact ⟨prevLease, evalLease, hm.append⟩
  refine ⟨hs.initial, ?_, ?_, hs.fresh, hs.distinct, ?_, ?_, ?_, ?_, hs.positive⟩
  · rw [hhist]
    simp [length_history]
  · rw [hhist]
    exact hmade
  · intro q hq
    rcases mem_append.mp hq with hq | hq
    · exact hs.applied q hq
    rw [mem_singleton.mp hq]
    exact hp
  · rw [hhist]
    refine pairwise_append.mpr ⟨hs.chain, pairwise_singleton _ _, fun l hl m hm => ?_⟩
    rw [mem_singleton.mp hm]
    exact (hs.succeeds_current hl).trans (hs.succeeds_of_accepted hp hacc)
  · rw [hhist, map_append]
    refine nodup_append.mpr ⟨hs.nodup, nodup_singleton _, fun a ha b hb => ?_⟩
    obtain ⟨l, hl, rfl⟩ := mem_map.mp ha
    rw [mem_singleton.mp hb]
    exact hs.proposedTS_not_mem hp hacc l hl
  intro i q hq hreq
  rcases Nat.lt_or_ge i s.applied.length with hlt | hge
  · rw [List.getElem?_append_left hlt] at hq
    exact hs.eval i q hq hreq
  rw [List.getElem?_append_right hge, List.getElem?_singleton] at hq
  split_ifs at hq with hzero
  cases hq
  rw [hs.eval_eq hp hreq hacc]
  omega

end

lemma applyOther (idKey : CmdIDKey) (raftCmd : RaftCommand)
    (desc : RangeDescriptor) (gcThreshold : Timestamp) :
    LeaseInv (s.applyOther idKey raftCmd isLocal desc gcThreshold) := by
  unfold LeaseLog.applyOther
  split_ifs
  · exact { hs with }
  · exact hs

lemma cons {prevLease evalLease : Lease} (hm : Made s.history p prevLease evalLease)
    (hinit : p.lease.proposedTS ≠ s.initial.proposedTS)
    (hfresh : ∀ q ∈ s.proposals, q.lease.proposedTS ≠ p.lease.proposedTS) :
    LeaseInv { s with proposals := p :: s.proposals } := by
  refine
    { hs with
      made := forall_mem_cons.mpr ⟨⟨prevLease, evalLease, hm⟩, hs.made⟩
      fresh := forall_mem_cons.mpr ⟨hinit, hs.fresh⟩
      distinct := nodup_cons.mpr ⟨by simpa using hfresh, hs.distinct⟩
      applied := fun q hq => .tail _ (hs.applied q hq)
      positive := fun hnone => forall_mem_cons.mpr ⟨?_, hs.positive hnone⟩ }
  rcases hs.mem_history (mem_of_getElem? hm.eval) with heq | ⟨r, hr, -, heq⟩
  · rw [heq, hs.initial.zero hnone] at hm
    rcases hm.follows.sequence with ⟨hext, -⟩ | hnew
    · exact absurd hext.storeID hm.follows.storeID
    · exact hnew.ge
  have hpos := hs.positive hnone r hr
  rw [heq] at hpos
  have hle := (Succeeds.of_follows hm.follows).1
  exact hpos.trans hle

end
end LeaseInv

variable {s : LeaseLog} {storeID prev eval : Nat} {reqLease prevLease evalLease : Lease}
  {minProposedTS now : ClockTimestamp} {desc : RangeDescriptor} {reads : ReadSummary}
  {req : LeaseRequest} {p : LeaseProposal}

lemma toOption_eq_some {ε α : Type} {x : Except ε α} {a : α} (h : x.toOption = some a) :
    x = .ok a := by
  cases x <;> cases h
  rfl

lemma made_of_eval {history : List Lease} (hepoch : evalLease.EpochHasNoExpiration)
    (hle : prev ≤ eval) (hprev : history[prev]? = some prevLease)
    (heval : history[eval]? = some evalLease)
    (hinit : initOrJoinRequest storeID prevLease reqLease minProposedTS = some req)
    (h : evalLeaseRequest evalLease desc now reads prev eval req = some p) :
    Made history p prevLease evalLease ∧ p.lease.proposedTS = reqLease.proposedTS := by
  unfold initOrJoinRequest at hinit
  dsimp only at hinit
  split_ifs at hinit with hremote htransfer
  · cases hinit
    obtain ⟨r, hr, rfl⟩ := Option.map_eq_some_iff.mp h
    obtain ⟨hf, hrepl, hts⟩ := transferLease_ok hepoch (toOption_eq_some hr)
    refine ⟨⟨hle, hprev, heval, rfl, hf, nofun, nofun, fun _ => ?_⟩, hts⟩
    have hstore : prevLease.replica.storeID = storeID ∧ reqLease.replica.storeID ≠ storeID := by
      simpa [Lease.ownedBy] using htransfer
    show r.lease.replica.storeID ≠ _
    rw [hrepl, hstore.1]
    exact hstore.2
  cases hinit
  obtain ⟨r, hr, rfl⟩ := Option.map_eq_some_iff.mp h
  have hf := requestLease_ok hepoch (toOption_eq_some hr)
  exact ⟨⟨hle, hprev, heval, rfl, hf.follows, fun _ => hf.prevLeaseProposal,
    fun _ => hf.noOverlap, nofun⟩, hf.proposedTS⟩

lemma leaseInv_step {s s' : LeaseLog} {a : LeaseAction} (hs : LeaseInv s)
    (ha : FreshProposal s a) (h : s.step a = some s') : LeaseInv s' := by
  cases a with
  | propose storeID prev eval reqLease minProposedTS desc now reads =>
    simp only [LeaseLog.step] at h
    split_ifs at h with hle
    unfold LeaseLog.propose at h
    split at h
    swap
    · cases h
    rename_i prevLease evalLease hprev heval
    split at h
    · cases h
    rename_i req hreq
    split at h
    · cases h
      exact hs
    rename_i p hp
    cases h
    obtain ⟨hm, hts⟩ := made_of_eval (hs.epoch_of_mem (mem_of_getElem? heval))
      hle hprev heval hreq hp
    exact hs.cons hm (hts ▸ ha.1) (hts ▸ ha.2)
  | applyLease p maxLeaseIndex isLocal =>
    simp only [LeaseLog.step] at h
    split_ifs at h with hp
    cases h
    exact hs.applyLease hp
  | applyOther idKey raftCmd isLocal desc gcThreshold =>
    simp only [LeaseLog.step] at h
    split_ifs at h
    cases h
    exact hs.applyOther ..

lemma leaseInv_start (h : InitialLease rs.lease) : LeaseInv (LeaseLog.start rs) where
  initial := h
  current := rfl
  made := fun _ hp => absurd hp not_mem_nil
  fresh := fun _ hp => absurd hp not_mem_nil
  distinct := .nil
  applied := fun _ hp => absurd hp not_mem_nil
  chain := pairwise_singleton _ _
  nodup := nodup_singleton _
  eval := fun _ _ hp => by cases hp
  positive := fun _ _ hp => absurd hp not_mem_nil

lemma leaseInv_of_reachable (h0 : InitialLease rs.lease) {s : LeaseLog}
    (h : Reachable LeaseLog.step FreshProposal (LeaseLog.start rs) s) : LeaseInv s :=
  h.invariant (leaseInv_start h0) fun _ _ _ _ hs ha hstep => leaseInv_step hs ha hstep

/-- The applied leases have non-decreasing sequence numbers, equal ones only for extensions; a lease
of another store starts after the expiration of the one it replaces; and no proposal is applied
twice. -/
theorem lease_history_is_chain (h₀ : InitialLease rs.lease) {s : LeaseLog}
    (h : Reachable LeaseLog.step FreshProposal (LeaseLog.start rs) s) :
    s.history.Pairwise (fun l m =>
        l.sequence ≤ m.sequence ∧ (l.sequence = m.sequence → l.Extends m)) ∧
      (∀ (i : Nat) (p : LeaseProposal) (replaced : Lease), s.applied[i]? = some p →
        s.history[i]? = some replaced → p.isLeaseRequest = true →
        replaced.type = .expiration → p.lease.type = .expiration →
        p.lease.replica.storeID ≠ replaced.replica.storeID →
        replaced.getExpiration.ord ≤ p.lease.start.toTimestamp.ord) ∧
      (s.applied.map fun p => p.lease.proposedTS).Nodup := by
  have hs := leaseInv_of_reachable h₀ h
  refine ⟨hs.chain, ?_, ?_⟩
  · intro i p replaced hp hl hreq htype _ hne
    obtain ⟨prevLease, evalLease, hm⟩ := hs.made p (hs.applied p (mem_of_getElem? hp))
    have heval := hm.eval
    rw [hs.eval i p hp hreq, hl] at heval
    cases heval
    exact hm.noOverlap hreq htype hne
  have hnodup := hs.nodup
  simp only [LeaseLog.history, map_cons, nodup_cons, map_map] at hnodup
  exact hnodup.2

/-- The first store acquires and extends the lease, the second takes over after the expiration. -/
theorem lease_history_of_two_stores :
    let repl := fun id : Nat =>
      ({ nodeID := id, storeID := id, replicaID := id } : ReplicaDescriptor)
    let desc : RangeDescriptor := ⟨[repl 1, repl 2], by decide⟩
    let rs : ReplicaState := { lease := {}, desc := desc }
    ∃ s, Reachable LeaseLog.step FreshProposal (LeaseLog.start rs) s ∧
      s.history.map Lease.sequence = [0, 1, 1, 2] ∧
      s.history.Pairwise (fun l m =>
        l.sequence ≤ m.sequence ∧ (l.sequence = m.sequence → l.Extends m)) := by
  intro repl desc rs
  let req := fun (id start exp : Nat) =>
    ({ start := ⟨start, 0⟩, expiration := some ⟨exp, 0, false⟩, replica := repl id,
       proposedTS := some ⟨start, 0⟩ } : Lease)
  let propose := fun (id prev start exp : Nat) =>
    LeaseAction.propose id prev prev (req id start exp) {} desc {} {}
  let result := fun (prevLease : Lease) (id prev start exp : Nat) =>
    (evalLeaseRequest prevLease desc {} {} prev prev
      (.request { lease := req id start exp, prevLease := prevLease,
                  minProposedTS := some {} })).getD ⟨false, 0, 0, 0, ⟨{}, none, none⟩⟩
  let p₁ := result {} 1 0 5 10
  let p₂ := result p₁.lease 1 1 6 12
  let p₃ := result p₁.lease 2 1 11 20
  let p₄ := result p₂.lease 2 2 13 22
  obtain ⟨s, hr, hs⟩ := @exists_reachable_of_admitted_run _ _ LeaseLog.step
    FreshProposal (LeaseLog.start rs) _
    [propose 1 0 5 10, .applyLease p₁ 0 true, .applyLease p₁ 0 false, propose 1 1 6 12,
      propose 2 1 11 20, .applyLease p₂ 0 true, .applyLease p₃ 0 true, propose 2 2 13 22,
      .applyLease p₄ 0 false, .applyLease p₂ 0 false]
    (fun s => s.history.map Lease.sequence == [0, 1, 1, 2]) (by decide)
  exact ⟨s, hr, by simpa using hs,
    (lease_history_is_chain ⟨fun _ => rfl, fun h => by cases h⟩ hr).1⟩

end MeshDB.Kvserver
