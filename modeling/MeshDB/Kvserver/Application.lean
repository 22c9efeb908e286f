import MeshDB.Kvserver.ProposalBuffer
import MeshDB.Lib.Reachability
import Mathlib.Data.Finset.Image

/-!
# Command application on the proposing replica

Committed entries are decoded, staged, and their side effects applied; a command that missed its
lease index is proposed again. `step` interleaves this with evaluation, flushes, refreshes,
snapshots and the side transport.
-/
namespace MeshDB.Kvserver

open Option Hlc Roachpb Transition
namespace Replica

variable (reqs : ℕ → Request)

/-! ## Staging -/

/-- The replica state after a command, by `stageTrivialReplicatedEvalResult` and the other handlers.
-/
def applyToState (q : Request) (fr : ForcedErrResult) (st : ReplicaState) : ReplicaState :=
  if fr.forcedError.isSome then
    { st with
      leaseAppliedIndex := if fr.leaseIndex = 0 then st.leaseAppliedIndex else fr.leaseIndex }
  else
    { lease := q.command.replicatedEvalResult.lease.getD st.lease
      desc := q.desc.getD st.desc
      leaseAppliedIndex := if fr.leaseIndex = 0 then st.leaseAppliedIndex else fr.leaseIndex
      gcThreshold := (q.gcThreshold.map st.gcThreshold.forward).getD st.gcThreshold }

def stageEntry (r : Replica) (e : Entry) (fr : ForcedErrResult) : Replica :=
  { r with
    replicaState := applyToState (reqs e.idKey) fr r.replicaState
    raftClosedTimestamp :=
      if fr.forcedError.isNone && !e.closedTimestamp.isEmpty then e.closedTimestamp
      else r.raftClosedTimestamp
    accepted := if fr.forcedError.isNone then e :: r.accepted else r.accepted }

def checkEntry (r : Replica) (e : Entry) (isLocal : Bool) : ForcedErrResult :=
  checkForcedErr (some e.idKey) (e.command reqs) isLocal r.replicaState

def onLeaseChange (r : Replica) : Replica :=
  if r.replicaState.lease.replica.storeID = r.storeID then
    { r with
      assignedClosedTimestamp := r.assignedClosedTimestamp.forward r.raftClosedTimestamp
      assignedLAI := max r.assignedLAI r.replicaState.leaseAppliedIndex }
  else { r with assignedClosedTimestamp := {}, assignedLAI := 0 }

def handleLeaseResult (r : Replica) (e : Entry) (fr : ForcedErrResult) : Replica :=
  if fr.forcedError.isNone && (reqs e.idKey).command.replicatedEvalResult.lease.isSome then
    r.onLeaseChange
  else r

/-- `Stage` of the next command. One with a lease is a batch of its own. -/
def stage (r : Replica) : Option Replica :=
  match r.queue with
  | [] => none
  | cmd :: rest =>
    if (reqs cmd.entry.idKey).command.replicatedEvalResult.lease.isSome ∧ r.staged ≠ [] then none
    else
      some { (r.stageEntry reqs cmd.entry
          (r.checkEntry reqs cmd.entry cmd.isLocal)).handleLeaseResult reqs cmd.entry
          (r.checkEntry reqs cmd.entry cmd.isLocal) with
        queue := rest
        staged := r.staged ++ [⟨cmd, r.checkEntry reqs cmd.entry cmd.isLocal⟩] }

/-- `retrieveLocalProposals`: all commands are bound before the proposals are removed. -/
def decode (r : Replica) (ents : List Entry) : Replica :=
  { r with
    applyingEntries := true
    queue := ents.map fun e => ⟨e, decide (e.idKey ∈ r.proposals)⟩
    proposals := r.proposals.filter fun id =>
      ∀ e ∈ ents, e.idKey = id → e.maxLeaseIndex ≠ (r.props id).maxLeaseIndex }

/-! ## Side effects -/

/-- `tryReproposeWithNewLeaseIndex`. `invalid` says that the checks of `propose` fail. -/
def tryReproposeWithNewLeaseIndex (env : FlushEnv) (invalid : Bool) (r : Replica) (e : Entry) :
    Option (Replica × Option ProposalResult) :=
  if (r.props e.idKey).applied || e.maxLeaseIndex ≠ (r.props e.idKey).maxLeaseIndex then
    some (r, none)
  else
    match r.trackEvaluatingRequest (reqs e.idKey).writeTimestamp with
    | none => none
    | some (r, minTS, tok) =>
      if (reqs e.idKey).appliesTimestampCache && (reqs e.idKey).writeTimestamp.lessEq minTS then
        some (r.untrack (some tok), some .closedTimestampPassed)
      else if invalid then some (r.untrack (some tok), some .proposeFailed)
      else
        (r.propose reqs env e.idKey (some tok)).map fun x =>
          if x.2 then (x.1, none) else (x.1, some .proposeFailed)

/-- The end of `ApplySideEffects` for a bound command, and its acknowledgement. -/
def finishLocal (r : Replica) (cmd : CheckedCmd) (res : ProposalResult) : Option Replica :=
  if cmd.forcedErrResult.forcedError.isNone &&
      (cmd.entry.maxLeaseIndex ≠ (r.props cmd.entry.idKey).maxLeaseIndex ||
        (r.props cmd.entry.idKey).applied) then none
  else
    some (((if cmd.entry.maxLeaseIndex ≠ (r.props cmd.entry.idKey).maxLeaseIndex then
      r.cleanupFailedProposal cmd.entry.idKey else r).modify cmd.entry.idKey fun p =>
        { p with applied := true }).finishApplication cmd.entry.idKey res)

/-- `prepareLocalResult`: the response of a command that stays bound to its proposal. -/
def prepareLocalResult (env : FlushEnv) (invalid : Bool) (r : Replica) (cmd : CheckedCmd) :
    Option (Replica × Option ProposalResult) :=
  if !cmd.isLocal then some (r, none)
  else
    match cmd.forcedErrResult.forcedError with
    | none => some (r, some .reply)
    | some err =>
      match cmd.forcedErrResult.rejection with
      | .permanent => some (r, some (.rejected err))
      | .illegalLeaseIndex => r.tryReproposeWithNewLeaseIndex reqs env invalid cmd.entry

def applySideEffects (env : FlushEnv) (invalid : Bool) (r : Replica) : Option Replica :=
  match r.staged with
  | [] => none
  | cmd :: rest =>
    match prepareLocalResult reqs env invalid { r with staged := rest } cmd with
    | none => none
    | some (r, none) => some r
    | some (r, some res) => r.finishLocal cmd res

def stageAll (r : Replica) (ents : List Entry) : Replica :=
  ents.foldl (fun r e => r.stageEntry reqs e (r.checkEntry reqs e false)) r

/-- `refreshProposalsLocked` after a snapshot: the proposals that cannot be applied any
more. -/
def failedBySnapshot (r : Replica) : Finset ℕ :=
  r.proposals.filter fun id =>
    (r.props id).maxLeaseIndex ≤ r.replicaState.leaseAppliedIndex

def refreshAfterSnapshot (r : Replica) : Replica :=
  { r with
    proposals := r.proposals \ r.failedBySnapshot
    props := fun id =>
      if id ∈ r.failedBySnapshot then (r.props id).signalProposalResult .ambiguousSnapshot
      else r.props id }

/-- The commands before the `n`-th are staged without it being rejected. -/
def acceptsAhead (r : Replica) (n : ℕ) : Bool :=
  match r.queue[n]? with
  | none => false
  | some cmd =>
    cmd.isLocal &&
      ((r.stageAll reqs ((r.queue.take n).map ReplicatedCmd.entry)).checkEntry reqs cmd.entry
        cmd.isLocal).forcedError.isNone

def bumpSideTransportClosed (r : Replica) (evalTracker : EvalTracker) (target : Timestamp) :
    Replica :=
  if r.proposals ≠ ∅ ∨ r.applyingEntries then r
  else if !(evalTracker.lowerBound r.tracked).isEmpty &&
      (evalTracker.lowerBound r.tracked).lessEq target then r
  else if r.assignedClosedTimestamp.less target then
    { r with
      assignedClosedTimestamp := r.assignedClosedTimestamp.forward target
      sideClosed := ⟨target, r.replicaState.leaseAppliedIndex⟩ :: r.sideClosed }
  else { r with assignedClosedTimestamp := r.assignedClosedTimestamp.forward target }

end Replica

/-! ## Runs -/

inductive ReplicaAction where
  | track (wts : Timestamp)
  | abort (tok : ℕ)
  /-- An evaluated request is proposed; it is tracked if it applies the timestamp cache. -/
  | propose (id : ℕ) (tok : Option ℕ) (env : FlushEnv)
  | flush (env : FlushEnv)
  | refresh (ids : List ℕ) (env : ℕ → FlushEnv)
  | bumpSideTransportClosed (evalTracker : EvalTracker) (target : Timestamp)
  | decode (ents : List Entry)
  | ackBeforeApplication (n : ℕ)
  | stage
  | applySideEffects (env : FlushEnv) (invalid : Bool)
  | finishApplying
  /-- A snapshot brings the effects of entries, perhaps with a new leader. -/
  | snapshot (ents : List Entry) (leaderChanged : Bool)

namespace Replica

variable (reqs : ℕ → Request)

/-- A request that is tracked must write at the timestamp of its token or above. -/
def evaluatedAt (r : Replica) (q : Request) : Option ℕ → Prop
  | none => q.appliesTimestampCache = false
  | some tok =>
    q.appliesTimestampCache ∧ ∃ ts, (tok, ts) ∈ r.evaluating ∧ ts.lessEq q.writeTimestamp

instance (r : Replica) (q : Request) (tok : Option ℕ) : Decidable (r.evaluatedAt q tok) :=
  match tok with
  | none => inferInstanceAs (Decidable (_ = _))
  | some tok =>
    decidable_of_iff (q.appliesTimestampCache ∧
        ∃ x ∈ r.evaluating, x.1 = tok ∧ x.2.lessEq q.writeTimestamp) <| by
      simp [evaluatedAt]

def abort (r : Replica) (tok : ℕ) : Replica :=
  if ∃ x ∈ r.evaluating, x.1 = tok then r.untrack (some tok) else r

/-- An entry that raft may have committed: a copy of one handed over here, or one from
another replica. -/
def mayCommit (r : Replica) (e : Entry) : Prop := e ∈ r.sent ∨ (reqs e.idKey).mine = false

instance (r : Replica) (e : Entry) : Decidable (r.mayCommit reqs e) :=
  inferInstanceAs (Decidable (_ ∨ _))

def step (r : Replica) : ReplicaAction → Option Replica
  | .track wts =>
    (r.trackEvaluatingRequest wts).map Prod.fst
  | .abort tok => some (r.abort tok)
  | .propose id tok env =>
    if (reqs id).mine ∧ (r.props id).created = false ∧ r.evaluatedAt (reqs id) tok then
      (r.propose reqs env id tok).map fun x =>
        x.1.modify id fun p => { p with created := true }
    else none
  | .flush env => (r.flush reqs env).map Prod.fst
  | .refresh ids env =>
    if ∀ id ∈ ids, id ∈ r.proposals then
      ids.foldlM (fun r id => r.reinsert reqs (env id) id) r
    else none
  | .bumpSideTransportClosed evalTracker target =>
    some (r.bumpSideTransportClosed evalTracker target)
  | .decode ents =>
    if r.queue = [] ∧ r.staged = [] ∧ ∀ e ∈ ents, r.mayCommit reqs e then some (r.decode ents)
    else none
  | .ackBeforeApplication n =>
    match r.queue[n]? with
    | none => none
    | some cmd =>
      if r.acceptsAhead reqs n then some (r.finishApplication cmd.entry.idKey .reply)
      else none
  | .stage => r.stage reqs
  | .applySideEffects env invalid => r.applySideEffects reqs env invalid
  | .finishApplying =>
    if r.queue = [] ∧ r.staged = [] then some { r with applyingEntries := false } else none
  | .snapshot ents leaderChanged =>
    if r.queue = [] ∧ r.staged = [] ∧ ∀ e ∈ ents, r.mayCommit reqs e then
      some (if leaderChanged then (r.stageAll reqs ents).onLeaseChange
        else (r.stageAll reqs ents).onLeaseChange.refreshAfterSnapshot)
    else none

/-! ## What the parts of an action do -/

variable {reqs : ℕ → Request} {r r' : Replica} {id : ℕ} {env : FlushEnv} {invalid : Bool}
  {cmd : CheckedCmd} {out : Option ProposalResult}

lemma trackEvaluatingRequest_eq {wts minTS : Timestamp} {tok : ℕ}
    (h : r.trackEvaluatingRequest wts = some (r', minTS, tok)) :
    r' = { r with tracked := r'.tracked, evaluating := r'.evaluating, nextTok := r'.nextTok } := by
  obtain ⟨m, -, heq⟩ := map_eq_some_iff.mp h
  cases heq
  rfl

lemma propose_cases {tok : Option ℕ} {inserted : Bool}
    (h : r.propose reqs env id tok = some (r', inserted)) : ∃ r1,
      (r.modify id fun p => { p with maxLeaseIndex := 0, footer := none }).allocateIndex reqs env =
        some (r1, inserted) ∧
      (inserted ∧ r' = ((r1.moveToken tok).modify id fun p =>
          { p with tok := ⟨false, tok⟩ }).insertIntoArray id ∨
        inserted = false ∧ r' = (r1.modify id fun p =>
          { p with maxLeaseIndex := (r.props id).maxLeaseIndex }).untrack tok) := by
  obtain ⟨⟨r1, room⟩, halloc, heq⟩ := map_eq_some_iff.mp h
  cases room <;> cases heq
  · exact ⟨r1, halloc, .inr ⟨rfl, rfl⟩⟩
  · exact ⟨r1, halloc, .inl ⟨rfl, rfl⟩⟩

lemma reinsert_cases (h : r.reinsert reqs env id = some r') : ∃ r1 room,
    r.allocateIndex reqs env = some (r1, room) ∧
      (room ∧ r' = r1.insertIntoArray id ∨
        room = false ∧ r' = r1.rejectProposalWithErr id .ambiguousReinsert) := by
  obtain ⟨⟨r1, room⟩, halloc, rfl⟩ := map_eq_some_iff.mp h
  cases room
  · exact ⟨r1, _, halloc, .inr ⟨rfl, rfl⟩⟩
  · exact ⟨r1, _, halloc, .inl ⟨rfl, rfl⟩⟩

lemma tryRepropose_cases {e : Entry}
    (h : r.tryReproposeWithNewLeaseIndex reqs env invalid e = some (r', out)) :
    (r' = r ∧ out = none ∧ ((r.props e.idKey).applied ∨
      e.maxLeaseIndex ≠ (r.props e.idKey).maxLeaseIndex)) ∨
    ((r.props e.idKey).applied = false ∧ e.maxLeaseIndex = (r.props e.idKey).maxLeaseIndex ∧
      ∃ r1 minTS tok, r.trackEvaluatingRequest (reqs e.idKey).writeTimestamp =
          some (r1, minTS, tok) ∧
        (r' = r1.untrack (some tok) ∧
          (out = some .closedTimestampPassed ∨ out = some .proposeFailed) ∨
        ((reqs e.idKey).appliesTimestampCache &&
            (reqs e.idKey).writeTimestamp.lessEq minTS) = false ∧
          ∃ r2 inserted, r1.propose reqs env e.idKey (some tok) = some (r2, inserted) ∧
            r' = r2 ∧ (inserted = true → out = none))) := by
  unfold tryReproposeWithNewLeaseIndex at h
  by_cases hdone : ((r.props e.idKey).applied ||
      decide (e.maxLeaseIndex ≠ (r.props e.idKey).maxLeaseIndex))
  · rw [if_pos hdone] at h
    cases h
    exact .inl ⟨rfl, rfl, by simpa using hdone⟩
  rw [if_neg hdone] at h
  cases htrack : r.trackEvaluatingRequest (reqs e.idKey).writeTimestamp with
  | none => simp [htrack] at h
  | some x =>
    obtain ⟨r1, minTS, tok⟩ := x
    simp only [htrack] at h
    rw [Bool.or_eq_true, not_or] at hdone
    refine .inr ⟨by simpa using hdone.1, by simpa using hdone.2, r1, minTS, tok, rfl, ?_⟩
    split_ifs at h with hclosed
    · cases h
      exact .inl ⟨rfl, .inl rfl⟩
    · cases h
      exact .inl ⟨rfl, .inr rfl⟩
    obtain ⟨⟨r2, inserted⟩, hprop, heq⟩ := map_eq_some_iff.mp h
    refine .inr ⟨by simpa using hclosed, r2, inserted, hprop, ?_⟩
    cases inserted <;> cases heq
    · exact ⟨rfl, nofun⟩
    · exact ⟨rfl, fun _ => rfl⟩

lemma prepareLocalResult_cases (h : prepareLocalResult reqs env invalid r cmd = some (r', out)) :
    cmd.isLocal = false ∧ r' = r ∧ out = none ∨ cmd.isLocal ∧
      (cmd.forcedErrResult.forcedError = none ∧ r' = r ∧ out = some .reply ∨
        cmd.forcedErrResult.forcedError ≠ none ∧
          (cmd.forcedErrResult.rejection = .permanent ∧ r' = r ∧
              (∃ err, out = some (.rejected err)) ∨
            cmd.forcedErrResult.rejection = .illegalLeaseIndex ∧
              r.tryReproposeWithNewLeaseIndex reqs env invalid cmd.entry = some (r', out))) := by
  unfold prepareLocalResult at h
  cases hloc : cmd.isLocal with
  | false =>
    rw [hloc] at h
    cases h
    exact .inl ⟨rfl, rfl, rfl⟩
  | true =>
    rw [hloc] at h
    refine .inr ⟨rfl, ?_⟩
    cases hforced : cmd.forcedErrResult.forcedError with
    | none =>
      rw [hforced] at h
      cases h
      exact .inl ⟨rfl, rfl, rfl⟩
    | some err =>
      rw [hforced] at h
      refine .inr ⟨by simp, ?_⟩
      cases hrej : cmd.forcedErrResult.rejection with
      | permanent =>
        rw [hrej] at h
        cases h
        exact .inl ⟨rfl, rfl, err, rfl⟩
      | illegalLeaseIndex =>
        rw [hrej] at h
        exact .inr ⟨rfl, h⟩

lemma applySideEffects_cases (h : r.applySideEffects reqs env invalid = some r') :
    ∃ cmd rest r1 out, r.staged = cmd :: rest ∧
      prepareLocalResult reqs env invalid { r with staged := rest } cmd = some (r1, out) ∧
      (out = none ∧ r' = r1 ∨ ∃ res, out = some res ∧ r1.finishLocal cmd res = some r') := by
  unfold applySideEffects at h
  split at h
  · cases h
  next cmd rest hstaged =>
    cases hprep : prepareLocalResult reqs env invalid { r with staged := rest } cmd with
    | none => simp [hprep] at h
    | some x =>
      obtain ⟨r1, out⟩ := x
      refine ⟨cmd, rest, r1, out, hstaged, hprep, ?_⟩
      cases out <;> simp_all

end Replica
end MeshDB.Kvserver
