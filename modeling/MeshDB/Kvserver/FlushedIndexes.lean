import MeshDB.Kvserver.ClosedTimestamps

/-!
# The invariant along a flush

Each part of the loop over the buffer keeps the invariant of closed timestamps, and so
do the flush, an insertion that may flush first, and a proposal.
-/
namespace MeshDB.Kvserver

open List Option Hlc Roachpb Transition Timestamp
namespace Replica

variable {reqs : ℕ → Request} {r r' : Replica} {id : ℕ}

/-! ## Changes to one proposal -/

section
variable {f : ProposalData → ProposalData} (hc : ∀ p, p.created → (f p).created)
include hc

lemma modify_created {i : ℕ} (h : (r.props i).created) :
    ((r.modify id f).props i).created := by
  rcases eq_or_ne i id with rfl | hne
  · rw [modify_props_self]
    exact hc _ h
  · rw [modify_props_of_ne r f hne, h]

variable (ht : (reqs id).appliesTimestampCache → ∀ p, p.tok.done ∨ p.tok.tok ≠ none →
  (f p).tok.done ∨ (f p).tok.tok ≠ none)
include ht

lemma Entered.modify {i : ℕ} (h : Entered reqs r i) : Entered reqs (r.modify id f) i := by
  refine ⟨modify_created hc h.1, fun ha => ?_⟩
  rcases eq_or_ne i id with rfl | hne
  · rw [modify_props_self]
    exact ht ha _ (h.2 ha)
  rw [modify_props_of_ne r f hne]
  exact h.2 ha

lemma Indexes.modify_of_footers (h : Indexes reqs r)
    (hfooters : ∀ i, Genuine reqs (r.modify id f) ((r.modify id f).encode i))
    (hindex : ∀ a ∈ r.assigned, Live reqs r.replicaState a.idKey →
      a.index ≤ ((r.modify id f).props a.idKey).maxLeaseIndex ∨
        a.index ≤ r.replicaState.leaseAppliedIndex) : Indexes reqs (r.modify id f) :=
  { h with
    entered := fun i hi => (h.entered i hi).modify hc ht
    assigned_le := fun a ha => ⟨(h.assigned_le a ha).1, (h.assigned_le a ha).2.1,
      modify_created hc (h.assigned_le a ha).2.2⟩
    footers := hfooters
    index_le := hindex
    queue_created := fun cmd hcmd hloc => modify_created hc (h.queue_created cmd hcmd hloc)
    staged_created := fun cmd hcmd hloc => modify_created hc (h.staged_created cmd hcmd hloc) }

lemma Indexes.modify (h : Indexes reqs r) (hm : ∀ p, (f p).maxLeaseIndex = p.maxLeaseIndex)
    (hf : ∀ p, (f p).footer = p.footer) : Indexes reqs (r.modify id f) := by
  refine h.modify_of_footers hc ht (fun i => ?_) fun a ha hlive => ?_
  · have hgen := h.footers i
    unfold encode at hgen ⊢
    rw [modify_props_eq ProposalData.footer hf r id i]
    exact hgen
  · rw [modify_props_eq ProposalData.maxLeaseIndex hm r id]
    exact h.index_le a ha hlive

omit ht

lemma ClosedInv.modify (h : ClosedInv reqs r) (htok : ∀ p, (f p).tok = p.tok)
    (hm : ∀ p, (f p).maxLeaseIndex = p.maxLeaseIndex) (hf : ∀ p, (f p).footer = p.footer) :
    ClosedInv reqs (r.modify id f) :=
  ⟨h.tokens.congr rfl rfl rfl (modify_props_eq _ htok r id) rfl rfl,
    h.indexes.modify hc (fun _ p hp => (htok p).symm ▸ hp) hm hf⟩

omit hc

lemma Keeps.modify (hc : ∀ p, (f p).created = p.created)
    (ht : (reqs id).appliesTimestampCache → ∀ p, p.tok.done ∨ p.tok.tok ≠ none →
      (f p).tok.done ∨ (f p).tok.tok ≠ none) : Keeps reqs r (r.modify id f) :=
  { @Keeps.refl reqs r with
    created := modify_props_eq _ hc r id
    entered := fun _ h => h.modify (fun p => (hc p).trans) ht }

end

lemma Indexes.withTracker (h : Indexes reqs r) (tracked evaluating : List (ℕ × Timestamp))
    (nextTok : ℕ) :
    Indexes reqs { r with tracked := tracked, nextTok := nextTok, evaluating := evaluating } :=
  { h with }

lemma Indexes.doneIfNotMoved (h : Indexes reqs r) (id : ℕ) :
    Indexes reqs (r.doneIfNotMoved id) := by
  unfold Replica.doneIfNotMoved
  split_ifs
  · exact h
  have hmod : Indexes reqs (r.modify id fun p => { p with tok := { p.tok with done := true } }) :=
    h.modify (fun _ hc => hc) (fun _ _ _ => .inl rfl) (fun _ => rfl) fun _ => rfl
  exact hmod.withTracker _ _ _

lemma Tokens.keeps_doneIfNotMoved (h : Tokens reqs r) (id : ℕ) :
    Keeps reqs r (r.doneIfNotMoved id) := by
  unfold Replica.doneIfNotMoved
  split_ifs with hdone
  · exact Keeps.refl r
  have hmod : Keeps reqs r (r.modify id fun p => { p with tok := { p.tok with done := true } }) :=
    Keeps.modify (fun _ => rfl) (fun _ _ _ => .inl rfl)
  refine { hmod with evaluating := fun x hx => mem_filter.mpr ⟨hx, ?_⟩ }
  simp only [ne_eq, decide_not, Bool.not_eq_eq_eq_not, Bool.not_true, decide_eq_false_iff_not]
  intro heq
  exact h.not_holds x hx id ⟨by simpa using hdone, heq.symm⟩

lemma ClosedInv.doneIfNotMoved (h : ClosedInv reqs r) (id : ℕ) :
    ClosedInv reqs (r.doneIfNotMoved id) :=
  ⟨h.tokens.doneIfNotMoved id, h.indexes.doneIfNotMoved id⟩

lemma signalProposalResult_eq (p : ProposalData) (res : ProposalResult) :
    p.signalProposalResult res = { p with result := some (p.result.getD res) } := by
  obtain ⟨created, maxLeaseIndex, footer, tok, applied, result⟩ := p
  unfold ProposalData.signalProposalResult
  cases result <;> simp

lemma finishApplication_eq (r : Replica) (id : ℕ) (res : ProposalResult) :
    r.finishApplication id res =
      r.modify id fun p => { p with result := some (p.result.getD res) } :=
  congrArg (r.modify id) (funext fun p => signalProposalResult_eq p res)

lemma ClosedInv.finishApplication (h : ClosedInv reqs r) (id : ℕ) (res : ProposalResult) :
    ClosedInv reqs (r.finishApplication id res) := by
  rw [finishApplication_eq]
  exact h.modify (fun _ hc => hc) (fun _ => rfl) (fun _ => rfl) fun _ => rfl

lemma Keeps.finishApplication (r : Replica) (id : ℕ) (res : ProposalResult) :
    Keeps reqs r (r.finishApplication id res) := by
  rw [finishApplication_eq]
  exact Keeps.modify (fun _ => rfl) fun _ _ ht => ht

/-! ## The map of proposals -/

lemma ClosedInv.registerProposal (h : ClosedInv reqs r) (hid : Entered reqs r id) :
    ClosedInv reqs (r.registerProposal id) where
  tokens := h.tokens.congr rfl rfl rfl (fun _ => rfl) rfl rfl
  indexes :=
    { h.indexes with
      entered := by
        rintro i (hi | hi)
        · exact h.indexes.entered i (.inl hi)
        rcases Finset.mem_insert.mp hi with rfl | hi
        · exact hid
        · exact h.indexes.entered i (.inr hi)
      pending := fun a ha hlive hlt =>
        (h.indexes.pending a ha hlive hlt).imp_left Finset.mem_insert_of_mem }

lemma ClosedInv.cleanupFailedProposal (h : ClosedInv reqs r)
    (hdead : ∀ a ∈ r.assigned, a.idKey = id → Live reqs r.replicaState id →
      a.index ≤ r.replicaState.leaseAppliedIndex) :
    ClosedInv reqs (r.cleanupFailedProposal id) where
  tokens := h.tokens.congr rfl rfl rfl (fun _ => rfl) rfl rfl
  indexes :=
    { h.indexes with
      entered := fun i hi => h.indexes.entered i (hi.imp_right Finset.mem_of_mem_erase)
      pending := by
        intro a ha hlive hlt
        refine (h.indexes.pending a ha hlive hlt).imp_left fun hmem => ?_
        apply Finset.mem_erase_of_ne_of_mem _ hmem
        intro heq
        exact absurd (hdead a ha heq (heq ▸ hlive)) (not_le.mpr hlt) }

lemma not_live_of_not_applies {st : ReplicaState}
    (h : (reqs id).appliesTimestampCache = false) : ¬Live reqs st id := by
  intro hlive
  rw [hlive.current.1] at h
  cases h

lemma ClosedInv.rejectProposalWithErr (h : ClosedInv reqs r)
    (happ : (reqs id).appliesTimestampCache = false) (res : ProposalResult) :
    ClosedInv reqs (r.rejectProposalWithErr id res) :=
  (h.cleanupFailedProposal fun _ _ _ hlive =>
    absurd hlive (not_live_of_not_applies happ)).finishApplication id res

lemma Keeps.rejectProposalWithErr (r : Replica) (id : ℕ) (res : ProposalResult) :
    Keeps reqs r (r.rejectProposalWithErr id res) :=
  (show Keeps reqs r (r.cleanupFailedProposal id) from
    { Keeps.refl r with }).trans (Keeps.finishApplication _ id res)

/-! ## Indexes and closed timestamps -/

section
variable (r : Replica) (id lai : ℕ) (closed : Timestamp)

lemma marshall_tok (i : ℕ) :
    ((r.marshallLAIAndClosedTimestamp id lai closed).props i).tok = (r.props i).tok := by
  apply modify_props_eq ProposalData.tok
  exact fun _ => rfl

lemma Keeps.marshall : Keeps reqs r (r.marshallLAIAndClosedTimestamp id lai closed) := by
  exact Keeps.modify (fun _ => rfl) fun _ _ ht => ht

lemma marshall_self : (r.marshallLAIAndClosedTimestamp id lai closed).props id =
    ⟨(r.props id).created, lai, some ⟨lai, closed⟩, (r.props id).tok, (r.props id).applied,
      (r.props id).result⟩ :=
  modify_props_self r id _

lemma marshall_of_ne {i : ℕ} (h : i ≠ id) :
    (r.marshallLAIAndClosedTimestamp id lai closed).props i = r.props i :=
  modify_props_of_ne r _ h

end

lemma ClosedInv.marshall_zero (h : ClosedInv reqs r)
    (hreq : (reqs id).isSingleRequestLeaseRequest) :
    ClosedInv reqs (r.marshallLAIAndClosedTimestamp id 0 {}) := by
  have happ : (reqs id).appliesTimestampCache = false := by
    by_contra hne
    have hnot := ((reqs id).not_lease (by simpa using hne)).1
    rw [Request.isSingleRequestLeaseRequest, hnot] at hreq
    cases hreq
  refine ⟨h.tokens.congr rfl rfl rfl (marshall_tok r id 0 {}) rfl rfl,
    h.indexes.modify_of_footers (fun _ hc => hc) (fun _ _ ht => ht) (fun i => ?_)
      fun a ha hlive => ?_⟩
  · rcases eq_or_ne i id with rfl | hne
    · exact .inr (.inr (.inl ⟨hreq, by simp [encode, Entry.closedTimestamp, Timestamp.isEmpty]⟩))
    have hgen := h.indexes.footers i
    unfold encode at hgen ⊢
    rw [modify_props_of_ne r _ hne]
    exact hgen
  have hne : a.idKey ≠ id := by
    rintro rfl
    exact not_live_of_not_applies happ hlive
  rw [modify_props_of_ne r _ hne]
  exact h.indexes.index_le a ha hlive

lemma Keeps.assign (r : Replica) (id : ℕ) (closedTS : Timestamp) :
    Keeps reqs r (r.assign id closedTS) :=
  { Keeps.marshall r id (r.assignedLAI + 1) (r.assignedClosedTimestamp.forward closedTS) with
    assigned := fun _ ha => mem_cons_of_mem _ ha }

/-- The next index and closed timestamp for a proposal that writes above those before. -/
lemma ClosedInv.assign (h : ClosedInv reqs r) {closedTS : Timestamp}
    (hclosed : ∀ x ∈ r.tracked, closedTS.ord < x.2.ord) (hmem : id ∈ r.proposals)
    (hwts : Current reqs r.replicaState id →
      r.assignedClosedTimestamp.ord < (reqs id).writeTimestamp.ord) :
    ClosedInv reqs (r.assign id closedTS) := by
  have hle : r.assignedClosedTimestamp.ord ≤ (r.assignedClosedTimestamp.forward closedTS).ord := by
    rw [ord_forward]
    exact le_max_left _ _
  have hkeeps : Keeps reqs r (r.assign id closedTS) := Keeps.assign r id closedTS
  have hof_ne : ∀ i, i ≠ id → (r.assign id closedTS).props i = r.props i := fun i hne =>
    marshall_of_ne r id _ _ hne
  have hself := marshall_self r id (r.assignedLAI + 1) (r.assignedClosedTimestamp.forward closedTS)
  change (r.assign id closedTS).props id = _ at hself
  constructor
  · refine h.tokens.close (fun x hx hlt => ?_) (show _ = r.assignedClosedTimestamp.forward closedTS
      from rfl) rfl rfl rfl (fun i _ hk => marshall_tok r id _ _ i ▸ hk) rfl
    rw [ord_forward]
    exact max_lt hlt (hclosed x hx)
  refine
    { h.indexes with
      entered := fun i hi => hkeeps.entered i (h.indexes.entered i hi)
      raftClosed_le := h.indexes.raftClosed_le.trans hle
      sorted := pairwise_cons.mpr ⟨fun x hx => ?_, h.indexes.sorted⟩
      assigned_le := fun a ha => ?_
      footers := fun i => ?_
      sent := fun e he => (h.indexes.sent e he).keeps hkeeps
      queue := fun cmd hcmd => (h.indexes.queue cmd hcmd).keeps hkeeps
      index_le := fun a ha hlive => ?_
      pending := fun a ha hlive hlt => ?_
      queue_created := fun cmd hcmd hloc =>
        (hkeeps.created _).trans (h.indexes.queue_created cmd hcmd hloc)
      staged_created := fun cmd hcmd hloc =>
        (hkeeps.created _).trans (h.indexes.staged_created cmd hcmd hloc)
      sideClosed_le := fun c hc => (h.indexes.sideClosed_le c hc).trans hle
      sideClosed_lt := fun c hc a ha hlive hlt => ?_
      accepted := fun e he happ => ?_ }
  · obtain ⟨hidx, hts, -⟩ := h.indexes.assigned_le x hx
    exact ⟨Nat.lt_succ_of_le hidx, hts.trans hle, fun hcur => hts.trans_lt (hwts hcur)⟩
  · rcases mem_cons.mp ha with rfl | ha
    · exact ⟨le_rfl, le_rfl, (hkeeps.created id).trans (h.indexes.entered id (.inr hmem)).1⟩
    obtain ⟨hidx, hts, hc⟩ := h.indexes.assigned_le a ha
    exact ⟨Nat.le_succ_of_le hidx, hts.trans hle, (hkeeps.created _).trans hc⟩
  · rcases eq_or_ne i id with rfl | hne
    · right; right; right
      unfold encode
      rw [hself]
      exact .head _
    have hgen := (h.indexes.footers i).keeps hkeeps
    unfold encode at hgen ⊢
    rw [hof_ne i hne]
    exact hgen
  · rcases mem_cons.mp ha with rfl | ha
    · left
      rw [hself]
    rcases eq_or_ne a.idKey id with heq | hne
    · left
      rw [heq, hself]
      exact Nat.le_succ_of_le (h.indexes.assigned_le a ha).1
    rw [hof_ne _ hne]
    exact h.indexes.index_le a ha hlive
  · rcases mem_cons.mp ha with rfl | ha
    · exact .inl hmem
    · exact h.indexes.pending a ha hlive hlt
  · rcases mem_cons.mp ha with rfl | ha
    · exact (h.indexes.sideClosed_le c hc).trans_lt (hwts hlive.current)
    · exact h.indexes.sideClosed_lt c hc a ha hlive hlt
  · obtain ⟨hcur, hidx, hmem, hside⟩ := h.indexes.accepted e he happ
    exact ⟨hcur, hidx, mem_cons_of_mem _ hmem, hside⟩

lemma closedTarget_lt {env : FlushEnv} {tracked : List (ℕ × Timestamp)}
    {upperBound closedTS : Timestamp}
    (h : closedTarget env.closedTSTarget (env.evalTracker.lowerBound tracked) upperBound =
      some closedTS) : ∀ x ∈ tracked, closedTS.ord < x.2.ord := by
  intro x hx
  unfold closedTarget at h
  split_ifs at h with hempty
  · rw [env.evalTracker.eq_nil_of_isEmpty tracked hempty] at hx
    cases hx
  rw [map_eq_some_iff] at h
  obtain ⟨p, hp, rfl⟩ := h
  rw [ord_backward, ord_backward]
  exact (min_le_left _ _).trans_lt ((min_le_right _ _).trans_lt
    ((floorPrev_ord_lt hp).trans_le (env.evalTracker.lowerBound_le tracked x hx)))

lemma allocate_cases {env : FlushEnv}
    (h : r.allocateLAIAndClosedTimestamp reqs env id = some r') :
    (reqs id).isSingleRequestLeaseRequest ∧ r' = r.marshallLAIAndClosedTimestamp id 0 {} ∨
      ∃ closedTS, closedTarget env.closedTSTarget (env.evalTracker.lowerBound r.tracked)
        (reqs id).closedTimestampUpperBound = some closedTS ∧ r' = r.assign id closedTS := by
  unfold allocateLAIAndClosedTimestamp at h
  split_ifs at h with hreq
  · exact .inl ⟨hreq, (Option.some.inj h).symm⟩
  obtain ⟨closedTS, htarget, rfl⟩ := map_eq_some_iff.mp h
  exact .inr ⟨closedTS, htarget, rfl⟩

lemma ClosedInv.allocate (h : ClosedInv reqs r) {env : FlushEnv} (hmem : id ∈ r.proposals)
    (hwts : Current reqs r.replicaState id →
      r.assignedClosedTimestamp.ord < (reqs id).writeTimestamp.ord)
    (halloc : r.allocateLAIAndClosedTimestamp reqs env id = some r') :
    ClosedInv reqs r' ∧ Keeps reqs r r' := by
  obtain ⟨hreq, rfl⟩ | ⟨closedTS, htarget, rfl⟩ := allocate_cases halloc
  · exact ⟨h.marshall_zero hreq, Keeps.marshall r id 0 {}⟩
  · exact ⟨h.assign (closedTarget_lt htarget) hmem hwts, Keeps.assign r id closedTS⟩

end Replica

/-- Raft answers no call of a flush with an error, other than that it drops proposals. -/
def FlushEnv.Undisturbed (env : FlushEnv) : Prop :=
  ∀ g ∈ env.raftGroup, (∀ n, g.step n ≠ .failed) ∧ ∀ id, g.confChangeFails id = false

/-! ## The loop -/

namespace Flush

open Replica
variable {reqs : ℕ → Request} {env : FlushEnv} {f f' : Flush} {id : ℕ}

lemma proposeOne_cases {reproposal : Bool} (h : f.proposeOne reqs env reproposal id = some f') :
    f' = f ∨ ∃ g ∈ env.raftGroup, f.firstErr = false ∧ (f' = f.handOver reqs g id ∨
      reproposal = false ∧
      ∃ r, f.r.allocateLAIAndClosedTimestamp reqs env id = some r ∧
        f' = handOver reqs g { f with r := r } id) := by
  unfold Flush.proposeOne at h
  cases henv : env.raftGroup with
  | none =>
    rw [henv] at h
    exact .inl (Option.some.inj h).symm
  | some g =>
    rw [henv] at h
    split_ifs at h with herr hrep
    · exact .inl (Option.some.inj h).symm
    · exact .inr ⟨g, rfl, Bool.eq_false_iff.mpr herr, .inl (Option.some.inj h).symm⟩
    obtain ⟨r, halloc, rfl⟩ := map_eq_some_iff.mp h
    exact .inr ⟨g, rfl, Bool.eq_false_iff.mpr herr,
      .inr ⟨Bool.eq_false_iff.mpr hrep, r, halloc, rfl⟩⟩

lemma flushOne_cases (h : f.flushOne reqs env id = some f') :
    (∃ res, maybeRejectUnsafeProposal reqs env.raftGroup id = some res ∧
      f' = { f with r := (f.r.rejectProposalWithErr id res).doneIfNotMoved id }) ∨
    proposeOne reqs env { f with r := (f.r.registerProposal id).doneIfNotMoved id }
      (!(f.r.props id).tok.stillTracked) id = some f' := by
  unfold Flush.flushOne at h
  split at h
  · exact .inl ⟨_, ‹_›, (Option.some.inj h).symm⟩
  · split_ifs at h
    exact .inr h

/-! ## Flushes without an error -/

lemma send_firstErr {res : StepResult} (hres : res ≠ .failed) (ents : List Entry) :
    (f.send ents res).firstErr = f.firstErr := by
  cases res with
  | appended => rfl
  | dropped => rfl
  | failed => exact absurd rfl hres

lemma proposeBatch_firstErr {g : RaftGroup} (hstep : ∀ n, g.step n ≠ .failed) :
    (f.proposeBatch g).firstErr = f.firstErr := by
  unfold Flush.proposeBatch
  split_ifs
  · rfl
  · exact send_firstErr (hstep _) _

lemma handOver_firstErr {g : RaftGroup} (hstep : ∀ n, g.step n ≠ .failed)
    (hconf : ∀ i, g.confChangeFails i = false) :
    (f.handOver reqs g id).firstErr = f.firstErr := by
  unfold Flush.handOver
  split_ifs with hchange herr hfails
  · exact proposeBatch_firstErr hstep
  · exact absurd hfails (by simp [hconf id])
  · exact (send_firstErr (hstep _) _).trans (proposeBatch_firstErr hstep)
  · rfl

lemma flushOne_firstErr (henv : env.Undisturbed) (h : f.flushOne reqs env id = some f') :
    f'.firstErr = f.firstErr := by
  obtain ⟨res, -, rfl⟩ | hone := flushOne_cases h
  · rfl
  obtain rfl | ⟨g, hg, -, rfl | ⟨-, r, -, rfl⟩⟩ := proposeOne_cases hone
  · rfl
  · exact handOver_firstErr (henv g hg).1 (henv g hg).2
  · exact handOver_firstErr (henv g hg).1 (henv g hg).2

lemma loop_firstErr (henv : env.Undisturbed) {ids : List ℕ}
    (h : ids.foldlM (Flush.flushOne reqs env) f = some f') : f'.firstErr = f.firstErr := by
  induction ids generalizing f with
  | nil =>
    cases h
    rfl
  | cons id ids ih =>
    obtain ⟨f1, hone, hrest⟩ := bind_eq_some_iff.mp h
    exact (ih hrest).trans (flushOne_firstErr henv hone)

lemma finish_firstErr (henv : env.Undisturbed) : (f.finish env).firstErr = f.firstErr := by
  unfold Flush.finish
  cases hgroup : env.raftGroup with
  | none => rfl
  | some g =>
    split_ifs
    · rfl
    · exact proposeBatch_firstErr (henv g hgroup).1

/-! ## The invariant of the loop -/

/-- The entries still to be sent are genuine. -/
structure Inv (reqs : ℕ → Request) (f : Flush) : Prop where
  closed : ClosedInv reqs f.r
  ents : ∀ e ∈ f.ents, Genuine reqs f.r e

lemma Inv.of_keeps (h : Inv reqs f) (hinv : ClosedInv reqs f'.r) (hk : Keeps reqs f.r f'.r)
    (hents : f'.ents = f.ents) : Inv reqs f' :=
  ⟨hinv, fun e he => (h.ents e (hents ▸ he)).keeps hk⟩

lemma Inv.send (h : Inv reqs f) {ents : List Entry} (hents : ∀ e ∈ ents, Genuine reqs f.r e)
    (res : StepResult) : Inv reqs (f.send ents res) ∧ Keeps reqs f.r (f.send ents res).r := by
  cases res with
  | appended =>
    have hsent : ∀ e ∈ f.r.sent ++ ents, Genuine reqs f.r e :=
      forall_mem_append.mpr ⟨h.closed.indexes.sent, hents⟩
    exact ⟨⟨⟨h.closed.tokens.congr rfl rfl rfl (fun _ => rfl) rfl rfl,
      { h.closed.indexes with sent := hsent }⟩, h.ents⟩, { Keeps.refl f.r with }⟩
  | dropped | failed => exact ⟨⟨h.closed, h.ents⟩, Keeps.refl f.r⟩

lemma Inv.proposeBatch (h : Inv reqs f) (g : RaftGroup) :
    Inv reqs (f.proposeBatch g) ∧ Keeps reqs f.r (f.proposeBatch g).r := by
  unfold Flush.proposeBatch
  split_ifs
  · exact ⟨h, Keeps.refl f.r⟩
  obtain ⟨hinv, hk⟩ := h.send h.ents (g.step f.calls)
  exact ⟨⟨hinv.closed, by simp⟩, hk⟩

lemma Inv.handOver (h : Inv reqs f) (g : RaftGroup) (id : ℕ) :
    Inv reqs (f.handOver reqs g id) ∧ Keeps reqs f.r (f.handOver reqs g id).r := by
  have hgen := h.closed.indexes.footers id
  obtain ⟨hinv, hk⟩ := h.proposeBatch g
  unfold Flush.handOver
  split_ifs
  · exact ⟨hinv, hk⟩
  · exact ⟨⟨hinv.closed, hinv.ents⟩, hk⟩
  · have hone : ∀ e ∈ [f.r.encode id], Genuine reqs (f.proposeBatch g).r e := by
      simpa using hgen.keeps hk
    obtain ⟨hsent, hk'⟩ := hinv.send hone (g.step (f.proposeBatch g).calls)
    exact ⟨hsent, hk.trans hk'⟩
  refine ⟨⟨h.closed, fun e he => ?_⟩, Keeps.refl f.r⟩
  rcases mem_append.mp he with he | he
  · exact h.ents e he
  rw [mem_singleton.mp he]
  exact hgen

lemma Inv.proposeOne (h : Inv reqs f) {reproposal : Bool} (hmem : id ∈ f.r.proposals)
    (hwts : reproposal = false → Current reqs f.r.replicaState id →
      f.r.assignedClosedTimestamp.ord < (reqs id).writeTimestamp.ord)
    (hone : f.proposeOne reqs env reproposal id = some f') :
    Inv reqs f' ∧ Keeps reqs f.r f'.r := by
  obtain rfl | ⟨g, -, -, rfl | ⟨hrep, r, halloc, rfl⟩⟩ := proposeOne_cases hone
  · exact ⟨h, Keeps.refl f'.r⟩
  · exact h.handOver g id
  obtain ⟨hinv, hk⟩ := h.closed.allocate hmem (hwts hrep) halloc
  have hf : Inv reqs { f with r := r } := h.of_keeps hinv hk rfl
  obtain ⟨hinv', hk'⟩ := hf.handOver g id
  exact ⟨hinv', hk.trans hk'⟩

lemma appliesTimestampCache_of_rejected {g : Option RaftGroup} {res : ProposalResult}
    (h : maybeRejectUnsafeProposal reqs g id = some res) :
    (reqs id).appliesTimestampCache = false := by
  by_contra hne
  obtain ⟨hreq, htransfer⟩ := (reqs id).not_lease (by simpa using hne)
  unfold maybeRejectUnsafeProposal Request.isSingleRequestLeaseRequest at h
  rw [hreq, htransfer] at h
  cases g <;> simp at h

lemma Inv.flushOne (h : Inv reqs f) (hid : Entered reqs f.r id)
    (hone : f.flushOne reqs env id = some f') : Inv reqs f' ∧ Keeps reqs f.r f'.r := by
  obtain ⟨res, hrej, rfl⟩ | hone := flushOne_cases hone
  · have hinv := h.closed.rejectProposalWithErr (appliesTimestampCache_of_rejected hrej) res
    have hk := (Keeps.rejectProposalWithErr f.r id res).trans (hinv.tokens.keeps_doneIfNotMoved id)
    exact ⟨h.of_keeps (hinv.doneIfNotMoved id) hk rfl, hk⟩
  have hreg := h.closed.registerProposal hid
  have hk : Keeps reqs f.r ((f.r.registerProposal id).doneIfNotMoved id) :=
    (show Keeps reqs f.r (f.r.registerProposal id) from { Keeps.refl f.r with }).trans
      (hreg.tokens.keeps_doneIfNotMoved id)
  have hf : Inv reqs { f with r := (f.r.registerProposal id).doneIfNotMoved id } :=
    h.of_keeps (hreg.doneIfNotMoved id) hk rfl
  have hmem : id ∈ ((f.r.registerProposal id).doneIfNotMoved id).proposals := by
    have : ((f.r.registerProposal id).doneIfNotMoved id).proposals = insert id f.r.proposals := by
      unfold doneIfNotMoved
      split_ifs <;> rfl
    rw [this]
    exact Finset.mem_insert_self _ _
  have hclosed : ((f.r.registerProposal id).doneIfNotMoved id).assignedClosedTimestamp =
      f.r.assignedClosedTimestamp := by
    unfold doneIfNotMoved
    split_ifs <;> rfl
  have hwts : (!(f.r.props id).tok.stillTracked) = false →
      Current reqs ((f.r.registerProposal id).doneIfNotMoved id).replicaState id →
      ((f.r.registerProposal id).doneIfNotMoved id).assignedClosedTimestamp.ord <
        (reqs id).writeTimestamp.ord := by
    intro hrep hcur
    rw [hk.replicaState] at hcur
    rw [hclosed]
    have hdone : (f.r.props id).tok.done = false := by
      simpa [TrackedRequestToken.stillTracked] using hrep
    obtain ⟨k, hk⟩ : ∃ k, (f.r.props id).tok.tok = some k := by
      rcases hid.2 hcur.1 with hd | hne
      · simp [hdone] at hd
      · exact ne_none_iff_exists'.mp hne
    obtain ⟨ts, -, hlt, hle⟩ := h.closed.tokens.holds_tracked id k hcur ⟨hdone, hk⟩
    exact hlt.trans_le hle
  obtain ⟨hinv, hk'⟩ := hf.proposeOne hmem hwts hone
  exact ⟨hinv, hk.trans hk'⟩

lemma Inv.loop {ids : List ℕ} (h : Inv reqs f) (hids : ∀ id ∈ ids, Entered reqs f.r id)
    (hloop : ids.foldlM (Flush.flushOne reqs env) f = some f') :
    Inv reqs f' ∧ Keeps reqs f.r f'.r := by
  induction ids generalizing f with
  | nil =>
    cases hloop
    exact ⟨h, Keeps.refl _⟩
  | cons id ids ih =>
    obtain ⟨f1, hone, hrest⟩ := bind_eq_some_iff.mp hloop
    obtain ⟨hinv, hk⟩ := h.flushOne (hids id (.head _)) hone
    obtain ⟨hinv', hk'⟩ := ih hinv (fun i hi => hk.entered i (hids i (.tail _ hi))) hrest
    exact ⟨hinv', hk.trans hk'⟩

lemma Inv.finish (h : Inv reqs f) (env : FlushEnv) :
    Inv reqs (f.finish env) ∧ Keeps reqs f.r (f.finish env).r := by
  unfold Flush.finish
  cases env.raftGroup with
  | none => exact ⟨h, Keeps.refl f.r⟩
  | some g =>
    split_ifs
    · exact ⟨h, Keeps.refl f.r⟩
    · exact h.proposeBatch g

end Flush

lemma PropBufArray.adjustSize_elems (a : PropBufArray) (used : ℕ) :
    (a.adjustSize used).elems = a.elems := by
  unfold PropBufArray.adjustSize
  split_ifs <;> rfl

namespace Replica

variable {reqs : ℕ → Request} {r r' : Replica} {id : ℕ} {env : FlushEnv} {err : Bool}

lemma ClosedInv.withArr (h : ClosedInv reqs r) {arr : PropBufArray}
    (harr : ∀ i ∈ arr.elems, Entered reqs r i) : ClosedInv reqs { r with arr := arr } where
  tokens := h.tokens.congr rfl rfl rfl (fun _ => rfl) rfl rfl
  indexes :=
    { h.indexes with
      entered := fun i hi => hi.elim (harr i) fun hi => h.indexes.entered i (.inr hi) }

/-- Holds whatever Raft answers. -/
lemma ClosedInv.flush (h : ClosedInv reqs r) (hflush : r.flush reqs env = some (r', err)) :
    ClosedInv reqs r' ∧ Keeps reqs r r' := by
  obtain ⟨f, hloop, heq⟩ := map_eq_some_iff.mp hflush
  cases heq
  have hstart : Flush.Inv reqs { r := { r with arr := { r.arr with elems := [] } } } :=
    ⟨h.withArr (by simp), by simp⟩
  have hk0 : Keeps reqs r { r with arr := { r.arr with elems := [] } } := { Keeps.refl r with }
  obtain ⟨hinv, hk⟩ := hstart.loop (fun i hi => h.indexes.entered i (.inl hi)) hloop
  obtain ⟨hinv', hk'⟩ := hinv.finish env
  refine ⟨hinv'.closed.withArr fun i hi => ?_, hk0.trans (hk.trans (hk'.trans
    { Keeps.refl (f.finish env).r with }))⟩
  rw [PropBufArray.adjustSize_elems] at hi
  exact hinv'.closed.indexes.entered i (.inl hi)

variable {room : Bool}

lemma allocateIndex_cases (h : r.allocateIndex reqs env = some (r', room)) :
    r' = r ∨ r.flush reqs env = some (r', !room) := by
  unfold Replica.allocateIndex at h
  split_ifs at h
  · exact .inl (congrArg Prod.fst (Option.some.inj h)).symm
  obtain ⟨x, hflush, heq⟩ := map_eq_some_iff.mp h
  cases heq
  rw [Bool.not_not]
  exact .inr hflush

/-- There is room in the buffer, or a flush without an error makes room. -/
lemma room_of (hroom : r.arr.elems.length < r.arr.len ∨ env.Undisturbed)
    (h : r.allocateIndex reqs env = some (r', room)) : room = true := by
  unfold Replica.allocateIndex at h
  split_ifs at h with hlt
  · exact (congrArg Prod.snd (Option.some.inj h)).symm
  have henv := hroom.resolve_left hlt
  obtain ⟨⟨r1, err⟩, hflush, heq⟩ := map_eq_some_iff.mp h
  obtain ⟨f, hloop, hf⟩ := map_eq_some_iff.mp hflush
  have herr : err = false := (congrArg Prod.snd hf).symm.trans
    ((Flush.finish_firstErr henv).trans (Flush.loop_firstErr henv hloop))
  rw [herr] at heq
  exact (congrArg Prod.snd heq).symm

lemma ClosedInv.allocateIndex (h : ClosedInv reqs r)
    (halloc : r.allocateIndex reqs env = some (r', room)) :
    ClosedInv reqs r' ∧ Keeps reqs r r' := by
  obtain rfl | hflush := allocateIndex_cases halloc
  · exact ⟨h, Keeps.refl r'⟩
  · exact h.flush hflush

lemma ClosedInv.insertIntoArray (h : ClosedInv reqs r) (hid : Entered reqs r id) :
    ClosedInv reqs (r.insertIntoArray id) := by
  apply h.withArr
  intro i hi
  rcases mem_append.mp hi with hi | hi
  · exact h.indexes.entered i (.inl hi)
  rw [mem_singleton.mp hi]
  exact hid

end Replica
end MeshDB.Kvserver
