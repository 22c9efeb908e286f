import MeshDB.Kvserver.ClosedTimestampRuns

/-!
# Writes stay above closed timestamps

A run under one lease starts when the replica gets it. As long as every proposal that is to be
inserted again gets there, the applied commands write above all timestamps that were closed before
their lease indexes.
-/
namespace MeshDB.Kvserver

open List Option Hlc Timestamp Roachpb Transition
namespace Replica

variable {reqs : ℕ → Request} {r r' : Replica} {id : ℕ}

/-! ## Runs under one lease -/

def FromOutside (reqs : ℕ → Request) (r : Replica) (e : Entry) : Prop :=
  (reqs e.idKey).mine = false →
    (reqs e.idKey).command.proposerLeaseSequence ≠ r.replicaState.lease.sequence ∨
      ((reqs e.idKey).isSingleRequestLeaseRequest ∧ e.closedTimestamp.isEmpty)

instance (r : Replica) (e : Entry) : Decidable (FromOutside reqs r e) :=
  inferInstanceAs (Decidable (_ → _))

def SameLeaseAlong (reqs : ℕ → Request) (r : Replica) : List Entry → Prop
  | [] => True
  | e :: ents =>
    SameLease r (r.stageEntry reqs e (r.checkEntry reqs e false)) ∧
      SameLeaseAlong reqs (r.stageEntry reqs e (r.checkEntry reqs e false)) ents

instance SameLeaseAlong.decidable (reqs : ℕ → Request) :
    ∀ (ents : List Entry) (r : Replica), Decidable (SameLeaseAlong reqs r ents)
  | [], _ => isTrue trivial
  | e :: ents, r =>
    have := SameLeaseAlong.decidable reqs ents (r.stageEntry reqs e (r.checkEntry reqs e false))
    inferInstanceAs (Decidable (_ ∧ _))

instance (r : Replica) (ents : List Entry) : Decidable (SameLeaseAlong reqs r ents) :=
  SameLeaseAlong.decidable reqs ents r

def Uninterrupted (reqs : ℕ → Request) (r : Replica) : ReplicaAction → Prop
  | .stage => (r.stage reqs).all (fun r' => SameLease r r')
  | .decode ents => ∀ e ∈ ents, FromOutside reqs r e
  | .snapshot ents _ => (∀ e ∈ ents, FromOutside reqs r e) ∧ SameLeaseAlong reqs r ents
  | _ => True

instance (r : Replica) : (a : ReplicaAction) → Decidable (Uninterrupted reqs r a)
  | .stage => inferInstanceAs (Decidable (_ = _))
  | .decode ents => inferInstanceAs (Decidable (∀ e ∈ ents, _))
  | .snapshot ents _ => inferInstanceAs (Decidable ((∀ e ∈ ents, _) ∧ _))
  | .track _ | .abort _ | .propose _ _ _ | .flush _ | .refresh _ _ | .bumpSideTransportClosed _ _
  | .ackBeforeApplication _ | .applySideEffects _ _ | .finishApplying => .isTrue trivial

/-- The buffer has room for all proposals that an action inserts into it again. -/
def HasRoom (r : Replica) : ReplicaAction → Prop
  | .refresh ids _ => r.arr.elems.length + ids.length ≤ r.arr.len
  | .applySideEffects _ _ => ∀ cmd ∈ r.staged.head?, cmd.isLocal →
      cmd.forcedErrResult.rejection = .illegalLeaseIndex → r.arr.elems.length < r.arr.len
  | _ => True

instance (r : Replica) : (a : ReplicaAction) → Decidable (HasRoom r a)
  | .refresh _ _ => inferInstanceAs (Decidable (_ ≤ _))
  | .applySideEffects _ _ => inferInstanceAs (Decidable (∀ cmd ∈ r.staged.head?, _))
  | .track _ | .abort _ | .propose _ _ _ | .flush _ | .bumpSideTransportClosed _ _ | .decode _
  | .ackBeforeApplication _ | .stage | .finishApplying | .snapshot _ _ => .isTrue trivial

/-- The flushes that make room for proposals to be inserted again meet no error. -/
def FlushesUndisturbed : ReplicaAction → Prop
  | .refresh ids env => ∀ id ∈ ids, (env id).Undisturbed
  | .applySideEffects env _ => env.Undisturbed
  | _ => True

/-- No proposal that is to be inserted into the buffer again is turned away: there is room for it,
or raft answers without an error. -/
def InsertsAgain (r : Replica) (a : ReplicaAction) : Prop := HasRoom r a ∨ FlushesUndisturbed a

/-- The replica has got the lease; what it proposed before carries another sequence
number. -/
structure LeaseStart (reqs : ℕ → Request) (r : Replica) : Prop where
  owned : r.replicaState.lease.replica.storeID = r.storeID
  raftClosed_le : r.raftClosedTimestamp.ord ≤ r.assignedClosedTimestamp.ord
  tok_lt : ∀ id k, (r.props id).tok.Holds k → k < r.nextTok
  holds_inj : ∀ id id' k, (r.props id).tok.Holds k → (r.props id').tok.Holds k → id = id'
  entered : ∀ id, id ∈ r.arr.elems ∨ id ∈ r.proposals → Entered reqs r id
  fresh : ∀ id, (r.props id).created = false → r.props id = {}
  stale : ∀ id, (r.props id).created →
    (reqs id).command.proposerLeaseSequence ≠ r.replicaState.lease.sequence
  sent_stale : ∀ e ∈ r.sent,
    (reqs e.idKey).command.proposerLeaseSequence ≠ r.replicaState.lease.sequence
  evaluating_eq : r.evaluating = []
  queue_eq : r.queue = []
  staged_eq : r.staged = []
  assigned_eq : r.assigned = []
  accepted_eq : r.accepted = []
  sideClosed_eq : r.sideClosed = []

lemma LeaseStart.closedInv (h : LeaseStart reqs r) : ClosedInv reqs r := by
  have hnot : ∀ id k, Current reqs r.replicaState id → ¬(r.props id).tok.Holds k := by
    intro id k hcur hk
    by_cases hc : (r.props id).created
    · exact h.stale id hc hcur.2
    rw [h.fresh id (by simpa using hc)] at hk
    cases hk.2
  have hfooters : ∀ id, Genuine reqs r (r.encode id) := by
    intro id
    by_cases hc : (r.props id).created
    · exact .inl (h.stale id hc)
    right; left
    rw [encode, h.fresh id (by simpa using hc)]
  constructor
  · constructor
    · simp [h.evaluating_eq]
    · exact h.tok_lt
    · simp [h.evaluating_eq]
    · exact h.holds_inj
    · simp [h.evaluating_eq]
    · exact fun id k hcur hk => absurd hk (hnot id k hcur)
  constructor
  · exact h.owned
  · simp [h.queue_eq]
  · exact h.entered
  · exact h.raftClosed_le
  · simp [h.assigned_eq]
  · simp [h.assigned_eq]
  · exact hfooters
  · exact fun e he => .inl (h.sent_stale e he)
  all_goals simp [h.queue_eq, h.assigned_eq, h.staged_eq, h.sideClosed_eq, h.accepted_eq]

/-! ## The remaining actions -/

lemma genuine_of_mayCommit (h : ClosedInv reqs r) {e : Entry} (hmay : r.mayCommit reqs e)
    (hout : FromOutside reqs r e) : Genuine reqs r e := by
  rcases hmay with hsent | hmine
  · exact h.indexes.sent e hsent
  rcases hout hmine with hstale | hreq
  · exact .inl hstale
  · exact .inr (.inr (.inl hreq))

lemma ClosedInv.stageAll (h : ClosedInv reqs r) {ents : List Entry}
    (hgen : ∀ e ∈ ents, Genuine reqs r e) (hlease : SameLeaseAlong reqs r ents) :
    ClosedInv reqs (r.stageAll reqs ents) := by
  induction ents generalizing r with
  | nil => exact h
  | cons e ents ih =>
    obtain ⟨hsame, hrest⟩ := hlease
    refine ih (h.stageEntry (hgen e (.head _)) hsame) (fun e' he => ?_) hrest
    have hg := hgen e' (.tail _ he)
    unfold Genuine at hg ⊢
    rwa [hsame.1]

lemma ClosedInv.refreshAfterSnapshot (h : ClosedInv reqs r) :
    ClosedInv reqs r.refreshAfterSnapshot := by
  obtain ⟨result, heq⟩ : ∃ result : ℕ → Option ProposalResult, r.refreshAfterSnapshot =
      { r with
        proposals := r.proposals \ r.failedBySnapshot
        props := fun i => { r.props i with result := result i } } := by
    refine ⟨fun i => if i ∈ r.failedBySnapshot then
      some ((r.props i).result.getD .ambiguousSnapshot) else (r.props i).result, ?_⟩
    unfold Replica.refreshAfterSnapshot
    congr 1
    funext i
    dsimp only
    split_ifs
    · exact signalProposalResult_eq _ _
    · rfl
  rw [heq]
  refine ⟨{ h.tokens with },
    { h.indexes with
      entered := fun i hi => h.indexes.entered i (hi.imp_right fun hm => (Finset.mem_sdiff.mp hm).1)
      pending := fun a ha hlive hlt => ?_ }⟩
  refine (h.indexes.pending a ha hlive hlt).imp_left fun hmem => ?_
  refine Finset.mem_sdiff.mpr ⟨hmem, fun hfail => ?_⟩
  have hle := (Finset.mem_filter.mp hfail).2
  rcases h.indexes.index_le a ha hlive with hi | hi
  · exact absurd (hi.trans hle) (not_le.mpr hlt)
  · exact absurd hi (not_le.mpr hlt)

lemma ClosedInv.bumpSideTransportClosed (h : ClosedInv reqs r) (evalTracker : EvalTracker)
    (target : Timestamp) : ClosedInv reqs (r.bumpSideTransportClosed evalTracker target) := by
  unfold Replica.bumpSideTransportClosed
  split_ifs with hbusy hlb hlt
  · exact h
  · exact h
  · have hle : r.assignedClosedTimestamp.ord ≤ (r.assignedClosedTimestamp.forward target).ord := by
      rw [ord_forward]
      exact le_max_left _ _
    have htarget : target.ord ≤ (r.assignedClosedTimestamp.forward target).ord := by
      rw [ord_forward]
      exact le_max_right _ _
    rw [not_or, not_not, Bool.not_eq_true] at hbusy
    have hqueue : r.queue = [] := by
      by_contra hne
      rw [h.indexes.applying hne] at hbusy
      cases hbusy.2
    have hpassed : ∀ a ∈ r.assigned, Live reqs r.replicaState a.idKey →
        a.index ≤ r.replicaState.leaseAppliedIndex := by
      intro a ha hlive
      by_contra hlt
      rcases h.indexes.pending a ha hlive (not_le.mp hlt) with hmem | ⟨cmd, hcmd, -⟩
      · rw [hbusy.1] at hmem
        cases hmem
      · simp [hqueue] at hcmd
    have hclose : ∀ x ∈ r.tracked, r.assignedClosedTimestamp.ord < x.2.ord →
        (r.assignedClosedTimestamp.forward target).ord < x.2.ord := by
      intro x hx hx'
      rw [ord_forward]
      refine max_lt hx' ?_
      rw [Bool.and_eq_true, not_and_or, Bool.not_eq_true, Bool.not_eq_true, not_lessEq_iff] at hlb
      rcases hlb with hempty | hlb
      · rw [evalTracker.eq_nil_of_isEmpty r.tracked (by simpa using hempty)] at hx
        cases hx
      · exact hlb.trans_le (evalTracker.lowerBound_le r.tracked x hx)
    refine ⟨h.tokens.close hclose rfl rfl rfl rfl (fun _ _ hk => hk) rfl,
      { h.indexes with
        raftClosed_le := h.indexes.raftClosed_le.trans hle
        assigned_le := fun a ha => ⟨(h.indexes.assigned_le a ha).1,
          (h.indexes.assigned_le a ha).2.1.trans hle, (h.indexes.assigned_le a ha).2.2⟩
        sideClosed_le := fun c hc => ?_
        sideClosed_lt := fun c hc a ha hlive hlt => ?_
        accepted := fun e he happ => ?_ }⟩
    · rcases mem_cons.mp hc with rfl | hc
      · exact htarget
      · exact (h.indexes.sideClosed_le c hc).trans hle
    · rcases mem_cons.mp hc with rfl | hc
      · exact absurd (hpassed a ha hlive) (not_le.mpr hlt)
      · exact h.indexes.sideClosed_lt c hc a ha hlive hlt
    obtain ⟨hcur, hidx, hmem, hside⟩ := h.indexes.accepted e he happ
    refine ⟨hcur, hidx, hmem, fun c hc hlt => ?_⟩
    rcases mem_cons.mp hc with rfl | hc
    · exact absurd hidx (not_le.mpr hlt)
    · exact hside c hc hlt
  · refine h.assignedFrom ?_ le_rfl
    rw [ord_forward]
    exact max_eq_left (not_less_iff.mp (by simpa using hlt))

variable {ids : List ℕ} {env : ℕ → FlushEnv}

/-! ## Every action -/

lemma ClosedInv.refresh (h : ClosedInv reqs r)
    (hids : ∀ id ∈ ids, Entered reqs r id)
    (hfold : ids.foldlM (fun r id => r.reinsert reqs (env id) id) r = some r')
    (hroom : InsertsAgain r (.refresh ids env)) : ClosedInv reqs r' := by
  induction ids generalizing r with
  | nil =>
    cases hfold
    exact h
  | cons id ids ih =>
    obtain ⟨r1, hre, hrest⟩ := bind_eq_some_iff.mp hfold
    have hlt : r.arr.elems.length < r.arr.len ∨ (env id).Undisturbed :=
      hroom.imp (fun hle => by simp only [HasRoom, length_cons] at hle; omega)
        fun henv => henv id (.head _)
    obtain ⟨hinv, hk⟩ := h.reinsert (hids id (.head _)) hre hlt
    refine ih hinv (fun i hi => hk.entered i (hids i (.tail _ hi))) hrest ?_
    refine hroom.imp (fun hle => ?_) fun henv i hi => henv i (.tail _ hi)
    simp only [HasRoom, length_cons] at hle
    have hfree : r.arr.elems.length < r.arr.len := by omega
    simp only [Replica.reinsert, Replica.allocateIndex, if_pos hfree, Option.map_some,
      Option.some.injEq, if_true] at hre
    rw [← hre]
    change (r.arr.elems ++ [id]).length + ids.length ≤ r.arr.len
    rw [length_append, length_singleton]
    omega

lemma ClosedInv.step (h : ClosedInv reqs r) {a : ReplicaAction}
    (hlease : Uninterrupted reqs r a) (hagain : InsertsAgain r a)
    (hstep : r.step reqs a = some r') : ClosedInv reqs r' := by
  cases a with
  | track wts =>
    obtain ⟨⟨r1, minTS, k⟩, htrack, rfl⟩ := map_eq_some_iff.mp hstep
    exact ⟨(h.tokens.track htrack).1,
      trackEvaluatingRequest_eq htrack ▸ h.indexes.withTracker _ _ _⟩
  | abort tok =>
    cases hstep
    unfold Replica.abort
    split_ifs with hex
    · obtain ⟨x, hx, rfl⟩ := hex
      exact h.untrack fun k hk => ⟨x.2, Option.some.inj hk ▸ hx⟩
    · exact h
  | propose id tok env =>
    simp only [Replica.step] at hstep
    split_ifs at hstep with hnew
    obtain ⟨⟨r1, inserted⟩, hprop, rfl⟩ := map_eq_some_iff.mp hstep
    apply h.proposeNew hnew.2.1 _ hprop
    cases tok with
    | none => exact hnew.2.2
    | some k =>
      obtain ⟨-, ts, hts, hle⟩ := hnew.2.2
      exact ⟨ts, hts, fun _ => lessEq_iff.mp hle⟩
  | flush env =>
    obtain ⟨⟨r1, err⟩, hflush, rfl⟩ := map_eq_some_iff.mp hstep
    exact (h.flush hflush).1
  | refresh ids env =>
    simp only [Replica.step] at hstep
    split_ifs at hstep with hids
    exact h.refresh (fun i hi => h.indexes.entered i (.inr (hids i hi))) hstep hagain
  | bumpSideTransportClosed evalTracker target =>
    cases hstep
    exact h.bumpSideTransportClosed evalTracker target
  | decode ents =>
    simp only [Replica.step] at hstep
    split_ifs at hstep with hmay
    cases hstep
    exact h.decode hmay.1 fun e he => genuine_of_mayCommit h (hmay.2.2 e he) (hlease e he)
  | ackBeforeApplication n =>
    simp only [Replica.step] at hstep
    cases hn : r.queue[n]? with
    | none => simp [hn] at hstep
    | some cmd =>
      rw [hn] at hstep
      split_ifs at hstep
      cases hstep
      exact h.finishApplication _ _
  | stage =>
    have hsame : (r.stage reqs).all (fun r' => SameLease r r') := hlease
    rw [show r.stage reqs = some r' from hstep] at hsame
    exact h.stage hstep (by simpa using hsame)
  | applySideEffects env invalid =>
    refine h.applySideEffects hstep fun cmd hcmd hloc hrej => ?_
    exact hagain.imp_left fun hroom => hroom cmd hcmd hloc hrej
  | finishApplying =>
    simp only [Replica.step] at hstep
    split_ifs at hstep with hempty
    cases hstep
    exact ⟨h.tokens.congr rfl rfl rfl (fun _ => rfl) rfl rfl,
      { h.indexes with applying := fun hne => absurd hempty.1 hne }⟩
  | snapshot ents _ =>
    have hinv : (∀ e ∈ ents, r.mayCommit reqs e) →
        ClosedInv reqs (r.stageAll reqs ents).onLeaseChange := fun hmay =>
      (h.stageAll (fun e he => genuine_of_mayCommit h (hmay e he) (hlease.1 e he))
        hlease.2).onLeaseChange
    simp only [Replica.step] at hstep
    split_ifs at hstep with hmay hleader
    · cases hstep
      exact hinv hmay.2.2
    cases hstep
    exact (hinv hmay.2.2).refreshAfterSnapshot

lemma ClosedInv.of_reachable {r0 : Replica} (hstart : LeaseStart reqs r0)
    (h : Reachable (Replica.step reqs)
      (fun r a => Uninterrupted reqs r a ∧ InsertsAgain r a) r0 r) : ClosedInv reqs r :=
  h.invariant hstart.closedInv fun _ _ _ _ hs hok hstep => hs.step hok.1 hok.2 hstep

lemma Indexes.follows (h : Indexes reqs r) {a b : Assignment} (ha : a ∈ r.assigned)
    (hb : b ∈ r.assigned) : a = b ∨ Follows reqs r a b ∨ Follows reqs r b a := by
  have hall : ∀ x ∈ r.assigned, ∀ y ∈ r.assigned, x = y ∨ Follows reqs r x y ∨ Follows reqs r y x :=
    List.Pairwise.forall_of_forall_of_flip (fun x _ => .inl rfl)
      (h.sorted.imp fun hxy => .inr (.inl hxy)) (h.sorted.imp fun hyx => .inr (.inr hyx))
  exact hall a ha b hb

end Replica

open Replica

/-- Under one lease, a command that consults the timestamp cache writes above the closed timestamps
of all commands and of the side transport at lower indexes; and the closed timestamps of commands do
not decrease. -/
theorem writes_above_closed_timestamps {reqs : ℕ → Request} {r₀ r : Replica}
    (hstart : LeaseStart reqs r₀)
    (h : Reachable (Replica.step reqs)
      (fun r a => Uninterrupted reqs r a ∧ InsertsAgain r a) r₀ r) :
    (∀ e ∈ r.accepted, (reqs e.idKey).appliesTimestampCache = true →
      (∀ a ∈ r.assigned, a.index < e.maxLeaseIndex →
        a.closedTimestamp.less (reqs e.idKey).writeTimestamp = true) ∧
      ∀ c ∈ r.sideClosed, c.lai < e.maxLeaseIndex →
        c.timestamp.less (reqs e.idKey).writeTimestamp = true) ∧
    ∀ a ∈ r.assigned, ∀ b ∈ r.assigned, a.index ≤ b.index →
      a.closedTimestamp.lessEq b.closedTimestamp = true := by
  have hinv := (ClosedInv.of_reachable hstart h).indexes
  constructor
  · intro e he happ
    obtain ⟨hcur, -, hmem, hside⟩ := hinv.accepted e he happ
    refine ⟨fun a ha hlt => ?_, fun c hc hlt => less_iff.mpr (hside c hc hlt)⟩
    rcases hinv.follows ha hmem with rfl | hab | hba
    · exact absurd hlt (lt_irrefl _)
    · exact absurd hlt hab.1.asymm
    · exact less_iff.mpr (hba.2.2 hcur)
  intro a ha b hb hle
  rw [lessEq_iff]
  rcases hinv.follows ha hb with rfl | hab | hba
  · exact le_rfl
  · exact absurd hle (not_le.mpr hab.1)
  · exact hba.2.1

/-! ## Runs on fixed requests -/

def leastTracked : List (ℕ × Timestamp) → Timestamp
  | [] => {}
  | x :: xs =>
    if xs = [] ∨ x.2.less (leastTracked xs) then { x.2 with synthetic := true }
    else leastTracked xs

lemma leastTracked_le (tracked : List (ℕ × Timestamp)) :
    ∀ x ∈ tracked, (leastTracked tracked).ord ≤ x.2.ord := by
  induction tracked with
  | nil => simp
  | cons y ys ih =>
    intro x hx
    rw [leastTracked]
    split_ifs with h
    · rcases mem_cons.mp hx with rfl | hx
      · exact le_rfl
      rcases h with rfl | hlt
      · cases hx
      · exact (less_iff.mp hlt).le.trans (ih x hx)
    rw [not_or, Bool.not_eq_true, not_less_iff] at h
    rcases mem_cons.mp hx with rfl | hx
    · exact h.2
    · exact ih x hx

lemma leastTracked_synthetic {x : ℕ × Timestamp} {xs : List (ℕ × Timestamp)} :
    (leastTracked (x :: xs)).synthetic := by
  induction xs generalizing x with
  | nil => rfl
  | cons y ys ih =>
    rw [leastTracked]
    by_cases h : y :: ys = [] ∨ x.2.less (leastTracked (y :: ys))
    · rw [if_pos h]
    rw [if_neg h]
    exact ih

def leastTracker : EvalTracker where
  lowerBound := leastTracked
  lowerBound_le := leastTracked_le
  eq_nil_of_isEmpty := by
    intro tracked h
    cases tracked with
    | nil => rfl
    | cons x xs => simp [Timestamp.isEmpty, leastTracked_synthetic] at h

def twoWrites : ℕ → Request
  | 0 =>
    { command := { replicatedEvalResult := { writeTimestamp := ⟨10, 0, false⟩ } }
      appliesTimestampCache := true
      writeTimestamp := ⟨10, 0, false⟩
      closedTimestampUpperBound := ⟨100, 0, false⟩ }
  | _ =>
    { command := { replicatedEvalResult := { writeTimestamp := ⟨30, 0, false⟩ } }
      appliesTimestampCache := true
      writeTimestamp := ⟨30, 0, false⟩
      closedTimestampUpperBound := ⟨100, 0, false⟩ }

def leaseOfFirstStore : Replica where
  storeID := 1
  replicaState :=
    { lease := { replica := { storeID := 1 }, sequence := 0 }
      desc := ⟨[{ storeID := 1 }], by decide⟩ }

lemma leaseOfFirstStore_start : LeaseStart twoWrites leaseOfFirstStore where
  owned := rfl
  raftClosed_le := le_rfl
  tok_lt := fun _ _ h => by cases h.2
  holds_inj := fun _ _ _ h => by cases h.2
  entered := by simp [leaseOfFirstStore]
  fresh := fun _ _ => rfl
  stale := fun _ h => by cases h
  sent_stale := by simp [leaseOfFirstStore]
  evaluating_eq := rfl
  queue_eq := rfl
  staged_eq := rfl
  assigned_eq := rfl
  accepted_eq := rfl
  sideClosed_eq := rfl

/-- The first write is proposed twice, and the second comes after the side transport closed the time
20. -/
theorem writes_above_closed_timestamps_two :
    ∃ r, Reachable (Replica.step twoWrites)
        (fun r a => Uninterrupted twoWrites r a ∧ InsertsAgain r a)
        leaseOfFirstStore r ∧
      r.accepted.map Entry.idKey = [1, 0] ∧ r.sideClosed = [⟨⟨20, 0, false⟩, 1⟩] ∧
      ∀ e ∈ r.accepted, ∀ c ∈ r.sideClosed, c.lai < e.maxLeaseIndex →
        c.timestamp.less (twoWrites e.idKey).writeTimestamp = true := by
  let env : FlushEnv := { closedTSTarget := ⟨8, 0, false⟩, evalTracker := leastTracker }
  let first : Entry := ⟨0, some ⟨1, ⟨8, 0, false⟩⟩⟩
  let second : Entry := ⟨1, some ⟨2, ⟨20, 0, false⟩⟩⟩
  obtain ⟨r, hroom, hp⟩ := @exists_reachable_of_admitted_run _ _ (Replica.step twoWrites)
    (fun r a => Uninterrupted twoWrites r a ∧ HasRoom r a) leaseOfFirstStore _
    [.track ⟨10, 0, false⟩, .propose 0 (some 0) env, .flush env, .refresh [0] fun _ => env,
      .flush env, .decode [first], .stage, .applySideEffects env false, .finishApplying,
      .bumpSideTransportClosed leastTracker ⟨20, 0, false⟩, .track ⟨30, 0, false⟩,
      .propose 1 (some 1) env, .flush env, .decode [first, second], .stage, .stage,
      .applySideEffects env false, .applySideEffects env false]
    (fun r => decide (r.accepted.map Entry.idKey = [1, 0] ∧ r.accepted = [second, first] ∧
      r.sideClosed = [⟨⟨20, 0, false⟩, 1⟩])) (by decide)
  have hr : Reachable (Replica.step twoWrites)
      (fun r a => Uninterrupted twoWrites r a ∧ InsertsAgain r a) leaseOfFirstStore r :=
    hroom.mono fun _ _ hok => hok.imp_right .inl
  have hp' := of_decide_eq_true hp
  refine ⟨r, hr, hp'.1, hp'.2.2, fun e he c hc hlt => ?_⟩
  have happ : (twoWrites e.idKey).appliesTimestampCache = true := by
    rw [hp'.2.1] at he
    rcases mem_pair.mp he with rfl | rfl <;> rfl
  exact ((writes_above_closed_timestamps leaseOfFirstStore_start hr).1 e he happ).2 c hc hlt

def failingEnv : FlushEnv where
  raftGroup := some { step := fun _ => .failed }
  evalTracker := leastTracker

/-- The first write is in raft and inserted again, where the flush fails; the side transport closes
the time 20, and then the write at the time 10 is applied. -/
theorem write_below_side_transport_timestamp :
    ∃ r, LeaseStart twoWrites leaseOfFirstStore ∧
      Reachable (Replica.step twoWrites) (Uninterrupted twoWrites) leaseOfFirstStore r ∧
      ∃ e ∈ r.accepted, (twoWrites e.idKey).appliesTimestampCache = true ∧
        ∃ c ∈ r.sideClosed, c.lai < e.maxLeaseIndex ∧
          c.timestamp.less (twoWrites e.idKey).writeTimestamp = false := by
  let env : FlushEnv := { evalTracker := leastTracker }
  let first : Entry := ⟨0, some ⟨1, {}⟩⟩
  obtain ⟨r, hr, hp⟩ := @exists_reachable_of_admitted_run _ _ (Replica.step twoWrites)
    (Uninterrupted twoWrites) leaseOfFirstStore _
    [.track ⟨10, 0, false⟩, .propose 0 (some 0) env, .flush env, .refresh [0] fun _ => env,
      .refresh [0] fun _ => env, .refresh [0] fun _ => env, .refresh [0] fun _ => env,
      .refresh [0] fun _ => failingEnv, .bumpSideTransportClosed leastTracker ⟨20, 0, false⟩,
      .decode [first], .stage]
    (fun r => decide (first ∈ r.accepted ∧ ⟨⟨20, 0, false⟩, 0⟩ ∈ r.sideClosed)) (by decide)
  have hp' := of_decide_eq_true hp
  exact ⟨r, leaseOfFirstStore_start, hr, first, hp'.1, rfl, _, hp'.2, by decide, by decide⟩

end MeshDB.Kvserver
