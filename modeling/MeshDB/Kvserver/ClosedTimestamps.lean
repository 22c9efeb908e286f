import MeshDB.Kvserver.Application

/-!
# Closed timestamps and writes

Under one lease, a tracked request writes above the closed timestamp assigned last until its
proposal gets an index. The side transport closes nothing while a command may still be applied
below the timestamp it publishes.
-/
namespace MeshDB.Kvserver

open List Hlc Roachpb Transition

def TrackedRequestToken.Holds (t : TrackedRequestToken) (k : ℕ) : Prop :=
  t.done = false ∧ t.tok = some k

namespace Replica

variable {reqs : ℕ → Request} {r r' : Replica} {id : ℕ}

@[simp] lemma modify_props_self (r : Replica) (id : ℕ) (f : ProposalData → ProposalData) :
    (r.modify id f).props id = f (r.props id) := by
  simp [modify]

lemma modify_props_of_ne (r : Replica) {id i : ℕ} (f : ProposalData → ProposalData)
    (h : i ≠ id) : (r.modify id f).props i = r.props i := by
  simp [modify, h]

lemma modify_props_eq {β : Type} (g : ProposalData → β) {f : ProposalData → ProposalData}
    (hf : ∀ p, g (f p) = g p) (r : Replica) (id i : ℕ) :
    g ((r.modify id f).props i) = g (r.props i) := by
  rcases eq_or_ne i id with rfl | hne
  · rw [modify_props_self, hf]
  · rw [modify_props_of_ne r f hne]

/-! ## The invariant -/

def Current (reqs : ℕ → Request) (st : ReplicaState) (id : ℕ) : Prop :=
  (reqs id).appliesTimestampCache ∧ (reqs id).command.proposerLeaseSequence = st.lease.sequence

/-- Nothing but its index stands in the way of the command. -/
structure Live (reqs : ℕ → Request) (st : ReplicaState) (id : ℕ) : Prop where
  current : Current reqs st id
  not_probe : (reqs id).command.replicatedEvalResult.isProbe = false
  aboveGC : (reqs id).command.AboveGC st.gcThreshold

/-- The proposal came into the buffer with a token, if it has to be tracked. -/
def Entered (reqs : ℕ → Request) (r : Replica) (id : ℕ) : Prop :=
  (r.props id).created ∧ ((reqs id).appliesTimestampCache →
    (r.props id).tok.done ∨ (r.props id).tok.tok ≠ none)

structure Tokens (reqs : ℕ → Request) (r : Replica) : Prop where
  evaluating_lt : ∀ x ∈ r.evaluating, x.1 < r.nextTok
  tok_lt : ∀ id k, (r.props id).tok.Holds k → k < r.nextTok
  not_holds : ∀ x ∈ r.evaluating, ∀ id, ¬(r.props id).tok.Holds x.1
  holds_inj : ∀ id id' k, (r.props id).tok.Holds k → (r.props id').tok.Holds k → id = id'
  evaluating_tracked : ∀ x ∈ r.evaluating, x ∈ r.tracked ∧ r.assignedClosedTimestamp.ord < x.2.ord
  holds_tracked : ∀ id k, Current reqs r.replicaState id → (r.props id).tok.Holds k →
    ∃ ts, (k, ts) ∈ r.tracked ∧ r.assignedClosedTimestamp.ord < ts.ord ∧
      ts.ord ≤ (reqs id).writeTimestamp.ord

/-- The entry carries what its proposal was assigned, or has no effect. -/
def Genuine (reqs : ℕ → Request) (r : Replica) (e : Entry) : Prop :=
  (reqs e.idKey).command.proposerLeaseSequence ≠ r.replicaState.lease.sequence ∨ e.footer = none ∨
    ((reqs e.idKey).isSingleRequestLeaseRequest ∧ e.closedTimestamp.isEmpty) ∨
    ⟨e.idKey, e.maxLeaseIndex, e.closedTimestamp⟩ ∈ r.assigned

/-- The newer assignment has the higher index and closed timestamp, and writes above the older one.
-/
def Follows (reqs : ℕ → Request) (r : Replica) (y x : Assignment) : Prop :=
  x.index < y.index ∧ x.closedTimestamp.ord ≤ y.closedTimestamp.ord ∧
    (Current reqs r.replicaState y.idKey →
      x.closedTimestamp.ord < (reqs y.idKey).writeTimestamp.ord)

def Pending (r : Replica) (a : Assignment) : Prop :=
  a.idKey ∈ r.proposals ∨
    ∃ cmd ∈ r.queue, cmd.entry.idKey = a.idKey ∧ a.index ≤ cmd.entry.maxLeaseIndex

structure Indexes (reqs : ℕ → Request) (r : Replica) : Prop where
  owned : r.replicaState.lease.replica.storeID = r.storeID
  applying : r.queue ≠ [] → r.applyingEntries
  entered : ∀ id, id ∈ r.arr.elems ∨ id ∈ r.proposals → Entered reqs r id
  raftClosed_le : r.raftClosedTimestamp.ord ≤ r.assignedClosedTimestamp.ord
  sorted : r.assigned.Pairwise (Follows reqs r)
  assigned_le : ∀ a ∈ r.assigned, a.index ≤ r.assignedLAI ∧
    a.closedTimestamp.ord ≤ r.assignedClosedTimestamp.ord ∧ (r.props a.idKey).created
  footers : ∀ id, Genuine reqs r (r.encode id)
  sent : ∀ e ∈ r.sent, Genuine reqs r e
  queue : ∀ cmd ∈ r.queue, Genuine reqs r cmd.entry
  index_le : ∀ a ∈ r.assigned, Live reqs r.replicaState a.idKey →
    a.index ≤ (r.props a.idKey).maxLeaseIndex ∨ a.index ≤ r.replicaState.leaseAppliedIndex
  pending : ∀ a ∈ r.assigned, Live reqs r.replicaState a.idKey →
    r.replicaState.leaseAppliedIndex < a.index → r.Pending a
  queue_created : ∀ cmd ∈ r.queue, cmd.isLocal → (r.props cmd.entry.idKey).created
  staged_created : ∀ cmd ∈ r.staged, cmd.isLocal → (r.props cmd.entry.idKey).created
  staged_le : ∀ cmd ∈ r.staged, cmd.forcedErrResult.rejection = .illegalLeaseIndex →
    cmd.entry.maxLeaseIndex ≤ r.replicaState.leaseAppliedIndex
  staged_rejected : ∀ cmd ∈ r.staged, cmd.isLocal →
    cmd.forcedErrResult.forcedError ≠ none → cmd.forcedErrResult.rejection = .permanent →
      ¬Live reqs r.replicaState cmd.entry.idKey
  sideClosed_le : ∀ c ∈ r.sideClosed, c.timestamp.ord ≤ r.assignedClosedTimestamp.ord
  sideClosed_lt : ∀ c ∈ r.sideClosed, ∀ a ∈ r.assigned, Live reqs r.replicaState a.idKey →
    c.lai < a.index → c.timestamp.ord < (reqs a.idKey).writeTimestamp.ord
  accepted : ∀ e ∈ r.accepted, (reqs e.idKey).appliesTimestampCache →
    Current reqs r.replicaState e.idKey ∧ e.maxLeaseIndex ≤ r.replicaState.leaseAppliedIndex ∧
      (⟨e.idKey, e.maxLeaseIndex, e.closedTimestamp⟩ : Assignment) ∈ r.assigned ∧
      ∀ c ∈ r.sideClosed, c.lai < e.maxLeaseIndex →
        c.timestamp.ord < (reqs e.idKey).writeTimestamp.ord

structure ClosedInv (reqs : ℕ → Request) (r : Replica) : Prop where
  tokens : Tokens reqs r
  indexes : Indexes reqs r

structure Keeps (reqs : ℕ → Request) (r r' : Replica) : Prop where
  replicaState : r'.replicaState = r.replicaState
  evaluating : ∀ x ∈ r.evaluating, x ∈ r'.evaluating
  created : ∀ id, (r'.props id).created = (r.props id).created
  assigned : ∀ a ∈ r.assigned, a ∈ r'.assigned
  entered : ∀ id, Entered reqs r id → Entered reqs r' id

lemma Keeps.refl (r : Replica) : Keeps reqs r r where
  replicaState := rfl
  evaluating := fun _ => id
  created := fun _ => rfl
  assigned := fun _ => id
  entered := fun _ => id

lemma Keeps.trans {r1 r2 r3 : Replica} (h : Keeps reqs r1 r2) (h' : Keeps reqs r2 r3) :
    Keeps reqs r1 r3 where
  replicaState := h'.replicaState.trans h.replicaState
  evaluating := fun x hx => h'.evaluating x (h.evaluating x hx)
  created := fun id => (h'.created id).trans (h.created id)
  assigned := fun a ha => h'.assigned a (h.assigned a ha)
  entered := fun id hid => h'.entered id (h.entered id hid)

lemma Genuine.keeps {e : Entry} (h : Genuine reqs r e) (hk : Keeps reqs r r') :
    Genuine reqs r' e := by
  unfold Genuine at h ⊢
  rw [hk.replicaState]
  exact h.imp_right fun h => h.imp_right fun h => h.imp_right (hk.assigned _)

/-! ## Tokens -/

section
variable (h : Tokens reqs r)
include h

lemma Tokens.close {closed : Timestamp}
    (hlt : ∀ x ∈ r.tracked, r.assignedClosedTimestamp.ord < x.2.ord → closed.ord < x.2.ord)
    (heq : r'.assignedClosedTimestamp = closed) (hev : r'.evaluating = r.evaluating)
    (hnext : r'.nextTok = r.nextTok) (htr : r'.tracked = r.tracked)
    (hholds : ∀ i k, (r'.props i).tok.Holds k → (r.props i).tok.Holds k)
    (hst : r'.replicaState = r.replicaState) : Tokens reqs r' where
  evaluating_lt := by rw [hev, hnext]; exact h.evaluating_lt
  tok_lt := fun i k hk => hnext ▸ h.tok_lt i k (hholds i k hk)
  not_holds := fun x hx i hk => h.not_holds x (hev ▸ hx) i (hholds i _ hk)
  holds_inj := fun i j k hi hj => h.holds_inj i j k (hholds i k hi) (hholds j k hj)
  evaluating_tracked := by
    intro x hx
    rw [hev] at hx
    obtain ⟨hmem, hx⟩ := h.evaluating_tracked x hx
    rw [htr, heq]
    exact ⟨hmem, hlt x hmem hx⟩
  holds_tracked := by
    intro id k hcur hk
    rw [hst] at hcur
    obtain ⟨ts, hmem, hts, hle⟩ := h.holds_tracked id k hcur (hholds id k hk)
    rw [htr, heq]
    exact ⟨ts, hmem, hlt _ hmem hts, hle⟩

lemma Tokens.congr (hev : r'.evaluating = r.evaluating)
    (hnext : r'.nextTok = r.nextTok) (htr : r'.tracked = r.tracked)
    (htok : ∀ i, (r'.props i).tok = (r.props i).tok)
    (hclosed : r'.assignedClosedTimestamp.ord = r.assignedClosedTimestamp.ord)
    (hst : r'.replicaState = r.replicaState) : Tokens reqs r' :=
  h.close (fun _ _ hlt => hclosed.trans_lt hlt) rfl hev hnext htr (fun i _ hk => htok i ▸ hk) hst

lemma Tokens.untrack {tok : Option ℕ}
    (hfree : ∀ id k, (r.props id).tok.Holds k → some k ≠ tok) : Tokens reqs (r.untrack tok) where
  evaluating_lt := fun x hx => h.evaluating_lt x (mem_filter.mp hx).1
  tok_lt := h.tok_lt
  not_holds := fun x hx => h.not_holds x (mem_filter.mp hx).1
  holds_inj := h.holds_inj
  evaluating_tracked := by
    intro x hx
    obtain ⟨hx, hne⟩ := mem_filter.mp hx
    exact ⟨mem_filter.mpr ⟨(h.evaluating_tracked x hx).1, hne⟩, (h.evaluating_tracked x hx).2⟩
  holds_tracked := by
    intro id k hcur hk
    obtain ⟨ts, hts, hlt⟩ := h.holds_tracked id k hcur hk
    exact ⟨ts, mem_filter.mpr ⟨hts, by simpa using hfree id k hk⟩, hlt⟩

lemma Tokens.done (id : ℕ) :
    Tokens reqs (r.modify id fun p => { p with tok := { p.tok with done := true } }) := by
  refine h.close (fun _ _ hlt => hlt) rfl rfl rfl rfl (fun i k hk => ?_) rfl
  rcases eq_or_ne i id with rfl | hne
  · rw [modify_props_self] at hk
    cases hk.1
  rw [modify_props_of_ne r _ hne] at hk
  exact hk

lemma Tokens.move {id k : ℕ} {ts : Timestamp} (hk : (k, ts) ∈ r.evaluating)
    (hts : Current reqs r.replicaState id → ts.ord ≤ (reqs id).writeTimestamp.ord) :
    Tokens reqs ((r.moveToken (some k)).modify id fun p => { p with tok := ⟨false, some k⟩ }) := by
  have hholds : ∀ i j, (((r.moveToken (some k)).modify id fun p =>
      { p with tok := ⟨false, some k⟩ }).props i).tok.Holds j →
      i = id ∧ j = k ∨ i ≠ id ∧ (r.props i).tok.Holds j := by
    intro i j hj
    rcases eq_or_ne i id with rfl | hne
    · rw [modify_props_self] at hj
      exact .inl ⟨rfl, (Option.some.inj hj.2).symm⟩
    rw [modify_props_of_ne _ _ hne] at hj
    exact .inr ⟨hne, hj⟩
  have hmem : ∀ x ∈ (r.moveToken (some k)).evaluating, x ∈ r.evaluating ∧ x.1 ≠ k := by
    intro x hx
    obtain ⟨hx, hne⟩ := mem_filter.mp hx
    exact ⟨hx, by simpa using hne⟩
  constructor
  · exact fun x hx => h.evaluating_lt x (hmem x hx).1
  · intro i j hj
    rcases hholds i j hj with ⟨rfl, rfl⟩ | ⟨-, hj⟩
    · exact h.evaluating_lt _ hk
    · exact h.tok_lt i j hj
  · intro x hx i hj
    rcases hholds i x.1 hj with ⟨-, hxk⟩ | ⟨-, hj⟩
    · exact (hmem x hx).2 hxk
    · exact h.not_holds x (hmem x hx).1 i hj
  · intro i i' j hi hi'
    rcases hholds i j hi with ⟨rfl, rfl⟩ | ⟨-, hold⟩ <;>
      rcases hholds i' j hi' with ⟨rfl, hj⟩ | ⟨-, hold'⟩
    · rfl
    · exact absurd hold' (h.not_holds _ hk i')
    · subst hj
      exact absurd hold (h.not_holds _ hk i)
    · exact h.holds_inj i i' j hold hold'
  · exact fun x hx => h.evaluating_tracked x (hmem x hx).1
  · intro i j hcur hj
    rcases hholds i j hj with ⟨rfl, rfl⟩ | ⟨-, hj⟩
    · exact ⟨ts, (h.evaluating_tracked _ hk).1, (h.evaluating_tracked _ hk).2, hts hcur⟩
    · exact h.holds_tracked i j hcur hj

lemma Tokens.track {wts minTS : Timestamp} {k : ℕ}
    (htrack : r.trackEvaluatingRequest wts = some (r', minTS, k)) :
    Tokens reqs r' ∧ (k, wts.forward minTS) ∈ r'.evaluating := by
  obtain ⟨m, hm, heq⟩ := Option.map_eq_some_iff.mp htrack
  cases heq
  have hlt : r.assignedClosedTimestamp.ord < (wts.forward minTS).ord := by
    rw [Timestamp.ord_forward]
    exact lt_max_of_lt_right (Timestamp.ord_lt_next hm)
  refine ⟨⟨?_, ?_, ?_, h.holds_inj, ?_, ?_⟩, .head _⟩
  · intro x hx
    rcases mem_cons.mp hx with rfl | hx
    · exact Nat.lt_succ_self _
    · exact (h.evaluating_lt x hx).trans (Nat.lt_succ_self _)
  · exact fun id k hk => (h.tok_lt id k hk).trans (Nat.lt_succ_self _)
  · intro x hx id hk
    rcases mem_cons.mp hx with rfl | hx
    · exact absurd (h.tok_lt id _ hk) (lt_irrefl _)
    · exact h.not_holds x hx id hk
  · intro x hx
    rcases mem_cons.mp hx with rfl | hx
    · exact ⟨.head _, hlt⟩
    · exact ⟨mem_cons_of_mem _ (h.evaluating_tracked x hx).1, (h.evaluating_tracked x hx).2⟩
  · intro id k hcur hk
    obtain ⟨ts, hts, hle⟩ := h.holds_tracked id k hcur hk
    exact ⟨ts, mem_cons_of_mem _ hts, hle⟩

lemma Tokens.doneIfNotMoved (id : ℕ) : Tokens reqs (r.doneIfNotMoved id) := by
  unfold Replica.doneIfNotMoved
  split_ifs with hdone
  · exact h
  apply (h.done id).untrack
  intro i k hk heq
  rcases eq_or_ne i id with rfl | hne
  · rw [modify_props_self] at hk
    cases hk.1
  rw [modify_props_of_ne r _ hne] at hk
  exact hne (h.holds_inj i id k hk ⟨by simpa using hdone, heq.symm⟩)

end
end Replica
end MeshDB.Kvserver
