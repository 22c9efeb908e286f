import MeshDB.Kvserver.FlushedIndexes

/-!
# Closed timestamps along whole runs

Every action of the replica keeps the invariant of closed timestamps while it holds one
lease, except that a proposal may be turned away on its way back into the buffer.
-/
namespace MeshDB.Kvserver

open List Option Hlc Roachpb Transition Timestamp
namespace Replica

variable {reqs : ℕ → Request} {r r' : Replica} {id : ℕ} {env : FlushEnv}

/-! ## Proposing -/

lemma ClosedInv.resetCommand (h : ClosedInv reqs r) {f : ProposalData → ProposalData}
    (htok : ∀ p, (f p).tok = p.tok) (hc : ∀ p, (f p).created = p.created)
    (hf : ∀ p, (f p).footer = p.footer ∨ (f p).footer = none)
    (hidx : ∀ a ∈ r.assigned, a.idKey = id → Live reqs r.replicaState id →
      a.index ≤ r.replicaState.leaseAppliedIndex) : ClosedInv reqs (r.modify id f) := by
  refine ⟨h.tokens.congr rfl rfl rfl (modify_props_eq _ htok r id) rfl rfl,
    h.indexes.modify_of_footers (fun p => (hc p).trans) (fun _ p ht => (htok p).symm ▸ ht)
      (fun i => ?_) fun a ha hlive => ?_⟩
  · have hgen := h.indexes.footers i
    unfold encode at hgen ⊢
    rcases eq_or_ne i id with rfl | hne
    · rw [modify_props_self]
      rcases hf (r.props i) with heq | heq
      · rw [heq]
        exact hgen
      · exact .inr (.inl heq)
    · rw [modify_props_of_ne r f hne]
      exact hgen
  · rcases eq_or_ne a.idKey id with heq | hne
    · exact .inr (hidx a ha heq (heq ▸ hlive))
    rw [modify_props_of_ne r f hne]
    exact h.indexes.index_le a ha hlive

variable {tok : Option ℕ}

lemma ClosedInv.untrack (h : ClosedInv reqs r)
    (htok : ∀ k, tok = some k → ∃ ts, (k, ts) ∈ r.evaluating) : ClosedInv reqs (r.untrack tok) := by
  refine ⟨h.tokens.untrack fun i k hk heq => ?_, h.indexes.withTracker _ _ _⟩
  obtain ⟨ts, hts⟩ := htok k heq.symm
  exact h.tokens.not_holds _ hts i hk

def GoodToken (reqs : ℕ → Request) (r : Replica) (id : ℕ) : Option ℕ → Prop
  | none => (reqs id).appliesTimestampCache = false
  | some k => ∃ ts, (k, ts) ∈ r.evaluating ∧
      (Current reqs r.replicaState id → ts.ord ≤ (reqs id).writeTimestamp.ord)

lemma Tokens.giveZero (h : Tokens reqs r) (id : ℕ) :
    Tokens reqs ((r.moveToken none).modify id fun p => { p with tok := ⟨false, none⟩ }) := by
  have hev : (r.moveToken none).evaluating = r.evaluating := by simp [moveToken]
  refine h.close (fun _ _ hlt => hlt) rfl hev rfl rfl (fun i k hk => ?_) rfl
  rcases eq_or_ne i id with rfl | hne
  · rw [modify_props_self] at hk
    cases hk.2
  rw [modify_props_of_ne _ _ hne] at hk
  exact hk

lemma ClosedInv.giveToken (h : ClosedInv reqs r) (htok : GoodToken reqs r id tok) :
    ClosedInv reqs ((r.moveToken tok).modify id fun p => { p with tok := ⟨false, tok⟩ }) := by
  refine ⟨?_, (h.indexes.withTracker _ _ _).modify (fun _ hc => hc) ?_ (fun _ => rfl) fun _ => rfl⟩
  · cases tok with
    | none => exact h.tokens.giveZero id
    | some k =>
      obtain ⟨ts, hts, hle⟩ := htok
      exact h.tokens.move hts hle
  intro happ p _
  cases tok with
  | none =>
    rw [GoodToken] at htok
    rw [happ] at htok
    cases htok
  | some k => exact .inr (by simp)

lemma GoodToken.keeps (h : GoodToken reqs r id tok) (hk : Keeps reqs r r') :
    GoodToken reqs r' id tok := by
  cases tok with
  | none => exact h
  | some k =>
    obtain ⟨ts, hts, hle⟩ := h
    exact ⟨ts, hk.evaluating _ hts, fun hcur => hle (hk.replicaState ▸ hcur)⟩

lemma GoodToken.evaluating (h : GoodToken reqs r id tok) :
    ∀ k, tok = some k → ∃ ts, (k, ts) ∈ r.evaluating := by
  rintro k rfl
  obtain ⟨ts, hts, -⟩ := h
  exact ⟨ts, hts⟩

variable {inserted : Bool}

/-- The state after the flush, in which the proposal is inserted or which its token leaves. -/
lemma ClosedInv.propose (h : ClosedInv reqs r)
    (hidx : ∀ a ∈ r.assigned, a.idKey = id → Live reqs r.replicaState id →
      a.index ≤ r.replicaState.leaseAppliedIndex) (htok : GoodToken reqs r id tok)
    (hprop : r.propose reqs env id tok = some (r', inserted)) :
    ∃ r2, ClosedInv reqs r2 ∧ Keeps reqs r r2 ∧ GoodToken reqs r2 id tok ∧
      ((inserted ∧ r' = ((r2.moveToken tok).modify id fun p =>
          { p with tok := ⟨false, tok⟩ }).insertIntoArray id) ∨
        (inserted = false ∧ r' = (r2.modify id fun p =>
          { p with maxLeaseIndex := (r.props id).maxLeaseIndex }).untrack tok)) := by
  obtain ⟨r2, halloc, hcase⟩ := propose_cases hprop
  have hreset :
      ClosedInv reqs (r.modify id fun p => { p with maxLeaseIndex := 0, footer := none }) :=
    h.resetCommand (fun _ => rfl) (fun _ => rfl) (fun _ => .inr rfl) hidx
  have hk1 : Keeps reqs r (r.modify id fun p => { p with maxLeaseIndex := 0, footer := none }) :=
    Keeps.modify (fun _ => rfl) fun _ _ ht => ht
  obtain ⟨hinv, hk2⟩ := hreset.allocateIndex halloc
  have hk := hk1.trans hk2
  exact ⟨r2, hinv, hk, htok.keeps hk, hcase⟩

lemma entered_of_created (htok : GoodToken reqs r id tok)
    (hprops : (r'.props id).tok = ⟨false, tok⟩) (hc : (r'.props id).created) :
    Entered reqs r' id := by
  refine ⟨hc, fun happ => .inr ?_⟩
  rw [hprops]
  rintro rfl
  rw [GoodToken, happ] at htok
  cases htok

lemma ClosedInv.proposeNew (h : ClosedInv reqs r)
    (hnew : (r.props id).created = false) (htok : GoodToken reqs r id tok)
    (hprop : r.propose reqs env id tok = some (r', inserted)) :
    ClosedInv reqs (r'.modify id fun p => { p with created := true }) := by
  have hnone : ∀ {s : Replica}, ClosedInv reqs s → (s.props id).created = false →
      ∀ a ∈ s.assigned, a.idKey = id → Live reqs s.replicaState id →
        a.index ≤ s.replicaState.leaseAppliedIndex := by
    intro s hs hc a ha heq _
    have := (hs.indexes.assigned_le a ha).2.2
    rw [heq, hc] at this
    cases this
  obtain ⟨r2, hinv, hk, htok2, hcase⟩ := h.propose (hnone h hnew) htok hprop
  have hc2 : (r2.props id).created = false := (hk.created id).trans hnew
  have hflag : ∀ {s : Replica}, ClosedInv reqs s →
      ClosedInv reqs (s.modify id fun p => { p with created := true }) := fun hs =>
    hs.modify (fun _ _ => rfl) (fun _ => rfl) (fun _ => rfl) fun _ => rfl
  rcases hcase with ⟨-, rfl⟩ | ⟨-, rfl⟩
  · have hgiven := hflag (hinv.giveToken htok2)
    exact hgiven.insertIntoArray (entered_of_created htok2 (by simp) (by simp))
  have hreset : ClosedInv reqs (r2.modify id fun p =>
      { p with maxLeaseIndex := (r.props id).maxLeaseIndex }) :=
    hinv.resetCommand (fun _ => rfl) (fun _ => rfl) (fun _ => .inl rfl) (hnone hinv hc2)
  exact hflag (hreset.untrack htok2.evaluating)

lemma ClosedInv.reinsert (h : ClosedInv reqs r) (hid : Entered reqs r id)
    (hre : r.reinsert reqs env id = some r')
    (hroom : r.arr.elems.length < r.arr.len ∨ env.Undisturbed) :
    ClosedInv reqs r' ∧ Keeps reqs r r' := by
  obtain ⟨r2, room, halloc, ⟨-, rfl⟩ | ⟨hfull, -⟩⟩ := reinsert_cases hre
  · obtain ⟨hinv, hk⟩ := h.allocateIndex halloc
    exact ⟨hinv.insertIntoArray (hk.entered id hid), hk.trans { Keeps.refl r2 with }⟩
  · exact absurd ((room_of hroom halloc).symm.trans hfull) (by decide)

/-! ## Application -/

variable {invalid : Bool}

lemma ClosedInv.tryRepropose (h : ClosedInv reqs r) {e : Entry}
    {res : Option ProposalResult} (hc : (r.props e.idKey).created)
    (hle : e.maxLeaseIndex ≤ r.replicaState.leaseAppliedIndex)
    (htry : r.tryReproposeWithNewLeaseIndex reqs env invalid e = some (r', res))
    (hroom : r.arr.elems.length < r.arr.len ∨ env.Undisturbed) :
    ClosedInv reqs r' ∧ (res ≠ none → e.maxLeaseIndex = (r'.props e.idKey).maxLeaseIndex) := by
  rcases tryRepropose_cases htry with ⟨rfl, rfl, -⟩ | ⟨-, hmli, r1, minTS, k, htrack, hcase⟩
  · exact ⟨h, fun hne => absurd rfl hne⟩
  obtain ⟨htok1, hmem⟩ := h.tokens.track htrack
  have heq1 := trackEvaluatingRequest_eq htrack
  have h1 : ClosedInv reqs r1 := ⟨htok1, heq1 ▸ h.indexes.withTracker _ _ _⟩
  have hprops : r1.props = r.props := by rw [heq1]
  rcases hcase with ⟨rfl, -⟩ | ⟨hclosed, r2, inserted, hprop, rfl, hout⟩
  · refine ⟨h1.untrack fun j hj => ⟨_, Option.some.inj hj ▸ hmem⟩, fun _ => ?_⟩
    rw [hmli]
    exact congrArg (fun p => (p e.idKey).maxLeaseIndex) hprops.symm
  · have hidx : ∀ a ∈ r1.assigned, a.idKey = e.idKey → Live reqs r1.replicaState e.idKey →
        a.index ≤ r1.replicaState.leaseAppliedIndex := by
      intro a ha heq hlive
      have hst : r1.replicaState = r.replicaState := by rw [heq1]
      rcases h1.indexes.index_le a ha (heq ▸ hlive) with hi | hi
      · rw [heq, hprops, ← hmli] at hi
        rw [hst]
        exact hi.trans hle
      · exact hi
    have hgood : GoodToken reqs r1 e.idKey (some k) := by
      refine ⟨_, hmem, fun hcur => ?_⟩
      have hlt : minTS.ord < (reqs e.idKey).writeTimestamp.ord := by
        rw [hcur.1, Bool.true_and] at hclosed
        exact not_lessEq_iff.mp hclosed
      rw [ord_forward, max_eq_left hlt.le]
    obtain ⟨r3, halloc, -⟩ := propose_cases hprop
    have harr : r1.arr = r.arr := by rw [heq1]
    have hin : inserted = true := by
      refine room_of (hroom.imp_left fun hlt => ?_) halloc
      change r1.arr.elems.length < r1.arr.len
      rwa [harr]
    obtain ⟨r3, hinv, hk, hgood3, ⟨-, rfl⟩ | ⟨hfalse, -⟩⟩ := h1.propose hidx hgood hprop
    · refine ⟨(hinv.giveToken hgood3).insertIntoArray
        (entered_of_created hgood3 (by simp) ?_), fun hne => absurd (hout hin) hne⟩
      rw [modify_props_self]
      exact (hk.created _).trans ((congrArg (fun p => (p e.idKey).created) hprops).trans hc)
    · exact absurd (hin.symm.trans hfalse) (by decide)

/-! ## Staging -/

def SameLease (r r' : Replica) : Prop :=
  r'.replicaState.lease.sequence = r.replicaState.lease.sequence ∧
    r'.replicaState.lease.replica.storeID = r.storeID

instance (r r' : Replica) : Decidable (SameLease r r') := inferInstanceAs (Decidable (_ ∧ _))

variable {e : Entry} {isLocal : Bool}

/-- Nothing but its index stands in the way of the command, as far as the replica state
tells. -/
structure Viable (reqs : ℕ → Request) (st : ReplicaState) (id : ℕ) : Prop where
  sequence_eq : (reqs id).command.proposerLeaseSequence = st.lease.sequence
  not_probe : (reqs id).command.replicatedEvalResult.isProbe = false
  aboveGC : (reqs id).command.AboveGC st.gcThreshold

variable {st : ReplicaState} {id : ℕ}

lemma Live.viable (h : Live reqs st id) : Viable reqs st id :=
  ⟨h.current.2, h.not_probe, h.aboveGC⟩

lemma leaseMismatch_of_sequence
    (hseq : (reqs e.idKey).command.proposerLeaseSequence = r.replicaState.lease.sequence)
    (hreq : (reqs e.idKey).isSingleRequestLeaseRequest = false) :
    leaseMismatch (e.command reqs) r.replicaState = false := by
  unfold Request.isSingleRequestLeaseRequest at hreq
  simp [leaseMismatch, Entry.command, (reqs e.idKey).deprecated_eq_none, hreq, hseq]

lemma checkEntry_of_viable (hv : Viable reqs r.replicaState e.idKey)
    (hreq : (reqs e.idKey).isSingleRequestLeaseRequest = false) :
    r.checkEntry reqs e isLocal =
      if r.replicaState.leaseAppliedIndex < e.maxLeaseIndex then
        { leaseIndex := e.maxLeaseIndex }
      else
        { leaseIndex := r.replicaState.leaseAppliedIndex
          rejection := if isLocal then .illegalLeaseIndex else .permanent
          forcedError := some
            (.observedAtLeaseIndex r.replicaState.leaseAppliedIndex e.maxLeaseIndex) } := by
  have hgc : checkGC (e.command reqs) r.replicaState e.maxLeaseIndex =
      { leaseIndex := e.maxLeaseIndex } := by
    unfold checkGC
    rw [if_neg]
    have habove : (e.command reqs).AboveGC r.replicaState.gcThreshold := hv.aboveGC
    intro hneg
    rw [Bool.and_eq_true, lessEq_iff] at hneg
    rcases habove with hempty | hlt
    · rw [hempty] at hneg
      exact absurd hneg.1 (by simp)
    · exact absurd hneg.2 (not_le.mpr hlt)
  have hprobe : (e.command reqs).replicatedEvalResult.isProbe = false := hv.not_probe
  have hreq' : (e.command reqs).replicatedEvalResult.isLeaseRequest = false := hreq
  unfold checkEntry
  rw [checkForcedErr_of_unobstructed hprobe rfl (leaseMismatch_of_sequence hv.sequence_eq hreq)
    hreq', show (e.command reqs).maxLeaseIndex = e.maxLeaseIndex from rfl, hgc]

lemma applyToState_leaseAppliedIndex (q : Request) (fr : ForcedErrResult) (st : ReplicaState) :
    (applyToState q fr st).leaseAppliedIndex =
      if fr.leaseIndex = 0 then st.leaseAppliedIndex else fr.leaseIndex := by
  unfold applyToState
  split_ifs <;> rfl

lemma gcThreshold_le_applyToState (q : Request) (fr : ForcedErrResult) (st : ReplicaState) :
    st.gcThreshold.ord ≤ (applyToState q fr st).gcThreshold.ord := by
  unfold applyToState
  by_cases herr : fr.forcedError.isSome
  · rw [if_pos herr]
  rw [if_neg herr]
  cases q.gcThreshold with
  | none => exact le_rfl
  | some gc =>
    simp only [map_some, getD_some, ord_forward]
    exact le_max_left _ _

lemma le_applyToState (reqs : ℕ → Request) (r : Replica) (e : Entry) (isLocal : Bool) :
    r.replicaState.leaseAppliedIndex ≤
      (applyToState (reqs e.idKey) (r.checkEntry reqs e isLocal)
        r.replicaState).leaseAppliedIndex := by
  have hidx := @checkForcedErr_leaseIndex (some e.idKey) (e.command reqs) isLocal r.replicaState
  change (r.checkEntry reqs e isLocal).leaseIndex = 0 ∨
    (r.checkEntry reqs e isLocal).leaseIndex = _ ∨
      _ ∧ (r.checkEntry reqs e isLocal).leaseIndex = _ at hidx
  rw [applyToState_leaseAppliedIndex]
  split_ifs <;> omega

lemma maxLeaseIndex_le_of_live (hlive : Live reqs r.replicaState e.idKey) :
    e.maxLeaseIndex ≤ (applyToState (reqs e.idKey) (r.checkEntry reqs e isLocal)
      r.replicaState).leaseAppliedIndex := by
  have hle := le_applyToState reqs r e isLocal
  rw [checkEntry_of_viable hlive.viable ((reqs e.idKey).not_lease hlive.current.1).1] at hle ⊢
  by_cases hidx : r.replicaState.leaseAppliedIndex < e.maxLeaseIndex
  · rw [if_pos hidx]
    have hne : e.maxLeaseIndex ≠ 0 := by omega
    rw [applyToState_leaseAppliedIndex, if_neg hne]
  rw [if_neg hidx] at hle ⊢
  omega

lemma Live.of_applyToState {q : Request} {fr : ForcedErrResult}
    (hlive : Live reqs (applyToState q fr st) id)
    (hseq : (applyToState q fr st).lease.sequence = st.lease.sequence) : Live reqs st id := by
  exact ⟨⟨hlive.current.1, hlive.current.2.trans hseq⟩, hlive.not_probe,
    hlive.aboveGC.imp_right fun hlt => (gcThreshold_le_applyToState q fr st).trans_lt hlt⟩

lemma accepted_of_checkEntry (hacc : (r.checkEntry reqs e isLocal).forcedError = none) :
    Kvserver.accepted (some e.idKey) (e.command reqs) isLocal r.replicaState := by
  unfold Kvserver.accepted
  rw [isNone_iff_eq_none]
  exact hacc

lemma sequence_of_checkEntry (hacc : (r.checkEntry reqs e isLocal).forcedError = none) :
    (reqs e.idKey).command.proposerLeaseSequence = r.replicaState.lease.sequence := by
  have hdep : (e.command reqs).deprecatedProposerLease = none := (reqs e.idKey).deprecated_eq_none
  have hseq := sequence_of_accepted (accepted_of_checkEntry hacc) hdep
  exact hseq

lemma lt_maxLeaseIndex_of_checkEntry (hreq : (reqs e.idKey).isSingleRequestLeaseRequest = false)
    (hacc : (r.checkEntry reqs e isLocal).forcedError = none) :
    r.replicaState.leaseAppliedIndex < e.maxLeaseIndex := by
  have hreq' : (e.command reqs).replicatedEvalResult.isLeaseRequest = false := hreq
  exact leaseIndex_of_accepted (accepted_of_checkEntry hacc) hreq'

lemma viable_of_accepted (hacc : (r.checkEntry reqs e isLocal).forcedError = none) :
    Viable reqs r.replicaState e.idKey := by
  have hgc : (e.command reqs).AboveGC r.replicaState.gcThreshold :=
    aboveGC_of_accepted (accepted_of_checkEntry hacc)
  have hprobe : (e.command reqs).replicatedEvalResult.isProbe = false :=
    isProbe_of_accepted (accepted_of_checkEntry hacc)
  exact ⟨sequence_of_checkEntry hacc, hprobe, hgc⟩

lemma ClosedInv.stageEntry (h : ClosedInv reqs r) {e : Entry} {isLocal : Bool}
    (hgen : Genuine reqs r e)
    (hlease : SameLease r (r.stageEntry reqs e (r.checkEntry reqs e isLocal))) :
    ClosedInv reqs (r.stageEntry reqs e (r.checkEntry reqs e isLocal)) := by
  have hseq : (applyToState (reqs e.idKey) (r.checkEntry reqs e isLocal)
      r.replicaState).lease.sequence = r.replicaState.lease.sequence := hlease.1
  have hle := le_applyToState reqs r e isLocal
  have hcur : ∀ i, Current reqs (applyToState (reqs e.idKey) (r.checkEntry reqs e isLocal)
      r.replicaState) i ↔ Current reqs r.replicaState i := by
    intro i
    rw [Current, Current, hseq]
  have hgenuine : ∀ e', Genuine reqs r e' →
      Genuine reqs (r.stageEntry reqs e (r.checkEntry reqs e isLocal)) e' := by
    intro e' hg
    unfold Genuine at hg ⊢
    rwa [hlease.1]
  have hassigned : (r.checkEntry reqs e isLocal).forcedError = none →
      (reqs e.idKey).isSingleRequestLeaseRequest = false →
      (⟨e.idKey, e.maxLeaseIndex, e.closedTimestamp⟩ : Assignment) ∈ r.assigned := by
    intro hacc hreq
    rcases hgen with hstale | hnone | ⟨hlr, -⟩ | hmem
    · exact absurd (sequence_of_checkEntry hacc) hstale
    · have hlt := lt_maxLeaseIndex_of_checkEntry hreq hacc
      simp [Entry.maxLeaseIndex, hnone] at hlt
    · simp [hreq] at hlr
    · exact hmem
  constructor
  · exact
      { h.tokens with
        holds_tracked := fun i k hc hk => h.tokens.holds_tracked i k ((hcur i).mp hc) hk }
  refine
    { h.indexes with
      owned := hlease.2
      raftClosed_le := ?_
      sorted := h.indexes.sorted.imp fun hf => ⟨hf.1, hf.2.1, fun hc => hf.2.2 ((hcur _).mp hc)⟩
      footers := fun i => hgenuine _ (h.indexes.footers i)
      sent := fun e' he => hgenuine _ (h.indexes.sent e' he)
      queue := fun cmd hcmd => hgenuine _ (h.indexes.queue cmd hcmd)
      index_le := fun a ha hlive => (h.indexes.index_le a ha (hlive.of_applyToState hseq)).imp_right
        fun hi => hi.trans hle
      pending := fun a ha hlive hlt =>
        h.indexes.pending a ha (hlive.of_applyToState hseq) (hle.trans_lt hlt)
      staged_le := fun cmd hcmd hrej => (h.indexes.staged_le cmd hcmd hrej).trans hle
      staged_rejected := fun cmd hcmd hloc herr hperm hlive =>
        h.indexes.staged_rejected cmd hcmd hloc herr hperm (hlive.of_applyToState hseq)
      sideClosed_lt := fun c hc a ha hlive hlt =>
        h.indexes.sideClosed_lt c hc a ha (hlive.of_applyToState hseq) hlt
      accepted := fun e' he happ => ?_ }
  · unfold Replica.stageEntry
    simp only
    split_ifs with hacc
    · rw [Bool.and_eq_true, isNone_iff_eq_none] at hacc
      by_cases hreq : (reqs e.idKey).isSingleRequestLeaseRequest
      · rcases hgen with hstale | hnone | ⟨-, hempty⟩ | hmem
        · exact absurd (sequence_of_checkEntry hacc.1) hstale
        · rw [Entry.closedTimestamp, hnone] at hacc
          exact absurd hacc.2 (by decide)
        · rw [hempty] at hacc
          exact absurd hacc.2 (by decide)
        · exact (h.indexes.assigned_le _ hmem).2.1
      · exact (h.indexes.assigned_le _ (hassigned hacc.1 (by simpa using hreq))).2.1
    · exact h.indexes.raftClosed_le
  have hold : ∀ e' ∈ r.accepted, (reqs e'.idKey).appliesTimestampCache → _ :=
    fun e' he happ => h.indexes.accepted e' he happ
  unfold Replica.stageEntry at he
  simp only at he
  split_ifs at he with hacc
  · rcases mem_cons.mp he with rfl | he
    · rw [isNone_iff_eq_none] at hacc
      have hv := viable_of_accepted hacc
      have hlive : Live reqs _ _ := ⟨⟨happ, hv.sequence_eq⟩, hv.not_probe, hv.aboveGC⟩
      have hmem := hassigned hacc ((reqs e'.idKey).not_lease happ).1
      exact ⟨(hcur _).mpr hlive.current, maxLeaseIndex_le_of_live hlive, hmem,
        fun c hc hlt => h.indexes.sideClosed_lt c hc _ hmem hlive hlt⟩
    · obtain ⟨hc, hi, hm, hs⟩ := hold e' he happ
      exact ⟨(hcur _).mpr hc, hi.trans hle, hm, hs⟩
  · obtain ⟨hc, hi, hm, hs⟩ := hold e' he happ
    exact ⟨(hcur _).mpr hc, hi.trans hle, hm, hs⟩

lemma ClosedInv.assignedFrom (h : ClosedInv reqs r) {closed : Timestamp} {lai : ℕ}
    (heq : closed.ord = r.assignedClosedTimestamp.ord) (hlai : r.assignedLAI ≤ lai) :
    ClosedInv reqs { r with assignedClosedTimestamp := closed, assignedLAI := lai } := by
  refine ⟨h.tokens.congr rfl rfl rfl (fun _ => rfl) heq rfl,
    { h.indexes with
      raftClosed_le := h.indexes.raftClosed_le.trans_eq heq.symm
      assigned_le := fun a ha => ?_
      sideClosed_le := fun c hc => (h.indexes.sideClosed_le c hc).trans_eq heq.symm }⟩
  obtain ⟨hidx, hts, hc⟩ := h.indexes.assigned_le a ha
  exact ⟨hidx.trans hlai, hts.trans_eq heq.symm, hc⟩

lemma ClosedInv.onLeaseChange (h : ClosedInv reqs r) : ClosedInv reqs r.onLeaseChange := by
  unfold Replica.onLeaseChange
  rw [if_pos h.indexes.owned]
  refine h.assignedFrom ?_ (le_max_left _ _)
  rw [ord_forward, max_eq_left h.indexes.raftClosed_le]

lemma ClosedInv.handleLeaseResult (h : ClosedInv reqs r) (e : Entry) (fr : ForcedErrResult) :
    ClosedInv reqs (r.handleLeaseResult reqs e fr) := by
  unfold Replica.handleLeaseResult
  split_ifs
  · exact h.onLeaseChange
  · exact h

lemma handleLeaseResult_eq (reqs : ℕ → Request) (r : Replica) (e : Entry)
    (fr : ForcedErrResult) : ∃ closed lai, r.handleLeaseResult reqs e fr =
      { r with assignedClosedTimestamp := closed, assignedLAI := lai } := by
  unfold Replica.handleLeaseResult Replica.onLeaseChange
  split_ifs <;> exact ⟨_, _, rfl⟩

lemma ClosedInv.stage (h : ClosedInv reqs r) (hstage : r.stage reqs = some r')
    (hlease : SameLease r r') : ClosedInv reqs r' := by
  unfold Replica.stage at hstage
  cases hqueue : r.queue with
  | nil => simp [hqueue] at hstage
  | cons cmd rest =>
    rw [hqueue] at hstage
    simp only at hstage
    split_ifs at hstage
    cases hstage
    have hmem : cmd ∈ r.queue := by rw [hqueue]; exact .head _
    have hrest : ∀ c ∈ rest, c ∈ r.queue := fun c hc => by
      rw [hqueue]
      exact .tail _ hc
    obtain ⟨closed, lai, heq⟩ := handleLeaseResult_eq reqs
      (r.stageEntry reqs cmd.entry (r.checkEntry reqs cmd.entry cmd.isLocal)) cmd.entry
      (r.checkEntry reqs cmd.entry cmd.isLocal)
    rw [heq] at hlease ⊢
    have hinv := (h.stageEntry (h.indexes.queue cmd hmem)
      (show SameLease r (r.stageEntry reqs cmd.entry (r.checkEntry reqs cmd.entry cmd.isLocal))
        from hlease)).handleLeaseResult cmd.entry (r.checkEntry reqs cmd.entry cmd.isLocal)
    rw [heq] at hinv
    refine ⟨hinv.tokens.congr rfl rfl rfl (fun _ => rfl) rfl rfl,
      { hinv.indexes with
        applying := fun _ => h.indexes.applying (by rw [hqueue]; exact cons_ne_nil _ _)
        queue := fun c hc => hinv.indexes.queue c (hrest c hc)
        pending := fun a ha hlive hlt => ?_
        queue_created := fun c hc => hinv.indexes.queue_created c (hrest c hc)
        staged_created := fun c hc hloc => ?_
        staged_le := fun c hc hrej => ?_
        staged_rejected := fun c hc hloc herr hperm hlive => ?_ }⟩
    · refine (hinv.indexes.pending a ha hlive hlt).imp_right ?_
      rintro ⟨c, hc, hid, hidx⟩
      change c ∈ r.queue at hc
      rw [hqueue] at hc
      rcases mem_cons.mp hc with rfl | hc
      · have hle : c.entry.maxLeaseIndex ≤ (applyToState (reqs c.entry.idKey)
            (r.checkEntry reqs c.entry c.isLocal) r.replicaState).leaseAppliedIndex :=
          maxLeaseIndex_le_of_live (hid ▸ hlive.of_applyToState hlease.1)
        exact absurd (hidx.trans hle) (not_le.mpr hlt)
      · exact ⟨c, hc, hid, hidx⟩
    · rcases mem_append.mp hc with hc | hc
      · exact h.indexes.staged_created c hc hloc
      rw [mem_singleton.mp hc] at hloc ⊢
      exact h.indexes.queue_created cmd hmem hloc
    · rcases mem_append.mp hc with hc | hc
      · exact hinv.indexes.staged_le c hc hrej
      rw [mem_singleton.mp hc] at hrej ⊢
      exact (maxLeaseIndex_le_of_illegal hrej).trans (le_applyToState reqs r _ _)
    rcases mem_append.mp hc with hc | hc
    · exact hinv.indexes.staged_rejected c hc hloc herr hperm hlive
    rw [mem_singleton.mp hc] at hloc herr hperm hlive
    have hbefore := hlive.of_applyToState hlease.1
    rw [checkEntry_of_viable hbefore.viable ((reqs _).not_lease hbefore.current.1).1, hloc]
      at herr hperm
    by_cases hidx : r.replicaState.leaseAppliedIndex < cmd.entry.maxLeaseIndex
    · rw [if_pos hidx] at herr
      exact absurd rfl herr
    rw [if_neg hidx, if_pos rfl] at hperm
    cases hperm

lemma ClosedInv.decode (h : ClosedInv reqs r) {ents : List Entry} (hqueue : r.queue = [])
    (hgen : ∀ e ∈ ents, Genuine reqs r e) : ClosedInv reqs (r.decode ents) := by
  have hcmd : ∀ cmd ∈ (r.decode ents).queue, cmd.entry ∈ ents ∧
      (cmd.isLocal → cmd.entry.idKey ∈ r.proposals) := by
    intro cmd hcmd
    obtain ⟨e, he, rfl⟩ := List.mem_map.mp hcmd
    exact ⟨he, fun hloc => by simpa using hloc⟩
  refine ⟨h.tokens.congr rfl rfl rfl (fun _ => rfl) rfl rfl,
    { h.indexes with
      applying := fun _ => rfl
      entered := fun i hi =>
        h.indexes.entered i (hi.imp_right fun hm => (Finset.mem_filter.mp hm).1)
      queue := fun cmd hc => hgen _ (hcmd cmd hc).1
      pending := fun a ha hlive hlt => ?_
      queue_created := fun cmd hc hloc => (h.indexes.entered _ (.inr ((hcmd cmd hc).2 hloc))).1 }⟩
  rcases h.indexes.pending a ha hlive hlt with hmem | ⟨cmd, hc, -⟩
  · by_cases hkept : ∀ e ∈ ents, e.idKey = a.idKey →
        e.maxLeaseIndex ≠ (r.props a.idKey).maxLeaseIndex
    · exact .inl (Finset.mem_filter.mpr ⟨hmem, hkept⟩)
    push Not at hkept
    obtain ⟨e, he, hid, hmli⟩ := hkept
    refine .inr ⟨⟨e, decide (e.idKey ∈ r.proposals)⟩, List.mem_map.mpr ⟨e, he, rfl⟩, hid, ?_⟩
    rcases h.indexes.index_le a ha hlive with hi | hi
    · exact hi.trans_eq hmli.symm
    · exact absurd hi (not_le.mpr hlt)
  · simp [hqueue] at hc

/-! ## Side effects -/

variable {cmd : CheckedCmd} {res : ProposalResult}

lemma ClosedInv.finishLocal (h : ClosedInv reqs r)
    (hdead : cmd.forcedErrResult.forcedError ≠ none →
      cmd.entry.maxLeaseIndex ≠ (r.props cmd.entry.idKey).maxLeaseIndex →
        ¬Live reqs r.replicaState cmd.entry.idKey)
    (hfin : r.finishLocal cmd res = some r') : ClosedInv reqs r' := by
  unfold Replica.finishLocal at hfin
  split_ifs at hfin with hfatal hne
  · cases hfin
    apply ClosedInv.finishApplication
    have herr : cmd.forcedErrResult.forcedError ≠ none := by
      intro hnone
      exact hfatal (by simp [hnone, hne])
    have hclean := @ClosedInv.cleanupFailedProposal reqs r cmd.entry.idKey h
      fun _ _ _ hlive => absurd hlive (hdead herr hne)
    exact hclean.modify (fun _ hc => hc) (fun _ => rfl) (fun _ => rfl) fun _ => rfl
  cases hfin
  apply ClosedInv.finishApplication
  exact h.modify (fun _ hc => hc) (fun _ => rfl) (fun _ => rfl) fun _ => rfl

lemma ClosedInv.applySideEffects (h : ClosedInv reqs r)
    (happly : r.applySideEffects reqs env invalid = some r')
    (hroom : ∀ cmd ∈ r.staged.head?, cmd.isLocal →
      cmd.forcedErrResult.rejection = .illegalLeaseIndex →
        r.arr.elems.length < r.arr.len ∨ env.Undisturbed) :
    ClosedInv reqs r' := by
  obtain ⟨cmd, rest, r1, out, hstaged, hprep, hout⟩ := applySideEffects_cases happly
  have hmem : cmd ∈ r.staged := by
    rw [hstaged]
    exact .head _
  have hrest : ∀ c ∈ rest, c ∈ r.staged := fun c hc => by
    rw [hstaged]
    exact .tail _ hc
  have h0 : ClosedInv reqs { r with staged := rest } :=
    ⟨h.tokens.congr rfl rfl rfl (fun _ => rfl) rfl rfl,
      { h.indexes with
        staged_created := fun c hc => h.indexes.staged_created c (hrest c hc)
        staged_le := fun c hc => h.indexes.staged_le c (hrest c hc)
        staged_rejected := fun c hc => h.indexes.staged_rejected c (hrest c hc) }⟩
  have hhead := hroom cmd (by rw [hstaged]; rfl)
  rcases hout with ⟨rfl, rfl⟩ | ⟨res, rfl, hfin⟩
  · rcases prepareLocalResult_cases hprep with
      ⟨-, rfl, -⟩ | ⟨hloc, ⟨-, -, hout⟩ | ⟨-, ⟨-, -, err, hout⟩ | ⟨hrej, htry⟩⟩⟩
    · exact h0
    · cases hout
    · cases hout
    exact (h0.tryRepropose (h.indexes.staged_created cmd hmem hloc)
      (h.indexes.staged_le cmd hmem hrej) htry (hhead hloc hrej)).1
  rcases prepareLocalResult_cases hprep with
    ⟨-, -, hout⟩ | ⟨hloc, ⟨herr, rfl, -⟩ | ⟨herr, ⟨hrej, rfl, -⟩ | ⟨hrej, htry⟩⟩⟩
  · cases hout
  · exact h0.finishLocal (fun hne => absurd herr hne) hfin
  · exact h0.finishLocal (fun _ _ => h.indexes.staged_rejected cmd hmem hloc herr hrej) hfin
  obtain ⟨hinv, heq⟩ := h0.tryRepropose (h.indexes.staged_created cmd hmem hloc)
    (h.indexes.staged_le cmd hmem hrej) htry (hhead hloc hrej)
  exact hinv.finishLocal (fun _ hne => absurd (heq (by simp)) hne) hfin

end Replica
end MeshDB.Kvserver
