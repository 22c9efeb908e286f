import MeshDB.KvCoord.RefreshedSends

/-!
# The transaction coordinator and its reads

The parts of a root `TxnCoordSender` that move the read timestamp of its transaction: batches,
refreshes, leaves, savepoints and restarts. Next to the state of the code stand the reads of the
epoch that were not rolled back.
-/
namespace MeshDB.KvCoord.TxnCoord

open Roachpb Kvpb Hlc SpanRefresher Transition List Option Transaction

/-- The refresh state at a savepoint. -/
structure Savepoint where
  active : Bool
  epoch : Int
  refreshSpans : List Span
  refreshInvalid : Bool
  live : List Read

/-- The root coordinator, as far as reads go. -/
structure TxnCoordSender where
  txn : Transaction
  w : World := {}
  active : Bool := false
  /-- The savepoints that can be rolled back to, the last one first. -/
  savepoints : List Savepoint := []
  leaves : List Transaction := []
  epochStart : Timestamp
  live : List Read := []

def newRootTxnCoordSender (txn : Transaction) : TxnCoordSender :=
  { txn := txn, epochStart := txn.readTimestamp }

/-- What a leaf hands back. -/
structure LeafTxnFinalState where
  txn : Transaction
  refreshSpans : List Span
  refreshInvalid : Bool
  reads : List Read

/-! ## Restarts -/

def epochBumpedLocked (sr : State) : State :=
  { sr with refreshFootprint := {}, refreshInvalid := false, refreshedTimestamp := {} }

/-- The part of `handleRetryableErrLocked` for a restart of the transaction in an error. -/
def restartLocked (tc : TxnCoordSender) (errTxn : Transaction) (timestamp : Timestamp) :
    Option TxnCoordSender := do
  let txn ← tc.txn.update (errTxn.restart timestamp)
  return { tc with
    txn := txn
    w := { tc.w with sr := epochBumpedLocked tc.w.sr }
    epochStart := txn.readTimestamp
    live := [] }

/-- An error may restart the transaction. -/
def updateStateOnError (tc : TxnCoordSender) (pErr : Error) (timestamp : Timestamp) :
    Option TxnCoordSender :=
  match errPriority pErr with
  | .txnRestart =>
    match pErr.txn with
    | none => none
    | some errTxn => if errTxn.id ≠ tc.txn.id then none else restartLocked tc errTxn timestamp
  | .txnAbort => some { tc with txn := { tc.txn with status := .aborted } }
  | _ =>
    match pErr.txn with
    | none => some tc
    | some errTxn => (tc.txn.update errTxn).map fun txn => { tc with txn := txn }

/-! ## Operations -/

/-- A batch, and what the error handling does after. -/
def sendBatch (cfg : Settings) (wrapped : Wrapped) (tc : TxnCoordSender) (ba : BatchRequest)
    (timestamp : Timestamp) : Option TxnCoordSender :=
  (sendLocked cfg wrapped tc.w { ba with txn := tc.txn }).bind fun
    | (w, .error pErr) => updateStateOnError { tc with w := w, active := true } pErr timestamp
    | (w, .ok br) => do
        let brTxn ← br.txn
        let txn ← tc.txn.update brTxn
        return { tc with
          txn := txn
          w := w
          active := true
          live := tc.live ++ answered (w.sent.drop tc.w.sent.length) }

/-- A refresh asked for by the client. -/
def manualRefresh (wrapped : Wrapped) (tc : TxnCoordSender) (timestamp : Timestamp) :
    Option TxnCoordSender :=
  (maybeRefreshPreemptivelyLocked wrapped tc.w { txn := tc.txn, requests := [] } true).bind fun
    | (w, .error pErr) => updateStateOnError { tc with w := w } pErr timestamp
    | (w, .ok ba) => (tc.txn.update ba.txn).map fun txn => { tc with txn := txn, w := w }

def getLeafTxnInputState (tc : TxnCoordSender) : TxnCoordSender :=
  { tc with leaves := tc.txn :: tc.leaves, active := true }

/-- The leaf's reads join the footprint. -/
def importLeafFinalState (cfg : Settings) (sr : State) (tfs : LeafTxnFinalState) : Option State :=
  if tfs.refreshInvalid then some { sr with refreshInvalid := true, refreshFootprint := {} }
  else insertRefreshSpans cfg sr tfs.refreshSpans

def updateRootWithLeafFinalState (cfg : Settings) (tc : TxnCoordSender)
    (tfs : LeafTxnFinalState) : Option TxnCoordSender :=
  if tc.txn.id ≠ tfs.txn.id then some tc
  else if tfs.txn.status ≠ .pending then some tc
  else do
    let txn ← tc.txn.update tfs.txn
    let tc := { tc with txn := txn }
    if (assertRefreshSpansAtInvalidTimestamp tc.w.sr tfs.txn.readTimestamp).isSome then some tc
    else do
      let sr ← importLeafFinalState cfg tc.w.sr tfs
      return { tc with
        w := { tc.w with sr := sr }
        live := if tfs.txn.epoch = tc.txn.epoch then tc.live ++ tfs.reads else tc.live }

def createSavepoint (tc : TxnCoordSender) : TxnCoordSender :=
  let sp : Savepoint :=
    if !tc.active then ⟨false, tc.txn.epoch, [], false, []⟩
    else ⟨true, tc.txn.epoch, tc.w.sr.refreshFootprint.s, tc.w.sr.refreshInvalid, tc.live⟩
  { tc with savepoints := sp :: tc.savepoints }

/-- Savepoints of an earlier epoch are void. -/
def checkSavepointLocked (tc : TxnCoordSender) (sp : Savepoint) : Bool :=
  !sp.active || sp.epoch == tc.txn.epoch

/-- `RollbackToSavepoint`. The initial one undoes everything and ends the leaves too. -/
def rollbackToSavepoint (tc : TxnCoordSender) (n : ℕ) : Option TxnCoordSender := do
  let sp ← tc.savepoints[n]?
  if !checkSavepointLocked tc sp then some tc
  else some { tc with
    active := sp.active
    w := { tc.w with sr := { tc.w.sr with
      refreshFootprint := ({} : CondensableSpanSet).insertSpans sp.refreshSpans
      refreshInvalid := sp.refreshInvalid } }
    savepoints := tc.savepoints.drop n
    leaves := if sp.active then tc.leaves else []
    live := sp.live }

inductive Action where
  | send (cfg : Settings) (wrapped : Wrapped) (ba : BatchRequest) (timestamp : Timestamp)
  | manualRefresh (wrapped : Wrapped) (timestamp : Timestamp)
  | getLeafTxnInputState
  | updateRootWithLeafFinalState (cfg : Settings) (tfs : LeafTxnFinalState)
  | createSavepoint
  | rollbackToSavepoint (n : ℕ)
  | manualRestart (timestamp : Timestamp)

def step (tc : TxnCoordSender) (a : Action) : Option TxnCoordSender :=
  if tc.txn.status ≠ .pending then none
  else
    match a with
    | .send cfg wrapped ba timestamp => sendBatch cfg wrapped tc ba timestamp
    | .manualRefresh wrapped timestamp => manualRefresh wrapped tc timestamp
    | .getLeafTxnInputState => some (getLeafTxnInputState tc)
    | .updateRootWithLeafFinalState cfg tfs => updateRootWithLeafFinalState cfg tc tfs
    | .createSavepoint => some (createSavepoint tc)
    | .rollbackToSavepoint n => rollbackToSavepoint tc n
    | .manualRestart timestamp => restartLocked tc tc.txn timestamp

/-- A leaf of this coordinator does not move its read timestamp, and covers its reads unless it gave
up. -/
structure LegalLeaf (tc : TxnCoordSender) (tfs : LeafTxnFinalState) : Prop where
  created : ∃ leaf ∈ tc.leaves, tfs.txn.epoch = leaf.epoch ∧
    tfs.txn.readTimestamp.ord = leaf.readTimestamp.ord
  reads : ∀ p ∈ tfs.reads, ∀ txn, p.2.txn = some txn →
    txn.readTimestamp.ord = tfs.txn.readTimestamp.ord
  covered : tfs.refreshInvalid = false → ∀ p ∈ tfs.reads, ∀ k, ReadsKey p.1 p.2 k →
    Covers tfs.refreshSpans k
  proper : ∀ sp ∈ tfs.refreshSpans, sp.Proper

def Legal (tc : TxnCoordSender) : Action → Prop
  | .send _ wrapped ba _ => wrapped.Legal ∧ Regular ba
  | .manualRefresh wrapped _ => wrapped.Legal
  | .updateRootWithLeafFinalState _ tfs => LegalLeaf tc tfs
  | _ => True

/-! ## The invariant -/

/-- Its spans cover its reads, which are still among the reads if it is of this epoch. -/
structure SavepointOk (tc : TxnCoordSender) (sp : Savepoint) : Prop where
  epoch : sp.epoch ≤ tc.txn.epoch
  initial : sp.active = false → sp.live = []
  covered : sp.refreshInvalid = false → ∀ p ∈ sp.live, ∀ k, ReadsKey p.1 p.2 k →
    Covers sp.refreshSpans k
  invalid : sp.refreshInvalid → sp.refreshSpans = []
  proper : ∀ s ∈ sp.refreshSpans, s.Proper
  live : sp.active → sp.epoch = tc.txn.epoch → ∀ p ∈ sp.live, p ∈ tc.live

/-- A leaf never outruns its root. -/
structure LeafOk (tc : TxnCoordSender) (leaf : Transaction) : Prop where
  epoch : leaf.epoch ≤ tc.txn.epoch
  le : leaf.readTimestamp.ord ≤ tc.txn.readTimestamp.ord
  start : leaf.epoch = tc.txn.epoch → tc.epochStart.ord ≤ leaf.readTimestamp.ord

/-- What holds while the transaction is pending. -/
structure PendingInv (tc : TxnCoordSender) : Prop where
  sound : Sound tc.w tc.live tc.txn.readTimestamp
  start : tc.epochStart.ord ≤ tc.txn.readTimestamp.ord
  follows : Follows tc.w tc.epochStart tc.txn.readTimestamp
  leaves : ∀ leaf ∈ tc.leaves, LeafOk tc leaf
  active : tc.active = false → tc.live = [] ∧ tc.leaves = []
  savepoints : ∀ sp ∈ tc.savepoints, SavepointOk tc sp
  nested : tc.savepoints.Pairwise fun a b => b.active → b.epoch = tc.txn.epoch →
    ∀ p ∈ b.live, p ∈ a.live

structure Inv (tc : TxnCoordSender) : Prop where
  validated : AllValidated tc.w.sent tc.live tc.txn.readTimestamp
  invalid : tc.w.sr.refreshInvalid → tc.w.sr.refreshFootprint.s = []
  pending : tc.txn.status = .pending → PendingInv tc

variable {w : World} {tc' : TxnCoordSender} {ba : BatchRequest} {ts : Timestamp} {cfg : Settings}
  {wrapped : Wrapped}

/-- A coordinator that runs as a leaf hands back spans that cover its reads. -/
lemma PendingInv.legalLeaf {root leaf : TxnCoordSender} (h : PendingInv leaf)
    (hcreated : ∃ t ∈ root.leaves, leaf.txn.epoch = t.epoch ∧
      leaf.txn.readTimestamp.ord = t.readTimestamp.ord)
    (hreads : ∀ p ∈ leaf.live, ∀ txn, p.2.txn = some txn →
      txn.readTimestamp.ord = leaf.txn.readTimestamp.ord) :
    LegalLeaf root
      ⟨leaf.txn, leaf.w.sr.refreshFootprint.s, leaf.w.sr.refreshInvalid, leaf.live⟩ where
  created := hcreated
  reads := hreads
  covered := h.sound.covered
  proper := h.sound.proper

lemma sound_nil (hvalid : w.sr.refreshFootprint.s = []) (R : Timestamp) : Sound w [] R where
  validated := fun p hp => by cases hp
  covered := fun _ p hp => by cases hp
  invalid := fun _ => hvalid
  proper := fun sp hsp => by
    rw [hvalid] at hsp
    cases hsp

lemma inv_newRoot (txn : Transaction) : Inv (newRootTxnCoordSender txn) where
  validated := fun p hp => by cases hp
  invalid := fun _ => rfl
  pending := fun _ => {
    sound := sound_nil rfl _
    start := le_rfl
    follows := .inl rfl
    leaves := fun leaf hleaf => by cases hleaf
    active := fun _ => ⟨rfl, rfl⟩
    savepoints := fun sp hsp => by cases hsp
    nested := .nil }

variable {tc : TxnCoordSender} {active : Bool}

lemma PendingInv.move {u : Transaction} {live : List Read} (h : PendingInv tc)
    (hsound : Sound w live u.readTimestamp)
    (hle : tc.txn.readTimestamp.ord ≤ u.readTimestamp.ord)
    (hfollows : Follows w tc.txn.readTimestamp u.readTimestamp)
    (hrefreshed : tc.w.sr.refreshedTimestamp.ord ≤ w.sr.refreshedTimestamp.ord)
    (hepoch : u.epoch = tc.txn.epoch) (hactive : active = false → live = [] ∧ tc.leaves = [])
    (hlive : ∀ p ∈ tc.live, p ∈ live) :
    PendingInv { tc with txn := u, w := w, active := active, live := live } where
  sound := hsound
  start := h.start.trans hle
  follows := h.follows.trans hfollows hrefreshed
  leaves := by
    intro leaf hleaf
    have hold := h.leaves leaf hleaf
    exact ⟨hepoch ▸ hold.epoch, hold.le.trans hle, fun heq => hold.start (heq.trans hepoch)⟩
  active := hactive
  savepoints := by
    intro sp hsp
    have hold := h.savepoints sp hsp
    exact { hold with
      epoch := hepoch ▸ hold.epoch
      live := fun hact heq p hp => hlive p (hold.live hact (heq.trans hepoch) p hp) }
  nested := hepoch ▸ h.nested

lemma PendingInv.inv (h : PendingInv tc) : Inv tc :=
  ⟨h.sound.validated, h.sound.invalid, fun _ => h⟩

/-- Once the footprint is given up, a step within the epoch keeps it so and keeps the read
timestamp. -/
def StaysInvalid (tc tc' : TxnCoordSender) : Prop :=
  tc.w.sr.refreshInvalid → tc'.txn.epoch = tc.txn.epoch →
    tc'.w.sr.refreshInvalid ∧ tc'.txn.readTimestamp.ord = tc.txn.readTimestamp.ord

/-! ## The operations -/

lemma restartLocked_inv {errTxn : Transaction} (h : PendingInv tc)
    (hactive : active = false → tc.leaves = []) (hepoch : errTxn.epoch = tc.txn.epoch)
    (hrestart : restartLocked { tc with w := w, active := active } errTxn ts = some tc') :
    Inv tc' ∧ StaysInvalid tc tc' := by
  obtain ⟨txn, htxn, hrestart⟩ := bind_eq_some_iff.mp hrestart
  cases hrestart
  obtain ⟨hnext, hle⟩ := update_restart hepoch htxn
  constructor
  · apply PendingInv.inv
    refine ⟨sound_nil rfl _, le_rfl, .inl rfl, ?_, fun h => ⟨rfl, hactive h⟩, ?_, ?_⟩
    · intro leaf hleaf
      have hold := h.leaves leaf hleaf
      have hlt : leaf.epoch < txn.epoch := by
        have := hold.epoch
        omega
      exact ⟨hlt.le, hold.le.trans hle, fun heq => absurd heq hlt.ne⟩
    · intro sp hsp
      have hold := h.savepoints sp hsp
      have hlt : sp.epoch < txn.epoch := by
        have := hold.epoch
        omega
      exact { hold with
        epoch := hlt.le
        live := fun _ heq => absurd heq hlt.ne }
    · refine pairwise_of_forall_mem_list fun a _ b hb _ heq => ?_
      have hlt : b.epoch < txn.epoch := by
        have := (h.savepoints b hb).epoch
        omega
      exact absurd heq hlt.ne
  · intro _ heq
    have heq : txn.epoch = tc.txn.epoch := heq
    omega

lemma update_inv {live : List Read}
    {o u : Transaction} (h : PendingInv tc) (hid : o.id = tc.txn.id)
    (hepoch : o.epoch = tc.txn.epoch) (hadv : Advances tc.w w tc.txn.readTimestamp o.readTimestamp)
    (hfollows : Follows w tc.txn.readTimestamp o.readTimestamp)
    (hvalidated : AllValidated w.sent live o.readTimestamp)
    (hsound : o.status = .pending → Sound w live o.readTimestamp)
    (hactive : active = false → live = [] ∧ tc.leaves = []) (hlive : ∀ p ∈ tc.live, p ∈ live)
    (hu : tc.txn.update o = some u) :
    Inv { tc with txn := u, w := w, active := active, live := live } ∧
      StaysInvalid tc { tc with txn := u, w := w, active := active, live := live } := by
  obtain ⟨hepoch', hR, hstatus⟩ := update_reply hid hepoch hadv.le hu
  refine ⟨⟨fun p hp txn htxn k hk => (hvalidated p hp txn htxn k hk).congr hR.symm,
    (hadv.moves tc.live h.sound).invalid, ?_⟩, ?_⟩
  · intro hpending
    have ho := updateStatus_eq_pending (hstatus.symm.trans hpending)
    exact h.move ((hsound ho).congr hR.symm) (hadv.le.trans_eq hR.symm)
      (hfollows.imp hR.trans hR.trans_le) hadv.refreshed hepoch' hactive hlive
  · exact fun hinv _ => (hadv.invalid hinv).imp_right hR.trans

lemma updateStateOnError_inv {tc' : TxnCoordSender} {pErr : Error} {ts : Timestamp}
    (h : PendingInv tc) (hba : ba.txn = tc.txn) (hfailed : Failed tc.w w ba pErr)
    (hfollows : Follows w ba.txn.readTimestamp (replyTs ba (.error pErr)))
    (hactive : active = false → tc.live = [] ∧ tc.leaves = [])
    (hupdate : updateStateOnError { tc with w := w, active := active } pErr ts = some tc') :
    Inv tc' ∧ StaysInvalid tc tc' := by
  have hadv := hfailed.advances
  rw [hba] at hadv hfollows
  have hkept := hadv.keeps tc.live _ h.sound
  unfold updateStateOnError at hupdate
  cases hpriority : errPriority pErr
  case txnRestart =>
    simp only [hpriority] at hupdate
    cases htxn : pErr.txn with
    | none =>
      simp only [htxn] at hupdate
      cases hupdate
    | some errTxn =>
      simp only [htxn] at hupdate
      split_ifs at hupdate
      exact restartLocked_inv h (fun h => (hactive h).2)
        ((hfailed.epoch errTxn htxn).trans (hba ▸ rfl)) hupdate
  case txnAbort =>
    simp only [hpriority] at hupdate
    cases hupdate
    exact ⟨⟨hkept.validated, hkept.invalid, fun h => by cases h⟩,
      fun hinv _ => ⟨(hadv.invalid hinv).1, rfl⟩⟩
  all_goals
    simp only [hpriority] at hupdate
    cases htxn : pErr.txn with
    | none =>
      simp only [htxn] at hupdate
      cases hupdate
      refine ⟨PendingInv.inv ?_, fun hinv _ => ⟨(hadv.invalid hinv).1, rfl⟩⟩
      exact h.move hkept le_rfl (.inl rfl) hadv.refreshed rfl hactive fun _ hp => hp
    | some errTxn =>
      simp only [htxn] at hupdate
      obtain ⟨u, hu, heq⟩ := map_eq_some_iff.mp hupdate
      cases heq
      rw [replyTs_error htxn] at hadv hfollows
      have hsound := hadv.moves tc.live h.sound
      exact update_inv h ((hfailed.id errTxn htxn).trans (hba ▸ rfl))
        ((hfailed.epoch errTxn htxn).trans (hba ▸ rfl)) hadv hfollows hsound.validated
        (fun _ => hsound) hactive (fun _ hp => hp) hu

lemma sendBatch_inv (h : PendingInv tc) (hwrapped : wrapped.Legal)
    (hregular : Regular ba) (hsend : sendBatch cfg wrapped tc ba ts = some tc') :
    Inv tc' ∧ StaysInvalid tc tc' := by
  obtain ⟨⟨w, reply⟩, hsent, hsend⟩ := bind_eq_some_iff.mp hsend
  have hregular : Regular { ba with txn := tc.txn } := ⟨hregular.endTxn, hregular.proper⟩
  obtain ⟨hspec, hfollows⟩ := sendLockedDepth_spec hwrapped _ hregular hsent
  cases reply with
  | error pErr =>
    exact updateStateOnError_inv h rfl hspec hfollows (fun h => by cases h) hsend
  | ok br =>
    obtain ⟨txn, hreplied, new, hnew, hreads⟩ := hspec
    obtain ⟨txn', htxn', hsend⟩ := bind_eq_some_iff.mp hsend
    cases hreplied.hasTxn.symm.trans htxn'
    obtain ⟨u, hu, hsend⟩ := bind_eq_some_iff.mp hsend
    cases hsend
    have hdrop : w.sent.drop tc.w.sent.length = new := by
      rw [hnew, drop_left]
    simp only [hdrop]
    rw [replyTs_ok hreplied.hasTxn] at hfollows
    obtain ⟨hvalidated, hsound⟩ := hreads tc.live h.sound
    apply update_inv h hreplied.id hreplied.epoch hreplied.advances hfollows _ hsound _ _ hu
    · exact forall_mem_append.mpr
        ⟨(hreplied.advances.moves tc.live h.sound).validated, hvalidated⟩
    · intro h
      cases h
    · exact fun p hp => mem_append_left _ hp

lemma manualRefresh_inv
    (h : PendingInv tc) (hrefresh : manualRefresh wrapped tc ts = some tc') :
    Inv tc' ∧ StaysInvalid tc tc' := by
  obtain ⟨⟨w, r⟩, hpre, hrefresh⟩ := bind_eq_some_iff.mp hrefresh
  obtain ⟨-, hspec⟩ := maybeRefreshPreemptivelyLocked_spec hpre
  cases r with
  | error pErr =>
    obtain ⟨hfailed, hts⟩ := hspec
    exact updateStateOnError_inv h rfl hfailed (.inl (congrArg _ hts)) h.active hrefresh
  | ok ba =>
    obtain ⟨-, hid, hepoch, hadv, hfollows⟩ := hspec
    obtain ⟨u, hu, heq⟩ := map_eq_some_iff.mp hrefresh
    cases heq
    have hsound := hadv.moves tc.live h.sound
    exact update_inv h hid hepoch hadv hfollows hsound.validated (fun _ => hsound) h.active
      (fun _ hp => hp) hu

lemma getLeafTxnInputState_inv (h : PendingInv tc) :
    PendingInv (getLeafTxnInputState tc) :=
  { h with
    leaves := forall_mem_cons.mpr ⟨⟨le_rfl, le_rfl, fun _ => h.start⟩,
      fun leaf hleaf => { h.leaves leaf hleaf with }⟩
    active := fun h => by cases h
    savepoints := fun sp hsp => { h.savepoints sp hsp with } }

lemma leaf_readTimestamp {leaf : Transaction} {R : Timestamp}
    (h : PendingInv tc) (hleaf : LeafOk tc leaf) (hepoch : leaf.epoch = tc.txn.epoch)
    (hR : R.ord = leaf.readTimestamp.ord)
    (hassert : assertRefreshSpansAtInvalidTimestamp tc.w.sr R = none) :
    R.ord = tc.txn.readTimestamp.ord := by
  have hrefreshed : tc.w.sr.refreshedTimestamp.ord ≤ R.ord := by
    unfold assertRefreshSpansAtInvalidTimestamp at hassert
    split_ifs at hassert with hless
    exact Timestamp.not_less_iff.mp (Bool.eq_false_iff.mpr hless)
  refine le_antisymm (hR.trans_le hleaf.le) ?_
  rcases h.follows with heq | hle
  · exact heq.trans_le ((hleaf.start hepoch).trans_eq hR.symm)
  · exact hle.trans hrefreshed

lemma importLeafFinalState_spec {cfg : Settings} {w : World} {sr' : State}
    {tfs : LeafTxnFinalState} {live reads : List Read} {R : Timestamp}
    (himport : importLeafFinalState cfg w.sr tfs = some sr') (hsound : Sound w live R)
    (hreads : AllValidated w.sent reads R)
    (hcovered : tfs.refreshInvalid = false → ∀ p ∈ reads, ∀ k, ReadsKey p.1 p.2 k →
      Covers tfs.refreshSpans k) (hproper : ∀ sp ∈ tfs.refreshSpans, sp.Proper) :
    Sound { w with sr := sr' } (live ++ reads) R ∧
      sr'.refreshedTimestamp = w.sr.refreshedTimestamp ∧
      (w.sr.refreshInvalid → sr'.refreshInvalid) := by
  unfold importLeafFinalState at himport
  split_ifs at himport with hinvalid
  · cases himport
    refine ⟨⟨fun p hp => ?_, fun h => ?_, fun _ => rfl, fun sp hsp => by cases hsp⟩, rfl,
      fun _ => rfl⟩
    swap
    · cases h
    exact (mem_append.mp hp).elim (hsound.validated p) (hreads p)
  have hvalid : tfs.refreshInvalid = false := Bool.eq_false_iff.mpr hinvalid
  obtain ⟨hadv, hrefreshed⟩ := insertRefreshSpans_advances himport hproper R
  refine ⟨?_, hrefreshed, fun hinv => (hadv.invalid hinv).1⟩
  exact insertRefreshSpans_sound himport hproper hsound hreads fun _ p hp k hk =>
    .inr (hcovered hvalid p hp k hk)

lemma updateRootWithLeafFinalState_inv
    {tfs : LeafTxnFinalState} (h : PendingInv tc) (hpending : tc.txn.status = .pending)
    (hlegal : LegalLeaf tc tfs) (himport : updateRootWithLeafFinalState cfg tc tfs = some tc') :
    Inv tc' ∧ StaysInvalid tc tc' := by
  unfold updateRootWithLeafFinalState at himport
  split_ifs at himport with hid hstatus
  · cases himport
    exact ⟨h.inv, fun hinv _ => ⟨hinv, rfl⟩⟩
  · cases himport
    exact ⟨h.inv, fun hinv _ => ⟨hinv, rfl⟩⟩
  obtain ⟨u, hu, himport⟩ := bind_eq_some_iff.mp himport
  obtain ⟨leaf, hmem, hleafEpoch, hleafR⟩ := hlegal.created
  have hleaf := h.leaves leaf hmem
  obtain ⟨hepoch, hR, hpending'⟩ := update_behind (hleafEpoch ▸ hleaf.epoch)
    (hleafR.trans_le hleaf.le) hpending (not_not.mp hstatus) hu
  by_cases hassert :
      (assertRefreshSpansAtInvalidTimestamp tc.w.sr tfs.txn.readTimestamp).isSome
  · rw [if_pos hassert] at himport
    cases himport
    refine ⟨PendingInv.inv ?_, fun hinv _ => ⟨hinv, hR⟩⟩
    exact h.move (h.sound.congr hR.symm) hR.ge (.inl hR) le_rfl hepoch h.active fun _ hp => hp
  rw [if_neg hassert] at himport
  obtain ⟨sr, hsr, himport⟩ := bind_eq_some_iff.mp himport
  cases himport
  have hassert : assertRefreshSpansAtInvalidTimestamp tc.w.sr tfs.txn.readTimestamp = none := by
    simpa using hassert
  have hsound := h.sound.congr hR.symm
  by_cases hsame : tfs.txn.epoch = u.epoch
  · simp only [if_pos hsame]
    have hread := leaf_readTimestamp h hleaf (hleafEpoch ▸ hsame.trans hepoch) hleafR hassert
    have hreads : AllValidated tc.w.sent tfs.reads u.readTimestamp :=
      fun p hp txn htxn k _ => .read ((hlegal.reads p hp txn htxn).trans (hread.trans hR.symm))
    obtain ⟨hsound', hrefreshed, hstays⟩ :=
      importLeafFinalState_spec hsr hsound hreads hlegal.covered hlegal.proper
    refine ⟨PendingInv.inv ?_, fun hinv _ => ⟨hstays hinv, hR⟩⟩
    refine h.move hsound' hR.ge (.inl hR) (congrArg _ hrefreshed).ge hepoch
      (fun hactive => ?_) fun p hp => mem_append_left _ hp
    rw [(h.active hactive).2] at hmem
    cases hmem
  simp only [if_neg hsame]
  obtain ⟨hsound', hrefreshed, hstays⟩ := @importLeafFinalState_spec cfg tc.w sr tfs tc.live []
    _ hsr hsound (fun p hp => by cases hp) (fun _ p hp => by cases hp) hlegal.proper
  rw [append_nil] at hsound'
  refine ⟨PendingInv.inv ?_, fun hinv _ => ⟨hstays hinv, hR⟩⟩
  exact h.move hsound' hR.ge (.inl hR) (congrArg _ hrefreshed).ge hepoch h.active fun _ hp => hp

lemma createSavepoint_inv (h : PendingInv tc) :
    PendingInv (createSavepoint tc) := by
  obtain ⟨sp, hcreate, hlive, hok⟩ : ∃ sp, createSavepoint tc =
      { tc with savepoints := sp :: tc.savepoints } ∧ sp.live = tc.live ∧ SavepointOk tc sp := by
    refine ⟨_, rfl, ?_⟩
    split_ifs with hactive
    · have hnil := h.active (by simpa using hactive) |>.1
      exact ⟨hnil.symm, le_rfl, fun _ => rfl, fun _ _ hp => (not_mem_nil hp).elim,
        (fun h => by cases h), fun _ hs => (not_mem_nil hs).elim, (fun h => by cases h)⟩
    · exact ⟨rfl, ⟨le_rfl, (fun h => by cases h), h.sound.covered, h.sound.invalid, h.sound.proper,
        fun _ _ p hp => hp⟩⟩
  rw [hcreate]
  exact
    { h with
      leaves := fun leaf hleaf => { h.leaves leaf hleaf with }
      savepoints := forall_mem_cons.mpr ⟨{ hok with }, fun sp' hsp' =>
        { h.savepoints sp' hsp' with }⟩
      nested := pairwise_cons.mpr ⟨fun b hb => hlive ▸ (h.savepoints b hb).live, h.nested⟩ }

lemma rollbackToSavepoint_inv {n : ℕ} (h : PendingInv tc)
    (hrollback : rollbackToSavepoint tc n = some tc') :
    PendingInv tc' ∧ tc'.txn = tc.txn := by
  obtain ⟨sp, hsp, hrollback⟩ := bind_eq_some_iff.mp hrollback
  by_cases hcheck : (!checkSavepointLocked tc sp)
  · rw [if_pos hcheck] at hrollback
    cases hrollback
    exact ⟨h, rfl⟩
  rw [if_neg hcheck] at hrollback
  cases hrollback
  have hok := h.savepoints sp (mem_of_getElem? hsp)
  have hsub : ∀ p ∈ sp.live, p ∈ tc.live := by
    unfold checkSavepointLocked at hcheck
    cases hactive : sp.active with
    | false =>
      rw [hok.initial hactive]
      exact fun p hp => by cases hp
    | true =>
      simp only [hactive, Bool.not_true, Bool.false_or, Bool.not_eq_true', beq_eq_false_iff_ne,
        ne_eq, not_not] at hcheck
      exact hok.live hactive hcheck
  have hdrop : tc.savepoints.drop n = sp :: tc.savepoints.drop (n + 1) := by
    obtain ⟨hlt, rfl⟩ := List.getElem?_eq_some_iff.mp hsp
    exact drop_eq_getElem_cons hlt
  have hnested := h.nested.drop (i := n)
  have hspans : (({} : CondensableSpanSet).insertSpans sp.refreshSpans).s = sp.refreshSpans :=
    CondensableSpanSet.s_insertSpans
  refine ⟨⟨⟨fun p hp => h.sound.validated p (hsub p hp), ?_, ?_, ?_⟩, h.start, h.follows,
    fun leaf hleaf => ?_, fun hactive => ⟨hok.initial hactive, ?_⟩, fun sp' hsp' => ?_, hnested⟩,
    rfl⟩
  · unfold AllCovered
    rw [hspans]
    exact hok.covered
  · rw [hspans]
    exact hok.invalid
  · rw [hspans]
    exact hok.proper
  · dsimp only at hleaf
    split_ifs at hleaf
    · exact { h.leaves leaf hleaf with }
    · cases hleaf
  · have hactive : sp.active = false := hactive
    simp [hactive]
  have hold := h.savepoints sp' (mem_of_mem_drop hsp')
  refine { hold with live := fun hactive hepoch => ?_ }
  rw [hdrop] at hnested hsp'
  rcases mem_cons.mp hsp' with rfl | hsp'
  · exact fun p hp => hp
  · exact (pairwise_cons.mp hnested).1 sp' hsp' hactive hepoch

/-! ## Runs -/

lemma step_inv {a : Action} (h : Inv tc) (hlegal : Legal tc a) (hstep : step tc a = some tc') :
    Inv tc' ∧ (StaysInvalid tc tc' ∨ (∃ n, a = .rollbackToSavepoint n) ∧ tc'.txn = tc.txn) := by
  unfold step at hstep
  split_ifs at hstep with hstatus
  have hpending : tc.txn.status = .pending := not_not.mp hstatus
  have h := h.pending hpending
  cases a with
  | send cfg wrapped ba ts => exact (sendBatch_inv h hlegal.1 hlegal.2 hstep).imp_right .inl
  | manualRefresh wrapped ts => exact (manualRefresh_inv h hstep).imp_right .inl
  | getLeafTxnInputState =>
    cases hstep
    exact ⟨(getLeafTxnInputState_inv h).inv, .inl fun hinv _ => ⟨hinv, rfl⟩⟩
  | updateRootWithLeafFinalState cfg tfs =>
    exact (updateRootWithLeafFinalState_inv h hpending hlegal hstep).imp_right .inl
  | createSavepoint =>
    cases hstep
    exact ⟨(createSavepoint_inv h).inv, .inl fun hinv _ => ⟨hinv, rfl⟩⟩
  | rollbackToSavepoint n =>
    obtain ⟨hinv, htxn⟩ := rollbackToSavepoint_inv h hstep
    exact ⟨hinv.inv, .inr ⟨⟨n, rfl⟩, htxn⟩⟩
  | manualRestart ts =>
    exact (restartLocked_inv (w := tc.w) h (fun hactive => (h.active hactive).2) rfl
      hstep).imp_right .inl

lemma reachable_inv {txn : Transaction}
    (h : Reachable step Legal (newRootTxnCoordSender txn) tc) : Inv tc :=
  h.invariant (inv_newRoot txn) fun _ _ _ _ hinv hlegal hstep => (step_inv hinv hlegal hstep).1

/-- In every run the reads of the epoch that were not undone are validated at the read timestamp.
Once the footprint is given up, that does not move until the epoch ends or a rollback restores the
footprint. -/
theorem refreshes_sound {txn : Transaction} {tc : TxnCoordSender}
    (h : Reachable step Legal (newRootTxnCoordSender txn) tc) :
    AllValidated tc.w.sent tc.live tc.txn.readTimestamp ∧
    (tc.w.sr.refreshInvalid = true → tc.w.sr.refreshFootprint.s = [] ∧
      ∀ a tc', Legal tc a → step tc a = some tc' → tc'.txn.epoch = tc.txn.epoch →
        tc'.txn.readTimestamp.ord = tc.txn.readTimestamp.ord ∧
        (tc'.w.sr.refreshInvalid = true ∨ ∃ n, a = .rollbackToSavepoint n)) := by
  have hinv := reachable_inv h
  refine ⟨hinv.validated, fun hinvalid => ⟨hinv.invalid hinvalid, ?_⟩⟩
  intro a tc' hlegal hstep hepoch
  rcases (step_inv hinv hlegal hstep).2 with hstays | ⟨hrollback, htxn⟩
  · obtain ⟨hstill, hR⟩ := hstays hinvalid hepoch
    exact ⟨hR, .inl hstill⟩
  · exact ⟨by rw [htxn], .inr hrollback⟩

def pushing (ts : Timestamp) : Wrapped := fun _ ba =>
  .ok {
    txn := some { ba.txn with
      status := .pending
      writeTimestamp := ba.txn.writeTimestamp.forward ts
      readTimestamp :=
        if ba.canForwardReadTimestamp then ba.txn.readTimestamp.forward ts
        else ba.txn.readTimestamp }
    responses := ba.requests.map fun _ => .op none [] }

lemma pushing_legal (ts : Timestamp) : (pushing ts).Legal := by
  intro sent ba
  constructor
  · rintro txn ⟨⟩
    rfl
  · rintro txn ⟨⟩
    rfl
  · rintro txn ⟨⟩
    split_ifs
    · rw [Timestamp.ord_forward]
      exact le_max_left _ _
    · exact le_rfl
  · rintro hcan txn ⟨⟩
    simp [hcan]
  · rintro br txn ⟨⟩ ⟨⟩ hstatus
    exact absurd rfl hstatus
  · rintro br ⟨⟩
    exact length_map _
  rintro br ⟨⟩ ⟨req, resp⟩ hp hneeds hproper sp hsp
  obtain ⟨-, hresp⟩ := of_mem_zip hp
  obtain ⟨-, -, rfl⟩ := List.mem_map.mp hresp
  unfold refreshSpans at hsp
  split_ifs at hsp
  · cases hsp
  cases mem_singleton.mp hsp
  exact hproper

def txnAt10 : Transaction :=
  { id := 1, writeTimestamp := ⟨10, 0, false⟩, readTimestamp := ⟨10, 0, false⟩ }

def readAction (cfg : Settings) (ts : Timestamp) : Action :=
  .send cfg (pushing ts) { txn := txnAt10, requests := [.op (.get false) ⟨[1], none, 0⟩] } {}

lemma readAction_legal (cfg : Settings) (ts : Timestamp) (tc : TxnCoordSender) :
    Legal tc (readAction cfg ts) := by
  refine ⟨pushing_legal ts, ⟨fun req hreq => ?_, fun req hreq _ => ?_⟩⟩
  · cases hreq
  cases mem_singleton.mp hreq
  trivial

/-- A key is read at timestamp 10 and refreshed to 20. -/
theorem refreshes_sound_refreshed : ∃ tc, Reachable step Legal (newRootTxnCoordSender txnAt10) tc ∧
    tc.txn.readTimestamp = ⟨20, 0, false⟩ ∧ tc.live.length = 2 ∧
    AllValidated tc.w.sent tc.live tc.txn.readTimestamp := by
  have hrun : ∃ tc, Reachable step Legal (newRootTxnCoordSender txnAt10) tc ∧
      (decide (tc.txn.readTimestamp = ⟨20, 0, false⟩) && decide (tc.live.length = 2)) = true := by
    apply exists_reachable_of_run [readAction {} ⟨10, 0, false⟩, readAction {} ⟨20, 0, false⟩,
      .manualRefresh (pushing ⟨20, 0, false⟩) {}]
    · exact fun tc => forall_mem_cons.mpr ⟨readAction_legal _ _ tc, forall_mem_cons.mpr
        ⟨readAction_legal _ _ tc, forall_mem_singleton.mpr (pushing_legal _)⟩⟩
    · decide
  obtain ⟨tc, hreach, hend⟩ := hrun
  obtain ⟨hR, hlive⟩ := Bool.and_eq_true_iff.mp hend
  exact ⟨tc, hreach, of_decide_eq_true hR, of_decide_eq_true hlive, (refreshes_sound hreach).1⟩

/-- A rollback restores a footprint that was given up, and the read timestamp moves later. -/
theorem advanced_after_invalid : ∃ tc tc',
    Reachable step Legal (newRootTxnCoordSender txnAt10) tc ∧ tc.w.sr.refreshInvalid = true ∧
    Reachable step Legal tc tc' ∧ tc'.txn.epoch = tc.txn.epoch ∧
    tc.txn.readTimestamp.less tc'.txn.readTimestamp = true := by
  have hfirst : ∀ tc, ∀ a ∈ [.createSavepoint,
      readAction { maxTxnRefreshSpansBytes := 1 } ⟨10, 0, false⟩], Legal tc a := fun tc =>
    forall_mem_cons.mpr ⟨trivial, forall_mem_singleton.mpr (readAction_legal _ _ tc)⟩
  have hsecond : ∀ tc, ∀ a ∈ [.rollbackToSavepoint 0, readAction {} ⟨20, 0, false⟩],
      Legal tc a := fun tc =>
    forall_mem_cons.mpr ⟨trivial, forall_mem_singleton.mpr (readAction_legal _ _ tc)⟩
  have hrun : (run step (newRootTxnCoordSender txnAt10)
      [.createSavepoint, readAction { maxTxnRefreshSpansBytes := 1 } ⟨10, 0, false⟩]).any
        (fun tc => tc.w.sr.refreshInvalid &&
          (run step tc [.rollbackToSavepoint 0, readAction {} ⟨20, 0, false⟩]).any fun tc' =>
            decide (tc'.txn.epoch = tc.txn.epoch) &&
              tc.txn.readTimestamp.less tc'.txn.readTimestamp) = true := by
    decide
  obtain ⟨tc, hreach, hmid⟩ := exists_reachable_of_run _ hfirst _ hrun
  obtain ⟨hinvalid, hrest⟩ := Bool.and_eq_true_iff.mp hmid
  obtain ⟨tc', hreach', hend⟩ := exists_reachable_of_run _ hsecond _ hrest
  obtain ⟨hepoch, hless⟩ := Bool.and_eq_true_iff.mp hend
  exact ⟨tc, tc', hreach, hinvalid, hreach', of_decide_eq_true hepoch, hless⟩

end MeshDB.KvCoord.TxnCoord
