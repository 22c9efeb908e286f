import MeshDB.KvCoord.Chaining

/-!
# Coverage of the transaction's locks

A run of the pipeliner together with the keys that the transaction's locking requests
were evaluated on. A ranged request is evaluated range by range: when the batch returns
an error, it may have been evaluated on some of its ranges.
-/
namespace MeshDB.KvCoord.Pipeliner

open List Roachpb Kvpb Transition BatchRequest

/-- The pipeliner, the keys locked so far, and whether the transaction is committed. -/
structure Tracking where
  st : State := {}
  locked : List Key := []
  committed : Bool := false

/-- A send comes with the keys on which its requests were evaluated. -/
inductive Event where
  | send (cfg : Settings) (ba : BatchRequest) (reply : Except Error BatchResponse)
      (evaluated : List (ℕ × Key))
  | epochBumped
  | rollbackToSavepoint (sp : Savepoint)

namespace Event

def action : Event → Action
  | .send cfg ba reply _ => .send cfg ba reply
  | .epochBumped => .epochBumped
  | .rollbackToSavepoint sp => .rollbackToSavepoint sp

def locks : Event → List Key
  | .send _ _ _ evaluated => evaluated.map Prod.snd
  | .epochBumped => []
  | .rollbackToSavepoint _ => []

def commits (st : State) : Event → Bool
  | .send cfg ba (.ok br) _ => ((Action.send cfg ba (.ok br)).sent st).isSome &&
      br.txn.any fun txn => txn.status = .committed
  | _ => false

/-- The requests were evaluated on keys of theirs, and only those of a batch that was
sent. -/
def Legal (s : Tracking) : Event → Prop
  | .send cfg ba reply evaluated =>
    (Action.send cfg ba reply).Legal s.st ∧
    ∀ p ∈ evaluated, ∃ sent, (Action.send cfg ba reply).sent s.st = some sent ∧
      Evaluated sent p.1 p.2
  | _ => True

/-- No unambiguous error points at a request that was evaluated on some range, and no response
resumes a request at a key that it was evaluated on. -/
def NotDenied : Event → Prop
  | .send _ _ reply evaluated => ∀ p ∈ evaluated, ¬ Denies reply p.1 p.2
  | _ => True

end Event

def trackingStep (s : Tracking) (e : Event) : Option Tracking := do
  let st ← step s.st e.action
  return {
    st := st
    locked := s.locked ++ e.locks
    committed := s.committed || e.commits s.st }

structure Tracking.Inv (s : Tracking) : Prop where
  wf : s.st.Wf
  tracked : s.committed = false → ∀ k ∈ s.locked, Tracked s.st k

lemma inv_init : Tracking.Inv {} where
  wf := State.wf_init
  tracked := fun _ _ hk => absurd hk not_mem_nil

variable {s : Tracking} {ba : BatchRequest} {et : EndTxnRequest} {k : Key} {st : State}

lemma inv_step {s' : Tracking} {e : Event} (hs : s.Inv) (hlegal : e.Legal s)
    (hdenied : e.NotDenied) (h : trackingStep s e = some s') : s'.Inv := by
  obtain ⟨st, hstep, h⟩ := Option.bind_eq_some_iff.mp h
  cases h
  cases e with
  | send cfg ba reply evaluated =>
    obtain ⟨⟨st2, result⟩, hsend, rfl⟩ := Option.map_eq_some_iff.mp hstep
    obtain ⟨hwf, hrest⟩ := sendLocked_spec hs.wf hlegal.1 hsend
    refine ⟨hwf, fun hc k hk => ?_⟩
    obtain ⟨hc1, hc2⟩ := Bool.or_eq_false_iff.mp hc
    rcases hrest with ⟨hmoves, hnone⟩ | ⟨sent, hsent, hcommit | ⟨hmoves, hkeys⟩⟩
    · rcases mem_append.mp hk with hk | hk
      · exact hmoves.tracked (hs.tracked hc1 k hk)
      obtain ⟨p, hp, rfl⟩ := mem_map.mp hk
      obtain ⟨sent, hsent, -⟩ := hlegal.2 p hp
      exact absurd (hnone.symm.trans hsent) (by simp)
    · obtain ⟨br, txn, rfl, htxn, hstatus⟩ := hcommit
      simp [Event.commits, hsent, htxn, hstatus] at hc2
    rcases mem_append.mp hk with hk | hk
    · exact hmoves.tracked (hs.tracked hc1 k hk)
    obtain ⟨p, hp, rfl⟩ := mem_map.mp hk
    obtain ⟨sent', hsent', heval⟩ := hlegal.2 p hp
    rw [Option.some.inj (hsent'.symm.trans hsent)] at heval
    exact hkeys _ _ heval (hdenied p hp)
  | epochBumped =>
    cases hstep
    obtain ⟨hwf, hmoves⟩ := epochBumpedLocked_spec hs.wf
    refine ⟨hwf, fun hc k hk => ?_⟩
    rw [Event.locks, append_nil] at hk
    exact hmoves.tracked (hs.tracked (Bool.or_eq_false_iff.mp hc).1 k hk)
  | rollbackToSavepoint sp =>
    obtain ⟨hwf, hmoves⟩ := rollbackToSavepointLocked_spec hs.wf hstep
    refine ⟨hwf, fun hc k hk => ?_⟩
    rw [Event.locks, append_nil] at hk
    exact hmoves.tracked (hs.tracked (Bool.or_eq_false_iff.mp hc).1 k hk)

/-! ## The locks that leave with an `EndTxn` -/

def CarriesKey (et : EndTxnRequest) (k : Key) : Prop :=
  Covers et.lockSpans k ∨ ∃ w ∈ et.inFlightWrites, w.key = k

def LocksKey (reqs : List Request) (k : Key) : Prop :=
  ∃ req ∈ reqs, req.isLocking ∧ Span.Mem k req.header.span ∧
    (req.isRange = false → k = req.header.key)

lemma attachRequest_spec (et : EndTxnRequest) (req : Request) :
    (∀ sp ∈ (attachRequest et req).lockSpans,
        sp ∈ et.lockSpans ∨ (req.isLocking ∧ sp = req.header.span)) ∧
      (∀ k, CarriesKey et k → CarriesKey (attachRequest et req) k) ∧
      ∀ k, LocksKey [req] k → CarriesKey (attachRequest et req) k := by
  unfold attachRequest
  split_ifs with hlock hpoint
  · refine ⟨fun sp hsp => .inl hsp, fun k hk => ?_, ?_⟩
    · exact hk.imp_right fun ⟨w, hw, hwk⟩ => ⟨w, mem_append_left _ hw, hwk⟩
    rintro k ⟨r, hr, -, -, hkey⟩
    cases mem_singleton.mp hr
    have hrange : req.isRange = false := by simpa using (Bool.and_eq_true_iff.mp hpoint).2
    exact .inr ⟨_, mem_append_right _ mem_cons_self, (hkey hrange).symm⟩
  · refine ⟨fun sp hsp => ?_, fun k hk => ?_, ?_⟩
    · rcases mem_append.mp hsp with hsp | hsp
      · exact .inl hsp
      · exact .inr ⟨hlock, mem_singleton.mp hsp⟩
    · exact hk.imp_left fun hcov => covers_append.mpr (.inl hcov)
    rintro k ⟨r, hr, -, hmem, -⟩
    cases mem_singleton.mp hr
    exact .inl (covers_append.mpr (.inr ⟨_, .head _, hmem⟩))
  · refine ⟨fun sp hsp => .inl hsp, fun k hk => hk, ?_⟩
    rintro k ⟨r, hr, hl, -⟩
    cases mem_singleton.mp hr
    exact absurd hl hlock

lemma attachRequests_spec (reqs : List Request) (et : EndTxnRequest) :
    (∀ sp ∈ (reqs.foldl attachRequest et).lockSpans,
        sp ∈ et.lockSpans ∨ ∃ req ∈ reqs, req.isLocking ∧ sp = req.header.span) ∧
      (∀ k, CarriesKey et k → CarriesKey (reqs.foldl attachRequest et) k) ∧
      ∀ k, LocksKey reqs k → CarriesKey (reqs.foldl attachRequest et) k := by
  induction reqs generalizing et with
  | nil =>
    refine ⟨fun sp hsp => .inl hsp, fun k hk => hk, ?_⟩
    rintro k ⟨r, hr, -⟩
    cases hr
  | cons req reqs ih =>
    obtain ⟨hspans1, hkeep1, hown1⟩ := attachRequest_spec et req
    obtain ⟨hspans, hkeep, hown⟩ := ih (attachRequest et req)
    refine ⟨fun sp hsp => ?_, fun k hk => hkeep k (hkeep1 k hk), ?_⟩
    · rcases hspans sp hsp with hsp | ⟨r, hr, hlock⟩
      · refine (hspans1 sp hsp).imp_right fun hlock => ⟨req, .head _, hlock⟩
      · exact .inr ⟨r, mem_cons_of_mem _ hr, hlock⟩
    rintro k ⟨r, hr, hlock⟩
    rcases mem_cons.mp hr with rfl | hr
    · exact hkeep k (hown1 k ⟨r, .head _, hlock⟩)
    · exact hown k ⟨r, hr, hlock⟩

lemma LocksKey.dropLast (hget : ba.getEndTxn = some et) (h : LocksKey ba.requests k) :
    LocksKey ba.requests.dropLast k := by
  obtain ⟨req, hreq, hlock, hk⟩ := h
  rw [requests_eq_of_getEndTxn hget] at hreq
  rcases mem_append.mp hreq with hreq | hreq
  · exact ⟨req, hreq, hlock, hk⟩
  rw [mem_singleton.mp hreq] at hlock
  cases hlock

lemma CarriesKey.merged (h : CarriesKey et k) (hproper : ∀ sp ∈ et.lockSpans, sp.Proper) :
    CarriesKey { et with
      lockSpans := (mergeSpans et.lockSpans).1
      inFlightWrites := et.inFlightWrites.insertionSort seqLe } k := by
  rcases h with hcov | ⟨w, hw, hk⟩
  · exact .inl (covers_mergeSpans hproper hcov)
  · exact .inr ⟨w, (perm_insertionSort seqLe _).mem_iff.mpr hw, hk⟩

lemma attachLocksToEndTxn_carries {attached : BatchRequest} (hst : st.Wf)
    (hproper : ∀ req ∈ ba.requests, req.isLocking → req.header.span.Proper)
    (h : attachLocksToEndTxn st ba = .ok attached) (hget : attached.getEndTxn = some et) :
    (∀ k, Tracked st k → CarriesKey et k) ∧ ∀ k, LocksKey ba.requests k → CarriesKey et k := by
  unfold attachLocksToEndTxn at h
  split at h
  · rename_i hnone
    cases h
    cases hnone.symm.trans hget
  rename_i et0 hget0
  split_ifs at h
  cases h
  rw [getEndTxn_setEndTxn] at hget
  cases hget
  obtain ⟨hspans, hkeep, hown⟩ := attachRequests_spec ba.requests.dropLast
    { et0 with lockSpans := st.lockFootprint.s, inFlightWrites := st.ifWrites.ascend }
  have hproper' : ∀ sp ∈ (ba.requests.dropLast.foldl attachRequest
      { et0 with lockSpans := st.lockFootprint.s
                 inFlightWrites := st.ifWrites.ascend }).lockSpans, sp.Proper := by
    intro sp hsp
    rcases hspans sp hsp with hsp | ⟨req, hreq, hlock, rfl⟩
    · exact hst.proper sp hsp
    · exact hproper req (mem_of_mem_dropLast hreq) hlock
  refine ⟨fun k hk => (hkeep k ?_).merged hproper', fun k hk => ?_⟩
  · exact hk.symm
  · exact (hown k (hk.dropLast hget0)).merged hproper'

lemma prepare_carries {cfg : Settings} {st1 : State} {sent : BatchRequest} (hst : st.Wf)
    (hproper : ∀ req ∈ ba.requests, req.isLocking → req.header.span.Proper)
    (h : prepare cfg st ba = (st1, .ok sent)) (hget : sent.getEndTxn = some et) :
    (∀ k, Tracked st k → CarriesKey et k) ∧ ∀ k, LocksKey ba.requests k → CarriesKey et k := by
  obtain ⟨-, hsent⟩ := prepare_cases h
  obtain ⟨attached, hattach, rfl⟩ := hsent sent rfl
  rw [getEndTxn, chainToInFlightWrites_getLast] at hget
  exact attachLocksToEndTxn_carries hst hproper hattach hget

/-- A deletion of the keys from `1` up to `5`, which lie on two ranges. -/
def deleteBatch : BatchRequest :=
  { txn := { id := 1 }
    requests := [.op (.deleteRange false false) ⟨[1], some [5], 1⟩] }

/-- The deletion is evaluated on `2`; then the second range returns a `WriteIntentError`. -/
def partialDelete (index : Option ℕ) : Event :=
  .send {} deleteBatch (.error { detail := .writeIntent, index := index }) [(0, [2])]

/-- A reverse scan of the keys from `1` up to `9` and a locking `Get` of `5`, with a limit. -/
def lockingGetBatch : BatchRequest :=
  { txn := { id := 1 }
    maxSpanRequestKeys := 2
    requests := [.op (.reverseScan false) ⟨[1], some [9], 0⟩, .op (.get true) ⟨[5], none, 1⟩] }

/-- The range that starts at `5` completes the `Get`, and the limit is reached there: the scan is
resumed below `5`, and the `Get` at its own key. -/
def resumedGet : Event :=
  .send {} lockingGetBatch
    (.ok { txn := some { id := 1 }
           responses := [.op (some ⟨[1], some [5]⟩) [[7]], .op (some ⟨[5], none⟩) [[5]]] })
    [(1, [5])]

lemma partialDelete_legal (index : Option ℕ) : (partialDelete index).Legal {} := by
  have hsent : ∀ reply, (Action.send {} deleteBatch reply).sent {} = some deleteBatch :=
    fun _ => rfl
  refine ⟨fun sent h => ?_, fun p hp => ⟨deleteBatch, hsent _, ?_⟩⟩
  · cases (hsent _).symm.trans h
    exact ⟨by decide, fun br h => by cases h⟩
  rw [mem_singleton.mp hp]
  refine ⟨_, rfl, rfl, by decide, ?_⟩
  intro h
  cases h

lemma resumedGet_legal : resumedGet.Legal {} := by
  have hsent : ∀ reply, (Action.send {} lockingGetBatch reply).sent {} = some lockingGetBatch :=
    fun _ => rfl
  refine ⟨fun sent h => ?_, fun p hp => ⟨lockingGetBatch, hsent _, ?_⟩⟩
  · cases (hsent _).symm.trans h
    refine ⟨by decide, fun br h p hp => ?_⟩
    cases h
    rcases hp with - | ⟨_, - | ⟨_, ⟨⟩⟩⟩
    · intro h
      cases h
    · intro _
      refine ⟨by decide, fun sp hsp => ?_, fun sp hsp => ?_⟩
      · cases hsp
        exact .inl ⟨rfl, .inl rfl⟩
      · cases hsp
  rw [mem_singleton.mp hp]
  exact ⟨_, rfl, rfl, by decide, fun _ => rfl⟩

lemma not_tracked_init (k : Key) : ¬ Tracked {} k := by
  rintro (⟨w, hw, -⟩ | ⟨sp, hsp, -⟩)
  · cases hw
  · cases hsp

end MeshDB.KvCoord.Pipeliner
