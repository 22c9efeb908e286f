import MeshDB.KvCoord.SpanRefresher

/-!
# Sends with refreshes

What `SendLocked` does with the reads of the transaction: the attempts with their
refreshes, the split of an `EndTxn`, and the recording of the new reads.
-/
namespace MeshDB.KvCoord.SpanRefresher

open Roachpb Kvpb Hlc Timestamp List Option Transaction BatchRequest CondensableSpanSet

/-- `EndTxn` comes last, and the requests have spans that end after their start. -/
structure Regular (ba : BatchRequest) : Prop where
  endTxn : ∀ req ∈ ba.requests.dropLast, ∀ et, req ≠ .endTxn et
  proper : ∀ req ∈ ba.requests, req.needsRefresh → req.header.span.Proper

/-- What a successful send guarantees. -/
structure Replied (w w' : World) (ba : BatchRequest) (br : BatchResponse) (txn : Transaction) :
    Prop where
  hasTxn : br.txn = some txn
  id : txn.id = ba.txn.id
  epoch : txn.epoch = ba.txn.epoch
  advances : Advances w w' ba.txn.readTimestamp txn.readTimestamp
  status : txn.status ≠ .pending → ba.getEndTxn.isSome
  length : br.responses.length = ba.requests.length
  proper : ∀ p ∈ ba.requests.zip br.responses, p.1.needsRefresh →
    ∀ sp ∈ refreshSpans ba.skipLocked p.1 p.2, sp.Proper

/-- What a failed send guarantees. -/
structure Failed (w w' : World) (ba : BatchRequest) (pErr : Error) : Prop where
  id : ∀ txn, pErr.txn = some txn → txn.id = ba.txn.id
  epoch : ∀ txn, pErr.txn = some txn → txn.epoch = ba.txn.epoch
  advances : Advances w w' ba.txn.readTimestamp (replyTs ba (.error pErr))

def NewReads (w w' : World) (ba : BatchRequest) (br : BatchResponse) (txn : Transaction) : Prop :=
  ∃ new, w'.sent = w.sent ++ new ∧ ∀ live, Sound w live ba.txn.readTimestamp →
    AllValidated w'.sent (answered new) txn.readTimestamp ∧
    (txn.status = .pending → w'.sr.refreshInvalid = false → ∀ p ∈ answered new,
      ∀ k, ReadsKey p.1 p.2 k → Covers w'.sr.refreshFootprint.s k ∨ ReadsKey ba br k)

/-- The reads are not yet in the footprint. -/
def AttemptSpec (w : World) (ba : BatchRequest) (r : Result) : Prop :=
  match r.2 with
  | .error pErr => Failed w r.1 ba pErr
  | .ok br => ∃ txn, Replied w r.1 ba br txn ∧ NewReads w r.1 ba br txn

variable {ba : BatchRequest} {br : BatchResponse} {w w' w₁ : World} {r : Result}
  {reply : Except Error BatchResponse} {pErr : Error} {txn txn₁ txn₂ : Transaction} {sr : State}
  {split : World → BatchRequest → Option Result} {ba' : BatchRequest} {k : Key}

lemma readsKey_congr (hreqs : ba'.requests = ba.requests)
    (hskip : ba'.skipLocked = ba.skipLocked) :
    ReadsKey ba' br k ↔ ReadsKey ba br k := by
  unfold ReadsKey
  rw [hreqs, hskip]

lemma AttemptSpec.le (h : AttemptSpec w ba r) :
    Advances w r.1 ba.txn.readTimestamp (replyTs ba r.2) := by
  obtain ⟨w', reply⟩ := r
  cases reply with
  | error pErr => exact h.advances
  | ok br =>
    obtain ⟨txn, hreplied, -⟩ := h
    rw [replyTs_ok hreplied.hasTxn]
    exact hreplied.advances

variable {ts : Timestamp}

lemma AttemptSpec.refreshed (h : AttemptSpec w ba (w', reply))
    (hle : w'.sr.refreshedTimestamp.ord ≤ ts.ord) :
    AttemptSpec w ba ({ w' with sr := { w'.sr with refreshedTimestamp := ts } }, reply) := by
  cases reply with
  | error pErr =>
    exact { h with advances := h.advances.trans (advances_refreshed w' _ hle) }
  | ok br =>
    obtain ⟨txn, hreplied, hreads⟩ := h
    exact ⟨txn, { hreplied with
      advances := hreplied.advances.trans (advances_refreshed w' _ hle) }, hreads⟩

lemma Failed.lift (h : Failed w₁ w' ba' pErr)
    (hadv : Advances w w₁ ba.txn.readTimestamp ba'.txn.readTimestamp)
    (hid : ba'.txn.id = ba.txn.id) (hepoch : ba'.txn.epoch = ba.txn.epoch) :
    Failed w w' ba pErr := by
  refine ⟨fun txn ht => (h.id txn ht).trans hid, fun txn ht => (h.epoch txn ht).trans hepoch, ?_⟩
  have htrans := hadv.trans h.advances
  cases htxn : pErr.txn with
  | none =>
    have hts : replyTs ba (.error pErr) = ba.txn.readTimestamp := by
      simp [replyTs, replyTxn, htxn]
    rw [hts]
    exact htrans.stay
  | some txn =>
    rw [replyTs_error htxn] at htrans ⊢
    exact htrans

lemma AttemptSpec.lift (h : AttemptSpec w₁ ba' r)
    (hadv : Advances w w₁ ba.txn.readTimestamp ba'.txn.readTimestamp)
    (hnone : ∃ new, w₁.sent = w.sent ++ new ∧ ∀ p ∈ answered new, ∀ k, ¬ ReadsKey p.1 p.2 k)
    (hreqs : ba'.requests = ba.requests) (hskip : ba'.skipLocked = ba.skipLocked)
    (hid : ba'.txn.id = ba.txn.id) (hepoch : ba'.txn.epoch = ba.txn.epoch) :
    AttemptSpec w ba r := by
  obtain ⟨w', reply⟩ := r
  cases reply with
  | error pErr => exact Failed.lift h hadv hid hepoch
  | ok br =>
    obtain ⟨txn, hreplied, new2, hnew2, hreads⟩ := h
    obtain ⟨new1, hnew1, hno⟩ := hnone
    refine ⟨txn, ?_, new1 ++ new2, ?_, ?_⟩
    · have hget : ba'.getEndTxn = ba.getEndTxn := by
        rw [getEndTxn, getEndTxn, hreqs]
      exact {
        hasTxn := hreplied.hasTxn
        id := hreplied.id.trans hid
        epoch := hreplied.epoch.trans hepoch
        advances := hadv.trans hreplied.advances
        status := hget ▸ hreplied.status
        length := hreqs ▸ hreplied.length
        proper := hreqs ▸ hskip ▸ hreplied.proper }
    · rw [hnew2, hnew1, append_assoc]
    intro live hlive
    obtain ⟨hvalidated, hcovered⟩ := hreads live (hadv.moves live hlive)
    rw [answered_append]
    refine ⟨fun p hp => ?_, fun hst hinv p hp k hk => ?_⟩
    · rcases mem_append.mp hp with hp | hp
      · exact fun txn' _ k hk => absurd hk (hno p hp k)
      · exact hvalidated p hp
    rcases mem_append.mp hp with hp | hp
    · exact absurd hk (hno p hp k)
    · exact (hcovered hst hinv p hp k hk).imp_right (readsKey_congr hreqs hskip).mp

lemma finishAttempt_spec (h : AttemptSpec w ba r) :
    AttemptSpec w ba (finishAttempt ba r) ∧
      Follows (finishAttempt ba r).1 ba.txn.readTimestamp (replyTs ba (finishAttempt ba r).2) := by
  have hle := h.le.le
  obtain ⟨w', reply⟩ := r
  cases htxn : replyTxn reply with
  | none =>
    simp only [finishAttempt, forwardRefreshTimestampOnResponse, htxn]
    exact ⟨h, .inl (by simp [replyTs, htxn])⟩
  | some txn =>
    rw [replyTs_of_txn htxn] at hle
    by_cases hlt : ba.txn.readTimestamp.less txn.readTimestamp
    · simp only [finishAttempt, forwardRefreshTimestampOnResponse, htxn, hlt, if_true]
      have hforward := @ord_forward w'.sr.refreshedTimestamp txn.readTimestamp
      refine ⟨h.refreshed (hforward ▸ le_max_left _ _), .inr ?_⟩
      rw [replyTs_of_txn htxn]
      exact hforward ▸ le_max_right _ _
    have hnot : txn.readTimestamp.less ba.txn.readTimestamp = false :=
      not_less_iff.mpr hle
    simp only [finishAttempt, forwardRefreshTimestampOnResponse, htxn, hlt, hnot,
      Bool.false_eq_true, if_false]
    refine ⟨h, .inl ?_⟩
    rw [replyTs_of_txn htxn]
    exact le_antisymm (not_less_iff.mp (Bool.not_eq_true _ ▸ hlt)) hle

/-! ## Attempts -/

lemma convertWriteTooOld_error
    (h : convertWriteTooOld reply = some (.error pErr)) (ba : BatchRequest) :
    replyTs ba (.error pErr) = replyTs ba reply ∧ answered [(ba, reply)] = [] ∧
      ∀ txn, pErr.txn = some txn → ∃ txn0, replyTxn reply = some txn0 ∧
        txn.id = txn0.id ∧ txn.epoch = txn0.epoch := by
  cases reply with
  | error pErr0 =>
    cases h
    cases htxn : pErr0.txn with
    | none => simp [replyTs, replyTxn, answered, htxn]
    | some txn0 =>
      refine ⟨by simp [replyTs, replyTxn, htxn], rfl, fun txn ht => ⟨txn0, htxn, ?_⟩⟩
      simp only [map_some, Option.some.injEq] at ht
      rw [← ht]
      exact ⟨rfl, rfl⟩
  | ok br =>
    obtain ⟨txn0, htxn, h⟩ := bind_eq_some_iff.mp h
    split_ifs at h with hold
    · cases h
      refine ⟨by simp [replyTs, replyTxn, htxn], by simp [answered, htxn, hold], ?_⟩
      intro txn ht
      cases ht
      exact ⟨txn0, htxn, rfl, rfl⟩
    · cases h

lemma convertWriteTooOld_ok (h : convertWriteTooOld reply = some (.ok br)) :
    reply = .ok br ∧ ∃ txn, br.txn = some txn := by
  cases reply with
  | error pErr => cases h
  | ok br0 =>
    obtain ⟨txn, htxn, h⟩ := bind_eq_some_iff.mp h
    split_ifs at h
    · cases h
    cases h
    exact ⟨rfl, txn, htxn⟩

variable {wrapped : Wrapped}

lemma attemptSpec_ok (hwrapped : wrapped.Legal) (hflag : FlagOk w ba) (hregular : Regular ba)
    (hreply : (send wrapped w ba).2 = .ok br) (htxn : br.txn = some txn) :
    AttemptSpec w ba ((send wrapped w ba).1, .ok br) := by
  have hlegal := hwrapped w.sent ba
  have hreply' : wrapped w.sent ba = .ok br := hreply
  have hreplyTxn : replyTxn (wrapped w.sent ba) = some txn := by
    rw [hreply']
    exact htxn
  have hadv := advances_send hwrapped hflag
  rw [hreply, replyTs_ok htxn] at hadv
  refine ⟨txn, ⟨htxn, hlegal.id txn hreplyTxn, hlegal.epoch txn hreplyTxn, hadv,
    hlegal.status br txn hreply' htxn, hlegal.length br hreply', fun p hp hneeds => ?_⟩,
    [(ba, .ok br)], ?_, fun live _ => ?_⟩
  · exact hlegal.proper br hreply' p hp hneeds (hregular.proper p.1 (of_mem_zip hp).1 hneeds)
  · rw [← hreply']
    rfl
  have hmem : ∀ p ∈ answered [(ba, .ok br)], p = (ba, br) := by
    intro p hp
    obtain ⟨ex, hex, hp⟩ := mem_filterMap.mp hp
    rw [mem_singleton.mp hex] at hp
    dsimp only at hp
    split_ifs at hp
    exact (Option.some.inj hp).symm
  refine ⟨fun p hp txn' htxn' k _ => .read ?_, fun _ _ p hp k hk => .inr ?_⟩
  · rw [hmem p hp, htxn] at htxn'
    rw [Option.some.inj htxn']
  rw [hmem p hp] at hk
  exact hk

lemma sendAttempt_spec (hwrapped : wrapped.Legal) {recover : World → Error → Option Result}
    (hflag : FlagOk w ba) (hregular : Regular ba)
    (hrecover : ∀ w₁ pErr r1, Failed w w₁ ba pErr → SameFootprint w w₁ →
      recover w₁ pErr = some r1 → AttemptSpec w ba r1)
    (h : sendAttempt wrapped recover w ba = some r) :
    AttemptSpec w ba r ∧ Follows r.1 ba.txn.readTimestamp (replyTs ba r.2) := by
  unfold sendAttempt at h
  split_ifs at h
  obtain ⟨reply, hconvert, h⟩ := bind_eq_some_iff.mp h
  cases reply with
  | ok br =>
    cases h
    obtain ⟨hreply, txn, htxn⟩ := convertWriteTooOld_ok hconvert
    exact finishAttempt_spec (attemptSpec_ok hwrapped hflag hregular hreply htxn)
  | error pErr =>
    obtain ⟨r1, hr1, rfl⟩ := map_eq_some_iff.mp h
    obtain ⟨hts, hnone, htxn⟩ := convertWriteTooOld_error hconvert ba
    apply finishAttempt_spec
    refine hrecover (send wrapped w ba).1 pErr r1 ⟨?_, ?_, ?_⟩ ⟨rfl, rfl, _, rfl, ?_⟩ hr1
    · intro txn ht
      obtain ⟨txn0, ht0, hid, -⟩ := htxn txn ht
      exact hid.trans ((hwrapped w.sent ba).id txn0 ht0)
    · intro txn ht
      obtain ⟨txn0, ht0, -, hepoch⟩ := htxn txn ht
      exact hepoch.trans ((hwrapped w.sent ba).epoch txn0 ht0)
    · rw [hts]
      exact advances_send hwrapped hflag
    · intro p hp
      rw [hnone] at hp
      cases hp

lemma refreshForError_spec {fromTs : Timestamp}
    {toTxn : Transaction} (h : refreshForError sr pErr = some (fromTs, toTxn)) :
    ∃ txn, pErr.txn = some txn ∧ fromTs = txn.readTimestamp ∧ toTxn.id = txn.id ∧
      toTxn.epoch = txn.epoch ∧ txn.readTimestamp.ord ≤ toTxn.readTimestamp.ord := by
  obtain ⟨txn, htxn, h⟩ := bind_eq_some_iff.mp h
  split_ifs at h
  obtain ⟨ts, -, heq⟩ := map_eq_some_iff.mp h
  cases heq
  refine ⟨txn, htxn, rfl, rfl, rfl, ?_⟩
  rw [refresh, ord_forward]
  exact le_max_left _ _

lemma updateTxn_spec {ba ba' : BatchRequest} {o : Transaction} (hid : o.id = ba.txn.id)
    (hepoch : o.epoch = ba.txn.epoch) (hle : ba.txn.readTimestamp.ord ≤ o.readTimestamp.ord)
    (h : updateTxn ba o = some ba') :
    (∃ txn, ba' = { ba with txn := txn }) ∧ ba'.txn.id = ba.txn.id ∧
      ba'.txn.epoch = ba.txn.epoch ∧ ba'.txn.readTimestamp.ord = o.readTimestamp.ord := by
  obtain ⟨txn, htxn, rfl⟩ := map_eq_some_iff.mp h
  obtain ⟨u, hu, hupdated⟩ := update_spec hid hepoch
  cases hu.symm.trans htxn
  refine ⟨⟨_, rfl⟩, hupdated.id, hupdated.epoch, ?_⟩
  rw [hupdated.read, ord_forward]
  exact max_eq_right hle

def Sends (f : World → BatchRequest → Option Result) : Prop :=
  ∀ w ba r, FlagOk w ba → Regular ba → f w ba = some r → AttemptSpec w ba r

lemma maybeRefreshAndRetrySend_spec
    {retry : World → BatchRequest → Option Result} (hretry : Sends retry) (hsplit : Sends split)
    (hflag : FlagOk w ba) (hregular : Regular ba) (hfailed : Failed w w₁ ba pErr)
    (hsame : SameFootprint w w₁)
    (h : maybeRefreshAndRetrySend wrapped retry split w₁ ba pErr = some r) :
    AttemptSpec w ba r := by
  unfold maybeRefreshAndRetrySend at h
  cases hrefresh : refreshForError w₁.sr pErr with
  | none =>
    simp only [hrefresh] at h
    cases h
    exact hfailed
  | some target =>
    obtain ⟨fromTs, toTxn⟩ := target
    simp only [hrefresh] at h
    obtain ⟨txn, htxn, rfl, hid, hepoch, hle⟩ := refreshForError_spec hrefresh
    have hadv1 : Advances w w₁ ba.txn.readTimestamp txn.readTimestamp := by
      have hadv := hfailed.advances
      rw [replyTs_error htxn] at hadv
      exact hadv
    obtain ⟨w₂, err, htry⟩ : ∃ w₂ err, tryRefreshTxnSpans wrapped w₁ txn.readTimestamp toTxn =
      (w₂, err) := ⟨_, _, rfl⟩
    obtain ⟨hsame2, hstay, hmoved⟩ := tryRefreshTxnSpans_spec rfl hle htry
    rw [htry] at h
    cases err with
    | some err =>
      cases h
      refine ⟨hfailed.id, hfailed.epoch, ?_⟩
      rw [replyTs_error htxn]
      exact hadv1.trans hstay
    | none =>
      obtain ⟨ba', hba', h⟩ := bind_eq_some_iff.mp h
      obtain ⟨⟨txn', rfl⟩, hid', hepoch', hR⟩ := updateTxn_spec (hid.trans (hfailed.id txn htxn))
        (hepoch.trans (hfailed.epoch txn htxn)) (hadv1.le.trans hle) hba'
      have hflag' : FlagOk w₂ { ba with txn := txn' } := by
        intro hcan
        rw [hsame2.invalid, hsame2.footprint, hsame.invalid, hsame.footprint]
        exact hflag hcan
      have hspec : AttemptSpec w₂ { ba with txn := txn' } r := by
        split_ifs at h
        · exact hsplit w₂ _ r hflag' ⟨hregular.endTxn, hregular.proper⟩ h
        · exact hretry w₂ _ r hflag' ⟨hregular.endTxn, hregular.proper⟩ h
      refine hspec.lift ((hadv1.trans (hmoved rfl).1).congr hR.symm) ?_ rfl rfl hid' hepoch'
      obtain ⟨new1, hnew1, hno1⟩ := hsame.reads
      obtain ⟨new2, hnew2, hno2⟩ := hsame2.reads
      refine ⟨new1 ++ new2, by rw [hnew2, hnew1, append_assoc], fun p hp => ?_⟩
      rw [answered_append] at hp
      exact (mem_append.mp hp).elim (hno1 p) (hno2 p)

lemma sendLockedWithRefreshAttempts_spec (hwrapped : wrapped.Legal) (hsplit : Sends split) (n : ℕ)
    (hflag : FlagOk w ba) (hregular : Regular ba)
    (h : sendLockedWithRefreshAttempts wrapped split n w ba = some r) :
    AttemptSpec w ba r ∧ Follows r.1 ba.txn.readTimestamp (replyTs ba r.2) := by
  induction n generalizing w ba r with
  | zero =>
    refine sendAttempt_spec hwrapped hflag hregular (fun w₁ pErr r1 hfailed _ hr1 => ?_) h
    cases hr1
    exact hfailed
  | succ n ih =>
    refine sendAttempt_spec hwrapped hflag hregular (fun w₁ pErr r1 hfailed hsame hr1 => ?_) h
    exact maybeRefreshAndRetrySend_spec (fun w ba r hf hr hs => (ih hf hr hs).1) hsplit hflag
      hregular hfailed hsame hr1

/-! ## Recording the reads -/

variable {skipLocked : Bool}

lemma covers_refreshSpans {req : Request} {resp : Response}
    (h : if skipLocked && req.canSkipLocked then k ∈ resp.keys
      else ∃ sp ∈ actualSpan req (some resp), Span.Mem k sp) :
    Covers (refreshSpans skipLocked req resp) k := by
  unfold refreshSpans
  split_ifs at h ⊢
  · exact ⟨⟨k, none⟩, mem_map_of_mem h, (Span.mem_of_isPoint rfl).mpr rfl⟩
  obtain ⟨sp, hsp, hk⟩ := h
  exact ⟨sp, mem_toList.mpr hsp, hk⟩

variable {spans : List Span}

lemma refreshSpanIterate_spec {reqs : List Request} {resps : List Response}
    (h : refreshSpanIterate skipLocked reqs resps = some spans) :
    (∀ (i : ℕ) req resp, reqs[i]? = some req → resps[i]? = some resp →
      req.needsRefresh → ∀ k, Covers (refreshSpans skipLocked req resp) k → Covers spans k) ∧
    ((∀ p ∈ reqs.zip resps, p.1.needsRefresh →
        ∀ sp ∈ refreshSpans skipLocked p.1 p.2, sp.Proper) → ∀ sp ∈ spans, sp.Proper) := by
  induction reqs generalizing resps spans with
  | nil =>
    cases h
    refine ⟨fun i req resp hreq => ?_, fun _ sp hsp => by cases hsp⟩
    cases hreq
  | cons req reqs ih =>
    unfold refreshSpanIterate at h
    split_ifs at h with hneeds
    · obtain ⟨hcovers, hproper⟩ := ih h
      refine ⟨fun i r resp hr hresp hn k hk => ?_, fun hlegal => hproper fun p hp => ?_⟩
      · cases i with
        | zero =>
          cases hr
          simp [hn] at hneeds
        | succ i =>
          rw [← List.getElem?_tail] at hresp
          exact hcovers i r resp hr hresp hn k hk
      · cases resps with
        | nil => simp at hp
        | cons resp resps => exact hlegal p (.tail _ hp)
    cases resps with
    | nil => cases h
    | cons resp resps =>
      obtain ⟨rest, hrest, rfl⟩ := map_eq_some_iff.mp h
      obtain ⟨hcovers, hproper⟩ := ih hrest
      refine ⟨fun i r resp' hr hresp hn k hk => ?_, fun hlegal sp hsp => ?_⟩
      · cases i with
        | zero =>
          cases hr
          cases hresp
          exact covers_append.mpr (.inl hk)
        | succ i => exact covers_append.mpr (.inr (hcovers i r resp' hr hresp hn k hk))
      rcases mem_append.mp hsp with hsp | hsp
      · exact hlegal (req, resp) (.head _) (by simpa using hneeds) sp hsp
      · exact hproper (fun p hp => hlegal p (.tail _ hp)) sp hsp

variable {cfg : Settings} {sr' : State}

lemma maybeCondenseRefreshSpans_spec
    (h : maybeCondenseRefreshSpans cfg sr = some sr') :
    sr'.refreshedTimestamp = sr.refreshedTimestamp ∧
      ((sr'.refreshInvalid = sr.refreshInvalid ∧ Retains sr.refreshFootprint sr'.refreshFootprint) ∨
        (sr'.refreshInvalid ∧ sr'.refreshFootprint.s = [])) := by
  unfold maybeCondenseRefreshSpans at h
  split_ifs at h
  · cases h
    exact ⟨rfl, .inl ⟨rfl, Retains.refl _⟩⟩
  obtain ⟨⟨footprint, condensed⟩, hcondense, rfl⟩ := map_eq_some_iff.mp h
  dsimp only
  split_ifs
  · exact ⟨rfl, .inl ⟨rfl, retains_maybeCondense hcondense⟩⟩
  · exact ⟨rfl, .inr ⟨rfl, rfl⟩⟩

lemma insertRefreshSpans_sound {cfg : Settings} {w : World} {sr' : State} {spans : List Span}
    (h : insertRefreshSpans cfg w.sr spans = some sr') (hspans : ∀ sp ∈ spans, sp.Proper)
    {live reads : List Read} {R : Timestamp} (hlive : Sound w live R)
    (hreads : AllValidated w.sent reads R)
    (hcov : w.sr.refreshInvalid = false → ∀ p ∈ reads, ∀ k, ReadsKey p.1 p.2 k →
      Covers w.sr.refreshFootprint.s k ∨ Covers spans k) :
    Sound { w with sr := sr' } (live ++ reads) R := by
  have hvalidated : AllValidated w.sent (live ++ reads) R := by
    intro p hp
    exact (mem_append.mp hp).elim (hlive.validated p) (hreads p)
  unfold insertRefreshSpans at h
  split_ifs at h with hinvalid
  · cases h
    refine ⟨hvalidated, fun hvalid => ?_, hlive.invalid, hlive.proper⟩
    rw [hinvalid] at hvalid
    cases hvalid
  have hvalid : w.sr.refreshInvalid = false := by simpa using hinvalid
  have hproper := proper_insertSpans hlive.proper hspans
  obtain ⟨-, ⟨hinv, hretains⟩ | ⟨hinv, hnil⟩⟩ := maybeCondenseRefreshSpans_spec h
  · refine ⟨hvalidated, fun _ p hp k hk => ?_, fun h => ?_, hretains.proper hproper⟩
    · apply hretains.covers hproper k
      apply covers_insertSpans.mpr
      rcases mem_append.mp hp with hp | hp
      · exact .inl (hlive.covered hvalid p hp k hk)
      · exact hcov hvalid p hp k hk
    · rw [hinv.trans hvalid] at h
      cases h
  · refine ⟨hvalidated, fun h => ?_, fun _ => hnil, fun sp hsp => ?_⟩
    · simp [hinv] at h
    · simp [hnil] at hsp

lemma insertRefreshSpans_advances
    (h : insertRefreshSpans cfg w.sr spans = some sr')
    (hspans : ∀ sp ∈ spans, sp.Proper) (R : Timestamp) :
    Advances w { w with sr := sr' } R R ∧ sr'.refreshedTimestamp = w.sr.refreshedTimestamp := by
  have hrefreshed : sr'.refreshedTimestamp = w.sr.refreshedTimestamp := by
    unfold insertRefreshSpans at h
    split_ifs at h
    · cases h
      rfl
    · exact (maybeCondenseRefreshSpans_spec h).1
  have hkeeps : ∀ live R₀, Sound w live R₀ → Sound { w with sr := sr' } live R₀ := by
    intro live R₀ hlive
    have hsound := @insertRefreshSpans_sound cfg w sr' spans h hspans live [] R₀ hlive
      (fun p hp => by cases hp) (fun _ p hp => by cases hp)
    rw [append_nil] at hsound
    exact hsound
  refine ⟨⟨le_rfl, hkeeps, fun live => hkeeps live R, hrefreshed ▸ le_rfl, fun hinv => ?_,
    [], (append_nil _).symm⟩, hrefreshed⟩
  unfold insertRefreshSpans at h
  rw [if_pos hinv] at h
  cases h
  exact ⟨hinv, rfl⟩

def RecordedReads (w w' : World) (ba : BatchRequest) (txn : Transaction) : Prop :=
  ∃ new, w'.sent = w.sent ++ new ∧ ∀ live, Sound w live ba.txn.readTimestamp →
    AllValidated w'.sent (answered new) txn.readTimestamp ∧
    (txn.status = .pending → Sound w' (live ++ answered new) txn.readTimestamp)

/-- The reads are in the footprint. -/
def SendSpec (w : World) (ba : BatchRequest) (r : Result) : Prop :=
  (match r.2 with
  | .error pErr => Failed w r.1 ba pErr
  | .ok br => ∃ txn, Replied w r.1 ba br txn ∧ RecordedReads w r.1 ba txn) ∧
    Follows r.1 ba.txn.readTimestamp (replyTs ba r.2)

variable {err : Error}

lemma assertRefreshSpans_txn
    (h : assertRefreshSpansAtInvalidTimestamp sr ts = some err) : err.txn = none := by
  unfold assertRefreshSpansAtInvalidTimestamp at h
  split_ifs at h
  cases h
  rfl

lemma failed_without_txn {R' : Timestamp}
    (h : Advances w w' ba.txn.readTimestamp R') (hnone : err.txn = none) :
    SendSpec w ba (w', .error err) := by
  have hts : replyTs ba (.error err) = ba.txn.readTimestamp := by
    simp [replyTs, replyTxn, hnone]
  refine ⟨⟨fun txn ht => ?_, fun txn ht => ?_, hts ▸ h.stay⟩, .inl (congrArg _ hts)⟩
  · cases hnone.symm.trans ht
  · cases hnone.symm.trans ht

lemma recordResponse_spec (hspec : AttemptSpec w ba (w₁, .ok br))
    (hfollows : Follows w₁ ba.txn.readTimestamp (replyTs ba (.ok br)))
    (h : recordResponse cfg w₁ ba br = some r) : SendSpec w ba r := by
  obtain ⟨txn, hreplied, new, hnew, hreads⟩ := hspec
  obtain ⟨txn', htxn', h⟩ := bind_eq_some_iff.mp h
  cases hreplied.hasTxn.symm.trans htxn'
  split_ifs at h with hstatus
  · cases h
    refine ⟨⟨txn, hreplied, new, hnew, fun live hlive => ⟨(hreads live hlive).1, ?_⟩⟩, hfollows⟩
    exact fun hpending => absurd hpending hstatus
  have hpending : txn.status = .pending := not_not.mp hstatus
  split at h
  · rename_i err hassert
    cases h
    exact failed_without_txn hreplied.advances (assertRefreshSpans_txn hassert)
  obtain ⟨spans, hspans, h⟩ := bind_eq_some_iff.mp h
  obtain ⟨sr', hinsert, h⟩ := bind_eq_some_iff.mp h
  cases h
  obtain ⟨hcovers, hproper⟩ := refreshSpanIterate_spec hspans
  have hproper := hproper hreplied.proper
  obtain ⟨hadv, hrefreshed⟩ := insertRefreshSpans_advances hinsert hproper txn.readTimestamp
  refine ⟨⟨txn, { hreplied with advances := hreplied.advances.trans hadv }, new, hnew, ?_⟩, ?_⟩
  · intro live hlive
    obtain ⟨hvalidated, hcov⟩ := hreads live hlive
    refine ⟨hvalidated, fun _ => ?_⟩
    apply insertRefreshSpans_sound hinsert hproper (hreplied.advances.moves live hlive)
      hvalidated
    intro hvalid p hp k hk
    refine (hcov hpending hvalid p hp k hk).imp_right ?_
    rintro ⟨i, req, resp, hreq, hresp, hneeds, hread⟩
    exact hcovers i req resp hreq hresp hneeds k (covers_refreshSpans hread)
  · exact hfollows.imp_right fun hle => hrefreshed ▸ hle

/-! ## `SendLocked` -/

lemma maybeRefreshPreemptivelyLocked_spec {force : Bool} {r : Except Error BatchRequest}
    (h : maybeRefreshPreemptivelyLocked wrapped w ba force = some (w', r)) :
    SameFootprint w w' ∧
      match r with
      | .error pErr => Failed w w' ba pErr ∧ replyTs ba (.error pErr) = ba.txn.readTimestamp
      | .ok ba' => (∃ txn, ba' = { ba with txn := txn }) ∧ ba'.txn.id = ba.txn.id ∧
          ba'.txn.epoch = ba.txn.epoch ∧
          Advances w w' ba.txn.readTimestamp ba'.txn.readTimestamp ∧
          Follows w' ba.txn.readTimestamp ba'.txn.readTimestamp := by
  have hsame : SameFootprint w w ∧ (∃ txn, ba = { ba with txn := txn }) ∧
      ba.txn.id = ba.txn.id ∧ ba.txn.epoch = ba.txn.epoch ∧
      Advances w w ba.txn.readTimestamp ba.txn.readTimestamp ∧
      Follows w ba.txn.readTimestamp ba.txn.readTimestamp :=
    ⟨.refl w, ⟨ba.txn, rfl⟩, rfl, rfl, .refl _ _, .inl rfl⟩
  have hfail : ∀ w', Advances w w' ba.txn.readTimestamp ba.txn.readTimestamp →
      Failed w w' ba (newRetryErrorOnFailedPreemptiveRefresh ba.txn) ∧
        replyTs ba (.error (newRetryErrorOnFailedPreemptiveRefresh ba.txn)) =
          ba.txn.readTimestamp := by
    intro w' hadv
    refine ⟨⟨fun txn ht => ?_, fun txn ht => ?_, hadv⟩, rfl⟩
    · cases ht
      rfl
    cases ht
    rfl
  unfold maybeRefreshPreemptivelyLocked at h
  split_ifs at h
  · cases h
    exact hsame
  · cases h
    exact hsame
  · cases h
    exact ⟨.refl w, hfail w (.refl _ _)⟩
  obtain ⟨w₁, err, htry⟩ : ∃ w₁ err, tryRefreshTxnSpans wrapped w ba.txn.readTimestamp
    (ba.txn.refresh ba.txn.writeTimestamp) = (w₁, err) := ⟨_, _, rfl⟩
  have hle : ba.txn.readTimestamp.ord ≤
      (ba.txn.refresh ba.txn.writeTimestamp).readTimestamp.ord := by
    rw [refresh, ord_forward]
    exact le_max_left _ _
  obtain ⟨hsame1, hstay, hmoved⟩ := tryRefreshTxnSpans_spec rfl hle htry
  simp only [htry] at h
  cases err with
  | some err =>
    cases h
    exact ⟨hsame1, hfail _ hstay⟩
  | none =>
    obtain ⟨ba', hba', heq⟩ := map_eq_some_iff.mp h
    cases heq
    obtain ⟨htxn, hid, hepoch, hR⟩ :=
      updateTxn_spec (o := ba.txn.refresh ba.txn.writeTimestamp) rfl rfl hle hba'
    refine ⟨hsame1, htxn, hid, hepoch, (hmoved rfl).1.congr hR.symm, ?_⟩
    exact (hmoved rfl).2.imp (fun heq => hR.trans heq) fun hle => hR.trans_le hle

lemma sendLockedWith_spec (hwrapped : wrapped.Legal) (hsplit : Sends split) (hregular : Regular ba)
    (h : sendLockedWith cfg wrapped split w ba = some r) : SendSpec w ba r := by
  obtain ⟨⟨w₁, r1⟩, hpre, h⟩ := bind_eq_some_iff.mp h
  obtain ⟨hsame, hrest⟩ := maybeRefreshPreemptivelyLocked_spec hpre
  cases r1 with
  | error pErr =>
    cases h
    obtain ⟨hfailed, hts⟩ := hrest
    exact ⟨{ hfailed with }, .inl (congrArg _ hts)⟩
  | ok ba1 =>
    obtain ⟨⟨txn₁, rfl⟩, hid, hepoch, hadv, hfollows⟩ := hrest
    obtain ⟨⟨w₂, r2⟩, hattempts, h⟩ := bind_eq_some_iff.mp h
    have hflag : FlagOk w₁ { ba with
        canForwardReadTimestamp := canForwardReadTimestampWithoutRefresh w.sr ba.txn
        txn := txn₁ } := by
      intro hcan
      rw [hsame.invalid, hsame.footprint]
      have hcan : canForwardReadTimestampWithoutRefresh w.sr ba.txn := hcan
      obtain ⟨hcan, hempty⟩ := Bool.and_eq_true_iff.mp hcan
      obtain ⟨-, hvalid⟩ := Bool.and_eq_true_iff.mp hcan
      exact ⟨by simpa using hvalid, empty_iff.mp hempty⟩
    obtain ⟨hspec, hfollows2⟩ :=
      sendLockedWithRefreshAttempts_spec hwrapped hsplit _ hflag
        ⟨hregular.endTxn, hregular.proper⟩ hattempts
    have hmono := hspec.le.refreshed
    have hspec : AttemptSpec w ba (w₂, r2) :=
      hspec.lift hadv hsame.reads rfl rfl hid hepoch
    have htotal : Follows w₂ ba.txn.readTimestamp (replyTs ba r2) := by
      cases htxn : replyTxn r2 with
      | none => exact .inl (by simp [replyTs, htxn])
      | some txn =>
        rw [replyTs_of_txn htxn] at hfollows2 ⊢
        exact hfollows.trans hfollows2 hmono
    cases r2 with
    | error pErr =>
      cases h
      exact ⟨hspec, htotal⟩
    | ok br => exact recordResponse_spec hspec htotal h

variable {br₁ br₂ : BatchResponse}

lemma combine_spec
    (htxn1 : br₁.txn = some txn₁) (htxn2 : br₂.txn = some txn₂) (hid : txn₂.id = txn₁.id)
    (hepoch : txn₂.epoch = txn₁.epoch) (h : combine br₁ br₂ = some br) :
    br.responses = br₁.responses ++ br₂.responses ∧
      ∃ txn, br.txn = some txn ∧ txn.id = txn₁.id ∧ txn.epoch = txn₁.epoch ∧
        txn.readTimestamp.ord = max txn₁.readTimestamp.ord txn₂.readTimestamp.ord ∧
        txn.status = updateStatus txn₁ txn₂ := by
  unfold combine at h
  rw [htxn1, htxn2] at h
  obtain ⟨txn, htxn, rfl⟩ := map_eq_some_iff.mp h
  obtain ⟨u, hu, hupdated⟩ := update_spec hid hepoch
  cases hu.symm.trans htxn
  refine ⟨rfl, txn, rfl, hupdated.id, hupdated.epoch, ?_, hupdated.status⟩
  rw [hupdated.read, ord_forward]

lemma requests_split (ba : BatchRequest) :
    ba.requests = ba.requests.dropLast ++ ba.requests.getLast?.toList := by
  rcases eq_nil_or_concat' ba.requests with hnil | ⟨front, last, heq⟩
  · rw [hnil]
    rfl
  rw [heq, dropLast_concat, getLast?_concat]
  rfl

lemma Regular.front (h : Regular ba) :
    Regular { ba with requests := ba.requests.dropLast } ∧
      getEndTxn { ba with requests := ba.requests.dropLast } = none := by
  constructor
  · exact ⟨fun req hreq => h.endTxn req (mem_of_mem_dropLast hreq),
      fun req hreq => h.proper req (mem_of_mem_dropLast hreq)⟩
  unfold getEndTxn
  split
  · rename_i et hlast
    exact absurd rfl (h.endTxn _ (mem_of_getLast? hlast) et)
  · rfl

lemma Regular.pending (h : Regular ba)
    (hreplied : Replied w w₁ { ba with requests := ba.requests.dropLast } br₁ txn₁) :
    txn₁.status = .pending := by
  by_contra hne
  have hsome := hreplied.status hne
  rw [h.front.2] at hsome
  cases hsome

lemma Regular.last (h : Regular ba) (txn : Transaction) :
    Regular { ba with requests := ba.requests.getLast?.toList, txn := txn } where
  endTxn := by
    intro req hreq
    cases hlast : ba.requests.getLast? with
    | none => simp [hlast] at hreq
    | some last => simp [hlast] at hreq
  proper := by
    intro req hreq
    exact h.proper req (mem_of_getLast? (mem_toList.mp hreq))

variable {txn : Transaction}

lemma getEndTxn_last
    (h : getEndTxn { ba with requests := ba.requests.getLast?.toList, txn := txn } |>.isSome) :
    ba.getEndTxn.isSome := by
  unfold getEndTxn at h ⊢
  cases hlast : ba.requests.getLast? with
  | none => simp [hlast] at h
  | some last => simpa [hlast] using h

variable {w₂ : World}

lemma replied_split {br : BatchResponse} {txn₁ txn₂ txn' : Transaction} (hregular : Regular ba)
    (h1 : Replied w w₁ { ba with requests := ba.requests.dropLast } br₁ txn₁)
    (h2 : Replied w₁ w₂ { ba with requests := ba.requests.getLast?.toList, txn := txn' } br₂ txn₂)
    (hR : txn'.readTimestamp.ord = txn₁.readTimestamp.ord) (hid : txn.id = txn₁.id)
    (hepoch : txn.epoch = txn₁.epoch)
    (hread : txn.readTimestamp.ord = max txn₁.readTimestamp.ord txn₂.readTimestamp.ord)
    (hstatus : txn.status = updateStatus txn₁ txn₂) (htxn : br.txn = some txn)
    (hresponses : br.responses = br₁.responses ++ br₂.responses) : Replied w w₂ ba br txn where
  hasTxn := htxn
  id := hid.trans h1.id
  epoch := hepoch.trans h1.epoch
  advances := by
    have hle : txn₁.readTimestamp.ord ≤ txn₂.readTimestamp.ord := hR ▸ h2.advances.le
    have hadv := (h1.advances.congr hR.symm).trans h2.advances
    exact hadv.congr (hread.trans (max_eq_right hle)).symm
  status := by
    intro hne
    apply getEndTxn_last (h2.status ?_)
    intro hpending
    apply hne
    rw [hstatus, updateStatus, hregular.pending h1]
    exact hpending
  length := by
    rw [hresponses, length_append, h1.length, h2.length]
    conv_rhs => rw [requests_split ba, length_append]
  proper := by
    rw [hresponses]
    conv => rw [requests_split ba]
    rw [zip_append h1.length.symm]
    intro p hp
    exact (mem_append.mp hp).elim (h1.proper p) (h2.proper p)

lemma newReads_split {ba1 ba2 : BatchRequest} (htxn1 : ba1.txn = ba.txn)
    (hpending : txn₁.status = .pending) (h1 : RecordedReads w w₁ ba1 txn₁)
    (h2 : RecordedReads w₁ w₂ ba2 txn₂)
    (hadv2 : Advances w₁ w₂ ba2.txn.readTimestamp txn₂.readTimestamp)
    (hR : ba2.txn.readTimestamp.ord = txn₁.readTimestamp.ord)
    (hread : txn.readTimestamp.ord = txn₂.readTimestamp.ord)
    (hstatus : txn.status = .pending → txn₂.status = .pending) :
    NewReads w w₂ ba br txn := by
  obtain ⟨new1, hnew1, hreads1⟩ := h1
  obtain ⟨new2, hnew2, hreads2⟩ := h2
  refine ⟨new1 ++ new2, by rw [hnew2, hnew1, append_assoc], fun live hlive => ?_⟩
  rw [answered_append]
  have hsound1 := ((hreads1 live (htxn1 ▸ hlive)).2 hpending).congr hR.symm
  have hsound2 := hadv2.moves _ hsound1
  obtain ⟨hvalidated2, hrecorded2⟩ := hreads2 _ hsound1
  constructor
  · intro p hp txn' htxn' k hk
    refine Validated.congr ?_ hread.symm
    rcases mem_append.mp hp with hp | hp
    · exact hsound2.validated p (mem_append_right _ hp) txn' htxn' k hk
    · exact hvalidated2 p hp txn' htxn' k hk
  intro hst hvalid p hp k hk
  have hall := hrecorded2 (hstatus hst)
  rw [append_assoc] at hall
  exact .inl (hall.covered hvalid p (mem_append_right _ hp) k hk)

lemma splitEndTxnAndRetrySend_spec {f : World → BatchRequest → Option Result}
    (hf : ∀ w ba r, Regular ba → f w ba = some r → SendSpec w ba r) :
    Sends (splitEndTxnAndRetrySend f) := by
  intro w ba r _ hregular h
  obtain ⟨⟨w₁, r1⟩, hfront, h⟩ := bind_eq_some_iff.mp h
  obtain ⟨hspec1, -⟩ := hf _ _ _ hregular.front.1 hfront
  cases r1 with
  | error pErr =>
    cases h
    exact ⟨hspec1.id, hspec1.epoch, hspec1.advances⟩
  | ok br₁ =>
    obtain ⟨txn₁, hreplied1, hreads1⟩ := hspec1
    obtain ⟨txn, htxn, h⟩ := bind_eq_some_iff.mp h
    cases hreplied1.hasTxn.symm.trans htxn
    obtain ⟨ba2, hba2, h⟩ := bind_eq_some_iff.mp h
    obtain ⟨⟨txn₂', rfl⟩, hid2, hepoch2, hR⟩ :=
      @updateTxn_spec { ba with requests := ba.requests.getLast?.toList } ba2 txn₁ hreplied1.id
        hreplied1.epoch hreplied1.advances.le hba2
    obtain ⟨⟨w₂, r2⟩, hlast, h⟩ := bind_eq_some_iff.mp h
    obtain ⟨hspec2, -⟩ := hf _ _ _ (hregular.last txn₂') hlast
    cases r2 with
    | error pErr =>
      cases h
      exact Failed.lift hspec2 (hreplied1.advances.congr hR.symm) hid2 hepoch2
    | ok br₂ =>
      obtain ⟨txn₂, hreplied2, hreads2⟩ := hspec2
      obtain ⟨br, hcombine, heq⟩ := map_eq_some_iff.mp h
      cases heq
      obtain ⟨hresponses, txn, htxn, hid, hepoch, hread, hstatus⟩ :=
        combine_spec hreplied1.hasTxn hreplied2.hasTxn
          ((hreplied2.id.trans hid2).trans hreplied1.id.symm)
          ((hreplied2.epoch.trans hepoch2).trans hreplied1.epoch.symm) hcombine
      have hle : txn₁.readTimestamp.ord ≤ txn₂.readTimestamp.ord := hR ▸ hreplied2.advances.le
      refine ⟨txn, replied_split hregular hreplied1 hreplied2 hR hid hepoch hread hstatus htxn
        hresponses, ?_⟩
      have hfront : BatchRequest.txn { ba with requests := ba.requests.dropLast } = ba.txn := rfl
      apply newReads_split hfront (hregular.pending hreplied1) hreads1 hreads2 hreplied2.advances hR
        (hread.trans (max_eq_right hle))
      intro hst
      exact updateStatus_eq_pending (hstatus.symm.trans hst)

lemma sendLockedDepth_spec (hwrapped : wrapped.Legal) (depth : ℕ) (hregular : Regular ba)
    (h : sendLockedDepth cfg wrapped depth w ba = some r) : SendSpec w ba r := by
  induction depth generalizing w ba r with
  | zero =>
    refine sendLockedWith_spec hwrapped (fun w ba r _ _ hnone => ?_) hregular h
    cases hnone
  | succ depth ih =>
    refine sendLockedWith_spec hwrapped ?_ hregular h
    exact splitEndTxnAndRetrySend_spec fun w ba r hreg hsend => ih hreg hsend

end MeshDB.KvCoord.SpanRefresher
