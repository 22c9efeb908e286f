import MeshDB.KvCoord.Pipeliner

/-!
# Lock tracking

What the operations of the pipeliner do with the keys it tracks. A key is tracked by a
write in flight or by the lock footprint. A write leaves the set of writes in flight
when a query finds it, and the footprint then covers its key.
-/
namespace MeshDB.KvCoord.Pipeliner

open Roachpb Kvpb Transition List Option CondensableSpanSet InFlightWriteSet

def Tracked (st : State) (k : Key) : Prop :=
  (∃ w ∈ st.ifWrites.t, w.key = k) ∨ Covers st.lockFootprint.s k

/-- The spans of the footprint end after their start, and no write has the sequence zero. -/
structure State.Wf (st : State) : Prop where
  proper : ∀ sp ∈ st.lockFootprint.s, sp.Proper
  positive : ∀ w ∈ st.ifWrites.t, 0 < w.sequence

lemma State.wf_init : State.Wf {} where
  proper := fun _ hsp => absurd hsp not_mem_nil
  positive := fun _ hw => absurd hw not_mem_nil

def FoundIntent (reqs : List Request) (resps : List Response) (w : SequencedWrite) : Prop :=
  ∃ qi, (Request.queryIntent qi, Response.queryIntent true) ∈ reqs.zip resps ∧
    qi.key = w.key ∧ w.sequence ≤ qi.txn.sequence

/-- Keeps the footprint's keys and the writes in flight but those with `out`, which it moves to the
footprint. -/
structure Moves (out : SequencedWrite → Prop) (st st' : State) : Prop where
  covers : ∀ k, Covers st.lockFootprint.s k → Covers st'.lockFootprint.s k
  writes : ∀ w ∈ st.ifWrites.t, st'.ifWrites.Holds w ∨ (out w ∧ Covers st'.lockFootprint.s w.key)

variable {out : SequencedWrite → Prop} {st st' : State} {ba : BatchRequest} {reqs : List Request}
  {reply : Except Error BatchResponse} {cfg : Settings}

lemma Moves.of_eq (hw : st'.ifWrites = st.ifWrites)
    (hc : ∀ k, Covers st.lockFootprint.s k → Covers st'.lockFootprint.s k) : Moves out st st' where
  covers := hc
  writes := fun _ h => .inl (hw ▸ .of_mem h)

lemma Moves.trans {out1 out2 : SequencedWrite → Prop} {st1 st2 : State}
    (h1 : Moves out1 st st1) (h2 : Moves out2 st1 st2) (hout1 : ∀ w, out1 w → out w)
    (hout2 : ∀ w w', out2 w' → w'.key = w.key → w.sequence ≤ w'.sequence → out w) :
    Moves out st st2 where
  covers := fun k hk => h2.covers k (h1.covers k hk)
  writes := by
    intro w hw
    rcases h1.writes w hw with ⟨w1, hw1, hk1, hs1⟩ | ⟨hout, hcov⟩
    · rcases h2.writes w1 hw1 with ⟨w2, hw2, hk2, hs2⟩ | ⟨hout, hcov⟩
      · exact .inl ⟨w2, hw2, hk2.trans hk1, hs1.trans hs2⟩
      · exact .inr ⟨hout2 w w1 hout hk1 hs1, hk1 ▸ hcov⟩
    · exact .inr ⟨hout1 w hout, h2.covers _ hcov⟩

lemma Moves.tracked (h : Moves out st st') {k : Key} (hk : Tracked st k) : Tracked st' k := by
  rcases hk with ⟨w, hw, rfl⟩ | hk
  · rcases h.writes w hw with ⟨w', hw', hk', -⟩ | ⟨-, hcov⟩
    · exact .inl ⟨w', hw', hk'⟩
    · exact .inr hcov
  · exact .inr (h.covers k hk)

/-! ## The operations -/

/-- What is left to resume of a request: from its start, or up to its end. -/
def Resumes (h : RequestHeader) (sp : Span) : Prop :=
  (sp.key = h.key ∧ sp.Proper) ∨ (h.key < sp.key ∧ sp.endKeyBytes = h.span.endKeyBytes)

/-- A reply to a locking request resumes a part of it and tells of a span that ends after its
start. -/
def LegalReply (req : Request) (resp : Response) : Prop :=
  req.isLocking → 0 < req.header.sequence ∧ (∀ sp ∈ resp.resumeSpan, Resumes req.header sp) ∧
    ∀ sp ∈ actualSpan req (some resp), sp.Proper

/-- In the span that the response tells of, and only the one key unless it is ranged. -/
def OperatedOn (req : Request) (resp : Option Response) (k : Key) : Prop :=
  (∃ sp ∈ actualSpan req resp, Span.Mem k sp) ∧ (req.isRange = false → k = req.header.key)

lemma covers_point (k : Key) : Covers [⟨k, none⟩] k :=
  ⟨⟨k, none⟩, .head _, (Span.mem_of_isPoint rfl).mpr rfl⟩

lemma proper_point (k : Key) : Span.Proper ⟨k, none⟩ := .inl rfl

lemma insertSpans_spec (hst : st.Wf) {spans : List Span}
    (hspans : ∀ sp ∈ spans, sp.Proper) (out : SequencedWrite → Prop) :
    State.Wf { st with lockFootprint := st.lockFootprint.insertSpans spans } ∧
      Moves out st { st with lockFootprint := st.lockFootprint.insertSpans spans } :=
  ⟨⟨proper_insertSpans hst.proper hspans, hst.positive⟩,
    .of_eq rfl fun _ hk => covers_insertSpans.mpr (.inl hk)⟩

lemma insertWrite_spec (hst : st.Wf) (key : Key) {seq : Int} (hseq : 0 < seq)
    (out : SequencedWrite → Prop) :
    State.Wf { st with ifWrites := st.ifWrites.insert key seq } ∧
      Moves out st { st with ifWrites := st.ifWrites.insert key seq } ∧
      Tracked { st with ifWrites := st.ifWrites.insert key seq } key := by
  obtain ⟨⟨w', hw', hk', -⟩, hold, hmem⟩ := st.ifWrites.insert_spec key seq
  refine ⟨⟨hst.proper, fun w hw => ?_⟩, ⟨fun k hk => hk, fun w hw => .inl (hold w hw)⟩,
    .inl ⟨w', hw', hk'⟩⟩
  rcases hmem w hw with rfl | hw
  · exact hseq
  · exact hst.positive w hw

lemma foundIntent_spec (hst : st.Wf) {qi : QueryIntentRequest} {ifWrites : InFlightWriteSet}
    (hremove : st.ifWrites.remove qi.key qi.txn.sequence = some ifWrites) :
    State.Wf { st with
        ifWrites := ifWrites, lockFootprint := st.lockFootprint.insertSpans [⟨qi.key, none⟩] } ∧
      Moves (FoundIntent [.queryIntent qi] [.queryIntent true]) st { st with
        ifWrites := ifWrites, lockFootprint := st.lockFootprint.insertSpans [⟨qi.key, none⟩] } := by
  have hmem := mem_of_remove hremove
  refine ⟨⟨?_, fun w hw => hst.positive w ((hmem w).mp hw).1⟩, ⟨?_, fun w hw => ?_⟩⟩
  · exact proper_insertSpans hst.proper (forall_mem_singleton.mpr (proper_point _))
  · exact fun k hk => covers_insertSpans.mpr (.inl hk)
  by_cases hout : w.key = qi.key ∧ w.sequence ≤ qi.txn.sequence
  · refine .inr ⟨⟨qi, .head _, hout.1.symm, hout.2⟩, ?_⟩
    rw [hout.1]
    exact covers_insertSpans.mpr (.inr (covers_point _))
  refine .inl (.of_mem ((hmem w).mpr ⟨hw, fun hk => ?_⟩))
  exact not_le.mp fun hle => hout ⟨hk, hle⟩

lemma trackResponse_spec {req : Request}
    {resp : Response} (hst : st.Wf) (hlegal : LegalReply req resp)
    (h : trackResponse ba st req resp = some st') :
    st'.Wf ∧ Moves (FoundIntent [req] [resp]) st st' ∧
      (req.isLocking → ∀ k, OperatedOn req (some resp) k → Tracked st' k) := by
  unfold trackResponse at h
  split at h
  · split at h
    · obtain ⟨ifWrites, hremove, h⟩ := bind_eq_some_iff.mp h
      cases h
      obtain ⟨hwf, hmoves⟩ := foundIntent_spec hst hremove
      exact ⟨hwf, hmoves, fun hl => by cases hl⟩
    · cases h
      exact ⟨hst, .of_eq rfl fun k hk => hk, fun hl => by cases hl⟩
    · cases h
  split_ifs at h with hlock hasync hrange
  · cases h
    obtain ⟨hwf, hmoves, hkey⟩ := insertWrite_spec hst req.header.key (hlegal hlock).1 _
    refine ⟨hwf, hmoves, fun _ k hk => ?_⟩
    rw [hk.2 (by simpa using hrange)]
    exact hkey
  · cases h
    have hproper : ∀ sp ∈ (actualSpan req (some resp)).toList, sp.Proper :=
      fun sp hsp => (hlegal hlock).2.2 sp (mem_toList.mp hsp)
    obtain ⟨hwf, hmoves⟩ := insertSpans_spec hst hproper _
    refine ⟨hwf, hmoves, fun _ k hk => .inr ?_⟩
    obtain ⟨sp, hsp, hmem⟩ := hk.1
    exact covers_insertSpans.mpr (.inr ⟨sp, mem_toList.mpr hsp, hmem⟩)
  · cases h
    exact ⟨hst, .of_eq rfl fun k hk => hk, fun hl => absurd hl hlock⟩

variable {resps : List Response}

lemma trackResponses_spec (hst : st.Wf) (hlegal : ∀ p ∈ reqs.zip resps, LegalReply p.1 p.2)
    (h : trackResponses ba reqs resps st = some st') :
    st'.Wf ∧ Moves (FoundIntent reqs resps) st st' ∧
      ∀ p ∈ reqs.zip resps, p.1.isLocking → ∀ k, OperatedOn p.1 (some p.2) k →
        Tracked st' k := by
  induction reqs generalizing resps st with
  | nil =>
    cases h
    exact ⟨hst, .of_eq rfl fun k hk => hk, fun p hp => absurd hp (by simp)⟩
  | cons req reqs ih =>
    cases resps with
    | nil => cases h
    | cons resp resps =>
      obtain ⟨st1, hone, hrest⟩ := bind_eq_some_iff.mp h
      obtain ⟨hwf1, hmoves1, hkeys1⟩ :=
        trackResponse_spec hst (hlegal _ (.head _)) hone
      obtain ⟨hwf, hmoves, hkeys⟩ :=
        ih hwf1 (fun p hp => hlegal p (.tail _ hp)) hrest
      refine ⟨hwf, hmoves1.trans hmoves ?_ ?_, ?_⟩
      · rintro w ⟨qi, hmem, hk, hseq⟩
        rw [zip_cons_cons, zip_nil_left, mem_singleton] at hmem
        exact ⟨qi, hmem ▸ mem_cons_self, hk, hseq⟩
      · rintro w w' ⟨qi, hmem, hk, hseq⟩ hkey hle
        exact ⟨qi, mem_cons_of_mem _ hmem, hk.trans hkey, hle.trans hseq⟩
      intro p hp hlock k hk
      rcases mem_cons.mp hp with rfl | hp
      · exact hmoves.tracked (hkeys1 hlock k hk)
      · exact hkeys p hp hlock k hk

lemma mem_lockSpans {sp : Span} :
    sp ∈ lockSpans reqs ↔ ∃ req ∈ reqs, req.isLocking ∧ req.header.span = sp := by
  simp [lockSpans, and_assoc]

lemma trackLocks_spec (hst : st.Wf)
    (hproper : ∀ req ∈ reqs, req.isLocking → req.header.span.Proper) (out : SequencedWrite → Prop) :
    (trackLocks st reqs).Wf ∧ Moves out st (trackLocks st reqs) ∧
      ∀ req ∈ reqs, req.isLocking → ∀ k, Span.Mem k req.header.span →
        Tracked (trackLocks st reqs) k := by
  have hspans : ∀ sp ∈ lockSpans reqs, sp.Proper := by
    intro sp hsp
    obtain ⟨req, hreq, hlock, rfl⟩ := mem_lockSpans.mp hsp
    exact hproper req hreq hlock
  obtain ⟨hwf, hmoves⟩ := insertSpans_spec hst hspans out
  refine ⟨hwf, hmoves, fun req hreq hlock k hk => .inr ?_⟩
  exact covers_insertSpans.mpr
    (.inr ⟨_, mem_lockSpans.mpr ⟨req, hreq, hlock, rfl⟩, hk⟩)

def Committed (reply : Except Error BatchResponse) : Prop :=
  ∃ br txn, reply = .ok br ∧ br.txn = some txn ∧ txn.status = .committed

def Proven (sent : BatchRequest) (reply : Except Error BatchResponse) (w : SequencedWrite) :
    Prop :=
  ∃ br, reply = .ok br ∧ FoundIntent sent.requests br.responses w

structure LegalSend (sent : BatchRequest) (reply : Except Error BatchResponse) : Prop where
  proper : ∀ req ∈ sent.requests, req.isLocking → req.header.span.Proper
  replies : ∀ br, reply = .ok br → ∀ p ∈ sent.requests.zip br.responses, LegalReply p.1 p.2

/-- The locking request at `i` was evaluated on the key, which lies in its span. -/
def Evaluated (sent : BatchRequest) (i : ℕ) (k : Key) : Prop :=
  ∃ req, sent.requests[i]? = some req ∧ req.isLocking ∧ Span.Mem k req.header.span ∧
    (req.isRange = false → k = req.header.key)

/-- An unambiguous error points at the request. -/
def PointsAt (reply : Except Error BatchResponse) (i : ℕ) : Prop :=
  ∃ pErr, reply = .error pErr ∧ pErr.index = some i ∧ pErr.isUnambiguous

/-- The response to the request resumes at the key, or at one before it. -/
def ResumedAt (reply : Except Error BatchResponse) (i : ℕ) (k : Key) : Prop :=
  ∃ br resp, reply = .ok br ∧ br.responses[i]? = some resp ∧
    ∃ sp ∈ resp.resumeSpan, Span.Mem k sp

/-- The reply says that the request did not operate on the key. -/
def Denies (reply : Except Error BatchResponse) (i : ℕ) (k : Key) : Prop :=
  PointsAt reply i ∨ ResumedAt reply i k

lemma mem_of_resumed_before {h sp : Span} {k : Key} (hkey : sp.key = h.key) (hproper : sp.Proper)
    (hne : sp.endKeyBytes ≠ h.endKeyBytes) (hk : Span.Mem k h) (hout : ¬ Span.Mem k sp) :
    Span.Mem k ⟨sp.endKeyBytes, h.endKey⟩ := by
  have hle : sp.endKeyBytes ≤ k := by
    by_cases hp : sp.isPoint
    · rw [show sp.endKeyBytes = [] by simpa [Span.isPoint] using hp]
      exact not_lt.mp (Key.not_lt_nil k)
    · exact not_lt.mp fun hlt => hout (Span.mem_of_lt (hkey ▸ Span.key_le_of_mem hk) hlt)
  by_cases hp : h.isPoint
  · have hk' : k = h.key := (Span.mem_of_isPoint hp).mp hk
    have hrange : sp.key < sp.endKeyBytes := hproper.resolve_left fun hnone =>
      hne (by simp_all [Span.isPoint, Span.endKeyBytes])
    rw [hkey, ← hk'] at hrange
    exact absurd hle (not_le.mpr hrange)
  · exact Span.mem_of_lt hle ((Span.mem_of_not_isPoint hp).mp hk).2

lemma mem_of_resumed_after {h sp : Span} {k : Key} (hlt : h.key < sp.key)
    (hend : sp.endKeyBytes = h.endKeyBytes) (hk : Span.Mem k h) (hout : ¬ Span.Mem k sp) :
    Span.Mem k ⟨h.key, some sp.key⟩ := by
  by_cases hp : h.isPoint
  · rw [(Span.mem_of_isPoint hp).mp hk]
    exact Span.mem_of_lt le_rfl hlt
  · have hk' := (Span.mem_of_not_isPoint hp).mp hk
    refine Span.mem_of_lt hk'.1 (not_le.mp fun hle => hout (Span.mem_of_lt hle ?_))
    exact hend ▸ hk'.2

/-- A key of the request that the resume span leaves out is in the span that is tracked. -/
lemma mem_actualSpan {req : Request} {resp : Response} {k : Key}
    (hresumes : ∀ sp ∈ resp.resumeSpan, Resumes req.header sp) (hk : Span.Mem k req.header.span)
    (hnot : ∀ sp ∈ resp.resumeSpan, ¬ Span.Mem k sp) :
    ∃ sp ∈ actualSpan req (some resp), Span.Mem k sp := by
  cases hspan : resp.resumeSpan with
  | none => exact ⟨req.header.span, by simp [actualSpan, hspan], hk⟩
  | some rsp =>
    have hout : ¬ Span.Mem k rsp := hnot rsp hspan
    rcases hresumes rsp hspan with ⟨hkey, hproper⟩ | ⟨hlt, hend⟩
    · have hne : rsp.endKeyBytes ≠ req.header.span.endKeyBytes := fun heq =>
        hout (by simpa [Span.Mem, Span.isPoint, heq, hkey, RequestHeader.span] using hk)
      refine ⟨⟨rsp.endKeyBytes, req.header.endKey⟩, by simp [actualSpan, hspan, hkey, hne], ?_⟩
      exact mem_of_resumed_before hkey hproper hne hk hout
    · refine ⟨⟨req.header.key, some rsp.key⟩, ?_, mem_of_resumed_after hlt hend hk hout⟩
      simp [actualSpan, hspan, hlt.ne']

/-- What is left after an error is of the batch, without the request an unambiguous error points at.
-/
lemma mem_strippedRequests {sent : BatchRequest} {pErr : Error}
    (h : strippedRequests sent pErr = some reqs) :
    (∀ req ∈ reqs, req ∈ sent.requests) ∧
      ∀ i req, sent.requests[i]? = some req → ¬ PointsAt (.error pErr) i → req ∈ reqs := by
  unfold strippedRequests at h
  split at h
  · rename_i j hindex
    split_ifs at h with hunamb hlt
    · cases h
      refine ⟨fun req hreq => mem_of_mem_eraseIdx hreq, fun i req hreq hpoint => ?_⟩
      have hne : i ≠ j := fun heq => hpoint ⟨pErr, rfl, heq ▸ hindex, hunamb⟩
      exact mem_eraseIdx_iff_getElem?.mpr ⟨i, hne, hreq⟩
    cases h
    exact ⟨fun req hreq => hreq, fun i req hreq _ => mem_of_getElem? hreq⟩
  · cases h
    exact ⟨fun req hreq => hreq, fun i req hreq _ => mem_of_getElem? hreq⟩

lemma length_le_of_trackResponses
    (h : trackResponses ba reqs resps st = some st') :
    reqs.length ≤ resps.length := by
  induction reqs generalizing resps st with
  | nil => exact Nat.zero_le _
  | cons req reqs ih =>
    cases resps with
    | nil => cases h
    | cons resp resps =>
      obtain ⟨st1, -, hrest⟩ := bind_eq_some_iff.mp h
      exact Nat.succ_le_succ (ih hrest)

lemma trackResponses_sent {sent : BatchRequest} {br : BatchResponse}
    (hst : st.Wf) (hlegal : LegalSend sent (.ok br))
    (h : trackResponses sent sent.requests br.responses st = some st') :
    st'.Wf ∧ Moves (Proven sent (.ok br)) st st' ∧
      ∀ i k, Evaluated sent i k → ¬ ResumedAt (.ok br) i k → Tracked st' k := by
  obtain ⟨hwf, hmoves, hkeys⟩ := trackResponses_spec hst (hlegal.replies br rfl) h
  refine ⟨hwf, ⟨hmoves.covers, fun w hw => ?_⟩, ?_⟩
  · exact (hmoves.writes w hw).imp_right fun hout => ⟨⟨br, rfl, hout.1⟩, hout.2⟩
  rintro i k ⟨req, hreq, hlock, hk, hpoint⟩ hresumed
  have hi : i < br.responses.length :=
    (List.getElem?_eq_some_iff.mp hreq).1.trans_le (length_le_of_trackResponses h)
  have hresp : br.responses[i]? = some br.responses[i] := List.getElem?_eq_getElem hi
  have hzip : (sent.requests.zip br.responses)[i]? = some (req, br.responses[i]) :=
    List.getElem?_zip_eq_some.mpr ⟨hreq, hresp⟩
  have hlegal := hlegal.replies br rfl _ (mem_of_getElem? hzip) hlock
  have hspan := mem_actualSpan hlegal.2.1 hk fun sp hsp hmem =>
    hresumed ⟨br, _, rfl, hresp, sp, hsp, hmem⟩
  exact hkeys _ (mem_of_getElem? hzip) hlock k ⟨hspan, hpoint⟩

lemma updateLockTrackingInner_spec {sent : BatchRequest} (hst : st.Wf)
    (hlegal : LegalSend sent reply) (h : updateLockTrackingInner st sent reply = some st') :
    st'.Wf ∧ (Committed reply ∨ (Moves (Proven sent reply) st st' ∧
      ∀ i k, Evaluated sent i k → ¬ Denies reply i k → Tracked st' k)) := by
  cases reply with
  | error pErr =>
    obtain ⟨reqs, hstrip, rfl⟩ := map_eq_some_iff.mp h
    obtain ⟨hsub, hleft⟩ := mem_strippedRequests hstrip
    obtain ⟨hwf, hmoves, hkeys⟩ := trackLocks_spec hst
      (fun req hreq => hlegal.proper req (hsub req hreq)) _
    refine ⟨hwf, .inr ⟨hmoves, ?_⟩⟩
    rintro i k ⟨req, hreq, hlock, hk, -⟩ hdenies
    exact hkeys req (hleft i req hreq fun hpoint => hdenies (.inl hpoint)) hlock k hk
  | ok br =>
    obtain ⟨txn, htxn, h⟩ := bind_eq_some_iff.mp h
    cases hstatus : txn.status with
    | committed =>
      simp only [hstatus] at h
      cases h
      refine ⟨⟨hst.proper, fun w hw => absurd hw not_mem_nil⟩, ?_⟩
      exact .inl ⟨br, txn, rfl, htxn, hstatus⟩
    | aborted =>
      simp only [hstatus] at h
      cases h
      obtain ⟨hwf, hmoves, hkeys⟩ := trackLocks_spec hst hlegal.proper _
      refine ⟨hwf, .inr ⟨hmoves, ?_⟩⟩
      rintro i k ⟨req, hreq, hlock, hk, -⟩ -
      exact hkeys req (mem_of_getElem? hreq) hlock k hk
    | pending | staging =>
      simp only [hstatus] at h
      obtain ⟨hwf, hmoves, hkeys⟩ := trackResponses_sent hst hlegal h
      refine ⟨hwf, .inr ⟨hmoves, fun i k hk hdenies => ?_⟩⟩
      exact hkeys i k hk fun hresumed => hdenies (.inr hresumed)

variable {footprint : CondensableSpanSet}

lemma retains_spec (hst : st.Wf)
    (h : Retains st.lockFootprint footprint) (out : SequencedWrite → Prop) :
    State.Wf { st with lockFootprint := footprint } ∧
      Moves out st { st with lockFootprint := footprint } :=
  ⟨⟨h.proper hst.proper, hst.positive⟩, .of_eq rfl (h.covers hst.proper)⟩

lemma condenseLocks_spec (hst : st.Wf)
    (h : condenseLocks cfg st = some st') : st'.Wf ∧ Moves (fun _ => False) st st' := by
  unfold condenseLocks at h
  dsimp only at h
  split_ifs at h
  · cases h
    exact ⟨hst, .of_eq rfl fun k hk => hk⟩
  · cases h
    exact ⟨hst, .of_eq rfl fun k hk => hk⟩
  obtain ⟨⟨footprint, condensed⟩, hcondense, h⟩ := bind_eq_some_iff.mp h
  cases h
  exact retains_spec hst (retains_maybeCondense hcondense) _

lemma updateLockTracking_spec {sent : BatchRequest} (hst : st.Wf) (hlegal : LegalSend sent reply)
    (h : updateLockTracking cfg st sent reply = some st') :
    st'.Wf ∧ (Committed reply ∨ (Moves (Proven sent reply) st st' ∧
      ∀ i k, Evaluated sent i k → ¬ Denies reply i k → Tracked st' k)) := by
  obtain ⟨st1, hinner, hcondense⟩ := bind_eq_some_iff.mp h
  obtain ⟨hwf1, hrest1⟩ := updateLockTrackingInner_spec hst hlegal hinner
  obtain ⟨hwf, hmoves⟩ := condenseLocks_spec hwf1 hcondense
  refine ⟨hwf, hrest1.imp_right fun hrest => ⟨?_, ?_⟩⟩
  · exact hrest.1.trans hmoves (fun w hw => hw) fun w w' hout => hout.elim
  · exact fun i k hk hdenies => hmoves.tracked (hrest.2 i k hk hdenies)

lemma checkBudget_retains (cfg : Settings) (st : State) (ba : BatchRequest) :
    (checkBudget cfg st ba).1.ifWrites = st.ifWrites ∧
      Retains st.lockFootprint (checkBudget cfg st ba).1.lockFootprint := by
  unfold checkBudget maybeRejectOverBudget
  split_ifs
  · exact ⟨rfl, Retains.refl _⟩
  · dsimp only
    split_ifs
    · exact ⟨rfl, (keeps_estimateSize ..).toRetains⟩
    · exact ⟨rfl, (keeps_estimateSize ..).toRetains⟩
  · exact ⟨rfl, Retains.refl _⟩

variable {r : Except Error BatchRequest}

lemma prepare_cases (h : prepare cfg st ba = (st', r)) :
    (st'.ifWrites = st.ifWrites ∧ Retains st.lockFootprint st'.lockFootprint) ∧
      ∀ sent, r = .ok sent → ∃ attached, attachLocksToEndTxn st ba = .ok attached ∧
        sent = chainToInFlightWrites st'
          { attached with asyncConsensus := canUseAsyncConsensus cfg st' attached } := by
  unfold prepare at h
  cases hattach : attachLocksToEndTxn st ba with
  | error pErr =>
    simp only [hattach] at h
    cases h
    exact ⟨⟨rfl, Retains.refl _⟩, fun sent hsent => by cases hsent⟩
  | ok attached =>
    have hretains := checkBudget_retains cfg st attached
    simp only [hattach] at h
    split at h
    · rename_i st1 pErr hcheck
      cases h
      rw [hcheck] at hretains
      exact ⟨hretains, fun sent hsent => by cases hsent⟩
    rename_i st1 hcheck
    cases h
    rw [hcheck] at hretains
    refine ⟨hretains, fun sent hsent => ⟨attached, rfl, ?_⟩⟩
    cases hsent
    rfl

lemma prepare_spec
    (hst : st.Wf) (h : prepare cfg st ba = (st', r)) :
    st'.Wf ∧ Moves (fun _ => False) st st' := by
  obtain ⟨⟨hwrites, hretains⟩, -⟩ := prepare_cases h
  refine ⟨⟨hretains.proper hst.proper, hwrites ▸ hst.positive⟩, ?_⟩
  exact .of_eq hwrites (hretains.covers hst.proper)

lemma moveToFootprint_spec (ws : List SequencedWrite)
    (hproper : ∀ sp ∈ footprint.s, sp.Proper) :
    let moved := (footprint.insertSpans (ws.map fun w => ⟨w.key, none⟩)).mergeAndSort
    (∀ sp ∈ moved.s, sp.Proper) ∧ (∀ k, Covers footprint.s k → Covers moved.s k) ∧
      ∀ w ∈ ws, Covers moved.s w.key := by
  have hinsert : ∀ sp ∈ (footprint.insertSpans (ws.map fun w => ⟨w.key, none⟩)).s, sp.Proper :=
    proper_insertSpans hproper (forall_mem_map.mpr fun w _ => proper_point _)
  have hretains := @retains_mergeAndSort .stable
    (footprint.insertSpans (ws.map fun w => ⟨w.key, none⟩))
  refine ⟨hretains.proper hinsert, fun k hk => ?_, fun w hw => ?_⟩
  · exact hretains.covers hinsert k (covers_insertSpans.mpr (.inl hk))
  refine hretains.covers hinsert _ (covers_insertSpans.mpr (.inr ?_))
  exact ⟨⟨w.key, none⟩, mem_map_of_mem hw, (Span.mem_of_isPoint rfl).mpr rfl⟩

lemma epochBumpedLocked_spec (hst : st.Wf) :
    (epochBumpedLocked st).Wf ∧ Moves (fun _ => True) st (epochBumpedLocked st) := by
  unfold epochBumpedLocked
  split_ifs
  · exact ⟨hst, .of_eq rfl fun k hk => hk⟩
  obtain ⟨hproper, hkeep, hcov⟩ := moveToFootprint_spec st.ifWrites.t hst.proper
  refine ⟨⟨hproper, fun w hw => absurd hw not_mem_nil⟩, ⟨hkeep, fun w hw => .inr ?_⟩⟩
  exact ⟨trivial, hcov w hw⟩

lemma mem_of_removeAll {ws : List SequencedWrite} {s s' : InFlightWriteSet}
    (h : ws.foldlM (fun s w => s.remove w.key w.sequence) s = some s') (w : SequencedWrite) :
    w ∈ s'.t ↔ w ∈ s.t ∧ ∀ w' ∈ ws, w.key = w'.key → w'.sequence < w.sequence := by
  induction ws generalizing s with
  | nil =>
    cases h
    simp
  | cons w0 ws ih =>
    obtain ⟨s1, hremove, hrest⟩ := bind_eq_some_iff.mp h
    rw [ih hrest, mem_of_remove hremove, forall_mem_cons, and_assoc]

lemma rollbackToSavepointLocked_spec {sp : Savepoint} (hst : st.Wf)
    (h : rollbackToSavepointLocked st sp = some st') :
    st'.Wf ∧ Moves (fun w => sp.seqNum < w.sequence) st st' := by
  obtain ⟨ifWrites, hwrites, h⟩ := bind_eq_some_iff.mp h
  cases h
  obtain ⟨hproper, hkeep, hcov⟩ := moveToFootprint_spec
    (st.ifWrites.ascend.filter fun w => sp.seqNum < w.sequence) hst.proper
  have hmoved : ∀ w ∈ st.ifWrites.t, sp.seqNum < w.sequence →
      w ∈ st.ifWrites.ascend.filter fun w => sp.seqNum < w.sequence :=
    fun w hw hlt => mem_filter.mpr ⟨hw, decide_eq_true hlt⟩
  cases sp with
  | initial =>
    cases hwrites
    refine ⟨⟨hproper, fun w hw => absurd hw not_mem_nil⟩, ⟨hkeep, fun w hw => .inr ?_⟩⟩
    exact ⟨hst.positive w hw, hcov w (hmoved w hw (hst.positive w hw))⟩
  | active seqNum =>
    have hmem := mem_of_removeAll hwrites
    refine ⟨⟨hproper, fun w hw => hst.positive w ((hmem w).mp hw).1⟩, ⟨hkeep, fun w hw => ?_⟩⟩
    by_cases hlt : seqNum < w.sequence
    · exact .inr ⟨hlt, hcov w (hmoved w hw hlt)⟩
    refine .inl (.of_mem ((hmem w).mpr ⟨hw, fun w' hw' hk => ?_⟩))
    obtain ⟨hw', hlt'⟩ := mem_filter.mp hw'
    rw [← eq_of_key_eq hw hw' hk] at hlt'
    exact absurd (of_decide_eq_true hlt') hlt

/-! ## Steps -/

def Action.sent (st : State) : Action → Option BatchRequest
  | .send cfg ba _ =>
    match (prepare cfg st ba).2 with
    | .ok sent => some sent
    | .error _ => none
  | _ => none

def Action.Legal (st : State) : Action → Prop
  | .send cfg ba reply => ∀ sent, (Action.send cfg ba reply).sent st = some sent →
      LegalSend sent reply
  | _ => True

lemma sendLocked_spec {result : Except Error BatchResponse} (hst : st.Wf)
    (hlegal : (Action.send cfg ba reply).Legal st)
    (h : sendLocked cfg st ba reply = some (st', result)) :
    st'.Wf ∧ ((Moves (fun _ => False) st st' ∧ (Action.send cfg ba reply).sent st = none) ∨
      ∃ sent, (Action.send cfg ba reply).sent st = some sent ∧
        (Committed reply ∨ (Moves (Proven sent reply) st st' ∧
          ∀ i k, Evaluated sent i k → ¬ Denies reply i k → Tracked st' k))) := by
  obtain ⟨st1, r, hprepare⟩ : ∃ st1 r, prepare cfg st ba = (st1, r) := ⟨_, _, rfl⟩
  obtain ⟨hwf1, hmoves1⟩ := prepare_spec hst hprepare
  unfold sendLocked at h
  rw [hprepare] at h
  cases r with
  | error pErr =>
    cases h
    exact ⟨hwf1, .inl ⟨hmoves1, by simp [Action.sent, hprepare]⟩⟩
  | ok sent =>
    have hsent : (Action.send cfg ba reply).sent st = some sent := by
      simp [Action.sent, hprepare]
    obtain ⟨st2, hupdate, h⟩ := bind_eq_some_iff.mp h
    obtain ⟨result', -, h⟩ := bind_eq_some_iff.mp h
    cases h
    obtain ⟨hwf, hrest⟩ := updateLockTracking_spec hwf1 (hlegal sent hsent) hupdate
    refine ⟨hwf, .inr ⟨sent, hsent, hrest.imp_right fun hrest => ⟨?_, hrest.2⟩⟩⟩
    refine hmoves1.trans hrest.1 (fun w hw => hw.elim) ?_
    rintro w w' ⟨br, hok, qi, hmem, hk, hseq⟩ hkey hle
    exact ⟨br, hok, qi, hmem, hk.trans hkey, hle.trans hseq⟩

end MeshDB.KvCoord.Pipeliner
