import MeshDB.Closedts.SideTransport

/-!
# The side transport replicates its sender

Every message is good for its place in the stream: a snapshot takes any state, and an incremental
message the state one cycle earlier, to the state of the sender after the message's cycle.
-/
namespace MeshDB.SideTransport

open List Option Hlc Transition Transport Sender StreamState

/-! ## Messages in a stream -/

/-- The message may be sent after the one with number `pos`; 0 is the start of the stream. -/
structure Good (states : List StreamState) (nodeID : NodeID) (pos : ℕ) (msg : Update) : Prop where
  nodeID : msg.nodeID = nodeID
  positive : 0 < msg.seqNum
  effect : (msg.snapshot ∧ msg.removed = [] ∧
      ∀ ρ : StreamState, states[msg.seqNum]? = some (ρ.apply msg)) ∨
    (msg.snapshot = false ∧ msg.seqNum = pos + 1 ∧
      ∃ ρ, states[pos]? = some ρ ∧ states[msg.seqNum]? = some (ρ.apply msg) ∧
        ∀ r ∈ msg.removed, r ∈ ρ.tracked)
  /-- Nothing is incremental to the start of a stream. -/
  first : pos = 0 → msg.snapshot

lemma List.getElem?_append_of_some {α : Type*} {l : List α} {i : ℕ} {a : α} (h : l[i]? = some a)
    (more : List α) : (l ++ more)[i]? = some a :=
  (List.getElem?_append_left (List.getElem?_eq_some_iff.mp h).1).trans h

variable {msg : Update}

lemma Good.append {states : List StreamState} {nodeID : NodeID} {pos : ℕ}
    (h : Good states nodeID pos msg) (more : List StreamState) :
    Good (states ++ more) nodeID pos msg := by
  refine { h with effect := ?_ }
  rcases h.effect with ⟨hsnap, hrem, heff⟩ | ⟨hsnap, hseq, ρ, hρ, heff, hrem⟩
  · exact .inl ⟨hsnap, hrem, fun ρ => List.getElem?_append_of_some (heff ρ) more⟩
  exact .inr ⟨hsnap, hseq, ρ, List.getElem?_append_of_some hρ more,
    List.getElem?_append_of_some heff more, hrem⟩

def Feeds (states : List StreamState) (nodeID : NodeID) : ℕ → List Update → Prop
  | _, [] => True
  | pos, msg :: rest => Good states nodeID pos msg ∧ Feeds states nodeID msg.seqNum rest

def endpoint : ℕ → List Update → ℕ
  | pos, [] => pos
  | _, msg :: rest => endpoint msg.seqNum rest

variable {states : List StreamState} {nodeID : NodeID} {pos : ℕ} {queue : List Update}

lemma Feeds.append (more : List StreamState) (h : Feeds states nodeID pos queue) :
    Feeds (states ++ more) nodeID pos queue := by
  induction queue generalizing pos with
  | nil => trivial
  | cons msg rest ih => exact ⟨h.1.append more, ih h.2⟩

lemma Feeds.snoc (h : Feeds states nodeID pos queue)
    (hmsg : Good states nodeID (endpoint pos queue) msg) :
    Feeds states nodeID pos (queue ++ [msg]) := by
  induction queue generalizing pos with
  | nil => exact ⟨hmsg, trivial⟩
  | cons m rest ih => exact ⟨h.1, ih h.2 hmsg⟩

@[simp] lemma endpoint_snoc (msg : Update) : endpoint pos (queue ++ [msg]) = msg.seqNum := by
  induction queue generalizing pos with
  | nil => rfl
  | cons m rest ih => exact ih

/-! ## The invariant -/

def WasClosed (closed : List ClosedInfo) (f : ClosedInfo) : Prop :=
  ∃ x ∈ closed, x.rangeID = f.rangeID ∧ x.closedTS = f.closedTS ∧ x.lai ≤ f.lai

lemma WasClosed.append {closed : List ClosedInfo} {f : ClosedInfo} (h : WasClosed closed f)
    (more : List ClosedInfo) : WasClosed (closed ++ more) f := by
  obtain ⟨x, hx, hcl⟩ := h
  exact ⟨x, mem_append_left _ hx, hcl⟩

structure Published (sender : Sender) (messages : List Update) (states : List StreamState)
    (closed : List ClosedInfo) : Prop where
  nodeID : sender.nodeID ≠ 0
  buf : sender.buf.Stores messages
  length : states.length = messages.length + 1
  current : states[messages.length]? = some sender.state
  initial : states[0]? = some ({} : StreamState)
  seqNum : ∀ (i : ℕ) (σ : StreamState), states[i]? = some σ → σ.lastSeqNum = i
  good : ∀ (i : ℕ) (m : Update), messages[i]? = some m → Good states sender.nodeID i m
  closed : ∀ (i : ℕ) (σ : StreamState), states[i]? = some σ →
    ∀ (r : RangeID) (info : TrackedRange), σ.tracked.lookup r = some info →
      WasClosed closed ⟨r, σ.lastClosed info.policy, info.lai⟩

namespace Published

variable {sender : Sender} {messages : List Update} {states : List StreamState}
  {closed : List ClosedInfo}

section
variable (h : Published sender messages states closed)
include h

lemma lastSeqNum : sender.state.lastSeqNum = messages.length := h.seqNum _ _ h.current

lemma of_leaseholders {sender' : Sender}
    (hnode : sender'.nodeID = sender.nodeID) (hstate : sender'.state = sender.state)
    (hbuf : sender'.buf.ring = sender.buf.ring) : Published sender' messages states closed where
  nodeID := hnode ▸ h.nodeID
  buf := ⟨hbuf ▸ h.buf.capacity, hbuf ▸ h.buf.holds, h.buf.seqNum⟩
  length := h.length
  current := hstate ▸ h.current
  initial := h.initial
  seqNum := h.seqNum
  good := hnode ▸ h.good
  closed := h.closed

lemma state_of_first
    (hseq : sender.state.lastSeqNum = 0) : sender.state = ({} : StreamState) := by
  have hlen := h.lastSeqNum
  have hcur := h.current
  rw [hseq] at hlen
  rw [← hlen, h.initial] at hcur
  exact (Option.some.inj hcur).symm

variable {c : Cycle}

lemma good_nextMessage
    (hc : c.IsOf sender) : Good (states ++ [sender.nextState c]) sender.nodeID messages.length
      (sender.nextMessage c) := by
  have hseq := h.lastSeqNum
  have hnew : (states ++ [sender.nextState c])[(sender.nextMessage c).seqNum]? =
      some (sender.nextState c) := by
    rw [show (sender.nextMessage c).seqNum = states.length by
      rw [h.length, ← hseq]; rfl]
    exact List.getElem?_concat_length
  refine ⟨rfl, Nat.succ_pos _, ?_, ?_⟩
  · by_cases hzero : sender.state.lastSeqNum = 0
    · left
      have hempty := h.state_of_first hzero
      have hdraft : ∀ r ∈ (sender.nextMessage c).removed, r ∈ (∅ : TrackedRanges) := by
        intro r hr
        have hmem := mem_of_removed hc hr
        rwa [hempty] at hmem
      refine ⟨by simp [nextMessage, hzero], ?_, fun ρ => ?_⟩
      · exact eq_nil_iff_forall_not_mem.mpr fun r hr => Finmap.notMem_empty (hdraft r hr)
      rw [apply_firstMessage hc hzero (by rw [hempty])]
      exact hnew
    right
    refine ⟨by simpa [nextMessage] using hzero, by rw [← hseq]; rfl, sender.state,
      List.getElem?_append_of_some h.current _, ?_, fun r hr => mem_of_removed hc hr⟩
    rw [apply_nextMessage hc hzero]
    exact hnew
  · intro hzero
    rw [hzero] at hseq
    simp [nextMessage, hseq]

lemma publish (hc : c.IsOf sender) :
    ∃ sender', sender.publish c = .ok sender' ∧ sender'.nodeID = sender.nodeID ∧
      sender'.state = sender.nextState c ∧
      Published sender' (messages ++ [sender.nextMessage c]) (states ++ [sender.nextState c])
        (closed ++ Transport.closedBy c) := by
  have hseq := h.lastSeqNum
  obtain ⟨buf, hbuf, hstores⟩ := h.buf.push (u := sender.nextMessage c) (by rw [← hseq]; rfl)
  refine ⟨{ sender with state := sender.nextState c, buf := buf }, ?_, rfl, rfl, ?_⟩
  · rw [Sender.publish, hbuf]
  have hlast : (states ++ [sender.nextState c])[messages.length + 1]? =
      some (sender.nextState c) := by
    rw [← h.length]
    exact List.getElem?_concat_length
  have hcases : ∀ (i : ℕ) (σ : StreamState), (states ++ [sender.nextState c])[i]? = some σ →
      states[i]? = some σ ∨ i = messages.length + 1 ∧ σ = sender.nextState c := by
    intro i σ hσ
    rcases Nat.lt_or_ge i states.length with hlt | hge
    · rw [List.getElem?_append_left hlt] at hσ
      exact .inl hσ
    rw [List.getElem?_append_right hge, List.getElem?_singleton] at hσ
    split_ifs at hσ with hi
    cases hσ
    rw [h.length] at hge hi
    exact .inr ⟨by omega, rfl⟩
  refine ⟨h.nodeID, hstores, ?_, ?_, List.getElem?_append_of_some h.initial _, ?_, ?_, ?_⟩
  · simp [h.length]
  · simpa using hlast
  · intro i σ hσ
    rcases hcases i σ hσ with hσ | ⟨rfl, rfl⟩
    · exact h.seqNum i σ hσ
    rw [← hseq]
    rfl
  · intro i m hm
    rcases Nat.lt_or_ge i messages.length with hlt | hge
    · rw [List.getElem?_append_left hlt] at hm
      exact (h.good i m hm).append _
    rw [List.getElem?_append_right hge, List.getElem?_singleton] at hm
    split_ifs at hm with hi
    cases hm
    obtain rfl : i = messages.length := by omega
    exact h.good_nextMessage hc
  intro i σ hσ r info hr
  rcases hcases i σ hσ with hσ | ⟨rfl, rfl⟩
  · exact (h.closed i σ hσ r info hr).append _
  obtain ⟨res, hres, hok, hpol, hlai⟩ := closes_of_tracked hc hr
  refine ⟨⟨r, c.target res.policy, res.lai⟩, mem_append_right _ ?_, rfl, ?_, hlai⟩
  · exact List.mem_map.mpr ⟨(r, res), mem_filter.mpr ⟨hres, hok⟩, rfl⟩
  rw [hpol]
  rfl

lemma good_getSnapshot (hne : messages ≠ [])
    {order : List RangeID} (horder : order.toFinset = sender.state.tracked.keys) (pos : ℕ) :
    Good states sender.nodeID pos (sender.getSnapshot order) := by
  have hseq : (sender.getSnapshot order).seqNum = messages.length := h.lastSeqNum
  refine ⟨rfl, ?_, .inl ⟨rfl, rfl, fun ρ => ?_⟩, fun _ => rfl⟩
  · rw [hseq]
    exact length_pos_iff.mpr hne
  rw [hseq, apply_getSnapshot horder]
  exact h.current

end
end Published

structure Replicates (sender : Sender) (states : List StreamState) (st : Stream) : Prop where
  state : states[st.incoming.state.lastSeqNum]? = some st.incoming.state
  unnamed : st.incoming.nodeID = 0 → st.incoming.state.lastSeqNum = 0
  named : st.reading → st.incoming.nodeID = 0 ∨ st.incoming.nodeID = sender.nodeID
  feeds : Feeds states sender.nodeID st.incoming.state.lastSeqNum st.queue

structure InStep (t : Transport) (id : ConnID) (conn : RpcConn) : Prop where
  le : conn.lastSent ≤ t.messages.length
  idle : conn.stream = none → conn.lastSent = 0
  stream : ∀ sid, conn.stream = some sid → ∃ st, t.streams sid = some st ∧ st.owner = id ∧
    endpoint st.incoming.state.lastSeqNum st.queue = conn.lastSent

structure TransportInv (t : Transport) : Prop where
  fatal : t.fatal = none
  published : Published t.sender t.messages t.states t.closed
  replicates : ∀ sid st, t.streams sid = some st → Replicates t.sender t.states st
  inStep : ∀ id conn, t.conns id = some conn → InStep t id conn
  forwarded : ∀ f ∈ t.forwarded, WasClosed t.closed f

namespace TransportInv

variable {t : Transport} {id : ConnID} {sid : StreamID} {conn : RpcConn} {st : Stream}
  {msg : Update}

section
variable (h : TransportInv t)
include h

lemma of_leaseholders {sender' : Sender}
    (hnode : sender'.nodeID = t.sender.nodeID) (hstate : sender'.state = t.sender.state)
    (hbuf : sender'.buf.ring = t.sender.buf.ring) : TransportInv { t with sender := sender' } :=
  { h with
    published := h.published.of_leaseholders hnode hstate hbuf
    replicates := fun sid st hst =>
      have hr := h.replicates sid st hst
      ⟨hr.state, hr.unnamed, hnode ▸ hr.named, hnode ▸ hr.feeds⟩
    inStep := fun id conn hconn => { h.inStep id conn hconn with } }

lemma publish {c : Cycle} (hc : c.IsOf t.sender) : TransportInv (t.publish c) := by
  obtain ⟨sender', hpub, hnode, hstate, hpublished⟩ := h.published.publish hc
  rw [Transport.publish, hpub]
  rw [← hstate] at hpublished
  refine ⟨h.fatal, hpublished, fun sid st hst => ?_, fun id conn hconn => ?_,
    fun f hf => (h.forwarded f hf).append _⟩
  · have hr := h.replicates sid st hst
    exact ⟨List.getElem?_append_of_some hr.state _, hr.unnamed, hnode ▸ hr.named,
      hnode ▸ hr.feeds.append _⟩
  have hi := h.inStep id conn hconn
  exact { hi with le := hi.le.trans (by simp) }

lemma setConn (hconn : InStep t id conn) : TransportInv (t.setConn id conn) := by
  refine { h with inStep := fun id' conn' hconn' => ?_ }
  have hin : InStep t id' conn' := by
    by_cases heq : id' = id
    · subst heq
      rw [setConn_conns_self] at hconn'
      cases hconn'
      exact hconn
    rw [setConn_conns_of_ne heq] at hconn'
    exact h.inStep id' conn' hconn'
  exact { hin with }

lemma cleanupStream (id : ConnID) (conn : RpcConn) : TransportInv (t.cleanupStream id conn) :=
  h.setConn ⟨Nat.zero_le _, fun _ => rfl, fun _ hs => by cases hs⟩

lemma replicates_setStream {st : Stream} (hr : Replicates t.sender t.states st) (sid' : StreamID)
    (st' : Stream) (hst' : (t.setStream sid st).streams sid' = some st') :
    Replicates t.sender t.states st' := by
  by_cases heq : sid' = sid
  · subst heq
    rw [setStream_streams_self] at hst'
    cases hst'
    exact hr
  rw [setStream_streams_of_ne heq] at hst'
  exact h.replicates sid' st' hst'

lemma setStream (hst : t.streams sid = some st) {st' : Stream}
    (hr : Replicates t.sender t.states st') (howner : st'.owner = st.owner)
    (hend : endpoint st'.incoming.state.lastSeqNum st'.queue =
      endpoint st.incoming.state.lastSeqNum st.queue) : TransportInv (t.setStream sid st') := by
  refine { h with
    replicates := h.replicates_setStream hr
    inStep := fun id conn hconn => { h.inStep id conn hconn with stream := fun sid' hsid' => ?_ } }
  obtain ⟨st1, hst1, ho, he⟩ := (h.inStep id conn hconn).stream sid' hsid'
  by_cases heq : sid' = sid
  · subst heq
    rw [hst] at hst1
    cases hst1
    exact ⟨st', setStream_streams_self, howner.trans ho, hend.trans he⟩
  · exact ⟨st1, (setStream_streams_of_ne heq).trans hst1, ho, he⟩

lemma connect (hconn : t.conns id = some conn)
    (hidle : conn.stream = none) (hsid : t.streams sid = none) :
    TransportInv (t.connect id conn sid) := by
  refine { h with
    replicates := h.replicates_setStream
      ⟨h.published.initial, fun _ => rfl, fun _ => .inl rfl, trivial⟩
    inStep := fun id' conn' hconn' => ?_ }
  by_cases heq : id' = id
  · subst heq
    rw [Transport.connect, setConn_conns_self] at hconn'
    cases hconn'
    have hi := h.inStep id' conn hconn
    refine ⟨hi.le, nofun, fun sid' hsid' => ?_⟩
    cases hsid'
    exact ⟨_, setStream_streams_self, rfl, (hi.idle hidle).symm⟩
  rw [Transport.connect, setConn_conns_of_ne heq] at hconn'
  have hi := h.inStep id' conn' hconn'
  refine ⟨hi.le, hi.idle, fun sid' hsid' => ?_⟩
  obtain ⟨st1, hst1, ho, he⟩ := hi.stream sid' hsid'
  have hne : sid' ≠ sid := by
    rintro rfl
    rw [hsid] at hst1
    cases hst1
  exact ⟨st1, (setStream_streams_of_ne hne).trans hst1, ho, he⟩

lemma sendMsg (hconn : t.conns id = some conn)
    (hsid : conn.stream = some sid) (hst : t.streams sid = some st)
    (hgood : Good t.states t.sender.nodeID conn.lastSent msg)
    (hle : msg.seqNum ≤ t.messages.length) (ok : Bool) :
    TransportInv (t.sendMsg id conn sid st msg ok) := by
  unfold Transport.sendMsg
  split_ifs with hok
  swap
  · exact h.cleanupStream id _
  obtain ⟨st1, hst1, howner, hend⟩ := (h.inStep id conn hconn).stream sid hsid
  rw [hst] at hst1
  cases hst1
  have hr := h.replicates sid st hst
  refine ⟨h.fatal, h.published, h.replicates_setStream
    ⟨hr.state, hr.unnamed, hr.named, hr.feeds.snoc (hend.symm ▸ hgood)⟩,
    fun id' conn' hconn' => ?_, h.forwarded⟩
  by_cases heq : id' = id
  · subst heq
    rw [setConn_conns_self] at hconn'
    cases hconn'
    refine ⟨hle, fun hs => absurd (hsid.symm.trans hs) nofun, fun sid' hsid' => ?_⟩
    obtain rfl : sid = sid' := Option.some.inj (hsid.symm.trans hsid')
    exact ⟨_, setStream_streams_self, howner, endpoint_snoc msg⟩
  rw [setConn_conns_of_ne heq] at hconn'
  have hi := h.inStep id' conn' hconn'
  refine ⟨hi.le, hi.idle, fun sid' hsid' => ?_⟩
  obtain ⟨st2, hst2, ho, he⟩ := hi.stream sid' hsid'
  have hne : sid' ≠ sid := by
    rintro rfl
    rw [hst] at hst2
    cases hst2
    exact heq (ho.symm.trans howner)
  exact ⟨st2, (setStream_streams_of_ne hne).trans hst2, ho, he⟩

lemma send (hconn : t.conns id = some conn)
    (hsid : conn.stream = some sid) (hst : t.streams sid = some st) {order : List RangeID}
    (horder : order.toFinset = t.sender.state.tracked.keys) (ok : Bool) :
    TransportInv (t.send id conn sid st order ok) := by
  have hle := (h.inStep id conn hconn).le
  unfold Transport.send
  rcases h.published.buf.getBySeq hle with hget | hget | ⟨hget, hne⟩ | ⟨u, hget, hu⟩
  · rw [hget]
    exact h.cleanupStream id conn
  · rw [hget]
    exact h
  · rw [hget]
    exact h.sendMsg hconn hsid hst (h.published.good_getSnapshot hne horder _)
      h.published.lastSeqNum.le ok
  rw [hget]
  refine h.sendMsg hconn hsid hst (h.published.good _ u hu) ?_ ok
  rw [h.published.buf.seqNum _ u hu]
  exact (List.getElem?_eq_some_iff.mp hu).1

end
end TransportInv

/-! ## Receiving -/

lemma StreamState.forwardRemoved_eq_some {σ : StreamState} {rs : List RangeID}
    (h : ∀ r ∈ rs, r ∈ σ.tracked) : ∃ fs, σ.forwardRemoved rs = some fs ∧
      ∀ f ∈ fs, ∃ info, σ.tracked.lookup f.rangeID = some info ∧
        f.closedTS = σ.lastClosed info.policy ∧ f.lai = info.lai := by
  induction rs with
  | nil => exact ⟨[], rfl, fun f hf => absurd hf not_mem_nil⟩
  | cons r rs ih =>
    obtain ⟨fs, hfs, hall⟩ := ih fun r' hr' => h r' (.tail _ hr')
    obtain ⟨info, hinfo⟩ := Finmap.mem_iff.mp (h r (.head _))
    refine ⟨⟨r, σ.lastClosed info.policy, info.lai⟩ :: fs, ?_, fun f hf => ?_⟩
    · simp [forwardRemoved, hinfo, hfs]
    rcases mem_cons.mp hf with rfl | hf
    · exact ⟨info, hinfo, rfl, rfl⟩
    · exact hall f hf

variable {nodeID : NodeID}

lemma Good.processUpdate {states : List StreamState} {msg : Update}
    {r : IncomingStream} (h : Good states nodeID r.state.lastSeqNum msg) (hzero : nodeID ≠ 0)
    (hnode : r.nodeID = nodeID) (hstate : states[r.state.lastSeqNum]? = some r.state) :
    ∃ fs, r.processUpdate msg = .ok ({ r with state := r.state.apply msg }, fs) ∧
      states[msg.seqNum]? = some (r.state.apply msg) ∧
      ∀ f ∈ fs, ∃ info, r.state.tracked.lookup f.rangeID = some info ∧
        f.closedTS = r.state.lastClosed info.policy ∧ f.lai = info.lai := by
  rcases h.effect with ⟨hsnap, hrem, heff⟩ | ⟨hsnap, hseq, ρ, hρ, heff, hrem⟩
  · refine ⟨[], ?_, heff r.state, fun f hf => absurd hf not_mem_nil⟩
    simp [IncomingStream.processUpdate, hnode, h.nodeID, hrem, forwardRemoved, hsnap,
      hzero]
  rw [hstate] at hρ
  cases hρ
  obtain ⟨fs, hfs, hall⟩ := forwardRemoved_eq_some hrem
  refine ⟨fs, ?_, heff, hall⟩
  simp [IncomingStream.processUpdate, hnode, h.nodeID, hfs, hseq, hzero]

namespace TransportInv

variable {t : Transport} {sid : StreamID} {st : Stream} {msg : Update} {rest : List Update}

lemma register (h : TransportInv t) (dest nodeID : NodeID) (sid : Option StreamID) :
    TransportInv (t.register dest nodeID sid) :=
  { h with inStep := fun id conn hconn => { h.inStep id conn hconn with } }

lemma process (h : TransportInv t) (hst : t.streams sid = some st) {st' : Stream}
    (hqueue : st.queue = msg :: rest) (howner : st'.owner = st.owner)
    (hstate : st'.incoming.state = st.incoming.state)
    (hnode : st'.incoming.nodeID = t.sender.nodeID) :
    TransportInv (t.process sid st' msg rest) := by
  have hr := h.replicates sid st hst
  have hfeeds := hr.feeds
  rw [hqueue] at hfeeds
  have hgood := hfeeds.1
  rw [← hstate] at hgood
  obtain ⟨fs, hproc, hnew, hfs⟩ := hgood.processUpdate h.published.nodeID hnode
    (by rw [hstate]; exact hr.state)
  rw [Transport.process, hproc]
  have hset : TransportInv (t.setStream sid
      { st' with
        incoming := { st'.incoming with state := st'.incoming.state.apply msg }
        queue := rest }) := by
    refine h.setStream hst ⟨hnew, fun hzero => ?_, fun _ => .inr hnode, hfeeds.2⟩ howner ?_
    · exact absurd (hnode.symm.trans hzero) h.published.nodeID
    rw [hqueue]
    rfl
  refine { hset with
    inStep := fun id conn hconn => { hset.inStep id conn hconn with }
    forwarded := fun f hf => ?_ }
  rcases mem_append.mp hf with hf | hf
  · exact h.forwarded f hf
  obtain ⟨info, hinfo, hts, hlai⟩ := hfs f hf
  rw [hstate] at hinfo hts
  obtain ⟨x, hx, hxr, hxts, hxlai⟩ := h.published.closed _ _ hr.state f.rangeID info hinfo
  exact ⟨x, hx, hxr, hxts.trans hts.symm, hlai ▸ hxlai⟩

lemma receive (h : TransportInv t) (hst : t.streams sid = some st)
    (hqueue : st.queue = msg :: rest) (hreading : st.reading) :
    TransportInv (t.receive sid st msg rest) := by
  have hr := h.replicates sid st hst
  have hfeeds := hr.feeds
  rw [hqueue] at hfeeds
  unfold Transport.receive
  by_cases hzero : st.incoming.nodeID = 0
  · rw [if_pos hzero]
    have hsnapshot := hfeeds.1.first (hr.unnamed hzero)
    split
    · exact h.setStream hst ⟨hr.state, fun _ => hr.unnamed hzero, nofun, hr.feeds⟩ rfl rfl
    rw [if_neg (by simp [hsnapshot])]
    apply process (t := t.register st.dest msg.nodeID (some sid)) (h.register ..) hst hqueue
    · rfl
    · rfl
    · exact hfeeds.1.nodeID
  · rw [if_neg hzero]
    exact h.process hst hqueue rfl rfl ((hr.named hreading).resolve_left hzero)

lemma recvErr (h : TransportInv t) (hst : t.streams sid = some st) :
    TransportInv (t.recvErr sid st) := by
  have hr := h.replicates sid st hst
  have hset : TransportInv (t.setStream sid { st with reading := false }) :=
    h.setStream hst ⟨hr.state, hr.unnamed, nofun, hr.feeds⟩ rfl rfl
  unfold Transport.recvErr
  split_ifs
  · exact hset
  · exact hset.register ..

end TransportInv

lemma transportInv_start (h : nodeID ≠ 0) :
    TransportInv (Transport.start nodeID) where
  fatal := rfl
  published :=
    { nodeID := h
      buf := .empty
      length := rfl
      current := rfl
      initial := rfl
      seqNum := by
        intro i σ hσ
        rw [Transport.start, List.getElem?_singleton] at hσ
        split_ifs at hσ with hi
        cases hσ
        exact hi.symm
      good := fun _ _ hm => by cases hm
      closed := by
        intro i σ hσ r info hr
        rw [Transport.start, List.getElem?_singleton] at hσ
        split_ifs at hσ
        cases hσ
        cases hr }
  replicates := fun _ _ hst => by cases hst
  inStep := fun _ _ hconn => by cases hconn
  forwarded := fun _ hf => absurd hf not_mem_nil

variable {t : Transport}

lemma transportInv_step {t' : Transport} {a : TransportAction} (h : TransportInv t)
    (ha : t.Iterates a) (hstep : t.step a = some t') : TransportInv t' := by
  rw [Transport.step, h.fatal, if_neg (by simp)] at hstep
  cases a with
  | registerLeaseholder rangeID lh =>
    cases hstep
    apply h.of_leaseholders <;> unfold registerLeaseholder <;> split <;>
      try split_ifs
    all_goals rfl
  | unregisterLeaseholder storeID rangeID =>
    cases hstep
    apply h.of_leaseholders <;> unfold unregisterLeaseholder <;> split <;>
      try split_ifs
    all_goals rfl
  | publish c =>
    cases hstep
    exact h.publish ha
  | closeBuf =>
    cases hstep
    exact h.of_leaseholders rfl rfl rfl
  | newConn id nodeID =>
    simp only [Transport.act] at hstep
    split at hstep
    · cases hstep
    cases hstep
    exact h.setConn ⟨Nat.zero_le _, fun _ => rfl, nofun⟩
  | connect id sid =>
    simp only [Transport.act] at hstep
    split at hstep
    · rename_i conn hconn hsid
      split_ifs at hstep with hidle
      cases hstep
      exact h.connect hconn (isNone_iff_eq_none.mp hidle) hsid
    · cases hstep
  | send id order ok =>
    obtain ⟨⟨conn, sid, st⟩, hconn, rfl⟩ := map_eq_some_iff.mp hstep
    obtain ⟨conn', hconn', hsome⟩ := bind_eq_some_iff.mp hconn
    obtain ⟨sid', hsid', hmap⟩ := bind_eq_some_iff.mp hsome
    obtain ⟨st', hst', heq⟩ := map_eq_some_iff.mp hmap
    cases heq
    exact h.send hconn' hsid' hst' ha ok
  | cleanup id =>
    obtain ⟨conn, -, rfl⟩ := map_eq_some_iff.mp hstep
    exact h.cleanupStream id conn
  | receive sid =>
    simp only [Transport.act] at hstep
    split at hstep
    · cases hstep
    rename_i st hst
    split at hstep
    · cases hstep
    rename_i msg rest hqueue
    split_ifs at hstep with hreading
    cases hstep
    exact h.receive hst hqueue hreading
  | recvErr sid =>
    simp only [Transport.act] at hstep
    split at hstep
    · cases hstep
    rename_i st hst
    split_ifs at hstep
    cases hstep
    exact h.recvErr hst

lemma transportInv_of_reachable (hnode : nodeID ≠ 0)
    (h : Reachable Transport.step Transport.Iterates (Transport.start nodeID) t) :
    TransportInv t :=
  h.invariant (transportInv_start hnode) fun _ _ _ _ ht ha hstep => transportInv_step ht ha hstep

lemma TransportInv.getClosedTimestamp (h : TransportInv t) (dest : NodeID)
    (rangeID : RangeID) (leaseholderNode : NodeID) {ts : Timestamp} {lai : ℕ}
    (hget : t.getClosedTimestamp dest rangeID leaseholderNode = (ts, lai)) :
    (ts = {} ∧ lai = 0) ∨ WasClosed t.closed ⟨rangeID, ts, lai⟩ := by
  unfold Transport.getClosedTimestamp at hget
  split at hget
  · cases hget
    exact .inl ⟨rfl, rfl⟩
  rename_i st hst
  obtain ⟨sid, -, hst⟩ := bind_eq_some_iff.mp hst
  unfold StreamState.getClosedTimestamp at hget
  split at hget
  · cases hget
    exact .inl ⟨rfl, rfl⟩
  rename_i info hinfo
  cases hget
  exact .inr (h.published.closed _ _ (h.replicates sid st hst).state rangeID info hinfo)

/-- In every run a receiving end that has processed message `n` has the sender's state after cycle
`n`, no assertion fails, and all that it hands on was closed by the leaseholder of the range. -/
theorem side_transport_replicates_sender {nodeID : NodeID} (hnode : nodeID ≠ 0) {t : Transport}
    (h : Reachable Transport.step Transport.Iterates (Transport.start nodeID) t) :
    t.fatal = none ∧
      (∀ sid st, t.streams sid = some st →
        t.states[st.incoming.state.lastSeqNum]? = some st.incoming.state) ∧
      (∀ f ∈ t.forwarded, WasClosed t.closed f) ∧
      (∀ dest rangeID leaseholderNode ts lai,
        t.getClosedTimestamp dest rangeID leaseholderNode = (ts, lai) →
        (ts = {} ∧ lai = 0) ∨ WasClosed t.closed ⟨rangeID, ts, lai⟩) := by
  have ht := transportInv_of_reachable hnode h
  refine ⟨ht.fatal, fun sid st hst => (ht.replicates sid st hst).state, ht.forwarded, ?_⟩
  intro dest rangeID leaseholderNode ts lai hget
  exact ht.getClosedTimestamp dest rangeID leaseholderNode hget

/-- A range that is closed in the first cycle only: the receiving end hands on what it had for it.
-/
theorem side_transport_replicates_one_range :
    ∃ t, Reachable Transport.step Transport.Iterates (Transport.start 1) t ∧
      t.forwarded = [⟨7, ⟨10, 0, false⟩, 3⟩] ∧ t.fatal = none ∧
      ∀ f ∈ t.forwarded, WasClosed t.closed f := by
  obtain ⟨t, hr, ht⟩ := @exists_reachable_of_admitted_run _ _ Transport.step Transport.Iterates
    (Transport.start 1) _
    [.registerLeaseholder 7 ⟨1, 5⟩, .newConn 0 2, .connect 0 0,
      .publish ⟨fun _ => ⟨10, 0, false⟩, [], [(7, { ok := true, lai := 3 })]⟩,
      .send 0 [7] true, .receive 0,
      .publish ⟨fun _ => ⟨11, 0, false⟩, [7], [(7, { ok := false })]⟩,
      .send 0 [] true, .receive 0]
    (fun t => t.forwarded == [⟨7, ⟨10, 0, false⟩, 3⟩]) (by decide)
  have hmain := side_transport_replicates_sender (by decide) hr
  exact ⟨t, hr, by simpa using ht, hmain.1, hmain.2.2.1⟩

end MeshDB.SideTransport
