import MeshDB.Lib.Reachability
import MeshDB.Lib.RingBuffer
import MeshDB.Util.Hlc
import Mathlib.Data.Finmap

/-!
# The closed timestamp side transport

The `Sender` and the `incomingStream` of `closedts/sidetransport`. In every publish cycle the
sender fixes one closed timestamp per policy and tells which ranges entered or left the tracked
ones; a range that stays is closed implicitly. Cycles and snapshots are given the order in which
they iterate a map.
-/
namespace MeshDB.SideTransport

open List Hlc

abbrev RangeID := ℕ
abbrev NodeID := ℕ
abbrev StoreID := ℕ

/-! ## Messages and states -/

inductive RangeClosedTimestampPolicy where
  | lagByClusterSetting
  | leadForGlobalReads
deriving DecidableEq

def policies : List RangeClosedTimestampPolicy := [.lagByClusterSetting, .leadForGlobalReads]

abbrev ClosedByPolicy := RangeClosedTimestampPolicy → Timestamp

structure TrackedRange where
  lai : ℕ
  policy : RangeClosedTimestampPolicy
deriving DecidableEq

abbrev TrackedRanges := Finmap fun _ : RangeID => TrackedRange

structure StreamState where
  lastSeqNum : ℕ := 0
  lastClosed : ClosedByPolicy := fun _ => {}
  tracked : TrackedRanges := ∅

structure GroupUpdate where
  policy : RangeClosedTimestampPolicy
  closedTimestamp : Timestamp
deriving DecidableEq

structure RangeUpdate where
  rangeID : RangeID
  lai : ℕ
  policy : RangeClosedTimestampPolicy
deriving DecidableEq

structure Update where
  nodeID : NodeID
  seqNum : ℕ
  snapshot : Bool
  closedTimestamps : List GroupUpdate
  removed : List RangeID := []
  addedOrUpdated : List RangeUpdate := []
deriving DecidableEq

/-- The assertions of the code that end the process. -/
inductive Fatal where
  /-- `bad sequence number; expected %d, got %d` -/
  | badSequenceNumber
  /-- `skipping sequence numbers; requested: %d, last: %d` -/
  | skippingSequenceNumbers
  /-- `missing NodeID in message: %s` -/
  | missingNodeID
  /-- `wrong NodeID; expected %d, got %d` -/
  | wrongNodeID
  /-- `attempting to unregister a missing range: r%d` -/
  | missingRange
  /-- `expected closed timestamp side-transport message with sequence number %d, got %d` -/
  | unexpectedSequenceNumber
  /-- `expected the first message to be a snapshot` -/
  | expectedSnapshot
deriving DecidableEq

def insertAll (m : TrackedRanges) (us : List RangeUpdate) : TrackedRanges :=
  us.foldl (fun m u => m.insert u.rangeID ⟨u.lai, u.policy⟩) m

def eraseAll (m : TrackedRanges) (rs : List RangeID) : TrackedRanges :=
  rs.foldl (fun m r => m.erase r) m

def setClosed (closed : ClosedByPolicy) (us : List GroupUpdate) : ClosedByPolicy :=
  us.foldl (fun c u => Function.update c u.policy u.closedTimestamp) closed

def groupUpdates (lastClosed : ClosedByPolicy) : List GroupUpdate :=
  policies.map fun p => ⟨p, lastClosed p⟩

/-! ## The sender -/

structure Leaseholder where
  storeID : StoreID
  leaseSeq : ℕ
deriving DecidableEq

/-- What a leaseholder answers when asked to close a timestamp. -/
structure BumpSideTransportClosedResult where
  ok : Bool
  lai : ℕ := 0
  policy : RangeClosedTimestampPolicy := .lagByClusterSetting
deriving DecidableEq

/-- How many updates the sender keeps for slow connections. -/
def updatesBufSize : ℕ := 50

/-- The ring of the last updates, shared by all connections. -/
structure UpdatesBuf where
  ring : RingBuffer Update := { capacity := updatesBufSize }
  closed : Bool := false

namespace UpdatesBuf

/-- `Push`, with the check that no sequence number is left out. -/
def push (b : UpdatesBuf) (update : Update) : Except Fatal UpdatesBuf :=
  if b.ring.size ≠ 0 ∧
      (b.ring.data b.ring.lastIdx).map (fun u => u.seqNum + 1) ≠ some update.seqNum then
    .error .badSequenceNumber
  else .ok { b with ring := b.ring.push update }

inductive GetResult where
  /-- The producer closed the buffer. -/
  | closed
  /-- The message is no longer in the buffer. -/
  | tooOld
  /-- The message has not been produced yet, and the consumer waits. -/
  | wait
  | message (update : Option Update)
  | fatal (err : Fatal)

/-- The oldest buffered sequence number; `0` when empty. -/
def firstSeq (b : UpdatesBuf) : ℕ :=
  if b.ring.size = 0 then 0 else ((b.ring.data b.ring.head).map Update.seqNum).getD 0

/-- The newest buffered sequence number; `0` when empty. -/
def lastSeq (b : UpdatesBuf) : ℕ :=
  if b.ring.size = 0 then 0 else ((b.ring.data b.ring.lastIdx).map Update.seqNum).getD 0

/-- What a connection waiting for `seqNum` finds. -/
def getBySeq (b : UpdatesBuf) (seqNum : ℕ) : GetResult :=
  if b.closed then .closed
  else if seqNum < b.firstSeq then .tooOld
  else if seqNum = b.lastSeq + 1 then .wait
  else if b.lastSeq + 1 < seqNum then .fatal .skippingSequenceNumbers
  else .message (b.ring.slot (seqNum - b.firstSeq))

end UpdatesBuf

/-- The sending side of one node. -/
structure Sender where
  nodeID : NodeID
  state : StreamState := {}
  leaseholders : Finmap (fun _ : RangeID => Leaseholder) := ∅
  buf : UpdatesBuf := {}

namespace Sender

/-- A newer lease of the range replaces an older one. -/
def registerLeaseholder (s : Sender) (rangeID : RangeID) (lh : Leaseholder) : Sender :=
  match s.leaseholders.lookup rangeID with
  | some old =>
    if lh.leaseSeq ≤ old.leaseSeq then s
    else { s with leaseholders := s.leaseholders.insert rangeID lh }
  | none => { s with leaseholders := s.leaseholders.insert rangeID lh }

/-- Only the store that registered can unregister. -/
def unregisterLeaseholder (s : Sender) (storeID : StoreID) (rangeID : RangeID) : Sender :=
  match s.leaseholders.lookup rangeID with
  | some lh =>
    if lh.storeID = storeID then { s with leaseholders := s.leaseholders.erase rangeID } else s
  | none => s

end Sender

/-- What a publish cycle meets: the targets, the tracked ranges and the leaseholders, each in loop
order. -/
structure Cycle where
  target : ClosedByPolicy
  trackedOrder : List RangeID
  closeResults : List (RangeID × BumpSideTransportClosedResult)

/-- The cycle visits what the sender tracks and leads, once each. -/
structure Cycle.IsOf (c : Cycle) (s : Sender) : Prop where
  tracked : c.trackedOrder.toFinset = s.state.tracked.keys
  tracked_nodup : c.trackedOrder.Nodup
  leaseholders : (c.closeResults.map Prod.fst).toFinset = s.leaseholders.keys
  leaseholders_nodup : (c.closeResults.map Prod.fst).Nodup

instance (c : Cycle) (s : Sender) : Decidable (c.IsOf s) :=
  decidable_of_iff (c.trackedOrder.toFinset = s.state.tracked.keys ∧ c.trackedOrder.Nodup ∧
      (c.closeResults.map Prod.fst).toFinset = s.leaseholders.keys ∧
      (c.closeResults.map Prod.fst).Nodup)
    ⟨fun ⟨h₁, h₂, h₃, h₄⟩ => ⟨h₁, h₂, h₃, h₄⟩, fun ⟨h₁, h₂, h₃, h₄⟩ => ⟨h₁, h₂, h₃, h₄⟩⟩

/-- The message of a cycle and the tracked ranges while the loops run. -/
structure Draft where
  tracked : TrackedRanges
  removed : List RangeID := []
  addedOrUpdated : List RangeUpdate := []

namespace Draft

/-- The range leaves the message's tracked set. -/
def remove (d : Draft) (rid : RangeID) : Draft :=
  { d with removed := d.removed ++ [rid], tracked := d.tracked.erase rid }

/-- The range is mentioned explicitly in the message. -/
def add (d : Draft) (u : RangeUpdate) : Draft :=
  { d with
    addedOrUpdated := d.addedOrUpdated ++ [u]
    tracked := d.tracked.insert u.rangeID ⟨u.lai, u.policy⟩ }

/-- A range without a local leaseholder is removed. -/
def untrack (leaseholders : Finmap fun _ : RangeID => Leaseholder) (d : Draft) (rid : RangeID) :
    Draft :=
  if rid ∈ leaseholders then d else d.remove rid

/-- The receiver cannot infer the range's entry. -/
def needExplicit (lastMsg : Option TrackedRange) (res : BumpSideTransportClosedResult) : Bool :=
  match lastMsg with
  | none => true
  | some lastMsg => lastMsg.lai < res.lai || lastMsg.policy != res.policy

/-- One leaseholder's answer, folded into the message. -/
def close (d : Draft) (lh : RangeID × BumpSideTransportClosedResult) : Draft :=
  if !lh.2.ok then if lh.1 ∈ d.tracked then d.remove lh.1 else d
  else if needExplicit (d.tracked.lookup lh.1) lh.2 then d.add ⟨lh.1, lh.2.lai, lh.2.policy⟩
  else d

end Draft

namespace Sender

/-- The message of a cycle before it is numbered. -/
def draft (s : Sender) (c : Cycle) : Draft :=
  c.closeResults.foldl Draft.close
    (c.trackedOrder.foldl (Draft.untrack s.leaseholders) { tracked := s.state.tracked })

/-- The stream state after the cycle. -/
def nextState (s : Sender) (c : Cycle) : StreamState where
  lastSeqNum := s.state.lastSeqNum + 1
  lastClosed := c.target
  tracked := (s.draft c).tracked

/-- The numbered message; the first one is a snapshot. -/
def nextMessage (s : Sender) (c : Cycle) : Update where
  nodeID := s.nodeID
  seqNum := s.state.lastSeqNum + 1
  snapshot := s.state.lastSeqNum + 1 == 1
  closedTimestamps := groupUpdates c.target
  removed := (s.draft c).removed
  addedOrUpdated := (s.draft c).addedOrUpdated

/-- One `publish` cycle of the sender. -/
def publish (s : Sender) (c : Cycle) : Except Fatal Sender :=
  match s.buf.push (s.nextMessage c) with
  | .error err => .error err
  | .ok buf => .ok { s with state := s.nextState c, buf := buf }

/-- The whole stream state as one message. -/
def getSnapshot (s : Sender) (order : List RangeID) : Update where
  nodeID := s.nodeID
  seqNum := s.state.lastSeqNum
  snapshot := true
  closedTimestamps := groupUpdates s.state.lastClosed
  addedOrUpdated := order.filterMap fun rid =>
    (s.state.tracked.lookup rid).map fun r => ⟨rid, r.lai, r.policy⟩

end Sender

/-! ## The receiver -/

/-- What the stores of the receiver are told. -/
structure ClosedInfo where
  rangeID : RangeID
  closedTS : Timestamp
  lai : ℕ
deriving DecidableEq

/-- A stream at the receiver; `nodeID` is 0 until its first message. -/
structure IncomingStream where
  nodeID : NodeID := 0
  state : StreamState := {}

namespace StreamState

def getClosedTimestamp (s : StreamState) (rangeID : RangeID) : Timestamp × ℕ :=
  match s.tracked.lookup rangeID with
  | none => ({}, 0)
  | some info => (s.lastClosed info.policy, info.lai)

/-- What a message's removed ranges hand to the local replicas; `none` is the fatal error. -/
def forwardRemoved (s : StreamState) : List RangeID → Option (List ClosedInfo)
  | [] => some []
  | rid :: rids =>
    match s.tracked.lookup rid with
    | none => none
    | some info =>
      (s.forwardRemoved rids).map (⟨rid, s.lastClosed info.policy, info.lai⟩ :: ·)

/-- A snapshot forgets what the stream tracked before. -/
def apply (s : StreamState) (msg : Update) : StreamState where
  lastSeqNum := msg.seqNum
  lastClosed := setClosed (if msg.snapshot then fun _ => {} else s.lastClosed) msg.closedTimestamps
  tracked := eraseAll (insertAll (if msg.snapshot then ∅ else s.tracked) msg.addedOrUpdated)
    msg.removed

end StreamState

/-- The checks of `processUpdate`, then the update and the notifications. -/
def IncomingStream.processUpdate (r : IncomingStream) (msg : Update) :
    Except Fatal (IncomingStream × List ClosedInfo) :=
  if msg.nodeID = 0 then .error .missingNodeID
  else if msg.nodeID ≠ r.nodeID then .error .wrongNodeID
  else
    match r.state.forwardRemoved msg.removed with
    | none => .error .missingRange
    | some forwarded =>
      if !msg.snapshot && msg.seqNum != r.state.lastSeqNum + 1 then
        .error .unexpectedSequenceNumber
      else .ok ({ r with state := r.state.apply msg }, forwarded)

/-! ## What a message does to a state -/

variable {m : TrackedRanges} {r : RangeID}

lemma lookup_eraseAll (rs : List RangeID) :
    (eraseAll m rs).lookup r = if r ∈ rs then none else m.lookup r := by
  induction rs generalizing m with
  | nil => simp [eraseAll]
  | cons a rs ih =>
    have hstep : eraseAll m (a :: rs) = eraseAll (m.erase a) rs := rfl
    rw [hstep, ih]
    by_cases hmem : r ∈ rs
    · simp [hmem]
    by_cases ha : r = a
    · subst ha
      simp [Finmap.lookup_erase]
    · simp [hmem, ha, Finmap.lookup_erase_ne ha]

lemma insertAll_append (us : List RangeUpdate) (u : RangeUpdate) :
    insertAll m (us ++ [u]) = (insertAll m us).insert u.rangeID ⟨u.lai, u.policy⟩ := by
  simp [insertAll]

lemma lookup_insertAll_of_not_mem {us : List RangeUpdate} (h : r ∉ us.map RangeUpdate.rangeID) :
    (insertAll m us).lookup r = m.lookup r := by
  induction us generalizing m with
  | nil => rfl
  | cons u us ih =>
    rw [map_cons, mem_cons, not_or] at h
    have hstep : insertAll m (u :: us) = insertAll (m.insert u.rangeID ⟨u.lai, u.policy⟩) us := rfl
    rw [hstep, ih h.2, Finmap.lookup_insert_of_ne m h.1]

lemma setClosed_groupUpdates (closed target : ClosedByPolicy) :
    setClosed closed (groupUpdates target) = target := by
  funext p
  cases p <;> simp [setClosed, groupUpdates, policies]

lemma apply_eq {σ : StreamState} {msg : Update} {target : ClosedByPolicy}
    (hclosed : msg.closedTimestamps = groupUpdates target)
    (htracked : eraseAll (insertAll (if msg.snapshot then ∅ else σ.tracked) msg.addedOrUpdated)
      msg.removed = m) : σ.apply msg = ⟨msg.seqNum, target, m⟩ := by
  rw [StreamState.apply, hclosed, setClosed_groupUpdates, htracked]

/-! ## A cycle and its message -/

/-- The draft agrees with its tracked ranges, and names only ranges that were gone through. -/
structure Draft.Agrees (start : TrackedRanges) (seen : List RangeID) (d : Draft) : Prop where
  lookup : ∀ r, (eraseAll (insertAll start d.addedOrUpdated) d.removed).lookup r =
    d.tracked.lookup r
  removed : ∀ r ∈ d.removed, r ∈ start
  seen_removed : ∀ r ∈ d.removed, r ∈ seen
  seen_added : ∀ r ∈ d.addedOrUpdated.map RangeUpdate.rangeID, r ∈ seen

namespace Draft.Agrees

variable {start : TrackedRanges} {seen : List RangeID} {d : Draft} {rid : RangeID}

section
variable (h : Draft.Agrees start seen d)
include h

lemma mono {seen' : List RangeID} (hsub : ∀ r ∈ seen, r ∈ seen') : Draft.Agrees start seen' d :=
  { h with
    seen_removed := fun r hr => hsub r (h.seen_removed r hr)
    seen_added := fun r hr => hsub r (h.seen_added r hr) }

lemma lookup_of_not_seen (hrid : rid ∉ seen) : d.tracked.lookup rid = start.lookup rid := by
  rw [← h.lookup rid, lookup_eraseAll, if_neg fun hr => hrid (h.seen_removed rid hr),
    lookup_insertAll_of_not_mem fun hr => hrid (h.seen_added rid hr)]

lemma remove (hrid : rid ∉ seen) (hmem : rid ∈ d.tracked) :
    Draft.Agrees start (rid :: seen) (d.remove rid) where
  lookup := by
    intro r
    have hr := h.lookup r
    rw [lookup_eraseAll] at hr
    simp only [Draft.remove, lookup_eraseAll, mem_append, mem_singleton]
    by_cases heq : r = rid
    · subst heq
      simp [Finmap.lookup_erase]
    rw [Finmap.lookup_erase_ne heq, ← hr]
    simp [heq]
  removed := by
    intro r hr
    rcases mem_append.mp hr with hr | hr
    · exact h.removed r hr
    rw [mem_singleton.mp hr, ← Finmap.lookup_isSome, ← h.lookup_of_not_seen hrid,
      Finmap.lookup_isSome]
    exact hmem
  seen_removed := by
    intro r hr
    rcases mem_append.mp hr with hr | hr
    · exact .tail _ (h.seen_removed r hr)
    · exact mem_cons.mpr (.inl (mem_singleton.mp hr))
  seen_added := fun r hr => mem_cons_of_mem _ (h.seen_added r hr)

lemma add {u : RangeUpdate} (hrid : u.rangeID ∉ seen) :
    Draft.Agrees start (u.rangeID :: seen) (d.add u) where
  lookup := by
    intro r
    have hr := h.lookup r
    rw [lookup_eraseAll] at hr
    simp only [Draft.add, lookup_eraseAll, insertAll_append]
    by_cases heq : r = u.rangeID
    · rw [heq, if_neg fun hm => hrid (h.seen_removed _ hm), Finmap.lookup_insert,
        Finmap.lookup_insert]
    · rw [Finmap.lookup_insert_of_ne _ heq, Finmap.lookup_insert_of_ne _ heq, hr]
  removed := h.removed
  seen_removed := fun r hr => mem_cons_of_mem _ (h.seen_removed r hr)
  seen_added := by
    intro r hr
    simp only [Draft.add, map_append, mem_append, map_cons, map_nil, mem_singleton] at hr
    rcases hr with hr | rfl
    · exact .tail _ (h.seen_added r hr)
    · exact .head _

lemma untrackAll {leaseholders : Finmap fun _ : RangeID => Leaseholder} {order : List RangeID}
    (hnodup : order.Nodup)
    (hmem : ∀ r ∈ order, r ∈ start ∧ r ∉ seen) (hlh : ∀ r ∈ seen, r ∉ leaseholders) :
    ∃ seen', Draft.Agrees start seen' (order.foldl (Draft.untrack leaseholders) d) ∧
      ∀ r ∈ seen', r ∉ leaseholders := by
  induction order generalizing d seen with
  | nil => exact ⟨seen, h, hlh⟩
  | cons rid order ih =>
    rw [nodup_cons] at hnodup
    obtain ⟨hstart, hseen⟩ := hmem rid (.head _)
    rw [foldl_cons, Draft.untrack]
    split_ifs with hr
    · exact ih h hnodup.2 (fun r hr => hmem r (.tail _ hr)) hlh
    have htracked : rid ∈ d.tracked := by
      rw [← Finmap.lookup_isSome, h.lookup_of_not_seen hseen, Finmap.lookup_isSome]
      exact hstart
    refine ih (h.remove hseen htracked) hnodup.2 (fun r hr => ⟨?_, ?_⟩) ?_
    · exact (hmem r (.tail _ hr)).1
    · rw [mem_cons, not_or]
      refine ⟨fun heq => hnodup.1 (heq ▸ hr), (hmem r (.tail _ hr)).2⟩
    intro r hmem'
    rcases mem_cons.mp hmem' with rfl | hmem'
    · exact hr
    · exact hlh r hmem'

lemma closeAll {lhs : List (RangeID × BumpSideTransportClosedResult)}
    (hnodup : (lhs.map Prod.fst).Nodup) (hmem : ∀ r ∈ lhs.map Prod.fst, r ∉ seen) :
    ∃ seen', Draft.Agrees start seen' (lhs.foldl Draft.close d) := by
  induction lhs generalizing d seen with
  | nil => exact ⟨seen, h⟩
  | cons lh lhs ih =>
    rw [map_cons, nodup_cons] at hnodup
    have hseen := hmem lh.1 (.head _)
    have hrest : ∀ r ∈ lhs.map Prod.fst, r ∉ lh.1 :: seen := by
      intro r hr
      rw [mem_cons, not_or]
      exact ⟨fun heq => hnodup.1 (heq ▸ hr), hmem r (.tail _ hr)⟩
    have hsame : Draft.Agrees start (lh.1 :: seen) d :=
      h.mono fun r hr => mem_cons_of_mem _ hr
    rw [foldl_cons, Draft.close]
    split_ifs with hok htracked hexp
    · exact ih (h.remove hseen htracked) hnodup.2 hrest
    · exact ih hsame hnodup.2 hrest
    · exact ih (h.add (u := ⟨lh.1, lh.2.lai, lh.2.policy⟩) hseen) hnodup.2 hrest
    · exact ih hsame hnodup.2 hrest

end
end Draft.Agrees

/-! ### Tracked ranges were closed in the cycle -/

/-- The cycle closed the range at an index up to `info.lai`. -/
def Cycle.Closes (c : Cycle) (rid : RangeID) (info : TrackedRange) : Prop :=
  ∃ res, (rid, res) ∈ c.closeResults ∧ res.ok ∧ res.policy = info.policy ∧ res.lai ≤ info.lai

variable {d : Draft}

lemma Draft.mem_untrackAll {leaseholders : Finmap fun _ : RangeID => Leaseholder}
    {order : List RangeID} (h : ∀ r ∈ d.tracked, r ∈ order ∨ r ∈ leaseholders) :
    ∀ r ∈ (order.foldl (Draft.untrack leaseholders) d).tracked, r ∈ leaseholders := by
  induction order generalizing d with
  | nil =>
    intro r hr
    exact (h r hr).resolve_left not_mem_nil
  | cons rid order ih =>
    refine ih fun r hr => ?_
    rw [Draft.untrack] at hr
    split_ifs at hr with hlh
    · rcases h r hr with hmem | hmem
      · rcases mem_cons.mp hmem with rfl | hmem
        · exact .inr hlh
        · exact .inl hmem
      · exact .inr hmem
    · obtain ⟨hne, hmem⟩ := Finmap.mem_erase.mp hr
      exact (h r hmem).imp_left fun hm => (mem_cons.mp hm).resolve_left hne

variable {c : Cycle} {lh : RangeID × BumpSideTransportClosedResult} {info : TrackedRange}

lemma Draft.close_closes
    (hlh : lh ∈ c.closeResults)
    (h : (d.close lh).tracked.lookup lh.1 = some info) : c.Closes lh.1 info := by
  rw [Draft.close] at h
  split_ifs at h with hok htracked hexp
  · rw [Draft.remove, Finmap.lookup_erase] at h
    cases h
  · rw [← Finmap.lookup_isSome, h] at htracked
    exact absurd rfl htracked
  · rw [Draft.add, Finmap.lookup_insert] at h
    cases h
    exact ⟨lh.2, hlh, by simpa using hok, rfl, le_rfl⟩
  rw [h] at hexp
  simp only [Draft.needExplicit, Bool.or_eq_true, decide_eq_true_eq, bne_iff_ne, not_or, not_lt,
    not_not] at hexp
  exact ⟨lh.2, hlh, by simpa using hok, hexp.2.symm, hexp.1⟩

variable {r : RangeID}

lemma Draft.lookup_close_of_ne
    (h : r ≠ lh.1) : (d.close lh).tracked.lookup r = d.tracked.lookup r := by
  rw [Draft.close]
  split_ifs
  · exact Finmap.lookup_erase_ne h
  · rfl
  · exact Finmap.lookup_insert_of_ne _ h
  · rfl

lemma Draft.closeAll_closes {lhs : List (RangeID × BumpSideTransportClosedResult)}
    (hlhs : ∀ lh ∈ lhs, lh ∈ c.closeResults)
    (h : ∀ r info, d.tracked.lookup r = some info → r ∈ lhs.map Prod.fst ∨ c.Closes r info) :
    ∀ r info, (lhs.foldl Draft.close d).tracked.lookup r = some info → c.Closes r info := by
  induction lhs generalizing d with
  | nil =>
    intro r info hr
    exact (h r info hr).resolve_left not_mem_nil
  | cons lh lhs ih =>
    refine ih (fun lh' hmem => hlhs lh' (.tail _ hmem)) fun r info hr => ?_
    by_cases heq : r = lh.1
    · subst heq
      exact .inr (Draft.close_closes (hlhs lh (.head _)) hr)
    rw [Draft.lookup_close_of_ne heq] at hr
    exact (h r info hr).imp_left fun hmem => (mem_cons.mp hmem).resolve_left heq

namespace Sender

variable {s : Sender} {c : Cycle}

section
variable (hc : c.IsOf s)
include hc

lemma draft_agrees : ∃ seen, Draft.Agrees s.state.tracked seen (s.draft c) := by
  have hstart : Draft.Agrees s.state.tracked [] { tracked := s.state.tracked } :=
    ⟨fun _ => rfl, by simp, by simp, by simp⟩
  have htracked : ∀ r ∈ c.trackedOrder, r ∈ s.state.tracked ∧ r ∉ ([] : List RangeID) := by
    intro r hr
    rw [← Finmap.mem_keys, ← hc.tracked]
    exact ⟨mem_toFinset.mpr hr, not_mem_nil⟩
  have hnone : ∀ r ∈ ([] : List RangeID), r ∉ s.leaseholders := by simp
  obtain ⟨seen, hseen, hlh⟩ := hstart.untrackAll hc.tracked_nodup htracked hnone
  refine hseen.closeAll hc.leaseholders_nodup fun r hr hmem => hlh r hmem ?_
  rw [← Finmap.mem_keys, ← hc.leaseholders]
  exact mem_toFinset.mpr hr

lemma closes_of_tracked
    (h : (s.nextState c).tracked.lookup r = some info) : c.Closes r info := by
  have htracked : ∀ r ∈ ({ tracked := s.state.tracked } : Draft).tracked,
      r ∈ c.trackedOrder ∨ r ∈ s.leaseholders := by
    intro r hr
    rw [← Finmap.mem_keys, ← hc.tracked] at hr
    exact .inl (mem_toFinset.mp hr)
  refine Draft.closeAll_closes (fun lh hlh => hlh) (fun r info hr => .inl ?_) r info h
  have hmem := Draft.mem_untrackAll htracked r (Finmap.mem_of_lookup_eq_some hr)
  rw [← Finmap.mem_keys, ← hc.leaseholders] at hmem
  exact mem_toFinset.mp hmem

lemma eraseAll_insertAll_draft :
    eraseAll (insertAll s.state.tracked (s.nextMessage c).addedOrUpdated)
      (s.nextMessage c).removed = (s.nextState c).tracked := by
  obtain ⟨seen, hd⟩ := draft_agrees hc
  exact Finmap.ext_lookup hd.lookup

/-- The message of a later cycle takes the state before the cycle to the one after it. -/
lemma apply_nextMessage (hseq : s.state.lastSeqNum ≠ 0) :
    s.state.apply (s.nextMessage c) = s.nextState c := by
  refine apply_eq rfl ?_
  rw [if_neg (by simpa [nextMessage] using hseq)]
  exact eraseAll_insertAll_draft hc

lemma apply_firstMessage (hseq : s.state.lastSeqNum = 0)
    (htracked : s.state.tracked = ∅) (t : StreamState) :
    t.apply (s.nextMessage c) = s.nextState c := by
  refine apply_eq rfl ?_
  rw [if_pos (by simp [nextMessage, hseq]), ← htracked]
  exact eraseAll_insertAll_draft hc

lemma mem_of_removed (hr : r ∈ (s.nextMessage c).removed) :
    r ∈ s.state.tracked := by
  obtain ⟨seen, hd⟩ := draft_agrees hc
  exact hd.removed r hr

end

/-! ### Snapshots -/

lemma lookup_insertAll_entries (tracked m : TrackedRanges) (order : List RangeID) (r : RangeID) :
    (insertAll m (order.filterMap fun rid =>
      (tracked.lookup rid).map fun t => ⟨rid, t.lai, t.policy⟩)).lookup r =
      if r ∈ order ∧ r ∈ tracked then tracked.lookup r else m.lookup r := by
  induction order generalizing m with
  | nil => simp [insertAll]
  | cons rid order ih =>
    rw [filterMap_cons]
    cases hrid : tracked.lookup rid with
    | none =>
      have hne : r ∈ tracked → r ≠ rid := by
        rintro hr rfl
        rw [← Finmap.lookup_isSome, hrid] at hr
        cases hr
      simp only [Option.map_none, ih, mem_cons]
      by_cases hr : r ∈ tracked
      · simp [hr, hne hr]
      · simp [hr]
    | some t =>
      have hstep : ∀ us, insertAll m (⟨rid, t.lai, t.policy⟩ :: us) =
          insertAll (m.insert rid ⟨t.lai, t.policy⟩) us := fun _ => rfl
      simp only [Option.map_some, hstep, ih, mem_cons]
      have hmem : rid ∈ tracked := Finmap.mem_of_lookup_eq_some hrid
      by_cases heq : r = rid
      · subst heq
        simp [hmem, hrid, Finmap.lookup_insert]
      · simp [heq, Finmap.lookup_insert_of_ne]

lemma apply_getSnapshot {order : List RangeID}
    (horder : order.toFinset = s.state.tracked.keys) (t : StreamState) :
    t.apply (s.getSnapshot order) = s.state := by
  have hsnap : (s.getSnapshot order).snapshot := rfl
  refine apply_eq rfl (Finmap.ext_lookup fun r => ?_)
  rw [if_pos hsnap, lookup_eraseAll, if_neg (by simp [getSnapshot]), getSnapshot,
    lookup_insertAll_entries]
  split_ifs with hr
  · rfl
  rw [Finmap.lookup_empty, eq_comm, Finmap.lookup_eq_none]
  intro hmem
  refine hr ⟨?_, hmem⟩
  rw [← mem_toFinset, horder, Finmap.mem_keys]
  exact hmem

end Sender

/-!
## Runs of the side transport

One sender with its connections, their streams and the receiving ends. The receiving end reads the
messages in the order they were sent, until it fails at any point. The transport keeps along what
a run has published and what leaseholders closed.
-/

open Option Function Transition

/-! ## The buffer of recent messages -/

/-- The buffer holds the last messages of the history. -/
structure UpdatesBuf.Stores (b : UpdatesBuf) (messages : List Update) : Prop where
  capacity : b.ring.capacity = updatesBufSize
  holds : b.ring.Holds (messages.drop (messages.length - updatesBufSize))
  seqNum : ∀ (i : ℕ) (u : Update), messages[i]? = some u → u.seqNum = i + 1

namespace UpdatesBuf.Stores

variable {b : UpdatesBuf} {messages : List Update}

lemma empty : UpdatesBuf.Stores {} [] where
  capacity := rfl
  holds := RingBuffer.holds_empty (by decide)
  seqNum := by simp

section
variable (h : b.Stores messages)
include h

lemma size_eq : b.ring.size = min messages.length updatesBufSize := by
  rw [h.holds.size_eq, length_drop]
  omega

lemma data_lastIdx (hne : messages ≠ []) :
    ∃ u, b.ring.data b.ring.lastIdx = some u ∧ u.seqNum = messages.length := by
  have hpos : 0 < messages.length := length_pos_iff.mpr hne
  obtain ⟨u, hu⟩ : ∃ u, messages[messages.length - 1]? = some u :=
    ⟨_, List.getElem?_eq_getElem (by omega)⟩
  have hlast : (messages.drop (messages.length - updatesBufSize)).getLast? = some u := by
    rw [getLast?_drop, if_neg (by simp only [updatesBufSize]; omega), getLast?_eq_getElem?, hu]
  refine ⟨u, h.holds.data_lastIdx hlast, ?_⟩
  rw [h.seqNum _ u hu]
  omega

lemma lastSeq_eq : b.lastSeq = messages.length := by
  have hsize := h.size_eq
  rw [UpdatesBuf.lastSeq]
  cases messages with
  | nil => simp [hsize]
  | cons m ms =>
    obtain ⟨u, hu, hseq⟩ := h.data_lastIdx (cons_ne_nil m ms)
    rw [if_neg, hu, map_some, hseq, getD_some]
    rw [hsize]
    simp [updatesBufSize]

lemma firstSeq_eq (hne : messages ≠ []) : b.firstSeq = messages.length - updatesBufSize + 1 := by
  have hpos : 0 < messages.length := length_pos_iff.mpr hne
  have hsize := h.size_eq
  obtain ⟨u, hu⟩ : ∃ u, messages[messages.length - updatesBufSize]? = some u :=
    ⟨_, List.getElem?_eq_getElem (by simp only [updatesBufSize]; omega)⟩
  have hslot := h.holds.slot_eq 0 u (by rw [List.getElem?_drop, Nat.add_zero]; exact hu)
  rw [RingBuffer.slot, Nat.add_zero, Nat.mod_eq_of_lt h.holds.head_lt] at hslot
  rw [UpdatesBuf.firstSeq, if_neg, hslot, map_some, getD_some, h.seqNum _ u hu]
  rw [hsize]
  simp only [updatesBufSize]
  omega

lemma push {u : Update} (hu : u.seqNum = messages.length + 1) :
    ∃ b', b.push u = .ok b' ∧ b'.Stores (messages ++ [u]) := by
  have hcheck : ¬(b.ring.size ≠ 0 ∧
      (b.ring.data b.ring.lastIdx).map (fun v => v.seqNum + 1) ≠ some u.seqNum) := by
    rintro ⟨hsize, hseq⟩
    have hne : messages ≠ [] := by
      rintro rfl
      exact hsize (by simp [h.size_eq])
    obtain ⟨v, hv, hvseq⟩ := h.data_lastIdx hne
    exact hseq (by simp [hv, hvseq, hu])
  refine ⟨{ b with ring := b.ring.push u }, if_neg hcheck, h.capacity, ?_, ?_⟩
  · have hcap := h.capacity
    have hsize : 0 < updatesBufSize := by decide
    rcases Nat.lt_or_ge messages.length updatesBufSize with hlt | hge
    · have hdrop : ∀ n ≤ updatesBufSize, n - updatesBufSize = 0 := fun n hn => by omega
      rw [length_append, length_singleton, hdrop _ hlt, drop_zero]
      have hholds := h.holds
      rw [hdrop _ hlt.le, drop_zero] at hholds
      exact hholds.push_of_lt (by omega) u
    have hlen : (messages.drop (messages.length - updatesBufSize)).length = b.ring.capacity := by
      rw [length_drop, hcap]
      omega
    have hpush := h.holds.push_of_full hlen u
    rw [tail_drop] at hpush
    rw [length_append, length_singleton, drop_append_of_le_length (by omega),
      show messages.length + 1 - updatesBufSize = messages.length - updatesBufSize + 1 by omega]
    exact hpush
  intro i v hv
  rcases Nat.lt_or_ge i messages.length with hlt | hge
  · rw [List.getElem?_append_left hlt] at hv
    exact h.seqNum i v hv
  rw [List.getElem?_append_right hge, List.getElem?_singleton] at hv
  split_ifs at hv with hi
  cases hv
  omega

/-- A consumer that asks for the message after a published one gets it, waits, or is told that it is
gone. -/
lemma getBySeq {n : ℕ} (hn : n ≤ messages.length) :
    b.getBySeq (n + 1) = .closed ∨ b.getBySeq (n + 1) = .wait ∨
      (b.getBySeq (n + 1) = .tooOld ∧ messages ≠ []) ∨
      ∃ u, b.getBySeq (n + 1) = .message (some u) ∧ messages[n]? = some u := by
  have hlast := h.lastSeq_eq
  unfold UpdatesBuf.getBySeq
  by_cases hclosed : b.closed
  · exact .inl (if_pos hclosed)
  rw [if_neg hclosed]
  by_cases hne : messages = []
  · have hlen : messages.length = 0 := by rw [hne]; rfl
    have hfirst : b.firstSeq = 0 := by
      rw [UpdatesBuf.firstSeq, if_pos (by simp [h.size_eq, hlen])]
    right; left
    rw [if_neg (by omega), if_pos (by omega)]
  have hfirst := h.firstSeq_eq hne
  by_cases hold : n + 1 < b.firstSeq
  · right; right; left
    exact ⟨if_pos hold, hne⟩
  rw [if_neg hold]
  by_cases hwait : n + 1 = b.lastSeq + 1
  · exact .inr (.inl (if_pos hwait))
  rw [if_neg hwait, if_neg (by omega)]
  right; right; right
  obtain ⟨u, hu⟩ : ∃ u, messages[n]? = some u := ⟨_, List.getElem?_eq_getElem (by omega)⟩
  refine ⟨u, ?_, hu⟩
  have hget : (messages.drop (messages.length - updatesBufSize))[n + 1 - b.firstSeq]? =
      some u := by
    rw [List.getElem?_drop, ← hu]
    congr 1
    omega
  rw [h.holds.slot_eq _ u hget]

end
end UpdatesBuf.Stores

/-! ## The transport -/

abbrev ConnID := ℕ
abbrev StreamID := ℕ

/-- A connection of the sender to one node. -/
structure RpcConn where
  nodeID : NodeID
  lastSent : ℕ := 0
  stream : Option StreamID := none
deriving DecidableEq

/-- One gRPC stream with the messages still in flight. -/
structure Stream where
  owner : ConnID
  dest : NodeID
  queue : List Update := []
  incoming : IncomingStream := {}
  reading : Bool := true

/-- The sender, its connections and all receivers. -/
structure Transport where
  sender : Sender
  conns : ConnID → Option RpcConn := fun _ => none
  streams : StreamID → Option Stream := fun _ => none
  /-- The `conns` of the receivers, by receiving and by sending node. -/
  registered : NodeID → NodeID → Option StreamID := fun _ _ => none
  fatal : Option Fatal := none
  forwarded : List ClosedInfo := []
  messages : List Update := []
  states : List StreamState := [{}]
  closed : List ClosedInfo := []

namespace Transport

def getClosedTimestamp (t : Transport) (dest : NodeID) (rangeID : RangeID)
    (leaseholderNode : NodeID) : Timestamp × ℕ :=
  match (t.registered dest leaseholderNode).bind t.streams with
  | none => ({}, 0)
  | some st => st.incoming.state.getClosedTimestamp rangeID

/-- What the leaseholders closed in the cycle. -/
def closedBy (c : Cycle) : List ClosedInfo :=
  (c.closeResults.filter fun lh => lh.2.ok).map fun lh =>
    ⟨lh.1, c.target lh.2.policy, lh.2.lai⟩

/-- The cycle, recorded in the history. -/
def publish (t : Transport) (c : Cycle) : Transport :=
  match t.sender.publish c with
  | .error err => { t with fatal := some err }
  | .ok sender =>
    { t with
      sender := sender
      messages := t.messages ++ [t.sender.nextMessage c]
      states := t.states ++ [sender.state]
      closed := t.closed ++ closedBy c }

def setConn (t : Transport) (id : ConnID) (conn : RpcConn) : Transport :=
  { t with conns := Function.update t.conns id (some conn) }

def setStream (t : Transport) (sid : StreamID) (st : Stream) : Transport :=
  { t with streams := Function.update t.streams sid (some st) }

variable {t : Transport} {id id' : ConnID} {conn : RpcConn} {sid sid' : StreamID} {st : Stream}

@[simp] lemma setConn_conns_self : (t.setConn id conn).conns id = some conn :=
  update_self ..

lemma setConn_conns_of_ne (h : id' ≠ id) : (t.setConn id conn).conns id' = t.conns id' :=
  update_of_ne h ..

@[simp] lemma setStream_streams_self : (t.setStream sid st).streams sid = some st :=
  update_self ..

lemma setStream_streams_of_ne (h : sid' ≠ sid) :
    (t.setStream sid st).streams sid' = t.streams sid' :=
  update_of_ne h ..

/-- The connection will start over with a snapshot. -/
def cleanupStream (t : Transport) (id : ConnID) (conn : RpcConn) : Transport :=
  t.setConn id { conn with stream := none, lastSent := 0 }

/-- A new stream of the connection. -/
def connect (t : Transport) (id : ConnID) (conn : RpcConn) (sid : StreamID) : Transport :=
  (t.setStream sid { owner := id, dest := conn.nodeID }).setConn id { conn with stream := some sid }

/-- Hands the message to gRPC, which may fail. -/
def sendMsg (t : Transport) (id : ConnID) (conn : RpcConn) (sid : StreamID) (st : Stream)
    (msg : Update) (ok : Bool) : Transport :=
  let conn := { conn with lastSent := msg.seqNum }
  if ok then (t.setStream sid { st with queue := st.queue ++ [msg] }).setConn id conn
  else t.cleanupStream id conn

/-- One round of the loop of `run` on a connected connection. -/
def send (t : Transport) (id : ConnID) (conn : RpcConn) (sid : StreamID) (st : Stream)
    (order : List RangeID) (ok : Bool) : Transport :=
  match t.sender.buf.getBySeq (conn.lastSent + 1) with
  | .closed => t.cleanupStream id conn
  | .wait => t
  | .fatal err => { t with fatal := some err }
  | .tooOld | .message none => t.sendMsg id conn sid st (t.sender.getSnapshot order) ok
  | .message (some msg) => t.sendMsg id conn sid st msg ok

/-- A message goes through `processUpdate` of the receiving end. -/
def process (t : Transport) (sid : StreamID) (st : Stream) (msg : Update) (rest : List Update) :
    Transport :=
  match st.incoming.processUpdate msg with
  | .error err => { t with fatal := some err }
  | .ok (incoming, forwarded) =>
    { t.setStream sid { st with incoming := incoming, queue := rest } with
      forwarded := t.forwarded ++ forwarded }

/-- Points the receiver's entry for `nodeID` at a stream. -/
def register (t : Transport) (dest nodeID : NodeID) (sid : Option StreamID) : Transport :=
  { t with
    registered := Function.update t.registered dest
      (Function.update (t.registered dest) nodeID sid) }

/-- The receiving end reads a message, and registers on the first one. -/
def receive (t : Transport) (sid : StreamID) (st : Stream) (msg : Update) (rest : List Update) :
    Transport :=
  if st.incoming.nodeID = 0 then
    let named : Stream := { st with incoming := ⟨msg.nodeID, st.incoming.state⟩ }
    match t.registered st.dest msg.nodeID with
    | some _ => t.setStream sid { named with reading := false }
    | none =>
      if !msg.snapshot then
        { t.register st.dest msg.nodeID (some sid) with fatal := some .expectedSnapshot }
      else (t.register st.dest msg.nodeID (some sid)).process sid named msg rest
  else t.process sid st msg rest

/-- The receiver leaves its read loop. -/
def recvErr (t : Transport) (sid : StreamID) (st : Stream) : Transport :=
  if st.incoming.nodeID = 0 then t.setStream sid { st with reading := false }
  else (t.setStream sid { st with reading := false }).register st.dest st.incoming.nodeID none

end Transport

/-- Everything a node of the system can do. -/
inductive TransportAction where
  | registerLeaseholder (rangeID : RangeID) (lh : Leaseholder)
  | unregisterLeaseholder (storeID : StoreID) (rangeID : RangeID)
  | publish (c : Cycle)
  /-- The sender stops: the buffer is closed. -/
  | closeBuf
  /-- A connection to a node is opened; closed ones are those that do nothing any more. -/
  | newConn (id : ConnID) (nodeID : NodeID)
  | connect (id : ConnID) (sid : StreamID)
  | send (id : ConnID) (order : List RangeID) (ok : Bool)
  /-- The connection gives up its stream. -/
  | cleanup (id : ConnID)
  | receive (sid : StreamID)
  | recvErr (sid : StreamID)

namespace Transport

/-- The live stream of a connection. -/
def connected (t : Transport) (id : ConnID) : Option (RpcConn × StreamID × Stream) :=
  (t.conns id).bind fun conn =>
    conn.stream.bind fun sid => (t.streams sid).map fun st => (conn, sid, st)

/-- One step; `none` where the action is not enabled. -/
def act (t : Transport) : TransportAction → Option Transport
  | .registerLeaseholder rangeID lh =>
    some { t with sender := t.sender.registerLeaseholder rangeID lh }
  | .unregisterLeaseholder storeID rangeID =>
    some { t with sender := t.sender.unregisterLeaseholder storeID rangeID }
  | .publish c => some (t.publish c)
  | .closeBuf =>
    some { t with sender := { t.sender with buf := { t.sender.buf with closed := true } } }
  | .newConn id nodeID =>
    match t.conns id with
    | some _ => none
    | none => some (t.setConn id { nodeID := nodeID })
  | .connect id sid =>
    match t.conns id, t.streams sid with
    | some conn, none => if conn.stream.isNone then some (t.connect id conn sid) else none
    | _, _ => none
  | .send id order ok =>
    (t.connected id).map fun (conn, sid, st) => t.send id conn sid st order ok
  | .cleanup id => (t.conns id).map (t.cleanupStream id)
  | .receive sid =>
    match t.streams sid with
    | none => none
    | some st =>
      match st.queue with
      | [] => none
      | msg :: rest => if st.reading then some (t.receive sid st msg rest) else none
  | .recvErr sid =>
    match t.streams sid with
    | none => none
    | some st => if st.reading then some (t.recvErr sid st) else none

/-- A process that failed an assertion does nothing more. -/
def step (t : Transport) (a : TransportAction) : Option Transport :=
  if t.fatal.isSome then none else t.act a

/-- The map iterations of the source visit every key. -/
def Iterates (t : Transport) : TransportAction → Prop
  | .publish c => c.IsOf t.sender
  | .send _ order _ => order.toFinset = t.sender.state.tracked.keys
  | _ => True

instance (t : Transport) (a : TransportAction) : Decidable (t.Iterates a) := by
  cases a <;> unfold Iterates <;> infer_instance

/-- No range is registered and nothing is connected. -/
def start (nodeID : NodeID) : Transport where
  sender := { nodeID := nodeID }

end Transport

end MeshDB.SideTransport
