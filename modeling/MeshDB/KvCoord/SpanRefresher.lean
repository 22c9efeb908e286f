import MeshDB.KvCoord.CondensableSpanSet
import MeshDB.Kvpb.Api

/-!
# The span refresher

The `txnSpanRefresher` interceptor. It collects the spans that a transaction has read
and refreshes them when the read timestamp of the transaction has to move. Where the
code panics or ends the process, an operation has no result.
-/
namespace MeshDB.KvCoord.SpanRefresher

open Roachpb Kvpb Hlc

/-- The fields of `txnSpanRefresher`. -/
structure State where
  refreshFootprint : CondensableSpanSet := {}
  refreshInvalid : Bool := false
  refreshedTimestamp : Timestamp := {}
  canAutoRetry : Bool := true
deriving DecidableEq

/-- Cluster settings and the range descriptors. -/
structure Settings where
  maxTxnRefreshSpansBytes : Int := 4194304
  maxRefreshAttempts : ℕ := 5
  rangeOf : Key → Option ℕ := fun _ => some 1

/-- A batch with its reply. -/
abbrev Exchange := BatchRequest × Except Error BatchResponse

/-- The lower sender, as a function of the past. -/
abbrev Wrapped := List Exchange → BatchRequest → Except Error BatchResponse

/-- The interceptor with what it sent. -/
structure World where
  sr : State := {}
  sent : List Exchange := []
deriving DecidableEq

abbrev Result := World × Except Error BatchResponse

/-- Stops at the first error. -/
def Result.andThen (r : Result) (f : World → BatchResponse → Option Result) : Option Result :=
  match r with
  | (w, .error pErr) => some (w, .error pErr)
  | (w, .ok br) => f w br

/-- One send, recorded. -/
def send (wrapped : Wrapped) (w : World) (ba : BatchRequest) : Result :=
  let reply := wrapped w.sent ba
  ({ w with sent := w.sent ++ [(ba, reply)] }, reply)

def updateTxn (ba : BatchRequest) (o : Transaction) : Option BatchRequest :=
  (ba.txn.update o).map fun txn => { ba with txn := txn }

/-- The transaction may still move its read timestamp. -/
def canForwardReadTimestamp (sr : State) (txn : Transaction) : Bool :=
  sr.canAutoRetry && !txn.commitTimestampFixed

/-- Nothing was read that would need validation. -/
def canForwardReadTimestampWithoutRefresh (sr : State) (txn : Transaction) : Bool :=
  canForwardReadTimestamp sr txn && !sr.refreshInvalid && sr.refreshFootprint.empty

def forwardRefreshTimestampOnRefresh (sr : State) (refreshToTxn : Transaction) : State :=
  { sr with refreshedTimestamp := sr.refreshedTimestamp.forward refreshToTxn.readTimestamp }

/-- The server may have refreshed on its own. -/
def forwardRefreshTimestampOnResponse (sr : State) (baTxn : Transaction)
    (brTxn : Option Transaction) : Except Error State :=
  match brTxn with
  | none => .ok sr
  | some brTxn =>
    if baTxn.readTimestamp.less brTxn.readTimestamp then
      .ok { sr with
        refreshedTimestamp := sr.refreshedTimestamp.forward brTxn.readTimestamp }
    else if brTxn.readTimestamp.less baTxn.readTimestamp then
      .error { detail := .internal ("received transaction in response with " ++
        "earlier read timestamp than in the request") }
    else .ok sr

def assertRefreshSpansAtInvalidTimestamp (sr : State) (readTimestamp : Timestamp) : Option Error :=
  if readTimestamp.less sr.refreshedTimestamp then
    some { detail := .internal ("attempting to append refresh spans after the tracked" ++
      " timestamp has moved forward") }
  else none

/-! ## Refreshes -/

/-- The refresh of one footprint span. -/
def refreshRequest (refreshFrom : Timestamp) (u : Span) : Request :=
  if u.isPoint then .op (.refresh refreshFrom) ⟨u.key, u.endKey, 0⟩
  else .op (.refreshRange refreshFrom) ⟨u.key, u.endKey, 0⟩

def refreshSpanBa (refreshFrom : Timestamp) (refreshToTxn : Transaction) (spans : List Span) :
    BatchRequest :=
  { txn := refreshToTxn, requests := spans.map (refreshRequest refreshFrom) }

/-- One batch that refreshes the whole footprint. -/
def tryRefreshTxnSpans (wrapped : Wrapped) (w : World) (refreshFrom : Timestamp)
    (refreshToTxn : Transaction) : World × Option Error :=
  if w.sr.refreshInvalid then
    (w, some { detail := .internal "can't refresh txn spans; not valid" })
  else if w.sr.refreshFootprint.empty then
    ({ w with sr := forwardRefreshTimestampOnRefresh w.sr refreshToTxn }, none)
  else
    match send wrapped w (refreshSpanBa refreshFrom refreshToTxn w.sr.refreshFootprint.s) with
    | (w, .error batchErr) => (w, some batchErr)
    | (w, .ok _) => ({ w with sr := forwardRefreshTimestampOnRefresh w.sr refreshToTxn }, none)

/-- The timestamp to which an error can be refreshed away, if it can. -/
def transactionRefreshTimestamp (pErr : Error) (txn : Transaction) : Option Timestamp :=
  match pErr.detail with
  | .transactionRetry .serializable => some txn.writeTimestamp
  | .transactionRetry .writeTooOld => some txn.writeTimestamp
  | .writeTooOld retryTimestamp => some (txn.writeTimestamp.forward retryTimestamp)
  | .readWithinUncertaintyInterval retryTimestamp =>
    some (txn.writeTimestamp.forward retryTimestamp)
  | _ => none

def newRetryErrorOnFailedPreemptiveRefresh (txn : Transaction) : Error :=
  { detail := .transactionRetry (if txn.writeTooOld then .writeTooOld else .serializable)
    txn := some txn }

/-- A commit would fail without the refresh. -/
def refreshInevitable (ba : BatchRequest) : Bool := ba.getEndTxn.any fun et => et.commit

/-- Refreshes before a send that would fail. -/
def maybeRefreshPreemptivelyLocked (wrapped : Wrapped) (w : World) (ba : BatchRequest)
    (force : Bool) : Option (World × Except Error BatchRequest) :=
  if ba.txn.readTimestamp = ba.txn.writeTimestamp then some (w, .ok ba)
  else if !ba.canForwardReadTimestamp && !refreshInevitable ba && !force then some (w, .ok ba)
  else if !canForwardReadTimestamp w.sr ba.txn then
    some (w, .error (newRetryErrorOnFailedPreemptiveRefresh ba.txn))
  else
    let refreshToTxn := ba.txn.refresh ba.txn.writeTimestamp
    match tryRefreshTxnSpans wrapped w ba.txn.readTimestamp refreshToTxn with
    | (w, some _) => some (w, .error (newRetryErrorOnFailedPreemptiveRefresh ba.txn))
    | (w, none) => (updateTxn ba refreshToTxn).map fun ba => (w, .ok ba)

/-! ## Sending -/

/-- `WriteTooOld` is cleared in errors, and a response with it counts as an error. -/
def convertWriteTooOld : Except Error BatchResponse → Option (Except Error BatchResponse)
  | .error pErr =>
    some (.error { pErr with txn := pErr.txn.map fun txn => { txn with writeTooOld := false } })
  | .ok br => do
      let txn ← br.txn
      if txn.writeTooOld then
        return .error {
          detail := .transactionRetry .writeTooOld
          txn := some { txn with writeTooOld := false } }
      else return .ok br

def replyTxn : Except Error BatchResponse → Option Transaction
  | .error pErr => pErr.txn
  | .ok br => br.txn

/-- Notes how far the server refreshed. -/
def finishAttempt (ba : BatchRequest) (r : Result) : Result :=
  match forwardRefreshTimestampOnResponse r.1.sr ba.txn (replyTxn r.2) with
  | .error err => (r.1, .error err)
  | .ok sr => ({ r.1 with sr := sr }, r.2)

/-- The `EndTxn` can be sent on its own. -/
def splitsEndTxn (ba : BatchRequest) : Bool :=
  1 < ba.requests.length && ba.getEndTxn.any fun et => !et.require1PC

/-- The timestamp an error asks to refresh to. -/
def refreshForError (sr : State) (pErr : Error) : Option (Timestamp × Transaction) := do
  let txn ← pErr.txn
  if !canForwardReadTimestamp sr txn then none
  else (transactionRefreshTimestamp pErr txn).map fun refreshTS =>
    (txn.readTimestamp, txn.refresh refreshTS)

/-- Refreshes an error away and retries, splitting off an `EndTxn`. -/
def maybeRefreshAndRetrySend (wrapped : Wrapped)
    (retry split : World → BatchRequest → Option Result) (w : World) (ba : BatchRequest)
    (pErr : Error) : Option Result :=
  match refreshForError w.sr pErr with
  | none => some (w, .error pErr)
  | some (refreshFrom, refreshToTxn) =>
    match tryRefreshTxnSpans wrapped w refreshFrom refreshToTxn with
    | (w, some _) => some (w, .error pErr)
    | (w, none) => do
        let ba ← updateTxn ba refreshToTxn
        if splitsEndTxn ba then split w ba else retry w ba

/-- One attempt; `recover` handles a retry error. -/
def sendAttempt (wrapped : Wrapped) (recover : World → Error → Option Result) (w : World)
    (ba : BatchRequest) : Option Result :=
  if ba.txn.writeTooOld then none
  else
    let (w, reply) := send wrapped w ba
    (convertWriteTooOld reply).bind fun
      | .ok br => some (finishAttempt ba (w, .ok br))
      | .error pErr => (recover w pErr).map (finishAttempt ba)

/-- The attempts left are the recursion's measure. -/
def sendLockedWithRefreshAttempts (wrapped : Wrapped)
    (split : World → BatchRequest → Option Result) : ℕ → World → BatchRequest → Option Result
  | 0, w, ba => sendAttempt wrapped (fun w pErr => some (w, .error pErr)) w ba
  | maxRefreshAttempts + 1, w, ba =>
    sendAttempt wrapped (fun w pErr => maybeRefreshAndRetrySend wrapped
      (sendLockedWithRefreshAttempts wrapped split maxRefreshAttempts) split w ba pErr) w ba

/-! ## Recording the reads -/

/-- What one reply adds to the footprint. -/
def refreshSpans (skipLocked : Bool) (req : Request) (resp : Response) : List Span :=
  if skipLocked && req.canSkipLocked then resp.keys.map fun k => ⟨k, none⟩
  else (actualSpan req (some resp)).toList

def refreshSpanIterate (skipLocked : Bool) : List Request → List Response → Option (List Span)
  | [], _ => some []
  | req :: reqs, resps =>
    if !req.needsRefresh then refreshSpanIterate skipLocked reqs resps.tail
    else
      match resps with
      | [] => none
      | resp :: resps =>
        (refreshSpanIterate skipLocked reqs resps).map (refreshSpans skipLocked req resp ++ ·)

/-- Gives up precision over the budget. -/
def maybeCondenseRefreshSpans (cfg : Settings) (sr : State) : Option State :=
  if sr.refreshFootprint.bytes < cfg.maxTxnRefreshSpansBytes then some sr
  else
    (sr.refreshFootprint.maybeCondense cfg.rangeOf cfg.maxTxnRefreshSpansBytes).map fun
      | (footprint, _) =>
        if footprint.bytes < cfg.maxTxnRefreshSpansBytes then
          { sr with refreshFootprint := footprint }
        else { sr with refreshInvalid := true, refreshFootprint := {} }

def insertRefreshSpans (cfg : Settings) (sr : State) (spans : List Span) : Option State :=
  if sr.refreshInvalid then some sr
  else maybeCondenseRefreshSpans cfg
    { sr with refreshFootprint := sr.refreshFootprint.insertSpans spans }

/-- Only pending transactions track reads. -/
def recordResponse (cfg : Settings) (w : World) (ba : BatchRequest) (br : BatchResponse) :
    Option Result := do
  let txn ← br.txn
  if txn.status ≠ .pending then some (w, .ok br)
  else if let some err := assertRefreshSpansAtInvalidTimestamp w.sr txn.readTimestamp then
    some (w, .error err)
  else do
    let spans ← refreshSpanIterate ba.skipLocked ba.requests br.responses
    let sr ← insertRefreshSpans cfg w.sr spans
    some ({ w with sr := sr }, .ok br)

/-- `SendLocked`, with the way to send a batch that is split on a retry. -/
def sendLockedWith (cfg : Settings) (wrapped : Wrapped)
    (split : World → BatchRequest → Option Result) (w : World) (ba : BatchRequest) :
    Option Result :=
  let ba := { ba with
    canForwardReadTimestamp := canForwardReadTimestampWithoutRefresh w.sr ba.txn }
  (maybeRefreshPreemptivelyLocked wrapped w ba false).bind fun
    | (w, .error pErr) => some (w, .error pErr)
    | (w, .ok ba) =>
      (sendLockedWithRefreshAttempts wrapped split cfg.maxRefreshAttempts w ba).bind fun r =>
        r.andThen fun w br => recordResponse cfg w ba br

/-- The replies of the two halves. -/
def combine (br brSuffix : BatchResponse) : Option BatchResponse :=
  match br.txn, brSuffix.txn with
  | some txn, some o => (txn.update o).map fun txn =>
    { txn := some txn, responses := br.responses ++ brSuffix.responses }
  | none, o => some { txn := o, responses := br.responses ++ brSuffix.responses }
  | txn, none => some { txn := txn, responses := br.responses ++ brSuffix.responses }

/-- The second half, with the first one's transaction. -/
def sendEndTxn (sendLocked : World → BatchRequest → Option Result) (ba : BatchRequest)
    (w : World) (brPrefix : BatchResponse) : Option Result := do
  let txn ← brPrefix.txn
  let baSuffix ← updateTxn { ba with requests := ba.requests.getLast?.toList } txn
  let r ← sendLocked w baSuffix
  r.andThen fun w brSuffix => (combine brPrefix brSuffix).map fun br => (w, .ok br)

/-- The batch, then its `EndTxn`. -/
def splitEndTxnAndRetrySend (sendLocked : World → BatchRequest → Option Result) (w : World)
    (ba : BatchRequest) : Option Result := do
  let r ← sendLocked w { ba with requests := ba.requests.dropLast }
  r.andThen (sendEndTxn sendLocked ba)

/-- `SendLocked`, where batches are split at most `depth` times within each other. -/
def sendLockedDepth (cfg : Settings) (wrapped : Wrapped) : ℕ → World → BatchRequest → Option Result
  | 0 => sendLockedWith cfg wrapped fun _ _ => none
  | depth + 1 =>
    sendLockedWith cfg wrapped (splitEndTxnAndRetrySend (sendLockedDepth cfg wrapped depth))

/-- `SendLocked`. The length of a batch, which a split lowers, is enough depth. -/
def sendLocked (cfg : Settings) (wrapped : Wrapped) (w : World) (ba : BatchRequest) :
    Option Result := sendLockedDepth cfg wrapped ba.requests.length w ba

/-!
## Validation of reads

A read is validated at a timestamp when it was made there, or when refreshes lead from
the timestamp of the read up to it. Every operation of the refresher that moves the read
timestamp moves the reads that its footprint covers along.
-/

open List

/-- The key is in the span on which a request that needs a refresh operated, and among its results
if it skips locked keys. -/
def ReadsKey (ba : BatchRequest) (br : BatchResponse) (k : Key) : Prop :=
  ∃ (i : ℕ) (req : Request) (resp : Response),
    ba.requests[i]? = some req ∧ br.responses[i]? = some resp ∧ req.needsRefresh ∧
    if ba.skipLocked && req.canSkipLocked then k ∈ resp.keys
    else ∃ sp ∈ actualSpan req (some resp), Span.Mem k sp

def refreshFrom : Request → Option Timestamp
  | .op (.refresh refreshFrom) _ => some refreshFrom
  | .op (.refreshRange refreshFrom) _ => some refreshFrom
  | _ => none

/-- The key was read at the timestamp, or a successful refresh leads there from one at which it is
validated. -/
inductive Validated (sent : List Exchange) (k : Key) (readAt : Timestamp) : Timestamp → Prop
  | read {R : Timestamp} : readAt.ord = R.ord → Validated sent k readAt R
  | refresh {R₀ R fromTs : Timestamp} {ba : BatchRequest} {br : BatchResponse} {req : Request} :
      Validated sent k readAt R₀ → (ba, .ok br) ∈ sent → req ∈ ba.requests →
      refreshFrom req = some fromTs → Span.Mem k req.header.span →
      fromTs.ord ≤ R₀.ord → R₀.ord ≤ R.ord → ba.txn.readTimestamp.ord = R.ord →
      Validated sent k readAt R

variable {R R' R₁ R₂ fromTs : Timestamp} {w w' : World} {live : List Read} {toTxn : Transaction}
  {br : BatchResponse} {ba : BatchRequest} {k : Key} {readAt : Timestamp}

lemma Validated.congr {sent : List Exchange}
    (h : Validated sent k readAt R) (heq : R.ord = R'.ord) : Validated sent k readAt R' := by
  cases h with
  | read hread => exact .read (hread.trans heq)
  | refresh h0 hmem hreq hfrom hk hle hR hto =>
    exact .refresh h0 hmem hreq hfrom hk hle (heq ▸ hR) (hto.trans heq)

lemma Validated.append {sent : List Exchange}
    (h : Validated sent k readAt R) (new : List Exchange) :
    Validated (sent ++ new) k readAt R := by
  induction h with
  | read hread => exact .read hread
  | refresh _ hmem hreq hfrom hk hle hR hto ih =>
    exact .refresh ih (mem_append_left _ hmem) hreq hfrom hk hle hR hto

/-- An answered batch. -/
abbrev Read := BatchRequest × BatchResponse

/-- Every read still counts at `R`. -/
def AllValidated (sent : List Exchange) (live : List Read) (R : Timestamp) : Prop :=
  ∀ p ∈ live, ∀ txn, p.2.txn = some txn → ∀ k, ReadsKey p.1 p.2 k →
    Validated sent k txn.readTimestamp R

/-- Every read is in the footprint. -/
def AllCovered (footprint : CondensableSpanSet) (live : List Read) : Prop :=
  ∀ p ∈ live, ∀ k, ReadsKey p.1 p.2 k → Covers footprint.s k

/-- The reads are validated, and the footprint covers them unless it was given up. -/
structure Sound (w : World) (live : List Read) (R : Timestamp) : Prop where
  validated : AllValidated w.sent live R
  covered : w.sr.refreshInvalid = false → AllCovered w.sr.refreshFootprint live
  invalid : w.sr.refreshInvalid → w.sr.refreshFootprint.s = []
  proper : ∀ sp ∈ w.sr.refreshFootprint.s, sp.Proper

lemma Sound.congr (h : Sound w live R) (heq : R.ord = R'.ord) : Sound w live R' :=
  { h with validated := fun p hp txn htxn k hk => (h.validated p hp txn htxn k hk).congr heq }

lemma Sound.of_empty (h : Sound w live R)
    (hvalid : w.sr.refreshInvalid = false) (hempty : w.sr.refreshFootprint.s = [])
    (R' : Timestamp) : Sound w live R' :=
  { h with
    validated := by
      intro p hp txn htxn k hk
      obtain ⟨sp, hsp, -⟩ := h.covered hvalid p hp k hk
      rw [hempty] at hsp
      cases hsp }

/-- The read timestamp moves, and the reads with it. Reads that are validated stay so. -/
structure Advances (w w' : World) (R R' : Timestamp) : Prop where
  le : R.ord ≤ R'.ord
  keeps : ∀ live R₀, Sound w live R₀ → Sound w' live R₀
  moves : ∀ live, Sound w live R → Sound w' live R'
  refreshed : w.sr.refreshedTimestamp.ord ≤ w'.sr.refreshedTimestamp.ord
  invalid : w.sr.refreshInvalid → w'.sr.refreshInvalid ∧ R'.ord = R.ord
  sent : ∃ new, w'.sent = w.sent ++ new

/-- The refreshed timestamp has followed a read timestamp that moved. -/
def Follows (w' : World) (R R' : Timestamp) : Prop :=
  R'.ord = R.ord ∨ R'.ord ≤ w'.sr.refreshedTimestamp.ord

lemma Advances.refl (w : World) (R : Timestamp) : Advances w w R R where
  le := le_rfl
  keeps := fun _ _ h => h
  moves := fun _ h => h
  refreshed := le_rfl
  invalid := fun h => ⟨h, rfl⟩
  sent := ⟨[], (append_nil _).symm⟩

variable {w1 w2 : World}

lemma Advances.trans (h1 : Advances w w1 R R₁)
    (h2 : Advances w1 w2 R₁ R₂) : Advances w w2 R R₂ where
  le := h1.le.trans h2.le
  keeps := fun live R₀ h => h2.keeps live R₀ (h1.keeps live R₀ h)
  moves := fun live h => h2.moves live (h1.moves live h)
  refreshed := h1.refreshed.trans h2.refreshed
  invalid := by
    intro h
    obtain ⟨hinv1, heq1⟩ := h1.invalid h
    obtain ⟨hinv2, heq2⟩ := h2.invalid hinv1
    exact ⟨hinv2, heq2.trans heq1⟩
  sent := by
    obtain ⟨new1, heq1⟩ := h1.sent
    obtain ⟨new2, heq2⟩ := h2.sent
    exact ⟨new1 ++ new2, by rw [heq2, heq1, append_assoc]⟩

lemma Advances.stay (h : Advances w w' R R') : Advances w w' R R :=
  { h with
    le := le_rfl
    moves := fun live hlive => h.keeps live R hlive
    invalid := fun hinv => ⟨(h.invalid hinv).1, rfl⟩ }

lemma Advances.congr (h : Advances w w' R R₁) (heq : R₁.ord = R₂.ord) : Advances w w' R R₂ :=
  { h with
    le := heq ▸ h.le
    moves := fun live hlive => (h.moves live hlive).congr heq
    invalid := fun hinv => ⟨(h.invalid hinv).1, heq ▸ (h.invalid hinv).2⟩ }

lemma Follows.trans (h1 : Follows w1 R R₁) (h2 : Follows w2 R₁ R₂)
    (hle : w1.sr.refreshedTimestamp.ord ≤ w2.sr.refreshedTimestamp.ord) : Follows w2 R R₂ := by
  rcases h2 with heq2 | hle2
  · rcases h1 with heq1 | hle1
    · exact .inl (heq2.trans heq1)
    · exact .inr (heq2 ▸ hle1.trans hle)
  · exact .inr hle2

lemma Sound.sent (h : Sound w live R)
    (new : List Exchange) : Sound { w with sent := w.sent ++ new } live R :=
  { h with validated := fun p hp txn htxn k hk => (h.validated p hp txn htxn k hk).append new }

lemma advances_sent (w : World) (new : List Exchange) (hle : R.ord ≤ R'.ord)
    (hempty : R'.ord = R.ord ∨ (w.sr.refreshInvalid = false ∧ w.sr.refreshFootprint.s = [])) :
    Advances w { w with sent := w.sent ++ new } R R' where
  le := hle
  keeps := fun live R₀ h => h.sent new
  moves := by
    intro live h
    rcases hempty with heq | ⟨hvalid, hnil⟩
    · exact (h.sent new).congr heq.symm
    · exact (h.sent new).of_empty hvalid hnil R'
  refreshed := le_rfl
  invalid := by
    intro hinv
    rcases hempty with heq | ⟨hvalid, -⟩
    · exact ⟨hinv, heq⟩
    · simp [hvalid] at hinv
  sent := ⟨new, rfl⟩

lemma advances_refreshed (w : World) (R : Timestamp) {ts : Timestamp}
    (hle : w.sr.refreshedTimestamp.ord ≤ ts.ord) :
    Advances w { w with sr := { w.sr with refreshedTimestamp := ts } } R R where
  le := le_rfl
  keeps := fun _ _ h => { h with }
  moves := fun _ h => { h with }
  refreshed := hle
  invalid := fun h => ⟨h, rfl⟩
  sent := ⟨[], (append_nil _).symm⟩

/-! ## What a refresh validates -/

/-- The replies that count as reads. -/
def answered (sent : List Exchange) : List Read :=
  sent.filterMap fun
    | (ba, .ok br) => if br.txn.any (fun txn => txn.writeTooOld) then none else some (ba, br)
    | (_, .error _) => none

@[simp] lemma answered_append (as bs : List Exchange) :
    answered (as ++ bs) = answered as ++ answered bs := filterMap_append

lemma refreshRequest_spec (fromTs : Timestamp) (u : Span) :
    (refreshRequest fromTs u).needsRefresh = false ∧
      refreshFrom (refreshRequest fromTs u) = some fromTs ∧
      (refreshRequest fromTs u).header.span = u := by
  unfold refreshRequest
  split_ifs <;> exact ⟨rfl, rfl, rfl⟩

variable {spans : List Span}

lemma not_readsKey_refresh : ¬ ReadsKey (refreshSpanBa fromTs toTxn
    spans) br k := by
  rintro ⟨i, req, resp, hreq, -, hneeds, -⟩
  obtain ⟨u, -, rfl⟩ := mem_map.mp (mem_of_getElem? hreq)
  rw [(refreshRequest_spec ..).1] at hneeds
  cases hneeds

/-- The send left the footprint alone. -/
structure SameFootprint (w w' : World) : Prop where
  footprint : w'.sr.refreshFootprint = w.sr.refreshFootprint
  invalid : w'.sr.refreshInvalid = w.sr.refreshInvalid
  reads : ∃ new, w'.sent = w.sent ++ new ∧ ∀ p ∈ answered new, ∀ k, ¬ ReadsKey p.1 p.2 k

lemma SameFootprint.refl (w : World) : SameFootprint w w where
  footprint := rfl
  invalid := rfl
  reads := ⟨[], (append_nil _).symm, fun p hp => by cases hp⟩

lemma Sound.refresh {br : BatchResponse} (h : Sound w live R)
    (hvalid : w.sr.refreshInvalid = false) (hfrom : fromTs.ord = R.ord)
    (hle : R.ord ≤ toTxn.readTimestamp.ord) :
    Sound { w with
      sent := w.sent ++ [(refreshSpanBa fromTs toTxn w.sr.refreshFootprint.s, .ok br)] } live
        toTxn.readTimestamp :=
  { h with
    validated := by
      intro p hp txn htxn k hk
      obtain ⟨sp, hsp, hmem⟩ := h.covered hvalid p hp k hk
      have hread := (h.validated p hp txn htxn k hk).append
        [(refreshSpanBa fromTs toTxn w.sr.refreshFootprint.s, .ok br)]
      obtain ⟨-, hfromTs, hspan⟩ := refreshRequest_spec fromTs sp
      exact .refresh hread (mem_append_right _ (.head _))
        (mem_map_of_mem hsp) hfromTs (hspan.symm ▸ hmem) hfrom.le hle rfl }

lemma advances_refresh
    (br : BatchResponse) (hvalid : w.sr.refreshInvalid = false) (hfrom : fromTs.ord = R.ord)
    (hle : R.ord ≤ toTxn.readTimestamp.ord) :
    Advances w { w with
      sent := w.sent ++ [(refreshSpanBa fromTs toTxn w.sr.refreshFootprint.s, .ok br)] } R
        toTxn.readTimestamp where
  le := hle
  keeps := fun _ _ h => h.sent _
  moves := fun _ h => h.refresh hvalid hfrom hle
  refreshed := le_rfl
  invalid := by
    intro hinv
    rw [hvalid] at hinv
    cases hinv
  sent := ⟨_, rfl⟩

lemma sameFootprint_refresh (w : World) (sr : State) (reply : Except Error BatchResponse)
    (hfootprint : sr.refreshFootprint = w.sr.refreshFootprint)
    (hinvalid : sr.refreshInvalid = w.sr.refreshInvalid) :
    SameFootprint w ⟨sr, w.sent ++ [(refreshSpanBa fromTs toTxn spans, reply)]⟩ where
  footprint := hfootprint
  invalid := hinvalid
  reads := by
    refine ⟨_, rfl, fun p hp k => ?_⟩
    obtain ⟨ex, hex, hp⟩ := mem_filterMap.mp hp
    rw [mem_singleton.mp hex] at hp
    cases reply with
    | error pErr => cases hp
    | ok br =>
      dsimp only at hp
      split_ifs at hp
      cases hp
      exact not_readsKey_refresh

lemma forwardRefresh_le (sr : State) (toTxn : Transaction) :
    sr.refreshedTimestamp.ord ≤ (forwardRefreshTimestampOnRefresh sr toTxn).refreshedTimestamp.ord ∧
      toTxn.readTimestamp.ord ≤
        (forwardRefreshTimestampOnRefresh sr toTxn).refreshedTimestamp.ord := by
  unfold forwardRefreshTimestampOnRefresh
  rw [Timestamp.ord_forward]
  exact ⟨le_max_left _ _, le_max_right _ _⟩

variable {wrapped : Wrapped}

lemma tryRefreshTxnSpans_spec {err : Option Error} (hfrom : fromTs.ord = R.ord)
    (hle : R.ord ≤ toTxn.readTimestamp.ord)
    (h : tryRefreshTxnSpans wrapped w fromTs toTxn = (w', err)) :
    SameFootprint w w' ∧ Advances w w' R R ∧
      (err = none → Advances w w' R toTxn.readTimestamp ∧ Follows w' R toTxn.readTimestamp) := by
  obtain ⟨hmono, hto⟩ := forwardRefresh_le w.sr toTxn
  unfold tryRefreshTxnSpans at h
  split_ifs at h with hinvalid hempty
  · cases h
    exact ⟨.refl w, .refl w R, fun h => by cases h⟩
  · cases h
    have hvalid : w.sr.refreshInvalid = false := by simpa using hinvalid
    have hnil : w.sr.refreshFootprint.s = [] := CondensableSpanSet.empty_iff.mp hempty
    have hstay := advances_refreshed w R hmono
    refine ⟨⟨rfl, rfl, [], (append_nil _).symm, fun p hp => by cases hp⟩, hstay, fun _ => ?_⟩
    refine ⟨{ hstay with le := hle, moves := ?_, invalid := ?_ }, .inr hto⟩
    · exact fun live hlive => (hstay.moves live hlive).of_empty hvalid hnil _
    intro hinv
    rw [hvalid] at hinv
    cases hinv
  have hvalid : w.sr.refreshInvalid = false := by simpa using hinvalid
  unfold send at h
  cases hreply : wrapped w.sent (refreshSpanBa fromTs toTxn w.sr.refreshFootprint.s) with
  | error batchErr =>
    simp only [hreply] at h
    cases h
    exact ⟨sameFootprint_refresh w w.sr _ rfl rfl, advances_sent w _ le_rfl (.inl rfl),
      fun h => by cases h⟩
  | ok br =>
    simp only [hreply] at h
    cases h
    have hmoved := (advances_refresh br hvalid hfrom hle).trans
      (advances_refreshed _ toTxn.readTimestamp hmono)
    exact ⟨sameFootprint_refresh w _ _ rfl rfl, hmoved.stay, fun _ => ⟨hmoved, .inr hto⟩⟩

/-! ## Legal replies -/

/-- The transaction of a reply is that of the batch, at the same read timestamp unless that may be
forwarded. Only an `EndTxn` ends it. There is a response to each request. -/
structure LegalReply (ba : BatchRequest) (reply : Except Error BatchResponse) : Prop where
  id : ∀ txn, replyTxn reply = some txn → txn.id = ba.txn.id
  epoch : ∀ txn, replyTxn reply = some txn → txn.epoch = ba.txn.epoch
  le : ∀ txn, replyTxn reply = some txn → ba.txn.readTimestamp.ord ≤ txn.readTimestamp.ord
  eq : ba.canForwardReadTimestamp = false → ∀ txn, replyTxn reply = some txn →
    txn.readTimestamp.ord = ba.txn.readTimestamp.ord
  status : ∀ br txn, reply = .ok br → br.txn = some txn → txn.status ≠ .pending →
    ba.getEndTxn.isSome
  length : ∀ br, reply = .ok br → br.responses.length = ba.requests.length
  proper : ∀ br, reply = .ok br → ∀ p ∈ ba.requests.zip br.responses,
    p.1.needsRefresh → p.1.header.span.Proper → ∀ sp ∈ refreshSpans ba.skipLocked p.1 p.2, sp.Proper

def Wrapped.Legal (wrapped : Wrapped) : Prop := ∀ sent ba, LegalReply ba (wrapped sent ba)

/-- The flag promises that nothing was read. -/
def FlagOk (w : World) (ba : BatchRequest) : Prop :=
  ba.canForwardReadTimestamp → w.sr.refreshInvalid = false ∧ w.sr.refreshFootprint.s = []

/-- The read timestamp after the reply. -/
def replyTs (ba : BatchRequest) (reply : Except Error BatchResponse) : Timestamp :=
  ((replyTxn reply).map fun txn => txn.readTimestamp).getD ba.txn.readTimestamp

lemma replyTs_of_txn {reply : Except Error BatchResponse}
    {txn : Transaction} (h : replyTxn reply = some txn) : replyTs ba reply = txn.readTimestamp := by
  simp [replyTs, h]

lemma replyTs_ok {txn : Transaction}
    (h : br.txn = some txn) : replyTs ba (.ok br) = txn.readTimestamp := replyTs_of_txn h

lemma replyTs_error {pErr : Error} {txn : Transaction}
    (h : pErr.txn = some txn) : replyTs ba (.error pErr) = txn.readTimestamp := replyTs_of_txn h

lemma advances_send (hwrapped : wrapped.Legal) (hflag : FlagOk w ba) :
    Advances w (send wrapped w ba).1 ba.txn.readTimestamp (replyTs ba (send wrapped w ba).2) := by
  have hlegal := hwrapped w.sent ba
  have hts : replyTs ba (wrapped w.sent ba) = ba.txn.readTimestamp ∨
      ∃ txn, replyTxn (wrapped w.sent ba) = some txn ∧
        replyTs ba (wrapped w.sent ba) = txn.readTimestamp := by
    cases htxn : replyTxn (wrapped w.sent ba) with
    | none => exact .inl (by simp [replyTs, htxn])
    | some txn => exact .inr ⟨txn, rfl, replyTs_of_txn htxn⟩
  apply advances_sent
  · rcases hts with heq | ⟨txn, htxn, heq⟩
    · exact le_of_eq (congrArg Timestamp.ord heq.symm)
    · exact (hlegal.le txn htxn).trans_eq (congrArg Timestamp.ord heq.symm)
  rcases hts with heq | ⟨txn, htxn, heq⟩
  · exact .inl (congrArg Timestamp.ord heq)
  cases hcan : ba.canForwardReadTimestamp with
  | false => exact .inl ((congrArg Timestamp.ord heq).trans (hlegal.eq hcan txn htxn))
  | true => exact .inr (hflag hcan)

end MeshDB.KvCoord.SpanRefresher
