import MeshDB.Kvpb.Api
import MeshDB.Roachpb.MergeSpans

/-!
# The transaction committer

The `txnCommitter` interceptor decides whether an `EndTxn` is sent along with the writes in
flight, elides that of a transaction that wrote nothing, and hides the STAGING status. A nil
transaction in a response, which the code dereferences, has no result.
-/
namespace MeshDB.KvCoord.Committer

open Roachpb Kvpb Hlc List Option Request

/-- The batch that was sent, what was returned, and the explicit commit that was started. -/
structure SendResult where
  sent : Option BatchRequest
  result : Except Error BatchResponse
  explicitCommit : Option (Transaction × List Span) := none

inductive EndTxnAttempt where
  | firstAttempt
  | retry
deriving DecidableEq

def cloneWithStatus (txn : Transaction) (status : TransactionStatus) : Transaction :=
  { txn with status := status }

def require1PCMessage : String :=
  "possible 1PC batch cannot contain EndTxn without setting Require1PC; see #37457"

/-- A limited `DeleteRange` might not finish before the commit. -/
def validateEndTxnBatch (ba : BatchRequest) (et : EndTxnRequest) : Option Error :=
  if ba.maxSpanRequestKeys = 0 then none
  else if ba.hasDeleteRange && !et.require1PC then
    some { detail := .internal require1PCMessage }
  else none

/-- May run in parallel with the commit: a point write among the in-flight ones, or a query for one.
-/
def allowsParallelCommit (req : Request) : Bool :=
  if req.isIntentWrite then !req.isRange else req.isQueryIntent

/-- Every other request can be proven by a query. -/
def canCommitInParallel (parallelCommitsEnabled : Bool) (ba : BatchRequest) (et : EndTxnRequest)
    (attempt : EndTxnAttempt) : Bool :=
  parallelCommitsEnabled && attempt != .retry && et.commit && !et.hasInternalCommitTrigger &&
    ba.requests.dropLast.all allowsParallelCommit

def mergeIntoSpans (s : List Span) (ws : List SequencedWrite) : List Span × Bool :=
  mergeSpans (s ++ ws.map fun w => ⟨w.key, none⟩)

def generateTxnDeadlineExceededErr (txn : Transaction) : Error :=
  { detail := .transactionRetry .commitDeadlineExceeded, txn := some txn }

/-- The reply to an `EndTxn` that was not sent. -/
def elidedResult (ba : BatchRequest) (et : EndTxnRequest) (sent : Option BatchRequest)
    (br : BatchResponse) : Option SendResult := do
  let txn ← br.txn
  if et.commit && !et.deadline.isEmpty && et.deadline.lessEq txn.writeTimestamp then
    return { sent := sent, result := .error (generateTxnDeadlineExceededErr ba.txn) }
  let status := if et.commit then .committed else .aborted
  return {
    sent := sent
    result := .ok {
      txn := some (cloneWithStatus txn status)
      responses := br.responses ++ [.endTxn {}] } }

def sendLockedWithElidedEndTxn (send : Sender) (ba : BatchRequest) (et : EndTxnRequest) :
    Option SendResult :=
  let rest := { ba with requests := ba.requests.dropLast }
  if rest.requests.isEmpty then elidedResult ba et none { txn := some ba.txn, responses := [] }
  else
    match send rest with
    | .error pErr => some { sent := some rest, result := .error pErr }
    | .ok br => elidedResult ba et (some rest) br

/-- Whether the transaction has to refresh or retry although it was staged. -/
def needTxnRetryAfterStaging (br : BatchResponse) (txn : Transaction) : Option Error :=
  match br.responses.getLast? with
  | none => some { detail := .internal "no responses in BatchResponse" }
  | some (.endTxn stagingTimestamp) =>
    if stagingTimestamp.isEmpty then
      some { detail := .internal "empty StagingTimestamp in EndTxnResponse" }
    else if stagingTimestamp.less txn.writeTimestamp then
      let reason := if txn.writeTooOld then .writeTooOld else .serializable
      some { detail := .transactionRetry reason, txn := some (cloneWithStatus txn .pending) }
    else none
  | some _ => some { detail := .internal "unexpected response in BatchResponse" }

def downgradeStaging (pErr : Error) : Error :=
  match pErr.txn with
  | some txn =>
    if txn.status = .staging then { pErr with txn := some (cloneWithStatus txn .pending) }
    else pErr
  | none => pErr

/-- A staging reply is a commit once all succeeded. -/
def commitResult (ba : BatchRequest) (et : EndTxnRequest) :
    Except Error BatchResponse → Option SendResult
  | .error pErr => some { sent := some ba, result := .error (downgradeStaging pErr) }
  | .ok br => do
      let txn ← br.txn
      match txn.status with
      | .staging =>
        match needTxnRetryAfterStaging br txn with
        | some pErr => return { sent := some ba, result := .error pErr }
        | none => return {
            sent := some ba
            result := .ok { br with txn := some (cloneWithStatus txn .committed) }
            explicitCommit := some (txn, (mergeIntoSpans et.lockSpans et.inFlightWrites).1) }
      | .committed => return { sent := some ba, result := .ok br }
      | _ => return {
          sent := some ba
          result := .error { detail := .internal "unexpected response status without error" } }

/-- The record lives on the anchor key; a set key means a retry. -/
def assignKey (ba : BatchRequest) (et : EndTxnRequest) : EndTxnRequest × EndTxnAttempt :=
  if et.key = none then ({ et with key := ba.txn.key }, .firstAttempt) else (et, .retry)

/-- Moves the in-flight writes to the lock spans if the commit cannot run in parallel
with them. -/
def foldInFlightWrites (parallelCommitsEnabled : Bool) (ba : BatchRequest) (et : EndTxnRequest)
    (attempt : EndTxnAttempt) : BatchRequest × EndTxnRequest :=
  if !et.inFlightWrites.isEmpty && !canCommitInParallel parallelCommitsEnabled ba et attempt then
    let (lockSpans, distinct) := mergeIntoSpans et.lockSpans et.inFlightWrites
    let et := { et with lockSpans := lockSpans, inFlightWrites := [] }
    ({ ba with distinctSpans := distinct }.setEndTxn et, et)
  else (ba.setEndTxn et, et)

def canElide (et : EndTxnRequest) : Bool := et.lockSpans.isEmpty && et.inFlightWrites.isEmpty

def sendLocked (parallelCommitsEnabled : Bool) (send : Sender) (ba : BatchRequest) :
    Option SendResult :=
  match ba.getEndTxn with
  | none => some { sent := some ba, result := send ba }
  | some et₀ =>
    match validateEndTxnBatch ba et₀ with
    | some pErr => some { sent := none, result := .error pErr }
    | none =>
      if canElide et₀ then sendLockedWithElidedEndTxn send ba et₀
      else
        let (et₁, attempt) := assignKey ba et₀
        let (ba', et) := foldInFlightWrites parallelCommitsEnabled ba et₁ attempt
        if !et.commit then some { sent := some ba', result := send ba' }
        else commitResult ba' et (send ba')

/-! ## The batch that is sent -/

variable {s : List Span} {enabled : Bool} {ba : BatchRequest} {et : EndTxnRequest}
  {br : BatchResponse} {res : SendResult} {send : Sender}

lemma wf_append_writes (hs : ∀ sp ∈ s, sp.Wf) (ws : List SequencedWrite) :
    ∀ sp ∈ s ++ ws.map fun w => (⟨w.key, none⟩ : Span), sp.Wf :=
  forall_mem_append.mpr ⟨hs, forall_mem_map.mpr fun _ _ => .inl rfl⟩

variable {ws : List SequencedWrite}

lemma covers_mergeIntoSpans_write
    (hs : ∀ sp ∈ s, sp.Wf) {w : SequencedWrite} (hw : w ∈ ws) :
    Covers (mergeIntoSpans s ws).1 w.key := by
  have hmem : (⟨w.key, none⟩ : Span) ∈ s ++ ws.map fun w => ⟨w.key, none⟩ :=
    mem_append_right _ (List.mem_map.mpr ⟨w, hw, rfl⟩)
  exact mergeSpans_covers (wf_append_writes hs ws) hmem (by simp) (Span.key_mem (.inl rfl))

/-- What the sent `EndTxn` carries. -/
structure SentEndTxn (ba : BatchRequest) (et : EndTxnRequest) (sent : BatchRequest)
    (et' : EndTxnRequest) : Prop where
  getEndTxn : sent.getEndTxn = some et'
  others : sent.requests.dropLast = ba.requests.dropLast
  parallel : et'.inFlightWrites ≠ [] →
    et.commit ∧ et.key = none ∧ et.hasInternalCommitTrigger = false ∧
    (∀ req ∈ ba.requests.dropLast, req.isQueryIntent ∨ (req.isIntentWrite ∧ req.isRange = false)) ∧
    et'.inFlightWrites = et.inFlightWrites ∧ et'.lockSpans = et.lockSpans
  folded : et'.inFlightWrites = [] → (∀ sp ∈ et.lockSpans, sp.Wf) →
    (∀ w ∈ et.inFlightWrites, Covers et'.lockSpans w.key) ∧
    ∀ sp ∈ et.lockSpans, sp.endKey ≠ some [] → ∀ k, Span.Mem k sp → Covers et'.lockSpans k

lemma allowsParallelCommit_iff {req : Request} : allowsParallelCommit req ↔
    req.isQueryIntent ∨ (req.isIntentWrite ∧ req.isRange = false) := by
  cases req with
  | op method header => simp [allowsParallelCommit, isQueryIntent]
  | endTxn et => simp [allowsParallelCommit, isQueryIntent, isIntentWrite]
  | queryIntent qi => simp [allowsParallelCommit, isQueryIntent, isIntentWrite]

lemma canCommitInParallel_spec
    (h : canCommitInParallel enabled ba (assignKey ba et).1 (assignKey ba et).2) :
    et.commit ∧ et.key = none ∧ et.hasInternalCommitTrigger = false ∧
      ∀ req ∈ ba.requests.dropLast,
        req.isQueryIntent ∨ (req.isIntentWrite ∧ req.isRange = false) := by
  unfold canCommitInParallel assignKey at h
  split_ifs at h with hkey
  · simp only [Bool.and_eq_true, Bool.not_eq_true', List.all_eq_true, allowsParallelCommit_iff] at h
    exact ⟨h.1.1.2, hkey, h.1.2, h.2⟩
  · simp at h

lemma assignKey_fields (ba : BatchRequest) (et : EndTxnRequest) :
    (assignKey ba et).1.commit = et.commit ∧ (assignKey ba et).1.lockSpans = et.lockSpans ∧
      (assignKey ba et).1.inFlightWrites = et.inFlightWrites := by
  unfold assignKey
  split_ifs <;> exact ⟨rfl, rfl, rfl⟩

lemma foldInFlightWrites_spec {ba' : BatchRequest} {et' : EndTxnRequest}
    (h : foldInFlightWrites enabled ba (assignKey ba et).1 (assignKey ba et).2 = (ba', et')) :
    SentEndTxn ba et ba' et' ∧ et'.commit = et.commit := by
  obtain ⟨hcommit, hlocks, hwrites⟩ := assignKey_fields ba et
  unfold foldInFlightWrites at h
  split_ifs at h with hfold
  · cases h
    refine ⟨⟨by simp, by simp [BatchRequest.setEndTxn], fun hne => absurd rfl hne, ?_⟩, hcommit⟩
    intro _ hwf
    constructor
    · intro w hw
      rw [hlocks, hwrites]
      exact covers_mergeIntoSpans_write hwf hw
    intro sp hsp hne k hk
    rw [hlocks]
    exact mergeSpans_covers (wf_append_writes hwf _) (mem_append_left _ hsp) hne hk
  cases h
  refine ⟨⟨by simp, by simp, ?_, ?_⟩, hcommit⟩
  · intro hne
    have hpar : canCommitInParallel enabled ba (assignKey ba et).1 (assignKey ba et).2 := by
      simpa [hne] using hfold
    obtain ⟨h1, h2, h3, h4⟩ := canCommitInParallel_spec hpar
    exact ⟨h1, h2, h3, h4, hwrites, hlocks⟩
  intro hnil _
  rw [hwrites] at hnil
  refine ⟨by simp [hnil], fun sp hsp _ k hk => ?_⟩
  rw [hlocks]
  exact ⟨sp, hsp, hk⟩

/-! ## The response that is returned -/

/-- The layer below committed, explicitly or by staging at a timestamp not below its write
timestamp. -/
def LowerCommitted (r : Except Error BatchResponse) : Prop :=
  ∃ br txn, r = .ok br ∧ br.txn = some txn ∧
    (txn.status = .committed ∨ (txn.status = .staging ∧ ∃ ts,
      br.responses.getLast? = some (.endTxn ts) ∧ ts.less txn.writeTimestamp = false))

def resultStatus : Except Error BatchResponse → Option TransactionStatus
  | .ok br => br.txn.map fun txn => txn.status
  | .error pErr => pErr.txn.map fun txn => txn.status

lemma needTxnRetryAfterStaging_eq_none {txn : Transaction}
    (h : needTxnRetryAfterStaging br txn = none) :
    ∃ ts, br.responses.getLast? = some (.endTxn ts) ∧ ts.less txn.writeTimestamp = false := by
  unfold needTxnRetryAfterStaging at h
  split at h
  · cases h
  · rename_i ts hlast
    refine ⟨ts, hlast, ?_⟩
    split_ifs at h with hempty hless
    simpa using hless
  · cases h

lemma needTxnRetryAfterStaging_status {txn : Transaction} {pErr : Error}
    (h : needTxnRetryAfterStaging br txn = some pErr) :
    pErr.txn.map (fun txn => txn.status) ≠ some .staging := by
  unfold needTxnRetryAfterStaging at h
  split at h
  · cases h
    simp
  · split_ifs at h <;> cases h <;> simp [cloneWithStatus]
  cases h
  simp

lemma downgradeStaging_status (pErr : Error) :
    (downgradeStaging pErr).txn.map (fun txn => txn.status) ≠ some .staging := by
  unfold downgradeStaging
  cases htxn : pErr.txn with
  | none => simp [htxn]
  | some txn =>
    dsimp only
    split_ifs with hstaging
    · simp [cloneWithStatus]
    · simpa [htxn] using hstaging

lemma commitResult_spec {r : Except Error BatchResponse} (h : commitResult ba et r = some res) :
    res.sent = some ba ∧ resultStatus res.result ≠ some .staging ∧
      ((∃ br, res.result = .ok br) → LowerCommitted r) := by
  cases r with
  | error pErr =>
    cases h
    exact ⟨rfl, downgradeStaging_status pErr, by simp⟩
  | ok br =>
    simp only [commitResult, bind_eq_bind, bind_eq_some_iff] at h
    obtain ⟨txn, htxn, h⟩ := h
    cases hstatus : txn.status with
    | staging =>
      simp only [hstatus] at h
      cases hretry : needTxnRetryAfterStaging br txn with
      | some pErr =>
        simp only [hretry] at h
        cases h
        exact ⟨rfl, needTxnRetryAfterStaging_status hretry, by simp⟩
      | none =>
        simp only [hretry] at h
        cases h
        refine ⟨rfl, by simp [resultStatus, cloneWithStatus], fun _ => ?_⟩
        exact ⟨br, txn, rfl, htxn, .inr ⟨hstatus, needTxnRetryAfterStaging_eq_none hretry⟩⟩
    | committed =>
      simp only [hstatus] at h
      cases h
      exact ⟨rfl, by simp [resultStatus, htxn, hstatus],
        fun _ => ⟨br, txn, rfl, htxn, .inl hstatus⟩⟩
    | pending | aborted =>
      simp only [hstatus] at h
      cases h
      exact ⟨rfl, by simp [resultStatus], by simp⟩

lemma elidedResult_ok {sent : Option BatchRequest}
    {br0 : BatchResponse} (h : elidedResult ba et sent br0 = some res) (hok : res.result = .ok br) :
    resultStatus (.ok br) = some (if et.commit then .committed else .aborted) := by
  simp only [elidedResult, bind_eq_bind, bind_eq_some_iff] at h
  obtain ⟨txn, -, h⟩ := h
  split_ifs at h with hdeadline hcommit
  · cases h
    cases hok
  · cases h
    cases hok
    simp [resultStatus, cloneWithStatus, hcommit]
  cases h
  cases hok
  simp [resultStatus, cloneWithStatus, hcommit]

lemma sendLockedWithElidedEndTxn_ok
    (h : sendLockedWithElidedEndTxn send ba et = some res) (hok : res.result = .ok br) :
    resultStatus (.ok br) = some (if et.commit then .committed else .aborted) := by
  simp only [sendLockedWithElidedEndTxn] at h
  split at h
  · exact elidedResult_ok h hok
  split at h
  · cases h
    cases hok
  · exact elidedResult_ok h hok

lemma elidedResult_sent {sent : Option BatchRequest} (h : elidedResult ba et sent br = some res) :
    res.sent = sent := by
  simp only [elidedResult, bind_eq_bind, bind_eq_some_iff] at h
  obtain ⟨txn, -, h⟩ := h
  split_ifs at h <;> cases h <;> rfl

lemma sendLockedWithElidedEndTxn_error {sent : BatchRequest} {pErr : Error}
    (h : sendLockedWithElidedEndTxn send ba et = some res) (hsent : res.sent = some sent)
    (herr : send sent = .error pErr) : res.result = .error pErr := by
  simp only [sendLockedWithElidedEndTxn] at h
  split at h
  · cases (elidedResult_sent h).symm.trans hsent
  split at h
  · rename_i hrest
    cases h
    cases hsent
    exact hrest.symm.trans herr
  · rename_i hrest
    cases (elidedResult_sent h).symm.trans hsent
    cases hrest.symm.trans herr

lemma sendLocked_cases (hET : ba.getEndTxn = some et)
    (h : sendLocked enabled send ba = some res) :
    (∃ pErr, validateEndTxnBatch ba et = some pErr ∧
      res = { sent := none, result := .error pErr }) ∨
    (canElide et ∧ sendLockedWithElidedEndTxn send ba et = some res) ∨
    (canElide et = false ∧ ∃ ba' et', SentEndTxn ba et ba' et' ∧ et'.commit = et.commit ∧
      ((et.commit = false ∧ res = { sent := some ba', result := send ba' }) ∨
        (et.commit ∧ commitResult ba' et' (send ba') = some res))) := by
  simp only [sendLocked, hET] at h
  split at h
  · rename_i pErr hvalid
    exact .inl ⟨pErr, hvalid, (Option.some.inj h).symm⟩
  obtain ⟨hsent, hcommit⟩ := foldInFlightWrites_spec
    (Prod.mk.eta.symm : foldInFlightWrites enabled ba (assignKey ba et).1 _ = (_, _))
  split_ifs at h with helide hrollback
  · exact .inr (.inl ⟨helide, h⟩)
  · refine .inr (.inr ⟨by simpa using helide, _, _, hsent, hcommit, .inl ⟨?_, ?_⟩⟩)
    · rw [← hcommit]
      simpa using hrollback
    · exact (Option.some.inj h).symm
  refine .inr (.inr ⟨by simpa using helide, _, _, hsent, hcommit, .inr ⟨?_, h⟩⟩)
  rw [← hcommit]
  simpa using hrollback

/-- The in-flight writes go along only in a parallel commit, and are folded into the lock spans
otherwise. A COMMITTED response means that the layer below committed, or that the `EndTxn` was
elided. STAGING is hidden for a commit. -/
theorem committer_gatekeeping (hET : ba.getEndTxn = some et)
    (h : sendLocked enabled send ba = some res) :
    (canElide et = false → ∀ sent, res.sent = some sent → ∃ et', SentEndTxn ba et sent et') ∧
    (∀ br, res.result = .ok br → resultStatus (.ok br) = some .committed →
      canElide et = true ∨ ∃ sent, res.sent = some sent ∧ LowerCommitted (send sent)) ∧
    (canElide et = false → et.commit = true → resultStatus res.result ≠ some .staging) ∧
    (canElide et = true → ∀ br, res.result = .ok br → resultStatus (.ok br) ≠ some .staging) ∧
    (canElide et = false → et.commit = false → ∀ sent, res.sent = some sent →
      res.result = send sent) ∧
    (canElide et = true → ∀ sent pErr, res.sent = some sent → send sent = .error pErr →
      res.result = .error pErr) := by
  rcases sendLocked_cases hET h with ⟨pErr, hvalid, rfl⟩ | ⟨helide, hres⟩ |
    ⟨helide, ba', et', hsent, -, ⟨hcommit, rfl⟩ | ⟨hcommit, hres⟩⟩
  · have htxn : pErr.txn = none := by
      unfold validateEndTxnBatch at hvalid
      split_ifs at hvalid
      cases hvalid
      rfl
    refine ⟨by simp, by simp, fun _ _ => ?_, by simp, by simp, by simp⟩
    simp [resultStatus, htxn]
  · refine ⟨by simp [helide], fun _ _ _ => .inl helide, by simp [helide], fun _ br hok => ?_,
      by simp [helide], fun _ _ _ => sendLockedWithElidedEndTxn_error hres⟩
    rw [sendLockedWithElidedEndTxn_ok hres hok]
    split_ifs <;> simp
  · refine ⟨?_, ?_, by simp [hcommit], by simp [helide], ?_, by simp [helide]⟩
    · rintro - sent ⟨⟩
      exact ⟨et', hsent⟩
    · intro br hok hstatus
      obtain ⟨txn, htxn, hcommitted⟩ := map_eq_some_iff.mp hstatus
      exact .inr ⟨ba', rfl, br, txn, hok, htxn, .inl hcommitted⟩
    · rintro - - sent ⟨⟩
      rfl
  · obtain ⟨hba, hstaging, hlower⟩ := commitResult_spec hres
    refine ⟨?_, ?_, fun _ _ => hstaging, by simp [helide], by simp [hcommit], by simp [helide]⟩
    · intro _ sent heq
      cases hba.symm.trans heq
      exact ⟨et', hsent⟩
    intro br hok _
    exact .inr ⟨ba', hba, hlower ⟨br, hok⟩⟩

def putAndEndTxn (commit : Bool) : BatchRequest where
  txn := { id := 1, key := some [7] }
  requests := [.op .put { key := [7], sequence := 1 },
    .endTxn { commit := commit, inFlightWrites := [⟨[7], 1⟩] }]

def stagingSender : Sender := fun ba =>
  .ok {
    txn := some { ba.txn with status := .staging, writeTimestamp := { wallTime := 5 } }
    responses := [.op none [], .endTxn { wallTime := 5 }] }

def returnedStatus (o : Option SendResult) : Option TransactionStatus :=
  o.bind fun res =>
    match res.result with
    | .ok br => resultStatus (.ok br)
    | .error _ => none

lemma exists_of_returnedStatus {o : Option SendResult} {status : TransactionStatus}
    (h : returnedStatus o = some status) :
    ∃ res br, o = some res ∧ res.result = .ok br ∧ resultStatus (.ok br) = some status := by
  obtain ⟨res, hres, h⟩ := bind_eq_some_iff.mp h
  split at h
  · rename_i br hok
    exact ⟨res, br, hres, hok, h⟩
  · cases h

/-- A parallel commit: the staged transaction is returned as committed. -/
theorem committer_gatekeeping_parallel_commit :
    ∃ res br et, (putAndEndTxn true).getEndTxn = some et ∧
      sendLocked true stagingSender (putAndEndTxn true) = some res ∧
      res.result = .ok br ∧ resultStatus (.ok br) = some .committed ∧
      (canElide et = true ∨
        ∃ sent, res.sent = some sent ∧ LowerCommitted (stagingSender sent)) := by
  have hstatus : returnedStatus (sendLocked true stagingSender (putAndEndTxn true)) =
      some .committed := by decide
  obtain ⟨res, br, hres, hok, hbr⟩ := exists_of_returnedStatus hstatus
  exact ⟨res, br, _, rfl, hres, hok, hbr, (committer_gatekeeping rfl hres).2.1 br hok hbr⟩

/-- A rollback returns the STAGING status of the layer below. -/
theorem rollback_returns_staging :
    ∃ res br et, (putAndEndTxn false).getEndTxn = some et ∧
      sendLocked true stagingSender (putAndEndTxn false) = some res ∧
      res.result = .ok br ∧ resultStatus (.ok br) = some .staging := by
  have hstatus : returnedStatus (sendLocked true stagingSender (putAndEndTxn false)) =
      some .staging := by decide
  obtain ⟨res, br, hres, hok, hbr⟩ := exists_of_returnedStatus hstatus
  exact ⟨res, br, _, rfl, hres, hok, hbr⟩

end MeshDB.KvCoord.Committer
