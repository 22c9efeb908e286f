import MeshDB.Roachpb.Txn

/-!
# Requests, responses and errors

The parts of the `kvpb` batches that the transaction interceptors read. The flags of
a request follow from its method. Methods that are not transactional, do not lock and
need no refresh differ only in whether they are ranged and are kept as one.
-/
namespace MeshDB.Kvpb

open Roachpb Hlc

structure RequestHeader where
  key : Key
  endKey : Option Key := none
  sequence : Int := 0
deriving DecidableEq

def RequestHeader.span (h : RequestHeader) : Span := ⟨h.key, h.endKey⟩

/-- The methods, with the flags their code reads. -/
inductive Method where
  | get (keyLocking : Bool)
  | put
  | conditionalPut
  | initPut
  | increment
  | delete
  | deleteRange (useRangeTombstone inline : Bool)
  | scan (keyLocking : Bool)
  | reverseScan (keyLocking : Bool)
  | heartbeatTxn
  | refresh (refreshFrom : Timestamp)
  | refreshRange (refreshFrom : Timestamp)
  | nonTransactional (ranged : Bool)
deriving DecidableEq

structure EndTxnRequest where
  key : Option Key := none
  sequence : Int := 0
  commit : Bool
  lockSpans : List Span := []
  inFlightWrites : List SequencedWrite := []
  deadline : Timestamp := {}
  hasInternalCommitTrigger : Bool := false
  require1PC : Bool := false
deriving DecidableEq

structure QueryIntentRequest where
  key : Key
  txn : TxnMeta
  errorIfMissing : Bool
deriving DecidableEq

/-- A request of a batch. -/
inductive Request where
  | op (method : Method) (header : RequestHeader)
  | endTxn (et : EndTxnRequest)
  | queryIntent (qi : QueryIntentRequest)
deriving DecidableEq

namespace Method

/-- The flag `isTxn`. -/
def isTransactional : Method → Bool
  | .deleteRange useRangeTombstone inline => !useRangeTombstone && !inline
  | .nonTransactional _ => false
  | _ => true

/-- The flag `isIntentWrite`. -/
def isIntentWrite : Method → Bool
  | .put => true
  | .conditionalPut => true
  | .initPut => true
  | .increment => true
  | .delete => true
  | .deleteRange useRangeTombstone inline => !useRangeTombstone && !inline
  | _ => false

/-- The flag `isLocking`. -/
def isLocking : Method → Bool
  | .get keyLocking => keyLocking
  | .scan keyLocking => keyLocking
  | .reverseScan keyLocking => keyLocking
  | m => m.isIntentWrite

/-- The flag `isRange`. -/
def isRange : Method → Bool
  | .deleteRange _ _ => true
  | .scan _ => true
  | .reverseScan _ => true
  | .refreshRange _ => true
  | .nonTransactional ranged => ranged
  | _ => false

/-- The flag `needsRefresh`. -/
def needsRefresh : Method → Bool
  | .get _ => true
  | .scan _ => true
  | .reverseScan _ => true
  | .deleteRange useRangeTombstone inline => !useRangeTombstone && !inline
  | _ => false

/-- The flag `canSkipLocked`. -/
def canSkipLocked : Method → Bool
  | .get _ => true
  | .scan _ => true
  | .reverseScan _ => true
  | _ => false

/-- A transaction sends no method that is not transactional. -/
def isReadOnly : Method → Bool
  | .get _ => true
  | .scan _ => true
  | .reverseScan _ => true
  | .refresh _ => true
  | .refreshRange _ => true
  | _ => false

end Method

namespace Request

def header : Request → RequestHeader
  | .op _ header => header
  | .endTxn et => { key := et.key.getD [], sequence := et.sequence }
  | .queryIntent qi => { key := qi.key }

def isTransactional : Request → Bool
  | .op method _ => method.isTransactional
  | .endTxn _ => true
  | .queryIntent _ => false

def isIntentWrite : Request → Bool
  | .op method _ => method.isIntentWrite
  | _ => false

def isLocking : Request → Bool
  | .op method _ => method.isLocking
  | _ => false

def isRange : Request → Bool
  | .op method _ => method.isRange
  | _ => false

def needsRefresh : Request → Bool
  | .op method _ => method.needsRefresh
  | _ => false

def canSkipLocked : Request → Bool
  | .op method _ => method.canSkipLocked
  | _ => false

def isQueryIntent : Request → Bool
  | .queryIntent _ => true
  | _ => false

def isReadOnly : Request → Bool
  | .op method _ => method.isReadOnly
  | .endTxn _ => false
  | .queryIntent _ => true

def setSequence (seq : Int) : Request → Request
  | .op method header => .op method { header with sequence := seq }
  | .endTxn et => .endTxn { et with sequence := seq }
  | .queryIntent qi => .queryIntent qi

def isDeleteRange : Request → Bool
  | .op (.deleteRange _ _) _ => true
  | _ => false

end Request

/-- Why a request stopped early. -/
inductive ResumeReason where
  | unknown
  | keyLimit
  | byteLimit
  | intentLimit
  | rangeBoundary
  | elasticCPULimit
deriving DecidableEq

/-- The responses. `keys` are the keys returned by a read. -/
inductive Response where
  | op (resumeSpan : Option Span) (keys : List Key)
  | endTxn (stagingTimestamp : Timestamp)
  | queryIntent (foundIntent : Bool)
deriving DecidableEq

namespace Response

def resumeSpan : Response → Option Span
  | .op resumeSpan _ => resumeSpan
  | _ => none

def keys : Response → List Key
  | .op _ keys => keys
  | _ => []

def isQueryIntent : Response → Bool
  | .queryIntent _ => true
  | _ => false

end Response

/-- A batch; the header fields that are read. -/
structure BatchRequest where
  txn : Transaction
  requests : List Request
  maxSpanRequestKeys : Int := 0
  asyncConsensus : Bool := false
  distinctSpans : Bool := false
  canForwardReadTimestamp : Bool := false
  skipLocked : Bool := false
deriving DecidableEq

structure BatchResponse where
  txn : Option Transaction
  responses : List Response
deriving DecidableEq

/-- Why a transaction has to retry. -/
inductive RetryReason where
  | writeTooOld
  | serializable
  | asyncWriteFailure
  | commitDeadlineExceeded
deriving DecidableEq

/-- The details the coordinator tells apart. -/
inductive ErrorDetail where
  | conditionFailed
  | writeIntent
  | intentMissing (key : Key)
  | transactionRetry (reason : RetryReason)
  | writeTooOld (retryTimestamp : Timestamp)
  | readWithinUncertaintyInterval (retryTimestamp : Timestamp)
  | transactionPush
  | transactionAborted
  | internal (msg : String)
  | other (n : ℕ)
deriving DecidableEq

/-- An error with the index of the request it is about and a transaction. -/
structure Error where
  detail : ErrorDetail
  index : Option ℕ := none
  txn : Option Transaction := none
deriving DecidableEq

/-- The priorities by which errors of a split batch are ranked, lowest first. -/
inductive ErrorPriority where
  | txnRestart
  | unambiguousError
  | nonRetriable
  | txnAbort
deriving DecidableEq

/-- `ErrPriority`: which of two errors to report. -/
def errPriority (pErr : Error) : ErrorPriority :=
  match pErr.detail with
  | .conditionFailed => .unambiguousError
  | .writeIntent => .unambiguousError
  | .intentMissing _ => .txnRestart
  | .transactionRetry _ => .txnRestart
  | .writeTooOld _ => .txnRestart
  | .readWithinUncertaintyInterval _ => .txnRestart
  | .transactionPush => .txnRestart
  | .transactionAborted => .txnAbort
  | .internal _ => .nonRetriable
  | .other _ => .nonRetriable

/-- The batch certainly did not commit. -/
def Error.isUnambiguous (pErr : Error) : Bool :=
  match errPriority pErr with
  | .txnRestart => true
  | .unambiguousError => true
  | _ => false

/-- The request's span without the part that a resume span leaves over, and nothing if that is all.
-/
def actualSpan (req : Request) (resp : Option Response) : Option Span :=
  let h := req.header
  match resp.bind Response.resumeSpan with
  | none => some h.span
  | some resumeSpan =>
    if resumeSpan.key = h.key then
      if resumeSpan.endKeyBytes = h.span.endKeyBytes then none
      else some ⟨resumeSpan.endKeyBytes, h.endKey⟩
    else some ⟨h.key, some resumeSpan.key⟩

/-- The spans of `LockSpanIterate` without a response: those of the locking requests. -/
def lockSpans (reqs : List Request) : List Span :=
  (reqs.filter Request.isLocking).map fun req => req.header.span

abbrev Sender := BatchRequest → Except Error BatchResponse

/-- Only the last request can be one. -/
def BatchRequest.getEndTxn (ba : BatchRequest) : Option EndTxnRequest :=
  match ba.requests.getLast? with
  | some (.endTxn et) => some et
  | _ => none

def BatchRequest.hasDeleteRange (ba : BatchRequest) : Bool := ba.requests.any Request.isDeleteRange

def BatchRequest.setEndTxn (ba : BatchRequest) (et : EndTxnRequest) : BatchRequest :=
  { ba with requests := ba.requests.dropLast ++ [.endTxn et] }

lemma BatchRequest.requests_eq_of_getEndTxn {ba : BatchRequest} {et : EndTxnRequest}
    (h : ba.getEndTxn = some et) : ba.requests = ba.requests.dropLast ++ [.endTxn et] := by
  unfold BatchRequest.getEndTxn at h
  split at h
  · rename_i et' hlast
    cases h
    exact (List.dropLast_append_getLast? _ hlast).symm
  · cases h

@[simp] lemma BatchRequest.getEndTxn_setEndTxn (ba : BatchRequest) (et : EndTxnRequest) :
    (ba.setEndTxn et).getEndTxn = some et := by
  simp [BatchRequest.getEndTxn, BatchRequest.setEndTxn]

@[simp] lemma BatchRequest.dropLast_setEndTxn (ba : BatchRequest) (et : EndTxnRequest) :
    (ba.setEndTxn et).requests.dropLast = ba.requests.dropLast := by
  simp [BatchRequest.setEndTxn]

end MeshDB.Kvpb
