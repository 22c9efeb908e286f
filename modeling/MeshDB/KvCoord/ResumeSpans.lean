import MeshDB.KvCoord.BatchPartition

/-!
# Resume spans of limited batches

A batch of reads with limits stops along the ranges as soon as a limit is reached.
`divideAndSendBatchToRanges` combines the responses of the ranges, and
`fillSkippedResponses` sets the resume spans of the requests that are not complete.
-/
namespace MeshDB
namespace Kvpb

open Roachpb

structure ResponseHeader where
  resumeSpan : Option Span := none
  resumeReason : ResumeReason := .unknown
  numKeys : ℤ := 0
  numBytes : ℤ := 0
deriving DecidableEq

/-- The reply to one read. -/
structure ReadResponse where
  header : ResponseHeader := {}
  rows : List Key := []
deriving DecidableEq

def ReadResponse.toResponse (resp : ReadResponse) : Response :=
  .op resp.header.resumeSpan resp.rows

/-- Two parts of a request, from two ranges. -/
def ResponseHeader.combine (rh otherRH : ResponseHeader) : Option ResponseHeader :=
  if rh.resumeSpan.isSome then none
  else
    some { resumeSpan := otherRH.resumeSpan, resumeReason := otherRH.resumeReason
           numKeys := rh.numKeys + otherRH.numKeys, numBytes := rh.numBytes + otherRH.numBytes }

/-- `CombineResponses` of two responses to a request. Only those to ranged requests are
combined. -/
def combineResponses (req : Request) (left right : ReadResponse) : Option ReadResponse :=
  if req.isRange then
    (left.header.combine right.header).map fun header => ⟨header, left.rows ++ right.rows⟩
  else some left

def Request.isGet : Request → Bool
  | .op (.get _) _ => true
  | _ => false

end Kvpb

namespace KvCoord

open Roachpb Kvpb

/-! ## Filling in the resume spans -/

/-- What a skipped request is to be resumed with. -/
def maybeSetResumeSpan (req : Request) (hdr : ResponseHeader) (nextKey : Key)
    (isReverse : Bool) : ResponseHeader :=
  let origHeader := req.header
  if req.isGet then
    if hdr.resumeSpan.isSome then hdr
    else if isReverse then
      if nextKey < origHeader.key then hdr
      else { hdr with resumeSpan := some ⟨origHeader.key, none⟩ }
    else
      if origHeader.key < nextKey then hdr
      else { hdr with resumeSpan := some ⟨origHeader.key, none⟩ }
  else if !req.isRange then hdr
  else if isReverse then
    match hdr.resumeSpan with
    | some resumeSpan => { hdr with resumeSpan := some ⟨origHeader.key, resumeSpan.endKey⟩ }
    | none =>
      if origHeader.key < nextKey then
        if nextKey < origHeader.span.endKeyBytes then
          { hdr with resumeSpan := some ⟨origHeader.key, some nextKey⟩ }
        else { hdr with resumeSpan := some origHeader.span }
      else hdr
  else
    match hdr.resumeSpan with
    | some resumeSpan => { hdr with resumeSpan := some ⟨resumeSpan.key, origHeader.endKey⟩ }
    | none =>
      if nextKey < origHeader.span.endKeyBytes then
        if origHeader.key < nextKey then
          { hdr with resumeSpan := some ⟨nextKey, origHeader.endKey⟩ }
        else { hdr with resumeSpan := some origHeader.span }
      else hdr

/-- What `fillSkippedResponses` does with the response to a request, an empty one if there is
none. -/
def fillSkippedResponse (nextKey : Key) (resumeReason : ResumeReason) (isReverse : Bool)
    (req : Request) (resp : Option ReadResponse) : ReadResponse :=
  let resp := resp.getD {}
  let hdr := maybeSetResumeSpan req resp.header nextKey isReverse
  ⟨if hdr.resumeSpan.isSome then { hdr with resumeReason := resumeReason } else hdr, resp.rows⟩

/-- Completes the replies after an early stop. -/
def fillSkippedResponses (requests : List Request) (responses : List (Option ReadResponse))
    (nextKey : Key) (resumeReason : ResumeReason) (isReverse : Bool) : List ReadResponse :=
  List.zipWith (fillSkippedResponse nextKey resumeReason isReverse) requests responses

/-! ## Sending -/

/-- The limits of a batch, as they run down. -/
structure Limits where
  maxSpanRequestKeys : ℤ := 0
  targetBytes : ℤ := 0
  returnOnRangeBoundary : Bool := false
  returnElasticCPUResumeSpans : Bool := false
deriving DecidableEq

def Limits.mightStopEarly (l : Limits) : Bool :=
  decide (0 < l.maxSpanRequestKeys) || decide (0 < l.targetBytes) || l.returnOnRangeBoundary ||
    l.returnElasticCPUResumeSpans

/-- The limits that are left, the batches with their replies, and whether and why the loop stopped.
-/
structure SendState where
  limits : Limits
  replies : List (Visit × List ReadResponse) := []
  couldHaveSkippedResponses : Bool := false
  resumeReason : ResumeReason := .unknown

/-- The loop ends with this reason. -/
def SendState.stop (st : SendState) (reason : ResumeReason) : SendState × Bool :=
  ({ st with couldHaveSkippedResponses := true, resumeReason := reason }, true)

/-- What a range's reply uses up. -/
def Limits.consume (l : Limits) (replyKeys replyBytes : ℤ) (lastRange : Bool) :
    Limits × Option ResumeReason :=
  let keys :=
    if 0 < l.maxSpanRequestKeys then l.maxSpanRequestKeys - replyKeys else l.maxSpanRequestKeys
  let afterKeys := { l with maxSpanRequestKeys := keys }
  if 0 < l.maxSpanRequestKeys ∧ keys ≤ 0 then (afterKeys, some .keyLimit)
  else
    let bytes := if 0 < l.targetBytes then l.targetBytes - replyBytes else l.targetBytes
    let afterBytes := { afterKeys with targetBytes := bytes }
    if 0 < l.targetBytes ∧ bytes ≤ 0 then (afterBytes, some .byteLimit)
    else if l.returnOnRangeBoundary ∧ 0 < replyKeys ∧ !lastRange then
      (afterBytes, some .rangeBoundary)
    else (afterBytes, none)

/-- Sends a truncated batch to its range and checks whether enough responses were received. -/
def sendToRange (respond : Limits → Visit → List ReadResponse) (st : SendState) (v : Visit)
    (lastRange : Bool) : SendState × Bool :=
  let reply := respond st.limits v
  let st := { st with replies := st.replies ++ [(v, reply)] }
  if !st.limits.mightStopEarly then (st, false)
  else
    match reply.find? fun resp => resp.header.resumeSpan.isSome with
    | some resp => st.stop resp.header.resumeReason
    | none =>
      let replyKeys := (reply.map fun resp => resp.header.numKeys).sum
      let replyBytes := (reply.map fun resp => resp.header.numBytes).sum
      let r := st.limits.consume replyKeys replyBytes lastRange
      let st := { st with limits := r.1 }
      match r.2 with
      | some reason => st.stop reason
      | none => (st, false)

/-! ## Combining -/

inductive SendError where
  | loop (e : LoopError)
  /-- Two responses to a request cannot be combined. -/
  | combine
  /-- A reply has more responses than its batch has requests, or a position has no request. -/
  | indexOutOfRange
deriving DecidableEq

/-- Merges one range's replies into the slots. -/
def combineReply (requests : List Request) :
    List ReadResponse → List ℕ → List (Option ReadResponse) →
      Except SendError (List (Option ReadResponse))
  | [], _, br => .ok br
  | _ :: _, [], _ => .error .indexOutOfRange
  | resp :: reply, pos :: positions, br =>
    match br[pos]?, requests[pos]? with
    | some none, some _ => combineReply requests reply positions (br.set pos (some resp))
    | some (some left), some req =>
      match combineResponses req left resp with
      | none => .error .combine
      | some resp => combineReply requests reply positions (br.set pos (some resp))
    | _, _ => .error .indexOutOfRange

def combineReplies (requests : List Request) :
    List (Visit × List ReadResponse) → List (Option ReadResponse) →
      Except SendError (List (Option ReadResponse))
  | [], br => .ok br
  | (v, reply) :: replies, br =>
    (combineReply requests reply (v.requests.map Prod.snd) br).bind
      (combineReplies requests replies)

/-- The responses, and the batches that were sent with what their ranges replied. -/
structure SendResult where
  responses : List (Option ReadResponse)
  replies : List (Visit × List ReadResponse)

/-- The replies of the whole batch. -/
def finishBatch (isReverse : Bool) (requests : List Request) (res : LoopResult SendState) :
    Except SendError SendResult :=
  (combineReplies requests res.state.replies (requests.map fun _ => none)).map fun br =>
    if res.state.couldHaveSkippedResponses then
      ⟨(fillSkippedResponses requests br res.seekKey res.state.resumeReason isReverse).map some,
        res.state.replies⟩
    else ⟨br, res.state.replies⟩

def scanDirection : Bool → ScanDirection
  | false => .ascending
  | true => .descending

def divideAndSendBatchToRanges (A : Addressing) (sort : List Entry → List Entry)
    (ranges : List RSpan) (respond : Limits → Visit → List ReadResponse) (limits : Limits)
    (isReverse : Bool) (requests : List Request) : Except SendError SendResult :=
  let scanDir := scanDirection isReverse
  match keysRange A requests with
  | .error e => .error (.loop (.truncation e))
  | .ok rs =>
    match seekRange ranges scanDir (firstSeekKey scanDir rs) with
    | none => .error (.loop (.seek (firstSeekKey scanDir rs)))
    | some desc =>
      if needAnother scanDir desc rs then
        match divideBatch A sort ranges scanDir false (sendToRange respond)
            { limits := limits } requests with
        | .error e => .error (.loop e)
        | .ok res => finishBatch isReverse requests res
      else
        let v : Visit := ⟨desc, rs, requests.zipIdx⟩
        let reply := respond limits v
        .ok ⟨reply.map some, [(v, reply)]⟩

/-!
## The rest of a request

A point in scan direction divides the keys of a request: those before it were processed, and
the resume span has the rest. `maybeSetResumeSpan` sets the rest from such a point on.
-/

open Sweep BatchTruncationHelper ReadResponse Response Key
variable {dir : ScanDirection} {req pc : Request} {cell : RSpan} {k : Key} {x y : Cut dir}

/-! ## The rest of a request -/

/-- The sweep has passed the key. -/
def Processed : {dir : ScanDirection} → Cut dir → Key → Prop
  | .ascending, x, k => k < uncut _ x
  | .descending, x, k => uncut _ x ≤ k

lemma Processed.mono (h : x ≤ y) (hk : Processed x k) : Processed y k := by
  cases dir with
  | ascending => exact lt_of_lt_of_le hk h
  | descending => exact le_trans h hk

lemma containsKey_iff_processed : cell.containsKey k ↔
    Processed (farEnd dir cell) k ∧ ¬ Processed (nearEnd dir cell) k := by
  rw [containsKey_iff]
  cases dir with
  | ascending => exact ⟨fun h => ⟨h.2, h.1.not_gt⟩, fun h => ⟨not_lt.mp h.2, h.1⟩⟩
  | descending => exact ⟨fun h => ⟨h.1, h.2.not_ge⟩, fun h => ⟨h.1, not_le.mp h.2⟩⟩

def InSpan (k : Key) (sp : Option Span) : Prop := ∃ s ∈ sp, Span.Mem k s

lemma not_inSpan_none : ¬ InSpan k none := nofun

lemma inSpan_some {sp : Span} : InSpan k (some sp) ↔ Span.Mem k sp :=
  ⟨fun ⟨_, hs, hk⟩ => Option.some.inj hs ▸ hk, fun hk => ⟨sp, rfl, hk⟩⟩

/-- The span of what is left of a request from a point on. -/
def restSpan : {dir : ScanDirection} → Cut dir → Request → Option Span
  | .ascending, x, req =>
    if req.isRange then
      if req.header.span.endKeyBytes ≤ uncut _ x then none
      else some ⟨max (uncut _ x) req.header.key, some req.header.span.endKeyBytes⟩
    else if req.header.key < uncut _ x then none else some ⟨req.header.key, none⟩
  | .descending, x, req =>
    if req.isRange then
      if uncut _ x ≤ req.header.key then none
      else some ⟨req.header.key, some (min (uncut _ x) req.header.span.endKeyBytes)⟩
    else if uncut _ x ≤ req.header.key then none else some ⟨req.header.key, none⟩

variable {key : Key}

lemma restSpan_ascending (hrange : req.isRange) (hkey : req.header.key ≤ key)
    (hend : key < req.header.span.endKeyBytes) :
    restSpan (cut .ascending key) req = some ⟨key, some req.header.span.endKeyBytes⟩ := by
  rw [restSpan, if_pos hrange]
  exact (if_neg hend.not_ge).trans (congrArg (fun k => some (⟨k, _⟩ : Span)) (max_eq_left hkey))

variable {endKey : Key}

lemma restSpan_descending (hrange : req.isRange)
    (hkey : req.header.key < endKey) (hend : endKey ≤ req.header.span.endKeyBytes) :
    restSpan (cut .descending endKey) req = some ⟨req.header.key, some endKey⟩ := by
  rw [restSpan, if_pos hrange]
  exact (if_neg hkey.not_ge).trans
    (congrArg (fun k => some (⟨_, some k⟩ : Span)) (min_eq_left hend))

lemma mem_range_span (h : key < endKey) :
    Span.Mem k ⟨key, some endKey⟩ ↔ key ≤ k ∧ k < endKey :=
  Span.mem_of_not_isPoint (@Span.not_isPoint_of_lt ⟨key, some endKey⟩ _ h)

lemma mem_request_range (h : RequestOk req) (hrange : req.isRange) :
    Span.Mem k req.header.span ↔ req.header.key ≤ k ∧ k < req.header.span.endKeyBytes := by
  rw [mem_span_iff h, requestStop, if_pos hrange]

lemma mem_request_point (h : RequestOk req) (hrange : ¬ req.isRange) :
    Span.Mem k req.header.span ↔ k = req.header.key :=
  Span.mem_of_isPoint (by rw [h.isPoint]; simpa using hrange)

lemma mem_point_span : Span.Mem k ⟨key, none⟩ ↔ k = key := Span.mem_of_isPoint rfl

/-- A point is processed or not. -/
lemma restSpan_point (x : Cut dir) (hrange : ¬ req.isRange) :
    restSpan x req = none ∧ Processed x req.header.key ∨
      restSpan x req = some ⟨req.header.key, none⟩ ∧ ¬ Processed x req.header.key := by
  cases dir <;> rw [restSpan, if_neg hrange] <;> split_ifs with hdone
  · exact .inl ⟨rfl, hdone⟩
  · exact .inr ⟨rfl, hdone⟩
  · exact .inl ⟨rfl, hdone⟩
  · exact .inr ⟨rfl, hdone⟩

lemma inSpan_restSpan (h : RequestOk req) :
    InSpan k (restSpan x req) ↔ Span.Mem k req.header.span ∧ ¬ Processed x k := by
  by_cases hrange : req.isRange
  · rw [mem_request_range h hrange]
    have hlt := h.lt hrange
    cases dir with
    | ascending =>
      rw [restSpan, if_pos hrange]
      split_ifs with hdone
      · exact ⟨fun hk => absurd hk not_inSpan_none,
          fun ⟨⟨_, hk⟩, hx⟩ => absurd (hk.trans_le hdone) hx⟩
      rw [inSpan_some, mem_range_span (max_lt (not_le.mp hdone) hlt), max_le_iff]
      exact ⟨fun ⟨⟨hx, hk⟩, hk'⟩ => ⟨⟨hk, hk'⟩, not_lt.mpr hx⟩,
        fun ⟨⟨hk, hk'⟩, hx⟩ => ⟨⟨not_lt.mp hx, hk⟩, hk'⟩⟩
    | descending =>
      rw [restSpan, if_pos hrange]
      split_ifs with hdone
      · exact ⟨fun hk => absurd hk not_inSpan_none, fun ⟨⟨hk, _⟩, hx⟩ => absurd (hdone.trans hk) hx⟩
      rw [inSpan_some, mem_range_span (lt_min (not_le.mp hdone) hlt), lt_min_iff]
      exact ⟨fun ⟨hk, hx, hk'⟩ => ⟨⟨hk, hk'⟩, not_le.mpr hx⟩,
        fun ⟨⟨hk, hk'⟩, hx⟩ => ⟨hk, not_le.mp hx, hk'⟩⟩
  rw [mem_request_point h hrange]
  rcases restSpan_point x hrange with ⟨hrest, hx⟩ | ⟨hrest, hx⟩ <;> rw [hrest]
  · exact ⟨fun hk => absurd hk not_inSpan_none, fun ⟨hk, hx'⟩ => absurd (hk ▸ hx) hx'⟩
  rw [inSpan_some, mem_point_span]
  exact ⟨fun hk => ⟨hk, hk ▸ hx⟩, And.left⟩

variable {resp : ReadResponse} {sp : Span}

lemma actualSpan_of_none (h : resp.header.resumeSpan = none) :
    actualSpan req (some resp.toResponse) = some req.header.span := by
  simp [actualSpan, toResponse, resumeSpan, h]

lemma actualSpan_of_all (h : resp.header.resumeSpan = some sp) (hkey : sp.key = req.header.key)
    (hend : sp.endKeyBytes = req.header.span.endKeyBytes) :
    actualSpan req (some resp.toResponse) = none := by
  simp [actualSpan, toResponse, resumeSpan, h, hkey, hend]

lemma actualSpan_of_reverse (h : resp.header.resumeSpan = some sp)
    (hkey : sp.key = req.header.key) (hend : sp.endKeyBytes ≠ req.header.span.endKeyBytes) :
    actualSpan req (some resp.toResponse) = some ⟨sp.endKeyBytes, req.header.endKey⟩ := by
  simp [actualSpan, toResponse, resumeSpan, h, hkey, hend]

lemma actualSpan_of_forward (h : resp.header.resumeSpan = some sp)
    (hkey : sp.key ≠ req.header.key) :
    actualSpan req (some resp.toResponse) = some ⟨req.header.key, some sp.key⟩ := by
  simp [actualSpan, toResponse, resumeSpan, h, hkey]

lemma inSpan_actualSpan (h : RequestOk req) (hresume : resp.header.resumeSpan = restSpan x req) :
    InSpan k (actualSpan req (some resp.toResponse)) ↔
      Span.Mem k req.header.span ∧ Processed x k := by
  cases hrest : restSpan x req with
  | none =>
    have hall := @inSpan_restSpan _ _ k x h
    rw [hrest] at hall hresume
    rw [actualSpan_of_none hresume, inSpan_some]
    refine ⟨fun hk => ⟨hk, ?_⟩, And.left⟩
    by_contra hx
    exact not_inSpan_none (hall.mpr ⟨hk, hx⟩)
  | some sp =>
    rw [hrest] at hresume
    by_cases hrange : req.isRange
    · rw [mem_request_range h hrange]
      cases dir with
      | ascending =>
        rw [restSpan, if_pos hrange] at hrest
        split_ifs at hrest with hdone
        obtain rfl := Option.some.inj hrest
        by_cases hx : req.header.key < uncut .ascending x
        · rw [max_eq_left hx.le] at hresume
          rw [actualSpan_of_forward hresume hx.ne', inSpan_some, mem_range_span hx]
          exact ⟨fun hk => ⟨⟨hk.1, hk.2.trans (not_le.mp hdone)⟩, hk.2⟩, fun hk => ⟨hk.1.1, hk.2⟩⟩
        have hx := not_lt.mp hx
        rw [actualSpan_of_all hresume (max_eq_right hx) rfl]
        exact ⟨fun hk => absurd hk not_inSpan_none, fun hk => absurd hk.2 (hx.trans hk.1.1).not_gt⟩
      | descending =>
        rw [restSpan, if_pos hrange] at hrest
        split_ifs at hrest with hdone
        obtain rfl := Option.some.inj hrest
        by_cases hx : uncut .descending x < req.header.span.endKeyBytes
        · rw [min_eq_left hx.le] at hresume
          rw [actualSpan_of_reverse hresume rfl hx.ne, h.endKey hrange, inSpan_some]
          refine (mem_range_span hx).trans ?_
          exact ⟨fun hk => ⟨⟨(not_le.mp hdone).le.trans hk.1, hk.2⟩, hk.1⟩,
            fun hk => ⟨hk.2, hk.1.2⟩⟩
        have hx := not_lt.mp hx
        rw [actualSpan_of_all hresume rfl (min_eq_right hx)]
        exact ⟨fun hk => absurd hk not_inSpan_none,
          fun hk => absurd hk.2 (hk.1.2.trans_le hx).not_ge⟩
    · rw [mem_request_point h hrange]
      obtain ⟨hnone, -⟩ | ⟨hsp, hx⟩ := restSpan_point x hrange
      · cases hrest.symm.trans hnone
      cases hrest.symm.trans hsp
      have hend : req.header.span.endKeyBytes = [] := by
        have hp := h.isPoint
        rw [Bool.eq_false_iff.mpr hrange, Bool.not_false] at hp
        exact List.isEmpty_iff.mp hp
      rw [actualSpan_of_all hresume rfl (by rw [hend]; rfl)]
      exact ⟨fun hk => absurd hk not_inSpan_none, fun ⟨hk, hx'⟩ => absurd (hk ▸ hx') hx⟩

/-! ## The resume span of a request -/

/-- A legal resume span of a piece. -/
def Remainder (dir : ScanDirection) (pc : Request) (sp : Span) : Prop :=
  if pc.isRange then
    match dir with
    | .ascending => ∃ key, pc.header.key ≤ key ∧ key < pc.header.span.endKeyBytes ∧
        sp = ⟨key, some pc.header.span.endKeyBytes⟩
    | .descending => ∃ endKey, pc.header.key < endKey ∧ endKey ≤ pc.header.span.endKeyBytes ∧
        sp = ⟨pc.header.key, some endKey⟩
  else sp = ⟨pc.header.key, none⟩

/-- The reply resumes only inside its piece. -/
def Responds (dir : ScanDirection) (pc : Request) (resp : ReadResponse) : Prop :=
  ∀ sp ∈ resp.header.resumeSpan, Remainder dir pc sp

def IsRead (dir : ScanDirection) : Request → Prop
  | .op (.get _) _ => True
  | .op (.scan _) _ => dir = .ascending
  | .op (.reverseScan _) _ => dir = .descending
  | _ => False

lemma IsRead.isGet (h : IsRead dir req) : req.isGet = !req.isRange := by
  cases req with
  | op method header => cases method <;> first | rfl | exact h.elim
  | endTxn et => exact h.elim
  | queryIntent qi => exact h.elim

def isReverseOf : ScanDirection → Bool
  | .ascending => false
  | .descending => true

/-- Where the loop stopped: not before a point, and not after what is left of the request. -/
structure NextKey (req : Request) (x : Cut dir) (nextKey : Key) : Prop where
  le : x ≤ cut dir nextKey
  le_rest : x < (requestPart dir (req, 0)).hi →
    cut dir nextKey ≤ max x (requestPart dir (req, 0)).lo

variable {hdr : ResponseHeader}

lemma maybeSetResumeSpan_of_none (h : RequestOk req) (hread : IsRead dir req)
    (hnone : hdr.resumeSpan = none) {nextKey : Key}
    (hnext : NextKey req x nextKey)
    (hget : dir = .descending → req.isGet → nextKey ≠ req.header.key) :
    (maybeSetResumeSpan req hdr nextKey (isReverseOf dir)).resumeSpan = restSpan x req := by
  have hle := hnext.le
  have hrest := hnext.le_rest
  have hisGet := hread.isGet
  unfold maybeSetResumeSpan
  cases dir with
  | ascending =>
    replace hle : uncut .ascending x ≤ nextKey := hle
    replace hrest : uncut .ascending x < requestStop req →
      nextKey ≤ max (uncut .ascending x) req.header.key := hrest
    by_cases hrange : req.isRange
    · have hlt := h.lt hrange
      rw [requestStop, if_pos hrange] at hrest
      simp only [hisGet, hnone, hrange, isReverseOf, restSpan, Bool.not_true, if_true,
        Bool.false_eq_true, if_false]
      by_cases hdone : req.header.span.endKeyBytes ≤ uncut .ascending x
      · rw [if_pos hdone, if_neg (hdone.trans hle).not_gt, hnone]
      have hlt' := max_lt (not_le.mp hdone) hlt
      have hnext' := hrest (not_le.mp hdone)
      rw [if_neg hdone, if_pos (hnext'.trans_lt hlt')]
      by_cases hkey : req.header.key < nextKey
      · have hx : nextKey = uncut .ascending x := by
          refine le_antisymm ?_ hle
          rcases le_max_iff.mp hnext' with hx | hx
          · exact hx
          · exact absurd hkey hx.not_gt
        rw [if_pos hkey, h.endKey hrange, hx, max_eq_left (hx ▸ hkey.le)]
      have hx := hle.trans (not_lt.mp hkey)
      rw [if_neg hkey, max_eq_right hx, ← h.endKey hrange]
      rfl
    rw [requestStop, if_neg hrange] at hrest
    rw [Bool.eq_false_iff.mpr hrange, Bool.not_false] at hisGet
    simp only [hisGet, hnone, isReverseOf, restSpan, if_neg hrange, if_true, Option.isSome_none,
      Bool.false_eq_true, if_false]
    by_cases hdone : req.header.key < uncut .ascending x
    · rw [if_pos hdone, if_pos (hdone.trans_le hle), hnone]
    have hx := not_lt.mp hdone
    have hnext' := hrest (hx.trans_lt (lt_next _))
    rw [max_eq_right hx] at hnext'
    rw [if_neg hdone, if_neg hnext'.not_gt]
  | descending =>
    replace hle : nextKey ≤ uncut .descending x := hle
    replace hrest : req.header.key < uncut .descending x →
      min (uncut .descending x) (requestStop req) ≤ nextKey := hrest
    by_cases hrange : req.isRange
    · have hlt := h.lt hrange
      rw [requestStop, if_pos hrange] at hrest
      simp only [hisGet, hnone, hrange, isReverseOf, restSpan, Bool.not_true, if_true,
        Bool.false_eq_true, if_false]
      by_cases hdone : uncut .descending x ≤ req.header.key
      · rw [if_pos hdone, if_neg (hle.trans hdone).not_gt, hnone]
      have hlt' := lt_min (not_le.mp hdone) hlt
      have hnext' := hrest (not_le.mp hdone)
      rw [if_neg hdone, if_pos (hlt'.trans_le hnext')]
      by_cases hend : nextKey < req.header.span.endKeyBytes
      · have hx : nextKey = uncut .descending x := by
          refine le_antisymm hle ?_
          rcases min_le_iff.mp hnext' with hx | hx
          · exact hx
          · exact absurd hend hx.not_gt
        rw [if_pos hend, hx, min_eq_left (hx ▸ hend.le)]
      have hx := (not_lt.mp hend).trans hle
      rw [if_neg hend, min_eq_right hx, ← h.endKey hrange]
      rfl
    rw [requestStop, if_neg hrange] at hrest
    rw [Bool.eq_false_iff.mpr hrange, Bool.not_false] at hisGet
    simp only [hisGet, hnone, isReverseOf, restSpan, if_neg hrange, if_true, Option.isSome_none,
      Bool.false_eq_true, if_false]
    by_cases hdone : uncut .descending x ≤ req.header.key
    · have hlt := (hle.trans hdone).lt_of_ne (hget rfl hisGet)
      rw [if_pos hdone, if_pos hlt, hnone]
    have hx := not_le.mp hdone
    have hnext' : req.header.key < nextKey :=
      (lt_min hx (lt_next _)).trans_le (hrest hx)
    rw [if_neg hdone, if_neg hnext'.not_gt]

lemma piece_isRange (hrange : req.isRange) (key endKey : Key) :
    (piece req key endKey).isRange ∧
      (piece req key endKey).header = ⟨key, some endKey, req.header.sequence⟩ := by
  rw [piece, if_pos hrange]
  cases req with
  | op method header => exact ⟨hrange, rfl⟩
  | endTxn et => cases hrange
  | queryIntent qi => cases hrange

lemma maybeSetResumeSpan_of_some (h : RequestOk req) (hread : IsRead dir req)
    (hclip : clipRequest cell req = some pc) {sp : Span} (hrem : Remainder dir pc sp)
    (hsome : hdr.resumeSpan = some sp) (nextKey : Key) :
    ∃ x : Cut dir, (maybeSetResumeSpan req hdr nextKey (isReverseOf dir)).resumeSpan =
        restSpan x req ∧ nearEnd dir cell ≤ x ∧ x ≤ farEnd dir cell ∧
      ∀ k, Span.Mem k req.header.span → cell.containsKey k →
        (Span.Mem k sp ↔ ¬ Processed x k) := by
  have hisGet := hread.isGet
  unfold clipRequest at hclip
  split_ifs at hclip with hlt
  obtain rfl := Option.some.inj hclip
  unfold maybeSetResumeSpan
  by_cases hrange : req.isRange
  · have hstop : requestStop req = req.header.span.endKeyBytes := if_pos hrange
    rw [hstop] at hlt hrem
    obtain ⟨hrange', hheader⟩ := piece_isRange hrange (max cell.key req.header.key)
      (min cell.endKey req.header.span.endKeyBytes)
    unfold Remainder at hrem
    rw [if_pos hrange', hheader] at hrem
    simp only [hisGet, hsome, hrange, Bool.not_true, Bool.false_eq_true, if_false]
    cases dir with
    | ascending =>
      obtain ⟨key, hkey, hend, rfl⟩ := hrem
      replace hkey : max cell.key req.header.key ≤ key := hkey
      replace hend : key < min cell.endKey req.header.span.endKeyBytes := hend
      rw [max_le_iff] at hkey
      refine ⟨cut .ascending key, ?_, hkey.1, (lt_min_iff.mp hend).1.le, ?_⟩
      · rw [restSpan_ascending hrange hkey.2 (lt_min_iff.mp hend).2, ← h.endKey hrange]
        rfl
      intro k hk hcell
      rw [mem_request_range h hrange] at hk
      rw [containsKey_iff] at hcell
      refine (mem_range_span hend).trans ⟨fun hin => hin.1.not_gt, fun hx => ?_⟩
      exact ⟨not_lt.mp hx, lt_min hcell.2 hk.2⟩
    | descending =>
      obtain ⟨endKey, hkey, hend, rfl⟩ := hrem
      replace hkey : max cell.key req.header.key < endKey := hkey
      replace hend : endKey ≤ min cell.endKey req.header.span.endKeyBytes := hend
      rw [le_min_iff] at hend
      refine ⟨cut .descending endKey, ?_, hend.1, (max_lt_iff.mp hkey).1.le, ?_⟩
      · rw [restSpan_descending hrange (max_lt_iff.mp hkey).2 hend.2]
        rfl
      intro k hk hcell
      rw [mem_request_range h hrange] at hk
      rw [containsKey_iff] at hcell
      refine (mem_range_span hkey).trans ⟨fun hin => hin.2.not_ge, fun hx => ?_⟩
      exact ⟨max_le hcell.1 hk.1, not_le.mp hx⟩
  have hstop : requestStop req = req.header.key.next := if_neg hrange
  rw [hstop, max_lt_iff, lt_min_iff, lt_min_iff] at hlt
  rw [Bool.eq_false_iff.mpr hrange, Bool.not_false] at hisGet
  rw [piece, if_neg hrange] at hrem
  unfold Remainder at hrem
  rw [if_neg hrange] at hrem
  subst hrem
  simp only [hisGet, hsome, if_true, Option.isSome_some]
  have hkey : cell.key ≤ req.header.key := le_of_lt_next hlt.1.2
  cases dir with
  | ascending =>
    refine ⟨cut .ascending req.header.key, ?_, hkey, hlt.2.1.le, ?_⟩
    · rw [restSpan, if_neg hrange]
      exact (if_neg (lt_irrefl _)).symm
    intro k hk _
    rw [mem_request_point h hrange] at hk
    exact ⟨fun _ hx => (hk ▸ hx).false, fun _ => mem_point_span.mpr hk⟩
  | descending =>
    refine ⟨cut .descending req.header.key.next, ?_, next_le_of_lt hlt.2.1,
      hkey.trans (lt_next _).le, ?_⟩
    · rw [restSpan, if_neg hrange]
      exact (if_neg (lt_next _).not_ge).symm
    intro k hk _
    rw [mem_request_point h hrange] at hk
    exact ⟨fun _ hx => (lt_next _).not_ge (hk ▸ hx), fun _ => mem_point_span.mpr hk⟩

end KvCoord
end MeshDB
