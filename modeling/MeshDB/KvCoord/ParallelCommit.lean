import MeshDB.Kvpb.Api

/-!
# Parallel commits

The `DistSender` sends the `QueryIntent` requests just before an `EndTxn` as a batch of their own,
concurrently with the rest of the batch, and pieces the two replies together.
-/
namespace MeshDB.KvCoord

open List Option Roachpb Kvpb

structure ParallelCommitEnv where
  range : List Request → Except ErrorDetail RSpan
  runTask : Except ErrorDetail Unit
  send : BatchRequest → RSpan → Bool → ℕ → Except Error BatchResponse
  length_responses : ∀ ba rs isReverse batchIdx br, send ba rs isReverse batchIdx = .ok br →
    br.responses.length = ba.requests.length
  index_lt : ∀ ba rs isReverse batchIdx pErr i, send ba rs isReverse batchIdx = .error pErr →
    pErr.index = some i → i < ba.requests.length
  detectIntentMissing : Option Transaction → Except ErrorDetail Bool
  combineResponses : Response → Response → BatchRequest → Except ErrorDetail Response

/-- A reply some of whose slots may be empty. -/
structure SlottedReply where
  txn : Option Transaction
  responses : List (Option Response)
deriving DecidableEq

/-- The transaction of a header or of an error, updated with another one. -/
def updatedTxn (txn o : Option Transaction) : Option (Option Transaction) :=
  match txn, o with
  | txn, none => some txn
  | none, some o => some (some o)
  | some txn, some o => (txn.update o).map some

def maybeSwapErrorIndex (a b i : ℕ) : ℕ := if i = a then b else if i = b then a else i

def adjustError (pErr : Error) (o : Option Transaction) (a b : ℕ) : Option Error :=
  (updatedTxn pErr.txn o).map fun txn =>
    { pErr with txn, index := pErr.index.map (maybeSwapErrorIndex a b) }

def combineSlots (env : ParallelCommitEnv) (ba : BatchRequest) :
    List (Response × ℕ) → List (Option Response) → Except ErrorDetail (List (Option Response))
  | [], slots => .ok slots
  | (resp, pos) :: rest, slots =>
    match slots[pos]?.join with
    | none => combineSlots env ba rest (slots.set pos (some resp))
    | some left =>
      match env.combineResponses left resp ba with
      | .error err => .error err
      | .ok combined => combineSlots env ba rest (slots.set pos (some combined))

def searchSwapIdx (requests : List Request) : ℕ → Option ℕ → Option ℕ
  | 0, swapIdx => swapIdx
  | i + 1, swapIdx =>
    match requests[i]? with
    | some (.queryIntent _) => searchSwapIdx requests i (some i)
    | _ => swapIdx

def swapped {α : Type*} (l : List α) (i j : ℕ) : List α :=
  match l[i]?, l[j]? with
  | some a, some b => (l.set i b).set j a
  | _, _ => l

namespace ParallelCommit

def lastIdx (ba : BatchRequest) : ℕ := ba.requests.length - 1

def swapIdx (ba : BatchRequest) : Option ℕ := searchSwapIdx ba.requests (lastIdx ba) none

variable (env : ParallelCommitEnv) (ba : BatchRequest) (swapIdx : ℕ)

def endTxnBatch : BatchRequest :=
  { ba with requests := (swapped ba.requests swapIdx (lastIdx ba)).take (swapIdx + 1) }

def queryIntentBatch : BatchRequest :=
  { ba with requests := (swapped ba.requests swapIdx (lastIdx ba)).drop (swapIdx + 1) }

/-- The positions in the caller's batch of the requests of the `QueryIntent` batch. -/
def positions : List ℕ :=
  (List.range (lastIdx ba - swapIdx - 1)).map (swapIdx + 1 + ·) ++ [swapIdx]

def stitch (br qiReply : BatchResponse) : Option (Except Error SlottedReply) :=
  let resps := br.responses.map some ++
    List.replicate (ba.requests.length - br.responses.length) none
  (updatedTxn br.txn qiReply.txn).map fun txn =>
    match combineSlots env (endTxnBatch ba swapIdx) (qiReply.responses.zip (positions ba swapIdx))
        (swapped resps swapIdx (lastIdx ba)) with
    | .error err => .error { detail := err }
    | .ok responses => .ok ⟨txn, responses⟩

def ignoreMissing (br : BatchResponse) (qiPErr : Error) : Except ErrorDetail Bool :=
  match qiPErr.detail with
  | .intentMissing _ => env.detectIntentMissing br.txn
  | _ => .ok false

def finish :
    Except Error BatchResponse → Except Error BatchResponse → Option (Except Error SlottedReply)
  | .error pErr, qi =>
    (adjustError pErr (qi.toOption.bind BatchResponse.txn) swapIdx (lastIdx ba)).map .error
  | .ok br, .ok qiReply => stitch env ba swapIdx br qiReply
  | .ok br, .error qiPErr =>
    match ignoreMissing env br qiPErr with
    | .error err => some (.error { detail := err, txn := br.txn })
    | .ok false => (adjustError qiPErr br.txn swapIdx (lastIdx ba)).map .error
    | .ok true =>
      stitch env ba swapIdx br
        ⟨none, (queryIntentBatch ba swapIdx).requests.map fun _ => .queryIntent true⟩

def batchSpans : Except ErrorDetail (RSpan × RSpan) := do
  let qiRS ← env.range (queryIntentBatch ba swapIdx).requests
  env.runTask
  return (← env.range (endTxnBatch ba swapIdx).requests, qiRS)

end ParallelCommit

open ParallelCommit

/-- `divideAndSendParallelCommit`. There is no result if a transaction of another id is
merged. -/
def divideAndSendParallelCommit (env : ParallelCommitEnv) (ba : BatchRequest) (rs : RSpan)
    (isReverse : Bool) (batchIdx : ℕ) : Option (Except Error SlottedReply) :=
  match swapIdx ba with
  | none =>
    some ((env.send ba rs isReverse batchIdx).map fun br => ⟨br.txn, br.responses.map some⟩)
  | some swapIdx =>
    match batchSpans env ba swapIdx with
    | .error err => some (.error { detail := err })
    | .ok (rs, qiRS) =>
      finish env ba swapIdx (env.send (endTxnBatch ba swapIdx) rs isReverse batchIdx)
        (env.send (queryIntentBatch ba swapIdx) qiRS false (batchIdx + 1))

/-! ## Positions -/

variable {env : ParallelCommitEnv} {ba : BatchRequest}

lemma swapped_append {α : Type*} (l m : List α) (a b : α) :
    swapped (l ++ a :: (m ++ [b])) l.length (l.length + (m.length + 1)) = l ++ b :: (m ++ [a]) := by
  have hb : (l ++ a :: (m ++ [b]))[l.length + (m.length + 1)]? = some b := by
    rw [List.getElem?_append_right (by omega), Nat.add_sub_cancel_left]
    simp
  rw [swapped, hb, List.getElem?_append_right le_rfl, Nat.sub_self, List.getElem?_cons_zero]
  dsimp only
  rw [set_append_right _ _ le_rfl, Nat.sub_self, set_append_right _ _ (by omega),
    Nat.add_sub_cancel_left]
  simp

lemma searchSwapIdx_lt {requests : List Request} {n s : ℕ} {acc : Option ℕ}
    (h : searchSwapIdx requests n acc = some s) : acc = some s ∨ s < n := by
  induction n generalizing acc with
  | zero => exact .inl h
  | succ n ih =>
    unfold searchSwapIdx at h
    split at h
    · rcases ih h with hacc | hlt
      · exact .inr (by simp_all)
      · exact .inr (hlt.trans n.lt_succ_self)
    · exact .inl h

lemma combineSlots_replicate (ba : BatchRequest) (rest : List (Response × ℕ))
    (mid : List Response) (left right : List (Option Response)) :
    combineSlots env ba (mid.zip ((List.range mid.length).map (left.length + ·)) ++ rest)
        (left ++ (List.replicate mid.length none ++ right)) =
      combineSlots env ba rest (left ++ (mid.map some ++ right)) := by
  induction mid generalizing left with
  | nil => rfl
  | cons resp mid ih =>
    have hzip : (List.range (resp :: mid).length).map (left.length + ·) =
        left.length :: (List.range mid.length).map ((left ++ [some resp]).length + ·) := by
      simp [range_succ_eq_map, Function.comp_def, Nat.add_assoc, Nat.add_comm 1]
    rw [hzip]
    simpa [combineSlots, replicate_succ, set_append] using ih (left ++ [some resp])

lemma swapIdx_lt {s : ℕ} (h : swapIdx ba = some s) : s < lastIdx ba := by
  simpa using searchSwapIdx_lt h

lemma exists_split {s : ℕ} (h : swapIdx ba = some s) :
    ∃ pre mid qi et, ba.requests = pre ++ qi :: (mid ++ [et]) ∧ s = pre.length := by
  have hlt : s < ba.requests.length - 1 := swapIdx_lt h
  have hne : ba.requests.drop (s + 1) ≠ [] := by
    simp
    omega
  have hlen : (ba.requests.take s).length = s := by
    simp
    omega
  refine ⟨ba.requests.take s, (ba.requests.drop (s + 1)).dropLast, ba.requests[s],
    (ba.requests.drop (s + 1)).getLast hne, ?_, hlen.symm⟩
  rw [dropLast_append_getLast, getElem_cons_drop, take_append_drop]

section
variable {pre mid : List Request} {qi et : Request} (h : ba.requests = pre ++ qi :: (mid ++ [et]))
include h

lemma lastIdx_eq : lastIdx ba = pre.length + (mid.length + 1) := by
  simp [lastIdx, h]

lemma endTxnBatch_eq : (endTxnBatch ba pre.length).requests = pre ++ [et] := by
  rw [endTxnBatch, lastIdx_eq h, h, swapped_append]
  simp [take_append]

lemma queryIntentBatch_eq : (queryIntentBatch ba pre.length).requests = mid ++ [qi] := by
  rw [queryIntentBatch, lastIdx_eq h, h, swapped_append]
  simp [drop_append]

lemma stitch_eq {rpre rmid : List Response} {ret rqi : Response} (hpre : rpre.length = pre.length)
    (hmid : rmid.length = mid.length) {txn qiTxn : Option Transaction}
    {result : Except Error SlottedReply}
    (hst : stitch env ba pre.length ⟨txn, rpre ++ [ret]⟩ ⟨qiTxn, rmid ++ [rqi]⟩ = some result) :
    ∃ txn', result = .ok ⟨txn', (rpre ++ rqi :: (rmid ++ [ret])).map some⟩ := by
  obtain ⟨txn', -, rfl⟩ := map_eq_some_iff.mp hst
  have hslots : swapped ((rpre ++ [ret]).map some ++
      List.replicate (ba.requests.length - (rpre ++ [ret]).length) none) pre.length (lastIdx ba) =
      (rpre.map some ++ [none]) ++ (List.replicate rmid.length none ++ [some ret]) := by
    have hcount : ba.requests.length - (rpre ++ [ret]).length = rmid.length + 1 := by
      simp [h]
      omega
    rw [hcount, replicate_succ', lastIdx_eq h]
    simpa [hpre, hmid] using swapped_append (rpre.map some) (List.replicate rmid.length none)
      (some ret) none
  have hzip : (rmid ++ [rqi]).zip (positions ba pre.length) =
      rmid.zip ((List.range rmid.length).map ((rpre.map some ++ [none]).length + ·)) ++
        [(rqi, pre.length)] := by
    rw [positions, lastIdx_eq h, zip_append (by simp; omega)]
    simp [hpre, hmid]
  refine ⟨txn', ?_⟩
  rw [hslots, hzip, combineSlots_replicate]
  simp [combineSlots, ← hpre]

end

lemma exists_concat {α : Type*} {l : List α} {n : ℕ} (h : l.length = n + 1) :
    ∃ init last, l = init ++ [last] ∧ init.length = n := by
  obtain rfl | ⟨init, last, rfl⟩ := l.eq_nil_or_concat
  · cases h
  · exact ⟨init, last, by simp, by simpa using h⟩

lemma adjustError_index {pErr pErr' : Error} {o : Option Transaction} {a b i : ℕ}
    (h : adjustError pErr o a b = some pErr') (hi : pErr'.index = some i) :
    ∃ j, pErr.index = some j ∧ i = maybeSwapErrorIndex a b j := by
  obtain ⟨txn, -, rfl⟩ := map_eq_some_iff.mp h
  obtain ⟨j, hj, rfl⟩ := map_eq_some_iff.mp hi
  exact ⟨j, hj, rfl⟩

section
variable (env : ParallelCommitEnv) (ba : BatchRequest) (rs : RSpan) (isReverse : Bool)
  (batchIdx : ℕ)

/-- The responses to the `QueryIntent` batch: those sent back, or that every intent was found where
the batch failed and its error is ignored. -/
def QiResponses (s : ℕ) (qiRS : RSpan) (br : BatchResponse) (responses : List Response) : Prop :=
  match env.send (queryIntentBatch ba s) qiRS false (batchIdx + 1) with
  | .ok qiReply => responses = qiReply.responses
  | .error qiPErr => ignoreMissing env br qiPErr = .ok true ∧
      responses = (queryIntentBatch ba s).requests.map fun _ => .queryIntent true

/-- The responses to the two batches stand where their requests stand in the caller's batch. -/
def Stitched (s : ℕ) (reply : SlottedReply) : Prop :=
  ∃ pre mid qi et, s = pre.length ∧ ba.requests = pre ++ qi :: (mid ++ [et]) ∧
    (endTxnBatch ba s).requests = pre ++ [et] ∧ (queryIntentBatch ba s).requests = mid ++ [qi] ∧
    ∃ spans txn rpre rmid ret rqi, batchSpans env ba s = .ok spans ∧
      rpre.length = pre.length ∧ rmid.length = mid.length ∧
      env.send (endTxnBatch ba s) spans.1 isReverse batchIdx = .ok ⟨txn, rpre ++ [ret]⟩ ∧
      QiResponses env ba batchIdx s spans.2 ⟨txn, rpre ++ [ret]⟩ (rmid ++ [rqi]) ∧
      reply.responses = (rpre ++ rqi :: (rmid ++ [ret])).map some

/-- The position in the caller's batch of the request that the failing batch reported. -/
inductive Reported : ℕ → Prop where
  | whole {pErr i} (hs : swapIdx ba = none)
      (hsend : env.send ba rs isReverse batchIdx = .error pErr) (hi : pErr.index = some i) :
      Reported i
  | endTxn {s spans pErr j i} (hs : swapIdx ba = some s) (hspans : batchSpans env ba s = .ok spans)
      (hsend : env.send (endTxnBatch ba s) spans.1 isReverse batchIdx = .error pErr)
      (hj : pErr.index = some j) (hi : (List.range s ++ [lastIdx ba])[j]? = some i) : Reported i
  | queryIntent {s spans br pErr j i} (hs : swapIdx ba = some s)
      (hspans : batchSpans env ba s = .ok spans)
      (hsend : env.send (endTxnBatch ba s) spans.1 isReverse batchIdx = .ok br)
      (hqi : env.send (queryIntentBatch ba s) spans.2 false (batchIdx + 1) = .error pErr)
      (hj : pErr.index = some j) (hi : (positions ba s)[j]? = some i) : Reported i

structure Positioned (result : Except Error SlottedReply) : Prop where
  whole : ∀ reply, result = .ok reply → swapIdx ba = none →
    ∃ br, env.send ba rs isReverse batchIdx = .ok br ∧ reply.responses = br.responses.map some
  stitched : ∀ reply s, result = .ok reply → swapIdx ba = some s →
    Stitched env ba isReverse batchIdx s reply
  index : ∀ pErr i, result = .error pErr → pErr.index = some i →
    Reported env ba rs isReverse batchIdx i

def LosesIndex : Prop :=
  ∃ s spans br pErr, swapIdx ba = some s ∧ batchSpans env ba s = .ok spans ∧
    env.send (endTxnBatch ba s) spans.1 isReverse batchIdx = .ok br ∧
    env.send (queryIntentBatch ba s) spans.2 false (batchIdx + 1) = .error pErr ∧
    ignoreMissing env br pErr = .ok false ∧ pErr.index ≠ none

end

variable {pre mid : List Request} {qi et : Request} {isReverse : Bool} {batchIdx s : ℕ}
  {rs : RSpan} {result : Except Error SlottedReply}

lemma Positioned.of_error {pErr : Error}
    (h : ∀ i, pErr.index = some i → Reported env ba rs isReverse batchIdx i) :
    Positioned env ba rs isReverse batchIdx (.error pErr) := by
  refine ⟨fun _ hok => (by cases hok), fun _ _ hok => (by cases hok), fun pErr' i heq => ?_⟩
  cases heq
  exact h i

lemma Positioned.of_stitch (hs : swapIdx ba = some s) {br qiReply : BatchResponse}
    {spans : RSpan × RSpan} (hspans : batchSpans env ba s = .ok spans)
    (hmain : env.send (endTxnBatch ba s) spans.1 isReverse batchIdx = .ok br)
    (hqi : QiResponses env ba batchIdx s spans.2 br qiReply.responses)
    (hlen : qiReply.responses.length = (queryIntentBatch ba s).requests.length)
    (h : stitch env ba s br qiReply = some result) :
    Positioned env ba rs isReverse batchIdx result := by
  obtain ⟨pre, mid, qi, et, hsplit, rfl⟩ := exists_split hs
  have hbr := env.length_responses _ _ _ _ _ hmain
  rw [endTxnBatch_eq hsplit, length_append] at hbr
  rw [queryIntentBatch_eq hsplit, length_append] at hlen
  obtain ⟨txn, responses⟩ := br
  obtain ⟨qiTxn, qiResponses⟩ := qiReply
  obtain ⟨rpre, ret, rfl, hpre⟩ := exists_concat hbr
  obtain ⟨rmid, rqi, rfl, hmid⟩ := exists_concat hlen
  obtain ⟨txn', rfl⟩ := stitch_eq hsplit hpre hmid h
  refine ⟨fun _ _ hnone => ?_, fun reply s' heq hs' => ?_, fun _ _ heq => (by cases heq)⟩
  · cases hs.symm.trans hnone
  cases heq
  cases hs.symm.trans hs'
  exact ⟨pre, mid, qi, et, rfl, hsplit, endTxnBatch_eq hsplit, queryIntentBatch_eq hsplit,
    spans, txn, rpre, rmid, ret, rqi, hspans, hpre, hmid, hmain, hqi, rfl⟩

lemma positions_ne (hs : s < lastIdx ba) (j : ℕ) :
    (positions ba s)[j]? ≠ some (maybeSwapErrorIndex s (lastIdx ba) j) := by
  intro h
  unfold maybeSwapErrorIndex at h
  rcases lt_or_ge j (lastIdx ba - s - 1) with hj | hj
  · rw [positions, List.getElem?_append_left (by simpa using hj), List.getElem?_map,
      List.getElem?_range hj, map_some, some_inj] at h
    split_ifs at h <;> omega
  rw [positions, List.getElem?_append_right (by simpa using hj), List.getElem?_singleton,
    length_map, length_range, ite_none_right_eq_some, some_inj] at h
  split_ifs at h <;> omega

lemma endTxn_position {j : ℕ} (hj : j < s + 1) (hs : s < lastIdx ba) :
    (List.range s ++ [lastIdx ba])[j]? = some (maybeSwapErrorIndex s (lastIdx ba) j) := by
  unfold maybeSwapErrorIndex
  rcases Nat.lt_succ_iff_lt_or_eq.mp hj with hlt | rfl
  · rw [List.getElem?_append_left (by simpa using hlt), if_neg hlt.ne, if_neg (by omega)]
    simp [hlt]
  · simp

/-- The responses are at the positions of their requests, and the index of an error is right, if and
only if no error of the `QueryIntent` batch is returned with an index. -/
theorem divideAndSendParallelCommit_positions (env : ParallelCommitEnv) (ba : BatchRequest)
    (rs : RSpan) (isReverse : Bool) (batchIdx : ℕ) (result : Except Error SlottedReply)
    (h : divideAndSendParallelCommit env ba rs isReverse batchIdx = some result) :
    Positioned env ba rs isReverse batchIdx result ↔ ¬ LosesIndex env ba isReverse batchIdx := by
  constructor
  · rintro hpos ⟨s, spans, br, pErr, hs, hspans, hend, hqi, hignore, hne⟩
    obtain ⟨j, hj⟩ := ne_none_iff_exists'.mp hne
    simp only [divideAndSendParallelCommit, hs, hspans, hend, hqi, finish, hignore] at h
    obtain ⟨_, hadjust, rfl⟩ := map_eq_some_iff.mp h
    obtain ⟨txn, -, rfl⟩ := map_eq_some_iff.mp hadjust
    cases hpos.index _ _ rfl (map_eq_some_iff.mpr ⟨j, hj, rfl⟩) with
    | whole hs' => cases hs.symm.trans hs'
    | endTxn hs' hspans' hend' =>
      cases hs.symm.trans hs'
      cases hspans.symm.trans hspans'
      cases hend.symm.trans hend'
    | queryIntent hs' hspans' _ hqi' hj' hi =>
      cases hs.symm.trans hs'
      cases hspans.symm.trans hspans'
      cases hqi.symm.trans hqi'
      cases hj.symm.trans hj'
      exact positions_ne (swapIdx_lt hs) j hi
  intro hnot
  simp only [divideAndSendParallelCommit] at h
  split at h
  · next hs =>
      cases hsend : env.send ba rs isReverse batchIdx with
      | error pErr =>
        rw [hsend] at h
        cases h
        exact .of_error fun i hi => .whole hs hsend hi
      | ok br =>
        rw [hsend] at h
        cases h
        refine ⟨fun reply heq _ => ?_, fun _ s _ hs' => ?_, fun _ _ heq => (by cases heq)⟩
        · cases heq
          exact ⟨br, hsend, rfl⟩
        · cases hs.symm.trans hs'
  next s hs =>
    split at h
    · cases h
      exact .of_error (by simp)
    next rsE qiRS hspans =>
      cases hend : env.send (endTxnBatch ba s) rsE isReverse batchIdx with
      | error err =>
        rw [hend] at h
        obtain ⟨pErr, hadjust, rfl⟩ := map_eq_some_iff.mp h
        refine .of_error fun i hi => ?_
        obtain ⟨j, hj, rfl⟩ := adjustError_index hadjust hi
        refine .endTxn hs hspans hend hj (endTxn_position ?_ (swapIdx_lt hs))
        have hlt := env.index_lt _ _ _ _ _ _ hend hj
        obtain ⟨pre, mid, qi, et, hsplit, rfl⟩ := exists_split hs
        rwa [endTxnBatch_eq hsplit, length_append] at hlt
      | ok br =>
        cases hqi : env.send (queryIntentBatch ba s) qiRS false (batchIdx + 1) with
        | ok qiReply =>
          rw [hend, hqi] at h
          refine .of_stitch hs hspans hend ?_ (env.length_responses _ _ _ _ _ hqi) h
          rw [QiResponses, hqi]
        | error qiPErr =>
          rw [hend, hqi] at h
          simp only [finish] at h
          split at h
          · cases h
            exact .of_error (by simp)
          · next hignore =>
              obtain ⟨pErr, hadjust, rfl⟩ := map_eq_some_iff.mp h
              refine .of_error fun i hi => ?_
              obtain ⟨j, hj, -⟩ := adjustError_index hadjust hi
              exact absurd ⟨s, (rsE, qiRS), br, qiPErr, hs, hspans, hend, hqi, hignore,
                by simp [hj]⟩ hnot
          · next hignore =>
              refine .of_stitch hs hspans hend ?_ (by simp) h
              rw [QiResponses, hqi]
              exact ⟨hignore, rfl⟩

def scriptedSends (fails : Bool) : ParallelCommitEnv where
  range := fun _ => .ok ⟨[], []⟩
  runTask := .ok ()
  send := fun ba _ _ _ =>
    if fails && decide (ba.requests.length = 1) && ba.requests.all Request.isQueryIntent then
      .error { detail := .writeIntent, index := some 0 }
    else .ok ⟨none, ba.requests.map fun
      | .endTxn _ => .endTxn ⟨7, 0, false⟩
      | _ => .queryIntent true⟩
  length_responses := by
    intro ba rs isReverse batchIdx br h
    split_ifs at h
    cases h
    simp
  index_lt := by
    intro ba rs isReverse batchIdx pErr i h hi
    split_ifs at h with hone
    cases h
    cases hi
    simp only [Bool.and_eq_true, decide_eq_true_eq] at hone
    omega
  detectIntentMissing := fun _ => .ok false
  combineResponses := fun left _ _ => .ok left

def verifiedCommit : BatchRequest where
  txn := { id := 1 }
  requests := [.queryIntent ⟨[1], { id := 1 }, true⟩, .endTxn { commit := true }]

theorem divideAndSendParallelCommit_positions_verified :
    Positioned (scriptedSends false) verifiedCommit ⟨[], []⟩ false 0
      (.ok ⟨none, [some (.queryIntent true), some (.endTxn ⟨7, 0, false⟩)]⟩) := by
  refine (divideAndSendParallelCommit_positions _ _ _ _ _ _ rfl).mpr ?_
  rintro ⟨s, spans, br, pErr, -, -, -, hqi, -⟩
  cases hqi

/-- The `QueryIntent` batch reports request `0`, but the index of the `EndTxn` is returned. -/
theorem divideAndSendParallelCommit_wrong_index :
    swapIdx verifiedCommit = some 0 ∧
      (queryIntentBatch verifiedCommit 0).requests = [verifiedCommit.requests[0]] ∧
      (scriptedSends true).send (queryIntentBatch verifiedCommit 0) ⟨[], []⟩ false 1 =
        .error { detail := .writeIntent, index := some 0 } ∧
      divideAndSendParallelCommit (scriptedSends true) verifiedCommit ⟨[], []⟩ false 0 =
        some (.error { detail := .writeIntent, index := some 1 }) :=
  ⟨rfl, rfl, rfl, rfl⟩

end MeshDB.KvCoord
