import MeshDB.KvCoord.ResumeSpans

/-!
# Combining the responses of the ranges

Only the last range that a limited batch was sent to returns resume spans, and the combined
responses have these.
-/
namespace MeshDB.KvCoord

open Roachpb Kvpb Sweep BatchTruncationHelper List
variable {dir : ScanDirection} {req : Request} {reqs : List Request}

/-! ## Combining the replies -/

def Complete (reply : List ReadResponse) : Prop :=
  ∀ resp ∈ reply, resp.header.resumeSpan = none

variable {respond : Limits → Visit → List ReadResponse} {st st' : SendState} {v : Visit}
  {lastRange : Bool} {l : Limits} {e : Visit × List ReadResponse} {seen : List RSpan}
  {br : List (Option ReadResponse)}

lemma mightStopEarly_iff : l.mightStopEarly ↔
    0 < l.maxSpanRequestKeys ∨ 0 < l.targetBytes ∨ l.returnOnRangeBoundary ∨
      l.returnElasticCPUResumeSpans := by
  simp [Limits.mightStopEarly, or_assoc]

lemma consume_mightStopEarly (h : l.mightStopEarly) {keys bytes : ℤ}
    (hgo : (l.consume keys bytes lastRange).2 = none) :
    (l.consume keys bytes lastRange).1.mightStopEarly := by
  rw [mightStopEarly_iff] at h ⊢
  unfold Limits.consume at hgo ⊢
  by_cases hkeys : 0 < l.maxSpanRequestKeys ∧
      (if 0 < l.maxSpanRequestKeys then l.maxSpanRequestKeys - keys
        else l.maxSpanRequestKeys) ≤ 0
  · rw [if_pos hkeys] at hgo
    cases hgo
  by_cases hbytes : 0 < l.targetBytes ∧
      (if 0 < l.targetBytes then l.targetBytes - bytes else l.targetBytes) ≤ 0
  · rw [if_neg hkeys, if_pos hbytes] at hgo
    cases hgo
  have hfst : ∀ (c : Prop) [Decidable c] (l : Limits) (r : ResumeReason),
      (if c then (l, some r) else (l, none)).1 = l := by
    intro c _ l r
    split_ifs <;> rfl
  rw [if_neg hkeys, if_neg hbytes, hfst]
  dsimp only
  rcases h with h | h | h
  · left
    rw [if_pos h] at hkeys ⊢
    omega
  · right
    left
    rw [if_pos h] at hbytes ⊢
    omega
  · exact .inr (.inr h)

lemma sendToRange_spec (h : st.limits.mightStopEarly)
    (hskip : st.couldHaveSkippedResponses = false) (v : Visit) (lastRange : Bool) :
    let r := sendToRange respond st v lastRange
    r.1.replies = st.replies ++ [(v, respond st.limits v)] ∧ r.1.couldHaveSkippedResponses = r.2 ∧
      (r.2 = false → r.1.limits.mightStopEarly ∧ Complete (respond st.limits v)) := by
  unfold sendToRange
  dsimp only
  rw [h, Bool.not_true, if_neg Bool.false_ne_true]
  cases hfind : (respond st.limits v).find? fun resp => resp.header.resumeSpan.isSome with
  | some resp => exact ⟨rfl, rfl, nofun⟩
  | none =>
    have hcomplete : Complete (respond st.limits v) := by
      intro resp hresp
      simpa using find?_eq_none.mp hfind resp hresp
    dsimp only
    split
    · exact ⟨rfl, rfl, nofun⟩
    rename_i hgo
    exact ⟨rfl, hskip, fun _ => ⟨consume_mightStopEarly h hgo, hcomplete⟩⟩

lemma sends_replies {visits : List Visit} {stopped : Bool}
    (h : Sends (sendToRange respond) st visits st' stopped)
    (hlimits : st.limits.mightStopEarly) (hskip : st.couldHaveSkippedResponses = false) :
    st'.couldHaveSkippedResponses = stopped ∧
      ∃ init e, st'.replies = st.replies ++ (init ++ [e]) ∧ (init ++ [e]).map Prod.fst = visits ∧
        (∀ e' ∈ init ++ [e], ∃ l, e'.2 = respond l e'.1) ∧ (∀ e' ∈ init, Complete e'.2) ∧
        (stopped = false → Complete e.2) := by
  induction h with
  | last st v lastRange =>
    obtain ⟨hreplies, hcould, hgo⟩ :=
      @sendToRange_spec respond st hlimits hskip v lastRange
    exact ⟨hcould, [], (v, respond st.limits v), hreplies, rfl, forall_mem_singleton.mpr ⟨_, rfl⟩,
      nofun, fun h => (hgo h).2⟩
  | @next st st' v vs lastRange stopped hgo h ih =>
    obtain ⟨hreplies, hcould, hcont⟩ :=
      @sendToRange_spec respond st hlimits hskip v lastRange
    obtain ⟨hlimits', hcomplete⟩ := hcont hgo
    obtain ⟨hstop, init, e, hlog, hvisits, hrespond, hinit, hlast⟩ :=
      ih hlimits' (hcould.trans hgo)
    refine ⟨hstop, (v, respond st.limits v) :: init, e, ?_, ?_, ?_, ?_, hlast⟩
    · rw [hlog, hreplies, append_assoc]
      rfl
    · rw [cons_append, map_cons, hvisits]
    · exact forall_mem_cons.mpr ⟨⟨_, rfl⟩, hrespond⟩
    · exact forall_mem_cons.mpr ⟨hcomplete, hinit⟩

/-! ## Combining -/

def slotResume (br : List (Option ReadResponse)) (i : ℕ) : Option Span :=
  (br[i]?.join).bind fun resp => resp.header.resumeSpan

lemma combineResponses_spec {left right : ReadResponse} (hrange : req.isRange)
    (hleft : left.header.resumeSpan = none) : ∃ resp, combineResponses req left right = some resp ∧
      resp.header.resumeSpan = right.header.resumeSpan := by
  unfold combineResponses ResponseHeader.combine
  rw [if_pos hrange, hleft]
  exact ⟨_, rfl, rfl⟩

lemma combineReply_spec (ps : List (ℕ × ReadResponse)) (br : List (Option ReadResponse))
    (hnodup : (ps.map Prod.fst).Nodup)
    (hps : ∀ p ∈ ps, ∃ req slot, reqs[p.1]? = some req ∧ br[p.1]? = some slot ∧
      slotResume br p.1 = none ∧ (req.isRange ∨ slot = none)) :
    ∃ br', combineReply reqs (ps.map Prod.snd) (ps.map Prod.fst) br = .ok br' ∧
      br'.length = br.length ∧
      (∀ p ∈ ps, ∃ resp, br'[p.1]? = some (some resp) ∧
        resp.header.resumeSpan = p.2.header.resumeSpan) ∧
      ∀ i, (∀ p ∈ ps, p.1 ≠ i) → br'[i]? = br[i]? := by
  induction ps generalizing br with
  | nil => exact ⟨br, rfl, rfl, nofun, fun _ _ => rfl⟩
  | cons p ps ih =>
    obtain ⟨pos, resp⟩ := p
    obtain ⟨hpos, hnodup⟩ := nodup_cons.mp hnodup
    have hne : ∀ p ∈ ps, p.1 ≠ pos := fun p hp heq => hpos (mem_map.mpr ⟨p, hp, heq⟩)
    obtain ⟨req, slot, hreq, hslot, hnone, hcase⟩ := hps (pos, resp) (.head _)
    have hstep : ∃ resp', resp'.header.resumeSpan = resp.header.resumeSpan ∧
        combineReply reqs (resp :: ps.map Prod.snd) (pos :: ps.map Prod.fst) br =
          combineReply reqs (ps.map Prod.snd) (ps.map Prod.fst) (br.set pos (some resp')) := by
      cases slot with
      | none => exact ⟨resp, rfl, by rw [combineReply, hslot, hreq]⟩
      | some left =>
        have hrange : req.isRange := by
          rcases hcase with hrange | hnone
          · exact hrange
          · cases hnone
        have hleft : left.header.resumeSpan = none := by
          rw [slotResume, hslot] at hnone
          exact hnone
        obtain ⟨resp', hcombine, hresume⟩ := @combineResponses_spec _ _ resp hrange hleft
        refine ⟨resp', hresume, ?_⟩
        rw [combineReply, hslot, hreq]
        dsimp only
        rw [hcombine]
    obtain ⟨resp', hresume, hstep⟩ := hstep
    have hother : ∀ i, i ≠ pos → (br.set pos (some resp'))[i]? = br[i]? :=
      fun i hi => List.getElem?_set_ne hi.symm
    have hps' : ∀ p ∈ ps, ∃ req slot, reqs[p.1]? = some req ∧
        (br.set pos (some resp'))[p.1]? = some slot ∧
        slotResume (br.set pos (some resp')) p.1 = none ∧ (req.isRange ∨ slot = none) := by
      intro p hp
      rw [slotResume, hother p.1 (hne p hp)]
      exact hps p (.tail _ hp)
    obtain ⟨br', hbr', hlength, hin, hout⟩ := ih (br.set pos (some resp')) hnodup hps'
    refine ⟨br', hstep.trans hbr', hlength.trans length_set, ?_, ?_⟩
    · have hlt : pos < br.length := (List.getElem?_eq_some_iff.mp hslot).1
      exact forall_mem_cons.mpr
        ⟨⟨resp', (hout pos hne).trans (List.getElem?_set_self hlt), hresume⟩, hin⟩
    · intro i hi
      rw [hout i fun p hp => hi p (.tail _ hp), hother i (hi (pos, resp) (.head _)).symm]

def resumeAt (i : ℕ) (e : Visit × List ReadResponse) : Option Span :=
  ((e.1.requests.zip e.2).find? fun p => p.1.2 == i).bind fun p => p.2.header.resumeSpan

lemma resumeAt_of_complete (h : Complete e.2) (i : ℕ) : resumeAt i e = none := by
  unfold resumeAt
  cases hfind : (e.1.requests.zip e.2).find? fun p => p.1.2 == i with
  | none => rfl
  | some p => exact h p.2 (of_mem_zip (mem_of_find?_eq_some hfind)).2

/-- There is a response for each request with a part in one of the ranges. -/
structure Slots (reqs : List Request) (seen : List RSpan) (resume : ℕ → Option Span)
    (br : List (Option ReadResponse)) : Prop where
  length : br.length = reqs.length
  filled : ∀ (i : ℕ) req, reqs[i]? = some req →
    ((br[i]?.join).isSome ↔ ∃ cell ∈ seen, (clipRequest cell req).isSome)
  resume : ∀ i, slotResume br i = resume i

structure Replied (dir : ScanDirection) (reqs : List Request) (e : Visit × List ReadResponse) :
    Prop where
  truncated : Truncated reqs false e.1
  responds : List.Forall₂ (fun p resp => Responds dir p.1 resp) e.1.requests e.2

lemma nodup_spanPieces (cell : RSpan) (reqs : List Request) :
    ((spanPieces cell reqs).map Prod.snd).Nodup := by
  have hsub : ((spanPieces cell reqs).map Prod.snd).Sublist (reqs.zipIdx.map Prod.snd) := by
    unfold spanPieces
    generalize reqs.zipIdx = l
    induction l with
    | nil => exact .refl _
    | cons r l ih =>
      rw [filterMap_cons]
      cases clipRequest cell r.1 with
      | none => exact ih.cons _
      | some pc => exact ih.cons_cons _
  refine hsub.nodup ?_
  rw [zipIdx_map_snd]
  exact nodup_range'

lemma Replied.map_fst_zip_eq (he : Replied dir reqs e) :
    (e.1.requests.zip e.2).map Prod.fst = e.1.requests :=
  map_fst_zip he.responds.length_eq.le

lemma Replied.piece (he : Replied dir reqs e) {p : (Request × ℕ) × ReadResponse}
    (hp : p ∈ e.1.requests.zip e.2) :
    ∃ req, reqs[p.1.2]? = some req ∧ clipRequest e.1.desc req = some p.1.1 :=
  mem_spanPieces.mp (he.truncated.desc.mem_iff.mp (of_mem_zip hp).1)

/-- A request on one key is answered by one range. -/
lemma Slots.isRange_or_none {i : ℕ} {desc : RSpan} {resume : ℕ → Option Span}
    (hslots : Slots reqs seen resume br)
    (hreqOk : RequestOk req) (hapart : ∀ cell ∈ seen, Apart cell desc) (hreq : reqs[i]? = some req)
    (hclip : (clipRequest desc req).isSome) (hlt : i < br.length) :
    req.isRange ∨ br[i] = none := by
  by_cases hrange : req.isRange
  · exact .inl hrange
  right
  cases hslot : br[i] with
  | none => rfl
  | some left =>
    have hsome : (br[i]?.join).isSome := by
      rw [List.getElem?_eq_getElem hlt, hslot]
      rfl
    obtain ⟨cell, hcell, hin⟩ := (hslots.filled _ req hreq).mp hsome
    obtain ⟨k, hk, hk'⟩ := (clipRequest_isSome_iff hreqOk).mp hin
    obtain ⟨l, hl, hl'⟩ := (clipRequest_isSome_iff hreqOk).mp hclip
    rw [mem_request_point hreqOk hrange] at hk hl
    exact absurd (hl ▸ hl') (hapart cell hcell _ (hk ▸ hk'))

/-- The slots of the answered requests are filled and the others are kept. -/
lemma Slots.append {br' : List (Option ReadResponse)} (hslots : Slots reqs seen (fun _ => none) br)
    (he : Replied dir reqs e) (hlen : br'.length = br.length)
    (hin : ∀ p ∈ e.1.requests.zip e.2, ∃ resp, br'[p.1.2]? = some (some resp) ∧
      resp.header.resumeSpan = p.2.header.resumeSpan)
    (hout : ∀ i, (∀ p ∈ e.1.requests.zip e.2, p.1.2 ≠ i) → br'[i]? = br[i]?) :
    Slots reqs (seen ++ [e.1.desc]) (fun i => resumeAt i e) br' := by
  refine ⟨hlen.trans hslots.length, ?_, ?_⟩
  · intro i req hreq
    by_cases hfound : ∃ p ∈ e.1.requests.zip e.2, p.1.2 = i
    · obtain ⟨p, hp, rfl⟩ := hfound
      obtain ⟨resp, hresp, -⟩ := hin p hp
      obtain ⟨req', hreq', hclip⟩ := he.piece hp
      obtain rfl := Option.some.inj (hreq'.symm.trans hreq)
      rw [hresp]
      refine iff_of_true rfl ⟨e.1.desc, mem_append_right _ (mem_singleton_self _), ?_⟩
      rw [hclip]
      rfl
    push Not at hfound
    rw [hout i hfound, hslots.filled i req hreq]
    constructor
    · rintro ⟨cell, hcell, hsome⟩
      exact ⟨cell, mem_append_left _ hcell, hsome⟩
    rintro ⟨cell, hcell, hsome⟩
    rcases mem_append.mp hcell with hcell | hcell
    · exact ⟨cell, hcell, hsome⟩
    obtain rfl := mem_singleton.mp hcell
    obtain ⟨pc, hpc⟩ := Option.isSome_iff_exists.mp hsome
    have hmem : (pc, i) ∈ e.1.requests :=
      he.truncated.desc.mem_iff.mpr (mem_spanPieces.mpr ⟨req, hreq, hpc⟩)
    rw [← he.map_fst_zip_eq] at hmem
    obtain ⟨p, hp, heq⟩ := mem_map.mp hmem
    exact absurd (congrArg Prod.snd heq) (hfound p hp)
  intro i
  unfold resumeAt
  cases hfind : (e.1.requests.zip e.2).find? fun p => p.1.2 == i with
  | none =>
    have hnone : ∀ p ∈ e.1.requests.zip e.2, p.1.2 ≠ i :=
      fun p hp => by simpa using find?_eq_none.mp hfind p hp
    rw [slotResume, hout i hnone]
    exact hslots.resume i
  | some p =>
    obtain rfl : p.1.2 = i := by simpa using find?_some hfind
    obtain ⟨resp, hresp, hresume⟩ := hin p (mem_of_find?_eq_some hfind)
    rw [slotResume, hresp]
    exact hresume

lemma combineReply_slots (hok : ∀ req ∈ reqs, RequestOk req)
    (hslots : Slots reqs seen (fun _ => none) br) (he : Replied dir reqs e)
    (hapart : ∀ cell ∈ seen, Apart cell e.1.desc) :
    ∃ br', combineReply reqs e.2 (e.1.requests.map Prod.snd) br = .ok br' ∧
      Slots reqs (seen ++ [e.1.desc]) (fun i => resumeAt i e) br' := by
  obtain ⟨ps, hps⟩ : ∃ ps : List (ℕ × ReadResponse),
      ps = (e.1.requests.zip e.2).map fun p => (p.1.2, p.2) := ⟨_, rfl⟩
  have hsnd : ps.map Prod.snd = e.2 := by
    rw [hps, map_map]
    exact map_snd_zip he.responds.length_eq.ge
  have hfst : ps.map Prod.fst = e.1.requests.map Prod.snd := by
    rw [hps, map_map, ← he.map_fst_zip_eq, map_map, he.map_fst_zip_eq]
    rfl
  have hnodup : (ps.map Prod.fst).Nodup := by
    rw [hfst]
    exact (he.truncated.desc.map Prod.snd).nodup_iff.mpr (nodup_spanPieces _ _)
  have hcond : ∀ p ∈ ps, ∃ req slot, reqs[p.1]? = some req ∧ br[p.1]? = some slot ∧
      slotResume br p.1 = none ∧ (req.isRange ∨ slot = none) := by
    intro p hp
    rw [hps] at hp
    obtain ⟨q, hq, rfl⟩ := mem_map.mp hp
    obtain ⟨req, hreq, hclip⟩ := he.piece hq
    have hlt : q.1.2 < br.length :=
      hslots.length ▸ (List.getElem?_eq_some_iff.mp hreq).1
    exact ⟨req, br[q.1.2], hreq, List.getElem?_eq_getElem hlt, hslots.resume _,
      hslots.isRange_or_none (hok req (mem_of_getElem? hreq)) hapart hreq (by rw [hclip]; rfl) hlt⟩
  obtain ⟨br', hbr', hlen, hin, hout⟩ := combineReply_spec ps br hnodup hcond
  rw [hsnd, hfst] at hbr'
  refine ⟨br', hbr', hslots.append he hlen ?_ fun i hi => hout i fun p hp => ?_⟩
  · exact fun p hp => hin (p.1.2, p.2) (hps ▸ mem_map.mpr ⟨p, hp, rfl⟩)
  rw [hps] at hp
  obtain ⟨q, hq, rfl⟩ := mem_map.mp hp
  exact hi q hq

lemma combineReplies_slots (hok : ∀ req ∈ reqs, RequestOk req)
    (init : List (Visit × List ReadResponse)) (hslots : Slots reqs seen (fun _ => none) br)
    (he : ∀ e' ∈ init ++ [e], Replied dir reqs e') (hinit : ∀ e' ∈ init, Complete e'.2)
    (hapart : (seen ++ (init ++ [e]).map fun e' => e'.1.desc).Pairwise Apart) :
    ∃ br', combineReplies reqs (init ++ [e]) br = .ok br' ∧
      Slots reqs (seen ++ (init ++ [e]).map fun e' => e'.1.desc) (fun i => resumeAt i e) br' := by
  induction init generalizing seen br with
  | nil =>
    obtain ⟨br', hbr', hslots'⟩ := combineReply_slots hok hslots (he e (.head _))
      fun cell hcell => (pairwise_append.mp hapart).2.2 cell hcell _ (.head _)
    refine ⟨br', ?_, hslots'⟩
    rw [nil_append, combineReplies, hbr']
    rfl
  | cons e0 init ih =>
    obtain ⟨br', hbr', hslots'⟩ := combineReply_slots hok hslots (he e0 (.head _))
      fun cell hcell => (pairwise_append.mp hapart).2.2 cell hcell _ (.head _)
    have hnone : (fun i => resumeAt i e0) = fun _ => none :=
      funext fun i => resumeAt_of_complete (hinit e0 (.head _)) i
    rw [hnone] at hslots'
    have hseen : seen ++ ((e0 :: init) ++ [e]).map (fun e' => e'.1.desc) =
        seen ++ [e0.1.desc] ++ (init ++ [e]).map fun e' => e'.1.desc := by
      rw [append_assoc]
      rfl
    rw [hseen] at hapart ⊢
    obtain ⟨br'', hbr'', hslots''⟩ := ih hslots' (fun e' he' => he e' (.tail _ he'))
      (fun e' he' => hinit e' (.tail _ he')) hapart
    refine ⟨br'', ?_, hslots''⟩
    rw [cons_append, combineReplies, hbr']
    exact hbr''

end MeshDB.KvCoord
