import MeshDB.KvCoord.LockTracking
import Mathlib.Data.Finset.Card

/-!
# Chaining onto the writes in flight

`chainToInFlightWrites` puts a query before the first request that depends on a write in
flight. The loop keeps an invariant on the requests it has put out so far, and the
responses and errors of the batch are mapped back through the queries.
-/
namespace MeshDB.KvCoord.Pipeliner

open Roachpb Kvpb List InFlightWriteSet
variable {α : Type*} {req : Request} {w : SequencedWrite} {cs : ChainState} {j : ℕ} {st : State}
  {sent : BatchRequest} {as : List α}

lemma split_append_singleton {pre post : List α} {a b : α} (h : as ++ [a] = pre ++ b :: post) :
    (as = pre ∧ a = b) ∨ ∃ post', as = pre ++ b :: post' := by
  rcases eq_nil_or_concat' post with rfl | ⟨post', last, rfl⟩
  · obtain ⟨has, hab⟩ := append_inj' h rfl
    exact .inl ⟨has, singleton_inj.mp hab⟩
  rw [← cons_append, ← append_assoc] at h
  exact .inr ⟨post', (append_inj' h rfl).1⟩

def queriedKey : Request → Option Key
  | .queryIntent qi => some qi.key
  | _ => none

def queriedKeys (reqs : List Request) : List Key := reqs.filterMap queriedKey

def withoutQueries (reqs : List Request) : List Request := reqs.filter fun req => !req.isQueryIntent

@[simp] lemma queriedKeys_append (as bs : List Request) :
    queriedKeys (as ++ bs) = queriedKeys as ++ queriedKeys bs := filterMap_append

@[simp] lemma withoutQueries_append (as bs : List Request) :
    withoutQueries (as ++ bs) = withoutQueries as ++ withoutQueries bs := filter_append _ _

lemma queriedKeys_of_not_query (h : req.isQueryIntent = false) : queriedKeys [req] = [] := by
  cases req with
  | op method header => rfl
  | endTxn et => rfl
  | queryIntent qi => cases h

/-! ## The loop -/

def ChainState.out (cs : ChainState) (before : List Request) : List Request :=
  cs.forked.getD before

/-- The requests put out are those before with queries, one to a key, for the chained keys. -/
structure Chained (txn : Transaction) (s : InFlightWriteSet) (before out : List Request)
    (chainedKeys : List Key) : Prop where
  others : withoutQueries out = before
  keys : queriedKeys out = chainedKeys
  nodup : chainedKeys.Nodup
  queries : ∀ req ∈ out, req.isQueryIntent → ∃ w ∈ s.t, req = queryIntentFor txn w
  /-- A request stands behind the queries for the writes it depends on. -/
  preceded : ∀ pre req post, out = pre ++ req :: post → req.isQueryIntent = false →
    ∀ w ∈ writesToChain s req, w.key ∈ queriedKeys pre

variable {txn : Transaction} {s : InFlightWriteSet} {before out : List Request}
  {chainedKeys : List Key}

section
variable (h : Chained txn s before out chainedKeys)
include h

lemma Chained.key_mem {k : Key} (hk : k ∈ chainedKeys) : ∃ w ∈ s.t, w.key = k := by
  rw [← h.keys] at hk
  obtain ⟨req, hreq, hkey⟩ := mem_filterMap.mp hk
  cases req with
  | op method header => cases hkey
  | endTxn et => cases hkey
  | queryIntent qi =>
    obtain ⟨w, hw, heq⟩ := h.queries _ hreq rfl
    rw [heq] at hkey
    exact ⟨w, hw, Option.some.inj hkey⟩

lemma Chained.key_mem_of_length (hlen : ¬ chainedKeys.length < s.len) (hw : w ∈ s.t) :
    w.key ∈ chainedKeys := by
  have hsub : chainedKeys.toFinset ⊆ (s.t.map SequencedWrite.key).toFinset := by
    intro k hk
    obtain ⟨w', hw', rfl⟩ := h.key_mem (mem_toFinset.mp hk)
    exact mem_toFinset.mpr (mem_map_of_mem hw')
  have hcard : (s.t.map SequencedWrite.key).toFinset.card ≤ chainedKeys.toFinset.card := by
    calc (s.t.map SequencedWrite.key).toFinset.card
        ≤ (s.t.map SequencedWrite.key).length := toFinset_card_le _
      _ = s.len := length_map _
      _ ≤ chainedKeys.length := not_lt.mp hlen
      _ = chainedKeys.toFinset.card := (toFinset_card_of_nodup h.nodup).symm
  have heq := Finset.eq_of_subset_of_card_le hsub hcard
  rw [← mem_toFinset, heq]
  exact mem_toFinset.mpr (mem_map_of_mem hw)

lemma Chained.query (hw : w ∈ s.t) (hk : w.key ∉ chainedKeys) :
    Chained txn s before (out ++ [queryIntentFor txn w]) (chainedKeys ++ [w.key]) where
  others := by
    rw [withoutQueries_append, h.others]
    exact before.append_nil
  keys := by
    rw [queriedKeys_append, h.keys]
    rfl
  nodup := by
    rw [nodup_append]
    refine ⟨h.nodup, nodup_singleton _, ?_⟩
    intro k hmem k' hmem' heq
    rw [mem_singleton.mp hmem'] at heq
    exact hk (heq ▸ hmem)
  queries := by
    intro req hreq hq
    rcases mem_append.mp hreq with hreq | hreq
    · exact h.queries req hreq hq
    · exact ⟨w, hw, mem_singleton.mp hreq⟩
  preceded := by
    intro pre req post heq hq w' hw'
    rcases split_append_singleton heq with ⟨-, rfl⟩ | ⟨post', hout⟩
    · cases hq
    · exact h.preceded pre req post' hout hq w' hw'

lemma Chained.request
    (hq : req.isQueryIntent = false) (hreq : ∀ w ∈ writesToChain s req, w.key ∈ chainedKeys) :
    Chained txn s (before ++ [req]) (out ++ [req]) chainedKeys where
  others := by rw [withoutQueries_append, h.others]; simp [withoutQueries, hq]
  keys := by rw [queriedKeys_append, h.keys, queriedKeys_of_not_query hq, append_nil]
  nodup := h.nodup
  queries := by
    intro req' hreq' hq'
    rcases mem_append.mp hreq' with hreq' | hreq'
    · exact h.queries req' hreq' hq'
    rw [mem_singleton.mp hreq', hq] at hq'
    cases hq'
  preceded := by
    intro pre req' post heq hq' w hw
    rcases split_append_singleton heq with ⟨rfl, rfl⟩ | ⟨post', hout⟩
    · rw [h.keys]
      exact hreq w hw
    · exact h.preceded pre req' post' hout hq' w hw

end

lemma mem_of_mem_writesToChain (h : w ∈ writesToChain s req) : w ∈ s.t := by
  unfold writesToChain at h
  split_ifs at h
  · exact h
  split at h
  · split_ifs at h
    · exact h
    · cases h
  · exact (mem_ascendRange.mp h).1

lemma chainWrite_chained
    (h : Chained txn s before (cs.out before) cs.chainedKeys) (hw : w ∈ s.t) :
    Chained txn s before ((chainWrite txn before cs w).out before)
        (chainWrite txn before cs w).chainedKeys ∧
      w.key ∈ (chainWrite txn before cs w).chainedKeys ∧
      ∀ k ∈ cs.chainedKeys, k ∈ (chainWrite txn before cs w).chainedKeys := by
  unfold chainWrite
  split_ifs with hk
  · exact ⟨h, hk, fun k hk => hk⟩
  refine ⟨h.query hw hk, mem_append_right _ mem_cons_self, ?_⟩
  exact fun k hk => mem_append_left _ hk

lemma chainWrites_chained {ws : List SequencedWrite}
    (h : Chained txn s before (cs.out before) cs.chainedKeys) (hws : ∀ w ∈ ws, w ∈ s.t) :
    Chained txn s before ((ws.foldl (chainWrite txn before) cs).out before)
        (ws.foldl (chainWrite txn before) cs).chainedKeys ∧
      (∀ w ∈ ws, w.key ∈ (ws.foldl (chainWrite txn before) cs).chainedKeys) ∧
      ∀ k ∈ cs.chainedKeys, k ∈ (ws.foldl (chainWrite txn before) cs).chainedKeys := by
  induction ws generalizing cs with
  | nil => exact ⟨h, fun w hw => absurd hw not_mem_nil, fun k hk => hk⟩
  | cons w ws ih =>
    obtain ⟨hstep, hkey, hkeep⟩ := chainWrite_chained h (hws w (.head _))
    obtain ⟨hrun, hkeys, hkeeps⟩ := ih hstep fun w' hw' => hws w' (.tail _ hw')
    refine ⟨hrun, ?_, fun k hk => hkeeps k (hkeep k hk)⟩
    intro w' hw'
    rcases mem_cons.mp hw' with rfl | hw'
    · exact hkeeps _ hkey
    · exact hkeys w' hw'

def chainQueries (txn : Transaction) (s : InFlightWriteSet) (before : List Request)
    (cs : ChainState) (req : Request) : ChainState :=
  if cs.chainedKeys.length < s.len then
    (writesToChain s req).foldl (chainWrite txn before) cs
  else cs

lemma chainQueries_chained (req : Request)
    (h : Chained txn s before (cs.out before) cs.chainedKeys) :
    Chained txn s before ((chainQueries txn s before cs req).out before)
        (chainQueries txn s before cs req).chainedKeys ∧
      ∀ w ∈ writesToChain s req, w.key ∈ (chainQueries txn s before cs req).chainedKeys := by
  unfold chainQueries
  split_ifs with hlen
  · obtain ⟨hrun, hkeys, -⟩ := chainWrites_chained h fun w hw => mem_of_mem_writesToChain hw
    exact ⟨hrun, hkeys⟩
  exact ⟨h, fun w hw => h.key_mem_of_length hlen (mem_of_mem_writesToChain hw)⟩

lemma chainRound_out (cs : ChainState) (req : Request) :
    (chainRound txn s before cs req).out (before ++ [req]) =
      (chainQueries txn s before cs req).out before ++ [req] := by
  show Option.getD (Option.map _ (chainQueries txn s before cs req).forked) _ = _
  unfold ChainState.out
  cases (chainQueries txn s before cs req).forked <;> rfl

lemma chainRound_chained
    (h : Chained txn s before (cs.out before) cs.chainedKeys) (hq : req.isQueryIntent = false) :
    Chained txn s (before ++ [req]) ((chainRound txn s before cs req).out (before ++ [req]))
      (chainRound txn s before cs req).chainedKeys := by
  obtain ⟨hqueries, hkeys⟩ := chainQueries_chained req h
  rw [chainRound_out]
  exact hqueries.request hq hkeys

variable {rest : List Request}

lemma chainLoop_chained
    (h : Chained txn s before (cs.out before) cs.chainedKeys)
    (hq : ∀ req ∈ rest, req.isQueryIntent = false) :
    Chained txn s (before ++ rest) ((chainLoop txn s before cs rest).out (before ++ rest))
      (chainLoop txn s before cs rest).chainedKeys := by
  induction rest generalizing before cs with
  | nil =>
    rw [append_nil]
    exact h
  | cons req rest ih =>
    have hround := chainRound_chained h (hq req (.head _))
    have hrest := ih hround fun r hr => hq r (.tail _ hr)
    rw [append_assoc, singleton_append] at hrest
    exact hrest

lemma chainLoop_getLast (h : (cs.out before).getLast? = before.getLast?) :
    ((chainLoop txn s before cs rest).out (before ++ rest)).getLast? =
      (before ++ rest).getLast? := by
  induction rest generalizing before cs with
  | nil =>
    rw [append_nil]
    exact h
  | cons req rest ih =>
    have hround : ((chainRound txn s before cs req).out (before ++ [req])).getLast? =
        (before ++ [req]).getLast? := by
      rw [chainRound_out, getLast?_concat, getLast?_concat]
    have hrest := ih hround
    rw [append_assoc, singleton_append] at hrest
    exact hrest

variable {reqs : List Request}

lemma chained_of_empty (hs : s.t = [])
    (hq : ∀ req ∈ reqs, req.isQueryIntent = false) : Chained txn s reqs reqs [] where
  others := filter_eq_self.mpr fun req hreq => by simp [hq req hreq]
  keys := by
    apply filterMap_eq_nil_iff.mpr
    intro req hreq
    have hreq := hq req hreq
    cases req with
    | op method header => rfl
    | endTxn et => rfl
    | queryIntent qi => cases hreq
  nodup := nodup_nil
  queries := fun req hreq hquery => by simp [hq req hreq] at hquery
  preceded := by
    intro pre req post _ _ w hw
    have hmem := mem_of_mem_writesToChain hw
    rw [hs] at hmem
    cases hmem

lemma chainToInFlightWrites_requests (st : State) (ba : BatchRequest) :
    (chainToInFlightWrites st ba).requests =
      if st.ifWrites.len = 0 then ba.requests
      else (chainLoop ba.txn st.ifWrites [] {} ba.requests).out ba.requests := by
  unfold chainToInFlightWrites ChainState.out
  split_ifs
  · rfl
  · cases (chainLoop ba.txn st.ifWrites [] {} ba.requests).forked <;> rfl

lemma chainToInFlightWrites_chained (st : State) {ba : BatchRequest}
    (hq : ∀ req ∈ ba.requests, req.isQueryIntent = false) :
    ∃ chainedKeys, Chained ba.txn st.ifWrites ba.requests
      (chainToInFlightWrites st ba).requests chainedKeys := by
  rw [chainToInFlightWrites_requests]
  split_ifs with hlen
  · exact ⟨[], chained_of_empty (length_eq_zero_iff.mp hlen) hq⟩
  have hinit : Chained ba.txn st.ifWrites [] (ChainState.out {} []) [] :=
    { others := rfl
      keys := rfl
      nodup := nodup_nil
      queries := fun req hreq => absurd hreq not_mem_nil
      preceded := fun pre req post h => absurd h (by simp [ChainState.out]) }
  exact ⟨_, chainLoop_chained hinit hq⟩

lemma chainToInFlightWrites_getLast (st : State) (ba : BatchRequest) :
    (chainToInFlightWrites st ba).requests.getLast? = ba.requests.getLast? := by
  rw [chainToInFlightWrites_requests]
  split_ifs
  · rfl
  · exact chainLoop_getLast (show (ChainState.out {} []).getLast? = _ from rfl)

/-! ## Mapping back -/

lemma zip_filter {β : Type*} {p : α → Bool} {q : β → Bool} {bs : List β}
    (h : List.Forall₂ (fun a b => p a = q b) as bs) :
    (as.filter p).zip (bs.filter q) = (as.zip bs).filter fun x => p x.1 := by
  induction h with
  | nil => rfl
  | @cons a b as bs hab _ ih =>
    rw [zip_cons_cons, filter_cons, filter_cons, filter_cons, ← hab]
    split_ifs
    · rw [zip_cons_cons, ih]
    · exact ih

lemma getElem?_filter_countP (p : α → Bool) (l : List α) (j : ℕ) :
    (l.filter p)[(l.take j).countP p]? = ((l.drop j).filter p).head? := by
  have hsplit : l.filter p = (l.take j).filter p ++ (l.drop j).filter p := by
    rw [← filter_append, take_append_drop]
  rw [hsplit, countP_eq_length_filter, List.getElem?_append_right le_rfl, Nat.sub_self,
    head?_eq_getElem?]

lemma adjustIndex_eq (sent : BatchRequest) (hj : j ≤ sent.requests.length) :
    adjustIndex sent j = (sent.requests.take j).countP fun req => !req.isQueryIntent := by
  have hlen : (sent.requests.take j).length = j := length_take_of_le hj
  have hcount := length_eq_countP_add_countP Request.isQueryIntent (l := sent.requests.take j)
  have hnot : (sent.requests.take j).countP (fun req => !req.isQueryIntent) =
      (sent.requests.take j).countP fun req => decide ¬ req.isQueryIntent := by
    congr 1
    funext req
    cases req.isQueryIntent <;> rfl
  rw [adjustIndex, hnot]
  omega

variable {last : Request}

lemma drop_withoutQueries_ne_nil
    (hlast : reqs.getLast? = some last) (hq : last.isQueryIntent = false)
    (hj : j < reqs.length) : withoutQueries (reqs.drop j) ≠ [] := by
  have hmem : last ∈ reqs.drop j := by
    have hdrop : (reqs.drop j).getLast? = some last := by
      rw [getLast?_drop, if_neg (Nat.not_le.mpr hj)]
      exact hlast
    exact mem_of_getLast? hdrop
  apply ne_nil_of_mem (a := last)
  exact mem_filter.mpr ⟨hmem, by simp [hq]⟩

/-! ## Proving writes -/

/-- A committing `EndTxn` and a request that is not transactional depend on every write, another one
on the writes in its span. -/
def DependsOn (req : Request) (w : SequencedWrite) : Prop :=
  match req with
  | .endTxn et => et.commit
  | req => req.isTransactional = false ∨
      (req.header.endKey ≠ some [] ∧ Span.Mem w.key req.header.span)

lemma mem_ascendRange_of_mem {h : RequestHeader} (hw : w ∈ s.t)
    (hne : h.endKey ≠ some []) (hmem : Span.Mem w.key h.span) :
    w ∈ s.ascendRange h.key h.endKey := by
  refine mem_ascendRange.mpr ⟨hw, ?_⟩
  obtain ⟨key, endKey, sequence⟩ := h
  cases endKey with
  | none => exact (Span.mem_of_isPoint rfl).mp hmem
  | some endKey =>
    have hrange : ¬ (RequestHeader.span ⟨key, some endKey, sequence⟩).isPoint := by
      rw [Span.isPoint_iff]
      exact fun hnil => hne (congrArg some hnil)
    exact (Span.mem_of_not_isPoint hrange).mp hmem

lemma mem_writesToChain (hw : w ∈ s.t) (h : DependsOn req w) : w ∈ writesToChain s req := by
  unfold writesToChain
  split_ifs with htxn
  · exact hw
  cases req with
  | op method header =>
    rcases h with h | ⟨hne, hmem⟩
    · exact absurd h (by simpa using htxn)
    · exact mem_ascendRange_of_mem hw hne hmem
  | endTxn et =>
    have hcommit : et.commit := h
    simp only [hcommit, if_true]
    exact hw
  | queryIntent qi => exact absurd rfl htxn

lemma Chained.filter_queriedKey (h : Chained txn s before out chainedKeys)
    {pre post : List Request} (hout : out = pre ++ post) (hw : w ∈ s.t)
    (hk : w.key ∈ queriedKeys pre) :
    pre.filter (fun req => queriedKey req = some w.key) = [queryIntentFor txn w] := by
  obtain ⟨req, hreq, hkey⟩ := mem_filterMap.mp hk
  obtain ⟨as, bs, rfl⟩ := append_of_mem hreq
  have hquery : req = queryIntentFor txn w := by
    cases req with
    | op method header => cases hkey
    | endTxn et => cases hkey
    | queryIntent qi =>
      obtain ⟨w', hw', heq⟩ := h.queries _ (hout ▸ mem_append_left _ hreq) rfl
      rw [heq] at hkey
      rw [heq, eq_of_key_eq hw' hw (Option.some.inj hkey)]
  have hnodup : (queriedKeys as ++ w.key :: queriedKeys bs).Nodup := by
    have hout' := h.nodup
    rw [← h.keys, hout, queriedKeys_append] at hout'
    have hpre := hout'.of_append_left
    rw [queriedKeys_append, queriedKeys, queriedKeys, filterMap_cons_some hkey] at hpre
    exact hpre
  have hother : ∀ l, w.key ∉ queriedKeys l →
      l.filter (fun req => queriedKey req = some w.key) = [] := by
    intro l hl
    apply filter_eq_nil_iff.mpr
    intro r hr hrk
    exact hl (mem_filterMap.mpr ⟨r, hr, of_decide_eq_true hrk⟩)
  obtain ⟨-, hbs, hdisj⟩ := nodup_append.mp hnodup
  rw [filter_append, filter_cons_of_pos (by simpa using hkey), hother as, hother bs, hquery]
  · rfl
  · exact (nodup_cons.mp hbs).1
  · exact fun has => hdisj _ has _ (.head _) rfl

def withoutLocks : Request → Request
  | .endTxn et => .endTxn { et with lockSpans := [], inFlightWrites := [] }
  | req => req

lemma attachRequest_withoutLocks (et : EndTxnRequest) (req : Request) :
    withoutLocks (.endTxn (attachRequest et req)) = withoutLocks (.endTxn et) := by
  unfold attachRequest
  split_ifs <;> rfl

lemma attachRequests_withoutLocks (et : EndTxnRequest) (reqs : List Request) :
    withoutLocks (.endTxn (reqs.foldl attachRequest et)) = withoutLocks (.endTxn et) := by
  induction reqs generalizing et with
  | nil => rfl
  | cons req reqs ih => exact (ih _).trans (attachRequest_withoutLocks et req)

variable {ba : BatchRequest}

lemma attachLocksToEndTxn_spec {attached : BatchRequest}
    (h : attachLocksToEndTxn st ba = .ok attached) :
    attached.txn = ba.txn ∧ attached.requests.map withoutLocks = ba.requests.map withoutLocks ∧
      ((∀ req ∈ ba.requests, req.isQueryIntent = false) →
        ∀ req ∈ attached.requests, req.isQueryIntent = false) := by
  unfold attachLocksToEndTxn at h
  split at h
  · cases h
    exact ⟨rfl, rfl, fun hq => hq⟩
  rename_i et hget
  split_ifs at h
  cases h
  have hreqs := BatchRequest.requests_eq_of_getEndTxn hget
  refine ⟨rfl, ?_, fun hq req hreq => ?_⟩
  · conv_rhs => rw [hreqs]
    simp only [BatchRequest.setEndTxn, map_append, map_cons, map_nil]
    exact congrArg (fun req => ba.requests.dropLast.map withoutLocks ++ [req])
      (attachRequests_withoutLocks _ _)
  rcases mem_append.mp hreq with hreq | hreq
  · exact hq req (mem_of_mem_dropLast hreq)
  rw [mem_singleton.mp hreq]
  rfl

lemma prepare_chained {cfg : Settings} {st1 : State}
    (hq : ∀ req ∈ ba.requests, req.isQueryIntent = false)
    (h : prepare cfg st ba = (st1, .ok sent)) :
    ∃ attached : BatchRequest, ∃ chainedKeys,
      Chained ba.txn st.ifWrites attached.requests sent.requests chainedKeys ∧
      attached.requests.map withoutLocks = ba.requests.map withoutLocks ∧
      sent.requests.getLast? = attached.requests.getLast? ∧
      ∀ req ∈ attached.requests, req.isQueryIntent = false := by
  obtain ⟨⟨hwrites, -⟩, hsent⟩ := prepare_cases h
  obtain ⟨attached, hattach, rfl⟩ := hsent sent rfl
  obtain ⟨htxn, hreqs, hquery⟩ := attachLocksToEndTxn_spec hattach
  obtain ⟨chainedKeys, hchained⟩ := @chainToInFlightWrites_chained st1
    { attached with asyncConsensus := canUseAsyncConsensus cfg st1 attached } (hquery hq)
  rw [hwrites] at hchained
  refine ⟨attached, chainedKeys, htxn ▸ hchained, hreqs, ?_, hquery hq⟩
  exact chainToInFlightWrites_getLast _ _

/-- The transaction is committed, a query found the write, or it moves to the lock footprint. -/
def LeftBy (st st' : State) (a : Action) (w : SequencedWrite) : Prop :=
  match a with
  | .send cfg ba reply => Committed reply ∨
      (∃ sent, (Action.send cfg ba reply).sent st = some sent ∧ Proven sent reply w) ∧
        Covers st'.lockFootprint.s w.key
  | _ => Covers st'.lockFootprint.s w.key

lemma step_holds {st' : State} {a : Action} (hst : st.Wf) (hlegal : a.Legal st)
    (h : step st a = some st') :
    st'.Wf ∧ ∀ w ∈ st.ifWrites.t, st'.ifWrites.Holds w ∨ LeftBy st st' a w := by
  cases a with
  | send cfg ba reply =>
    obtain ⟨⟨st2, result⟩, hsend, rfl⟩ := Option.map_eq_some_iff.mp h
    obtain ⟨hwf, hmoves | ⟨sent, hsent, hcommit | hmoves⟩⟩ := sendLocked_spec hst hlegal hsend
    · refine ⟨hwf, fun w hw => .inl ?_⟩
      exact (hmoves.1.writes w hw).resolve_right fun hout => hout.1
    · exact ⟨hwf, fun w hw => .inr (.inl hcommit)⟩
    refine ⟨hwf, fun w hw => (hmoves.1.writes w hw).imp_right fun hout => ?_⟩
    exact .inr ⟨⟨sent, hsent, hout.1⟩, hout.2⟩
  | epochBumped =>
    cases h
    obtain ⟨hwf, hmoves⟩ := epochBumpedLocked_spec hst
    exact ⟨hwf, fun w hw => (hmoves.writes w hw).imp_right And.right⟩
  | rollbackToSavepoint sp =>
    obtain ⟨hwf, hmoves⟩ := rollbackToSavepointLocked_spec hst h
    exact ⟨hwf, fun w hw => (hmoves.writes w hw).imp_right And.right⟩

def Answers (sent : BatchRequest) (br : BatchResponse) : Prop :=
  List.Forall₂ (fun req resp => req.isQueryIntent = resp.isQueryIntent) sent.requests br.responses

lemma adjustError_index
    (hlast : sent.requests.getLast? = some last) (hq : last.isQueryIntent = false)
    {pErr : Error} (hindex : pErr.index = some j) (hj : j < sent.requests.length) :
    ∃ pErr' i req, adjustError sent pErr = some pErr' ∧ pErr'.index = some i ∧
      (withoutQueries sent.requests)[i]? = some req ∧
      (withoutQueries (sent.requests.drop j)).head? = some req := by
  obtain ⟨req, hreq⟩ := Option.ne_none_iff_exists'.mp
    (head?_eq_none_iff.not.mpr (drop_withoutQueries_ne_nil hlast hq hj))
  refine ⟨{ pErr with detail := adjustDetail pErr.detail, index := some (adjustIndex sent j) },
    adjustIndex sent j, req, ?_, rfl, ?_, hreq⟩
  · unfold adjustError
    simp only [hindex, if_pos hj.le]
  rw [adjustIndex_eq sent hj.le]
  exact (getElem?_filter_countP _ _ j).trans hreq

def oneWrite : State :=
  { ifWrites := { t := [⟨[1], 1⟩], bytes := 1, sorted := pairwise_singleton _ _ } }

lemma oneWrite_wf : oneWrite.Wf where
  proper := fun _ hsp => absurd hsp not_mem_nil
  positive := by
    intro w hw
    rw [mem_singleton.mp hw]
    decide

def readBatch : BatchRequest :=
  { txn := { id := 1 }
    requests := [.op (.get false) ⟨[7], none, 1⟩, .op (.scan false) ⟨[1], some [3], 1⟩] }

end MeshDB.KvCoord.Pipeliner
