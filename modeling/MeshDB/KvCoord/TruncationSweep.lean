import MeshDB.KvCoord.BatchTruncation
import MeshDB.Lib.Sweep

/-!
# Truncation is a sweep

In both directions the helper sweeps over the parts of the requests that were not processed.
For the descending direction the order of the keys is reversed.
-/
namespace MeshDB.KvCoord

open List Option Roachpb Kvpb Sweep BatchTruncationHelper

/-! ## Keys in the order of a direction -/

/-- Keys in the order of the sweep. -/
def Cut : ScanDirection → Type
  | .ascending => Key
  | .descending => Keyᵒᵈ

instance : ∀ dir, LinearOrder (Cut dir)
  | .ascending => inferInstanceAs (LinearOrder Key)
  | .descending => inferInstanceAs (LinearOrder Keyᵒᵈ)

def cut : (dir : ScanDirection) → Key → Cut dir
  | .ascending, k => k
  | .descending, k => OrderDual.toDual k

def uncut : (dir : ScanDirection) → Cut dir → Key
  | .ascending, k => k
  | .descending, k => OrderDual.ofDual k

@[simp] lemma cut_uncut (dir : ScanDirection) (c : Cut dir) : cut dir (uncut dir c) = c := by
  cases dir <;> rfl

/-- The end the sweep reaches first. -/
def nearEnd (dir : ScanDirection) (rs : RSpan) : Cut dir :=
  match dir with
  | .ascending => cut .ascending rs.key
  | .descending => cut .descending rs.endKey

/-- The end the sweep reaches last. -/
def farEnd (dir : ScanDirection) (rs : RSpan) : Cut dir :=
  match dir with
  | .ascending => cut .ascending rs.endKey
  | .descending => cut .descending rs.key

variable {dir : ScanDirection} {rs : RSpan} {e : Entry} {es : List Entry} {k b : Key}

lemma Key.next_le_of_lt (h : k < b) : k.next ≤ b := by
  by_contra hlt
  exact absurd (Key.le_of_lt_next (not_le.mp hlt)) h.not_ge

/-! ## The parts of requests -/

/-- The request cut down to a span. -/
def piece (req : Request) (key endKey : Key) : Request :=
  if req.isRange then req.setHeader ⟨key, some endKey, req.header.sequence⟩ else req

/-- A request as an interval to be swept. -/
abbrev Part (dir : ScanDirection) := Job (Cut dir) (ℕ × Request)

/-- The interval of a request. -/
def part (dir : ScanDirection) (req : Request) (pos : ℕ) (key endKey : Key) : Part dir :=
  match dir with
  | .ascending => ⟨cut .ascending key, cut .ascending endKey, (pos, req)⟩
  | .descending => ⟨cut .descending endKey, cut .descending key, (pos, req)⟩

/-- The request that is left of an interval. -/
def Part.request : {dir : ScanDirection} → Part dir → Request × ℕ
  | .ascending, j => (piece j.tag.2 (uncut _ j.lo) (uncut _ j.hi), j.tag.1)
  | .descending, j => (piece j.tag.2 (uncut _ j.hi) (uncut _ j.lo), j.tag.1)

/-- The end of what an entry has left. A point without an end key is left up to the next
key. -/
def Entry.stop (e : Entry) : Key := if e.isRange then e.endKey else e.header.key.next

def Entry.part (dir : ScanDirection) (e : Entry) : Option (Part dir) :=
  e.position.map fun pos => KvCoord.part dir e.request pos e.header.key e.stop

/-- The requests not yet sent whole. -/
def parts (dir : ScanDirection) (es : List Entry) : List (Part dir) := es.filterMap (Entry.part dir)

lemma parts_append (es es' : List Entry) :
    parts dir (es ++ es') = parts dir es ++ parts dir es' :=
  filterMap_append

lemma parts_cons_none (h : e.position = none) : parts dir (e :: es) = parts dir es := by
  simp [parts, Entry.part, h]

lemma parts_cons_some {pos : ℕ} (h : e.position = some pos) : parts dir (e :: es) =
    KvCoord.part dir e.request pos e.header.key e.stop :: parts dir es := by
  simp [parts, Entry.part, h]

/-- The header is the one of the request up to the end that moves. -/
structure EntryOk (dir : ScanDirection) (e : Entry) : Prop where
  isRange : e.isRange = e.request.isRange
  header : e.isRange →
    e.header.endKey = some e.endKey ∧ e.header.sequence = e.request.header.sequence
  fixed : e.isRange → match dir with
    | .ascending => e.request.header.endKey = some e.endKey
    | .descending => e.request.header.key = e.header.key ∧ e.request.header.span.isPoint = false
  point : e.isRange = false → dir = .descending → e.endKey = e.header.key.next

lemma endKey_of_not_isPoint {sp : Span} (h : sp.isPoint = false) :
    sp.endKey = some sp.endKeyBytes := by
  obtain ⟨key, endKey⟩ := sp
  cases endKey with
  | none => cases h
  | some endKey => rfl

variable {req : Request}

lemma setHeader_self (h : req.isRange) : req.setHeader req.header = req := by
  cases req with
  | op method header => rfl
  | endTxn et => cases h
  | queryIntent qi => cases h

lemma EntryOk.header_eq (h : EntryOk dir e) (hrange : e.isRange) :
    e.header = ⟨e.header.key, some e.endKey, e.request.header.sequence⟩ := by
  obtain ⟨hend, hseq⟩ := h.header hrange
  rw [← hend, ← hseq]

lemma piece_header (h : EntryOk dir e) (hrange : e.isRange) :
    piece e.request e.header.key e.endKey = e.request.setHeader e.header := by
  rw [piece, if_pos (h.isRange ▸ hrange), ← h.header_eq hrange]

lemma piece_point (h : EntryOk dir e) (hrange : e.isRange = false) (key endKey : Key) :
    piece e.request key endKey = e.request := by
  rw [piece, if_neg (by rw [← h.isRange, hrange]; exact Bool.false_ne_true)]

/-- A round of the loop, in terms of the sweep. -/
structure Swept (dir : ScanDirection) (bound : Cut dir) (es : List Entry)
    (r : List Entry × List (Request × ℕ)) : Prop where
  parts : parts dir r.1 = (sweep bound (parts dir es)).2
  requests : r.2 = (sweep bound (KvCoord.parts dir es)).1.map Part.request
  ok : ∀ e ∈ r.1, e.position.isSome → EntryOk dir e
  length : r.1.length = es.length

namespace Swept

lemma nil (bound : Cut dir) : Swept dir bound [] ([], []) :=
  ⟨by simp only [KvCoord.parts, sweep, filterMap_nil],
    by simp only [KvCoord.parts, sweep, filterMap_nil, map_nil],
    fun _ he => absurd he not_mem_nil, rfl⟩

variable {bound : Cut dir} {r : List Entry × List (Request × ℕ)} {pos : ℕ}

lemma skip (h : Swept dir bound es r) (hpos : e.position = none) :
    Swept dir bound (e :: es) (e :: r.1, r.2) := by
  refine ⟨?_, ?_, forall_mem_cons.mpr ⟨by simp [hpos], h.ok⟩, congrArg (· + 1) h.length⟩
  · rw [parts_cons_none hpos, parts_cons_none hpos, h.parts]
  · rw [parts_cons_none hpos, ← h.requests]

lemma stop (hpos : e.position = some pos)
    (hbreak : bound ≤ (KvCoord.part dir e.request pos e.header.key e.stop).lo)
    (hok : ∀ e' ∈ e :: es, e'.position.isSome → EntryOk dir e') :
    Swept dir bound (e :: es) (e :: es, []) := by
  refine ⟨?_, ?_, hok, rfl⟩
  · rw [parts_cons_some hpos, sweep, if_pos hbreak]
  rw [parts_cons_some hpos, sweep, if_pos hbreak]
  rfl

lemma finish (h : Swept dir bound es r) (hpos : e.position = some pos)
    (hlo : (KvCoord.part dir e.request pos e.header.key e.stop).lo < bound)
    (hhi : (KvCoord.part dir e.request pos e.header.key e.stop).hi ≤ bound)
    (hreq : piece e.request e.header.key e.stop = req) :
    Swept dir bound (e :: es) (e.done :: r.1, (req, pos) :: r.2) := by
  refine ⟨?_, ?_, forall_mem_cons.mpr ⟨by simp [Entry.done], h.ok⟩, congrArg (· + 1) h.length⟩
  · rw [parts_cons_none rfl, parts_cons_some hpos, sweep, if_neg hlo.not_ge, if_pos hhi, h.parts]
  · rw [parts_cons_some hpos, sweep, if_neg hlo.not_ge, if_pos hhi, map_cons, ← h.requests, ← hreq]
    cases dir <;> rfl

lemma leave (h : Swept dir bound es r) (hpos : e.position = some pos) {e' : Entry}
    (hlo : (KvCoord.part dir e.request pos e.header.key e.stop).lo < bound)
    (hhi : bound < (KvCoord.part dir e.request pos e.header.key e.stop).hi)
    (hpart : e'.part dir =
      some { KvCoord.part dir e.request pos e.header.key e.stop with lo := bound })
    (hreq : Part.request { KvCoord.part dir e.request pos e.header.key e.stop with hi := bound } =
      (req, pos)) (hok : EntryOk dir e') :
    Swept dir bound (e :: es) (e' :: r.1, (req, pos) :: r.2) := by
  refine ⟨?_, ?_, forall_mem_cons.mpr ⟨fun _ => hok, h.ok⟩, congrArg (· + 1) h.length⟩
  · rw [parts_cons_some hpos, sweep, if_neg hlo.not_ge, if_neg hhi.not_ge, ← h.parts]
    simp only [KvCoord.parts, filterMap_cons, hpart]
  · rw [parts_cons_some hpos, sweep, if_neg hlo.not_ge, if_neg hhi.not_ge, map_cons,
      ← h.requests, hreq]

end Swept

lemma truncateAscLoop_spec (rs : RSpan) (es : List Entry)
    (hok : ∀ e ∈ es, e.position.isSome → EntryOk .ascending e) :
    Swept .ascending (farEnd .ascending rs) es (truncateAscLoop rs es) := by
  induction es with
  | nil => exact .nil _
  | cons e es ih =>
    have hrest := ih fun e' he' => hok e' (.tail e he')
    unfold truncateAscLoop
    cases hpos : e.position with
    | none => exact hrest.skip hpos
    | some pos =>
      have he : EntryOk .ascending e := hok e (.head _) (by rw [hpos]; rfl)
      dsimp only
      by_cases hbreak : rs.endKey ≤ e.header.key
      · rw [if_pos hbreak]
        exact .stop hpos hbreak hok
      have hlo := not_le.mp hbreak
      rw [if_neg hbreak]
      cases hrange : e.isRange with
      | false =>
        have hstop : e.stop = e.header.key.next := by rw [Entry.stop, hrange]; rfl
        refine hrest.finish hpos hlo ?_ (piece_point he hrange _ _)
        rw [hstop]
        exact Key.next_le_of_lt hlo
      | true =>
        have hstop : e.stop = e.endKey := by rw [Entry.stop, hrange]; rfl
        simp only [Bool.not_true, Bool.false_eq_true, if_false]
        by_cases hend : e.endKey ≤ rs.endKey
        · rw [if_pos hend]
          have hhi : (KvCoord.part .ascending e.request pos e.header.key e.stop).hi ≤
              farEnd .ascending rs := by
            rw [hstop]
            exact hend
          split_ifs with hkey
          · refine hrest.finish hpos hlo hhi ?_
            have hheader : e.header = e.request.header := by
              rw [he.header_eq hrange, ← hkey, ← he.fixed hrange]
            rw [hstop, piece_header he hrange, hheader, setHeader_self (he.isRange ▸ hrange)]
          · refine hrest.finish hpos hlo hhi ?_
            rw [hstop, piece_header he hrange]
        rw [if_neg hend]
        refine hrest.leave hpos hlo ?_ ?_ ?_ ?_
        · rw [hstop]
          exact not_le.mp hend
        · simp only [Entry.part, Entry.stop, hrange]
          rfl
        · show (piece e.request e.header.key rs.endKey, pos) = _
          rw [piece, if_pos (he.isRange ▸ hrange), ← (he.header hrange).2]
        · exact ⟨hrange ▸ he.isRange, fun _ => he.header hrange, fun _ => he.fixed hrange, nofun⟩

lemma EntryOk.stop_eq (hok : EntryOk .descending e) : e.stop = e.endKey := by
  unfold Entry.stop
  split_ifs with hrange
  · rfl
  · exact (hok.point (Bool.eq_false_iff.mpr hrange) rfl).symm

lemma truncateDescLoop_spec (rs : RSpan) (es : List Entry)
    (hok : ∀ e ∈ es, e.position.isSome → EntryOk .descending e) :
    Swept .descending (farEnd .descending rs) es (truncateDescLoop rs es) := by
  induction es with
  | nil => exact .nil _
  | cons e es ih =>
    have hrest := ih fun e' he' => hok e' (.tail e he')
    unfold truncateDescLoop
    cases hpos : e.position with
    | none => exact hrest.skip hpos
    | some pos =>
      have he : EntryOk .descending e := hok e (.head _) (by rw [hpos]; rfl)
      have hstop := he.stop_eq
      dsimp only
      by_cases hbreak : e.endKey ≤ rs.key
      · rw [if_pos hbreak]
        refine .stop hpos ?_ hok
        rw [hstop]
        exact hbreak
      have hlo : (KvCoord.part .descending e.request pos e.header.key e.stop).lo <
          farEnd .descending rs := by
        rw [hstop]
        exact not_le.mp hbreak
      rw [if_neg hbreak]
      cases hrange : e.isRange with
      | false =>
        refine hrest.finish hpos hlo ?_ (piece_point he hrange _ _)
        have hlt : rs.key < e.header.key.next := he.point hrange rfl ▸ not_le.mp hbreak
        exact Key.le_of_lt_next hlt
      | true =>
        simp only [Bool.not_true, Bool.false_eq_true, if_false]
        by_cases hend : rs.key ≤ e.header.key
        · rw [if_pos hend]
          obtain ⟨hkey, hpoint⟩ := he.fixed hrange
          split_ifs with hwhole
          · refine hrest.finish hpos hlo hend ?_
            have hendKey : e.request.header.span.endKeyBytes = e.endKey :=
              hwhole.resolve_left (by rw [hpoint]; exact Bool.false_ne_true)
            have hheader : e.header = e.request.header := by
              rw [he.header_eq hrange, ← hkey, ← hendKey, ← endKey_of_not_isPoint hpoint]
              rfl
            rw [hstop, piece_header he hrange, hheader, setHeader_self (he.isRange ▸ hrange)]
          · refine hrest.finish hpos hlo hend ?_
            rw [hstop, piece_header he hrange]
        rw [if_neg hend]
        refine hrest.leave hpos hlo (not_le.mp hend) ?_ ?_ ?_
        · simp only [Entry.part, Entry.stop, hrange]
          rfl
        · show (piece e.request rs.key e.stop, pos) = _
          rw [piece, if_pos (he.isRange ▸ hrange), ← (he.header hrange).2, hstop,
            ← (he.header hrange).1]
        · exact ⟨hrange ▸ he.isRange, fun _ => ⟨rfl, (he.header hrange).2⟩,
            fun _ => he.fixed hrange, nofun⟩

lemma truncateLoop_spec (rs : RSpan) (es : List Entry)
    (hok : ∀ e ∈ es, e.position.isSome → EntryOk dir e) :
    Swept dir (farEnd dir rs) es (truncateLoop dir rs es) := by
  cases dir with
  | ascending => exact truncateAscLoop_spec rs es hok
  | descending => exact truncateDescLoop_spec rs es hok

/-! ## Restoring the order -/

variable {p i : ℕ}

lemma foldl_set_getElem? {l : List (ℕ × ℕ)} (hnodup : (l.map Prod.fst).Nodup)
    (found : List (Option ℕ)) (hp : p < found.length) (hfound : found[p]? = some none) :
    (l.foldl (fun found q => found.set q.1 (some q.2)) found)[p]? = some (some i) ↔ (p, i) ∈ l := by
  have hgen : ∀ (l : List (ℕ × ℕ)) (found : List (Option ℕ)), (∀ q ∈ l, q.1 ≠ p) →
      (l.foldl (fun found q => found.set q.1 (some q.2)) found)[p]? = found[p]? := by
    intro l
    induction l with
    | nil => exact fun _ _ => rfl
    | cons q l ih =>
      intro found hne
      rw [foldl_cons, ih _ fun q' hq' => hne q' (.tail q hq'),
        List.getElem?_set_ne (hne q (.head _))]
  induction l generalizing found with
  | nil => simp [hfound]
  | cons q l ih =>
    rw [map_cons, nodup_cons] at hnodup
    rw [foldl_cons, mem_cons]
    by_cases hq : q.1 = p
    · have hout : ∀ q' ∈ l, q'.1 ≠ p := fun q' hq' heq =>
        hnodup.1 (hq ▸ heq ▸ mem_map_of_mem hq')
      have hnot : (p, i) ∉ l := fun hmem => hout _ hmem rfl
      rw [hgen _ _ hout, hq, List.getElem?_set_self hp]
      constructor
      · intro h
        left
        rw [← hq]
        exact Prod.ext rfl (Option.some.inj (Option.some.inj h)).symm
      rintro (h | h)
      · rw [← h]
      · exact absurd h hnot
    · have hne : (p, i) ≠ q := fun h => hq (congrArg Prod.fst h).symm
      have hrest := ih hnodup.2 (found.set q.1 (some q.2)) (by rwa [length_set])
        (by rw [List.getElem?_set_ne hq, hfound])
      refine hrest.trans ?_
      exact ⟨.inr, fun h => h.resolve_left hne⟩

lemma length_foundMap (n : ℕ) (positions : List ℕ) : (foundMap n positions).length = n := by
  have hgen : ∀ (l : List (ℕ × ℕ)) (found : List (Option ℕ)),
      (l.foldl (fun found q => found.set q.1 (some q.2)) found).length = found.length := by
    intro l
    induction l with
    | nil => exact fun _ => rfl
    | cons q l ih =>
      intro found
      rw [foldl_cons, ih, length_set]
  rw [foundMap, hgen, length_replicate]

variable {n : ℕ}

lemma foundMap_getElem? {positions : List ℕ} (hnodup : positions.Nodup)
    (hp : p < n) : (foundMap n positions)[p]? = some (some i) ↔ positions[i]? = some p := by
  unfold foundMap
  rw [foldl_set_getElem? (by rwa [zipIdx_map_fst]) _ (by rwa [length_replicate])
    (by simp [hp]), mem_zipIdx_iff_getElem?]

lemma mem_restoreOrder {truncReqs : List (Request × ℕ)}
    (hnodup : (truncReqs.map Prod.snd).Nodup) (hlt : ∀ r ∈ truncReqs, r.2 < n)
    {r : Request × ℕ} : r ∈ restoreOrder n truncReqs ↔ r ∈ truncReqs := by
  unfold restoreOrder
  rw [mem_filterMap]
  constructor
  · rintro ⟨⟨found, p⟩, hmem, heq⟩
    rw [mem_zipIdx_iff_getElem?] at hmem
    obtain ⟨i, rfl, hi⟩ := bind_eq_some_iff.mp heq
    obtain ⟨r', hr', rfl⟩ := map_eq_some_iff.mp hi
    have hp : p < n := by
      obtain ⟨hlen, -⟩ := List.getElem?_eq_some_iff.mp hmem
      rwa [length_foundMap] at hlen
    have hpos := (foundMap_getElem? hnodup hp).mp hmem
    rw [List.getElem?_map, hr'] at hpos
    have hp' : r'.2 = p := Option.some.inj hpos
    rw [← hp']
    exact mem_of_getElem? hr'
  · intro hmem
    obtain ⟨i, hi⟩ := mem_iff_getElem?.mp hmem
    refine ⟨(some i, r.2), ?_, by simp [hi]⟩
    rw [mem_zipIdx_iff_getElem?, foundMap_getElem? hnodup (hlt r hmem), List.getElem?_map, hi]
    rfl

lemma restoreOrder_spec {n : ℕ} {truncReqs : List (Request × ℕ)}
    (hnodup : (truncReqs.map Prod.snd).Nodup) (hlt : ∀ r ∈ truncReqs, r.2 < n) :
    (restoreOrder n truncReqs).Perm truncReqs ∧
      ((restoreOrder n truncReqs).map Prod.snd).Pairwise (· < ·) := by
  have hsorted : ((restoreOrder n truncReqs).map Prod.snd).Pairwise (· < ·) := by
    rw [pairwise_map]
    have hidx : ((foundMap n (truncReqs.map Prod.snd)).zipIdx).Pairwise fun p q => p.2 < q.2 := by
      rw [← pairwise_map, zipIdx_map_snd]
      exact pairwise_lt_range' 1
    refine hidx.filterMap _ ?_
    intro p q hpq r hr r' hr'
    obtain ⟨i, -, hi⟩ := bind_eq_some_iff.mp hr
    obtain ⟨i', -, hi'⟩ := bind_eq_some_iff.mp hr'
    obtain ⟨x, -, rfl⟩ := map_eq_some_iff.mp hi
    obtain ⟨x', -, rfl⟩ := map_eq_some_iff.mp hi'
    exact hpq
  refine ⟨?_, hsorted⟩
  have hnodup' : (restoreOrder n truncReqs).Nodup := .of_map Prod.snd (hsorted.imp ne_of_lt)
  rw [perm_ext_iff_of_nodup hnodup' (.of_map Prod.snd hnodup)]
  exact fun r => mem_restoreOrder hnodup hlt

/-! ## The helper -/

/-- The helper stands at a cut of the sweep. -/
structure HelperOk (dir : ScanDirection) (h : BatchTruncationHelper) : Prop where
  scanDir : h.scanDir = dir
  notLocal : h.foundLocalKey = false
  entry : ∀ e ∈ h.entries, e.position.isSome → EntryOk dir e
  started : ∀ e ∈ h.entries.take h.startIdx, e.position = none
  startIdx : h.startIdx ≤ h.entries.length
  length : h.entries.length = h.requests.length

variable {h : BatchTruncationHelper}

lemma parts_of_none (h : ∀ e ∈ es, e.position = none) : parts dir es = [] :=
  filterMap_eq_nil_iff.mpr fun e he => by rw [Entry.part, h e he]; rfl

lemma HelperOk.parts_drop (hok : HelperOk dir h) :
    parts dir (h.entries.drop h.startIdx) = parts dir h.entries := by
  have hsplit := @parts_append dir (h.entries.take h.startIdx) (h.entries.drop h.startIdx)
  rw [take_append_drop, parts_of_none hok.started, nil_append] at hsplit
  exact hsplit.symm

lemma truncateOptimized_spec (hok : HelperOk dir h) (rs : RSpan) :
    HelperOk dir (h.truncateOptimized rs).1 ∧
      parts dir (h.truncateOptimized rs).1.entries =
        (sweep (farEnd dir rs) (parts dir h.entries)).2 ∧
      (h.truncateOptimized rs).2 =
        (sweep (farEnd dir rs) (parts dir h.entries)).1.map Part.request := by
  have hswept := truncateLoop_spec rs (h.entries.drop h.startIdx)
    fun e he => hok.entry e (mem_of_mem_drop he)
  unfold truncateOptimized
  rw [hok.scanDir]
  generalize truncateLoop dir rs (h.entries.drop h.startIdx) = r at hswept ⊢
  have htake : (h.entries.take h.startIdx).length = h.startIdx :=
    length_take_of_le hok.startIdx
  have hlen : (h.entries.take h.startIdx ++ r.1).length = h.entries.length := by
    rw [length_append, hswept.length, ← length_append, take_append_drop]
  refine ⟨⟨rfl, hok.notLocal, ?_, ?_, hlen.symm ▸ hok.startIdx, hlen.trans hok.length⟩, ?_, ?_⟩
  · exact forall_mem_append.mpr ⟨fun e he => hok.entry e (mem_of_mem_take he), hswept.ok⟩
  · dsimp only
    rw [take_left' htake]
    exact hok.started
  · rw [parts_append, parts_of_none hok.started, nil_append, hswept.parts, hok.parts_drop]
  · rw [hswept.requests, hok.parts_drop]

/-- Where the first remaining interval begins. -/
def seekKeyOf : {dir : ScanDirection} → List (Part dir) → Key
  | .ascending, [] => keyMax
  | .descending, [] => keyMin
  | dir, j :: _ => uncut dir j.lo

lemma findIdx?_parts (es : List Entry) :
    match es.findIdx? fun e => e.position.isSome with
    | none => ∀ e ∈ es, e.position = none
    | some i => i < es.length ∧ (∀ e ∈ es.take i, e.position = none) ∧
        ∃ e j, es[i]? = some e ∧ e.part dir = some j ∧ ∃ js, parts dir es = j :: js := by
  induction es with
  | nil => exact fun _ he => absurd he not_mem_nil
  | cons e es ih =>
    rw [findIdx?_cons]
    cases hpos : e.position with
    | some pos =>
      have hpart : e.part dir = some (KvCoord.part dir e.request pos e.header.key e.stop) := by
        rw [Entry.part, hpos]
        rfl
      exact ⟨Nat.succ_pos _, fun e' he' => absurd he' (by simp), e, _, rfl, hpart, _,
        parts_cons_some hpos⟩
    | none =>
      cases hfind : es.findIdx? fun e => e.position.isSome with
      | none =>
        rw [hfind] at ih
        exact forall_mem_cons.mpr ⟨hpos, ih⟩
      | some i =>
        rw [hfind] at ih
        obtain ⟨hlt, hnone, e', j, hget, hpart, js, hparts⟩ := ih
        refine ⟨by simpa using hlt, forall_mem_cons.mpr ⟨hpos, hnone⟩, e', j,
          by simpa using hget, hpart, js, ?_⟩
        rw [parts_cons_none hpos, hparts]

lemma firstUnprocessed_spec (hok : HelperOk dir h) :
    match h.firstUnprocessed with
    | none => parts dir h.entries = [] ∧ ∀ e ∈ h.entries, e.position = none
    | some i => i ≤ h.entries.length ∧ (∀ e ∈ h.entries.take i, e.position = none) ∧
        ∃ e j, h.entries[i]? = some e ∧ e.part dir = some j ∧
          ∃ js, parts dir h.entries = j :: js := by
  have hfind := @findIdx?_parts dir (h.entries.drop h.startIdx)
  have hsplit : ∀ e ∈ h.entries, e ∈ h.entries.take h.startIdx ∨ e ∈ h.entries.drop h.startIdx := by
    intro e he
    rw [← mem_append, take_append_drop]
    exact he
  unfold firstUnprocessed
  rw [hok.parts_drop] at hfind
  cases hidx : (h.entries.drop h.startIdx).findIdx? fun e => e.position.isSome with
  | none =>
    rw [hidx] at hfind
    have hall : ∀ e ∈ h.entries, e.position = none := by
      intro e he
      rcases hsplit e he with he | he
      · exact hok.started e he
      · exact hfind e he
    exact ⟨parts_of_none hall, hall⟩
  | some i =>
    rw [hidx] at hfind
    obtain ⟨hlt, hdone, e, j, hget, hpart, hparts⟩ := hfind
    rw [length_drop] at hlt
    have hle : h.startIdx + i ≤ h.entries.length := by omega
    refine ⟨hle, ?_, e, j, by rwa [List.getElem?_drop] at hget, hpart, hparts⟩
    intro e' he'
    rw [take_add] at he'
    rcases mem_append.mp he' with he' | he'
    · exact hok.started e' he'
    · exact hdone e' he'

variable {A : Addressing}

lemma nextSeekKey_asc (hdir : h.scanDir = .ascending) :
    h.nextSeekKey A rs = h.next A rs.endKey := by
  unfold nextSeekKey
  rw [hdir]

lemma nextSeekKey_desc (hdir : h.scanDir = .descending) :
    h.nextSeekKey A rs = h.prev A rs.key := by
  unfold nextSeekKey
  rw [hdir]

lemma nextSeekKey_spec (A : Addressing) (hok : HelperOk dir h) (rs : RSpan)
    (hglobal : ∀ j ∈ parts dir h.entries, isLocalKey (uncut dir j.lo) = false) :
    ∃ startIdx, h.nextSeekKey A rs =
        .ok ({ h with startIdx := startIdx }, seekKeyOf (parts dir h.entries)) ∧
      HelperOk dir { h with startIdx := startIdx } := by
  have hfirst := firstUnprocessed_spec hok
  have hlegacy : ¬ h.foundLocalKey := by simp [hok.notLocal]
  cases hidx : h.firstUnprocessed with
  | none =>
    rw [hidx] at hfirst
    obtain ⟨hparts, hall⟩ := hfirst
    refine ⟨h.requests.length, ?_, hok.scanDir, hok.notLocal, hok.entry,
      fun e he => hall e (mem_of_mem_take he), hok.length.ge, hok.length⟩
    rw [hparts]
    cases dir with
    | ascending =>
      rw [nextSeekKey_asc hok.scanDir, BatchTruncationHelper.next, if_neg hlegacy, hidx]
      rfl
    | descending =>
      rw [nextSeekKey_desc hok.scanDir, BatchTruncationHelper.prev, if_neg hlegacy, hidx]
      rfl
  | some i =>
    rw [hidx] at hfirst
    obtain ⟨hle, hdone, e, j, hget, hpart, js, hparts⟩ := hfirst
    have haddr := A.addr_global _ (hglobal j (hparts ▸ mem_cons_self))
    obtain ⟨pos, hpos, rfl⟩ := map_eq_some_iff.mp hpart
    have hentry := hok.entry e (mem_of_getElem? hget) (by rw [hpos]; rfl)
    refine ⟨i, ?_, hok.scanDir, hok.notLocal, hok.entry, hdone, hle, hok.length⟩
    rw [hparts]
    cases dir with
    | ascending =>
      change A.addr e.header.key = .ok e.header.key at haddr
      rw [nextSeekKey_asc hok.scanDir, BatchTruncationHelper.next, if_neg hlegacy, hidx]
      dsimp only
      rw [hget, map_some, getD_some, haddr]
      rfl
    | descending =>
      change A.addr e.stop = .ok e.stop at haddr
      rw [nextSeekKey_desc hok.scanDir, BatchTruncationHelper.prev, if_neg hlegacy, hidx]
      dsimp only
      rw [hget, map_some, getD_some, ← hentry.stop_eq, haddr]
      rfl

lemma snd_request (j : Part dir) : (Part.request j).2 = j.tag.1 := by
  cases dir <;> rfl

lemma truncate_spec (A : Addressing) (hok : HelperOk dir h) (rs : RSpan)
    {out left : List (Part dir)}
    (hsweep : sweep (farEnd dir rs) (parts dir h.entries) = (out, left))
    (hglobal : ∀ j ∈ left, isLocalKey (uncut dir j.lo) = false)
    (hnodup : (out.map fun j => j.tag.1).Nodup) (hlt : ∀ j ∈ out, j.tag.1 < h.requests.length) :
    ∃ h' reqs, h.truncate A rs = .ok (h', reqs, seekKeyOf left) ∧ HelperOk dir h' ∧
      h'.mustPreserveOrder = h.mustPreserveOrder ∧ h'.requests = h.requests ∧
      parts dir h'.entries = left ∧ reqs.Perm (out.map Part.request) ∧
      (h.mustPreserveOrder → (reqs.map Prod.snd).Pairwise (· < ·)) := by
  obtain ⟨hok1, hparts, hreqs⟩ := truncateOptimized_spec hok rs
  rw [hsweep] at hparts hreqs
  obtain ⟨startIdx, hseek, hok2⟩ := nextSeekKey_spec A hok1 rs (by rwa [hparts])
  rw [hparts] at hseek
  refine ⟨{ (h.truncateOptimized rs).1 with startIdx := startIdx },
    if h.mustPreserveOrder then restoreOrder h.requests.length (h.truncateOptimized rs).2
      else (h.truncateOptimized rs).2, ?_, hok2, rfl, rfl, hparts, ?_⟩
  · unfold truncate
    simp only [hok.notLocal, Bool.false_eq_true, if_false, hseek, bind, Except.bind, pure,
      Except.pure]
  have hpos : (h.truncateOptimized rs).2.map Prod.snd = out.map fun j => j.tag.1 := by
    rw [hreqs, List.map_map]
    exact map_congr_left fun j _ => snd_request j
  have hrestore := @restoreOrder_spec h.requests.length (h.truncateOptimized rs).2
    (hpos ▸ hnodup) (by
      intro r hr
      have hmem : r.2 ∈ (h.truncateOptimized rs).2.map Prod.snd := mem_map_of_mem hr
      rw [hpos] at hmem
      obtain ⟨j, hj, heq⟩ := List.mem_map.mp hmem
      exact heq ▸ hlt j hj)
  split_ifs with hpreserve
  · exact ⟨hrestore.1.trans (.of_eq hreqs), fun _ => hrestore.2⟩
  · exact ⟨.of_eq hreqs, fun h => absurd h hpreserve⟩

end MeshDB.KvCoord
