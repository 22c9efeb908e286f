import MeshDB.KvCoord.RangePartition

/-!
# The truncated requests partition the batch

Over all ranges the truncated requests of a request are disjoint and have exactly its keys, and
each call of `Truncate` returns what the legacy strategy returns.
-/
namespace MeshDB.KvCoord

open Roachpb Kvpb Sweep BatchTruncationHelper List Option
variable {dir : ScanDirection} {req pc : Request} {reqs : List Request} {cell : RSpan} {k : Key}
  {P : Partition} {visits : List Visit} {jobs : List (Part dir)}

/-! ## The keys of a truncated request -/

lemma mem_span_iff (h : RequestOk req) :
    Span.Mem k req.header.span ↔ req.header.key ≤ k ∧ k < requestStop req := by
  unfold requestStop
  split_ifs with hrange
  · exact Span.mem_of_not_isPoint (by rw [h.isPoint, hrange]; exact Bool.false_ne_true)
  rw [Span.mem_of_isPoint (by rw [h.isPoint]; simpa using hrange)]
  constructor
  · rintro rfl
    exact ⟨le_rfl, Key.lt_next _⟩
  · exact fun ⟨hle, hlt⟩ => (Key.le_of_lt_next hlt).antisymm hle

lemma containsKey_iff : cell.containsKey k ↔ cell.key ≤ k ∧ k < cell.endKey := by
  rw [RSpan.containsKey, Bool.and_eq_true, decide_eq_true_eq, decide_eq_true_eq]

lemma mem_of_clipRequest (h : RequestOk req) (hclip : clipRequest cell req = some pc) :
    Span.Mem k pc.header.span ↔ Span.Mem k req.header.span ∧ cell.containsKey k := by
  rw [mem_span_iff h, containsKey_iff]
  unfold clipRequest at hclip
  split_ifs at hclip with hlt
  cases hclip
  unfold piece
  split_ifs with hrange
  · obtain ⟨method, header, rfl⟩ : ∃ method header, req = .op method header := by
      cases req with
      | op method header => exact ⟨method, header, rfl⟩
      | endTxn et => cases hrange
      | queryIntent qi => cases hrange
    have hpoint := @Span.not_isPoint_of_lt ⟨max cell.key header.key,
        some (min cell.endKey (requestStop (.op method header)))⟩ _ hlt
    refine (Span.mem_of_not_isPoint hpoint).trans ?_
    show max cell.key header.key ≤ k ∧ k < min cell.endKey (requestStop (.op method header)) ↔ _
    rw [max_le_iff, lt_min_iff]
    exact ⟨fun ⟨⟨h1, h2⟩, h3, h4⟩ => ⟨⟨h2, h4⟩, h1, h3⟩,
      fun ⟨⟨h2, h4⟩, h1, h3⟩ => ⟨⟨h1, h2⟩, h3, h4⟩⟩
  rw [mem_span_iff h]
  have hstop : requestStop req = req.header.key.next := by rw [requestStop, if_neg hrange]
  rw [hstop, max_lt_iff, lt_min_iff, lt_min_iff] at hlt
  rw [hstop]
  refine ⟨fun hk => ⟨hk, ?_⟩, And.left⟩
  obtain rfl : k = req.header.key := (Key.le_of_lt_next hk.2).antisymm hk.1
  exact ⟨Key.le_of_lt_next hlt.1.2, hlt.2.1⟩

lemma clipRequest_isSome_iff (h : RequestOk req) : (clipRequest cell req).isSome ↔
    ∃ k, Span.Mem k req.header.span ∧ cell.containsKey k := by
  constructor
  · intro hsome
    obtain ⟨pc, hpc⟩ := isSome_iff_exists.mp hsome
    unfold clipRequest at hpc
    split_ifs at hpc with hlt
    rw [max_lt_iff, lt_min_iff, lt_min_iff] at hlt
    refine ⟨max cell.key req.header.key, (mem_span_iff h).mpr ⟨le_max_right _ _, ?_⟩,
      containsKey_iff.mpr ⟨le_max_left _ _, ?_⟩⟩
    · exact max_lt hlt.1.2 hlt.2.2
    · exact max_lt hlt.1.1 hlt.2.1
  rintro ⟨k, hk, hcell⟩
  rw [mem_span_iff h] at hk
  rw [containsKey_iff] at hcell
  have hlt : max cell.key req.header.key < min cell.endKey (requestStop req) :=
    (max_le hcell.1 hk.1).trans_lt (lt_min hcell.2 hk.2)
  rw [clipRequest, if_pos hlt]
  rfl

/-! ## The truncated requests of a range -/

def spanPieces (cell : RSpan) (reqs : List Request) : List (Request × ℕ) :=
  reqs.zipIdx.filterMap fun r => (clipRequest cell r.1).map fun pc => (pc, r.2)

lemma between_requestParts (dir : ScanDirection) (cell : RSpan) (reqs : List Request) :
    (between (nearEnd dir cell) (farEnd dir cell) (requestParts dir reqs)).map Part.request =
      spanPieces cell reqs := by
  unfold between requestParts spanPieces
  rw [filterMap_map, map_filterMap]
  exact filterMap_congr fun r _ => request_clip dir cell r

lemma mem_spanPieces {p : Request × ℕ} : p ∈ spanPieces cell reqs ↔
    ∃ req, reqs[p.2]? = some req ∧ clipRequest cell req = some p.1 := by
  unfold spanPieces
  rw [mem_filterMap]
  constructor
  · rintro ⟨⟨req, i⟩, hmem, heq⟩
    obtain ⟨pc, hpc, rfl⟩ := map_eq_some_iff.mp heq
    exact ⟨req, mem_zipIdx_iff_getElem?.mp hmem, hpc⟩
  rintro ⟨req, hget, hclip⟩
  exact ⟨(req, p.2), mem_zipIdx_iff_getElem?.mpr hget, by simp [hclip]⟩

def piecesAt (i : ℕ) (requests : List (Request × ℕ)) : List Request :=
  requests.filterMap fun p => if p.2 = i then some p.1 else none

def piecesOf (i : ℕ) (visits : List Visit) : List Request :=
  visits.flatMap fun v => piecesAt i v.requests

lemma filterMap_zipIdx_eq {α β : Type} (f : α → Option β) (l : List α) (i n : ℕ) :
    ((l.zipIdx n).filterMap fun r => if r.2 = n + i then f r.1 else none) =
      (l[i]?.bind f).toList := by
  induction l generalizing i n with
  | nil => rfl
  | cons a l ih =>
    rw [zipIdx_cons, filterMap_cons]
    cases i with
    | zero =>
      have hrest : ((l.zipIdx (n + 1)).filterMap fun r =>
          if r.2 = n + 0 then f r.1 else none) = [] := by
        refine filterMap_eq_nil_iff.mpr fun r hr => if_neg ?_
        have hle := (mem_zipIdx hr).1
        omega
      rw [hrest]
      rw [List.getElem?_cons_zero, bind_some, if_pos (Nat.add_zero n).symm]
      cases f a with
      | none => rfl
      | some b => rfl
    | succ i =>
      have heq : n + (i + 1) = n + 1 + i := by omega
      rw [if_neg (by simp), heq, ih]
      rfl

lemma piecesAt_eq {i : ℕ} (hget : reqs[i]? = some req) {requests : List (Request × ℕ)}
    (hperm : requests.Perm (spanPieces cell reqs)) :
    piecesAt i requests = (clipRequest cell req).toList := by
  have heq : piecesAt i (spanPieces cell reqs) = (clipRequest cell req).toList := by
    have hzip := filterMap_zipIdx_eq (clipRequest cell) reqs i 0
    rw [hget, bind_some, Nat.zero_add] at hzip
    rw [← hzip]
    unfold piecesAt spanPieces
    rw [filterMap_filterMap]
    refine filterMap_congr fun r _ => ?_
    cases clipRequest cell r.1 with
    | none => simp
    | some pc => rfl
  have hperm' : (piecesAt i requests).Perm (clipRequest cell req).toList := by
    rw [← heq]
    exact hperm.filterMap _
  cases hclip : clipRequest cell req with
  | none =>
    rw [hclip] at hperm'
    exact hperm'.eq_nil
  | some pc =>
    rw [hclip] at hperm'
    exact perm_singleton.mp hperm'

/-! ## The ranges of the loop -/

def hasPiece (reqs : List Request) (cell : RSpan) : Bool := !(spanPieces cell reqs).isEmpty

structure Truncated (reqs : List Request) (mustPreserveOrder : Bool) (v : Visit) : Prop where
  desc : v.requests.Perm (spanPieces v.desc reqs)
  rs : v.requests.Perm (spanPieces v.rs reqs)
  order : mustPreserveOrder → (v.requests.map Prod.snd).Pairwise (· < ·)

section
variable (hperm : jobs.Perm (requestParts dir reqs))
include hperm

lemma between_perm (cell : RSpan) :
    ((between (nearEnd dir cell) (farEnd dir cell) jobs).map Part.request).Perm
      (spanPieces cell reqs) := by
  rw [← between_requestParts dir]
  exact (hperm.filterMap _).map _

lemma visit_eq (cell : RSpan) :
    visit (nearEnd dir) (farEnd dir) jobs cell =
      if hasPiece reqs cell then some (cell, between (nearEnd dir cell) (farEnd dir cell) jobs)
      else none := by
  have hlength := (between_perm hperm cell).length_eq
  rw [length_map] at hlength
  unfold visit hasPiece
  simp only [List.isEmpty_iff, ← length_eq_zero_iff, hlength, Bool.not_eq_true',
    isEmpty_eq_false_iff, ne_eq]
  split_ifs <;> rfl

lemma filterMap_visit (cells : List RSpan) :
    cells.filterMap (visit (nearEnd dir) (farEnd dir) jobs) = (cells.filter (hasPiece reqs)).map
      fun cell => (cell, between (nearEnd dir cell) (farEnd dir cell) jobs) := by
  induction cells with
  | nil => rfl
  | cons cell cells ih =>
    rw [filterMap_cons, visit_eq hperm, filter_cons, ih]
    by_cases hpiece : hasPiece reqs cell
    · rw [if_pos hpiece, if_pos hpiece]
      rfl
    · rw [if_neg hpiece, if_neg hpiece]

end

lemma exists_of_forall₂ {α β : Type*} {R : α → β → Prop} {l : List α} {l' : List β}
    (h : List.Forall₂ R l l') {x : α} (hx : x ∈ l) : ∃ y ∈ l', R x y := by
  induction h with
  | nil => cases hx
  | cons hR _ ih =>
    rcases mem_cons.mp hx with rfl | hx
    · exact ⟨_, .head _, hR⟩
    obtain ⟨y, hy, hxy⟩ := ih hx
    exact ⟨y, mem_cons_of_mem _ hy, hxy⟩

variable {σ : Type} {st : σ} {cells : List RSpan}

lemma Looped.truncated {send : σ → Visit → Bool → σ × Bool}
    {mustPreserveOrder : Bool} {res : LoopResult σ}
    (hperm : jobs.Perm (requestParts dir reqs)) (h : Looped send jobs mustPreserveOrder st
      (cells.filterMap (visit (nearEnd dir) (farEnd dir) jobs)) res) :
    (∃ rest, cells.filter (hasPiece reqs) = res.visits.map Visit.desc ++ rest ∧
      (res.stopped = false → rest = [])) ∧
    ∀ v ∈ res.visits, Truncated reqs mustPreserveOrder v := by
  obtain ⟨sent, rest, heq, hall, hrest⟩ := h.walked
  rw [filterMap_visit hperm] at heq
  have hdesc : res.visits.map Visit.desc = sent.map Prod.fst := by
    rw [← List.forall₂_eq_eq_eq, List.forall₂_map_left_iff, List.forall₂_map_right_iff]
    exact hall.imp fun _ _ hm => hm.desc
  constructor
  · refine ⟨rest.map Prod.fst, ?_, fun hgo => by rw [hrest hgo]; rfl⟩
    rw [hdesc, ← map_append, ← heq, List.map_map]
    exact (map_id _).symm
  intro v hv
  obtain ⟨w, hw, hm⟩ := exists_of_forall₂ hall hv
  have hcell : w.2 = between (nearEnd dir w.1) (farEnd dir w.1) jobs := by
    have hmem : w ∈ sent ++ rest := mem_append_left _ hw
    rw [← heq] at hmem
    obtain ⟨cell, -, rfl⟩ := List.mem_map.mp hmem
    rfl
  refine ⟨?_, ?_, hm.order⟩
  · rw [hm.desc]
    exact hm.requests.trans (hcell ▸ between_perm hperm w.1)
  · exact hm.requests.trans (hm.span ▸ between_perm hperm v.rs)

/-! ## The truncated requests of a request -/

variable {mustPreserveOrder : Bool} {i : ℕ}

lemma piecesOf_eq (hget : reqs[i]? = some req)
    (h : ∀ v ∈ visits, Truncated reqs mustPreserveOrder v) :
    piecesOf i visits = (visits.map Visit.desc).filterMap fun cell => clipRequest cell req := by
  induction visits with
  | nil => rfl
  | cons v visits ih =>
    rw [map_cons, filterMap_cons, ← ih fun w hw => h w (.tail v hw)]
    unfold piecesOf
    rw [flatMap_cons, piecesAt_eq hget (h v (.head _)).desc]
    cases clipRequest v.desc req <;> rfl

lemma hasPiece_iff : hasPiece reqs cell ↔
    ∃ req ∈ reqs, (clipRequest cell req).isSome := by
  unfold hasPiece
  rw [Bool.not_eq_true', isEmpty_eq_false_iff_exists_mem]
  constructor
  · rintro ⟨p, hp⟩
    obtain ⟨req, hget, hclip⟩ := mem_spanPieces.mp hp
    exact ⟨req, mem_of_getElem? hget, by rw [hclip]; rfl⟩
  rintro ⟨req, hreq, hsome⟩
  obtain ⟨pc, hpc⟩ := isSome_iff_exists.mp hsome
  obtain ⟨i, hi⟩ := List.getElem?_of_mem hreq
  exact ⟨(pc, i), mem_spanPieces.mpr ⟨req, hi, hpc⟩⟩

lemma filterMap_filter_hasPiece (hreq : req ∈ reqs) (cells : List RSpan) :
    ((cells.filter (hasPiece reqs)).filterMap fun cell => clipRequest cell req) =
      cells.filterMap fun cell => clipRequest cell req := by
  rw [filterMap_filter]
  refine filterMap_congr fun cell _ => ?_
  split_ifs with hpiece
  · rfl
  cases hclip : clipRequest cell req with
  | none => rfl
  | some pc => exact absurd (hasPiece_iff.mpr ⟨req, hreq, by rw [hclip]; rfl⟩) hpiece

def Apart (cell cell' : RSpan) : Prop :=
  ∀ k, cell.containsKey k → ¬ cell'.containsKey k

lemma Partition.disjoint (P : Partition) (dir : ScanDirection) :
    (P.inOrder dir).Pairwise Apart := by
  have hranges : P.ranges.Pairwise Apart := by
    refine P.consecutive.pairwise.imp fun hle k hk hk' => ?_
    rw [containsKey_iff] at hk hk'
    exact (hk.2.trans_le (hle.trans hk'.1)).false
  cases dir with
  | ascending => exact hranges
  | descending =>
    exact pairwise_reverse.mpr (hranges.imp fun h k hk' hk => h k hk hk')

lemma Partition.exists_range (P : Partition) (h : RequestOk req)
    (hk : Span.Mem k req.header.span) : ∃ cell ∈ P.ranges, cell.containsKey k := by
  have hlt := ((mem_span_iff h).mp hk).2.trans_le h.stop_le
  obtain ⟨cell, hcell, hin⟩ := P.consecutive.exists_cell (not_lt.mp (Key.not_lt_nil k)) hlt
  exact ⟨cell, hcell, containsKey_iff.mpr hin⟩

lemma pairwise_clipRequest (h : RequestOk req)
    (hcells : cells.Pairwise Apart) :
    (cells.filterMap fun cell => clipRequest cell req).Pairwise fun pc pc' =>
      ∀ k, Span.Mem k pc.header.span → ¬ Span.Mem k pc'.header.span := by
  refine hcells.filterMap _ ?_
  intro cell cell' hdisjoint pc hpc pc' hpc' k hk hk'
  exact hdisjoint k ((mem_of_clipRequest h hpc).mp hk).2 ((mem_of_clipRequest h hpc').mp hk').2

lemma clipRequest_of_not_isRange (hrange : req.isRange = false)
    (hclip : clipRequest cell req = some pc) : pc = req := by
  unfold clipRequest at hclip
  split_ifs at hclip
  cases hclip
  rw [piece, hrange, if_neg Bool.false_ne_true]

/-! ## The partition -/

structure IsPartition (A : Addressing) (P : Partition) (dir : ScanDirection)
    (mustPreserveOrder : Bool) (reqs : List Request) (visits : List Visit) : Prop where
  /-- Ranges are visited once, in the order of the direction. -/
  ranges : (visits.map Visit.desc).Sublist (P.inOrder dir)
  /-- Exactly the ranges that some request has a key in are visited. -/
  visited : ∀ desc ∈ P.ranges, desc ∈ visits.map Visit.desc ↔
    ∃ req ∈ reqs, ∃ k, Span.Mem k req.header.span ∧ desc.containsKey k
  /-- A truncated request is its request with other keys, which are in the range. -/
  piece : ∀ v ∈ visits, ∀ p ∈ v.requests, ∃ req key endKey, reqs[p.2]? = some req ∧
    p.1 = piece req key endKey ∧ ∀ k, Span.Mem k p.1.header.span → v.desc.containsKey k
  disjoint : ∀ i, (piecesOf i visits).Pairwise fun pc pc' =>
    ∀ k, Span.Mem k pc.header.span → ¬ Span.Mem k pc'.header.span
  cover : ∀ i req, reqs[i]? = some req → ∀ k, Span.Mem k req.header.span ↔
    ∃ pc ∈ piecesOf i visits, Span.Mem k pc.header.span
  point : ∀ i req, reqs[i]? = some req → req.isRange = false → piecesOf i visits = [req]
  order : mustPreserveOrder → ∀ v ∈ visits, (v.requests.map Prod.snd).Pairwise (· < ·)
  legacy : ∀ v ∈ visits, ∃ requests, truncateLegacy A reqs v.rs = .ok requests ∧
    v.requests.Perm requests

lemma piecesOf_of_none (hget : reqs[i]? = none)
    (h : ∀ v ∈ visits, Truncated reqs mustPreserveOrder v) : piecesOf i visits = [] := by
  refine flatMap_eq_nil_iff.mpr fun v hv => filterMap_eq_nil_iff.mpr fun p hp => ?_
  obtain ⟨req, hreq, -⟩ := mem_spanPieces.mp ((h v hv).desc.mem_iff.mp hp)
  refine if_neg fun heq => ?_
  rw [heq, hget] at hreq
  cases hreq

lemma isPartition_of_truncated (A : Addressing) (hok : ∀ req ∈ reqs, RequestOk req)
    (hdesc : (P.inOrder dir).filter (hasPiece reqs) = visits.map Visit.desc)
    (htrunc : ∀ v ∈ visits, Truncated reqs mustPreserveOrder v) :
    IsPartition A P dir mustPreserveOrder reqs visits := by
  have hpieces : ∀ i req, reqs[i]? = some req →
      piecesOf i visits = (P.inOrder dir).filterMap fun cell => clipRequest cell req := by
    intro i req hget
    rw [piecesOf_eq hget htrunc, ← hdesc, filterMap_filter_hasPiece (mem_of_getElem? hget)]
  have hdisjoint : ∀ i, (piecesOf i visits).Pairwise fun pc pc' =>
      ∀ k, Span.Mem k pc.header.span → ¬ Span.Mem k pc'.header.span := by
    intro i
    cases hget : reqs[i]? with
    | none => exact piecesOf_of_none hget htrunc ▸ .nil
    | some req =>
      rw [hpieces i req hget]
      exact pairwise_clipRequest (hok req (mem_of_getElem? hget)) (P.disjoint dir)
  have hcover : ∀ i req, reqs[i]? = some req → ∀ k, Span.Mem k req.header.span ↔
      ∃ pc ∈ piecesOf i visits, Span.Mem k pc.header.span := by
    intro i req hget k
    have hreq := hok req (mem_of_getElem? hget)
    rw [hpieces i req hget]
    constructor
    · intro hk
      obtain ⟨cell, hcell, hin⟩ := P.exists_range hreq hk
      obtain ⟨pc, hpc⟩ := isSome_iff_exists.mp
        ((clipRequest_isSome_iff hreq).mpr ⟨k, hk, hin⟩)
      exact ⟨pc, mem_filterMap.mpr ⟨cell, P.mem_inOrder.mpr hcell, hpc⟩,
        (mem_of_clipRequest hreq hpc).mpr ⟨hk, hin⟩⟩
    rintro ⟨pc, hpc, hk⟩
    obtain ⟨cell, -, hclip⟩ := mem_filterMap.mp hpc
    exact ((mem_of_clipRequest hreq hclip).mp hk).1
  refine ⟨hdesc ▸ filter_sublist, ?_, ?_, hdisjoint, hcover, ?_,
    fun horder v hv => (htrunc v hv).order horder, ?_⟩
  · intro desc hmem
    rw [← hdesc, mem_filter, hasPiece_iff, P.mem_inOrder]
    constructor
    · rintro ⟨-, req, hreq, hsome⟩
      exact ⟨req, hreq, (clipRequest_isSome_iff (hok req hreq)).mp hsome⟩
    rintro ⟨req, hreq, hk⟩
    exact ⟨hmem, req, hreq, (clipRequest_isSome_iff (hok req hreq)).mpr hk⟩
  · intro v hv p hp
    obtain ⟨req, hget, hclip⟩ := mem_spanPieces.mp ((htrunc v hv).desc.mem_iff.mp hp)
    have hin : ∀ k, Span.Mem k p.1.header.span → v.desc.containsKey k :=
      fun k hk => ((mem_of_clipRequest (hok req (mem_of_getElem? hget)) hclip).mp hk).2
    unfold clipRequest at hclip
    split_ifs at hclip
    exact ⟨req, _, _, hget, (Option.some.inj hclip).symm, hin⟩
  · intro i req hget hrange
    have hreq := hok req (mem_of_getElem? hget)
    have hkey : Span.Mem req.header.key req.header.span :=
      (mem_span_iff hreq).mpr ⟨le_rfl, hreq.lt_stop⟩
    have hall : ∀ pc ∈ piecesOf i visits, pc = req := by
      intro pc hpc
      rw [hpieces i req hget] at hpc
      obtain ⟨cell, -, hclip⟩ := mem_filterMap.mp hpc
      exact clipRequest_of_not_isRange hrange hclip
    have hone := hdisjoint i
    obtain ⟨pc, hpc, -⟩ := (hcover i req hget req.header.key).mp hkey
    match hlist : piecesOf i visits with
    | [] => rw [hlist] at hpc; cases hpc
    | [pc] => rw [hall pc (hlist ▸ mem_singleton_self pc)]
    | pc :: pc' :: rest =>
      rw [hlist] at hone hall
      have hlt := rel_of_pairwise_cons hone (.head _) req.header.key
      rw [hall pc mem_cons_self, hall pc' (.tail pc (.head _))] at hlt
      exact absurd hkey (hlt hkey)
  · intro v hv
    refine ⟨_, @truncateLegacy_eq dir reqs A hok v.rs, ?_⟩
    rw [between_requestParts dir]
    exact (htrunc v hv).rs

lemma sends_not_stopped {st' : σ} {stopped : Bool}
    (h : Sends (fun (st : σ) (_ : Visit) (_ : Bool) => (st, false)) st visits st' stopped) :
    stopped = false := by
  induction h with
  | last st v lastRange => rfl
  | next hgo h ih => exact ih

/-- Truncating a batch along the ranges of a cluster ends, visits exactly the ranges with keys of
the batch, and partitions the requests. -/
theorem truncate_partitions_batch (A : Addressing) (P : Partition)
    {sort : List Entry → List Entry} (hsort : Sorts dir sort)
    (hok : ∀ req ∈ reqs, RequestOk req) (hne : reqs ≠ []) (mustPreserveOrder : Bool) :
    ∃ res, divideBatch A sort P.ranges dir mustPreserveOrder (fun st _ _ => (st, false)) ()
        reqs = .ok res ∧
      IsPartition A P dir mustPreserveOrder reqs res.visits := by
  obtain ⟨res, jobs, hres, hperm, -, hlooped⟩ :=
    divideBatch_spec A P hsort hok hne mustPreserveOrder (fun st _ _ => (st, false)) ()
  obtain ⟨⟨rest, hdesc, hrest⟩, htrunc⟩ := hlooped.truncated hperm
  rw [hrest (sends_not_stopped hlooped.sends), append_nil] at hdesc
  exact ⟨res, hres, isPartition_of_truncated A hok hdesc htrunc⟩

/-! ## Examples -/

def sortEntries (dir : ScanDirection) (es : List Entry) : List Entry :=
  es.insertionSort fun e e' => less dir e' e = false

lemma sorts_sortEntries (dir : ScanDirection) : Sorts dir (sortEntries dir) := by
  have htotal : Std.Total fun e e' : Entry => less dir e' e = false := by
    constructor
    intro e e'
    cases dir <;> simp only [less, decide_eq_false_iff_not, not_lt] <;> exact le_total _ _
  have htrans : IsTrans Entry fun e e' => less dir e' e = false := by
    constructor
    intro e e' e''
    cases dir <;> simp only [less, decide_eq_false_iff_not, not_lt]
    · exact fun h h' => h.trans h'
    · exact fun h h' => h'.trans h
  exact fun es => ⟨perm_insertionSort _ es, pairwise_insertionSort _ es⟩

def globalAddressing : Addressing where
  addr := .ok
  addrUpperBound := .ok
  makeRangeKeyPrefix := id
  addr_global _ _ := rfl
  addrUpperBound_global _ _ := rfl

def splitAt (b : Byte) (hlocal : isLocalKey [b] = false) (hmax : ([b] : Key) < keyMax) :
    Partition where
  ranges := [⟨keyMin, [b]⟩, ⟨[b], keyMax⟩]
  consecutive := ⟨rfl, nil_lt_cons b [], rfl, hmax, rfl⟩
  isLocalKey := by
    intro desc hdesc
    rcases mem_cons.mp hdesc with rfl | hdesc
    · exact ⟨rfl, hlocal⟩
    rw [mem_singleton.mp hdesc]
    exact ⟨hlocal, rfl⟩

theorem truncate_partitions_two_ranges :
    ∃ res, divideBatch globalAddressing (sortEntries .descending)
        (splitAt 5 (by decide) (by decide)).ranges .descending true (fun st _ _ => (st, false)) ()
        [.op (.get false) ⟨[5], none, 0⟩, .op (.reverseScan false) ⟨[3], some [8], 0⟩] = .ok res ∧
      IsPartition globalAddressing (splitAt 5 (by decide) (by decide)) .descending true
        [.op (.get false) ⟨[5], none, 0⟩, .op (.reverseScan false) ⟨[3], some [8], 0⟩]
        res.visits := by
  refine truncate_partitions_batch globalAddressing _ (sorts_sortEntries .descending) ?_
    (cons_ne_nil _ _) true
  intro req hreq
  rcases mem_cons.mp hreq with rfl | hreq
  · exact ⟨rfl, rfl, nofun, nofun, by decide⟩
  rw [mem_singleton.mp hreq]
  exact ⟨rfl, rfl, fun _ => by decide, fun _ => rfl, by decide⟩

end MeshDB.KvCoord
