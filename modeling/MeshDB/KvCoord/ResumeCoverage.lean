import MeshDB.KvCoord.CombinedResponses

/-!
# Limited batches resume where they stopped

The keys that the ranges completed and the keys of the resume spans are disjoint and together
the keys of the requests.
-/
namespace MeshDB.KvCoord

open Roachpb Kvpb Sweep BatchTruncationHelper Option List
variable {dir : ScanDirection} {req : Request} {reqs : List Request} {k : Key} {i : ℕ}
  {x : Cut dir} {e : Visit × List ReadResponse} {init : List (Visit × List ReadResponse)}
  {P : Partition} {jobs : List (Part dir)}

/-! ## Completed keys -/

/-- The range has the key in a part of the request, and not in the resume span it returned. -/
def CompletedIn (e : Visit × List ReadResponse) (i : ℕ) (k : Key) : Prop :=
  ∃ p ∈ e.1.requests.zip e.2, p.1.2 = i ∧ Span.Mem k p.1.1.header.span ∧
    ¬ InSpan k p.2.header.resumeSpan

def Completed (replies : List (Visit × List ReadResponse)) (i : ℕ) (k : Key) : Prop :=
  ∃ e ∈ replies, CompletedIn e i k

/-- The range that replied last starts at the key and completed the request there, and the batch
goes on right below the key. -/
def CompletedAtBoundary (reqs : List Request) (replies : List (Visit × List ReadResponse)) (i : ℕ)
    (k : Key) : Prop :=
  ∃ e, replies.getLast? = some e ∧ e.1.desc.key = k ∧ CompletedIn e i k ∧
    ∃ req ∈ reqs, req.header.key < k ∧ k ≤ requestStop req

lemma Replied.resumeAt_eq (he : Replied dir reqs e) {p : (Request × ℕ) × ReadResponse}
    (hp : p ∈ e.1.requests.zip e.2) : resumeAt p.1.2 e = p.2.header.resumeSpan := by
  have hnodup : ((e.1.requests.zip e.2).map fun p => p.1.2).Nodup := by
    have hmap := congrArg (List.map Prod.snd) (map_fst_zip he.responds.length_eq.le)
    rw [List.map_map] at hmap
    refine hmap ▸ ?_
    exact (he.truncated.desc.map Prod.snd).nodup_iff.mpr (nodup_spanPieces _ _)
  unfold resumeAt
  cases hfind : (e.1.requests.zip e.2).find? fun q => q.1.2 == p.1.2 with
  | none => exact absurd (by simp) (find?_eq_none.mp hfind p hp)
  | some q =>
    have heq : q.1.2 = p.1.2 := by simpa using find?_some hfind
    rw [inj_on_of_nodup_map hnodup (mem_of_find?_eq_some hfind) hp heq]
    rfl

lemma completedIn_iff (hreq : RequestOk req) (hget : reqs[i]? = some req)
    (he : Replied dir reqs e) : CompletedIn e i k ↔
      Span.Mem k req.header.span ∧ e.1.desc.containsKey k ∧ ¬ InSpan k (resumeAt i e) := by
  constructor
  · rintro ⟨p, hp, rfl, hk, hresume⟩
    obtain ⟨req', hget', hclip⟩ :=
      mem_spanPieces.mp (he.truncated.desc.mem_iff.mp (of_mem_zip hp).1)
    obtain rfl := Option.some.inj (hget'.symm.trans hget)
    rw [he.resumeAt_eq hp]
    exact ⟨((mem_of_clipRequest hreq hclip).mp hk).1, ((mem_of_clipRequest hreq hclip).mp hk).2,
      hresume⟩
  rintro ⟨hk, hcell, hresume⟩
  obtain ⟨pc, hpc⟩ := isSome_iff_exists.mp
    ((clipRequest_isSome_iff hreq).mpr ⟨k, hk, hcell⟩)
  have hmem : (pc, i) ∈ e.1.requests :=
    he.truncated.desc.mem_iff.mpr (mem_spanPieces.mpr ⟨req, hget, hpc⟩)
  rw [← map_fst_zip he.responds.length_eq.le] at hmem
  obtain ⟨p, hp, heq⟩ := mem_map.mp hmem
  obtain ⟨rfl, rfl⟩ := Prod.mk.inj heq
  rw [he.resumeAt_eq hp] at hresume
  exact ⟨_, hp, rfl, (mem_of_clipRequest hreq hpc).mpr ⟨hk, hcell⟩, hresume⟩

/-! ## Exact resume spans -/

/-- The completed keys and those of the resume span are disjoint and together those of the request.
-/
structure Resumes (req : Request) (completed : Key → Prop) (resp : ReadResponse) : Prop where
  disjoint : ∀ k, completed k → ¬ InSpan k resp.header.resumeSpan
  cover : ∀ k, Span.Mem k req.header.span ↔ completed k ∨ InSpan k resp.header.resumeSpan
  actualSpan : ∀ k, InSpan k (actualSpan req (some resp.toResponse)) ↔
    Span.Mem k req.header.span ∧ ¬ InSpan k resp.header.resumeSpan

lemma resumes_of_completed (hreq : RequestOk req) {resp : ReadResponse} {completed : Key → Prop}
    (hresume : resp.header.resumeSpan = none ∨
      ∃ x : Cut dir, resp.header.resumeSpan = restSpan x req)
    (hcompleted : ∀ k, completed k ↔
      Span.Mem k req.header.span ∧ ¬ InSpan k resp.header.resumeSpan) :
    Resumes req completed resp := by
  have hmem : ∀ k, InSpan k resp.header.resumeSpan → Span.Mem k req.header.span := by
    intro k hk
    rcases hresume with hnone | ⟨x, hx⟩
    · rw [hnone] at hk
      exact absurd hk not_inSpan_none
    rw [hx] at hk
    exact ((inSpan_restSpan hreq).mp hk).1
  refine ⟨fun k hk => ((hcompleted k).mp hk).2, fun k => ?_, fun k => ?_⟩
  · rw [hcompleted]
    by_cases hk : InSpan k resp.header.resumeSpan
    · exact ⟨fun _ => .inr hk, fun _ => hmem k hk⟩
    · exact ⟨fun h => .inl ⟨h, hk⟩, fun h => (h.resolve_right hk).1⟩
  rcases hresume with hnone | ⟨x, hx⟩
  · rw [actualSpan_of_none hnone, inSpan_some, hnone]
    exact ⟨fun hk => ⟨hk, not_inSpan_none⟩, And.left⟩
  rw [inSpan_actualSpan hreq hx, hx, inSpan_restSpan hreq]
  exact ⟨fun h => ⟨h.1, fun h' => h'.2 h.2⟩, fun h => ⟨h.1, by_contra fun hx => h.2 ⟨h.1, hx⟩⟩⟩

/-! ## The ranges before a point -/

variable {rest : List RSpan} {br : List (Option ReadResponse)} {limits : Limits}
  {sort : List Entry → List Entry}

lemma exists_cell {cells : List RSpan} (hreq : RequestOk req) (hmem : req ∈ reqs)
    (hdesc : (P.inOrder dir).filter (hasPiece reqs) = cells) (hk : Span.Mem k req.header.span) :
    ∃ cell ∈ cells, cell.containsKey k := by
  obtain ⟨cell, hcell, hin⟩ := P.exists_range hreq hk
  exact ⟨cell, hdesc ▸ mem_filter.mpr ⟨P.mem_inOrder.mpr hcell, hasPiece_iff.mpr ⟨req, hmem,
    (clipRequest_isSome_iff hreq).mpr ⟨k, hk, hin⟩⟩⟩, hin⟩

lemma nearEnd_le_farEnd
    (hdesc : (P.inOrder dir).filter (hasPiece reqs) =
      (init ++ [e]).map (fun e => e.1.desc) ++ rest) :
    nearEnd dir e.1.desc ≤ farEnd dir e.1.desc ∧ farEnd dir e.1.desc ≤ lastCut dir := by
  have hmem : e.1.desc ∈ (P.inOrder dir).filter (hasPiece reqs) := by
    rw [hdesc]
    exact mem_append_left _ (mem_map.mpr ⟨e, by simp, rfl⟩)
  have hcell := (mem_filter.mp hmem).1
  exact ⟨((P.consecutive_inOrder dir).lt _ hcell).le, (P.consecutive_inOrder dir).far_le.2 _ hcell⟩

lemma visited_iff (hok : ∀ req ∈ reqs, RequestOk req)
    (hdesc : (P.inOrder dir).filter (hasPiece reqs) = (init ++ [e]).map (fun e => e.1.desc) ++ rest)
    (hreq : req ∈ reqs) (hk : Span.Mem k req.header.span) :
    ((∃ e' ∈ init, e'.1.desc.containsKey k) → Processed (nearEnd dir e.1.desc) k) ∧
      ((∃ e' ∈ init ++ [e], e'.1.desc.containsKey k) ↔ Processed (farEnd dir e.1.desc) k) :=
    by
  have hpair : ((init ++ [e]).map (fun e => e.1.desc) ++ rest).Pairwise fun cell next =>
      farEnd dir cell ≤ nearEnd dir next := by
    rw [← hdesc]
    exact (P.consecutive_inOrder dir).pairwise.sublist filter_sublist
  have hinit : ∀ e' ∈ init, e'.1.desc.containsKey k → Processed (nearEnd dir e.1.desc) k := by
    intro e' he' hcell
    have hle : farEnd dir e'.1.desc ≤ nearEnd dir e.1.desc := by
      rw [map_append] at hpair
      exact (pairwise_append.mp (pairwise_append.mp hpair).1).2.2 _
        (mem_map.mpr ⟨e', he', rfl⟩) _ (.head _)
    exact (containsKey_iff_processed.mp hcell).1.mono hle
  refine ⟨fun ⟨e', he', hcell⟩ => hinit e' he' hcell, ?_, ?_⟩
  · rintro ⟨e', he', hcell⟩
    rcases mem_append.mp he' with he' | he'
    · exact (hinit e' he' hcell).mono (nearEnd_le_farEnd hdesc).1
    rw [mem_singleton.mp he'] at hcell
    exact (containsKey_iff_processed.mp hcell).1
  intro hprocessed
  obtain ⟨cell, hmem, hin⟩ := exists_cell (hok req hreq) hreq hdesc hk
  rcases mem_append.mp hmem with hmem | hmem
  · obtain ⟨e', he', rfl⟩ := mem_map.mp hmem
    exact ⟨e', he', hin⟩
  have hle := (pairwise_append.mp hpair).2.2 e.1.desc
    (mem_map.mpr ⟨e, by simp, rfl⟩) cell hmem
  exact absurd (hprocessed.mono hle) (containsKey_iff_processed.mp hin).2

/-- The completed keys are those before the point where the last range resumes. -/
lemma completed_iff (hok : ∀ req ∈ reqs, RequestOk req)
    (hdesc : (P.inOrder dir).filter (hasPiece reqs) = (init ++ [e]).map (fun e => e.1.desc) ++ rest)
    (hreplied : ∀ e' ∈ init ++ [e], Replied dir reqs e') (hinit : ∀ e' ∈ init, Complete e'.2)
    (hget : reqs[i]? = some req) (hnear : nearEnd dir e.1.desc ≤ x) (hfar : x ≤ farEnd dir e.1.desc)
    (hx : ∀ k, Span.Mem k req.header.span → e.1.desc.containsKey k →
      (InSpan k (resumeAt i e) ↔ ¬ Processed x k)) :
    Completed (init ++ [e]) i k ↔ Span.Mem k req.header.span ∧ Processed x k := by
  have hreq := mem_of_getElem? hget
  constructor
  · rintro ⟨e', he', hcompleted⟩
    obtain ⟨hk, hcell, hresume⟩ :=
      (completedIn_iff (hok req hreq) hget (hreplied e' he')).mp hcompleted
    refine ⟨hk, ?_⟩
    rcases mem_append.mp he' with he' | he'
    · exact ((visited_iff hok hdesc hreq hk).1 ⟨e', he', hcell⟩).mono hnear
    rw [mem_singleton.mp he'] at hcell hresume
    exact not_not.mp fun hnot => hresume ((hx k hk hcell).mpr hnot)
  rintro ⟨hk, hprocessed⟩
  obtain ⟨e', he', hcell⟩ := (visited_iff hok hdesc hreq hk).2.mpr (hprocessed.mono hfar)
  refine ⟨e', he', (completedIn_iff (hok req hreq) hget (hreplied e' he')).mpr ⟨hk, hcell, ?_⟩⟩
  rcases mem_append.mp he' with hmem | hmem
  · rw [resumeAt_of_complete (hinit e' hmem)]
    exact not_inSpan_none
  rw [mem_singleton.mp hmem] at hcell ⊢
  exact fun hin => (hx k hk hcell).mp hin hprocessed

/-! ## The key at which the loop stops -/

lemma nextKey_seekKeyOf (hperm : jobs.Perm (requestParts dir reqs)) (hordered : Ordered jobs)
    (hget : reqs[i]? = some req) (hx : x ≤ lastCut dir) :
    NextKey req x (seekKeyOf (left x jobs)) := by
  have hcut : ∀ j js, cut dir (seekKeyOf (j :: js : List (Part dir))) = j.lo := by
    intro j js
    cases dir <;> rfl
  have hord := ordered_left hordered x
  have hmem : x < (requestPart dir (req, i)).hi →
      { requestPart dir (req, i) with lo := max x (requestPart dir (req, i)).lo } ∈ left x jobs :=
    fun hlt => mem_left.mpr ⟨_, hperm.mem_iff.mpr (mem_requestParts.mpr ⟨req, i, hget, rfl⟩),
      hlt, rfl⟩
  have hends : (requestPart dir (req, i)).hi = (requestPart dir (req, 0)).hi ∧
      (requestPart dir (req, i)).lo = (requestPart dir (req, 0)).lo := by
    cases dir <;> exact ⟨rfl, rfl⟩
  rw [hends.1, hends.2] at hmem
  cases hleft : left x jobs with
  | nil =>
    rw [hleft] at hmem
    refine ⟨?_, fun hlt => absurd (hmem hlt) not_mem_nil⟩
    cases dir <;> exact hx
  | cons j js =>
    rw [hleft] at hmem hord
    refine ⟨?_, fun hlt => ?_⟩
    · have hj : j ∈ left x jobs := hleft ▸ mem_cons_self
      obtain ⟨i, -, -, rfl⟩ := mem_left.mp hj
      rw [hcut]
      exact le_max_left _ _
    rw [hcut]
    exact hord.head_le _ (hmem hlt)

/-- In reverse it is the start of the last range if the batch goes on right below it. -/
lemma seekKeyOf_eq_iff {jobs : List (Part .descending)}
    (hperm : jobs.Perm (requestParts .descending reqs)) (hordered : Ordered jobs)
    (hk : k ≠ keyMin) :
    seekKeyOf (left (cut .descending k) jobs) = k ↔
      ∃ req ∈ reqs, req.header.key < k ∧ k ≤ requestStop req := by
  constructor
  · intro heq
    cases hleft : left (cut .descending k) jobs with
    | nil =>
      rw [hleft] at heq
      exact absurd heq.symm hk
    | cons j js =>
      rw [hleft] at heq
      have hj : j ∈ left (cut .descending k) jobs := hleft ▸ mem_cons_self
      obtain ⟨part, hpart, hlt, rfl⟩ := mem_left.mp hj
      obtain ⟨req, n, hget, rfl⟩ := mem_requestParts.mp (hperm.mem_iff.mp hpart)
      refine ⟨req, mem_of_getElem? hget, hlt, ?_⟩
      have hmin : min k (requestStop req) = k := heq
      exact min_eq_left_iff.mp hmin
  rintro ⟨req, hreq, hlt, hle⟩
  obtain ⟨n, hget⟩ := mem_iff_getElem?.mp hreq
  have hlast : cut .descending k ≤ lastCut .descending := not_lt.mp (Key.not_lt_nil k)
  have hnext := nextKey_seekKeyOf hperm hordered hget hlast
  have hrest : min k (requestStop req) ≤ seekKeyOf (left (cut .descending k) jobs) :=
    hnext.le_rest hlt
  rw [min_eq_left hle] at hrest
  exact le_antisymm hnext.le hrest

/-! ## Whole batches -/

lemma slots_nil (reqs : List Request) :
    Slots reqs [] (fun _ => none) (reqs.map fun _ => none) := by
  have hslot : ∀ i : ℕ, ((reqs.map fun _ => (none : Option ReadResponse))[i]?.join) = none := by
    intro i
    rw [List.getElem?_map]
    cases reqs[i]? <;> rfl
  refine ⟨length_map _, fun i req _ => ?_, fun i => ?_⟩
  · rw [hslot]
    simp
  rw [slotResume, hslot]
  rfl

lemma resumeSpan_fillSkippedResponse (nextKey : Key) (reason : ResumeReason) (isReverse : Bool)
    (req : Request) (resp : Option ReadResponse) :
    (fillSkippedResponse nextKey reason isReverse req resp).header.resumeSpan =
      (maybeSetResumeSpan req (resp.getD {}).header nextKey isReverse).resumeSpan := by
  unfold fillSkippedResponse
  dsimp only
  split_ifs <;> rfl

def Answers (dir : ScanDirection) (respond : Limits → Visit → List ReadResponse) : Prop :=
  ∀ limits v, List.Forall₂ (fun p resp => Responds dir p.1 resp) v.requests (respond limits v)

variable {respond : Limits → Visit → List ReadResponse}

/-- The batches and replies of a loop over the ranges, up to the last one. -/
structure Logged (dir : ScanDirection) (P : Partition) (reqs : List Request)
    (init : List (Visit × List ReadResponse)) (e : Visit × List ReadResponse) (stopped : Bool) :
    Prop where
  desc : ∃ rest, (P.inOrder dir).filter (hasPiece reqs) =
    (init ++ [e]).map (fun e => e.1.desc) ++ rest ∧ (stopped = false → rest = [])
  replied : ∀ e' ∈ init ++ [e], Replied dir reqs e'
  complete : ∀ e' ∈ init, Complete e'.2
  last : stopped = false → Complete e.2

lemma Logged.le {stopped : Bool} (h : Logged dir P reqs init e stopped) :
    nearEnd dir e.1.desc ≤ farEnd dir e.1.desc ∧ farEnd dir e.1.desc ≤ lastCut dir := by
  obtain ⟨rest, hdesc, -⟩ := h.desc
  exact nearEnd_le_farEnd hdesc

lemma Logged.resumes_of_not_stopped (h : Logged dir P reqs init e false)
    (hok : ∀ req ∈ reqs, RequestOk req)
    (hslots : Slots reqs ((init ++ [e]).map fun e => e.1.desc) (fun i => resumeAt i e) br)
    (hget : reqs[i]? = some req) :
    ∃ resp, br[i]? = some (some resp) ∧ Resumes req (Completed (init ++ [e]) i) resp := by
  obtain ⟨rest, hdesc, hrest⟩ := h.desc
  have hmem := mem_of_getElem? hget
  have hreq := hok req hmem
  have hnone := resumeAt_of_complete (h.last rfl) i
  have hvisited : ∀ k, Span.Mem k req.header.span →
      ∃ e' ∈ init ++ [e], e'.1.desc.containsKey k := by
    intro k hk
    obtain ⟨cell, hcell, hin⟩ := exists_cell hreq hmem hdesc hk
    rw [hrest rfl, append_nil] at hcell
    obtain ⟨e', he', rfl⟩ := mem_map.mp hcell
    exact ⟨e', he', hin⟩
  have hkey : Span.Mem req.header.key req.header.span :=
    (mem_span_iff hreq).mpr ⟨le_rfl, hreq.lt_stop⟩
  obtain ⟨e', he', hin⟩ := hvisited _ hkey
  have hsome := (hslots.filled i req hget).mpr ⟨e'.1.desc, mem_map.mpr ⟨e', he', rfl⟩,
    (clipRequest_isSome_iff hreq).mpr ⟨_, hkey, hin⟩⟩
  obtain ⟨resp, hresp⟩ := isSome_iff_exists.mp hsome
  have hresume : resp.header.resumeSpan = none := by
    have hslot := hslots.resume i
    rw [slotResume, hresp] at hslot
    exact hslot.trans hnone
  refine ⟨resp, join_eq_some_iff.mp hresp, ?_⟩
  refine @resumes_of_completed dir _ hreq _ _ (.inl hresume) fun k => ?_
  rw [completed_iff hok hdesc h.replied h.complete hget h.le.1 le_rfl, hresume]
  · refine and_congr_right fun hk => iff_of_true ?_ not_inSpan_none
    exact (visited_iff hok hdesc hmem hk).2.mp (hvisited k hk)
  intro k hk hcell
  rw [hnone]
  exact iff_of_false not_inSpan_none (not_not.mpr (containsKey_iff_processed.mp hcell).1)

lemma Replied.remainder (he : Replied dir reqs e) (hget : reqs[i]? = some req) {sp : Span}
    (hspan : resumeAt i e = some sp) :
    ∃ pc, clipRequest e.1.desc req = some pc ∧ Remainder dir pc sp := by
  obtain ⟨p, hfind, hsp⟩ := bind_eq_some_iff.mp hspan
  have hp := mem_of_find?_eq_some hfind
  have hpos : p.1.2 = i := by simpa using find?_some hfind
  obtain ⟨req', hget', hclip⟩ :=
    mem_spanPieces.mp (he.truncated.desc.mem_iff.mp (of_mem_zip hp).1)
  rw [hpos] at hget'
  obtain rfl := Option.some.inj (hget'.symm.trans hget)
  exact ⟨p.1.1, hclip, (forall₂_iff_zip.mp he.responds).2 hp sp hsp⟩

lemma Slots.resumeSpan_getD {resume : ℕ → Option Span} {seen : List RSpan}
    (hslots : Slots reqs seen resume br) {slot : Option ReadResponse}
    (hslot : br[i]? = some slot) : (slot.getD {}).header.resumeSpan = resume i := by
  rw [← hslots.resume i, slotResume, hslot]
  cases slot <;> rfl

lemma Logged.resumes_of_stopped (h : Logged dir P reqs init e true)
    (hok : ∀ req ∈ reqs, RequestOk req) (hread : IsRead dir req)
    (hslots : Slots reqs ((init ++ [e]).map fun e => e.1.desc) (fun i => resumeAt i e) br)
    (hget : reqs[i]? = some req) {slot : Option ReadResponse} (hslot : br[i]? = some slot)
    {nextKey : Key} (hnext : NextKey req (farEnd dir e.1.desc) nextKey)
    (hne : dir = .descending → req.isGet → resumeAt i e = none → nextKey ≠ req.header.key)
    (reason : ResumeReason) :
    Resumes req (Completed (init ++ [e]) i)
      (fillSkippedResponse nextKey reason (isReverseOf dir) req slot) := by
  obtain ⟨rest, hdesc, -⟩ := h.desc
  have hreq := hok req (mem_of_getElem? hget)
  have hresume : (slot.getD {}).header.resumeSpan = resumeAt i e := hslots.resumeSpan_getD hslot
  have hpoint : ∃ x : Cut dir,
      (maybeSetResumeSpan req (slot.getD {}).header nextKey (isReverseOf dir)).resumeSpan =
        restSpan x req ∧
      nearEnd dir e.1.desc ≤ x ∧ x ≤ farEnd dir e.1.desc ∧
      ∀ k, Span.Mem k req.header.span → e.1.desc.containsKey k →
        (InSpan k (resumeAt i e) ↔ ¬ Processed x k) := by
    cases hspan : resumeAt i e with
    | none =>
      refine ⟨_, maybeSetResumeSpan_of_none hreq hread (hresume.trans hspan) hnext
        fun hdir hisGet => hne hdir hisGet hspan, h.le.1, le_rfl, fun k hk hcell => ?_⟩
      exact iff_of_false not_inSpan_none (not_not.mpr (containsKey_iff_processed.mp hcell).1)
    | some sp =>
      obtain ⟨pc, hclip, hrem⟩ := (h.replied e (by simp)).remainder hget hspan
      obtain ⟨x, hx, hnear, hfar, hkeys⟩ := maybeSetResumeSpan_of_some hreq hread hclip hrem
        (hresume.trans hspan) nextKey
      exact ⟨x, hx, hnear, hfar, fun k hk hcell => inSpan_some.trans (hkeys k hk hcell)⟩
  obtain ⟨x, hx, hnear, hfar, hkeys⟩ := hpoint
  have hfill := (resumeSpan_fillSkippedResponse nextKey reason (isReverseOf dir) req slot).trans hx
  refine resumes_of_completed hreq (.inr ⟨x, hfill⟩) fun k => ?_
  rw [completed_iff hok hdesc h.replied h.complete hget hnear hfar hkeys, hfill,
    inSpan_restSpan hreq]
  refine and_congr_right fun hk => ?_
  exact ⟨fun hprocessed hin => hin.2 hprocessed,
    fun hnot => not_not.mp fun hprocessed => hnot ⟨hk, hprocessed⟩⟩

lemma CompletedIn.resumeAt_eq_none (h : CompletedIn e i k) (hreq : RequestOk req)
    (he : Replied dir reqs e) (hget : reqs[i]? = some req) (hrange : req.isRange = false) :
    resumeAt i e = none := by
  obtain ⟨hk, -, hresume⟩ := (completedIn_iff hreq hget he).mp h
  cases hspan : resumeAt i e with
  | none => rfl
  | some sp =>
    obtain ⟨pc, hclip, hrem⟩ := he.remainder hget hspan
    rw [clipRequest_of_not_isRange hrange hclip] at hrem
    unfold Remainder at hrem
    rw [if_neg (by simp [hrange])] at hrem
    have hkey : k = req.header.key := by
      refine (Span.mem_of_isPoint ?_).mp hk
      rw [hreq.isPoint, hrange]
      rfl
    rw [hspan, hrem, inSpan_some, mem_point_span] at hresume
    exact absurd hkey hresume

/-- A `Get` that the last range completed at the next key is resumed there. -/
lemma not_resumes_of_nextKey (hreq : RequestOk req) (hisGet : req.isGet) (hread : IsRead dir req)
    (he : Replied dir reqs e) (hget : reqs[i]? = some req)
    (hcompleted : CompletedIn e i req.header.key) {slot : Option ReadResponse}
    (hslot : (slot.getD {}).header.resumeSpan = resumeAt i e) (reason : ResumeReason) :
    ¬ Resumes req (Completed (init ++ [e]) i)
      (fillSkippedResponse req.header.key reason true req slot) := by
  intro h
  have hrange : req.isRange = false := by simpa [hisGet] using hread.isGet
  refine h.disjoint req.header.key ⟨e, by simp, hcompleted⟩ ?_
  rw [hcompleted.resumeAt_eq_none hreq he hget hrange] at hslot
  rw [resumeSpan_fillSkippedResponse]
  simp only [maybeSetResumeSpan, hisGet, hslot, if_true, Option.isSome_none, Bool.false_eq_true,
    if_false, lt_irrefl]
  exact inSpan_some.mpr (mem_point_span.mpr rfl)

/-- The batch does not go on below the last range once all ranges were visited. -/
lemma Logged.not_below (h : Logged .descending P reqs init e false)
    (hok : ∀ req ∈ reqs, RequestOk req) (hreq : req ∈ reqs) :
    e.1.desc.key ≤ req.header.key := by
  obtain ⟨rest, hdesc, hrest⟩ := h.desc
  have hkey : Span.Mem req.header.key req.header.span :=
    (mem_span_iff (hok req hreq)).mpr ⟨le_rfl, (hok req hreq).lt_stop⟩
  obtain ⟨cell, hcell, hin⟩ := exists_cell (hok req hreq) hreq hdesc hkey
  rw [hrest rfl, append_nil] at hcell
  obtain ⟨e', he', rfl⟩ := mem_map.mp hcell
  exact (visited_iff hok hdesc hreq hkey).2.mp ⟨e', he', hin⟩

/-- The loop stops at the key of a `Get` that the last range completed only if the range starts
there and the batch goes on below. -/
lemma completedAtBoundary_of_nextKey {jobs : List (Part .descending)}
    (hperm : jobs.Perm (requestParts .descending reqs)) (hordered : Ordered jobs)
    (h : Logged .descending P reqs init e true) (hok : ∀ req ∈ reqs, RequestOk req)
    (hget : reqs[i]? = some req) (hkey : req.header.key ≠ keyMin) (hnone : resumeAt i e = none)
    (hnext : seekKeyOf (left (farEnd .descending e.1.desc) jobs) = req.header.key) :
    CompletedAtBoundary reqs (init ++ [e]) i req.header.key := by
  have hreq := hok req (mem_of_getElem? hget)
  have hle := (nextKey_seekKeyOf hperm hordered hget h.le.2).le
  have hrest := (nextKey_seekKeyOf hperm hordered hget h.le.2).le_rest
  rw [hnext] at hle hrest
  replace hle : req.header.key ≤ e.1.desc.key := hle
  replace hrest : req.header.key < e.1.desc.key →
    min e.1.desc.key (requestStop req) ≤ req.header.key := hrest
  have hstart : e.1.desc.key = req.header.key := by
    refine le_antisymm (not_lt.mp fun hlt => ?_) hle
    exact absurd (hrest hlt) (not_le.mpr (lt_min hlt hreq.lt_stop))
  have hspan : Span.Mem req.header.key req.header.span :=
    (mem_span_iff hreq).mpr ⟨le_rfl, hreq.lt_stop⟩
  have hcell : e.1.desc.containsKey req.header.key := by
    obtain ⟨rest, hdesc, -⟩ := h.desc
    have hmem : e.1.desc ∈ (P.inOrder .descending).filter (hasPiece reqs) := by
      rw [hdesc]
      exact mem_append_left _ (mem_map.mpr ⟨e, by simp, rfl⟩)
    have hlt := (P.consecutive_inOrder .descending).lt _ (mem_filter.mp hmem).1
    exact containsKey_iff.mpr ⟨hstart.le, hstart ▸ hlt⟩
  refine ⟨e, getLast?_concat, hstart, ?_, ?_⟩
  · refine (completedIn_iff hreq hget (h.replied e (by simp))).mpr ⟨hspan, hcell, ?_⟩
    rw [hnone]
    exact not_inSpan_none
  · refine (seekKeyOf_eq_iff hperm hordered hkey).mp ?_
    rw [farEnd, hstart] at hnext
    exact hnext

lemma Logged.not_completedAtBoundary (h : Logged .descending P reqs init e false)
    (hok : ∀ req ∈ reqs, RequestOk req) : ¬ CompletedAtBoundary reqs (init ++ [e]) i k := by
  rintro ⟨e', hlast, rfl, -, req, hreq, hlt, -⟩
  rw [getLast?_concat] at hlast
  obtain rfl := Option.some.inj hlast
  exact absurd hlt (h.not_below hok hreq).not_gt

/-- After a stop, exactly a `Get` completed at the boundary is resumed wrongly. -/
lemma Logged.resumes_iff (h : Logged dir P reqs init e true) (hok : ∀ req ∈ reqs, RequestOk req)
    (hread : IsRead dir req) (hperm : jobs.Perm (requestParts dir reqs)) (hordered : Ordered jobs)
    (hslots : Slots reqs ((init ++ [e]).map fun e => e.1.desc) (fun i => resumeAt i e) br)
    (hget : reqs[i]? = some req) {slot : Option ReadResponse} (hslot : br[i]? = some slot)
    {nextKey : Key} (hseek : nextKey = seekKeyOf (left (farEnd dir e.1.desc) jobs))
    (hkey : req.isGet → req.header.key ≠ keyMin) (reason : ResumeReason) :
    Resumes req (Completed (init ++ [e]) i)
        (fillSkippedResponse nextKey reason (isReverseOf dir) req slot) ↔
      ¬ (dir = .descending ∧ req.isGet ∧
        CompletedAtBoundary reqs (init ++ [e]) i req.header.key) := by
  have hreq := hok req (mem_of_getElem? hget)
  constructor
  · rintro hresumes ⟨rfl, hisGet, e', hlast, hstart, hcompleted, hbelow⟩
    rw [getLast?_concat] at hlast
    obtain rfl := Option.some.inj hlast
    have hnext : nextKey = req.header.key := by
      rw [hseek, farEnd, hstart]
      exact (seekKeyOf_eq_iff hperm hordered (hkey hisGet)).mpr hbelow
    rw [hnext] at hresumes
    exact not_resumes_of_nextKey hreq hisGet hread (h.replied e (by simp)) hget hcompleted
      (hslots.resumeSpan_getD hslot) reason hresumes
  intro hnot
  refine h.resumes_of_stopped hok hread hslots hget hslot
    (hseek ▸ nextKey_seekKeyOf hperm hordered hget h.le.2) ?_ reason
  rintro rfl hisGet hnone hnext
  exact hnot ⟨rfl, hisGet, completedAtBoundary_of_nextKey hperm hordered h hok hget
    (hkey hisGet) hnone (hseek.symm.trans hnext)⟩

lemma finishBatch_spec (hok : ∀ req ∈ reqs, RequestOk req) (hread : ∀ req ∈ reqs, IsRead dir req)
    (hanswers : Answers dir respond) (hlimits : limits.mightStopEarly)
    (hperm : jobs.Perm (requestParts dir reqs)) (hordered : Ordered jobs)
    {res : LoopResult SendState}
    (hlooped : Looped (sendToRange respond) jobs false { limits := limits }
      ((P.inOrder dir).filterMap (visit (nearEnd dir) (farEnd dir) jobs)) res) :
    ∃ r, finishBatch (isReverseOf dir) reqs res = .ok r ∧ r.responses.length = reqs.length ∧
      (∀ e ∈ r.replies, ∃ l, e.2 = respond l e.1) ∧
      ∀ i req, reqs[i]? = some req → (req.isGet → req.header.key ≠ keyMin) →
        ((∃ resp, r.responses[i]? = some (some resp) ∧
            Resumes req (Completed r.replies i) resp) ↔
          ¬ (dir = .descending ∧ req.isGet ∧
            CompletedAtBoundary reqs r.replies i req.header.key)) := by
  obtain ⟨hcould, init, e, hlog, hvisits, hrespond, hinit, hlast⟩ :=
    sends_replies hlooped.sends hlimits rfl
  rw [nil_append] at hlog
  obtain ⟨⟨rest, hdesc, hrest⟩, htrunc⟩ := hlooped.truncated hperm
  rw [← hvisits, List.map_map] at hdesc
  have hlogged : Logged dir P reqs init e res.stopped := by
    refine ⟨⟨rest, hdesc, hrest⟩, fun e' he' => ?_, hinit, hlast⟩
    obtain ⟨l, hl⟩ := hrespond e' he'
    exact ⟨htrunc e'.1 (hvisits ▸ mem_map_of_mem he'), hl ▸ hanswers l e'.1⟩
  have hapart : ((init ++ [e]).map fun e => e.1.desc).Pairwise Apart := by
    have hsub := (P.disjoint dir).sublist (filter_sublist (p := hasPiece reqs))
    rw [hdesc] at hsub
    exact (pairwise_append.mp hsub).1
  obtain ⟨br, hbr, hslots⟩ :=
    combineReplies_slots hok init (slots_nil reqs) hlogged.replied hinit hapart
  unfold finishBatch
  rw [hlog, hbr, hcould]
  cases hstopped : res.stopped with
  | false =>
    rw [hstopped] at hlogged
    refine ⟨_, rfl, hslots.length, hrespond, fun i req hget _ => iff_of_true ?_ ?_⟩
    · exact hlogged.resumes_of_not_stopped hok hslots hget
    rintro ⟨rfl, -, hboundary⟩
    exact hlogged.not_completedAtBoundary hok hboundary
  | true =>
    rw [hstopped] at hlogged
    refine ⟨_, rfl, ?_, hrespond, fun i req hget hkey => ?_⟩
    · dsimp only [if_true]
      rw [if_pos rfl, length_map, fillSkippedResponses, length_zipWith, hslots.length, min_self]
    obtain ⟨v, hv, hseek⟩ := hlooped.seekKey
    have hlastVisit : v = e.1 := by
      rw [← hvisits, map_append, map_singleton, getLast?_concat] at hv
      exact (Option.some.inj hv).symm
    subst hlastVisit
    have hlt : i < br.length := hslots.length ▸ (List.getElem?_eq_some_iff.mp hget).1
    have hslot : br[i]? = some br[i] := List.getElem?_eq_getElem hlt
    simp only [if_true, List.getElem?_map, fillSkippedResponses, List.getElem?_zipWith, hget,
      hslot, map_some, Option.some.injEq, exists_eq_left']
    exact hlogged.resumes_iff hok (hread req (mem_of_getElem? hget)) hperm hordered hslots hget
      hslot hseek hkey _

/-! ## Batches in a single range -/

lemma Remainder.exists_restSpan {sp : Span} (h : Remainder dir req sp) :
    ∃ x : Cut dir, some sp = restSpan x req := by
  unfold Remainder at h
  split_ifs at h with hrange
  · cases dir with
    | ascending =>
      obtain ⟨key, hkey, hend, rfl⟩ := h
      exact ⟨_, (restSpan_ascending hrange hkey hend).symm⟩
    | descending =>
      obtain ⟨endKey, hkey, hend, rfl⟩ := h
      exact ⟨_, (restSpan_descending hrange hkey hend).symm⟩
  subst h
  cases dir with
  | ascending =>
    refine ⟨cut .ascending req.header.key, ?_⟩
    rw [restSpan, if_neg hrange]
    exact (if_neg (lt_irrefl _)).symm
  | descending =>
    refine ⟨cut .descending req.header.key.next, ?_⟩
    rw [restSpan, if_neg hrange]
    exact (if_neg (Key.lt_next _).not_ge).symm

lemma resumes_of_single (hok : ∀ req ∈ reqs, RequestOk req) {desc rs : RSpan}
    {reply : List ReadResponse}
    (hresponds : List.Forall₂ (fun p resp => Responds dir p.1 resp) reqs.zipIdx reply)
    (hget : reqs[i]? = some req) :
    ∃ resp, (reply.map some)[i]? = some (some resp) ∧
      Resumes req (Completed [(⟨desc, rs, reqs.zipIdx⟩, reply)] i) resp := by
  have hlength : i < reply.length := by
    rw [← hresponds.length_eq, length_zipIdx]
    exact (List.getElem?_eq_some_iff.mp hget).1
  have hidx : reqs.zipIdx[i]? = some (req, i) := by
    rw [List.getElem?_zipIdx, hget, Nat.zero_add]
    rfl
  have hresp : reply[i]? = some reply[i] := List.getElem?_eq_getElem hlength
  have hzip : ((req, i), reply[i]) ∈ reqs.zipIdx.zip reply :=
    mem_of_getElem? (List.getElem?_zip_eq_some.mpr ⟨hidx, hresp⟩)
  refine ⟨reply[i], by rw [List.getElem?_map, hresp]; rfl, ?_⟩
  refine @resumes_of_completed dir _ (hok req (mem_of_getElem? hget)) _ _ ?_ fun k => ?_
  · cases hspan : reply[i].header.resumeSpan with
    | none => exact .inl rfl
    | some sp =>
      exact .inr ((forall₂_iff_zip.mp hresponds).2 hzip sp hspan).exists_restSpan
  constructor
  · rintro ⟨e, he, p, hp, hpos, hk, hresume⟩
    obtain rfl := mem_singleton.mp he
    obtain ⟨j, hj⟩ := mem_iff_getElem?.mp hp
    obtain ⟨hj1, hj2⟩ := List.getElem?_zip_eq_some.mp hj
    rw [List.getElem?_zipIdx, Nat.zero_add] at hj1
    obtain ⟨req', hreq', heq⟩ := map_eq_some_iff.mp hj1
    have hji : j = i := (congrArg Prod.snd heq).trans hpos
    subst hji
    rw [hget] at hreq'
    obtain rfl := Option.some.inj hreq'
    rw [hresp] at hj2
    rw [← heq] at hk
    rw [← Option.some.inj hj2] at hresume
    exact ⟨hk, hresume⟩
  · rintro ⟨hk, hresume⟩
    exact ⟨_, mem_singleton_self _, _, hzip, rfl, hk, hresume⟩

/-! ## The combined response -/

lemma divideAndSend_spec (A : Addressing) (P : Partition)
    (hsort : Sorts dir sort) (hok : ∀ req ∈ reqs, RequestOk req)
    (hread : ∀ req ∈ reqs, IsRead dir req) (hne : reqs ≠ []) (hanswers : Answers dir respond)
    (hlimits : limits.mightStopEarly) :
    ∃ res, divideAndSendBatchToRanges A sort P.ranges respond limits (isReverseOf dir) reqs =
        .ok res ∧ res.responses.length = reqs.length ∧
      (∀ e ∈ res.replies, ∃ l, e.2 = respond l e.1) ∧
      ∀ i req, reqs[i]? = some req → (req.isGet → req.header.key ≠ keyMin) →
        ((∃ resp, res.responses[i]? = some (some resp) ∧
            Resumes req (Completed res.replies i) resp) ↔
          ¬ (dir = .descending ∧ req.isGet ∧
            CompletedAtBoundary reqs res.replies i req.header.key)) := by
  obtain ⟨rs, hrs, hall, ⟨first, hfirst, hkey⟩, ⟨last, hlast, hend⟩⟩ := keysRange_spec A hok hne
  have hdir : scanDirection (isReverseOf dir) = dir := by cases dir <;> rfl
  have hseek : firstSeekKey dir rs = uncut dir (nearEnd dir rs) := by cases dir <;> rfl
  have hfirstCut : firstCut dir ≤ nearEnd dir rs ∧ nearEnd dir rs < lastCut dir := by
    have hlt := (hok first hfirst).lt_stop
    cases dir with
    | ascending =>
      refine ⟨not_lt.mp (Key.not_lt_nil _), ?_⟩
      exact (hkey.trans_lt hlt).trans_le (hok first hfirst).stop_le
    | descending =>
      refine ⟨hend.trans_le (hok last hlast).stop_le, ?_⟩
      exact (not_lt.mp (Key.not_lt_nil _)).trans_lt (hlt.trans_le (hall first hfirst).2)
  obtain ⟨desc, hdesc, hnear, hfar⟩ :=
    (P.consecutive_inOrder dir).exists_cell hfirstCut.1 hfirstCut.2
  unfold divideAndSendBatchToRanges
  simp only [hdir, hrs, hseek, seekRange_eq (P.mem_inOrder.mp hdesc) hnear hfar]
  split_ifs with hneed
  · obtain ⟨res, jobs, hres, hperm, hordered, hlooped⟩ :=
      divideBatch_spec A P hsort hok hne false (sendToRange respond) { limits := limits }
    rw [hres]
    exact finishBatch_spec hok hread hanswers hlimits hperm hordered hlooped
  refine ⟨_, rfl, ?_, ?_, fun i req hget _ => iff_of_true ?_ ?_⟩
  · have hlength := (hanswers limits ⟨desc, rs, reqs.zipIdx⟩).length_eq
    rw [length_map, ← hlength, length_zipIdx]
  · exact forall_mem_singleton.mpr ⟨limits, rfl⟩
  · exact resumes_of_single hok (hanswers limits ⟨desc, rs, reqs.zipIdx⟩) hget
  rintro ⟨rfl, -, e, hlast, hstart, -, req', hreq', hlt, -⟩
  obtain rfl := Option.some.inj hlast
  have hle : desc.key ≤ rs.key := by simpa [needAnother] using hneed
  exact absurd (hstart ▸ hle.trans (hall req' hreq').1) hlt.not_ge

/-- A limited batch resumes exactly where it stopped, except in reverse for a `Get` that the last
range completed at its first key, where the batch goes on below. -/
theorem limited_batch_resumes (A : Addressing) (P : Partition) (isReverse : Bool)
    (hsort : Sorts (scanDirection isReverse) sort) (hok : ∀ req ∈ reqs, RequestOk req)
    (hread : ∀ req ∈ reqs, IsRead (scanDirection isReverse) req) (hne : reqs ≠ [])
    (hanswers : Answers (scanDirection isReverse) respond) (limits : Limits)
    (hlimits : limits.mightStopEarly = true) :
    ∃ res, divideAndSendBatchToRanges A sort P.ranges respond limits isReverse reqs = .ok res ∧
      res.responses.length = reqs.length ∧
      (∀ e ∈ res.replies, ∃ l, e.2 = respond l e.1) ∧
      ∀ i req, reqs[i]? = some req → (req.isGet = true → req.header.key ≠ keyMin) →
        ((∃ resp, res.responses[i]? = some (some resp) ∧
            Resumes req (Completed res.replies i) resp) ↔
          ¬ (isReverse = true ∧ req.isGet = true ∧
            CompletedAtBoundary reqs res.replies i req.header.key)) := by
  cases isReverse with
  | false =>
    obtain ⟨res, hres, hlength, hreplies, hall⟩ :=
      divideAndSend_spec A P hsort hok hread hne hanswers hlimits
    refine ⟨res, hres, hlength, hreplies, fun i req hget hkey => (hall i req hget hkey).trans ?_⟩
    exact iff_of_true nofun nofun
  | true =>
    obtain ⟨res, hres, hlength, hreplies, hall⟩ :=
      divideAndSend_spec A P hsort hok hread hne hanswers hlimits
    refine ⟨res, hres, hlength, hreplies, fun i req hget hkey => (hall i req hget hkey).trans ?_⟩
    exact not_congr (and_congr_left' (iff_of_true rfl rfl))

def forwardBatch : List Request :=
  [.op (.get false) ⟨[3], none, 0⟩, .op (.scan false) ⟨[3], some [8], 0⟩]

def reverseBatch : List Request :=
  [.op (.get false) ⟨[5], none, 0⟩, .op (.reverseScan false) ⟨[3], some [8], 0⟩]

def completeAll (_ : Limits) (v : Visit) : List ReadResponse :=
  v.requests.map fun _ => { header := { numKeys := 1, numBytes := 1 } }

lemma answers_completeAll (dir : ScanDirection) : Answers dir completeAll := by
  intro limits v
  unfold completeAll
  rw [forall₂_map_right_iff, forall₂_same]
  exact fun p _ sp hsp => nomatch hsp

theorem limited_batch_resumes_forward :
    ∃ res, divideAndSendBatchToRanges globalAddressing (sortEntries .ascending)
        (splitAt 5 (by decide) (by decide)).ranges completeAll { maxSpanRequestKeys := 1 } false
        forwardBatch = .ok res ∧
      res.responses.length = forwardBatch.length ∧
      ∀ i req, forwardBatch[i]? = some req →
        ∃ resp, res.responses[i]? = some (some resp) ∧
          Resumes req (Completed res.replies i) resp := by
  have hok : ∀ req ∈ forwardBatch, RequestOk req := by
    intro req hreq
    rcases mem_cons.mp hreq with rfl | hreq
    · exact ⟨rfl, rfl, nofun, nofun, by decide⟩
    rw [mem_singleton.mp hreq]
    exact ⟨rfl, rfl, fun _ => by decide, fun _ => rfl, by decide⟩
  have hread : ∀ req ∈ forwardBatch, IsRead .ascending req := by
    intro req hreq
    rcases mem_cons.mp hreq with rfl | hreq
    · trivial
    rw [mem_singleton.mp hreq]
    rfl
  obtain ⟨res, hres, hlength, -, hall⟩ := limited_batch_resumes globalAddressing
    (splitAt 5 (by decide) (by decide)) false (sorts_sortEntries .ascending) hok hread
    (cons_ne_nil _ _) (answers_completeAll .ascending) { maxSpanRequestKeys := 1 } rfl
  refine ⟨res, hres, hlength, fun i req hget => (hall i req hget fun _ => ?_).mpr nofun⟩
  rcases mem_cons.mp (mem_of_getElem? hget) with rfl | hreq
  · decide
  · rw [mem_singleton.mp hreq]
    decide

/-- A completed `Get` of the last range's first key gets a resume span when the batch stops there.
-/
theorem completed_get_resumed :
    ∃ res resp, divideAndSendBatchToRanges globalAddressing (sortEntries .descending)
        (splitAt 5 (by decide) (by decide)).ranges completeAll { returnOnRangeBoundary := true }
        true reverseBatch = .ok res ∧
      Completed res.replies 0 [5] ∧ res.responses[0]? = some (some resp) ∧
      resp.header.resumeSpan = some ⟨[5], none⟩ := by
  refine ⟨_, _, rfl, ?_, rfl, rfl⟩
  exact ⟨_, .head _, _, mem_cons_of_mem _ mem_cons_self, rfl,
    mem_point_span.mpr rfl, not_inSpan_none⟩

end MeshDB.KvCoord
