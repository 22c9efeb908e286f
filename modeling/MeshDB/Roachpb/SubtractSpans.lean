import MeshDB.Roachpb.MergeSpans

/-!
# Subtracting spans

`SubtractSpans` of `roachpb` goes along two sets of disjoint spans and shrinks the spans to do by
those that are done.
-/
namespace MeshDB.Roachpb

open List Roachpb.Span

def appendRemaining (remaining : List Span) (s : Span) : List Span :=
  match remaining.getLast? with
  | some last =>
    if last.endKeyBytes = s.key then remaining.dropLast ++ [{ last with endKey := s.endKey }]
    else remaining ++ [s]
  | none => [s]

/-- Keeps the beginning of a span to do that the span done leaves uncovered. -/
def appendUncovered (remaining : List Span) (t d : Span) : List Span :=
  if d.key ≤ t.key then remaining else appendRemaining remaining ⟨t.key, some d.key⟩

def subtractLoop (todo done remaining : List Span) : List Span :=
  match todo, done with
  | [], _ => remaining
  | t :: todo, [] => remaining ++ t :: todo
  | t :: todo, d :: done =>
    if t.key = t.endKeyBytes then subtractLoop todo (d :: done) remaining
    else if t.endKeyBytes ≤ d.key then subtractLoop todo (d :: done) (appendRemaining remaining t)
    else if d.endKeyBytes ≤ t.key then subtractLoop (t :: todo) done remaining
    else if d.endKeyBytes < t.endKeyBytes then
      subtractLoop ({ t with key := d.endKeyBytes } :: todo) done (appendUncovered remaining t d)
    else if t.endKeyBytes < d.endKeyBytes then
      subtractLoop todo (d :: done) (appendUncovered remaining t d)
    else subtractLoop todo done (appendUncovered remaining t d)
termination_by todo.length + done.length

def subtractSpans (todo done : List Span) : List Span :=
  if done.length = 0 then todo
  else subtractLoop (todo.insertionSort fun a b => a.key ≤ b.key)
    (done.insertionSort fun a b => a.key ≤ b.key) []

/-- Ranges that follow each other. -/
structure Ascending (spans : List Span) : Prop where
  range : ∀ sp ∈ spans, sp.key < sp.endKeyBytes
  order : spans.Pairwise fun a b => a.endKeyBytes ≤ b.key

variable {k : Key} {spans spans' todo done remaining : List Span} {s t d : Span}

lemma ascending_append : Ascending (spans ++ spans') ↔ Ascending spans ∧ Ascending spans' ∧
    ∀ a ∈ spans, ∀ b ∈ spans', a.endKeyBytes ≤ b.key := by
  constructor
  · rintro ⟨hrange, horder⟩
    obtain ⟨h, h', hbefore⟩ := pairwise_append.mp horder
    exact ⟨⟨fun sp hsp => hrange sp (mem_append_left _ hsp), h⟩,
      ⟨fun sp hsp => hrange sp (mem_append_right _ hsp), h'⟩, hbefore⟩
  rintro ⟨h, h', hbefore⟩
  refine ⟨fun sp hsp => ?_, pairwise_append.mpr ⟨h.order, h'.order, hbefore⟩⟩
  exact (mem_append.mp hsp).elim (h.range sp) (h'.range sp)

lemma ascending_singleton : Ascending [s] ↔ s.key < s.endKeyBytes :=
  ⟨fun h => h.range s (.head _), fun h => ⟨fun _ hsp => mem_singleton.mp hsp ▸ h,
    pairwise_singleton _ _⟩⟩

lemma ascending_cons : Ascending (s :: spans) ↔
    s.key < s.endKeyBytes ∧ Ascending spans ∧ ∀ b ∈ spans, s.endKeyBytes ≤ b.key := by
  rw [← singleton_append, ascending_append, ascending_singleton]
  simp

lemma covers_cons : Covers (s :: spans) k ↔ Span.Mem k s ∨ Covers spans k := by
  rw [← singleton_append, covers_append, covers_singleton]

lemma mem_range (h : s.key < s.endKeyBytes) :
    Span.Mem k s ↔ s.key ≤ k ∧ k < s.endKeyBytes :=
  mem_of_not_isPoint (not_isPoint_of_lt h)

lemma le_of_covers {b : Key} (h : ∀ sp ∈ spans, b ≤ sp.key) (hk : Covers spans k) : b ≤ k := by
  obtain ⟨sp, hsp, hk⟩ := hk
  exact (h sp hsp).trans (key_le_of_mem hk)

lemma appendRemaining_spec (hrem : Ascending remaining) (hs : s.key < s.endKeyBytes)
    (hbefore : ∀ r ∈ remaining, r.endKeyBytes ≤ s.key) :
    Ascending (appendRemaining remaining s) ∧
    (∀ r ∈ appendRemaining remaining s, r.endKeyBytes ≤ s.endKeyBytes) ∧
    ∀ k, Covers (appendRemaining remaining s) k ↔ Covers remaining k ∨ Span.Mem k s := by
  have happend : Ascending (remaining ++ [s]) ∧
      (∀ r ∈ remaining ++ [s], r.endKeyBytes ≤ s.endKeyBytes) ∧
      ∀ k, Covers (remaining ++ [s]) k ↔ Covers remaining k ∨ Span.Mem k s := by
    refine ⟨ascending_append.mpr ⟨hrem, ascending_singleton.mpr hs, ?_⟩, ?_, fun k => ?_⟩
    · intro a ha b hb
      exact mem_singleton.mp hb ▸ hbefore a ha
    · intro r hr
      rcases mem_append.mp hr with hr | hr
      · exact (hbefore r hr).trans hs.le
      · exact mem_singleton.mp hr ▸ le_rfl
    · rw [covers_append, covers_singleton]
  rcases eq_nil_or_concat remaining with rfl | ⟨init, last, rfl⟩
  · exact happend
  rw [concat_eq_append] at hrem hbefore happend ⊢
  unfold appendRemaining
  rw [getLast?_concat]
  dsimp only
  split_ifs with heq
  · rw [dropLast_concat]
    obtain ⟨hinit, hlast, horder⟩ := ascending_append.mp hrem
    have hlast := ascending_singleton.mp hlast
    have hgrown : last.key < endKeyBytes { last with endKey := s.endKey } :=
      (hlast.trans_eq heq).trans hs
    refine ⟨ascending_append.mpr ⟨hinit, ascending_singleton.mpr hgrown, ?_⟩, ?_, fun k => ?_⟩
    · intro a ha b hb
      rw [mem_singleton.mp hb]
      exact horder a ha last (.head _)
    · intro r hr
      rcases mem_append.mp hr with hr | hr
      · exact (hbefore r (mem_append_left _ hr)).trans hs.le
      · exact mem_singleton.mp hr ▸ le_rfl
    rw [covers_append, covers_append, covers_singleton, covers_singleton, mem_range hgrown,
      mem_range hlast, mem_range hs, or_assoc]
    refine or_congr_right ?_
    rw [← heq]
    constructor
    · rintro ⟨h1, h2⟩
      exact (lt_or_ge k last.endKeyBytes).imp (fun h => ⟨h1, h⟩) fun h => ⟨h, h2⟩
    rintro (⟨h1, h2⟩ | ⟨h1, h2⟩)
    · exact ⟨h1, (h2.trans_eq heq).trans hs⟩
    · exact ⟨hlast.le.trans h1, h2⟩
  · exact happend

lemma appendUncovered_spec (hrem : Ascending remaining)
    (hbefore : ∀ r ∈ remaining, r.endKeyBytes ≤ t.key) :
    Ascending (appendUncovered remaining t d) ∧
    (∀ r ∈ appendUncovered remaining t d, r.endKeyBytes ≤ max t.key d.key) ∧
    ∀ k, Covers (appendUncovered remaining t d) k ↔ Covers remaining k ∨ t.key ≤ k ∧ k < d.key := by
  unfold appendUncovered
  split_ifs with hle
  · refine ⟨hrem, fun r hr => (hbefore r hr).trans (le_max_left _ _), fun k => ?_⟩
    rw [or_iff_left]
    rintro ⟨h1, h2⟩
    exact (hle.trans h1).not_gt h2
  have hlt : (⟨t.key, some d.key⟩ : Span).key < endKeyBytes ⟨t.key, some d.key⟩ :=
    not_le.mp hle
  obtain ⟨hasc, hend, hcov⟩ := appendRemaining_spec hrem hlt hbefore
  refine ⟨hasc, fun r hr => (hend r hr).trans (le_max_right _ _), fun k => ?_⟩
  rw [hcov, mem_range hlt]
  rfl

lemma subtractLoop_spec (todo done remaining : List Span) (hrem : Ascending remaining)
    (htodo : Ascending todo) (hdone : Ascending done)
    (hbefore : ∀ r ∈ remaining, ∀ t ∈ todo, r.endKeyBytes ≤ t.key) :
    Ascending (subtractLoop todo done remaining) ∧
    ∀ k, Covers (subtractLoop todo done remaining) k ↔
      Covers remaining k ∨ Covers todo k ∧ ¬ Covers done k := by
  fun_induction subtractLoop todo done remaining with
  | case1 => simp [hrem, Covers]
  | case2 remaining t todo =>
    refine ⟨ascending_append.mpr ⟨hrem, htodo, hbefore⟩, fun k => ?_⟩
    rw [covers_append, and_iff_left]
    simp [Covers]
  | case3 remaining t todo d done heq => exact absurd heq (ascending_cons.mp htodo).1.ne
  | case4 remaining t todo d done _ hle ih =>
    obtain ⟨ht, htodo, hnext⟩ := ascending_cons.mp htodo
    obtain ⟨hd, -, hdnext⟩ := ascending_cons.mp hdone
    obtain ⟨hasc, hend, hcov⟩ := appendRemaining_spec hrem ht fun r hr => hbefore r hr t (.head _)
    obtain ⟨hres, hiff⟩ := ih hasc htodo hdone fun r hr b hb => (hend r hr).trans (hnext b hb)
    refine ⟨hres, fun k => ?_⟩
    have hlate := @le_of_covers k _ _ hdnext
    rw [hiff, hcov]
    simp only [covers_cons, mem_range ht, mem_range hd]
    grind
  | case5 remaining t todo d done _ _ hle ih =>
    obtain ⟨hd, hdone, -⟩ := ascending_cons.mp hdone
    obtain ⟨ht, -, hnext⟩ := ascending_cons.mp htodo
    obtain ⟨hres, hiff⟩ := ih hrem htodo hdone hbefore
    refine ⟨hres, fun k => ?_⟩
    have hlate := @le_of_covers k _ _ hnext
    rw [hiff]
    simp only [covers_cons, mem_range ht, mem_range hd]
    grind
  | case6 remaining t todo d done _ hlt hlt' hend ih =>
    obtain ⟨ht, htodo, hnext⟩ := ascending_cons.mp htodo
    obtain ⟨hd, hdone, hdnext⟩ := ascending_cons.mp hdone
    obtain ⟨hasc, hmax, hcov⟩ := @appendUncovered_spec _ t d hrem fun r hr =>
      hbefore r hr t (.head _)
    have hrest : Span.key { t with key := d.endKeyBytes } <
        endKeyBytes { t with key := d.endKeyBytes } := hend
    obtain ⟨hres, hiff⟩ := ih hasc (ascending_cons.mpr ⟨hrest, htodo, hnext⟩) hdone (by
      intro r hr b hb
      have hr := (hmax r hr).trans (max_le (not_le.mp hlt').le hd.le)
      rcases mem_cons.mp hb with rfl | hb
      · exact hr
      · exact hr.trans (hend.le.trans (hnext b hb)))
    refine ⟨hres, fun k => ?_⟩
    have hlate := @le_of_covers k _ _ hnext
    have hlate' := @le_of_covers k _ _ hdnext
    rw [hiff, hcov]
    simp only [covers_cons, mem_range ht, mem_range hd, mem_range hrest]
    grind [endKeyBytes]
  | case7 remaining t todo d done _ hlt hlt' _ hend ih =>
    obtain ⟨ht, htodo, hnext⟩ := ascending_cons.mp htodo
    obtain ⟨hd, -, hdnext⟩ := ascending_cons.mp hdone
    obtain ⟨hasc, hmax, hcov⟩ := @appendUncovered_spec _ t d hrem fun r hr =>
      hbefore r hr t (.head _)
    obtain ⟨hres, hiff⟩ := ih hasc htodo hdone fun r hr b hb =>
      (hmax r hr).trans ((max_le ht.le (not_le.mp hlt).le).trans (hnext b hb))
    refine ⟨hres, fun k => ?_⟩
    have hlate := @le_of_covers k _ _ hdnext
    rw [hiff, hcov]
    simp only [covers_cons, mem_range ht, mem_range hd]
    grind
  | case8 remaining t todo d done _ hlt hlt' hend hend' ih =>
    obtain ⟨ht, htodo, hnext⟩ := ascending_cons.mp htodo
    obtain ⟨hd, hdone, hdnext⟩ := ascending_cons.mp hdone
    obtain ⟨hasc, hmax, hcov⟩ := @appendUncovered_spec _ t d hrem fun r hr =>
      hbefore r hr t (.head _)
    obtain ⟨hres, hiff⟩ := ih hasc htodo hdone fun r hr b hb =>
      (hmax r hr).trans ((max_le ht.le (not_le.mp hlt).le).trans (hnext b hb))
    refine ⟨hres, fun k => ?_⟩
    have hlate := @le_of_covers k _ _ hnext
    have hlate' := @le_of_covers k _ _ hdnext
    rw [hiff, hcov]
    simp only [covers_cons, mem_range ht, mem_range hd]
    grind

lemma Ascending.apart (h : Ascending spans) : spans.Pairwise Span.Apart := by
  refine h.order.imp_of_mem fun ha hb hle k hk hk' => ?_
  rw [mem_range (h.range _ ha)] at hk
  exact (hk.2.trans_le hle).not_ge (key_le_of_mem hk')

lemma ascending_insertionSort (hrange : ∀ sp ∈ spans, sp.key < sp.endKeyBytes)
    (hapart : spans.Pairwise Span.Apart) :
    Ascending (spans.insertionSort fun a b => a.key ≤ b.key) := by
  have hperm := perm_insertionSort (fun a b : Span => a.key ≤ b.key) spans
  have hrange' := fun sp hsp => hrange sp (hperm.mem_iff.mp hsp)
  refine ⟨hrange', ?_⟩
  refine ((pairwise_insertionSort _ spans).and
    ((hperm.pairwise_iff fun h k hk hk' => h k hk' hk).mpr hapart)).imp_of_mem ?_
  rintro a b ha hb ⟨hle, hapart⟩
  by_contra hlt
  exact hapart b.key ((mem_range (hrange' a ha)).mpr ⟨hle, not_le.mp hlt⟩)
    ((mem_range (hrange' b hb)).mpr ⟨le_rfl, hrange' b hb⟩)

/-- Subtracting spans is the difference of the sets of their keys. -/
theorem subtractSpans_set_difference (htodo : ∀ sp ∈ todo, sp.key < sp.endKeyBytes)
    (hdone : ∀ sp ∈ done, sp.key < sp.endKeyBytes) (hapart : todo.Pairwise Span.Apart)
    (hapart' : done.Pairwise Span.Apart) :
    (subtractSpans todo done).Pairwise Span.Apart ∧
    (∀ sp ∈ subtractSpans todo done, sp.key < sp.endKeyBytes) ∧
    ∀ k, Covers (subtractSpans todo done) k ↔ Covers todo k ∧ ¬ Covers done k := by
  unfold subtractSpans
  split_ifs with hnil
  · rw [length_eq_zero_iff] at hnil
    subst hnil
    exact ⟨hapart, htodo, fun k => by simp [Covers]⟩
  obtain ⟨hasc, hiff⟩ := subtractLoop_spec _ _ [] ⟨by simp, List.Pairwise.nil⟩
    (ascending_insertionSort htodo hapart) (ascending_insertionSort hdone hapart') (by simp)
  refine ⟨hasc.apart, hasc.range, fun k => ?_⟩
  have hperm := perm_insertionSort (fun a b : Span => a.key ≤ b.key)
  rw [hiff, covers_perm (hperm todo), covers_perm (hperm done), or_iff_right]
  simp [Covers]

theorem subtractSpans_set_difference_middle :
    Covers (subtractSpans [⟨[5], some [9]⟩, ⟨[1], some [4]⟩] [⟨[2], some [6]⟩]) [6] := by
  refine ((subtractSpans_set_difference (by decide) (by decide) ?_
    (pairwise_singleton _ _)).2.2 [6]).mpr ⟨⟨_, .head _, by decide⟩, ?_⟩
  · refine pairwise_pair.mpr fun k hk hk' => ?_
    exact absurd (hk.1.trans_lt hk'.2) (by decide)
  rw [covers_singleton]
  decide

end MeshDB.Roachpb
