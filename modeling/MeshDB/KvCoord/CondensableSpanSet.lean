import Mathlib.Algebra.BigOperators.Group.List.Basic
import Mathlib.Algebra.Ring.Int.Defs
import MeshDB.KvCoord.StoredSpans
import MeshDB.Lib.Reachability

/-!
# Condensable span sets

The `condensableSpanSet` of `kvcoord` may give up precision to stay below a byte limit, but never
loses a key. Where the code ends the process, an operation has no result.
-/
open Option
namespace MeshDB.Roachpb.Span

lemma combineMin_le (s o : Span) : combineMin s o ≤ s.key ∧ combineMin s o ≤ o.key := by
  unfold combineMin
  split_ifs with h
  · exact ⟨h.le, le_rfl⟩
  · exact ⟨le_rfl, not_lt.mp h⟩

variable {sp : Span}

lemma wf_of_valid (h : sp.valid) : sp.Wf := by
  unfold valid at h
  split_ifs at h with h1 h2
  · exact .inl h2
  · exact .inr (of_decide_eq_true h)

lemma le_combineMax {s o : Span} (hs : s.Wf) : s.key ≤ combineMax s o ∧
    s.endKeyBytes ≤ combineMax s o ∧ o.key ≤ combineMax s o ∧ o.endKeyBytes ≤ combineMax s o := by
  obtain ⟨max0, hmax0⟩ : ∃ m, m = if s.endKeyBytes.isEmpty then s.key else s.endKeyBytes :=
    ⟨_, rfl⟩
  have h0 : s.key ≤ max0 ∧ s.endKeyBytes ≤ max0 := by
    rw [hmax0]
    split_ifs with hpoint
    · rw [List.isEmpty_iff.mp hpoint]
      exact ⟨le_rfl, not_lt.mp (Key.not_lt_nil _)⟩
    · exact ⟨(lt_of_wf hs hpoint).le, le_rfl⟩
  obtain ⟨max1, hmax1⟩ : ∃ m, m =
      if o.key < s.key then max0 else if max0 < o.key then o.key else max0 := ⟨_, rfl⟩
  have h1 : max0 ≤ max1 ∧ o.key ≤ max1 := by
    rw [hmax1]
    split_ifs with hlt hgt
    · exact ⟨le_rfl, hlt.le.trans h0.1⟩
    · exact ⟨hgt.le, le_rfl⟩
    · exact ⟨le_rfl, not_lt.mp hgt⟩
  have h2 : max1 ≤ combineMax s o ∧ o.endKeyBytes ≤ combineMax s o := by
    have hdef : combineMax s o = if max1 < o.endKeyBytes then o.endKeyBytes else max1 := by
      rw [hmax1, hmax0]
      rfl
    rw [hdef]
    split_ifs with hlt
    · exact ⟨hlt.le, le_rfl⟩
    · exact ⟨le_rfl, not_lt.mp hlt⟩
  exact ⟨h0.1.trans (h1.1.trans h2.1), h0.2.trans (h1.1.trans h2.1), h1.2.trans h2.1, h2.2⟩

lemma lt_endKey_or_eq_of_mem {k : Key} (h : Mem k sp) :
    k < sp.endKeyBytes ∨ k = sp.key := by
  by_cases hp : sp.isPoint
  · exact .inr ((mem_of_isPoint hp).mp h)
  · exact .inl ((mem_of_not_isPoint hp).mp h).2

variable {s o : Span}

lemma combine_covers (hs : s.valid) (ho : o.valid) :
    (s.combine o).Proper ∧ ∀ k, Mem k s ∨ Mem k o → Mem k (s.combine o) := by
  obtain ⟨hmin_s, hmin_o⟩ := combineMin_le s o
  obtain ⟨hmax_s, hmax_se, hmax_o, hmax_oe⟩ := @le_combineMax s o (wf_of_valid hs)
  have hbounds : ∀ k, Mem k s ∨ Mem k o → combineMin s o ≤ k ∧
      (k < combineMax s o ∨ (k = combineMax s o ∧ (s.key = k ∨ o.key = k))) := by
    rintro k (hk | hk)
    · refine ⟨hmin_s.trans (key_le_of_mem hk), ?_⟩
      rcases lt_endKey_or_eq_of_mem hk with hlt | rfl
      · exact .inl (hlt.trans_le hmax_se)
      · exact hmax_s.lt_or_eq.imp id fun heq => ⟨heq, .inl rfl⟩
    refine ⟨hmin_o.trans (key_le_of_mem hk), ?_⟩
    rcases lt_endKey_or_eq_of_mem hk with hlt | rfl
    · exact .inl (hlt.trans_le hmax_oe)
    · exact hmax_o.lt_or_eq.imp id fun heq => ⟨heq, .inr rfl⟩
  have hle : combineMin s o ≤ combineMax s o := hmin_s.trans hmax_s
  unfold combine
  rw [if_neg (by simp [hs, ho])]
  dsimp only
  split_ifs with heq hkey
  · refine ⟨.inl rfl, fun k hk => (mem_of_isPoint rfl).mpr ?_⟩
    obtain ⟨h1, h2 | ⟨h2, -⟩⟩ := hbounds k hk
    · exact absurd (heq ▸ h2) (not_lt.mpr h1)
    · exact h2.trans heq.symm
  · have hlt : combineMin s o < (combineMax s o).next := hle.trans_lt (Key.lt_next _)
    refine ⟨.inr hlt, fun k hk => mem_of_lt (hbounds k hk).1 ?_⟩
    obtain ⟨-, h2 | ⟨rfl, -⟩⟩ := hbounds k hk
    · exact h2.trans (Key.lt_next _)
    · exact Key.lt_next _
  · refine ⟨.inr (lt_of_le_of_ne hle heq), fun k hk => mem_of_lt (hbounds k hk).1 ?_⟩
    obtain ⟨-, h2 | ⟨rfl, hk0⟩⟩ := hbounds k hk
    · exact h2
    · exact absurd hk0 hkey

lemma valid_of_combine (h : (s.combine o).valid) :
    s.valid ∧ o.valid := by
  unfold combine at h
  split_ifs at h with hinvalid
  · cases h
  · simpa using hinvalid

end MeshDB.Roachpb.Span

namespace MeshDB.KvCoord

open Roachpb

structure CondensableSpanSet where
  stored : List StoredSpan := []
  bytes : Int := 0
  condensed : Bool := false
deriving DecidableEq

def spansSize (spans : List StoredSpan) : Int := (spans.map spanSize).sum

def isLocalKey (k : Key) : Bool := k.head? == some 1

def addToBucket (buckets : List SpanBucket) (rangeID : ℕ) (sp : StoredSpan) : List SpanBucket :=
  match buckets with
  | b :: bs =>
    if b.rangeID = rangeID then
      { b with spans := b.spans ++ [sp], bytes := b.bytes + spanSize sp } :: bs
    else ⟨rangeID, spanSize sp, [sp]⟩ :: b :: bs
  | [] => [⟨rangeID, spanSize sp, [sp]⟩]

/-- Divides the spans by range, with the local ones apart. The lookup of a range may
fail. -/
def bucketSpans (rangeOf : Key → Option ℕ) : List StoredSpan → List SpanBucket →
    List StoredSpan → Option (List SpanBucket × List StoredSpan)
  | [], buckets, localSpans => some (buckets.reverse, localSpans)
  | sp :: rest, buckets, localSpans =>
    if isLocalKey sp.span.key then bucketSpans rangeOf rest buckets (localSpans ++ [sp])
    else
      match rangeOf sp.span.key with
      | none => none
      | some rangeID => bucketSpans rangeOf rest (addToBucket buckets rangeID sp) localSpans

def combineAll (rt : Runtime) : List StoredSpan → Option StoredSpan
  | [] => none
  | sp :: rest => rest.foldlM (fun cs s =>
    let cs := cs.combine rt s
    if cs.span.valid then some cs else none) sp

def condenseBuckets (rt : Runtime) (maxBytes : Int) : List SpanBucket → CondensableSpanSet →
    Option CondensableSpanSet
  | [], set => some set
  | b :: bs, set =>
    if set.bytes ≤ maxBytes.tdiv 2 then
      condenseBuckets rt maxBytes bs { set with stored := set.stored ++ b.spans }
    else do
      let cs ← combineAll rt b.spans
      condenseBuckets rt maxBytes bs
        { set with stored := set.stored ++ [cs], bytes := set.bytes - b.bytes + spanSize cs }

namespace CondensableSpanSet

/-- The spans of the set, without their capacities. -/
def s (set : CondensableSpanSet) : List Span := set.stored.map StoredSpan.span

def insert (set : CondensableSpanSet) (spans : List StoredSpan) : CondensableSpanSet :=
  { set with stored := set.stored ++ spans, bytes := set.bytes + spansSize spans }

/-- Inserts spans whose slices have no spare capacity. -/
def insertSpans (set : CondensableSpanSet) (spans : List Span) : CondensableSpanSet :=
  set.insert (spans.map .ofSpan)

def mergeAndSort (set : CondensableSpanSet) (rt : Runtime := .stable) : CondensableSpanSet :=
  let merged := mergeStored rt set.stored
  { set with
    stored := merged
    bytes := if set.stored.length = merged.length then set.bytes else spansSize merged }

/-- Merges the set and, if it is still too large, condenses it. The result says which. -/
def maybeCondense (rangeOf : Key → Option ℕ) (maxBytes : Int) (set : CondensableSpanSet)
    (rt : Runtime := .stable) : Option (CondensableSpanSet × Bool) :=
  if set.bytes ≤ maxBytes then some (set, false)
  else
    let set := set.mergeAndSort rt
    if set.bytes ≤ maxBytes then some (set, false)
    else
      match bucketSpans rangeOf set.stored [] [] with
      | none => some (set, false)
      | some (buckets, localSpans) => do
          let set ← condenseBuckets rt maxBytes (rt.sortBuckets buckets)
            { set with stored := localSpans }
          return ({ set with condensed := true }, true)

def empty (set : CondensableSpanSet) : Bool := set.stored.isEmpty

def estimateSize (set : CondensableSpanSet) (spans : List StoredSpan) (mergeThresholdBytes : Int)
    (rt : Runtime := .stable) : CondensableSpanSet × Int :=
  let bytes := spansSize spans
  if set.bytes + bytes ≤ mergeThresholdBytes then (set, set.bytes + bytes)
  else
    let set := set.mergeAndSort rt
    let estimate := set.bytes + bytes
    if estimate ≤ mergeThresholdBytes then (set, estimate)
    else
      let merged := mergeStored rt (spans ++ set.stored)
      if merged.length = (spans ++ set.stored).length then (set, estimate)
      else (set, spansSize merged)

end CondensableSpanSet

/-! ## No key is lost -/

/-- The spans of the buckets. -/
def bucketed (buckets : List SpanBucket) : List StoredSpan := buckets.flatMap fun b => b.spans

lemma bucketed_addToBucket (buckets : List SpanBucket) (rangeID : ℕ) (sp : StoredSpan) :
    (bucketed (addToBucket buckets rangeID sp)).Perm (sp :: bucketed buckets) := by
  unfold addToBucket
  split
  · split_ifs
    · simp [bucketed]
    · simp [bucketed]
  · simp [bucketed]

def Sized (buckets : List SpanBucket) : Prop := ∀ b ∈ buckets, b.bytes = spansSize b.spans

lemma Sized.addToBucket {buckets : List SpanBucket} (h : Sized buckets) (rangeID : ℕ)
    (sp : StoredSpan) : Sized (addToBucket buckets rangeID sp) := by
  unfold KvCoord.addToBucket
  split
  · next b bs =>
      obtain ⟨hb, hbs⟩ := List.forall_mem_cons.mp h
      split_ifs
      · exact List.forall_mem_cons.mpr ⟨by simp [hb, spansSize], hbs⟩
      · exact List.forall_mem_cons.mpr ⟨by simp [spansSize], h⟩
  · simp [Sized, spansSize]

variable {rangeOf : Key → Option ℕ} {spans : List StoredSpan} {bs : List SpanBucket} {rt : Runtime}

lemma bucketSpans_perm {bs' : List SpanBucket} {ls ls' : List StoredSpan} (hbs : Sized bs)
    (h : bucketSpans rangeOf spans bs ls = some (bs', ls')) :
    (ls' ++ bucketed bs').Perm (spans ++ (ls ++ bucketed bs)) ∧ Sized bs' := by
  induction spans generalizing bs ls with
  | nil =>
    cases h
    refine ⟨?_, by simpa [Sized] using hbs⟩
    exact ((List.reverse_perm bs).flatMap_right _).append_left _
  | cons sp rest ih =>
    unfold bucketSpans at h
    split_ifs at h with hlocal
    · obtain ⟨hperm, hsized⟩ := ih hbs h
      refine ⟨hperm.trans ?_, hsized⟩
      rw [List.append_assoc, List.singleton_append, List.cons_append]
      exact (List.perm_middle.append_left rest).trans List.perm_middle
    split at h
    · cases h
    rename_i rangeID _
    obtain ⟨hperm, hsized⟩ := ih (hbs.addToBucket rangeID sp) h
    refine ⟨hperm.trans ?_, hsized⟩
    have hadd := (bucketed_addToBucket bs rangeID sp).append_left ls
    exact ((hadd.trans List.perm_middle).append_left rest).trans List.perm_middle

/-- Spans in memory that end after their start. -/
def AllProper (spans : List StoredSpan) : Prop := ∀ sp ∈ spans, sp.span.Proper

/-- Spans in memory that have the key. -/
def CoversKey (spans : List StoredSpan) (k : Key) : Prop := ∃ sp ∈ spans, Span.Mem k sp.span

lemma coversKey_iff {k : Key} : CoversKey spans k ↔ Covers (spans.map StoredSpan.span) k := by
  simp [CoversKey, Covers]

lemma coversKey_append {spans' : List StoredSpan} {k : Key} :
    CoversKey (spans ++ spans') k ↔ CoversKey spans k ∨ CoversKey spans' k := by
  simp only [coversKey_iff, List.map_append, covers_append]

lemma AllProper.append {spans' : List StoredSpan} (h : AllProper spans) (h' : AllProper spans') :
    AllProper (spans ++ spans') := List.forall_mem_append.mpr ⟨h, h'⟩

variable {cs : StoredSpan}

lemma combineFold_spec {rest : List StoredSpan} {cs' : StoredSpan} (hcs : cs.span.Proper)
    (h : rest.foldlM (fun cs s =>
      let cs := cs.combine rt s
      if cs.span.valid then some cs else none) cs = some cs') :
    cs'.span.Proper ∧ (∀ k, Span.Mem k cs.span → Span.Mem k cs'.span) ∧
      ∀ k, CoversKey rest k → Span.Mem k cs'.span := by
  induction rest generalizing cs with
  | nil =>
    cases h
    exact ⟨hcs, fun _ hk => hk, by simp [CoversKey]⟩
  | cons sp rest ih =>
    obtain ⟨cs1, h1, h⟩ := bind_eq_some_iff.mp h
    simp only [ite_none_right_eq_some, Option.some.injEq] at h1
    obtain ⟨hvalid, rfl⟩ := h1
    rw [StoredSpan.span_combine] at hvalid
    obtain ⟨hcs_valid, hsp_valid⟩ := Span.valid_of_combine hvalid
    obtain ⟨hproper, hcovers⟩ := Span.combine_covers hcs_valid hsp_valid
    rw [← @StoredSpan.span_combine rt] at hproper hcovers
    obtain ⟨hproper', hkeeps, hrest⟩ := ih hproper h
    refine ⟨hproper', fun k hk => hkeeps k (hcovers k (.inl hk)), ?_⟩
    rintro k ⟨x, hx, hk⟩
    rcases List.mem_cons.mp hx with rfl | hx
    · exact hkeeps k (hcovers k (.inr hk))
    · exact hrest k ⟨x, hx, hk⟩

lemma combineAll_spec (hspans : AllProper spans) (h : combineAll rt spans = some cs) :
    cs.span.Proper ∧ ∀ k, CoversKey spans k → Span.Mem k cs.span := by
  cases spans with
  | nil => cases h
  | cons sp rest =>
    obtain ⟨hproper, hkeeps, hrest⟩ := combineFold_spec (hspans sp (.head _)) h
    refine ⟨hproper, ?_⟩
    rintro k ⟨x, hx, hk⟩
    rcases List.mem_cons.mp hx with rfl | hx
    · exact hkeeps k hk
    · exact hrest k ⟨x, hx, hk⟩

variable {maxBytes : Int} {set set' : CondensableSpanSet}

lemma condenseBuckets_spec (hset : AllProper set.stored) (hbs : AllProper (bucketed bs))
    (h : condenseBuckets rt maxBytes bs set = some set') :
    AllProper set'.stored ∧
      ∀ k, CoversKey set.stored k ∨ CoversKey (bucketed bs) k → CoversKey set'.stored k := by
  induction bs generalizing set with
  | nil =>
    cases h
    exact ⟨hset, by simp [bucketed, CoversKey]⟩
  | cons b bs ih =>
    have hb : AllProper b.spans := fun sp hsp => hbs sp (List.mem_append_left _ hsp)
    have hbs' : AllProper (bucketed bs) := fun sp hsp => hbs sp (List.mem_append_right _ hsp)
    have hsplit : ∀ k, CoversKey (bucketed (b :: bs)) k ↔
        CoversKey b.spans k ∨ CoversKey (bucketed bs) k := fun k => by
      simp only [bucketed, List.flatMap_cons, coversKey_append]
    unfold condenseBuckets at h
    split_ifs at h with hsize
    · obtain ⟨hproper, hcovers⟩ := ih (hset.append hb) hbs' h
      refine ⟨hproper, fun k hk => hcovers k ?_⟩
      rw [hsplit] at hk
      rw [coversKey_append]
      tauto
    simp only [bind_eq_bind, bind_eq_some_iff] at h
    obtain ⟨cs, hcs, h⟩ := h
    obtain ⟨hcs_proper, hcs_covers⟩ := combineAll_spec hb hcs
    obtain ⟨hproper, hcovers⟩ := ih (hset.append (List.forall_mem_singleton.mpr hcs_proper)) hbs' h
    refine ⟨hproper, fun k hk => hcovers k ?_⟩
    rw [hsplit] at hk
    rw [coversKey_append]
    rcases hk with hk | hk | hk
    · exact .inl (.inl hk)
    · exact .inl (.inr ⟨cs, by simp, hcs_covers k hk⟩)
    · exact .inr hk

lemma spansSize_append (l l' : List StoredSpan) : spansSize (l ++ l') = spansSize l + spansSize l' := by
  simp [spansSize]

lemma spansSize_perm {l l' : List StoredSpan} (h : l.Perm l') : spansSize l = spansSize l' :=
  (h.map spanSize).sum_eq

lemma condenseBuckets_bytes (hbs : Sized bs)
    (hset : set.bytes = spansSize (set.stored ++ bucketed bs))
    (h : condenseBuckets rt maxBytes bs set = some set') :
    set'.bytes = spansSize set'.stored := by
  induction bs generalizing set with
  | nil =>
    cases h
    simpa [bucketed] using hset
  | cons b bs ih =>
    obtain ⟨hb, hbs⟩ := List.forall_mem_cons.mp hbs
    unfold condenseBuckets at h
    split_ifs at h
    · apply ih hbs _ h
      simpa [bucketed] using hset
    simp only [bind_eq_bind, bind_eq_some_iff] at h
    obtain ⟨cs, -, h⟩ := h
    apply ih hbs _ h
    simp only [bucketed, List.flatMap_cons, spansSize_append] at hset ⊢
    simp only [hset, hb, spansSize, List.map_cons, List.map_nil, List.sum_cons, List.sum_nil]
    omega

/-- From proper spans, an operation leads to proper spans that cover the same keys and
perhaps more. -/
structure Retains (a b : CondensableSpanSet) : Prop where
  proper : (∀ sp ∈ a.s, sp.Proper) → ∀ sp ∈ b.s, sp.Proper
  covers : (∀ sp ∈ a.s, sp.Proper) → ∀ k, Covers a.s k → Covers b.s k

lemma Retains.refl (a : CondensableSpanSet) : Retains a a := ⟨fun h => h, fun _ _ hk => hk⟩

lemma Retains.trans {a b c : CondensableSpanSet} (h1 : Retains a b) (h2 : Retains b c) :
    Retains a c :=
  ⟨fun h => h2.proper (h1.proper h), fun h k hk => h2.covers (h1.proper h) k (h1.covers h k hk)⟩

/-- An operation that retains the keys, adds none unless it condenses, and counts the bytes. -/
structure Keeps (a b : CondensableSpanSet) : Prop extends Retains a b where
  exact : (∀ sp ∈ a.s, sp.Proper) → b.condensed = false →
    a.condensed = false ∧ ∀ k, Covers b.s k → Covers a.s k
  bytes : a.bytes = spansSize a.stored → b.bytes = spansSize b.stored

lemma Keeps.refl (a : CondensableSpanSet) : Keeps a a :=
  ⟨.refl a, fun _ h => ⟨h, fun _ hk => hk⟩, fun h => h⟩

namespace CondensableSpanSet

lemma empty_iff : set.empty ↔ set.s = [] := by
  simp [empty, s]

lemma proper_iff : (∀ sp ∈ set.s, sp.Proper) ↔ AllProper set.stored := List.forall_mem_map

lemma covers_iff {k : Key} : Covers set.s k ↔ CoversKey set.stored k := coversKey_iff.symm

lemma s_mergeAndSort (h : ∀ sp ∈ set.s, sp.Proper) :
    (set.mergeAndSort rt).s = (mergeSpans set.s).1 := map_span_mergeStored (proper_iff.mp h)

lemma keeps_mergeAndSort (set : CondensableSpanSet) : Keeps set (set.mergeAndSort rt) where
  proper h := by
    rw [s_mergeAndSort h]
    exact mergeSpans_proper h
  covers h _ hk := by
    rw [s_mergeAndSort h]
    exact covers_mergeSpans h hk
  exact h hcondensed := by
    refine ⟨hcondensed, fun k hk => ?_⟩
    rw [s_mergeAndSort h] at hk
    exact (covers_mergeSpans_iff h).mp hk
  bytes h := by
    unfold mergeAndSort
    dsimp only
    split_ifs with hlength
    · rw [h, spansSize_perm (mergeStored_perm hlength.symm)]
    · rfl

lemma keeps_estimateSize (set : CondensableSpanSet) (spans : List StoredSpan) (n : Int) :
    Keeps set (set.estimateSize spans n rt).1 := by
  unfold estimateSize
  dsimp only
  split_ifs
  · exact .refl set
  all_goals exact set.keeps_mergeAndSort

lemma retains_mergeAndSort (set : CondensableSpanSet) : Retains set (set.mergeAndSort rt) :=
  set.keeps_mergeAndSort.toRetains

variable {condensed : Bool}

/-- The local spans and the sorted buckets have the spans of the merged set. -/
lemma sortBuckets_perm {buckets : List SpanBucket} {localSpans : List StoredSpan}
    (h : bucketSpans rangeOf spans [] [] = some (buckets, localSpans)) :
    (localSpans ++ bucketed (rt.sortBuckets buckets)).Perm spans ∧
      Sized (rt.sortBuckets buckets) := by
  obtain ⟨hperm, hsized⟩ := bucketSpans_perm (by simp [Sized]) h
  have hsort := rt.sortBuckets_perm buckets
  refine ⟨((hsort.flatMap_right _).append_left localSpans).trans ?_, fun b hb =>
    hsized b (hsort.subset hb)⟩
  simpa [bucketed] using hperm

lemma keeps_maybeCondense (h : set.maybeCondense rangeOf maxBytes rt = some (set', condensed)) :
    Keeps set set' := by
  unfold maybeCondense at h
  split_ifs at h with h1
  · cases h
    exact .refl set
  dsimp only at h
  split_ifs at h with h2
  · cases h
    exact set.keeps_mergeAndSort
  split at h
  · cases h
    exact set.keeps_mergeAndSort
  rename_i buckets localSpans hbuckets
  simp only [bind_eq_bind, bind_eq_some_iff] at h
  obtain ⟨set1, hset1, h⟩ := h
  cases h
  obtain ⟨hall, hsized⟩ := @sortBuckets_perm rangeOf _ rt _ _ hbuckets
  have hmem : ∀ sp, sp ∈ localSpans ∨ sp ∈ bucketed (rt.sortBuckets buckets) →
      sp ∈ (set.mergeAndSort rt).stored := by
    intro sp hsp
    exact hall.subset (List.mem_append.mpr hsp)
  have hspec : AllProper (set.mergeAndSort rt).stored → _ := fun hp =>
    condenseBuckets_spec (fun sp hsp => hp sp (hmem sp (.inl hsp)))
      (fun sp hsp => hp sp (hmem sp (.inr hsp))) hset1
  have hmerge := @keeps_mergeAndSort rt set
  constructor
  · refine hmerge.toRetains.trans ⟨fun hp => proper_iff.mpr (hspec (proper_iff.mp hp)).1,
      fun hp k hk => covers_iff.mpr ((hspec (proper_iff.mp hp)).2 k ?_)⟩
    obtain ⟨sp, hsp, hk⟩ := covers_iff.mp hk
    exact coversKey_append.mp ⟨sp, hall.symm.subset hsp, hk⟩
  · intro _ hcondensed
    cases hcondensed
  intro hbytes
  show set1.bytes = spansSize set1.stored
  refine condenseBuckets_bytes hsized ?_ hset1
  rw [spansSize_perm hall]
  exact hmerge.bytes hbytes

lemma retains_maybeCondense (h : set.maybeCondense rangeOf maxBytes rt = some (set', condensed)) :
    Retains set set' := (keeps_maybeCondense h).toRetains

lemma s_insert : (set.insert spans).s = set.s ++ spans.map StoredSpan.span := List.map_append

lemma s_insertSpans {spans : List Span} : (set.insertSpans spans).s = set.s ++ spans := by
  rw [insertSpans, s_insert, List.map_map]
  exact congrArg _ ((List.map_congr_left fun sp _ => StoredSpan.span_ofSpan sp).trans spans.map_id)

lemma covers_insertSpans {spans : List Span} {k : Key} :
    Covers (set.insertSpans spans).s k ↔ Covers set.s k ∨ Covers spans k := by
  rw [s_insertSpans, covers_append]

lemma proper_insertSpans {spans : List Span} (hset : ∀ sp ∈ set.s, sp.Proper)
    (hspans : ∀ sp ∈ spans, sp.Proper) : ∀ sp ∈ (set.insertSpans spans).s, sp.Proper := by
  rw [s_insertSpans]
  exact List.forall_mem_append.mpr ⟨hset, hspans⟩

/-! ## Any sequence of operations -/

/-- An operation comes with what the language leaves open in it. -/
inductive Op where
  | insert (spans : List StoredSpan)
  | mergeAndSort (rt : Runtime)
  | maybeCondense (rt : Runtime) (rangeOf : Key → Option ℕ) (maxBytes : Int)
  | estimateSize (rt : Runtime) (spans : List StoredSpan) (mergeThresholdBytes : Int)

/-- The set, and the spans that were inserted. -/
structure Tracked where
  set : CondensableSpanSet := {}
  inserted : List Span := []
deriving DecidableEq

def Tracked.step (t : Tracked) : Op → Option Tracked
  | .insert spans => some ⟨t.set.insert spans, t.inserted ++ spans.map StoredSpan.span⟩
  | .mergeAndSort rt => some { t with set := t.set.mergeAndSort rt }
  | .maybeCondense rt rangeOf maxBytes =>
    (t.set.maybeCondense rangeOf maxBytes rt).map fun r => { t with set := r.1 }
  | .estimateSize rt spans n => some { t with set := (t.set.estimateSize spans n rt).1 }

def Tracked.Valid (_ : Tracked) : Op → Prop
  | .insert spans => AllProper spans
  | _ => True

structure Tracked.Inv (t : Tracked) : Prop where
  proper : ∀ sp ∈ t.set.s, sp.Proper
  covers : ∀ k, Covers t.inserted k → Covers t.set.s k
  exact : t.set.condensed = false → ∀ k, Covers t.set.s k → Covers t.inserted k
  bytes : t.set.bytes = spansSize t.set.stored

variable {t : Tracked}

lemma Tracked.Inv.keeps (h : t.Inv) (hset : Keeps t.set set) : Inv { t with set := set } where
  proper := hset.proper h.proper
  covers k hk := hset.covers h.proper k (h.covers k hk)
  exact hcondensed k hk := by
    obtain ⟨hbefore, hcovers⟩ := hset.exact h.proper hcondensed
    exact h.exact hbefore k (hcovers k hk)
  bytes := hset.bytes h.bytes

lemma Tracked.Inv.step {t' : Tracked} {op : Op} (h : t.Inv) (hvalid : t.Valid op)
    (hstep : t.step op = some t') : t'.Inv := by
  cases op with
  | insert spans =>
    cases hstep
    refine ⟨?_, ?_, ?_, ?_⟩
    · rw [s_insert]
      exact List.forall_mem_append.mpr ⟨h.proper, List.forall_mem_map.mpr hvalid⟩
    · intro k hk
      rw [s_insert]
      exact covers_append.mpr ((covers_append.mp hk).imp_left (h.covers k))
    · intro hcondensed k hk
      rw [s_insert] at hk
      exact covers_append.mpr ((covers_append.mp hk).imp_left (h.exact hcondensed k))
    · rw [CondensableSpanSet.insert, spansSize_append, h.bytes]
  | mergeAndSort rt =>
    cases hstep
    exact h.keeps t.set.keeps_mergeAndSort
  | maybeCondense rt rangeOf maxBytes =>
    obtain ⟨r, hr, rfl⟩ := map_eq_some_iff.mp hstep
    exact h.keeps (keeps_maybeCondense hr)
  | estimateSize rt spans n =>
    cases hstep
    exact h.keeps (t.set.keeps_estimateSize spans n)

/-- No key of an inserted span is lost, none is added before condensing, and the bytes are right,
whatever the capacities of the keys and the orders of the sorts are. -/
theorem condensing_loses_no_key {t : Tracked}
    (h : Transition.Reachable Tracked.step Tracked.Valid {} t) :
    (∀ k, Covers t.inserted k → Covers t.set.s k) ∧
      (t.set.condensed = false → ∀ k, Covers t.set.s k ↔ Covers t.inserted k) ∧
      t.set.bytes = (t.set.stored.map spanSize).sum := by
  have hinv : t.Inv := by
    apply h.invariant
    · exact ⟨by simp [s], by simp [Covers], by simp [Covers, s], rfl⟩
    intro s op s' _ hs hvalid hstep
    exact hs.step hvalid hstep
  refine ⟨hinv.covers, ?_, hinv.bytes⟩
  intro hcondensed k
  exact ⟨hinv.exact hcondensed k, hinv.covers k⟩

/-- Two keys of one range, one of them in a longer slice, are condensed to a range. -/
theorem condensing_loses_no_key_two :
    ∃ t, Transition.Reachable Tracked.step Tracked.Valid {} t ∧
      t.set.s = [⟨[5], some [7, 0]⟩] ∧ Covers t.set.s [7] ∧ t.set.bytes = 58 ∧
      t.set.bytes = (t.set.stored.map spanSize).sum := by
  let condensed : Tracked :=
    ⟨⟨[⟨⟨[5], 8, by decide⟩, some (.ofKey [7, 0])⟩], 58, true⟩, [⟨[5], none⟩, ⟨[7], none⟩]⟩
  have hreach : Transition.Reachable Tracked.step Tracked.Valid {} condensed :=
    @Transition.Reachable.of_run _ _ Tracked.step Tracked.Valid _
      [.insert [⟨⟨[5], 8, by decide⟩, none⟩, .ofSpan ⟨[7], none⟩],
        .maybeCondense .stable (fun _ => some 1) 0] _ condensed .init
      (by simp [Tracked.Valid, AllProper, Span.Proper, StoredSpan.span, StoredSpan.ofSpan])
      (by decide)
  have h := condensing_loses_no_key hreach
  exact ⟨_, hreach, rfl, h.1 [7] ⟨⟨[7], none⟩, .tail _ (.head _), rfl⟩, rfl, h.2.2⟩

end CondensableSpanSet
end MeshDB.KvCoord
