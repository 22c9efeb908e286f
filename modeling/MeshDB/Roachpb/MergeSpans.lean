import MeshDB.Roachpb.Span
import Mathlib.Data.List.Sort
import Mathlib.Data.Prod.Lex

/-!
# Merging spans

`MergeSpans` of `roachpb` sorts spans and joins those that overlap or touch. No key
of the spans is lost, with one exception: a point whose end key is empty but not nil
is dropped if it directly follows a span.
-/
namespace MeshDB.Roachpb

open List Roachpb.Span

/-- The least key after `k`. -/
def Key.next (k : Key) : Key := k ++ [0]

namespace Span

def Proper (sp : Span) : Prop := sp.endKey = none ∨ sp.key < sp.endKeyBytes

instance (sp : Span) : Decidable sp.Proper := inferInstanceAs (Decidable (_ ∨ _))

def sortKey (sp : Span) : Key ×ₗ Key := toLex (sp.key, sp.endKeyBytes)

def sortLe (a b : Span) : Prop := a.sortKey ≤ b.sortKey

instance : DecidableRel sortLe := fun a b => inferInstanceAs (Decidable (a.sortKey ≤ b.sortKey))

end Span

/-- The spans before the last one of the result, the last one, and whether all were distinct. -/
structure MergeState where
  done : List Span
  prev : Span
  distinct : Bool
deriving DecidableEq

def MergeState.append (st : MergeState) (cur : Span) : MergeState :=
  { st with done := st.done ++ [st.prev], prev := cur }

/-- The branch of a round in which the last span is a range that reaches the key of
the next span. -/
def mergeTouching (st : MergeState) (cur : Span) : MergeState :=
  match cur.endKey with
  | some endKey =>
    if st.prev.endKeyBytes < endKey then
      { st with
        prev := { st.prev with endKey := some endKey }
        distinct := st.distinct && !decide (cur.key < st.prev.endKeyBytes) }
    else { st with distinct := false }
  | none =>
    if cur.key = st.prev.endKeyBytes then
      { st with prev := { st.prev with endKey := some cur.key.next } }
    else { st with distinct := false }

def mergeStep (st : MergeState) (cur : Span) : MergeState :=
  if cur.isPoint && st.prev.isPoint then
    if cur.key ≠ st.prev.key then st.append cur
    else { st with distinct := false }
  else if st.prev.isPoint then
    if cur.key = st.prev.key then
      { st with prev := { st.prev with endKey := cur.endKey }, distinct := false }
    else st.append cur
  else if cur.key ≤ st.prev.endKeyBytes then mergeTouching st cur
  else st.append cur

def mergeSorted : List Span → List Span × Bool
  | [] => ([], true)
  | sp :: rest =>
    let st := rest.foldl mergeStep ⟨[], sp, true⟩
    (st.done ++ [st.prev], st.distinct)

/-- Sorts the spans and merges them. The result says whether they were distinct. -/
def mergeSpans (spans : List Span) : List Span × Bool :=
  mergeSorted (spans.insertionSort Span.sortLe)

def Covers (spans : List Span) (k : Key) : Prop := ∃ sp ∈ spans, Span.Mem k sp

lemma Key.lt_next (k : Key) : k < k.next := by
  induction k with
  | nil => exact List.Lex.nil
  | cons b k ih => exact List.Lex.cons ih

variable {k : Key} {spans : List Span}

lemma Key.le_of_lt_next {j : Key} (h : j < k.next) : j ≤ k := by
  induction k generalizing j with
  | nil =>
    cases h with
    | nil => exact le_rfl
    | rel hlt => exact absurd hlt (by simp)
    | cons hlt => cases hlt
  | cons b k ih =>
    cases h with
    | nil => exact (show ([] : Key) < b :: k from List.Lex.nil).le
    | rel hlt => exact (show _ < _ from List.Lex.rel hlt).le
    | cons hlt =>
      rcases (ih hlt).lt_or_eq with hjk | rfl
      · exact le_of_lt (List.Lex.cons hjk)
      · exact le_rfl

lemma Key.not_lt_nil (k : Key) : ¬ k < [] := by
  intro h
  cases h

namespace Span

variable {sp : Span}

lemma mem_of_isPoint (h : sp.isPoint) : Mem k sp ↔ k = sp.key := by
  simp [Mem, h]

lemma mem_of_not_isPoint (h : ¬ sp.isPoint) :
    Mem k sp ↔ sp.key ≤ k ∧ k < sp.endKeyBytes := by
  simp [Mem, h]

lemma isPoint_iff : sp.isPoint ↔ sp.endKeyBytes = [] := by
  simp [isPoint]

lemma not_isPoint_of_lt {sp : Span} {k : Key} (h : k < sp.endKeyBytes) : ¬ sp.isPoint := by
  intro hp
  rw [isPoint_iff.mp hp] at h
  exact Key.not_lt_nil k h

lemma mem_of_lt (h1 : sp.key ≤ k) (h2 : k < sp.endKeyBytes) :
    Mem k sp := (mem_of_not_isPoint (not_isPoint_of_lt h2)).mpr ⟨h1, h2⟩

lemma Proper.wf (h : sp.Proper) : sp.Wf := by
  rcases h with h | h
  · exact .inl (by simp [isPoint, endKeyBytes, h])
  · exact .inr h

lemma Proper.endKey_ne (h : sp.Proper) : sp.endKey ≠ some [] := by
  intro heq
  rcases h with h | h
  · simp [heq] at h
  simp only [endKeyBytes, heq, Option.getD_some] at h
  exact Key.not_lt_nil _ h

lemma lt_of_wf (h : sp.Wf) (hp : ¬ sp.isPoint) : sp.key < sp.endKeyBytes :=
  h.resolve_left hp

lemma key_mem (h : sp.Wf) : Mem sp.key sp := by
  by_cases hp : sp.isPoint
  · exact (mem_of_isPoint hp).mpr rfl
  · exact mem_of_lt le_rfl (lt_of_wf h hp)

lemma key_le_of_mem (h : Mem k sp) : sp.key ≤ k := by
  by_cases hp : sp.isPoint
  · exact ((mem_of_isPoint hp).mp h).ge
  · exact ((mem_of_not_isPoint hp).mp h).1

end Span

variable {spans' : List Span}

lemma Covers.mono (h : ∀ sp ∈ spans, sp ∈ spans')
    (hk : Covers spans k) : Covers spans' k := by
  obtain ⟨sp, hsp, hmem⟩ := hk
  exact ⟨sp, h sp hsp, hmem⟩

lemma covers_perm (h : spans.Perm spans') :
    Covers spans k ↔ Covers spans' k :=
  ⟨.mono fun _ => h.mem_iff.mp, .mono fun _ => h.mem_iff.mpr⟩

lemma covers_append :
    Covers (spans ++ spans') k ↔ Covers spans k ∨ Covers spans' k := by
  constructor
  · rintro ⟨sp, hsp, hmem⟩
    rcases mem_append.mp hsp with h | h
    · exact .inl ⟨sp, h, hmem⟩
    · exact .inr ⟨sp, h, hmem⟩
  rintro (⟨sp, hsp, hmem⟩ | ⟨sp, hsp, hmem⟩)
  · exact ⟨sp, mem_append_left _ hsp, hmem⟩
  · exact ⟨sp, mem_append_right _ hsp, hmem⟩

def MergeState.Covered (st : MergeState) (k : Key) : Prop :=
  Covers st.done k ∨ Span.Mem k st.prev

variable {sp : Span}

lemma covers_singleton : Covers [sp] k ↔ Span.Mem k sp := by
  simp [Covers]

lemma MergeState.covered_iff {st : MergeState} :
    Covers (st.done ++ [st.prev]) k ↔ st.Covered k := by
  rw [covers_append, covers_singleton, MergeState.Covered]

/-- What a round does: the next span is appended, is in the last one, is dropped although it is
not, or joins it. -/
inductive MergeRound (st : MergeState) (cur : Span) : MergeState → Prop
  | append (habove : ∀ k, Span.Mem k st.prev → k < cur.key)
      (hend : ¬ st.prev.isPoint → st.prev.endKeyBytes < cur.key) :
      MergeRound st cur (st.append cur)
  | contained (hmem : Span.Mem cur.key st.prev)
      (hsub : ∀ k, Span.Mem k cur → Span.Mem k st.prev)
      (hend : ¬ cur.isPoint → ¬ st.prev.isPoint ∧ cur.endKeyBytes ≤ st.prev.endKeyBytes) :
      MergeRound st cur { st with distinct := false }
  | dropped (hrange : ¬ st.prev.isPoint) (hcur : cur = ⟨st.prev.endKeyBytes, some []⟩) :
      MergeRound st cur { st with distinct := false }
  | extend (endKey : Key) (distinct : Bool) (hlt : st.prev.key < endKey)
      (hmem : ∀ k, st.prev.key ≤ k ∧ k < endKey ↔ Span.Mem k st.prev ∨ Span.Mem k cur)
      (hdistinct : distinct = false ∧ Span.Mem cur.key st.prev ∨
        distinct = st.distinct ∧ ∀ k, Span.Mem k st.prev → k < cur.key)
      (hend : endKey = cur.endKeyBytes ∨
        ¬ st.prev.isPoint ∧ cur = ⟨st.prev.endKeyBytes, none⟩ ∧ endKey = cur.key.next) :
      MergeRound st cur
        { st with prev := { st.prev with endKey := some endKey }, distinct := distinct }

variable {st st' : MergeState} {cur : Span}

lemma mergeRound_contained (hle : st.prev.key ≤ cur.key)
    (hlt : cur.key < st.prev.endKeyBytes) (hend : cur.endKeyBytes ≤ st.prev.endKeyBytes) :
    MergeRound st cur { st with distinct := false } := by
  refine .contained (mem_of_lt hle hlt) (fun k hk => ?_)
    fun _ => ⟨not_isPoint_of_lt hlt, hend⟩
  by_cases hc : cur.isPoint
  · rw [(mem_of_isPoint hc).mp hk]
    exact mem_of_lt hle hlt
  obtain ⟨h1, h2⟩ := (mem_of_not_isPoint hc).mp hk
  exact mem_of_lt (hle.trans h1) (h2.trans_le hend)

lemma mergeTouching_spec (hle : st.prev.key ≤ cur.key) (hprev : st.prev.Wf) (hcur : cur.Wf)
    (hrange : ¬ st.prev.isPoint) (htouch : cur.key ≤ st.prev.endKeyBytes) :
    MergeRound st cur (mergeTouching st cur) := by
  have hprevlt := lt_of_wf hprev hrange
  have hmem : ∀ {k}, Span.Mem k st.prev ↔ st.prev.key ≤ k ∧ k < st.prev.endKeyBytes :=
    mem_of_not_isPoint hrange
  unfold mergeTouching
  cases hend : cur.endKey with
  | some endKey =>
    have hbytes : cur.endKeyBytes = endKey := by simp [Span.endKeyBytes, hend]
    dsimp only
    split_ifs with hlt
    · have hc : ¬ cur.isPoint := not_isPoint_of_lt (by rwa [hbytes])
      refine .extend endKey _ (hprevlt.trans hlt) (fun k => ?_) ?_ (.inl hbytes.symm)
      · rw [hmem, mem_of_not_isPoint hc, hbytes]
        constructor
        · rintro ⟨h1, h2⟩
          by_cases hk : k < st.prev.endKeyBytes
          · exact .inl ⟨h1, hk⟩
          · exact .inr ⟨htouch.trans (not_lt.mp hk), h2⟩
        rintro (⟨h1, h2⟩ | ⟨h1, h2⟩)
        · exact ⟨h1, h2.trans hlt⟩
        · exact ⟨hle.trans h1, h2⟩
      · by_cases hkey : cur.key < st.prev.endKeyBytes
        · exact .inl ⟨by simp [hkey], mem_of_lt hle hkey⟩
        · exact .inr ⟨by simp [hkey], fun k hk => (hmem.mp hk).2.trans_le (not_lt.mp hkey)⟩
    rcases htouch.lt_or_eq with hkey | hkey
    · exact mergeRound_contained hle hkey (hbytes ▸ not_lt.mp hlt)
    refine .dropped hrange ?_
    rcases hcur with hc | hc
    · rw [isPoint_iff, hbytes] at hc
      rw [← hkey, ← hc, ← hend]
    · exact absurd (hkey ▸ hbytes ▸ hc) hlt
  | none =>
    have hc : cur.isPoint := by simp [Span.isPoint, Span.endKeyBytes, hend]
    split_ifs with heq
    · refine .extend cur.key.next st.distinct (hprevlt.trans (heq ▸ Key.lt_next cur.key))
        (fun k => ?_) (.inr ⟨rfl, fun k hk => heq ▸ (hmem.mp hk).2⟩)
        (.inr ⟨hrange, by rw [← heq, ← hend], rfl⟩)
      rw [hmem, mem_of_isPoint hc, ← heq]
      constructor
      · rintro ⟨h1, h2⟩
        exact (Key.le_of_lt_next h2).lt_or_eq.imp_left fun hk => ⟨h1, hk⟩
      rintro (⟨h1, h2⟩ | rfl)
      · exact ⟨h1, h2.trans (Key.lt_next cur.key)⟩
      · exact ⟨hle, Key.lt_next cur.key⟩
    · refine mergeRound_contained hle (lt_of_le_of_ne htouch heq) ?_
      rw [isPoint_iff.mp hc]
      exact not_lt.mp (Key.not_lt_nil _)

lemma mergeStep_spec (hle : st.prev.key ≤ cur.key) (hprev : st.prev.Wf) (hcur : cur.Wf) :
    MergeRound st cur (mergeStep st cur) := by
  have happend (hp : st.prev.isPoint) (hne : cur.key ≠ st.prev.key) :
      MergeRound st cur (st.append cur) := by
    refine .append (fun k hk => ?_) fun hrange => absurd hp hrange
    rw [(mem_of_isPoint hp).mp hk]
    exact lt_of_le_of_ne hle hne.symm
  unfold mergeStep
  split_ifs with hboth hkey hpoint hkey htouch
  · exact happend (Bool.and_eq_true _ _ ▸ hboth).2 hkey
  · obtain ⟨hc, hp⟩ := Bool.and_eq_true _ _ ▸ hboth
    have hmem := (mem_of_isPoint hp).mpr (not_not.mp hkey)
    exact .contained hmem (fun k hk => (mem_of_isPoint hc).mp hk ▸ hmem) fun h => absurd hc h
  · have hrange : ¬ cur.isPoint := fun hc => hboth (by simp [hc, hpoint])
    have hlt := lt_of_wf hcur hrange
    have hend : cur.endKey = some cur.endKeyBytes := by
      cases he : cur.endKey with
      | none => simp [Span.endKeyBytes, he] at hlt
      | some e => simp [Span.endKeyBytes, he]
    rw [hend]
    refine .extend _ false (hkey ▸ hlt) (fun k => ?_)
      (.inl ⟨rfl, (mem_of_isPoint hpoint).mpr hkey⟩) (.inl rfl)
    rw [mem_of_isPoint hpoint, mem_of_not_isPoint hrange, ← hkey]
    constructor
    · exact .inr
    rintro (rfl | h)
    · exact ⟨le_rfl, hlt⟩
    · exact h
  · exact happend hpoint hkey
  · exact mergeTouching_spec hle hprev hcur hpoint htouch
  · refine .append (fun k hk => ?_) fun _ => not_le.mp htouch
    exact ((mem_of_not_isPoint hpoint).mp hk).2.trans (not_le.mp htouch)

lemma MergeRound.covered (h : MergeRound st cur st') :
    (∀ k, st'.Covered k ↔ st.Covered k ∨ Span.Mem k cur) ∨
      st' = { st with distinct := false } ∧ ¬ st.prev.isPoint ∧
        cur = ⟨st.prev.endKeyBytes, some []⟩ := by
  cases h with
  | append => exact .inl fun _ => or_congr_left MergeState.covered_iff
  | contained _ hsub => exact .inl fun k => ⟨.inl, fun h => h.elim id fun hk => .inr (hsub k hk)⟩
  | dropped hrange hcur => exact .inr ⟨rfl, hrange, hcur⟩
  | extend endKey _ hlt hmem =>
    refine .inl fun k => ?_
    have hrange : ¬ Span.isPoint { st.prev with endKey := some endKey } = true :=
      not_isPoint_of_lt hlt
    unfold MergeState.Covered
    rw [mem_of_not_isPoint hrange, or_assoc]
    exact or_congr_right (hmem k)

lemma MergeRound.of_distinct (h : MergeRound st cur st') (hd : st'.distinct) :
    st.distinct ∧ ∀ k, Span.Mem k st.prev → k < cur.key := by
  cases h with
  | append habove => exact ⟨hd, habove⟩
  | contained => cases hd
  | dropped => cases hd
  | extend _ _ _ _ hdistinct =>
    obtain ⟨rfl, -⟩ | ⟨rfl, habove⟩ := hdistinct
    · cases hd
    · exact ⟨hd, habove⟩

lemma MergeRound.of_not_distinct (h : MergeRound st cur st') (hd : st'.distinct = false) :
    st.distinct = false ∨ Span.Mem cur.key st.prev ∨
      ¬ st.prev.isPoint ∧ cur = ⟨st.prev.endKeyBytes, some []⟩ := by
  cases h with
  | append => exact .inl hd
  | contained hmem => exact .inr (.inl hmem)
  | dropped hrange hcur => exact .inr (.inr ⟨hrange, hcur⟩)
  | extend _ _ _ _ hdistinct =>
    obtain ⟨-, hmem⟩ | ⟨rfl, -⟩ := hdistinct
    · exact .inr (.inl hmem)
    · exact .inl hd

/-- A merged range ends at the key: points right at the end of a range belong to it. -/
inductive Ends (spans : List Span) : Key → Prop
  | range {sp : Span} (hsp : sp ∈ spans) (hrange : ¬ sp.isPoint) :
      Ends spans sp.endKeyBytes
  | point {k : Key} (hk : Ends spans k) (hsp : ⟨k, none⟩ ∈ spans) : Ends spans k.next

/-- The key is right at the end of a range, and only in points with an empty end key that is not
nil. -/
structure Lost (spans : List Span) (k : Key) : Prop where
  mem : ⟨k, some []⟩ ∈ spans
  ends : Ends spans k
  only : ∀ sp ∈ spans, Span.Mem k sp → sp = ⟨k, some []⟩

/-- A merged range that ends at the key is before the last span, or part of it. -/
def MergeState.Reaches (st : MergeState) (k : Key) : Prop :=
  k < st.prev.key ∨ ¬ st.prev.isPoint ∧ k ≤ st.prev.endKeyBytes

def Span.Apart (a b : Span) : Prop := ∀ k, Span.Mem k a → ¬ Span.Mem k b

/-- The state of the loop after some spans. -/
structure Merged (spans : List Span) (st : MergeState) : Prop where
  order : (st.done ++ [st.prev]).Pairwise fun a b => ∀ k, Span.Mem k a → k < b.key
  wf : ∀ sp ∈ st.done ++ [st.prev], sp.Wf ∧ (sp.endKey = some [] → sp ∈ spans)
  sound : ∀ k, st.Covered k → Covers spans k
  complete : ∀ k, Covers spans k → st.Covered k ∨ st.distinct = false ∧ Lost spans k
  ends : ¬ st.prev.isPoint → Ends spans st.prev.endKeyBytes
  reaches : ∀ k, Ends spans k → st.Reaches k
  apart : st.distinct → spans.Pairwise Span.Apart
  shared : st.distinct = false → ¬ spans.Pairwise Span.Apart ∨ ∃ k, Lost spans k

lemma Ends.mono (h : Ends spans k) (hsub : ∀ sp ∈ spans, sp ∈ spans') :
    Ends spans' k := by
  induction h with
  | range hsp hrange => exact .range (hsub _ hsp) hrange
  | point _ hsp ih => exact .point ih (hsub _ hsp)

lemma Ends.of_append {rest : List Span} (h : Ends (spans ++ rest) k)
    (hwf : ∀ sp ∈ rest, sp.Wf) (hrest : ∀ sp ∈ rest, k ≤ sp.key) : Ends spans k := by
  induction h with
  | range hsp hrange =>
    rcases mem_append.mp hsp with hsp | hsp
    · exact .range hsp hrange
    · exact absurd (lt_of_wf (hwf _ hsp) hrange) (hrest _ hsp).not_gt
  | point _ hsp ih =>
    rcases mem_append.mp hsp with hsp | hsp
    · exact .point (ih fun sp hsp => (Key.lt_next _).le.trans (hrest sp hsp)) hsp
    · exact absurd (Key.lt_next _) (hrest _ hsp).not_gt

lemma MergeRound.prev_le (h : MergeRound st cur st') (hle : st.prev.key ≤ cur.key) :
    st'.prev.key ≤ cur.key := by
  cases h with
  | append => exact le_rfl
  | contained => exact hle
  | dropped => exact hle
  | extend => exact hle

lemma MergeRound.reaches (h : MergeRound st cur st') (hle : st.prev.key ≤ cur.key)
    (hk : st.Reaches k) : st'.Reaches k := by
  cases h with
  | append _ hend =>
    rcases hk with hk | ⟨hrange, hk⟩
    · exact .inl (hk.trans_le hle)
    · exact .inl (hk.trans_lt (hend hrange))
  | contained => exact hk
  | dropped => exact hk
  | extend endKey _ hlt hmem =>
    refine hk.imp_right fun ⟨_, hk⟩ => ⟨not_isPoint_of_lt hlt, hk.trans (not_lt.mp ?_)⟩
    intro hend
    exact lt_irrefl endKey ((hmem endKey).mpr (.inl (mem_of_lt hlt.le hend))).2

lemma MergeRound.reaches_endKey (h : MergeRound st cur st') (hrange : ¬ cur.isPoint) :
    st'.Reaches cur.endKeyBytes := by
  cases h with
  | append => exact .inr ⟨hrange, le_rfl⟩
  | contained _ _ hend => exact .inr (hend hrange)
  | dropped _ hcur => exact absurd (hcur ▸ rfl) hrange
  | extend _ _ hlt _ _ hend =>
    rcases hend with rfl | ⟨-, hcur, -⟩
    · exact .inr ⟨not_isPoint_of_lt hlt, le_rfl⟩
    · exact absurd (hcur ▸ rfl) hrange

lemma MergeRound.reaches_next (h : MergeRound st ⟨k, none⟩ st') (hle : st.prev.key ≤ k)
    (hk : st.Reaches k) : st'.Reaches k.next := by
  obtain ⟨hrange, hk⟩ := hk.resolve_left hle.not_gt
  cases h with
  | append _ hend => exact absurd (hend hrange) hk.not_gt
  | contained hmem =>
    refine .inr ⟨hrange, not_lt.mp fun hlt => ?_⟩
    exact (Key.le_of_lt_next hlt).not_gt ((mem_of_not_isPoint hrange).mp hmem).2
  | dropped _ hcur => cases hcur
  | extend _ _ hlt _ _ hend =>
    rcases hend with rfl | ⟨-, -, rfl⟩
    · exact absurd hlt (Key.not_lt_nil _)
    · exact .inr ⟨not_isPoint_of_lt hlt, le_rfl⟩

lemma Lost.append (h : Lost spans k) (hcur : Span.Mem k cur → cur = ⟨k, some []⟩) :
    Lost (spans ++ [cur]) k where
  mem := mem_append_left _ h.mem
  ends := h.ends.mono fun _ => mem_append_left _
  only := by
    intro sp hsp hk
    rcases mem_append.mp hsp with hsp | hsp
    · exact h.only sp hsp hk
    rw [mem_singleton.mp hsp] at hk ⊢
    exact hcur hk

lemma not_pairwise_of_shared (hsp : sp ∈ spans) (hk : Span.Mem k sp)
    (hcur : Span.Mem k cur) : ¬ (spans ++ [cur]).Pairwise Span.Apart := fun h =>
  (pairwise_append.mp h).2.2 sp hsp cur mem_cons_self k hk hcur

lemma Merged.lt_of_covered (h : Merged spans st) (hle : st.prev.key ≤ cur.key)
    (habove : ∀ k, Span.Mem k st.prev → k < cur.key) (hk : st.Covered k) : k < cur.key := by
  rcases hk with ⟨sp, hsp, hk⟩ | hk
  · exact ((pairwise_append.mp h.order).2.2 sp hsp _ mem_cons_self k hk).trans_le hle
  · exact habove k hk

lemma Merged.dropped (h : Merged spans st) (hrange : ¬ st.prev.isPoint)
    (hcur : cur = ⟨st.prev.endKeyBytes, some []⟩) (hk : Span.Mem k cur)
    (hnot : ¬ Covers spans k) : Lost (spans ++ [cur]) k := by
  subst hcur
  have hkey : k = st.prev.endKeyBytes := (mem_of_isPoint rfl).mp hk
  subst hkey
  refine ⟨mem_append_right _ mem_cons_self,
    (h.ends hrange).mono fun _ => mem_append_left _, fun sp hsp hk => ?_⟩
  rcases mem_append.mp hsp with hsp | hsp
  · exact absurd ⟨sp, hsp, hk⟩ hnot
  · exact mem_singleton.mp hsp

lemma Merged.order_step (h : Merged spans st) (hround : MergeRound st cur st')
    (hle : st.prev.key ≤ cur.key) :
    (st'.done ++ [st'.prev]).Pairwise fun a b => ∀ k, Span.Mem k a → k < b.key := by
  obtain ⟨hdone, -, hprev⟩ := pairwise_append.mp h.order
  cases hround with
  | append habove =>
    refine pairwise_append.mpr ⟨h.order, pairwise_singleton _ _, ?_⟩
    intro a ha b hb k hk
    rw [mem_singleton.mp hb]
    exact h.lt_of_covered hle habove (MergeState.covered_iff.mp ⟨a, ha, hk⟩)
  | contained => exact h.order
  | dropped => exact h.order
  | extend =>
    refine pairwise_append.mpr ⟨hdone, pairwise_singleton _ _, ?_⟩
    intro a ha b hb
    rw [mem_singleton.mp hb]
    exact hprev a ha st.prev mem_cons_self

lemma Merged.wf_step (h : Merged spans st) (hround : MergeRound st cur st')
    (hcur : cur.Wf) :
    ∀ sp ∈ st'.done ++ [st'.prev], sp.Wf ∧ (sp.endKey = some [] → sp ∈ spans ++ [cur]) := by
  have hold : ∀ sp ∈ st.done ++ [st.prev], sp.Wf ∧ (sp.endKey = some [] → sp ∈ spans ++ [cur]) :=
    fun sp hsp => ⟨(h.wf sp hsp).1, fun he => mem_append_left _ ((h.wf sp hsp).2 he)⟩
  intro sp hsp
  cases hround with
  | append =>
    rcases mem_append.mp hsp with hsp | hsp
    · exact hold sp hsp
    rw [mem_singleton.mp hsp]
    exact ⟨hcur, fun _ => mem_append_right _ mem_cons_self⟩
  | contained => exact hold sp hsp
  | dropped => exact hold sp hsp
  | extend endKey _ hlt =>
    rcases mem_append.mp hsp with hsp | hsp
    · exact hold sp (mem_append_left _ hsp)
    rw [mem_singleton.mp hsp]
    refine ⟨.inr hlt, fun he => ?_⟩
    rw [Option.some.inj he] at hlt
    exact absurd hlt (Key.not_lt_nil _)

lemma Merged.complete_step (h : Merged spans st) (hround : MergeRound st cur st') :
    ∀ k, Covers (spans ++ [cur]) k →
      st'.Covered k ∨ st'.distinct = false ∧ Lost (spans ++ [cur]) k := by
  intro k hk
  have hk := (covers_append.mp hk).imp_right covers_singleton.mp
  rcases hround.covered with hcov | ⟨rfl, hrange, rfl⟩
  · rw [hcov]
    by_cases hmem : Span.Mem k cur
    · exact .inl (.inr hmem)
    refine (h.complete k (hk.resolve_right hmem)).imp .inl fun ⟨hd, hlost⟩ => ⟨?_, ?_⟩
    · by_contra hne
      rw [(hround.of_distinct (Bool.not_eq_false _ ▸ hne)).1] at hd
      cases hd
    · exact hlost.append fun hk => absurd hk hmem
  by_cases hcov : Covers spans k
  · refine (h.complete k hcov).imp_right fun ⟨_, hlost⟩ => ⟨rfl, hlost.append fun hk => ?_⟩
    rw [(mem_of_isPoint rfl).mp hk]
  · exact .inr ⟨rfl, h.dropped hrange rfl (hk.resolve_left hcov) hcov⟩

lemma Merged.ends_step (h : Merged spans st) (hround : MergeRound st cur st') :
    ¬ st'.prev.isPoint → Ends (spans ++ [cur]) st'.prev.endKeyBytes := by
  intro hrange
  cases hround with
  | append => exact .range (mem_append_right _ mem_cons_self) hrange
  | contained => exact (h.ends hrange).mono fun _ => mem_append_left _
  | dropped => exact (h.ends hrange).mono fun _ => mem_append_left _
  | extend endKey _ hlt _ _ hend =>
    have hmem : cur ∈ spans ++ [cur] := mem_append_right _ mem_cons_self
    rcases hend with rfl | ⟨hprev, rfl, rfl⟩
    · exact show Ends _ cur.endKeyBytes from .range hmem (not_isPoint_of_lt hlt)
    · exact .point ((h.ends hprev).mono fun _ => mem_append_left _) hmem

lemma Merged.reaches_step (h : Merged spans st) (hround : MergeRound st cur st')
    (hle : st.prev.key ≤ cur.key) (hcur : cur.Wf) (hmax : ∀ sp ∈ spans, sp.key ≤ cur.key) :
    ∀ k, Ends (spans ++ [cur]) k → st'.Reaches k := by
  have hold : ∀ k, Ends (spans ++ [cur]) k → k ≤ cur.key → st.Reaches k := by
    intro k hk hkey
    refine h.reaches k (hk.of_append (fun sp hsp => ?_) fun sp hsp => ?_)
    · exact mem_singleton.mp hsp ▸ hcur
    · exact mem_singleton.mp hsp ▸ hkey
  intro k hk
  cases hk with
  | range hsp hrange =>
    rcases mem_append.mp hsp with hsp | hsp
    · exact hround.reaches hle (h.reaches _ (.range hsp hrange))
    rw [mem_singleton.mp hsp] at hrange ⊢
    exact hround.reaches_endKey hrange
  | point hk hsp =>
    rcases mem_append.mp hsp with hmem | hmem
    · have hk := hk.of_append (fun sp hsp => mem_singleton.mp hsp ▸ hcur)
        fun sp hsp => mem_singleton.mp hsp ▸ hmax _ hmem
      exact hround.reaches hle (h.reaches _ (.point hk hmem))
    obtain rfl := mem_singleton.mp hmem
    exact hround.reaches_next hle (hold _ hk le_rfl)

lemma Merged.apart_step (h : Merged spans st) (hround : MergeRound st cur st')
    (hle : st.prev.key ≤ cur.key) :
    st'.distinct → (spans ++ [cur]).Pairwise Span.Apart := by
  intro hd
  obtain ⟨hd, habove⟩ := hround.of_distinct hd
  refine pairwise_append.mpr ⟨h.apart hd, pairwise_singleton _ _, ?_⟩
  intro sp hsp b hb k hk hk'
  rw [mem_singleton.mp hb] at hk'
  rcases h.complete k ⟨sp, hsp, hk⟩ with hcov | ⟨hd', -⟩
  · exact (h.lt_of_covered hle habove hcov).not_ge (key_le_of_mem hk')
  rw [hd] at hd'
  cases hd'

lemma Merged.shared_step (h : Merged spans st) (hround : MergeRound st cur st')
    (hcur : cur.Wf) :
    st'.distinct = false →
      ¬ (spans ++ [cur]).Pairwise Span.Apart ∨ ∃ k, Lost (spans ++ [cur]) k := by
  intro hd
  have hkey := key_mem hcur
  rcases hround.of_not_distinct hd with hd | hmem | ⟨hrange, heq⟩
  · rcases h.shared hd with hnot | ⟨k, hlost⟩
    · exact .inl fun hp => hnot (pairwise_append.mp hp).1
    by_cases hk : Span.Mem k cur
    · exact .inl (not_pairwise_of_shared hlost.mem ((mem_of_isPoint rfl).mpr rfl) hk)
    · exact .inr ⟨k, hlost.append fun hk' => absurd hk' hk⟩
  · obtain ⟨sp, hsp, hk⟩ := h.sound _ (.inr hmem)
    exact .inl (not_pairwise_of_shared hsp hk hkey)
  by_cases hcov : Covers spans cur.key
  · obtain ⟨sp, hsp, hk⟩ := hcov
    exact .inl (not_pairwise_of_shared hsp hk hkey)
  · exact .inr ⟨_, h.dropped hrange heq hkey hcov⟩

lemma Merged.step (h : Merged spans st) (hround : MergeRound st cur st')
    (hle : st.prev.key ≤ cur.key) (hcur : cur.Wf) (hmax : ∀ sp ∈ spans, sp.key ≤ cur.key) :
    Merged (spans ++ [cur]) st' where
  order := h.order_step hround hle
  wf := h.wf_step hround hcur
  sound := by
    intro k hk
    have hk : st.Covered k ∨ Span.Mem k cur := by
      rcases hround.covered with hcov | ⟨rfl, -, -⟩
      · exact (hcov k).mp hk
      · exact .inl hk
    exact covers_append.mpr (hk.imp (h.sound k) covers_singleton.mpr)
  complete := h.complete_step hround
  ends := h.ends_step hround
  reaches := h.reaches_step hround hle hcur hmax
  apart := h.apart_step hround hle
  shared := h.shared_step hround hcur

lemma merged_first (hsp : sp.Wf) : Merged [sp] ⟨[], sp, true⟩ where
  order := pairwise_singleton _ _
  wf := fun _ h => by
    rw [mem_singleton.mp h]
    exact ⟨hsp, fun _ => mem_cons_self⟩
  sound := fun _ h => MergeState.covered_iff.mpr h
  complete := fun _ h => .inl (MergeState.covered_iff.mp h)
  ends := fun h => .range mem_cons_self h
  reaches := by
    intro k hk
    induction hk with
    | range hsp hrange =>
      rw [mem_singleton.mp hsp] at hrange ⊢
      exact .inr ⟨hrange, le_rfl⟩
    | point _ hmem ih =>
      obtain rfl := mem_singleton.mp hmem
      rcases ih with h | ⟨h, -⟩
      · exact absurd h (lt_irrefl _)
      · exact absurd rfl h
  apart := fun _ => pairwise_singleton _ _
  shared := fun h => nomatch h

variable {rest : List Span} {st : MergeState}

lemma merged_mergeLoop (h : Merged spans st)
    (hsorted : (spans ++ rest).Pairwise fun a b => a.key ≤ b.key)
    (hle : ∀ sp ∈ rest, st.prev.key ≤ sp.key) (hrest : ∀ sp ∈ rest, sp.Wf) :
    Merged (spans ++ rest) (rest.foldl mergeStep st) ∧
      ∀ k, Lost (spans ++ rest) k → ¬ st.Covered k → ¬ (rest.foldl mergeStep st).Covered k := by
  induction rest generalizing st spans with
  | nil => exact ⟨by rwa [append_nil], fun _ _ h => h⟩
  | cons cur rest ih =>
    obtain ⟨-, hcons, hbefore⟩ := pairwise_append.mp hsorted
    have hcur_le := (pairwise_cons.mp hcons).1
    have hprev := (h.wf st.prev (mem_append_right _ mem_cons_self)).1
    have hcur := hrest cur (.head _)
    have hround := mergeStep_spec (hle cur (.head _)) hprev hcur
    have hstep := h.step hround (hle cur (.head _)) hcur fun sp hsp => hbefore sp hsp cur (.head _)
    rw [append_cons] at hsorted
    obtain ⟨hmerged, hnot⟩ := ih hstep hsorted
      (fun sp hsp => (hround.prev_le (hle cur (.head _))).trans (hcur_le sp hsp))
      fun sp hsp => hrest sp (.tail _ hsp)
    rw [← append_cons] at hmerged hnot
    refine ⟨hmerged, fun k hlost hk => hnot k hlost fun hcov => ?_⟩
    by_cases hmem : Span.Mem k cur
    · obtain rfl := hlost.only cur (mem_append_right _ mem_cons_self) hmem
      have hends := hlost.ends.of_append hrest fun sp hsp => by
        rcases mem_cons.mp hsp with rfl | hsp
        · exact le_rfl
        · exact hcur_le sp hsp
      obtain ⟨hrange, hreach⟩ := (h.reaches k hends).resolve_left (hle _ (.head _)).not_gt
      generalize mergeStep st ⟨k, some []⟩ = st' at hround hcov
      cases hround with
      | append _ hend => exact (hend hrange).not_ge hreach
      | contained hmem => exact hk (.inr hmem)
      | dropped => exact hk hcov
      | extend _ _ hlt _ _ hend =>
        rcases hend with rfl | ⟨-, hcur, -⟩
        · exact Key.not_lt_nil _ hlt
        · cases hcur
    · rcases hround.covered with hiff | ⟨heq, -, -⟩
      · exact ((hiff k).mp hcov).elim hk hmem
      rw [heq] at hcov
      exact hk hcov

lemma merged_mergeSorted {first : Span} (hwf : ∀ sp ∈ first :: rest, sp.Wf)
    (hsorted : (first :: rest).Pairwise fun a b => a.key ≤ b.key) :
    Merged (first :: rest) (rest.foldl mergeStep ⟨[], first, true⟩) ∧
      ∀ k, Lost (first :: rest) k → ¬ (rest.foldl mergeStep ⟨[], first, true⟩).Covered k := by
  have hle := (pairwise_cons.mp hsorted).1
  obtain ⟨hmerged, hnot⟩ := merged_mergeLoop (merged_first (hwf first (.head _)))
    (by exact hsorted) hle fun sp hsp => hwf sp (.tail _ hsp)
  refine ⟨hmerged, fun k hlost => hnot k hlost ?_⟩
  rintro (⟨_, h, _⟩ | hmem)
  · cases h
  obtain rfl := hlost.only _ (.head _) hmem
  have hends := @Ends.of_append _ [] _ hlost.ends hwf fun sp hsp => by
    rcases mem_cons.mp hsp with rfl | hsp
    · exact le_rfl
    · exact hle sp hsp
  cases hends with
  | range hsp => cases hsp
  | point _ hsp => cases hsp

lemma pairwise_key_of_sortLe {sorted : List Span} (h : sorted.Pairwise Span.sortLe) :
    sorted.Pairwise fun a b => a.key ≤ b.key := by
  refine h.imp fun h => ?_
  rcases Prod.Lex.toLex_le_toLex.mp h with h | h
  · exact h.le
  · exact h.1.le

lemma pairwise_sortLe (spans : List Span) :
    (spans.insertionSort Span.sortLe).Pairwise Span.sortLe := by
  have htotal : Std.Total Span.sortLe := ⟨fun a b => le_total a.sortKey b.sortKey⟩
  have htrans : IsTrans Span Span.sortLe := ⟨fun _ _ _ h1 h2 => le_trans h1 h2⟩
  exact pairwise_insertionSort Span.sortLe spans

lemma exists_merged (hwf : ∀ sp ∈ spans, sp.Wf) (hne : spans ≠ []) :
    ∃ sorted st, sorted.Perm spans ∧ mergeSpans spans = (st.done ++ [st.prev], st.distinct) ∧
      Merged sorted st := by
  have hperm := perm_insertionSort Span.sortLe spans
  have hsorted := pairwise_key_of_sortLe (pairwise_sortLe spans)
  unfold mergeSpans
  cases hl : spans.insertionSort Span.sortLe with
  | nil =>
    rw [hl] at hperm
    exact absurd (nil_perm.mp hperm) hne
  | cons first rest =>
    rw [hl] at hperm hsorted
    exact ⟨_, _, hperm, rfl,
      (merged_mergeSorted (fun sp h => hwf sp (hperm.mem_iff.mp h)) hsorted).1⟩

/-- Merging loses no key, apart from points with an empty end key that is not nil. -/
lemma mergeSpans_covers (hwf : ∀ sp ∈ spans, sp.Wf)
    (hsp : sp ∈ spans) (hne : sp.endKey ≠ some []) (hk : Span.Mem k sp) :
    Covers (mergeSpans spans).1 k := by
  obtain ⟨sorted, st, hperm, heq, hmerged⟩ := exists_merged hwf (ne_nil_of_mem hsp)
  rw [heq, MergeState.covered_iff]
  have hsp := hperm.mem_iff.mpr hsp
  refine (hmerged.complete k ⟨sp, hsp, hk⟩).resolve_right fun ⟨_, hlost⟩ => hne ?_
  rw [hlost.only sp hsp hk]

lemma mergeSpans_proper (h : ∀ sp ∈ spans, sp.Proper) :
    ∀ sp ∈ (mergeSpans spans).1, sp.Proper := by
  rcases eq_or_ne spans [] with rfl | hne
  · intro sp hsp
    cases hsp
  obtain ⟨sorted, st, hperm, heq, hmerged⟩ := exists_merged (fun sp hsp => (h sp hsp).wf) hne
  rw [heq]
  intro sp hsp
  obtain ⟨hwf, hmem⟩ := hmerged.wf sp hsp
  refine hwf.imp_left fun hpoint => ?_
  cases hend : sp.endKey with
  | none => rfl
  | some e =>
    have he : e = [] := by simpa [Span.endKeyBytes, hend] using isPoint_iff.mp hpoint
    rw [he] at hend
    exact absurd hend (h sp (hperm.mem_iff.mp (hmem hend))).endKey_ne

lemma covers_mergeSpans (h : ∀ sp ∈ spans, sp.Proper)
    (hk : Covers spans k) : Covers (mergeSpans spans).1 k := by
  obtain ⟨sp, hsp, hmem⟩ := hk
  exact mergeSpans_covers (fun sp hsp => (h sp hsp).wf) hsp (h sp hsp).endKey_ne hmem

lemma mergeSpans_sound (hwf : ∀ sp ∈ spans, sp.Wf)
    (hk : Covers (mergeSpans spans).1 k) : Covers spans k := by
  rcases eq_or_ne spans [] with rfl | hne
  · exact hk
  obtain ⟨sorted, st, hperm, heq, hmerged⟩ := exists_merged hwf hne
  rw [heq, MergeState.covered_iff] at hk
  exact (hmerged.sound k hk).mono fun sp hsp => hperm.mem_iff.mp hsp

lemma covers_mergeSpans_iff (h : ∀ sp ∈ spans, sp.Proper) :
    Covers (mergeSpans spans).1 k ↔ Covers spans k :=
  ⟨mergeSpans_sound fun sp hsp => (h sp hsp).wf, covers_mergeSpans h⟩

/-- The result is in order and disjoint, has the keys of the spans, and tells whether these were
disjoint. -/
structure MergesTo (spans : List Span) (result : List Span × Bool) : Prop where
  sorted : result.1.Pairwise fun a b => a.key ≤ b.key
  apart : result.1.Pairwise Span.Apart
  covers : ∀ k, Covers result.1 k ↔ Covers spans k
  distinct : result.2 ↔ spans.Pairwise Span.Apart

lemma Merged.mergesTo (h : Merged spans st) (hlost : ¬ ∃ k, Lost spans k) :
    MergesTo spans (st.done ++ [st.prev], st.distinct) where
  sorted := h.order.imp_of_mem fun ha _ hlt => (hlt _ (key_mem (h.wf _ ha).1)).le
  apart := h.order.imp fun hlt k hk hk' => (hlt k hk).not_ge (key_le_of_mem hk')
  covers := by
    intro k
    rw [MergeState.covered_iff]
    exact ⟨h.sound k, fun hk => (h.complete k hk).resolve_right fun hl => hlost ⟨k, hl.2⟩⟩
  distinct := by
    refine ⟨h.apart, fun hp => ?_⟩
    by_contra hd
    exact (h.shared (Bool.not_eq_true _ ▸ hd)).elim (fun hn => hn hp) hlost

lemma Lost.perm (h : Lost spans k) (hperm : spans.Perm spans') :
    Lost spans' k :=
  ⟨hperm.mem_iff.mp h.mem, h.ends.mono fun _ => hperm.mem_iff.mp,
    fun sp hsp => h.only sp (hperm.mem_iff.mpr hsp)⟩

lemma MergesTo.perm {result : List Span × Bool} (h : MergesTo spans result)
    (hperm : spans.Perm spans') : MergesTo spans' result where
  sorted := h.sorted
  apart := h.apart
  covers := fun k => (h.covers k).trans (covers_perm hperm)
  distinct := h.distinct.trans (hperm.pairwise_iff fun hab k hk hk' => hab k hk' hk)

/-- Merging keeps the covered keys, whatever the order of equal spans in the sorted list, if and
only if no key is lost that only points with an empty end key have, right at the end of a range. -/
theorem mergeSpans_preserves_coverage {sorted : List Span} (hwf : ∀ sp ∈ spans, sp.Wf)
    (hperm : sorted.Perm spans) (hsorted : sorted.Pairwise Span.sortLe) :
    MergesTo spans (mergeSorted sorted) ↔ ¬ ∃ k, Lost spans k := by
  constructor
  · rintro hmerges ⟨k, hlost⟩
    have hcov := (hmerges.covers k).mpr ⟨_, hlost.mem, (mem_of_isPoint rfl).mpr rfl⟩
    have hlost := hlost.perm hperm.symm
    cases sorted with
    | nil => cases hlost.mem
    | cons first rest =>
      have hnot := (merged_mergeSorted (fun sp h => hwf sp (hperm.mem_iff.mp h))
        (pairwise_key_of_sortLe hsorted)).2 k hlost
      exact hnot (MergeState.covered_iff.mp hcov)
  intro hlost
  refine MergesTo.perm ?_ hperm
  cases sorted with
  | nil =>
    exact ⟨.nil, .nil, fun _ => Iff.rfl, iff_of_true rfl .nil⟩
  | cons first rest =>
    refine (merged_mergeSorted (fun sp h => hwf sp (hperm.mem_iff.mp h))
      (pairwise_key_of_sortLe hsorted)).1.mergesTo ?_
    rintro ⟨k, hl⟩
    exact hlost ⟨k, hl.perm hperm⟩

theorem mergeSpans_preserves_coverage_touching :
    MergesTo [⟨[1], some [2]⟩, ⟨[2], none⟩] ([⟨[1], some [2, 0]⟩], true) := by
  have hproper : ∀ sp ∈ [(⟨[1], some [2]⟩ : Span), ⟨[2], none⟩], sp.Proper := by decide
  refine (mergeSpans_preserves_coverage (fun sp h => (hproper sp h).wf) (List.Perm.refl _)
    (by decide)).mpr ?_
  rintro ⟨k, hlost⟩
  simpa using hlost.mem

/-- The point that follows a range directly is lost if its end key is empty and not nil. -/
theorem mergeSpans_loses_point :
    mergeSpans [⟨[1], some [2]⟩, ⟨[2], some []⟩] = ([⟨[1], some [2]⟩], false) ∧
    Covers [⟨[1], some [2]⟩, ⟨[2], some []⟩] [2] ∧ ¬ Covers [⟨[1], some [2]⟩] [2] := by
  refine ⟨by decide, ⟨_, .tail _ (.head _), by decide⟩, ?_⟩
  rw [covers_singleton]
  decide

end MeshDB.Roachpb
