import MeshDB.Lib.Outcome
import MeshDB.Storage.Store

/-!
# Iterating over points and range keys

The loops over a combined iterator have one shape: where the range keys change they take note of
them, and a point is processed with the range keys over it. They visit the keys in order, and see
every fragment change exactly once.
-/
namespace MeshDB.Storage

open List Roachpb Hlc

def versionsOf : Option RangeKeyStack → List Version
  | some r => r.versions
  | none => []

section
variable {σ ε : Type} (bare : σ → ε) (onChange : σ → Option RangeKeyStack → σ)
  (onPoint : σ → List Version → Key → Point → Except ε σ)

/-- The loop from the last range keys on. `bare` is the error at a position with neither. -/
def iterate : Option RangeKeyStack → List StorePosition → σ → Except ε σ
  | _, [], st => .ok st
  | prev, p :: rest, st =>
    match p.point with
    | none =>
      if p.stack = prev then .error (bare st) else iterate p.stack rest (onChange st p.stack)
    | some point =>
      onPoint (if p.stack = prev then st else onChange st p.stack) (versionsOf p.stack) p.key
        point >>= iterate p.stack rest

def StoreKey.points (d : StoreKey) : List Point :=
  d.metadata.toList.map .metadata ++ d.versions.map .version

def iterPoints (tombstones : List Version) (key : Key) : List Point → σ → Except ε σ
  | [], st => .ok st
  | point :: rest, st => onPoint st tombstones key point >>= iterPoints tombstones key rest

def iterKeys (s : Store) : Option RangeKeyStack → List StoreKey → σ → Except ε σ
  | _, [], st => .ok st
  | prev, d :: rest, st =>
    iterPoints onPoint (s.tombstonesAt d.key) d.key d.points
        (if s.stackAt d.key = prev then st else onChange st (s.stackAt d.key)) >>=
      iterKeys s (s.stackAt d.key) rest

end

lemma StoreKey.Wf.points_ne {d : StoreKey} (h : d.Wf) : d.points ≠ [] := by
  cases h with
  | committed nonempty _ _ => simpa [StoreKey.points] using nonempty
  | inline _ => simp [StoreKey.points]
  | intent _ _ _ _ => simp [StoreKey.points]

namespace Store

variable {s : Store}

lemma tombstonesAt_eq (s : Store) (k : Key) : s.tombstonesAt k = versionsOf (s.stackAt k) := rfl

/-! ## Fragments and slots -/

variable {r : RangeKeyStack} {k : Key} {l : List StoreKey}

lemma contains_iff : r.contains k ↔ r.key ≤ k ∧ k < r.endKey := by
  simp [RangeKeyStack.contains]

lemma Wf.stackAt_iff (h : s.Wf) :
    s.stackAt k = some r ↔ r ∈ s.rangeKeys ∧ r.contains k := by
  constructor
  · intro hr
    exact ⟨mem_of_stackAt hr, contains_of_stackAt hr⟩
  rintro ⟨hmem, hcontains⟩
  cases hfind : s.stackAt k with
  | none => exact absurd hcontains (find?_eq_none.mp hfind r hmem)
  | some r' =>
    have hmem' := mem_of_stackAt hfind
    have hcontains' := contains_iff.mp (contains_of_stackAt hfind)
    have hcontains := contains_iff.mp hcontains
    by_contra hne
    have hne : r' ≠ r := fun heq => hne (by rw [heq])
    have hdisjoint : s.rangeKeys.Pairwise fun a b => a.endKey ≤ b.key ∨ b.endKey ≤ a.key :=
      h.disjoint.imp Or.inl
    have : Std.Symm fun a b : RangeKeyStack => a.endKey ≤ b.key ∨ b.endKey ≤ a.key :=
      ⟨fun _ _ => Or.symm⟩
    rcases hdisjoint.forall hmem' hmem hne with hle | hle
    · exact absurd (hcontains'.2.trans_le (hle.trans hcontains.1)) (lt_irrefl _)
    · exact absurd (hcontains.2.trans_le (hle.trans hcontains'.1)) (lt_irrefl _)

lemma Wf.stackAt_key (h : s.Wf) (hr : r ∈ s.rangeKeys) : s.stackAt r.key = some r :=
  h.stackAt_iff.mpr ⟨hr, contains_iff.mpr ⟨le_rfl, (h.fragments r hr).bounds⟩⟩

lemma addSlot_sorted (hl : OrderedSet.Sorted StoreKey.key l) :
    OrderedSet.Sorted StoreKey.key (addSlot k l) := by
  unfold addSlot
  split_ifs
  · exact hl
  · exact hl.set

lemma mem_addSlot (hl : OrderedSet.Sorted StoreKey.key l) {d : StoreKey} :
    d ∈ addSlot k l ↔ d ∈ l ∨ d = ⟨k, none, []⟩ ∧ ∀ d' ∈ l, d'.key ≠ k := by
  unfold addSlot
  split_ifs with hany
  · obtain ⟨d', hd', hkey⟩ := any_eq_true.mp hany
    have hnot : ¬ ∀ d' ∈ l, d'.key ≠ k := fun h => h d' hd' (by simpa using hkey)
    simp [hnot]
  have hnew : ∀ d' ∈ l, d'.key ≠ k := by simpa using hany
  rw [OrderedSet.mem_set hl]
  constructor
  · rintro (rfl | ⟨hd, _⟩)
    · exact Or.inr ⟨rfl, hnew⟩
    · exact Or.inl hd
  rintro (hd | ⟨rfl, _⟩)
  · exact Or.inr ⟨hd, hnew d hd⟩
  · exact Or.inl rfl

/-- The slots are the keys, and the starts of the other fragments. -/
structure IsSlots (keys : List StoreKey) (rangeKeys : List RangeKeyStack)
    (slots : List StoreKey) : Prop where
  sorted : OrderedSet.Sorted StoreKey.key slots
  keys_subset : ∀ d ∈ keys, d ∈ slots
  mem : ∀ d ∈ slots, d ∈ keys ∨ ∃ r ∈ rangeKeys, d = ⟨r.key, none, []⟩
  starts : ∀ r ∈ rangeKeys, ∃ d ∈ slots, d.key = r.key

lemma isSlots_foldr {keys : List StoreKey} (h : OrderedSet.Sorted StoreKey.key keys)
    (rangeKeys : List RangeKeyStack) :
    IsSlots keys rangeKeys (rangeKeys.foldr (fun r => addSlot r.key) keys) := by
  induction rangeKeys with
  | nil => exact ⟨h, fun d hd => hd, fun d hd => Or.inl hd, by simp⟩
  | cons r rs ih =>
    refine ⟨addSlot_sorted ih.sorted, ?_, ?_, ?_⟩
    · intro d hd
      exact (mem_addSlot ih.sorted).mpr (Or.inl (ih.keys_subset d hd))
    · intro d hd
      rcases (mem_addSlot ih.sorted).mp hd with hd | ⟨heq, _⟩
      · refine (ih.mem d hd).imp_right ?_
        rintro ⟨r', hr', heq⟩
        exact ⟨r', mem_cons_of_mem _ hr', heq⟩
      · exact Or.inr ⟨r, .head _, heq⟩
    intro r' hr'
    by_cases hold : ∃ d ∈ rs.foldr (fun r => addSlot r.key) keys, d.key = r'.key
    · obtain ⟨d, hd, hkey⟩ := hold
      exact ⟨d, (mem_addSlot ih.sorted).mpr (Or.inl hd), hkey⟩
    rcases mem_cons.mp hr' with rfl | hr'
    · refine ⟨⟨r'.key, none, []⟩, (mem_addSlot ih.sorted).mpr (Or.inr ⟨rfl, ?_⟩), rfl⟩
      intro d hd hkey
      exact hold ⟨d, hd, hkey⟩
    · exact absurd (ih.starts r' hr') hold

lemma Wf.isSlots (h : s.Wf) : IsSlots s.keys s.rangeKeys s.slots :=
  isSlots_foldr h.sorted s.rangeKeys

/-! ## The loop key by key -/

variable {σ ε : Type} {bare : σ → ε} {onChange : σ → Option RangeKeyStack → σ}
  {onPoint : σ → List Version → Key → Point → Except ε σ}

lemma pointPositions_eq (d : StoreKey) :
    s.pointPositions d = d.points.map fun point => ⟨d.key, some point, s.stackAt d.key⟩ := by
  simp [pointPositions, StoreKey.points, Function.comp_def]

lemma iterate_points (key : Key) (stack : Option RangeKeyStack) (points : List Point)
    (rest : List StorePosition) (st : σ) :
    iterate bare onChange onPoint stack
        ((points.map fun point => ⟨key, some point, stack⟩) ++ rest) st =
      iterPoints onPoint (versionsOf stack) key points st >>=
        iterate bare onChange onPoint stack rest := by
  induction points generalizing st with
  | nil => rfl
  | cons point points ih =>
    rw [map_cons, cons_append, iterate, iterPoints, bind_assoc]
    simp only [if_true]
    rw [funext ih]

variable {d : StoreKey} {prev : Option RangeKeyStack}

lemma iterate_keyPositions {rest : List StorePosition} {st : σ} (hne : s.keyPositions d ≠ [])
    (hstart : (∃ r ∈ s.rangeKeys, r.key = d.key) → s.stackAt d.key ≠ prev) :
    iterate bare onChange onPoint prev (s.keyPositions d ++ rest) st =
      iterPoints onPoint (s.tombstonesAt d.key) d.key d.points
          (if s.stackAt d.key = prev then st else onChange st (s.stackAt d.key)) >>=
        iterate bare onChange onPoint (s.stackAt d.key) rest := by
  unfold keyPositions at hne ⊢
  split_ifs at hne ⊢ with hbare hsame hsame
  · obtain ⟨r, hr, hkey⟩ := any_eq_true.mp hbare.2
    exact absurd hsame (hstart ⟨r, hr, by simpa using hkey⟩)
  · rw [cons_append, iterate]
    simp only [if_neg hsame]
    rw [pointPositions_eq, iterate_points]
    rfl
  · rw [pointPositions_eq, hsame, iterate_points, tombstonesAt_eq, hsame]
  rw [pointPositions_eq] at hne ⊢
  cases hpoints : d.points with
  | nil =>
    rw [hpoints] at hne
    exact absurd rfl hne
  | cons point points =>
    rw [map_cons, cons_append, iterate, iterPoints, bind_assoc]
    simp only [if_neg hsame]
    rw [funext (iterate_points _ _ points rest)]
    rfl

lemma Wf.keyPositions_ne (h : s.Wf) (hd : d ∈ s.slots) : s.keyPositions d ≠ [] := by
  rcases h.isSlots.mem d hd with hd | ⟨r, hr, rfl⟩
  · have hpoints : s.pointPositions d ≠ [] := by
      rw [pointPositions_eq]
      simpa using (h.keys d hd).points_ne
    unfold keyPositions
    split_ifs
    · exact cons_ne_nil _ _
    · exact hpoints
  · have hany : (s.rangeKeys.any fun r' => decide (r'.key = r.key)) :=
      any_eq_true.mpr ⟨r, hr, by simp⟩
    simp [keyPositions, hany]

lemma Wf.iterate_flatMap (h : s.Wf) {ds : List StoreKey} (hds : ∀ d ∈ ds, d ∈ s.slots)
    (hsorted : OrderedSet.Sorted StoreKey.key ds)
    (hprev : ∀ d ∈ ds, ∀ r ∈ s.rangeKeys, r.key = d.key → prev ≠ some r) (st : σ) :
    iterate bare onChange onPoint prev (ds.flatMap s.keyPositions) st =
      iterKeys onChange onPoint s prev ds st := by
  induction ds generalizing prev st with
  | nil => rfl
  | cons d ds ih =>
    obtain ⟨hlt, hsorted⟩ := OrderedSet.sorted_cons.mp hsorted
    have hd := hds d (.head _)
    rw [flatMap_cons, iterKeys, iterate_keyPositions (h.keyPositions_ne hd)]
    · refine congrArg _ (funext fun st' => ?_)
      refine ih (fun d' hd' => hds d' (.tail _ hd')) hsorted ?_ st'
      intro d' hd' r hr hkey hstack
      have hcontains := contains_iff.mp (h.stackAt_iff.mp hstack).2
      rw [hkey] at hcontains
      exact absurd (hlt d' hd') (not_lt.mpr hcontains.1)
    rintro ⟨r, hr, hkey⟩ hsame
    have hstack := h.stackAt_key hr
    rw [hkey, hsame] at hstack
    exact hprev d (.head _) r hr hkey hstack

lemma Wf.iterate_positions (h : s.Wf) (st : σ) :
    iterate bare onChange onPoint none s.positions st =
      iterKeys onChange onPoint s none s.slots st := by
  refine h.iterate_flatMap (fun d hd => hd) h.isSlots.sorted ?_ st
  intro d _ r _ _ hnone
  cases hnone

/-! ## Changes of the range keys -/

/-- The fragments at which the range keys change along some keys. -/
def changes (s : Store) : Option RangeKeyStack → List Key → List RangeKeyStack
  | _, [] => []
  | prev, k :: ks =>
    (if s.stackAt k = prev then [] else (s.stackAt k).toList) ++ changes s (s.stackAt k) ks

lemma Wf.filter_start (h : s.Wf) {k0 : Key} (hr : r ∈ s.rangeKeys) (hlt : k0 < r.key)
    (hat : ∀ r' ∈ s.rangeKeys, k0 < r'.key → r'.key ≤ r.key → r'.key = r.key) :
    (s.rangeKeys.filter fun r' => decide (k0 < r'.key)) =
      r :: s.rangeKeys.filter fun r' => decide (r.key < r'.key) := by
  obtain ⟨as, bs, heq⟩ := append_of_mem hr
  have hsorted : s.rangeKeys.Pairwise fun a b => a.key < b.key := h.rangeKeys_sorted
  rw [heq, pairwise_append] at hsorted
  have has : ∀ a ∈ as, a.key < r.key := fun a ha => hsorted.2.2 a ha r (.head _)
  have hbs : ∀ b ∈ bs, r.key < b.key := (pairwise_cons.mp hsorted.2.1).1
  have hbelow : ∀ a ∈ as, ¬ k0 < a.key := by
    intro a ha hlt'
    have heq' := hat a (heq ▸ mem_append_left _ ha) hlt' (has a ha).le
    exact absurd heq' (has a ha).ne
  have hlow : (as.filter fun r' => decide (k0 < r'.key)) = [] :=
    filter_eq_nil_iff.mpr fun a ha => by simpa using hbelow a ha
  have hlow' : (as.filter fun r' => decide (r.key < r'.key)) = [] :=
    filter_eq_nil_iff.mpr fun a ha => by simpa using (has a ha).le
  have hhigh : (bs.filter fun r' => decide (k0 < r'.key)) = bs :=
    filter_eq_self.mpr fun b hb => by simpa using hlt.trans (hbs b hb)
  have hhigh' : (bs.filter fun r' => decide (r.key < r'.key)) = bs :=
    filter_eq_self.mpr fun b hb => by simpa using hbs b hb
  rw [heq, filter_append, filter_append, hlow, hlow',
    filter_cons_of_pos (by simpa using hlt), filter_cons_of_neg (by simp), hhigh, hhigh']
  rfl

lemma Wf.changes_eq (h : s.Wf) {k0 : Key} {ks : List Key} (hsorted : (k0 :: ks).Pairwise (· ≤ ·))
    (hstarts : ∀ r ∈ s.rangeKeys, k0 < r.key → r.key ∈ ks) :
    s.changes (s.stackAt k0) ks = s.rangeKeys.filter fun r => decide (k0 < r.key) := by
  induction ks generalizing k0 with
  | nil =>
    symm
    apply filter_eq_nil_iff.mpr
    intro r hr hlt
    cases hstarts r hr (by simpa using hlt)
  | cons k ks ih =>
    obtain ⟨hk0, hks⟩ := pairwise_cons.mp hsorted
    have hle := hk0 k (.head _)
    have hat : ∀ r ∈ s.rangeKeys, k0 < r.key → r.key ≤ k → r.key = k := by
      intro r hr hlt hrk
      rcases mem_cons.mp (hstarts r hr hlt) with heq | hmem
      · exact heq
      · exact le_antisymm hrk ((pairwise_cons.mp hks).1 _ hmem)
    have hrest := ih hks fun r hr hlt => by
      rcases mem_cons.mp (hstarts r hr (hle.trans_lt hlt)) with heq | hmem
      · exact absurd heq hlt.ne'
      · exact hmem
    rw [changes, hrest]
    by_cases hstart : ∃ r ∈ s.rangeKeys, r.key = k ∧ k0 < k
    · obtain ⟨r, hr, rfl, hlt⟩ := hstart
      have hstack := h.stackAt_key hr
      have hne : s.stackAt r.key ≠ s.stackAt k0 := by
        intro heq
        rw [hstack] at heq
        have hcontains := contains_iff.mp (h.stackAt_iff.mp heq.symm).2
        exact absurd hlt (not_lt.mpr hcontains.1)
      rw [if_neg hne, hstack]
      exact (h.filter_start hr hlt hat).symm
    have hnone : ∀ r ∈ s.rangeKeys, ¬ (k0 < r.key ∧ r.key ≤ k) := by
      rintro r hr ⟨hlt, hrk⟩
      have heq := hat r hr hlt hrk
      exact hstart ⟨r, hr, heq, heq ▸ hlt⟩
    have hfilter : (s.rangeKeys.filter fun r => decide (k0 < r.key)) =
        s.rangeKeys.filter fun r => decide (k < r.key) := by
      apply filter_congr
      intro r hr
      have := hnone r hr
      rw [decide_eq_decide]
      constructor
      · intro hlt
        exact not_le.mp fun hrk => this ⟨hlt, hrk⟩
      · exact hle.trans_lt
    rw [hfilter]
    split_ifs with hsame
    · rfl
    cases hstack : s.stackAt k with
    | none => rfl
    | some r =>
      exfalso
      apply hsame
      obtain ⟨hr, hcontains⟩ := h.stackAt_iff.mp hstack
      have hcontains := contains_iff.mp hcontains
      have hrk0 : r.key ≤ k0 := not_lt.mp fun hlt => hnone r hr ⟨hlt, hcontains.1⟩
      rw [hstack]
      refine (h.stackAt_iff.mpr ⟨hr, contains_iff.mpr ⟨hrk0, ?_⟩⟩).symm
      exact hle.trans_lt hcontains.2

lemma Wf.changes_slots (h : s.Wf) : s.changes none (s.slots.map StoreKey.key) = s.rangeKeys := by
  have hnone : s.stackAt [] = none := by
    cases hstack : s.stackAt [] with
    | none => rfl
    | some r =>
      obtain ⟨hr, hcontains⟩ := h.stackAt_iff.mp hstack
      have hle := (contains_iff.mp hcontains).1
      exact absurd (le_antisymm hle (nil_le_key _)) (h.fragments r hr).key_ne
  have hpos : ∀ r ∈ s.rangeKeys, ([] : Key) < r.key :=
    fun r hr => nil_lt_key (h.fragments r hr).key_ne
  have hchanges := @Wf.changes_eq s h [] (s.slots.map StoreKey.key) ?_ ?_
  · rw [hnone] at hchanges
    rw [hchanges]
    exact filter_eq_self.mpr fun r hr => by simpa using hpos r hr
  · rw [pairwise_cons]
    refine ⟨fun k _ => nil_le_key k, ?_⟩
    exact pairwise_map.mpr (h.isSlots.sorted.imp le_of_lt)
  intro r hr _
  obtain ⟨d, hd, hkey⟩ := h.isSlots.starts r hr
  exact mem_map.mpr ⟨d, hd, hkey⟩

end Store
end MeshDB.Storage
