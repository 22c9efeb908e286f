import MeshDB.SpanLatch.Manager

/-!
# The contents of the latch manager

`Represents m P` says that the manager `m` holds exactly the latches of the table `P`. Every
critical section keeps it, with the effect on `P` that its name says, and never follows a nil
pointer.
-/
namespace MeshDB.SpanLatch

open Spanset List CircularList OrderedSet

abbrev Contents := SpanScope → SpanAccess → Latch → Prop

/-- A scope holds exactly the latches in `P`, each in one place. -/
structure ScopedManager.Holds (sm : ScopedManager) (P : SpanAccess → Latch → Prop) : Prop where
  sorted : ∀ a, OrderedSet.Sorted Latch.cmpKey (sm.trees a)
  reads : ∃ xs, sm.readSet.Repr xs ∧ (∀ la ∈ xs, la ∉ sm.trees .spanReadOnly) ∧
    ∀ la, P .spanReadOnly la ↔ la ∈ xs ∨ la ∈ sm.trees .spanReadOnly
  writes : ∀ la, P .spanReadWrite la ↔ la ∈ sm.trees .spanReadWrite

/-- The ids of latches tell them apart and were all taken from the counter. -/
structure IdsFrom (idAlloc : Int) (P : Contents) : Prop where
  le_id : ∀ {s a la}, P s a la → idAlloc ≤ la.id
  id_inj : ∀ {s a la s' a' la'}, P s a la → P s' a' la' → la.id = la'.id →
    s = s' ∧ a = a' ∧ la = la'

structure Represents (m : Manager) (P : Contents) : Prop where
  holds : ∀ s, (m.scopes s).Holds (P s)
  ids : IdsFrom m.idAlloc P

variable {la la' : Latch} {n : Int} {P Q : Contents} {s s' : SpanScope} {a : SpanAccess}
  {sm : ScopedManager} {m : Manager}

lemma id_eq_of_cmpKey_eq (h : la.cmpKey = la'.cmpKey) : la.id = la'.id := by
  simp only [Latch.cmpKey, EmbeddingLike.apply_eq_iff_eq, Prod.mk.injEq] at h
  exact h.2.2

lemma IdsFrom.eq_of_cmpKey (h : IdsFrom n P) (hla : P s a la) (hla' : P s a la')
    (hkey : la.cmpKey = la'.cmpKey) : la = la' :=
  (h.id_inj hla hla' (id_eq_of_cmpKey_eq hkey)).2.2

lemma represents_make : Represents Manager.make fun _ _ _ => False where
  holds := fun _ =>
    { sorted := fun _ => sorted_nil
      reads := ⟨[], repr_zero, by simp, by simp [Manager.make]⟩
      writes := by simp [Manager.make] }
  ids := ⟨fun h => h.elim, fun h => h.elim⟩

@[simp] lemma setTree_trees_self (sm : ScopedManager) (a : SpanAccess) (t : Btree) :
    (sm.setTree a t).trees a = t := by
  simp [ScopedManager.setTree]

lemma setTree_trees_of_ne (sm : ScopedManager) (t : Btree) {a' : SpanAccess}
    (h : a' ≠ a) : (sm.setTree a t).trees a' = sm.trees a' := by
  simp [ScopedManager.setTree, h]

lemma setTree_sorted {t : Btree} (h : ∀ a, OrderedSet.Sorted Latch.cmpKey (sm.trees a))
    (ht : OrderedSet.Sorted Latch.cmpKey t) (a' : SpanAccess) :
    OrderedSet.Sorted Latch.cmpKey ((sm.setTree a t).trees a') := by
  by_cases heq : a' = a
  · subst heq
    simpa using ht
  rw [setTree_trees_of_ne sm t heq]
  exact h a'

lemma Represents.setScope (h : ∀ s', s' ≠ s → (m.scopes s').Holds (Q s')) (hs : sm.Holds (Q s))
    (hids : IdsFrom m.idAlloc Q) : Represents (m.setScope s sm) Q := by
  refine ⟨fun s' => ?_, hids⟩
  by_cases heq : s' = s
  · subst heq
    simpa [Manager.setScope] using hs
  · simpa [Manager.setScope, heq] using h s' heq

/-! ## Snapshots -/

lemma flushLoop_spec {fuel : ℕ} {xs : List Latch}
    (hxs : sm.readSet.Repr xs) (hsorted : ∀ a, OrderedSet.Sorted Latch.cmpKey (sm.trees a))
    (hinj : ∀ la la', la ∈ xs → la' ∈ sm.trees .spanReadOnly → la'.cmpKey = la.cmpKey → la' = la)
    (hinj' : ∀ la ∈ xs, ∀ la' ∈ xs, la'.cmpKey = la.cmpKey → la' = la) (hfuel : xs.length ≤ fuel) :
    ∃ sm', flushLoop fuel sm = some sm' ∧ sm'.readSet.Repr [] ∧
      (∀ a, OrderedSet.Sorted Latch.cmpKey (sm'.trees a)) ∧
      sm'.trees .spanReadWrite = sm.trees .spanReadWrite ∧
      ∀ la, la ∈ sm'.trees .spanReadOnly ↔ la ∈ xs ∨ la ∈ sm.trees .spanReadOnly := by
  induction xs generalizing fuel sm with
  | nil =>
    have hlen : sm.readSet.len = 0 := by simpa using hxs.len_eq
    refine ⟨sm, ?_, hxs, hsorted, rfl, by simp⟩
    cases fuel <;> simp [flushLoop, hlen]
  | cons x xs ih =>
    obtain ⟨fuel, rfl⟩ : ∃ n, fuel = n + 1 := ⟨fuel - 1, by
      simp only [length_cons] at hfuel
      omega⟩
    have hlen : 0 < sm.readSet.len := by
      rw [hxs.len_eq, length_cons]
      omega
    have hfront : sm.readSet.front = some (.elem x) := by
      simpa using front_eq hxs
    obtain ⟨readSet, hremove, hrepr⟩ := 
      remove_repr (show sm.readSet.Repr ([] ++ x :: xs) from hxs)
    have hmem : ∀ la, la ∈ (sm.trees .spanReadOnly).set x ↔
        la = x ∨ la ∈ sm.trees .spanReadOnly := by
      intro la
      rw [Btree.set, mem_set (hsorted _)]
      constructor
      · rintro (h | ⟨h, -⟩)
        · exact .inl h
        · exact .inr h
      rintro (h | h)
      · exact .inl h
      by_cases hkey : la.cmpKey = x.cmpKey
      · exact .inl (hinj x la (.head _) h hkey)
      · exact .inr ⟨h, hkey⟩
    obtain ⟨sm', hflush, hnil, hsorted', hwrites, hreads⟩ :=
      @ih ({ sm with readSet := readSet }.setTree .spanReadOnly
          ((sm.trees .spanReadOnly).set x)) fuel hrepr
        (setTree_sorted hsorted (hsorted .spanReadOnly).set)
        (by
          intro la la' hla hla' hkey
          rw [setTree_trees_self, hmem] at hla'
          rcases hla' with rfl | hla'
          · exact hinj' la (.tail _ hla) la' (.head _) hkey
          · exact hinj la la' (.tail _ hla) hla' hkey)
        (fun la hla la' hla' => hinj' la (.tail _ hla) la' (.tail _ hla'))
        (by simpa using hfuel)
    refine ⟨sm', ?_, hnil, hsorted', ?_, ?_⟩
    · simp [flushLoop, hlen, hfront, hremove, hflush]
    · rw [hwrites, setTree_trees_of_ne _ _ (by decide)]
    intro la
    rw [hreads, setTree_trees_self, hmem, mem_cons]
    tauto

lemma ScopedManager.Holds.flush (h : sm.Holds (P s)) (hids : IdsFrom n P) :
    ∃ sm', flushReadSetLocked sm = some sm' ∧ sm'.Holds (P s) ∧
      ∀ la, P s .spanReadOnly la ↔ la ∈ sm'.trees .spanReadOnly := by
  obtain ⟨xs, hxs, -, hreads⟩ := h.reads
  have hread : ∀ la ∈ xs, P s .spanReadOnly la := fun la hla => (hreads la).mpr (.inl hla)
  have hfuel : xs.length ≤ sm.readSet.len.toNat := by
    rw [hxs.len_eq]
    simp
  obtain ⟨sm', hflush, hnil, hsorted, hwrites, hmem⟩ := flushLoop_spec hxs h.sorted
    (fun la la' hla hla' => hids.eq_of_cmpKey ((hreads la').mpr (.inr hla')) (hread la hla))
    (fun la hla la' hla' => hids.eq_of_cmpKey (hread la' hla') (hread la hla)) hfuel
  refine ⟨sm', hflush, ⟨hsorted, ⟨[], hnil, by simp, ?_⟩, ?_⟩, ?_⟩
  · intro la
    simp only [not_mem_nil, false_or]
    rw [hmem, hreads]
  · intro la
    rw [hwrites, h.writes]
  · intro la
    rw [hmem, hreads]

/-- The snapshot has what a request with these spans may conflict with, and only held latches. -/
structure Captured (spans : SpanSet) (P : Contents) (snap : Snapshot) (s : SpanScope) : Prop where
  reads : spans.getSpans .spanReadWrite s ≠ [] →
    ∀ la, P s .spanReadOnly la → la ∈ snap.trees s .spanReadOnly
  writes : ∀ a, spans.getSpans a s ≠ [] →
    ∀ la, P s .spanReadWrite la → la ∈ snap.trees s .spanReadWrite
  sound : ∀ a, ∀ la ∈ snap.trees s a, P s a la

lemma snapshotScope_spec (spans : SpanSet) (s : SpanScope)
    {snap : Snapshot} (h : Represents m P) (hsnap : ∀ a, snap.trees s a = []) :
    ∃ m' snap', snapshotScope spans s (m, snap) = some (m', snap') ∧ Represents m' P ∧
      Captured spans P snap' s ∧ ∀ s', s' ≠ s → snap'.trees s' = snap.trees s' := by
  by_cases hw : spans.getSpans .spanReadWrite s = []
  · refine ⟨_, _, by simp [snapshotScope, hw]; exact ⟨rfl, rfl⟩, ?_,
      ⟨fun hne => absurd hw hne, ?_, ?_⟩, ?_⟩
    · exact Represents.setScope (fun s' _ => h.holds s') (h.holds s) h.ids
    · intro a ha la hla
      have hr : spans.getSpans .spanReadOnly s ≠ [] := by
        cases a with
        | spanReadOnly => exact ha
        | spanReadWrite => exact absurd hw ha
      simpa [hr] using ((h.holds s).writes la).mp hla
    · intro a la hla
      cases a with
      | spanReadOnly => simp [hsnap] at hla
      | spanReadWrite =>
        by_cases hr : spans.getSpans .spanReadOnly s = []
        · simp [hr, hsnap] at hla
        · exact ((h.holds s).writes la).mpr (by simpa [hr] using hla)
    · intro s' hs'
      simp [hs']
  obtain ⟨sm', hflush, hholds, hreads⟩ := (h.holds s).flush h.ids
  refine ⟨_, _, by simp [snapshotScope, hw, hflush]; exact ⟨rfl, rfl⟩, ?_,
    ⟨fun _ => ?_, ?_, ?_⟩, ?_⟩
  · exact Represents.setScope (fun s' _ => h.holds s') hholds h.ids
  · intro la hla
    simpa using (hreads la).mp hla
  · intro a _ la hla
    simpa using (hholds.writes la).mp hla
  · intro a la hla
    cases a with
    | spanReadOnly => exact (hreads la).mpr (by simpa using hla)
    | spanReadWrite => exact (hholds.writes la).mpr (by simpa using hla)
  · intro s' hs'
    simp [hs']

lemma snapshotLocked_spec (spans : SpanSet) (h : Represents m P) :
    ∃ m' snap, snapshotLocked spans m = some (m', snap) ∧ Represents m' P ∧
      ∀ s, Captured spans P snap s := by
  obtain ⟨m1, snap1, h1, hrep1, hcap1, hother1⟩ :=
    snapshotScope_spec spans .spanGlobal h
      (show ∀ a, Snapshot.empty.trees _ a = [] from fun _ => rfl)
  obtain ⟨m2, snap2, h2, hrep2, hcap2, hother2⟩ :=
    snapshotScope_spec spans .spanLocal hrep1 (show ∀ a, snap1.trees _ a = [] from fun a => by
      rw [hother1 _ (by decide)]
      rfl)
  refine ⟨m2, snap2, ?_, hrep2, ?_⟩
  · simp [snapshotLocked, scopes, h1, h2]
  intro s
  cases s with
  | spanGlobal =>
    obtain ⟨hreads, hwrites, hsound⟩ := hcap1
    rw [← hother2 .spanGlobal (by decide)] at hreads hwrites hsound
    exact ⟨hreads, hwrites, hsound⟩
  | spanLocal => exact hcap2

/-! ## Insertion -/

def Contents.add (P : Contents) (s : SpanScope) (a : SpanAccess) (las : List Latch) : Contents :=
  fun s' a' la => P s' a' la ∨ (s' = s ∧ a' = a ∧ la ∈ las)

def Latch.unsetId (la : Latch) : Latch := { la with id := 0 }

lemma Represents.congr (h : Represents m P)
    (hPQ : ∀ s a la, P s a la ↔ Q s a la) : Represents m Q := by
  have heq : P = Q := by
    funext s a la
    exact propext (hPQ s a la)
  rwa [← heq]

lemma IdsFrom.add (h : IdsFrom n P) (s : SpanScope) (a : SpanAccess) (hla : la.id = n - 1) :
    IdsFrom (n - 1) (P.add s a [la]) := by
  constructor
  · rintro s' a' la' (hP | ⟨-, -, hmem⟩)
    · have := h.le_id hP
      omega
    · rw [mem_singleton.mp hmem, hla]
  rintro s1 a1 la1 s2 a2 la2 (h1 | ⟨rfl, rfl, h1⟩) (h2 | ⟨rfl, rfl, h2⟩) hid
  · exact h.id_inj h1 h2 hid
  · have := h.le_id h1
    rw [mem_singleton.mp h2] at hid
    omega
  · have := h.le_id h2
    rw [mem_singleton.mp h1] at hid
    omega
  · rw [mem_singleton.mp h1, mem_singleton.mp h2]
    exact ⟨rfl, rfl, rfl⟩

lemma Contents.add_of_ne (P : Contents) (a : SpanAccess) (las : List Latch)
    (h : s' ≠ s) : P.add s a las s' = P s' := by
  funext a' la'
  simp [Contents.add, h]

lemma insertLatch_spec (s : SpanScope) (a : SpanAccess) (la : Latch) (h : Represents m P) :
    ∃ m' la', insertLatch s a la m = some (m', la') ∧ la'.unsetId = la.unsetId ∧
      la'.id = m.idAlloc - 1 ∧ m'.idAlloc = m.idAlloc - 1 ∧ Represents m' (P.add s a [la']) := by
  obtain ⟨la1, hla1⟩ : ∃ la1, la1 = { la with id := m.idAlloc - 1 } := ⟨_, rfl⟩
  have hid : la1.id = m.idAlloc - 1 := by rw [hla1]
  have hunset : la1.unsetId = la.unsetId := by rw [hla1]; rfl
  have hids := h.ids.add s a hid
  have hnew : ∀ a', ¬ P s a' la1 := by
    intro a' hP
    have := h.ids.le_id hP
    omega
  have hother : ∀ s', s' ≠ s →
      ({ m with idAlloc := m.idAlloc - 1 }.scopes s').Holds (P.add s a [la1] s') := by
    intro s' hs'
    rw [P.add_of_ne a _ hs']
    exact h.holds s'
  obtain ⟨xs, hxs, hdisj, hreads⟩ := (h.holds s).reads
  cases a with
  | spanReadOnly =>
    have hxs_new : la1 ∉ xs := fun hmem => hnew _ ((hreads _).mpr (.inl hmem))
    obtain ⟨readSet, hpush, hrepr⟩ := pushBack_repr hxs hxs_new
    refine ⟨{ m with idAlloc := m.idAlloc - 1 }.setScope s { m.scopes s with readSet := readSet },
      la1, ?_, hunset, hid, rfl, Represents.setScope hother ?_ hids⟩
    · rw [hla1] at hpush
      simp [insertLatch, nextIDLocked, hpush, hla1]
    refine ⟨(h.holds s).sorted, ⟨_, hrepr, ?_, ?_⟩, ?_⟩
    · intro la' hla' htree
      rcases mem_append.mp hla' with hla' | hla'
      · exact hdisj la' hla' htree
      rw [mem_singleton.mp hla'] at htree
      exact hnew _ ((hreads _).mpr (.inr htree))
    · intro la'
      simp only [Contents.add, hreads, mem_append, true_and]
      tauto
    · intro la'
      simp [Contents.add, (h.holds s).writes]
  | spanReadWrite =>
    refine ⟨{ m with idAlloc := m.idAlloc - 1 }.setScope s ((m.scopes s).setTree .spanReadWrite
        (((m.scopes s).trees .spanReadWrite).set la1)), la1, ?_, hunset, hid, rfl,
      Represents.setScope hother ?_ hids⟩
    · simp [insertLatch, nextIDLocked, hla1]
    refine ⟨?_, ⟨xs, hxs, ?_, ?_⟩, ?_⟩
    · exact setTree_sorted (h.holds s).sorted ((h.holds s).sorted _).set
    · intro la' hla'
      rw [setTree_trees_of_ne _ _ (by decide)]
      exact hdisj la' hla'
    · intro la'
      rw [setTree_trees_of_ne _ _ (by decide)]
      simp [Contents.add, hreads]
    intro la'
    rw [setTree_trees_self, Btree.set, mem_set ((h.holds s).sorted _)]
    simp only [Contents.add, (h.holds s).writes, mem_singleton, true_and]
    constructor
    · rintro (hla' | rfl)
      · refine .inr ⟨hla', fun hkey => ?_⟩
        have hid' := id_eq_of_cmpKey_eq hkey
        have hle := h.ids.le_id (((h.holds s).writes la').mpr hla')
        omega
      · exact .inl rfl
    · rintro (rfl | ⟨hla', -⟩)
      · exact .inr rfl
      · exact .inl hla'

lemma insertLatches_spec (s : SpanScope) (a : SpanAccess) (las : List Latch)
    (h : Represents m P) : ∃ m' las', insertLatches s a las m = some (m', las') ∧
      las'.map Latch.unsetId = las.map Latch.unsetId ∧ las'.Nodup ∧
      (∀ la ∈ las', la.id < m.idAlloc) ∧ Represents m' (P.add s a las') := by
  induction las generalizing m P with
  | nil => exact ⟨m, [], rfl, rfl, nodup_nil, by simp, h.congr (by simp [Contents.add])⟩
  | cons la las ih =>
    obtain ⟨m1, la', h1, hla', hid, halloc, hrep1⟩ := insertLatch_spec s a la h
    obtain ⟨m2, las', h2, hlas', hnodup, hlt, hrep2⟩ := ih hrep1
    have hnew : la' ∉ las' := by
      intro hmem
      have := hlt la' hmem
      omega
    refine ⟨m2, la' :: las', by simp [insertLatches, h1, h2], by simp [hla', hlas'],
      nodup_cons.mpr ⟨hnew, hnodup⟩, ?_, ?_⟩
    · refine forall_mem_cons.mpr ⟨by omega, fun x hx => ?_⟩
      have := hlt x hx
      omega
    apply hrep2.congr
    intro s' a' x
    simp only [Contents.add, mem_cons, not_mem_nil, or_false]
    tauto

lemma setLatches_latches_of_ne (lg : Guard) {a' : SpanAccess}
    (las : List Latch) (h : (s', a') ≠ (s, a)) :
    (lg.setLatches s a las).latches s' a' = lg.latches s' a' := by
  by_cases hs : s' = s
  · subst hs
    have ha : a' ≠ a := fun ha => h (by rw [ha])
    simp [Guard.setLatches, ha]
  · simp [Guard.setLatches, hs]

lemma insertRounds_spec (L : List (SpanScope × SpanAccess)) (hL : L.Nodup) (lg : Guard)
    (h : Represents m P) :
    ∃ m' las, L.foldlM insertRound (m, lg) = some (m', { lg with latches := las }) ∧
      (∀ s a, (s, a) ∉ L → las s a = lg.latches s a) ∧
      (∀ s a, (las s a).map Latch.unsetId = (lg.latches s a).map Latch.unsetId) ∧
      (∀ s a, (s, a) ∈ L → (las s a).Nodup) ∧
      Represents m' fun s a la => P s a la ∨ ((s, a) ∈ L ∧ la ∈ las s a) := by
  induction L generalizing m P lg with
  | nil => exact ⟨m, lg.latches, rfl, by simp, by simp, by simp, h.congr (by simp)⟩
  | cons sa L ih =>
    obtain ⟨s0, a0⟩ := sa
    obtain ⟨hnot, hL⟩ := nodup_cons.mp hL
    obtain ⟨m1, las1, h1, hunset1, hnodup1, -, hrep1⟩ :=
      insertLatches_spec s0 a0 (lg.latches s0 a0) h
    obtain ⟨m2, las2, h2, hsame2, hunset2, hnodup2, hrep2⟩ :=
      ih hL (lg.setLatches s0 a0 las1) hrep1
    have hself : las2 s0 a0 = las1 := by simp [hsame2 s0 a0 hnot, Guard.setLatches]
    refine ⟨m2, las2, ?_, ?_, ?_, ?_, ?_⟩
    · have hround : insertRound (m, lg) (s0, a0) = some (m1, lg.setLatches s0 a0 las1) := by
        simp [insertRound, h1]
      rw [foldlM_cons, hround]
      exact h2
    · intro s a hsa
      obtain ⟨hne, hsa⟩ := not_or.mp (mem_cons.not.mp hsa)
      rw [hsame2 s a hsa, setLatches_latches_of_ne lg las1 hne]
    · intro s a
      by_cases hsa : (s, a) = (s0, a0)
      · cases hsa
        rw [hself, hunset1]
      · rw [hunset2 s a, setLatches_latches_of_ne lg las1 hsa]
    · intro s a hsa
      rcases mem_cons.mp hsa with hsa | hsa
      · cases hsa
        rwa [hself]
      · exact hnodup2 s a hsa
    apply hrep2.congr
    intro s a la
    rw [Contents.add, mem_cons, Prod.mk.injEq, or_assoc]
    apply or_congr_right
    constructor
    · rintro (⟨rfl, rfl, hla⟩ | ⟨hsa, hla⟩)
      · exact ⟨.inl ⟨rfl, rfl⟩, hself ▸ hla⟩
      · exact ⟨.inr hsa, hla⟩
    rintro ⟨⟨rfl, rfl⟩ | hsa, hla⟩
    · exact .inl ⟨rfl, rfl, hself ▸ hla⟩
    · exact .inr ⟨hsa, hla⟩

lemma mem_scopeAccesses (s : SpanScope) (a : SpanAccess) : (s, a) ∈ scopeAccesses := by
  cases s <;> cases a <;> decide

lemma sequence_spec (g : GuardId) (spans : SpanSet) (pp : Policy) (h : Represents m P) :
    ∃ m' las snap,
      sequence g spans pp m = some (m', { newGuard g spans pp with latches := las }, snap) ∧
      (∀ s a, (las s a).map Latch.unsetId = (newGuard g spans pp).latches s a) ∧
      (∀ s a, (las s a).Nodup) ∧ (∀ s, Captured spans P snap s) ∧
      Represents m' fun s a la => P s a la ∨ la ∈ las s a := by
  obtain ⟨m1, snap, h1, hrep1, hcap⟩ := snapshotLocked_spec spans h
  obtain ⟨m2, las, h2, -, hunset, hnodup, hrep2⟩ :=
    insertRounds_spec scopeAccesses (by decide) (newGuard g spans pp) hrep1
  refine ⟨m2, las, snap, ?_, ?_, fun s a => hnodup s a (mem_scopeAccesses s a), hcap,
    hrep2.congr fun s a la => ?_⟩
  · simp [sequence, h1, insertLocked, h2]
  · intro s a
    rw [hunset s a]
    simp [newGuard, Latch.unsetId]
  · simp [mem_scopeAccesses]

/-! ## Removal -/

def Contents.remove (P : Contents) (s : SpanScope) (a : SpanAccess) (las : List Latch) :
    Contents :=
  fun s' a' la => P s' a' la ∧ ¬ (s' = s ∧ a' = a ∧ la ∈ las)

lemma IdsFrom.subset (h : IdsFrom n P) (hsub : ∀ s a la, Q s a la → P s a la) : IdsFrom n Q :=
  ⟨fun hQ => h.le_id (hsub _ _ _ hQ), fun hQ hQ' => h.id_inj (hsub _ _ _ hQ) (hsub _ _ _ hQ')⟩

lemma Contents.remove_of_ne (P : Contents) (a : SpanAccess)
    (las : List Latch) (h : s' ≠ s) : P.remove s a las s' = P s' := by
  funext a' la'
  simp [Contents.remove, h]

lemma mem_delete_tree {t : Btree} (hsorted : OrderedSet.Sorted Latch.cmpKey t)
    (hinj : la' ∈ t → la'.cmpKey = la.cmpKey → la' = la) :
    la' ∈ t.delete la ↔ la' ∈ t ∧ la' ≠ la := by
  rw [Btree.delete, mem_delete hsorted]
  constructor
  · rintro ⟨hmem, hkey⟩
    exact ⟨hmem, fun heq => hkey (by rw [heq])⟩
  rintro ⟨hmem, hne⟩
  exact ⟨hmem, fun hkey => hne (hinj hmem hkey)⟩

lemma removeLatch_spec (h : Represents m P) (ha : P s a la) :
    ∃ m', removeLatch s a m la = some m' ∧ Represents m' (P.remove s a [la]) := by
  have hids : IdsFrom m.idAlloc (P.remove s a [la]) := h.ids.subset fun _ _ _ hQ => hQ.1
  have hother : ∀ s', s' ≠ s → (m.scopes s').Holds (P.remove s a [la] s') := by
    intro s' hs'
    rw [P.remove_of_ne a _ hs']
    exact h.holds s'
  obtain ⟨xs, hxs, hdisj, hreads⟩ := (h.holds s).reads
  cases a with
  | spanReadOnly =>
    by_cases hlinked : la ∈ xs
    · have hnotree := hdisj la hlinked
      have htest := (linked_iff hxs la).mpr hlinked
      obtain ⟨ys, zs, rfl⟩ := append_of_mem hlinked
      obtain ⟨readSet, hremove, hrepr⟩ := remove_repr hxs
      have hnodup := nodup_middle.mp hxs.nodup
      refine ⟨m.setScope s { m.scopes s with readSet := readSet }, ?_, Represents.setScope hother
        ⟨(h.holds s).sorted, ⟨ys ++ zs, hrepr, ?_, ?_⟩, ?_⟩ hids⟩
      · simp [removeLatch, htest, hremove]
      · intro la' hla'
        exact hdisj la' (by simp at hla' ⊢; tauto)
      · intro la'
        have hne : la' ∈ ys ++ zs → la' ≠ la :=
          fun hla' heq => (nodup_cons.mp hnodup).1 (heq ▸ hla')
        have hne' : la' ∈ (m.scopes s).trees .spanReadOnly → la' ≠ la :=
          fun hla' heq => hnotree (heq ▸ hla')
        simp only [Contents.remove, hreads, mem_append, mem_cons, not_mem_nil,
          or_false, true_and] at hne ⊢
        tauto
      · intro la'
        simp [Contents.remove, (h.holds s).writes]
    have htest : (m.scopes s).readSet.linked la = false := by
      rw [← Bool.not_eq_true, linked_iff hxs]
      exact hlinked
    have hmem : ∀ la', la' ∈ ((m.scopes s).trees .spanReadOnly).delete la ↔
        la' ∈ (m.scopes s).trees .spanReadOnly ∧ la' ≠ la := fun la' =>
      mem_delete_tree ((h.holds s).sorted _) fun hla' =>
        h.ids.eq_of_cmpKey ((hreads _).mpr (.inr hla')) ha
    refine ⟨m.setScope s ((m.scopes s).setTree .spanReadOnly
        (((m.scopes s).trees .spanReadOnly).delete la)), ?_, Represents.setScope hother
      ⟨?_, ⟨xs, hxs, ?_, ?_⟩, ?_⟩ hids⟩
    · simp [removeLatch, htest]
    · exact setTree_sorted (h.holds s).sorted ((h.holds s).sorted _).delete
    · intro la' hla'
      rw [setTree_trees_self, hmem]
      exact fun hla => hdisj la' hla' hla.1
    · intro la'
      have hne : la' ∈ xs → la' ≠ la := fun hla' heq => hlinked (heq ▸ hla')
      rw [setTree_trees_self, hmem]
      simp only [Contents.remove, hreads, mem_singleton, true_and]
      tauto
    · intro la'
      rw [setTree_trees_of_ne _ _ (by decide)]
      simp [Contents.remove, (h.holds s).writes]
  | spanReadWrite =>
    have htest : (m.scopes s).readSet.linked la = false := by
      rw [← Bool.not_eq_true, linked_iff hxs]
      intro hla
      have hboth := h.ids.id_inj ((hreads la).mpr (.inl hla)) ha rfl
      cases hboth.2.1
    have hmem : ∀ la', la' ∈ ((m.scopes s).trees .spanReadWrite).delete la ↔
        la' ∈ (m.scopes s).trees .spanReadWrite ∧ la' ≠ la := fun la' =>
      mem_delete_tree ((h.holds s).sorted _) fun hla' =>
        h.ids.eq_of_cmpKey (((h.holds s).writes _).mpr hla') ha
    refine ⟨m.setScope s ((m.scopes s).setTree .spanReadWrite
        (((m.scopes s).trees .spanReadWrite).delete la)), ?_, Represents.setScope hother
      ⟨?_, ⟨xs, hxs, ?_, ?_⟩, ?_⟩ hids⟩
    · simp [removeLatch, htest]
    · exact setTree_sorted (h.holds s).sorted ((h.holds s).sorted _).delete
    · intro la' hla'
      rw [setTree_trees_of_ne _ _ (by decide)]
      exact hdisj la' hla'
    · intro la'
      rw [setTree_trees_of_ne _ _ (by decide)]
      simp [Contents.remove, hreads]
    · intro la'
      rw [setTree_trees_self, hmem]
      simp [Contents.remove, (h.holds s).writes]

lemma removeLatches_spec {las : List Latch} (h : Represents m P) (hnodup : las.Nodup)
    (hlas : ∀ la ∈ las, P s a la) :
    ∃ m', las.foldlM (removeLatch s a) m = some m' ∧ Represents m' (P.remove s a las) := by
  induction las generalizing m P with
  | nil => exact ⟨m, rfl, h.congr (by simp [Contents.remove])⟩
  | cons la las ih =>
    obtain ⟨hla, hnodup⟩ := nodup_cons.mp hnodup
    obtain ⟨m1, h1, hrep1⟩ := removeLatch_spec h (hlas la (.head _))
    have hrest : ∀ x ∈ las, P.remove s a [la] s a x := by
      intro x hx
      have hne : x ≠ la := fun heq => hla (heq ▸ hx)
      exact ⟨hlas x (.tail _ hx), by simpa using hne⟩
    obtain ⟨m2, h2, hrep2⟩ := ih hrep1 hnodup hrest
    refine ⟨m2, by simp [h1, h2], hrep2.congr fun s' a' x => ?_⟩
    simp only [Contents.remove, mem_cons, not_mem_nil, or_false]
    tauto

lemma removeRounds_spec (L : List (SpanScope × SpanAccess)) (hL : L.Nodup) {lg : Guard}
    (h : Represents m P) (hnodup : ∀ s a, (lg.latches s a).Nodup)
    (hlas : ∀ s a, (s, a) ∈ L → ∀ la ∈ lg.latches s a, P s a la) :
    ∃ m', L.foldlM (fun m sa => (lg.latches sa.1 sa.2).foldlM (removeLatch sa.1 sa.2) m) m =
        some m' ∧
      Represents m' fun s a la => P s a la ∧ ¬ ((s, a) ∈ L ∧ la ∈ lg.latches s a) := by
  induction L generalizing m P with
  | nil => exact ⟨m, rfl, h.congr (by simp)⟩
  | cons sa L ih =>
    obtain ⟨s0, a0⟩ := sa
    obtain ⟨hnot, hL⟩ := nodup_cons.mp hL
    obtain ⟨m1, h1, hrep1⟩ :=
      removeLatches_spec h (hnodup s0 a0) (hlas s0 a0 (.head _))
    have hrest : ∀ s a, (s, a) ∈ L → ∀ la ∈ lg.latches s a,
        P.remove s0 a0 (lg.latches s0 a0) s a la := by
      intro s a hsa la hla
      refine ⟨hlas s a (.tail _ hsa) la hla, ?_⟩
      rintro ⟨rfl, rfl, -⟩
      exact hnot hsa
    obtain ⟨m2, h2, hrep2⟩ := ih hL hrep1 hrest
    refine ⟨m2, ?_, hrep2.congr fun s a la => ?_⟩
    · rw [foldlM_cons, h1]
      exact h2
    rw [Contents.remove, mem_cons, Prod.mk.injEq]
    constructor
    · rintro ⟨⟨hP, hne⟩, hnotL⟩
      refine ⟨hP, ?_⟩
      rintro ⟨⟨rfl, rfl⟩ | hsa, hla⟩
      · exact hne ⟨rfl, rfl, hla⟩
      · exact hnotL ⟨hsa, hla⟩
    rintro ⟨hP, hne⟩
    refine ⟨⟨hP, ?_⟩, fun hsa => hne ⟨.inr hsa.1, hsa.2⟩⟩
    rintro ⟨rfl, rfl, hla⟩
    exact hne ⟨.inl ⟨rfl, rfl⟩, hla⟩

lemma removeLocked_spec {lg : Guard} (h : Represents m P)
    (hnodup : ∀ s a, (lg.latches s a).Nodup) (hlas : ∀ s a, ∀ la ∈ lg.latches s a, P s a la) :
    ∃ m', removeLocked lg m = some m' ∧
      Represents m' fun s a la => P s a la ∧ la ∉ lg.latches s a := by
  obtain ⟨m', hm', hrep⟩ :=
    removeRounds_spec scopeAccesses (by decide) h hnodup fun s a _ => hlas s a
  exact ⟨m', hm', hrep.congr fun s a la => by simp [mem_scopeAccesses]⟩

end MeshDB.SpanLatch
