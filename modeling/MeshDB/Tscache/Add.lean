import MeshDB.Tscache.Scan

/-!
# Adding a node to a page

Adding a node joins the value to the values at its key, in the gap right of it, or at both. If
the arena is full on the way, some of these positions are raised and no other.
-/
namespace MeshDB.Tscache

open Roachpb Hlc Timestamp GapMap List CacheValue Node
variable {a : Arena} {n : Node} {ns nodes xs ys : List Node} {g val v w : CacheValue} {key : Key}
  {t t' : Int}

/-! ## Values of a page -/

/-- The largest value of a page with the given maximum time. -/
def pageMax (maxTime : Int) : CacheValue := ⟨ratchetingTimeGet maxTime, noTxnID⟩

lemma pageMax_mono (h : t ≤ t') : pageMax t ≤ pageMax t' := by
  rcases (ratchetingTimeGet_mono h).lt_or_eq with hlt | heq
  · exact .inl hlt
  refine .inr ⟨heq, fun hsyn => ?_, .inl rfl⟩
  have hwall : t - t % 2 = t' - t' % 2 := congrArg (fun o => (ofLex o).1) heq
  simp only [pageMax, ratchetingTimeGet, decide_eq_true_eq] at hsyn ⊢
  omega

lemma le_pageMax (h : Rateable v.ts) : v ≤ pageMax (makeRatchetingTime v.ts) := by
  rcases (ord_le_makeRatchetingTime h.1 h.ceilWall_lt).lt_or_eq with hlt | heq
  · exact .inl hlt
  refine .inr ⟨heq, fun hsyn => ?_, .inr rfl⟩
  simp only [pageMax, ratchetingTimeGet, decide_eq_true_eq,
    makeRatchetingTime_eq h.1 h.ceilWall_lt] at hsyn
  by_contra hne
  rw [if_neg hne] at hsyn
  omega

structure Good (maxTime : Int) (v : CacheValue) : Prop where
  zero : {} ≤ v
  rateable : Rateable v.ts
  le : v ≤ pageMax maxTime

lemma Good.mono (h : Good t v) (hle : t ≤ t') : Good t' v :=
  ⟨h.zero, h.rateable, h.le.trans (pageMax_mono hle)⟩

lemma wallTime_sup (v w : CacheValue) :
    (v ⊔ w).ts.wallTime = v.ts.wallTime ∨ (v ⊔ w).ts.wallTime = w.ts.wallTime := by
  rcases lt_trichotomy v.ts.ord w.ts.ord with h | h | h
  · rw [sup_eq_right.mpr (le_of_ord_lt h)]
    exact .inr rfl
  · exact .inr (congrArg (fun o => (ofLex o).1) (ratchetValue_of_eq h).1)
  rw [sup_eq_left.mpr (le_of_ord_lt h)]
  exact .inl rfl

lemma Rateable.sup (hv : Rateable v.ts) (hw : Rateable w.ts) : Rateable (v ⊔ w).ts := by
  unfold Rateable at *
  rcases wallTime_sup v w with h | h
  · rwa [h]
  · rwa [h]

lemma Rateable.forward {s r : Timestamp} (hs : Rateable s) (hr : Rateable r) :
    Rateable (s.forward r) := by
  unfold Timestamp.forward
  split_ifs
  · exact hr
  · exact hs
  · exact hs

lemma Good.sup (hv : Good t v) (hw : Good t w) : Good t (v ⊔ w) :=
  ⟨hv.zero.trans le_sup_left, hv.rateable.sup hw.rateable, sup_le hv.le hw.le⟩

def NodeGood (maxTime : Int) (n : Node) : Prop := Good maxTime n.keyVal ∧ Good maxTime n.gapVal

lemma NodeGood.mono (h : NodeGood t n) (hle : t ≤ t') : NodeGood t' n :=
  ⟨h.1.mono hle, h.2.mono hle⟩

lemma rateable_zero : Rateable ({} : CacheValue).ts := ⟨le_rfl, by decide⟩

lemma NodeGood.zero_le_gapAt (h : NodeGood t n) (g : CacheValue) : {} ≤ n.gapAt g := by
  unfold Node.gapAt
  split_ifs
  · exact h.2.zero
  · exact h.2.zero.trans le_sup_left

lemma good_lastGap (hzero : {} ≤ pageMax t) (h : ∀ n ∈ ns, NodeGood t n) :
    Good t (lastGap ns {}) := by
  refine foldlRecOn ns _ ⟨le_rfl, rateable_zero, hzero⟩ fun g hg n hn => ?_
  have hn := (h n hn).2
  unfold Node.gapAt
  split_ifs
  · exact hn
  · exact hn.sup hg

lemma zero_le_lastGap (h : ∀ n ∈ ns, NodeGood t n) : {} ≤ lastGap ns {} :=
  foldlRecOn ns _ le_rfl fun g _ n hn => (h n hn).zero_le_gapAt g

lemma encodeValue_eq (h : {} ≤ v) : encodeValue v = v := by
  unfold encodeValue
  split_ifs with hempty
  · exact h.antisymm (le_zero_of_isEmpty hempty)
  · rfl

/-! ## Ratcheting a node -/

lemma maxTime_le_ratchet (a : Arena) (ts : Timestamp) :
    a.maxTime ≤ (a.ratchetMaxTimestamp ts).maxTime := by
  unfold Arena.ratchetMaxTimestamp
  split_ifs with h
  · exact le_rfl
  · exact (not_le.mp h).le

lemma ratchet_le_maxTime (a : Arena) (ts : Timestamp) :
    makeRatchetingTime ts ≤ (a.ratchetMaxTimestamp ts).maxTime := by
  unfold Arena.ratchetMaxTimestamp
  split_ifs with h
  · exact h
  · exact le_rfl

@[simp] lemma ratchetMaxTimestamp_isFull (a : Arena) (ts : Timestamp) :
    (a.ratchetMaxTimestamp ts).isFull = a.isFull := by
  unfold Arena.ratchetMaxTimestamp
  split_ifs <;> rfl

@[simp] lemma alloc_maxTime (a : Arena) : a.alloc.1.maxTime = a.maxTime := by
  unfold Arena.alloc
  split <;> rfl

@[simp] lemma alloc_isFull (a : Arena) : a.alloc.1.isFull = a.isFull := by
  unfold Arena.alloc
  split <;> rfl

lemma forward_eq_sup (s r : Timestamp) :
    (⟨s.forward r, noTxnID⟩ : CacheValue) = ⟨s, noTxnID⟩ ⊔ ⟨r, noTxnID⟩ := by
  rcases lt_trichotomy s.ord r.ord with h | h | h
  · rw [sup_eq_right.mpr (le_of_ord_lt h), Timestamp.forward, if_pos (less_iff.mpr h)]
  · have hless : ¬ s.less r := by
      rw [less_iff]
      exact h.not_lt
    obtain ⟨hord, hsyn, htxn⟩ :=
      @ratchetValue_of_eq ⟨s, noTxnID⟩ ⟨r, noTxnID⟩ h
    have hts : (s.forward r) = ((⟨s, noTxnID⟩ : CacheValue) ⊔ ⟨r, noTxnID⟩).ts := by
      apply ts_eq_of
      · rw [ord_forward, max_eq_right h.le]
        exact hord.symm
      rw [Timestamp.forward, if_neg hless, if_pos (eqOrdering_iff.mpr h)]
      exact hsyn.symm
    have htxn' : ((⟨s, noTxnID⟩ : CacheValue) ⊔ ⟨r, noTxnID⟩).txnID = noTxnID :=
      htxn.trans (ite_self _)
    generalize (⟨s, noTxnID⟩ : CacheValue) ⊔ ⟨r, noTxnID⟩ = x at hts htxn' ⊢
    cases x
    exact congrArg₂ CacheValue.mk hts htxn'.symm
  · rw [sup_eq_left.mpr (le_of_ord_lt h), Timestamp.forward,
      if_neg (by rw [less_iff]; exact h.not_gt), if_neg]
    rw [eqOrdering_iff]
    exact h.ne'

lemma le_noTxn (v : CacheValue) : v ≤ ⟨v.ts, noTxnID⟩ := .inr ⟨rfl, id, .inr rfl⟩

lemma le_pageMax_forward (hv : Rateable v.ts) (hw : Rateable w.ts) :
    v ≤ pageMax (a.ratchetMaxTimestamp (v.ts.forward w.ts)).maxTime ∧
    w ≤ pageMax (a.ratchetMaxTimestamp (v.ts.forward w.ts)).maxTime := by
  have hmax : (⟨v.ts.forward w.ts, noTxnID⟩ : CacheValue) ≤
      pageMax (a.ratchetMaxTimestamp (v.ts.forward w.ts)).maxTime :=
    (@le_pageMax ⟨v.ts.forward w.ts, noTxnID⟩ (hv.forward hw)).trans
      (pageMax_mono (ratchet_le_maxTime a _))
  rw [forward_eq_sup, sup_le_iff] at hmax
  exact ⟨(le_noTxn v).trans hmax.1, (le_noTxn w).trans hmax.2⟩

def joined (n : Node) (keyVal gapVal : CacheValue) : Node :=
  { n with keyVal := n.keyVal ⊔ keyVal, gapVal := n.gapVal ⊔ gapVal }

variable {keyVal gapVal : CacheValue}

lemma joined_eq_self (hk : keyVal ≤ n.keyVal)
    (hg : gapVal ≤ n.gapVal) : joined n keyVal gapVal = n := by
  unfold joined
  rw [sup_eq_left.mpr hk, sup_eq_left.mpr hg]

lemma ratchet_initialized (hn : n.state = .initialized) (hgood : NodeGood a.maxTime n)
    (hk : Rateable keyVal.ts) (hg : Rateable gapVal.ts) :
    let r := ratchetValueSet a n false keyVal gapVal false
    a.maxTime ≤ r.1.maxTime ∧
      (r.2.2 = false ∧ r.2.1 = joined n keyVal gapVal ∧ r.1.isFull = a.isFull ∧
          NodeGood r.1.maxTime r.2.1 ∨
        r.2.2 ∧ r.2.1 = n) := by
  have hstate : n.state ≠ .cantInit := by
    rw [hn]
    exact nofun
  have hzk := encodeValue_eq (hgood.1.zero.trans (le_sup_left : n.keyVal ≤ n.keyVal ⊔ keyVal))
  have hzg := encodeValue_eq (hgood.2.zero.trans (le_sup_left : n.gapVal ≤ n.gapVal ⊔ gapVal))
  have hmax := @le_pageMax_forward a (n.keyVal ⊔ keyVal) (n.gapVal ⊔ gapVal)
    (hgood.1.rateable.sup hk) (hgood.2.rateable.sup hg)
  unfold ratchetValueSet
  rw [if_neg (by simp), if_neg hstate]
  by_cases hupdate : ((ratchetValue n.keyVal keyVal).2 || (ratchetValue n.gapVal gapVal).2)
  · rw [if_pos hupdate]
    have hle := maxTime_le_ratchet a
      ((ratchetValue n.keyVal keyVal).1.ts.forward (ratchetValue n.gapVal gapVal).1.ts)
    by_cases hfull : ((a.ratchetMaxTimestamp ((ratchetValue n.keyVal keyVal).1.ts.forward
        (ratchetValue n.gapVal gapVal).1.ts)).alloc).2
    · rw [if_pos hfull, if_pos hn]
      exact ⟨by simpa using hle, .inr ⟨rfl, by rw [← hn]⟩⟩
    rw [if_neg hfull, if_neg Bool.false_ne_true]
    refine ⟨by simpa using hle, .inl ⟨rfl, ?_, by simp, ?_, ?_⟩⟩
    · unfold joined
      rw [← sup_eq_ratchetValue, ← sup_eq_ratchetValue, hzk, hzg]
    · rw [← sup_eq_ratchetValue, hzk, alloc_maxTime]
      exact ⟨hgood.1.zero.trans le_sup_left, hgood.1.rateable.sup hk, hmax.1⟩
    rw [← sup_eq_ratchetValue, ← sup_eq_ratchetValue, hzg, alloc_maxTime]
    exact ⟨hgood.2.zero.trans le_sup_left, hgood.2.rateable.sup hg, hmax.2⟩
  · rw [if_neg hupdate]
    rw [Bool.or_eq_true, not_or, Bool.not_eq_true, Bool.not_eq_true, not_updated_iff,
      not_updated_iff] at hupdate
    exact ⟨le_rfl, .inl ⟨rfl, (joined_eq_self hupdate.1 hupdate.2).symm, rfl, hgood⟩⟩

/-- A round that finds nothing to ratchet. -/
lemma ratchetValueSet_of_le (hn : n.state = .initializing) (hk : g ≤ n.keyVal)
    (hg : g ≤ n.gapVal) (setInit : Bool) : ratchetValueSet a n true g g setInit =
      (a, if setInit then { n with state := .initialized } else n, false) := by
  unfold ratchetValueSet
  rw [if_neg (by simp [hn]), if_neg (by simp [hn])]
  dsimp only
  rw [not_updated_iff.mpr hk, not_updated_iff.mpr hg]
  cases setInit <;> rfl

/-- A new node is ratcheted with the gap value before it, or can never be initialized. -/
lemma ratchet_new (hn : n.state = .initializing) (hk : {} ≤ n.keyVal) (hg : {} ≤ n.gapVal) :
    let r1 := ratchetValueSet a n true g g false
    let r2 := ratchetValueSet r1.1 r1.2.1 true g g true
    a.maxTime ≤ r2.1.maxTime ∧
      (r2.2.2 = false ∧ r2.2.1 = { joined n g g with state := .initialized } ∧
          r2.1.isFull = a.isFull ∨
        r2.2.2 ∧ r2.2.1 = { n with state := .cantInit }) := by
  have hzk := encodeValue_eq (hk.trans (le_sup_left : n.keyVal ≤ n.keyVal ⊔ g))
  have hzg := encodeValue_eq (hg.trans (le_sup_left : n.gapVal ≤ n.gapVal ⊔ g))
  by_cases hupdate : g ≤ n.keyVal ∧ g ≤ n.gapVal
  · dsimp only
    rw [ratchetValueSet_of_le hn hupdate.1 hupdate.2 false, if_neg Bool.false_ne_true,
      ratchetValueSet_of_le hn hupdate.1 hupdate.2 true, joined_eq_self hupdate.1 hupdate.2]
    exact ⟨le_rfl, .inl ⟨rfl, rfl, rfl⟩⟩
  have hflag : ((ratchetValue n.keyVal g).2 || (ratchetValue n.gapVal g).2) := by
    rw [Bool.or_eq_true, updated_iff, updated_iff, ← not_and_or]
    exact hupdate
  generalize ha : (a.ratchetMaxTimestamp ((ratchetValue n.keyVal g).1.ts.forward
    (ratchetValue n.gapVal g).1.ts)).alloc = r
  have hle : a.maxTime ≤ r.1.maxTime := by
    rw [← ha, alloc_maxTime]
    exact maxTime_le_ratchet _ _
  have hisFull : r.1.isFull = a.isFull := by
    rw [← ha, alloc_isFull, ratchetMaxTimestamp_isFull]
  have hfirst : ratchetValueSet a n true g g false =
      if r.2 then ({ r.1 with isFull := true }, { n with state := .cantInit }, true)
      else (r.1, joined n g g, false) := by
    unfold ratchetValueSet
    rw [if_neg (by simp [hn]), if_neg (by simp [hn])]
    have hstate : ¬ n.state = .initialized := by
      rw [hn]
      exact nofun
    rw [if_pos hflag, ha, ← sup_eq_ratchetValue, ← sup_eq_ratchetValue,
      hzk, hzg]
    simp only [hstate, Bool.false_eq_true, if_false]
    rfl
  dsimp only
  rw [hfirst]
  by_cases hfull : r.2
  · rw [if_pos hfull]
    exact ⟨hle, .inr ⟨rfl, rfl⟩⟩
  rw [if_neg hfull, ratchetValueSet_of_le (n := joined n g g) hn le_sup_right le_sup_right true]
  exact ⟨hle, .inl ⟨rfl, rfl, hisFull⟩⟩

/-! ## One node -/

structure Ready (a : Arena) (nodes : List Node) : Prop where
  sorted : Sorted nodes
  init : AllInitialized nodes
  good : ∀ n ∈ nodes, NodeGood a.maxTime n
  notFull : a.isFull = false

lemma quiet_of_allInitialized (h : AllInitialized nodes) : Quiet nodes := by
  intro n hn
  rw [h n hn]
  exact nofun

structure Added (val : CacheValue) (S : Position Key → Prop) (a : Arena) (nodes : List Node)
    (r : Arena × List Node × Bool) : Prop where
  grows : a.maxTime ≤ r.1.maxTime
  sorted : Sorted r.2.1
  quiet : Quiet r.2.1
  good : ∀ n ∈ r.2.1, NodeGood r.1.maxTime n
  ready : r.2.2 = false → Ready r.1 r.2.1
  raised : Raised val S (valueAt nodes {}) (valueAt r.2.1 {})

lemma Added.refl (h : Ready a nodes) (S : Position Key → Prop) :
    Added val S a nodes (a, nodes, false) :=
  ⟨le_rfl, h.sorted, quiet_of_allInitialized h.init, h.good, fun _ => h, .refl _ _ _⟩

lemma Added.full {a' : Arena} (h : Ready a nodes) (hgrows : a.maxTime ≤ a'.maxTime)
    (S : Position Key → Prop) : Added val S a nodes (a', nodes, true) :=
  ⟨hgrows, h.sorted, quiet_of_allInitialized h.init, fun m hm => (h.good m hm).mono hgrows,
    (by simp), .refl _ _ _⟩

def Gap (nodes : List Node) (key : Key) (p : Position Key) : Prop :=
  on key < p ∧ ∀ n ∈ nodes, key < n.key → p < on n.key

def NodeRange (nodes : List Node) (key : Key) (hasKey hasGap : Bool) (p : Position Key) : Prop :=
  hasKey ∧ p = on key ∨ hasGap ∧ Gap nodes key p

structure NodeAdded (val : CacheValue) (key : Key) (hasKey hasGap : Bool)
    (nodes nodes' : List Node) : Prop where
  onKey : hasKey → val ≤ valueAt nodes' {} (on key)
  inGap : hasGap → ∀ p, Gap nodes' key p → val ≤ valueAt nodes' {} p
  bounded : (∃ n ∈ nodes', n.key = key) ∨ val ≤ valueAt nodes' {} (on key)
  keeps : ∀ k, (∃ n ∈ nodes, n.key = k) → ∃ n ∈ nodes', n.key = k

def when (b : Bool) (val : CacheValue) : CacheValue := if b then val else {}

lemma valueAt_present (hx : ∀ m ∈ xs, m.key < n.key) (hy : ∀ m ∈ ys, n.key < m.key)
    (p : Position Key) : valueAt (xs ++ n :: ys) {} p =
      if p < on n.key then valueAt xs {} p
      else if p = on n.key then n.keyAt (lastGap xs {})
      else valueAt ys (n.gapAt (lastGap xs {})) p := by
  rw [valueAt_append hx (k := n.key)]
  · split_ifs with h1 h2
    · rfl
    · rw [h2, valueAt_cons_on]
    · rw [valueAt_cons_gt (lt_of_le_of_ne (not_lt.mp h1) (Ne.symm h2))]
  exact forall_mem_cons.mpr ⟨le_rfl, fun m hm => (hy m hm).le⟩

lemma raised_present {n' : Node} (hx : ∀ m ∈ xs, m.key < n.key) (hy : ∀ m ∈ ys, n.key < m.key)
    (hinit : AllInitialized ys) (hsorted : Sorted ys) {old : Position Key → CacheValue}
    {keyVal gapVal : CacheValue} (hkey : n'.key = n.key)
    (hleft : ∀ p < on n.key, old p = valueAt xs {} p)
    (hon : n'.keyAt (lastGap xs {}) = old (on n.key) ⊔ keyVal)
    (hgap : ∃ g, n'.gapAt (lastGap xs {}) = g ⊔ gapVal ∧
      ∀ p, on n.key < p → old p = valueAt ys g p) (p : Position Key) :
    valueAt (xs ++ n' :: ys) {} p = old p ∨
      p = on n.key ∧ valueAt (xs ++ n' :: ys) {} p = old p ⊔ keyVal ∨
      (on n.key < p ∧ ∀ m ∈ ys, p < on m.key) ∧ valueAt (xs ++ n' :: ys) {} p = old p ⊔ gapVal := by
  obtain ⟨g, hg, hright⟩ := hgap
  rw [valueAt_present (hkey ▸ hx) (hkey ▸ hy), hkey]
  rcases lt_trichotomy p (on n.key) with hlt | heq | hgt
  · rw [if_pos hlt]
    exact .inl (hleft p hlt).symm
  · subst heq
    rw [if_neg (lt_irrefl _), if_pos rfl]
    exact .inr (.inl ⟨rfl, hon⟩)
  rw [if_neg hgt.not_gt, if_neg hgt.ne', hright p hgt, hg]
  rcases valueAt_cases hinit hsorted p with hfree | hcongr
  · right
    right
    rw [valueAt_of_lt hfree, valueAt_of_lt hfree]
    exact ⟨⟨hgt, hfree⟩, rfl⟩
  · exact .inl (hcongr _ _)

variable {mid : List Node}

lemma gap_split (hx : ∀ m ∈ xs, m.key < key) (hmid : ∀ m ∈ mid, m.key = key)
    (hy : ∀ m ∈ ys, key < m.key) (p : Position Key) :
    Gap (xs ++ mid ++ ys) key p ↔ on key < p ∧ ∀ m ∈ ys, p < on m.key := by
  refine and_congr_right fun _ => ⟨fun h m hm => ?_, fun h m hm hlt => ?_⟩
  · exact h m (mem_append_right _ hm) (hy m hm)
  rcases mem_append.mp hm with hm | hm
  · rcases mem_append.mp hm with hm | hm
    · exact absurd hlt (hx m hm).not_gt
    · exact absurd hlt ((hmid m hm).not_gt)
  · exact h m hm

lemma when_eq (b : Bool) (val : CacheValue) : b ∧ when b val = val ∨ when b val = {} := by
  cases b with
  | false => exact .inr rfl
  | true => exact .inl ⟨rfl, rfl⟩

lemma raised_of_cases {hasKey hasGap : Bool} {f f' : Position Key → CacheValue}
    {G : Position Key → Prop} (hzero : ∀ p, {} ≤ f p)
    (h : ∀ p, f' p = f p ∨ p = on key ∧ f' p = f p ⊔ when hasKey val ∨
      G p ∧ f' p = f p ⊔ when hasGap val) :
    Raised val (fun p => hasKey ∧ p = on key ∨ hasGap ∧ G p) f f' := by
  intro p
  rcases h p with h | ⟨hp, h⟩ | ⟨hp, h⟩
  · exact .inl h
  · rcases when_eq hasKey val with ⟨hk, hval⟩ | hval
    · exact .inr ⟨.inl ⟨hk, hp⟩, hval ▸ h⟩
    · exact .inl (h.trans (by rw [hval, sup_eq_left.mpr (hzero p)]))
  rcases when_eq hasGap val with ⟨hg, hval⟩ | hval
  · exact .inr ⟨.inr ⟨hg, hp⟩, hval ▸ h⟩
  · exact .inl (h.trans (by rw [hval, sup_eq_left.mpr (hzero p)]))

lemma zero_le_valueAt (h : ∀ n ∈ ns, NodeGood t n) (hg : {} ≤ g) (p : Position Key) :
    {} ≤ valueAt ns g p := by
  induction ns generalizing g with
  | nil => exact hg
  | cons n ns ih =>
    have hn := h n (.head _)
    unfold valueAt
    split_ifs
    · exact hg
    · unfold Node.keyAt
      split_ifs
      · exact hn.1.zero
      · exact hn.1.zero.trans le_sup_left
    exact ih (fun m hm => h m (.tail n hm)) (hn.zero_le_gapAt g)

lemma rateable_when (b : Bool) (h : Rateable val.ts) : Rateable (when b val).ts := by
  cases b with
  | false => exact rateable_zero
  | true => exact h

lemma sorted_insert (h : Sorted (xs ++ ys)) (hx : ∀ m ∈ xs, m.key < n.key)
    (hy : ∀ m ∈ ys, n.key < m.key) : Sorted (xs ++ n :: ys) := by
  obtain ⟨h1, h2, h3⟩ := pairwise_append.mp h
  apply pairwise_append.mpr
  refine ⟨h1, pairwise_cons.mpr ⟨hy, h2⟩, fun m hm m' hm' => ?_⟩
  rcases mem_cons.mp hm' with rfl | hm'
  · exact hx m hm
  · exact h3 m hm m' hm'

variable {hasKey hasGap : Bool} {a' : Arena} {n' : Node}

lemma added_node (hready : Ready a (xs ++ mid ++ ys))
    (hx : ∀ m ∈ xs, m.key < key) (hmid : ∀ m ∈ mid, m.key = key) (hy : ∀ m ∈ ys, key < m.key)
    (hkey : n'.key = key) (hgrows : a.maxTime ≤ a'.maxTime) (hgood : NodeGood a'.maxTime n')
    (hquiet : n'.state ≠ .initializing)
    (hcases : ∀ p, valueAt (xs ++ n' :: ys) {} p = valueAt (xs ++ mid ++ ys) {} p ∨
      p = on key ∧ valueAt (xs ++ n' :: ys) {} p =
        valueAt (xs ++ mid ++ ys) {} p ⊔ when hasKey val ∨
      (on key < p ∧ ∀ m ∈ ys, p < on m.key) ∧ valueAt (xs ++ n' :: ys) {} p =
        valueAt (xs ++ mid ++ ys) {} p ⊔ when hasGap val) {full : Bool}
    (hready' : full = false → n'.state = .initialized ∧ a'.isFull = false) :
    Added val (NodeRange (xs ++ mid ++ ys) key hasKey hasGap) a (xs ++ mid ++ ys)
      (a', xs ++ n' :: ys, full) := by
  have hsorted : Sorted (xs ++ n' :: ys) := by
    have hsub : Sorted (xs ++ ys) := hready.sorted.sublist (by
      rw [append_assoc]
      exact List.Sublist.append_left (sublist_append_right mid ys) xs)
    exact sorted_insert hsub (hkey ▸ hx) (hkey ▸ hy)
  have hall : ∀ {P : Node → Prop}, P n' → (∀ m ∈ xs ++ mid ++ ys, P m) →
      ∀ m ∈ xs ++ n' :: ys, P m := by
    intro P hn' hold m hm
    rcases mem_append.mp hm with hm | hm
    · exact hold m (mem_append_left _ (mem_append_left _ hm))
    rcases mem_cons.mp hm with rfl | hm
    · exact hn'
    · exact hold m (mem_append_right _ hm)
  have hgood' : ∀ m ∈ xs ++ n' :: ys, NodeGood a'.maxTime m :=
    hall hgood fun m hm => (hready.good m hm).mono hgrows
  refine ⟨hgrows, hsorted, hall hquiet (quiet_of_allInitialized hready.init), hgood',
    fun hfull => ?_, ?_⟩
  · obtain ⟨hinit, hnot⟩ := hready' hfull
    exact ⟨hsorted, hall hinit hready.init, hgood', hnot⟩
  · apply (raised_of_cases (zero_le_valueAt hready.good le_rfl) hcases).mono
    rintro p (hp | ⟨hg, hp⟩)
    · exact .inl (.inl hp)
    · exact .inl (.inr ⟨hg, (gap_split hx hmid hy p).mpr hp⟩)

lemma nodeAdded_node (hx : ∀ m ∈ xs, m.key < key)
    (hmid : ∀ m ∈ mid, m.key = key) (hy : ∀ m ∈ ys, key < m.key) (hkey : n'.key = key)
    (hon : when hasKey val ≤ n'.keyAt (lastGap xs {}))
    (hgap : when hasGap val ≤ n'.gapAt (lastGap xs {})) :
    NodeAdded val key hasKey hasGap (xs ++ mid ++ ys) (xs ++ n' :: ys) := by
  have hvalue := fun p => valueAt_present (hkey ▸ hx) (hkey ▸ hy) p
  refine ⟨?_, ?_, .inl ⟨n', by simp, hkey⟩, ?_⟩
  · rintro rfl
    rw [← hkey, hvalue, if_neg (lt_irrefl _), if_pos rfl]
    exact hon
  · rintro rfl p ⟨hp, hfree⟩
    rw [hvalue, hkey, if_neg hp.not_gt, if_neg hp.ne', valueAt_of_lt fun m hm =>
      hfree m (mem_append_right _ (.tail _ hm)) (hy m hm)]
    exact hgap
  rintro k ⟨m, hm, rfl⟩
  rcases mem_append.mp hm with hm | hm
  · rcases mem_append.mp hm with hm | hm
    · exact ⟨m, mem_append_left _ hm, rfl⟩
    · exact ⟨n', by simp, hkey.trans (hmid m hm).symm⟩
  · exact ⟨m, mem_append_right _ (.tail _ hm), rfl⟩

lemma ratchetNode_spec (hready : Ready a (xs ++ n :: ys)) (hx : ∀ m ∈ xs, m.key < n.key)
    (hy : ∀ m ∈ ys, n.key < m.key) (hval : Rateable val.ts) :
    let r := ratchetNode a ⟨xs.reverse, n :: ys⟩ hasKey hasGap (when hasKey val) (when hasGap val)
    Added val (NodeRange (xs ++ n :: ys) n.key hasKey hasGap) a (xs ++ n :: ys) r ∧
      (r.2.2 = false → NodeAdded val n.key hasKey hasGap (xs ++ n :: ys) r.2.1) := by
  have hinit : n.state = .initialized := hready.init n (by simp)
  have hgood : NodeGood a.maxTime n := hready.good n (by simp)
  have hsplit : xs ++ n :: ys = xs ++ [n] ++ ys := by simp
  have hys : AllInitialized ys := fun m hm => hready.init m (by simp [hm])
  have hsy : Sorted ys := (pairwise_append.mp hready.sorted).2.1.tail
  have hjkey : (joined n (when hasKey val) (when hasGap val)).key = n.key := rfl
  have hjinit : (joined n (when hasKey val) (when hasGap val)).state = .initialized := hinit
  have hcases := @raised_present n xs ys (joined n (when hasKey val) (when hasGap val)) hx hy hys
    hsy (valueAt (xs ++ n :: ys) {}) (when hasKey val) (when hasGap val) hjkey
    (fun p hp => by rw [valueAt_present hx hy, if_pos hp])
    (by
      rw [valueAt_present hx hy, if_neg (lt_irrefl _), if_pos rfl,
        keyAt_of_initialized hinit, keyAt_of_initialized hjinit]
      rfl)
    ⟨n.gapVal, gapAt_of_initialized hjinit _, fun p hp => by
      rw [valueAt_present hx hy, if_neg hp.not_gt, if_neg hp.ne', gapAt_of_initialized hinit]⟩
  have hsuccess : ∀ a', a.maxTime ≤ a'.maxTime → a'.isFull = false →
      NodeGood a'.maxTime (joined n (when hasKey val) (when hasGap val)) →
      Added val (NodeRange (xs ++ n :: ys) n.key hasKey hasGap) a (xs ++ n :: ys)
        (a', xs ++ joined n (when hasKey val) (when hasGap val) :: ys, false) ∧
      NodeAdded val n.key hasKey hasGap (xs ++ n :: ys)
        (xs ++ joined n (when hasKey val) (when hasGap val) :: ys) := by
    intro a' hgrows hfull hgood'
    constructor
    · rw [hsplit] at hready hcases ⊢
      exact added_node hready hx (by simp) hy hjkey hgrows hgood' (by simp [hjinit])
        hcases fun _ => ⟨hjinit, hfull⟩
    rw [hsplit]
    apply nodeAdded_node hx (by simp) hy hjkey
    · rw [keyAt_of_initialized hjinit]
      exact le_sup_right
    rw [gapAt_of_initialized hjinit]
    exact le_sup_right
  unfold ratchetNode
  dsimp only
  by_cases hnone : (!hasKey && !hasGap)
  · rw [if_pos hnone]
    have hfalse : hasKey = false ∧ hasGap = false := by simpa using hnone
    have hself : joined n (when hasKey val) (when hasGap val) = n := by
      rw [hfalse.1, hfalse.2]
      exact joined_eq_self hgood.1.zero hgood.2.zero
    rw [hself] at hsuccess
    have := hsuccess a le_rfl hready.notFull hgood
    simp only [Cursor.nodes, reverse_reverse]
    exact ⟨this.1, fun _ => this.2⟩
  rw [if_neg hnone]
  obtain ⟨hgrows, hr⟩ := ratchet_initialized hinit hgood (rateable_when hasKey hval)
    (rateable_when hasGap hval)
  generalize ratchetValueSet a n false (when hasKey val) (when hasGap val) false = r at hgrows hr
  obtain ⟨a', m, full⟩ := r
  simp only [Cursor.nodes, reverse_reverse]
  rcases hr with ⟨rfl, rfl, hfull, hgood'⟩ | ⟨rfl, rfl⟩
  · have := hsuccess a' hgrows (hfull.trans hready.notFull) hgood'
    exact ⟨this.1, fun _ => this.2⟩
  exact ⟨.full hready hgrows _, (by simp)⟩

lemma added_newNode (hready : Ready a (xs ++ ys)) (hx : ∀ m ∈ xs, m.key < key)
    (hy : ∀ m ∈ ys, key < m.key) (hkey : n'.key = key) (hgrows : a.maxTime ≤ a'.maxTime)
    (hgood : NodeGood a'.maxTime n') (hquiet : n'.state ≠ .initializing)
    (hon : n'.keyAt (lastGap xs {}) = lastGap xs {} ⊔ when hasKey val)
    (hgap : n'.gapAt (lastGap xs {}) = lastGap xs {} ⊔ when hasGap val) {full : Bool}
    (hready' : full = false → n'.state = .initialized ∧ a'.isFull = false) :
    Added val (NodeRange (xs ++ ys) key hasKey hasGap) a (xs ++ ys) (a', xs ++ n' :: ys, full) ∧
      NodeAdded val key hasKey hasGap (xs ++ ys) (xs ++ n' :: ys) := by
  have hys : AllInitialized ys := fun m hm => hready.init m (mem_append_right _ hm)
  have hsy : Sorted ys := (pairwise_append.mp hready.sorted).2.1
  have hold := fun p => valueAt_append (g := {}) hx (fun m hm => (hy m hm).le) p
  have hright : ∀ p, on n'.key < p → valueAt (xs ++ ys) {} p = valueAt ys (lastGap xs {}) p := by
    intro p hp
    rw [hold, if_neg (hkey ▸ hp).not_gt]
  have hcases := @raised_present n' xs ys n' (hkey ▸ hx) (hkey ▸ hy) hys hsy
    (valueAt (xs ++ ys) {}) (when hasKey val) (when hasGap val) rfl
    (fun p hp => by rw [hold, if_pos (hkey ▸ hp)])
    (by
      rw [hon, hold, hkey, if_neg (lt_irrefl _), valueAt_of_lt fun m hm => on_lt_on.mpr (hy m hm)])
    ⟨lastGap xs {}, hgap, hright⟩
  have hsplit : xs ++ ys = xs ++ [] ++ ys := by simp
  rw [hkey] at hcases
  rw [hsplit] at hready hcases ⊢
  constructor
  · exact added_node hready hx (by simp) hy hkey hgrows hgood hquiet hcases hready'
  apply nodeAdded_node hx (by simp) hy hkey
  · rw [hon]
    exact le_sup_right
  rw [hgap]
  exact le_sup_right

lemma addNewNode_spec (hready : Ready a (xs ++ ys)) (hx : ∀ m ∈ xs, m.key < key)
    (hy : ∀ m ∈ ys, key < m.key) (hval : Rateable val.ts) :
    let r := addNewNode a ⟨xs.reverse, ys⟩ key val (when hasKey val) (when hasGap val)
    Added val (NodeRange (xs ++ ys) key hasKey hasGap) a (xs ++ ys) r ∧
      (r.2.2 = false → NodeAdded val key hasKey hasGap (xs ++ ys) r.2.1) := by
  have hgoodx : ∀ m ∈ xs, NodeGood a.maxTime m := fun m hm =>
    hready.good m (mem_append_left _ hm)
  have hqx : Quiet xs.reverse := fun m hm =>
    quiet_of_allInitialized hready.init m (mem_append_left _ (mem_reverse.mp hm))
  have hxr : ∀ m ∈ xs.reverse, m.key < key := fun m hm => hx m (mem_reverse.mp hm)
  have hzero := zero_le_lastGap hgoodx
  have hfree : ∀ p, on key ≤ p → (∀ m ∈ ys, p < on m.key) →
      valueAt (xs ++ ys) {} p = lastGap xs {} := by
    intro p hp hfree
    rw [valueAt_append hx (fun m hm => (hy m hm).le), if_neg hp.not_gt, valueAt_of_lt hfree]
  obtain ⟨m', hin⟩ := @incomingGapVal_of_lt a key xs.reverse ys hqx hxr hy
  rw [reverse_reverse] at hin
  unfold addNewNode
  rw [hin]
  by_cases hle : val ≤ lastGap xs {}
  · rw [if_pos (not_updated_iff.mpr hle)]
    simp only [Cursor.nodes, reverse_reverse]
    refine ⟨.refl hready _, fun _ => ⟨fun _ => ?_, fun _ p hp => ?_, .inr ?_, fun _ h => h⟩⟩
    · rw [hfree _ le_rfl fun m hm => on_lt_on.mpr (hy m hm)]
      exact hle
    · rw [hfree p hp.1.le fun m hm => hp.2 m (mem_append_right _ hm) (hy m hm)]
      exact hle
    rw [hfree _ le_rfl fun m hm => on_lt_on.mpr (hy m hm)]
    exact hle
  rw [if_neg (by rw [not_updated_iff]; exact hle)]
  have hvalzero : {} ≤ val :=
    le_of_not_le_zero fun h => hle (h.trans hzero)
  have hwhen : ∀ b, {} ≤ when b val := by
    intro b
    cases b with
    | false => exact le_rfl
    | true => exact hvalzero
  generalize ha1 : (a.ratchetMaxTimestamp val.ts).alloc = r₁
  obtain ⟨a1, full1⟩ := r₁
  have hmaxTime : a1.maxTime = (a.ratchetMaxTimestamp val.ts).maxTime := by
    rw [← alloc_maxTime (a.ratchetMaxTimestamp val.ts), ha1]
  have hgrows1 : a.maxTime ≤ a1.maxTime := hmaxTime ▸ maxTime_le_ratchet a val.ts
  have hmax1 : val ≤ pageMax a1.maxTime :=
    (le_pageMax hval).trans (pageMax_mono (hmaxTime ▸ ratchet_le_maxTime a val.ts))
  have hnotFull1 : a1.isFull = false := by
    have : (a.ratchetMaxTimestamp val.ts).alloc.1.isFull = a.isFull := by simp
    rw [ha1] at this
    exact this.trans hready.notFull
  simp only [Cursor.nodes, reverse_reverse]
  cases full1 with
  | true =>
    rw [if_pos rfl]
    refine ⟨.full hready ?_ _, (by simp)⟩
    exact hgrows1
  | false =>
    rw [if_neg Bool.false_ne_true, encodeValue_eq (hwhen hasKey), encodeValue_eq (hwhen hasGap)]
    obtain ⟨m', hin2⟩ := @incomingGapVal_of_not_initialized a1
      ⟨key, when hasKey val, when hasGap val, .initializing⟩ key xs.reverse ys hqx hxr rfl (by simp)
    rw [reverse_reverse] at hin2
    unfold ensureInitialized
    rw [hin2]
    dsimp only
    obtain ⟨hgrows2, hr⟩ := @ratchet_new a1
      ⟨key, when hasKey val, when hasGap val, .initializing⟩ (lastGap xs {}) rfl
      (hwhen hasKey) (hwhen hasGap)
    generalize ratchetValueSet _ _ true (lastGap xs {}) (lastGap xs {}) true = r₂ at hgrows2 hr ⊢
    obtain ⟨a2, n2, full2⟩ := r₂
    rw [reverse_reverse]
    have hmax2 := hmax1.trans (pageMax_mono hgrows2)
    have hgap : Good a2.maxTime (lastGap xs {}) :=
      good_lastGap (hvalzero.trans hmax2) fun m hm => (hgoodx m hm).mono (hgrows1.trans hgrows2)
    have hgood : ∀ b, Good a2.maxTime (when b val) := by
      intro b
      cases b with
      | false => exact ⟨le_rfl, rateable_zero, hvalzero.trans hmax2⟩
      | true => exact ⟨hvalzero, hval, hmax2⟩
    rcases hr with ⟨rfl, rfl, hfull⟩ | ⟨rfl, rfl⟩
    · have := @added_newNode a xs ys val key hasKey hasGap a2
        { joined ⟨key, when hasKey val, when hasGap val, .initializing⟩ (lastGap xs {})
            (lastGap xs {}) with state := .initialized } hready hx hy rfl
        (hgrows1.trans hgrows2) ⟨(hgood hasKey).sup hgap, (hgood hasGap).sup hgap⟩ (by simp)
        (sup_comm _ _) (sup_comm _ _) false fun _ => ⟨rfl, hfull.trans hnotFull1⟩
      exact ⟨this.1, fun _ => this.2⟩
    have := @added_newNode a xs ys val key hasKey hasGap a2
      ⟨key, when hasKey val, when hasGap val, .cantInit⟩ hready hx hy rfl
      (hgrows1.trans hgrows2) ⟨hgood hasKey, hgood hasGap⟩ (by simp)
      (sup_comm _ _) (sup_comm _ _) true (by simp)
    exact ⟨this.1, (by simp)⟩

lemma addNode_spec (hready : Ready a nodes) (hval : Rateable val.ts) (mustInit : Bool) :
    let r := addNode a nodes key val hasKey hasGap mustInit
    Added val (NodeRange nodes key hasKey hasGap) a nodes r ∧
      (r.2.2 = false → NodeAdded val key hasKey hasGap nodes r.2.1) := by
  have haround := around_seekForPrev hready.sorted key
  unfold addNode
  generalize seekForPrev nodes key = c at haround ⊢
  cases haround with
  | @absent xs ys hx hy heq =>
    subst heq
    have hspec := @addNewNode_spec a xs ys val key hasKey hasGap hready hx hy hval
    cases hrev : xs.reverse with
    | nil =>
      rw [hrev] at hspec
      exact hspec
    | cons n back =>
      have hne : n.key ≠ key := by
        have hn : n ∈ xs.reverse := by simp [hrev]
        exact (hx n (mem_reverse.mp hn)).ne
      dsimp only
      rw [if_neg hne]
      rw [hrev] at hspec
      exact hspec
  | @present xs ys n hx hy hn heq =>
    subst heq
    subst hn
    have hinit : n.state = .initialized := hready.init n (by simp)
    dsimp only
    rw [if_pos rfl, if_neg (by simp [hinit])]
    exact ratchetNode_spec hready hx hy hval

end MeshDB.Tscache
