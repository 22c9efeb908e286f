import MeshDB.Tscache.Add

/-!
# Adding a range to a page

Adding a range first makes a node at its end, so that nothing is raised past it, then one at
its start, and raises all nodes between them.
-/
namespace MeshDB.Tscache

open Roachpb Hlc GapMap List Node
variable {a : Arena} {n : Node} {ns nodes xs ys : List Node} {g val : CacheValue}
  {stop : Option Key} {key : Key} {opt : RangeOptions}

/-- Nothing is raised past the end of a range: there is a node, or the value is there. -/
def Bounded (val : CacheValue) (stop : Option Key) (ns : List Node) (g : CacheValue) : Prop :=
  ∀ t ∈ stop, (∃ n ∈ ns, n.key = t) ∨ val ≤ valueAt ns g (on t)

def Between (key : Key) (stop : Option Key) (p : Position Key) : Prop :=
  on key < p ∧ ∀ t ∈ stop, p < on t

variable {p : Position Key} {r : Arena × List Node × Bool}

lemma Bounded.le_of_gap (h : Bounded val stop ns g) {t : Key} (ht : t ∈ stop)
    (hp : on t ≤ p) (hfree : ∀ n ∈ ns, n.key < t ∨ p < on n.key) : val ≤ valueAt ns g p := by
  rcases h t ht with ⟨n, hn, rfl⟩ | h
  · rcases hfree n hn with hlt | hlt
    · exact absurd hlt (lt_irrefl _)
    · exact absurd hp hlt.not_ge
  rw [valueAt_const hp hfree]
  exact h

lemma Bounded.tail (h : Bounded val stop (n :: ns) g) (hn : n.state = .initialized)
    (hlt : ∀ t ∈ stop, n.key < t) : Bounded val stop ns (n.gapVal ⊔ val) := by
  intro t ht
  rcases h t ht with ⟨m, hm, rfl⟩ | h
  · rcases mem_cons.mp hm with rfl | hm
    · exact absurd (hlt _ ht) (lt_irrefl _)
    · exact .inl ⟨m, hm, rfl⟩
  right
  rw [valueAt_cons_gt (on_lt_on.mpr (hlt t ht)), gapAt_of_initialized hn] at h
  exact h.trans (valueAt_mono le_sup_left)

/-- The same keys, with values raised between the key before the nodes and the end. -/
structure Floored (val : CacheValue) (key : Key) (stop : Option Key) (a : Arena)
    (ns : List Node) (g : CacheValue) (r : Arena × List Node × Bool) : Prop where
  grows : a.maxTime ≤ r.1.maxTime
  keys : r.2.1.map Node.key = ns.map Node.key
  init : AllInitialized r.2.1
  good : ∀ n ∈ r.2.1, NodeGood r.1.maxTime n
  notFull : r.2.2 = false → r.1.isFull = false
  raised : Raised val (Between key stop) (valueAt ns g) (valueAt r.2.1 g)
  reached : r.2.2 = false → ∀ p, (∃ n ∈ ns, on n.key ≤ p) → (∀ t ∈ stop, p < on t) →
    val ≤ valueAt r.2.1 g p

lemma Floored.cons {a1 : Arena} {r : Arena × List Node × Bool} (hsorted : Sorted (n :: ns))
    (hinit : AllInitialized (n :: ns)) (hkey : key < n.key) (hlt : ∀ t ∈ stop, n.key < t)
    (hbounded : Bounded val stop (n :: ns) g) (hgrows : a.maxTime ≤ a1.maxTime)
    (hgood : NodeGood a1.maxTime (joined n val val))
    (h : Floored val key stop a1 ns (n.gapVal ⊔ val) r) :
    Floored val key stop a (n :: ns) g (r.1, joined n val val :: r.2.1, r.2.2) := by
  have hn : n.state = .initialized := hinit n (.head _)
  have hn' : (joined n val val).state = .initialized := hn
  have hns : AllInitialized ns := fun m hm => hinit m (.tail n hm)
  have hon : valueAt (joined n val val :: r.2.1) g (on n.key) = n.keyVal ⊔ val :=
    (valueAt_cons_on (n := joined n val val)).trans (keyAt_of_initialized hn' _)
  refine ⟨hgrows.trans h.grows, ?_, forall_mem_cons.mpr ⟨hn', h.init⟩,
    forall_mem_cons.mpr ⟨hgood.mono h.grows, h.good⟩, h.notFull, ?_, ?_⟩
  · simp only [map_cons, h.keys]
    rfl
  · intro p
    rcases lt_trichotomy p (on n.key) with hp | rfl | hp
    · rw [valueAt_cons_lt hp, valueAt_cons_lt (n := joined n val val) hp]
      exact .inl rfl
    · rw [hon, valueAt_cons_on, keyAt_of_initialized hn]
      exact .inr ⟨⟨on_lt_on.mpr hkey, fun t ht => on_lt_on.mpr (hlt t ht)⟩, rfl⟩
    have hval : valueAt (joined n val val :: r.2.1) g p = valueAt r.2.1 (n.gapVal ⊔ val) p := by
      rw [valueAt_cons_gt (n := joined n val val) hp, gapAt_of_initialized hn']
      rfl
    rw [hval, valueAt_cons_gt hp, gapAt_of_initialized hn]
    rcases valueAt_cases hns hsorted.tail p with hfree | hcongr
    · have hnew : valueAt r.2.1 (n.gapVal ⊔ val) p = n.gapVal ⊔ val := by
        rcases h.raised p with h | ⟨-, h⟩
        · rw [h, valueAt_of_lt hfree]
        · rw [h, valueAt_of_lt hfree, sup_assoc, sup_idem]
      rw [hnew, valueAt_of_lt hfree]
      by_cases hin : ∀ t ∈ stop, p < on t
      · exact .inr ⟨⟨(on_lt_on.mpr hkey).trans hp, hin⟩, rfl⟩
      push Not at hin
      obtain ⟨t, ht, hle⟩ := hin
      have hthere := hbounded.le_of_gap ht hle
        (forall_mem_cons.mpr ⟨.inl (hlt t ht), fun m hm => .inr (hfree m hm)⟩)
      rw [valueAt_cons_gt hp, gapAt_of_initialized hn, valueAt_of_lt hfree] at hthere
      exact .inl (sup_eq_left.mpr hthere)
    · rw [hcongr n.gapVal (n.gapVal ⊔ val)]
      exact h.raised p
  rintro hfull p ⟨m, hm, hmp⟩ hin
  have hp : on n.key ≤ p := (on_le_on.mpr (hsorted.key_le m hm)).trans hmp
  rcases hp.lt_or_eq with hp | rfl
  · rw [valueAt_cons_gt (n := joined n val val) hp, gapAt_of_initialized hn']
    by_cases hex : ∃ m ∈ ns, on m.key ≤ p
    · exact h.reached hfull p hex hin
    push Not at hex
    have hle := h.raised.le p
    rw [valueAt_of_lt hex] at hle
    exact le_sup_right.trans hle
  · rw [hon]
    exact le_sup_right

lemma Floored.refl (hready : Ready a ns) {a1 : Arena} (hgrows : a.maxTime ≤ a1.maxTime)
    {full : Bool} (hnotFull : full = false → a1.isFull = false)
    (hreached : full = false → ∀ p, (∃ n ∈ ns, on n.key ≤ p) → ¬ ∀ t ∈ stop, p < on t) :
    Floored val key stop a ns g (a1, ns, full) :=
  ⟨hgrows, rfl, hready.init, fun n hn => (hready.good n hn).mono hgrows, hnotFull, .refl _ _ _,
    fun hfull p hex hin => absurd hin (hreached hfull p hex)⟩

lemma ensureFloorValue_spec (hready : Ready a ns) (hval : Rateable val.ts)
    (hkey : ∀ n ∈ ns, key < n.key) (hbounded : Bounded val stop ns g) :
    Floored val key stop a ns g (ensureFloorValue a stop val ns) := by
  induction ns generalizing a g with
  | nil => exact .refl hready le_rfl (fun _ => hready.notFull) (by rintro - p ⟨n, hn, -⟩; cases hn)
  | cons n ns ih =>
    unfold ensureFloorValue
    by_cases hend : (stop.any fun k => decide (k ≤ n.key))
    · rw [if_pos hend]
      refine .refl hready le_rfl (fun _ => hready.notFull) ?_
      rintro - p ⟨m, hm, hmp⟩ hin
      obtain ⟨t, ht, hle⟩ := (Option.any_eq_true _ _).mp hend
      have hnm : n.key ≤ m.key := hready.sorted.key_le m hm
      have hpt := hin t ht
      exact absurd ((on_le_on.mpr ((of_decide_eq_true hle).trans hnm)).trans hmp) hpt.not_ge
    rw [if_neg hend, if_neg (by rw [hready.notFull]; exact Bool.false_ne_true)]
    have hlt : ∀ t ∈ stop, n.key < t := by
      intro t ht
      by_contra hle
      exact hend ((Option.any_eq_true _ _).mpr ⟨t, ht, decide_eq_true (not_lt.mp hle)⟩)
    have hn : n.state = .initialized := hready.init n (.head _)
    obtain ⟨hgrows, hr⟩ := ratchet_initialized hn (hready.good n (.head _)) hval hval
    generalize ratchetValueSet a n false val val false = r at hgrows hr
    obtain ⟨a1, m, full⟩ := r
    dsimp only at hgrows hr ⊢
    rcases hr with ⟨rfl, rfl, hnotFull, hgood⟩ | ⟨rfl, rfl⟩
    · rw [if_neg Bool.false_ne_true]
      have hready1 : Ready a1 ns :=
        ⟨hready.sorted.tail, fun m hm => hready.init m (.tail n hm),
          fun m hm => (hready.good m (.tail n hm)).mono hgrows,
          hnotFull.trans hready.notFull⟩
      have hrest := @ih a1 (n.gapVal ⊔ val) hready1
        (fun m hm => hkey m (.tail n hm)) (hbounded.tail hn hlt)
      exact hrest.cons hready.sorted hready.init (hkey n (.head _)) hlt hbounded hgrows hgood
    · rw [if_pos rfl]
      exact .refl hready hgrows nofun nofun

/-! ## The whole range -/

/-- The positions of a range whose start is before its end; without a start it is the end
alone. -/
def RangeAt (start stop : Option Key) (opt : RangeOptions) (p : Position Key) : Prop :=
  match start with
  | none => ∃ t ∈ stop, p = on t
  | some start => lowest start opt.excludeFrom ≤ p ∧ UpTo stop opt.excludeTo p

lemma Added.trans {S : Position Key → Prop} {a1 : Arena} {nodes1 : List Node} {full : Bool}
    (h : Added val S a nodes (a1, nodes1, full)) (h' : Added val S a1 nodes1 r)
    : Added val S a nodes r :=
  ⟨h.grows.trans h'.grows, h'.sorted, h'.quiet, h'.good, h'.ready, h.raised.trans h'.raised⟩

lemma Added.mono {S T : Position Key → Prop}
    (h : Added val S a nodes r) (hST : ∀ p, S p → T p ∨ val ≤ valueAt nodes {} p) :
    Added val T a nodes r :=
  ⟨h.grows, h.sorted, h.quiet, h.good, h.ready, h.raised.mono hST⟩

lemma addEndNode_spec (hready : Ready a nodes) (hval : Rateable val.ts) {start : Option Key}
    (hlt : ∀ s ∈ start, ∀ t ∈ stop, s < t) :
    let r := addEndNode a nodes stop opt val
    Added val (RangeAt start stop opt) a nodes r ∧
      (r.2.2 = false → Bounded val stop r.2.1 {} ∧
        (opt.excludeTo = false → ∀ t ∈ stop, val ≤ valueAt r.2.1 {} (on t))) := by
  cases stop with
  | none => exact ⟨.refl hready _, fun _ => ⟨nofun, nofun⟩⟩
  | some t =>
    obtain ⟨hadded, hnode⟩ := @addNode_spec a nodes val t (!opt.excludeTo) false hready hval true
    constructor
    · apply hadded.mono
      rintro p (⟨hex, rfl⟩ | ⟨hfalse, -⟩)
      · left
        have hto : opt.excludeTo = false := by simpa using hex
        cases start with
        | none => exact ⟨t, rfl, rfl⟩
        | some s =>
          refine ⟨(lowest_le_past s _).trans (past_lt_on.mpr (hlt s rfl t rfl)).le, ?_⟩
          intro t' ht'
          cases ht'
          rw [hto, if_neg Bool.false_ne_true]
      · cases hfalse
    intro hfull
    have hn := hnode hfull
    constructor
    · intro t' ht'
      cases ht'
      exact hn.bounded
    intro hto t' ht'
    cases ht'
    exact hn.onKey (by rw [hto]; rfl)

lemma addStart_spec (hready : Ready a nodes) (hval : Rateable val.ts) {start : Key}
    (hlt : ∀ t ∈ stop, start < t) (hbounded : Bounded val stop nodes {}) :
    let r := addNode a nodes start val (!opt.excludeFrom) true false
    Added val (RangeAt (some start) stop opt) a nodes r ∧
      (r.2.2 = false → NodeAdded val start (!opt.excludeFrom) true nodes r.2.1) := by
  obtain ⟨hadded, hnode⟩ :=
    @addNode_spec a nodes val start (!opt.excludeFrom) true hready hval false
  refine ⟨hadded.mono ?_, hnode⟩
  rintro p (⟨hex, rfl⟩ | ⟨-, hp, hfree⟩)
  · left
    have hfrom : opt.excludeFrom = false := by simpa using hex
    refine ⟨?_, .of_lt fun t ht => on_lt_on.mpr (hlt t ht)⟩
    rw [lowest, hfrom, if_neg Bool.false_ne_true]
  by_cases hin : ∀ t ∈ stop, p < on t
  · exact .inl ⟨(lowest_le_past start _).trans (past_le_iff.mpr hp), .of_lt hin⟩
  push Not at hin
  obtain ⟨t, ht, hle⟩ := hin
  refine .inr (hbounded.le_of_gap ht hle fun n hn => ?_)
  rcases le_or_gt n.key start with hns | hns
  · exact .inl (hns.trans_lt (hlt t ht))
  · exact .inr (hfree n hn hns)

lemma Around.split {c : Cursor} (h : Around nodes key c) : nodes = c.before.reverse ++ c.after ∧
    (∀ n ∈ c.before.reverse, n.key ≤ key) ∧ ∀ n ∈ c.after, key < n.key := by
  cases h with
  | absent hx hy heq =>
    refine ⟨by simpa using heq, fun n hn => ?_, hy⟩
    exact (hx n (by simpa using hn)).le
  | @present xs ys n hx hy hn heq =>
    refine ⟨by simpa using heq, fun m hm => ?_, hy⟩
    have hm : m ∈ xs ∨ m = n := by simpa using hm
    rcases hm with hm | rfl
    · exact (hx m hm).le
    · exact hn.le

lemma valueAt_after (hx : ∀ n ∈ xs, n.key ≤ key) (hp : on key < p) :
    valueAt (xs ++ ys) g p = valueAt ys (lastGap xs g) p :=
  valueAt_append_right fun n hn => (on_le_on.mpr (hx n hn)).trans_lt hp

lemma valueAt_before (hy : ∀ n ∈ ys, key < n.key) (hp : p ≤ on key) :
    valueAt (xs ++ ys) g p = valueAt xs g p :=
  valueAt_append_left fun n hn => hp.trans_lt (on_lt_on.mpr (hy n hn))

lemma Bounded.after (h : Bounded val stop (xs ++ ys) g) (hx : ∀ n ∈ xs, n.key ≤ key)
    (hlt : ∀ t ∈ stop, key < t) : Bounded val stop ys (lastGap xs g) := by
  intro t ht
  rcases h t ht with ⟨n, hn, rfl⟩ | h
  · rcases mem_append.mp hn with hn | hn
    · exact absurd (hlt _ ht) (hx n hn).not_gt
    · exact .inl ⟨n, hn, rfl⟩
  rw [valueAt_after hx (on_lt_on.mpr (hlt t ht))] at h
  exact .inr h

lemma Floored.added (hready : Ready a (xs ++ ys))
    (hx : ∀ n ∈ xs, n.key ≤ key) (hy : ∀ n ∈ ys, key < n.key)
    (h : Floored val key stop a ys (lastGap xs {}) r) :
    Added val (Between key stop) a (xs ++ ys) (r.1, xs ++ r.2.1, r.2.2) := by
  have hy' : ∀ n ∈ r.2.1, key < n.key := by
    intro n hn
    have hmem : n.key ∈ ys.map Node.key := h.keys ▸ mem_map_of_mem hn
    obtain ⟨m, hm, heq⟩ := mem_map.mp hmem
    exact heq ▸ hy m hm
  have hsorted : Sorted (xs ++ r.2.1) := by
    have hkeys : ((xs ++ ys).map Node.key).Pairwise (· < ·) := pairwise_map.mpr hready.sorted
    rw [map_append, ← h.keys, ← map_append] at hkeys
    exact pairwise_map.mp hkeys
  have hinit : AllInitialized (xs ++ r.2.1) :=
    forall_mem_append.mpr ⟨fun n hn => hready.init n (mem_append_left ys hn), h.init⟩
  have hgood : ∀ n ∈ xs ++ r.2.1, NodeGood r.1.maxTime n :=
    forall_mem_append.mpr
      ⟨fun n hn => (hready.good n (mem_append_left ys hn)).mono h.grows, h.good⟩
  refine ⟨h.grows, hsorted, quiet_of_allInitialized hinit, hgood,
    fun hfull => ⟨hsorted, hinit, hgood, h.notFull hfull⟩, fun p => ?_⟩
  rcases le_or_gt p (on key) with hp | hp
  · left
    exact (valueAt_before hy' hp).trans (valueAt_before hy hp).symm
  have hraised := h.raised p
  rw [← valueAt_after hx hp, ← valueAt_after hx hp] at hraised
  exact hraised

lemma addFloor_spec (hready : Ready a nodes) (hval : Rateable val.ts)
    (hlt : ∀ t ∈ stop, key < t) (hbounded : Bounded val stop nodes {}) :
    let c := seekForPrev nodes key
    let r := ensureFloorValue a stop val c.after
    Added val (Between key stop) a nodes (r.1, c.before.reverse ++ r.2.1, r.2.2) ∧
      (r.2.2 = false → ∀ p, (∃ n ∈ nodes, key < n.key ∧ on n.key ≤ p) → (∀ t ∈ stop, p < on t) →
        val ≤ valueAt (c.before.reverse ++ r.2.1) {} p) := by
  obtain ⟨heq, hx, hy⟩ := (around_seekForPrev hready.sorted key).split
  intro c r
  rw [heq] at hready hbounded ⊢
  have hafter : Ready a c.after :=
    ⟨(pairwise_append.mp hready.sorted).2.1,
      fun n hn => hready.init n (mem_append_right _ hn),
      fun n hn => hready.good n (mem_append_right _ hn), hready.notFull⟩
  have hfloor : Floored val key stop a c.after (lastGap c.before.reverse {}) r :=
    ensureFloorValue_spec hafter hval hy (hbounded.after hx hlt)
  refine ⟨hfloor.added hready hx hy, ?_⟩
  rintro hfull p ⟨n, hn, hkn, hnp⟩ hin
  rw [valueAt_after hx ((on_lt_on.mpr hkn).trans_le hnp)]
  refine hfloor.reached hfull p ⟨n, ?_, hnp⟩ hin
  rcases mem_append.mp hn with hn | hn
  · exact absurd hkn (hx n hn).not_gt
  · exact hn

lemma Between.rangeAt {start : Key} (h : Between start stop p) :
    RangeAt (some start) stop opt p :=
  ⟨(lowest_le_past start _).trans (past_le_iff.mpr h.1), .of_lt h.2⟩

lemma RangeAt.cases {start : Key} (h : RangeAt (some start) stop opt p) :
    (opt.excludeFrom = false ∧ p = on start) ∨ (on start < p ∧
      ((∀ t ∈ stop, p < on t) ∨ (opt.excludeTo = false ∧ ∃ t ∈ stop, p = on t))) := by
  obtain ⟨hlow, hup⟩ := h
  rcases (on_le_lowest start _).trans hlow |>.lt_or_eq with hgt | rfl
  · refine .inr ⟨hgt, ?_⟩
    by_cases hin : ∀ t ∈ stop, p < on t
    · exact .inl hin
    push Not at hin
    obtain ⟨t, ht, hle⟩ := hin
    have hpt := hup t ht
    cases hto : opt.excludeTo with
    | true =>
      rw [hto, if_pos rfl] at hpt
      exact absurd hle hpt.not_ge
    | false =>
      rw [hto, if_neg Bool.false_ne_true] at hpt
      exact .inr ⟨rfl, t, ht, hpt.antisymm hle⟩
  · cases hfrom : opt.excludeFrom with
    | true =>
      rw [hfrom, lowest, if_pos rfl] at hlow
      exact absurd (on_lt_past.mpr le_rfl) hlow.not_gt
    | false => exact .inl ⟨rfl, rfl⟩

/-- Adding a range raises exactly its positions, or some of them if the arena is full. -/
lemma addRangeNodes_spec (hready : Ready a nodes) (hval : Rateable val.ts)
    {start : Option Key} (hnone : start = none → opt.excludeTo = false)
    (hlt : ∀ s ∈ start, ∀ t ∈ stop, s < t) :
    let r := addRangeNodes a nodes start stop opt val
    Added val (RangeAt start stop opt) a nodes r ∧
      (r.2.2 = false → ∀ p, RangeAt start stop opt p → val ≤ valueAt r.2.1 {} p) := by
  obtain ⟨hadded1, hend⟩ := @addEndNode_spec a nodes val stop opt hready hval start hlt
  unfold addRangeNodes
  generalize addEndNode a nodes stop opt val = r₁ at hadded1 hend ⊢
  obtain ⟨a1, nodes1, full1⟩ := r₁
  cases full1 with
  | true => exact ⟨hadded1, nofun⟩
  | false =>
    obtain ⟨hbounded, hstop⟩ := hend rfl
    dsimp only
    rw [if_neg Bool.false_ne_true]
    cases start with
    | none =>
      refine ⟨hadded1, fun _ p hp => ?_⟩
      obtain ⟨t, ht, rfl⟩ := hp
      exact hstop (hnone rfl) t ht
    | some s =>
      have hlt' := hlt s rfl
      obtain ⟨hadded2, hnode⟩ := @addStart_spec a1 nodes1 val stop opt (hadded1.ready rfl)
        hval s hlt' hbounded
      dsimp only at hadded2 hnode ⊢
      generalize addNode a1 nodes1 s val (!opt.excludeFrom) true false = r₂ at hadded2 hnode ⊢
      obtain ⟨a2, nodes2, full2⟩ := r₂
      cases full2 with
      | true => exact ⟨hadded1.trans hadded2, nofun⟩
      | false =>
        have hn := hnode rfl
        have hle2 := hadded2.raised.le
        have hbounded2 : Bounded val stop nodes2 {} := fun t ht =>
          (hbounded t ht).imp (hn.keeps t) fun h => h.trans (hle2 (on t))
        obtain ⟨hadded3, hfloor⟩ := addFloor_spec (hadded2.ready rfl) hval hlt' hbounded2
        rw [if_neg Bool.false_ne_true]
        have hle3 := hadded3.raised.le
        refine ⟨(hadded1.trans hadded2).trans (hadded3.mono fun p hp => .inl hp.rangeAt), ?_⟩
        intro hfull p hp
        rcases hp.cases with ⟨hfrom, rfl⟩ | ⟨hgt, hin | ⟨hto, t, ht, rfl⟩⟩
        · exact (hn.onKey (by rw [hfrom]; rfl)).trans (hle3 _)
        · by_cases hex : ∃ n ∈ nodes2, s < n.key ∧ on n.key ≤ p
          · exact hfloor hfull p hex hin
          push Not at hex
          exact (hn.inGap rfl p ⟨hgt, hex⟩).trans (hle3 p)
        · exact ((hstop hto t ht).trans (hle2 _)).trans (hle3 _)

end MeshDB.Tscache
