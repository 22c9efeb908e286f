import MeshDB.Tscache.IntervalSkl

/-!
# Scans compute joins

A scan over the nodes of a page returns the join of the values at all positions of its range,
and leaves the page as it is.
-/
namespace MeshDB.Tscache

open Roachpb Hlc GapMap List
variable {a : Arena} {n : Node} {ns before after : List Node} {g m u : CacheValue}
  {stop : Option Key} {excludeTo skipKey : Bool} {key t : Key}

def Quiet (ns : List Node) : Prop := ∀ n ∈ ns, n.state ≠ .initializing

lemma Quiet.tail (h : Quiet (n :: ns)) : Quiet ns := fun m hm => h m (.tail n hm)

lemma ratchetValueSet_key (a : Arena) (n : Node) (onlyIfUninitialized : Bool)
    (keyVal gapVal : CacheValue) (setInit : Bool) :
    (ratchetValueSet a n onlyIfUninitialized keyVal gapVal setInit).2.1.key = n.key := by
  unfold ratchetValueSet
  dsimp only
  split_ifs <;> rfl

lemma ratchetValueSet_of_quiet (h : n.state ≠ .initializing) (keyVal gapVal : CacheValue)
    (setInit : Bool) : ratchetValueSet a n true keyVal gapVal setInit =
      (a, n, decide (n.state ≠ .initialized)) := by
  unfold ratchetValueSet
  cases hs : n.state with
  | initializing => exact absurd hs h
  | initialized => simp
  | cantInit => simp

lemma ratchet_of_scan (n : Node) (v g : CacheValue) :
    (if decide (n.state ≠ .initialized) then (ratchetValue v g).1 else v) =
      if n.state = .initialized then v else v ⊔ g := by
  by_cases h : n.state = .initialized
  · simp [h]
  simp only [h, ne_eq, not_false_eq_true, decide_true, if_true, if_false]
  rfl

def PastEnd (stop : Option Key) (excludeTo : Bool) (k : Key) : Prop :=
  ∃ t ∈ stop, t < k ∨ k = t ∧ excludeTo

lemma pastEnd_iff : (stop.any fun t => decide (t < key) || (decide (key = t) && excludeTo))
    ↔ PastEnd stop excludeTo key := by
  cases stop <;> simp [PastEnd]

lemma scanLoop_stop (h : PastEnd stop excludeTo n.key) :
    scanLoop stop excludeTo skipKey a before (n :: ns) g m = ⟨a, ⟨before, n :: ns⟩, g, m⟩ := by
  rw [scanLoop, if_pos (pastEnd_iff.mpr h)]

def withKey (skipKey : Bool) (m keyVal : CacheValue) : CacheValue :=
  if skipKey then m else m ⊔ keyVal

lemma scanLoop_last (h : ¬ PastEnd stop excludeTo n.key) (hq : n.state ≠ .initializing)
    (hstop : stop = some n.key) :
    scanLoop stop excludeTo skipKey a before (n :: ns) g m =
      ⟨a, ⟨before, n :: ns⟩, g, withKey skipKey m (n.keyAt g)⟩ := by
  rw [scanLoop, if_neg (by rw [pastEnd_iff]; exact h)]
  simp only [ratchetValueSet_of_quiet hq, ratchet_of_scan, if_pos hstop]
  rfl

lemma scanLoop_next (h : ¬ PastEnd stop excludeTo n.key) (hq : n.state ≠ .initializing)
    (hstop : stop ≠ some n.key) :
    scanLoop stop excludeTo skipKey a before (n :: ns) g m =
      scanLoop stop excludeTo false a (n :: before) ns (n.gapAt g)
        (withKey skipKey m (n.keyAt g) ⊔ n.gapAt g) := by
  rw [scanLoop, if_neg (by rw [pastEnd_iff]; exact h)]
  simp only [ratchetValueSet_of_quiet hq, ratchet_of_scan, if_neg hstop]
  rfl

lemma not_pastEnd_of_lt (h : ∀ t ∈ stop, key < t) :
    ¬ PastEnd stop excludeTo key ∧ stop ≠ some key := by
  constructor
  · rintro ⟨t, ht, hlt | ⟨rfl, -⟩⟩
    · exact absurd (h t ht) hlt.not_gt
    · exact absurd (h _ ht) (lt_irrefl _)
  rintro rfl
  exact absurd (h key rfl) (lt_irrefl _)

lemma scanLoop_pass {passed : List Node} (hq : Quiet passed)
    (hlt : ∀ n ∈ passed, ∀ t ∈ stop, n.key < t) :
    ∃ m' skip', scanLoop stop excludeTo skipKey a before (passed ++ after) g m =
      scanLoop stop excludeTo skip' a (passed.reverse ++ before) after (lastGap passed g) m' := by
  induction passed generalizing before g m skipKey with
  | nil => exact ⟨m, skipKey, rfl⟩
  | cons n passed ih =>
    obtain ⟨hend, hstop⟩ := @not_pastEnd_of_lt stop excludeTo n.key (hlt n (.head _))
    rw [cons_append, scanLoop_next hend (hq n (.head _)) hstop]
    obtain ⟨m', skip', heq⟩ := @ih (n :: before) (n.gapAt g) _ false hq.tail
      (fun m hm => hlt m (.tail n hm))
    refine ⟨m', skip', heq.trans ?_⟩
    simp [lastGap]

lemma scanLoop_nodes (hq : Quiet ns) :
    (scanLoop stop excludeTo skipKey a before ns g m).arena = a ∧
    (scanLoop stop excludeTo skipKey a before ns g m).cursor.nodes = before.reverse ++ ns := by
  induction ns generalizing before g m skipKey with
  | nil => exact ⟨rfl, rfl⟩
  | cons n ns ih =>
    by_cases hend : PastEnd stop excludeTo n.key
    · rw [scanLoop_stop hend]
      exact ⟨rfl, rfl⟩
    by_cases hstop : stop = some n.key
    · rw [scanLoop_last hend (hq n (.head _)) hstop]
      exact ⟨rfl, rfl⟩
    rw [scanLoop_next hend (hq n (.head _)) hstop]
    obtain ⟨harena, hnodes⟩ := @ih (n :: before) (n.gapAt g)
      (withKey skipKey m (n.keyAt g) ⊔ n.gapAt g) false hq.tail
    refine ⟨harena, hnodes.trans ?_⟩
    rw [reverse_cons, append_assoc]
    rfl

/-! ## The maximum of a scan -/

def UpTo (stop : Option Key) (excludeTo : Bool) (p : Position Key) : Prop :=
  ∀ t ∈ stop, if excludeTo then p < on t else p ≤ on t

variable {p : Position Key}

lemma UpTo.lt_of_pastEnd (h : UpTo stop excludeTo p)
    (hend : PastEnd stop excludeTo key) : p < on key := by
  obtain ⟨t, ht, hend⟩ := hend
  have hp := h t ht
  rcases hend with hlt | ⟨rfl, hex⟩
  · split_ifs at hp
    · exact hp.trans (on_lt_on.mpr hlt)
    · exact hp.trans_lt (on_lt_on.mpr hlt)
  rw [if_pos hex] at hp
  exact hp

lemma UpTo.of_lt (h : ∀ t ∈ stop, p < on t) : UpTo stop excludeTo p := by
  intro t ht
  split_ifs
  · exact h t ht
  · exact (h t ht).le

lemma upTo_last (h : ¬ PastEnd stop excludeTo key) (hstop : stop = some key) :
    UpTo stop excludeTo (on key) := by
  intro t ht
  rw [hstop] at ht
  cases ht
  have hex : ¬ excludeTo := fun hex => h ⟨key, hstop, .inr ⟨rfl, hex⟩⟩
  rw [if_neg hex]

lemma UpTo.le_of_stop (h : UpTo stop excludeTo p) (hstop : stop = some key) :
    p ≤ on key := by
  have hp := h key hstop
  split_ifs at hp
  · exact hp.le
  · exact hp

lemma lt_stop_of_not_pastEnd (h : ¬ PastEnd stop excludeTo key) (hstop : stop ≠ some key) :
    ∀ t ∈ stop, key < t := by
  intro t ht
  rcases lt_trichotomy key t with hlt | rfl | hgt
  · exact hlt
  · exact absurd ht hstop
  · exact absurd ⟨t, ht, .inl hgt⟩ h

lemma withKey_le_iff {keyVal : CacheValue} :
    withKey skipKey m keyVal ≤ u ↔ m ≤ u ∧ (skipKey = false → keyVal ≤ u) := by
  cases skipKey <;> simp [withKey]

/-- The maximum of a scan is the join of the initial value and those from there to the end. -/
lemma scanLoop_maxVal (hq : Quiet ns) (hsorted : Sorted ns) (hgm : g ≤ m) {lo : Position Key}
    (hpast : ∀ n ∈ ns, lo ≤ past n.key) (hon : skipKey = false → ∀ n ∈ ns, lo ≤ on n.key)
    (hskip : skipKey → ∀ n ∈ ns.head?, on n.key < lo) :
    (scanLoop stop excludeTo skipKey a before ns g m).maxVal ≤ u ↔
      m ≤ u ∧ ∀ p, lo ≤ p → UpTo stop excludeTo p → valueAt ns g p ≤ u := by
  induction ns generalizing before g m skipKey with
  | nil =>
    refine ⟨fun h => ⟨h, fun p _ _ => hgm.trans h⟩, fun h => h.1⟩
  | cons n ns ih =>
    have hqn := hq n (.head _)
    have hlo := hpast n (.head _)
    by_cases hend : PastEnd stop excludeTo n.key
    · rw [scanLoop_stop hend]
      refine ⟨fun h => ⟨h, fun p _ hp => ?_⟩, fun h => h.1⟩
      rw [valueAt_cons_lt (hp.lt_of_pastEnd hend)]
      exact hgm.trans h
    have hkey : ∀ p, lo ≤ p → p = on n.key → skipKey = false := by
      intro p hp heq
      cases hs : skipKey with
      | false => rfl
      | true =>
        subst heq
        exact absurd hp (hskip hs n rfl).not_ge
    by_cases hstop : stop = some n.key
    · rw [scanLoop_last hend hqn hstop, withKey_le_iff]
      constructor
      · rintro ⟨hm, hk⟩
        refine ⟨hm, fun p hp hup => ?_⟩
        rcases (hup.le_of_stop hstop).lt_or_eq with hlt | heq
        · rw [valueAt_cons_lt hlt]
          exact hgm.trans hm
        subst heq
        rw [valueAt_cons_on]
        exact hk (hkey _ hp rfl)
      rintro ⟨hm, hall⟩
      refine ⟨hm, fun hs => ?_⟩
      have := hall (on n.key) (hon hs n (.head _)) (upTo_last hend hstop)
      rwa [valueAt_cons_on] at this
    have hlt := lt_stop_of_not_pastEnd hend hstop
    have hgap : ∀ p, p ≤ past n.key → valueAt ns (n.gapAt g) p = n.gapAt g := by
      intro p hp
      exact valueAt_of_lt fun m hm => hp.trans_lt (past_lt_on.mpr (hsorted.key_lt m hm))
    rw [scanLoop_next hend hqn hstop,
      ih hq.tail hsorted.tail le_sup_right (fun m hm => hpast m (.tail n hm))
        (fun _ m hm => hlo.trans (past_lt_on.mpr (hsorted.key_lt m hm)).le)
        (fun h => absurd h Bool.false_ne_true),
      sup_le_iff, withKey_le_iff]
    constructor
    · rintro ⟨⟨⟨hm, hk⟩, hg⟩, hall⟩
      refine ⟨hm, fun p hp hup => ?_⟩
      rcases lt_trichotomy p (on n.key) with hlt' | heq | hgt
      · rw [valueAt_cons_lt hlt']
        exact hgm.trans hm
      · subst heq
        rw [valueAt_cons_on]
        exact hk (hkey _ hp rfl)
      · rw [valueAt_cons_gt hgt]
        exact hall p hp hup
    rintro ⟨hm, hall⟩
    have hg : n.gapAt g ≤ u := by
      have := hall (past n.key) hlo (.of_lt fun t ht => past_lt_on.mpr (hlt t ht))
      rwa [valueAt_cons_gt (on_lt_past.mpr le_rfl), hgap _ le_rfl] at this
    refine ⟨⟨⟨hm, fun hs => ?_⟩, hg⟩, fun p hp hup => ?_⟩
    · have := hall (on n.key) (hon hs n (.head _))
        (.of_lt fun t ht => on_lt_on.mpr (hlt t ht))
      rwa [valueAt_cons_on] at this
    rcases le_or_gt p (on n.key) with hle | hgt
    · rw [hgap p (hle.trans (on_lt_past.mpr le_rfl).le)]
      exact hg
    have := hall p hp hup
    rwa [valueAt_cons_gt hgt] at this

/-! ## The gap value before a key -/

lemma lastGap_append (xs ys : List Node) (g : CacheValue) :
    lastGap (xs ++ ys) g = lastGap ys (lastGap xs g) := foldl_append

/-- The walk back stops at the start or an initialized node, without changing the gap value. -/
lemma prevInitNode_spec (back ahead : List Node) :
    ∃ back' walked, prevInitNode back ahead = ⟨back', walked ++ ahead⟩ ∧
      back.reverse = back'.reverse ++ walked ∧
      (back' = [] ∨ ∃ n ∈ walked.head?, n.state = .initialized) := by
  induction back generalizing ahead with
  | nil => exact ⟨[], [], rfl, rfl, .inl rfl⟩
  | cons n back ih =>
    unfold prevInitNode
    by_cases h : n.state = .initialized
    · rw [if_pos h]
      exact ⟨back, [n], rfl, reverse_cons, .inr ⟨n, rfl, h⟩⟩
    rw [if_neg h]
    obtain ⟨back', walked, heq, hrev, hinit⟩ := ih (n :: ahead)
    refine ⟨back', walked ++ [n], ?_, ?_, ?_⟩
    · rw [heq, append_assoc]
      rfl
    · rw [reverse_cons, hrev, append_assoc]
    rcases hinit with h | ⟨m, hm, h⟩
    · exact .inl h
    right
    refine ⟨m, ?_, h⟩
    cases walked with
    | nil => cases hm
    | cons w walked => exact hm

lemma lastGap_of_head {walked : List Node} (h : ∃ n ∈ walked.head?, n.state = .initialized)
    (g g' : CacheValue) : lastGap walked g = lastGap walked g' := by
  obtain ⟨n, hn, hinit⟩ := h
  cases walked with
  | nil => cases hn
  | cons w walked =>
    cases hn
    simp [lastGap, Node.gapAt_of_initialized hinit]

lemma scan_walked {back ahead : List Node} (hq : Quiet back) (hback : ∀ n ∈ back, n.key < key) :
    ∃ m' skip', scanTo a (prevInitNode back ahead) (some key) {} {} =
      scanLoop (some key) false skip' a back ahead (lastGap back.reverse {}) m' := by
  obtain ⟨back', walked, heq, hrev, hinit⟩ := prevInitNode_spec back ahead
  have hmem : ∀ n ∈ walked, n ∈ back := by
    intro n hn
    rw [← mem_reverse, hrev]
    exact mem_append_right _ hn
  have hback' : walked.reverse ++ back' = back := by
    rw [← reverse_reverse back, hrev, reverse_append, reverse_reverse]
  have hgap : lastGap walked {} = lastGap back.reverse {} := by
    rw [hrev, lastGap_append]
    rcases hinit with rfl | hinit
    · rfl
    · exact lastGap_of_head hinit _ _
  obtain ⟨m', skip', hscan⟩ := @scanLoop_pass a back' ahead {} {} (some key) false false walked
    (fun n hn => hq n (hmem n hn)) (fun n hn t ht => by cases ht; exact hback n (hmem n hn))
  refine ⟨m', skip', ?_⟩
  rw [heq, scanTo, hscan, hback', hgap]

lemma incomingGapVal_of_lt {back ahead : List Node} (hq : Quiet back)
    (hback : ∀ n ∈ back, n.key < key) (hahead : ∀ n ∈ ahead, key < n.key) :
    ∃ m', incomingGapVal a ⟨back, ahead⟩ key = ⟨a, ⟨back, ahead⟩, lastGap back.reverse {}, m'⟩ := by
  obtain ⟨m', skip', hscan⟩ := @scan_walked a key back ahead hq hback
  refine ⟨m', hscan.trans ?_⟩
  cases ahead with
  | nil => rfl
  | cons n ahead => exact scanLoop_stop ⟨key, rfl, .inl (hahead n (.head _))⟩

lemma incomingGapVal_of_initialized {back ahead : List Node} (hn : n.key = key)
    (hinit : n.state = .initialized) :
    ∃ m', incomingGapVal a ⟨n :: back, ahead⟩ key = ⟨a, ⟨back, n :: ahead⟩, {}, m'⟩ := by
  refine ⟨withKey false {} (n.keyAt {}), ?_⟩
  unfold incomingGapVal scanTo prevInitNode
  rw [if_pos hinit]
  apply scanLoop_last
  · rintro ⟨t, ht, hlt | ⟨-, hex⟩⟩
    · cases ht
      exact absurd hlt (hn ▸ lt_irrefl _)
    · cases hex
  · rw [hinit]
    exact nofun
  · rw [hn]

lemma incomingGapVal_of_not_initialized {back ahead : List Node} (hq : Quiet back)
    (hback : ∀ m ∈ back, m.key < key) (hn : n.key = key) (hinit : n.state ≠ .initialized) :
    ∃ m', incomingGapVal a ⟨n :: back, ahead⟩ key =
      let g := lastGap back.reverse {}
      let r := ratchetValueSet a n true g g false
      ⟨r.1, ⟨back, r.2.1 :: ahead⟩, g, m'⟩ := by
  obtain ⟨m', skip', hscan⟩ := @scan_walked a key back (n :: ahead) hq hback
  unfold incomingGapVal prevInitNode
  rw [if_neg hinit]
  rw [hscan, scanLoop, if_neg (by simp [hn])]
  dsimp only
  rw [ratchetValueSet_key, if_pos (congrArg some hn.symm)]
  exact ⟨_, rfl⟩

/-! ## Lookups on a page -/

inductive Around (nodes : List Node) (key : Key) : Cursor → Prop
  | absent {xs ys : List Node} (hx : ∀ n ∈ xs, n.key < key) (hy : ∀ n ∈ ys, key < n.key)
      (heq : nodes = xs ++ ys) : Around nodes key ⟨xs.reverse, ys⟩
  | present {xs ys : List Node} {n : Node} (hx : ∀ n ∈ xs, n.key < key)
      (hy : ∀ n ∈ ys, key < n.key) (hn : n.key = key) (heq : nodes = xs ++ n :: ys) :
      Around nodes key ⟨n :: xs.reverse, ys⟩

lemma around_seekForPrev {nodes : List Node} (h : Sorted nodes) (key : Key) :
    Around nodes key (seekForPrev nodes key) := by
  induction nodes with
  | nil => exact @Around.absent [] key [] [] (by simp) (by simp) rfl
  | cons n nodes ih =>
    unfold seekForPrev
    by_cases hle : n.key ≤ key
    · rw [takeWhile_cons_of_pos (by simpa using hle),
        dropWhile_cons_of_pos (by simpa using hle), reverse_cons]
      rcases hle.lt_or_eq with hlt | heq
      · have hih := ih h.tail
        unfold seekForPrev at hih
        generalize (nodes.takeWhile fun n => decide (n.key ≤ key)).reverse = back at hih
        generalize nodes.dropWhile (fun n => decide (n.key ≤ key)) = ahead at hih
        cases hih with
        | absent hx hy heq =>
          rw [← reverse_cons, heq]
          exact .absent (forall_mem_cons.mpr ⟨hlt, hx⟩) hy rfl
        | @present xs ys m hx hy hm heq =>
          rw [cons_append, ← reverse_cons, heq]
          exact .present (forall_mem_cons.mpr ⟨hlt, hx⟩) hy hm rfl
      have hnone : nodes.takeWhile (fun n => decide (n.key ≤ key)) = [] := by
        cases nodes with
        | nil => rfl
        | cons m nodes =>
          have := h.key_lt m (.head _)
          rw [takeWhile_cons_of_neg]
          rw [decide_eq_true_eq, not_le, ← heq]
          exact this
      have hdrop : nodes.dropWhile (fun n => decide (n.key ≤ key)) = nodes := by
        have := takeWhile_append_dropWhile (p := fun n : Node => decide (n.key ≤ key))
          (l := nodes)
        rwa [hnone] at this
      rw [hnone, hdrop]
      exact @Around.present _ key [] nodes n (by simp) (fun m hm => heq ▸ h.key_lt m hm) heq rfl
    · rw [takeWhile_cons_of_neg (by simpa using hle), dropWhile_cons_of_neg (by simpa using hle)]
      refine @Around.absent _ key [] (n :: nodes) (by simp) ?_ rfl
      exact fun m hm => (not_le.mp hle).trans_le (h.key_le m hm)

def lowest (start : Key) (excludeFrom : Bool) : Position Key :=
  if excludeFrom then past start else on start

lemma on_le_lowest (start : Key) (excludeFrom : Bool) : on start ≤ lowest start excludeFrom := by
  unfold lowest
  split_ifs
  · exact (on_lt_past.mpr le_rfl).le
  · exact le_rfl

lemma lowest_le_past (start : Key) (excludeFrom : Bool) :
    lowest start excludeFrom ≤ past start := by
  unfold lowest
  split_ifs
  · exact le_rfl
  · exact (on_lt_past.mpr le_rfl).le

variable {nodes : List Node} {start : Key} {opt : RangeOptions}

/-- The join over a range, for nodes from the start on with the gap value before them. -/
def RangeJoin (after : List Node) (g : CacheValue) (start : Key) (stop : Option Key)
    (opt : RangeOptions) (u : CacheValue) : Prop :=
  ∀ p, lowest start opt.excludeFrom ≤ p → UpTo stop opt.excludeTo p → valueAt after g p ≤ u

variable {ys : List Node}

lemma rangeJoin_append {xs : List Node} (hx : ∀ n ∈ xs, n.key < start) :
    RangeJoin (xs ++ ys) g start stop opt u ↔ RangeJoin ys (lastGap xs g) start stop opt u := by
  refine forall_congr' fun p => imp_congr_right fun hp => ?_
  rw [valueAt_append_right fun n hn =>
    (on_lt_on.mpr (hx n hn)).trans_le ((on_le_lowest start _).trans hp)]

lemma scanTo_present (hq : Quiet (n :: ys)) (hsorted : Sorted (n :: ys))
    (hn : n.key = start) (back : List Node) (g : CacheValue) :
    (scanTo a ⟨back, n :: ys⟩ stop opt g).maxVal ≤ u ↔
      g ≤ u ∧ RangeJoin (n :: ys) g start stop opt u := by
  apply scanLoop_maxVal hq hsorted le_rfl
  · intro m hm
    apply (lowest_le_past start _).trans
    rw [past_le_past, ← hn]
    exact hsorted.key_le m hm
  · intro hs m hm
    rw [lowest, hs, if_neg Bool.false_ne_true, on_le_on, ← hn]
    exact hsorted.key_le m hm
  · intro hs m hm
    cases hm
    rw [lowest, hs, if_pos rfl, on_lt_past, hn]

lemma scanTo_absent (hq : Quiet ys) (hsorted : Sorted ys)
    (hy : ∀ n ∈ ys, start < n.key) (back : List Node) (g : CacheValue) :
    (scanTo a ⟨back, ys⟩ stop { opt with excludeFrom := false } g).maxVal ≤ u ↔
      g ≤ u ∧ RangeJoin ys g start stop opt u := by
  have hlo : ∀ n ∈ ys, lowest start opt.excludeFrom ≤ on n.key := fun n hn =>
    (lowest_le_past start _).trans (past_lt_on.mpr (hy n hn)).le
  apply scanLoop_maxVal hq hsorted le_rfl
  · exact fun n hn => (hlo n hn).trans (on_lt_past.mpr le_rfl).le
  · exact fun _ n hn => hlo n hn
  · exact fun h => absurd h Bool.false_ne_true

/-- A lookup returns the join of the values at the positions of its range, and changes no
node. -/
lemma maxInRange_spec (hsorted : Sorted nodes) (hq : Quiet nodes)
    (hne : UpTo stop opt.excludeTo (lowest start opt.excludeFrom)) :
    (maxInRange a (seekForPrev nodes start) start stop opt).arena = a ∧
    (maxInRange a (seekForPrev nodes start) start stop opt).cursor.nodes = nodes ∧
    ∀ u : CacheValue, {} ≤ u →
      ((maxInRange a (seekForPrev nodes start) start stop opt).maxVal ≤ u ↔
        RangeJoin nodes {} start stop opt u) := by
  have haround := around_seekForPrev hsorted start
  generalize seekForPrev nodes start = c at haround ⊢
  cases haround with
  | @absent xs ys hx hy heq =>
    subst heq
    have hqy : Quiet ys := fun n hn => hq n (mem_append_right _ hn)
    have hqx : Quiet xs.reverse := fun n hn => hq n (mem_append_left _ (mem_reverse.mp hn))
    obtain ⟨m', hin⟩ := @incomingGapVal_of_lt a start xs.reverse ys hqx
      (fun n hn => hx n (mem_reverse.mp hn)) hy
    rw [reverse_reverse] at hin
    have hlow : lastGap xs {} ≤ valueAt ys (lastGap xs {}) (lowest start opt.excludeFrom) := by
      rw [valueAt_of_lt fun n hn =>
        (lowest_le_past start _).trans_lt (past_lt_on.mpr (hy n hn))]
    unfold maxInRange
    rw [hin]
    cases ys with
    | nil =>
      refine ⟨rfl, ?_, fun u _ => ?_⟩
      · simp [Cursor.nodes]
      rw [rangeJoin_append hx]
      exact ⟨fun h p _ _ => h, fun h => hlow.trans (h _ le_rfl hne)⟩
    | cons n ys =>
      have hkey : n.key ≠ start := (hy n (.head _)).ne'
      dsimp only
      rw [if_neg hkey]
      obtain ⟨harena, hnodes⟩ := @scanLoop_nodes a (n :: ys) xs.reverse (lastGap xs {})
        (lastGap xs {}) stop opt.excludeTo false hqy
      refine ⟨harena, ?_, fun u _ => ?_⟩
      · rw [scanTo, hnodes, reverse_reverse]
      rw [rangeJoin_append hx, scanTo_absent hqy (pairwise_append.mp hsorted).2.1 hy]
      exact ⟨fun h => h.2, fun h => ⟨hlow.trans (h _ le_rfl hne), h⟩⟩
  | @present xs ys n hx hy hn heq =>
    subst heq
    have hqy : Quiet (n :: ys) := fun m hm => hq m (mem_append_right _ hm)
    have hsy : Sorted (n :: ys) := (pairwise_append.mp hsorted).2.1
    have hqx : Quiet xs.reverse := fun n hn => hq n (mem_append_left _ (mem_reverse.mp hn))
    have hscan : ∀ g, (scanTo a ⟨xs.reverse, n :: ys⟩ stop opt g).arena = a ∧
        (scanTo a ⟨xs.reverse, n :: ys⟩ stop opt g).cursor.nodes = xs ++ n :: ys := by
      intro g
      obtain ⟨harena, hnodes⟩ := @scanLoop_nodes a (n :: ys) xs.reverse g g stop
        opt.excludeTo opt.excludeFrom hqy
      exact ⟨harena, hnodes.trans (by rw [reverse_reverse])⟩
    by_cases hinit : n.state = .initialized
    · obtain ⟨m', hin⟩ := @incomingGapVal_of_initialized a n start xs.reverse ys hn hinit
      unfold maxInRange
      rw [hin]
      dsimp only
      rw [if_pos hn, if_pos hinit]
      refine ⟨(hscan _).1, (hscan _).2, fun u hu => ?_⟩
      rw [rangeJoin_append hx, scanTo_present hqy hsy hn]
      have hcongr : RangeJoin (n :: ys) {} start stop opt u ↔
          RangeJoin (n :: ys) (lastGap xs {}) start stop opt u := by
        refine forall_congr' fun p => imp_congr_right fun hp => ?_
        rw [valueAt_gap_congr hinit (hn ▸ (on_le_lowest start _).trans hp)]
      rw [hcongr]
      exact ⟨fun h => h.2, fun h => ⟨hu, h⟩⟩
    obtain ⟨m', hin⟩ := @incomingGapVal_of_not_initialized a n start xs.reverse ys hqx
      (fun m hm => hx m (mem_reverse.mp hm)) hn hinit
    dsimp only at hin
    rw [ratchetValueSet_of_quiet (hqy n (.head _)), reverse_reverse] at hin
    unfold maxInRange
    rw [hin]
    dsimp only
    rw [if_pos hn, if_neg hinit]
    refine ⟨(hscan _).1, (hscan _).2, fun u hu => ?_⟩
    rw [rangeJoin_append hx, scanTo_present hqy hsy hn]
    have hlow : lastGap xs {} ≤
        valueAt (n :: ys) (lastGap xs {}) (lowest start opt.excludeFrom) := by
      unfold lowest
      split_ifs
      · rw [← hn, valueAt_cons_gt (on_lt_past.mpr le_rfl),
          valueAt_of_lt fun m hm => past_lt_on.mpr (hsy.key_lt m hm), Node.gapAt, if_neg hinit]
        exact le_sup_right
      rw [← hn, valueAt_cons_on, Node.keyAt, if_neg hinit]
      exact le_sup_right
    exact ⟨fun h => h.2, fun h => ⟨hlow.trans (h _ le_rfl hne), h⟩⟩

end MeshDB.Tscache
