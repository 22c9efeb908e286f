import MeshDB.Lib.Reachability
import MeshDB.Roachpb.MergeSpans
import MeshDB.Tscache.AddRange
import Mathlib.Order.Bounds.Basic

/-!
# What a lookup returns after a run

After any calls, with pages rotated and evicted in between, a lookup returns the join of the
floor and of all values added to a range that meets the range of the lookup.
-/
namespace MeshDB.Tscache

open Roachpb Hlc GapMap Transition List Option CacheValue IntervalSkl Timestamp

/-! ## Ranges -/

/-- A range as the cache is asked about it. -/
structure Interval where
  start : Option Key := none
  stop : Option Key := none
  opt : RangeOptions := {}
deriving DecidableEq

/-- Without a start, or if both keys are equal, it is one key, unless both ends are excluded. -/
def Interval.Contains (r : Interval) (p : Position Key) : Prop :=
  match r.start, r.stop with
  | none, none => False
  | some start, none => lowest start r.opt.excludeFrom ≤ p
  | none, some stop => p = on stop ∧ ¬ (r.opt.excludeFrom && r.opt.excludeTo)
  | some start, some stop =>
    if start = stop then p = on stop ∧ ¬ (r.opt.excludeFrom && r.opt.excludeTo)
    else lowest start r.opt.excludeFrom ≤ p ∧ UpTo (some stop) r.opt.excludeTo p

def Interval.Proper (r : Interval) : Prop := r.start ≠ none ∨ r.stop ≠ none

variable {r : Interval} {s s' : IntervalSkl} {pg : Page} {pages : List Page} {u v val : CacheValue}
  {start stop : Option Key} {opt : RangeOptions} {p : Position Key}

lemma not_inverted {start stop : Key} {excludeFrom excludeTo : Bool} (hlt : stop < start)
    (hlow : lowest start excludeFrom ≤ p) : ¬ UpTo (some stop) excludeTo p := by
  intro hup
  have hle : p ≤ on stop := hup.le_of_stop rfl
  have hge : on start ≤ p := (on_le_lowest start _).trans hlow
  exact absurd (on_le_on.mp (hge.trans hle)) hlt.not_ge

variable {rounds : List IntervalSkl.Round}

lemma addRange_cases
    (h : s.addRange rounds r.start r.stop r.opt val = some s') :
    (s' = s ∧ ∀ p, ¬ r.Contains p) ∨ ∃ start stop opt,
      addRangeLoop start stop opt val rounds s = some s' ∧
      (start = none → opt.excludeTo = false) ∧ (∀ s ∈ start, ∀ t ∈ stop, s < t) ∧
      ∀ p, RangeAt start stop opt p ↔ r.Contains p := by
  obtain ⟨start, stop, opt⟩ := r
  unfold IntervalSkl.addRange at h
  unfold Interval.Contains
  cases start with
  | none =>
    cases stop with
    | none => cases h
    | some stop =>
      dsimp only at h ⊢
      by_cases hboth : (opt.excludeFrom && opt.excludeTo)
      · rw [if_pos hboth] at h
        exact .inl ⟨(Option.some.inj h).symm, fun p hp => hp.2 hboth⟩
      rw [if_neg hboth] at h
      refine .inr ⟨_, _, _, h, fun _ => rfl, nofun, fun p => ?_⟩
      simp [RangeAt, hboth]
  | some start =>
    cases stop with
    | none =>
      refine .inr ⟨_, _, _, h, nofun, nofun, fun p => ?_⟩
      exact ⟨fun h => h.1, fun h => ⟨h, nofun⟩⟩
    | some stop =>
      dsimp only at h ⊢
      by_cases hinv : stop < start
      · rw [if_pos hinv] at h
        cases h
      rw [if_neg hinv] at h
      by_cases heq : start = stop
      · rw [if_pos heq] at h
        by_cases hboth : (opt.excludeFrom && opt.excludeTo)
        · rw [if_pos hboth] at h
          refine .inl ⟨(Option.some.inj h).symm, fun p hp => ?_⟩
          rw [if_pos heq] at hp
          exact hp.2 hboth
        rw [if_neg hboth] at h
        refine .inr ⟨_, _, _, h, fun _ => rfl, nofun, fun p => ?_⟩
        rw [if_pos heq]
        simp [RangeAt, hboth]
      rw [if_neg heq] at h
      refine .inr ⟨_, _, _, h, nofun, ?_, fun p => ?_⟩
      · rintro _ ⟨⟩ _ ⟨⟩
        exact lt_of_le_of_ne (not_lt.mp hinv) heq
      rw [if_neg heq]
      rfl

/-! ## Pages -/

structure PageOk (pg : Page) : Prop where
  sorted : Sorted pg.nodes
  quiet : Quiet pg.nodes
  good : ∀ n ∈ pg.nodes, NodeGood pg.maxTime n

lemma lookupFrom_spec {start : Key} (hok : PageOk pg) (full : List Bool)
    (hne : UpTo stop opt.excludeTo (lowest start opt.excludeFrom)) :
    (pg.lookupFrom full start stop opt).1 = pg ∧ ∀ u : CacheValue, {} ≤ u →
      ((pg.lookupFrom full start stop opt).2.2 ≤ u ↔
        ∀ p, lowest start opt.excludeFrom ≤ p → UpTo stop opt.excludeTo p →
          valueAt pg.nodes {} p ≤ u) := by
  obtain ⟨harena, hnodes, hmax⟩ := @maxInRange_spec (pg.arena full) stop pg.nodes start opt
    hok.sorted hok.quiet hne
  refine ⟨?_, hmax⟩
  unfold Page.lookupFrom
  dsimp only
  rw [harena, hnodes]
  rfl

lemma lookupKey_spec (hok : PageOk pg) (full : List Bool) (key : Key) (both : Bool) :
    let res := if both then (pg, full, {}) else pg.lookupFrom full key (some key) {}
    res.1 = pg ∧ ∀ u : CacheValue, {} ≤ u →
      (res.2.2 ≤ u ↔ ∀ p, p = on key ∧ ¬ both → valueAt pg.nodes {} p ≤ u) := by
  cases both with
  | true => exact ⟨rfl, fun u hu => ⟨fun _ p hp => absurd rfl hp.2, fun _ => hu⟩⟩
  | false => ?_
  have hne : UpTo (some key) ({} : RangeOptions).excludeTo
      (lowest key ({} : RangeOptions).excludeFrom) := by
    rintro _ ⟨⟩
    exact le_rfl
  obtain ⟨hpage, hval⟩ := @lookupFrom_spec pg (some key) {} key hok full hne
  refine ⟨hpage, fun u hu => (hval u hu).trans ⟨?_, fun h p hlow hup => ?_⟩⟩
  · rintro h _ ⟨rfl, -⟩
    exact h _ le_rfl hne
  · exact h p ⟨(hup.le_of_stop rfl).antisymm hlow, Bool.false_ne_true⟩

lemma pageLookup_spec (hok : PageOk pg) (full : List Bool) (r : Interval) :
    (pg.lookupTimestampRange full r.start r.stop r.opt).1 = pg ∧ ∀ u : CacheValue, {} ≤ u →
      ((pg.lookupTimestampRange full r.start r.stop r.opt).2.2 ≤ u ↔
        ∀ p, r.Contains p → valueAt pg.nodes {} p ≤ u) := by
  obtain ⟨start, stop, opt⟩ := r
  unfold Page.lookupTimestampRange Interval.Contains
  cases start with
  | none =>
    cases stop with
    | none => exact ⟨rfl, fun u hu => ⟨nofun, fun _ => hu⟩⟩
    | some stop => exact lookupKey_spec hok full stop _
  | some start =>
    cases stop with
    | none =>
      obtain ⟨hpage, hval⟩ := @lookupFrom_spec pg none opt start hok full nofun
      refine ⟨hpage, fun u hu => (hval u hu).trans ?_⟩
      exact ⟨fun h p hp => h p hp nofun, fun h p hp _ => h p hp⟩
    | some stop =>
      dsimp only
      by_cases hinv : stop < start
      · simp only [if_pos hinv, if_neg hinv.ne']
        refine ⟨trivial, fun u hu => ⟨fun _ p hp => ?_, fun _ => hu⟩⟩
        exact absurd hp.2 (not_inverted hinv hp.1)
      rw [if_neg hinv]
      by_cases heq : start = stop
      · simp only [if_pos heq]
        exact lookupKey_spec hok full stop _
      simp only [if_neg heq]
      have hlt : start < stop := lt_of_le_of_ne (not_lt.mp hinv) heq
      have hne : UpTo (some stop) opt.excludeTo (lowest start opt.excludeFrom) := by
        apply UpTo.of_lt
        rintro _ ⟨⟩
        exact (lowest_le_past start _).trans_lt (past_lt_on.mpr hlt)
      obtain ⟨hpage, hval⟩ := lookupFrom_spec hok full hne
      refine ⟨hpage, fun u hu => (hval u hu).trans ?_⟩
      exact ⟨fun h p hp => h p hp.1 hp.2, fun h p hlow hup => h p ⟨hlow, hup⟩⟩

lemma valueAt_le {t : Int} {ns : List Node} (h : ∀ n ∈ ns, NodeGood t n) (hmax : pageMax t ≤ u)
    {g : CacheValue} (hg : g ≤ u) (p : Position Key) : valueAt ns g p ≤ u := by
  induction ns generalizing g with
  | nil => exact hg
  | cons n ns ih =>
    obtain ⟨hkey, hgap⟩ := h n (.head _)
    have hat : ∀ w : CacheValue, Good t w → (if n.state = .initialized then w else w ⊔ g) ≤ u := by
      intro w hw
      split_ifs
      · exact hw.le.trans hmax
      · exact sup_le (hw.le.trans hmax) hg
    rcases lt_trichotomy p (on n.key) with hp | rfl | hp
    · rw [valueAt_cons_lt hp]
      exact hg
    · rw [valueAt_cons_on]
      exact hat _ hkey
    rw [valueAt_cons_gt hp]
    exact ih (fun m hm => h m (.tail n hm)) (hat _ hgap)

/-- Pages from the newest on: the maximum time of a page is one for all older pages, too. -/
structure PagesOk (pages : List Page) : Prop where
  page : ∀ pg ∈ pages, PageOk pg
  maxTimes : pages.Pairwise fun pg older => older.maxTime ≤ pg.maxTime

lemma PagesOk.sublist {pages' : List Page} (h : PagesOk pages) (hsub : pages'.Sublist pages) :
    PagesOk pages' :=
  ⟨fun pg hpg => h.page pg (hsub.subset hpg), h.maxTimes.sublist hsub⟩

lemma PagesOk.maxTime_le (h : PagesOk (pg :: pages)) :
    ∀ older ∈ pg :: pages, older.maxTime ≤ pg.maxTime :=
  forall_mem_cons.mpr ⟨le_rfl, (pairwise_cons.mp h.maxTimes).1⟩

lemma lookupPages_spec (hok : PagesOk pages) (full : List Bool) (r : Interval) (hval : {} ≤ val) :
    (lookupPages r.start r.stop r.opt full pages val).1 = pages ∧
      ∀ u, (lookupPages r.start r.stop r.opt full pages val).2 ≤ u ↔
        val ≤ u ∧ ∀ pg ∈ pages, ∀ p, r.Contains p → valueAt pg.nodes {} p ≤ u := by
  induction pages generalizing full val with
  | nil => exact ⟨rfl, fun u => by simp [lookupPages]⟩
  | cons pg pages ih =>
    unfold lookupPages
    by_cases hearly : pg.getMaxTimestamp.less val.ts
    · rw [if_pos hearly]
      refine ⟨rfl, fun u => ⟨fun hu => ⟨hu, fun pg' hpg' p _ => ?_⟩, fun h => h.1⟩⟩
      have hmax : pageMax pg.maxTime ≤ val :=
        le_of_ord_lt (less_iff.mp hearly)
      have hle := (pageMax_mono (hok.maxTime_le pg' hpg')).trans hmax
      exact (valueAt_le (hok.page pg' hpg').good hle hval p).trans hu
    rw [if_neg hearly]
    obtain ⟨hpage, hlookup⟩ := pageLookup_spec (hok.page pg (.head _)) full r
    generalize pg.lookupTimestampRange full r.start r.stop r.opt = res at hpage hlookup ⊢
    obtain ⟨pg', full', val2⟩ := res
    dsimp only at hpage hlookup ⊢
    obtain ⟨hpages, hrest⟩ := @ih (ratchetValue val val2).1
      (hok.sublist (sublist_cons_self pg pages)) full'
      (hval.trans (le_sup_left : val ≤ val ⊔ val2))
    refine ⟨by rw [hpage, hpages], fun u => ?_⟩
    rw [hrest u, ← sup_eq_ratchetValue, sup_le_iff, forall_mem_cons, and_assoc]
    constructor
    · rintro ⟨hu, h2, h⟩
      exact ⟨hu, (hlookup u (hval.trans hu)).mp h2, h⟩
    rintro ⟨hu, h2, h⟩
    exact ⟨hu, (hlookup u (hval.trans hu)).mpr h2, h⟩

/-! ## Runs -/

def floorVal (s : IntervalSkl) : CacheValue := ⟨s.floorTS, noTxnID⟩

def baseVal (s : IntervalSkl) : CacheValue := {} ⊔ floorVal s

/-- What every cache in a run keeps. -/
structure SklOk (s : IntervalSkl) : Prop where
  pages : PagesOk s.pages
  front : ∃ fp older, s.pages = fp :: older ∧ AllInitialized fp.nodes ∧ fp.isFull = false

structure Entry where
  range : Interval
  val : CacheValue
deriving DecidableEq

/-- Every value that was added to a position is there, or the floor is above it. -/
def Retained (adds : List Entry) (s : IntervalSkl) : Prop :=
  ∀ e ∈ adds, ∀ p, e.range.Contains p →
    e.val ≤ baseVal s ∨ ∃ pg ∈ s.pages, e.val ≤ valueAt pg.nodes {} p

/-- A position holds nothing but values that were added to it. -/
def Precise (adds : List Entry) (s : IntervalSkl) : Prop :=
  ∀ pg ∈ s.pages, ∀ p u, {} ≤ u → (∀ e ∈ adds, e.range.Contains p → e.val ≤ u) →
    valueAt pg.nodes {} p ≤ u

/-- What is known of the cache after the given ranges were added. -/
structure Inv (adds : List Entry) (s : IntervalSkl) : Prop where
  ok : SklOk s
  retained : Retained adds s
  precise : Precise adds s

variable {adds : List Entry} {e : Entry}

/-! ### Rotation -/

lemma evict_spec (minPages : ℕ) (minTS floor : Timestamp) (pages : List Page) :
    ∃ gone, pages = gone ++ (IntervalSkl.evict minPages minTS floor pages).2 ∧
      (⟨floor, noTxnID⟩ : CacheValue) ≤
        ⟨(IntervalSkl.evict minPages minTS floor pages).1, noTxnID⟩ ∧
      ∀ pg ∈ gone, pageMax pg.maxTime ≤
        ⟨(IntervalSkl.evict minPages minTS floor pages).1, noTxnID⟩ := by
  induction pages generalizing floor with
  | nil => exact ⟨[], rfl, le_rfl, nofun⟩
  | cons bp pages ih =>
    unfold IntervalSkl.evict
    split_ifs
    · exact ⟨[], rfl, le_rfl, nofun⟩
    · exact ⟨[], rfl, le_rfl, nofun⟩
    obtain ⟨gone, heq, hfloor, hgone⟩ := ih (floor.forward bp.getMaxTimestamp)
    rw [forward_eq_sup, sup_le_iff] at hfloor
    exact ⟨bp :: gone, congrArg _ heq, hfloor.1, forall_mem_cons.mpr ⟨hfloor.2, hgone⟩⟩

lemma rotatePages_spec {fp : Page} {older : List Page} (hpages : s.pages = fp :: older)
    (hok : PagesOk s.pages) (hret : Retained adds s)
    (hprec : Precise (e :: adds) s) (minTS : Timestamp) :
    SklOk (s.rotatePages fp minTS) ∧ Retained adds (s.rotatePages fp minTS) ∧
      Precise (e :: adds) (s.rotatePages fp minTS) ∧
      floorVal s ≤ floorVal (s.rotatePages fp minTS) := by
  obtain ⟨gone, heq, hfloor, hgone⟩ := evict_spec s.minPages minTS s.floorTS s.pages.reverse
  unfold rotatePages
  generalize IntervalSkl.evict s.minPages minTS s.floorTS s.pages.reverse = res
    at heq hfloor hgone ⊢
  obtain ⟨floor, kept⟩ := res
  have hsplit : s.pages = kept.reverse ++ gone.reverse := by
    rw [← reverse_append, ← heq, reverse_reverse]
  have hkept : kept.reverse.Sublist s.pages := by
    rw [hsplit]
    exact sublist_append_left _ _
  have hbase : baseVal s ≤ {} ⊔ ⟨floor, noTxnID⟩ := sup_le_sup_left hfloor {}
  have hempty : PageOk { maxTime := fp.maxTime } := ⟨.nil, nofun, nofun⟩
  refine ⟨⟨⟨?_, ?_⟩, ⟨_, _, rfl, nofun, rfl⟩⟩, ?_, ?_, hfloor⟩
  · exact forall_mem_cons.mpr ⟨hempty, fun pg hpg => hok.page pg (hkept.subset hpg)⟩
  · refine pairwise_cons.mpr ⟨fun pg hpg => ?_, hok.maxTimes.sublist hkept⟩
    rw [hpages] at hok hkept
    exact hok.maxTime_le pg (hkept.subset hpg)
  · intro e he p hp
    rcases hret e he p hp with hle | ⟨pg, hpg, hle⟩
    · exact .inl (hle.trans hbase)
    rw [hsplit] at hpg
    rcases mem_append.mp hpg with hpg' | hgone'
    · exact .inr ⟨pg, mem_cons_of_mem _ hpg', hle⟩
    left
    have hgood := (hok.page pg (hsplit ▸ hpg)).good
    have hmax := (hgone pg (mem_reverse.mp hgone')).trans
      (le_sup_right : _ ≤ ({} : CacheValue) ⊔ ⟨floor, noTxnID⟩)
    exact hle.trans (valueAt_le hgood hmax le_sup_left p)
  · exact forall_mem_cons.mpr ⟨fun p u hu _ => hu, fun pg hpg => hprec pg (hkept.subset hpg)⟩

/-! ### Additions -/

lemma Retained.cons (h : Retained adds s) (he : ∀ p, e.range.Contains p →
    e.val ≤ baseVal s ∨ ∃ pg ∈ s.pages, e.val ≤ valueAt pg.nodes {} p) : Retained (e :: adds) s :=
  forall_mem_cons.mpr ⟨he, h⟩

lemma Precise.cons (h : Precise adds s) (e : Entry) : Precise (e :: adds) s := by
  intro pg hpg p u hu hle
  exact h pg hpg p u hu fun e' he' => hle e' (.tail e he')

/-- The front page after an attempt to add a range, which may have filled it. -/
structure Attempted (e : Entry) (fp fp' : Page) (filled : Bool) : Prop where
  grows : fp.maxTime ≤ fp'.maxTime
  ok : PageOk fp'
  ready : filled = false → AllInitialized fp'.nodes ∧ fp'.isFull = false
  raised : Raised e.val e.range.Contains (valueAt fp.nodes {}) (valueAt fp'.nodes {})
  reached : filled = false → ∀ p, e.range.Contains p → e.val ≤ valueAt fp'.nodes {} p

lemma pageAdd_spec {fp : Page} (hok : PageOk fp) (hinit : AllInitialized fp.nodes)
    (hfull : fp.isFull = false) (full : List Bool) (hval : Rateable e.val.ts)
    (hnone : start = none → opt.excludeTo = false) (hlt : ∀ s ∈ start, ∀ t ∈ stop, s < t)
    (hrange : ∀ p, RangeAt start stop opt p ↔ e.range.Contains p) :
    Attempted e fp (fp.addRange full start stop opt e.val).1
      (fp.addRange full start stop opt e.val).2 := by
  have hready : Ready (fp.arena full) fp.nodes := ⟨hok.sorted, hinit, hok.good, hfull⟩
  obtain ⟨hadded, hreached⟩ := addRangeNodes_spec hready hval hnone hlt
  exact ⟨hadded.grows, ⟨hadded.sorted, hadded.quiet, hadded.good⟩,
    fun h => ⟨(hadded.ready h).init, (hadded.ready h).notFull⟩,
    hadded.raised.mono fun p hp => .inl ((hrange p).mp hp),
    fun h p hp => hreached h p ((hrange p).mpr hp)⟩

lemma Attempted.newFront {fp fp' : Page} {older : List Page} {filled : Bool}
    (h : Attempted e fp fp' filled) (hpages : s.pages = fp :: older) (hok : PagesOk s.pages)
    (hret : Retained adds s) (hprec : Precise (e :: adds) s) :
    PagesOk (fp' :: older) ∧ Retained adds { s with pages := fp' :: older } ∧
      Precise (e :: adds) { s with pages := fp' :: older } := by
  rw [hpages] at hok
  refine ⟨⟨?_, ?_⟩, ?_, ?_⟩
  · exact forall_mem_cons.mpr ⟨h.ok, fun pg hpg => hok.page pg (.tail fp hpg)⟩
  · obtain ⟨hfp, holder⟩ := pairwise_cons.mp hok.maxTimes
    exact pairwise_cons.mpr ⟨fun pg hpg => (hfp pg hpg).trans h.grows, holder⟩
  · intro e' he' p hp
    refine (hret e' he' p hp).imp_right ?_
    rintro ⟨pg, hpg, hle⟩
    rw [hpages] at hpg
    rcases mem_cons.mp hpg with rfl | hpg
    · exact ⟨fp', .head _, hle.trans (h.raised.le p)⟩
    · exact ⟨pg, mem_cons_of_mem fp' hpg, hle⟩
  intro pg hpg p u hu hle
  rcases mem_cons.mp hpg with rfl | hpg
  · have hold : valueAt fp.nodes {} p ≤ u :=
      hprec fp (hpages ▸ mem_cons_self) p u hu hle
    rcases h.raised p with heq | ⟨hp, heq⟩
    · rwa [heq]
    rw [heq]
    exact sup_le hold (hle e (.head _) hp)
  · exact hprec pg (hpages ▸ mem_cons_of_mem fp hpg) p u hu hle

lemma addRangeLoop_spec (hval : Rateable e.val.ts)
    (hnone : start = none → opt.excludeTo = false) (hlt : ∀ s ∈ start, ∀ t ∈ stop, s < t)
    (hrange : ∀ p, RangeAt start stop opt p ↔ e.range.Contains p) (hok : SklOk s)
    (hret : Retained adds s) (hprec : Precise (e :: adds) s)
    (h : addRangeLoop start stop opt e.val rounds s = some s') :
    Inv (e :: adds) s' ∧ floorVal s ≤ floorVal s' := by
  induction rounds generalizing s with
  | nil => cases h
  | cons r rounds ih =>
    obtain ⟨fp, older, hpages, hinit, hfull⟩ := hok.front
    unfold addRangeLoop at h
    rw [hpages] at h
    dsimp only at h
    by_cases hfloor : e.val.ts.less s.floorTS
    · rw [if_pos hfloor] at h
      cases h
      have hle : e.val ≤ floorVal s' := le_of_ord_lt (less_iff.mp hfloor)
      exact ⟨⟨hok, hret.cons fun p _ => .inl (hle.trans le_sup_right), hprec⟩, le_rfl⟩
    rw [if_neg hfloor] at h
    have hfp : PageOk fp := hok.pages.page fp (hpages ▸ mem_cons_self)
    have hattempt := @pageAdd_spec start stop opt e fp hfp hinit hfull r.full hval hnone hlt
      hrange
    generalize fp.addRange r.full start stop opt e.val = res at hattempt h
    obtain ⟨fp', filled⟩ := res
    obtain ⟨hpages', hret', hprec'⟩ := hattempt.newFront hpages hok.pages hret hprec
    cases filled with
    | true =>
      rw [if_pos rfl] at h
      obtain ⟨hok2, hret2, hprec2, hfloor2⟩ := @rotatePages_spec
        { s with pages := fp' :: older } adds e fp' older rfl hpages' hret' hprec'
        r.minTSToRetain
      obtain ⟨hinv, hfloor3⟩ := ih hok2 hret2 hprec2 h
      exact ⟨hinv, hfloor2.trans hfloor3⟩
    | false =>
      rw [if_neg Bool.false_ne_true] at h
      cases h
      obtain ⟨hinit', hfull'⟩ := hattempt.ready rfl
      refine ⟨⟨⟨hpages', ⟨fp', older, rfl, hinit', hfull'⟩⟩, ?_, hprec'⟩, le_rfl⟩
      exact hret'.cons fun p hp =>
        .inr ⟨fp', .head _, hattempt.reached rfl p hp⟩

lemma Inv.addRange (h : Inv adds s) (hval : Rateable e.val.ts)
    (hadd : s.addRange rounds e.range.start e.range.stop e.range.opt e.val = some s') :
    Inv (e :: adds) s' ∧ floorVal s ≤ floorVal s' := by
  rcases addRange_cases hadd with ⟨rfl, hempty⟩ | ⟨start, stop, opt, hloop, hnone, hlt, hrange⟩
  · exact ⟨⟨h.ok, h.retained.cons fun p hp => absurd hp (hempty p), h.precise.cons e⟩, le_rfl⟩
  · exact addRangeLoop_spec hval hnone hlt hrange h.ok h.retained (h.precise.cons e) hloop

/-! ### Lookups -/

/-- Two ranges have a key in common, or the gap right past a key. -/
def Interval.Meets (r r' : Interval) : Prop := ∃ p, r.Contains p ∧ r'.Contains p

/-- The values added over the interval. -/
def overlapping (adds : List Entry) (r : Interval) : Set CacheValue :=
  { w | ∃ e ∈ adds, e.range.Meets r ∧ e.val = w }

lemma Inv.lookup (h : Inv adds s) (hr : r.Proper) (full : List Bool) :
    ∃ v, s.lookupTimestampRange full r.start r.stop r.opt = some (s, v) ∧
      IsLUB (insert (baseVal s) (overlapping adds r)) v := by
  obtain ⟨hpages, hlookup⟩ := @lookupPages_spec s.pages {} h.ok.pages full r le_rfl
  refine ⟨(ratchetValue (lookupPages r.start r.stop r.opt full s.pages {}).2
    ⟨s.floorTS, noTxnID⟩).1, ?_, ?_⟩
  · unfold lookupTimestampRange
    split
    · rename_i hstart hstop
      exact absurd hr (by simp [Interval.Proper, hstart, hstop])
    dsimp only
    rw [hpages]
  rw [← sup_eq_ratchetValue, isLUB_iff_le_iff]
  intro u
  rw [sup_le_iff, hlookup, upperBounds_insert, Set.mem_inter_iff, Set.mem_Ici, baseVal,
    floorVal, sup_le_iff]
  constructor
  · rintro ⟨⟨hzero, hu⟩, hfloor⟩
    refine ⟨⟨hzero, hfloor⟩, ?_⟩
    rintro w ⟨e, he, ⟨p, hep, hrp⟩, rfl⟩
    rcases h.retained e he p hep with hle | ⟨pg, hpg, hle⟩
    · exact hle.trans (sup_le hzero hfloor)
    · exact hle.trans (hu pg hpg p hrp)
  rintro ⟨⟨hzero, hfloor⟩, hu⟩
  refine ⟨⟨hzero, fun pg hpg p hrp => ?_⟩, hfloor⟩
  exact h.precise pg hpg p u hzero fun e he hep => hu ⟨e, he, ⟨p, hep, hrp⟩, rfl⟩

/-! ### The calls -/

structure State where
  skl : IntervalSkl := {}
  adds : List Entry := []

inductive Call
  | addRange (e : Entry) (rounds : List IntervalSkl.Round)
  | lookup (r : Interval) (full : List Bool)

def step (s : State) : Call → Option State
  | .addRange e rounds =>
    (s.skl.addRange rounds e.range.start e.range.stop e.range.opt e.val).map fun skl =>
      ⟨skl, e :: s.adds⟩
  | .lookup r full =>
    (s.skl.lookupTimestampRange full r.start r.stop r.opt).map fun res => { s with skl := res.1 }

/-- The wall times added are non-negative and far enough from the largest integer. -/
def Legal (_ : State) : Call → Prop
  | .addRange e _ => Rateable e.val.ts
  | .lookup _ _ => True

def newCache (lowWater : Timestamp) : State := { skl := { floorTS := lowWater } }

variable {σ σ' : State} {lowWater : Timestamp}

lemma inv_newCache (lowWater : Timestamp) :
    Inv (newCache lowWater).adds (newCache lowWater).skl := by
  refine ⟨⟨⟨?_, pairwise_singleton _ _⟩, ⟨_, _, rfl, nofun, rfl⟩⟩, nofun, ?_⟩
  · intro pg hpg
    cases mem_singleton.mp hpg
    exact ⟨.nil, nofun, nofun⟩
  intro pg hpg p u hu _
  cases mem_singleton.mp hpg
  exact hu

lemma Inv.call {c : Call} (h : Inv σ.adds σ.skl) (hlegal : Legal σ c)
    (hstep : step σ c = some σ') :
    Inv σ'.adds σ'.skl ∧ floorVal σ.skl ≤ floorVal σ'.skl ∧ σ.adds ⊆ σ'.adds := by
  cases c with
  | addRange e rounds =>
    obtain ⟨skl, hadd, rfl⟩ := map_eq_some_iff.mp hstep
    obtain ⟨hinv, hfloor⟩ := h.addRange hlegal hadd
    exact ⟨hinv, hfloor, subset_cons_self e σ.adds⟩
  | lookup r full =>
    obtain ⟨⟨skl, v⟩, hlookup, rfl⟩ := map_eq_some_iff.mp hstep
    have hr : r.Proper := by
      by_contra hr
      have hnone : r.start = none ∧ r.stop = none := by simpa [Interval.Proper] using hr
      rw [hnone.1, hnone.2] at hlookup
      cases hlookup
    obtain ⟨v', hlookup', -⟩ := h.lookup hr full
    rw [hlookup'] at hlookup
    cases hlookup
    exact ⟨h, le_rfl, List.Subset.refl _⟩

lemma Inv.run (h : Inv σ.adds σ.skl) (hreach : Reachable step Legal σ σ') :
    Inv σ'.adds σ'.skl ∧ floorVal σ.skl ≤ floorVal σ'.skl ∧ σ.adds ⊆ σ'.adds := by
  refine hreach.invariant (P := fun σ' => Inv σ'.adds σ'.skl ∧
    floorVal σ.skl ≤ floorVal σ'.skl ∧ σ.adds ⊆ σ'.adds) ⟨h, le_rfl, List.Subset.refl _⟩ ?_
  rintro s c s' - ⟨hinv, hfloor, hadds⟩ hlegal hstep
  obtain ⟨hinv', hfloor', hadds'⟩ := hinv.call hlegal hstep
  exact ⟨hinv', hfloor.trans hfloor', List.Subset.trans hadds hadds'⟩

lemma inv_of_reachable (h : Reachable step Legal (newCache lowWater) σ) : Inv σ.adds σ.skl :=
  ((inv_newCache lowWater).run h).1

/-- A lookup returns no smaller timestamp than an earlier addition to one of its keys, and never
less than before. -/
theorem lookup_never_loses_read {r : Interval} (h : Reachable step Legal (newCache lowWater) σ)
    (hlater : Reachable step Legal σ σ') (hr : r.Proper) (full full' : List Bool) :
    ∃ v v', σ.skl.lookupTimestampRange full r.start r.stop r.opt = some (σ.skl, v) ∧
      σ'.skl.lookupTimestampRange full' r.start r.stop r.opt = some (σ'.skl, v') ∧
      (∀ e ∈ σ.adds, ∀ k, e.range.Contains (on k) → r.Contains (on k) →
        e.val.ts.lessEq v.ts = true) ∧
      v.ts.lessEq v'.ts = true := by
  have hinv := inv_of_reachable h
  obtain ⟨hinv', hfloor, hadds⟩ := hinv.run hlater
  obtain ⟨v, hv, hlub⟩ := hinv.lookup hr full
  obtain ⟨v', hv', hlub'⟩ := hinv'.lookup hr full'
  refine ⟨v, v', hv, hv', ?_, ?_⟩
  · intro e he k hek hrk
    have hle : e.val ≤ v := hlub.1 (.inr ⟨e, he, ⟨on k, hek, hrk⟩, rfl⟩)
    exact lessEq_iff.mpr (ord_le_of_le hle)
  have hle : v ≤ v' := by
    apply hlub.2
    rintro w (rfl | ⟨e, he, hmeets, rfl⟩)
    · exact (sup_le_sup_left hfloor {}).trans (hlub'.1 (.inl rfl))
    · exact hlub'.1 (.inr ⟨e, hadds he, hmeets, rfl⟩)
  exact lessEq_iff.mpr (ord_le_of_le hle)

def readOneToThree : Entry := ⟨⟨some [1], some [3], {}⟩, ⟨{ wallTime := 10 }, 7⟩⟩

def readFive : Entry := ⟨⟨none, some [5], {}⟩, ⟨{ wallTime := 20 }, 8⟩⟩

lemma twoReads_reachable :
    ∃ σ, Reachable step Legal (newCache {}) σ ∧ σ.skl.pages.length = 2 := by
  obtain ⟨σ, h, hlen⟩ := @exists_reachable_of_run _ _ step Legal (newCache {})
    [.addRange readOneToThree [{}], .addRange readFive [{ full := [true] }, {}]]
    (by
      intro _ c hc
      simp only [mem_cons, not_mem_nil, or_false] at hc
      rcases hc with rfl | rfl
      · exact ⟨by decide, by decide⟩
      · exact ⟨by decide, by decide⟩)
    (fun σ => σ.skl.pages.length == 2) (by decide)
  exact ⟨σ, h, by simpa using hlen⟩

theorem lookup_never_loses_read_rotated :
    ∃ σ, Reachable step Legal (newCache {}) σ ∧ σ.skl.pages.length = 2 ∧
      ∃ v v', σ.skl.lookupTimestampRange [] none (some [2]) {} = some (σ.skl, v) ∧
        σ.skl.lookupTimestampRange [] none (some [2]) {} = some (σ.skl, v') ∧
        (∀ e ∈ σ.adds, ∀ k, e.range.Contains (on k) →
          (⟨none, some [2], {}⟩ : Interval).Contains (on k) → e.val.ts.lessEq v.ts = true) ∧
        v.ts.lessEq v'.ts = true := by
  obtain ⟨σ, h, hlen⟩ := twoReads_reachable
  have hr : (⟨none, some [2], {}⟩ : Interval).Proper := .inr (some_ne_none _)
  exact ⟨σ, h, hlen, lookup_never_loses_read h .init hr [] []⟩

/-- A lookup returns exactly the join of the floor and the values of the ranges that it meets. -/
theorem lookup_exact {r : Interval} (hlow : {} ≤ (⟨lowWater, noTxnID⟩ : CacheValue))
    (h : Reachable step Legal (newCache lowWater) σ) (hr : r.Proper) (full : List Bool) :
    ∃ v, σ.skl.lookupTimestampRange full r.start r.stop r.opt = some (σ.skl, v) ∧
      IsLUB (insert ⟨σ.skl.floorTS, noTxnID⟩ (overlapping σ.adds r)) v ∧
      (v.txnID ≠ noTxnID → ∀ w ∈ overlapping σ.adds r, w.ts.ord = v.ts.ord →
        w.txnID = v.txnID) := by
  obtain ⟨hinv, hfloor, -⟩ := (inv_newCache lowWater).run h
  obtain ⟨v, hv, hlub⟩ := hinv.lookup hr full
  have hbase : baseVal σ.skl = ⟨σ.skl.floorTS, noTxnID⟩ := sup_eq_right.mpr (hlow.trans hfloor)
  rw [hbase] at hlub
  refine ⟨v, hv, hlub, fun hne w hw hts => ?_⟩
  rcases hlub.1 (.inr hw) with hlt | ⟨-, -, heq | heq⟩
  · exact absurd hts hlt.ne
  · exact heq.symm
  · exact absurd heq hne

theorem lookup_exact_rotated :
    ∃ σ, Reachable step Legal (newCache {}) σ ∧ σ.skl.pages.length = 2 ∧
      ∃ v, σ.skl.lookupTimestampRange [] none (some [2]) {} = some (σ.skl, v) ∧
        IsLUB (insert ⟨σ.skl.floorTS, noTxnID⟩ (overlapping σ.adds ⟨none, some [2], {}⟩)) v ∧
        (v.txnID ≠ noTxnID → ∀ w ∈ overlapping σ.adds ⟨none, some [2], {}⟩, w.ts.ord = v.ts.ord →
          w.txnID = v.txnID) := by
  obtain ⟨σ, h, hlen⟩ := twoReads_reachable
  have hr : (⟨none, some [2], {}⟩ : Interval).Proper := .inr (some_ne_none _)
  exact ⟨σ, h, hlen, lookup_exact le_rfl h hr []⟩

def readAfterOne : Entry := ⟨⟨some [1], some [2], { excludeFrom := true }⟩, ⟨{ wallTime := 10 }, 7⟩⟩

def onlyOne : Interval := ⟨some [1], some [1, 0], { excludeTo := true }⟩

/-- A lookup before the next key finds a read that begins right past the key. -/
theorem lookup_counts_gap :
    ((step (newCache {}) (.addRange readAfterOne [{}])).bind fun σ =>
      σ.skl.lookupTimestampRange [] onlyOne.start onlyOne.stop onlyOne.opt).map Prod.snd =
        some readAfterOne.val ∧
      ¬ ∃ k, readAfterOne.range.Contains (on k) ∧ onlyOne.Contains (on k) := by
  refine ⟨by decide, ?_⟩
  rintro ⟨k, ⟨hafter, -⟩, ⟨-, hbefore⟩⟩
  have hlt : ([1] : Key) < k := on_lt_on.mp (past_le_iff.mp hafter)
  have hle : k ≤ [1] := Key.le_of_lt_next (on_lt_on.mp (hbefore _ rfl))
  exact absurd hlt hle.not_gt

end MeshDB.Tscache
