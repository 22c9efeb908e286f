import MeshDB.Tscache.TreeImpl

/-!
# The values in the interval tree

Without eviction, a key has the join of all values that were added for it.
-/
namespace MeshDB.Tscache.TreeImpl

open Roachpb Hlc Timestamp List CacheValue

def Range.Has (r : Range) (k : Key) : Prop := r.start ≤ k ∧ k < r.stop

def Range.Disjoint (p q : Range) : Prop := ∀ k, p.Has k → ¬ q.Has k

instance (r : Range) (k : Key) : Decidable (r.Has k) := inferInstanceAs (Decidable (_ ∧ _))

/-- The loop of `Add` over the overlapping entries; `none` is a panic. -/
def addLoop (ts : Timestamp) : List Entry → Range → TxnID → List Entry → Option (List Entry)
  | [], r, txnID, cache => if r.start < r.stop then some (⟨r, ts, txnID⟩ :: cache) else none
  | e :: es, r, txnID, cache =>
    match addRound ⟨ts, txnID⟩ r e with
    | none => none
    | some (pieces, none) => some (pieces ++ cache.filter (· ≠ e))
    | some (pieces, some (r, txnID)) => addLoop ts es r txnID (pieces ++ cache.filter (· ≠ e))

/-- An inverted range is to be added. -/
def Addition.Inverted (a : Addition) (lowWater : Timestamp) : Prop :=
  lowWater.less a.ts ∧ ¬ a.range.start < a.range.stop

def add (tc : TreeImpl) (a : Addition) : Option TreeImpl :=
  let tc := { tc with latest := tc.latest.forward a.ts }
  if tc.lowWater.less a.ts then
    (addLoop a.ts (getOverlaps tc.cache a.range) a.range a.txnID tc.cache).map
      fun cache => { tc with cache := cache }
  else some tc

lemma addLoop_rounds (tc : TreeImpl) {ts : Timestamp} {es cache cache' : List Entry} {r : Range}
    {txnID : TxnID} (h : addLoop ts es r txnID cache = some cache') :
    ∃ n, Transition.run Locked.step ⟨{ tc with cache := cache }, some (es, r, ⟨ts, txnID⟩)⟩
      (List.replicate n .round) = some ⟨{ tc with cache := cache' }, none⟩ := by
  induction es generalizing r txnID cache with
  | nil =>
    obtain ⟨hr, hcache⟩ := Option.ite_none_right_eq_some.mp h
    cases hcache
    exact ⟨1, by rw [replicate_one, Transition.run_cons, Locked.step, if_pos hr]; rfl⟩
  | cons e es ih =>
    unfold addLoop at h
    split at h
    · cases h
    · rename_i pieces hround
      cases h
      exact ⟨1, by rw [replicate_one, Transition.run_cons, Locked.step, hround]; rfl⟩
    · rename_i pieces r' txn' hround
      obtain ⟨n, hn⟩ := ih h
      refine ⟨n + 1, ?_⟩
      rw [replicate_succ, Transition.run_cons, Locked.step, hround]
      exact hn

/-- An `Add` without eviction is a run of the steps under the lock. -/
lemma add_rounds {tc tc' : TreeImpl} {a : Addition} (h : tc.add a = some tc') :
    ∃ n, Transition.run Locked.step ⟨tc, none⟩ (.add a :: List.replicate n .round) =
      some ⟨tc', none⟩ := by
  unfold add at h
  dsimp only at h
  simp only [Transition.run_cons, Locked.step, Option.bind_some]
  split_ifs at h with hless
  · obtain ⟨cache, hloop, rfl⟩ := Option.map_eq_some_iff.mp h
    rw [if_pos hless]
    exact addLoop_rounds { tc with latest := tc.latest.forward a.ts } hloop
  · cases h
    exact ⟨0, by rw [if_neg hless]; rfl⟩

/-- The values that are stored for a key. -/
def valuesAt (cache : List Entry) (k : Key) : List CacheValue :=
  (cache.filter fun e => e.Has k).map Entry.value

def storedAt (tc : TreeImpl) (k : Key) : CacheValue :=
  (valuesAt tc.cache k).headD ⟨tc.lowWater, noTxnID⟩

/-- The join of the low water mark and the later values that were added for a key. -/
def joinAt (lowWater : Timestamp) (adds : List Addition) (k : Key) : CacheValue :=
  ((adds.filter fun a => a.range.Has k ∧ lowWater.less a.ts).map Addition.value).foldl (· ⊔ ·)
    ⟨lowWater, noTxnID⟩

/-! ## Values up to the synthetic flag -/

def Same (a b : CacheValue) : Prop := a.ts.ord = b.ts.ord ∧ a.txnID = b.txnID

variable {a b c v w : CacheValue}

lemma Same.refl (a : CacheValue) : Same a a := ⟨rfl, rfl⟩

lemma Same.symm (h : Same a b) : Same b a := ⟨h.1.symm, h.2.symm⟩

lemma Same.trans (h : Same a b) (h' : Same b c) : Same a c :=
  ⟨h.1.trans h'.1, h.2.trans h'.2⟩

lemma sup_of_lt (h : a.ts.ord < b.ts.ord) : a ⊔ b = b :=
  sup_eq_right.mpr (le_of_ord_lt h)

lemma sup_of_gt (h : b.ts.ord < a.ts.ord) : a ⊔ b = a :=
  sup_eq_left.mpr (le_of_ord_lt h)

lemma same_sup_of_eq (h : a.ts.ord = b.ts.ord) :
    Same (a ⊔ b) ⟨b.ts, if a.txnID = b.txnID then a.txnID else noTxnID⟩ :=
  ⟨(ratchetValue_of_eq h).1, (ratchetValue_of_eq h).2.2⟩

lemma Same.sup (h : Same a b) (v : CacheValue) : Same (a ⊔ v) (b ⊔ v) := by
  rcases lt_trichotomy a.ts.ord v.ts.ord with hlt | heq | hlt
  · rw [sup_of_lt hlt, sup_of_lt (h.1 ▸ hlt)]
    exact .refl v
  · have h1 := same_sup_of_eq heq
    have h2 := same_sup_of_eq (h.1 ▸ heq)
    rw [h.2] at h1
    exact h1.trans h2.symm
  · rw [sup_of_gt hlt, sup_of_gt (h.1 ▸ hlt)]
    exact h

/-! ## One round -/

/-- What is left to be added for a key. -/
def leftAt (ts : Timestamp) : Option (Range × TxnID) → Key → Option CacheValue
  | some (r, txnID), k => if r.Has k then some ⟨ts, txnID⟩ else none
  | none, _ => none

/-- What a round comes to: for a key of the entry or the new range there is the join, in a piece or
left to be added, and past the entry all is left. -/
structure RoundOk (w : CacheValue) (r : Range) (e : Entry) (round : Round) : Prop where
  nonempty : ∀ p ∈ round.1, p.start < p.stop
  left_nonempty : ∀ n ∈ round.2, n.1.start < n.1.stop
  outside : ∀ k, ¬ e.Has k → ¬ r.Has k → valuesAt round.1 k = [] ∧ leftAt w.ts round.2 k = none
  past : ∀ k, e.stop ≤ k → k < r.stop → leftAt w.ts round.2 k = some ⟨w.ts, w.txnID⟩
  join : ∀ k, e.Has k ∨ r.Has k →
    ∃ v, valuesAt round.1 k ++ (leftAt w.ts round.2 k).toList = [v] ∧
      Same (if e.Has k then if r.Has k then e.value ⊔ w else e.value else w) v

section
variable {r : Range} {e : Entry} (he : e.start < e.stop) (hlt : e.start < r.stop)
  (hlt' : r.start < e.stop)
include he hlt hlt'

lemma addOverNewer_ok (hts : w.ts.ord < e.value.ts.ord) :
    ∃ round, addOverNewer w r e = some round ∧ RoundOk w r e round := by
  have hsup := sup_of_gt hts
  unfold addOverNewer
  split_ifs
  case neg => grind
  all_goals
    refine ⟨_, rfl, ?_⟩
    constructor <;> simp [valuesAt, leftAt, Range.Has, filter_cons, Same] <;> grind

variable (hr : r.start < r.stop)
include hr

lemma addOverOlder_ok (hts : e.value.ts.ord < w.ts.ord) :
    ∃ round, addOverOlder w r e = some round ∧ RoundOk w r e round := by
  have hsup := sup_of_lt hts
  unfold addOverOlder
  split_ifs
  case neg => grind
  all_goals
    refine ⟨_, rfl, ?_⟩
    constructor <;> simp [valuesAt, leftAt, Range.Has, filter_cons, Same] <;> grind

lemma addOverSame_ok (hts : e.value.ts.ord = w.ts.ord) (htxn : e.value.txnID = w.txnID) :
    ∃ round, addOverSame w r e = some round ∧ RoundOk w r e round := by
  obtain ⟨hsup, hsup'⟩ := same_sup_of_eq hts
  unfold addOverSame
  split_ifs
  case neg => grind
  all_goals
    refine ⟨_, rfl, ?_⟩
    constructor <;> simp [valuesAt, leftAt, Range.Has, filter_cons, Same] <;> grind

omit he in
lemma addOverOtherPart_ok (hts : e.value.ts.ord = w.ts.ord) (htxn : e.value.txnID ≠ w.txnID)
    (hpart : ¬ (r.start ≤ e.start ∧ e.stop ≤ r.stop)) :
    ∃ round, addOverOtherPart w r e = some round ∧ RoundOk w r e round := by
  obtain ⟨hsup, hsup'⟩ := same_sup_of_eq hts
  rw [if_neg htxn] at hsup'
  unfold addOverOtherPart
  split_ifs
  case neg => grind
  all_goals
    refine ⟨_, rfl, ?_⟩
    constructor <;> simp [valuesAt, leftAt, Range.Has, filter_cons, Same] <;> grind

lemma addOverOther_ok (hts : e.value.ts.ord = w.ts.ord) (htxn : e.value.txnID ≠ w.txnID) :
    ∃ round, addOverOther w r e = some round ∧ RoundOk w r e round := by
  obtain ⟨hsup, hsup'⟩ := same_sup_of_eq hts
  rw [if_neg htxn] at hsup'
  unfold addOverOther
  split_ifs
  case neg => exact addOverOtherPart_ok hlt hlt' hr hts htxn (by grind)
  all_goals
    refine ⟨_, rfl, ?_⟩
    constructor <;> simp [valuesAt, leftAt, Range.Has, filter_cons, Same] <;> grind

lemma addRound_ok : ∃ round, addRound w r e = some round ∧ RoundOk w r e round := by
  unfold addRound
  rcases lt_trichotomy e.value.ts.ord w.ts.ord with hts | hts | hts
  · rw [if_pos (less_iff.mpr hts)]
    exact addOverOlder_ok he hlt hlt' hr hts
  · rw [if_neg (by simp [not_less_iff.mpr hts.ge]), if_neg (by simp [not_less_iff.mpr hts.le])]
    split_ifs with htxn
    · exact addOverSame_ok he hlt hlt' hr hts htxn
    · exact addOverOther_ok he hlt hlt' hr hts htxn
  · rw [if_neg (by simp [not_less_iff.mpr hts.le]), if_pos (less_iff.mpr hts)]
    exact addOverNewer_ok he hlt hlt' hts

end

/-! ## The loop -/

/-- What is stored for a key once what is left is added. -/
def joined (floor : CacheValue) : List CacheValue → Option CacheValue → CacheValue
  | [], none => floor
  | [], some w => w
  | v :: _, none => v
  | v :: _, some w => v ⊔ w

/-- The disjoint entries, with what is left of the new range, have the values `target`. -/
structure Met (ts : Timestamp) (floor : CacheValue) (target : Key → CacheValue)
    (next : Option (Range × TxnID)) (cache : List Entry) : Prop where
  nonempty : ∀ e ∈ cache, e.start < e.stop
  single : ∀ k, (valuesAt cache k).length ≤ 1
  value : ∀ k, Same (target k) (joined floor (valuesAt cache k) (leftAt ts next k))

variable {ts : Timestamp} {floor : CacheValue} {target : Key → CacheValue} {txnID : TxnID}
  {r : Range} {e : Entry} {es cache : List Entry} {round : Round} {k : Key}
  {next : Option (Range × TxnID)}

lemma valuesAt_cons : valuesAt (e :: cache) k =
    if e.Has k then e.value :: valuesAt cache k else valuesAt cache k := by
  unfold valuesAt
  rw [filter_cons]
  split_ifs <;> simp_all

lemma valuesAt_append (cache' : List Entry) :
    valuesAt (cache ++ cache') k = valuesAt cache k ++ valuesAt cache' k := by
  simp [valuesAt]

lemma valuesAt_eq_nil : valuesAt cache k = [] ↔ ∀ e ∈ cache, ¬ e.Has k := by
  simp [valuesAt]

lemma valuesAt_erase_of_not_has (h : ¬ e.Has k) :
    valuesAt (cache.filter (· ≠ e)) k = valuesAt cache k := by
  unfold valuesAt
  rw [filter_filter]
  congr 1
  refine filter_congr fun x _ => ?_
  rcases eq_or_ne x e with rfl | hne
  · simp [h]
  · simp [hne]

/-- A key is in one entry at most. -/
lemma Met.filter_eq (h : Met ts floor target next cache) (he : e ∈ cache) (hk : e.Has k) :
    cache.filter (fun e => e.Has k) = [e] := by
  have hsingle := h.single k
  have hmem : e ∈ cache.filter fun e => e.Has k := mem_filter.mpr ⟨he, decide_eq_true hk⟩
  rw [valuesAt, length_map] at hsingle
  obtain ⟨x, hx⟩ := length_eq_one_iff.mp (hsingle.antisymm (length_pos_of_mem hmem))
  rw [hx, mem_singleton] at hmem
  rw [hx, hmem]

lemma Met.valuesAt_erase (h : Met ts floor target next cache) (he : e ∈ cache) (hk : e.Has k) :
    valuesAt (cache.filter (· ≠ e)) k = [] := by
  refine valuesAt_eq_nil.mpr fun x hx hxk => ?_
  obtain ⟨hx, hne⟩ := mem_filter.mp hx
  have hmem : x ∈ cache.filter fun e => e.Has k := mem_filter.mpr ⟨hx, decide_eq_true hxk⟩
  rw [h.filter_eq he hk, mem_singleton] at hmem
  exact of_decide_eq_true hne hmem

lemma joined_of_append {vs : List CacheValue} {w : Option CacheValue} {v : CacheValue}
    (h : vs ++ w.toList = [v]) : vs.length ≤ 1 ∧ joined floor vs w = v := by
  cases w <;> rcases vs with _ | ⟨x, _ | _⟩ <;> simp_all [joined]

lemma RoundOk.left_of_past (h : RoundOk ⟨ts, txnID⟩ r e round) (hk : e.stop ≤ k) (hr : k < r.stop)
    (hrk : r.Has k) : valuesAt round.1 k = [] := by
  obtain ⟨v, hv, -⟩ := h.join k (.inr hrk)
  rw [h.past k hk hr] at hv
  simpa using congrArg List.length hv

lemma Met.step (h : Met ts floor target (some (r, txnID)) cache)
    (hround : RoundOk ⟨ts, txnID⟩ r e round) (he : e ∈ cache)
    (hbefore : ∀ k, r.Has k → k < e.start → valuesAt cache k = []) :
    Met ts floor target round.2 (round.1 ++ cache.filter (· ≠ e)) := by
  have hkey : ∀ k, (valuesAt (round.1 ++ cache.filter (· ≠ e)) k).length ≤ 1 ∧ Same (target k)
      (joined floor (valuesAt (round.1 ++ cache.filter (· ≠ e)) k) (leftAt ts round.2 k)) := by
    intro k
    have hsingle := h.single k
    have hvalue := h.value k
    rw [valuesAt_append]
    rw [leftAt] at hvalue
    by_cases hek : e.Has k
    · obtain ⟨v, hv, hsame⟩ := hround.join k (.inl hek)
      obtain ⟨hlength, hjoined⟩ := @joined_of_append floor _ _ _ hv
      rw [h.valuesAt_erase he hek, append_nil, hjoined]
      rw [valuesAt, h.filter_eq he hek] at hvalue
      refine ⟨hlength, .trans ?_ hsame⟩
      by_cases hrk : r.Has k <;> simpa [hek, hrk, joined] using hvalue
    rw [valuesAt_erase_of_not_has hek]
    by_cases hrk : r.Has k
    · rw [if_pos hrk] at hvalue
      by_cases hlt : k < e.start
      · obtain ⟨v, hv, hsame⟩ := hround.join k (.inr hrk)
        obtain ⟨hlength, hjoined⟩ := @joined_of_append floor _ _ _ hv
        rw [hbefore k hrk hlt] at hvalue ⊢
        rw [if_neg hek] at hsame
        rw [append_nil, hjoined]
        exact ⟨hlength, hvalue.trans hsame⟩
      have hle : e.stop ≤ k := not_lt.mp fun h => hek ⟨not_lt.mp hlt, h⟩
      rw [hround.left_of_past hle hrk.2 hrk, hround.past k hle hrk.2]
      exact ⟨hsingle, hvalue⟩
    · obtain ⟨hnil, hnone⟩ := hround.outside k hek hrk
      rw [hnil, hnone]
      rw [if_neg hrk] at hvalue
      exact ⟨hsingle, hvalue⟩
  refine ⟨fun p hp => ?_, fun k => (hkey k).1, fun k => (hkey k).2⟩
  exact (mem_append.mp hp).elim (hround.nonempty p) fun hp => h.nonempty p (mem_filter.mp hp).1

lemma addLoop_ok (h : Met ts floor target (some (r, txnID)) cache) (hr : r.start < r.stop)
    (horder : es.Pairwise fun p q => p.stop ≤ q.start)
    (hmem : ∀ x ∈ es, x ∈ cache ∧ x.start < r.stop ∧ r.start < x.stop)
    (hfree : ∀ k, r.Has k → (∀ x ∈ es, ¬ x.Has k) → valuesAt cache k = []) :
    ∃ cache', addLoop ts es r txnID cache = some cache' ∧ Met ts floor target none cache' := by
  induction es generalizing r txnID cache with
  | nil =>
    have hkey : ∀ k, (valuesAt (⟨r, ts, txnID⟩ :: cache) k).length ≤ 1 ∧
        Same (target k) (joined floor (valuesAt (⟨r, ts, txnID⟩ :: cache) k) none) := by
      intro k
      have hvalue := h.value k
      rw [valuesAt_cons]
      rw [leftAt] at hvalue
      by_cases hk : r.Has k
      · rw [if_pos hk, hfree k hk (by simp)] at *
        exact ⟨le_rfl, hvalue⟩
      rw [if_neg hk] at *
      exact ⟨h.single k, hvalue⟩
    exact ⟨_, if_pos hr, forall_mem_cons.mpr ⟨hr, h.nonempty⟩, fun k => (hkey k).1,
      fun k => (hkey k).2⟩
  | cons e es ih =>
    obtain ⟨hafter, horder⟩ := pairwise_cons.mp horder
    obtain ⟨he, hlt, hlt'⟩ := hmem e (.head _)
    have hrange := h.nonempty e he
    obtain ⟨⟨pieces, next⟩, heq, hround⟩ := @addRound_ok ⟨ts, txnID⟩ r e hrange hlt hlt' hr
    have hstep := h.step hround he fun k hrk hk => by
      refine hfree k hrk (forall_mem_cons.mpr ⟨fun hek => hek.1.not_gt hk, fun x hx hxk => ?_⟩)
      exact ((hrange.trans_le (hafter x hx)).trans_le hxk.1).not_gt hk
    unfold addLoop
    rw [heq]
    cases next with
    | none => exact ⟨_, rfl, hstep⟩
    | some next =>
      obtain ⟨r', txn'⟩ := next
      refine ih hstep (hround.left_nonempty _ rfl) horder (fun x hx => ?_) fun k hk hes => ?_
      · obtain ⟨hx', hxlt, -⟩ := hmem x (.tail _ hx)
        have hpast := hround.past x.start (hafter x hx) hxlt
        have hhas : r'.Has x.start := by
          by_contra hnot
          simp [leftAt, hnot] at hpast
        refine ⟨mem_append_right _ (mem_filter.mpr ⟨hx', decide_eq_true ?_⟩), hhas.2,
          hhas.1.trans_lt (h.nonempty x hx')⟩
        rintro rfl
        exact hrange.not_ge (hafter x hx)
      have hleft : leftAt ts (some (r', txn')) k = some ⟨ts, txn'⟩ := if_pos hk
      have hor : e.Has k ∨ r.Has k := by
        by_contra hnot
        rw [not_or] at hnot
        cases hleft.symm.trans (hround.outside k hnot.1 hnot.2).2
      obtain ⟨v, hv, -⟩ := hround.join k hor
      have hnil : valuesAt pieces k = [] := by
        rw [hleft] at hv
        simpa using congrArg List.length hv
      rw [valuesAt_append, hnil]
      by_cases hek : e.Has k
      · exact h.valuesAt_erase he hek
      rw [valuesAt_erase_of_not_has hek]
      exact hfree k (hor.resolve_left hek) (forall_mem_cons.mpr ⟨hek, hes⟩)

lemma pairwise_disjoint (h : ∀ k, (valuesAt cache k).length ≤ 1) :
    cache.Pairwise fun p q => p.Disjoint q.toRange := by
  induction cache with
  | nil => exact .nil
  | cons e cache ih =>
    refine pairwise_cons.mpr ⟨fun x hx k hk => ?_, ih fun k => ?_⟩
    · have hlength := h k
      rw [valuesAt_cons, if_pos hk, length_cons] at hlength
      exact valuesAt_eq_nil.mp (length_eq_zero_iff.mp (by omega)) x hx
    refine le_trans ?_ (h k)
    rw [valuesAt_cons]
    split_ifs <;> simp

lemma getOverlaps_spec (h : Met ts floor target next cache) :
    (getOverlaps cache r).Pairwise (fun p q => p.stop ≤ q.start) ∧
    ∀ x, x ∈ getOverlaps cache r ↔ x ∈ cache ∧ x.start < r.stop ∧ r.start < x.stop := by
  have htotal : Std.Total fun a b : Entry => a.start ≤ b.start :=
    ⟨fun a b => le_total a.start b.start⟩
  have hperm := perm_insertionSort (fun a b : Entry => a.start ≤ b.start)
    (cache.filter fun e => e.start < r.stop ∧ r.start < e.stop)
  rw [getOverlaps]
  have hmem : ∀ x, x ∈ List.insertionSort _ _ ↔ x ∈ cache ∧ x.start < r.stop ∧ r.start < x.stop :=
    fun x => hperm.mem_iff.trans (by simp)
  refine ⟨?_, hmem⟩
  have hdisjoint := (hperm.pairwise_iff fun {p q} hpq k hk hk' =>
    (hpq : p.Disjoint q.toRange) k hk' hk).mpr ((pairwise_disjoint h.single).filter _)
  refine ((pairwise_insertionSort _ _).and hdisjoint).imp_of_mem ?_
  rintro p q - hq ⟨hle, hdisjoint⟩
  refine not_lt.mp fun hlt => hdisjoint q.start ⟨hle, hlt⟩ ⟨le_rfl, ?_⟩
  exact h.nonempty q ((hmem q).mp hq).1

/-! ## Runs -/

lemma joinAt_append (lowWater : Timestamp) (adds : List Addition) (a : Addition) (k : Key) :
    joinAt lowWater (adds ++ [a]) k = if a.range.Has k ∧ lowWater.less a.ts
      then joinAt lowWater adds k ⊔ a.value else joinAt lowWater adds k := by
  unfold joinAt
  rw [filter_append, map_append, foldl_append]
  split_ifs with h <;> simp [h]

structure Joined (lowWater : Timestamp) (adds : List Addition) (tc : TreeImpl) : Prop where
  lowWater_eq : tc.lowWater = lowWater
  met : Met lowWater ⟨lowWater, noTxnID⟩ (joinAt lowWater adds) none tc.cache

variable {lowWater : Timestamp} {done adds : List Addition} {a : Addition} {tc : TreeImpl}

lemma Joined.pending (h : Joined lowWater adds tc) (hless : lowWater.less a.ts) :
    Met a.ts ⟨lowWater, noTxnID⟩ (joinAt lowWater (adds ++ [a])) (some (a.range, a.txnID))
      tc.cache := by
  refine ⟨h.met.nonempty, h.met.single, fun k => ?_⟩
  have hvalue := h.met.value k
  rw [leftAt] at hvalue
  rw [joinAt_append, leftAt]
  by_cases hr : a.range.Has k
  · rw [if_pos ⟨hr, hless⟩, if_pos hr]
    cases hvalues : valuesAt tc.cache k with
    | nil =>
      rw [hvalues] at hvalue
      have hsup : (⟨lowWater, noTxnID⟩ : CacheValue) ⊔ a.value = a.value :=
        sup_of_lt (less_iff.mp hless)
      have hjoin := hvalue.sup a.value
      rwa [joined, hsup] at hjoin
    | cons v vs =>
      rw [hvalues] at hvalue
      exact hvalue.sup a.value
  · rwa [if_neg fun h => hr h.1, if_neg hr]

/-- At most one entry lies around an inverted range. -/
lemma Met.length_getOverlaps_le (h : Met ts floor target next cache) (hr : ¬ r.start < r.stop) :
    (getOverlaps cache r).length ≤ 1 := by
  have hsingle := h.single r.start
  rw [valuesAt, length_map, ← countP_eq_length_filter] at hsingle
  rw [getOverlaps, length_insertionSort, ← countP_eq_length_filter]
  refine (countP_mono_left fun e _ he => ?_).trans hsingle
  obtain ⟨hlt, hlt'⟩ := of_decide_eq_true he
  exact decide_eq_true ⟨(hlt.trans_le (not_lt.mp hr)).le, hlt'⟩

/-- An entry around an inverted range stays as it is, or all of the range is left to be added. -/
lemma addRound_inverted (hlt : e.start < r.stop) (hlt' : r.start < e.stop)
    (hr : ¬ r.start < r.stop) :
    addRound w r e = some ([e], none) ∨
      ∃ pieces txnID, addRound w r e = some (pieces, some (r, txnID)) := by
  have hle := not_lt.mp hr
  have hstart := hlt.trans_le hle
  have hstop := hle.trans_lt hlt'
  unfold addRound
  split_ifs
  · refine .inr ⟨[{ e with stop := r.start }, { e with start := r.stop }], w.txnID, ?_⟩
    simp [addOverOlder, hstart, hstop, hstart.ne', hstart.not_ge]
  · exact .inl (by simp [addOverNewer, hstart.le, hstop.le])
  · exact .inl (by simp [addOverSame, hstart.le, hstop.le])
  · refine .inr ⟨[{ e with stop := r.start }, { e with start := r.stop }], noTxnID, ?_⟩
    simp [addOverOther, addOverOtherPart, hstart, hstop, hstart.ne', hstart.not_gt]

/-- An entry is written back as it was. -/
lemma Met.rewrite (h : Met ts floor target next cache) (he : e ∈ cache) :
    Met ts floor target next ([e] ++ cache.filter (· ≠ e)) := by
  have hvalues : ∀ k, valuesAt ([e] ++ cache.filter (· ≠ e)) k = valuesAt cache k := by
    intro k
    rw [singleton_append, valuesAt_cons]
    split_ifs with hk
    · rw [h.valuesAt_erase he hk, valuesAt, h.filter_eq he hk, map_singleton]
    · exact valuesAt_erase_of_not_has hk
  refine ⟨fun p hp => ?_, fun k => ?_, fun k => ?_⟩
  · rcases mem_cons.mp hp with rfl | hp
    · exact h.nonempty p he
    · exact h.nonempty p (mem_filter.mp hp).1
  · rw [hvalues]
    exact h.single k
  · rw [hvalues]
    exact h.value k

/-- An inverted range is not added, or the call panics. -/
lemma Met.addLoop_inverted (h : Met ts floor target none cache) (hr : ¬ r.start < r.stop)
    {ts' : Timestamp} {cache' : List Entry}
    (hloop : addLoop ts' (getOverlaps cache r) r txnID cache = some cache') :
    Met ts floor target none cache' := by
  have hlength := h.length_getOverlaps_le hr
  have hmem := (getOverlaps_spec (r := r) h).2
  match hes : getOverlaps cache r with
  | [] =>
    rw [hes, addLoop, if_neg hr] at hloop
    cases hloop
  | _ :: _ :: _ =>
    rw [hes, length_cons, length_cons] at hlength
    omega
  | [e] =>
    obtain ⟨he, hlt, hlt'⟩ := (hmem e).mp (by rw [hes]; exact .head _)
    rw [hes, addLoop] at hloop
    rcases addRound_inverted (w := ⟨ts', txnID⟩) hlt hlt' hr with heq | ⟨pieces, txn', heq⟩
    · rw [heq] at hloop
      cases hloop
      exact h.rewrite he
    · rw [heq] at hloop
      cases hloop.symm.trans (if_neg hr)

lemma Joined.add (h : Joined lowWater adds tc) :
    (tc.add a = none ∧ a.Inverted lowWater) ∨
      ∃ tc', tc.add a = some tc' ∧ Joined lowWater (adds ++ [a]) tc' := by
  obtain ⟨rfl, hmet⟩ := id h
  unfold TreeImpl.add Addition.Inverted
  by_cases hless : tc.lowWater.less a.ts
  · rw [if_pos hless]
    by_cases hr : a.range.start < a.range.stop
    · have hpending := h.pending hless
      obtain ⟨horder, hmem⟩ := getOverlaps_spec (r := a.range) hpending
      obtain ⟨cache, hloop, hmet'⟩ := addLoop_ok hpending hr horder (fun x => (hmem x).mp)
        fun k hk hes => valuesAt_eq_nil.mpr fun x hx hxk =>
          hes x ((hmem x).mpr ⟨hx, hxk.1.trans_lt hk.2, hk.1.trans_lt hxk.2⟩) hxk
      rw [hloop]
      exact .inr ⟨_, rfl, rfl, hmet'.nonempty, hmet'.single, hmet'.value⟩
    cases hloop : addLoop a.ts (getOverlaps tc.cache a.range) a.range a.txnID tc.cache with
    | none => exact .inl ⟨rfl, hless, hr⟩
    | some cache =>
      have hmet' := hmet.addLoop_inverted hr hloop
      refine .inr ⟨_, rfl, rfl, hmet'.nonempty, hmet'.single, fun k => ?_⟩
      rw [joinAt_append, if_neg fun h => hr (h.1.1.trans_lt h.1.2)]
      exact hmet'.value k
  · rw [if_neg hless]
    refine .inr ⟨_, rfl, rfl, hmet.nonempty, hmet.single, fun k => ?_⟩
    rw [joinAt_append, if_neg fun h => hless h.2]
    exact hmet.value k

lemma Joined.run (h : Joined lowWater done tc) :
    (Transition.run TreeImpl.add tc adds = none ∧ ∃ a ∈ adds, a.Inverted lowWater) ∨
      ∃ tc', Transition.run TreeImpl.add tc adds = some tc' ∧
        Joined lowWater (done ++ adds) tc' := by
  induction adds generalizing done tc with
  | nil => exact .inr ⟨tc, rfl, by rwa [append_nil]⟩
  | cons a adds ih =>
    rw [Transition.run_cons, append_cons]
    rcases h.add (a := a) with ⟨hnone, ha⟩ | ⟨tc1, heq, h1⟩
    · exact .inl ⟨by rw [hnone]; rfl, a, .head _, ha⟩
    rw [heq]
    refine (ih h1).imp_left ?_
    rintro ⟨hnone, b, hb, hp⟩
    exact ⟨hnone, b, .tail _ hb, hp⟩

lemma Joined.storedAt (h : Joined lowWater adds tc) (k : Key) :
    Same (tc.storedAt k) (joinAt lowWater adds k) := by
  obtain ⟨rfl, hmet⟩ := h
  have hvalue := (hmet.value k).symm
  unfold TreeImpl.storedAt
  cases hvalues : valuesAt tc.cache k <;> rwa [hvalues] at hvalue

/-- Without eviction an `Add` panics for an inverted range only. Otherwise the entries stay disjoint,
and a key has the join of the low water mark and all later values that were added to ranges with
it. -/
theorem treeImpl_pointwise_join (lowWater : Timestamp) (adds : List Addition) :
    match Transition.run TreeImpl.add (clear lowWater) adds with
    | none => ∃ a ∈ adds, a.Inverted lowWater
    | some tc => (tc.cache.Pairwise fun p q => p.Disjoint q.toRange) ∧
      ∀ k, Same (tc.storedAt k) (joinAt lowWater adds k) := by
  have hinit : Joined lowWater [] (clear lowWater) :=
    ⟨rfl, by simp [clear], fun k => Nat.zero_le 1, fun k => .refl _⟩
  rcases @Joined.run _ _ adds _ hinit with ⟨hnone, ha⟩ | ⟨tc, hrun, h⟩
  · rwa [hnone]
  rw [hrun]
  exact ⟨pairwise_disjoint h.met.single, h.storedAt⟩

/-- An inverted range within an entry with a higher timestamp changes nothing. -/
example : Transition.run TreeImpl.add (clear {})
    [⟨[1], [9], ⟨10, 0, false⟩, 1⟩, ⟨[5], [3], ⟨5, 0, false⟩, 2⟩] =
      Transition.run TreeImpl.add (clear {}) [⟨[1], [9], ⟨10, 0, false⟩, 1⟩] := by decide

end MeshDB.Tscache.TreeImpl
