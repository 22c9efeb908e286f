import MeshDB.Lib.Reachability
import MeshDB.Lib.Pointwise
import MeshDB.Util.Hlc

/-!
# The closed timestamp tracker

The lock-free tracker of the timestamps of the requests that evaluate. A timestamp joins one of
two buckets. Calls of `Track` interleave, each atomic access being a step; `Untrack` has the
tracker for itself.
-/
namespace MeshDB.Closedts

open List Hlc Transition Pointwise

/-- A bucket is initialized if its timestamp is not zero. -/
structure Bucket where
  ts : Int := 0
  /-- An `int32` in the source: fewer than `2 ^ 31` requests are tracked at a time. -/
  refcnt : Int := 0
  synthetic : Bool := false
deriving DecidableEq

/-- The two buckets are told apart by a bit. -/
abbrev BucketRef := Bool

structure LockfreeToken where
  b : BucketRef
  /-- The timestamp that is tracked. The source does not keep it. -/
  ts : Timestamp
deriving DecidableEq

inductive Access where
  /-- The timestamp of `b1` is read. -/
  | readB1
  /-- The loop of `extendAndJoin` reads the timestamp of the bucket. -/
  | load (b : BucketRef)
  /-- The loop swaps the timestamp that it has read. -/
  | compareAndSwap (b : BucketRef) (t : Int)
  | storeSynthetic (b : BucketRef) (t : Int)
  | addRefcnt (b : BucketRef)
deriving DecidableEq

structure Call where
  ts : Timestamp
  next : Access := .readB1
deriving DecidableEq

/-- The two buckets with the calls under way. -/
structure LockfreeTracker where
  buckets : BucketRef → Bucket := fun _ => {}
  b1 : BucketRef := false
  calls : List Call := []
  tracked : List LockfreeToken := []

namespace LockfreeTracker

variable (s : LockfreeTracker)

def b2 : BucketRef := !s.b1

def setBucket (b : BucketRef) (f : Bucket → Bucket) : LockfreeTracker :=
  { s with buckets := modify s.buckets b f }

def setCall (i : ℕ) (c : Call) : LockfreeTracker := { s with calls := s.calls.set i c }

@[simp] lemma setBucket_buckets (b : BucketRef) (f : Bucket → Bucket) :
    (s.setBucket b f).buckets = modify s.buckets b f := rfl

@[simp] lemma setCall_buckets (i : ℕ) (c : Call) : (s.setCall i c).buckets = s.buckets := rfl

/-- One atomic access of a call. -/
def access (i : ℕ) (c : Call) : LockfreeTracker :=
  let wts := c.ts.wallTime
  match c.next with
  | .readB1 =>
    let t1 := (s.buckets s.b1).ts
    s.setCall i { c with next := .load (if t1 = 0 ∨ wts ≤ t1 then s.b1 else s.b2) }
  | .load b =>
    let t := (s.buckets b).ts
    s.setCall i { c with
      next := if t ≠ 0 ∧ t ≤ wts then .storeSynthetic b t else .compareAndSwap b t }
  | .compareAndSwap b t =>
    if (s.buckets b).ts = t then
      (s.setBucket b fun bucket => { bucket with ts := wts }).setCall i
        { c with next := .storeSynthetic b t }
    else s.setCall i { c with next := .load b }
  | .storeSynthetic b t =>
    (s.setBucket b fun bucket =>
      { bucket with synthetic := bucket.synthetic || (t == 0 && c.ts.synthetic) }).setCall i
        { c with next := .addRefcnt b }
  | .addRefcnt b =>
    { s.setBucket b fun bucket => { bucket with refcnt := bucket.refcnt + 1 } with
      calls := s.calls.eraseIdx i
      tracked := ⟨b, c.ts⟩ :: s.tracked }

/-- `Untrack`. The process ends when a reference count becomes negative. -/
def untrack (tok : LockfreeToken) : Option LockfreeTracker :=
  let b := tok.b
  let s' : LockfreeTracker :=
    { s.setBucket b fun bucket => { bucket with refcnt := bucket.refcnt - 1 } with
      tracked := s.tracked.erase tok }
  if (s'.buckets b).refcnt < 0 then none
  else if (s'.buckets b).refcnt = 0 then
    let s'' := s'.setBucket b fun bucket => { bucket with ts := 0, synthetic := false }
    some (if b = s''.b1 then { s'' with b1 := s''.b2 } else s'')
  else some s'

/-- The older bucket decides. -/
def lowerBound : Timestamp :=
  let bucket := s.buckets s.b1
  if bucket.ts = 0 then {}
  else { wallTime := bucket.ts, logical := 0, synthetic := bucket.synthetic }

def count : Int := (s.buckets s.b1).refcnt + (s.buckets s.b2).refcnt

end LockfreeTracker

open LockfreeTracker

inductive Action where
  | track (ts : Timestamp)
  /-- The next access of the call with the index. -/
  | access (i : ℕ)
  | untrack (tok : LockfreeToken)

def step (s : LockfreeTracker) : Action → Option LockfreeTracker
  | .track ts => some { s with calls := s.calls ++ [{ ts := ts }] }
  | .access i => (s.calls[i]?).map (s.access i)
  | .untrack tok => if s.calls = [] ∧ tok ∈ s.tracked then s.untrack tok else none

/-- Timestamps have a positive wall time and a logical part that is not negative. -/
def Legal (_ : LockfreeTracker) : Action → Prop
  | .track ts => 0 < ts.wallTime ∧ 0 ≤ ts.logical
  | _ => True

/-! ## The invariant -/

def Access.Ok (s : LockfreeTracker) (wts : Int) : Access → Prop
  | .readB1 => True
  | .load b => b = s.b2 → (s.buckets s.b1).ts ≠ 0 ∧ (s.buckets s.b1).ts < wts
  | .compareAndSwap b t => (t = 0 ∨ wts < t) ∧
      (b = s.b2 → (s.buckets s.b1).ts ≠ 0 ∧ (s.buckets s.b1).ts < wts)
  | .storeSynthetic b _ => (s.buckets b).ts ≠ 0 ∧ (s.buckets b).ts ≤ wts
  | .addRefcnt b => (s.buckets b).ts ≠ 0 ∧ (s.buckets b).ts ≤ wts

/-- The call has yet to count itself in `b`. -/
def Call.Joins (c : Call) (b : BucketRef) : Prop :=
  (∃ t, c.next = .storeSynthetic b t) ∨ c.next = .addRefcnt b

structure Inv (s : LockfreeTracker) : Prop where
  nonneg : ∀ b, 0 ≤ (s.buckets b).ts
  order : (s.buckets s.b2).ts ≠ 0 →
    (s.buckets s.b1).ts ≠ 0 ∧ (s.buckets s.b1).ts < (s.buckets s.b2).ts
  calls : ∀ c ∈ s.calls, 0 < c.ts.wallTime ∧ 0 ≤ c.ts.logical ∧ c.next.Ok s c.ts.wallTime
  tracked : ∀ tok ∈ s.tracked, 0 ≤ tok.ts.logical ∧ (s.buckets tok.b).ts ≠ 0 ∧
    (s.buckets tok.b).ts ≤ tok.ts.wallTime
  refcnt : ∀ b, (s.buckets b).refcnt = (s.tracked.countP fun tok => tok.b = b : ℕ)
  nonempty : ∀ b, (s.buckets b).ts ≠ 0 → 0 < (s.buckets b).refcnt ∨ ∃ c ∈ s.calls, c.Joins b

lemma inv_init : Inv {} where
  nonneg _ := le_rfl
  order h := absurd rfl h
  calls := nofun
  tracked := nofun
  refcnt _ := rfl
  nonempty _ h := absurd rfl h

variable {s s' : LockfreeTracker}

/-- The accesses of `Track` initialize and lower buckets. -/
structure Lowers (s s' : LockfreeTracker) : Prop where
  b1 : s'.b1 = s.b1
  ts : ∀ b, (s.buckets b).ts ≠ 0 → (s'.buckets b).ts ≠ 0 ∧ (s'.buckets b).ts ≤ (s.buckets b).ts

lemma Lowers.of_eq (hb1 : s'.b1 = s.b1) (hts : ∀ b, (s'.buckets b).ts = (s.buckets b).ts) :
    Lowers s s' := by
  refine ⟨hb1, fun b hb => ?_⟩
  rw [hts b]
  exact ⟨hb, le_rfl⟩

lemma Lowers.access (h : Lowers s s') {wts : Int} {a : Access} (ha : a.Ok s wts) :
    a.Ok s' wts := by
  have hb2 : s'.b2 = s.b2 := congrArg not h.b1
  have hlow : (s.buckets s.b1).ts ≠ 0 ∧ (s.buckets s.b1).ts < wts →
      (s'.buckets s'.b1).ts ≠ 0 ∧ (s'.buckets s'.b1).ts < wts := by
    rintro ⟨hne, hlt⟩
    rw [h.b1]
    exact ⟨(h.ts _ hne).1, lt_of_le_of_lt (h.ts _ hne).2 hlt⟩
  cases a with
  | readB1 => trivial
  | load b =>
    intro hb
    exact hlow (ha (hb.trans hb2))
  | compareAndSwap b t => exact ⟨ha.1, fun hb => hlow (ha.2 (hb.trans hb2))⟩
  | storeSynthetic b t => exact ⟨(h.ts b ha.1).1, (h.ts b ha.1).2.trans ha.2⟩
  | addRefcnt b => exact ⟨(h.ts b ha.1).1, (h.ts b ha.1).2.trans ha.2⟩

variable {tok : LockfreeToken} {i : ℕ} {c : Call}

lemma Lowers.tracked (h : Lowers s s')
    (htok : (s.buckets tok.b).ts ≠ 0 ∧ (s.buckets tok.b).ts ≤ tok.ts.wallTime) :
    (s'.buckets tok.b).ts ≠ 0 ∧ (s'.buckets tok.b).ts ≤ tok.ts.wallTime :=
  ⟨(h.ts _ htok.1).1, (h.ts _ htok.1).2.trans htok.2⟩

lemma mem_set_of_ne {α : Type*} {l : List α} {a b c : α} (hi : l[i]? = some a)
    (hc : c ∈ l) (hne : c ≠ a) : c ∈ l.set i b := by
  obtain ⟨j, hj⟩ := mem_iff_getElem?.mp hc
  refine mem_iff_getElem?.mpr ⟨j, ?_⟩
  rw [List.getElem?_set_ne, hj]
  rintro rfl
  exact hne (Option.some.inj (hj.symm.trans hi))

lemma mem_eraseIdx_of_ne {α : Type*} {l : List α} {a c : α} (hi : l[i]? = some a)
    (hc : c ∈ l) (hne : c ≠ a) : c ∈ l.eraseIdx i := by
  obtain ⟨j, hj⟩ := mem_iff_getElem?.mp hc
  refine mem_eraseIdx_iff_getElem?.mpr ⟨j, ?_, hj⟩
  rintro rfl
  exact hne (Option.some.inj (hj.symm.trans hi))

lemma Inv.move (h : Inv s) {i : ℕ} {c c' : Call} (hi : s.calls[i]? = some c)
    (hts : c'.ts = c.ts) (hlow : Lowers s s') (hcalls : s'.calls = s.calls.set i c')
    (htracked : s'.tracked = s.tracked)
    (hrefcnt : ∀ b, (s'.buckets b).refcnt = (s.buckets b).refcnt)
    (hnonneg : ∀ b, 0 ≤ (s'.buckets b).ts) (horder : (s'.buckets s'.b2).ts ≠ 0 →
      (s'.buckets s'.b1).ts ≠ 0 ∧ (s'.buckets s'.b1).ts < (s'.buckets s'.b2).ts)
    (hok : c'.next.Ok s' c.ts.wallTime) (hjoins : ∀ b, c.Joins b → c'.Joins b)
    (hinit : ∀ b, (s'.buckets b).ts ≠ 0 → (s.buckets b).ts ≠ 0 ∨ c'.Joins b) : Inv s' := by
  have hc := h.calls c (mem_of_getElem? hi)
  have hmem : c' ∈ s.calls.set i c' := mem_set (List.getElem?_eq_some_iff.mp hi).1 c'
  constructor
  · exact hnonneg
  · exact horder
  · intro d hd
    rw [hcalls] at hd
    rcases mem_or_eq_of_mem_set hd with hold | rfl
    · obtain ⟨hwall, hlogical, hd⟩ := h.calls d hold
      exact ⟨hwall, hlogical, hlow.access hd⟩
    rw [hts]
    exact ⟨hc.1, hc.2.1, hok⟩
  · intro tok htok
    rw [htracked] at htok
    obtain ⟨hlogical, htok⟩ := h.tracked tok htok
    exact ⟨hlogical, hlow.tracked htok⟩
  · intro b
    rw [hrefcnt, htracked]
    exact h.refcnt b
  intro b hb
  rw [hrefcnt, hcalls]
  rcases hinit b hb with hold | hnew
  · rcases h.nonempty b hold with hpos | ⟨d, hd, hjoin⟩
    · exact .inl hpos
    by_cases heq : d = c
    · exact .inr ⟨c', hmem, hjoins b (heq ▸ hjoin)⟩
    · exact .inr ⟨d, mem_set_of_ne hi hd heq, hjoin⟩
  · exact .inr ⟨c', hmem, hnew⟩

lemma Inv.read (h : Inv s) {c' : Call} (hi : s.calls[i]? = some c)
    (hts : c'.ts = c.ts) (hok : c'.next.Ok s c.ts.wallTime)
    (hjoins : ∀ b, c.Joins b → c'.Joins b) : Inv (s.setCall i c') :=
  h.move hi hts (Lowers.of_eq rfl fun _ => rfl) rfl rfl (fun _ => rfl) h.nonneg h.order hok hjoins
    fun _ => .inl

lemma b1_ne_b2 (s : LockfreeTracker) : s.b1 ≠ s.b2 := by
  unfold LockfreeTracker.b2
  cases s.b1 <;> decide

lemma eq_b1_or_b2 (s : LockfreeTracker) (b : BucketRef) : b = s.b1 ∨ b = s.b2 := by
  unfold LockfreeTracker.b2
  cases b <;> cases s.b1 <;> decide

lemma Inv.swap (h : Inv s) (hi : s.calls[i]? = some c) {b : BucketRef}
    {t : Int} (hnext : c.next = .compareAndSwap b t) (ht : (s.buckets b).ts = t) :
    Inv ((s.setBucket b fun bucket => { bucket with ts := c.ts.wallTime }).setCall i
      { c with next := .storeSynthetic b t }) := by
  obtain ⟨hwall, -, hc⟩ := h.calls c (mem_of_getElem? hi)
  rw [hnext] at hc
  obtain ⟨hlower, hb2⟩ := hc
  generalize hs' : (s.setBucket b fun bucket => { bucket with ts := c.ts.wallTime }).setCall i
    { c with next := .storeSynthetic b t } = s'
  have hself : (s'.buckets b).ts = c.ts.wallTime := by
    rw [← hs', setCall_buckets, setBucket_buckets, modify_self]
  have hother : ∀ b', b' ≠ b → s'.buckets b' = s.buckets b' := by
    intro b' hne
    rw [← hs', setCall_buckets, setBucket_buckets,
      modify_of_ne _ _ hne]
  have hb1 : s'.b1 = s.b1 := by rw [← hs']; rfl
  have hb2' : s'.b2 = s.b2 := congrArg not hb1
  refine @Inv.move s s' h i c { c with next := .storeSynthetic b t } hi rfl
    ⟨hb1, fun b' hb' => ?_⟩ (by rw [← hs']; rfl) (by rw [← hs']; rfl)
    (fun b' => ?_) (fun b' => ?_) (fun h2 => ?_) ?_ ?_ ?_
  · by_cases heq : b' = b
    · rw [heq, hself]
      rw [heq, ht] at hb'
      rw [ht]
      exact ⟨by omega, by omega⟩
    rw [hother b' heq]
    exact ⟨hb', le_rfl⟩
  · by_cases heq : b' = b
    · rw [heq, ← hs', setCall_buckets, setBucket_buckets,
        modify_self]
    · rw [hother b' heq]
  · by_cases heq : b' = b
    · rw [heq, hself]
      omega
    rw [hother b' heq]
    exact h.nonneg b'
  · rw [hb1, hb2'] at *
    by_cases heq : b = s.b2
    · obtain ⟨hinit, hlt⟩ := hb2 heq
      rw [← heq, hself, hother _ (heq ▸ b1_ne_b2 s)]
      exact ⟨hinit, hlt⟩
    have hb := (eq_b1_or_b2 s b).resolve_right heq
    rw [hother _ (Ne.symm heq)] at h2 ⊢
    obtain ⟨hinit, hlt⟩ := h.order h2
    rw [← hb] at hinit hlt ⊢
    rw [hself]
    rw [ht] at hinit hlt
    exact ⟨by omega, by omega⟩
  · show (s'.buckets b).ts ≠ 0 ∧ (s'.buckets b).ts ≤ c.ts.wallTime
    rw [hself]
    exact ⟨by omega, le_rfl⟩
  · rintro b' (⟨t', ht'⟩ | ht') <;> rw [hnext] at ht' <;> cases ht'
  · intro b' hb'
    by_cases heq : b' = b
    · exact .inr (.inl ⟨t, by rw [heq]⟩)
    rw [hother b' heq] at hb'
    exact .inl hb'

lemma Inv.add (h : Inv s) (hi : s.calls[i]? = some c) {b : BucketRef}
    (hnext : c.next = .addRefcnt b) :
    Inv { s.setBucket b fun bucket => { bucket with refcnt := bucket.refcnt + 1 } with
      calls := s.calls.eraseIdx i
      tracked := ⟨b, c.ts⟩ :: s.tracked } := by
  obtain ⟨-, hlogical, hc⟩ := h.calls c (mem_of_getElem? hi)
  rw [hnext] at hc
  have hts : ∀ b', (modify s.buckets b (fun bucket =>
      { bucket with refcnt := bucket.refcnt + 1 }) b').ts = (s.buckets b').ts :=
    modify_congr Bucket.ts fun _ => rfl
  have hlow : Lowers s { s.setBucket b fun bucket =>
      { bucket with refcnt := bucket.refcnt + 1 } with
      calls := s.calls.eraseIdx i
      tracked := ⟨b, c.ts⟩ :: s.tracked } := Lowers.of_eq rfl hts
  have hself : (modify s.buckets b (fun bucket =>
      { bucket with refcnt := bucket.refcnt + 1 }) b).refcnt = (s.buckets b).refcnt + 1 := by
    rw [modify_self]
  constructor
  · intro b'
    exact (h.nonneg b').trans_eq (hts b').symm
  · intro h2
    have hold := h.order ((hts _).symm.trans_ne h2)
    exact ⟨(hts _).trans_ne hold.1, ((hts _).trans_lt hold.2).trans_eq (hts _).symm⟩
  · intro d hd
    obtain ⟨hwall, hlog, hd⟩ := h.calls d ((eraseIdx_sublist _ _).subset hd)
    exact ⟨hwall, hlog, hlow.access hd⟩
  · intro tok htok
    rcases mem_cons.mp htok with rfl | hold
    · refine ⟨hlogical, (hts b).trans_ne hc.1, (hts b).trans_le hc.2⟩
    obtain ⟨hlog, hold⟩ := h.tracked tok hold
    exact ⟨hlog, hlow.tracked hold⟩
  · intro b'
    show (modify s.buckets b _ b').refcnt = ((⟨b, c.ts⟩ :: s.tracked).countP _ : ℕ)
    by_cases heq : b' = b
    · rw [heq, hself, h.refcnt b, countP_cons_of_pos (by simp)]
      push_cast
      rfl
    rw [modify_of_ne _ _ heq, countP_cons_of_neg (by simpa using Ne.symm heq)]
    exact h.refcnt b'
  intro b' hb'
  by_cases heq : b' = b
  · refine .inl ?_
    show 0 < (modify s.buckets b _ b').refcnt
    rw [heq, hself, h.refcnt b]
    omega
  rcases h.nonempty b' ((hts b').symm.trans_ne hb') with hpos | ⟨d, hd, hjoin⟩
  · refine .inl ?_
    show 0 < (modify s.buckets b _ b').refcnt
    rw [modify_of_ne _ _ heq]
    exact hpos
  refine .inr ⟨d, mem_eraseIdx_of_ne hi hd ?_, hjoin⟩
  rintro rfl
  rcases hjoin with ⟨t, ht⟩ | ht
  · simp [hnext] at ht
  rw [hnext] at ht
  cases ht
  exact heq rfl

lemma Inv.access (h : Inv s) (hi : s.calls[i]? = some c) : Inv (s.access i c) := by
  unfold LockfreeTracker.access
  cases hnext : c.next with
  | readB1 =>
    refine h.read hi rfl (fun hb => ?_) ?_
    · show (s.buckets s.b1).ts ≠ 0 ∧ (s.buckets s.b1).ts < c.ts.wallTime
      by_cases hjoin : (s.buckets s.b1).ts = 0 ∨ c.ts.wallTime ≤ (s.buckets s.b1).ts
      · rw [if_pos hjoin] at hb
        unfold LockfreeTracker.b2 at hb
        cases hb1 : s.b1 <;> rw [hb1] at hb <;> cases hb
      · omega
    · rintro b (⟨t, ht⟩ | ht) <;> rw [hnext] at ht <;> cases ht
  | load b =>
    obtain ⟨-, -, hc⟩ := h.calls c (mem_of_getElem? hi)
    rw [hnext] at hc
    refine h.read hi rfl ?_ ?_
    · dsimp only
      split_ifs with hjoin
      · exact hjoin
      refine ⟨?_, hc⟩
      omega
    · rintro b (⟨t, ht⟩ | ht) <;> rw [hnext] at ht <;> cases ht
  | compareAndSwap b t =>
    obtain ⟨-, -, hc⟩ := h.calls c (mem_of_getElem? hi)
    rw [hnext] at hc
    dsimp only
    split_ifs with ht
    · exact h.swap hi hnext ht
    refine h.read hi rfl hc.2 ?_
    rintro b (⟨t, ht⟩ | ht) <;> rw [hnext] at ht <;> cases ht
  | storeSynthetic b t =>
    obtain ⟨-, -, hc⟩ := h.calls c (mem_of_getElem? hi)
    rw [hnext] at hc
    have hts : ∀ b', (modify s.buckets b (fun bucket => { bucket with
        synthetic := bucket.synthetic || (t == 0 && c.ts.synthetic) }) b').ts =
          (s.buckets b').ts := modify_congr Bucket.ts fun _ => rfl
    refine @Inv.move s _ h i c { c with next := .addRefcnt b } hi rfl (Lowers.of_eq rfl hts) rfl
      rfl (modify_congr Bucket.refcnt fun _ => rfl) (fun b' => ?_) (fun h2 => ?_) ?_ ?_
      fun b' hb' => .inl ((hts b').symm.trans_ne hb')
    · exact (h.nonneg b').trans_eq (hts b').symm
    · have hold := h.order ((hts _).symm.trans_ne h2)
      exact ⟨(hts _).trans_ne hold.1, ((hts _).trans_lt hold.2).trans_eq (hts _).symm⟩
    · exact ⟨(hts b).trans_ne hc.1, (hts b).trans_le hc.2⟩
    rintro b' (⟨t', ht'⟩ | ht')
    · rw [hnext] at ht'
      cases ht'
      exact .inr rfl
    · simp [hnext] at ht'
  | addRefcnt b => exact h.add hi hnext

lemma refcnt_untrack (h : Inv s) (htok : tok ∈ s.tracked) (b : BucketRef) :
    (modify s.buckets tok.b (fun bucket => { bucket with refcnt := bucket.refcnt - 1 }) b).refcnt =
      ((s.tracked.erase tok).countP fun tok => tok.b = b : ℕ) := by
  have hcount : ∀ p : LockfreeToken → Bool, s.tracked.countP p =
      (s.tracked.erase tok).countP p + if p tok then 1 else 0 := by
    intro p
    rw [(perm_cons_erase htok).countP_eq, countP_cons]
  by_cases heq : b = tok.b
  · rw [heq, modify_self, h.refcnt, hcount]
    simp
  rw [modify_of_ne _ _ heq, h.refcnt, hcount]
  simp [Ne.symm heq]

def releasedBucket (tok : LockfreeToken) (s : LockfreeTracker) (b : BucketRef) : Bucket :=
  let bucket := modify s.buckets tok.b (fun bucket => { bucket with refcnt := bucket.refcnt - 1 }) b
  if b = tok.b ∧ bucket.refcnt = 0 then { bucket with ts := 0, synthetic := false } else bucket

lemma untrack_eq_some (h : s.untrack tok = some s') :
    s'.buckets = releasedBucket tok s ∧ s'.calls = s.calls ∧ s'.tracked = s.tracked.erase tok ∧
      s'.b1 = if tok.b = s.b1 ∧ (releasedBucket tok s tok.b).refcnt = 0 then s.b2 else s.b1 := by
  have hself : (releasedBucket tok s tok.b).refcnt = (modify s.buckets tok.b (fun bucket =>
      { bucket with refcnt := bucket.refcnt - 1 }) tok.b).refcnt := by
    unfold releasedBucket
    dsimp only
    split_ifs <;> rfl
  have hreset : (modify s.buckets tok.b (fun bucket =>
      { bucket with refcnt := bucket.refcnt - 1 }) tok.b).refcnt = 0 →
      modify (modify s.buckets tok.b fun bucket => { bucket with refcnt := bucket.refcnt - 1 })
        tok.b (fun bucket => { bucket with ts := 0, synthetic := false }) =
          releasedBucket tok s := by
    intro hzero
    funext b
    by_cases heq : b = tok.b
    · rw [heq, modify_self, releasedBucket, if_pos ⟨rfl, hzero⟩]
    · rw [modify_of_ne _ _ heq, releasedBucket, if_neg fun hb => heq hb.1]
  unfold untrack setBucket at h
  dsimp only at h
  rw [hself]
  split_ifs at h with hneg hzero hb1
  · cases h
    exact ⟨hreset hzero, rfl, rfl, (if_pos ⟨hb1, hzero⟩).symm⟩
  · cases h
    exact ⟨hreset hzero, rfl, rfl, (if_neg fun hb => hb1 hb.1).symm⟩
  cases h
  refine ⟨?_, rfl, rfl, (if_neg fun hb => hzero hb.2).symm⟩
  funext b
  rw [releasedBucket, if_neg]
  rintro ⟨rfl, hb⟩
  exact hzero hb

lemma Inv.untrack (h : Inv s) (hcalls : s.calls = [])
    (htok : tok ∈ s.tracked) (huntrack : s.untrack tok = some s') : Inv s' := by
  obtain ⟨hbuckets, hcalls', htracked, hb1⟩ := untrack_eq_some huntrack
  have hrefcnt : ∀ b, (s'.buckets b).refcnt = (s'.tracked.countP fun tok => tok.b = b : ℕ) := by
    intro b
    rw [htracked, ← refcnt_untrack h htok b, hbuckets, releasedBucket]
    split_ifs <;> rfl
  have hts : ∀ b, ((s'.buckets b).ts = 0 ∧ (s'.buckets b).refcnt = 0 ∧ b = tok.b) ∨
      ((s'.buckets b).ts = (s.buckets b).ts ∧ (b = tok.b → (s'.buckets b).refcnt ≠ 0)) := by
    intro b
    rw [hbuckets, releasedBucket]
    split_ifs with hzero
    · exact .inl ⟨rfl, hzero.2, hzero.1⟩
    refine .inr ⟨?_, fun hb hz => hzero ⟨hb, hz⟩⟩
    exact @modify_congr _ _ _ _ s.buckets tok.b
      (fun bucket => { bucket with refcnt := bucket.refcnt - 1 }) Bucket.ts (fun _ => rfl) b
  have hpos : ∀ b, (s'.buckets b).ts ≠ 0 → 0 < (s'.buckets b).refcnt := by
    intro b hb
    rcases hts b with ⟨hzero, -⟩ | ⟨hsame, hne⟩
    · exact absurd hzero hb
    have hnat := hrefcnt b
    by_cases heq : b = tok.b
    · have := hne heq
      omega
    rw [hsame] at hb
    have hold := (h.nonempty b hb).resolve_right (by
      rintro ⟨c, hc, -⟩
      rw [hcalls] at hc
      cases hc)
    rw [h.refcnt b, (perm_cons_erase htok).countP_eq, countP_cons_of_neg
      (by simpa using Ne.symm heq), ← htracked, ← hrefcnt b] at hold
    exact hold
  constructor
  · intro b
    rcases hts b with ⟨hzero, -⟩ | ⟨hsame, -⟩
    · exact hzero.ge
    · exact hsame ▸ h.nonneg b
  · intro h2
    rw [← hbuckets] at hb1
    split_ifs at hb1 with hswap
    · have hb2 : s'.b2 = tok.b := by
        rw [LockfreeTracker.b2, hb1, LockfreeTracker.b2, Bool.not_not, hswap.1]
      rw [hb2] at h2
      rcases hts tok.b with ⟨hzero, -⟩ | ⟨-, hne⟩
      · exact absurd hzero h2
      · exact absurd hswap.2 (hne rfl)
    have hb2 : s'.b2 = s.b2 := congrArg not hb1
    rw [hb2] at h2 ⊢
    rw [hb1]
    rcases hts s.b2 with ⟨hzero, -⟩ | ⟨hsame2, -⟩
    · exact absurd hzero h2
    rw [hsame2] at h2 ⊢
    rcases hts s.b1 with ⟨-, hzero, heq⟩ | ⟨hsame1, -⟩
    · exact absurd ⟨heq.symm, heq ▸ hzero⟩ hswap
    rw [hsame1]
    exact h.order h2
  · rw [hcalls', hcalls]
    exact nofun
  · intro tok' htok'
    have hin := htok'
    rw [htracked] at htok'
    obtain ⟨hlogical, hold⟩ := h.tracked tok' (mem_of_mem_erase htok')
    rcases hts tok'.b with ⟨-, hzero, -⟩ | ⟨hsame, -⟩
    · rw [hrefcnt] at hzero
      have hcount : 0 < s'.tracked.countP fun tok => tok.b = tok'.b :=
        countP_pos_iff.mpr ⟨tok', hin, decide_eq_true rfl⟩
      omega
    · rw [hsame]
      exact ⟨hlogical, hold⟩
  · exact hrefcnt
  · exact fun b hb => .inl (hpos b hb)

lemma Inv.step (h : Inv s) {a : Action} (hlegal : Legal s a) (hstep : step s a = some s') :
    Inv s' := by
  cases a with
  | track ts =>
    cases hstep
    refine ⟨h.nonneg, h.order, fun c hc => ?_, h.tracked, h.refcnt, fun b hb => ?_⟩
    · rcases mem_append.mp hc with hold | hnew
      · obtain ⟨hwall, hlogical, hok⟩ := h.calls c hold
        exact ⟨hwall, hlogical, (Lowers.of_eq rfl fun _ => rfl).access hok⟩
      rw [mem_singleton.mp hnew]
      exact ⟨hlegal.1, hlegal.2, trivial⟩
    rcases h.nonempty b hb with hpos | ⟨c, hc, hjoin⟩
    · exact .inl hpos
    · exact .inr ⟨c, mem_append_left _ hc, hjoin⟩
  | access i =>
    obtain ⟨c, hi, rfl⟩ := Option.map_eq_some_iff.mp hstep
    exact h.access hi
  | untrack tok =>
    simp only [Closedts.step] at hstep
    split_ifs at hstep with hex
    exact h.untrack hex.1 hex.2 hstep

lemma Inv.of_reachable (h : Reachable Closedts.step Legal {} s) : Inv s :=
  h.invariant inv_init fun _ _ _ _ hinv => hinv.step

lemma Inv.count_eq (h : Inv s) : s.count = s.tracked.length := by
  have hsum : s.tracked.length = s.tracked.countP (fun tok => tok.b = s.b1) +
      s.tracked.countP (fun tok => tok.b = s.b2) := by
    rw [length_eq_countP_add_countP fun tok => decide (tok.b = s.b1)]
    congr 1
    refine countP_congr fun tok _ => ?_
    have hne := b1_ne_b2 s
    rcases eq_b1_or_b2 s tok.b with heq | heq <;> simp [heq, hne, hne.symm]
  rw [LockfreeTracker.count, h.refcnt, h.refcnt, hsum]
  push_cast
  rfl

/-- When no call of `Track` is in progress, the lower bound is empty exactly if nothing is tracked
and is not above any tracked timestamp. -/
theorem tracker_lower_bound (h : Reachable Closedts.step Legal {} s) (hquiet : s.calls = []) :
    (s.lowerBound.isEmpty = true ↔ s.count = 0) ∧
      (s.count ≠ 0 → ∀ tok ∈ s.tracked, s.lowerBound.ord ≤ tok.ts.ord) ∧
      (∀ b, (s.buckets b).ts ≠ 0 → 0 < (s.buckets b).refcnt) ∧
      ((s.buckets s.b2).ts ≠ 0 →
        (s.buckets s.b1).ts ≠ 0 ∧ (s.buckets s.b1).ts < (s.buckets s.b2).ts) := by
  have hinv := Inv.of_reachable h
  have hpos : ∀ b, (s.buckets b).ts ≠ 0 → 0 < (s.buckets b).refcnt := by
    intro b hb
    refine (hinv.nonempty b hb).resolve_right ?_
    rintro ⟨c, hc, -⟩
    rw [hquiet] at hc
    cases hc
  have hlow : ∀ tok ∈ s.tracked, (s.buckets s.b1).ts ≠ 0 ∧
      (s.buckets s.b1).ts ≤ tok.ts.wallTime := by
    intro tok htok
    obtain ⟨-, hne, hle⟩ := hinv.tracked tok htok
    rcases eq_b1_or_b2 s tok.b with heq | heq
    · rw [heq] at hne hle
      exact ⟨hne, hle⟩
    rw [heq] at hne hle
    obtain ⟨hne1, hlt⟩ := hinv.order hne
    exact ⟨hne1, by omega⟩
  refine ⟨?_, fun _ tok htok => ?_, hpos, hinv.order⟩
  · rw [hinv.count_eq]
    unfold lowerBound
    dsimp only
    constructor
    · intro hempty
      split_ifs at hempty with hzero
      · cases htracked : s.tracked with
        | nil => rfl
        | cons tok toks => exact absurd hzero (hlow tok (by simp [htracked])).1
      · simp [Timestamp.isEmpty, hzero] at hempty
    intro hnone
    have hnil : s.tracked = [] := by simpa using hnone
    have hzero : (s.buckets s.b1).ts = 0 := by
      by_contra hne
      have := hpos s.b1 hne
      rw [hinv.refcnt, hnil] at this
      simp at this
    rw [if_pos hzero]
    rfl
  · obtain ⟨hne, hle⟩ := hlow tok htok
    have hlogical := (hinv.tracked tok htok).1
    rw [lowerBound, if_neg hne, ← Timestamp.lessEq_iff]
    unfold Timestamp.lessEq
    simp only [Bool.or_eq_true, decide_eq_true_eq, Bool.and_eq_true, beq_iff_eq]
    omega

/-- Two timestamps join while nothing is tracked, the later one below the first. -/
def twoTracked : List Action :=
  [.track { wallTime := 20 }, .track { wallTime := 10 }, .access 0, .access 1, .access 0,
    .access 1, .access 0, .access 1, .access 1, .access 1, .access 0, .access 1, .access 0,
    .access 0]

lemma twoTracked_legal (s : LockfreeTracker) : ∀ a ∈ twoTracked, Legal s a := by
  intro a ha
  simp only [twoTracked, mem_cons, not_mem_nil, or_false] at ha
  rcases ha with rfl | rfl | rfl | rfl | rfl | rfl | rfl | rfl | rfl | rfl | rfl | rfl | rfl | rfl
  · exact ⟨by decide, by decide⟩
  · exact ⟨by decide, by decide⟩
  all_goals exact True.intro

theorem tracker_lower_bound_two :
    ∃ s, Reachable Closedts.step Legal {} s ∧ s.calls = [] ∧ s.tracked.length = 2 ∧
      s.lowerBound = { wallTime := 10 } ∧ ∀ tok ∈ s.tracked, s.lowerBound.ord ≤ tok.ts.ord := by
  obtain ⟨s, hreach, hs⟩ := @exists_reachable_of_run LockfreeTracker Action Closedts.step Legal {}
    twoTracked twoTracked_legal
    (fun s => decide (s.calls = [] ∧ s.tracked.length = 2 ∧ s.lowerBound = { wallTime := 10 } ∧
      s.count ≠ 0)) (by decide)
  obtain ⟨hquiet, hlen, hbound, hcount⟩ := of_decide_eq_true hs
  exact ⟨s, hreach, hquiet, hlen, hbound, (tracker_lower_bound hreach hquiet).2.1 hcount⟩

lemma Inv.exists_untrack (h : Inv s) (htok : tok ∈ s.tracked) : ∃ s', s.untrack tok = some s' := by
  have hcount := refcnt_untrack h htok tok.b
  unfold LockfreeTracker.untrack
  dsimp only [setBucket_buckets]
  rw [if_neg (by omega)]
  split_ifs <;> exact ⟨_, rfl⟩

/-- Whatever is tracked can be untracked in any order, and nothing is left behind. -/
theorem tracker_drains (h : Reachable Closedts.step Legal {} s) (hquiet : s.calls = [])
    {toks : List LockfreeToken} (hperm : toks ~ s.tracked) :
    ∃ s', run Closedts.step s (toks.map .untrack) = some s' ∧ s'.count = 0 ∧
      s'.lowerBound = {} := by
  have hinv := Inv.of_reachable h
  clear h
  induction toks generalizing s with
  | nil =>
    have hnil : s.tracked = [] := nil_perm.mp hperm
    refine ⟨s, rfl, by simp [hinv.count_eq, hnil], if_pos (by_contra fun hne => ?_)⟩
    have hpos := hinv.nonempty _ hne
    simp [hinv.refcnt, hnil, hquiet] at hpos
  | cons tok toks ih =>
    have htok : tok ∈ s.tracked := hperm.subset mem_cons_self
    obtain ⟨s', hs'⟩ := hinv.exists_untrack htok
    obtain ⟨-, hcalls, htracked, -⟩ := untrack_eq_some hs'
    rw [map_cons, run_cons, Closedts.step, if_pos ⟨hquiet, htok⟩, hs']
    refine ih (hcalls.trans hquiet) ?_ (hinv.untrack hquiet htok hs')
    rw [htracked]
    exact (hperm.trans (perm_cons_erase htok)).cons_inv

theorem tracker_drains_two : ∃ s s', s.tracked.length = 2 ∧
    run Closedts.step s (s.tracked.reverse.map .untrack) = some s' ∧ s'.count = 0 := by
  obtain ⟨s, hreach, hs⟩ := @exists_reachable_of_run _ _ Closedts.step Legal {} twoTracked
    twoTracked_legal (fun s => decide (s.calls = [] ∧ s.tracked.length = 2)) (by decide)
  obtain ⟨hquiet, hlen⟩ := of_decide_eq_true hs
  obtain ⟨s', hrun, hcount, -⟩ := tracker_drains hreach hquiet (reverse_perm _)
  exact ⟨s, s', hlen, hrun, hcount⟩

end MeshDB.Closedts
