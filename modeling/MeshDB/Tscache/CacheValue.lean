import MeshDB.Roachpb.Txn

/-!
# Values of the timestamp cache

A value is a timestamp and the transaction that read at it, if there is only one. Ratcheting is
the join of a semilattice.
-/
namespace MeshDB.Tscache

open Roachpb Hlc Timestamp

def noTxnID : TxnID := 0

structure CacheValue where
  ts : Timestamp := {}
  txnID : TxnID := noTxnID
deriving DecidableEq

/-- `ratchetValue`, which tells whether the old value changed. -/
def ratchetValue (old new : CacheValue) : CacheValue × Bool :=
  if old.ts.less new.ts then (new, true)
  else if new.ts.less old.ts then (old, false)
  else
    let ts := if new.ts.synthetic != old.ts.synthetic then { new.ts with synthetic := false }
      else new.ts
    let txnID := if new.txnID != old.txnID then noTxnID else new.txnID
    let res : CacheValue := ⟨ts, txnID⟩
    (res, res != old)

namespace CacheValue

variable {a b c : CacheValue}

lemma ts_eq_of {t s : Timestamp} (h : t.ord = s.ord) (hsyn : t.synthetic = s.synthetic) :
    t = s := by
  cases t
  cases s
  simp_all [Timestamp.ord]

/-- The value at one timestamp is at least as far from being owned. -/
def Yields (a b : CacheValue) : Prop :=
  (b.ts.synthetic → a.ts.synthetic) ∧ (b.txnID = a.txnID ∨ b.txnID = noTxnID)

instance : LE CacheValue where
  le a b := a.ts.ord < b.ts.ord ∨ a.ts.ord = b.ts.ord ∧ Yields a b

lemma le_of_ord_lt (h : a.ts.ord < b.ts.ord) : a ≤ b := .inl h

lemma ord_le_of_le (h : a ≤ b) : a.ts.ord ≤ b.ts.ord := by
  rcases h with h | ⟨h, -⟩
  · exact h.le
  · exact h.le

lemma Yields.trans (h : Yields a b) (h' : Yields b c) : Yields a c := by
  constructor
  · exact fun hs => h.1 (h'.1 hs)
  rcases h'.2 with heq | heq
  · rcases h.2 with h | h
    · exact .inl (heq.trans h)
    · exact .inr (heq.trans h)
  · exact .inr heq

lemma Yields.antisymm (h : Yields a b) (h' : Yields b a) (hord : a.ts.ord = b.ts.ord) :
    a = b := by
  have hsyn : a.ts.synthetic = b.ts.synthetic := Bool.eq_iff_iff.mpr ⟨h'.1, h.1⟩
  have htxn : a.txnID = b.txnID := by
    rcases h.2 with h | h
    · exact h.symm
    rcases h'.2 with h' | h'
    · exact h'
    · exact h'.trans h.symm
  have hts : a.ts = b.ts := ts_eq_of hord hsyn
  cases a
  cases b
  congr

lemma ratchetValue_of_lt (h : a.ts.ord < b.ts.ord) : (ratchetValue a b).1 = b := by
  rw [ratchetValue, if_pos (less_iff.mpr h)]

lemma ratchetValue_of_gt (h : b.ts.ord < a.ts.ord) : (ratchetValue a b).1 = a := by
  rw [ratchetValue, if_neg (by simp [not_less_iff.mpr h.le]), if_pos (less_iff.mpr h)]

lemma ratchetValue_of_eq (h : a.ts.ord = b.ts.ord) : (ratchetValue a b).1.ts.ord = b.ts.ord ∧
    ((ratchetValue a b).1.ts.synthetic = (a.ts.synthetic && b.ts.synthetic)) ∧
    (ratchetValue a b).1.txnID = if a.txnID = b.txnID then a.txnID else noTxnID := by
  have h1 : a.ts.less b.ts = false := not_less_iff.mpr h.ge
  have h2 : b.ts.less a.ts = false := not_less_iff.mpr h.le
  unfold ratchetValue
  rw [h1, h2]
  refine ⟨?_, ?_, ?_⟩
  · split_ifs <;> rfl
  · cases ha : a.ts.synthetic <;> cases hb : b.ts.synthetic <;> simp [hb]
  by_cases heq : a.txnID = b.txnID
  · simp [heq]
  · simp [heq, Ne.symm heq]

instance : SemilatticeSup CacheValue where
  le_refl a := .inr ⟨rfl, id, .inl rfl⟩
  le_trans a b c := by
    rintro (h | ⟨h, hy⟩) (h' | ⟨h', hy'⟩)
    · exact .inl (h.trans h')
    · exact .inl (h' ▸ h)
    · exact .inl (h ▸ h')
    · exact .inr ⟨h.trans h', hy.trans hy'⟩
  le_antisymm a b := by
    rintro (h | ⟨h, hy⟩) (h' | ⟨h', hy'⟩)
    · exact absurd (h.trans h') (lt_irrefl _)
    · exact absurd h (h' ▸ lt_irrefl _)
    · exact absurd h' (h ▸ lt_irrefl _)
    · exact hy.antisymm hy' h
  sup a b := (ratchetValue a b).1
  le_sup_left a b := by
    rcases lt_trichotomy a.ts.ord b.ts.ord with h | h | h
    · left
      rw [ratchetValue_of_lt h]
      exact h
    · obtain ⟨hord, hsyn, htxn⟩ := ratchetValue_of_eq h
      refine .inr ⟨h.trans hord.symm, fun hs => ?_, ?_⟩
      · rw [hsyn, Bool.and_eq_true] at hs
        exact hs.1
      rw [htxn]
      split_ifs
      · exact .inl rfl
      · exact .inr rfl
    · rw [ratchetValue_of_gt h]
      exact .inr ⟨rfl, id, .inl rfl⟩
  le_sup_right a b := by
    rcases lt_trichotomy a.ts.ord b.ts.ord with h | h | h
    · rw [ratchetValue_of_lt h]
      exact .inr ⟨rfl, id, .inl rfl⟩
    · obtain ⟨hord, hsyn, htxn⟩ := ratchetValue_of_eq h
      refine .inr ⟨hord.symm, fun hs => ?_, ?_⟩
      · rw [hsyn, Bool.and_eq_true] at hs
        exact hs.2
      rw [htxn]
      split_ifs with heq
      · exact .inl heq
      · exact .inr rfl
    · left
      rw [ratchetValue_of_gt h]
      exact h
  sup_le a b c := by
    intro ha hb
    rcases lt_trichotomy a.ts.ord b.ts.ord with h | h | h
    · rw [ratchetValue_of_lt h]
      exact hb
    · obtain ⟨hord, hsyn, htxn⟩ := ratchetValue_of_eq h
      rcases ha with ha | ⟨ha, hya⟩
      · exact .inl (by rw [hord, ← h]; exact ha)
      rcases hb with hb | ⟨hb, hyb⟩
      · exact .inl (by rw [hord]; exact hb)
      refine .inr ⟨hord.trans hb, fun hs => ?_, ?_⟩
      · rw [hsyn, hya.1 hs, hyb.1 hs]
        rfl
      rw [htxn]
      rcases hya.2 with ha | ha
      · rcases hyb.2 with hb | hb
        · rw [if_pos (ha.symm.trans hb)]
          exact .inl ha
        · exact .inr hb
      · exact .inr ha
    · rw [ratchetValue_of_gt h]
      exact ha

lemma sup_eq_ratchetValue (a b : CacheValue) : a ⊔ b = (ratchetValue a b).1 := rfl

lemma updated_iff : (ratchetValue a b).2 ↔ ¬ b ≤ a := by
  rw [← sup_eq_left, sup_eq_ratchetValue]
  unfold ratchetValue
  by_cases h1 : a.ts.less b.ts
  · rw [if_pos h1]
    refine ⟨fun _ heq => ?_, fun _ => rfl⟩
    dsimp only at heq
    rw [heq, less_iff] at h1
    exact lt_irrefl _ h1
  rw [if_neg h1]
  by_cases h2 : b.ts.less a.ts
  · rw [if_pos h2]
    exact ⟨nofun, fun h => absurd rfl h⟩
  rw [if_neg h2]
  exact bne_iff_ne

lemma not_updated_iff : (ratchetValue a b).2 = false ↔ b ≤ a := by
  rw [← Bool.not_eq_true, updated_iff, not_not]

lemma le_zero_or (v : CacheValue) : v ≤ {} ∨ ({} : CacheValue) ≤ v := by
  rcases lt_trichotomy v.ts.ord ({} : Timestamp).ord with h | h | h
  · exact .inl (.inl h)
  · exact .inl (.inr ⟨h, nofun, .inr rfl⟩)
  · exact .inr (.inl h)

lemma le_of_not_le_zero {v : CacheValue} (h : ¬ v ≤ {}) : ({} : CacheValue) ≤ v :=
  (le_zero_or v).resolve_left h

lemma le_zero_of_isEmpty {v : CacheValue} (h : v.ts.isEmpty) : v ≤ {} := by
  refine .inr ⟨?_, nofun, .inr rfl⟩
  simp only [Timestamp.isEmpty, Bool.and_eq_true, beq_iff_eq] at h
  simp [Timestamp.ord, h.1.1, h.1.2]

end CacheValue

/-! ## The largest timestamp of a page -/

lemma wrapInt_eq {n : Int} (h1 : 0 ≤ n) (h2 : n < 2 ^ 63) : wrapInt 64 n = n := by
  unfold wrapInt
  rw [Int.bmod_eq_of_le] <;> omega

/-- The wall time, rounded up to an even one, with the inverted synthetic flag as its last bit. -/
def makeRatchetingTime (ts : Timestamp) : Int :=
  let rt := if 0 < ts.logical then wrapInt 64 (ts.wallTime + 1) else ts.wallTime
  let rt := if rt % 2 = 1 then wrapInt 64 (rt + 1) else rt
  if ts.synthetic then rt else wrapInt 64 (rt + 1)

def ratchetingTimeGet (rt : Int) : Timestamp :=
  { wallTime := rt - rt % 2, synthetic := rt % 2 = 0 }

def Rateable (ts : Timestamp) : Prop := 0 ≤ ts.wallTime ∧ ts.wallTime < 2 ^ 63 - 2

def ceilWall (ts : Timestamp) : Int := if 0 < ts.logical then ts.wallTime + 1 else ts.wallTime

lemma Rateable.ceilWall_lt {ts : Timestamp} (h : Rateable ts) : ceilWall ts < 2 ^ 63 - 1 := by
  obtain ⟨_, h⟩ := h
  unfold ceilWall
  split_ifs <;> omega

variable {ts x y : Timestamp}

lemma makeRatchetingTime_eq (h1 : 0 ≤ ts.wallTime) (h2 : ceilWall ts < 2 ^ 63 - 1) :
    makeRatchetingTime ts = ceilWall ts + ceilWall ts % 2 + (if ts.synthetic then 0 else 1) := by
  have hle : 0 ≤ ceilWall ts ∧ ts.wallTime ≤ ceilWall ts := by
    unfold ceilWall
    split_ifs <;> omega
  have hceil : (if 0 < ts.logical then wrapInt 64 (ts.wallTime + 1) else ts.wallTime) = ceilWall ts := by
    rw [wrapInt_eq (by omega) (by omega)]
    rfl
  have heven : (if ceilWall ts % 2 = 1 then wrapInt 64 (ceilWall ts + 1) else ceilWall ts) =
      ceilWall ts + ceilWall ts % 2 := by
    rw [wrapInt_eq (by omega) (by omega)]
    split_ifs <;> omega
  simp only [makeRatchetingTime, hceil, heven]
  rw [wrapInt_eq (by omega) (by omega)]
  split_ifs <;> omega

lemma ord_le_makeRatchetingTime (h1 : 0 ≤ ts.wallTime) (h2 : ceilWall ts < 2 ^ 63 - 1) :
    ts.ord ≤ (ratchetingTimeGet (makeRatchetingTime ts)).ord := by
  have hwall : ceilWall ts ≤ (ratchetingTimeGet (makeRatchetingTime ts)).wallTime := by
    rw [ratchetingTimeGet, makeRatchetingTime_eq h1 h2]
    split_ifs <;> dsimp only <;> omega
  have hlog : (ratchetingTimeGet (makeRatchetingTime ts)).logical = 0 := rfl
  unfold ceilWall at hwall
  rw [ord_le_iff]
  split_ifs at hwall <;> omega

lemma ratchetingTimeGet_mono {a b : Int} (h : a ≤ b) :
    (ratchetingTimeGet a).ord ≤ (ratchetingTimeGet b).ord := by
  rw [ord_le_iff]
  simp only [ratchetingTimeGet]
  omega

/-- The largest timestamps, with a wall time that cannot be rounded up. -/
lemma of_ceilWall_ge (h1 : ts.wallTime < 2 ^ 63) (h : ¬ ceilWall ts < 2 ^ 63 - 1) :
    ts.wallTime = 2 ^ 63 - 1 ∨ ts.wallTime = 2 ^ 63 - 2 ∧ 0 < ts.logical := by
  unfold ceilWall at h
  split_ifs at h <;> omega

lemma makeRatchetingTime_neg (h1 : ts.wallTime < 2 ^ 63) (h : ¬ ceilWall ts < 2 ^ 63 - 1) :
    makeRatchetingTime ts < 0 := by
  unfold makeRatchetingTime
  rcases of_ceilWall_ge h1 h with hwall | ⟨hwall, hlog⟩
  · rw [hwall]
    by_cases hlog : 0 < ts.logical
    · rw [if_pos hlog]
      cases ts.synthetic <;> decide
    rw [if_neg hlog]
    cases ts.synthetic <;> decide
  · rw [hwall, if_pos hlog]
    cases ts.synthetic <;> decide

/-- The compressed timestamps are never below the given ones if and only if the wall times can be
rounded up without overflow. -/
theorem ratchetingTime_never_below (hx : 0 ≤ x.wallTime ∧ x.wallTime < 2 ^ 63)
    (hy : 0 ≤ y.wallTime ∧ y.wallTime < 2 ^ 63) :
    (x.lessEq (ratchetingTimeGet (makeRatchetingTime x)) = true ∧
      (ratchetingTimeGet (makeRatchetingTime x)).synthetic = x.synthetic ∧
      (x.forward y).lessEq
        (ratchetingTimeGet (max (makeRatchetingTime x) (makeRatchetingTime y))) = true) ↔
    ceilWall x < 2 ^ 63 - 1 ∧ ceilWall y < 2 ^ 63 - 1 := by
  simp only [lessEq_iff, ord_forward]
  constructor
  · rintro ⟨hle, -, hforward⟩
    have hceilx : ceilWall x < 2 ^ 63 - 1 := by
      by_contra hover
      have hneg := makeRatchetingTime_neg hx.2 hover
      rw [ord_le_iff, ratchetingTimeGet] at hle
      dsimp only at hle
      omega
    refine ⟨hceilx, ?_⟩
    by_contra hover
    have hmake := makeRatchetingTime_eq hx.1 hceilx
    have hneg := makeRatchetingTime_neg hy.2 hover
    have hceil : 0 ≤ ceilWall x := by
      unfold ceilWall
      split_ifs <;> omega
    have hmax : max (makeRatchetingTime x) (makeRatchetingTime y) = makeRatchetingTime x := by
      apply max_eq_left
      split_ifs at hmake <;> omega
    have hley := (le_max_right x.ord y.ord).trans hforward
    rw [hmax, ord_le_iff, ratchetingTimeGet] at hley
    dsimp only at hley
    have := of_ceilWall_ge hy.2 hover
    split_ifs at hmake <;> omega
  rintro ⟨hceilx, hceily⟩
  have hlex := ord_le_makeRatchetingTime hx.1 hceilx
  have hley := ord_le_makeRatchetingTime hy.1 hceily
  refine ⟨hlex, ?_, max_le ?_ ?_⟩
  · rw [ratchetingTimeGet, makeRatchetingTime_eq hx.1 hceilx]
    cases x.synthetic
    · simp
      omega
    simp
    omega
  · exact hlex.trans (ratchetingTimeGet_mono (le_max_left _ _))
  · exact hley.trans (ratchetingTimeGet_mono (le_max_right _ _))

theorem ratchetingTime_never_below_odd :
    Timestamp.lessEq ⟨5, 3, true⟩ (ratchetingTimeGet (makeRatchetingTime ⟨5, 3, true⟩)) = true :=
  ((@ratchetingTime_never_below ⟨5, 3, true⟩ ⟨4, 0, false⟩ (by decide) (by decide)).mpr
    (by decide)).1

/-- The wall time of the largest timestamp wraps around. -/
theorem ratchetingTime_overflows :
    ratchetingTimeGet (makeRatchetingTime ⟨2 ^ 63 - 1, 2 ^ 31 - 1, false⟩) = ⟨-2 ^ 63, 0, false⟩ ∧
    Timestamp.lessEq ⟨2 ^ 63 - 1, 2 ^ 31 - 1, false⟩
      (ratchetingTimeGet (makeRatchetingTime ⟨2 ^ 63 - 1, 2 ^ 31 - 1, false⟩)) = false := by
  decide

end MeshDB.Tscache
