import Mathlib.Tactic.Linarith

/-!
# Durations

`duration.Duration`: months, days and nanoseconds, compared through a normal form that moves
whole months of days and whole days of nanoseconds up.
-/
namespace MeshDB

def nanosInDay : ℤ := 86400000000000

def nanosInMonth : ℤ := 30 * nanosInDay

@[ext]
structure Duration where
  months : ℤ
  days : ℤ
  nanos : ℤ
  deriving DecidableEq

namespace Duration

/-- The range of an `int64`. -/
def IsInt64 (n : ℤ) : Prop := -2 ^ 63 ≤ n ∧ n ≤ 2 ^ 63 - 1

/-- Moves whole units from `lo` to `hi`, as many as fit. Only the sum can leave the range of
an `int64`. -/
def shiftPos (unit hi lo : ℤ) : ℤ × ℤ :=
  let maxMoved := if 0 < hi then 2 ^ 63 - 1 - hi else 2 ^ 63 - 1
  let moved := min (lo.tdiv unit) maxMoved
  (Int.bmod (hi + moved) (2 ^ 64), lo - moved * unit)

@[inherit_doc shiftPos]
def shiftNeg (unit hi lo : ℤ) : ℤ × ℤ :=
  let minMoved := if hi < 0 then -2 ^ 63 - hi else -2 ^ 63
  let moved := max (lo.tdiv unit) minMoved
  (Int.bmod (hi + moved) (2 ^ 64), lo - moved * unit)

variable (d x : Duration)

def shiftPosDaysToMonths : Duration :=
  let (months, days) := shiftPos 30 d.months d.days
  { d with months, days }

def shiftPosNanosToDays : Duration :=
  let (days, nanos) := shiftPos nanosInDay d.days d.nanos
  { d with days, nanos }

def shiftNegDaysToMonths : Duration :=
  let (months, days) := shiftNeg 30 d.months d.days
  { d with months, days }

def shiftNegNanosToDays : Duration :=
  let (days, nanos) := shiftNeg nanosInDay d.days d.nanos
  { d with days, nanos }

/-- One half of `normalize`. -/
def shiftDays : Duration :=
  if 0 < d.days then d.shiftPosDaysToMonths
  else if d.days < 0 then d.shiftNegDaysToMonths
  else d

@[inherit_doc shiftDays]
def shiftNanos : Duration :=
  if 0 < d.nanos then d.shiftPosNanosToDays.shiftPosDaysToMonths
  else if d.nanos < 0 then d.shiftNegNanosToDays.shiftNegDaysToMonths
  else d

def normalize : Duration := d.shiftDays.shiftNanos

def compare : ℤ :=
  let normD := d.normalize
  let normX := x.normalize
  if normD.months < normX.months then -1
  else if normX.months < normD.months then 1
  else if normD.days < normX.days then -1
  else if normX.days < normD.days then 1
  else if normD.nanos < normX.nanos then -1
  else if normX.nanos < normD.nanos then 1
  else 0

def addWithOverflow (a b : ℤ) : Option ℤ :=
  if 0 < b ∧ 2 ^ 63 - 1 - b < a then none
  else if b < 0 ∧ a < -2 ^ 63 - b then none
  else some (a + b)

def mulHalfPositiveWithOverflow (a b : ℤ) : Option ℤ :=
  if 0 ≤ a then if Int.tdiv (2 ^ 63 - 1) b < a then none else some (a * b)
  else if a < Int.tdiv (-2 ^ 63) b then none else some (a * b)

/-- The sort value, the months and the days. -/
def encode : Except String (ℤ × ℤ × ℤ) :=
  let total := do
    let monthNanos ← mulHalfPositiveWithOverflow d.months nanosInMonth
    let dayNanos ← mulHalfPositiveWithOverflow d.days nanosInDay
    let totalNanos ← addWithOverflow monthNanos dayNanos
    addWithOverflow totalNanos d.nanos
  match total with
  | some totalNanos => .ok (totalNanos, d.months, d.days)
  | none => .error "overflow during Encode"

/-- The total length in nanoseconds. -/
def length : ℤ := d.months * nanosInMonth + d.days * nanosInDay + d.nanos

/-! ## Durations of one sign -/

/-- The fields are 64-bit integers. -/
structure InRange : Prop where
  months : IsInt64 d.months
  days : IsInt64 d.days
  nanos : IsInt64 d.nanos

/-- The months with the whole months of the days, as far as they fit into an `int64`. -/
def wholeMonths : ℤ := max (-2 ^ 63) (min (2 ^ 63 - 1) (d.months + d.days.tdiv 30))

/-- The days that are left, with the whole days of the nanoseconds. -/
def restDays : ℤ := d.days - (d.wholeMonths - d.months) * 30 + d.nanos.tdiv nanosInDay

def carriedMonths : ℤ := d.wholeMonths + d.restDays.tdiv 30

/-- When whole units are carried, no two fields have opposite signs; and the nanoseconds do
not point back from months past the limits of an `int64`. -/
def Aligned : Prop :=
  0 ≤ d.carriedMonths ∧ 0 ≤ d.restDays.tmod 30 ∧ 0 ≤ d.nanos.tmod nanosInDay ∧
    (d.nanos < 0 → d.carriedMonths ≤ 2 ^ 63 - 1) ∨
  d.carriedMonths ≤ 0 ∧ d.restDays.tmod 30 ≤ 0 ∧ d.nanos.tmod nanosInDay ≤ 0 ∧
    (0 < d.nanos → -2 ^ 63 ≤ d.carriedMonths)

/-- Fields of one sign, without whole units that fit into the next field. -/
def Normal : Prop :=
  0 ≤ d.months ∧ 0 ≤ d.days ∧ 0 ≤ d.nanos ∧ (d.months < 2 ^ 63 - 1 → d.days < 30) ∧
    (d.months < 2 ^ 63 - 1 ∨ d.days < 2 ^ 63 - 1 → d.nanos < nanosInDay) ∨
  d.months ≤ 0 ∧ d.days ≤ 0 ∧ d.nanos ≤ 0 ∧ (-2 ^ 63 < d.months → -30 < d.days) ∧
    (-2 ^ 63 < d.months ∨ -2 ^ 63 < d.days → -nanosInDay < d.nanos)

/-- Whole units are moved from `lo` to `hi`: all of them, or as many as fit. -/
def Carries (unit hi lo hi' lo' : ℤ) : Prop :=
  lo' = lo - (hi' - hi) * unit ∧ IsInt64 hi' ∧ (hi' = hi + lo.tdiv unit ∨
    hi' = 2 ^ 63 - 1 ∧ hi ≤ hi' ∧ hi' < hi + lo.tdiv unit ∨
    hi' = -2 ^ 63 ∧ hi + lo.tdiv unit < hi' ∧ hi' ≤ hi)

lemma tdiv_cases (n k : ℤ) (hk : 0 < k) : n = n.tdiv k * k + n.tmod k ∧
    (0 ≤ n → 0 ≤ n.tdiv k ∧ 0 ≤ n.tmod k ∧ n.tmod k < k) ∧
    (n ≤ 0 → n.tdiv k ≤ 0 ∧ -k < n.tmod k ∧ n.tmod k ≤ 0) := by
  refine ⟨(Int.tdiv_mul_add_tmod n k).symm, fun h => ?_, fun h => ?_⟩
  · exact ⟨Int.tdiv_nonneg h hk.le, Int.tmod_nonneg k h, Int.tmod_lt_of_pos n hk⟩
  · have hneg := Int.neg_nonneg_of_nonpos h
    have hdiv := Int.tdiv_nonneg hneg hk.le
    have hmod := Int.tmod_nonneg k hneg
    rw [Int.neg_tdiv] at hdiv
    rw [Int.neg_tmod] at hmod
    exact ⟨by omega, Int.lt_tmod_of_pos n hk, by omega⟩

section
variable {unit hi lo : ℤ} (hunit : 0 < unit) (hhi : IsInt64 hi) (hlo : IsInt64 lo)
include hunit hhi hlo

lemma carries_shiftPos (h : 0 ≤ lo ∨ -2 ^ 63 ≤ hi + lo.tdiv unit) :
    Carries unit hi lo (shiftPos unit hi lo).1 (shiftPos unit hi lo).2 := by
  have hdiv := tdiv_cases lo unit hunit
  have habs := lo.natAbs_tdiv_le_natAbs unit
  unfold IsInt64 at *
  unfold shiftPos Carries IsInt64
  dsimp only
  rw [Int.bmod_eq_of_le (by split_ifs <;> omega) (by split_ifs <;> omega), add_sub_cancel_left]
  split_ifs <;> exact ⟨rfl, by omega, by omega⟩

lemma carries_shiftNeg (h : lo ≤ 0 ∨ hi + lo.tdiv unit ≤ 2 ^ 63 - 1) :
    Carries unit hi lo (shiftNeg unit hi lo).1 (shiftNeg unit hi lo).2 := by
  have hdiv := tdiv_cases lo unit hunit
  have habs := lo.natAbs_tdiv_le_natAbs unit
  unfold IsInt64 at *
  unfold shiftNeg Carries IsInt64
  dsimp only
  rw [Int.bmod_eq_of_le (by split_ifs <;> omega) (by split_ifs <;> omega), add_sub_cancel_left]
  split_ifs <;> exact ⟨rfl, by omega, by omega⟩

end

variable {d x}

lemma carries_shiftDays (h : d.InRange) :
    Carries 30 d.months d.days d.shiftDays.months d.shiftDays.days := by
  unfold shiftDays
  split_ifs with hpos hneg
  · exact carries_shiftPos (by decide) h.months h.days (.inl hpos.le)
  · exact carries_shiftNeg (by decide) h.months h.days (.inl hneg.le)
  · have := h.months
    simp [Carries, show d.days = 0 by omega, this]

lemma shiftDays_months (h : d.InRange) : d.shiftDays.months = d.wholeMonths := by
  obtain ⟨-, hrange, hcarry⟩ := carries_shiftDays h
  have hmonths := h.months
  unfold wholeMonths
  unfold IsInt64 at *
  omega

lemma restDays_eq (h : d.InRange) :
    d.restDays = d.shiftDays.days + d.nanos.tdiv nanosInDay := by
  rw [restDays, ← shiftDays_months h, ← (carries_shiftDays h).1]

lemma carriedMonths_eq (h : d.InRange) :
    d.carriedMonths = d.shiftDays.months + d.restDays.tdiv 30 := by
  rw [carriedMonths, shiftDays_months h]

lemma shiftDays_nanos : d.shiftDays.nanos = d.nanos := by
  unfold shiftDays
  split_ifs <;> rfl

lemma shiftDays_inRange (h : d.InRange) : d.shiftDays.InRange := by
  obtain ⟨hdays, hmonths, hcarry⟩ := carries_shiftDays h
  have hdiv := tdiv_cases d.days 30 (by decide)
  obtain ⟨h2, h3, h4⟩ := h
  refine ⟨hmonths, ?_, shiftDays_nanos (d := d) ▸ h4⟩
  unfold IsInt64 at *
  omega

/-- Unless the nanoseconds point back from months past a limit, nothing overflows. -/
lemma carries_shiftNanos (h : d.InRange)
    (hself : Carries 30 d.months d.days d.months d.days)
    (hmin : 0 < d.nanos → -2 ^ 63 ≤ d.months + (d.days + d.nanos.tdiv nanosInDay).tdiv 30)
    (hmax : d.nanos < 0 → d.months + (d.days + d.nanos.tdiv nanosInDay).tdiv 30 ≤ 2 ^ 63 - 1) :
    ∃ days, Carries nanosInDay d.days d.nanos days d.shiftNanos.nanos ∧
      Carries 30 d.months days d.shiftNanos.months d.shiftNanos.days := by
  have hdiv := tdiv_cases d.nanos nanosInDay (by decide)
  unfold shiftNanos
  split_ifs with hpos hneg
  · have hcarry := @carries_shiftPos nanosInDay _ _ (by decide) h.days h.nanos (.inl hpos.le)
    refine ⟨_, hcarry, carries_shiftPos (by decide) h.months hcarry.2.1 ?_⟩
    rcases hcarry.2.2 with hall | hall
    · exact .inr (hall ▸ hmin hpos)
    · left
      omega
  · have hcarry := @carries_shiftNeg nanosInDay _ _ (by decide) h.days h.nanos (.inl hneg.le)
    refine ⟨_, hcarry, carries_shiftNeg (by decide) h.months hcarry.2.1 ?_⟩
    rcases hcarry.2.2 with hall | hall
    · exact .inr (hall ▸ hmax hneg)
    · left
      omega
  · refine ⟨d.days, ?_, hself⟩
    have := h.days
    simp [Carries, show d.nanos = 0 by omega, this]

lemma normalize_spec (h : d.InRange) (hmin : 0 < d.nanos → -2 ^ 63 ≤ d.carriedMonths)
    (hmax : d.nanos < 0 → d.carriedMonths ≤ 2 ^ 63 - 1) :
    d.normalize.length = d.length ∧ IsInt64 d.normalize.months ∧ IsInt64 d.normalize.days ∧
    (d.normalize = ⟨d.carriedMonths, d.restDays.tmod 30, d.nanos.tmod nanosInDay⟩ ∨
      ¬ IsInt64 d.carriedMonths ∧ d.normalize.Normal) := by
  obtain ⟨h1, hmonths, h1'⟩ := carries_shiftDays h
  rw [carriedMonths_eq h, restDays_eq h] at hmin hmax ⊢
  have hdiv := tdiv_cases d.days 30 (by decide)
  have hdiv' := tdiv_cases d.shiftDays.days 30 (by decide)
  have hself : Carries 30 d.shiftDays.months d.shiftDays.days d.shiftDays.months
      d.shiftDays.days := ⟨by omega, hmonths, by omega⟩
  have hrange := shiftDays_inRange h
  obtain ⟨days, ⟨h2, hd, h2'⟩, h3, hm, h3'⟩ := carries_shiftNanos hrange hself
    (by rwa [shiftDays_nanos]) (by rwa [shiftDays_nanos])
  have hdivd := tdiv_cases days 30 (by decide)
  have hdivn := tdiv_cases d.nanos nanosInDay (by decide)
  rw [shiftDays_nanos] at h2 h2'
  rw [← normalize] at h2 h3 h3' hm
  have hlength : d.normalize.length = d.length := by
    unfold length nanosInMonth nanosInDay at *
    omega
  refine ⟨hlength, hm, by unfold IsInt64 at *; omega, ?_⟩
  unfold IsInt64 Normal at *
  rcases h2' with h2' | h2'
  · rw [← h2'] at hmin hmax ⊢
    rcases h3' with h3' | h3'
    · left
      ext <;> dsimp only <;> unfold nanosInDay at * <;> omega
    · right
      clear h1 h1' hself hdiv hdiv' hrange hlength h
      unfold nanosInDay at *
      omega
  · right
    have hdivr := tdiv_cases (d.shiftDays.days + d.nanos.tdiv nanosInDay) 30 (by decide)
    obtain ⟨-, -, hself⟩ := hself
    obtain ⟨-, -, hn⟩ := h
    unfold IsInt64 nanosInDay at *
    rcases h2' with h2' | h2'
    · have : d.shiftDays.months = 2 ^ 63 - 1 := by omega
      clear h1 h1' hself hdiv hdiv' hrange hlength hmin hmax
      omega
    · have : d.shiftDays.months = -2 ^ 63 := by omega
      clear h1 h1' hself hdiv hdiv' hrange hlength hmin hmax
      omega

section
variable (h : d.InRange) (ha : d.Aligned)
include ha in
lemma Aligned.fits : (0 < d.nanos → -2 ^ 63 ≤ d.carriedMonths) ∧
    (d.nanos < 0 → d.carriedMonths ≤ 2 ^ 63 - 1) := by
  unfold Aligned at ha
  omega

include h ha

lemma Aligned.normal : d.normalize.Normal := by
  have hnanos := tdiv_cases d.nanos nanosInDay (by decide)
  have hrest := tdiv_cases d.restDays 30 (by decide)
  obtain ⟨-, -, -, heq | heq⟩ := normalize_spec h ha.fits.1 ha.fits.2
  · rw [heq]
    unfold Aligned at ha
    unfold Normal
    dsimp only
    omega
  · exact heq.2

lemma compare_eq (hx : x.InRange) (hax : x.Aligned) :
    d.compare x = (d.length - x.length).sign := by
  have hd := ha.normal h
  have hx' := hax.normal hx
  obtain ⟨hlength, hmonths, hdays, -⟩ := normalize_spec h ha.fits.1 ha.fits.2
  obtain ⟨hlength', hmonths', hdays', -⟩ := normalize_spec hx hax.fits.1 hax.fits.2
  rw [← hlength, ← hlength']
  unfold IsInt64 at *
  unfold Normal at hd hx'
  unfold compare length nanosInMonth
  unfold nanosInDay at *
  dsimp only
  split_ifs
  all_goals first
    | rw [Int.sign_eq_neg_one_of_neg (by omega)]
    | rw [Int.sign_eq_one_of_pos (by omega)]
    | rw [Int.sign_eq_zero_iff_zero.mpr (by omega)]

end

lemma addWithOverflow_eq {a b r : ℤ} (h : addWithOverflow a b = some r) : r = a + b := by
  unfold addWithOverflow at h
  split_ifs at h
  exact (Option.some.inj h).symm

lemma mulHalfPositiveWithOverflow_eq {a b r : ℤ}
    (h : mulHalfPositiveWithOverflow a b = some r) : r = a * b := by
  unfold mulHalfPositiveWithOverflow at h
  split_ifs at h <;> exact (Option.some.inj h).symm

lemma sort_eq {s : ℤ × ℤ × ℤ} (h : d.encode = .ok s) : s.1 = d.length := by
  unfold encode at h
  dsimp only at h
  split at h
  · rename_i total htotal
    obtain ⟨a, ha, htotal⟩ := Option.bind_eq_some_iff.mp htotal
    obtain ⟨b, hb, htotal⟩ := Option.bind_eq_some_iff.mp htotal
    obtain ⟨c, hc, htotal⟩ := Option.bind_eq_some_iff.mp htotal
    cases h
    rw [addWithOverflow_eq htotal, addWithOverflow_eq hc, mulHalfPositiveWithOverflow_eq hb,
      mulHalfPositiveWithOverflow_eq ha, length]
  · cases h

/-! ## Durations of opposite signs -/

lemma length_shiftPos {unit hi lo : ℤ} (hhi : IsInt64 hi) (hle : lo.tdiv unit ≤ 0)
    (hmin : -2 ^ 64 ≤ hi + lo.tdiv unit) (hlt : hi + lo.tdiv unit < -2 ^ 63) :
    (shiftPos unit hi lo).1 = hi + lo.tdiv unit + 2 ^ 64 ∧
      (shiftPos unit hi lo).2 = lo - lo.tdiv unit * unit := by
  obtain ⟨hlow, hhigh⟩ := hhi
  have hmoved : min (lo.tdiv unit) (if 0 < hi then 2 ^ 63 - 1 - hi else 2 ^ 63 - 1) =
      lo.tdiv unit := by
    split_ifs <;> omega
  unfold shiftPos
  dsimp only
  rw [hmoved, Int.bmod]
  refine ⟨?_, rfl⟩
  split_ifs <;> omega

lemma length_shiftNeg {unit hi lo : ℤ} (hhi : IsInt64 hi) (hle : 0 ≤ lo.tdiv unit)
    (hmax : hi + lo.tdiv unit < 2 ^ 64) (hlt : 2 ^ 63 ≤ hi + lo.tdiv unit) :
    (shiftNeg unit hi lo).1 = hi + lo.tdiv unit - 2 ^ 64 ∧
      (shiftNeg unit hi lo).2 = lo - lo.tdiv unit * unit := by
  obtain ⟨hlow, hhigh⟩ := hhi
  have hmoved : max (lo.tdiv unit) (if hi < 0 then -2 ^ 63 - hi else -2 ^ 63) =
      lo.tdiv unit := by
    split_ifs <;> omega
  unfold shiftNeg
  dsimp only
  rw [hmoved, Int.bmod]
  refine ⟨?_, rfl⟩
  split_ifs <;> omega

section
variable (h : d.InRange)
include h

lemma length_shiftDays : d.shiftDays.length = d.length := by
  have hcarry := (carries_shiftDays h).1
  have hnanos := shiftDays_nanos (d := d)
  unfold length nanosInMonth nanosInDay
  omega

lemma length_normalize_of_pos (hpos : 0 < d.nanos) (hwrap : d.carriedMonths < -2 ^ 63) :
    d.normalize.length = d.length + 2 ^ 64 * nanosInMonth := by
  have hrange := shiftDays_inRange h
  have hnanos := shiftDays_nanos (d := d)
  have hdiv := tdiv_cases d.nanos nanosInDay (by decide)
  have hrest := restDays_eq h
  have hdivr := tdiv_cases d.restDays 30 (by decide)
  rw [carriedMonths_eq h] at hwrap
  rw [← length_shiftDays h, normalize, shiftNanos, if_pos (hnanos ▸ hpos)]
  obtain ⟨hmonths, hdays, hn⟩ := hrange
  obtain ⟨h1, hd, h1'⟩ := carries_shiftPos (by decide : 0 < nanosInDay) hdays hn
    (.inl (hnanos ▸ hpos.le))
  have hcarry : (shiftPos nanosInDay d.shiftDays.days d.shiftDays.nanos).1 = d.restDays := by
    rw [hnanos] at h1' ⊢
    unfold IsInt64 at *
    omega
  rw [hcarry] at h1
  obtain ⟨h2, h3⟩ := @length_shiftPos 30 _ d.restDays hmonths (by unfold IsInt64 at *; omega)
    (by unfold IsInt64 at *; omega) hwrap
  unfold shiftPosDaysToMonths shiftPosNanosToDays length
  dsimp only
  rw [hcarry, h1, h2, h3]
  unfold nanosInMonth nanosInDay
  omega

lemma length_normalize_of_neg (hneg : d.nanos < 0) (hwrap : 2 ^ 63 - 1 < d.carriedMonths) :
    d.normalize.length = d.length - 2 ^ 64 * nanosInMonth := by
  have hrange := shiftDays_inRange h
  have hnanos := shiftDays_nanos (d := d)
  have hdiv := tdiv_cases d.nanos nanosInDay (by decide)
  have hrest := restDays_eq h
  have hdivr := tdiv_cases d.restDays 30 (by decide)
  rw [carriedMonths_eq h] at hwrap
  rw [← length_shiftDays h, normalize, shiftNanos, if_neg (hnanos ▸ hneg.not_gt),
    if_pos (hnanos ▸ hneg)]
  obtain ⟨hmonths, hdays, hn⟩ := hrange
  obtain ⟨h1, hd, h1'⟩ := carries_shiftNeg (by decide : 0 < nanosInDay) hdays hn
    (.inl (hnanos ▸ hneg.le))
  have hcarry : (shiftNeg nanosInDay d.shiftDays.days d.shiftDays.nanos).1 = d.restDays := by
    rw [hnanos] at h1' ⊢
    unfold IsInt64 at *
    omega
  rw [hcarry] at h1
  obtain ⟨h2, h3⟩ := @length_shiftNeg 30 _ d.restDays hmonths (by unfold IsInt64 at *; omega)
    (by unfold IsInt64 at *; omega) (by omega)
  unfold shiftNegDaysToMonths shiftNegNanosToDays length
  dsimp only
  rw [hcarry, h1, h2, h3]
  unfold nanosInMonth nanosInDay
  omega

/-- Only fields that agree in sign keep their length in a normal form of one sign. -/
lemma aligned_of_normal (hnormal : d.normalize.Normal) (hlength : d.normalize.length = d.length) :
    d.Aligned := by
  have hmin : 0 < d.nanos → -2 ^ 63 ≤ d.carriedMonths := by
    intro hpos
    by_contra hwrap
    rw [length_normalize_of_pos h hpos (not_le.mp hwrap)] at hlength
    unfold nanosInMonth nanosInDay at hlength
    omega
  have hmax : d.nanos < 0 → d.carriedMonths ≤ 2 ^ 63 - 1 := by
    intro hneg
    by_contra hwrap
    rw [length_normalize_of_neg h hneg (not_le.mp hwrap)] at hlength
    unfold nanosInMonth nanosInDay at hlength
    omega
  have hnanos := tdiv_cases d.nanos nanosInDay (by decide)
  have hrest := tdiv_cases d.restDays 30 (by decide)
  have hmonths := (shiftDays_inRange h).months
  obtain ⟨-, -, -, heq | ⟨hlimit, -⟩⟩ := normalize_spec h hmin hmax
  · rw [heq] at hnormal
    unfold Normal at hnormal
    unfold Aligned
    dsimp only at hnormal
    omega
  · rw [carriedMonths_eq h] at hlimit hmin hmax
    unfold Aligned
    rw [carriedMonths_eq h]
    unfold IsInt64 at *
    omega

end

lemma aligned_of_nonneg (hm : 0 ≤ d.months) (hd : 0 ≤ d.days) (hn : 0 ≤ d.nanos) : d.Aligned := by
  have hdays := tdiv_cases d.days 30 (by decide)
  have hrest := tdiv_cases d.restDays 30 (by decide)
  have hnanos := tdiv_cases d.nanos nanosInDay (by decide)
  have hnonneg : 0 ≤ d.wholeMonths ∧ 0 ≤ d.restDays := by
    unfold restDays wholeMonths
    omega
  unfold Aligned carriedMonths
  omega

lemma aligned_of_nonpos (hm : d.months ≤ 0) (hd : d.days ≤ 0) (hn : d.nanos ≤ 0) : d.Aligned := by
  have hdays := tdiv_cases d.days 30 (by decide)
  have hrest := tdiv_cases d.restDays 30 (by decide)
  have hnanos := tdiv_cases d.nanos nanosInDay (by decide)
  have hnonpos : d.wholeMonths ≤ 0 ∧ d.restDays ≤ 0 := by
    unfold restDays wholeMonths
    omega
  unfold Aligned carriedMonths
  omega

/-- As many months of a length as fit, then as many days, and the rest in nanoseconds. -/
def ofLength (n : ℤ) : Duration :=
  if 0 ≤ n then
    let months := min (n / nanosInMonth) (2 ^ 63 - 1)
    let days := min ((n - months * nanosInMonth) / nanosInDay) (2 ^ 63 - 1)
    ⟨months, days, n - months * nanosInMonth - days * nanosInDay⟩
  else
    let months := max (-(-n / nanosInMonth)) (-2 ^ 63)
    let days := max (-(-(n - months * nanosInMonth) / nanosInDay)) (-2 ^ 63)
    ⟨months, days, n - months * nanosInMonth - days * nanosInDay⟩

lemma length_ofLength (n : ℤ) : (ofLength n).length = n := by
  unfold ofLength length nanosInMonth nanosInDay
  split_ifs <;> dsimp only <;> omega

lemma ofLength_spec (h : d.InRange) : (ofLength d.length).InRange ∧ (ofLength d.length).Aligned := by
  obtain ⟨hm, hd, hn⟩ := h
  unfold IsInt64 at *
  have hlength : d.length = d.months * nanosInMonth + d.days * nanosInDay + d.nanos := rfl
  generalize d.length = n at *
  unfold ofLength
  unfold nanosInMonth nanosInDay at *
  split_ifs with hnonneg
  · refine ⟨⟨?_, ?_, ?_⟩, aligned_of_nonneg ?_ ?_ ?_⟩
    all_goals
      dsimp only [IsInt64]
      omega
  · refine ⟨⟨?_, ?_, ?_⟩, aligned_of_nonpos ?_ ?_ ?_⟩
    all_goals
      dsimp only [IsInt64]
      omega

lemma normalize_eq_of_compare (h : d.compare x = 0) : d.normalize = x.normalize := by
  unfold compare at h
  dsimp only at h
  split_ifs at h <;> first | omega | (ext <;> omega)

/-- A duration whose fields do not agree in sign is told apart from one of its length. -/
lemma aligned_of_compare (h : d.InRange)
    (hcompare : ∀ x : Duration, x.InRange → x.Aligned → d.compare x = (d.length - x.length).sign)
    : d.Aligned := by
  obtain ⟨hrange, haligned⟩ := ofLength_spec h
  have hzero := hcompare _ hrange haligned
  rw [length_ofLength, sub_self, Int.sign_zero] at hzero
  have heq := normalize_eq_of_compare hzero
  refine aligned_of_normal h (heq ▸ haligned.normal hrange) ?_
  rw [heq, (normalize_spec hrange haligned.fits.1 haligned.fits.2).1, length_ofLength]

/-- A duration is compared by length with those whose fields agree in sign if and only if its own
fields do. -/
theorem compare_by_length (h : d.InRange) :
    (d.Aligned ↔ ∀ x : Duration, x.InRange → x.Aligned →
      d.compare x = (d.length - x.length).sign) ∧
    (d.Aligned → d.normalize.length = d.length ∧ ∀ x : Duration, x.InRange → x.Aligned →
      (d.compare x ≤ 0 ↔ d.length ≤ x.length) ∧
      ∀ s t, d.encode = .ok s → x.encode = .ok t → d.compare x = (s.1 - t.1).sign) := by
  refine ⟨⟨fun ha x hx hax => compare_eq h ha hx hax, aligned_of_compare h⟩, fun ha => ?_⟩
  refine ⟨(normalize_spec h ha.fits.1 ha.fits.2).1, fun x hx hax => ⟨?_, fun s t hs ht => ?_⟩⟩
  · rw [compare_eq h ha hx hax, Int.sign_nonpos_iff, sub_nonpos]
  · rw [sort_eq hs, sort_eq ht, compare_eq h ha hx hax]

theorem compare_by_length_month : compare ⟨0, 29, nanosInDay⟩ ⟨1, 0, 0⟩ = 0 := by
  refine ((compare_by_length ⟨?_, ?_, ?_⟩).1.mp ?_ ⟨1, 0, 0⟩ ⟨?_, ?_, ?_⟩ ?_).trans (by decide)
  all_goals
    dsimp only [IsInt64, Aligned]
    decide

/-- A month less 29 days counts as more than two days, against the sort values. -/
theorem compare_opposite_signs : compare ⟨1, -29, 0⟩ ⟨0, 2, 0⟩ = 1 ∧
    encode ⟨1, -29, 0⟩ = .ok (nanosInDay, 1, -29) ∧
    encode ⟨0, 2, 0⟩ = .ok (2 * nanosInDay, 0, 2) := by
  decide

end Duration
end MeshDB
