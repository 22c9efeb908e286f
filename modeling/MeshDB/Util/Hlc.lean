import Mathlib.Algebra.Order.Ring.Int
import Mathlib.Data.Prod.Lex

/-!
# Hybrid logical clock timestamps

The `Timestamp` of `util/hlc`. Its order looks at the wall time and the logical
counter and ignores the synthetic flag.
-/
namespace MeshDB.Hlc

open Prod.Lex

/-- The value of a signed integer type with a number of bits. -/
def wrapInt (bits : ℕ) (n : Int) : Int := n.bmod (2 ^ bits)

structure Timestamp where
  wallTime : Int := 0
  logical : Int := 0
  synthetic : Bool := false
deriving DecidableEq, Inhabited

namespace Timestamp

def eqOrdering (t s : Timestamp) : Bool :=
  t.wallTime == s.wallTime && t.logical == s.logical

def less (t s : Timestamp) : Bool :=
  t.wallTime < s.wallTime || (t.wallTime == s.wallTime && t.logical < s.logical)

def lessEq (t s : Timestamp) : Bool :=
  t.wallTime < s.wallTime || (t.wallTime == s.wallTime && t.logical ≤ s.logical)

def isEmpty (t : Timestamp) : Bool :=
  t.wallTime == 0 && t.logical == 0 && !t.synthetic

def forward (t s : Timestamp) : Timestamp :=
  if t.less s then s
  else if t.eqOrdering s then { t with synthetic := t.synthetic && s.synthetic }
  else t

def backward (t s : Timestamp) : Timestamp :=
  { (if s.less t then s else t) with synthetic := t.synthetic && s.synthetic }

def maxInt32 : Int := 2 ^ 31 - 1

def maxInt64 : Int := 2 ^ 63 - 1

/-- `Next`, which panics at the largest timestamp. -/
def next (t : Timestamp) : Option Timestamp :=
  if t.logical = maxInt32 then
    if t.wallTime = maxInt64 then none
    else some { t with wallTime := t.wallTime + 1, logical := 0 }
  else some { t with logical := t.logical + 1 }

/-- `Prev`, which panics at a zero timestamp. -/
def prev (t : Timestamp) : Option Timestamp :=
  if 0 < t.logical then some { t with logical := t.logical - 1 }
  else if 0 < t.wallTime then some { t with wallTime := t.wallTime - 1, logical := maxInt32 }
  else none

/-- `FloorPrev`: one logical tick back, or else the wall time before without ticks. It panics at
a zero timestamp. -/
def floorPrev (t : Timestamp) : Option Timestamp :=
  if 0 < t.logical then some { t with logical := t.logical - 1 }
  else if 0 < t.wallTime then some { t with wallTime := t.wallTime - 1, logical := 0 }
  else none

def ord (t : Timestamp) : Int ×ₗ Int := toLex (t.wallTime, t.logical)

variable {t s r c : Timestamp}

lemma less_iff : t.less s ↔ t.ord < s.ord := by
  simp [less, ord, toLex_lt_toLex]

lemma lessEq_iff : t.lessEq s ↔ t.ord ≤ s.ord := by
  simp [lessEq, ord, toLex_le_toLex]

lemma eqOrdering_iff : t.eqOrdering s ↔ t.ord = s.ord := by
  simp [eqOrdering, ord]

lemma not_less_iff : t.less s = false ↔ s.ord ≤ t.ord := by
  rw [← Bool.not_eq_true, less_iff, not_lt]

lemma not_lessEq_iff : t.lessEq s = false ↔ s.ord < t.ord := by
  rw [← Bool.not_eq_true, lessEq_iff, not_le]

lemma ord_forward : (t.forward s).ord = max t.ord s.ord := by
  rw [forward]
  split_ifs with hlt heq
  · exact (max_eq_right (less_iff.mp hlt).le).symm
  · rw [← eqOrdering_iff.mp heq, max_self]
    rfl
  · exact (max_eq_left (not_less_iff.mp (Bool.not_eq_true _ ▸ hlt))).symm

lemma ord_backward : (t.backward s).ord = min t.ord s.ord := by
  unfold backward
  by_cases h : s.less t
  · rw [if_pos h]
    exact (min_eq_right (less_iff.mp h).le).symm
  rw [if_neg h]
  exact (min_eq_left (not_less_iff.mp (Bool.not_eq_true _ ▸ h))).symm

/-! ## Wall times below a timestamp -/

def wallBelow (t : Timestamp) : Int := if 0 < t.logical then t.wallTime else t.wallTime - 1

lemma ord_lt_iff : t.ord < s.ord ↔
    t.wallTime < s.wallTime ∨ t.wallTime = s.wallTime ∧ t.logical < s.logical := by
  simp [ord, toLex_lt_toLex]

lemma ord_le_iff : t.ord ≤ s.ord ↔
    t.wallTime < s.wallTime ∨ t.wallTime = s.wallTime ∧ t.logical ≤ s.logical := by
  simp [ord, toLex_le_toLex]

lemma ord_lt_next (h : t.next = some s) : t.ord < s.ord := by
  rw [ord_lt_iff]
  unfold next at h
  split_ifs at h <;> cases h <;> simp

lemma floorPrev_ord_lt (h : t.floorPrev = some s) : s.ord < t.ord := by
  rw [ord_lt_iff]
  unfold floorPrev at h
  split_ifs at h <;> cases h <;> simp

lemma lt_iff_le_wallBelow (h : r.logical = 0) : r.ord < t.ord ↔ r.wallTime ≤ t.wallBelow := by
  rw [ord_lt_iff, wallBelow, h]
  split_ifs <;> omega

lemma wallBelow_mono (h : t.ord ≤ s.ord) : t.wallBelow ≤ s.wallBelow := by
  rw [ord_le_iff] at h
  unfold wallBelow
  split_ifs <;> omega

lemma wallBelow_congr (h : t.ord = s.ord) : t.wallBelow = s.wallBelow :=
  (wallBelow_mono h.le).antisymm (wallBelow_mono h.ge)

lemma wallBelow_le_forward (t s : Timestamp) : t.wallBelow ≤ (t.forward s).wallBelow := by
  apply wallBelow_mono
  rw [ord_forward]
  exact le_max_left _ _

lemma ord_le_of_wallTime_le (hr : r.logical = 0) (hc : 0 ≤ c.logical)
    (h : r.wallTime ≤ c.wallTime) : r.ord ≤ c.ord := by
  rw [ord_le_iff, hr]
  omega

lemma wallTime_le_of_ord_le (h : t.ord ≤ s.ord) : t.wallTime ≤ s.wallTime := by
  rw [ord_le_iff] at h
  omega

lemma exists_prev (h : 0 ≤ t.wallBelow) : ∃ p, t.prev = some p ∧ p.wallTime = t.wallBelow := by
  unfold wallBelow at h ⊢
  unfold prev
  split_ifs at h ⊢ with hl hw
  · exact ⟨_, rfl, rfl⟩
  · exact ⟨_, rfl, rfl⟩
  · omega

lemma wallTime_backward (c p : Timestamp) :
    (c.backward p).wallTime = min c.wallTime p.wallTime := by
  unfold backward
  by_cases h : p.less c
  · rw [if_pos h]
    exact (min_eq_right (wallTime_le_of_ord_le (less_iff.mp h).le)).symm
  rw [if_neg h]
  rw [Bool.not_eq_true, not_less_iff] at h
  exact (min_eq_left (wallTime_le_of_ord_le h)).symm

end Timestamp
end MeshDB.Hlc
