import Mathlib.Order.Lattice
import Mathlib.Tactic.Common

/-!
# Binary search

The search of a sorting library for the first index at which a test succeeds, for a test
that stays true once it is true.
-/
open List Option
namespace BinarySearch

/-- The loop of the search, with enough fuel for the distance of its bounds. -/
def searchLoop (f : ℕ → Bool) : ℕ → ℕ → ℕ → ℕ
  | 0, i, _ => i
  | fuel + 1, i, j =>
    if i < j then
      let h := (i + j) / 2
      if !f h then searchLoop f fuel (h + 1) j else searchLoop f fuel i h
    else i

def search (n : ℕ) (f : ℕ → Bool) : ℕ := searchLoop f n 0 n

/-- The test fails before the result and succeeds at it. This holds for any test. -/
structure Found (n : ℕ) (f : ℕ → Bool) (r : ℕ) : Prop where
  le : r ≤ n
  before : ∀ i, i + 1 = r → f i = false
  here : r < n → f r

variable {n i : ℕ} {f : ℕ → Bool}

lemma searchLoop_found {fuel j : ℕ} (hfuel : j - i ≤ fuel)
    (hij : i ≤ j) (hj : j ≤ n) (hbefore : ∀ m, m + 1 = i → f m = false)
    (hhere : j < n → f j) : Found n f (searchLoop f fuel i j) := by
  induction fuel generalizing i j with
  | zero =>
    have heq : i = j := by omega
    subst heq
    exact ⟨hj, hbefore, hhere⟩
  | succ fuel ih =>
    rw [searchLoop]
    dsimp only
    split_ifs with hlt hf
    · apply ih
      · omega
      · omega
      · exact hj
      · intro m hm
        have heq : m = (i + j) / 2 := by omega
        subst heq
        simpa using hf
      · exact hhere
    · apply ih
      · omega
      · omega
      · omega
      · exact hbefore
      intro _
      simpa using hf
    · have heq : i = j := by omega
      subst heq
      exact ⟨hj, hbefore, hhere⟩

lemma search_found (n : ℕ) (f : ℕ → Bool) : Found n f (search n f) := by
  apply searchLoop_found
  · omega
  · omega
  · omega
  · intro m hm
    omega
  · intro h
    omega

/-- A test that stays true succeeds exactly from the result of the search on. -/
lemma search_le_iff (hmono : ∀ i j, i ≤ j → j < n → f i → f j)
    (hi : i < n) : search n f ≤ i ↔ f i := by
  have hfound := search_found n f
  constructor
  · intro hle
    exact hmono _ i hle hi (hfound.here (by omega))
  intro htrue
  by_contra hlt
  have hlast : f (search n f - 1) = false := hfound.before _ (by omega)
  have hle : search n f ≤ n := hfound.le
  have := hmono i (search n f - 1) (by omega) (by omega) htrue
  rw [hlast] at this
  cases this

/-! ## Searching a list -/

variable {α : Type*} {l : List α} {p : α → Bool}

/-- The position of the first element that passes the test. -/
def searchList (l : List α) (p : α → Bool) : ℕ := search l.length fun i => (l[i]?).any p

variable {a : α}

/-- The last element is the largest one of a list in ascending order. -/
lemma getLast?_eq_some_iff {β : Type*} [LinearOrder β] {f : α → β}
    (h : l.Pairwise fun a b => f a < f b) :
    l.getLast? = some a ↔ a ∈ l ∧ ∀ b ∈ l, f b ≤ f a := by
  obtain rfl | ⟨init, last, rfl⟩ := l.eq_nil_or_concat
  · simp
  rw [concat_eq_append] at h ⊢
  have hlast : ∀ b ∈ init, f b < f last := by
    intro b hb
    exact (pairwise_append.mp h).2.2 b hb last (.head _)
  rw [getLast?_concat, some_inj]
  constructor
  · rintro rfl
    refine ⟨by simp, fun b hb => ?_⟩
    rcases mem_append.mp hb with hb | hb
    · exact le_of_lt (hlast b hb)
    · rw [mem_singleton.mp hb]
  rintro ⟨ha, hmax⟩
  rcases mem_append.mp ha with ha | ha
  · exact absurd (hlast a ha) (not_lt.mpr (hmax last (by simp)))
  · exact (mem_singleton.mp ha).symm

variable (h : l.Pairwise fun a b => p a → p b)
include h

lemma searchList_le_iff (hi : i < l.length) : searchList l p ≤ i ↔ p l[i] := by
  have hget : ∀ j (hj : j < l.length), (l[j]?).any p = p l[j] := by
    intro j hj
    rw [List.getElem?_eq_getElem hj, any_some]
  rw [searchList, search_le_iff _ hi, hget i hi]
  intro j k hjk hk htrue
  rw [hget j (by omega)] at htrue
  rw [hget k hk]
  rcases Nat.eq_or_lt_of_le hjk with rfl | hlt
  · exact htrue
  · exact pairwise_iff_getElem.mp h j k (by omega) hk hlt htrue

lemma of_mem_drop_searchList (ha : a ∈ l.drop (searchList l p)) : p a := by
  obtain ⟨i, hi, rfl⟩ := getElem_of_mem ha
  rw [length_drop] at hi
  rw [getElem_drop, ← searchList_le_iff h (by omega)]
  omega

/-- What comes before the position fails the test and the rest passes it. -/
lemma take_searchList : l.take (searchList l p) = l.filter (fun a => !p a) := by
  have htake : ∀ a ∈ l.take (searchList l p), (!p a) := by
    intro a ha
    obtain ⟨i, hi, rfl⟩ := getElem_of_mem ha
    rw [length_take] at hi
    rw [getElem_take, Bool.not_eq_true', Bool.eq_false_iff, Ne, ← searchList_le_iff h (by omega)]
    omega
  have hdrop : ∀ a ∈ l.drop (searchList l p), ¬ (!p a) := by
    intro a ha
    simp [of_mem_drop_searchList h ha]
  conv_rhs => rw [← take_append_drop (searchList l p) l, filter_append,
    filter_eq_self.mpr htake, filter_eq_nil_iff.mpr hdrop, append_nil]

lemma drop_searchList : l.drop (searchList l p) = l.filter p := by
  have htake := take_searchList h
  have hsplit := take_append_drop (searchList l p) l
  have hnone : (l.take (searchList l p)).filter p = [] := by
    rw [htake, List.filter_filter]
    simp
  conv_rhs => rw [← hsplit, filter_append, hnone, nil_append,
    filter_eq_self.mpr fun _ => of_mem_drop_searchList h]

/-- The search finds the first element that passes the test. -/
lemma getElem?_searchList : l[searchList l p]? = l.find? p := by
  have htake := take_searchList h
  have hsplit : l.find? p = (l.drop (searchList l p)).find? p := by
    conv_lhs => rw [← take_append_drop (searchList l p) l, find?_append, htake]
    have hnone : (l.filter fun a => !p a).find? p = none := by
      rw [find?_eq_none]
      intro a ha
      simpa using (mem_filter.mp ha).2
    rw [hnone, none_or]
  rw [hsplit]
  by_cases hlt : searchList l p < l.length
  · rw [List.getElem?_eq_getElem hlt, drop_eq_getElem_cons hlt,
      find?_cons_of_pos ((searchList_le_iff h hlt).mp le_rfl)]
  rw [List.getElem?_eq_none (by omega), drop_eq_nil_of_le (by omega)]
  rfl

/-- A linear search finds the same position. -/
lemma searchList_eq_findIdx : searchList l p = l.findIdx p := by
  have hle : searchList l p ≤ l.length := (search_found _ _).le
  apply le_antisymm
  · by_cases hlt : l.findIdx p < l.length
    · exact (searchList_le_iff h hlt).mpr findIdx_getElem
    · omega
  by_contra hlt
  have hlen : searchList l p < l.length := by
    have := @findIdx_le_length _ p l
    omega
  have hfalse : p l[searchList l p] = false := not_of_lt_findIdx (not_le.mp hlt)
  rw [(searchList_le_iff h hlen).mp le_rfl] at hfalse
  cases hfalse

end BinarySearch
