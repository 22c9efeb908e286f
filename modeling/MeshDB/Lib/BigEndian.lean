import Mathlib.Data.List.Induction
import Mathlib.Data.List.Lex
import Mathlib.Tactic.Ring

/-!
# Big-endian byte encodings

A natural number as bytes of a fixed width, most significant first. The lexicographic order of
the bytes is the order of the numbers.
-/
open List
namespace BigEndian

/-! ## Comparing lists -/

variable {α : Type*} [Ord α]

lemma compare_cons (a b : α) (l m : List α) :
    compare (a :: l) (b :: m) = (compare a b).then (compare l m) := by
  show List.compareLex compare (a :: l) (b :: m) = _
  rw [List.compareLex]
  cases compare a b <;> rfl

/-- Lists of one length are compared before what follows them. -/
lemma compare_append {l m : List α} (h : l.length = m.length) (l' m' : List α) :
    compare (l ++ l') (m ++ m') = (compare l m).then (compare l' m') := by
  induction l generalizing m with
  | nil =>
    rw [length_nil, eq_comm, length_eq_zero_iff] at h
    subst h
    rfl
  | cons a l ih =>
    cases m with
    | nil => simp at h
    | cons b m =>
      have hlen : l.length = m.length := by simpa using h
      rw [cons_append, cons_append, compare_cons, compare_cons, ih hlen, Ordering.then_assoc]

lemma compare_eq_lt_iff {β : Type*} [LinearOrder β] {l m : List β} :
    List.compareLex compare l m = .lt ↔ l < m := by
  induction l generalizing m with
  | nil =>
    cases m with
    | nil => simp [List.compareLex]
    | cons b m => simp [List.compareLex]
  | cons a l ih =>
    cases m with
    | nil => simp [List.compareLex]
    | cons b m =>
      have hcons : List.compareLex compare (a :: l) (b :: m) =
          (compare a b).then (List.compareLex compare l m) := compare_cons a b l m
      rw [hcons, Ordering.then_eq_lt, compare_lt_iff_lt, compare_eq_iff_eq, ih, cons_lt_cons_iff]

/-! ## Encodings -/

/-- The big-endian bytes of a number in a width. -/
def toBytes : ℕ → ℕ → List (Fin 256)
  | 0, _ => []
  | w + 1, n => toBytes w (n / 256) ++ [Fin.ofNat 256 n]

/-- The number with the given bytes. -/
def ofBytes (l : List (Fin 256)) : ℕ := l.foldl (fun n b => 256 * n + b.val) 0

@[simp] lemma length_toBytes (w n : ℕ) : (toBytes w n).length = w := by
  induction w generalizing n with
  | zero => rfl
  | succ w ih => simp [toBytes, ih]

lemma ofBytes_concat (l : List (Fin 256)) (b : Fin 256) :
    ofBytes (l ++ [b]) = 256 * ofBytes l + b.val := by
  simp [ofBytes]

lemma ofBytes_lt (l : List (Fin 256)) : ofBytes l < 256 ^ l.length := by
  induction l using List.reverseRecOn with
  | nil => simp [ofBytes]
  | append_singleton l b ih =>
    rw [ofBytes_concat, length_append, length_singleton, pow_succ]
    omega

lemma ofBytes_toBytes {w n : ℕ} (h : n < 256 ^ w) : ofBytes (toBytes w n) = n := by
  induction w generalizing n with
  | zero =>
    have : n = 0 := by simpa using h
    subst this
    rfl
  | succ w ih =>
    have hdiv : n / 256 < 256 ^ w := by
      rw [pow_succ] at h
      exact Nat.div_lt_of_lt_mul (by omega)
    rw [toBytes, ofBytes_concat, ih hdiv]
    simp only [Fin.val_ofNat]
    omega

lemma compare_div_mod (m n : ℕ) :
    compare m n = (compare (m / 256) (n / 256)).then (compare (m % 256) (n % 256)) := by
  rcases lt_trichotomy (m / 256) (n / 256) with h | h | h
  · rw [compare_lt_iff_lt.mpr h, compare_lt_iff_lt.mpr (show m < n by omega)]
    rfl
  · rw [compare_eq_iff_eq.mpr h]
    show compare m n = compare (m % 256) (n % 256)
    rcases lt_trichotomy (m % 256) (n % 256) with h' | h' | h'
    · rw [compare_lt_iff_lt.mpr h', compare_lt_iff_lt.mpr (by omega)]
    · rw [compare_eq_iff_eq.mpr h', compare_eq_iff_eq.mpr (by omega)]
    · rw [compare_gt_iff_gt.mpr h', compare_gt_iff_gt.mpr (by omega)]
  · rw [compare_gt_iff_gt.mpr h, compare_gt_iff_gt.mpr (show n < m by omega)]
    rfl

lemma compare_toBytes {w m n : ℕ} (hm : m < 256 ^ w) (hn : n < 256 ^ w) :
    compare (toBytes w m) (toBytes w n) = compare m n := by
  induction w generalizing m n with
  | zero =>
    have hm0 : m = 0 := by simpa using hm
    have hn0 : n = 0 := by simpa using hn
    subst hm0 hn0
    rfl
  | succ w ih =>
    have hlast : compare (Fin.ofNat 256 m) (Fin.ofNat 256 n) = compare (m % 256) (n % 256) := rfl
    rw [toBytes, toBytes, compare_append (by simp),
      ih (Nat.div_lt_of_lt_mul (by omega)) (Nat.div_lt_of_lt_mul (by omega)),
      compare_div_mod m n, compare_cons, hlast]
    congr 1
    exact Ordering.then_eq

end BigEndian
