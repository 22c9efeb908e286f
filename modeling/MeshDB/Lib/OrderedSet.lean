import Mathlib.Order.Lattice
import Mathlib.Data.List.Pairwise

/-!
# Ordered sets keyed by a linear order

An ordered set of items is the list of its items in strictly increasing order of
their keys. `set` puts an item in, in the place of an item with an equal key,
and `delete` takes out the item with a given item's key.
-/
open List
namespace OrderedSet

variable {ι κ : Type*} [LinearOrder κ] (key : ι → κ)

/-- The items stand in strictly increasing order of their keys. -/
def Sorted (l : List ι) : Prop := l.Pairwise fun a b => key a < key b

/-- Puts `x` in, replacing an item with the same key. -/
def set (x : ι) : List ι → List ι
  | [] => [x]
  | y :: ys =>
    if key x < key y then x :: y :: ys
    else if key x = key y then x :: ys
    else y :: set x ys

/-- Takes out the item with the key of `x`, if there is one. -/
def delete (x : ι) : List ι → List ι
  | [] => []
  | y :: ys => if key x = key y then ys else y :: delete x ys

variable {key}

@[simp] lemma sorted_nil : Sorted key ([] : List ι) := List.Pairwise.nil

variable {x z : ι} {l : List ι}

lemma sorted_cons :
    Sorted key (x :: l) ↔ (∀ y ∈ l, key x < key y) ∧ Sorted key l := pairwise_cons

lemma Sorted.nodup (h : Sorted key l) : l.Nodup :=
  h.imp fun hlt heq => by
    subst heq
    exact lt_irrefl _ hlt

/-- A sorted list is determined by its elements. -/
lemma Sorted.ext {l' : List ι} (h : Sorted key l) (h' : Sorted key l')
    (hmem : ∀ x, x ∈ l ↔ x ∈ l') : l = l' := by
  refine ((List.perm_ext_iff_of_nodup h.nodup h'.nodup).mpr hmem).eq_of_pairwise ?_ h h'
  intro a b _ _ hab hba
  exact absurd hab hba.not_gt

/-- The items are told apart by their keys. -/
lemma Sorted.eq_of_key_eq (h : Sorted key l) {y : ι} (hx : x ∈ l) (hy : y ∈ l)
    (hk : key x = key y) : x = y := by
  induction l with
  | nil => cases hx
  | cons z zs ih =>
    obtain ⟨hz, hzs⟩ := sorted_cons.mp h
    rcases mem_cons.mp hx with rfl | hxs
    · rcases mem_cons.mp hy with rfl | hys
      · rfl
      · exact absurd hk (hz y hys).ne
    rcases mem_cons.mp hy with rfl | hys
    · exact absurd hk (hz x hxs).ne'
    · exact ih hzs hxs hys

lemma mem_set (h : Sorted key l) : z ∈ set key x l ↔ z = x ∨ (z ∈ l ∧ key z ≠ key x) := by
  induction l with
  | nil => simp [set]
  | cons y ys ih =>
    obtain ⟨hy, hys⟩ := sorted_cons.mp h
    rw [set]
    split_ifs with hlt heq
    · have hne : ∀ w ∈ y :: ys, key w ≠ key x := by
        intro w hw
        rcases mem_cons.mp hw with rfl | hw
        · exact hlt.ne'
        · exact (hlt.trans (hy w hw)).ne'
      rw [mem_cons]
      exact or_congr_right ⟨fun hz => ⟨hz, hne z hz⟩, fun hz => hz.1⟩
    · have hne : ∀ w ∈ ys, key w ≠ key x := fun w hw => heq ▸ (hy w hw).ne'
      simp only [mem_cons]
      constructor
      · rintro (rfl | hz)
        · exact .inl rfl
        · exact .inr ⟨.inr hz, hne z hz⟩
      rintro (rfl | ⟨rfl | hz, hk⟩)
      · exact .inl rfl
      · exact absurd heq.symm hk
      · exact .inr hz
    simp only [mem_cons, ih hys]
    constructor
    · rintro (rfl | rfl | ⟨hz, hk⟩)
      · exact .inr ⟨.inl rfl, fun hk => heq hk.symm⟩
      · exact .inl rfl
      · exact .inr ⟨.inr hz, hk⟩
    rintro (rfl | ⟨rfl | hz, hk⟩)
    · exact .inr (.inl rfl)
    · exact .inl rfl
    · exact .inr (.inr ⟨hz, hk⟩)

lemma Sorted.set (h : Sorted key l) : Sorted key (set key x l) := by
  induction l with
  | nil => exact pairwise_singleton _ _
  | cons y ys ih =>
    obtain ⟨hy, hys⟩ := sorted_cons.mp h
    rw [OrderedSet.set]
    split_ifs with hlt heq
    · refine sorted_cons.mpr ⟨fun w hw => ?_, h⟩
      rcases mem_cons.mp hw with rfl | hw
      · exact hlt
      · exact hlt.trans (hy w hw)
    · exact sorted_cons.mpr ⟨fun w hw => heq ▸ hy w hw, hys⟩
    refine sorted_cons.mpr ⟨fun w hw => ?_, ih hys⟩
    rcases (mem_set hys).mp hw with rfl | ⟨hw, _⟩
    · exact lt_of_le_of_ne (not_lt.mp hlt) fun hk => heq hk.symm
    · exact hy w hw

lemma delete_sublist (x : ι) (l : List ι) : (delete key x l).Sublist l := by
  induction l with
  | nil => exact List.Sublist.slnil
  | cons y ys ih =>
    rw [delete]
    split_ifs
    · exact sublist_cons_self _ _
    · exact ih.cons_cons _

lemma Sorted.delete (h : Sorted key l) : Sorted key (delete key x l) :=
  List.Pairwise.sublist (delete_sublist x l) h

lemma mem_delete (h : Sorted key l) : z ∈ delete key x l ↔ z ∈ l ∧ key z ≠ key x := by
  induction l with
  | nil => simp [delete]
  | cons y ys ih =>
    obtain ⟨hy, hys⟩ := sorted_cons.mp h
    rw [delete]
    split_ifs with heq
    · constructor
      · exact fun hz => ⟨mem_cons_of_mem _ hz, heq ▸ (hy z hz).ne'⟩
      rintro ⟨hz, hk⟩
      rcases mem_cons.mp hz with rfl | hz
      · exact absurd heq.symm hk
      · exact hz
    rw [mem_cons, mem_cons, ih hys]
    constructor
    · rintro (rfl | ⟨hz, hk⟩)
      · exact ⟨.inl rfl, fun hk => heq hk.symm⟩
      · exact ⟨.inr hz, hk⟩
    rintro ⟨rfl | hz, hk⟩
    · exact .inl rfl
    · exact .inr ⟨hz, hk⟩

end OrderedSet
