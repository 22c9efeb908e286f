import Mathlib.Data.Prod.Lex

/-!
# Maps with values at keys and in gaps

A sorted list of nodes describes a function that is constant between their keys. Each node has the
value at its key and that of the gap up to the next node; those of a node that is not initialized
are joined with the gap value from the left. The function is defined on positions: on a key, or
right past it.
-/
open List
set_option linter.unusedSectionVars false
namespace GapMap

open Prod.Lex

inductive NodeState where
  | initializing
  | initialized
  | cantInit
deriving DecidableEq

structure Node (K V : Type*) where
  key : K
  keyVal : V
  gapVal : V
  state : NodeState
deriving DecidableEq

/-- The keys and the points right past them. -/
abbrev Position (K : Type*) := K ×ₗ Bool

def on {K : Type*} (k : K) : Position K := toLex (k, false)

def past {K : Type*} (k : K) : Position K := toLex (k, true)

section
variable {K : Type*} [LinearOrder K] {j k : K} {p : Position K}

lemma eq_on_or_past (p : Position K) : ∃ k, p = on k ∨ p = past k := by
  obtain ⟨k, b⟩ := p
  cases b with
  | false => exact ⟨k, .inl rfl⟩
  | true => exact ⟨k, .inr rfl⟩

@[simp] lemma on_lt_on : on j < on k ↔ j < k := by simp [on, toLex_lt_toLex]

@[simp] lemma on_le_on : on j ≤ on k ↔ j ≤ k := by
  rw [← not_lt, on_lt_on, not_lt]

@[simp] lemma past_lt_on : past j < on k ↔ j < k := by simp [on, past, toLex_lt_toLex]

@[simp] lemma on_lt_past : on j < past k ↔ j ≤ k := by
  simp [on, past, toLex_lt_toLex, le_iff_lt_or_eq]

@[simp] lemma past_le_past : past j ≤ past k ↔ j ≤ k := by
  rw [past, past, toLex_le_toLex]
  simp only [le_refl, and_true]
  exact le_iff_lt_or_eq.symm

/-- There is nothing between a key and the point past it. -/
lemma past_le_iff : past k ≤ p ↔ on k < p := by
  obtain ⟨j, rfl | rfl⟩ := eq_on_or_past p
  · rw [← not_lt, on_lt_past, not_le, on_lt_on]
  · rw [past_le_past, on_lt_past]

end

variable {K V : Type*} [LinearOrder K] [SemilatticeSup V]

namespace Node

/-- The value at the key, given the gap value from the left. -/
def keyAt (n : Node K V) (g : V) : V := if n.state = .initialized then n.keyVal else n.keyVal ⊔ g

def gapAt (n : Node K V) (g : V) : V := if n.state = .initialized then n.gapVal else n.gapVal ⊔ g

lemma keyAt_of_initialized {n : Node K V} (h : n.state = .initialized) (g : V) :
    n.keyAt g = n.keyVal := if_pos h

lemma gapAt_of_initialized {n : Node K V} (h : n.state = .initialized) (g : V) :
    n.gapAt g = n.gapVal := if_pos h

end Node

def valueAt : List (Node K V) → V → Position K → V
  | [], g, _ => g
  | n :: ns, g, p =>
    if p < on n.key then g else if p = on n.key then n.keyAt g else valueAt ns (n.gapAt g) p

/-- The gap value right of the nodes. -/
def lastGap (ns : List (Node K V)) (g : V) : V := ns.foldl (fun g n => n.gapAt g) g

def Sorted (ns : List (Node K V)) : Prop := ns.Pairwise fun a b => a.key < b.key

def AllInitialized (ns : List (Node K V)) : Prop := ∀ n ∈ ns, n.state = .initialized

variable {n : Node K V} {ns xs ys : List (Node K V)} {g g' val : V} {p : Position K} {k : K}

lemma valueAt_cons_lt (h : p < on n.key) : valueAt (n :: ns) g p = g := if_pos h

lemma valueAt_cons_on : valueAt (n :: ns) g (on n.key) = n.keyAt g := by
  rw [valueAt, if_neg (lt_irrefl _), if_pos rfl]

lemma valueAt_cons_gt (h : on n.key < p) : valueAt (n :: ns) g p = valueAt ns (n.gapAt g) p := by
  rw [valueAt, if_neg h.not_gt, if_neg h.ne']

/-- Left of the nodes there is the gap. -/
lemma valueAt_of_lt (h : ∀ n ∈ ns, p < on n.key) : valueAt ns g p = g := by
  cases ns with
  | nil => rfl
  | cons n ns => exact valueAt_cons_lt (h n (.head _))

lemma valueAt_append_left (h : ∀ n ∈ ys, p < on n.key) :
    valueAt (xs ++ ys) g p = valueAt xs g p := by
  induction xs generalizing g with
  | nil => exact valueAt_of_lt h
  | cons n xs ih =>
    rw [cons_append, valueAt, valueAt, ih]

lemma valueAt_append_right (h : ∀ n ∈ xs, on n.key < p) :
    valueAt (xs ++ ys) g p = valueAt ys (lastGap xs g) p := by
  induction xs generalizing g with
  | nil => rfl
  | cons n xs ih =>
    rw [cons_append, valueAt_cons_gt (h n (.head _)), ih fun m hm => h m (.tail n hm)]
    rfl

/-- Right of an initialized node the gap before it does not matter. -/
lemma valueAt_gap_congr (h : n.state = .initialized) (hp : on n.key ≤ p) :
    valueAt (n :: ns) g p = valueAt (n :: ns) g' p := by
  rcases hp.lt_or_eq with hp | rfl
  · rw [valueAt_cons_gt hp, valueAt_cons_gt hp, Node.gapAt_of_initialized h,
      Node.gapAt_of_initialized h]
  · rw [valueAt_cons_on, valueAt_cons_on, Node.keyAt_of_initialized h, Node.keyAt_of_initialized h]

lemma Sorted.key_lt (h : Sorted (n :: ns)) : ∀ m ∈ ns, n.key < m.key :=
  (pairwise_cons.mp h).1

lemma Sorted.key_le (h : Sorted (n :: ns)) : ∀ m ∈ n :: ns, n.key ≤ m.key :=
  forall_mem_cons.mpr ⟨le_rfl, fun m hm => (h.key_lt m hm).le⟩

lemma Sorted.tail (h : Sorted (n :: ns)) : Sorted ns := (pairwise_cons.mp h).2

/-- Left of a key the nodes from it on do not matter, and from it on those before matter by their
last gap. -/
lemma valueAt_append (hx : ∀ n ∈ xs, n.key < k) (hy : ∀ n ∈ ys, k ≤ n.key) (p : Position K) :
    valueAt (xs ++ ys) g p =
      if p < on k then valueAt xs g p else valueAt ys (lastGap xs g) p := by
  split_ifs with hp
  · exact valueAt_append_left fun n hn => hp.trans_le (on_le_on.mpr (hy n hn))
  · exact valueAt_append_right fun n hn => (on_lt_on.mpr (hx n hn)).trans_le (not_lt.mp hp)

lemma Node.keyAt_mono (n : Node K V) (h : g ≤ g') : n.keyAt g ≤ n.keyAt g' := by
  unfold Node.keyAt
  split_ifs
  · exact le_rfl
  · exact sup_le_sup_left h _

lemma Node.gapAt_mono (n : Node K V) (h : g ≤ g') : n.gapAt g ≤ n.gapAt g' := by
  unfold Node.gapAt
  split_ifs
  · exact le_rfl
  · exact sup_le_sup_left h _

lemma valueAt_mono (h : g ≤ g') : valueAt ns g p ≤ valueAt ns g' p := by
  induction ns generalizing g g' with
  | nil => exact h
  | cons n ns ih =>
    unfold valueAt
    split_ifs
    · exact h
    · exact n.keyAt_mono h
    · exact ih (n.gapAt_mono h)

/-- The value does not change over a stretch without nodes. -/
lemma valueAt_const (hp : on k ≤ p) (h : ∀ n ∈ ns, n.key < k ∨ p < on n.key) :
    valueAt ns g p = valueAt ns g (on k) := by
  induction ns generalizing g with
  | nil => rfl
  | cons n ns ih =>
    rcases h n (.head _) with hlt | hlt
    · have hn : on n.key < on k := on_lt_on.mpr hlt
      rw [valueAt_cons_gt hn, valueAt_cons_gt (hn.trans_le hp), ih fun m hm => h m (.tail n hm)]
    · rw [valueAt_cons_lt hlt, valueAt_cons_lt (hp.trans_lt hlt)]

/-- The value right of nodes that are all initialized is the gap or does not depend on it. -/
lemma valueAt_cases (hinit : AllInitialized ns) (hsorted : Sorted ns) (p : Position K) :
    (∀ n ∈ ns, p < on n.key) ∨ ∀ g g' : V, valueAt ns g p = valueAt ns g' p := by
  cases ns with
  | nil => exact .inl (by simp)
  | cons n ns =>
    rcases lt_or_ge p (on n.key) with hlt | hge
    · exact .inl fun m hm => hlt.trans_le (on_le_on.mpr (hsorted.key_le m hm))
    · exact .inr fun g g' => valueAt_gap_congr (hinit n (.head _)) hge

/-! ## Raising values -/

/-- Some values on a set are joined with a value. -/
def Raised (val : V) (S : Position K → Prop) (f f' : Position K → V) : Prop :=
  ∀ p, f' p = f p ∨ S p ∧ f' p = f p ⊔ val

variable {S T : Position K → Prop} {f f' f'' : Position K → V}

lemma Raised.refl (val : V) (S : Position K → Prop) (f : Position K → V) : Raised val S f f :=
  fun _ => .inl rfl

lemma Raised.trans (h : Raised val S f f') (h' : Raised val S f' f'') : Raised val S f f'' := by
  intro p
  rcases h' p with h' | ⟨hs, h'⟩
  · rw [h']
    exact h p
  rcases h p with h | ⟨-, h⟩
  · exact .inr ⟨hs, h'.trans (by rw [h])⟩
  refine .inr ⟨hs, ?_⟩
  rw [h', h, sup_assoc, sup_idem]

/-- A value that is already reached need not be raised. -/
lemma Raised.mono (h : Raised val S f f') (hST : ∀ p, S p → T p ∨ val ≤ f p) :
    Raised val T f f' := by
  intro p
  rcases h p with h | ⟨hs, h⟩
  · exact .inl h
  rcases hST p hs with ht | hle
  · exact .inr ⟨ht, h⟩
  · exact .inl (h.trans (sup_eq_left.mpr hle))

lemma Raised.le (h : Raised val S f f') (p : Position K) : f p ≤ f' p := by
  rcases h p with h | ⟨-, h⟩
  · exact h.ge
  rw [h]
  exact le_sup_left

end GapMap
