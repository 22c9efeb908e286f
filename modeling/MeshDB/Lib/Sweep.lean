import Mathlib.Order.MinMax
import Mathlib.Data.List.Basic

/-!
# Sweeping over intervals

Jobs are half-open intervals of a linear order, given in the order of their starts. A sweep up
to a bound takes from each job the part before the bound and leaves the rest. Sweeping over
consecutive cells takes from each cell exactly the parts of the jobs in it.
-/
open List
namespace Sweep

/-- An interval, closed on its left. -/
structure Job (K ι : Type*) where
  lo : K
  hi : K
  tag : ι

variable {K ι : Type*} [LinearOrder K] {a b c : K} {j : Job K ι} {js jobs : List (Job K ι)}

namespace Job

/-- The part from a point on. -/
def rest (c : K) (j : Job K ι) : Option (Job K ι) :=
  if j.hi ≤ c then none else some { j with lo := max c j.lo }

/-- The part between two points. -/
def clip (a b : K) (j : Job K ι) : Option (Job K ι) :=
  if max a j.lo < min b j.hi then some ⟨max a j.lo, min b j.hi, j.tag⟩ else none

end Job

/-- Takes the parts before a bound. The first job that starts at the bound or after it ends
the sweep. -/
def sweep (b : K) : List (Job K ι) → List (Job K ι) × List (Job K ι)
  | [] => ([], [])
  | j :: js =>
    if b ≤ j.lo then ([], j :: js)
    else
      let r := sweep b js
      if j.hi ≤ b then (j :: r.1, r.2) else ({ j with hi := b } :: r.1, { j with lo := b } :: r.2)

/-- Jobs that can be swept. -/
structure Ordered (jobs : List (Job K ι)) : Prop where
  sorted : jobs.Pairwise fun i j => i.lo ≤ j.lo
  proper : ∀ j ∈ jobs, j.lo < j.hi

lemma Ordered.tail (h : Ordered (j :: jobs)) : Ordered jobs :=
  ⟨(pairwise_cons.mp h.sorted).2, fun i hi => h.proper i (.tail j hi)⟩

lemma Ordered.lo_le (h : Ordered (j :: jobs)) : ∀ i ∈ jobs, j.lo ≤ i.lo :=
  (pairwise_cons.mp h.sorted).1

/-- What is left of the jobs from a point on. -/
def left (c : K) (jobs : List (Job K ι)) : List (Job K ι) := jobs.filterMap (Job.rest c)

/-- What the jobs have between two points. -/
def between (a b : K) (jobs : List (Job K ι)) : List (Job K ι) := jobs.filterMap (Job.clip a b)

lemma left_cons_done (h : j.hi ≤ c) : left c (j :: jobs) = left c jobs := by
  simp [left, Job.rest, h]

lemma left_cons (h : c < j.hi) :
    left c (j :: jobs) = { j with lo := max c j.lo } :: left c jobs := by
  simp [left, Job.rest, h.not_ge]

lemma between_cons_none (h : min b j.hi ≤ max a j.lo) :
    between a b (j :: jobs) = between a b jobs := by
  simp only [between, filterMap_cons, Job.clip, if_neg h.not_gt]

lemma between_cons (h : max a j.lo < min b j.hi) :
    between a b (j :: jobs) = ⟨max a j.lo, min b j.hi, j.tag⟩ :: between a b jobs := by
  simp only [between, filterMap_cons, Job.clip, if_pos h]

lemma tags_between (a b : K) (jobs : List (Job K ι)) :
    ((between a b jobs).map Job.tag).Sublist (jobs.map Job.tag) := by
  induction jobs with
  | nil => exact .refl _
  | cons j jobs ih =>
    rcases lt_or_ge (max a j.lo) (min b j.hi) with h | h
    · rw [between_cons h]
      exact ih.cons_cons _
    rw [between_cons_none h]
    exact ih.cons _

/-- Nothing is taken of jobs that start at the bound or after it. -/
lemma between_of_le (h : ∀ i ∈ jobs, b ≤ i.lo) : between a b jobs = [] := by
  induction jobs with
  | nil => rfl
  | cons j jobs ih =>
    have hle : min b j.hi ≤ max a j.lo :=
      (min_le_left _ _).trans ((h j (.head _)).trans (le_max_right _ _))
    rw [between_cons_none hle, ih fun i hi => h i (.tail j hi)]

/-- Jobs that start at a point or after it are left as they are. -/
lemma left_of_le (hproper : ∀ j ∈ jobs, j.lo < j.hi) (h : ∀ i ∈ jobs, c ≤ i.lo) :
    left c jobs = jobs := by
  induction jobs with
  | nil => rfl
  | cons j jobs ih =>
    have hc := h j (.head _)
    rw [left_cons (hc.trans_lt (hproper j (.head _))), max_eq_right hc,
      ih (fun i hi => hproper i (.tail j hi)) fun i hi => h i (.tail j hi)]

/-- Sweeping what is left from one point up to another takes what is between them. -/
lemma sweep_left (h : Ordered jobs) (hab : a ≤ b) :
    sweep b (left a jobs) = (between a b jobs, left b jobs) := by
  induction jobs with
  | nil => rfl
  | cons j jobs ih =>
    have hlt := h.proper j (.head _)
    by_cases hdone : j.hi ≤ a
    · have hclip : min b j.hi ≤ max a j.lo :=
        (min_le_right _ _).trans (hdone.trans (le_max_left _ _))
      rw [left_cons_done hdone, left_cons_done (hdone.trans hab), between_cons_none hclip,
        ih h.tail]
    have hdone := not_le.mp hdone
    rw [left_cons hdone, sweep]
    by_cases hbreak : b ≤ max a j.lo
    · have hlo : b ≤ j.lo ∨ b = a := by
        rcases le_max_iff.mp hbreak with hba | hlo
        · exact .inr (hba.antisymm hab)
        · exact .inl hlo
      rw [if_pos hbreak, between_cons_none ((min_le_left _ _).trans hbreak)]
      rcases hlo with hlo | rfl
      · have hall : ∀ i ∈ jobs, b ≤ i.lo := fun i hi => hlo.trans (h.lo_le i hi)
        have hproper := h.tail.proper
        rw [between_of_le hall, left_cons (hlo.trans_lt hlt), left_of_le hproper hall,
          left_of_le hproper fun i hi => hab.trans (hall i hi), max_eq_right hlo,
          max_eq_right (hab.trans hlo)]
      have hnone : between b b jobs = [] := by
        refine filterMap_eq_nil_iff.mpr fun i _ => ?_
        rw [Job.clip, if_neg]
        exact ((min_le_left b i.hi).trans (le_max_left b i.lo)).not_gt
      rw [hnone, left_cons hdone]
    have hbreak := not_le.mp hbreak
    rw [if_neg hbreak.not_ge, ih h.tail]
    by_cases hend : j.hi ≤ b
    · rw [if_pos hend, left_cons_done hend, between_cons, min_eq_right hend]
      rw [min_eq_right hend]
      exact max_lt hdone hlt
    have hend := not_le.mp hend
    have hlo : j.lo < b := (le_max_right a j.lo).trans_lt hbreak
    rw [if_neg hend.not_ge, left_cons hend, max_eq_left hlo.le, between_cons, min_eq_left hend.le]
    rw [min_eq_left hend.le]
    exact hbreak

/-! ## Later starts -/

lemma mem_left : j ∈ left c jobs ↔ ∃ i ∈ jobs, c < i.hi ∧ { i with lo := max c i.lo } = j := by
  unfold left Job.rest
  rw [mem_filterMap]
  refine exists_congr fun i => and_congr_right fun _ => ?_
  split_ifs with h
  · simp [h]
  · simp [not_le.mp h]

lemma ordered_left (h : Ordered jobs) (c : K) : Ordered (left c jobs) := by
  constructor
  · unfold left
    refine List.Pairwise.filterMap _ ?_ h.sorted
    intro i j hij i' hi' j' hj'
    unfold Job.rest at hi' hj'
    split_ifs at hi' hj'
    cases hi'
    cases hj'
    exact max_le_max le_rfl hij
  · intro j hj
    obtain ⟨i, hi, hc, rfl⟩ := mem_left.mp hj
    exact max_lt hc (h.proper i hi)

lemma Ordered.head_le {j : Job K ι} (h : Ordered (j :: js)) : ∀ i ∈ j :: js, j.lo ≤ i.lo :=
  forall_mem_cons.mpr ⟨le_rfl, h.lo_le⟩

variable {x : K}

/-- Where nothing is left before a later point, the later point leaves the same. -/
lemma max_eq_of_le_left (hcx : c ≤ x) (h : ∀ i ∈ left c jobs, x ≤ i.lo)
    (hj : j ∈ jobs) : j.hi ≤ c ∨ x ≤ max c j.lo ∧ max x j.lo = max c j.lo := by
  rcases le_or_gt j.hi c with hdone | hdone
  · exact .inl hdone
  have hx : x ≤ max c j.lo := h _ (mem_left.mpr ⟨j, hj, hdone, rfl⟩)
  refine .inr ⟨hx, le_antisymm (max_le hx (le_max_right _ _)) (max_le_max hcx le_rfl)⟩

lemma left_eq_of_le (hjobs : Ordered jobs) (hcx : c ≤ x)
    (h : ∀ i ∈ left c jobs, x ≤ i.lo) : left x jobs = left c jobs := by
  apply filterMap_congr
  intro j hj
  unfold Job.rest
  rcases max_eq_of_le_left hcx h hj with hdone | ⟨hx, hmax⟩
  · rw [if_pos hdone, if_pos (hdone.trans hcx)]
  by_cases hdone : j.hi ≤ c
  · rw [if_pos hdone, if_pos (hdone.trans hcx)]
  have hlt : x < j.hi := hx.trans_lt (max_lt (not_le.mp hdone) (hjobs.proper j hj))
  rw [if_neg hdone, if_neg hlt.not_ge, hmax]

lemma between_eq_of_le (hcx : c ≤ x) (h : ∀ i ∈ left c jobs, x ≤ i.lo) :
    between x b jobs = between c b jobs := by
  apply filterMap_congr
  intro j hj
  unfold Job.clip
  rcases max_eq_of_le_left hcx h hj with hdone | ⟨-, hmax⟩
  · have hle : min b j.hi ≤ max c j.lo := (min_le_right _ _).trans (hdone.trans (le_max_left _ _))
    rw [if_neg hle.not_gt, if_neg (hle.trans (max_le_max hcx le_rfl)).not_gt]
  · rw [hmax]

variable {r : K}

/-- A bound after all jobs changes nothing. -/
lemma between_min (h : ∀ j ∈ jobs, j.hi ≤ r) :
    between a (min b r) jobs = between a b jobs := by
  apply filterMap_congr
  intro j hj
  unfold Job.clip
  rw [min_assoc, min_eq_right (h j hj)]

lemma left_min (h : ∀ j ∈ jobs, j.hi ≤ r) : left (min b r) jobs = left b jobs := by
  apply filterMap_congr
  intro j hj
  unfold Job.rest
  by_cases hdone : j.hi ≤ b
  · rw [if_pos hdone, if_pos (le_min hdone (h j hj))]
  have hlt : b ≤ r := (not_le.mp hdone).le.trans (h j hj)
  rw [min_eq_left hlt]

/-! ## Cells -/

section
variable {C : Type*} (near far : C → K) {cell : C} {cells : List C}

/-- Cells that follow each other from one point to another. -/
def Consecutive : K → K → List C → Prop
  | a, b, [] => a = b
  | a, b, cell :: cells => near cell = a ∧ a < far cell ∧ Consecutive (far cell) b cells

/-- Sweeps up to the ends of the cells, from one with a job left in it to the next. -/
def walk : List C → List (Job K ι) → List (C × List (Job K ι))
  | [], _ => []
  | _, [] => []
  | cell :: cells, j :: js =>
    if j.lo < far cell then
      (cell, (sweep (far cell) (j :: js)).1) :: walk cells (sweep (far cell) (j :: js)).2
    else walk cells (j :: js)

/-- A cell with the parts of the jobs in it, if there are any. -/
def visit (jobs : List (Job K ι)) (cell : C) : Option (C × List (Job K ι)) :=
  if (between (near cell) (far cell) jobs).isEmpty then none
  else some (cell, between (near cell) (far cell) jobs)

variable {near far}

/-- No cell is visited after the jobs are done. -/
lemma visit_of_left_nil (h : left c jobs = []) (hc : c ≤ near cell) :
    visit near far jobs cell = none := by
  have hnil : between (near cell) (far cell) jobs = [] := by
    refine filterMap_eq_nil_iff.mpr fun j hj => ?_
    have hdone : j.hi ≤ c := by
      by_contra hlt
      have hmem := mem_left.mpr ⟨j, hj, not_le.mp hlt, rfl⟩
      rw [h] at hmem
      cases hmem
    rw [Job.clip, if_neg]
    exact ((min_le_right _ _).trans ((hdone.trans hc).trans (le_max_left _ _))).not_gt
  rw [visit, hnil]
  rfl

section
variable (h : Consecutive near far a b cells)
include h

lemma Consecutive.le_near : ∀ cell ∈ cells, a ≤ near cell := by
  induction cells generalizing a with
  | nil => nofun
  | cons cell cells ih =>
    obtain ⟨rfl, hlt, hrest⟩ := h
    intro other hother
    rcases mem_cons.mp hother with rfl | hother
    · exact le_rfl
    · exact hlt.le.trans (ih hrest other hother)

lemma Consecutive.lt : ∀ cell ∈ cells, near cell < far cell := by
  induction cells generalizing a with
  | nil => nofun
  | cons cell cells ih =>
    obtain ⟨rfl, hlt, hrest⟩ := h
    exact forall_mem_cons.mpr ⟨hlt, ih hrest⟩

lemma Consecutive.far_le : a ≤ b ∧ ∀ cell ∈ cells, far cell ≤ b := by
  induction cells generalizing a with
  | nil => exact ⟨h.le, nofun⟩
  | cons cell cells ih =>
    obtain ⟨-, hlt, hrest⟩ := h
    obtain ⟨hle, hall⟩ := ih hrest
    refine ⟨hlt.le.trans hle, fun other hother => ?_⟩
    rcases mem_cons.mp hother with rfl | hother
    · exact hle
    · exact hall other hother

/-- Every point between the ends is in a cell. -/
lemma Consecutive.exists_cell (hax : a ≤ x)
    (hxb : x < b) : ∃ cell ∈ cells, near cell ≤ x ∧ x < far cell := by
  induction cells generalizing a with
  | nil => exact absurd (hax.trans_lt hxb) (h ▸ lt_irrefl a)
  | cons cell cells ih =>
    obtain ⟨rfl, hlt, hrest⟩ := h
    rcases lt_or_ge x (far cell) with hx | hx
    · exact ⟨cell, .head _, hax, hx⟩
    obtain ⟨other, hother, hin⟩ := ih hrest hx
    exact ⟨other, mem_cons_of_mem cell hother, hin⟩

/-- A cell ends before the next ones start. -/
lemma Consecutive.pairwise : cells.Pairwise fun cell next => far cell ≤ near next := by
  induction cells generalizing a with
  | nil => exact .nil
  | cons cell cells ih =>
    obtain ⟨-, -, hrest⟩ := h
    exact pairwise_cons.mpr ⟨hrest.le_near, ih hrest⟩

/-- A point is in one cell only. -/
lemma Consecutive.unique {cell cell' : C}
    (hcell : cell ∈ cells) (hcell' : cell' ∈ cells) (hx : near cell ≤ x ∧ x < far cell)
    (hx' : near cell' ≤ x ∧ x < far cell') : cell = cell' := by
  induction cells generalizing a with
  | nil => cases hcell
  | cons first cells ih =>
    obtain ⟨-, -, hrest⟩ := h
    rcases mem_cons.mp hcell with rfl | hmem
    · rcases mem_cons.mp hcell' with rfl | hmem'
      · rfl
      · exact absurd (hx.2.trans_le (hrest.le_near _ hmem')) hx'.1.not_gt
    rcases mem_cons.mp hcell' with rfl | hmem'
    · exact absurd (hx'.2.trans_le (hrest.le_near _ hmem)) hx.1.not_gt
    · exact ih hrest hmem hmem'

lemma Consecutive.append {cells' : List C}
    (h' : Consecutive near far b c cells') : Consecutive near far a c (cells ++ cells') := by
  induction cells generalizing a with
  | nil => exact h ▸ h'
  | cons cell cells ih =>
    obtain ⟨hnear, hlt, hrest⟩ := h
    exact ⟨hnear, hlt, ih hrest⟩

end

/-- A walk takes from each cell the parts of the jobs in it, and visits only cells with parts. -/
lemma walk_left (hjobs : Ordered jobs) (h : Consecutive near far a b cells) :
    walk far cells (left a jobs) = cells.filterMap (visit near far jobs) := by
  induction cells generalizing a with
  | nil => rfl
  | cons cell cells ih =>
    cases hleft : left a jobs with
    | nil =>
      refine (filterMap_eq_nil_iff.mpr fun other hother => ?_).symm
      exact visit_of_left_nil hleft (h.le_near other hother)
    | cons j js =>
      obtain ⟨rfl, hlt, hrest⟩ := h
      have hhead : ∀ i ∈ left (near cell) jobs, j.lo ≤ i.lo := by
        have hord := ordered_left hjobs (near cell)
        rw [hleft] at hord ⊢
        exact hord.head_le
      rw [walk, filterMap_cons]
      by_cases hin : j.lo < far cell
      · rw [if_pos hin, ← hleft, sweep_left hjobs hlt.le, ih hrest, visit, if_neg]
        have hmem : j ∈ left (near cell) jobs := hleft ▸ mem_cons_self
        obtain ⟨i, hi, hdone, rfl⟩ := mem_left.mp hmem
        have hclip : max (near cell) i.lo < min (far cell) i.hi :=
          lt_min hin (max_lt hdone (hjobs.proper i hi))
        intro hempty
        rw [List.isEmpty_iff, between, filterMap_eq_nil_iff] at hempty
        have hnone := hempty i hi
        rw [Job.clip, if_pos hclip] at hnone
        cases hnone
      have hle := not_lt.mp hin
      have hle' : ∀ i ∈ left (near cell) jobs, far cell ≤ i.lo :=
        fun i hi => hle.trans (hhead i hi)
      have hskip : visit near far jobs cell = none := by
        have hnil : between (near cell) (far cell) jobs = [] := by
          have hsweep := sweep_left hjobs hlt.le
          rw [hleft, sweep, if_pos hle] at hsweep
          exact (congrArg Prod.fst hsweep).symm
        rw [visit, hnil]
        rfl
      rw [if_neg hin, hskip, ← hleft, ← left_eq_of_le hjobs hlt.le hle', ih hrest]

lemma Consecutive.reverse (h : Consecutive near far a b cells) :
    Consecutive (K := Kᵒᵈ) (fun cell => OrderDual.toDual (far cell))
      (fun cell => OrderDual.toDual (near cell)) (OrderDual.toDual b) (OrderDual.toDual a)
      cells.reverse := by
  induction cells generalizing a with
  | nil => exact congrArg OrderDual.toDual h.symm
  | cons cell cells ih =>
    obtain ⟨rfl, hlt, hrest⟩ := h
    rw [reverse_cons]
    exact (ih hrest).append ⟨rfl, hlt, rfl⟩

end
end Sweep
