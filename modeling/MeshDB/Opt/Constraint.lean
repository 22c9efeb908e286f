import Mathlib.Algebra.Order.Ring.Int
import Mathlib.Data.Int.Interval
import Mathlib.Data.List.TakeWhile

/-!
# Facts of an index constraint

What the optimizer reads off a `constraint.Constraint`: columns that are not NULL, columns that are
constant, and how many rows an index can have. A descending column inverts the order of its values.
-/
namespace MeshDB.Opt

open List Option

/-- Datums, the least of which is NULL. One of a countable type has a place, an `int64`. -/
class Datum (D : Type) extends LinearOrder D, OrderBot D where
  resolvedType : D → ℕ
  place : D → Option ℤ
  place_range {a : D} {i : ℤ} : place a = some i → -2 ^ 63 ≤ i ∧ i < 2 ^ 63
  place_inj {a b : D} {i : ℤ} : resolvedType a = resolvedType b → place a = some i →
    place b = some i → a = b
  place_between {a b c : D} {i k : ℤ} : resolvedType a = resolvedType c → a ≤ b → b ≤ c →
    place a = some i → place c = some k →
    resolvedType a = resolvedType b ∧ ∃ j, place b = some j ∧ i ≤ j ∧ j ≤ k

structure OrderingColumn where
  id : ℕ
  descending : Bool

/-- Whether a bound is part of the span. -/
inductive SpanBoundary where
  | includeBoundary
  | excludeBoundary
deriving DecidableEq

/-- A prefix of column values. -/
abbrev Key (D : Type) := List D

/-- A range of keys. -/
structure Span (D : Type) where
  startKey : Key D
  endKey : Key D
  startBoundary : SpanBoundary := .includeBoundary
  endBoundary : SpanBoundary := .includeBoundary

structure Constraint (D : Type) where
  columns : List OrderingColumn
  spans : List (Span D)

variable {D : Type} [Datum D]

namespace Span

def isUnconstrained (sp : Span D) : Bool :=
  (sp.startKey = [] ∨ sp.startKey = [⊥] ∧ sp.startBoundary = .includeBoundary) ∧ sp.endKey = []

/-- The start and end keys have a value of one type in a column. -/
def sameTypeAt (sp : Span D) (p : ℕ) : Bool :=
  sp.startKey[p]?.map Datum.resolvedType = sp.endKey[p]?.map Datum.resolvedType

/-- The start and end keys have the same value in a column. -/
def sameAt (sp : Span D) (p : ℕ) : Bool :=
  sp.startKey[p]?.isSome ∧ sp.startKey[p]? = sp.endKey[p]?

/-- The key that bounds a column on the side of NULL. -/
def nullSide (sp : Span D) (col : OrderingColumn) : Key D × SpanBoundary :=
  if col.descending then (sp.endKey, sp.endBoundary) else (sp.startKey, sp.startBoundary)

/-- The column can be `NULL` inside the span. -/
def nullable (sp : Span D) (col : OrderingColumn) (p : ℕ) : Bool :=
  (sp.nullSide col).1[p]? = none ∨
    (sp.nullSide col).1[p]? = some ⊥ ∧ (sp.nullSide col).2 = .includeBoundary

end Span

/-- How many values lie between two. -/
def maxDistinctCount (first last : D) : Option ℤ :=
  if Datum.resolvedType first ≠ Datum.resolvedType last then none
  else if first = last then some 1
  else
    match Datum.place first, Datum.place last with
    | some i, some k =>
      if k < i ∨ (k - i + 1).bmod (2 ^ 64) ≤ 0 then none else some ((k - i + 1).bmod (2 ^ 64))
    | _, _ => none

def Span.keyCount (cols : List OrderingColumn) (sp : Span D) (prefixLength : ℕ) : Option ℤ :=
  if prefixLength < 1 then none
  else if sp.startKey.length < prefixLength ∨ sp.endKey.length < prefixLength then none
  else if sp.startBoundary = .excludeBoundary ∧ sp.startKey.length = prefixLength then none
  else if sp.endBoundary = .excludeBoundary ∧ sp.endKey.length = prefixLength then none
  else if ¬(range (prefixLength - 1)).all (fun i => sp.sameTypeAt i && sp.sameAt i) then none
  else do
    let col ← cols[prefixLength - 1]?
    let first ← sp.startKey[prefixLength - 1]?
    let last ← sp.endKey[prefixLength - 1]?
    if col.descending then maxDistinctCount last first else maxDistinctCount first last

namespace Constraint

def isUnconstrained (c : Constraint D) : Bool :=
  c.spans.length = 1 ∧ c.spans.all Span.isUnconstrained

/-- All spans have the same start value in a column. -/
def startsEqual (c : Constraint D) (col : ℕ) : Bool :=
  c.spans.all fun sp => sp.startKey[col]? = c.spans.head?.bind (·.startKey[col]?)

/-- How many leading columns are constant. -/
def exactPrefix (c : Constraint D) : ℕ :=
  match c.spans with
  | [] => 0
  | sp :: _ => ((range sp.startKey.length).takeWhile fun col =>
      c.spans.all (·.sameAt col) && c.startsEqual col).length

/-- How many columns each span fixes. -/
def spanPrefix (c : Constraint D) : ℕ :=
  if c.spans.isEmpty then 0
  else ((range c.columns.length).takeWhile fun p => c.spans.all (·.sameAt p)).length

def colIDs (c : Constraint D) (cols : List ℕ) : List ℕ := cols.filterMap (c.columns[·]?.map (·.id))

def extractConstCols (c : Constraint D) : List ℕ :=
  c.colIDs ((range c.spanPrefix).filter c.startsEqual)

/-- The columns that no span lets be `NULL`. -/
def extractNotNullCols (c : Constraint D) : List ℕ :=
  if c.isUnconstrained ∨ c.spans = [] then []
  else
    let res := (range c.spanPrefix).filter fun i => c.spans.all (·.startKey[i]? ≠ some ⊥)
    match c.columns[c.spanPrefix]? with
    | none => c.colIDs res
    | some col =>
      if c.spans.any (·.nullable col c.spanPrefix) then c.colIDs res
      else c.colIDs (res ++ [c.spanPrefix])

/-- The sum of the key counts, before it is cut to 64 bits. -/
def distinctVals (c : Constraint D) : ℕ :=
  (c.spans.map fun sp => ((sp.keyCount c.columns c.columns.length).getD 0).toNat).sum

/-- A bound on the rows with distinct keys. -/
def calculateMaxResults (c : Constraint D) (indexCols notNullCols : List ℕ) : Option ℕ :=
  if ¬indexCols.all (· ∈ notNullCols ++ c.extractNotNullCols) then none
  else if c.spanPrefix + 1 < c.columns.length then none
  else if c.spanPrefix + 1 = c.columns.length then
    if c.spans.all fun sp => (sp.keyCount c.columns c.columns.length).isSome then
      some (c.distinctVals % 2 ^ 64)
    else none
  else some c.spans.length

end Constraint

/-! ## The rows of a constraint -/

def OrderingColumn.flip (col : OrderingColumn) : OrderingColumn :=
  { col with descending := !col.descending }

def OrderingColumn.Lt (col : OrderingColumn) (a b : D) : Prop :=
  if col.descending then b < a else a < b

/-- The key `t` of all columns does not come before `k`. A boundary includes or excludes all the
keys that extend it. -/
def Key.From (boundary : SpanBoundary) : Key D → List OrderingColumn → Key D → Prop
  | [], _, _ => boundary = .includeBoundary
  | a :: k, col :: cols, b :: t => col.Lt a b ∨ a = b ∧ From boundary k cols t
  | _ :: _, _, _ => False

def Span.Has (cols : List OrderingColumn) (sp : Span D) (t : Key D) : Prop :=
  Key.From sp.startBoundary sp.startKey cols t ∧
    Key.From sp.endBoundary sp.endKey (cols.map .flip) t

namespace Constraint

def keyOf (c : Constraint D) (row : ℕ → D) : Key D := c.columns.map fun col => row col.id

/-- The row satisfies the constraint. -/
def Contains (c : Constraint D) (row : ℕ → D) : Prop :=
  ∃ sp ∈ c.spans, sp.Has c.columns (c.keyOf row)

/-- The facts that are taken from a constraint are true of its rows. -/
structure Sound (c : Constraint D) : Prop where
  notNull : ∀ row, c.Contains row → ∀ id ∈ c.extractNotNullCols, row id ≠ ⊥
  constCols : ∀ row row', c.Contains row → c.Contains row' → ∀ id ∈ c.extractConstCols,
    row id = row' id
  exactPrefix : ∀ row row', c.Contains row → c.Contains row' →
    ∀ col ∈ c.columns.take c.exactPrefix, row col.id = row' col.id
  maxResults : ∀ indexCols notNullCols n, (∀ id ∈ indexCols, ∃ col ∈ c.columns, col.id = id) →
    c.calculateMaxResults indexCols notNullCols = some n → ∀ rows : Finset (ℕ → D),
    (∀ row ∈ rows, c.Contains row) →
    (∀ row ∈ rows, ∀ row' ∈ rows, (∀ id ∈ indexCols, row id = row' id) → row = row') →
    rows.card ≤ n

/-- Where no span allows NULL in the first column after the prefix, no bound excludes NULL there only
for some longer keys. -/
def NullBounded (c : Constraint D) : Prop :=
  ∀ col ∈ c.columns[c.spanPrefix]?, (∀ sp ∈ c.spans, ¬sp.nullable col c.spanPrefix) →
    ∀ sp ∈ c.spans, (sp.nullSide col).1[c.spanPrefix]? = some ⊥ →
      (sp.nullSide col).2 ≠ .includeBoundary → (sp.nullSide col).1.length = c.spanPrefix + 1

/-- Where the prefix leaves out the last column alone and all spans have a count of keys, the counts
add up to a `uint64`. -/
def CountsFit (c : Constraint D) : Prop :=
  c.spanPrefix + 1 = c.columns.length →
    (∀ sp ∈ c.spans, (sp.keyCount c.columns c.columns.length).isSome) → c.distinctVals < 2 ^ 64

end Constraint

variable {cols : List OrderingColumn} {col : OrderingColumn} {sp : Span D} {s e t : Key D} {p : ℕ}

lemma drop_eq_cons {α : Type} {l : List α} {a : α} (h : l[p]? = some a) :
    l.drop p = a :: l.drop (p + 1) := by
  rw [drop_eq_getElem?_toList_append, h]
  rfl

/-- Where the start and end keys agree, a key between them agrees with them. -/
lemma from_drop {x y : SpanBoundary} (hs : Key.From x s cols t)
    (he : Key.From y e (cols.map .flip) t) (hlen : t.length = cols.length) (hp : p ≤ cols.length)
    (hsame : ∀ q < p, s[q]?.isSome ∧ s[q]? = e[q]?) :
    t.take p = s.take p ∧ Key.From x (s.drop p) (cols.drop p) (t.drop p) ∧
      Key.From y (e.drop p) ((cols.drop p).map .flip) (t.drop p) := by
  induction p generalizing cols s e t with
  | zero => exact ⟨rfl, hs, he⟩
  | succ p ih =>
    obtain ⟨hsome, heq⟩ := hsame 0 p.succ_pos
    obtain _ | ⟨a, s⟩ := s
    · cases hsome
    obtain _ | ⟨a', e⟩ := e
    · cases heq
    cases heq
    obtain _ | ⟨col, cols⟩ := cols
    · cases hp
    obtain _ | ⟨b, t⟩ := t
    · cases hlen
    obtain ⟨rfl, hs, he⟩ : a = b ∧ Key.From x s cols t ∧ Key.From y e (cols.map .flip) t := by
      rw [map_cons] at he
      unfold Key.From OrderingColumn.Lt at hs he
      grind [OrderingColumn.flip]
    obtain ⟨htake, hrest⟩ := ih hs he (Nat.succ.inj hlen) (Nat.le_of_succ_le_succ hp)
      fun q hq => hsame (q + 1) (Nat.succ_lt_succ hq)
    exact ⟨by rw [take_succ_cons, take_succ_cons, htake], hrest⟩

lemma Span.Has.drop (h : sp.Has cols t) (hlen : t.length = cols.length) (hp : p ≤ cols.length)
    (hsame : ∀ q < p, sp.sameAt q) :
    t.take p = sp.startKey.take p ∧
      Key.From sp.startBoundary (sp.startKey.drop p) (cols.drop p) (t.drop p) ∧
      Key.From sp.endBoundary (sp.endKey.drop p) ((cols.drop p).map .flip) (t.drop p) :=
  from_drop h.1 h.2 hlen hp fun q hq => of_decide_eq_true (hsame q hq)

section
variable {c : Constraint D} {sp : Span D} {col : OrderingColumn} {row row' : ℕ → D} {p : ℕ}

lemma of_lt_takeWhile {n : ℕ} {f : ℕ → Bool} (h : p < ((range n).takeWhile f).length) :
    ∀ q ≤ p, f q := by
  intro q hq
  have hlt := hq.trans_lt h
  have hinit : (range n).takeWhile f <+: range n := takeWhile_prefix f
  have heq := hinit.getElem hlt
  rw [getElem_range] at heq
  exact heq ▸ List.mem_takeWhile_imp (getElem_mem hlt)

lemma sameAt_of_lt_spanPrefix (hp : p < c.spanPrefix) : ∀ q ≤ p, ∀ sp ∈ c.spans, sp.sameAt q := by
  unfold Constraint.spanPrefix at hp
  split_ifs at hp
  · cases hp
  · exact fun q hq => all_eq_true.mp (of_lt_takeWhile hp q hq)

lemma value_eq_start (hsp : sp.Has c.columns (c.keyOf row)) (hcol : c.columns[p]? = some col)
    (hsame : ∀ q ≤ p, sp.sameAt q) : sp.startKey[p]? = some (row col.id) := by
  obtain ⟨hlt, -⟩ := List.getElem?_eq_some_iff.mp hcol
  have heq := congrArg (·[p]?) (hsp.drop (by simp [Constraint.keyOf]) (p := p + 1) hlt
    fun q hq => hsame q (Nat.le_of_lt_succ hq)).1
  simp only [getElem?_take, Nat.lt_succ_self, if_true] at heq
  rw [← heq, Constraint.keyOf, getElem?_map, hcol]
  rfl

lemma eq_of_startsEqual (h : c.Contains row) (h' : c.Contains row')
    (hcol : c.columns[p]? = some col) (hsame : ∀ q ≤ p, ∀ sp ∈ c.spans, sp.sameAt q)
    (hstarts : c.startsEqual p) : row col.id = row' col.id := by
  obtain ⟨sp, hmem, hsp⟩ := h
  obtain ⟨sp', hmem', hsp'⟩ := h'
  have hstart := of_decide_eq_true (all_eq_true.mp hstarts sp hmem)
  have hstart' := of_decide_eq_true (all_eq_true.mp hstarts sp' hmem')
  rw [value_eq_start hsp hcol fun q hq => hsame q hq sp hmem] at hstart
  rw [value_eq_start hsp' hcol fun q hq => hsame q hq sp' hmem'] at hstart'
  exact Option.some.inj (hstart.trans hstart'.symm)

omit [Datum D] in
lemma mem_colIDs {cols : List ℕ} {id : ℕ} :
    id ∈ c.colIDs cols ↔ ∃ p ∈ cols, ∃ col, c.columns[p]? = some col ∧ col.id = id := by
  simp [Constraint.colIDs, mem_filterMap]

/-! ## NULL -/

lemma mem_extractNotNullCols {id : ℕ} (h : id ∈ c.extractNotNullCols) :
    ∃ p col, c.columns[p]? = some col ∧ col.id = id ∧
      (p < c.spanPrefix ∧ (∀ sp ∈ c.spans, sp.startKey[p]? ≠ some ⊥) ∨
        p = c.spanPrefix ∧ ∀ sp ∈ c.spans, ¬sp.nullable col p) := by
  unfold Constraint.extractNotNullCols at h
  grind [mem_colIDs]

/-- A key that does not come before a bound that excludes NULL. -/
lemma head_not_null {cols : List OrderingColumn} {a b : D} {k t : Key D} {x : SpanBoundary}
    (h : Key.From x (a :: k) (col :: cols) (b :: t)) (hasc : col.descending = false)
    (ha : a = ⊥ → k = [] ∧ x ≠ .includeBoundary) : b ≠ ⊥ := by
  rintro rfl
  unfold Key.From OrderingColumn.Lt at h
  rw [hasc] at h
  rcases h with hlt | ⟨heq, hrest⟩
  · exact not_lt_bot hlt
  · obtain ⟨rfl, hexclude⟩ := ha heq
    exact hexclude hrest

lemma not_null_of_mem {id : ℕ} (hbounded : c.NullBounded) (h : c.Contains row)
    (hid : id ∈ c.extractNotNullCols) : row id ≠ ⊥ := by
  obtain ⟨sp, hmem, hsp⟩ := h
  obtain ⟨p, col, hcol, rfl, ⟨hp, hnull⟩ | ⟨rfl, hnull⟩⟩ := mem_extractNotNullCols hid
  · intro heq
    rw [← heq] at hnull
    exact hnull sp hmem
      (value_eq_start hsp hcol fun q hq => sameAt_of_lt_spanPrefix hp q hq sp hmem)
  obtain ⟨hlt, -⟩ := List.getElem?_eq_some_iff.mp hcol
  obtain ⟨-, hstart, hend⟩ := hsp.drop (by simp [Constraint.keyOf]) hlt.le
    fun q hq => sameAt_of_lt_spanPrefix hq q le_rfl sp hmem
  rw [Constraint.keyOf, ← map_drop, drop_eq_cons hcol] at hstart hend
  have hlength := hbounded col hcol hnull sp hmem
  have hnull := hnull sp hmem
  simp only [Span.nullable, decide_eq_true_eq, not_or, not_and] at hnull
  obtain ⟨a, ha⟩ := ne_none_iff_exists'.mp hnull.1
  have hbot : a = ⊥ → (sp.nullSide col).1.drop (c.spanPrefix + 1) = [] ∧
      (sp.nullSide col).2 ≠ .includeBoundary := by
    rintro rfl
    exact ⟨drop_eq_nil_of_le (hlength ha (hnull.2 ha)).le, hnull.2 ha⟩
  have hdrop := drop_eq_cons ha
  unfold Span.nullSide at hbot hdrop
  split_ifs at hbot hdrop with hdesc
  · rw [hdrop] at hend
    exact head_not_null hend (by simp [OrderingColumn.flip, hdesc]) hbot
  · rw [hdrop] at hstart
    exact head_not_null hstart (Bool.eq_false_iff.mpr hdesc) hbot

end

/-! ## Counting -/

lemma card_le_sum {α β : Type} {R : α → β → Prop} {f : α → ℕ} {l : List α}
    (hf : ∀ a ∈ l, ∀ s : Finset β, (∀ b ∈ s, R a b) → s.card ≤ f a) (s : Finset β)
    (hs : ∀ b ∈ s, ∃ a ∈ l, R a b) : s.card ≤ (l.map f).sum := by
  classical
  induction l generalizing s with
  | nil =>
    rw [Finset.eq_empty_of_forall_notMem (s := s) fun b hb => by simpa using hs b hb]
    rfl
  | cons a l ih =>
    rw [map_cons, sum_cons, ← Finset.card_filter_add_card_filter_not (s := s) (R a)]
    refine Nat.add_le_add (hf a (.head _) _ fun b hb => (Finset.mem_filter.mp hb).2)
      (ih (fun a ha => hf a (.tail _ ha)) _ fun b hb => ?_)
    grind

lemma card_le_maxDistinctCount {first last : D} {n : ℤ}
    (h : maxDistinctCount first last = some n) (s : Finset D)
    (hs : ∀ b ∈ s, first ≤ b ∧ b ≤ last) : s.card ≤ n.toNat := by
  unfold maxDistinctCount at h
  split_ifs at h with htype heq
  · cases h
    subst heq
    exact Finset.card_le_one.mpr fun b hb c hc =>
      ((hs b hb).2.antisymm (hs b hb).1).trans ((hs c hc).1.antisymm (hs c hc).2)
  split at h
  · next i k hi hk =>
      split_ifs at h with hcut
      cases h
      have hmod : (k - i + 1).bmod (2 ^ 64) = k - i + 1 := by
        have := Datum.place_range hi
        have := Datum.place_range hk
        rw [Int.bmod] at hcut ⊢
        omega
      have hplace := fun b hb =>
        Datum.place_between (not_not.mp htype) (hs b hb).1 (hs b hb).2 hi hk
      rw [hmod, add_comm, ← add_sub_assoc, add_comm 1, ← Int.card_Icc]
      refine Finset.card_le_card_of_injOn (fun b => (Datum.place b).getD 0) (fun b hb => ?_)
        fun b hb c hc heq => ?_
      · obtain ⟨-, j, hj, hle⟩ := hplace b hb
        simpa [hj] using hle
      · obtain ⟨ht, j, hj, -⟩ := hplace b hb
        obtain ⟨ht', j', hj', -⟩ := hplace c hc
        simp only [hj, hj', getD_some] at heq
        exact Datum.place_inj (ht.symm.trans ht') hj (heq ▸ hj')
  · cases h

variable {cols : List OrderingColumn} {sp : Span D}

/-- The keys of a span differ in the last column only, and there lie between its bounds. -/
lemma card_le_keyCount {n : ℤ} (h : sp.keyCount cols cols.length = some n)
    (s : Finset (Key D)) (hs : ∀ t ∈ s, t.length = cols.length ∧ sp.Has cols t) :
    s.card ≤ n.toNat := by
  unfold Span.keyCount at h
  split_ifs at h with hone hlen hstart hend hsame
  obtain ⟨p, hp⟩ : ∃ p, cols.length = p + 1 := ⟨cols.length - 1, by omega⟩
  rw [hp, Nat.add_sub_cancel] at h hsame
  simp only [bind_eq_bind, bind_eq_some_iff] at h
  obtain ⟨col, hcol, a, ha, c, hc, hcount⟩ := h
  have hsame : ∀ q < p, sp.sameTypeAt q ∧ sp.sameAt q := by simpa using hsame
  have hlast : ∀ t ∈ s, ∃ b, t = sp.startKey.take p ++ [b] ∧
      if col.descending then c ≤ b ∧ b ≤ a else a ≤ b ∧ b ≤ c := by
    intro t ht
    obtain ⟨hlen, ht⟩ := hs t ht
    obtain ⟨htake, hstart, hend⟩ := ht.drop hlen (by omega : p ≤ _) fun q hq => (hsame q hq).2
    obtain ⟨b, hb⟩ : ∃ b, t.drop p = [b] := length_eq_one_iff.mp (by simp [hlen, hp])
    refine ⟨b, by rw [← htake, ← hb, take_append_drop], ?_⟩
    rw [hb, drop_eq_cons hcol, drop_eq_cons ha] at hstart
    rw [hb, drop_eq_cons hcol, drop_eq_cons hc, map_cons] at hend
    unfold Key.From OrderingColumn.Lt at hstart hend
    grind [OrderingColumn.flip]
  have hcard : (s.image (·.getLastD ⊥)).card = s.card :=
    Finset.card_image_of_injOn fun k hk l hl heq => by grind
  rw [← hcard]
  split_ifs at hcount hlast with hdesc
  · exact card_le_maxDistinctCount hcount _ (by grind)
  · exact card_le_maxDistinctCount hcount _ (by grind)

variable {c : Constraint D} {indexCols notNullCols : List ℕ} {n : ℕ}

lemma card_keys_le (hwrap : c.CountsFit)
    (h : c.calculateMaxResults indexCols notNullCols = some n) (s : Finset (Key D))
    (hs : ∀ t ∈ s, ∃ sp ∈ c.spans, t.length = c.columns.length ∧ sp.Has c.columns t) :
    s.card ≤ n := by
  unfold Constraint.calculateMaxResults at h
  split_ifs at h with hnull hshort hlast hcounted
  · cases h
    rw [Nat.mod_eq_of_lt (hwrap hlast (all_eq_true.mp hcounted))]
    refine card_le_sum (fun sp hsp s hs => ?_) s hs
    obtain ⟨m, hm⟩ := isSome_iff_exists.mp (all_eq_true.mp hcounted sp hsp)
    rw [hm]
    exact card_le_keyCount hm s hs
  · cases h
    have hone : ∀ sp ∈ c.spans, ∀ s : Finset (Key D),
        (∀ t ∈ s, t.length = c.columns.length ∧ sp.Has c.columns t) → s.card ≤ 1 := by
      intro sp hsp s hs
      have hkey : ∀ t ∈ s, t = sp.startKey.take c.columns.length := by
        intro t ht
        obtain ⟨hlen, hhas⟩ := hs t ht
        rw [← (hhas.drop hlen le_rfl fun q hq =>
          sameAt_of_lt_spanPrefix (by omega) q le_rfl sp hsp).1, ← hlen, take_length]
      exact Finset.card_le_one.mpr fun k hk l hl => (hkey k hk).trans (hkey l hl).symm
    simpa using card_le_sum hone s hs

/-- The facts are sound if no bound that counts excludes NULL with a longer key and the counts that
are added fit into 64 bits. -/
theorem constraint_facts_sound (c : Constraint D) (hnull : c.NullBounded) (hcount : c.CountsFit) :
    c.Sound where
  notNull _ h _ hid := not_null_of_mem hnull h hid
  constCols _ _ h h' _ hid := by
    obtain ⟨p, hp, col, hcol, rfl⟩ := mem_colIDs.mp hid
    obtain ⟨hlt, hstarts⟩ := mem_filter.mp hp
    exact eq_of_startsEqual h h' hcol (sameAt_of_lt_spanPrefix (mem_range.mp hlt)) hstarts
  exactPrefix _ _ h h' col hcol := by
    obtain ⟨p, hp, rfl⟩ := mem_take_iff_getElem.mp hcol
    obtain ⟨hp, hlt⟩ := lt_min_iff.mp hp
    unfold Constraint.exactPrefix at hp
    split at hp
    · cases hp
    have hall := fun q hq => Bool.and_eq_true_iff.mp (of_lt_takeWhile hp q hq)
    exact eq_of_startsEqual h h' (getElem?_eq_getElem hlt)
      (fun q hq => all_eq_true.mp (hall q hq).1) (hall p le_rfl).2
  maxResults _ _ _ hindex h rows hrows hdistinct := by
    classical
    rw [← Finset.card_image_of_injOn (f := c.keyOf) fun row hrow row' hrow' heq =>
      hdistinct row hrow row' hrow' fun id hid => ?_]
    · refine card_keys_le hcount h _ fun t ht => ?_
      obtain ⟨row, hrow, rfl⟩ := Finset.mem_image.mp ht
      obtain ⟨sp, hsp, hhas⟩ := hrows row hrow
      exact ⟨sp, hsp, by simp [Constraint.keyOf], hhas⟩
    · obtain ⟨col, hcol, rfl⟩ := hindex id hid
      exact map_inj_left.mp heq col hcol

/-- Positive integers, and 0 for NULL. -/
instance datum_nat : Datum ℕ where
  resolvedType n := if n = 0 then 0 else 1
  place n := if n = 0 ∨ 2 ^ 63 ≤ n then none else some n
  place_range h := by grind
  place_inj _ h h' := by grind
  place_between _ h1 h2 h h' := by grind

/-- `/1/2: [/1/3 - /1/5]` -/
def threeKeys : Constraint ℕ where
  columns := [⟨1, false⟩, ⟨2, false⟩]
  spans := [{ startKey := [1, 3], endKey := [1, 5] }]

theorem constraint_facts_sound_threeKeys :
    threeKeys.calculateMaxResults [1, 2] [] = some 3 ∧ threeKeys.Sound :=
  ⟨by decide, constraint_facts_sound threeKeys (by unfold Constraint.NullBounded; decide)
    fun _ _ => by decide⟩

/-- `/1/2: (/NULL/5 - /7]` -/
def longerBound : Constraint ℕ where
  columns := [⟨1, false⟩, ⟨2, false⟩]
  spans := [{ startKey := [0, 5], endKey := [7], startBoundary := .excludeBoundary }]

theorem longerBound_contains_null :
    1 ∈ longerBound.extractNotNullCols ∧ ∃ row, longerBound.Contains row ∧ row 1 = ⊥ :=
  ⟨by decide, fun id => if id = 2 then 6 else 0,
    ⟨_, .head _, .inr ⟨rfl, .inl (by decide : 5 < 6)⟩, .inl (by decide : 0 < 7)⟩, rfl⟩

end MeshDB.Opt
