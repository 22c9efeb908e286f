import Mathlib.Order.Basic
import Mathlib.Data.Nat.Basic
import Mathlib.Data.List.Basic

/-!
# Ring buffers that overwrite

A buffer of fixed capacity whose pushes overwrite the oldest element once it is full. Nothing is
ever popped. `Holds b xs` says that the buffer has the elements `xs`, the oldest first.
-/
structure RingBuffer (α : Type*) where
  capacity : ℕ
  /-- The slots, of which those below the capacity are used. -/
  data : ℕ → Option α := fun _ => none
  head : ℕ := 0
  tail : ℕ := 0

namespace RingBuffer

variable {α : Type*} {b : RingBuffer α} {xs : List α}

def size (b : RingBuffer α) : ℕ :=
  if b.head < b.tail then b.tail - b.head
  else if b.head = b.tail then
    if b.head = 0 ∧ (b.data 0).isNone then 0 else b.capacity
  else b.capacity + b.tail - b.head

def full (b : RingBuffer α) : Bool := b.size == b.capacity

def lastIdx (b : RingBuffer α) : ℕ := if b.tail = 0 then b.capacity - 1 else b.tail - 1

/-- The slot of the element that comes `i` places after the oldest one. -/
def slot (b : RingBuffer α) (i : ℕ) : Option α := b.data ((b.head + i) % b.capacity)

def push (b : RingBuffer α) (x : α) : RingBuffer α where
  capacity := b.capacity
  data := Function.update b.data b.tail (some x)
  head := if b.full then (b.head + 1) % b.capacity else b.head
  tail := (b.tail + 1) % b.capacity

structure Holds (b : RingBuffer α) (xs : List α) : Prop where
  length_le : xs.length ≤ b.capacity
  head_lt : b.head < b.capacity
  tail_eq : b.tail = (b.head + xs.length) % b.capacity
  slot_eq : ∀ (i : ℕ) (x : α), xs[i]? = some x → b.slot i = some x
  /-- The head moves once the buffer is full. -/
  head_eq : xs.length < b.capacity → b.head = 0
  empty : xs = [] → b.data 0 = none

/-- An index wraps around at most once. -/
lemma add_mod_of_le {a i n : ℕ} (ha : a < n) (hi : i ≤ n) :
    (a + i) % n = if a + i < n then a + i else a + i - n := by
  split_ifs with h
  · exact Nat.mod_eq_of_lt h
  · rw [Nat.mod_eq_sub_mod (by omega), Nat.mod_eq_of_lt (by omega)]

lemma holds_empty {n : ℕ} (h : 0 < n) : Holds ({ capacity := n } : RingBuffer α) [] where
  length_le := Nat.zero_le n
  head_lt := h
  tail_eq := (Nat.zero_mod n).symm
  slot_eq := by simp
  head_eq := fun _ => rfl
  empty := fun _ => rfl

namespace Holds
section
variable (h : b.Holds xs)
include h

lemma tail_of_lt (hlt : xs.length < b.capacity) : b.tail = xs.length := by
  rw [h.tail_eq, h.head_eq hlt, Nat.zero_add, Nat.mod_eq_of_lt hlt]

lemma tail_of_full (hfull : xs.length = b.capacity) : b.tail = b.head := by
  rw [h.tail_eq, hfull, Nat.add_mod_right, Nat.mod_eq_of_lt h.head_lt]

lemma size_eq : b.size = xs.length := by
  have hpos := h.head_lt
  rcases h.length_le.lt_or_eq with hlt | hfull
  · have htail := h.tail_of_lt hlt
    have hhead := h.head_eq hlt
    rw [size, hhead, htail]
    cases xs with
    | nil => simp [h.empty rfl]
    | cons x xs => simp
  have htail := h.tail_of_full hfull
  cases xs with
  | nil =>
    simp only [List.length_nil] at hfull
    omega
  | cons x xs =>
    have hnone : ¬(b.head = 0 ∧ (b.data 0).isNone) := by
      rintro ⟨hzero, hdata⟩
      have hslot := h.slot_eq 0 x rfl
      rw [slot, hzero, Nat.zero_add, Nat.zero_mod] at hslot
      simp [hslot] at hdata
    rw [size, htail, if_neg (lt_irrefl _), if_pos rfl, if_neg hnone, hfull]

lemma full_iff : b.full ↔ xs.length = b.capacity := by
  rw [full, h.size_eq, beq_iff_eq]

/-- A push to a buffer that is not full adds an element. -/
lemma push_of_lt (hlt : xs.length < b.capacity) (x : α) : (b.push x).Holds (xs ++ [x]) := by
  have htail := h.tail_of_lt hlt
  have hhead := h.head_eq hlt
  have hfull : b.full = false := by
    rw [← Bool.not_eq_true, h.full_iff]
    omega
  have hhead' : (b.push x).head = 0 := by simp [push, hfull, hhead]
  refine ⟨?_, ?_, ?_, ?_, fun _ => hhead', by simp⟩
  · simp [push]
    omega
  · rw [hhead']
    exact Nat.lt_of_le_of_lt (Nat.zero_le _) h.head_lt
  · rw [hhead']
    simp [push, htail]
  intro i y hy
  have hi : i < b.capacity := by
    have := (List.getElem?_eq_some_iff.mp hy).1
    simp at this
    omega
  have hslot : (b.push x).slot i = Function.update b.data xs.length (some x) i := by
    rw [slot, hhead']
    simp [push, htail, Nat.mod_eq_of_lt hi]
  rw [hslot]
  rcases Nat.lt_trichotomy i xs.length with hlt' | rfl | hgt
  · rw [Function.update_of_ne hlt'.ne]
    rw [List.getElem?_append_left hlt'] at hy
    have hold := h.slot_eq i y hy
    rwa [slot, hhead, Nat.zero_add, Nat.mod_eq_of_lt hi] at hold
  · simp at hy
    simp [hy]
  have hnone : (xs ++ [x])[i]? = none := by
    simp
    omega
  rw [hnone] at hy
  cases hy

/-- A push to a full buffer drops the oldest element. -/
lemma push_of_full (hfull : xs.length = b.capacity) (x : α) :
    (b.push x).Holds (xs.tail ++ [x]) := by
  have htail := h.tail_of_full hfull
  have hpos := h.head_lt
  have hhead' : (b.push x).head = (b.head + 1) % b.capacity := by
    simp [push, h.full_iff.mpr hfull]
  have hlen : (xs.tail ++ [x]).length = b.capacity := by
    simp
    omega
  refine ⟨hlen.le, ?_, ?_, ?_, fun hlt => absurd hlen hlt.ne, by simp⟩
  · rw [hhead']
    exact Nat.mod_lt _ (by omega)
  · rw [hhead', hlen]
    simp [push, htail]
  intro i y hy
  have hi : i < b.capacity := hlen ▸ (List.getElem?_eq_some_iff.mp hy).1
  have hidx : ((b.push x).head + i) % b.capacity = (b.head + (i + 1)) % b.capacity := by
    rw [hhead', Nat.mod_add_mod]
    congr 1
    omega
  have hslot : (b.push x).slot i =
      Function.update b.data b.head (some x) ((b.head + (i + 1)) % b.capacity) := by
    rw [slot, show (b.push x).capacity = b.capacity from rfl, hidx]
    simp [push, htail]
  rw [hslot]
  by_cases hlast : i + 1 = b.capacity
  · rw [hlast, Nat.add_mod_right, Nat.mod_eq_of_lt hpos, Function.update_self]
    have hi' : i = xs.tail.length := by
      simp
      omega
    rw [hi'] at hy
    simpa using hy
  have hne : (b.head + (i + 1)) % b.capacity ≠ b.head := by
    rw [add_mod_of_le hpos (by omega)]
    split_ifs <;> omega
  rw [Function.update_of_ne hne]
  refine h.slot_eq (i + 1) y ?_
  rw [List.getElem?_append_left (by simp; omega)] at hy
  simpa using hy

/-- The newest element is in the last slot. -/
lemma data_lastIdx {x : α} (hx : xs.getLast? = some x) : b.data b.lastIdx = some x := by
  rw [List.getLast?_eq_getElem?] at hx
  have hlen : xs.length - 1 < xs.length := (List.getElem?_eq_some_iff.mp hx).1
  have hle := h.length_le
  have hslot := h.slot_eq _ x hx
  have hpos := h.head_lt
  have hidx : (b.head + (xs.length - 1)) % b.capacity = b.lastIdx := by
    rw [lastIdx, h.tail_eq, add_mod_of_le hpos hle, add_mod_of_le hpos (by omega)]
    split_ifs <;> omega
  rwa [slot, hidx] at hslot

end
end Holds
end RingBuffer

/-!
## Queues in a ring of slots

A queue of at most `n` elements in `n` slots, which wrap around. Pushing to a full queue and
removing from an empty one fail. `Holds q xs` says that the queue has the elements `xs`, the
front first.
-/

structure RingQueue (α : Type*) (n : ℕ) where
  data : ℕ → Option α := fun _ => none
  head : ℕ := 0
  len : ℕ := 0

namespace RingQueue

variable {α : Type*} {n : ℕ} {q : RingQueue α n} {xs : List α}

/-- The element that comes `i` places after the front. -/
def peek (q : RingQueue α n) (i : ℕ) : Option α :=
  if i < q.len then q.data ((q.head + i) % n) else none

def removeFront (q : RingQueue α n) : Option (RingQueue α n) :=
  if q.len = 0 then none
  else some ⟨Function.update q.data q.head none, (q.head + 1) % n, q.len - 1⟩

def pushBack (q : RingQueue α n) (x : α) : Option (RingQueue α n) :=
  if q.len = n then none
  else some ⟨Function.update q.data ((q.head + q.len) % n) (some x), q.head, q.len + 1⟩

structure Holds (q : RingQueue α n) (xs : List α) : Prop where
  head_lt : q.head < n
  len_eq : q.len = xs.length
  length_le : xs.length ≤ n
  slot_eq : ∀ i < xs.length, q.data ((q.head + i) % n) = xs[i]?

lemma holds_empty (h : 0 < n) : Holds ({} : RingQueue α n) [] where
  head_lt := h
  len_eq := rfl
  length_le := Nat.zero_le n
  slot_eq := by simp

lemma Holds.peek_eq (h : q.Holds xs) (i : ℕ) : q.peek i = xs[i]? := by
  rw [peek, h.len_eq]
  split_ifs with hlt
  · exact h.slot_eq i hlt
  · exact (List.getElem?_eq_none (by omega)).symm

lemma Holds.removeFront (h : q.Holds (x :: xs)) :
    ∃ q', q.removeFront = some q' ∧ q'.Holds xs := by
  have hlen : q.len = xs.length + 1 := h.len_eq
  have hle : xs.length + 1 ≤ n := h.length_le
  have hhead := h.head_lt
  refine ⟨_, if_neg (by omega), Nat.mod_lt _ (by omega), by simp [hlen], by omega, ?_⟩
  intro i hi
  have hslot := h.slot_eq (i + 1) (by simpa using hi)
  have hidx : ((q.head + 1) % n + i) % n = (q.head + (i + 1)) % n := by
    rw [Nat.mod_add_mod, Nat.add_assoc, Nat.add_comm 1 i]
  have hne : (q.head + (i + 1)) % n ≠ q.head := by
    rw [RingBuffer.add_mod_of_le hhead (by omega)]
    split_ifs <;> omega
  show Function.update q.data q.head none (((q.head + 1) % n + i) % n) = xs[i]?
  rw [hidx, Function.update_of_ne hne, hslot]
  rfl

lemma Holds.pushBack (h : q.Holds xs) (hlt : xs.length < n) (x : α) :
    ∃ q', q.pushBack x = some q' ∧ q'.Holds (xs ++ [x]) := by
  have hlen := h.len_eq
  have hhead := h.head_lt
  refine ⟨_, if_neg (by omega), hhead, by simp [hlen], by simpa using Nat.succ_le_of_lt hlt, ?_⟩
  intro i hi
  rw [List.length_append, List.length_singleton] at hi
  show Function.update q.data ((q.head + q.len) % n) (some x) ((q.head + i) % n) = (xs ++ [x])[i]?
  rw [hlen]
  rcases Nat.lt_succ_iff_lt_or_eq.mp hi with hold | rfl
  · have hne : (q.head + i) % n ≠ (q.head + xs.length) % n := by
      rw [RingBuffer.add_mod_of_le hhead (by omega), RingBuffer.add_mod_of_le hhead hlt.le]
      split_ifs <;> omega
    rw [Function.update_of_ne hne, h.slot_eq i hold, List.getElem?_append_left hold]
  rw [Function.update_self]
  simp

end RingQueue
