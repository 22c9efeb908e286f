import Mathlib.Data.List.GetD
import Mathlib.Order.Nat

/-!
# Slices of shared arrays

A slice is a window at the start of an array in memory. Slices of one array share their elements.
Appending writes into the array if it has room, and otherwise copies to a new one.
-/
open List

structure Slice where
  array : ℕ
  len : ℕ
  cap : ℕ
deriving DecidableEq

namespace Slice

/-- The arrays by their address. -/
abbrev Memory (α : Type*) := List (List α)

variable {α : Type*} (m : Memory α) (s : Slice)

def read : List α := (m.getD s.array []).take s.len

/-- Overwrites the first elements of the array. -/
def write (xs : List α) : Memory α := m.modify s.array fun a => xs ++ a.drop xs.length

/-- A new array. -/
def alloc (xs : List α) (cap : ℕ) : Memory α × Slice := (m ++ [xs], ⟨m.length, xs.length, cap⟩)

/-- The slice without room to append. -/
def clip : Slice := { s with cap := s.len }

def append (x : α) : Memory α × Slice :=
  if s.len < s.cap then (write m s (read m s ++ [x]), { s with len := s.len + 1 })
  else alloc m (read m s ++ [x]) (2 * (s.len + 1))

/-- The elements of the slice are there. -/
def Valid : Prop := s.array < m.length ∧ s.len ≤ (m.getD s.array []).length

variable {m s} {m' m'' : Memory α} {xs : List α}

/-- The second memory has all arrays of the first. -/
def Keeps (m m' : Memory α) : Prop :=
  m.length ≤ m'.length ∧ ∀ a < m.length, m'.getD a [] = m.getD a []

lemma Keeps.refl (m : Memory α) : Keeps m m := ⟨le_rfl, fun _ _ => rfl⟩

lemma Keeps.trans (h : Keeps m m') (h' : Keeps m' m'') : Keeps m m'' :=
  ⟨h.1.trans h'.1, fun a ha => (h'.2 a (ha.trans_le h.1)).trans (h.2 a ha)⟩

lemma Keeps.read (h : Keeps m m') (hs : s.array < m.length) : read m' s = read m s := by
  unfold Slice.read
  rw [h.2 s.array hs]

lemma length_read (h : s.Valid m) : (read m s).length = s.len := by
  rw [read, length_take]
  exact Nat.min_eq_left h.2

lemma keeps_alloc (m : Memory α) (xs : List α) (cap : ℕ) : Keeps m (alloc m xs cap).1 := by
  constructor
  · simp [alloc]
  intro a ha
  rw [alloc, getD_append _ _ _ _ ha]

@[simp] lemma read_alloc (m : Memory α) (xs : List α) (cap : ℕ) :
    read (alloc m xs cap).1 (alloc m xs cap).2 = xs := by
  simp [read, alloc]

lemma valid_alloc (m : Memory α) (xs : List α) (cap : ℕ) :
    (alloc m xs cap).2.Valid (alloc m xs cap).1 := by
  simp [Valid, alloc]

lemma getD_write_self (hs : s.array < m.length) :
    (write m s xs).getD s.array [] = xs ++ (m.getD s.array []).drop xs.length := by
  simp [write, getD_eq_getElem?_getD, hs]

lemma getD_write_of_ne {a : ℕ} (h : a ≠ s.array) : (write m s xs).getD a [] = m.getD a [] := by
  simp [write, getD_eq_getElem?_getD, h.symm]

/-- What is written to an array that an older memory does not have does not show there. -/
lemma Keeps.write (h : Keeps m' m) (hs : m'.length ≤ s.array) : Keeps m' (write m s xs) := by
  constructor
  · rw [Slice.write, length_modify]
    exact h.1
  intro a ha
  rw [getD_write_of_ne (by omega)]
  exact h.2 a ha

lemma read_write {n c : ℕ} (hs : s.array < m.length) (hn : n ≤ xs.length) :
    read (write m s xs) ⟨s.array, n, c⟩ = xs.take n := by
  rw [read, getD_write_self hs, take_append_of_le_length hn]

/-- Writing what is there changes nothing. -/
lemma write_read (h : s.Valid m) : write m s (read m s) = m := by
  rw [write, length_read h, read]
  apply ext_getElem?
  intro a
  rw [List.getElem?_modify]
  split_ifs with ha
  · subst ha
    rw [List.getElem?_eq_getElem h.1]
    simp [getD_eq_getElem?_getD, h.1]
  · simp

lemma read_append (h : s.Valid m) (x : α) :
    read (append m s x).1 (append m s x).2 = read m s ++ [x] := by
  unfold append
  split_ifs
  · have hlen : (read m s ++ [x]).length = s.len + 1 := by simp [length_read h]
    rw [read_write h.1 hlen.ge, ← hlen, take_length]
  · exact read_alloc _ _ _

lemma valid_append (h : s.Valid m) (x : α) : (append m s x).2.Valid (append m s x).1 := by
  unfold append
  split_ifs
  · constructor
    · rw [write, length_modify]
      exact h.1
    rw [getD_write_self h.1]
    simp [length_read h]
  · exact valid_alloc _ _ _

/-- Appending to a slice without room, or to one of a newer array, keeps all arrays. -/
lemma keeps_append {m0 : Memory α} (h : Keeps m0 m) (hs : s.cap ≤ s.len ∨ m0.length ≤ s.array)
    (x : α) : Keeps m0 (append m s x).1 ∧ m0.length ≤ (append m s x).2.array := by
  unfold append
  split_ifs with hroom
  · have hnew := hs.resolve_left (not_le.mpr hroom)
    exact ⟨h.write hnew, hnew⟩
  · exact ⟨h.trans (keeps_alloc _ _ _), h.1⟩

end Slice
