import MeshDB.Lib.BinarySearch
import MeshDB.Roachpb.Span
import MeshDB.Util.Hlc

/-!
# Transactions

The parts of `enginepb.TxnMeta` and `roachpb.Transaction` that the modelled code reads.
-/
namespace MeshDB.Roachpb

open Hlc

inductive TransactionStatus where
  | pending
  | staging
  | committed
  | aborted
deriving DecidableEq

def TransactionStatus.isFinalized : TransactionStatus → Bool
  | .committed => true
  | .aborted => true
  | _ => false

abbrev TxnID := ℕ

structure TxnMeta where
  id : TxnID
  /-- The key of the transaction record, nil until the first locking request. -/
  key : Option Key := none
  epoch : Int := 0
  writeTimestamp : Timestamp := {}
  sequence : Int := 0
deriving DecidableEq

/-- Sequence numbers that a savepoint rollback made void, both bounds included. -/
structure IgnoredSeqNumRange where
  start : Int
  stop : Int
deriving DecidableEq

structure Transaction extends TxnMeta where
  status : TransactionStatus := .pending
  readTimestamp : Timestamp := {}
  writeTooOld : Bool := false
  commitTimestampFixed : Bool := false
  globalUncertaintyLimit : Timestamp := {}
  ignoredSeqNums : List IgnoredSeqNumRange := []
deriving DecidableEq

namespace Transaction

def refresh (t : Transaction) (timestamp : Timestamp) : Transaction :=
  let writeTimestamp := t.writeTimestamp.forward timestamp
  { t with
    writeTimestamp := writeTimestamp
    readTimestamp := t.readTimestamp.forward writeTimestamp
    writeTooOld := false }

/-- `Restart`. The epoch is an `int32` in the source: a transaction is taken to restart fewer than
`2 ^ 31` times. -/
def restart (t : Transaction) (timestamp : Timestamp) : Transaction :=
  let writeTimestamp :=
    if t.writeTimestamp.less timestamp then timestamp else t.writeTimestamp
  { t with
    epoch := t.epoch + 1
    writeTimestamp := writeTimestamp
    readTimestamp := writeTimestamp
    sequence := 0
    writeTooOld := false
    commitTimestampFixed := false
    ignoredSeqNums := [] }

/-- The status after an update by a transaction of the same epoch. -/
def updateStatus (t o : Transaction) : TransactionStatus :=
  match t.status with
  | .pending => o.status
  | .staging => if o.status = .pending then .staging else o.status
  | status => status

def updateEpochState (t o : Transaction) : Transaction :=
  if t.epoch < o.epoch then
    { t with
      status := if t.status.isFinalized then t.status else o.status
      epoch := o.epoch
      writeTooOld := o.writeTooOld
      commitTimestampFixed := o.commitTimestampFixed
      sequence := o.sequence
      ignoredSeqNums := o.ignoredSeqNums }
  else if t.epoch = o.epoch then
    { t with
      status := updateStatus t o
      writeTooOld :=
        if t.readTimestamp = o.readTimestamp then t.writeTooOld || o.writeTooOld
        else if t.readTimestamp.less o.readTimestamp then o.writeTooOld else t.writeTooOld
      commitTimestampFixed :=
        if t.readTimestamp = o.readTimestamp then
          t.commitTimestampFixed || o.commitTimestampFixed
        else if t.readTimestamp.less o.readTimestamp then o.commitTimestampFixed
        else t.commitTimestampFixed
      sequence := if t.sequence < o.sequence then o.sequence else t.sequence
      ignoredSeqNums := if o.ignoredSeqNums.isEmpty then t.ignoredSeqNums else o.ignoredSeqNums }
  else { t with status := if o.status = .aborted then .aborted else t.status }

/-- `Update` with another version. The process ends if it is a different transaction. -/
def update (t o : Transaction) : Option Transaction :=
  if t.id ≠ o.id then none
  else
    let u := updateEpochState t o
    some { u with
      key := if (t.key.getD []).isEmpty then o.key else t.key
      writeTimestamp := t.writeTimestamp.forward o.writeTimestamp
      globalUncertaintyLimit := t.globalUncertaintyLimit.forward o.globalUncertaintyLimit
      readTimestamp := t.readTimestamp.forward o.readTimestamp }

/-- What an update by a version of the same epoch keeps. -/
structure Updated (t o u : Transaction) : Prop where
  id : u.id = t.id
  epoch : u.epoch = t.epoch
  read : u.readTimestamp = t.readTimestamp.forward o.readTimestamp
  status : u.status = updateStatus t o

variable {t o : Transaction}

lemma update_spec (hid : o.id = t.id) (hepoch : o.epoch = t.epoch) :
    ∃ u, t.update o = some u ∧ Updated t o u := by
  refine ⟨_, if_neg (not_not.mpr hid.symm), ?_⟩
  constructor <;> simp [updateEpochState, hepoch]

lemma updateStatus_eq_pending (h : updateStatus t o = .pending) :
    o.status = .pending := by
  unfold updateStatus at h
  split at h
  · exact h
  · split_ifs at h with ho
    exact absurd h ho
  rename_i hne _
  exact absurd h hne

variable {u : Transaction}

lemma update_reply (hid : o.id = t.id) (hepoch : o.epoch = t.epoch)
    (hle : t.readTimestamp.ord ≤ o.readTimestamp.ord) (h : t.update o = some u) :
    u.epoch = t.epoch ∧ u.readTimestamp.ord = o.readTimestamp.ord ∧
      u.status = updateStatus t o := by
  obtain ⟨u', hu, hupdated⟩ := update_spec hid hepoch
  cases hu.symm.trans h
  refine ⟨hupdated.epoch, ?_, hupdated.status⟩
  rw [hupdated.read, Timestamp.ord_forward]
  exact max_eq_right hle

lemma update_restart {ts : Timestamp} (hepoch : o.epoch = t.epoch)
    (h : t.update (o.restart ts) = some u) :
    u.epoch = t.epoch + 1 ∧ t.readTimestamp.ord ≤ u.readTimestamp.ord := by
  have hid : ¬ t.id ≠ (o.restart ts).id := by
    intro hne
    rw [update, if_pos hne] at h
    cases h
  rw [update, if_neg hid] at h
  cases h
  have hlt : t.epoch < (o.restart ts).epoch := by
    show t.epoch < o.epoch + 1
    omega
  constructor
  · simp only [updateEpochState, if_pos hlt]
    show o.epoch + 1 = t.epoch + 1
    omega
  rw [Timestamp.ord_forward]
  exact le_max_left _ _

lemma update_behind (hepoch : o.epoch ≤ t.epoch)
    (hle : o.readTimestamp.ord ≤ t.readTimestamp.ord) (ht : t.status = .pending)
    (ho : o.status = .pending) (h : t.update o = some u) :
    u.epoch = t.epoch ∧ u.readTimestamp.ord = t.readTimestamp.ord ∧ u.status = .pending := by
  have hid : ¬ t.id ≠ o.id := by
    intro hne
    rw [update, if_pos hne] at h
    cases h
  rw [update, if_neg hid] at h
  cases h
  have hread : (t.readTimestamp.forward o.readTimestamp).ord = t.readTimestamp.ord := by
    rw [Timestamp.ord_forward]
    exact max_eq_left hle
  by_cases heq : t.epoch = o.epoch
  · refine ⟨?_, hread, ?_⟩
    · simp [updateEpochState, heq]
    · simp [updateEpochState, heq, updateStatus, ht, ho]
  refine ⟨?_, hread, ?_⟩
  · simp [updateEpochState, heq, hepoch.not_gt]
  · simp [updateEpochState, heq, hepoch.not_gt, ht, ho]

end Transaction

structure LockUpdate where
  span : Span
  txn : TxnMeta
  status : TransactionStatus
  ignoredSeqNums : List IgnoredSeqNumRange := []
deriving DecidableEq

def makeLockUpdate (txn : Transaction) (span : Span) : LockUpdate :=
  { span := span, txn := txn.toTxnMeta, status := txn.status, ignoredSeqNums := txn.ignoredSeqNums }

structure SequencedWrite where
  key : Key
  sequence : Int
deriving DecidableEq

/-!
## Ignored sequence numbers

The ranges of sequence numbers that a transaction rolled back. They are kept in order,
so that they can be searched.
-/

open List

def SortedRanges (ranges : List IgnoredSeqNumRange) : Prop :=
  ranges.Pairwise (fun a b => a.stop < b.start) ∧ ∀ r ∈ ranges, r.start ≤ r.stop

def Ignores (ranges : List IgnoredSeqNumRange) (n : Int) : Prop :=
  ∃ r ∈ ranges, r.start ≤ n ∧ n ≤ r.stop

/-- `AddIgnoredSeqNumRange`: the list is cut at the first range that reaches the new one. -/
def Transaction.addIgnoredSeqNumRange (t : Transaction) (newRange : IgnoredSeqNumRange) :
    Transaction :=
  let list := t.ignoredSeqNums
  let i := BinarySearch.searchList list fun r => decide (newRange.start ≤ r.stop)
  { t with ignoredSeqNums := list.take i ++ [newRange] }

variable {t : Transaction}

lemma ignoredSeqNums_add (h : SortedRanges t.ignoredSeqNums)
    (newRange : IgnoredSeqNumRange) :
    (t.addIgnoredSeqNumRange newRange).ignoredSeqNums =
      t.ignoredSeqNums.filter (fun r => !decide (newRange.start ≤ r.stop)) ++ [newRange] := by
  unfold Transaction.addIgnoredSeqNumRange
  dsimp only
  rw [BinarySearch.take_searchList]
  refine h.1.imp_of_mem fun {a b} _ hb hlt hle => ?_
  have := h.2 b hb
  rw [decide_eq_true_eq] at hle ⊢
  omega

variable {newRange : IgnoredSeqNumRange}

lemma sortedRanges_add (h : SortedRanges t.ignoredSeqNums)
    (hnew : newRange.start ≤ newRange.stop) :
    SortedRanges (t.addIgnoredSeqNumRange newRange).ignoredSeqNums := by
  rw [ignoredSeqNums_add h]
  constructor
  · rw [pairwise_append]
    refine ⟨h.1.filter _, pairwise_singleton _ _, fun a ha b hb => ?_⟩
    rw [mem_singleton.mp hb]
    have := (mem_filter.mp ha).2
    rw [Bool.not_eq_true', decide_eq_false_iff_not] at this
    omega
  intro r hr
  rcases mem_append.mp hr with hr | hr
  · exact h.2 r (mem_filter.mp hr).1
  rw [mem_singleton.mp hr]
  exact hnew

lemma ignores_add (h : SortedRanges t.ignoredSeqNums)
    (hstart : ∀ r ∈ t.ignoredSeqNums, r.stop < newRange.start ∨ newRange.start ≤ r.start)
    (hstop : ∀ r ∈ t.ignoredSeqNums, r.stop ≤ newRange.stop) (n : Int) :
    Ignores (t.addIgnoredSeqNumRange newRange).ignoredSeqNums n ↔
      Ignores t.ignoredSeqNums n ∨ (newRange.start ≤ n ∧ n ≤ newRange.stop) := by
  rw [ignoredSeqNums_add h]
  constructor
  · rintro ⟨r, hr, hn⟩
    rcases mem_append.mp hr with hr | hr
    · exact .inl ⟨r, (mem_filter.mp hr).1, hn⟩
    rw [mem_singleton.mp hr] at hn
    exact .inr hn
  rintro (⟨r, hr, hn⟩ | hn)
  · by_cases hlt : r.stop < newRange.start
    · exact ⟨r, mem_append_left _ (mem_filter.mpr ⟨hr, by simpa using hlt⟩), hn⟩
    refine ⟨newRange, mem_append_right _ (mem_singleton.mpr rfl), ?_⟩
    have h1 := (hstart r hr).resolve_left hlt
    have h2 := hstop r hr
    omega
  · exact ⟨newRange, mem_append_right _ (mem_singleton.mpr rfl), hn⟩

end MeshDB.Roachpb
