import MeshDB.Lib.OrderedSet
import MeshDB.Roachpb.Txn

/-!
# Versioned keys

The keys and the values of an engine: versions of values, and the metadata of intents and inline
values.
-/
namespace MeshDB.Storage

open Roachpb Hlc

/-! ## Values -/

/-- A value; an empty one is a tombstone. -/
structure MVCCValue where
  localTimestamp : Timestamp := {}
  rawBytes : List Byte
deriving DecidableEq

def MVCCValue.isTombstone (v : MVCCValue) : Bool := v.rawBytes.isEmpty

def minClockTimestamp : Timestamp := { wallTime := 0, logical := 1 }

/-- Absent, it is the version's own timestamp. -/
def MVCCValue.getLocalTimestamp (v : MVCCValue) (keyTS : Timestamp) : Timestamp :=
  if v.localTimestamp.isEmpty then
    if keyTS.synthetic then minClockTimestamp else keyTS
  else v.localTimestamp

/-- An overwritten value of an intent. -/
structure SequencedIntent where
  sequence : Int
  value : MVCCValue
deriving DecidableEq

/-- An intent, or an inline value. -/
structure MVCCMetadata where
  txn : Option TxnMeta := none
  timestamp : Timestamp := {}
  deleted : Bool := false
  keyBytes : ℤ := 0
  valBytes : ℤ := 0
  /-- The value of an inline key. -/
  rawBytes : Option (List Byte) := none
  /-- The earlier values of an intent, in the order of their sequence numbers. -/
  intentHistory : List SequencedIntent := []
  txnDidNotUpdateMeta : Option Bool := none
deriving DecidableEq

def MVCCMetadata.isInline (m : MVCCMetadata) : Bool := m.rawBytes.isSome

/-- The interval a read is uncertain in. -/
structure UncertaintyInterval where
  globalLimit : Timestamp := {}
  localLimit : Timestamp := {}
deriving DecidableEq

/-- Observed timestamps shrink the interval. -/
def UncertaintyInterval.isUncertain (i : UncertaintyInterval) (valueTs localTs : Timestamp) :
    Bool :=
  if !i.localLimit.isEmpty && i.localLimit.less localTs then false
  else valueTs.lessEq i.globalLimit

/-! ## Keys -/

structure MVCCKey where
  key : Key
  timestamp : Timestamp := {}
deriving DecidableEq

/-- `MVCCKey.Less`: metadata first, then the versions from the newest on. -/
def MVCCKey.less (k l : MVCCKey) : Bool :=
  if k.key = l.key then
    if k.timestamp.isEmpty then !l.timestamp.isEmpty
    else if l.timestamp.isEmpty then false
    else l.timestamp.less k.timestamp
  else decide (k.key < l.key)

/-!
## Intent histories

The earlier values of an intent, with the sequence numbers that a savepoint rollback made void.
-/

open List BinarySearch MVCCMetadata

/-! ## Ignored sequence numbers -/

def txnSeqIsIgnoredFrom (seq : Int) : List IgnoredSeqNumRange → Bool
  | [] => false
  | r :: rest =>
    if seq < r.start then txnSeqIsIgnoredFrom seq rest
    else if r.stop < seq then false
    else true

/-- Searched from the last range back. -/
def txnSeqIsIgnored (seq : Int) (ignored : List IgnoredSeqNumRange) : Bool :=
  txnSeqIsIgnoredFrom seq ignored.reverse

variable {seq : Int} {ignored : List IgnoredSeqNumRange}

lemma txnSeqIsIgnoredFrom_iff {rs : List IgnoredSeqNumRange}
    (hsorted : rs.Pairwise fun a b => b.stop < a.start) (hwf : ∀ r ∈ rs, r.start ≤ r.stop) :
    txnSeqIsIgnoredFrom seq rs ↔ Ignores rs seq := by
  induction rs with
  | nil => simp [txnSeqIsIgnoredFrom, Ignores]
  | cons r rs ih =>
    obtain ⟨hr, hsorted⟩ := pairwise_cons.mp hsorted
    have hrest := ih hsorted fun r' hr' => hwf r' (.tail _ hr')
    have hcons : Ignores (r :: rs) seq ↔ (r.start ≤ seq ∧ seq ≤ r.stop) ∨ Ignores rs seq := by
      simp [Ignores]
    rw [hcons, txnSeqIsIgnoredFrom]
    split_ifs with hbefore hafter
    · rw [hrest, or_iff_right (by omega)]
    · refine iff_of_false nofun ?_
      rintro (hin | ⟨r', hr', hin⟩)
      · omega
      have := hr r' hr'
      omega
    · exact iff_of_true rfl (.inl (by omega))

lemma txnSeqIsIgnored_iff (h : SortedRanges ignored) :
    txnSeqIsIgnored seq ignored ↔ Ignores ignored seq := by
  rw [txnSeqIsIgnored, txnSeqIsIgnoredFrom_iff (pairwise_reverse.mpr h.1)
    fun r hr => h.2 r (mem_reverse.mp hr)]
  simp [Ignores]

/-! ## Looking into a history -/

/-- Goes down a history to an entry that satisfies a condition: its place, counted from one. -/
def scanDown {α : Type} (p : α → Bool) (l : List α) : ℕ → ℕ
  | 0 => 0
  | i + 1 => if (l[i]?).any p then i + 1 else scanDown p l i

/-- The newest value at or below `seq`, not rolled back. -/
def MVCCMetadata.getFromIntentHistory (m : MVCCMetadata) (seq : Int)
    (ignored : List IgnoredSeqNumRange) : Option MVCCValue :=
  match scanDown (fun e => !txnSeqIsIgnored e.sequence ignored) m.intentHistory
      (searchList m.intentHistory fun e => seq < e.sequence) with
  | 0 => none
  | i + 1 => (m.intentHistory[i]?).map SequencedIntent.value

def getPrevIntentSeqFrom (history : List SequencedIntent) (seq : Int)
    (ignored : List IgnoredSeqNumRange) (stop : ℕ) : Option SequencedIntent :=
  let index := searchList (history.take stop) fun e => seq ≤ e.sequence
  if hindex : index = 0 then none
  else if (history[index - 1]?).any fun e => txnSeqIsIgnored e.sequence ignored then
    getPrevIntentSeqFrom history seq ignored (index - 1)
  else history[index - 1]?
termination_by stop
decreasing_by
  have hle : index ≤ (history.take stop).length := (search_found _ _).le
  rw [length_take] at hle
  omega

def MVCCMetadata.getPrevIntentSeq (m : MVCCMetadata) (seq : Int)
    (ignored : List IgnoredSeqNumRange) : Option SequencedIntent :=
  getPrevIntentSeqFrom m.intentHistory seq ignored m.intentHistory.length

variable {history : List SequencedIntent}

lemma getPrevIntentSeqFrom_eq (h : history.Pairwise fun a b => a.sequence < b.sequence)
    (stop : ℕ) : getPrevIntentSeqFrom history seq ignored stop =
      ((history.take stop).filter fun e =>
        !txnSeqIsIgnored e.sequence ignored && !decide (seq ≤ e.sequence)).getLast? := by
  induction stop using Nat.strong_induction_on with
  | _ stop ih =>
    have hmono : (history.take stop).Pairwise fun a b =>
        decide (seq ≤ a.sequence) → decide (seq ≤ b.sequence) := by
      refine (h.sublist (take_sublist _ _)).imp fun {a b} hlt hle => ?_
      rw [decide_eq_true_eq] at hle ⊢
      omega
    have hle : searchList (history.take stop) (fun e => decide (seq ≤ e.sequence)) ≤
        (history.take stop).length := (search_found _ _).le
    have hfilter := take_searchList hmono
    rw [getPrevIntentSeqFrom, ← filter_filter, ← hfilter]
    rw [length_take] at hle
    rw [take_take, min_eq_left (by omega)] at hfilter ⊢
    generalize searchList (history.take stop) _ = index at hle hfilter ⊢
    cases index with
    | zero => simp
    | succ i =>
      have hi : i < history.length := by omega
      have htake : history.take (i + 1) = history.take i ++ [history[i]] :=
        take_succ_eq_append_getElem hi
      simp only [Nat.add_sub_cancel, List.getElem?_eq_getElem hi, Option.any_some]
      rw [dif_neg (by omega), htake, filter_append]
      split_ifs with hign
      · rw [ih i (by omega), ← filter_filter]
        have hbelow : (history.take i).filter (fun e => !decide (seq ≤ e.sequence)) =
            history.take i := by
          rw [filter_eq_self]
          intro e he
          have : e ∈ history.take (i + 1) := htake ▸ mem_append_left _ he
          rw [hfilter] at this
          exact (mem_filter.mp this).2
        simp [hbelow, hign]
      · simp [hign]

/-- The lookups find what is ignored, and the last entry below a sequence that is not. -/
theorem getPrevIntentSeq_spec (m : MVCCMetadata)
    (hm : m.intentHistory.Pairwise fun a b => a.sequence < b.sequence)
    (hignored : SortedRanges ignored) (seq : Int) :
    (txnSeqIsIgnored seq ignored = true ↔ Ignores ignored seq) ∧
    (∀ e, m.getPrevIntentSeq seq ignored = some e ↔
      (e ∈ m.intentHistory ∧ e.sequence < seq ∧ ¬ Ignores ignored e.sequence) ∧
        ∀ e' ∈ m.intentHistory, e'.sequence < seq → ¬ Ignores ignored e'.sequence →
          e'.sequence ≤ e.sequence) ∧
    (m.getPrevIntentSeq seq ignored = none ↔
      ∀ e ∈ m.intentHistory, e.sequence < seq → Ignores ignored e.sequence) := by
  have hmem : ∀ e, e ∈ m.intentHistory.filter (fun e =>
      !txnSeqIsIgnored e.sequence ignored && !decide (seq ≤ e.sequence)) ↔
      e ∈ m.intentHistory ∧ e.sequence < seq ∧ ¬ Ignores ignored e.sequence := by
    intro e
    rw [mem_filter, ← txnSeqIsIgnored_iff hignored]
    simp [and_comm]
  have hsorted := hm.filter fun e =>
    !txnSeqIsIgnored e.sequence ignored && !decide (seq ≤ e.sequence)
  refine ⟨txnSeqIsIgnored_iff hignored, fun e => ?_, ?_⟩
  · rw [getPrevIntentSeq, getPrevIntentSeqFrom_eq hm, take_length,
      BinarySearch.getLast?_eq_some_iff hsorted, hmem]
    simp only [hmem, and_imp]
  rw [getPrevIntentSeq, getPrevIntentSeqFrom_eq hm, take_length,
    getLast?_eq_none_iff, eq_nil_iff_forall_not_mem]
  refine forall_congr' fun e => ?_
  rw [hmem]
  tauto

theorem getPrevIntentSeq_rolled_back : getPrevIntentSeq
    { intentHistory := [⟨1, ⟨{}, []⟩⟩, ⟨3, ⟨{}, []⟩⟩] } 5 [⟨2, 4⟩] = some ⟨1, ⟨{}, []⟩⟩ := by
  refine ((getPrevIntentSeq_spec _ ?_ ?_ 5).2.1 _).mpr ?_
  · simp
  · simp [SortedRanges]
  · simp [Ignores]

/-!
## The contents of a key

What an iterator sees at one key: its metadata, its versions and the MVCC range tombstones over
it. A key with the metadata of an intent has the provisional value as its newest version.
-/

open Timestamp

/-- A version of a key, or a range tombstone. -/
structure Version where
  timestamp : Timestamp
  value : MVCCValue
deriving DecidableEq

/-- What the store has for one key. -/
structure KeyState where
  metadata : Option MVCCMetadata := none
  /-- Newest first. -/
  versions : List Version := []
  /-- Newest first. -/
  rangeTombstones : List Version := []
deriving DecidableEq

/-! ## Versions -/

/-- Keeps the versions newest first. -/
def putMVCC (v : Version) : List Version → List Version
  | [] => [v]
  | w :: rest =>
    if w.timestamp.less v.timestamp then v :: w :: rest
    else if w.timestamp.eqOrdering v.timestamp then v :: rest
    else w :: putMVCC v rest

def clearMVCC (ts : Timestamp) (versions : List Version) : List Version :=
  versions.filter fun v => !v.timestamp.eqOrdering ts

def firstAtOrBelow (versions : List Version) (ts : Timestamp) : Option Version :=
  versions[searchList versions fun v => v.timestamp.lessEq ts]?

def firstAtOrAbove (versions : List Version) (ts : Timestamp) : Option Version :=
  match searchList versions fun v => v.timestamp.less ts with
  | 0 => none
  | i + 1 => versions[i]?

def Descending (versions : List Version) : Prop :=
  versions.Pairwise fun v w => w.timestamp.ord < v.timestamp.ord

instance (versions : List Version) : Decidable (Descending versions) :=
  inferInstanceAs (Decidable (versions.Pairwise _))

def Below (versions : List Version) (ts : Timestamp) : Prop :=
  ∀ v ∈ versions, v.timestamp.ord < ts.ord

variable {versions : List Version} {v : Version} {ts : Timestamp}

lemma descending_cons : Descending (v :: versions) ↔
    Below versions v.timestamp ∧ Descending versions := pairwise_cons

lemma Descending.eq_of_ord_eq (h : Descending versions) {w : Version} (hv : v ∈ versions)
    (hw : w ∈ versions) (heq : v.timestamp.ord = w.timestamp.ord) : v = w := by
  by_contra hne
  have hpairwise : versions.Pairwise fun v w => v.timestamp.ord ≠ w.timestamp.ord :=
    h.imp fun hlt => hlt.ne'
  have : Std.Symm fun v w : Version => v.timestamp.ord ≠ w.timestamp.ord := ⟨fun _ _ => Ne.symm⟩
  exact hpairwise.forall hv hw hne heq

lemma Descending.le_of_find? (h : Descending versions) {w : Version}
    (hfind : versions.find? (·.timestamp.lessEq ts) = some v) (hw : w ∈ versions)
    (hle : w.timestamp.ord ≤ ts.ord) : w.timestamp.ord ≤ v.timestamp.ord := by
  obtain ⟨_, as, bs, heq, has⟩ := find?_eq_some_iff_append.mp hfind
  rw [heq] at hw h
  rcases mem_append.mp hw with hw | hw
  · have hnot := has w hw
    rw [lessEq_iff.mpr hle] at hnot
    cases hnot
  rcases mem_cons.mp hw with rfl | hw
  · exact le_rfl
  · exact ((pairwise_cons.mp (pairwise_append.mp h).2.1).1 w hw).le

lemma Descending.less_mono (h : Descending versions) (ts : Timestamp) :
    versions.Pairwise fun v w => v.timestamp.less ts → w.timestamp.less ts := by
  refine h.imp ?_
  intro v w hlt hv
  rw [less_iff] at hv ⊢
  exact hlt.trans hv

lemma Descending.lessEq_mono (h : Descending versions) (ts : Timestamp) :
    versions.Pairwise fun v w => v.timestamp.lessEq ts → w.timestamp.lessEq ts := by
  refine h.imp ?_
  intro v w hlt hv
  rw [lessEq_iff] at hv ⊢
  exact hlt.le.trans hv

lemma Descending.firstAtOrBelow (h : Descending versions) (ts : Timestamp) :
    firstAtOrBelow versions ts = versions.find? fun v => v.timestamp.lessEq ts :=
  BinarySearch.getElem?_searchList (h.lessEq_mono ts)

lemma Descending.firstAtOrAbove_eq (h : Descending versions) (ts : Timestamp) :
    firstAtOrAbove versions ts = (versions.filter fun v => !v.timestamp.less ts).getLast? := by
  have hle : searchList versions (fun v => v.timestamp.less ts) ≤ versions.length :=
    (search_found _ _).le
  rw [← take_searchList (h.less_mono ts), firstAtOrAbove]
  generalize searchList versions _ = index at hle
  cases index with
  | zero => rfl
  | succ i => simp [getLast?_take, List.getElem?_eq_getElem (show i < versions.length by omega)]

lemma mem_atOrAbove : v ∈ versions.filter (fun v => !v.timestamp.less ts) ↔
    v ∈ versions ∧ ts.ord ≤ v.timestamp.ord := by
  rw [mem_filter, Bool.not_eq_true', not_less_iff]

lemma Descending.firstAtOrAbove_iff (h : Descending versions) :
    firstAtOrAbove versions ts = some v ↔ (v ∈ versions ∧ ts.ord ≤ v.timestamp.ord) ∧
      ∀ w ∈ versions, ts.ord ≤ w.timestamp.ord → v.timestamp.ord ≤ w.timestamp.ord := by
  have hdual := BinarySearch.getLast?_eq_some_iff (a := v)
    (f := fun v : Version => OrderDual.toDual v.timestamp.ord)
    (h.filter fun v => !v.timestamp.less ts)
  simp only [mem_atOrAbove, OrderDual.toDual_le_toDual, and_imp] at hdual
  rw [h.firstAtOrAbove_eq, hdual]

/-! ## Timestamps -/

/-- A timestamp after zero with the parts in the ranges of their types. -/
structure Stamp (t : Timestamp) : Prop where
  wallTime_nonneg : 0 ≤ t.wallTime
  logical_nonneg : 0 ≤ t.logical
  logical_le : t.logical ≤ Timestamp.maxInt32
  pos : 0 < t.wallTime ∨ 0 < t.logical

lemma stamp_iff {t : Timestamp} : Stamp t ↔ 0 ≤ t.wallTime ∧ 0 ≤ t.logical ∧
    t.logical ≤ Timestamp.maxInt32 ∧ (0 < t.wallTime ∨ 0 < t.logical) :=
  ⟨fun h => ⟨h.1, h.2, h.3, h.4⟩, fun h => ⟨h.1, h.2.1, h.2.2.1, h.2.2.2⟩⟩

instance (t : Timestamp) : Decidable (Stamp t) := decidable_of_iff _ stamp_iff.symm

lemma Stamp.not_isEmpty {t : Timestamp} (h : Stamp t) : t.isEmpty = false := by
  have := h.pos
  by_contra hne
  simp [Timestamp.isEmpty] at hne
  omega

/-! ## Well-formed contents -/

def mvccVersionTimestampSize : ℤ := 12

/-- The committed versions of a key and the range tombstones over it. -/
structure History (versions rangeTombstones : List Version) : Prop where
  descending : Descending versions
  rangeDescending : Descending rangeTombstones
  stamps : ∀ v ∈ versions, Stamp v.timestamp
  rangeStamps : ∀ v ∈ rangeTombstones, Stamp v.timestamp
  tombstones : ∀ v ∈ rangeTombstones, v.value.rawBytes = []

end MeshDB.Storage
