import MeshDB.Lib.Slice
import MeshDB.Roachpb.Txn

/-!
# Merging two versions of a transaction

`Transaction.Update` on all fields of the record. Several versions of the transaction share the
slice of observed timestamps, so the update has to copy what it changes.
-/
namespace MeshDB.Roachpb

open List Slice Hlc BinarySearch Transaction

structure ObservedTimestamp where
  nodeID : Int := 0
  timestamp : Timestamp := {}
deriving DecidableEq, Inhabited

/-! ## `observedTimestampSlice` -/

def SortedObserved (l : List ObservedTimestamp) : Prop :=
  l.Pairwise fun a b => a.nodeID < b.nodeID

instance (l : List ObservedTimestamp) : Decidable (SortedObserved l) :=
  inferInstanceAs (Decidable (l.Pairwise _))

namespace ObservedTimestamp

def index (s : List ObservedTimestamp) (nodeID : Int) : ℕ :=
  searchList s fun v => decide (nodeID ≤ v.nodeID)

def get (s : List ObservedTimestamp) (nodeID : Int) : Option Timestamp :=
  match s[index s nodeID]? with
  | some v => if v.nodeID = nodeID then some v.timestamp else none
  | none => none

/-- The new entry at the position of the node in a copy with room for it. -/
def insertCopy (m : Memory ObservedTimestamp) (s : Slice) (v : ObservedTimestamp) :
    Memory ObservedTimestamp × Slice :=
  let l := read m s
  let cpy := alloc m (List.replicate (l.length + 1) default) (l.length + 1)
  (write cpy.1 cpy.2 (l.take (index l v.nodeID) ++ v :: l.drop (index l v.nodeID)), cpy.2)

def setCopy (m : Memory ObservedTimestamp) (s : Slice) (v : ObservedTimestamp) :
    Memory ObservedTimestamp × Slice :=
  let l := read m s
  let cpy := alloc m l l.length
  (write cpy.1 cpy.2 (l.set (index l v.nodeID) v), cpy.2)

def update (m : Memory ObservedTimestamp) (s : Slice) (v : ObservedTimestamp) :
    Memory ObservedTimestamp × Slice :=
  match (read m s)[index (read m s) v.nodeID]? with
  | some w =>
    if w.nodeID = v.nodeID then
      if v.timestamp.less w.timestamp then setCopy m s v else (m, s)
    else insertCopy m s v
  | none => insertCopy m s v

/-- `UpdateObservedTimestamp`, with its fast paths for no entry and for one entry. -/
def updateObservedTimestamp (m : Memory ObservedTimestamp) (s : Slice)
    (v : ObservedTimestamp) : Memory ObservedTimestamp × Slice :=
  match read m s with
  | [] => alloc m [v] 1
  | [w] =>
    if w.nodeID = v.nodeID then
      if v.timestamp.less w.timestamp then alloc m [v] 1 else (m, s)
    else update m s v
  | _ => update m s v

def absorb (m : Memory ObservedTimestamp) (s : Slice) :
    List ObservedTimestamp → Memory ObservedTimestamp × Slice
  | [] => (m, s)
  | v :: vs => absorb (updateObservedTimestamp m s v).1 (updateObservedTimestamp m s v).2 vs

/-! ### What the updates leave in the slice -/

variable {l : List ObservedTimestamp} {v w : ObservedTimestamp} {n : Int} {ts : Timestamp}

section
variable (h : SortedObserved l)
include h

lemma pairwise_index (n : Int) :
    l.Pairwise fun a b => decide (n ≤ a.nodeID) → decide (n ≤ b.nodeID) := by
  apply h.imp
  intro a b hlt ha
  have hle : n ≤ a.nodeID := by simpa using ha
  simp only [decide_eq_true_eq]
  omega

lemma take_index (n : Int) : l.take (index l n) = l.filter fun v => decide (v.nodeID < n) := by
  rw [index, take_searchList (pairwise_index h n)]
  apply filter_congr
  intro v _
  rw [← decide_not, decide_eq_decide, not_le]

lemma drop_index (n : Int) : l.drop (index l n) = l.filter fun v => decide (n ≤ v.nodeID) :=
  drop_searchList (pairwise_index h n)

lemma getElem?_index (hv : v ∈ l) : l[index l v.nodeID]? = some v := by
  rw [index, getElem?_searchList (pairwise_index h _)]
  induction l with
  | nil => cases hv
  | cons w l ih =>
    obtain ⟨hw, hl⟩ := pairwise_cons.mp h
    rcases mem_cons.mp hv with rfl | hmem
    · simp
    have hlt : w.nodeID < v.nodeID := hw v hmem
    rw [find?_cons_of_neg (by simpa using hlt)]
    exact ih hl hmem

lemma get_eq_some_iff : get l n = some ts ↔ ⟨n, ts⟩ ∈ l := by
  constructor
  · intro hget
    unfold get at hget
    split at hget
    · rename_i v hv
      split_ifs at hget with hn
      cases hget
      subst hn
      exact mem_of_getElem? hv
    · cases hget
  intro hmem
  have hat := getElem?_index h hmem
  unfold get
  rw [show l[index l n]? = some ⟨n, ts⟩ from hat]
  simp

end

def put (l : List ObservedTimestamp) (v : ObservedTimestamp) : List ObservedTimestamp :=
  (l.filter fun w => decide (w.nodeID < v.nodeID)) ++
    v :: l.filter fun w => decide (v.nodeID < w.nodeID)

lemma mem_put : w ∈ put l v ↔ w = v ∨ w ∈ l ∧ w.nodeID ≠ v.nodeID := by
  simp only [put, mem_append, mem_cons, mem_filter, decide_eq_true_eq]
  have hne : w.nodeID ≠ v.nodeID ↔ w.nodeID < v.nodeID ∨ v.nodeID < w.nodeID := ne_iff_lt_or_gt
  rw [hne]
  tauto

lemma sorted_put (h : SortedObserved l) : SortedObserved (put l v) := by
  unfold SortedObserved put
  rw [pairwise_append, pairwise_cons]
  refine ⟨h.filter _, ⟨?_, h.filter _⟩, ?_⟩
  · intro w hw
    simpa using (mem_filter.mp hw).2
  intro w hw u hu
  have hlt : w.nodeID < v.nodeID := by simpa using (mem_filter.mp hw).2
  rcases mem_cons.mp hu with rfl | hu
  · exact hlt
  have hgt : v.nodeID < u.nodeID := by simpa using (mem_filter.mp hu).2
  omega

lemma get_of_mem_iff {l' : List ObservedTimestamp} (h : SortedObserved l)
    (h' : SortedObserved l') (hmem : ∀ w, w ∈ l' ↔ w = v ∨ w ∈ l ∧ w.nodeID ≠ v.nodeID) (n : Int) :
    get l' n = if n = v.nodeID then some v.timestamp else get l n := by
  apply Option.ext
  intro ts
  rw [get_eq_some_iff h', hmem]
  split_ifs with hn
  · have hsame : (⟨n, ts⟩ : ObservedTimestamp) = v ↔ v.timestamp = ts := by
      cases v
      simp [hn, eq_comm]
    rw [hsame]
    simp [hn]
  have hother : (⟨n, ts⟩ : ObservedTimestamp) ≠ v := by
    intro heq
    exact hn (congrArg nodeID heq)
  rw [get_eq_some_iff h]
  simp [hn, hother]

lemma get_cons (h : SortedObserved (v :: l)) (n : Int) :
    get (v :: l) n = if n = v.nodeID then some v.timestamp else get l n := by
  obtain ⟨hv, hl⟩ := pairwise_cons.mp h
  apply get_of_mem_iff hl h
  intro w
  rw [mem_cons]
  constructor
  · rintro (rfl | hmem)
    · exact .inl rfl
    · exact .inr ⟨hmem, (hv w hmem).ne'⟩
  rintro (rfl | hmem)
  · exact .inl rfl
  · exact .inr hmem.1

lemma drop_index_succ (h : SortedObserved l) (hv : v ∈ l) :
    l.drop (index l v.nodeID + 1) = l.filter fun w => decide (v.nodeID < w.nodeID) := by
  have hat := getElem?_index h hv
  obtain ⟨hlt, hget⟩ := List.getElem?_eq_some_iff.mp hat
  have hdrop := drop_eq_getElem_cons hlt
  rw [hget] at hdrop
  have hsorted : SortedObserved (l.drop (index l v.nodeID)) := List.Pairwise.drop h
  rw [hdrop] at hsorted
  have hrest : (l.drop (index l v.nodeID + 1)).filter (fun w => decide (v.nodeID < w.nodeID))
      = l.drop (index l v.nodeID + 1) := by
    apply filter_eq_self.mpr
    intro w hw
    simpa using (pairwise_cons.mp hsorted).1 w hw
  have hfirst : (l.take (index l v.nodeID)).filter (fun w => decide (v.nodeID < w.nodeID))
      = [] := by
    rw [take_index h, filter_filter, filter_eq_nil_iff]
    intro w _
    simp only [Bool.and_eq_true, decide_eq_true_eq]
    omega
  conv_rhs => rw [← take_append_drop (index l v.nodeID) l, filter_append, hfirst,
    hdrop, nil_append, filter_cons_of_neg (by simp), hrest]

lemma insert_eq_put (h : SortedObserved l) (hnone : ∀ w ∈ l, w.nodeID ≠ v.nodeID) :
    l.take (index l v.nodeID) ++ v :: l.drop (index l v.nodeID) = put l v := by
  rw [take_index h, drop_index h, put]
  congr 2
  apply filter_congr
  intro w hw
  have hne := hnone w hw
  rw [decide_eq_decide]
  omega

lemma set_eq_put (h : SortedObserved l) (hw : w ∈ l) (hn : w.nodeID = v.nodeID) :
    l.set (index l v.nodeID) v = put l v := by
  have hlt : index l v.nodeID < l.length := by
    rw [← hn]
    exact (List.getElem?_eq_some_iff.mp (getElem?_index h hw)).1
  have hdrop := drop_index_succ h hw
  rw [hn] at hdrop
  rw [set_eq_take_append_cons_drop, if_pos hlt, take_index h, hdrop, put]

def lowest : Option Timestamp → Option Timestamp → Option Timestamp
  | none, b => b
  | a, none => a
  | some a, some b => some (if b.less a then b else a)

/-- The arrays stay, and in the sorted list the node has the lower timestamp. -/
structure Observes (m : Memory ObservedTimestamp) (l : List ObservedTimestamp)
    (f : Int → Option Timestamp) (r : Memory ObservedTimestamp × Slice) : Prop where
  keeps : Keeps m r.1
  length : (read r.1 r.2).length = r.2.len
  sorted : SortedObserved (read r.1 r.2)
  get : ∀ n, get (read r.1 r.2) n = lowest (get l n) (f n)

/-- What one observation says of the nodes. -/
def only (v : ObservedTimestamp) (n : Int) : Option Timestamp :=
  if n = v.nodeID then some v.timestamp else none

lemma lowest_none (a : Option Timestamp) : lowest a none = a := by
  cases a <;> rfl

variable {m : Memory ObservedTimestamp} {s : Slice}

lemma Observes.of_put {r : Memory ObservedTimestamp × Slice}
    (hl : SortedObserved l) (hkeeps : Keeps m r.1) (hread : read r.1 r.2 = put l v)
    (hlen : r.2.len = (put l v).length)
    (hlow : ∀ ts, ObservedTimestamp.get l v.nodeID = some ts → v.timestamp.less ts) :
    Observes m l (only v) r := by
  refine ⟨hkeeps, by rw [hread, hlen], hread ▸ sorted_put hl, fun n => ?_⟩
  rw [hread, get_of_mem_iff hl (sorted_put hl) fun _ => mem_put, only]
  by_cases hn : n = v.nodeID
  · subst hn
    rw [if_pos rfl, if_pos rfl]
    cases hget : ObservedTimestamp.get l v.nodeID with
    | none => rfl
    | some ts => rw [lowest, if_pos (hlow ts hget)]
  · rw [if_neg hn, if_neg hn, lowest_none]

lemma Observes.of_same (hlen : (read m s).length = s.len)
    (hl : SortedObserved (read m s)) (hw : w ∈ read m s) (hn : w.nodeID = v.nodeID)
    (hle : ¬ v.timestamp.less w.timestamp) :
    Observes m (read m s) (only v) (m, s) := by
  refine ⟨Keeps.refl m, hlen, hl, fun n => ?_⟩
  rw [only]
  by_cases hnode : n = v.nodeID
  · have hget : ObservedTimestamp.get (read m s) n = some w.timestamp := by
      rw [get_eq_some_iff hl, hnode, ← hn]
      exact hw
    rw [hget, if_pos hnode, lowest, if_neg hle]
  · rw [if_neg hnode, lowest_none]

lemma insertCopy_observes (hl : SortedObserved (read m s))
    (hnone : ∀ w ∈ read m s, w.nodeID ≠ v.nodeID) :
    Observes m (read m s) (only v) (insertCopy m s v) := by
  have hput := insert_eq_put hl hnone
  have hlen : (put (read m s) v).length = (read m s).length + 1 := by
    rw [← hput]
    simp only [length_append, length_take, length_cons, length_drop]
    omega
  apply Observes.of_put hl
  · exact (keeps_alloc _ _ _).write le_rfl
  · unfold insertCopy
    dsimp only
    rw [hput]
    rw [read_write (by simp [alloc]) (by simp [alloc, hlen])]
    apply take_of_length_le
    simp [alloc, hlen]
  · rw [hlen]
    simp [insertCopy, alloc]
  · intro ts hts
    exact absurd rfl (hnone ⟨v.nodeID, ts⟩ ((get_eq_some_iff hl).mp hts))

lemma setCopy_observes (hl : SortedObserved (read m s)) (hw : w ∈ read m s)
    (hn : w.nodeID = v.nodeID) (hlt : v.timestamp.less w.timestamp) :
    Observes m (read m s) (only v) (setCopy m s v) := by
  have hput := set_eq_put hl hw hn
  have hlen : (put (read m s) v).length = (read m s).length := by
    rw [← hput, length_set]
  apply Observes.of_put hl
  · exact (keeps_alloc _ _ _).write le_rfl
  · unfold setCopy
    dsimp only
    rw [hput]
    rw [read_write (by simp [alloc]) (by simp [alloc, hlen])]
    apply take_of_length_le
    simp [alloc, hlen]
  · rw [hlen]
    rfl
  intro ts hts
  have hmem := getElem?_index hl ((get_eq_some_iff hl).mp hts)
  have hsame := getElem?_index hl hw
  rw [hn] at hsame
  cases hmem.symm.trans hsame
  exact hlt

lemma update_observes (hlen : (read m s).length = s.len)
    (hl : SortedObserved (read m s)) :
    Observes m (read m s) (only v) (update m s v) := by
  have hnone : (∀ w, (read m s)[index (read m s) v.nodeID]? = some w →
      w.nodeID ≠ v.nodeID) → ∀ w ∈ read m s, w.nodeID ≠ v.nodeID := by
    intro hat w hw hn
    have hget := getElem?_index hl hw
    rw [hn] at hget
    exact hat w hget hn
  unfold update
  split
  · rename_i w hw
    have hmem := mem_of_getElem? hw
    split_ifs with hn hlt
    · exact setCopy_observes hl hmem hn hlt
    · exact Observes.of_same hlen hl hmem hn hlt
    apply insertCopy_observes hl
    apply hnone
    intro w' hw'
    cases hw.symm.trans hw'
    exact hn
  rename_i hat
  apply insertCopy_observes hl
  apply hnone
  intro w hw
  cases hat.symm.trans hw

lemma updateObservedTimestamp_observes (hlen : (read m s).length = s.len)
    (hl : SortedObserved (read m s)) :
    Observes m (read m s) (only v) (updateObservedTimestamp m s v) := by
  unfold updateObservedTimestamp
  split
  · rename_i hnil
    rw [hnil]
    apply Observes.of_put List.Pairwise.nil (keeps_alloc _ _ _)
    · exact read_alloc _ _ _
    · rfl
    intro ts hts
    cases hts
  · rename_i w hone
    have hmem : w ∈ read m s := by
      rw [hone]
      exact mem_singleton_self w
    split_ifs with hn hlt
    · have hput : put (read m s) v = [v] := by
        rw [hone]
        simp [put, hn]
      apply Observes.of_put hl (keeps_alloc _ _ _)
      · rw [read_alloc, hput]
      · rw [hput]
        rfl
      intro ts hts
      have hts := (get_eq_some_iff hl).mp hts
      rw [hone, mem_singleton] at hts
      rw [← hts] at hlt
      exact hlt
    · exact Observes.of_same hlen hl hmem hn hlt
    · exact update_observes hlen hl
  · exact update_observes hlen hl

lemma absorb_observes {os : List ObservedTimestamp} (hos : SortedObserved os)
    (hlen : (read m s).length = s.len) (hl : SortedObserved (read m s)) :
    Observes m (read m s) (get os) (absorb m s os) := by
  induction os generalizing m s with
  | nil => exact ⟨Keeps.refl m, hlen, hl, fun n => (lowest_none _).symm⟩
  | cons v os ih =>
    obtain ⟨hv, hrest⟩ := pairwise_cons.mp hos
    have hstep := updateObservedTimestamp_observes (v := v) hlen hl
    have hloop := ih hrest hstep.length hstep.sorted
    refine { hloop with keeps := hstep.keeps.trans hloop.keeps, get := fun n => ?_ }
    rw [absorb, hloop.get, hstep.get, get_cons hos, only]
    by_cases hn : n = v.nodeID
    · have hnone : get os n = none := by
        rw [Option.eq_none_iff_forall_ne_some]
        intro ts hts
        have hlt := hv _ ((get_eq_some_iff hrest).mp hts)
        simp only [hn, lt_self_iff_false] at hlt
      rw [if_pos hn, if_pos hn, hnone, lowest_none]
    · rw [if_neg hn, if_neg hn, lowest_none]

end ObservedTimestamp

/-! ## `Transaction.Update` -/

def minTxnPriority : Int := 0

/-- A transaction with all its fields. The zero id is that of a transaction that was never
initialized. -/
structure TransactionRecord extends Transaction where
  priority : Int := 0
  minTimestamp : Timestamp := {}
  lastHeartbeat : Timestamp := {}
  observedTimestamps : Slice := ⟨0, 0, 0⟩
  lockSpans : Slice := ⟨0, 0, 0⟩
  inFlightWrites : Slice := ⟨0, 0, 0⟩
deriving DecidableEq

namespace TransactionRecord

def initialized (t : TransactionRecord) : Bool := t.id ≠ 0 && !t.writeTimestamp.isEmpty

def upgradePriority (priority minPriority : Int) : Int :=
  if priority < minPriority ∧ priority ≠ minTxnPriority then minPriority else priority

def updateMinTimestamp (t o : Timestamp) : Timestamp :=
  if t.isEmpty then o else if o.isEmpty then t else t.backward o

/-- A list that is handed over with the epoch it belongs to. -/
def updateEpochSlice (t o : TransactionRecord) (field : TransactionRecord → Slice) : Slice :=
  if t.epoch < o.epoch then field o
  else if t.epoch = o.epoch then if 0 < (field o).len then field o else field t
  else field t

/-- The fields that the merge of the smaller record leaves out. -/
def updateRest (m : Memory ObservedTimestamp) (t o : TransactionRecord) (u : Transaction) :
    Memory ObservedTimestamp × TransactionRecord :=
  let observed := ObservedTimestamp.absorb m t.observedTimestamps
    (read m o.observedTimestamps)
  (observed.1,
    { toTransaction := u
      priority := upgradePriority t.priority o.priority
      minTimestamp := updateMinTimestamp t.minTimestamp o.minTimestamp
      lastHeartbeat := t.lastHeartbeat.forward o.lastHeartbeat
      observedTimestamps := observed.2
      lockSpans := updateEpochSlice t o lockSpans
      inFlightWrites := updateEpochSlice t o inFlightWrites })

def update (m : Memory ObservedTimestamp) (t o : TransactionRecord) :
    Option (Memory ObservedTimestamp × TransactionRecord) :=
  if !o.initialized then none
  else if t.id = 0 then some (m, o)
  else (t.toTransaction.update o.toTransaction).map (updateRest m t o)

/-- A version of a transaction whose observed timestamps are in memory, sorted by distinct
node. -/
structure WellFormed (m : Memory ObservedTimestamp) (t : TransactionRecord) : Prop where
  initialized : t.initialized
  length : (read m t.observedTimestamps).length = t.observedTimestamps.len
  sorted : SortedObserved (read m t.observedTimestamps)

/-- All that the merge of two versions keeps of them but a finalized status. -/
structure Merges (m : Memory ObservedTimestamp) (t o : TransactionRecord)
    (m' : Memory ObservedTimestamp) (u : TransactionRecord) : Prop where
  epoch : t.epoch ≤ u.epoch ∧ o.epoch ≤ u.epoch
  writeTimestamp : t.writeTimestamp.ord ≤ u.writeTimestamp.ord ∧
    o.writeTimestamp.ord ≤ u.writeTimestamp.ord
  readTimestamp : t.readTimestamp.ord ≤ u.readTimestamp.ord ∧
    o.readTimestamp.ord ≤ u.readTimestamp.ord
  lastHeartbeat : t.lastHeartbeat.ord ≤ u.lastHeartbeat.ord ∧
    o.lastHeartbeat.ord ≤ u.lastHeartbeat.ord
  globalUncertaintyLimit : t.globalUncertaintyLimit.ord ≤ u.globalUncertaintyLimit.ord ∧
    o.globalUncertaintyLimit.ord ≤ u.globalUncertaintyLimit.ord
  priority : t.priority ≠ minTxnPriority → t.priority ≤ u.priority ∧ o.priority ≤ u.priority
  minPriority : t.priority = minTxnPriority → u.priority = minTxnPriority
  sequence : (u.epoch = t.epoch → t.sequence ≤ u.sequence) ∧
    (u.epoch = o.epoch → o.sequence ≤ u.sequence)
  readLeWrite : t.readTimestamp.ord ≤ t.writeTimestamp.ord →
    o.readTimestamp.ord ≤ o.writeTimestamp.ord → u.readTimestamp.ord ≤ u.writeTimestamp.ord
  sorted : SortedObserved (read m' u.observedTimestamps)
  observed : ∀ n, ObservedTimestamp.get (read m' u.observedTimestamps) n =
    ObservedTimestamp.lowest (ObservedTimestamp.get (read m t.observedTimestamps) n)
      (ObservedTimestamp.get (read m o.observedTimestamps) n)
  /-- No array changes, so no slice of these versions or of others does. -/
  keeps : Keeps m m'

variable {m : Memory ObservedTimestamp} {t o : TransactionRecord}

lemma le_forward (t s : Timestamp) : t.ord ≤ (t.forward s).ord ∧ s.ord ≤ (t.forward s).ord := by
  rw [Timestamp.ord_forward]
  exact ⟨le_max_left _ _, le_max_right _ _⟩

lemma upgradePriority_ge {p q : Int} (hp : p ≠ minTxnPriority) :
    p ≤ upgradePriority p q ∧ q ≤ upgradePriority p q := by
  unfold upgradePriority
  split_ifs with h <;> omega

lemma updateEpochState_epoch (t o : Transaction) :
    (t.updateEpochState o).epoch = max t.epoch o.epoch := by
  rcases lt_trichotomy t.epoch o.epoch with hlt | heq | hgt
  · simp [updateEpochState, hlt, hlt.le]
  · simp [updateEpochState, heq]
  · simp [updateEpochState, hgt.not_gt, hgt.ne', hgt.le]

lemma updateEpochState_sequence (t o : Transaction) :
    ((t.updateEpochState o).epoch = t.epoch → t.sequence ≤ (t.updateEpochState o).sequence) ∧
      ((t.updateEpochState o).epoch = o.epoch → o.sequence ≤ (t.updateEpochState o).sequence) := by
  rw [updateEpochState_epoch]
  rcases lt_trichotomy t.epoch o.epoch with hlt | heq | hgt
  · simp only [updateEpochState, hlt, ↓reduceIte]
    omega
  · simp only [updateEpochState, heq, lt_irrefl, ↓reduceIte]
    omega
  simp only [updateEpochState, hgt.not_gt, hgt.ne', ↓reduceIte]
  omega

lemma isFinalized_iff {status : TransactionStatus} :
    status.isFinalized ↔ status = .committed ∨ status = .aborted := by
  cases status <;> decide

/-- A finalized status stays, but for an abort at a lower epoch that reaches a committed
transaction. -/
lemma updateEpochState_status {t o : Transaction} :
    (t.status.isFinalized → (t.updateEpochState o).status = t.status) ↔
      ¬ (t.status = .committed ∧ o.status = .aborted ∧ o.epoch < t.epoch) := by
  rcases lt_trichotomy t.epoch o.epoch with hlt | heq | hgt
  · simp +contextual [updateEpochState, hlt, hlt.le]
  · simp only [updateEpochState, heq, lt_irrefl, ↓reduceIte, updateStatus, and_false,
      not_false_eq_true, iff_true, isFinalized_iff]
    rintro (hstatus | hstatus) <;> rw [hstatus]
  simp only [updateEpochState, hgt.not_gt, hgt.ne', ↓reduceIte, isFinalized_iff]
  split_ifs with ho
  · cases hstatus : t.status <;> simp [ho, hgt]
  · simp [ho]

/-- Two versions merge, and a finalized status stays if and only if no abort at a lower epoch
reaches a committed transaction. -/
theorem update_merges (ht : t.WellFormed m) (ho : o.WellFormed m) (hid : t.id = o.id) :
    ∃ m' u, update m t o = some (m', u) ∧ Merges m t o m' u ∧
      ((t.status.isFinalized → u.status = t.status) ↔
        ¬ (t.status = .committed ∧ o.status = .aborted ∧ o.epoch < t.epoch)) := by
  have hzero : t.id ≠ 0 := by
    have hinit := ht.initialized
    simp only [TransactionRecord.initialized, Bool.and_eq_true, decide_eq_true_eq] at hinit
    exact hinit.1
  have hobserves := ObservedTimestamp.absorb_observes ho.sorted ht.length ht.sorted
  have hupdate : ∃ u, t.toTransaction.update o.toTransaction = some u ∧
      update m t o = some (updateRest m t o u) := by
    refine ⟨_, if_neg (not_not.mpr hid), ?_⟩
    rw [update, ho.initialized, Bool.not_true, if_neg Bool.false_ne_true, if_neg hzero,
      Transaction.update, if_neg (not_not.mpr hid), Option.map_some]
  obtain ⟨u, hu, hrest⟩ := hupdate
  rw [Transaction.update, if_neg (not_not.mpr hid)] at hu
  cases hu
  refine ⟨_, _, hrest, ?_, updateEpochState_status⟩
  · constructor
    · show t.epoch ≤ (t.updateEpochState o.toTransaction).epoch ∧
        o.epoch ≤ (t.updateEpochState o.toTransaction).epoch
      rw [updateEpochState_epoch]
      exact ⟨le_max_left _ _, le_max_right _ _⟩
    · exact le_forward _ _
    · exact le_forward _ _
    · exact le_forward _ _
    · exact le_forward _ _
    · exact upgradePriority_ge
    · intro hmin
      show upgradePriority t.priority o.priority = minTxnPriority
      rw [upgradePriority, if_neg fun h => h.2 hmin, hmin]
    · exact updateEpochState_sequence t.toTransaction o.toTransaction
    · intro htle hole
      show (t.readTimestamp.forward o.readTimestamp).ord ≤
        (t.writeTimestamp.forward o.writeTimestamp).ord
      rw [Timestamp.ord_forward, Timestamp.ord_forward]
      exact max_le_max htle hole
    · exact hobserves.sorted
    · exact hobserves.get
    · exact hobserves.keeps

/-- Two versions that share an array of observed timestamps. -/
theorem update_merges_shared :
    ∃ m' u, update [[⟨1, { wallTime := 5 }⟩, ⟨3, { wallTime := 5 }⟩]]
        { id := 1, writeTimestamp := { wallTime := 7 }, status := .committed,
          observedTimestamps := ⟨0, 2, 2⟩ }
        { id := 1, writeTimestamp := { wallTime := 8 }, status := .aborted,
          observedTimestamps := ⟨0, 1, 2⟩ } = some (m', u) ∧
      Merges [[⟨1, { wallTime := 5 }⟩, ⟨3, { wallTime := 5 }⟩]]
        { id := 1, writeTimestamp := { wallTime := 7 }, status := .committed,
          observedTimestamps := ⟨0, 2, 2⟩ }
        { id := 1, writeTimestamp := { wallTime := 8 }, status := .aborted,
          observedTimestamps := ⟨0, 1, 2⟩ } m' u ∧ u.status = .committed := by
  obtain ⟨m', u, hu, hmerges, hstatus⟩ := update_merges
    (m := [[⟨1, { wallTime := 5 }⟩, ⟨3, { wallTime := 5 }⟩]])
    (t := { id := 1, writeTimestamp := { wallTime := 7 }, status := .committed,
            observedTimestamps := ⟨0, 2, 2⟩ })
    (o := { id := 1, writeTimestamp := { wallTime := 8 }, status := .aborted,
            observedTimestamps := ⟨0, 1, 2⟩ })
    ⟨by decide, by decide, by decide⟩ ⟨by decide, by decide, by decide⟩ rfl
  exact ⟨m', u, hu, hmerges, hstatus.mpr (by decide) rfl⟩

/-- An abort of the first epoch makes an aborted transaction of one that has committed at the
second. -/
theorem update_commit_lost :
    WellFormed []
      { id := 1, epoch := 2, writeTimestamp := { wallTime := 7 }, status := .committed } ∧
    WellFormed [] { id := 1, epoch := 1, writeTimestamp := { wallTime := 7 }, status := .aborted } ∧
    (update [] { id := 1, epoch := 2, writeTimestamp := { wallTime := 7 }, status := .committed }
      { id := 1, epoch := 1, writeTimestamp := { wallTime := 7 }, status := .aborted }).map
        (fun r => r.2.status) = some .aborted :=
  ⟨⟨by decide, by decide, by decide⟩, ⟨by decide, by decide, by decide⟩, by decide⟩

end TransactionRecord
end MeshDB.Roachpb
