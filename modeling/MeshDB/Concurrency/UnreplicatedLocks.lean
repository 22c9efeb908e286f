import MeshDB.Concurrency.Holders
import MeshDB.Lib.Reachability
import Mathlib.Data.List.Pairwise

/-!
# Unreplicated locks

The lock table is the only place where an unreplicated lock is known. Its record follows the calls
of the transaction: the sequence numbers of the epoch, without those that were rolled back.
-/
namespace MeshDB.Concurrency.Unreplicated

open Roachpb Hlc Spanset Outcome Transition List Option BinarySearch

/-! ## Sequence numbers -/

variable {ranges : List IgnoredSeqNumRange}

lemma ignores_iff (h : SortedRanges ranges) (n : Int)
    {i : ℕ} (hi : i = BinarySearch.search ranges.length fun i =>
      (ranges[i]?).any fun r => decide (n ≤ r.stop)) :
    Ignores ranges n ↔ ∃ r, ranges[i]? = some r ∧ r.start ≤ n := by
  have hmono : ranges.Pairwise fun a b =>
      decide (n ≤ a.stop) → decide (n ≤ b.stop) := by
    refine h.1.imp_of_mem fun {a b} _ hb hlt => ?_
    have hself := h.2 b hb
    simp only [decide_eq_true_eq]
    omega
  have hfind := BinarySearch.getElem?_searchList hmono
  unfold searchList at hfind
  rw [hi, hfind]
  constructor
  · rintro ⟨r, hr, hstart, hstop⟩
    obtain ⟨w, hw⟩ : ∃ w, ranges.find? (fun r => decide (n ≤ r.stop)) = some w :=
      isSome_iff_exists.mp (find?_isSome.mpr ⟨r, hr, decide_eq_true hstop⟩)
    refine ⟨w, hw, ?_⟩
    obtain ⟨hwstop, before, after, rfl, hnot⟩ := find?_eq_some_iff_append.mp hw
    have hsorted := (pairwise_cons.mp (pairwise_append.mp h.1).2.1).1
    rcases mem_append.mp hr with hr | hr
    · simpa [hstop] using hnot r hr
    rcases mem_cons.mp hr with rfl | hr
    · exact hstart
    have hlt := hsorted r hr
    have hself := h.2 w (by simp)
    omega
  · rintro ⟨r, hr, hstart⟩
    exact ⟨r, mem_of_find?_eq_some hr, hstart, by simpa using find?_some hr⟩

variable {held : List Int}

lemma mem_removeIgnored
    (h : SortedRanges ranges) (n : Int) :
    n ∈ removeIgnored held ranges ↔ n ∈ held ∧ ¬ Ignores ranges n := by
  unfold removeIgnored
  split_ifs with hempty
  · rw [List.isEmpty_iff.mp hempty]
    simp [Ignores]
  rw [mem_filter, ignores_iff h n rfl]
  refine and_congr_right fun _ => ?_
  dsimp only
  split
  · rename_i hnone
    simp [hnone]
  rename_i r hr
  simp [hr]

lemma sorted_removeIgnored (ranges : List IgnoredSeqNumRange)
    (h : held.Pairwise (· < ·)) : (removeIgnored held ranges).Pairwise (· < ·) := by
  unfold removeIgnored
  split_ifs
  · exact h
  · exact h.filter _

variable {seqs : List Int} {seq : Int}

lemma insertSeq_spec {seqs' : List Int} (h : seqs.Pairwise (· < ·))
    (hinsert : insertSeq seqs seq = .ok seqs') :
    seqs'.Pairwise (· < ·) ∧ ∀ n, n ∈ seqs' ↔ n ∈ seqs ∨ n = seq := by
  have hmono : seqs.Pairwise fun a b => decide (seq ≤ a) → decide (seq ≤ b) :=
    h.imp fun hlt => by
      simp only [decide_eq_true_eq]
      omega
  have htake := take_searchList hmono
  have hrest := fun n => of_mem_drop_searchList (a := n) hmono
  unfold insertSeq at hinsert
  unfold searchList at htake hrest
  dsimp only at hinsert
  generalize BinarySearch.search seqs.length
    (fun i => (seqs[i]?).any fun n => decide (seq ≤ n)) = i at hinsert htake hrest
  split at hinsert
  · cases hinsert
  rename_i m hm
  obtain ⟨hlen, rfl⟩ := List.getElem?_eq_some_iff.mp hm
  have hbefore : ∀ n ∈ seqs.take i, n < seq := by
    intro n hn
    rw [htake] at hn
    simpa using (mem_filter.mp hn).2
  split_ifs at hinsert with hne
  · cases hinsert
    have hdrop : ∀ n ∈ seqs.drop i, seq < n := by
      have hsorted : (seqs.drop i).Pairwise (· < ·) := h.drop
      rw [drop_eq_getElem_cons hlen] at hrest hsorted ⊢
      have hhead : seq ≤ seqs[i] := by simpa using hrest _ (.head _)
      intro n hn
      rcases mem_cons.mp hn with rfl | hn
      · omega
      have := (pairwise_cons.mp hsorted).1 n hn
      omega
    constructor
    · rw [pairwise_append, pairwise_cons]
      refine ⟨h.take, ⟨hdrop, h.drop⟩, fun a ha b hb => ?_⟩
      rcases mem_cons.mp hb with rfl | hb
      · exact hbefore a ha
      · exact (hbefore a ha).trans (hdrop b hb)
    intro n
    conv_rhs => rw [← take_append_drop i seqs]
    simp only [mem_append, mem_cons]
    tauto
  · cases hinsert
    have heq : seqs[i] = seq := not_not.mp hne
    refine ⟨h, fun n => ⟨.inl, ?_⟩⟩
    rintro (hn | rfl)
    · exact hn
    · exact heq ▸ getElem_mem hlen

/-! ## Calls of the transaction -/

inductive Call where
  | acquireLock (durability : Durability) (txn : TxnMeta) (ts : Timestamp)
  | tryFreeLockOnReplicatedAcquire
  | discoveredLock (txn : TxnMeta) (ts : Timestamp) (g : Guard) (sa : SpanAccess)
      (notRemovable : Bool)
  | tryUpdateLock (up : LockUpdate)

def Call.run (ref : LockRef) (v : View) : Call → Outcome View
  | .acquireLock durability txn ts => Concurrency.acquireLock ref durability txn ts v
  | .tryFreeLockOnReplicatedAcquire =>
    (Concurrency.tryFreeLockOnReplicatedAcquire ref v).map Prod.fst
  | .discoveredLock txn ts g sa notRemovable =>
    Concurrency.discoveredLock ref txn ts g sa notRemovable v
  | .tryUpdateLock up => (tryUpdateLockLocked ref up v).map Prod.fst

inductive Event where
  | acquired (epoch seq : Int)
  | updated (epoch : Int) (ignored : List IgnoredSeqNumRange)
deriving DecidableEq

def Call.event : Call → List Event
  | .acquireLock .unreplicated txn _ => [.acquired txn.epoch txn.sequence]
  | .tryUpdateLock up => [.updated up.txn.epoch up.ignoredSeqNums]
  | _ => []

/-- The sequence number was acquired in the epoch, and no update of the epoch that came
later ignores it. -/
def Live (history : List Event) (epoch n : Int) : Prop :=
  ∃ before after, history = before ++ .acquired epoch n :: after ∧
    ∀ ignored, .updated epoch ignored ∈ after → ¬ Ignores ignored n

/-- The records of the lock, with the history since there is an unreplicated one. -/
structure Tracked where
  holder : LockHolder := {}
  history : List Event := []

structure Action where
  call : Call
  ref : LockRef
  env : View

def Tracked.after (s : Tracked) (call : Call) (h : LockHolder) : Tracked where
  holder := h
  history := if h.unreplicated.txn.isNone then [] else s.history ++ call.event

def step (s : Tracked) (a : Action) : Option Tracked :=
  match a.call.run a.ref { a.env with lock := { a.env.lock with holder := s.holder } } with
  | .error _ => none
  | .ok v => some (s.after a.call v.lock.holder)

variable {epoch n : Int} {call : Call} {h : LockHolder} {ref : LockRef} {v v' : View}
  {history : List Event} {e : Int}

lemma live_append_acquired {m : Int} :
    Live (history ++ [.acquired e m]) epoch n ↔ Live history epoch n ∨ (e = epoch ∧ m = n) := by
  constructor
  · rintro ⟨before, after, heq, hlive⟩
    rcases eq_nil_or_concat after with rfl | ⟨after, x, rfl⟩
    · obtain ⟨-, hlast⟩ := append_inj' heq rfl
      cases hlast
      exact .inr ⟨rfl, rfl⟩
    rw [concat_eq_append, ← cons_append, ← append_assoc] at heq
    obtain ⟨rfl, -⟩ := append_inj' heq rfl
    exact .inl ⟨before, after, rfl, fun ignored hmem =>
      hlive ignored (concat_eq_append ▸ mem_append_left _ hmem)⟩
  rintro (⟨before, after, rfl, hlive⟩ | ⟨rfl, rfl⟩)
  · refine ⟨before, after ++ [.acquired e m], by simp, fun ignored hmem => ?_⟩
    rcases mem_append.mp hmem with hmem | hmem
    · exact hlive ignored hmem
    · simp at hmem
  · exact ⟨history, [], rfl, fun ignored hmem => by cases hmem⟩

lemma live_append_updated {ignored : List IgnoredSeqNumRange} :
    Live (history ++ [.updated e ignored]) epoch n ↔
      Live history epoch n ∧ ¬ (e = epoch ∧ Ignores ignored n) := by
  constructor
  · rintro ⟨before, after, heq, hlive⟩
    rcases eq_nil_or_concat after with rfl | ⟨after, x, rfl⟩
    · obtain ⟨-, hlast⟩ := append_inj' heq rfl
      cases hlast
    rw [concat_eq_append, ← cons_append, ← append_assoc] at heq
    obtain ⟨rfl, hlast⟩ := append_inj' heq rfl
    cases hlast
    refine ⟨⟨before, after, rfl, fun ignored hmem => hlive ignored (by simp [hmem])⟩, ?_⟩
    rintro ⟨rfl, hig⟩
    exact hlive ignored (by simp) hig
  rintro ⟨⟨before, after, rfl, hlive⟩, hnot⟩
  refine ⟨before, after ++ [.updated e ignored], by simp, fun ignored' hmem => ?_⟩
  rcases mem_append.mp hmem with hmem | hmem
  · exact hlive ignored' hmem
  cases mem_singleton.mp hmem
  exact fun hig => hnot ⟨rfl, hig⟩

lemma not_live_nil (epoch n : Int) : ¬ Live [] epoch n := by
  rintro ⟨before, after, heq, -⟩
  exact absurd heq.symm (append_ne_nil_of_right_ne_nil _ (cons_ne_nil _ _))

lemma Live.mem (h : Live history epoch n) :
    .acquired epoch n ∈ history := by
  obtain ⟨before, after, rfl, -⟩ := h
  simp

/-! ## One record -/

structure RecordOk (info : LockHolderInfo) (history : List Event) : Prop where
  absent : info.txn = none → info = {} ∧ history = []
  sorted : info.seqs.Pairwise (· < ·)
  live : ∀ t, info.txn = some t → ∀ n, n ∈ info.seqs ↔ Live history t.epoch n
  epochs : ∀ t, info.txn = some t → ∀ e n, .acquired e n ∈ history → e ≤ t.epoch

lemma recordOk_empty : RecordOk {} [] :=
  ⟨fun _ => ⟨rfl, rfl⟩, List.Pairwise.nil, (fun _ h => by cases h), (fun _ h => by cases h)⟩

lemma recordOk_acquired (txn : TxnMeta) (ts : Timestamp) :
    RecordOk { txn := some txn, ts := ts, seqs := [txn.sequence] }
      [.acquired txn.epoch txn.sequence] where
  absent h := by cases h
  sorted := pairwise_singleton _ _
  live t ht n := by
    cases ht
    rw [mem_singleton, ← nil_append [Event.acquired _ _], live_append_acquired]
    exact ⟨fun h => .inr ⟨rfl, h.symm⟩, fun h => (h.resolve_left (not_live_nil _ _)).2.symm⟩
  epochs t ht e n h := by
    cases ht
    cases mem_singleton.mp h
    exact le_rfl

variable {info info' : LockHolderInfo} {history : List Event} {txn : TxnMeta} {ts : Timestamp}

lemma RecordOk.mem_currentSeqs (h : RecordOk info history)
    (hepoch : ∀ t, info.txn = some t → t.epoch ≤ txn.epoch) (n : Int) :
    n ∈ currentSeqs txn info ↔ Live history txn.epoch n := by
  unfold currentSeqs
  cases hinfo : info.txn with
  | none =>
    obtain ⟨rfl, rfl⟩ := h.absent hinfo
    simpa using not_live_nil txn.epoch n
  | some t =>
    rw [any_some]
    by_cases hlt : t.epoch < txn.epoch
    · rw [if_pos (decide_eq_true hlt)]
      refine iff_of_false not_mem_nil fun hlive => ?_
      have := h.epochs t hinfo _ _ hlive.mem
      omega
    · rw [if_neg (by simpa using hlt), h.live t hinfo n, (hepoch t hinfo).antisymm (not_lt.mp hlt)]

lemma lt_of_not_getLast_any (h : seqs.Pairwise (· < ·))
    (hlast : ¬ seqs.getLast?.any (fun n => seq ≤ n)) : ∀ n ∈ seqs, n < seq := by
  intro n hn
  have hne := ne_nil_of_mem hn
  rw [getLast?_eq_getLast_of_ne_nil hne] at hlast
  have hlt : seqs.getLast hne < seq := by simpa using hlast
  have hle : n ≤ seqs.getLast hne := (h.imp fun hlt => hlt.le).rel_getLast hn
  exact hle.trans_lt hlt

lemma RecordOk.sorted_currentSeqs (h : RecordOk info history) :
    (currentSeqs txn info).Pairwise (· < ·) := by
  unfold currentSeqs
  split_ifs
  · exact List.Pairwise.nil
  · exact h.sorted

lemma RecordOk.acquireAgain (h : RecordOk info history)
    (hepoch : ∀ t, info.txn = some t → t.epoch ≤ txn.epoch)
    (hacquire : Concurrency.acquireAgain txn ts info = .ok info') :
    RecordOk info' (history ++ [.acquired txn.epoch txn.sequence]) := by
  have hmem := h.mem_currentSeqs hepoch
  have hsorted := @RecordOk.sorted_currentSeqs info history txn h
  have hepochs : ∀ e n, .acquired e n ∈ history ++ [.acquired txn.epoch txn.sequence] →
      e ≤ txn.epoch := by
    intro e n hin
    rcases mem_append.mp hin with hin | hin
    · cases hinfo : info.txn with
      | none =>
        rw [(h.absent hinfo).2] at hin
        cases hin
      | some t => exact (h.epochs t hinfo e n hin).trans (hepoch t hinfo)
    · cases mem_singleton.mp hin
      exact le_rfl
  unfold Concurrency.acquireAgain at hacquire
  dsimp only at hacquire
  split_ifs at hacquire with hlast
  · obtain ⟨seqs, hinsert, heq⟩ := map_eq_ok.mp hacquire
    obtain ⟨hsorted', hmem'⟩ := insertSeq_spec hsorted hinsert
    have hsame : ∀ t, info.txn = some t → t.epoch = txn.epoch := by
      intro t ht
      refine (hepoch t ht).antisymm (not_lt.mp fun hlt => ?_)
      simp [currentSeqs, ht, hlt] at hlast
    rw [← heq]
    refine ⟨fun hnone => ?_, hsorted', fun t ht n => ?_, fun t ht e n hin => ?_⟩
    · rw [currentSeqs, (h.absent hnone).1] at hlast
      simp at hlast
    · rw [hsame t ht, hmem' n, hmem n, live_append_acquired]
      exact or_congr_right ⟨fun hn => ⟨rfl, hn.symm⟩, fun hn => hn.2.symm⟩
    rw [hsame t ht]
    exact hepochs e n hin
  cases hacquire
  refine ⟨(fun hnone => by cases hnone), ?_, fun t ht n => ?_, fun t ht => ?_⟩
  · rw [pairwise_append]
    refine ⟨hsorted, pairwise_singleton _ _, fun a ha b hb => ?_⟩
    rw [mem_singleton.mp hb]
    exact lt_of_not_getLast_any hsorted hlast a ha
  · cases ht
    rw [mem_append, mem_singleton, hmem n, live_append_acquired]
    exact or_congr_right ⟨fun hn => ⟨rfl, hn.symm⟩, fun hn => hn.2.symm⟩
  · cases ht
    exact hepochs

lemma ts_acquireAgain (hacquire : acquireAgain txn ts info = .ok info') :
    info.ts.ord ≤ info'.ts.ord := by
  unfold acquireAgain at hacquire
  dsimp only at hacquire
  split_ifs at hacquire
  · obtain ⟨seqs, -, rfl⟩ := map_eq_ok.mp hacquire
    exact le_rfl
  cases hacquire
  rw [Timestamp.ord_forward]
  exact le_max_left _ _

variable {up : LockUpdate} {advancedTs : Bool}

lemma RecordOk.gone (h : RecordOk info history) (hranges : SortedRanges up.ignoredSeqNums)
    {t : TxnMeta} (ht : info.txn = some t)
    (hgone : (updateUnreplicated up advancedTs info).txn = none) :
    t.epoch < up.txn.epoch ∨ (up.txn.epoch = t.epoch ∧
      ∀ n, ¬ Live (history ++ [.updated up.txn.epoch up.ignoredSeqNums]) t.epoch n) := by
  rcases @updateUnreplicated_cases info up advancedTs t ht with
    ⟨hlt, -⟩ | ⟨heq, hseqs, -⟩ | ⟨-, hrec⟩ | ⟨-, hrec⟩
  · exact .inl hlt
  · refine .inr ⟨heq, fun n hlive => ?_⟩
    rw [live_append_updated, ← h.live t ht n, heq] at hlive
    have hmem := (mem_removeIgnored hranges n).mpr ⟨hlive.1, fun hig => hlive.2 ⟨rfl, hig⟩⟩
    rw [hseqs] at hmem
    cases hmem
  · rw [hrec] at hgone
    cases advancedTs <;> cases hgone
  · simp [hrec] at hgone

lemma RecordOk.update (h : RecordOk info history) (hranges : SortedRanges up.ignoredSeqNums)
    (hkept : (updateUnreplicated up advancedTs info).txn ≠ none) :
    RecordOk (updateUnreplicated up advancedTs info)
      (history ++ [.updated up.txn.epoch up.ignoredSeqNums]) := by
  have hepochs : ∀ t, info.txn = some t → ∀ e n,
      .acquired e n ∈ history ++ [.updated up.txn.epoch up.ignoredSeqNums] → e ≤ t.epoch := by
    intro t ht e n hin
    rcases mem_append.mp hin with hin | hin
    · exact h.epochs t ht e n hin
    · cases mem_singleton.mp hin
  cases hinfo : info.txn with
  | none =>
    refine absurd ?_ hkept
    simp [updateUnreplicated, hinfo]
  | some t =>
    rcases @updateUnreplicated_cases info up advancedTs t hinfo with
      ⟨-, hrec⟩ | ⟨-, -, hrec⟩ | ⟨heq, hrec⟩ | ⟨hlt, hrec⟩
    · rw [hrec] at hkept
      exact absurd rfl hkept
    · rw [hrec] at hkept
      exact absurd rfl hkept
    · rw [hrec] at hkept ⊢
      have hepoch : ∀ t', (if advancedTs then some up.txn else some t) = some t' →
          t'.epoch = t.epoch := by
        intro t' ht'
        cases advancedTs
        · cases ht'
          rfl
        cases ht'
        exact heq
      refine ⟨fun hnone => absurd hnone hkept, sorted_removeIgnored _ h.sorted,
        fun t' ht' n => ?_, fun t' ht' => ?_⟩
      · rw [hepoch t' ht', mem_removeIgnored hranges, h.live t hinfo, live_append_updated]
        exact and_congr_right fun _ => not_congr ⟨fun hig => ⟨heq, hig⟩, fun hig => hig.2⟩
      rw [hepoch t' ht']
      exact hepochs t hinfo
    · rw [hrec]
      refine ⟨(fun hnone => by cases hnone), h.sorted, fun t' ht' n => ?_, fun t' ht' => ?_⟩
      · cases ht'
        rw [h.live t hinfo, live_append_updated]
        exact ⟨fun hlive => ⟨hlive, fun hig => hlt.ne hig.1⟩, fun hlive => hlive.1⟩
      cases ht'
      exact hepochs t hinfo

lemma ts_updateUnreplicated (hts : advancedTs → info.ts.ord ≤ up.txn.writeTimestamp.ord)
    (hkept : (updateUnreplicated up advancedTs info).txn ≠ none) :
    info.ts.ord ≤ (updateUnreplicated up advancedTs info).ts.ord := by
  have hnew : info.ts.ord ≤ (if advancedTs then up.txn.writeTimestamp else info.ts).ord := by
    split_ifs with hadv
    · exact hts hadv
    · exact le_rfl
  cases hinfo : info.txn with
  | none =>
    refine absurd ?_ hkept
    simp [updateUnreplicated, hinfo]
  | some t =>
    rcases @updateUnreplicated_cases info up advancedTs t hinfo with
      ⟨-, hrec⟩ | ⟨-, -, hrec⟩ | ⟨-, hrec⟩ | ⟨-, hrec⟩
    · rw [hrec] at hkept
      exact absurd rfl hkept
    · rw [hrec] at hkept
      exact absurd rfl hkept
    · rw [hrec]
      exact hnew
    · rw [hrec]
      exact hnew

/-! ## Steps and runs -/

/-- The calls are those of one transaction, and roll back ranges that are in order. -/
def Call.OfTxn (id : TxnID) : Call → Prop
  | .acquireLock _ txn _ => txn.id = id
  | .tryFreeLockOnReplicatedAcquire => True
  | .discoveredLock txn _ _ _ _ => txn.id = id
  | .tryUpdateLock up => up.txn.id = id ∧ SortedRanges up.ignoredSeqNums

/-- An acquisition is not of an epoch below the record's, and a pending update not between the two
timestamps. -/
def Call.InOrder (h : LockHolder) : Call → Prop
  | .acquireLock .unreplicated txn _ => ∀ t, h.unreplicated.txn = some t → t.epoch ≤ txn.epoch
  | .tryUpdateLock up =>
    up.status.isFinalized = false → h.unreplicated.txn ≠ none →
      h.getLockHolder.2.less up.txn.writeTimestamp →
        up.txn.writeTimestamp.less h.unreplicated.ts = false
  | _ => True

/-- The reasons for which the record of the transaction disappears. -/
def Call.Ends (history : List Event) (t : TxnMeta) : Call → Prop
  | .tryFreeLockOnReplicatedAcquire => True
  | .tryUpdateLock up =>
    up.status.isFinalized ∨ t.epoch < up.txn.epoch ∨ (up.txn.epoch = t.epoch ∧
      ∀ n, ¬ Live (history ++ [.updated up.txn.epoch up.ignoredSeqNums]) t.epoch n)
  | _ => False

structure TrackedOk (id : TxnID) (s : Tracked) : Prop where
  holder : HolderOk s.holder
  heldBy : s.holder.locked → HeldBy s.holder id
  record : RecordOk s.holder.unreplicated s.history

structure StepOk (id : TxnID) (s : Tracked) (call : Call) (s' : Tracked) : Prop where
  ok : TrackedOk id s'
  ts : s.holder.unreplicated.txn ≠ none → s'.holder.unreplicated.txn ≠ none →
    s.holder.unreplicated.ts.ord ≤ s'.holder.unreplicated.ts.ord
  gone : ∀ t, s.holder.unreplicated.txn = some t → s'.holder.unreplicated.txn = none →
    call.Ends s.history t

variable {id : TxnID} {s s' : Tracked}

lemma trackedOk_init : TrackedOk id {} :=
  ⟨holderOk_empty, fun h => (by cases h), recordOk_empty⟩

variable {a : Action}

lemma step_eq_some (h : step s a = some s') :
    ∃ v, a.call.run a.ref { a.env with lock := { a.env.lock with holder := s.holder } } = .ok v ∧
      s' = s.after a.call v.lock.holder := by
  unfold step at h
  split at h
  · cases h
  rename_i v hrun
  cases h
  exact ⟨v, hrun, rfl⟩

lemma after_of_none (hnone : h.unreplicated.txn = none) : s.after call h = ⟨h, []⟩ := by
  simp [Tracked.after, hnone]

lemma after_of_some (hsome : h.unreplicated.txn ≠ none) :
    s.after call h = ⟨h, s.history ++ call.event⟩ := by
  simp [Tracked.after, hsome]

lemma StepOk.keep (hok : TrackedOk id s) (hevent : call.event = []) (hholder : HolderOk h)
    (hheld : h.locked → HeldBy h id) (hsame : h.unreplicated = s.holder.unreplicated) :
    StepOk id s call (s.after call h) := by
  refine ⟨⟨hholder, hheld, ?_⟩, fun _ _ => ?_, fun t ht hnone => ?_⟩
  · show RecordOk h.unreplicated _
    cases hnone : h.unreplicated.txn with
    | none =>
      rw [after_of_none hnone, hholder.unreplicated hnone]
      exact recordOk_empty
    | some t =>
      rw [after_of_some (by simp [hnone]), hevent, append_nil, hsame]
      exact hok.record
  · exact (congrArg (fun info => info.ts.ord) hsame).ge
  · have hsome : h.unreplicated.txn = some t := hsame ▸ ht
    exact absurd (hnone.symm.trans hsome) (by simp)

lemma StepOk.free (hends : ∀ t, s.holder.unreplicated.txn = some t → call.Ends s.history t) :
    StepOk id s call (s.after call {}) := by
  exact ⟨trackedOk_init, fun _ h => absurd rfl h, fun t ht _ => hends t ht⟩

section
variable (hok : TrackedOk id s)
include hok

lemma stepOk_acquireLock {durability : Durability} (hid : txn.id = id)
    (hord : (Call.acquireLock durability txn ts).InOrder s.holder)
    (hholder : v.lock.holder = s.holder) (h : acquireLock ref durability txn ts v = .ok v') :
    StepOk id s (.acquireLock durability txn ts)
      (s.after (.acquireLock durability txn ts) v'.lock.holder) := by
  obtain ⟨info, hinfo, hacq⟩ := holder_acquireLock h
  rw [hholder] at hinfo hacq
  obtain ⟨t, ht, htid⟩ := hacq.txn_eq hok.holder
  obtain ⟨hok', hheld'⟩ := hok.holder.setInfo durability hok.heldBy ht (htid.trans hid)
  rw [hinfo]
  cases durability with
  | replicated => exact StepOk.keep hok rfl hok' (fun _ => hheld') rfl
  | unreplicated =>
    have hsome : ({ s.holder with locked := true }.setInfo .unreplicated
        info).unreplicated.txn ≠ none := by
      simp [LockHolder.setInfo, ht]
    rw [after_of_some hsome]
    refine ⟨⟨hok', fun _ => hheld', ?_⟩, fun hbefore _ => ?_, fun _ _ hnone =>
      absurd hnone hsome⟩
    · cases hacq with
      | again hbefore _ hagain => exact hok.record.acquireAgain hord hagain
      | first hfree =>
        have hhist := (hok.record.absent (by rw [hok.holder.free hfree])).2
        rw [hhist]
        exact recordOk_acquired txn ts
    cases hacq with
    | again _ _ hagain => exact ts_acquireAgain hagain
    | first hfree =>
      rw [hok.holder.free hfree] at hbefore
      exact absurd rfl hbefore

lemma stepOk_discoveredLock {g : Guard}
    {sa : SpanAccess} {notRemovable : Bool} (hid : txn.id = id) (hholder : v.lock.holder = s.holder)
    (h : discoveredLock ref txn ts g sa notRemovable v = .ok v') :
    StepOk id s (.discoveredLock txn ts g sa notRemovable)
      (s.after (.discoveredLock txn ts g sa notRemovable) v'.lock.holder) := by
  have hadd := holder_discoveredLock h
  rw [hholder] at hadd
  obtain ⟨hok', hheld', hsame⟩ := hok.holder.addDiscoveredHolder hadd
  exact StepOk.keep hok rfl hok' (fun _ => hid ▸ hheld') hsame

lemma stepOk_tryFreeLockOnReplicatedAcquire {freed : Bool} (hholder : v.lock.holder = s.holder)
    (h : tryFreeLockOnReplicatedAcquire ref v = .ok (v', freed)) :
    StepOk id s .tryFreeLockOnReplicatedAcquire
      (s.after .tryFreeLockOnReplicatedAcquire v'.lock.holder) := by
  rcases holder_tryFreeLockOnReplicatedAcquire h with hsame | hfree
  · rw [hsame, hholder]
    exact StepOk.keep hok rfl hok.holder hok.heldBy rfl
  rw [hfree]
  exact StepOk.free fun _ _ => trivial

lemma stepOk_tryUpdateLock (hid : up.txn.id = id) (hranges : SortedRanges up.ignoredSeqNums)
    (hord : (Call.tryUpdateLock up).InOrder s.holder) {held gc : Bool}
    (hholder : v.lock.holder = s.holder) (h : tryUpdateLockLocked ref up v = .ok (v', held, gc)) :
    StepOk id s (.tryUpdateLock up) (s.after (.tryUpdateLock up) v'.lock.holder) := by
  have hcases := holder_tryUpdateLockLocked (hholder.symm ▸ hok.holder) h
  rw [hholder] at hcases
  cases hlocked : s.holder.locked with
  | false =>
    have hfree := isLockedBy_free hlocked up.txn.id
    have hsame : v'.lock.holder = s.holder := by
      rcases hcases with ⟨-, hsame⟩ | ⟨htrue, -⟩ | ⟨htrue, -⟩
      · exact hsame
      · simp [hfree] at htrue
      · simp [hfree] at htrue
    rw [hsame, hok.holder.free hlocked]
    refine StepOk.free fun t ht => ?_
    rw [hok.holder.free hlocked] at ht
    cases ht
  | true =>
    obtain ⟨t, ht⟩ := hok.holder.getLockHolder_isSome hlocked
    have hheld := hok.heldBy hlocked
    have htrue : s.holder.isLockedBy up.txn.id = .ok true := by
      rw [hok.holder.isLockedBy ht, hheld.holder_id ht, hid, beq_self_eq_true]
    rcases hcases with ⟨hfalse, -⟩ | ⟨-, hfinal, hfree⟩ | ⟨-, hpending, hupdated⟩
    · simp [htrue] at hfalse
    · rw [hfree]
      exact StepOk.free fun _ _ => .inl hfinal
    rw [hupdated]
    by_cases hnone : (updatedHolder up s.holder).unreplicated.txn = none
    · rw [if_pos (isNone_iff_eq_none.mpr hnone)]
      exact StepOk.free fun t ht => .inr (hok.record.gone hranges ht hnone)
    rw [if_neg (mt isNone_iff_eq_none.mp hnone), after_of_some hnone]
    obtain ⟨hok', hheld'⟩ := (hid ▸ hheld : HeldBy _ up.txn.id).updatedHolder hnone
    refine ⟨⟨hok', fun _ => hid ▸ hheld', hok.record.update hranges hnone⟩,
      fun hbefore _ => ts_updateUnreplicated (fun hadv => ?_) hnone,
      fun _ _ hgone => absurd hgone hnone⟩
    exact Timestamp.not_less_iff.mp (hord hpending hbefore hadv)

lemma TrackedOk.step (hof : a.call.OfTxn id)
    (hord : a.call.InOrder s.holder) (h : step s a = some s') : StepOk id s a.call s' := by
  obtain ⟨v, hrun, rfl⟩ := step_eq_some h
  obtain ⟨call, ref, env⟩ := a
  cases call with
  | acquireLock durability txn ts => exact stepOk_acquireLock hok hof hord rfl hrun
  | tryFreeLockOnReplicatedAcquire =>
    obtain ⟨⟨w, freed⟩, hfree, rfl⟩ := map_eq_ok.mp hrun
    exact stepOk_tryFreeLockOnReplicatedAcquire hok rfl hfree
  | discoveredLock txn ts g sa notRemovable => exact stepOk_discoveredLock hok hof rfl hrun
  | tryUpdateLock up =>
    obtain ⟨⟨w, held, gc⟩, hupdate, rfl⟩ := map_eq_ok.mp hrun
    exact stepOk_tryUpdateLock hok hof.1 hof.2 hord rfl hupdate

end

lemma TrackedOk.of_reachable
    (h : Reachable Unreplicated.step (fun s a => a.call.OfTxn id ∧ a.call.InOrder s.holder) {} s)
    : TrackedOk id s :=
  h.invariant trackedOk_init fun _ _ _ _ hok hcall hstep => (hok.step hcall.1 hcall.2 hstep).ok

/-- While it exists, the unreplicated record has the live sequence numbers of its epoch, in order,
and its timestamp does not decrease. It disappears for the listed reasons only. -/
theorem unreplicated_record_faithful
    (h : Reachable Unreplicated.step (fun s a => a.call.OfTxn id ∧ a.call.InOrder s.holder) {} s) :
    (∀ t, s.holder.unreplicated.txn = some t →
      s.holder.unreplicated.seqs.Pairwise (· < ·) ∧
        ∀ n, n ∈ s.holder.unreplicated.seqs ↔ Live s.history t.epoch n) ∧
    ∀ a s', a.call.OfTxn id → a.call.InOrder s.holder → Unreplicated.step s a = some s' →
      ∀ t, s.holder.unreplicated.txn = some t →
        (s'.holder.unreplicated.txn ≠ none →
          s.holder.unreplicated.ts.ord ≤ s'.holder.unreplicated.ts.ord) ∧
        (s'.holder.unreplicated.txn = none → a.call.Ends s.history t) := by
  have hok := TrackedOk.of_reachable h
  refine ⟨fun t ht => ⟨hok.record.sorted, hok.record.live t ht⟩, fun a s' hof hord hstep t ht => ?_⟩
  have hs := hok.step hof hord hstep
  exact ⟨hs.ts (by simp [ht]), hs.gone t ht⟩

def acquisition (durability : Durability) (epoch seq wallTime : Int) : Action where
  call := .acquireLock durability { id := 1, epoch := epoch, sequence := seq }
    { wallTime := wallTime }
  ref := ⟨0, [], .spanGlobal⟩
  env := ⟨{}, fun _ => {}⟩

def discovery (wallTime : Int) : Action where
  call := .discoveredLock { id := 1 } { wallTime := wallTime }
    { seqNum := 1, txn := none, ts := { wallTime := wallTime }, spans := ⟨fun _ _ => []⟩ }
    .spanReadOnly false
  ref := ⟨0, [], .spanGlobal⟩
  env := ⟨{}, fun _ => {}⟩

def push (wallTime : Int) : Action where
  call := .tryUpdateLock {
    span := ⟨[], none⟩
    txn := { id := 1, writeTimestamp := { wallTime := wallTime } }
    status := .pending }
  ref := ⟨0, [], .spanGlobal⟩
  env := ⟨{}, fun _ => {}⟩

/-- The lock is acquired twice, discovered as a replicated one and then pushed. -/
theorem unreplicated_record_faithful_acquired :
    ∃ s, Reachable Unreplicated.step (fun s a => a.call.OfTxn 1 ∧ a.call.InOrder s.holder) {} s ∧
      s.holder.unreplicated.ts = { wallTime := 30 } ∧
      (∃ t, s.holder.unreplicated.txn = some t ∧ Live s.history t.epoch 7 ∧
        Live s.history t.epoch 9) ∧
      ∀ n, n ∈ s.holder.unreplicated.seqs ↔ Live s.history 0 n := by
  have hacquired : Reachable Unreplicated.step
      (fun s a => a.call.OfTxn 1 ∧ a.call.InOrder s.holder) {} _ :=
    .next .init ⟨rfl, nofun⟩ (a := acquisition .unreplicated 0 7 20) rfl
  have hagain := hacquired.next ⟨rfl, fun t ht => by cases ht; exact le_rfl⟩
    (a := acquisition .unreplicated 0 9 20) rfl
  have hdiscovered := hagain.next ⟨rfl, trivial⟩ (a := discovery 12) rfl
  have hpushed := hdiscovered.next ⟨⟨rfl, List.Pairwise.nil, nofun⟩, fun _ _ _ => by decide⟩
    (a := push 30) rfl
  have hfaithful := ((unreplicated_record_faithful hpushed).1 _ rfl).2
  exact ⟨_, hpushed, rfl, ⟨_, rfl, (hfaithful 7).mp (by decide), (hfaithful 9).mp (by decide)⟩,
    hfaithful⟩

/-- An update between the timestamps of the two records lowers the unreplicated one. An acquisition
of an earlier epoch joins the sequence numbers of both. -/
theorem unreplicated_record_diverges :
    (∃ s s' a, Reachable Unreplicated.step (fun _ a => a.call.OfTxn 1) {} s ∧
      a.call.OfTxn 1 ∧ Unreplicated.step s a = some s' ∧
      s.holder.unreplicated.txn ≠ none ∧ s'.holder.unreplicated.txn ≠ none ∧
      s'.holder.unreplicated.ts.ord < s.holder.unreplicated.ts.ord) ∧
    (∃ s t n, Reachable Unreplicated.step (fun _ a => a.call.OfTxn 1) {} s ∧
      s.holder.unreplicated.txn = some t ∧ n ∈ s.holder.unreplicated.seqs ∧
      ¬ Live s.history t.epoch n) := by
  constructor
  · refine ⟨_, _, push 15, @Reachable.of_run Tracked Action Unreplicated.step
      (fun _ a => a.call.OfTxn 1) {} [acquisition .unreplicated 0 1 20, discovery 12] {} _ .init
      ?_ rfl, ⟨rfl, List.Pairwise.nil, nofun⟩, rfl, nofun, nofun, ?_⟩
    · simp [acquisition, discovery, Call.OfTxn]
    · decide
  refine ⟨_, _, 1, @Reachable.of_run Tracked Action Unreplicated.step
    (fun _ a => a.call.OfTxn 1) {}
    [acquisition .unreplicated 1 1 20, acquisition .unreplicated 0 2 20] {} _ .init ?_ rfl,
    rfl, ?_, fun hlive => absurd hlive.mem ?_⟩
  · simp [acquisition, Call.OfTxn]
  · decide
  · decide

end MeshDB.Concurrency.Unreplicated
