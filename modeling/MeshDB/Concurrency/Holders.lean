import MeshDB.Concurrency.LockState

/-!
# The records of a lock's holder

A lock is held by one transaction, with a record at one durability or at both. The
methods of a lock that only move requests around keep the records.
-/
namespace MeshDB.Concurrency

open Roachpb Hlc Spanset Outcome Pointwise Option LockHolder

/-- The two records of a lock agree. -/
structure HolderOk (h : LockHolder) : Prop where
  free : h.locked = false → h = {}
  held : h.locked → h.replicated.txn ≠ none ∨ h.unreplicated.txn ≠ none
  replicated : h.replicated.txn = none → h.replicated = {}
  unreplicated : h.unreplicated.txn = none → h.unreplicated = {}
  sameTxn : ∀ r u, h.replicated.txn = some r → h.unreplicated.txn = some u → r.id = u.id

lemma holderOk_empty : HolderOk {} := by
  constructor <;> simp

/-- The records are those of the transaction. -/
structure HeldBy (h : LockHolder) (id : TxnID) : Prop where
  locked : h.locked
  replicated : ∀ r, h.replicated.txn = some r → r.id = id
  unreplicated : ∀ u, h.unreplicated.txn = some u → u.id = id

variable {h : LockHolder} {txn : TxnMeta}

lemma getLockHolder_free (hfree : h.locked = false) :
    h.getLockHolder = (none, {}) := by
  simp [getLockHolder, hfree]

lemma getLockHolder_cases (hlocked : h.locked) :
    h.getLockHolder = (h.replicated.txn, h.replicated.ts) ∨
      h.getLockHolder = (h.unreplicated.txn, h.unreplicated.ts) := by
  unfold getLockHolder
  rw [hlocked]
  by_cases hun : (h.replicated.txn.isNone ||
      (h.unreplicated.txn.isSome && h.unreplicated.ts.less h.replicated.ts))
  · right
    simp [hun]
  left
  simp [hun]

lemma HolderOk.getLockHolder_isSome (hok : HolderOk h)
    (hlocked : h.locked) : ∃ txn, h.getLockHolder.1 = some txn := by
  unfold getLockHolder
  rw [hlocked]
  cases hrep : h.replicated.txn with
  | none =>
    obtain ⟨u, hu⟩ := ne_none_iff_exists'.mp
      ((hok.held hlocked).resolve_left fun hne => hne hrep)
    exact ⟨u, by simp [hu]⟩
  | some r =>
    cases hun : h.unreplicated.txn with
    | none => exact ⟨r, by simp⟩
    | some u =>
      by_cases hless : h.unreplicated.ts.less h.replicated.ts
      · exact ⟨u, by simp [hless]⟩
      · exact ⟨r, by simp [hless]⟩

lemma HolderOk.heldBy (hok : HolderOk h)
    (hholder : h.getLockHolder.1 = some txn) : HeldBy h txn.id := by
  cases hlocked : h.locked with
  | false =>
    rw [getLockHolder_free hlocked] at hholder
    cases hholder
  | true =>
    rcases getLockHolder_cases hlocked with heq | heq
    · rw [heq] at hholder
      refine ⟨hlocked, fun r hr => ?_, fun u hu => ?_⟩
      · rw [hr] at hholder
        cases hholder
        rfl
      · exact (hok.sameTxn txn u hholder hu).symm
    rw [heq] at hholder
    refine ⟨hlocked, fun r hr => ?_, fun u hu => ?_⟩
    · exact hok.sameTxn r txn hr hholder
    rw [hu] at hholder
    cases hholder
    rfl

variable {id : TxnID}

lemma HeldBy.holder_id (hheld : HeldBy h id)
    (hholder : h.getLockHolder.1 = some txn) : txn.id = id := by
  rcases getLockHolder_cases hheld.locked with heq | heq
  · rw [heq] at hholder
    exact hheld.replicated txn hholder
  rw [heq] at hholder
  exact hheld.unreplicated txn hholder

lemma HolderOk.isLockedBy (hok : HolderOk h)
    (hholder : h.getLockHolder.1 = some txn) (id : TxnID) :
    h.isLockedBy id = .ok (id == txn.id) := by
  have hheld := hok.heldBy hholder
  unfold LockHolder.isLockedBy
  rw [if_pos hheld.locked]
  cases hun : h.unreplicated.txn with
  | some u =>
    dsimp only
    rw [hheld.unreplicated u hun]
  | none =>
    obtain ⟨r, hr⟩ := ne_none_iff_exists'.mp
      ((hok.held hheld.locked).resolve_right fun hne => hne hun)
    rw [hr, ← hheld.replicated r hr]
    rfl

lemma isLockedBy_free (hfree : h.locked = false) (id : TxnID) :
    h.isLockedBy id = .ok false := by
  simp [isLockedBy, hfree]

/-! ## Methods that keep the records -/

variable {ref : LockRef} {v v' : View} {gc : Bool} {ts : Timestamp} {durability : Durability}
  {up : LockUpdate}

lemma holder_informActiveWaiters
    (h : informActiveWaiters ref v = .ok v') : v'.lock.holder = v.lock.holder := by
  obtain ⟨state, -, h⟩ := bind_eq_ok.mp h
  cases h
  rfl

lemma holder_increasedLockTs (ref : LockRef) (ts : Timestamp) (v : View) :
    (increasedLockTs ref ts v).lock.holder = v.lock.holder := by
  unfold increasedLockTs
  dsimp only
  split_ifs
  · unfold tryMakeNewDistinguished
    dsimp only
    split <;> rfl
  · rfl

lemma holder_reserve (ref : LockRef) (qg : QueuedGuard) (rest : List QueuedGuard)
    (v : View) : (reserve ref qg rest v).lock.holder = v.lock.holder := by
  unfold reserve
  split_ifs <;> rfl

lemma holder_lockIsFree
    (h : lockIsFree ref v = .ok (v', gc)) : v'.lock.holder = v.lock.holder := by
  unfold lockIsFree at h
  split_ifs at h
  dsimp only at h
  split at h
  · obtain ⟨_, -, h⟩ := bind_eq_ok.mp h
    cases h
    rfl
  obtain ⟨w, hinform, h⟩ := map_eq_ok.mp h
  cases h
  rw [holder_informActiveWaiters hinform, holder_reserve]
  rfl

/-! ## Methods that change the records -/

/-- The record an acquisition leaves. -/
inductive Acquired (durability : Durability) (txn : TxnMeta) (ts : Timestamp) (h : LockHolder) :
    LockHolderInfo → Prop
  | again {before : TxnMeta} {info : LockHolderInfo} : h.getLockHolder.1 = some before →
      txn.id = before.id → acquireAgain txn ts (h.info durability) = .ok info →
      Acquired durability txn ts h info
  | first : h.locked = false → Acquired durability txn ts h
      { txn := some txn, ts := ts, seqs := [txn.sequence] }

lemma txn_acquireAgain {info info' : LockHolderInfo}
    (hnone : info.txn = none → info = {}) (h : acquireAgain txn ts info = .ok info') :
    info'.txn = some txn ∨ (info'.txn = info.txn ∧ info.txn ≠ none) := by
  unfold acquireAgain at h
  dsimp only at h
  split_ifs at h with hlast
  · obtain ⟨seqs, -, rfl⟩ := map_eq_ok.mp h
    refine .inr ⟨rfl, fun hn => ?_⟩
    rw [hnone hn] at hlast
    simp [currentSeqs] at hlast
  cases h
  exact .inl rfl

lemma HolderOk.info_txn (hok : HolderOk h) (durability : Durability)
    (hnone : (h.info durability).txn = none) : h.info durability = {} := by
  cases durability with
  | replicated => exact hok.replicated hnone
  | unreplicated => exact hok.unreplicated hnone

lemma HeldBy.info (hheld : HeldBy h id)
    (durability : Durability) {t : TxnMeta} (ht : (h.info durability).txn = some t) :
    t.id = id := by
  cases durability with
  | replicated => exact hheld.replicated t ht
  | unreplicated => exact hheld.unreplicated t ht

lemma Acquired.txn_eq {info : LockHolderInfo} (hacq : Acquired durability txn ts h info)
    (hok : HolderOk h) : ∃ t, info.txn = some t ∧ t.id = txn.id := by
  cases hacq with
  | first _ => exact ⟨txn, rfl, rfl⟩
  | again hbefore hid hinfo =>
    rcases txn_acquireAgain (hok.info_txn durability) hinfo with htxn | ⟨htxn, hne⟩
    · exact ⟨txn, htxn, rfl⟩
    obtain ⟨t, ht⟩ := ne_none_iff_exists'.mp hne
    exact ⟨t, htxn.trans ht, ((hok.heldBy hbefore).info durability ht).trans hid.symm⟩

lemma HolderOk.setInfo {h : LockHolder} {id : TxnID} {info : LockHolderInfo} {t : TxnMeta}
    (hok : HolderOk h) (durability : Durability) (hheld : h.locked → HeldBy h id)
    (ht : info.txn = some t) (hid : t.id = id) :
    HolderOk ({ h with locked := true }.setInfo durability info) ∧
      HeldBy ({ h with locked := true }.setInfo durability info) id := by
  have hrecords : (∀ r, h.replicated.txn = some r → r.id = id) ∧
      ∀ u, h.unreplicated.txn = some u → u.id = id := by
    cases hlocked : h.locked with
    | true => exact ⟨(hheld hlocked).replicated, (hheld hlocked).unreplicated⟩
    | false =>
      rw [hok.free hlocked]
      exact ⟨nofun, nofun⟩
  cases durability with
  | replicated =>
    refine ⟨⟨nofun, fun _ => .inl (by simp [LockHolder.setInfo, ht]),
      fun hnone => ?_, hok.unreplicated, fun r u hr hu => ?_⟩, ⟨rfl, fun r hr => ?_, hrecords.2⟩⟩
    · simp [LockHolder.setInfo, ht] at hnone
    · cases ht.symm.trans hr
      exact hid.trans (hrecords.2 u hu).symm
    cases ht.symm.trans hr
    exact hid
  | unreplicated =>
    refine ⟨⟨nofun, fun _ => .inr (by simp [LockHolder.setInfo, ht]),
      hok.replicated, fun hnone => ?_, fun r u hr hu => ?_⟩, ⟨rfl, hrecords.1, fun u hu => ?_⟩⟩
    · simp [LockHolder.setInfo, ht] at hnone
    · cases ht.symm.trans hu
      exact (hrecords.1 r hr).trans hid.symm
    cases ht.symm.trans hu
    exact hid

lemma holder_reacquireLock (h : reacquireLock ref durability txn ts v = .ok v') :
    (∃ before, v.lock.holder.getLockHolder.1 = some before ∧ txn.id = before.id) ∧
      ∃ info, acquireAgain txn ts (v.lock.holder.info durability) = .ok info ∧
        v'.lock.holder = v.lock.holder.setInfo durability info := by
  obtain ⟨before, hbefore, h⟩ := bind_eq_ok.mp h
  split_ifs at h with hid
  obtain ⟨info, hinfo, h⟩ := bind_eq_ok.mp h
  cases h
  refine ⟨⟨before, deref_eq_ok.mp hbefore, not_not.mp hid⟩, info, hinfo, ?_⟩
  split_ifs
  · exact holder_increasedLockTs ref _ _
  · rfl

lemma holder_queueReservation (l : LockState) : (queueReservation l).holder = l.holder := by
  unfold queueReservation
  split <;> rfl

lemma holder_breakReservation
    (h : breakReservation ref txn v = .ok v') : v'.lock.holder = v.lock.holder := by
  unfold breakReservation at h
  split at h
  · split at h
    · cases h
    split_ifs at h
    · cases h
      exact holder_queueReservation v.lock
    cases h
    rfl
  · split_ifs at h
    cases h
    rfl

lemma holder_acquireLock (h : acquireLock ref durability txn ts v = .ok v') :
    ∃ info, v'.lock.holder = { v.lock.holder with locked := true }.setInfo durability info ∧
      Acquired durability txn ts v.lock.holder info := by
  unfold acquireLock at h
  split_ifs at h with hlocked
  · obtain ⟨⟨before, hbefore, hid⟩, info, hinfo, hholder⟩ := holder_reacquireLock h
    refine ⟨info, ?_, .again hbefore hid hinfo⟩
    rw [hholder, ← hlocked]
  obtain ⟨w, hbreak, h⟩ := bind_eq_ok.mp h
  refine ⟨_, ?_, .first (Bool.eq_false_iff.mpr hlocked)⟩
  rw [← holder_breakReservation hbreak]
  exact holder_informActiveWaiters h

variable {g : Guard} {sa : SpanAccess}

lemma holder_queueDiscoverer (h : queueDiscoverer ref g sa ts v = .ok v') :
    v'.lock.holder = v.lock.holder := by
  rw [← holder_queueReservation v.lock]
  cases sa with
  | spanReadOnly =>
    simp only [queueDiscoverer] at h
    split_ifs at h
    cases h
    rfl
  | spanReadWrite =>
    simp only [queueDiscoverer] at h
    split_ifs at h
    · cases h
      rfl
    cases h
    rfl

lemma holder_discoveredLock {notRemovable : Bool}
    (h : discoveredLock ref txn ts g sa notRemovable v = .ok v') :
    addDiscoveredHolder txn ts v.lock.holder = .ok v'.lock.holder := by
  obtain ⟨holder, hadd, h⟩ := bind_eq_ok.mp h
  obtain ⟨w, hqueue, h⟩ := bind_eq_ok.mp h
  have hkeep : (if notRemovable then
      { v.lock with notRemovable := v.lock.notRemovable + 1 } else v.lock).holder =
        v.lock.holder := by
    split_ifs <;> rfl
  rw [← hkeep, hadd, holder_informActiveWaiters h]
  exact congrArg Except.ok (holder_queueDiscoverer hqueue).symm

lemma HolderOk.addDiscoveredHolder {h' : LockHolder}
    (hok : HolderOk h) (hadd : addDiscoveredHolder txn ts h = .ok h') :
    HolderOk h' ∧ HeldBy h' txn.id ∧ h'.unreplicated = h.unreplicated := by
  obtain ⟨locked, hlocked, hadd⟩ := bind_eq_ok.mp hadd
  have hheld : h.locked → HeldBy h txn.id := by
    intro hlock
    obtain ⟨t, ht⟩ := hok.getLockHolder_isSome hlock
    rw [hok.isLockedBy ht] at hlocked
    cases hlocked
    split_ifs at hadd with hother
    all_goals
      have hsame : txn.id = t.id := by simpa [hlock] using hother
      rw [hsame]
      exact hok.heldBy ht
  split_ifs at hadd with hother hnone
  · cases hadd
    obtain ⟨hok', hheld'⟩ := @HolderOk.setInfo h txn.id
      ⟨some txn, h.replicated.seqs ++ [txn.sequence], ts⟩ txn hok .replicated hheld rfl rfl
    exact ⟨hok', hheld', rfl⟩
  cases hadd
  cases hlock : h.locked with
  | false =>
    rw [hok.free hlock] at hnone
    exact absurd rfl hnone
  | true =>
    rw [← hlock]
    exact ⟨hok, hheld hlock, rfl⟩

lemma updateUnreplicated_cases {info : LockHolderInfo} {up : LockUpdate}
    {advancedTs : Bool} {t : TxnMeta} (ht : info.txn = some t) :
    (t.epoch < up.txn.epoch ∧ updateUnreplicated up advancedTs info = {}) ∨
    (up.txn.epoch = t.epoch ∧ removeIgnored info.seqs up.ignoredSeqNums = [] ∧
      updateUnreplicated up advancedTs info = {}) ∨
    (up.txn.epoch = t.epoch ∧ updateUnreplicated up advancedTs info = {
      txn := if advancedTs then some up.txn else some t
      seqs := removeIgnored info.seqs up.ignoredSeqNums
      ts := if advancedTs then up.txn.writeTimestamp else info.ts }) ∨
    (up.txn.epoch < t.epoch ∧ updateUnreplicated up advancedTs info = {
      txn := some t
      seqs := info.seqs
      ts := if advancedTs then up.txn.writeTimestamp else info.ts }) := by
  obtain ⟨_, seqs, infoTs⟩ := info
  cases ht
  unfold updateUnreplicated
  dsimp only
  rcases lt_trichotomy t.epoch up.txn.epoch with hlt | heq | hgt
  · exact .inl ⟨hlt, if_pos hlt⟩
  · right
    cases hseqs : removeIgnored seqs up.ignoredSeqNums with
    | nil => cases advancedTs <;> simp [heq, hseqs]
    | cons n ns => cases advancedTs <;> simp [heq, hseqs]
  right
  rw [if_neg hgt.not_gt, if_neg hgt.ne]
  cases advancedTs <;> simp [hgt]

/-- What an update leaves to its own holder. -/
def updatedHolder (up : LockUpdate) (h : LockHolder) : LockHolder :=
  { h with
    replicated := {}
    unreplicated := updateUnreplicated up
      (h.getLockHolder.2.less up.txn.writeTimestamp) h.unreplicated }

lemma HeldBy.updatedHolder
    (hheld : HeldBy h up.txn.id) (hkept : (updatedHolder up h).unreplicated.txn ≠ none) :
    HolderOk (updatedHolder up h) ∧ HeldBy (updatedHolder up h) up.txn.id := by
  have hid : ∀ u, (Concurrency.updatedHolder up h).unreplicated.txn = some u →
      u.id = up.txn.id := by
    intro u hu
    cases hinfo : h.unreplicated.txn with
    | none => simp [Concurrency.updatedHolder, updateUnreplicated, hinfo] at hu
    | some t =>
      have ht := hheld.unreplicated t hinfo
      rcases @updateUnreplicated_cases h.unreplicated up
        (h.getLockHolder.2.less up.txn.writeTimestamp) t hinfo with
        ⟨-, hrec⟩ | ⟨-, -, hrec⟩ | ⟨-, hrec⟩ | ⟨-, hrec⟩
      all_goals
        simp only [Concurrency.updatedHolder, hrec] at hu
      · cases hu
      · cases hu
      · split_ifs at hu
        · cases hu
          rfl
        cases hu
        exact ht
      · cases hu
        exact ht
  exact ⟨⟨fun hfree => absurd (hheld.locked.symm.trans hfree) (by simp), fun _ => .inr hkept,
    fun _ => rfl, fun hnone => absurd hnone hkept, nofun⟩, ⟨hheld.locked, nofun, hid⟩⟩

variable {held : Bool}

lemma holder_updatePending
    (hok : HolderOk v.lock.holder) (h : updatePending ref up v = .ok (v', held, gc)) :
    v'.lock.holder = if (updatedHolder up v.lock.holder).unreplicated.txn.isNone then {}
      else updatedHolder up v.lock.holder := by
  have hrep : (if v.lock.holder.replicated.txn.isNone then v.lock.holder.replicated else {}) =
      ({} : LockHolderInfo) := by
    split_ifs with hnone
    · exact hok.replicated (isNone_iff_eq_none.mp hnone)
    · rfl
  unfold updatePending at h
  dsimp only at h
  rw [hrep] at h
  unfold updatedHolder
  split_ifs at h ⊢
  · obtain ⟨⟨w, gc⟩, hfree, h⟩ := map_eq_ok.mp h
    cases h
    exact holder_lockIsFree hfree
  · cases h
    exact holder_increasedLockTs ref _ _
  · cases h
    rfl

lemma locked_of_isEmptyLock {l : LockState} (h : l.isEmptyLock = .ok true) :
    l.holder.locked = false := by
  unfold LockState.isEmptyLock at h
  split_ifs at h with hfree
  · simp only [Bool.and_eq_true, Bool.not_eq_true'] at hfree
    exact hfree.1
  · cases h

lemma holder_tryUpdateLockLocked (hok : HolderOk v.lock.holder)
    (h : tryUpdateLockLocked ref up v = .ok (v', held, gc)) :
    (v.lock.holder.isLockedBy up.txn.id = .ok false ∧ v'.lock.holder = v.lock.holder) ∨
    (v.lock.holder.isLockedBy up.txn.id = .ok true ∧ up.status.isFinalized ∧ v'.lock.holder = {}) ∨
    (v.lock.holder.isLockedBy up.txn.id = .ok true ∧ up.status.isFinalized = false ∧
      v'.lock.holder = if (updatedHolder up v.lock.holder).unreplicated.txn.isNone then {}
        else updatedHolder up v.lock.holder) := by
  obtain ⟨empty, hempty, h⟩ := bind_eq_ok.mp h
  cases empty with
  | true =>
    cases h
    exact .inl ⟨isLockedBy_free (locked_of_isEmptyLock hempty) _, rfl⟩
  | false =>
    obtain ⟨locked, hlocked, h⟩ := bind_eq_ok.mp h
    cases locked with
    | false =>
      cases h
      exact .inl ⟨hlocked, rfl⟩
    | true =>
      simp only [Bool.not_true, Bool.false_eq_true, if_false] at h
      split_ifs at h with hfinal
      · obtain ⟨⟨w, gc⟩, hfree, h⟩ := map_eq_ok.mp h
        cases h
        exact .inr (.inl ⟨hlocked, hfinal, holder_lockIsFree hfree⟩)
      · exact .inr (.inr ⟨hlocked, Bool.eq_false_iff.mpr hfinal, holder_updatePending hok h⟩)

lemma holder_tryFreeLockOnReplicatedAcquire {freed : Bool}
    (h : tryFreeLockOnReplicatedAcquire ref v = .ok (v', freed)) :
    v'.lock.holder = v.lock.holder ∨ v'.lock.holder = {} := by
  unfold tryFreeLockOnReplicatedAcquire at h
  split_ifs at h
  · cases h
    exact .inl rfl
  · cases h
    exact .inl rfl
  obtain ⟨⟨w, gc⟩, hfree, h⟩ := bind_eq_ok.mp h
  dsimp only at h
  split_ifs at h
  cases h
  exact .inr (holder_lockIsFree hfree)

end MeshDB.Concurrency
