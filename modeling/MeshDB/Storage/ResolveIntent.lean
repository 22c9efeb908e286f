import MeshDB.Kvpb.Api
import MeshDB.Roachpb.MergeSpans
import MeshDB.Storage.Stats

/-!
# Resolving intents

`MVCCResolveWriteIntent` and `MVCCResolveWriteIntentRange`: an intent is committed, moved or
removed, as the transaction says. `MVCCPaginate` runs such steps under limits on the keys and the
bytes.
-/
namespace MeshDB.Storage

open List Option Roachpb Hlc Kvpb Store Timestamp

inductive ResolveError where
  | emptyKey
  | rangeAsPoint
  | noTxn
  | missingValue
  | timestampRegression
  /-- A limit assertion of `MVCCPaginate`. -/
  | fatal
  | panic
deriving DecidableEq

def MVCCValue.localTimestampNeeded (v : MVCCValue) (keyTS : Timestamp) : Bool :=
  !v.localTimestamp.isEmpty && v.localTimestamp.less keyTS

/-- The encoded sizes, whether local timestamps are written, and the growth of a batch by a resolved
intent. -/
structure ResolveEnv where
  sizes : Sizes
  shouldWriteLocalTimestamps : Bool
  bufferedSize : StoreKey → ℕ

/-! ## One intent -/

/-- The outcome of `mvccMaybeRewriteIntentHistory`. -/
inductive Rewritten where
  | kept
  | removed
  | restored (newMeta : MVCCMetadata) (value : MVCCValue)

def mvccMaybeRewriteIntentHistory (sizes : Sizes) (ignoredSeqNums : List IgnoredSeqNumRange)
    (m : MVCCMetadata) (t : TxnMeta) : Rewritten :=
  if !txnSeqIsIgnored t.sequence ignoredSeqNums then .kept
  else
    match scanDown (fun e => !txnSeqIsIgnored e.sequence ignoredSeqNums) m.intentHistory
        m.intentHistory.length with
    | 0 => .removed
    | i + 1 =>
      match m.intentHistory[i]? with
      | none => .removed
      | some e =>
        .restored { m with
          txn := some { t with sequence := e.sequence }
          intentHistory := m.intentHistory.take i
          deleted := e.value.isTombstone
          valBytes := sizes.value e.value } e.value

def StoreKey.normal (d : StoreKey) : Option StoreKey :=
  if d.metadata.isNone && d.versions.isEmpty then none else some d

def StoreKey.updateIntent (env : ResolveEnv) (commit : Bool)
    (newTimestamp clockWhilePending : Timestamp) (newMeta : MVCCMetadata)
    (rolledBackVal : Option MVCCValue) (m : MVCCMetadata) (d : StoreKey) :
    Except ResolveError (Option StoreKey) :=
  let versions := match rolledBackVal with
    | some value => putMVCC ⟨m.timestamp, value⟩ d.versions
    | none => d.versions
  if newTimestamp.less m.timestamp then .error .timestampRegression
  else if m.timestamp.less newTimestamp then
    match d.versions.find? fun v => v.timestamp.eqOrdering m.timestamp with
    | none => .error .missingValue
    | some old =>
      let oldValue := rolledBackVal.getD old.value
      let localTimestamp := (oldValue.getLocalTimestamp m.timestamp).forward clockWhilePending
      let newValue := { oldValue with localTimestamp := localTimestamp }
      let newValue :=
        if newValue.localTimestampNeeded newTimestamp && env.shouldWriteLocalTimestamps then
          newValue
        else { newValue with localTimestamp := {} }
      let newMeta := { newMeta with
        txn := newMeta.txn.map fun t => { t with writeTimestamp := newTimestamp }
        timestamp := newTimestamp
        keyBytes := mvccVersionTimestampSize
        valBytes := env.sizes.value newValue
        deleted := newValue.isTombstone }
      .ok (StoreKey.normal ⟨d.key, if commit then none else some newMeta,
        clearMVCC m.timestamp (putMVCC ⟨newTimestamp, newValue⟩ versions)⟩)
  else .ok (StoreKey.normal ⟨d.key, if commit then none else some newMeta, versions⟩)

def StoreKey.removeIntent (m : MVCCMetadata) (d : StoreKey) : Option StoreKey :=
  StoreKey.normal ⟨d.key, none, clearMVCC m.timestamp d.versions⟩

/-- Nothing if there is no intent to resolve, otherwise what is left of the key. -/
def mvccResolveWriteIntent (env : ResolveEnv) (update : LockUpdate) (clockWhilePending : Timestamp)
    (d : StoreKey) : Except ResolveError (Option (Option StoreKey)) :=
  match d.metadata, d.metadata.bind MVCCMetadata.txn with
  | some m, some t =>
    if update.txn.id ≠ t.id then .ok none
    else
      let newTimestamp := update.txn.writeTimestamp
      let epochsMatch := decide (t.epoch = update.txn.epoch)
      let commit := decide (update.status = .committed) && epochsMatch &&
        m.timestamp.lessEq newTimestamp
      let inProgress := !update.status.isFinalized && decide (update.txn.epoch ≤ t.epoch)
      let pushed := inProgress && m.timestamp.less newTimestamp
      let rewritten :=
        if !update.ignoredSeqNums.isEmpty && (commit || inProgress) && epochsMatch then
          mvccMaybeRewriteIntentHistory env.sizes update.ignoredSeqNums m t
        else .kept
      match rewritten with
      | .removed => .ok (some (d.removeIntent m))
      | .restored newMeta value =>
        -- The timestamp of the intent does not regress.
        (d.updateIntent env commit (newTimestamp.forward m.timestamp) clockWhilePending newMeta
          (some value) m).map some
      | .kept =>
        if inProgress && !pushed then .ok none
        else if commit || pushed then
          (d.updateIntent env commit newTimestamp clockWhilePending m none m).map some
        else .ok (some (d.removeIntent m))
  | _, _ => .ok none

/-! ## Spans of intents -/

def Store.keyAt (s : Store) (k : Key) : Option StoreKey := s.keys.find? fun d => d.key = k

def Store.setKey (s : Store) (k : Key) (d : Option StoreKey) : Store :=
  { s with keys := s.keys.filterMap fun e => if e.key = k then d else some e }

/-- What a resolution did, and what is left of the span with the limit that was reached. -/
structure ResolveResult where
  store : Store
  numKeys : ℤ := 0
  numBytes : ℤ := 0
  resumeSpan : Option Span := none
  resumeReason : Option ResumeReason := none

def mvccResolveWriteIntentPoint (env : ResolveEnv) (update : LockUpdate) (targetBytes : ℤ)
    (s : Store) : Except ResolveError ResolveResult :=
  if update.span.key.isEmpty then .error .emptyKey
  else if !update.span.isPoint then .error .rangeAsPoint
  else if targetBytes < 0 then .ok { store := s, resumeSpan := some ⟨update.span.key, none⟩ }
  else
    match s.keyAt update.span.key with
    | none => .ok { store := s }
    | some d =>
      (mvccResolveWriteIntent env update {} d).map fun
        | none => { store := s }
        | some d' =>
          { store := s.setKey d.key d', numKeys := 1, numBytes := env.bufferedSize d }

/-- The loop of `MVCCResolveWriteIntentRange` over the lock table. -/
def resolveLoop (env : ResolveEnv) (update : LockUpdate) (maxKeys targetBytes : ℤ) :
    List StoreKey → Key → ResolveResult → Except ResolveError ResolveResult
  | [], _, r => .ok r
  | d :: intents, lastResolvedKey, r =>
    if 0 < maxKeys ∧ r.numKeys = maxKeys then
      .ok { r with
        resumeSpan := some ⟨lastResolvedKey.next, update.span.endKey⟩
        resumeReason := some .keyLimit }
    else if 0 < targetBytes ∧ targetBytes ≤ r.numBytes then
      .ok { r with
        resumeSpan := some ⟨lastResolvedKey.next, update.span.endKey⟩
        resumeReason := some .byteLimit }
    else
      match d.metadata.bind MVCCMetadata.txn with
      | none => .error .noTxn
      | some t =>
        if update.txn.id ≠ t.id then
          resolveLoop env update maxKeys targetBytes intents lastResolvedKey r
        else
          match mvccResolveWriteIntent env update {} d with
          | .ok none => resolveLoop env update maxKeys targetBytes intents d.key r
          | .ok (some d') =>
            resolveLoop env update maxKeys targetBytes intents d.key
              { r with
                store := r.store.setKey d.key d'
                numKeys := r.numKeys + 1
                numBytes := r.numBytes + env.bufferedSize d }
          | .error _ =>
            -- The error is only logged.
            resolveLoop env update maxKeys targetBytes intents d.key
              { r with numBytes := r.numBytes + env.bufferedSize d }

def Store.locks (s : Store) (sp : Span) : List StoreKey :=
  s.keys.filter fun d => d.metadata.any (fun m => !m.isInline) && decide (sp.key ≤ d.key) &&
    decide (d.key < sp.endKeyBytes)

def mvccResolveWriteIntentRange (env : ResolveEnv) (update : LockUpdate) (maxKeys targetBytes : ℤ)
    (s : Store) : Except ResolveError ResolveResult :=
  if maxKeys < 0 then
    .ok { store := s, resumeSpan := some update.span, resumeReason := some .keyLimit }
  else if targetBytes < 0 then
    .ok { store := s, resumeSpan := some update.span, resumeReason := some .byteLimit }
  else resolveLoop env update maxKeys targetBytes (s.locks update.span) [] { store := s }

/-! ## Limits -/

/-- What is left of a limit: zero is no limit, and a negative one has been reached. -/
def remaining (limit added : ℤ) : ℤ :=
  if 0 < limit then if added < limit then limit - added else -1 else limit

structure Added where
  numKeys : ℤ := 0
  numBytes : ℤ := 0
  resumeReason : Option ResumeReason := none

def limitReached (maxKeys targetBytes : ℤ) : Option ResumeReason :=
  if maxKeys < 0 then some .keyLimit else if targetBytes < 0 then some .byteLimit else none

/-- The limits after a call, unless it did not keep to them. -/
def updateLimits (allowEmpty : Bool) (maxKeys targetBytes : ℤ) (a : Added) :
    Except ResolveError (ℤ × ℤ) :=
  let maxKeys' := remaining maxKeys a.numKeys
  let targetBytes' := remaining targetBytes a.numBytes
  if 0 < maxKeys ∧ maxKeys < a.numKeys then .error .fatal
  else
    match a.resumeReason with
    | none => .ok (maxKeys', targetBytes')
    | some .keyLimit => if 0 ≤ maxKeys' then .error .fatal else .ok (maxKeys', targetBytes')
    | some .byteLimit =>
      if !allowEmpty && decide (0 ≤ targetBytes') then .error .fatal else .ok (maxKeys', -1)
    | some _ => .error .fatal

/-- `MVCCPaginate` over the items of a list. Those not reached are returned with the counts. -/
def mvccPaginate {σ ι : Type} (allowEmpty : Bool)
    (f : ℤ → ℤ → ι → σ → Except ResolveError (σ × Added)) :
    ℤ → ℤ → List ι → Added → σ → Except ResolveError (σ × List ι × Added)
  | maxKeys, targetBytes, [], a, st =>
    .ok (st, [], { a with resumeReason := limitReached maxKeys targetBytes })
  | maxKeys, targetBytes, item :: items, a, st =>
    match limitReached maxKeys targetBytes with
    | some reason => .ok (st, item :: items, { a with resumeReason := some reason })
    | none =>
      (f maxKeys targetBytes item st).bind fun (st, added) =>
        (updateLimits allowEmpty maxKeys targetBytes added).bind fun (maxKeys, targetBytes) =>
          mvccPaginate allowEmpty f maxKeys targetBytes items
            { a with
              numKeys := a.numKeys + added.numKeys
              numBytes := a.numBytes + added.numBytes } st

/-! ## The intents of one transaction -/

def StoreKey.owner (d : StoreKey) : Option TxnID :=
  (d.metadata.bind MVCCMetadata.txn).map TxnMeta.id

def Store.ownerAt (s : Store) (k : Key) : Option TxnID := (s.keyAt k).bind StoreKey.owner

/-- An intent names its transaction and has a provisional value, an inline value does not. -/
structure StoreKey.Lockable (d : StoreKey) : Prop where
  txn : ∀ m, d.metadata = some m → (m.isInline ↔ m.txn = none)
  value : ∀ m, d.metadata = some m → m.isInline = false →
    ∃ v ∈ d.versions, v.timestamp.ord = m.timestamp.ord

lemma StoreKey.Wf.lockable {d : StoreKey} (h : d.Wf)
    (htxn : ∀ m, d.metadata = some m → (m.isInline ↔ m.txn = none)) : d.Lockable := by
  constructor
  · exact htxn
  intro m hm hinline
  cases h with
  | committed => cases hm
  | inline h =>
    cases hm
    rw [h] at hinline
    cases hinline
  | @intent _ _ v _ _ htimestamp =>
    cases hm
    exact ⟨v, .head _, htimestamp⟩

lemma StoreKey.normal_eq_some {d e : StoreKey} (h : d.normal = some e) : e = d := by
  unfold StoreKey.normal at h
  split_ifs at h
  exact (Option.some.inj h).symm

variable {env : ResolveEnv} {update : LockUpdate} {d : StoreKey} {m : MVCCMetadata}
  {newTimestamp clockWhilePending : Timestamp} {s s' s'' : Store} {k : Key}

def Freed (d : StoreKey) (d' : Option StoreKey) : Prop :=
  ∀ e, d' = some e → e.key = d.key ∧ e.metadata = none

lemma freed_normal {versions : List Version} :
    Freed d (StoreKey.normal ⟨d.key, none, versions⟩) := by
  intro e he
  cases StoreKey.normal_eq_some he
  exact ⟨rfl, rfl⟩

lemma updateIntent_commit (env : ResolveEnv) (clockWhilePending : Timestamp)
    (newMeta : MVCCMetadata) (rolledBackVal : Option MVCCValue)
    (hle : m.timestamp.ord ≤ newTimestamp.ord)
    (hvalue : ∃ v ∈ d.versions, v.timestamp.ord = m.timestamp.ord) :
    ∃ d', d.updateIntent env true newTimestamp clockWhilePending newMeta rolledBackVal m = .ok d' ∧
      Freed d d' := by
  unfold StoreKey.updateIntent
  rw [if_neg (by simpa [less_iff] using hle)]
  by_cases hlt : m.timestamp.less newTimestamp
  · obtain ⟨v, hv, hts⟩ := hvalue
    have hfind : (d.versions.find? fun v => v.timestamp.eqOrdering m.timestamp).isSome := by
      simp only [find?_isSome, eqOrdering_iff]
      exact ⟨v, hv, hts⟩
    obtain ⟨old, hold⟩ := isSome_iff_exists.mp hfind
    simp only [hlt, hold, if_true]
    exact ⟨_, rfl, freed_normal⟩
  · simp only [hlt, if_true]
    exact ⟨_, rfl, freed_normal⟩

lemma mvccResolveWriteIntent_own (env : ResolveEnv) (clockWhilePending : Timestamp)
    (hd : d.Lockable) (howner : d.owner = some update.txn.id)
    (hstatus : update.status.isFinalized) :
    ∃ d', mvccResolveWriteIntent env update clockWhilePending d = .ok (some d') ∧ Freed d d' := by
  unfold StoreKey.owner at howner
  simp only [map_eq_some_iff, bind_eq_some_iff] at howner
  obtain ⟨t, ⟨m, hm, ht⟩, hid⟩ := howner
  have hinline : m.isInline = false := by
    rw [← Bool.not_eq_true, hd.txn m hm, ht]
    simp
  have hvalue := hd.value m hm hinline
  have hremove : Freed d (d.removeIntent m) := freed_normal
  simp only [mvccResolveWriteIntent, hm, bind_some, ht, hid, ne_eq, not_true_eq_false,
    if_false, hstatus, Bool.not_true, Bool.false_and, Bool.or_false]
  cases hcommit : decide (update.status = .committed) && decide (t.epoch = update.txn.epoch) &&
      m.timestamp.lessEq update.txn.writeTimestamp with
  | false => exact ⟨_, by simp, hremove⟩
  | true =>
    have hle : m.timestamp.ord ≤ update.txn.writeTimestamp.ord := by
      rw [Bool.and_eq_true] at hcommit
      exact lessEq_iff.mp hcommit.2
    split
    · exact ⟨_, rfl, hremove⟩
    · next newMeta value _ =>
        have hforward : m.timestamp.ord ≤ (update.txn.writeTimestamp.forward m.timestamp).ord := by
          rw [ord_forward]
          exact le_max_right _ _
        obtain ⟨d', hd', hfreed⟩ :=
          updateIntent_commit env clockWhilePending newMeta (some value) hforward hvalue
        exact ⟨d', by rw [hd']; rfl, hfreed⟩
    · obtain ⟨d', hd', hfreed⟩ := updateIntent_commit env clockWhilePending m none hle hvalue
      exact ⟨d', by simp [hd', Except.map], hfreed⟩

lemma mvccResolveWriteIntent_other (howner : d.owner ≠ some update.txn.id) :
    mvccResolveWriteIntent env update clockWhilePending d = .ok none := by
  unfold mvccResolveWriteIntent
  split
  · next m t hm ht =>
      have hne : update.txn.id ≠ t.id := by
        intro heq
        apply howner
        simp [StoreKey.owner, ht, heq]
      rw [if_pos hne]
  · rfl

/-! ### One key of a store -/

namespace Store

lemma key_of_keyAt (h : s.keyAt k = some d) : d.key = k := by
  simpa using find?_some h

lemma mem_keys_iff (h : OrderedSet.Sorted StoreKey.key s.keys) :
    d ∈ s.keys ↔ s.keyAt d.key = some d := by
  constructor
  · intro hd
    have hsome : (s.keyAt d.key).isSome := by
      simp only [keyAt, find?_isSome]
      exact ⟨d, hd, by simp⟩
    obtain ⟨e, he⟩ := isSome_iff_exists.mp hsome
    rw [he, h.eq_of_key_eq (mem_of_find?_eq_some he) hd (key_of_keyAt he)]
  · exact mem_of_find?_eq_some

lemma keyAt_setKey {d' : Option StoreKey} (hd : ∀ e, d' = some e → e.key = k) (k' : Key) :
    (s.setKey k d').keyAt k' = if k' = k then (s.keyAt k).bind fun _ => d' else s.keyAt k' := by
  unfold setKey keyAt
  induction s.keys with
  | nil => simp
  | cons e l ih =>
    rw [filterMap_cons]
    by_cases he : e.key = k
    · cases d' with
      | none =>
        by_cases hk : k' = k
        · simpa [he, hk] using ih
        · simp [he, hk, ih, Ne.symm hk]
      | some d' =>
        have hkey := hd d' rfl
        by_cases hk : k' = k
        · simp [he, hk, hkey]
        · simp [he, hk, hkey, ih, Ne.symm hk]
    by_cases hk : k' = k
    · subst hk
      simp [he, ih]
    by_cases hk' : e.key = k'
    · simp [hk, hk']
    · simp [he, hk, hk', ih]

lemma sorted_setKey {d' : Option StoreKey} (hd : ∀ e, d' = some e → e.key = k)
    (h : OrderedSet.Sorted StoreKey.key s.keys) :
    OrderedSet.Sorted StoreKey.key (s.setKey k d').keys := by
  have hkey : ∀ e e', (if e.key = k then d' else some e) = some e' → e'.key = e.key := by
    intro e e' he
    split_ifs at he with hek
    · rw [hd e' he, hek]
    cases he
    rfl
  apply List.Pairwise.filterMap _ _ h
  intro a a' hlt b hb b' hb'
  rw [hkey a b hb, hkey a' b' hb']
  exact hlt

end Store

/-! ### What a run resolves -/

/-- A run that resolves the intents of a transaction on some keys, and nothing else. -/
structure Resolves (id : TxnID) (s s' : Store) (ds : List StoreKey) : Prop where
  nodup : (ds.map StoreKey.key).Nodup
  owned : ∀ d ∈ ds, s.keyAt d.key = some d ∧ d.owner = some id
  freed : ∀ d ∈ ds, ∀ e, s'.keyAt d.key = some e → e.metadata = none
  same : ∀ k, k ∉ ds.map StoreKey.key → s'.keyAt k = s.keyAt k
  sorted : OrderedSet.Sorted StoreKey.key s'.keys
  rangeKeys : s'.rangeKeys = s.rangeKeys

namespace Resolves

variable {id : TxnID} {ds ds' : List StoreKey}

lemma refl (id : TxnID) (h : OrderedSet.Sorted StoreKey.key s.keys) : Resolves id s s [] :=
  ⟨nodup_nil, by simp, by simp, fun _ _ => rfl, h, rfl⟩

lemma setKey {d' : Option StoreKey} (h : OrderedSet.Sorted StoreKey.key s.keys)
    (hd : s.keyAt d.key = some d) (howner : d.owner = some id) (hfreed : Freed d d') :
    Resolves id s (s.setKey d.key d') [d] where
  nodup := nodup_singleton _
  owned := by simp [hd, howner]
  freed := by
    intro d0 hd0 e he
    cases mem_singleton.mp hd0
    rw [keyAt_setKey (fun e he => (hfreed e he).1), if_pos rfl, hd] at he
    exact (hfreed e he).2
  same := by
    intro k hk
    rw [keyAt_setKey (fun e he => (hfreed e he).1), if_neg (by simpa using hk)]
  sorted := sorted_setKey (fun e he => (hfreed e he).1) h
  rangeKeys := rfl

section
variable (h : Resolves id s s' ds)
include h

lemma ownerAt_ne (hd : d ∈ ds) : s'.ownerAt d.key ≠ some id := by
  unfold Store.ownerAt
  cases he : s'.keyAt d.key with
  | none => simp
  | some e => simp [StoreKey.owner, h.freed d hd e he]

lemma ownerAt (hk : s'.ownerAt k = some id) :
    k ∉ ds.map StoreKey.key ∧ s.ownerAt k = some id := by
  have hnot : k ∉ ds.map StoreKey.key := by
    intro hmem
    obtain ⟨d, hd, rfl⟩ := mem_map.mp hmem
    exact h.ownerAt_ne hd hk
  refine ⟨hnot, ?_⟩
  rw [Store.ownerAt, h.same k hnot] at hk
  exact hk

lemma ownerAt_of_mem (hd : d ∈ ds) : s.ownerAt d.key = some id := by
  simp [Store.ownerAt, (h.owned d hd).1, (h.owned d hd).2]

lemma trans (h' : Resolves id s' s'' ds') : Resolves id s s'' (ds ++ ds') := by
  have hdisjoint : ∀ d ∈ ds', d.key ∉ ds.map StoreKey.key := fun d hd =>
    (h.ownerAt (h'.ownerAt_of_mem hd)).1
  constructor
  · rw [map_append]
    apply List.Nodup.append h.nodup h'.nodup
    intro k hk hk'
    obtain ⟨d, hd, rfl⟩ := mem_map.mp hk'
    exact hdisjoint d hd hk
  · intro d hd
    rcases mem_append.mp hd with hd | hd
    · exact h.owned d hd
    rw [← h.same d.key (hdisjoint d hd)]
    exact h'.owned d hd
  · intro d hd e he
    rcases mem_append.mp hd with hd | hd
    · have hnot : d.key ∉ ds'.map StoreKey.key := by
        intro hmem
        obtain ⟨d', hd', hkey⟩ := mem_map.mp hmem
        apply hdisjoint d' hd'
        rw [hkey]
        exact mem_map_of_mem hd
      rw [h'.same d.key hnot] at he
      exact h.freed d hd e he
    · exact h'.freed d hd e he
  · intro k hk
    rw [map_append, mem_append, not_or] at hk
    rw [h'.same k hk.2, h.same k hk.1]
  · exact h'.sorted
  · rw [h'.rangeKeys, h.rangeKeys]

lemma lockable (hs : ∀ k d, s.keyAt k = some d → d.Lockable) {k : Key}
    {d : StoreKey} (hd : s'.keyAt k = some d) : d.Lockable := by
  by_cases hk : k ∈ ds.map StoreKey.key
  · obtain ⟨d0, hd0, rfl⟩ := mem_map.mp hk
    have hnone := h.freed d0 hd0 d hd
    constructor <;> simp [hnone]
  rw [h.same k hk] at hd
  exact hs k d hd

lemma mem_iff :
    d ∈ ds ↔ s.keyAt d.key = some d ∧ d.owner = some id ∧ s'.ownerAt d.key ≠ some id := by
  constructor
  · intro hd
    exact ⟨(h.owned d hd).1, (h.owned d hd).2, h.ownerAt_ne hd⟩
  rintro ⟨hd, howner, hnot⟩
  by_cases hk : d.key ∈ ds.map StoreKey.key
  · obtain ⟨d0, hd0, hkey⟩ := mem_map.mp hk
    have heq := (h.owned d0 hd0).1
    rw [hkey, hd] at heq
    cases heq
    exact hd0
  · rw [Store.ownerAt, h.same _ hk, hd] at hnot
    exact absurd howner hnot

end
end Resolves

/-! ### What the limits allow -/

/-- Intents may be resolved until a limit is reached; the last one may exceed the bytes. -/
structure Within (env : ResolveEnv) (maxKeys targetBytes : ℤ) (ds : List StoreKey) : Prop where
  keys : 0 < maxKeys → ds.length ≤ maxKeys
  bytes : 0 < targetBytes → (ds.dropLast.map env.bufferedSize).sum < targetBytes
  reached : maxKeys < 0 ∨ targetBytes < 0 → ds = []

/-- The limit that ended a resolution has been reached. -/
def Reached (env : ResolveEnv) (maxKeys targetBytes : ℤ) (ds : List StoreKey)
    (reason : Option ResumeReason) : Prop :=
  reason = some .keyLimit ∧ 0 < maxKeys ∧ ds.length = maxKeys ∨
    reason = some .byteLimit ∧ 0 < targetBytes ∧ targetBytes ≤ (ds.map env.bufferedSize).sum

variable {maxKeys targetBytes : ℤ} {ds ds' : List StoreKey}

lemma within_nil (env : ResolveEnv) (maxKeys targetBytes : ℤ) :
    Within env maxKeys targetBytes [] := by
  constructor <;> intro h <;> simp <;> omega

lemma Within.concat (hkeys : ¬ (0 < maxKeys ∧ (ds.length : ℤ) = maxKeys))
    (hbytes : ¬ (0 < targetBytes ∧ targetBytes ≤ (ds.map env.bufferedSize).sum))
    (hmaxKeys : 0 ≤ maxKeys) (htargetBytes : 0 ≤ targetBytes)
    (h : Within env maxKeys targetBytes ds) : Within env maxKeys targetBytes (ds ++ [d]) := by
  constructor
  · intro hpos
    have := h.keys hpos
    rw [length_append, length_singleton]
    omega
  · intro hpos
    rw [dropLast_concat]
    omega
  · omega

lemma Within.append (h : Within env maxKeys targetBytes ds)
    (h' : Within env (remaining maxKeys ds.length)
      (remaining targetBytes (ds.map env.bufferedSize).sum) ds') :
    Within env maxKeys targetBytes (ds ++ ds') := by
  by_cases hnil : ds' = []
  · simpa [hnil] using h
  have hnot := mt h'.reached hnil
  unfold remaining at h' hnot
  constructor
  · intro hpos
    rw [if_pos hpos] at h' hnot
    have hlt : (ds.length : ℤ) < maxKeys := by
      by_contra hge
      rw [if_neg hge] at hnot
      omega
    have := h'.keys (by rw [if_pos hlt]; omega)
    rw [length_append]
    omega
  · intro hpos
    have hlt : ((ds.map env.bufferedSize).sum : ℤ) < targetBytes := by
      by_contra hge
      rw [if_neg hge] at hnot
      omega
    have := h'.bytes (by rw [if_pos hlt]; omega)
    rw [dropLast_append_of_ne_nil hnil, map_append, sum_append]
    omega
  intro hreached
  exfalso
  apply hnot
  rcases hreached with hlt | hlt
  · left
    rw [if_neg (by omega)]
    exact hlt
  right
  rw [if_neg (by omega)]
  exact hlt

lemma updateLimits_ok {a : Added} (hnumKeys : a.numKeys = ds.length)
    (hnumBytes : a.numBytes = (ds.map env.bufferedSize).sum) (h : Within env maxKeys targetBytes ds)
    (hreason : a.resumeReason = none ∨ Reached env maxKeys targetBytes ds a.resumeReason) :
    updateLimits false maxKeys targetBytes a =
      .ok (remaining maxKeys ds.length, remaining targetBytes (ds.map env.bufferedSize).sum) := by
  have hfatal : ¬ (0 < maxKeys ∧ maxKeys < a.numKeys) := by
    rintro ⟨hpos, hlt⟩
    have := h.keys hpos
    omega
  simp only [updateLimits, hnumKeys ▸ hfatal, if_false, hnumKeys, hnumBytes]
  rcases hreason with hnone | ⟨hsome, hpos, heq⟩ | ⟨hsome, hpos, hle⟩
  · rw [hnone]
  · have hneg : remaining maxKeys ds.length = -1 := by
      rw [remaining, if_pos hpos, if_neg (by omega)]
    rw [hneg]
    simp [hsome]
  have hneg : remaining targetBytes (ds.map env.bufferedSize).sum = -1 := by
    rw [remaining, if_pos hpos, if_neg (by omega)]
  rw [hneg]
  simp [hsome]

/-! ### Spans -/

variable {locks rest : List StoreKey} {last : Key} {r : ResolveResult}

def ownLocks (id : TxnID) (locks : List StoreKey) : List StoreKey :=
  locks.filter fun d => d.owner = some id

/-- The loop has resolved the intents among the first locks. -/
structure Progress (env : ResolveEnv) (update : LockUpdate) (maxKeys targetBytes : ℤ) (s : Store)
    (locks : List StoreKey) (last : Key) (r : ResolveResult) : Prop where
  resolves : Resolves update.txn.id s r.store (ownLocks update.txn.id locks)
  numKeys : r.numKeys = (ownLocks update.txn.id locks).length
  numBytes : r.numBytes = ((ownLocks update.txn.id locks).map env.bufferedSize).sum
  within : Within env maxKeys targetBytes (ownLocks update.txn.id locks)
  last : ∀ d ∈ ownLocks update.txn.id locks, d.key ≤ last ∧ last ∈ locks.map StoreKey.key

lemma Progress.skip (h : Progress env update maxKeys targetBytes s locks last r)
    (hd : d.owner ≠ some update.txn.id) :
    Progress env update maxKeys targetBytes s (locks ++ [d]) last r := by
  have hown : ownLocks update.txn.id (locks ++ [d]) = ownLocks update.txn.id locks := by
    simp [ownLocks, hd]
  constructor <;> rw [hown]
  · exact h.resolves
  · exact h.numKeys
  · exact h.numBytes
  · exact h.within
  intro e he
  rw [map_append]
  exact ⟨(h.last e he).1, mem_append_left _ (h.last e he).2⟩

lemma Progress.resolve {d' : Option StoreKey}
    (h : Progress env update maxKeys targetBytes s locks last r)
    (hkeys : ¬ (0 < maxKeys ∧ r.numKeys = maxKeys))
    (hbytes : ¬ (0 < targetBytes ∧ targetBytes ≤ r.numBytes))
    (hmaxKeys : 0 ≤ maxKeys) (htargetBytes : 0 ≤ targetBytes)
    (hd : s.keyAt d.key = some d) (hbelow : ∀ e ∈ locks, e.key < d.key)
    (howner : d.owner = some update.txn.id) (hfreed : Freed d d') :
    Progress env update maxKeys targetBytes s (locks ++ [d]) d.key
      { r with
        store := r.store.setKey d.key d'
        numKeys := r.numKeys + 1
        numBytes := r.numBytes + env.bufferedSize d } := by
  have hown : ownLocks update.txn.id (locks ++ [d]) = ownLocks update.txn.id locks ++ [d] := by
    simp [ownLocks, howner]
  have hcurrent : r.store.keyAt d.key = some d := by
    rw [h.resolves.same, hd]
    intro hmem
    obtain ⟨e, he, hkey⟩ := mem_map.mp hmem
    exact (hbelow e (mem_filter.mp he).1).ne hkey
  rw [h.numKeys] at hkeys
  rw [h.numBytes] at hbytes
  constructor <;> rw [hown]
  · exact h.resolves.trans (.setKey h.resolves.sorted hcurrent howner hfreed)
  · simp [h.numKeys]
  · simp [h.numBytes]
  · exact h.within.concat hkeys hbytes hmaxKeys htargetBytes
  intro e he
  refine ⟨?_, by simp⟩
  rcases mem_append.mp he with he | he
  · exact (hbelow e (mem_filter.mp he).1).le
  · rw [mem_singleton.mp he]

lemma resolveLoop_ok (hstatus : update.status.isFinalized) (hmaxKeys : 0 ≤ maxKeys)
    (htargetBytes : 0 ≤ targetBytes) (hsorted : OrderedSet.Sorted StoreKey.key (locks ++ rest))
    (hlocks : ∀ d ∈ locks ++ rest, s.keyAt d.key = some d ∧ d.Lockable ∧ d.owner.isSome)
    (h : Progress env update maxKeys targetBytes s locks last r) (hspan : r.resumeSpan = none)
    (hreason : r.resumeReason = none) :
    ∃ locks' rest' last' r', locks' ++ rest' = locks ++ rest ∧
      resolveLoop env update maxKeys targetBytes rest last r = .ok r' ∧
      Progress env update maxKeys targetBytes s locks' last' r' ∧
      (rest' = [] ∧ r'.resumeSpan = none ∧ r'.resumeReason = none ∨
        ownLocks update.txn.id locks' ≠ [] ∧
        r'.resumeSpan = some ⟨last'.next, update.span.endKey⟩ ∧
        Reached env maxKeys targetBytes (ownLocks update.txn.id locks') r'.resumeReason) := by
  induction rest generalizing locks last r with
  | nil => exact ⟨locks, [], last, r, rfl, rfl, h, .inl ⟨rfl, hspan, hreason⟩⟩
  | cons d rest ih =>
    rw [resolveLoop]
    split_ifs with hkeys hbytes
    · have hlength : ((ownLocks update.txn.id locks).length : ℤ) = maxKeys := by
        rw [← h.numKeys]
        exact hkeys.2
      refine ⟨locks, d :: rest, last, _, rfl, rfl, ⟨h.1, h.2, h.3, h.4, h.5⟩, .inr ⟨?_, rfl, ?_⟩⟩
      · intro hnil
        rw [hnil, length_nil] at hlength
        omega
      · exact .inl ⟨rfl, hkeys.1, hlength⟩
    · have hsum : targetBytes ≤ ((ownLocks update.txn.id locks).map env.bufferedSize).sum := by
        rw [← h.numBytes]
        exact hbytes.2
      refine ⟨locks, d :: rest, last, _, rfl, rfl, ⟨h.1, h.2, h.3, h.4, h.5⟩, .inr ⟨?_, rfl, ?_⟩⟩
      · intro hnil
        rw [hnil] at hsum
        simp at hsum
        omega
      · exact .inr ⟨rfl, hbytes.1, hsum⟩
    obtain ⟨hd, hlockable, hsome⟩ := hlocks d (by simp)
    have happend : locks ++ d :: rest = (locks ++ [d]) ++ rest := by simp
    rw [happend] at hsorted hlocks ⊢
    obtain ⟨id, hid⟩ := isSome_iff_exists.mp hsome
    obtain ⟨t, ht, rfl⟩ := map_eq_some_iff.mp hid
    simp only [ht]
    by_cases hown : update.txn.id = t.id
    · rw [if_neg (not_not.mpr hown)]
      have howner : d.owner = some update.txn.id := by rw [hid, hown]
      obtain ⟨d', hd', hfreed⟩ := mvccResolveWriteIntent_own env {} hlockable howner hstatus
      simp only [hd']
      have hbelow : ∀ e ∈ locks, e.key < d.key := by
        intro e he
        have hpair := (pairwise_append.mp hsorted).1
        exact (pairwise_append.mp hpair).2.2 e he d (.head _)
      exact ih hsorted hlocks
        (h.resolve hkeys hbytes hmaxKeys htargetBytes hd hbelow howner hfreed) hspan hreason
    rw [if_pos hown]
    have howner : d.owner ≠ some update.txn.id := by
      rw [hid]
      simpa using Ne.symm hown
    exact ih hsorted hlocks (h.skip howner) hspan hreason

lemma Store.mem_locks (h : OrderedSet.Sorted StoreKey.key s.keys) {sp : Span} :
    d ∈ s.locks sp ↔ s.keyAt d.key = some d ∧ d.metadata.any (fun m => !m.isInline) ∧
      sp.key ≤ d.key ∧ d.key < sp.endKeyBytes := by
  simp [Store.locks, mem_keys_iff h, and_assoc]

/-- What `MVCCResolveWriteIntentRange` does up to a key: it has resolved the intents up to
there. -/
structure RangeResolved (env : ResolveEnv) (update : LockUpdate) (maxKeys targetBytes : ℤ)
    (s : Store) (r : ResolveResult) (ds : List StoreKey) (p : Key → Prop) : Prop where
  resolves : Resolves update.txn.id s r.store ds
  numKeys : r.numKeys = ds.length
  numBytes : r.numBytes = (ds.map env.bufferedSize).sum
  within : Within env maxKeys targetBytes ds
  sorted : OrderedSet.Sorted StoreKey.key ds
  inside : ∀ d ∈ ds, Span.Mem d.key update.span ∧ p d.key
  free : ∀ k, Span.Mem k update.span → p k → r.store.ownerAt k ≠ some update.txn.id

lemma mvccResolveWriteIntentRange_ok (env : ResolveEnv) (update : LockUpdate)
    (hs : OrderedSet.Sorted StoreKey.key s.keys)
    (hlockable : ∀ k d, s.keyAt k = some d → d.Lockable)
    (hstatus : update.status.isFinalized) (hmaxKeys : 0 ≤ maxKeys)
    (htargetBytes : 0 ≤ targetBytes) (hrange : update.span.isPoint = false) :
    ∃ r ds, mvccResolveWriteIntentRange env update maxKeys targetBytes s = .ok r ∧
      (r.resumeSpan = none ∧ r.resumeReason = none ∧
          RangeResolved env update maxKeys targetBytes s r ds (fun _ => True) ∨
        ∃ last, Span.Mem last update.span ∧ r.resumeSpan = some ⟨last.next, update.span.endKey⟩ ∧
          Reached env maxKeys targetBytes ds r.resumeReason ∧
          RangeResolved env update maxKeys targetBytes s r ds (· ≤ last)) := by
  have hmem : ∀ k, Span.Mem k update.span ↔ update.span.key ≤ k ∧ k < update.span.endKeyBytes := by
    intro k
    simp [Span.Mem, hrange]
  have hlocks : ∀ d ∈ s.locks update.span,
      s.keyAt d.key = some d ∧ d.Lockable ∧ d.owner.isSome := by
    intro d hd
    obtain ⟨hkey, hany, -⟩ := (mem_locks hs).mp hd
    have hd := hlockable d.key d hkey
    refine ⟨hkey, hd, ?_⟩
    cases hm : d.metadata with
    | none => simp [hm] at hany
    | some m =>
      have htxn := hd.txn m hm
      cases ht : m.txn with
      | none => simp [hm, htxn.mpr ht] at hany
      | some t => simp [StoreKey.owner, hm, ht]
  have hown : ∀ k, Span.Mem k update.span → s.ownerAt k = some update.txn.id →
      ∃ d ∈ ownLocks update.txn.id (s.locks update.span), d.key = k := by
    intro k hk howner
    obtain ⟨d, hd, hid⟩ := bind_eq_some_iff.mp howner
    cases key_of_keyAt hd
    obtain ⟨t, htxn, -⟩ := map_eq_some_iff.mp hid
    obtain ⟨m, hm, ht⟩ := bind_eq_some_iff.mp htxn
    have hinline : m.isInline = false := by
      rw [← Bool.not_eq_true, (hlockable _ d hd).txn m hm, ht]
      simp
    have hlock : d ∈ s.locks update.span :=
      (mem_locks hs).mpr ⟨hd, by simp [hm, hinline], (hmem d.key).mp hk⟩
    exact ⟨d, mem_filter.mpr ⟨hlock, by simpa using hid⟩, rfl⟩
  have hsorted : OrderedSet.Sorted StoreKey.key ([] ++ s.locks update.span) := hs.filter _
  have hstart : Progress env update maxKeys targetBytes s [] [] { store := s } :=
    ⟨.refl _ hs, rfl, rfl, within_nil env maxKeys targetBytes, by simp [ownLocks]⟩
  obtain ⟨locks, rest, last, r, happend, hr, h, hend⟩ :=
    resolveLoop_ok hstatus hmaxKeys htargetBytes hsorted hlocks hstart rfl rfl
  rw [nil_append] at happend
  have hordered : OrderedSet.Sorted StoreKey.key (ownLocks update.txn.id locks) := by
    rw [nil_append, ← happend] at hsorted
    exact (pairwise_append.mp hsorted).1.filter _
  have hinside : ∀ d ∈ locks, Span.Mem d.key update.span := by
    intro d hd
    have hd : d ∈ s.locks update.span := happend ▸ mem_append_left _ hd
    exact (hmem d.key).mpr ((mem_locks hs).mp hd).2.2
  have hfree : ∀ k, Span.Mem k update.span → (∀ d ∈ rest, d.key ≠ k) →
      r.store.ownerAt k ≠ some update.txn.id := by
    intro k hk hrest howner
    obtain ⟨hnot, hbefore⟩ := h.resolves.ownerAt howner
    obtain ⟨d, hd, rfl⟩ := hown k hk hbefore
    rw [← happend, ownLocks, filter_append] at hd
    rcases mem_append.mp hd with hd | hd
    · exact hnot (mem_map_of_mem hd)
    · exact hrest d (mem_filter.mp hd).1 rfl
  refine ⟨r, ownLocks update.txn.id locks, ?_, ?_⟩
  · rw [mvccResolveWriteIntentRange, if_neg (by omega), if_neg (by omega)]
    exact hr
  rcases hend with ⟨rfl, hspan, hreason⟩ | ⟨hne, hspan, hreached⟩
  · refine .inl ⟨hspan, hreason, h.resolves, h.numKeys, h.numBytes, h.within, hordered, ?_, ?_⟩
    · intro d hd
      exact ⟨hinside d (mem_filter.mp hd).1, trivial⟩
    intro k hk _
    exact hfree k hk (by simp)
  obtain ⟨d0, hd0⟩ := exists_mem_of_ne_nil _ hne
  obtain ⟨e, he, hlast⟩ := mem_map.mp (h.last d0 hd0).2
  refine .inr ⟨last, hlast ▸ hinside e he, hspan, hreached,
    h.resolves, h.numKeys, h.numBytes, h.within, hordered, ?_, ?_⟩
  · intro d hd
    exact ⟨hinside d (mem_filter.mp hd).1, (h.last d hd).1⟩
  intro k hk hle
  apply hfree k hk
  rintro d hd rfl
  rw [nil_append, ← happend] at hsorted
  have hlt := (pairwise_append.mp hsorted).2.2 e he d hd
  rw [hlast] at hlt
  exact absurd hle (not_le.mpr hlt)

lemma mvccResolveWriteIntentPoint_ok (env : ResolveEnv) (update : LockUpdate)
    (hs : OrderedSet.Sorted StoreKey.key s.keys)
    (hlockable : ∀ k d, s.keyAt k = some d → d.Lockable)
    (hstatus : update.status.isFinalized) (hmaxKeys : 0 ≤ maxKeys)
    (htargetBytes : 0 ≤ targetBytes) (hkey : update.span.key ≠ []) (hpoint : update.span.isPoint) :
    ∃ r ds, mvccResolveWriteIntentPoint env update targetBytes s = .ok r ∧ r.resumeSpan = none ∧
      RangeResolved env update maxKeys targetBytes s r ds (fun _ => True) := by
  have hmem : ∀ k, Span.Mem k update.span ↔ k = update.span.key := by
    intro k
    simp [Span.Mem, hpoint]
  have hnone : s.ownerAt update.span.key ≠ some update.txn.id →
      RangeResolved env update maxKeys targetBytes s { store := s } [] (fun _ => True) := by
    intro howner
    refine ⟨.refl _ hs, rfl, rfl, within_nil _ _ _, OrderedSet.sorted_nil, by simp, ?_⟩
    intro k hk _
    rw [(hmem k).mp hk]
    exact howner
  unfold mvccResolveWriteIntentPoint
  simp only [List.isEmpty_iff, hkey, hpoint, Bool.not_true, Bool.false_eq_true, if_false,
    htargetBytes.not_gt]
  cases hd : s.keyAt update.span.key with
  | none => exact ⟨_, [], rfl, rfl, hnone (by simp [Store.ownerAt, hd])⟩
  | some d =>
    dsimp only
    have hdkey := key_of_keyAt hd
    by_cases howner : d.owner = some update.txn.id
    · obtain ⟨d', hd', hfreed⟩ :=
        mvccResolveWriteIntent_own env {} (hlockable _ d hd) howner hstatus
      have hresolves : Resolves update.txn.id s (s.setKey d.key d') [d] :=
        .setKey hs (hdkey ▸ hd) howner hfreed
      rw [hd']
      refine ⟨_, [d], rfl, rfl, hresolves, rfl, by simp, ?_, pairwise_singleton _ _, ?_, ?_⟩
      · constructor <;> intro h <;> simp <;> omega
      · simp [hmem, hdkey]
      intro k hk _
      rw [(hmem k).mp hk, ← hdkey]
      exact hresolves.ownerAt_ne (.head _)
    · rw [mvccResolveWriteIntent_other howner]
      refine ⟨_, [], rfl, rfl, hnone ?_⟩
      simpa [Store.ownerAt, hd] using howner

end MeshDB.Storage
