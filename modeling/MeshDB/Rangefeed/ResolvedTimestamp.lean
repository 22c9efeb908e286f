import MeshDB.Lib.Outcome
import MeshDB.Lib.Pointwise
import MeshDB.Lib.Reachability
import MeshDB.Roachpb.Txn

/-!
# The resolved timestamp of a rangefeed

The resolved timestamp follows the closed timestamp but stays below the transactions that
have unresolved intents. Each operation recomputes it, or asserts that nothing changed.
-/
namespace MeshDB.Rangefeed

open List Roachpb Hlc Timestamp Outcome Transition Pointwise

/-! ## Unresolved transactions -/

/-- A transaction with unresolved intents. -/
structure UnresolvedTxn where
  txnID : TxnID
  txnKey : Option Key
  txnMinTimestamp : Timestamp
  timestamp : Timestamp
  refCount : Int
deriving DecidableEq

/-- The order of the heap. -/
def UnresolvedTxn.less (a b : UnresolvedTxn) : Bool :=
  if a.timestamp.eqOrdering b.timestamp then a.txnID < b.txnID else a.timestamp.less b.timestamp

/-- The source's heap has a total order, so that its root is the least transaction. -/
structure UnresolvedIntentQueue where
  txns : List UnresolvedTxn := []
  allowNegRefCount : Bool := true

namespace UnresolvedIntentQueue

variable (uiq : UnresolvedIntentQueue)

def get (txnID : TxnID) : Option UnresolvedTxn := uiq.txns.find? fun txn => txn.txnID == txnID

/-- The heap's minimum. -/
def oldest : Option UnresolvedTxn :=
  match uiq.txns with
  | [] => none
  | txn :: txns => some (txns.foldl (fun least txn => if txn.less least then txn else least) txn)

def isMin (txnID : TxnID) : Bool := uiq.oldest.any fun txn => txn.txnID == txnID

def remove (txnID : TxnID) : UnresolvedIntentQueue :=
  { uiq with txns := uiq.txns.filter fun txn => txn.txnID != txnID }

def replace (txn : UnresolvedTxn) : UnresolvedIntentQueue :=
  { uiq with txns := uiq.txns.map fun t => if t.txnID == txn.txnID then txn else t }

/-- `updateTxn`, which tells whether the timestamp of the oldest transaction advanced. -/
def updateTxn (txnID : TxnID) (txnKey : Option Key) (txnMinTS ts : Timestamp) (delta : Int) :
    UnresolvedIntentQueue × Bool :=
  match uiq.get txnID with
  | none =>
    if delta = 0 ∨ (delta < 0 ∧ !uiq.allowNegRefCount) then (uiq, false)
    else
      let txn : UnresolvedTxn := {
        txnID := txnID
        txnKey := txnKey
        txnMinTimestamp := txnMinTS
        timestamp := ts
        refCount := delta }
      ({ uiq with txns := txn :: uiq.txns }, false)
  | some txn =>
    let wasMin := uiq.isMin txnID
    let refCount := txn.refCount + delta
    if refCount = 0 ∨ (refCount < 0 ∧ !uiq.allowNegRefCount) then (uiq.remove txnID, wasMin)
    else
      (uiq.replace { txn with refCount := refCount, timestamp := txn.timestamp.forward ts },
        txn.timestamp.less ts && wasMin)

def incRef (txnID : TxnID) (txnKey : Option Key) (txnMinTS ts : Timestamp) :
    UnresolvedIntentQueue × Bool := uiq.updateTxn txnID txnKey txnMinTS ts 1

def decrRef (txnID : TxnID) (ts : Timestamp) : UnresolvedIntentQueue × Bool :=
  uiq.updateTxn txnID none {} ts (-1)

def updateTS (txnID : TxnID) (ts : Timestamp) : UnresolvedIntentQueue × Bool :=
  uiq.updateTxn txnID none {} ts 0

def del (txnID : TxnID) : UnresolvedIntentQueue × Bool :=
  match uiq.get txnID with
  | none => (uiq, false)
  | some _ => (uiq.remove txnID, uiq.isMin txnID)

/-- The scan is over, so every intent was seen. -/
def disallowNegRefCount : Outcome UnresolvedIntentQueue :=
  if uiq.txns.any fun txn => txn.refCount ≤ 0 then .error .panic
  else .ok { uiq with allowNegRefCount := false }

end UnresolvedIntentQueue

/-! ## The resolved timestamp -/

/-- The logical operations of the Raft log. -/
inductive LogicalOp where
  | writeValue (timestamp : Timestamp)
  | deleteRange (timestamp : Timestamp)
  | writeIntent (txnID : TxnID) (txnKey : Key) (txnMinTimestamp timestamp : Timestamp)
  | updateIntent (txnID : TxnID) (timestamp : Timestamp)
  | commitIntent (txnID : TxnID) (timestamp : Timestamp)
  | abortIntent (txnID : TxnID)
  | abortTxn (txnID : TxnID)
deriving DecidableEq

/-- The closed and the resolved timestamp. -/
structure ResolvedTimestamp where
  init : Bool := false
  closedTS : Timestamp := {}
  resolvedTS : Timestamp := {}
  intentQ : UnresolvedIntentQueue := {}

namespace ResolvedTimestamp

variable (rts : ResolvedTimestamp)

/-- Up to the closed timestamp, below every intent. -/
def newTS : Outcome Timestamp :=
  match rts.intentQ.oldest with
  | none => .ok { rts.closedTS with logical := 0 }
  | some txn =>
    if txn.timestamp.lessEq rts.resolvedTS then .error .panic
    else (deref txn.timestamp.prev).map fun txnTS =>
      { rts.closedTS.backward txnTS with logical := 0 }

/-- The resolved timestamp must not regress. -/
def recompute : Outcome (ResolvedTimestamp × Bool) :=
  if !rts.init then .ok (rts, false)
  else if rts.closedTS.less rts.resolvedTS then .error .panic
  else do
    let newTS ← rts.newTS
    if newTS.less rts.resolvedTS then .error .panic
    else return ({ rts with resolvedTS := rts.resolvedTS.forward newTS }, rts.resolvedTS.less newTS)

/-- The queue said that its minimum stayed. -/
def assertNoChange : Outcome (ResolvedTimestamp × Bool) := do
  let (rts', changed) ← rts.recompute
  if changed || !rts.resolvedTS.eqOrdering rts'.resolvedTS then .error .panic
  else return (rts', false)

/-- The initial scan is done. -/
def initRts : Outcome (ResolvedTimestamp × Bool) := do
  let intentQ ← rts.intentQ.disallowNegRefCount
  { rts with init := true, intentQ := intentQ }.recompute

def forwardClosedTS (newClosedTS : Timestamp) : Outcome (ResolvedTimestamp × Bool) :=
  let rts' := { rts with closedTS := rts.closedTS.forward newClosedTS }
  if rts.closedTS.less newClosedTS then rts'.recompute else rts'.assertNoChange

/-- No operation may be at or below the resolved one. -/
def assertOpAboveRTS (opTS : Timestamp) : Outcome Unit :=
  if opTS.lessEq rts.resolvedTS then .error .panic else .ok ()

/-- The changes of the queue, and whether its oldest transaction advanced. -/
def consumeQueue (op : LogicalOp) : Outcome (UnresolvedIntentQueue × Bool) :=
  match op with
  | .writeValue ts => (rts.assertOpAboveRTS ts).map fun _ => (rts.intentQ, false)
  | .deleteRange ts => (rts.assertOpAboveRTS ts).map fun _ => (rts.intentQ, false)
  | .writeIntent txnID txnKey txnMinTS ts =>
    (rts.assertOpAboveRTS ts).map fun _ => rts.intentQ.incRef txnID (some txnKey) txnMinTS ts
  | .updateIntent txnID ts => .ok (rts.intentQ.updateTS txnID ts)
  | .commitIntent txnID ts => .ok (rts.intentQ.decrRef txnID ts)
  | .abortIntent txnID => .ok (rts.intentQ.decrRef txnID {})
  | .abortTxn txnID => .ok (if !rts.init then (rts.intentQ, false) else rts.intentQ.del txnID)

def consumeLogicalOp (op : LogicalOp) : Outcome (ResolvedTimestamp × Bool) := do
  let (intentQ, advanced) ← rts.consumeQueue op
  let rts' := { rts with intentQ := intentQ }
  if advanced then rts'.recompute else rts'.assertNoChange

end ResolvedTimestamp

/-! ## Runs -/

/-- The transaction's intents that are written and not resolved, and its timestamp. -/
structure Account where
  balance : Int := 0
  timestamp : Timestamp := {}

/-- Nothing is resolved that was not written once all intents are known. -/
def Account.add (a : Account) (init : Bool) (ts : Timestamp) (delta : Int) : Account :=
  if a.balance = 0 then
    if delta = 0 ∨ (delta < 0 ∧ init) then a else ⟨delta, ts⟩
  else if a.balance + delta = 0 then {}
  else ⟨a.balance + delta, a.timestamp.forward ts⟩

/-- The timestamp with the intents that are there. -/
structure Run where
  rts : ResolvedTimestamp := {}
  accounts : TxnID → Account := fun _ => {}

/-- What an operation does to the intents. -/
def accountsAfter (init : Bool) (accounts : TxnID → Account) : LogicalOp → TxnID → Account
  | .writeValue _ => accounts
  | .deleteRange _ => accounts
  | .writeIntent txnID _ _ ts => Pointwise.modify accounts txnID fun a => a.add init ts 1
  | .updateIntent txnID ts => Pointwise.modify accounts txnID fun a => a.add init ts 0
  | .commitIntent txnID ts => Pointwise.modify accounts txnID fun a => a.add init ts (-1)
  | .abortIntent txnID => Pointwise.modify accounts txnID fun a => a.add init {} (-1)
  | .abortTxn txnID =>
    if init then Pointwise.modify accounts txnID fun _ => {} else accounts

inductive Action where
  | init
  | forwardClosedTS (newClosedTS : Timestamp)
  | consumeLogicalOp (op : LogicalOp)

def perform (s : Run) : Action → Outcome Run
  | .init => s.rts.initRts.map fun (rts, _) => { s with rts := rts }
  | .forwardClosedTS ts => (s.rts.forwardClosedTS ts).map fun (rts, _) => { s with rts := rts }
  | .consumeLogicalOp op =>
    (s.rts.consumeLogicalOp op).map fun (rts, _) =>
      { rts := rts, accounts := accountsAfter s.rts.init s.accounts op }

def step (s : Run) (a : Action) : Option Run := (perform s a).toOption

def LogicalOp.Legal (rts : ResolvedTimestamp) : LogicalOp → Prop
  | .writeValue ts => rts.resolvedTS.ord < ts.ord
  | .deleteRange ts => rts.resolvedTS.ord < ts.ord
  | .writeIntent _ _ _ ts => rts.resolvedTS.ord < ts.ord
  | _ => True

/-- `Init` is called once, when no transaction resolved more intents than it wrote. -/
def Legal (s : Run) : Action → Prop
  | .init => s.rts.init = false ∧ ∀ txn ∈ s.rts.intentQ.txns, 0 < txn.refCount
  | .forwardClosedTS ts => 0 ≤ ts.logical
  | .consumeLogicalOp op => op.Legal s.rts

/-! ## The queue -/

namespace UnresolvedIntentQueue

variable {uiq : UnresolvedIntentQueue} {txnID : TxnID} {txn o : UnresolvedTxn} {a b : UnresolvedTxn}

lemma ord_le_of_less (h : a.less b) :
    a.timestamp.ord ≤ b.timestamp.ord := by
  unfold UnresolvedTxn.less at h
  split_ifs at h with heq
  · exact (eqOrdering_iff.mp heq).le
  · exact (less_iff.mp h).le

lemma ord_le_of_not_less (h : ¬ a.less b) :
    b.timestamp.ord ≤ a.timestamp.ord := by
  unfold UnresolvedTxn.less at h
  split_ifs at h with heq
  · exact (eqOrdering_iff.mp heq).ge
  · exact not_less_iff.mp (Bool.not_eq_true _ ▸ h)

lemma foldl_least (txns : List UnresolvedTxn) (txn : UnresolvedTxn) :
    let o := txns.foldl (fun least txn => if txn.less least then txn else least) txn
    o ∈ txn :: txns ∧ ∀ t ∈ txn :: txns, o.timestamp.ord ≤ t.timestamp.ord := by
  induction txns generalizing txn with
  | nil => simp
  | cons t txns ih =>
    rw [foldl_cons]
    by_cases h : t.less txn
    · rw [if_pos h]
      obtain ⟨hmem, hle⟩ := ih t
      have hhead := (hle t (.head _)).trans (ord_le_of_less h)
      exact ⟨.tail txn hmem, forall_mem_cons.mpr ⟨hhead, hle⟩⟩
    rw [if_neg h]
    obtain ⟨hmem, hle⟩ := ih txn
    constructor
    · rcases mem_cons.mp hmem with h | h
      · rw [h]
        exact .head _
      · exact .tail _ (.tail _ h)
    obtain ⟨hhead, hrest⟩ := forall_mem_cons.mp hle
    exact forall_mem_cons.mpr ⟨hhead,
      forall_mem_cons.mpr ⟨hhead.trans (ord_le_of_not_less h), hrest⟩⟩

lemma oldest_mem (h : uiq.oldest = some o) : o ∈ uiq.txns := by
  unfold oldest at h
  split at h
  · cases h
  next txn txns heq =>
    cases h
    rw [heq]
    exact (foldl_least txns txn).1

lemma oldest_le (h : uiq.oldest = some o) (ht : txn ∈ uiq.txns) :
    o.timestamp.ord ≤ txn.timestamp.ord := by
  unfold oldest at h
  split at h
  · cases h
  next t txns heq =>
    cases h
    exact (foldl_least txns t).2 txn (heq ▸ ht)

lemma exists_oldest (ht : txn ∈ uiq.txns) : ∃ o, uiq.oldest = some o := by
  unfold oldest
  split
  · next heq =>
      rw [heq] at ht
      cases ht
  · exact ⟨_, rfl⟩

lemma get_eq_some (h : uiq.get txnID = some txn) : txn ∈ uiq.txns ∧ txn.txnID = txnID :=
  ⟨mem_of_find?_eq_some h, by simpa using find?_some h⟩

lemma get_eq_none (h : uiq.get txnID = none) (ht : txn ∈ uiq.txns) : txn.txnID ≠ txnID := by
  simpa using find?_eq_none.mp h txn ht

lemma mem_remove : txn ∈ (uiq.remove txnID).txns ↔ txn ∈ uiq.txns ∧ txn.txnID ≠ txnID := by
  simp [remove]

variable {t : UnresolvedTxn}

lemma mem_replace (h : txn ∈ (uiq.replace t).txns) :
    txn = t ∨ txn ∈ uiq.txns ∧ txn.txnID ≠ t.txnID := by
  obtain ⟨u, hu, heq⟩ := mem_map.mp h
  split_ifs at heq with hid
  · exact .inl heq.symm
  right
  rw [← heq]
  exact ⟨hu, by simpa using hid⟩

lemma mem_replace_of_ne (h : txn ∈ uiq.txns) (hne : txn.txnID ≠ t.txnID) :
    txn ∈ (uiq.replace t).txns :=
  mem_map.mpr ⟨txn, h, if_neg (by simpa using hne)⟩

lemma self_mem_replace (h : txn ∈ uiq.txns) (heq : txn.txnID = t.txnID) :
    t ∈ (uiq.replace t).txns :=
  mem_map.mpr ⟨txn, h, if_pos (by simpa using heq)⟩

/-- The counts are those of the intents. -/
structure Agrees (uiq : UnresolvedIntentQueue) (accounts : TxnID → Account) : Prop where
  refCount : ∀ txn ∈ uiq.txns, txn.refCount = (accounts txn.txnID).balance
  timestamp : ∀ txn ∈ uiq.txns, txn.timestamp.ord = (accounts txn.txnID).timestamp.ord
  balance_ne : ∀ txn ∈ uiq.txns, (accounts txn.txnID).balance ≠ 0
  tracked : ∀ txnID, (accounts txnID).balance ≠ 0 → ∃ txn ∈ uiq.txns, txn.txnID = txnID

variable {accounts : TxnID → Account} {txnKey : Option Key} {txnMinTS ts : Timestamp} {delta : Int}
  {init : Bool}

section
variable (h : Agrees uiq accounts)
include h

lemma Agrees.wallBelow_eq {u : UnresolvedTxn} (ht : t ∈ uiq.txns)
    (hu : u ∈ uiq.txns) (hid : t.txnID = u.txnID) :
    t.timestamp.wallBelow = u.timestamp.wallBelow := by
  apply wallBelow_congr
  rw [h.timestamp t ht, h.timestamp u hu, hid]

lemma Agrees.eq_zero (hid : ∀ txn ∈ uiq.txns, txn.txnID ≠ txnID) :
    (accounts txnID).balance = 0 := by
  by_contra hne
  obtain ⟨txn, hmem, heq⟩ := h.tracked txnID hne
  exact hid txn hmem heq

variable {a : Account}

/-- The account of a transaction changes with what the queue has for it. -/
lemma Agrees.modify {uiq' : UnresolvedIntentQueue}
    (hmem : ∀ t ∈ uiq'.txns, (t.txnID = txnID ∧ t.refCount = a.balance ∧
      t.timestamp.ord = a.timestamp.ord ∧ a.balance ≠ 0) ∨ t ∈ uiq.txns ∧ t.txnID ≠ txnID)
    (hself : a.balance ≠ 0 → ∃ t ∈ uiq'.txns, t.txnID = txnID)
    (hkeep : ∀ t ∈ uiq.txns, t.txnID ≠ txnID → t ∈ uiq'.txns) :
    Agrees uiq' (Pointwise.modify accounts txnID fun _ => a) where
  refCount t ht := by
    rcases hmem t ht with ⟨rfl, hcount, -⟩ | ⟨ht, hid⟩
    · rw [modify_self, hcount]
    rw [modify_of_ne _ _ hid]
    exact h.refCount t ht
  timestamp t ht := by
    rcases hmem t ht with ⟨rfl, -, hord, -⟩ | ⟨ht, hid⟩
    · rw [modify_self, hord]
    rw [modify_of_ne _ _ hid]
    exact h.timestamp t ht
  balance_ne t ht := by
    rcases hmem t ht with ⟨rfl, -, -, hne⟩ | ⟨ht, hid⟩
    · rw [modify_self]
      exact hne
    rw [modify_of_ne _ _ hid]
    exact h.balance_ne t ht
  tracked id hid := by
    by_cases heq : id = txnID
    · rw [heq, modify_self] at hid
      exact heq ▸ hself hid
    rw [modify_of_ne _ _ heq] at hid
    obtain ⟨t, ht, hti⟩ := h.tracked id hid
    exact ⟨t, hkeep t ht (hti ▸ heq), hti⟩

lemma Agrees.remove (ha : a.balance = 0) :
    Agrees (uiq.remove txnID) (Pointwise.modify accounts txnID fun _ => a) :=
  h.modify (fun _ ht => .inr (mem_remove.mp ht)) (fun hne => absurd ha hne)
    fun _ ht hne => mem_remove.mpr ⟨ht, hne⟩

lemma Agrees.put (txn : UnresolvedTxn) {uiq' : UnresolvedIntentQueue}
    (hcount : txn.refCount = a.balance) (hord : txn.timestamp.ord = a.timestamp.ord)
    (hne : a.balance ≠ 0) (hself : txn ∈ uiq'.txns)
    (hmem : ∀ t ∈ uiq'.txns, t = txn ∨ t ∈ uiq.txns ∧ t.txnID ≠ txn.txnID)
    (hkeep : ∀ t ∈ uiq.txns, t.txnID ≠ txn.txnID → t ∈ uiq'.txns) :
    Agrees uiq' (Pointwise.modify accounts txn.txnID fun _ => a) := by
  refine h.modify (fun t ht => (hmem t ht).imp_left ?_) (fun _ => ⟨txn, hself, rfl⟩) hkeep
  rintro rfl
  exact ⟨rfl, hcount, hord, hne⟩

end

lemma modify_const (accounts : TxnID → Account) (txnID : TxnID) (f : Account → Account) :
    Pointwise.modify accounts txnID f =
      Pointwise.modify accounts txnID fun _ => f (accounts txnID) := rfl

lemma Agrees.updateTxn (h : Agrees uiq accounts) (hallow : uiq.allowNegRefCount = !init)
    (hpos : init → ∀ txn ∈ uiq.txns, 0 < txn.refCount) (hdelta : -1 ≤ delta) :
    Agrees (uiq.updateTxn txnID txnKey txnMinTS ts delta).1
      (Pointwise.modify accounts txnID fun a => a.add init ts delta) := by
  rw [modify_const, UnresolvedIntentQueue.updateTxn]
  cases hget : uiq.get txnID with
  | none =>
    have hzero := h.eq_zero fun txn => get_eq_none hget
    simp only [hallow, Bool.not_not, Account.add, hzero, if_true]
    by_cases hskip : delta = 0 ∨ delta < 0 ∧ init
    · rw [if_pos hskip, if_pos hskip]
      rw [show (Pointwise.modify accounts txnID fun _ => accounts txnID) = accounts from
        Function.update_eq_self txnID accounts]
      exact h
    rw [if_neg hskip, if_neg hskip]
    apply h.put ⟨txnID, txnKey, txnMinTS, ts, delta⟩ rfl rfl
    · exact fun hd => hskip (.inl hd)
    · exact .head _
    · intro t ht
      rcases mem_cons.mp ht with rfl | ht
      · exact .inl rfl
      · exact .inr ⟨ht, get_eq_none hget ht⟩
    · exact fun t ht _ => mem_cons_of_mem _ ht
  | some txn =>
    obtain ⟨hmem, hid⟩ := get_eq_some hget
    subst hid
    have hne := h.balance_ne txn hmem
    have hcount := h.refCount txn hmem
    simp only [Account.add, hne, if_false]
    by_cases hzero : txn.refCount + delta = 0
    · rw [if_pos (.inl hzero), if_pos (hcount ▸ hzero)]
      exact h.remove rfl
    have hnot : ¬ (txn.refCount + delta = 0 ∨
        txn.refCount + delta < 0 ∧ (!uiq.allowNegRefCount)) := by
      rw [hallow, Bool.not_not]
      rintro (heq | ⟨hlt, hinit⟩)
      · exact hzero heq
      have := hpos hinit txn hmem
      omega
    rw [if_neg hnot, if_neg (hcount ▸ hzero)]
    apply h.put { txn with
      refCount := txn.refCount + delta, timestamp := txn.timestamp.forward ts }
    · exact congrArg (· + delta) hcount
    · rw [ord_forward, ord_forward, h.timestamp txn hmem]
    · exact hcount ▸ hzero
    · exact self_mem_replace hmem rfl
    · exact fun t => mem_replace
    · exact fun t ht => mem_replace_of_ne ht

lemma mem_updateTxn (h : txn ∈ (uiq.updateTxn txnID txnKey txnMinTS ts delta).1.txns) :
    txn ∈ uiq.txns ∨ ¬ (txn.refCount = 0 ∨ txn.refCount < 0 ∧ (!uiq.allowNegRefCount)) ∧
      (txn.refCount = delta ∧ txn.timestamp = ts ∨
        ∃ t ∈ uiq.txns, txn.refCount = t.refCount + delta ∧
          txn.timestamp = t.timestamp.forward ts) := by
  unfold UnresolvedIntentQueue.updateTxn at h
  split at h
  · split_ifs at h with hskip
    · exact .inl h
    rcases mem_cons.mp h with rfl | h
    · exact .inr ⟨hskip, .inl ⟨rfl, rfl⟩⟩
    · exact .inl h
  next t hget =>
    dsimp only at h
    split_ifs at h with hgone
    · exact .inl (mem_remove.mp h).1
    rcases mem_replace h with rfl | ⟨h, -⟩
    · exact .inr ⟨hgone, .inr ⟨t, (get_eq_some hget).1, rfl, rfl⟩⟩
    · exact .inl h

lemma updateTxn_allowNegRefCount :
    (uiq.updateTxn txnID txnKey txnMinTS ts delta).1.allowNegRefCount = uiq.allowNegRefCount := by
  unfold UnresolvedIntentQueue.updateTxn
  split <;> dsimp only <;> split_ifs <;> rfl

variable {w : Int}

lemma oldest_attains (hle : ∀ txn ∈ uiq.txns, w ≤ txn.timestamp.wallBelow)
    (hmem : txn ∈ uiq.txns) (heq : w = txn.timestamp.wallBelow) :
    ∃ o, uiq.oldest = some o ∧ w = o.timestamp.wallBelow := by
  obtain ⟨o, ho⟩ := exists_oldest hmem
  have h1 := hle o (oldest_mem ho)
  have h2 := wallBelow_mono (oldest_le ho hmem)
  exact ⟨o, ho, by omega⟩

lemma attained_of_not_isMin (hle : ∀ txn ∈ uiq.txns, w ≤ txn.timestamp.wallBelow)
    (hmem : txn ∈ uiq.txns) (heq : w = txn.timestamp.wallBelow) (hmin : uiq.isMin txnID = false) :
    ∃ t ∈ uiq.txns, t.txnID ≠ txnID ∧ w = t.timestamp.wallBelow := by
  obtain ⟨o, ho, hwo⟩ := oldest_attains hle hmem heq
  rw [isMin, ho] at hmin
  exact ⟨o, oldest_mem ho, by simpa using hmin, hwo⟩

lemma attained_updateTxn (h : Agrees uiq accounts)
    (hle : ∀ txn ∈ uiq.txns, w ≤ txn.timestamp.wallBelow)
    (hatt : ∃ txn ∈ uiq.txns, w = txn.timestamp.wallBelow)
    (hadv : (uiq.updateTxn txnID txnKey txnMinTS ts delta).2 = false) :
    ∃ txn ∈ (uiq.updateTxn txnID txnKey txnMinTS ts delta).1.txns, w = txn.timestamp.wallBelow := by
  obtain ⟨t, ht, hwt⟩ := hatt
  unfold UnresolvedIntentQueue.updateTxn at hadv ⊢
  cases hget : uiq.get txnID with
  | none =>
    split_ifs
    · exact ⟨t, ht, hwt⟩
    · exact ⟨t, mem_cons_of_mem _ ht, hwt⟩
  | some txn =>
    obtain ⟨hmem, hid⟩ := get_eq_some hget
    simp only [hget] at hadv
    dsimp only
    split_ifs at hadv ⊢
    · obtain ⟨u, hu, hne, hwu⟩ := attained_of_not_isMin hle ht hwt hadv
      exact ⟨u, mem_remove.mpr ⟨hu, hne⟩, hwu⟩
    rw [Bool.and_eq_false_iff] at hadv
    rcases hadv with hless | hmin
    · by_cases heq : t.txnID = txn.txnID
      · refine ⟨_, self_mem_replace ht heq, ?_⟩
        rw [hwt, h.wallBelow_eq ht hmem heq]
        apply wallBelow_congr
        rw [ord_forward, max_eq_left (not_less_iff.mp hless)]
      · exact ⟨t, mem_replace_of_ne ht heq, hwt⟩
    · obtain ⟨u, hu, hne, hwu⟩ := attained_of_not_isMin hle ht hwt hmin
      exact ⟨u, mem_replace_of_ne hu (hid ▸ hne), hwu⟩

end UnresolvedIntentQueue

/-! ## Recomputing the resolved timestamp -/

namespace ResolvedTimestamp

open UnresolvedIntentQueue
variable {rts rts' : ResolvedTimestamp}

/-- No unresolved intent at or below it. -/
structure Below (rts : ResolvedTimestamp) : Prop where
  logical : rts.resolvedTS.logical = 0
  nonneg : 0 ≤ rts.resolvedTS.wallTime
  closed_logical : 0 ≤ rts.closedTS.logical
  closed : rts.resolvedTS.wallTime ≤ rts.closedTS.wallTime
  allowNeg : rts.intentQ.allowNegRefCount = !rts.init
  positive : rts.init → ∀ txn ∈ rts.intentQ.txns, 0 < txn.refCount
  txns : ∀ txn ∈ rts.intentQ.txns, 0 < txn.refCount →
    rts.resolvedTS.wallTime ≤ txn.timestamp.wallBelow

/-- It is as high as the intents allow. -/
def Tight (rts : ResolvedTimestamp) : Prop :=
  rts.init → rts.resolvedTS.wallTime = rts.closedTS.wallTime ∨
    ∃ txn ∈ rts.intentQ.txns, rts.resolvedTS.wallTime = txn.timestamp.wallBelow

lemma Below.all_txns (h : Below rts) (hinit : rts.init) :
    ∀ txn ∈ rts.intentQ.txns, rts.resolvedTS.wallTime ≤ txn.timestamp.wallBelow :=
  fun txn hmem => h.txns txn hmem (h.positive hinit txn hmem)

lemma newTS_spec (h : Below rts) (hinit : rts.init) :
    ∃ ts, rts.newTS = .ok ts ∧ ts.logical = 0 ∧ rts.resolvedTS.wallTime ≤ ts.wallTime ∧
      ts.wallTime ≤ rts.closedTS.wallTime ∧
      (∀ txn ∈ rts.intentQ.txns, ts.wallTime ≤ txn.timestamp.wallBelow) ∧
      (ts.wallTime = rts.closedTS.wallTime ∨
        ∃ txn ∈ rts.intentQ.txns, ts.wallTime = txn.timestamp.wallBelow) := by
  unfold newTS
  cases ho : rts.intentQ.oldest with
  | none =>
    refine ⟨_, rfl, rfl, h.closed, le_refl _, ?_, .inl rfl⟩
    intro txn hmem
    obtain ⟨o, heq⟩ := exists_oldest hmem
    rw [ho] at heq
    cases heq
  | some o =>
    have hmem := oldest_mem ho
    have hle := h.all_txns hinit o hmem
    have hlt : o.timestamp.lessEq rts.resolvedTS = false :=
      not_lessEq_iff.mpr ((lt_iff_le_wallBelow h.logical).mpr hle)
    obtain ⟨p, hp, hwall⟩ := exists_prev (h.nonneg.trans hle)
    have hmin := wallTime_backward rts.closedTS p
    rw [hwall] at hmin
    dsimp only
    rw [hlt, if_neg Bool.false_ne_true, hp]
    refine ⟨_, rfl, rfl, ?_, ?_, ?_, ?_⟩ <;> dsimp only <;> rw [hmin]
    · exact le_min h.closed hle
    · exact min_le_left _ _
    · intro txn ht
      exact (min_le_right _ _).trans (wallBelow_mono (oldest_le ho ht))
    rcases min_choice rts.closedTS.wallTime o.timestamp.wallBelow with h | h
    · exact .inl h
    · exact .inr ⟨o, hmem, h⟩

/-- The resolved timestamp moves forward to a new bound. -/
structure Recomputed (rts rts' : ResolvedTimestamp) (changed : Bool) : Prop where
  init : rts'.init = rts.init
  closedTS : rts'.closedTS = rts.closedTS
  intentQ : rts'.intentQ = rts.intentQ
  below : Below rts'
  tight : Tight rts'
  le : rts.resolvedTS.ord ≤ rts'.resolvedTS.ord
  unchanged : Tight rts → changed = false ∧ rts.resolvedTS.ord = rts'.resolvedTS.ord

lemma recompute_spec (h : Below rts) :
    ∃ rts' changed, rts.recompute = .ok (rts', changed) ∧ Recomputed rts rts' changed := by
  unfold recompute
  by_cases hinit : rts.init
  case neg =>
    rw [Bool.not_eq_true] at hinit
    rw [hinit]
    exact ⟨rts, false, rfl, rfl, rfl, rfl, h, fun hi => absurd (hinit ▸ hi) nofun,
      le_refl _, fun _ => ⟨rfl, rfl⟩⟩
  case pos =>
    have hnot : (!rts.init) = false := by rw [hinit]; rfl
    obtain ⟨ts, hts, hlog, hge, hclosed, htxns, hatt⟩ := newTS_spec h hinit
    have hcl : rts.closedTS.less rts.resolvedTS = false :=
      not_less_iff.mpr
        (ord_le_of_wallTime_le h.logical h.closed_logical h.closed)
    have hle : rts.resolvedTS.ord ≤ ts.ord :=
      ord_le_of_wallTime_le h.logical hlog.ge hge
    have hno : ts.less rts.resolvedTS = false := not_less_iff.mpr hle
    have hord : (rts.resolvedTS.forward ts).ord = ts.ord := by
      rw [ord_forward, max_eq_right hle]
    have hwall : (rts.resolvedTS.forward ts).wallTime = ts.wallTime :=
      congrArg (fun o => (ofLex o).1) hord
    have hlogical : (rts.resolvedTS.forward ts).logical = 0 :=
      (congrArg (fun o => (ofLex o).2) hord).trans hlog
    simp only [hcl, hts, hnot, Bool.false_eq_true, if_false, bind, Except.bind, hno,
      pure, Except.pure]
    refine ⟨_, _, rfl, rfl, rfl, rfl, ?_, ?_, ?_, ?_⟩
    · exact ⟨hlogical, hwall ▸ h.nonneg.trans hge, h.closed_logical, hwall ▸ hclosed,
        h.allowNeg, h.positive, fun txn ht _ => hwall ▸ htxns txn ht⟩
    · intro _
      rw [hwall]
      exact hatt
    · exact hord ▸ hle
    intro htight
    have hwle : ts.wallTime ≤ rts.resolvedTS.wallTime := by
      rcases htight hinit with heq | ⟨txn, hmem, heq⟩
      · exact heq ▸ hclosed
      · exact heq ▸ htxns txn hmem
    have hle' : ts.ord ≤ rts.resolvedTS.ord :=
      ord_le_of_wallTime_le hlog h.logical.ge hwle
    exact ⟨not_less_iff.mpr hle', hord ▸ hle.antisymm hle'⟩

lemma assertNoChange_spec (h : Below rts) (htight : Tight rts) :
    ∃ rts', rts.assertNoChange = .ok (rts', false) ∧ Recomputed rts rts' false := by
  obtain ⟨rts', changed, heq, hrec⟩ := recompute_spec h
  obtain ⟨rfl, hord⟩ := hrec.unchanged htight
  refine ⟨rts', ?_, hrec⟩
  have heqo : rts.resolvedTS.eqOrdering rts'.resolvedTS := eqOrdering_iff.mpr hord
  simp only [assertNoChange, heq, bind, Except.bind, heqo, Bool.not_true, Bool.or_self,
    Bool.false_eq_true, if_false]
  rfl

lemma finish_spec (h : Below rts) {advanced : Bool} (htight : advanced = false → Tight rts) :
    ∃ rts' changed, (if advanced then rts.recompute else rts.assertNoChange) =
      .ok (rts', changed) ∧ Recomputed rts rts' changed := by
  cases advanced with
  | true => exact recompute_spec h
  | false =>
    obtain ⟨rts', heq, hrec⟩ := assertNoChange_spec h (htight rfl)
    exact ⟨rts', false, heq, hrec⟩

end ResolvedTimestamp

/-! ## The invariant of runs -/

open ResolvedTimestamp UnresolvedIntentQueue

structure Inv (s : Run) : Prop where
  below : s.rts.Below
  tight : s.rts.Tight
  agrees : s.rts.intentQ.Agrees s.accounts

variable {s : Run} {op : LogicalOp}

/-- The resolved timestamp is below the queue, and the last such unless the oldest transaction
advanced. -/
structure Consumed (rts : ResolvedTimestamp) (accounts : TxnID → Account)
    (r : UnresolvedIntentQueue × Bool) : Prop where
  below : Below { rts with intentQ := r.1 }
  tight : r.2 = false → Tight { rts with intentQ := r.1 }
  agrees : Agrees r.1 accounts

lemma Inv.keep (h : Inv s) : Consumed s.rts s.accounts (s.rts.intentQ, false) :=
  ⟨h.below, fun _ => h.tight, h.agrees⟩

variable {ts : Timestamp}

lemma Inv.updateTxn (h : Inv s) {txnID : TxnID} {txnKey : Option Key}
    {txnMinTS : Timestamp} {delta : Int} (hge : -1 ≤ delta) (hle : delta ≤ 1)
    (hts : 0 < delta → s.rts.resolvedTS.wallTime ≤ ts.wallBelow) :
    Consumed s.rts (Pointwise.modify s.accounts txnID fun a => a.add s.rts.init ts delta)
      (s.rts.intentQ.updateTxn txnID txnKey txnMinTS ts delta) where
  below := by
    have hallow := h.below.allowNeg
    refine { h.below with
      allowNeg := updateTxn_allowNegRefCount.trans hallow, positive := ?_, txns := ?_ }
    · intro hinit txn hmem
      rcases mem_updateTxn hmem with hmem | ⟨hcount, -⟩
      · exact h.below.positive hinit txn hmem
      rw [hallow, hinit, not_or, not_and] at hcount
      have := hcount.2
      by_contra hneg
      exact this (lt_of_le_of_ne (not_lt.mp hneg) hcount.1) rfl
    intro txn hmem hpos
    rcases mem_updateTxn hmem with hmem | ⟨-, ⟨hcount, heq⟩ | ⟨t, ht, hcount, heq⟩⟩
    · exact h.below.txns txn hmem hpos
    · rw [heq]
      exact hts (hcount ▸ hpos)
    have hne := h.agrees.balance_ne t ht
    rw [← h.agrees.refCount t ht] at hne
    rw [heq]
    exact (h.below.txns t ht (by omega)).trans (wallBelow_le_forward _ _)
  tight hadv hinit := by
    rcases h.tight hinit with hclosed | hatt
    · exact .inl hclosed
    · exact .inr (attained_updateTxn h.agrees (h.below.all_txns hinit) hatt hadv)
  agrees := h.agrees.updateTxn h.below.allowNeg h.below.positive hge

lemma Inv.del (h : Inv s) (txnID : TxnID) :
    Consumed s.rts (Pointwise.modify s.accounts txnID fun _ => {}) (s.rts.intentQ.del txnID) := by
  unfold UnresolvedIntentQueue.del
  cases hget : s.rts.intentQ.get txnID with
  | none =>
    refine ⟨h.below, fun _ => h.tight, ?_⟩
    have hremove : s.rts.intentQ.remove txnID = s.rts.intentQ := by
      unfold UnresolvedIntentQueue.remove
      rw [filter_eq_self.mpr]
      intro txn hmem
      simpa using get_eq_none hget hmem
    rw [← hremove]
    exact h.agrees.remove rfl
  | some txn =>
    refine ⟨?_, ?_, h.agrees.remove rfl⟩
    · exact { h.below with
        positive := fun hinit txn ht => h.below.positive hinit txn (mem_remove.mp ht).1
        txns := fun txn ht => h.below.txns txn (mem_remove.mp ht).1 }
    intro hmin hinit
    rcases h.tight hinit with hclosed | ⟨t, ht, hwt⟩
    · exact .inl hclosed
    obtain ⟨u, hu, hne, hwu⟩ :=
      attained_of_not_isMin (h.below.all_txns hinit) ht hwt hmin
    exact .inr ⟨u, mem_remove.mpr ⟨hu, hne⟩, hwu⟩

lemma assertOpAboveRTS_eq_ok (h : s.rts.resolvedTS.ord < ts.ord) :
    s.rts.assertOpAboveRTS ts = .ok () :=
  if_neg (by rw [not_lessEq_iff.mpr h]; exact Bool.false_ne_true)

lemma Inv.consumeQueue (h : Inv s) (hop : op.Legal s.rts) :
    ∃ r, s.rts.consumeQueue op = .ok r ∧
      Consumed s.rts (accountsAfter s.rts.init s.accounts op) r := by
  cases op with
  | writeValue ts | deleteRange ts =>
    exact ⟨_, congrArg (Except.map _) (assertOpAboveRTS_eq_ok hop), h.keep⟩
  | writeIntent txnID txnKey txnMinTS ts =>
    refine ⟨_, congrArg (Except.map _) (assertOpAboveRTS_eq_ok hop), h.updateTxn ?_ ?_ ?_⟩
    · decide
    · decide
    · exact fun _ => (lt_iff_le_wallBelow h.below.logical).mp hop
  | updateIntent txnID ts
  | commitIntent txnID ts => exact ⟨_, rfl, h.updateTxn (by decide) (by decide) nofun⟩
  | abortIntent txnID => exact ⟨_, rfl, h.updateTxn (by decide) (by decide) nofun⟩
  | abortTxn txnID =>
    refine ⟨_, rfl, ?_⟩
    cases hinit : s.rts.init with
    | false => exact h.keep
    | true => exact h.del txnID

lemma Inv.of_recomputed {rts rts' : ResolvedTimestamp} {changed : Bool}
    {accounts : TxnID → Account} (h : Recomputed rts rts' changed)
    (hagrees : rts.intentQ.Agrees accounts) : Inv ⟨rts', accounts⟩ :=
  ⟨h.below, h.tight, h.intentQ ▸ hagrees⟩

/-- A legal action does not panic, keeps the invariant and moves the resolved timestamp
forward. -/
lemma Inv.perform (h : Inv s) {a : Action} (ha : Legal s a) :
    ∃ s', perform s a = .ok s' ∧ Inv s' ∧ s.rts.resolvedTS.ord ≤ s'.rts.resolvedTS.ord := by
  cases a with
  | init =>
    obtain ⟨hinit, hpos⟩ := ha
    have hnone : ¬ (s.rts.intentQ.txns.any fun txn => decide (txn.refCount ≤ 0)) := by
      intro hany
      obtain ⟨txn, hmem, hle⟩ := any_eq_true.mp hany
      exact absurd (hpos txn hmem) (not_lt.mpr (of_decide_eq_true hle))
    have hbelow : Below { s.rts with
        init := true, intentQ := { s.rts.intentQ with allowNegRefCount := false } } :=
      { h.below with allowNeg := rfl, positive := fun _ => hpos }
    obtain ⟨rts', changed, heq, hrec⟩ := recompute_spec hbelow
    refine ⟨⟨rts', s.accounts⟩, ?_, .of_recomputed hrec ?_, hrec.le⟩
    · simp only [Rangefeed.perform, initRts, disallowNegRefCount, if_neg hnone, bind, Except.bind,
        heq, Except.map]
    · exact { h.agrees with }
  | forwardClosedTS ts =>
    have hle : s.rts.closedTS.wallTime ≤ (s.rts.closedTS.forward ts).wallTime := by
      apply wallTime_le_of_ord_le
      rw [ord_forward]
      exact le_max_left _ _
    have hlogical : 0 ≤ (s.rts.closedTS.forward ts).logical := by
      unfold Timestamp.forward
      split_ifs
      · exact ha
      · exact h.below.closed_logical
      · exact h.below.closed_logical
    have hbelow : Below { s.rts with closedTS := s.rts.closedTS.forward ts } :=
      { h.below with closed_logical := hlogical, closed := h.below.closed.trans hle }
    have htight : s.rts.closedTS.less ts = false →
        Tight { s.rts with closedTS := s.rts.closedTS.forward ts } := by
      intro hless hinit
      have heq : (s.rts.closedTS.forward ts).wallTime = s.rts.closedTS.wallTime := by
        unfold Timestamp.forward
        rw [hless, if_neg Bool.false_ne_true]
        split_ifs <;> rfl
      rw [heq]
      exact h.tight hinit
    obtain ⟨rts', changed, heq, hrec⟩ := finish_spec hbelow htight
    refine ⟨⟨rts', s.accounts⟩, ?_, .of_recomputed hrec h.agrees, hrec.le⟩
    simp only [Rangefeed.perform, forwardClosedTS, heq, Except.map]
  | consumeLogicalOp op =>
    obtain ⟨⟨intentQ, advanced⟩, hqueue, hcons⟩ := h.consumeQueue ha
    obtain ⟨rts', changed, heq, hrec⟩ := finish_spec hcons.below hcons.tight
    refine ⟨⟨rts', accountsAfter s.rts.init s.accounts op⟩, ?_,
      .of_recomputed hrec hcons.agrees, hrec.le⟩
    simp only [Rangefeed.perform, consumeLogicalOp, hqueue, bind, Except.bind]
    rw [heq]
    rfl

lemma inv_init : Inv {} where
  below := ⟨rfl, le_refl _, le_refl _, le_refl _, rfl, nofun, nofun⟩
  tight := nofun
  agrees := ⟨nofun, nofun, nofun, fun _ h => absurd rfl h⟩

lemma inv_of_reachable (h : Reachable step Legal {} s) : Inv s := by
  apply h.invariant inv_init
  intro s a s' _ hs ha hstep
  obtain ⟨t, heq, ht, -⟩ := hs.perform ha
  rw [step, heq] at hstep
  cases hstep
  exact ht

/-- In every legal run no assertion fails, and the resolved timestamp never moves backward, has no
logical part and is not above the closed timestamp. Once initialized it is below every unresolved
intent. -/
theorem resolved_timestamp_safe (h : Reachable step Legal {} s) :
    s.rts.resolvedTS.ord ≤ s.rts.closedTS.ord ∧ s.rts.resolvedTS.logical = 0 ∧
    (s.rts.init = true → ∀ txnID, 0 < (s.accounts txnID).balance →
      s.rts.resolvedTS.ord < (s.accounts txnID).timestamp.ord) ∧
    ∀ a, Legal s a → ∃ s', perform s a = .ok s' ∧ s.rts.resolvedTS.ord ≤ s'.rts.resolvedTS.ord := by
  have hinv := inv_of_reachable h
  refine ⟨?_, hinv.below.logical, ?_, ?_⟩
  · exact ord_le_of_wallTime_le hinv.below.logical hinv.below.closed_logical
      hinv.below.closed
  · intro hinit txnID hpos
    obtain ⟨txn, hmem, rfl⟩ := hinv.agrees.tracked txnID hpos.ne'
    rw [← hinv.agrees.timestamp txn hmem, lt_iff_le_wallBelow hinv.below.logical]
    exact hinv.below.all_txns hinit txn hmem
  intro a ha
  obtain ⟨s', heq, -, hle⟩ := hinv.perform ha
  exact ⟨s', heq, hle⟩

/-- A transaction writes an intent before the initialization, and the closed timestamp passes it. -/
lemma reachable_oneIntent : ∃ s, Reachable step Legal {} s ∧ s.rts.init = true ∧
    s.rts.resolvedTS = ⟨4, 0, false⟩ ∧ s.rts.closedTS = ⟨9, 3, false⟩ ∧
    (s.accounts 1).balance = 1 := by
  have hwrite : Legal {} (.consumeLogicalOp (.writeIntent 1 [] {} ⟨5, 0, false⟩)) := by
    show ({} : Timestamp).ord < Timestamp.ord ⟨5, 0, false⟩
    rw [← less_iff]
    rfl
  have hempty : Reachable step Legal {} {} := .init
  have hwritten := hempty.next hwrite rfl
  have hinit := hwritten.next (a := Action.init) ⟨rfl, by decide⟩ rfl
  have hreach := hinit.next (a := Action.forwardClosedTS ⟨9, 3, false⟩)
    (show (0 : Int) ≤ 3 by decide) rfl
  exact ⟨_, hreach, rfl, rfl, rfl, by decide⟩

theorem resolved_timestamp_safe_once : ∃ s, Reachable step Legal {} s ∧
    s.rts.resolvedTS = ⟨4, 0, false⟩ ∧
    s.rts.resolvedTS.ord < (s.accounts 1).timestamp.ord := by
  obtain ⟨s, hreach, hinit, hresolved, -, hbalance⟩ := reachable_oneIntent
  exact ⟨s, hreach, hresolved,
    (resolved_timestamp_safe hreach).2.2.1 hinit 1 (by simp [hbalance])⟩

/-- The queue has exactly the transactions with unresolved intents, and the resolved timestamp is
the closed one or directly below one of them. -/
theorem resolved_timestamp_exact (h : Reachable step Legal {} s) :
    (∀ txnID, (∃ txn ∈ s.rts.intentQ.txns, txn.txnID = txnID) ↔ (s.accounts txnID).balance ≠ 0) ∧
    (s.rts.init = true → s.rts.resolvedTS.wallTime = s.rts.closedTS.wallTime ∨
      ∃ txnID, 0 < (s.accounts txnID).balance ∧
        s.rts.resolvedTS.wallTime = (s.accounts txnID).timestamp.wallBelow) := by
  obtain ⟨hbelow, htight, hagrees⟩ := inv_of_reachable h
  refine ⟨fun txnID => ⟨?_, hagrees.tracked txnID⟩, fun hinit => (htight hinit).imp_right ?_⟩
  · rintro ⟨txn, hmem, rfl⟩
    exact hagrees.balance_ne txn hmem
  · rintro ⟨txn, hmem, heq⟩
    refine ⟨txn.txnID, ?_, heq.trans (wallBelow_congr (hagrees.timestamp txn hmem))⟩
    rw [← hagrees.refCount txn hmem]
    exact hbelow.positive hinit txn hmem

theorem resolved_timestamp_exact_once : ∃ s, Reachable step Legal {} s ∧ s.rts.init = true ∧
    s.rts.closedTS = ⟨9, 3, false⟩ ∧ (∃ txn ∈ s.rts.intentQ.txns, txn.txnID = 1) ∧
    ∃ txnID, 0 < (s.accounts txnID).balance ∧
      s.rts.resolvedTS.wallTime = (s.accounts txnID).timestamp.wallBelow := by
  obtain ⟨s, hreach, hinit, hresolved, hclosed, hbalance⟩ := reachable_oneIntent
  have hexact := resolved_timestamp_exact hreach
  refine ⟨s, hreach, hinit, hclosed, (hexact.1 1).mpr (by simp [hbalance]), ?_⟩
  exact (hexact.2 hinit).resolve_left (by simp [hresolved, hclosed])

end MeshDB.Rangefeed
