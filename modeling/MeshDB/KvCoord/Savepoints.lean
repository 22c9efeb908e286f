import MeshDB.Kvpb.Api
import MeshDB.Lib.Reachability

/-!
# Savepoints and sequence numbers

The sequence numbers that a root transaction gives to its writes, and the savepoints of
its coordinator. A rollback makes the coordinator ignore the numbers from the savepoint
to the last write. The runs are those of one epoch. A sequence number is an `int32`, so the numbers
of an epoch increase up to its 2³¹-th write.
-/
namespace MeshDB.KvCoord.Savepoints

open List Option Roachpb Kvpb Transition

/-- The numbers of the last write and of the reads, both an `int32`. -/
structure TxnSeqNumAllocator where
  writeSeq : Int := 0
  readSeq : Int := 0
  steppingModeEnabled : Bool := false

namespace TxnSeqNumAllocator

/-- The requests that take a number: those that leave intents, and the `EndTxn`. -/
def numbered (req : Request) : Bool :=
  req.isIntentWrite || match req with
    | .endTxn _ => true
    | _ => false

def sendLocked (s : TxnSeqNumAllocator) : List Request → TxnSeqNumAllocator × List Request
  | [] => (s, [])
  | req :: reqs =>
    let s := if numbered req then { s with writeSeq := (s.writeSeq + 1).bmod (2 ^ 32) } else s
    let seq := if s.steppingModeEnabled && req.isReadOnly then s.readSeq else s.writeSeq
    let (s', reqs) := s.sendLocked reqs
    (s', req.setSequence seq :: reqs)

/-- Reads see the writes so far from now on. -/
def stepLocked (s : TxnSeqNumAllocator) : Option TxnSeqNumAllocator :=
  if !s.steppingModeEnabled then none
  else if s.writeSeq < s.readSeq then none
  else some { s with readSeq := s.writeSeq }

def configureSteppingLocked (s : TxnSeqNumAllocator) (enabled : Bool) : TxnSeqNumAllocator :=
  { s with
    steppingModeEnabled := enabled
    readSeq := if !s.steppingModeEnabled && enabled then s.writeSeq else s.readSeq }

end TxnSeqNumAllocator

/-- The states of a `TxnCoordSender`. -/
inductive TxnState where
  | txnPending
  | txnError
  | txnFinalized
deriving DecidableEq

/-- A savepoint is not active if it was taken before any activity. -/
structure Savepoint where
  active : Bool := false
  txnID : TxnID := 0
  epoch : Int := 0
  seqNum : Int := 0
deriving DecidableEq

def initialSavepoint : Savepoint := {}

inductive SavepointError where
  /-- "operation invalid for finalized txns" -/
  | notFinalized
  /-- "cannot create or release savepoint after an error has occurred" -/
  | operationInErrorTxn
  /-- "cannot rollback to savepoint after error" -/
  | rollbackError
  /-- "savepoint invalid after transaction restart" -/
  | invalidAfterTxnRestart
  /-- "invalid savepoint: got %d, expected 0-%d" -/
  | invalidSavepoint (got expected : Int)
deriving DecidableEq

/-- The coordinator with its allocator. -/
structure Coordinator where
  txn : Transaction
  active : Bool := false
  txnState : TxnState := .txnPending
  alloc : TxnSeqNumAllocator := {}

namespace Coordinator

/-- Notes the write sequence number. -/
def createSavepoint (tc : Coordinator) : Except SavepointError Savepoint :=
  if tc.txnState = .txnFinalized then .error .notFinalized
  else if tc.txnState ≠ .txnPending then .error .operationInErrorTxn
  else if !tc.active then .ok initialSavepoint
  else .ok {
    active := true
    txnID := tc.txn.id
    epoch := tc.txn.epoch
    seqNum := tc.alloc.writeSeq }

def checkSavepointLocked (tc : Coordinator) (s : Savepoint) : Except SavepointError Unit :=
  if !s.active then .ok ()
  else if s.txnID ≠ tc.txn.id then .error .invalidAfterTxnRestart
  else if s.epoch ≠ tc.txn.epoch then .error .invalidAfterTxnRestart
  else if s.seqNum < 0 ∨ tc.alloc.writeSeq < s.seqNum then
    .error (.invalidSavepoint s.seqNum tc.alloc.writeSeq)
  else .ok ()

/-- Ignores the numbers issued since. -/
def rollbackToSavepoint (tc : Coordinator) (sp : Savepoint) : Except SavepointError Coordinator :=
  if tc.txnState = .txnFinalized then .error .notFinalized
  else if tc.txnState = .txnError then .error .rollbackError
  else
    (tc.checkSavepointLocked sp).map fun _ =>
      { tc with
        active := sp.active
        txn := if sp.seqNum < tc.alloc.writeSeq then
          tc.txn.addIgnoredSeqNumRange ⟨sp.seqNum + 1, tc.alloc.writeSeq⟩ else tc.txn }

def releaseSavepoint (tc : Coordinator) (s : Savepoint) : Except SavepointError Unit :=
  if tc.txnState ≠ .txnPending then .error .operationInErrorTxn else tc.checkSavepointLocked s

end Coordinator

open Coordinator

/-- The new transaction, or an error, after which the transaction is usable if it is unambiguous. -/
inductive Reply where
  | response (txn : Transaction)
  | error (unambiguous : Bool) (txn : Option Transaction)

def Reply.txn : Reply → Option Transaction
  | .response txn => some txn
  | .error _ txn => txn

def endTxnCommit (reqs : List Request) : Option Bool :=
  reqs.findSome? fun
    | .endTxn et => some et.commit
    | _ => none

/-- What a reply does to the state. -/
def stateAfter (reqs : List Request) (reply : Reply) (state : TxnState) : TxnState :=
  let state := match reply with
    | .error false _ => .txnError
    | _ => state
  match endTxnCommit reqs, reply with
  | some true, .response _ => .txnFinalized
  | some false, _ => .txnFinalized
  | _, _ => state

/-- A rollback is sent in any state, unless the transaction is known to be committed. -/
def Coordinator.maybeRejectClientLocked (tc : Coordinator) (reqs : List Request) : Bool :=
  let rollback := match reqs with
    | [.endTxn et] => !et.commit
    | _ => false
  !(rollback && tc.txn.status ≠ .committed) && tc.txnState ≠ .txnPending

/-- `Send`, with the requests that are sent. A reply for another transaction is fatal. -/
def Coordinator.send (tc : Coordinator) (reqs : List Request) (reply : Reply) :
    Option (Coordinator × List Request) :=
  let tc := { tc with active := true }
  if tc.maybeRejectClientLocked reqs then some (tc, [])
  else
    let (alloc, sent) := tc.alloc.sendLocked reqs
    let txn := match reply.txn with
      | none => some tc.txn
      | some o => tc.txn.update o
    txn.map fun txn =>
      ({ tc with
        txn := txn
        alloc := alloc
        txnState := stateAfter reqs reply tc.txnState }, sent)

/-! ## Runs -/

inductive Event where
  | wrote (seq : Int)
  | created (id : ℕ)
  | rolledBack (id : ℕ)
deriving DecidableEq

/-- The coordinator with the savepoints that can be used, the last one first, and what
happened so far. -/
structure Run where
  tc : Coordinator
  stack : List (ℕ × Savepoint) := []
  nextID : ℕ := 0
  history : List Event := []

/-- The start of an epoch. Earlier savepoints before all activity can still be used. -/
def start (txn : Transaction) (active : Bool) (alloc : TxnSeqNumAllocator) (savepoints : ℕ) :
    Run where
  tc := {
    txn := { txn with ignoredSeqNums := [] }
    active := active
    alloc := { alloc with writeSeq := 0, readSeq := 0 } }
  stack := ((List.range savepoints).map fun id => (id, initialSavepoint)).reverse
  nextID := savepoints
  history := (List.range savepoints).map Event.created

inductive Action where
  | send (reqs : List Request) (reply : Reply)
  | createSavepoint
  | releaseSavepoint (id : ℕ)
  | rollbackToSavepoint (id : ℕ)
  | configureStepping (enabled : Bool)
  | step

def writes (sent : List Request) : List Event :=
  (sent.filter TxnSeqNumAllocator.numbered).map fun req => .wrote req.header.sequence

/-- A rollback keeps its own savepoint. -/
def unwind (id : ℕ) (stack : List (ℕ × Savepoint)) : List (ℕ × Savepoint) :=
  stack.dropWhile fun entry => entry.1 ≠ id

/-- An operation that fails, or whose savepoint is not on the stack, leaves the run as it is. -/
def step (s : Run) : Action → Option Run
  | .send reqs reply =>
    (s.tc.send reqs reply).map fun (tc, sent) =>
      { s with tc := tc, history := s.history ++ writes sent }
  | .createSavepoint =>
    match s.tc.createSavepoint with
    | .error _ => some s
    | .ok sp => some { s with
        stack := (s.nextID, sp) :: s.stack
        nextID := s.nextID + 1
        history := s.history ++ [.created s.nextID] }
  | .releaseSavepoint id =>
    match unwind id s.stack with
    | [] => none
    | (_, sp) :: below =>
      match s.tc.releaseSavepoint sp with
      | .error _ => some s
      | .ok _ => some { s with stack := below }
  | .rollbackToSavepoint id =>
    match unwind id s.stack with
    | [] => none
    | (id, sp) :: below =>
      match s.tc.rollbackToSavepoint sp with
      | .error _ => some s
      | .ok tc => some { s with
          tc := tc
          stack := (id, sp) :: below
          history := s.history ++ [.rolledBack id] }
  | .configureStepping enabled =>
    some { s with tc := { s.tc with alloc := s.tc.alloc.configureSteppingLocked enabled } }
  | .step => s.tc.alloc.stepLocked.map fun alloc => { s with tc := { s.tc with alloc := alloc } }

/-- A reply is for the transaction in its epoch, with the ignored numbers of the request. -/
def Legal (s : Run) : Action → Prop
  | .send _ reply => ∀ o ∈ reply.txn, o.id = s.tc.txn.id ∧ o.epoch = s.tc.txn.epoch ∧
      o.ignoredSeqNums = s.tc.txn.ignoredSeqNums
  | _ => True

/-- The write was issued after a savepoint to which the transaction later rolled back. -/
def Undone (history : List Event) (n : Int) : Prop :=
  ∃ id, [.created id, .wrote n, .rolledBack id].Sublist history

def issued (history : List Event) : List Int :=
  history.filterMap fun
    | .wrote n => some n
    | _ => none

/-! ## Histories -/

lemma sublist_concat_iff {α : Type*} {l h : List α} {x e : α} :
    (l ++ [x]).Sublist (h ++ [e]) ↔ (l ++ [x]).Sublist h ∨ (x = e ∧ l.Sublist h) := by
  rw [← reverse_sublist, ← @reverse_sublist _ (l ++ [x]) h, ← @reverse_sublist _ l h]
  simp only [reverse_append, reverse_cons, reverse_nil, nil_append, singleton_append]
  exact cons_sublist_cons'

/-- The write came after the savepoint. -/
def After (history : List Event) (id : ℕ) (n : Int) : Prop :=
  [.created id, .wrote n].Sublist history

variable {history : List Event} {id : ℕ} {n : Int} {sp : Savepoint} {e : Event}

lemma after_append :
    After (history ++ [e]) id n ↔ After history id n ∨ (.wrote n = e ∧ .created id ∈ history) := by
  have h := @sublist_concat_iff _ [.created id] history (.wrote n) e
  rw [singleton_sublist] at h
  exact h

lemma undone_append :
    Undone (history ++ [e]) n ↔
      Undone history n ∨ ∃ id, .rolledBack id = e ∧ After history id n := by
  have h := fun id => @sublist_concat_iff _ [.created id, .wrote n] history (.rolledBack id) e
  constructor
  · rintro ⟨id, hsub⟩
    rcases (h id).mp hsub with hold | hnew
    · exact .inl ⟨id, hold⟩
    · exact .inr ⟨id, hnew⟩
  rintro (⟨id, hold⟩ | ⟨id, hnew⟩)
  · exact ⟨id, (h id).mpr (.inl hold)⟩
  · exact ⟨id, (h id).mpr (.inr hnew)⟩

lemma After.created_mem (h : After history id n) : .created id ∈ history := h.subset (by simp)

lemma After.wrote_mem (h : After history id n) : .wrote n ∈ history := h.subset (by simp)

lemma Undone.wrote_mem (h : Undone history n) : .wrote n ∈ history := by
  obtain ⟨id, hsub⟩ := h
  exact hsub.subset (by simp)

/-! ## The invariant -/

/-- The writes above its number were issued after it, except those that were ignored already. -/
structure SavepointOk (s : Run) (id : ℕ) (sp : Savepoint) : Prop where
  created : .created id ∈ s.history
  initial : sp.active = false → sp.seqNum = 0
  valid : s.tc.checkSavepointLocked sp = .ok ()
  nonneg : 0 ≤ sp.seqNum
  le : sp.seqNum ≤ s.tc.alloc.writeSeq
  after : ∀ n, After s.history id n → sp.seqNum < n
  above : ∀ n, .wrote n ∈ s.history → sp.seqNum < n →
    After s.history id n ∨ Ignores s.tc.txn.ignoredSeqNums n
  apart : ∀ r ∈ s.tc.txn.ignoredSeqNums, r.stop ≤ sp.seqNum ∨ sp.seqNum < r.start

/-- What holds in a run before the numbers of the epoch wrap around. -/
structure Inv (s : Run) : Prop where
  fresh : ∀ id, .created id ∈ s.history → id < s.nextID
  nonneg : 0 ≤ s.tc.alloc.writeSeq
  count : s.tc.alloc.writeSeq = (issued s.history).length
  wrote : ∀ n, .wrote n ∈ s.history ↔ 1 ≤ n ∧ n ≤ s.tc.alloc.writeSeq
  increasing : (issued s.history).Pairwise (· < ·)
  ranges : SortedRanges s.tc.txn.ignoredSeqNums
  bounds : ∀ r ∈ s.tc.txn.ignoredSeqNums, 1 ≤ r.start ∧ r.stop ≤ s.tc.alloc.writeSeq
  stack : ∀ entry ∈ s.stack, SavepointOk s entry.1 entry.2
  order : s.stack.Pairwise fun a b =>
    (a.2.active = false → b.2.active = false) ∧ b.2.seqNum ≤ a.2.seqNum
  inactive : s.tc.active = false → (∀ entry ∈ s.stack, entry.2.active = false) ∧
    ∀ n, .wrote n ∈ s.history → Ignores s.tc.txn.ignoredSeqNums n
  undone : ∀ n, Ignores s.tc.txn.ignoredSeqNums n ↔ Undone s.history n

variable {s s' : Run} {tc : Coordinator}

lemma Inv.congr (h : Inv s) (hid : tc.txn.id = s.tc.txn.id)
    (hepoch : tc.txn.epoch = s.tc.txn.epoch)
    (hignored : tc.txn.ignoredSeqNums = s.tc.txn.ignoredSeqNums)
    (hseq : tc.alloc.writeSeq = s.tc.alloc.writeSeq)
    (hactive : tc.active = false → s.tc.active = false) : Inv { s with tc := tc } where
  fresh := h.fresh
  nonneg := hseq ▸ h.nonneg
  count := hseq ▸ h.count
  wrote := hseq ▸ h.wrote
  increasing := h.increasing
  ranges := hignored ▸ h.ranges
  bounds := by
    rw [hignored, hseq]
    exact h.bounds
  stack entry hentry := by
    have hsp := h.stack entry hentry
    exact { hsp with
      valid := by
        rw [← hsp.valid, checkSavepointLocked, checkSavepointLocked, hid,
          hepoch, hseq]
      le := hseq ▸ hsp.le
      above := hignored ▸ hsp.above
      apart := hignored ▸ hsp.apart }
  order := h.order
  inactive hfalse := hignored ▸ h.inactive (hactive hfalse)
  undone := hignored ▸ h.undone

lemma issued_append (history : List Event) (n : Int) :
    issued (history ++ [.wrote n]) = issued history ++ [n] := by
  simp [issued]

lemma mem_issued : n ∈ issued history ↔ .wrote n ∈ history := by
  unfold issued
  rw [mem_filterMap]
  constructor
  · rintro ⟨e, he, heq⟩
    cases e with
    | wrote m =>
      cases heq
      exact he
    | created id => cases heq
    | rolledBack id => cases heq
  · intro hn
    exact ⟨_, hn, rfl⟩

lemma SavepointOk.valid_of_le (h : SavepointOk s id sp)
    (hid : s'.tc.txn.id = s.tc.txn.id) (hepoch : s'.tc.txn.epoch = s.tc.txn.epoch)
    (hle : s.tc.alloc.writeSeq ≤ s'.tc.alloc.writeSeq) :
    s'.tc.checkSavepointLocked sp = .ok () := by
  have hvalid := h.valid
  unfold checkSavepointLocked at hvalid ⊢
  split_ifs at hvalid with hactive htxn hep
  · rw [if_pos hactive]
  · rw [if_neg hactive, hid, if_neg htxn, hepoch, if_neg hep, if_neg (by omega)]

lemma Inv.write (h : Inv s) (hactive : s.tc.active) :
    Inv { s with
      tc := { s.tc with alloc := { s.tc.alloc with writeSeq := s.tc.alloc.writeSeq + 1 } }
      history := s.history ++ [.wrote (s.tc.alloc.writeSeq + 1)] } := by
  have hnonneg := h.nonneg
  have hwrote : ∀ n, Event.wrote n ∈ s.history ++ [.wrote (s.tc.alloc.writeSeq + 1)] ↔
      .wrote n ∈ s.history ∨ n = s.tc.alloc.writeSeq + 1 := by
    intro n
    rw [mem_append, mem_singleton, Event.wrote.injEq]
  refine { h with
    fresh := ?_, nonneg := ?_, count := ?_, wrote := ?_, increasing := ?_, bounds := ?_, stack := ?_
    inactive := ?_, undone := ?_ }
  · intro id hcreated
    exact h.fresh id (by simpa using hcreated)
  · show 0 ≤ s.tc.alloc.writeSeq + 1
    omega
  · rw [issued_append, length_append, length_singleton, Nat.cast_succ, ← h.count]
  · intro n
    rw [hwrote, h.wrote]
    show _ ↔ 1 ≤ n ∧ n ≤ s.tc.alloc.writeSeq + 1
    omega
  · rw [issued_append, pairwise_append]
    refine ⟨h.increasing, pairwise_singleton _ _, fun a ha b hb => ?_⟩
    rw [mem_singleton.mp hb]
    have := (h.wrote a).mp (mem_issued.mp ha)
    omega
  · intro r hr
    exact (h.bounds r hr).imp_right Int.le_add_one
  · intro entry hentry
    have hsp := h.stack entry hentry
    have hle := hsp.le
    refine { hsp with
      created := mem_append_left _ hsp.created
      valid := hsp.valid_of_le rfl rfl (Int.le_add_one le_rfl)
      le := Int.le_add_one hle
      after := fun n hafter => ?_
      above := fun n hn hlt => ?_ }
    · rcases after_append.mp hafter with hold | ⟨hnew, -⟩
      · exact hsp.after n hold
      cases hnew
      omega
    · rw [after_append]
      rcases (hwrote n).mp hn with hold | rfl
      · exact (hsp.above n hold hlt).imp_left .inl
      · exact .inl (.inr ⟨rfl, hsp.created⟩)
  · intro hfalse
    exact absurd (hactive.symm.trans hfalse) nofun
  · intro n
    rw [h.undone, undone_append]
    exact ⟨.inl, fun hnew => hnew.resolve_right fun ⟨_, heq, _⟩ => by cases heq⟩

lemma numbered_setSequence (req : Request) (seq : Int) :
    TxnSeqNumAllocator.numbered (req.setSequence seq) = TxnSeqNumAllocator.numbered req := by
  cases req <;> rfl

variable {req : Request}

lemma not_isReadOnly_of_numbered
    (h : TxnSeqNumAllocator.numbered req) : req.isReadOnly = false := by
  cases req with
  | op method header => cases method <;> first | rfl | cases h
  | endTxn et => rfl
  | queryIntent qi => cases h

lemma sequence_setSequence (h : TxnSeqNumAllocator.numbered req)
    (seq : Int) : (req.setSequence seq).header.sequence = seq := by
  cases req with
  | op method header => rfl
  | endTxn et => rfl
  | queryIntent qi => cases h

lemma writes_sendLocked_of_numbered (alloc : TxnSeqNumAllocator) (reqs : List Request)
    (h : TxnSeqNumAllocator.numbered req) :
    writes (alloc.sendLocked (req :: reqs)).2 = .wrote ((alloc.writeSeq + 1).bmod (2 ^ 32)) ::
      writes ({ alloc with
        writeSeq := (alloc.writeSeq + 1).bmod (2 ^ 32) }.sendLocked reqs).2 := by
  rw [TxnSeqNumAllocator.sendLocked]
  dsimp only
  rw [if_pos h, not_isReadOnly_of_numbered h, Bool.and_false, if_neg Bool.false_ne_true, writes,
    filter_cons_of_pos (by rwa [numbered_setSequence]), map_cons, sequence_setSequence h]
  rfl

lemma writes_sendLocked_of_not (alloc : TxnSeqNumAllocator) (reqs : List Request)
    (h : ¬ TxnSeqNumAllocator.numbered req) :
    writes (alloc.sendLocked (req :: reqs)).2 = writes (alloc.sendLocked reqs).2 := by
  rw [TxnSeqNumAllocator.sendLocked]
  dsimp only
  rw [if_neg h, writes, filter_cons_of_neg (by rwa [numbered_setSequence])]
  rfl

lemma length_issued_append (history history' : List Event) :
    (issued (history ++ history')).length = (issued history).length + (issued history').length := by
  rw [issued, filterMap_append, length_append]
  rfl

lemma Inv.sendLocked (h : Inv s) (hactive : s.tc.active) (reqs : List Request)
    (hbound : (issued (s.history ++ writes (s.tc.alloc.sendLocked reqs).2)).length < 2 ^ 31) :
    Inv { s with
      tc := { s.tc with alloc := (s.tc.alloc.sendLocked reqs).1 }
      history := s.history ++ writes (s.tc.alloc.sendLocked reqs).2 } := by
  induction reqs generalizing s with
  | nil =>
    rw [show writes _ = [] from rfl, append_nil]
    exact h
  | cons req reqs ih =>
    by_cases hnum : TxnSeqNumAllocator.numbered req
    · rw [writes_sendLocked_of_numbered _ _ hnum] at hbound ⊢
      rw [append_cons s.history] at hbound ⊢
      have hseq : (s.tc.alloc.writeSeq + 1).bmod (2 ^ 32) = s.tc.alloc.writeSeq + 1 := by
        rw [length_issued_append, issued_append, length_append, length_singleton] at hbound
        have hcount := h.count
        rw [Int.bmod_eq_of_le] <;> omega
      rw [TxnSeqNumAllocator.sendLocked, if_pos hnum]
      rw [hseq] at hbound ⊢
      exact ih (h.write hactive) hactive hbound
    rw [writes_sendLocked_of_not _ _ hnum] at hbound ⊢
    rw [TxnSeqNumAllocator.sendLocked, if_neg hnum]
    exact ih h hactive hbound

lemma update_ignoredSeqNums {t o u : Transaction} (hid : o.id = t.id)
    (hepoch : o.epoch = t.epoch) (hignored : o.ignoredSeqNums = t.ignoredSeqNums)
    (h : t.update o = some u) :
    u.id = t.id ∧ u.epoch = t.epoch ∧ u.ignoredSeqNums = t.ignoredSeqNums := by
  rw [Transaction.update, if_neg (not_not.mpr hid.symm)] at h
  cases h
  simp [Transaction.updateEpochState, hepoch, hignored]

lemma Inv.send (h : Inv s) {reqs : List Request} {reply : Reply}
    (hlegal : Legal s (.send reqs reply)) {sent : List Request}
    (hsend : s.tc.send reqs reply = some (tc, sent))
    (hbound : (issued (s.history ++ writes sent)).length < 2 ^ 31) :
    Inv { s with tc := tc, history := s.history ++ writes sent } := by
  have hactive : Inv { s with tc := { s.tc with active := true } } :=
    h.congr rfl rfl rfl rfl nofun
  unfold Coordinator.send at hsend
  dsimp only at hsend
  split_ifs at hsend with hreject
  · cases hsend
    rw [show writes _ = [] from rfl, append_nil]
    exact hactive
  obtain ⟨txn, htxn, hsend⟩ := map_eq_some_iff.mp hsend
  cases hsend
  have hsame : txn.id = s.tc.txn.id ∧ txn.epoch = s.tc.txn.epoch ∧
      txn.ignoredSeqNums = s.tc.txn.ignoredSeqNums := by
    cases ho : reply.txn with
    | none =>
      rw [ho] at htxn
      cases htxn
      exact ⟨rfl, rfl, rfl⟩
    | some o =>
      rw [ho] at htxn
      obtain ⟨hid, hepoch, hignored⟩ := hlegal o ho
      exact update_ignoredSeqNums hid hepoch hignored htxn
  exact (hactive.sendLocked rfl reqs hbound).congr hsame.1 hsame.2.1 hsame.2.2 rfl nofun

/-! ## Savepoints -/

section
variable (he : ∀ n, e ≠ .wrote n)
include he

lemma wrote_append : .wrote n ∈ history ++ [e] ↔ .wrote n ∈ history := by
  simp [(he n).symm]

lemma after_append_of_ne : After (history ++ [e]) id n ↔ After history id n := by
  rw [after_append]
  exact ⟨fun hn => hn.resolve_right fun heq => he n heq.1.symm, .inl⟩

lemma issued_append_of_ne : issued (history ++ [e]) = issued history := by
  cases e with
  | wrote n => exact absurd rfl (he n)
  | created id => simp [issued]
  | rolledBack id => simp [issued]

lemma SavepointOk.append (h : SavepointOk s id sp) :
    SavepointOk { s with history := s.history ++ [e] } id sp :=
  { h with
    created := mem_append_left _ h.created
    after := fun n hn => h.after n ((after_append_of_ne he).mp hn)
    above := fun n hn hlt =>
      (h.above n ((wrote_append he).mp hn) hlt).imp_left (after_append_of_ne he).mpr }

end

/-- A savepoint is taken before any activity, or at the last write. -/
lemma createSavepoint_kinds (h : tc.createSavepoint = .ok sp) :
    (sp.active = false ∧ sp.seqNum = 0 ∧ tc.active = false) ∨
      (sp.active ∧ sp.txnID = tc.txn.id ∧ sp.epoch = tc.txn.epoch ∧
        sp.seqNum = tc.alloc.writeSeq ∧ tc.active) := by
  unfold Coordinator.createSavepoint at h
  split_ifs at h with hfin hpend hact
  · cases h
    exact .inl ⟨rfl, rfl, by simpa using hact⟩
  cases h
  exact .inr ⟨rfl, rfl, rfl, rfl, by simpa using hact⟩

section
variable (h : Inv s) (hcreate : s.tc.createSavepoint = .ok sp)
include h hcreate

lemma Inv.savepoint_valid : s.tc.checkSavepointLocked sp = .ok () := by
  unfold checkSavepointLocked
  rcases createSavepoint_kinds hcreate with ⟨hfalse, -⟩ | ⟨htrue, hid, hepoch, hseq, -⟩
  · rw [hfalse]
    rfl
  rw [htrue, hid, hepoch, hseq]
  simp [h.nonneg]

lemma Inv.savepoint_above (hn : .wrote n ∈ s.history) (hlt : sp.seqNum < n) :
    Ignores s.tc.txn.ignoredSeqNums n := by
  have hbound := (h.wrote n).mp hn
  rcases createSavepoint_kinds hcreate with ⟨-, -, hinactive⟩ | ⟨-, -, -, hseq, -⟩
  · exact (h.inactive hinactive).2 n hn
  · omega

lemma Inv.savepointOk : SavepointOk { s with history := s.history ++ [.created s.nextID] }
    s.nextID sp := by
  have he : ∀ n, Event.created s.nextID ≠ .wrote n := nofun
  have hnonneg := h.nonneg
  have hkinds := createSavepoint_kinds hcreate
  have hrange : 0 ≤ sp.seqNum ∧ sp.seqNum ≤ s.tc.alloc.writeSeq := by
    rcases hkinds with ⟨-, hzero, -⟩ | ⟨-, -, -, hseq, -⟩ <;> omega
  refine {
    created := by simp
    initial := fun hfalse => ?_
    valid := h.savepoint_valid hcreate
    nonneg := hrange.1
    le := hrange.2
    after := fun n hn => ?_
    above := fun n hn hlt => .inr (h.savepoint_above hcreate ((wrote_append he).mp hn) hlt)
    apart := fun r hr => ?_ }
  · rcases hkinds with ⟨-, hzero, -⟩ | ⟨htrue, -⟩
    · exact hzero
    · exact absurd (htrue.symm.trans hfalse) nofun
  · have hcreated := ((after_append_of_ne he).mp hn).created_mem
    exact absurd (h.fresh _ hcreated) (lt_irrefl _)
  · have hbound := h.bounds r hr
    rcases hkinds with ⟨-, hzero, -⟩ | ⟨-, -, -, hseq, -⟩
    · exact .inr (by omega)
    · exact .inl (by omega)

lemma Inv.savepoint_order (entry : ℕ × Savepoint) (hentry : entry ∈ s.stack) :
    (sp.active = false → entry.2.active = false) ∧ entry.2.seqNum ≤ sp.seqNum := by
  have hok := h.stack entry hentry
  have hle := hok.le
  rcases createSavepoint_kinds hcreate with ⟨-, hzero, hinactive⟩ | ⟨htrue, -, -, hseq, -⟩
  · have hentry' := (h.inactive hinactive).1 entry hentry
    have hinitial := hok.initial hentry'
    exact ⟨fun _ => hentry', by omega⟩
  · exact ⟨fun hfalse => absurd (htrue.symm.trans hfalse) nofun, by omega⟩

lemma Inv.createSavepoint :
    Inv { s with
      stack := (s.nextID, sp) :: s.stack
      nextID := s.nextID + 1
      history := s.history ++ [.created s.nextID] } := by
  have he : ∀ n, Event.created s.nextID ≠ .wrote n := nofun
  refine {
    fresh := fun id hid => ?_
    nonneg := h.nonneg
    count := by rw [issued_append_of_ne he, ← h.count]
    wrote := fun n => (wrote_append he).trans (h.wrote n)
    increasing := by rw [issued_append_of_ne he]; exact h.increasing
    ranges := h.ranges
    bounds := h.bounds
    stack := fun entry hentry => ?_
    order := pairwise_cons.mpr ⟨h.savepoint_order hcreate, h.order⟩
    inactive := fun hfalse => ?_
    undone := fun n => ?_ }
  · rcases mem_append.mp hid with hold | hnew
    · exact Nat.lt_succ_of_lt (h.fresh id hold)
    cases mem_singleton.mp hnew
    exact Nat.lt_succ_self _
  · rcases mem_cons.mp hentry with rfl | hold
    · exact { h.savepointOk hcreate with }
    · exact { (h.stack entry hold).append he with }
  · obtain ⟨hall, hignored⟩ := h.inactive hfalse
    refine ⟨fun entry hentry => ?_, fun n hn => hignored n ((wrote_append he).mp hn)⟩
    rcases mem_cons.mp hentry with rfl | hold
    · rcases createSavepoint_kinds hcreate with ⟨hfalse', -⟩ | ⟨-, -, -, -, htrue⟩
      · exact hfalse'
      · exact absurd (htrue.symm.trans hfalse) nofun
    · exact hall entry hold
  · rw [h.undone, undone_append]
    exact ⟨.inl, fun hn => hn.resolve_right fun ⟨_, heq, _⟩ => by cases heq⟩

end

lemma unwind_sublist (id : ℕ) (stack : List (ℕ × Savepoint)) : (unwind id stack).Sublist stack :=
  dropWhile_sublist _

lemma Inv.drop (h : Inv s) {stack : List (ℕ × Savepoint)} (hsub : stack.Sublist s.stack) :
    Inv { s with stack := stack } where
  fresh := h.fresh
  nonneg := h.nonneg
  count := h.count
  wrote := h.wrote
  increasing := h.increasing
  ranges := h.ranges
  bounds := h.bounds
  stack entry hentry := { h.stack entry (hsub.subset hentry) with }
  order := h.order.sublist hsub
  inactive hfalse :=
    ⟨fun entry hentry => (h.inactive hfalse).1 entry (hsub.subset hentry), (h.inactive hfalse).2⟩
  undone := h.undone

/-- The transaction with the numbers above that of a savepoint ignored. -/
def ignoreAbove (tc : Coordinator) (sp : Savepoint) : Transaction :=
  if sp.seqNum < tc.alloc.writeSeq then
    tc.txn.addIgnoredSeqNumRange ⟨sp.seqNum + 1, tc.alloc.writeSeq⟩
  else tc.txn

lemma rollbackToSavepoint_fields {tc' : Coordinator} (h : tc.rollbackToSavepoint sp = .ok tc') :
    tc' = { tc with active := sp.active, txn := ignoreAbove tc sp } := by
  unfold Coordinator.rollbackToSavepoint at h
  split at h
  · cases h
  split at h
  · cases h
  cases hvalid : tc.checkSavepointLocked sp with
  | error err =>
    rw [hvalid] at h
    cases h
  | ok _ =>
    rw [hvalid] at h
    exact (Except.ok.inj h).symm

lemma ignoreAbove_same (tc : Coordinator) (sp : Savepoint) :
    (ignoreAbove tc sp).id = tc.txn.id ∧ (ignoreAbove tc sp).epoch = tc.txn.epoch := by
  unfold ignoreAbove
  split_ifs <;> exact ⟨rfl, rfl⟩

section
variable (h : Inv s)
include h

lemma Inv.mem_ignoreAbove {r : IgnoredSeqNumRange}
    (hr : r ∈ (ignoreAbove s.tc sp).ignoredSeqNums) :
    r ∈ s.tc.txn.ignoredSeqNums ∨ r = ⟨sp.seqNum + 1, s.tc.alloc.writeSeq⟩ := by
  unfold ignoreAbove at hr
  split_ifs at hr
  · rw [ignoredSeqNums_add h.ranges] at hr
    rcases mem_append.mp hr with hr | hr
    · exact .inl (mem_filter.mp hr).1
    · exact .inr (mem_singleton.mp hr)
  · exact .inl hr

lemma Inv.sortedRanges_ignoreAbove : SortedRanges (ignoreAbove s.tc sp).ignoredSeqNums := by
  unfold ignoreAbove
  split_ifs with hlt
  · exact sortedRanges_add h.ranges (show sp.seqNum + 1 ≤ s.tc.alloc.writeSeq by omega)
  · exact h.ranges

lemma Inv.ignores_ignoreAbove (hok : SavepointOk s id sp) :
    Ignores (ignoreAbove s.tc sp).ignoredSeqNums n ↔ Ignores s.tc.txn.ignoredSeqNums n ∨
      (sp.seqNum + 1 ≤ n ∧ n ≤ s.tc.alloc.writeSeq) := by
  unfold ignoreAbove
  split_ifs with hlt
  · apply ignores_add h.ranges
    · intro r hr
      have := hok.apart r hr
      show r.stop < sp.seqNum + 1 ∨ sp.seqNum + 1 ≤ r.start
      omega
    · exact fun r hr => (h.bounds r hr).2
  · exact ⟨.inl, fun hn => hn.resolve_right (by omega)⟩

/-- The numbers that a rollback adds to the ignored ones are those of the writes it undoes. -/
lemma Inv.undone_rolledBack (hok : SavepointOk s id sp) :
    Ignores (ignoreAbove s.tc sp).ignoredSeqNums n ↔
      Undone (s.history ++ [.rolledBack id]) n := by
  have hnonneg := hok.nonneg
  rw [h.ignores_ignoreAbove hok, h.undone, undone_append]
  constructor
  · rintro (hold | hnew)
    · exact .inl hold
    have hn : .wrote n ∈ s.history := (h.wrote n).mpr (by omega)
    rcases hok.above n hn (by omega) with hafter | hignored
    · exact .inr ⟨id, rfl, hafter⟩
    · exact .inl ((h.undone n).mp hignored)
  rintro (hold | ⟨id', heq, hafter⟩)
  · exact .inl hold
  cases heq
  have h1 := hok.after n hafter
  have h2 := (h.wrote n).mp hafter.wrote_mem
  exact .inr (by omega)

lemma Inv.savepointOk_rolledBack (hok : SavepointOk s id sp) {entry : ℕ × Savepoint}
    (hentry : SavepointOk s entry.1 entry.2) (hle : entry.2.seqNum ≤ sp.seqNum) {active : Bool} :
    SavepointOk { s with
      tc := { s.tc with active := active, txn := ignoreAbove s.tc sp }
      history := s.history ++ [.rolledBack id] } entry.1 entry.2 := by
  have hsame := ignoreAbove_same s.tc sp
  have hentry' : SavepointOk { s with history := s.history ++ [.rolledBack id] } entry.1 entry.2 :=
    hentry.append nofun
  refine { hentry' with
    valid := hentry'.valid_of_le hsame.1 hsame.2 le_rfl
    above := fun n hn hlt => (hentry'.above n hn hlt).imp_right fun hold =>
      (h.ignores_ignoreAbove hok).mpr (.inl hold)
    apart := fun r hr => ?_ }
  rcases h.mem_ignoreAbove hr with hold | rfl
  · exact hentry'.apart r hold
  · exact .inr (Int.lt_add_one_of_le hle)

variable {below : List (ℕ × Savepoint)} (hstack : s.stack = (id, sp) :: below)
include hstack

lemma Inv.stack_top (entry : ℕ × Savepoint) (hentry : entry ∈ s.stack) :
    (sp.active = false → entry.2.active = false) ∧ entry.2.seqNum ≤ sp.seqNum := by
  have horder := h.order
  rw [hstack] at horder hentry
  rcases mem_cons.mp hentry with rfl | hentry
  · exact ⟨fun hfalse => hfalse, le_rfl⟩
  · exact (pairwise_cons.mp horder).1 entry hentry

lemma Inv.rollbackToSavepoint (hroll : s.tc.rollbackToSavepoint sp = .ok tc) :
    Inv { s with tc := tc, history := s.history ++ [.rolledBack id] } := by
  have hok : SavepointOk s id sp := h.stack (id, sp) (by simp [hstack])
  have hnonneg := hok.nonneg
  have he : ∀ n, Event.rolledBack id ≠ .wrote n := nofun
  rw [rollbackToSavepoint_fields hroll]
  refine {
    fresh := fun id' hid => h.fresh id' (by simpa using hid)
    nonneg := h.nonneg
    count := by rw [issued_append_of_ne he, ← h.count]
    wrote := fun n => (wrote_append he).trans (h.wrote n)
    increasing := by rw [issued_append_of_ne he]; exact h.increasing
    ranges := h.sortedRanges_ignoreAbove
    bounds := fun r hr => ?_
    stack := fun entry hentry => h.savepointOk_rolledBack hok (h.stack entry hentry)
      (h.stack_top hstack entry hentry).2
    order := h.order
    inactive := fun hfalse => ⟨fun entry hentry => (h.stack_top hstack entry hentry).1 hfalse, ?_⟩
    undone := fun n => h.undone_rolledBack hok }
  · rcases h.mem_ignoreAbove hr with hold | rfl
    · exact h.bounds r hold
    · exact ⟨Int.le_add_of_nonneg_left hnonneg, le_rfl⟩
  · intro n hn
    have hbound := (h.wrote n).mp ((wrote_append he).mp hn)
    have hzero := hok.initial hfalse
    exact (h.ignores_ignoreAbove hok).mpr (.inr (by omega))

end

lemma inv_start (txn : Transaction) (active : Bool) (alloc : TxnSeqNumAllocator) (k : ℕ) :
    Inv (start txn active alloc k) := by
  have hhistory : ∀ e ∈ (start txn active alloc k).history, ∃ id < k, e = .created id := by
    intro e he
    obtain ⟨id, hid, rfl⟩ := List.mem_map.mp he
    exact ⟨id, mem_range.mp hid, rfl⟩
  have hwrote : ∀ n, Event.wrote n ∉ (start txn active alloc k).history := by
    intro n hn
    obtain ⟨id, -, heq⟩ := hhistory _ hn
    cases heq
  have hnil : issued (start txn active alloc k).history = [] := by
    rw [eq_nil_iff_forall_not_mem]
    exact fun n hn => hwrote n (mem_issued.mp hn)
  have hstack : ∀ entry ∈ (start txn active alloc k).stack,
      entry.1 < k ∧ entry.2 = initialSavepoint := by
    intro entry hentry
    obtain ⟨id, hid, rfl⟩ := List.mem_map.mp (mem_reverse.mp hentry)
    exact ⟨mem_range.mp hid, rfl⟩
  constructor
  · intro id hid
    obtain ⟨id', hlt, heq⟩ := hhistory _ hid
    cases heq
    exact hlt
  · exact le_rfl
  · rw [hnil]
    rfl
  · intro n
    refine iff_of_false (hwrote n) ?_
    show ¬ (1 ≤ n ∧ n ≤ 0)
    omega
  · rw [hnil]
    exact List.Pairwise.nil
  · exact ⟨List.Pairwise.nil, nofun⟩
  · exact nofun
  · intro entry hentry
    obtain ⟨hlt, heq⟩ := hstack entry hentry
    rw [heq]
    exact {
      created := mem_map_of_mem (mem_range.mpr hlt)
      initial := fun _ => rfl
      valid := rfl
      nonneg := le_rfl
      le := le_rfl
      after := fun n hn => absurd hn.wrote_mem (hwrote n)
      above := fun n hn => absurd hn (hwrote n)
      apart := nofun }
  · refine pairwise_iff_forall_sublist.mpr fun {a b} hsub => ?_
    rw [(hstack a (hsub.subset (by simp))).2, (hstack b (hsub.subset (by simp))).2]
    exact ⟨fun _ => rfl, le_rfl⟩
  · refine fun _ => ⟨fun entry hentry => ?_, fun n hn => absurd hn (hwrote n)⟩
    rw [(hstack entry hentry).2]
    rfl
  · exact fun n => iff_of_false nofun fun hn => hwrote n hn.wrote_mem

lemma Inv.step (h : Inv s) {a : Action} (hlegal : Legal s a) (hstep : step s a = some s')
    (hbound : (issued s'.history).length < 2 ^ 31) : Inv s' := by
  cases a with
  | send reqs reply =>
    obtain ⟨⟨tc, sent⟩, hsend, rfl⟩ := map_eq_some_iff.mp hstep
    exact h.send hlegal hsend hbound
  | createSavepoint =>
    simp only [Savepoints.step] at hstep
    split at hstep
    · cases hstep
      exact h
    rename_i sp hcreate
    cases hstep
    exact h.createSavepoint hcreate
  | releaseSavepoint id =>
    simp only [Savepoints.step] at hstep
    split at hstep
    · cases hstep
    rename_i id' sp below hunwind
    have hsub : below.Sublist s.stack :=
      (sublist_cons_self _ _).trans (hunwind ▸ unwind_sublist id s.stack)
    split at hstep
    · cases hstep
      exact h
    cases hstep
    exact h.drop hsub
  | rollbackToSavepoint id =>
    simp only [Savepoints.step] at hstep
    split at hstep
    · cases hstep
    rename_i id' sp below hunwind
    have hsub : ((id', sp) :: below).Sublist s.stack := hunwind ▸ unwind_sublist id s.stack
    split at hstep
    · cases hstep
      exact h
    rename_i tc hroll
    cases hstep
    exact (h.drop hsub).rollbackToSavepoint rfl hroll
  | configureStepping enabled =>
    cases hstep
    exact h.congr rfl rfl rfl rfl id
  | step =>
    obtain ⟨alloc, halloc, rfl⟩ := map_eq_some_iff.mp hstep
    refine h.congr rfl rfl rfl ?_ id
    unfold TxnSeqNumAllocator.stepLocked at halloc
    split_ifs at halloc
    cases halloc
    rfl

/-! ## The numbers of an epoch -/

/-- The `k`-th number of an epoch. -/
def seqNum (k : ℕ) : Int := (k : Int).bmod (2 ^ 32)

/-- The writes of the run have the first numbers of the epoch, in order. -/
structure Numbers (s : Run) : Prop where
  numbers : issued s.history = (List.range' 1 (issued s.history).length).map seqNum
  writeSeq : s.tc.alloc.writeSeq = seqNum (issued s.history).length

lemma Numbers.congr (h : Numbers s) (hissued : issued s'.history = issued s.history)
    (hseq : s'.tc.alloc.writeSeq = s.tc.alloc.writeSeq) : Numbers s' where
  numbers := by
    rw [hissued]
    exact h.numbers
  writeSeq := by
    rw [hissued, hseq]
    exact h.writeSeq

lemma seqNum_succ (k : ℕ) : (seqNum k + 1).bmod (2 ^ 32) = seqNum (k + 1) :=
  Int.bmod_add_bmod

lemma seqNum_last : seqNum (2147483647 + 1) = -2147483648 := by decide

lemma Numbers.sendLocked (h : Numbers s) (reqs : List Request) :
    Numbers { s with
      tc := { s.tc with alloc := (s.tc.alloc.sendLocked reqs).1 }
      history := s.history ++ writes (s.tc.alloc.sendLocked reqs).2 } := by
  induction reqs generalizing s with
  | nil =>
    rw [show writes _ = [] from rfl, append_nil]
    exact h
  | cons req reqs ih =>
    by_cases hnum : TxnSeqNumAllocator.numbered req
    · rw [writes_sendLocked_of_numbered _ _ hnum, append_cons s.history,
        TxnSeqNumAllocator.sendLocked, if_pos hnum]
      refine ih (s := { s with
        tc := { s.tc with alloc := { s.tc.alloc with
          writeSeq := (s.tc.alloc.writeSeq + 1).bmod (2 ^ 32) } }
        history := s.history ++ [.wrote ((s.tc.alloc.writeSeq + 1).bmod (2 ^ 32))] }) ?_
      rw [h.writeSeq, seqNum_succ]
      constructor
      · rw [issued_append, length_append, length_singleton, range'_1_concat, map_append,
          ← h.numbers, Nat.add_comm 1]
        rfl
      · rw [issued_append, length_append, length_singleton]
    rw [writes_sendLocked_of_not _ _ hnum, TxnSeqNumAllocator.sendLocked, if_neg hnum]
    exact ih h

lemma Numbers.step (h : Numbers s) {a : Action} (hstep : step s a = some s') : Numbers s' := by
  cases a with
  | send reqs reply =>
    obtain ⟨⟨tc, sent⟩, hsend, rfl⟩ := map_eq_some_iff.mp hstep
    unfold Coordinator.send at hsend
    dsimp only at hsend
    split_ifs at hsend
    · cases hsend
      exact h.congr (congrArg issued (append_nil _)) rfl
    obtain ⟨txn, -, hsend⟩ := map_eq_some_iff.mp hsend
    cases hsend
    exact (h.sendLocked reqs).congr rfl rfl
  | createSavepoint =>
    simp only [Savepoints.step] at hstep
    split at hstep <;> cases hstep
    · exact h
    · exact h.congr (issued_append_of_ne nofun) rfl
  | releaseSavepoint id =>
    simp only [Savepoints.step] at hstep
    split at hstep
    · cases hstep
    split at hstep <;> cases hstep
    · exact h
    · exact h.congr rfl rfl
  | rollbackToSavepoint id =>
    simp only [Savepoints.step] at hstep
    split at hstep
    · cases hstep
    split at hstep
    · cases hstep
      exact h
    rename_i tc hroll
    cases hstep
    exact h.congr (issued_append_of_ne nofun) (by rw [rollbackToSavepoint_fields hroll])
  | configureStepping enabled =>
    cases hstep
    exact h.congr rfl rfl
  | step =>
    obtain ⟨alloc, halloc, rfl⟩ := map_eq_some_iff.mp hstep
    refine h.congr rfl ?_
    unfold TxnSeqNumAllocator.stepLocked at halloc
    split_ifs at halloc
    cases halloc
    rfl

lemma length_issued_step {a : Action} (hstep : step s a = some s') :
    (issued s.history).length ≤ (issued s'.history).length := by
  have hprefix : ∃ history, s'.history = s.history ++ history := by
    cases a with
    | send reqs reply =>
      obtain ⟨⟨tc, sent⟩, -, rfl⟩ := map_eq_some_iff.mp hstep
      exact ⟨_, rfl⟩
    | createSavepoint =>
      simp only [Savepoints.step] at hstep
      split at hstep <;> cases hstep
      · exact ⟨[], (append_nil _).symm⟩
      · exact ⟨_, rfl⟩
    | releaseSavepoint id =>
      simp only [Savepoints.step] at hstep
      split at hstep
      · cases hstep
      split at hstep <;> cases hstep <;> exact ⟨[], (append_nil _).symm⟩
    | rollbackToSavepoint id =>
      simp only [Savepoints.step] at hstep
      split at hstep
      · cases hstep
      split at hstep <;> cases hstep
      · exact ⟨[], (append_nil _).symm⟩
      · exact ⟨_, rfl⟩
    | configureStepping enabled =>
      cases hstep
      exact ⟨[], (append_nil _).symm⟩
    | step =>
      obtain ⟨alloc, -, rfl⟩ := map_eq_some_iff.mp hstep
      exact ⟨[], (append_nil _).symm⟩
  obtain ⟨history, heq⟩ := hprefix
  rw [heq, length_issued_append]
  exact Nat.le_add_right _ _

section
variable {txn : Transaction} {active : Bool} {alloc : TxnSeqNumAllocator} {savepoints : ℕ}
  (h : Reachable Savepoints.step Legal (start txn active alloc savepoints) s)
include h

lemma inv_of_reachable (hbound : (issued s.history).length < 2 ^ 31) : Inv s := by
  refine h.invariant (P := fun s => (issued s.history).length < 2 ^ 31 → Inv s)
    (fun _ => inv_start txn active alloc savepoints) ?_ hbound
  intro s a s' _ hinv hlegal hstep hbound
  exact (hinv ((length_issued_step hstep).trans_lt hbound)).step hlegal hstep hbound

lemma numbers_of_reachable : Numbers s := by
  refine h.invariant ?_ fun _ _ _ _ hnumbers _ => hnumbers.step
  have hcount := (inv_start txn active alloc savepoints).count
  have hnil : issued (start txn active alloc savepoints).history = [] :=
    length_eq_zero_iff.mp (Int.ofNat_eq_zero.mp hcount.symm)
  exact ⟨by rw [hnil]; rfl, by rw [hnil]; rfl⟩

lemma seqNum_of_increasing (hpairwise : (issued s.history).Pairwise (· < ·)) {k : ℕ}
    (hpos : 0 < k) (hk : k < (issued s.history).length) : seqNum 1 < seqNum (k + 1) := by
  rw [(numbers_of_reachable h).numbers] at hpairwise
  have hlen : ((List.range' 1 (issued s.history).length).map seqNum).length =
      (issued s.history).length := by simp
  have hlt := pairwise_iff_getElem.mp hpairwise 0 k (by omega) (by omega) hpos
  simpa [Nat.add_comm 1] using hlt

/-- The first number is `1` and the 2³¹-th is negative. -/
lemma not_increasing (hbound : 2 ^ 31 ≤ (issued s.history).length) :
    ¬ (issued s.history).Pairwise (· < ·) := by
  intro hpairwise
  have hlt := seqNum_of_increasing h hpairwise (k := 2147483647) (by decide) (by omega)
  rw [seqNum_last] at hlt
  exact absurd hlt (by decide)

/-- Within an epoch the numbers increase if and only if there are fewer than 2³¹ of them. Then the
ignored ranges are in order and disjoint, and a number is ignored if and only if its write was
issued after a savepoint to which the transaction later rolled back. -/
theorem rollback_ignores_undone_writes :
    ((issued s.history).Pairwise (· < ·) ↔ (issued s.history).length < 2 ^ 31) ∧
      ((issued s.history).length < 2 ^ 31 →
        s.tc.txn.ignoredSeqNums.Pairwise (fun a b => a.stop < b.start) ∧
        (∀ r ∈ s.tc.txn.ignoredSeqNums, r.start ≤ r.stop) ∧
        ∀ n, Ignores s.tc.txn.ignoredSeqNums n ↔ Undone s.history n) := by
  refine ⟨⟨fun hpairwise => ?_, fun hbound => (inv_of_reachable h hbound).increasing⟩, ?_⟩
  · exact Nat.lt_of_not_le fun hbound => not_increasing h hbound hpairwise
  intro hbound
  have hinv := inv_of_reachable h hbound
  exact ⟨hinv.ranges.1, hinv.ranges.2, hinv.undone⟩

end

def oneRollback : List Action :=
  let put : List Request := [.op .put { key := [] }]
  [.send put (.error true none), .createSavepoint, .send put (.error true none),
    .send put (.error true none), .rollbackToSavepoint 0]

lemma oneRollback_legal (s : Run) : ∀ a ∈ oneRollback, Legal s a := by
  intro a ha
  simp only [oneRollback, mem_cons, not_mem_nil, or_false] at ha
  rcases ha with rfl | rfl | rfl | rfl | rfl
  · exact fun o ho => by cases ho
  · exact True.intro
  · exact fun o ho => by cases ho
  · exact fun o ho => by cases ho
  · exact True.intro

theorem rollback_ignores_undone_writes_once :
    ∃ s, Reachable Savepoints.step Legal (start { id := 1 } false {} 0) s ∧
      s.tc.txn.ignoredSeqNums = [⟨2, 3⟩] ∧ Undone s.history 2 ∧ ¬ Undone s.history 1 := by
  obtain ⟨s, hreach, hs⟩ := @exists_reachable_of_run Run Action Savepoints.step Legal
    (start { id := 1 } false {} 0) oneRollback
    oneRollback_legal
    (fun s => decide (s.tc.txn.ignoredSeqNums = [⟨2, 3⟩] ∧ issued s.history = [1, 2, 3]))
    (by decide)
  obtain ⟨hs, hissued⟩ := of_decide_eq_true hs
  have hundone := ((rollback_ignores_undone_writes hreach).2 (by rw [hissued]; decide)).2.2
  rw [hs] at hundone
  refine ⟨s, hreach, hs, (hundone 2).mp ⟨⟨2, 3⟩, mem_singleton.mpr rfl, by decide⟩, ?_⟩
  intro hone
  obtain ⟨r, hr, hle⟩ := (hundone 1).mpr hone
  rw [mem_singleton.mp hr] at hle
  exact absurd hle (by decide)

lemma length_issued_puts (alloc : TxnSeqNumAllocator) (k : ℕ) :
    (issued (writes (alloc.sendLocked (List.replicate k (.op .put { key := [] }))).2)).length =
      k := by
  induction k generalizing alloc with
  | zero => rfl
  | succ k ih =>
    rw [replicate_succ, writes_sendLocked_of_numbered _ _ rfl]
    exact congrArg Nat.succ (ih _)

lemma send_pending (h : tc.txnState = .txnPending) (reqs : List Request) :
    ∃ tc', tc.send reqs (.error true none) = some (tc', (tc.alloc.sendLocked reqs).2) := by
  refine ⟨{ tc with
    active := true
    alloc := (tc.alloc.sendLocked reqs).1
    txnState := stateAfter reqs (.error true none) tc.txnState }, ?_⟩
  unfold Coordinator.send
  dsimp only
  rw [if_neg (by simp [maybeRejectClientLocked, h])]
  rfl

lemma reachable_puts (k : ℕ) :
    ∃ s, Reachable Savepoints.step Legal (start { id := 1 } false {} 0) s ∧
      (issued s.history).length = k := by
  obtain ⟨tc, hsend⟩ := @send_pending (start { id := 1 } false {} 0).tc rfl
    (List.replicate k (.op .put { key := [] }))
  have hreach : Reachable Savepoints.step Legal (start { id := 1 } false {} 0) _ :=
    Reachable.init.next (a := .send (List.replicate k (.op .put { key := [] })) (.error true none))
      (fun o ho => by cases ho) (congrArg (Option.map _) hsend)
  exact ⟨_, hreach, length_issued_puts {} k⟩

/-- The last of 2³¹ writes of an epoch gets a number below those of all others. -/
theorem sequence_numbers_wrap :
    ∃ s, Reachable Savepoints.step Legal (start { id := 1 } false {} 0) s ∧
      (issued s.history).length = 2 ^ 31 ∧ ¬ (issued s.history).Pairwise (· < ·) := by
  obtain ⟨s, hreach, hlength⟩ := reachable_puts (2 ^ 31)
  exact ⟨s, hreach, hlength, not_increasing hreach hlength.ge⟩

end MeshDB.KvCoord.Savepoints
