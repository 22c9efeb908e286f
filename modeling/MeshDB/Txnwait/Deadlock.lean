import Mathlib.Algebra.Group.Fin.Basic
import Mathlib.Data.Fin.VecNotation
import Mathlib.Data.Fintype.Lattice
import Mathlib.Data.Fintype.Prod
import Mathlib.Tactic.FinCases
import Mathlib.Tactic.IntervalCases
import MeshDB.Txnwait.PushSteps

/-!
# Deadlocks are broken

A cycle of transactions that wait for each other. While all of them wait, each hears in the end of
every transaction of the cycle; and then one of them is ahead of its pushee, and forces it to
abort.
-/
namespace MeshDB.Txnwait

open Roachpb Hlc Transition

def QueryPhase.isBusy : QueryPhase → Bool
  | .off | .waiting _ _ => false
  | _ => true

namespace System

variable {home : TxnID → RangeID} {txnLivenessThreshold : ℤ} {s s' : System} {p p' : Push}
  {j k : PushID} {t u v x : TxnID}

/-! ## Waiting -/

structure Blocked (home : TxnID → RangeID) (s : System) (k : PushID) (t u : TxnID) : Prop where
  push : ∃ p, s.pushes k = some p ∧ p.loop.isWaiting ∧ p.req.pusherTxn.id = t ∧
    p.req.pusheeTxn.id = u ∧ p.req.pusherTxn.isLocking
  txn : t ≠ 0
  entry : ∃ pt, s.pendingTxn home u = some pt ∧ k ∈ pt.waitingPushes

def Forcing (s : System) (k : PushID) : Prop := ∃ p, s.pushes k = some p ∧ p.loop = .forcing

def Hears (s : System) (k : PushID) (x : TxnID) : Prop :=
  ∃ p, s.pushes k = some p ∧ x ∈ p.dependents

/-! ## Steps of a waiting push -/

inductive QueryChange (home : TxnID → RangeID) (s s' : System) (p p' : Push) : Prop where
  | same (hquery : p'.query = p.query)
  | released (hold : p.query.isWaiting) (hnew : p'.query = .proceed)
  | delivered {known} (hold : p.query = .sent known)
      (hnew : p'.query = .proceed ∨ p'.query.isWaiting)
  | answered {txn} (hold : p.query = .proceed)
      (hnew : p'.query = .answered txn (s.getDependents home p.req.pusherTxn.id))
  | received {txn dependents} (hold : p.query = .answered txn dependents)
      (hnew : p'.query = .updated dependents) (hdependents : dependents ⊆ p'.dependents)
  | handled {known} (hold : p.query = .updated known) (hnew : p'.query = .sent known)
      (hquiet : Quiet s' p.req.pusheeTxn.id)

/-- What a step does to a push that waits afterwards. -/
structure Goes (home : TxnID → RangeID) (s s' : System) (p p' : Push) : Prop where
  req : p'.req = p.req
  dependents : p.dependents ⊆ p'.dependents
  loop : p.loop.isWaiting
  query : QueryChange home s s' p p'

lemma Change.goes (hchange : Change home s s' p p') (hwaiting : p'.loop.isWaiting) :
    Goes home s s' p p' := by
  cases hchange with
  | other hquery =>
    refine ⟨rfl, subset_rfl, hwaiting, ?_⟩
    rcases hquery with rfl | ⟨rfl, hold⟩
    · exact .same rfl
    · exact .released hold rfl
  | ended hloop => simp [hwaiting] at hloop
  | fireTimer hloop
  | answerPushee hloop
  | handlePushee hloop => exact ⟨rfl, subset_rfl, by rw [hloop]; rfl, .same rfl⟩
  | deliverQuery hquery =>
    refine ⟨rfl, subset_rfl, hwaiting, .delivered hquery ?_⟩
    unfold maybeWaitForQuery
    repeat' split
    · exact Or.inl rfl
    · exact Or.inl rfl
    · exact Or.inr rfl
    · exact Or.inr rfl
  | answerQuery hquery => exact ⟨rfl, subset_rfl, hwaiting, .answered hquery rfl⟩
  | receiveAnswer hquery =>
    exact ⟨rfl, Finset.subset_union_left, hwaiting, .received hquery rfl Finset.subset_union_right⟩
  | handlePusher hquery _ _ hquiet =>
    exact ⟨rfl, subset_rfl, hwaiting, .handled hquery rfl hquiet⟩

lemma QueryChange.ne_off (h : QueryChange home s s' p p') (hoff : p.query ≠ .off) :
    p'.query ≠ .off := by
  cases h with
  | same hquery => rwa [hquery]
  | released _ hnew => rw [hnew]; exact nofun
  | delivered _ hnew =>
    intro hoff
    rw [hoff] at hnew
    rcases hnew with hnew | hnew <;> cases hnew
  | answered _ hnew | received _ hnew | handled _ hnew => rw [hnew]; exact nofun

section
variable (h : QueryChange home s s' p p') (hne : p'.query ≠ p.query)
include h hne
variable {known : Finset TxnID}

lemma QueryChange.of_sent (hold : p.query = .sent known) :
    p'.query = .proceed ∨ p'.query.isWaiting := by
  cases h with
  | released _ hnew => exact Or.inl hnew
  | delivered _ hnew => exact hnew
  | _ => simp_all

lemma QueryChange.of_waiting (hold : p.query.isWaiting) : p'.query = .proceed := by
  cases h with
  | released _ hnew => exact hnew
  | same hquery => exact absurd hquery hne
  | _ hquery => rw [hquery] at hold; cases hold

lemma QueryChange.of_proceed (hold : p.query = .proceed) :
    ∃ txn, p'.query = .answered txn (s.getDependents home p.req.pusherTxn.id) := by
  cases h with
  | answered _ hnew => exact ⟨_, hnew⟩
  | _ => simp_all

lemma QueryChange.of_answered {txn : Txn} {dependents : Finset TxnID}
    (hold : p.query = .answered txn dependents) :
    p'.query = .updated dependents ∧ dependents ⊆ p'.dependents := by
  cases h with
  | received hquery hnew hdependents =>
    rw [hold] at hquery
    cases hquery
    exact ⟨hnew, hdependents⟩
  | released hquery => rw [hold] at hquery; cases hquery
  | _ => simp_all

lemma QueryChange.of_updated (hold : p.query = .updated known) :
    p'.query = .sent known ∧ Quiet s' p.req.pusheeTxn.id := by
  cases h with
  | handled hquery hnew hquiet =>
    rw [hold] at hquery
    cases hquery
    exact ⟨hnew, hquiet⟩
  | released hquery => rw [hold] at hquery; cases hquery
  | _ => simp_all

end

/-! ## Runs -/

section
variable (tr : Trace (step home txnLivenessThreshold) initial) (start : ℕ)

/-- No query stays under way, no answer unheard and no update of the pusher on the channel. -/
def Responsive (k : PushID) : Prop :=
  ∀ m, start ≤ m → ∀ p, (tr.state m).pushes k = some p → p.query.isBusy →
    ∃ l, m ≤ l ∧ ∀ q, (tr.state l).pushes k = some q → q.query ≠ p.query

/-- The priorities hold from the push's join on: a later rise is not covered. -/
def Settled (priority : TxnID → ℕ) (k : PushID) : Prop :=
  ∀ m p, (tr.state m).pushes k = some p → Views priority (tr.state m) p

variable {tr start}

lemma inv_of_trace (m : ℕ) : (tr.state m).Inv home :=
  tr.always inv_initial (fun n h => h.step (tr.next n)) m

variable {priority : TxnID → ℕ}

lemma Settled.sound (h : Settled tr priority k) (m : ℕ) :
    ∀ p, (tr.state m).pushes k = some p → p.loop.isWaiting → Sound priority p := by
  induction m with
  | zero =>
    intro p hp
    rw [tr.init] at hp
    cases hp
  | succ m ih =>
    intro p' hp' hwaiting
    cases hp : (tr.state m).pushes k with
    | none =>
      obtain ⟨req, rfl⟩ := new_of_step (tr.next m) hp hp'
      exact .new (h (m + 1) _ hp')
    | some p =>
      obtain ⟨q, hq, hchange⟩ := change_of_step (tr.next m) hp
      rw [hp'] at hq
      cases hq
      exact (ih p hp (hchange.goes hwaiting).loop).change (h m p hp) hchange hwaiting

lemma query_ne_off (m : ℕ) : ∀ p, (tr.state m).pushes k = some p → p.loop.isWaiting →
    p.req.pusherTxn.id ≠ 0 → p.req.pusherTxn.isLocking → p.query ≠ .off := by
  induction m with
  | zero =>
    intro p hp
    rw [tr.init] at hp
    cases hp
  | succ m ih =>
    intro p' hp' hwaiting hid hlocking
    cases hp : (tr.state m).pushes k with
    | none =>
      obtain ⟨req, rfl⟩ := new_of_step (tr.next m) hp hp'
      have hquery : (Push.new req).query = .sent ∅ := if_pos ⟨hid, hlocking⟩
      rw [hquery]
      exact nofun
    | some p =>
      obtain ⟨q, hq, hchange⟩ := change_of_step (tr.next m) hp
      rw [hp'] at hq
      cases hq
      have hgoes := hchange.goes hwaiting
      rw [hgoes.req] at hid hlocking
      exact hgoes.query.ne_off (ih p hp hgoes.loop hid hlocking)

def BlockedFrom (tr : Trace (step home txnLivenessThreshold) initial) (start : ℕ) (k : PushID)
    (t u : TxnID) : Prop :=
  ∀ m, start ≤ m → Blocked home (tr.state m) k t u

namespace BlockedFrom

variable (hk : BlockedFrom tr start k t u)
include hk

lemma next {m : ℕ} (hm : start ≤ m) (hp : (tr.state m).pushes k = some p) :
    ∃ p', (tr.state (m + 1)).pushes k = some p' ∧
      Goes home (tr.state m) (tr.state (m + 1)) p p' := by
  obtain ⟨p', hp', hwaiting, _⟩ := (hk (m + 1) (hm.trans m.le_succ)).push
  obtain ⟨q, hq, hchange⟩ := change_of_step (tr.next m) hp
  rw [hp'] at hq
  cases hq
  exact ⟨p', hp', hchange.goes hwaiting⟩

lemma hears {m l : ℕ} (hm : start ≤ m) (hml : m ≤ l) (h : Hears (tr.state m) k x) :
    Hears (tr.state l) k x := by
  refine tr.stable (P := fun s => Hears s k x) h ?_ hml
  rintro n hn ⟨p, hp, hx⟩
  obtain ⟨p', hp', hgoes⟩ := hk.next (hm.trans hn) hp
  exact ⟨p', hp', hgoes.dependents hx⟩

lemma leaves (hresponsive : Responsive tr start k) {m : ℕ} (hm : start ≤ m)
    (hp : (tr.state m).pushes k = some p) (hbusy : p.query.isBusy) :
    ∃ l, m ≤ l ∧ ∃ q q', (tr.state l).pushes k = some q ∧ q.query = p.query ∧
      (tr.state (l + 1)).pushes k = some q' ∧ q'.query ≠ p.query ∧
      Goes home (tr.state l) (tr.state (l + 1)) q q' := by
  obtain ⟨n, hmn, hleft⟩ := hresponsive m hm p hp hbusy
  have hends := tr.exists_ends (P := fun s => ∃ q, s.pushes k = some q ∧ q.query = p.query)
    ⟨p, hp, rfl⟩ hmn (by rintro ⟨q, hq, heq⟩; exact hleft q hq heq)
  obtain ⟨l, hml, ⟨q, hq, heq⟩, hnot⟩ := hends
  obtain ⟨q', hq', hgoes⟩ := hk.next (hm.trans hml) hq
  refine ⟨l, hml, q, q', hq, heq, hq', ?_, hgoes⟩
  intro heq'
  exact hnot ⟨q', hq', heq'⟩

end BlockedFrom

/-! ### Dependents -/

section
variable (hj : BlockedFrom tr start j v t) (hk : BlockedFrom tr start k t u)
  (hresponsive : Responsive tr start k) {m₀ : ℕ} (hm₀ : start ≤ m₀)
  (htells : x = v ∨ Hears (tr.state m₀) j x)
include hj hm₀ htells
variable {m : ℕ}

lemma mem_getDependents (hm : m₀ ≤ m) : x ∈ (tr.state m).getDependents home t := by
  have hblocked := hj m (hm₀.trans hm)
  obtain ⟨q, hq, _, rfl, _⟩ := hblocked.push
  obtain ⟨pt, hpt, hmem⟩ := hblocked.entry
  have hx : x = q.req.pusherTxn.id ∨ x ∈ q.dependents := by
    refine htells.imp_right fun hears => ?_
    obtain ⟨q', hq', hx⟩ := hj.hears hm₀ hm hears
    rw [hq] at hq'
    cases hq'
    exact hx
  unfold getDependents
  rw [hpt]
  exact mem_getDependentsSet.mpr ⟨j, hmem, q, hq, hblocked.txn, hx⟩

include hk hresponsive

lemma hears_of_proceed (hm : m₀ ≤ m) (hp : (tr.state m).pushes k = some p)
    (hquery : p.query = .proceed) : ∃ l, m₀ ≤ l ∧ Hears (tr.state l) k x := by
  have hbusy : p.query.isBusy := by rw [hquery]; rfl
  obtain ⟨l, hml, q, q', hq, heq, hq', hne, hgoes⟩ := hk.leaves hresponsive (hm₀.trans hm) hp hbusy
  obtain ⟨txn, hanswered⟩ := hgoes.query.of_proceed (heq ▸ hne) (heq.trans hquery)
  have hl : m₀ ≤ l + 1 := by omega
  obtain ⟨n, hln, r, r', hr, hreq, hr', hner, hgoesr⟩ :=
    hk.leaves hresponsive (hm₀.trans hl) hq' (by rw [hanswered]; rfl)
  have hreceived := hgoesr.query.of_answered (hreq ▸ hner) (hreq.trans hanswered)
  refine ⟨n + 1, by omega, r', hr', hreceived.2 ?_⟩
  obtain ⟨q0, hq0, _, hid, _⟩ := (hk l (by omega)).push
  rw [hq] at hq0
  cases hq0
  rw [hid]
  exact mem_getDependents hj hm₀ htells (hm.trans hml)

variable (hresponsivej : Responsive tr start j)
include hresponsivej

section
variable {m : ℕ} (hm : m₀ ≤ m) (hp : (tr.state m).pushes k = some p)
include hm hp

lemma hears_of_waiting (hquery : p.query.isWaiting) :
    ∃ l, m₀ ≤ l ∧ Hears (tr.state l) k x := by
  have hstart := hm₀.trans hm
  obtain ⟨q, hq, _, hqid, hpushee, _⟩ := (hj m hstart).push
  obtain ⟨pt, hpt, hmem⟩ := (hj m hstart).entry
  obtain ⟨p0, hp0, _, hid, _⟩ := (hk m hstart).push
  rw [hp] at hp0
  cases hp0
  have hinv : (tr.state m).Inv home := inv_of_trace m
  have hseen := hinv.seen k p hp hquery pt (by rw [hid, hpt]) j hmem q hq
    (by rw [hqid]; exact (hj m hstart).txn)
  have hknown : ∀ y ∈ p.query.known, Hears (tr.state m) k y := fun y hy =>
    ⟨p, hp, hinv.known k p hp hy⟩
  rcases htells with rfl | hears
  · exact ⟨m, hm, hknown x (hqid ▸ hseen.1)⟩
  obtain ⟨q0, hq0, hx⟩ := hj.hears hm₀ hm hears
  rw [hq] at hq0
  cases hq0
  rcases hseen.2 with hsubset | hupdated
  · exact ⟨m, hm, hknown x (hsubset hx)⟩
  cases hqquery : q.query <;> rw [hqquery] at hupdated <;> cases hupdated
  obtain ⟨l, hml, r, r', hr, hreq, _, hner, hgoes⟩ :=
    hj.leaves hresponsivej hstart hq (by rw [hqquery]; rfl)
  obtain ⟨_, hquiet⟩ := hgoes.query.of_updated (hreq ▸ hner) (hreq.trans hqquery)
  have hrpushee : r.req.pusheeTxn.id = t := by
    obtain ⟨r0, hr0, _, _, hpushee, _⟩ := (hj l (hstart.trans hml)).push
    rw [hr] at hr0
    cases hr0
    exact hpushee
  rw [hrpushee] at hquiet
  have hends := tr.exists_ends (P := fun s => ∃ p, s.pushes k = some p ∧ p.query.isWaiting)
    ⟨p, hp, hquery⟩ (m := l + 1) (by omega) (by
      rintro ⟨p1, hp1, hwaiting⟩
      obtain ⟨p2, hp2, _, hid, _⟩ := (hk (l + 1) (by omega)).push
      rw [hp1] at hp2
      cases hp2
      rw [hquiet k p1 hp1 hid] at hwaiting
      cases hwaiting)
  obtain ⟨n, hmn, ⟨p1, hp1, hwaiting⟩, hnot⟩ := hends
  obtain ⟨p2, hp2, hgoes⟩ := hk.next (hstart.trans hmn) hp1
  refine hears_of_proceed hj hk hresponsive hm₀ (Or.inr hears) (m := n + 1) (by omega) hp2 ?_
  refine hgoes.query.of_waiting ?_ hwaiting
  intro heq
  exact hnot ⟨p2, hp2, heq ▸ hwaiting⟩

lemma hears_of_sent {known : Finset TxnID} (hquery : p.query = .sent known) :
    ∃ l, m₀ ≤ l ∧ Hears (tr.state l) k x := by
  obtain ⟨l, hml, q, q', hq, heq, hq', hne, hgoes⟩ :=
    hk.leaves hresponsive (hm₀.trans hm) hp (by rw [hquery]; rfl)
  have hl : m₀ ≤ l + 1 := by omega
  rcases hgoes.query.of_sent (heq ▸ hne) (heq.trans hquery) with hproceed | hwaiting
  · exact hears_of_proceed hj hk hresponsive hm₀ htells hl hq' hproceed
  · exact hears_of_waiting hj hk hresponsive hm₀ htells hresponsivej hl hq' hwaiting

lemma hears_of_updated {known : Finset TxnID} (hquery : p.query = .updated known) :
    ∃ l, m₀ ≤ l ∧ Hears (tr.state l) k x := by
  obtain ⟨l, hml, q, q', hq, heq, hq', hne, hgoes⟩ :=
    hk.leaves hresponsive (hm₀.trans hm) hp (by rw [hquery]; rfl)
  have hsent := (hgoes.query.of_updated (heq ▸ hne) (heq.trans hquery)).1
  exact hears_of_sent hj hk hresponsive hm₀ htells hresponsivej (by omega) hq' hsent

lemma hears_of_answered {txn : Txn} {dependents : Finset TxnID}
    (hquery : p.query = .answered txn dependents) :
    ∃ l, m₀ ≤ l ∧ Hears (tr.state l) k x := by
  obtain ⟨l, hml, q, q', hq, heq, hq', hne, hgoes⟩ :=
    hk.leaves hresponsive (hm₀.trans hm) hp (by rw [hquery]; rfl)
  have hupdated := (hgoes.query.of_answered (heq ▸ hne) (heq.trans hquery)).1
  exact hears_of_updated hj hk hresponsive hm₀ htells hresponsivej (by omega) hq' hupdated

end

lemma exists_hears : ∃ l, m₀ ≤ l ∧ Hears (tr.state l) k x := by
  obtain ⟨p, hp, hloop, hid, _, hlocking⟩ := (hk m₀ hm₀).push
  have htxn : p.req.pusherTxn.id ≠ 0 := by
    rw [hid]
    exact (hk m₀ hm₀).txn
  cases hquery : p.query with
  | off => exact absurd hquery (query_ne_off m₀ p hp hloop htxn hlocking)
  | sent known => exact hears_of_sent hj hk hresponsive hm₀ htells hresponsivej le_rfl hp hquery
  | waiting known maxWait =>
    refine hears_of_waiting hj hk hresponsive hm₀ htells hresponsivej le_rfl hp ?_
    rw [hquery]
    rfl
  | proceed => exact hears_of_proceed hj hk hresponsive hm₀ htells le_rfl hp hquery
  | answered txn dependents =>
    exact hears_of_answered hj hk hresponsive hm₀ htells hresponsivej le_rfl hp hquery
  | updated known =>
    exact hears_of_updated hj hk hresponsive hm₀ htells hresponsivej le_rfl hp hquery

end

/-! ### Cycles -/

section
variable {n : ℕ} {txn : Fin (n + 2) → TxnID} {push : Fin (n + 2) → PushID}
  (hblocked : ∀ i, BlockedFrom tr start (push i) (txn i) (txn (i + 1)))
  (hresponsive : ∀ i, Responsive tr start (push i))

lemma exists_iterate_add_one (i j : Fin (n + 2)) : ∃ d : ℕ, (· + 1)^[d + 1] i = j := by
  have hval : ∀ x : Fin (n + 2), ∃ d : ℕ, d • (1 : Fin (n + 2)) = x := by
    intro x
    induction x using Fin.induction with
    | zero => exact ⟨0, zero_nsmul _⟩
    | succ x ih =>
      obtain ⟨d, hd⟩ := ih
      exact ⟨d + 1, by rw [succ_nsmul, hd, Fin.coeSucc_eq_succ]⟩
  obtain ⟨d, hd⟩ := hval (j - i - 1)
  refine ⟨d, ?_⟩
  rw [add_right_iterate, succ_nsmul, hd, sub_add_cancel]
  exact add_sub_cancel i j

include hblocked hresponsive

lemma hears_around (i : Fin (n + 2)) (d : ℕ) :
    ∃ m, start ≤ m ∧ Hears (tr.state m) (push ((· + 1)^[d + 1] i)) (txn i) := by
  induction d with
  | zero =>
    exact exists_hears (hblocked i) (hblocked (i + 1)) (hresponsive (i + 1)) le_rfl
      (Or.inl rfl) (hresponsive i)
  | succ d ih =>
    obtain ⟨m, hm, hears⟩ := ih
    rw [Function.iterate_succ_apply']
    obtain ⟨l, hml, hears⟩ := exists_hears (hblocked _) (hblocked _) (hresponsive _) hm
      (Or.inr hears) (hresponsive _)
    exact ⟨l, hm.trans hml, hears⟩

lemma exists_hears_all : ∃ m, start ≤ m ∧ ∀ i j, Hears (tr.state m) (push i) (txn j) := by
  have hpair : ∀ i j, ∃ m, start ≤ m ∧ Hears (tr.state m) (push i) (txn j) := by
    intro i j
    obtain ⟨d, rfl⟩ := exists_iterate_add_one j i
    exact hears_around hblocked hresponsive j d
  choose time hstart hears using hpair
  obtain ⟨⟨i0, j0⟩, hmax⟩ := Finite.exists_max fun ij : Fin (n + 2) × Fin (n + 2) =>
    time ij.1 ij.2
  refine ⟨time i0 j0, hstart i0 j0, fun i j => ?_⟩
  exact (hblocked i).hears (hstart i j) (hmax (i, j)) (hears i j)

lemma behind_next (hsettled : ∀ i, Settled tr priority (push i))
    (i : Fin (n + 2)) :
    toLex (priority (txn i), txn i) ≤ toLex (priority (txn (i + 1)), txn (i + 1)) := by
  have hbehind : ∀ m, start ≤ m → ∀ p, (tr.state m).pushes (push i) = some p →
      txn (i + 1) ∈ p.dependents → p.query.isUpdated = false →
      toLex (priority (txn i), txn i) ≤ toLex (priority (txn (i + 1)), txn (i + 1)) := by
    intro m hm p hp hmem hupdated
    obtain ⟨q, hq, hloop, hid, hpushee, _⟩ := (hblocked i m hm).push
    rw [hp] at hq
    cases hq
    have := ((hsettled i).sound m p hp hloop).behind (hpushee ▸ hmem) hupdated
    rwa [Behind, hid, hpushee] at this
  obtain ⟨m, hm, hears⟩ := exists_hears_all hblocked hresponsive
  obtain ⟨p, hp, hmem⟩ := hears i (i + 1)
  cases hquery : p.query with
  | updated known =>
    obtain ⟨l, hml, q, q', hq, heq, hq', hne, hgoes⟩ :=
      (hblocked i).leaves (hresponsive i) hm hp (by rw [hquery]; rfl)
    obtain ⟨hsent, _⟩ := hgoes.query.of_updated (heq ▸ hne) (heq.trans hquery)
    have hears' : Hears (tr.state (l + 1)) (push i) (txn (i + 1)) :=
      (hblocked i).hears hm (by omega) ⟨p, hp, hmem⟩
    obtain ⟨r, hr, hmem⟩ := hears'
    rw [hq'] at hr
    cases hr
    exact hbehind (l + 1) (by omega) q' hq' hmem (by rw [hsent]; rfl)
  | _ => exact hbehind m hm p hp hmem (by rw [hquery]; rfl)

end
end

def pendingMember (id : TxnID) : Txn where
  id := id
  key := some [1]
  priority := 1
  minTimestamp := { wallTime := 1 }

def memberRequest (pusher pushee : TxnID) : PushTxnRequest where
  pusherTxn := pendingMember pusher
  pusheeTxn := (pendingMember pushee).view

def twoWaiting : List Event :=
  [.enable 1, .enable 2, .enqueueTxn (pendingMember 1), .enqueueTxn (pendingMember 2),
    .join 1 (memberRequest 1 2), .join 2 (memberRequest 2 1),
    .deliverQuery 2, .answerQuery 2 true {}, .receiveAnswer 2, .handlePusher 2,
    .deliverQuery 1, .answerQuery 1 true {}, .receiveAnswer 1, .handlePusher 1, .deliverQuery 1]

def twoWaitingTrace : Trace (step (fun t => t) 0) initial :=
  .ofRun twoWaiting .idle (fun _ => rfl) (by decide)

lemma state_twoWaitingTrace (m : ℕ) :
    twoWaitingTrace.state m = twoWaitingTrace.state (min m 15) := by
  rcases le_total m 15 with hm | hm
  · rw [min_eq_left hm]
  rw [min_eq_right hm]
  show (run _ _ (twoWaiting.take m)).getD _ = _
  rw [List.take_of_length_le (show twoWaiting.length ≤ m from hm)]
  rfl

lemma blocked_twoWaitingTrace {m : ℕ} (hm : 6 ≤ m) (hlt : m < 10) (i : Fin 2) :
    Blocked (fun t => t) (twoWaitingTrace.state m) (![1, 2] i) (![1, 2] i) (![1, 2] (i + 1)) := by
  interval_cases m <;> fin_cases i <;>
    exact ⟨⟨_, rfl, rfl, rfl, rfl, rfl⟩, by decide, ⟨_, rfl, by decide⟩⟩

lemma responsive_twoWaitingTrace (i : Fin 2) : Responsive twoWaitingTrace 6 (![1, 2] i) := by
  intro m _ p _ hbusy
  refine ⟨max m 15, le_max_left _ _, ?_⟩
  intro q hq heq
  rw [state_twoWaitingTrace, min_eq_right (le_max_right _ _)] at hq
  have hfinal : ∀ i : Fin 2, ((twoWaitingTrace.state 15).pushes (![1, 2] i)).all
      (fun q => ! q.query.isBusy) := by decide
  have hnot := hfinal i
  rw [hq, Option.all_some, heq, hbusy] at hnot
  cases hnot

lemma settled_twoWaitingTrace (i : Fin 2) : Settled twoWaitingTrace (fun _ => 1) (![1, 2] i) := by
  have hrequests : ∀ i : Fin 2, ∀ m : Fin 16, ((twoWaitingTrace.state m).pushes (![1, 2] i)).all
      (fun p => decide (p.req = memberRequest (![1, 2] i) (![1, 2] (i + 1)))) := by decide
  have hrecords : ∀ i : Fin 2, ∀ m : Fin 16,
      (twoWaitingTrace.state m).records (![1, 2] i) = none := by decide
  intro m p hp
  rw [state_twoWaitingTrace] at hp ⊢
  have hreq := hrequests i ⟨min m 15, by omega⟩
  rw [hp, Option.all_some, decide_eq_true_eq] at hreq
  refine ⟨?_, ?_, ?_⟩
  · rw [hreq]
    exact le_rfl
  · intro record hrecord
    rw [hreq] at hrecord
    cases hrecord.symm.trans (hrecords (i + 1) ⟨min m 15, by omega⟩)
  rw [hreq]
  show 1 ≤ Txn.upgradePriority 1
    (((twoWaitingTrace.state (min m 15)).records (![1, 2] i)).elim 1 Txn.priority)
  rw [hrecords i ⟨min m 15, by omega⟩]
  decide

end System
end MeshDB.Txnwait
