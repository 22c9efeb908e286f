import MeshDB.Txnwait.Queue

/-!
# What a waiting query knows

A query that waits for updates of a transaction knows all transactions that wait for it, or there
is a push in whose queue the news has not been passed on yet.
-/
namespace MeshDB.Txnwait

open List Roachpb Hlc Function
variable {home : TxnID → RangeID} {s s' : System} {k : PushID} {p p' : Push} {t : TxnID}

def QueryPhase.known : QueryPhase → Finset TxnID
  | .sent known => known
  | .waiting known _ => known
  | .updated known => known
  | _ => ∅

def QueryPhase.isUpdated : QueryPhase → Bool
  | .updated _ => true
  | _ => false

def QueryPhase.isWaiting : QueryPhase → Bool
  | .waiting _ _ => true
  | _ => false

namespace System

/-! ## The parts of the system -/

@[simp] lemma pendingTxn_setPush : (s.setPush k p).pendingTxn home t = s.pendingTxn home t := rfl

variable {pt : Option PendingTxn} {known : Finset TxnID}

@[simp] lemma pushes_setPendingTxn : (s.setPendingTxn home t pt).pushes = s.pushes := rfl

@[simp] lemma pushes_enqueueTxn {txn : Txn} : (s.enqueueTxn home txn).pushes = s.pushes := by
  unfold enqueueTxn
  split <;> rfl

@[simp] lemma pushes_storePushee {txn : Txn} :
    (s.storePushee home k t txn).pushes = s.pushes := by
  unfold storePushee
  split
  · split_ifs <;> rfl
  · rfl

lemma pushes_finish :
    (s.finish home k p).pushes = (s.setPush k { p with loop := .done, query := .off }).pushes := by
  unfold finish
  dsimp only
  split <;> rfl

@[simp] lemma pendingTxn_releaseWaitingQueries {u : TxnID} :
    (s.releaseWaitingQueries u).pendingTxn home t = s.pendingTxn home t := rfl

lemma pendingTxn_setPendingTxn {u : TxnID} :
    (s.setPendingTxn home u pt).pendingTxn home t =
      if t = u then (s.queues (home u)).bind fun _ => pt else s.pendingTxn home t := by
  unfold setPendingTxn pendingTxn
  by_cases hhome : home t = home u
  · rw [hhome]
    cases hq : s.queues (home u) with
    | none => simp
    | some txns =>
      by_cases htu : t = u
      · simp [htu]
      · simp [htu]
  · have htu : t ≠ u := fun h => hhome (by rw [h])
    simp [update_of_ne hhome, htu]

lemma pushes_setPush {j : PushID} :
    (s.setPush k p).pushes j = if j = k then some p else s.pushes j := by
  simp [setPush, update_apply]

lemma mem_getDependentsSet {pt : PendingTxn} {x : TxnID} :
    x ∈ s.getDependentsSet pt ↔ ∃ k ∈ pt.waitingPushes, ∃ p, s.pushes k = some p ∧
      p.req.pusherTxn.id ≠ 0 ∧ (x = p.req.pusherTxn.id ∨ x ∈ p.dependents) := by
  unfold getDependentsSet
  induction pt.waitingPushes with
  | nil => simp
  | cons k ks ih =>
    rw [foldr_cons]
    cases hp : s.pushes k with
    | none =>
      simp only [mem_cons, exists_eq_or_imp, hp, reduceCtorEq, false_and, exists_false,
        false_or]
      exact ih
    | some p =>
      simp only [mem_cons, exists_eq_or_imp, hp, Option.some.injEq, exists_eq_left']
      split_ifs with hid
      · rw [Finset.mem_insert, Finset.mem_union, ih, and_iff_right hid, or_assoc]
      rw [ih, iff_comm, or_iff_right]
      exact fun h => hid h.1

lemma eq_of_isTxnUpdated {pt : PendingTxn} {txn : TxnView}
    (h : s.isTxnUpdated pt txn known = false) : known = s.getDependentsSet pt := by
  unfold isTxnUpdated at h
  split_ifs at h
  simp only [ne_eq, decide_not, Bool.or_eq_false_iff, Bool.not_eq_false', decide_eq_true_eq] at h
  exact Finset.eq_of_subset_of_card_le h.2 h.1.ge

/-! ## The invariant -/

def Quiet (s : System) (t : TxnID) : Prop :=
  ∀ k p, s.pushes k = some p → p.req.pusherTxn.id = t → p.query.isWaiting = false

structure Inv (home : TxnID → RangeID) (s : System) : Prop where
  /-- The pushes in the entry of a transaction wait for it. -/
  pushee : ∀ t pt j, s.pendingTxn home t = some pt → j ∈ pt.waitingPushes →
    ∃ p, s.pushes j = some p ∧ p.req.pusheeTxn.id = t
  /-- What a query knows was passed on to its push. -/
  known : ∀ k p, s.pushes k = some p → p.query.known ⊆ p.dependents
  /-- A waiting query knows the pushes on its transaction, and their dependents or an update of
  them. -/
  seen : ∀ k p, s.pushes k = some p → p.query.isWaiting →
    ∀ pt, s.pendingTxn home p.req.pusherTxn.id = some pt → ∀ j ∈ pt.waitingPushes,
      ∀ q, s.pushes j = some q → q.req.pusherTxn.id ≠ 0 →
        q.req.pusherTxn.id ∈ p.query.known ∧
          (q.dependents ⊆ p.query.known ∨ q.query.isUpdated)

/-- What a step can do to a push that stays in the entry of its pushee. -/
structure Kept (home : TxnID → RangeID) (s' : System) (k : PushID) (p p' : Push) : Prop where
  req : p'.req = p.req
  waiting : p'.query.isWaiting → p'.query = p.query
  known : p'.query.known ⊆ p'.dependents
  dependents : p'.dependents = p.dependents ∧
      (p.query.isUpdated → p'.query.isUpdated) ∨
    p'.query.isUpdated ∨ Quiet s' p.req.pusheeTxn.id ∨
    ∀ pt, s'.pendingTxn home p.req.pusheeTxn.id = some pt → k ∉ pt.waitingPushes

structure Fresh (p : Push) : Prop where
  waiting : p.query.isWaiting = false
  known : p.query.known ⊆ p.dependents

lemma Inv.of_changes (h : s.Inv home) (hpush : ∀ k p', s'.pushes k = some p' →
      (∃ p, s.pushes k = some p ∧ Kept home s' k p p') ∨ s.pushes k = none ∧ Fresh p')
    (hpending : ∀ t pt' j, s'.pendingTxn home t = some pt' → j ∈ pt'.waitingPushes →
      (∃ q, s'.pushes j = some q ∧ q.req.pusheeTxn.id = t) ∧
        ((∃ pt, s.pendingTxn home t = some pt ∧ j ∈ pt.waitingPushes) ∨ Quiet s' t)) :
    s'.Inv home where
  pushee t pt j hpt hj := (hpending t pt j hpt hj).1
  known := by
    intro k p' hp'
    rcases hpush k p' hp' with ⟨p, _, hkept⟩ | ⟨_, hfresh⟩
    · exact hkept.known
    · exact hfresh.known
  seen := by
    intro k p' hp' hwaiting pt' hpt' j hj q' hq' hid
    rcases hpush k p' hp' with ⟨p, hp, hkept⟩ | ⟨_, hfresh⟩
    · have hquery := hkept.waiting hwaiting
      have hnotQuiet : ¬ Quiet s' p'.req.pusherTxn.id := by
        intro hquiet
        have := hquiet k p' hp' rfl
        rw [hwaiting] at this
        cases this
      obtain ⟨⟨q, hq, hpushee⟩, ⟨pt, hpt, hj'⟩ | hquiet⟩ := hpending _ pt' j hpt' hj
      · rw [hq'] at hq
        cases hq
        rcases hpush j q' hq' with ⟨q, hq, hkeptq⟩ | ⟨hnone, _⟩
        · rw [hkept.req] at hpt
          have hseen := h.seen k p hp (hquery ▸ hwaiting) pt hpt j hj' q hq (hkeptq.req ▸ hid)
          rw [hkeptq.req] at hpushee
          rw [hquery, hkeptq.req]
          refine ⟨hseen.1, ?_⟩
          rcases hkeptq.dependents with ⟨hdependents, hupdated⟩ | hupdated | hquiet | hgone
          · rw [hdependents]
            exact hseen.2.imp_right hupdated
          · exact Or.inr hupdated
          · rw [hpushee] at hquiet
            exact absurd hquiet hnotQuiet
          · rw [hpushee] at hgone
            exact absurd hj (hgone pt' hpt')
        · obtain ⟨q, hq, _⟩ := h.pushee _ pt j hpt hj'
          rw [hnone] at hq
          cases hq
      · exact absurd hquiet hnotQuiet
    · rw [hfresh.waiting] at hwaiting
      cases hwaiting

/-! ## The operations -/

lemma Kept.of_eq {s' : System} (hknown : p.query.known ⊆ p.dependents) (hreq : p'.req = p.req)
    (hquery : p'.query = p.query) (hdependents : p'.dependents = p.dependents) :
    Kept home s' k p p' where
  req := hreq
  waiting _ := hquery
  known := by
    rw [hquery, hdependents]
    exact hknown
  dependents := Or.inl ⟨hdependents, by rw [hquery]; exact id⟩

lemma Kept.of_stop {s' : System} (hknown : p.query.known ⊆ p.dependents)
    (h : p'.req = p.req ∧ p'.dependents = p.dependents ∧
      (p'.query = p.query ∨ p'.query = .proceed ∧ p.query.isWaiting)) :
    Kept home s' k p p' := by
  obtain ⟨hreq, hdependents, hquery | ⟨hquery, hwaiting⟩⟩ := h
  · exact .of_eq hknown hreq hquery hdependents
  refine ⟨hreq, ?_, ?_, Or.inl ⟨hdependents, ?_⟩⟩
  · rw [hquery]
    exact nofun
  · rw [hquery]
    exact Finset.empty_subset _
  cases hq : p.query <;> rw [hq] at hwaiting <;> cases hwaiting
  exact nofun

lemma Kept.of_query {s' : System} (hupdated : p.query.isUpdated = false) {query : QueryPhase}
    (hwaiting : query.isWaiting = false) (hknown : query.known ⊆ p.dependents) :
    Kept home s' k p { p with query := query } where
  req := rfl
  waiting h := by
    rw [hwaiting] at h
    cases h
  known := hknown
  dependents := Or.inl ⟨rfl, fun h => by rw [hupdated] at h; cases h⟩

lemma Inv.shrink (h : s.Inv home) (hpushes : s'.pushes = s.pushes)
    (hpending : ∀ t pt' j, s'.pendingTxn home t = some pt' → j ∈ pt'.waitingPushes →
      ∃ pt, s.pendingTxn home t = some pt ∧ j ∈ pt.waitingPushes) : s'.Inv home := by
  apply h.of_changes
  · intro k p hp
    rw [hpushes] at hp
    exact Or.inl ⟨p, hp, .of_eq (h.known k p hp) rfl rfl rfl⟩
  intro t pt' j hpt' hj
  obtain ⟨pt, hpt, hj⟩ := hpending t pt' j hpt' hj
  rw [hpushes]
  exact ⟨h.pushee t pt j hpt hj, Or.inl ⟨pt, hpt, hj⟩⟩

lemma Inv.setPendingTxn (h : s.Inv home) (hpt : ∀ pt' ∈ pt, ∀ j ∈ pt'.waitingPushes,
      ∃ pt0, s.pendingTxn home t = some pt0 ∧ j ∈ pt0.waitingPushes) :
    (s.setPendingTxn home t pt).Inv home := by
  refine h.shrink pushes_setPendingTxn ?_
  intro u pt' j hpt' hj
  rw [pendingTxn_setPendingTxn] at hpt'
  split_ifs at hpt' with hu
  · subst hu
    cases hq : s.queues (home u) with
    | none => simp [hq] at hpt'
    | some txns =>
      rw [hq] at hpt'
      exact hpt pt' hpt' j hj
  · exact ⟨pt', hpt', hj⟩

lemma Inv.mapPushes (h : s.Inv home) {f : PushID → Push → Push}
    (hf : ∀ k p, (f k p).req = p.req ∧ (f k p).dependents = p.dependents ∧
      ((f k p).query = p.query ∨ (f k p).query = .proceed ∧ p.query.isWaiting)) :
    Inv home { s with pushes := fun k => (s.pushes k).map (f k) } := by
  apply h.of_changes
  · intro k p' hp'
    obtain ⟨p, hp, rfl⟩ := Option.map_eq_some_iff.mp hp'
    exact Or.inl ⟨p, hp, .of_stop (h.known k p hp) (hf k p)⟩
  intro t pt j hpt hj
  obtain ⟨p, hp, hpushee⟩ := h.pushee t pt j hpt hj
  refine ⟨⟨f j p, ?_, ?_⟩, Or.inl ⟨pt, hpt, hj⟩⟩
  · show (s.pushes j).map (f j) = _
    rw [hp]
    rfl
  rw [(hf j p).1]
  exact hpushee

lemma released_spec (p : Push) (f : TxnID → Bool) :
    (released p f).req = p.req ∧ (released p f).dependents = p.dependents ∧
      ((released p f).query = p.query ∨
        (released p f).query = .proceed ∧ p.query.isWaiting) := by
  unfold released
  cases hq : p.query with
  | waiting known maxWait =>
    split_ifs
    · exact ⟨rfl, rfl, Or.inr ⟨rfl, rfl⟩⟩
    · exact ⟨rfl, rfl, Or.inl hq⟩
  | _ => exact ⟨rfl, rfl, Or.inl hq⟩

lemma Inv.releaseWaiting (h : s.Inv home) (f : TxnID → Bool) : (s.releaseWaiting f).Inv home :=
  h.mapPushes fun _ p => released_spec p f

lemma quiet_releaseWaitingQueries (s : System) (t : TxnID) :
    Quiet (s.releaseWaitingQueries t) t := by
  intro k p' hp' hid
  obtain ⟨p, _, rfl⟩ := Option.map_eq_some_iff.mp hp'
  rw [(released_spec p _).1] at hid
  unfold released
  cases hq : p.query with
  | waiting known maxWait =>
    rw [if_pos (by simpa using hid)]
    rfl
  | _ =>
    rw [hq]
    rfl

lemma Quiet.setPush (h : Quiet s t) (hwaiting : p.query.isWaiting = false) :
    Quiet (s.setPush k p) t := by
  intro j q hq hid
  rw [pushes_setPush] at hq
  split_ifs at hq
  · cases hq
    exact hwaiting
  · exact h j q hq hid

section
variable (h : s.Inv home)
include h

lemma Inv.sendPending (ks : List PushID) (txn : Option Txn) :
    (s.sendPending ks txn).Inv home := by
  have hpushes : s.sendPending ks txn = { s with pushes := fun k => (s.pushes k).map fun p =>
      if k ∈ ks then { p with pending := some txn } else p } := by
    unfold System.sendPending
    congr 1
    funext k
    split_ifs <;> simp
  rw [hpushes]
  apply h.mapPushes
  intro k p
  split_ifs <;> exact ⟨rfl, rfl, Or.inl rfl⟩

lemma Inv.setPush (hp : s.pushes k = some p)
    (hkept : Kept home (s.setPush k p') k p p') : (s.setPush k p').Inv home := by
  apply h.of_changes
  · intro j q hq
    rw [pushes_setPush] at hq
    split_ifs at hq with hj
    · cases hq
      subst hj
      exact Or.inl ⟨p, hp, hkept⟩
    · exact Or.inl ⟨q, hq, .of_eq (h.known j q hq) rfl rfl rfl⟩
  intro t pt j hpt hj
  rw [pendingTxn_setPush] at hpt
  refine ⟨?_, Or.inl ⟨pt, hpt, hj⟩⟩
  obtain ⟨q, hq, hpushee⟩ := h.pushee t pt j hpt hj
  rw [pushes_setPush]
  split_ifs with hjk
  · subst hjk
    rw [hp] at hq
    cases hq
    exact ⟨p', rfl, by rw [hkept.req]; exact hpushee⟩
  · exact ⟨q, hq, hpushee⟩

lemma Inv.setPush_same (hp : s.pushes k = some p) (hreq : p'.req = p.req)
    (hquery : p'.query = p.query) (hdependents : p'.dependents = p.dependents) :
    (s.setPush k p').Inv home :=
  h.setPush hp (.of_eq (h.known k p hp) hreq hquery hdependents)

lemma Inv.register (hp : s.pushes k = some p) {maxWait : Bool} (hsent : p.query = .sent known)
    (hknown : ∀ pt, s.pendingTxn home p.req.pusherTxn.id = some pt →
      known = s.getDependentsSet pt) :
    (s.setPush k { p with query := .waiting known maxWait }).Inv home where
  pushee := by
    intro t pt j hpt hj
    obtain ⟨q, hq, hpushee⟩ := h.pushee t pt j hpt hj
    rw [pushes_setPush]
    split_ifs with hjk
    · subst hjk
      rw [hp] at hq
      cases hq
      exact ⟨_, rfl, hpushee⟩
    · exact ⟨q, hq, hpushee⟩
  known := by
    intro j q hq
    rw [pushes_setPush] at hq
    split_ifs at hq with hjk
    · cases hq
      have := h.known k p hp
      rw [hsent] at this
      exact this
    · exact h.known j q hq
  seen := by
    have hother : ∀ j q,
        (s.setPush k { p with query := .waiting known maxWait }).pushes j = some q →
        ∃ q0, s.pushes j = some q0 ∧ q.req = q0.req ∧ q.dependents = q0.dependents ∧
          (q.query = q0.query ∨ q0.query.isUpdated = false) := by
      intro j q hq
      rw [pushes_setPush] at hq
      split_ifs at hq with hjk
      · cases hq
        subst hjk
        exact ⟨p, hp, rfl, rfl, Or.inr (by rw [hsent]; rfl)⟩
      · exact ⟨q, hq, rfl, rfl, Or.inl rfl⟩
    intro j q hq hwaiting pt hpt i hi r hr hid
    obtain ⟨r0, hr0, hreq, hdependents, hquery⟩ := hother i r hr
    rw [pendingTxn_setPush] at hpt
    rw [pushes_setPush] at hq
    split_ifs at hq with hjk
    · cases hq
      have hmem : ∀ x, x = r0.req.pusherTxn.id ∨ x ∈ r0.dependents → x ∈ known := by
        intro x hx
        rw [hknown pt hpt, mem_getDependentsSet]
        exact ⟨i, hi, r0, hr0, hreq ▸ hid, hx⟩
      rw [hreq, hdependents]
      exact ⟨hmem _ (Or.inl rfl), Or.inl fun x hx => hmem x (Or.inr hx)⟩
    have hseen := h.seen j q hq hwaiting pt hpt i hi r0 hr0 (hreq ▸ hid)
    rw [hreq, hdependents]
    refine ⟨hseen.1, ?_⟩
    rcases hquery with hquery | hquery
    · rw [hquery]
      exact hseen.2
    rw [hquery] at hseen
    exact Or.inl (hseen.2.resolve_right Bool.false_ne_true)

/-! ## The steps -/

lemma Inv.enqueueTxn (txn : Txn) : (s.enqueueTxn home txn).Inv home := by
  unfold System.enqueueTxn
  split
  · next pt hpt =>
      apply h.setPendingTxn
      rintro _ ⟨⟩ j hj
      exact ⟨pt, hpt, hj⟩
  apply h.setPendingTxn
  rintro _ ⟨⟩ j hj
  cases hj

lemma Inv.updateTxn (txn : Txn) : (s.updateTxn home txn).Inv home := by
  have hrelease : (s.releaseWaitingQueries txn.id).Inv home := h.releaseWaiting _
  unfold System.updateTxn
  dsimp only
  split
  · exact hrelease
  apply Inv.sendPending
  apply hrelease.setPendingTxn
  rintro _ ⟨⟩

lemma Inv.clear (r : RangeID) (disable : Bool) : (s.clear home r disable).Inv home := by
  have hqueues : Inv home
      { s with
        queues := Function.update s.queues r (if disable then none else some fun _ => none) } := by
    refine h.shrink rfl ?_
    intro t pt j hpt hj
    unfold pendingTxn at hpt ⊢
    by_cases hr : home t = r
    · rw [hr] at hpt
      simp only [update_self] at hpt
      split_ifs at hpt <;> cases hpt
    simp only [update_of_ne hr] at hpt
    exact ⟨pt, hpt, hj⟩
  refine hqueues.mapPushes ?_
  intro k p
  dsimp only
  split_ifs
  · exact released_spec { p with pending := some none } _
  · exact released_spec p _

lemma Inv.enable (r : RangeID) : (s.enable r).Inv home := by
  refine h.shrink rfl ?_
  intro t pt j hpt hj
  unfold pendingTxn System.enable at hpt
  unfold pendingTxn
  by_cases hr : home t = r
  · rw [hr] at hpt ⊢
    simp only [update_self, Option.bind_some] at hpt
    cases hq : s.queues r with
    | none => simp [hq] at hpt
    | some txns =>
      rw [hq] at hpt
      exact ⟨pt, hpt, hj⟩
  · simp only [update_of_ne hr] at hpt
    exact ⟨pt, hpt, hj⟩

lemma Inv.maybeWaitForPush (hk : s.pushes k = none) (req : PushTxnRequest) :
    (s.maybeWaitForPush home k req).Inv home := by
  unfold System.maybeWaitForPush
  split_ifs
  · exact h
  split
  · exact h
  next pt hpt =>
    split_ifs
    · exact h
    have hquiet := quiet_releaseWaitingQueries ((s.setPush k (.new req)).setPendingTxn home
      req.pusheeTxn.id (some { pt with waitingPushes := pt.waitingPushes ++ [k] }))
      req.pusheeTxn.id
    apply h.of_changes
    · intro j q hq
      obtain ⟨q0, hq0, rfl⟩ := Option.map_eq_some_iff.mp hq
      rw [pushes_setPendingTxn, pushes_setPush] at hq0
      split_ifs at hq0 with hjk
      · cases hq0
        subst hjk
        refine Or.inr ⟨hk, ?_, ?_⟩
        · unfold released Push.new
          split_ifs <;> rfl
        unfold released Push.new
        split_ifs <;> simp [QueryPhase.known]
      · exact Or.inl ⟨q0, hq0, .of_stop (h.known j q0 hq0) (released_spec q0 _)⟩
    intro t pt' j hpt' hj
    have hrelease : ∀ q0, (s.setPush k (.new req)).pushes j = some q0 →
        q0.req.pusheeTxn.id = t →
        ∃ q, (((s.setPush k (.new req)).setPendingTxn home req.pusheeTxn.id
          (some { pt with waitingPushes := pt.waitingPushes ++ [k] })).releaseWaitingQueries
            req.pusheeTxn.id).pushes j = some q ∧ q.req.pusheeTxn.id = t := by
      intro q0 hq0 hpushee
      refine ⟨_, Option.map_eq_some_iff.mpr ⟨q0, hq0, rfl⟩, ?_⟩
      rw [(released_spec q0 _).1]
      exact hpushee
    have hold : ∀ pt0, s.pendingTxn home t = some pt0 → j ∈ pt0.waitingPushes →
        ∃ q0, (s.setPush k (.new req)).pushes j = some q0 ∧ q0.req.pusheeTxn.id = t := by
      intro pt0 hpt0 hj
      obtain ⟨q0, hq0, hpushee⟩ := h.pushee t pt0 j hpt0 hj
      refine ⟨q0, ?_, hpushee⟩
      rw [pushes_setPush, if_neg, hq0]
      rintro rfl
      rw [hk] at hq0
      cases hq0
    rw [pendingTxn_releaseWaitingQueries, pendingTxn_setPendingTxn] at hpt'
    split_ifs at hpt' with ht
    · subst ht
      refine ⟨?_, Or.inr hquiet⟩
      obtain ⟨_, _, hpt'⟩ := Option.bind_eq_some_iff.mp hpt'
      cases hpt'
      rcases mem_append.mp hj with hj | hj
      · obtain ⟨q0, hq0, hpushee⟩ := hold pt hpt hj
        exact hrelease q0 hq0 hpushee
      rw [mem_singleton] at hj
      subst hj
      refine hrelease (.new req) ?_ rfl
      rw [pushes_setPush, if_pos rfl]
    · obtain ⟨q0, hq0, hpushee⟩ := hold pt' hpt' hj
      exact ⟨hrelease q0 hq0 hpushee, Or.inl ⟨pt', hpt', hj⟩⟩

lemma Inv.finish (hp : s.pushes k = some p) (hreq : p'.req = p.req) :
    (s.finish home k p').Inv home := by
  have hentries : ∀ t pt j, (s.finish home k p').pendingTxn home t = some pt →
      j ∈ pt.waitingPushes → j ≠ k ∧ ∃ pt0, s.pendingTxn home t = some pt0 ∧
        j ∈ pt0.waitingPushes := by
    intro t pt j hpt hj
    have hother : ∀ pt0, s.pendingTxn home t = some pt0 → j ∈ pt0.waitingPushes →
        t ≠ p'.req.pusheeTxn.id → j ≠ k := by
      rintro pt0 hpt0 hj hne rfl
      obtain ⟨q, hq, hpushee⟩ := h.pushee t pt0 j hpt0 hj
      rw [hp] at hq
      cases hq
      rw [hreq] at hne
      exact hne hpushee.symm
    unfold System.finish at hpt
    dsimp only at hpt
    split at hpt
    · next hnone =>
        rw [pendingTxn_setPush] at hpt hnone
        refine ⟨hother pt hpt hj ?_, pt, hpt, hj⟩
        rintro rfl
        rw [hpt] at hnone
        cases hnone
    next pt0 hpt0 =>
      rw [pendingTxn_setPush] at hpt0
      rw [pendingTxn_setPendingTxn, pendingTxn_setPush] at hpt
      split_ifs at hpt with ht
      · obtain ⟨_, _, hpt⟩ := Option.bind_eq_some_iff.mp hpt
        cases hpt
        obtain ⟨hj, hne⟩ := mem_filter.mp hj
        exact ⟨by simpa using hne, pt0, ht ▸ hpt0, hj⟩
      · exact ⟨hother pt hpt hj ht, pt, hpt, hj⟩
  apply h.of_changes
  · intro j q hq
    rw [pushes_finish, pushes_setPush] at hq
    split_ifs at hq with hjk
    · cases hq
      subst hjk
      refine Or.inl ⟨p, hp, hreq, nofun, Finset.empty_subset _, Or.inr (Or.inr (Or.inr ?_))⟩
      intro pt hpt hj
      exact (hentries _ pt j hpt hj).1 rfl
    · exact Or.inl ⟨q, hq, .of_eq (h.known j q hq) rfl rfl rfl⟩
  intro t pt j hpt hj
  obtain ⟨hne, pt0, hpt0, hj0⟩ := hentries t pt j hpt hj
  obtain ⟨q, hq, hpushee⟩ := h.pushee t pt0 j hpt0 hj0
  refine ⟨⟨q, ?_, hpushee⟩, Or.inl ⟨pt0, hpt0, hj0⟩⟩
  rw [pushes_finish, pushes_setPush, if_neg hne, hq]

end

lemma exists_pushes_updateTxn (home : TxnID → RangeID) (s : System) (txn : Txn) (k : PushID) :
    ∃ pending : Push → Option (Option Txn), (s.updateTxn home txn).pushes k =
      (s.pushes k).map fun p =>
        { released p (fun u => decide (u = txn.id)) with pending := pending p } := by
  unfold System.updateTxn
  dsimp only
  split
  · exact ⟨fun p => (released p fun u => decide (u = txn.id)).pending, rfl⟩
  next pt _ =>
    unfold System.sendPending
    dsimp only
    by_cases hk : k ∈ pt.waitingPushes
    · rw [if_pos hk]
      exact ⟨fun _ => some (some txn), Option.map_map _ _ _⟩
    rw [if_neg hk]
    exact ⟨fun p => (released p fun u => decide (u = txn.id)).pending, rfl⟩

lemma Inv.storePushee (h : s.Inv home) (k : PushID) (t : TxnID) (txn : Txn) :
    (s.storePushee home k t txn).Inv home := by
  unfold System.storePushee
  split
  · next pt hpt =>
      split_ifs
      · apply h.setPendingTxn
        rintro _ ⟨⟩ j hj
        exact ⟨pt, hpt, hj⟩
      · exact h
  · exact h

lemma Inv.handlePushee (h : s.Inv home) {txnLivenessThreshold : ℤ} (hp : s.pushes k = some p)
    (updatedPushee : Txn) (now : Timestamp) :
    (s.handlePushee home txnLivenessThreshold k p updatedPushee now).Inv home := by
  have hstore := h.storePushee k p.req.pusheeTxn.id updatedPushee
  have hp : (s.storePushee home k p.req.pusheeTxn.id updatedPushee).pushes k = some p := by
    rw [pushes_storePushee, hp]
  unfold System.handlePushee
  split_ifs
  · obtain ⟨pending, heq⟩ := exists_pushes_updateTxn home _ updatedPushee k
    rw [hp] at heq
    exact (hstore.updateTxn updatedPushee).finish heq (released_spec p _).1.symm
  · exact hstore.finish hp rfl
  · exact hstore.finish hp rfl
  · exact hstore.setPush_same hp rfl rfl rfl

lemma Inv.handlePusher (h : s.Inv home) (hp : s.pushes k = some p)
    (hquery : p.query = .updated known) : (s.handlePusher home k p known).Inv home := by
  have hrelease : (s.releaseWaitingQueries p.req.pusheeTxn.id).Inv home := h.releaseWaiting _
  have hp1 : (s.releaseWaitingQueries p.req.pusheeTxn.id).pushes k = some p := by
    show (s.pushes k).map _ = _
    rw [hp]
    simp only [Option.map_some, released, hquery]
  have hkept : ∀ p', p'.req = p.req → p'.query.isWaiting = false → p'.query.known ⊆ p'.dependents →
      Kept home ((s.releaseWaitingQueries p.req.pusheeTxn.id).setPush k p') k p p' := by
    intro p' hreq hwaiting hknown
    refine ⟨hreq, ?_, hknown, Or.inr (Or.inr (Or.inl ?_))⟩
    · rw [hwaiting]
      exact nofun
    · exact (quiet_releaseWaitingQueries s _).setPush hwaiting
  have hknown := h.known k p hp
  rw [hquery] at hknown
  unfold System.handlePusher
  dsimp only
  split_ifs
  · exact h.finish hp rfl
  · exact hrelease.setPush hp1 (hkept _ rfl rfl (Finset.empty_subset _))
  · exact hrelease.setPush hp1 (hkept _ rfl rfl hknown)

lemma Inv.deliverQuery (h : s.Inv home) (hp : s.pushes k = some p)
    (hquery : p.query = .sent known) :
    (s.setPush k { p with query := s.maybeWaitForQuery home p known }).Inv home := by
  have hproceed : (s.setPush k { p with query := .proceed }).Inv home := by
    apply h.setPush hp
    exact .of_query (by rw [hquery]; rfl) rfl (Finset.empty_subset _)
  unfold System.maybeWaitForQuery
  split
  · exact hproceed
  next txns htxns =>
    split
    · next pt hpt =>
        split_ifs with hupdated
        · exact hproceed
        apply h.register hp hquery
        intro pt' hpt'
        unfold pendingTxn at hpt'
        rw [htxns, Option.bind_some, hpt] at hpt'
        cases hpt'
        exact eq_of_isTxnUpdated (by simpa using hupdated)
    next hnone =>
      apply h.register hp hquery
      intro pt' hpt'
      unfold pendingTxn at hpt'
      rw [htxns, Option.bind_some, hnone] at hpt'
      cases hpt'

lemma inv_initial : System.initial.Inv home where
  pushee := by
    intro t pt j hpt
    cases hpt
  known := by
    intro k p hp
    cases hp
  seen := by
    intro k p hp
    cases hp

lemma Inv.step {txnLivenessThreshold : ℤ} {e : Event} (h : s.Inv home)
    (hstep : s.step home txnLivenessThreshold e = some s') : s'.Inv home := by
  cases step_cases hstep with
  | idle => exact h
  | join hk => exact h.maybeWaitForPush hk _
  | enqueueTxn => exact h.enqueueTxn _
  | updateTxn => exact h.updateTxn _
  | clear => exact h.clear _ _
  | enable => exact h.enable _
  | writeRecord => exact h.shrink rfl fun t pt j hpt hj => ⟨pt, hpt, hj⟩
  | giveUp hp | receivePending hp => exact h.finish hp rfl
  | fireTimer hp | answerPushee hp => exact h.setPush_same hp rfl rfl rfl
  | handlePushee hp => exact h.handlePushee hp _ _
  | deliverQuery hp hquery => exact h.deliverQuery hp hquery
  | endMaxWait hp hquery | answerQuery hp hquery =>
    apply h.setPush hp
    exact .of_query (by rw [hquery]; rfl) rfl (Finset.empty_subset _)
  | receiveAnswer hp =>
    apply h.setPush hp
    exact ⟨rfl, nofun, Finset.subset_union_right, Or.inr (Or.inl rfl)⟩
  | handlePusher hp hquery => exact h.handlePusher hp hquery
  | forced hp => exact h.finish hp rfl

end System
end MeshDB.Txnwait
