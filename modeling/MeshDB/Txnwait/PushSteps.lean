import MeshDB.Txnwait.WaitInvariant

/-!
# The life of a push

What one step of the system can do to one push, and what a waiting push knows of the priorities
of its pusher and its pushee.
-/
namespace MeshDB.Txnwait

open Option Roachpb Hlc Txn
variable {home : TxnID → RangeID} {txnLivenessThreshold : ℤ} {s s' : System} {e : Event}
  {k : PushID} {p p' : Push}

def LoopPhase.isWaiting : LoopPhase → Bool
  | .forcing | .done => false
  | _ => true

namespace System

/-! ## Steps -/

section
variable (home : TxnID → RangeID) (s s' : System)

inductive Change (p : Push) : Push → Prop where
  /-- A query that waits may be let go. -/
  | other {query pending} (hquery : query = p.query ∨ query = .proceed ∧ p.query.isWaiting) :
      Change p { p with query := query, pending := pending }
  /-- The push waits no longer. -/
  | ended {q : Push} (hloop : q.loop.isWaiting = false) : Change p q
  | fireTimer (hloop : p.loop = .selecting) : Change p { p with loop := .queryingPushee }
  | answerPushee {canCreate minCommitTS} (hloop : p.loop = .queryingPushee) :
      Change p { p with
        loop := .pusheeAnswered (s.queryTxn p.req.pusheeTxn canCreate minCommitTS) }
  | handlePushee {txn} (hloop : p.loop = .pusheeAnswered txn) :
      Change p { p with pusheePriority := txn.priority, loop := .selecting }
  | deliverQuery {known} (hquery : p.query = .sent known) :
      Change p { p with query := s.maybeWaitForQuery home p known }
  | answerQuery {canCreate minCommitTS} (hquery : p.query = .proceed) :
      Change p { p with
        query := .answered (s.queryTxn p.pusher.view canCreate minCommitTS)
          (s.getDependents home p.req.pusherTxn.id) }
  | receiveAnswer {txn dependents pusher} (hquery : p.query = .answered txn dependents)
      (hpusher : p.pusher.update txn = some pusher) :
      Change p { p with
        dependents := p.dependents ∪ dependents
        pusher := pusher
        query := .updated dependents }
  /-- No deadlock, or the pusher does not break it. -/
  | handlePusher {known} (hquery : p.query = .updated known) (hloop : p.loop = .selecting)
      (hbreaks : breaksDeadlock
        { p with pusherPriority := max p.pusherPriority p.pusher.priority } = false)
      (hquiet : Quiet s' p.req.pusheeTxn.id) :
      Change p { p with
        pusherPriority := max p.pusherPriority p.pusher.priority
        query := .sent known }

/-- What a step does to the push of an id, which may not be there yet. -/
inductive Moves : Option Push → Option Push → Prop where
  | absent : Moves none none
  | new {req} : Moves none (some (.new req))
  | change {p p' : Push} (h : Change home s s' p p') : Moves (some p) (some p')

end

lemma Change.pending {f : TxnID → Bool} {pending : Option (Option Txn)} :
    Change home s s' p { System.released p f with pending := pending } := by
  unfold System.released
  split
  · next hquery =>
      split_ifs
      · exact .other (.inr ⟨rfl, by rw [hquery]; rfl⟩)
      · exact .other (.inl rfl)
  · exact .other (.inl rfl)

lemma Change.released {f : TxnID → Bool} : Change home s s' p (System.released p f) :=
  @Change.pending home s s' p f (System.released p f).pending

variable {s₁ : System} {j : PushID} {q q' : Push} {txn : Txn} {req : PushTxnRequest}
  {canCreate : Bool} {ts : Timestamp} {a : ℕ} {o : Option Push}

lemma Moves.map {f : Push → Push} (h : ∀ p, Change home s s' p (f p)) :
    Moves home s s' o (o.map f) := by
  cases o with
  | none => exact .absent
  | some p => exact .change (h p)

lemma Moves.same : Moves home s s' o o := by
  cases o with
  | none => exact .absent
  | some p => exact .change (.other (.inl rfl))

lemma moves_setPush (h : Moves home s s' (s.pushes k) (s₁.pushes k)) (hq : s.pushes j = some q)
    (hchange : Change home s s' q q') :
    Moves home s s' (s.pushes k) ((s₁.setPush j q').pushes k) := by
  rw [pushes_setPush]
  split_ifs with hkj
  · rw [hkj, hq]
    exact .change hchange
  · exact h

lemma moves_finish (h : Moves home s s' (s.pushes k) (s₁.pushes k)) (hq : s.pushes j = some q) :
    Moves home s s' (s.pushes k) ((s₁.finish home j q').pushes k) := by
  rw [pushes_finish]
  exact moves_setPush h hq (.ended rfl)

lemma moves_updateTxn : Moves home s s' (s₁.pushes k) ((s₁.updateTxn home txn).pushes k) := by
  obtain ⟨pending, heq⟩ := exists_pushes_updateTxn home s₁ txn k
  rw [heq]
  exact .map fun p => .pending

lemma moves_maybeWaitForPush (hj : s.pushes j = none) :
    Moves home s s' (s.pushes k) ((s.maybeWaitForPush home j req).pushes k) := by
  unfold System.maybeWaitForPush
  split_ifs
  · exact .same
  split
  · exact .same
  split_ifs
  · exact .same
  show Moves home s s' _ (((s.setPush j (.new req)).pushes k).map _)
  rw [pushes_setPush]
  split_ifs with hkj
  · have hnew : released (.new req) (fun u => decide (u = req.pusheeTxn.id)) = .new req := by
      unfold released Push.new
      split_ifs <;> rfl
    rw [hkj, hj, map_some, hnew]
    exact .new
  · exact .map fun p => .released

lemma moves_clear {r : RangeID} {disable : Bool} :
    Moves home s s' (s.pushes k) ((s.clear home r disable).pushes k) := by
  apply Moves.map
  intro p
  dsimp only
  split_ifs
  · have heq : ∀ f, released { p with pending := some none } f =
        { released p f with pending := some none } := by
      intro f
      unfold released
      dsimp only
      repeat' split
      all_goals rfl
    rw [heq]
    exact .pending
  · exact .released

lemma moves_handlePushee {now : Timestamp} (hq : s.pushes j = some q)
    (hloop : q.loop = .pusheeAnswered txn) :
    Moves home s s' (s.pushes k)
      ((s.handlePushee home txnLivenessThreshold j q txn now).pushes k) := by
  have hstore : Moves home s s' (s.pushes k)
      ((s.storePushee home j q.req.pusheeTxn.id txn).pushes k) := by
    rw [pushes_storePushee]
    exact .same
  unfold System.handlePushee
  split_ifs
  · refine moves_finish ?_ hq
    rw [← pushes_storePushee (s := s)]
    exact moves_updateTxn
  · exact moves_finish hstore hq
  · exact moves_finish hstore hq
  · exact moves_setPush hstore hq (.handlePushee hloop)

lemma moves_handlePusher {known : Finset TxnID} (hq : s.pushes j = some q)
    (hquery : q.query = .updated known) (hloop : q.loop = .selecting) :
    Moves home s (s.handlePusher home j q known) (s.pushes k)
      ((s.handlePusher home j q known).pushes k) := by
  unfold System.handlePusher
  dsimp only
  split_ifs with _ hbreaks
  · exact moves_finish .same hq
  · exact moves_setPush (.map fun p => .released) hq (.ended rfl)
  refine moves_setPush (.map fun p => .released) hq ?_
  refine .handlePusher hquery hloop (by simpa using hbreaks) ?_
  exact (quiet_releaseWaitingQueries s _).setPush rfl

section
variable (hstep : s.step home txnLivenessThreshold e = some s')
include hstep

lemma moves_of_step : Moves home s s' (s.pushes k) (s'.pushes k) := by
  cases step_cases hstep with
  | idle => exact .same
  | join hj => exact moves_maybeWaitForPush hj
  | enqueueTxn =>
    rw [pushes_enqueueTxn]
    exact .same
  | updateTxn => exact moves_updateTxn
  | clear => exact moves_clear
  | enable | writeRecord => exact .same
  | giveUp hq | receivePending hq => exact moves_finish .same hq
  | fireTimer hq hloop => exact moves_setPush .same hq (.fireTimer hloop)
  | answerPushee hq hloop => exact moves_setPush .same hq (.answerPushee hloop)
  | handlePushee hq hloop => exact moves_handlePushee hq hloop
  | deliverQuery hq hquery => exact moves_setPush .same hq (.deliverQuery hquery)
  | endMaxWait hq hquery =>
    exact moves_setPush .same hq (.other (.inr ⟨rfl, by rw [hquery]; rfl⟩))
  | answerQuery hq hquery => exact moves_setPush .same hq (.answerQuery hquery)
  | receiveAnswer hq hquery hpusher =>
    exact moves_setPush .same hq (.receiveAnswer hquery hpusher)
  | handlePusher hq hquery hloop => exact moves_handlePusher hq hquery hloop
  | forced hq => exact moves_finish .same hq

lemma change_of_step
    (hp : s.pushes k = some p) : ∃ p', s'.pushes k = some p' ∧ Change home s s' p p' := by
  have hmoves := moves_of_step (k := k) hstep
  rw [hp] at hmoves
  cases hp' : s'.pushes k <;> rw [hp'] at hmoves <;> cases hmoves
  next h => exact ⟨_, rfl, h⟩

lemma new_of_step
    (hk : s.pushes k = none) (hp' : s'.pushes k = some p') : ∃ req, p' = .new req := by
  have hmoves := moves_of_step (k := k) hstep
  rw [hk, hp'] at hmoves
  cases hmoves
  exact ⟨_, rfl⟩

end

/-! ## Priorities -/

/-- A view of the pushee may be out of date, but priorities only rise; the pusher finds its own one.
-/
structure Views (priority : TxnID → ℕ) (s : System) (p : Push) : Prop where
  pushee : p.req.pusheeTxn.priority ≤ priority p.req.pusheeTxn.id
  pusheeRecord : ∀ record, s.records p.req.pusheeTxn.id = some record →
    record.priority ≤ priority p.req.pusheeTxn.id
  pusher : priority p.req.pusherTxn.id ≤ upgradePriority p.req.pusherTxn.priority
    ((s.records p.req.pusherTxn.id).elim p.req.pusherTxn.priority Txn.priority)

/-- The pusher is behind its pushee in the order by which deadlocks are broken. -/
def Behind (priority : TxnID → ℕ) (p : Push) : Prop :=
  toLex (priority p.req.pusherTxn.id, p.req.pusherTxn.id) ≤
    toLex (priority p.req.pusheeTxn.id, p.req.pusheeTxn.id)

/-- What a waiting push has learnt of the priorities. -/
structure Sound (priority : TxnID → ℕ) (p : Push) : Prop where
  pusheePriority : p.pusheePriority ≤ priority p.req.pusheeTxn.id
  pusheeAnswered : ∀ txn, p.loop = .pusheeAnswered txn → txn.priority ≤ priority p.req.pusheeTxn.id
  id : p.pusher.id = p.req.pusherTxn.id
  own : p.req.pusherTxn.priority ≤ p.pusher.priority
  answered : ∀ txn dependents, p.query = .answered txn dependents →
    priority p.req.pusherTxn.id ≤ upgradePriority p.pusher.priority txn.priority
  updated : p.query.isUpdated → priority p.req.pusherTxn.id ≤ p.pusher.priority
  /-- A push that has seen the deadlock and still waits is not the one to break it. -/
  behind : p.req.pusheeTxn.id ∈ p.dependents → p.query.isUpdated = false → Behind priority p

variable {priority : TxnID → ℕ}

lemma Sound.new (hviews : Views priority s (.new req)) : Sound priority (.new req) where
  pusheePriority := hviews.pushee
  pusheeAnswered := by
    intro txn hloop
    cases hloop
  id := rfl
  own := le_rfl
  answered := by
    intro txn dependents hquery
    unfold Push.new at hquery
    split_ifs at hquery
  updated := by
    intro hupdated
    unfold Push.new at hupdated
    split_ifs at hupdated <;> cases hupdated
  behind := by
    intro hmem
    cases hmem

lemma priority_synthesizeTxnFromMeta {txn : TxnView} :
    (synthesizeTxnFromMeta txn canCreate ts).priority = txn.priority := by
  unfold synthesizeTxnFromMeta
  split_ifs <;> rfl

lemma Views.queryTxn_pushee (h : Views priority s p) :
    (s.queryTxn p.req.pusheeTxn canCreate ts).priority ≤ priority p.req.pusheeTxn.id := by
  unfold queryTxn
  split
  · next record hrecord => exact h.pusheeRecord record hrecord
  rw [priority_synthesizeTxnFromMeta]
  exact h.pushee

lemma upgradePriority_mono {b c : ℕ} (hle : a ≤ b) :
    upgradePriority a c ≤ upgradePriority b c := by
  unfold upgradePriority minTxnPriority
  split_ifs <;> omega

lemma le_upgradePriority {b : ℕ} : a ≤ upgradePriority a b := by
  unfold upgradePriority
  split_ifs <;> omega

lemma upgradePriority_self : upgradePriority a a = a := by
  simp [upgradePriority]

lemma Sound.queryTxn_pusher (h : Sound priority p) (hviews : Views priority s p) :
    priority p.req.pusherTxn.id ≤ upgradePriority p.pusher.priority
      (s.queryTxn p.pusher.view canCreate ts).priority := by
  have hown := hviews.pusher
  have hid : p.pusher.view.id = p.req.pusherTxn.id := h.id
  unfold queryTxn
  rw [hid]
  cases hrecord : s.records p.req.pusherTxn.id with
  | some record =>
    rw [hrecord] at hown
    exact hown.trans (upgradePriority_mono h.own)
  | none =>
    rw [hrecord, elim_none, upgradePriority_self] at hown
    rw [priority_synthesizeTxnFromMeta]
    exact (hown.trans h.own).trans le_upgradePriority

lemma behind_of_breaksDeadlock (hpushee : p.pusheePriority ≤ priority p.req.pusheeTxn.id)
    (hpusher : priority p.req.pusherTxn.id ≤ p.pusherPriority)
    (hmem : p.req.pusheeTxn.id ∈ p.dependents) (h : breaksDeadlock p = false) :
    Behind priority p := by
  unfold breaksDeadlock at h
  simp only [hmem, decide_true, Bool.true_and, Bool.or_eq_false_iff, Bool.and_eq_false_iff,
    decide_eq_false_iff_not] at h
  rw [Behind, Prod.Lex.toLex_le_toLex]
  have hle : p.pusherPriority ≤ p.pusheePriority := not_lt.mp h.1
  rcases ((hpusher.trans hle).trans hpushee).lt_or_eq with hlt | heq
  · exact .inl hlt
  refine .inr ⟨heq, not_lt.mp (h.2.resolve_left ?_)⟩
  exact not_not.mpr (le_antisymm (hpushee.trans (heq.ge.trans hpusher)) hle)

lemma update_id {t o u : Txn} (h : t.update o = some u) : u.id = t.id := by
  obtain ⟨u', hu', rfl⟩ := map_eq_some_iff.mp h
  have hepoch : (t.updateEpochState o.toTransaction).id = t.id := by
    unfold Transaction.updateEpochState
    split_ifs <;> rfl
  unfold Transaction.update at hu'
  by_cases hid : t.id ≠ o.id
  · rw [if_pos hid] at hu'
    cases hu'
  rw [if_neg hid] at hu'
  cases hu'
  exact hepoch

lemma update_priority {t o u : Txn} (h : t.update o = some u) :
    u.priority = upgradePriority t.priority o.priority := by
  obtain ⟨u', _, rfl⟩ := map_eq_some_iff.mp h
  rfl

lemma Sound.setQuery (h : Sound priority p) {query : QueryPhase}
    {pending : Option (Option Txn)} (hold : p.query.isUpdated = false)
    (hupdated : query.isUpdated = false)
    (hanswered : ∀ txn dependents, query = .answered txn dependents →
      priority p.req.pusherTxn.id ≤ upgradePriority p.pusher.priority txn.priority) :
    Sound priority { p with query := query, pending := pending } :=
  { h with
    answered := hanswered
    updated := by simp [hupdated]
    behind := fun hmem _ => h.behind hmem hold }

lemma Sound.change (h : Sound priority p) (hviews : Views priority s p)
    (hchange : Change home s s' p p') (hwaiting : p'.loop.isWaiting) :
    Sound priority p' := by
  cases hchange with
  | other hquery =>
    rcases hquery with rfl | ⟨rfl, hquery⟩
    · exact { h with }
    apply h.setQuery
    · cases hq : p.query <;> rw [hq] at hquery <;> cases hquery
      rfl
    · rfl
    intro txn dependents hanswered
    cases hanswered
  | ended hloop => simp [hwaiting] at hloop
  | fireTimer hloop => exact { h with pusheeAnswered := by simp }
  | answerPushee hloop =>
    refine { h with pusheeAnswered := ?_ }
    intro txn hanswered
    cases hanswered
    exact hviews.queryTxn_pushee
  | handlePushee hloop =>
    exact { h with
      pusheePriority := h.pusheeAnswered _ hloop
      pusheeAnswered := by simp }
  | deliverQuery hquery =>
    apply h.setQuery
    · rw [hquery]
      rfl
    · unfold maybeWaitForQuery
      repeat' split
      all_goals rfl
    intro txn dependents hanswered
    unfold maybeWaitForQuery at hanswered
    repeat' split at hanswered
    all_goals cases hanswered
  | answerQuery hquery =>
    apply h.setQuery
    · rw [hquery]
      rfl
    · rfl
    intro txn dependents hanswered
    cases hanswered
    exact h.queryTxn_pusher hviews
  | receiveAnswer hquery hpusher =>
    have hpriority := update_priority hpusher
    exact { h with
      id := (update_id hpusher).trans h.id
      own := hpriority ▸ h.own.trans le_upgradePriority
      answered := by simp
      updated := fun _ => hpriority ▸ h.answered _ _ hquery
      behind := fun _ hupdated => by cases hupdated }
  | handlePusher hquery hloop hbreaks =>
    refine { h with
      answered := by simp
      updated := fun hupdated => by cases hupdated
      behind := fun hmem _ => ?_ }
    have hpusher := h.updated (by rw [hquery]; rfl)
    exact behind_of_breaksDeadlock h.pusheePriority (le_max_of_le_right hpusher) hmem hbreaks

end System
end MeshDB.Txnwait
