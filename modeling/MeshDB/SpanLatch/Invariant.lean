import MeshDB.SpanLatch.Bookkeeping

/-!
# The invariant of the latch manager

Guards are numbered in the order in which they take the mutex. A conflicting latch of an earlier
guard that is not yet released is still to be awaited: a waiting request has to get past it, or it
is in the snapshot that an optimistic request retained.
-/
namespace MeshDB.SpanLatch

open Spanset Transition List Option Request

/-! ## Conflicts -/

/-- A read with a timestamp strictly below that of the other latch. -/
def ReadBelow (a : SpanAccess) (la la' : Latch) : Prop :=
  a = .spanReadOnly ∧ la.ts.isEmpty = false ∧ la.ts.less la'.ts

def Conflicts (a : SpanAccess) (la : Latch) (a' : SpanAccess) (la' : Latch) : Prop :=
  spansOverlap la.span la'.span ∧ (a = .spanReadWrite ∨ a' = .spanReadWrite) ∧
    ¬ ReadBelow a la la' ∧ ¬ ReadBelow a' la' la

lemma spansOverlap_comm (a b : Roachpb.Span) : spansOverlap a b = spansOverlap b a := by
  simp [spansOverlap, Bool.and_comm]

variable {a a' : SpanAccess} {la la' : Latch} {snap : Snapshot} {s : SpanScope} {spans : SpanSet}
  {r r' : Request} {st st' : State} {g : GuardId} {pp : Policy}

lemma Conflicts.search (h : Conflicts a la a' la') :
    ∃ ignore, (a, ignore) ∈ searches a' ∧ ignore la'.ts la.ts = false := by
  obtain ⟨-, hwrite, hbelow, hbelow'⟩ := h
  cases a' with
  | spanReadOnly =>
    have ha : a = .spanReadWrite := by simpa using hwrite
    subst ha
    refine ⟨ignoreLater, by simp [searches], ?_⟩
    simp only [ReadBelow, true_and, not_and, Bool.not_eq_true] at hbelow'
    cases hempty : la'.ts.isEmpty with
    | true => simp [ignoreLater, hempty]
    | false => simp [ignoreLater, hbelow' hempty]
  | spanReadWrite =>
    cases a with
    | spanReadOnly =>
      refine ⟨ignoreEarlier, by simp [searches], ?_⟩
      simp only [ReadBelow, true_and, not_and, Bool.not_eq_true] at hbelow
      cases hempty : la.ts.isEmpty with
      | true => simp [ignoreEarlier, hempty]
      | false => simp [ignoreEarlier, hbelow hempty]
    | spanReadWrite => exact ⟨ignoreNothing, by simp [searches], rfl⟩

lemma mem_overlapping {t : Btree} {sp : Roachpb.Span} :
    la ∈ t.overlapping sp ↔ la ∈ t ∧ spansOverlap sp la.span := by
  simp [Btree.overlapping]

variable {latches : LatchTable}

lemma mem_waitItems {item : WaitItem} :
    item ∈ waitItems latches snap ↔ ∃ s a, ∃ la ∈ latches s a, ∃ a' ignore,
      (a', ignore) ∈ searches a ∧ item.held ∈ snap.trees s a' ∧
      spansOverlap la.span item.held.span ∧ item.ignored = ignore la.ts item.held.ts := by
  simp only [waitItems, mem_flatMap, List.mem_map, mem_overlapping]
  constructor
  · rintro ⟨⟨s, a⟩, -, la, hla, ⟨a', ignore⟩, hsearch, held, ⟨hheld, hov⟩, rfl⟩
    exact ⟨s, a, la, hla, a', ignore, hsearch, hheld, hov, rfl⟩
  rintro ⟨s, a, la, hla, a', ignore, hsearch, hheld, hov, hign⟩
  exact ⟨(s, a), mem_scopeAccesses s a, la, hla, (a', ignore), hsearch, item.held,
    ⟨hheld, hov⟩, congrArg (WaitItem.mk item.held) hign.symm⟩

lemma held_of_mem_waitItems {item : WaitItem} (h : item ∈ waitItems latches snap) :
    ∃ s a, item.held ∈ snap.trees s a := by
  obtain ⟨s, a, la, -, a', ignore, -, hheld, -⟩ := mem_waitItems.mp h
  exact ⟨s, a', hheld⟩

lemma exists_waitItem (hla' : la' ∈ latches s a') (hla : la ∈ snap.trees s a)
    (h : Conflicts a la a' la') :
    ∃ item ∈ waitItems latches snap, item.held = la ∧ item.ignored = false := by
  obtain ⟨ignore, hsearch, hignore⟩ := h.search
  refine ⟨⟨la, false⟩, mem_waitItems.mpr ?_, rfl, rfl⟩
  have hov : spansOverlap la'.span la.span := by
    rw [spansOverlap_comm]
    exact h.1
  exact ⟨s, a', la', hla', a, ignore, hsearch, hla, hov, hignore.symm⟩

lemma check_false_of_conflict {lg : Guard} (hdecl : lg.declares spans)
    (hla' : la' ∈ lg.latches s a') (hla : la ∈ snap.trees s a) (h : Conflicts a la a' la') :
    checkOptimisticNoConflicts snap spans = false := by
  rw [← Bool.not_eq_true]
  intro hcheck
  obtain ⟨ignore, hsearch, hignore⟩ := h.search
  simp only [Guard.declares, List.all_eq_true, decide_eq_true_eq] at hdecl
  have hspans := hdecl (s, a') (mem_scopeAccesses s a')
  simp only [checkOptimisticNoConflicts, List.all_eq_true, mem_overlapping] at hcheck
  have hov : spansOverlap la'.span la.span := by
    rw [spansOverlap_comm]
    exact h.1
  have hmem : ⟨la'.span, la'.ts⟩ ∈ spans.getSpans a' s := by
    rw [hspans]
    exact List.mem_map.mpr ⟨la', hla', rfl⟩
  have htrue := hcheck (s, a') (mem_scopeAccesses s a') _ hmem (a, ignore) hsearch la ⟨hla, hov⟩
  exact Bool.false_ne_true (hignore.symm.trans htrue)

/-! ## The invariant -/

def Request.inserted (r : Request) : Bool :=
  match r.phase with
  | .waiting .waitFor _ => false
  | .waiting _ _ => true
  | .acquired => true
  | .optimistic => true
  | .failed => true
  | .releasing => true
  | .removed => false
  | .returned => false

def State.contents (st : State) : Contents :=
  fun s a la => ∃ g r, st.requests g = some r ∧ r.inserted ∧ la ∈ r.guard.latches s a

structure Request.Wf (g : GuardId) (r : Request) : Prop where
  latch_guard : ∀ s a, ∀ la ∈ r.guard.latches s a, la.guard = g
  latches_nodup : r.inserted → ∀ s a, (r.guard.latches s a).Nodup
  todo_before : ∀ kind todo, r.phase = .waiting kind todo → ∀ item ∈ todo, item.held.guard < g
  snap_before : ∀ snap, r.guard.snap = some snap → ∀ s a, ∀ la ∈ snap.trees s a, la.guard < g
  done_iff : r.guard.done ↔ r.phase = .releasing ∨ r.phase = .removed
  checked_inserted : r.checked → r.guard.done = false → r.inserted

/-- The request has still to wait for `la` or to find it, or has failed or is over. -/
def Request.Awaits (r : Request) (s : SpanScope) (a : SpanAccess) (la : Latch) : Prop :=
  match r.phase with
  | .waiting _ todo => ∃ item ∈ todo, item.held = la ∧ item.ignored = false
  | .optimistic => ∃ snap, r.guard.snap = some snap ∧ la ∈ snap.trees s a
  | .acquired => False
  | _ => True

def Request.live (r : Request) : Bool := r.inserted && !r.guard.done

lemma Request.live_iff : r.live ↔ r.inserted ∧ r.guard.done = false := by
  simp [Request.live]

def Request.Respects (r : Request) (s : SpanScope) (a : SpanAccess) (la : Latch) : Prop :=
  ∀ a', ∀ la' ∈ r.guard.latches s a', Conflicts a la a' la' → r.Awaits s a la ∧ r.checked = false

structure Inv (st : State) : Prop where
  fresh : ∀ g, st.numRequests ≤ g → st.requests g = none
  represents : Represents st.mgr st.contents
  wf : ∀ g r, st.requests g = some r → r.Wf g
  respects : ∀ g r g' r', st.requests g = some r → st.requests g' = some r' → g < g' →
    r.live → ∀ s a, ∀ la ∈ r.guard.latches s a, r'.Respects s a la

lemma inv_init : Inv State.init where
  fresh := fun _ _ => rfl
  represents := represents_make.congr (by simp [State.contents, State.init])
  wf := fun g r h => by cases h
  respects := fun g r g' r' h => by cases h

/-! ## Steps outside the mutex -/

/-- What a step of a request outside the mutex does to its record. -/
structure RequestStep (st : State) (g : GuardId) (r r' : Request) : Prop where
  latches_eq : r'.guard.latches = r.guard.latches
  inserted_eq : r'.inserted = r.inserted
  done_of_done : r.guard.done → r'.guard.done
  wf : r'.Wf g
  respects : ∀ s a la, st.signaled la.guard = false → r.Respects s a la → r'.Respects s a la

lemma Request.Respects.of_awaits
    (h : r.Respects s a la) (hlatches : r'.guard.latches = r.guard.latches)
    (hchecked : r'.checked = r.checked)
    (hawaits : ∀ a', ∀ la' ∈ r.guard.latches s a', Conflicts a la a' la' →
      r.Awaits s a la → r'.Awaits s a la) : r'.Respects s a la := by
  intro a' la' hla' hconf
  rw [hlatches] at hla'
  obtain ⟨hawait, hcheck⟩ := h a' la' hla' hconf
  exact ⟨hawaits a' la' hla' hconf hawait, hchecked.trans hcheck⟩

lemma requestStep_checkOptimistic
    (h : requestStep st r (.checkOptimistic spans) = some r') (hwf : r.Wf g) :
    RequestStep st g r r' := by
  simp only [requestStep, bind_eq_bind, bind_eq_some_iff, guard_eq_some'] at h
  obtain ⟨-, hphase, snap, hsnap, hr'⟩ := h
  cases hr'
  have hins : r.inserted := by simp [Request.inserted, hphase]
  refine ⟨rfl, rfl, id, { hwf with checked_inserted := fun _ _ => hins }, ?_⟩
  intro s a la _ hrespects a' la' hla' hconf
  obtain ⟨hawait, hcheck⟩ := hrespects a' la' hla' hconf
  refine ⟨hawait, ?_⟩
  obtain ⟨snap', hsnap', hmem⟩ : ∃ snap', r.guard.snap = some snap' ∧ la ∈ snap'.trees s a := by
    simpa [Request.Awaits, hphase] using hawait
  obtain rfl : snap' = snap := Option.some.inj (hsnap'.symm.trans hsnap)
  cases hdecl : r.guard.declares spans with
  | false => simp [hcheck]
  | true => simp [hcheck, check_false_of_conflict hdecl hla' hmem hconf]

lemma requestStep_waitUntilAcquired
    (h : requestStep st r .waitUntilAcquired = some r') (hwf : r.Wf g) :
    RequestStep st g r r' := by
  simp only [requestStep, bind_eq_bind, bind_eq_some_iff, guard_eq_some'] at h
  obtain ⟨-, hphase, snap, hsnap, hr'⟩ := h
  cases hr'
  have hins : r.inserted := by simp [Request.inserted, hphase]
  refine ⟨rfl, hins.symm, id, ?_, ?_⟩
  · refine ⟨hwf.latch_guard, fun _ => hwf.latches_nodup hins, ?_, hwf.snap_before, ?_,
      fun _ _ => rfl⟩
    · rintro kind todo htodo item hitem
      cases htodo
      obtain ⟨s, a, hheld⟩ := held_of_mem_waitItems hitem
      exact hwf.snap_before snap hsnap s a _ hheld
    have hdone := hwf.done_iff
    rw [hphase] at hdone
    simpa using hdone
  intro s a la _ hrespects
  refine hrespects.of_awaits rfl rfl fun a' la' hla' hconf hawait => ?_
  obtain ⟨snap', hsnap', hmem⟩ : ∃ snap', r.guard.snap = some snap' ∧ la ∈ snap'.trees s a := by
    simpa [Request.Awaits, hphase] using hawait
  obtain rfl : snap' = snap := Option.some.inj (hsnap'.symm.trans hsnap)
  exact exists_waitItem hla' hmem hconf

/-- A waiting request goes on to a phase that is not over, with its snapshot or without it. -/
lemma RequestStep.ofWaiting {kind : WaitKind} {todo : List WaitItem} {phase : Phase}
    {snap : Option Snapshot} (hwf : r.Wf g) (hphase : r.phase = .waiting kind todo)
    (hr' : r' = { r with phase := phase, guard := { r.guard with snap := snap } })
    (hins : r'.inserted = r.inserted) (hover : ¬(phase = .releasing ∨ phase = .removed))
    (htodo : ∀ kind' todo', phase = .waiting kind' todo' → todo' ⊆ todo)
    (hsnap : ∀ s, snap = some s → r.guard.snap = some s)
    (hawaits : ∀ s a la, st.signaled la.guard = false → r.Awaits s a la → r'.Awaits s a la) :
    RequestStep st g r r' := by
  have hdone : r.guard.done = false := by
    rw [← Bool.not_eq_true, hwf.done_iff, hphase]
    simp
  subst hr'
  refine ⟨rfl, hins, id, ⟨hwf.latch_guard, hins ▸ hwf.latches_nodup, ?_,
    fun s hs => hwf.snap_before s (hsnap s hs), by simp [hdone, hover], ?_⟩, ?_⟩
  · intro kind' todo' h item hitem
    exact hwf.todo_before kind todo hphase item (htodo kind' todo' h hitem)
  · rw [hins]
    exact hwf.checked_inserted
  · intro s a la hsignaled hrespects
    exact hrespects.of_awaits rfl rfl fun _ _ _ _ => hawaits s a la hsignaled

lemma requestStep_waitNext
    (h : requestStep st r .waitNext = some r') (hwf : r.Wf g) : RequestStep st g r r' := by
  obtain ⟨kind, item, todo, hphase, hpass, rfl⟩ : ∃ kind item todo,
      r.phase = .waiting kind (item :: todo) ∧
      (st.signaled item.held.guard || item.ignored) ∧
      r' = { r with phase := .waiting kind todo } := by
    simp only [requestStep] at h
    split at h
    · split_ifs at h with hpass
      exact ⟨_, _, _, ‹_›, hpass, (Option.some.inj h).symm⟩
    · cases h
  refine .ofWaiting hwf hphase rfl ?_ nofun ?_ (fun _ => id) fun s a la hsignaled hawait => ?_
  · cases kind <;> simp [Request.inserted, hphase]
  · intro kind' todo' htodo
    cases htodo
    exact subset_cons_self ..
  obtain ⟨item', hitem', hheld, hign⟩ : ∃ item' ∈ item :: todo,
      item'.held = la ∧ item'.ignored = false := by
    simpa [Request.Awaits, hphase] using hawait
  rcases mem_cons.mp hitem' with rfl | hitem'
  · rw [hheld, hsignaled, hign] at hpass
    cases hpass
  · exact ⟨item', hitem', hheld, hign⟩

lemma RequestStep.poison (st : State) (hwf : r.Wf g) :
    RequestStep st g r { r with guard := { r.guard with poison := true } } where
  latches_eq := rfl
  inserted_eq := rfl
  done_of_done := id
  wf := { hwf with }
  respects := fun _ _ _ _ h => h

lemma requestStep_selfPoison
    (h : requestStep st r .selfPoison = some r') (hwf : r.Wf g) : RequestStep st g r r' := by
  simp only [requestStep] at h
  split at h
  · split_ifs at h
    cases h
    exact RequestStep.poison st hwf
  · cases h

lemma requestStep_waitError {err : WaitError}
    (h : requestStep st r (.waitError err) = some r') (hwf : r.Wf g) : RequestStep st g r r' := by
  obtain ⟨kind, todo, hphase, rfl⟩ : ∃ kind todo, r.phase = .waiting kind todo ∧
      r' = { r with phase := failPhase kind } := by
    simp only [requestStep] at h
    split at h
    · split_ifs at h
      exact ⟨_, _, ‹_›, (Option.some.inj h).symm⟩
    · cases h
  refine .ofWaiting hwf hphase rfl ?_ ?_ ?_ (fun _ => id) fun s a la _ _ => ?_
  · cases kind <;> simp [Request.inserted, hphase, failPhase]
  · cases kind <;> nofun
  · intro kind' todo' htodo
    cases kind <;> cases htodo
  · cases kind <;> exact trivial

lemma requestStep_waitDone
    (h : requestStep st r .waitDone = some r') (hwf : r.Wf g) : RequestStep st g r r' := by
  obtain ⟨kind, hphase, rfl⟩ : ∃ kind, r.phase = .waiting kind [] ∧
      r' = { r with
        phase := donePhase kind
        guard := { r.guard with snap := doneSnap kind r.guard.snap } } := by
    simp only [requestStep] at h
    split at h
    · exact ⟨_, ‹_›, (Option.some.inj h).symm⟩
    · cases h
  refine .ofWaiting hwf hphase rfl ?_ ?_ ?_ ?_ fun s a la _ hawait => ?_
  · cases kind <;> simp [Request.inserted, hphase, donePhase]
  · cases kind <;> nofun
  · intro kind' todo' htodo
    cases kind <;> cases htodo
  · intro snap hsnap
    cases kind with
    | waitUntilAcquired => cases hsnap
    | acquire | waitFor => exact hsnap
  · simp [Request.Awaits, hphase] at hawait

lemma requestStep_releaseSignal
    (h : requestStep st r .releaseSignal = some r') (hwf : r.Wf g) : RequestStep st g r r' := by
  simp only [requestStep, bind_eq_bind, bind_eq_some_iff, guard_eq_some'] at h
  obtain ⟨-, hphase, -, -, hr'⟩ := h
  cases hr'
  have hins : r.inserted := by
    rcases hphase with hphase | hphase | hphase <;> simp [Request.inserted, hphase]
  refine ⟨rfl, hins.symm, fun _ => rfl,
    ⟨hwf.latch_guard, fun _ => hwf.latches_nodup hins, ?_, ?_, by simp, fun _ _ => rfl⟩, ?_⟩
  · intro kind todo htodo
    cases htodo
  · intro snap hsnap s a la hla
    obtain ⟨snap', -, rfl⟩ := map_eq_some_iff.mp hsnap
    cases hla
  · intro s a la _ hrespects
    exact hrespects.of_awaits rfl rfl fun _ _ _ _ _ => trivial

lemma requestStep_spec {act : RequestAction}
    (h : requestStep st r act = some r') (hwf : r.Wf g) : RequestStep st g r r' := by
  cases act with
  | checkOptimistic spans => exact requestStep_checkOptimistic h hwf
  | waitUntilAcquired => exact requestStep_waitUntilAcquired h hwf
  | waitNext => exact requestStep_waitNext h hwf
  | selfPoison => exact requestStep_selfPoison h hwf
  | waitError err => exact requestStep_waitError h hwf
  | waitDone => exact requestStep_waitDone h hwf
  | poison =>
    cases h
    exact RequestStep.poison st hwf
  | releaseSignal => exact requestStep_releaseSignal h hwf

/-! ## Steps of the system -/

lemma setRequest_requests (st : State) (g : GuardId) (r : Request) (h : GuardId) :
    (st.setRequest g r).requests h = if h = g then some r else st.requests h := by
  simp [State.setRequest, Function.update_apply]

lemma addRequest_requests (st : State) (m : Manager) (r : Request) (h : GuardId) :
    (st.addRequest m r).requests h =
      if h = st.numRequests then some r else st.requests h := by
  simp [State.addRequest, Function.update_apply]

lemma Inv.lt_numRequests (hinv : Inv st) (h : st.requests g = some r) : g < st.numRequests := by
  by_contra hge
  rw [hinv.fresh g (not_lt.mp hge)] at h
  cases h

lemma signaled_eq (h : st.requests g = some r) : st.signaled g = r.guard.done := by
  simp [State.signaled, h]

lemma Inv.setRequest (hinv : Inv st)
    (hr : st.requests g = some r) (hstep : RequestStep st g r r') :
    Inv (st.setRequest g r') := by
  constructor
  · intro h hh
    have hlt := hinv.lt_numRequests hr
    have hne : h ≠ g := fun heq => absurd hlt (not_lt.mpr (heq ▸ hh))
    rw [setRequest_requests, if_neg hne]
    exact hinv.fresh h hh
  · apply hinv.represents.congr
    intro s a la
    constructor
    · rintro ⟨h, r0, hr0, hins, hla⟩
      by_cases heq : h = g
      · subst heq
        cases hr.symm.trans hr0
        refine ⟨h, r', by simp [setRequest_requests], ?_, ?_⟩
        · rw [hstep.inserted_eq, hins]
        rw [hstep.latches_eq]
        exact hla
      · exact ⟨h, r0, by simp [setRequest_requests, heq, hr0], hins, hla⟩
    rintro ⟨h, r0, hr0, hins, hla⟩
    rw [setRequest_requests] at hr0
    split_ifs at hr0 with heq
    · cases hr0
      rw [hstep.inserted_eq] at hins
      rw [hstep.latches_eq] at hla
      exact ⟨g, r, hr, hins, hla⟩
    · exact ⟨h, r0, hr0, hins, hla⟩
  · intro h r0 hr0
    rw [setRequest_requests] at hr0
    split_ifs at hr0 with heq
    · cases hr0
      rw [heq]
      exact hstep.wf
    · exact hinv.wf h r0 hr0
  intro h1 r1 h2 r2 hr1 hr2 hlt hlive s a la hla
  rw [setRequest_requests] at hr1 hr2
  obtain ⟨r₁', hr₁', hlive', hla', hsig⟩ : ∃ r₁', st.requests h1 = some r₁' ∧
      r₁'.live ∧ la ∈ r₁'.guard.latches s a ∧ st.signaled la.guard = false := by
    split_ifs at hr1 with heq
    · cases hr1
      rw [hstep.latches_eq] at hla
      obtain ⟨hins, hdone⟩ := live_iff.mp hlive
      have hdone' : r.guard.done = false := by
        cases hd : r.guard.done with
        | false => rfl
        | true => rw [hstep.done_of_done hd] at hdone; exact hdone
      rw [heq]
      refine ⟨r, hr, ?_, hla, ?_⟩
      · exact live_iff.mpr ⟨hstep.inserted_eq ▸ hins, hdone'⟩
      · rw [(hinv.wf g r hr).latch_guard s a la hla, signaled_eq hr, hdone']
    refine ⟨r1, hr1, hlive, hla, ?_⟩
    rw [(hinv.wf h1 r1 hr1).latch_guard s a la hla, signaled_eq hr1]
    exact (live_iff.mp hlive).2
  split_ifs at hr2 with heq
  · cases hr2
    rw [heq] at hlt
    exact hstep.respects s a la hsig (hinv.respects h1 r₁' g r hr₁' hr hlt hlive' s a la hla')
  · exact hinv.respects h1 r₁' h2 r2 hr₁' hr2 hlt hlive' s a la hla'

lemma Inv.addRequest (hinv : Inv st) {m : Manager} (hrep : Represents m fun s a la =>
      st.contents s a la ∨ (r.inserted ∧ la ∈ r.guard.latches s a)) (hwf : r.Wf st.numRequests)
    (hrespects : ∀ s a la, st.contents s a la → r.Respects s a la) :
    Inv (st.addRequest m r) := by
  have hne : ∀ {h r0}, st.requests h = some r0 → h ≠ st.numRequests :=
    fun hr0 => (hinv.lt_numRequests hr0).ne
  constructor
  · intro h hh
    have hlt : st.numRequests < h := hh
    rw [addRequest_requests, if_neg hlt.ne']
    exact hinv.fresh h hlt.le
  · apply hrep.congr
    intro s a la
    constructor
    · rintro (⟨h, r0, hr0, hins, hla⟩ | ⟨hins, hla⟩)
      · exact ⟨h, r0, by simp [addRequest_requests, hne hr0, hr0], hins, hla⟩
      · exact ⟨st.numRequests, r, by simp [addRequest_requests], hins, hla⟩
    rintro ⟨h, r0, hr0, hins, hla⟩
    rw [addRequest_requests] at hr0
    split_ifs at hr0 with heq
    · cases hr0
      exact .inr ⟨hins, hla⟩
    · exact .inl ⟨h, r0, hr0, hins, hla⟩
  · intro h r0 hr0
    rw [addRequest_requests] at hr0
    split_ifs at hr0 with heq
    · cases hr0
      rw [heq]
      exact hwf
    · exact hinv.wf h r0 hr0
  · intro h1 r1 h2 r2 hr1 hr2 hlt hlive s a la hla
    rw [addRequest_requests] at hr1 hr2
    split_ifs at hr2 with heq2
    · cases hr2
      rw [if_neg (heq2 ▸ hlt.ne)] at hr1
      exact hrespects s a la ⟨h1, r1, hr1, (live_iff.mp hlive).1, hla⟩
    · rw [if_neg (hlt.trans (hinv.lt_numRequests hr2)).ne] at hr1
      exact hinv.respects h1 r1 h2 r2 hr1 hr2 hlt hlive s a la hla

/-- A request awaits, with what its snapshot captured, every conflicting latch the manager held. -/
lemma mem_snapshot_of_conflict {P : Contents} (hcap : Captured spans P snap s)
    (hspans : spans.getSpans a' s ≠ []) (hla : P s a la) (h : Conflicts a la a' la') :
    la ∈ snap.trees s a := by
  cases a with
  | spanReadOnly =>
    have ha' : a' = .spanReadWrite := by simpa using h.2.1
    subst ha'
    exact hcap.reads hspans la hla
  | spanReadWrite => exact hcap.writes a' hspans la hla

variable {las : LatchTable}

lemma getSpans_ne_nil
    (hlas : (las s a).map Latch.unsetId = (newGuard g spans pp).latches s a)
    (hla : la ∈ las s a) : spans.getSpans a s ≠ [] := by
  intro hnil
  simp only [newGuard, hnil, map_nil, map_eq_nil_iff] at hlas
  rw [hlas] at hla
  cases hla

lemma latch_guard_eq
    (hlas : (las s a).map Latch.unsetId = (newGuard g spans pp).latches s a)
    (hla : la ∈ las s a) : la.guard = g := by
  have hmem : la.unsetId ∈ (newGuard g spans pp).latches s a := by
    rw [← hlas]
    exact mem_map_of_mem hla
  obtain ⟨sp, -, heq⟩ := List.mem_map.mp hmem
  exact (congrArg Latch.guard heq).symm

lemma Inv.contents_guard_lt (hinv : Inv st) (h : st.contents s a la) : la.guard < st.numRequests
    := by
  obtain ⟨g, r, hr, -, hla⟩ := h
  rw [(hinv.wf g r hr).latch_guard s a la hla]
  exact hinv.lt_numRequests hr

lemma Inv.acquire (hinv : Inv st) (h : step st (.acquire spans pp) = some st') : Inv st' := by
  obtain ⟨m, las, snap, hseq, hlas, hnodup, hcap, hrep⟩ :=
    sequence_spec st.numRequests spans pp hinv.represents
  simp only [step, hseq, bind_eq_bind, bind_some, Option.pure_def, Option.some.injEq] at h
  subst h
  refine hinv.addRequest (hrep.congr fun s a la => by simp [Request.inserted]) ?_ ?_
  · refine ⟨fun s a la => latch_guard_eq (hlas s a), fun _ => hnodup, ?_, ?_, by simp [newGuard],
      ?_⟩
    · rintro kind todo htodo item hitem
      cases htodo
      obtain ⟨s, a, hheld⟩ := held_of_mem_waitItems hitem
      exact hinv.contents_guard_lt ((hcap s).sound a _ hheld)
    · intro snap' hsnap'
      cases hsnap'
    · intro hchecked
      cases hchecked
  · intro s a la hla a' la' hla' hconf
    have hmem := mem_snapshot_of_conflict (hcap s) (getSpans_ne_nil (hlas s a') hla') hla hconf
    exact ⟨exists_waitItem hla' hmem hconf, rfl⟩

lemma Inv.acquireOptimistic (hinv : Inv st)
    (h : step st (.acquireOptimistic spans pp) = some st') : Inv st' := by
  obtain ⟨m, las, snap, hseq, hlas, hnodup, hcap, hrep⟩ :=
    sequence_spec st.numRequests spans pp hinv.represents
  simp only [step, hseq, bind_eq_bind, bind_some, Option.pure_def, Option.some.injEq] at h
  subst h
  refine hinv.addRequest (hrep.congr fun s a la => by simp [Request.inserted]) ?_ ?_
  · refine ⟨fun s a la => latch_guard_eq (hlas s a), fun _ => hnodup, ?_, ?_, by simp [newGuard],
      ?_⟩
    · rintro kind todo htodo
      cases htodo
    · intro snap' hsnap' s a la hla
      cases hsnap'
      exact hinv.contents_guard_lt ((hcap s).sound a la hla)
    · intro hchecked
      cases hchecked
  · intro s a la hla a' la' hla' hconf
    have hmem := mem_snapshot_of_conflict (hcap s) (getSpans_ne_nil (hlas s a') hla') hla hconf
    exact ⟨⟨snap, rfl, hmem⟩, rfl⟩

lemma newGuard_unsetId (g : GuardId) (spans : SpanSet) (pp : Policy) (s : SpanScope)
    (a : SpanAccess) :
    ((newGuard g spans pp).latches s a).map Latch.unsetId = (newGuard g spans pp).latches s a := by
  simp [newGuard, Latch.unsetId]

lemma Inv.waitFor (hinv : Inv st) (h : step st (.waitFor spans pp) = some st') : Inv st' := by
  obtain ⟨m, snap, hsnap, hrep, hcap⟩ := snapshotLocked_spec spans hinv.represents
  simp only [step, hsnap, bind_eq_bind, bind_some, Option.pure_def, Option.some.injEq] at h
  subst h
  have hlas := newGuard_unsetId st.numRequests spans pp
  refine hinv.addRequest (hrep.congr fun s a la => by simp [Request.inserted]) ?_ ?_
  · refine ⟨fun s a la => latch_guard_eq (hlas s a), fun hins => ?_, ?_, ?_, by simp [newGuard], ?_⟩
    · simp [Request.inserted] at hins
    · rintro kind todo htodo item hitem
      cases htodo
      obtain ⟨s, a, hheld⟩ := held_of_mem_waitItems hitem
      exact hinv.contents_guard_lt ((hcap s).sound a _ hheld)
    · intro snap' hsnap'
      cases hsnap'
    · intro hchecked
      cases hchecked
  · intro s a la hla a' la' hla' hconf
    have hmem := mem_snapshot_of_conflict (hcap s) (getSpans_ne_nil (hlas s a') hla') hla hconf
    exact ⟨exists_waitItem hla' hmem hconf, rfl⟩

lemma Request.Wf.removed (hwf : r.Wf g)
    (hphase : r.phase = .releasing) : ({ r with phase := .removed } : Request).Wf g := by
  have hdone : r.guard.done := hwf.done_iff.mpr (.inl hphase)
  refine ⟨hwf.latch_guard, fun hins => ?_, ?_, hwf.snap_before, by simp [hdone], ?_⟩
  · cases hins
  · intro kind todo htodo
    cases htodo
  intro _ hnot
  exact absurd (hdone.symm.trans hnot) (by simp)

lemma Inv.releaseRemove (hinv : Inv st)
    (h : step st (.releaseRemove g) = some st') : Inv st' := by
  simp only [step, bind_eq_bind, bind_eq_some_iff, guard_eq_some'] at h
  obtain ⟨r, hr, -, hphase, m, hm, hst'⟩ := h
  cases hst'
  have hins : r.inserted := by simp [Request.inserted, hphase]
  have hwf := hinv.wf g r hr
  obtain ⟨m', hm', hrep⟩ := removeLocked_spec hinv.represents (hwf.latches_nodup hins)
    fun s a la hla => ⟨g, r, hr, hins, hla⟩
  obtain rfl : m' = m := Option.some.inj (hm'.symm.trans hm)
  have hother : ∀ {h r0}, (st.setRequest g { r with phase := .removed }).requests h = some r0 →
      r0.inserted → h ≠ g ∧ st.requests h = some r0 := by
    intro h r0 hr0 hins0
    rw [setRequest_requests] at hr0
    split_ifs at hr0 with heq
    · cases hr0
      cases hins0
    · exact ⟨heq, hr0⟩
  constructor
  · intro h hh
    have hlt := hinv.lt_numRequests hr
    have hne : h ≠ g := fun heq => absurd hlt (not_lt.mpr (heq ▸ hh))
    rw [setRequest_requests, if_neg hne]
    exact hinv.fresh h hh
  · apply hrep.congr
    intro s a la
    constructor
    · rintro ⟨⟨h, r0, hr0, hins0, hla⟩, hnot⟩
      have hne : h ≠ g := by
        rintro rfl
        cases hr.symm.trans hr0
        exact hnot hla
      exact ⟨h, r0, (setRequest_requests _ _ _ h).trans (by simp [hne, hr0]), hins0, hla⟩
    rintro ⟨h, r0, hr0, hins0, hla⟩
    obtain ⟨hne, hr0⟩ := hother hr0 hins0
    refine ⟨⟨h, r0, hr0, hins0, hla⟩, fun hla' => hne ?_⟩
    rw [← (hinv.wf h r0 hr0).latch_guard s a la hla, hwf.latch_guard s a la hla']
  · intro h r0 hr0
    have hr0 := (setRequest_requests _ _ _ h).symm.trans hr0
    split_ifs at hr0 with heq
    · cases hr0
      rw [heq]
      exact hwf.removed hphase
    · exact hinv.wf h r0 hr0
  · intro h1 r1 h2 r2 hr1 hr2 hlt hlive s a la hla
    obtain ⟨-, hr₁'⟩ := hother hr1 (live_iff.mp hlive).1
    have hr2 := (setRequest_requests _ _ _ h2).symm.trans hr2
    split_ifs at hr2 with heq
    · cases hr2
      have hresp := hinv.respects h1 r1 g r hr₁' hr (heq ▸ hlt) hlive s a la hla
      exact hresp.of_awaits rfl rfl fun _ _ _ _ _ => trivial
    · exact hinv.respects h1 r1 h2 r2 hr₁' hr2 hlt hlive s a la hla

lemma Inv.step {act : Action} (hinv : Inv st)
    (h : SpanLatch.step st act = some st') : Inv st' := by
  cases act with
  | acquire spans pp => exact hinv.acquire h
  | acquireOptimistic spans pp => exact hinv.acquireOptimistic h
  | waitFor spans pp => exact hinv.waitFor h
  | releaseRemove g => exact hinv.releaseRemove h
  | request g act =>
    simp only [SpanLatch.step, bind_eq_bind, bind_eq_some_iff] at h
    obtain ⟨r, hr, r', hr', hst'⟩ := h
    cases hst'
    exact hinv.setRequest hr (requestStep_spec hr' (hinv.wf g r hr))

def Reached (st : State) : Prop := Reachable SpanLatch.step anyStep State.init st

lemma Reached.inv (h : Reached st) : Inv st :=
  Reachable.invariant inv_init (fun _ _ _ _ hinv _ hstep => hinv.step hstep) h

/-!
## What the latch manager guarantees

Two guards that are held at the same time never contain conflicting latches. The
containers of the manager hold the latches of the guards in it and nothing else,
and a request waits for earlier guards only, so requests never wait in a cycle.
-/

/-- Acquired, or optimistically checked for its declared spans, and not released. -/
def Request.Held (r : Request) : Prop :=
  r.guard.done = false ∧ (r.phase = .acquired ∨ r.checked)

instance (r : Request) : Decidable r.Held :=
  inferInstanceAs (Decidable (_ ∧ (_ ∨ _)))

lemma Request.Held.live (h : r.Held) (hwf : r.Wf g) : r.live := by
  obtain ⟨hdone, hacq | hchecked⟩ := h
  · simp [Request.live, Request.inserted, hacq, hdone]
  · simp [Request.live, hwf.checked_inserted hchecked hdone, hdone]

lemma Request.Held.not_conflicts (h : r.Held) {s : SpanScope}
    (hresp : r.Respects s a la) (hla' : la' ∈ r.guard.latches s a') :
    ¬ Conflicts a la a' la' := by
  intro hconf
  obtain ⟨hawait, hcheck⟩ := hresp a' la' hla' hconf
  obtain ⟨-, hacq | hchecked⟩ := h
  · simp [Request.Awaits, hacq] at hawait
  · simp [hcheck] at hchecked

lemma Conflicts.symm (h : Conflicts a la a' la') :
    Conflicts a' la' a la := by
  obtain ⟨hov, hwrite, hbelow, hbelow'⟩ := h
  refine ⟨?_, hwrite.symm, hbelow', hbelow⟩
  rw [spansOverlap_comm]
  exact hov

/-- Two distinct guards that are held at the same time contain no conflicting
latches. -/
theorem held_guards_isolated (hreach : Reached st) {g' : GuardId} (hne : g ≠ g')
    {r' : Request} (hr : st.requests g = some r) (hr' : st.requests g' = some r')
    (hheld : r.Held) (hheld' : r'.Held) (s : SpanScope) (a a' : SpanAccess) (la la' : Latch)
    (hla : la ∈ r.guard.latches s a) (hla' : la' ∈ r'.guard.latches s a') :
    ¬ Conflicts a la a' la' := by
  have hinv := hreach.inv
  rcases lt_or_gt_of_ne hne with hlt | hgt
  · have hlive := hheld.live (hinv.wf g r hr)
    exact hheld'.not_conflicts (hinv.respects g r g' r' hr hr' hlt hlive s a la hla) hla'
  have hlive := hheld'.live (hinv.wf g' r' hr')
  intro hconf
  exact hheld.not_conflicts (hinv.respects g' r' g r hr' hr hgt hlive s a' la' hla') hla
    hconf.symm

def onePoint (access : SpanAccess) (key : Roachpb.Key) (wallTime : Int) : SpanSet :=
  ⟨fun a s => if a = access ∧ s = .spanGlobal then
    [⟨⟨key, none⟩, { wallTime := wallTime }⟩] else []⟩

def State.held (st : State) (g : GuardId) : Bool := (st.requests g).any fun r => decide r.Held

lemma State.exists_of_held (h : st.held g) : ∃ r, st.requests g = some r ∧ r.Held := by
  simpa [State.held, Option.any_eq_true] using h

/-- A read and then a write of one key at a later timestamp, both acquired. -/
def readThenWrite : List Action :=
  [.acquire (onePoint .spanReadOnly [7] 1) .wait, .request 0 .waitDone,
    .acquire (onePoint .spanReadWrite [7] 2) .wait, .request 1 .waitNext, .request 1 .waitDone]

/-- A write at a later timestamp gets past a read of its key that is still held. -/
theorem held_guards_isolated_read_below_write :
    ∃ st r r', Reached st ∧ st.requests 0 = some r ∧ st.requests 1 = some r' ∧ r.Held ∧ r'.Held ∧
      ∀ s a a' la la', la ∈ r.guard.latches s a → la' ∈ r'.guard.latches s a' →
        ¬ Conflicts a la a' la' := by
  obtain ⟨st, hreach, hheld⟩ : ∃ st, Reached st ∧ (st.held 0 && st.held 1) = true :=
    exists_reachable_of_run readThenWrite (fun _ _ _ => trivial)
      (fun st : State => st.held 0 && st.held 1) (by decide)
  obtain ⟨h₀, h₁⟩ := Bool.and_eq_true _ _ ▸ hheld
  obtain ⟨r, hr, hr_held⟩ := State.exists_of_held h₀
  obtain ⟨r', hr', hr'_held⟩ := State.exists_of_held h₁
  exact ⟨st, r, r', hreach, hr, hr', hr_held, hr'_held,
    held_guards_isolated hreach (by decide) hr hr' hr_held hr'_held⟩

/-! ## Bookkeeping -/

/-- A latch of `h`, neither ignored nor released, is the next one `g` has to get past. -/
def State.WaitsOn (st : State) (g h : GuardId) : Prop :=
  ∃ r kind item todo, st.requests g = some r ∧ r.phase = .waiting kind (item :: todo) ∧
    item.ignored = false ∧ item.held.guard = h ∧ st.signaled h = false

/-- The mutex was taken for the last time and the latches are not in the manager. -/
def State.allReleased (st : State) : Prop :=
  ∀ g r, st.requests g = some r → r.inserted = false

section
variable (hreach : Reached st) {h : GuardId}
include hreach

lemma Reached.waitsOn_lt (hwait : st.WaitsOn g h) : h < g := by
  obtain ⟨r, kind, item, todo, hr, hphase, -, rfl, -⟩ := hwait
  exact (hreach.inv.wf g r hr).todo_before kind _ hphase item (.head _)

lemma Reached.transGen_waitsOn_lt
    (hwait : Relation.TransGen st.WaitsOn g h) : h < g := by
  induction hwait with
  | single h1 => exact hreach.waitsOn_lt h1
  | tail _ h1 ih => exact (hreach.waitsOn_lt h1).trans ih

lemma Reached.exists_acquire (spans : SpanSet) (pp : Policy) :
    (SpanLatch.step st (.acquire spans pp)).isSome ∧
      (SpanLatch.step st (.acquireOptimistic spans pp)).isSome ∧
      (SpanLatch.step st (.waitFor spans pp)).isSome := by
  obtain ⟨m, las, snap, hseq, -⟩ :=
    sequence_spec st.numRequests spans pp hreach.inv.represents
  obtain ⟨m', snap', hsnap, -⟩ := snapshotLocked_spec spans hreach.inv.represents
  simp [SpanLatch.step, hseq, hsnap]

lemma Reached.exists_release (hr : st.requests g = some r) :
    (r.phase = .acquired ∨ r.phase = .optimistic ∨ r.phase = .failed →
      (SpanLatch.step st (.request g .releaseSignal)).isSome) ∧
    (r.phase = .releasing → (SpanLatch.step st (.releaseRemove g)).isSome) := by
  have hwf := hreach.inv.wf g r hr
  constructor
  · intro hphase
    have hdone : r.guard.done = false := by
      rw [← Bool.not_eq_true, hwf.done_iff]
      rcases hphase with h | h | h <;> simp [h]
    simp [SpanLatch.step, hr, requestStep, hphase, hdone]
  intro hphase
  have hins : r.inserted := by simp [Request.inserted, hphase]
  obtain ⟨m, hm, -⟩ := removeLocked_spec hreach.inv.represents (hwf.latches_nodup hins)
    fun s a la hla => ⟨g, r, hr, hins, hla⟩
  simp [SpanLatch.step, hr, hphase, hm]

lemma Reached.contents_in_one_container (s : SpanScope) :
    ∃ xs, (st.mgr.scopes s).readSet.Repr xs ∧
      (∀ a la, st.contents s a la → Xor (la ∈ xs) (la ∈ (st.mgr.scopes s).trees a)) ∧
      (∀ la ∈ xs, st.contents s .spanReadOnly la) ∧
      (∀ a, ∀ la ∈ (st.mgr.scopes s).trees a, st.contents s a la) ∧
      ∀ a, ((st.mgr.scopes s).trees a).Nodup := by
  have hrep := hreach.inv.represents
  have hholds := hrep.holds s
  obtain ⟨xs, hxs, hdisj, hreads⟩ := hholds.reads
  refine ⟨xs, hxs, ?_, fun la hla => (hreads la).mpr (.inl hla), ?_, fun a => ?_⟩
  · intro a la hla
    cases a with
    | spanReadOnly =>
      rcases (hreads la).mp hla with hmem | hmem
      · exact .inl ⟨hmem, hdisj la hmem⟩
      · exact .inr ⟨hmem, fun hx => hdisj la hx hmem⟩
    | spanReadWrite =>
      refine .inr ⟨(hholds.writes la).mp hla, fun hx => ?_⟩
      have hboth := hrep.ids.id_inj ((hreads la).mpr (.inl hx)) hla rfl
      cases hboth.2.1
  · intro a la hla
    cases a with
    | spanReadOnly => exact (hreads la).mpr (.inr hla)
    | spanReadWrite => exact (hholds.writes la).mpr hla
  · exact (hholds.sorted a).nodup

lemma Reached.empty_of_allReleased (hall : st.allReleased) (s : SpanScope) :
    (st.mgr.scopes s).readSet.len = 0 ∧ (st.mgr.scopes s).readSet.front = none ∧
      ∀ a, (st.mgr.scopes s).trees a = [] := by
  have hnone : ∀ a la, ¬ st.contents s a la := by
    rintro a la ⟨g, r, hr, hins, -⟩
    rw [hall g r hr] at hins
    cases hins
  obtain ⟨xs, hxs, -, hmem, htrees, -⟩ := hreach.contents_in_one_container s
  have hnil : xs = [] := List.eq_nil_iff_forall_not_mem.mpr fun la hla => hnone _ la (hmem la hla)
  subst hnil
  refine ⟨by simpa using hxs.len_eq, by simpa using CircularList.front_eq hxs, fun a => ?_⟩
  exact List.eq_nil_iff_forall_not_mem.mpr fun la hla => hnone a la (htrees a la hla)

end

/-- In every reachable state each latch of a guard is in one container, requests never wait in a
cycle, nothing is left once all guards are released, and no operation follows a nil pointer or
signals twice. -/
theorem latch_bookkeeping (hreach : Reached st) :
    (∀ s, ∃ xs, (st.mgr.scopes s).readSet.Repr xs ∧
      (∀ a la, st.contents s a la → Xor (la ∈ xs) (la ∈ (st.mgr.scopes s).trees a)) ∧
      (∀ la ∈ xs, st.contents s .spanReadOnly la) ∧
      (∀ a, ∀ la ∈ (st.mgr.scopes s).trees a, st.contents s a la) ∧
      ∀ a, ((st.mgr.scopes s).trees a).Nodup) ∧
    (∀ g h, st.WaitsOn g h → h < g) ∧
    (∀ g, ¬ Relation.TransGen st.WaitsOn g g) ∧
    (st.allReleased → ∀ s, (st.mgr.scopes s).readSet.len = 0 ∧
      (st.mgr.scopes s).readSet.front = none ∧ ∀ a, (st.mgr.scopes s).trees a = []) ∧
    (∀ spans pp, (SpanLatch.step st (.acquire spans pp)).isSome = true ∧
      (SpanLatch.step st (.acquireOptimistic spans pp)).isSome = true ∧
      (SpanLatch.step st (.waitFor spans pp)).isSome = true) ∧
    ∀ g r, st.requests g = some r →
      (r.phase = .acquired ∨ r.phase = .optimistic ∨ r.phase = .failed →
        (SpanLatch.step st (.request g .releaseSignal)).isSome = true) ∧
      (r.phase = .releasing → (SpanLatch.step st (.releaseRemove g)).isSome = true) := by
  refine ⟨hreach.contents_in_one_container, fun g h => hreach.waitsOn_lt, ?_,
    hreach.empty_of_allReleased, hreach.exists_acquire, fun g r => hreach.exists_release⟩
  intro g hcycle
  exact lt_irrefl g (hreach.transGen_waitsOn_lt hcycle)

def releaseActions (g : GuardId) : List Action := [.request g .releaseSignal, .releaseRemove g]

def State.notInserted (st : State) (g : GuardId) : Bool :=
  (st.requests g).all fun r => !r.inserted

/-- A read latch flushed into the tree, and its writer's latch, leave nothing behind. -/
theorem latch_bookkeeping_after_release :
    ∃ st, Reached st ∧ st.numRequests = 2 ∧ st.allReleased ∧
      ∀ s, (st.mgr.scopes s).readSet.len = 0 ∧ (st.mgr.scopes s).readSet.front = none ∧
        ∀ a, (st.mgr.scopes s).trees a = [] := by
  obtain ⟨st, hreach, hp⟩ : ∃ st, Reached st ∧
      (decide (st.numRequests = 2) && (st.notInserted 0 && st.notInserted 1)) = true :=
    exists_reachable_of_run (readThenWrite ++ (releaseActions 0 ++ releaseActions 1))
      (fun _ _ _ => trivial)
      (fun st : State =>
        decide (st.numRequests = 2) && (st.notInserted 0 && st.notInserted 1)) (by decide)
  simp only [Bool.and_eq_true, decide_eq_true_eq] at hp
  obtain ⟨hnum, h₀, h₁⟩ := hp
  have hall : st.allReleased := by
    intro g r hr
    have hlt : g < st.numRequests := hreach.inv.lt_numRequests hr
    rw [hnum] at hlt
    obtain rfl | rfl := Nat.le_one_iff_eq_zero_or_eq_one.mp (Nat.lt_succ_iff.mp hlt)
    · simpa [State.notInserted, hr] using h₀
    · simpa [State.notInserted, hr] using h₁
  exact ⟨st, hreach, hnum, hall, (latch_bookkeeping hreach).2.2.2.1 hall⟩

end MeshDB.SpanLatch
