import MeshDB.Lib.Reachability
import MeshDB.Roachpb.Lease

/-!
# The hybrid logical clock

The `Clock` of `util/hlc`, called by one caller after the other. Where the code ends the process,
a call has no result. The logical part is an `int32` and is counted up without a carry.
-/
namespace MeshDB.Hlc

open Option Transition Timestamp ClockTimestamp

structure Clock where
  maxOffset : Int := 0
  lastPhysicalTime : Int := 0
  forwardClockJumpCheckEnabled : Bool := false
  timestamp : ClockTimestamp := {}
  /-- Zero for no bound. -/
  wallTimeUpperBound : Int := 0
deriving DecidableEq

namespace Clock

def getPhysicalClockAndCheck (c : Clock) (newTime : Int) : Option Clock :=
  let interval := wrapInt 64 (c.lastPhysicalTime - newTime)
  if c.lastPhysicalTime ≠ 0 ∧ c.forwardClockJumpCheckEnabled ∧
      c.maxOffset.tdiv 2 ≤ wrapInt 64 (-interval) then none
  else some { c with lastPhysicalTime := newTime }

def enforceWallTimeWithinBound (c : Clock) : Option Clock :=
  if c.wallTimeUpperBound ≠ 0 ∧ c.wallTimeUpperBound < c.timestamp.wallTime then none else some c

def nowAsClockTimestamp (c : Clock) (physicalClock : Int) : Option (Clock × ClockTimestamp) := do
  let c ← c.getPhysicalClockAndCheck physicalClock
  let ts : ClockTimestamp :=
    if physicalClock ≤ c.timestamp.wallTime then
      { c.timestamp with logical := wrapInt 32 (c.timestamp.logical + 1) }
    else ⟨physicalClock, 0⟩
  let c ← enforceWallTimeWithinBound { c with timestamp := ts }
  return (c, ts)

def update (c : Clock) (rt : ClockTimestamp) : Option Clock :=
  if rt.wallTime < c.timestamp.wallTime then some c
  else
    let ts :=
      if c.timestamp.wallTime < rt.wallTime then rt
      else if rt.wallTime = c.timestamp.wallTime ∧ c.timestamp.logical < rt.logical then
        { c.timestamp with logical := rt.logical }
      else c.timestamp
    enforceWallTimeWithinBound { c with timestamp := ts }

def updateAndCheckMaxOffset (c : Clock) (physicalClock : Int) (rt : ClockTimestamp) :
    Option (Clock × Bool) := do
  let c ← c.getPhysicalClockAndCheck physicalClock
  let offset := wrapInt 64 (rt.wallTime - physicalClock)
  if 0 < c.maxOffset ∧ c.maxOffset < offset then return (c, false)
  else
    let c ← c.update (if rt.wallTime < physicalClock then ⟨physicalClock, 0⟩ else rt)
    return (c, true)

/-! ## What the calls do to the timestamp -/

variable {c c' : Clock} {p : Int} {t rt : ClockTimestamp}

lemma timestamp_getPhysicalClockAndCheck (h : c.getPhysicalClockAndCheck p = some c') :
    c'.timestamp = c.timestamp := by
  unfold getPhysicalClockAndCheck at h
  dsimp only at h
  split_ifs at h
  cases h
  rfl

lemma eq_of_enforceWallTimeWithinBound (h : c.enforceWallTimeWithinBound = some c') : c' = c := by
  unfold enforceWallTimeWithinBound at h
  split_ifs at h
  exact (Option.some.inj h).symm

/-- `Now` moves the clock to what it returns, which is later unless the logical part overflows. -/
lemma nowAsClockTimestamp_spec (h : c.nowAsClockTimestamp p = some (c', t))
    (hlogical : 0 ≤ c.timestamp.logical)
    (htick : p ≤ c.timestamp.wallTime → c.timestamp.logical < Timestamp.maxInt32) :
    c'.timestamp = t ∧ 0 ≤ t.logical ∧ c.timestamp.toTimestamp.ord < t.toTimestamp.ord := by
  simp only [nowAsClockTimestamp, bind_eq_bind, bind_eq_some_iff,
    pure_def, Option.some.injEq, Prod.mk.injEq] at h
  obtain ⟨c1, hc1, c2, hc2, rfl, rfl⟩ := h
  rw [eq_of_enforceWallTimeWithinBound hc2]
  refine ⟨rfl, ?_⟩
  rw [timestamp_getPhysicalClockAndCheck hc1, ord_lt_iff]
  split_ifs with hle
  · have hlt := htick hle
    unfold Timestamp.maxInt32 at hlt
    have hwrap : wrapInt 32 (c.timestamp.logical + 1) = c.timestamp.logical + 1 := by
      apply Int.bmod_eq_of_le <;> omega
    simp only [toTimestamp, hwrap, true_and]
    omega
  · simp only [toTimestamp]
    omega

lemma update_spec (h : c.update rt = some c') (hlogical : 0 ≤ c.timestamp.logical)
    (hrt : 0 ≤ rt.logical) :
    0 ≤ c'.timestamp.logical ∧ c.timestamp.toTimestamp.ord ≤ c'.timestamp.toTimestamp.ord ∧
      rt.toTimestamp.ord ≤ c'.timestamp.toTimestamp.ord := by
  simp only [ord_le_iff, toTimestamp]
  unfold update at h
  split_ifs at h
  · cases h
    omega
  all_goals
    rw [eq_of_enforceWallTimeWithinBound h]
    dsimp only
    omega

lemma updateAndCheckMaxOffset_spec {accepted : Bool}
    (h : c.updateAndCheckMaxOffset p rt = some (c', accepted))
    (hlogical : 0 ≤ c.timestamp.logical) (hrt : 0 ≤ rt.logical) :
    0 ≤ c'.timestamp.logical ∧ c.timestamp.toTimestamp.ord ≤ c'.timestamp.toTimestamp.ord ∧
      (accepted → rt.toTimestamp.ord ≤ c'.timestamp.toTimestamp.ord) := by
  simp only [updateAndCheckMaxOffset, bind_eq_bind, bind_eq_some_iff] at h
  obtain ⟨c1, hc1, h⟩ := h
  have hts := timestamp_getPhysicalClockAndCheck hc1
  split_ifs at h with hoffset hbehind
  · cases h
    rw [hts]
    exact ⟨hlogical, le_rfl, by simp⟩
  all_goals
    simp only [bind_eq_some_iff, pure_def, Option.some.injEq, Prod.mk.injEq] at h
    obtain ⟨c2, hc2, rfl, rfl⟩ := h
  · obtain ⟨hpos, hle, hp⟩ := update_spec hc2 (hts ▸ hlogical) le_rfl
    refine ⟨hpos, hts ▸ hle, fun _ => le_trans ?_ hp⟩
    rw [ord_le_iff]
    exact .inl hbehind
  obtain ⟨hpos, hle, hrt⟩ := update_spec hc2 (hts ▸ hlogical) hrt
  exact ⟨hpos, hts ▸ hle, fun _ => hrt⟩

end Clock

/-! ## Calls in any order -/

structure ClockRun where
  clock : Clock
  seen : List ClockTimestamp := []
deriving DecidableEq

inductive ClockCall where
  | now (physicalClock : Int)
  | update (rt : ClockTimestamp)
  | updateAndCheckMaxOffset (physicalClock : Int) (rt : ClockTimestamp)

namespace ClockRun

def step (s : ClockRun) : ClockCall → Option ClockRun
  | .now p => (s.clock.nowAsClockTimestamp p).map fun (c, t) => ⟨c, t :: s.seen⟩
  | .update rt => (s.clock.update rt).map fun c => ⟨c, rt :: s.seen⟩
  | .updateAndCheckMaxOffset p rt =>
    (s.clock.updateAndCheckMaxOffset p rt).map fun (c, accepted) =>
      ⟨c, if accepted then rt :: s.seen else s.seen⟩

/-- Remote timestamps are not negative, and `Now` does not tick at the limit of the logical
part. -/
def Legal (s : ClockRun) : ClockCall → Prop
  | .now p => p ≤ s.clock.timestamp.wallTime → s.clock.timestamp.logical < Timestamp.maxInt32
  | .update rt | .updateAndCheckMaxOffset _ rt => 0 ≤ rt.wallTime ∧ 0 ≤ rt.logical

structure Inv (s : ClockRun) : Prop where
  logical_nonneg : 0 ≤ s.clock.timestamp.logical
  seen_le : ∀ t ∈ s.seen, t.toTimestamp.ord ≤ s.clock.timestamp.toTimestamp.ord

variable {s s' : ClockRun}

lemma Inv.see {c : Clock} {ts : List ClockTimestamp} (h : s.Inv)
    (hlogical : 0 ≤ c.timestamp.logical)
    (hle : s.clock.timestamp.toTimestamp.ord ≤ c.timestamp.toTimestamp.ord)
    (hts : ∀ t ∈ ts, t.toTimestamp.ord ≤ c.timestamp.toTimestamp.ord) :
    Inv ⟨c, ts ++ s.seen⟩ := by
  refine ⟨hlogical, ?_⟩
  intro t ht
  rcases List.mem_append.mp ht with ht | ht
  · exact hts t ht
  · exact (h.seen_le t ht).trans hle

lemma Inv.step {a : ClockCall} (h : s.Inv) (hlegal : s.Legal a) (hs : s.step a = some s') :
    s'.Inv := by
  cases a with
  | now p =>
    obtain ⟨⟨c, t⟩, hnow, rfl⟩ := map_eq_some_iff.mp hs
    obtain ⟨rfl, hpos, hlt⟩ := Clock.nowAsClockTimestamp_spec hnow h.logical_nonneg hlegal
    exact h.see hpos hlt.le (by simp : ∀ t ∈ [c.timestamp], _)
  | update rt =>
    obtain ⟨c, hupdate, rfl⟩ := map_eq_some_iff.mp hs
    obtain ⟨hpos, hle, hrt⟩ := Clock.update_spec hupdate h.logical_nonneg hlegal.2
    exact h.see hpos hle (by simpa using hrt : ∀ t ∈ [rt], _)
  | updateAndCheckMaxOffset p rt =>
    obtain ⟨⟨c, accepted⟩, hupdate, rfl⟩ := map_eq_some_iff.mp hs
    obtain ⟨hpos, hle, hrt⟩ :=
      Clock.updateAndCheckMaxOffset_spec hupdate h.logical_nonneg hlegal.2
    cases accepted with
    | true => exact h.see hpos hle (by simpa using hrt : ∀ t ∈ [rt], _)
    | false => exact h.see hpos hle (by simp : ∀ t ∈ ([] : List ClockTimestamp), _)

/-- `Now` is later than every timestamp seen before, unless the logical part overflows. -/
theorem now_after_seen {c₀ c : Clock} {p : Int} {t : ClockTimestamp} (hinit : c₀.timestamp = {})
    (h : Reachable step Legal ⟨c₀, []⟩ s) (hlegal : s.Legal (.now p))
    (hnow : s.clock.nowAsClockTimestamp p = some (c, t)) : ∀ u ∈ s.seen, u.less t = true := by
  have hinv : s.Inv := by
    apply h.invariant
    · exact ⟨by simp [hinit], by simp⟩
    intro s a s' _ hs hlegal hstep
    exact hs.step hlegal hstep
  intro u hu
  have hlt := (Clock.nowAsClockTimestamp_spec hnow hinv.logical_nonneg hlegal).2.2
  exact less_iff.mpr ((hinv.seen_le u hu).trans_lt hlt)

/-- The wall clock goes back after two remote timestamps. -/
theorem now_after_seen_remote :
    ClockTimestamp.less ⟨8, 4⟩ ⟨8, 5⟩ = true ∧ ClockTimestamp.less ⟨5, 7⟩ ⟨8, 5⟩ = true := by
  have h := @now_after_seen _ {} _ 3 ⟨8, 5⟩ rfl
    (@Reachable.of_run _ _ step Legal _ [.update ⟨5, 7⟩, .updateAndCheckMaxOffset 6 ⟨8, 4⟩] _ _
      .init (by simp [Legal]) rfl) (fun _ => by decide) rfl
  exact ⟨h ⟨8, 4⟩ (.head _), h ⟨5, 7⟩ (.tail _ (.head _))⟩

/-- After a remote timestamp at the limit of the logical part, `Now` goes back. -/
theorem now_overflows :
    (run step ⟨{}, []⟩ [.update ⟨5, Timestamp.maxInt32⟩, .now 3]).map ClockRun.seen =
        some [⟨5, -2147483648⟩, ⟨5, Timestamp.maxInt32⟩] ∧
      ClockTimestamp.less ⟨5, -2147483648⟩ ⟨5, Timestamp.maxInt32⟩ = true := by
  decide

end ClockRun
end MeshDB.Hlc
