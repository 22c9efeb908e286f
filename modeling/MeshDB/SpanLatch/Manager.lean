import MeshDB.Lib.CircularList
import MeshDB.Lib.OrderedSet
import MeshDB.Lib.Reachability
import MeshDB.Spanset

/-!
# The span latch manager

The `Manager` of `spanlatch`. Write latches live in an interval tree. Read latches are pushed on a
linked list and enter their tree when a later writer takes a snapshot. An operation that would
follow a nil pointer, or that panics, has no result. The wrapping `uint64` counter of the latch
ids is the integer below zero that it stands for.
-/
namespace MeshDB.SpanLatch

open Spanset

/-- The identity of a `Guard`, in the order in which guards take the mutex. -/
abbrev GuardId := ℕ

/-- A latch over one span. `guard` owns its signals; the read set keeps the list pointers. -/
structure Latch where
  guard : GuardId
  id : Int
  span : Roachpb.Span
  ts : Hlc.Timestamp
deriving DecidableEq

/-- The poison policies of a request. -/
inductive Policy where
  | wait
  | error
  | unsupported (n : ℕ)
deriving DecidableEq

/-! ## The interval tree -/

/-- The order of the btree: start key, end key, id. -/
def Latch.cmpKey (la : Latch) : Roachpb.Key ×ₗ Roachpb.Key ×ₗ Int :=
  toLex (la.span.key, toLex (la.span.endKeyBytes, la.id))

/-- The interval btree, as its ordered contents. -/
abbrev Btree := List Latch

namespace Btree

def set (t : Btree) (la : Latch) : Btree := OrderedSet.set Latch.cmpKey la t

def delete (t : Btree) (la : Latch) : Btree := OrderedSet.delete Latch.cmpKey la t

end Btree

/-- Half-open for ranges, closed for points. -/
def upperBoundContains (bound sp : Roachpb.Span) : Bool :=
  if bound.isPoint then sp.key ≤ bound.key else sp.key < bound.endKeyBytes

def spansOverlap (a b : Roachpb.Span) : Bool :=
  upperBoundContains a b && upperBoundContains b a

/-- The latches that `FirstOverlap` and `NextOverlap` visit, in their order. -/
def Btree.overlapping (t : Btree) (sp : Roachpb.Span) : List Latch :=
  t.filter fun la => spansOverlap sp la.span

/-! ## Guards and the manager -/

/-- The latches of a guard, by scope and access. -/
abbrev LatchTable := SpanScope → SpanAccess → List Latch

/-- The trees as a request saw them when it sequenced. -/
structure Snapshot where
  trees : SpanScope → SpanAccess → Btree

def Snapshot.empty : Snapshot := ⟨fun _ _ => []⟩

/-- `close` resets every tree of the snapshot. -/
def Snapshot.close (_ : Snapshot) : Snapshot := Snapshot.empty

/-- A request's latches with its signals. -/
structure Guard where
  done : Bool
  poison : Bool
  pp : Policy
  latches : LatchTable
  snap : Option Snapshot

def newGuard (g : GuardId) (spans : SpanSet) (pp : Policy) : Guard where
  done := false
  poison := false
  pp := pp
  latches := fun s a => (spans.getSpans a s).map fun sp => ⟨g, 0, sp.span, sp.timestamp⟩
  snap := none

def Guard.setLatches (lg : Guard) (s : SpanScope) (a : SpanAccess) (las : List Latch) : Guard :=
  { lg with latches := Function.update lg.latches s (Function.update (lg.latches s) a las) }

/-- Reads outside the tree, and the two trees. -/
structure ScopedManager where
  readSet : CircularList Latch
  trees : SpanAccess → Btree

def ScopedManager.setTree (sm : ScopedManager) (a : SpanAccess) (t : Btree) : ScopedManager :=
  { sm with trees := Function.update sm.trees a t }

/-- The latch manager. -/
structure Manager where
  idAlloc : Int
  scopes : SpanScope → ScopedManager

def Manager.make : Manager := ⟨0, fun _ => ⟨CircularList.zero, fun _ => []⟩⟩

def Manager.setScope (m : Manager) (s : SpanScope) (sm : ScopedManager) : Manager :=
  { m with scopes := Function.update m.scopes s sm }

/-! ## Critical sections -/

/-- One read moves from the set to the tree a round. -/
def flushLoop : ℕ → ScopedManager → Option ScopedManager
  | 0, sm => if 0 < sm.readSet.len then none else some sm
  | fuel + 1, sm =>
    if 0 < sm.readSet.len then
      match sm.readSet.front with
      | some (.elem la) => do
          let readSet ← sm.readSet.remove la
          let sm := { sm with readSet := readSet }
          flushLoop fuel (sm.setTree .spanReadOnly ((sm.trees .spanReadOnly).set la))
      | _ => none
    else some sm

/-- Moves every read of the set into the tree. -/
def flushReadSetLocked (sm : ScopedManager) : Option ScopedManager :=
  flushLoop sm.readSet.len.toNat sm

/-- Reads are flushed only for a writer to see. -/
def snapshotScope (spans : SpanSet) (s : SpanScope) (ms : Manager × Snapshot) :
    Option (Manager × Snapshot) := do
  let (m, snap) := ms
  let reading := !(spans.getSpans .spanReadOnly s).isEmpty
  let writing := !(spans.getSpans .spanReadWrite s).isEmpty
  let sm ← if writing then flushReadSetLocked (m.scopes s) else some (m.scopes s)
  let roTree := if writing then sm.trees .spanReadOnly else snap.trees s .spanReadOnly
  let rwTree :=
    if writing || reading then sm.trees .spanReadWrite else snap.trees s .spanReadWrite
  let trees := fun
    | .spanReadOnly => roTree
    | .spanReadWrite => rwTree
  return (m.setScope s sm, ⟨Function.update snap.trees s trees⟩)

/-- Captures a snapshot of what a request with these spans may conflict with. -/
def snapshotLocked (spans : SpanSet) (m : Manager) : Option (Manager × Snapshot) :=
  scopes.foldlM (fun ms s => snapshotScope spans s ms) (m, Snapshot.empty)

/-- Identifiers count down from `0`. -/
def nextIDLocked (m : Manager) : Manager × Int :=
  ({ m with idAlloc := m.idAlloc - 1 }, m.idAlloc - 1)

/-- Gives a latch its id: a read goes to the end of the read set, a write into its tree. -/
def insertLatch (s : SpanScope) (a : SpanAccess) (la : Latch) (m₀ : Manager) :
    Option (Manager × Latch) := do
  let (m, id) := nextIDLocked m₀
  let la := { la with id := id }
  let sm := m.scopes s
  match a with
  | .spanReadOnly =>
    let readSet ← sm.readSet.pushBack la
    return (m.setScope s { sm with readSet := readSet }, la)
  | .spanReadWrite =>
    return (m.setScope s (sm.setTree .spanReadWrite ((sm.trees .spanReadWrite).set la)), la)

/-- Inserts the latches of one scope and access. -/
def insertLatches (s : SpanScope) (a : SpanAccess) : List Latch → Manager →
    Option (Manager × List Latch)
  | [], m => some (m, [])
  | la :: las, m => do
      let (m, la) ← insertLatch s a la m
      let (m, las) ← insertLatches s a las m
      return (m, la :: las)

def scopeAccesses : List (SpanScope × SpanAccess) := scopes.flatMap fun s => accesses.map (s, ·)

def insertRound (mg : Manager × Guard) (sa : SpanScope × SpanAccess) :
    Option (Manager × Guard) := do
  let (m, las) ← insertLatches sa.1 sa.2 (mg.2.latches sa.1 sa.2) mg.1
  return (m, mg.2.setLatches sa.1 sa.2 las)

/-- Inserts every latch of the guard. -/
def insertLocked (lg : Guard) (m : Manager) : Option (Manager × Guard) :=
  scopeAccesses.foldlM insertRound (m, lg)

/-- Snapshot first, insertion after. -/
def sequence (g : GuardId) (spans : SpanSet) (pp : Policy) (m : Manager) :
    Option (Manager × Guard × Snapshot) := do
  let (m, snap) ← snapshotLocked spans m
  let (m, lg) ← insertLocked (newGuard g spans pp) m
  return (m, lg, snap)

/-- A linked read leaves the set, others their tree. -/
def removeLatch (s : SpanScope) (a : SpanAccess) (m : Manager) (la : Latch) : Option Manager := do
  let sm := m.scopes s
  if sm.readSet.linked la then
    let readSet ← sm.readSet.remove la
    return m.setScope s { sm with readSet := readSet }
  else
    return m.setScope s (sm.setTree a ((sm.trees a).delete la))

/-- Removes every latch of the guard. -/
def removeLocked (lg : Guard) (m : Manager) : Option Manager :=
  scopeAccesses.foldlM (fun m sa => (lg.latches sa.1 sa.2).foldlM (removeLatch sa.1 sa.2) m) m

/-!
## Requests on the latch manager

The goroutines that use a `Manager`, as one transition system. A critical section is one step.
Waiting happens on an immutable snapshot: each latch to get past is a step of its own, and so are
the signals.
-/

/-! ## What conflicts with a latch -/

/-- Which held latches a waiter may ignore. -/
abbrev IgnoreFn := Hlc.Timestamp → Hlc.Timestamp → Bool

/-- A read ignores later writes. -/
def ignoreLater : IgnoreFn := fun ts other => !ts.isEmpty && ts.less other

/-- A write ignores earlier reads. -/
def ignoreEarlier : IgnoreFn := fun ts other => !other.isEmpty && other.less ts

def ignoreNothing : IgnoreFn := fun _ _ => false

/-- The trees that are searched, with the latches to ignore: a read looks for writes at equal or
lower timestamps, a write for all writes and for reads at equal or higher ones. -/
def searches : SpanAccess → List (SpanAccess × IgnoreFn)
  | .spanReadOnly => [(.spanReadWrite, ignoreLater)]
  | .spanReadWrite => [(.spanReadWrite, ignoreNothing), (.spanReadOnly, ignoreEarlier)]

/-- A round of `iterAndWait`: a held latch that overlaps, and whether it is ignored. -/
structure WaitItem where
  held : Latch
  ignored : Bool
deriving DecidableEq

/-- Everything `wait` has to get past, in order. -/
def waitItems (latches : LatchTable) (snap : Snapshot) : List WaitItem :=
  scopeAccesses.flatMap fun (s, a) => (latches s a).flatMap fun la =>
    (searches a).flatMap fun (a', ignore) =>
      ((snap.trees s a').overlapping la.span).map fun held => ⟨held, ignore la.ts held.ts⟩

/-- No latch of the snapshot conflicts. Released ones are not skipped. -/
def checkOptimisticNoConflicts (snap : Snapshot) (spans : SpanSet) : Bool :=
  scopeAccesses.all fun (s, a) => (spans.getSpans a s).all fun sp =>
    (searches a).all fun (a', ignore) =>
      ((snap.trees s a').overlapping sp.span).all fun held => ignore sp.timestamp held.ts

/-! ## Requests -/

/-- The entry point a request waits in. -/
inductive WaitKind where
  | acquire
  | waitUntilAcquired
  | waitFor
deriving DecidableEq

/-- Where a request stands. -/
inductive Phase where
  /-- Inside `wait`, with the held latches it has still to get past. -/
  | waiting (kind : WaitKind) (todo : List WaitItem)
  /-- `Acquire` or `WaitUntilAcquired` returned without an error. -/
  | acquired
  /-- `AcquireOptimistic` returned. -/
  | optimistic
  /-- `wait` returned an error and `Release` is to be called. -/
  | failed
  /-- `Release` signaled the guard and has yet to take the mutex. -/
  | releasing
  /-- `Release` returned. -/
  | removed
  /-- `WaitFor` returned. -/
  | returned
deriving DecidableEq

/-- `checked` records that `CheckOptimisticNoConflicts` returned true for the declared spans. -/
structure Request where
  guard : Guard
  phase : Phase
  checked : Bool

/-- The manager with all requests ever made. -/
structure State where
  mgr : Manager
  numRequests : ℕ
  requests : GuardId → Option Request

def State.init : State := ⟨Manager.make, 0, fun _ => none⟩

def State.setRequest (st : State) (g : GuardId) (r : Request) : State :=
  { st with requests := Function.update st.requests g (some r) }

def State.addRequest (st : State) (m : Manager) (r : Request) : State where
  mgr := m
  numRequests := st.numRequests + 1
  requests := Function.update st.requests st.numRequests (some r)

/-- The guard's `done` signal was sent. -/
def State.signaled (st : State) (g : GuardId) : Bool :=
  (st.requests g).any fun r => r.guard.done

def State.poisoned (st : State) (g : GuardId) : Bool :=
  (st.requests g).any fun r => r.guard.poison

/-- The spans are those that the latches of the guard were made from. -/
def Guard.declares (lg : Guard) (spans : SpanSet) : Bool :=
  scopeAccesses.all fun (s, a) =>
    spans.getSpans a s = (lg.latches s a).map fun la => ⟨la.span, la.ts⟩

/-- Why `wait` gave up. -/
inductive WaitError where
  | poisoned
  | canceled
  | quiescing
deriving DecidableEq

/-- What one request can do. -/
inductive RequestAction where
  | checkOptimistic (spans : SpanSet)
  | waitUntilAcquired
  /-- Gets past the next held latch, which is released or ignored. -/
  | waitNext
  /-- Poisons the waiting request itself, under `Policy_Wait`. -/
  | selfPoison
  | waitError (err : WaitError)
  /-- Returns from `wait` without an error. -/
  | waitDone
  | poison
  | releaseSignal

/-- New requests, and steps of existing ones. -/
inductive Action where
  | acquire (spans : SpanSet) (pp : Policy)
  | acquireOptimistic (spans : SpanSet) (pp : Policy)
  | waitFor (spans : SpanSet) (pp : Policy)
  | request (g : GuardId) (act : RequestAction)
  | releaseRemove (g : GuardId)

/-- `WaitFor` holds no latches to release. -/
def failPhase : WaitKind → Phase
  | .waitFor => .returned
  | _ => .failed

def donePhase : WaitKind → Phase
  | .waitFor => .returned
  | _ => .acquired

/-- The snapshot that a guard retains after `wait` returned without an error. -/
def doneSnap (kind : WaitKind) (snap : Option Snapshot) : Option Snapshot :=
  if kind = .waitUntilAcquired then none else snap

/-- `waitForSignal` may return this error, also when the done signal has come: `select` picks any
ready case. -/
def mayFail (st : State) (pp : Policy) (held : Latch) : WaitError → Bool
  | .poisoned => st.poisoned held.guard && pp != .wait
  | .canceled => true
  | .quiescing => true

/-- One step of a request that leaves the manager alone. -/
def requestStep (st : State) (r : Request) : RequestAction → Option Request
  | .checkOptimistic spans => do
      guard (r.phase = .optimistic)
      let snap ← r.guard.snap
      return { r with
        checked := r.checked || (r.guard.declares spans && checkOptimisticNoConflicts snap spans) }
  | .waitUntilAcquired => do
      guard (r.phase = .optimistic)
      let snap ← r.guard.snap
      return { r with phase := .waiting .waitUntilAcquired (waitItems r.guard.latches snap) }
  | .waitNext =>
    match r.phase with
    | .waiting kind (item :: todo) =>
      if st.signaled item.held.guard || item.ignored then
        some { r with phase := .waiting kind todo }
      else none
    | _ => none
  | .selfPoison =>
    match r.phase with
    | .waiting _ (item :: _) =>
      if !item.ignored && st.poisoned item.held.guard && r.guard.pp == .wait then
        some { r with guard := { r.guard with poison := true } }
      else none
    | _ => none
  | .waitError err =>
    match r.phase with
    | .waiting kind (item :: _) =>
      if !item.ignored && mayFail st r.guard.pp item.held err then
        some { r with phase := failPhase kind }
      else none
    | _ => none
  | .waitDone =>
    match r.phase with
    | .waiting kind [] =>
      some { r with
        phase := donePhase kind, guard := { r.guard with snap := doneSnap kind r.guard.snap } }
    | _ => none
  | .poison => some { r with guard := { r.guard with poison := true } }
  | .releaseSignal => do
      guard (r.phase = .acquired ∨ r.phase = .optimistic ∨ r.phase = .failed)
      -- a second signal panics
      guard (r.guard.done = false)
      return { r with
        phase := .releasing
        guard := { r.guard with done := true, snap := r.guard.snap.map Snapshot.close } }

/-- One step of the system. -/
def step (st : State) : Action → Option State
  | .acquire spans pp => do
      let (m, lg, snap) ← sequence st.numRequests spans pp st.mgr
      return st.addRequest m ⟨lg, .waiting .acquire (waitItems lg.latches snap), false⟩
  | .acquireOptimistic spans pp => do
      let (m, lg, snap) ← sequence st.numRequests spans pp st.mgr
      return st.addRequest m ⟨{ lg with snap := some snap }, .optimistic, false⟩
  | .waitFor spans pp => do
      let lg := newGuard st.numRequests spans pp
      let (m, snap) ← snapshotLocked spans st.mgr
      return st.addRequest m ⟨lg, .waiting .waitFor (waitItems lg.latches snap), false⟩
  | .releaseRemove g => do
      let r ← st.requests g
      guard (r.phase = .releasing)
      let m ← removeLocked r.guard st.mgr
      return { st.setRequest g { r with phase := .removed } with mgr := m }
  | .request g act => do
      let r ← st.requests g
      let r ← requestStep st r act
      return st.setRequest g r

end MeshDB.SpanLatch
