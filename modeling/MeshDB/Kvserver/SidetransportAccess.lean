import MeshDB.Lib.Reachability
import MeshDB.Util.Hlc

/-!
# A replica's view of the side transport

`sidetransportAccess` of `replica_closedts.go` keeps the closed timestamp that is known to be
applied and one that waits for its lease applied index. A call of `get` takes the lock up to three
times, and other calls run in between.
-/
namespace MeshDB.Sidetransport

open List Hlc Transition
open Timestamp (lessEq_iff not_less_iff ord_forward)

/-- A timestamp that is closed once the lease applied index has been applied. -/
structure ClosedTimestamp where
  ts : Timestamp := {}
  lai : ℕ := 0
deriving DecidableEq

namespace ClosedTimestamp

def regression (a b : ClosedTimestamp) : Bool :=
  if a.lai = b.lai then false
  else if a.lai < b.lai then b.ts.less a.ts
  else a.ts.less b.ts

def merge (a b : ClosedTimestamp) : ClosedTimestamp :=
  if a.lai = b.lai then { a with ts := a.ts.forward b.ts }
  else if a.lai < b.lai then b
  else a

end ClosedTimestamp

structure Access where
  cur : ClosedTimestamp := {}
  next : ClosedTimestamp := {}
deriving DecidableEq

/-- A call of `get` between its steps. -/
inductive Get where
  | idle
  /-- Before `forward` of the copy of `next`. -/
  | promoting (appliedLAI : ℕ) (sufficient : Timestamp) (next : ClosedTimestamp)
  | querying (appliedLAI : ℕ) (cur : ClosedTimestamp)
  | returned (ts : Timestamp)
deriving DecidableEq

namespace Access

/-- `forward`, which returns the new `cur`. The process ends at a regression. -/
def forward (st : Access) (up : ClosedTimestamp) (knownApplied : Bool) : Option Access :=
  if st.cur.lai ≠ 0 ∧ st.cur.regression up then none
  else if st.next.lai ≠ 0 ∧ st.next.regression up then none
  -- The caller may not know that the index was applied when this replica does.
  else if knownApplied ∨ up.lai ≤ st.cur.lai then
    if st.next.lai ≤ up.lai then some { cur := st.cur.merge (up.merge st.next), next := {} }
    else some { st with cur := st.cur.merge up }
  else some { st with next := st.next.merge up }

/-- The check whether the closed timestamp satisfies the caller of `get`. -/
def satisfies (cur : ClosedTimestamp) (sufficient : Timestamp) : Bool :=
  !sufficient.isEmpty && sufficient.lessEq cur.ts

/-- `get` up to its first call of `forward` or of the receiver. -/
def getRead (st : Access) (appliedLAI : ℕ) (sufficient : Timestamp) : Get :=
  if satisfies st.cur sufficient then .returned st.cur.ts
  else if st.next.lai ≠ 0 then
    if appliedLAI < st.next.lai then .returned st.cur.ts
    else .promoting appliedLAI sufficient st.next
  else .querying appliedLAI st.cur

/-- The part of `get` that promotes its copy of `next`. -/
def getPromote (st : Access) (appliedLAI : ℕ) (sufficient : Timestamp)
    (next : ClosedTimestamp) : Option (Access × Get) :=
  (st.forward next true).map fun st =>
    (st, if satisfies st.cur sufficient then .returned st.cur.ts
      else .querying appliedLAI st.cur)

/-- The part of `get` from the answer of the receiver on, with none for a replica without a
receiver. -/
def getReceive (st : Access) (appliedLAI : ℕ) (cur : ClosedTimestamp) :
    Option ClosedTimestamp → Option (Access × Get)
  | none => some (st, .returned cur.ts)
  | some answer =>
    if answer.ts.lessEq cur.ts then some (st, .returned cur.ts)
    else (st.forward answer (answer.lai ≤ appliedLAI)).map fun st => (st, .returned st.cur.ts)

end Access

/-! ## Interleaved calls -/

inductive Event where
  | forward (up : ClosedTimestamp) (knownApplied : Bool)
  | read (g : ℕ) (appliedLAI : ℕ) (sufficient : Timestamp)
  | promote (g : ℕ)
  | receive (g : ℕ) (answer : Option ClosedTimestamp)
deriving DecidableEq

/-- The replica with all calls of `get`, the updates so far and the highest known applied index. -/
structure System where
  access : Access := {}
  gets : ℕ → Get := fun _ => .idle
  updates : List ClosedTimestamp := []
  applied : ℕ := 0

namespace System

def moved (s : System) (g : ℕ) (updates : List ClosedTimestamp) (r : Access × Get) : System :=
  { s with access := r.1, gets := Function.update s.gets g r.2, updates := updates }

def step (s : System) : Event → Option System
  | .forward up knownApplied =>
    (s.access.forward up knownApplied).map fun st =>
      { s with
        access := st
        updates := up :: s.updates
        applied := if knownApplied then max s.applied up.lai else s.applied }
  | .read g appliedLAI sufficient =>
    match s.gets g with
    | .idle =>
      some { s with
        gets := Function.update s.gets g (s.access.getRead appliedLAI sufficient)
        applied := max s.applied appliedLAI }
    | _ => some s
  | .promote g =>
    match s.gets g with
    | .promoting appliedLAI sufficient next =>
      (s.access.getPromote appliedLAI sufficient next).map (s.moved g s.updates)
    | _ => some s
  | .receive g answer =>
    match s.gets g with
    | .querying appliedLAI cur =>
      (s.access.getReceive appliedLAI cur answer).map (s.moved g (answer.toList ++ s.updates))
    | _ => some s

end System

/-! ## Histories -/

/-- The closed timestamps of a range: a higher index never carries a lower timestamp. -/
structure History (H : Set ClosedTimestamp) : Prop where
  mono : ∀ a ∈ H, ∀ b ∈ H, a.lai < b.lai → a.ts.ord ≤ b.ts.ord
  nonneg : ∀ a ∈ H, ({} : Timestamp).ord ≤ a.ts.ord

/-- The update or answer of the event is from the history. -/
def Event.From (H : Set ClosedTimestamp) : Event → Prop
  | .forward up _ => up ∈ H
  | .receive _ (some answer) => answer ∈ H
  | _ => True

/-- The pair is an update up to the synthetic flag, or the empty pair. -/
def Known (us : List ClosedTimestamp) (c : ClosedTimestamp) : Prop :=
  ∃ u ∈ {} :: us, u.lai = c.lai ∧ u.ts.ord = c.ts.ord

/-- The timestamp is that of an update with an applied index, or empty. -/
def Closed (us : List ClosedTimestamp) (applied : ℕ) (ts : Timestamp) : Prop :=
  ∃ u ∈ {} :: us, u.lai ≤ applied ∧ u.ts.ord = ts.ord

variable {H : Set ClosedTimestamp} {us us' : List ClosedTimestamp} {a b c up : ClosedTimestamp}
  {n n' : ℕ} {ts : Timestamp}

lemma Known.mono (h : Known us c) (hsub : us ⊆ us') : Known us' c := by
  obtain ⟨u, hu, heq⟩ := h
  exact ⟨u, cons_subset_cons _ hsub hu, heq⟩

lemma known_empty : Known us {} := ⟨{}, .head _, rfl, rfl⟩

lemma Known.of_mem (h : c ∈ us) : Known us c := ⟨c, mem_cons_of_mem _ h, rfl, rfl⟩

lemma Known.closed (h : Known us c) (hle : c.lai ≤ n) : Closed us n c.ts := by
  obtain ⟨u, hu, hlai, hts⟩ := h
  exact ⟨u, hu, hlai.le.trans hle, hts⟩

lemma Closed.mono (h : Closed us n ts) (hsub : us ⊆ us') (hle : n ≤ n') : Closed us' n' ts := by
  obtain ⟨u, hu, hlai, hts⟩ := h
  exact ⟨u, cons_subset_cons _ hsub hu, hlai.trans hle, hts⟩

section
variable (hH : History H) (hus : ∀ u ∈ us, u ∈ H)
include hH hus

lemma Known.nonneg (h : Known us c) : ({} : Timestamp).ord ≤ c.ts.ord := by
  obtain ⟨u, hu, -, hts⟩ := h
  rw [← hts]
  rcases mem_cons.mp hu with rfl | hu
  · exact le_rfl
  · exact hH.nonneg u (hus u hu)

lemma Known.le (ha : Known us a) (hb : Known us b) (hlt : a.lai < b.lai) :
    a.ts.ord ≤ b.ts.ord := by
  have hb' := hb
  obtain ⟨u, hu, hulai, huts⟩ := ha
  obtain ⟨v, hv, hvlai, hvts⟩ := hb
  rcases mem_cons.mp hu with rfl | hu
  · rw [← huts]
    exact hb'.nonneg hH hus
  rcases mem_cons.mp hv with rfl | hv
  · simp only at hvlai
    omega
  rw [← huts, ← hvts]
  exact hH.mono u (hus u hu) v (hus v hv) (by omega)

lemma Known.not_regression (ha : Known us a) (hb : Known us b) : a.regression b = false := by
  unfold ClosedTimestamp.regression
  split_ifs with heq hlt
  · rfl
  · rw [not_less_iff]
    exact ha.le hH hus hb hlt
  rw [not_less_iff]
  exact hb.le hH hus ha (by omega)

lemma Known.le_merge (ha : Known us a) (hb : Known us b) :
    a.ts.ord ≤ (a.merge b).ts.ord ∧ b.ts.ord ≤ (a.merge b).ts.ord := by
  unfold ClosedTimestamp.merge
  split_ifs with heq hlt
  · rw [ord_forward]
    exact ⟨le_max_left _ _, le_max_right _ _⟩
  · exact ⟨ha.le hH hus hb hlt, le_rfl⟩
  · exact ⟨le_rfl, hb.le hH hus ha (by omega)⟩

end

lemma merge_lai : (a.merge b).lai = max a.lai b.lai := by
  unfold ClosedTimestamp.merge
  split_ifs with heq hlt
  · simp [heq]
  · exact (max_eq_right hlt.le).symm
  · exact (max_eq_left (by omega)).symm

lemma Known.merge (ha : Known us a) (hb : Known us b) : Known us (a.merge b) := by
  unfold ClosedTimestamp.merge
  split_ifs with heq hlt
  · rcases le_total a.ts.ord b.ts.ord with hle | hle
    · obtain ⟨u, hu, hlai, hts⟩ := hb
      refine ⟨u, hu, hlai.trans heq.symm, ?_⟩
      rw [hts, ord_forward, max_eq_right hle]
    obtain ⟨u, hu, hlai, hts⟩ := ha
    refine ⟨u, hu, hlai, ?_⟩
    rw [hts, ord_forward, max_eq_left hle]
  · exact hb
  · exact ha

/-! ## The two slots -/

/-- `cur` is applied, `next` is ahead of it, and an update is at or below `cur`, or replaced by
`next`. -/
structure Access.Inv (us : List ClosedTimestamp) (applied : ℕ) (st : Access) : Prop where
  cur : Known us st.cur
  next : Known us st.next
  applied : st.cur.lai ≤ applied
  pending : st.next = {} ∨ st.cur.lai < st.next.lai
  covered : ∀ u ∈ us, u.ts.ord ≤ st.cur.ts.ord ∨ u.lai ≤ st.next.lai ∧ u.ts.ord ≤ st.next.ts.ord

variable {st : Access} {appliedLAI : ℕ}

lemma Access.Inv.mono (h : st.Inv us n) (hle : n ≤ n') : st.Inv us n' :=
  { h with applied := h.applied.trans hle }

/-- No assertion fires, the invariant stays, and `cur` reaches every update known to be applied. -/
lemma Access.Inv.forward (h : st.Inv us n) (knownApplied : Bool)
    (hH : History H) (hus : ∀ u ∈ us', u ∈ H) (hsub : us ⊆ us')
    (hnew : ∀ u ∈ us', u ∈ us ∨ u = up) (hup : Known us' up)
    (happlied : knownApplied → up.lai ≤ n) :
    ∃ st', st.forward up knownApplied = some st' ∧ st'.Inv us' n ∧ st.cur.ts.ord ≤ st'.cur.ts.ord ∧
      (knownApplied → up.ts.ord ≤ st'.cur.ts.ord) := by
  have hcur := h.cur.mono hsub
  have hnext := h.next.mono hsub
  have hlecur := hcur.le_merge hH hus hup
  have hcovered : ∀ {P : ClosedTimestamp → Prop}, P up → (∀ u ∈ us, P u) → ∀ u ∈ us', P u := by
    intro P hPup hP u hu
    rcases hnew u hu with hu | rfl
    · exact hP u hu
    · exact hPup
  unfold Access.forward
  rw [if_neg (by simp [hcur.not_regression hH hus hup]),
    if_neg (by simp [hnext.not_regression hH hus hup])]
  by_cases hknown : knownApplied ∨ up.lai ≤ st.cur.lai
  · have hle : up.lai ≤ n := hknown.elim happlied fun hle => hle.trans h.applied
    rw [if_pos hknown]
    by_cases hdrop : st.next.lai ≤ up.lai
    · have hmerged := hup.merge hnext
      have hleup := hup.le_merge hH hus hnext
      have hle' := hcur.le_merge hH hus hmerged
      rw [if_pos hdrop]
      refine ⟨_, rfl, ⟨hcur.merge hmerged, known_empty, ?_, Or.inl rfl, ?_⟩, hle'.1, ?_⟩
      · have := h.applied
        simp only [merge_lai]
        omega
      · apply hcovered
        · exact Or.inl (hleup.1.trans hle'.2)
        intro u hu
        rcases h.covered u hu with hu | hu
        · exact Or.inl (hu.trans hle'.1)
        · exact Or.inl (hu.2.trans (hleup.2.trans hle'.2))
      · intro _
        exact hleup.1.trans hle'.2
    have hpending : st.cur.lai < st.next.lai := by
      rcases h.pending with hempty | hlt
      · rw [hempty] at hdrop
        exact absurd (Nat.zero_le _) hdrop
      · exact hlt
    rw [if_neg hdrop]
    refine ⟨_, rfl, ⟨hcur.merge hup, hnext, ?_, Or.inr ?_, ?_⟩, hlecur.1, fun _ => hlecur.2⟩
    · have := h.applied
      simp only [merge_lai]
      omega
    · simp only [merge_lai]
      omega
    apply hcovered
    · exact Or.inl hlecur.2
    intro u hu
    exact (h.covered u hu).imp_left fun hu => hu.trans hlecur.1
  · push Not at hknown
    have hle := hnext.le_merge hH hus hup
    rw [if_neg (by simp [hknown])]
    refine ⟨_, rfl, ⟨hcur, hnext.merge hup, h.applied, Or.inr ?_, ?_⟩, le_rfl, ?_⟩
    · have := hknown.2
      simp only [merge_lai]
      omega
    · have hlai : st.next.lai ≤ (st.next.merge up).lai ∧ up.lai ≤ (st.next.merge up).lai := by
        rw [merge_lai]
        exact ⟨le_max_left _ _, le_max_right _ _⟩
      apply hcovered
      · exact Or.inr ⟨hlai.2, hle.2⟩
      intro u hu
      exact (h.covered u hu).imp_right fun hu => ⟨hu.1.trans hlai.1, hu.2.trans hle.1⟩
    · intro htrue
      exact absurd htrue hknown.1

/-! ## The calls of `get` -/

/-- What a call has copied is from the updates, and what it may return is closed. -/
def Get.Inv (us : List ClosedTimestamp) (applied : ℕ) (cur : ClosedTimestamp) : Get → Prop
  | .idle => True
  | .promoting appliedLAI _ next => appliedLAI ≤ applied ∧ next.lai ≤ appliedLAI ∧ Known us next
  | .querying appliedLAI c =>
    appliedLAI ≤ applied ∧ Closed us applied c.ts ∧ c.ts.ord ≤ cur.ts.ord
  | .returned ts => Closed us applied ts ∧ ts.ord ≤ cur.ts.ord

variable {c' : ClosedTimestamp} {get : Get}

lemma Get.Inv.mono (h : get.Inv us n c) (hsub : us ⊆ us')
    (hle : n ≤ n') (hcur : c.ts.ord ≤ c'.ts.ord) : get.Inv us' n' c' := by
  cases get with
  | idle => trivial
  | promoting appliedLAI sufficient next => exact ⟨h.1.trans hle, h.2.1, h.2.2.mono hsub⟩
  | querying appliedLAI c => exact ⟨h.1.trans hle, h.2.1.mono hsub hle, h.2.2.trans hcur⟩
  | returned ts => exact ⟨h.1.mono hsub hle, h.2.trans hcur⟩

/-- The timestamp is a lower bound of what the call returns. -/
def Get.Floor (r : Int ×ₗ Int) (cur : ClosedTimestamp) : Get → Prop
  | .idle => r ≤ cur.ts.ord
  | .promoting _ _ next => r ≤ cur.ts.ord ∨ r ≤ next.ts.ord
  | .querying _ c => r ≤ c.ts.ord
  | .returned ts => r ≤ ts.ord

variable {r : Int ×ₗ Int}

lemma Get.Floor.mono
    (h : get.Floor r c) (hcur : c.ts.ord ≤ c'.ts.ord) : get.Floor r c' := by
  cases get with
  | idle => exact h.trans hcur
  | promoting appliedLAI sufficient next => exact h.imp_left fun h => h.trans hcur
  | querying appliedLAI c => exact h
  | returned ts => exact h

lemma Access.Inv.getRead (h : st.Inv us n) (hle : appliedLAI ≤ n) (sufficient : Timestamp) :
    (st.getRead appliedLAI sufficient).Inv us n st.cur := by
  have hclosed := h.cur.closed h.applied
  unfold Access.getRead
  split_ifs with hsat hnext hlt
  · exact ⟨hclosed, le_rfl⟩
  · exact ⟨hclosed, le_rfl⟩
  · exact ⟨hle, by omega, h.next⟩
  · exact ⟨hle, hclosed, le_rfl⟩

lemma getRead_floor {sufficient : Timestamp}
    (h : r ≤ st.cur.ts.ord) : (st.getRead appliedLAI sufficient).Floor r st.cur := by
  unfold Access.getRead
  split_ifs
  · exact h
  · exact h
  · exact Or.inl h
  · exact h

lemma Access.Inv.getPromote (h : st.Inv us n) (hH : History H)
    (hus : ∀ u ∈ us, u ∈ H) (hle : appliedLAI ≤ n) (hlai : c.lai ≤ appliedLAI) (hc : Known us c)
    (sufficient : Timestamp) :
    ∃ r, st.getPromote appliedLAI sufficient c = some r ∧ r.1.Inv us n ∧
      st.cur.ts.ord ≤ r.1.cur.ts.ord ∧ r.2.Inv us n r.1.cur ∧
      ∀ r0, (Get.promoting appliedLAI sufficient c).Floor r0 st.cur → r.2.Floor r0 r.1.cur := by
  obtain ⟨st', hst, hinv, hcur, hup⟩ := h.forward true hH hus
    (List.Subset.refl us) (fun _ hu => Or.inl hu) hc fun _ => hlai.trans hle
  have hclosed := hinv.cur.closed hinv.applied
  have hfloor : ∀ r0, (Get.promoting appliedLAI sufficient c).Floor r0 st.cur →
      r0 ≤ st'.cur.ts.ord := by
    intro r0 hr
    rcases hr with hr | hr
    · exact hr.trans hcur
    · exact hr.trans (hup rfl)
  unfold Access.getPromote
  rw [hst, Option.map_some]
  refine ⟨_, rfl, hinv, hcur, ?_, ?_⟩
  · dsimp only
    split_ifs
    · exact ⟨hclosed, le_rfl⟩
    · exact ⟨hle, hclosed, le_rfl⟩
  intro r0 hr
  split_ifs <;> exact hfloor r0 hr

lemma Access.Inv.getReceive {answer : Option ClosedTimestamp}
    (h : st.Inv us n) (hH : History H) (hus : ∀ u ∈ answer.toList ++ us, u ∈ H)
    (hle : appliedLAI ≤ n) (hc : Closed us n c.ts) (hcur : c.ts.ord ≤ st.cur.ts.ord) :
    ∃ r, st.getReceive appliedLAI c answer = some r ∧ r.1.Inv (answer.toList ++ us) n ∧
      st.cur.ts.ord ≤ r.1.cur.ts.ord ∧ r.2.Inv (answer.toList ++ us) n r.1.cur ∧
      ∀ r0, r0 ≤ c.ts.ord → r.2.Floor r0 r.1.cur := by
  cases answer with
  | none => exact ⟨_, rfl, h, le_rfl, ⟨hc, hcur⟩, fun _ hr => hr⟩
  | some answer =>
    have hsub : us ⊆ answer :: us := subset_cons_self answer us
    rw [Access.getReceive]
    by_cases hless : answer.ts.lessEq c.ts
    · rw [if_pos hless]
      refine ⟨_, rfl, ⟨h.cur.mono hsub, h.next.mono hsub, h.applied, h.pending, ?_⟩, le_rfl,
        ⟨hc.mono hsub le_rfl, hcur⟩, fun _ hr => hr⟩
      intro u hu
      rcases mem_cons.mp hu with rfl | hu
      · exact Or.inl ((lessEq_iff.mp hless).trans hcur)
      · exact h.covered u hu
    obtain ⟨st', hst, hinv, hcur', -⟩ := h.forward (decide (answer.lai ≤ appliedLAI)) hH hus hsub
      (fun u hu => (mem_cons.mp hu).symm) (Known.of_mem (.head _))
      (fun htrue => (of_decide_eq_true htrue).trans hle)
    rw [if_neg hless, hst, Option.map_some]
    refine ⟨_, rfl, hinv, hcur', ⟨hinv.cur.closed hinv.applied, le_rfl⟩, ?_⟩
    intro r0 hr
    exact hr.trans (hcur.trans hcur')

/-! ## Runs -/

namespace System

variable {s s' s'' : System}

structure Inv (H : Set ClosedTimestamp) (s : System) : Prop where
  updates : ∀ u ∈ s.updates, u ∈ H
  access : s.access.Inv s.updates s.applied
  gets : ∀ g, (s.gets g).Inv s.updates s.applied s.access.cur

/-- Nothing that a call may return goes down, and no update is forgotten. -/
def Ahead (s s' : System) : Prop :=
  s.updates ⊆ s'.updates ∧
    ∀ g r, (s.gets g).Floor r s.access.cur → (s'.gets g).Floor r s'.access.cur

lemma Ahead.refl (s : System) : s.Ahead s := ⟨List.Subset.refl _, fun _ _ h => h⟩

lemma Ahead.trans (h : s.Ahead s') (h' : s'.Ahead s'') : s.Ahead s'' :=
  ⟨List.Subset.trans h.1 h'.1, fun g r hr => h'.2 g r (h.2 g r hr)⟩

lemma inv_init : Inv H {} where
  updates := by simp
  access := ⟨known_empty, known_empty, le_rfl, Or.inl rfl, by simp⟩
  gets := fun _ => trivial

variable {g : ℕ}

lemma Inv.moved {us : List ClosedTimestamp} {n : ℕ} {st : Access} {get : Get} (h : s.Inv H)
    (hle : s.applied ≤ n) (hus : ∀ u ∈ us, u ∈ H) (hsub : s.updates ⊆ us) (haccess : st.Inv us n)
    (hcur : s.access.cur.ts.ord ≤ st.cur.ts.ord) (hget : get.Inv us n st.cur)
    (hfloor : ∀ r0, (s.gets g).Floor r0 s.access.cur → get.Floor r0 st.cur) :
    Inv H ⟨st, Function.update s.gets g get, us, n⟩ ∧
      s.Ahead ⟨st, Function.update s.gets g get, us, n⟩ := by
  constructor
  · refine ⟨hus, haccess, ?_⟩
    intro g'
    by_cases hg : g' = g
    · subst hg
      simpa using hget
    · simpa [hg] using (h.gets g').mono hsub hle hcur
  refine ⟨hsub, ?_⟩
  intro g' r0 hr
  by_cases hg : g' = g
  · subst hg
    simpa using hfloor r0 hr
  · simpa [hg] using hr.mono hcur

lemma Inv.step (h : s.Inv H) (hH : History H) {e : Event} (he : e.From H) :
    ∃ s', s.step e = some s' ∧ s'.Inv H ∧ s.Ahead s' := by
  have hsame : ∃ s', some s = some s' ∧ s'.Inv H ∧ s.Ahead s' := ⟨s, rfl, h, Ahead.refl s⟩
  cases e with
  | forward up knownApplied =>
    have hsub : s.updates ⊆ up :: s.updates := subset_cons_self up s.updates
    have hle : s.applied ≤ if knownApplied then max s.applied up.lai else s.applied := by
      split_ifs
      · exact le_max_left _ _
      · exact le_rfl
    have hus : ∀ u ∈ up :: s.updates, u ∈ H := forall_mem_cons.mpr ⟨he, h.updates⟩
    obtain ⟨st, hst, hinv, hcur, -⟩ := (h.access.mono hle).forward knownApplied
      hH hus hsub (fun u hu => (mem_cons.mp hu).symm) (Known.of_mem (.head _))
      (fun htrue => by simp [htrue])
    rw [System.step, hst, Option.map_some]
    refine ⟨_, rfl, ⟨hus, hinv, fun g => (h.gets g).mono hsub hle hcur⟩, hsub, ?_⟩
    intro g r hr
    exact hr.mono hcur
  | read g appliedLAI sufficient =>
    rw [System.step]
    split
    · rename_i hidle
      have haccess := h.access.mono (le_max_left s.applied appliedLAI)
      refine ⟨_, rfl, h.moved (le_max_left _ _) h.updates (List.Subset.refl _) haccess le_rfl
        (haccess.getRead (le_max_right _ _) sufficient) fun r hr => ?_⟩
      rw [hidle] at hr
      exact getRead_floor hr
    · exact hsame
  | promote g =>
    rw [System.step]
    split
    · rename_i appliedLAI sufficient next hget
      have hinv := h.gets g
      rw [hget] at hinv
      obtain ⟨r, hr, haccess, hcur, hnew, hfloor⟩ :=
        h.access.getPromote hH h.updates hinv.1 hinv.2.1 hinv.2.2 sufficient
      rw [hr, Option.map_some]
      refine ⟨_, rfl, h.moved le_rfl h.updates (List.Subset.refl _) haccess hcur hnew ?_⟩
      rw [hget]
      exact hfloor
    · exact hsame
  | receive g answer =>
    rw [System.step]
    split
    · rename_i appliedLAI cur hget
      have hinv := h.gets g
      rw [hget] at hinv
      have hus : ∀ u ∈ answer.toList ++ s.updates, u ∈ H := by
        intro u hu
        rcases mem_append.mp hu with hu | hu
        · cases answer with
          | none => cases hu
          | some answer =>
            rw [Option.toList_some, mem_singleton] at hu
            rw [hu]
            exact he
        · exact h.updates u hu
      obtain ⟨r, hr, haccess, hcur, hnew, hfloor⟩ :=
        h.access.getReceive hH hus hinv.1 hinv.2.1 hinv.2.2
      rw [hr, Option.map_some]
      refine ⟨_, rfl, h.moved le_rfl hus (subset_append_right _ _) haccess hcur hnew ?_⟩
      rw [hget]
      exact hfloor
    · exact hsame

lemma Inv.run (h : s.Inv H) (hH : History H) {es : List Event} (hes : ∀ e ∈ es, e.From H) :
    ∃ s', Transition.run System.step s es = some s' ∧ s'.Inv H ∧ s.Ahead s' := by
  induction es generalizing s with
  | nil => exact ⟨s, rfl, h, Ahead.refl s⟩
  | cons e es ih =>
    obtain ⟨t, ht, hinv, hahead⟩ := h.step hH (hes e (.head _))
    obtain ⟨s', hs, hinv', hahead'⟩ := ih hinv fun e he => hes e (.tail _ he)
    refine ⟨s', ?_, hinv', hahead.trans hahead'⟩
    rw [run_cons, ht]
    exact hs

lemma Inv.read_floor (h : s.Inv H) (hH : History H) {u : ClosedTimestamp} (hu : u ∈ s.updates)
    {appliedLAI : ℕ} {sufficient : Timestamp}
    (hsat : Access.satisfies s.access.cur sufficient = false)
    (hnext : s.access.next.lai ≤ appliedLAI) :
    (s.access.getRead appliedLAI sufficient).Floor u.ts.ord s.access.cur := by
  rcases h.access.covered u hu with hle | ⟨-, hle⟩
  · exact getRead_floor hle
  unfold Access.getRead
  rw [if_neg (by simp [hsat])]
  rcases h.access.pending with hempty | hlt
  · rw [if_neg (by simp [hempty])]
    rw [hempty] at hle
    exact hle.trans (h.access.cur.nonneg hH h.updates)
  rw [if_pos (by omega), if_neg (by omega)]
  exact Or.inr hle

lemma Inv.returns (h : s.Inv H) (hH : History H) (hg : s.gets g ≠ .idle)
    {answer : Option ClosedTimestamp} (hanswer : (Event.receive g answer).From H) :
    ∃ s' ts, Transition.run System.step s [.promote g, .receive g answer] = some s' ∧
      s'.gets g = .returned ts := by
  obtain ⟨t, ht, hinv, -⟩ := h.step hH (e := .promote g) trivial
  obtain ⟨s', hs, -, -⟩ := hinv.step hH hanswer
  have hpromoted : (∃ a c, t.gets g = .querying a c) ∨ ∃ ts, t.gets g = .returned ts := by
    rw [System.step] at ht
    split at ht
    · obtain ⟨r, hr, rfl⟩ := Option.map_eq_some_iff.mp ht
      obtain ⟨st, -, rfl⟩ := Option.map_eq_some_iff.mp hr
      simp only [System.moved, Function.update_self]
      split_ifs
      · exact Or.inr ⟨_, rfl⟩
      · exact Or.inl ⟨_, _, rfl⟩
    rename_i hne
    cases ht
    cases hget : s.gets g with
    | idle => exact absurd hget hg
    | promoting a c n => exact absurd hget (hne a c n)
    | querying a c => exact Or.inl ⟨a, c, rfl⟩
    | returned ts => exact Or.inr ⟨ts, rfl⟩
  have hreturned : ∃ ts, s'.gets g = .returned ts := by
    rcases hpromoted with ⟨a, c, hget⟩ | ⟨ts, hget⟩
    · rw [System.step, hget] at hs
      obtain ⟨r, hr, rfl⟩ := Option.map_eq_some_iff.mp hs
      simp only [System.moved, Function.update_self]
      cases answer with
      | none =>
        cases hr
        exact ⟨_, rfl⟩
      | some answer =>
        rw [Access.getReceive] at hr
        split_ifs at hr
        · cases hr
          exact ⟨_, rfl⟩
        obtain ⟨st, -, rfl⟩ := Option.map_eq_some_iff.mp hr
        exact ⟨_, rfl⟩
    · rw [System.step, hget] at hs
      cases hs
      exact ⟨ts, hget⟩
  obtain ⟨ts, hts⟩ := hreturned
  refine ⟨s', ts, ?_, hts⟩
  rw [run_cons, ht, Option.bind_some, run_cons, hs]
  rfl

/-- Interleaved calls on one history. No assertion fires, every call returns something closed, not
less than a call before it, and at least every update it is told to be applied, unless another pair
waits in `next`. -/
theorem get_never_regresses (hH : History H) (es es' : List Event) (hes : ∀ e ∈ es, e.From H)
    (hes' : ∀ e ∈ es', e.From H) :
    ∃ s s', Transition.run System.step {} es = some s ∧ Transition.run System.step s es' = some s' ∧
      (∀ g ts, s.gets g = .returned ts →
        ts.ord = ({} : Timestamp).ord ∨ ∃ u ∈ s.updates, u.lai ≤ s.applied ∧ u.ts.ord = ts.ord) ∧
      (∀ g g' ts ts', s.gets g = .returned ts → s.gets g' = .idle →
        s'.gets g' = .returned ts' → ts.ord ≤ ts'.ord) ∧
      (∀ u ∈ s.updates, ∀ g appliedLAI sufficient, s.gets g = .idle → u.lai ≤ appliedLAI →
        Access.satisfies s.access.cur sufficient = false → s.access.next.lai ≤ appliedLAI →
        ∃ t, Transition.run System.step s (.read g appliedLAI sufficient :: es') = some t ∧
          ∀ ts, t.gets g = .returned ts → u.ts.ord ≤ ts.ord) ∧
      ∀ g answer, s.gets g ≠ .idle → (Event.receive g answer).From H →
        ∃ t ts, Transition.run System.step s [.promote g, .receive g answer] = some t ∧
          t.gets g = .returned ts := by
  obtain ⟨s, hs, hinv, -⟩ := (inv_init (H := H)).run hH hes
  obtain ⟨s', hs', -, hahead⟩ := hinv.run hH hes'
  refine ⟨s, s', hs, hs', ?_, ?_, ?_, ?_⟩
  · intro g ts hg
    have hget := hinv.gets g
    rw [hg] at hget
    obtain ⟨u, hu, hlai, hts⟩ := hget.1
    rcases mem_cons.mp hu with rfl | hu
    · exact Or.inl hts.symm
    · exact Or.inr ⟨u, hu, hlai, hts⟩
  · intro g g' ts ts' hg hidle hg'
    have hget := hinv.gets g
    rw [hg] at hget
    have hfloor := hahead.2 g' ts.ord
    rw [hidle, hg'] at hfloor
    exact hfloor hget.2
  · intro u hu g appliedLAI sufficient hidle _ hsat hnext
    have hfloor := hinv.read_floor hH hu hsat hnext
    obtain ⟨t₁, ht₁, hinv₁, -⟩ := hinv.step hH (e := .read g appliedLAI sufficient) trivial
    obtain ⟨t, ht, -, hahead₁⟩ := hinv₁.run hH hes'
    refine ⟨t, ?_, ?_⟩
    · rw [run_cons, ht₁]
      exact ht
    intro ts hts
    have hend := hahead₁.2 g u.ts.ord
    rw [hts] at hend
    apply hend
    rw [System.step, hidle] at ht₁
    cases ht₁
    simpa using hfloor
  · intro g answer hg hanswer
    exact hinv.returns hH hg hanswer

/-- Two calls that overlap, with an update that has to wait for its index. -/
theorem get_never_regresses_overlapping :
    ∃ s s', Transition.run System.step {} [.forward ⟨{ wallTime := 5 }, 3⟩ false, .read 1 2 {},
        .read 2 3 {}, .promote 2, .receive 2 none] = some s ∧
      Transition.run System.step s [.read 3 1 {}, .receive 3 (some ⟨{ wallTime := 7 }, 4⟩)] =
        some s' ∧
      (∀ g ts, s.gets g = .returned ts →
        ts.ord = ({} : Timestamp).ord ∨ ∃ u ∈ s.updates, u.lai ≤ s.applied ∧ u.ts.ord = ts.ord) ∧
      (∀ g g' ts ts', s.gets g = .returned ts → s.gets g' = .idle →
        s'.gets g' = .returned ts' → ts.ord ≤ ts'.ord) :=
  have hmono : ∀ a ∈ [(⟨{ wallTime := 5 }, 3⟩ : ClosedTimestamp), ⟨{ wallTime := 7 }, 4⟩],
      ∀ b ∈ [(⟨{ wallTime := 5 }, 3⟩ : ClosedTimestamp), ⟨{ wallTime := 7 }, 4⟩],
        a.lai < b.lai → a.ts.ord ≤ b.ts.ord := by decide
  have hnonneg : ∀ a ∈ [(⟨{ wallTime := 5 }, 3⟩ : ClosedTimestamp), ⟨{ wallTime := 7 }, 4⟩],
      ({} : Timestamp).ord ≤ a.ts.ord := by decide
  have hH : History {c | c ∈ [(⟨{ wallTime := 5 }, 3⟩ : ClosedTimestamp),
      ⟨{ wallTime := 7 }, 4⟩]} := ⟨hmono, hnonneg⟩
  have ⟨s, s', hs, hs', hclosed, hmono, _⟩ := get_never_regresses hH
    [.forward ⟨{ wallTime := 5 }, 3⟩ false, .read 1 2 {}, .read 2 3 {}, .promote 2, .receive 2 none]
    [.read 3 1 {}, .receive 3 (some ⟨{ wallTime := 7 }, 4⟩)]
    (by simp [Event.From]) (by simp [Event.From])
  ⟨s, s', hs, hs', hclosed, hmono⟩

end System
end MeshDB.Sidetransport
