import Mathlib.Data.Fintype.Basic

/-!
# Splitting a batch

`BatchRequest.Split` cuts a batch into parts that one store can execute. A request is
compared with the flags of everything before it in its part; a prefix request borrows the
flags of the request it precedes, and an `EndTxn` that may not be split off is compared
as if it had none. Of the flags those that `Split` reads are kept, with `isRead`: a
request is never without one of `isAdmin`, `isRead` and `isWrite`.
-/
namespace MeshDB.Kvpb.BatchSplit

open List Finset

inductive Flag where
  | isAdmin | isRead | isWrite | isRange | isReverse | isAlone | isPrefix
deriving DecidableEq

inductive Args where
  | get | put | conditionalPut | initPut | increment | delete
  | deleteRange (useRangeTombstone inline : Bool)
  | clearRange | revertRange | scan | reverseScan | endTxn | adminSplit | adminUnsplit
  | adminMerge | adminTransferLease | adminChangeReplicas | adminRelocateRange
  | gc (clearRange : Bool)
  | heartbeatTxn | pushTxn | recoverTxn | queryTxn | queryIntent | queryLocks
  | resolveIntent | resolveIntentRange | truncateLog | merge | requestLease | leaseInfo
  | transferLease | probe | recomputeStats | computeChecksum | checkConsistency | exportRequest
  | adminScatter | adminVerifyProtectedTimestamp | addSSTable | migrate | refresh
  | refreshRange | subsume | rangeStats | queryResolvedTimestamp | barrier | isSpanEmpty
deriving DecidableEq

open BatchSplit.Flag

def Args.flags : Args → Finset Flag
  | .get | .refresh | .rangeStats => {isRead}
  | .put | .heartbeatTxn | .resolveIntent | .truncateLog | .merge | .computeChecksum => {isWrite}
  | .conditionalPut | .initPut | .increment | .delete => {isRead, isWrite}
  | .deleteRange true _ => {isWrite, isRange, isAlone}
  | .deleteRange false true => {isRead, isWrite, isRange, isAlone}
  | .deleteRange false false => {isRead, isWrite, isRange}
  | .clearRange | .revertRange | .addSSTable | .migrate | .barrier | .gc true =>
    {isWrite, isRange, isAlone}
  | .scan | .queryLocks | .exportRequest | .refreshRange | .queryResolvedTimestamp | .isSpanEmpty =>
    {isRead, isRange}
  | .reverseScan => {isRead, isRange, isReverse}
  | .endTxn | .pushTxn | .recoverTxn | .requestLease | .transferLease | .probe
  | .recomputeStats => {isWrite, isAlone}
  | .adminSplit | .adminUnsplit | .adminMerge | .adminTransferLease | .adminChangeReplicas
  | .adminRelocateRange => {isAdmin, isAlone}
  | .checkConsistency | .adminScatter | .adminVerifyProtectedTimestamp =>
    {isAdmin, isRange, isAlone}
  | .queryTxn | .leaseInfo | .subsume => {isRead, isAlone}
  | .queryIntent => {isRead, isPrefix}
  | .resolveIntentRange | .gc false => {isWrite, isRange}

def compatible (exFlags newFlags : Finset Flag) : Bool :=
  if isAlone ∈ exFlags ∨ isAlone ∈ newFlags then false
  else if exFlags = ∅ ∨ newFlags = ∅ then true
  else
    let mask : Finset Flag :=
      if isRange ∈ exFlags ∧ isRange ∈ newFlags then {isWrite, isAdmin, isReverse}
      else {isWrite, isAdmin}
    mask ∩ exFlags = mask ∩ newFlags

section
variable (canSplitET : Bool)

/-- An `EndTxn` that may not be split off is always compatible. -/
def Args.cmpFlags (a : Args) (flags : Finset Flag) : Finset Flag :=
  if !canSplitET && a = .endTxn then ∅ else flags

/-- The flags of the first request that is no prefix request. -/
def headerFlags : List Args → Option (Finset Flag)
  | [] => none
  | a :: rest =>
    let nFlags := a.cmpFlags canSplitET a.flags
    if isPrefix ∈ nFlags then headerFlags rest else some nFlags

/-- One round of the inner loop: `hFlags` for the following requests, and the flags that
the request counts with. -/
def borrow (hFlags : Option (Finset Flag)) (a : Args) (rest : List Args) :
    Option (Finset Flag) × Finset Flag :=
  if isPrefix ∈ a.flags then
    let hFlags := hFlags.or (headerFlags canSplitET rest)
    match hFlags with
    | some h => (hFlags, if isAlone ∈ h then a.flags else h)
    | none => (hFlags, a.flags)
  else (none, a.flags)

/-- The inner loop: the requests of the part and those after it. -/
def part (gFlags hFlags : Option (Finset Flag)) : List Args → List Args × List Args
  | [] => ([], [])
  | a :: rest =>
    let b := borrow canSplitET hFlags a rest
    -- if no flags are set so far, everything goes
    if gFlags.all (compatible · (a.cmpFlags canSplitET b.2)) then
      let p := part (some (gFlags.getD ∅ ∪ b.2)) b.1 rest
      (a :: p.1, p.2)
    else ([], a :: rest)

lemma part_append (g h : Option (Finset Flag)) (l : List Args) :
    (part canSplitET g h l).1 ++ (part canSplitET g h l).2 = l := by
  induction l generalizing g h with
  | nil => rfl
  | cons a rest ih =>
    unfold part
    dsimp only
    split_ifs
    · rw [cons_append, ih]
    · rfl

def split (ba : List Args) : List (List Args) :=
  match ba with
  | [] => []
  | a :: rest =>
    let p := part canSplitET none none (a :: rest)
    p.1 :: split p.2
termination_by ba.length
decreasing_by
  have h := congrArg length (part_append canSplitET none none (a :: rest))
  simp [part] at h ⊢
  omega

/-- The request is compared without its own flags: as an `EndTxn` that may not be split
off, or as a prefix request that a request of its part follows. -/
def Exempt (a : Args) (after : List Args) : Prop :=
  a.cmpFlags canSplitET a.flags = ∅ ∨ isPrefix ∈ a.flags ∧ ∃ b ∈ after, isPrefix ∉ b.flags

structure Legal (p : List Args) : Prop where
  ne_nil : p ≠ []
  alone : ∀ a l, a :: l <:+ p → isAlone ∈ a.flags →
    p = [a] ∨ a = .endTxn ∧ canSplitET = false ∧ l = []
  writes : ∀ a l b m, a :: l <:+ p → b :: m <:+ p → ¬Exempt canSplitET a l →
    ¬Exempt canSplitET b m → (isWrite ∈ a.flags ↔ isWrite ∈ b.flags)
  direction : ∀ a ∈ p, ∀ b ∈ p, isRange ∈ a.flags → isRange ∈ b.flags →
    (isReverse ∈ a.flags ↔ isReverse ∈ b.flags)

end

def Directed (f : Finset Flag) : Prop := isReverse ∈ f → isRange ∈ f

lemma directed_flags (a : Args) : Directed a.flags := by
  unfold Directed
  fun_cases Args.flags <;> decide

lemma eq_queryIntent {a : Args} (h : isPrefix ∈ a.flags) : a = .queryIntent := by
  revert h
  fun_cases Args.flags <;> simp

lemma compatible_iff {g f : Finset Flag} : compatible g f ↔ isAlone ∉ g ∧ isAlone ∉ f ∧
    (g ≠ ∅ → f ≠ ∅ → (isWrite ∈ g ↔ isWrite ∈ f) ∧ (isAdmin ∈ g ↔ isAdmin ∈ f) ∧
      (isRange ∈ g → isRange ∈ f → (isReverse ∈ g ↔ isReverse ∈ f))) := by
  unfold compatible
  split_ifs <;> simp [Finset.ext_iff] <;> grind

/-- The flags `f` of one request agree with those of its part. -/
def Agrees (g f : Finset Flag) : Prop := Directed f ∧ f ⊆ g ∧ compatible g f

variable {g f e : Finset Flag} {et : Bool} {a : Args} {rest : List Args}

lemma agrees_union (hg : Directed g) (hf : Directed f) (hc : compatible g f) :
    Agrees (g ∪ f) f := by
  unfold Agrees Directed at *
  rw [compatible_iff] at *
  rcases eq_or_ne g ∅ with rfl | hne
  · simp_all
  · grind

/-- What agrees with the flags of a part still does after one more request. -/
lemma Agrees.union (ha : Agrees g f) (he : Directed e) (hc : compatible g e) :
    Agrees (g ∪ e) f := by
  refine ⟨ha.1, ha.2.1.trans subset_union_left, ?_⟩
  obtain ⟨-, hsub, hf⟩ := ha
  rw [compatible_iff] at *
  unfold Directed at he
  rcases eq_or_ne e ∅ with rfl | hne
  · simp_all
  rcases eq_or_ne g ∅ with rfl | hg
  · simp_all
  · simp only [mem_union]
    grind

/-- The flags that a request counts with. -/
def counted (et : Bool) (a : Args) (rest : List Args) : Finset Flag := (borrow et none a rest).2

lemma headerFlags_of_mem (ha : isPrefix ∈ a.flags) :
    headerFlags et (a :: rest) = headerFlags et rest := by
  cases eq_queryIntent ha
  simp [headerFlags, Args.cmpFlags, Args.flags]

/-- The cached flags are those that the loop would look for. -/
lemma part_cached (l : List Args) (g : Option (Finset Flag)) :
    part et g (headerFlags et l) l = part et g none l := by
  induction l generalizing g with
  | nil => rfl
  | cons a rest ih =>
    unfold part borrow
    by_cases ha : isPrefix ∈ a.flags
    · rw [headerFlags_of_mem ha]
      cases hh : headerFlags et rest <;> simp [ha]
    · simp [ha]

lemma part_borrow (g : Option (Finset Flag)) :
    part et g (borrow et none a rest).1 rest = part et g none rest := by
  unfold borrow
  split
  · cases hh : headerFlags et rest
    · simp
    · simpa [hh] using @part_cached et rest g
  · rfl

lemma part_of_compatible (hc : compatible g (a.cmpFlags et (counted et a rest))) :
    (part et (some g) none (a :: rest)).1 =
      a :: (part et (some (g ∪ counted et a rest)) none rest).1 := by
  unfold counted at *
  simp [part, hc, part_borrow]

lemma part_of_not_compatible
    (hc : ¬compatible g (a.cmpFlags et (counted et a rest))) :
    (part et (some g) none (a :: rest)).1 = [] := by
  unfold counted at hc
  simp [part, hc]

lemma part_of_alone (hg : isAlone ∈ g) (l : List Args) : (part et (some g) none l).1 = [] := by
  cases l with
  | nil => rfl
  | cons a rest => exact part_of_not_compatible fun hc => (compatible_iff.mp hc).1 hg

lemma counted_of_not_mem (ha : isPrefix ∉ a.flags) : counted et a rest = a.flags := by
  simp [counted, borrow, ha]

lemma counted_of_headerFlags (ha : isPrefix ∈ a.flags) (hf : headerFlags et rest = some f)
    (halone : isAlone ∉ f) : counted et a rest = f := by
  simp [counted, borrow, ha, hf, halone]

lemma counted_cases (et : Bool) (a : Args) (rest : List Args) : counted et a rest = a.flags ∨
    isPrefix ∈ a.flags ∧ headerFlags et rest = some (counted et a rest) := by
  unfold counted borrow
  cases hf : headerFlags et rest <;> grind

lemma directed_headerFlags (l : List Args) (hf : headerFlags et l = some f) : Directed f := by
  induction l with
  | nil => cases hf
  | cons a rest ih =>
    simp only [headerFlags, Args.cmpFlags] at hf
    have ha := directed_flags a
    grind [Directed]

/-- A prefix request is in one part with the request whose flags it borrows. -/
lemma exists_of_headerFlags (l : List Args) (hl : headerFlags et l = some f)
    (hf : Agrees g f) : ∃ b ∈ (part et (some g) none l).1, isPrefix ∉ b.flags := by
  induction l with
  | nil => cases hl
  | cons a rest ih =>
    by_cases ha : isPrefix ∈ a.flags
    · rw [headerFlags_of_mem ha] at hl
      have hb := counted_of_headerFlags ha hl (compatible_iff.mp hf.2.2).2.1
      have hcmp : a.cmpFlags et f = f := by
        cases eq_queryIntent ha
        simp [Args.cmpFlags]
      rw [part_of_compatible (by rw [hb, hcmp]; exact hf.2.2), hb,
        union_eq_left.mpr hf.2.1]
      obtain ⟨b, hb, hno⟩ := ih hl
      exact ⟨b, mem_cons_of_mem a hb, hno⟩
    · have hcmp : a.cmpFlags et a.flags = f := by
        simp only [headerFlags, Args.cmpFlags] at hl ⊢
        grind
      rw [part_of_compatible (by rw [counted_of_not_mem ha, hcmp]; exact hf.2.2)]
      exact ⟨a, mem_cons_self, ha⟩

/-- Every request of a part, but for an `EndTxn` at its end, agrees with the flags `G` of
the part. -/
def Governed (et : Bool) (G : Finset Flag) (p : List Args) : Prop :=
  ∀ a l, a :: l <:+ p → a = .endTxn ∧ et = false ∧ l = [] ∨
    ∃ f, Agrees G f ∧ (f = a.flags ∨ isPrefix ∈ a.flags ∧ ∃ b ∈ l, isPrefix ∉ b.flags)

lemma part_governed (l : List Args) (hg : Directed g) :
    ∃ G, (∀ f, Agrees g f → Agrees G f) ∧ Governed et G (part et (some g) none l).1 := by
  induction l generalizing g with
  | nil => exact ⟨g, fun _ => id, by simp [Governed, part]⟩
  | cons a rest ih =>
    by_cases hc : compatible g (a.cmpFlags et (counted et a rest))
    case neg =>
      rw [part_of_not_compatible hc]
      exact ⟨g, fun _ => id, by simp [Governed]⟩
    rw [part_of_compatible hc]
    by_cases het : et = false ∧ a = .endTxn
    · obtain ⟨rfl, rfl⟩ := het
      rw [part_of_alone (by simp [counted, borrow, Args.flags])]
      exact ⟨g, fun _ => id, by simp [Governed, suffix_cons_iff]⟩
    have hcmp : a.cmpFlags et (counted et a rest) = counted et a rest := by
      unfold Args.cmpFlags
      grind
    rw [hcmp] at hc
    have hdir : Directed (counted et a rest) := by
      obtain heq | ⟨-, heq⟩ := counted_cases et a rest
      · rw [heq]
        exact directed_flags a
      · exact directed_headerFlags rest heq
    have hagrees := agrees_union hg hdir hc
    obtain ⟨G, hkeep, hgov⟩ := @ih (g ∪ counted et a rest) (by unfold Directed at *; grind)
    refine ⟨G, fun f hf => hkeep f (hf.union hdir hc), fun b m hm => ?_⟩
    rcases suffix_cons_iff.mp hm with heq | hm
    · obtain ⟨rfl, rfl⟩ := cons.inj heq
      exact .inr ⟨_, hkeep _ hagrees, (counted_cases et b rest).imp_right fun h =>
        ⟨h.1, exists_of_headerFlags rest h.2 hagrees⟩⟩
    · exact hgov b m hm

lemma Governed.legal {G : Finset Flag} {p : List Args} (hp : Governed et G p) (hne : p ≠ []) :
    Legal et p := by
  have hown : ∀ a l, a :: l <:+ p → ¬Exempt et a l → Agrees G a.flags ∧ a.flags ≠ ∅ := by
    intro a l hl hex
    unfold Exempt at hex
    push Not at hex
    obtain ⟨rfl, rfl, -⟩ | ⟨f, hf, rfl | ⟨hpre, b, hb, hno⟩⟩ := hp a l hl
    · simp [Args.cmpFlags] at hex
    · refine ⟨hf, fun h => ?_⟩
      simp [Args.cmpFlags, h] at hex
    · exact absurd (hex.2 hpre b hb) hno
  have hrange : ∀ a ∈ p, isRange ∈ a.flags → Agrees G a.flags := by
    intro a ha hr
    obtain ⟨before, l, rfl⟩ := append_of_mem ha
    obtain ⟨rfl, -⟩ | ⟨f, hf, rfl | ⟨hpre, -⟩⟩ := hp a l (suffix_append ..)
    · simp [Args.flags] at hr
    · exact hf
    · cases eq_queryIntent hpre
      simp [Args.flags] at hr
  refine ⟨hne, fun a l hl halone => .inr ?_, fun a l b m hl hm hea heb => ?_,
    fun a ha b hb hra hrb => ?_⟩
  · obtain hend | ⟨f, hf, rfl | ⟨hpre, -⟩⟩ := hp a l hl
    · exact hend
    · exact absurd halone (compatible_iff.mp hf.2.2).2.1
    · cases eq_queryIntent hpre
      simp [Args.flags] at halone
  · obtain ⟨ha, hane⟩ := hown a l hl hea
    obtain ⟨hb, hbne⟩ := hown b m hm heb
    simp only [Agrees, compatible_iff] at ha hb
    grind
  · have hca := hrange a ha hra
    have hcb := hrange b hb hrb
    have hne' := ne_empty_of_mem hra
    have hne'' := ne_empty_of_mem hrb
    simp only [Agrees, compatible_iff] at hca hcb
    grind

lemma part_legal (a : Args) (rest : List Args) :
    Legal et (part et none none (a :: rest)).1 := by
  by_cases halone : isAlone ∈ counted et a rest
  · have hp : (part et none none (a :: rest)).1 = [a] := by
      simp [part, part_borrow]
      exact part_of_alone halone rest
    rw [hp]
    constructor <;> grind [suffix_cons_iff]
  have hc : compatible ∅ (a.cmpFlags et (counted et a rest)) := by
    rw [compatible_iff]
    unfold Args.cmpFlags
    split <;> simp [halone]
  have hp : (part et none none (a :: rest)).1 = (part et (some ∅) none (a :: rest)).1 := by
    rw [part_of_compatible hc]
    simp [part, part_borrow, counted]
  obtain ⟨G, -, hG⟩ := @part_governed ∅ et (a :: rest) (by simp [Directed])
  rw [← hp] at hG
  exact hG.legal (by simp [part])

theorem split_legal_partition (canSplitET : Bool) (ba : List Args) :
    (split canSplitET ba).flatten = ba ∧ ∀ p ∈ split canSplitET ba, Legal canSplitET p := by
  fun_induction split canSplitET ba with
  | case1 => simp
  | case2 a rest p ih =>
    refine ⟨?_, forall_mem_cons.mpr ⟨part_legal a rest, ih.2⟩⟩
    rw [flatten_cons, ih.1]
    exact part_append canSplitET none none (a :: rest)

end MeshDB.Kvpb.BatchSplit
