import Mathlib.Data.List.Nodup

/-!
# Intrusive circular doubly linked lists

The nodes are the elements and a root that stands for both ends. `CircularList` is the heap of
their pointers with a length counter, and `Repr l xs` says that `l` is the list `xs`. An operation
that would follow a nil pointer has no result.
-/

inductive CircularNode (ι : Type*) where
  | root
  | elem (a : ι)
deriving DecidableEq

/-- The pointers of a circular list and its length counter. -/
structure CircularList (ι : Type*) where
  next : CircularNode ι → Option (CircularNode ι)
  prev : CircularNode ι → Option (CircularNode ι)
  len : Int

namespace CircularList

open CircularNode
variable {ι : Type*}

/-- The zero value: no pointer is set, not even the root's. -/
def zero : CircularList ι := ⟨fun _ => none, fun _ => none, 0⟩

/-- The first node, nil for a list of length zero. -/
def front (l : CircularList ι) : Option (CircularNode ι) :=
  if l.len = 0 then none else l.next root

/-- An element is in a list exactly when its next pointer is set. -/
def linked (l : CircularList ι) (a : ι) : Bool := (l.next (elem a)).isSome

/-- The two nodes point at each other. -/
def Link (l : CircularList ι) (a b : CircularNode ι) : Prop :=
  l.next a = some b ∧ l.prev b = some a

def Seg (l : CircularList ι) : CircularNode ι → List ι → CircularNode ι → Prop
  | a, [], b => l.Link a b
  | a, x :: xs, b => l.Link a (elem x) ∧ l.Seg (elem x) xs b

/-- The list has the elements `xs`, linked from the root back to it, or an unused root. -/
structure Repr (l : CircularList ι) (xs : List ι) : Prop where
  nodup : xs.Nodup
  len_eq : l.len = xs.length
  seg : l.Seg root xs root ∨ (xs = [] ∧ l.next root = none)
  next_off : ∀ a, a ∉ xs → l.next (elem a) = none
  prev_off : ∀ a, a ∉ xs → l.prev (elem a) = none

lemma repr_zero : (zero : CircularList ι).Repr [] where
  nodup := List.nodup_nil
  len_eq := rfl
  seg := .inr ⟨rfl, rfl⟩
  next_off := fun _ _ => rfl
  prev_off := fun _ _ => rfl

variable {l : CircularList ι} {a b : CircularNode ι} {xs : List ι} {ys : List ι}

lemma seg_append {y : ι} :
    l.Seg a (xs ++ y :: ys) b ↔ l.Seg a xs (elem y) ∧ l.Seg (elem y) ys b := by
  induction xs generalizing a with
  | nil => rfl
  | cons x xs ih => simp only [List.cons_append, Seg, ih, and_assoc]

variable {l' : CircularList ι}

/-- A segment reads only the pointers inside it. -/
lemma Seg.frame (h : l.Seg a xs b) (hna : l'.next a = l.next a)
    (hn : ∀ x ∈ xs, l'.next (elem x) = l.next (elem x))
    (hp : ∀ x ∈ xs, l'.prev (elem x) = l.prev (elem x)) (hpb : l'.prev b = l.prev b) :
    l'.Seg a xs b := by
  induction xs generalizing a with
  | nil => exact ⟨hna.trans h.1, hpb.trans h.2⟩
  | cons x xs ih =>
    obtain ⟨⟨h1, h2⟩, h3⟩ := h
    refine ⟨⟨hna.trans h1, (hp x (.head _)).trans h2⟩, ih h3 ?_ ?_ ?_⟩
    · exact hn x (.head _)
    · exact fun y hy => hn y (.tail _ hy)
    · exact fun y hy => hp y (.tail _ hy)

lemma Seg.next_ne_none (h : l.Seg a xs b) : l.next a ≠ none := by
  cases xs with
  | nil => simp [h.1]
  | cons x xs => simp [h.1.1]

lemma Seg.next_elem_ne_none {x : ι}
    (h : l.Seg a xs b) (hx : x ∈ xs) : l.next (elem x) ≠ none := by
  obtain ⟨ys, zs, rfl⟩ := List.append_of_mem hx
  exact (seg_append.mp h).2.next_ne_none

/-- The last node of a segment before its end. -/
def lastNode : CircularNode ι → List ι → CircularNode ι
  | a, [] => a
  | _, x :: xs => lastNode (elem x) xs

/-- The first node of a segment after its start. -/
def firstNode (b : CircularNode ι) : List ι → CircularNode ι
  | [] => b
  | x :: _ => elem x

lemma seg_join
    (hx : l.Seg a xs (firstNode b ys)) (hy : ∀ z zs, ys = z :: zs → l.Seg (elem z) zs b) :
    l.Seg a (xs ++ ys) b := by
  cases ys with
  | nil => simpa [firstNode] using hx
  | cons z zs => exact seg_append.mpr ⟨hx, hy z zs rfl⟩

lemma lastNode_mem (a : CircularNode ι) (xs : List ι) :
    lastNode a xs = a ∨ ∃ x ∈ xs, lastNode a xs = elem x := by
  induction xs generalizing a with
  | nil => exact .inl rfl
  | cons x xs ih =>
    rcases ih (elem x) with h | ⟨y, hy, h⟩
    · exact .inr ⟨x, .head _, h⟩
    · exact .inr ⟨y, List.mem_cons_of_mem _ hy, h⟩

lemma firstNode_mem (b : CircularNode ι) (xs : List ι) :
    firstNode b xs = b ∨ ∃ x ∈ xs, firstNode b xs = elem x := by
  cases xs with
  | nil => exact .inl rfl
  | cons x xs => exact .inr ⟨x, .head _, rfl⟩

lemma Seg.link_last (h : l.Seg a xs b) : l.Link (lastNode a xs) b := by
  induction xs generalizing a with
  | nil => exact h
  | cons x xs ih => exact ih h.2

lemma Seg.link_first (h : l.Seg a xs b) : l.Link a (firstNode b xs) := by
  cases xs with
  | nil => exact h
  | cons x xs => exact h.1

/-- A segment can be given another end by linking its last node to it. -/
lemma Seg.retarget {b' : CircularNode ι}
    (h : l.Seg a xs b) (hnodup : xs.Nodup) (ha : ∀ x ∈ xs, elem x ≠ a)
    (hn : ∀ n, n ≠ lastNode a xs → (n = a ∨ ∃ x ∈ xs, n = elem x) → l'.next n = l.next n)
    (hp : ∀ x ∈ xs, l'.prev (elem x) = l.prev (elem x))
    (hlink : l'.Link (lastNode a xs) b') : l'.Seg a xs b' := by
  induction xs generalizing a with
  | nil => exact hlink
  | cons x xs ih =>
    obtain ⟨⟨h1, h2⟩, h3⟩ := h
    obtain ⟨hx, hxs⟩ := List.nodup_cons.mp hnodup
    have hlast : a ≠ lastNode (elem x) xs := by
      intro heq
      rcases lastNode_mem (elem x) xs with h | ⟨y, hy, h⟩
      · exact ha x (.head _) (heq.trans h).symm
      · exact ha y (.tail _ hy) (heq.trans h).symm
    refine ⟨⟨(hn a hlast (.inl rfl)).trans h1, (hp x (.head _)).trans h2⟩, ?_⟩
    refine ih h3 hxs ?_ ?_ (fun y hy => hp y (.tail _ hy)) hlink
    · rintro y hy ⟨⟩
      exact hx hy
    rintro n hne (rfl | ⟨y, hy, rfl⟩)
    · exact hn _ hne (.inr ⟨x, .head _, rfl⟩)
    · exact hn _ hne (.inr ⟨y, List.mem_cons_of_mem _ hy, rfl⟩)

lemma linked_iff (h : l.Repr xs) (a : ι) : l.linked a ↔ a ∈ xs := by
  rw [linked, Option.isSome_iff_ne_none]
  constructor
  · exact fun hn => by_contra fun ha => hn (h.next_off a ha)
  intro ha
  rcases h.seg with hseg | ⟨rfl, _⟩
  · exact hseg.next_elem_ne_none ha
  · cases ha

lemma front_eq (h : l.Repr xs) : l.front = xs.head?.map elem := by
  cases xs with
  | nil => simp [front, h.len_eq]
  | cons x xs =>
    have hlen : l.len ≠ 0 := by
      rw [h.len_eq, List.length_cons]
      omega
    rcases h.seg with hseg | ⟨hnil, _⟩
    · simp [front, hlen, hseg.1.1]
    · cases hnil

section
variable [DecidableEq ι]

def setNext (l : CircularList ι) (n : CircularNode ι) (t : Option (CircularNode ι)) :
    CircularList ι := { l with next := Function.update l.next n t }

def setPrev (l : CircularList ι) (n : CircularNode ι) (t : Option (CircularNode ι)) :
    CircularList ι := { l with prev := Function.update l.prev n t }

/-- The root is linked to itself at the first use. -/
def lazyInit (l : CircularList ι) : CircularList ι :=
  if l.next root = none then (l.setNext root (some root)).setPrev root (some root) else l

def pushBack (a : ι) (l₀ : CircularList ι) : Option (CircularList ι) := do
  let l := l₀.lazyInit
  let at_ ← l.prev root
  let n := l.next at_
  let l := l.setNext at_ (some (elem a))
  let l := l.setPrev (elem a) (some at_)
  let l := l.setNext (elem a) n
  let n ← n
  let l := l.setPrev n (some (elem a))
  return { l with len := l.len + 1 }

def remove (a : ι) (l : CircularList ι) : Option (CircularList ι) := do
  let p ← l.prev (elem a)
  let l := l.setNext p (l.next (elem a))
  let n ← l.next (elem a)
  let l := l.setPrev n (l.prev (elem a))
  let l := l.setNext (elem a) none
  let l := l.setPrev (elem a) none
  return { l with len := l.len - 1 }

variable {l : CircularList ι} {a : ι} {xs : List ι}

lemma lazyInit_repr (h : l.Repr xs) :
    l.lazyInit.Repr xs ∧ l.lazyInit.Seg root xs root := by
  rcases h.seg with hseg | ⟨rfl, hnone⟩
  · have heq : l.lazyInit = l := by simp [lazyInit, hseg.next_ne_none]
    rw [heq]
    exact ⟨h, hseg⟩
  have hseg : l.lazyInit.Seg root [] root := by
    simp [lazyInit, hnone, Seg, Link, setNext, setPrev]
  refine ⟨⟨List.nodup_nil, ?_, .inl hseg, ?_, ?_⟩, hseg⟩
  · simpa [lazyInit, hnone, setNext, setPrev] using h.len_eq
  · simpa [lazyInit, hnone, setNext, setPrev] using h.next_off
  · simpa [lazyInit, hnone, setNext, setPrev] using h.prev_off

variable {p : CircularNode ι}

/-- The pointers after a push behind the node `p`, the last one before the root. -/
lemma pushBack_eq (a : ι) (hlink : l.lazyInit.Link p root) :
    l.pushBack a = some
      { next := Function.update (Function.update l.lazyInit.next p (some (elem a)))
          (elem a) (some root)
        prev := Function.update (Function.update l.lazyInit.prev (elem a) (some p))
          root (some (elem a))
        len := l.lazyInit.len + 1 } := by
  simp [pushBack, hlink.1, hlink.2, setNext, setPrev]

/-- Pushing an element that is not in the list puts it at the end. -/
lemma pushBack_repr (h : l.Repr xs) (ha : a ∉ xs) :
    ∃ l', l.pushBack a = some l' ∧ l'.Repr (xs ++ [a]) := by
  obtain ⟨h, hseg⟩ := lazyInit_repr h
  have hxa : ∀ x ∈ xs, x ≠ a := fun x hx heq => ha (heq ▸ hx)
  have hlast : lastNode root xs ≠ elem a := by
    rcases lastNode_mem root xs with hr | ⟨x, hx, hr⟩
    · simp [hr]
    · simpa [hr] using hxa x hx
  refine ⟨_, pushBack_eq a hseg.link_last, ?_, ?_, .inl ?_, ?_, ?_⟩
  · rw [List.nodup_append_comm]
    exact List.nodup_cons.mpr ⟨ha, h.nodup⟩
  · simp [h.len_eq]
  · refine seg_append.mpr ⟨hseg.retarget h.nodup (by simp) ?_ ?_ ?_, ?_⟩
    · rintro n hne (rfl | ⟨x, hx, rfl⟩)
      · simp [hne]
      · simp [hne, hxa x hx]
    · intro x hx
      simp [hxa x hx]
    · simp [Link, hlast]
    · simp [Seg, Link]
  · intro b hb
    obtain ⟨hb, hba⟩ : b ∉ xs ∧ b ≠ a := by simpa using hb
    have hbl : elem b ≠ lastNode root xs := by
      rcases lastNode_mem root xs with hr | ⟨x, hx, hr⟩
      · simp [hr]
      have hbx : b ≠ x := fun heq => hb (heq ▸ hx)
      simpa [hr] using hbx
    simpa [hba, hbl] using h.next_off b hb
  · intro b hb
    obtain ⟨hb, hba⟩ : b ∉ xs ∧ b ≠ a := by simpa using hb
    simpa [hba] using h.prev_off b hb

/-- The pointers after the removal of an element between the nodes `p` and `n`. -/
lemma remove_eq {n : CircularNode ι}
    (hp : l.Link p (elem a)) (hn : l.Link (elem a) n) (hpa : p ≠ elem a) :
    l.remove a = some
      { next := Function.update (Function.update l.next p (some n)) (elem a) none
        prev := Function.update (Function.update l.prev n (some p)) (elem a) none
        len := l.len - 1 } := by
  simp [remove, hp.2, hn.1, setNext, setPrev, hpa.symm]

/-- Removing an element of the list leaves the other elements in their order. -/
lemma remove_repr {zs : List ι} (h : l.Repr (ys ++ a :: zs)) :
    ∃ l', l.remove a = some l' ∧ l'.Repr (ys ++ zs) := by
  have hseg : l.Seg root (ys ++ a :: zs) root := by simpa using h.seg
  obtain ⟨hys, hzs⟩ := seg_append.mp hseg
  obtain ⟨hnys, hnzs, hdisj⟩ := List.nodup_append.mp h.nodup
  obtain ⟨hazs, hnzs⟩ := List.nodup_cons.mp hnzs
  have hya : ∀ y ∈ ys, y ≠ a := fun y hy => hdisj y hy a (.head _)
  have hza : ∀ z ∈ zs, z ≠ a := fun z hz heq => hazs (heq ▸ hz)
  have hyz : ∀ y ∈ ys, ∀ z ∈ zs, y ≠ z := fun y hy z hz =>
    hdisj y hy z (.tail _ hz)
  have hp := lastNode_mem root ys
  have hn := firstNode_mem root zs
  have hpa : lastNode root ys ≠ elem a := by
    rcases hp with hp | ⟨y, hy, hp⟩
    · simp [hp]
    · simpa [hp] using hya y hy
  have hna : firstNode root zs ≠ elem a := by
    rcases hn with hn | ⟨z, hz, hn⟩
    · simp [hn]
    · simpa [hn] using hza z hz
  have hpz : ∀ z, z ∉ ys → elem z ≠ lastNode root ys := by
    intro z hz heq
    rcases hp with hp | ⟨y, hy, hp⟩
    · simp [hp] at heq
    rw [hp] at heq
    cases heq
    exact hz hy
  have hny : ∀ y, y ∉ zs → elem y ≠ firstNode root zs := by
    intro y hy heq
    rcases hn with hn | ⟨z, hz, hn⟩
    · simp [hn] at heq
    rw [hn] at heq
    cases heq
    exact hy hz
  refine ⟨_, remove_eq hys.link_last hzs.link_first hpa, ?_, ?_, .inl ?_, ?_, ?_⟩
  · exact List.nodup_append.mpr ⟨hnys, hnzs, hyz⟩
  · rw [h.len_eq]
    simp only [List.length_append, List.length_cons]
    omega
  · refine seg_join (hys.retarget hnys (by simp) ?_ ?_ ?_) ?_
    · rintro n hne (rfl | ⟨y, hy, rfl⟩)
      · simp [hne]
      · simp [hne, hya y hy]
    · intro y hy
      have hyn := hny y fun hz => hyz y hy y hz rfl
      simp [hya y hy, hyn]
    · simp [Link, hpa, hna]
    rintro z zs rfl
    obtain ⟨hz, -⟩ := List.nodup_cons.mp hnzs
    refine hzs.2.frame ?_ ?_ ?_ ?_
    · have hzl := hpz z fun hy => hyz z hy z (.head _) rfl
      simp [hza z List.mem_cons_self, hzl]
    · intro w hw
      have hwl := hpz w fun hy => hyz w hy w (.tail _ hw) rfl
      simp [hza w (.tail _ hw), hwl]
    · intro w hw
      have hwz : w ≠ z := fun heq => hz (heq ▸ hw)
      simp [hza w (.tail _ hw), firstNode, hwz]
    · simp [firstNode]
  · intro b hb
    obtain ⟨hby, hbz⟩ : b ∉ ys ∧ b ∉ zs := by simpa using hb
    by_cases hba : b = a
    · simp [hba]
    · simpa [hba, hpz b hby] using h.next_off b (by simp [hby, hbz, hba])
  · intro b hb
    obtain ⟨hby, hbz⟩ : b ∉ ys ∧ b ∉ zs := by simpa using hb
    by_cases hba : b = a
    · simp [hba]
    · simpa [hba, hny b hbz] using h.prev_off b (by simp [hby, hbz, hba])

end
end CircularList
