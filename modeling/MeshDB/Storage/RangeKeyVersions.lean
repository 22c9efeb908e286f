import MeshDB.Storage.Mvcc

/-!
# Stacks of range key versions

The operations of `MVCCRangeKeyVersions`, the versions of a range key from the newest on. Each
looks for one bound of a time span by a linear search and for the other one by a binary search.
-/
namespace MeshDB.Storage

open Hlc Timestamp BinarySearch List

def Version.within (lower upper : Timestamp) (v : Version) : Bool :=
  lower.lessEq v.timestamp && v.timestamp.lessEq upper

/-- `Trim`, and whether versions were removed. -/
def trim (versions : List Version) (lower upper : Timestamp) : List Version × Bool :=
  let start := versions.findIdx fun v => v.timestamp.lessEq upper
  let rest := versions.drop start
  let stop := searchList rest fun v => v.timestamp.less lower
  if stop < rest.length then (rest.take stop, true) else (rest, decide (0 < start))

/-- `Excise`, and whether versions were removed. -/
def excise (versions : List Version) (lower upper : Timestamp) : List Version × Bool :=
  let start := versions.findIdx fun v => v.timestamp.lessEq upper
  let stop := searchList versions fun v => v.timestamp.less lower
  if stop ≤ start then (versions, false)
  else if start = 0 then (versions.drop stop, true)
  else (versions.take start ++ versions.drop stop, true)

def hasBetween (versions : List Version) (lower upper : Timestamp) : Bool :=
  match firstAtOrAbove versions lower with
  | some v => v.timestamp.lessEq upper
  | none => false

def remove (versions : List Version) (ts : Timestamp) : List Version × Option Version :=
  match versions with
  | [] => ([], none)
  | first :: rest =>
    if first.timestamp = ts then (rest, some first)
    else
      let i := searchList versions fun v => v.timestamp.lessEq ts
      match versions[i]? with
      | some v =>
        if v.timestamp = ts then (versions.take i ++ versions.drop (i + 1), some v)
        else (versions, none)
      | none => (versions, none)

variable {versions : List Version} {lower upper ts : Timestamp}

lemma Version.within_iff {v : Version} : v.within lower upper ↔
    lower.ord ≤ v.timestamp.ord ∧ v.timestamp.ord ≤ upper.ord := by
  rw [Version.within, Bool.and_eq_true, lessEq_iff, lessEq_iff]

lemma any_not_eq_decide {p : Version → Bool} :
    (versions.any fun v => !p v) = decide ((versions.filter p).length < versions.length) := by
  rw [Bool.eq_iff_iff, decide_eq_true_eq, length_filter_lt_length_iff_exists]
  simp

section
variable (h : Descending versions)
include h

lemma Descending.trim_eq (lower upper : Timestamp) : trim versions lower upper =
    (versions.filter (Version.within lower upper),
      versions.any fun v => !v.within lower upper) := by
  have hrest := drop_searchList (h.lessEq_mono upper)
  have hstart : searchList versions (fun v => v.timestamp.lessEq upper) ≤ versions.length :=
    (search_found _ _).le
  rw [searchList_eq_findIdx (h.lessEq_mono upper)] at hrest hstart
  have hlen := congrArg List.length hrest
  have hdesc : Descending (versions.filter fun v => v.timestamp.lessEq upper) := h.filter _
  have hstop : searchList (versions.filter fun v => v.timestamp.lessEq upper)
      (fun v => v.timestamp.less lower) ≤
        (versions.filter fun v => v.timestamp.lessEq upper).length :=
    (search_found _ _).le
  have htake := take_searchList (hdesc.less_mono lower)
  have hwithin : (versions.filter fun v => v.timestamp.lessEq upper).filter
      (fun v => !v.timestamp.less lower) = versions.filter (Version.within lower upper) := by
    rw [filter_filter]
    congr 1
    funext v
    rw [Bool.eq_iff_iff, Version.within_iff, Bool.and_eq_true, Bool.not_eq_true',
      not_less_iff, lessEq_iff]
  rw [hwithin] at htake
  have hcount := congrArg List.length htake
  rw [length_take, min_eq_left hstop] at hcount
  rw [length_drop] at hlen
  rw [trim, any_not_eq_decide]
  rw [hrest]
  split_ifs with hlt
  · refine Prod.ext htake (decide_eq_true ?_).symm
    omega
  rw [← htake, take_of_length_le (by omega)] at *
  refine Prod.ext rfl (decide_eq_decide.mpr ?_)
  omega

lemma Descending.excise_eq (hle : lower.ord ≤ upper.ord) : excise versions lower upper =
    (versions.filter fun v => !v.within lower upper,
      versions.any (Version.within lower upper)) := by
  have htake := take_searchList (h.lessEq_mono upper)
  have hrest := drop_searchList (h.lessEq_mono upper)
  have hdrop := drop_searchList (h.less_mono lower)
  have hstart : searchList versions (fun v => v.timestamp.lessEq upper) ≤ versions.length :=
    (search_found _ _).le
  have hstop : searchList versions (fun v => v.timestamp.less lower) ≤ versions.length :=
    (search_found _ _).le
  rw [excise, ← searchList_eq_findIdx (h.lessEq_mono upper)]
  have hothers : (versions.filter fun v => !v.within lower upper) =
      versions.take (searchList versions fun v => v.timestamp.lessEq upper) ++
        versions.drop (searchList versions fun v => v.timestamp.less lower) := by
    conv_lhs => rw [← take_append_drop
      (searchList versions fun v => v.timestamp.lessEq upper) versions, filter_append]
    congr 1
    · rw [htake, filter_filter]
      congr 1
      funext v
      simp only [Version.within]
      cases v.timestamp.lessEq upper <;> simp
    rw [hrest, hdrop, filter_filter]
    congr 1
    funext v
    rw [Bool.eq_iff_iff, Bool.and_eq_true, Bool.not_eq_true', Bool.eq_false_iff, Ne,
      Version.within_iff, lessEq_iff, less_iff, not_and_or, not_le, not_le]
    exact ⟨fun ⟨hor, hv⟩ => hor.resolve_right (not_lt.mpr hv),
      fun hlt => ⟨.inl hlt, hlt.le.trans hle⟩⟩
  have hcount := congrArg List.length hothers
  have hcount' := length_filter_le (fun v => !Version.within lower upper v) versions
  rw [length_append, length_take, length_drop] at hcount
  have hany : versions.any (Version.within lower upper) =
      versions.any fun v => !!v.within lower upper := by simp
  rw [hany, any_not_eq_decide]
  split_ifs with hge hzero
  · have heq : searchList versions (fun v => v.timestamp.less lower) =
        searchList versions fun v => v.timestamp.lessEq upper := by omega
    rw [heq, take_append_drop] at hothers
    refine Prod.ext hothers.symm (decide_eq_false ?_).symm
    omega
  · rw [hzero, take_zero, nil_append] at hothers
    refine Prod.ext hothers.symm (decide_eq_true ?_).symm
    omega
  · refine Prod.ext hothers.symm (decide_eq_true ?_).symm
    omega

lemma Descending.hasBetween_iff (lower upper : Timestamp) :
    hasBetween versions lower upper ↔
      ∃ v ∈ versions, lower.ord ≤ v.timestamp.ord ∧ v.timestamp.ord ≤ upper.ord := by
  unfold hasBetween
  split
  · next v hv =>
      obtain ⟨⟨hmem, hge⟩, hmin⟩ := h.firstAtOrAbove_iff.mp hv
      rw [lessEq_iff]
      exact ⟨fun hle => ⟨v, hmem, hge, hle⟩, fun ⟨w, hw, hwge, hle⟩ => (hmin w hw hwge).trans hle⟩
  next hnone =>
    rw [h.firstAtOrAbove_eq, getLast?_eq_none_iff, eq_nil_iff_forall_not_mem] at hnone
    exact ⟨nofun, fun ⟨w, hw, hge, _⟩ => absurd (mem_atOrAbove.mpr ⟨hw, hge⟩) (hnone w)⟩

lemma Descending.firstAtOrBelow_iff {v : Version} :
    Storage.firstAtOrBelow versions ts = some v ↔ (v ∈ versions ∧ v.timestamp.ord ≤ ts.ord) ∧
      ∀ w ∈ versions, w.timestamp.ord ≤ ts.ord → w.timestamp.ord ≤ v.timestamp.ord := by
  rw [h.firstAtOrBelow]
  constructor
  · intro hfind
    exact ⟨⟨mem_of_find?_eq_some hfind, lessEq_iff.mp (find?_some hfind :)⟩,
      fun w hw hle => h.le_of_find? hfind hw hle⟩
  rintro ⟨⟨hv, hle⟩, hmax⟩
  cases hfind : versions.find? fun v => v.timestamp.lessEq ts with
  | none => exact absurd (lessEq_iff.mpr hle) (find?_eq_none.mp hfind v hv)
  | some w =>
    have hw := mem_of_find?_eq_some hfind
    have hwv := hmax w hw (lessEq_iff.mp (find?_some hfind :))
    rw [h.eq_of_ord_eq hw hv (hwv.antisymm (h.le_of_find? hfind hv hle))]

lemma Descending.remove_eq (ts : Timestamp) : remove versions ts =
    (versions.filter fun v => v.timestamp ≠ ts, versions.find? fun v => v.timestamp = ts) := by
  have hsplit : ∀ as w bs, versions = as ++ w :: bs → w.timestamp = ts →
      (versions.filter fun v => v.timestamp ≠ ts) = as ++ bs ∧
        (versions.find? fun v => v.timestamp = ts) = some w := by
    rintro as w bs hversions rfl
    have hne : ∀ v ∈ as ++ bs, v.timestamp ≠ w.timestamp := by
      rw [hversions, Descending, pairwise_append, pairwise_cons] at h
      obtain ⟨-, ⟨hbs, -⟩, has⟩ := h
      intro v hv heq
      rcases mem_append.mp hv with hv | hv
      · exact absurd (has v hv w (.head _)) (heq ▸ lt_irrefl _)
      · exact absurd (hbs v hv) (heq ▸ lt_irrefl _)
    rw [hversions, filter_append, filter_cons_of_neg (by simp), ← filter_append,
      filter_eq_self.mpr (by simpa using hne), find?_append]
    refine ⟨rfl, ?_⟩
    rw [find?_eq_none.mpr fun v hv => by simpa using hne v (mem_append_left _ hv)]
    simp
  have hnone : (∀ v ∈ versions, v.timestamp ≠ ts) →
      (versions.filter fun v => v.timestamp ≠ ts) = versions ∧
        (versions.find? fun v => v.timestamp = ts) = none := by
    intro hne
    exact ⟨filter_eq_self.mpr (by simpa using hne), find?_eq_none.mpr (by simpa using hne)⟩
  have hfound : ∀ w ∈ versions, w.timestamp = ts → Storage.firstAtOrBelow versions ts = some w :=
    fun w hw heq => h.firstAtOrBelow_iff.mpr ⟨⟨hw, heq ▸ le_rfl⟩, fun u _ hu => heq ▸ hu⟩
  unfold remove
  split
  · rfl
  next first rest =>
    split_ifs with hfirst
    · obtain ⟨hfilter, hfind⟩ := hsplit [] first rest rfl hfirst
      rw [hfilter, hfind, nil_append]
    dsimp only
    split
    · next v hv =>
        split_ifs with heq
        · obtain ⟨hi, rfl⟩ := List.getElem?_eq_some_iff.mp hv
          obtain ⟨hfilter, hfind⟩ := hsplit _ _ _
            (by rw [getElem_cons_drop hi, take_append_drop]) heq
          rw [hfilter, hfind]
        obtain ⟨hfilter, hfind⟩ := hnone fun w hw hw' => heq (by
          rw [← Option.some_inj.mp ((hfound w hw hw').symm.trans hv), hw'])
        rw [hfilter, hfind]
    · next hv =>
        obtain ⟨hfilter, hfind⟩ := hnone fun w hw hw' => nomatch (hfound w hw hw').symm.trans hv
        rw [hfilter, hfind]

end

/-- The operations on a stack do what they say, for every time span and timestamp. -/
theorem rangeKeyVersions_spec (h : Descending versions) (hle : lower.ord ≤ upper.ord)
    (ts : Timestamp) :
    trim versions lower upper = (versions.filter (Version.within lower upper),
      versions.any fun v => !v.within lower upper) ∧
    excise versions lower upper = (versions.filter fun v => !v.within lower upper,
      versions.any (Version.within lower upper)) ∧
    (∀ v, firstAtOrAbove versions ts = some v ↔ (v ∈ versions ∧ ts.ord ≤ v.timestamp.ord) ∧
      ∀ w ∈ versions, ts.ord ≤ w.timestamp.ord → v.timestamp.ord ≤ w.timestamp.ord) ∧
    (∀ v, firstAtOrBelow versions ts = some v ↔ (v ∈ versions ∧ v.timestamp.ord ≤ ts.ord) ∧
      ∀ w ∈ versions, w.timestamp.ord ≤ ts.ord → w.timestamp.ord ≤ v.timestamp.ord) ∧
    (hasBetween versions lower upper = true ↔
      ∃ v ∈ versions, lower.ord ≤ v.timestamp.ord ∧ v.timestamp.ord ≤ upper.ord) ∧
    remove versions ts = (versions.filter fun v => v.timestamp ≠ ts,
      versions.find? fun v => v.timestamp = ts) :=
  ⟨h.trim_eq lower upper, h.excise_eq hle, fun _ => h.firstAtOrAbove_iff,
    fun _ => h.firstAtOrBelow_iff, h.hasBetween_iff lower upper, h.remove_eq ts⟩

theorem rangeKeyVersions_spec_middle :
    trim [⟨{ wallTime := 5 }, ⟨{}, []⟩⟩, ⟨{ wallTime := 3 }, ⟨{}, []⟩⟩,
        ⟨{ wallTime := 1 }, ⟨{}, []⟩⟩]
      { wallTime := 2 } { wallTime := 4 } = ([⟨{ wallTime := 3 }, ⟨{}, []⟩⟩], true) :=
  (rangeKeyVersions_spec (by decide) (by decide) {}).1.trans (by decide)

end MeshDB.Storage
