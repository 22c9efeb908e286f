import MeshDB.Storage.EngineKey

/-!
# The order of engine keys

The comparer of the engine orders encoded keys as the MVCC keys are ordered. On bare suffixes,
which have no sentinel, it does not see that timestamps are equal if one of them is synthetic.
-/
namespace MeshDB.Storage

open Roachpb Hlc BigEndian List Std.ReflOrd Ordering

/-! ## Round trip -/

lemma splitMVCCKey_packed {k v : List Byte} (hv : v.length < 256) :
    splitMVCCKey (packed k v) = some (k, v.drop 1) := by
  have hlast : (packed k v).getLast? = some (Fin.ofNat 256 v.length) := by simp [packed]
  have hval : (Fin.ofNat 256 v.length).val = v.length := by simp [Nat.mod_eq_of_lt hv]
  have hkey : (packed k v).take (k.length + v.length + 1 - 1 - v.length) = k := by
    rw [show k.length + v.length + 1 - 1 - v.length = k.length by omega, take_packed]
  have hver : ((packed k v).take (k.length + v.length + 1 - 1)).drop
      (k.length + v.length + 1 - 1 - v.length + 1) = v.drop 1 := by
    rw [show k.length + v.length + 1 - 1 - v.length + 1 = k.length + 1 by omega,
      show k.length + v.length + 1 - 1 = (k ++ v).length by simp, packed, take_left,
      ← drop_drop, drop_left]
  unfold splitMVCCKey
  rw [hlast]
  dsimp only
  rw [hval, length_packed, if_neg (by omega), hkey, hver]
  cases v <;> simp

lemma length_mvccVersion (t : Timestamp) : (mvccVersion t).length < 256 := by
  unfold mvccVersion
  cases h : t.isEmpty with
  | true => simp
  | false =>
    have hlen := length_encodeMVCCTimestampToBuf h
    have hle : encodedMVCCTimestampLength t ≤ 13 := by
      unfold encodedMVCCTimestampLength mvccEncodedTimeWallLen mvccEncodedTimeLogicalLen
        mvccEncodedTimeSyntheticLen
      split_ifs <;> omega
    simp [hlen]
    omega

variable {t s : Timestamp}

lemma decodeWallTime_eq (ht : NonNeg t) (rest : List Byte) :
    decodeWallTime (wallBytes t ++ rest) = t.wallTime := by
  have h0 := ht.wallTime
  have hle := ht.wallTime_le
  simp only [Timestamp.maxInt64] at hle
  rw [decodeWallTime, take_left' (length_wallBytes t), wallBytes, ht.wall_toNat.1,
    ofBytes_toBytes ht.wall_toNat.2, toSigned, if_pos (by omega)]
  omega

lemma decodeLogical_eq (ht : NonNeg t) (rest : List Byte) :
    decodeLogical (wallBytes t ++ (logicalBytes t ++ rest)) = t.logical := by
  have h0 := ht.logical
  have hle := ht.logical_le
  simp only [Timestamp.maxInt32] at hle
  rw [decodeLogical, ← append_assoc, take_left' (by simp), drop_left' (length_wallBytes t),
    logicalBytes, ht.logical_toNat.1, ofBytes_toBytes ht.logical_toNat.2, toSigned,
    if_pos (by omega)]
  omega

lemma decode_encodeMVCCKey {k : MVCCKey} (hk : NonNeg k.timestamp) :
    decodeMVCCKey (encodeMVCCKey k) = some k := by
  obtain ⟨key, t⟩ := k
  rw [encodeMVCCKey_eq, decodeMVCCKey, splitMVCCKey_packed (length_mvccVersion _)]
  cases hempty : t.isEmpty with
  | true =>
    have ht : t = {} := by
      obtain ⟨w, l, syn⟩ := t
      simp [Timestamp.isEmpty] at hempty
      simp [hempty]
    simp [mvccVersion, ht, Timestamp.isEmpty]
  | false =>
    have hver : (mvccVersion t).drop 1 = wallBytes t ++ tailBytes t := by
      rw [mvccVersion, hempty]
      rfl
    cases hs : t.synthetic with
    | true =>
      have hcase : (mvccVersion t).drop 1 = wallBytes t ++ (logicalBytes t ++ [1]) := by
        simp [hver, tailBytes, hs]
      have hlen : (wallBytes t ++ (logicalBytes t ++ [1])).length = 13 := by simp
      have hlast : (wallBytes t ++ (logicalBytes t ++ [1]))[12]? = some 1 := by
        simp
      simp only [hcase, hlen, hlast, decodeWallTime_eq hk, decodeLogical_eq hk]
      obtain ⟨w, l, syn⟩ := t
      cases hs
      simp
    | false =>
      by_cases hlogical : t.logical = 0
      · have hcase : (mvccVersion t).drop 1 = wallBytes t := by
          simp [hver, tailBytes, hs, hlogical]
        have hwall := decodeWallTime_eq hk []
        rw [append_nil] at hwall
        simp only [hcase, length_wallBytes, hwall]
        obtain ⟨w, l, syn⟩ := t
        cases hs
        cases hlogical
        simp
      have hcase : (mvccVersion t).drop 1 = wallBytes t ++ logicalBytes t := by
        simp [hver, tailBytes, hs, hlogical]
      have hlen : (wallBytes t ++ logicalBytes t).length = 12 := by simp
      have hdecoded := decodeLogical_eq hk []
      rw [append_nil] at hdecoded
      simp only [hcase, hlen, decodeWallTime_eq hk, hdecoded]
      obtain ⟨w, l, syn⟩ := t
      cases hs
      simp

/-! ## The comparer on full keys -/

lemma compareVersions_mvccVersion {t s : Timestamp} (ht : NonNeg t) (hs : NonNeg s) :
    compareVersions (mvccVersion t) (mvccVersion s) =
      if t.isEmpty && !s.isEmpty then .lt
      else if !t.isEmpty && s.isEmpty then .gt
      else (compareTimestamp t s).swap := by
  rw [compareVersions_eq]
  cases hte : t.isEmpty with
  | true =>
    cases hse : s.isEmpty with
    | true =>
      have hzero : ∀ r : Timestamp, r.isEmpty → r.wallTime = 0 ∧ r.logical = 0 := by
        intro r hr
        simp [Timestamp.isEmpty] at hr
        exact hr.1
      rw [compareTimestamp_eq, (hzero t hte).1, (hzero t hte).2, (hzero s hse).1, (hzero s hse).2]
      simp [mvccVersion, hte, hse]
    | false =>
      simp only [mvccVersion, hte, hse, Bool.false_eq_true, if_false, if_true]
      rfl
  | false =>
    cases hse : s.isEmpty with
    | true =>
      simp only [mvccVersion, hte, hse, Bool.false_eq_true, if_false, if_true]
      rfl
    | false =>
      simp only [mvccVersion, hte, hse, Bool.false_eq_true, if_false, isEmpty_cons]
      rw [compare_self, eq_then, compare_normalize_timestamp hs ht,
        swap_compareTimestamp]
      simp

lemma engineKeyCompare_encodeMVCCKey {k o : MVCCKey} (hk : NonNeg k.timestamp)
    (ho : NonNeg o.timestamp) :
    engineKeyCompare (encodeMVCCKey k) (encodeMVCCKey o) = k.compare o := by
  rw [encodeMVCCKey_eq, encodeMVCCKey_eq,
    engineKeyCompare_packed (length_mvccVersion _) (length_mvccVersion _),
    compareVersions_mvccVersion hk ho, MVCCKey.compare]
  cases compare k.key o.key <;> rfl

lemma less_iff_compare (k o : MVCCKey) : k.less o ↔ k.compare o = .lt := by
  unfold MVCCKey.less MVCCKey.compare
  by_cases heq : k.key = o.key
  · rw [if_pos heq, heq, compare_self]
    cases hk : k.timestamp.isEmpty with
    | true =>
      cases ho : o.timestamp.isEmpty with
      | true =>
        simp [Timestamp.isEmpty] at hk ho
        simp [compareTimestamp_eq, hk, ho]
      | false => simp
    | false =>
      cases ho : o.timestamp.isEmpty with
      | true => simp
      | false =>
        have hless : o.timestamp.less k.timestamp ↔
            compareTimestamp o.timestamp k.timestamp = .lt := by
          rw [compareTimestamp_eq, then_eq_lt, compare_lt_iff_lt, compare_eq_iff_eq,
            compare_lt_iff_lt]
          simp [Timestamp.less]
        simpa [swap_compareTimestamp] using hless
  · rw [if_neg heq, decide_eq_true_eq, ← compare_eq_lt_iff]
    have hne : compare k.key o.key ≠ .eq := fun h => heq (Std.compare_eq_iff_eq.mp h)
    change compare k.key o.key = .lt ↔ _
    cases hc : compare k.key o.key with
    | lt => simp
    | eq => exact absurd hc hne
    | gt => simp

inductive Encoded : List Byte → Prop
  | mvcc {k : MVCCKey} (h : Encodable k.timestamp) : Encoded (encodeMVCCKey k)
  | lock {lk : LockTableKey} {k : EngineKey} (h : lk.toEngineKey = some k) : Encoded k.encode

lemma Encoded.exists_packed {a : List Byte} (h : Encoded a) :
    ∃ k v, a = packed k v ∧ v.length < 256 ∧ Sentinel v := by
  cases h with
  | @mvcc k h =>
    refine ⟨k.key, mvccVersion k.timestamp, encodeMVCCKey_eq k, length_mvccVersion _, ?_⟩
    unfold mvccVersion
    cases k.timestamp.isEmpty with
    | true => exact .inl rfl
    | false => exact .inr rfl
  | @lock lk k h =>
    unfold LockTableKey.toEngineKey at h
    split_ifs at h with hid hstrength
    cases h
    have hlen : lk.txnUUID.length = 16 := not_not.mp hid
    refine ⟨lockTableSingleKey lk.key, 0 :: lk.strength :: lk.txnUUID, ?_, ?_, .inr rfl⟩
    · simp [EngineKey.encode, packed]
    · simp [hlen]

/-- The comparer orders encoded MVCC keys as MVCC keys, decoding undoes encoding, and on all encoded
keys it is a total order by prefixes first. -/
theorem engineKeyCompare_refines_mvccKeyCompare {k o : MVCCKey} (hk : Encodable k.timestamp)
    (ho : Encodable o.timestamp) {a b c : List Byte} (ha : Encoded a) (hb : Encoded b)
    (hc : Encoded c) :
    engineKeyCompare (encodeMVCCKey k) (encodeMVCCKey o) = k.compare o ∧
    (engineKeyEqual (encodeMVCCKey k) (encodeMVCCKey o) = true ↔ k.compare o = .eq) ∧
    (k.less o = true ↔ k.compare o = .lt) ∧
    decodeMVCCKey (encodeMVCCKey k) = some k ∧
    (encodeMVCCKey k).take (split (encodeMVCCKey k)) = k.key ++ [0] ∧
    engineKeyCompare a a = .eq ∧
    engineKeyCompare b a = (engineKeyCompare a b).swap ∧
    ((engineKeyCompare a b).isLE = true → (engineKeyCompare b c).isLE = true →
      (engineKeyCompare a c).isLE = true) ∧
    (engineKeyEqual a b = true ↔ engineKeyCompare a b = .eq) ∧
    (engineKeyCompare (a.take (split a)) (b.take (split b)) ≠ .eq →
      engineKeyCompare a b = engineKeyCompare (a.take (split a)) (b.take (split b))) ∧
    (a.take (split a) = b.take (split b) → engineKeyCompare (a.take (split a)) b ≠ .gt) := by
  have hcompare := engineKeyCompare_encodeMVCCKey hk.nonNeg ho.nonNeg
  obtain ⟨ka, va, rfl, hva, hsa⟩ := ha.exists_packed
  obtain ⟨kb, vb, rfl, hvb, hsb⟩ := hb.exists_packed
  obtain ⟨kc, vc, rfl, hvc, -⟩ := hc.exists_packed
  rw [take_split_packed hva hsa, take_split_packed hvb hsb]
  have hnil : ([] : List Byte).length < 256 := by simp
  simp only [engineKeyCompare_eq hva hva, engineKeyCompare_eq hva hvb, engineKeyCompare_eq hvb hva,
    engineKeyCompare_eq hvb hvc, engineKeyCompare_eq hva hvc, engineKeyCompare_eq hnil hnil,
    engineKeyCompare_eq hnil hvb]
  refine ⟨hcompare, ?_, less_iff_compare k o, decode_encodeMVCCKey hk.nonNeg, ?_, ?_, ?_, ?_, ?_,
    ?_, ?_⟩
  · rw [← hcompare, encodeMVCCKey_eq, encodeMVCCKey_eq,
      engineKeyEqual_iff (length_mvccVersion _) (length_mvccVersion _),
      engineKeyCompare_eq (length_mvccVersion _) (length_mvccVersion _), comparePacked_eq_iff]
  · obtain ⟨k', v', heq, hv', hs'⟩ := (Encoded.mvcc hk).exists_packed
    have hkey := packed_inj (length_mvccVersion _) hv' ((encodeMVCCKey_eq k).symm.trans heq)
    rw [heq, take_split_packed hv' hs', hkey.1]
    simp [packed]
  · exact Std.ReflCmp.compare_self
  · exact Std.OrientedCmp.eq_swap
  · exact Std.TransCmp.isLE_trans
  · rw [engineKeyEqual_iff hva hvb, comparePacked_eq_iff]
  · intro hne
    have hbare : comparePacked (ka, []) (kb, []) = compare ka kb := then_eq
    rw [hbare] at hne ⊢
    show (compare ka kb).then _ = _
    cases hcmp : compare ka kb with
    | lt => rfl
    | eq => exact absurd hcmp hne
    | gt => rfl
  · intro heq
    rw [(packed_inj (by simp) (by simp) heq).1]
    exact comparePacked_bare kb vb

/-- Two versions of a key and a lock on it. -/
theorem engineKeyCompare_refines_mvccKeyCompare_versions :
    engineKeyCompare (encodeMVCCKey ⟨[7, 0], { wallTime := 5, logical := 2 }⟩)
      (encodeMVCCKey ⟨[7, 0], { wallTime := 5, synthetic := true }⟩) = .lt ∧
    decodeMVCCKey (encodeMVCCKey ⟨[7, 0], { wallTime := 5, logical := 2 }⟩) =
      some ⟨[7, 0], { wallTime := 5, logical := 2 }⟩ := by
  have hk : Encodable { wallTime := 5, logical := 2 } := by decide
  have ho : Encodable { wallTime := 5, synthetic := true } := by decide
  have hlock : Encoded (EngineKey.encode ⟨lockTableSingleKey [7, 0], 3 :: List.replicate 16 1⟩) :=
    @Encoded.lock ⟨[7, 0], 3, List.replicate 16 1⟩ _ (by decide)
  have h := @engineKeyCompare_refines_mvccKeyCompare ⟨[7, 0], { wallTime := 5, logical := 2 }⟩
    ⟨[7, 0], { wallTime := 5, synthetic := true }⟩ hk ho _ _ _ hlock hlock hlock
  exact ⟨h.1.trans (by decide), h.2.2.2.1⟩

/-! ## Bare suffixes -/

lemma encodeMVCCTimestampSuffix_eq (ht : t.isEmpty = false) :
    encodeMVCCTimestampSuffix t = encodeMVCCTimestampToBuf t ++
      [Fin.ofNat 256 ((encodeMVCCTimestampToBuf t).length + 1)] := by
  have hpos : encodedMVCCTimestampLength t ≠ 0 := by
    simp [encodedMVCCTimestampLength, ht, mvccEncodedTimeWallLen]
  rw [encodeMVCCTimestampSuffix, if_neg hpos, length_encodeMVCCTimestampToBuf ht]
  rfl

lemma length_tailBytes (t : Timestamp) : (tailBytes t).length ≤ 5 := by
  unfold tailBytes
  split_ifs <;> simp

/-- A version with all parts is as long as one without the synthetic bit, but is not cut. -/
lemma normalize_encodeMVCCTimestampToBuf (t : Timestamp) :
    normalizeEngineKeyVersionForCompare (encodeMVCCTimestampToBuf t) =
      encodeMVCCTimestampToBuf t := by
  have hlen : (encodeMVCCTimestampToBuf t).length ≠ 14 := by
    have := length_tailBytes t
    rw [encodeMVCCTimestampToBuf_eq, length_append, length_wallBytes]
    omega
  rw [normalize_eq, if_neg hlen]
  dsimp only
  rw [if_neg]
  rintro ⟨h13, hdrop⟩
  rw [encodeMVCCTimestampToBuf_eq, length_append, length_wallBytes] at h13
  rw [encodeMVCCTimestampToBuf_eq] at hdrop
  have htail : tailBytes t = logicalBytes t ++ [1] := by
    unfold tailBytes at h13 ⊢
    split_ifs at h13 ⊢ with h1 h2
    · rfl
    · simp at h13
    · simp at h13
  have hlast := congrArg List.getLast? hdrop
  rw [htail, getLast?_drop] at hlast
  simp at hlast

section
variable (ht : t.isEmpty = false)
include ht

lemma separator_suffix :
    separator (encodeMVCCTimestampSuffix t) = -1 := by
  have hle := length_tailBytes t
  have hlt : (encodeMVCCTimestampToBuf t).length + 1 < 256 := by
    rw [encodeMVCCTimestampToBuf_eq, length_append, length_wallBytes]
    omega
  have hver : versionLen (encodeMVCCTimestampSuffix t) =
      (encodeMVCCTimestampToBuf t).length + 1 := by
    rw [encodeMVCCTimestampSuffix_eq ht]
    simp only [versionLen, getLast?_append, getLast?_singleton, Option.some_or,
      Option.elim_some, Fin.val_ofNat]
    exact Nat.mod_eq_of_lt hlt
  rw [separator, hver, encodeMVCCTimestampSuffix_eq ht]
  simp

lemma versionFrom_suffix :
    versionFrom (encodeMVCCTimestampSuffix t) 0 = encodeMVCCTimestampToBuf t := by
  simp [versionFrom, encodeMVCCTimestampSuffix_eq ht]

lemma suffixes_nonempty (hs : s.isEmpty = false) :
    ¬ ((encodeMVCCTimestampSuffix t).length = 0 ∨ (encodeMVCCTimestampSuffix s).length = 0) := by
  simp [encodeMVCCTimestampSuffix_eq ht, encodeMVCCTimestampSuffix_eq hs]

lemma separators_suffix (hs : s.isEmpty = false) :
    separators (encodeMVCCTimestampSuffix t) (encodeMVCCTimestampSuffix s) = (0, 0) :=
  if_pos ⟨separator_suffix ht, separator_suffix hs⟩

lemma engineKeyCompare_suffix (hs : s.isEmpty = false) :
    engineKeyCompare (encodeMVCCTimestampSuffix t) (encodeMVCCTimestampSuffix s) =
      compare (encodeMVCCTimestampToBuf s) (encodeMVCCTimestampToBuf t) := by
  have hne : ∀ r, (encodeMVCCTimestampToBuf r).length ≠ 0 := by
    intro r
    rw [encodeMVCCTimestampToBuf_eq, length_append, length_wallBytes]
    omega
  rw [engineKeyCompare, if_neg (suffixes_nonempty ht hs), separators_suffix ht hs]
  dsimp only
  rw [if_neg (by omega), versionFrom_suffix ht, versionFrom_suffix hs, compareVersions,
    if_neg (hne t), if_neg (hne s), normalize_encodeMVCCTimestampToBuf,
    normalize_encodeMVCCTimestampToBuf]
  rfl

lemma engineKeyEqual_suffix (hs : s.isEmpty = false) :
    engineKeyEqual (encodeMVCCTimestampSuffix t) (encodeMVCCTimestampSuffix s) ↔
      encodeMVCCTimestampToBuf t = encodeMVCCTimestampToBuf s := by
  have hbytes : encodeMVCCTimestampSuffix t = encodeMVCCTimestampSuffix s ↔
      encodeMVCCTimestampToBuf t = encodeMVCCTimestampToBuf s := by
    rw [encodeMVCCTimestampSuffix_eq ht, encodeMVCCTimestampSuffix_eq hs]
    constructor
    · intro h
      exact (append_inj' h rfl).1
    intro h
    rw [h]
  have hneg : ¬ ((0 : ℤ) < 0 ∨ (0 : ℤ) < 0) := by omega
  unfold engineKeyEqual
  rw [if_neg (suffixes_nonempty ht hs), separators_suffix ht hs]
  dsimp only
  rw [if_neg hneg, versionFrom_suffix ht, versionFrom_suffix hs,
    normalize_encodeMVCCTimestampToBuf, normalize_encodeMVCCTimestampToBuf]
  split_ifs
  · rw [beq_iff_eq, hbytes]
  · simp

end

/-- The bytes after the wall time are in the order of the logical ticks, but for the synthetic bit.
-/
lemma compare_tailBytes (ht : NonNeg t) (hs : NonNeg s)
    (h : t.logical = s.logical → t.synthetic = s.synthetic) :
    compare (tailBytes t) (tailBytes s) = compare t.logical s.logical := by
  have h0 := ht.logical
  have h0' := hs.logical
  have hlen : (logicalBytes t).length = (logicalBytes s).length := by simp
  by_cases heq : t.logical = s.logical
  · have htail : tailBytes t = tailBytes s := by
      unfold tailBytes logicalBytes
      rw [heq, h heq]
    rw [htail, heq, compare_self, compare_self]
  by_cases ht0 : t.logical ≠ 0 ∨ t.synthetic
  · by_cases hs0 : s.logical ≠ 0 ∨ s.synthetic
    · rw [tailBytes, tailBytes, if_pos ht0, if_pos hs0, compare_append hlen,
        compare_logicalBytes ht hs]
      cases hc : compare t.logical s.logical with
      | lt => rfl
      | eq => exact absurd (Std.compare_eq_iff_eq.mp hc) heq
      | gt => rfl
    have hzero : s.logical = 0 := not_not.mp fun hne => hs0 (.inl hne)
    have hnil : tailBytes s = [] := if_neg hs0
    obtain ⟨b, l, hb⟩ := exists_logicalBytes t
    rw [hnil, tailBytes, if_pos ht0, hb, hzero, compare_gt_iff_gt.mpr (show 0 < t.logical by omega)]
    rfl
  have hzero : t.logical = 0 := not_not.mp fun hne => ht0 (.inl hne)
  have hs0 : s.logical ≠ 0 ∨ s.synthetic := .inl (by omega)
  have hnil : tailBytes t = [] := if_neg ht0
  obtain ⟨b, l, hb⟩ := exists_logicalBytes s
  rw [hnil, tailBytes, if_pos hs0, hb, hzero, compare_lt_iff_lt.mpr (show 0 < s.logical by omega)]
  rfl

lemma compare_encodeMVCCTimestampToBuf (ht : NonNeg t) (hs : NonNeg s)
    (h : compareTimestamp t s = .eq → t.synthetic = s.synthetic) :
    compare (encodeMVCCTimestampToBuf t) (encodeMVCCTimestampToBuf s) = compareTimestamp t s := by
  have hw : (wallBytes t).length = (wallBytes s).length := by simp
  rw [encodeMVCCTimestampToBuf_eq, encodeMVCCTimestampToBuf_eq, compare_append hw,
    compare_wallBytes ht hs, compareTimestamp_eq]
  rw [compareTimestamp_eq, then_eq_eq] at h
  cases hc : compare t.wallTime s.wallTime with
  | lt => rfl
  | gt => rfl
  | eq =>
    apply compare_tailBytes ht hs
    intro hl
    exact h ⟨hc, Std.compare_eq_iff_eq.mpr hl⟩

lemma append_suffix_eq (key : Key) (ht : t.isEmpty = false) :
    key ++ [0] ++ encodeMVCCTimestampSuffix t = packed key (mvccVersion t) := by
  rw [encodeMVCCTimestampSuffix_eq ht, packed, mvccVersion, ht]
  simp

lemma engineKeyCompare_fullSuffixes (key : Key) (ht : NonNeg t) (hs : NonNeg s)
    (hte : t.isEmpty = false) (hse : s.isEmpty = false) :
    engineKeyCompare (key ++ [0] ++ encodeMVCCTimestampSuffix t)
      (key ++ [0] ++ encodeMVCCTimestampSuffix s) = compareTimestamp s t := by
  rw [append_suffix_eq key hte, append_suffix_eq key hse,
    engineKeyCompare_packed (length_mvccVersion _) (length_mvccVersion _),
    compareVersions_mvccVersion ht hs, hte, hse, compare_self, swap_compareTimestamp]
  rfl

/-- The flag takes the thirteenth byte. -/
lemma synthetic_iff_length (hte : t.isEmpty = false) :
    t.synthetic ↔ (encodeMVCCTimestampToBuf t).length = 13 := by
  rw [length_encodeMVCCTimestampToBuf hte, encodedMVCCTimestampLength, hte]
  by_cases hl : t.logical = 0 <;> cases hs : t.synthetic <;>
    simp [hl, mvccEncodedTimeWallLen, mvccEncodedTimeLogicalLen, mvccEncodedTimeSyntheticLen]

/-- Bare suffixes compare as the full keys, unless equal timestamps differ in the synthetic flag. -/
theorem engineKeyCompare_bareSuffixes (key : Key) (ht : NonNeg t) (hs : NonNeg s)
    (hte : t.isEmpty = false) (hse : s.isEmpty = false) :
    (engineKeyCompare (encodeMVCCTimestampSuffix t) (encodeMVCCTimestampSuffix s) =
      engineKeyCompare (key ++ [0] ++ encodeMVCCTimestampSuffix t)
        (key ++ [0] ++ encodeMVCCTimestampSuffix s) ∧
    engineKeyEqual (encodeMVCCTimestampSuffix t) (encodeMVCCTimestampSuffix s) =
      engineKeyEqual (key ++ [0] ++ encodeMVCCTimestampSuffix t)
        (key ++ [0] ++ encodeMVCCTimestampSuffix s)) ↔
    (compareTimestamp t s = .eq → t.synthetic = s.synthetic) := by
  constructor
  · rintro ⟨hcompare, -⟩ heq
    rw [engineKeyCompare_suffix hte hse, engineKeyCompare_fullSuffixes key ht hs hte hse,
      ← swap_compareTimestamp, heq] at hcompare
    have hbuf := Std.compare_eq_iff_eq.mp hcompare
    rw [Bool.eq_iff_iff, synthetic_iff_length hte, synthetic_iff_length hse, hbuf]
  intro h
  have hswap : compareTimestamp s t = .eq → s.synthetic = t.synthetic := by
    intro heq
    rw [← swap_compareTimestamp, swap_eq_eq] at heq
    exact (h heq).symm
  constructor
  · rw [engineKeyCompare_suffix hte hse, compare_encodeMVCCTimestampToBuf hs ht hswap,
      engineKeyCompare_fullSuffixes key ht hs hte hse]
  rw [append_suffix_eq key hte, append_suffix_eq key hse]
  rw [Bool.eq_iff_iff, engineKeyEqual_suffix hte hse,
    engineKeyEqual_iff (length_mvccVersion _) (length_mvccVersion _)]
  have hversion : ∀ r : Timestamp, r.isEmpty = false →
      mvccVersion r = 0 :: encodeMVCCTimestampToBuf r := by
    intro r hr
    rw [mvccVersion, hr]
    rfl
  rw [hversion t hte, hversion s hse, ← Std.compare_eq_iff_eq,
    compare_encodeMVCCTimestampToBuf ht hs h, ← compare_normalize_timestamp ht hs,
    Std.compare_eq_iff_eq]
  simp

/-- Suffixes of two wall times. -/
theorem engineKeyCompare_bareSuffixes_wallTimes :
    engineKeyCompare (encodeMVCCTimestampSuffix { wallTime := 2, synthetic := true })
      (encodeMVCCTimestampSuffix { wallTime := 1 }) =
    engineKeyCompare ([7] ++ [0] ++ encodeMVCCTimestampSuffix { wallTime := 2, synthetic := true })
      ([7] ++ [0] ++ encodeMVCCTimestampSuffix { wallTime := 1 }) :=
  ((engineKeyCompare_bareSuffixes [7]
    (show NonNeg { wallTime := 2, synthetic := true } from ⟨by decide, by decide, by decide,
      by decide⟩)
    (show NonNeg { wallTime := 1 } from ⟨by decide, by decide, by decide, by decide⟩)
    rfl rfl).mpr (fun h => by cases h)).1

/-- A suffix with the synthetic bit is told apart from one without it, but the full keys are
equal. -/
theorem engineKeyCompare_bareSuffixes_synthetic :
    engineKeyCompare (encodeMVCCTimestampSuffix { wallTime := 1, synthetic := true })
      (encodeMVCCTimestampSuffix { wallTime := 1 }) = .lt ∧
    engineKeyEqual (encodeMVCCTimestampSuffix { wallTime := 1, synthetic := true })
      (encodeMVCCTimestampSuffix { wallTime := 1 }) = false ∧
    engineKeyCompare ([7] ++ [0] ++ encodeMVCCTimestampSuffix { wallTime := 1, synthetic := true })
      ([7] ++ [0] ++ encodeMVCCTimestampSuffix { wallTime := 1 }) = .eq ∧
    engineKeyEqual ([7] ++ [0] ++ encodeMVCCTimestampSuffix { wallTime := 1, synthetic := true })
      ([7] ++ [0] ++ encodeMVCCTimestampSuffix { wallTime := 1 }) = true := by
  decide

end MeshDB.Storage
