import MeshDB.Lib.BigEndian
import MeshDB.Storage.Mvcc

/-!
# Engine keys

The encoding of MVCC keys and lock table keys in the engine, and the comparer of the engine.
An encoded key ends with the length of its version, which starts at a sentinel byte.
-/
namespace MeshDB.Storage

open Roachpb Hlc BigEndian List Ordering Std.ReflOrd

/-! ## The order of MVCC keys -/

/-- By wall time, then logical. -/
def compareTimestamp (t s : Timestamp) : Ordering :=
  if s.wallTime < t.wallTime then .gt
  else if t.wallTime < s.wallTime then .lt
  else if s.logical < t.logical then .gt
  else if t.logical < s.logical then .lt
  else .eq

/-- `MVCCKey.Compare`: an empty timestamp comes first, and the others in reverse. -/
def MVCCKey.compare (k o : MVCCKey) : Ordering :=
  match Ord.compare k.key o.key with
  | .eq =>
    if k.timestamp.isEmpty && !o.timestamp.isEmpty then .lt
    else if !k.timestamp.isEmpty && o.timestamp.isEmpty then .gt
    else (compareTimestamp k.timestamp o.timestamp).swap
  | c => c

/-! ## Encoding -/

def mvccEncodedTimeSentinelLen : ℕ := 1
def mvccEncodedTimeWallLen : ℕ := 8
def mvccEncodedTimeLogicalLen : ℕ := 4
def mvccEncodedTimeSyntheticLen : ℕ := 1
def mvccEncodedTimeLengthLen : ℕ := 1
def engineKeyVersionLockTableLen : ℕ := 17

def encodedMVCCTimestampLength (ts : Timestamp) : ℕ :=
  if ts.isEmpty then 0
  else mvccEncodedTimeWallLen +
    if ts.logical ≠ 0 ∨ ts.synthetic then
      mvccEncodedTimeLogicalLen + if ts.synthetic then mvccEncodedTimeSyntheticLen else 0
    else 0

/-- Wall time, logical and flag, where they are set. -/
def encodeMVCCTimestampToBuf (ts : Timestamp) : List Byte :=
  toBytes mvccEncodedTimeWallLen (ts.wallTime % 2 ^ 64).toNat ++
    if ts.logical ≠ 0 ∨ ts.synthetic then
      toBytes mvccEncodedTimeLogicalLen (ts.logical % 2 ^ 32).toNat ++
        if ts.synthetic then [1] else []
    else []

def encodeMVCCTimestampSuffix (ts : Timestamp) : List Byte :=
  if encodedMVCCTimestampLength ts = 0 then []
  else encodeMVCCTimestampToBuf ts ++
    [Fin.ofNat 256 (encodedMVCCTimestampLength ts + mvccEncodedTimeLengthLen)]

/-- Key, sentinel, timestamp, length. -/
def encodeMVCCKey (k : MVCCKey) : List Byte :=
  k.key ++ [0] ++
    if 0 < encodedMVCCTimestampLength k.timestamp then
      encodeMVCCTimestampToBuf k.timestamp ++
        [Fin.ofNat 256 (encodedMVCCTimestampLength k.timestamp + mvccEncodedTimeLengthLen)]
    else []

/-- A key of the engine, its version uninterpreted. -/
structure EngineKey where
  key : Key
  version : List Byte
deriving DecidableEq

def EngineKey.encode (k : EngineKey) : List Byte :=
  if k.version.isEmpty then k.key ++ [0]
  else k.key ++ [0] ++ k.version ++ [Fin.ofNat 256 (k.version.length + 1)]

/-- `EncodeBytesAscending` without the terminator and the marker: zero bytes are escaped. -/
def escapeBytes : List Byte → List Byte
  | [] => []
  | b :: rest => if b = 0 then 0 :: 255 :: escapeBytes rest else b :: escapeBytes rest

/-- The lock table's prefix for one key. -/
def lockTableSingleKey (key : Key) : Key :=
  [1, 122] ++ [107] ++ [18] ++ escapeBytes key ++ [0, 1]

structure LockTableKey where
  key : Key
  strength : Byte
  txnUUID : List Byte
deriving DecidableEq

/-- `LockTableKey.ToEngineKey`, which panics if the id or the strength is not valid. -/
def LockTableKey.toEngineKey (lk : LockTableKey) : Option EngineKey :=
  if lk.txnUUID.length ≠ 16 then none
  else if lk.strength ≠ 3 then none
  else some ⟨lockTableSingleKey lk.key, lk.strength :: lk.txnUUID⟩

/-! ## Decoding -/

/-- By the length in the last byte. -/
def splitMVCCKey (mvccKey : List Byte) : Option (List Byte × List Byte) :=
  match mvccKey.getLast? with
  | none => none
  | some last =>
    if mvccKey.length < 1 + last.val then none
    else
      some (mvccKey.take (mvccKey.length - 1 - last.val),
        if 0 < last.val then
          (mvccKey.take (mvccKey.length - 1)).drop (mvccKey.length - 1 - last.val + 1)
        else [])

/-- The conversion of an unsigned number to a signed one of the same width. -/
def toSigned (bits n : ℕ) : Int := if n < 2 ^ (bits - 1) then n else (n : Int) - 2 ^ bits

def decodeWallTime (b : List Byte) : Int := toSigned 64 (ofBytes (b.take 8))

def decodeLogical (b : List Byte) : Int := toSigned 32 (ofBytes ((b.take 12).drop 8))

def decodeMVCCKey (encodedKey : List Byte) : Option MVCCKey :=
  match splitMVCCKey encodedKey with
  | none => none
  | some (key, encodedTS) =>
    if encodedTS.length = 0 then some ⟨key, {}⟩
    else if encodedTS.length = 8 then some ⟨key, { wallTime := decodeWallTime encodedTS }⟩
    else if encodedTS.length = 12 then
      some ⟨key, { wallTime := decodeWallTime encodedTS, logical := decodeLogical encodedTS }⟩
    else if encodedTS.length = 13 then
      some ⟨key, { wallTime := decodeWallTime encodedTS, logical := decodeLogical encodedTS,
                   synthetic := decide (encodedTS[12]? ≠ some 0) }⟩
    else none

/-! ## The comparer -/

/-- Drops the synthetic flag and a zero logical part. -/
def normalizeEngineKeyVersionForCompare (a : List Byte) : List Byte :=
  let withWall := mvccEncodedTimeSentinelLen + mvccEncodedTimeWallLen
  let withLogical := withWall + mvccEncodedTimeLogicalLen
  let withSynthetic := withLogical + mvccEncodedTimeSyntheticLen
  let b := if a.length = withSynthetic then a.take withLogical else a
  if b.length = withLogical ∧ b.drop withWall = [0, 0, 0, 0] then b.take withWall else b

/-- The length of the version with its sentinel, from the last byte. -/
def versionLen (a : List Byte) : ℕ := a.getLast?.elim 0 Fin.val

/-- The index of the separator between the key and the version. -/
def separator (a : List Byte) : ℤ := (a.length : ℤ) - 1 - versionLen a

/-- `a[from:end]`, without the last byte. -/
def versionFrom (a : List Byte) (sep : ℤ) : List Byte :=
  (a.take (a.length - 1)).drop sep.toNat

/-- The separators that the comparer uses: those of two bare suffixes are at their start. -/
def separators (a b : List Byte) : ℤ × ℤ :=
  if separator a = -1 ∧ separator b = -1 then (0, 0) else (separator a, separator b)

def compareVersions (aVer bVer : List Byte) : Ordering :=
  if aVer.length = 0 then if bVer.length = 0 then .eq else .lt
  else if bVer.length = 0 then .gt
  else compare (normalizeEngineKeyVersionForCompare bVer) (normalizeEngineKeyVersionForCompare aVer)

/-- The comparer of the engine. -/
def engineKeyCompare (a b : List Byte) : Ordering :=
  if a.length = 0 ∨ b.length = 0 then compare a b
  else
    match separators a b with
    | (aSep, bSep) =>
      if aSep < 0 ∨ bSep < 0 then compare a b
      else
        match compare (a.take aSep.toNat) (b.take bSep.toNat) with
        | .eq => compareVersions (versionFrom a aSep) (versionFrom b bSep)
        | c => c

def engineKeyEqual (a b : List Byte) : Bool :=
  let withWall := mvccEncodedTimeSentinelLen + mvccEncodedTimeWallLen
  let withLockTableLen := mvccEncodedTimeSentinelLen + engineKeyVersionLockTableLen
  if a.length = 0 ∨ b.length = 0 then a == b
  else if (versionLen a ≤ withWall ∧ versionLen b ≤ withWall) ∨
      (versionLen a = withLockTableLen ∧ versionLen b = withLockTableLen) then a == b
  else
    match separators a b with
    | (aSep, bSep) =>
      if aSep < 0 ∨ bSep < 0 then a == b
      else
        a.take aSep.toNat == b.take bSep.toNat &&
          normalizeEngineKeyVersionForCompare (versionFrom a aSep) ==
            normalizeEngineKeyVersionForCompare (versionFrom b bSep)

/-- `Split` of the comparer: the length of the key with its sentinel. -/
def split (k : List Byte) : ℕ :=
  if k.length = 0 then 0
  else if k.length < 1 + versionLen k then k.length
  else k.length - 1 - versionLen k + 1

/-! ## Packed keys -/

/-- A key with its version, which is empty or starts with the sentinel, and the length of the
version. -/
def packed (key version : List Byte) : List Byte :=
  key ++ version ++ [Fin.ofNat 256 version.length]

variable {k l u v : List Byte}

@[simp] lemma length_packed : (packed k v).length = k.length + v.length + 1 := by
  simp [packed, Nat.add_assoc]

lemma versionLen_packed (hv : v.length < 256) : versionLen (packed k v) = v.length := by
  simp [versionLen, packed, Nat.mod_eq_of_lt hv]

lemma separator_packed (hv : v.length < 256) : separator (packed k v) = k.length := by
  rw [separator, versionLen_packed hv, length_packed]
  push_cast
  ring

lemma take_packed : (packed k v).take k.length = k := by
  simp [packed]

lemma versionFrom_packed : versionFrom (packed k v) k.length = v := by
  simp [versionFrom, packed, -append_assoc]

lemma separators_packed (hu : u.length < 256) (hv : v.length < 256) :
    separators (packed k u) (packed l v) = ((k.length : ℤ), (l.length : ℤ)) := by
  have hne : ¬ ((k.length : ℤ) = -1 ∧ (l.length : ℤ) = -1) := by omega
  rw [separators, separator_packed hu, separator_packed hv, if_neg hne]

lemma engineKeyCompare_packed (hu : u.length < 256) (hv : v.length < 256) :
    engineKeyCompare (packed k u) (packed l v) = (compare k l).then (compareVersions u v) := by
  have hempty : ¬ ((packed k u).length = 0 ∨ (packed l v).length = 0) := by simp
  have hneg : ¬ ((k.length : ℤ) < 0 ∨ (l.length : ℤ) < 0) := by omega
  rw [engineKeyCompare, if_neg hempty, separators_packed hu hv]
  dsimp only
  rw [if_neg hneg, versionFrom_packed, versionFrom_packed, Int.toNat_natCast, Int.toNat_natCast,
    take_packed, take_packed]
  cases compare k l <;> rfl

lemma split_packed (hv : v.length < 256) : split (packed k v) = k.length + 1 := by
  rw [split, versionLen_packed hv, length_packed, if_neg (by omega), if_neg (by omega)]
  omega

/-- A version starts with the sentinel, if there is one. -/
def Sentinel (version : List Byte) : Prop := version = [] ∨ version.head? = some 0

lemma take_split_packed (hv : v.length < 256) (hs : Sentinel v) :
    (packed k v).take (split (packed k v)) = packed k [] := by
  rw [split_packed hv]
  rcases hs with rfl | hs
  · simp [packed]
  cases v with
  | nil => simp at hs
  | cons b rest =>
    have hb : b = 0 := by simpa using hs
    subst hb
    simp [packed, take_append]

/-! ## The order of packed keys -/

/-- The versions compare as zero or one by emptiness, and then in reverse by their normalized bytes.
-/
lemma compareVersions_eq (u v : List Byte) : compareVersions u v =
    (compare (!u.isEmpty) (!v.isEmpty)).then (compare (normalizeEngineKeyVersionForCompare v)
      (normalizeEngineKeyVersionForCompare u)) := by
  cases u with
  | nil =>
    cases v with
    | nil => rfl
    | cons b v => rfl
  | cons a u =>
    cases v with
    | nil => rfl
    | cons b v =>
      rfl

/-- The order on decoded keys. -/
def comparePacked : List Byte × List Byte → List Byte × List Byte → Ordering :=
  compareLex (compareOn fun p => p.1)
    (compareLex (compareOn fun p => !p.2.isEmpty)
      (fun p q => compareOn (fun r : List Byte × List Byte =>
        normalizeEngineKeyVersionForCompare r.2) q p))

lemma engineKeyCompare_eq (hu : u.length < 256) (hv : v.length < 256) :
    engineKeyCompare (packed k u) (packed l v) = comparePacked (k, u) (l, v) := by
  rw [engineKeyCompare_packed hu hv, compareVersions_eq]
  rfl

instance : Std.TransCmp comparePacked := by
  unfold comparePacked
  infer_instance

lemma packed_inj (hu : u.length < 256) (hv : v.length < 256) (h : packed k u = packed l v) :
    k = l ∧ u = v := by
  have hver : u.length = v.length := by
    rw [← @versionLen_packed k u hu, h, versionLen_packed hv]
  have hlen : k.length = l.length := by
    have := congrArg List.length h
    simp only [length_packed] at this
    omega
  have happend := append_inj_left h (by simp [hlen, hver])
  exact append_inj happend hlen

lemma normalize_eq_self (h13 : v.length ≠ 13) (h14 : v.length ≠ 14) :
    normalizeEngineKeyVersionForCompare v = v := by
  simp [normalizeEngineKeyVersionForCompare, mvccEncodedTimeSentinelLen, mvccEncodedTimeWallLen,
    mvccEncodedTimeLogicalLen, mvccEncodedTimeSyntheticLen, h13, h14]

lemma normalize_eq_nil (h : normalizeEngineKeyVersionForCompare v = []) : v = [] := by
  cases v with
  | nil => rfl
  | cons b rest =>
    unfold normalizeEngineKeyVersionForCompare at h
    dsimp only [mvccEncodedTimeSentinelLen, mvccEncodedTimeWallLen, mvccEncodedTimeLogicalLen,
      mvccEncodedTimeSyntheticLen] at h
    split_ifs at h <;> simp at h

/-- The fast paths compare all bytes, which the normalization keeps. -/
lemma engineKeyEqual_iff (hu : u.length < 256) (hv : v.length < 256) :
    engineKeyEqual (packed k u) (packed l v) ↔
      k = l ∧ normalizeEngineKeyVersionForCompare u = normalizeEngineKeyVersionForCompare v := by
  have hempty : ¬ ((packed k u).length = 0 ∨ (packed l v).length = 0) := by simp
  have hneg : ¬ ((k.length : ℤ) < 0 ∨ (l.length : ℤ) < 0) := by omega
  unfold engineKeyEqual
  rw [if_neg hempty, versionLen_packed hu, versionLen_packed hv, separators_packed hu hv]
  dsimp only
  rw [if_neg hneg, versionFrom_packed, versionFrom_packed, Int.toNat_natCast,
    Int.toNat_natCast, take_packed, take_packed]
  split_ifs with hfast
  · rw [beq_iff_eq]
    simp only [mvccEncodedTimeSentinelLen, mvccEncodedTimeWallLen,
      engineKeyVersionLockTableLen] at hfast
    rw [normalize_eq_self (by omega) (by omega), normalize_eq_self (by omega) (by omega)]
    constructor
    · exact packed_inj hu hv
    rintro ⟨rfl, rfl⟩
    rfl
  · rw [Bool.and_eq_true, beq_iff_eq, beq_iff_eq]

lemma comparePacked_eq_iff : comparePacked (k, u) (l, v) = .eq ↔
    k = l ∧ normalizeEngineKeyVersionForCompare u = normalizeEngineKeyVersionForCompare v := by
  show ((compare k l).then ((compare (!u.isEmpty) (!v.isEmpty)).then
    (compare (normalizeEngineKeyVersionForCompare v)
      (normalizeEngineKeyVersionForCompare u)))) = .eq ↔ _
  rw [then_eq_eq, then_eq_eq, Std.compare_eq_iff_eq, Std.compare_eq_iff_eq,
    Std.compare_eq_iff_eq]
  constructor
  · rintro ⟨hk, _, hn⟩
    exact ⟨hk, hn.symm⟩
  rintro ⟨hk, hn⟩
  refine ⟨hk, ?_, hn.symm⟩
  cases u with
  | nil =>
    rw [normalize_eq_nil hn.symm]
  | cons a u =>
    cases v with
    | nil => exact absurd (normalize_eq_nil hn) (cons_ne_nil a u)
    | cons b v => rfl

lemma comparePacked_bare (k v : List Byte) : comparePacked (k, []) (k, v) ≠ .gt := by
  show (compare k k).then ((compare (! List.isEmpty (α := Byte) []) (!v.isEmpty)).then _) ≠ .gt
  rw [compare_self, eq_then]
  cases v with
  | nil =>
    show compare (normalizeEngineKeyVersionForCompare []) _ ≠ .gt
    rw [compare_self]
    decide
  | cons b v => exact fun h => by cases h

/-! ## The versions of timestamps -/

/-- A timestamp that is empty, or has parts that are not negative and not both zero. -/
def Encodable (t : Timestamp) : Prop :=
  t.isEmpty ∨
    0 ≤ t.wallTime ∧ t.wallTime ≤ Timestamp.maxInt64 ∧ 0 ≤ t.logical ∧
      t.logical ≤ Timestamp.maxInt32 ∧ (t.wallTime ≠ 0 ∨ t.logical ≠ 0)

instance (t : Timestamp) : Decidable (Encodable t) :=
  inferInstanceAs (Decidable (t.isEmpty ∨ 0 ≤ t.wallTime ∧
    t.wallTime ≤ Timestamp.maxInt64 ∧ 0 ≤ t.logical ∧ t.logical ≤ Timestamp.maxInt32 ∧
      (t.wallTime ≠ 0 ∨ t.logical ≠ 0)))

def mvccVersion (t : Timestamp) : List Byte :=
  if t.isEmpty then [] else 0 :: encodeMVCCTimestampToBuf t

lemma length_encodeMVCCTimestampToBuf {t : Timestamp} (h : t.isEmpty = false) :
    (encodeMVCCTimestampToBuf t).length = encodedMVCCTimestampLength t := by
  unfold encodeMVCCTimestampToBuf encodedMVCCTimestampLength
  rw [h]
  by_cases hl : t.logical = 0 <;> cases hs : t.synthetic <;>
    simp [hl, mvccEncodedTimeSyntheticLen]

lemma encodeMVCCKey_eq (k : MVCCKey) :
    encodeMVCCKey k = packed k.key (mvccVersion k.timestamp) := by
  unfold encodeMVCCKey packed mvccVersion
  cases h : k.timestamp.isEmpty with
  | true => simp [encodedMVCCTimestampLength, h]
  | false =>
    have hpos : 0 < encodedMVCCTimestampLength k.timestamp := by
      simp [encodedMVCCTimestampLength, h, mvccEncodedTimeWallLen]
    rw [if_pos hpos]
    simp [length_encodeMVCCTimestampToBuf h, mvccEncodedTimeLengthLen]

lemma normalize_eq (a : List Byte) : normalizeEngineKeyVersionForCompare a =
    (fun b : List Byte => if b.length = 13 ∧ b.drop 9 = [0, 0, 0, 0] then b.take 9 else b)
      (if a.length = 14 then a.take 13 else a) := rfl

lemma normalize_mvccVersion {w l : List Byte} (hw : w.length = 8) (hl : l.length = 4)
    (synthetic : List Byte) (hs : synthetic.length ≤ 1) :
    normalizeEngineKeyVersionForCompare (0 :: (w ++ (l ++ synthetic))) =
      0 :: (w ++ if l = [0, 0, 0, 0] then [] else l) := by
  have htake : (0 :: (w ++ (l ++ synthetic))).take 13 = 0 :: (w ++ l) := by
    rw [take_succ_cons, ← append_assoc, take_left' (by simp [hw, hl])]
  have hb : (if (0 :: (w ++ (l ++ synthetic))).length = 14 then
      (0 :: (w ++ (l ++ synthetic))).take 13 else 0 :: (w ++ (l ++ synthetic))) =
      0 :: (w ++ l) := by
    split_ifs with hlen
    · exact htake
    have : synthetic = [] := by
      rw [← length_eq_zero_iff]
      simp [hw, hl] at hlen
      omega
    simp [this]
  have hdrop : (0 :: (w ++ l)).drop 9 = l := by
    rw [drop_succ_cons, drop_left' hw]
  have hcut : (0 :: (w ++ l)).take 9 = 0 :: w := by
    rw [take_succ_cons, take_left' hw]
  rw [normalize_eq, hb]
  dsimp only
  rw [hdrop, hcut]
  split_ifs with h1 h2 h2
  · simp
  · exact absurd h1.2 h2
  · exact absurd ⟨by simp [hw, hl], h2⟩ h1
  · rfl

variable {t s : Timestamp}

def wallBytes (t : Timestamp) : List Byte := toBytes 8 (t.wallTime % 2 ^ 64).toNat

def logicalBytes (t : Timestamp) : List Byte := toBytes 4 (t.logical % 2 ^ 32).toNat

/-- Logical part and synthetic flag. -/
def tailBytes (t : Timestamp) : List Byte :=
  if t.logical ≠ 0 ∨ t.synthetic then logicalBytes t ++ if t.synthetic then [1] else [] else []

lemma encodeMVCCTimestampToBuf_eq (t : Timestamp) :
    encodeMVCCTimestampToBuf t = wallBytes t ++ tailBytes t := rfl

@[simp] lemma length_wallBytes (t : Timestamp) : (wallBytes t).length = 8 := length_toBytes _ _

@[simp] lemma length_logicalBytes (t : Timestamp) : (logicalBytes t).length = 4 :=
  length_toBytes _ _

/-- A timestamp with parts that are not negative and fit their types. -/
structure NonNeg (t : Timestamp) : Prop where
  wallTime : 0 ≤ t.wallTime
  wallTime_le : t.wallTime ≤ Timestamp.maxInt64
  logical : 0 ≤ t.logical
  logical_le : t.logical ≤ Timestamp.maxInt32

lemma Encodable.nonNeg (h : Encodable t) : NonNeg t := by
  rcases h with h | h
  · simp [Timestamp.isEmpty] at h
    constructor <;> simp [h, Timestamp.maxInt64, Timestamp.maxInt32]
  · exact ⟨h.1, h.2.1, h.2.2.1, h.2.2.2.1⟩

lemma NonNeg.wall_toNat (h : NonNeg t) :
    (t.wallTime % 2 ^ 64).toNat = t.wallTime.toNat ∧ t.wallTime.toNat < 256 ^ 8 := by
  have h0 := h.wallTime
  have hle := h.wallTime_le
  simp only [Timestamp.maxInt64] at hle
  rw [Int.emod_eq_of_lt h0 (by omega)]
  exact ⟨rfl, by omega⟩

lemma NonNeg.logical_toNat (h : NonNeg t) :
    (t.logical % 2 ^ 32).toNat = t.logical.toNat ∧ t.logical.toNat < 256 ^ 4 := by
  have h0 := h.logical
  have hle := h.logical_le
  simp only [Timestamp.maxInt32] at hle
  rw [Int.emod_eq_of_lt h0 (by omega)]
  exact ⟨rfl, by omega⟩

lemma compare_toNat {m n : Int} (hm : 0 ≤ m) (hn : 0 ≤ n) :
    compare m.toNat n.toNat = compare m n := by
  rcases lt_trichotomy m n with h | h | h
  · rw [compare_lt_iff_lt.mpr h, compare_lt_iff_lt.mpr (by omega)]
  · rw [compare_eq_iff_eq.mpr h, compare_eq_iff_eq.mpr (by omega)]
  · rw [compare_gt_iff_gt.mpr h, compare_gt_iff_gt.mpr (by omega)]

lemma compare_wallBytes (ht : NonNeg t) (hs : NonNeg s) :
    compare (wallBytes t) (wallBytes s) = compare t.wallTime s.wallTime := by
  rw [wallBytes, wallBytes, ht.wall_toNat.1, hs.wall_toNat.1,
    compare_toBytes ht.wall_toNat.2 hs.wall_toNat.2, compare_toNat ht.wallTime hs.wallTime]

lemma compare_logicalBytes (ht : NonNeg t) (hs : NonNeg s) :
    compare (logicalBytes t) (logicalBytes s) = compare t.logical s.logical := by
  rw [logicalBytes, logicalBytes, ht.logical_toNat.1, hs.logical_toNat.1,
    compare_toBytes ht.logical_toNat.2 hs.logical_toNat.2, compare_toNat ht.logical hs.logical]

lemma logicalBytes_eq_zero (ht : NonNeg t) : logicalBytes t = [0, 0, 0, 0] ↔ t.logical = 0 := by
  constructor
  · intro h
    have hof := ofBytes_toBytes ht.logical_toNat.2
    rw [← ht.logical_toNat.1] at hof
    change ofBytes (logicalBytes t) = _ at hof
    rw [h, ht.logical_toNat.1] at hof
    have h0 := ht.logical
    have : ofBytes [0, 0, 0, 0] = 0 := rfl
    omega
  · intro h
    rw [logicalBytes, h]
    rfl

def logicalPart (t : Timestamp) : List Byte := if t.logical = 0 then [] else logicalBytes t

lemma normalize_timestamp (ht : NonNeg t) :
    normalizeEngineKeyVersionForCompare (0 :: encodeMVCCTimestampToBuf t) =
      0 :: (wallBytes t ++ logicalPart t) := by
  have hw := length_wallBytes t
  have hl := length_logicalBytes t
  have hzero : (if logicalBytes t = [0, 0, 0, 0] then [] else logicalBytes t) = logicalPart t := by
    simp only [logicalBytes_eq_zero ht, logicalPart]
  rw [encodeMVCCTimestampToBuf_eq, tailBytes]
  split_ifs with h1 h2
  · rw [normalize_mvccVersion hw hl [1] (by simp), hzero]
  · rw [normalize_mvccVersion hw hl [] (by simp), hzero]
  push Not at h1
  rw [append_nil, normalize_eq_self (by simp) (by simp), logicalPart,
    if_pos h1.1, append_nil]

lemma exists_logicalBytes (r : Timestamp) : ∃ b l, logicalBytes r = b :: l :=
  exists_cons_of_length_eq_add_one (length_logicalBytes r)

lemma compare_logicalPart (ht : NonNeg t) (hs : NonNeg s) :
    compare (logicalPart t) (logicalPart s) = compare t.logical s.logical := by
  have h0 := ht.logical
  have h0' := hs.logical
  unfold logicalPart
  split_ifs with h1 h2 h2
  · rw [h1, h2]
    rfl
  · obtain ⟨b, l, hb⟩ := exists_logicalBytes s
    rw [hb, h1, compare_lt_iff_lt.mpr (show 0 < s.logical by omega)]
    rfl
  · obtain ⟨b, l, hb⟩ := exists_logicalBytes t
    rw [hb, h2, compare_gt_iff_gt.mpr (show 0 < t.logical by omega)]
    rfl
  · exact compare_logicalBytes ht hs

lemma compareTimestamp_eq (t s : Timestamp) : compareTimestamp t s =
    (compare t.wallTime s.wallTime).then (compare t.logical s.logical) := by
  unfold compareTimestamp
  split_ifs with h1 h2 h3 h4
  · rw [compare_gt_iff_gt.mpr h1]
    rfl
  · rw [compare_lt_iff_lt.mpr h2]
    rfl
  · rw [compare_eq_iff_eq.mpr (show t.wallTime = s.wallTime by omega), compare_gt_iff_gt.mpr h3]
    rfl
  · rw [compare_eq_iff_eq.mpr (show t.wallTime = s.wallTime by omega), compare_lt_iff_lt.mpr h4]
    rfl
  · rw [compare_eq_iff_eq.mpr (show t.wallTime = s.wallTime by omega),
      compare_eq_iff_eq.mpr (show t.logical = s.logical by omega)]
    rfl

lemma compare_normalize_timestamp (ht : NonNeg t) (hs : NonNeg s) :
    compare (normalizeEngineKeyVersionForCompare (0 :: encodeMVCCTimestampToBuf t))
      (normalizeEngineKeyVersionForCompare (0 :: encodeMVCCTimestampToBuf s)) =
      compareTimestamp t s := by
  have hw : (wallBytes t).length = (wallBytes s).length := by simp
  rw [normalize_timestamp ht, normalize_timestamp hs, compare_cons, compare_self,
    eq_then, compare_append hw, compare_wallBytes ht hs, compare_logicalPart ht hs,
    compareTimestamp_eq]

lemma swap_compareTimestamp (t s : Timestamp) :
    (compareTimestamp t s).swap = compareTimestamp s t := by
  rw [compareTimestamp_eq, compareTimestamp_eq, swap_then,
    ← Std.OrientedOrd.eq_swap, ← Std.OrientedOrd.eq_swap]

end MeshDB.Storage
