import MeshDB.Lib.Outcome
import MeshDB.Storage.EngineKey

/-!
# Decoding values and scan batches

The decoders of MVCC values and of the batches of a scan take the sizes of their parts from the
bytes that they decode, and add to them in 32-bit arithmetic before they look at the bounds.
-/
namespace MeshDB.Storage

open Roachpb Hlc BigEndian List Option Outcome

inductive DecodeError where
  | missingTag
  | missingHeader
  | unmarshal
  | unexpectedEOF
  | expected (size remaining : ℕ)
  | invalidKey
deriving DecidableEq

/-- Go's slice expression, which panics out of bounds. -/
def slice (buf : List Byte) (lo hi : ℕ) : Outcome (List Byte) :=
  if lo ≤ hi ∧ hi ≤ buf.length then .ok ((buf.take hi).drop lo) else .error .panic

variable {buf : List Byte} {lo hi : ℕ}

lemma slice_eq (h : lo ≤ hi) (h' : hi ≤ buf.length) :
    slice buf lo hi = .ok ((buf.take hi).drop lo) := if_pos ⟨h, h'⟩

lemma slice_of_lt (h : hi < lo) : slice buf lo hi = .error .panic :=
  if_neg fun hle => h.not_ge hle.1

lemma of_slice_eq {part : List Byte} (h : slice buf lo hi = .ok part) :
    lo ≤ hi ∧ part = (buf.take hi).drop lo := by
  unfold slice at h
  split_ifs at h with hle
  cases h
  exact ⟨hle.1, rfl⟩

/-! ## Values -/

/-- The protobuf encoding of the header of a value, which is its local timestamp. -/
structure HeaderCodec where
  marshal : Timestamp → List Byte
  unmarshal : List Byte → Option Timestamp

/-- The header of a value is decoded as it was encoded, and is short. -/
structure HeaderCodec.RoundTrips (codec : HeaderCodec) (ts : Timestamp) : Prop where
  unmarshal : codec.unmarshal (codec.marshal ts) = some ts
  length_lt : (codec.marshal ts).length < 2 ^ 32 - 5

def tagPos : ℕ := 4
def extendedPreludeSize : ℕ := 5
def extendedEncodingSentinel : Byte := 101

/-- Extended only when the header says something. -/
def encodeMVCCValue (codec : HeaderCodec) (disableSimpleValueEncoding : Bool) (v : MVCCValue) :
    List Byte :=
  if v.localTimestamp.isEmpty && !disableSimpleValueEncoding then v.rawBytes
  else
    let header := codec.marshal v.localTimestamp
    toBytes 4 header.length ++ [extendedEncodingSentinel] ++ header ++ v.rawBytes

def headerLen (buf : List Byte) : ℕ := ofBytes (buf.take 4)

/-- The sum wraps around in `uint32`. -/
def headerSize (buf : List Byte) : ℕ := (extendedPreludeSize + headerLen buf) % 2 ^ 32

/-- `none` for the extended encoding. -/
def tryDecodeSimpleMVCCValue (buf : List Byte) : Except DecodeError (Option MVCCValue) :=
  if buf.length = 0 then .ok (some ⟨{}, []⟩)
  else
    match buf[tagPos]? with
    | none => .error .missingTag
    | some tag => if tag ≠ extendedEncodingSentinel then .ok (some ⟨{}, buf⟩) else .ok none

def decodeExtendedMVCCValue (codec : HeaderCodec) (buf : List Byte) :
    Outcome (Except DecodeError MVCCValue) :=
  if buf.length < headerSize buf then .ok (.error .missingHeader)
  else do
    let header ← slice buf extendedPreludeSize (headerSize buf)
    match codec.unmarshal header with
    | none => return .error .unmarshal
    | some ts => return .ok ⟨ts, buf.drop (headerSize buf)⟩

def decodeMVCCValue (codec : HeaderCodec) (buf : List Byte) :
    Outcome (Except DecodeError MVCCValue) :=
  match tryDecodeSimpleMVCCValue buf with
  | .error err => .ok (.error err)
  | .ok (some v) => .ok (.ok v)
  | .ok none => decodeExtendedMVCCValue codec buf

def encodedMVCCValueIsTombstone (buf : List Byte) : Except DecodeError Bool :=
  if buf.length = 0 then .ok true
  else
    match buf[tagPos]? with
    | none => .error .missingTag
    | some tag =>
      if tag ≠ extendedEncodingSentinel then .ok false
      else if buf.length < headerSize buf then .error .missingHeader
      else .ok (decide (buf.length = headerSize buf))

variable {codec : HeaderCodec} {buf : List Byte}

/-- The length of the header overflows in the sum with the prelude. -/
def HeaderWraps (buf : List Byte) : Prop :=
  buf[tagPos]? = some extendedEncodingSentinel ∧ 2 ^ 32 - 5 ≤ headerLen buf

lemma ofBytes_lt_of_le {l : List Byte} (h : l.length ≤ 4) : ofBytes l < 2 ^ 32 :=
  (ofBytes_lt l).trans_le ((Nat.pow_le_pow_right (by omega) h).trans_eq (by norm_num))

lemma exists_decodeExtended_iff (h : 5 ≤ buf.length) :
    (∃ r, decodeExtendedMVCCValue codec buf = .ok r) ↔ headerLen buf < 2 ^ 32 - 5 := by
  have hlt : headerLen buf < 2 ^ 32 := ofBytes_lt_of_le (length_take_le _ _)
  unfold decodeExtendedMVCCValue slice headerSize extendedPreludeSize
  split_ifs with hsize hslice
  · exact ⟨fun _ => by omega, fun _ => ⟨_, rfl⟩⟩
  · refine ⟨fun _ => by omega, fun _ => ?_⟩
    dsimp only [bind, Except.bind]
    split <;> exact ⟨_, rfl⟩
  refine iff_of_false ?_ (by omega)
  rintro ⟨r, hr⟩
  cases hr

/-- Nothing is sliced out of range unless the length of the header overflows. -/
lemma exists_decodeMVCCValue_iff :
    (∃ r, decodeMVCCValue codec buf = .ok r) ↔ ¬ HeaderWraps buf := by
  unfold decodeMVCCValue tryDecodeSimpleMVCCValue HeaderWraps
  cases htag : buf[tagPos]? with
  | none => split_ifs <;> simp
  | some tag =>
    have hlen : 5 ≤ buf.length := (List.getElem?_eq_some_iff.mp htag).1
    rw [if_neg (by omega)]
    by_cases hsentinel : tag = extendedEncodingSentinel
    · simp only [hsentinel, ne_eq, not_true_eq_false, if_false, true_and, not_le]
      exact exists_decodeExtended_iff hlen
    · simp [hsentinel]

variable {v : MVCCValue}

/-- The test for tombstones agrees with the decoder. -/
lemma isTombstone_of_decode (h : decodeMVCCValue codec buf = .ok (.ok v)) :
    encodedMVCCValueIsTombstone buf = .ok v.isTombstone := by
  unfold decodeMVCCValue tryDecodeSimpleMVCCValue at h
  unfold encodedMVCCValueIsTombstone
  by_cases hempty : buf.length = 0
  · rw [if_pos hempty] at h ⊢
    cases h
    rfl
  rw [if_neg hempty] at h ⊢
  cases htag : buf[tagPos]? with
  | none =>
    rw [htag] at h
    cases h
  | some tag =>
    simp only [htag] at h ⊢
    split_ifs at h ⊢ with hsentinel hsize
    · cases h
      simp [MVCCValue.isTombstone, length_eq_zero_iff.not.mp hempty]
    · simp [decodeExtendedMVCCValue, hsize] at h
    rw [decodeExtendedMVCCValue, if_neg hsize] at h
    obtain ⟨header, -, h⟩ := bind_eq_ok.mp h
    split at h
    · cases h
    cases h
    congr 1
    rw [Bool.eq_iff_iff, decide_eq_true_eq, MVCCValue.isTombstone, List.isEmpty_iff,
      drop_eq_nil_iff]
    omega

lemma decode_encodeMVCCValue (disable : Bool)
    (hcodec : codec.RoundTrips v.localTimestamp) (hraw : v.rawBytes = [] ∨
    5 ≤ v.rawBytes.length ∧ v.rawBytes[tagPos]? ≠ some extendedEncodingSentinel) :
    decodeMVCCValue codec (encodeMVCCValue codec disable v) = .ok (.ok v) := by
  obtain ⟨ts, raw⟩ := v
  dsimp only at hcodec hraw
  unfold encodeMVCCValue
  split_ifs with hsimple
  · have hts : ts = {} := by
      obtain ⟨hts, -⟩ := Bool.and_eq_true _ _ ▸ hsimple
      cases ts
      simp_all [Timestamp.isEmpty]
    subst hts
    unfold decodeMVCCValue tryDecodeSimpleMVCCValue
    rcases hraw with rfl | ⟨hlen, htag⟩
    · rfl
    have hget : raw[tagPos]? = some raw[tagPos] := List.getElem?_eq_getElem hlen
    rw [hget] at htag
    simp only [hget, ne_eq, Option.some.injEq] at htag ⊢
    rw [if_neg (by omega), if_pos htag]
  have hlt := hcodec.length_lt
  generalize hheader : codec.marshal ts = header at hlt
  have hprelude : (toBytes 4 header.length ++ [extendedEncodingSentinel]).length = 5 := by simp
  have hlen : headerSize (toBytes 4 header.length ++ [extendedEncodingSentinel] ++ header ++ raw) =
      5 + header.length := by
    unfold headerSize headerLen extendedPreludeSize
    rw [append_assoc, append_assoc, take_left' (length_toBytes _ _),
      ofBytes_toBytes (by norm_num; omega)]
    omega
  have htag : (toBytes 4 header.length ++ [extendedEncodingSentinel] ++ header ++ raw)[tagPos]? =
      some extendedEncodingSentinel := by
    rw [append_assoc, append_assoc, tagPos, List.getElem?_append_right (by simp), length_toBytes]
    rfl
  have hsize : (toBytes 4 header.length ++ [extendedEncodingSentinel] ++ header).length =
      5 + header.length := by
    rw [length_append, hprelude]
  rw [decodeMVCCValue, tryDecodeSimpleMVCCValue, if_neg (by simp), htag]
  rw [decodeExtendedMVCCValue, hlen, if_neg (by simp; omega),
    slice_eq (show extendedPreludeSize ≤ 5 + header.length from Nat.le_add_right 5 _)
      (by rw [length_append, hsize]; omega), take_left' hsize, drop_left' hsize]
  dsimp only [bind, Except.bind]
  rw [show extendedPreludeSize = 5 from rfl, drop_left' hprelude, ← hheader, hcodec.unmarshal]
  rfl

/-- Decoding is total, and agrees with the test for tombstones, if and only if the header length
does not overflow. What was encoded is decoded. -/
theorem decodeMVCCValue_total (codec : HeaderCodec) (buf : List Byte) :
    (((∃ r, decodeMVCCValue codec buf = .ok r) ∧
        ∀ v, decodeMVCCValue codec buf = .ok (.ok v) →
          encodedMVCCValueIsTombstone buf = .ok v.isTombstone) ↔ ¬ HeaderWraps buf) ∧
      ∀ (disableSimpleValueEncoding : Bool) (v : MVCCValue), codec.RoundTrips v.localTimestamp →
        (v.rawBytes = [] ∨
          5 ≤ v.rawBytes.length ∧ v.rawBytes[tagPos]? ≠ some extendedEncodingSentinel) →
        decodeMVCCValue codec (encodeMVCCValue codec disableSimpleValueEncoding v) =
          .ok (.ok v) := by
  refine ⟨?_, fun disable v hcodec hraw => decode_encodeMVCCValue disable hcodec hraw⟩
  rw [← exists_decodeMVCCValue_iff]
  exact ⟨fun h => h.1, fun h => ⟨h, fun v => isTombstone_of_decode⟩⟩

/-- A codec for the local timestamps `0` and `7`. -/
def smallCodec : HeaderCodec where
  marshal := fun ts => if ts = { wallTime := 7 } then [7] else []
  unmarshal := fun bytes => if bytes = [7] then some { wallTime := 7 } else some {}

theorem decodeMVCCValue_total_extended :
    decodeMVCCValue smallCodec
        (encodeMVCCValue smallCodec false ⟨{ wallTime := 7 }, [1, 2, 3, 4, 9]⟩) =
      .ok (.ok ⟨{ wallTime := 7 }, [1, 2, 3, 4, 9]⟩) :=
  (decodeMVCCValue_total smallCodec []).2 false _ ⟨by decide, by decide⟩ (.inr (by decide))

/-- A header length of `2 ^ 32 - 1` makes a header of negative size. -/
theorem decodeMVCCValue_panics : decodeMVCCValue smallCodec [255, 255, 255, 255, 101] =
    .error .panic ∧ encodedMVCCValueIsTombstone [255, 255, 255, 255, 101] = .ok false := by
  decide

/-! ## Scan batches -/

def kvLenSize : ℕ := 8

def valSize (repr : List Byte) : ℕ := ofBytes (repr.take 4).reverse

def keySize (repr : List Byte) : ℕ := ofBytes ((repr.take kvLenSize).drop 4).reverse

/-- The sum wraps around in `uint32`. -/
def keyEnd (repr : List Byte) : ℕ := (keySize repr + kvLenSize) % 2 ^ 32

/-- The sum wraps around in `uint32`. -/
def valEnd (repr : List Byte) : ℕ := (keyEnd repr + valSize repr) % 2 ^ 32

structure Decoded (κ : Type) where
  key : κ
  value : List Byte
  rest : List Byte
deriving DecidableEq

/-- One row of a batch of rows. -/
def scanDecodeKeyValue (repr : List Byte) : Outcome (Except DecodeError (Decoded MVCCKey)) :=
  if repr.length < kvLenSize then .ok (.error .unexpectedEOF)
  else if repr.length % 2 ^ 32 < valEnd repr then
    .ok (.error (.expected (valEnd repr) repr.length))
  else do
    let rawKey ← slice repr kvLenSize (keyEnd repr)
    let value ← slice repr (keyEnd repr) (valEnd repr)
    let rest ← slice repr (valEnd repr) repr.length
    return (decodeMVCCKey rawKey).elim (.error .invalidKey) fun key => .ok ⟨key, value, rest⟩

def scanDecodeKeyValueNoTS (repr : List Byte) : Outcome (Except DecodeError (Decoded Key)) :=
  if repr.length < kvLenSize then .ok (.error .unexpectedEOF)
  else if repr.length < valEnd repr then .ok (.error (.expected (valEnd repr) repr.length))
  else do
    let rest ← slice repr (valEnd repr) repr.length
    let value ← slice repr (keyEnd repr) (valEnd repr)
    let rawKey ← slice repr kvLenSize (keyEnd repr)
    return (splitMVCCKey rawKey).elim (.error .invalidKey) fun (key, _) => .ok ⟨key, value, rest⟩

/-- The loop of `ScanDecodeKeyValues` over a batch, where `fn` changes a state. -/
def scanDecodeBatch {σ ε : Type} (fn : σ → Decoded MVCCKey → Except ε σ) :
    ℕ → List Byte → σ → Option (Outcome (Except (DecodeError ⊕ ε) σ))
  | 0, _, _ => none
  | fuel + 1, data, st =>
    if data.length = 0 then some (.ok (.ok st))
    else
      match scanDecodeKeyValue data with
      | .error failure => some (.error failure)
      | .ok (.error err) => some (.ok (.error (.inl err)))
      | .ok (.ok kv) =>
        match fn st kv with
        | .error err => some (.ok (.error (.inr err)))
        | .ok st => scanDecodeBatch fn fuel kv.rest st

def scanDecodeKeyValues {σ ε : Type} (fn : σ → Decoded MVCCKey → Except ε σ) (fuel : ℕ) :
    List (List Byte) → σ → Option (Outcome (Except (DecodeError ⊕ ε) σ))
  | [], st => some (.ok (.ok st))
  | data :: repr, st =>
    match scanDecodeBatch fn fuel data st with
    | some (.ok (.ok st)) => scanDecodeKeyValues fn fuel repr st
    | result => result

variable {repr : List Byte}

/-- The sizes overflow in their sum, which then looks small enough. -/
def SizesWrap (repr : List Byte) : Prop :=
  kvLenSize ≤ repr.length ∧ 2 ^ 32 ≤ keySize repr + kvLenSize + valSize repr ∧
    (keySize repr + kvLenSize + valSize repr) % 2 ^ 32 ≤ repr.length

/-- The parts lie in the batch in order. -/
def InOrder (repr : List Byte) (kv : Decoded Key) : Prop :=
  ∃ sizes suffix, kvLenSize = sizes.length ∧ repr = sizes ++ kv.key ++ suffix ++ kv.value ++ kv.rest

lemma exists_append_of_splitMVCCKey {mvccKey key ts : List Byte}
    (h : splitMVCCKey mvccKey = some (key, ts)) : ∃ suffix, mvccKey = key ++ suffix := by
  unfold splitMVCCKey at h
  split at h
  · cases h
  split_ifs at h
  all_goals
    cases h
    exact ⟨_, (take_append_drop _ _).symm⟩

lemma splitMVCCKey_of_decodeMVCCKey {encodedKey : List Byte} {key : MVCCKey}
    (h : decodeMVCCKey encodedKey = some key) :
    ∃ ts, splitMVCCKey encodedKey = some (key.key, ts) := by
  unfold decodeMVCCKey at h
  split at h
  · cases h
  next k ts hsplit =>
    refine ⟨ts, ?_⟩
    split_ifs at h
    all_goals
      cases h
      exact hsplit

lemma valEnd_eq (repr : List Byte) :
    valEnd repr = (keySize repr + kvLenSize + valSize repr) % 2 ^ 32 := by
  simp [valEnd, keyEnd]

lemma take_append_drop_take (h : lo ≤ hi) :
    repr.take lo ++ (repr.take hi).drop lo = repr.take hi := by
  conv_rhs => rw [← take_append_drop lo (repr.take hi), take_take, min_eq_left h]

/-- Both return an error, or the sizes overflow and one panics, or the batch is cut in order. -/
lemma scanDecode_cases (repr : List Byte) :
    (¬ SizesWrap repr ∧ ∃ err, scanDecodeKeyValue repr = .ok (.error err) ∧
      scanDecodeKeyValueNoTS repr = .ok (.error err)) ∨
    (SizesWrap repr ∧ scanDecodeKeyValueNoTS repr = .error .panic) ∨
    (¬ SizesWrap repr ∧ ∃ sizes rawKey value rest, kvLenSize = sizes.length ∧
      repr = sizes ++ rawKey ++ value ++ rest ∧
      ((∃ err, scanDecodeKeyValue repr = .ok (.error err)) ∨
        scanDecodeKeyValue repr = .ok ((decodeMVCCKey rawKey).elim (.error .invalidKey)
          fun key => .ok ⟨key, value, rest⟩)) ∧
      scanDecodeKeyValueNoTS repr = .ok ((splitMVCCKey rawKey).elim (.error .invalidKey)
        fun (key, _) => .ok ⟨key, value, rest⟩)) := by
  have hkey : keySize repr < 2 ^ 32 := ofBytes_lt_of_le (by simp [kvLenSize])
  have hval : valSize repr < 2 ^ 32 := ofBytes_lt_of_le (by simp)
  have hend := valEnd_eq repr
  have hkeyEnd : keyEnd repr = (keySize repr + kvLenSize) % 2 ^ 32 := rfl
  unfold scanDecodeKeyValue scanDecodeKeyValueNoTS SizesWrap
  rw [← hend]
  by_cases hshort : repr.length < kvLenSize
  · rw [if_pos hshort, if_pos hshort]
    exact .inl ⟨by omega, _, rfl, rfl⟩
  rw [if_neg hshort, if_neg hshort]
  by_cases hlarge : repr.length < valEnd repr
  · rw [if_pos hlarge, if_pos (by omega)]
    exact .inl ⟨by omega, _, rfl, rfl⟩
  rw [if_neg hlarge, slice_eq (not_lt.mp hlarge) le_rfl]
  by_cases hwrap : 2 ^ 32 ≤ keySize repr + kvLenSize + valSize repr
  · refine .inr (.inl ⟨by omega, ?_⟩)
    by_cases hle : keyEnd repr ≤ valEnd repr
    · rw [slice_eq hle (by omega), slice_of_lt (by unfold kvLenSize at *; omega)]
      rfl
    rw [slice_of_lt (not_le.mp hle)]
    rfl
  rw [Nat.mod_eq_of_lt (by omega)] at hkeyEnd hend
  rw [slice_eq (show kvLenSize ≤ keyEnd repr by omega) (by omega),
    slice_eq (show keyEnd repr ≤ valEnd repr by omega) (by omega)]
  refine .inr (.inr ⟨by omega, repr.take kvLenSize, _, _, _, ?_, ?_, ?_, rfl⟩)
  · rw [length_take]
    omega
  · rw [take_append_drop_take (by omega), take_append_drop_take (by omega),
      take_append_drop_take (by omega), take_length]
  split_ifs
  · exact .inl ⟨_, rfl⟩
  · exact .inr rfl

/-- Neither decoder panics, the parts lie in order, and where the first succeeds the second agrees.
-/
def Decodes (repr : List Byte) : Prop :=
  (∃ result, scanDecodeKeyValue repr = .ok result) ∧
  (∃ result, scanDecodeKeyValueNoTS repr = .ok result) ∧
  (∀ kv, scanDecodeKeyValueNoTS repr = .ok (.ok kv) → InOrder repr kv) ∧
  ∀ kv, scanDecodeKeyValue repr = .ok (.ok kv) →
    InOrder repr ⟨kv.key.key, kv.value, kv.rest⟩ ∧
      scanDecodeKeyValueNoTS repr = .ok (.ok ⟨kv.key.key, kv.value, kv.rest⟩)

lemma decodes_iff (repr : List Byte) : Decodes repr ↔ ¬ SizesWrap repr := by
  obtain ⟨hwrap, err, hts, hno⟩ | ⟨hwrap, hno⟩ |
    ⟨hwrap, sizes, rawKey, value, rest, hsizes, hparts, hts, hno⟩ := scanDecode_cases repr
  · simp [Decodes, hts, hno, hwrap]
  · simp [Decodes, hno, hwrap]
  refine iff_of_true ?_ hwrap
  have horder : ∀ kv, scanDecodeKeyValueNoTS repr = .ok (.ok kv) → InOrder repr kv := by
    intro kv hkv
    rw [hno] at hkv
    cases hsplit : splitMVCCKey rawKey with
    | none => simp [hsplit] at hkv
    | some split =>
      obtain ⟨suffix, rfl⟩ := exists_append_of_splitMVCCKey hsplit
      simp only [hsplit, elim_some, Except.ok.injEq] at hkv
      cases hkv
      exact ⟨sizes, suffix, hsizes, by simpa using hparts⟩
  refine ⟨?_, ⟨_, hno⟩, horder, fun kv hkv => ?_⟩
  · rcases hts with ⟨err, hts⟩ | hts <;> exact ⟨_, hts⟩
  obtain ⟨err, hts⟩ | hts := hts
  · rw [hts] at hkv
    cases hkv
  rw [hts] at hkv
  cases hdecode : decodeMVCCKey rawKey with
  | none => simp [hdecode] at hkv
  | some key =>
    obtain ⟨ts, hsplit⟩ := splitMVCCKey_of_decodeMVCCKey hdecode
    simp only [hdecode, elim_some, Except.ok.injEq] at hkv
    cases hkv
    rw [hsplit] at hno
    exact ⟨horder _ hno, hno⟩

lemma length_rest_lt {kv : Decoded MVCCKey} (h : scanDecodeKeyValue repr = .ok (.ok kv)) :
    kv.rest.length < repr.length := by
  unfold scanDecodeKeyValue at h
  split_ifs at h
  · cases h
  · cases h
  obtain ⟨rawKey, hkey, h⟩ := bind_eq_ok.mp h
  obtain ⟨value, hvalue, h⟩ := bind_eq_ok.mp h
  obtain ⟨rest, hrest, h⟩ := bind_eq_ok.mp h
  obtain ⟨hkey, -⟩ := of_slice_eq hkey
  obtain ⟨hvalue, -⟩ := of_slice_eq hvalue
  obtain ⟨hle, rfl⟩ := of_slice_eq hrest
  cases hdecode : decodeMVCCKey rawKey with
  | none => simp [hdecode, pure, Except.pure] at h
  | some key =>
    simp only [hdecode, elim_some, pure, Except.pure, Except.ok.injEq] at h
    cases h
    simp only [take_length, length_drop]
    unfold kvLenSize at hkey
    omega

variable {σ ε : Type} {fuel : ℕ}

lemma scanDecodeBatch_isSome (fn : σ → Decoded MVCCKey → Except ε σ)
    {data : List Byte} (h : data.length < fuel) (st : σ) :
    (scanDecodeBatch fn fuel data st).isSome := by
  induction fuel generalizing data st with
  | zero => exact absurd h (Nat.not_lt_zero _)
  | succ fuel ih =>
    unfold scanDecodeBatch
    split_ifs
    · rfl
    split
    · rfl
    · rfl
    next kv hkv =>
      split
      · rfl
      · exact ih ((length_rest_lt hkv).trans_le (Nat.le_of_lt_succ h)) _

lemma scanDecodeKeyValues_isSome (fn : σ → Decoded MVCCKey → Except ε σ)
    {batches : List (List Byte)} (h : ∀ data ∈ batches, data.length < fuel) (st : σ) :
    (scanDecodeKeyValues fn fuel batches st).isSome := by
  induction batches generalizing st with
  | nil => rfl
  | cons data batches ih =>
    have hdata := scanDecodeBatch_isSome fn (h data mem_cons_self) st
    unfold scanDecodeKeyValues
    split
    · exact ih (fun data hmem => h data (mem_cons_of_mem _ hmem)) _
    · exact hdata

theorem scanDecode_total (repr : List Byte) : (Decodes repr ↔ ¬ SizesWrap repr) ∧
    ∀ (batches : List (List Byte)) {σ ε : Type} (fn : σ → Decoded MVCCKey → Except ε σ) (st : σ),
      ∃ bound, ∀ fuel, bound ≤ fuel → (scanDecodeKeyValues fn fuel batches st).isSome := by
  refine ⟨decodes_iff repr, fun batches σ ε fn st => ?_⟩
  refine ⟨batches.flatten.length + 1, fun fuel hfuel => ?_⟩
  refine scanDecodeKeyValues_isSome fn (fun data hmem => ?_) st
  exact (Nat.lt_succ_of_le (sublist_flatten_of_mem hmem).length_le).trans_le hfuel

/-- A key of size `2 ^ 32 - 1` ends before it starts. -/
theorem scanDecode_panics : scanDecodeKeyValue [0, 0, 0, 0, 255, 255, 255, 255] = .error .panic ∧
    scanDecodeKeyValueNoTS [0, 0, 0, 0, 255, 255, 255, 255] = .error .panic := by
  decide

end MeshDB.Storage
