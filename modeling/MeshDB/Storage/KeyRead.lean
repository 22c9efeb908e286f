import MeshDB.Storage.Mvcc

/-!
# Reading a key

A get of the `pebbleMVCCScanner`, over the contents of one key: the moves of its iterator are
walks along the versions of the key.
-/
namespace MeshDB.Storage

open Roachpb Hlc Timestamp List

structure Value where
  rawBytes : List Byte
  timestamp : Timestamp := {}
deriving DecidableEq

inductive MVCCError where
  | emptyKey
  | negativeTimestamp (ts : Timestamp)
  | inconsistentReadInTxn
  | inconsistentReadFailOnMoreRecent
  | readWithinUncertaintyInterval (valueTs localTs : Timestamp)
  | writeTooOld (ts actualTs : Timestamp)
  | writeIntent (txn : TxnMeta)
  | intentWithoutTransaction
  | readEpoch (txnEpoch metaEpoch : Int)
  /-- `Prev` of a zero timestamp. -/
  | prevOfZero
  /-- `Next` of the largest timestamp. -/
  | nextOfMax (ts : Timestamp)
  | valueHasTimestamp
  | replayProtectionWithoutTxn
  | mixedInline (putIsInline isInline : Bool)
  | inlineInTxn
  | readTimestampMismatch (readTimestamp timestamp : Timestamp)
  | putEpoch (txnEpoch metaEpoch : Int)
  | intentValueMissing (ts : Timestamp)
  | metaTimestampMismatch (timestamp writeTimestamp : Timestamp)
  | missingIntent (metaSequence sequence : Int)
  | differentValue (sequence : Int) (value written : List Byte)
  | replayProtection (sequence : Int) (metaTimestamp writeTimestamp : Timestamp)
  | valueFn (code : ℕ)
  | timestampRegression (metaTimestamp newTimestamp : Timestamp)
deriving DecidableEq

/-- The options of a get, without those for locked keys and limits. -/
structure ReadOptions where
  ts : Timestamp
  txn : Option Transaction := none
  uncertainty : UncertaintyInterval := {}
  inconsistent : Bool := false
  tombstones : Bool := false
  failOnMoreRecent : Bool := false
deriving DecidableEq

def ReadOptions.checkUncertainty (o : ReadOptions) : Bool := o.ts.less o.uncertainty.globalLimit

/-! ## The scanner at a key -/

def add (o : ReadOptions) (ts : Timestamp) (rawBytes : List Byte) : Option Value :=
  if rawBytes.isEmpty && !o.tombstones then none else some ⟨rawBytes, ts⟩

def coveredByRangeKey (o : ReadOptions) (k : KeyState) (ts : Timestamp) : Option Version :=
  match k.rangeTombstones with
  | [] => none
  | newest :: _ =>
    if o.tombstones || ts.lessEq newest.timestamp then
      (firstAtOrBelow k.rangeTombstones o.ts).filter fun r => ts.lessEq r.timestamp
    else none

/-- The end of `seekVersion` at a version that can be read. -/
def addVersion (o : ReadOptions) (k : KeyState) (v : Version) : Option Value :=
  match coveredByRangeKey o k v.timestamp with
  | some r => add o r.timestamp r.value.rawBytes
  | none => add o v.timestamp v.value.rawBytes

def isUncertain (o : ReadOptions) (v : Version) : Bool :=
  o.uncertainty.isUncertain v.timestamp (v.value.getLocalTimestamp v.timestamp)

def uncertaintyError (v : Version) : MVCCError :=
  .readWithinUncertaintyInterval v.timestamp (v.value.getLocalTimestamp v.timestamp)

def seekVersionLoop (o : ReadOptions) (k : KeyState) (uncertaintyCheck : Bool) :
    List Version → Except MVCCError (Option Value)
  | [] => .ok none
  | v :: rest =>
    if !uncertaintyCheck || v.timestamp.lessEq o.ts then .ok (addVersion o k v)
    else if isUncertain o v then .error (uncertaintyError v)
    else seekVersionLoop o k uncertaintyCheck rest

def seekVersion (o : ReadOptions) (k : KeyState) (seekTS : Timestamp) (uncertaintyCheck : Bool) :
    Except MVCCError (Option Value) :=
  if seekTS.isEmpty then .ok none
  else seekVersionLoop o k uncertaintyCheck
    (k.versions.dropWhile fun v => !v.timestamp.lessEq seekTS)

structure Got where
  value : Option Value := none
  intent : Option TxnMeta := none
  mostRecentTS : Timestamp := {}
deriving DecidableEq

def getOneVersion (o : ReadOptions) (k : KeyState) (mostRecentTS : Timestamp) (v : Version) :
    Except MVCCError Got :=
  match coveredByRangeKey o k v.timestamp with
  | some r => .ok ⟨add o r.timestamp r.value.rawBytes, none, mostRecentTS⟩
  | none =>
    if v.timestamp.less o.ts then
      .ok ⟨add o v.timestamp v.value.rawBytes, none, mostRecentTS⟩
    else if v.timestamp.eqOrdering o.ts then
      if o.failOnMoreRecent then .ok ⟨none, none, mostRecentTS.forward v.timestamp⟩
      else .ok ⟨add o v.timestamp v.value.rawBytes, none, mostRecentTS⟩
    else if o.failOnMoreRecent then .ok ⟨none, none, mostRecentTS.forward v.timestamp⟩
    else if o.checkUncertainty then
      if isUncertain o v then .error (uncertaintyError v)
      else (seekVersion o k o.uncertainty.globalLimit true).map (⟨·, none, mostRecentTS⟩)
    else (seekVersion o k o.ts false).map (⟨·, none, mostRecentTS⟩)

/-- `getOne` on the intent of another transaction: cases 8, 9 and 11. -/
def getOneForeign (o : ReadOptions) (k : KeyState) (mostRecentTS : Timestamp) (t : TxnMeta)
    (metaTS prevTS : Timestamp) : Except MVCCError Got :=
  if !(metaTS.lessEq o.ts || o.failOnMoreRecent) then
    if o.checkUncertainty then
      (seekVersion o k o.uncertainty.globalLimit true).map (⟨·, none, mostRecentTS⟩)
    else (seekVersion o k o.ts false).map (⟨·, none, mostRecentTS⟩)
  else if o.inconsistent then
    (seekVersion o k prevTS false).map (⟨·, some t, mostRecentTS⟩)
  else .ok ⟨none, some t, mostRecentTS⟩

def getOneOwn (o : ReadOptions) (k : KeyState) (mostRecentTS : Timestamp) (txn : Transaction)
    (m : MVCCMetadata) (t : TxnMeta) (prevTS : Timestamp) : Except MVCCError Got :=
  if txn.epoch = t.epoch then
    if t.sequence ≤ txn.sequence ∧ txnSeqIsIgnored t.sequence txn.ignoredSeqNums = false then
      (seekVersion o k m.timestamp false).map (⟨·, none, mostRecentTS⟩)
    else
      match m.getFromIntentHistory txn.sequence txn.ignoredSeqNums with
      | some value => .ok ⟨add o m.timestamp value.rawBytes, none, mostRecentTS⟩
      | none => (seekVersion o k prevTS false).map (⟨·, none, mostRecentTS⟩)
  else if txn.epoch < t.epoch then .error (.readEpoch txn.epoch t.epoch)
  else (seekVersion o k prevTS false).map (⟨·, none, mostRecentTS⟩)

def getOneMetadata (o : ReadOptions) (k : KeyState) (mostRecentTS : Timestamp) (m : MVCCMetadata) :
    Except MVCCError Got :=
  if (m.rawBytes.getD []).length ≠ 0 then
    .ok ⟨add o {} (m.rawBytes.getD []), none, mostRecentTS⟩
  else
    match m.txn with
    | none => .error .intentWithoutTransaction
    | some t =>
      match if m.timestamp.lessEq o.ts then m.timestamp.prev else some o.ts with
      | none => .error .prevOfZero
      | some prevTS =>
        match o.txn with
        | some txn =>
          if t.id = txn.id then getOneOwn o k mostRecentTS txn m t prevTS
          else getOneForeign o k mostRecentTS t m.timestamp prevTS
        | none => getOneForeign o k mostRecentTS t m.timestamp prevTS

/-- `getOne`, on a key that may have no point at all. -/
def getOne (o : ReadOptions) (k : KeyState) (mostRecentTS : Timestamp) : Except MVCCError Got :=
  match k.metadata, k.versions with
  | some m, _ => getOneMetadata o k mostRecentTS m
  | none, v :: _ => getOneVersion o k mostRecentTS v
  | none, [] => .ok ⟨none, none, mostRecentTS⟩

def checkRangeKeys (o : ReadOptions) : List Version → Except MVCCError Unit
  | [] => .ok ()
  | r :: rest =>
    if r.timestamp.lessEq o.ts then .ok ()
    else if isUncertain o r then .error (uncertaintyError r)
    else checkRangeKeys o rest

/-- The check for more recent range tombstones is not made on an intent. -/
def processRangeKeys (o : ReadOptions) (k : KeyState) : Except MVCCError Timestamp :=
  match k.rangeTombstones with
  | [] => .ok {}
  | newest :: _ =>
    (if o.checkUncertainty then checkRangeKeys o k.rangeTombstones else .ok ()).map fun _ =>
      if o.failOnMoreRecent && k.metadata.isNone && o.ts.lessEq newest.timestamp then
        ({} : Timestamp).forward newest.timestamp
      else {}

/-- The end of `get`: a range tombstone stands for a point that was not found. -/
def addSavedRangeKey (o : ReadOptions) (k : KeyState) (value : Option Value) : Option Value :=
  if o.tombstones && value.isNone then
    (firstAtOrBelow k.rangeTombstones o.ts).bind fun r => add o r.timestamp r.value.rawBytes
  else value

def get (o : ReadOptions) (k : KeyState) : Except MVCCError Got := do
  let mostRecentTS ← processRangeKeys o k
  let got ← getOne o k mostRecentTS
  if got.mostRecentTS.isEmpty then .ok { got with value := addSavedRangeKey o k got.value }
  else
    match got.mostRecentTS.next with
    | none => .error (.nextOfMax got.mostRecentTS)
    | some actualTs => .error (.writeTooOld o.ts actualTs)

def mvccGet (key : Key) (o : ReadOptions) (k : KeyState) :
    Except MVCCError (Option Value × Option TxnMeta) :=
  if key.isEmpty then .error .emptyKey
  else if o.ts.wallTime < 0 then .error (.negativeTimestamp o.ts)
  else if o.inconsistent && o.txn.isSome then .error .inconsistentReadInTxn
  else if o.inconsistent && o.failOnMoreRecent then .error .inconsistentReadFailOnMoreRecent
  else
    match get o k with
    | .error e => .error e
    | .ok ⟨value, none, _⟩ => .ok (value, none)
    | .ok ⟨value, some t, _⟩ =>
      if o.inconsistent then .ok (value, some t) else .error (.writeIntent t)

/-! ## What a read shows -/

variable {o : ReadOptions} {k : KeyState} {versions rangeTombstones : List Version}

lemma coveredByRangeKey_eq (h : Descending k.rangeTombstones) (ts : Timestamp) :
    coveredByRangeKey o k ts =
      (k.rangeTombstones.find? (·.timestamp.lessEq o.ts)).filter (ts.lessEq ·.timestamp) := by
  unfold coveredByRangeKey
  rw [← h.firstAtOrBelow o.ts]
  cases hr : k.rangeTombstones with
  | nil => rfl
  | cons newest rest =>
    dsimp only
    split_ifs with hcond
    · rfl
    symm
    rw [hr] at h
    rw [h.firstAtOrBelow, Option.filter_eq_none_iff]
    intro r hfind hle
    simp only [Bool.or_eq_true, not_or, Bool.not_eq_true] at hcond
    have hlt := not_lessEq_iff.mp hcond.2
    rw [lessEq_iff] at hle
    rcases mem_cons.mp (mem_of_find?_eq_some hfind) with rfl | hmem
    · exact absurd hle (not_le.mpr hlt)
    · exact absurd (hle.trans ((descending_cons.mp h).1 r hmem).le) (not_le.mpr hlt)

/-! ## Seeking -/

lemma seekVersion_eq {seekTS : Timestamp} (h : seekTS.isEmpty = false) :
    seekVersion o k seekTS false =
      .ok ((k.versions.find? (·.timestamp.lessEq seekTS)).bind (addVersion o k)) := by
  rw [seekVersion, h, if_neg Bool.false_ne_true]
  generalize k.versions = l
  induction l with
  | nil => rfl
  | cons v rest ih =>
    cases hle : v.timestamp.lessEq seekTS with
    | true => simp [hle, seekVersionLoop]
    | false => simpa [dropWhile_cons, hle] using ih

/-- A version or a range tombstone above the read timestamp that is uncertain. -/
def Uncertain (o : ReadOptions) (v : Version) : Prop :=
  o.ts.ord < v.timestamp.ord ∧ isUncertain o v

lemma seekVersionLoop_checked (l : List Version) :
    (∃ v ∈ l, Uncertain o v ∧ seekVersionLoop o k true l = .error (uncertaintyError v)) ∨
      seekVersionLoop o k true l =
        .ok ((l.find? (·.timestamp.lessEq o.ts)).bind (addVersion o k)) := by
  induction l with
  | nil => exact .inr rfl
  | cons v rest ih =>
    unfold seekVersionLoop
    cases hle : v.timestamp.lessEq o.ts with
    | true => exact .inr (by simp [hle])
    | false =>
      cases hu : isUncertain o v with
      | true =>
        left
        exact ⟨v, mem_cons_self .., ⟨not_lessEq_iff.mp hle, hu⟩, by simp⟩
      | false =>
        rcases ih with ⟨w, hw, huncertain, hloop⟩ | hloop
        · left
          exact ⟨w, mem_cons_of_mem _ hw, huncertain, by simpa using hloop⟩
        right
        simpa [hle] using hloop

lemma find?_dropWhile (hlim : o.checkUncertainty) (l : List Version) :
    (l.dropWhile fun v => !v.timestamp.lessEq o.uncertainty.globalLimit).find?
        (·.timestamp.lessEq o.ts) = l.find? (·.timestamp.lessEq o.ts) := by
  induction l with
  | nil => rfl
  | cons v rest ih =>
    cases hle : v.timestamp.lessEq o.uncertainty.globalLimit with
    | true => simp [hle]
    | false =>
      have habove : v.timestamp.lessEq o.ts = false := by
        rw [not_lessEq_iff] at hle ⊢
        exact (less_iff.mp hlim).trans hle
      simpa [dropWhile_cons, hle, habove] using ih

lemma seekVersion_checked (hlim : o.checkUncertainty)
    (hempty : o.uncertainty.globalLimit.isEmpty = false) :
    (∃ v ∈ k.versions, Uncertain o v ∧
      seekVersion o k o.uncertainty.globalLimit true = .error (uncertaintyError v)) ∨
      seekVersion o k o.uncertainty.globalLimit true =
        .ok ((k.versions.find? (·.timestamp.lessEq o.ts)).bind (addVersion o k)) := by
  rw [seekVersion, hempty, if_neg Bool.false_ne_true, ← find?_dropWhile hlim]
  rcases seekVersionLoop_checked (k.versions.dropWhile
    fun v => !v.timestamp.lessEq o.uncertainty.globalLimit) with ⟨v, hv, hloop⟩ | hloop
  · exact .inl ⟨v, (dropWhile_sublist _).subset hv, hloop⟩
  · exact .inr hloop

/-! ## Reading a key without an intent -/

lemma checkRangeKeys_spec (l : List Version) :
    (∃ r ∈ l, Uncertain o r ∧ checkRangeKeys o l = .error (uncertaintyError r)) ∨
      checkRangeKeys o l = .ok () := by
  induction l with
  | nil => exact .inr rfl
  | cons r rest ih =>
    unfold checkRangeKeys
    cases hle : r.timestamp.lessEq o.ts with
    | true => exact .inr (by simp)
    | false =>
      cases hu : isUncertain o r with
      | true =>
        left
        exact ⟨r, mem_cons_self .., ⟨not_lessEq_iff.mp hle, hu⟩, by simp⟩
      | false =>
        rcases ih with ⟨s, hs, hloop⟩ | hloop
        · left
          exact ⟨s, mem_cons_of_mem _ hs, by simpa using hloop⟩
        right
        simpa using hloop

lemma processRangeKeys_spec (hfail : o.failOnMoreRecent = false) :
    (∃ r ∈ k.rangeTombstones, Uncertain o r ∧
      processRangeKeys o k = .error (uncertaintyError r)) ∨ processRangeKeys o k = .ok {} := by
  unfold processRangeKeys
  cases hr : k.rangeTombstones with
  | nil => exact .inr rfl
  | cons newest rest =>
    cases hcheck : o.checkUncertainty with
    | false => exact .inr (by simp [hfail, Except.map])
    | true =>
      rcases @checkRangeKeys_spec o (newest :: rest) with ⟨r, hr, huncertain, hloop⟩ | hloop
      · left
        exact ⟨r, hr, huncertain, by simp [hloop, Except.map]⟩
      right
      simp [hloop, hfail, Except.map]

lemma get_of_getOne {value : Option Value} {intent : Option TxnMeta}
    (hrange : processRangeKeys o k = .ok {}) (hone : getOne o k {} = .ok ⟨value, intent, {}⟩) :
    get o k = .ok ⟨addSavedRangeKey o k value, intent, {}⟩ := by
  unfold get
  rw [hrange]
  show (getOne o k {} >>= _) = _
  rw [hone]
  rfl

lemma get_of_processRangeKeys_error {e : MVCCError} (hrange : processRangeKeys o k = .error e) :
    get o k = .error e := by
  unfold get
  rw [hrange]
  rfl

lemma get_of_getOne_error {e : MVCCError} (hrange : processRangeKeys o k = .ok {})
    (hone : getOne o k {} = .error e) : get o k = .error e := by
  unfold get
  rw [hrange]
  show (getOne o k {} >>= _) = _
  rw [hone]
  rfl

def committedRead (o : ReadOptions) (versions rangeTombstones : List Version) : Option Value :=
  addSavedRangeKey o ⟨none, versions, rangeTombstones⟩
    ((versions.find? (·.timestamp.lessEq o.ts)).bind
      (addVersion o ⟨none, versions, rangeTombstones⟩))

lemma Stamp.not_isEmpty_of_lt {t s : Timestamp} (ht : Stamp t) (hlt : t.ord < s.ord) :
    s.isEmpty = false := by
  rw [ord_lt_iff] at hlt
  have := ht.wallTime_nonneg
  have := ht.logical_nonneg
  by_contra hne
  simp [Timestamp.isEmpty] at hne
  omega

lemma getOne_committed (h : History versions rangeTombstones) (hts : Stamp o.ts)
    (hfail : o.failOnMoreRecent = false) (hk : k = ⟨none, versions, rangeTombstones⟩) :
    (∃ v ∈ versions, Uncertain o v ∧ getOne o k {} = .error (uncertaintyError v)) ∨
      getOne o k {} =
        .ok ⟨(versions.find? (·.timestamp.lessEq o.ts)).bind (addVersion o k), none, {}⟩ := by
  subst hk
  cases versions with
  | nil => exact .inr rfl
  | cons v rest =>
    show _ ∨ getOneVersion o _ {} v = _
    have hread : v.timestamp.lessEq o.ts →
        ((v :: rest).find? (·.timestamp.lessEq o.ts)).bind
          (addVersion o ⟨none, v :: rest, rangeTombstones⟩) =
        addVersion o ⟨none, v :: rest, rangeTombstones⟩ v := by
      intro hle
      simp [hle]
    cases hcovered : coveredByRangeKey o ⟨none, v :: rest, rangeTombstones⟩ v.timestamp with
    | some r =>
      right
      have hle : v.timestamp.lessEq o.ts := by
        rw [coveredByRangeKey_eq h.rangeDescending, Option.filter_eq_some_iff] at hcovered
        have hr := find?_some hcovered.1
        rw [lessEq_iff] at hr ⊢
        exact (lessEq_iff.mp hcovered.2).trans hr
      rw [hread hle]
      simp [getOneVersion, addVersion, hcovered]
    | none =>
      have hadd : addVersion o ⟨none, v :: rest, rangeTombstones⟩ v =
          add o v.timestamp v.value.rawBytes := by
        simp [addVersion, hcovered]
      rcases lt_trichotomy v.timestamp.ord o.ts.ord with hlt | heq | hgt
      · right
        rw [hread (lessEq_iff.mpr hlt.le), hadd]
        simp [getOneVersion, hcovered, less_iff.mpr hlt]
      · right
        have hless : v.timestamp.less o.ts = false := not_less_iff.mpr heq.ge
        rw [hread (lessEq_iff.mpr heq.le), hadd]
        simp [getOneVersion, hcovered, hless, eqOrdering_iff.mpr heq, hfail]
      have hless : v.timestamp.less o.ts = false := not_less_iff.mpr hgt.le
      have hne : v.timestamp.eqOrdering o.ts = false := by
        rw [← Bool.not_eq_true, eqOrdering_iff]
        exact hgt.ne'
      cases hcheck : o.checkUncertainty with
      | false =>
        right
        simp [getOneVersion, hcovered, hless, hne, hfail, hcheck,
          seekVersion_eq hts.not_isEmpty, Except.map]
      | true =>
        cases hu : isUncertain o v with
        | true =>
          left
          refine ⟨v, mem_cons_self .., ⟨hgt, hu⟩, ?_⟩
          show getOneVersion o _ {} v = _
          simp [getOneVersion, hcovered, hless, hne, hfail, hcheck, hu]
        | false =>
          have hlimit := hts.not_isEmpty_of_lt (less_iff.mp hcheck)
          rcases @seekVersion_checked o ⟨none, v :: rest, rangeTombstones⟩ hcheck hlimit
            with ⟨w, hw, huncertain, hseek⟩ | hseek
          · left
            refine ⟨w, hw, huncertain, ?_⟩
            show getOneVersion o _ {} v = _
            simp [getOneVersion, hcovered, hless, hne, hfail, hcheck, hu, hseek, Except.map]
          right
          simp [getOneVersion, hcovered, hless, hne, hfail, hcheck, hu, hseek, Except.map]

lemma mvccGet_eq {key : Key} (hkey : key ≠ []) (hts : Stamp o.ts)
    (hopts : o.inconsistent → o.txn = none ∧ o.failOnMoreRecent = false) :
    mvccGet key o k =
      match get o k with
      | .error e => .error e
      | .ok ⟨value, none, _⟩ => .ok (value, none)
      | .ok ⟨value, some t, _⟩ =>
        if o.inconsistent then .ok (value, some t) else .error (.writeIntent t) := by
  have hempty : key.isEmpty = false := by simpa using hkey
  have hwall : ¬ o.ts.wallTime < 0 := not_lt.mpr hts.wallTime_nonneg
  unfold mvccGet
  rw [hempty, if_neg Bool.false_ne_true, if_neg hwall]
  cases hinc : o.inconsistent with
  | false => simp
  | true =>
    obtain ⟨htxn, hfail⟩ := hopts hinc
    simp [htxn, hfail]

lemma mvccGet_committed {key : Key} (hkey : key ≠ []) (h : History versions rangeTombstones)
    (hts : Stamp o.ts) (hfail : o.failOnMoreRecent = false) (hinc : o.inconsistent = false) :
    (∃ v ∈ versions ++ rangeTombstones, Uncertain o v ∧
      mvccGet key o ⟨none, versions, rangeTombstones⟩ = .error (uncertaintyError v)) ∨
      mvccGet key o ⟨none, versions, rangeTombstones⟩ =
        .ok (committedRead o versions rangeTombstones, none) := by
  rw [mvccGet_eq hkey hts (by simp [hinc])]
  rcases @processRangeKeys_spec o ⟨none, versions, rangeTombstones⟩ hfail with
    ⟨r, hr, huncertain, hrange⟩ | hrange
  · left
    refine ⟨r, mem_append_right _ hr, huncertain, ?_⟩
    rw [get_of_processRangeKeys_error hrange]
  rcases getOne_committed h hts hfail rfl with ⟨v, hv, huncertain, hone⟩ | hone
  · left
    refine ⟨v, mem_append_left _ hv, huncertain, ?_⟩
    rw [get_of_getOne_error hrange hone]
  right
  rw [get_of_getOne hrange hone]
  rfl

end MeshDB.Storage
