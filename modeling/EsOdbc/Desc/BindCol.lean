import EsOdbc.Desc.Bindings

/-!
# What binding a column writes

`EsSQLBindCol` is five writes to one record behind a change of the count.  `setFields_bind`
says what the five make of the record, and `esSQLBindCol_cases` what the whole call makes of
the descriptor, refused or not.
-/

namespace EsOdbc

variable {σ : Type}

/-! ## One write -/

/-- A write to a record that is there, past the checks of the arguments. -/
theorem esSQLSetDescFieldW_record (dbc : DbcTypes) {d : Desc} {n : ℕ} {r : Rec} {field : FieldId}
    {value : SqlPointer} {len : Int} (hn : 0 < n) (hr : d.recs[n - 1]? = some r)
    (hacc : checkAccess d.type field = true) (hbuff : checkBuff field len = .s00000)
    (hhdr : d.setHeader value field = none) :
    esSQLSetDescFieldW dbc d n field value len = d.setRecord dbc n r field value := by
  have hlen : n ≤ d.recs.length := by
    have := (List.getElem?_eq_some_iff.mp hr).1
    omega
  have hgrow : d.growTo n = .ok (d, r) := by
    rw [Desc.growTo, if_neg (Nat.not_lt.mpr hlen)]
    simp only [SqlReturn.succeeded, if_true, hr]
  rw [esSQLSetDescFieldW, hacc, Bool.not_true, if_neg Bool.false_ne_true]
  simp only [hbuff, hhdr, Int.toNat_natCast, hgrow]
  rw [if_neg (by omega), if_neg (by omega)]

/-- A write to a record field other than the data pointer. -/
theorem Desc.setRecord_field (dbc : DbcTypes) {d : Desc} {n : ℕ} {r r' : Rec} {field : FieldId}
    {value : SqlPointer} {state : SqlState} (hf : field ≠ .dataPtr)
    (h : { r with dataPtr := 0 }.setField d.type value field = (state, r')) :
    d.setRecord dbc n r field value = .done ({ d with recs := d.recs.set (n - 1) r' }.ret state) := by
  rw [setRecord, if_neg hf]
  simp only [h]

theorem signExtend_toSmallint (x : BitVec 16) : SqlPointer.toSmallint (x.signExtend 64) = x.toInt := by
  have h : (x.signExtend 64).setWidth 16 = x := by
    ext i hi
    simp only [BitVec.getElem_setWidth, BitVec.getLsbD_signExtend]
    rw [if_pos hi, BitVec.getLsbD_eq_getElem hi, decide_eq_true (by omega), Bool.true_and]
  rw [SqlPointer.toSmallint, h]

/-! ## The five writes -/

namespace BindArgs

/-- The record with the types that the call sets first. -/
def typed (a : BindArgs) (r : Rec) : Rec :=
  { r with dataPtr := 0 }.setConcise .ard a.targetType.toInt

/-- The record with all that the call sets. -/
def bound (a : BindArgs) (r : Rec) : Rec :=
  { a.typed r with
    octetLength := a.bufferLength.toInt
    indicatorPtr := a.strLenOrInd
    octetLengthPtr := a.strLenOrInd
    dataPtr := a.targetValue }

/-- The type is one of C. -/
def Typable (a : BindArgs) : Prop := sqlctypeToMeta a.targetType.toInt ≠ .unknown

instance (a : BindArgs) : Decidable a.Typable := by
  unfold Typable
  infer_instance

end BindArgs

/-- The defaults of a type leave the other fields as they are. -/
theorem setDefaultsFromMetaType_frame (r : Rec) :
    setDefaultsFromMetaType r = { r with
      length := (setDefaultsFromMetaType r).length
      precision := (setDefaultsFromMetaType r).precision
      datetimeIntervalPrecision := (setDefaultsFromMetaType r).datetimeIntervalPrecision
      scale := (setDefaultsFromMetaType r).scale } := by
  unfold setDefaultsFromMetaType
  split
  · rfl
  · split_ifs <;> rfl
  · rfl
  · rfl
  · split_ifs <;> rfl
  · split_ifs <;> rfl
  · rfl

/-- What setting the type of a record leaves. -/
theorem Rec.setConcise_frame (r : Rec) (type : DescType) (concise : Int) :
    r.setConcise type concise = { r with
      conciseType := concise
      type := (conciseToTypeCode concise).1
      datetimeIntervalCode := (conciseToTypeCode concise).2
      metaType := conciseToMeta concise type
      length := (r.setConcise type concise).length
      precision := (r.setConcise type concise).precision
      datetimeIntervalPrecision := (r.setConcise type concise).datetimeIntervalPrecision
      scale := (r.setConcise type concise).scale } := by
  unfold setConcise
  dsimp only
  split_ifs
  · rfl
  · exact setDefaultsFromMetaType_frame _

theorem BindArgs.dataPtr_typed (a : BindArgs) (r : Rec) : (a.typed r).dataPtr = 0 := by
  rw [typed, Rec.setConcise_frame]

/-- A descriptor with one record replaced. -/
def Desc.setRec (d : Desc) (n : ℕ) (r : Rec) : Desc := { d with recs := d.recs.set (n - 1) r }

@[simp] theorem Desc.type_setRec (d : Desc) (n : ℕ) (r : Rec) : (d.setRec n r).type = d.type := rfl

theorem Desc.getElem?_setRec {d : Desc} {n : ℕ} {r₀ : Rec} (hr : d.recs[n - 1]? = some r₀) (r : Rec) :
    (d.setRec n r).recs[n - 1]? = some r := by
  rw [setRec, List.getElem?_set_self (List.getElem?_eq_some_iff.mp hr).1]

theorem Desc.setRec_setRec (d : Desc) (n : ℕ) (r r' : Rec) :
    (d.setRec n r).setRec n r' = d.setRec n r' := by
  rw [setRec, setRec, setRec, List.set_set]

/-- A write that is granted goes on with the rest. -/
theorem setFields_cons (dbc : DbcTypes) {d : Desc} {n : ℕ} {r : Rec} {field : FieldId}
    {value : SqlPointer} {len : Int} (fields : List (FieldId × SqlPointer × Int)) (r' : Rec) (hn : 0 < n)
    (hr : d.recs[n - 1]? = some r) (hf : field ≠ .dataPtr)
    (hacc : checkAccess d.type field = true) (hbuff : checkBuff field len = .s00000)
    (hhdr : d.setHeader value field = none)
    (h : { r with dataPtr := 0 }.setField d.type value field = (.s00000, r')) :
    setFields dbc n d ((field, value, len) :: fields) = setFields dbc n (d.setRec n r') fields := by
  rw [setFields, esSQLSetDescFieldW_record dbc hn hr hacc hbuff hhdr, Desc.setRecord_field dbc hf h]
  rfl

/-- The last write decides. -/
theorem setFields_last (dbc : DbcTypes) (n : Int) (d : Desc) (field : FieldId) (value : SqlPointer)
    (len : Int) :
    setFields dbc n d [(field, value, len)] = esSQLSetDescFieldW dbc d n field value len := by
  rw [setFields]
  cases esSQLSetDescFieldW dbc d n field value len with
  | done call =>
    obtain ⟨ret, d'⟩ := call
    cases ret <;> rfl
  | undefined => rfl
  | exhausted => rfl

/-- The writes of `EsSQLBindCol` on a record that is there. -/
theorem setFields_bind (dbc : DbcTypes) {d : Desc} {n : ℕ} {r : Rec} (a : BindArgs) (hn : 0 < n)
    (htype : d.type = .ard) (hr : d.recs[n - 1]? = some r) :
    setFields dbc n d a.fields =
      if a.Typable then (d.setRec n (a.bound r)).afterDataPtr dbc n (a.bound r)
      else .done ((d.setRec n (a.typed r)).retHdiag .sHY003 none) := by
  have hfirst : ({ r with dataPtr := 0 } : Rec).setField d.type (a.targetType.signExtend 64) .conciseType =
      (if a.Typable then .s00000 else .sHY003, a.typed r) := by
    rw [htype, Rec.setField, signExtend_toSmallint]
    rfl
  by_cases ht : a.Typable
  · rw [if_pos ht] at hfirst ⊢
    let r₁ := a.typed r
    let r₂ : Rec := { r₁ with octetLength := a.bufferLength.toInt }
    let r₃ : Rec := { r₂ with indicatorPtr := a.strLenOrInd }
    let r₄ : Rec := { r₃ with octetLengthPtr := a.strLenOrInd }
    -- the data pointer that each write resets is null since the first
    have hnull {r' : Rec} (h : r'.dataPtr = 0) : ({ r' with dataPtr := 0 } : Rec) = r' := by
      rw [← h]
    have h₁ : r₁.dataPtr = 0 := a.dataPtr_typed r
    have htyp (r' : Rec) : (d.setRec n r').type = .ard := htype
    rw [BindArgs.fields, setFields_cons dbc _ _ hn hr (by decide) (by rw [htype]; rfl) rfl rfl hfirst,
      setFields_cons dbc _ r₂ hn (Desc.getElem?_setRec hr _) (by decide)
        (by rw [htyp]; rfl) rfl rfl (by rw [hnull h₁]; rfl), Desc.setRec_setRec,
      setFields_cons dbc _ r₃ hn (Desc.getElem?_setRec hr _) (by decide)
        (by rw [htyp]; rfl) rfl rfl (by rw [hnull (by exact h₁)]; rfl), Desc.setRec_setRec,
      setFields_cons dbc _ r₄ hn (Desc.getElem?_setRec hr _) (by decide)
        (by rw [htyp]; rfl) rfl rfl (by rw [hnull (by exact h₁)]; rfl), Desc.setRec_setRec]
    have hlast : (d.setRec n r₄).setRecord dbc n r₄ .dataPtr a.targetValue =
        (d.setRec n (a.bound r)).afterDataPtr dbc n (a.bound r) := by
      rw [Desc.setRecord, if_pos rfl]
      exact congrArg (Desc.afterDataPtr dbc · n (a.bound r)) (Desc.setRec_setRec d n r₄ (a.bound r))
    rw [setFields_last, esSQLSetDescFieldW_record dbc hn (Desc.getElem?_setRec hr _)
      (by rw [htyp]; rfl) rfl rfl, hlast]
  · rw [if_neg ht] at hfirst ⊢
    rw [BindArgs.fields, setFields, esSQLSetDescFieldW_record dbc hn hr (by rw [htype]; rfl) rfl rfl,
      Desc.setRecord_field dbc (by decide) hfirst]
    rfl

/-! ## The count -/

/-- A descriptor with records up to a number. -/
def Desc.grown (d : Desc) (n : ℕ) : Desc :=
  { d with recs := d.recs ++ List.replicate (n - d.recs.length) (.init d.type) }

/-- The record of a number, a new one past the end. -/
def Desc.recOf (d : Desc) (n : ℕ) : Rec := d.recs[n - 1]?.getD (.init d.type)

theorem Desc.length_grown {d : Desc} {n : ℕ} : (d.grown n).recs.length = max d.recs.length n := by
  rw [grown, List.length_append, List.length_replicate]
  omega

theorem Desc.grown_of_le {d : Desc} {n : ℕ} (h : n ≤ d.recs.length) : d.grown n = d := by
  rw [grown, Nat.sub_eq_zero_of_le h, List.replicate_zero, List.append_nil]

theorem Desc.getElem?_grown {d : Desc} {n : ℕ} (hn : 0 < n) :
    (d.grown n).recs[n - 1]? = some (d.recOf n) := by
  rw [grown, recOf, List.getElem?_append]
  split_ifs with h
  · rw [List.getElem?_eq_getElem h]
    rfl
  · rw [List.getElem?_eq_none (Nat.le_of_not_lt h), List.getElem?_replicate, if_pos (by omega)]
    rfl

/-- The count is written without a check of the buffer's length. -/
theorem esSQLSetDescFieldW_count (dbc : DbcTypes) {d : Desc}
    (hacc : checkAccess d.type .count = true) (n : Int) (value : SqlPointer) (len : Int) :
    esSQLSetDescFieldW dbc d n .count value len = .done (d.updateRecCount value.toSmallint) := by
  rw [esSQLSetDescFieldW, hacc]
  rfl

theorem toSmallint_ofNat {n : ℕ} (h : n ≤ 32767) : SqlPointer.toSmallint (.ofNat 64 n) = n := by
  rw [SqlPointer.toSmallint, BitVec.setWidth_ofNat_of_le (by decide), BitVec.toInt_ofNat',
    Int.bmod_def]
  omega

theorem toSmallint_ofNat_neg {n : ℕ} (h : 32767 < n) (hn : n < 65536) :
    SqlPointer.toSmallint (.ofNat 64 n) < 0 := by
  rw [SqlPointer.toSmallint, BitVec.setWidth_ofNat_of_le (by decide), BitVec.toInt_ofNat',
    Int.bmod_def]
  omega

theorem raiseCount_eq (dbc : DbcTypes) {d : Desc} (hacc : checkAccess d.type .count = true)
    {columnNumber : UInt16}
    (hmax : columnNumber.toNat ≤ 32767) :
    d.raiseCount dbc columnNumber = .done (.success, d.grown columnNumber.toNat) := by
  rw [Desc.raiseCount]
  split_ifs with h
  · rw [esSQLSetDescFieldW_count dbc hacc, toSmallint_ofNat hmax, Desc.updateRecCount,
      if_neg (by omega), if_neg (by omega), if_neg (by rw [esodbcMaxDescCount]; omega)]
    simp only [Int.toNat_natCast, List.take_of_length_le (Nat.le_of_lt h), Desc.grown]
  · rw [Desc.grown_of_le (Nat.le_of_not_lt h)]

theorem Desc.countBound_le (d : Desc) : d.countBound ≤ d.recs.length := by
  rw [countBound, ← (List.length_reverse : d.recs.reverse.length = d.recs.length)]
  exact (List.dropWhile_sublist _).length_le

/-- A descriptor without the records past the last bound one. -/
def Desc.trimmed (d : Desc) : Desc := { d with recs := d.recs.take d.countBound }

theorem updateRecCount_countBound {d : Desc} (hmax : d.recs.length ≤ 32767) :
    (if d.countBound = d.recs.length then (.success, d) else d.updateRecCount d.countBound) =
      ((.success, d.trimmed) : DescCall) := by
  have hle := d.countBound_le
  rw [Desc.trimmed]
  split_ifs with h
  · rw [h, List.take_length]
  · rw [Desc.updateRecCount, if_neg (by omega), if_neg (by omega),
      if_neg (by rw [esodbcMaxDescCount]; omega)]
    simp only [Int.toNat_natCast, Nat.sub_eq_zero_of_le hle, List.replicate_zero, List.append_nil]

/-! ## The whole call -/

/-- The check of a record looks at nothing else of its descriptor than the type and the handle
it was allocated on. -/
theorem consistencyCheck_congr {dbc : DbcTypes} {d d' : Desc} (hparent : d'.parent = d.parent)
    (htype : d'.type = d.type) (r : Rec) : consistencyCheck dbc d' r = consistencyCheck dbc d r := by
  simp only [consistencyCheck, checkNumeric, numericColumnSize, hparent, htype]

/-- On a descriptor of a statement the check finds the connection. -/
theorem exists_consistencyCheck (dbc : DbcTypes) {d : Desc} (hparent : d.parent = .stmt) (r : Rec) :
    ∃ ok, consistencyCheck dbc d r = .done ok := by
  have hnum : ∃ ok, checkNumeric dbc d r = .done ok := by
    rw [checkNumeric, numericColumnSize, hparent]
    cases r.esType with
    | some t => exact ⟨_, rfl⟩
    | none =>
      dsimp only
      rw [if_neg (by decide)]
      split
      · exact ⟨_, rfl⟩
      · split
        · exact ⟨_, rfl⟩
        · generalize dbc.esTypes.find? _ = found
          cases found <;> exact ⟨_, rfl⟩
  unfold consistencyCheck
  split
  · exact ⟨_, rfl⟩
  · split
    · exact ⟨_, rfl⟩
    · split
      · split
        · split
          · exact ⟨_, rfl⟩
          · exact hnum
        · exact ⟨_, rfl⟩
      · exact hnum
      all_goals exact ⟨_, rfl⟩

namespace BindArgs

/-- The number of the column. -/
def col (a : BindArgs) : ℕ := a.columnNumber.toNat

/-- The call takes both the data and the length of the column back. -/
def Unbinds (a : BindArgs) : Prop := a.targetValue = 0 ∧ a.strLenOrInd = 0

instance (a : BindArgs) : Decidable a.Unbinds := by
  unfold Unbinds
  infer_instance

/-- None of the checks of the call refuses it. -/
structure Accepted (a : BindArgs) (dbc : DbcTypes) (d : Desc) : Prop where
  length : 0 ≤ a.bufferLength.toInt
  column : 0 < a.col
  room : a.col ≤ 32767
  typable : a.Typable
  consistent : a.targetValue ≠ 0 →
    consistencyCheck dbc d (a.bound (d.recOf a.col)) = .done true

end BindArgs

/-- The descriptor with the record of a column written. -/
def Desc.written (d : Desc) (a : BindArgs) : Desc :=
  (d.grown a.col).setRec a.col (a.bound (d.recOf a.col))

theorem consistencyCheck_written (dbc : DbcTypes) (d : Desc) (a : BindArgs) (r : Rec) :
    consistencyCheck dbc (d.written a) r = consistencyCheck dbc d r :=
  consistencyCheck_congr rfl rfl r

/-- The descriptor after a column has been bound: with the last one unbound, it ends at the last
that is bound still. -/
def Desc.bindTo (d : Desc) (a : BindArgs) : Desc :=
  if a.Unbinds ∧ a.col = (d.written a).recs.length then (d.written a).trimmed else d.written a

theorem Desc.length_written (d : Desc) (a : BindArgs) :
    (d.written a).recs.length = max d.recs.length a.col := by
  rw [written, setRec, List.length_set, length_grown]

theorem Rec.isBound_iff (r : Rec) :
    r.isBound = true ↔ r.dataPtr ≠ 0 ∨ r.indicatorPtr ≠ 0 ∨ r.octetLengthPtr ≠ 0 := by
  simp [isBound, or_assoc]

theorem BindArgs.isBound_bound (a : BindArgs) (r : Rec) : (a.bound r).isBound = !decide a.Unbinds := by
  rw [Bool.eq_iff_iff, Rec.isBound_iff, Bool.not_eq_true', decide_eq_false_iff_not, Unbinds]
  change a.targetValue ≠ 0 ∨ a.strLenOrInd ≠ 0 ∨ a.strLenOrInd ≠ 0 ↔ _
  tauto

/-- The writes that are not refused come to `bindTo`. -/
theorem afterDataPtr_written {dbc : DbcTypes} {d : Desc} {a : BindArgs} (htype : d.type = .ard)
    (h : a.Accepted dbc d) :
    (d.written a).afterDataPtr dbc a.col (a.bound (d.recOf a.col)) = .done (.success, d.bindTo a) := by
  have htyp : (d.written a).type = .ard := htype
  rw [Desc.afterDataPtr, Desc.bindTo]
  by_cases hv : a.targetValue = 0
  · have hb : (!(a.bound (d.recOf a.col)).isBound) = decide a.Unbinds := by
      rw [a.isBound_bound, Bool.not_not]
    rw [if_neg (by rw [not_not]; exact hv), hb, htyp]
    by_cases hc : a.Unbinds ∧ a.col = (d.written a).recs.length
    · rw [if_pos ⟨rfl, decide_eq_true hc.1, hc.2⟩, if_pos hc,
        updateRecCount_countBound (hc.2 ▸ h.room)]
    · rw [if_neg fun hx ↦ hc ⟨of_decide_eq_true hx.2.1, hx.2.2⟩, if_neg hc]
  · have hcheck : consistencyCheck dbc (d.written a) (a.bound (d.recOf a.col)) = .done true :=
      (consistencyCheck_written dbc d a _).trans (h.consistent hv)
    rw [if_pos (by exact hv), if_neg (by rw [htyp]; decide), if_neg fun hc ↦ hv hc.1.1, hcheck]
    rfl

theorem BindArgs.col_pos (a : BindArgs) (h : a.columnNumber ≠ 0) : 0 < a.col := by
  rw [col]
  by_contra hz
  exact h (UInt16.toNat_inj.mp (by simpa using Nat.eq_zero_of_not_pos hz))

theorem BindArgs.columnNumber_ne_zero (a : BindArgs) (h : 0 < a.col) : a.columnNumber ≠ 0 := by
  intro hz
  rw [col, hz] at h
  exact absurd h (by decide)

theorem BindArgs.toRecNumber_eq {a : BindArgs} (h : a.col ≤ 32767) :
    UInt16.toRecNumber a.columnNumber = (a.col : Int) := by
  rw [col] at h ⊢
  rw [UInt16.toRecNumber, toSqlsmallint]
  split_ifs <;> omega

/-- `EsSQLBindCol` when nothing refuses it. -/
theorem esSQLBindCol_accepted {dbc : DbcTypes} (s : Stmt σ) {d : Desc} {a : BindArgs}
    (htype : d.type = .ard) (h : a.Accepted dbc d) :
    esSQLBindCol dbc s d a =
      .done (.success, { s with sql2cConversion := .unchecked }, d.bindTo a) := by
  rw [esSQLBindCol, if_neg (Int.not_lt.mpr h.length),
    if_neg (a.columnNumber_ne_zero h.column), raiseCount_eq dbc (by rw [htype]; rfl) h.room, Exec.bind_done]
  have htyp : (d.grown a.col).type = .ard := htype
  dsimp only
  rw [BindArgs.toRecNumber_eq h.room, if_neg (by decide)]
  change (setFields dbc a.col (d.grown a.col) a.fields).bind _ = _
  rw [setFields_bind dbc a h.column htyp (Desc.getElem?_grown h.column), if_pos h.typable]
  change ((d.written a).afterDataPtr dbc a.col (a.bound (d.recOf a.col))).bind _ = _
  rw [afterDataPtr_written htype h]
  rfl

/-! ## A refused call -/

namespace BindArgs

/-- The arguments get the call as far as to its writes. -/
def Addressed (a : BindArgs) : Prop := 0 ≤ a.bufferLength.toInt ∧ 0 < a.col ∧ a.col ≤ 32767

instance (a : BindArgs) : Decidable a.Addressed := by
  unfold Addressed
  infer_instance

/-- What a call that is refused on the way has written to the record. -/
def refusedRec (a : BindArgs) (d : Desc) : Rec :=
  if a.Typable then a.bound (d.recOf a.col) else a.typed (d.recOf a.col)

end BindArgs

/-- The descriptor that the call leaves the writes with when one is refused. -/
def Desc.refused (d : Desc) (a : BindArgs) : Desc := (d.grown a.col).setRec a.col (a.refusedRec d)

/-- Writes that are refused. -/
theorem setFields_refused {dbc : DbcTypes} {d d' : Desc} {a : BindArgs} {r : SqlReturn}
    (htype : d.type = .ard) (ha : a.Addressed) (h : ¬a.Accepted dbc d)
    (hset : setFields dbc a.col (d.grown a.col) a.fields = .done (r, d')) :
    r = .error ∧ ∃ state text, SqlState.retcode state = .error ∧
      d' = { d.refused a with diag := d.diag.post state text } := by
  have htyp : (d.grown a.col).type = .ard := htype
  rw [setFields_bind dbc a ha.2.1 htyp (Desc.getElem?_grown ha.2.1)] at hset
  unfold Desc.refused BindArgs.refusedRec
  split_ifs at hset ⊢ with ht
  · have hv : a.targetValue ≠ 0 := fun hv ↦ h ⟨ha.1, ha.2.1, ha.2.2, ht, fun hv' ↦ absurd hv hv'⟩
    change (d.written a).afterDataPtr dbc a.col (a.bound (d.recOf a.col)) = _ at hset
    have htyp' : (d.written a).type ≠ .ird := by
      change d.type ≠ _
      rw [htype]
      decide
    rw [Desc.afterDataPtr, if_pos (by exact hv), if_neg htyp'] at hset
    obtain ⟨ok, hok, hset⟩ := Exec.bind_eq_done.mp hset
    rw [consistencyCheck_written] at hok
    cases ok with
    | true => exact absurd ⟨ha.1, ha.2.1, ha.2.2, ht, fun _ ↦ hok⟩ h
    | false =>
      cases hset
      exact ⟨rfl, .sHY021, none, rfl, rfl⟩
  · cases hset
    exact ⟨rfl, .sHY003, none, rfl, rfl⟩

/-- Setting the count back after a refused call. -/
theorem updateRecCount_refused {d : Desc} {a : BindArgs} (hmax : a.col ≤ 32767)
    (hlt : d.recs.length < a.col) (diag : Diag) :
    (({ d.refused a with diag } : Desc).updateRecCount d.recs.length).2.recs = d.recs := by
  have hlen : (d.refused a).recs.length = a.col := by
    rw [Desc.refused, Desc.setRec, List.length_set, Desc.length_grown]
    omega
  have htake : (d.refused a).recs.take d.recs.length = d.recs := by
    rw [Desc.refused, Desc.setRec, List.take_set_of_le (by omega), Desc.grown, List.take_left]
  rw [Desc.updateRecCount, if_neg (by omega), if_neg (by rw [hlen]; omega),
    if_neg (by rw [esodbcMaxDescCount]; omega)]
  simp only [Int.toNat_natCast, hlen, Nat.sub_eq_zero_of_le (Nat.le_of_lt hlt), List.replicate_zero,
    List.append_nil, htake]

theorem esSQLSetDescFieldW_negative (dbc : DbcTypes) {d : Desc} {n : Int} (hn : n < 0)
    (hacc : checkAccess d.type .conciseType = true) (value : SqlPointer) (len : Int) :
    esSQLSetDescFieldW dbc d n .conciseType value len =
      .done (d.retHdiag .s07009 "Negative record number provided with record field") := by
  rw [esSQLSetDescFieldW, hacc]
  exact if_pos hn

/-- The number of a column past the last one a record can have. -/
theorem UInt16.toRecNumber_neg {n : UInt16} (h : 32767 < n.toNat) : UInt16.toRecNumber n < 0 := by
  have hlt := n.toNat_lt
  rw [toRecNumber, toSqlsmallint]
  split_ifs <;> omega

/-- The writes on a descriptor of a statement always come to something. -/
theorem exists_setFields (dbc : DbcTypes) {d : Desc} (htype : d.type = .ard)
    (hparent : d.parent = .stmt) {a : BindArgs} (hcol : 0 < a.col) :
    ∃ call, setFields dbc a.col (d.grown a.col) a.fields = .done call := by
  have htyp : (d.grown a.col).type = .ard := htype
  rw [setFields_bind dbc a hcol htyp (Desc.getElem?_grown hcol)]
  split
  · unfold Desc.afterDataPtr
    split
    · split
      · exact ⟨_, rfl⟩
      · obtain ⟨ok, hok⟩ := exists_consistencyCheck dbc hparent (a.bound (d.recOf a.col))
        have hwritten := (consistencyCheck_written dbc d a _).trans hok
        exact ⟨_, congrArg (Exec.bind · _) hwritten⟩
    · split <;> exact ⟨_, rfl⟩
  · exact ⟨_, rfl⟩

/-- A call that does not get to its writes changes the diagnostics. -/
theorem esSQLBindCol_unaddressed (dbc : DbcTypes) (s : Stmt σ) {d : Desc} {a : BindArgs}
    (htype : d.type = .ard) (h : ¬a.Addressed) :
    ∃ diag diag', esSQLBindCol dbc s d a =
      .done (.error, { s with diag }, { d with diag := diag' }) := by
  by_cases hlen : 0 ≤ a.bufferLength.toInt
  swap
  · rw [esSQLBindCol, if_pos (Int.not_le.mp hlen)]
    exact ⟨_, _, rfl⟩
  by_cases hcol : a.columnNumber = 0
  · rw [esSQLBindCol, if_neg (Int.not_lt.mpr hlen), if_pos hcol]
    exact ⟨_, _, rfl⟩
  have hpos := a.col_pos hcol
  have hmax : 32767 < a.col := Nat.lt_of_not_le fun hmax ↦ h ⟨hlen, hpos, hmax⟩
  have hlt : a.columnNumber.toNat < 65536 := a.columnNumber.toNat_lt
  have hraise := toSmallint_ofNat_neg hmax hlt
  rw [esSQLBindCol, if_neg (Int.not_lt.mpr hlen), if_neg hcol]
  by_cases hroll : d.recs.length < a.col
  · rw [Desc.raiseCount, if_pos (by exact hroll), esSQLSetDescFieldW_count dbc (by rw [htype]; rfl), Exec.bind_done,
      Desc.updateRecCount, if_pos (by exact hraise)]
    exact ⟨_, _, rfl⟩
  · have hneg : UInt16.toRecNumber a.columnNumber < 0 := UInt16.toRecNumber_neg hmax
    rw [Desc.raiseCount, if_neg (by exact hroll), Exec.bind_done]
    dsimp only
    rw [if_neg (by decide), BindArgs.fields, setFields, 
      esSQLSetDescFieldW_negative dbc hneg (by rw [htype]; rfl)]
    change ∃ diag diag', (if d.recs.length < a.col ∧ 0 < d.recs.length then _ else _) = _
    rw [if_neg fun hc ↦ hroll hc.1]
    exact ⟨_, _, rfl⟩

/-- A call of `EsSQLBindCol` that is refused: the statement has the diagnostic, and the records are
as they were unless the count had not to be raised, or had been zero. -/
theorem esSQLBindCol_refused {dbc : DbcTypes} {s t : Stmt σ} {d d' : Desc} {a : BindArgs}
    {r : SqlReturn} (htype : d.type = .ard) (h : ¬a.Accepted dbc d)
    (hcall : esSQLBindCol dbc s d a = .done (r, t, d')) :
    r = .error ∧ t = { s with diag := t.diag } ∧
      d'.recs = if a.Addressed ∧ ¬(d.recs.length < a.col ∧ 0 < d.recs.length) then
        (d.refused a).recs else d.recs := by
  by_cases ha : a.Addressed
  swap
  · obtain ⟨diag, diag', heq⟩ := esSQLBindCol_unaddressed dbc s htype ha
    rw [heq] at hcall
    cases hcall
    rw [if_neg fun hc ↦ ha hc.1]
    exact ⟨rfl, rfl, rfl⟩
  have hcount : checkAccess d.type .count = true := by rw [htype]; rfl
  rw [esSQLBindCol, if_neg (Int.not_lt.mpr ha.1), if_neg (a.columnNumber_ne_zero ha.2.1),
    raiseCount_eq dbc hcount ha.2.2, Exec.bind_done] at hcall
  dsimp only at hcall
  rw [if_neg (by decide), BindArgs.toRecNumber_eq ha.2.2] at hcall
  obtain ⟨⟨r₁, d₁⟩, hset, hcall⟩ := Exec.bind_eq_done.mp hcall
  obtain ⟨rfl, state, text, hstate, rfl⟩ := setFields_refused htype ha h hset
  dsimp only at hcall
  rw [if_neg (by decide)] at hcall
  change (if d.recs.length < a.col ∧ 0 < d.recs.length then _ else _) = _ at hcall
  split_ifs at hcall with hroll
  · rw [if_neg fun hc ↦ hc.2 hroll]
    have hmax := ha.2.2
    rw [esSQLSetDescFieldW_count dbc (by exact hcount), toSmallint_ofNat (by omega),
      Exec.bind_done] at hcall
    cases hcall
    exact ⟨hstate, rfl, updateRecCount_refused ha.2.2 hroll.1 _⟩
  · rw [if_pos ⟨ha, hroll⟩]
    cases hcall
    exact ⟨hstate, rfl, rfl⟩

/-- On a descriptor of a statement the call always comes to something. -/
theorem exists_esSQLBindCol (dbc : DbcTypes) (s : Stmt σ) {d : Desc} (a : BindArgs)
    (htype : d.type = .ard) (hparent : d.parent = .stmt) :
    ∃ call, esSQLBindCol dbc s d a = .done call := by
  by_cases h : a.Accepted dbc d
  · exact ⟨_, esSQLBindCol_accepted s htype h⟩
  by_cases ha : a.Addressed
  swap
  · obtain ⟨diag, diag', heq⟩ := esSQLBindCol_unaddressed dbc s htype ha
    exact ⟨_, heq⟩
  have hcount : checkAccess d.type .count = true := by rw [htype]; rfl
  obtain ⟨⟨r, d₁⟩, hset⟩ := exists_setFields dbc htype hparent ha.2.1
  obtain ⟨rfl, state, text, hstate, rfl⟩ := setFields_refused htype ha h hset
  rw [esSQLBindCol, if_neg (Int.not_lt.mpr ha.1), if_neg (a.columnNumber_ne_zero ha.2.1),
    raiseCount_eq dbc hcount ha.2.2, Exec.bind_done]
  dsimp only
  rw [if_neg (by decide), BindArgs.toRecNumber_eq ha.2.2]
  change ∃ call, (setFields dbc a.col (d.grown a.col) a.fields).bind _ = _
  rw [hset, Exec.bind_done]
  dsimp only
  rw [if_neg (by decide)]
  split
  · rw [esSQLSetDescFieldW_count dbc (by exact hcount)]
    exact ⟨_, rfl⟩
  · exact ⟨_, rfl⟩

end EsOdbc
