import EsOdbc.Desc.BindCol

/-!
# Binding a parameter

`EsSQLBindParameter` (`queries.c`) with `match_es_type`, `set_param_decdigits` and
`set_param_size` (`convert.c`).  The call writes one record of the APD and then one of the IPD;
`bindApd_eq` and `bindIpd_eq` say what the writes make of the two.
-/

namespace EsOdbc

variable {σ : Type}

/-! ## The arguments -/

/-- The arguments of `EsSQLBindParameter`, and the value behind its last one. -/
structure ParamArgs where
  parameterNumber : UInt16
  inputOutputType : BitVec 16
  valueType : BitVec 16
  parameterType : BitVec 16
  columnSize : BitVec 64
  decimalDigits : BitVec 16
  parameterValuePtr : SqlPointer
  bufferLength : BitVec 64
  strLenOrIndPtr : SqlPointer
  indicator : Int
deriving DecidableEq, Repr

/-- `SQL_DATA_AT_EXEC`; `SQL_NTSL` is `SQL_NTS`. -/
def sqlDataAtExec : Int := -2

/-- `SQL_IS_UINTEGER`. -/
def sqlIsUinteger : Int := -5

/-- What the checks of the arguments refuse a call with. -/
def ParamArgs.checked (p : ParamArgs) : Option (SqlState × Option String) :=
  if p.inputOutputType.toInt ≠ sqlParamInput then
    some (.sHYC00, some "parameter IO-type not supported")
  else if p.parameterNumber < 1 then some (.s07009, none)
  else if p.strLenOrIndPtr ≠ 0 then
    if p.indicator = sqlDataAtExec ∨ p.indicator < sqlNts then
      some (.sHYC00, some "data-at-exec not supported")
    else none
  else if p.parameterValuePtr = 0 then some (.sHY009, none)
  else none

/-! ## The writes -/

/-- A sequence of `EsSQLSetDescFieldW` calls on one record, up to the first that fails. -/
def putFields (dbc : DbcTypes) (recNumber : Int) :
    Desc → List (FieldId × SqlPointer × Int) → Exec DescCall
  | d, [] => .done (.success, d)
  | d, (field, value, len) :: fields =>
    (esSQLSetDescFieldW dbc d recNumber field value len).bind fun call ↦
      if call.1.succeeded then putFields dbc recNumber call.2 fields else .done call

/-- The fields of the record of the APD; the data pointer comes last. -/
def ParamArgs.apdFields (p : ParamArgs) : List (FieldId × SqlPointer × Int) :=
  [(.conciseType, p.valueType.signExtend 64, sqlIsSmallint),
    (.octetLength, p.bufferLength, sqlIsInteger),
    (.octetLengthPtr, p.strLenOrIndPtr, sqlLenBinaryAttr),
    (.indicatorPtr, p.strLenOrIndPtr, sqlLenBinaryAttr),
    (.dataPtr, p.parameterValuePtr, sqlIsPointer)]

/-- The types of the record of the IPD. -/
def ParamArgs.ipdFields (p : ParamArgs) : List (FieldId × SqlPointer × Int) :=
  [(.conciseType, p.parameterType.signExtend 64, sqlIsSmallint),
    (.parameterType, p.inputOutputType.signExtend 64, sqlIsSmallint)]

/-- The part of the call that sets the APD. -/
def bindApd (dbc : DbcTypes) (apd : Desc) (p : ParamArgs) : Exec DescCall :=
  (apd.raiseCount dbc p.parameterNumber).bind fun call ↦
    if !call.1.succeeded then .done call
    else putFields dbc (UInt16.toRecNumber p.parameterNumber) call.2 p.apdFields

/-- `set_param_decdigits`, on the record of a parameter. -/
def setParamDecdigits (dbc : DbcTypes) (ipd : Desc) (irec : Rec) (paramNo : Int)
    (decdigits : BitVec 16) : Exec DescCall :=
  let fraction : Exec DescCall :=
    if decdigits.toInt < 0 then .done (ipd.retHdiag .sHY104 none)
    else esSQLSetDescFieldW dbc ipd paramNo .precision (decdigits.signExtend 64) sqlIsSmallint
  match irec.metaType with
  | .dateTime => if irec.conciseType = 91 then .done (.success, ipd) else fraction
  | .intervalWsec => fraction
  | .exactNumeric =>
    if irec.conciseType = 3 ∨ irec.conciseType = 2 then
      esSQLSetDescFieldW dbc ipd paramNo .scale (decdigits.signExtend 64) sqlIsSmallint
    else .done (.success, ipd)
  | _ => .done (.success, ipd)

/-- `set_param_size`. -/
def setParamSize (dbc : DbcTypes) (ipd : Desc) (irec : Rec) (paramNo : Int) (size : BitVec 64) :
    Exec DescCall :=
  match irec.metaType with
  | .string | .bin | .dateTime | .intervalWsec | .intervalWosec =>
    esSQLSetDescFieldW dbc ipd paramNo .length size sqlIsUinteger
  | _ => .done (.success, ipd)

/-- The part of the call that sets the IPD; the record is looked up once its types are set. -/
def bindIpd (dbc : DbcTypes) (ipd : Desc) (p : ParamArgs) : Exec DescCall :=
  let paramNo := UInt16.toRecNumber p.parameterNumber
  (ipd.raiseCount dbc p.parameterNumber).bind fun call ↦
    if !call.1.succeeded then .done call
    else (putFields dbc paramNo call.2 p.ipdFields).bind fun call ↦
      if !call.1.succeeded then .done call
      else match call.2.recs[p.parameterNumber.toNat - 1]? with
        | none => .undefined
        | some irec =>
          (setParamDecdigits dbc call.2 irec paramNo p.decimalDigits).bind fun call ↦
            if !call.1.succeeded then .done call
            else setParamSize dbc call.2 irec paramNo p.columnSize

/-! ## The type of the parameter -/

/-- The types of a connection with those it keeps apart. -/
structure DbcTypeTable extends DbcTypes where
  maxVarcharType : EsType
deriving DecidableEq, Repr

/-- `ES_VARCHAR_SQL`, `ES_WVARCHAR_SQL` and `SQL_DOUBLE`. -/
def esVarcharSql : Int := 12
def esWvarcharSql : Int := -9
def sqlDouble : Int := 8

/-- The loop of `lookup_es_type`. -/
def lookupEsTypeFrom (t : DbcTypeTable) (esType : Int) (colSize : BitVec 64) :
    List EsType → Option EsType
  | [] => none
  | e :: es =>
    if e.dataType = esType then
      if colSize = 0 then some e
      else if (colSize.setWidth 32).toInt ≤ e.columnSize then some e
      else if esType = sqlDouble ∧ e.columnSize = t.maxFloatType.columnSize then some t.maxFloatType
      else lookupEsTypeFrom t esType colSize es
    else lookupEsTypeFrom t esType colSize es

/-- `lookup_es_type`. -/
def lookupEsType (t : DbcTypeTable) (esType : Int) (colSize : BitVec 64) : Option EsType :=
  if esType = esVarcharSql ∨ esType = esWvarcharSql then some t.maxVarcharType
  else lookupEsTypeFrom t esType colSize t.esTypes

/-- `match_es_type`. -/
def matchEsType (t : DbcTypeTable) (irec : Rec) : Option EsType :=
  match t.esTypes.find? fun e ↦ e.dataType == irec.conciseType with
  | some e =>
    if irec.conciseType = sqlDouble then some t.maxFloatType
    else if irec.conciseType = esWvarcharSql ∨ irec.conciseType = esVarcharSql then
      some t.maxVarcharType
    else some e
  | none =>
    match irec.metaType with
    | .exactNumeric => lookupEsType t sqlDouble (.ofInt 64 irec.precision)
    | .string => lookupEsType t esWvarcharSql (.ofInt 64 irec.precision)
    | .bin => lookupEsType t (-2) 0
    | .dateTime => lookupEsType t 93 0
    | .bit => lookupEsType t (-7) 0
    | .uid => lookupEsType t esWvarcharSql 0
    | _ => none

/-- `convertability_check` for one parameter: the state that it fails with. -/
def checkParameter (apd ipd : Desc) (idx : ℕ) : Exec (Option SqlState) :=
  match apd.recs[idx - 1]?, ipd.recs[idx - 1]? with
  | some arec, some irec =>
    match typesCompatible irec.conciseType arec.conciseType with
    | none => .undefined
    | some false => .done (some .s07006)
    | some true =>
      .done (if convImplemented irec.conciseType arec.conciseType then none else some .sHYC00)
  | _, _ => .undefined

/-! ## The call -/

/-- A count that was raised is "reset" to the negative of what it was. -/
def Desc.resetCount (dbc : DbcTypes) (d : Desc) (prevCount : ℕ) : Exec Desc :=
  if prevCount ≠ d.recs.length then
    (esSQLSetDescFieldW dbc d noRecNr .count (.ofInt 64 (-prevCount)) sqlIsSmallint).bind
      fun call ↦ .done call.2
  else .done d

/-- What the calls on a statement that bind something change. -/
structure Bindings (σ : Type) where
  stmt : Stmt σ
  /-- The current ARD. -/
  ard : Desc
  apd : Desc
  ipd : Desc

namespace Bindings

/-- The end of a call that failed; `b` is what it has left so far. -/
def paramErr (dbc : DbcTypes) (prev b : Bindings σ) : Exec (SqlReturn × Bindings σ) :=
  (b.apd.resetCount dbc prev.apd.recs.length).bind fun apd ↦
    (b.ipd.resetCount dbc prev.ipd.recs.length).bind fun ipd ↦
      .done (b.stmt.diag.state.retcode, { b with apd, ipd })

/-- `HDIAG_COPY`. -/
def hdiagCopy (b : Bindings σ) (d : Desc) : Bindings σ :=
  { b with stmt := { b.stmt with diag := d.diag } }

/-- `EsSQLBindParameter`. -/
def esSQLBindParameter (t : DbcTypeTable) (b : Bindings σ) (p : ParamArgs) :
    Exec (SqlReturn × Bindings σ) :=
  let n := p.parameterNumber.toNat
  match p.checked with
  | some (state, text) =>
    let r := b.stmt.retHdiag state text
    .done (r.1, { b with stmt := r.2 })
  | none => (bindApd t.toDbcTypes b.apd p).bind fun (ret, apd) ↦
    let prev := b
    let b := { b with apd }
    if !ret.succeeded then paramErr t.toDbcTypes prev (b.hdiagCopy apd)
    else (bindIpd t.toDbcTypes b.ipd p).bind fun (ret, ipd) ↦
      let b := { b with ipd }
      if !ret.succeeded then paramErr t.toDbcTypes prev (b.hdiagCopy ipd)
      else (checkParameter apd ipd n).bind fun
        | some state =>
          paramErr t.toDbcTypes prev { b with stmt := (b.stmt.retHdiag state none).2 }
        | none =>
          match ipd.recs[n - 1]? with
          | none => .undefined
          | some irec =>
            let ipd := ipd.setRec n { irec with esType := matchEsType t irec }
            if (matchEsType t irec).isSome then .done (.success, { b with ipd })
            else
              let ipd := (ipd.retHdiag .sHY000 "parameter binding bug").2
              paramErr t.toDbcTypes prev ({ b with ipd }.hdiagCopy ipd)

/-- `EsSQLBindCol`. -/
def bindCol (t : DbcTypeTable) (b : Bindings σ) (a : BindArgs) : Exec (SqlReturn × Bindings σ) :=
  (esSQLBindCol t.toDbcTypes b.stmt b.ard a).bind fun (ret, stmt, ard) ↦
    .done (ret, { b with stmt, ard })

end Bindings

/-! ## What the writes make of the records -/

/-- A write that is granted goes on with the rest. -/
theorem putFields_cons (dbc : DbcTypes) {d : Desc} {n : ℕ} {r : Rec} {field : FieldId}
    {value : SqlPointer} {len : Int} (fields : List (FieldId × SqlPointer × Int)) (r' : Rec)
    (hn : 0 < n) (hr : d.recs[n - 1]? = some r) (hf : field ≠ .dataPtr)
    (hacc : checkAccess d.type field = true) (hbuff : checkBuff field len = .s00000)
    (hhdr : d.setHeader value field = none)
    (h : { r with dataPtr := 0 }.setField d.type value field = (.s00000, r')) :
    putFields dbc n d ((field, value, len) :: fields) = putFields dbc n (d.setRec n r') fields := by
  rw [putFields, esSQLSetDescFieldW_record dbc hn hr hacc hbuff hhdr, Desc.setRecord_field dbc hf h]
  rfl

/-- The last write decides. -/
theorem putFields_last (dbc : DbcTypes) (n : Int) (d : Desc) (field : FieldId) (value : SqlPointer)
    (len : Int) :
    putFields dbc n d [(field, value, len)] =
      (esSQLSetDescFieldW dbc d n field value len).bind fun call ↦
        .done (if call.1.succeeded then (.success, call.2) else call) := by
  rw [putFields]
  congr 1
  funext call
  split_ifs <;> rfl

/-- The write of a field of a record that is not bound. -/
theorem esSQLSetDescFieldW_setRec (dbc : DbcTypes) {d : Desc} {n : ℕ} {r r' : Rec} {field : FieldId}
    {value : SqlPointer} {len : Int} (hn : 0 < n) (hr : d.recs[n - 1]? = some r) (hnull : r.dataPtr = 0)
    (hf : field ≠ .dataPtr) (hacc : checkAccess d.type field = true)
    (hbuff : checkBuff field len = .s00000) (hhdr : d.setHeader value field = none)
    (h : r.setField d.type value field = (.s00000, r')) :
    esSQLSetDescFieldW dbc d n field value len = .done (.success, d.setRec n r') := by
  have hr₀ : ({ r with dataPtr := 0 } : Rec) = r := by rw [← hnull]
  rw [esSQLSetDescFieldW_record dbc hn hr hacc hbuff hhdr, Desc.setRecord_field dbc hf (by rw [hr₀, h])]
  rfl

theorem Desc.setRec_self {d : Desc} {n : ℕ} {r : Rec} (hr : d.recs[n - 1]? = some r) :
    d.setRec n r = d := by
  obtain ⟨hlt, rfl⟩ := List.getElem?_eq_some_iff.mp hr
  rw [setRec, List.set_getElem_self]

namespace ParamArgs

/-- The arguments that a column would be bound with. -/
def bindArgs (p : ParamArgs) : BindArgs where
  columnNumber := p.parameterNumber
  targetType := p.valueType
  targetValue := p.parameterValuePtr
  bufferLength := p.bufferLength
  strLenOrInd := p.strLenOrIndPtr

/-- The number of the parameter. -/
def num (p : ParamArgs) : ℕ := p.parameterNumber.toNat

/-- The arguments get the call as far as to its writes. -/
structure Addressed (p : ParamArgs) : Prop where
  checked : p.checked = none
  room : p.num ≤ 32767

instance (p : ParamArgs) : Decidable p.Addressed :=
  decidable_of_iff (p.checked = none ∧ p.num ≤ 32767) ⟨fun h ↦ ⟨h.1, h.2⟩, fun h ↦ ⟨h.1, h.2⟩⟩

theorem Addressed.num_pos {p : ParamArgs} (h : p.Addressed) : 0 < p.num := by
  have hc := h.checked
  rw [ParamArgs.checked] at hc
  split_ifs at hc with _ hn
  all_goals
    refine p.bindArgs.col_pos fun hz ↦ hn ?_
    change p.parameterNumber = 0 at hz
    rw [hz]
    decide

theorem Addressed.toRecNumber_eq {p : ParamArgs} (h : p.Addressed) :
    UInt16.toRecNumber p.parameterNumber = (p.num : Int) := BindArgs.toRecNumber_eq (a := p.bindArgs) h.room

/-- The value and the indicator are not both missing. -/
theorem Addressed.not_unbinds {p : ParamArgs} (h : p.Addressed) : ¬p.bindArgs.Unbinds := by
  have hc := h.checked
  rw [ParamArgs.checked] at hc
  rintro ⟨hv, hi⟩
  change p.parameterValuePtr = 0 at hv
  change p.strLenOrIndPtr = 0 at hi
  rw [if_neg (not_not.mpr hi), if_pos hv] at hc
  split_ifs at hc

end ParamArgs

/-- The writes of the APD on a record that is there. -/
theorem putFields_apd (dbc : DbcTypes) {d : Desc} {n : ℕ} {r : Rec} (p : ParamArgs) (hn : 0 < n)
    (htype : d.type = .apd) (hr : d.recs[n - 1]? = some r) :
    putFields dbc n d p.apdFields =
      if p.bindArgs.Typable then
        ((d.setRec n (p.bindArgs.bound r)).afterDataPtr dbc n (p.bindArgs.bound r)).bind fun call ↦
          .done (if call.1.succeeded then (.success, call.2) else call)
      else .done ((d.setRec n (p.bindArgs.typed r)).retHdiag .sHY003 none) := by
  let a := p.bindArgs
  have hfirst : ({ r with dataPtr := 0 } : Rec).setField d.type (p.valueType.signExtend 64) .conciseType =
      (if a.Typable then .s00000 else .sHY003, a.typed r) := by
    rw [htype, Rec.setField, signExtend_toSmallint]
    rfl
  by_cases ht : a.Typable
  · rw [if_pos ht] at hfirst ⊢
    let r₁ := a.typed r
    let r₂ : Rec := { r₁ with octetLength := p.bufferLength.toInt }
    let r₃ : Rec := { r₂ with octetLengthPtr := p.strLenOrIndPtr }
    let r₄ : Rec := { r₃ with indicatorPtr := p.strLenOrIndPtr }
    have hnull {r' : Rec} (h : r'.dataPtr = 0) : ({ r' with dataPtr := 0 } : Rec) = r' := by
      rw [← h]
    have h₁ : r₁.dataPtr = 0 := a.dataPtr_typed r
    have htyp (r' : Rec) : (d.setRec n r').type = .apd := htype
    rw [ParamArgs.apdFields, putFields_cons dbc _ _ hn hr (by decide) (by rw [htype]; rfl) rfl rfl hfirst,
      putFields_cons dbc _ r₂ hn (Desc.getElem?_setRec hr _) (by decide)
        (by rw [htyp]; rfl) rfl rfl (by rw [hnull h₁]; rfl), Desc.setRec_setRec,
      putFields_cons dbc _ r₃ hn (Desc.getElem?_setRec hr _) (by decide)
        (by rw [htyp]; rfl) rfl rfl (by rw [hnull (by exact h₁)]; rfl), Desc.setRec_setRec,
      putFields_cons dbc _ r₄ hn (Desc.getElem?_setRec hr _) (by decide)
        (by rw [htyp]; rfl) rfl rfl (by rw [hnull (by exact h₁)]; rfl), Desc.setRec_setRec]
    have hlast : (d.setRec n r₄).setRecord dbc n r₄ .dataPtr p.parameterValuePtr =
        (d.setRec n (a.bound r)).afterDataPtr dbc n (a.bound r) := by
      rw [Desc.setRecord, if_pos rfl]
      exact congrArg (Desc.afterDataPtr dbc · n (a.bound r)) (Desc.setRec_setRec d n r₄ (a.bound r))
    rw [putFields_last, esSQLSetDescFieldW_record dbc hn (Desc.getElem?_setRec hr _)
      (by rw [htyp]; rfl) rfl rfl, hlast]
  · rw [if_neg ht] at hfirst ⊢
    rw [ParamArgs.apdFields, putFields, esSQLSetDescFieldW_record dbc hn hr (by rw [htype]; rfl) rfl rfl,
      Desc.setRecord_field dbc (by decide) hfirst]
    rfl

/-- The checks of the APD's record pass. -/
structure ParamArgs.ApdAccepted (p : ParamArgs) (dbc : DbcTypes) (apd : Desc) : Prop where
  typable : p.bindArgs.Typable
  consistent : p.parameterValuePtr ≠ 0 →
    consistencyCheck dbc apd (p.bindArgs.bound (apd.recOf p.num)) = .done true

theorem bindApd_addressed (dbc : DbcTypes) {apd : Desc} {p : ParamArgs} (htype : apd.type = .apd)
    (h : p.Addressed) :
    bindApd dbc apd p = putFields dbc p.num (apd.grown p.num) p.apdFields := by
  rw [bindApd, raiseCount_eq dbc (by rw [htype]; rfl) h.room, Exec.bind_done]
  dsimp only
  rw [if_neg (by decide), h.toRecNumber_eq]
  rfl

/-- The APD after writes that are not refused. -/
theorem bindApd_accepted {dbc : DbcTypes} {apd : Desc} {p : ParamArgs} (htype : apd.type = .apd)
    (h : p.Addressed) (hacc : p.ApdAccepted dbc apd) :
    bindApd dbc apd p = .done (.success, apd.written p.bindArgs) := by
  have htyp : (apd.grown p.num).type = .apd := htype
  have hbound : (p.bindArgs.bound (apd.recOf p.num)).isBound = true := by
    rw [BindArgs.isBound_bound, decide_eq_false h.not_unbinds]
    rfl
  rw [bindApd_addressed dbc htype h, putFields_apd dbc p h.num_pos htyp
    (Desc.getElem?_grown h.num_pos), if_pos hacc.typable]
  change ((apd.written p.bindArgs).afterDataPtr dbc p.num _).bind _ = _
  rw [Desc.afterDataPtr]
  by_cases hv : p.parameterValuePtr = 0
  · rw [if_neg (by exact not_not.mpr hv), if_neg fun hc ↦ ?_]
    · rfl
    · rw [hbound] at hc
      exact absurd hc.2.1 (by decide)
  · have hcheck : consistencyCheck dbc (apd.written p.bindArgs)
        (p.bindArgs.bound (apd.recOf p.num)) = .done true :=
      (consistencyCheck_written dbc apd p.bindArgs _).trans (hacc.consistent hv)
    have hird : (apd.written p.bindArgs).type ≠ .ird := by
      change apd.type ≠ _
      rw [htype]
      decide
    rw [if_pos (by exact hv), if_neg hird, hcheck]
    rfl

/-- The APD after writes one of which is refused. -/
theorem bindApd_refused {dbc : DbcTypes} {apd d : Desc} {p : ParamArgs} {r : SqlReturn}
    (htype : apd.type = .apd) (h : p.Addressed) (hacc : ¬p.ApdAccepted dbc apd)
    (hcall : bindApd dbc apd p = .done (r, d)) :
    r = .error ∧ d.diag.state.retcode = .error ∧ d = { apd.refused p.bindArgs with diag := d.diag } := by
  have htyp : (apd.grown p.num).type = .apd := htype
  rw [bindApd_addressed dbc htype h, putFields_apd dbc p h.num_pos htyp
    (Desc.getElem?_grown h.num_pos)] at hcall
  unfold Desc.refused BindArgs.refusedRec
  split_ifs at hcall ⊢ with ht
  · have hv : p.parameterValuePtr ≠ 0 := fun hv ↦ hacc ⟨ht, fun hv' ↦ absurd hv hv'⟩
    change ((apd.written p.bindArgs).afterDataPtr dbc p.num _).bind _ = _ at hcall
    have hird : (apd.written p.bindArgs).type ≠ .ird := by
      change apd.type ≠ _
      rw [htype]
      decide
    rw [Desc.afterDataPtr, if_pos (by exact hv), if_neg hird] at hcall
    obtain ⟨call, hafter, hcall⟩ := Exec.bind_eq_done.mp hcall
    obtain ⟨ok, hok, hafter⟩ := Exec.bind_eq_done.mp hafter
    rw [consistencyCheck_written] at hok
    cases ok with
    | true => exact absurd ⟨ht, fun _ ↦ hok⟩ hacc
    | false =>
      cases hafter
      cases hcall
      exact ⟨rfl, rfl, rfl⟩
  · cases hcall
    exact ⟨rfl, rfl, rfl⟩

/-! ## The record of the IPD -/

namespace ParamArgs

/-- The type is one of SQL. -/
def SqlTypable (p : ParamArgs) : Prop := sqltypeToMeta p.parameterType.toInt ≠ .unknown

/-- The digits are not negative where they are those of a second's fraction. -/
def DigitsFit (p : ParamArgs) : Prop :=
  sqltypeToMeta p.parameterType.toInt = .intervalWsec ∨
    (sqltypeToMeta p.parameterType.toInt = .dateTime ∧ p.parameterType.toInt ≠ 91) →
  0 ≤ p.decimalDigits.toInt

instance (p : ParamArgs) : Decidable p.SqlTypable := by
  unfold SqlTypable
  infer_instance

instance (p : ParamArgs) : Decidable p.DigitsFit := by
  unfold DigitsFit
  infer_instance

/-- The record with its type. -/
def sqlTyped (p : ParamArgs) (r : Rec) : Rec :=
  { r with dataPtr := 0 }.setConcise .ipd p.parameterType.toInt

/-- The record with both its types. -/
def withTypes (p : ParamArgs) (r : Rec) : Rec :=
  { p.sqlTyped r with parameterType := p.inputOutputType.toInt }

/-- The record with what the type makes of the digits. -/
def withDigits (p : ParamArgs) (r : Rec) : Rec :=
  match r.metaType with
  | .dateTime =>
    if r.conciseType = 91 then r else { r with precision := p.decimalDigits.toInt }
  | .intervalWsec => { r with precision := p.decimalDigits.toInt }
  | .exactNumeric =>
    if r.conciseType = 3 ∨ r.conciseType = 2 then { r with scale := p.decimalDigits.toInt } else r
  | _ => r

/-- The record with what the type makes of the size. -/
def withSize (p : ParamArgs) (r : Rec) : Rec :=
  match r.metaType with
  | .string | .bin | .dateTime | .intervalWsec | .intervalWosec =>
    { r with length := p.columnSize.toNat }
  | _ => r

/-- The record with all that the call sets, the matched type apart. -/
def param (p : ParamArgs) (r : Rec) : Rec := p.withSize (p.withDigits (p.withTypes r))

theorem metaType_withTypes (p : ParamArgs) (r : Rec) :
    (p.withTypes r).metaType = sqltypeToMeta p.parameterType.toInt := by
  rw [withTypes, sqlTyped, Rec.setConcise_frame]
  rfl

theorem conciseType_withTypes (p : ParamArgs) (r : Rec) :
    (p.withTypes r).conciseType = p.parameterType.toInt := by
  rw [withTypes, sqlTyped, Rec.setConcise_frame]

theorem dataPtr_withTypes (p : ParamArgs) (r : Rec) : (p.withTypes r).dataPtr = 0 := by
  rw [withTypes, sqlTyped, Rec.setConcise_frame]

theorem withDigits_frame (p : ParamArgs) (r : Rec) : p.withDigits r =
    { r with precision := (p.withDigits r).precision, scale := (p.withDigits r).scale } := by
  unfold withDigits
  split
  · split_ifs <;> rfl
  · rfl
  · split_ifs <;> rfl
  · rfl

theorem metaType_withDigits (p : ParamArgs) (r : Rec) :
    (p.withDigits r).metaType = r.metaType := by rw [withDigits_frame]

theorem dataPtr_withDigits (p : ParamArgs) (r : Rec) : (p.withDigits r).dataPtr = r.dataPtr := by
  rw [withDigits_frame]

end ParamArgs

/-- `set_param_decdigits` on the record that the types were just written to. -/
theorem setParamDecdigits_eq (dbc : DbcTypes) {d : Desc} {n : ℕ} {r : Rec} (p : ParamArgs)
    (hn : 0 < n) (htype : d.type = .ipd) (hr : d.recs[n - 1]? = some r) (hnull : r.dataPtr = 0)
    (hmeta : r.metaType = sqltypeToMeta p.parameterType.toInt)
    (hconcise : r.conciseType = p.parameterType.toInt) :
    setParamDecdigits dbc d r n p.decimalDigits =
      if p.DigitsFit then .done (.success, d.setRec n (p.withDigits r))
      else .done (d.retHdiag .sHY104 none) := by
  have hput (field : FieldId) {r' : Rec} (hf : field ≠ .dataPtr)
      (hacc : checkAccess .ipd field = true) (hbuff : checkBuff field sqlIsSmallint = .s00000)
      (hhdr : d.setHeader (p.decimalDigits.signExtend 64) field = none)
      (h : r.setField d.type (p.decimalDigits.signExtend 64) field = (.s00000, r')) :
      esSQLSetDescFieldW dbc d n field (p.decimalDigits.signExtend 64) sqlIsSmallint =
        .done (.success, d.setRec n r') :=
    esSQLSetDescFieldW_setRec dbc hn hr hnull hf (by rw [htype]; exact hacc) hbuff hhdr h
  have hprec := hput .precision (by decide) (by decide) rfl rfl
    (by rw [Rec.setField, signExtend_toSmallint])
  have hscale := hput .scale (by decide) (by decide) rfl rfl
    (by rw [Rec.setField, signExtend_toSmallint])
  have hself := Desc.setRec_self hr
  have hfit : p.DigitsFit ↔ (r.metaType = .intervalWsec ∨ (r.metaType = .dateTime ∧ r.conciseType ≠ 91) →
      0 ≤ p.decimalDigits.toInt) := by
    rw [hmeta, hconcise]
    rfl
  rw [setParamDecdigits, hprec, hscale, ParamArgs.withDigits]
  simp only [hfit]
  have hsign (ok : Exec DescCall) : (if p.decimalDigits.toInt < 0 then .done (d.retHdiag .sHY104 none)
      else ok) = if 0 ≤ p.decimalDigits.toInt then ok else .done (d.retHdiag .sHY104 none) := by
    by_cases hd : p.decimalDigits.toInt < 0
    · rw [if_pos hd, if_neg (Int.not_le.mpr hd)]
    · rw [if_neg hd, if_pos (Int.not_lt.mp hd)]
  cases hm : r.metaType with
  | dateTime =>
    by_cases hdate : r.conciseType = 91
    · simp [hdate, hself]
    · simp [hdate, hsign]
  | intervalWsec => simp [hsign]
  | exactNumeric =>
    by_cases hdec : r.conciseType = 3 ∨ r.conciseType = 2
    · simp [hdec]
    · simp [hdec, hself]
  | _ => simp [hself]

/-- `set_param_size` on such a record. -/
theorem setParamSize_eq (dbc : DbcTypes) {d : Desc} {n : ℕ} {r irec : Rec} (p : ParamArgs) (hn : 0 < n)
    (htype : d.type = .ipd) (hr : d.recs[n - 1]? = some r) (hnull : r.dataPtr = 0)
    (hmeta : irec.metaType = r.metaType) :
    setParamSize dbc d irec n p.columnSize = .done (.success, d.setRec n (p.withSize r)) := by
  have hlength : esSQLSetDescFieldW dbc d n .length p.columnSize sqlIsUinteger =
      .done (.success, d.setRec n { r with length := p.columnSize.toNat }) :=
    esSQLSetDescFieldW_setRec dbc hn hr hnull (by decide) (by rw [htype]; rfl) rfl rfl rfl
  rw [setParamSize, hlength, hmeta, ParamArgs.withSize]
  cases r.metaType <;> first | rfl | rw [Desc.setRec_self hr]

theorem putFields_ipd (dbc : DbcTypes) {d : Desc} {n : ℕ} {r : Rec} (p : ParamArgs) (hn : 0 < n)
    (htype : d.type = .ipd) (hr : d.recs[n - 1]? = some r) :
    putFields dbc n d p.ipdFields =
      if p.SqlTypable then .done (.success, d.setRec n (p.withTypes r))
      else .done ((d.setRec n (p.sqlTyped r)).retHdiag .sHY004 none) := by
  have hfirst : ({ r with dataPtr := 0 } : Rec).setField d.type (p.parameterType.signExtend 64)
      .conciseType = (if p.SqlTypable then .s00000 else .sHY004, p.sqlTyped r) := by
    rw [htype, Rec.setField, signExtend_toSmallint]
    rfl
  by_cases ht : p.SqlTypable
  · rw [if_pos ht] at hfirst ⊢
    have hnull : (p.sqlTyped r).dataPtr = 0 := p.dataPtr_withTypes r
    have hsecond : (p.sqlTyped r).setField (d.setRec n (p.sqlTyped r)).type
        (p.inputOutputType.signExtend 64) .parameterType = (.s00000, p.withTypes r) := by
      rw [Rec.setField, signExtend_toSmallint]
      rfl
    rw [ParamArgs.ipdFields, putFields_cons dbc _ _ hn hr (by decide) (by rw [htype]; rfl) rfl rfl hfirst,
      putFields_last, esSQLSetDescFieldW_setRec dbc hn (Desc.getElem?_setRec hr _) hnull (by decide)
        (by rw [Desc.type_setRec, htype]; rfl) rfl rfl hsecond, Desc.setRec_setRec]
    rfl
  · rw [if_neg ht] at hfirst ⊢
    rw [ParamArgs.ipdFields, putFields, esSQLSetDescFieldW_record dbc hn hr (by rw [htype]; rfl) rfl rfl,
      Desc.setRecord_field dbc (by decide) hfirst]
    rfl

/-- The writes of the IPD. -/
theorem bindIpd_eq (dbc : DbcTypes) {ipd : Desc} {p : ParamArgs} (htype : ipd.type = .ipd)
    (h : p.Addressed) :
    bindIpd dbc ipd p =
      if p.SqlTypable then
        if p.DigitsFit then .done (.success, (ipd.grown p.num).setRec p.num (p.param (ipd.recOf p.num)))
        else .done (((ipd.grown p.num).setRec p.num (p.withTypes (ipd.recOf p.num))).retHdiag .sHY104 none)
      else .done (((ipd.grown p.num).setRec p.num (p.sqlTyped (ipd.recOf p.num))).retHdiag .sHY004 none) := by
  have hn := h.num_pos
  have hr := Desc.getElem?_grown (d := ipd) hn
  have htyp : (ipd.grown p.num).type = .ipd := htype
  rw [bindIpd, raiseCount_eq dbc (by rw [htype]; rfl) h.room, Exec.bind_done]
  dsimp only
  rw [if_neg (by decide), h.toRecNumber_eq]
  change (putFields dbc p.num (ipd.grown p.num) p.ipdFields).bind _ = _
  rw [putFields_ipd dbc p hn htyp hr]
  by_cases ht : p.SqlTypable
  · rw [if_pos ht, if_pos ht, Exec.bind_done]
    dsimp only
    rw [if_neg (by decide)]
    have hr₁ := Desc.getElem?_setRec hr (p.withTypes (ipd.recOf p.num))
    change (match ((ipd.grown p.num).setRec p.num (p.withTypes (ipd.recOf p.num))).recs[p.num - 1]? with
      | none => Exec.undefined
      | some irec => _) = _
    rw [hr₁]
    dsimp only
    have htyp₁ (r : Rec) : ((ipd.grown p.num).setRec p.num r).type = .ipd := htype
    rw [setParamDecdigits_eq dbc p hn (htyp₁ _) hr₁ (p.dataPtr_withTypes _) (p.metaType_withTypes _)
      (p.conciseType_withTypes _)]
    by_cases hd : p.DigitsFit
    · rw [if_pos hd, if_pos hd, Exec.bind_done]
      dsimp only
      rw [if_neg (by decide), Desc.setRec_setRec,
        setParamSize_eq dbc p hn (htyp₁ _) (Desc.getElem?_setRec hr _)
          ((p.dataPtr_withDigits _).trans (p.dataPtr_withTypes _)) (p.metaType_withDigits _).symm,
        Desc.setRec_setRec]
      rfl
    · rw [if_neg hd, if_neg hd]
      rfl
  · rw [if_neg ht, if_neg ht]
    rfl

end EsOdbc
