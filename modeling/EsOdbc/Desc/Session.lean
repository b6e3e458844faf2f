import EsOdbc.Desc.SetField
import EsOdbc.Fetch

/-!
# A statement and its descriptors

A statement with the descriptors that the application reaches it through, and the calls of
the application on the two: `EsSQLBindCol`, `EsSQLSetDescFieldW`, `EsSQLSetStmtAttrW`, the
execution functions, `EsSQLFetch`, `EsSQLGetData` and `EsSQLFreeStmt`.
-/

namespace EsOdbc

variable {σ : Type}

/-! ## Binding a column -/

/-- The arguments of `EsSQLBindCol`. -/
structure BindArgs where
  columnNumber : UInt16
  targetType : BitVec 16
  targetValue : SqlPointer
  bufferLength : BitVec 64
  strLenOrInd : SqlPointer
deriving DecidableEq, Repr

/-- `NO_REC_NR`. -/
def noRecNr : Int := -1

/-- `SQL_IS_SMALLINT`, `SQL_IS_INTEGER` and `SQL_LEN_BINARY_ATTR` of a pointer's size. -/
def sqlIsSmallint : Int := -8
def sqlIsInteger : Int := -6
def sqlLenBinaryAttr : Int := -108

/-- The fields that `EsSQLBindCol` sets in the record; the data pointer comes last, for any
other field unbinds it. -/
def BindArgs.fields (a : BindArgs) : List (FieldId × SqlPointer × Int) :=
  [(.conciseType, a.targetType.signExtend 64, sqlIsSmallint),
    (.octetLength, a.bufferLength, sqlIsInteger),
    (.indicatorPtr, a.strLenOrInd, sqlLenBinaryAttr),
    (.octetLengthPtr, a.strLenOrInd, sqlLenBinaryAttr),
    (.dataPtr, a.targetValue, sqlIsPointer)]

/-- A sequence of `EsSQLSetDescFieldW` calls on one record, up to the first that is no
success. -/
def setFields (dbc : DbcTypes) (recNumber : Int) :
    Desc → List (FieldId × SqlPointer × Int) → Exec DescCall
  | d, [] => .done (.success, d)
  | d, (field, value, len) :: fields =>
    (esSQLSetDescFieldW dbc d recNumber field value len).bind fun
      | (.success, d) => setFields dbc recNumber d fields
      | call => .done call

/-- The count that the ARD gets for a column past its end. -/
def Desc.raiseCount (dbc : DbcTypes) (ard : Desc) (columnNumber : UInt16) : Exec DescCall :=
  if ard.recs.length < columnNumber.toNat then
    esSQLSetDescFieldW dbc ard noRecNr .count (.ofNat 64 columnNumber.toNat) sqlIsSmallint
  else .done (.success, ard)

/-- The record number that a column's number is passed as. -/
def UInt16.toRecNumber (columnNumber : UInt16) : Int := toSqlsmallint columnNumber.toNat

/-- `EsSQLBindCol` on a statement and its current ARD.  After a failure the count is set back,
unless it was zero. -/
def esSQLBindCol (dbc : DbcTypes) (s : Stmt σ) (ard : Desc) (a : BindArgs) :
    Exec (SqlReturn × Stmt σ × Desc) :=
  let fail (s : Stmt σ) (state : SqlState) : Exec (SqlReturn × Stmt σ × Desc) :=
    let r := s.retHdiag state none
    .done (r.1, r.2, ard)
  if a.bufferLength.toInt < 0 then fail s .sHY090
  else if a.columnNumber = 0 then fail s .s07009
  else (ard.raiseCount dbc a.columnNumber).bind fun (ret, d) ↦
    if !ret.succeeded then .done (d.diag.state.retcode, { s with diag := d.diag }, d)
    else (setFields dbc (UInt16.toRecNumber a.columnNumber) d a.fields).bind fun (ret, d) ↦
      if ret = .success then .done (.success, { s with sql2cConversion := .unchecked }, d)
      else
        let s := { s with diag := d.diag }
        if ard.recs.length < a.columnNumber.toNat ∧ 0 < ard.recs.length then
          (esSQLSetDescFieldW dbc d noRecNr .count (.ofNat 64 ard.recs.length) sqlIsSmallint).bind
            fun call ↦ .done (s.diag.state.retcode, s, call.2)
        else .done (s.diag.state.retcode, s, d)

/-! ## The session -/

/-- A statement, its descriptors and the arrays of the application that these point to.
Descriptor `0` is the ARD the statement was allocated with; the others are the other
application descriptors there are. -/
structure Session (σ : Type) where
  stmt : Stmt σ
  maxFloatType : EsType
  descs : ℕ → Desc
  /-- `stmt->ard`. -/
  ard : ℕ
  /-- The header of the IRD. -/
  ird : Desc
  apd : Desc
  ipd : Desc
  /-- The row status arrays at the addresses of the application. -/
  statusAt : SqlPointer → List RowStatus
  /-- The counters of fetched rows there. -/
  rowsAt : SqlPointer → ℕ

/-- A record of the ARD as the fetch sees it. -/
def Rec.view (r : Rec) : ARec where
  conciseType := r.conciseType
  dataPtr := r.dataPtr ≠ 0
  indicatorPtr := r.indicatorPtr ≠ 0
  octetLengthPtr := r.octetLengthPtr ≠ 0

def Desc.view (d : Desc) : Ard := ⟨d.arraySize, d.recs.map Rec.view⟩

namespace Session

/-- `init_stmt`. -/
def init (esTypes : List EsType) (maxFloatType : EsType) (app : σ) (replies : List Reply)
    (descs : ℕ → Desc) (statusAt : SqlPointer → List RowStatus) (rowsAt : SqlPointer → ℕ) :
    Session σ where
  stmt := .init esTypes app replies
  maxFloatType
  descs := Function.update descs 0 (.init .stmt .ard false)
  ard := 0
  ird := .init .stmt .ird false
  apd := .init .stmt .apd false
  ipd := .init .stmt .ipd false
  statusAt
  rowsAt

def dbc (s : Session σ) : DbcTypes := ⟨s.stmt.esTypes, s.maxFloatType⟩

/-- The current ARD. -/
def curArd (s : Session σ) : Desc := s.descs s.ard

/-- The statement with the current ARD and what the header of the IRD points to. -/
def view (s : Session σ) : Stmt σ :=
  { s.stmt with
    ard := s.curArd.view
    arrayStatus := if s.ird.arrayStatusPtr = 0 then none else some (s.statusAt s.ird.arrayStatusPtr)
    rowsProcessed :=
      if s.ird.rowsProcessedPtr = 0 then none else some (s.rowsAt s.ird.rowsProcessedPtr) }

/-- The session after a call on the statement. -/
def ofView (s : Session σ) (t : Stmt σ) : Session σ :=
  { s with
    stmt := t
    statusAt := match t.arrayStatus with
      | none => s.statusAt
      | some st => Function.update s.statusAt s.ird.arrayStatusPtr st
    rowsAt := match t.rowsProcessed with
      | none => s.rowsAt
      | some n => Function.update s.rowsAt s.ird.rowsProcessedPtr n }

/-- What a call comes to. -/
abbrev Result (σ : Type) := Exec (SqlReturn × Session σ)

/-- A call on the statement alone. -/
def onStmt (s : Session σ) (f : Stmt σ → Exec (SqlReturn × Stmt σ)) : Result σ :=
  (f s.view).bind fun (r, t) ↦ .done (r, s.ofView t)

/-- `RET_HDIAG` on the statement. -/
def retHdiag (s : Session σ) (state : SqlState) (text : Option String) : SqlReturn × Session σ :=
  let r := s.stmt.retHdiag state text
  (r.1, { s with stmt := r.2 })

/-- `EsSQLBindCol`. -/
def bindCol (s : Session σ) (a : BindArgs) : Result σ :=
  (esSQLBindCol s.dbc s.stmt s.curArd a).bind fun (r, t, d) ↦
    .done (r, { s with stmt := t, descs := Function.update s.descs s.ard d })

/-! ### Descriptors -/

/-- The descriptors that a call can name. -/
inductive Handle where
  | app (n : ℕ)
  | ird | apd | ipd
deriving DecidableEq, Repr

def desc (s : Session σ) : Handle → Desc
  | .app n => s.descs n
  | .ird => s.ird
  | .apd => s.apd
  | .ipd => s.ipd

def setDesc (s : Session σ) (d : Desc) : Handle → Session σ
  | .app n => { s with descs := Function.update s.descs n d }
  | .ird => { s with ird := d }
  | .apd => { s with apd := d }
  | .ipd => { s with ipd := d }

/-- `EsSQLSetDescFieldW`. -/
def setDescField (s : Session σ) (h : Handle) (recNumber : Int) (field : FieldId)
    (value : SqlPointer) (bufferLength : Int) : Result σ :=
  (esSQLSetDescFieldW s.dbc (s.desc h) recNumber field value bufferLength).bind fun (r, d) ↦
    .done (r, s.setDesc d h)

/-- The attributes of a statement that are header fields of its descriptors. -/
inductive HeaderAttr where
  | rowBindOffsetPtr | paramBindOffsetPtr | rowArraySize | paramsetSize | rowBindType
  | paramBindType | rowStatusPtr | paramStatusPtr | rowOperationPtr | paramOperationPtr
  | rowsFetchedPtr | paramsProcessedPtr
deriving DecidableEq, Repr

/-- The descriptor and the field of an attribute. -/
def HeaderAttr.target (ard : ℕ) : HeaderAttr → Handle × FieldId
  | .rowBindOffsetPtr => (.app ard, .bindOffsetPtr)
  | .paramBindOffsetPtr => (.apd, .bindOffsetPtr)
  | .rowArraySize => (.app ard, .arraySize)
  | .paramsetSize => (.apd, .arraySize)
  | .rowBindType => (.app ard, .bindType)
  | .paramBindType => (.apd, .bindType)
  | .rowStatusPtr => (.ird, .arrayStatusPtr)
  | .paramStatusPtr => (.ipd, .arrayStatusPtr)
  | .rowOperationPtr => (.app ard, .arrayStatusPtr)
  | .paramOperationPtr => (.apd, .arrayStatusPtr)
  | .rowsFetchedPtr => (.ird, .rowsProcessedPtr)
  | .paramsProcessedPtr => (.ipd, .rowsProcessedPtr)

/-- `EsSQLSetStmtAttrW`, for an attribute that is a header field. -/
def setHeaderAttr (s : Session σ) (attr : HeaderAttr) (value : SqlPointer) (bufferLength : Int) :
    Result σ :=
  let target := attr.target s.ard
  (s.setDescField target.1 noRecNr target.2 value bufferLength).bind fun (r, s) ↦
    .done (r, if r = .success then s
      else { s with stmt := { s.stmt with diag := (s.desc target.1).diag } })

/-- `EsSQLSetStmtAttrW` with `SQL_ATTR_APP_ROW_DESC`; no number is the null handle. -/
def setAppRowDesc (s : Session σ) (d : Option ℕ) : SqlReturn × Session σ :=
  match d with
  | none => (.success, { s with ard := 0 })
  | some n =>
    if n = s.ard then (.success, s)
    else if n = 0 then (.success, { s with ard := 0 })
    else if !(s.descs n).allocUser then s.retHdiag .sHY017 none
    else match (s.descs n).type with
      | .anon => (.success, { s with
          descs := Function.update s.descs n { s.descs n with type := .ard }, ard := n })
      | .ard => (.success, { s with ard := n })
      | _ => s.retHdiag .sHY024 none

/-! ### Results -/

/-- `EsSQLFreeStmt` with `SQL_CLOSE`: `clear_desc` on the IRD, with what closing a cursor leaves
in the diagnostic. -/
def close (s : Session σ) (closed : Diag) : SqlReturn × Session σ :=
  let t := if s.stmt.hasCursor then { s.stmt with diag := closed } else s.stmt
  let t := if t.hasResultset then t.clearResultset true else t
  (.success, { s with stmt := { t with ird := [] }, ird := .init .stmt .ird false })

/-- `EsSQLExecute`; `body` is the state that `serialize_statement` fails with, if it does. -/
def execute (s : Session σ) (body : Option SqlState) : Result σ :=
  s.onStmt fun t ↦
    if t.earlyExecuted && t.hasResultset then .done (.success, { t with earlyExecuted := false })
    else
      let t := { t with earlyExecuted := false }
      match body with
      | none => t.curlPost
      | some state => .done (t.retHdiag state none)

/-- What a text comes to in `EsSQLPrepareW` and `EsSQLExecDirectW`: refused for its length, not
convertible, or attached; then whether the driver executes it early and what becomes of
its serialisation. -/
inductive Text where
  | length
  | conversion
  | attached (early : Bool) (body : Option SqlState)
deriving DecidableEq, Repr

/-- `attach_sql`. -/
def attachSql (s : Session σ) : Session σ :=
  { s with stmt := { s.stmt with nset := 0, tvRows := 0, earlyExecuted := false } }

/-- `EsSQLExecDirectW`. -/
def execDirect (s : Session σ) (closed : Diag) : Text → Result σ
  | .length => .done (s.retHdiag .sHY090 none)
  | .conversion => .done ((s.close closed).2.retHdiag .sHY000 "UTF16/UTF8 conversion failure")
  | .attached _ body => (s.close closed).2.attachSql.execute body

/-- `EsSQLPrepareW`. -/
def prepare (s : Session σ) (closed : Diag) : Text → Result σ
  | .length => .done (s.retHdiag .sHY090 none)
  | .conversion => .done ((s.close closed).2.retHdiag .sHY000 "UTF16/UTF8 conversion failure")
  | .attached early body =>
    let s := (s.close closed).2.attachSql
    if early then (s.execute body).bind fun (r, s) ↦
      .done (r, if r.succeeded then { s with stmt := { s.stmt with earlyExecuted := true } } else s)
    else .done (.success, s)

/-- `EsSQLFetch`. -/
def fetch (cv : Converters σ) (s : Session σ) : Result σ := s.onStmt (esSQLFetch cv)

/-! ### `SQLGetData` -/

/-- The arguments of `EsSQLGetData`, and whether the position in the value is past its end. -/
structure GetArgs where
  bind : BindArgs
  exhausted : Bool
deriving DecidableEq, Repr

/-- `SQL_ARD_TYPE` and `SQL_APD_TYPE`. -/
def sqlArdType : Int := -99
def sqlApdType : Int := -100

/-- `gd_checks`. -/
def gdChecks (s : Session σ) (columnNumber : UInt16) : SqlReturn × Session σ :=
  if !s.stmt.hasResultset then
    if s.stmt.nodataForced then (.noData, s) else s.retHdiag .sHY010 none
  else if 1 < s.curArd.arraySize then s.retHdiag .sHYC00 none
  else if columnNumber < 1 then s.retHdiag .s07009 none
  else (.success, s)

/-- `ESODBC_GD_DESC_COUNT`: columns with a smaller number have their record on the stack. -/
def esodbcGdDescCount : UInt16 := 128

/-- The ARD of a call of `EsSQLGetData`, with the records that it starts with. -/
def gdArd (columnNumber : UInt16) : Desc :=
  { Desc.init .stmt .ard true with
    type := .ard
    recs := if columnNumber < esodbcGdDescCount then
        List.replicate columnNumber.toNat (.init .ard)
      else [] }

/-- `getdata_set_ard`.  Of the records on the stack only the column's own is initialised, which
would be one in front of the array for column zero; nothing but `count_bound` reads the others. -/
def getdataSetArd (columnNumber : UInt16) : Exec Desc :=
  if columnNumber = 0 then .undefined else .done (gdArd columnNumber)

/-- `gd_bind_col`, on the ARD of the call.  A type that the ARD should give ends as the one that
the APD should.  Records on the stack can be neither resized nor released. -/
def gdBindCol (s : Session σ) (gdArd : Desc) (a : BindArgs) : Exec (SqlReturn × Stmt σ × Desc) :=
  let fail (state : SqlState) : Exec (SqlReturn × Stmt σ × Desc) :=
    let r := s.stmt.retHdiag state none
    .done (r.1, r.2, gdArd)
  if a.targetType.toInt = sqlArdType then
    if a.columnNumber.toNat ≤ s.curArd.recs.length then fail .sHYC00 else fail .s07009
  else if a.targetType.toInt = sqlApdType then fail .sHYC00
  else (esSQLBindCol s.dbc s.stmt gdArd a).bind fun call ↦
    if a.columnNumber < esodbcGdDescCount ∧ call.2.2.recs.length ≠ gdArd.recs.length then .undefined
    else .done call

/-- The binding of `EsSQLGetData`. -/
def gdBind (s : Session σ) (a : BindArgs) : Exec (SqlReturn × Stmt σ × Desc) :=
  (getdataSetArd a.columnNumber).bind fun d ↦ s.gdBindCol d a

/-- `convertability_check` of one column, and the copying. -/
def gdCopy (cv : Converters σ) (t : Stmt σ) (columnNumber : UInt16) : Exec (SqlReturn × Stmt σ) :=
  let i := columnNumber.toNat - 1
  (checkColumns (t.ard.recs.drop i) (t.cols.drop i)).bind fun
    | .violation => .done (t.retHdiag .s07006 none)
    | .unsupported => .done (t.retHdiag .sHYC00 none)
    | _ => .done (t.copyOneRow cv 0)

/-- `EsSQLGetData` past its checks. -/
def getColumn (cv : Converters σ) (s : Session σ) (a : BindArgs) : Result σ :=
  (s.gdBind a).bind fun (r, t, d) ↦
    let s := { s with stmt := t }
    let call := if r.succeeded then gdCopy cv { s.view with ard := d.view } a.columnNumber
      else .done (r, s.view)
    call.bind fun (r, t) ↦
      .done (r, s.ofView (if r.succeeded then t else t.gdReset))

/-- The checks of `EsSQLGetData`: the code it returns with, if they fail. -/
def gdPrepare (s : Session σ) (a : GetArgs) : Option SqlReturn × Session σ :=
  let b := a.bind
  if s.stmt.gdCol = b.columnNumber.toNat ∧ s.stmt.gdCtype = b.targetType.toInt then
    (if a.exhausted then some .noData else none, s)
  else
    let s := if s.stmt.gdCalling then { s with stmt := s.stmt.gdReset } else s
    let checks := s.gdChecks b.columnNumber
    if !checks.1.succeeded then (some checks.1, checks.2)
    else (none, { s with stmt := { s.stmt with
      gdCol := b.columnNumber.toNat, gdCtype := b.targetType.toInt } })

/-- `EsSQLGetData`. -/
def getData (cv : Converters σ) (s : Session σ) (a : GetArgs) : Result σ :=
  match s.gdPrepare a with
  | (some r, s) => .done (r, s)
  | (none, s) => s.getColumn cv a.bind

/-! ### Calls -/

/-- A call of the application. -/
inductive Call where
  | bindCol (a : BindArgs)
  | setDescField (h : Handle) (recNumber : Int) (field : FieldId) (value : SqlPointer)
      (bufferLength : Int)
  | setHeaderAttr (attr : HeaderAttr) (value : SqlPointer) (bufferLength : Int)
  | setAppRowDesc (d : Option ℕ)
  | prepare (closed : Diag) (text : Text)
  | execDirect (closed : Diag) (text : Text)
  | execute (body : Option SqlState)
  | fetch
  | getData (a : GetArgs)
  | close (closed : Diag)
deriving Repr

/-- What a call does. -/
def call (cv : Converters σ) (s : Session σ) : Call → Result σ
  | .bindCol a => s.bindCol a
  | .setDescField h recNumber field value bufferLength =>
    s.setDescField h recNumber field value bufferLength
  | .setHeaderAttr attr value bufferLength => s.setHeaderAttr attr value bufferLength
  | .setAppRowDesc d => .done (s.setAppRowDesc d)
  | .prepare closed text => s.prepare closed text
  | .execDirect closed text => s.execDirect closed text
  | .execute body => s.execute body
  | .fetch => s.fetch cv
  | .getData a => s.getData cv a
  | .close closed => .done (s.close closed)

end Session

end EsOdbc
