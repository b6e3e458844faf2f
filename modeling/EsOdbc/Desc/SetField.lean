import EsOdbc.Desc.Record
import EsOdbc.AttachAnswer

/-!
# Writing descriptor fields

`EsSQLSetDescFieldW` (`handles.c`), with the checks it makes, on a descriptor of any type.
-/

namespace EsOdbc

/-- The field identifiers; `other` is one that `check_access` does not know. -/
inductive FieldId where
  | allocType | arraySize | arrayStatusPtr | bindOffsetPtr | bindType | count | rowsProcessedPtr
  | autoUniqueValue | baseColumnName | baseTableName | caseSensitive | catalogName | conciseType
  | dataPtr | datetimeIntervalCode | datetimeIntervalPrecision | displaySize | fixedPrecScale
  | indicatorPtr | label | length | literalPrefix | literalSuffix | localTypeName | name
  | nullable | numPrecRadix | octetLength | octetLengthPtr | parameterType | precision | rowver
  | scale | schemaName | searchable | tableName | type | typeName | unnamed | unsigned
  | updatable
  | other
deriving DecidableEq, Repr

/-- `check_access` with `O_RDWR`. -/
def checkAccess (type : DescType) (field : FieldId) : Bool :=
  type ≠ .anon && match field with
    | .arrayStatusPtr => true
    | .rowsProcessedPtr => type.isImplementation
    | .parameterType => type = .ipd
    | .arraySize | .bindOffsetPtr | .bindType | .indicatorPtr | .octetLengthPtr => type.isApplication
    | .dataPtr => type ≠ .ird
    | .name | .unnamed => type = .ipd
    | .count | .conciseType | .datetimeIntervalCode | .datetimeIntervalPrecision | .length
    | .numPrecRadix | .octetLength | .precision | .scale | .type => type ≠ .ird
    | _ => false

/-- `ESODBC_MAX_IDENTIFIER_LEN`. -/
def esodbcMaxIdentifierLen : Int := 0x7FFF

/-- `SQL_IS_POINTER`. -/
def sqlIsPointer : Int := -4

/-- `SQL_NTS`. -/
def sqlNts : Int := -3

/-- `check_buff` for a write, of the fields that a write is granted for; `SQL_NTS` is odd. -/
def checkBuff (field : FieldId) (bufferLength : Int) : SqlState :=
  match field with
  | .name =>
    if bufferLength < 0 ∧ bufferLength ≠ sqlNts then .sHY090
    else if bufferLength % 2 ≠ 0 then .sHY090
    else if esodbcMaxIdentifierLen < bufferLength then .s22001
    else .s00000
  | .indicatorPtr | .octetLengthPtr | .bindOffsetPtr | .rowsProcessedPtr | .arrayStatusPtr =>
    if 0 < bufferLength then .sHY090 else .s00000
  | .dataPtr => if bufferLength ≠ sqlIsPointer ∧ bufferLength < 0 then .sHY090 else .s00000
  | _ => .s00000

namespace SqlPointer

/-- The conversions of a pointer argument to the types of the fields. -/
def toSmallint (v : SqlPointer) : Int := (v.setWidth 16).toInt
def toInteger (v : SqlPointer) : Int := (v.setWidth 32).toInt
def toLen (v : SqlPointer) : Int := v.toInt
def toUlen (v : SqlPointer) : Nat := v.toNat

end SqlPointer

/-- What a call on a descriptor comes to. -/
abbrev DescCall := SqlReturn × Desc

/-- `RET_HDIAGS` on a descriptor. -/
def Desc.retHdiag (d : Desc) (state : SqlState) (text : Option String) : DescCall :=
  (state.retcode, { d with diag := d.diag.post state text })

/-- `update_rec_count`. -/
def Desc.updateRecCount (d : Desc) (newCount : Int) : DescCall :=
  if newCount < 0 then d.retHdiag .s07009 none
  else if d.recs.length = newCount then (.success, d)
  else if esodbcMaxDescCount < newCount then d.retHdiag .s07009 none
  else
    let n := newCount.toNat
    (.success, { d with recs := d.recs.take n ++ List.replicate (n - d.recs.length) (.init d.type) })

/-- `count_bound`. -/
def Desc.countBound (d : Desc) : Nat := (d.recs.reverse.dropWhile fun r ↦ !r.isBound).length

/-- `ESODBC_MAX_ROW_ARRAY_SIZE`. -/
def esodbcMaxRowArraySize : Nat := 0xFFFF

/-- The `SQL_DESC_ARRAY_SIZE` case. -/
def Desc.setArraySize (d : Desc) (ulen : Nat) : DescCall :=
  if d.type.isRecord then
    if esodbcMaxRowArraySize < ulen then
      { d with arraySize := esodbcMaxRowArraySize }.retHdiag .s01S02 none
    else if ulen < 1 then d.retHdiag .sHY092 none
    else (.success, { d with arraySize := ulen })
  else if 1 < ulen then d.retHdiag .sHYC00 "Parameter arrays not implemented"
  else (.success, { d with arraySize := ulen })

/-- The header fields; `none` for a record field. -/
def Desc.setHeader (d : Desc) (value : SqlPointer) : FieldId → Option DescCall
  | .arraySize => some (d.setArraySize value.toUlen)
  | .arrayStatusPtr => some (.success, { d with arrayStatusPtr := value })
  | .bindOffsetPtr => some (.success, { d with bindOffsetPtr := value })
  | .bindType => some (.success, { d with bindType := value.toInteger })
  | .count => some (d.updateRecCount value.toSmallint)
  | .rowsProcessedPtr => some (.success, { d with rowsProcessedPtr := value })
  | _ => none

/-- `get_record` with growing: the descriptor with the record, and the record. -/
def Desc.growTo (d : Desc) (recNo : Nat) : Except DescCall (Desc × Rec) :=
  let call := if d.recs.length < recNo then d.updateRecCount recNo else (.success, d)
  if call.1.succeeded then
    match call.2.recs[recNo - 1]? with
    | some r => .ok (call.2, r)
    | none => .error call
  else .error (call.2.diag.state.retcode, call.2)

/-- The `SQL_DESC_CONCISE_TYPE` case, on the record. -/
def Rec.setConcise (r : Rec) (type : DescType) (concise : Int) : Rec :=
  let code := conciseToTypeCode concise
  let r := { r with conciseType := concise, type := code.1, datetimeIntervalCode := code.2,
                    metaType := conciseToMeta concise type }
  if r.metaType = .unknown then r else setDefaultsFromMetaType r

/-- The result of the `SQL_DESC_CONCISE_TYPE` case. -/
def conciseState (type : DescType) (concise : Int) : SqlState :=
  if conciseToMeta concise type ≠ .unknown then .s00000
  else if type.isApplication then .sHY003 else .sHY004

/-- The `SQL_DESC_TYPE` case: a verbose type has to fit the other type fields; any other
value is a concise type. -/
def Rec.setType (r : Rec) (type : DescType) (value : Int) : SqlState × Rec :=
  if value = sqlDatetime ∨ value = sqlInterval then
    let code := conciseToTypeCode r.conciseType
    if code.1 ≠ value ∨ code.2 ≠ r.datetimeIntervalCode ∨ r.datetimeIntervalCode = 0 then
      (.sHY021, r)
    else (.s00000, { r with type := value })
  else (conciseState type value, r.setConcise type value)

/-- `SQL_NAMED`. -/
def sqlNamed : Int := 0

/-- The record fields other than the data pointer, with the state that is posted. -/
def Rec.setField (r : Rec) (type : DescType) (value : SqlPointer) : FieldId → SqlState × Rec
  | .type => r.setType type value.toSmallint
  | .conciseType => (conciseState type value.toSmallint, r.setConcise type value.toSmallint)
  | .name => (.sHYC00, r)
  | .indicatorPtr => (.s00000, { r with indicatorPtr := value })
  | .octetLengthPtr => (.s00000, { r with octetLengthPtr := value })
  | .octetLength => (.s00000, { r with octetLength := value.toLen })
  | .length => (.s00000, { r with length := value.toUlen })
  | .datetimeIntervalCode => (.s00000, { r with datetimeIntervalCode := value.toSmallint })
  | .parameterType => (.s00000, { r with parameterType := value.toSmallint })
  | .precision => (.s00000, { r with precision := value.toSmallint })
  | .scale => (.s00000, { r with scale := value.toSmallint })
  | .unnamed =>
    if value.toSmallint = sqlNamed then (.sHY091, r)
    else (.s00000, { r with unnamed := value.toSmallint })
  | .datetimeIntervalPrecision =>
    (.s00000, { r with datetimeIntervalPrecision := value.toInteger })
  | .numPrecRadix => (.s00000, { r with numPrecRadix := value.toInteger })
  | _ => (.sHY091, r)

/-- A state that is posted, or a plain success. -/
def Desc.ret (d : Desc) : SqlState → DescCall
  | .s00000 => (.success, d)
  | state => d.retHdiag state none

/-- The `SQL_DESC_DATA_PTR` case, with the pointer stored: a set one has the record checked,
and stays set whatever comes of it; with the last bound record unbound, the count is
adjusted. -/
def Desc.afterDataPtr (dbc : DbcTypes) (d : Desc) (recNo : Nat) (r : Rec) : Exec DescCall :=
  if r.dataPtr ≠ 0 then
    if d.type = .ird then .done (.success, d)
    else (consistencyCheck dbc d r).bind fun ok ↦
      .done (if ok then (.success, d) else d.retHdiag .sHY021 none)
  else if d.type.isApplication ∧ !r.isBound ∧ recNo = d.recs.length then
    .done (if d.countBound = d.recs.length then (.success, d) else d.updateRecCount d.countBound)
  else .done (.success, d)

/-- The cases of the record fields, on a record that is there. -/
def Desc.setRecord (dbc : DbcTypes) (d : Desc) (recNo : Nat) (r : Rec) (field : FieldId)
    (value : SqlPointer) : Exec DescCall :=
  if field = .dataPtr then
    let r := { r with dataPtr := value }
    { d with recs := d.recs.set (recNo - 1) r }.afterDataPtr dbc recNo r
  else
    let out := { r with dataPtr := 0 }.setField d.type value field
    .done ({ d with recs := d.recs.set (recNo - 1) out.2 }.ret out.1)

/-- `EsSQLSetDescFieldW`. -/
def esSQLSetDescFieldW (dbc : DbcTypes) (d : Desc) (recNumber : Int) (field : FieldId)
    (value : SqlPointer) (bufferLength : Int) : Exec DescCall :=
  if !checkAccess d.type field then .done (d.retHdiag .sHY091 none)
  else match checkBuff field bufferLength with
    | .s00000 => match d.setHeader value field with
      | some call => .done call
      | none =>
        if recNumber < 0 then
          .done (d.retHdiag .s07009 "Negative record number provided with record field")
        else if recNumber = 0 then .done (d.retHdiag .s07009 "Unsupported record number 0")
        else match d.growTo recNumber.toNat with
          | .error call => .done call
          | .ok (d, r) => d.setRecord dbc recNumber.toNat r field value
    | state => .done (d.retHdiag state none)

end EsOdbc
