import EsOdbc.Convertability

/-!
# Descriptors and their records

The headers and records of descriptors (`handles.h`), and what `handles.c` makes of the C
and SQL types in them.  The records of an IRD are those of the statement (`Stmt.ird`): no
call of the application can write one.
-/

namespace EsOdbc

/-- A pointer argument; `0` is the null pointer. -/
abbrev SqlPointer := BitVec 64

/-- `desc_type_et`. -/
inductive DescType where
  | anon | ard | ird | apd | ipd
deriving DecidableEq, Repr

/-- `DESC_TYPE_IS_APPLICATION`. -/
def DescType.isApplication : DescType → Bool
  | .ard | .apd => true
  | _ => false

/-- `DESC_TYPE_IS_IMPLEMENTATION`. -/
def DescType.isImplementation : DescType → Bool
  | .ird | .ipd => true
  | _ => false

/-- `DESC_TYPE_IS_RECORD`. -/
def DescType.isRecord : DescType → Bool
  | .ard | .ird => true
  | _ => false

/-- The handle that `hdr.stmt` of a descriptor points to: an explicitly allocated descriptor
keeps the connection it was allocated on there. -/
inductive DescParent where
  | stmt | dbc
deriving DecidableEq, Repr

/-- The fields of `esodbc_rec_st` that a call of the application can write. -/
structure Rec where
  metaType : MetaType
  conciseType : Int
  type : Int
  datetimeIntervalCode : Int
  dataPtr : SqlPointer
  indicatorPtr : SqlPointer
  octetLengthPtr : SqlPointer
  octetLength : Int
  length : Nat
  datetimeIntervalPrecision : Int
  numPrecRadix : Int
  parameterType : Int
  precision : Int
  scale : Int
  unnamed : Int
  esType : Option EsType
deriving DecidableEq, Repr

/-- `SQL_PARAM_INPUT`. -/
def sqlParamInput : Int := 1

/-- `init_rec`. -/
def Rec.init (type : DescType) : Rec where
  metaType := .unknown
  conciseType := 0
  type := 0
  datetimeIntervalCode := 0
  dataPtr := 0
  indicatorPtr := 0
  octetLengthPtr := 0
  octetLength := 0
  length := 0
  datetimeIntervalPrecision := 0
  numPrecRadix := 0
  parameterType := if type = .ipd then sqlParamInput else 0
  precision := 0
  scale := 0
  unnamed := 0
  esType := none

/-- `REC_IS_BOUND`. -/
def Rec.isBound (r : Rec) : Bool := r.dataPtr ≠ 0 || r.indicatorPtr ≠ 0 || r.octetLengthPtr ≠ 0

/-- `esodbc_desc_st`. -/
structure Desc where
  diag : Diag
  parent : DescParent
  /-- `SQL_DESC_ALLOC_USER`. -/
  allocUser : Bool
  type : DescType
  arraySize : Nat
  arrayStatusPtr : SqlPointer
  bindOffsetPtr : SqlPointer
  bindType : Int
  rowsProcessedPtr : SqlPointer
  recs : List Rec
deriving DecidableEq, Repr

/-- `init_desc`: `SQL_BIND_BY_COLUMN` is zero as well. -/
def Desc.init (parent : DescParent) (type : DescType) (allocUser : Bool) : Desc where
  diag := .init
  parent
  allocUser
  type := if allocUser then .anon else type
  arraySize := 1
  arrayStatusPtr := 0
  bindOffsetPtr := 0
  bindType := 0
  rowsProcessedPtr := 0
  recs := []

/-! ## Types -/

def sqlDatetime : Int := 9
def sqlInterval : Int := 10
def sqlFloat : Int := 6
def sqlCDefault : Int := 99

/-- `concise_to_type_code`: the code of an interval is its number. -/
def conciseToTypeCode (concise : Int) : Int × Int :=
  if concise ∈ [91, 92, 93] then (sqlDatetime, concise - 90)
  else if concise ∈ sqlIntervals then (sqlInterval, concise - 100)
  else (concise, 0)

/-- `sqltype_to_meta`. -/
def sqltypeToMeta (concise : Int) : MetaType :=
  if concise ∈ sqlChars then .string
  else if concise ∈ [-2, -3, -4] then .bin
  else if concise ∈ [3, 4, 2, 5, -6, -5] then .exactNumeric
  else if concise ∈ [7, 6, 8] then .floatNumeric
  else if concise ∈ [91, 92, 93] then .dateTime
  else if concise ∈ [101, 102, 103, 104, 105, 107, 108, 109, 111] then .intervalWosec
  else if concise ∈ [106, 110, 112, 113] then .intervalWsec
  else if concise = -11 then .uid
  else if concise ∈ [-7, 16] then .bit
  else if concise = 0 then .max
  else .unknown

/-- `sqlctype_to_meta`. -/
def sqlctypeToMeta (concise : Int) : MetaType :=
  if concise ∈ [1, -8] then .string
  else if concise = -2 then .bin
  else if concise ∈ [5, -15, -17, 4, -16, -18, -6, -26, -28, -25, -27, 2] then .exactNumeric
  else if concise ∈ [7, 8] then .floatNumeric
  else if concise ∈ [91, 92, 93] then .dateTime
  else if concise ∈ [101, 102, 103, 104, 105, 107, 108, 109, 111] then .intervalWosec
  else if concise ∈ [106, 110, 112, 113] then .intervalWsec
  else if concise = -7 then .bit
  else if concise = -11 then .uid
  else if concise = sqlCDefault then .max
  else .unknown

/-- `sqlctype_to_es`. -/
def sqlctypeToEs (concise : Int) : Int :=
  if concise ∈ [1, -8] then -9
  else if concise ∈ [5, -15, -17] then 5
  else if concise ∈ [4, -16, -18] then 4
  else if concise = 7 then 7
  else if concise = 8 then 8
  else if concise ∈ [-7, -6, -26, -28] then -6
  else if concise ∈ [-25, -27] then -5
  else if concise = -2 then -2
  else if concise ∈ [91, 92, 93, 2, -11] ++ sqlIntervals then concise
  else 0

/-- `concise_to_meta`. -/
def conciseToMeta (concise : Int) : DescType → MetaType
  | .ard | .apd => sqlctypeToMeta concise
  | .ird | .ipd => sqltypeToMeta concise
  | .anon => .unknown

/-- `set_defaults_from_meta_type`. -/
def setDefaultsFromMetaType (r : Rec) : Rec :=
  match r.metaType with
  | .string => { r with length := 1, precision := 0 }
  | .dateTime =>
    if r.datetimeIntervalCode = 1 ∨ r.datetimeIntervalCode = 2 then { r with precision := 0 }
    else if r.datetimeIntervalCode = 3 then { r with precision := 6 }
    else r
  | .intervalWsec => { r with precision := 6, datetimeIntervalPrecision := 2 }
  | .intervalWosec => { r with datetimeIntervalPrecision := 2 }
  | .exactNumeric =>
    if r.conciseType = 3 ∨ r.conciseType = 2 then { r with scale := 0, precision := 19 } else r
  | .floatNumeric => if r.conciseType = sqlFloat then { r with precision := 16 } else r
  | _ => r

/-! ## Consistency -/

/-- What `consistency_check` reads of the connection. -/
structure DbcTypes where
  esTypes : List EsType
  maxFloatType : EsType
deriving DecidableEq, Repr

/-- `ESODBC_MAX_SEC_PRECISION`. -/
def esodbcMaxSecPrecision : Int := 9

/-- The bound of the leading precision of an interval, of those that have one. -/
def maxLeadPrec (concise : Int) : Option Int :=
  if concise ∈ [101, 102] then some 11
  else if concise = 103 then some 16
  else if concise = 104 then some 17
  else if concise = 105 then some 19
  else if concise = 106 then some 20
  else none

/-- The largest precision of a numeric type; none while the types are not loaded.  The
connection is looked for behind `hdr.stmt`, where it is only for a descriptor of a
statement. -/
def numericColumnSize (dbc : DbcTypes) (d : Desc) (r : Rec) : Exec (Except Unit (Option Int)) :=
  match r.esType with
  | some t => .done (.ok (some t.columnSize))
  | none =>
    if d.parent = .dbc then .undefined
    else if r.conciseType = sqlFloat then .done (.ok (some dbc.maxFloatType.columnSize))
    else
      let concise := if d.type.isApplication then sqlctypeToEs r.conciseType else r.conciseType
      if dbc.esTypes.isEmpty then .done (.ok none)
      else .done <| match dbc.esTypes.find? fun t ↦ t.dataType == concise with
        | none => .error ()
        | some t => .ok (some t.columnSize)

/-- The check of a numeric type's precision. -/
def checkNumeric (dbc : DbcTypes) (d : Desc) (r : Rec) : Exec Bool :=
  (numericColumnSize dbc d r).bind fun
    | .error () => .done false
    | .ok none => .done true
    | .ok (some size) => .done (0 ≤ r.precision ∧ r.precision ≤ size)

/-- The check of an interval's precisions, and of a time's. -/
def checkDatetime (r : Rec) : Bool :=
  let sec := !(102 < r.conciseType ∧ r.conciseType ≠ 107) ||
    (0 ≤ r.precision ∧ r.precision ≤ esodbcMaxSecPrecision : Bool)
  let lead := match maxLeadPrec r.conciseType with
    | none => true
    | some m => r.metaType = .dateTime ∨
        0 ≤ r.datetimeIntervalPrecision ∧ r.datetimeIntervalPrecision ≤ m
  sec && lead

/-- `consistency_check`. -/
def consistencyCheck (dbc : DbcTypes) (d : Desc) (r : Rec) : Exec Bool :=
  if r.metaType = .unknown then .done false
  else if (r.type, r.datetimeIntervalCode) ≠ conciseToTypeCode r.conciseType then .done false
  else match r.metaType with
    | .exactNumeric =>
      if r.conciseType ≠ 2 ∧ r.conciseType ≠ 3 then
        if r.scale ≠ 0 then .done false else checkNumeric dbc d r
      else .done true
    | .floatNumeric => checkNumeric dbc d r
    | .dateTime => .done (r.conciseType = 91 || checkDatetime r)
    | .intervalWsec | .intervalWosec => .done (checkDatetime r)
    | _ => .done true

end EsOdbc
