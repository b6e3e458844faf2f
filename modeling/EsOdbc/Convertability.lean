import EsOdbc.Handles

/-!
# The check of column types against buffer types

`compat_matrix`, `conv_implemented` and `convertability_check` (`convert.c`), for the
check of all bound columns that a fetch makes.
-/

namespace EsOdbc

variable {σ : Type}

/-! ## Type identifiers -/

def sqlChars : List Int := [1, 12, -1, -8, -9, -10]
def sqlIntervals : List Int := [101, 102, 103, 104, 105, 106, 107, 108, 109, 110, 111, 112, 113]
def sqlIntervalsSingle : List Int := [101, 102, 103, 104, 105, 106]

/-- `ESSQL_TYPE_MIN` and `ESSQL_TYPE_MAX`: `SQL_GUID` and the last interval. -/
def essqlTypeMin : Int := -11
def essqlTypeMax : Int := 113

/-- `ESSQL_C_TYPE_MIN` and `ESSQL_C_TYPE_MAX`: `SQL_C_UTINYINT` and the last interval. -/
def essqlCTypeMin : Int := -28
def essqlCTypeMax : Int := 113

def sqlCBinary : Int := -2
def sqlCGuid : Int := -11
def sqlGuid : Int := -11

/-! ## The matrix -/

/-- `block_idx_sql`. -/
def blockIdxSql : List Int := sqlChars ++ [3, 2, -7, 16, -6, 5, 4, -5, 7, 6, 8]

/-- `block_idx_csql`. -/
def blockIdxCsql : List Int :=
  [1, -8, -7, 2, -26, -28, -6, -25, -27, -15, -17, 5, -16, -18, 4, 7, 8, -2]

/-- `from_sql_interval_single`. -/
def fromSqlIntervalSingle : List Int := [-7, 2, -26, -28, -6, -25, -27, -15, -17, 5, -16, -18, 4]

/-- `compat_matrix` as `convert_init` fills it. -/
def compatMatrix (sql csql : Int) : Bool :=
  (blockIdxSql.contains sql && blockIdxCsql.contains csql)
  -- character, binary and default buffers take all types, NULL fits all buffers
  || [1, -8, -2, 99].contains csql
  || sql == 0
  || (sqlChars.contains sql && sqlIntervals.contains csql)
  || ([3, 2, -6, 5, 4, -5].contains sql && sqlIntervalsSingle.contains csql)
  || (sqlIntervals.contains sql && [1, -8].contains csql)
  || (sqlIntervalsSingle.contains sql && fromSqlIntervalSingle.contains csql)
  || (sqlIntervals.contains sql && sql == csql)
  || ((sqlChars ++ [91, 92, 93]).contains sql && [91, 92, 93].contains csql
      && !(sql == 91 && csql == 92) && !(sql == 92 && csql == 91))
  || (sql == sqlGuid && csql == sqlCGuid)

/-- `ESODBC_TYPES_COMPATIBLE`; `none` outside of the matrix. -/
def typesCompatible (sql csql : Int) : Option Bool :=
  if essqlTypeMax < sql ∧ csql = sqlCBinary then some true
  else if essqlTypeMin ≤ sql ∧ sql ≤ essqlTypeMax ∧ essqlCTypeMin ≤ csql ∧ csql ≤ essqlCTypeMax
    then some (compatMatrix sql csql)
  else none

/-- `conv_implemented`. -/
def convImplemented (sql csql : Int) : Bool := csql ≠ sqlCGuid && sql ≠ sqlGuid

/-- The loop of `convertability_check` over the columns that have both records. -/
def checkColumns : List ARec → List ColType → Exec Sql2cConversion
  | arec :: arecs, col :: cols =>
    if !arec.isBound then checkColumns arecs cols
    else match typesCompatible col.conciseType arec.conciseType with
      | none => .undefined
      | some false => .done .violation
      | some true =>
        if convImplemented col.conciseType arec.conciseType then checkColumns arecs cols
        else .done .unsupported
  | _, _ => .done .supported

/-- `convertability_check(stmt, CONV_CHECK_ALL_COLS, &stmt->sql2c_conversion)`. -/
def convertabilityCheck (s : Stmt σ) : Exec (SqlReturn × Stmt σ) :=
  (checkColumns s.ard.recs s.cols).bind fun c ↦
    let s := { s with sql2cConversion := c }
    .done <| match c with
      | .violation => s.retHdiag .s07006 none
      | .unsupported => s.retHdiag .sHYC00 none
      | _ => (.success, s)

end EsOdbc
