import EsOdbc.Describe

/-!
# Reading diagnostics

The diagnostic record of a handle with its text (`error.h`, `error.c`), the two functions
that read it, `EsSQLGetDiagFieldW` and `EsSQLGetDiagRecW` (`info.c`), and the general writer
of texts, `write_wstr` (`util.c`).
-/

namespace EsOdbc

/-! ## The record -/

/-- `esodbc_state_et`. -/
inductive EsodbcState where
  | s00000 | s01000 | s01001 | s01002 | s01003 | s01004 | s01006 | s01007 | s01S00
  | s01S01 | s01S02 | s01S06 | s01S07 | s01S08 | s01S09 | s07001 | s07002 | s07005
  | s07006 | s07009 | s07S01 | s08001 | s08002 | s08003 | s08004 | s08007 | s08S01
  | s21S01 | s21S02 | s22001 | s22002 | s22003 | s22007 | s22008 | s22012 | s22015
  | s22018 | s22019 | s22025 | s22026 | s23000 | s24000 | s25000 | s25S01 | s25S02
  | s25S03 | s28000 | s34000 | s3C000 | s3D000 | s3F000 | s40001 | s40002 | s40003
  | s42000 | s42S01 | s42S02 | s42S11 | s42S12 | s42S21 | s42S22 | s44000 | sHY000
  | sHY001 | sHY003 | sHY004 | sHY007 | sHY008 | sHY009 | sHY010 | sHY011 | sHY012
  | sHY013 | sHY014 | sHY015 | sHY016 | sHY017 | sHY018 | sHY019 | sHY020 | sHY021
  | sHY024 | sHY090 | sHY091 | sHY092 | sHY095 | sHY096 | sHY097 | sHY098 | sHY099
  | sHY100 | sHY101 | sHY103 | sHY104 | sHY105 | sHY106 | sHY107 | sHY109 | sHY110
  | sHY111 | sHY114 | sHYC00 | sHYT00 | sHYT01 | sIM001 | sIM002 | sIM003 | sIM004
  | sIM005 | sIM006 | sIM007 | sIM008 | sIM009 | sIM010 | sIM011 | sIM012 | sIM013
  | sIM014 | sIM015 | sS1118
deriving DecidableEq, Repr

/-- `esodbc_errors_st`. -/
structure EsodbcError where
  code : String
  message : String
  retcode : SqlReturn
deriving DecidableEq, Repr

/-- `esodbc_errors`. -/
def EsodbcState.error : EsodbcState → EsodbcError
  | .s00000 => ⟨"00000", "Success", .success⟩
  | .s01000 => ⟨"01000", "General warning", .successWithInfo⟩
  | .s01001 => ⟨"01001", "Cursor operation conflict", .successWithInfo⟩
  | .s01002 => ⟨"01002", "Disconnect error", .successWithInfo⟩
  | .s01003 => ⟨"01003", "NULL value eliminated in set function", .successWithInfo⟩
  | .s01004 => ⟨"01004", "String data, right-truncated", .successWithInfo⟩
  | .s01006 => ⟨"01006", "Privilege not revoked", .successWithInfo⟩
  | .s01007 => ⟨"01007", "Privilege not granted", .successWithInfo⟩
  | .s01S00 => ⟨"01S00", "Invalid connection string attribute", .successWithInfo⟩
  | .s01S01 => ⟨"01S01", "Error in row", .successWithInfo⟩
  | .s01S02 => ⟨"01S02", "Option value changed", .successWithInfo⟩
  | .s01S06 => ⟨"01S06", "Attempt to fetch before the result set returned the first rowset", .successWithInfo⟩
  | .s01S07 => ⟨"01S07", "Fractional truncation", .successWithInfo⟩
  | .s01S08 => ⟨"01S08", "Error saving File DSN", .successWithInfo⟩
  | .s01S09 => ⟨"01S09", "Invalid keyword", .successWithInfo⟩
  | .s07001 => ⟨"07001", "Wrong number of parameters", .error⟩
  | .s07002 => ⟨"07002", "COUNT field incorrect", .error⟩
  | .s07005 => ⟨"07005", "Prepared statement not a cursor-specification", .error⟩
  | .s07006 => ⟨"07006", "Restricted data type attribute violation", .error⟩
  | .s07009 => ⟨"07009", "Invalid descriptor index", .error⟩
  | .s07S01 => ⟨"07S01", "Invalid use of default parameter", .error⟩
  | .s08001 => ⟨"08001", "Client unable to establish connection", .error⟩
  | .s08002 => ⟨"08002", "Connection name in use", .error⟩
  | .s08003 => ⟨"08003", "Connection not open", .error⟩
  | .s08004 => ⟨"08004", "Server rejected the connection", .error⟩
  | .s08007 => ⟨"08007", "Connection failure during transaction", .error⟩
  | .s08S01 => ⟨"08S01", "Communication link failure", .error⟩
  | .s21S01 => ⟨"21S01", "Insert value list does not match column list", .error⟩
  | .s21S02 => ⟨"21S02", "Degree of derived table does not match column list", .error⟩
  | .s22001 => ⟨"22001", "String data, right-truncated", .error⟩
  | .s22002 => ⟨"22002", "Indicator variable required but not supplied", .error⟩
  | .s22003 => ⟨"22003", "Numeric value out of range", .error⟩
  | .s22007 => ⟨"22007", "Invalid datetime format", .error⟩
  | .s22008 => ⟨"22008", "Datetime field overflow", .error⟩
  | .s22012 => ⟨"22012", "Division by zero", .error⟩
  | .s22015 => ⟨"22015", "Interval field overflow", .error⟩
  | .s22018 => ⟨"22018", "Invalid character value for cast specification", .error⟩
  | .s22019 => ⟨"22019", "Invalid escape character", .error⟩
  | .s22025 => ⟨"22025", "Invalid escape sequence", .error⟩
  | .s22026 => ⟨"22026", "String data, length mismatch", .error⟩
  | .s23000 => ⟨"23000", "Integrity constraint violation", .error⟩
  | .s24000 => ⟨"24000", "Invalid cursor state", .error⟩
  | .s25000 => ⟨"25000", "Invalid transaction state", .error⟩
  | .s25S01 => ⟨"25S01", "Transaction state", .error⟩
  | .s25S02 => ⟨"25S02", "Transaction is still active", .error⟩
  | .s25S03 => ⟨"25S03", "Transaction is rolled back", .error⟩
  | .s28000 => ⟨"28000", "Invalid authorization specification", .error⟩
  | .s34000 => ⟨"34000", "Invalid cursor name", .error⟩
  | .s3C000 => ⟨"3C000", "Duplicate cursor name", .error⟩
  | .s3D000 => ⟨"3D000", "Invalid catalog name", .error⟩
  | .s3F000 => ⟨"3F000", "Invalid schema name", .error⟩
  | .s40001 => ⟨"40001", "Serialization failure", .error⟩
  | .s40002 => ⟨"40002", "Integrity constraint violation", .error⟩
  | .s40003 => ⟨"40003", "Statement completion unknown", .error⟩
  | .s42000 => ⟨"42000", "Syntax error or access violation", .error⟩
  | .s42S01 => ⟨"42S01", "Base table or view already exists", .error⟩
  | .s42S02 => ⟨"42S02", "Base table or view not found", .error⟩
  | .s42S11 => ⟨"42S11", "Index already exists", .error⟩
  | .s42S12 => ⟨"42S12", "Index not found", .error⟩
  | .s42S21 => ⟨"42S21", "Column already exists", .error⟩
  | .s42S22 => ⟨"42S22", "Column not found", .error⟩
  | .s44000 => ⟨"44000", "WITH CHECK OPTION violation", .error⟩
  | .sHY000 => ⟨"HY000", "General error", .error⟩
  | .sHY001 => ⟨"HY001", "Memory allocation error", .error⟩
  | .sHY003 => ⟨"HY003", "Invalid application buffer type", .error⟩
  | .sHY004 => ⟨"HY004", "Invalid SQL data type", .error⟩
  | .sHY007 => ⟨"HY007", "Associated statement is not prepared", .error⟩
  | .sHY008 => ⟨"HY008", "Operation canceled", .error⟩
  | .sHY009 => ⟨"HY009", "Invalid use of null pointer", .error⟩
  | .sHY010 => ⟨"HY010", "Function sequence error", .error⟩
  | .sHY011 => ⟨"HY011", "Attribute cannot be set now", .error⟩
  | .sHY012 => ⟨"HY012", "Invalid transaction operation code", .error⟩
  | .sHY013 => ⟨"HY013", "Memory management error", .error⟩
  | .sHY014 => ⟨"HY014", "Limit on the number of handles exceeded", .error⟩
  | .sHY015 => ⟨"HY015", "No cursor name available", .error⟩
  | .sHY016 => ⟨"HY016", "Cannot modify an implementation row descriptor", .error⟩
  | .sHY017 => ⟨"HY017", "Invalid use of an automatically allocated descriptor handle", .error⟩
  | .sHY018 => ⟨"HY018", "Server declined cancel request", .error⟩
  | .sHY019 => ⟨"HY019", "Non-character and non-binary data sent in pieces", .error⟩
  | .sHY020 => ⟨"HY020", "Attempt to concatenate a null value", .error⟩
  | .sHY021 => ⟨"HY021", "Inconsistent descriptor information", .error⟩
  | .sHY024 => ⟨"HY024", "Invalid attribute value", .error⟩
  | .sHY090 => ⟨"HY090", "Invalid string or buffer length", .error⟩
  | .sHY091 => ⟨"HY091", "Invalid descriptor field identifier", .error⟩
  | .sHY092 => ⟨"HY092", "Invalid attribute/option identifier", .error⟩
  | .sHY095 => ⟨"HY095", "Function type out of range", .error⟩
  | .sHY096 => ⟨"HY096", "Invalid information type", .error⟩
  | .sHY097 => ⟨"HY097", "Column type out of range", .error⟩
  | .sHY098 => ⟨"HY098", "Scope type out of range", .error⟩
  | .sHY099 => ⟨"HY099", "Nullable type out of range", .error⟩
  | .sHY100 => ⟨"HY100", "Uniqueness option type out of range", .error⟩
  | .sHY101 => ⟨"HY101", "Accuracy option type out of range", .error⟩
  | .sHY103 => ⟨"HY103", "Invalid retrieval code", .error⟩
  | .sHY104 => ⟨"HY104", "Invalid precision or scale value", .error⟩
  | .sHY105 => ⟨"HY105", "Invalid parameter type", .error⟩
  | .sHY106 => ⟨"HY106", "Fetch type out of range", .error⟩
  | .sHY107 => ⟨"HY107", "Row value out of range", .error⟩
  | .sHY109 => ⟨"HY109", "Invalid cursor position", .error⟩
  | .sHY110 => ⟨"HY110", "Invalid driver completion", .error⟩
  | .sHY111 => ⟨"HY111", "Invalid bookmark value", .error⟩
  | .sHY114 => ⟨"HY114", "Driver does not support connection-level asynchronous function execution", .error⟩
  | .sHYC00 => ⟨"HYC00", "Optional feature not implemented", .error⟩
  | .sHYT00 => ⟨"HYT00", "Timeout expired", .error⟩
  | .sHYT01 => ⟨"HYT01", "Connection timeout expired", .error⟩
  | .sIM001 => ⟨"IM001", "Driver does not support this function", .error⟩
  | .sIM002 => ⟨"IM002", "Data source name not found and no default driver specified", .error⟩
  | .sIM003 => ⟨"IM003", "Specified driver could not be loaded", .error⟩
  | .sIM004 => ⟨"IM004", "Driver's SQLAllocHandle on SQL_HANDLE_ENV failed", .error⟩
  | .sIM005 => ⟨"IM005", "Driver's SQLAllocHandle on SQL_HANDLE_DBC failed", .error⟩
  | .sIM006 => ⟨"IM006", "Driver's SQLSetConnectAttr failed", .error⟩
  | .sIM007 => ⟨"IM007", "No data source or driver specified; dialog prohibited", .error⟩
  | .sIM008 => ⟨"IM008", "Dialog failed", .error⟩
  | .sIM009 => ⟨"IM009", "Unable to load translation DLL", .error⟩
  | .sIM010 => ⟨"IM010", "Data source name too long", .error⟩
  | .sIM011 => ⟨"IM011", "Driver name too long", .error⟩
  | .sIM012 => ⟨"IM012", "DRIVER keyword syntax error", .error⟩
  | .sIM013 => ⟨"IM013", "Trace file error", .error⟩
  | .sIM014 => ⟨"IM014", "Invalid name of File DSN", .error⟩
  | .sIM015 => ⟨"IM015", "Corrupt file data source", .error⟩
  | .sS1118 => ⟨"S1118", "Driver does not support asynchronous notification", .error⟩

/-- A wide text of at most `max` units, without its terminator. -/
structure WText (max : ℕ) where
  units : WStr
  noNul : 0 ∉ units
  fits : units.length ≤ max

/-- The last index of a diagnostic's text, `SQL_MAX_MESSAGE_LENGTH - 1`. -/
def maxDiagText : ℕ := 511

/-- `esodbc_diag_st`. -/
structure EsodbcDiag where
  state : EsodbcState
  text : WText maxDiagText
  nativeCode : ℤ
  rowNumber : ℤ
  columnNumber : ℤ

theorem EsodbcState.message_noNul (s : EsodbcState) : 0 ∉ wstr s.error.message := by
  have h : (wstr s.error.message).all (· ≠ 0) = true := by cases s <;> decide +kernel
  intro h0
  simpa using List.all_eq_true.mp h 0 h0

theorem EsodbcState.code_noNul (s : EsodbcState) : 0 ∉ wstr s.error.code := by
  have h : (wstr s.error.code).all (· ≠ 0) = true := by cases s <;> decide +kernel
  intro h0
  simpa using List.all_eq_true.mp h 0 h0

theorem EsodbcState.code_length (s : EsodbcState) : (wstr s.error.code).length = 5 := by
  cases s <;> decide +kernel

/-- `post_diagnostic` with the text of the state, behind `ESODBC_DIAG_PREFIX`. -/
def EsodbcDiag.post (pre : WText maxDiagText) (d : EsodbcDiag) (state : EsodbcState) :
    EsodbcDiag where
  state
  text :=
    { units :=
        if maxDiagText + 1 ≤ pre.units.length + (wstr state.error.message).length then
          pre.units ++ (wstr state.error.message).take (maxDiagText + 1 - (pre.units.length + 1))
        else pre.units ++ wstr state.error.message
      noNul := by
        split_ifs
        · exact fun h ↦ (List.mem_append.mp h).elim pre.noNul
            fun h ↦ state.message_noNul (List.mem_of_mem_take h)
        · exact fun h ↦ (List.mem_append.mp h).elim pre.noNul state.message_noNul
      fits := by
        have := pre.fits
        split_ifs
        · rw [List.length_append, List.length_take]
          omega
        · rw [List.length_append]
          omega }
  nativeCode := 0
  rowNumber := d.rowNumber
  columnNumber := d.columnNumber

/-! ## Writing a text -/

/-- What writing a text comes to: the units stored, the length in bytes that is reported, and the
state that is posted. -/
structure TextOut where
  ret : SqlReturn
  written : WStr
  used : ℤ
  posted : Option EsodbcState
deriving DecidableEq, Repr

/-- `write_wstr`, on any handle. -/
def TextOut.writeWstr (hasDest : Bool) (src : WStr) (avail : ℤ) : TextOut :=
  let used := intToSqlsmallint (src.length * 2)
  if !hasDest then ⟨.success, [], used, none⟩
  else if avail < 0 ∨ avail % 2 ≠ 0 then ⟨EsodbcState.sHY090.error.retcode, [], used, some .sHY090⟩
  else
    let wideAvail := (avail / 2).toNat
    if wideAvail ≤ src.length then
      ⟨EsodbcState.s01004.error.retcode,
        if 0 < wideAvail then wcsncpy src (wideAvail - 1) ++ [0] else [], used, some .s01004⟩
    else ⟨.success, wcsncpy src (src.length + 1), used, none⟩

/-! ## Handles and calls -/

/-- `ESODBC_DSN_MAX_ATTR_LEN`. -/
def esodbcDsnMaxAttrLen : ℕ := 768

/-- What a connection's handle holds of this: the names are empty before it is connected. -/
structure ConnHandle where
  diag : EsodbcDiag
  dsn : WText esodbcDsnMaxAttrLen
  server : WText esodbcDsnMaxAttrLen

/-- A handle, with the connection it belongs to; `userDesc` is an explicitly allocated
descriptor, whose `hdr.stmt` points to the connection. -/
inductive DiagHandle where
  | env (shared : Bool) (diag : EsodbcDiag)
  | dbc (conn : ConnHandle)
  | stmt (diag : EsodbcDiag) (conn : ConnHandle)
  | desc (diag : EsodbcDiag) (conn : ConnHandle)
  | userDesc (diag : EsodbcDiag) (conn : ConnHandle)

namespace DiagHandle

def diag : DiagHandle → EsodbcDiag
  | .env _ d => d
  | .dbc c => c.diag
  | .stmt d _ | .desc d _ | .userDesc d _ => d

def setDiag (d : EsodbcDiag) : DiagHandle → DiagHandle
  | .env shared _ => .env shared d
  | .dbc c => .dbc { c with diag := d }
  | .stmt _ c => .stmt d c
  | .desc _ c => .desc d c
  | .userDesc _ c => .userDesc d c

/-- A diagnostic posted on the handle, if there is one. -/
def posted (pre : WText maxDiagText) (h : DiagHandle) (state : Option EsodbcState) : DiagHandle :=
  match state with
  | none => h
  | some s => h.setDiag (h.diag.post pre s)

end DiagHandle

/-- The field identifiers; `other` is one that the function does not know. -/
inductive DiagId where
  | number | cursorRowCount | dynamicFunction | dynamicFunctionCode | rowCount
  | classOrigin | subclassOrigin | connectionName | serverName | messageText
  | native | columnNumber | rowNumber | sqlstate | other
deriving DecidableEq, Repr

/-- A call that reads a diagnostic: of the pointer arguments, whether they are set. -/
inductive DiagCall where
  | getDiagRec (recNumber : ℤ) (hasState hasNative hasText : Bool) (bufferLength : BitVec 16)
      (hasLength : Bool)
  | getDiagField (recNumber : ℤ) (id : DiagId) (hasInfo : Bool) (bufferLength : BitVec 16)
      (hasLength : Bool)
deriving DecidableEq, Repr

/-- What a call gives: the code (none is `SQL_INVALID_HANDLE`), the units stored in the text
buffer, the length stored, the SQLSTATE and the number stored. -/
structure DiagOut where
  ret : Option SqlReturn
  written : WStr
  length : Option ℤ
  sqlstate : Option WStr
  number : Option ℤ
deriving DecidableEq, Repr

/-- A call that gives a code and nothing else. -/
def DiagOut.code (r : Option SqlReturn) : DiagOut := ⟨r, [], none, none, none⟩

/-- `ORIG_CLASS_ISO` and `ORIG_CLASS_ODBC`. -/
def origClassIso : WStr := wstr "ISO 9075"
def origClassOdbc : WStr := wstr "ODBC 3.0"

/-- The `SQL_DIAG_CLASS_ORIGIN` case; `ORIG_DISCRIM` starts the codes of ODBC's own class. -/
def classOrigin (s : EsodbcState) : WStr :=
  if (wstr s.error.code).take 2 = wstr "IM" then origClassOdbc else origClassIso

/-- The states whose subclass is ODBC's. -/
def odbcSubclasses : List EsodbcState :=
  [.s01S00, .s01S01, .s01S02, .s01S06, .s01S07, .s07S01, .s08S01, .s21S01, .s21S02, .s25S01,
    .s25S02, .s25S03, .s42S01, .s42S02, .s42S11, .s42S12, .s42S21, .s42S22, .sHY095, .sHY097,
    .sHY098, .sHY099, .sHY100, .sHY101, .sHY105, .sHY107, .sHY109, .sHY110, .sHY111, .sHYT00,
    .sHYT01, .sIM001, .sIM002, .sIM003, .sIM004, .sIM005, .sIM006, .sIM007, .sIM008, .sIM010,
    .sIM011, .sIM012]

/-- The `SQL_DIAG_SUBCLASS_ORIGIN` case. -/
def subclassOrigin (s : EsodbcState) : WStr :=
  if s ∈ odbcSubclasses then origClassOdbc else origClassIso

/-- A text written with the diagnostics going to a dummy handle. -/
def TextOut.toOut (t : TextOut) (hasLength : Bool) (unit : ℤ) : DiagOut :=
  ⟨some t.ret, t.written, if hasLength then some (t.used / unit) else none, none, none⟩

/-- The `SQL_DIAG_CONNECTION_NAME` and `SQL_DIAG_SERVER_NAME` cases, through `EsSQLGetInfoW`: the
diagnostic of the connection is put back. -/
def diagName (h : DiagHandle) (name : ConnHandle → WStr) (hasInfo : Bool) (bufferLength : ℤ)
    (hasLength : Bool) : Exec (DiagOut × DiagHandle) :=
  match h with
  | .env _ _ => .done (.code (some .error), h)
  | .userDesc _ _ => .undefined
  | .dbc c | .stmt _ c | .desc _ c =>
    .done ((TextOut.writeWstr hasInfo (name c) bufferLength).toOut hasLength 1, h)

/-- The cases of the numbers. -/
def diagNumber (pre : WText maxDiagText) (h : DiagHandle) (n : ℤ) (hasInfo : Bool) :
    DiagOut × DiagHandle :=
  if hasInfo then ({ DiagOut.code (some .success) with number := some n }, h)
  else (.code (some EsodbcState.sHY009.error.retcode), h.posted pre (some .sHY009))

/-- `EsSQLGetDiagFieldW` on the first record. -/
def esSQLGetDiagFieldW (pre : WText maxDiagText) (h : DiagHandle) (id : DiagId) (hasInfo : Bool)
    (bufferLength : ℤ) (hasLength : Bool) : Exec (DiagOut × DiagHandle) :=
  let diag := h.diag
  match id with
  | .number =>
    .done (if hasInfo then
        { DiagOut.code (some .success) with number := some (if diag.state ≠ .s00000 then 1 else 0) }
      else .code (some .error), h)
  | .cursorRowCount | .dynamicFunction | .dynamicFunctionCode | .rowCount =>
    .done (.code (some .error), h)
  | .classOrigin =>
    .done ((TextOut.writeWstr hasInfo (classOrigin diag.state) bufferLength).toOut hasLength 1, h)
  | .subclassOrigin =>
    .done ((TextOut.writeWstr hasInfo (subclassOrigin diag.state) bufferLength).toOut hasLength 1, h)
  | .connectionName => diagName h (fun c ↦ c.dsn.units) hasInfo bufferLength hasLength
  | .serverName => diagName h (fun c ↦ c.server.units) hasInfo bufferLength hasLength
  | .messageText =>
    let t := TextOut.writeWstr hasInfo diag.text.units (intToSqlsmallint (bufferLength * 2))
    .done (t.toOut hasLength 1, h.posted pre t.posted)
  | .native => .done (diagNumber pre h diag.nativeCode hasInfo)
  | .columnNumber => .done (diagNumber pre h diag.columnNumber hasInfo)
  | .rowNumber => .done (diagNumber pre h diag.rowNumber hasInfo)
  | .sqlstate =>
    .done (if diag.state = .s00000 then .code (some .noData)
      else (TextOut.writeWstr hasInfo (wstr diag.state.error.code) bufferLength).toOut hasLength 1, h)
  | .other => .done (.code (some .error), h)

/-- `EsSQLGetDiagRecW` on the first record. -/
def esSQLGetDiagRecW (h : DiagHandle) (hasState hasNative hasText : Bool) (bufferLength : ℤ)
    (hasLength : Bool) : DiagOut :=
  match h with
  | .env true _ => .code none
  | _ =>
    let diag := h.diag
    if diag.state = .s00000 then .code (some .noData)
    else
      let t := TextOut.writeWstr hasText diag.text.units (intToSqlsmallint (bufferLength * 2))
      { t.toOut hasLength 2 with
        sqlstate := if hasState then some (wstr diag.state.error.code ++ [0]) else none
        number := if hasNative then some diag.nativeCode else none }

/-- A call, past the check of the record number. -/
def DiagCall.run (pre : WText maxDiagText) (h : DiagHandle) : DiagCall → Exec (DiagOut × DiagHandle)
  | .getDiagRec recNumber hasState hasNative hasText bufferLength hasLength =>
    if recNumber ≤ 0 then .done (.code (some .error), h)
    else if 1 < recNumber then .done (.code (some .noData), h)
    else .done (esSQLGetDiagRecW h hasState hasNative hasText bufferLength.toInt hasLength, h)
  | .getDiagField recNumber id hasInfo bufferLength hasLength =>
    if recNumber ≤ 0 then .done (.code (some .error), h)
    else if 1 < recNumber then .done (.code (some .noData), h)
    else esSQLGetDiagFieldW pre h id hasInfo bufferLength.toInt hasLength

end EsOdbc
