import EsOdbc.AttachAnswer

/-!
# Describing columns

`EsSQLDescribeColW`, `EsSQLColAttributeW` (`queries.c`) and `EsSQLGetDescFieldW`
(`handles.c`) on the fields of an IRD record that an answer sets.  The strings are read
through their references, so that the functions have no defined behaviour where the storage
is gone.
-/

namespace EsOdbc

variable {σ : Type}

/-- The conversion of an integer to `SQLSMALLINT`. -/
def intToSqlsmallint (i : Int) : Int := (i + 2 ^ 15) % 2 ^ 16 - 2 ^ 15

/-- `wcsncpy(dest, src, n)`: what it writes. -/
def wcsncpy (src : WStr) (n : Nat) : WStr :=
  let text := (src.takeWhile (· ≠ 0)).take n
  text ++ List.replicate (n - text.length) 0

/-- What `write_wstr` gives: its code, what it wrote to the destination and the value of
`*usedp`. -/
structure WriteWstr (σ : Type) where
  ret : SqlReturn
  dest : Option WStr
  used : Int
  stmt : Stmt σ

/-- `write_wstr`, into a destination of `avail` bytes or into none. -/
def writeWstr (s : Stmt σ) (avail : Option Int) (src : WStr) : WriteWstr σ :=
  let used := toSqlsmallint (src.length * 2)
  match avail with
  | none => ⟨.success, none, used, s⟩
  | some avail =>
    if avail < 0 ∨ avail % 2 ≠ 0 then
      let (ret, s) := s.retHdiag .sHY090 none
      ⟨ret, none, used, s⟩
    else
      let wideAvail := (avail / 2).toNat
      if wideAvail ≤ src.length then
        let (ret, s) := s.retHdiag .s01004 none
        ⟨ret, if 0 < wideAvail then some (wcsncpy src (wideAvail - 1) ++ [0]) else none, used, s⟩
      else ⟨.success, some (wcsncpy src (src.length + 1)), used, s⟩

/-- `get_col_size`; the types without a size of their own have the type's. -/
def getColSize (col : ColType) : Exec Int :=
  match col.metaType with
  | .exactNumeric | .floatNumeric =>
    match col.esType with
    | some t => .done t.columnSize
    | none => .undefined
  | .string | .bin | .dateTime | .intervalWsec | .intervalWosec | .bit => .done col.length
  | .unknown | .uid | .max => .done 0

/-- `ESODBC_DEF_SEC_PRECISION`. -/
def esodbcDefSecPrecision : Int := 3

/-- `get_col_decdigits`. -/
def getColDecdigits (col : ColType) : Exec Int :=
  match col.metaType with
  | .dateTime | .intervalWsec => .done esodbcDefSecPrecision
  | .exactNumeric =>
    match col.esType with
    | some t => .done t.maximumScale
    | none => .undefined
  | _ => .done 0

/-- The record of a column: the checks that the describing functions share. -/
def columnRecord (s : Stmt σ) (icol : Nat) : Except SqlState IRec :=
  if !s.hasResultset then .error .sHY010
  else if icol < 1 then .error .sHYC00
  else match s.ird[icol - 1]? with
    | none => .error .s07009
    | some r => .ok r

/-- What `EsSQLDescribeColW` writes. -/
structure DescribeCol where
  colName : Option WStr
  nameLength : Int
  sqlType : Int
  colSize : Int
  decimalDigits : Int
  nullable : Int
deriving DecidableEq, Repr

/-- `EsSQLDescribeColW`, with all of its outputs asked for and room for `cchColNameMax`
characters of the name.  A call that fails writes no description. -/
def esSQLDescribeColW (s : Stmt σ) (icol : Nat) (cchColNameMax : Option Int) :
    Exec (SqlReturn × Option DescribeCol) :=
  match columnRecord s icol with
  | .error e => .done (e.retcode, none)
  | .ok rec =>
    match rec.name.read s with
    | none => .undefined
    | some name =>
      let w := writeWstr s (cchColNameMax.map fun n ↦ intToSqlsmallint (n * 2)) name
      if !w.ret.succeeded then .done (w.ret, none)
      else
        let nameLength := match cchColNameMax with
          | some _ => if 0 ≤ w.used then w.used / 2 else toSqlsmallint name.length
          | none => toSqlsmallint name.length
        (getColSize rec.col).bind fun colSize ↦
        (getColDecdigits rec.col).bind fun decimalDigits ↦
        match rec.col.esType with
        | none => .undefined
        | some t => .done (.success,
            some ⟨w.dest, nameLength, rec.col.conciseType, colSize, decimalDigits, t.nullable⟩)

/-- The fields of a record that the describing functions are asked for. -/
inductive ColField where
  | name | label | conciseType | type | unnamed | length | nullable | displaySize
deriving DecidableEq, Repr

/-- The value of a field: a string to be read through its reference, or a number. -/
def ColField.value (r : IRec) : ColField → Exec (WRef ⊕ Int)
  | .name => .done (.inl r.name)
  | .label => .done (.inl r.label)
  | .conciseType => .done (.inr r.col.conciseType)
  | .type => .done (.inr r.col.type)
  | .unnamed => .done (.inr (if r.unnamed then 1 else 0))
  | .length => .done (.inr r.col.length)
  | .nullable => match r.col.esType with
    | some t => .done (.inr t.nullable)
    | none => .undefined
  | .displaySize => match r.col.esType with
    | some t => .done (.inr t.displaySize)
    | none => .undefined

/-- What `EsSQLColAttributeW` gives: a code with the string written and its length, or with
a number. -/
inductive ColAttribute where
  | string (ret : SqlReturn) (text : Option WStr) (bytes : Int)
  | number (n : Int)
  | failed (ret : SqlReturn)
deriving DecidableEq, Repr

/-- `EsSQLColAttributeW`, with room for `cbDescMax` bytes of a string. -/
def esSQLColAttributeW (s : Stmt σ) (iCol : Nat) (iField : ColField) (cbDescMax : Option Int) :
    Exec ColAttribute :=
  match columnRecord s iCol with
  | .error e => .done (.failed e.retcode)
  | .ok rec => (iField.value rec).bind fun
    | .inr n => .done (.number n)
    | .inl w => match w.read s with
      | none => .undefined
      | some text =>
        let w := writeWstr s cbDescMax text
        .done (.string w.ret w.dest w.used)

/-- The bytes of a wide string, as they lie in memory. -/
def wideBytes (w : WStr) : CStr := w.flatMap fun c ↦ [.ofNat (c.toNat % 256), .ofNat (c.toNat / 256)]

/-- What `EsSQLGetDescFieldW` gives. -/
inductive DescField where
  /-- The length in characters, and the bytes written: as many as there are characters. -/
  | string (length : Nat) (bytes : CStr)
  | number (n : Int)
  /-- The default of a record that does not exist. -/
  | default
  | failed (ret : SqlReturn)
deriving DecidableEq, Repr

/-- `EsSQLGetDescFieldW` on an IRD record, with a buffer for a value. -/
def esSQLGetDescFieldW (s : Stmt σ) (recNumber : Int) (field : ColField) : Exec DescField :=
  if recNumber ≤ 0 then .done (.failed SqlState.s07009.retcode)
  else match s.ird[recNumber.toNat - 1]? with
    | none => .done .default
    | some rec => (field.value rec).bind fun
      | .inr n => .done (.number n)
      | .inl w => match w.read s with
        | none => .undefined
        | some text => .done (.string text.length ((wideBytes text).take text.length))

end EsOdbc
