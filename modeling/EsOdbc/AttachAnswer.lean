import EsOdbc.Handles
import EsOdbc.Tinycbor

/-!
# Attaching an answer to a statement

`attach_answer` and what it calls, for the two formats (`queries.c`).  The two paths
share `attach_one_column` and nothing else.

A function of the source that returns a code and changes the statement is a function
from the statement to the code and the new statement; it is an `Exec` where the code can
run into behaviour C leaves open, such as the write of a record past the ones allocated.
-/

namespace EsOdbc

open Cbor (Item)

variable {σ : Type}

/-! ## Keys -/

def packParamColumns : String := "columns"
def packParamRows : String := "rows"
def packParamCursor : String := "cursor"
def packParamColName : String := "name"
def packParamColType : String := "type"

/-! ## Columns -/

/-- The conversion of a count to `SQLSMALLINT`. -/
def toSqlsmallint (n : Nat) : Int :=
  if n % 2 ^ 16 < 2 ^ 15 then n % 2 ^ 16 else (n % 2 ^ 16 : Int) - 2 ^ 16

/-- `ESODBC_MAX_DESC_COUNT`. -/
def esodbcMaxDescCount : Int := 0x7FFF

/-- `update_rec_count`, on the records of a descriptor. -/
def updateRecCount (recs : List IRec) (newCount : Int) : Except SqlState (List IRec) :=
  if newCount < 0 then .error .s07009
  else if recs.length = newCount then .ok recs
  else if esodbcMaxDescCount < newCount then .error .s07009
  else .ok (recs.take newCount.toNat ++
    List.replicate (newCount.toNat - recs.length) .init)

/-- `set_col_size`. -/
def setColSize (col : ColType) : ColType :=
  let asSqlulen (i : Int) : Nat := (i % 2 ^ 64).toNat
  match col.metaType, col.esType with
  | .string, some t | .bin, some t | .dateTime, some t =>
    { col with length := asSqlulen t.columnSize }
  | .intervalWsec, some t | .intervalWosec, some t =>
    { col with length := asSqlulen t.displaySize }
  | _, _ => col

/-- The part of `attach_one_column` that looks the type up: `none` when it is not known,
unknown fields while the types are not cached yet. -/
def columnType (esTypes : List EsType) (colType : WStr) (col : ColType) : Option ColType :=
  match esTypes.find? fun t ↦ eqCaseWstr t.typeName colType with
  | some t => some (setColSize
      { col with
        esType := some t
        conciseType := t.dataType
        type := t.sqlDataType
        datetimeIntervalCode := t.sqlDatetimeSub
        metaType := t.metaType
        precision := if t.metaType = .intervalWsec then t.maximumScale else col.precision })
  | none =>
    if esTypes.isEmpty then
      some { col with conciseType := 0, type := 0, datetimeIntervalCode := 0,
                      metaType := .unknown }
    else none

/-- `attach_one_column`; the name is a reference into `block`.  A column whose type is not
known has its name attached before the call fails. -/
def attachOneColumn (esTypes : List EsType) (r : IRec) (block : Nat)
    (colName colType : WStr) : Bool × IRec :=
  let name := if colName.isEmpty then .empty else .inBlock block colName
  let r := { r with name }
  match columnType esTypes colType r.col with
  | none => (false, r)
  | some col => (true, { r with col, label := name, unnamed := colName.isEmpty })

/-! ## JSON -/

/-- The name and type of an element of "columns". -/
def columnJson (c : UJValue) : Option (WStr × WStr) := do
  let name ← c.unpack (wstr packParamColName) UJValue.isString
  let type ← c.unpack (wstr packParamColType) UJValue.isString
  return (name.readString, type.readString)

/-- The loop of `attach_columns_json`: whether it went through, and the records. -/
def attachColumnsLoopJson (esTypes : List EsType) (block : Nat) :
    List IRec → List UJValue → Exec (Bool × List IRec)
  | recs, [] => .done (true, recs)
  | recs, c :: cs =>
    match columnJson c, recs with
    | none, _ => .done (false, recs)
    | some _, [] => .undefined
    | some (name, type), r :: recs =>
      match attachOneColumn esTypes r block name type with
      | (false, r) => .done (false, r :: recs)
      | (true, r) => (attachColumnsLoopJson esTypes block recs cs).bind fun (ok, recs) ↦
          .done (ok, r :: recs)

/-- `attach_columns_json`; an empty array has no iterator, which fails the call. -/
def attachColumnsJson (s : Stmt σ) (block : Nat) (columns : UJValue) :
    Exec (SqlReturn × Stmt σ) :=
  match updateRecCount s.ird (toSqlsmallint columns.beginArray.length) with
  | .error e => .done (e.retcode, { s with diag := Diag.init.post e none })
  | .ok recs =>
    let s := { s with ird := recs }
    if columns.beginArray.isEmpty then .done (s.retHdiag .sHY000 msgInvSrvAns)
    else (attachColumnsLoopJson s.esTypes block recs columns.beginArray).bind
      fun (ok, recs) ↦
        let s := { s with ird := recs }
        .done (if ok then (.success, s) else s.retHdiag .sHY000 msgInvSrvAns)

/-- The result set takes the rows and the cursor of a JSON answer; `UJBeginArray` has no
iterator for an empty array. -/
def Resultset.setJson (r : Resultset) (rows : UJValue) (cursor : Option UJValue) : Resultset :=
  { r with
    forcedNodata := r.forcedNodata || rows.beginArray.isEmpty
    json := { r.json with
      rowsIter := rows.beginArray
      rowsObj := some rows
      curs := (cursor.map UJValue.readString).getD r.json.curs } }

/-- `attach_answer_json`, on what the body decodes to. -/
def attachAnswerJson (s : Stmt σ) (v : Option UJValue) : Exec (SqlReturn × Stmt σ) :=
  let block := s.nextBlock
  let s := { s with
    nextBlock := block + 1
    rset := { s.rset with json := { s.rset.json with state := some block } } }
  match v with
  | none => .done (s.retHdiag .sHY000 msgInvSrvAns)
  | some obj =>
    match obj.unpack (wstr packParamRows) UJValue.isArray with
    | none => .done (s.retHdiag .sHY000 msgInvSrvAns)
    | some rows =>
      let cursor := obj.unpack (wstr packParamCursor) UJValue.isString
      let s := { s with rset := s.rset.setJson rows cursor }
      match obj.unpack (wstr packParamColumns) UJValue.isArray with
      | some columns =>
        if 0 < s.ird.length then .done (s.retHdiag .sHY000 msgInvSrvAns)
        else attachColumnsJson s block columns
      | none => .done (.success, s)

/-! ## CBOR -/

/-- A value of a column that has to be a text in one piece and not empty. -/
def columnText (x : Item) : Option WStr :=
  if isTextString x then
    match cborValueGetUnchunkedString x with
    | .ok b => u8mbToU16wc b
    | .error _ => none
  else none

/-- The name and type of an element of "columns". -/
def columnCbor (x : Item) : Exec (Option (WStr × WStr)) :=
  match x.untag with
  | .map _ entries =>
    match cborMapLookupKeys entries [cstr packParamColName, cstr packParamColType] with
    | none => .undefined
    | some (.ok [some name, some type]) => .done do
        let name ← columnText name
        let type ← columnText type
        return (name, type)
    | some _ => .done none
  | _ => .done none

/-- `iterate_on_columns`, first time: the room for the names and types, terminators
included, or `none` when an element is not valid. -/
def iterateOnColumnsSize : List Item → Exec (Option Nat)
  | [] => .done (some 0)
  | x :: xs => (columnCbor x).bind fun
    | none => .done none
    | some (name, type) => (iterateOnColumnsSize xs).bind fun
      | none => .done none
      | some n => .done (some (name.length + 1 + (type.length + 1) + n))

/-- `iterate_on_columns`, second time: converts into `block` and attaches. -/
def iterateOnColumns (esTypes : List EsType) (block : Nat) :
    List IRec → List Item → Exec (Bool × List IRec)
  | recs, [] => .done (true, recs)
  | [], x :: _ => (columnCbor x).bind fun
    | none => .done (false, [])
    | some _ => .undefined
  | r :: recs, x :: xs => (columnCbor x).bind fun
    | none => .done (false, r :: recs)
    | some (name, type) =>
      match attachOneColumn esTypes r block name type with
      | (false, r) => .done (false, r :: recs)
      | (true, r) => (iterateOnColumns esTypes block recs xs).bind fun (ok, recs) ↦
          .done (ok, r :: recs)

/-- `attach_columns_cbor`; on a value other than an array, tinycbor is used outside of
its contract. -/
def attachColumnsCbor (s : Stmt σ) (columns : Item) : Exec (SqlReturn × Stmt σ) :=
  match columns with
  | .array indef items =>
    match cborGetArrayCount indef items with
    | .error _ => .done (s.retHdiag .sHY000 msgInvSrvAns)
    | .ok ncols =>
      match updateRecCount s.ird (toSqlsmallint ncols) with
      | .error e => .done (e.retcode, { s with diag := Diag.init.post e none })
      | .ok recs =>
        let s := { s with ird := recs }
        (iterateOnColumnsSize items).bind fun
          | none => .done (s.retHdiag .sHY000 msgInvSrvAns)
          | some 0 => .done (.success, s)
          | some (_ + 1) =>
            let block := s.nextBlock
            let s := { s with
              nextBlock := block + 1
              rset := { s.rset with cbor := { s.rset.cbor with colsBuff := some block } } }
            (iterateOnColumns s.esTypes block recs items).bind fun (ok, recs) ↦
              let s := { s with ird := recs }
              .done (if ok then (.success, s) else s.retHdiag .sHY000 msgInvSrvAns)
  | _ => .undefined

/-- The result set takes the rows and the cursor of a CBOR answer; the iterator of an empty
array is not set. -/
def Resultset.setCbor (r : Resultset) (indef : Bool) (items : List Item)
    (cursor : Option CStr) : Resultset :=
  { r with
    forcedNodata := r.forcedNodata || items.isEmpty
    cbor := { r.cbor with
      rowsObj := some (.array indef items)
      rowsIter := if items.isEmpty then r.cbor.rowsIter else items
      curs := cursor.getD r.cbor.curs } }

/-- `attach_answer_cbor`, on what the body decodes to.  A cursor in chunks is assembled,
one in a piece is referenced in the body. -/
def attachAnswerCbor (s : Stmt σ) (x : Option Item) : Exec (SqlReturn × Stmt σ) :=
  match x with
  | some (.map _ entries) =>
    match cborMapLookupKeys entries
        [cstr packParamColumns, cstr packParamCursor, cstr packParamRows] with
    | none => .undefined
    | some (.ok [columns, cursor, some (.array indef items)]) =>
      match cursor.map textBytes with
      | some none =>
        .done ({ s with rset := s.rset.setCbor indef items none }.retHdiag .sHY000 msgInvSrvAns)
      | cursor =>
        let s := { s with rset := s.rset.setCbor indef items cursor.join }
        match columns with
        | some columns =>
          if 0 < s.ird.length then .done (s.retHdiag .sHY000 msgInvSrvAns)
          else attachColumnsCbor s columns
        | none => .done (.success, s)
    | some _ => .done (s.retHdiag .sHY000 msgInvSrvAns)
  | _ => .done (s.retHdiag .sHY000 msgInvSrvAns)

/-! ## Both -/

/-- The statement an answer is attached to: a result set from before is cleared. -/
def Stmt.takeBody (s : Stmt σ) (isJson : Bool) : Stmt σ :=
  let s := if s.hasResultset then s.clearResultset false else s
  { s with rset := { s.rset with body := true, forcedNodata := false, packJson := isJson } }

/-- The end of `attach_answer`, after the function of the format. -/
def attachEnd (oldIrdCnt : Nat) (ret : SqlReturn) (s : Stmt σ) : SqlReturn × Stmt σ :=
  if ret.succeeded then
    if s.ird.isEmpty then s.retHdiag .sHY000 msgInvSrvAns
    else
      let s := if oldIrdCnt = 0 then { s with sql2cConversion := .unchecked } else s
      (ret, if s.nodataForced then s else { s with nset := s.nset + 1 })
  else (ret, s)

/-- The function of the format of an answer. -/
def attachFormat (s : Stmt σ) : Answer → Exec (SqlReturn × Stmt σ)
  | .json v => attachAnswerJson s v
  | .cbor x => attachAnswerCbor s x

/-- `attach_answer`. -/
def attachAnswer (s : Stmt σ) (answer : Answer) : Exec (SqlReturn × Stmt σ) :=
  (attachFormat (s.takeBody answer.isJson) answer).bind fun (ret, t) ↦
    .done (attachEnd s.ird.length ret t)

end EsOdbc
