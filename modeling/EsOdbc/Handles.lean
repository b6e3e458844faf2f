import EsOdbc.Error
import EsOdbc.Ujson
import EsOdbc.Lib.Cbor

/-!
# Statements, descriptors and result sets

The part of `handles.h` the modelled functions read and write.

* Storage that a string of the driver can point into is a *block*, named by a number
  that is used once: the state of the JSON parser, or the buffer the names of a CBOR
  answer are converted to.  A statement owns the block its result set refers to.
* The two members of `union pack` are fields next to each other.  `clear_resultset`
  zeroes the union, and an answer fills only the member of its own format, so the other
  one reads as zeroes where the C layout makes it read as zeroes (see `EsSQLFetch`).
* What the application owns (its buffers, and the position of `SQLGetData` in a value)
  is a type `σ` that only the converters look into.
-/

namespace EsOdbc

open Cbor (Item)

/-- `esodbc_metatype_et`. -/
inductive MetaType where
  | unknown | exactNumeric | floatNumeric | string | bin | dateTime | intervalWsec
  | intervalWosec | bit | uid | max
deriving DecidableEq, Repr

/-- `esodbc_estype_st`, one row of `SYS TYPES`. -/
structure EsType where
  typeName : WStr
  dataType : Int
  columnSize : Int
  nullable : Int
  maximumScale : Int
  sqlDataType : Int
  sqlDatetimeSub : Int
  metaType : MetaType
  displaySize : Int
deriving DecidableEq, Repr

/-- A string of the driver: the static empty one, or a text inside a block. -/
inductive WRef where
  | empty
  | inBlock (block : Nat) (text : WStr)
deriving DecidableEq, Repr

/-- The fields of an IRD record that the type of the column decides. -/
structure ColType where
  esType : Option EsType
  conciseType : Int
  type : Int
  datetimeIntervalCode : Int
  metaType : MetaType
  precision : Int
  length : Nat
deriving DecidableEq, Repr

/-- `i_val`: the protocol value of the column in the current row. -/
inductive IVal where
  | unset
  | json (v : UJValue)
  | cbor (x : Item)
deriving Repr

/-- A record of the IRD. -/
structure IRec where
  name : WRef
  label : WRef
  col : ColType
  unnamed : Bool
  iVal : IVal
deriving Repr

/-- `init_rec`. -/
def IRec.init : IRec :=
  ⟨.empty, .empty, ⟨none, 0, 0, 0, .unknown, 0, 0⟩, false, .unset⟩

/-- A record of the ARD; of a pointer, whether it is set. -/
structure ARec where
  conciseType : Int
  dataPtr : Bool
  indicatorPtr : Bool
  octetLengthPtr : Bool
deriving DecidableEq, Repr

/-- `REC_IS_BOUND`. -/
def ARec.isBound (r : ARec) : Bool := r.dataPtr || r.indicatorPtr || r.octetLengthPtr

/-- The ARD. -/
structure Ard where
  arraySize : Nat
  recs : List ARec
deriving DecidableEq, Repr

/-- An element of the row status array; `other` is what the application left there. -/
inductive RowStatus where
  | success
  | successWithInfo
  | error
  | norow
  | other (code : UInt16)
deriving DecidableEq, Repr

/-- `struct resultset_json`. -/
structure ResultsetJson where
  curs : WStr
  state : Option Nat
  rowsObj : Option UJValue
  rowsIter : List UJValue
  rowArray : UJValue
deriving Repr

/-- `struct resultset_cbor`; of `cols_buff`, the block it points to. -/
structure ResultsetCbor where
  curs : CStr
  rowsObj : Option Item
  rowsIter : List Item
  colsBuff : Option Nat
deriving Repr

/-- `resultset_st`; of `body`, whether it is set and whether its count was overwritten by
`STMT_FORCE_NODATA`. -/
structure Resultset where
  body : Bool
  forcedNodata : Bool
  packJson : Bool
  json : ResultsetJson
  cbor : ResultsetCbor
  vrows : Nat
deriving Repr

def ResultsetJson.zero : ResultsetJson := ⟨[], none, none, [], .null⟩
def ResultsetCbor.zero : ResultsetCbor := ⟨[], none, [], none⟩

/-- A result set after `memset(.., 0, ..)`. -/
def Resultset.zero : Resultset := ⟨false, false, false, .zero, .zero, 0⟩

/-- `sql2c_conversion`. -/
inductive Sql2cConversion where
  | violation | unsupported | unchecked | supported | skipped
deriving DecidableEq, Repr

/-- The body of an answer; `none` where its decoder refuses it. -/
inductive Answer where
  | json (v : Option UJValue)
  | cbor (x : Option Item)
deriving Repr

def Answer.isJson : Answer → Bool
  | .json _ => true
  | .cbor _ => false

/-- What the server makes of a request: an answer with code 200, or anything else. -/
inductive Reply where
  | answer (a : Answer)
  | failed
deriving Repr

def Reply.isAnswer : Reply → Bool
  | .answer _ => true
  | .failed => false

/-- `esodbc_stmt_st` with the descriptors it points to, the types cached by its
connection, the application's side `app` and the replies the server has yet to give. -/
structure Stmt (σ : Type) where
  esTypes : List EsType
  diag : Diag
  rset : Resultset
  nset : Nat
  tvRows : Nat
  ird : List IRec
  /-- IRD's `array_status_ptr`. -/
  arrayStatus : Option (List RowStatus)
  /-- IRD's `rows_processed_ptr` and what it points to. -/
  rowsProcessed : Option Nat
  ard : Ard
  sql2cConversion : Sql2cConversion
  earlyExecuted : Bool
  gdCol : Int
  gdCtype : Int
  nextBlock : Nat
  app : σ
  replies : List Reply

variable {σ : Type}

namespace Stmt

/-- `init_stmt`, with the types of the connection and the replies of the server. -/
def init (esTypes : List EsType) (app : σ) (replies : List Reply) : Stmt σ where
  esTypes
  diag := .init
  rset := .zero
  nset := 0
  tvRows := 0
  ird := []
  arrayStatus := none
  rowsProcessed := none
  ard := ⟨1, []⟩
  sql2cConversion := .unchecked
  earlyExecuted := false
  gdCol := 0
  gdCtype := 0
  nextBlock := 0
  app
  replies

/-- `STMT_HAS_RESULTSET`. -/
def hasResultset (s : Stmt σ) : Bool := s.rset.body

/-- `STMT_NODATA_FORCED`. -/
def nodataForced (s : Stmt σ) : Bool := s.rset.forcedNodata

/-- `STMT_FORCE_NODATA`. -/
def forceNodata (s : Stmt σ) : Stmt σ := { s with rset := { s.rset with forcedNodata := true } }

/-- `STMT_HAS_CURSOR`. -/
def hasCursor (s : Stmt σ) : Bool :=
  if s.rset.packJson then !s.rset.json.curs.isEmpty else !s.rset.cbor.curs.isEmpty

/-- `STMT_GD_RESET`; the position in the value is the application side's. -/
def gdReset (s : Stmt σ) : Stmt σ := { s with gdCol := -1, gdCtype := 0 }

/-- `STMT_GD_CALLING`. -/
def gdCalling (s : Stmt σ) : Bool := 0 ≤ s.gdCol

/-- `RET_HDIAG`. -/
def retHdiag (s : Stmt σ) (state : SqlState) (text : Option String) :
    SqlReturn × Stmt σ :=
  (state.retcode, { s with diag := s.diag.post state text })

/-- The types of the columns. -/
def cols (s : Stmt σ) : List ColType := s.ird.map IRec.col

/-- The block that the statement's result set keeps allocated. -/
def owned (s : Stmt σ) : Option Nat :=
  if s.rset.packJson then s.rset.json.state else s.rset.cbor.colsBuff

/-- `clear_resultset`: the resources of the result set go, the IRD stays. -/
def clearResultset (s : Stmt σ) (onClose : Bool) : Stmt σ :=
  let s := { s with rset := .zero }
  let s := if onClose then { s with nset := 0, tvRows := 0 } else s
  s.gdReset

/-- `set_row_diag`. -/
def setRowDiag (s : Stmt σ) (state : SqlState) (text : Option String) (pos : Nat)
    (colno : Int) : SqlReturn × Stmt σ :=
  let s := { s with arrayStatus := s.arrayStatus.map fun st ↦ List.set st pos .error }
  let s := { s with diag := { s.diag with rowNumber := s.tvRows + 1, columnNumber := colno } }
  s.retHdiag state text

end Stmt

/-- The text of a string of the driver, if the statement still owns its storage. -/
def WRef.read (s : Stmt σ) : WRef → Option WStr
  | .empty => some []
  | .inBlock b t => if s.owned = some b then some t else none

/-- The text a string of the driver had when it was set. -/
def WRef.text : WRef → WStr
  | .empty => []
  | .inBlock _ t => t

end EsOdbc
