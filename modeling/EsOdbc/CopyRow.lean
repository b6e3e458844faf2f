import EsOdbc.AttachAnswer

/-!
# Unpacking and copying one row

`copy_one_row_json`, `copy_one_row_cbor` and their `unpack_` counterparts (`queries.c`).
The two copying functions are one loop over the bound columns that differ in how they
read a protocol value; a `Cell` is what reading it comes to.

The converters the loop calls (`sql2c_string` and its siblings) are a parameter here:
everything said of rows holds whatever they write and whatever they return.
-/

namespace EsOdbc

open Cbor (Item)

variable {σ : Type}

/-- The converters of `convert.c` as the row functions see them.  Each gets the two
records, the column, the row's position in the rowset and the value; the state it gives
is `s00000` for a clean success, else the state it posts. -/
structure Converters (σ : Type) where
  sql2cString : ARec → ColType → Nat → Nat → WStr → σ → SqlState × σ
  sql2cLonglong : ARec → ColType → Nat → Nat → Int → σ → SqlState × σ
  /-- `sql2c_quadword` on an unsigned value. -/
  sql2cQuadword : ARec → ColType → Nat → Nat → UInt64 → σ → SqlState × σ
  sql2cDouble : ARec → ColType → Nat → Nat → UInt64 → σ → SqlState × σ
  /-- `*ind_len = SQL_NULL_DATA`. -/
  storeNull : Nat → Nat → σ → σ

/-- A protocol value as the copying loop handles it. -/
inductive Cell where
  /-- Of a type that no column can have, or not decodable. -/
  | bad
  | null
  | string (w : WStr)
  | longlong (i : Int)
  | quadword (n : UInt64)
  | double (bits : UInt64)
deriving DecidableEq, Repr

/-- The `switch` of `copy_one_row_json`. -/
def cellJson : UJValue → Cell
  | .null => .null
  | .string w => .string w
  | .longLong i => .longlong i
  | .unsignedLongLong n => .quadword n
  | .double d => .double d
  | .bool b => .longlong (if b then 1 else 0)
  | .array _ | .object _ => .bad

/-- The `switch` of `copy_one_row_cbor`. -/
def cellCbor (x : Item) : Cell :=
  match x with
  | .bytes _ | .bytesChunks _ | .array _ _ | .map _ _ | .simple _ | .undefined => .bad
  | .null => .null
  | .text _ | .textChunks _ =>
    match (textBytes x).map cborValueGetUtf16Wstr with
    | some (.ok w) => .string w
    | _ => .bad
  | .uint _ | .nint _ =>
    match cborValueGetInt64Checked x with
    | .ok i => .longlong i
    | .error _ => .bad
  | .tag n c =>
    match cborValueGetTaggedUint64 n c with
    | .ok u => .quadword u
    | .error _ => .bad
  | .half h => .double (decodeHalf h)
  | .float f => .double (floatToDouble f)
  | .double d => .double d
  | .bool b => .longlong (if b then 1 else 0)

/-- The value of a record in the format of the result set. -/
def IVal.cell : IVal → Cell
  | .unset => .bad
  | .json v => cellJson v
  | .cbor x => cellCbor x

namespace Stmt

/-- `rowno` of the copying functions.  The conditional operator binds weaker than the sum
in front of it, so this is not the number of the row. -/
def rowno (s : Stmt σ) : Int :=
  if s.tvRows + (if s.gdCalling then 1 else 0) ≠ 0 then 0 else 1

/-- The end of a converter's call: its state is posted and, short of a clean success,
the position is added to the diagnostic. -/
def afterConv (s : Stmt σ) (i : Nat) (r : SqlState × σ) : SqlReturn × Stmt σ :=
  let s := { s with app := r.2 }
  match r.1 with
  | .s00000 => (.success, s)
  | state => (state.retcode,
      { s with diag := { s.diag.post state none with rowNumber := s.rowno, columnNumber := i + 1 } })

/-- One bound column: the converter for its value. -/
def copyCell (cv : Converters σ) (s : Stmt σ) (arec : ARec) (col : ColType) (i pos : Nat) :
    Cell → SqlReturn × Stmt σ
  | .bad => s.setRowDiag .sHY000 msgInvSrvAns pos (i + 1)
  | .null =>
    if arec.indicatorPtr then (.success, { s with app := cv.storeNull i pos s.app })
    else s.setRowDiag .s22002 none pos (i + 1)
  | .string w => s.afterConv i (cv.sql2cString arec col i pos w s.app)
  | .longlong n => s.afterConv i (cv.sql2cLonglong arec col i pos n s.app)
  | .quadword n => s.afterConv i (cv.sql2cQuadword arec col i pos n s.app)
  | .double d => s.afterConv i (cv.sql2cDouble arec col i pos d s.app)

/-- The loop over the records of the ARD, from column `i` on. -/
def copyCols (cv : Converters σ) (pos : Nat) :
    Stmt σ → (i : Nat) → (withInfo : Bool) → List ARec → SqlReturn × Stmt σ
  | s, _, withInfo, [] =>
    let status : RowStatus := if withInfo then .successWithInfo else .success
    (if withInfo then .successWithInfo else .success,
      { s with arrayStatus := s.arrayStatus.map fun st ↦ List.set st pos status })
  | s, i, withInfo, arec :: arecs =>
    if !arec.isBound then copyCols cv pos s (i + 1) withInfo arecs
    else match s.ird[i]? with
      | none => s.setRowDiag .sHY000 msgInvSrvAns pos (i + 1)
      | some irec =>
        match copyCell cv s arec irec.col i pos irec.iVal.cell with
        | (.success, s) => copyCols cv pos s (i + 1) withInfo arecs
        | (.successWithInfo, s) => copyCols cv pos s (i + 1) true arecs
        | r => r

/-- `copy_one_row_json` and `copy_one_row_cbor`: all columns, or the one that
`SQLGetData` asks for and the ones after it. -/
def copyOneRow (cv : Converters σ) (s : Stmt σ) (pos : Nat) : SqlReturn × Stmt σ :=
  let start := if s.gdCalling then (s.gdCol - 1).toNat else 0
  copyCols cv pos s start false (s.ard.recs.drop start)

/-- The end of both unpacking functions: copy, if the ARD has records. -/
def copyIfBound (cv : Converters σ) (s : Stmt σ) (pos : Nat) : SqlReturn × Stmt σ :=
  if 0 < s.ard.recs.length then s.copyOneRow cv pos else (.success, s)

/-! ## Unpacking -/

/-- The loop of `unpack_one_row_json` over the records of the IRD: the records, and what
is left of the row, or the number of the column it ran out at. -/
def unpackRowJson : List IRec → List UJValue → (i : Nat) → List IRec × (List UJValue ⊕ Nat)
  | [], vs, _ => ([], .inl vs)
  | rs, [], i => (rs, .inr i)
  | r :: rs, v :: vs, i =>
    let (rs, e) := unpackRowJson rs vs (i + 1)
    ({ r with iVal := .json v } :: rs, e)

/-- `unpack_one_row_json`; the iterator has moved past the row already. -/
def unpackOneRowJson (cv : Converters σ) (s : Stmt σ) (pos : Nat) : SqlReturn × Stmt σ :=
  -- a row without elements has no iterator
  if !s.rset.json.rowArray.isArray || s.rset.json.rowArray.beginArray.isEmpty then
    s.setRowDiag .sHY000 msgInvSrvAns pos noColumnNumber
  else
    let (recs, e) := unpackRowJson s.ird s.rset.json.rowArray.beginArray 0
    let s := { s with ird := recs }
    match e with
    | .inr i => s.setRowDiag .sHY000 msgInvSrvAns pos (i + 1)
    | .inl (_ :: _) => s.setRowDiag .sHY000 msgInvSrvAns pos noColumnNumber
    | .inl [] => s.copyIfBound cv pos

/-- How the loop of `unpack_one_row_cbor` ends, with the iterator in the row. -/
inductive RowEnd where
  | through (it : List Item)
  | err (it : List Item)
deriving Repr

/-- The loop of `unpack_one_row_cbor` over the records of the IRD. -/
def unpackRowCbor : List IRec → List Item → List IRec × RowEnd
  | [], it => ([], .through it)
  | rs, [] => (rs, .err [])
  | r :: rs, x :: xs =>
    let r := { r with iVal := .cbor x }
    match cborValueAdvance (x.untag :: xs) with
    | .ok it =>
      let (rs, e) := unpackRowCbor rs it
      (r :: rs, e)
    | .error _ => (r :: rs, .err (x.untag :: xs))

/-- The rows iterator of a CBOR result set is moved. -/
def setRowsIter (s : Stmt σ) (it : List Item) : Stmt σ :=
  { s with rset := { s.rset with cbor := { s.rset.cbor with rowsIter := it } } }

/-- `unpack_one_row_cbor`, as built with `NDEBUG`. -/
def unpackOneRowCbor (cv : Converters σ) (s : Stmt σ) (pos : Nat) : SqlReturn × Stmt σ :=
  let fail (s : Stmt σ) := s.setRowDiag .sHY000 msgInvSrvAns pos noColumnNumber
  match s.rset.cbor.rowsIter with
  | .array _ elems :: rows =>
    let (recs, e) := unpackRowCbor s.ird elems
    let s := { s with ird := recs }
    match e with
    | .through [] => (s.setRowsIter rows).copyIfBound cv pos
    -- more elements than columns: returns without leaving the row
    | .through (_ :: _) => fail s
    | .err it =>
      match cborValueExitContainer it with
      | .ok _ => fail (s.setRowsIter rows)
      | .error _ => fail s
  | it =>
    match cborValueAdvance it with
    | .ok it => fail (s.setRowsIter it)
    | .error _ => fail s

end Stmt

end EsOdbc
