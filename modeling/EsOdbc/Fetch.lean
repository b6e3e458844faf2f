import EsOdbc.Convertability
import EsOdbc.CopyRow

/-!
# Fetching a rowset

`EsSQLFetch` and the part of `EsSQLExecute` it uses (`queries.c`).  The loop of the fetch
is a step function run with fuel; `EsOdbc.Fetch.Loop` shows that the fuel it is given
always suffices.
-/

namespace EsOdbc

variable {σ : Type}

namespace Stmt

/-- The request that asks for the next page: a cursor of a JSON answer is sent as ASCII
up to its first NUL, and refused if that is not possible. -/
def cursorSerializable (s : Stmt σ) : Bool :=
  !s.rset.packJson || (s.rset.json.curs.takeWhile (· ≠ 0)).all (· ≤ 127)

/-- `curl_post`: an answer is attached; anything else is an error of the request and
leaves the result set as it is. -/
def curlPost (s : Stmt σ) : Exec (SqlReturn × Stmt σ) :=
  match s.replies with
  | .answer a :: replies => attachAnswer { s with replies } a
  | .failed :: replies => .done ({ s with replies }.retHdiag .s08S01 none)
  | [] => .done (s.retHdiag .s08S01 none)

/-- `EsSQLExecute` on a statement with a pending cursor, as the fetch calls it. -/
def esSQLExecute (s : Stmt σ) : Exec (SqlReturn × Stmt σ) :=
  if s.earlyExecuted && s.hasResultset then .done (.success, { s with earlyExecuted := false })
  else
    let s := { s with earlyExecuted := false }
    if s.cursorSerializable then s.curlPost else .done (s.retHdiag .s24000 none)

/-- The check for a further row, in the format the fetch started with: whether there is
none, and the statement, where the JSON iterator has moved.  Reading the JSON iterator of
a CBOR result set is reading a pointer that is none; the CBOR iterator of a JSON result
set lies past the JSON member of the union and reads as zeroes, which is its end. -/
def pollRow (s : Stmt σ) (packJson : Bool) : Exec (Bool × Stmt σ) :=
  if packJson then
    if s.rset.packJson then
      match s.rset.json.rowsIter with
      | [] => .done (true, s)
      | row :: rows =>
        let json := { s.rset.json with rowsIter := rows, rowArray := row }
        .done (false, { s with rset := { s.rset with json } })
    else .undefined
  else .done (s.rset.cbor.rowsIter.isEmpty, s)

/-- `unpack_one_row_json` or `unpack_one_row_cbor`. -/
def unpackOneRow (cv : Converters σ) (s : Stmt σ) (packJson : Bool) (pos : Nat) :
    SqlReturn × Stmt σ :=
  if packJson then s.unpackOneRowJson cv pos else s.unpackOneRowCbor cv pos

/-- The slots of the rowset from `i` on are marked as without a row. -/
def setNorow (s : Stmt σ) (i : Nat) : Stmt σ :=
  { s with arrayStatus := s.arrayStatus.map fun st ↦
      List.mapIdx (fun j x ↦ if i ≤ j ∧ j < s.ard.arraySize then .norow else x) st }

/-- A row has been processed. -/
def countRow (s : Stmt σ) : Stmt σ :=
  { s with rset := { s.rset with vrows := s.rset.vrows + 1 }, tvRows := s.tvRows + 1 }

end Stmt

/-- The variables of the loop of `EsSQLFetch`. -/
structure FetchLoop (σ : Type) where
  stmt : Stmt σ
  packJson : Bool
  i : Nat
  errors : Nat

/-- What one turn of the loop leads to. -/
inductive FetchTurn (σ : Type) where
  /-- The next turn. -/
  | next (l : FetchLoop σ)
  /-- The code after the loop. -/
  | leave (l : FetchLoop σ)
  /-- A `return` inside the loop. -/
  | ret (r : SqlReturn) (s : Stmt σ)
  | undefined

/-- One turn of the loop of `EsSQLFetch`. -/
def fetchTurn (cv : Converters σ) (l : FetchLoop σ) : FetchTurn σ :=
  if l.i < l.stmt.ard.arraySize then
    match l.stmt.pollRow l.packJson with
    | .undefined | .exhausted => .undefined
    | .done (true, s) =>
      if s.hasCursor then
        match s.esSQLExecute with
        | .undefined | .exhausted => .undefined
        | .done (ret, s) =>
          if !ret.succeeded then .ret ret s
          else if !s.nodataForced then .next { l with stmt := s }
          else .leave { l with stmt := s.setNorow l.i }
      else .leave { l with stmt := s.setNorow l.i }
    | .done (false, s) =>
      match s.unpackOneRow cv l.packJson l.i with
      | (ret, s) => .next { l with
          stmt := s.countRow, i := l.i + 1
          errors := if ret.succeeded then l.errors else l.errors + 1 }
  else .leave l

/-- The code of `EsSQLFetch` after the loop. -/
def fetchEnd (l : FetchLoop σ) : SqlReturn × Stmt σ :=
  let s := { l.stmt with rowsProcessed := l.stmt.rowsProcessed.map fun _ ↦ l.i }
  if l.i = 0 then (.noData, s)
  else if 0 < l.errors ∧ l.i ≤ l.errors then (.error, s)
  else (.success, s)

/-- The loop of `EsSQLFetch` and the code after it. -/
def fetchLoop (cv : Converters σ) : Nat → FetchLoop σ → Exec (SqlReturn × Stmt σ)
  | 0, _ => .exhausted
  | fuel + 1, l =>
    match fetchTurn cv l with
    | .next l => fetchLoop cv fuel l
    | .leave l => .done (fetchEnd l)
    | .ret r s => .done (r, s)
    | .undefined => .undefined

/-- How many turns the loop can take at most: one for each slot, one for each reply and
each request that was made before, and one to leave. -/
def FetchLoop.fuel (l : FetchLoop σ) : Nat :=
  (l.stmt.ard.arraySize - l.i) + l.stmt.replies.length + (if l.stmt.earlyExecuted then 1 else 0) + 1

/-- The checks of `EsSQLFetch` in front of the loop: the statement the loop starts with,
or the code the call returns. -/
def fetchChecks (s : Stmt σ) : Exec (Option SqlReturn × Stmt σ) :=
  if !s.hasResultset then
    .done <| if s.nodataForced then (some .noData, s)
      else let (r, s) := s.retHdiag .sHY010 none; (some r, s)
  else match s.sql2cConversion with
    | .violation => let (r, s) := s.retHdiag .s07006 none; .done (some r, s)
    | .unsupported =>
      let (r, s) := s.retHdiag .sHYC00 "Conversion target type not supported"
      .done (some r, s)
    | .skipped | .supported => .done (none, s.gdReset)
    | .unchecked => (convertabilityCheck s).bind fun (r, s) ↦
        .done (if r.succeeded then (none, s.gdReset) else (some r, s))

/-- The loop before its first turn. -/
def Stmt.fetchStart (s : Stmt σ) : FetchLoop σ := ⟨s, s.rset.packJson, 0, 0⟩

/-- `EsSQLFetch`. -/
def esSQLFetch (cv : Converters σ) (s : Stmt σ) : Exec (SqlReturn × Stmt σ) :=
  (fetchChecks s).bind fun
    | (some r, s) => .done (r, s)
    | (none, s) =>
      let l := s.fetchStart
      fetchLoop cv l.fuel l

/-- `EsSQLRowCount`. -/
def esSQLRowCount (s : Stmt σ) : Option Int × SqlReturn × Stmt σ :=
  if !s.hasResultset then (none, s.retHdiag .sHY010 none)
  else
    let count : Option Int :=
      if s.rset.packJson then s.rset.json.rowsObj.map UJValue.lengthArray
      else match s.rset.cbor.rowsObj with
        | some (.array indef items) => match cborGetArrayCount indef items with
          | .ok n => some n
          | .error _ => none
        | _ => none
    match count with
    | none => (none, s.retHdiag .sHY000 none)
    | some n =>
      if s.hasCursor then (some n, s.retHdiag .s01000 "row count is for current row set only")
      else (some n, .success, s)

end EsOdbc
