import EsOdbc.Connect.Catalog
import EsOdbc.Interval.LiteralParse
import EsOdbc.Interval.Print
import EsOdbc.Targets.Double
import EsOdbc.Targets.Numeric
import EsOdbc.Targets.Text
import EsOdbc.Texts.Integers

/-!
# Strings of an answer

`sql2c_string` of `convert.c`: every conversion of a string that the server sends, behind the limit
for character columns.
-/

namespace EsOdbc

open Binary

/-! ## What a string is converted to -/

/-- The C types of `sql2c_string`, those of an interval by what it has. -/
inductive StringTarget where
  | char
  | binary
  | wchar
  | timestamp
  | date
  | time
  | fixed (t : CFixed)
  | float
  | double
  | numeric
  | interval (t : IntervalType)
  | other
deriving DecidableEq, Repr

/-- The column a string is of. -/
inductive StringColumn where
  | plain (column : DateTimeColumn)
  | interval (t : IntervalType)
deriving DecidableEq, Repr

/-- The `concise_type` that the conversions to dates and times look at. -/
def StringColumn.dateTime : StringColumn → DateTimeColumn
  | plain column => column
  | interval _ => .other

/-- A column with characters. -/
def StringColumn.Character : StringColumn → Prop
  | plain column => column = .varchar ∨ column = .char
  | interval _ => False

instance (column : StringColumn) : Decidable column.Character := by
  cases column with
  | plain column => exact inferInstanceAs (Decidable (_ ∨ _))
  | interval t => exact inferInstanceAs (Decidable False)

/-- What is stored of a structure or a floating-point number: the value, not its bytes. -/
inductive StoredValue where
  | timestamp (tss : TimestampStruct)
  | date (ds : DateStruct)
  | time (ts : TimeStruct)
  | real (dbl : Double)
  | numeric (n : NumericStruct)
  | interval (ivl : SqlInterval)
deriving DecidableEq

/-- What a conversion leaves; `value` is at the start of the memory, if there is one. -/
structure StringFetched extends Transferred where
  value : Option StoredValue
deriving DecidableEq

/-- What the conversions of a column look at. -/
structure StringContext where
  zone : ZoneContext
  /-- What the buffer of `parse_date_time_ts` holds at first. -/
  junk : WStr
  octets : OctetContext
  arec : IvlRec
  irec : IvlRec
  precision : Int16
  scale : Int16
  /-- The structure that the application's memory has. -/
  dst : NumericStruct

/-! ## Texts and structures -/

/-- `wstr_to_string`, of a column that may be one of intervals. -/
def wstrToText (s : StringContext) (width : Width) (column : StringColumn) (w : WStr)
    (gdOfft : Option ℤ) (app : AppSide) : Exec Transferred :=
  match column with
  | .plain column => wstrToString s.zone s.junk s.octets width column w gdOfft app
  | .interval t =>
    -- `interval_iso8601_to_sql`
    match parseIntervalIso8601 (Int16.ofNat s.irec.precision) t w with
    | .error .undefined => .undefined
    | .error (.fail state) => .done ⟨state, app, gdOfft⟩
    | .ok read => wstrToXstr s.octets width (printIntervalSql s.irec read.2) gdOfft app

/-- A conversion to a structure of so many bytes: the length is there before the value. -/
def toStruct {α : Type} (size : ℕ) (stored : α → StoredValue)
    (read : Access (Except SqlState (SqlState × α))) (gdOfft : Option ℤ) (app : AppSide) :
    Exec StringFetched :=
  let app := { app with octetLen := app.octetLen.map fun _ ↦ size }
  if app.data = none then .done ⟨⟨.s00000, app, gdOfft⟩, none⟩
  else if read.outside then .undefined
  else
    match read.result with
    | .error state => .done ⟨⟨state, app, gdOfft⟩, none⟩
    | .ok found => .done ⟨⟨found.1, app, gdOfft⟩, some (stored found.2)⟩

/-! ## Numbers -/

/-- Whether the loop of `str2ubigint` ends with `ERANGE`, at position `i` with `res` read. -/
def erangeSteps (i res : ℕ) : WStr → Bool
  | [] => false
  | c :: rest =>
    match digitOf c with
    | none => false
    | some digit =>
      if i < precisionUInt64 - 1 then erangeSteps (i + 1) (res * 10 + digit) rest
      else if ullongMax / 10 < res ∨ ullongMax - res * 10 < digit then true
      else erangeSteps (i + 1) (res * 10 + digit) rest

/-- Whether a strict parser that fails leaves `ERANGE` in `errno`. -/
def leavesErange (signed : Bool) (val : WStr) : Exec Bool :=
  let ubigint (val : WStr) : Bool :=
    if val.head? = some 0x2B then erangeSteps 1 0 val.tail else erangeSteps 0 0 val
  if signed then
    let val := if (val.head?.bind signOf).isSome then val.tail else val
    -- a number that is read is out of the limits
    (str2ubigintCall val true).bind fun read ↦ .done (0 < read.ret || ubigint val)
  else .done (ubigint val)

/-- `sql2c_longlong`. -/
def sql2cLonglong (c : OctetContext) (t : CFixed) (ll : ℤ) (app : AppSide) : SqlState × AppSide :=
  sql2cQuadword c (.fixed t) (UInt64.ofInt ll) false app

/-- The cases of the integer types, of a text that is trimmed. -/
def wstrToInteger (c : OctetContext) (t : CFixed) (wval : WStr) (app : AppSide) :
    Exec (SqlState × AppSide) :=
  let failed (signed : Bool) : Exec (SqlState × AppSide) :=
    (leavesErange signed wval).bind fun erange ↦ .done (if erange then .s22003 else .s22018, app)
  if t.signed then
    (str2bigintCall wval true).bind fun read ↦
      if read.ret < 0 then failed true
      else (Exec.ofOption read.out).bind fun ll ↦ .done (sql2cLonglong c t ll app)
  else
    (str2ubigintCall wval true).bind fun read ↦
      if read.ret ≤ 0 then failed false
      else (Exec.ofOption read.out).bind fun ull ↦
        if ull ≤ llongMax then .done (sql2cLonglong c t ull app)
        else if t = .ubigint then
          if app.data = none then .done (.sHY009, app)
          else .done (.s00000, (app.poke (LittleEndian.intBytes 8 ull)).writeOutOctets c 8)
        else .done (.s22003, app)

/-- The cast of a `double` to `SQLREAL`. -/
def realOf : Double → Double
  | .fin q => .fin (binary32.round q)
  | dbl => dbl

/-- The cases `SQL_C_FLOAT`, `SQL_C_DOUBLE` and `SQL_C_NUMERIC` of `sql2c_double`. -/
def sql2cReal (s : StringContext) (target : StringTarget) (dbl : Double) (gdOfft : Option ℤ)
    (app : AppSide) : Exec StringFetched :=
  let put (state : SqlState) (octets : ℕ) (value : StoredValue) : Exec StringFetched :=
    .done ⟨⟨state, app.writeOutOctets s.octets octets, gdOfft⟩, some value⟩
  if app.data = none then .done ⟨⟨.sHY009, app, gdOfft⟩, none⟩
  else if target = .numeric then
    (doubleToNumeric s.precision s.scale dbl s.dst).bind fun n ↦
      if n.1.retcode.succeeded then put n.1 19 (.numeric n.2)
      else .done ⟨⟨n.1, app, gdOfft⟩, some (.numeric n.2)⟩
  else if target = .float then
    if isTrue dbl ∧ (dbl.abs.lt (.fin fltMin) ∨ Double.lt (.fin fltMax) dbl.abs) then
      .done ⟨⟨.s22003, app, gdOfft⟩, none⟩
    else put .s00000 4 (.real (realOf dbl))
  else put .s00000 8 (.real dbl)

/-- The cases of `sql2c_string` that read a `double`, of a text without blanks before it. -/
def wstrToReal (s : StringContext) (target : StringTarget) (w : WStr) (gdOfft : Option ℤ)
    (app : AppSide) : Exec StringFetched :=
  let wval := (trimWs true w).2
  let text := wltrimWs w
  let read := strtod text
  if wval = [] ∨ text.length - read.2.1.length ≠ wval.length ∨ read.2.2 then
    .done ⟨⟨if read.2.2 then .s22003 else .s22018, app, gdOfft⟩, none⟩
  else if target = .fixed .bit then
    (sql2cDouble s.octets .bit read.1 app).bind fun out ↦ .done ⟨⟨out.1, out.2, gdOfft⟩, none⟩
  else sql2cReal s target read.1 gdOfft app

/-! ## `sql2c_string` -/

/-- `varchar_limit_apply`: the memory of the string, and the units that are left. -/
def varcharLimitApply (limit : ℕ) (mem : WStr) : WStr × WStr :=
  (if limit ≤ 0 ∨ mem.length ≤ limit then mem else mem.set limit 0, varcharLimited limit mem)

/-- `sql2c_string` behind `varchar_limit_apply`. -/
def convertString (s : StringContext) (column : StringColumn) (target : StringTarget) (w : WStr)
    (gdOfft : Option ℤ) (app : AppSide) : Exec StringFetched :=
  let text (width : Width) : Exec StringFetched :=
    (wstrToText s width column w gdOfft app).bind fun sent ↦ .done ⟨sent, none⟩
  let stamp := wstrToTimestampStruct s.zone s.junk column.dateTime w
  let wval := (trimWs true w).2
  match target with
  | .char => text .narrow
  | .binary | .wchar => text .wide
  | .timestamp =>
    toStruct 16 .timestamp ⟨stamp.result.map fun r ↦ (.s00000, r.1), stamp.outside⟩ gdOfft app
  | .date =>
    toStruct 6 .date ⟨wstrToDateStruct s.zone s.junk column.dateTime w, stamp.outside⟩ gdOfft app
  | .time =>
    toStruct 6 .time ⟨wstrToTimeStruct s.zone s.junk column.dateTime w, stamp.outside⟩ gdOfft app
  | .float | .double | .numeric | .fixed .bit => wstrToReal s target w gdOfft app
  | .fixed t =>
    (wstrToInteger s.octets t wval app).bind fun out ↦ .done ⟨⟨out.1, out.2, gdOfft⟩, none⟩
  | .interval t =>
    if app.data = none then .done ⟨⟨.sHY009, app, gdOfft⟩, none⟩
    else
      let app := app.writeOutOctets s.octets 8
      match sql2cInterval s.arec (column = .plain .varchar) t wval with
      | .error .undefined => .undefined
      | .error (.fail state) => .done ⟨⟨state, app, gdOfft⟩, none⟩
      | .ok read =>
        let state : SqlState := if read.1 = .success then .s00000 else .s01S07
        .done ⟨⟨state, app, gdOfft⟩, some (.interval read.2)⟩
  | .other => .done ⟨⟨.sHY000, app, gdOfft⟩, none⟩

/-- `sql2c_string`: the memory of the string as the call leaves it, and what the call comes to. -/
def sql2cString (limit : ℕ) (s : StringContext) (column : StringColumn) (target : StringTarget)
    (mem : WStr) (gdOfft : Option ℤ) (app : AppSide) : WStr × Exec StringFetched :=
  let applied := varcharLimitApply limit mem
  (applied.1, convertString s column target applied.2 gdOfft app)

end EsOdbc
