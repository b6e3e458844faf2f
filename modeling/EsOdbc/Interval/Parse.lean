import EsOdbc.Error
import EsOdbc.Numbers

/-!
# Decoding an ISO 8601 interval

`parse_interval_iso8601` of `convert.c` and what it calls, as the release build for
Windows computes it: `SQLUINTEGER` has 32 bits, and the assertions are not there.
-/

namespace EsOdbc

/-- The fields of an interval, by their `SQL_IS_..` codes. -/
inductive IvlField where
  | year | month | day | hour | minute | second
deriving DecidableEq, Repr

/-- The interval types, in the order of their codes. -/
inductive IntervalType where
  | year | month | day | hour | minute | second
  | yearToMonth
  | dayToHour | dayToMinute | dayToSecond
  | hourToMinute | hourToSecond
  | minuteToSecond
deriving DecidableEq, Repr

/-- `type2bm`. -/
def type2bm : IntervalType → Finset IvlField
  | .year => {.year}
  | .month => {.month}
  | .day => {.day}
  | .hour => {.hour}
  | .minute => {.minute}
  | .second => {.second}
  | .yearToMonth => {.year, .month}
  | .dayToHour => {.day, .hour}
  | .dayToMinute => {.day, .hour, .minute}
  | .dayToSecond => {.day, .hour, .minute, .second}
  | .hourToMinute => {.hour, .minute}
  | .hourToSecond => {.hour, .minute, .second}
  | .minuteToSecond => {.minute, .second}

/-- `intval`: the members `year_month` and `day_second` share their storage, so that the
year lies where the day does and the month where the hour does. -/
structure IntVal where
  yearDay : ℕ
  monthHour : ℕ
  minute : ℕ
  second : ℕ
  fraction : ℕ
deriving DecidableEq, Repr

def IntVal.zero : IntVal := ⟨0, 0, 0, 0, 0⟩

/-- Writing the field of a code. -/
def IntVal.set (v : IntVal) (n : ℕ) : IvlField → IntVal
  | .year | .day => { v with yearDay := n }
  | .month | .hour => { v with monthHour := n }
  | .minute => { v with minute := n }
  | .second => { v with second := n }

/-- `SQL_INTERVAL_STRUCT`. -/
structure SqlInterval where
  intervalType : IntervalType
  intervalSign : Bool
  intval : IntVal
deriving DecidableEq, Repr

/-- `ULONG_MAX`. -/
def ulongMax : ℕ := 2 ^ 32 - 1

/-- `adjust_to_precision`: the value in 64 bits, and the code the caller returns. -/
def adjustToPrecision (precision : Int16) (val : ℕ) (precHave : Int16) : ℕ × SqlReturn :=
  if precHave < precision then
    (val * pow10 (precision.toInt - precHave.toInt).toNat % 2 ^ 64, .success)
  else
    (val / pow10 (precHave.toInt - precision.toInt).toNat, SqlState.s01S07.retcode)

/-- `state`. -/
inductive IvlState where
  | uninited | period | time | number
deriving DecidableEq, Repr

/-- The variables of the loop; of a number that was read, `ret` and `has_fraction`. -/
structure IvlScan where
  state : IvlState
  saved : IvlState
  sign : ℤ
  uint : ℕ
  fraction : ℕ
  last : Option (SqlReturn × Bool)
  fields : Finset IvlField
  intval : IntVal
deriving DecidableEq

def IvlScan.init : IvlScan := ⟨.uninited, .uninited, 0, 0, 0, none, ∅, .zero⟩

/-- The part of `parse_iso8601_number` after a `.` at position `digits`: the fraction, the
return code, and the position after it. -/
def parseFraction (precision : Int16) (wstr : WStr) (digits : ℕ) :
    Option (ℕ × SqlReturn × ℕ) :=
  if wstr.length ≤ digits + 1 then
    none
  else
    match str2ubigint (wstr.drop (digits + 1)) false with
    | none => none
    | some (ubint, fdigits) =>
      if ulongMax < ubint then
        none
      else
        let adjusted := adjustToPrecision precision ubint (Int16.ofNat fdigits)
        some (adjusted.1 % 2 ^ 32, adjusted.2, digits + (fdigits + 1))

/-- The end of `parse_iso8601_number`: the value and its sign are taken over.  Negating
`LLONG_MIN` leaves it as it is. -/
def takeNumber (bint : ℤ) (s : IvlScan) : Option IvlScan :=
  let inc : ℤ := if bint < 0 then -1 else 1
  let bint := if bint < 0 then (-bint).bmod (2 ^ 64) else bint
  if (ulongMax : ℤ) < bint then
    none
  else if s.sign ≠ 0 ∧ (decide (inc < 0) ≠ decide (s.sign < 0)) then
    none
  else
    some { s with uint := (bint % 2 ^ 32).toNat, sign := s.sign + inc }

/-- `parse_iso8601_number`, with the count of units it moves on by. -/
def parseIso8601Number (precision : Int16) (wstr : WStr) (s : IvlScan) :
    Option (IvlScan × ℕ) :=
  match str2bigint wstr false with
  | none => none
  | some (bint, digits) =>
    match wstr[digits]? with
    | none => none
    | some next =>
      if next = 0x2E then
        let bint := if digits = 0 then 0 else bint
        match parseFraction precision wstr digits with
        | none => none
        | some (fraction, ret, stop) =>
          (takeNumber bint { s with fraction, last := some (ret, true) }).map fun s ↦ (s, stop)
      else
        (takeNumber bint { s with last := some (.success, false) }).map fun s ↦ (s, digits)

/-- `ASSIGN_FIELD`. -/
def assignField (prev : IvlState) (f : IvlField) (s : IvlScan) : Option IvlScan :=
  if s.state ≠ .number ∨ s.saved ≠ prev then
    none
  else if f ≠ .second ∧ s.last.any (·.2) then
    none
  else if f ∈ s.fields then
    none
  else
    some { s with
      fields := insert f s.fields
      intval := s.intval.set s.uint f
      state := s.saved }

/-- The classes of the `switch`, on a unit with bit `0x20` set. -/
inductive IvlUnit where
  | p | t | number | y | m | d | h | s | other
deriving DecidableEq, Repr

def ivlUnit (c : UInt16) : IvlUnit :=
  let c := c ||| 0x20
  if c = 0x70 then .p
  else if c = 0x74 then .t
  else if c = 0x2B ∨ c = 0x2D ∨ c = 0x2E ∨ (0x30 ≤ c ∧ c ≤ 0x39) then .number
  else if c = 0x79 then .y
  else if c = 0x6D then .m
  else if c = 0x64 then .d
  else if c = 0x68 then .h
  else if c = 0x73 then .s
  else .other

/-- One turn of the loop at `text`: the state after it and the count of units moved on by.
No result stands for `err_parse` and `err_format`. -/
def ivlTurn (precision : Int16) (text : WStr) (s : IvlScan) : IvlUnit → Option (IvlScan × ℕ)
  | .p => if s.state ≠ .uninited then none else some ({ s with state := .period }, 1)
  | .t => if s.state ≠ .period then none else some ({ s with state := .time }, 1)
  | .number =>
    if s.state ≠ .period ∧ s.state ≠ .time then
      none
    else
      (parseIso8601Number precision text s).map fun r ↦
        ({ r.1 with saved := r.1.state, state := .number }, r.2)
  | .y => (assignField .period .year s).map (·, 1)
  | .m =>
    if s.saved = .period then (assignField .period .month s).map (·, 1)
    else (assignField .time .minute s).map (·, 1)
  | .d => (assignField .period .day s).map (·, 1)
  | .h => (assignField .time .hour s).map (·, 1)
  | .s =>
    (assignField .time .second s).map fun s ↦
      (if s.last.any (·.2) then { s with intval := { s.intval with fraction := s.fraction } }
        else s, 1)
  | .other => none

/-- The loop, `skip` units short of the next turn.  A number of no units leaves the loop at
the same unit in `ST_NUMBER`, where it is an error. -/
def ivlLoop (precision : Int16) : ℕ → WStr → IvlScan → Option IvlScan
  | _, [], s => some s
  | skip + 1, _ :: rest, s => ivlLoop precision skip rest s
  | 0, c :: rest, s =>
    match ivlTurn precision (c :: rest) s (ivlUnit c) with
    | some (s, n + 1) => ivlLoop precision n rest s
    | _ => none

/-- `ULONG_SAFE_ADD`. -/
def ulongSafeAdd (a b : ℕ) : Option ℕ := if ulongMax - b < a then none else some (a + b)

/-- The fields of an interval in seconds; each product is one of 32 bits. -/
def intervalSecs (v : IntVal) : Option ℕ :=
  ((ulongSafeAdd v.second (60 * v.minute % 2 ^ 32)).bind fun secs ↦
    ulongSafeAdd secs (3600 * v.monthHour % 2 ^ 32)).bind fun secs ↦
      ulongSafeAdd secs (24 * 3600 * v.yearDay % 2 ^ 32)

/-- The carries from `secs` to the fields `bm` of the interval type. -/
def carryMinute (bm : Finset IvlField) (secs : ℕ) (v : IntVal) : IntVal :=
  if .minute ∈ bm then
    if v.second ≠ 0 then { v with minute := v.second / 60, second := secs % 60 }
    else { v with minute := secs / 60 }
  else v

@[inherit_doc carryMinute]
def carryHour (bm : Finset IvlField) (secs : ℕ) (v : IntVal) : IntVal :=
  if .hour ∈ bm then
    if v.minute ≠ 0 then { v with monthHour := v.minute / 60, minute := v.minute % 60 }
    else { v with monthHour := secs / 3600 }
  else v

@[inherit_doc carryMinute]
def carryDay (bm : Finset IvlField) (secs : ℕ) (v : IntVal) : IntVal :=
  if .day ∈ bm then
    if v.monthHour ≠ 0 then { v with yearDay := v.monthHour / 24, monthHour := v.monthHour % 24 }
    else { v with yearDay := secs / (24 * 3600) }
  else v

/-- The values of the fields `bm` for `secs` seconds and a fraction. -/
def rebalance (bm : Finset IvlField) (secs fraction : ℕ) : IntVal :=
  let v := { IntVal.zero with fraction }
  let v := if .second ∈ bm then { v with second := secs } else v
  carryDay bm secs (carryHour bm secs (carryMinute bm secs v))

/-- What ends a call other than a result: an error, or a read of a variable that was not
set, which no number leaves `ret` and `has_fraction` as. -/
inductive Halt where
  | fail (state : SqlState)
  | undefined
deriving DecidableEq, Repr

/-- The interval the loop has read, under the fields of its type. -/
def normalizeInterval (bm : Finset IvlField) (s : IvlScan) :
    Except Halt (IntVal × Finset IvlField) :=
  if bm ≠ s.fields ∧ .year ∉ bm ∧ .month ∉ bm then
    match intervalSecs s.intval with
    | none => .error (.fail .s22015)
    | some secs =>
      if .second ∈ bm then
        .ok (rebalance bm secs s.fraction, bm)
      else
        match s.last with
        | none => .error .undefined
        | some (_, true) => .error (.fail .s22018)
        | some (_, false) => .ok (rebalance bm secs s.fraction, bm)
  else
    .ok (s.intval, s.fields)

/-- `parse_interval_iso8601`. -/
def parseIntervalIso8601 (precision : Int16) (ctype : IntervalType) (wstr : WStr) :
    Except Halt (SqlReturn × SqlInterval) :=
  match ivlLoop precision 0 wstr .init with
  | none => .error (.fail .s22018)
  | some s =>
    if s.state ≠ .period ∧ s.state ≠ .time then
      .error (.fail .s22018)
    else
      match normalizeInterval (type2bm ctype) s with
      | .error e => .error e
      | .ok (v, fields) =>
        if ¬ fields ⊆ type2bm ctype then
          .error (.fail .s22018)
        else
          match s.last with
          | none => .error .undefined
          | some (ret, _) => .ok (ret, ⟨ctype, decide (s.sign < 0), v⟩)

end EsOdbc
