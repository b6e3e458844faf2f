import EsOdbc.Interval.Literal
import EsOdbc.Params.Number

/-!
# Printing an interval

`print_interval_sql` and `print_interval_iso8601` of `convert.c`.
-/

namespace EsOdbc

open Decimal Binary

/-- `print_interval_sec`: with a fraction, the seconds as a `double`. -/
def printIntervalSec (r : IvlRec) (v : IntVal) : WStr :=
  if v.fraction ≠ 0 ∧ r.precision.val ≠ 0 then
    let dbl := binary64.round ((v.fraction : ℚ) / pow10 r.precision)
    printFixed r.precision (.fin (binary64.round (dbl + v.second)))
  else
    ui64tot v.second

/-- `print_interval_sql`. -/
def printIntervalSql (r : IvlRec) (ivl : SqlInterval) : WStr :=
  let v := ivl.intval
  let sec := printIntervalSec r v
  let minSec := ui64tot v.minute ++ 0x3A :: sec
  (if ivl.intervalSign then [0x2D] else []) ++
    match ivl.intervalType with
    | .year | .day => ui64tot v.yearDay
    | .month | .hour => ui64tot v.monthHour
    | .minute => ui64tot v.minute
    | .second => sec
    | .yearToMonth => ui64tot v.yearDay ++ 0x2D :: ui64tot v.monthHour
    | .dayToHour => ui64tot v.yearDay ++ 0x20 :: ui64tot v.monthHour
    | .dayToMinute =>
      ui64tot v.yearDay ++ 0x20 :: (ui64tot v.monthHour ++ 0x3A :: ui64tot v.minute)
    | .dayToSecond => ui64tot v.yearDay ++ 0x20 :: (ui64tot v.monthHour ++ 0x3A :: minSec)
    | .hourToSecond => ui64tot v.monthHour ++ 0x3A :: minSec
    | .minuteToSecond => minSec
    | .hourToMinute => ui64tot v.monthHour ++ 0x3A :: ui64tot v.minute

/-- `PRINT_FIELD`: a field that is not 0, with a `T` before it if `time`. -/
def printField (sign time : Bool) (n : ℕ) (qualif : UInt16) : WStr :=
  if n = 0 then []
  else (if time then [0x54] else []) ++ ((if sign then [0x2D] else []) ++
    (ui64tot n ++ [qualif]))

/-- `print_interval_iso8601`. -/
def printIntervalIso8601 (r : IvlRec) (ivl : SqlInterval) : WStr :=
  let v := ivl.intval
  let fld := printField ivl.intervalSign
  match ivl.intervalType with
  | .year | .month | .yearToMonth =>
    let text := 0x50 :: (fld false v.yearDay 0x59 ++ fld false v.monthHour 0x4D)
    if text.length ≤ 1 then text ++ [0x30, 0x4D] else text
  | _ =>
    let sec :=
      if v.second = 0 ∧ v.fraction = 0 then []
      else (if v.monthHour = 0 ∧ v.minute = 0 then [0x54] else []) ++
        ((if ivl.intervalSign then [0x2D] else []) ++ (printIntervalSec r v ++ [0x53]))
    let text := 0x50 :: (fld false v.yearDay 0x44 ++ (fld true v.monthHour 0x48 ++
      (fld (v.monthHour = 0) v.minute 0x4D ++ sec)))
    if text.length ≤ 1 then text ++ [0x54, 0x30, 0x53] else text

end EsOdbc
