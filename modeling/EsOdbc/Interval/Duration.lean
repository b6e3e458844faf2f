import EsOdbc.Interval.Parse

/-!
# Durations and what they are worth

The durations and periods of ISO 8601, with the liberties other writers take: a sign on
every number or on the whole, letters of either case, a comma before a fraction, a
fraction of any unit.  A duration is worth months and seconds, which do not convert into
each other.
-/

namespace EsOdbc

open Decimal (ofDigits)

/-- A number of a duration, as it is written. -/
structure Amount where
  /-- Of a sign, whether it is `-`. -/
  sign : Option Bool
  whole : List (Fin 10)
  /-- A fraction's digits, and whether a comma comes before them. -/
  frac : Option (Bool × List (Fin 10))
  /-- Whether the letter of the unit is in lower case. -/
  lower : Bool
  written : whole ≠ [] ∨ frac.any (·.2 ≠ []) = true
deriving DecidableEq

namespace Amount

def negative (a : Amount) : Bool := a.sign == some true

/-- The digits of the fraction. -/
def digits (a : Amount) : List (Fin 10) := (a.frac.map (·.2)).getD []

/-- The magnitude of a whole part `n` and a fraction of digits `ds`. -/
def magnitude (n : ℕ) (ds : List (Fin 10)) : ℚ := n + ofDigits ds / 10 ^ ds.length

/-- What is written, of the fraction the first `p` digits. -/
def valueTo (p : ℕ) (a : Amount) : ℚ :=
  (if a.negative then -1 else 1) * magnitude (ofDigits a.whole) (a.digits.take p)

/-- What is written. -/
def value (a : Amount) : ℚ :=
  (if a.negative then -1 else 1) * magnitude (ofDigits a.whole) a.digits

def signText (a : Amount) : WStr :=
  a.sign.elim [] fun neg ↦ [if neg then 0x2D else 0x2B]

def fracText (a : Amount) : WStr :=
  a.frac.elim [] fun f ↦ (if f.1 then 0x2C else 0x2E) :: digitUnits f.2

def text (a : Amount) : WStr := a.signText ++ (digitUnits a.whole ++ a.fracText)

end Amount

/-- The units of a duration. -/
inductive DurationUnit where
  | year | month | week | day | hour | minute | second
deriving DecidableEq, Repr

/-- A letter, `c` in lower case. -/
def letter (c : UInt16) (lower : Bool) : UInt16 := if lower then c else c - 0x20

def DurationUnit.letter : DurationUnit → Bool → UInt16
  | .year => EsOdbc.letter 0x79
  | .month | .minute => EsOdbc.letter 0x6D
  | .week => EsOdbc.letter 0x77
  | .day => EsOdbc.letter 0x64
  | .hour => EsOdbc.letter 0x68
  | .second => EsOdbc.letter 0x73

/-- The field of an interval with a unit. -/
def DurationUnit.field : DurationUnit → Option IvlField
  | .year => some .year
  | .month => some .month
  | .week => none
  | .day => some .day
  | .hour => some .hour
  | .minute => some .minute
  | .second => some .second

/-- A duration: some numbers, each with its unit, in the order of the units. -/
structure Duration where
  /-- Of a sign of the whole, whether it is `-`. -/
  sign : Option Bool
  lowerP : Bool
  lowerT : Bool
  year : Option Amount
  month : Option Amount
  week : Option Amount
  day : Option Amount
  hour : Option Amount
  minute : Option Amount
  second : Option Amount
  written : (year <|> month <|> week <|> day <|> hour <|> minute <|> second).isSome = true
deriving DecidableEq

namespace Duration

/-- The numbers with unit `u`. -/
def one (u : DurationUnit) (a : Option Amount) : List (DurationUnit × Amount) :=
  a.toList.map (u, ·)

def dates (d : Duration) : List (DurationUnit × Amount) :=
  one .year d.year ++ one .month d.month ++ one .week d.week ++ one .day d.day

def times (d : Duration) : List (DurationUnit × Amount) :=
  one .hour d.hour ++ one .minute d.minute ++ one .second d.second

/-- The numbers that are written. -/
def amounts (d : Duration) : List (DurationUnit × Amount) := d.dates ++ d.times

def amountText (x : DurationUnit × Amount) : WStr := x.2.text ++ [x.1.letter x.2.lower]

/-- The text of a duration. -/
def text (d : Duration) : WStr :=
  d.sign.elim [] (fun neg ↦ [if neg then 0x2D else 0x2B]) ++
    letter 0x70 d.lowerP :: (d.dates.flatMap amountText ++
      if d.times = [] then [] else letter 0x74 d.lowerT :: d.times.flatMap amountText)

/-- Months and seconds of the values `f` gives to the numbers. -/
def worth (d : Duration) (f : Amount → ℚ) : ℚ × ℚ :=
  let v (a : Option Amount) : ℚ := (a.map f).getD 0
  let sgn : ℚ := if d.sign = some true then -1 else 1
  (sgn * (12 * v d.year + v d.month),
    sgn * (604800 * v d.week + 86400 * v d.day + 3600 * v d.hour + 60 * v d.minute + v d.second))

/-- What a duration is worth. -/
def value (d : Duration) : ℚ × ℚ := d.worth Amount.value

/-- What it is worth without the digits after the first `p` of every fraction. -/
def valueTo (p : ℕ) (d : Duration) : ℚ × ℚ := d.worth (Amount.valueTo p)

end Duration

/-- What an interval is worth to a reader of the fields its type has, with `p` digits to a
fraction of a second. -/
def SqlInterval.value (p : ℕ) (i : SqlInterval) : ℚ × ℚ :=
  let part (f : IvlField) (n : ℕ) : ℚ := if f ∈ type2bm i.intervalType then n else 0
  let sgn : ℚ := if i.intervalSign then -1 else 1
  (sgn * (12 * part .year i.intval.yearDay + part .month i.intval.monthHour),
    sgn * (86400 * part .day i.intval.yearDay + 3600 * part .hour i.intval.monthHour +
      60 * part .minute i.intval.minute +
      (part .second i.intval.second + part .second i.intval.fraction / 10 ^ p)))

/-- The decoding of a duration keeps its value: all of it on success, all but digits of the
fraction when a truncation is reported; anything else is an error. -/
def KeepsValue (precision : Int16) (d : Duration) :
    Except Halt (SqlReturn × SqlInterval) → Prop
  | .ok (.success, i) => i.value precision.toInt.toNat = d.value
  | .ok (.successWithInfo, i) => i.value precision.toInt.toNat = d.valueTo precision.toInt.toNat
  | .ok _ => False
  | .error (.fail s) => s.retcode = .error
  | .error .undefined => False

end EsOdbc
