import EsOdbc.Texts.Integers
import EsOdbc.Timestamp.Print

/-!
# Dates and times of the server as SQL texts

`translate_date_iso8601_to_sql`, `translate_timestamp_iso8601_to_sql` and
`translate_time_iso8601_to_sql`, beside `wstr_to_date_struct`, `wstr_to_timestamp_struct` and
`wstr_to_time_struct` for the same columns.
-/

namespace EsOdbc

open Calendar (Date)

/-! ## The source -/

/-- The units of `buff` in `wstr_to_string`: `INTERVAL_VAL_MAX_LEN`, and one for the terminator. -/
def translateRoom : ℕ := 5 * 11 + 1

/-- `ESODBC_DEF_SEC_PRECISION`. -/
def defSecPrecision : ℕ := 3

/-- `(int)*chars_0 - 1`. -/
def intLength (w : WStr) : ℤ := intOf w.length

/-- `print_timestamp` as the translations call it: without a column size. -/
def printSql (tss : TimestampStruct) : Except SqlState WStr :=
  match printTimestamp tss false 0 defSecPrecision with
  | .done (some text) => .ok text
  | _ => .error .sHY000

/-- `translate_date_iso8601_to_sql`. -/
def translateDateIso8601ToSql (w : WStr) : Access (Except SqlState WStr) :=
  if w.length < dateTemplateLen then ⟨.error .sHY000, false⟩ else ⟨.ok (w.take dateTemplateLen), false⟩

/-- `translate_timestamp_iso8601_to_sql`. -/
def translateTimestampIso8601ToSql (ctx : ZoneContext) (w : WStr) : Access (Except SqlState WStr) :=
  if ctx.applyTz then
    let read := parseIso8601Timestamp ctx false (.wide w)
    ⟨read.result.bind printSql, read.outside⟩
  else
    let n := intLength w
    if n < isoMinLen then ⟨.error .sHY000, false⟩
    -- the last unit is taken for the letter of the zone
    else ⟨.ok (((w.take n.toNat).set dateTemplateLen 0x20).take (n.toNat - 1)), translateRoom < n⟩

/-- `translate_time_iso8601_to_sql`; `junk` is what the buffer of `parse_date_time_ts` holds at first. -/
def translateTimeIso8601ToSql (ctx : ZoneContext) (junk w : WStr) : Access (Except SqlState WStr) :=
  let cnt := intLength w
  if cnt < timeTemplateLen then ⟨.error .sHY000, false⟩
  else if ctx.applyTz ∨ w.getD (cnt.toNat - 1) 0 ≠ 0x5A then
    let read := parseDateTimeTs ctx true junk (.wide (w.take cnt.toNat))
    ⟨read.result.bind fun r ↦ (printSql r.1).map fun text ↦ text.drop (dateTemplateLen + 1),
      read.outside⟩
  else ⟨.ok (w.take (cnt.toNat - 1)), translateRoom < cnt⟩

/-- `DATE_STRUCT`. -/
structure DateStruct where
  year : ℤ
  month : ℕ
  day : ℕ
deriving DecidableEq

/-- `wstr_to_date_struct`, with a place for the value. -/
def wstrToDateStruct (ctx : ZoneContext) (junk : WStr) (column : DateTimeColumn) (w : WStr) :
    Except SqlState (SqlState × DateStruct) :=
  (wstrToTimestampStruct ctx junk column w).result.bind fun r ↦
    let tss := r.1
    if r.2 = .time then .error .s22018
    else if tss.hour ≠ 0 ∨ tss.minute ≠ 0 ∨ tss.second ≠ 0 ∨ tss.fraction ≠ 0 then
      if r.2 = .timestamp then .ok (.s01S07, ⟨tss.year, tss.month, tss.day⟩) else .error .s22018
    else .ok (.s00000, ⟨tss.year, tss.month, tss.day⟩)

/-- `TIME_STRUCT`. -/
structure TimeStruct where
  hour : ℕ
  minute : ℕ
  second : ℕ
deriving DecidableEq

/-- `wstr_to_time_struct`, with a place for the value. -/
def wstrToTimeStruct (ctx : ZoneContext) (junk : WStr) (column : DateTimeColumn) (w : WStr) :
    Except SqlState (SqlState × TimeStruct) :=
  (wstrToTimestampStruct ctx junk column w).result.bind fun r ↦
    let tss := r.1
    if r.2 = .date then .error .s22018
    else .ok (if tss.fraction ≠ 0 then .s01S07 else .s00000, ⟨tss.hour, tss.minute, tss.second⟩)

/-! ## Values of the server -/

/-- A time of the day with a fraction of any length and a zone. -/
structure ServerTime where
  clock : Clock
  frac : Option Digits
  digits : ∀ ds ∈ frac, ds ≠ []
  zone : Zone
  capital : zone ≠ .utc true

def ServerTime.text (t : ServerTime) : WStr := t.clock.text ++ (pointText t.frac ++ t.zone.text)

/-- A timestamp with a fraction of any length and a zone. -/
structure ServerStamp extends ServerTime where
  date : IsoDate

def ServerStamp.text (s : ServerStamp) : WStr := dateText s.date.toDate ++ 0x54 :: s.toServerTime.text

/-- A value of a column: that of a date is a date, or a timestamp. -/
inductive ServerValue where
  | plainDate (d : IsoDate)
  | date (s : ServerStamp)
  | timestamp (s : ServerStamp)
  | time (t : ServerTime)

/-! ## SQL texts of structures -/

def DateStruct.sqlText (d : DateStruct) : WStr :=
  yearText d.year ++ 0x2D :: (zeroPadded 2 d.month ++ 0x2D :: zeroPadded 2 d.day)

def TimeStruct.sqlText (t : TimeStruct) : WStr :=
  zeroPadded 2 t.hour ++ 0x3A :: (zeroPadded 2 t.minute ++ 0x3A :: zeroPadded 2 t.second)

/-- The date and the time up to its seconds. -/
def TimestampStruct.sqlText (t : TimestampStruct) : WStr :=
  DateStruct.sqlText ⟨t.year, t.month, t.day⟩ ++ 0x20 :: TimeStruct.sqlText ⟨t.hour, t.minute, t.second⟩

/-- The text of a fraction, cut to three or more of nine digits. -/
def FractionCut (fraction : ℕ) (w : WStr) : Prop :=
  ∃ k frac, 3 ≤ k ∧ k ≤ 9 ∧ ShortFrac frac ∧ nanos frac = cutFraction k fraction ∧ w = pointText frac

/-- The text is the one of the structure, or there is neither. -/
def Agree {α : Type} (read : Except SqlState α) (text : Except SqlState WStr) (Shown : α → WStr → Prop) :
    Prop :=
  (∀ a, read = .ok a → ∃ w, text = .ok w ∧ Shown a w) ∧ (∀ e, read = .error e → ∃ e', text = .error e')

/-- A context whose local times are dates and times, in no later year than the one that follows those
of four digits, with the same fractions. -/
structure LocalContext extends ZoneContext where
  local_fields : ∀ tss tss', toLocal tss = some tss' →
    ∃ (d : Date) (c : Clock), d.year ≤ 10000 ∧ tss' = stampFields d c tss.fraction

/-- The fields that are read of a time of today: in Greenwich, or local ones. -/
def ServerTime.Fields (ctx : ZoneContext) (t : ServerTime) (tss : TimestampStruct) : Prop :=
  ∃ d c, instant d c = instant ctx.today.toDate t.clock - t.zone.offset * 60 ∧
    (if ctx.applyTz then ctx.toLocal (stampFields d c (nanos t.frac))
      else some (stampFields d c (nanos t.frac))) = some tss

/-- A time that is read is printed behind a date whose year has four digits. -/
def ServerTime.FourDigits (ctx : ZoneContext) (t : ServerTime) : Prop :=
  t.text.length < timestampTemplateLen → ∀ tss, t.Fields ctx tss → tss.year ≤ 9999

/-- A value fetched as text is the one fetched as a structure. -/
def ServerValue.Agrees (ctx : ZoneContext) (junk : WStr) : ServerValue → Prop
  | plainDate d => Agree (wstrToDateStruct ctx junk .date (dateText d.toDate))
      (translateDateIso8601ToSql (dateText d.toDate)).result fun r w ↦ w = r.2.sqlText
  | date s => Agree (wstrToDateStruct ctx junk .date s.text)
      (translateDateIso8601ToSql s.text).result fun r w ↦ w = r.2.sqlText
  | timestamp s => Agree (wstrToTimestampStruct ctx junk .timestamp s.text).result
      (translateTimestampIso8601ToSql ctx s.text).result fun r w ↦
        ∃ point, FractionCut r.1.fraction point ∧ w = r.1.sqlText ++ point
  | time t => Agree (wstrToTimeStruct ctx junk .time t.text)
      (translateTimeIso8601ToSql ctx junk t.text).result fun r w ↦
        ∃ point, FractionCut (nanos t.frac) point ∧ w = r.2.sqlText ++ point

/-- When they agree. -/
def ServerValue.AgreesWhen (ctx : ZoneContext) : ServerValue → Prop
  | plainDate _ => False
  | date s => ShortFrac s.frac ∧ nanos s.frac = 0 ∧ (s.clock.seconds : ℤ) = s.zone.offset * 60
  | timestamp s => ctx.applyTz = true ∨
      (ShortFrac s.frac ∧ s.zone = .utc false) ∨ (¬ShortFrac s.frac ∧ intLength s.text < isoMinLen)
  | time t =>
    (ShortFrac t.frac ∧ (ctx.applyTz = false ∧ t.zone = .utc false ∧
        t.text.length < timestampTemplateLen ∨
      (ctx.applyTz = true ∨ t.zone ≠ .utc false) ∧ t.FourDigits ctx)) ∨
    (¬ShortFrac t.frac ∧ (intLength t.text < timeTemplateLen ∨ intLength t.text = 9 ∨
      (timestampTemplateLen ≤ intLength t.text ∧
        (ctx.applyTz = true ∨ t.zone ≠ .utc false ∨ intLength t.text ≠ t.text.length))))

end EsOdbc
