import EsOdbc.Blanks
import EsOdbc.Error
import EsOdbc.Timestamp.Instant

/-!
# Dates, times and timestamps in texts

`parse_date_time_ts` and `wstr_to_timestamp_struct` of `convert.c`, with `ascii_w2c` of `util.c`
and `parse_iso8601_timestamp`.  A result comes with whether memory was read or written that is
neither a buffer of the function nor its source.
-/

namespace EsOdbc

/-- A result, and whether other memory was touched on the way to it. -/
structure Access (α : Type) where
  result : α
  outside : Bool
deriving DecidableEq, Repr

/-- The loop of `ascii_w2c`, at unit `i`: the count returned, and the units written. -/
def asciiW2cLoop (i : ℕ) : WStr → ℤ × WStr
  | [] => (i + 1, [0])
  | c :: src =>
    if 127 < c then (-(i + 1), [])
    else if c = 0 then (i + 1, [0])
    else
      let rest := asciiW2cLoop (i + 1) src
      (rest.1, c :: rest.2)

/-- `ascii_w2c`, as the count it returns and the units it writes. -/
def asciiW2cWrites (src : WStr) : ℤ × WStr := if src = [] then (-1, []) else asciiW2cLoop 0 src

/-- A string: wide, or narrow with the count of units behind it that are its own. -/
inductive XStr where
  | wide (w : WStr)
  | narrow (s : WStr) (room : ℕ)
deriving DecidableEq, Repr

/-- `timestamp_parse`, then `timestamp_to_tm_utc`. -/
def timestampFields (s : WStr) : Except TimestampFault TimestampStruct :=
  (timestampParse s).bind fun tsp ↦ (timestampToTmUtc tsp).elim (.error .malformed) .ok

/-- The length of a timestamp: `ISO8601_TIMESTAMP_MIN_LEN` and `ISO8601_TIMESTAMP_MAX_LEN`. -/
def isoMinLen : ℕ := 20

@[inherit_doc isoMinLen]
def isoMaxLen : ℕ := 35

/-- `DATE_TEMPLATE_LEN`. -/
def dateTemplateLen : ℕ := 10

/-- `TIME_TEMPLATE_LEN(0)`. -/
def timeTemplateLen : ℕ := 8

/-- `TIMESTAMP_TEMPLATE_LEN(0)`. -/
def timestampTemplateLen : ℕ := 19

/-- What a conversion depends on besides its source: the setting `apply_tz`, `current_date`, and
the conversions between UTC and the local zone, which may fail. -/
structure ZoneContext where
  applyTz : Bool
  today : IsoDate
  toLocal : TimestampStruct → Option TimestampStruct
  toUtc : TimestampStruct → Option TimestampStruct

/-- `tm_utc_to_local` and `tss_local_to_utc`. -/
def shifted (conv : TimestampStruct → Option TimestampStruct) (tss : TimestampStruct) :
    Except SqlState TimestampStruct := (conv tss).elim (.error .s22008) .ok

/-- The text that `parse_iso8601_timestamp` has at hand, which lies in memory with `room` units
behind it. -/
def isoFields (s : WStr) (room : ℕ) : Access (Except SqlState TimestampStruct) :=
  match timestampFields s with
  | .ok tss => ⟨.ok tss, false⟩
  | .error .malformed => ⟨.error .s22007, false⟩
  | .error (.pastEnd behind) => ⟨.error .s22007, decide (room ≤ behind)⟩

/-- `parse_iso8601_timestamp`.  A count that is negative ends the text in front of its start: the
parser stops within the buffer, with an error. -/
def parseIso8601Timestamp (ctx : ZoneContext) (toUtc : Bool) (src : XStr) :
    Access (Except SqlState TimestampStruct) :=
  let read : Access (Except SqlState TimestampStruct) :=
    match src with
    | .wide w =>
      if w.length < isoMinLen ∨ isoMaxLen < w.length then ⟨.error .s22007, false⟩
      else
        let conv := asciiW2cWrites w
        if conv.1 < 1 then ⟨.error .s22007, decide (isoMaxLen + 1 < conv.2.length)⟩
        else
          let cnt := (conv.1 - 1).toNat
          let parsed := isoFields (conv.2.take cnt) (isoMaxLen + 1 - cnt)
          ⟨parsed.result, parsed.outside || decide (isoMaxLen + 1 < conv.2.length)⟩
    | .narrow s room =>
      if s.length < isoMinLen ∨ isoMaxLen < s.length then ⟨.error .s22007, false⟩
      else isoFields s room
  ⟨read.result.bind fun tss ↦ if toUtc then .ok tss else shifted ctx.toLocal tss, read.outside⟩

/-- The classes that are told apart. -/
inductive DateTimeType where
  | time
  | date
  | timestamp
deriving DecidableEq, Repr

/-- `templ`. -/
def templ : WStr :=
  [0x31, 0x39, 0x37, 0x30, 0x2D, 0x30, 0x31, 0x2D, 0x30, 0x31, 0x54, 0x30, 0x30, 0x3A, 0x30, 0x30,
    0x3A, 0x30, 0x30, 0x2E, 0x30, 0x30, 0x30, 0x30, 0x30, 0x30, 0x30, 0x30, 0x30, 0x2B, 0x30, 0x30,
    0x3A, 0x30, 0x30]

/-- Whether a time ends in its zone. -/
def timeHasZone (td : WStr) : Bool :=
  td.getD (td.length - 1) 0 = 0x5A || td.getD (td.length - 6) 0 = 0x2B ||
    td.getD (td.length - 6) 0 = 0x2D

/-- The analysis of a text: its class, whether it is as ISO 8601 has it, and the text of a
timestamp that is made of it. -/
def classify (today : IsoDate) (td : WStr) : Option (DateTimeType × Bool × WStr) :=
  if timestampTemplateLen ≤ td.length then
    if td.getD dateTemplateLen 0 = 0x20 then
      some (.timestamp, false, td.set dateTemplateLen 0x54 ++ [0x5A])
    else some (.timestamp, true, td)
  else if timeTemplateLen ≤ td.length ∧ td.getD 2 0 = 0x3A ∧ td.getD 5 0 = 0x3A then
    let head := dateText today.toDate ++ 0x54 :: td
    if timeHasZone td then some (.time, true, head) else some (.time, false, head ++ [0x5A])
  else if dateTemplateLen ≤ td.length ∧ td.getD 4 0 = 0x2D ∧ td.getD 7 0 = 0x2D then
    some (.date, true, td ++ templ.drop td.length)
  else none

/-- What is done to the fields once they are read. -/
def adjusted (ctx : ZoneContext) (sql2c : Bool) (fmt : DateTimeType) (srcIso : Bool)
    (tss : TimestampStruct) : Except SqlState TimestampStruct :=
  if fmt = .date then .ok { tss with hour := 0, minute := 0, second := 0, fraction := 0 }
  else if ctx.applyTz then
    if sql2c then if srcIso then shifted ctx.toLocal tss else .ok tss
    else if srcIso then .ok tss else shifted ctx.toUtc tss
  else .ok tss

/-- `parse_date_time_ts`, from where its text is narrow.  The text is in a buffer or belongs to
the caller; `room` units lie behind it. -/
def dateTimeOf (ctx : ZoneContext) (sql2c : Bool) (td : WStr) (buffer : Bool) (room : ℕ) :
    Access (Except SqlState (TimestampStruct × DateTimeType)) :=
  (classify ctx.today td).elim ⟨.error .s22007, false⟩ fun found ↦
    let fmt := found.1
    let srcIso := found.2.1
    let text := found.2.2
    let room' := if fmt = .timestamp then room - (text.length - td.length)
      else templ.length + 1 - text.length
    let parsed := parseIso8601Timestamp ctx true (.narrow text room')
    ⟨parsed.result.bind fun tss ↦ (adjusted ctx sql2c fmt srcIso tss).map (·, fmt),
      -- a separator and a letter are written into the text
      (fmt = .timestamp && !srcIso && !(buffer && decide (0 < room))) || parsed.outside⟩

/-- `parse_date_time_ts`; `junk` is what its buffer `w2c` holds at first. -/
def parseDateTimeTs (ctx : ZoneContext) (sql2c : Bool) (junk : WStr) :
    XStr → Access (Except SqlState (TimestampStruct × DateTimeType))
  | .wide w =>
    let conv := asciiW2cWrites w
    let overrun := decide (isoMaxLen < conv.2.length)
    if conv.1 < 1 then
      -- the count wraps around: the letter is written in front of the buffer
      let w2c := conv.2 ++ junk.drop conv.2.length
      ⟨.error .s22007, overrun || w2c.getD dateTemplateLen 0 = 0x20⟩
    else
      let cnt := (conv.1 - 1).toNat
      let read := dateTimeOf ctx sql2c (conv.2.take cnt) true (isoMaxLen - cnt)
      ⟨read.result, overrun || read.outside⟩
  | .narrow s room => dateTimeOf ctx sql2c s false room

/-- The types of the columns whose values `wstr_to_timestamp_struct` is given. -/
inductive DateTimeColumn where
  | date
  | timestamp
  | time
  | varchar
  /-- `SQL_CHAR`, `SQL_LONGVARCHAR` and their wide forms. -/
  | char
  | other
deriving DecidableEq, Repr

/-- A text of the wrong format is an invalid character value. -/
def rewriteState {α : Type} : Except SqlState α → Except SqlState α
  | .error .s22007 => .error .s22018
  | r => r

/-- `wstr_to_timestamp_struct`, with a place for the value. -/
def wstrToTimestampStruct (ctx : ZoneContext) (junk : WStr) (column : DateTimeColumn) (w : WStr) :
    Access (Except SqlState (TimestampStruct × DateTimeType)) :=
  let src := XStr.wide (trimWs true w).2
  match column with
  | .date =>
    let read := parseIso8601Timestamp ctx true src
    ⟨(rewriteState read.result).map (·, .date), read.outside⟩
  | .timestamp =>
    let read := parseIso8601Timestamp ctx (!ctx.applyTz) src
    ⟨(rewriteState read.result).map (·, .timestamp), read.outside⟩
  | .time =>
    let read := parseDateTimeTs ctx true junk src
    ⟨(rewriteState read.result).map fun p ↦ ({ p.1 with fraction := 0 }, p.2), read.outside⟩
  | .varchar =>
    let read := parseDateTimeTs ctx true junk src
    ⟨rewriteState read.result, read.outside⟩
  | .char => ⟨.error .sHY004, false⟩
  | .other => ⟨.error .s07006, false⟩

end EsOdbc
