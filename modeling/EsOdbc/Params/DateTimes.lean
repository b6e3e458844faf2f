import EsOdbc.Convertability
import EsOdbc.Lib.LittleEndian
import EsOdbc.Texts.JsonEscape
import EsOdbc.Timestamp.Print
import EsOdbc.Timestamp.Translate

/-!
# Dates and times of the application

`c2sql_date_time`, with `str_to_iso8601_timestamp` and `struct_to_iso8601_timestamp` (`convert.c`).
The memory that `parse_date_time_ts` touches on the way is what `EsOdbc.Timestamp.Bounds` is about.
-/

namespace EsOdbc

/-- A result is handed on, an error is kept. -/
def Exec.onOk {ε α β : Type} (x : Exec (Except ε α)) (f : α → Exec (Except ε β)) :
    Exec (Except ε β) :=
  x.bind fun
  | .error e => .done (.error e)
  | .ok a => f a

namespace Exec

variable {ε α β : Type}

@[simp] theorem onOk_ok (a : α) (f : α → Exec (Except ε β)) : (done (.ok a)).onOk f = f a := rfl

@[simp] theorem onOk_error (e : ε) (f : α → Exec (Except ε β)) :
    (done (.error e)).onOk f = done (.error e) := rfl

@[simp] theorem onOk_undefined (f : α → Exec (Except ε β)) : undefined.onOk f = .undefined := rfl

end Exec

/-! ## What is bound -/

/-- A bound string: the units from the data pointer to the end of their memory, and what is behind
the length pointer. -/
structure BoundChars where
  wide : Bool
  mem : WStr
  octetLen : Option ℤ
deriving DecidableEq

/-- The size of a unit. -/
def BoundChars.usize (b : BoundChars) : ℕ := if b.wide then 2 else 1

/-- A bound structure; one that is bound as `SQL_C_BINARY` is given by the bytes of its memory. -/
inductive BoundFields where
  | time (ts : TimeStruct)
  | date (ds : DateStruct)
  | timestamp (tss : TimestampStruct)
  | binary (mem : List UInt8) (octetLen : Option ℤ)
deriving DecidableEq

inductive BoundDateTime where
  | chars (b : BoundChars)
  | fields (f : BoundFields)
deriving DecidableEq

/-- `get_rec_c_type`. -/
def BoundDateTime.cType : BoundDateTime → ℤ
  | chars b => if b.wide then -8 else 1
  | fields (.time _) => 92
  | fields (.date _) => 91
  | fields (.timestamp _) => 93
  | fields (.binary ..) => -2

/-- The `data_type` of a parameter. -/
def DateTimeType.sqlType : DateTimeType → ℤ
  | .time => 92
  | .date => 91
  | .timestamp => 93

/-! ## The source -/

/-- The count of units that `str_to_iso8601_timestamp` starts with.  A length counts as one that has
a terminator in it, in a `size_t`. -/
def BoundChars.cnt (b : BoundChars) : Exec ℕ :=
  match b.octetLen with
  | none => ntsLen b.mem
  | some n => .done ((n % 2 ^ 64 / b.usize - 1) % 2 ^ 64).toNat

/-- What `str_to_iso8601_timestamp` prints, or why it does not. -/
def parsedFields (ctx : ZoneContext) (junk : WStr) (src : XStr) :
    Except SqlState (TimestampStruct × DateTimeType) :=
  match (parseDateTimeTs ctx false junk src).result with
  | .error .s22007 => .error .s22008
  -- the shift has failed: the fields are as they were read
  | .error _ => (parseDateTimeTs { ctx with applyTz := false } false junk src).result
  | .ok r => .ok r

/-- A trimmed string, with the units that lie behind it. -/
def BoundChars.source (b : BoundChars) (str : WStr) : XStr :=
  let trimmed := trimWs b.wide str
  if b.wide then .wide trimmed.2
  else .narrow trimmed.2 (b.mem.length - (trimmed.1 + trimmed.2.length))

/-- The part of `str_to_iso8601_timestamp` in front of the printing; `junk` is what the buffer of
`parse_date_time_ts` holds. -/
def BoundChars.read (ctx : ZoneContext) (junk : WStr) (b : BoundChars) :
    Exec (Except SqlState (TimestampStruct × DateTimeType)) :=
  b.cnt.bind fun cnt ↦ (Exec.ofOption (Buffer.load b.mem 0 cnt)).bind fun str ↦
    .done (parsedFields ctx junk (b.source str))

/-- A `TIMESTAMP_STRUCT` in memory. -/
def timestampOfBytes (bs : List UInt8) : TimestampStruct where
  year := LittleEndian.signedValue (bs.take 2)
  month := LittleEndian.value ((bs.drop 2).take 2)
  day := LittleEndian.value ((bs.drop 4).take 2)
  hour := LittleEndian.value ((bs.drop 6).take 2)
  minute := LittleEndian.value ((bs.drop 8).take 2)
  second := LittleEndian.value ((bs.drop 10).take 2)
  fraction := LittleEndian.value ((bs.drop 12).take 4)

/-- `sizeof(TIMESTAMP_STRUCT)`. -/
def timestampStructSize : ℕ := 16

/-- The `switch` of `struct_to_iso8601_timestamp`. -/
def BoundFields.fields (today : IsoDate) : BoundFields → Exec (Except SqlState TimestampStruct)
  | time ts =>
    .done (.ok ⟨today.year, today.month, today.day, ts.hour, ts.minute, ts.second, 0⟩)
  | date ds => .done (.ok ⟨ds.year, ds.month, ds.day, 0, 0, 0, 0⟩)
  | timestamp tss => .done (.ok tss)
  | binary mem octetLen =>
    -- without a length, the one of a string
    (octetLen.elim (ntsLen mem) fun n ↦ .done (n % 2 ^ 64).toNat).bind fun osize ↦
      if osize ≠ timestampStructSize then .done (.error .s22003)
      else (Exec.ofOption (Buffer.load mem 0 timestampStructSize)).bind fun bs ↦
        .done (.ok (timestampOfBytes bs))

/-- `struct_to_iso8601_timestamp`, up to the printing. -/
def BoundFields.read (ctx : ZoneContext) (f : BoundFields) : Exec (Except SqlState TimestampStruct) :=
  (f.fields ctx.today).onOk fun tss ↦
    .done (if ctx.applyTz then shifted ctx.toUtc tss else .ok tss)

/-- The fields that are read, with the `format` of a string. -/
def BoundDateTime.read (ctx : ZoneContext) (junk : WStr) :
    BoundDateTime → Exec (Except SqlState (TimestampStruct × Option DateTimeType))
  | chars b => (b.read ctx junk).onOk fun r ↦ .done (.ok (r.1, some r.2))
  | fields f => (f.read ctx).onOk fun tss ↦ .done (.ok (tss, none))

/-- `print_timestamp`, as both of its callers have it. -/
def isoTimestamp (tss : TimestampStruct) (colsize : UInt64) (decdigits : ℤ) :
    Exec (Except SqlState WStr) :=
  (printTimestamp tss true colsize decdigits).bind fun text ↦
    .done (text.elim (.error .sHY000) .ok)

/-- `time_0_z`. -/
def time0Z : WStr := [0x30, 0x30, 0x3A, 0x30, 0x30, 0x3A, 0x30, 0x30, 0x5A]

/-- Whether a date's time is set to zero. -/
def zeroesTime (b : BoundDateTime) (format : Option DateTimeType) : Bool :=
  b.cType = 93 || format = some .timestamp

/-- What `c2sql_date_time` makes of a printed timestamp.  A text with no unit behind its date, or
that ends before one, makes its count wrap around. -/
def adaptToTarget (target : DateTimeType) (zeroed : Bool) (text : WStr) : Exec WStr :=
  match target with
  | .time => if text.length ≤ dateTemplateLen + 1 then .undefined
      else .done (text.drop (dateTemplateLen + 1))
  | .date => .done (if zeroed then text.take (dateTemplateLen + 1) ++ time0Z else text)
  | .timestamp => .done text

/-- A date and a time, in one order or the other. -/
def dateWithTime (format : Option DateTimeType) (target : DateTimeType) : Bool :=
  (target = .time && format = some .date) || (format = some .time && target = .date)

/-- `c2sql_date_time` with a destination, for a parameter of a type, size and decimal digits: what
it writes there. -/
def c2sqlDateTime (ctx : ZoneContext) (junk : WStr) (target : DateTimeType) (size : UInt64)
    (decimals : ℤ) (b : BoundDateTime) : Exec (Except SqlState WStr) :=
  match sizeDecdigitsForIso8601 target size decimals with
  | .error e => .done (.error e)
  | .ok (colsize, decdigits) =>
    (b.read ctx junk).onOk fun r ↦ (isoTimestamp r.1 colsize decdigits).onOk fun text ↦
      if dateWithTime r.2 target then .done (.error .s22018)
      else (adaptToTarget target (zeroesTime b r.2) text).bind fun w ↦
        .done (.ok (0x22 :: (w ++ [0x22])))

end EsOdbc
