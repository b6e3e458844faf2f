import EsOdbc.Blanks
import EsOdbc.Params.Strtod

/-!
# Parameters of numeric types

How the value of a parameter becomes the text of a number: `c2sql_number` of `convert.c`, with
the conversions it calls, and the limits `convert_param_val` of `queries.c` gives it.  The
program is the one for 64-bit Windows: a `long` has 32 bits, and the assertions are not there.
Values bound as `SQL_C_BINARY` and `SQL_C_NUMERIC` are left out.
-/

namespace EsOdbc

open Decimal Binary

/-! ## Types -/

/-- The integer types of Elasticsearch. -/
inductive EsFixed where
  | byte | short | integer | long | unsignedLong
deriving DecidableEq, Repr

/-- The floating-point types of Elasticsearch. -/
inductive EsFloating where
  | halfFloat | float | scaledFloat | double
deriving DecidableEq, Repr

/-- The types that a number is converted to; the character types stand together. -/
inductive EsParam where
  | fixed (t : EsFixed)
  | floating (t : EsFloating)
  | string
deriving DecidableEq, Repr

/-- `data_type`, as `elastic_name2types` sets it. -/
def EsParam.dataType : EsParam → Int
  | .fixed .byte => -6
  | .fixed .short => 5
  | .fixed .integer => 4
  | .fixed .long | .fixed .unsignedLong => -5
  | .floating .halfFloat => 6
  | .floating .float => 7
  | .floating .scaledFloat | .floating .double => 8
  | .string => -9

/-- The C integer types an application binds. -/
inductive CFixed where
  | tinyint | stinyint | short | sshort | long | slong | sbigint
  | bit | utinyint | ushort | ulong | ubigint
deriving DecidableEq, Repr

/-- The bits of a value of the type. -/
def CFixed.width : CFixed → ℕ
  | .tinyint | .stinyint | .bit | .utinyint => 8
  | .short | .sshort | .ushort => 16
  | .long | .slong | .ulong => 32
  | .sbigint | .ubigint => 64

def CFixed.signed : CFixed → Bool
  | .tinyint | .stinyint | .short | .sshort | .long | .slong | .sbigint => true
  | .bit | .utinyint | .ushort | .ulong | .ubigint => false

/-- What the application has bound, by its C type: the eight bytes at `data_ptr`, of which an
integer type reads the first ones, a `float` or `double`, or the memory from `data_ptr` up to
the end of its buffer, in units, and `*octet_len_ptr`. -/
inductive AppValue where
  | fixed (c : CFixed) (data : BitVec 64)
  | floating (x : Double)
  | text (wide : Bool) (mem : WStr) (octetLen : Option ℤ)

/-- `t_number_st`. -/
inductive TNumber where
  | bint (v : ℤ)
  | ubint (v : ℕ)
  | dbl (x : Double)

/-- The limits of a target type, `min` and `max` of `c2sql_number`. -/
inductive Limits where
  | fixed (min : ℤ) (max : ℕ)
  | floating (min max : ℚ)

/-- What the conversions read of the connection: whether there is a type `UNSIGNED_LONG`
(`dbc->ulong`), and `maximum_scale` of the types. -/
structure DbcNumbers where
  ulong : Bool
  maximumScale : EsParam → ℕ

/-- What the conversions read of the record of the IPD: its type, which a conversion can
replace by a null pointer, and `get_param_size`. -/
structure ParamRec where
  esType : Option EsParam
  size : ℕ

/-- `dbc->ulong`. -/
def DbcNumbers.ulongType (dbc : DbcNumbers) : Option EsParam :=
  if dbc.ulong then some (.fixed .unsignedLong) else none

/-- What a conversion comes to: the record, and the length and text it leaves, or the state it
posts.  Without a destination the text is empty, and the length is what it can take. -/
abbrev Converted := Exec (ParamRec × Except SqlState (ℕ × WStr))

/-! ## Texts of numbers -/

/-- `ESODBC_PRECISION_INT64`. -/
def precisionInt64 : ℕ := 19

/-- `DBL_BASE10_MAX_LEN`. -/
def dblBase10MaxLen : ℕ := 3 + 15 + 307

/-- `ESODBC_DEF_FLOAT_PRECISION`. -/
def defFloatPrecision : ℕ := 16

/-- `i64tot`. -/
def i64tot (v : ℤ) : WStr := (Numeral.ofInt v).text

/-- `ui64tot`. -/
def ui64tot (v : ℕ) : WStr := (Numeral.ofInt v).text

/-- A number of units of `10 ^ -prec`, behind its sign. -/
def fixedUnits (prec m : ℕ) (neg : Bool) : WStr :=
  signText (if neg then some true else none) ++ digitUnits (digits (m / 10 ^ prec)) ++
    if prec = 0 then [] else 0x2E :: digitUnits (lastDigits prec m)

/-- `%.*f`. -/
def printFixed (prec : ℕ) : Double → WStr
  | .fin q => fixedUnits prec (roundEven (|q| * 10 ^ prec)).toNat (q < 0)
  | .negZero => fixedUnits prec 0 true
  | .inf neg => signText (if neg then some true else none) ++ infWord
  | .nan => nanWord

/-! ## Promotion -/

/-- `irec_promote_bigint_type`. -/
def irecPromoteBigintType (dbc : DbcNumbers) (irec : ParamRec) (tnr : TNumber) : ParamRec :=
  if irec.esType.map EsParam.dataType ≠ some (-5) then
    irec
  else
    match tnr with
    | .bint _ => irec
    | .ubint v => if v ≤ llongMax then irec else { irec with esType := dbc.ulongType }
    | .dbl x =>
      if x.le (toDouble llongMax) = true ∨ (toDouble ullongMax).lt x = true then irec
      else { irec with esType := dbc.ulongType }

/-! ## Integers -/

/-- `sfixed_to_number`. -/
def sfixedToNumber (src : ℤ) (lim : Option Limits) (dest : Bool) : Except SqlState (ℕ × WStr) :=
  if !dest then
    .ok (precisionInt64, [])
  else
    let text := .ok ((i64tot src).length, i64tot src)
    match lim with
    | none => text
    | some (.fixed min max) =>
      if src < min ∨ (src > 0 ∧ max < src.toNat) then .error .s22003 else text
    | some (.floating min max) =>
      if (toDouble src).lt (.fin min) = true ∨ Double.lt (.fin max) (toDouble src) = true then
        .error .s22003
      else text

/-- `ufixed_to_number`: there is no test against the limits of a floating type. -/
def ufixedToNumber (dbc : DbcNumbers) (irec : ParamRec) (src : ℕ) (lim : Option Limits)
    (dest : Bool) : ParamRec × Except SqlState (ℕ × WStr) :=
  let irec := irecPromoteBigintType dbc irec (.ubint src)
  if !dest then
    (irec, .ok (precisionUInt64, []))
  else
    let text := .ok ((ui64tot src).length, ui64tot src)
    match lim with
    | some (.fixed _ max) => (irec, if max < src then .error .s22003 else text)
    | _ => (irec, text)

/-! ## Floating-point numbers -/

/-- The limits that `floating_to_number` and `string_to_number` hold a `double` against. -/
def outOfLimits (x : Double) : Limits → Bool
  | .fixed min max => x.lt (toDouble min) || (toDouble max).lt x
  | .floating min max => x.abs.lt (.fin min) || Double.lt (.fin max) x.abs

/-- The exponent `floating_to_number` calls `pow10` with, an `unsigned`: the size of the
parameter, less one place for a sign. -/
def wholePlaces (size : ℕ) (neg : Bool) : ℕ := (size % 2 ^ 32 + 2 ^ 32 - neg.toNat) % 2 ^ 32

/-- `floating_to_number`.  For a character type the text is cut at the size of the parameter,
where the whole part has a place there. -/
def floatingToNumber (dbc : DbcNumbers) (irec : ParamRec) (src : Double) (lim : Option Limits)
    (dest : Bool) : Converted :=
  let irec := irecPromoteBigintType dbc irec (.dbl src)
  if !dest then
    .done (irec, .ok (dblBase10MaxLen + 1, []))
  else if lim.any (outOfLimits src) = true then
    .done (irec, .error .s22003)
  else
    match irec.esType with
    | none => .undefined
    | some .string =>
      let text := printFixed defFloatPrecision src
      match src.abs.toInt 0 (2 ^ 64) with
      | none => .undefined
      | some whole =>
        if whole < pow10 (wholePlaces irec.size (src.lt (.fin 0))) then
          let len := if text.length < irec.size then text.length else irec.size
          -- before a text of no units there is the quotation mark
          let len := if len ≠ 0 ∧ text[len - 1]? = some 0x2E then len - 1 else len
          .done (irec, .ok (len, text))
        else
          .done (irec, .error .s22003)
    | some t =>
      let text := printFixed (dbc.maximumScale t) src
      .done (irec, .ok (text.length, text.take dblBase10MaxLen))

/-! ## Strings -/

/-- `strlen` and `wcslen`. -/
def strlen (mem : WStr) : Exec ℕ :=
  match mem.findIdx? (· = 0) with
  | some n => .done n
  | none => .undefined

/-- The count of units of an application's string. -/
def xstrCnt (wide : Bool) (mem : WStr) (octetLen : Option ℤ) : Exec ℕ :=
  match octetLen with
  | none => strlen mem
  | some l =>
    if l = -3 then strlen mem
    else .done ((l % 2 ^ 64).toNat / if wide then 2 else 1)

/-- `xstr_to_number`: the trimmed text and its number. -/
def xstrToNumber (wide : Bool) (mem : WStr) (octetLen : Option ℤ) :
    Exec (Option (WStr × TNumber)) :=
  (xstrCnt wide mem octetLen).bind fun cnt ↦
    if mem.length < cnt then
      .undefined
    else
      let (start, text) := trimWs wide (mem.take cnt)
      match str2bigint text true with
      | some (v, _) => .done (some (text, .bint v))
      | none =>
        match str2ubigint text true with
        | some (v, _) => .done (some (text, .ubint v))
        | none =>
          (str2double (mem.drop start) text.length true).bind fun read ↦
            .done (read.map fun r ↦ (text, .dbl r.1))

/-- The copy at the end of `string_to_number`, of `n` units from `data_ptr` on: `memcpy`, and
for a wide string `ascii_w2c`, which stops before a unit that is not ASCII. -/
def copyUnits (wide : Bool) (mem : WStr) (n : ℕ) : ℕ × WStr :=
  (n, if wide then (mem.take n).takeWhile fun c ↦ c ≠ 0 && c ≤ 0x7F else mem.take n)

/-- The `double` of a string as the text of an integer: the casts, in the type of the target. -/
def fixedText (dbc : DbcNumbers) (irec : ParamRec) (x : Double) : Option WStr :=
  if irec.esType = dbc.ulongType then (x.toInt 0 (2 ^ 64)).map fun v ↦ ui64tot v.toNat
  else (x.toInt (-2 ^ 63) (2 ^ 63)).map i64tot

/-- `string_to_number`. -/
def stringToNumber (dbc : DbcNumbers) (irec : ParamRec) (wide : Bool) (mem : WStr)
    (octetLen : Option ℤ) (lim : Option Limits) (dest : Bool) : Converted :=
  (xstrToNumber wide mem octetLen).bind fun
    | none => .done (irec, .error .s22018)
    | some (text, xnr) =>
      let irec := irecPromoteBigintType dbc irec xnr
      if !dest then
        .done (irec, .ok (text.length, []))
      else
        let copy : Converted := .done (irec, .ok (copyUnits wide mem text.length))
        match lim, xnr with
        | none, _ => copy
        | some (.fixed min max), .bint v =>
          if v < min ∨ (v > 0 ∧ max < v.toNat) then .done (irec, .error .s22003) else copy
        | some (.floating _ _), .bint _ => copy
        | some (.fixed _ max), .ubint v =>
          if max < v then .done (irec, .error .s22003) else copy
        | some (.floating _ _), .ubint _ => copy
        | some (.fixed min max), .dbl x =>
          if outOfLimits x (.fixed min max) = true then .done (irec, .error .s22003)
          else
            match x.abs.toInt 0 (2 ^ 64) with
            | none => .undefined
            | some whole =>
              if Double.lt (.fin whole) x.abs = true then .done (irec, .error .s22001)
              else
                match fixedText dbc irec x with
                | none => .undefined
                | some text => .done (irec, .ok (text.length, text))
        | some (.floating min max), .dbl x =>
          if outOfLimits x (.floating min max) = true then .done (irec, .error .s22003) else copy

/-! ## `c2sql_number` -/

/-- The integer of a C type at the start of some bytes. -/
def CFixed.read (c : CFixed) (data : BitVec 64) : ℤ :=
  if c.signed then (data.setWidth c.width).toInt else (data.setWidth c.width).toNat

/-- `c2sql_number`. -/
def c2sqlNumber (dbc : DbcNumbers) (irec : ParamRec) (v : AppValue) (lim : Option Limits)
    (dest : Bool) : Converted :=
  match v with
  | .text wide mem octetLen => stringToNumber dbc irec wide mem octetLen lim dest
  | .fixed c data =>
    if c.signed then .done (irec, sfixedToNumber (c.read data) lim dest)
    else .done (ufixedToNumber dbc irec (c.read data).toNat lim dest)
  | .floating x => floatingToNumber dbc irec x lim dest

/-- The limits `convert_param_val` has for the numeric types.  There is no `break` between
`SQL_SMALLINT` and `SQL_TINYINT`. -/
def convertParamLimits (dataType : Int) : Option Limits :=
  if dataType = -5 then some (.fixed (-2 ^ 63) ullongMax)
  else if dataType = 4 then some (.fixed (-2 ^ 31) (2 ^ 31 - 1))
  else if dataType = 5 ∨ dataType = -6 then some (.fixed (-2 ^ 7) (2 ^ 7 - 1))
  else if dataType = 7 then some (.floating fltMin fltMax)
  else if dataType = 6 ∨ dataType = 8 then some (.floating dblMin dblMax)
  else none

/-- A parameter: whether its indicator is `SQL_NULL_DATA`, and its value. -/
structure AppParam where
  null : Bool
  value : AppValue

/-- `JSON_VAL_NULL`. -/
def jsonValNull : WStr := [0x6E, 0x75, 0x6C, 0x6C]

/-- `convert_param_val`; `others` are its branches for the types that are not numeric. -/
def convertParamVal (others : ParamRec → AppValue → Bool → Converted) (dbc : DbcNumbers)
    (irec : ParamRec) (p : AppParam) (dest : Bool) : Converted :=
  if p.null then .done (irec, .ok (jsonValNull.length, if dest then jsonValNull else []))
  else
    match irec.esType with
    | none => .undefined
    | some t =>
      match convertParamLimits t.dataType with
      | some lim => c2sqlNumber dbc irec p.value (some lim) dest
      | none => others irec p.value dest

/-- What `serialize_params_json` writes of one parameter: its type, and the length and text of
its value. -/
structure ParamJson where
  type : EsParam
  len : ℕ
  written : WStr

/-- `serialize_params_json` of one parameter.  It is called twice: the first time it evaluates
the lengths, and the conversion can change the type that the second time announces. -/
def serializeParam (others : ParamRec → AppValue → Bool → Converted) (dbc : DbcNumbers)
    (irec : ParamRec) (p : AppParam) : Exec (ParamRec × Except SqlState ParamJson) :=
  (convertParamVal others dbc irec p false).bind fun
    | (irec, .error state) => .done (irec, .error state)
    | (irec, .ok _) =>
      match irec.esType with
      | none => .undefined
      | some t =>
        (convertParamVal others dbc irec p true).bind fun
          | (irec, .error state) => .done (irec, .error state)
          | (irec, .ok (len, written)) => .done (irec, .ok ⟨t, len, written⟩)

end EsOdbc
