import EsOdbc.Lib.Utf
import EsOdbc.Targets.Quadword
import EsOdbc.Timestamp.Translate

/-!
# Texts for the application

`transfer_xstr0`, `quadword_to_str`, `double_to_str`, `wstr_to_cstr` and `wstr_to_string` of
`convert.c`: how numbers, dates, times and strings of an answer are stored as `SQL_C_CHAR` or
`SQL_C_WCHAR`.  Counts of units are below `INT_MAX`, and interval columns are left out.
-/

namespace EsOdbc

open Binary
open LittleEndian (intBytes)

/-! ## Memory of the application -/

/-- The units of a text: those of `SQL_C_CHAR` or those of `SQL_C_WCHAR`. -/
inductive Width where
  | narrow
  | wide
deriving DecidableEq, Repr

namespace Width

/-- `sizeof` of a unit. -/
def usize : Width → ℕ
  | narrow => 1
  | wide => 2

/-- A unit in memory. -/
def unitBytes : Width → UInt16 → List UInt8
  | narrow, c => [c.toUInt8]
  | wide, c => intBytes 2 c.toNat

/-- A text in memory. -/
def bytes (width : Width) (w : WStr) : List UInt8 := w.flatMap width.unitBytes

end Width

/-- Bytes are stored in the memory that is bound. -/
def AppSide.store (app : AppSide) (pos : ℕ) (bs : List UInt8) : Exec AppSide :=
  (Exec.ofOption (app.data.bind fun mem ↦ Buffer.store mem pos bs)).bind fun mem ↦
    .done { app with data := some mem }

/-- What a call leaves: its state, the application's memory, and `stmt->gd_offt`, if it is one of
`SQLGetData`. -/
structure Transferred where
  state : SqlState
  app : AppSide
  gdOfft : Option ℤ
deriving DecidableEq, Repr

/-! ## Offsets -/

/-- `gd_offset_apply`. -/
def gdOffsetApply {α : Type} (gdOfft : Option ℤ) (str : List α) : Exec (List α) :=
  match gdOfft with
  | none => .done str
  | some offt => if 0 ≤ offt ∧ offt ≤ str.length then .done (str.drop offt.toNat) else .undefined

/-- `gd_offset_update`. -/
def gdOffsetUpdate (gdOfft : Option ℤ) (cnt xfed : ℕ) : Option ℤ :=
  gdOfft.map fun offt ↦ if cnt ≤ xfed then -1 else offt + xfed

/-! ## Texts -/

/-- `transfer_xstr0`. -/
def transferXstr0 (c : OctetContext) (width : Width) (src : WStr) (gdOfft : Option ℤ) (app : AppSide) :
    Exec Transferred :=
  (gdOffsetApply gdOfft src).bind fun str ↦
    let cnt := str.length
    let app := app.writeOutOctets c (cnt * width.usize)
    let size := c.buffOctetSize ((cnt + 1) * width.usize) width.usize
    let state : SqlState := if size.2 then .s01004 else .s00000
    let inChars := size.1 / width.usize - 1
    if app.data = none then .done ⟨.s00000, app, gdOfft⟩
    else if size.1 = 0 then .done ⟨state, app, gdOfft⟩
    else
      (app.store 0 ((width.bytes (str ++ [0])).take size.1)).bind fun app ↦
        (if size.2 then app.store (inChars * width.usize) (width.unitBytes 0) else .done app).bind
          fun app ↦ .done ⟨state, app, gdOffsetUpdate gdOfft cnt inChars⟩

/-! ## Numbers -/

/-- `quadword_to_str`. -/
def quadwordToStr (c : OctetContext) (width : Width) (qword : UInt64) (unsignd : Bool)
    (gdOfft : Option ℤ) (app : AppSide) : Exec Transferred :=
  let text := if unsignd then ui64tot qword.toNat else i64tot qword.toInt64.toInt
  (transferXstr0 c width text gdOfft app).bind fun sent ↦
    .done (if sent.state = .s01004 ∧ gdOfft = none then { sent with state := .s22003 } else sent)

/-- `ESODBC_FLTS_DEFAULT`, `ESODBC_FLTS_SCIENTIFIC` and `ESODBC_FLTS_AUTO`. -/
inductive SciFloats where
  | default
  | scientific
  | auto
deriving DecidableEq, Repr

/-- `floats_rep`: whether the notation is scientific. -/
def floatsRep (sciFloats : SciFloats) (dbl : Double) : Bool :=
  match sciFloats with
  | .default => false
  | .scientific => true
  | .auto =>
    let abs := if (toDouble 0).le dbl then dbl else dbl.neg
    abs.lt (.fin (binary64.round (1 / 1000))) || (toDouble (10 ^ 7)).le abs

/-- The exponent of a number in so many digits behind the first one, and these digits with it. -/
def sciDigits (prec : ℕ) (q : ℚ) : ℤ × ℕ :=
  let e := if q = 0 then 0 else Int.log 10 q
  let m := (roundEven (q * 10 ^ (prec - e))).toNat
  -- a carry makes it one digit more
  if 10 ^ (prec + 1) ≤ m then (e + 1, 10 ^ prec) else (e, m)

/-- The exponent in `%E`: its sign and at least two digits. -/
def exponentText (e : ℤ) : WStr :=
  0x45 :: (if e < 0 then 0x2D else 0x2B) :: (if e.natAbs < 10 then padded 2 e.natAbs
    else digitUnits (Decimal.digits e.natAbs))

/-- `%.*E`. -/
def printScientific (prec : ℕ) : Double → WStr
  | .fin q =>
    let digits := sciDigits prec |q|
    fixedUnits prec digits.2 (q < 0) ++ exponentText digits.1
  | .negZero => fixedUnits prec 0 true ++ exponentText 0
  | .inf neg => Decimal.signText (if neg then some true else none) ++ [0x49, 0x4E, 0x46]
  | .nan => [0x4E, 0x41, 0x4E]

/-- What is printed of a floating-point number, `prec` being the `maximum_scale` of its type. -/
def doubleText (sciFloats : SciFloats) (prec : ℕ) (dbl : Double) : WStr :=
  if floatsRep sciFloats dbl then printScientific prec dbl else printFixed prec dbl

/-- `xstr.c.cnt - (prec + !!prec)`, a `size_t`. -/
def wholeCnt (cnt prec : ℕ) : ℕ :=
  (((cnt : ℤ) - (prec + if prec = 0 then 0 else 1)) % 2 ^ 64).toNat

/-- `double_to_str`.  A wide text that is too long fails to be printed; of a narrow one there are only
the units that the buffer has. -/
def doubleToStr (c : OctetContext) (width : Width) (sciFloats : SciFloats) (prec : ℕ) (dbl : Double)
    (gdOfft : Option ℤ) (app : AppSide) : Exec Transferred :=
  let text := doubleText sciFloats prec dbl
  let n := text.length
  if width = .wide ∧ dblBase10MaxLen < n then .done ⟨.sHY000, app, gdOfft⟩
  else
    let size := c.buffOctetSize ((n + 1) * width.usize) width.usize
    let cnt := size.1 / width.usize
    if size.2 ∧ (floatsRep sciFloats dbl ∨ cnt < wholeCnt n prec) then .done ⟨.s22003, app, gdOfft⟩
    else
      let offt := (gdOfft.getD 0).toNat
      let last := offt + (c.buffOctetSize ((n - offt + 1) * width.usize) width.usize).1 / width.usize
      if app.data ≠ none ∧ dblBase10MaxLen + 1 < last then .undefined
      else transferXstr0 c width text gdOfft app

/-! ## Strings -/

/-- Why `U16WC_TO_MBU8` fails. -/
inductive Mbu8Fault where
  /-- `ERROR_INSUFFICIENT_BUFFER` -/
  | room
  | invalid
deriving DecidableEq, Repr

/-- Units in UTF-8, with room for so many bytes.  Characters are converted one behind the other, and a
lone surrogate is invalid. -/
def u16wcToMbu8Into (room : ℕ) : WStr → Except Mbu8Fault (List UInt8)
  | [] => .ok []
  | c :: rest =>
    match rest with
    | [] =>
      if Utf.isHigh c || Utf.isLow c then .error .invalid
      else
        let u8 := Utf.utf8 [Char.ofNat c.toNat]
        if room < u8.length then .error .room else .ok u8
    | d :: rest' =>
      if Utf.isHigh c then
        if Utf.isLow d then
          let u8 := Utf.utf8 [Utf.ofPair c d]
          if room < u8.length then .error .room
          else (u16wcToMbu8Into (room - u8.length) rest').map (u8 ++ ·)
        else .error .invalid
      else if Utf.isLow c then .error .invalid
      else
        let u8 := Utf.utf8 [Char.ofNat c.toNat]
        if room < u8.length then .error .room
        else (u16wcToMbu8Into (room - u8.length) (d :: rest')).map (u8 ++ ·)

/-- The loop of `wstr_to_cstr`, from so many units on down: the units that fit, and their bytes. -/
def trimToFit (src : WStr) (room : ℕ) : ℕ → Exec (Except SqlState (ℕ × List UInt8))
  | 0 => .undefined
  | c + 1 =>
    match u16wcToMbu8Into room (src.take (c + 1)) with
    | .ok u8 => .done (.ok (c + 1, u8))
    | .error .room => trimToFit src room c
    | .error .invalid => .done (.error .s22018)

/-- `wstr_to_cstr`. -/
def wstrToCstr (c : OctetContext) (wstr : WStr) (gdOfft : Option ℤ) (app : AppSide) : Exec Transferred :=
  (gdOffsetApply gdOfft wstr).bind fun str ↦
    match u16wcToMbu8Into (3 * (str.length + 1)) (str ++ [0]) with
    | .error _ => .done ⟨.s22018, app, gdOfft⟩
    | .ok whole =>
      let app := app.writeOutOctets c (whole.length - 1)
      let size := c.buffOctetSize whole.length 1
      let state : SqlState := if size.2 then .s01004 else .s00000
      if app.data = none then .done ⟨.s00000, app, gdOfft⟩
      else if size.1 = 0 then .done ⟨state, app, gdOfft⟩
      else
        (trimToFit (str ++ [0]) size.1 (str.length + 1)).bind fun trimmed ↦
          match trimmed with
          | .error e => .done ⟨e, app, gdOfft⟩
          | .ok out =>
            (app.store 0 out.2).bind fun app ↦
              if out.2.getLast? = some 0 then
                .done ⟨state, app, gdOffsetUpdate gdOfft str.length out.1⟩
              else
                (app.store (out.2.length - 1) [0]).bind fun app ↦
                  .done ⟨.s01004, app, gdOffsetUpdate gdOfft str.length (out.1 - 1)⟩

/-- `wstr_to_wstr`. -/
def wstrToWstr (c : OctetContext) (wstr : WStr) (gdOfft : Option ℤ) (app : AppSide) : Exec Transferred :=
  transferXstr0 c .wide wstr gdOfft app

/-- The conversion that `wstr_to_string` ends with. -/
def wstrToXstr (c : OctetContext) (width : Width) (wstr : WStr) (gdOfft : Option ℤ) (app : AppSide) :
    Exec Transferred :=
  match width with
  | .narrow => wstrToCstr c wstr gdOfft app
  | .wide => wstrToWstr c wstr gdOfft app

/-- What `wstr_to_string` translates a column's text to, and `min_xfer`. -/
def translated (ctx : ZoneContext) (junk : WStr) (column : DateTimeColumn) (w : WStr) :
    Access (Except SqlState WStr) × ℕ :=
  match column with
  | .date => (translateDateIso8601ToSql w, dateTemplateLen + 1)
  | .timestamp => (translateTimestampIso8601ToSql ctx w, timestampTemplateLen + 1)
  | .time => (translateTimeIso8601ToSql ctx junk w, timeTemplateLen + 1)
  | .varchar => (⟨.ok w, false⟩, 0)
  | .char => (⟨.ok w, false⟩, 0)
  | .other => (⟨.ok w, false⟩, 0)

/-- `wstr_to_string`. -/
def wstrToString (ctx : ZoneContext) (junk : WStr) (c : OctetContext) (width : Width)
    (column : DateTimeColumn) (w : WStr) (gdOfft : Option ℤ) (app : AppSide) : Exec Transferred :=
  let found := translated ctx junk column w
  if found.1.outside then .undefined
  else
    match found.1.result with
    | .error e => .done ⟨e, app, gdOfft⟩
    | .ok text =>
      (wstrToXstr c width text gdOfft app).bind fun sent ↦
        let octets := (c.buffOctetSize ((text.length + 1) * width.usize) width.usize).1
        if sent.state = .s01004 ∧ found.2 ≠ 0 ∧ octets / width.usize < found.2 then
          .done { sent with state := .s22003 }
        else .done sent

end EsOdbc
