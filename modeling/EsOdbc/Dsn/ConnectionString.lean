import EsOdbc.Ujson

/-!
# DSN attributes and connection strings

The part of `dsn.c` and `dsn.h` that reads and writes a connection string, and what
`EsSQLConnectW` makes of it.
-/

namespace EsOdbc

/-- The attributes, in the order of `esodbc_dsn_attrs_st` and of the tables in `dsn.c`. -/
inductive DsnAttr where
  | driver | description | dsn | pwd | uid | apiKey | savefile | filedsn | cloudId | server
  | port | secure | caPath | timeout | follow | catalog | packing | compression
  | maxFetchSize | maxBodySize | applyTz | earlyExec | sciFloats | varcharLimit
  | mfieldLenient | autoEscPva | idxIncFrozen | proxyEnabled | proxyType | proxyHost
  | proxyPort | proxyAuthEnabled | proxyAuthUid | proxyAuthPwd | traceEnabled | traceFile
  | traceLevel
deriving DecidableEq, Repr

namespace DsnAttr

/-- The tables' order. -/
def all : List DsnAttr :=
  [.driver, .description, .dsn, .pwd, .uid, .apiKey, .savefile, .filedsn, .cloudId, .server,
    .port, .secure, .caPath, .timeout, .follow, .catalog, .packing, .compression,
    .maxFetchSize, .maxBodySize, .applyTz, .earlyExec, .sciFloats, .varcharLimit,
    .mfieldLenient, .autoEscPva, .idxIncFrozen, .proxyEnabled, .proxyType, .proxyHost,
    .proxyPort, .proxyAuthEnabled, .proxyAuthUid, .proxyAuthPwd, .traceEnabled, .traceFile,
    .traceLevel]

/-- The keywords of `dsn.h`. -/
def keyword : DsnAttr → WStr
  | .driver => wstr "Driver"
  | .description => wstr "Description"
  | .dsn => wstr "DSN"
  | .pwd => wstr "PWD"
  | .uid => wstr "UID"
  | .apiKey => wstr "APIKey"
  | .savefile => wstr "SAVEFILE"
  | .filedsn => wstr "FILEDSN"
  | .cloudId => wstr "CloudID"
  | .server => wstr "Server"
  | .port => wstr "Port"
  | .secure => wstr "Secure"
  | .caPath => wstr "CAPath"
  | .timeout => wstr "Timeout"
  | .follow => wstr "Follow"
  | .catalog => wstr "Catalog"
  | .packing => wstr "Packing"
  | .compression => wstr "Compression"
  | .maxFetchSize => wstr "MaxFetchSize"
  | .maxBodySize => wstr "MaxBodySizeMB"
  | .applyTz => wstr "ApplyTZ"
  | .earlyExec => wstr "EarlyExecution"
  | .sciFloats => wstr "ScientificFloats"
  | .varcharLimit => wstr "VarcharLimit"
  | .mfieldLenient => wstr "MultiFieldLenient"
  | .autoEscPva => wstr "AutoEscapePVA"
  | .idxIncFrozen => wstr "IndexIncludeFrozen"
  | .proxyEnabled => wstr "ProxyEnabled"
  | .proxyType => wstr "ProxyType"
  | .proxyHost => wstr "ProxyHost"
  | .proxyPort => wstr "ProxyPort"
  | .proxyAuthEnabled => wstr "ProxyAuthEnabled"
  | .proxyAuthUid => wstr "ProxyAuthUID"
  | .proxyAuthPwd => wstr "ProxyAuthPWD"
  | .traceEnabled => wstr "TraceEnabled"
  | .traceFile => wstr "TraceFile"
  | .traceLevel => wstr "TraceLevel"

end DsnAttr

/-- `ESODBC_DSN_MAX_ATTR_LEN`. -/
def dsnMaxAttrLen : ℕ := 768

/-- `esodbc_dsn_attrs_st`: a value fits its part of the buffer. -/
@[ext]
structure DsnAttrs where
  val : DsnAttr → WStr
  fits : ∀ a, (val a).length ≤ dsnMaxAttrLen

/-- `init_dsn_attrs`. -/
def DsnAttrs.init : DsnAttrs := ⟨fun _ ↦ [], fun _ ↦ Nat.zero_le _⟩

def DsnAttrs.set (attrs : DsnAttrs) (a : DsnAttr) (v : WStr) (h : v.length ≤ dsnMaxAttrLen) :
    DsnAttrs where
  val := Function.update attrs.val a v
  fits b := by
    by_cases hb : b = a
    · subst hb
      rwa [Function.update_self]
    · rw [Function.update_of_ne hb]
      exact attrs.fits b

/-- The positive results of `assign_dsn_attr`, and `DSN_NOT_MATCHED`. -/
inductive DsnAssign where
  | notMatched | notOverwritten | assigned | overwritten
deriving DecidableEq, Repr

/-- `assign_dsn_attr`; no result is its error. -/
def assignDsnAttr (attrs : DsnAttrs) (keyword value : WStr) (overwrite : Bool) :
    Option (DsnAssign × DsnAttrs) :=
  if h : value.length ≤ dsnMaxAttrLen then
    match DsnAttr.all.find? fun a ↦ eqCaseWstr a.keyword keyword with
    | none => some (.notMatched, attrs)
    | some a =>
      if attrs.val a ≠ [] then
        if overwrite then some (.overwritten, attrs.set a value h) else some (.notOverwritten, attrs)
      else
        some (.assigned, attrs.set a value h)
  else
    none

/-- The classes of units that `skip_ws` and `parse_token` tell apart. -/
inductive TokChar where
  | backslash | blank | equals | semicolon | nul | lbrace | rbrace | other
deriving DecidableEq, Repr

def tokChar (c : UInt16) : TokChar :=
  if c = 0x5C then .backslash
  else if c = 0x20 ∨ c = 0x09 ∨ c = 0x0D ∨ c = 0x0A then .blank
  else if c = 0x3D then .equals
  else if c = 0x3B then .semicolon
  else if c = 0 then .nul
  else if c = 0x7B then .lbrace
  else if c = 0x7D then .rbrace
  else .other

/-- `skip_ws`: the position it moves to, and whether it returns it. -/
def skipWs (extended : Bool) : WStr → WStr × Bool
  | [] => ([], false)
  | c :: t =>
    match tokChar c with
    | .blank => skipWs extended t
    | .nul => (c :: t, false)
    | .semicolon => if extended then skipWs extended t else (c :: t, true)
    | _ => (c :: t, true)

/-- The loop of `parse_token`, with whether it is at the start of the token and whether a
brace is open: the units it moves over, whether it closed the brace, and the rest. -/
def tokenLoop (isValue : Bool) : Bool → Bool → WStr → Option (WStr × Bool × WStr)
  | _, braces, [] => if braces then none else some ([], false, [])
  | first, braces, c :: t =>
    match tokChar c with
    | .backslash =>
      if isValue then (tokenLoop isValue false braces t).map fun r ↦ (c :: r.1, r.2) else none
    | .blank | .equals =>
      if braces || isValue then (tokenLoop isValue false braces t).map fun r ↦ (c :: r.1, r.2)
      else some ([], false, c :: t)
    | .semicolon =>
      if braces then (tokenLoop isValue false braces t).map fun r ↦ (c :: r.1, r.2)
      else if isValue then some ([], false, c :: t)
      else none
    | .nul => if braces || !isValue then none else some ([], false, c :: t)
    | .lbrace =>
      if first then (tokenLoop isValue false true t).map fun r ↦ (c :: r.1, r.2)
      else if braces then none
      else (tokenLoop isValue false braces t).map fun r ↦ (c :: r.1, r.2)
    | .rbrace =>
      if braces then some ([c], true, t)
      else (tokenLoop isValue false braces t).map fun r ↦ (c :: r.1, r.2)
    | .other => (tokenLoop isValue false braces t).map fun r ↦ (c :: r.1, r.2)

/-- `parse_token`: the token without its braces, and the rest. -/
def parseToken (isValue : Bool) (text : WStr) : Option (WStr × WStr) :=
  (tokenLoop isValue true false text).map fun r ↦
    (if r.2.1 then r.1.tail.dropLast else r.1, r.2.2)

/-- One turn of the loop of `parse_connection_string`, from the unit `skip_ws` stops at. -/
def parseTurn (attrs : DsnAttrs) (text : WStr) : Option (DsnAttrs × WStr) :=
  (parseToken false text).bind fun (keyword, text) ↦
    let ws := skipWs false text
    if !ws.2 then none
    else if ws.1.head? ≠ some 0x3D then none
    else
      let ws := skipWs false ws.1.tail
      if !ws.2 then some (attrs, ws.1)
      else
        (parseToken true ws.1).bind fun (value, text) ↦
          (assignDsnAttr attrs keyword value true).map fun r ↦ (r.2, text)

/-- The loop of `parse_connection_string`.  Each turn moves on, so that as many turns as
there are units are enough. -/
def parseLoop : ℕ → DsnAttrs → WStr → Option DsnAttrs
  | 0, _, _ => none
  | n + 1, attrs, text =>
    let ws := skipWs true text
    if !ws.2 then some attrs
    else (parseTurn attrs ws.1).bind fun r ↦ parseLoop n r.1 r.2

/-- `parse_connection_string` on a text of known length. -/
def parseConnectionString (attrs : DsnAttrs) (text : WStr) : Option DsnAttrs :=
  parseLoop (text.length + 1) attrs text

/-- `needs_braces`. -/
def needsBraces (v : WStr) : Bool :=
  v.any fun c ↦ tokChar c == .blank || tokChar c == .equals || tokChar c == .semicolon

/-- `swprintf` into a buffer, at a position it has: what does not fit with a terminator is
cut off. -/
def swprintf (buf : WStr) (pos : ℕ) (text : WStr) : WStr :=
  let out := text.take (buf.length - pos - 1) ++ [0]
  buf.take pos ++ (out ++ buf.drop (pos + out.length))

/-- The text of one attribute.  The format takes a value up to a terminator in it. -/
def attrText (keyword value : WStr) (braces : Bool) : WStr :=
  let value := value.takeWhile (· ≠ 0)
  keyword ++ 0x3D :: ((if braces then 0x7B :: (value ++ [0x7D]) else value) ++ [0x3B])

/-- One turn of the loop of `write_connection_string`. -/
def writeAttr (attrs : DsnAttrs) (out : WStr × ℕ) (a : DsnAttr) : WStr × ℕ :=
  let value := attrs.val a
  if value ≠ [] then
    let braces := needsBraces value
    (if out.2 < out.1.length then swprintf out.1 out.2 (attrText a.keyword value braces)
      else out.1,
      out.2 + (a.keyword.length + 1 + value.length + (if braces then 2 else 0) + 1))
  else
    out

/-- `write_connection_string` into a buffer: its content after it, and the count of units
the text has. -/
def writeConnectionString (attrs : DsnAttrs) (buf : WStr) : WStr × ℕ :=
  DsnAttr.all.foldl (writeAttr attrs) (buf, 0)

/-- The attributes `EsSQLConnectW` collects. -/
def connectAttrs (dsn uid pwd : WStr) : Option DsnAttrs :=
  ((assignDsnAttr .init DsnAttr.dsn.keyword dsn false).bind fun r ↦
    assignDsnAttr r.2 DsnAttr.uid.keyword uid false).bind fun r ↦
      (assignDsnAttr r.2 DsnAttr.pwd.keyword pwd false).map (·.2)

/-- `EsSQLConnectW`, up to the attributes that `EsSQLDriverConnectW` reads from the
connection string; `buf` is what its buffer holds before. -/
def esSQLConnectW (dsn uid pwd buf : WStr) : Option DsnAttrs :=
  (connectAttrs dsn uid pwd).bind fun attrs ↦
    let out := writeConnectionString attrs buf
    parseConnectionString .init (out.1.take out.2)

end EsOdbc
