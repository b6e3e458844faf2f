import EsOdbc.Interval.Qualifier

/-!
# Parsing an interval literal

`parse_interval_literal` and `sql2c_interval` of `convert.c`.
-/

namespace EsOdbc

/-- `INTERVAL`. -/
def wordInterval : WStr := [0x49, 0x4E, 0x54, 0x45, 0x52, 0x56, 0x41, 0x4C]

/-- The steps over enclosing braces. -/
def stripBraces (w : WStr) : Option WStr :=
  if w.head? = some 0x7B ∧ w.getLast? = some 0x7D then
    let w := wrtrimWs (wltrimWs w.tail.dropLast)
    if w.length ≤ wordInterval.length then none else some w
  else some w

/-- The steps over `INTERVAL`. -/
def literalBody (w : WStr) : Option WStr :=
  if w.length < wordInterval.length + 4 then none
  else
    (stripBraces w).bind fun w ↦
      if ¬eqCaseWstr (w.take wordInterval.length) wordInterval then none
      else some (wltrimWs (w.drop wordInterval.length))

/-- What `parse_interval_literal` has found when it parses the value. -/
structure LiteralHead where
  type : IntervalType
  sign : Bool
  /-- The slice with the value. -/
  value : WStr
  /-- The unit behind the slice. -/
  behind : Option UInt16
  /-- The count of units went below 0. -/
  wrapped : Bool
deriving DecidableEq

/-- The step over enclosing quotes, of the text `value` that `behind` follows.  The two quotes
that are compared are one where the text is a single quote: the slice then is all that follows.
Of no text the units compared are those around it, none of them a quote. -/
def stripQuotes (type : IntervalType) (sign : Bool) (value behind : WStr) : LiteralHead :=
  if value.head? = some 0x27 ∧ value.getLast? = some 0x27 then
    if value.length = 1 then ⟨type, sign, behind, none, true⟩
    else ⟨type, sign, value.tail.dropLast, some 0x27, false⟩
  else ⟨type, sign, value, behind.head?, false⟩

/-- `parse_interval_literal` up to the value. -/
def literalHead (w : WStr) : Option LiteralHead :=
  (literalBody w).bind fun w ↦
    (parseIntervalType w).map fun found ↦
      let text := found.2
      let negative := text.head? = some 0x2D
      let value := if negative ∨ text.head? = some 0x2B then wltrimWs text.tail else text
      stripQuotes found.1 negative value (w.drop text.length)

/-- `parse_interval_literal`, with the type it leaves in the interval. -/
def parseIntervalLiteral (r : IvlRec) (w : WStr) : Option IntervalType × Except Halt SqlInterval :=
  match literalHead w with
  | none => (none, .error (.fail .s22018))
  | some h =>
    (some h.type, (parseIntervalLiteralValue r h.type h.behind h.value .zero).map
      fun v ↦ ⟨h.type, h.sign, v⟩)

/-- `sql2c_interval`, of a character column or of one of an interval type.  Without a type the
table of C types is read before its start. -/
def sql2cInterval (r : IvlRec) (varchar : Bool) (ctype : IntervalType) (w : WStr) :
    Except Halt (SqlReturn × SqlInterval) :=
  if w = [] then .error (.fail .s22018)
  else if varchar then
    match (parseIntervalLiteral r w).1 with
    | none => .error .undefined
    | some t =>
      if t ≠ ctype then .error (.fail .s07006)
      else (parseIntervalLiteral r w).2.map (.success, ·)
  else parseIntervalIso8601 (Int16.ofNat r.precision) ctype w

end EsOdbc
