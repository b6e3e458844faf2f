import Mathlib

/-!
# The values of a decoded JSON answer

UJSON4C parses a whole answer before the driver looks at it; what the driver then calls
are the accessors below.  Decoding itself is taken as correct: a body is its value.
-/

namespace EsOdbc

/-- A wide string, without its terminator. -/
abbrev WStr := List UInt16

/-- A byte string, without its terminator. -/
abbrev CStr := List UInt8

/-- A wide string literal of the source. -/
def wstr (s : String) : WStr := s.toList.map fun c ↦ .ofNat c.toNat

/-- A byte string literal of the source. -/
def cstr (s : String) : CStr := s.toList.map fun c ↦ .ofNat c.toNat

/-- `towlower` in the C locale. -/
def toWlower (c : UInt16) : UInt16 := if 0x41 ≤ c ∧ c ≤ 0x5A then c + 0x20 else c

/-- `EQ_CASE_WSTR`. -/
def eqCaseWstr (a b : WStr) : Bool := a.map toWlower == b.map toWlower

/-- `UJObject` by its `UJGetType`; `UJT_Long` and `UJT_LongLong` are read alike. -/
inductive UJValue where
  | null
  | bool (b : Bool)
  | longLong (i : Int)
  | unsignedLongLong (n : UInt64)
  /-- The bits of the double. -/
  | double (bits : UInt64)
  | string (s : WStr)
  | array (items : List UJValue)
  | object (members : List (WStr × UJValue))
deriving Repr

namespace UJValue

def isArray : UJValue → Bool
  | .array _ => true
  | _ => false

def isString : UJValue → Bool
  | .string _ => true
  | _ => false

/-- `UJBeginArray`: an iterator is the elements to come, and `NULL` the empty list. -/
def beginArray : UJValue → List UJValue
  | .array items => items
  | _ => []

/-- `UJLengthArray`. -/
def lengthArray : UJValue → Int
  | .array items => items.length
  | _ => -1

/-- `UJReadString`. -/
def readString : UJValue → WStr
  | .string s => s
  | _ => []

/-- `wcscmp(key, name) == 0` for a name without NULs. -/
def keyIs (key name : WStr) : Bool := key.takeWhile (· ≠ 0) == name

/-- `UJObjectUnpack` for one key: the first member of the name and type asked for. -/
def unpack (name : WStr) (type : UJValue → Bool) : UJValue → Option UJValue
  | .object members => (members.find? fun m ↦ keyIs m.1 name && type m.2).map Prod.snd
  | _ => none

end UJValue

end EsOdbc
