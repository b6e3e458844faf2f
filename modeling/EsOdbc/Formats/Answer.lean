import EsOdbc.Columns
import EsOdbc.RowView

/-!
# Answers apart from their format

What an answer says, and the ways to say it in JSON and in CBOR.  The functions that look
keys up, read columns and read values find the same in every encoding of an answer, as far
as CBOR strings come in one piece where the driver needs them to.
-/

namespace EsOdbc

open Cbor (Item)

/-! ## Answers -/

/-- A value of a row. -/
inductive LogicalValue where
  | null
  | bool (b : Bool)
  /-- An integer in the range of `long long`. -/
  | int (i : Int) (range : -2 ^ 63 ≤ i ∧ i < 2 ^ 63)
  /-- An unsigned integer above that range. -/
  | big (n : UInt64) (range : 2 ^ 63 ≤ n.toNat)
  /-- The bits of the double. -/
  | double (bits : UInt64)
  | string (s : List Char)

/-- The name and the type of a column. -/
structure LogicalColumn where
  name : List Char
  type : List Char

/-- What an answer says.  Only the first one of a result has columns. -/
structure LogicalAnswer where
  columns : Option (List LogicalColumn)
  rows : List (List LogicalValue)
  cursor : Option (List Char)

/-! ## JSON -/

def LogicalValue.json : LogicalValue → UJValue
  | .null => .null
  | .bool b => .bool b
  | .int i _ => .longLong i
  | .big n _ => .unsignedLongLong n
  | .double d => .double d
  | .string s => .string (Utf.utf16 s)

/-- A row is an array. -/
def rowJson (row : List LogicalValue) : UJValue := .array (row.map LogicalValue.json)

/-- An object with the members, in any order. -/
def IsObject (members : List (String × UJValue)) (v : UJValue) : Prop :=
  ∃ ms, v = .object ms ∧ ms.Perm (members.map fun m ↦ (wstr m.1, m.2))

/-- The encodings of a column. -/
def LogicalColumn.Json (c : LogicalColumn) : UJValue → Prop :=
  IsObject [(packParamColName, .string (Utf.utf16 c.name)),
    (packParamColType, .string (Utf.utf16 c.type))]

/-- The encodings of an answer. -/
def LogicalAnswer.Json (a : LogicalAnswer) (v : UJValue) : Prop :=
  ∃ columns, Option.Rel (List.Forall₂ LogicalColumn.Json) a.columns columns ∧
    IsObject ((columns.map fun cs ↦ (packParamColumns, .array cs)).toList ++
      (packParamRows, .array (a.rows.map rowJson)) ::
      (a.cursor.map fun c ↦ (packParamCursor, .string (Utf.utf16 c))).toList) v

/-! ## CBOR -/

/-- A text of the bytes, in one piece, or in chunks if they are allowed. -/
inductive IsText (chunks : Bool) (b : CStr) : Item → Prop where
  | whole : IsText chunks b (.text b)
  | chunked {cs : List CStr} : chunks = true → cs.flatten = b → IsText chunks b (.textChunks cs)

/-- A byte string of the bytes. -/
inductive IsBytes (chunks : Bool) (b : CStr) : Item → Prop where
  | whole : IsBytes chunks b (.bytes b)
  | chunked {cs : List CStr} : chunks = true → cs.flatten = b → IsBytes chunks b (.bytesChunks cs)

/-- The encodings of a value; `chunks` is whether a bignum may come in chunks. -/
inductive LogicalValue.Cbor (chunks : Bool) : LogicalValue → Item → Prop where
  | null : LogicalValue.Cbor chunks .null .null
  | bool (b : Bool) : LogicalValue.Cbor chunks (.bool b) (.bool b)
  | uint (n : UInt64) (h : n.toNat < 2 ^ 63) :
      LogicalValue.Cbor chunks (.int n.toNat ⟨by omega, by omega⟩) (.uint n)
  | nint (n : UInt64) (h : n.toNat < 2 ^ 63) :
      LogicalValue.Cbor chunks (.int (-1 - n.toNat) ⟨by omega, by omega⟩) (.nint n)
  | big (n : UInt64) (h : 2 ^ 63 ≤ n.toNat) {b : CStr} {x : Item} : bigEndian b = n.toNat →
      IsBytes chunks b x → LogicalValue.Cbor chunks (.big n h) (.tag 2 x)
  | half (h : UInt16) : LogicalValue.Cbor chunks (.double (decodeHalf h)) (.half h)
  | float (f : UInt32) : LogicalValue.Cbor chunks (.double (floatToDouble f)) (.float f)
  | double (d : UInt64) : LogicalValue.Cbor chunks (.double d) (.double d)
  | string (s : List Char) {x : Item} : IsText true (Utf.utf8 s) x →
      LogicalValue.Cbor chunks (.string s) x

/-- The encodings of a row. -/
inductive RowCbor (chunks : Bool) (row : List LogicalValue) : Item → Prop where
  | array (indef : Bool) {xs : List Item} :
      List.Forall₂ (LogicalValue.Cbor chunks) row xs → RowCbor chunks row (.array indef xs)

/-- The keys and values of a map in turn. -/
inductive IsEntries (chunks : Bool) : List (String × Item) → List Item → Prop where
  | nil : IsEntries chunks [] []
  | cons {key : String} {k v : Item} {ps : List (String × Item)} {xs : List Item} :
      IsText chunks (cstr key) k → IsEntries chunks ps xs →
        IsEntries chunks ((key, v) :: ps) (k :: v :: xs)

/-- A map with the members, in any order. -/
def IsMap (chunks : Bool) (members : List (String × Item)) (x : Item) : Prop :=
  ∃ indef ps xs, x = .map indef xs ∧ ps.Perm members ∧ IsEntries chunks ps xs

/-- The encodings of a column. -/
def LogicalColumn.Cbor (chunks : Bool) (c : LogicalColumn) (x : Item) : Prop :=
  ∃ name type, IsText chunks (Utf.utf8 c.name) name ∧ IsText chunks (Utf.utf8 c.type) type ∧
    IsMap chunks [(packParamColName, name), (packParamColType, type)] x

/-- An array of the items. -/
def IsArray (xs : List Item) (x : Item) : Prop := ∃ indef, x = .array indef xs

/-- The encodings of an answer; `chunks` is whether its keys, the names and types of its
columns and its bignums may come in chunks.  Other strings always may. -/
def LogicalAnswer.Cbor (chunks : Bool) (a : LogicalAnswer) (x : Item) : Prop :=
  ∃ columns rows rowItems cursor,
    Option.Rel (fun cols x ↦ ∃ xs, List.Forall₂ (LogicalColumn.Cbor chunks) cols xs ∧ IsArray xs x)
      a.columns columns ∧
    List.Forall₂ (RowCbor chunks) a.rows rowItems ∧ IsArray rowItems rows ∧
    Option.Rel (fun c ↦ IsText true (Utf.utf8 c)) a.cursor cursor ∧
    IsMap chunks ((columns.map fun cs ↦ (packParamColumns, cs)).toList ++ (packParamRows, rows) ::
      (cursor.map fun c ↦ (packParamCursor, c)).toList) x

end EsOdbc
