import EsOdbc.Ujson
import EsOdbc.Lib.Cbor
import EsOdbc.Lib.Utf

/-!
# Reading CBOR answers

The functions of tinycbor the driver calls on an answer, and the ones `tinycbor.c` adds.
Decoding itself is taken as correct: an iterator is the list of the items that remain in
its container, so that entering a container gives its items and the end of a container
is the empty list.  What is kept of tinycbor's own behaviour is what the driver can run
into: a tag is an element of its own to an iterator, and an element that nests too deep
cannot be skipped.
-/

namespace EsOdbc

open Cbor (Item)

/-- The errors of tinycbor that reach the modelled functions. -/
inductive CborError where
  | unknownLength
  | advancePastEOF
  | nestingTooDeep
  | inappropriateTagForType
  | improperValue
  | invalidUtf8TextString
  | dataTooLarge
deriving DecidableEq, Repr

/-- `CBOR_PARSER_MAX_RECURSIONS`, as the build defines it. -/
def cborParserMaxRecursions : Nat := 16

/-- `cbor_value_advance`: past a tag comes what it tags. -/
def cborValueAdvance : List Item → Except CborError (List Item)
  | [] => .error .advancePastEOF
  | .tag _ x :: rest => .ok (x :: rest)
  | x :: rest =>
    if x.depth ≤ cborParserMaxRecursions then .ok rest else .error .nestingTooDeep

/-- `cbor_value_skip_tag`. -/
def cborValueSkipTag : List Item → List Item
  | [] => []
  | x :: rest => x.untag :: rest

/-- The loop of `cbor_value_exit_container`: advance to the end of the container.  The
tags in front of an element are skipped one by one, which cannot fail. -/
def cborValueExitContainer : List Item → Except CborError Unit
  | [] => .ok ()
  | x :: rest =>
    match cborValueAdvance (x.untag :: rest) with
    | .ok _ => cborValueExitContainer rest
    | .error e => .error e

/-- `cbor_value_get_string_chunk` on a string of known length, `none` on a chunked one:
there it hands out the first chunk and leaves the iterator among the others, from where
nothing that follows is read as the item it is. -/
def cborValueGetStringChunk : Item → Option CStr
  | .text b | .bytes b => some b
  | _ => none

/-- `cbor_value_get_unchunked_string`. -/
def cborValueGetUnchunkedString : Item → Except CborError CStr
  | .text b | .bytes b => .ok b
  | _ => .error .unknownLength

/-- The bytes of a text string, however many chunks it came in. -/
def textBytes : Item → Option CStr
  | .text b => some b
  | .textChunks cs => some cs.flatten
  | _ => none

/-- `cbor_value_is_text_string`. -/
def isTextString (x : Item) : Bool := (textBytes x).isSome

/-- `tolower` in the C locale. -/
def toLower (b : UInt8) : UInt8 := if 0x41 ≤ b ∧ b ≤ 0x5A then b + 0x20 else b

/-- `strncasecmp(a, b, len) == 0` for strings of that length without NULs in `a`. -/
def caseEq (a b : CStr) : Bool := a.map toLower == b.map toLower

/-- The loop of `cbor_map_lookup_keys` over an entered map: the value of each key that is
met, until all are found.  `key` is the key whose value comes next; `none` when a key is a
chunked string. -/
def lookupLoop (keys : List CStr) : (objs : List (Option Item)) → (found : Nat) →
    (key : Option CStr) → List Item → Option (Except CborError (List (Option Item)))
  | objs, _, none, [] => some (.ok objs)
  | _, _, some _, [] => some (.error .advancePastEOF)
  | objs, found, none, k :: rest =>
    if keys.length ≤ found then some ((cborValueExitContainer (k :: rest)).map fun _ ↦ objs)
    else if isTextString k.untag then
      match cborValueGetStringChunk k.untag with
      | none => none
      | some b => lookupLoop keys objs found (some b) rest
    -- only a text can be a key; anything else is stepped over like a value
    else if k.depth ≤ cborParserMaxRecursions then lookupLoop keys objs found none rest
    else some (.error .nestingTooDeep)
  | objs, found, some b, v :: rest =>
    if v.depth ≤ cborParserMaxRecursions then
      match keys.findIdx? (caseEq · b) with
      -- the value's tags are part of what is handed out
      | some i => lookupLoop keys (objs.set i (some v)) (found + 1) none rest
      | none => lookupLoop keys objs found none rest
    else some (.error .nestingTooDeep)

/-- `cbor_map_lookup_keys`: for each key its value, or `none` for `CborInvalidType`. -/
def cborMapLookupKeys (entries : List Item) (keys : List CStr) :
    Option (Except CborError (List (Option Item))) :=
  lookupLoop keys (keys.map fun _ ↦ none) 0 none entries

/-- `cbor_get_array_count`; counting the elements of an array of unknown length steps
over them. -/
def cborGetArrayCount (indef : Bool) (items : List Item) : Except CborError Nat :=
  if indef then (cborValueExitContainer items).map fun _ ↦ items.length else .ok items.length

/-- The value of a big-endian byte string. -/
def bigEndian (b : CStr) : Nat := b.foldl (fun n x ↦ n * 256 + x.toNat) 0

/-- `cbor_value_get_tagged_uint64`: a positive bignum in one chunk, with any number of
leading zero bytes. -/
def cborValueGetTaggedUint64 (tag : UInt64) (content : Item) : Except CborError UInt64 :=
  if tag ≠ 2 then .error .inappropriateTagForType
  else match content with
    | .bytes b =>
      if (b.take (b.length - 8)).all (· == 0) then
        .ok (.ofNat (bigEndian (b.drop (b.length - 8))))
      else .error .improperValue
    | .bytesChunks _ => .error .unknownLength
    | _ => .error .improperValue

/-- `cbor_value_get_int64_checked` on an integer item. -/
def cborValueGetInt64Checked : Item → Except CborError Int
  | .uint n => if n.toNat < 2 ^ 63 then .ok n.toNat else .error .dataTooLarge
  | .nint n => if n.toNat < 2 ^ 63 then .ok (-1 - n.toNat) else .error .dataTooLarge
  | _ => .error .improperValue

/-- `U8MB_TO_U16WC`: strict, and failing on an empty source. -/
def u8mbToU16wc (b : CStr) : Option WStr :=
  if b.isEmpty then none else (Utf.utf8Decode b).map Utf.utf16

/-- `cbor_value_get_utf16_wstr`: an empty text is let through. -/
def cborValueGetUtf16Wstr (b : CStr) : Except CborError WStr :=
  if b.isEmpty then .ok []
  else match u8mbToU16wc b with
    | some w => .ok w
    | none => .error .invalidUtf8TextString

/-- `decode_half`, to the bits of the double. -/
def decodeHalf (h : UInt16) : UInt64 :=
  let sign := h.toNat / 0x8000
  let exp := h.toNat / 0x400 % 0x20
  let mant := h.toNat % 0x400
  .ofNat (sign * 2 ^ 63 +
    if exp = 31 then 0x7FF * 2 ^ 52 + (if mant = 0 then 0 else 2 ^ 51)
    else if exp ≠ 0 then (exp - 15 + 1023) * 2 ^ 52 + mant * 2 ^ 42
    else if mant = 0 then 0
    -- subnormal: mant * 2^-24, with the leading bit of mant made implicit
    else (mant.log2 + 1023 - 24) * 2 ^ 52 + (mant * 2 ^ (52 - mant.log2) - 2 ^ 52))

/-- The conversion of a `float` to a `double`, on their bits. -/
def floatToDouble (f : UInt32) : UInt64 :=
  let sign := f.toNat / 2 ^ 31
  let exp := f.toNat / 2 ^ 23 % 0x100
  let mant := f.toNat % 2 ^ 23
  .ofNat (sign * 2 ^ 63 +
    if exp = 255 then 0x7FF * 2 ^ 52 + (if mant = 0 then 0 else 2 ^ 51 + mant % 2 ^ 22 * 2 ^ 29)
    else if exp ≠ 0 then (exp + 1023 - 127) * 2 ^ 52 + mant * 2 ^ 29
    else if mant = 0 then 0
    -- subnormal: mant * 2^-149
    else (mant.log2 + 1023 - 149) * 2 ^ 52 + (mant * 2 ^ (52 - mant.log2) - 2 ^ 52))

end EsOdbc
