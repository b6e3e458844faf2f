import EsOdbc.Tinycbor
import EsOdbc.Handles
import EsOdbc.Lib.Json

/-!
# Requests with a cursor

`serialize_statement` on a statement with a pending cursor (`queries.c`), for the two ways to
pack a request, and what a receiver reads as the cursor.  Encoding CBOR is taken as correct: a
body is its item.
-/

namespace EsOdbc

open Cbor (Item)

variable {σ : Type}

/-- A cursor as it was received: decoded by the JSON parser, or in the bytes of a CBOR answer. -/
inductive Cursor where
  | json (w : WStr)
  | cbor (b : CStr)
deriving DecidableEq, Repr

/-- The cursor is the text of the bytes. -/
def Cursor.Is (t : CStr) : Cursor → Prop
  | .json w => (Utf.utf8Decode t).map Utf.utf16 = some w
  | .cbor b => t = b

/-- The pending cursor. -/
def Stmt.cursor (s : Stmt σ) : Option Cursor :=
  if s.hasCursor then
    some (if s.rset.packJson then .json s.rset.json.curs else .cbor s.rset.cbor.curs)
  else none

/-! ## The body -/

/-- How a connection packs its requests: as JSON or as CBOR (`pack_json`), into buffers with
`stale` content. -/
structure Wire where
  packJson : Bool
  stale : ℕ → UInt8

/-- The body of a request. -/
inductive Body where
  | json (b : CStr)
  | cbor (x : Item)
deriving Repr

def reqKeyCursor : String := "cursor"
def reqKeyMode : String := "mode"
def reqKeyCltId : String := "client_id"
def reqKeyBinaryFmt : String := "binary_format"
def reqValMode : String := "ODBC"
def reqValCltId : String := "odbc64"

/-- The brace in front of a body, and the first key. -/
def jsonKeyCursor : CStr := cstr "\x7b\"cursor\": "

/-- The members behind the cursor. -/
def jsonTail : CStr :=
  cstr ", \"mode\": \"ODBC\", \"client_id\": \"odbc64\", \"binary_format\": false\x7d"

/-- `ascii_w2c`, into a buffer of the length of the source; past a NUL the buffer stays as it
was. -/
def asciiW2c (stale : ℕ → UInt8) (src : WStr) : Option CStr :=
  let head := src.takeWhile (· ≠ 0)
  if src.isEmpty || !head.all (· ≤ 127) then none
  else if head.length < src.length then
    some (head.map UInt16.toUInt8 ++
      0 :: (List.range' (head.length + 1) (src.length - head.length - 1)).map stale)
  else some (head.map UInt16.toUInt8)

/-- The bytes that a cursor is sent as. -/
def Cursor.bytes (w : Wire) : Cursor → Option CStr
  | .json c => asciiW2c w.stale c
  | .cbor b => some b

/-- `serialize_to_json` and `serialize_to_cbor`, for a cursor. -/
def Body.ofCursor (packJson : Bool) (curs : CStr) : Body :=
  if packJson then .json (jsonKeyCursor ++ Json.quote :: curs ++ Json.quote :: jsonTail)
  else .cbor (.map false
    [.text (cstr reqKeyCursor), .text curs, .text (cstr reqKeyMode), .text (cstr reqValMode),
      .text (cstr reqKeyCltId), .text (cstr reqValCltId), .text (cstr reqKeyBinaryFmt), .bool true])

/-- The body of a request for the statement, if it has a cursor and this can be packed. -/
def Stmt.cursorBody (w : Wire) (s : Stmt σ) : Option Body := do
  return .ofCursor w.packJson (← (← s.cursor).bytes w)

/-! ## What is read -/

/-- What a body's first member, a cursor, is read as. -/
def Body.cursor : Body → Option CStr
  | .json b =>
    if jsonKeyCursor ++ [Json.quote] <+: b then
      (Json.string (b.drop (jsonKeyCursor.length + 1))).map Prod.fst
    else none
  | .cbor (.map _ (key :: value :: _)) =>
    if textBytes key = some (cstr reqKeyCursor) then textBytes value else none
  | .cbor _ => none

/-- The body carries exactly the cursor. -/
def Body.Carries (b : Body) (c : Cursor) : Prop := ∃ t, b.cursor = some t ∧ c.Is t

/-- The cursor can be sent: one from a JSON answer is of ASCII, without NUL, and nothing in it has
to be escaped where the request is JSON. -/
def Cursor.Sendable (packJson : Bool) : Cursor → Prop
  | .json w => ∀ u ∈ w, u ≠ 0 ∧ u ≤ 127 ∧ (packJson = true → Json.Plain u.toUInt8)
  | .cbor b => packJson = true → ∀ x ∈ b, Json.Plain x

theorem Body.cursor_ofCursor {packJson : Bool} {curs : CStr}
    (h : packJson = true → ∀ x ∈ curs, Json.Plain x) :
    (Body.ofCursor packJson curs).cursor = some curs := by
  cases packJson with
  | true =>
    have hpre : jsonKeyCursor ++ Json.quote :: curs ++ Json.quote :: jsonTail =
        jsonKeyCursor ++ [Json.quote] ++ (curs ++ Json.quote :: jsonTail) := by simp
    rw [ofCursor, if_pos rfl, Body.cursor, hpre, if_pos (List.prefix_append _ _)]
    have hdrop : (jsonKeyCursor ++ [Json.quote] ++ (curs ++ Json.quote :: jsonTail)).drop
        (jsonKeyCursor.length + 1) = curs ++ Json.quote :: jsonTail :=
      List.drop_left' (List.length_append.trans rfl)
    rw [hdrop, Json.string_plain (h rfl)]
    rfl
  | false => rfl

/-- The units of an ASCII text. -/
theorem utf16_utf8Decode_ascii {w : WStr} (h : ∀ u ∈ w, u ≤ 127) :
    (Utf.utf8Decode (w.map UInt16.toUInt8)).map Utf.utf16 = some w := by
  induction w with
  | nil => rfl
  | cons u w ih =>
    have hu : u.toNat ≤ 127 := h u List.mem_cons_self
    have hval : (Char.ofNat u.toNat).toNat = u.toNat := by
      rw [Char.toNat_ofNat, if_pos (.inl (by omega))]
    have h8 : String.utf8EncodeChar (Char.ofNat u.toNat) = [u.toUInt8] := by
      change (Char.ofNat u.toNat).val.toNat = _ at hval
      rw [String.utf8EncodeChar, hval]
      exact if_pos hu
    have h16 : Utf.utf16EncodeChar (Char.ofNat u.toNat) = [u] := by
      rw [Utf.utf16EncodeChar, hval, if_pos (by omega), UInt16.ofNat_toNat]
    rw [List.map_cons, ← List.singleton_append, ← h8, Utf.utf8Decode_encodeChar_append,
      Option.map_map]
    have ih := ih fun u hu ↦ h u (List.mem_cons_of_mem _ hu)
    cases hd : Utf.utf8Decode (w.map UInt16.toUInt8) with
    | none => rw [hd] at ih; cases ih
    | some cs =>
      rw [hd, Option.map_some, Option.some.injEq] at ih
      rw [Option.map_some, Function.comp_apply, Utf.utf16_cons, h16, ih]
      rfl

/-- A text of ASCII without NUL is narrowed as it is. -/
theorem asciiW2c_ascii (stale : ℕ → UInt8) {w : WStr} (hne : w ≠ [])
    (h : ∀ u ∈ w, u ≠ 0 ∧ u ≤ 127) : asciiW2c stale w = some (w.map UInt16.toUInt8) := by
  have hhead : w.takeWhile (fun u ↦ decide (u ≠ 0)) = w :=
    List.takeWhile_eq_self_iff.mpr fun u hu ↦ decide_eq_true (h u hu).1
  have hall : w.all (fun u ↦ decide (u ≤ 127)) = true :=
    List.all_eq_true.mpr fun u hu ↦ decide_eq_true (h u hu).2
  rw [asciiW2c, hhead, hall, List.isEmpty_eq_false_iff.mpr hne, if_neg (by decide), if_neg (lt_irrefl _)]

theorem Stmt.cursor_ne_empty {s : Stmt σ} {w : WStr} (h : s.cursor = some (.json w)) : w ≠ [] := by
  rw [Stmt.cursor] at h
  split_ifs at h with hc hp
  · cases h
    rw [Stmt.hasCursor, if_pos hp] at hc
    intro hnil
    rw [hnil] at hc
    cases hc
  · cases h

/-- A request carries a cursor that can be sent. -/
theorem Stmt.cursorBody_carries (w : Wire) {s : Stmt σ} {c : Cursor} (hc : s.cursor = some c)
    (h : c.Sendable w.packJson) : ∃ b, s.cursorBody w = some b ∧ b.Carries c := by
  cases c with
  | json u =>
    have hbytes := asciiW2c_ascii w.stale (Stmt.cursor_ne_empty hc)
      fun x hx ↦ ⟨(h x hx).1, (h x hx).2.1⟩
    refine ⟨.ofCursor w.packJson (u.map UInt16.toUInt8), ?_, _, Body.cursor_ofCursor ?_, ?_⟩
    · rw [cursorBody, hc]
      change (Option.bind (asciiW2c w.stale u) _) = _
      rw [hbytes]
      rfl
    · intro hp x hx
      obtain ⟨y, hy, rfl⟩ := List.mem_map.mp hx
      exact (h y hy).2.2 hp
    · exact utf16_utf8Decode_ascii fun x hx ↦ (h x hx).2.1
  | cbor b =>
    refine ⟨.ofCursor w.packJson b, ?_, b, Body.cursor_ofCursor h, rfl⟩
    rw [cursorBody, hc]
    rfl

end EsOdbc
