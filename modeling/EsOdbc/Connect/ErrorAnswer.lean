import EsOdbc.Diag.Record
import EsOdbc.Tinycbor

/-!
# Error answers in CBOR

`attach_error` on a CBOR body, with `attach_error_cbor` (`queries.c`) and the lookup of keys it
calls (`tinycbor.c`), over any body: tinycbor's primitives are a parameter, of which only their
progress through the bytes is known, so that a body can be cut off anywhere.  Entering a value
that is no container has no defined behaviour, and neither has a write past the message buffer.
-/

namespace EsOdbc

open Cbor (Item)

/-! ## Primitives -/

/-- `CborType`. -/
inductive CborType where
  | integer | byteString | textString | array | map | tag | simple | boolean | null | undefined
  | halfFloat | float | double | invalid
deriving DecidableEq, Repr

/-- `cbor_value_is_container`. -/
def CborType.isContainer : CborType → Bool
  | .array | .map => true
  | _ => false

/-- The functions of tinycbor on its iterators; none is an error.  `left` is how many bytes lie
ahead of an iterator. -/
structure TinycborOps (V : Type) where
  parserInit : CStr → Option V
  type : V → CborType
  atEnd : V → Bool
  enterContainer : V → Option V
  leaveContainer : V → V → Option V
  advance : V → Option V
  skipTag : V → Option V
  getStringChunk : V → Option (CStr × V)
  getIntChecked : V → Option ℤ
  /-- The bytes of a text, in however many chunks it comes. -/
  getText : V → Option CStr
  left : V → ℕ
  left_advance : ∀ {v w}, advance v = some w → left w < left v
  left_skipTag : ∀ {v w}, skipTag v = some w → left w ≤ left v
  left_getStringChunk : ∀ {v b w}, getStringChunk v = some (b, w) → left w < left v

namespace TinycborOps

variable {V : Type} (t : TinycborOps V)

/-- The type of a value that a lookup hands out. -/
def typeOf (o : Option V) : CborType := o.elim .invalid t.type

/-! ## `cbor_map_lookup_keys` -/

/-- The loop of `cbor_value_exit_container`. -/
def skipRest (it : V) : Option V :=
  if t.atEnd it then some it
  else
    match _h : t.advance it with
    | none => none
    | some it' => skipRest it'
termination_by t.left it
decreasing_by exact t.left_advance _h

/-- The key at an iterator, if it is a text: the values found and their number, and the iterator
behind it. -/
def takeKey (keys : List CStr) (objs : List (Option V)) (found : ℕ) (it : V) :
    Option (List (Option V) × ℕ × V) :=
  if t.type it = .textString then
    (t.getStringChunk it).map fun r ↦
      match keys.findIdx? (caseEq · r.1) with
      | some i => (objs.set i (some r.2), found + 1, r.2)
      | none => (objs, found, r.2)
  else some (objs, found, it)

/-- One turn of the loop of `cbor_map_lookup_keys`. -/
def lookupStep (keys : List CStr) (objs : List (Option V)) (found : ℕ) (it : V) :
    Option (List (Option V) × ℕ × V) :=
  (t.skipTag it).bind fun it ↦
  (t.takeKey keys objs found it).bind fun r ↦
  (t.skipTag r.2.2).bind fun it ↦
  (t.advance it).map fun it ↦ (r.1, r.2.1, it)

theorem left_takeKey {keys : List CStr} {objs : List (Option V)} {found : ℕ} {it : V}
    {r : List (Option V) × ℕ × V} (h : t.takeKey keys objs found it = some r) :
    t.left r.2.2 ≤ t.left it := by
  rw [takeKey] at h
  by_cases htext : t.type it = .textString
  · rw [if_pos htext, Option.map_eq_some_iff] at h
    obtain ⟨⟨b, w⟩, hchunk, rfl⟩ := h
    have hlt := t.left_getStringChunk hchunk
    cases keys.findIdx? (caseEq · b) with
    | none => exact hlt.le
    | some i => exact hlt.le
  · rw [if_neg htext, Option.some.injEq] at h
    rw [← h]

theorem left_lookupStep {keys : List CStr} {objs : List (Option V)} {found : ℕ} {it : V}
    {r : List (Option V) × ℕ × V} (h : t.lookupStep keys objs found it = some r) :
    t.left r.2.2 < t.left it := by
  rw [lookupStep] at h
  simp only [Option.bind_eq_some_iff, Option.map_eq_some_iff] at h
  obtain ⟨it₁, h₁, r₁, h₂, it₂, h₃, it₃, h₄, rfl⟩ := h
  calc t.left it₃ < t.left it₂ := t.left_advance h₄
    _ ≤ t.left r₁.2.2 := t.left_skipTag h₃
    _ ≤ t.left it₁ := t.left_takeKey h₂
    _ ≤ t.left it := t.left_skipTag h₁

/-- The loop of `cbor_map_lookup_keys`: the values, and where it ends. -/
def lookupTurns (keys : List CStr) (objs : List (Option V)) (found : ℕ) (it : V) :
    Option (List (Option V) × V) :=
  if t.atEnd it ∨ keys.length ≤ found then some (objs, it)
  else
    match _h : t.lookupStep keys objs found it with
    | none => none
    | some r => lookupTurns keys r.1 r.2.1 r.2.2
termination_by t.left it
decreasing_by exact t.left_lookupStep _h

theorem lookupTurns_done {keys : List CStr} {found : ℕ} {it : V}
    (h : t.atEnd it = true ∨ keys.length ≤ found) (objs : List (Option V)) :
    t.lookupTurns keys objs found it = some (objs, it) := by
  rw [lookupTurns, if_pos h]

theorem lookupTurns_step {keys : List CStr} {found : ℕ} {it : V} {objs : List (Option V)}
    {r : List (Option V) × ℕ × V} (h : ¬(t.atEnd it = true ∨ keys.length ≤ found))
    (hstep : t.lookupStep keys objs found it = some r) :
    t.lookupTurns keys objs found it = t.lookupTurns keys r.1 r.2.1 r.2.2 := by
  rw [lookupTurns, if_neg h]
  split
  · rename_i hnone
    rw [hstep] at hnone
    cases hnone
  · rename_i r' hsome
    rw [hstep] at hsome
    rw [Option.some.inj hsome]

/-- `cbor_map_lookup_keys`: the values, none for an invalid one. -/
def lookupKeys (map : Option V) (keys : List CStr) : Exec (Option (List (Option V))) :=
  match map with
  | none => .undefined
  | some map =>
    if !(t.type map).isContainer then .undefined
    else .done <|
      (t.enterContainer map).bind fun it ↦
      (t.lookupTurns keys (keys.map fun _ ↦ none) 0 it).bind fun r ↦
      (t.skipRest r.2).bind fun it ↦
      (t.leaveContainer map it).map fun _ ↦ r.1

/-! ## `attach_error_cbor` -/

/-- `cbor_value_get_utf16_wstr`. -/
def getUtf16Wstr (o : Option V) : Option WStr :=
  (o.bind t.getText).bind fun b ↦ (cborValueGetUtf16Wstr b).toOption

end TinycborOps

def packParamError : String := "error"
def packParamStatus : String := "status"
def packParamErrRcause : String := "root_cause"
def packParamErrType : String := "type"
def packParamErrReason : String := "reason"

/-- `SQL_MAX_MESSAGE_LENGTH`. -/
def sqlMaxMessageLength : ℕ := 512

/-- Units are copied behind the ones that the message buffer has. -/
def appendMessage (buff units : WStr) : Exec WStr :=
  if sqlMaxMessageLength < buff.length + units.length then .undefined else .done (buff ++ units)

/-- The message of an error with a type and a reason. -/
def errorMessage (typ reason : WStr) : Exec WStr :=
  let cnt := sqlMaxMessageLength - 1
  (appendMessage [] (typ.take (min typ.length cnt))).bind fun buff ↦
  (if 2 + buff.length < cnt then appendMessage buff (wstr ": ") else .done buff).bind fun buff ↦
  let n := if reason.length + buff.length < cnt then reason.length else cnt - buff.length
  (appendMessage buff (reason.take n)).bind fun buff ↦
  (appendMessage buff [0]).bind fun _ ↦ .done buff

namespace TinycborOps

variable {V : Type} (t : TinycborOps V)

/-- The value of the `i`-th key of a lookup. -/
def objAt (objs : List (Option V)) (i : ℕ) : Option V := (objs[i]?).join

/-- The message of an error object, of its type and its reason. -/
def objectMessage (typ reason : Option V) : Exec (Option WStr) :=
  if t.typeOf typ ≠ .textString ∨ t.typeOf reason ≠ .textString then .done none
  else
    match t.getUtf16Wstr typ, t.getUtf16Wstr reason with
    | some typ, some reason => (errorMessage typ reason).bind fun msg ↦ .done (some msg)
    | _, _ => .done none

/-- The part of `attach_error_cbor` behind the lookup of the two keys: the message and the native
code, none where it fails. -/
def errorOf (err status : Option V) : Exec (Option (WStr × ℤ)) :=
  let code : Option ℤ :=
    if t.typeOf status = .integer then status.bind t.getIntChecked else some 0
  match code with
  | none => .done none
  | some code =>
    if t.typeOf err = .textString then .done ((t.getUtf16Wstr err).map fun msg ↦ (msg, code))
    else if t.typeOf status = .integer then
      (t.lookupKeys err
        [cstr packParamErrRcause, cstr packParamErrType, cstr packParamErrReason]).bind fun r ↦
          r.elim (.done none) fun objs ↦
            (t.objectMessage (objAt objs 1) (objAt objs 2)).bind fun msg ↦
              .done (msg.map fun msg ↦ (msg, code))
    else .done none

/-- `attach_error_cbor`: what it posts, none for `FALSE`. -/
def attachErrorCbor (body : CStr) : Exec (Option (WStr × ℤ)) :=
  (t.parserInit body).elim (.done none) fun top ↦
    if t.type top ≠ .map then .done none
    else
      (t.lookupKeys (some top) [cstr packParamError, cstr packParamStatus]).bind fun r ↦
        r.elim (.done none) fun objs ↦ t.errorOf (objAt objs 0) (objAt objs 1)

end TinycborOps

/-- A diagnostic as it is posted; without a text it is the state's own. -/
structure PostedDiag where
  state : EsodbcState
  text : Option WStr
  nativeCode : ℤ
deriving DecidableEq, Repr

/-- The text of a body that is no error of Elasticsearch; `oom` says that there is no memory for
it. -/
def bodyText (body : CStr) (oom : Bool) : Option WStr :=
  if oom then none
  else
    -- the buffer has a unit for each byte, and one for the terminator
    (u8mbToU16wc body).filter fun w ↦ w.length ≤ body.length

/-- `attach_error` on a CBOR body: the diagnostic on the handle. -/
def attachError {V : Type} (t : TinycborOps V) (body : CStr) (oom : Bool) (code : ℤ) :
    Exec PostedDiag :=
  if body.isEmpty then .done ⟨.s08S01, none, code⟩
  else
    (t.attachErrorCbor body).bind fun
      | some (msg, status) => .done ⟨.sHY000, some msg, status⟩
      | none => .done ⟨.s08S01, bodyText body oom, code⟩

/-! ## Answers that end in a diagnostic -/

theorem appendMessage_of_le {buff units : WStr} (h : buff.length + units.length ≤ sqlMaxMessageLength) :
    appendMessage buff units = .done (buff ++ units) := if_neg (not_lt.mpr h)

/-- The message stays in its buffer. -/
theorem errorMessage_done (typ reason : WStr) :
    ∃ msg, errorMessage typ reason = .done msg ∧ msg.length < sqlMaxMessageLength := by
  have hmax : sqlMaxMessageLength = 512 := rfl
  have htyp : (typ.take (min typ.length (sqlMaxMessageLength - 1))).length ≤ 511 := by
    rw [List.length_take]
    omega
  obtain ⟨buff, hsep, hbuff⟩ : ∃ buff : WStr, buff.length ≤ 511 ∧
      (if 2 + (typ.take (min typ.length (sqlMaxMessageLength - 1))).length < sqlMaxMessageLength - 1 then
        appendMessage (typ.take (min typ.length (sqlMaxMessageLength - 1))) (wstr ": ")
      else .done (typ.take (min typ.length (sqlMaxMessageLength - 1)))) = .done buff := by
    have hlen : (wstr ": ").length = 2 := by decide
    by_cases h : 2 + (typ.take (min typ.length (sqlMaxMessageLength - 1))).length <
        sqlMaxMessageLength - 1
    · rw [if_pos h, appendMessage_of_le (by omega)]
      exact ⟨_, by rw [List.length_append]; omega, rfl⟩
    · rw [if_neg h]
      exact ⟨_, htyp, rfl⟩
  have hn : (reason.take (if reason.length + buff.length < sqlMaxMessageLength - 1 then reason.length
      else sqlMaxMessageLength - 1 - buff.length)).length + buff.length ≤ 511 := by
    rw [List.length_take]
    split_ifs <;> omega
  refine ⟨buff ++ reason.take (if reason.length + buff.length < sqlMaxMessageLength - 1
    then reason.length else sqlMaxMessageLength - 1 - buff.length), ?_, ?_⟩
  · unfold errorMessage
    dsimp only
    rw [appendMessage_of_le (by rw [List.length_nil]; omega), Exec.bind_done, List.nil_append, hbuff,
      Exec.bind_done, appendMessage_of_le (by omega), Exec.bind_done, appendMessage_of_le (by
        rw [List.length_append, List.length_singleton]
        omega), Exec.bind_done]
  · rw [List.length_append]
    omega

namespace TinycborOps

variable {V : Type} (t : TinycborOps V)

/-- A lookup in a container comes to an end. -/
theorem lookupKeys_done {o : Option V} (h : (t.typeOf o).isContainer = true) (keys : List CStr) :
    ∃ r, t.lookupKeys o keys = .done r := by
  cases o with
  | none => cases h
  | some v =>
    have hcont : (t.type v).isContainer = true := h
    rw [lookupKeys, hcont]
    exact ⟨_, rfl⟩

theorem lookupKeys_undefined {o : Option V} (h : (t.typeOf o).isContainer = false) (keys : List CStr) :
    t.lookupKeys o keys = .undefined := by
  cases o with
  | none => rfl
  | some v =>
    have hcont : (t.type v).isContainer = false := h
    rw [lookupKeys, hcont]
    rfl

/-- The lookup in the body finds these values for the error and the status. -/
def Answers (body : CStr) (err status : Option V) : Prop :=
  body ≠ [] ∧ ∃ top objs, t.parserInit body = some top ∧ t.type top = .map ∧
    t.lookupKeys (some top) [cstr packParamError, cstr packParamStatus] = .done (some objs) ∧
    objAt objs 0 = err ∧ objAt objs 1 = status

/-- A status that says that the error is an object. -/
def StatusRead (status : Option V) : Prop :=
  t.typeOf status = .integer ∧ (status.bind t.getIntChecked).isSome = true

/-- An error that can be read: a text, or something to enter. -/
def ErrorReadable (err : Option V) : Prop :=
  t.typeOf err = .textString ∨ (t.typeOf err).isContainer = true

theorem objectMessage_done (typ reason : Option V) : ∃ r, t.objectMessage typ reason = .done r := by
  rw [objectMessage]
  by_cases h : t.typeOf typ ≠ .textString ∨ t.typeOf reason ≠ .textString
  · rw [if_pos h]
    exact ⟨_, rfl⟩
  · rw [if_neg h]
    cases t.getUtf16Wstr typ with
    | none => exact ⟨_, rfl⟩
    | some typ =>
      cases t.getUtf16Wstr reason with
      | none => exact ⟨_, rfl⟩
      | some reason =>
        obtain ⟨msg, hmsg, -⟩ := errorMessage_done typ reason
        dsimp only
        rw [hmsg]
        exact ⟨_, rfl⟩

/-- An error is looked into behind an integer for a status. -/
theorem errorOf_done (err status : Option V) :
    (∃ r, t.errorOf err status = .done r) ↔ (t.StatusRead status → t.ErrorReadable err) := by
  unfold errorOf
  dsimp only
  by_cases hint : t.typeOf status = .integer
  · rw [if_pos hint]
    cases hcode : status.bind t.getIntChecked with
    | none =>
      have hread : ¬t.StatusRead status := by
        rintro ⟨-, h⟩
        rw [hcode] at h
        cases h
      exact iff_of_true ⟨_, rfl⟩ fun h ↦ absurd h hread
    | some code =>
      have hread : t.StatusRead status := ⟨hint, by rw [hcode]; rfl⟩
      dsimp only
      by_cases htext : t.typeOf err = .textString
      · rw [if_pos htext]
        exact iff_of_true ⟨_, rfl⟩ fun _ ↦ .inl htext
      rw [if_neg htext, if_pos hint]
      cases hcont : (t.typeOf err).isContainer with
      | false =>
        rw [t.lookupKeys_undefined hcont]
        refine iff_of_false ?_ fun h ↦ ?_
        · rintro ⟨r, hr⟩
          cases hr
        · rcases h hread with h | h
          · exact htext h
          · rw [hcont] at h
            cases h
      | true =>
        obtain ⟨r, hr⟩ := t.lookupKeys_done hcont
          [cstr packParamErrRcause, cstr packParamErrType, cstr packParamErrReason]
        rw [hr, Exec.bind_done]
        refine iff_of_true ?_ fun _ ↦ .inr hcont
        cases r with
        | none => exact ⟨_, rfl⟩
        | some objs =>
          obtain ⟨msg, hmsg⟩ := t.objectMessage_done (objAt objs 1) (objAt objs 2)
          rw [Option.elim_some, hmsg]
          exact ⟨_, rfl⟩
  · rw [if_neg hint]
    have hread : ¬t.StatusRead status := fun h ↦ hint h.1
    refine iff_of_true ?_ fun h ↦ absurd h hread
    dsimp only
    by_cases htext : t.typeOf err = .textString
    · rw [if_pos htext]
      exact ⟨_, rfl⟩
    · rw [if_neg htext, if_neg hint]
      exact ⟨_, rfl⟩

theorem attachErrorCbor_done {body : CStr} (hbody : body ≠ []) :
    (∃ r, t.attachErrorCbor body = .done r) ↔
      ∀ err status, t.Answers body err status → t.StatusRead status → t.ErrorReadable err := by
  rw [attachErrorCbor]
  cases hinit : t.parserInit body with
  | none =>
    refine iff_of_true ⟨_, rfl⟩ ?_
    rintro err status ⟨-, top, -, htop, -⟩
    rw [hinit] at htop
    cases htop
  | some top =>
    rw [Option.elim_some]
    by_cases hmap : t.type top = .map
    · rw [if_neg (not_not.mpr hmap)]
      have hcont : (t.typeOf (some top)).isContainer = true := by
        show (t.type top).isContainer = true
        rw [hmap]
        rfl
      obtain ⟨r, hr⟩ := t.lookupKeys_done hcont [cstr packParamError, cstr packParamStatus]
      rw [hr, Exec.bind_done]
      cases r with
      | none =>
        refine iff_of_true ⟨_, rfl⟩ ?_
        rintro err status ⟨-, top', objs, htop, -, hobjs, -⟩
        obtain rfl : top = top' := Option.some.inj (hinit.symm.trans htop)
        rw [hr] at hobjs
        cases hobjs
      | some objs =>
        rw [Option.elim_some, errorOf_done]
        constructor
        · rintro h err status ⟨-, top', objs', htop, -, hobjs, rfl, rfl⟩
          obtain rfl : top = top' := Option.some.inj (hinit.symm.trans htop)
          rw [hr, Exec.done.injEq, Option.some.injEq] at hobjs
          exact hobjs ▸ h
        · intro h
          exact h _ _ ⟨hbody, top, objs, hinit, hmap, hr, rfl, rfl⟩
    · rw [if_pos hmap]
      refine iff_of_true ⟨_, rfl⟩ ?_
      rintro err status ⟨-, top', -, htop, hmap', -⟩
      obtain rfl : top = top' := Option.some.inj (hinit.symm.trans htop)
      exact absurd hmap' hmap

end TinycborOps

/-- An error answer ends in a diagnostic, without a write outside of the message buffer and with
containers alone entered, unless it is a map with an integer for its status and something for its
error, or nothing, that is neither a text nor a container. -/
theorem attachError_done {V : Type} (t : TinycborOps V) (body : CStr) (oom : Bool) (code : ℤ) :
    (∃ d, attachError t body oom code = .done d) ↔
      ∀ err status, t.Answers body err status → t.StatusRead status → t.ErrorReadable err := by
  rw [attachError]
  by_cases hbody : body = []
  · subst hbody
    refine iff_of_true ⟨_, rfl⟩ ?_
    rintro err status ⟨h, -⟩
    exact absurd rfl h
  · have hempty : ¬body.isEmpty = true := by rwa [List.isEmpty_iff]
    rw [if_neg hempty, ← t.attachErrorCbor_done hbody]
    constructor
    · rintro ⟨d, hd⟩
      obtain ⟨r, hr, -⟩ := Exec.bind_eq_done.mp hd
      exact ⟨r, hr⟩
    · rintro ⟨r, hr⟩
      rw [hr, Exec.bind_done]
      cases r with
      | none => exact ⟨_, rfl⟩
      | some msg => exact ⟨_, rfl⟩

/-! ## Whole items -/

/-- `cbor_value_get_type` of an item. -/
def itemType : Item → CborType
  | .uint _ | .nint _ => .integer
  | .bytes _ | .bytesChunks _ => .byteString
  | .text _ | .textChunks _ => .textString
  | .array _ _ => .array
  | .map _ _ => .map
  | .tag _ _ => .tag
  | .simple _ => .simple
  | .bool _ => .boolean
  | .null => .null
  | .undefined => .undefined
  | .half _ => .halfFloat
  | .float _ => .float
  | .double _ => .double

/-- The heads in front of an item, its own with them. -/
def headCount : Item → ℕ
  | .tag _ c => headCount c + 1
  | _ => 1

theorem headCount_pos (x : Item) : 0 < headCount x := by cases x <;> simp [headCount]

theorem headCount_untag (x : Item) : headCount x.untag ≤ headCount x := by
  refine Item.untag_induction (P := fun x y ↦ headCount y ≤ headCount x) ?_ ?_ x
  · intro n c ih
    exact ih.trans (Nat.le_succ _)
  · intro x _
    exact le_rfl

theorem headCount_advance {it w : List Item} (h : cborValueAdvance it = .ok w) :
    (w.map headCount).sum < (it.map headCount).sum := by
  cases it with
  | nil => cases h
  | cons x rest =>
    have hpos := headCount_pos x
    by_cases htag : ∃ n c, x = .tag n c
    · obtain ⟨n, c, rfl⟩ := htag
      obtain rfl := Except.ok.inj h
      simp [headCount]
    · have hstep : cborValueAdvance (x :: rest) =
          if x.depth ≤ cborParserMaxRecursions then .ok rest else .error .nestingTooDeep := by
        cases x <;> first | rfl | exact absurd ⟨_, _, rfl⟩ htag
      rw [hstep] at h
      by_cases hdepth : x.depth ≤ cborParserMaxRecursions
      · rw [if_pos hdepth] at h
        obtain rfl := Except.ok.inj h
        simpa using hpos
      · rw [if_neg hdepth] at h
        cases h

/-- `cbor_value_get_int_checked`. -/
def cborValueGetIntChecked : Item → Option ℤ
  | .uint n => if n.toNat < 2 ^ 31 then some n.toNat else none
  | .nint n => if n.toNat < 2 ^ 31 then some (-1 - n.toNat) else none
  | _ => none

/-- The elements of a container. -/
def containerItems : Item → Option (List Item)
  | .array _ xs | .map _ xs => some xs
  | _ => none

/-- The primitives on items that are all there; an iterator is what remains of its container. -/
def itemOps (decode : CStr → Option Item) : TinycborOps (List Item) where
  parserInit body := (decode body).map fun x ↦ [x]
  type it := it.head?.elim .invalid itemType
  atEnd it := it.isEmpty
  enterContainer it := it.head?.bind containerItems
  leaveContainer it _ := some it.tail
  advance it := (cborValueAdvance it).toOption
  skipTag it := some (cborValueSkipTag it)
  getStringChunk it := (it.head?.bind cborValueGetStringChunk).map fun b ↦ (b, it.tail)
  getIntChecked it := it.head?.bind cborValueGetIntChecked
  getText it := it.head?.bind textBytes
  left it := (it.map headCount).sum
  left_advance := by
    intro it w h
    cases hstep : cborValueAdvance it with
    | error e => simp [hstep, Except.toOption] at h
    | ok w' =>
      obtain rfl : w' = w := by simpa [hstep, Except.toOption] using h
      exact headCount_advance hstep
  left_skipTag := by
    intro it w h
    obtain rfl := Option.some.inj h
    cases it with
    | nil => exact le_rfl
    | cons x rest => simpa [cborValueSkipTag] using headCount_untag x
  left_getStringChunk := by
    intro it b w h
    cases it with
    | nil => cases h
    | cons x rest =>
      obtain ⟨b', -, hb'⟩ := Option.map_eq_some_iff.mp h
      obtain ⟨rfl, rfl⟩ := Prod.mk.inj hb'
      simpa using headCount_pos x

/-- An answer with a status and nothing else: `{"status": 500}`. -/
def statusOnly : CStr := [0xA1, 0x66, 0x73, 0x74, 0x61, 0x74, 0x75, 0x73, 0x19, 0x01, 0xF4]

/-- An answer without an error, behind whose missing error something is entered. -/
theorem attachError_statusOnly :
    ¬∀ (t : TinycborOps (List Item)) (body : CStr) (oom : Bool) (code : ℤ),
      ∃ d, attachError t body oom code = .done d := by
  intro h
  let t := itemOps fun body ↦
    if body = statusOnly then some (.map false [.text (cstr packParamStatus), .uint 500]) else none
  have hdone := (attachError_done t statusOnly false 500).mp (h t statusOnly false 500)
  have hturns : t.lookupTurns [cstr packParamError, cstr packParamStatus] [none, none] 0
      [.text (cstr packParamStatus), .uint 500] = some ([none, some [.uint 500]], []) := by
    have hstep : t.lookupStep [cstr packParamError, cstr packParamStatus] [none, none] 0
        [.text (cstr packParamStatus), .uint 500] = some ([none, some [.uint 500]], 1, []) := rfl
    have hmore : ¬(t.atEnd [.text (cstr packParamStatus), .uint 500] = true ∨
        [cstr packParamError, cstr packParamStatus].length ≤ 0) := by
      rintro (h | h) <;> cases h
    rw [t.lookupTurns_step hmore hstep]
    exact t.lookupTurns_done (.inl rfl) _
  have hrest : t.skipRest [] = some [] := by
    rw [TinycborOps.skipRest]
    rfl
  have hlookup : t.lookupKeys (some [.map false [.text (cstr packParamStatus), .uint 500]])
      [cstr packParamError, cstr packParamStatus] = .done (some [none, some [.uint 500]]) := by
    show Exec.done ((t.lookupTurns _ [none, none] _ _).bind _) = _
    rw [hturns]
    show Exec.done ((t.skipRest []).bind _) = _
    rw [hrest]
    rfl
  have hread := hdone none (some [.uint 500]) ⟨by decide, _, _, rfl, rfl, hlookup, rfl, rfl⟩ ⟨rfl, rfl⟩
  rcases hread with h | h
  · cases h
  · cases h

end EsOdbc
