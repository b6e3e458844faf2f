import EsOdbc.Cursor.Document
import EsOdbc.Lib.CborWire

/-!
# Requests in CBOR

`serialize_to_cbor` (`queries.c`) with the encoder that it calls (`cborencoder.c` of tinycbor),
which writes into a buffer of a fixed size and counts the items of a container.
-/

namespace EsOdbc

open Cbor (Item)

/-! ## The encoder -/

/-- `CborEncoder`: what is in front of its position, the size of the buffer, and one more than the
items that are still to come. -/
structure CborEncoder where
  written : CStr
  room : ℕ
  remaining : ℕ

/-- A serializer in CBOR. -/
abbrev CborWriter := CborEncoder → Exec (Except Failure CborEncoder)

/-- `FAIL_ON_CBOR_ERR`, on any error of the encoder. -/
def cborFailure : Failure := (.sHY000, some "CBOR serialization error")

namespace CborWriter

/-- One serializer after the other, up to the first that fails. -/
def seq : List CborWriter → CborWriter
  | [], e => .done (.ok e)
  | f :: fs, e => (f e).bind fun
    | .ok e => seq fs e
    | .error failure => .done (.error failure)

/-- A serializer that may be left out. -/
def when (present : Bool) (f : CborWriter) : CborWriter := if present then f else seq []

/-- `append_to_buffer`. -/
def appendToBuffer (data : CStr) : CborWriter := fun e ↦
  if e.room < e.written.length + data.length then .done (.error cborFailure)
  else .done (.ok { e with written := e.written ++ data })

/-- `saturated_decrement`. -/
def saturatedDecrement : CborWriter := fun e ↦ .done (.ok { e with remaining := e.remaining - 1 })

/-- `encode_number`. -/
def encodeNumber (major ui : ℕ) : CborWriter :=
  seq [saturatedDecrement, appendToBuffer (Cbor.head major ui)]

/-- `cbor_encode_uint`. -/
def cborEncodeUint (value : UInt64) : CborWriter := encodeNumber 0 value.toNat

/-- `cbor_encode_text_string`. -/
def cborEncodeTextString (string : CStr) : CborWriter :=
  seq [encodeNumber 3 string.length, appendToBuffer string]

/-- `cbor_encode_boolean`. -/
def cborEncodeBoolean (value : Bool) : CborWriter := encodeNumber 7 (if value then 21 else 20)

/-- `cbor_encode_null`. -/
def cborEncodeNull : CborWriter := encodeNumber 7 22

/-- `create_container` for so many items, with what is written inside, and
`cbor_encoder_close_container`, which the number of items has to be right for. -/
def container (major length items : ℕ) (inside : CborWriter) : CborWriter := fun e ↦
  (seq [appendToBuffer (Cbor.head major length), inside] { e with remaining := items + 1 }).bind fun
    | .ok c => .done (if c.remaining = 1 then .ok { c with remaining := e.remaining - 1 }
        else .error cborFailure)
    | .error failure => .done (.error failure)

/-- An array, from `cbor_encoder_create_array` on. -/
def cborArray (length : ℕ) (inside : CborWriter) : CborWriter := container 4 length length inside

/-- A map, from `cbor_encoder_create_map` on. -/
def cborMap (length : ℕ) (inside : CborWriter) : CborWriter :=
  container 5 length (length + length) inside

end CborWriter

open CborWriter

/-! ## The statement -/

/-- A parameter, whether its indicator says that it is null, and the kind of its type. -/
structure CborParam where
  param : Param
  isNull : Bool
  metaType : MetaType

/-- What a request in CBOR takes from its statement: its parameters, the number of records of the
descriptor that they are in, and the fetch size as a number. -/
structure CborStmt where
  base : JsonStmt
  params : List CborParam
  apdCount : ℕ
  fetchMax : UInt64
  params_eq : params.map CborParam.param = base.params

/-- `skip_quote`, for the types that are sent as they are converted or without their quotation
marks. -/
def skipQuote : MetaType → Option Bool
  | .exactNumeric | .floatNumeric | .bit | .bin => some false
  | .string | .dateTime | .intervalWsec | .intervalWosec | .uid => some true
  | .max | .unknown => none

/-- `serialize_param_cbor`; a text that is too short for its quotation marks is read beyond. -/
def serializeParamCbor (p : CborParam) (c : WrittenValue) : CborWriter := fun e ↦
  if p.isNull then cborEncodeNull e
  else
    match c.failure, skipQuote p.metaType with
    | some failure, _ => .done (.error failure)
    | none, none => .done (.error (.sHY000, none))
    | none, some false => cborEncodeTextString c.text e
    | none, some true =>
      if c.text.length < 2 then .undefined
      else cborEncodeTextString ((c.text.drop 1).take (c.text.length - 2)) e

/-- A parameter of `serialize_params_cbor`. -/
def cborParamObject (p : CborParam) (c : WrittenValue) : CborWriter :=
  if p.param.configured then
    cborMap 2 (seq [cborEncodeTextString (cstr reqKeyParamType),
      cborEncodeTextString p.param.typeNameC, cborEncodeTextString (cstr reqKeyParamVal),
      serializeParamCbor p c])
  else fun _ ↦ .done (.error JsonStmt.notConfigured)

/-- The parameters of `serialize_params_cbor`, from one on. -/
def cborParamObjects (write : ℕ → WrittenValue) : ℕ → List CborParam → List CborWriter
  | _, [] => []
  | i, p :: params => cborParamObject p (write i) :: cborParamObjects write (i + 1) params

/-- `serialize_params_cbor`, of which any failure is one of the encoder for the caller. -/
def serializeParamsCbor (s : CborStmt) (write : ℕ → WrittenValue) : CborWriter := fun e ↦
  (cborArray s.apdCount (seq (cborParamObjects write 0 s.params)) e).bind fun
    | .ok e => .done (.ok e)
    | .error _ => .done (.error cborFailure)

/-- A member of the request. -/
def cborMemberOf (name : String) (value : CborWriter) : CborWriter :=
  seq [cborEncodeTextString (cstr name), value]

/-- The cursor of a request: one from a JSON answer is narrowed at the end of the whole buffer, and
copied from there. -/
def cborCursor (curs : Cursor) (stale : ℕ → UInt8) (destCnt : ℕ) : CborWriter := fun e ↦
  match curs with
  | .cbor b => cborEncodeTextString b e
  | .json w =>
    match asciiW2c stale w with
    | none => .done (.error (.s24000, none))
    | some b =>
      let behind := e.written.length + (Cbor.head 3 b.length).length + b.length
      if destCnt < b.length then .undefined
      -- the two regions of the copy have something in common
      else if behind ≤ e.room ∧ destCnt < behind + b.length then .undefined
      else cborEncodeTextString b e

/-- `serialize_to_cbor` into a buffer, the last bytes of which are for the conversions. -/
def serializeToCbor (s : CborStmt) (write : ℕ → WrittenValue) (tzParam : CStr) (stale : ℕ → UInt8)
    (destCnt convLen keys : ℕ) : Exec (Except Failure CStr) :=
  let dbc := s.base.dbc
  let query := [cborMemberOf JsonStmt.reqKeyQuery (cborEncodeTextString s.base.u8sql),
    when (!s.params.isEmpty) (cborMemberOf JsonStmt.reqKeyParams (serializeParamsCbor s write)),
    when (!dbc.fetch.isEmpty) (cborMemberOf JsonStmt.reqKeyFetch (cborEncodeUint s.fetchMax)),
    cborMemberOf JsonStmt.reqKeyMultival (cborEncodeBoolean dbc.mfieldLenient),
    cborMemberOf JsonStmt.reqKeyIdxFrozen (cborEncodeBoolean dbc.idxIncFrozen),
    cborMemberOf JsonStmt.reqKeyTimezone
      (cborEncodeTextString (if dbc.applyTz then tzParam else cstr "Z")),
    when (!dbc.catalog.isEmpty)
      (cborMemberOf JsonStmt.reqKeyCatalog (cborEncodeTextString dbc.catalog)),
    cborMemberOf JsonStmt.reqKeyVersion (cborEncodeTextString dbc.version)]
  let cursor := [cborMemberOf reqKeyCursor (cborCursor s.base.curs stale destCnt)]
  let common := [cborMemberOf reqKeyMode (cborEncodeTextString (cstr reqValMode)),
    cborMemberOf reqKeyCltId (cborEncodeTextString (cstr reqValCltId)),
    cborMemberOf reqKeyBinaryFmt (cborEncodeBoolean true)]
  (cborMap keys (seq ((if s.base.hasCursor then cursor else query) ++ common))
    ⟨[], destCnt - convLen, 2⟩).bind fun
      | .ok e => .done (.ok e.written)
      | .error failure => .done (.error failure)

/-! ## Its length -/

/-- `cbor_nn_hdr_len`. -/
def cborNnHdrLen (itemLen : ℕ) : ℕ :=
  if itemLen ≤ 23 then 1
  else if itemLen ≤ 2 ^ 8 - 1 then 2
  else if itemLen ≤ 2 ^ 16 - 1 then 3
  else if itemLen ≤ 2 ^ 32 - 1 then 5
  else 9

/-- `cbor_str_obj_len`. -/
def cborStrObjLen (itemLen : ℕ) : ℕ := cborNnHdrLen itemLen + itemLen

/-- The loop of `statement_params_len_cbor`, which begins its length anew for every parameter; a
record that is not bound has no value to be converted. -/
def paramsLenCbor (s : CborStmt) : List CborParam → ℕ → ℕ → Exec (Except Failure (ℕ × ℕ))
  | [], len, max =>
    if s.params.length < s.apdCount then .undefined else .done (.ok (len, max))
  | p :: params, _, max =>
    if p.param.configured then
      match p.param.announced with
      | .error failure => .done (.error failure)
      | .ok l => paramsLenCbor s params (cborNnHdrLen s.apdCount +
          cborStrObjLen reqKeyParamType.length + cborStrObjLen s.base.dbc.lgstName.length +
          cborStrObjLen reqKeyParamVal.length + cborStrObjLen l) (Nat.max max l)
    else .undefined

/-- `statement_params_len_cbor`: the length, and that of the longest value. -/
def statementParamsLenCbor (s : CborStmt) : Exec (Except Failure (ℕ × ℕ)) :=
  paramsLenCbor s s.params (cborNnHdrLen s.apdCount) 0

/-- The lengths of a request's parts, and the number of its keys. -/
structure CborLengths where
  encLen : ℕ
  convLen : ℕ
  keys : ℕ

/-- The mode, the client and the format in `statement_len_cbor`. -/
def commonLenCbor : ℕ :=
  cborStrObjLen reqKeyMode.length + cborStrObjLen reqValMode.length +
    (cborStrObjLen reqKeyCltId.length + cborStrObjLen reqValCltId.length) +
    (cborStrObjLen reqKeyBinaryFmt.length + 1)

/-- `statement_len_cbor`, with the length of `tz_param`; `REST_REQ_KEY_COUNT` is 13. -/
def statementLenCbor (s : CborStmt) (tzParamCnt : ℕ) : Exec (Except Failure CborLengths) :=
  let curslen := s.base.curs.cnt
  if s.base.hasCursor then
    let narrowed := match s.base.curs with
      | .json _ => cborNnHdrLen curslen
      | .cbor _ => 0
    .done (.ok ⟨cborNnHdrLen 13 + cborStrObjLen reqKeyCursor.length + cborStrObjLen curslen +
      narrowed + commonLenCbor, 0, 4⟩)
  else
    let dbc := s.base.dbc
    (if s.params.isEmpty then .done (.ok (0, 0)) else statementParamsLenCbor s).bind fun
      | .error failure => .done (.error failure)
      | .ok (len, max) =>
        let params := if s.params.isEmpty then 0 else
          cborStrObjLen JsonStmt.reqKeyParams.length + len
        let fetch := if dbc.fetch.isEmpty then 0 else
          cborStrObjLen JsonStmt.reqKeyFetch.length + cborNnHdrLen s.fetchMax.toNat
        let catalog := if dbc.catalog.isEmpty then 0 else
          cborStrObjLen JsonStmt.reqKeyCatalog.length + cborStrObjLen dbc.catalog.length
        .done (.ok ⟨cborNnHdrLen 13 + cborStrObjLen JsonStmt.reqKeyQuery.length +
          cborStrObjLen s.base.u8sql.length + params + fetch +
          (cborStrObjLen JsonStmt.reqKeyMultival.length + 1) +
          (cborStrObjLen JsonStmt.reqKeyIdxFrozen.length + 1) +
          (cborStrObjLen JsonStmt.reqKeyTimezone.length + cborStrObjLen tzParamCnt) + catalog +
          (cborStrObjLen JsonStmt.reqKeyVersion.length + cborStrObjLen dbc.version.length) +
          commonLenCbor, max,
          8 + (!s.params.isEmpty).toNat + (!dbc.fetch.isEmpty).toNat +
            (!dbc.catalog.isEmpty).toNat⟩)

/-- `serialize_statement` in CBOR, for a buffer of so many bytes. -/
def serializeStatementCbor (s : CborStmt) (write : ℕ → WrittenValue) (c : TzCache) (k : TzCall)
    (stale : ℕ → UInt8) (destCnt : ℕ) : Exec (Except Failure CStr) :=
  if (c.updateTzParam k).1 then
    (statementLenCbor s (c.updateTzParam k).2.tzParamCnt).bind fun
    | .error failure => .done (.error failure)
    | .ok lengths =>
      let allocLen := lengths.encLen + lengths.convLen
      serializeToCbor s write (c.updateTzParam k).2.tzParamBytes stale
        (if destCnt < allocLen then allocLen else destCnt) lengths.convLen lengths.keys
  else .done (.error (.sHY000, some "Failed to update the timezone parameter"))

/-! ## What is written -/

namespace CborWriter

/-- These items are behind what was written before. -/
structure Emitted (xs : List Item) (e e' : CborEncoder) : Prop where
  written : e'.written = e.written ++ Item.encodeAll xs
  remaining : e'.remaining = e.remaining - xs.length
  definite : e'.written.length < 2 ^ 64 → Item.AllDefinite xs

/-- The serializer comes to its end only with these items behind what was written before. -/
def Emits (f : CborWriter) (xs : List Item) : Prop :=
  ∀ e e', f e = .done (.ok e') → Emitted xs e e'

variable {f : CborWriter} {fs : List CborWriter} {xs ys : List Item} {e e' : CborEncoder}

theorem seq_cons_ok (h : seq (f :: fs) e = .done (.ok e')) :
    ∃ mid, f e = .done (.ok mid) ∧ seq fs mid = .done (.ok e') := by
  rw [seq] at h
  obtain ⟨r, hr, h⟩ := Exec.bind_eq_done.mp h
  cases r with
  | error failure => cases h
  | ok mid => exact ⟨mid, hr, h⟩

theorem appendToBuffer_ok {data : CStr} (h : appendToBuffer data e = .done (.ok e')) :
    e' = { e with written := e.written ++ data } := by
  rw [appendToBuffer] at h
  split_ifs at h
  · cases h
  · cases h
    rfl

theorem encodeNumber_ok {major ui : ℕ} (h : encodeNumber major ui e = .done (.ok e')) :
    e' = ⟨e.written ++ Cbor.head major ui, e.room, e.remaining - 1⟩ := by
  obtain ⟨mid, hmid, h⟩ := seq_cons_ok h
  cases hmid
  obtain ⟨last, happend, h⟩ := seq_cons_ok h
  cases h
  exact appendToBuffer_ok happend

theorem emits_nil : Emits (seq []) [] := by
  intro e e' h
  cases h
  exact ⟨(List.append_nil _).symm, rfl, fun _ ↦ trivial⟩

theorem Emits.cons (hf : Emits f xs) (hfs : Emits (seq fs) ys) :
    Emits (seq (f :: fs)) (xs ++ ys) := by
  intro e e' h
  obtain ⟨mid, hmid, h⟩ := seq_cons_ok h
  have hfirst := hf e mid hmid
  have hrest := hfs mid e' h
  refine ⟨?_, ?_, ?_⟩
  · rw [hrest.written, hfirst.written, List.append_assoc, Item.encodeAll_append]
  · rw [hrest.remaining, hfirst.remaining, List.length_append, Nat.sub_sub]
  · intro hlt
    refine Item.allDefinite_append.mpr ⟨hfirst.definite ?_, hrest.definite hlt⟩
    rw [hrest.written, List.length_append] at hlt
    omega

theorem Emits.when (h : Emits f xs) (present : Bool) :
    Emits (when present f) (if present then xs else []) := by
  cases present with
  | true => exact h
  | false => exact emits_nil

theorem Emits.of_eq (h : Emits f xs) (he : xs = ys) : Emits f ys := he ▸ h

/-- A number is an item of its own. -/
theorem emits_number {major ui : ℕ} {x : Item} (hx : x.encode = Cbor.head major ui)
    (hdefinite : x.Definite) : Emits (encodeNumber major ui) [x] := by
  intro e e' h
  obtain rfl := encodeNumber_ok h
  refine ⟨?_, rfl, fun _ ↦ ⟨hdefinite, trivial⟩⟩
  rw [Item.encodeAll, Item.encodeAll, List.append_nil, hx]

theorem emits_uint (n : UInt64) : Emits (cborEncodeUint n) [.uint n] :=
  emits_number rfl trivial

theorem emits_boolean (b : Bool) : Emits (cborEncodeBoolean b) [.bool b] :=
  emits_number rfl trivial

theorem emits_null : Emits cborEncodeNull [.null] := emits_number rfl trivial

theorem emits_text (string : CStr) : Emits (cborEncodeTextString string) [.text string] := by
  intro e e' h
  obtain ⟨mid, hnumber, h⟩ := seq_cons_ok h
  obtain ⟨last, happend, h⟩ := seq_cons_ok h
  cases h
  obtain rfl := encodeNumber_ok hnumber
  obtain rfl := appendToBuffer_ok happend
  refine ⟨?_, rfl, fun hlt ↦ ⟨?_, trivial⟩⟩
  · rw [Item.encodeAll, Item.encodeAll, List.append_nil, Item.encode, List.append_assoc]
  · rw [List.length_append] at hlt
    rw [Item.Definite]
    omega

/-- A container that is closed has the items that it was created for. -/
theorem container_ok {major length items : ℕ} (hf : Emits f xs)
    (h : container major length items f e = .done (.ok e')) :
    items = xs.length ∧ e'.written = e.written ++ (Cbor.head major length ++ Item.encodeAll xs) ∧
      e'.remaining = e.remaining - 1 ∧ (e'.written.length < 2 ^ 64 → Item.AllDefinite xs) := by
  obtain ⟨r, hr, h⟩ := Exec.bind_eq_done.mp h
  cases r with
  | error failure => cases h
  | ok c =>
    obtain ⟨mid, happend, hinside⟩ := seq_cons_ok hr
    obtain ⟨last, hinside, hlast⟩ := seq_cons_ok hinside
    cases hlast
    obtain rfl := appendToBuffer_ok happend
    have hemitted := hf _ _ hinside
    have hwritten := hemitted.written
    have hremaining := hemitted.remaining
    dsimp only at h hwritten hremaining
    split_ifs at h with hone
    swap
    · cases h
    cases h
    refine ⟨by omega, ?_, rfl, hemitted.definite⟩
    rw [hwritten, List.append_assoc]

/-- No more items than bytes. -/
theorem length_lt {head : CStr} {xs : List Item} (hxs : Item.AllDefinite xs)
    (hlt : (e.written ++ (head ++ Item.encodeAll xs)).length < 2 ^ 64) : xs.length < 2 ^ 64 := by
  have hle := Item.length_le_encodeAll hxs
  rw [List.length_append, List.length_append] at hlt
  omega

theorem emits_array {n : ℕ} (hf : Emits f xs) : Emits (cborArray n f) [.array false xs] := by
  intro e e' h
  obtain ⟨rfl, hwritten, hremaining, hdefinite⟩ := container_ok hf h
  refine ⟨?_, hremaining, fun hlt ↦ ⟨⟨rfl, ?_, hdefinite hlt⟩, trivial⟩⟩
  · rw [hwritten, Item.encodeAll, Item.encodeAll, List.append_nil, Item.encode]
  · exact length_lt (hdefinite hlt) (hwritten ▸ hlt)

theorem emits_map {n : ℕ} (hf : Emits f xs) : Emits (cborMap n f) [.map false xs] := by
  intro e e' h
  obtain ⟨hlength, hwritten, hremaining, hdefinite⟩ := container_ok hf h
  refine ⟨?_, hremaining, fun hlt ↦ ⟨⟨rfl, by omega, ?_, hdefinite hlt⟩, trivial⟩⟩
  · have hentries : Item.entriesOf xs = n := by
      rw [Item.entriesOf]
      omega
    rw [hwritten, Item.encodeAll, Item.encodeAll, List.append_nil, Item.encode, hentries]
  · exact length_lt (hdefinite hlt) (hwritten ▸ hlt)

end CborWriter

/-! ## The document -/

/-- The value as CBOR. -/
def Datum.cbor : Datum → Item
  | .null => .null
  | .flag b => .bool b
  | .number lexeme => .text lexeme
  | .text s => .text s

/-- The member as CBOR. -/
def Field.cbor : Field → Item
  | .text s => .text s
  | .count _ n => .uint n
  | .flag b => .bool b
  | .params ps => .array false (ps.map fun p ↦ .map false
      [.text (cstr reqKeyParamType), .text p.1, .text (cstr reqKeyParamVal), p.2.cbor])

/-- The key and the value of a field. -/
def cborMember (f : String × Field) : List Item := [.text (cstr f.1), f.2.cbor]

/-- What a parameter is sent as: null, or the text of its value, for some types without the first
and the last of its characters. -/
def CborParam.sent (p : CborParam) (c : WrittenValue) : Datum :=
  if p.isNull then .null
  else if skipQuote p.metaType = some true then .text ((c.text.drop 1).take (c.text.length - 2))
  else .text c.text

namespace CborStmt

/-- The values of the parameters, as they are sent. -/
def sent (s : CborStmt) (write : ℕ → WrittenValue) (i : ℕ) : Datum :=
  (s.params[i]?.map fun p ↦ p.sent (write i)).getD .null

/-- The time zone as it is sent, which has its quotation marks where it is not UTC. -/
def zone (s : CborStmt) (tzParam : CStr) : CStr := if s.base.dbc.applyTz then tzParam else cstr "Z"

/-- The members of the request. -/
def fields (s : CborStmt) (write : ℕ → WrittenValue) (tzParam : CStr) : List (String × Field) :=
  s.base.fields s.fetchMax (s.sent write) (s.zone tzParam) true

end CborStmt

theorem emits_param (p : CborParam) (c : WrittenValue) :
    Emits (serializeParamCbor p c) [(p.sent c).cbor] := by
  intro e e' h
  rw [serializeParamCbor] at h
  rw [CborParam.sent]
  by_cases hnull : p.isNull = true
  · rw [if_pos hnull] at h ⊢
    exact emits_null e e' h
  · rw [if_neg hnull] at h ⊢
    cases hfail : c.failure with
    | some failure =>
      rw [hfail] at h
      cases h
    | none =>
      cases hskip : skipQuote p.metaType with
      | none =>
        rw [hfail, hskip] at h
        cases h
      | some skip =>
        rw [hfail, hskip] at h
        cases skip with
        | false =>
          rw [if_neg (by decide)]
          exact emits_text c.text e e' h
        | true =>
          rw [if_pos rfl]
          dsimp only at h
          split_ifs at h
          exact emits_text _ e e' h

theorem emits_paramObject (p : CborParam) (c : WrittenValue) :
    Emits (cborParamObject p c) [.map false [.text (cstr reqKeyParamType), .text p.param.typeNameC,
      .text (cstr reqKeyParamVal), (p.sent c).cbor]] := by
  rw [cborParamObject]
  split_ifs
  · exact emits_map ((emits_text _).cons ((emits_text _).cons ((emits_text _).cons
      ((emits_param p c).cons emits_nil))))
  · intro e e' h
    cases h

theorem emits_paramObjects (write : ℕ → WrittenValue) (data : ℕ → Datum) (params : List CborParam) :
    ∀ i, (∀ j p, params[j]? = some p → data (i + j) = p.sent (write (i + j))) →
      Emits (seq (cborParamObjects write i params))
        ((JsonStmt.paramData data i (params.map CborParam.param)).map fun p ↦ .map false
          [.text (cstr reqKeyParamType), .text p.1, .text (cstr reqKeyParamVal), p.2.cbor]) := by
  induction params with
  | nil => exact fun _ _ ↦ emits_nil
  | cons p params ih =>
    intro i hdata
    have hfirst : data i = p.sent (write i) := hdata 0 p rfl
    have hrest := ih (i + 1) fun j q hq ↦ by
      rw [Nat.add_right_comm]
      exact hdata (j + 1) q hq
    have hobject := emits_paramObject p (write i)
    rw [← hfirst] at hobject
    exact hobject.cons hrest

theorem emits_paramsArray {s : CborStmt} {write : ℕ → WrittenValue} :
    Emits (serializeParamsCbor s write)
      [(Field.params (JsonStmt.paramData (s.sent write) 0 s.base.params)).cbor] := by
  intro e e' h
  obtain ⟨r, hr, h⟩ := Exec.bind_eq_done.mp h
  cases r with
  | error failure => cases h
  | ok mid =>
    cases h
    have hobjects := emits_paramObjects write (s.sent write) s.params 0 fun j p hp ↦ by
      rw [Nat.zero_add, CborStmt.sent, hp]
      rfl
    rw [s.params_eq] at hobjects
    exact emits_array hobjects e _ hr

theorem emits_member (name : String) {f : CborWriter} {x : Item} (hf : Emits f [x]) :
    Emits (cborMemberOf name f) [.text (cstr name), x] :=
  (emits_text _).cons (hf.cons emits_nil)

theorem emits_cursor {curs : Cursor} (hne : curs.cnt ≠ 0)
    (h : ∀ w, curs = .json w → ∀ u ∈ w, u ≠ 0 ∧ u ≤ 127) (stale : ℕ → UInt8) (destCnt : ℕ) :
    Emits (cborCursor curs stale destCnt) [.text curs.text] := by
  intro e e' hdone
  cases curs with
  | cbor b => exact emits_text b e e' hdone
  | json w =>
    have hnil : w ≠ [] := by
      rintro rfl
      exact hne rfl
    rw [cborCursor] at hdone
    dsimp only at hdone
    rw [asciiW2c_ascii stale hnil (h w rfl)] at hdone
    dsimp only at hdone
    split_ifs at hdone
    exact emits_text _ e e' hdone

/-- What is handed over is the document. -/
theorem serializeToCbor_decodes {s : CborStmt} {write : ℕ → WrittenValue} {tzParam body : CStr}
    {stale : ℕ → UInt8} {destCnt convLen keys : ℕ}
    (hcurs : ∀ w, s.base.curs = .json w → ∀ u ∈ w, u ≠ 0 ∧ u ≤ 127)
    (h : serializeToCbor s write tzParam stale destCnt convLen keys = .done (.ok body))
    (hlt : body.length < 2 ^ 64) :
    Cbor.decode body = some (.map false ((s.fields write tzParam).flatMap cborMember)) := by
  unfold serializeToCbor at h
  dsimp only at h
  obtain ⟨r, hr, h⟩ := Exec.bind_eq_done.mp h
  cases r with
  | error failure => cases h
  | ok e =>
    cases h
    suffices hmap : Emitted [.map false ((s.fields write tzParam).flatMap cborMember)]
        ⟨[], destCnt - convLen, 2⟩ e by
      have hwritten := hmap.written
      rw [Item.encodeAll, Item.encodeAll, List.append_nil, List.nil_append] at hwritten
      rw [hwritten]
      exact Cbor.decode_encode (hmap.definite hlt).1
    have hmode := emits_member reqKeyMode (emits_text (cstr reqValMode))
    have hclt := emits_member reqKeyCltId (emits_text (cstr reqValCltId))
    have hbinary := emits_member reqKeyBinaryFmt (emits_boolean true)
    have hcommon := hmode.cons (hclt.cons (hbinary.cons emits_nil))
    refine emits_map ?_ _ _ hr
    rw [CborStmt.fields, JsonStmt.fields]
    cases hc : s.base.hasCursor with
    | true =>
      have hne : s.base.curs.cnt ≠ 0 := by simpa [JsonStmt.hasCursor] using hc
      exact (emits_member reqKeyCursor (emits_cursor hne hcurs stale destCnt)).cons hcommon
    | false =>
      have hempty : s.base.params.isEmpty = s.params.isEmpty := by
        rw [← s.params_eq, List.isEmpty_map]
      have hversion := (emits_member JsonStmt.reqKeyVersion (emits_text s.base.dbc.version)).cons
        hcommon
      have hcatalog := ((emits_member JsonStmt.reqKeyCatalog
        (emits_text s.base.dbc.catalog)).when (!s.base.dbc.catalog.isEmpty)).cons hversion
      have hzone := (emits_member JsonStmt.reqKeyTimezone
        (emits_text (s.zone tzParam))).cons hcatalog
      have hflags := (emits_member JsonStmt.reqKeyMultival
        (emits_boolean s.base.dbc.mfieldLenient)).cons ((emits_member JsonStmt.reqKeyIdxFrozen
          (emits_boolean s.base.dbc.idxIncFrozen)).cons hzone)
      have hfetch := ((emits_member JsonStmt.reqKeyFetch (emits_uint s.fetchMax)).when
        (!s.base.dbc.fetch.isEmpty)).cons hflags
      have hparams := ((emits_member JsonStmt.reqKeyParams
        (@emits_paramsArray s write)).when (!s.params.isEmpty)).cons hfetch
      refine Emits.of_eq ((emits_member JsonStmt.reqKeyQuery
        (emits_text s.base.u8sql)).cons hparams) ?_
      rw [if_neg Bool.false_ne_true, JsonStmt.options, hempty]
      cases s.params.isEmpty <;> cases s.base.dbc.fetch.isEmpty <;>
        cases s.base.dbc.catalog.isEmpty <;> rfl

namespace CborStmt

/-- The query with quotation marks, with its parameter. -/
def markerCbor : CborStmt where
  base := JsonStmt.markerStmt
  params := [⟨⟨true, cstr "INTEGER", .ok 1⟩, false, .exactNumeric⟩]
  apdCount := 1
  fetchMax := 100
  params_eq := rfl

end CborStmt

end EsOdbc
