import EsOdbc.Cursor.Request
import EsOdbc.TimeZone.Cache
import EsOdbc.Writer

/-!
# The length of a request

`statement_len_json` and `serialize_to_json` (`queries.c`), with `json_escape` (`util.c`): the
length that a request in JSON is given, and the bytes that are then written.
-/

namespace EsOdbc

open Writer

/-- The state and the text of a diagnostic. -/
abbrev Failure := SqlState × Option String

/-- A writer of bytes. -/
abbrev JsonWriter := Writer UInt8 Failure

/-! ## Escaping -/

/-- `I16TOA`. -/
def i16toa (x : UInt8) : UInt8 := if 10 ≤ x then 0x41 + x - 10 else 0x30 + x

/-- `JSON_ESC_GEN_PREF`. -/
def jsonEscGenPref : CStr := cstr "\\u00"

/-- What `json_escape` makes of a character. -/
def escapedChar (uchar : UInt8) : CStr :=
  if uchar = 0x08 then [Json.backslash, 0x62]
  else if uchar = 0x0C then [Json.backslash, 0x66]
  else if uchar = 0x0A then [Json.backslash, 0x6E]
  else if uchar = 0x0D then [Json.backslash, 0x72]
  else if uchar = 0x09 then [Json.backslash, 0x74]
  else if uchar = Json.quote ∨ uchar = Json.backslash then [Json.backslash, uchar]
  else if 0x20 ≤ uchar then [uchar]
  else jsonEscGenPref ++ [i16toa (uchar >>> 4), i16toa (uchar &&& 0xF)]

/-- The part of `json_escape` with a buffer, of which so much is used; it ends with the first
character that does not fit.  A text of no length has its terminator there. -/
def jsonEscapeFrom (outlen : ℕ) : ℕ → CStr → CStr
  | _, [] => []
  | pos, uchar :: jin =>
    if outlen < pos + (escapedChar uchar).length then []
    else escapedChar uchar ++ jsonEscapeFrom outlen (pos + (escapedChar uchar).length) jin

/-- `json_escaped_len`. -/
def jsonEscapedLen (json : CStr) : ℕ :=
  (json.map fun uchar ↦
    if uchar = Json.quote ∨ uchar = Json.backslash ∨ uchar = 0x08 ∨ uchar = 0x0C ∨ uchar = 0x0A ∨
      uchar = 0x0D ∨ uchar = 0x09 then 2
    else if 0x20 ≤ uchar then 1 else 6).sum

/-- `json_escape`. -/
def jsonEscape (jin : CStr) (outlen : ℕ) : JsonWriter := fun out ↦
  match out.1 with
  | none => .done (.ok (none, out.2 + jsonEscapedLen jin))
  | some _ => emit (jsonEscapeFrom outlen 0 jin) out

/-- `(size_t)-1`. -/
def sizeMax : ℕ := 2 ^ 64 - 1

theorem length_escapedChar (uchar : UInt8) : jsonEscapedLen [uchar] = (escapedChar uchar).length := by
  unfold jsonEscapedLen escapedChar
  simp only [List.map_cons, List.map_nil, List.sum_cons, List.sum_nil, Nat.add_zero]
  split_ifs with h <;> first | rfl | (exfalso; tauto)

theorem jsonEscapedLen_cons (uchar : UInt8) (jin : CStr) :
    jsonEscapedLen (uchar :: jin) = (escapedChar uchar).length + jsonEscapedLen jin := by
  rw [← length_escapedChar]
  rfl

/-- No more is used than was counted, in whatever room. -/
theorem length_jsonEscapeFrom_le (outlen pos : ℕ) (jin : CStr) :
    (jsonEscapeFrom outlen pos jin).length ≤ jsonEscapedLen jin := by
  induction jin generalizing pos with
  | nil => exact Nat.zero_le _
  | cons uchar jin ih =>
    rw [jsonEscapeFrom, jsonEscapedLen_cons]
    split_ifs with hfit
    · exact Nat.zero_le _
    · rw [List.length_append]
      exact Nat.add_le_add_left (ih _) _

/-- In enough room all of it is used. -/
theorem length_jsonEscapeFrom {outlen pos : ℕ} {jin : CStr} (h : pos + jsonEscapedLen jin ≤ outlen) :
    (jsonEscapeFrom outlen pos jin).length = jsonEscapedLen jin := by
  induction jin generalizing pos with
  | nil => rfl
  | cons uchar jin ih =>
    rw [jsonEscapedLen_cons, ← Nat.add_assoc] at h
    rw [jsonEscapeFrom, if_neg (not_lt.mpr ((Nat.le_add_right _ _).trans h)), List.length_append,
      jsonEscapedLen_cons, ih h]

theorem within_jsonEscape (jin : CStr) (outlen : ℕ) :
    Within (jsonEscape jin outlen) (jsonEscapeFrom outlen 0 jin).length 0 :=
  fun buf pos hroom ↦ within_emit _ buf pos hroom

theorem exactly_jsonEscape (jin : CStr) (outlen : ℕ) :
    Exactly (jsonEscape jin outlen) (jsonEscapeFrom outlen 0 jin).length :=
  fun buf pos r hpos hr ↦ exactly_emit _ buf pos r hpos hr

/-! ## The statement -/

/-- A parameter up to the last one that is bound: whether both its records are there, the name of
its type, and the length that `convert_param_val` announces for it. -/
structure Param where
  configured : Bool
  typeNameC : CStr
  announced : Except Failure ℕ

/-- What a call of `convert_param_val` writes: a text, the terminator that some converters put
behind it for a time, and whether the call then fails. -/
structure WrittenValue where
  text : CStr
  terminated : Bool
  failure : Option Failure

/-- What `convert_param_val` writes for each parameter: no more than it announced. -/
structure Conversions (params : List Param) where
  write : ℕ → WrittenValue
  le : ∀ i len, (params[i]?.map Param.announced) = some (.ok len) → (write i).text.length ≤ len

/-- What a request takes from its connection; `version` is of the build. -/
structure RequestDbc where
  fetch : CStr
  mfieldLenient : Bool
  idxIncFrozen : Bool
  applyTz : Bool
  catalog : CStr
  lgstName : CStr
  version : CStr

/-- What a request takes from its statement. -/
structure JsonStmt where
  dbc : RequestDbc
  curs : Cursor
  u8sql : CStr
  params : List Param

/-- The length of a cursor in the units it is kept in. -/
def Cursor.cnt : Cursor → ℕ
  | .json w => w.length
  | .cbor b => b.length

namespace JsonStmt

def reqKeyQuery : String := "query"
def reqKeyParams : String := "params"
def reqKeyFetch : String := "fetch_size"
def reqKeyMultival : String := "field_multi_value_leniency"
def reqKeyIdxFrozen : String := "index_include_frozen"
def reqKeyTimezone : String := "time_zone"
def reqKeyCatalog : String := "catalog"
def reqKeyVersion : String := "version"

/-- The key of a first member. -/
def firstKey (name : String) : CStr := cstr ("\"" ++ name ++ "\": ")

/-- The key of a later member. -/
def nextKey (name : String) : CStr := cstr (", \"" ++ name ++ "\": ")

/-- `JSON_KEY_VAL_MODE`. -/
def jsonKeyValMode : CStr := nextKey reqKeyMode ++ cstr ("\"" ++ reqValMode ++ "\"")

/-- `JSON_KEY_CLT_ID`. -/
def jsonKeyCltId : CStr := nextKey reqKeyCltId ++ cstr ("\"" ++ reqValCltId ++ "\"")

/-- `JSON_VAL_TIMEZONE_Z`. -/
def jsonValTimezoneZ : CStr := cstr "\"Z\""

/-- `j_type`. -/
def jType : CStr := cstr "\x7b\"type\": \""

/-- `j_val`. -/
def jVal : CStr := cstr "\", \"value\": "

/-- What `copy_bool_val` copies. -/
def boolVal (val : Bool) : CStr := if val then cstr "true" else cstr "false"

/-- `STMT_HAS_CURSOR`. -/
def hasCursor (s : JsonStmt) : Bool := s.curs.cnt ≠ 0

/-- `get_param_recs`, where a record is missing. -/
def notConfigured : Failure := (.s07002, some "Invalid parameter configuration")

/-- `convert_param_val`. -/
def convertParamVal (p : Param) (c : WrittenValue) : JsonWriter := fun out ↦
  match out.1 with
  | none =>
    match p.announced with
    | .ok len => .done (.ok (none, out.2 + len))
    | .error e => .done (.error e)
  | some _ =>
    let text := c.text ++ if c.terminated then [0] else []
    (poke text c.text.length out).bind fun r ↦ .done (c.failure.elim r .error)

/-- A parameter of `serialize_params_json`; the longest name stands for its type's where only the
length is asked for. -/
def serializeParam (s : JsonStmt) (c : WrittenValue) (i : ℕ) (p : Param) : JsonWriter :=
  if p.configured then
    seq [when (i ≠ 0) (emit (cstr ", ")), emit jType,
      fun out ↦ jsonEscape (if out.1.isSome then p.typeNameC else s.dbc.lgstName) sizeMax out,
      emit jVal, convertParamVal p c, emit (cstr "\x7d")]
  else fun _ ↦ .done (.error notConfigured)

/-- The parameters of `serialize_params_json`, from one on. -/
def serializeParams (s : JsonStmt) (write : ℕ → WrittenValue) : ℕ → List Param → List JsonWriter
  | _, [] => [emit (cstr "]")]
  | i, p :: params => s.serializeParam (write i) i p :: serializeParams s write (i + 1) params

/-- `serialize_params_json`. -/
def serializeParamsJson (s : JsonStmt) (write : ℕ → WrittenValue) : JsonWriter :=
  seq (emit (cstr "[") :: s.serializeParams write 0 s.params)

/-- The end of every request, without the flag and the brace. -/
def tailLen : ℕ :=
  jsonKeyValMode.length + jsonKeyCltId.length + (nextKey reqKeyBinaryFmt).length

/-- `statement_len_json`, with the length of `tz_param`. -/
def statementLenJson (s : JsonStmt) (write : ℕ → WrittenValue) (tzParamCnt : ℕ) :
    Exec (Except Failure ℕ) :=
  if s.hasCursor then
    .done (.ok (1 + (firstKey reqKeyCursor).length + s.curs.cnt + 2 + (tailLen + 5 + 1)))
  else
    let params : JsonWriter := when (!s.params.isEmpty)
      (seq [emit (nextKey reqKeyParams), s.serializeParamsJson write])
    (params (none, 1 + (firstKey reqKeyQuery).length + jsonEscapedLen s.u8sql + 2)).bind fun r ↦
      .done (r.map fun out ↦ out.2 +
        (if !s.dbc.fetch.isEmpty then (nextKey reqKeyFetch).length + s.dbc.fetch.length else 0) +
        ((nextKey reqKeyMultival).length + 5) + ((nextKey reqKeyIdxFrozen).length + 5) +
        ((nextKey reqKeyTimezone).length + tzParamCnt) +
        (if !s.dbc.catalog.isEmpty then
          (nextKey reqKeyCatalog).length + s.dbc.catalog.length + 2 else 0) +
        ((nextKey reqKeyVersion).length + s.dbc.version.length + 2) + (tailLen + 5 + 1))

/-- `ascii_w2c` into the body: it stops at a NUL, and fails at a unit out of ASCII. -/
def copyCursor (w : WStr) : JsonWriter := fun out ↦
  let head := w.takeWhile fun u ↦ u ≠ 0 ∧ u ≤ 127
  if w.isEmpty then .done (.error (.s24000, none))
  else if w[head.length]?.getD 0 = 0 then poke (head.map UInt16.toUInt8 ++ [0]) w.length out
  else seq [emit (head.map UInt16.toUInt8), fun _ ↦ .done (.error (.s24000, none))] out

/-- The cursor object of `serialize_to_json`. -/
def cursorObject (s : JsonStmt) : List JsonWriter :=
  [emit (firstKey reqKeyCursor), emit [Json.quote],
    match s.curs with
    | .json w => copyCursor w
    | .cbor b => emit b,
    emit [Json.quote]]

/-- The query of `serialize_to_json`, for which the rest of the body is there. -/
def queryText (s : JsonStmt) : JsonWriter := fun out ↦
  jsonEscape s.u8sql ((out.1.map List.length).getD 0 - out.2) out

/-- The query object of `serialize_to_json`, behind the query. -/
def queryOptions (s : JsonStmt) (write : ℕ → WrittenValue) (tzParam : CStr) : List JsonWriter :=
  [emit [Json.quote],
    when (!s.params.isEmpty) (seq [emit (nextKey reqKeyParams), s.serializeParamsJson write]),
    when (!s.dbc.fetch.isEmpty) (seq [emit (nextKey reqKeyFetch), emit s.dbc.fetch]),
    emit (nextKey reqKeyMultival), emit (boolVal s.dbc.mfieldLenient),
    emit (nextKey reqKeyIdxFrozen), emit (boolVal s.dbc.idxIncFrozen),
    emit (nextKey reqKeyTimezone), emit (if s.dbc.applyTz then tzParam else jsonValTimezoneZ),
    when (!s.dbc.catalog.isEmpty) (seq [emit (nextKey reqKeyCatalog), emit [Json.quote],
      emit s.dbc.catalog, emit [Json.quote]]),
    emit (nextKey reqKeyVersion), emit [Json.quote], emit s.dbc.version, emit [Json.quote]]

/-- The end of every request. -/
def requestEnd : List JsonWriter :=
  [emit jsonKeyValMode, emit jsonKeyCltId, emit (nextKey reqKeyBinaryFmt), emit (boolVal false),
    emit (cstr "\x7d")]

/-- `serialize_to_json`. -/
def serializeToJson (s : JsonStmt) (write : ℕ → WrittenValue) (tzParam : CStr) : JsonWriter :=
  seq (emit (cstr "\x7b") ::
    ((if s.hasCursor then s.cursorObject
      else emit (firstKey reqKeyQuery) :: emit [Json.quote] :: s.queryText ::
        s.queryOptions write tzParam) ++ requestEnd))

end JsonStmt

/-- The bytes of `tz_param`. -/
def TzCache.tzParamBytes (c : TzCache) : CStr :=
  (List.range c.tzParamCnt).map fun i ↦ .ofNat ((c.timeZone.map Char.toNat).getD i 0)

namespace JsonStmt

/-- `serialize_statement` in JSON: the length and the bytes of the body, which is in the buffer
given if it has the room, and otherwise in new memory. -/
def serializeStatement (s : JsonStmt) (write : ℕ → WrittenValue) (c : TzCache) (k : TzCall)
    (fresh : ℕ → UInt8) (dest : List UInt8) : Exec (Except Failure (ℕ × CStr)) :=
  if (c.updateTzParam k).1 then
    (s.statementLenJson write (c.updateTzParam k).2.tzParamCnt).bind fun
    | .error e => .done (.error e)
    | .ok len =>
      let body := if dest.length < len then (List.range len).map fresh else dest
      (s.serializeToJson write (c.updateTzParam k).2.tzParamBytes (some body, 0)).bind fun r ↦
        .done (r.map fun out ↦ (len, (out.1.getD []).take out.2))
  else .done (.error (.sHY000, some "Failed to update the timezone parameter"))

end JsonStmt

/-! ## The parameters -/

/-- The length announced for a parameter. -/
def Param.len (p : Param) : ℕ := p.announced.toOption.getD 0

/-- A parameter that a length can be given for. -/
def Param.Announces (p : Param) : Prop := p.configured = true ∧ p.announced = .ok p.len

namespace JsonStmt

/-- The length of a parameter's object, from those of the type's name and the value. -/
def paramLen (i name value : ℕ) : ℕ :=
  (if decide (i ≠ 0) then (cstr ", ").length else 0) + (jType.length + (name + (jVal.length +
    (value + ((cstr "\x7d").length + 0)))))

/-- The length of the parameters' objects from one on, with the bracket. -/
def paramsLen (name : Param → ℕ) : ℕ → List Param → ℕ
  | _, [] => (cstr "]").length + 0
  | i, p :: params => paramLen i (name p) p.len + paramsLen name (i + 1) params

/-- The length of a type's name as it is written. -/
def nameLen (p : Param) : ℕ := (jsonEscapeFrom sizeMax 0 p.typeNameC).length

theorem paramsLen_add (f g : Param → ℕ) (i : ℕ) (params : List Param) :
    paramsLen f i params + (params.map g).sum = paramsLen g i params + (params.map f).sum := by
  induction params generalizing i with
  | nil => rfl
  | cons p params ih =>
    have hrest := ih (i + 1)
    rw [paramsLen, paramsLen, List.map_cons, List.map_cons, List.sum_cons, List.sum_cons, paramLen,
      paramLen]
    omega

variable {s : JsonStmt} {c : WrittenValue} {p : Param} {params : List Param} {write : ℕ → WrittenValue}
  {i len : ℕ}

theorem within_convertParamVal (h : c.text.length ≤ len) : Within (convertParamVal p c) len 1 := by
  intro buf pos hroom
  have hunits : (c.text ++ if c.terminated then [0] else []).length ≤ len + 1 := by
    rw [List.length_append]
    refine Nat.add_le_add h ?_
    split_ifs
    · exact le_rfl
    · exact Nat.zero_le _
  obtain ⟨r, hr, hout⟩ := within_poke h hunits buf pos hroom
  refine ⟨c.failure.elim r .error, by rw [convertParamVal]; dsimp only; rw [hr]; rfl, ?_⟩
  cases c.failure with
  | none => exact hout
  | some e =>
    intro out ho
    cases ho

theorem within_serializeParam (h : c.text.length ≤ p.len) :
    Within (s.serializeParam c i p) (paramLen i (nameLen p) p.len) 0 := by
  rw [serializeParam]
  split_ifs
  · have hname : Within (fun out ↦ jsonEscape
        (if out.1.isSome then p.typeNameC else s.dbc.lgstName) sizeMax out) (nameLen p) 0 :=
      fun buf pos hroom ↦ within_jsonEscape p.typeNameC sizeMax buf pos hroom
    have hend : Within (seq [emit (cstr "\x7d")] : JsonWriter) ((cstr "\x7d").length + 0) 0 :=
      Within.emit_cons within_nil
    have hvalue := (within_convertParamVal (p := p) h).cons hend le_rfl
    exact ((within_emit _).when _).cons
      (Within.emit_cons (hname.cons (Within.emit_cons hvalue) (Nat.zero_le _))) (Nat.zero_le _)
  · intro buf pos _
    exact ⟨_, rfl, fun out ho ↦ by cases ho⟩

theorem within_serializeParams
    (h : ∀ j p, params[j]? = some p → (write (i + j)).text.length ≤ p.len) :
    Within (seq (s.serializeParams write i params)) (paramsLen nameLen i params) 0 := by
  induction params generalizing i with
  | nil => exact Within.emit_cons within_nil
  | cons p params ih =>
    refine (within_serializeParam (h 0 p rfl)).cons (ih fun j q hq ↦ ?_) (Nat.zero_le _)
    rw [Nat.add_right_comm]
    exact h (j + 1) q hq

/-- A value of the length announced, with nothing behind it. -/
theorem exactly_serializeParam (hp : p.configured = true) (htext : c.text.length = p.len)
    (hterm : c.terminated = false) (hfail : c.failure = none) :
    Exactly (s.serializeParam c i p) (paramLen i (nameLen p) p.len) := by
  have hname : Exactly (fun out ↦ jsonEscape
      (if out.1.isSome then p.typeNameC else s.dbc.lgstName) sizeMax out) (nameLen p) :=
    fun buf pos r hpos hr ↦ exactly_jsonEscape p.typeNameC sizeMax buf pos r hpos hr
  have hvalue : Exactly (convertParamVal p c) p.len := by
    intro buf pos r hpos hr
    have hsome : convertParamVal p c (some buf, pos) = emit c.text (some buf, pos) := by
      rw [convertParamVal]
      dsimp only
      rw [hterm, hfail, if_neg Bool.false_ne_true, List.append_nil, emit]
      cases poke c.text c.text.length (some buf, pos) <;> rfl
    rw [hsome] at hr
    exact htext ▸ exactly_emit c.text buf pos r hpos hr
  rw [serializeParam, if_pos hp]
  exact ((exactly_emit _).when _).cons
    (Exactly.emit_cons (hname.cons (Exactly.emit_cons (hvalue.cons (Exactly.emit_cons exactly_nil)))))

theorem exactly_serializeParams (hp : ∀ p ∈ params, p.configured = true)
    (h : ∀ j p, params[j]? = some p → (write (i + j)).text.length = p.len ∧
      (write (i + j)).terminated = false ∧ (write (i + j)).failure = none) :
    Exactly (seq (s.serializeParams write i params)) (paramsLen nameLen i params) := by
  induction params generalizing i with
  | nil => exact Exactly.emit_cons exactly_nil
  | cons p params ih =>
    obtain ⟨htext, hterm, hfail⟩ := h 0 p rfl
    refine (exactly_serializeParam (hp p List.mem_cons_self) htext hterm hfail).cons
      (ih (fun q hq ↦ hp q (List.mem_cons_of_mem _ hq)) fun j q hq ↦ ?_)
    rw [Nat.add_right_comm]
    exact h (j + 1) q hq

theorem counts_serializeParam (h : p.Announces) :
    Counts (s.serializeParam c i p) (paramLen i (jsonEscapedLen s.dbc.lgstName) p.len) := by
  have hvalue : Counts (convertParamVal p c) p.len := by
    intro pos
    rw [convertParamVal]
    dsimp only
    rw [h.2]
  rw [serializeParam, if_pos h.1]
  exact ((counts_emit _).when _).cons (Counts.emit_cons (Counts.cons (fun _ ↦ rfl)
    (Counts.emit_cons (hvalue.cons (Counts.emit_cons counts_nil)))))

theorem refuses_serializeParam (h : ¬p.Announces) : Refuses (s.serializeParam c i p) := by
  rw [serializeParam]
  split_ifs with hp
  · cases hlen : p.announced with
    | ok len =>
      refine absurd ⟨hp, ?_⟩ h
      rw [Param.len, hlen]
      rfl
    | error e =>
      have hvalue : Refuses (convertParamVal p c) := by
        intro pos
        refine ⟨e, ?_⟩
        rw [convertParamVal]
        dsimp only
        rw [hlen]
      have hname : Counts (fun out ↦ jsonEscape
        (if out.1.isSome then p.typeNameC else s.dbc.lgstName) sizeMax out)
          (jsonEscapedLen s.dbc.lgstName) := fun _ ↦ rfl
      exact ((counts_emit _).when _).cons_refuses ((counts_emit jType).cons_refuses
        (hname.cons_refuses ((counts_emit jVal).cons_refuses hvalue.cons)))
  · exact fun _ ↦ ⟨_, rfl⟩

theorem counts_serializeParams (h : ∀ p ∈ params, p.Announces) :
    Counts (seq (s.serializeParams write i params))
      (paramsLen (fun _ ↦ jsonEscapedLen s.dbc.lgstName) i params) := by
  induction params generalizing i with
  | nil => exact Counts.emit_cons counts_nil
  | cons p params ih =>
    exact (counts_serializeParam (h p List.mem_cons_self)).cons
      (ih fun q hq ↦ h q (List.mem_cons_of_mem _ hq))

theorem refuses_serializeParams (h : ¬∀ p ∈ params, p.Announces) :
    Refuses (seq (s.serializeParams write i params)) := by
  induction params generalizing i with
  | nil => exact absurd (fun p hp ↦ by cases hp) h
  | cons p params ih =>
    by_cases hp : p.Announces
    · refine (counts_serializeParam hp).cons_refuses (ih fun hall ↦ h fun q hq ↦ ?_)
      obtain rfl | hq := List.mem_cons.mp hq
      · exact hp
      · exact hall q hq
    · exact (refuses_serializeParam hp).cons

end JsonStmt

/-! ## The request -/

namespace JsonStmt

variable {s : JsonStmt} {write : ℕ → WrittenValue} {tzParam : CStr}

/-- The length of the parameters' array. -/
def arrayLen (s : JsonStmt) (name : Param → ℕ) : ℕ :=
  (cstr "[").length + paramsLen name 0 s.params

/-- The length of a request behind its query, from those of the parameters' array, both flags and
the time zone. -/
def restLen (s : JsonStmt) (params flags zone : ℕ) : ℕ :=
  (if !s.params.isEmpty then (nextKey reqKeyParams).length + params else 0) +
    (if !s.dbc.fetch.isEmpty then (nextKey reqKeyFetch).length + s.dbc.fetch.length else 0) +
    ((nextKey reqKeyMultival).length + (nextKey reqKeyIdxFrozen).length + flags) +
    ((nextKey reqKeyTimezone).length + zone) +
    (if !s.dbc.catalog.isEmpty then
      (nextKey reqKeyCatalog).length + s.dbc.catalog.length + 2 else 0) +
    ((nextKey reqKeyVersion).length + s.dbc.version.length + 2) + (tailLen + 5 + 1)

/-- The length of both flags as they are written. -/
def flagsLen (s : JsonStmt) : ℕ :=
  (boolVal s.dbc.mfieldLenient).length + (boolVal s.dbc.idxIncFrozen).length

/-- The length of the time zone as it is written. -/
def zoneLen (s : JsonStmt) (tzParamCnt : ℕ) : ℕ := if s.dbc.applyTz then tzParamCnt else 3

/-- The length of a request's start, up to the end of the query. -/
def headLen (s : JsonStmt) : ℕ := 1 + (firstKey reqKeyQuery).length + 1 + jsonEscapedLen s.u8sql

theorem boolVal_length (val : Bool) : (boolVal val).length + val.toNat = 5 := by
  cases val <;> rfl

theorem zone_length :
    (if s.dbc.applyTz then tzParam else jsonValTimezoneZ).length = s.zoneLen tzParam.length := by
  rw [zoneLen]
  split_ifs
  · rfl
  · rfl

theorem queryOptions_append : s.queryOptions write tzParam ++ requestEnd =
    [emit [Json.quote],
      when (!s.params.isEmpty) (seq [emit (nextKey reqKeyParams), s.serializeParamsJson write]),
      when (!s.dbc.fetch.isEmpty) (seq [emit (nextKey reqKeyFetch), emit s.dbc.fetch]),
      emit (nextKey reqKeyMultival), emit (boolVal s.dbc.mfieldLenient),
      emit (nextKey reqKeyIdxFrozen), emit (boolVal s.dbc.idxIncFrozen),
      emit (nextKey reqKeyTimezone), emit (if s.dbc.applyTz then tzParam else jsonValTimezoneZ),
      when (!s.dbc.catalog.isEmpty) (seq [emit (nextKey reqKeyCatalog), emit [Json.quote],
        emit s.dbc.catalog, emit [Json.quote]]),
      emit (nextKey reqKeyVersion), emit [Json.quote], emit s.dbc.version, emit [Json.quote],
      emit jsonKeyValMode, emit jsonKeyCltId, emit (nextKey reqKeyBinaryFmt), emit (boolVal false),
      emit (cstr "\x7d")] := rfl

theorem catalog_length (key catalog : CStr) : key.length + ([Json.quote].length +
    (catalog.length + ([Json.quote].length + 0))) = key.length + catalog.length + 2 := by
  rw [List.length_singleton]
  omega

theorem within_requestEnd : Within (seq requestEnd) (tailLen + 5 + 1) 0 :=
  (Within.emit_cons (Within.emit_cons (Within.emit_cons (Within.emit_cons
    (Within.emit_cons within_nil))))).of_eq rfl

theorem exactly_requestEnd : Exactly (seq requestEnd) (tailLen + 5 + 1) :=
  (Exactly.emit_cons (Exactly.emit_cons (Exactly.emit_cons (Exactly.emit_cons
    (Exactly.emit_cons exactly_nil))))).of_eq rfl

/-- The lengths of the pieces behind the query, as they follow each other. -/
theorem rest_length (params zone : ℕ) : [Json.quote].length +
    ((if !s.params.isEmpty then (nextKey reqKeyParams).length + params else 0) +
    ((if !s.dbc.fetch.isEmpty then (nextKey reqKeyFetch).length + s.dbc.fetch.length else 0) +
    ((nextKey reqKeyMultival).length + ((boolVal s.dbc.mfieldLenient).length +
    ((nextKey reqKeyIdxFrozen).length + ((boolVal s.dbc.idxIncFrozen).length +
    ((nextKey reqKeyTimezone).length + (zone +
    ((if !s.dbc.catalog.isEmpty then
      (nextKey reqKeyCatalog).length + s.dbc.catalog.length + 2 else 0) +
    ((nextKey reqKeyVersion).length + ([Json.quote].length + (s.dbc.version.length +
    ([Json.quote].length + (tailLen + 5 + 1)))))))))))))) =
    1 + s.restLen params s.flagsLen zone := by
  rw [restLen, flagsLen, List.length_singleton]
  generalize (if (!s.params.isEmpty) = true then _ else 0 : ℕ) = a
  generalize (if (!s.dbc.fetch.isEmpty) = true then _ else 0 : ℕ) = b
  generalize (if (!s.dbc.catalog.isEmpty) = true then _ else 0 : ℕ) = c
  omega

theorem within_queryOptions
    (h : ∀ i p, s.params[i]? = some p → (write i).text.length ≤ p.len) :
    Within (seq (s.queryOptions write tzParam ++ requestEnd))
      (1 + s.restLen (s.arrayLen nameLen) s.flagsLen (s.zoneLen tzParam.length)) 0 := by
  have hparams : Within (s.serializeParamsJson write) (s.arrayLen nameLen) 0 :=
    Within.emit_cons (within_serializeParams fun j p hj ↦ by rw [Nat.zero_add]; exact h j p hj)
  have hfetch : Within (seq [emit (nextKey reqKeyFetch), emit s.dbc.fetch] : JsonWriter)
      ((nextKey reqKeyFetch).length + s.dbc.fetch.length) 0 :=
    Within.emit_cons (Within.emit_cons within_nil)
  have hcatalog : Within (seq [emit (nextKey reqKeyCatalog), emit [Json.quote], emit s.dbc.catalog,
      emit [Json.quote]] : JsonWriter) ((nextKey reqKeyCatalog).length + s.dbc.catalog.length + 2) 0 :=
    (Within.emit_cons (Within.emit_cons (Within.emit_cons (Within.emit_cons within_nil)))).of_eq
      (catalog_length _ _)
  have harray : Within (seq [emit (nextKey reqKeyParams), s.serializeParamsJson write])
      ((nextKey reqKeyParams).length + s.arrayLen nameLen) 0 :=
    Within.emit_cons (hparams.cons within_nil le_rfl)
  rw [queryOptions_append, ← zone_length]
  exact (Within.emit_cons ((harray.when _).cons ((hfetch.when _).cons (Within.emit_cons (Within.emit_cons
    (Within.emit_cons (Within.emit_cons (Within.emit_cons (Within.emit_cons
      ((hcatalog.when _).cons (Within.emit_cons (Within.emit_cons (Within.emit_cons
        (Within.emit_cons within_requestEnd)))) (Nat.zero_le _))))))))
    (Nat.zero_le _)) (Nat.zero_le _))).of_eq (rest_length ..)

theorem exactly_queryOptions (hp : ∀ p ∈ s.params, p.configured = true)
    (h : ∀ i p, s.params[i]? = some p → (write i).text.length = p.len ∧
      (write i).terminated = false ∧ (write i).failure = none) :
    Exactly (seq (s.queryOptions write tzParam ++ requestEnd))
      (1 + s.restLen (s.arrayLen nameLen) s.flagsLen (s.zoneLen tzParam.length)) := by
  have hparams : Exactly (s.serializeParamsJson write) (s.arrayLen nameLen) :=
    Exactly.emit_cons (exactly_serializeParams hp fun j p hj ↦ by
      rw [Nat.zero_add]
      exact h j p hj)
  have hfetch : Exactly (seq [emit (nextKey reqKeyFetch), emit s.dbc.fetch] : JsonWriter)
      ((nextKey reqKeyFetch).length + s.dbc.fetch.length) :=
    Exactly.emit_cons (Exactly.emit_cons exactly_nil)
  have hcatalog : Exactly (seq [emit (nextKey reqKeyCatalog), emit [Json.quote],
      emit s.dbc.catalog, emit [Json.quote]] : JsonWriter)
      ((nextKey reqKeyCatalog).length + s.dbc.catalog.length + 2) :=
    (Exactly.emit_cons (Exactly.emit_cons (Exactly.emit_cons
      (Exactly.emit_cons exactly_nil)))).of_eq (catalog_length _ _)
  have harray : Exactly (seq [emit (nextKey reqKeyParams), s.serializeParamsJson write])
      ((nextKey reqKeyParams).length + s.arrayLen nameLen) :=
    Exactly.emit_cons (hparams.cons exactly_nil)
  rw [queryOptions_append, ← zone_length]
  exact (Exactly.emit_cons ((harray.when _).cons ((hfetch.when _).cons (Exactly.emit_cons (Exactly.emit_cons
    (Exactly.emit_cons (Exactly.emit_cons (Exactly.emit_cons (Exactly.emit_cons
      ((hcatalog.when _).cons (Exactly.emit_cons (Exactly.emit_cons (Exactly.emit_cons
        (Exactly.emit_cons exactly_requestEnd)))))))))))))).of_eq (rest_length ..)

/-- A request with a query, written to its end. -/
theorem within_query (h : ∀ i p, s.params[i]? = some p → (write i).text.length ≤ p.len)
    (hc : s.hasCursor = false) : Within (s.serializeToJson write tzParam)
      (s.headLen + (1 + s.restLen (s.arrayLen nameLen) s.flagsLen (s.zoneLen tzParam.length)))
      0 := by
  have hquery : Within s.queryText (jsonEscapedLen s.u8sql) 0 := fun buf pos hroom ↦
    within_poke (length_jsonEscapeFrom_le ..) (length_jsonEscapeFrom_le ..) buf pos hroom
  rw [serializeToJson, hc, if_neg Bool.false_ne_true]
  apply Within.of_eq
  · exact Within.emit_cons (Within.emit_cons (Within.emit_cons
      (hquery.cons (within_queryOptions h) (Nat.zero_le _))))
  · rw [headLen, List.length_singleton]
    change 1 + _ = _
    omega

/-- A request with a query comes to its end in no other room. -/
theorem le_of_query (hp : ∀ p ∈ s.params, p.configured = true)
    (h : ∀ i p, s.params[i]? = some p → (write i).text.length = p.len ∧
      (write i).terminated = false ∧ (write i).failure = none)
    (hc : s.hasCursor = false) {buf : List UInt8} (hhead : s.headLen ≤ buf.length)
    {r : Except Failure (Dest UInt8)} (hr : s.serializeToJson write tzParam (some buf, 0) = .done r) :
    s.headLen + (1 + s.restLen (s.arrayLen nameLen) s.flagsLen (s.zoneLen tzParam.length)) ≤
      buf.length := by
  rw [serializeToJson, hc, if_neg Bool.false_ne_true] at hr
  rw [headLen] at hhead ⊢
  obtain ⟨buf₁, hlen₁, hle₁, hr⟩ := (exactly_emit _).step (Nat.zero_le _) hr
  obtain ⟨buf₂, hlen₂, hle₂, hr⟩ := (exactly_emit _).step (hlen₁ ▸ hle₁) hr
  obtain ⟨buf₃, hlen₃, hle₃, hr⟩ := (exactly_emit _).step (hlen₂ ▸ hle₂) hr
  -- the room that `json_escape` is told of is enough for the query
  have hpos : 0 + (cstr "\x7b").length + (firstKey reqKeyQuery).length + [Json.quote].length =
      1 + (firstKey reqKeyQuery).length + 1 := by
    rw [Nat.zero_add]
    rfl
  rw [hpos] at hr hle₃
  have hlen : buf₃.length = buf.length := by rw [hlen₃, hlen₂, hlen₁]
  have hfull : (jsonEscapeFrom (buf₃.length - (1 + (firstKey reqKeyQuery).length + 1)) 0
      s.u8sql).length = jsonEscapedLen s.u8sql := length_jsonEscapeFrom (by omega)
  have hquery : Exactly (emit (jsonEscapeFrom
      (buf₃.length - (1 + (firstKey reqKeyQuery).length + 1)) 0 s.u8sql) : JsonWriter)
      (jsonEscapedLen s.u8sql) := (exactly_emit _).of_eq hfull
  obtain ⟨buf₄, hlen₄, hle₄, hr⟩ := hquery.step (hlen₃ ▸ hle₃) hr
  obtain ⟨_, _, _, hle⟩ := exactly_queryOptions hp h buf₄ _ r (hlen₄ ▸ hle₄) hr
  rw [hlen₄, hlen] at hle
  exact hle

theorem counts_params (h : ∀ p ∈ s.params, p.Announces) : Counts (when (!s.params.isEmpty)
    (seq [emit (nextKey reqKeyParams), s.serializeParamsJson write]))
      (if !s.params.isEmpty then (nextKey reqKeyParams).length +
        (s.arrayLen fun _ ↦ jsonEscapedLen s.dbc.lgstName) else 0) :=
  (Counts.emit_cons (Counts.cons (Counts.emit_cons (counts_serializeParams h)) counts_nil)).when _

/-- The length that is announced. -/
theorem statementLenJson_query (hc : s.hasCursor = false) (h : ∀ p ∈ s.params, p.Announces)
    (tzParamCnt : ℕ) : s.statementLenJson write tzParamCnt = .done (.ok (s.headLen + (1 + s.restLen
      (s.arrayLen fun _ ↦ jsonEscapedLen s.dbc.lgstName) 10 tzParamCnt))) := by
  rw [statementLenJson, hc, if_neg Bool.false_ne_true]
  dsimp only
  rw [counts_params h, Exec.bind_done, headLen, restLen, Except.map, Exec.done.injEq,
    Except.ok.injEq]
  omega

/-- A parameter that does not announce a length leaves the request without one. -/
theorem statementLenJson_error (hc : s.hasCursor = false) (h : ¬∀ p ∈ s.params, p.Announces)
    (tzParamCnt : ℕ) : ∃ e, s.statementLenJson write tzParamCnt = .done (.error e) := by
  have hparams : Refuses (when (!s.params.isEmpty)
      (seq [emit (nextKey reqKeyParams), s.serializeParamsJson write])) := by
    cases hnil : s.params with
    | nil => exact absurd (fun p hp ↦ by rw [hnil] at hp; cases hp) h
    | cons p params =>
      exact (counts_emit _).cons_refuses
        ((counts_emit _).cons_refuses (refuses_serializeParams h)).cons
  rw [statementLenJson, hc, if_neg Bool.false_ne_true]
  obtain ⟨e, he⟩ := hparams (1 + (firstKey reqKeyQuery).length + jsonEscapedLen s.u8sql + 2)
  refine ⟨e, ?_⟩
  dsimp only
  rw [he]
  rfl

/-! ## A cursor -/

theorem within_copyCursor (w : WStr) : Within (copyCursor w) w.length 1 := by
  have hhead := (w.takeWhile_prefix fun u ↦ decide (u ≠ 0 ∧ u ≤ 127)).length_le
  intro buf pos hroom
  rw [copyCursor]
  split_ifs with hnil hend
  · exact ⟨_, rfl, fun out ho ↦ by cases ho⟩
  · refine within_poke le_rfl ?_ buf pos hroom
    rw [List.length_append, List.length_map]
    exact Nat.add_le_add_right hhead 1
  · have hfail : Within (fun _ ↦ .done (.error (.s24000, none)) : JsonWriter) 0 0 :=
      fun _ _ _ ↦ ⟨_, rfl, fun out ho ↦ by cases ho⟩
    rw [← List.length_map] at hhead
    exact (Within.emit_cons (hfail.cons within_nil le_rfl)).mono hhead
      (hhead.trans (Nat.le_succ _)) buf pos hroom

/-- A request with a cursor, written to its end. -/
theorem within_cursor (hc : s.hasCursor = true) : Within (s.serializeToJson write tzParam)
    (1 + (firstKey reqKeyCursor).length + s.curs.cnt + 2 + (tailLen + 5 + 1)) 0 := by
  have hcopy : Within (match s.curs with
      | .json w => copyCursor w
      | .cbor b => emit b) s.curs.cnt 1 := by
    cases s.curs with
    | json w => exact within_copyCursor w
    | cbor b => exact (within_emit b).mono le_rfl (Nat.le_succ _)
  rw [serializeToJson, hc, if_pos rfl, cursorObject]
  exact (Within.emit_cons (Within.emit_cons (Within.emit_cons (hcopy.cons
    (Within.emit_cons within_requestEnd) (Nat.le_add_right ..))))).of_eq (by
      change 1 + (_ + (1 + (_ + (1 + _)))) = _
      omega)

/-! ## The body -/

/-- The body is written within its bounds, whatever the parameters come to, and it is no longer
than the length that was computed. -/
def Sized (s : JsonStmt) (c : TzCache) (k : TzCall) : Prop :=
  ∀ (conversions : Conversions s.params) (fresh : ℕ → UInt8) (dest : List UInt8),
    ∃ r, s.serializeStatement conversions.write c k fresh dest = .done r ∧
      ∀ len body, r = .ok (len, body) → body.length ≤ len

/-- The names of the parameters' types, escaped, and the time zone come to no more than the longest
name and the text of the zone would; a flag that is set is one byte shorter than was counted. -/
def Roomy (s : JsonStmt) (tzParamCnt : ℕ) : Prop :=
  s.hasCursor = false → (∀ p ∈ s.params, p.Announces) →
    (s.params.map nameLen).sum + s.zoneLen tzParamCnt ≤
      s.params.length * jsonEscapedLen s.dbc.lgstName + tzParamCnt + s.dbc.mfieldLenient.toNat +
        s.dbc.idxIncFrozen.toNat

/-- Texts of the lengths announced. -/
def announcedTexts (params : List Param) : Conversions params where
  write i := ⟨List.replicate ((params[i]?.map Param.len).getD 0) 0, false, none⟩
  le i len h := by
    cases hp : params[i]? with
    | none =>
      rw [hp] at h
      cases h
    | some p =>
      rw [hp, Option.map_some, Option.some.injEq] at h
      rw [List.length_replicate, Option.map_some, Option.getD_some, Param.len, h]
      rfl

theorem TzCache.tzParamBytes_length (c : TzCache) : c.tzParamBytes.length = c.tzParamCnt := by
  rw [TzCache.tzParamBytes, List.length_map, List.length_range]

/-- The two lengths of a request with a query. -/
theorem restLen_le_iff (tzParamCnt : ℕ) :
    s.restLen (s.arrayLen nameLen) s.flagsLen (s.zoneLen tzParamCnt) ≤
      s.restLen (s.arrayLen fun _ ↦ jsonEscapedLen s.dbc.lgstName) 10 tzParamCnt ↔
    (s.params.map nameLen).sum + s.zoneLen tzParamCnt ≤
      s.params.length * jsonEscapedLen s.dbc.lgstName + tzParamCnt + s.dbc.mfieldLenient.toNat +
        s.dbc.idxIncFrozen.toNat := by
  have hnames := paramsLen_add nameLen (fun _ ↦ jsonEscapedLen s.dbc.lgstName) 0 s.params
  rw [List.map_const', List.sum_replicate, smul_eq_mul] at hnames
  have hlenient := boolVal_length s.dbc.mfieldLenient
  have hfrozen := boolVal_length s.dbc.idxIncFrozen
  rw [restLen, restLen, flagsLen, arrayLen, arrayLen]
  cases hnil : s.params with
  | nil =>
    rw [List.isEmpty_nil, Bool.not_true, if_neg Bool.false_ne_true, if_neg Bool.false_ne_true,
      List.map_nil, List.sum_nil, List.length_nil, Nat.zero_mul]
    omega
  | cons p params =>
    have hne : (!s.params.isEmpty) = true := by
      rw [hnil]
      rfl
    rw [← hnil, if_pos hne, if_pos hne]
    omega

/-- A writer that needs no more than the length computed. -/
theorem sized_of_within {c : TzCache} {k : TzCall} {fresh : ℕ → UInt8} {dest : List UInt8}
    {n len : ℕ} (hlen : s.statementLenJson write (c.updateTzParam k).2.tzParamCnt = .done (.ok len))
    (h : Within (s.serializeToJson write (c.updateTzParam k).2.tzParamBytes) n 0) (hle : n ≤ len) :
    ∃ r, s.serializeStatement write c k fresh dest = .done r ∧
      ∀ len body, r = .ok (len, body) → body.length ≤ len := by
  rw [serializeStatement, hlen]
  split_ifs
  · have hroom : len ≤ (if dest.length < len then (List.range len).map fresh else dest).length := by
      split_ifs with hsmall
      · rw [List.length_map, List.length_range]
      · exact not_lt.mp hsmall
    obtain ⟨r, hr, hout⟩ := h _ 0 (by rw [Nat.zero_add]; exact hle.trans hroom)
    rw [Exec.bind_done]
    dsimp only
    rw [hr, Exec.bind_done]
    refine ⟨_, rfl, ?_⟩
    intro len' body hbody
    cases r with
    | error e => cases hbody
    | ok out =>
      obtain ⟨buf, pos, rfl, -, hpos⟩ := hout out rfl
      cases hbody
      rw [Nat.zero_add] at hpos
      exact (List.length_take_le _ _).trans (hpos.trans hle)
  · exact ⟨_, rfl, fun len body hbody ↦ by cases hbody⟩

/-- The request is sized exactly if there is room for its names and its zone. -/
theorem sized_iff (s : JsonStmt) (c : TzCache) (k : TzCall) : s.Sized c k ↔
    ((c.updateTzParam k).1 = true → s.Roomy (c.updateTzParam k).2.tzParamCnt) := by
  have hcnt := TzCache.tzParamBytes_length (c.updateTzParam k).2
  constructor
  · intro hsized htz hc hall
    obtain ⟨r, hr, -⟩ := hsized (announcedTexts s.params) (fun _ ↦ 0) []
    have htext : ∀ i p, s.params[i]? = some p →
        ((announcedTexts s.params).write i).text.length = p.len ∧
          ((announcedTexts s.params).write i).terminated = false ∧
          ((announcedTexts s.params).write i).failure = none := by
      intro i p hp
      refine ⟨?_, rfl, rfl⟩
      change (List.replicate _ _).length = _
      rw [hp, List.length_replicate]
      rfl
    rw [serializeStatement, if_pos htz, statementLenJson_query hc hall, Exec.bind_done] at hr
    dsimp only at hr
    rw [if_pos (by rw [List.length_nil, headLen]; omega), Exec.bind_eq_done] at hr
    obtain ⟨r', hr', -⟩ := hr
    have hle := le_of_query (fun p hp ↦ (hall p hp).1) htext hc
      (by rw [List.length_map, List.length_range]; exact Nat.le_add_right _ _) hr'
    rw [List.length_map, List.length_range, hcnt] at hle
    exact restLen_le_iff _ |>.mp (by omega)
  · intro hroomy conversions fresh dest
    cases htz : (c.updateTzParam k).1 with
    | false =>
      rw [serializeStatement, htz, if_neg Bool.false_ne_true]
      exact ⟨_, rfl, fun len body hbody ↦ by cases hbody⟩
    | true =>
      cases hc : s.hasCursor with
      | true =>
        refine sized_of_within ?_ (within_cursor hc) le_rfl
        rw [statementLenJson, hc, if_pos rfl]
      | false =>
        by_cases hall : ∀ p ∈ s.params, p.Announces
        · refine sized_of_within (statementLenJson_query hc hall _)
            (within_query (fun i p hp ↦ ?_) hc) ?_
          · refine conversions.le i p.len ?_
            rw [hp, Option.map_some, (hall p (List.mem_of_getElem? hp)).2]
          · rw [hcnt]
            exact Nat.add_le_add_left (Nat.add_le_add_left
              ((restLen_le_iff _).mpr (hroomy htz hc hall)) _) _
        · obtain ⟨e, he⟩ := @statementLenJson_error s conversions.write hc hall
            (c.updateTzParam k).2.tzParamCnt
          rw [serializeStatement, if_pos htz, he]
          exact ⟨_, rfl, fun len body hbody ↦ by cases hbody⟩

/-- The second statement of a thread whose first one met the end of the year: there is no text of
the zone yet, and the body is three bytes short for the one that is sent instead. -/
def newYearStmt : JsonStmt where
  dbc := ⟨[], false, false, false, [], [], cstr "8.0.0"⟩
  curs := .json []
  u8sql := cstr "SELECT 1"
  params := []

theorem not_sized_newYear : ¬newYearStmt.Sized (TzCache.init.updateTzParam TzCache.newYear).2
    TzCache.newYear := by
  intro h
  obtain ⟨r, hr, -⟩ := h (announcedTexts []) (fun _ ↦ 0) []
  have hundefined : newYearStmt.serializeStatement (announcedTexts []).write
      (TzCache.init.updateTzParam TzCache.newYear).2 TzCache.newYear (fun _ ↦ 0) [] = .undefined := by
    decide +kernel
  rw [hundefined] at hr
  cases hr

end JsonStmt

end EsOdbc
