import EsOdbc.Texts.JsonEscape
import EsOdbc.Lib.JsonText

/-!
# What a request says

The members of a request, however it is packed, and the JSON body of a statement as the text of the
object that they make up.
-/

namespace EsOdbc

open Writer

/-! ## The members -/

/-- The value that a parameter has for the server. -/
inductive Datum where
  | null
  | flag (b : Bool)
  | number (lexeme : CStr)
  | text (s : CStr)

/-- What a member of a request is; a count is there in decimal and in binary. -/
inductive Field where
  | text (s : CStr)
  | count (lexeme : CStr) (n : UInt64)
  | flag (b : Bool)
  | params (ps : List (CStr × Datum))

def reqKeyParamType : String := "type"
def reqKeyParamVal : String := "value"

namespace Datum

/-- The value as JSON. -/
def json : Datum → Json.Value
  | .null => .null
  | .flag b => .bool b
  | .number lexeme => .number lexeme
  | .text s => .string s

/-- What a converter writes for the value. -/
def Spells (text : CStr) : Datum → Prop
  | .null => text = Json.nullText
  | .flag b => text = if b then Json.trueText else Json.falseText
  | .number lexeme => text = lexeme ∧ Json.number lexeme = some []
  | .text s => ∃ t, text = Json.quote :: t ++ [Json.quote] ∧
      ∀ rest, Json.string (t ++ Json.quote :: rest) = some (s, rest)

theorem reads {text : CStr} {d : Datum} (h : d.Spells text) : Json.Reads text d.json := by
  cases d with
  | null => exact h ▸ Json.reads_null
  | flag b => exact h ▸ Json.reads_bool b
  | number lexeme =>
    obtain ⟨rfl, hnumber⟩ := h
    exact Json.reads_number hnumber
  | text s =>
    obtain ⟨t, rfl, ht⟩ := h
    exact Json.reads_string ht

end Datum

/-- The member as JSON. -/
def Field.json : Field → Json.Value
  | .text s => .string s
  | .count lexeme _ => .number lexeme
  | .flag b => .bool b
  | .params ps => .array (ps.map fun p ↦
      .object [(cstr reqKeyParamType, .string p.1), (cstr reqKeyParamVal, p.2.json)])

/-- The bytes of a cursor. -/
def Cursor.text : Cursor → CStr
  | .json w => w.map UInt16.toUInt8
  | .cbor b => b

namespace JsonStmt

/-- The parameters with their values, from one on. -/
def paramData (data : ℕ → Datum) : ℕ → List Param → List (CStr × Datum)
  | _, [] => []
  | i, p :: params => (p.typeNameC, data i) :: paramData data (i + 1) params

/-- The members behind the query. -/
def options (s : JsonStmt) (max : UInt64) (data : ℕ → Datum) (zone : CStr) :
    List (String × Field) :=
  (if s.params.isEmpty then [] else [(reqKeyParams, .params (paramData data 0 s.params))]) ++
    ((if s.dbc.fetch.isEmpty then [] else [(reqKeyFetch, .count s.dbc.fetch max)]) ++
      [(reqKeyMultival, .flag s.dbc.mfieldLenient), (reqKeyIdxFrozen, .flag s.dbc.idxIncFrozen),
        (reqKeyTimezone, .text zone)] ++
      ((if s.dbc.catalog.isEmpty then [] else [(reqKeyCatalog, .text s.dbc.catalog)]) ++
        [(reqKeyVersion, .text s.dbc.version)]))

/-- The members of every request. -/
def common (binary : Bool) : List (String × Field) :=
  [(reqKeyMode, .text (cstr reqValMode)), (reqKeyCltId, .text (cstr reqValCltId)),
    (reqKeyBinaryFmt, .flag binary)]

/-- The members of a request for a statement. -/
def fields (s : JsonStmt) (max : UInt64) (data : ℕ → Datum) (zone : CStr) (binary : Bool) :
    List (String × Field) :=
  (if s.hasCursor then [(reqKeyCursor, .text s.curs.text)]
    else (reqKeyQuery, .text s.u8sql) :: s.options max data zone) ++ common binary

end JsonStmt

/-! ## Texts of members -/

/-- A string literal. -/
def stringLiteral (t : CStr) : CStr := Json.quote :: t ++ [Json.quote]

theorem reads_escaped (s : CStr) : Json.Reads (stringLiteral (escapedText s)) (.string s) :=
  Json.reads_string (string_escapedText s)

theorem reads_plain {s : CStr} (h : ∀ b ∈ s, Json.Plain b) :
    Json.Reads (stringLiteral s) (.string s) :=
  Json.reads_string (Json.string_plain h)

/-- A member with a key that needs no escape. -/
theorem readsMember {key text : CStr} {v : Json.Value} (hkey : ∀ b ∈ key, Json.Plain b)
    (h : Json.Reads text v) : Json.ReadsMember (Json.memberText key text) (key, v) :=
  ⟨key, text, rfl, Json.string_plain hkey, h⟩

/-- The text of a parameter. -/
def paramText (name text : CStr) : CStr :=
  Json.openBrace :: Json.joined [
    Json.memberText (cstr reqKeyParamType) (stringLiteral (escapedText name)),
    Json.memberText (cstr reqKeyParamVal) text] ++ [Json.closeBrace]

theorem reads_paramText (name : CStr) {text : CStr} {d : Datum} (h : d.Spells text) :
    Json.Reads (paramText name text) (.object [(cstr reqKeyParamType, .string name),
      (cstr reqKeyParamVal, d.json)]) := by
  refine Json.reads_object (.cons ?_ (.cons ?_ .nil))
  · exact readsMember (by decide +kernel) (reads_escaped name)
  · exact readsMember (by decide +kernel) (Datum.reads h)

namespace JsonStmt

variable {s : JsonStmt} {write : ℕ → WrittenValue} {c : WrittenValue} {p : Param}
  {params : List Param} {data : ℕ → Datum} {i : ℕ} {tzParam zone : CStr}

/-- The texts of the parameters. -/
def paramTexts (write : ℕ → WrittenValue) : ℕ → List Param → List CStr
  | _, [] => []
  | i, p :: params => paramText p.typeNameC (write i).text :: paramTexts write (i + 1) params

/-- The parameters' names can be escaped, and what is written for them spells the values. -/
def Spelled (write : ℕ → WrittenValue) (data : ℕ → Datum) (i : ℕ) (params : List Param) : Prop :=
  ∀ j p, params[j]? = some p → jsonEscapedLen p.typeNameC ≤ sizeMax ∧
    (data (i + j)).Spells (write (i + j)).text

theorem Spelled.tail (h : Spelled write data i (p :: params)) :
    Spelled write data (i + 1) params := by
  intro j q hq
  rw [Nat.add_right_comm]
  exact h (j + 1) q hq

theorem reads_paramTexts (h : Spelled write data i params) :
    List.Forall₂ Json.Reads (paramTexts write i params) ((paramData data i params).map fun p ↦
      .object [(cstr reqKeyParamType, .string p.1), (cstr reqKeyParamVal, p.2.json)]) := by
  induction params generalizing i with
  | nil => exact .nil
  | cons p params ih => exact .cons (reads_paramText _ (h 0 p rfl).2) (ih h.tail)

/-! ## What is written for the parameters -/

theorem writes_convertParamVal (p : Param) (c : WrittenValue) :
    Writes (convertParamVal p c) c.text := by
  intro buf pos out hpos hout
  rw [convertParamVal] at hout
  dsimp only at hout
  obtain ⟨r, hr, hout⟩ := Exec.bind_eq_done.mp hout
  cases hfail : c.failure with
  | some e =>
    rw [hfail] at hout
    cases hout
  | none =>
    rw [hfail] at hout
    cases hout
    exact writes_poke _ _ buf pos out hpos hr

theorem writes_name (hname : jsonEscapedLen p.typeNameC ≤ sizeMax) :
    Writes (fun out ↦ jsonEscape (if out.1.isSome then p.typeNameC else s.dbc.lgstName) sizeMax out)
      (escapedText p.typeNameC) := by
  intro buf pos out hpos hout
  have hall : jsonEscapeFrom sizeMax 0 p.typeNameC = escapedText p.typeNameC := by
    have hstart := @escapedStart_longest sizeMax 0 _ _ (List.prefix_refl p.typeNameC) (by omega)
    rw [jsonEscapeFrom_eq, (escapedStart_starts ..).eq_of_length_le hstart.length_le]
  exact hall ▸ writes_emit _ buf pos out hpos hout

theorem paramText_eq (name text : CStr) : jType ++ (escapedText name ++ (jVal ++ (text ++
    (cstr "\x7d" ++ [])))) = paramText name text := by
  have htype : jType = Json.openBrace :: Json.quote :: cstr reqKeyParamType ++
      [Json.quote, Json.colon, 0x20, Json.quote] := by decide
  have hval : jVal = Json.quote :: Json.comma :: 0x20 :: Json.quote :: cstr reqKeyParamVal ++
      [Json.quote, Json.colon, 0x20] := by decide
  have hend : cstr "\x7d" = [Json.closeBrace] := by decide
  rw [htype, hval, hend]
  simp [paramText, Json.joined, Json.later, Json.memberText, stringLiteral]

theorem writes_serializeParam (hname : jsonEscapedLen p.typeNameC ≤ sizeMax) :
    Writes (s.serializeParam c i p)
      ((if i ≠ 0 then cstr ", " else []) ++ paramText p.typeNameC c.text) := by
  rw [serializeParam]
  by_cases hp : p.configured = true
  · rw [if_pos hp]
    have hvalue := (writes_convertParamVal p c).cons ((writes_emit (cstr "\x7d")).cons writes_nil)
    have hobject := (writes_emit jType).cons ((@writes_name s p hname).cons
      ((writes_emit jVal).cons hvalue))
    rw [paramText_eq] at hobject
    refine (((writes_emit (cstr ", ")).when (i ≠ 0)).cons hobject).of_eq ?_
    simp only [decide_eq_true_eq]
  · rw [if_neg hp]
    intro buf pos out _ hout
    cases hout

/-- The parameters behind the first, and the closing bracket. -/
theorem writes_laterParams (h : Spelled write data (i + 1) params) :
    Writes (seq (s.serializeParams write (i + 1) params))
      ((paramTexts write (i + 1) params).flatMap Json.later ++ [Json.closeBracket]) := by
  induction params generalizing i with
  | nil => exact ((writes_emit (cstr "]")).cons writes_nil).of_eq rfl
  | cons p params ih =>
    refine ((writes_serializeParam (h 0 p rfl).1).cons (ih h.tail)).of_eq ?_
    have hcomma : cstr ", " = [Json.comma, 0x20] := by decide
    rw [if_pos (Nat.succ_ne_zero i), hcomma]
    simp [paramTexts, Json.later]

theorem writes_serializeParamsJson (h : Spelled write data 0 s.params) :
    Writes (s.serializeParamsJson write)
      (Json.openBracket :: Json.joined (paramTexts write 0 s.params) ++ [Json.closeBracket]) := by
  rw [serializeParamsJson]
  cases hparams : s.params with
  | nil =>
    exact ((writes_emit (cstr "[")).cons ((writes_emit (cstr "]")).cons writes_nil)).of_eq rfl
  | cons p params =>
    rw [hparams] at h
    have hfirst : Writes (s.serializeParam (write 0) 0 p) (paramText p.typeNameC (write 0).text) :=
      (writes_serializeParam (h 0 p rfl).1).of_eq (by rw [if_neg (by decide), List.nil_append])
    refine ((writes_emit (cstr "[")).cons (hfirst.cons (writes_laterParams h.tail))).of_eq ?_
    have hopen : cstr "[" = [Json.openBracket] := by decide
    rw [hopen]
    simp [paramTexts, Json.joined]

/-! ## The body -/

theorem cstr_append (a b : String) : cstr (a ++ b) = cstr a ++ cstr b := by
  rw [cstr, cstr, cstr, String.toList_append, List.map_append]

theorem firstKey_append (name : String) (text : CStr) :
    firstKey name ++ text = Json.memberText (cstr name) text := by
  have hopen : cstr "\"" = [Json.quote] := by decide
  have hclose : cstr "\": " = [Json.quote, Json.colon, 0x20] := by decide
  rw [firstKey, cstr_append, cstr_append, hopen, hclose]
  simp [Json.memberText]

theorem nextKey_append (name : String) (text : CStr) :
    nextKey name ++ text = Json.later (Json.memberText (cstr name) text) := by
  have hopen : cstr ", \"" = [Json.comma, 0x20, Json.quote] := by decide
  have hclose : cstr "\": " = [Json.quote, Json.colon, 0x20] := by decide
  rw [nextKey, cstr_append, cstr_append, hopen, hclose]
  simp [Json.later, Json.memberText]

/-- The texts of the members behind the query. -/
def optionTexts (s : JsonStmt) (write : ℕ → WrittenValue) (tzParam : CStr) : List CStr :=
  (if s.params.isEmpty then [] else [Json.memberText (cstr reqKeyParams)
      (Json.openBracket :: Json.joined (paramTexts write 0 s.params) ++ [Json.closeBracket])]) ++
    ((if s.dbc.fetch.isEmpty then [] else [Json.memberText (cstr reqKeyFetch) s.dbc.fetch]) ++
      [Json.memberText (cstr reqKeyMultival) (boolVal s.dbc.mfieldLenient),
        Json.memberText (cstr reqKeyIdxFrozen) (boolVal s.dbc.idxIncFrozen),
        Json.memberText (cstr reqKeyTimezone)
          (if s.dbc.applyTz then tzParam else jsonValTimezoneZ)] ++
      ((if s.dbc.catalog.isEmpty then []
        else [Json.memberText (cstr reqKeyCatalog) (stringLiteral s.dbc.catalog)]) ++
        [Json.memberText (cstr reqKeyVersion) (stringLiteral s.dbc.version)]))

/-- The texts of the members of every request. -/
def commonTexts : List CStr :=
  [Json.memberText (cstr reqKeyMode) (stringLiteral (cstr reqValMode)),
    Json.memberText (cstr reqKeyCltId) (stringLiteral (cstr reqValCltId)),
    Json.memberText (cstr reqKeyBinaryFmt) (boolVal false)]

/-- The texts of the members. -/
def memberTexts (s : JsonStmt) (write : ℕ → WrittenValue) (tzParam : CStr) : List CStr :=
  (if s.hasCursor then [Json.memberText (cstr reqKeyCursor) (stringLiteral s.curs.text)]
    else Json.memberText (cstr reqKeyQuery) (stringLiteral (escapedText s.u8sql)) ::
      s.optionTexts write tzParam) ++ commonTexts

/-- The text of a request. -/
def bodyText (s : JsonStmt) (write : ℕ → WrittenValue) (tzParam : CStr) : CStr :=
  Json.openBrace :: Json.joined (s.memberTexts write tzParam) ++ [Json.closeBrace]

/-- What the end of a request writes. -/
theorem writes_requestEnd : Writes (seq requestEnd)
    (commonTexts.flatMap Json.later ++ [Json.closeBrace]) := by
  have hend : cstr "\x7d" = [Json.closeBrace] := by decide
  have hmode : cstr ("\"" ++ reqValMode ++ "\"") = stringLiteral (cstr reqValMode) := by decide
  have hclt : cstr ("\"" ++ reqValCltId ++ "\"") = stringLiteral (cstr reqValCltId) := by decide
  refine ((writes_emit _).cons ((writes_emit _).cons ((writes_emit _).cons ((writes_emit _).cons
    ((writes_emit _).cons writes_nil))))).of_eq ?_
  rw [jsonKeyValMode, jsonKeyCltId, hend, hmode, hclt, nextKey_append, nextKey_append,
    ← List.append_assoc (nextKey reqKeyBinaryFmt), nextKey_append, List.append_nil, commonTexts]
  simp

/-- What is written behind a query. -/
theorem writes_queryOptions (h : Spelled write data 0 s.params) :
    Writes (seq (s.queryOptions write tzParam ++ requestEnd))
      ([Json.quote] ++ ((s.optionTexts write tzParam ++ commonTexts).flatMap Json.later ++
        [Json.closeBrace])) := by
  have hparams := ((writes_emit (nextKey reqKeyParams)).cons
    ((writes_serializeParamsJson h).cons writes_nil)).when (!s.params.isEmpty)
  have hfetch := ((writes_emit (ε := Failure) (nextKey reqKeyFetch)).cons
    ((writes_emit s.dbc.fetch).cons writes_nil)).when (!s.dbc.fetch.isEmpty)
  have hcatalog := ((writes_emit (ε := Failure) (nextKey reqKeyCatalog)).cons
    ((writes_emit [Json.quote]).cons ((writes_emit s.dbc.catalog).cons
      ((writes_emit [Json.quote]).cons writes_nil)))).when (!s.dbc.catalog.isEmpty)
  have hversion := (writes_emit (ε := Failure) (nextKey reqKeyVersion)).cons
    ((writes_emit [Json.quote]).cons ((writes_emit s.dbc.version).cons
      ((writes_emit [Json.quote]).cons writes_requestEnd)))
  have hflags := (writes_emit (ε := Failure) (nextKey reqKeyMultival)).cons
    ((writes_emit (boolVal s.dbc.mfieldLenient)).cons ((writes_emit (nextKey reqKeyIdxFrozen)).cons
      ((writes_emit (boolVal s.dbc.idxIncFrozen)).cons ((writes_emit (nextKey reqKeyTimezone)).cons
        ((writes_emit (if s.dbc.applyTz then tzParam else jsonValTimezoneZ)).cons
          (hcatalog.cons hversion))))))
  rw [queryOptions_append]
  refine ((writes_emit [Json.quote]).cons (hparams.cons (hfetch.cons hflags))).of_eq ?_
  rw [optionTexts]
  cases s.params.isEmpty <;> cases s.dbc.fetch.isEmpty <;> cases s.dbc.catalog.isEmpty <;>
    simp [← nextKey_append, stringLiteral]

/-- The longest escape. -/
theorem length_escapedChar_le (uchar : UInt8) : (escapedChar uchar).length ≤ 6 := by
  rw [← length_escapedChar, jsonEscapedLen, List.map_singleton, List.sum_singleton]
  split_ifs <;> decide

/-- What is not escaped to its end leaves no room for another escape. -/
theorem jsonEscapeFrom_cases (outlen pos : ℕ) (jin : CStr) :
    jsonEscapeFrom outlen pos jin = escapedText jin ∨
      outlen < pos + (jsonEscapeFrom outlen pos jin).length + 6 := by
  induction jin generalizing pos with
  | nil => exact Or.inl rfl
  | cons uchar jin ih =>
    have hle := length_escapedChar_le uchar
    rw [jsonEscapeFrom]
    by_cases hfull : outlen < pos + (escapedChar uchar).length
    · rw [if_pos hfull]
      apply Or.inr
      rw [List.length_nil]
      omega
    · rw [if_neg hfull, escapedText_cons, List.length_append]
      rcases ih (pos + (escapedChar uchar).length) with hall | hfull
      · exact Or.inl (congrArg _ hall)
      · apply Or.inr
        omega

/-- What a query writes, if it leaves the rest enough room. -/
theorem writes_queryText {fs : List JsonWriter} {units : CStr} (h : Writes (seq fs) units)
    (hlong : 6 ≤ units.length) :
    Writes (seq (s.queryText :: fs)) (escapedText s.u8sql ++ units) := by
  intro buf pos out hpos hout
  have hquery : s.queryText (some buf, pos) =
      emit (jsonEscapeFrom (buf.length - pos) 0 s.u8sql) (some buf, pos) := rfl
  have hemit : seq (emit (jsonEscapeFrom (buf.length - pos) 0 s.u8sql) :: fs) (some buf, pos) =
      .done (.ok out) := by
    rw [← hout, seq, seq, hquery]
  obtain ⟨buf', rfl, hlen, hle, htake⟩ := (writes_emit _).cons h buf pos out hpos hemit
  rcases jsonEscapeFrom_cases (buf.length - pos) 0 s.u8sql with hall | hfull
  · rw [hall] at hle htake ⊢
    exact ⟨buf', rfl, hlen, hle, htake⟩
  · rw [List.length_append] at hle
    omega

/-- What a cursor writes. -/
theorem writes_copyCursor {w : WStr} (hne : w ≠ []) (h : ∀ u ∈ w, u ≠ 0 ∧ u ≤ 127) :
    Writes (copyCursor w) (w.map UInt16.toUInt8) := by
  have hhead : (w.takeWhile fun u ↦ u ≠ 0 ∧ u ≤ 127) = w :=
    List.takeWhile_eq_self_iff.mpr fun u hu ↦ by simpa using h u hu
  intro buf pos out hpos hout
  have hpoke := @writes_poke UInt8 Failure (w.map UInt16.toUInt8) [0] buf pos out hpos
  rw [List.length_map] at hpoke ⊢
  refine hpoke ?_
  rw [← hout, copyCursor, hhead, if_neg (by simpa using hne),
    if_pos (by rw [List.getElem?_length]; rfl)]

/-- What the driver writes as it is: a cursor of ASCII without NULs, a decimal count, a name and a
version that need no escape, and a zone between quotation marks. -/
structure Unescaped (s : JsonStmt) (tzParam zone : CStr) : Prop where
  units : ∀ w, s.curs = .json w → ∀ u ∈ w, u ≠ 0 ∧ u ≤ 127
  cursor : ∀ b ∈ s.curs.text, Json.Plain b
  fetch : s.dbc.fetch ≠ [] → Json.number s.dbc.fetch = some []
  catalog : ∀ b ∈ s.dbc.catalog, Json.Plain b
  version : ∀ b ∈ s.dbc.version, Json.Plain b
  zoneText : (if s.dbc.applyTz then tzParam else jsonValTimezoneZ) = stringLiteral zone
  zone : ∀ b ∈ zone, Json.Plain b

theorem writes_cursorObject (hc : s.hasCursor = true) (h : s.Unescaped tzParam zone) :
    Writes (seq (s.cursorObject ++ requestEnd)) (firstKey reqKeyCursor ++ ([Json.quote] ++
      (s.curs.text ++ ([Json.quote] ++
        (commonTexts.flatMap Json.later ++ [Json.closeBrace]))))) := by
  rw [cursorObject]
  cases hcurs : s.curs with
  | json w =>
    have hne : w ≠ [] := by
      rintro rfl
      rw [hasCursor, hcurs] at hc
      cases hc
    exact (writes_emit _).cons ((writes_emit _).cons ((writes_copyCursor hne (h.units w hcurs)).cons
      ((writes_emit _).cons writes_requestEnd)))
  | cbor b =>
    exact (writes_emit _).cons ((writes_emit _).cons ((writes_emit b).cons
      ((writes_emit _).cons writes_requestEnd)))

/-- A request that is written is the text of its members. -/
theorem writes_serializeToJson (h : s.Unescaped tzParam zone)
    (hspelled : Spelled write data 0 s.params) :
    Writes (s.serializeToJson write tzParam) (s.bodyText write tzParam) := by
  have hopen : cstr "\x7b" = [Json.openBrace] := by decide
  rw [serializeToJson, bodyText, memberTexts, hopen]
  cases hc : s.hasCursor with
  | true =>
    rw [if_pos rfl, if_pos rfl]
    refine ((writes_emit _).cons (writes_cursorObject hc h)).of_eq ?_
    have hmember := firstKey_append reqKeyCursor (stringLiteral s.curs.text)
    have hjoined (m : CStr) :
        Json.joined ([m] ++ commonTexts) = m ++ commonTexts.flatMap Json.later := rfl
    rw [hjoined, ← hmember]
    simp [stringLiteral]
  | false =>
    rw [if_neg Bool.false_ne_true, if_neg Bool.false_ne_true]
    have hmember := firstKey_append reqKeyQuery (stringLiteral (escapedText s.u8sql))
    refine ((writes_emit _).cons ((writes_emit _).cons ((writes_emit _).cons
      (writes_queryText (writes_queryOptions hspelled) ?_)))).of_eq ?_
    · have hcommon : 6 ≤ (commonTexts.flatMap Json.later).length := by decide +kernel
      rw [List.flatMap_append, List.length_append, List.length_append, List.length_append]
      omega
    · have hjoined (m : CStr) : Json.joined (m :: s.optionTexts write tzParam ++ commonTexts) =
          m ++ (s.optionTexts write tzParam ++ commonTexts).flatMap Json.later := rfl
      rw [hjoined, ← hmember]
      simp [stringLiteral]

/-- The member of a field. -/
def jsonMember (f : String × Field) : CStr × Json.Value := (cstr f.1, f.2.json)

theorem reads_boolVal (b : Bool) : Json.Reads (boolVal b) (.bool b) := by
  cases b with
  | true => exact Json.reads_bool true
  | false => exact Json.reads_bool false

theorem reads_commonTexts :
    List.Forall₂ Json.ReadsMember commonTexts ((common false).map jsonMember) := by
  refine .cons ?_ (.cons ?_ (.cons ?_ .nil))
  · exact readsMember (by decide +kernel) (reads_plain (by decide +kernel))
  · exact readsMember (by decide +kernel) (reads_plain (by decide +kernel))
  · exact readsMember (by decide +kernel) (Json.reads_bool false)

theorem reads_optionTexts (h : s.Unescaped tzParam zone) (hspelled : Spelled write data 0 s.params)
    (max : UInt64) : List.Forall₂ Json.ReadsMember (s.optionTexts write tzParam)
      ((s.options max data zone).map jsonMember) := by
  rw [optionTexts, options, List.map_append, List.map_append, List.map_append, List.map_append]
  refine List.rel_append ?_ (List.rel_append (List.rel_append ?_ ?_) (List.rel_append ?_ ?_))
  · cases s.params.isEmpty with
    | true => exact .nil
    | false =>
      exact .cons (readsMember (by decide +kernel)
        (Json.reads_array (reads_paramTexts hspelled))) .nil
  · cases hfetch : s.dbc.fetch.isEmpty with
    | true => exact .nil
    | false =>
      have hnumber := h.fetch fun hnil ↦ by
        rw [hnil] at hfetch
        cases hfetch
      exact .cons (readsMember (by decide +kernel) (Json.reads_number hnumber)) .nil
  · refine .cons ?_ (.cons ?_ (.cons ?_ .nil))
    · exact readsMember (by decide +kernel) (reads_boolVal _)
    · exact readsMember (by decide +kernel) (reads_boolVal _)
    · rw [h.zoneText]
      exact readsMember (by decide +kernel) (reads_plain h.zone)
  · cases s.dbc.catalog.isEmpty with
    | true => exact .nil
    | false => exact .cons (readsMember (by decide +kernel) (reads_plain h.catalog)) .nil
  · exact .cons (readsMember (by decide +kernel) (reads_plain h.version)) .nil

theorem reads_bodyText (h : s.Unescaped tzParam zone) (hspelled : Spelled write data 0 s.params)
    (max : UInt64) : Json.Reads (s.bodyText write tzParam)
      (.object ((s.fields max data zone false).map jsonMember)) := by
  refine Json.reads_object ?_
  rw [memberTexts, fields, List.map_append]
  refine List.rel_append ?_ reads_commonTexts
  cases s.hasCursor with
  | true => exact .cons (readsMember (by decide +kernel) (reads_plain h.cursor)) .nil
  | false =>
    exact .cons (readsMember (by decide +kernel) (reads_escaped s.u8sql))
      (reads_optionTexts h hspelled max)

/-- The body that is sent is one JSON object, which says what the statement asks for. -/
theorem json_document {c : TzCache} {k : TzCall} {fresh : ℕ → UInt8} {dest body : CStr} {len : ℕ}
    (hbody : s.serializeStatement write c k fresh dest = .done (.ok (len, body)))
    (h : s.Unescaped (c.updateTzParam k).2.tzParamBytes zone)
    (hspelled : Spelled write data 0 s.params) (max : UInt64) :
    Json.parse body = some (.object ((s.fields max data zone false).map jsonMember)) := by
  have hwrites := writes_serializeToJson h hspelled
  rw [serializeStatement] at hbody
  split_ifs at hbody with htz
  swap
  · cases hbody
  obtain ⟨lengths, -, hbody⟩ := Exec.bind_eq_done.mp hbody
  cases lengths with
  | error e => cases hbody
  | ok n =>
    dsimp only at hbody
    obtain ⟨r, hr, hbody⟩ := Exec.bind_eq_done.mp hbody
    cases r with
    | error e => cases hbody
    | ok out =>
      obtain ⟨buf, rfl, -, -, htake⟩ := hwrites _ 0 out (Nat.zero_le _) hr
      cases hbody
      rw [Option.getD_some, htake, List.take_zero, List.nil_append]
      exact (reads_bodyText h hspelled max).parse

/-- A query with quotation marks and one parameter. -/
def markerStmt : JsonStmt where
  dbc := ⟨cstr "100", true, false, false, [], cstr "KEYWORD", cstr "8.0.0"⟩
  curs := .json []
  u8sql := cstr "SELECT \"a\" FROM t WHERE b = ?"
  params := [⟨true, cstr "INTEGER", .ok 1⟩]

/-- A converter that writes a digit. -/
def fiveWritten (_ : ℕ) : WrittenValue := ⟨cstr "5", true, none⟩

/-- The body for the query. -/
def markerBody : CStr :=
  cstr ("\x7b\"query\": \"SELECT \\\"a\\\" FROM t WHERE b = ?\", " ++
    "\"params\": [\x7b\"type\": \"INTEGER\", \"value\": 5\x7d], \"fetch_size\": 100, " ++
    "\"field_multi_value_leniency\": true, \"index_include_frozen\": false, " ++
    "\"time_zone\": \"Z\", \"version\": \"8.0.0\", \"mode\": \"ODBC\", " ++
    "\"client_id\": \"odbc64\", \"binary_format\": false\x7d")

theorem unescaped_markerStmt (tzParam : CStr) : markerStmt.Unescaped tzParam (cstr "Z") := by
  refine ⟨?_, ?_, ?_, ?_, ?_, rfl, ?_⟩
  · intro w hw u hu
    cases hw
    cases hu
  · exact List.forall_mem_nil _
  · exact fun _ ↦ by decide +kernel
  · exact List.forall_mem_nil _
  · decide +kernel
  · decide +kernel

theorem json_document_marker : Json.parse markerBody = some (.object ((markerStmt.fields 100
    (fun _ ↦ .number (cstr "5")) (cstr "Z") false).map jsonMember)) := by
  have hbody : markerStmt.serializeStatement fiveWritten
      (TzCache.init.updateTzParam TzCache.newYear).2 TzCache.newYear (fun _ ↦ 0)
      (List.replicate 300 0) = .done (.ok (274, markerBody)) := by decide +kernel
  refine json_document hbody (unescaped_markerStmt _) ?_ 100
  intro j p hp
  cases j with
  | zero =>
    cases hp
    exact ⟨by decide +kernel, rfl, by decide +kernel⟩
  | succ j => cases hp

end JsonStmt

end EsOdbc
