import EsOdbc.Connect.ErrorAnswer
import EsOdbc.Connect.Requests
import EsOdbc.Memory

/-!
# What becomes of the body of an answer

`dbc_curl_perform`, `content_type_supported`, `curl_post` and `check_server_version`
(`connect.c`), over whatever libcurl comes back with.  The response code, the content type and
the format of the body are variables that some paths leave unset: reading one that is has no
defined behaviour.
-/

namespace EsOdbc

open Cbor (Item)

/-- `HTTP_APP_JSON`. -/
def httpAppJson : CStr := cstr "application/json"

/-- `HTTP_APP_CBOR`. -/
def httpAppCbor : CStr := cstr "application/cbor"

/-- A failure of libcurl: its code, and the message that `dbc_curl_post_diag` makes of it. -/
structure CurlError where
  code : ℤ
  message : WStr
deriving DecidableEq, Repr

/-- `dbc_curl_post_diag`. -/
def CurlError.posted (e : CurlError) (state : EsodbcState) : PostedDiag :=
  ⟨state, some e.message, e.code⟩

theorem CurlError.posted_state (e : CurlError) {state : EsodbcState} (h : state ≠ .s00000) :
    (e.posted state).state ≠ .s00000 := h

/-- A transfer: how libcurl ends it, what it knows of the answer, and the bytes that the callback
has gathered until then. -/
structure Transfer where
  failure : Option CurlError
  responseCode : Except CurlError ℤ
  contentType : Except CurlError (Option CStr)
  body : CStr

/-- What `dbc_curl_perform` leaves behind; the two variables are none as long as they are
unset. -/
structure Performed where
  failure : Option CurlError
  code : Option ℤ
  contType : Option (Option CStr)

/-- `dbc_curl_perform`; the buffer goes to the caller whether it fails or not. -/
def dbcCurlPerform (x : Transfer) : Performed :=
  match x.failure with
  | some e => ⟨some e, none, none⟩
  | none =>
    match x.responseCode with
    | .error e => ⟨some e, none, none⟩
    | .ok code =>
      -- without a body, the type is not asked for
      if x.body.isEmpty then ⟨none, some code, none⟩
      else
        match x.contentType with
        | .error e => ⟨some e, some code, none⟩
        | .ok contType => ⟨none, some code, some contType⟩

/-- A content type starts with a name, in any case. -/
def startsWithCase (name value : CStr) : Bool := caseEq (value.take name.length) name

/-- `content_type_supported`: whether the body is JSON, none for a type of another kind. -/
def contentTypeSupported (packJson : Bool) : Option CStr → Option Bool
  | none => some packJson
  | some value =>
    if startsWithCase httpAppJson value then some true
    else if startsWithCase httpAppCbor value then some false
    else none

/-! ## The readers of a body -/

/-- What a version in a body comes to. -/
inductive ServerVersion where
  /-- There is none in the body. -/
  | missing
  /-- There is no memory for a copy. -/
  | noMemory
  /-- It is no version number. -/
  | invalid
  | below (message : WStr)
  | meets
deriving DecidableEq, Repr

/-- What the bytes of a body are read with: tinycbor, `UJDecode`, the conversion of a double to an
`int`, and the memory for a text; `version` is what the reading of a server's version comes to, by
the format of the body. -/
structure Readers (V : Type) where
  cbor : TinycborOps V
  decode : CStr → Option UJValue
  doubleToInt : UInt64 → ℤ
  oom : Bool
  version : Bool → CStr → ServerVersion

namespace UJValue

/-- `N` of a format. -/
def isNumber : UJValue → Bool
  | .longLong _ | .double _ => true
  | _ => false

/-- `a` of a format. -/
def isArrayOrNull : UJValue → Bool
  | .array _ | .null => true
  | _ => false

/-- `UJNumericInt`. -/
def numericInt (doubleToInt : UInt64 → ℤ) : UJValue → ℤ
  | .longLong i => i.bmod (2 ^ 32)
  | .unsignedLongLong n => (n.toNat : ℤ).bmod (2 ^ 32)
  | .double bits => doubleToInt bits
  | _ => 0

end UJValue

namespace Readers

variable {V : Type} (r : Readers V)

/-- The type and the reason of an error: those of its first root cause, if it has one. -/
def errorTexts (error : UJValue) : Option (WStr × WStr) :=
  (error.unpack (wstr packParamErrRcause) UJValue.isArrayOrNull).bind fun rcause ↦
  (error.unpack (wstr packParamErrType) UJValue.isString).bind fun typ ↦
  (error.unpack (wstr packParamErrReason) UJValue.isString).bind fun reason ↦
    match rcause.beginArray with
    | [] => some (typ.readString, reason.readString)
    | first :: _ =>
      (first.unpack (wstr packParamErrType) UJValue.isString).bind fun typ ↦
      (first.unpack (wstr packParamErrReason) UJValue.isString).map fun reason ↦
        (typ.readString, reason.readString)

/-- The message of an error: a string is its own. -/
def errorMessageJson : UJValue → Option WStr
  | .string s => some s
  | .object members => (errorTexts (.object members)).map fun (typ, reason) ↦
      ((typ.takeWhile (· ≠ 0) ++ wstr ": " ++ reason.takeWhile (· ≠ 0)).take
        (sqlMaxMessageLength - 1))
  | _ => none

/-- `attach_error_json`: what it posts, none for `FALSE`. -/
def attachErrorJson (body : CStr) : Option (WStr × ℤ) :=
  (r.decode body).bind fun obj ↦
  (obj.unpack (wstr packParamError) fun _ ↦ true).bind fun error ↦
  (obj.unpack (wstr packParamStatus) UJValue.isNumber).bind fun status ↦
  (errorMessageJson error).map fun msg ↦ (msg, status.numericInt r.doubleToInt)

/-- `attach_error`: the diagnostic on the handle. -/
def attachError (isJson : Bool) (body : CStr) (code : ℤ) : Exec PostedDiag :=
  if isJson then
    .done <|
      if body.isEmpty then ⟨.s08S01, none, code⟩
      else match r.attachErrorJson body with
        | some (msg, status) => ⟨.sHY000, some msg, status⟩
        | none => ⟨.s08S01, bodyText body r.oom, code⟩
  else EsOdbc.attachError r.cbor body r.oom code

end Readers

/-! ## The two callers -/

/-- How a request ends: its body goes to the code that takes it, in a format, or the caller
returns. -/
inductive HttpEnd where
  | handedOver (kind : PostKind) (isJson : Bool)
  | returned (ret : SqlReturn) (diag : Option PostedDiag) (frees : ℕ)
deriving DecidableEq, Repr

/-- What a request is made for; a POST has a body of its own, which can fail to be added to the
handle. -/
inductive HttpCaller where
  | post (kind : PostKind) (addPostBody : Option CurlError)
  | version
deriving DecidableEq, Repr

/-- A request and all that decides how it ends; `prepare` is the failure to set up the handle or
its URL. -/
structure HttpCall (V : Type) where
  caller : HttpCaller
  packJson : Bool
  prepare : Option CurlError
  transfer : Transfer
  readers : Readers V

namespace HttpCall

variable {V : Type} (c : HttpCall V)

/-- The buffer is freed where there is one. -/
def freeBody : ℕ := if c.transfer.body.isEmpty then 0 else 1

/-- `curl_post` from its label `err` on; `dbcDiag` is the diagnostic of the connection. -/
def postErr (ret : SqlReturn) (code : ℤ) (isJson : Option Bool) (dbcDiag : Option PostedDiag) :
    Exec HttpEnd :=
  if 0 < code then
    (Exec.ofOption isJson).bind fun isJson ↦
    (c.readers.attachError isJson c.transfer.body code).bind fun diag ↦
      .done (.returned .error (some diag) c.freeBody)
  else .done (.returned ret dbcDiag c.freeBody)

/-- `curl_post` behind a transfer that succeeded. -/
def postAnswered (kind : PostKind) (code : ℤ) (contType : Option (Option CStr)) : Exec HttpEnd :=
  (Exec.ofOption contType).bind fun contType ↦
    match contentTypeSupported c.packJson contType with
    | none =>
      c.postErr .error (-1) none
        (some ⟨.s08S01, some (wstr "Unsupported content type received"), 0⟩)
    | some isJson =>
      if code = 200 then
        if c.transfer.body.isEmpty then
          c.postErr .error code (some isJson)
            (some ⟨.s08S01, some (wstr "Received 200 response code with empty body."), 0⟩)
        else .done (.handedOver kind isJson)
      else c.postErr .success code (some isJson) none

/-- `curl_post`. -/
def curlPost (kind : PostKind) (addPostBody : Option CurlError) : Exec HttpEnd :=
  match c.prepare with
  | some e => .done (.returned .error (some (e.posted .sHY000)) 0)
  | none =>
    match addPostBody with
    | some e => .done (.returned .error (some (e.posted .s08S01)) 0)
    | none =>
      let p := dbcCurlPerform c.transfer
      match p.failure with
      | some e => c.postErr .error (p.code.getD (-1)) none (some (e.posted .s08S01))
      | none => c.postAnswered kind (p.code.getD (-1)) p.contType

/-- `check_server_version` from its label `err` on, whose log tells the formats apart. -/
def checkErr (isJson : Option Bool) (dbcDiag : Option PostedDiag) : Exec HttpEnd :=
  let diag := dbcDiag.getD ⟨.s08S01, some (wstr "Failed to extract server's version"), 0⟩
  if c.transfer.body.isEmpty then .done (.returned .error (some diag) 0)
  else (Exec.ofOption isJson).bind fun _ ↦ .done (.returned .error (some diag) 1)

/-- `check_server_version` with a body to read. -/
def checkBody (code : ℤ) (isJson : Bool) : Exec HttpEnd :=
  if code ≠ 200 then
    (c.readers.attachError isJson c.transfer.body code).bind fun diag ↦
      c.checkErr (some isJson) (some diag)
  else
    match c.readers.version isJson c.transfer.body with
    | .missing | .invalid => c.checkErr (some isJson) none
    | .noMemory => c.checkErr (some isJson) (some ⟨.sHY001, none, 0⟩)
    | .below message => .done (.returned .error (some ⟨.sHY000, some message, 0⟩) 1)
    | .meets => .done (.returned .success none 1)

/-- `check_server_version`. -/
def checkServerVersion : Exec HttpEnd :=
  match c.prepare with
  | some e => .done (.returned .error (some (e.posted .sHY000)) 0)
  | none =>
    let p := dbcCurlPerform c.transfer
    match p.failure with
    | some e => .done (.returned .error (some (e.posted .sHY000)) 0)
    | none =>
      (Exec.ofOption p.contType).bind fun contType ↦
        match contentTypeSupported c.packJson contType with
        | none =>
          c.checkErr none (some ⟨.s08S01, some (wstr "Unsupported content type received"), 0⟩)
        | some isJson =>
          if c.transfer.body.isEmpty then c.checkErr (some isJson) none
          else (Exec.ofOption p.code).bind fun code ↦ c.checkBody code isJson

/-- A request from its start to its end. -/
def run : Exec HttpEnd :=
  match c.caller with
  | .post kind addPostBody => c.curlPost kind addPostBody
  | .version => c.checkServerVersion

/-! ## Requests that end well -/

/-- It comes to a transfer. -/
def sent : Bool :=
  c.prepare.isNone &&
    match c.caller with
    | .post _ addPostBody => addPostBody.isNone
    | .version => true

/-- The buffers that a request brings. -/
def bodies : ℕ := if c.sent then c.freeBody else 0

/-- The body goes, in the format that its type says, to the code that owns it from there on, or it
is released and there is a diagnostic, unless it is of a server that is new enough. -/
def Settled : HttpEnd → Prop
  | .handedOver kind isJson =>
    (∃ addPostBody, c.caller = .post kind addPostBody) ∧ c.bodies = 1 ∧
      ∃ contType, c.transfer.contentType = .ok contType ∧
        contentTypeSupported c.packJson contType = some isJson
  | .returned ret diag frees =>
    frees = c.bodies ∧
      (ret = .error ∧ (∃ d, diag = some d ∧ d.state ≠ .s00000) ∨
        ret = .success ∧ c.caller = .version ∧ c.bodies = 1)

end HttpCall

/-- What libcurl makes of a transfer. -/
inductive Fate where
  /-- It ends without a response code. -/
  | lost (e : CurlError)
  | bodiless (code : ℤ)
  /-- There is a body, and no way to its content type. -/
  | untyped (e : CurlError) (code : ℤ)
  | typed (code : ℤ) (contType : Option CStr)

def Transfer.fate (x : Transfer) : Fate :=
  match x.failure with
  | some e => .lost e
  | none =>
    match x.responseCode with
    | .error e => .lost e
    | .ok code =>
      if x.body.isEmpty then .bodiless code
      else
        match x.contentType with
        | .error e => .untyped e code
        | .ok contType => .typed code contType

namespace HttpCall

variable {V : Type} (c : HttpCall V)

/-- The containers of an error in CBOR are ones that `attach_error_cbor` can enter. -/
def ErrorReadable (isJson : Bool) : Prop :=
  isJson = false → ∀ err status, c.readers.cbor.Answers c.transfer.body err status →
    c.readers.cbor.StatusRead status → c.readers.cbor.ErrorReadable err

/-- A transfer that `curl_post` can end. -/
def PostEnds : Fate → Prop
  | .lost _ => True
  | .bodiless _ => False
  | .untyped _ code => code ≤ 0
  | .typed code contType =>
    ∀ isJson, contentTypeSupported c.packJson contType = some isJson → code ≠ 200 →
      0 < code ∧ c.ErrorReadable isJson

/-- A transfer that `check_server_version` can end. -/
def VersionEnds : Fate → Prop
  | .lost _ => c.transfer.body = []
  | .bodiless _ => False
  | .untyped _ _ => False
  | .typed code contType =>
    ∃ isJson, contentTypeSupported c.packJson contType = some isJson ∧
      (code ≠ 200 → c.ErrorReadable isJson)

/-- A request that can be ended. -/
def Ends : Prop :=
  c.sent = true →
    match c.caller with
    | .post _ _ => c.PostEnds c.transfer.fate
    | .version => c.VersionEnds c.transfer.fate

end HttpCall

/-! ## A transfer -/

/-- What `dbc_curl_perform` makes of a fate. -/
def Fate.performed : Fate → Performed
  | .lost e => ⟨some e, none, none⟩
  | .bodiless code => ⟨none, some code, none⟩
  | .untyped e code => ⟨some e, some code, none⟩
  | .typed code contType => ⟨none, some code, some contType⟩

theorem dbcCurlPerform_eq (x : Transfer) : dbcCurlPerform x = x.fate.performed := by
  unfold dbcCurlPerform Transfer.fate
  cases x.failure with
  | some e => rfl
  | none =>
    cases x.responseCode with
    | error e => rfl
    | ok code =>
      dsimp only
      split_ifs with hbody
      · rfl
      · cases x.contentType <;> rfl

/-- Of what has a type or should have one, there is a body. -/
theorem Transfer.fate_body {x : Transfer} (h : ∀ e, x.fate ≠ .lost e) (h' : ∀ code, x.fate ≠ .bodiless code) :
    x.body.isEmpty = false := by
  unfold Transfer.fate at h h'
  cases hfail : x.failure with
  | some e => exact absurd (by rw [hfail]) (h e)
  | none =>
    rw [hfail] at h h'
    cases hcode : x.responseCode with
    | error e => exact absurd (by rw [hcode]) (h e)
    | ok code =>
      rw [hcode] at h'
      by_contra hbody
      exact h' code (if_pos (Bool.eq_true_of_not_eq_false hbody))

theorem Transfer.fate_typed {x : Transfer} {code : ℤ} {contType : Option CStr}
    (h : x.fate = .typed code contType) : x.contentType = .ok contType := by
  unfold Transfer.fate at h
  cases hfail : x.failure with
  | some e =>
    rw [hfail] at h
    cases h
  | none =>
    rw [hfail] at h
    cases hcode : x.responseCode with
    | error e =>
      rw [hcode] at h
      cases h
    | ok code =>
      rw [hcode] at h
      dsimp only at h
      split_ifs at h
      cases htype : x.contentType with
      | error e =>
        rw [htype] at h
        cases h
      | ok t =>
        rw [htype] at h
        cases h
        rfl

/-! ## `attach_error` -/

theorem Readers.attachError_state {V : Type} {r : Readers V} {isJson : Bool} {body : CStr} {code : ℤ}
    {d : PostedDiag} (h : r.attachError isJson body code = .done d) : d.state ≠ .s00000 := by
  unfold Readers.attachError at h
  cases isJson with
  | true =>
    obtain rfl := Exec.done.inj h
    split_ifs
    · intro hd
      cases hd
    · cases r.attachErrorJson body <;> exact nofun
  | false =>
    rw [if_neg (by decide)] at h
    unfold EsOdbc.attachError at h
    split_ifs at h
    · obtain rfl := Exec.done.inj h
      intro hd
      cases hd
    · obtain ⟨posted, -, h⟩ := Exec.bind_eq_done.mp h
      cases posted <;> obtain rfl := Exec.done.inj h <;> exact nofun

namespace HttpCall

variable {V : Type} {c : HttpCall V}

theorem attachError_iff (isJson : Bool) (code : ℤ) :
    (∃ d, c.readers.attachError isJson c.transfer.body code = .done d) ↔ c.ErrorReadable isJson := by
  cases isJson with
  | true => exact iff_of_true ⟨_, rfl⟩ fun h ↦ absurd h (by decide)
  | false =>
    rw [ErrorReadable, Readers.attachError, if_neg (by decide),
      attachError_done c.readers.cbor c.transfer.body c.readers.oom code]
    exact ⟨fun h _ ↦ h, fun h ↦ h rfl⟩

/-! ## The ends -/

theorem bodies_eq (h : c.sent = true) : c.bodies = c.freeBody := if_pos h

/-- A return with an error and its diagnostic. -/
theorem settled_error {d : PostedDiag} {frees : ℕ} (hd : d.state ≠ .s00000) :
    c.Settled (.returned .error (some d) frees) ↔ frees = c.bodies := by
  constructor
  · rintro ⟨h, -⟩
    exact h
  · intro h
    exact ⟨h, .inl ⟨rfl, d, rfl, hd⟩⟩

/-- The label `err` of `curl_post` with an answer to take the error from. -/
theorem postErr_pos (hsent : c.sent = true) {code : ℤ} (hcode : 0 < code) (ret : SqlReturn)
    (isJson : Bool) (dbcDiag : Option PostedDiag) :
    (∃ o, c.postErr ret code (some isJson) dbcDiag = .done o ∧ c.Settled o) ↔
      c.ErrorReadable isJson := by
  rw [← attachError_iff isJson code, postErr, if_pos hcode, Exec.ofOption_some, Exec.bind_done]
  constructor
  · rintro ⟨o, h, -⟩
    obtain ⟨d, hd, -⟩ := Exec.bind_eq_done.mp h
    exact ⟨d, hd⟩
  · rintro ⟨d, hd⟩
    rw [hd, Exec.bind_done]
    exact ⟨_, rfl, (settled_error (Readers.attachError_state hd)).mpr (bodies_eq hsent).symm⟩

/-- The label `err` of `curl_post` with an error of its own. -/
theorem postErr_error (hsent : c.sent = true) {code : ℤ} (hcode : code ≤ 0) (isJson : Option Bool)
    {d : PostedDiag} (hd : d.state ≠ .s00000) :
    ∃ o, c.postErr .error code isJson (some d) = .done o ∧ c.Settled o := by
  rw [postErr, if_neg (not_lt.mpr hcode)]
  exact ⟨_, rfl, (settled_error hd).mpr (bodies_eq hsent).symm⟩

/-- The label `err` of `check_server_version`, where the format is known or not looked at. -/
theorem checkErr_settled (hsent : c.sent = true) (isJson : Bool) {dbcDiag : Option PostedDiag}
    (hd : ∀ d, dbcDiag = some d → d.state ≠ .s00000) :
    ∃ o, c.checkErr (some isJson) dbcDiag = .done o ∧ c.Settled o := by
  have hstate : (dbcDiag.getD ⟨.s08S01, some (wstr "Failed to extract server's version"), 0⟩).state ≠
      .s00000 := by
    cases dbcDiag with
    | none => exact nofun
    | some d => exact hd d rfl
  have hfree := bodies_eq hsent
  rw [freeBody] at hfree
  unfold checkErr
  dsimp only
  split_ifs at hfree ⊢
  · exact ⟨_, rfl, (settled_error hstate).mpr hfree.symm⟩
  · exact ⟨_, rfl, (settled_error hstate).mpr hfree.symm⟩

/-- `check_server_version` with a body. -/
theorem checkBody_iff (hcaller : c.caller = .version) (hsent : c.sent = true)
    (hbody : c.transfer.body.isEmpty = false) (code : ℤ) (isJson : Bool) :
    (∃ o, c.checkBody code isJson = .done o ∧ c.Settled o) ↔
      (code ≠ 200 → c.ErrorReadable isJson) := by
  have hone : c.bodies = 1 := by rw [bodies_eq hsent, freeBody, hbody, if_neg (by decide)]
  unfold checkBody
  by_cases hcode : code ≠ 200
  · rw [if_pos hcode]
    refine Iff.trans ?_ (Iff.symm (forall_prop_of_true hcode))
    rw [← attachError_iff isJson code]
    constructor
    · rintro ⟨o, h, -⟩
      obtain ⟨d, hd, -⟩ := Exec.bind_eq_done.mp h
      exact ⟨d, hd⟩
    · rintro ⟨d, hd⟩
      rw [hd, Exec.bind_done]
      refine checkErr_settled hsent isJson ?_
      rintro _ ⟨⟩
      exact Readers.attachError_state hd
  · rw [if_neg hcode]
    refine iff_of_true ?_ fun h ↦ absurd h hcode
    cases c.readers.version isJson c.transfer.body with
    | missing => exact checkErr_settled hsent isJson nofun
    | invalid => exact checkErr_settled hsent isJson nofun
    | noMemory =>
      refine checkErr_settled hsent isJson ?_
      rintro _ ⟨⟩
      exact nofun
    | below message =>
      refine ⟨_, rfl, (settled_error ?_).mpr hone.symm⟩
      exact nofun
    | meets => exact ⟨_, rfl, hone.symm, .inr ⟨rfl, hcaller, hone⟩⟩

/-- `curl_post` from its transfer on. -/
theorem curlPost_iff {kind : PostKind} (hcaller : c.caller = .post kind none) (hprep : c.prepare = none) :
    (∃ o, c.curlPost kind none = .done o ∧ c.Settled o) ↔ c.PostEnds c.transfer.fate := by
  have hsent : c.sent = true := by
    rw [sent, hprep, hcaller]
    rfl
  unfold curlPost
  rw [hprep]
  dsimp only
  rw [dbcCurlPerform_eq]
  cases hfate : c.transfer.fate with
  | lost e =>
    have hunset : (-1 : ℤ) ≤ 0 := by decide
    exact iff_of_true (postErr_error hsent hunset none (e.posted_state (by decide))) trivial
  | bodiless code =>
    -- the type that is looked at was not asked for
    refine iff_of_false ?_ id
    rintro ⟨o, h, -⟩
    cases h
  | untyped e code =>
    show (∃ o, c.postErr .error code none (some (e.posted .s08S01)) = .done o ∧ c.Settled o) ↔ code ≤ 0
    by_cases hcode : code ≤ 0
    · exact iff_of_true (postErr_error hsent hcode none (e.posted_state (by decide))) hcode
    · refine iff_of_false ?_ hcode
      rintro ⟨o, h, -⟩
      rw [postErr, if_pos (not_le.mp hcode)] at h
      cases h
  | typed code contType =>
    have hbody : c.transfer.body.isEmpty = false :=
      Transfer.fate_body (by rw [hfate]; nofun) (by rw [hfate]; nofun)
    have htype := Transfer.fate_typed hfate
    show (∃ o, c.postAnswered kind code (some contType) = .done o ∧ c.Settled o) ↔ _
    rw [postAnswered, Exec.ofOption_some, Exec.bind_done]
    dsimp only [PostEnds]
    cases hsupp : contentTypeSupported c.packJson contType with
    | none => exact iff_of_true (postErr_error hsent (by decide) none nofun) nofun
    | some isJson =>
      have hends : (∀ j, some isJson = some j → code ≠ 200 → 0 < code ∧ c.ErrorReadable j) ↔
          (code ≠ 200 → 0 < code ∧ c.ErrorReadable isJson) :=
        ⟨fun h ↦ h isJson rfl, fun h j hj ↦ Option.some.inj hj ▸ h⟩
      rw [hends]
      dsimp only
      by_cases hok : code = 200
      · rw [if_pos hok, hbody, if_neg (by decide)]
        refine iff_of_true ⟨_, rfl, ⟨none, hcaller⟩, ?_, contType, htype, hsupp⟩ fun h ↦ absurd hok h
        rw [bodies_eq hsent, freeBody, hbody, if_neg (by decide)]
      · rw [if_neg hok]
        refine Iff.trans ?_ (Iff.symm (forall_prop_of_true hok))
        by_cases hcode : 0 < code
        · rw [postErr_pos hsent hcode]
          exact ⟨fun h ↦ ⟨hcode, h⟩, fun h ↦ h.2⟩
        · refine iff_of_false ?_ fun h ↦ hcode h.1
          -- a success without anything taken
          rintro ⟨o, h, hset⟩
          rw [postErr, if_neg hcode] at h
          obtain rfl := Exec.done.inj h
          rcases hset.2 with ⟨hret, -⟩ | ⟨-, hversion, -⟩
          · cases hret
          · rw [hcaller] at hversion
            cases hversion

/-- `check_server_version` from its transfer on. -/
theorem checkServerVersion_iff (hcaller : c.caller = .version) (hprep : c.prepare = none) :
    (∃ o, c.checkServerVersion = .done o ∧ c.Settled o) ↔ c.VersionEnds c.transfer.fate := by
  have hsent : c.sent = true := by
    rw [sent, hprep, hcaller]
    rfl
  unfold checkServerVersion
  rw [hprep]
  dsimp only
  rw [dbcCurlPerform_eq]
  cases hfate : c.transfer.fate with
  | lost e =>
    show (∃ o, Exec.done (HttpEnd.returned .error (some (e.posted .sHY000)) 0) = .done o ∧
      c.Settled o) ↔ c.transfer.body = []
    have hset : c.Settled (.returned .error (some (e.posted .sHY000)) 0) ↔ c.transfer.body = [] := by
      rw [settled_error (e.posted_state (by decide)), bodies_eq hsent, freeBody, ← List.isEmpty_iff]
      split_ifs with hbody
      · exact iff_of_true rfl hbody
      · exact iff_of_false nofun hbody
    rw [← hset]
    constructor
    · rintro ⟨o, h, ho⟩
      exact Exec.done.inj h ▸ ho
    · intro h
      exact ⟨_, rfl, h⟩
  | bodiless code =>
    refine iff_of_false ?_ id
    rintro ⟨o, h, -⟩
    cases h
  | untyped e code =>
    -- the body is not released
    have hbody : c.transfer.body.isEmpty = false :=
      Transfer.fate_body (by rw [hfate]; nofun) (by rw [hfate]; nofun)
    refine iff_of_false ?_ id
    rintro ⟨o, h, ho⟩
    obtain rfl := Exec.done.inj h
    have hfrees := ho.1
    rw [bodies_eq hsent, freeBody, hbody, if_neg (by decide)] at hfrees
    cases hfrees
  | typed code contType =>
    have hbody : c.transfer.body.isEmpty = false :=
      Transfer.fate_body (by rw [hfate]; nofun) (by rw [hfate]; nofun)
    show (∃ o, ((Exec.ofOption (some contType)).bind _ : Exec HttpEnd) = .done o ∧ c.Settled o) ↔ _
    rw [Exec.ofOption_some, Exec.bind_done]
    dsimp only [VersionEnds]
    cases hsupp : contentTypeSupported c.packJson contType with
    | none =>
      refine iff_of_false ?_ ?_
      · rintro ⟨o, h, -⟩
        dsimp only at h
        rw [checkErr, hbody] at h
        cases h
      · rintro ⟨isJson, h, -⟩
        cases h
    | some isJson =>
      dsimp only
      rw [hbody, if_neg (by decide)]
      show (∃ o, c.checkBody code isJson = .done o ∧ c.Settled o) ↔ _
      rw [checkBody_iff hcaller hsent hbody]
      constructor
      · intro h
        exact ⟨isJson, rfl, h⟩
      · rintro ⟨j, hj, h⟩
        exact Option.some.inj hj ▸ h

/-- A request that does not get to its transfer. -/
theorem run_unsent (h : c.sent = false) : ∃ o, c.run = .done o ∧ c.Settled o := by
  have hnone : 0 = c.bodies := by rw [bodies, h, if_neg (by decide)]
  unfold run
  cases hprep : c.prepare with
  | some e =>
    cases c.caller with
    | post kind addPostBody =>
      dsimp only
      unfold curlPost
      rw [hprep]
      exact ⟨_, rfl, (settled_error (e.posted_state (by decide))).mpr hnone⟩
    | version =>
      dsimp only
      unfold checkServerVersion
      rw [hprep]
      exact ⟨_, rfl, (settled_error (e.posted_state (by decide))).mpr hnone⟩
  | none =>
    rw [sent, hprep] at h
    cases hcaller : c.caller with
    | post kind addPostBody =>
      cases addPostBody with
      | some e =>
        dsimp only
        unfold curlPost
        rw [hprep]
        exact ⟨_, rfl, (settled_error (e.posted_state (by decide))).mpr hnone⟩
      | none =>
        rw [hcaller] at h
        cases h
    | version =>
      rw [hcaller] at h
      cases h

/-- A request hands its body over, or releases it with an error, exactly if it can be ended. -/
theorem settled_iff (c : HttpCall V) : (∃ o, c.run = .done o ∧ c.Settled o) ↔ c.Ends := by
  unfold Ends
  cases hsent : c.sent with
  | false => exact iff_of_true (run_unsent hsent) nofun
  | true =>
    have hprep : c.prepare = none := by
      rw [sent, Bool.and_eq_true] at hsent
      exact Option.isNone_iff_eq_none.mp hsent.1
    refine Iff.trans ?_ (Iff.symm (forall_prop_of_true rfl))
    unfold run
    cases hcaller : c.caller with
    | post kind addPostBody =>
      have hadd : addPostBody = none := by
        rw [sent, hprep, hcaller] at hsent
        exact Option.isNone_iff_eq_none.mp hsent
      subst hadd
      exact curlPost_iff hcaller hprep
    | version => exact checkServerVersion_iff hcaller hprep

end HttpCall

/-- A query that is answered with a code of no rights and no body. -/
def unauthorized : HttpCall (List Item) where
  caller := .post .query none
  packJson := true
  prepare := none
  transfer := ⟨none, .ok 401, .ok none, []⟩
  readers := ⟨itemOps fun _ ↦ none, fun _ ↦ none, fun _ ↦ 0, false, fun _ _ ↦ .missing⟩

theorem not_settled_unauthorized :
    ¬∃ o, unauthorized.run = .done o ∧ unauthorized.Settled o := by
  rintro ⟨o, h, -⟩
  cases h

end EsOdbc
