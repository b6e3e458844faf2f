import EsOdbc.Diag.Record
import EsOdbc.Memory
import EsOdbc.Numbers

/-!
# Cloud IDs

`decode_cloud_id` and the URL that `config_dbc` prints (`connect.c`).  Decoding Base64 is libcurl's:
what is decoded is never empty and no longer than its encoding.
-/

namespace EsOdbc

/-! ## The parts of a Cloud ID -/

/-- `Curl_base64_decode`. -/
structure Base64 where
  decode : CStr → Option CStr
  ne_nil : ∀ {src dec}, decode src = some dec → dec ≠ []
  length_le : ∀ {src dec}, decode src = some dec → dec.length ≤ src.length

/-- The attributes that a Cloud ID is about. -/
structure CloudAttrs where
  cloudId : WStr
  server : WStr
  port : WStr
  secure : WStr
  cloudId_pos : 0 < cloudId.length
  cloudId_le : cloudId.length ≤ esodbcDsnMaxAttrLen

/-- The local buffers, with whatever is in them. -/
structure CloudLocals where
  buff : CStr
  wbuff : WStr
  buff_length : buff.length = esodbcDsnMaxAttrLen + 1
  wbuff_length : wbuff.length = esodbcDsnMaxAttrLen + 1

def dollar : UInt8 := 0x24
def dot : UInt8 := 0x2E
def semicolon : UInt8 := 0x3A
def leftBracket : UInt8 := 0x5B
def rightBracket : UInt8 := 0x5D

/-- The place behind the last `:` of a Cloud ID, among so many units; without one its start. -/
def lastDelimiter (cloudId : WStr) : ℕ → ℕ
  | 0 => 0
  | pos + 1 => if cloudId[pos]? = some semicolon.toUInt16 then pos + 1 else lastDelimiter cloudId pos

/-- What `ascii_w2c` makes of a string of some units: it ends before a NUL, and fails at a unit out
of ASCII. -/
def asciiBytes (src : WStr) : Option CStr :=
  let head := src.takeWhile fun u ↦ u ≠ 0 ∧ u ≤ 127
  if src = [] then none
  else if src[head.length]?.getD 0 = 0 then some (head.map UInt16.toUInt8) else none

/-- The loop for the first and the second `$`, from one place on, with the places found before. -/
def findDollars : ℕ → CStr → ℕ → ℕ → Option (ℕ × ℕ)
  | _, [], dolr1, dolr2 => some (dolr1, dolr2)
  | pos, c :: dec, dolr1, dolr2 =>
    if c = dollar then
      if pos ≤ 0 then none
      else if dolr1 = 0 then findDollars (pos + 1) dec pos dolr2
      else if dolr2 = 0 then findDollars (pos + 1) dec dolr1 pos
      else some (dolr1, dolr2)
    else findDollars (pos + 1) dec dolr1 dolr2

/-- The loop for the last `:` outside of brackets, among so many bytes. -/
def findPort (dec : CStr) (dolr1 : ℕ) : ℕ → Option ℕ
  | 0 => some 0
  | pos + 1 =>
    if dec[pos]? = some rightBracket then some 0
    else if dec[pos]? = some semicolon then
      if pos = 0 ∨ pos = dolr1 - 1 then none else some pos
    else findPort dec dolr1 pos

/-- The places of both `$` and of the `:`; those that are missing are at the end of their part. -/
def delimiters (dec : CStr) : Option (ℕ × ℕ × ℕ) :=
  (findDollars 0 dec 0 0).bind fun dolrs ↦
    let dolr1 := if dolrs.1 = 0 then dec.length else dolrs.1
    let dolr2 := if dolrs.2 = 0 then dec.length else dolrs.2
    (findPort dec dolr1 dolr1).map fun semicol ↦
      (dolr1, dolr2, if semicol = 0 then dolr1 else semicol)

/-! ## The attributes -/

/-- Parts of the decoded ID, each from a place on, one after the other in a buffer. -/
def copyParts (dec : CStr) (out : CStr × ℕ) : List (ℕ × ℕ) → Exec (CStr × ℕ)
  | [] => .done out
  | (pos, n) :: parts =>
    (Exec.ofOption (Buffer.load dec pos n)).bind fun part ↦
      (put out part).bind fun out ↦ copyParts dec out parts

/-- `ascii_c2w` of so many characters, up to a NUL; a `SQLCHAR` is not negative.  The length that
is made of its failure is out of any buffer. -/
def asciiC2w (wbuff : WStr) (src : CStr) : Exec WStr :=
  let units := (src.takeWhile (· ≠ 0)).map UInt8.toUInt16
  if src = [] then .undefined
  else (Exec.ofOption (Buffer.store wbuff 0 (units ++ [0]))).bind fun _ ↦ .done units

/-- The text that is copied and widened. -/
def CloudLocals.widen (m : CloudLocals) (out : CStr × ℕ) : Exec WStr :=
  asciiC2w m.wbuff (out.1.take out.2)

/-- The value of the `server` attribute. -/
def serverText (m : CloudLocals) (dec : CStr) (dolr1 dolr2 semicol : ℕ) : Exec WStr :=
  (if dolr1 < dolr2 then
    (copyParts dec (m.buff, 0) [(dolr1 + 1, dolr2 - dolr1 - 1)]).bind fun out ↦ put out [dot]
  else .done (m.buff, 0)).bind fun out ↦
    (copyParts dec out [(0, semicol)]).bind m.widen

/-- `ESODBC_DEF_CLOUD_PORT`. -/
def esodbcDefCloudPort : String := "9243"

/-- `ESODBC_DEF_CLOUD_SECURE`. -/
def esodbcDefCloudSecure : String := "4"

/-- The value of the `port` attribute. -/
def portText (m : CloudLocals) (dec : CStr) (dolr1 semicol : ℕ) : Exec WStr :=
  (if semicol < dolr1 then copyParts dec (m.buff, 0) [(semicol + 1, dolr1 - semicol - 1)]
  else put (m.buff, 0) (cstr esodbcDefCloudPort ++ [0])).bind m.widen

/-- An attribute is set, unless it has another value already. -/
def assignOnce (attr value : WStr) : Option WStr :=
  if attr = [] then some value else if attr = value then some attr else none

def errFormat : String := "Invalid Cloud ID format"
def errCharacters : String := "Invalid characters in Cloud ID parameter"
def errParameter : String := "Invalid Cloud ID parameter"
def errMalformed : String := "Malformed Cloud ID parameter"
def errExists : String := "Invalid DSN configuration"

/-- The attributes that are assigned from the decoded ID. -/
def assignDecoded (m : CloudLocals) (attrs : CloudAttrs) (dec : CStr) :
    Exec (Except String CloudAttrs) :=
  match delimiters dec with
  | none => .done (.error errMalformed)
  | some (dolr1, dolr2, semicol) =>
    (serverText m dec dolr1 dolr2 semicol).bind fun server ↦
      match assignOnce attrs.server server with
      | none => .done (.error errExists)
      | some server =>
        (portText m dec dolr1 semicol).bind fun port ↦
          match assignOnce attrs.port port, assignOnce attrs.secure (wstr esodbcDefCloudSecure) with
          | some port, some secure => .done (.ok { attrs with server, port, secure })
          | _, _ => .done (.error errExists)

/-- `decode_cloud_id`, with the text of the diagnostic of a failure, whose state is `HY000`. -/
def decodeCloudId (b : Base64) (m : CloudLocals) (attrs : CloudAttrs) :
    Exec (Except String CloudAttrs) :=
  let semicol := lastDelimiter attrs.cloudId attrs.cloudId.length
  if attrs.cloudId.length ≤ semicol then .done (.error errFormat)
  else
    match asciiBytes (attrs.cloudId.drop semicol) with
    | none => .done (.error errCharacters)
    | some bytes =>
      (Exec.ofOption (Buffer.store m.buff 0 (bytes ++ [0]))).bind fun _ ↦
        if bytes = [] then .done (.error errCharacters)
        else
          match b.decode bytes with
          | none => .done (.error errParameter)
          | some dec => assignDecoded m attrs dec

/-! ## The URL -/

def errHttpUrl : String := "The Hostname can't be a HTTP(S) URL: remove the 'http(s)://' prefix " ++
  "(and port suffix, if present)."
def errSecureNumber : String := "security setting number conversion failure"
def errSecure : String := "invalid security setting"
def errPrinting : String := "printing server's URL failed"

/-- `ESODBC_MAX_URL_LEN`. -/
def esodbcMaxUrlLen : ℕ := 2048

/-- `ESODBC_SEC_MAX`: the settings are below it. -/
def esodbcSecMax : ℤ := 5

/-- Whether a server is given as a URL. -/
def isHttpUrl (server : WStr) : Bool :=
  eqCaseWstr (server.take 7) (wstr "http://") || eqCaseWstr (server.take 8) (wstr "https://")

/-- The root URL of a server: an address with `:` in it is put in brackets. -/
def rootUrl (secure : ℤ) (server port : WStr) : WStr :=
  let ipv6 := semicolon.toUInt16 ∈ server
  wstr "http" ++ (if secure ≠ 0 then wstr "s" else []) ++ wstr "://" ++
    (if ipv6 then [leftBracket.toUInt16] else []) ++ server ++
    (if ipv6 then [rightBracket.toUInt16] else []) ++ wstr ":" ++ port ++ wstr "/"

/-- The part of `config_dbc` that prints the root URL. -/
def configUrl (attrs : CloudAttrs) : Except String WStr :=
  if isHttpUrl attrs.server then .error errHttpUrl
  else
    match str2bigint attrs.secure true with
    | none => .error errSecureNumber
    | some (secure, _) =>
      if secure < 0 ∨ esodbcSecMax ≤ secure then .error errSecure
      else
        let url := rootUrl secure attrs.server attrs.port
        if esodbcMaxUrlLen ≤ url.length then .error errPrinting else .ok url

/-- `config_dbc` with a Cloud ID, as far as the URL. -/
def cloudUrl (b : Base64) (m : CloudLocals) (attrs : CloudAttrs) : Exec (Except String WStr) :=
  (decodeCloudId b m attrs).bind fun r ↦ .done (r.bind configUrl)

/-! ## The delimiters -/

section Delimiters

variable {dec p rest : CStr} {pos dolr1 dolr2 semicol n k len : ℕ}

/-- A part without `$`. -/
theorem findDollars_append (h : dollar ∉ p) (pos : ℕ) (rest : CStr) (dolr1 dolr2 : ℕ) :
    findDollars pos (p ++ rest) dolr1 dolr2 = findDollars (pos + p.length) rest dolr1 dolr2 := by
  induction p generalizing pos with
  | nil => rfl
  | cons c p ih =>
    have hc : c ≠ dollar := fun hc ↦ h (hc ▸ List.mem_cons_self)
    rw [List.cons_append, findDollars, if_neg hc, ih fun hp ↦ h (List.mem_cons_of_mem _ hp),
      List.length_cons, Nat.add_assoc, Nat.add_comm 1]

/-- Behind the first byte the loop does not fail, and a place that is found stays. -/
theorem findDollars_found (dec : CStr) (dolr2 : ℕ) (hpos : 0 < pos) (h₁ : 0 < dolr1) :
    ∃ d, findDollars pos dec dolr1 dolr2 = some (dolr1, d) ∧ (0 < dolr2 → d = dolr2) := by
  induction dec generalizing pos dolr2 with
  | nil => exact ⟨dolr2, rfl, fun _ ↦ rfl⟩
  | cons c dec ih =>
    rw [findDollars]
    split_ifs with hc hzero hone htwo
    · omega
    · omega
    · obtain ⟨d, hd, -⟩ := ih pos (Nat.succ_pos _)
      exact ⟨d, hd, fun h ↦ by omega⟩
    · exact ⟨dolr2, rfl, fun _ ↦ rfl⟩
    · exact ih _ (Nat.succ_pos _)

/-- The places that are found are inside, one behind the other. -/
theorem findDollars_bounds (hlen : pos + dec.length = len)
    (h : (dolr1 = 0 ∧ dolr2 = 0) ∨
      (0 < dolr1 ∧ dolr1 < pos ∧ (dolr2 = 0 ∨ (dolr1 < dolr2 ∧ dolr2 < pos))))
    {d₁ d₂ : ℕ} (hd : findDollars pos dec dolr1 dolr2 = some (d₁, d₂)) :
    (d₁ = 0 ∧ d₂ = 0) ∨ (0 < d₁ ∧ d₁ < len ∧ (d₂ = 0 ∨ (d₁ < d₂ ∧ d₂ < len))) := by
  induction dec generalizing pos dolr1 dolr2 with
  | nil =>
    cases hd
    rw [List.length_nil] at hlen
    omega
  | cons c dec ih =>
    rw [List.length_cons] at hlen
    rw [findDollars] at hd
    split_ifs at hd with hc hzero hone htwo
    · exact ih (by omega) (by omega) hd
    · exact ih (by omega) (by omega) hd
    · cases hd
      omega
    · exact ih (by omega) (by omega) hd

/-- Bytes that are neither `:` nor `]` are passed over. -/
theorem findPort_skip (hk : k ≤ n)
    (h : ∀ i, k ≤ i → i < n → dec[i]? ≠ some rightBracket ∧ dec[i]? ≠ some semicolon) :
    findPort dec dolr1 n = findPort dec dolr1 k := by
  induction n with
  | zero => rw [Nat.le_zero.mp hk]
  | succ n ih =>
    obtain rfl | hlt := hk.eq_or_lt
    · rfl
    · obtain ⟨hbracket, hcolon⟩ := h n (Nat.lt_succ_iff.mp hlt) (Nat.lt_succ_self n)
      rw [findPort, if_neg hbracket, if_neg hcolon]
      exact ih (Nat.lt_succ_iff.mp hlt) fun i hki hin ↦ h i hki (hin.trans (Nat.lt_succ_self n))

theorem findPort_bounds (h : findPort dec dolr1 n = some semicol) :
    semicol = 0 ∨ (0 < semicol ∧ semicol < n ∧ semicol ≠ dolr1 - 1) := by
  induction n with
  | zero =>
    cases h
    exact .inl rfl
  | succ n ih =>
    rw [findPort] at h
    split_ifs at h with hbracket hcolon hend
    · cases h
      exact .inl rfl
    · cases h
      omega
    · obtain hzero | ⟨hpos, hlt, hne⟩ := ih h
      · exact .inl hzero
      · exact .inr ⟨hpos, hlt.trans (Nat.lt_succ_self n), hne⟩

/-- The places of a decoded ID are inside, in their order, and the port is not empty. -/
theorem delimiters_bounds (hne : dec ≠ []) (h : delimiters dec = some (dolr1, dolr2, semicol)) :
    0 < semicol ∧ (semicol = dolr1 ∨ semicol + 1 < dolr1) ∧ dolr1 ≤ dolr2 ∧ dolr2 ≤ dec.length := by
  have hpos : 0 < dec.length := List.length_pos_iff.mpr hne
  rw [delimiters, Option.bind_eq_some_iff] at h
  obtain ⟨⟨d₁, d₂⟩, hd, h⟩ := h
  rw [Option.map_eq_some_iff] at h
  obtain ⟨s, hs, h⟩ := h
  have hbounds := findDollars_bounds (Nat.zero_add _) (.inl ⟨rfl, rfl⟩) hd
  have hport := findPort_bounds hs
  rw [Prod.mk.injEq, Prod.mk.injEq] at h
  obtain ⟨h₁, h₂, h₃⟩ := h
  dsimp only at h₁ h₂ h₃ hport
  split_ifs at h₁ h₂ h₃ hport <;> omega

end Delimiters

/-! ## The texts -/

section Texts

variable {m : CloudLocals} {dec pre : CStr} {out : CStr × ℕ}

/-- A part of the decoded ID copied to where there is room for it. -/
theorem copyParts_one (dec : CStr) (pos n : ℕ) (h : Written (esodbcDsnMaxAttrLen + 1) pre out) (hload : pos + n ≤ dec.length)
    (hroom : pre.length + n ≤ esodbcDsnMaxAttrLen + 1) : ∃ out', copyParts dec out [(pos, n)] =
      .done out' ∧ Written (esodbcDsnMaxAttrLen + 1) (pre ++ (dec.drop pos).take n) out' := by
  have hlen : ((dec.drop pos).take n).length = n := by
    rw [List.length_take, List.length_drop]
    omega
  obtain ⟨out', hput, hw⟩ := h.put ((dec.drop pos).take n) (by
    rw [List.length_append, hlen]
    exact hroom)
  refine ⟨out', ?_, hw⟩
  rw [copyParts, Buffer.load_eq_some hload, Exec.ofOption_some, Exec.bind_done, hput]
  rfl

theorem CloudLocals.written (m : CloudLocals) :
    Written (esodbcDsnMaxAttrLen + 1) [] (m.buff, 0) where
  length := m.buff_length
  start := List.nil_prefix
  pos := rfl

/-- What was copied is widened. -/
theorem CloudLocals.widen_eq (h : Written (esodbcDsnMaxAttrLen + 1) pre out) (hne : pre ≠ [])
    (hle : pre.length ≤ esodbcDsnMaxAttrLen) :
    m.widen out = .done ((pre.takeWhile (· ≠ 0)).map UInt8.toUInt16) := by
  have htake : out.1.take out.2 = pre := by
    rw [h.pos, ← List.prefix_iff_eq_take.mp h.start]
  have hlen := (List.takeWhile_prefix (l := pre) (fun c ↦ decide (c ≠ 0))).length_le
  obtain ⟨buf', hstore⟩ := Buffer.exists_store m.wbuff 0
    ((pre.takeWhile (· ≠ 0)).map UInt8.toUInt16 ++ [0]) (by
      rw [List.length_append, List.length_map, List.length_singleton, m.wbuff_length]
      omega)
  rw [widen, htake, asciiC2w, if_neg hne, hstore]
  rfl

variable {dolr1 dolr2 semicol : ℕ}

/-- The server is what is between both `$`, if they are two, joined to what is in front of them. -/
theorem serverText_eq (hs : 0 < semicol) (hsd : semicol ≤ dolr1) (hd : dolr1 ≤ dolr2)
    (hlen : dolr2 ≤ dec.length) (hle : dec.length ≤ esodbcDsnMaxAttrLen) :
    serverText m dec dolr1 dolr2 semicol = .done ((((if dolr1 < dolr2 then
      (dec.drop (dolr1 + 1)).take (dolr2 - dolr1 - 1) ++ [dot] else []) ++
        dec.take semicol).takeWhile (· ≠ 0)).map UInt8.toUInt16) := by
  have hfirst : ∃ out, (if dolr1 < dolr2 then
      (copyParts dec (m.buff, 0) [(dolr1 + 1, dolr2 - dolr1 - 1)]).bind fun out ↦ put out [dot]
      else .done (m.buff, 0)) = .done out ∧ Written (esodbcDsnMaxAttrLen + 1) (if dolr1 < dolr2 then
        (dec.drop (dolr1 + 1)).take (dolr2 - dolr1 - 1) ++ [dot] else []) out := by
    split_ifs with hlt
    · obtain ⟨out, hout, hw⟩ := copyParts_one dec (dolr1 + 1) (dolr2 - dolr1 - 1) m.written
        (by omega) (by rw [List.length_nil]; omega)
      rw [List.nil_append] at hw
      obtain ⟨out', hput, hw'⟩ := hw.put [dot] (by
        rw [List.length_append, List.length_take, List.length_singleton]
        omega)
      exact ⟨out', by rw [hout, Exec.bind_done, hput], hw'⟩
    · exact ⟨_, rfl, m.written⟩
  obtain ⟨out, hout, hw⟩ := hfirst
  have hprelen : (if dolr1 < dolr2 then
      (dec.drop (dolr1 + 1)).take (dolr2 - dolr1 - 1) ++ [dot] else []).length ≤ dolr2 - dolr1 := by
    split_ifs
    · rw [List.length_append, List.length_take, List.length_singleton]
      omega
    · exact Nat.zero_le _
  obtain ⟨out', hcopy, hw'⟩ := copyParts_one dec 0 semicol hw (by omega) (by omega)
  rw [List.drop_zero] at hw'
  rw [serverText, hout, Exec.bind_done, hcopy, Exec.bind_done]
  refine CloudLocals.widen_eq hw' ?_ ?_
  · intro hnil
    have htake := (List.append_eq_nil_iff.mp hnil).2
    have := congrArg List.length htake
    rw [List.length_take, List.length_nil] at this
    omega
  · rw [List.length_append, List.length_take]
    omega

/-- The port is what is between the `:` and the first `$`, or the default. -/
theorem portText_eq (hsd : semicol = dolr1 ∨ semicol + 1 < dolr1) (hlen : dolr1 ≤ dec.length)
    (hle : dec.length ≤ esodbcDsnMaxAttrLen) :
    portText m dec dolr1 semicol = .done (((if semicol < dolr1 then
      (dec.drop (semicol + 1)).take (dolr1 - semicol - 1)
        else cstr esodbcDefCloudPort).takeWhile (· ≠ 0)).map UInt8.toUInt16) := by
  rw [portText]
  by_cases hlt : semicol < dolr1
  · obtain ⟨out, hout, hw⟩ := copyParts_one dec (semicol + 1) (dolr1 - semicol - 1) m.written
      (by omega) (by rw [List.length_nil]; omega)
    rw [List.nil_append] at hw
    have hpart : ((dec.drop (semicol + 1)).take (dolr1 - semicol - 1)).length =
        dolr1 - semicol - 1 := by
      rw [List.length_take, List.length_drop]
      omega
    rw [if_pos hlt, if_pos hlt, hout, Exec.bind_done]
    refine CloudLocals.widen_eq hw ?_ (by omega)
    intro hnil
    rw [hnil, List.length_nil] at hpart
    omega
  · obtain ⟨out, hout, hw⟩ := m.written.put (cstr esodbcDefCloudPort ++ [0]) (by decide)
    rw [List.nil_append] at hw
    rw [if_neg hlt, if_neg hlt, hout, Exec.bind_done, CloudLocals.widen_eq hw (by decide) (by decide)]
    rfl

end Texts

/-! ## Decoding -/

section Decoding

variable {b : Base64} {m : CloudLocals} {attrs : CloudAttrs} {dec : CStr}

/-- Every write for the attributes is inside the buffers. -/
theorem assignDecoded_defined (hne : dec ≠ []) (hle : dec.length ≤ esodbcDsnMaxAttrLen) :
    ∃ r, assignDecoded m attrs dec = .done r := by
  rw [assignDecoded]
  cases hd : delimiters dec with
  | none => exact ⟨_, rfl⟩
  | some places =>
    obtain ⟨dolr1, dolr2, semicol⟩ := places
    obtain ⟨hs, hsd, hdd, hlen⟩ := delimiters_bounds hne hd
    dsimp only
    rw [serverText_eq hs (by omega) hdd hlen hle, Exec.bind_done]
    cases assignOnce attrs.server _ with
    | none => exact ⟨_, rfl⟩
    | some server =>
      dsimp only
      rw [portText_eq hsd (hdd.trans hlen) hle, Exec.bind_done]
      cases assignOnce attrs.port _ with
      | none => exact ⟨_, rfl⟩
      | some port =>
        cases assignOnce attrs.secure _ with
        | none => exact ⟨_, rfl⟩
        | some secure => exact ⟨_, rfl⟩

theorem asciiBytes_length_le {src : WStr} {bytes : CStr} (h : asciiBytes src = some bytes) :
    bytes.length ≤ src.length := by
  rw [asciiBytes] at h
  split_ifs at h
  cases h
  rw [List.length_map]
  exact (List.takeWhile_prefix _).length_le

/-- Every write of `decode_cloud_id` is inside the buffers. -/
theorem decodeCloudId_defined (b : Base64) (m : CloudLocals) (attrs : CloudAttrs) :
    ∃ r, decodeCloudId b m attrs = .done r := by
  rw [decodeCloudId]
  split_ifs with hformat
  · exact ⟨_, rfl⟩
  · cases hbytes : asciiBytes (attrs.cloudId.drop
      (lastDelimiter attrs.cloudId attrs.cloudId.length)) with
    | none => exact ⟨_, rfl⟩
    | some bytes =>
      have hlen := asciiBytes_length_le hbytes
      have hid := attrs.cloudId_le
      rw [List.length_drop] at hlen
      obtain ⟨buf', hstore⟩ := Buffer.exists_store m.buff 0 (bytes ++ [0]) (by
        rw [List.length_append, List.length_singleton, m.buff_length]
        omega)
      dsimp only
      rw [hstore, Exec.ofOption_some, Exec.bind_done]
      split_ifs
      · exact ⟨_, rfl⟩
      · cases hdec : b.decode bytes with
        | none => exact ⟨_, rfl⟩
        | some dec =>
          have hle := b.length_le hdec
          exact assignDecoded_defined (b.ne_nil hdec) (by omega)

/-- The attribute has the Base64 text of some bytes behind its last `:`. -/
def Encodes (b : Base64) (cloudId : WStr) (dec : CStr) : Prop :=
  ∃ (inst : WStr) (src : CStr), cloudId = inst ++ src.map UInt8.toUInt16 ∧
    (inst = [] ∨ inst.getLast? = some semicolon.toUInt16) ∧
    (∀ c ∈ src, c ≠ 0 ∧ c ≤ 127 ∧ c ≠ semicolon) ∧ b.decode src = some dec

theorem lastDelimiter_append {pre src : WStr} (hsrc : semicolon.toUInt16 ∉ src)
    (hpre : pre = [] ∨ pre.getLast? = some semicolon.toUInt16) {n : ℕ} (hn : n ≤ src.length) :
    lastDelimiter (pre ++ src) (pre.length + n) = pre.length := by
  induction n with
  | zero =>
    obtain rfl | hlast := hpre
    · rfl
    · have hpos : 0 < pre.length := List.length_pos_iff.mpr fun hnil ↦ by
        rw [hnil] at hlast
        cases hlast
      obtain ⟨k, hk⟩ := Nat.exists_eq_succ_of_ne_zero hpos.ne'
      have hget : (pre ++ src)[k]? = some semicolon.toUInt16 := by
        rw [List.getElem?_append_left (by omega), ← hlast, List.getLast?_eq_getElem?, hk,
          Nat.succ_sub_one]
      rw [Nat.add_zero, hk, lastDelimiter, if_pos hget]
  | succ n ih =>
    have hget : (pre ++ src)[pre.length + n]? ≠ some semicolon.toUInt16 := by
      rw [List.getElem?_append_right (Nat.le_add_right _ _), Nat.add_sub_cancel_left]
      exact fun h ↦ hsrc (List.mem_of_getElem? h)
    rw [← Nat.add_assoc, lastDelimiter, if_neg hget, ih (Nat.le_of_succ_le hn)]

theorem toUInt16_injective : Function.Injective UInt8.toUInt16 := fun a b h ↦ by
  have := congrArg UInt16.toUInt8 h
  simpa using this

theorem asciiBytes_map {src : CStr} (h : ∀ c ∈ src, c ≠ 0 ∧ c ≤ 127 ∧ c ≠ semicolon)
    (hne : src ≠ []) : asciiBytes (src.map UInt8.toUInt16) = some src := by
  have hhead : (src.map UInt8.toUInt16).takeWhile (fun u ↦ decide (u ≠ 0 ∧ u ≤ 127)) =
      src.map UInt8.toUInt16 := by
    rw [List.takeWhile_eq_self_iff]
    intro u hu
    obtain ⟨c, hc, rfl⟩ := List.mem_map.mp hu
    obtain ⟨h0, h127, -⟩ := h c hc
    refine decide_eq_true ⟨fun hzero ↦ h0 (toUInt16_injective hzero), ?_⟩
    exact h127
  have hback : (src.map UInt8.toUInt16).map UInt16.toUInt8 = src := by
    rw [List.map_map]
    exact (List.map_congr_left fun c _ ↦ by simp).trans (List.map_id _)
  have hend : (src.map UInt8.toUInt16)[(src.map UInt8.toUInt16).length]?.getD 0 = 0 := by
    rw [List.getElem?_eq_none le_rfl, Option.getD_none]
  have hmap : src.map UInt8.toUInt16 ≠ [] := fun hnil ↦ hne (List.map_eq_nil_iff.mp hnil)
  rw [asciiBytes, hhead, if_neg hmap, if_pos hend, hback]

/-- What is decoded is what was encoded. -/
theorem decodeCloudId_encodes (h : Encodes b attrs.cloudId dec) :
    decodeCloudId b m attrs = assignDecoded m attrs dec := by
  obtain ⟨inst, src, htext, hinst, hsrc, hdec⟩ := h
  have hne : src ≠ [] := by
    intro hnil
    have hle := b.length_le hdec
    rw [hnil] at hle
    exact b.ne_nil hdec (List.eq_nil_of_length_eq_zero (Nat.le_zero.mp hle))
  have hpos : 0 < src.length := List.length_pos_iff.mpr hne
  have hcolon : semicolon.toUInt16 ∉ src.map UInt8.toUInt16 := by
    intro hmem
    obtain ⟨c, hc, heq⟩ := List.mem_map.mp hmem
    exact (hsrc c hc).2.2 (toUInt16_injective heq)
  have hlast : lastDelimiter attrs.cloudId attrs.cloudId.length = inst.length := by
    rw [htext, List.length_append]
    exact lastDelimiter_append hcolon hinst le_rfl
  have hlen : attrs.cloudId.length = inst.length + src.length := by
    rw [htext, List.length_append, List.length_map]
  have hid := attrs.cloudId_le
  obtain ⟨buf', hstore⟩ := Buffer.exists_store m.buff 0 (src ++ [0]) (by
    rw [List.length_append, List.length_singleton, m.buff_length]
    omega)
  have hdrop : attrs.cloudId.drop inst.length = src.map UInt8.toUInt16 := by
    rw [htext, List.drop_left]
  rw [decodeCloudId, hlast, if_neg (by omega), hdrop, asciiBytes_map hsrc hne]
  dsimp only
  rw [hstore, Exec.ofOption_some, Exec.bind_done, if_neg hne, hdec]

end Decoding

/-! ## Well-formed IDs -/

/-- A byte of a name: printable, and no delimiter. -/
def NameByte (c : UInt8) : Prop :=
  0x20 < c ∧ c < 0x7F ∧ c ≠ dollar ∧ c ≠ semicolon ∧ c ≠ leftBracket ∧ c ≠ rightBracket

instance (c : UInt8) : Decidable (NameByte c) := by
  unfold NameByte
  infer_instance

theorem NameByte.ne_zero {c : UInt8} (h : NameByte c) : c ≠ 0 := by
  rintro rfl
  exact absurd h.1 (by decide)

/-- A byte of a name is passed over in the search for the port. -/
theorem NameByte.skipped {c : UInt8} (h : NameByte c) :
    some c ≠ some rightBracket ∧ some c ≠ some semicolon :=
  ⟨fun hc ↦ h.2.2.2.2.2 (Option.some.inj hc), fun hc ↦ h.2.2.2.1 (Option.some.inj hc)⟩

/-- A domain, a port if there is one, and the names of Elasticsearch and Kibana if there are such,
each of which may be empty; more names are let pass. -/
structure CloudName where
  domain : CStr
  port : Option CStr
  ids : List CStr
  domain_ne : domain ≠ []
  domain_name : ∀ c ∈ domain, NameByte c
  port_ne : ∀ p ∈ port, p ≠ []
  port_name : ∀ p ∈ port, ∀ c ∈ p, NameByte c
  ids_name : ∀ id ∈ ids, ∀ c ∈ id, NameByte c

namespace CloudName

variable (n : CloudName)

/-- The domain with its port. -/
def authority : CStr := n.domain ++ n.port.elim [] (semicolon :: ·)

/-- The text that is encoded. -/
def text : CStr := n.authority ++ n.ids.flatMap (dollar :: ·)

/-- The host: the name of Elasticsearch, if there is one, in front of the domain. -/
def host : CStr :=
  n.ids.head?.elim n.domain fun es ↦ if es = [] then n.domain else es ++ dot :: n.domain

/-- The URL, with the port of those that give none. -/
def url (defaultPort : String) : WStr :=
  wstr "https://" ++ n.host.map UInt8.toUInt16 ++ wstr ":" ++
    (n.port.getD (cstr defaultPort)).map UInt8.toUInt16 ++ wstr "/"

variable {n}

theorem authority_byte {c : UInt8} (h : c ∈ n.authority) : c = semicolon ∨ NameByte c := by
  obtain hdomain | hport := List.mem_append.mp h
  · exact .inr (n.domain_name c hdomain)
  · cases hp : n.port with
    | none =>
      rw [hp] at hport
      cases hport
    | some p =>
      rw [hp, Option.elim_some] at hport
      obtain hc | hc := List.mem_cons.mp hport
      · exact .inl hc
      · exact .inr (n.port_name p hp c hc)

theorem dollar_notMem_authority : dollar ∉ n.authority := by
  intro h
  obtain hc | hc := authority_byte h
  · exact absurd hc (by decide)
  · exact hc.2.2.1 rfl

theorem authority_pos : 0 < n.authority.length := by
  rw [authority, List.length_append]
  exact Nat.add_pos_left (List.length_pos_iff.mpr n.domain_ne) _

/-- The first `$` is behind the authority, the second behind the name of Elasticsearch. -/
theorem findDollars_text : ∃ d, findDollars 0 n.text 0 0 =
    some (if n.ids = [] then 0 else n.authority.length, d) ∧
      (if d = 0 then n.text.length else d) =
        n.ids.head?.elim n.authority.length (n.authority.length + 1 + ·.length) := by
  have hpos := authority_pos (n := n)
  rw [text, findDollars_append dollar_notMem_authority, Nat.zero_add]
  cases hids : n.ids with
  | nil =>
    refine ⟨0, rfl, ?_⟩
    rw [if_pos rfl, List.flatMap_nil, List.append_nil]
    rfl
  | cons es rest =>
    have hes : dollar ∉ es := fun h ↦
      (n.ids_name es (hids ▸ List.mem_cons_self) _ h).2.2.1 rfl
    rw [if_neg (List.cons_ne_nil _ _), List.flatMap_cons, List.cons_append, findDollars,
      if_pos rfl, if_neg (by omega), if_pos rfl, findDollars_append hes, List.head?_cons,
      Option.elim_some]
    cases rest with
    | nil =>
      refine ⟨0, rfl, ?_⟩
      rw [if_pos rfl, List.flatMap_nil, List.append_nil, List.length_append, List.length_cons]
      omega
    | cons kib more =>
      have hsecond : 0 < n.authority.length + 1 + es.length := by omega
      rw [List.flatMap_cons, List.cons_append, findDollars, if_pos rfl, if_neg (by omega),
        if_neg (by omega), if_pos rfl]
      obtain ⟨d, hd, hkeep⟩ := findDollars_found (kib ++ more.flatMap (dollar :: ·))
        (n.authority.length + 1 + es.length) (Nat.succ_pos (n.authority.length + 1 + es.length)) hpos
      rw [hd]
      refine ⟨d, rfl, ?_⟩
      rw [hkeep hsecond, if_neg hsecond.ne']

/-- The `:` of a port is behind the domain. -/
theorem findPort_text : findPort n.text n.authority.length n.authority.length =
    some (if n.port = none then 0 else n.domain.length) := by
  have hget {i : ℕ} (hi : i < n.authority.length) : n.text[i]? = n.authority[i]? := by
    rw [text, List.getElem?_append_left hi]
  have hdomain {i : ℕ} (hi : i < n.domain.length) : n.text[i]? ≠ some rightBracket ∧
      n.text[i]? ≠ some semicolon := by
    have hlt : i < n.authority.length := by
      rw [authority, List.length_append]
      omega
    rw [hget hlt, authority, List.getElem?_append_left hi, List.getElem?_eq_getElem hi]
    exact (n.domain_name _ (List.getElem_mem hi)).skipped
  cases hp : n.port with
  | none =>
    have hauth : n.authority = n.domain := by
      rw [authority, hp]
      exact List.append_nil _
    rw [findPort_skip (Nat.zero_le _) fun i _ hi ↦ hdomain (hauth ▸ hi), if_pos rfl]
    rfl
  | some port =>
    have hport := List.length_pos_iff.mpr (n.port_ne port hp)
    have hauth : n.authority = n.domain ++ semicolon :: port := by
      rw [authority, hp]
      rfl
    have hlen : n.authority.length = n.domain.length + 1 + port.length := by
      rw [hauth, List.length_append, List.length_cons]
      omega
    have hcolon : n.text[n.domain.length]? = some semicolon := by
      rw [hget (by omega), hauth, List.getElem?_append_right le_rfl, Nat.sub_self]
      rfl
    have hskip : ∀ i, n.domain.length + 1 ≤ i → i < n.authority.length →
        n.text[i]? ≠ some rightBracket ∧ n.text[i]? ≠ some semicolon := by
      intro i hi hlt
      have hi' : i - n.domain.length - 1 < port.length := by omega
      obtain ⟨k, hk⟩ := Nat.exists_eq_add_of_le hi
      have hk' : i - n.domain.length = k + 1 := by omega
      have hkp : k < port.length := by omega
      rw [hget hlt, hauth, List.getElem?_append_right (by omega), hk', List.getElem?_cons_succ,
        List.getElem?_eq_getElem hkp]
      exact (n.port_name port hp _ (List.getElem_mem hkp)).skipped
    have hne := List.length_pos_iff.mpr n.domain_ne
    rw [findPort_skip (by omega) hskip, findPort, hcolon, if_neg (by decide), if_pos rfl,
      if_neg (by omega), if_neg (by nofun)]

/-- The places in a text with its names. -/
theorem delimiters_text : delimiters n.text = some (n.authority.length,
    n.ids.head?.elim n.authority.length (n.authority.length + 1 + ·.length), n.domain.length) := by
  have hpos := authority_pos (n := n)
  have hne := List.length_pos_iff.mpr n.domain_ne
  obtain ⟨d, hd, hsecond⟩ := findDollars_text (n := n)
  have hfirst : (if (if n.ids = [] then 0 else n.authority.length) = 0 then n.text.length
      else if n.ids = [] then 0 else n.authority.length) = n.authority.length := by
    by_cases hids : n.ids = []
    · rw [if_pos hids, if_pos rfl, text, hids]
      exact congrArg List.length (List.append_nil _)
    · rw [if_neg hids, if_neg hpos.ne']
  have hthird : (if (if n.port = none then 0 else n.domain.length) = 0 then n.authority.length
      else if n.port = none then 0 else n.domain.length) = n.domain.length := by
    by_cases hp : n.port = none
    · rw [if_pos hp, if_pos rfl, authority, hp]
      exact congrArg List.length (List.append_nil _)
    · rw [if_neg hp, if_neg hne.ne']
  rw [delimiters, hd, Option.bind_some]
  dsimp only
  rw [hfirst, hsecond, findPort_text, Option.map_some, hthird]

end CloudName

/-! ## The URL of a Cloud ID -/

namespace CloudName

variable {n : CloudName} {m : CloudLocals} {attrs : CloudAttrs}

/-- The name of Elasticsearch is not empty where its `$` is there. -/
def Named (n : CloudName) : Prop := n.ids.head? ≠ some []

/-- The parts that `serverText` puts together. -/
theorem host_eq (h : n.Named) :
    (if n.authority.length < n.ids.head?.elim n.authority.length (n.authority.length + 1 + ·.length)
      then (n.text.drop (n.authority.length + 1)).take
        (n.ids.head?.elim n.authority.length (n.authority.length + 1 + ·.length) -
          n.authority.length - 1) ++ [dot] else []) ++ n.text.take n.domain.length = n.host := by
  have hdomain : n.text.take n.domain.length = n.domain := by
    rw [text, authority, List.append_assoc, List.take_left]
  rw [hdomain, host]
  cases hids : n.ids with
  | nil =>
    rw [List.head?_nil, Option.elim_none, if_neg (lt_irrefl _)]
    rfl
  | cons es rest =>
    have hes : es ≠ [] := by
      intro hnil
      apply h
      rw [hids, hnil]
      rfl
    have hlen : n.authority.length + 1 + es.length - n.authority.length - 1 = es.length := by omega
    have htext : n.text = (n.authority ++ [dollar]) ++ (es ++ rest.flatMap (dollar :: ·)) := by
      rw [text, hids, List.flatMap_cons, List.append_assoc]
      rfl
    have hdrop : n.text.drop (n.authority.length + 1) = es ++ rest.flatMap (dollar :: ·) := by
      rw [htext]
      exact List.drop_left' (List.length_append.trans rfl)
    rw [List.head?_cons, Option.elim_some, Option.elim_some, if_pos (by omega), hlen, hdrop,
      List.take_left, if_neg hes, List.append_assoc]
    rfl

theorem port_eq (defaultPort : CStr) : (if n.domain.length < n.authority.length then
    (n.text.drop (n.domain.length + 1)).take (n.authority.length - n.domain.length - 1)
      else defaultPort) = n.port.getD defaultPort := by
  cases hp : n.port with
  | none =>
    have hauth : n.authority = n.domain := by
      rw [authority, hp]
      exact List.append_nil _
    rw [hauth, if_neg (lt_irrefl _)]
    rfl
  | some port =>
    have hauth : n.authority = (n.domain ++ [semicolon]) ++ port := by
      rw [authority, hp, List.append_assoc]
      rfl
    have hlen : n.authority.length = n.domain.length + 1 + port.length := by
      rw [hauth, List.length_append, List.length_append]
      rfl
    have hdrop : n.text.drop (n.domain.length + 1) = port ++ n.ids.flatMap (dollar :: ·) := by
      rw [text, hauth, List.append_assoc]
      exact List.drop_left' (List.length_append.trans rfl)
    have hcount : n.authority.length - n.domain.length - 1 = port.length := by omega
    rw [if_pos (by omega), hdrop, hcount, List.take_left]
    rfl

theorem host_byte {c : UInt8} (h : c ∈ n.host) : NameByte c := by
  rw [host] at h
  cases hids : n.ids with
  | nil =>
    rw [hids] at h
    exact n.domain_name c h
  | cons es rest =>
    rw [hids, List.head?_cons, Option.elim_some] at h
    split_ifs at h
    · exact n.domain_name c h
    · obtain hes | hrest := List.mem_append.mp h
      · exact n.ids_name es (hids ▸ List.mem_cons_self) c hes
      · obtain rfl | hdomain := List.mem_cons.mp hrest
        · decide
        · exact n.domain_name c hdomain

theorem takeWhile_bytes {s : CStr} (h : ∀ c ∈ s, c ≠ 0) : s.takeWhile (· ≠ 0) = s :=
  List.takeWhile_eq_self_iff.mpr fun c hc ↦ decide_eq_true (h c hc)

theorem host_length_le : n.host.length ≤ n.text.length := by
  have hdomain : n.domain.length ≤ n.authority.length := by
    rw [authority, List.length_append]
    exact Nat.le_add_right _ _
  rw [host, text, List.length_append]
  cases n.ids with
  | nil => exact hdomain.trans (Nat.le_add_right _ _)
  | cons es rest =>
    rw [List.head?_cons, Option.elim_some, List.flatMap_cons, List.length_append, List.length_cons]
    split_ifs
    · omega
    · rw [List.length_append, List.length_cons]
      omega

theorem port_length_le : (n.port.getD (cstr esodbcDefCloudPort)).length ≤ max 4 n.text.length := by
  cases hp : n.port with
  | none => exact le_max_left _ _
  | some port =>
    rw [Option.getD_some, text, authority, hp, Option.elim_some, List.length_append,
      List.length_append, List.length_cons]
    omega


end CloudName

/-- No attribute but the Cloud ID is given. -/
structure CloudAttrs.Fresh (attrs : CloudAttrs) : Prop where
  server : attrs.server = []
  port : attrs.port = []
  secure : attrs.secure = []

namespace CloudName

variable {n : CloudName} {m : CloudLocals} {attrs : CloudAttrs}

/-- The attributes of a well-formed ID. -/
theorem assignDecoded_text (hfresh : attrs.Fresh) (hle : n.text.length ≤ esodbcDsnMaxAttrLen)
    (h : n.Named) : assignDecoded m attrs n.text = .done (.ok { attrs with
      server := n.host.map UInt8.toUInt16
      port := (n.port.getD (cstr esodbcDefCloudPort)).map UInt8.toUInt16
      secure := wstr esodbcDefCloudSecure }) := by
  have htext : n.text ≠ [] := by
    intro hnil
    have := congrArg List.length hnil
    rw [text, List.length_append, List.length_nil] at this
    have := authority_pos (n := n)
    omega
  obtain ⟨hs, hsd, hdd, hlen⟩ := delimiters_bounds htext delimiters_text
  have hport : ∀ c ∈ n.port.getD (cstr esodbcDefCloudPort), c ≠ 0 := by
    cases hp : n.port with
    | none => decide +kernel
    | some port => exact fun c hc ↦ (n.port_name port hp c hc).ne_zero
  rw [assignDecoded, delimiters_text]
  dsimp only
  rw [serverText_eq hs (by omega) hdd hlen hle, Exec.bind_done, host_eq h,
    takeWhile_bytes fun c hc ↦ (host_byte hc).ne_zero, assignOnce, if_pos hfresh.server]
  dsimp only
  rw [portText_eq hsd (hdd.trans hlen) hle, Exec.bind_done, port_eq, takeWhile_bytes hport,
    assignOnce, if_pos hfresh.port, assignOnce, if_pos hfresh.secure]

end CloudName

namespace CloudName

variable {n : CloudName} {b : Base64} {m : CloudLocals} {attrs : CloudAttrs}

theorem toWlower_semicolon {u : UInt16} (h : toWlower u = toWlower semicolon.toUInt16) :
    u = semicolon.toUInt16 := by
  have hcolon : toWlower semicolon.toUInt16 = 0x3A := by decide
  rw [hcolon, toWlower] at h
  split_ifs at h with hupper
  · have hlow : 0x41 ≤ u.toNat := hupper.1
    have hhigh : u.toNat ≤ 0x5A := hupper.2
    have hsum := congrArg UInt16.toNat h
    rw [UInt16.toNat_add] at hsum
    change (u.toNat + 32) % 65536 = 58 at hsum
    omega
  · rw [h]
    rfl

/-- A text in which some unit is at a place starts with no text that has another there. -/
theorem eqCaseWstr_take {w t : WStr} {k i : ℕ} (hi : i < k) (ht : t[i]? = some semicolon.toUInt16)
    (hw : semicolon.toUInt16 ∉ w) : eqCaseWstr (w.take k) t = false := by
  rw [eqCaseWstr, beq_eq_false_iff_ne]
  intro heq
  have hget := congrArg (·[i]?) heq
  rw [List.getElem?_map, List.getElem?_map, ht, List.getElem?_take_of_lt hi] at hget
  cases hu : w[i]? with
  | none =>
    rw [hu] at hget
    cases hget
  | some u =>
    rw [hu, Option.map_some, Option.map_some, Option.some.injEq] at hget
    have hlow := toWlower_semicolon hget
    exact hw (hlow ▸ List.mem_of_getElem? hu)

theorem semicolon_notMem_host : semicolon.toUInt16 ∉ n.host.map UInt8.toUInt16 := by
  intro h
  obtain ⟨c, hc, heq⟩ := List.mem_map.mp h
  exact (host_byte hc).2.2.2.1 (toUInt16_injective heq)

/-- The URL that is printed for a well-formed ID. -/
theorem configUrl_text (hle : n.text.length ≤ esodbcDsnMaxAttrLen) :
    configUrl { attrs with
      server := n.host.map UInt8.toUInt16
      port := (n.port.getD (cstr esodbcDefCloudPort)).map UInt8.toUInt16
      secure := wstr esodbcDefCloudSecure } = .ok (n.url esodbcDefCloudPort) := by
  have hcolon := semicolon_notMem_host (n := n)
  have hurl : rootUrl 4 (n.host.map UInt8.toUInt16)
      ((n.port.getD (cstr esodbcDefCloudPort)).map UInt8.toUInt16) = n.url esodbcDefCloudPort := by
    rw [rootUrl, url]
    rw [if_neg hcolon, if_neg hcolon, List.append_nil, List.append_nil, if_pos (by decide)]
    rfl
  have hlen : (n.url esodbcDefCloudPort).length < esodbcMaxUrlLen := by
    have hhost := host_length_le (n := n)
    have hport := port_length_le (n := n)
    have hstart : (wstr "https://").length = 8 := rfl
    have hsep : (wstr ":").length = 1 := rfl
    have hend : (wstr "/").length = 1 := rfl
    have hmax : esodbcDsnMaxAttrLen = 768 := rfl
    have hurlmax : esodbcMaxUrlLen = 2048 := rfl
    rw [url, List.length_append, List.length_append, List.length_append, List.length_append,
      List.length_map, List.length_map, hstart, hsep, hend]
    omega
  have hsecure : str2bigint (wstr esodbcDefCloudSecure) true = some (4, 1) := by decide +kernel
  have hhttp : isHttpUrl (n.host.map UInt8.toUInt16) = false := by
    rw [isHttpUrl, eqCaseWstr_take (i := 4) (by decide) rfl hcolon,
      eqCaseWstr_take (i := 5) (by decide) rfl hcolon]
    rfl
  rw [configUrl]
  dsimp only
  rw [hhttp, if_neg Bool.false_ne_true, hsecure]
  dsimp only
  rw [if_neg (by decide), hurl, if_neg (not_le.mpr hlen)]

/-- A well-formed ID gives the URL of its host and port. -/
theorem cloudUrl_text (hfresh : attrs.Fresh) (henc : Encodes b attrs.cloudId n.text)
    (h : n.Named) : cloudUrl b m attrs = .done (.ok (n.url esodbcDefCloudPort)) := by
  have hle : n.text.length ≤ esodbcDsnMaxAttrLen := by
    obtain ⟨inst, src, htext, -, -, hdec⟩ := henc
    have hid := attrs.cloudId_le
    rw [htext, List.length_append, List.length_map] at hid
    have := b.length_le hdec
    omega
  rw [cloudUrl, decodeCloudId_encodes henc, assignDecoded_text hfresh hle h, Exec.bind_done]
  exact congrArg Exec.done (configUrl_text hle)

end CloudName

/-! ## Malformed IDs -/

/-- A `$` in front of everything, or a `:` in front of the domain or behind it. -/
def Malformed (dec : CStr) : Prop :=
  dec.head? = some dollar ∨ ∃ p q rest, dec = p ++ semicolon :: q ++ rest ∧
    dollar ∉ p ++ semicolon :: q ∧ (rest = [] ∨ rest.head? = some dollar) ∧
    (∀ c ∈ q, c ≠ rightBracket ∧ c ≠ semicolon) ∧ (p = [] ∨ q = [])

theorem delimiters_malformed {dec : CStr} (h : Malformed dec) : delimiters dec = none := by
  obtain hhead | ⟨p, q, rest, rfl, hdollar, hrest, hq, hempty⟩ := h
  · cases dec with
    | nil => cases hhead
    | cons c dec =>
      rw [List.head?_cons, Option.some.injEq] at hhead
      rw [delimiters, findDollars, if_pos hhead, if_pos le_rfl]
      rfl
  · generalize hpart : p ++ semicolon :: q = part at hdollar
    have hlen : part.length = p.length + 1 + q.length := by
      rw [← hpart, List.length_append, List.length_cons]
      omega
    -- the first `$` is behind the part, or there is none
    have hfirst : ∃ d, findDollars 0 (part ++ rest) 0 0 = some d ∧
        (if d.1 = 0 then (part ++ rest).length else d.1) = part.length := by
      rw [findDollars_append hdollar, Nat.zero_add]
      obtain rfl | hhead := hrest
      · exact ⟨(0, 0), rfl, by rw [if_pos rfl, List.append_nil]⟩
      · cases rest with
        | nil => cases hhead
        | cons c rest =>
          rw [List.head?_cons, Option.some.injEq] at hhead
          obtain ⟨d, hd, -⟩ := findDollars_found rest 0 (Nat.succ_pos part.length)
            (show 0 < part.length by omega)
          refine ⟨(part.length, d), ?_, if_neg (by omega)⟩
          rw [findDollars, if_pos hhead, if_neg (by omega), if_pos rfl, hd]
    have hget {i : ℕ} (hi : i < part.length) : (part ++ rest)[i]? = part[i]? :=
      List.getElem?_append_left hi
    have hskip : ∀ i, p.length + 1 ≤ i → i < part.length →
        (part ++ rest)[i]? ≠ some rightBracket ∧ (part ++ rest)[i]? ≠ some semicolon := by
      intro i hi hlt
      obtain ⟨k, hk⟩ := Nat.exists_eq_add_of_le hi
      have hk' : i - p.length = k + 1 := by omega
      have hkq : k < q.length := by omega
      obtain ⟨hbracket, hcolon⟩ := hq q[k] (List.getElem_mem hkq)
      rw [hget hlt, ← hpart, List.getElem?_append_right (by omega), hk', List.getElem?_cons_succ,
        List.getElem?_eq_getElem hkq]
      exact ⟨fun h ↦ hbracket (Option.some.inj h), fun h ↦ hcolon (Option.some.inj h)⟩
    have hcolon : (part ++ rest)[p.length]? = some semicolon := by
      rw [hget (by omega), ← hpart, List.getElem?_append_right le_rfl, Nat.sub_self]
      rfl
    have hend : p.length = 0 ∨ p.length = part.length - 1 := by
      obtain rfl | rfl := hempty
      · exact .inl rfl
      · rw [List.length_nil] at hlen
        omega
    have hport : findPort (part ++ rest) part.length part.length = none := by
      rw [findPort_skip (by omega) hskip, findPort, hcolon, if_neg (by decide), if_pos rfl,
        if_pos hend]
    obtain ⟨d, hd, hdolr⟩ := hfirst
    rw [delimiters, hd, Option.bind_some]
    dsimp only
    rw [hdolr, hport]
    rfl

/-! ## The whole -/

/-- Every write is inside the local buffers; a well-formed ID gives the URL of its host, which is
the name of Elasticsearch in front of the domain, and of its port or the default; a malformed one is
rejected. -/
theorem cloudUrl_right (b : Base64) (m : CloudLocals) (attrs : CloudAttrs) :
    (∃ r, cloudUrl b m attrs = .done r) ∧
    (∀ n : CloudName, Encodes b attrs.cloudId n.text → attrs.Fresh → n.Named →
      cloudUrl b m attrs = .done (.ok (n.url "9243"))) ∧
    (∀ dec, Encodes b attrs.cloudId dec → Malformed dec →
      cloudUrl b m attrs = .done (.error "Malformed Cloud ID parameter")) := by
  refine ⟨?_, fun n henc hfresh h ↦ CloudName.cloudUrl_text hfresh henc h, ?_⟩
  · obtain ⟨r, hr⟩ := decodeCloudId_defined b m attrs
    exact ⟨_, by rw [cloudUrl, hr, Exec.bind_done]⟩
  · intro dec henc hbad
    rw [cloudUrl, decodeCloudId_encodes henc, assignDecoded, delimiters_malformed hbad]
    rfl

/-- A decoder of one text. -/
def Base64.of (dec : CStr) (hne : dec ≠ []) : Base64 where
  decode src := if dec.length ≤ src.length then some dec else none
  ne_nil h := by
    split_ifs at h
    cases h
    exact hne
  length_le h := by
    split_ifs at h
    cases h
    assumption

/-- The local buffers, empty. -/
def CloudLocals.blank : CloudLocals where
  buff := List.replicate (esodbcDsnMaxAttrLen + 1) 0
  wbuff := List.replicate (esodbcDsnMaxAttrLen + 1) 0
  buff_length := List.length_replicate
  wbuff_length := List.length_replicate

/-- A Cloud ID of eight units, and nothing else. -/
def CloudAttrs.id (cloudId : WStr) (h : cloudId.length = 8) : CloudAttrs where
  cloudId
  server := []
  port := []
  secure := []
  cloudId_pos := h ▸ Nat.succ_pos 7
  cloudId_le := h ▸ Nat.le_add_right 8 760

/-- A domain on its own. -/
def hostName : CloudName where
  domain := cstr "host"
  port := none
  ids := []
  domain_ne := List.cons_ne_nil _ _
  domain_name := by decide +kernel
  port_ne := by nofun
  port_name := by nofun
  ids_name := by nofun

/-- The text of Base64 for it. -/
def hostBase64 : CStr := cstr "aG9zdA=="

theorem encodes_of {dec : CStr} (hne : dec ≠ []) (hle : dec.length ≤ 8) :
    Encodes (.of dec hne) (CloudAttrs.id (hostBase64.map UInt8.toUInt16) rfl).cloudId dec :=
  ⟨[], hostBase64, rfl, .inl rfl, by decide +kernel, if_pos hle⟩

/-- A domain on its own, and a `$` in front of it. -/
theorem cloudUrl_host : cloudUrl (.of (cstr "host") (List.cons_ne_nil _ _)) .blank
      (.id (hostBase64.map UInt8.toUInt16) rfl) = .done (.ok (wstr "https://host:9243/")) ∧
    cloudUrl (.of (cstr "$host") (List.cons_ne_nil _ _)) .blank
      (.id (hostBase64.map UInt8.toUInt16) rfl) = .done (.error "Malformed Cloud ID parameter") :=
  ⟨(cloudUrl_right _ _ _).2.1 hostName (encodes_of _ (by decide)) ⟨rfl, rfl, rfl⟩ nofun,
    (cloudUrl_right _ _ _).2.2 (cstr "$host") (encodes_of _ (by decide)) (.inl rfl)⟩

/-- The port that is not given is not 443.  Also, an empty name of Elasticsearch leaves its dot, an
address in brackets gets a second pair of them, and a byte out of ASCII is taken. -/
theorem not_cloudUrl_443 :
    (¬∀ (b : Base64) (m : CloudLocals) (attrs : CloudAttrs) (n : CloudName),
      Encodes b attrs.cloudId n.text → attrs.Fresh →
        cloudUrl b m attrs = .done (.ok (n.url "443"))) ∧
    cloudUrl (.of (cstr "host$$") (List.cons_ne_nil _ _)) .blank
      (.id (wstr "aG9zdCQk") rfl) = .done (.ok (wstr "https://.host:9243/")) ∧
    cloudUrl (.of (cstr "[::1]") (List.cons_ne_nil _ _)) .blank
      (.id (wstr "Wzo6MV0=") rfl) = .done (.ok (wstr "https://[[::1]]:9243/")) ∧
    cloudUrl (.of [0xE9, 0x74, 0xE9] (List.cons_ne_nil _ _)) .blank
      (.id (wstr "instance") rfl) =
        .done (.ok (wstr "https://" ++ [0xE9, 0x74, 0xE9] ++ wstr ":9243/")) := by
  refine ⟨?_, ?_, ?_, ?_⟩
  · intro h
    have henc : Encodes (.of hostName.text (List.cons_ne_nil _ _))
        (CloudAttrs.id (hostBase64.map UInt8.toUInt16) rfl).cloudId hostName.text :=
      encodes_of _ (by decide)
    have h443 := h _ .blank _ hostName henc ⟨rfl, rfl, rfl⟩
    have h9243 : cloudUrl (.of hostName.text (List.cons_ne_nil _ _)) .blank
        (.id (hostBase64.map UInt8.toUInt16) rfl) = .done (.ok (wstr "https://host:9243/")) := by
      decide +kernel
    rw [h9243] at h443
    cases h443
  · decide +kernel
  · decide +kernel
  · decide +kernel

end EsOdbc
