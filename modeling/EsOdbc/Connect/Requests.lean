import EsOdbc.Ujson
import EsOdbc.Error
import EsOdbc.Lib.Run

/-!
# The transfer handle of a connection

`dbc_curl_set_url`, `dbc_curl_add_post_body`, `curl_post` and what else of `connect.c` uses
the libcurl handle of a connection.  The handle keeps an option until it is set again; a
call of libcurl can fail, and one that fails leaves the handle as it is.
-/

namespace EsOdbc

/-- `crr_url`. -/
inductive UrlType where
  | none | query | close | root
deriving DecidableEq, Repr

/-- What a POST is for. -/
inductive PostKind where
  | query | close
deriving DecidableEq, Repr

def PostKind.urlType : PostKind → UrlType
  | .query => .query
  | .close => .close

/-- The options of a libcurl handle that a request depends on. -/
structure CurlHandle where
  post : Bool
  url : Option CStr
  /-- `0` is no time limit. -/
  timeout : Int
  postFieldSize : Int
  postFields : Option CStr
deriving DecidableEq, Repr

/-- `curl_easy_init`. -/
def CurlHandle.init : CurlHandle := ⟨false, none, 0, -1, none⟩

/-- The fields of the connection that requests use. -/
structure Transport where
  curl : Option CurlHandle
  crrUrl : UrlType
  url : CStr
  closeUrl : CStr
  rootUrl : CStr
  timeout : ℕ
deriving DecidableEq, Repr

/-- What becomes of a request that was sent. -/
inductive CurlAnswer where
  /-- Nothing came back, or not all of it. -/
  | failed
  | answered (code : Int) (typeSupported : Bool) (hasBody : Bool)
deriving DecidableEq, Repr

/-- Which of libcurl's calls fail in one request, and what it brings back. -/
structure CurlRun where
  initFails : Bool
  methodFails : Bool
  urlFails : Bool
  timeoutFails : Bool
  sizeFails : Bool
  fieldsFails : Bool
  answer : CurlAnswer
deriving DecidableEq, Repr

/-- A request, as the options of its handle describe it. -/
abbrev Sent := CurlHandle

namespace Transport

/-- A connection before its first use. -/
def init : Transport := ⟨none, .none, [], [], [], 0⟩

/-- `cleanup_curl`. -/
def cleanupCurl (t : Transport) : Transport :=
  if t.curl.isNone then t else { t with curl := none, crrUrl := .none }

/-- `dbc_curl_init`, with all its options set or failing. -/
def dbcCurlInit (t : Transport) (run : CurlRun) : Bool × Transport :=
  if run.initFails then (false, t.cleanupCurl) else (true, { t with curl := some .init })

/-- The URL of a type. -/
def urlOf (t : Transport) : UrlType → Option CStr
  | .none => none
  | .query => some t.url
  | .close => some t.closeUrl
  | .root => some t.rootUrl

/-- `dbc_curl_set_url`. -/
def dbcCurlSetUrl (t : Transport) (h : CurlHandle) (urlType : UrlType) (run : CurlRun) :
    Bool × Transport :=
  match t.urlOf urlType with
  | none => (false, t.cleanupCurl)
  | some url =>
    if run.methodFails || run.urlFails then (false, t.cleanupCurl)
    else (true, { t with
      curl := some { h with post := urlType ≠ .root, url := some url }
      crrUrl := urlType })

/-- The argument for an option of type `long`, which has 32 bits. -/
def toLong (n : ℕ) : Int := (BitVec.ofNat 32 n).toInt

/-- `dbc_curl_add_post_body`. -/
def dbcCurlAddPostBody (h : CurlHandle) (tout : ℕ) (u8body : CStr) (run : CurlRun) :
    Option CurlHandle :=
  let limited : Option CurlHandle :=
    if 0 < tout then
      if run.timeoutFails then none else some { h with timeout := toLong tout }
    else some h
  limited.bind fun h ↦
    if run.sizeFails || run.fieldsFails then none
    else some { h with postFieldSize := u8body.length, postFields := some u8body }

/-- The maximum between the connection's and the statement's value. -/
def tout (t : Transport) (queryTimeout : ℕ) : ℕ :=
  if t.timeout < queryTimeout then queryTimeout else t.timeout

/-- Only an answer with the code 200 and a body leaves the handle to the next request. -/
def CurlAnswer.keepsHandle : CurlAnswer → Bool
  | .failed => false
  | .answered code typeSupported hasBody => typeSupported && code == 200 && hasBody

/-- `curl_post` with a handle: what is sent, if it comes to that. -/
def postOn (t : Transport) (h : CurlHandle) (queryTimeout : ℕ) (reqBody : CStr) (run : CurlRun) :
    Option Sent × Transport :=
  match dbcCurlAddPostBody h (t.tout queryTimeout) reqBody run with
  | none => (none, t.cleanupCurl)
  | some h =>
    let t := { t with curl := some h }
    (some h, if CurlAnswer.keepsHandle run.answer then t else t.cleanupCurl)

/-- The handle of a request: a new one, if there is none. -/
def handle (t : Transport) (run : CurlRun) : Bool × Transport :=
  if t.curl.isNone then t.dbcCurlInit run else (true, t)

/-- The handle set to the URL of a type, if it is not already. -/
def directed (t : Transport) (urlType : UrlType) (run : CurlRun) : Bool × Transport :=
  match t.curl with
  | none => (false, t)
  | some h => if t.crrUrl ≠ urlType then t.dbcCurlSetUrl h urlType run else (true, t)

/-- `curl_post`. -/
def curlPost (t : Transport) (queryTimeout : ℕ) (kind : PostKind) (reqBody : CStr)
    (run : CurlRun) : Option Sent × Transport :=
  let made := t.handle run
  if !made.1 then (none, made.2)
  else
    let set := made.2.directed kind.urlType run
    if !set.1 then (none, set.2)
    else match set.2.curl with
      | none => (none, set.2)
      | some h => set.2.postOn h queryTimeout reqBody run

/-- The attributes of a connection that its requests use. -/
structure ConnectArgs where
  url : CStr
  closeUrl : CStr
  rootUrl : CStr
  timeout : ℕ
deriving DecidableEq, Repr

/-- `check_server_version`: a GET on the root URL. -/
def checkServerVersion (t : Transport) (run : CurlRun) : Option Sent × Transport :=
  match t.curl with
  | none => (none, t)
  | some h =>
    let set := t.dbcCurlSetUrl h .root run
    if !set.1 then (none, set.2)
    else (set.2.curl, if run.answer = .failed then set.2.cleanupCurl else set.2)

/-- `do_connect` up to the check of the server's version; the types are queries. -/
def doConnect (t : Transport) (attrs : ConnectArgs) (run : CurlRun) : Option Sent × Transport :=
  let t := { t.cleanupCurl with
    url := attrs.url, closeUrl := attrs.closeUrl, rootUrl := attrs.rootUrl
    timeout := attrs.timeout }
  let made := t.dbcCurlInit run
  if !made.1 then (none, made.2) else made.2.checkServerVersion run

/-- `EsSQLSetConnectAttrW` with a timeout: a limit is not lifted. -/
def setTimeout (t : Transport) (value : ℕ) : Transport :=
  if t.timeout ≠ 0 ∧ value = 0 then t else { t with timeout := value % 2 ^ 32 }

/-! ## Runs -/

/-- What happens on a connection. -/
inductive Event where
  | connect (attrs : ConnectArgs) (run : CurlRun)
  | setTimeout (value : ℕ)
  | post (queryTimeout : ℕ) (kind : PostKind) (reqBody : CStr) (run : CurlRun)
  | disconnect
deriving DecidableEq, Repr

/-- The connection after an event, and the request that was sent. -/
def event (t : Transport) : Event → Option Sent × Transport
  | .connect attrs run => t.doConnect attrs run
  | .setTimeout value => (none, t.setTimeout value)
  | .post queryTimeout kind reqBody run => t.curlPost queryTimeout kind reqBody run
  | .disconnect => (none, t.cleanupCurl)

/-- A POST that is sent with its own settings. -/
structure SentAs (t : Transport) (queryTimeout : ℕ) (kind : PostKind) (reqBody : CStr)
    (sent : Sent) : Prop where
  post : sent.post = true
  url : sent.url = t.urlOf kind.urlType
  size : sent.postFieldSize = reqBody.length
  body : sent.postFields = some reqBody
  timeout : sent.timeout = max t.timeout queryTimeout

/-- The time limit that the handle was left with. -/
def heldTimeout (t : Transport) : Int := (t.curl.map CurlHandle.timeout).getD 0

/-- A POST whose time limit reaches libcurl: it fits the type of the option, and one without a
limit finds a handle without one. -/
def TimeoutReaches (t : Transport) (queryTimeout : ℕ) : Prop :=
  max t.timeout queryTimeout < 2 ^ 31 ∧
    (max t.timeout queryTimeout = 0 → t.heldTimeout = 0)

/-- The handle is set to the URL that the connection says. -/
structure Aligned (t : Transport) : Prop where
  none : t.curl = none → t.crrUrl = .none
  some : ∀ h, t.curl = some h → t.crrUrl ≠ .none →
    h.url = t.urlOf t.crrUrl ∧ h.post = decide (t.crrUrl ≠ .root)

theorem init_aligned : init.Aligned := ⟨fun _ ↦ rfl, nofun⟩

theorem cleanupCurl_curl (t : Transport) : t.cleanupCurl.curl = none := by
  unfold cleanupCurl
  split_ifs with h
  · exact Option.isNone_iff_eq_none.mp h
  · rfl

theorem Aligned.cleanupCurl {t : Transport} (h : t.Aligned) : t.cleanupCurl.Aligned := by
  refine ⟨fun _ ↦ ?_, fun h' hc ↦ by rw [cleanupCurl_curl] at hc; cases hc⟩
  unfold Transport.cleanupCurl
  split_ifs with hn
  · exact h.none (Option.isNone_iff_eq_none.mp hn)
  · rfl

theorem tout_eq_max (t : Transport) (queryTimeout : ℕ) :
    t.tout queryTimeout = max t.timeout queryTimeout := by
  unfold tout
  split_ifs with h
  · exact (max_eq_right h.le).symm
  · exact (max_eq_left (Nat.le_of_not_lt h)).symm

/-- The option takes the values that its type has room for. -/
theorem toLong_eq_iff {n : ℕ} : toLong n = n ↔ n < 2 ^ 31 := by
  unfold toLong
  rw [BitVec.toInt_ofNat']
  constructor
  · intro h
    have := Int.bmod_lt (x := (n : Int)) (m := 2 ^ 32) (by decide)
    omega
  · intro h
    exact Int.bmod_eq_of_le (by omega) (by omega)

/-- The fields that neither the handle nor its URL is among. -/
structure SameAttrs (t t' : Transport) : Prop where
  url : t'.url = t.url
  closeUrl : t'.closeUrl = t.closeUrl
  rootUrl : t'.rootUrl = t.rootUrl
  timeout : t'.timeout = t.timeout

theorem SameAttrs.refl (t : Transport) : SameAttrs t t := ⟨rfl, rfl, rfl, rfl⟩

theorem SameAttrs.trans {t t' t'' : Transport} (h : SameAttrs t t') (h' : SameAttrs t' t'') :
    SameAttrs t t'' :=
  ⟨h'.url.trans h.url, h'.closeUrl.trans h.closeUrl, h'.rootUrl.trans h.rootUrl,
    h'.timeout.trans h.timeout⟩

theorem SameAttrs.urlOf {t t' : Transport} (h : SameAttrs t t') (u : UrlType) :
    t'.urlOf u = t.urlOf u := by
  cases u
  · rfl
  · exact congrArg some h.url
  · exact congrArg some h.closeUrl
  · exact congrArg some h.rootUrl

theorem SameAttrs.cleanupCurl (t : Transport) : SameAttrs t t.cleanupCurl := by
  unfold Transport.cleanupCurl
  split_ifs
  · exact .refl t
  · exact ⟨rfl, rfl, rfl, rfl⟩

theorem sentAs_congr {t t' : Transport} (h : SameAttrs t t') {queryTimeout : ℕ} {kind : PostKind}
    {reqBody : CStr} {sent : Sent} :
    SentAs t queryTimeout kind reqBody sent ↔ SentAs t' queryTimeout kind reqBody sent := by
  have hu := h.urlOf kind.urlType
  have ht := h.timeout
  constructor <;> intro hs
  · exact ⟨hs.post, hs.url.trans hu.symm, hs.size, hs.body, by rw [hs.timeout, ht]⟩
  · exact ⟨hs.post, hs.url.trans hu, hs.size, hs.body, by rw [hs.timeout, ht]⟩

theorem timeoutReaches_congr {t t' : Transport} (h : SameAttrs t t')
    (hheld : t'.heldTimeout = t.heldTimeout) {queryTimeout : ℕ} :
    TimeoutReaches t queryTimeout ↔ TimeoutReaches t' queryTimeout := by
  unfold TimeoutReaches
  rw [h.timeout, hheld]

/-- A step on the transport that keeps its attributes. -/
structure Keeps (t t' : Transport) : Prop where
  aligned : t'.Aligned
  attrs : SameAttrs t t'

theorem Keeps.cleanupCurl {t : Transport} (h : t.Aligned) : Keeps t t.cleanupCurl :=
  ⟨h.cleanupCurl, .cleanupCurl t⟩

theorem handle_keeps {t : Transport} (h : t.Aligned) (run : CurlRun) :
    Keeps t (t.handle run).2 := by
  unfold handle dbcCurlInit
  split_ifs with hn
  · exact .cleanupCurl h
  · have hc := Option.isNone_iff_eq_none.mp hn
    refine ⟨⟨nofun, ?_⟩, ⟨rfl, rfl, rfl, rfl⟩⟩
    intro _ _ hne
    exact absurd (h.none hc) hne
  · exact ⟨h, .refl t⟩

/-- Setting the URL goes through with the handle set to it, or without a handle. -/
theorem dbcCurlSetUrl_cases {t : Transport} (ht : t.Aligned) (h : CurlHandle) (u : UrlType)
    (run : CurlRun) :
    Keeps t (t.dbcCurlSetUrl h u run).2 ∧
      ((t.dbcCurlSetUrl h u run).1 = true → (t.dbcCurlSetUrl h u run).2.crrUrl = u ∧ u ≠ .none) := by
  unfold dbcCurlSetUrl
  split
  · exact ⟨.cleanupCurl ht, nofun⟩
  · rename_i url hurl
    have hne : u ≠ .none := by
      intro hu
      subst hu
      cases hurl
    split_ifs
    · exact ⟨.cleanupCurl ht, nofun⟩
    · refine ⟨⟨⟨nofun, ?_⟩, ⟨rfl, rfl, rfl, rfl⟩⟩, fun _ ↦ ⟨rfl, hne⟩⟩
      rintro _ ⟨⟩ -
      refine ⟨?_, rfl⟩
      cases u <;> exact hurl.symm

theorem directed_cases {t : Transport} (ht : t.Aligned) (u : UrlType) (run : CurlRun) :
    Keeps t (t.directed u run).2 ∧
      ((t.directed u run).1 = true → (t.directed u run).2.crrUrl = u) := by
  unfold directed
  split
  · exact ⟨⟨ht, .refl t⟩, nofun⟩
  · rename_i h _
    split_ifs with hne
    · obtain ⟨hk, hset⟩ := dbcCurlSetUrl_cases ht h u run
      exact ⟨hk, fun h1 ↦ (hset h1).1⟩
    · exact ⟨⟨ht, .refl t⟩, fun _ ↦ not_not.mp hne⟩

/-- A handle that is there for the request has the time limit that was held. -/
theorem held_of_directed {t : Transport} {u : UrlType} {run : CurlRun}
    (h : ((t.handle run).2.directed u run).1 = true) :
    ((t.handle run).2.directed u run).2.heldTimeout = t.heldTimeout := by
  have hmade : (t.handle run).2.heldTimeout = t.heldTimeout := by
    unfold handle dbcCurlInit
    split_ifs with hn
    · rw [heldTimeout, heldTimeout, cleanupCurl_curl, Option.isNone_iff_eq_none.mp hn]
    · rw [heldTimeout, heldTimeout, Option.isNone_iff_eq_none.mp hn]
      rfl
    · rfl
  rw [← hmade]
  generalize (t.handle run).2 = t₁ at h ⊢
  unfold directed at h ⊢
  cases hc : t₁.curl with
  | none => simp [hc] at h
  | some c =>
    rw [hc] at h
    dsimp only at h ⊢
    split_ifs at h ⊢ with hne
    · unfold dbcCurlSetUrl at h ⊢
      split at h
      · cases h
      · split_ifs at h ⊢
        rw [heldTimeout, heldTimeout, hc]
        rfl
    · rfl

/-- What is added to the handle for a POST. -/
theorem dbcCurlAddPostBody_eq {h h' : CurlHandle} {tout : ℕ} {reqBody : CStr} {run : CurlRun}
    (hadd : dbcCurlAddPostBody h tout reqBody run = some h') :
    h' = { h with
      timeout := if 0 < tout then toLong tout else h.timeout
      postFieldSize := reqBody.length
      postFields := some reqBody } := by
  unfold dbcCurlAddPostBody at hadd
  obtain ⟨h₁, hlim, hadd⟩ := Option.bind_eq_some_iff.mp hadd
  split_ifs at hlim hadd with htout
  · cases hlim
    cases hadd
    rw [if_pos htout]
  · cases hlim
    cases hadd
    rw [if_neg htout]

/-- A POST on a handle that is set to its URL. -/
theorem postOn_cases {t : Transport} {h : CurlHandle} (ht : t.Aligned) (hc : t.curl = some h)
    {kind : PostKind} (hu : t.crrUrl = kind.urlType) (queryTimeout : ℕ) (reqBody : CStr)
    (run : CurlRun) :
    (t.postOn h queryTimeout reqBody run).2.Aligned ∧
      ∀ sent, (t.postOn h queryTimeout reqBody run).1 = some sent →
        (SentAs t queryTimeout kind reqBody sent ↔ TimeoutReaches t queryTimeout) := by
  obtain ⟨hurl, hpost⟩ := ht.some h hc (by rw [hu]; cases kind <;> nofun)
  have hpost' : h.post = true := by
    rw [hpost, hu]
    cases kind <;> rfl
  unfold postOn
  cases hadd : dbcCurlAddPostBody h (t.tout queryTimeout) reqBody run with
  | none => exact ⟨ht.cleanupCurl, nofun⟩
  | some h' =>
    have heq := dbcCurlAddPostBody_eq hadd
    rw [tout_eq_max] at heq
    have halign : ({ t with curl := some h' } : Transport).Aligned := by
      refine ⟨nofun, ?_⟩
      rintro _ ⟨⟩ _
      rw [heq]
      exact ⟨hurl, hpost⟩
    refine ⟨?_, ?_⟩
    · dsimp only
      split_ifs
      · exact halign
      · exact halign.cleanupCurl
    · rintro _ ⟨⟩
      have hheld : t.heldTimeout = h.timeout := by rw [heldTimeout, hc]; rfl
      have htime : SentAs t queryTimeout kind reqBody h' ↔
          h'.timeout = (max t.timeout queryTimeout : ℕ) := by
        refine ⟨fun hs ↦ hs.timeout, fun h0 ↦ ⟨?_, ?_, ?_, ?_, h0⟩⟩ <;> rw [heq]
        · exact hpost'
        · rw [hurl, hu]
      rw [htime, TimeoutReaches, hheld, heq]
      dsimp only
      generalize max t.timeout queryTimeout = n
      by_cases hn : 0 < n
      · rw [if_pos hn, toLong_eq_iff]
        exact ⟨fun hlt ↦ ⟨hlt, fun h0 ↦ absurd h0 hn.ne'⟩, fun hlt ↦ hlt.1⟩
      · have h0 : n = 0 := Nat.eq_zero_of_not_pos hn
        rw [if_neg hn, h0]
        exact ⟨fun ht0 ↦ ⟨by decide, fun _ ↦ ht0⟩, fun hlt ↦ hlt.2 rfl⟩

/-- A POST that is sent: it is the request exactly if its time limit reaches libcurl. -/
theorem curlPost_cases {t : Transport} (ht : t.Aligned) (queryTimeout : ℕ) (kind : PostKind)
    (reqBody : CStr) (run : CurlRun) :
    (t.curlPost queryTimeout kind reqBody run).2.Aligned ∧
      ∀ sent, (t.curlPost queryTimeout kind reqBody run).1 = some sent →
        (SentAs t queryTimeout kind reqBody sent ↔ TimeoutReaches t queryTimeout) := by
  have hmade := handle_keeps ht run
  obtain ⟨hset, hcrr⟩ := directed_cases hmade.aligned kind.urlType run
  unfold curlPost
  dsimp only
  split_ifs with hm hs
  · exact ⟨hmade.aligned, nofun⟩
  · exact ⟨hset.aligned, nofun⟩
  · have hs' : ((t.handle run).2.directed kind.urlType run).1 = true := by simpa using hs
    cases hc : ((t.handle run).2.directed kind.urlType run).2.curl with
    | none => exact ⟨hset.aligned, nofun⟩
    | some h =>
      obtain ⟨halign, hsent⟩ :=
        postOn_cases hset.aligned hc (hcrr hs') queryTimeout reqBody run
      refine ⟨halign, fun sent hsome ↦ ?_⟩
      have hattrs := hmade.attrs.trans hset.attrs
      have hheld := held_of_directed hs'
      rw [sentAs_congr hattrs, timeoutReaches_congr hattrs hheld]
      exact hsent sent hsome

theorem dbcCurlInit_aligned {t : Transport} (ht : t.Aligned) (hcrr : t.crrUrl = .none)
    (run : CurlRun) : (t.dbcCurlInit run).2.Aligned := by
  unfold dbcCurlInit
  split_ifs
  · exact ht.cleanupCurl
  · exact ⟨nofun, fun _ _ hne ↦ absurd hcrr hne⟩

theorem checkServerVersion_aligned {t : Transport} (ht : t.Aligned) (run : CurlRun) :
    (t.checkServerVersion run).2.Aligned := by
  unfold checkServerVersion
  cases hc : t.curl with
  | none => exact ht
  | some h =>
    have hset := (dbcCurlSetUrl_cases ht h .root run).1.aligned
    dsimp only
    split_ifs
    · exact hset
    · exact hset.cleanupCurl
    · exact hset

theorem event_aligned {t : Transport} (ht : t.Aligned) (e : Event) : (t.event e).2.Aligned := by
  cases e with
  | connect attrs run =>
    have hclean : ({ t.cleanupCurl with
        url := attrs.url, closeUrl := attrs.closeUrl, rootUrl := attrs.rootUrl
        timeout := attrs.timeout } : Transport).Aligned := by
      refine ⟨fun _ ↦ ht.cleanupCurl.none (cleanupCurl_curl t), fun h hc ↦ ?_⟩
      change t.cleanupCurl.curl = some h at hc
      rw [cleanupCurl_curl] at hc
      cases hc
    change (doConnect t attrs run).2.Aligned
    unfold doConnect
    dsimp only
    have hinit := dbcCurlInit_aligned hclean (ht.cleanupCurl.none (cleanupCurl_curl t)) run
    split_ifs
    · exact hinit
    · exact checkServerVersion_aligned hinit run
  | setTimeout value =>
    change (Transport.setTimeout t value).Aligned
    unfold Transport.setTimeout
    split_ifs
    · exact ht
    · exact ⟨ht.none, fun h hc hne ↦ by
        obtain ⟨hu, hp⟩ := ht.some h hc hne
        exact ⟨hu.trans (SameAttrs.urlOf ⟨rfl, rfl, rfl, rfl⟩ _), hp⟩⟩
  | post queryTimeout kind reqBody run => exact (curlPost_cases ht queryTimeout kind reqBody run).1
  | disconnect => exact ht.cleanupCurl

/-- One event after the other. -/
def Step (t : Transport) (e : Event) (t' : Transport) : Prop := (t.event e).2 = t'

theorem run_aligned {t : Transport} {es : List Event} (h : Run Step init es t) : t.Aligned :=
  h.invariant (fun t e t' ht hstep ↦ by
    rw [← show (t.event e).2 = t' from hstep]
    exact event_aligned ht e) init_aligned

/-- After any run, a POST goes out as the request it is made for if and only if its time limit
reaches libcurl. -/
theorem curl_post_sent {t : Transport} {es : List Event} (h : Run Step init es t)
    {queryTimeout : ℕ} {kind : PostKind} {reqBody : CStr} {run : CurlRun} {sent : Sent}
    (hsent : (t.curlPost queryTimeout kind reqBody run).1 = some sent) :
    SentAs t queryTimeout kind reqBody sent ↔ TimeoutReaches t queryTimeout :=
  (curlPost_cases (run_aligned h) queryTimeout kind reqBody run).2 sent hsent

/-- A request that libcurl makes without a failure. -/
def smooth : CurlRun :=
  ⟨false, false, false, false, false, false, .answered 200 true true⟩

/-- A connection without a timeout, and a first request with one. -/
def limitedOnce : Transport :=
  ((init.event (.connect ⟨[1], [2], [3], 0⟩ smooth)).2.event (.post 5 .query [65] smooth)).2

theorem limitedOnce_run : Run Step init
    [.connect ⟨[1], [2], [3], 0⟩ smooth, .post 5 .query [65] smooth] limitedOnce :=
  .cons rfl (.cons rfl (.nil _))

/-- A close request with a timeout of its own after it. -/
theorem curl_post_sent_close :
    ∃ sent, (limitedOnce.curlPost 7 .close [66] smooth).1 = some sent ∧
      SentAs limitedOnce 7 .close [66] sent :=
  ⟨_, rfl, (@curl_post_sent _ _ limitedOnce_run 7 .close [66] smooth _ rfl).mpr
    ⟨by decide, nofun⟩⟩

/-- A query without a timeout goes out with the one of the query before it. -/
theorem curl_post_timeout_kept :
    ∃ es t sent, Run Step init es t ∧ (t.curlPost 0 .query [66] smooth).1 = some sent ∧
      ¬ SentAs t 0 .query [66] sent :=
  ⟨_, limitedOnce, _, limitedOnce_run, rfl, fun h ↦ absurd h.timeout (by decide)⟩

end Transport

end EsOdbc
