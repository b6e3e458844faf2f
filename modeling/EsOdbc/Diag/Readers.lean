import EsOdbc.Diag.Record

/-!
# What reading a diagnostic may do

The law of the readers: a call leaves the handle's diagnostic as it is, stores a terminated
prefix of the text it reads inside the buffer, reports the whole text's length, and says
whether the text was cut.  `reads_iff` says which calls obey it.
-/

namespace EsOdbc

/-! ## The law -/

namespace DiagCall

/-- The text that a call reads, if it reads one. -/
def reads (h : DiagHandle) : DiagCall → Option WStr
  | .getDiagRec recNumber _ _ _ _ _ =>
    match h with
    | .env true _ => none
    | _ => if recNumber = 1 ∧ h.diag.state ≠ .s00000 then some h.diag.text.units else none
  | .getDiagField recNumber id _ _ _ =>
    if recNumber ≠ 1 then none
    else match id, h with
      | .classOrigin, _ => some (classOrigin h.diag.state)
      | .subclassOrigin, _ => some (subclassOrigin h.diag.state)
      | .messageText, _ => some h.diag.text.units
      | .sqlstate, _ =>
        if h.diag.state = .s00000 then none else some (wstr h.diag.state.error.code)
      | .connectionName, .dbc c | .connectionName, .stmt _ c | .connectionName, .desc _ c
      | .connectionName, .userDesc _ c => some c.dsn.units
      | .serverName, .dbc c | .serverName, .stmt _ c | .serverName, .desc _ c
      | .serverName, .userDesc _ c => some c.server.units
      | _, _ => none

/-- Whether there is a buffer for the text. -/
def hasDest : DiagCall → Bool
  | .getDiagRec _ _ _ hasText _ _ => hasText
  | .getDiagField _ _ hasInfo _ _ => hasInfo

/-- Whether the length is asked for. -/
def hasLength : DiagCall → Bool
  | .getDiagRec _ _ _ _ _ hasLength => hasLength
  | .getDiagField _ _ _ _ hasLength => hasLength

/-- The bytes of a unit of the lengths: `SQLGetDiagRec` counts characters, `SQLGetDiagField`
bytes. -/
def unit : DiagCall → ℤ
  | .getDiagRec .. => 2
  | .getDiagField .. => 1

/-- The room in the buffer, in bytes. -/
def room : DiagCall → ℤ
  | .getDiagRec _ _ _ _ bufferLength _ => 2 * bufferLength.toInt
  | .getDiagField _ _ _ bufferLength _ => bufferLength.toInt

end DiagCall

/-- A text is written into a room of so many bytes: a terminated prefix, none if there is no
room for the terminator; and the code says whether it is cut. -/
structure Delivered (text : WStr) (room : ℤ) (ret : Option SqlReturn) (written : WStr) : Prop where
  terminated : written = [] ∨ ∃ p, p <+: text ∧ written = p ++ [0]
  inside : 2 * (written.length : ℤ) ≤ room
  none : written = [] → room < 2
  truncated : ret = some .successWithInfo ↔ written ≠ text ++ [0]
  whole : ret = some .success ↔ written = text ++ [0]

/-- A buffer length that is refused: the text is not written. -/
structure Refused (room : ℤ) (ret : Option SqlReturn) (written : WStr) : Prop where
  invalid : room < 0 ∨ room % 2 ≠ 0
  ret : ret = some .error
  written : written = []

/-- The law for one call. -/
structure Faithful (h : DiagHandle) (c : DiagCall) (out : DiagOut) (h' : DiagHandle) : Prop where
  handle : h' = h
  sqlstate : ∀ s, out.sqlstate = some s → s = wstr h.diag.state.error.code ++ [0]
  untouched : (c.reads h = none ∨ c.hasDest = false) → out.written = []
  length : ∀ t, c.reads h = some t → c.hasLength = true →
    out.length = some (2 * t.length / c.unit)
  text : ∀ t, c.reads h = some t → c.hasDest = true →
    Delivered t c.room out.ret out.written ∨ Refused c.room out.ret out.written

/-- The law for one call after the other. -/
def ReadsAll (pre : WText maxDiagText) : DiagHandle → List DiagCall → Prop
  | _, [] => True
  | h, c :: cs => ∃ out h', c.run pre h = .done (out, h') ∧ Faithful h c out h' ∧ ReadsAll pre h' cs

/-! ## The condition -/

/-- Where the message text is read as a field, the buffer has to hold twice what it says, and
nothing may be cut; what is posted otherwise has to be there already. -/
def MessageTextFits (pre : WText maxDiagText) (d : EsodbcDiag) (n : ℤ) : Prop :=
  (2 * ((d.text.units.length : ℤ) + 1) ≤ n ∧ n < 2 ^ 14) ∨
    (n = 0 ∧ d.post pre .s01004 = d) ∨
    ((-2 ^ 14 ≤ n ∧ n < 0 ∨ 2 ^ 14 ≤ n ∧ n % 2 = 1) ∧ d.post pre .sHY090 = d)

/-- The calls that obey the law. -/
def DiagCall.Obeys (pre : WText maxDiagText) (h : DiagHandle) : DiagCall → Prop
  | c@(.getDiagRec _ _ _ hasText bufferLength _) =>
    c.reads h = none ∨ hasText = false ∨
      (-2 ^ 14 ≤ bufferLength.toInt ∧ bufferLength.toInt < 2 ^ 14)
  | .getDiagField recNumber id hasInfo bufferLength _ =>
    recNumber = 1 → match id with
      | .messageText => hasInfo = false ∨ MessageTextFits pre h.diag bufferLength.toInt
      | .native | .columnNumber | .rowNumber => hasInfo = true ∨ h.diag.post pre .sHY009 = h.diag
      | .connectionName | .serverName => ∀ d c, h ≠ .userDesc d c
      | _ => True

/-! ## The writer -/

theorem takeWhile_noNul {src : WStr} (h : 0 ∉ src) : src.takeWhile (· ≠ 0) = src := by
  rw [List.takeWhile_eq_self_iff]
  intro x hx
  exact decide_eq_true fun h0 ↦ h (h0 ▸ hx)

theorem wcsncpy_of_le {src : WStr} (h : 0 ∉ src) {n : ℕ} (hn : n ≤ src.length) :
    wcsncpy src n = src.take n := by
  have hlen : (src.take n).length = n := by rw [List.length_take]; omega
  simp only [wcsncpy, takeWhile_noNul h, hlen, Nat.sub_self, List.replicate_zero, List.append_nil]

theorem wcsncpy_whole {src : WStr} (h : 0 ∉ src) : wcsncpy src (src.length + 1) = src ++ [0] := by
  have htake : src.take (src.length + 1) = src := List.take_of_length_le (Nat.le_succ _)
  have hone : src.length + 1 - src.length = 1 := by omega
  simp only [wcsncpy, takeWhile_noNul h, htake, hone, List.replicate_one]

theorem writeWstr_used (hasDest : Bool) (src : WStr) (avail : ℤ) :
    (TextOut.writeWstr hasDest src avail).used = intToSqlsmallint (src.length * 2) := by
  simp only [TextOut.writeWstr, apply_ite TextOut.used, ite_self]

/-- `write_wstr` on the room that the buffer has. -/
theorem writeWstr_delivered {src : WStr} (h : 0 ∉ src) (avail : ℤ) :
    Delivered src avail (some (TextOut.writeWstr true src avail).ret) (TextOut.writeWstr true src avail).written ∨
      Refused avail (some (TextOut.writeWstr true src avail).ret) (TextOut.writeWstr true src avail).written := by
  unfold TextOut.writeWstr
  simp only [Bool.not_true, Bool.false_eq_true, if_false]
  split_ifs with hbad hcut hpos
  · exact .inr ⟨hbad, rfl, rfl⟩
  · have hlt : (avail / 2).toNat - 1 < src.length := by omega
    rw [wcsncpy_of_le h hlt.le]
    have hlen : (src.take ((avail / 2).toNat - 1) ++ [0]).length = (avail / 2).toNat := by
      rw [List.length_append, List.length_take, List.length_singleton]
      omega
    have hne : src.take ((avail / 2).toNat - 1) ++ [0] ≠ src ++ [0] := by
      intro heq
      have := congrArg List.length heq
      rw [hlen, List.length_append, List.length_singleton] at this
      omega
    refine .inl ⟨.inr ⟨_, List.take_prefix _ _, rfl⟩, ?_, by simp, ?_, ?_⟩
    · rw [hlen]
      omega
    · exact ⟨fun _ ↦ hne, fun _ ↦ rfl⟩
    · exact ⟨nofun, fun heq ↦ absurd heq hne⟩
  · refine .inl ⟨.inl rfl, ?_, ?_, ?_, ?_⟩
    · simp only [List.length_nil]
      omega
    · omega
    · exact ⟨fun _ heq ↦ by simpa using congrArg List.length heq, fun _ ↦ rfl⟩
    · exact ⟨nofun, fun heq ↦ by simpa using congrArg List.length heq⟩
  · rw [wcsncpy_whole h]
    refine .inl ⟨.inr ⟨src, List.prefix_rfl, rfl⟩, ?_, by simp, ?_, ?_⟩
    · rw [List.length_append, List.length_singleton]
      omega
    · exact ⟨nofun, fun hne ↦ absurd rfl hne⟩
    · exact ⟨fun _ ↦ rfl, fun _ ↦ rfl⟩

/-! ## One call -/

theorem intToSqlsmallint_of_lt {i : ℤ} (h₁ : -2 ^ 15 ≤ i) (h₂ : i < 2 ^ 15) :
    intToSqlsmallint i = i := by
  unfold intToSqlsmallint
  omega

theorem DiagHandle.setDiag_eq_iff (h : DiagHandle) (d : EsodbcDiag) :
    h.setDiag d = h ↔ d = h.diag := by
  cases h with
  | dbc c =>
    obtain ⟨d', dsn, server⟩ := c
    simp [setDiag, diag]
  | _ => simp [setDiag, diag]

/-- A call that reads no text and leaves the handle alone. -/
theorem Faithful.of_code {h : DiagHandle} {c : DiagCall} {out : DiagOut} (hreads : c.reads h = none)
    (hw : out.written = []) (hs : out.sqlstate = none) : Faithful h c out h where
  handle := rfl
  sqlstate := by
    rw [hs]
    nofun
  untouched _ := hw
  length := by
    rw [hreads]
    nofun
  text := by
    rw [hreads]
    nofun

/-- A call that writes its text with the room of its buffer, the diagnostics aside. -/
theorem Faithful.of_write {h : DiagHandle} {c : DiagCall} {t : WStr} (avail : ℤ) {out : DiagOut}
    (hreads : c.reads h = some t) (hnul : 0 ∉ t) (hlen : t.length ≤ esodbcDsnMaxAttrLen)
    (havail : c.hasDest = true → avail = c.room)
    (hw : out.written = (TextOut.writeWstr c.hasDest t avail).written)
    (hret : out.ret = some (TextOut.writeWstr c.hasDest t avail).ret)
    (hl : out.length = if c.hasLength then
      some ((TextOut.writeWstr c.hasDest t avail).used / c.unit) else none)
    (hs : ∀ s, out.sqlstate = some s → s = wstr h.diag.state.error.code ++ [0]) :
    Faithful h c out h where
  handle := rfl
  sqlstate := hs
  untouched := by
    rintro (hnone | hdest)
    · rw [hreads] at hnone
      cases hnone
    · rw [hw, hdest]
      rfl
  length := by
    intro t' ht' hlength
    rw [hreads] at ht'
    cases ht'
    have hused : (TextOut.writeWstr c.hasDest t avail).used = 2 * t.length := by
      unfold esodbcDsnMaxAttrLen at hlen
      rw [writeWstr_used, intToSqlsmallint_of_lt (by omega) (by omega)]
      ring
    rw [hl, hlength, if_pos rfl, hused]
  text := by
    intro t' ht' hdest
    rw [hreads] at ht'
    cases ht'
    rw [hw, hret, hdest, ← havail hdest]
    exact writeWstr_delivered hnul avail

theorem classOrigin_cases (s : EsodbcState) :
    classOrigin s = origClassOdbc ∨ classOrigin s = origClassIso := by
  unfold classOrigin
  split_ifs
  · exact .inl rfl
  · exact .inr rfl

theorem subclassOrigin_cases (s : EsodbcState) :
    subclassOrigin s = origClassOdbc ∨ subclassOrigin s = origClassIso := by
  unfold subclassOrigin
  split_ifs
  · exact .inl rfl
  · exact .inr rfl

/-- The texts of the classes fit everywhere. -/
theorem origClass_text {t : WStr} (h : t = origClassOdbc ∨ t = origClassIso) :
    0 ∉ t ∧ t.length ≤ esodbcDsnMaxAttrLen := by
  rcases h with rfl | rfl
  · exact ⟨by decide +kernel, by decide +kernel⟩
  · exact ⟨by decide +kernel, by decide +kernel⟩

/-- What `write_wstr` comes to, by the room it is given. -/
theorem writeWstr_cases {src : WStr} (hnul : 0 ∉ src) (avail : ℤ) :
    ((avail < 0 ∨ avail % 2 ≠ 0) ∧ TextOut.writeWstr true src avail =
      ⟨.error, [], intToSqlsmallint (src.length * 2), some .sHY090⟩) ∨
    (0 ≤ avail ∧ avail / 2 ≤ src.length ∧ ∃ w, w.length = (avail / 2).toNat ∧
      TextOut.writeWstr true src avail =
        ⟨.successWithInfo, w, intToSqlsmallint (src.length * 2), some .s01004⟩) ∨
    (0 ≤ avail ∧ src.length < avail / 2 ∧ TextOut.writeWstr true src avail =
      ⟨.success, src ++ [0], intToSqlsmallint (src.length * 2), none⟩) := by
  unfold TextOut.writeWstr
  simp only [Bool.not_true, Bool.false_eq_true, if_false]
  split_ifs with hbad hcut hpos
  · exact .inl ⟨hbad, rfl⟩
  · refine .inr (.inl ⟨by omega, by omega, _, ?_, rfl⟩)
    rw [wcsncpy_of_le hnul (by omega), List.length_append, List.length_take,
      List.length_singleton]
    omega
  · exact .inr (.inl ⟨by omega, by omega, [], by simp only [List.length_nil]; omega, rfl⟩)
  · exact .inr (.inr ⟨by omega, by omega, by rw [wcsncpy_whole hnul]⟩)

/-- The message text as a field. -/
theorem messageText_iff (pre : WText maxDiagText) (h : DiagHandle) (bufferLength : BitVec 16)
    (hasLength : Bool) :
    let c : DiagCall := .getDiagField 1 .messageText true bufferLength hasLength
    let t := TextOut.writeWstr true h.diag.text.units (intToSqlsmallint (bufferLength.toInt * 2))
    Faithful h c (t.toOut hasLength 1) (h.posted pre t.posted) ↔
      MessageTextFits pre h.diag bufferLength.toInt := by
  intro c t
  have hlo := bufferLength.le_two_mul_toInt
  have hhi := bufferLength.two_mul_toInt_lt
  have hfits := h.diag.text.fits
  have hused : t.used = 2 * h.diag.text.units.length := by
    unfold maxDiagText at hfits
    rw [writeWstr_used, intToSqlsmallint_of_lt (by omega) (by omega)]
    ring
  have hreads : c.reads h = some h.diag.text.units := rfl
  have hroom : c.room = bufferLength.toInt := rfl
  -- with the text as the law wants it, the diagnostic is all that is left
  have hiff : Faithful h c (t.toOut hasLength 1) (h.posted pre t.posted) ↔
      h.posted pre t.posted = h ∧
        (Delivered h.diag.text.units bufferLength.toInt (some t.ret) t.written ∨
          Refused bufferLength.toInt (some t.ret) t.written) := by
    constructor
    · exact fun hf ↦ ⟨hf.handle, hf.text _ hreads rfl⟩
    · rintro ⟨hh, htext⟩
      refine ⟨hh, nofun, ?_, ?_, ?_⟩
      · rintro (h0 | h0) <;> cases h0
      · rintro _ ⟨⟩ hl
        change (if hasLength then some (t.used / 1) else none) = _
        rw [show hasLength = true from hl, if_pos rfl, hused]
        rfl
      · rintro _ ⟨⟩ -
        exact htext
  have hposted : ∀ s, h.posted pre (some s) = h ↔ h.diag.post pre s = h.diag := fun s ↦
    h.setDiag_eq_iff _
  have ht : t = TextOut.writeWstr true h.diag.text.units (intToSqlsmallint (bufferLength.toInt * 2)) :=
    rfl
  have ha : intToSqlsmallint (bufferLength.toInt * 2) =
      (bufferLength.toInt * 2 + 2 ^ 15) % 2 ^ 16 - 2 ^ 15 := rfl
  rw [hiff, MessageTextFits]
  clear_value t c
  clear hiff hreads hroom hused
  generalize bufferLength.toInt = n at hlo hhi ht ha ⊢
  generalize intToSqlsmallint (n * 2) = a at ht ha
  rcases writeWstr_cases h.diag.text.noNul a with ⟨ha', hw⟩ | ⟨ha', hle, w, hwlen, hw⟩ | ⟨ha', hlt, hw⟩
  · -- refused: right for a length that is not valid
    rw [ht, hw, hposted]
    constructor
    · rintro ⟨hpost, hd | hr⟩
      · have := hd.none rfl
        exact .inr (.inr ⟨by omega, hpost⟩)
      · exact .inr (.inr ⟨by have := hr.invalid; omega, hpost⟩)
    · rintro (hfit | ⟨hn, -⟩ | ⟨hn, hpost⟩)
      · omega
      · omega
      · exact ⟨hpost, .inr ⟨by omega, rfl, rfl⟩⟩
  · -- cut: inside the buffer only if nothing is written
    rw [ht, hw, hposted]
    constructor
    · rintro ⟨hpost, hd | hr⟩
      · have := hd.inside
        dsimp only at this
        exact .inr (.inl ⟨by omega, hpost⟩)
      · exact absurd hr.ret nofun
    · rintro (hfit | ⟨hn, hpost⟩ | ⟨hn, -⟩)
      · omega
      · have hnil : w = [] := List.eq_nil_of_length_eq_zero (by omega)
        subst hnil
        refine ⟨hpost, .inl ⟨.inl rfl, by simp [hn], fun _ ↦ by omega, ?_, ?_⟩⟩
        · exact ⟨fun _ heq ↦ by simpa using congrArg List.length heq, fun _ ↦ rfl⟩
        · exact ⟨nofun, fun heq ↦ by simpa using congrArg List.length heq⟩
      · omega
  · -- whole
    rw [ht, hw]
    constructor
    · rintro ⟨-, hd | hr⟩
      · have := hd.inside
        rw [List.length_append, List.length_singleton] at this
        push_cast at this
        exact .inl ⟨by omega, by omega⟩
      · exact absurd hr.ret nofun
    · rintro (⟨hfit, -⟩ | ⟨hn, -⟩ | ⟨hn, -⟩)
      · refine ⟨rfl, .inl ⟨.inr ⟨_, List.prefix_rfl, rfl⟩, ?_, by simp, ?_, ?_⟩⟩
        · rw [List.length_append, List.length_singleton]
          push_cast
          omega
        · exact ⟨nofun, fun hne ↦ absurd rfl hne⟩
        · exact ⟨fun _ ↦ rfl, fun _ ↦ rfl⟩
      · omega
      · omega

/-- `SQLGetDiagRec` reads no text, or it reads the message. -/
theorem getDiagRec_cases (h : DiagHandle) (hasState hasNative hasText : Bool)
    (bufferLength : BitVec 16) (hasLength : Bool) :
    let c : DiagCall := .getDiagRec 1 hasState hasNative hasText bufferLength hasLength
    let out := esSQLGetDiagRecW h hasState hasNative hasText bufferLength.toInt hasLength
    (c.reads h = none ∧ out.written = [] ∧ out.sqlstate = none) ∨
    (c.reads h = some h.diag.text.units ∧
      out = { (TextOut.writeWstr hasText h.diag.text.units
          (intToSqlsmallint (bufferLength.toInt * 2))).toOut hasLength 2 with
        sqlstate := if hasState then some (wstr h.diag.state.error.code ++ [0]) else none
        number := if hasNative then some h.diag.nativeCode else none }) := by
  intro c out
  have key : ∀ h : DiagHandle, (∀ d, h ≠ .env true d) →
      c.reads h = (if h.diag.state ≠ .s00000 then some h.diag.text.units else none) ∧
      esSQLGetDiagRecW h hasState hasNative hasText bufferLength.toInt hasLength =
        if h.diag.state = .s00000 then .code (some .noData)
        else { (TextOut.writeWstr hasText h.diag.text.units
            (intToSqlsmallint (bufferLength.toInt * 2))).toOut hasLength 2 with
          sqlstate := if hasState then some (wstr h.diag.state.error.code ++ [0]) else none
          number := if hasNative then some h.diag.nativeCode else none } := by
    intro h hne
    cases h with
    | env shared d =>
      cases shared with
      | true => exact absurd rfl (hne d)
      | false => exact ⟨by simp [c, DiagCall.reads], rfl⟩
    | _ => exact ⟨by simp [c, DiagCall.reads], rfl⟩
  by_cases hshared : ∃ d, h = .env true d
  · obtain ⟨d, rfl⟩ := hshared
    exact .inl ⟨rfl, rfl, rfl⟩
  · obtain ⟨hreads, hout⟩ := key h fun d hd ↦ hshared ⟨d, hd⟩
    by_cases hs : h.diag.state = .s00000
    · rw [if_neg (not_not.mpr hs)] at hreads
      rw [if_pos hs] at hout
      exact .inl ⟨hreads, by rw [show out = _ from hout]; rfl, by rw [show out = _ from hout]; rfl⟩
    · rw [if_pos hs] at hreads
      rw [if_neg hs] at hout
      exact .inr ⟨hreads, hout⟩

theorem getDiagRec_iff (h : DiagHandle) (hasState hasNative hasText : Bool)
    (bufferLength : BitVec 16) (hasLength : Bool) :
    let c : DiagCall := .getDiagRec 1 hasState hasNative hasText bufferLength hasLength
    Faithful h c (esSQLGetDiagRecW h hasState hasNative hasText bufferLength.toInt hasLength) h ↔
      c.reads h = none ∨ hasText = false ∨
        (-2 ^ 14 ≤ bufferLength.toInt ∧ bufferLength.toInt < 2 ^ 14) := by
  intro c
  have hlo := bufferLength.le_two_mul_toInt
  have hhi := bufferLength.two_mul_toInt_lt
  have ha : intToSqlsmallint (bufferLength.toInt * 2) =
      (bufferLength.toInt * 2 + 2 ^ 15) % 2 ^ 16 - 2 ^ 15 := rfl
  have hroom : c.room = 2 * bufferLength.toInt := rfl
  rcases getDiagRec_cases h hasState hasNative hasText bufferLength hasLength with
    ⟨hreads, hw, hs⟩ | ⟨hreads, hout⟩
  · exact iff_of_true (.of_code hreads hw hs) (.inl hreads)
  · constructor
    · intro hf
      by_cases htext : hasText = true
      · refine .inr (.inr ?_)
        have hd := hf.text _ hreads htext
        rw [hout, hroom] at hd
        change Delivered _ _ (some (TextOut.writeWstr hasText _ _).ret)
            (TextOut.writeWstr hasText _ _).written ∨
          Refused _ (some (TextOut.writeWstr hasText _ _).ret)
            (TextOut.writeWstr hasText _ _).written at hd
        rw [htext] at hd
        generalize intToSqlsmallint (bufferLength.toInt * 2) = a at ha hd
        rcases writeWstr_cases h.diag.text.noNul a with
          ⟨ha', hw⟩ | ⟨ha', hle, w, hwlen, hw⟩ | ⟨ha', hlt, hw⟩
        · rw [hw] at hd
          rcases hd with hd | hr
          · have := hd.none rfl
            omega
          · have := hr.invalid
            omega
        · rw [hw] at hd
          rcases hd with hd | hr
          · have := hd.inside
            dsimp only at this
            omega
          · exact absurd hr.ret nofun
        · rw [hw] at hd
          rcases hd with hd | hr
          · have := hd.inside
            dsimp only at this
            omega
          · exact absurd hr.ret nofun
      · exact .inr (.inl (Bool.eq_false_iff.mpr htext))
    · intro hok
      refine .of_write (intToSqlsmallint (bufferLength.toInt * 2)) hreads
        h.diag.text.noNul (h.diag.text.fits.trans (by decide)) ?_ (by rw [hout]; rfl)
        (by rw [hout]; rfl) (by rw [hout]; rfl) ?_
      · intro hdest
        rcases hok with hnone | hfalse | ⟨h₁, h₂⟩
        · rw [hreads] at hnone
          cases hnone
        · rw [show hasText = true from hdest] at hfalse
          cases hfalse
        · rw [hroom]
          omega
      · intro s hs
        rw [hout] at hs
        change (if hasState = true then some (wstr h.diag.state.error.code ++ [0]) else none) = some s at hs
        split_ifs at hs
        exact (Option.some.inj hs).symm

theorem exists_done_iff {o : DiagOut} {k : DiagHandle} {P : DiagOut → DiagHandle → Prop} :
    (∃ out h', Exec.done (o, k) = .done (out, h') ∧ P out h') ↔ P o k :=
  ⟨fun ⟨_, _, heq, hp⟩ ↦ by cases heq; exact hp, fun hp ↦ ⟨o, k, rfl, hp⟩⟩

/-- A number is read without a change, unless there is nowhere to put it. -/
theorem diagNumber_iff (pre : WText maxDiagText) (h : DiagHandle) {c : DiagCall} (n : ℤ)
    (hasInfo : Bool) (hreads : c.reads h = none) :
    Faithful h c (diagNumber pre h n hasInfo).1 (diagNumber pre h n hasInfo).2 ↔
      hasInfo = true ∨ h.diag.post pre .sHY009 = h.diag := by
  unfold diagNumber
  cases hasInfo with
  | true => exact iff_of_true (.of_code hreads rfl rfl) (.inl rfl)
  | false =>
    have hhandle : h.posted pre (some .sHY009) = h ↔ h.diag.post pre .sHY009 = h.diag :=
      h.setDiag_eq_iff _
    simp only [Bool.false_eq_true, if_false, false_or]
    rw [← hhandle]
    constructor
    · exact fun hf ↦ hf.handle
    · intro hh
      rw [hh]
      exact .of_code hreads rfl rfl

/-- A name of the connection, where there is one. -/
theorem diagName_iff (h : DiagHandle) (id : DiagId) (name : ConnHandle → WText esodbcDsnMaxAttrLen)
    (hasInfo : Bool) (bufferLength : BitVec 16) (hasLength : Bool)
    (hreads : ∀ c, (h = .dbc c ∨ (∃ d, h = .stmt d c) ∨ ∃ d, h = .desc d c) →
      (DiagCall.getDiagField 1 id hasInfo bufferLength hasLength).reads h = some (name c).units)
    (henv : ∀ shared d, h = .env shared d →
      (DiagCall.getDiagField 1 id hasInfo bufferLength hasLength).reads h = none) :
    (∃ out h', diagName h (fun c ↦ (name c).units) hasInfo bufferLength.toInt hasLength =
        .done (out, h') ∧
      Faithful h (.getDiagField 1 id hasInfo bufferLength hasLength) out h') ↔
    ∀ d c, h ≠ .userDesc d c := by
  have named : ∀ c, (h = .dbc c ∨ (∃ d, h = .stmt d c) ∨ ∃ d, h = .desc d c) →
      Faithful h (.getDiagField 1 id hasInfo bufferLength hasLength)
        ((TextOut.writeWstr hasInfo (name c).units bufferLength.toInt).toOut hasLength 1) h :=
    fun c hc ↦ .of_write _ (hreads c hc) (name c).noNul (name c).fits (fun _ ↦ rfl) rfl rfl rfl nofun
  cases h with
  | env shared d =>
    refine iff_of_true (exists_done_iff.mpr (.of_code (henv shared d rfl) rfl rfl)) ?_
    exact fun _ _ ↦ nofun
  | dbc c => exact iff_of_true (exists_done_iff.mpr (named c (.inl rfl))) fun _ _ ↦ nofun
  | stmt d c =>
    exact iff_of_true (exists_done_iff.mpr (named c (.inr (.inl ⟨d, rfl⟩)))) fun _ _ ↦ nofun
  | desc d c =>
    exact iff_of_true (exists_done_iff.mpr (named c (.inr (.inr ⟨d, rfl⟩)))) fun _ _ ↦ nofun
  | userDesc d c =>
    refine iff_of_false ?_ fun hne ↦ hne d c rfl
    rintro ⟨out, h', heq, -⟩
    cases heq

theorem getDiagField_iff (pre : WText maxDiagText) (h : DiagHandle) (id : DiagId) (hasInfo : Bool)
    (bufferLength : BitVec 16) (hasLength : Bool) :
    (∃ out h', esSQLGetDiagFieldW pre h id hasInfo bufferLength.toInt hasLength = .done (out, h') ∧
      Faithful h (.getDiagField 1 id hasInfo bufferLength hasLength) out h') ↔
    (DiagCall.getDiagField 1 id hasInfo bufferLength hasLength).Obeys pre h := by
  -- the fields without a text that post nothing
  have coded : ∀ {out : DiagOut}, out.written = [] → out.sqlstate = none →
      (DiagCall.getDiagField 1 id hasInfo bufferLength hasLength).reads h = none →
      ∃ out' h', Exec.done (out, h) = .done (out', h') ∧
        Faithful h (.getDiagField 1 id hasInfo bufferLength hasLength) out' h' :=
    fun hw hs hreads ↦ exists_done_iff.mpr (.of_code hreads hw hs)
  -- the fields with a text that the dummy handle takes the diagnostics of
  have written : ∀ {t : WStr}, 0 ∉ t → t.length ≤ esodbcDsnMaxAttrLen →
      (DiagCall.getDiagField 1 id hasInfo bufferLength hasLength).reads h = some t →
      ∃ out' h', Exec.done ((TextOut.writeWstr hasInfo t bufferLength.toInt).toOut hasLength 1, h) =
          .done (out', h') ∧
        Faithful h (.getDiagField 1 id hasInfo bufferLength hasLength) out' h' :=
    fun hnul hlen hreads ↦ exists_done_iff.mpr
      (.of_write _ hreads hnul hlen (fun _ ↦ rfl) rfl rfl rfl nofun)
  cases id with
  | number =>
    refine iff_of_true ?_ fun _ ↦ trivial
    cases hasInfo
    · exact coded rfl rfl rfl
    · exact coded rfl rfl rfl
  | cursorRowCount | dynamicFunction | dynamicFunctionCode | rowCount | other =>
    exact iff_of_true (coded rfl rfl rfl) fun _ ↦ trivial
  | classOrigin =>
    obtain ⟨hnul, hlen⟩ := origClass_text (classOrigin_cases h.diag.state)
    exact iff_of_true (written hnul hlen rfl) fun _ ↦ trivial
  | subclassOrigin =>
    obtain ⟨hnul, hlen⟩ := origClass_text (subclassOrigin_cases h.diag.state)
    exact iff_of_true (written hnul hlen rfl) fun _ ↦ trivial
  | connectionName =>
    refine (diagName_iff h .connectionName ConnHandle.dsn hasInfo bufferLength hasLength ?_ ?_).trans
      ⟨fun hne _ ↦ hne, fun hne ↦ hne rfl⟩
    · rintro c (rfl | ⟨d, rfl⟩ | ⟨d, rfl⟩) <;> rfl
    · rintro shared d rfl
      rfl
  | serverName =>
    refine (diagName_iff h .serverName ConnHandle.server hasInfo bufferLength hasLength ?_ ?_).trans
      ⟨fun hne _ ↦ hne, fun hne ↦ hne rfl⟩
    · rintro c (rfl | ⟨d, rfl⟩ | ⟨d, rfl⟩) <;> rfl
    · rintro shared d rfl
      rfl
  | messageText =>
    rw [esSQLGetDiagFieldW, exists_done_iff]
    cases hasInfo with
    | true =>
      refine (messageText_iff pre h bufferLength hasLength).trans ?_
      exact ⟨fun hm _ ↦ .inr hm, fun ho ↦ (ho rfl).resolve_left nofun⟩
    | false =>
      refine iff_of_true ?_ fun _ ↦ .inl rfl
      exact .of_write _ rfl h.diag.text.noNul (h.diag.text.fits.trans (by decide)) nofun rfl rfl rfl nofun
  | native | columnNumber | rowNumber =>
    refine exists_done_iff.trans ((diagNumber_iff pre h _ hasInfo rfl).trans ?_)
    exact ⟨fun hm _ ↦ hm, fun ho ↦ ho rfl⟩
  | sqlstate =>
    refine iff_of_true ?_ fun _ ↦ trivial
    rw [esSQLGetDiagFieldW]
    by_cases hs : h.diag.state = .s00000
    · rw [if_pos hs]
      exact coded rfl rfl (by simp [DiagCall.reads, hs])
    · rw [if_neg hs]
      refine written h.diag.state.code_noNul ?_ (by simp [DiagCall.reads, hs])
      rw [h.diag.state.code_length]
      decide

/-- A call of either reader obeys the law exactly under its condition. -/
theorem run_iff (pre : WText maxDiagText) (h : DiagHandle) (c : DiagCall) :
    (∃ out h', c.run pre h = .done (out, h') ∧ Faithful h c out h') ↔ c.Obeys pre h := by
  cases c with
  | getDiagRec recNumber hasState hasNative hasText bufferLength hasLength =>
    rw [DiagCall.run]
    by_cases hone : recNumber = 1
    · subst hone
      rw [if_neg (by decide), if_neg (by decide), exists_done_iff]
      exact getDiagRec_iff h hasState hasNative hasText bufferLength hasLength
    · have hreads : (DiagCall.getDiagRec recNumber hasState hasNative hasText bufferLength
          hasLength).reads h = none := by
        have hif : (if recNumber = 1 ∧ h.diag.state ≠ .s00000 then some h.diag.text.units
            else none) = none := if_neg fun h1 ↦ hone h1.1
        cases h with
        | env shared d =>
          cases shared
          · exact hif
          · rfl
        | _ => exact hif
      refine iff_of_true ?_ (.inl hreads)
      split_ifs with h0 h1
      · exact exists_done_iff.mpr (.of_code hreads rfl rfl)
      · exact exists_done_iff.mpr (.of_code hreads rfl rfl)
      · omega
  | getDiagField recNumber id hasInfo bufferLength hasLength =>
    rw [DiagCall.run]
    by_cases hone : recNumber = 1
    · subst hone
      rw [if_neg (by decide), if_neg (by decide)]
      exact getDiagField_iff pre h id hasInfo bufferLength hasLength
    · have hreads : (DiagCall.getDiagField recNumber id hasInfo bufferLength hasLength).reads h =
          none := if_pos hone
      refine iff_of_true ?_ fun h1 ↦ absurd h1 hone
      split_ifs with h0 h1
      · exact exists_done_iff.mpr (.of_code hreads rfl rfl)
      · exact exists_done_iff.mpr (.of_code hreads rfl rfl)
      · omega

/-! ## All calls -/

/-- Any sequence of calls obeys the law exactly if each of its calls does on the handle as it
is. -/
theorem readsAll_iff (pre : WText maxDiagText) (h : DiagHandle) (cs : List DiagCall) :
    ReadsAll pre h cs ↔ ∀ c ∈ cs, c.Obeys pre h := by
  induction cs with
  | nil => exact iff_of_true trivial nofun
  | cons c cs ih =>
    rw [List.forall_mem_cons, ← run_iff pre h c, ← ih]
    constructor
    · rintro ⟨out, h', hrun, hf, hrest⟩
      obtain rfl := hf.handle
      exact ⟨⟨out, h', hrun, hf⟩, hrest⟩
    · rintro ⟨⟨out, h', hrun, hf⟩, hrest⟩
      have hh := hf.handle
      exact ⟨out, h', hrun, hf, hh ▸ hrest⟩

/-- A statement with the diagnostic "Invalid descriptor index" of a driver without a prefix. -/
def badIndex : DiagHandle :=
  let clear : EsodbcDiag := ⟨.s00000, ⟨[], nofun, by decide⟩, 0, -1, -1⟩
  .stmt (clear.post ⟨[], nofun, by decide⟩ .s07009) ⟨clear, ⟨[], nofun, by decide⟩, ⟨[], nofun, by decide⟩⟩

/-- Its message read as a field into ten bytes: the diagnostic becomes that of the truncation. -/
theorem readsAll_message_text :
    ¬ ReadsAll ⟨[], nofun, by decide⟩ badIndex [.getDiagField 1 .messageText true 10 true] := by
  rintro ⟨out, h', hrun, hf, -⟩
  have hh := hf.handle
  subst hh
  have hstate : (esSQLGetDiagFieldW ⟨[], nofun, by decide⟩ badIndex .messageText true 10 true).bind
      (fun r ↦ .done r.2.diag.state) = .done EsodbcState.s01004 := rfl
  rw [show esSQLGetDiagFieldW ⟨[], nofun, by decide⟩ badIndex .messageText true 10 true =
    .done (out, badIndex) from hrun] at hstate
  cases hstate

end EsOdbc
