import EsOdbc.Dsn.Segments

/-!
# Round trip of a connection string

Which attributes come back from the connection string that is written for them, and what
reaches the connection of the three that `EsSQLConnectW` is given.
-/

namespace EsOdbc

/-! ## The text -/

/-- The text of one attribute, none for an empty value. -/
def segment (attrs : DsnAttrs) (a : DsnAttr) : WStr :=
  if attrs.val a = [] then [] else attrText a.keyword (attrs.val a) (needsBraces (attrs.val a))

/-- The text of some attributes. -/
def segments (attrs : DsnAttrs) (as : List DsnAttr) : WStr := as.flatMap (segment attrs)

theorem length_attrText {v : WStr} (keyword : WStr) (braces : Bool) (h0 : 0 ∉ v) :
    (attrText keyword v braces).length =
      keyword.length + 1 + v.length + (if braces then 2 else 0) + 1 := by
  simp only [attrText, takeWhile_nul h0, List.length_append, List.length_cons]
  cases braces
  · simp only [if_neg Bool.false_ne_true, List.length_nil]
    omega
  · simp only [if_true, List.length_append, List.length_cons, List.length_nil]
    omega

/-- A text that fits is put at the position. -/
theorem take_swprintf {buf text : WStr} {pos : ℕ} (h : pos + text.length < buf.length) :
    (swprintf buf pos text).take (pos + text.length) = buf.take pos ++ text ∧
      (swprintf buf pos text).length = buf.length := by
  have htake : text.take (buf.length - pos - 1) = text := List.take_of_length_le (by omega)
  have hpos : (buf.take pos).length = pos := List.length_take_of_le (by omega)
  rw [swprintf, htake]
  constructor
  · rw [List.take_append, hpos, List.take_of_length_le (by omega), Nat.add_sub_cancel_left,
      List.append_assoc, List.take_left]
  · simp only [List.length_append, hpos, List.length_drop, List.length_singleton]
    omega

theorem writeAttr_le (attrs : DsnAttrs) (out : WStr × ℕ) (a : DsnAttr) :
    out.2 ≤ (writeAttr attrs out a).2 := by
  rw [writeAttr]
  by_cases h : attrs.val a = []
  · rw [if_neg (not_not.mpr h)]
  · rw [if_pos h]
    exact Nat.le_add_right _ _

theorem foldl_writeAttr_le (attrs : DsnAttrs) (as : List DsnAttr) (out : WStr × ℕ) :
    out.2 ≤ (as.foldl (writeAttr attrs) out).2 := by
  induction as generalizing out with
  | nil => exact Nat.le_refl _
  | cons a as ih => exact (writeAttr_le attrs out a).trans (ih _)

/-- One turn of the writer, with room for its text. -/
theorem writeAttr_segment {attrs : DsnAttrs} {out : WStr × ℕ} {a : DsnAttr}
    (h0 : 0 ∉ attrs.val a) (hroom : (writeAttr attrs out a).2 < out.1.length) :
    (writeAttr attrs out a).1.length = out.1.length ∧
      (writeAttr attrs out a).1.take (writeAttr attrs out a).2 =
        out.1.take out.2 ++ segment attrs a := by
  rw [writeAttr] at hroom ⊢
  by_cases hne : attrs.val a = []
  · simp only [segment, hne, ne_eq, not_true_eq_false, if_false, if_true, List.append_nil, true_and]
  · rw [if_pos hne] at hroom ⊢
    have hlen := length_attrText a.keyword (needsBraces (attrs.val a)) h0
    simp only at hroom ⊢
    rw [← hlen] at hroom ⊢
    rw [if_pos (by omega), segment, if_neg hne]
    exact (take_swprintf hroom).symm

/-- Without terminators in the values, and with room, the writer leaves their text. -/
theorem foldl_writeAttr {attrs : DsnAttrs} (h0 : ∀ a, 0 ∉ attrs.val a) (as : List DsnAttr)
    (out : WStr × ℕ) (hroom : (as.foldl (writeAttr attrs) out).2 < out.1.length) :
    (as.foldl (writeAttr attrs) out).1.take (as.foldl (writeAttr attrs) out).2 =
      out.1.take out.2 ++ segments attrs as := by
  induction as generalizing out with
  | nil => exact (List.append_nil _).symm
  | cons a as ih =>
    rw [List.foldl_cons] at hroom ⊢
    have hle := foldl_writeAttr_le attrs as (writeAttr attrs out a)
    obtain ⟨hlen, htake⟩ := writeAttr_segment (h0 a) (hle.trans_lt hroom)
    rw [ih _ (by rwa [hlen]), htake, List.append_assoc]
    rfl

theorem write_segments {attrs : DsnAttrs} {buf : WStr} (h0 : ∀ a, 0 ∉ attrs.val a)
    (hroom : (writeConnectionString attrs buf).2 < buf.length) :
    (writeConnectionString attrs buf).1.take (writeConnectionString attrs buf).2 =
      segments attrs DsnAttr.all :=
  foldl_writeAttr h0 _ _ hroom

/-! ## The values that come back -/

/-- No value that the parser stores holds a terminator or starts with a brace. -/
theorem parse_clean {attrs out : DsnAttrs} {text : WStr} (hattrs : ∀ a, Clean (attrs.val a))
    (h : parseConnectionString attrs text = some out) (a : DsnAttr) : Clean (out.val a) := by
  induction hn : text.length using Nat.strong_induction_on generalizing attrs text with
  | _ n ih =>
    subst hn
    rw [parseConnectionString_eq] at h
    split_ifs at h
    · cases h
      exact hattrs a
    · obtain ⟨⟨attrs', rest⟩, hturn, hrest⟩ := Option.bind_eq_some_iff.mp h
      have hlt : rest.length < text.length :=
        (parseTurn_length hturn).trans_le (length_skipWs_le true text)
      refine ih _ hlt (fun b ↦ ?_) hrest rfl
      obtain ⟨kw, r, t, -, -, ⟨rfl, -⟩ | ⟨u, value, r, -, hread, hassign⟩⟩ := parseTurn_cases hturn
      · exact hattrs b
      · rcases assign_val hassign b with hb | hb
        · rw [hb]
          exact hattrs b
        · rw [hb]
          exact parseToken_clean hread

theorem Plain.nil : Plain [] := ⟨List.not_mem_nil, clean_nil.2⟩

theorem Plain.clean {v : WStr} (h : Plain v) : Clean v := by
  refine ⟨h.1, ?_⟩
  have h2 := h.2
  cases hb : needsBraces v with
  | false => rwa [hb, if_neg Bool.false_ne_true] at h2
  | true =>
    rw [hb, if_pos rfl] at h2
    exact fun h ↦ h2.1 (List.mem_of_mem_head? h)

/-- A clean value that is not plain is put in braces and has one in it. -/
theorem Clean.broken {v : WStr} (h : Clean v) (hv : ¬Plain v) :
    needsBraces v = true ∧ ¬Inner v := by
  cases hb : needsBraces v with
  | false => exact absurd ⟨h.1, by rw [hb, if_neg Bool.false_ne_true]; exact h.2⟩ hv
  | true => exact ⟨rfl, fun hi ↦ hv ⟨h.1, by rw [hb, if_pos rfl]; exact hi.2⟩⟩

/-- Plain values come back over what was there, whatever they are. -/
theorem parse_segments {attrs : DsnAttrs} (acc : DsnAttrs) {as : List DsnAttr}
    (hplain : ∀ a ∈ as, Plain (attrs.val a)) :
    ∃ out, parseConnectionString acc (segments attrs as) = some out ∧
      ∀ a, out.val a = if a ∈ as ∧ attrs.val a ≠ [] then attrs.val a else acc.val a := by
  induction as generalizing acc with
  | nil => exact ⟨acc, rfl, fun a ↦ (if_neg fun h ↦ List.not_mem_nil h.1).symm⟩
  | cons b as ih =>
    rw [List.forall_mem_cons] at hplain
    rw [segments, List.flatMap_cons]
    by_cases hne : attrs.val b = []
    · obtain ⟨out, hout, hval⟩ := ih acc hplain.2
      rw [segment, if_pos hne, List.nil_append]
      refine ⟨out, hout, fun a ↦ ?_⟩
      rw [hval a]
      by_cases hab : a = b
      · subst hab
        simp [hne]
      · simp [hab]
    · rw [segment, if_neg hne, parse_plain acc b (attrs.fits b) hplain.1 hne]
      obtain ⟨out, hout, hval⟩ := ih (acc.set b (attrs.val b) (attrs.fits b)) hplain.2
      refine ⟨out, hout, fun a ↦ ?_⟩
      rw [hval a]
      by_cases hab : a = b
      · subst hab
        simp [hne, DsnAttrs.set]
      · simp [hab, DsnAttrs.set]

/-- All values come back only if they are plain: the last one that is not has been read back
shorter, and none after it changes that. -/
theorem plain_of_parse_segments {attrs acc out : DsnAttrs} {as : List DsnAttr} (has : as.Nodup)
    (hclean : ∀ a ∈ as, Clean (attrs.val a))
    (hout : parseConnectionString acc (segments attrs as) = some out)
    (hval : ∀ a ∈ as, out.val a = attrs.val a) : ∀ a ∈ as, Plain (attrs.val a) := by
  induction as generalizing acc with
  | nil => exact List.forall_mem_nil _
  | cons b as ih =>
    rw [List.nodup_cons] at has
    rw [List.forall_mem_cons] at hclean hval ⊢
    have ih {acc : DsnAttrs} (hout : parseConnectionString acc (segments attrs as) = some out) :=
      ih has.2 hclean.2 hout hval.2
    rw [segments, List.flatMap_cons] at hout
    by_cases hb : Plain (attrs.val b)
    · refine ⟨hb, ?_⟩
      by_cases hne : attrs.val b = []
      · rw [segment, if_pos hne, List.nil_append] at hout
        exact ih hout
      · rw [segment, if_neg hne, parse_plain acc b (attrs.fits b) hb hne] at hout
        exact ih hout
    · have hne : attrs.val b ≠ [] := fun h ↦ hb (h ▸ Plain.nil)
      obtain ⟨hbraces, hinner⟩ := hclean.1.broken hb
      rw [segment, if_neg hne] at hout
      rcases parse_broken acc b (attrs.fits b) hclean.1.1 hbraces hinner (segments attrs as) with
        hnone | ⟨acc', hlt, heq⟩
      · exact absurd (hnone.symm.trans hout) (Option.some_ne_none out).symm
      · have hrest := heq.symm.trans hout
        have hplain := ih hrest
        obtain ⟨out', hout', hkeep⟩ := parse_segments acc' hplain
        obtain rfl : out = out' := Option.some.inj (hrest.symm.trans hout')
        rw [← hval.1, hkeep b, if_neg fun h ↦ has.1 h.1] at hlt
        exact absurd hlt (Nat.lt_irrefl _)

theorem DsnAttr.mem_all (a : DsnAttr) : a ∈ DsnAttr.all := by
  cases a <;> decide

theorem DsnAttr.nodup_all : DsnAttr.all.Nodup := by
  decide

/-- With room, the attributes come back exactly when all of them are plain. -/
theorem parse_write_iff {attrs : DsnAttrs} {buf : WStr}
    (hroom : (writeConnectionString attrs buf).2 < buf.length) :
    parseConnectionString .init
        ((writeConnectionString attrs buf).1.take (writeConnectionString attrs buf).2) =
      some attrs ↔ ∀ a, Plain (attrs.val a) := by
  constructor
  · intro hout
    have hclean := parse_clean (fun _ ↦ clean_nil) hout
    rw [write_segments (fun a ↦ (hclean a).1) hroom] at hout
    exact fun a ↦ plain_of_parse_segments DsnAttr.nodup_all (fun a _ ↦ hclean a) hout
      (fun _ _ ↦ rfl) a a.mem_all
  · intro hplain
    rw [write_segments (fun a ↦ (hplain a).1) hroom]
    obtain ⟨out, hout, hval⟩ := parse_segments .init fun a _ ↦ hplain a
    rw [hout, Option.some.injEq]
    ext1
    funext a
    rw [hval a]
    by_cases hne : attrs.val a = []
    · rw [if_neg fun h ↦ h.2 hne, hne]
      rfl
    · rw [if_pos ⟨a.mem_all, hne⟩]

/-! ## Connecting -/

/-- The units of the text of one attribute. -/
def attrLength (attrs : DsnAttrs) (a : DsnAttr) : ℕ :=
  if attrs.val a = [] then 0
  else a.keyword.length + 1 + (attrs.val a).length + (if needsBraces (attrs.val a) then 2 else 0) + 1

theorem foldl_writeAttr_length (attrs : DsnAttrs) (as : List DsnAttr) (out : WStr × ℕ) :
    (as.foldl (writeAttr attrs) out).2 = out.2 + (as.map (attrLength attrs)).sum := by
  induction as generalizing out with
  | nil => rfl
  | cons a as ih =>
    have hturn : (writeAttr attrs out a).2 = out.2 + attrLength attrs a := by
      rw [writeAttr, attrLength]
      by_cases h : attrs.val a = []
      · rw [if_neg (not_not.mpr h), if_pos h]
        rfl
      · rw [if_pos h, if_neg h]
    rw [List.foldl_cons, ih, hturn, List.map_cons, List.sum_cons, Nat.add_assoc]

theorem attrLength_le (attrs : DsnAttrs) (a : DsnAttr) :
    attrLength attrs a ≤ a.keyword.length + dsnMaxAttrLen + 4 := by
  have hfits := attrs.fits a
  rw [attrLength]
  split_ifs <;> omega

theorem connectAttrs_val {dsn uid pwd : WStr} (hdsn : dsn.length ≤ dsnMaxAttrLen)
    (huid : uid.length ≤ dsnMaxAttrLen) (hpwd : pwd.length ≤ dsnMaxAttrLen) :
    ∃ attrs, connectAttrs dsn uid pwd = some attrs ∧ attrs.val .dsn = dsn ∧ attrs.val .uid = uid ∧
      attrs.val .pwd = pwd ∧ ∀ a ∉ [DsnAttr.dsn, .pwd, .uid], attrs.val a = [] := by
  have hnew (attrs : DsnAttrs) {a : DsnAttr} {v : WStr} (hv : v.length ≤ dsnMaxAttrLen)
      (h : attrs.val a = []) :
      ∃ r, assignDsnAttr attrs a.keyword v false = some (r, attrs.set a v hv) :=
    assign_keyword attrs a hv (.inr h)
  obtain ⟨r₁, h₁⟩ := hnew .init (a := .dsn) hdsn rfl
  obtain ⟨r₂, h₂⟩ := hnew (DsnAttrs.init.set .dsn dsn hdsn) (a := .uid) huid rfl
  obtain ⟨r₃, h₃⟩ :=
    hnew ((DsnAttrs.init.set .dsn dsn hdsn).set .uid uid huid) (a := .pwd) hpwd rfl
  refine ⟨_, by rw [connectAttrs, h₁, Option.bind_some, h₂, Option.bind_some, h₃, Option.map_some],
    rfl, rfl, rfl, fun a ha ↦ ?_⟩
  simp only [List.mem_cons, List.not_mem_nil, or_false, not_or] at ha
  simp only [DsnAttrs.set, Function.update_of_ne ha.1, Function.update_of_ne ha.2.1,
    Function.update_of_ne ha.2.2]
  rfl

/-- Empty values leave no text. -/
theorem segments_connect {attrs : DsnAttrs}
    (h : ∀ a ∉ [DsnAttr.dsn, .pwd, .uid], attrs.val a = []) :
    segments attrs DsnAttr.all = segments attrs [.dsn, .pwd, .uid] := by
  have hnil {a : DsnAttr} (ha : a ∉ [DsnAttr.dsn, .pwd, .uid]) : segment attrs a = [] :=
    if_pos (h a ha)
  simp [segments, DsnAttr.all, hnil]

/-- The buffer of `EsSQLConnectW` has room for what it writes. -/
theorem connect_room {attrs : DsnAttrs} {buf : WStr}
    (h : ∀ a ∉ [DsnAttr.dsn, .pwd, .uid], attrs.val a = [])
    (hbuf : buf.length = DsnAttr.all.length * dsnMaxAttrLen) :
    (writeConnectionString attrs buf).2 < buf.length := by
  have hnil {a : DsnAttr} (ha : a ∉ [DsnAttr.dsn, .pwd, .uid]) : attrLength attrs a = 0 :=
    if_pos (h a ha)
  have hsum : (DsnAttr.all.map (attrLength attrs)).sum =
      attrLength attrs .dsn + (attrLength attrs .pwd + attrLength attrs .uid) := by
    simp [DsnAttr.all, hnil]
  have hdsn : attrLength attrs .dsn ≤ 3 + dsnMaxAttrLen + 4 := attrLength_le attrs .dsn
  have hpwd : attrLength attrs .pwd ≤ 3 + dsnMaxAttrLen + 4 := attrLength_le attrs .pwd
  have huid : attrLength attrs .uid ≤ 3 + dsnMaxAttrLen + 4 := attrLength_le attrs .uid
  have hall : DsnAttr.all.length = 37 := rfl
  rw [writeConnectionString, foldl_writeAttr_length, hsum, hbuf, hall]
  rw [dsnMaxAttrLen] at hdsn hpwd huid ⊢
  omega

/-- What `EsSQLConnectW` is given reaches the connection exactly when it is plain. -/
theorem connect_iff {dsn uid pwd buf : WStr} (hdsn : dsn.length ≤ dsnMaxAttrLen)
    (huid : uid.length ≤ dsnMaxAttrLen) (hpwd : pwd.length ≤ dsnMaxAttrLen)
    (hbuf : buf.length = DsnAttr.all.length * dsnMaxAttrLen) :
    (∃ out, esSQLConnectW dsn uid pwd buf = some out ∧ out.val .dsn = dsn ∧ out.val .uid = uid ∧
      out.val .pwd = pwd) ↔ Plain dsn ∧ Plain uid ∧ Plain pwd := by
  obtain ⟨attrs, hattrs, rfl, rfl, rfl, hnil⟩ := connectAttrs_val hdsn huid hpwd
  have hroom := connect_room hnil hbuf
  have hall {p : WStr → Prop} (h : p []) (h₁ : p (attrs.val .dsn)) (h₂ : p (attrs.val .uid))
      (h₃ : p (attrs.val .pwd)) (a : DsnAttr) : p (attrs.val a) := by
    by_cases ha : a ∈ [DsnAttr.dsn, .pwd, .uid]
    · simp only [List.mem_cons, List.not_mem_nil, or_false] at ha
      rcases ha with rfl | rfl | rfl
      · exact h₁
      · exact h₃
      · exact h₂
    · rwa [hnil a ha]
  simp only [esSQLConnectW, hattrs, Option.bind_some]
  constructor
  · rintro ⟨out, hout, h₁, h₂, h₃⟩
    have hclean (a : DsnAttr) : Clean (out.val a) := parse_clean (fun _ ↦ clean_nil) hout a
    have hclean : ∀ a, Clean (attrs.val a) :=
      hall clean_nil (h₁ ▸ hclean .dsn) (h₂ ▸ hclean .uid) (h₃ ▸ hclean .pwd)
    rw [write_segments (fun a ↦ (hclean a).1) hroom, segments_connect hnil] at hout
    have hnodup : [DsnAttr.dsn, .pwd, .uid].Nodup := by decide
    have hplain := plain_of_parse_segments hnodup (fun a _ ↦ hclean a) hout (by simp [h₁, h₂, h₃])
    exact ⟨hplain _ (by decide), hplain _ (by decide), hplain _ (by decide)⟩
  · rintro ⟨h₁, h₂, h₃⟩
    have hplain : ∀ a, Plain (attrs.val a) := hall Plain.nil h₁ h₂ h₃
    exact ⟨attrs, (parse_write_iff hroom).mpr hplain, rfl, rfl, rfl⟩

/-- The attributes that come back from the connection string written for them, with room for
it, and what reaches the connection of the three values that `EsSQLConnectW` is given. -/
theorem connection_string_round_trip (attrs : DsnAttrs) (buf dsn uid pwd cbuf : WStr)
    (hroom : (writeConnectionString attrs buf).2 < buf.length)
    (hdsn : dsn.length ≤ dsnMaxAttrLen) (huid : uid.length ≤ dsnMaxAttrLen)
    (hpwd : pwd.length ≤ dsnMaxAttrLen)
    (hcbuf : cbuf.length = DsnAttr.all.length * dsnMaxAttrLen) :
    (parseConnectionString .init
        ((writeConnectionString attrs buf).1.take (writeConnectionString attrs buf).2) =
      some attrs ↔ ∀ a, Plain (attrs.val a)) ∧
    ((∃ out, esSQLConnectW dsn uid pwd cbuf = some out ∧ out.val .dsn = dsn ∧
      out.val .uid = uid ∧ out.val .pwd = pwd) ↔ Plain dsn ∧ Plain uid ∧ Plain pwd) :=
  ⟨parse_write_iff hroom, connect_iff hdsn huid hpwd hcbuf⟩

/-- Blanks, `;` and `=` are kept, and braces where the writer adds none. -/
theorem connection_string_round_trip_kept :
    (let attrs := (DsnAttrs.init.set .uid (wstr "a\x7bb\x7d") (by decide)).set .pwd
        (wstr " a;b=") (by decide)
      let out := writeConnectionString attrs (List.replicate 40 0)
      parseConnectionString .init (out.1.take out.2) = some attrs) ∧
    ∃ out, esSQLConnectW (wstr "d") (wstr "a\x7bb\x7d") (wstr " a;b=")
        (List.replicate (DsnAttr.all.length * dsnMaxAttrLen) 0) = some out ∧
      out.val .dsn = wstr "d" ∧ out.val .uid = wstr "a\x7bb\x7d" ∧ out.val .pwd = wstr " a;b=" := by
  have h := connection_string_round_trip
    ((DsnAttrs.init.set .uid (wstr "a\x7bb\x7d") (by decide)).set .pwd (wstr " a;b=") (by decide))
    (List.replicate 40 0) (wstr "d") (wstr "a\x7bb\x7d") (wstr " a;b=")
    (List.replicate (DsnAttr.all.length * dsnMaxAttrLen) 0) (by decide) (by decide) (by decide)
    (by decide) List.length_replicate
  constructor
  · refine h.1.mpr fun a ↦ ?_
    cases a <;> decide
  · refine h.2.mpr ?_
    decide

/-- A password with a brace in it next to a blank stops the parser. -/
theorem connection_string_password :
    let attrs := DsnAttrs.init.set .pwd (wstr "a\x7d b") (by decide)
    let out := writeConnectionString attrs (List.replicate 20 0)
    out.2 < 20 ∧ out.1.take out.2 = wstr "PWD=\x7ba\x7d b\x7d;" ∧
      parseConnectionString .init (out.1.take out.2) = none := by
  refine ⟨?_, ?_, ?_⟩
  · decide
  · rfl
  · rfl

end EsOdbc
