import EsOdbc.Interval.LiteralGrammar

/-!
# Which literals are accepted

When `parse_interval_literal` accepts exactly the literals of the grammar and `sql2c_interval`
reports the others.
-/

namespace EsOdbc

/-! ## Literals are read in one way -/

/-- A text that is a single quote. -/
def LoneQuote (w : WStr) : Prop :=
  ∃ t words y q sign, Names t words ∧ Framed w y q ∧ QualText words q ∧ Signed y sign [0x27]

theorem exists_quoted {v : WStr} (hv : v ≠ [0x27]) : ∃ value, Quoted v value := by
  by_cases hquotes : v.head? = some 0x27 ∧ v.getLast? = some 0x27
  · obtain ⟨hhead, hlast⟩ := hquotes
    cases v with
    | nil => cases hhead
    | cons c v =>
      obtain rfl : c = 0x27 := by simpa using hhead
      cases v using List.reverseRecOn with
      | nil => exact absurd rfl hv
      | append_singleton v d =>
        rw [← List.cons_append, List.getLast?_concat, Option.some.injEq] at hlast
        exact ⟨v, .inl (by rw [hlast])⟩
  · exact ⟨v, .inr ⟨rfl, hquotes⟩⟩

theorem stripQuotes_quoted {t : IntervalType} {sign : Bool} {v value q : WStr}
    (h : Quoted v value) :
    ∃ behind, stripQuotes t sign v q = ⟨t, sign, value, behind, false⟩ ∧
      (behind = some 0x27 ∨ behind = q.head?) := by
  rcases h with rfl | ⟨rfl, hquotes⟩
  · refine ⟨some 0x27, ?_, .inl rfl⟩
    have hlast : (0x27 :: (value ++ [0x27])).getLast? = some 0x27 := by
      rw [← List.cons_append]
      exact List.getLast?_concat
    rw [stripQuotes, if_pos ⟨rfl, hlast⟩, if_neg (by simp), List.tail_cons, List.dropLast_concat]
  · exact ⟨q.head?, if_neg hquotes, .inr rfl⟩

theorem stripQuotes_lone (t : IntervalType) (sign : Bool) (q : WStr) :
    stripQuotes t sign [0x27] q = ⟨t, sign, q, none, true⟩ := rfl

/-- The text of a literal is what is found. -/
theorem LiteralText.head {t : IntervalType} {words : List WStr} {w value : WStr} {sign : Bool}
    (hwords : Names t words) (h : LiteralText words (needsDelim t) w sign value) :
    ∃ c, NoSep c ∧ literalHead w = some ⟨t, sign, value, some c, false⟩ := by
  obtain ⟨y, q, v, hframed, hq, hdelim, hsigned, hquoted⟩ := h
  obtain ⟨behind, hstrip, hbehind⟩ := stripQuotes_quoted (t := t) (q := q) hquoted
  have hhead := literalHead_eq_some.mpr
    ⟨t, words, y, q, sign, v, hwords, hframed, hq, hdelim, hsigned, rfl⟩
  rw [hstrip] at hhead
  rcases hbehind with rfl | rfl
  · exact ⟨0x27, ⟨by decide, by decide⟩, hhead⟩
  · have hlen := hq.length hwords
    obtain ⟨c, q, rfl⟩ : ∃ c q', q = c :: q' := by
      cases q with
      | nil => cases hlen
      | cons c q => exact ⟨c, q, rfl⟩
    exact ⟨c, hq.head hwords.words.1 c rfl, hhead⟩

/-- What is found is the text of a literal, but for a single quote. -/
theorem literalText_of_head {w : WStr} {h : LiteralHead} (hw : ¬LoneQuote w)
    (hh : literalHead w = some h) :
    h.wrapped = false ∧ ∃ words, Names h.type words ∧
      LiteralText words (needsDelim h.type) w h.sign h.value := by
  obtain ⟨t, words, y, q, sign, v, hwords, hframed, hq, hdelim, hsigned, rfl⟩ :=
    literalHead_eq_some.mp hh
  have hv : v ≠ [0x27] := by
    rintro rfl
    exact hw ⟨t, words, y, q, sign, hwords, hframed, hq, hsigned⟩
  obtain ⟨value, hquoted⟩ := exists_quoted hv
  obtain ⟨behind, hstrip, -⟩ := stripQuotes_quoted (t := t) (q := q) hquoted
  rw [hstrip]
  exact ⟨rfl, words, hwords, y, q, v, hframed, hq, hdelim, hsigned, hquoted⟩

/-- The parser on the text of a literal. -/
theorem LiteralText.parse (r : IvlRec) {t : IntervalType} {words : List WStr} {w value : WStr}
    {sign : Bool} (hwords : Names t words) (h : LiteralText words (needsDelim t) w sign value) :
    parseIntervalLiteral r w =
      (some t, (parseParts r (some 0x20) (parts t) (.zero, value)).map fun v ↦ ⟨t, sign, v⟩) := by
  obtain ⟨c, hc, hhead⟩ := h.head hwords
  rw [parseIntervalLiteral, hhead]
  dsimp only
  rw [parseIntervalLiteralValue_eq, parseParts_behind hc]

theorem LiteralText.unique {t t' : IntervalType} {words words' : List WStr} {w value value' : WStr}
    {sign sign' : Bool} (hwords : Names t words) (hwords' : Names t' words')
    (h : LiteralText words (needsDelim t) w sign value)
    (h' : LiteralText words' (needsDelim t') w sign' value') :
    t = t' ∧ sign = sign' ∧ value = value' := by
  obtain ⟨c, -, hhead⟩ := h.head hwords
  obtain ⟨c', -, hhead'⟩ := h'.head hwords'
  rw [hhead, Option.some.injEq, LiteralHead.mk.injEq] at hhead'
  exact ⟨hhead'.1, hhead'.2.1, hhead'.2.2.1⟩

/-- A text of a type's own qualifier does not end in `MONTH TO MINUTE`. -/
theorem LiteralText.own {t t' : IntervalType} {delim delim' : Bool} {w value value' : WStr}
    {sign sign' : Bool} (ht : t = .month ∨ t = .yearToMonth)
    (h : LiteralText (qualifier t) delim w sign value)
    (h' : LiteralText (wordMinute :: wordTo :: qualifier t') delim' w sign' value')
    (ht' : t' = .month ∨ t' = .yearToMonth) : False := by
  obtain ⟨y, q, v, hframed, hq, -, -, -⟩ := h
  obtain ⟨y', q', v', hframed', hq', -, -, -⟩ := h'
  obtain ⟨hbody, htrim⟩ := hframed.body (t := t) (.inl rfl) hq
  obtain ⟨hbody', htrim'⟩ := hframed'.body (t := t') (.inr ⟨ht', rfl⟩) hq'
  rw [hbody, Option.some.injEq] at hbody'
  obtain ⟨u', hu', -⟩ := trimWords_cons.mp htrim'
  have hmonth : ∃ words, qualifier t = wordMonth :: words := by
    rcases ht with rfl | rfl <;> exact ⟨_, rfl⟩
  obtain ⟨words, hqual⟩ := hmonth
  rw [hqual] at htrim
  obtain ⟨u, hu, -⟩ := trimWords_cons.mp htrim
  have hlast := isFromEnd_of_trim hu (k := 0) (x := 0x68) rfl (by decide) 0x65
  have hlast' := isFromEnd_of_trim hu' (k := 0) (x := 0x65) rfl (by decide) 0x65
  rw [hbody', hlast'] at hlast
  exact absurd hlast (by decide)

/-! ## Fields end in a delimiter -/

theorem isDelim_digitUnit (d : Fin 10) : isDelim (digitUnit d) = true := by
  revert d
  decide

theorem endsInDelim_append {u w : WStr} (h : endsInDelim w = true) : endsInDelim (u ++ w) = true := by
  cases w with
  | nil => cases h
  | cons c w =>
    rw [endsInDelim, getLast?_append_right (List.cons_ne_nil c w)]
    exact h

theorem FieldText.endsInDelim {f : FieldText} (h : f.digits ≠ []) :
    EsOdbc.endsInDelim f.text = true := by
  rw [text]
  refine endsInDelim_append ?_
  obtain ⟨ds, d, hds⟩ := (List.eq_nil_or_concat f.digits).resolve_left h
  rw [hds, List.concat_eq_append, digitUnits, List.map_append]
  refine endsInDelim_append ?_
  simp [EsOdbc.endsInDelim, isDelim_digitUnit]

theorem FracText.endsInDelim {w : WStr} {frac : Option FieldText} (h : FracText w frac) :
    w = [] ∨ EsOdbc.endsInDelim w = true := by
  rcases h with ⟨rfl | rfl, -⟩ | ⟨f, rfl, hdigits, -⟩
  · exact .inl rfl
  · exact .inr (by decide)
  · exact .inr (endsInDelim_append (u := [0x2E]) (FieldText.endsInDelim hdigits))

theorem Spells.endsInDelim {ps : List Part} {w : WStr} {fs : List FieldText}
    {frac : Option FieldText} (h : Spells ps w fs frac) :
    ps = [] ∧ w = [] ∨ EsOdbc.endsInDelim w = true := by
  induction ps generalizing w fs with
  | nil => exact .inl ⟨rfl, h.1⟩
  | cons p ps ih =>
    obtain ⟨f, rest, gs, rfl, ⟨⟨s, -, rfl⟩, hlone, -⟩, h⟩ := h
    have hrest : rest = [] ∨ EsOdbc.endsInDelim rest = true := by
      split at h
      · exact h.2.endsInDelim
      · exact (ih h).imp_left And.right
    refine .inr (endsInDelim_append ?_)
    rcases hrest with rfl | hrest
    · rw [List.append_nil]
      exact FieldText.endsInDelim (hlone.resolve_right (not_not.mpr rfl))
    · exact endsInDelim_append hrest

/-- The text of a literal with the value of its type has a delimiter before the qualifier. -/
theorem LiteralText.delim {t : IntervalType} {words : List WStr} {delim : Bool} {w value : WStr}
    {sign : Bool} {fs : List FieldText} {frac : Option FieldText}
    (h : LiteralText words delim w sign value) (hspells : Spells (parts t) value fs frac) :
    LiteralText words (needsDelim t) w sign value := by
  obtain ⟨y, q, v, hframed, hq, -, hsigned, hquoted⟩ := h
  have hvalue : endsInDelim value = true := by
    refine hspells.endsInDelim.resolve_left fun hnil ↦ ?_
    cases t <;> cases hnil.1
  have hv : endsInDelim v = true := by
    rcases hquoted with rfl | ⟨rfl, -⟩
    · exact endsInDelim_append (u := 0x27 :: value) rfl
    · exact hvalue
  refine ⟨y, q, v, hframed, hq, fun _ ↦ ?_, hsigned, hquoted⟩
  rcases hsigned with ⟨rfl, -⟩ | ⟨b, rfl, -⟩
  · exact hv
  · exact endsInDelim_append (u := (if sign then 0x2D else 0x2B) :: b) hv

/-- The slice of a value is inside its literal. -/
theorem LiteralText.inside {words : List WStr} {delim : Bool} {w value : WStr} {sign : Bool}
    (h : LiteralText words delim w sign value) :
    ∃ before behind, w = before ++ (value ++ behind) := by
  obtain ⟨y, q, v, ⟨-, opening, kw, b, closing, rfl, -⟩, -, -, hsigned, hquoted⟩ := h
  have hv : ∃ u u', v = u ++ (value ++ u') := by
    rcases hquoted with rfl | ⟨rfl, -⟩
    · exact ⟨[0x27], [0x27], rfl⟩
    · exact ⟨[], [], by simp⟩
  obtain ⟨u, u', rfl⟩ := hv
  have hy : ∃ s, y = s ++ (u ++ (value ++ u')) := by
    rcases hsigned with ⟨rfl, -⟩ | ⟨b, rfl, -⟩
    · exact ⟨[], rfl⟩
    · exact ⟨_ :: b, rfl⟩
  obtain ⟨s, rfl⟩ := hy
  exact ⟨opening ++ (kw ++ (b ++ (s ++ u))), u' ++ (q ++ closing), by simp only [List.append_assoc]⟩

/-! ## Literals -/

/-- A literal of a type: its sign and value. -/
def Literal (r : IvlRec) (t : IntervalType) (w : WStr) (sign : Bool) : Prop :=
  ∃ value v, LiteralText (qualifier t) false w sign value ∧ ValueText r t value v

/-- `parse_interval_literal` accepts exactly the literals and stores what they are of.  What it
finds is a slice of the text, and no count wraps.  OtherValue texts are reported by it and by
`sql2c_interval`, as an overflow only where the fields of a value are too large. -/
structure ReadsLiterals (r : IvlRec) (ctype : IntervalType) (w : WStr) : Prop where
  accepted : ∀ t sign,
    (∃ v, (parseIntervalLiteral r w).2 = .ok ⟨t, sign, v⟩) ↔ Literal r t w sign
  stored : ∀ ivl, (parseIntervalLiteral r w).2 = .ok ivl → ∃ value,
    LiteralText (qualifier ivl.intervalType) false w ivl.intervalSign value ∧
      parseIntervalLiteralValue r ivl.intervalType none value .zero = .ok ivl.intval
  inside : ∀ h ∈ literalHead w,
    h.wrapped = false ∧ ∃ before behind, w = before ++ (h.value ++ behind)
  refused : (∀ ivl, (parseIntervalLiteral r w).2 ≠ .ok ivl) → ∃ s,
    (parseIntervalLiteral r w).2 = .error (.fail s) ∧
      sql2cInterval r true ctype w = .error (.fail s) ∧
        (s = .s22018 ∨ s = .s22015 ∧ ∃ t sign value fs frac,
          LiteralText (qualifier t) false w sign value ∧ Spells (parts t) value fs frac)

/-- A value is accepted for its fields exactly when no field has a `+`, and too large only if it
consists of fields. -/
def PlainValue (r : IvlRec) (t : IntervalType) (value : WStr) : Prop :=
  (∀ fs frac, Spells (parts t) value fs frac → AllWithin r (parts t) fs →
    (Unsigned fs frac ↔ ∀ f ∈ frac, f.value ≤ ulongMax)) ∧
      (TooLarge r (parts t) value → ∃ fs frac, Spells (parts t) value fs frac)

/-- A value that is not one of fields within their limits, and has none that is too large. -/
def OtherValue (r : IvlRec) (t : IntervalType) (value : WStr) : Prop :=
  ¬TooLarge r (parts t) value ∧ ∀ fs frac, Spells (parts t) value fs frac →
    AllWithin r (parts t) fs → ∃ f ∈ frac, ulongMax < f.value

/-- The values before a qualifier are plain, and no other than a refused one is before
`MONTH TO MINUTE`; no value is a single quote; and the text is none, a literal, or has a
qualifier of the C type at its end. -/
structure LiteralAsMeant (r : IvlRec) (ctype : IntervalType) (w : WStr) : Prop where
  plain : ∀ t sign value, LiteralText (qualifier t) (needsDelim t) w sign value → PlainValue r t value
  minute : ∀ t sign value, (t = .month ∨ t = .yearToMonth) →
    LiteralText (wordMinute :: wordTo :: qualifier t) (needsDelim t) w sign value →
      OtherValue r t value
  quote : ¬LoneQuote w
  type : w = [] ∨ (∃ t sign, Literal r t w sign) ∨
    ∃ words sign value, Names ctype words ∧ LiteralText words (needsDelim ctype) w sign value

section
variable {r : IvlRec} {ctype t : IntervalType} {words : List WStr} {w value : WStr} {sign : Bool}

theorem parse_eq_ok_iff (hwords : Names t words)
    (h : LiteralText words (needsDelim t) w sign value) {ivl : SqlInterval} :
    (parseIntervalLiteral r w).2 = .ok ivl ↔ ∃ fs frac, Spells (parts t) value fs frac ∧
      AllWithin r (parts t) fs ∧ (∀ f ∈ frac, f.value ≤ ulongMax) ∧
        ivl = ⟨t, sign, { fieldValues (parts t) fs .zero with fraction := codeFraction r frac 0 }⟩ := by
  rw [h.parse r hwords]
  have hok (v : IntVal) := @parseParts_eq_ok r (some 0x20) (parts t) value .zero v (head_parts t value)
  constructor
  · intro hmap
    cases hparse : parseParts r (some 0x20) (parts t) (.zero, value) with
    | error e =>
      rw [hparse] at hmap
      cases hmap
    | ok v =>
      rw [hparse] at hmap
      obtain ⟨fs, frac, hspells, hall, hle, rfl⟩ := (hok v).mp hparse
      exact ⟨fs, frac, hspells, hall, hle, (Except.ok.inj hmap).symm⟩
  · rintro ⟨fs, frac, hspells, hall, hle, rfl⟩
    rw [(hok _).mpr ⟨fs, frac, hspells, hall, hle, rfl⟩]
    rfl

theorem parse_overflow_iff (hwords : Names t words)
    (h : LiteralText words (needsDelim t) w sign value) :
    (parseIntervalLiteral r w).2 = .error (.fail .s22015) ↔ TooLarge r (parts t) value := by
  rw [h.parse r hwords, ← parseParts_overflow (v := .zero) (head_parts t value)]
  cases parseParts r (some 0x20) (parts t) (.zero, value) <;> simp [Except.map]

/-- A text that is not accepted is reported in one of two ways. -/
theorem parse_error (hwords : Names t words)
    (h : LiteralText words (needsDelim t) w sign value)
    (hok : ∀ ivl, (parseIntervalLiteral r w).2 ≠ .ok ivl) :
    (parseIntervalLiteral r w).2 = .error (.fail .s22018) ∨
      (parseIntervalLiteral r w).2 = .error (.fail .s22015) := by
  rw [h.parse r hwords] at hok ⊢
  cases hparse : parseParts r (some 0x20) (parts t) (.zero, value) with
  | error e => exact (parseParts_error hparse).imp (congrArg Except.error) (congrArg Except.error)
  | ok v => exact absurd (by rw [hparse]; rfl) (hok ⟨t, sign, v⟩)

theorem ReadsLiterals.plain (h : ReadsLiterals r ctype w) {t : IntervalType} {sign : Bool}
    {value : WStr} (htext : LiteralText (qualifier t) (needsDelim t) w sign value) :
    PlainValue r t value := by
  have hnames : Names t (qualifier t) := .inl rfl
  constructor
  · intro fs frac hspells hall
    constructor
    · intro hunsigned
      obtain ⟨v, hok⟩ := (h.accepted t sign).mpr
        ⟨value, _, ⟨by obtain ⟨y, q, v, h₁, h₂, -, h₃⟩ := htext; exact ⟨y, q, v, h₁, h₂, by simp, h₃⟩,
          fs, frac, hspells, hall, hunsigned, rfl⟩⟩
      obtain ⟨fs', frac', hspells', -, hle, -⟩ := (parse_eq_ok_iff hnames htext).mp hok
      obtain ⟨rfl, rfl⟩ := hspells.unique (head_parts t value) hspells'
      exact hle
    · intro hle
      have hok := (parse_eq_ok_iff hnames htext).mpr ⟨fs, frac, hspells, hall, hle, rfl⟩
      obtain ⟨value', v, htext', fs', frac', hspells', -, hunsigned, -⟩ :=
        (h.accepted t sign).mp ⟨_, hok⟩
      obtain ⟨-, -, rfl⟩ := htext.unique hnames hnames (htext'.delim hspells')
      obtain ⟨rfl, rfl⟩ := hspells.unique (head_parts t value) hspells'
      exact hunsigned
  · intro hlarge
    have herror := (parse_overflow_iff hnames htext).mpr hlarge
    obtain ⟨s, hs, -, hkind⟩ := h.refused fun ivl hok ↦ by simp [herror] at hok
    rw [herror] at hs
    cases hs
    obtain ⟨-, t', sign', value', fs, frac, htext', hspells⟩ := hkind.resolve_left (by decide)
    obtain ⟨rfl, -, rfl⟩ := htext.unique hnames (.inl rfl) (htext'.delim hspells)
    exact ⟨fs, frac, hspells⟩

theorem ReadsLiterals.minute (h : ReadsLiterals r ctype w) (ht : t = .month ∨ t = .yearToMonth)
    (htext : LiteralText (wordMinute :: wordTo :: qualifier t) (needsDelim t) w sign value) :
    OtherValue r t value := by
  have hnames : Names t (wordMinute :: wordTo :: qualifier t) := .inr ⟨ht, rfl⟩
  have hother {t' : IntervalType} {sign' : Bool} {value' : WStr} {fs : List FieldText}
      {frac : Option FieldText} (htext' : LiteralText (qualifier t') false w sign' value')
      (hspells : Spells (parts t') value' fs frac) : False := by
    obtain ⟨rfl, -, -⟩ := htext.unique hnames (.inl rfl) (htext'.delim hspells)
    exact htext'.own ht htext ht
  constructor
  · intro hlarge
    have herror := (parse_overflow_iff hnames htext).mpr hlarge
    obtain ⟨s, hs, -, hkind⟩ := h.refused fun ivl hok ↦ by simp [herror] at hok
    rw [herror] at hs
    cases hs
    obtain ⟨-, t', sign', value', fs, frac, htext', hspells⟩ := hkind.resolve_left (by decide)
    exact hother htext' hspells
  · intro fs frac hspells hall
    by_contra hle
    push Not at hle
    have hok := (parse_eq_ok_iff hnames htext).mpr ⟨fs, frac, hspells, hall, hle, rfl⟩
    obtain ⟨value', v, htext', fs', frac', hspells', -⟩ := (h.accepted t sign).mp ⟨_, hok⟩
    exact hother htext' hspells'

theorem ReadsLiterals.quote (h : ReadsLiterals r ctype w) : ¬LoneQuote w := by
  rintro ⟨t, words, y, q, sign, hwords, hframed, hq, hsigned⟩
  have hdelim : endsInDelim y = true := by
    rcases hsigned with ⟨rfl, -⟩ | ⟨b, rfl, -⟩
    · decide
    · exact endsInDelim_append (u := (if sign then 0x2D else 0x2B) :: b) (by decide)
  have hhead := literalHead_eq_some.mpr
    ⟨t, words, y, q, sign, _, hwords, hframed, hq, fun _ ↦ hdelim, hsigned, rfl⟩
  rw [stripQuotes_lone] at hhead
  cases (h.inside _ hhead).1

theorem ReadsLiterals.type (h : ReadsLiterals r ctype w) :
    w = [] ∨ (∃ t sign, Literal r t w sign) ∨
      ∃ words sign value, Names ctype words ∧ LiteralText words (needsDelim ctype) w sign value := by
  by_cases hnil : w = []
  · exact .inl hnil
  by_cases hok : ∃ ivl, (parseIntervalLiteral r w).2 = .ok ivl
  · obtain ⟨ivl, hok⟩ := hok
    exact .inr (.inl ⟨_, _, (h.accepted _ _).mp ⟨ivl.intval, hok⟩⟩)
  push Not at hok
  obtain ⟨s, -, hsql, hkind⟩ := h.refused hok
  rw [sql2cInterval, if_neg hnil, if_pos rfl] at hsql
  cases hhead : literalHead w with
  | none =>
    rw [parseIntervalLiteral, hhead] at hsql
    cases hsql
  | some head =>
    have htype : (parseIntervalLiteral r w).1 = some head.type := by
      rw [parseIntervalLiteral, hhead]
    rw [htype] at hsql
    dsimp only at hsql
    split at hsql
    · obtain rfl : s = .s07006 := by simpa [eq_comm] using hsql
      rcases hkind with hkind | ⟨hkind, -⟩ <;> cases hkind
    · next htype =>
      obtain rfl : head.type = ctype := not_not.mp htype
      obtain ⟨-, words, hwords, htext⟩ := literalText_of_head h.quote hhead
      exact .inr (.inr ⟨words, _, _, hwords, htext⟩)

/-- A literal is accepted, and what is accepted is one. -/
theorem LiteralAsMeant.accepted (h : LiteralAsMeant r ctype w) {ivl : SqlInterval}
    (hok : (parseIntervalLiteral r w).2 = .ok ivl) :
    ∃ value v, LiteralText (qualifier ivl.intervalType) (needsDelim ivl.intervalType) w
      ivl.intervalSign value ∧ ValueText r ivl.intervalType value v ∧
        parseIntervalLiteralValue r ivl.intervalType none value .zero = .ok ivl.intval := by
  cases hhead : literalHead w with
  | none =>
    rw [parseIntervalLiteral, hhead] at hok
    cases hok
  | some head =>
    obtain ⟨-, words, hwords, htext⟩ := literalText_of_head h.quote hhead
    obtain ⟨fs, frac, hspells, hall, hle, rfl⟩ := (parse_eq_ok_iff hwords htext).mp hok
    rcases hwords with rfl | ⟨ht, rfl⟩
    · have hunsigned := ((h.plain _ _ _ htext).1 fs frac hspells hall).mpr hle
      refine ⟨_, _, htext, ⟨fs, frac, hspells, hall, hunsigned, rfl⟩, ?_⟩
      rw [parseIntervalLiteralValue_eq, parseParts_eq_ok (head_parts _ _)]
      exact ⟨fs, frac, hspells, hall, hle, rfl⟩
    · obtain ⟨f, hf, hlt⟩ := (h.minute _ _ _ ht htext).2 fs frac hspells hall
      exact absurd (hle f hf) (not_le.mpr hlt)

theorem LiteralText.weaken {delim : Bool} (h : LiteralText words delim w sign value) :
    LiteralText words false w sign value := by
  obtain ⟨y, q, v, hframed, hq, -, hsigned, hquoted⟩ := h
  exact ⟨y, q, v, hframed, hq, by simp, hsigned, hquoted⟩

theorem LiteralAsMeant.literal (h : LiteralAsMeant r ctype w) (hlit : Literal r t w sign) :
    ∃ v, (parseIntervalLiteral r w).2 = .ok ⟨t, sign, v⟩ := by
  obtain ⟨value, v, htext, fs, frac, hspells, hall, hunsigned, -⟩ := hlit
  have htext := htext.delim hspells
  have hle := ((h.plain t sign value htext).1 fs frac hspells hall).mp hunsigned
  exact ⟨_, (parse_eq_ok_iff (.inl rfl) htext).mpr ⟨fs, frac, hspells, hall, hle, rfl⟩⟩

theorem LiteralAsMeant.refused (h : LiteralAsMeant r ctype w)
    (hok : ∀ ivl, (parseIntervalLiteral r w).2 ≠ .ok ivl) : ∃ s,
    (parseIntervalLiteral r w).2 = .error (.fail s) ∧
      sql2cInterval r true ctype w = .error (.fail s) ∧
        (s = .s22018 ∨ s = .s22015 ∧ ∃ t sign value fs frac,
          LiteralText (qualifier t) false w sign value ∧ Spells (parts t) value fs frac) := by
  rcases h.type with rfl | ⟨t, sign, hlit⟩ | ⟨words, sign, value, hwords, htext⟩
  · exact ⟨.s22018, rfl, rfl, .inl rfl⟩
  · obtain ⟨v, hv⟩ := h.literal hlit
    exact absurd hv (hok _)
  · have hne : w ≠ [] := by
      rintro rfl
      obtain ⟨c, -, hhead⟩ := htext.head hwords
      cases hhead
    have htype : (parseIntervalLiteral r w).1 = some ctype := by rw [htext.parse r hwords]
    have hsql {s : SqlState} (hs : (parseIntervalLiteral r w).2 = .error (.fail s)) :
        sql2cInterval r true ctype w = .error (.fail s) := by
      rw [sql2cInterval, if_neg hne, if_pos rfl, htype]
      dsimp only
      rw [if_neg (not_not.mpr rfl), hs]
      rfl
    rcases parse_error hwords htext hok with hs | hs
    · exact ⟨.s22018, hs, hsql hs, .inl rfl⟩
    · refine ⟨.s22015, hs, hsql hs, .inr ⟨rfl, ?_⟩⟩
      have hlarge := (parse_overflow_iff hwords htext).mp hs
      rcases hwords with rfl | ⟨ht, rfl⟩
      · obtain ⟨fs, frac, hspells⟩ := (h.plain ctype sign value htext).2 hlarge
        exact ⟨ctype, sign, value, fs, frac, htext.weaken, hspells⟩
      · exact absurd hlarge (h.minute ctype sign value ht htext).1

end

/-- When interval literals are what is accepted, and the other texts are reported. -/
theorem literal_grammar (r : IvlRec) (ctype : IntervalType) (w : WStr) :
    ReadsLiterals r ctype w ↔ LiteralAsMeant r ctype w := by
  constructor
  · intro h
    exact ⟨fun _ _ _ ↦ h.plain, fun _ _ _ ↦ h.minute, h.quote, h.type⟩
  · intro h
    refine ⟨fun t sign ↦ ⟨?_, h.literal⟩, fun ivl hok ↦ ?_, fun head hhead ↦ ?_, h.refused⟩
    · rintro ⟨v, hok⟩
      obtain ⟨value, v', htext, hvalue, -⟩ := h.accepted hok
      exact ⟨value, v', htext.weaken, hvalue⟩
    · obtain ⟨value, -, htext, -, hread⟩ := h.accepted hok
      exact ⟨value, htext.weaken, hread⟩
    · obtain ⟨hwrapped, words, -, htext⟩ := literalText_of_head h.quote hhead
      exact ⟨hwrapped, htext.inside⟩

/-- `MONTH TO MINUTE` is taken for `MONTH`. -/
theorem literal_month_to_minute :
    (parseIntervalLiteral ⟨6, 2⟩ (wstr "INTERVAL 5 MONTH TO MINUTE")).2 =
        .ok ⟨.month, false, IntVal.zero.set 5 .month⟩ ∧
      ¬ReadsLiterals ⟨6, 2⟩ .month (wstr "INTERVAL 5 MONTH TO MINUTE") := by
  have hok : (parseIntervalLiteral ⟨6, 2⟩ (wstr "INTERVAL 5 MONTH TO MINUTE")).2 =
      .ok ⟨.month, false, IntVal.zero.set 5 .month⟩ := by decide +kernel
  refine ⟨hok, fun h ↦ ?_⟩
  obtain ⟨value, v, ⟨y, q, _, hframed, hq, -⟩, -⟩ := (h.accepted .month false).mp ⟨_, hok⟩
  obtain ⟨hbody, htrim⟩ := hframed.body (t := .month) (.inl rfl) hq
  have hbody' : literalBody (wstr "INTERVAL 5 MONTH TO MINUTE") =
      some (wstr "5 MONTH TO MINUTE") := by decide +kernel
  have hnone : trimWords (qualifier .month) (wstr "5 MONTH TO MINUTE") = none := by
    decide +kernel
  rw [hbody', Option.some.injEq] at hbody
  rw [← hbody, hnone] at htrim
  cases htrim

end EsOdbc
