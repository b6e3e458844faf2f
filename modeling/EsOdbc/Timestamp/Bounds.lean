import EsOdbc.Timestamp.Classified

/-!
# Bounds of timestamp texts

Which memory `parse_date_time_ts` and `wstr_to_timestamp_struct` touch.  The scratch buffer of the
one is a unit short, and the text of an application is written to and may be read past its end.
-/

namespace EsOdbc

/-! ## The parser -/

/-- How far the parser looks behind a text. -/
theorem length_of_pastEnd {w : WStr} {behind : ℕ}
    (h : timestampParse w = .error (.pastEnd behind)) :
    isoMinLen ≤ w.length ∧ w.length + behind < isoMaxLen := by
  obtain ⟨s, west, cur, hcut, rfl⟩ := timestampParse_eq_pastEnd.mp h
  have hstem := s.length_text
  have hpoint : s.text.length ≤ timestampTemplateLen + 10 := by
    have hfrac := s.length_pointText
    rw [Stem.text, List.length_append, List.length_cons, List.length_append, length_dateText,
      length_clockText]
    unfold dateTemplateLen timeTemplateLen timestampTemplateLen
    omega
  have hcur : cur.length + behind ≤ 4 := by
    rcases hcut with ⟨hlen, rfl⟩ | ⟨rfl, hours, ds, hds, rfl⟩
    · omega
    · simp only [List.length_append, length_padded, List.length_cons, digitUnits_length]
      omega
  rw [List.length_append, List.length_cons]
  unfold timestampTemplateLen at hstem hpoint
  unfold isoMinLen isoMaxLen
  omega

theorem timestampFields_eq_pastEnd {w : WStr} {behind : ℕ} :
    timestampFields w = .error (.pastEnd behind) ↔ timestampParse w = .error (.pastEnd behind) := by
  rw [timestampFields]
  cases timestampParse w with
  | error e => simp [Except.bind]
  | ok ts =>
    rw [Except.bind]
    cases timestampToTmUtc ts <;> simp

theorem isoFields_outside {w : WStr} {room : ℕ} : (isoFields w room).outside = true ↔
    ∃ behind, timestampParse w = .error (.pastEnd behind) ∧ room ≤ behind := by
  simp only [← timestampFields_eq_pastEnd]
  rw [isoFields]
  split
  · next h => simp [h]
  · next h => simp [h]
  · next h => simp [h]

/-- In a buffer for the longest timestamp the parser stays. -/
theorem isoFields_buffer (w : WStr) {room : ℕ} (h : isoMaxLen ≤ w.length + room) :
    (isoFields w room).outside = false := by
  rw [← Bool.not_eq_true, isoFields_outside]
  rintro ⟨behind, hpast, hroom⟩
  have := (length_of_pastEnd hpast).2
  omega

/-- `parse_iso8601_timestamp` on a narrow text. -/
theorem parseIso8601Timestamp_outside {ctx : ZoneContext} {toUtc : Bool} {w : WStr} {room : ℕ} :
    (parseIso8601Timestamp ctx toUtc (.narrow w room)).outside = true ↔
      ∃ behind, timestampParse w = .error (.pastEnd behind) ∧ room ≤ behind := by
  rw [parseIso8601Timestamp]
  dsimp only
  by_cases hlen : w.length < isoMinLen ∨ isoMaxLen < w.length
  · rw [if_pos hlen]
    constructor
    · intro h
      cases h
    · rintro ⟨behind, hpast, -⟩
      have := length_of_pastEnd hpast
      omega
  · rw [if_neg hlen, isoFields_outside]

/-! ## `parse_date_time_ts` -/

/-- A text for a timestamp is the source, or the source with a blank replaced and a letter
added. -/
theorem classify_cases {today : IsoDate} {td w : WStr} {ty : DateTimeType} {iso : Bool}
    (h : classify today td = some (ty, iso, w)) :
    (ty = .timestamp ∧ timestampTemplateLen ≤ td.length ∧
      ((td.getD dateTemplateLen 0 = 0x20 ∧ iso = false ∧ w.length = td.length + 1) ∨
        (td.getD dateTemplateLen 0 ≠ 0x20 ∧ iso = true ∧ w = td))) ∨
    (ty ≠ .timestamp ∧ td.length < timestampTemplateLen) := by
  by_cases hlen : timestampTemplateLen ≤ td.length
  · rw [classify_long hlen] at h
    by_cases hblank : td.getD dateTemplateLen 0 = 0x20
    · rw [if_pos hblank, Option.some.injEq, Prod.mk.injEq, Prod.mk.injEq] at h
      obtain ⟨rfl, rfl, rfl⟩ := h
      exact .inl ⟨rfl, hlen, .inl ⟨hblank, rfl, by simp⟩⟩
    · rw [if_neg hblank, Option.some.injEq, Prod.mk.injEq, Prod.mk.injEq] at h
      obtain ⟨rfl, rfl, rfl⟩ := h
      exact .inl ⟨rfl, hlen, .inr ⟨hblank, rfl, rfl⟩⟩
  · refine .inr ⟨?_, not_le.mp hlen⟩
    rintro rfl
    by_cases hcolons : timeTemplateLen ≤ td.length ∧ td.getD 2 0 = 0x3A ∧ td.getD 5 0 = 0x3A
    · rw [classify_time hlen hcolons] at h
      split_ifs at h <;> cases h
    · rw [classify_date hlen hcolons] at h
      split_ifs at h
      cases h

theorem length_templ : templ.length = isoMaxLen := rfl

/-- A text that is made up into a timestamp stays in the template. -/
theorem dateTimeOf_short {ctx : ZoneContext} {sql2c buffer : Bool} {td : WStr} {room : ℕ}
    (h : td.length < timestampTemplateLen) :
    (dateTimeOf ctx sql2c td buffer room).outside = false := by
  rw [dateTimeOf]
  cases hclassify : classify ctx.today td with
  | none => rfl
  | some found =>
    obtain ⟨ty, iso, w⟩ := found
    rcases classify_cases hclassify with ⟨-, hlong, -⟩ | ⟨hty, -⟩
    · exact absurd hlong (not_le.mpr h)
    rw [Option.elim_some]
    dsimp only
    rw [if_neg hty, decide_eq_false hty, Bool.false_and, Bool.false_and, Bool.false_or,
      ← Bool.not_eq_true, parseIso8601Timestamp_outside]
    rintro ⟨behind, hpast, hroom⟩
    have := (length_of_pastEnd hpast).2
    rw [length_templ] at hroom
    omega

/-- A text with a blank is written to. -/
theorem dateTimeOf_blank {ctx : ZoneContext} {sql2c buffer : Bool} {td : WStr} {room : ℕ}
    (hlen : timestampTemplateLen ≤ td.length) (hblank : td.getD dateTemplateLen 0 = 0x20) :
    (dateTimeOf ctx sql2c td buffer room).outside = true ↔ buffer = false ∨ room = 0 ∨ ∃ behind,
      timestampParse (td.set dateTemplateLen 0x54 ++ [0x5A]) = .error (.pastEnd behind) ∧
        room - 1 ≤ behind := by
  have hadded : (td.set dateTemplateLen 0x54 ++ [0x5A]).length - td.length = 1 := by simp
  rw [dateTimeOf, classify_long hlen, if_pos hblank, Option.elim_some]
  dsimp only
  rw [if_pos rfl, Bool.or_eq_true, parseIso8601Timestamp_outside, hadded, ← or_assoc]
  refine or_congr ?_ Iff.rfl
  cases buffer <;> simp [Nat.pos_iff_ne_zero]

/-- A text that is as ISO 8601 has it is read where it is. -/
theorem dateTimeOf_letter {ctx : ZoneContext} {sql2c buffer : Bool} {td : WStr} {room : ℕ}
    (hlen : timestampTemplateLen ≤ td.length) (hletter : td.getD dateTemplateLen 0 ≠ 0x20) :
    (dateTimeOf ctx sql2c td buffer room).outside = true ↔
      ∃ behind, timestampParse td = .error (.pastEnd behind) ∧ room ≤ behind := by
  rw [dateTimeOf, classify_long hlen, if_neg hletter, Option.elim_some]
  dsimp only
  rw [if_pos rfl, Bool.or_eq_true, parseIso8601Timestamp_outside, Nat.sub_self, Nat.sub_zero]
  simp

/-- Within the buffer nothing goes wrong. -/
theorem dateTimeOf_buffer {ctx : ZoneContext} {sql2c : Bool} {td : WStr}
    (h : td.length < isoMaxLen) :
    (dateTimeOf ctx sql2c td true (isoMaxLen - td.length)).outside = false := by
  by_cases hlen : timestampTemplateLen ≤ td.length
  · rw [← Bool.not_eq_true]
    by_cases hblank : td.getD dateTemplateLen 0 = 0x20
    · rw [dateTimeOf_blank hlen hblank]
      rintro (hc | hroom | ⟨behind, hpast, hroom⟩)
      · cases hc
      · omega
      · have := (length_of_pastEnd hpast).2
        rw [List.length_append, List.length_set, List.length_singleton] at this
        omega
    · rw [dateTimeOf_letter hlen hblank]
      rintro ⟨behind, hpast, hroom⟩
      have := (length_of_pastEnd hpast).2
      omega
  · exact dateTimeOf_short (not_le.mp hlen)

/-- When a text of the caller is touched where it is not to be. -/
theorem dateTimeOf_source {ctx : ZoneContext} {sql2c : Bool} {td : WStr} {room : ℕ} :
    (dateTimeOf ctx sql2c td false room).outside = true ↔
      (timestampTemplateLen ≤ td.length ∧ td.getD dateTemplateLen 0 = 0x20) ∨
        ∃ behind, timestampParse td = .error (.pastEnd behind) ∧ room ≤ behind := by
  by_cases hlen : timestampTemplateLen ≤ td.length
  · by_cases hblank : td.getD dateTemplateLen 0 = 0x20
    · exact iff_of_true ((dateTimeOf_blank hlen hblank).mpr (.inl rfl)) (.inl ⟨hlen, hblank⟩)
    · rw [dateTimeOf_letter hlen hblank, or_iff_right fun h ↦ hblank h.2]
  · rw [dateTimeOf_short (not_le.mp hlen)]
    refine iff_of_false (by simp) ?_
    rintro (h | ⟨behind, hpast, -⟩)
    · exact hlen h.1
    · have := (length_of_pastEnd hpast).1
      unfold isoMinLen at this
      unfold timestampTemplateLen at hlen
      omega

/-! ## Reports -/

/-- A text that is read is in ASCII, and no longer than a timestamp. -/
theorem ReadAs.ascii {today : IsoDate} {td : WStr} {ty : DateTimeType} {iso : Bool} {s : Stamp}
    (h : ReadAs today td ty iso s) : td.length ≤ isoMaxLen ∧ ∀ c ∈ td, c ≠ 0 ∧ c ≤ 127 := by
  have hstamp : s.text.length ≤ isoMaxLen ∧ ∀ c ∈ s.text, c ≠ 0 ∧ c ≤ 127 :=
    ⟨s.length_text.2, (DateTimeText.timestamp s.toStem (some s.zone)).ascii⟩
  cases h with
  | @time clock frac zone short capital length =>
    refine ⟨length.le.trans (by decide), (DateTimeText.time clock frac zone).ascii⟩
  | date long short whole =>
    refine ⟨short.le.trans (by decide), fun c hc ↦ hstamp.2 c ?_⟩
    rw [← whole]
    exact List.mem_append_left _ hc
  | @sql stem blank =>
    have hascii := (DateTimeText.timestamp stem none).ascii
    rw [DateTimeText.text, zoneText, Option.elim_none, List.append_nil] at hascii
    refine ⟨?_, hascii⟩
    have hlen := hstamp.1
    rw [Stamp.text, List.length_append, ← stem.text_set .upper, List.length_set] at hlen
    exact (Nat.le_add_right _ _).trans hlen
  | iso letter => exact hstamp

/-- No other memory is touched, and a text that is too long or not of ASCII is an error. -/
def Access.Sound {α : Type} (a : Access (Except SqlState α)) (units : WStr) : Prop :=
  a.outside = false ∧
    (isoMaxLen < units.length ∨ (∃ c ∈ units, 127 < c) → ∃ e, a.result = .error e)

/-- A NUL hides that a text is too long or not of ASCII, when `Accepted` is what is in front of
it. -/
def HiddenByNul (Accepted : WStr → Prop) (w : WStr) : Prop :=
  (isoMaxLen < w.length ∨ ∃ c ∈ w, 127 < c) ∧ AsciiEnds w ∧ Accepted (asciiRun w)

/-- What `parse_date_time_ts` converts. -/
def Converts (ctx : ZoneContext) (sql2c : Bool) (td : WStr) : Prop :=
  ∃ ty iso s, ReadAs ctx.today td ty iso s ∧ ∃ tss, Shows s.value.sec (nanos s.frac) tss ∧
    ∃ r, adjusted ctx sql2c ty iso tss = .ok r

theorem converts_iff {ctx : ZoneContext} {sql2c : Bool} {junk : WStr} {src : XStr} :
    (∃ e, (parseDateTimeTs ctx sql2c junk src).result = .error e) ↔
      ∀ td ∈ src.seen, ¬Converts ctx sql2c td := by
  rw [rejected_iff]
  constructor
  · rintro h td htd ⟨ty, iso, s, hread, tss, hshows, r, hok⟩
    obtain ⟨e, he⟩ := h td htd ty iso s hread tss hshows
    rw [he] at hok
    cases hok
  · intro h td htd ty iso s hread tss hshows
    cases hadjusted : adjusted ctx sql2c ty iso tss with
    | error e => exact ⟨e, rfl⟩
    | ok r => exact absurd ⟨ty, iso, s, hread, tss, hshows, r, hadjusted⟩ (h td htd)

/-! ## Sources -/

/-- The units that are written fit the scratch buffer, which holds `junk` at first.  When the text
is not of ASCII its count wraps around, and a blank in the buffer is taken for its separator. -/
def FitsScratch (junk w : WStr) : Prop :=
  if w ≠ [] ∧ AsciiEnds w then (asciiRun w).length < isoMaxLen
  else (asciiRun w).length ≤ isoMaxLen ∧
    (asciiRun w ++ junk.drop (asciiRun w).length).getD dateTemplateLen 0 ≠ 0x20

/-- The sources on which `parse_date_time_ts` is sound.  A narrow text has no blank to be replaced
and no zone that is cut short at the end of its memory. -/
def SoundSource (ctx : ZoneContext) (sql2c : Bool) (junk : WStr) : XStr → Prop
  | .wide w => FitsScratch junk w ∧ ¬HiddenByNul (Converts ctx sql2c) w
  | .narrow s room =>
    ¬((timestampTemplateLen ≤ s.length ∧ s.getD dateTemplateLen 0 = 0x20) ∨
      ∃ behind, room ≤ behind ∧ ∃ (stem : Stem) (west : Bool) (cur : WStr),
        CutZone behind cur ∧ s = stem.text ++ (if west then 0x2D else 0x2B) :: cur)

theorem asciiW2cWrites_eq (w : WStr) :
    asciiW2cWrites w =
      if w ≠ [] ∧ AsciiEnds w then (((asciiRun w).length + 1 : ℤ), asciiRun w ++ [0])
      else (-((asciiRun w).length + 1 : ℤ), asciiRun w) := by
  rw [asciiW2cWrites]
  by_cases hnil : w = []
  · subst hnil
    rfl
  · rw [if_neg hnil, asciiW2cLoop_eq]
    by_cases hends : AsciiEnds w
    · rw [if_pos hends, if_pos ⟨hnil, hends⟩, Nat.cast_zero, zero_add]
    · rw [if_neg hends, if_neg fun h ↦ hends h.2, Nat.cast_zero, zero_add]

/-- What `parse_date_time_ts` touches of a wide text. -/
theorem parseDateTimeTs_wide_outside {ctx : ZoneContext} {sql2c : Bool} {junk w : WStr} :
    (parseDateTimeTs ctx sql2c junk (.wide w)).outside = false ↔ FitsScratch junk w := by
  rw [parseDateTimeTs, FitsScratch, asciiW2cWrites_eq]
  by_cases hseen : w ≠ [] ∧ AsciiEnds w
  · have hcount : ((asciiRun w).length + 1 - 1 : ℤ).toNat = (asciiRun w).length := by simp
    rw [if_pos hseen, if_pos hseen]
    dsimp only
    rw [if_neg (by omega), hcount, List.take_left, Bool.or_eq_false_iff, decide_eq_false_iff_not,
      List.length_append, List.length_singleton, not_lt]
    exact ⟨fun h ↦ h.1, fun h ↦ ⟨h, dateTimeOf_buffer h⟩⟩
  · rw [if_neg hseen, if_neg hseen]
    dsimp only
    rw [if_pos (by omega), Bool.or_eq_false_iff, decide_eq_false_iff_not, decide_eq_false_iff_not,
      not_lt]

theorem seen_wide {w td : WStr} :
    td ∈ (XStr.wide w).seen ↔ (w ≠ [] ∧ AsciiEnds w) ∧ asciiRun w = td := by
  rw [XStr.seen, Option.mem_def]
  split_ifs with h
  · simp [h]
  · simp [h]

theorem hiddenByNul_iff {Accepted : WStr → Prop} {w : WStr} :
    ¬HiddenByNul Accepted w ↔ (isoMaxLen < w.length ∨ (∃ c ∈ w, 127 < c) →
      ∀ td ∈ (XStr.wide w).seen, ¬Accepted td) := by
  rw [HiddenByNul, not_and, not_and]
  refine forall_congr' fun hbad ↦ ?_
  have hne : w ≠ [] := by
    rintro rfl
    simp at hbad
  constructor
  · intro h td htd
    obtain ⟨⟨-, hends⟩, rfl⟩ := seen_wide.mp htd
    exact h hends
  · intro h hends
    exact h _ (seen_wide.mpr ⟨⟨hne, hends⟩, rfl⟩)

theorem parseDateTimeTs_sound (ctx : ZoneContext) (sql2c : Bool) (junk : WStr) (src : XStr) :
    (parseDateTimeTs ctx sql2c junk src).Sound src.units ↔ SoundSource ctx sql2c junk src := by
  rw [Access.Sound, converts_iff]
  cases src with
  | wide w => rw [parseDateTimeTs_wide_outside, XStr.units, SoundSource, hiddenByNul_iff]
  | narrow s room =>
    have hreport : isoMaxLen < s.length ∨ (∃ c ∈ s, 127 < c) →
        ∀ td ∈ (XStr.narrow s room).seen, ¬Converts ctx sql2c td := by
      rintro hbad td htd ⟨ty, iso, stamp, hread, -⟩
      rw [XStr.seen, Option.mem_some_iff] at htd
      subst htd
      obtain ⟨hlen, hascii⟩ := hread.ascii
      rcases hbad with hlong | ⟨c, hc, hwide⟩
      · exact absurd hlen (not_le.mpr hlong)
      · exact absurd hwide (UInt16.not_lt.mpr (hascii c hc).2)
    rw [XStr.units, and_iff_left hreport, SoundSource, parseDateTimeTs, ← Bool.not_eq_true, dateTimeOf_source]
    simp only [timestampParse_eq_pastEnd, and_comm]

/-! ## `wstr_to_timestamp_struct` -/

/-- What `parse_iso8601_timestamp` converts of a wide text. -/
def ConvertsIso (ctx : ZoneContext) (toUtc : Bool) (td : WStr) : Prop :=
  ∃ s : Stamp, td = s.text ∧ ∃ tss, Shows s.value.sec (nanos s.frac) tss ∧
    ∃ r, (if toUtc then .ok tss else shifted ctx.toLocal tss) = .ok r

theorem parseIso8601Timestamp_wide_outside (ctx : ZoneContext) (toUtc : Bool) (w : WStr) :
    (parseIso8601Timestamp ctx toUtc (.wide w)).outside = false := by
  rw [parseIso8601Timestamp, asciiW2cWrites_eq]
  dsimp only
  by_cases hlen : w.length < isoMinLen ∨ isoMaxLen < w.length
  · rw [if_pos hlen]
  rw [if_neg hlen]
  have hrun : (asciiRun w).length ≤ w.length := (List.takeWhile_sublist _).length_le
  by_cases hseen : w ≠ [] ∧ AsciiEnds w
  · have hcount : ((asciiRun w).length + 1 - 1 : ℤ).toNat = (asciiRun w).length := by simp
    rw [if_pos hseen]
    dsimp only
    rw [if_neg (by omega), hcount, List.take_left, isoFields_buffer _ (by omega), Bool.false_or,
      decide_eq_false_iff_not, List.length_append, List.length_singleton]
    omega
  · rw [if_neg hseen]
    dsimp only
    rw [if_pos (by omega), decide_eq_false_iff_not]
    omega

/-- What `parse_iso8601_timestamp` rejects of wide texts. -/
theorem parseIso8601Timestamp_wide_error {ctx : ZoneContext} {toUtc : Bool} {w : WStr} :
    (∃ e, (parseIso8601Timestamp ctx toUtc (.wide w)).result = .error e) ↔
      (w.length ≤ isoMaxLen → ∀ td ∈ (XStr.wide w).seen, ¬ConvertsIso ctx toUtc td) := by
  have hrun : (asciiRun w).length ≤ w.length := (List.takeWhile_sublist _).length_le
  rw [parseIso8601Timestamp, asciiW2cWrites_eq]
  dsimp only
  by_cases hlen : w.length < isoMinLen ∨ isoMaxLen < w.length
  · rw [if_pos hlen]
    refine iff_of_true ⟨_, rfl⟩ ?_
    rintro hle td htd ⟨s, rfl, -⟩
    obtain ⟨-, hstamp⟩ := seen_wide.mp htd
    have := s.length_text.1
    rw [hstamp] at hrun
    unfold isoMinLen at hlen
    omega
  rw [if_neg hlen]
  have hle : w.length ≤ isoMaxLen := by omega
  rw [forall_prop_of_true hle]
  by_cases hseen : w ≠ [] ∧ AsciiEnds w
  · have hcount : ((asciiRun w).length + 1 - 1 : ℤ).toNat = (asciiRun w).length := by simp
    rw [if_pos hseen]
    dsimp only
    rw [if_neg (by omega), hcount, List.take_left]
    cases hfields : (isoFields (asciiRun w) (isoMaxLen + 1 - (asciiRun w).length)).result with
    | error e =>
      refine iff_of_true ⟨e, by simp [Except.bind]⟩ ?_
      rintro td htd ⟨s, rfl, tss, hshows, -⟩
      obtain ⟨-, hstamp⟩ := seen_wide.mp htd
      rw [isoFields_eq_ok.mpr (timestampFields_eq_ok.mpr ⟨s, hstamp, hshows⟩)] at hfields
      cases hfields
    | ok tss =>
      obtain ⟨s, hstamp, hshows⟩ := timestampFields_eq_ok.mp (isoFields_eq_ok.mp hfields)
      dsimp only [Except.bind]
      constructor
      · rintro ⟨e, he⟩ td htd ⟨s', rfl, tss', hshows', r, hok⟩
        obtain ⟨-, hstamp'⟩ := seen_wide.mp htd
        have hfields' := timestampFields_eq_ok.mpr ⟨s', hstamp', hshows'⟩
        rw [isoFields_eq_ok.mp hfields, Except.ok.injEq] at hfields'
        rw [hfields', hok] at he
        cases he
      · intro h
        cases hshift : (if toUtc then Except.ok tss else shifted ctx.toLocal tss) with
        | error e => exact ⟨e, rfl⟩
        | ok r => exact absurd ⟨s, hstamp, tss, hshows, r, hshift⟩ (h _ (seen_wide.mpr ⟨hseen, rfl⟩))
  · rw [if_neg hseen]
    dsimp only
    rw [if_pos (by omega)]
    exact iff_of_true ⟨_, rfl⟩ fun td htd ↦ absurd (seen_wide.mp htd).1 hseen

/-- The texts on which `wstr_to_timestamp_struct` is sound, once the blanks around them are
taken off. -/
def SoundColumn (ctx : ZoneContext) (junk w : WStr) : DateTimeColumn → Prop
  | .date => ¬(w.length ≤ isoMaxLen ∧ HiddenByNul (ConvertsIso ctx true) w)
  | .timestamp => ¬(w.length ≤ isoMaxLen ∧ HiddenByNul (ConvertsIso ctx (!ctx.applyTz)) w)
  | .time => FitsScratch junk w ∧ ¬HiddenByNul (Converts ctx true) w
  | .varchar => FitsScratch junk w ∧ ¬HiddenByNul (Converts ctx true) w
  | .char => True
  | .other => True

theorem rewriteState_error {α : Type} {r : Except SqlState α} :
    (∃ e, rewriteState r = .error e) ↔ ∃ e, r = .error e := by
  rcases r with e | x
  · refine iff_of_true ?_ ⟨e, rfl⟩
    cases e <;> exact ⟨_, rfl⟩
  · exact Iff.rfl

theorem map_error {α β : Type} {r : Except SqlState α} {f : α → β} :
    (∃ e, r.map f = .error e) ↔ ∃ e, r = .error e := by
  cases r <;> simp [Except.map]

theorem sound_iso {α : Type} {ctx : ZoneContext} {toUtc : Bool} {w : WStr} {r : Except SqlState α}
    {outside : Bool} (ht : outside = (parseIso8601Timestamp ctx toUtc (.wide w)).outside)
    (hr : (∃ e, r = .error e) ↔
      ∃ e, (parseIso8601Timestamp ctx toUtc (.wide w)).result = .error e) :
    (Access.mk r outside).Sound w ↔
      ¬(w.length ≤ isoMaxLen ∧ HiddenByNul (ConvertsIso ctx toUtc) w) := by
  rw [Access.Sound, ht, and_iff_right (parseIso8601Timestamp_wide_outside ctx toUtc w), hr,
    parseIso8601Timestamp_wide_error, not_and, hiddenByNul_iff, forall_comm]

end EsOdbc
