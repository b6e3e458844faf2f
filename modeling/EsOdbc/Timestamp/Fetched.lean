import EsOdbc.Timestamp.Translate

/-!
# Dates and times fetched

When a date, a time or a timestamp that is fetched as text is the one that is fetched as a structure,
and for which texts the translations keep to their buffers.
-/

namespace EsOdbc

open Calendar (Date)

/-! ## The texts of the server -/

/-- A point or a digit. -/
def inFraction (c : UInt16) : Bool := c = 0x2E || (digitOf c).isSome

theorem takeWhile_pointText (f : Option Digits) (z : Option Zone) :
    (pointText f ++ zoneText z).takeWhile inFraction = pointText f := by
  have hpoint : ∀ c ∈ pointText f, inFraction c = true := by
    intro c hc
    cases f with
    | none => cases hc
    | some ds =>
      obtain rfl | hc := List.mem_cons.mp hc
      · rfl
      · obtain ⟨d, -, rfl⟩ := List.mem_map.mp hc
        rw [inFraction, digitOf_digitUnit, Option.isSome_some, Bool.or_true]
  have hzone : (zoneText z).takeWhile inFraction = [] := by
    cases z with
    | none => rfl
    | some z =>
      cases z with
      | utc lower => cases lower <;> rfl
      | shifted west hours minutes => cases west <;> rfl
  rw [List.takeWhile_append_of_pos hpoint, hzone, List.append_nil]

/-- The fraction of a time is given by its text. -/
theorem frac_unique {c c' : Clock} {f f' : Option Digits} {z z' : Option Zone}
    (h : c.text ++ (pointText f ++ zoneText z) = c'.text ++ (pointText f' ++ zoneText z')) : f = f' := by
  have hrest := (List.append_inj h (by rw [length_clockText, length_clockText])).2
  have hpoint := congrArg (List.takeWhile inFraction) hrest
  rw [takeWhile_pointText, takeWhile_pointText] at hpoint
  cases f with
  | none =>
    cases f' with
    | none => rfl
    | some ds => cases hpoint
  | some ds =>
    cases f' with
    | none => cases hpoint
    | some ds' => rw [digitUnits_injective (List.cons.inj hpoint).2]

/-- A text without a blank is not trimmed. -/
theorem trimWs_self {w : WStr} (h : ∀ c ∈ w, isSpace true c = false) : (trimWs true w).2 = w := by
  have hleft : w.dropWhile (isSpace true) = w := by
    cases w with
    | nil => rfl
    | cons c w =>
      exact List.dropWhile_cons_of_neg (by rw [h c List.mem_cons_self]; exact Bool.false_ne_true)
  rw [trimWs]
  dsimp only
  rw [hleft]
  refine List.rdropWhile_eq_self_iff.mpr fun hne ↦ ?_
  rw [h _ (List.getLast_mem hne)]
  exact Bool.false_ne_true

theorem bind_shifted {read : Except SqlState TimestampStruct} {ctx : ZoneContext}
    {tss : TimestampStruct}
    (h : (read.bind fun tss ↦ if true then .ok tss else shifted ctx.toLocal tss) = .ok tss)
    (toUtc : Bool) : (read.bind fun tss ↦ if toUtc then .ok tss else shifted ctx.toLocal tss) =
      if toUtc then .ok tss else shifted ctx.toLocal tss := by
  cases read with
  | error e => cases h
  | ok tss' =>
    obtain rfl := Except.ok.inj h
    rfl

/-- What is read in UTC is what is shifted. -/
theorem parseIso8601Timestamp_of_utc {ctx : ZoneContext} {src : XStr} {tss : TimestampStruct}
    (h : (parseIso8601Timestamp ctx true src).result = .ok tss) (toUtc : Bool) :
    (parseIso8601Timestamp ctx toUtc src).result =
      if toUtc then .ok tss else shifted ctx.toLocal tss := bind_shifted h toUtc

/-- The units of the texts. -/
def stampUnits : WStr := digitUnits (List.finRange 10) ++ [0x2B, 0x2D, 0x2E, 0x3A, 0x54, 0x5A, 0x7A]

theorem stampUnits_plain {c : UInt16} (h : c ∈ stampUnits) :
    isSpace true c = false ∧ c ≠ 0 ∧ c ≤ 127 := by
  have hall : stampUnits.all (fun c ↦ !isSpace true c && (c ≠ 0 && c ≤ 127)) = true := by
    decide +kernel
  have hc := List.all_eq_true.mp hall c h
  rw [Bool.and_eq_true, Bool.and_eq_true, Bool.not_eq_true', decide_eq_true_eq, decide_eq_true_eq] at hc
  exact hc

theorem mem_stampUnits_digit (d : Fin 10) : digitUnit d ∈ stampUnits :=
  List.mem_append_left _ (List.mem_map_of_mem (List.mem_finRange d))

theorem mem_stampUnits_digits {ds : List (Fin 10)} {c : UInt16} (h : c ∈ digitUnits ds) :
    c ∈ stampUnits := by
  obtain ⟨d, -, rfl⟩ := List.mem_map.mp h
  exact mem_stampUnits_digit d

namespace ServerTime

variable (t : ServerTime)

theorem mem_units {c : UInt16} (h : c ∈ t.text) : c ∈ stampUnits := by
  have hsign {c : UInt16} (h : c ∈ ([0x2B, 0x2D, 0x2E, 0x3A, 0x54, 0x5A, 0x7A] : WStr)) :
      c ∈ stampUnits := List.mem_append_right _ h
  rw [text, List.mem_append, List.mem_append] at h
  obtain h | h | h := h
  · simp only [Clock.text, List.mem_append, List.mem_cons] at h
    obtain h | rfl | h | rfl | h := h
    · exact mem_stampUnits_digits h
    · exact hsign (by decide)
    · exact mem_stampUnits_digits h
    · exact hsign (by decide)
    · exact mem_stampUnits_digits h
  · cases hf : t.frac with
    | none =>
      rw [hf] at h
      cases h
    | some ds =>
      rw [hf] at h
      obtain rfl | h := List.mem_cons.mp h
      · exact hsign (by decide)
      · exact mem_stampUnits_digits h
  · cases hz : t.zone with
    | utc lower =>
      rw [hz] at h
      obtain rfl := List.mem_singleton.mp h
      cases lower <;> exact hsign (by decide)
    | shifted west hours minutes =>
      rw [hz] at h
      simp only [Zone.text, List.mem_append, List.mem_cons] at h
      obtain rfl | h | rfl | h := h
      · cases west <;> exact hsign (by decide)
      · exact mem_stampUnits_digits h
      · exact hsign (by decide)
      · exact mem_stampUnits_digits h

theorem trim : (trimWs true t.text).2 = t.text :=
  trimWs_self fun _ hc ↦ (stampUnits_plain (t.mem_units hc)).1

theorem ascii {c : UInt16} (h : c ∈ t.text) : c ≠ 0 ∧ c ≤ 127 := (stampUnits_plain (t.mem_units h)).2

end ServerTime

namespace ServerStamp

variable (s : ServerStamp)

theorem mem_units {c : UInt16} (h : c ∈ s.text) : c ∈ stampUnits := by
  rw [text, List.mem_append, List.mem_cons] at h
  obtain h | rfl | h := h
  · simp only [dateText, List.mem_append, List.mem_cons] at h
    obtain h | rfl | h | rfl | h := h
    · exact mem_stampUnits_digits h
    · exact List.mem_append_right _ (by decide)
    · exact mem_stampUnits_digits h
    · exact List.mem_append_right _ (by decide)
    · exact mem_stampUnits_digits h
  · exact List.mem_append_right _ (by decide)
  · exact s.toServerTime.mem_units h

theorem trim : (trimWs true s.text).2 = s.text :=
  trimWs_self fun _ hc ↦ (stampUnits_plain (s.mem_units hc)).1

theorem ascii {c : UInt16} (h : c ∈ s.text) : c ≠ 0 ∧ c ≤ 127 := (stampUnits_plain (s.mem_units h)).2

/-- The timestamp that is written. -/
def stamp (short : ShortFrac s.frac) : Stamp := ⟨⟨s.date, .upper, s.clock, s.frac, short⟩, s.zone⟩

theorem text_stamp (short : ShortFrac s.frac) : (s.stamp short).text = s.text := by
  rw [Stamp.text, Stem.text, text, ServerTime.text, List.append_assoc, List.cons_append,
    List.append_assoc]
  rfl

/-- A fraction that is too long is in no timestamp. -/
theorem short_of_text {x : Stamp} (h : s.text = x.text) : ShortFrac s.frac := by
  rw [text, Stamp.text, Stem.text, List.append_assoc, List.cons_append, List.append_assoc] at h
  have hrest := (List.append_inj h (by rw [length_dateText, length_dateText])).2
  rw [@frac_unique s.clock x.clock s.frac x.frac (some s.zone) (some x.zone) (List.cons.inj hrest).2]
  exact x.short

/-- A timestamp with a short fraction is read. -/
theorem exists_read (short : ShortFrac s.frac) (ctx : ZoneContext) :
    ∃ d c, instant d c = instant s.date.toDate s.clock - s.zone.offset * 60 ∧
      ∀ toUtc, (parseIso8601Timestamp ctx toUtc (.wide s.text)).result =
        if toUtc then .ok (stampFields d c (nanos s.frac))
        else shifted ctx.toLocal (stampFields d c (nanos s.frac)) := by
  obtain ⟨d, c, hinstant, -⟩ := (s.stamp short).exists_fields
  refine ⟨d, c, hinstant, fun toUtc ↦ ?_⟩
  have hutc := @parseIso8601Timestamp_wide_text ctx (s.stamp short) _ ⟨d, c, hinstant, rfl⟩
  rw [s.text_stamp short] at hutc
  exact parseIso8601Timestamp_of_utc hutc toUtc

/-- One with a longer fraction is not. -/
theorem exists_error (long : ¬ShortFrac s.frac) (ctx : ZoneContext) (toUtc : Bool) :
    ∃ e, (parseIso8601Timestamp ctx toUtc (.wide s.text)).result = .error e := by
  refine parseIso8601Timestamp_wide_error.mpr fun _ td htd ⟨x, hx, _⟩ ↦ ?_
  obtain ⟨-, hrun⟩ := seen_wide.mp htd
  rw [asciiRun_self fun c hc ↦ s.ascii hc] at hrun
  exact long (s.short_of_text (hrun.trans hx))

end ServerStamp

/-- A time with a short fraction is read when it is short enough. -/
theorem exists_time {clock : Clock} {frac : Option Digits} {zone : Option Zone} (short : ShortFrac frac)
    (capital : zone ≠ some (.utc true))
    (length : (clock.text ++ (pointText frac ++ zoneText zone)).length < timestampTemplateLen)
    (ctx : ZoneContext) (junk : WStr) :
    ∃ d c, instant d c = instant ctx.today.toDate clock - zone.elim 0 Zone.offset * 60 ∧
      (parseDateTimeTs ctx true junk (.wide (clock.text ++ (pointText frac ++ zoneText zone)))).result =
        (adjusted ctx true .time zone.isSome (stampFields d c (nanos frac))).map (·, .time) := by
  have hwell : (DateTimeText.time clock frac zone).WellFormed := ⟨short, capital⟩
  obtain ⟨iso, s, tss, hread, hshows, hmeans, hadjusted⟩ :=
    (DateTimeText.time clock frac zone).exists_readAs hwell length ctx true
  obtain ⟨d, c, hinstant, rfl⟩ := (hmeans tss).mpr rfl
  refine ⟨d, c, hinstant, ?_⟩
  have hseen := @XStr.seen_units (.wide (DateTimeText.time clock frac zone).text)
    (DateTimeText.text_ne_nil (.time clock frac zone)) (@DateTimeText.ascii (.time clock frac zone))
  obtain ⟨hnone, -⟩ | ⟨td, buffer, room, hsome, hresult⟩ :=
    parseDateTimeTs_seen ctx true junk (.wide (DateTimeText.time clock frac zone).text)
  · rw [hnone] at hseen
    cases hseen
  · rw [hsome, Option.some.injEq] at hseen
    subst hseen
    exact hresult.trans ((dateTimeOf_readAs hread hshows true buffer room).trans (congrArg _ hadjusted))

/-- Any other text that starts with a time is not. -/
theorem time_error {clock : Clock} {w : WStr} (ctx : ZoneContext) (junk : WStr)
    (hascii : ∀ c ∈ clock.text ++ w, c ≠ 0 ∧ c ≤ 127)
    (h : ∀ frac zone, ShortFrac frac → w = pointText frac ++ zoneText zone →
      timestampTemplateLen ≤ (clock.text ++ w).length) :
    ∃ e, (parseDateTimeTs ctx true junk (.wide (clock.text ++ w))).result = .error e := by
  refine rejected_iff.mpr fun td htd ty iso s hread tss _ ↦ ?_
  obtain ⟨-, hrun⟩ := seen_wide.mp htd
  rw [asciiRun_self hascii] at hrun
  subst hrun
  generalize hq : clock.text ++ w = q at hread
  cases hread with
  | @time clock' frac zone short capital length =>
    obtain ⟨-, rfl⟩ := List.append_inj hq (by rw [length_clockText, length_clockText])
    exact absurd length (not_lt.mpr (hq ▸ h frac zone short rfl))
  | date long short whole =>
    rw [← hq, List.append_assoc, Stamp.text, Stem.text, List.append_assoc] at whole
    exact absurd whole clockText_ne_dateText
  | @sql stem blank =>
    rw [Stem.text] at hq
    exact absurd hq clockText_ne_dateText
  | iso letter =>
    rw [Stamp.text, Stem.text, List.append_assoc] at hq
    exact absurd hq clockText_ne_dateText

end EsOdbc
