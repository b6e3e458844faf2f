import EsOdbc.Timestamp.Fetched

/-!
# Dates and times as texts and as structures

When a date, a time or a timestamp that is fetched as text is the one that is fetched as a structure,
and for which texts the translations keep to their buffers.
-/

namespace EsOdbc

open Calendar (Date)

/-! ## What is printed -/

theorem sqlText_date {d : Date} (hy : d.year < 10 ^ 4) :
    DateStruct.sqlText ⟨d.year, d.month, d.day⟩ = dateText d := by
  have hyear : yearText d.year = padded 4 d.year := by
    rw [yearText, if_neg (by omega), Int.natAbs_natCast, zeroPadded_of_lt hy]
  rw [DateStruct.sqlText, hyear, zeroPadded_of_lt (month_lt d), zeroPadded_of_lt (day_lt d), dateText]

theorem sqlText_clock (c : Clock) : TimeStruct.sqlText ⟨c.hour, c.minute, c.second⟩ = c.text := by
  have hh : c.hour.val < 10 ^ 2 := c.hour.isLt.trans (by norm_num)
  have hm : c.minute.val < 10 ^ 2 := c.minute.isLt.trans (by norm_num)
  have hs : c.second.val < 10 ^ 2 := c.second.isLt.trans (by norm_num)
  rw [TimeStruct.sqlText, zeroPadded_of_lt hh, zeroPadded_of_lt hm, zeroPadded_of_lt hs, Clock.text]

theorem sqlText_fields (d : Date) (c : Clock) (fraction : ℕ) :
    (stampFields d c fraction).sqlText =
      DateStruct.sqlText ⟨d.year, d.month, d.day⟩ ++ 0x20 :: c.text := by
  rw [TimestampStruct.sqlText, ← sqlText_clock]
  rfl

theorem stampText_sql (tss : TimestampStruct) (decdigits : ℤ) :
    stampText tss decdigits = tss.sqlText ++ fractionText tss.fraction decdigits := by
  simp only [stampText, TimestampStruct.sqlText, DateStruct.sqlText, TimeStruct.sqlText,
    List.append_assoc, List.cons_append]

/-- A date is given by its text. -/
theorem dateText_injective {d d' : Date} (hd : d.year < 10 ^ 4) (hd' : d'.year < 10 ^ 4)
    (h : dateText d = dateText d') : d = d' := by
  obtain ⟨hyear, hrest⟩ := List.append_inj h (by simp)
  obtain ⟨hmonth, hrest⟩ := List.append_inj (List.cons.inj hrest).2 (by simp)
  exact Date.ext (padded_inj hd hd' hyear) (padded_inj (month_lt d) (month_lt d') hmonth)
    (padded_inj (day_lt d) (day_lt d') (List.cons.inj hrest).2)

/-- The year that follows those of four digits. -/
theorem year_of_le {d : Date} (h : d.year ≤ 10000) : d.year < 10 ^ 4 ∨ d.year = 10000 := by omega

theorem yearText_last : yearText (10000 : ℕ) = [0x31, 0x30, 0x30, 0x30, 0x30] := by decide +kernel

theorem length_sqlText {d : Date} (hy : d.year ≤ 10000) :
    (DateStruct.sqlText ⟨d.year, d.month, d.day⟩).length ≤ 11 := by
  obtain hlt | hlast := year_of_le hy
  · rw [sqlText_date hlt, length_dateText]
    decide
  · rw [DateStruct.sqlText, zeroPadded_of_lt (month_lt d), zeroPadded_of_lt (day_lt d), hlast,
      yearText_last]
    simp

/-- What is printed of a date and a time. -/
theorem printSql_fields {d : Date} (hy : d.year ≤ 10000) (c : Clock) {fraction : ℕ}
    (hfraction : fraction < 10 ^ 9) : printSql (stampFields d c fraction) =
      .ok ((stampFields d c fraction).sqlText ++ fractionText fraction defSecPrecision) := by
  have htext : stampText (stampFields d c fraction) defSecPrecision =
      (stampFields d c fraction).sqlText ++ fractionText fraction defSecPrecision := stampText_sql _ _
  have hlen : ((stampFields d c fraction).sqlText ++
      fractionText fraction defSecPrecision).length ≤ 29 := by
    have hdate := length_sqlText hy
    have hpoint := @fractionText_eq fraction defSecPrecision hfraction (by decide)
    have hthree : (fractionText fraction defSecPrecision).length ≤ 4 := by
      rw [hpoint]
      split_ifs
      · rw [List.length_cons, length_padded]
        decide
      · exact Nat.zero_le _
    rw [sqlText_fields, List.length_append, List.length_append, List.length_cons, length_clockText]
    unfold timeTemplateLen
    omega
  have hcut : cutAt 0 = 29 := rfl
  rw [printSql, printTimestamp, htext]
  dsimp only
  have hwhole : (if (29 : ℤ) < (((stampFields d c fraction).sqlText ++
      fractionText fraction defSecPrecision).length : ℕ) then 29 else
      (((stampFields d c fraction).sqlText ++ fractionText fraction defSecPrecision).length : ℕ) : ℤ) =
      (((stampFields d c fraction).sqlText ++ fractionText fraction defSecPrecision).length : ℕ) :=
    if_neg (by omega)
  rw [hcut, if_neg (by unfold isoMaxLen; omega), hwhole, if_neg (by omega),
    if_neg Bool.false_ne_true, Int.toNat_natCast, List.take_length]

/-- The fraction that is printed is the one cut to three digits. -/
theorem fractionCut_printed {fraction : ℕ} (hfraction : fraction < 10 ^ 9) :
    FractionCut fraction (fractionText fraction defSecPrecision) := by
  have hlen := @length_fractionText fraction defSecPrecision hfraction (by decide)
  obtain ⟨frac, short, htext, -, hnanos⟩ :=
    @exists_pointText fraction 11 defSecPrecision hfraction (by decide) fun h ↦ absurd h (by decide)
  rw [List.take_of_length_le (hlen.trans (by decide))] at htext
  exact ⟨3, frac, le_rfl, by decide, short, hnanos, htext.symm⟩

/-- A short fraction is written with all its digits. -/
theorem fractionCut_whole {frac : Option Digits} (short : ShortFrac frac) :
    FractionCut (nanos frac) (pointText frac) := by
  refine ⟨9, frac, by decide, le_rfl, short, ?_, rfl⟩
  show nanos frac = nanos frac / 10 ^ 0 * 10 ^ 0
  rw [pow_zero, Nat.div_one, Nat.mul_one]

theorem nanos_lt {frac : Option Digits} (short : ShortFrac frac) : nanos frac < 10 ^ 9 :=
  Nat.lt_succ_of_le (Stamp.nanos_le short)

/-- No zone takes a date further than into the year 10000. -/
theorem year_le_of_instant {d : Date} {d' : IsoDate} {c c' : Clock} {z : Zone}
    (h : instant d c = instant d'.toDate c' - z.offset * 60) : d.year ≤ 10000 := by
  have hmem := Date.number_mem d'.year_pos d'.year_le
  have hoffset := Stamp.offset_mem z
  have hclock := c'.seconds_lt
  unfold instant at h
  have hnumber : d.number ≤ 3652366 := by omega
  by_contra hyear
  have hmarch : 10000 ≤ d.marchYear := by
    rw [Date.marchYear]
    split_ifs
    · omega
    · omega
  have hform : d.number = 1461 * d.marchYear / 4 - d.marchYear / 100 + d.marchYear / 400 +
    d.marchDay := rfl
  have hday := d.marchDay_pos
  omega

/-! ## Agreement -/

section Agree

variable {α : Type} {read : Except SqlState α} {text : Except SqlState WStr} {Shown : α → WStr → Prop}

theorem agree_of_ok {a : α} {w : WStr} (hread : read = .ok a) (htext : text = .ok w) :
    Agree read text Shown ↔ Shown a w := by
  subst hread htext
  constructor
  · rintro ⟨hok, -⟩
    obtain ⟨w', hw, hshown⟩ := hok a rfl
    exact Except.ok.inj hw ▸ hshown
  · intro hshown
    refine ⟨fun a' ha' ↦ ⟨w, rfl, Except.ok.inj ha' ▸ hshown⟩, fun e he ↦ ?_⟩
    cases he

theorem agree_of_error (hread : ∃ e, read = .error e) :
    Agree read text Shown ↔ ∃ e, text = .error e := by
  obtain ⟨e, rfl⟩ := hread
  constructor
  · rintro ⟨-, herror⟩
    exact herror e rfl
  · intro htext
    refine ⟨fun a ha ↦ ?_, fun _ _ ↦ htext⟩
    cases ha

theorem not_agree {e : SqlState} {w : WStr} (hread : read = .error e) (htext : text = .ok w) :
    ¬Agree read text Shown := by
  rintro ⟨-, herror⟩
  obtain ⟨e', he'⟩ := herror e hread
  rw [htext] at he'
  cases he'

end Agree

/-! ## Dates -/

theorem translateDate_text (d : Date) (w : WStr) :
    (translateDateIso8601ToSql (dateText d ++ w)).result = .ok (dateText d) := by
  rw [translateDateIso8601ToSql, if_neg]
  · dsimp only
    rw [← length_dateText d, List.take_left]
  · rw [List.length_append, length_dateText]
    exact Nat.not_lt.mpr (Nat.le_add_right _ _)

/-- A date is not read from the text of a date. -/
theorem plainDate_not_agrees (ctx : ZoneContext) (junk : WStr) (d : IsoDate) :
    ¬(ServerValue.plainDate d).Agrees ctx junk := by
  have htrim : (trimWs true (dateText d.toDate)).2 = dateText d.toDate := by
    refine trimWs_self fun c hc ↦ (stampUnits_plain ?_).1
    have hmem := (⟨⟨midnight, none, by simp, .utc false, by decide⟩, d⟩ : ServerStamp).mem_units
      (c := c) (List.mem_append_left _ hc)
    exact hmem
  have hread : wstrToDateStruct ctx junk .date (dateText d.toDate) = .error .s22018 := by
    rw [wstrToDateStruct, wstrToTimestampStruct]
    dsimp only
    rw [htrim, parseIso8601Timestamp]
    dsimp only
    rw [if_pos (.inl (by rw [length_dateText]; decide))]
    rfl
  have htext := translateDate_text d.toDate []
  rw [List.append_nil] at htext
  exact not_agree hread htext

/-- The date of a timestamp whose time is not taken off. -/
theorem wstrToDateStruct_text (s : ServerStamp) (short : ShortFrac s.frac) (ctx : ZoneContext)
    (junk : WStr) : ∃ d c, instant d c = instant s.date.toDate s.clock - s.zone.offset * 60 ∧
      wstrToDateStruct ctx junk .date s.text =
        if c = midnight ∧ nanos s.frac = 0 then .ok (.s00000, ⟨d.year, d.month, d.day⟩)
        else .error .s22018 := by
  obtain ⟨d, c, hinstant, hread⟩ := s.exists_read short ctx
  refine ⟨d, c, hinstant, ?_⟩
  have hstruct : (wstrToTimestampStruct ctx junk .date s.text).result =
      .ok (stampFields d c (nanos s.frac), .date) := by
    rw [wstrToTimestampStruct]
    dsimp only
    rw [s.trim, hread true]
    rfl
  have hclock : c = midnight ↔ (c.hour : ℕ) = 0 ∧ (c.minute : ℕ) = 0 ∧ (c.second : ℕ) = 0 := by
    constructor
    · rintro rfl
      exact ⟨rfl, rfl, rfl⟩
    · rintro ⟨hh, hm, hs⟩
      exact Clock.ext (Fin.ext hh) (Fin.ext hm) (Fin.ext hs)
  have hclass : DateTimeType.date ≠ .time := by decide
  rw [wstrToDateStruct, hstruct, Except.bind]
  dsimp only [stampFields]
  rw [if_neg hclass]
  by_cases hzero : c = midnight ∧ nanos s.frac = 0
  · obtain ⟨hh, hm, hs⟩ := hclock.mp hzero.1
    rw [if_pos hzero, if_neg]
    rintro (h | h | h | h)
    · exact h hh
    · exact h hm
    · exact h hs
    · exact h hzero.2
  · rw [if_neg hzero, if_pos, if_neg (by decide)]
    by_contra hc
    simp only [not_or, not_not] at hc
    exact hzero ⟨hclock.mpr ⟨hc.1, hc.2.1, hc.2.2.1⟩, hc.2.2.2⟩

/-- The date of a column agrees at midnight. -/
theorem date_agrees (s : ServerStamp) (ctx : ZoneContext) (junk : WStr) :
    (ServerValue.date s).Agrees ctx junk ↔ (ServerValue.date s).AgreesWhen ctx := by
  have htext := translateDate_text s.date.toDate (0x54 :: s.toServerTime.text)
  have hform : (ServerValue.date s).AgreesWhen ctx ↔ ShortFrac s.frac ∧ nanos s.frac = 0 ∧
    (s.clock.seconds : ℤ) = s.zone.offset * 60 := Iff.rfl
  rw [hform]
  by_cases short : ShortFrac s.frac
  · rw [and_iff_right short]
    obtain ⟨d, c, hinstant, hread⟩ := wstrToDateStruct_text s short ctx junk
    have hmidnight : (midnight.seconds : ℤ) = 0 := rfl
    by_cases hwhole : c = midnight ∧ nanos s.frac = 0
    · rw [if_pos hwhole] at hread
      refine (agree_of_ok hread htext).trans ?_
      rw [and_iff_right hwhole.2]
      rw [hwhole.1] at hinstant
      dsimp only
      constructor
      · intro hsame
        have hlen := congrArg List.length hsame
        have hyear : d.year < 10 ^ 4 := by
          obtain hlt | hlast := year_of_le (year_le_of_instant hinstant)
          · exact hlt
          · rw [DateStruct.sqlText, zeroPadded_of_lt (month_lt d), zeroPadded_of_lt (day_lt d), hlast,
              yearText_last, length_dateText] at hlen
            simp only [List.length_append, List.length_cons, length_padded] at hlen
            cases hlen
        rw [sqlText_date hyear] at hsame
        have hdate : s.date.toDate = d :=
          dateText_injective (s.date.year_le.trans_lt (by norm_num)) hyear hsame
        rw [← hdate] at hinstant
        unfold instant at hinstant
        omega
      · intro hoffset
        have hsame : instant d midnight = instant s.date.toDate midnight := by
          rw [hinstant]
          unfold instant
          omega
        rw [(instant_injective hsame).1, sqlText_date (s.date.year_le.trans_lt (by norm_num))]
    · rw [if_neg hwhole] at hread
      refine iff_of_false (not_agree hread htext) ?_
      rintro ⟨hzero, hoffset⟩
      refine hwhole ⟨?_, hzero⟩
      have hsame : instant d c = instant s.date.toDate midnight := by
        rw [hinstant]
        unfold instant
        omega
      exact (instant_injective hsame).2
  · refine iff_of_false ?_ fun h ↦ short h.1
    obtain ⟨e, he⟩ := s.exists_error short ctx true
    have hstruct : ∃ e, (wstrToTimestampStruct ctx junk .date s.text).result = .error e := by
      rw [wstrToTimestampStruct]
      dsimp only
      rw [s.trim]
      exact map_error.mpr (rewriteState_error.mpr ⟨e, he⟩)
    obtain ⟨e', he'⟩ := hstruct
    have hread : wstrToDateStruct ctx junk .date s.text = .error e' := by
      rw [wstrToDateStruct, he']
      rfl
    exact not_agree hread htext

/-! ## Timestamps -/

theorem ServerTime.length_text (t : ServerTime) :
    t.text.length = timeTemplateLen + ((pointText t.frac).length + t.zone.text.length) := by
  rw [text, List.length_append, List.length_append, length_clockText]

theorem ServerStamp.length_text (s : ServerStamp) :
    s.text.length = timestampTemplateLen + ((pointText s.frac).length + s.zone.text.length) := by
  rw [text, List.length_append, List.length_cons, length_dateText, s.toServerTime.length_text]
  unfold dateTemplateLen timeTemplateLen timestampTemplateLen
  omega

theorem intLength_of_lt {w : WStr} (h : w.length < 2 ^ 31) : intLength w = w.length := intOf_eq_iff.mpr h

theorem wstrToTimestampStruct_text (s : ServerStamp) (ctx : ZoneContext) (junk : WStr) :
    (wstrToTimestampStruct ctx junk .timestamp s.text).result =
      (rewriteState (parseIso8601Timestamp ctx (!ctx.applyTz) (.wide s.text)).result).map
        (·, .timestamp) := by
  rw [wstrToTimestampStruct]
  dsimp only
  rw [s.trim]

/-- A timestamp that is shifted is printed from the fields that are read. -/
theorem timestamp_agrees_shifted (ctx : LocalContext) (htz : ctx.applyTz = true) (junk : WStr)
    (s : ServerStamp) : (ServerValue.timestamp s).Agrees ctx.toZoneContext junk := by
  have hstruct := wstrToTimestampStruct_text s ctx.toZoneContext junk
  have htext : (translateTimestampIso8601ToSql ctx.toZoneContext s.text).result =
      (parseIso8601Timestamp ctx.toZoneContext false (.wide s.text)).result.bind printSql := by
    rw [translateTimestampIso8601ToSql, if_pos htz]
  rw [htz, Bool.not_true] at hstruct
  rw [ServerValue.Agrees, hstruct, htext]
  by_cases short : ShortFrac s.frac
  · obtain ⟨d, c, -, hread⟩ := s.exists_read short ctx.toZoneContext
    rw [hread false, if_neg Bool.false_ne_true, shifted]
    cases hlocal : ctx.toLocal (stampFields d c (nanos s.frac)) with
    | none => exact (agree_of_error ⟨_, rfl⟩).mpr ⟨_, rfl⟩
    | some tss =>
      obtain ⟨d', c', hyear, rfl⟩ := ctx.local_fields _ _ hlocal
      have hprint := printSql_fields hyear c' (nanos_lt short)
      exact (agree_of_ok rfl hprint).mpr ⟨_, fractionCut_printed (nanos_lt short), rfl⟩
  · obtain ⟨e, he⟩ := s.exists_error short ctx.toZoneContext false
    rw [he]
    exact (agree_of_error (map_error.mpr (rewriteState_error.mpr ⟨e, rfl⟩))).mpr ⟨e, rfl⟩

theorem translateTimestamp_long {ctx : ZoneContext} (htz : ctx.applyTz = false) {w : WStr}
    (hlong : ¬intLength w < isoMinLen) : translateTimestampIso8601ToSql ctx w =
      ⟨.ok (((w.take (intLength w).toNat).set dateTemplateLen 0x20).take ((intLength w).toNat - 1)),
        translateRoom < intLength w⟩ := by
  simp only [translateTimestampIso8601ToSql, htz, Bool.false_eq_true, if_false, if_neg hlong]

theorem translateTimestamp_short {ctx : ZoneContext} (htz : ctx.applyTz = false) {w : WStr}
    (hshort : intLength w < isoMinLen) :
    translateTimestampIso8601ToSql ctx w = ⟨.error .sHY000, false⟩ := by
  simp only [translateTimestampIso8601ToSql, htz, Bool.false_eq_true, if_false, if_pos hshort]

/-- Without its last unit, and with a blank, a timestamp is copied. -/
theorem translateTimestamp_copied {ctx : ZoneContext} (htz : ctx.applyTz = false) (s : ServerStamp)
    (short : ShortFrac s.frac) : (translateTimestampIso8601ToSql ctx s.text).result =
      .ok (dateText s.date.toDate ++ 0x20 :: (s.clock.text ++ (pointText s.frac ++ s.zone.text.dropLast))) := by
  have hlen := (s.stamp short).length_text
  rw [s.text_stamp short] at hlen
  have hint : intLength s.text = s.text.length := intLength_of_lt (hlen.2.trans_lt (by norm_num))
  have hset : s.text.set dateTemplateLen 0x20 =
      dateText s.date.toDate ++ 0x20 :: s.toServerTime.text := by
    rw [← length_dateText s.date.toDate, ServerStamp.text, set_append_cons]
  have hne : s.zone.text ≠ [] := by
    obtain ⟨ch, cur, hz, -⟩ := s.zone.exists_text
    rw [hz]
    exact List.cons_ne_nil _ _
  have hdrop : ((dateText s.date.toDate ++ 0x20 :: s.toServerTime.text).take (s.text.length - 1)) =
      dateText s.date.toDate ++ 0x20 :: (s.clock.text ++ (pointText s.frac ++ s.zone.text.dropLast)) := by
    rw [← hset, ← @List.length_set _ s.text dateTemplateLen 0x20,
      ← List.dropLast_eq_take, hset, ServerTime.text]
    rw [List.dropLast_append_of_ne_nil (List.cons_ne_nil _ _), List.dropLast_cons_of_ne_nil,
      List.dropLast_append_of_ne_nil, List.dropLast_append_of_ne_nil hne]
    · exact List.append_ne_nil_of_right_ne_nil _ hne
    · exact List.append_ne_nil_of_right_ne_nil _ (List.append_ne_nil_of_right_ne_nil _ hne)
  have hlong : ¬intLength s.text < isoMinLen := by
    rw [hint]
    unfold isoMinLen
    omega
  have hcount : (intLength s.text).toNat = s.text.length := by rw [hint, Int.toNat_natCast]
  rw [translateTimestamp_long htz hlong, hcount, List.take_length, hset, hdrop]

/-- Behind its date, the text of the fields of a time has no unit of a zone. -/
theorem sqlText_plain {d : Date} (hy : d.year ≤ 10000) (c : Clock) (frac : Option Digits) {u : UInt16}
    (h : u ∈ ((DateStruct.sqlText ⟨d.year, d.month, d.day⟩ ++ 0x20 :: (c.text ++ pointText frac)).drop
      (dateTemplateLen + 1))) : u ∉ zoneUnits := by
  obtain hlt | hlast := year_of_le hy
  · rw [sqlText_date hlt, ← length_dateText d, List.drop_append, Nat.add_sub_cancel_left,
      List.drop_of_length_le (Nat.le_add_right _ _)] at h
    exact clock_plain h
  · have hlen : (DateStruct.sqlText ⟨d.year, d.month, d.day⟩).length = dateTemplateLen + 1 := by
      rw [DateStruct.sqlText, zeroPadded_of_lt (month_lt d), zeroPadded_of_lt (day_lt d), hlast,
        yearText_last]
      simp only [List.length_append, List.length_cons, length_padded]
      rfl
    rw [← hlen, List.drop_left] at h
    obtain rfl | h := List.mem_cons.mp h
    · decide
    · exact clock_plain h

/-- What is copied is the text of the fields when the zone is that of Greenwich. -/
theorem copied_iff (s : ServerStamp) (short : ShortFrac s.frac) {d : Date} {c : Clock}
    (hinstant : instant d c = instant s.date.toDate s.clock - s.zone.offset * 60) :
    (∃ point, FractionCut (nanos s.frac) point ∧
      dateText s.date.toDate ++ 0x20 :: (s.clock.text ++ (pointText s.frac ++ s.zone.text.dropLast)) =
        (stampFields d c (nanos s.frac)).sqlText ++ point) ↔ s.zone = .utc false := by
  constructor
  · rintro ⟨point, ⟨k, frac, -, -, -, -, rfl⟩, hsame⟩
    cases hz : s.zone with
    | utc lower =>
      cases lower with
      | false => rfl
      | true => exact absurd hz s.capital
    | shifted west hours minutes =>
      exfalso
      have hdrop := congrArg (List.drop (dateTemplateLen + 1)) hsame
      rw [sqlText_fields, List.append_assoc, List.cons_append] at hdrop
      have hsign : ∃ u ∈ zoneUnits, u ∈ s.zone.text.dropLast := by
        rw [hz]
        cases west with
        | false => exact ⟨0x2B, by decide, List.mem_cons_self⟩
        | true => exact ⟨0x2D, by decide, List.mem_cons_self⟩
      obtain ⟨u, hunit, hu⟩ := hsign
      refine sqlText_plain (year_le_of_instant hinstant) c frac (u := u) ?_ hunit
      rw [← hdrop, ← length_dateText s.date.toDate, List.drop_append, Nat.add_sub_cancel_left]
      refine List.mem_append_right _ ?_
      exact List.mem_append_right _ (List.mem_append_right _ hu)
  · intro hz
    have hsame : instant d c = instant s.date.toDate s.clock := by
      rw [hinstant, hz]
      simp only [Zone.offset]
      omega
    obtain ⟨rfl, rfl⟩ := instant_injective hsame
    refine ⟨_, fractionCut_whole short, ?_⟩
    rw [hz, sqlText_fields, sqlText_date (s.date.year_le.trans_lt (by norm_num)), List.append_assoc,
      List.cons_append]
    show _ ++ 0x20 :: (_ ++ (pointText s.frac ++ [])) = _
    rw [List.append_nil]

theorem timestamp_agrees (ctx : LocalContext) (junk : WStr) (s : ServerStamp) :
    (ServerValue.timestamp s).Agrees ctx.toZoneContext junk ↔
      (ServerValue.timestamp s).AgreesWhen ctx.toZoneContext := by
  have hform : (ServerValue.timestamp s).AgreesWhen ctx.toZoneContext ↔ ctx.applyTz = true ∨
    (ShortFrac s.frac ∧ s.zone = .utc false) ∨
      (¬ShortFrac s.frac ∧ intLength s.text < isoMinLen) := Iff.rfl
  rw [hform]
  cases htz : ctx.applyTz with
  | true => exact iff_of_true (timestamp_agrees_shifted ctx htz junk s) (.inl rfl)
  | false =>
    have hstruct := wstrToTimestampStruct_text s ctx.toZoneContext junk
    rw [htz, Bool.not_false] at hstruct
    rw [or_iff_right Bool.false_ne_true]
    by_cases short : ShortFrac s.frac
    · obtain ⟨d, c, hinstant, hread⟩ := s.exists_read short ctx.toZoneContext
      rw [hread true, if_pos rfl] at hstruct
      have htext := translateTimestamp_copied htz s short
      refine (agree_of_ok hstruct htext).trans ?_
      rw [and_iff_right short, or_iff_left fun h ↦ h.1 short]
      exact copied_iff s short hinstant
    · rw [or_iff_right fun h ↦ short h.1, and_iff_right short]
      obtain ⟨e, he⟩ := s.exists_error short ctx.toZoneContext true
      have herror : ∃ e, (wstrToTimestampStruct ctx.toZoneContext junk .timestamp s.text).result =
          .error e := by
        rw [hstruct]
        exact map_error.mpr (rewriteState_error.mpr ⟨e, he⟩)
      refine (agree_of_error herror).trans ?_
      constructor
      · rintro ⟨e, he⟩
        by_contra hlong
        rw [translateTimestamp_long htz hlong] at he
        cases he
      · intro hshort
        exact ⟨_, congrArg Access.result (translateTimestamp_short htz hshort)⟩

/-! ## Times -/

section Paths

variable {ctx : ZoneContext} {junk w : WStr}

theorem translateTime_short (h : intLength w < timeTemplateLen) :
    translateTimeIso8601ToSql ctx junk w = ⟨.error .sHY000, false⟩ := by
  simp only [translateTimeIso8601ToSql, if_pos h]

theorem translateTime_read (h : ¬intLength w < timeTemplateLen)
    (hpath : ctx.applyTz = true ∨ w.getD ((intLength w).toNat - 1) 0 ≠ 0x5A) :
    translateTimeIso8601ToSql ctx junk w =
      ⟨(parseDateTimeTs ctx true junk (.wide (w.take (intLength w).toNat))).result.bind fun r ↦
          (printSql r.1).map fun text ↦ text.drop (dateTemplateLen + 1),
        (parseDateTimeTs ctx true junk (.wide (w.take (intLength w).toNat))).outside⟩ := by
  simp only [translateTimeIso8601ToSql, if_neg h, if_pos hpath]

theorem translateTime_copied (h : ¬intLength w < timeTemplateLen)
    (hpath : ¬(ctx.applyTz = true ∨ w.getD ((intLength w).toNat - 1) 0 ≠ 0x5A)) :
    translateTimeIso8601ToSql ctx junk w =
      ⟨.ok (w.take ((intLength w).toNat - 1)), translateRoom < intLength w⟩ := by
  simp only [translateTimeIso8601ToSql, if_neg h, if_neg hpath]

theorem wstrToTimeStruct_error (t : ServerTime)
    (h : ∃ e, (parseDateTimeTs ctx true junk (.wide t.text)).result = .error e) :
    ∃ e, wstrToTimeStruct ctx junk .time t.text = .error e := by
  have hstruct : ∃ e, (wstrToTimestampStruct ctx junk .time t.text).result = .error e := by
    rw [wstrToTimestampStruct]
    dsimp only
    rw [t.trim]
    exact map_error.mpr (rewriteState_error.mpr h)
  obtain ⟨e, he⟩ := hstruct
  exact ⟨e, by rw [wstrToTimeStruct, he]; rfl⟩

theorem wstrToTimeStruct_ok (t : ServerTime) {d : Date} {c : Clock} {fraction : ℕ}
    (h : (parseDateTimeTs ctx true junk (.wide t.text)).result =
      .ok (stampFields d c fraction, .time)) :
    wstrToTimeStruct ctx junk .time t.text = .ok (.s00000, ⟨c.hour, c.minute, c.second⟩) := by
  have hstruct : (wstrToTimestampStruct ctx junk .time t.text).result =
      .ok (stampFields d c 0, .time) := by
    rw [wstrToTimestampStruct]
    dsimp only
    rw [t.trim, h]
    rfl
  rw [wstrToTimeStruct, hstruct]
  rfl

end Paths

/-- What is left of a time that is printed with its date. -/
theorem printSql_drop {d : Date} (hy : d.year < 10 ^ 4) (c : Clock) {fraction : ℕ}
    (hfraction : fraction < 10 ^ 9) :
    (printSql (stampFields d c fraction)).map (fun text ↦ text.drop (dateTemplateLen + 1)) =
      .ok (c.text ++ fractionText fraction defSecPrecision) := by
  rw [printSql_fields (by omega) c hfraction, sqlText_fields, sqlText_date hy, Except.map,
    List.append_assoc, List.cons_append, ← length_dateText d, List.drop_append,
    Nat.add_sub_cancel_left, List.drop_of_length_le (Nat.le_add_right _ _)]
  rfl

/-- A year of five digits pushes a blank into the time. -/
theorem printSql_drop_last {d : Date} (hy : d.year = 10000) (c : Clock) {fraction : ℕ}
    (hfraction : fraction < 10 ^ 9) :
    (printSql (stampFields d c fraction)).map (fun text ↦ text.drop (dateTemplateLen + 1)) =
      .ok (0x20 :: (c.text ++ fractionText fraction defSecPrecision)) := by
  have hlen : (DateStruct.sqlText ⟨d.year, d.month, d.day⟩).length = dateTemplateLen + 1 := by
    rw [DateStruct.sqlText, zeroPadded_of_lt (month_lt d), zeroPadded_of_lt (day_lt d), hy,
      yearText_last]
    simp only [List.length_append, List.length_cons, length_padded]
    rfl
  rw [printSql_fields hy.le c hfraction, sqlText_fields, Except.map, List.append_assoc,
    List.cons_append, ← hlen, List.drop_left]

/-- A text of a time is none with a blank in front. -/
theorem clockText_ne_blank (c : Clock) (w w' : WStr) : 0x20 :: w ≠ c.text ++ w' := by
  intro h
  have hhead : c.text = digitUnit (Decimal.digit (c.hour / 10)) :: c.text.tail := rfl
  rw [hhead, List.cons_append] at h
  have hdigit : ∀ d : Fin 10, (0x20 : UInt16) ≠ digitUnit d := by decide
  exact hdigit _ (List.cons.inj h).1

/-- The last unit of a time is that of its zone. -/
theorem time_last (t : ServerTime) :
    t.text.getD (t.text.length - 1) 0 ≠ 0x5A ↔ t.zone ≠ .utc false := by
  have hne : t.zone.text ≠ [] := by
    obtain ⟨ch, cur, hz, -⟩ := t.zone.exists_text
    rw [hz]
    exact List.cons_ne_nil _ _
  have hlast : t.text.getD (t.text.length - 1) 0 = t.zone.text.getD (t.zone.text.length - 1) 0 := by
    have hpos := List.length_pos_of_ne_nil hne
    have hlen : t.text.length = (t.clock.text ++ pointText t.frac).length + t.zone.text.length := by
      rw [ServerTime.text, ← List.append_assoc, List.length_append]
    rw [hlen, Nat.add_sub_assoc hpos, ServerTime.text, ← List.append_assoc,
      List.getD_append_right _ _ _ _ (Nat.le_add_right _ _), Nat.add_sub_cancel_left]
  rw [hlast, not_iff_not]
  have hdigit : ∀ d : Fin 10, digitUnit d ≠ 0x5A := by decide
  cases hz : t.zone with
  | utc lower =>
    cases lower with
    | false => exact iff_of_true rfl rfl
    | true => exact absurd hz t.capital
  | shifted west hours minutes =>
    refine iff_of_false ?_ (by simp)
    exact hdigit _

/-- A time that is read and printed. -/
theorem time_agrees_read (ctx : LocalContext) (junk : WStr) (t : ServerTime) (short : ShortFrac t.frac)
    (hint : intLength t.text = t.text.length)
    (hpath : ctx.applyTz = true ∨ t.zone ≠ .utc false) :
    (ServerValue.time t).Agrees ctx.toZoneContext junk ↔ t.FourDigits ctx.toZoneContext := by
  have hlen := t.length_text
  have hlong : ¬intLength t.text < timeTemplateLen := by
    rw [hint, hlen]
    unfold timeTemplateLen
    omega
  have hcount : (intLength t.text).toNat = t.text.length := by rw [hint, Int.toNat_natCast]
  have hread : (translateTimeIso8601ToSql ctx.toZoneContext junk t.text).result =
      (parseDateTimeTs ctx.toZoneContext true junk (.wide t.text)).result.bind
        fun r ↦ (printSql r.1).map fun text ↦ text.drop (dateTemplateLen + 1) := by
    rw [translateTime_read hlong, hcount, List.take_length]
    rw [hcount, time_last]
    exact hpath
  rw [ServerValue.Agrees, hread]
  by_cases length : t.text.length < timestampTemplateLen
  · have hcapital : some t.zone ≠ some (.utc true) := fun h ↦ t.capital (Option.some.inj h)
    obtain ⟨d, c, hinstant, hparse⟩ := exists_time short hcapital length ctx.toZoneContext junk
    change (parseDateTimeTs ctx.toZoneContext true junk (.wide t.text)).result = _ at hparse
    have hfields : ∀ tss, t.Fields ctx.toZoneContext tss ↔
        (if ctx.applyTz then ctx.toLocal (stampFields d c (nanos t.frac))
          else some (stampFields d c (nanos t.frac))) = some tss := by
      intro tss
      constructor
      · rintro ⟨d', c', hinstant', h⟩
        obtain ⟨rfl, rfl⟩ := instant_injective (hinstant'.trans hinstant.symm)
        exact h
      · intro h
        exact ⟨d, c, hinstant, h⟩
    have hadjusted : adjusted ctx.toZoneContext true .time true (stampFields d c (nanos t.frac)) =
        (if ctx.applyTz then ctx.toLocal (stampFields d c (nanos t.frac))
          else some (stampFields d c (nanos t.frac))).elim (.error .s22008) .ok := by
      rw [adjusted, if_neg (by decide)]
      cases ctx.applyTz with
      | true => rfl
      | false => rfl
    rw [Option.isSome_some, hadjusted] at hparse
    cases hshown : (if ctx.applyTz then ctx.toLocal (stampFields d c (nanos t.frac))
        else some (stampFields d c (nanos t.frac))) with
    | none =>
      rw [hshown] at hparse
      have herror : ∃ e, (parseDateTimeTs ctx.toZoneContext true junk (.wide t.text)).result =
        .error e := ⟨_, hparse⟩
      refine iff_of_true ?_ fun _ tss htss ↦ ?_
      · refine (agree_of_error (wstrToTimeStruct_error t herror)).mpr ⟨.s22008, ?_⟩
        rw [hparse]
        rfl
      · rw [hfields, hshown] at htss
        cases htss
    | some tss =>
      have hprinted : ∃ (d' : Date) (c' : Clock), d'.year ≤ 10000 ∧
          tss = stampFields d' c' (nanos t.frac) := by
        split_ifs at hshown with htz
        · exact ctx.local_fields _ _ hshown
        · exact ⟨d, c, year_le_of_instant hinstant, (Option.some.inj hshown).symm⟩
      obtain ⟨d', c', hyear, rfl⟩ := hprinted
      have hfour : t.FourDigits ctx.toZoneContext ↔ d'.year ≤ 9999 := by
        constructor
        · intro h
          exact Int.ofNat_le.mp (h length _ ((hfields _).mpr hshown))
        · intro h _ tss htss
          rw [hfields, hshown, Option.some.injEq] at htss
          rw [← htss]
          exact Int.ofNat_le.mpr h
      rw [hshown] at hparse
      have hstruct := wstrToTimeStruct_ok t hparse
      rw [hparse, hfour]
      obtain hlt | hlast := year_of_le hyear
      · have hprint := printSql_drop hlt c' (nanos_lt short)
        refine (agree_of_ok hstruct hprint).trans (iff_of_true ?_ (by omega))
        exact ⟨_, fractionCut_printed (nanos_lt short), by rw [sqlText_clock]⟩
      · have hprint := printSql_drop_last hlast c' (nanos_lt short)
        refine (agree_of_ok hstruct hprint).trans (iff_of_false ?_ (by omega))
        rintro ⟨point, -, hsame⟩
        rw [sqlText_clock] at hsame
        exact clockText_ne_blank c' _ _ hsame
  · refine iff_of_true ?_ fun h ↦ absurd h length
    have herror : ∃ e, (parseDateTimeTs ctx.toZoneContext true junk (.wide t.text)).result =
        .error e := by
      refine time_error ctx.toZoneContext junk (fun c hc ↦ t.ascii hc) fun _ _ _ _ ↦ ?_
      exact not_lt.mp length
    refine (agree_of_error (wstrToTimeStruct_error t herror)).mpr ?_
    obtain ⟨e, he⟩ := herror
    rw [he]
    exact ⟨e, rfl⟩

/-- A time that is copied. -/
theorem time_agrees_copied (ctx : ZoneContext) (htz : ctx.applyTz = false) (junk : WStr)
    (t : ServerTime) (short : ShortFrac t.frac) (hint : intLength t.text = t.text.length)
    (hz : t.zone = .utc false) :
    (ServerValue.time t).Agrees ctx junk ↔ t.text.length < timestampTemplateLen := by
  have hlen := t.length_text
  have hlong : ¬intLength t.text < timeTemplateLen := by
    rw [hint, hlen]
    unfold timeTemplateLen
    omega
  have hcount : (intLength t.text).toNat = t.text.length := by rw [hint, Int.toNat_natCast]
  have htext : t.text = t.clock.text ++ pointText t.frac ++ [0x5A] := by
    rw [ServerTime.text, hz, List.append_assoc]
    rfl
  have hcopied : (translateTimeIso8601ToSql ctx junk t.text).result =
      .ok (t.clock.text ++ pointText t.frac) := by
    rw [translateTime_copied hlong, hcount]
    · dsimp only
      rw [← List.dropLast_eq_take, htext, List.dropLast_concat]
    · rw [hcount, time_last, htz]
      rintro (h | h)
      · exact Bool.false_ne_true h
      · exact h hz
  rw [ServerValue.Agrees]
  by_cases length : t.text.length < timestampTemplateLen
  · refine iff_of_true ?_ length
    have hcapital : some t.zone ≠ some (.utc true) := fun h ↦ t.capital (Option.some.inj h)
    obtain ⟨d, c, hinstant, hparse⟩ := exists_time short hcapital length ctx junk
    change (parseDateTimeTs ctx true junk (.wide t.text)).result = _ at hparse
    have hadjusted : adjusted ctx true .time true (stampFields d c (nanos t.frac)) =
        .ok (stampFields d c (nanos t.frac)) := by
      rw [adjusted, if_neg (by decide), htz, if_neg Bool.false_ne_true]
    rw [Option.isSome_some, hadjusted] at hparse
    have hsame : instant d c = instant ctx.today.toDate t.clock := by
      rw [hinstant, hz]
      simp only [Option.elim_some, Zone.offset]
      omega
    obtain ⟨rfl, rfl⟩ := instant_injective hsame
    refine (agree_of_ok (wstrToTimeStruct_ok t hparse) hcopied).mpr ?_
    exact ⟨_, fractionCut_whole short, by rw [sqlText_clock]⟩
  · refine iff_of_false ?_ length
    have herror : ∃ e, (parseDateTimeTs ctx true junk (.wide t.text)).result = .error e := by
      refine time_error ctx junk (fun c hc ↦ t.ascii hc) fun _ _ _ _ ↦ ?_
      exact not_lt.mp length
    obtain ⟨e, he⟩ := wstrToTimeStruct_error t herror
    exact not_agree he hcopied

/-- A text cut within the digits of a long fraction. -/
theorem take_longTime (t : ServerTime) {n : ℕ} (hn : timeTemplateLen ≤ n)
    (hlt : n + 6 ≤ t.text.length) : t.text.take n =
      t.clock.text ++ (pointText t.frac).take (n - timeTemplateLen) := by
  have hzone : t.zone.text.length ≤ 6 := by
    cases t.zone with
    | utc lower => exact Nat.succ_le_succ (Nat.zero_le 5)
    | shifted west hours minutes => simp [Zone.text]
  have hlen := t.length_text
  have hzero : n - timeTemplateLen - (pointText t.frac).length = 0 := by omega
  rw [ServerTime.text, List.take_append, length_clockText, List.take_append, hzero, List.take_zero,
    List.append_nil, List.take_of_length_le]
  rw [length_clockText]
  exact hn

/-- When a cut of a time with a long fraction is read. -/
theorem longTime_error {t : ServerTime} {ds : Digits} (hds : t.frac = some ds) (ctx : ZoneContext)
    (junk : WStr) {n : ℕ} (hn : timeTemplateLen ≤ n) (hlt : n + 6 ≤ t.text.length)
    (hrange : n ≤ (t.clock.text ++ pointText t.frac).length) :
    (∃ e, ((parseDateTimeTs ctx true junk (.wide (t.text.take n))).result.bind fun r ↦
      (printSql r.1).map fun text ↦ text.drop (dateTemplateLen + 1)) = .error e) ↔
        n = 9 ∨ timestampTemplateLen ≤ n := by
  rw [take_longTime t hn hlt]
  have hlength : (t.clock.text ++ (pointText t.frac).take (n - timeTemplateLen)).length = n := by
    rw [← take_longTime t hn hlt, List.length_take]
    omega
  have hascii : ∀ c ∈ t.clock.text ++ (pointText t.frac).take (n - timeTemplateLen), c ≠ 0 ∧ c ≤ 127 := by
    intro c hc
    rw [← take_longTime t hn hlt] at hc
    exact t.ascii (List.mem_of_mem_take hc)
  have hpoint : pointText t.frac = 0x2E :: digitUnits ds := by rw [hds]; rfl
  have hdigits : timeTemplateLen + (1 + ds.length) = (t.clock.text ++ pointText t.frac).length := by
    rw [List.length_append, length_clockText, hpoint, List.length_cons, digitUnits_length,
      Nat.add_comm 1]
  by_cases hbad : n = 9 ∨ timestampTemplateLen ≤ n
  · refine iff_of_true ?_ hbad
    have herror : ∃ e, (parseDateTimeTs ctx true junk
        (.wide (t.clock.text ++ (pointText t.frac).take (n - timeTemplateLen)))).result = .error e := by
      refine time_error ctx junk hascii fun frac zone short hw ↦ ?_
      rw [hlength]
      obtain rfl | hlong := hbad
      · exfalso
        have hdot : [0x2E] = pointText frac ++ zoneText zone := by
          rw [← hw, hpoint]
          rfl
        cases frac with
        | none =>
          cases zone with
          | none => cases hdot
          | some z =>
            obtain ⟨ch, cur, hz, -, hch⟩ := z.exists_text
            have hunits : ([0x2E] : WStr) = z.text := hdot
            rw [hz] at hunits
            exact hch (List.cons.inj hunits).1.symm
        | some es =>
          have hrest : ([] : WStr) = digitUnits es ++ zoneText zone := (List.cons.inj hdot).2
          obtain ⟨hnil, -⟩ := List.append_eq_nil_iff.mp hrest.symm
          have hzero := congrArg List.length hnil
          rw [digitUnits_length] at hzero
          have hpos := (short es rfl).1
          rw [hzero] at hpos
          exact absurd hpos (by decide)
      · exact hlong
    obtain ⟨e, he⟩ := herror
    exact ⟨e, by rw [he]; rfl⟩
  · refine iff_of_false ?_ hbad
    rw [not_or, not_le] at hbad
    -- a time without a zone, whose fraction has the digits that are left
    obtain ⟨frac, short, hfrac⟩ : ∃ frac : Option Digits, ShortFrac frac ∧
        (pointText t.frac).take (n - timeTemplateLen) = pointText frac ++ zoneText none := by
      by_cases hclock : n = timeTemplateLen
      · refine ⟨none, by simp [ShortFrac], ?_⟩
        rw [hclock, Nat.sub_self]
        rfl
      · obtain ⟨k, hk⟩ : ∃ k, n = timeTemplateLen + (k + 1) := ⟨n - timeTemplateLen - 1, by omega⟩
        refine ⟨some (ds.take k), ?_, ?_⟩
        · intro es hes
          rw [Option.mem_some_iff] at hes
          subst hes
          rw [List.length_take]
          unfold timeTemplateLen at *
          unfold timestampTemplateLen at hbad
          omega
        · rw [hpoint, hk, Nat.add_sub_cancel_left, List.take_succ_cons]
          show _ = 0x2E :: digitUnits (ds.take k) ++ []
          rw [List.append_nil, digitUnits, digitUnits, List.map_take]
    rw [hfrac] at hlength ⊢
    obtain ⟨d, c, hinstant, hparse⟩ := exists_time short (by simp) (hlength.trans_lt hbad.2) ctx junk
    have hadjusted : adjusted ctx true .time false (stampFields d c (nanos frac)) =
        .ok (stampFields d c (nanos frac)) := by
      rw [adjusted, if_neg (by decide)]
      cases ctx.applyTz with
      | true => rfl
      | false => rfl
    rw [Option.isSome_none, hadjusted] at hparse
    have hyear : d.year < 10 ^ 4 := by
      have hsame : instant d c = instant ctx.today.toDate t.clock := by
        rw [hinstant]
        simp
      rw [(instant_injective hsame).1]
      exact ctx.today.year_le.trans_lt (by norm_num)
    rintro ⟨e, he⟩
    rw [hparse] at he
    exact absurd ((printSql_drop hyear c (nanos_lt short)).symm.trans he) (by simp)

/-- A length as an `int` is the length, or less by as much as an `int` has values. -/
theorem intLength_cases (w : WStr) : intLength w = w.length ∨ intLength w + 2 ^ 32 ≤ w.length := by
  by_cases h : w.length < 2 ^ 31
  · exact .inl (intLength_of_lt h)
  · right
    have hdiv := Int.bmod_add_bdiv (w.length : ℤ) (2 ^ 32)
    have hlt := @Int.bmod_lt (w.length : ℤ) (2 ^ 32) (by norm_num)
    rw [intLength, intOf]
    generalize (w.length : ℤ).bmod (2 ^ 32) = n at hdiv hlt ⊢
    generalize (w.length : ℤ).bdiv (2 ^ 32) = k at hdiv
    push_cast at hdiv hlt
    omega

/-- A time with a fraction that is too long. -/
theorem time_agrees_long (ctx : ZoneContext) (junk : WStr) (t : ServerTime) (long : ¬ShortFrac t.frac) :
    (ServerValue.time t).Agrees ctx junk ↔
      intLength t.text < timeTemplateLen ∨ intLength t.text = 9 ∨
        (timestampTemplateLen ≤ intLength t.text ∧
          (ctx.applyTz = true ∨ t.zone ≠ .utc false ∨ intLength t.text ≠ t.text.length)) := by
  obtain ⟨ds, hds⟩ : ∃ ds, t.frac = some ds := by
    cases hf : t.frac with
    | none => exact absurd (by simp [hf, ShortFrac]) long
    | some ds => exact ⟨ds, rfl⟩
  have hten : 10 ≤ ds.length := by
    by_contra hc
    refine long fun es hes ↦ ?_
    obtain rfl : ds = es := Option.some.inj (hds.symm.trans hes)
    exact ⟨List.length_pos_of_ne_nil (t.digits ds hes), by omega⟩
  have hpoint : (pointText t.frac).length = ds.length + 1 := by
    rw [hds]
    show (0x2E :: digitUnits ds).length = _
    rw [List.length_cons, digitUnits_length]
  have hlen := t.length_text
  have hzone : 1 ≤ t.zone.text.length ∧ t.zone.text.length ≤ 6 := by
    cases t.zone with
    | utc lower => exact ⟨le_rfl, Nat.succ_le_succ (Nat.zero_le 5)⟩
    | shifted west hours minutes => simp [Zone.text]
  have herror : ∃ e, (parseDateTimeTs ctx true junk (.wide t.text)).result = .error e := by
    refine time_error ctx junk (fun c hc ↦ t.ascii hc) fun frac zone short hw ↦ ?_
    refine absurd ?_ long
    rw [@frac_unique t.clock t.clock t.frac frac (some t.zone) zone (congrArg (t.clock.text ++ ·) hw)]
    exact short
  rw [ServerValue.Agrees]
  refine (agree_of_error (wstrToTimeStruct_error t herror)).trans ?_
  by_cases hshort : intLength t.text < timeTemplateLen
  · rw [translateTime_short hshort]
    exact iff_of_true ⟨_, rfl⟩ (.inl hshort)
  rw [or_iff_right hshort]
  obtain hint | hless := intLength_cases t.text
  · -- the whole text: that of no timestamp
    have hcount : (intLength t.text).toNat = t.text.length := by rw [hint, Int.toNat_natCast]
    have hnine : intLength t.text ≠ 9 := by
      rw [hint]
      unfold timeTemplateLen at hlen
      omega
    have hnineteen : timestampTemplateLen ≤ intLength t.text := by
      rw [hint]
      unfold timeTemplateLen at hlen
      unfold timestampTemplateLen
      omega
    rw [or_iff_right hnine, and_iff_right hnineteen, or_iff_left (not_not.mpr hint)]
    by_cases hpath : ctx.applyTz = true ∨ t.zone ≠ .utc false
    · refine iff_of_true ?_ hpath
      rw [translateTime_read hshort, hcount, List.take_length]
      · obtain ⟨e, he⟩ := herror
        dsimp only
        rw [he]
        exact ⟨e, rfl⟩
      · rw [hcount, time_last]
        exact hpath
    · refine iff_of_false ?_ hpath
      rw [translateTime_copied hshort]
      · rintro ⟨e, he⟩
        cases he
      · rw [hcount, time_last]
        exact hpath
  · obtain ⟨n, hn⟩ : ∃ n : ℕ, intLength t.text = n := Int.eq_ofNat_of_zero_le (by omega)
    have hcount : (intLength t.text).toNat = n := by rw [hn, Int.toNat_natCast]
    have hbound : timeTemplateLen ≤ n := by omega
    have hrange : n ≤ (t.clock.text ++ pointText t.frac).length := by
      rw [List.length_append, length_clockText]
      omega
    have hne : intLength t.text ≠ t.text.length := by omega
    have hlast : t.text.getD (n - 1) 0 ≠ 0x5A := by
      have hplain := clock_plain_getD t.clock t.frac (n - 1)
      rw [ServerTime.text, ← List.append_assoc, List.getD_append _ _ _ _ (by
        unfold timeTemplateLen at hbound
        omega)]
      exact hplain.1
    have hcases := longTime_error hds ctx junk hbound (by omega) hrange
    rw [translateTime_read hshort (by rw [hcount]; exact .inr hlast), hcount]
    refine hcases.trans ?_
    rw [and_iff_left (.inr (.inr hne)), hn]
    constructor
    · rintro (h | h)
      · exact .inl (by exact_mod_cast h)
      · exact .inr (by exact_mod_cast h)
    · rintro (h | h)
      · exact .inl (by exact_mod_cast h)
      · exact .inr (by exact_mod_cast h)

theorem time_agrees (ctx : LocalContext) (junk : WStr) (t : ServerTime) :
    (ServerValue.time t).Agrees ctx.toZoneContext junk ↔
      (ServerValue.time t).AgreesWhen ctx.toZoneContext := by
  have hform : (ServerValue.time t).AgreesWhen ctx.toZoneContext ↔
    (ShortFrac t.frac ∧ (ctx.applyTz = false ∧ t.zone = .utc false ∧
        t.text.length < timestampTemplateLen ∨
      (ctx.applyTz = true ∨ t.zone ≠ .utc false) ∧ t.FourDigits ctx.toZoneContext)) ∨
    (¬ShortFrac t.frac ∧ (intLength t.text < timeTemplateLen ∨ intLength t.text = 9 ∨
      (timestampTemplateLen ≤ intLength t.text ∧
        (ctx.applyTz = true ∨ t.zone ≠ .utc false ∨ intLength t.text ≠ t.text.length)))) := Iff.rfl
  rw [hform]
  by_cases short : ShortFrac t.frac
  · rw [and_iff_right short, or_iff_left fun h ↦ h.1 short]
    have hint : intLength t.text = t.text.length := by
      have hlen := (ServerStamp.stamp ⟨t, ctx.today⟩ short).length_text.2
      have hstamp := (ServerStamp.text_stamp ⟨t, ctx.today⟩ short)
      have htime : t.text.length ≤ (ServerStamp.text ⟨t, ctx.today⟩).length := by
        rw [ServerStamp.text, List.length_append, List.length_cons]
        exact (Nat.le_succ _).trans (Nat.le_add_left _ _)
      rw [hstamp] at hlen
      exact intLength_of_lt ((htime.trans hlen).trans_lt (by norm_num))
    by_cases hpath : ctx.applyTz = true ∨ t.zone ≠ .utc false
    · rw [time_agrees_read ctx junk t short hint hpath, and_iff_right hpath, or_iff_right]
      rintro ⟨htz, hz, -⟩
      obtain h | h := hpath
      · exact Bool.false_ne_true (htz.symm.trans h)
      · exact h hz
    · have hneg := hpath
      rw [not_or, not_not] at hneg
      have htz := Bool.eq_false_iff.mpr hneg.1
      rw [time_agrees_copied ctx.toZoneContext htz junk t short hint hneg.2, or_iff_left fun h ↦ hpath h.1,
        and_iff_right htz, and_iff_right hneg.2]
  · rw [or_iff_right fun h ↦ short h.1, and_iff_right short]
    exact time_agrees_long ctx.toZoneContext junk t short

/-! ## Main result -/

/-- Whether a time is read, and not copied. -/
def TimeIsRead (ctx : ZoneContext) (w : WStr) : Prop :=
  ctx.applyTz = true ∨ w.getD ((intLength w).toNat - 1) 0 ≠ 0x5A

/-- The texts of a time for which the translation keeps to its buffers, or fails before it writes. -/
def TimeWithin (ctx : ZoneContext) (junk w : WStr) : Prop :=
  intLength w < timeTemplateLen ∨
    (TimeIsRead ctx w ∧ FitsScratch junk (w.take (intLength w).toNat)) ∨
      (¬TimeIsRead ctx w ∧ intLength w ≤ translateRoom)

theorem outside_mk {α : Type} (result : α) (outside : Bool) :
    (Access.mk result outside).outside = outside := rfl

theorem translateTimestamp_outside (ctx : ZoneContext) (w : WStr) :
    (translateTimestampIso8601ToSql ctx w).outside = false ↔
      ctx.applyTz = true ∨ intLength w ≤ translateRoom := by
  cases htz : ctx.applyTz with
  | true =>
    refine iff_of_true ?_ (.inl rfl)
    simp only [translateTimestampIso8601ToSql, htz, if_true]
    exact parseIso8601Timestamp_wide_outside ctx false w
  | false =>
    rw [or_iff_right Bool.false_ne_true]
    by_cases hshort : intLength w < isoMinLen
    · rw [translateTimestamp_short htz hshort]
      refine iff_of_true rfl (hshort.le.trans ?_)
      decide
    · have hlong := congrArg Access.outside (translateTimestamp_long htz hshort)
      rw [hlong, outside_mk, decide_eq_false_iff_not, not_lt]

theorem translateTime_outside (ctx : ZoneContext) (junk w : WStr) :
    (translateTimeIso8601ToSql ctx junk w).outside = false ↔ TimeWithin ctx junk w := by
  rw [TimeWithin]
  by_cases hshort : intLength w < timeTemplateLen
  · rw [translateTime_short hshort]
    exact iff_of_true rfl (.inl hshort)
  rw [or_iff_right hshort]
  by_cases hpath : TimeIsRead ctx w
  · have hread := congrArg Access.outside (@translateTime_read ctx junk w hshort hpath)
    rw [or_iff_left fun h ↦ h.1 hpath, and_iff_right hpath, hread, outside_mk]
    exact parseDateTimeTs_wide_outside
  · have hcopied := congrArg Access.outside (@translateTime_copied ctx junk w hshort hpath)
    rw [hcopied, outside_mk]
    constructor
    · intro h
      exact .inr ⟨hpath, not_lt.mp (of_decide_eq_false h)⟩
    · rintro (⟨h, -⟩ | ⟨-, h⟩)
      · exact absurd h hpath
      · exact decide_eq_false (not_lt.mpr h)

end EsOdbc
