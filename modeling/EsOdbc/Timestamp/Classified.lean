import EsOdbc.Timestamp.Classes

/-!
# Telling the classes apart

What `parse_date_time_ts` gives for a text of a class and for one of none.
-/

namespace EsOdbc

/-! ## The result -/

theorem Shows.eq {sec : ℤ} {fraction : ℕ} {tss tss' : TimestampStruct} (h : Shows sec fraction tss)
    (h' : Shows sec fraction tss') : tss = tss' := by
  obtain ⟨d, c, hinstant, rfl⟩ := h
  obtain ⟨d', c', hinstant', rfl⟩ := h'
  obtain ⟨rfl, rfl⟩ := instant_injective (hinstant.trans hinstant'.symm)
  rfl

theorem Stamp.exists_shows (s : Stamp) : ∃ tss, Shows s.value.sec (nanos s.frac) tss := by
  obtain ⟨d, c, hinstant, -⟩ := s.exists_fields
  exact ⟨_, d, c, hinstant, rfl⟩

/-- A text that is read is converted. -/
theorem dateTimeOf_readAs {ctx : ZoneContext} {td : WStr} {ty : DateTimeType} {iso : Bool}
    {s : Stamp} {tss : TimestampStruct} (h : ReadAs ctx.today td ty iso s)
    (hshows : Shows s.value.sec (nanos s.frac) tss) (sql2c buffer : Bool) (room : ℕ) :
    (dateTimeOf ctx sql2c td buffer room).result =
      (adjusted ctx sql2c ty iso tss).map (·, ty) := by
  have hparse : ∀ room, (parseIso8601Timestamp ctx true (.narrow s.text room)).result = .ok tss :=
    fun room ↦ parseIso8601Timestamp_eq_ok.mpr ⟨s, rfl, hshows⟩
  rw [dateTimeOf, classify_eq_some.mpr h, Option.elim_some]
  dsimp only
  rw [hparse]
  rfl

/-- A text that is not read is rejected. -/
theorem dateTimeOf_not_readAs {ctx : ZoneContext} {td : WStr}
    (h : ∀ ty iso s, ¬ReadAs ctx.today td ty iso s) (sql2c buffer : Bool) (room : ℕ) :
    ∃ e, (dateTimeOf ctx sql2c td buffer room).result = .error e := by
  rw [dateTimeOf]
  cases hclassify : classify ctx.today td with
  | none => exact ⟨_, rfl⟩
  | some found =>
    obtain ⟨ty, iso, w⟩ := found
    dsimp only [Option.elim_some]
    generalize (if ty = DateTimeType.timestamp then room - (w.length - td.length)
      else templ.length + 1 - w.length) = room'
    cases hparse : (parseIso8601Timestamp ctx true (.narrow w room')).result with
    | error e => exact ⟨e, rfl⟩
    | ok tss =>
      obtain ⟨s, rfl, -⟩ := parseIso8601Timestamp_eq_ok.mp hparse
      exact absurd (classify_eq_some.mp hclassify) (h ty iso s)

/-- The units that are looked at decide. -/
theorem parseDateTimeTs_seen (ctx : ZoneContext) (sql2c : Bool) (junk : WStr) (src : XStr) :
    (src.seen = none ∧ (parseDateTimeTs ctx sql2c junk src).result = .error .s22007) ∨
      ∃ td buffer room, src.seen = some td ∧
        (parseDateTimeTs ctx sql2c junk src).result = (dateTimeOf ctx sql2c td buffer room).result := by
  cases src with
  | narrow s room => exact .inr ⟨s, false, room, rfl, rfl⟩
  | wide w =>
    rw [XStr.seen, parseDateTimeTs]
    by_cases hseen : w ≠ [] ∧ AsciiEnds w
    · have hconv : asciiW2cWrites w = (((asciiRun w).length + 1 : ℤ), asciiRun w ++ [0]) := by
        rw [asciiW2cWrites, if_neg hseen.1, asciiW2cLoop_eq, if_pos hseen.2]
        simp
      have hcount : ((asciiRun w).length + 1 - 1 : ℤ).toNat = (asciiRun w).length := by simp
      refine .inr ⟨asciiRun w, true, isoMaxLen - (asciiRun w).length, if_pos hseen, ?_⟩
      rw [hconv]
      dsimp only
      rw [if_neg (by omega), hcount, List.take_left]
    · refine .inl ⟨if_neg hseen, ?_⟩
      have hneg : (asciiW2cWrites w).1 < 1 := by
        rw [asciiW2cWrites]
        by_cases hnil : w = []
        · rw [if_pos hnil]
          norm_num
        · rw [if_neg hnil, asciiW2cLoop_eq, if_neg fun h ↦ hseen ⟨hnil, h⟩]
          dsimp only
          omega
      dsimp only
      rw [if_pos hneg]

/-! ## The classes -/

/-- The unit that starts a zone is in no time of the day. -/
theorem zone_unique {c c' : Clock} {f f' : Option Digits} {z z' : Option Zone}
    (h : c.text ++ (pointText f ++ zoneText z) = c'.text ++ (pointText f' ++ zoneText z')) :
    z = none → z' = none := by
  rintro rfl
  cases z' with
  | none => rfl
  | some z' =>
    rw [zoneText, Option.elim_none, List.append_nil] at h
    obtain ⟨u, hunit, hu⟩ := z'.exists_unit
    have hmem : u ∈ c.text ++ pointText f := by
      rw [h]
      exact List.mem_append_right _ (List.mem_append_right _ hu)
    exact absurd hunit (clock_plain hmem)

/-- The separator of a timestamp, and what is behind it. -/
theorem Stem.text_inj {s s' : Stem} {w w' : WStr} (h : s.text ++ w = s'.text ++ w') :
    s.sep = s'.sep ∧ s.clock.text ++ (pointText s.frac ++ w) =
      s'.clock.text ++ (pointText s'.frac ++ w') := by
  rw [text, text, List.append_assoc, List.append_assoc] at h
  obtain ⟨-, hrest⟩ := List.append_inj h (by rw [length_dateText, length_dateText])
  rw [List.cons_append, List.cons_append, List.append_assoc, List.append_assoc] at hrest
  obtain ⟨hsep, hclock⟩ := List.cons.inj hrest
  exact ⟨Separator.unit_injective hsep, hclock⟩

/-- What starts with a time of the day does not start with a date. -/
theorem clockText_ne_dateText {c : Clock} {d : Calendar.Date} {w w' : WStr} :
    c.text ++ w ≠ dateText d ++ w' := by
  intro h
  have hcolon := (clockText_units c w).1
  rw [h] at hcolon
  exact (dateText_units d w').2.2 hcolon

namespace DateTimeText

/-- A form that is not understood is not read. -/
theorem fits_of_readAs {today : IsoDate} {t : DateTimeText} {td : WStr} {ty : DateTimeType}
    {iso : Bool} {s : Stamp} (h : ReadAs today td ty iso s) (ht : td = t.text) : t.Fits := by
  cases t with
  | date d => trivial
  | time clock frac zone =>
    have hstem : ∀ (s : Stem) (w : WStr), clock.text ++ (pointText frac ++ zoneText zone) ≠
        s.text ++ w := by
      intro s w
      rw [Stem.text, List.append_assoc]
      exact clockText_ne_dateText
    cases h with
    | time short capital length => rwa [ht] at length
    | date long short whole => rwa [ht] at short
    | @sql stem blank => exact absurd (by rw [List.append_nil, ht]; rfl) (hstem stem [])
    | iso letter => exact absurd ht.symm (hstem s.toStem s.zone.text)
  | timestamp stem zone =>
    have hlong : timestampTemplateLen ≤ td.length := by
      rw [ht, text, List.length_append]
      exact stem.length_text.trans (Nat.le_add_right _ _)
    rw [text] at ht
    cases h with
    | time short capital length => exact absurd length (not_lt.mpr hlong)
    | date long short whole => exact absurd short (not_lt.mpr hlong)
    | @sql stem' blank =>
      rw [← List.append_nil stem'.text] at ht
      obtain ⟨hsep, hclock⟩ := Stem.text_inj ht
      exact ⟨fun _ ↦ zone_unique (z := none) hclock rfl, fun _ ↦ hsep ▸ blank⟩
    | iso letter =>
      obtain ⟨hsep, hclock⟩ := Stem.text_inj ht
      refine ⟨fun hblank ↦ absurd (hsep.trans hblank) letter, fun hnone ↦ ?_⟩
      exact absurd (@zone_unique _ _ _ _ zone (some s.zone) hclock.symm hnone) (by simp)

/-- A form that is understood is read as what is written. -/
theorem exists_readAs {t : DateTimeText} (ht : t.WellFormed) (hfits : t.Fits) (ctx : ZoneContext)
    (sql2c : Bool) : ∃ iso s tss, ReadAs ctx.today t.text t.type iso s ∧
      Shows s.value.sec (nanos s.frac) tss ∧ (∀ tss', t.Means ctx.today tss' ↔ tss' = tss) ∧
        adjusted ctx sql2c t.type iso tss = adjusted ctx sql2c t.type t.zone.isSome tss := by
  cases t with
  | date d =>
    refine ⟨true, ⟨⟨d, .upper, midnight, some (List.replicate 9 0), ?_⟩, .shifted false 0 0⟩,
      stampFields d.toDate midnight 0, .date (length_dateText _).ge ?_ ?_, ⟨_, _, ?_, rfl⟩,
      fun _ ↦ Iff.rfl, rfl⟩
    · decide
    · rw [text, length_dateText]
      decide
    · rw [text, length_dateText]
      simp only [Stamp.text, Stem.text, List.append_assoc]
      rfl
    · simp [Stamp.value, Stem.seconds, instant, Zone.offset]
  | time clock frac zone =>
    have hread : ReadAs ctx.today _ _ _ _ := .time ht.1 ht.2 hfits
    obtain ⟨tss, htss⟩ := Stamp.exists_shows
      ⟨⟨ctx.today, .upper, clock, frac, ht.1⟩, zone.getD (.utc false)⟩
    have hoffset : (zone.getD (.utc false)).offset = zone.elim 0 Zone.offset := by cases zone <;> rfl
    refine ⟨_, _, tss, hread, htss, ?_, rfl⟩
    intro tss'
    rw [Stamp.value, hoffset] at htss
    exact ⟨fun h ↦ h.eq htss, fun h ↦ h ▸ htss⟩
  | timestamp stem zone =>
    cases zone with
    | none =>
      have hblank : stem.sep = .blank := hfits.mpr rfl
      have hread : ReadAs ctx.today _ _ _ _ := .sql hblank
      obtain ⟨tss, htss⟩ := Stamp.exists_shows ⟨{ stem with sep := .upper }, .utc false⟩
      refine ⟨_, _, tss, ?_, htss, fun tss' ↦ ⟨fun h ↦ h.eq htss, fun h ↦ h ▸ htss⟩, rfl⟩
      rwa [text, zoneText, Option.elim_none, List.append_nil]
    | some zone =>
      have hletter : stem.sep ≠ .blank := fun hc ↦ by simpa using hfits.mp hc
      have hread : ReadAs ctx.today _ _ _ ⟨stem, zone⟩ := .iso hletter
      obtain ⟨tss, htss⟩ := Stamp.exists_shows ⟨stem, zone⟩
      exact ⟨_, _, tss, hread, htss, fun tss' ↦ ⟨fun h ↦ h.eq htss, fun h ↦ h ▸ htss⟩, rfl⟩

/-- What is written is written in ASCII. -/
theorem ascii {t : DateTimeText} : ∀ c ∈ t.text, c ≠ 0 ∧ c ≤ 127 := by
  have hdigit : ∀ d : Fin 10, digitUnit d ≠ 0 ∧ digitUnit d ≤ 127 := by decide
  have hpadded : ∀ k n, ∀ c ∈ padded k n, c ≠ 0 ∧ c ≤ 127 := by
    intro k n c hc
    obtain ⟨d, -, rfl⟩ := List.mem_map.mp hc
    exact hdigit d
  have hdate : ∀ (d : Calendar.Date), ∀ c ∈ dateText d, c ≠ 0 ∧ c ≤ 127 := by
    intro d c hc
    simp only [dateText, List.mem_append, List.mem_cons] at hc
    rcases hc with hc | rfl | hc | rfl | hc
    all_goals first | exact hpadded _ _ _ hc | decide
  have hclock : ∀ (d : Clock), ∀ c ∈ d.text, c ≠ 0 ∧ c ≤ 127 := by
    intro d c hc
    simp only [Clock.text, List.mem_append, List.mem_cons] at hc
    rcases hc with hc | rfl | hc | rfl | hc
    all_goals first | exact hpadded _ _ _ hc | decide
  have hpoint : ∀ f, ∀ c ∈ pointText f, c ≠ 0 ∧ c ≤ 127 := by
    intro f c hc
    cases f with
    | none => cases hc
    | some ds =>
      rw [pointText, Option.elim_some, List.mem_cons] at hc
      rcases hc with rfl | hc
      · decide
      · obtain ⟨d, -, rfl⟩ := List.mem_map.mp hc
        exact hdigit d
  have hzone : ∀ z, ∀ c ∈ zoneText z, c ≠ 0 ∧ c ≤ 127 := by
    intro z c hc
    rcases z with _ | (lower | ⟨west, hours, minutes⟩)
    · cases hc
    · cases lower <;> exact (List.mem_singleton.mp hc) ▸ by decide
    · simp only [zoneText, Option.elim_some, Zone.text, List.mem_cons, List.mem_append] at hc
      rcases hc with rfl | hc | rfl | hc
      · cases west <;> decide
      · exact hpadded _ _ _ hc
      · decide
      · exact hpadded _ _ _ hc
  intro c hc
  cases t with
  | time clock frac zone =>
    simp only [text, List.mem_append] at hc
    rcases hc with hc | hc | hc
    · exact hclock _ _ hc
    · exact hpoint _ _ hc
    · exact hzone _ _ hc
  | date d => exact hdate _ _ hc
  | timestamp stem zone =>
    simp only [text, Stem.text, List.mem_append, List.mem_cons] at hc
    rcases hc with (hc | rfl | hc | hc) | hc
    · exact hdate _ _ hc
    · cases stem.sep <;> decide
    · exact hclock _ _ hc
    · exact hpoint _ _ hc
    · exact hzone _ _ hc

theorem text_ne_nil (t : DateTimeText) : t.text ≠ [] := by
  intro h
  have hlen := congrArg List.length h
  cases t with
  | time clock frac zone => simp [text, Clock.text] at hlen
  | date d => simp [text, dateText] at hlen
  | timestamp stem zone => simp [text, Stem.text] at hlen

end DateTimeText

/-! ## Main result -/

/-- `parse_date_time_ts` tells the class of a text and fills in the fields that are written, and
rejects what is of no class. -/
def Classified (ctx : ZoneContext) (sql2c : Bool) (junk : WStr) (src : XStr) : Prop :=
  (∀ t : DateTimeText, t.WellFormed → src.units = t.text → ∃ tss, t.Means ctx.today tss ∧
    (parseDateTimeTs ctx sql2c junk src).result = .ok (tss, t.type)) ∧
  ((∀ t : DateTimeText, t.WellFormed → src.units ≠ t.text) →
    ∃ e, (parseDateTimeTs ctx sql2c junk src).result = .error e)

theorem map_type_eq_ok {ctx : ZoneContext} {sql2c iso : Bool} {ty : DateTimeType}
    {tss tss' : TimestampStruct} :
    (adjusted ctx sql2c ty iso tss).map (·, ty) = .ok (tss', ty) ↔
      adjusted ctx sql2c ty iso tss = .ok tss' := by
  cases adjusted ctx sql2c ty iso tss with
  | error e => simp [Except.map]
  | ok x => simp [Except.map]

theorem map_type_eq_error {ctx : ZoneContext} {sql2c iso : Bool} {ty : DateTimeType}
    {tss : TimestampStruct} {e : SqlState} :
    (adjusted ctx sql2c ty iso tss).map (·, ty) = .error e ↔
      adjusted ctx sql2c ty iso tss = .error e := by
  cases adjusted ctx sql2c ty iso tss with
  | error e => simp [Except.map]
  | ok x => simp [Except.map]

/-- A text of a class is told as such when its form is understood and its fields are not to be
shifted. -/
theorem classified_text {ctx : ZoneContext} {sql2c : Bool} {junk : WStr} {src : XStr}
    {t : DateTimeText} (ht : t.WellFormed) (h : src.units = t.text) :
    (∃ tss, t.Means ctx.today tss ∧
      (parseDateTimeTs ctx sql2c junk src).result = .ok (tss, t.type)) ↔
    t.Fits ∧ ∀ tss, t.Means ctx.today tss →
      adjusted ctx sql2c t.type t.zone.isSome tss = .ok tss := by
  have hseen : src.seen = some t.text := by
    rw [← h]
    refine XStr.seen_units ?_ ?_
    · rw [h]
      exact t.text_ne_nil
    · rw [h]
      exact t.ascii
  rcases parseDateTimeTs_seen ctx sql2c junk src with ⟨hnone, -⟩ | ⟨td, buffer, room, hsome, hresult⟩
  · rw [hnone] at hseen
    cases hseen
  rw [hsome, Option.some.injEq] at hseen
  subst hseen
  rw [hresult]
  by_cases hfits : t.Fits
  · obtain ⟨iso, s, tss, hread, hshows, hmeans, hadjusted⟩ := t.exists_readAs ht hfits ctx sql2c
    rw [dateTimeOf_readAs hread hshows, hadjusted]
    constructor
    · rintro ⟨tss', htss', hok⟩
      rw [map_type_eq_ok] at hok
      refine ⟨hfits, fun tss'' htss'' ↦ ?_⟩
      rwa [(hmeans tss'').mp htss'', ← (hmeans tss').mp htss'] at *
    · rintro ⟨-, hok⟩
      have htss := (hmeans tss).mpr rfl
      exact ⟨tss, htss, map_type_eq_ok.mpr (hok tss htss)⟩
  · constructor
    · rintro ⟨tss, -, hok⟩
      have hnot : ∀ ty iso s, ¬ReadAs ctx.today t.text ty iso s :=
        fun ty iso s hread ↦ hfits (t.fits_of_readAs hread rfl)
      obtain ⟨e, he⟩ := dateTimeOf_not_readAs hnot sql2c buffer room
      rw [he] at hok
      cases hok
    · rintro ⟨hc, -⟩
      exact absurd hc hfits

/-- A text is rejected when it is not read or its fields cannot be shifted. -/
theorem rejected_iff {ctx : ZoneContext} {sql2c : Bool} {junk : WStr} {src : XStr} :
    (∃ e, (parseDateTimeTs ctx sql2c junk src).result = .error e) ↔
      ∀ td ∈ src.seen, ∀ ty iso s, ReadAs ctx.today td ty iso s →
        ∀ tss, Shows s.value.sec (nanos s.frac) tss → ∃ e, adjusted ctx sql2c ty iso tss = .error e := by
  rcases parseDateTimeTs_seen ctx sql2c junk src with ⟨hnone, hresult⟩ | ⟨td, buffer, room, hsome, hresult⟩
  · rw [hresult, hnone]
    exact ⟨fun _ td htd ↦ absurd htd (Option.not_mem_none _), fun _ ↦ ⟨_, rfl⟩⟩
  rw [hresult, hsome]
  constructor
  · rintro ⟨e, he⟩ td' htd' ty iso s hread tss hshows
    rw [Option.mem_some_iff] at htd'
    subst htd'
    rw [dateTimeOf_readAs hread hshows, map_type_eq_error] at he
    exact ⟨e, he⟩
  · intro h
    by_cases hread : ∃ ty iso s, ReadAs ctx.today td ty iso s
    · obtain ⟨ty, iso, s, hread⟩ := hread
      obtain ⟨tss, hshows⟩ := s.exists_shows
      obtain ⟨e, he⟩ := h td rfl ty iso s hread tss hshows
      refine ⟨e, ?_⟩
      rw [dateTimeOf_readAs hread hshows, map_type_eq_error, he]
    · refine dateTimeOf_not_readAs (fun ty iso s hc ↦ hread ⟨ty, iso, s, hc⟩) sql2c buffer room

/-- A text is classified exactly when it is of a form that is understood and its fields are not to
be shifted, or, if it is of no class, nothing of it is read that could be shifted. -/
theorem classified_iff (ctx : ZoneContext) (sql2c : Bool) (junk : WStr) (src : XStr) :
    Classified ctx sql2c junk src ↔
      (∀ t : DateTimeText, t.WellFormed → src.units = t.text → t.Fits ∧
        ∀ tss, t.Means ctx.today tss → adjusted ctx sql2c t.type t.zone.isSome tss = .ok tss) ∧
      ((∀ t : DateTimeText, t.WellFormed → src.units ≠ t.text) →
        ∀ td ∈ src.seen, ∀ ty iso s, ReadAs ctx.today td ty iso s →
          ∀ tss, Shows s.value.sec (nanos s.frac) tss →
            ∃ e, adjusted ctx sql2c ty iso tss = .error e) := by
  refine and_congr (forall_congr' fun t ↦ forall_congr' fun ht ↦ forall_congr' fun h ↦ ?_) ?_
  · exact classified_text ht h
  · exact forall_congr' fun _ ↦ rejected_iff

/-- The time 12:34:56.123456 one hour east of Greenwich is taken for a timestamp. -/
theorem not_classified_longTime : ¬Classified
    ⟨false, ⟨⟨2024, 3, 1, by decide, by decide, by decide, by decide, by decide⟩, by decide, by decide⟩,
      some, some⟩ true []
    (.wide [0x31, 0x32, 0x3A, 0x33, 0x34, 0x3A, 0x35, 0x36, 0x2E, 0x31, 0x32, 0x33, 0x34, 0x35, 0x36,
      0x2B, 0x30, 0x31, 0x3A, 0x30, 0x30]) := by
  rintro ⟨h, -⟩
  obtain ⟨tss, -, hok⟩ := h
    (.time ⟨12, 34, 56⟩ (some [1, 2, 3, 4, 5, 6]) (some (.shifted false 1 0)))
    ⟨by decide, by decide⟩ (by decide)
  cases hok

end EsOdbc
