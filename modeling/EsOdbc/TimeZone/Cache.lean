import EsOdbc.TimeZone
import EsOdbc.Timestamp.Print

/-!
# The cached time zone and date

`update_tz_param` (`queries.c`) and `update_crr_date` (`convert.c`), over any sequence of calls on
a thread: the texts they keep, and the key that says when these are still right.
-/

namespace EsOdbc

open Calendar (Date)

/-! ## Calls -/

/-- The `struct tm` of a local time, with the date. -/
structure LocalTime extends Tm where
  year : ℕ
  mon : ℕ
  mday : ℕ
deriving DecidableEq

/-- `localtime`. -/
def localTime (utc : ℕ) (off : ℤ) : LocalTime :=
  let date := rdnToStructTm ((utc + off) / 86400 + 719163).toNat
  { localtime utc off with year := date.1, mon := date.2.1, mday := date.2.2 }

/-- What one call meets: the time, unless `time` fails; the offset of the zone at that time, below
a week in the C library; whether `TZ` is set; and what `snprintf` leaves where it fails. -/
structure TzCall where
  utc : Option ℕ
  off : ℤ
  tzSet : Bool
  offFails : Option (List Char)
  dateFails : Option WStr
  off_lt : |off| < 604800

/-- The static variables: `tz`, the key, the two texts and `today`.  What `tz_param` points to is
the start of `time_zone`. -/
structure TzCache where
  tz : Bool
  tzDstOfft : ℤ
  tmYday : ℤ
  timeZone : List Char
  tzParamCnt : ℕ
  currentDate : WStr
  today : LocalTime
deriving DecidableEq

namespace TzCache

/-- The variables at the start. -/
def init : TzCache where
  tz := false
  tzDstOfft := 1
  tmYday := -1
  timeZone := []
  tzParamCnt := 0
  currentDate := [0x31, 0x39, 0x37, 0x30, 0x2D, 0x30, 0x31, 0x2D, 0x30, 0x31]
  today := ⟨⟨0, 0, 0, 0⟩, 0, 0, 0⟩

/-- The text of `tz_param`. -/
def tzParam (c : TzCache) : List Char := c.timeZone.take c.tzParamCnt

/-- The text that `print_tz_param` asks for. -/
def tzText (tzDstOfft : ℤ) : List Char :=
  let absTz := tzDstOfft.natAbs
  ['"', if tzDstOfft ≤ 0 then '+' else '-'] ++ print02 (absTz / 3600) ++ [':'] ++
    print02 (absTz % 3600 / 60) ++ ['"']

/-- `print_tz_param`, with what it leaves in its buffer when it fails. -/
def printTzParam (c : TzCache) (k : TzCall) (tzDstOfft : ℤ) : Bool × TzCache :=
  match k.offFails with
  | some left => (false, { c with timeZone := left })
  | none =>
    let text := tzText tzDstOfft
    let c := { c with timeZone := text.take (timeZoneSize - 1) }
    if timeZoneSize ≤ text.length then (false, c) else (true, { c with tzParamCnt := text.length })

/-- The text that `update_crr_date` asks for. -/
def dateUnits (now : LocalTime) : WStr :=
  zeroPadded 4 now.year ++ 0x2D :: (zeroPadded 2 now.mon ++ 0x2D :: zeroPadded 2 now.mday)

/-- `update_crr_date`. -/
def updateCrrDate (c : TzCache) (k : TzCall) (now : LocalTime) : Bool × TzCache :=
  match k.dateFails with
  | some left => (false, { c with currentDate := left })
  | none =>
    let text := dateUnits now
    let c := { c with currentDate := text.take dateTemplateLen }
    if dateTemplateLen < text.length then (false, c) else (true, { c with today := now })

/-- `get_tz_dst_offset`: its first run looks at the seconds of the zone, and marks that it did
unless it refuses the zone of an unset `TZ`. -/
def tzDstOffset (c : TzCache) (k : TzCall) : Option (ℤ × LocalTime) × TzCache :=
  match k.utc with
  | none => (none, c)
  | some utc =>
    let offset := (getTzDstOffset (!c.tz) utc k.off).map fun r ↦ (r.1, localTime utc k.off)
    (offset, { c with tz := c.tz || k.tzSet || offset.isSome })

/-- `update_tz_param`. -/
def updateTzParam (c : TzCache) (k : TzCall) : Bool × TzCache :=
  let r := c.tzDstOffset k
  match r.1 with
  | none => (false, r.2)
  | some (offset, now) =>
    if r.2.tzDstOfft = offset ∧ r.2.tmYday = now.yday then (true, r.2)
    else
      let r := { r.2 with tzDstOfft := offset, tmYday := now.yday }.printTzParam k offset
      if r.1 then r.2.updateCrrDate k now else r

/-! ## What a call is for -/

/-- The day of a date, in the numbering of `Calendar`. -/
def dayNumber (d : Date) : ℤ := d.number + 59

/-- The texts are those of the zone and the date at a time. -/
structure Current (c : TzCache) (utc : ℕ) (off : ℤ) : Prop where
  zone : parseTz c.tzParam = some off
  date : ∃ d : Date, dayNumber d = dayOf (utc + off) ∧ d.year ≤ 9999 ∧ c.currentDate = dateText d

/-- The key is the one of a call. -/
def Remembers (c' : TzCache) (c : TzCache) (k : TzCall) : Prop :=
  ∃ offset now, (c.tzDstOffset k).1 = some (offset, now) ∧ c'.tzDstOfft = offset ∧
    c'.tmYday = now.yday

/-- A call that succeeds leaves the texts of its time, one that fails is not remembered. -/
def Right (c : TzCache) (k : TzCall) : Prop :=
  if (c.updateTzParam k).1 then ∃ utc, k.utc = some utc ∧ (c.updateTzParam k).2.Current utc k.off
  else ¬(c.updateTzParam k).2.Remembers c k

/-- The year of a local day is the one of `today` if the key is the call's, and otherwise both
texts can be printed. -/
def Renewable (c : TzCache) (k : TzCall) (day : ℤ) : Prop :=
  if c.tzDstOfft = -k.off ∧ c.tmYday = Calendar.dayOfYear day then
    (c.today.year : ℤ) = Calendar.yearOf day
  else k.offFails = none ∧ |k.off| < 360000 ∧ k.dateFails = none ∧ Calendar.yearOf day ≤ 9999

/-- A call with the time that is not refused: its zone is one of whole minutes, its local date is
in the year of the UTC date, and the texts are those of the same year or can be printed. -/
def Safe (c : TzCache) (k : TzCall) : Prop :=
  ∀ utc, k.utc = some utc → (c.tz = false ∧ ¬60 ∣ k.off) ∨
    (60 ∣ k.off ∧
      Calendar.yearOf (dayOf (utc + k.off)) = Calendar.yearOf (dayOf utc) ∧
      c.Renewable k (dayOf (utc + k.off)))

/-- What holds of the variables and the call at each of a sequence of calls. -/
def Along (P : TzCache → TzCall → Prop) : TzCache → List TzCall → Prop
  | _, [] => True
  | c, k :: ks => P c k ∧ Along P (c.updateTzParam k).2 ks

/-! ## Days -/

/-- The first day of a year comes 306 days after the March before it. -/
theorem firstDay_succ (y : ℕ) :
    Calendar.firstDay (y + 1) = 365 * y + y / 4 - y / 100 + y / 400 + 366 := by
  have h₄ : ((y : ℤ) + 1 + 3) / 4 = y / 4 + 1 := by omega
  have h₁₀₀ : ((y : ℤ) + 1 + 99) / 100 = y / 100 + 1 := by omega
  have h₄₀₀ : ((y : ℤ) + 1 + 399) / 400 = y / 400 + 1 := by omega
  rw [Calendar.firstDay, h₄, h₁₀₀, h₄₀₀]
  ring

theorem dayNumber_eq_march (d : Date) :
    dayNumber d = Calendar.firstDay (d.marchYear + 1) - 307 + d.marchDay := by
  have hnumber : d.number =
      1461 * d.marchYear / 4 - d.marchYear / 100 + d.marchYear / 400 + d.marchDay := rfl
  have hfour : 1461 * d.marchYear / 4 = 365 * d.marchYear + d.marchYear / 4 := by omega
  have hcent : d.marchYear / 100 ≤ d.marchYear := Nat.div_le_self _ _
  rw [firstDay_succ, dayNumber, hnumber, hfour]
  omega

/-- The year of a date is the one its day is in. -/
theorem yearOf_dayNumber (d : Date) : Calendar.yearOf (dayNumber d) = d.year := by
  have hday := d.marchDay_pos
  have hdays : d.marchDay ≤ 366 := by
    refine d.marchDay_le.trans ?_
    unfold Calendar.marchYearDays
    split_ifs <;> omega
  have hspan : (d.marchYear = d.year ∧ d.marchDay ≤ 306) ∨
      (d.marchYear + 1 = d.year ∧ 307 ≤ d.marchDay) := by
    obtain ⟨y, m, n, h₁, h₂, h₃, h₄, h₅⟩ := d
    simp only [Date.marchYear, Date.marchDay, Calendar.monthDays] at h₄ ⊢
    interval_cases m <;> simp [Calendar.monthStart] at h₄ h₅ ⊢ <;> omega
  have hmarch := dayNumber_eq_march d
  have hyear := Calendar.firstDay_add_one d.marchYear
  have hnext := Calendar.firstDay_add_one (d.marchYear + 1)
  generalize dayNumber d = n at hmarch ⊢
  apply Calendar.yearOf_eq
  · rcases hspan with ⟨hy, hd⟩ | ⟨hy, hd⟩
    · rw [← hy]
      omega
    · rw [← hy, Nat.cast_add_one]
      omega
  · rcases hspan with ⟨hy, hd⟩ | ⟨hy, hd⟩
    · rw [← hy]
      omega
    · rw [← hy, Nat.cast_add_one]
      omega

/-- Two dates of one year are told apart by their days in it. -/
theorem dayNumber_eq {d d' : Date} (hyear : d.year = d'.year)
    (hday : Calendar.dayOfYear (dayNumber d) = Calendar.dayOfYear (dayNumber d')) : d = d' := by
  have h := Calendar.dayOfYear_add (dayNumber d)
  have h' := Calendar.dayOfYear_add (dayNumber d')
  rw [yearOf_dayNumber, hyear, hday] at h
  rw [yearOf_dayNumber] at h'
  apply number_injective
  have heq := h.symm.trans h'
  unfold dayNumber at heq
  omega

theorem dayOfYear_nonneg (n : ℤ) : 0 ≤ Calendar.dayOfYear n := by
  have h := Calendar.yearOf_spec n
  unfold Calendar.dayOfYear
  omega

/-- The local time of a call has the fields of a date. -/
theorem exists_localDate (k : TzCall) (utc : ℕ) : ∃ d : Date,
    dayNumber d = dayOf (utc + k.off) ∧ (localTime utc k.off).year = d.year ∧
      (localTime utc k.off).mon = d.month ∧ (localTime utc k.off).mday = d.day := by
  have hoff := abs_lt.mp k.off_lt
  obtain ⟨d, hd⟩ := Date.exists_number (z := ((utc + k.off) / 86400 + 719469).toNat) (by omega)
  have hrdn : ((utc + k.off) / 86400 + 719163).toNat + 306 = d.number := by omega
  have hdate := rdnToStructTm_number hrdn
  refine ⟨d, ?_, ?_⟩
  · unfold dayNumber dayOf
    omega
  · simp only [localTime, hdate]
    exact ⟨trivial, trivial, trivial⟩

/-! ## Texts -/

theorem printTzParam_tzText (o : ℤ) : EsOdbc.printTzParam o =
    if timeZoneSize ≤ (tzText o).length then none else some (tzText o) := rfl

/-- The text of an offset below a hundred hours has the room, and reads as the local offset. -/
theorem tzText_short {o : ℤ} (ho : 60 ∣ o) : (tzText o).length < timeZoneSize ↔ |o| < 360000 := by
  constructor
  · intro h
    have hsome : EsOdbc.printTzParam (- -o) = some (tzText o) := by
      rw [neg_neg, printTzParam_tzText, if_neg (not_le.mpr h)]
    rw [← abs_neg]
    exact lt_of_printTzParam hsome
  · intro h
    have hneg : 60 ∣ -o := by omega
    obtain ⟨text, htext, -⟩ := (printTzParam_parse hneg).mpr (by rwa [abs_neg])
    rw [neg_neg, printTzParam_tzText] at htext
    by_contra hlong
    rw [if_pos (not_lt.mp hlong)] at htext
    cases htext

theorem parseTz_tzText {o : ℤ} (ho : 60 ∣ o) (h : (tzText o).length < timeZoneSize) :
    parseTz (tzText o) = some (-o) := by
  have hlt : |(-o)| < 360000 := by
    rw [abs_neg]
    exact (tzText_short ho).mp h
  have hneg : 60 ∣ -o := by omega
  obtain ⟨text, htext, hparse⟩ := (printTzParam_parse hneg).mpr hlt
  rw [neg_neg, printTzParam_tzText, if_neg (not_le.mpr h), Option.some.injEq] at htext
  rw [htext, hparse]

/-- The text of a date, its year apart. -/
theorem dateUnits_date {now : LocalTime} {d : Date}
    (h : now.year = d.year ∧ now.mon = d.month ∧ now.mday = d.day) :
    dateUnits now = zeroPadded 4 d.year ++ 0x2D :: (padded 2 d.month ++ 0x2D :: padded 2 d.day) := by
  rw [dateUnits, h.1, h.2.1, h.2.2, zeroPadded_of_lt (month_lt d), zeroPadded_of_lt (day_lt d)]

/-- A date is printed if its year has no more than four digits. -/
theorem dateUnits_short {now : LocalTime} {d : Date}
    (h : now.year = d.year ∧ now.mon = d.month ∧ now.mday = d.day) :
    (dateUnits now).length ≤ dateTemplateLen ↔ d.year ≤ 9999 := by
  rw [dateUnits_date h]
  simp only [List.length_append, List.length_cons, length_padded, dateTemplateLen]
  constructor
  · intro hlen
    by_contra hlong
    rw [zeroPadded, if_neg (by omega), digitUnits, List.length_map] at hlen
    have hlt := Decimal.ofDigits_lt (Decimal.digits d.year)
    rw [Decimal.ofDigits_digits] at hlt
    have hpow : 10 ^ (Decimal.digits d.year).length ≤ 10 ^ 4 :=
      Nat.pow_le_pow_right (by decide) (by omega)
    omega
  · intro hyear
    rw [zeroPadded_of_lt (by omega), length_padded]

theorem dateUnits_eq {now : LocalTime} {d : Date}
    (h : now.year = d.year ∧ now.mon = d.month ∧ now.mday = d.day) (hshort : d.year ≤ 9999) :
    dateUnits now = dateText d := by
  rw [dateUnits_date h, zeroPadded_of_lt (by omega)]
  rfl

/-! ## The prints -/

/-- The offset is printed, or the call fails with the key it has. -/
theorem printTzParam_cases (c : TzCache) (k : TzCall) (o : ℤ) :
    (k.offFails = none ∧ (tzText o).length < timeZoneSize ∧
      c.printTzParam k o =
        (true, { c with timeZone := tzText o, tzParamCnt := (tzText o).length })) ∨
    (¬(k.offFails = none ∧ (tzText o).length < timeZoneSize) ∧
      ∃ left, c.printTzParam k o = (false, { c with timeZone := left })) := by
  cases hfails : k.offFails with
  | some left =>
    refine .inr ⟨fun h ↦ Option.some_ne_none left h.1, left, ?_⟩
    rw [printTzParam, hfails]
  | none =>
    by_cases hlen : (tzText o).length < timeZoneSize
    · refine .inl ⟨rfl, hlen, ?_⟩
      have htake : (tzText o).take (timeZoneSize - 1) = tzText o :=
        List.take_of_length_le (Nat.le_sub_one_of_lt hlen)
      rw [printTzParam, hfails]
      dsimp only
      rw [if_neg (not_le.mpr hlen), htake]
    · refine .inr ⟨fun h ↦ hlen h.2, (tzText o).take (timeZoneSize - 1), ?_⟩
      rw [printTzParam, hfails]
      dsimp only
      rw [if_pos (not_lt.mp hlen)]

/-- The date is printed, or the call fails with the key it has. -/
theorem updateCrrDate_cases (c : TzCache) (k : TzCall) (now : LocalTime) :
    (k.dateFails = none ∧ (dateUnits now).length ≤ dateTemplateLen ∧
      c.updateCrrDate k now = (true, { c with currentDate := dateUnits now, today := now })) ∨
    (¬(k.dateFails = none ∧ (dateUnits now).length ≤ dateTemplateLen) ∧
      ∃ left, c.updateCrrDate k now = (false, { c with currentDate := left })) := by
  cases hfails : k.dateFails with
  | some left =>
    refine .inr ⟨fun h ↦ Option.some_ne_none left h.1, left, ?_⟩
    rw [updateCrrDate, hfails]
  | none =>
    by_cases hlen : (dateUnits now).length ≤ dateTemplateLen
    · refine .inl ⟨rfl, hlen, ?_⟩
      rw [updateCrrDate, hfails]
      dsimp only
      rw [if_neg (not_lt.mpr hlen), List.take_of_length_le hlen]
    · refine .inr ⟨fun h ↦ hlen h.2, (dateUnits now).take dateTemplateLen, ?_⟩
      rw [updateCrrDate, hfails]
      dsimp only
      rw [if_pos (not_le.mp hlen)]

/-! ## The offset -/

/-- A zone is refused by the first run if it has odd seconds. -/
theorem getTzDstOffset_eq_none {first : Bool} {utc : ℕ} {off : ℤ} :
    getTzDstOffset first utc off = none ↔ first = true ∧ ¬60 ∣ off := by
  have hsec : (localtime utc off).sec = (gmtime utc).sec ↔ 60 ∣ off := by
    simp only [localtime, gmtime]
    omega
  unfold getTzDstOffset
  rw [← hsec]
  cases first with
  | false => simp
  | true => simp

/-- The offset is one of whole minutes, and the negated one of the zone exactly while the zone is
one too and the local date is in the year of the UTC date. -/
theorem getTzDstOffset_offset {first : Bool} {utc : ℕ} {off o : ℤ} {now : Tm}
    (h : getTzDstOffset first utc off = some (o, now)) : 60 ∣ o ∧ now = localtime utc off ∧
      (o = -off ↔ 60 ∣ off ∧
        Calendar.yearOf (dayOf (utc + off)) = Calendar.yearOf (dayOf utc)) := by
  have hdvd : 60 ∣ o ∧ now = localtime utc off := by
    unfold getTzDstOffset at h
    dsimp only at h
    split_ifs at h
    rw [Option.some.injEq, Prod.mk.injEq] at h
    refine ⟨?_, h.2.symm⟩
    rw [← h.1]
    omega
  refine ⟨hdvd.1, hdvd.2, ?_⟩
  by_cases hoff : 60 ∣ off
  · rw [getTzDstOffset_eq first utc hoff, Option.some.injEq, Prod.mk.injEq] at h
    have hyear := Calendar.firstDay_strictMono.injective.eq_iff
      (a := Calendar.yearOf (dayOf (utc + off))) (b := Calendar.yearOf (dayOf utc))
    rw [and_iff_right hoff, ← hyear, ← h.1]
    constructor
    · intro heq
      omega
    · intro heq
      rw [heq]
      ring
  · constructor
    · rintro rfl
      exact absurd (Int.dvd_neg.mp hdvd.1) hoff
    · intro h
      exact absurd h.1 hoff

/-! ## A call -/

/-- The texts are those of the key, and of one date. -/
structure Kept (c : TzCache) (d : Date) : Prop where
  yday : c.tmYday = Calendar.dayOfYear (dayNumber d)
  zone : parseTz c.tzParam = some (-c.tzDstOfft)
  date : c.currentDate = dateText d
  year_le : d.year ≤ 9999
  today : c.today.year = d.year

/-- Nothing was printed yet, or what the key is for. -/
def Inv (c : TzCache) : Prop := c.tmYday = -1 ∨ ∃ d, c.Kept d

theorem inv_init : init.Inv := .inl rfl

/-- A call that does not get the time, or is refused, leaves the key and the texts. -/
theorem step_refused {c : TzCache} {k : TzCall} (h : (c.tzDstOffset k).1 = none) :
    ((c.Right k ↔ c.Safe k) ∧ (c.Inv → (c.updateTzParam k).2.Inv)) := by
  have hstep : c.updateTzParam k = (false, (c.tzDstOffset k).2) := by
    rw [updateTzParam]
    simp only [h]
  have hright : c.Right k := by
    rw [Right, hstep, if_neg (by simp)]
    rintro ⟨o, now, hsome, -⟩
    rw [h] at hsome
    cases hsome
  have hsafe : c.Safe k := by
    intro utc hutc
    simp only [tzDstOffset, hutc, Option.map_eq_none_iff, getTzDstOffset_eq_none,
      Bool.not_eq_true'] at h
    exact .inl h
  have hkeep : (c.tzDstOffset k).2 = { c with tz := (c.tzDstOffset k).2.tz } := by
    rw [tzDstOffset]
    cases k.utc <;> rfl
  refine ⟨iff_of_true hright hsafe, ?_⟩
  intro hinv
  rw [hstep, hkeep]
  exact hinv.imp id fun ⟨d, hd⟩ ↦ ⟨d, ⟨hd.yday, hd.zone, hd.date, hd.year_le, hd.today⟩⟩

/-- The offset that a call gets, if it gets one. -/
theorem exists_offset {c : TzCache} {k : TzCall} (h : (c.tzDstOffset k).1 ≠ none) :
    ∃ utc o, k.utc = some utc ∧ 60 ∣ o ∧
      (o = -k.off ↔ 60 ∣ k.off ∧
        Calendar.yearOf (dayOf (utc + k.off)) = Calendar.yearOf (dayOf utc)) ∧
      c.tzDstOffset k = (some (o, localTime utc k.off), { c with tz := true }) ∧
      ¬(c.tz = false ∧ ¬60 ∣ k.off) := by
  cases hutc : k.utc with
  | none => exact absurd (by rw [tzDstOffset, hutc]) h
  | some utc =>
    cases hoffset : getTzDstOffset (!c.tz) utc k.off with
    | none => exact absurd (by simp [tzDstOffset, hutc, hoffset]) h
    | some r =>
      obtain ⟨o, tm⟩ := r
      obtain ⟨hdvd, -, heq⟩ := getTzDstOffset_offset hoffset
      refine ⟨utc, o, rfl, hdvd, heq, by simp [tzDstOffset, hutc, hoffset], ?_⟩
      intro hrefused
      have hnone : getTzDstOffset (!c.tz) utc k.off = none :=
        getTzDstOffset_eq_none.mpr ⟨by rw [hrefused.1]; rfl, hrefused.2⟩
      rw [hoffset] at hnone
      cases hnone

/-- A call that finds its key is right if the key's year is the call's too. -/
theorem step_cached {c : TzCache} {k : TzCall} {utc : ℕ} {o : ℤ} {d : Date} (hkept : c.Kept d)
    (hutc : k.utc = some utc) (hdvd : 60 ∣ o)
    (hoffset : c.tzDstOffset k = (some (o, localTime utc k.off), { c with tz := true }))
    (hkey : c.tzDstOfft = o ∧ c.tmYday = (localTime utc k.off).yday) :
    (c.updateTzParam k).2 = { c with tz := true } ∧
      (c.Right k ↔ o = -k.off ∧ d.year = (localTime utc k.off).year) := by
  obtain ⟨d', hday, hfields⟩ := exists_localDate k utc
  have hstep : c.updateTzParam k = (true, { c with tz := true }) := by
    rw [updateTzParam, hoffset]
    dsimp only
    rw [if_pos hkey]
  have hyday : Calendar.dayOfYear (dayNumber d) = Calendar.dayOfYear (dayNumber d') := by
    rw [← hkept.yday, hday, hkey.2]
    rfl
  refine ⟨by rw [hstep], ?_⟩
  rw [Right, hstep, if_pos rfl, hfields.1]
  have hzone : parseTz c.tzParam = some (-o) := hkey.1 ▸ hkept.zone
  constructor
  · rintro ⟨utc', hutc', hcurrent⟩
    obtain rfl : utc = utc' := Option.some.inj (hutc.symm.trans hutc')
    have hoff : -o = k.off := Option.some.inj (hzone.symm.trans hcurrent.zone)
    obtain ⟨d'', hday'', hyear, hdate⟩ := hcurrent.date
    obtain rfl : d'' = d' := number_injective (by
      have heq := hday''.trans hday.symm
      unfold dayNumber at heq
      omega)
    have hsame := (List.append_inj (hkept.date.symm.trans hdate) (by simp)).1
    have hle := hkept.year_le
    exact ⟨by omega, padded_inj (by omega) (by omega) hsame⟩
  · rintro ⟨hoff, hyear⟩
    obtain rfl := dayNumber_eq hyear hyday
    exact ⟨utc, hutc, by rw [hoff, neg_neg] at hzone; exact hzone, d, hday, hkept.year_le, hkept.date⟩

/-- A call that renews the texts is right if it can print them. -/
theorem step_renewed {c : TzCache} {k : TzCall} {utc : ℕ} {o : ℤ}
    (hutc : k.utc = some utc) (hdvd : 60 ∣ o)
    (hoffset : c.tzDstOffset k = (some (o, localTime utc k.off), { c with tz := true }))
    (hkey : ¬(c.tzDstOfft = o ∧ c.tmYday = (localTime utc k.off).yday)) :
    (c.Right k ↔ o = -k.off ∧ k.offFails = none ∧ |o| < 360000 ∧ k.dateFails = none ∧
      (localTime utc k.off).year ≤ 9999) ∧ (c.Right k → (c.updateTzParam k).2.Inv) := by
  obtain ⟨d, hday, hfields⟩ := exists_localDate k utc
  rw [hfields.1]
  have hstep : c.updateTzParam k =
      let r := { c with tz := true, tzDstOfft := o, tmYday := (localTime utc k.off).yday }.printTzParam
        k o
      if r.1 then r.2.updateCrrDate k (localTime utc k.off) else r := by
    rw [updateTzParam, hoffset]
    dsimp only
    rw [if_neg hkey]
  -- a call that fails has left its key
  have hfail {c' : TzCache} (h : c.updateTzParam k = (false, c')) (ho : c'.tzDstOfft = o)
      (hy : c'.tmYday = (localTime utc k.off).yday) : ¬c.Right k := by
    rw [Right, h, if_neg (by simp), not_not]
    exact ⟨o, _, by rw [hoffset], ho, hy⟩
  rcases printTzParam_cases
      { c with tz := true, tzDstOfft := o, tmYday := (localTime utc k.off).yday } k o with
    ⟨hoff, hshort, hprint⟩ | ⟨hnot, left, hprint⟩
  · rw [hprint] at hstep
    dsimp only at hstep
    rw [if_pos rfl] at hstep
    rcases updateCrrDate_cases { c with
        tz := true, tzDstOfft := o, tmYday := (localTime utc k.off).yday, timeZone := tzText o,
        tzParamCnt := (tzText o).length } k (localTime utc k.off) with
      ⟨hdate, hlen, hcrr⟩ | ⟨hnot, left, hcrr⟩
    · rw [hcrr] at hstep
      rw [dateUnits_short hfields] at hlen
      have hzone : parseTz ((tzText o).take (tzText o).length) = some (-o) := by
        rw [List.take_length, parseTz_tzText hdvd hshort]
      constructor
      · rw [Right, hstep, if_pos rfl]
        constructor
        · rintro ⟨utc', hutc', hcurrent⟩
          have hoff' : -o = k.off := Option.some.inj (hzone.symm.trans hcurrent.zone)
          exact ⟨by omega, hoff, (tzText_short hdvd).mp hshort, hdate, hlen⟩
        · rintro ⟨ho, -⟩
          exact ⟨utc, hutc, by rw [ho, neg_neg, ← ho] at hzone; exact hzone, d, hday, hlen,
            dateUnits_eq hfields hlen⟩
      · intro _
        rw [hstep]
        exact .inr ⟨d, by rw [hday]; rfl, hzone, dateUnits_eq hfields hlen, hlen, hfields.1⟩
    · rw [hcrr] at hstep
      have hwrong := hfail hstep rfl rfl
      rw [dateUnits_short hfields] at hnot
      exact ⟨iff_of_false hwrong fun h ↦ hnot h.2.2.2, fun h ↦ absurd h hwrong⟩
  · rw [hprint] at hstep
    dsimp only at hstep
    rw [if_neg (by simp)] at hstep
    have hwrong := hfail hstep rfl rfl
    rw [tzText_short hdvd] at hnot
    exact ⟨iff_of_false hwrong fun h ↦ hnot ⟨h.2.1, h.2.2.1⟩, fun h ↦ absurd h hwrong⟩

/-- A call is right exactly if it is safe, and keeps the texts right for the key. -/
theorem step_right {c : TzCache} {k : TzCall} (hinv : c.Inv) :
    (c.Right k ↔ c.Safe k) ∧ (c.Right k → (c.updateTzParam k).2.Inv) := by
  by_cases hnone : (c.tzDstOffset k).1 = none
  · have h := step_refused hnone
    exact ⟨h.1, fun _ ↦ h.2 hinv⟩
  obtain ⟨utc, o, hutc, hdvd, heq, hoffset, hrefused⟩ := exists_offset hnone
  obtain ⟨d', hday, hfields⟩ := exists_localDate k utc
  have hyear : ((localTime utc k.off).year : ℤ) = Calendar.yearOf (dayOf (utc + k.off)) := by
    rw [hfields.1, ← hday, yearOf_dayNumber]
  have hsafe : c.Safe k ↔ o = -k.off ∧ c.Renewable k (dayOf (utc + k.off)) := by
    rw [heq, and_assoc]
    constructor
    · intro h
      exact (h utc hutc).resolve_left hrefused
    · intro h utc' hutc'
      obtain rfl : utc = utc' := Option.some.inj (hutc.symm.trans hutc')
      exact .inr h
  have hyday : (localTime utc k.off).yday = Calendar.dayOfYear (dayOf (utc + k.off)) := rfl
  by_cases hkey : c.tzDstOfft = o ∧ c.tmYday = (localTime utc k.off).yday
  · obtain hstart | ⟨d, hkept⟩ := hinv
    · have := dayOfYear_nonneg (dayOf (utc + k.off))
      omega
    · obtain ⟨hstep, hright⟩ := step_cached hkept hutc hdvd hoffset hkey
      constructor
      · rw [hright, hsafe]
        refine and_congr_right fun ho ↦ ?_
        rw [Renewable, if_pos ⟨ho ▸ hkey.1, hkey.2⟩, hkept.today, ← hyear, Nat.cast_inj]
      · intro _
        rw [hstep]
        exact .inr ⟨d, hkept.yday, hkept.zone, hkept.date, hkept.year_le, hkept.today⟩
  · obtain ⟨hright, hkeep⟩ := step_renewed hutc hdvd hoffset hkey
    refine ⟨?_, hkeep⟩
    rw [hright, hsafe]
    refine and_congr_right fun ho ↦ ?_
    rw [Renewable, if_neg (by rw [← ho]; exact hkey), ho, abs_neg, ← hyear]
    norm_cast

/-! ## Runs -/

/-- Over any sequence of calls from the start, every one is right exactly if every one is safe. -/
theorem along_right (ks : List TzCall) : init.Along Right ks ↔ init.Along Safe ks := by
  have hrun : ∀ {c : TzCache}, c.Inv → (c.Along Right ks ↔ c.Along Safe ks) := by
    induction ks with
    | nil => exact fun _ ↦ Iff.rfl
    | cons k ks ih =>
      intro c hinv
      obtain ⟨hiff, hkeep⟩ := step_right (k := k) hinv
      rw [Along, Along, ← hiff]
      exact and_congr_right fun hright ↦ ih (hkeep hright)
  exact hrun inv_init

/-- Half an hour before the end of the year 2020 in Greenwich, one hour east of it. -/
def newYear : TzCall where
  utc := some 1609457400
  off := 3600
  tzSet := false
  offFails := none
  dateFails := none
  off_lt := by norm_num

/-- The first call fails, the second one takes it for done: there is no text of the zone yet. -/
theorem not_right_newYear :
    (init.updateTzParam newYear).1 = false ∧
      ((init.updateTzParam newYear).2.updateTzParam newYear).1 = true ∧
      ((init.updateTzParam newYear).2.updateTzParam newYear).2.tzParam = [] ∧
      ¬init.Along Right [newYear, newYear] := by
  have hfail : (init.updateTzParam newYear).1 = false := by decide +kernel
  have hdone : ((init.updateTzParam newYear).2.updateTzParam newYear).1 = true := by
    decide +kernel
  have hnone : ((init.updateTzParam newYear).2.updateTzParam newYear).2.tzParam = [] := by
    decide +kernel
  refine ⟨hfail, hdone, hnone, ?_⟩
  intro h
  have hsecond := h.2.1
  rw [Right, if_pos hdone] at hsecond
  obtain ⟨utc, -, hcurrent⟩ := hsecond
  have hzone := hcurrent.zone
  rw [hnone] at hzone
  cases hzone

end TzCache

end EsOdbc
