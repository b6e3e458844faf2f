import EsOdbc.Timestamp.Text

/-!
# Instants

What `timestamp_parse` and `timestamp_to_tm_utc` give for a text: the date and the time of the
day, in Greenwich, of the instant that it names.
-/

namespace EsOdbc

open Decimal (ofDigits)
open Calendar (Date)

/-! ## Dates and times -/

/-- Seconds since 1970. -/
def instant (d : Date) (c : Clock) : ℤ := ((d.number : ℤ) - 306 - 719163) * 86400 + c.seconds

/-- The fields of a date and a time. -/
def stampFields (d : Date) (c : Clock) (fraction : ℕ) : TimestampStruct :=
  ⟨d.year, d.month, d.day, c.hour, c.minute, c.second, fraction⟩

theorem Clock.exists_seconds {n : ℕ} (hn : n < 86400) : ∃ c : Clock, c.seconds = n := by
  refine ⟨⟨⟨n / 3600, by omega⟩, ⟨n / 60 % 60, by omega⟩, ⟨n % 60, by omega⟩⟩, ?_⟩
  show n / 3600 * 3600 + n / 60 % 60 * 60 + n % 60 = n
  omega

theorem Clock.seconds_hour (c : Clock) : c.seconds / 3600 = c.hour := by
  have := c.minute.isLt
  have := c.second.isLt
  unfold seconds
  omega

theorem Clock.seconds_minute (c : Clock) : c.seconds / 60 % 60 = c.minute := by
  have := c.minute.isLt
  have := c.second.isLt
  unfold seconds
  omega

theorem Clock.seconds_second (c : Clock) : c.seconds % 60 = c.second := by
  have := c.second.isLt
  unfold seconds
  omega

theorem monthOf_marchDay (d : Date) :
    (535 * d.marchDay + 48950) / 2 ^ 14 = if d.month < 3 then d.month + 12 else d.month := by
  obtain ⟨y, m, n, h₁, h₂, h₃, h₄, h₅⟩ := d
  have hn : n ≤ Calendar.monthDays 0 m := by
    refine h₄.trans ?_
    unfold Calendar.monthDays
    split_ifs with hm hy hy' <;> simp_all [Calendar.IsLeap]
  simp only [Date.marchDay, Calendar.monthDays] at hn ⊢
  interval_cases m <;> simp [Calendar.monthStart, Calendar.IsLeap] at hn ⊢ <;> omega

/-- A day number is turned back into its date. -/
theorem rdnToStructTm_number {d : Date} {rdn : ℕ} (h : rdn + 306 = d.number) :
    rdnToStructTm rdn = (d.year, d.month, d.day) := by
  have hyear := d.marchYearOf_number
  have hday := d.marchDayOf_number
  have hmonth := monthOf_marchDay d
  have hm := d.month_pos
  have hm' := d.month_le
  have hform : rdnToStructTm rdn =
      let y := Calendar.marchYearOf (rdn + 306)
      let c := Calendar.marchDayOf (rdn + 306)
      let m := (535 * c + 48950) / 2 ^ 14
      if 12 < m then (y + 1, m - 12, c - Calendar.monthStart (m - 12))
      else (y, m, c - Calendar.monthStart m) := rfl
  have hback : d.marchDay - Calendar.monthStart d.month = d.day := Nat.add_sub_cancel_left ..
  rw [hform, h]
  dsimp only
  rw [hyear, hday, hmonth]
  by_cases hlate : d.month < 3
  · have hy := d.start hlate
    rw [if_pos hlate, if_pos (by omega), Nat.add_sub_cancel, hback, Date.marchYear, if_pos hlate,
      Nat.sub_add_cancel hy]
  · rw [if_neg hlate, if_neg (by omega), hback, Date.marchYear, if_neg hlate]

/-- A date is given by its number. -/
theorem number_injective : Function.Injective Date.number := by
  intro d d' h
  have hyear : d.marchYear = d'.marchYear := by
    rw [← d.marchYearOf_number, h, d'.marchYearOf_number]
  have hday : d.marchDay = d'.marchDay := by
    rw [← d.marchDayOf_number, h, d'.marchDayOf_number]
  have hmonth : d.month = d'.month := by
    have hm := monthOf_marchDay d
    rw [hday, monthOf_marchDay d'] at hm
    have := d.month_pos
    have := d'.month_pos
    have := d.month_le
    have := d'.month_le
    split_ifs at hm <;> omega
  have hstart := d.start
  have hstart' := d'.start
  simp only [Date.marchYear, Date.marchDay, hmonth] at hyear hday hstart
  refine Date.ext ?_ hmonth (Nat.add_left_cancel hday)
  split_ifs at hyear with hlate
  · have := hstart hlate
    have := hstart' hlate
    omega
  · exact hyear

theorem Clock.seconds_injective : Function.Injective Clock.seconds := by
  intro c c' h
  refine Clock.ext (Fin.ext ?_) (Fin.ext ?_) (Fin.ext ?_)
  · rw [← c.seconds_hour, h, c'.seconds_hour]
  · rw [← c.seconds_minute, h, c'.seconds_minute]
  · rw [← c.seconds_second, h, c'.seconds_second]

/-- An instant is that of one date and time. -/
theorem instant_injective {d d' : Date} {c c' : Clock} (h : instant d c = instant d' c') :
    d = d' ∧ c = c' := by
  have hc := c.seconds_lt
  have hc' := c'.seconds_lt
  unfold instant at h
  exact ⟨number_injective (by omega), Clock.seconds_injective (by omega)⟩

theorem timestampValid_iff {tsp : Timestamp} : timestampValid tsp = true ↔
    (-62135596800 ≤ tsp.sec + tsp.offset * 60 ∧ tsp.sec + tsp.offset * 60 ≤ 253402300799) ∧
      tsp.nsec ≤ 999999999 ∧ -1439 ≤ tsp.offset ∧ tsp.offset ≤ 1439 := by
  simp only [timestampValid, Bool.and_eq_true, decide_eq_true_eq, and_assoc]
  rfl

/-- The fields of an instant. -/
theorem timestampToTmUtc_instant {tsp : Timestamp} {d : Date} {c : Clock}
    (hvalid : timestampValid tsp = true) (h : instant d c = tsp.sec) :
    timestampToTmUtc tsp = some (stampFields d c tsp.nsec) := by
  have hc := c.seconds_lt
  have hmin := timestampValid_iff.mp hvalid
  have hsec : (tsp.sec + 62135683200).toNat = (d.number - 306) * 86400 + c.seconds := by
    unfold instant at h
    omega
  have hnumber : 306 ≤ d.number := by
    unfold instant at h
    omega
  have hdiv : ((d.number - 306) * 86400 + c.seconds) / 86400 = d.number - 306 := by omega
  have hmod : ((d.number - 306) * 86400 + c.seconds) % 86400 = c.seconds := by omega
  rw [timestampToTmUtc, if_pos hvalid]
  simp only [hsec, hdiv, hmod, rdnToStructTm_number (Nat.sub_add_cancel hnumber),
    c.seconds_hour, c.seconds_minute, c.seconds_second, stampFields]

/-- Every instant from March of the year 0 on has its date and time. -/
theorem exists_instant {s : ℤ} (hs : -62162035200 ≤ s) : ∃ d c, instant d c = s := by
  obtain ⟨n, hn⟩ : ∃ n : ℕ, s + 62162035200 = n := Int.eq_ofNat_of_zero_le (by omega)
  obtain ⟨d, hd⟩ := Date.exists_number (z := n / 86400 + 1) (by omega)
  obtain ⟨c, hc⟩ := Clock.exists_seconds (n := n % 86400) (by omega)
  refine ⟨d, c, ?_⟩
  rw [instant, hd, hc]
  omega

/-! ## Whole timestamps -/

/-- A timestamp with its zone. -/
structure Stamp extends Stem where
  zone : Zone

namespace Stamp

def text (s : Stamp) : WStr := s.toStem.text ++ s.zone.text

/-- The timestamp that is named. -/
def value (s : Stamp) : Timestamp :=
  ⟨s.seconds - s.zone.offset * 60, nanos s.frac, s.zone.offset⟩

theorem nanos_le {frac : Option Digits} (h : ShortFrac frac) : nanos frac ≤ 999999999 := by
  cases frac with
  | none => exact Nat.zero_le _
  | some ds =>
    have hlen := (h ds rfl).2
    have hlt := Decimal.ofDigits_lt ds
    have hpow : 10 ^ ds.length * 10 ^ (9 - ds.length) = 10 ^ 9 := by
      rw [← pow_add, Nat.add_sub_cancel' hlen]
    have hmul : ofDigits ds * 10 ^ (9 - ds.length) < 10 ^ 9 :=
      hpow ▸ Nat.mul_lt_mul_of_pos_right hlt (by positivity)
    exact Nat.le_of_lt_succ hmul

theorem offset_mem (z : Zone) : -1439 ≤ z.offset ∧ z.offset ≤ 1439 := by
  cases z with
  | utc lower => simp [Zone.offset]
  | shifted west hours minutes =>
    have hh := hours.isLt
    have hm := minutes.isLt
    rw [Zone.offset]
    split_ifs <;> omega

theorem valid (s : Stamp) : timestampValid s.value = true := by
  have hmem := Date.number_mem s.date.year_pos s.date.year_le
  have hclock := s.clock.seconds_lt
  have hoffset := offset_mem s.zone
  have hseconds : s.seconds = ((s.date.number : ℤ) - 306 - 719163) * 86400 + s.clock.seconds := rfl
  have hnanos := nanos_le s.short
  rw [timestampValid_iff, value]
  dsimp only
  omega

/-- A timestamp is converted to the date and time of its instant. -/
theorem exists_fields (s : Stamp) : ∃ d c, instant d c = s.value.sec ∧
    timestampToTmUtc s.value = some (stampFields d c (nanos s.frac)) := by
  have hvalid := s.valid
  have hsec : -62162035200 ≤ s.value.sec := by
    rw [timestampValid_iff] at hvalid
    omega
  obtain ⟨d, c, h⟩ := exists_instant hsec
  exact ⟨d, c, h, timestampToTmUtc_instant hvalid h⟩

end Stamp

theorem Zone.exists_text (z : Zone) : ∃ ch cur, z.text = ch :: cur ∧ digitOf ch = none ∧ ch ≠ 0x2E := by
  cases z with
  | utc lower => cases lower <;> exact ⟨_, _, rfl, by decide, by decide⟩
  | shifted west hours minutes => cases west <;> exact ⟨_, _, rfl, by decide, by decide⟩

theorem Stem.ends_of {s : Stem} {ch : UInt16} (h : digitOf ch = none ∧ ch ≠ 0x2E) : s.Ends ch := by
  unfold Ends
  split_ifs
  · exact h.2
  · exact h.1

/-- What the parser accepts. -/
theorem timestampParse_eq_ok {w : WStr} {ts : Timestamp} :
    timestampParse w = .ok ts ↔ ∃ s : Stamp, w = s.text ∧ ts = s.value := by
  constructor
  · intro h
    obtain ⟨s, ch, cur, hch, rfl⟩ := Stem.exists_text_of_ne (w := w) (by simp [h])
    rw [s.timestampParse_text hch] at h
    cases hoff : parseOffset ch cur with
    | error e =>
      rw [hoff] at h
      cases h
    | ok x =>
      obtain ⟨offset, rest⟩ := x
      rw [hoff, Stem.finish] at h
      by_cases hrest : rest = []
      · subst hrest
        obtain ⟨z, hz, rfl⟩ := parseOffset_eq_ok.mp hoff
        rw [if_neg (not_not.mpr rfl), Except.ok.injEq] at h
        exact ⟨⟨s, z⟩, by rw [hz, Stamp.text], h.symm⟩
      · rw [if_pos hrest] at h
        cases h
  · rintro ⟨s, rfl, rfl⟩
    obtain ⟨ch, cur, hz, hch⟩ := s.zone.exists_text
    have hoff := parseOffset_eq_ok.mpr ⟨s.zone, hz.symm, rfl⟩
    rw [Stamp.text, hz, s.timestampParse_text (Stem.ends_of hch), hoff]
    rfl

/-- When the parser looks behind the text. -/
theorem timestampParse_eq_pastEnd {w : WStr} {behind : ℕ} :
    timestampParse w = .error (.pastEnd behind) ↔ ∃ (s : Stem) (west : Bool) (cur : WStr),
      CutZone behind cur ∧ w = s.text ++ (if west then 0x2D else 0x2B) :: cur := by
  constructor
  · intro h
    obtain ⟨s, ch, cur, hch, rfl⟩ := Stem.exists_text_of_ne (w := w) (by simp [h])
    rw [s.timestampParse_text hch] at h
    cases hoff : parseOffset ch cur with
    | error e =>
      rw [hoff, Stem.finish, Except.error.injEq] at h
      subst h
      obtain ⟨hsign, hcut⟩ := parseOffset_eq_pastEnd.mp hoff
      rcases hsign with rfl | rfl
      · exact ⟨s, false, cur, hcut, rfl⟩
      · exact ⟨s, true, cur, hcut, rfl⟩
    | ok x =>
      rw [hoff, Stem.finish] at h
      split_ifs at h
      cases h
  · rintro ⟨s, west, cur, hcut, rfl⟩
    have hch : digitOf (if west then 0x2D else 0x2B) = none ∧
        (if west then 0x2D else 0x2B : UInt16) ≠ 0x2E := by
      cases west
      · decide
      · decide
    have hsign : (if west then 0x2D else 0x2B : UInt16) = 0x2B ∨
        (if west then 0x2D else 0x2B : UInt16) = 0x2D := by
      cases west
      · exact .inl rfl
      · exact .inr rfl
    have hoff := parseOffset_eq_pastEnd.mpr ⟨hsign, hcut⟩
    rw [s.timestampParse_text (Stem.ends_of hch), hoff]
    rfl

end EsOdbc
