import EsOdbc.Timestamp.Parse

/-!
# Texts of timestamps

The texts that `timestamp_parse` accepts, and the instants they stand for.
-/

namespace EsOdbc

open Decimal (ofDigits)
open Calendar (Date)

/-! ## Parts -/

/-- The text of a date. -/
def dateText (d : Date) : WStr :=
  padded 4 d.year ++ 0x2D :: (padded 2 d.month ++ 0x2D :: padded 2 d.day)

/-- A date that four digits of a year are enough for. -/
structure IsoDate extends Date where
  year_pos : 1 ≤ year
  year_le : year ≤ 9999
deriving DecidableEq

/-- A time of the day. -/
@[ext] structure Clock where
  hour : Fin 24
  minute : Fin 60
  second : Fin 60
deriving DecidableEq

namespace Clock

/-- The second of the day. -/
def seconds (c : Clock) : ℕ := c.hour * 3600 + c.minute * 60 + c.second

def text (c : Clock) : WStr :=
  padded 2 c.hour ++ 0x3A :: (padded 2 c.minute ++ 0x3A :: padded 2 c.second)

theorem seconds_lt (c : Clock) : c.seconds < 86400 := by
  have h := c.hour.isLt
  have m := c.minute.isLt
  have s := c.second.isLt
  unfold seconds
  omega

end Clock

/-- The digits of a fraction. -/
abbrev Digits := List (Fin 10)

/-- The text of a fraction. -/
def pointText (frac : Option Digits) : WStr := frac.elim [] fun ds ↦ 0x2E :: digitUnits ds

/-- A fraction has one to nine digits. -/
def ShortFrac (frac : Option Digits) : Prop := ∀ ds ∈ frac, 1 ≤ ds.length ∧ ds.length ≤ 9

instance (frac : Option Digits) : Decidable (ShortFrac frac) := by
  cases frac with
  | none => exact decidable_of_iff True (by simp [ShortFrac])
  | some ds => exact decidable_of_iff (1 ≤ ds.length ∧ ds.length ≤ 9) (by simp [ShortFrac])

/-- The billionths of a second. -/
def nanos (frac : Option Digits) : ℕ := frac.elim 0 fun ds ↦ ofDigits ds * 10 ^ (9 - ds.length)

/-- A zone: that of Greenwich, its letter in either case, or hours and minutes from it. -/
inductive Zone where
  | utc (lower : Bool)
  | shifted (west : Bool) (hours : Fin 24) (minutes : Fin 60)
deriving DecidableEq

namespace Zone

def text : Zone → WStr
  | utc lower => [if lower then 0x7A else 0x5A]
  | shifted west hours minutes =>
    (if west then 0x2D else 0x2B) :: (padded 2 hours ++ 0x3A :: padded 2 minutes)

/-- Minutes east of Greenwich. -/
def offset : Zone → ℤ
  | utc _ => 0
  | shifted west hours minutes =>
    if west then -((hours : ℤ) * 60 + minutes) else (hours : ℤ) * 60 + minutes

end Zone

/-- A zone that is cut short behind its sign, before its colon or its minutes.  The first
unit that is missed has this index behind the text. -/
def CutZone (behind : ℕ) (cur : WStr) : Prop :=
  (cur.length ≤ 2 ∧ behind = 2 - cur.length) ∨
    (behind = 0 ∧ ∃ (hours : Fin 24) (ds : Digits), ds.length ≤ 1 ∧
      cur = padded 2 hours ++ 0x3A :: digitUnits ds)

/-- The unit between date and time. -/
inductive Separator where
  | upper
  | lower
  | blank
deriving DecidableEq

def Separator.unit : Separator → UInt16
  | upper => 0x54
  | lower => 0x74
  | blank => 0x20

/-- A timestamp up to its zone. -/
structure Stem where
  date : IsoDate
  sep : Separator
  clock : Clock
  frac : Option Digits
  short : ShortFrac frac

namespace Stem

def text (s : Stem) : WStr :=
  dateText s.date.toDate ++ s.sep.unit :: (s.clock.text ++ pointText s.frac)

/-- Units that may follow: those that do not go on with the fraction. -/
def Ends (s : Stem) (ch : UInt16) : Prop :=
  if s.frac = none then ch ≠ 0x2E else digitOf ch = none

/-- The seconds since 1970 that the fields are in Greenwich. -/
def seconds (s : Stem) : ℤ := ((s.date.number : ℤ) - 306 - 719163) * 86400 + s.clock.seconds

end Stem

/-! ## Their parsers -/

theorem monthDays_eq {y m : ℕ} (h₁ : 1 ≤ m) (h₂ : m ≤ 12) :
    monthDays y m = Calendar.monthDays y m := by
  have hleap : leapYear y = true ↔ Calendar.IsLeap y := by simp [leapYear, Calendar.IsLeap]
  unfold monthDays Calendar.monthDays
  interval_cases m
  case «2» => by_cases h : Calendar.IsLeap y <;> simp [hleap, h]
  all_goals simp

/-- What the parser of a date accepts. -/
theorem parseRdn_eq_some {y₀ y₁ y₂ y₃ m₀ m₁ d₀ d₁ : UInt16} {n : ℕ} :
    parseRdn y₀ y₁ y₂ y₃ m₀ m₁ d₀ d₁ = some n ↔ ∃ d : IsoDate, n + 306 = d.number ∧
      [y₀, y₁, y₂, y₃] = padded 4 d.year ∧ [m₀, m₁] = padded 2 d.month ∧
        [d₀, d₁] = padded 2 d.day := by
  simp only [parseRdn, Option.bind_eq_some_iff, within_eq_some, parse4d_eq_some, parse2d_eq_some]
  constructor
  · rintro ⟨y, ⟨⟨-, hy⟩, hy₁, hy₂⟩, m, ⟨⟨-, hm⟩, hm₁, hm₂⟩, d, ⟨⟨-, hd⟩, hd₁, hd₂⟩, h⟩
    split at h
    · cases h
    · next hdays =>
      have hle : d ≤ Calendar.monthDays y m := by
        rw [monthDays_eq hm₁ hm₂] at hdays
        rw [not_and, not_lt] at hdays
        by_cases h28 : 28 < d
        · exact hdays h28
        · refine (not_lt.mp h28).trans ?_
          unfold Calendar.monthDays
          split_ifs <;> norm_num
      refine ⟨⟨⟨y, m, d, hm₁, hm₂, hd₁, hle, fun _ ↦ hy₁⟩, hy₁, hy₂⟩, ?_, hy, hm, hd⟩
      have hn := Option.some.inj h
      have hmem := Calendar.Date.number_mem
        (d := ⟨y, m, d, hm₁, hm₂, hd₁, hle, fun _ ↦ hy₁⟩) hy₁ hy₂
      have hnum : Calendar.Date.number ⟨y, m, d, hm₁, hm₂, hd₁, hle, fun _ ↦ hy₁⟩ =
          1461 * (if m < 3 then y - 1 else y) / 4 - (if m < 3 then y - 1 else y) / 100 +
            (if m < 3 then y - 1 else y) / 400 + (dayOffset m + d) := rfl
      rw [hnum] at hmem ⊢
      omega
  · rintro ⟨d, hn, hy, hm, hd⟩
    have hm₁ := d.month_pos
    have hm₂ := d.month_le
    have hd₁ := d.day_pos
    have hdays := d.day_le
    have hd₂ : d.day ≤ 31 := by
      refine hdays.trans ?_
      unfold Calendar.monthDays
      split_ifs <;> norm_num
    have hy₁ := d.year_pos
    have hy₂ := d.year_le
    refine ⟨d.year, ⟨⟨by omega, hy⟩, hy₁, hy₂⟩, d.month, ⟨⟨by omega, hm⟩, hm₁, hm₂⟩, d.day,
      ⟨⟨by omega, hd⟩, hd₁, hd₂⟩, ?_⟩
    rw [if_neg, Option.some.injEq]
    · have hnum : d.number = 1461 * (if d.month < 3 then d.year - 1 else d.year) / 4 -
          (if d.month < 3 then d.year - 1 else d.year) / 100 +
            (if d.month < 3 then d.year - 1 else d.year) / 400 + (dayOffset d.month + d.day) := rfl
      omega
    · rw [monthDays_eq hm₁ hm₂]
      omega

theorem parseSod_eq_some {h₀ h₁ i₀ i₁ s₀ s₁ : UInt16} {n : ℕ} :
    parseSod h₀ h₁ i₀ i₁ s₀ s₁ = some n ↔ ∃ c : Clock, n = c.seconds ∧
      [h₀, h₁] = padded 2 c.hour ∧ [i₀, i₁] = padded 2 c.minute ∧ [s₀, s₁] = padded 2 c.second := by
  simp only [parseSod, Option.bind_eq_some_iff, Option.map_eq_some_iff, within_eq_some,
    parse2d_eq_some]
  constructor
  · rintro ⟨h, ⟨⟨-, hh⟩, -, hh'⟩, i, ⟨⟨-, hi⟩, -, hi'⟩, s, ⟨⟨-, hs⟩, -, hs'⟩, rfl⟩
    exact ⟨⟨⟨h, by omega⟩, ⟨i, by omega⟩, ⟨s, by omega⟩⟩, rfl, hh, hi, hs⟩
  · rintro ⟨c, rfl, hh, hi, hs⟩
    have h := c.hour.isLt
    have m := c.minute.isLt
    have s := c.second.isLt
    exact ⟨_, ⟨⟨by omega, hh⟩, by omega, by omega⟩, _, ⟨⟨by omega, hi⟩, by omega, by omega⟩, _,
      ⟨⟨by omega, hs⟩, by omega, by omega⟩, rfl⟩

theorem takeWhile_digitUnits (ds : Digits) {rest : WStr} (hrest : ∀ c ∈ rest.head?, digitOf c = none) :
    (digitUnits ds ++ rest).takeWhile (fun c ↦ (digitOf c).isSome) = digitUnits ds := by
  rw [List.takeWhile_append_of_pos]
  · have hnil : rest.takeWhile (fun c ↦ (digitOf c).isSome) = [] := by
      cases rest with
      | nil => rfl
      | cons c rest => rw [List.takeWhile_cons_of_neg (by simp [hrest c rfl])]
    rw [hnil, List.append_nil]
  · intro c hc
    obtain ⟨d, -, rfl⟩ := List.mem_map.mp hc
    simp

theorem foldl_nsec (n : ℕ) (ds : Digits) (h : Decimal.extend n ds < 2 ^ 32) :
    (digitUnits ds).foldl (fun nsec c ↦ (nsec * 10 + (digitOf c).getD 0) % 2 ^ 32) n =
      Decimal.extend n ds := by
  induction ds generalizing n with
  | nil => rfl
  | cons d ds ih =>
    have hle := Decimal.le_extend (n * 10 + d) ds
    rw [Decimal.extend_cons] at h ⊢
    rw [digitUnits_cons, List.foldl_cons, digitOf_digitUnit, Option.getD_some,
      Nat.mod_eq_of_lt (hle.trans_lt h), ih _ h]

/-- A short fraction in billionths is a word of 32 bits. -/
theorem nsec_eq {ds : Digits} (hlen : ds.length ≤ 9) :
    (digitUnits ds).foldl (fun nsec c ↦ (nsec * 10 + (digitOf c).getD 0) % 2 ^ 32) 0 *
      10 ^ (9 - ds.length) % 2 ^ 32 = nanos (some ds) := by
  have hlt : Decimal.extend 0 ds < 10 ^ ds.length := Decimal.ofDigits_lt ds
  have hten : 10 ^ ds.length ≤ 10 ^ 9 := Nat.pow_le_pow_right (by norm_num) hlen
  have hpow : 10 ^ ds.length * 10 ^ (9 - ds.length) = 10 ^ 9 := by
    rw [← pow_add, Nat.add_sub_cancel' hlen]
  have hmul : Decimal.extend 0 ds * 10 ^ (9 - ds.length) < 10 ^ 9 :=
    hpow ▸ Nat.mul_lt_mul_of_pos_right hlt (by positivity)
  rw [foldl_nsec 0 ds (lt_of_lt_of_le hlt (hten.trans (by norm_num))),
    Nat.mod_eq_of_lt (lt_of_lt_of_le hmul (by norm_num))]
  rfl

/-- What the parser of a fraction accepts. -/
theorem parseNsec_eq_some {ch ch' : UInt16} {cur cur' : WStr} {n : ℕ} :
    parseNsec ch cur = some (n, ch', cur') ↔ ∃ frac, ShortFrac frac ∧
      ch :: cur = pointText frac ++ ch' :: cur' ∧ n = nanos frac ∧
        if frac = none then ch ≠ 0x2E else digitOf ch' = none := by
  rw [parseNsec]
  by_cases hch : ch = 0x2E
  · subst hch
    rw [if_pos rfl]
    obtain ⟨ds, rest, rfl, hrest⟩ := exists_digitUnits cur
    have htake := takeWhile_digitUnits ds hrest
    have hdrop : (digitUnits ds ++ rest).drop ds.length = rest := by
      rw [← digitUnits_length ds, List.drop_left]
    simp only [htake, digitUnits_length, hdrop]
    constructor
    · intro h
      split at h
      · cases h
      · next hlen =>
        have hshort : 1 ≤ ds.length ∧ ds.length ≤ 9 := by omega
        cases rest with
        | nil => cases h
        | cons c rest =>
          simp only [Option.some.injEq, Prod.mk.injEq] at h
          obtain ⟨hn, rfl, rfl⟩ := h
          refine ⟨some ds, by simpa [ShortFrac] using hshort, rfl, ?_, ?_⟩
          · rw [nsec_eq hshort.2] at hn
            exact hn.symm
          · rw [if_neg (by simp)]
            exact hrest _ rfl
    · rintro ⟨frac, hshort, htext, rfl, hend⟩
      cases frac with
      | none =>
        rw [if_pos rfl] at hend
        exact absurd rfl hend
      | some es =>
        rw [if_neg (by simp)] at hend
        have happ : digitUnits ds ++ rest = digitUnits es ++ ch' :: cur' := (List.cons.inj htext).2
        obtain ⟨rfl, rfl⟩ := digitUnits_append_inj hrest (by simpa using hend) happ
        have hlen := hshort ds rfl
        rw [if_neg (by omega)]
        simp only [nsec_eq hlen.2]
  · rw [if_neg hch]
    constructor
    · intro h
      simp only [Option.some.injEq, Prod.mk.injEq] at h
      obtain ⟨rfl, rfl, rfl⟩ := h
      exact ⟨none, by simp [ShortFrac], rfl, rfl, by rwa [if_pos rfl]⟩
    · rintro ⟨frac, -, htext, rfl, -⟩
      cases frac with
      | none =>
        obtain ⟨rfl, rfl⟩ := List.cons.inj htext
        rfl
      | some ds => exact absurd (List.cons.inj htext).1 hch

theorem padded_two (n : ℕ) :
    padded 2 n = [digitUnit (Decimal.digit (n / 10)), digitUnit (Decimal.digit n)] := rfl

theorem padded_four (n : ℕ) :
    padded 4 n = [digitUnit (Decimal.digit (n / 10 / 10 / 10)),
      digitUnit (Decimal.digit (n / 10 / 10)), digitUnit (Decimal.digit (n / 10)),
      digitUnit (Decimal.digit n)] := rfl

theorem within_parse2d {lo hi n : ℕ} {a b : UInt16} (hhi : hi < 100) :
    within lo hi (parse2d a b) = some n ↔ [a, b] = padded 2 n ∧ lo ≤ n ∧ n ≤ hi := by
  rw [within_eq_some, parse2d_eq_some]
  constructor
  · rintro ⟨⟨-, h⟩, hn⟩
    exact ⟨h, hn⟩
  · rintro ⟨h, hn⟩
    exact ⟨⟨by omega, h⟩, hn⟩

theorem parseZoneMin_eq_ok {hour : ℕ} {cur : WStr} (hlen : cur.length ≤ 2) {zone : ℕ × ℕ} :
    parseZoneMin hour cur = .ok zone ↔
      ∃ minutes : Fin 60, cur = padded 2 minutes ∧ zone = (hour, minutes.val) := by
  constructor
  · intro h
    rcases cur with _ | ⟨d, _ | ⟨e, rest⟩⟩
    · cases h
    · rw [parseZoneMin] at h
      split_ifs at h
    · obtain rfl : rest = [] := List.eq_nil_of_length_eq_zero (by simpa using hlen)
      rw [parseZoneMin] at h
      cases hm : within 0 59 (parse2d d e) with
      | none => simp [hm] at h
      | some minutes =>
        rw [hm, Option.elim_some, Except.ok.injEq] at h
        obtain ⟨hde, -, hminutes⟩ := (within_parse2d (by norm_num)).mp hm
        exact ⟨⟨minutes, by omega⟩, hde, h.symm⟩
  · rintro ⟨minutes, rfl, rfl⟩
    have hm : within 0 59 (parse2d _ _) = some minutes.val :=
      (within_parse2d (by norm_num)).mpr ⟨rfl, by omega, by omega⟩
    show (within 0 59 (parse2d _ _)).elim _ _ = _
    rw [hm, Option.elim_some]

/-- The zone behind a sign, in as many units as there may be. -/
theorem parseZone_eq_ok {cur : WStr} (hlen : cur.length ≤ 5) {zone : ℕ × ℕ} :
    parseZone cur = .ok zone ↔ ∃ (hours : Fin 24) (minutes : Fin 60),
      cur = padded 2 hours ++ 0x3A :: padded 2 minutes ∧ zone = (hours.val, minutes.val) := by
  constructor
  · intro h
    rcases cur with _ | ⟨a, _ | ⟨b, _ | ⟨c, rest⟩⟩⟩
    case cons.cons.cons =>
      unfold parseZone at h
      dsimp only at h
      split_ifs at h with hc
      cases hh : within 0 23 (parse2d a b) with
      | none => simp [hh] at h
      | some hours =>
        have hlen' : rest.length ≤ 2 := by
          simp only [List.length_cons] at hlen
          omega
        rw [hh, Option.elim_some, parseZoneMin_eq_ok hlen'] at h
        obtain ⟨minutes, rfl, rfl⟩ := h
        obtain ⟨hab, -, hhours⟩ := (within_parse2d (by norm_num)).mp hh
        refine ⟨⟨hours, by omega⟩, minutes, ?_, rfl⟩
        rw [← hab, not_not.mp hc]
        rfl
    all_goals cases h
  · rintro ⟨hours, minutes, rfl, rfl⟩
    have hh : within 0 23 (parse2d _ _) = some hours.val :=
      (within_parse2d (by norm_num)).mpr ⟨rfl, by omega, by omega⟩
    show (within 0 23 (parse2d _ _)).elim _ _ = _
    rw [hh, Option.elim_some, parseZoneMin_eq_ok (by simp)]
    exact ⟨minutes, rfl, rfl⟩

theorem parseZoneMin_eq_pastEnd {hour behind : ℕ} {cur : WStr} :
    parseZoneMin hour cur = .error (.pastEnd behind) ↔
      behind = 0 ∧ ∃ ds : Digits, ds.length ≤ 1 ∧ cur = digitUnits ds := by
  constructor
  · intro h
    rcases cur with _ | ⟨d, _ | ⟨e, rest⟩⟩
    · simp only [parseZoneMin, Except.error.injEq, TimestampFault.pastEnd.injEq] at h
      exact ⟨h.symm, [], by simp, rfl⟩
    · rw [parseZoneMin] at h
      split_ifs at h with hd
      · cases h
      · obtain ⟨n, hn⟩ := Option.ne_none_iff_exists'.mp hd
        obtain ⟨d, rfl, -⟩ := digitOf_eq_some hn
        simp only [Except.error.injEq, TimestampFault.pastEnd.injEq] at h
        exact ⟨h.symm, [d], by simp, rfl⟩
    · rw [parseZoneMin] at h
      cases hm : within 0 59 (parse2d d e) <;> simp [hm] at h
  · rintro ⟨rfl, ds, hlen, rfl⟩
    rcases ds with _ | ⟨d, _ | ⟨e, ds⟩⟩
    · rfl
    · rw [digitUnits_cons, digitUnits_nil, parseZoneMin, if_neg (by simp)]
    · simp at hlen

theorem parseZone_eq_pastEnd {behind : ℕ} {cur : WStr} :
    parseZone cur = .error (.pastEnd behind) ↔ CutZone behind cur := by
  rcases cur with _ | ⟨a, _ | ⟨b, _ | ⟨c, rest⟩⟩⟩
  case cons.cons.cons =>
    have hshort : ¬((a :: b :: c :: rest).length ≤ 2 ∧ behind = 2 - (a :: b :: c :: rest).length) := by
      simp
    rw [CutZone, or_iff_right hshort]
    show (if c ≠ 0x3A then _ else _) = _ ↔ _
    constructor
    · intro h
      split_ifs at h with hc
      · cases h
      · cases hh : within 0 23 (parse2d a b) with
        | none => simp [hh] at h
        | some hours =>
          rw [hh, Option.elim_some, parseZoneMin_eq_pastEnd] at h
          obtain ⟨rfl, ds, hds, rfl⟩ := h
          obtain ⟨hab, -, hhours⟩ := (within_parse2d (by norm_num)).mp hh
          refine ⟨rfl, ⟨hours, by omega⟩, ds, hds, ?_⟩
          rw [← hab, not_not.mp hc]
          rfl
    · rintro ⟨rfl, hours, ds, hds, h⟩
      have hsplit : [a, b] ++ c :: rest = padded 2 hours ++ 0x3A :: digitUnits ds := h
      obtain ⟨hab, hcrest⟩ := List.append_inj hsplit (by simp)
      obtain ⟨rfl, rfl⟩ := List.cons.inj hcrest
      rw [if_neg (by simp), (within_parse2d (by norm_num)).mpr ⟨hab, by omega, by omega⟩,
        Option.elim_some, parseZoneMin_eq_pastEnd]
      exact ⟨rfl, ds, hds, rfl⟩
  all_goals
    show Except.error (TimestampFault.pastEnd _) = _ ↔ _
    rw [Except.error.injEq, TimestampFault.pastEnd.injEq, CutZone, or_iff_left]
    · simp [eq_comm]
    · rintro ⟨-, hours, ds, -, h⟩
      have hlen := congrArg List.length h
      simp only [List.length_append, length_padded, List.length_cons, List.length_nil] at hlen
      omega

theorem parseOffset_utc {ch : UInt16} (h : ch = 0x5A ∨ ch = 0x7A) (cur : WStr) :
    parseOffset ch cur = .ok (0, cur) := by rw [parseOffset, if_pos h]

theorem parseOffset_shifted {ch : UInt16} {cur : WStr} (h : ch = 0x2B ∨ ch = 0x2D)
    (hlen : cur.length ≤ 5) :
    parseOffset ch cur = (parseZone cur).map fun zone ↦
      (if ch = 0x2D then -((zone.1 : ℤ) * 60 + zone.2) else (zone.1 : ℤ) * 60 + zone.2,
        cur.drop 5) := by
  rw [parseOffset, if_neg (by rcases h with rfl | rfl <;> simp), if_neg (by simp [hlen, h])]

theorem parseOffset_malformed {ch : UInt16} {cur : WStr} (hz : ¬(ch = 0x5A ∨ ch = 0x7A))
    (h : ¬((ch = 0x2B ∨ ch = 0x2D) ∧ cur.length ≤ 5)) :
    parseOffset ch cur = .error .malformed := by
  rw [parseOffset, if_neg hz, if_pos]
  rwa [not_and_or, not_le, or_comm] at h

/-- What the parser of a zone accepts, when nothing is behind it. -/
theorem parseOffset_eq_ok {ch : UInt16} {cur : WStr} {offset : ℤ} :
    parseOffset ch cur = .ok (offset, []) ↔ ∃ z : Zone, ch :: cur = z.text ∧ offset = z.offset := by
  constructor
  · intro h
    by_cases hz : ch = 0x5A ∨ ch = 0x7A
    · rw [parseOffset_utc hz, Except.ok.injEq, Prod.mk.injEq] at h
      obtain ⟨rfl, rfl⟩ := h
      rcases hz with rfl | rfl
      · exact ⟨.utc false, rfl, rfl⟩
      · exact ⟨.utc true, rfl, rfl⟩
    by_cases hs : (ch = 0x2B ∨ ch = 0x2D) ∧ cur.length ≤ 5
    · obtain ⟨hch, hlen⟩ := hs
      rw [parseOffset_shifted hch hlen] at h
      cases hzone : parseZone cur with
      | error e =>
        rw [hzone] at h
        cases h
      | ok zone =>
        obtain ⟨hours, minutes, rfl, rfl⟩ := (parseZone_eq_ok hlen).mp hzone
        simp only [hzone, Except.map, Except.ok.injEq, Prod.mk.injEq] at h
        obtain ⟨rfl, -⟩ := h
        rcases hch with rfl | rfl
        · exact ⟨.shifted false hours minutes, rfl, rfl⟩
        · exact ⟨.shifted true hours minutes, rfl, rfl⟩
    · rw [parseOffset_malformed hz hs] at h
      cases h
  · rintro ⟨z, h, rfl⟩
    cases z with
    | utc lower =>
      obtain ⟨rfl, rfl⟩ := List.cons.inj h
      exact parseOffset_utc (by cases lower <;> simp) []
    | shifted west hours minutes =>
      obtain ⟨rfl, rfl⟩ := List.cons.inj h
      rw [parseOffset_shifted (by cases west <;> simp) (by simp),
        (parseZone_eq_ok (by simp)).mpr ⟨hours, minutes, rfl, rfl⟩]
      cases west <;> rfl

/-- When the parser of a zone looks behind the text. -/
theorem parseOffset_eq_pastEnd {ch : UInt16} {cur : WStr} {behind : ℕ} :
    parseOffset ch cur = .error (.pastEnd behind) ↔
      (ch = 0x2B ∨ ch = 0x2D) ∧ CutZone behind cur := by
  constructor
  · intro h
    by_cases hz : ch = 0x5A ∨ ch = 0x7A
    · rw [parseOffset_utc hz] at h
      cases h
    by_cases hs : (ch = 0x2B ∨ ch = 0x2D) ∧ cur.length ≤ 5
    · obtain ⟨hch, hlen⟩ := hs
      rw [parseOffset_shifted hch hlen] at h
      cases hzone : parseZone cur with
      | error e =>
        rw [hzone] at h
        have he : e = .pastEnd behind := Except.error.inj h
        exact ⟨hch, parseZone_eq_pastEnd.mp (he ▸ hzone)⟩
      | ok zone =>
        rw [hzone] at h
        cases h
    · rw [parseOffset_malformed hz hs] at h
      cases h
  · rintro ⟨hch, hcut⟩
    have hlen : cur.length ≤ 5 := by
      rcases hcut with ⟨h, -⟩ | ⟨-, hours, ds, hds, rfl⟩
      · omega
      · simp only [List.length_append, length_padded, List.length_cons, digitUnits_length]
        omega
    rw [parseOffset_shifted hch hlen, parseZone_eq_pastEnd.mpr hcut]
    rfl

/-! ## The parser -/

namespace Stem

/-- What the parser makes of what it has read behind the stem. -/
def finish (s : Stem) : Except TimestampFault (ℤ × WStr) → Except TimestampFault Timestamp
  | .error e => .error e
  | .ok (offset, rest) =>
    if rest ≠ [] then .error .malformed
    else .ok ⟨s.seconds - offset * 60, nanos s.frac, offset⟩

theorem parseNsec_text (s : Stem) {ch : UInt16} (hch : s.Ends ch) (cur : WStr) :
    ∃ ch₀ cur₀, pointText s.frac ++ ch :: cur = ch₀ :: cur₀ ∧
      parseNsec ch₀ cur₀ = some (nanos s.frac, ch, cur) := by
  obtain ⟨date, sep, clock, frac, hshort⟩ := s
  cases frac with
  | none =>
    refine ⟨ch, cur, rfl, parseNsec_eq_some.mpr ⟨none, hshort, rfl, rfl, ?_⟩⟩
    rwa [if_pos rfl]
  | some ds =>
    refine ⟨0x2E, digitUnits ds ++ ch :: cur, rfl, ?_⟩
    exact parseNsec_eq_some.mpr ⟨some ds, hshort, rfl, rfl, hch⟩

/-- The parser on a stem and more. -/
theorem timestampParse_text (s : Stem) {ch : UInt16} (hch : s.Ends ch) (cur : WStr) :
    timestampParse (s.text ++ ch :: cur) = s.finish (parseOffset ch cur) := by
  obtain ⟨ch₀, cur₀, happ, hnsec⟩ := s.parseNsec_text hch cur
  have hmem := Calendar.Date.number_mem s.date.year_pos s.date.year_le
  have hrdn := (parseRdn_eq_some (n := s.date.number - 306)).mpr
    ⟨s.date, Nat.sub_add_cancel (by omega), rfl, rfl, rfl⟩
  have hsod := parseSod_eq_some.mpr ⟨s.clock, rfl, rfl, rfl, rfl⟩
  have htext : s.text ++ ch :: cur = padded 4 s.date.year ++ 0x2D :: (padded 2 s.date.month ++
      0x2D :: (padded 2 s.date.day ++ s.sep.unit :: (padded 2 s.clock.hour ++ 0x3A ::
        (padded 2 s.clock.minute ++ 0x3A :: (padded 2 s.clock.second ++ ch₀ :: cur₀))))) := by
    simp [text, dateText, Clock.text, ← happ]
  have hseconds : s.seconds = ((s.date.number - 306 : ℕ) - 719163 : ℤ) * 86400 + s.clock.seconds := by
    rw [seconds, Nat.cast_sub (by omega)]
    rfl
  rw [htext]
  simp only [padded_two, padded_four, List.cons_append, List.nil_append]
  unfold timestampParse
  dsimp only
  rw [if_neg (by simp), if_neg (by cases s.sep <;> simp [Separator.unit]), hrdn, hsod, hnsec]
  dsimp only
  cases parseOffset ch cur with
  | error e => simp only [finish]
  | ok x => simp only [finish, hseconds]

/-- What is no stem and more is malformed. -/
theorem exists_text_of_ne {w : WStr} (h : timestampParse w ≠ .error .malformed) :
    ∃ (s : Stem) (ch : UInt16) (cur : WStr), s.Ends ch ∧ w = s.text ++ ch :: cur := by
  unfold timestampParse at h
  split at h
  · next y₀ y₁ y₂ y₃ c₄ m₀ m₁ c₇ d₀ d₁ c₁₀ h₀ h₁ c₁₃ i₀ i₁ c₁₆ s₀ s₁ ch cur =>
    by_cases hpunct : ¬(c₄ = 0x2D ∧ c₇ = 0x2D ∧ c₁₃ = 0x3A ∧ c₁₆ = 0x3A)
    · rw [if_pos hpunct] at h
      exact absurd rfl h
    by_cases hsep : ¬(c₁₀ = 0x54 ∨ c₁₀ = 0x20 ∨ c₁₀ = 0x74)
    · rw [if_neg hpunct, if_pos hsep] at h
      exact absurd rfl h
    rw [if_neg hpunct, if_neg hsep] at h
    cases hrdn : parseRdn y₀ y₁ y₂ y₃ m₀ m₁ d₀ d₁ with
    | none => simp [hrdn] at h
    | some rdn =>
      cases hsod : parseSod h₀ h₁ i₀ i₁ s₀ s₁ with
      | none => simp [hsod] at h
      | some sod =>
        cases hnsec : parseNsec ch cur with
        | none => simp [hnsec] at h
        | some x =>
          obtain ⟨nsec, ch', cur'⟩ := x
          obtain ⟨date, -, hyear, hmonth, hday⟩ := parseRdn_eq_some.mp hrdn
          obtain ⟨clock, -, hhour, hminute, hsecond⟩ := parseSod_eq_some.mp hsod
          obtain ⟨frac, hshort, hfrac, -, hends⟩ := parseNsec_eq_some.mp hnsec
          obtain ⟨rfl, rfl, rfl, rfl⟩ := not_not.mp hpunct
          have hunit : ∃ sep : Separator, c₁₀ = sep.unit := by
            rcases not_not.mp hsep with rfl | rfl | rfl
            · exact ⟨.upper, rfl⟩
            · exact ⟨.blank, rfl⟩
            · exact ⟨.lower, rfl⟩
          obtain ⟨sep, rfl⟩ := hunit
          refine ⟨⟨date, sep, clock, frac, hshort⟩, ch', cur', ?_, ?_⟩
          · unfold Ends
            split_ifs at hends ⊢ with hnone
            · subst hnone
              exact (List.cons.inj hfrac).1 ▸ hends
            · exact hends
          · simp [text, dateText, Clock.text, ← hyear, ← hmonth, ← hday, ← hhour, ← hminute,
              ← hsecond, ← hfrac]
  · exact absurd rfl h

end Stem

end EsOdbc
