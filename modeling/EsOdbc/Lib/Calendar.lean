import Mathlib

/-!
# The Gregorian calendar

Days are numbered from the first of January of the year 0, years are astronomical.
-/

namespace Calendar

/-- The first day of a year. -/
def firstDay (y : ℤ) : ℤ := 365 * y + (y + 3) / 4 - (y + 99) / 100 + (y + 399) / 400

/-- The year of a day: the one a year of average length says, or a neighbour of it. -/
def yearOf (d : ℤ) : ℤ :=
  let y := 400 * d / 146097
  if d < firstDay y then y - 1 else if firstDay (y + 1) ≤ d then y + 1 else y

/-- The day's number in its year, from 0. -/
def dayOfYear (d : ℤ) : ℤ := d - firstDay (yearOf d)

theorem firstDay_add_one (y : ℤ) : firstDay y + 365 ≤ firstDay (y + 1) := by
  unfold firstDay
  omega

/-- Years are of average length, up to two days. -/
theorem firstDay_bounds (y : ℤ) :
    146097 * y - 396 ≤ 400 * firstDay y ∧ 400 * firstDay y ≤ 146097 * y + 699 := by
  unfold firstDay
  omega

/-- Every day is in its year. -/
theorem yearOf_spec (d : ℤ) : firstDay (yearOf d) ≤ d ∧ d < firstDay (yearOf d + 1) := by
  have hy : 146097 * (400 * d / 146097) ≤ 400 * d ∧ 400 * d < 146097 * (400 * d / 146097 + 1) := by
    omega
  unfold yearOf
  generalize 400 * d / 146097 = y at hy ⊢
  have hprev := firstDay_bounds (y - 1)
  have hnext := firstDay_bounds (y + 1 + 1)
  dsimp only
  split_ifs with h₁ h₂
  · rw [sub_add_cancel]
    omega
  · omega
  · omega

theorem firstDay_strictMono : StrictMono firstDay :=
  strictMono_int_of_lt_succ fun y ↦ by
    have := firstDay_add_one y
    omega

/-- No day is in two years. -/
theorem yearOf_eq {d y : ℤ} (h₁ : firstDay y ≤ d) (h₂ : d < firstDay (y + 1)) : yearOf d = y := by
  obtain ⟨h₃, h₄⟩ := yearOf_spec d
  have hlt := firstDay_strictMono.lt_iff_lt.mp (h₁.trans_lt h₄)
  have hgt := firstDay_strictMono.lt_iff_lt.mp (h₃.trans_lt h₂)
  omega

theorem dayOfYear_add (d : ℤ) : firstDay (yearOf d) + dayOfYear d = d := by
  unfold dayOfYear
  omega

/-! ## Years from March -/

/-- A year with 366 days. -/
def IsLeap (y : ℕ) : Prop := y % 4 = 0 ∧ (y % 100 ≠ 0 ∨ y % 400 = 0)

instance (y : ℕ) : Decidable (IsLeap y) := inferInstanceAs (Decidable (_ ∧ _))

/-- The days of the year from March that starts in year `y`. -/
def marchYearDays (y : ℕ) : ℕ := if IsLeap (y + 1) then 366 else 365

/-- The number of day `d` of the year from March in `y`. -/
def marchNumber (y d : ℕ) : ℕ := 1461 * y / 4 - y / 100 + y / 400 + d

/-- The century of a day, in a calendar of years from March. -/
def centuryOf (z : ℕ) : ℕ := (100 * z - 25) / 3652425

@[inherit_doc centuryOf]
def marchYearOf (z : ℕ) : ℕ :=
  (100 * (centuryOf z - centuryOf z / 4) + (100 * z - 25)) / 36525

@[inherit_doc centuryOf]
def marchDayOf (z : ℕ) : ℕ := centuryOf z - centuryOf z / 4 + z - 1461 * marchYearOf z / 4

/-- A year by its place in its era of 400 years, century and leap cycle. -/
theorem exists_cycles (y : ℕ) : ∃ a b s t, b < 4 ∧ s < 25 ∧ t < 4 ∧
    y = 400 * a + 100 * b + 4 * s + t ∧ y / 100 = 4 * a + b ∧ y / 400 = a ∧
      1461 * y / 4 = 146100 * a + 36525 * b + 1461 * s + 365 * t ∧
        (IsLeap (y + 1) ↔ t = 3 ∧ (s ≠ 24 ∨ b = 3)) := by
  have hy : y = 400 * (y / 400) + 100 * (y % 400 / 100) + 4 * (y % 100 / 4) + y % 4 := by omega
  have hb : y % 400 / 100 < 4 := by omega
  have hs : y % 100 / 4 < 25 := by omega
  have ht : y % 4 < 4 := by omega
  refine ⟨y / 400, y % 400 / 100, y % 100 / 4, y % 4, hb, hs, ht, hy, by omega, rfl, ?_, ?_⟩
  · have hdiv : ∀ t < 4, ∀ n : ℕ, 1461 * (4 * n + t) / 4 = 1461 * n + 365 * t := by
      intro t ht n
      interval_cases t <;> omega
    have h := hdiv (y % 4) ht (100 * (y / 400) + 25 * (y % 400 / 100) + y % 100 / 4)
    rw [show 4 * (100 * (y / 400) + 25 * (y % 400 / 100) + y % 100 / 4) + y % 4 = y by omega] at h
    omega
  · unfold IsLeap
    omega

theorem centuryOf_marchNumber {y d : ℕ} (hd : 1 ≤ d) (hd' : d ≤ marchYearDays y) :
    centuryOf (marchNumber y d) = y / 100 := by
  obtain ⟨a, b, s, t, hb, hs, ht, hy, hcent, hera, hdays, hleap⟩ := exists_cycles y
  have hlen : d ≤ 365 ∨ d = 366 ∧ t = 3 ∧ (s ≠ 24 ∨ b = 3) := by
    rw [marchYearDays] at hd'
    split at hd'
    · next h =>
      have := hleap.mp h
      omega
    · omega
  rw [centuryOf, marchNumber, hcent, hera, hdays]
  refine Nat.div_eq_of_lt_le ?_ ?_ <;> omega

theorem marchYearOf_marchNumber {y d : ℕ} (hd : 1 ≤ d) (hd' : d ≤ marchYearDays y) :
    marchYearOf (marchNumber y d) = y := by
  rw [marchYearOf, centuryOf_marchNumber hd hd']
  obtain ⟨a, b, s, t, hb, hs, ht, hy, hcent, hera, hdays, hleap⟩ := exists_cycles y
  have hlen : d ≤ 365 ∨ d = 366 ∧ t = 3 := by
    rw [marchYearDays] at hd'
    split at hd'
    · next h =>
      have := hleap.mp h
      omega
    · omega
  have hfour : (4 * a + b) / 4 = a := by omega
  rw [marchNumber, hcent, hera, hdays, hfour]
  refine Nat.div_eq_of_lt_le ?_ ?_ <;> omega

theorem marchDayOf_marchNumber {y d : ℕ} (hd : 1 ≤ d) (hd' : d ≤ marchYearDays y) :
    marchDayOf (marchNumber y d) = d := by
  rw [marchDayOf, marchYearOf_marchNumber hd hd', centuryOf_marchNumber hd hd', marchNumber]
  have hfour : y / 100 / 4 = y / 400 := Nat.div_div_eq_div_mul y 100 4
  rw [hfour]
  omega

/-- Every number is the one of a day. -/
theorem exists_marchNumber {z : ℕ} (hz : 1 ≤ z) :
    ∃ y d, 1 ≤ d ∧ d ≤ marchYearDays y ∧ marchNumber y d = z := by
  have hstep (y : ℕ) : marchNumber y (marchYearDays y) + 1 = marchNumber (y + 1) 1 := by
    have hdays : 1461 * (y + 1) / 4 = 1461 * y / 4 + if (y + 1) % 4 = 0 then 366 else 365 := by
      obtain ⟨n, t, ht, rfl⟩ : ∃ n t, t < 4 ∧ y = 4 * n + t :=
        ⟨y / 4, y % 4, Nat.mod_lt _ (by norm_num), by omega⟩
      interval_cases t <;> split_ifs <;> omega
    have hcent : (y + 1) / 100 = y / 100 + if (y + 1) % 100 = 0 then 1 else 0 := by
      split_ifs <;> omega
    have hera : (y + 1) / 400 = y / 400 + if (y + 1) % 400 = 0 then 1 else 0 := by
      split_ifs <;> omega
    have hle : y / 100 ≤ 1461 * y / 4 := by omega
    have hleap : IsLeap (y + 1) ↔
        (y + 1) % 4 = 0 ∧ ((y + 1) % 100 ≠ 0 ∨ (y + 1) % 400 = 0) := Iff.rfl
    rw [marchNumber, marchNumber, hdays, hcent, hera, marchYearDays, if_congr hleap rfl rfl]
    by_cases h₄ : (y + 1) % 4 = 0
    · by_cases h₁ : (y + 1) % 100 = 0
      · by_cases h₂ : (y + 1) % 400 = 0
        · simp only [h₄, h₁, h₂, if_true, or_true, and_true]
          omega
        · simp only [h₄, h₁, h₂, if_true, if_false, not_true, ne_eq, or_false, and_false]
          omega
      · have h₂ : ¬(y + 1) % 400 = 0 := by omega
        simp only [h₄, h₁, h₂, if_true, if_false, ne_eq, not_false_eq_true, true_or, and_true]
        omega
    · have h₁ : ¬(y + 1) % 100 = 0 := by omega
      have h₂ : ¬(y + 1) % 400 = 0 := by omega
      simp only [h₄, h₁, h₂, if_false, false_and]
      omega
  induction z, hz using Nat.le_induction with
  | base => exact ⟨0, 1, le_refl _, by decide, rfl⟩
  | succ z hz ih =>
    obtain ⟨y, d, hd, hd', rfl⟩ := ih
    rcases hd'.lt_or_eq with hlt | rfl
    · exact ⟨y, d + 1, by omega, hlt, rfl⟩
    · refine ⟨y + 1, 1, le_refl _, ?_, (hstep y).symm⟩
      rw [marchYearDays]
      split_ifs <;> norm_num

/-! ## Dates -/

/-- The days of a month. -/
def monthDays (y m : ℕ) : ℕ :=
  if m = 2 then (if IsLeap y then 29 else 28) else if m = 4 ∨ m = 6 ∨ m = 9 ∨ m = 11 then 30 else 31

/-- The days from the first of March to a month. -/
def monthStart (m : ℕ) : ℕ := [0, 306, 337, 0, 31, 61, 92, 122, 153, 184, 214, 245, 275].getD m 0

/-- A date, from March of the year 0 on. -/
@[ext] structure Date where
  year : ℕ
  month : ℕ
  day : ℕ
  month_pos : 1 ≤ month
  month_le : month ≤ 12
  day_pos : 1 ≤ day
  day_le : day ≤ monthDays year month
  start : month < 3 → 1 ≤ year
deriving DecidableEq

namespace Date

/-- The year from March that a date is in, and the number of its day there. -/
def marchYear (d : Date) : ℕ := if d.month < 3 then d.year - 1 else d.year

@[inherit_doc marchYear]
def marchDay (d : Date) : ℕ := monthStart d.month + d.day

/-- The number of a date. -/
def number (d : Date) : ℕ := marchNumber d.marchYear d.marchDay

theorem marchDay_pos (d : Date) : 1 ≤ d.marchDay := d.day_pos.trans (Nat.le_add_left _ _)

theorem marchDay_le (d : Date) : d.marchDay ≤ marchYearDays d.marchYear := by
  obtain ⟨y, m, n, h₁, h₂, h₃, h₄, h₅⟩ := d
  simp only [marchDay, marchYear, marchYearDays]
  simp only [monthDays] at h₄
  interval_cases m
  case «2» =>
    have hy : 1 ≤ y := h₅ (by norm_num)
    simp only [show y - 1 + 1 = y by omega, monthStart, List.getD_cons_succ, List.getD_cons_zero,
      if_true, show 2 < 3 by norm_num] at h₄ ⊢
    split_ifs at h₄ ⊢ <;> omega
  all_goals
    simp [monthStart] at h₄ ⊢
    split_ifs <;> omega

theorem marchYearOf_number (d : Date) : marchYearOf d.number = d.marchYear :=
  marchYearOf_marchNumber d.marchDay_pos d.marchDay_le

theorem marchDayOf_number (d : Date) : marchDayOf d.number = d.marchDay :=
  marchDayOf_marchNumber d.marchDay_pos d.marchDay_le

/-- The month of a day of the year from March. -/
theorem exists_month : ∀ n < 367, 1 ≤ n → ∃ m ∈ Finset.Icc 1 12, monthStart m < n ∧
    (n ≤ monthStart m + (if m = 2 then 28 else monthDays 0 m) ∨ m = 2 ∧ n = 366) := by
  decide +kernel

/-- Every number is the one of a date. -/
theorem exists_number {z : ℕ} (hz : 1 ≤ z) : ∃ d : Date, d.number = z := by
  obtain ⟨y, n, hn, hn', rfl⟩ := exists_marchNumber hz
  have hlt : n < 367 := by
    rw [marchYearDays] at hn'
    split at hn' <;> omega
  obtain ⟨m, hm, hstart, hdays⟩ := exists_month n hlt hn
  rw [Finset.mem_Icc] at hm
  have hle : n - monthStart m ≤ monthDays (if m < 3 then y + 1 else y) m := by
    rcases hdays with hdays | ⟨rfl, rfl⟩
    · by_cases h2 : m = 2
      · subst h2
        simp only [monthDays, if_true] at hdays ⊢
        split_ifs <;> omega
      · simp only [monthDays, if_neg h2] at hdays ⊢
        omega
    · have hleap : IsLeap (y + 1) := by
        by_contra h
        rw [marchYearDays, if_neg h] at hn'
        omega
      simp [monthDays, hleap, monthStart]
  refine ⟨⟨if m < 3 then y + 1 else y, m, n - monthStart m, hm.1, hm.2, by omega, hle, ?_⟩, ?_⟩
  · intro h
    rw [if_pos h]
    omega
  · have hyear : (if m < 3 then (if m < 3 then y + 1 else y) - 1 else if m < 3 then y + 1 else y) =
        y := by split_ifs <;> omega
    have hday : monthStart m + (n - monthStart m) = n := by omega
    show marchNumber _ _ = _
    rw [marchYear, marchDay, hday, hyear]

/-- The days of the years 1 to 9999. -/
theorem number_mem {d : Date} (hpos : 1 ≤ d.year) (hle : d.year ≤ 9999) :
    307 ≤ d.number ∧ d.number ≤ 3652365 := by
  have hday := d.marchDay_pos
  have hdays := d.marchDay_le
  have hnumber : d.number = 1461 * d.marchYear / 4 - d.marchYear / 100 + d.marchYear / 400 +
      d.marchDay := rfl
  have hyear : d.marchYear = if d.month < 3 then d.year - 1 else d.year := rfl
  have hsplit : d.month < 3 ∧ 306 < d.marchDay ∨ ¬d.month < 3 ∧ d.marchDay ≤ 306 := by
    obtain ⟨y, m, n, h₁, h₂, h₃, h₄, h₅⟩ := d
    simp only [marchDay, monthDays] at h₄ ⊢
    interval_cases m <;> simp [monthStart] at h₄ ⊢ <;> omega
  have hlen : d.marchDay ≤ 366 := by
    rw [marchYearDays] at hdays
    split at hdays <;> omega
  obtain ⟨a, b, s, t, hb, hs, ht, hy, hcent, hera, hyears, -⟩ := exists_cycles d.marchYear
  rw [hnumber, hcent, hera, hyears]
  rcases hsplit with ⟨hm, hlate⟩ | ⟨hm, hearly⟩
  · rw [if_pos hm] at hyear
    omega
  · rw [if_neg hm] at hyear
    omega

end Date

end Calendar
