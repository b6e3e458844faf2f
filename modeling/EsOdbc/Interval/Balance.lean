import EsOdbc.Interval.Exact

/-!
# The fields that are stored

What a reader of an interval makes of the fields that are stored for a duration, as they
were written or balanced over the fields of the type, and when that is the duration.
-/

namespace EsOdbc

open Decimal (ofDigits)

/-- Months, seconds and fraction of the fields a type has. -/
def monthsIn (t : IntervalType) (v : IntVal) : ℕ :=
  12 * (if .year ∈ type2bm t then v.yearDay else 0) +
    if .month ∈ type2bm t then v.monthHour else 0

@[inherit_doc monthsIn]
def secsIn (t : IntervalType) (v : IntVal) : ℕ :=
  86400 * (if .day ∈ type2bm t then v.yearDay else 0) +
    3600 * (if .hour ∈ type2bm t then v.monthHour else 0) +
    60 * (if .minute ∈ type2bm t then v.minute else 0) +
    if .second ∈ type2bm t then v.second else 0

@[inherit_doc monthsIn]
def fracIn (t : IntervalType) (v : IntVal) : ℕ := if .second ∈ type2bm t then v.fraction else 0

theorem SqlInterval.value_eq (q : ℕ) (t : IntervalType) (neg : Bool) (v : IntVal) :
    SqlInterval.value q ⟨t, neg, v⟩ =
      ((if neg then -1 else 1) * (monthsIn t v : ℚ),
        (if neg then -1 else 1) * ((secsIn t v : ℚ) + fracIn t v / 10 ^ q)) := by
  simp only [SqlInterval.value, monthsIn, secsIn, fracIn, Nat.cast_add, Nat.cast_mul,
    Nat.cast_ofNat, Nat.cast_ite, Nat.cast_zero, Prod.mk.injEq, true_and]
  ring

/-- The finest unit of a day-time type, in seconds. -/
def finest (t : IntervalType) : ℕ :=
  if .second ∈ type2bm t then 1
  else if .minute ∈ type2bm t then 60
  else if .hour ∈ type2bm t then 3600
  else 86400

/-- A balance over the fields of a day-time type drops what is below its finest unit. -/
theorem secsIn_rebalance {t : IntervalType} (hyear : .year ∉ type2bm t)
    (hmonth : .month ∉ type2bm t) (secs fraction : ℕ) :
    secsIn t (rebalance (type2bm t) secs fraction) + secs % finest t = secs := by
  cases t with
  | year | yearToMonth => exact absurd (by decide) hyear
  | month => exact absurd (by decide) hmonth
  | second => simp [secsIn, finest, rebalance, carryMinute, carryHour, carryDay, type2bm, Nat.mod_one]
  | day | hour | minute | dayToHour | dayToMinute | dayToSecond | hourToMinute |
    hourToSecond | minuteToSecond =>
    simp only [secsIn, finest, rebalance, carryMinute, carryHour, carryDay, type2bm, IntVal.zero,
      Finset.mem_singleton, Finset.mem_insert, reduceCtorEq, or_false, or_true, if_true, if_false]
    split_ifs <;> simp only [] at * <;> omega

/-- The months and the fraction of a balance. -/
theorem rebalance_rest {t : IntervalType} (hyear : .year ∉ type2bm t)
    (hmonth : .month ∉ type2bm t) (secs fraction : ℕ) :
    monthsIn t (rebalance (type2bm t) secs fraction) = 0 ∧
      fracIn t (rebalance (type2bm t) secs fraction) =
        if .second ∈ type2bm t then fraction else 0 := by
  refine ⟨?_, ?_⟩
  · rw [monthsIn, if_neg hyear, if_neg hmonth]
  · have hfrac : (rebalance (type2bm t) secs fraction).fraction = fraction := by
      simp only [rebalance, carryMinute, carryHour, carryDay]
      split_ifs <;> rfl
    rw [fracIn, hfrac]

/-- Seconds and a fraction under a sign are the ones that are written when they are the same
and the signs agree.  Other seconds miss by nothing, by more than a fraction makes up for,
or have no fraction. -/
theorem signed_seconds {A T : ℕ} {S σ φ ρ : ℚ} (hS : S = 1 ∨ S = -1) (hσ : σ = 1 ∨ σ = -1)
    (hneg : S = -1 → σ = -1) (hφ : 0 ≤ φ) (hφ' : φ ≤ 2 ^ 32 - 1) (hρ : 0 ≤ ρ) (hρ' : ρ < 1)
    (hgap : A = T ∨ (φ = 0 ∧ ρ = 0) ∨ A + 2 ^ 32 ≤ T) :
    S * (A + φ) = S * T + σ * ρ ↔ A = T ∧ φ = ρ ∧ (σ = S ∨ ρ = 0) := by
  constructor
  · intro h
    have hcast : A = T ∨ (φ = 0 ∧ ρ = 0) ∨ (A : ℚ) + 2 ^ 32 ≤ T := by exact_mod_cast hgap
    have hsame : σ = S → (A : ℚ) + φ = T + ρ := by
      rintro rfl
      rcases hS with rfl | rfl <;> linarith
    have hdiff : σ ≠ S → (A : ℚ) + φ + ρ = T := by
      intro hne
      rcases hS with rfl | rfl
      · rcases hσ with rfl | rfl
        · exact absurd rfl hne
        · linarith
      · exact absurd (hneg rfl) hne
    by_cases hss : σ = S
    · have hsum := hsame hss
      rcases hcast with hA | ⟨rfl, rfl⟩ | hA
      · rw [hA] at hsum
        exact ⟨hA, add_left_cancel hsum, .inl hss⟩
      · exact ⟨by exact_mod_cast add_right_cancel hsum, rfl, .inl hss⟩
      · linarith
    · have hsum := hdiff hss
      rcases hcast with hA | ⟨rfl, rfl⟩ | hA
      · rw [hA] at hsum
        exact ⟨hA, by linarith, .inr (by linarith)⟩
      · exact ⟨by exact_mod_cast (by linarith : (A : ℚ) = T), rfl, .inr rfl⟩
      · linarith
  · rintro ⟨rfl, rfl, rfl | rfl⟩ <;> ring

namespace Duration

/-- What is read for a field. -/
def val (d : Duration) (f : IvlField) : ℕ := uintOf (d.get f)

theorem val_eq (d : Duration) (f : IvlField) :
    d.val f = if d.num f = llongMin then 0 else d.num f := by
  rw [val, uintOf, num]
  cases d.get f with
  | none => simp
  | some a => rfl

theorem val_le (d : Duration) (f : IvlField) : d.val f ≤ d.num f := by
  rw [val_eq]
  split <;> omega

theorem val_of_notMem {d : Duration} {f : IvlField} (h : f ∉ d.fields) : d.get f = none := by
  rw [mem_fields, Option.isSome_iff_ne_none, not_not] at h
  exact h

theorem getD_uint (o : Option Amount) (n : ℕ) :
    (o.map Amount.uint).getD n = if o = none then n else uintOf o := by
  cases o <;> simp [uintOf]

theorem slots_yearDay (p : Int16) (d : Duration) :
    (d.slots p).yearDay = if d.get .day = none then d.val .year else d.val .day :=
  getD_uint d.day _

theorem slots_monthHour (p : Int16) (d : Duration) :
    (d.slots p).monthHour =
      if d.get .hour = none then d.val .month else d.val .hour :=
  getD_uint d.hour _

end Duration

/-- The fields that share their storage are not both those of one type. -/
theorem type2bm_union (t : IntervalType) :
    (.year ∈ type2bm t → .day ∉ type2bm t) ∧ (.month ∈ type2bm t → .hour ∉ type2bm t) := by
  cases t <;> decide

/-- Fields among those of the type are stored as they are read. -/
theorem slots_within {p : Int16} {t : IntervalType} {d : Duration}
    (h : d.fields ⊆ type2bm t) :
    monthsIn t (d.slots p) = 12 * d.val .year + d.val .month ∧
      secsIn t (d.slots p) = 86400 * d.val .day + 3600 * d.val .hour +
        60 * d.val .minute + d.val .second := by
  have hnone {f : IvlField} (hf : f ∉ type2bm t) : d.get f = none :=
    Duration.val_of_notMem fun hmem ↦ hf (h hmem)
  have hzero {f : IvlField} (hf : f ∉ type2bm t) : d.val f = 0 := by
    rw [Duration.val, hnone hf]
    rfl
  obtain ⟨hyd, hmh⟩ := type2bm_union t
  have hyear : (if .year ∈ type2bm t then (d.slots p).yearDay else 0) = d.val .year := by
    split
    · next hy => rw [Duration.slots_yearDay, if_pos (hnone (hyd hy))]
    · next hy => exact (hzero hy).symm
  have hmonth : (if .month ∈ type2bm t then (d.slots p).monthHour else 0) =
      d.val .month := by
    split
    · next hm => rw [Duration.slots_monthHour, if_pos (hnone (hmh hm))]
    · next hm => exact (hzero hm).symm
  have hday : (if .day ∈ type2bm t then (d.slots p).yearDay else 0) = d.val .day := by
    split
    · next hd =>
      rw [Duration.slots_yearDay, hzero fun hy ↦ hyd hy hd]
      split
      · next hn => rw [Duration.val, hn]; rfl
      · rfl
    · next hd => exact (hzero hd).symm
  have hhour : (if .hour ∈ type2bm t then (d.slots p).monthHour else 0) =
      d.val .hour := by
    split
    · next hh =>
      rw [Duration.slots_monthHour, hzero fun hm ↦ hmh hm hh]
      split
      · next hn => rw [Duration.val, hn]; rfl
      · rfl
    · next hh => exact (hzero hh).symm
  have hminute : (if .minute ∈ type2bm t then (d.slots p).minute else 0) =
      d.val .minute := by
    split
    · rfl
    · next hm => exact (hzero hm).symm
  have hsecond : (if .second ∈ type2bm t then (d.slots p).second else 0) =
      d.val .second := by
    split
    · rfl
    · next hs => exact (hzero hs).symm
  rw [monthsIn, secsIn, hyear, hmonth, hday, hhour, hminute, hsecond]
  exact ⟨rfl, rfl⟩

theorem Duration.fraction_eq_zero (p : Int16) {d : Duration}
    (h : d.hasFraction = false) : d.fraction p = 0 ∧ d.secondDigits = [] := by
  rw [Duration.fraction, Duration.secondDigits]
  rw [Duration.hasFraction] at h
  cases ha : d.second with
  | none => exact ⟨rfl, rfl⟩
  | some a =>
    rw [ha, Option.any_some] at h
    refine ⟨?_, ?_⟩
    · rw [Option.elim_some, Amount.fraction, h]
      rfl
    · rw [Option.isSome_eq_false_iff, Option.isNone_iff_eq_none] at h
      rw [Option.elim_some, Amount.digits, h]
      rfl

/-- No fraction is stored without a place for it. -/
theorem fracIn_decoded {p : Int16} {t : IntervalType} {d : Duration}
    (h : d.Accepted t) : fracIn t (d.decoded p t) = d.fraction p := by
  by_cases hreb : Rebalanced t d
  · rw [Duration.decoded, if_pos hreb, (rebalance_rest hreb.2.1 hreb.2.2 _ _).2]
    split
    · rfl
    · next hsec =>
      refine (Duration.fraction_eq_zero p ?_).1.symm
      rw [← Bool.not_eq_true]
      exact fun hf ↦ hsec (h.place hreb hf)
  · rw [Duration.decoded, if_neg hreb, fracIn]
    split
    · rfl
    · next hsec =>
      refine (Duration.fraction_eq_zero p ?_).1.symm
      have hnone : d.get .second = none :=
        Duration.val_of_notMem fun hmem ↦ hsec (h.within hreb hmem)
      rw [Duration.get] at hnone
      rw [Duration.hasFraction, hnone]
      rfl

/-! ## The condition -/

/-- What makes the decoding of an accepted duration exact. -/
structure Duration.Exact (p : Int16) (t : IntervalType) (d : Duration) : Prop where
  /-- No magnitude is the one that a negation in 64 bits leaves negative. -/
  whole : ∀ f, d.num f ≠ llongMin
  scales : Scales p d.secondDigits
  /-- A minus before `0` seconds is not lost on the fraction. -/
  sign : ∀ a ∈ d.second, a.negative = true → ofDigits a.whole = 0 →
    ofDigits (a.digits.take p.toInt.toNat) = 0
  /-- A balance has no years and months to forget, no product past 32 bits, and nothing below
  the finest field of the type. -/
  balance : Rebalanced t d → d.months = 0 ∧ 60 * d.num .minute < 2 ^ 32 ∧
    3600 * d.num .hour < 2 ^ 32 ∧ 86400 * d.num .day < 2 ^ 32 ∧ finest t ∣ d.total

/-- The fields among those of the type are the ones written, when every magnitude is. -/
theorem within_iff {p : Int16} {t : IntervalType} {d : Duration}
    (h : d.fields ⊆ type2bm t) :
    monthsIn t (d.slots p) = d.months ∧ secsIn t (d.slots p) = d.total ↔
      ∀ f, d.num f ≠ llongMin := by
  have hmin : llongMin = 2 ^ 63 := rfl
  obtain ⟨hmonths, hsecs⟩ := slots_within (p := p) h
  rw [hmonths, hsecs, Duration.months, Duration.total]
  have hval := d.val_eq
  constructor
  · rintro ⟨hm, hs⟩ f hf
    have hle := d.val_le
    have := hle .year
    have := hle .month
    have := hle .day
    have := hle .hour
    have := hle .minute
    have := hle .second
    have hvf : d.val f = 0 := by rw [hval, if_pos hf]
    cases f <;> omega
  · intro h
    simp only [hval, h, if_false, and_self]

/-- The sum of the fields, when there are no years and months in their places. -/
theorem secsOf_slots {d : Duration} (hyear : d.val .year = 0) (hmonth : d.val .month = 0) :
    secsOf (d.slots 0) = d.val .second + 60 * d.val .minute % 2 ^ 32 +
      3600 * d.val .hour % 2 ^ 32 + 24 * 3600 * d.val .day % 2 ^ 32 := by
  have hnone {f : IvlField} (hf : d.get f = none) : d.val f = 0 := by
    rw [Duration.val, hf]
    rfl
  have hyd : (d.slots 0).yearDay = d.val .day := by
    rw [Duration.slots_yearDay, hyear]
    split
    · next hd => exact (hnone hd).symm
    · rfl
  have hmh : (d.slots 0).monthHour = d.val .hour := by
    rw [Duration.slots_monthHour, hmonth]
    split
    · next hh => exact (hnone hh).symm
    · rfl
  rw [secsOf, hyd, hmh]
  rfl

/-- A sum of 32-bit products is no larger than the sum it stands for, so that it is the same
only when nothing is lost anywhere. -/
theorem products_exact {s mi h dy s' mi' h' dy' A r : ℕ} (hs : s ≤ s') (hmi : mi ≤ mi')
    (hh : h ≤ h') (hdy : dy ≤ dy')
    (hA : A + r = s + 60 * mi % 2 ^ 32 + 3600 * h % 2 ^ 32 + 24 * 3600 * dy % 2 ^ 32)
    (hT : A = 86400 * dy' + 3600 * h' + 60 * mi' + s') :
    (r = 0 ∧ s = s' ∧ mi = mi' ∧ h = h' ∧ dy = dy') ∧
      60 * mi' < 2 ^ 32 ∧ 3600 * h' < 2 ^ 32 ∧ 86400 * dy' < 2 ^ 32 := by
  have hpos : 0 < 2 ^ 32 := by norm_num
  have lmi := Nat.mod_lt (60 * mi) hpos
  have lh := Nat.mod_lt (3600 * h) hpos
  have ldy := Nat.mod_lt (24 * 3600 * dy) hpos
  have mmi := Nat.mod_le (60 * mi) (2 ^ 32)
  have mh := Nat.mod_le (3600 * h) (2 ^ 32)
  have mdy := Nat.mod_le (24 * 3600 * dy) (2 ^ 32)
  generalize 60 * mi % 2 ^ 32 = a at *
  generalize 3600 * h % 2 ^ 32 = b at *
  generalize 24 * 3600 * dy % 2 ^ 32 = c at *
  omega

/-- What a balance stores. -/
theorem decoded_balanced {p : Int16} {t : IntervalType} {d : Duration}
    (hreb : Rebalanced t d) :
    monthsIn t (d.decoded p t) = 0 ∧
      secsIn t (d.decoded p t) + secsOf (d.slots 0) % finest t = secsOf (d.slots 0) := by
  rw [Duration.decoded, if_pos hreb]
  exact ⟨(rebalance_rest hreb.2.1 hreb.2.2 _ _).1, secsIn_rebalance hreb.2.1 hreb.2.2 _ _⟩

theorem Duration.val_year_month {d : Duration} (h : d.months = 0) :
    d.val .year = 0 ∧ d.val .month = 0 := by
  have hy := d.val_le .year
  have hmo := d.val_le .month
  rw [Duration.months] at h
  omega

theorem Duration.num_ne_llongMin {d : Duration} {f : IvlField} (h : d.val f = d.num f) :
    d.num f ≠ llongMin := by
  intro hf
  rw [Duration.val_eq, if_pos hf, hf] at h
  exact absurd h (by decide)

/-- A balance is the duration when nothing is forgotten, wrapped or dropped. -/
theorem balanced_iff {p : Int16} {t : IntervalType} {d : Duration}
    (hreb : Rebalanced t d) :
    monthsIn t (d.decoded p t) = d.months ∧ secsIn t (d.decoded p t) = d.total ↔
      (∀ f, d.num f ≠ llongMin) ∧ d.months = 0 ∧ 60 * d.num .minute < 2 ^ 32 ∧
        3600 * d.num .hour < 2 ^ 32 ∧ 86400 * d.num .day < 2 ^ 32 ∧ finest t ∣ d.total := by
  obtain ⟨hmonths, hsecs⟩ := decoded_balanced (p := p) hreb
  rw [hmonths]
  constructor
  · rintro ⟨hm, ht⟩
    obtain ⟨hyear, hmonth⟩ := Duration.val_year_month hm.symm
    have hsum := secsOf_slots hyear hmonth
    obtain ⟨⟨hrem, hs, hmi, hh, hd⟩, hprod⟩ := products_exact (d.val_le .second)
      (d.val_le .minute) (d.val_le .hour) (d.val_le .day) (hsecs.trans hsum) ht
    have hzero : d.num .year = 0 ∧ d.num .month = 0 := by
      rw [Duration.months] at hm
      omega
    have htot : secsOf (d.slots 0) = d.total := by rw [← hsecs, hrem, ht, add_zero]
    refine ⟨fun f ↦ ?_, hm.symm, hprod.1, hprod.2.1, hprod.2.2, ?_⟩
    · refine Duration.num_ne_llongMin ?_
      cases f with
      | year => rw [hyear, hzero.1]
      | month => rw [hmonth, hzero.2]
      | day => exact hd
      | hour => exact hh
      | minute => exact hmi
      | second => exact hs
    · exact htot ▸ Nat.dvd_of_mod_eq_zero hrem
  · rintro ⟨hw, hm, hmi, hh, hd, hdvd⟩
    obtain ⟨hyear, hmonth⟩ := Duration.val_year_month hm
    have hnum (f : IvlField) : d.val f = d.num f := by rw [Duration.val_eq, if_neg (hw f)]
    have htot : secsOf (d.slots 0) = d.total := by
      rw [secsOf_slots hyear hmonth, hnum, hnum, hnum, hnum, Nat.mod_eq_of_lt hmi,
        Nat.mod_eq_of_lt hh, Nat.mod_eq_of_lt hd, Duration.total]
      ring
    rw [htot, Nat.mod_eq_zero_of_dvd hdvd] at hsecs
    exact ⟨hm.symm, hsecs⟩

end EsOdbc
