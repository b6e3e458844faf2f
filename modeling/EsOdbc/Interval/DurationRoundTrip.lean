import EsOdbc.Interval.LiteralRoundTrip
import EsOdbc.Interval.Grammar
import EsOdbc.Interval.Sign

/-!
# Intervals printed as durations and decoded again

When `parse_interval_iso8601` reads back what `print_interval_iso8601` has printed.
-/

namespace EsOdbc

open Decimal (ofDigits)

/-! ## Intervals of their types -/

/-- The field of a code. -/
def IntVal.get (v : IntVal) : IvlField → ℕ
  | .year | .day => v.yearDay
  | .month | .hour => v.monthHour
  | .minute => v.minute
  | .second => v.second

/-- An interval without a fraction, the fields of its type in 32 bits and the others 0.  No
zero is negative. -/
structure WholeInterval extends SqlInterval where
  fits : ∀ f, intval.get f ≤ ulongMax
  yearDay : intval.yearDay ≠ 0 → .year ∈ type2bm intervalType ∨ .day ∈ type2bm intervalType
  monthHour : intval.monthHour ≠ 0 →
    .month ∈ type2bm intervalType ∨ .hour ∈ type2bm intervalType
  minute : intval.minute ≠ 0 → .minute ∈ type2bm intervalType
  second : intval.second ≠ 0 → .second ∈ type2bm intervalType
  fraction : intval.fraction = 0
  sign : intval = .zero → intervalSign = false

namespace WholeInterval

/-- The number of a field: the members of the storage are those of the class of the type. -/
def num (i : WholeInterval) (f : IvlField) : ℕ :=
  if f ∈ type2bm i.intervalType then i.intval.get f else 0

theorem num_le (i : WholeInterval) (f : IvlField) : i.num f ≤ ulongMax := by
  unfold num
  split
  · exact i.fits f
  · exact Nat.zero_le _

instance (t : IntervalType) : Decidable t.YearMonth := inferInstanceAs (Decidable (_ ∨ _))

/-- The field that is printed of a zero. -/
def fallback (i : WholeInterval) : IvlField :=
  if i.intervalType.YearMonth then .month else .second

/-- No field is other than 0. -/
def IsZero (i : WholeInterval) : Prop := i.intval = .zero

instance (i : WholeInterval) : Decidable i.IsZero := inferInstanceAs (Decidable (_ = _))

end WholeInterval

/-! ## Their durations -/

/-- A number without a fraction, with no sign but `-`. -/
def Amount.printed (sign : Bool) (n : ℕ) : Amount :=
  ⟨if sign then some true else none, Decimal.digits n, none, false, .inl (Decimal.digits_ne_nil n)⟩

namespace Amount

variable (sign : Bool) (n : ℕ)

@[simp] theorem negative_printed : (printed sign n).negative = sign := by cases sign <;> rfl

@[simp] theorem ofDigits_printed : ofDigits (printed sign n).whole = n := Decimal.ofDigits_digits n

theorem text_printed :
    (printed sign n).text = (if sign then [0x2D] else []) ++ ui64tot n := by
  rw [ui64tot_eq]
  cases sign <;> simp [printed, text, signText, fracText]

theorem bint_printed : (printed sign n).bint < 0 ↔ sign = true ∧ n ≠ 0 := by
  rw [bint_neg_iff, negative_printed, ofDigits_printed]

variable {n}

theorem taken_printed {u : DurationUnit} (hu : u ≠ .week) (hn : n ≤ ulongMax) :
    (printed sign n).Taken u where
  field := hu
  sign _ := Decimal.digits_ne_nil n
  small := .inl (by rwa [ofDigits_printed])
  seconds h := by cases h
  frac f hf := by cases hf

theorem uint_printed (hn : n ≤ ulongMax) : (printed sign n).uint = n := by
  have hmin : ulongMax < llongMin := by decide
  rw [uint, ofDigits_printed, if_neg (by omega)]

end Amount

namespace WholeInterval

/-- What is printed for a field. -/
def amount (i : WholeInterval) (f : IvlField) : Option Amount :=
  if i.num f ≠ 0 then some (.printed i.intervalSign (i.num f))
  else if i.IsZero ∧ f = i.fallback then some (.printed false 0)
  else none

theorem get_of_mem (i : WholeInterval) {f : IvlField} (h : f ∈ type2bm i.intervalType) :
    i.num f = i.intval.get f := if_pos h

/-- An interval that is not 0 has a field that is not. -/
theorem exists_num (i : WholeInterval) (h : ¬i.IsZero) : ∃ f, i.num f ≠ 0 := by
  by_contra hall
  push Not at hall
  refine h ?_
  have hyear : i.intval.yearDay = 0 := by
    by_contra hne
    rcases i.yearDay hne with hmem | hmem
    · exact hne ((i.get_of_mem hmem).symm.trans (hall .year))
    · exact hne ((i.get_of_mem hmem).symm.trans (hall .day))
  have hmonth : i.intval.monthHour = 0 := by
    by_contra hne
    rcases i.monthHour hne with hmem | hmem
    · exact hne ((i.get_of_mem hmem).symm.trans (hall .month))
    · exact hne ((i.get_of_mem hmem).symm.trans (hall .hour))
  have hminute : i.intval.minute = 0 := by
    by_contra hne
    exact hne ((i.get_of_mem (i.minute hne)).symm.trans (hall .minute))
  have hsecond : i.intval.second = 0 := by
    by_contra hne
    exact hne ((i.get_of_mem (i.second hne)).symm.trans (hall .second))
  rw [IsZero, IntVal.zero, ← hyear, IntVal.mk.injEq]
  exact ⟨rfl, by rw [hmonth, hyear], by rw [hminute, hyear], by rw [hsecond, hyear],
    by rw [i.fraction, hyear]⟩

theorem num_of_isZero {i : WholeInterval} (h : i.IsZero) (f : IvlField) : i.num f = 0 := by
  rw [num, show i.intval = .zero from h]
  cases f <;> exact ite_self 0

theorem amount_isSome {i : WholeInterval} {f : IvlField} :
    (i.amount f).isSome = true ↔ i.num f ≠ 0 ∨ i.IsZero ∧ f = i.fallback := by
  rw [amount]
  by_cases hnum : i.num f ≠ 0
  · simp [hnum]
  · by_cases hzero : i.IsZero ∧ f = i.fallback
    · rw [if_neg hnum, if_pos hzero]
      exact iff_of_true rfl (.inr hzero)
    · rw [if_neg hnum, if_neg hzero]
      exact iff_of_false Bool.false_ne_true (not_or.mpr ⟨hnum, hzero⟩)

theorem exists_amount (i : WholeInterval) : ∃ f, (i.amount f).isSome = true := by
  by_cases hzero : i.IsZero
  · exact ⟨_, amount_isSome.mpr (.inr ⟨hzero, rfl⟩)⟩
  · obtain ⟨f, hf⟩ := i.exists_num hzero
    exact ⟨f, amount_isSome.mpr (.inl hf)⟩

/-- The duration of an interval. -/
def duration (i : WholeInterval) : Duration where
  sign := none
  lowerP := false
  lowerT := false
  year := i.amount .year
  month := i.amount .month
  week := none
  day := i.amount .day
  hour := i.amount .hour
  minute := i.amount .minute
  second := i.amount .second
  written := by
    obtain ⟨f, hf⟩ := i.exists_amount
    cases f <;> simp [Option.isSome_or, hf]

@[simp] theorem get_duration (i : WholeInterval) (f : IvlField) :
    i.duration.get f = i.amount f := by
  cases f <;> rfl

theorem mem_amounts {i : WholeInterval} {x : DurationUnit × Amount} (hx : x ∈ i.duration.amounts) :
    ∃ f, x.1.field = some f ∧ i.amount f = some x.2 := by
  simp only [Duration.amounts, Duration.dates, Duration.times, Duration.one, List.mem_append,
    List.mem_map, Option.mem_toList, duration, Option.toList_none, List.map_nil] at hx
  obtain ⟨u, a⟩ := x
  rcases hx with (((⟨_, ha, h⟩ | ⟨_, ha, h⟩) | h) | ⟨_, ha, h⟩) | (⟨_, ha, h⟩ | ⟨_, ha, h⟩) |
    ⟨_, ha, h⟩
  · obtain ⟨rfl, rfl⟩ := Prod.mk.inj h
    exact ⟨.year, rfl, ha⟩
  · obtain ⟨rfl, rfl⟩ := Prod.mk.inj h
    exact ⟨.month, rfl, ha⟩
  · simp at h
  · obtain ⟨rfl, rfl⟩ := Prod.mk.inj h
    exact ⟨.day, rfl, ha⟩
  · obtain ⟨rfl, rfl⟩ := Prod.mk.inj h
    exact ⟨.hour, rfl, ha⟩
  · obtain ⟨rfl, rfl⟩ := Prod.mk.inj h
    exact ⟨.minute, rfl, ha⟩
  · obtain ⟨rfl, rfl⟩ := Prod.mk.inj h
    exact ⟨.second, rfl, ha⟩

/-- The numbers of an interval: each its field under its sign, or the one 0. -/
theorem amount_eq_some {i : WholeInterval} {f : IvlField} {a : Amount} (h : i.amount f = some a) :
    a = .printed i.intervalSign (i.num f) ∧ (i.num f = 0 → i.intervalSign = false) := by
  rw [amount] at h
  split_ifs at h with hnum hzero
  · exact ⟨(Option.some.inj h).symm, fun hn ↦ absurd hn hnum⟩
  · have hsign := i.sign hzero.1
    rw [num_of_isZero hzero.1, hsign]
    exact ⟨(Option.some.inj h).symm, fun _ ↦ rfl⟩

theorem bint_amount {i : WholeInterval} {f : IvlField} {a : Amount} (h : i.amount f = some a) :
    a.bint < 0 ↔ i.intervalSign = true := by
  obtain ⟨rfl, hzero⟩ := amount_eq_some h
  rw [Amount.bint_printed, and_iff_left_iff_imp]
  intro hsign hnum
  rw [hzero hnum] at hsign
  cases hsign

theorem readable (i : WholeInterval) : i.duration.Readable where
  sign := rfl
  taken x hx := by
    obtain ⟨f, hf, ha⟩ := mem_amounts hx
    obtain ⟨heq, -⟩ := amount_eq_some ha
    rw [heq]
    refine Amount.taken_printed _ ?_ (i.num_le f)
    rintro hweek
    rw [hweek] at hf
    cases hf
  signs := by
    cases hsign : i.intervalSign with
    | true =>
      refine .inl ⟨le_refl _, fun x hx ↦ ?_⟩
      obtain ⟨f, -, ha⟩ := mem_amounts hx
      exact (bint_amount ha).mpr hsign
    | false =>
      refine .inr ⟨le_refl _, fun x hx ↦ ?_⟩
      obtain ⟨f, -, ha⟩ := mem_amounts hx
      rw [bint_amount ha, hsign]
      exact Bool.false_ne_true

theorem negative_duration (i : WholeInterval) : i.duration.negative = i.intervalSign := by
  have hall : i.duration.negative = true ↔ ∀ x ∈ i.duration.amounts, x.2.bint < 0 :=
    i.duration.negative_iff
  rw [Bool.eq_iff_iff, hall]
  constructor
  · intro h
    obtain ⟨x, hx⟩ := List.exists_mem_of_ne_nil _ i.duration.amounts_ne_nil
    obtain ⟨f, -, ha⟩ := mem_amounts hx
    exact (bint_amount ha).mp (h x hx)
  · intro hsign x hx
    obtain ⟨f, -, ha⟩ := mem_amounts hx
    exact (bint_amount ha).mpr hsign

theorem hasFraction_duration (i : WholeInterval) (p : Int16) :
    i.duration.hasFraction = false ∧ i.duration.ret p = .success ∧ i.duration.fraction p = 0 := by
  rw [Duration.hasFraction, Duration.ret, Duration.fraction]
  cases ha : i.duration.second with
  | none => exact ⟨rfl, rfl, rfl⟩
  | some a =>
    obtain ⟨rfl, -⟩ := amount_eq_some (f := .second) ha
    exact ⟨rfl, rfl, rfl⟩

theorem mem_fields_duration {i : WholeInterval} {f : IvlField} :
    f ∈ i.duration.fields ↔ i.num f ≠ 0 ∨ i.IsZero ∧ f = i.fallback := by
  rw [Duration.mem_fields, get_duration, amount_isSome]

theorem uintOf_amount (i : WholeInterval) (f : IvlField) :
    Duration.uintOf (i.amount f) = i.num f := by
  rw [Duration.uintOf]
  cases ha : i.amount f with
  | none =>
    have hnum : ¬(i.num f ≠ 0 ∨ i.IsZero ∧ f = i.fallback) := by
      rw [← amount_isSome, ha]
      exact Bool.false_ne_true
    exact (not_not.mp (not_or.mp hnum).1).symm
  | some a =>
    obtain ⟨rfl, -⟩ := amount_eq_some ha
    exact Amount.uint_printed _ (i.num_le f)

theorem getD_amount (i : WholeInterval) {f : IvlField} (hf : f ≠ i.fallback) (n : ℕ) :
    ((i.amount f).map Amount.uint).getD n = if i.num f ≠ 0 then i.num f else n := by
  by_cases hnum : i.num f ≠ 0
  · rw [amount, if_pos hnum, if_pos hnum]
    exact Amount.uint_printed _ (i.num_le f)
  · rw [amount, if_neg hnum, if_neg hnum, if_neg fun h ↦ hf h.2]
    rfl

theorem fallback_cases (i : WholeInterval) : i.fallback = .month ∨ i.fallback = .second := by
  rw [fallback]
  split
  · exact .inl rfl
  · exact .inr rfl

/-- The storage that two fields share, of which the type has no more than one. -/
theorem num_shared (i : WholeInterval) {f g : IvlField} (hfg : i.intval.get f = i.intval.get g)
    (hone : f ∈ type2bm i.intervalType → g ∉ type2bm i.intervalType)
    (hstored : i.intval.get f ≠ 0 → f ∈ type2bm i.intervalType ∨ g ∈ type2bm i.intervalType) :
    (if i.num f ≠ 0 then i.num f else i.num g) = i.intval.get f := by
  unfold num
  by_cases hmem : f ∈ type2bm i.intervalType
  · rw [if_pos hmem, if_neg (hone hmem)]
    exact ite_eq_left_iff.mpr fun h ↦ (not_not.mp h).symm
  · rw [if_neg hmem, if_neg (not_not.mpr rfl), hfg]
    refine ite_eq_left_iff.mpr fun h ↦ ?_
    by_contra hne
    exact (hstored (hfg ▸ Ne.symm hne)).elim hmem h

theorem num_of_notMem {i : WholeInterval} {f : IvlField} (h : f ∉ type2bm i.intervalType) :
    i.num f = 0 := if_neg h

theorem yearDay_eq (i : WholeInterval) :
    (if i.num .day ≠ 0 then i.num .day else i.num .year) = i.intval.yearDay :=
  i.num_shared (f := .day) (g := .year) rfl (by cases i.intervalType <;> decide) fun h ↦
    (i.yearDay h).symm

theorem monthHour_eq (i : WholeInterval) :
    (if i.num .hour ≠ 0 then i.num .hour else i.num .month) = i.intval.monthHour :=
  i.num_shared (f := .hour) (g := .month) rfl (by cases i.intervalType <;> decide) fun h ↦
    (i.monthHour h).symm

theorem num_eq_get (i : WholeInterval) {f : IvlField}
    (hstored : i.intval.get f ≠ 0 → f ∈ type2bm i.intervalType) : i.num f = i.intval.get f :=
  ite_eq_left_iff.mpr fun h ↦ by
    by_contra hne
    exact h (hstored (Ne.symm hne))

/-- What is stored for the duration is the interval. -/
theorem slots_duration (i : WholeInterval) (p : Int16) : i.duration.slots p = i.intval := by
  have hday : IvlField.day ≠ i.fallback := by rcases i.fallback_cases with h | h <;> simp [h]
  have hhour : IvlField.hour ≠ i.fallback := by rcases i.fallback_cases with h | h <;> simp [h]
  have hslots : i.duration.slots p = ⟨if i.num .day ≠ 0 then i.num .day else i.num .year,
      if i.num .hour ≠ 0 then i.num .hour else i.num .month, i.num .minute, i.num .second,
      i.duration.fraction p⟩ := by
    rw [Duration.slots, IntVal.mk.injEq, ← i.uintOf_amount .year, ← i.uintOf_amount .month,
      ← i.uintOf_amount .minute, ← i.uintOf_amount .second, ← i.getD_amount hday,
      ← i.getD_amount hhour]
    exact ⟨rfl, rfl, rfl, rfl, rfl⟩
  rw [hslots, i.yearDay_eq, i.monthHour_eq, i.num_eq_get (f := .minute) i.minute,
    i.num_eq_get (f := .second) i.second, (i.hasFraction_duration p).2.2, ← i.fraction]
  rfl

end WholeInterval

/-! ## Balances that change nothing -/

/-- The fields but the first are in their ranges, and 32 bits hold all the seconds. -/
structure BalancedFields (t : IntervalType) (v : IntVal) : Prop where
  hour : .day ∈ type2bm t → .hour ∈ type2bm t → v.monthHour < 24
  minute : .hour ∈ type2bm t → .minute ∈ type2bm t → v.minute < 60
  second : .minute ∈ type2bm t → .second ∈ type2bm t → v.second < 60
  sum : secsIn t v ≤ ulongMax

theorem rebalance_fields {t : IntervalType} (ht : ¬t.YearMonth) (secs : ℕ) :
    let v := rebalance (type2bm t) secs 0
    (.day ∈ type2bm t → .hour ∈ type2bm t → v.monthHour < 24) ∧
      (.hour ∈ type2bm t → .minute ∈ type2bm t → v.minute < 60) ∧
        (.minute ∈ type2bm t → .second ∈ type2bm t → v.second < 60) := by
  cases t with
  | year | yearToMonth | month => exact absurd (by decide) ht
  | day | hour | minute | second | dayToHour | dayToMinute | dayToSecond | hourToMinute |
    hourToSecond | minuteToSecond =>
    simp only [rebalance, carryMinute, carryHour, carryDay, type2bm, IntVal.zero,
      Finset.mem_singleton, Finset.mem_insert, reduceCtorEq, or_false, or_true, if_true, if_false,
      false_imp_iff, imp_true_iff, true_imp_iff, and_true, true_and]
    try (split_ifs <;> simp only [] at * <;> omega)

/-- The fields of a type, the others 0. -/
def fieldsIn (t : IntervalType) (v : IntVal) : IntVal where
  yearDay := if .day ∈ type2bm t then v.yearDay else 0
  monthHour := if .hour ∈ type2bm t then v.monthHour else 0
  minute := if .minute ∈ type2bm t then v.minute else 0
  second := if .second ∈ type2bm t then v.second else 0
  fraction := 0

theorem rebalance_secsIn {t : IntervalType} (ht : ¬t.YearMonth) {v : IntVal}
    (h : BalancedFields t v) : rebalance (type2bm t) (secsIn t v) 0 = fieldsIn t v := by
  obtain ⟨hhour, hminute, hsecond, -⟩ := h
  cases t with
  | year | yearToMonth | month => exact absurd (by decide) ht
  | second => simp [rebalance, carryMinute, carryHour, carryDay, type2bm, IntVal.zero, secsIn, fieldsIn]
  | day | hour | minute | dayToHour | dayToMinute | dayToSecond | hourToMinute | hourToSecond |
    minuteToSecond =>
    simp only [rebalance, carryMinute, carryHour, carryDay, type2bm, IntVal.zero, secsIn, fieldsIn,
      Finset.mem_singleton, Finset.mem_insert, reduceCtorEq, or_false, or_true, if_true, if_false,
      false_imp_iff, imp_true_iff, true_imp_iff] at hhour hminute hsecond ⊢
    split_ifs <;> simp only [IntVal.mk.injEq, true_and, and_true] at * <;> omega

/-! ## The text that is printed -/

theorem printField_zero (sign time : Bool) (q : UInt16) : printField sign time 0 q = [] := rfl

theorem printField_pos (sign time : Bool) {n : ℕ} (hn : n ≠ 0) (q : UInt16) :
    printField sign time n q =
      (if time then [0x54] else []) ++ ((Amount.printed sign n).text ++ [q]) := by
  rw [printField, if_neg hn, Amount.text_printed, List.append_assoc]

namespace WholeInterval

theorem flatMap_one (i : WholeInterval) (hi : ¬i.IsZero) (u : DurationUnit) (f : IvlField) :
    (Duration.one u (i.amount f)).flatMap Duration.amountText =
      printField i.intervalSign false (i.num f) (u.letter false) := by
  rw [amount]
  by_cases hnum : i.num f ≠ 0
  · rw [if_pos hnum, printField_pos _ _ hnum]
    simp [Duration.one, Duration.amountText, Amount.printed]
  · rw [if_neg hnum, if_neg fun h ↦ hi h.1, not_not.mp hnum]
    rfl

theorem one_eq_nil {i : WholeInterval} (hi : ¬i.IsZero) (u : DurationUnit) (f : IvlField) :
    Duration.one u (i.amount f) = [] ↔ i.num f = 0 := by
  rw [amount]
  by_cases hnum : i.num f ≠ 0
  · simp [hnum, Duration.one]
  · simp [not_not.mp hnum, hi, Duration.one]

theorem text_duration (i : WholeInterval) (hi : ¬i.IsZero) :
    i.duration.text = 0x50 ::
      (printField i.intervalSign false (i.num .year) 0x59 ++
        (printField i.intervalSign false (i.num .month) 0x4D ++
          printField i.intervalSign false (i.num .day) 0x44) ++
      if i.num .hour = 0 ∧ i.num .minute = 0 ∧ i.num .second = 0 then []
      else 0x54 :: (printField i.intervalSign false (i.num .hour) 0x48 ++
        (printField i.intervalSign false (i.num .minute) 0x4D ++
          printField i.intervalSign false (i.num .second) 0x53))) := by
  have htimes : i.duration.times = [] ↔ i.num .hour = 0 ∧ i.num .minute = 0 ∧ i.num .second = 0 := by
    simp only [Duration.times, List.append_eq_nil_iff, and_assoc]
    rw [← one_eq_nil hi .hour, ← one_eq_nil hi .minute, ← one_eq_nil hi .second]
    rfl
  have hdates : i.duration.dates.flatMap Duration.amountText =
      printField i.intervalSign false (i.num .year) 0x59 ++
        (printField i.intervalSign false (i.num .month) 0x4D ++
          printField i.intervalSign false (i.num .day) 0x44) := by
    simp only [Duration.dates, List.flatMap_append, List.append_assoc]
    show (Duration.one .year (i.amount .year)).flatMap _ ++
      ((Duration.one .month (i.amount .month)).flatMap _ ++
        ((Duration.one .week none).flatMap _ ++ (Duration.one .day (i.amount .day)).flatMap _)) = _
    rw [i.flatMap_one hi, i.flatMap_one hi, i.flatMap_one hi]
    rfl
  have hflat : i.duration.times.flatMap Duration.amountText =
      printField i.intervalSign false (i.num .hour) 0x48 ++
        (printField i.intervalSign false (i.num .minute) 0x4D ++
          printField i.intervalSign false (i.num .second) 0x53) := by
    simp only [Duration.times, List.flatMap_append, List.append_assoc]
    show (Duration.one .hour (i.amount .hour)).flatMap _ ++
      ((Duration.one .minute (i.amount .minute)).flatMap _ ++
        (Duration.one .second (i.amount .second)).flatMap _) = _
    rw [i.flatMap_one hi, i.flatMap_one hi, i.flatMap_one hi]
    rfl
  rw [Duration.text, hdates, hflat, if_congr htimes rfl rfl]
  rfl

/-- The storage of a year-month interval. -/
theorem num_yearMonth (i : WholeInterval) (ht : i.intervalType.YearMonth) :
    i.intval.yearDay = i.num .year ∧ i.intval.monthHour = i.num .month ∧ i.num .day = 0 ∧
      i.num .hour = 0 ∧ i.num .minute = 0 ∧ i.num .second = 0 := by
  have hother : .day ∉ type2bm i.intervalType ∧ .hour ∉ type2bm i.intervalType ∧
      .minute ∉ type2bm i.intervalType ∧ .second ∉ type2bm i.intervalType := by
    revert ht
    cases i.intervalType <;> decide
  have hday := num_of_notMem hother.1
  have hhour := num_of_notMem hother.2.1
  refine ⟨?_, ?_, hday, hhour, num_of_notMem hother.2.2.1, num_of_notMem hother.2.2.2⟩
  · rw [← i.yearDay_eq, hday, if_neg (not_not.mpr rfl)]
  · rw [← i.monthHour_eq, hhour, if_neg (not_not.mpr rfl)]

/-- The storage of a day-time interval. -/
theorem num_dayTime (i : WholeInterval) (ht : ¬i.intervalType.YearMonth) :
    i.intval.yearDay = i.num .day ∧ i.intval.monthHour = i.num .hour ∧
      i.intval.minute = i.num .minute ∧ i.intval.second = i.num .second ∧
        i.num .year = 0 ∧ i.num .month = 0 := by
  have hyear := num_of_notMem (not_or.mp ht).1
  have hmonth := num_of_notMem (not_or.mp ht).2
  refine ⟨?_, ?_, (i.num_eq_get (f := .minute) i.minute).symm,
    (i.num_eq_get (f := .second) i.second).symm, hyear, hmonth⟩
  · rw [← i.yearDay_eq, hyear]
    split <;> simp_all
  · rw [← i.monthHour_eq, hmonth]
    split <;> simp_all

theorem printIntervalIso8601_yearMonth (r : IvlRec) {ivl : SqlInterval}
    (ht : ivl.intervalType.YearMonth) :
    printIntervalIso8601 r ivl =
      let text := 0x50 :: (printField ivl.intervalSign false ivl.intval.yearDay 0x59 ++
        printField ivl.intervalSign false ivl.intval.monthHour 0x4D)
      if text.length ≤ 1 then text ++ [0x30, 0x4D] else text := by
  obtain ⟨t, sign, v⟩ := ivl
  cases t
  case year | month | yearToMonth => rfl
  all_goals exact absurd ht (by simp [IntervalType.YearMonth, type2bm])

theorem printIntervalIso8601_dayTime (r : IvlRec) {ivl : SqlInterval}
    (ht : ¬ivl.intervalType.YearMonth) (hfraction : ivl.intval.fraction = 0) :
    printIntervalIso8601 r ivl =
      let v := ivl.intval
      let text := 0x50 :: (printField ivl.intervalSign false v.yearDay 0x44 ++
        (printField ivl.intervalSign true v.monthHour 0x48 ++
          (printField ivl.intervalSign (v.monthHour = 0) v.minute 0x4D ++
            printField ivl.intervalSign (v.monthHour = 0 ∧ v.minute = 0) v.second 0x53)))
      if text.length ≤ 1 then text ++ [0x54, 0x30, 0x53] else text := by
  have hsec : printIntervalSec r ivl.intval = ui64tot ivl.intval.second := by
    rw [printIntervalSec, if_neg fun h ↦ h.1 hfraction]
  have hlast : (if ivl.intval.second = 0 ∧ ivl.intval.fraction = 0 then []
      else (if ivl.intval.monthHour = 0 ∧ ivl.intval.minute = 0 then [0x54] else []) ++
        ((if ivl.intervalSign then [0x2D] else []) ++
          (printIntervalSec r ivl.intval ++ [0x53]))) =
      printField ivl.intervalSign (ivl.intval.monthHour = 0 ∧ ivl.intval.minute = 0)
        ivl.intval.second 0x53 := by
    rw [printField, hsec]
    simp [hfraction]
  obtain ⟨t, sign, v⟩ := ivl
  cases t
  case year | month | yearToMonth => exact absurd (by simp [IntervalType.YearMonth, type2bm]) ht
  all_goals
    dsimp only [printIntervalIso8601] at hlast ⊢
    rw [hlast]

theorem length_text {w : WStr} (hw : w ≠ []) : ¬(0x50 :: w).length ≤ 1 := by
  have hpos := List.length_pos_of_ne_nil hw
  rw [List.length_cons]
  omega

theorem printField_ne_nil (sign time : Bool) {n : ℕ} (hn : n ≠ 0) (q : UInt16) :
    printField sign time n q ≠ [] := by
  rw [printField_pos _ _ hn]
  simp

/-- The `T` is printed with the first of the times. -/
theorem printField_times (sign : Bool) (h m s : ℕ) :
    printField sign true h 0x48 ++ (printField sign (h = 0) m 0x4D ++
        printField sign (h = 0 ∧ m = 0) s 0x53) =
      if h = 0 ∧ m = 0 ∧ s = 0 then []
      else 0x54 :: (printField sign false h 0x48 ++ (printField sign false m 0x4D ++
        printField sign false s 0x53)) := by
  by_cases hh : h = 0
  · by_cases hm : m = 0
    · by_cases hs : s = 0 <;> simp [hh, hm, hs, printField]
    · simp [hh, hm, printField]
  · simp [hh, printField]

theorem amount_of_isZero {i : WholeInterval} (hi : i.IsZero) (f : IvlField) :
    i.amount f = if f = i.fallback then some (.printed false 0) else none := by
  rw [amount, if_neg (not_not.mpr (num_of_isZero hi f)), if_congr (and_iff_right hi) rfl rfl]

/-- The text of a zero. -/
theorem text_of_isZero {i : WholeInterval} (hi : i.IsZero) :
    i.duration.text =
      if i.intervalType.YearMonth then [0x50, 0x30, 0x4D] else [0x50, 0x54, 0x30, 0x53] := by
  have hamount := amount_of_isZero hi
  have hfallback : i.fallback = if i.intervalType.YearMonth then .month else .second := rfl
  by_cases ht : i.intervalType.YearMonth
  · simp only [Duration.text, Duration.dates, Duration.times, duration, hamount, hfallback, if_pos ht]
    decide
  · simp only [Duration.text, Duration.dates, Duration.times, duration, hamount, hfallback, if_neg ht]
    decide

theorem print_of_isZero (r : IvlRec) {i : WholeInterval} (hi : i.IsZero) :
    printIntervalIso8601 r i.toSqlInterval =
      if i.intervalType.YearMonth then [0x50, 0x30, 0x4D] else [0x50, 0x54, 0x30, 0x53] := by
  have hv : i.intval = .zero := hi
  by_cases ht : i.intervalType.YearMonth
  · rw [printIntervalIso8601_yearMonth r ht, hv, if_pos ht]
    rfl
  · rw [printIntervalIso8601_dayTime r ht i.fraction, hv, if_neg ht]
    rfl

/-- The text of an interval is the one of its duration. -/
theorem printIntervalIso8601_eq (r : IvlRec) (i : WholeInterval) :
    printIntervalIso8601 r i.toSqlInterval = i.duration.text := by
  by_cases hi : i.IsZero
  · rw [print_of_isZero r hi, text_of_isZero hi]
  · obtain ⟨f, hf⟩ := i.exists_num hi
    rw [i.text_duration hi]
    by_cases ht : i.intervalType.YearMonth
    · obtain ⟨hyear, hmonth, hday, hhour, hminute, hsecond⟩ := i.num_yearMonth ht
      have hbody : printField i.intervalSign false (i.num .year) 0x59 ++
          printField i.intervalSign false (i.num .month) 0x4D ≠ [] := by
        cases f with
        | year => exact List.append_ne_nil_of_left_ne_nil (printField_ne_nil _ _ hf _) _
        | month => exact List.append_ne_nil_of_right_ne_nil _ (printField_ne_nil _ _ hf _)
        | day => exact absurd hday hf
        | hour => exact absurd hhour hf
        | minute => exact absurd hminute hf
        | second => exact absurd hsecond hf
      rw [printIntervalIso8601_yearMonth r ht, hyear, hmonth, if_neg (length_text hbody), hday,
        if_pos ⟨hhour, hminute, hsecond⟩, printField_zero]
      simp only [List.append_nil]
    · obtain ⟨hday, hhour, hminute, hsecond, hyear, hmonth⟩ := i.num_dayTime ht
      have hbody : printField i.intervalSign false (i.num .day) 0x44 ++
          (if i.num .hour = 0 ∧ i.num .minute = 0 ∧ i.num .second = 0 then []
          else 0x54 :: (printField i.intervalSign false (i.num .hour) 0x48 ++
            (printField i.intervalSign false (i.num .minute) 0x4D ++
              printField i.intervalSign false (i.num .second) 0x53))) ≠ [] := by
        cases f with
        | year => exact absurd hyear hf
        | month => exact absurd hmonth hf
        | day => exact List.append_ne_nil_of_left_ne_nil (printField_ne_nil _ _ hf _) _
        | hour | minute | second => simp [hf]
      rw [printIntervalIso8601_dayTime r ht i.fraction]
      dsimp only
      rw [hday, hhour, hminute, hsecond, printField_times, if_neg (length_text hbody), hyear,
        hmonth, printField_zero, printField_zero, List.nil_append, List.nil_append]

/-! ## What is read back -/

/-- `parse_interval_iso8601` reads an interval back from what `print_interval_iso8601` prints. -/
def ReadBack (r : IvlRec) (i : WholeInterval) : Prop :=
  parseIntervalIso8601 (Int16.ofNat r.precision) i.intervalType
    (printIntervalIso8601 r i.toSqlInterval) = .ok (.success, i.toSqlInterval)

/-- A year is not 0; of a day-time type no field is 0, or they are balanced. -/
structure KeptByBalance (i : WholeInterval) : Prop where
  year : i.intervalType = .year → ¬i.IsZero
  dayTime : ¬i.intervalType.YearMonth →
    (∀ f ∈ type2bm i.intervalType, i.intval.get f ≠ 0) ∨ BalancedFields i.intervalType i.intval

theorem readBack_iff_decoded (r : IvlRec) (i : WholeInterval) :
    i.ReadBack r ↔ i.duration.Accepted i.intervalType ∧
      i.duration.decoded (Int16.ofNat r.precision) i.intervalType = i.intval := by
  have hret := (i.hasFraction_duration (Int16.ofNat r.precision)).2.1
  rw [ReadBack, printIntervalIso8601_eq]
  constructor
  · intro h
    by_cases hacc : i.duration.Accepted i.intervalType
    · rw [parse_accepted hacc, Except.ok.injEq, Prod.mk.injEq] at h
      exact ⟨hacc, congrArg SqlInterval.intval h.2⟩
    · obtain ⟨s, hs, -⟩ := parse_refused (p := Int16.ofNat r.precision) hacc
      rw [hs] at h
      cases h
  · rintro ⟨hacc, hdecoded⟩
    rw [parse_accepted hacc, hret, hdecoded, i.negative_duration]

theorem mem_of_num {i : WholeInterval} {f : IvlField} (h : i.num f ≠ 0) :
    f ∈ type2bm i.intervalType := by
  by_contra hmem
  exact h (num_of_notMem hmem)

/-- When a balance over the fields of the type leaves them as they are. -/
theorem rebalance_eq_self_iff (i : WholeInterval) (ht : ¬i.intervalType.YearMonth) :
    secsOf i.intval ≤ ulongMax ∧ rebalance (type2bm i.intervalType) (secsOf i.intval) 0 = i.intval ↔
      BalancedFields i.intervalType i.intval := by
  obtain ⟨hday, hhour, hminute, hsecond, -, -⟩ := i.num_dayTime ht
  have hsecs : secsIn i.intervalType i.intval = 86400 * i.intval.yearDay +
      3600 * i.intval.monthHour + 60 * i.intval.minute + i.intval.second := by
    rw [hday, hhour, hminute, hsecond]
    rfl
  constructor
  · rintro ⟨hsum, hreb⟩
    obtain ⟨bhour, bminute, bsecond⟩ := rebalance_fields ht (secsOf i.intval)
    rw [hreb] at bhour bminute bsecond
    refine ⟨bhour, bminute, bsecond, ?_⟩
    have hrest := secsIn_rebalance (not_or.mp ht).1 (not_or.mp ht).2 (secsOf i.intval) 0
    rw [hreb] at hrest
    omega
  · intro h
    have hmax : ulongMax = 2 ^ 32 - 1 := rfl
    have hsum := h.sum
    have hexact : secsOf i.intval = secsIn i.intervalType i.intval := by
      rw [hsecs] at hsum ⊢
      rw [secsOf, Nat.mod_eq_of_lt (by omega), Nat.mod_eq_of_lt (by omega),
        Nat.mod_eq_of_lt (by omega)]
      ring
    refine ⟨hexact ▸ hsum, ?_⟩
    rw [hexact, rebalance_secsIn ht h]
    have hfields : fieldsIn i.intervalType i.intval =
        ⟨i.num .day, i.num .hour, i.num .minute, i.num .second, 0⟩ := rfl
    rw [hfields, ← hday, ← hhour, ← hminute, ← hsecond, ← i.fraction]

/-- When an interval is read back from what is printed of it. -/
theorem duration_read_back (r : IvlRec) (i : WholeInterval) : i.ReadBack r ↔ i.KeptByBalance := by
  rw [readBack_iff_decoded]
  by_cases ht : i.intervalType.YearMonth
  · have hreb : ¬Rebalanced i.intervalType i.duration := fun h ↦ ht.elim h.2.1 h.2.2
    have hdecoded : i.duration.decoded (Int16.ofNat r.precision) i.intervalType = i.intval := by
      rw [Duration.decoded, if_neg hreb, i.slots_duration]
    constructor
    · rintro ⟨hacc, -⟩
      refine ⟨fun hyear hzero ↦ ?_, fun h ↦ absurd ht h⟩
      have hmem : IvlField.month ∈ i.duration.fields :=
        mem_fields_duration.mpr (.inr ⟨hzero, (if_pos ht).symm⟩)
      have hin := hacc.within hreb hmem
      rw [hyear] at hin
      exact absurd hin (by decide)
    · intro h
      refine ⟨⟨i.readable, fun _ f hf ↦ ?_, fun h ↦ absurd h hreb, fun h ↦ absurd h hreb⟩, hdecoded⟩
      rcases mem_fields_duration.mp hf with hnum | ⟨hzero, rfl⟩
      · exact mem_of_num hnum
      · rw [fallback, if_pos ht]
        have hyear := fun hy ↦ h.year hy hzero
        revert ht hyear
        cases i.intervalType <;> decide
  · by_cases hfields : type2bm i.intervalType = i.duration.fields
    · have hreb : ¬Rebalanced i.intervalType i.duration := fun h ↦ h.1 hfields
      have hdecoded : i.duration.decoded (Int16.ofNat r.precision) i.intervalType = i.intval := by
        rw [Duration.decoded, if_neg hreb, i.slots_duration]
      have hacc : i.duration.Accepted i.intervalType :=
        ⟨i.readable, fun _ ↦ hfields ▸ Finset.Subset.refl _, fun h ↦ absurd h hreb,
          fun h ↦ absurd h hreb⟩
      refine iff_of_true ⟨hacc, hdecoded⟩ ⟨fun hyear ↦ ?_, fun _ ↦ ?_⟩
      · exact absurd (by rw [hyear]; decide) ht
      · by_cases hzero : i.IsZero
        · refine .inr ((i.rebalance_eq_self_iff ht).mp ?_)
          rw [show i.intval = .zero from hzero]
          revert ht
          cases i.intervalType <;> decide
        · refine .inl fun f hf ↦ ?_
          rw [hfields] at hf
          rcases mem_fields_duration.mp hf with hnum | ⟨h, -⟩
          · rwa [← i.get_of_mem (mem_of_num hnum)]
          · exact absurd h hzero
    · have hreb : Rebalanced i.intervalType i.duration :=
        ⟨hfields, (not_or.mp ht).1, (not_or.mp ht).2⟩
      have hsecs : secsOf (i.duration.slots 0) = secsOf i.intval := by rw [i.slots_duration]
      have hdecoded : i.duration.decoded (Int16.ofNat r.precision) i.intervalType =
          rebalance (type2bm i.intervalType) (secsOf i.intval) 0 := by
        rw [Duration.decoded, if_pos hreb, hsecs, (i.hasFraction_duration _).2.2]
      have hacc : i.duration.Accepted i.intervalType ↔ secsOf i.intval ≤ ulongMax := by
        refine ⟨fun h ↦ hsecs ▸ h.sum hreb, fun h ↦ ⟨i.readable, fun hn ↦ absurd hreb hn,
          fun _ ↦ hsecs.symm ▸ h, fun _ hfrac ↦ ?_⟩⟩
        rw [(i.hasFraction_duration 0).1] at hfrac
        cases hfrac
      rw [hacc, hdecoded, i.rebalance_eq_self_iff ht]
      constructor
      · intro h
        exact ⟨fun hyear ↦ absurd (by rw [hyear]; decide) ht, fun _ ↦ .inr h⟩
      · intro h
        refine (h.dayTime ht).resolve_left fun hall ↦ hfields ?_
        ext f
        rw [mem_fields_duration]
        constructor
        · intro hf
          exact .inl (by rw [i.get_of_mem hf]; exact hall f hf)
        · rintro (hnum | ⟨hzero, -⟩)
          · exact mem_of_num hnum
          · obtain ⟨g, hg⟩ : (type2bm i.intervalType).Nonempty := by
              cases i.intervalType <;> decide
            refine absurd ?_ (hall g hg)
            rw [show i.intval = .zero from hzero]
            cases g <;> rfl

end WholeInterval

/-- A year of 0 is printed as months and not read again. -/
theorem zero_year_refused :
    printIntervalIso8601 ⟨6, 2⟩ ⟨.year, false, .zero⟩ = wstr "P0M" ∧
      ∃ i : WholeInterval, i.toSqlInterval = ⟨.year, false, .zero⟩ ∧ ¬i.ReadBack ⟨6, 2⟩ := by
  refine ⟨by decide, ⟨⟨.year, false, .zero⟩, ?_, ?_, ?_, ?_, ?_, rfl, fun _ ↦ rfl⟩, rfl, ?_⟩
  · intro f
    cases f <;> exact Nat.zero_le _
  · exact fun h ↦ absurd rfl h
  · exact fun h ↦ absurd rfl h
  · exact fun h ↦ absurd rfl h
  · exact fun h ↦ absurd rfl h
  · show ¬_ = _
    decide +kernel

end EsOdbc
