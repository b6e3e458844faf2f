import EsOdbc.Interval.Fraction

/-!
# When the decoding of a duration is exact

A duration that is accepted keeps its value on conditions on the numbers written: each is
one whose magnitude is read, the fraction scales and has its sign, and a balance over the
fields of the type neither wraps nor drops anything.
-/

namespace EsOdbc

open Decimal (ofDigits)

namespace Duration

/-- The number of a field. -/
def get (d : Duration) : IvlField → Option Amount
  | .year => d.year
  | .month => d.month
  | .day => d.day
  | .hour => d.hour
  | .minute => d.minute
  | .second => d.second

/-- The fields that are written. -/
def fields (d : Duration) : Finset IvlField := (fieldsOf d.amounts).toFinset

theorem mem_fields {d : Duration} {f : IvlField} : f ∈ d.fields ↔ (d.get f).isSome = true := by
  simp only [fields, List.mem_toFinset, fieldsOf, amounts, dates, times, one,
    List.filterMap_append, List.mem_append, Option.isSome_iff_exists]
  cases f <;> simp [get, DurationUnit.field] <;> exact Option.ne_none_iff_exists'

/-- What is written for a field before a point; `0` where nothing is. -/
def num (d : Duration) (f : IvlField) : ℕ := ((d.get f).map fun a ↦ ofDigits a.whole).getD 0

/-- The storage of the fields, as they are read into it. -/
def slots (p : Int16) (d : Duration) : IntVal where
  yearDay := (d.day.map Amount.uint).getD (uintOf d.year)
  monthHour := (d.hour.map Amount.uint).getD (uintOf d.month)
  minute := uintOf d.minute
  second := uintOf d.second
  fraction := d.fraction p

/-- The sign of the interval. -/
def negative (d : Duration) : Bool := d.amounts.all fun x ↦ decide (x.2.bint < 0)

end Duration

/-- A day-time type whose fields are not those written: they are balanced. -/
def Rebalanced (t : IntervalType) (d : Duration) : Prop :=
  type2bm t ≠ d.fields ∧ .year ∉ type2bm t ∧ .month ∉ type2bm t

instance (t : IntervalType) (d : Duration) : Decidable (Rebalanced t d) :=
  inferInstanceAs (Decidable (_ ∧ _))

/-- The sum of the fields in seconds, each product one of 32 bits. -/
def secsOf (v : IntVal) : ℕ :=
  v.second + 60 * v.minute % 2 ^ 32 + 3600 * v.monthHour % 2 ^ 32 + 24 * 3600 * v.yearDay % 2 ^ 32

theorem ulongSafeAdd_eq {a b : ℕ} (hb : b ≤ ulongMax) :
    ulongSafeAdd a b = if a + b ≤ ulongMax then some (a + b) else none := by
  unfold ulongSafeAdd
  split <;> split <;> first | rfl | omega

theorem intervalSecs_eq (v : IntVal) :
    intervalSecs v = if secsOf v ≤ ulongMax then some (secsOf v) else none := by
  have hmax : ulongMax = 2 ^ 32 - 1 := rfl
  have hmod (n : ℕ) : n % 2 ^ 32 ≤ ulongMax := by omega
  have hbind (a b : ℕ) : ∀ c ≤ ulongMax, ((if a + b ≤ ulongMax then some (a + b) else none).bind
      fun secs ↦ ulongSafeAdd secs c) = if a + b + c ≤ ulongMax then some (a + b + c) else none := by
    intro c hc
    by_cases h : a + b ≤ ulongMax
    · rw [if_pos h, Option.bind_some, ulongSafeAdd_eq hc]
    · rw [if_neg h, if_neg (by omega), Option.bind_none]
  rw [intervalSecs, ulongSafeAdd_eq (hmod _), hbind _ _ _ (hmod _), hbind _ _ _ (hmod _), secsOf]

/-- A duration is accepted for a type: the loop reads it, and its fields are among those of
the type, or their sum fits 32 bits and no fraction is without a place. -/
structure Duration.Accepted (t : IntervalType) (d : Duration) : Prop where
  readable : d.Readable
  within : ¬ Rebalanced t d → d.fields ⊆ type2bm t
  sum : Rebalanced t d → secsOf (d.slots 0) ≤ ulongMax
  place : Rebalanced t d → d.hasFraction = true → .second ∈ type2bm t

/-- The fields that are stored for an accepted duration. -/
def Duration.decoded (p : Int16) (t : IntervalType) (d : Duration) : IntVal :=
  if Rebalanced t d then rebalance (type2bm t) (secsOf (d.slots 0)) (d.fraction p)
  else d.slots p

/-- The variables of the loop at the end of a duration. -/
theorem ivlLoop_readable (p : Int16) {d : Duration} (h : d.Readable) :
    ∃ s, ivlLoop p 0 d.text .init = some s ∧ (s.state = .period ∨ s.state = .time) ∧
      decide (s.sign < 0) = d.negative ∧ s.fields = d.fields ∧ s.intval = d.slots p ∧
      s.fraction = d.fraction p ∧ s.last = some (d.ret p, d.hasFraction) := by
  obtain ⟨t, σ, ht, heq⟩ := d.afterTimes_eq p
  obtain ⟨hyd, hmh, hmi, hse⟩ := d.collected_slots p
  obtain ⟨hfr, hiv, hlast⟩ := Duration.collected_fraction p h
  refine ⟨_, ivlLoop_text.mpr ⟨h, heq⟩, ht, ?_, ?_, ?_, hfr, hlast⟩
  · show decide ((d.collected p).sign < 0) = _
    rw [Duration.collected, foldl_putAmount_sign p h.taken]
    have hneg : signAfter IvlScan.afterP.sign d.amounts < 0 ↔
        (0 : ℤ) ≤ 0 ∧ ∀ x ∈ d.amounts, x.2.bint < 0 :=
      signAfter_neg h.signs (.inr d.amounts_ne_nil)
    rw [Duration.negative, Bool.eq_iff_iff, decide_eq_true_eq, List.all_eq_true]
    simpa using hneg
  · ext f
    show f ∈ (d.collected p).fields ↔ _
    rw [Duration.collected, mem_foldl_putAmount_fields, Duration.fields, List.mem_toFinset]
    exact or_iff_left (Finset.notMem_empty f)
  · show (d.collected p).intval = _
    rw [Duration.slots, ← hyd, ← hmh, ← hmi, ← hse, ← hiv]

/-- An accepted duration is decoded. -/
theorem parse_accepted {p : Int16} {t : IntervalType} {d : Duration}
    (h : d.Accepted t) :
    parseIntervalIso8601 p t d.text =
      .ok (d.ret p, ⟨t, d.negative, d.decoded p t⟩) := by
  obtain ⟨s, hloop, hstate, hsign, hfields, hintval, hfr, hlast⟩ :=
    ivlLoop_readable p h.readable
  have hst : ¬ (s.state ≠ .period ∧ s.state ≠ .time) := by tauto
  have hnorm : normalizeInterval (type2bm t) s = .ok (d.decoded p t,
      if Rebalanced t d then type2bm t else d.fields) := by
    rw [normalizeInterval, hfields, hintval, hlast, hfr, Duration.decoded]
    by_cases hreb : Rebalanced t d
    · have hsum : intervalSecs (d.slots p) = some (secsOf (d.slots 0)) := by
        rw [intervalSecs_eq]
        exact if_pos (h.sum hreb)
      have hreb' : type2bm t ≠ d.fields ∧ .year ∉ type2bm t ∧ .month ∉ type2bm t := hreb
      rw [if_pos hreb', hsum, if_pos hreb, if_pos hreb]
      by_cases hsec : .second ∈ type2bm t
      · simp only [if_pos hsec]
      · have hfrac : d.hasFraction = false := by
          rw [← Bool.not_eq_true]
          exact fun hf ↦ hsec (h.place hreb hf)
        simp only [if_neg hsec, hfrac]
    · have hreb' : ¬ (type2bm t ≠ d.fields ∧ .year ∉ type2bm t ∧ .month ∉ type2bm t) := hreb
      rw [if_neg hreb', if_neg hreb, if_neg hreb]
  have hsub : (if Rebalanced t d then type2bm t else d.fields) ⊆ type2bm t := by
    split
    · exact Finset.Subset.refl _
    · next hreb => exact h.within hreb
  simp only [parseIntervalIso8601, hloop, if_neg hst, hnorm, not_not.mpr hsub, if_false, hlast,
    hsign]

/-- Another one is an error. -/
theorem parse_refused {p : Int16} {t : IntervalType} {d : Duration}
    (h : ¬ d.Accepted t) :
    ∃ state, parseIntervalIso8601 p t d.text = .error (.fail state) ∧
      state.retcode = .error := by
  by_cases hread : d.Readable
  · obtain ⟨s, hloop, hstate, hsign, hfields, hintval, hfr, hlast⟩ :=
      ivlLoop_readable p hread
    have hst : ¬ (s.state ≠ .period ∧ s.state ≠ .time) := by tauto
    simp only [parseIntervalIso8601, hloop, if_neg hst, normalizeInterval, hfields, hintval,
      hlast, hfr]
    by_cases hreb : Rebalanced t d
    · have hreb' : type2bm t ≠ d.fields ∧ .year ∉ type2bm t ∧ .month ∉ type2bm t := hreb
      have hsums : secsOf (d.slots p) = secsOf (d.slots 0) := rfl
      rw [if_pos hreb', intervalSecs_eq, hsums]
      by_cases hsum : secsOf (d.slots 0) ≤ ulongMax
      · have hplace : ¬ (d.hasFraction = true → .second ∈ type2bm t) := fun hp ↦
          h ⟨hread, fun hn ↦ absurd hreb hn, fun _ ↦ hsum, fun _ ↦ hp⟩
        rw [Classical.not_imp] at hplace
        simp only [if_pos hsum, if_neg hplace.2, hplace.1]
        exact ⟨_, rfl, rfl⟩
      · simp only [if_neg hsum]
        exact ⟨_, rfl, rfl⟩
    · have hreb' : ¬ (type2bm t ≠ d.fields ∧ .year ∉ type2bm t ∧ .month ∉ type2bm t) := hreb
      have hsub : ¬ d.fields ⊆ type2bm t := fun hs ↦
        h ⟨hread, fun _ ↦ hs, fun hr ↦ absurd hr hreb, fun hr ↦ absurd hr hreb⟩
      rw [if_neg hreb']
      simp only [hsub, not_false_iff, if_true]
      exact ⟨_, rfl, rfl⟩
  · have hloop : ivlLoop p 0 d.text .init = none :=
      Option.eq_none_iff_forall_ne_some.mpr fun s hs ↦ hread (ivlLoop_text.mp hs).1
    simp only [parseIntervalIso8601, hloop]
    exact ⟨_, rfl, rfl⟩

/-! ## What the written numbers are worth -/

namespace Duration

/-- `1` or `-1`, by the sign of the interval. -/
def sgn (d : Duration) : ℚ := if d.negative then -1 else 1

/-- The same by the sign the seconds are written with. -/
def secondSgn (d : Duration) : ℚ := d.second.elim d.sgn fun a ↦ if a.negative then -1 else 1

/-- The digits of the fraction of the seconds. -/
def secondDigits (d : Duration) : List (Fin 10) := d.second.elim [] Amount.digits

/-- The months that are written. -/
def months (d : Duration) : ℕ := 12 * d.num .year + d.num .month

/-- The seconds that are written before a point. -/
def total (d : Duration) : ℕ :=
  86400 * d.num .day + 3600 * d.num .hour + 60 * d.num .minute + d.num .second

theorem mem_amounts {d : Duration} {u : DurationUnit} {f : IvlField} {a : Amount}
    (hu : u.field = some f) (ha : d.get f = some a) : (u, a) ∈ d.amounts := by
  simp only [amounts, dates, times, one, List.mem_append, List.mem_map, Option.mem_toList,
    Prod.mk.injEq]
  cases u <;> cases hu <;> simp only [get] at ha <;> simp [ha]

/-- The sign of every number is the one of the interval. -/
theorem bint_neg_iff {d : Duration} (h : d.Readable) {x : DurationUnit × Amount}
    (hx : x ∈ d.amounts) : x.2.bint < 0 ↔ d.negative = true := by
  rw [negative, List.all_eq_true]
  simp only [decide_eq_true_eq]
  rcases h.signs with ⟨_, hs⟩ | ⟨_, hs⟩
  · exact ⟨fun _ ↦ hs, fun _ ↦ hs x hx⟩
  · exact ⟨fun hb ↦ absurd hb (hs x hx), fun hb ↦ absurd (hb x hx) (hs x hx)⟩

/-- A whole part is worth its number under the sign of the interval. -/
theorem signed_whole {d : Duration} (h : d.Readable) {x : DurationUnit × Amount}
    (hx : x ∈ d.amounts) :
    (if x.2.negative then -1 else 1) * (ofDigits x.2.whole : ℚ) =
      d.sgn * ofDigits x.2.whole := by
  have hb := bint_neg_iff h hx
  rw [sgn]
  rcases hneg : x.2.negative with _ | _
  · have : ¬ d.negative = true := by
      rw [← hb]
      simp [Amount.bint, hneg]
    rw [if_neg this, if_neg Bool.false_ne_true]
  · rcases Nat.eq_zero_or_pos (ofDigits x.2.whole) with hz | hpos
    · rw [hz, Nat.cast_zero, mul_zero, mul_zero]
    · have : d.negative = true := by
        rw [← hb]
        simpa [Amount.bint, hneg] using hpos
      rw [if_pos this, if_pos rfl]

/-- A number without a fraction, in either reading of its value. -/
theorem value_whole {d : Duration} (h : d.Readable) {x : DurationUnit × Amount}
    (hx : x ∈ d.amounts) (hfrac : x.2.frac = none) (q : ℕ) :
    x.2.value = d.sgn * ofDigits x.2.whole ∧ x.2.valueTo q = d.sgn * ofDigits x.2.whole := by
  have hdigits : x.2.digits = [] := by rw [Amount.digits, hfrac]; rfl
  rw [Amount.value, Amount.valueTo, Amount.magnitude, Amount.magnitude, hdigits, List.take_nil,
    ← signed_whole h hx]
  simp [Decimal.ofDigits]

theorem week_none {d : Duration} (h : d.Readable) : d.week = none := by
  rcases hw : d.week with _ | a
  · rfl
  · have hmem : (DurationUnit.week, a) ∈ d.amounts := by
      simp [amounts, dates, one, hw]
    exact absurd rfl (h.taken _ hmem).field

theorem frac_none {d : Duration} (h : d.Readable) {u : DurationUnit} {f : IvlField}
    (hu : u.field = some f) (hsec : u ≠ .second) {a : Amount} (ha : d.get f = some a) :
    a.frac = none := by
  by_contra hne
  exact hsec ((h.taken _ (mem_amounts hu ha)).seconds (Option.isSome_iff_ne_none.mpr hne))

/-- What a duration is worth, given what its numbers are. -/
theorem worth_eq {d : Duration} (h : d.Readable) {f : Amount → ℚ} {φ : ℚ}
    (hwhole : ∀ x ∈ d.amounts, x.2.frac = none → f x.2 = d.sgn * ofDigits x.2.whole)
    (hsec : (d.second.map f).getD 0 = d.sgn * d.num .second + φ) :
    d.worth f = (d.sgn * d.months, d.sgn * d.total + φ) := by
  have hval {u : DurationUnit} {g : IvlField} (hu : u.field = some g) (hne : u ≠ .second) :
      ((d.get g).map f).getD 0 = d.sgn * d.num g := by
    rw [num]
    cases ha : d.get g with
    | none => simp
    | some a => exact hwhole _ (mem_amounts hu ha) (frac_none h hu hne ha)
  have hyear := hval (u := .year) rfl (by decide)
  have hmonth := hval (u := .month) rfl (by decide)
  have hday := hval (u := .day) rfl (by decide)
  have hhour := hval (u := .hour) rfl (by decide)
  have hminute := hval (u := .minute) rfl (by decide)
  simp only [get] at hyear hmonth hday hhour hminute
  simp only [worth, h.sign, week_none h, hyear, hmonth, hday, hhour, hminute, hsec, months, total,
    reduceCtorEq, if_false, Option.map_none, Option.getD_none, Nat.cast_add, Nat.cast_mul,
    Nat.cast_ofNat, Prod.mk.injEq]
  constructor <;> ring

/-- The seconds, with some of their digits. -/
theorem second_eq {d : Duration} (h : d.Readable) {f : Amount → ℚ}
    (cut : List (Fin 10) → List (Fin 10)) (hcut : cut [] = [])
    (hf : ∀ a, f a = (if a.negative then -1 else 1) *
      Amount.magnitude (ofDigits a.whole) (cut a.digits)) :
    (d.second.map f).getD 0 =
      d.sgn * d.num .second + d.secondSgn * fractionOf (cut d.secondDigits) := by
  rw [num, secondSgn, secondDigits]
  cases ha : d.second with
  | none => simp [get, ha, hcut, fractionOf, Decimal.ofDigits]
  | some a =>
    have hs := signed_whole h (mem_amounts (u := .second) rfl ha)
    simp only [get, ha, Option.map_some, Option.getD_some, Option.elim_some, hf,
      Amount.magnitude, mul_add, fractionOf]
    rw [hs]

theorem value_eq {d : Duration} (h : d.Readable) :
    d.value = (d.sgn * d.months,
      d.sgn * d.total + d.secondSgn * fractionOf d.secondDigits) :=
  worth_eq h (fun _ hx hfrac ↦ (value_whole h hx hfrac 0).1)
    (second_eq h id rfl fun _ ↦ rfl)

theorem valueTo_eq {d : Duration} (h : d.Readable) (q : ℕ) :
    d.valueTo q = (d.sgn * d.months,
      d.sgn * d.total + d.secondSgn * fractionOf (d.secondDigits.take q)) :=
  worth_eq h (fun _ hx hfrac ↦ (value_whole h hx hfrac q).2)
    (second_eq h (·.take q) List.take_nil fun _ ↦ rfl)

end Duration

end EsOdbc
