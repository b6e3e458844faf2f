import EsOdbc.Interval.Decode

/-!
# The sign of a decoded interval

Which durations are decoded with their sign.  The decoder takes the sign of a number from its
whole part: a number with whole part 0 counts as one that is not negative.
-/

namespace EsOdbc

open Decimal (ofDigits digits digits_ne_nil)

/-! ## Numbers -/

namespace Amount

theorem magnitude_nonneg (n : ℕ) (ds : List (Fin 10)) : 0 ≤ magnitude n ds := by
  unfold magnitude
  positivity

theorem negative_of_value_neg {a : Amount} (h : a.value < 0) : a.negative = true := by
  by_contra hn
  rw [value, if_neg hn, one_mul] at h
  exact absurd h (not_lt.mpr (magnitude_nonneg _ _))

theorem not_negative_of_value_pos {a : Amount} (h : 0 < a.value) : ¬a.negative = true := by
  intro hn
  rw [value, if_pos hn, neg_one_mul] at h
  have := magnitude_nonneg (ofDigits a.whole) a.digits
  linarith

theorem bint_neg_iff {a : Amount} : a.bint < 0 ↔ a.negative = true ∧ ofDigits a.whole ≠ 0 := by
  rw [bint]
  split_ifs with hn
  · rw [and_iff_right hn]
    omega
  · exact iff_of_false (by omega) fun h ↦ hn h.1

/-- A number that is worth as much as nothing, or more, is not read as negative. -/
theorem not_bint_neg {a : Amount} (h : 0 ≤ a.value) : ¬a.bint < 0 := by
  rw [bint_neg_iff]
  rintro ⟨hn, hw⟩
  have hpos : (0 : ℚ) < ofDigits a.whole := by exact_mod_cast Nat.pos_of_ne_zero hw
  have hfrac : (0 : ℚ) ≤ ofDigits a.digits / 10 ^ a.digits.length := by positivity
  rw [value, if_pos hn, magnitude] at h
  linarith

theorem bint_neg_of_value_nonpos {a : Amount} (h : a.value ≤ 0) (hw : ofDigits a.whole ≠ 0) :
    a.bint < 0 := by
  rw [bint_neg_iff]
  refine ⟨?_, hw⟩
  by_contra hn
  have hpos : (0 : ℚ) < ofDigits a.whole := by exact_mod_cast Nat.pos_of_ne_zero hw
  have hfrac : (0 : ℚ) ≤ ofDigits a.digits / 10 ^ a.digits.length := by positivity
  rw [value, if_neg hn, magnitude] at h
  linarith

end Amount

/-! ## Durations -/

namespace Duration

/-- The components of a duration fit a type, whatever their signs: there is no sign of the whole
and no week, the numbers fit 32 bits, only seconds have a fraction, and the fields are among those
of the type or balance to them. -/
structure FitsType (t : IntervalType) (d : Duration) : Prop where
  sign : d.sign = none
  week : ∀ x ∈ d.amounts, x.1 ≠ .week
  whole : ∀ x ∈ d.amounts, ofDigits x.2.whole ≤ ulongMax
  seconds : ∀ x ∈ d.amounts, x.2.frac.isSome = true → x.1 = .second
  frac : ∀ x ∈ d.amounts, x.2.FracFits
  within : ¬ Rebalanced t d → d.fields ⊆ type2bm t
  sum : Rebalanced t d → secsOf (d.slots 0) ≤ ulongMax
  place : Rebalanced t d → d.hasFraction = true → .second ∈ type2bm t

/-- No component is negative. -/
def Nonneg (d : Duration) : Prop := ∀ x ∈ d.amounts, 0 ≤ x.2.value

/-- No component is positive, and one is negative. -/
def IsNegative (d : Duration) : Prop :=
  (∀ x ∈ d.amounts, x.2.value ≤ 0) ∧ ∃ x ∈ d.amounts, x.2.value < 0

/-- A component is positive, and another one negative. -/
def Mixed (d : Duration) : Prop :=
  (∃ x ∈ d.amounts, 0 < x.2.value) ∧ ∃ x ∈ d.amounts, x.2.value < 0

/-- Every sign has digits after it. -/
def SignsWritten (d : Duration) : Prop :=
  ∀ x ∈ d.amounts, x.2.sign.isSome = true → x.2.whole ≠ []

/-- Components that fit are accepted if their signs are. -/
theorem FitsType.accepted_iff {t : IntervalType} {d : Duration} (h : d.FitsType t) :
    d.Accepted t ↔ d.SignsWritten ∧ SignsFrom 0 d.amounts := by
  constructor
  · intro ha
    exact ⟨fun x hx ↦ (ha.readable.taken x hx).sign, ha.readable.signs⟩
  · rintro ⟨hwritten, hsigns⟩
    refine ⟨⟨h.sign, fun x hx ↦ ?_, hsigns⟩, h.within, h.sum, h.place⟩
    exact ⟨h.week x hx, hwritten x hx, .inl (h.whole x hx), h.seconds x hx, h.frac x hx⟩

/-- An accepted duration fits, but for a number that its negation leaves as it is. -/
theorem Accepted.fitsType {t : IntervalType} {d : Duration} (h : d.Accepted t)
    (hpos : ∃ x ∈ d.amounts, ¬x.2.bint < 0) : d.FitsType t := by
  have hnone : ∀ x ∈ d.amounts, ¬x.2.bint < 0 := by
    rcases h.readable.signs with ⟨-, hneg⟩ | ⟨-, hnone⟩
    · obtain ⟨x, hx, hb⟩ := hpos
      exact absurd (hneg x hx) hb
    · exact hnone
  have htaken := h.readable.taken
  refine ⟨h.readable.sign, fun x hx ↦ (htaken x hx).field, fun x hx ↦ ?_,
    fun x hx ↦ (htaken x hx).seconds, fun x hx ↦ (htaken x hx).frac, h.within, h.sum, h.place⟩
  rcases (htaken x hx).small with hsmall | ⟨hneg, hmin⟩
  · exact hsmall
  · refine absurd (Amount.bint_neg_iff.mpr ⟨hneg, ?_⟩) (hnone x hx)
    rw [hmin]
    decide

/-- The sign of an accepted duration. -/
theorem negative_iff (d : Duration) : d.negative = true ↔ ∀ x ∈ d.amounts, x.2.bint < 0 := by
  rw [negative, List.all_eq_true]
  simp only [decide_eq_true_eq]

end Duration

/-! ## Decoding -/

/-- The decoding of a duration keeps to its sign: one of components of one sign is decoded for a
type that they fit, with that sign, and one of components of both signs is refused. -/
structure SignKept (t : IntervalType) (d : Duration)
    (r : Except Halt (SqlReturn × SqlInterval)) : Prop where
  nonneg : d.Nonneg → d.FitsType t →
    ∃ ret i, r = .ok (ret, i) ∧ ret.succeeded = true ∧ i.intervalSign = false
  negative : d.IsNegative → d.FitsType t →
    ∃ ret i, r = .ok (ret, i) ∧ ret.succeeded = true ∧ i.intervalSign = true
  mixed : d.Mixed → ∃ state, r = .error (.fail state) ∧ state.retcode = .error

/-- The signs of components that fit are all in their whole parts: where none is negative, every
sign has digits after it; where none is positive, no whole part is 0; where there are both, a
negative one has a whole part other than 0, or some sign has no digits. -/
structure Duration.SignsRead (d : Duration) : Prop where
  nonneg : d.Nonneg → d.SignsWritten
  negative : d.IsNegative → ∀ x ∈ d.amounts, ofDigits x.2.whole ≠ 0
  mixed : d.Mixed → d.SignsWritten →
    ∃ x ∈ d.amounts, x.2.negative = true ∧ ofDigits x.2.whole ≠ 0

theorem succeeded_ret {p : Int16} {d : Duration} (h : d.Readable) :
    (d.ret p).succeeded = true := by
  rcases Duration.ret_cases (p := p) h with hret | hret <;> rw [hret] <;> rfl

/-- A duration is decoded with a sign if and only if it is accepted and its numbers are read
with that sign. -/
theorem decoded_sign_iff {p : Int16} {t : IntervalType} {d : Duration} (b : Bool) :
    (∃ ret i, parseIntervalIso8601 p t d.text = .ok (ret, i) ∧ ret.succeeded = true ∧
      i.intervalSign = b) ↔ d.Accepted t ∧ d.negative = b := by
  constructor
  · rintro ⟨ret, i, hparse, -, hb⟩
    by_cases h : d.Accepted t
    · rw [parse_accepted h] at hparse
      cases hparse
      exact ⟨h, hb⟩
    · obtain ⟨state, hrefused, -⟩ := parse_refused (p := p) h
      rw [hrefused] at hparse
      cases hparse
  · rintro ⟨h, hb⟩
    exact ⟨_, _, parse_accepted h, succeeded_ret h.readable, hb⟩

/-- The sign is kept if and only if the signs of components that fit are in their whole parts. -/
theorem decode_sign (p : Int16) (t : IntervalType) (d : Duration) :
    SignKept t d (parseIntervalIso8601 p t d.text) ↔ (d.FitsType t → d.SignsRead) := by
  constructor
  · intro hk hfit
    refine ⟨fun h ↦ ?_, fun h ↦ ?_, fun h hwritten ↦ ?_⟩
    · obtain ⟨ha, -⟩ := (decoded_sign_iff _).mp (hk.nonneg h hfit)
      exact (hfit.accepted_iff.mp ha).1
    · obtain ⟨-, hneg⟩ := (decoded_sign_iff _).mp (hk.negative h hfit)
      intro x hx
      exact (Amount.bint_neg_iff.mp (d.negative_iff.mp hneg x hx)).2
    · by_contra hnone
      have hsigns : SignsFrom 0 d.amounts := by
        refine .inr ⟨le_rfl, fun x hx hb ↦ hnone ⟨x, hx, ?_⟩⟩
        exact Amount.bint_neg_iff.mp hb
      obtain ⟨state, herror, -⟩ := hk.mixed h
      rw [parse_accepted (hfit.accepted_iff.mpr ⟨hwritten, hsigns⟩)] at herror
      cases herror
  · intro hread
    refine ⟨fun h hfit ↦ ?_, fun h hfit ↦ ?_, fun h ↦ ?_⟩
    · have hnone : ∀ x ∈ d.amounts, ¬x.2.bint < 0 := fun x hx ↦ Amount.not_bint_neg (h x hx)
      have ha := hfit.accepted_iff.mpr ⟨(hread hfit).nonneg h, .inr ⟨le_rfl, hnone⟩⟩
      refine (decoded_sign_iff _).mpr ⟨ha, ?_⟩
      rw [← Bool.not_eq_true, d.negative_iff]
      intro hneg
      obtain ⟨x, hx⟩ := List.exists_mem_of_ne_nil _ d.amounts_ne_nil
      exact hnone x hx (hneg x hx)
    · have hwhole := (hread hfit).negative h
      have hneg : ∀ x ∈ d.amounts, x.2.bint < 0 := fun x hx ↦
        Amount.bint_neg_of_value_nonpos (h.1 x hx) (hwhole x hx)
      have hwritten : d.SignsWritten := by
        intro x hx _ hnil
        refine hwhole x hx ?_
        rw [hnil]
        rfl
      have ha := hfit.accepted_iff.mpr ⟨hwritten, .inl ⟨le_rfl, hneg⟩⟩
      exact (decoded_sign_iff _).mpr ⟨ha, d.negative_iff.mpr hneg⟩
    · by_cases ha : d.Accepted t
      · obtain ⟨x, hx, hpos⟩ := h.1
        have hx' := Amount.not_bint_neg hpos.le
        have hfit := ha.fitsType ⟨x, hx, hx'⟩
        obtain ⟨hwritten, hsigns⟩ := hfit.accepted_iff.mp ha
        obtain ⟨y, hy, hyneg⟩ := (hread hfit).mixed h hwritten
        rcases hsigns with ⟨-, hneg⟩ | ⟨-, hnone⟩
        · exact absurd (hneg x hx) hx'
        · exact absurd (Amount.bint_neg_iff.mpr hyneg) (hnone y hy)
      · exact parse_refused ha

/-- `PT-0.5S`. -/
def minusHalf : Duration where
  sign := none
  lowerP := false
  lowerT := false
  year := none
  month := none
  week := none
  day := none
  hour := none
  minute := none
  second := some ⟨some true, digits 0, some (false, digits 5), false, .inl (digits_ne_nil 0)⟩
  written := rfl

/-- Half a second below zero is decoded as half a second. -/
theorem decode_minusHalf :
    (∃ ret, parseIntervalIso8601 1 .second minusHalf.text =
      .ok (ret, ⟨.second, false, ⟨0, 0, 0, 0, 5⟩⟩)) ∧
      ¬ SignKept .second minusHalf (parseIntervalIso8601 1 .second minusHalf.text) := by
  have hparse : parseIntervalIso8601 1 .second minusHalf.text =
      .ok (minusHalf.ret 1, ⟨.second, false, ⟨0, 0, 0, 0, 5⟩⟩) := by decide +kernel
  refine ⟨⟨_, hparse⟩, fun hk ↦ ?_⟩
  have ha : minusHalf.Accepted .second := by
    by_contra hn
    obtain ⟨state, hrefused, -⟩ := parse_refused (p := 1) hn
    rw [hparse] at hrefused
    cases hrefused
  obtain ⟨x, hx, hnone⟩ : ∃ x ∈ minusHalf.amounts, ¬x.2.bint < 0 := by decide +kernel
  have hvalue : ∀ y ∈ minusHalf.amounts, y.2.value < 0 := by decide +kernel
  obtain ⟨ret, i, hi, -, hsign⟩ :=
    hk.negative ⟨fun y hy ↦ (hvalue y hy).le, x, hx, hvalue x hx⟩ (ha.fitsType ⟨x, hx, hnone⟩)
  rw [hparse] at hi
  cases hi
  cases hsign

end EsOdbc
