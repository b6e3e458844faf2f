import EsOdbc.Interval.Balance

/-!
# Decoding a duration keeps its value

The value of a duration is kept exactly on the condition found for an accepted one.
-/

namespace EsOdbc

open Decimal (ofDigits)

theorem scales_nil (p : Int16) : Scales p [] := by
  unfold Scales
  split
  · exact .inl rfl
  · exact .inl (pow10_pos _)

theorem fractionOf_nil : fractionOf [] = 0 := by simp [fractionOf, Decimal.ofDigits]

theorem fractionOf_eq_zero {ds : List (Fin 10)} : fractionOf ds = 0 ↔ ofDigits ds = 0 := by
  rw [fractionOf, div_eq_zero_iff, or_iff_left (by positivity), Nat.cast_eq_zero]

theorem fractionOf_nonneg (ds : List (Fin 10)) : 0 ≤ fractionOf ds := by
  unfold fractionOf
  positivity

theorem fractionOf_lt_one (ds : List (Fin 10)) : fractionOf ds < 1 := by
  rw [fractionOf, div_lt_one (by positivity)]
  exact_mod_cast Decimal.ofDigits_lt ds

/-- Where a fraction scales, the digits kept under its return code are zero with the first
digits of the precision. -/
theorem kept_eq_zero {p : Int16} {ds : List (Fin 10)} (h : Scales p ds) :
    let ret := (adjustToPrecision p (ofDigits ds) (Int16.ofNat ds.length)).2
    ofDigits (kept p ret ds) = 0 ↔ ofDigits (ds.take p.toInt.toNat) = 0 := by
  intro ret
  by_cases hlt : Int16.ofNat ds.length < p
  · have hret : ret = .success := by simp only [ret, adjustToPrecision, if_pos hlt]
    rw [kept, if_pos hret]
    rw [Scales, if_pos hlt] at h
    rcases h with hz | ⟨hk, _⟩
    · rw [Decimal.ofDigits_take, hz, Nat.zero_div]
    · rw [Int16.lt_iff_toInt_lt, Int16.toInt_ofNat_of_lt hk] at hlt
      rw [List.take_of_length_le (by omega)]
  · have hret : ret = .successWithInfo := by
      simp only [ret, adjustToPrecision, if_neg hlt]
      rfl
    rw [kept, if_neg (by rw [hret]; decide)]

namespace Duration

/-- The fraction of the seconds, the code and the digits that go with it: those of a number
that has one, or none. -/
theorem fraction_cases {p : Int16} {d : Duration} (h : d.Readable) :
    (d.fraction p = 0 ∧ d.ret p = .success ∧ d.secondDigits = []) ∨
      let ds := d.secondDigits
      let adjusted := adjustToPrecision p (ofDigits ds) (Int16.ofNat ds.length)
      ofDigits ds < 2 ^ 32 ∧ d.fraction p = adjusted.1 % 2 ^ 32 ∧
        d.ret p = adjusted.2 := by
  rw [fraction, ret, secondDigits]
  cases ha : d.second with
  | none => exact .inl ⟨rfl, rfl, rfl⟩
  | some a =>
    simp only [Option.elim_some, Amount.fraction, Amount.ret, Amount.adjusted]
    cases hf : a.frac with
    | none => exact .inl ⟨rfl, rfl, by rw [Amount.digits, hf]; rfl⟩
    | some f =>
      refine .inr ⟨?_, rfl, rfl⟩
      have hfits := (h.taken _ (mem_amounts (u := .second) rfl ha)).frac f hf
      have hmax : ulongMax = 2 ^ 32 - 1 := rfl
      rw [Amount.digits, hf]
      show ofDigits f.2 < 2 ^ 32
      omega

theorem ret_cases {p : Int16} {d : Duration} (h : d.Readable) :
    d.ret p = .success ∨ d.ret p = .successWithInfo := by
  rcases fraction_cases (p := p) h with ⟨_, hret, _⟩ | ⟨_, _, hret⟩
  · exact .inl hret
  · rw [hret, adjustToPrecision]
    split
    · exact .inl rfl
    · exact .inr rfl

/-- The digits that are kept of the fraction. -/
def keptDigits (p : Int16) (d : Duration) : List (Fin 10) :=
  kept p (d.ret p) d.secondDigits

/-- The fraction is the one of the digits that are kept, exactly when it scales. -/
theorem fraction_iff {p : Int16} {d : Duration} (h : d.Readable) :
    (d.fraction p : ℚ) / 10 ^ p.toInt.toNat =
      fractionOf (d.keptDigits p) ↔ Scales p d.secondDigits := by
  rw [keptDigits]
  rcases fraction_cases (p := p) h with ⟨hf, hret, hds⟩ | ⟨hv, hf, hret⟩
  · rw [hf, hret, hds, kept, if_pos rfl, fractionOf_nil, Nat.cast_zero, zero_div]
    exact iff_of_true rfl (scales_nil p)
  · rw [hf, hret]
    exact adjustToPrecision_iff hv

/-- The kept digits are zero with the first digits of the precision. -/
theorem keptDigits_eq_zero {p : Int16} {d : Duration} (h : d.Readable)
    (hs : Scales p d.secondDigits) :
    fractionOf (d.keptDigits p) = 0 ↔
      ofDigits (d.secondDigits.take p.toInt.toNat) = 0 := by
  rw [fractionOf_eq_zero, keptDigits]
  rcases fraction_cases (p := p) h with ⟨_, hret, hds⟩ | ⟨_, _, hret⟩
  · rw [hret, hds, kept, if_pos rfl, List.take_nil]
  · rw [hret]
    exact kept_eq_zero hs

theorem fraction_le (p : Int16) {d : Duration} (h : d.Readable) :
    (d.fraction p : ℚ) / 10 ^ p.toInt.toNat ≤ 2 ^ 32 - 1 := by
  have hle : d.fraction p ≤ 2 ^ 32 - 1 := by
    rcases fraction_cases (p := p) h with ⟨hf, _, _⟩ | ⟨_, hf, _⟩
    · omega
    · have := Nat.mod_lt (adjustToPrecision p (ofDigits d.secondDigits)
        (Int16.ofNat d.secondDigits.length)).1 (by norm_num : 0 < 2 ^ 32)
      omega
  have hcast : (d.fraction p : ℚ) ≤ 2 ^ 32 - 1 := by
    have : (d.fraction p : ℚ) ≤ ((2 ^ 32 - 1 : ℕ) : ℚ) := by exact_mod_cast hle
    exact this.trans (by norm_num)
  have hten : (1 : ℚ) ≤ 10 ^ p.toInt.toNat := one_le_pow₀ (by norm_num)
  exact (div_le_self (by positivity) hten).trans hcast

theorem sgn_cases (d : Duration) : d.sgn = 1 ∨ d.sgn = -1 := by
  rw [sgn]
  split
  · exact .inr rfl
  · exact .inl rfl

theorem secondSgn_cases (d : Duration) : d.secondSgn = 1 ∨ d.secondSgn = -1 := by
  rw [secondSgn]
  cases d.second with
  | none => exact d.sgn_cases
  | some a =>
    rw [Option.elim_some]
    split
    · exact .inr rfl
    · exact .inl rfl

/-- The sign of the seconds is the one of the interval, but for a minus before `0`. -/
theorem secondSgn_iff {d : Duration} (h : d.Readable) :
    (d.sgn = -1 → d.secondSgn = -1) ∧ (d.secondSgn = d.sgn ↔
      ∀ a ∈ d.second, a.negative = true → ofDigits a.whole ≠ 0) := by
  have hone : (1 : ℚ) ≠ -1 := by norm_num
  cases ha : d.second with
  | none =>
    have hsec : d.secondSgn = d.sgn := by rw [secondSgn, ha, Option.elim_none]
    rw [hsec]
    refine ⟨id, iff_of_true rfl ?_⟩
    rintro a ⟨⟩
  | some a =>
    have hb := bint_neg_iff h (mem_amounts (u := .second) rfl ha)
    have hbint : a.bint < 0 ↔ a.negative = true ∧ ofDigits a.whole ≠ 0 := by
      rw [Amount.bint]
      cases a.negative <;> simp [Nat.pos_iff_ne_zero]
    rw [hbint] at hb
    have hmem : (∀ b ∈ some a, b.negative = true → ofDigits b.whole ≠ 0) ↔
        (a.negative = true → ofDigits a.whole ≠ 0) := by simp
    rw [hmem, secondSgn, ha, Option.elim_some, sgn]
    cases hneg : a.negative <;> cases hd : d.negative <;>
      simp_all [hone.symm]

theorem val_gap (d : Duration) (f : IvlField) :
    d.val f = d.num f ∨ d.val f + 2 ^ 32 ≤ d.num f := by
  have hmin : llongMin = 2 ^ 63 := rfl
  rw [val_eq]
  split <;> omega

/-- A sum of 32-bit products is the sum it stands for, or less by more than 32 bits. -/
theorem products_gap {s mi h dy s' mi' h' dy' : ℕ} (hs : s = s' ∨ s + 2 ^ 32 ≤ s')
    (hmi : mi = mi' ∨ mi + 2 ^ 32 ≤ mi') (hh : h = h' ∨ h + 2 ^ 32 ≤ h')
    (hdy : dy = dy' ∨ dy + 2 ^ 32 ≤ dy') {a b c : ℕ}
    (ha : a = 60 * mi ∨ a + 2 ^ 32 ≤ 60 * mi) (hb : b = 3600 * h ∨ b + 2 ^ 32 ≤ 3600 * h)
    (hc : c = 24 * 3600 * dy ∨ c + 2 ^ 32 ≤ 24 * 3600 * dy) :
    s + a + b + c = 86400 * dy' + 3600 * h' + 60 * mi' + s' ∨
      s + a + b + c + 2 ^ 32 ≤ 86400 * dy' + 3600 * h' + 60 * mi' + s' := by
  omega

theorem mod_gap (n : ℕ) : n % 2 ^ 32 = n ∨ n % 2 ^ 32 + 2 ^ 32 ≤ n := by
  omega

/-- In an accepted duration of the months that are stored, the seconds are right, or have no
fraction, or miss by more than a fraction makes up for. -/
theorem seconds_gap {p : Int16} {t : IntervalType} {d : Duration} (h : d.Accepted t)
    (hmonths : monthsIn t (d.decoded p t) = d.months) :
    secsIn t (d.decoded p t) = d.total ∨
      (d.fraction p = 0 ∧ d.secondDigits = []) ∨
      secsIn t (d.decoded p t) + 2 ^ 32 ≤ d.total := by
  have hs := d.val_gap .second
  have hmi := d.val_gap .minute
  have hh := d.val_gap .hour
  have hd := d.val_gap .day
  by_cases hreb : Rebalanced t d
  · by_cases hsec : .second ∈ type2bm t
    · obtain ⟨hzero, hsecs⟩ := decoded_balanced (p := p) hreb
      obtain ⟨hyear, hmonth⟩ := val_year_month (hmonths.symm.trans hzero)
      have hfine : finest t = 1 := by rw [finest, if_pos hsec]
      rw [hfine, Nat.mod_one, add_zero, secsOf_slots hyear hmonth] at hsecs
      rw [hsecs]
      rcases products_gap hs hmi hh hd (mod_gap _) (mod_gap _) (mod_gap _) with hg | hg
      · exact .inl hg
      · exact .inr (.inr hg)
    · refine .inr (.inl (fraction_eq_zero p ?_))
      rw [← Bool.not_eq_true]
      exact fun hf ↦ hsec (h.place hreb hf)
  · have hsecs := (slots_within (p := p) (h.within hreb)).2
    rw [decoded, if_neg hreb, hsecs, total]
    rcases products_gap hs hmi hh hd (.inl rfl) (.inl rfl) (.inl rfl) with hg | hg
    · left; omega
    · right; right; omega

end Duration

/-- The fields that are stored are the duration on the conditions on the whole numbers. -/
theorem fields_iff {p : Int16} {t : IntervalType} {d : Duration} (h : d.Accepted t) :
    monthsIn t (d.decoded p t) = d.months ∧ secsIn t (d.decoded p t) = d.total ↔
      (∀ f, d.num f ≠ llongMin) ∧ (Rebalanced t d → d.months = 0 ∧ 60 * d.num .minute < 2 ^ 32 ∧
        3600 * d.num .hour < 2 ^ 32 ∧ 86400 * d.num .day < 2 ^ 32 ∧ finest t ∣ d.total) := by
  by_cases hreb : Rebalanced t d
  · rw [balanced_iff hreb]
    simp only [hreb, forall_const]
  · rw [Duration.decoded, if_neg hreb, within_iff (h.within hreb)]
    simp only [hreb, false_implies, and_true]

/-- The sign of the seconds is right, or it does not matter. -/
theorem sign_iff {p : Int16} {d : Duration} (h : d.Readable)
    (hs : Scales p d.secondDigits) :
    (d.secondSgn = d.sgn ∨ fractionOf (d.keptDigits p) = 0) ↔
      ∀ a ∈ d.second, a.negative = true → ofDigits a.whole = 0 →
        ofDigits (a.digits.take p.toInt.toNat) = 0 := by
  rw [(Duration.secondSgn_iff h).2, Duration.keptDigits_eq_zero h hs, Duration.secondDigits]
  cases d.second with
  | none =>
    have hnone : ∀ a ∈ (none : Option Amount), ¬ a.negative = true := by
      rintro a ⟨⟩
    exact iff_of_true (.inl fun a ha hn ↦ absurd hn (hnone a ha)) fun a ha hn ↦ absurd hn (hnone a ha)
  | some a =>
    simp only [Option.mem_def, Option.some.injEq, forall_eq', Option.elim_some]
    tauto

/-- `P1Y`. -/
def oneYear : Duration where
  sign := none
  lowerP := false
  lowerT := false
  year := some ⟨none, [1], none, false, by decide⟩
  month := none
  week := none
  day := none
  hour := none
  minute := none
  second := none
  written := rfl

end EsOdbc
