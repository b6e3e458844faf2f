import EsOdbc.Interval.Fraction
import EsOdbc.Interval.Literal

/-!
# Digits dropped from a fraction

Which fractions of a second are stored at the precision of a record as their first digits, with
a truncation reported exactly when a digit other than 0 is left out.
-/

namespace EsOdbc

open Decimal (ofDigits)

/-- The fraction that digits write, at a precision, without what is beyond it. -/
def scaled (p : ℕ) (ds : List (Fin 10)) : ℕ := ofDigits ds * 10 ^ p / 10 ^ ds.length

/-- A digit beyond the precision is not 0. -/
def DropsNonzero (p : ℕ) (ds : List (Fin 10)) : Prop := ∃ d ∈ ds.drop p, d.val ≠ 0

instance (p : ℕ) (ds : List (Fin 10)) : Decidable (DropsNonzero p ds) :=
  inferInstanceAs (Decidable (∃ d ∈ ds.drop p, d.val ≠ 0))

/-- The code for a fraction: `01S07` where a digit other than 0 is dropped. -/
def truncationCode (p : ℕ) (ds : List (Fin 10)) : SqlReturn :=
  if DropsNonzero p ds then SqlState.s01S07.retcode else .success

/-- The power of ten by which a fraction is brought to the precision. -/
def scalePower (p : ℕ) (ds : List (Fin 10)) : ℕ :=
  ((Int16.ofNat p).toInt - (Int16.ofNat ds.length).toInt).natAbs

/-- The fraction fits 32 bits, the power 64, the count of digits 16; and either there are
fewer digits than the precision has, or one that is not 0 is beyond it.  A count of more bits is
that of another fraction, which the same number may suit. -/
def Truncates (p : ℕ) (ds : List (Fin 10)) : Prop :=
  ofDigits ds ≤ ulongMax ∧ scalePower p ds < 20 ∧
    if Int16.ofNat ds.length < Int16.ofNat p then
      ds.length < 2 ^ 15 ∨ ofDigits ds = 0
    else
      DropsNonzero p ds ∧ (ds.length < 2 ^ 15 ∨ ofDigits ds < 10 ^ scalePower p ds)

instance (p : ℕ) (ds : List (Fin 10)) : Decidable (Truncates p ds) := by
  unfold Truncates
  infer_instance

/-! ## Digits -/

theorem scaled_of_le {p : ℕ} {ds : List (Fin 10)} (h : ds.length ≤ p) :
    scaled p ds = ofDigits ds * 10 ^ (p - ds.length) := by
  rw [scaled]
  conv_lhs => rw [← Nat.sub_add_cancel h, pow_add, ← mul_assoc]
  exact Nat.mul_div_cancel _ (by positivity)

theorem scaled_of_ge {p : ℕ} {ds : List (Fin 10)} (h : p ≤ ds.length) :
    scaled p ds = ofDigits ds / 10 ^ (ds.length - p) := by
  rw [scaled]
  conv_lhs => rw [← Nat.sub_add_cancel h, pow_add]
  exact Nat.mul_div_mul_right _ _ (by positivity)

theorem dropsNonzero_iff {p : ℕ} {ds : List (Fin 10)} :
    DropsNonzero p ds ↔ ofDigits (ds.drop p) ≠ 0 := by
  rw [Ne, Decimal.ofDigits_eq_zero, DropsNonzero]
  push Not
  rfl

theorem toInt_precision {p : ℕ} (hp : p < 10) : (Int16.ofNat p).toInt = p :=
  Int16.toInt_ofNat_of_lt (by omega)

theorem ulongMax_lt : ulongMax < 2 ^ 32 := by decide

/-! ## The precision -/

/-- Fewer digits than the precision: nothing is dropped, as far as they are counted. -/
theorem adjust_up {p : ℕ} {ds : List (Fin 10)} (hp : p < 10) (hv : ofDigits ds ≤ ulongMax)
    (hlt : Int16.ofNat ds.length < Int16.ofNat p) :
    ((adjustToPrecision (Int16.ofNat p) (ofDigits ds) (Int16.ofNat ds.length)).1 % 2 ^ 32 =
        scaled p ds ∧ SqlReturn.success = truncationCode p ds ∧
      pow10 (scalePower p ds) = 10 ^ scalePower p ds) ↔
    scalePower p ds < 20 ∧ (ds.length < 2 ^ 15 ∨ ofDigits ds = 0) := by
  have hcount := Int16.lt_iff_toInt_lt.mp hlt
  have hpow : ((Int16.ofNat p).toInt - (Int16.ofNat ds.length).toInt).toNat = scalePower p ds := by
    rw [scalePower]
    omega
  rw [adjustToPrecision, if_pos hlt, hpow, pow10_eq_iff]
  rw [toInt_precision hp] at hcount
  have hnone : SqlReturn.success = truncationCode p ds ↔ ¬DropsNonzero p ds := by
    rw [truncationCode]
    split_ifs with h <;> simp [h, SqlState.retcode]
  rw [hnone]
  constructor
  · rintro ⟨-, hdrop, hsmall⟩
    refine ⟨hsmall, ?_⟩
    rw [dropsNonzero_iff, not_not] at hdrop
    by_contra hlong
    push Not at hlong
    -- the number would be one of its first digits, and too large
    have htake : ofDigits (ds.take p) = 0 := by
      rw [Decimal.ofDigits_take]
      refine Nat.div_eq_of_lt (hv.trans_lt (ulongMax_lt.trans ?_))
      exact (by norm_num : 2 ^ 32 < 10 ^ 10).trans_le (Nat.pow_le_pow_right (by norm_num) (by omega))
    refine hlong.2 ?_
    rw [Decimal.ofDigits_take_drop p, htake, hdrop, Nat.zero_mul]
  · rintro ⟨hsmall, hshort⟩
    by_cases hzero : ofDigits ds = 0
    · have hdrop := Decimal.ofDigits_take_drop p ds
      rw [hzero] at hdrop
      rw [hzero, Nat.zero_mul, scaled, hzero, Nat.zero_mul, Nat.zero_div, dropsNonzero_iff]
      exact ⟨rfl, by omega, hsmall⟩
    · have hshort := hshort.resolve_right hzero
      rw [Int16.toInt_ofNat_of_lt hshort] at hcount
      have hpower : scalePower p ds = p - ds.length := by
        rw [scalePower, toInt_precision hp, Int16.toInt_ofNat_of_lt hshort]
        omega
      have hbound : ofDigits ds * 10 ^ (p - ds.length) < 10 ^ 9 := by
        calc ofDigits ds * 10 ^ (p - ds.length) < 10 ^ ds.length * 10 ^ (p - ds.length) :=
              Nat.mul_lt_mul_of_pos_right (Decimal.ofDigits_lt ds) (by positivity)
          _ = 10 ^ p := by rw [← pow_add]; congr 1; omega
          _ ≤ 10 ^ 9 := Nat.pow_le_pow_right (by norm_num) (by omega)
      refine ⟨?_, ?_, hsmall⟩
      · rw [pow10_eq_iff.mpr hsmall, hpower, scaled_of_le (by omega),
          Nat.mod_eq_of_lt (hbound.trans (by norm_num)), Nat.mod_eq_of_lt (hbound.trans (by norm_num))]
      · rw [dropsNonzero_iff, List.drop_eq_nil_of_le (by omega)]
        exact not_not.mpr rfl

/-- As many digits as the precision, or more: a truncation is reported. -/
theorem adjust_down {p : ℕ} {ds : List (Fin 10)} (hp : p < 10) (hv : ofDigits ds ≤ ulongMax)
    (hle : ¬Int16.ofNat ds.length < Int16.ofNat p) :
    ((adjustToPrecision (Int16.ofNat p) (ofDigits ds) (Int16.ofNat ds.length)).1 % 2 ^ 32 =
        scaled p ds ∧ SqlState.s01S07.retcode = truncationCode p ds ∧
      pow10 (scalePower p ds) = 10 ^ scalePower p ds) ↔
    scalePower p ds < 20 ∧ DropsNonzero p ds ∧
      (ds.length < 2 ^ 15 ∨ ofDigits ds < 10 ^ scalePower p ds) := by
  have hcount := Int16.lt_iff_toInt_lt.not.mp hle
  have hpow : ((Int16.ofNat ds.length).toInt - (Int16.ofNat p).toInt).toNat = scalePower p ds := by
    rw [scalePower]
    omega
  rw [adjustToPrecision, if_neg hle, hpow, pow10_eq_iff]
  rw [toInt_precision hp] at hcount
  have hsome : SqlState.s01S07.retcode = truncationCode p ds ↔ DropsNonzero p ds := by
    rw [truncationCode]
    split_ifs with h <;> simp [h, SqlState.retcode]
  have hv32 := hv.trans_lt ulongMax_lt
  have hstored : scalePower p ds < 20 →
      (ofDigits ds / pow10 (scalePower p ds) % 2 ^ 32 = scaled p ds ↔
        ds.length < 2 ^ 15 ∨ ofDigits ds < 10 ^ scalePower p ds) := by
    intro hsmall
    rw [pow10_eq_iff.mpr hsmall, Nat.mod_eq_of_lt ((Nat.div_le_self _ _).trans_lt hv32)]
    by_cases hshort : ds.length < 2 ^ 15
    · rw [Int16.toInt_ofNat_of_lt hshort] at hcount
      have hpower : scalePower p ds = ds.length - p := by
        rw [scalePower, toInt_precision hp, Int16.toInt_ofNat_of_lt hshort]
        omega
      rw [hpower, scaled_of_ge (by omega)]
      exact iff_of_true rfl (.inl hshort)
    · have hzero : scaled p ds = 0 := by
        rw [scaled_of_ge (by omega)]
        refine Nat.div_eq_of_lt (hv32.trans ?_)
        exact (by norm_num : 2 ^ 32 < 10 ^ 10).trans_le
          (Nat.pow_le_pow_right (by norm_num) (by omega))
      rw [hzero, Nat.div_eq_zero_iff_lt (by positivity), or_iff_right hshort]
  rw [hsome]
  constructor
  · rintro ⟨hval, hdrop, hsmall⟩
    exact ⟨hsmall, hdrop, (hstored hsmall).mp hval⟩
  · rintro ⟨hsmall, hdrop, hlong⟩
    exact ⟨(hstored hsmall).mpr hlong, hdrop, hsmall⟩

/-- `adjust_to_precision` drops digits as it should. -/
theorem adjustToPrecision_truncates {p : ℕ} {ds : List (Fin 10)} (hp : p < 10)
    (hv : ofDigits ds ≤ ulongMax) :
    let adjusted := adjustToPrecision (Int16.ofNat p) (ofDigits ds) (Int16.ofNat ds.length)
    (adjusted.1 % 2 ^ 32 = scaled p ds ∧ adjusted.2 = truncationCode p ds ∧
      pow10 (scalePower p ds) = 10 ^ scalePower p ds) ↔ Truncates p ds := by
  intro adjusted
  rw [Truncates, and_iff_right hv]
  by_cases hlt : Int16.ofNat ds.length < Int16.ofNat p
  · have hret : adjusted.2 = .success := by
      simp only [adjusted, adjustToPrecision, if_pos hlt]
    rw [if_pos hlt, hret]
    exact adjust_up hp hv hlt
  · have hret : adjusted.2 = SqlState.s01S07.retcode := by
      simp only [adjusted, adjustToPrecision, if_neg hlt]
    rw [if_neg hlt, hret]
    exact adjust_down hp hv hlt

/-- What is stored of a fraction is its value at the precision, whatever is reported. -/
def Stored (p : ℕ) (ds : List (Fin 10)) : Prop :=
  if Int16.ofNat ds.length < Int16.ofNat p then
    ds.length < 2 ^ 15 ∨ 2 ^ 32 ∣ ofDigits ds * pow10 (scalePower p ds)
  else
    ds.length < 2 ^ 15 ∧ scalePower p ds < 64 ∨ ofDigits ds < pow10 (scalePower p ds)

theorem scaled_of_long {p : ℕ} {ds : List (Fin 10)} (hv : ofDigits ds ≤ ulongMax)
    (h : p + 10 ≤ ds.length) : scaled p ds = 0 := by
  rw [scaled_of_ge (by omega)]
  refine Nat.div_eq_of_lt (hv.trans_lt (ulongMax_lt.trans ?_))
  exact (by norm_num : 2 ^ 32 < 10 ^ 10).trans_le (Nat.pow_le_pow_right (by norm_num) (by omega))

theorem adjustToPrecision_stored {p : ℕ} {ds : List (Fin 10)} (hp : p < 10)
    (hv : ofDigits ds ≤ ulongMax) :
    (adjustToPrecision (Int16.ofNat p) (ofDigits ds) (Int16.ofNat ds.length)).1 % 2 ^ 32 =
      scaled p ds ↔ Stored p ds := by
  have hv32 := hv.trans_lt ulongMax_lt
  rw [Stored]
  by_cases hlt : Int16.ofNat ds.length < Int16.ofNat p
  · have hcount := Int16.lt_iff_toInt_lt.mp hlt
    have hpow : ((Int16.ofNat p).toInt - (Int16.ofNat ds.length).toInt).toNat =
        scalePower p ds := by
      rw [scalePower]
      omega
    by_cases hshort : ds.length < 2 ^ 15
    · rw [if_pos hlt]
      refine iff_of_true ?_ (.inl hshort)
      have hsmall : scalePower p ds < 20 := by
        rw [toInt_precision hp, Int16.toInt_ofNat_of_lt hshort] at hcount
        rw [scalePower, toInt_precision hp, Int16.toInt_ofNat_of_lt hshort]
        omega
      exact ((adjust_up hp hv hlt).mpr ⟨hsmall, .inl hshort⟩).1
    · rw [if_pos hlt, or_iff_right hshort, scaled_of_long hv (by omega), adjustToPrecision,
        if_pos hlt, hpow, Nat.mod_mod_of_dvd _ (by norm_num : 2 ^ 32 ∣ 2 ^ 64),
        ← Nat.dvd_iff_mod_eq_zero]
  · have hcount := Int16.lt_iff_toInt_lt.not.mp hlt
    have hpow : ((Int16.ofNat ds.length).toInt - (Int16.ofNat p).toInt).toNat =
        scalePower p ds := by
      rw [scalePower]
      omega
    rw [if_neg hlt, adjustToPrecision, if_neg hlt, hpow,
      Nat.mod_eq_of_lt ((Nat.div_le_self _ _).trans_lt hv32)]
    by_cases hgood : ds.length < 2 ^ 15 ∧ scalePower p ds < 64
    · refine iff_of_true ?_ (.inl hgood)
      have hpower : scalePower p ds = ds.length - p := by
        rw [toInt_precision hp, Int16.toInt_ofNat_of_lt hgood.1] at hcount
        rw [scalePower, toInt_precision hp, Int16.toInt_ofNat_of_lt hgood.1]
        omega
      rw [toInt_precision hp, Int16.toInt_ofNat_of_lt hgood.1] at hcount
      rw [div_pow10 hgood.2 hv32, scaled_of_ge (by omega), hpower]
    · have hlong : p + 10 ≤ ds.length := by
        by_contra hle
        rw [toInt_precision hp, Int16.toInt_ofNat_of_lt (by omega)] at hcount
        refine hgood ⟨by omega, ?_⟩
        rw [scalePower, toInt_precision hp, Int16.toInt_ofNat_of_lt (by omega)]
        omega
      rw [or_iff_right hgood, scaled_of_long hv hlong, Nat.div_eq_zero_iff_lt (pow10_pos _)]

/-! ## The parsers -/

/-- `parse_interval_second` stores the fraction, and returns the code for it. -/
def LiteralFraction (p : ℕ) (ds : List (Fin 10)) : Prop :=
  ∀ (r : IvlRec) (limit : ℕ) (second : FieldText) (v : IntVal),
    r.precision.val = p → second.Within r limit → v.fraction = 0 →
      parseIntervalSecond r limit (second.text ++ 0x2E :: digitUnits ds) v =
        .ok (truncationCode p ds,
          { v.set second.value .second with fraction := scaled p ds })

/-- `parse_iso8601_number` stores the fraction, and returns the code for it. -/
def IsoFraction (p : ℕ) (ds : List (Fin 10)) : Prop :=
  ∀ (a : Amount) (c : UInt16) (rest : WStr) (s : IvlScan),
    a.frac = some (false, ds) → a.Fits → EndsNumeral c → c ≠ 0x2E →
      parseIso8601Number (Int16.ofNat p) (a.text ++ c :: rest) s =
        (takeNumber a.bint { s with
          fraction := scaled p ds
          last := some (truncationCode p ds, true) }).map fun s ↦ (s, a.text.length)

theorem read_eq {p : ℕ} {a : Amount} {ds : List (Fin 10)} (hfrac : a.frac = some (false, ds))
    (s : IvlScan) :
    let adjusted := adjustToPrecision (Int16.ofNat p) (ofDigits ds) (Int16.ofNat ds.length)
    a.read (Int16.ofNat p) s =
      { s with fraction := adjusted.1 % 2 ^ 32, last := some (adjusted.2, true) } := by
  have hdigits : a.digits = ds := by simp [Amount.digits, hfrac]
  simp only [Amount.read, Amount.fraction, Amount.ret, Amount.adjusted, hfrac, hdigits,
    Option.isSome_some, if_true]

theorem Truncates.iso {p : ℕ} {ds : List (Fin 10)} (hp : p < 10) (h : Truncates p ds) :
    IsoFraction p ds := by
  intro a c rest s hfrac hfits hc hpoint
  obtain ⟨hval, hcode, -⟩ := (adjustToPrecision_truncates hp h.1).mpr h
  have hfrac' : a.FracFits := by
    intro f hf
    rw [hfrac, Option.mem_some_iff] at hf
    subst hf
    exact ⟨rfl, h.1⟩
  rw [parseIso8601Number_amount _ a rest s (fun f hf ↦ (hfrac' f hf).1) hc hpoint,
    if_pos ⟨hfits, hfrac'⟩, read_eq hfrac, hval, hcode]

theorem Truncates.literal {p : ℕ} {ds : List (Fin 10)} (hp : p < 10) (h : Truncates p ds) :
    LiteralFraction p ds := by
  intro r limit second v hr hwithin hv
  obtain ⟨hval, hcode, -⟩ := (adjustToPrecision_truncates hp h.1).mpr h
  rw [parseIntervalSecond_point _ v hwithin]
  by_cases hds : ds = []
  · subst hds
    have hnone : truncationCode p [] = .success := by
      rw [truncationCode, if_neg (by simp [DropsNonzero])]
    have hzero : scaled p [] = (v.set second.value .second).fraction := by
      simp [scaled, ofDigits, IntVal.set, hv]
    rw [hnone, hzero]
    rfl
  · have hne : digitUnits ds ≠ [] := by simpa using hds
    have hfraction := parseIvlSecFraction_text r ⟨false, ds, .inr hds⟩ (v.set second.value .second)
      hds
    have htext : (FieldText.mk false ds (.inr hds)).text = digitUnits ds := rfl
    have hvalue : (FieldText.mk false ds (.inr hds)).value = ofDigits ds := rfl
    rw [htext, hvalue, digitUnits_length, hr] at hfraction
    rw [if_neg hne, hfraction]
    dsimp only
    rw [if_pos h.1, hval, hcode]

/-- The number `0.f`. -/
def zeroPoint (ds : List (Fin 10)) : Amount :=
  ⟨none, Decimal.digits 0, some (false, ds), false, .inl (Decimal.digits_ne_nil 0)⟩

theorem takeNumber_zero (s : IvlScan) (hs : s.sign = 0) :
    takeNumber 0 s = some { s with uint := 0, sign := s.sign + 1 } := by
  simp [takeNumber, hs, ulongMax]

/-- A fraction that is read as it should be is one that truncates: the number `0.f` shows it. -/
theorem truncates_of_iso {p : ℕ} {ds : List (Fin 10)} (hp : p < 10) (h : IsoFraction p ds)
    (hpow : pow10 (scalePower p ds) = 10 ^ scalePower p ds) : Truncates p ds := by
  have hfits : (zeroPoint ds).Fits := ⟨fun h ↦ absurd h Bool.false_ne_true, Nat.zero_le _⟩
  have hc : EndsNumeral 0x53 := by decide
  have hread := h (zeroPoint ds) 0x53 [] .init rfl hfits hc (by decide)
  have hzero : (zeroPoint ds).bint = 0 := rfl
  rw [parseIso8601Number_amount _ _ _ _ (by simp [zeroPoint]) hc (by decide), read_eq rfl,
    hzero, takeNumber_zero _ rfl, takeNumber_zero _ rfl] at hread
  by_cases hfrac : (zeroPoint ds).FracFits
  · have hv : ofDigits ds ≤ ulongMax := (hfrac _ rfl).2
    rw [if_pos ⟨hfits, hfrac⟩] at hread
    simp only [Option.map_some, Option.some.injEq, Prod.mk.injEq, IvlScan.mk.injEq,
      true_and, and_true] at hread
    exact (adjustToPrecision_truncates hp hv).mp ⟨hread.1, hread.2, hpow⟩
  · rw [if_neg fun h ↦ hfrac h.2] at hread
    cases hread

/-- Which fractions both parsers store as they should. -/
theorem fraction_truncation (p : Fin 10) (ds : List (Fin 10)) :
    (LiteralFraction p ds ∧ IsoFraction p ds ∧
        pow10 (scalePower p ds) = 10 ^ scalePower p ds) ↔ Truncates p ds := by
  constructor
  · rintro ⟨-, hiso, hpow⟩
    exact truncates_of_iso p.isLt hiso hpow
  · intro h
    exact ⟨h.literal p.isLt, h.iso p.isLt, ((adjustToPrecision_truncates p.isLt h.1).mpr h).2.2⟩

/-- Of `1.500` at three digits nothing is dropped, and a truncation is reported. -/
theorem fraction_500 :
    parseIntervalSecond ⟨3, 2⟩ 59 (wstr "1.500") .zero =
        .ok (.successWithInfo, ⟨0, 0, 0, 1, 500⟩) ∧
      ¬(LiteralFraction 3 (Decimal.lastDigits 3 500) ∧ IsoFraction 3 (Decimal.lastDigits 3 500) ∧
        pow10 (scalePower 3 (Decimal.lastDigits 3 500)) =
          10 ^ scalePower 3 (Decimal.lastDigits 3 500)) := by
  constructor
  · decide +kernel
  · rintro ⟨-, hiso, hpow⟩
    have h : Truncates 3 (Decimal.lastDigits 3 500) := truncates_of_iso (by norm_num) hiso hpow
    revert h
    decide +kernel

end EsOdbc
