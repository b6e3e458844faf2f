import EsOdbc.Interval.Collect

/-!
# The fraction at the precision of a column

When the digits that `adjust_to_precision` stores are the ones that are written, or the
first of them where it reports a truncation.
-/

namespace EsOdbc

open Decimal (ofDigits)

/-- Scaling a fraction to a precision is exact.  More digits are added in 64 bits and kept in
32; the count of digits is one of 16 bits, and a power of ten one of 64. -/
def Scales (p : Int16) (ds : List (Fin 10)) : Prop :=
  if Int16.ofNat ds.length < p then
    ofDigits ds = 0 ∨
      ds.length < 2 ^ 15 ∧
        ofDigits ds * 10 ^ (p.toInt.toNat - ds.length) < 2 ^ 32
  else
    ofDigits ds < pow10 ((Int16.ofNat ds.length).toInt - p.toInt).toNat ∨
      ds.length < 2 ^ 15 ∧ (ds.length : ℤ) - p.toInt < 64

instance (p : Int16) (ds : List (Fin 10)) : Decidable (Scales p ds) := by
  unfold Scales
  infer_instance

/-- A number is not left by a product with a multiple of ten of it, cut to 32 bits: it would
have a factor two more each time. -/
theorem eq_zero_of_mul_mod {f q j : ℕ} (hf : f < 2 ^ 32) (hj : j ≠ 0)
    (h : f * 10 ^ j * q % 2 ^ 32 = f) : f = 0 := by
  have hdvd (i : ℕ) (hi : i ≤ 32) : 2 ^ i ∣ f := by
    induction i with
    | zero => exact one_dvd f
    | succ i ih =>
      have hten : 2 ∣ 10 ^ j := (by norm_num : 2 ∣ 10).trans (dvd_pow_self 10 hj)
      have hprod : 2 ^ (i + 1) ∣ f * 10 ^ j * q :=
        (pow_succ 2 i ▸ mul_dvd_mul (ih (by omega)) hten).mul_right q
      rw [← h]
      exact (Nat.dvd_mod_iff (pow_dvd_pow 2 hi)).mpr hprod
  exact Nat.eq_zero_of_dvd_of_lt (hdvd 32 le_rfl) hf

/-- The count of digits as it is passed on. -/
theorem toInt_length {n : ℕ} : (Int16.ofNat n).toInt = (n : ℤ).bmod (2 ^ 16) :=
  Int16.toInt_ofNat'

/-- More digits than there are. -/
theorem scale_up {p : Int16} {ds : List (Fin 10)}
    (hlt : Int16.ofNat ds.length < p) :
    ofDigits ds * pow10 (p.toInt - (Int16.ofNat ds.length).toInt).toNat % 2 ^ 64 % 2 ^ 32 *
        10 ^ ds.length = ofDigits ds * 10 ^ p.toInt.toNat ↔ Scales p ds := by
  have hp := p.toInt_lt
  have hlt' := Int16.lt_iff_toInt_lt.mp hlt
  rw [Scales, if_pos hlt, Nat.mod_mod_of_dvd _ (by norm_num : 2 ^ 32 ∣ 2 ^ 64)]
  set q := pow10 (p.toInt - (Int16.ofNat ds.length).toInt).toNat with hq
  set v := ofDigits ds
  set k := ds.length
  set P := p.toInt.toNat
  constructor
  · intro h
    by_cases hzero : v = 0
    · exact .inl hzero
    · right
      have hk : k < 2 ^ 15 := by
        by_contra hk
        obtain ⟨j, hj⟩ : ∃ j, k = P + j := ⟨k - P, by omega⟩
        have hvj : v = v * q % 2 ^ 32 * 10 ^ j := by
          have hpow : v * q % 2 ^ 32 * 10 ^ j * 10 ^ P = v * 10 ^ P := by
            rw [← h, hj, pow_add]
            ring
          exact (Nat.eq_of_mul_eq_mul_right (by positivity) hpow).symm
        have hf := eq_zero_of_mul_mod (f := v * q % 2 ^ 32) (q := q) (Nat.mod_lt _ (by norm_num))
          (by omega : j ≠ 0) (by rw [← hvj])
        rw [hf, Nat.zero_mul] at hvj
        exact hzero hvj
      refine ⟨hk, ?_⟩
      rw [Int16.toInt_ofNat_of_lt hk] at hlt'
      have hP : P = k + (P - k) := by omega
      rw [hP, pow_add, mul_comm (10 ^ k), ← mul_assoc] at h
      rw [← Nat.eq_of_mul_eq_mul_right (by positivity) h]
      exact Nat.mod_lt _ (by norm_num)
  · rintro (h | ⟨hk, h⟩)
    · rw [h, Nat.zero_mul, Nat.zero_mul, Nat.zero_mod, Nat.zero_mul]
    · rw [Int16.toInt_ofNat_of_lt hk] at hlt' hq
      have hn : (p.toInt - (k : ℤ)).toNat = P - k := by omega
      rw [hn] at hq
      have hP : P = k + (P - k) := by omega
      by_cases hzero : v = 0
      · rw [hzero, Nat.zero_mul, Nat.zero_mul, Nat.zero_mod, Nat.zero_mul]
      · have hten : 10 ^ (P - k) < 2 ^ 32 :=
          (Nat.le_mul_of_pos_left _ (Nat.pos_of_ne_zero hzero)).trans_lt h
        have hsmall : P - k < 64 := by
          by_contra hbig
          have := Nat.pow_le_pow_right (n := 10) (by norm_num) (by omega : 10 ≤ P - k)
          omega
        rw [hq, pow10_eq_mod hsmall, Nat.mod_eq_of_lt (hten.trans (by norm_num)),
          Nat.mod_eq_of_lt h]
        conv_rhs => rw [hP, pow_add]
        ring

/-- Nothing is left of a number of 32 bits without its last digits, where the division is by
another power. -/
theorem ofDigits_take_eq_zero {p : Int16} {ds : List (Fin 10)} (hv : ofDigits ds < 2 ^ 32)
    (hle : ¬ Int16.ofNat ds.length < p)
    (hbad : ¬ (ds.length < 2 ^ 15 ∧ (ds.length : ℤ) - p.toInt < 64)) :
    ofDigits (ds.take p.toInt.toNat) = 0 := by
  rw [Int16.lt_iff_toInt_lt, toInt_length] at hle
  rw [Decimal.ofDigits_take]
  refine Nat.div_eq_of_lt ?_
  rcases lt_or_ge p.toInt 0 with hneg | hpos
  · rw [Int.toNat_of_nonpos hneg.le, Nat.sub_zero]
    exact Decimal.ofDigits_lt ds
  · have hfar : 64 ≤ ds.length - p.toInt.toNat := by
      obtain ⟨c, hc⟩ := Int.dvd_self_sub_bmod (x := (ds.length : ℤ)) (m := 2 ^ 16)
      have hlt := Int.bmod_lt (x := (ds.length : ℤ)) (m := 2 ^ 16) (by norm_num)
      by_cases hshort : ds.length < 2 ^ 15
      · have := not_and.mp hbad hshort
        omega
      · omega
    calc ofDigits ds < 2 ^ 32 := hv
      _ ≤ 10 ^ 64 := by norm_num
      _ ≤ _ := Nat.pow_le_pow_right (by norm_num) hfar

/-- Fewer digits, or as many. -/
theorem scale_down {p : Int16} {ds : List (Fin 10)} (hv : ofDigits ds < 2 ^ 32)
    (hle : ¬ Int16.ofNat ds.length < p) :
    ofDigits ds / pow10 ((Int16.ofNat ds.length).toInt - p.toInt).toNat % 2 ^ 32 *
        10 ^ (ds.take p.toInt.toNat).length =
      ofDigits (ds.take p.toInt.toNat) * 10 ^ p.toInt.toNat ↔
        Scales p ds := by
  rw [Scales, if_neg hle, Nat.mod_eq_of_lt ((Nat.div_le_self _ _).trans_lt hv)]
  by_cases hgood : ds.length < 2 ^ 15 ∧ (ds.length : ℤ) - p.toInt < 64
  · refine ⟨fun _ ↦ .inr hgood, fun _ ↦ ?_⟩
    rw [Int16.lt_iff_toInt_lt, Int16.toInt_ofNat_of_lt hgood.1] at hle
    rw [Int16.toInt_ofNat_of_lt hgood.1, div_pow10 (by omega) hv]
    rcases lt_or_ge p.toInt 0 with hneg | hpos
    · have hzero : ofDigits ds / 10 ^ ((ds.length : ℤ) - p.toInt).toNat = 0 :=
        Nat.div_eq_of_lt ((Decimal.ofDigits_lt ds).trans_le
          (Nat.pow_le_pow_right (by norm_num) (by omega)))
      rw [hzero, Int.toNat_of_nonpos hneg.le]
      rfl
    · have hn : ((ds.length : ℤ) - p.toInt).toNat =
          ds.length - p.toInt.toNat := by omega
      have hlen : (ds.take p.toInt.toNat).length = p.toInt.toNat := by
        rw [List.length_take]
        omega
      rw [hn, hlen, Decimal.ofDigits_take]
  · rw [ofDigits_take_eq_zero hv hle hgood, Nat.zero_mul, Nat.mul_eq_zero,
      or_iff_left (by positivity), Nat.div_eq_zero_iff_lt (pow10_pos _)]
    exact (or_iff_left hgood).symm

/-- The part of a second that digits write. -/
def fractionOf (ds : List (Fin 10)) : ℚ := ofDigits ds / 10 ^ ds.length

/-- The digits that are kept under a return code. -/
def kept (p : Int16) (ret : SqlReturn) (ds : List (Fin 10)) : List (Fin 10) :=
  if ret = .success then ds else ds.take p.toInt.toNat

/-- The fraction that is stored is the part of a second its digits write, exactly when it
scales. -/
theorem adjustToPrecision_iff {p : Int16} {ds : List (Fin 10)}
    (hv : ofDigits ds < 2 ^ 32) :
    let adjusted := adjustToPrecision p (ofDigits ds) (Int16.ofNat ds.length)
    ((adjusted.1 % 2 ^ 32 : ℕ) : ℚ) / 10 ^ p.toInt.toNat =
      fractionOf (kept p adjusted.2 ds) ↔ Scales p ds := by
  have hcross (n m : ℕ) (es : List (Fin 10)) :
      (n : ℚ) / 10 ^ m = fractionOf es ↔ n * 10 ^ es.length = ofDigits es * 10 ^ m := by
    rw [fractionOf, div_eq_div_iff (by positivity) (by positivity)]
    exact_mod_cast Iff.rfl
  intro adjusted
  rw [hcross]
  simp only [adjusted, adjustToPrecision]
  by_cases hlt : Int16.ofNat ds.length < p
  · rw [if_pos hlt]
    exact scale_up hlt
  · rw [if_neg hlt]
    exact scale_down hv hlt

end EsOdbc
