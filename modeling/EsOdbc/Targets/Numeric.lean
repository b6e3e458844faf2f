import EsOdbc.Targets.Double

/-!
# Scaled decimals

`double_to_numeric` and `numeric_to_double` of `convert.c`, over numbers as they are: what
`SQL_NUMERIC_STRUCT` stands for is a magnitude by a power of ten.  A cast to a 64-bit integer that
has no place for the number, and the negative of the least one, are not defined.
-/

namespace EsOdbc

open Binary
open LittleEndian (intBytes)

/-! ## Model -/

/-- `SQL_NUMERIC_STRUCT`. -/
structure NumericStruct where
  precision : UInt8
  scale : Int8
  sign : UInt8
  val : List UInt8
  length_val : val.length = 16
deriving DecidableEq

/-- The magnitude in 64 bits; the other bytes are zero. -/
def NumericStruct.store (n : NumericStruct) (precision : UInt8) (ullng : ℤ) : NumericStruct :=
  { n with
    precision
    val := intBytes 8 ullng ++ List.replicate 8 0
    length_val := by rw [List.length_append, LittleEndian.length_intBytes, List.length_replicate] }

/-- The turns of the loop that counts digits. -/
def digitCount (n : ℕ) : ℕ := if n = 0 then 0 else digitCount (n / 10) + 1
termination_by n
decreasing_by omega

namespace DoubleOps

/-- The product with a number that is positive. -/
def mul (p : ℚ) : Double → Double
  | .fin q => toDouble (q * p)
  | x => x

/-- The quotient by a number that is positive. -/
def div (p : ℚ) : Double → Double
  | .fin q => toDouble (q / p)
  | x => x

end DoubleOps

/-- The power of ten as a `double`. -/
def dblPow10 (n : ℕ) : ℚ := binary64.round (pow10 n)

/-- The requested precision is less than that of the number. -/
def overPrecise (precision prec : Int16) : Bool := 255 < prec || 0 < precision && precision < prec

/-- The number that `double_to_numeric` casts; none where the scale is refused. -/
def scaleNumeric (scale : Int16) (src : Double) : Option Double :=
  let pow := dblPow10 scale.toInt.natAbs
  if scale < 0 then some (DoubleOps.div pow src)
  else if 0 < scale then
    if (toDouble (dblMax / pow)).lt src then none else some (DoubleOps.mul pow src)
  else some src

/-- `double_to_numeric`, for a descriptor record with this precision and scale. -/
def doubleToNumeric (precision scale : Int16) (src : Double) (dst : NumericStruct) :
    Exec (SqlState × NumericStruct) :=
  let positive := Double.le (.fin 0) src
  let dst := { dst with scale := scale.toInt8, sign := if positive then 1 else 0 }
  match (if positive then src else src.neg).toInt 0 (2 ^ 64) with
  | none => .undefined
  | some ullng =>
    match scaleNumeric scale src with
    | none => .done (.s22003, dst)
    | some scaled =>
      match scaled.toInt (-2 ^ 63) (2 ^ 63) with
      | none => .undefined
      | some llng =>
        let prec := Int16.ofInt (digitCount ullng.toNat + scale.toInt)
        if !positive && llng = -2 ^ 63 then .undefined
        else if overPrecise precision prec then .done (.s22003, dst)
        else .done (.s00000, dst.store (if prec < 0 then 0 else UInt8.ofInt prec.toInt)
          (if positive then llng else -llng))

/-- The number that `numeric_to_double` has scaled; none where it is refused. -/
def scaleDouble (scale : ℤ) (dbl : ℚ) : Option Double :=
  let pow := dblPow10 scale.natAbs
  if scale < 0 then
    if (toDouble (dblMax / pow)).lt (.fin dbl) then none else some (DoubleOps.mul pow (.fin dbl))
  else if 0 < scale then some (DoubleOps.div pow (.fin dbl))
  else some (.fin dbl)

/-- `numeric_to_double`, for a descriptor record with this precision. -/
def numericToDouble (precision : Int16) (n : NumericStruct) : Except SqlState Double :=
  if LittleEndian.value (n.val.drop 8) ≠ 0 then .error .s22003
  else
    let ullng := LittleEndian.value (n.val.take 8)
    let dbl := binary64.round ullng
    if dblMax < dbl then .error .s22003
    else
      match scaleDouble n.scale.toInt dbl with
      | none => .error .s22003
      | some dbl =>
        let prec := Int16.ofInt (digitCount ullng - n.scale.toInt)
        if overPrecise precision prec then .error .s22003
        else .ok (if n.sign = 0 then dbl.neg else dbl)

/-! ## What the numbers stand for -/

/-- The number that the structure denotes. -/
def NumericStruct.number (n : NumericStruct) : ℚ :=
  (if n.sign = 0 then -1 else 1) * LittleEndian.value n.val * (10 : ℚ) ^ (-n.scale.toInt)

/-- A number is refused, or stored with what is behind the scale cut off, and the power of ten
is one. -/
def StoresTruncated (precision scale : Int16) (src : Double) (dst : NumericStruct) : Prop :=
  ∀ q, numberOf src = some q → pow10 scale.toInt.natAbs = 10 ^ scale.toInt.natAbs ∧
    ∃ state n, doubleToNumeric precision scale src dst = .done (state, n) ∧
      (state = .s22003 ∨ state = .s00000 ∧ n.scale.toInt = scale.toInt ∧
        n.number = wholePart (q * (10 : ℚ) ^ scale.toInt) * (10 : ℚ) ^ (-scale.toInt))

/-- A structure is refused, or read as the `double` that is nearest to the number it denotes. -/
def ReadsNumber (precision : Int16) (n : NumericStruct) : Prop :=
  numericToDouble precision n = .error .s22003 ∨
    ∃ dbl, numericToDouble precision n = .ok dbl ∧ numberOf dbl = some (binary64.round n.number)

/-! ## Bounds -/

theorem digitCount_le {n k : ℕ} (h : n < 10 ^ k) : digitCount n ≤ k := by
  induction k generalizing n with
  | zero =>
    obtain rfl : n = 0 := by simpa using h
    rw [digitCount, if_pos rfl]
  | succ k ih =>
    rw [digitCount]
    split_ifs
    · exact Nat.zero_le _
    · exact Nat.succ_le_succ (ih (Nat.div_lt_of_lt_mul (by rwa [← pow_succ'])))

/-- The precision of a number that is not out of all bounds. -/
theorem overPrecise_iff {precision : Int16} {k : ℤ} (hlow : -2 ^ 15 ≤ k) (hhigh : k ≤ 255) :
    overPrecise precision (Int16.ofInt k) = true ↔
      0 < precision.toInt ∧ precision.toInt < k := by
  have hk : (Int16.ofInt k).toInt = k := Int16.toInt_ofInt_of_le hlow (by omega)
  have h255 : (255 : Int16).toInt = 255 := rfl
  rw [overPrecise, Bool.or_eq_true, Bool.and_eq_true, decide_eq_true_eq, decide_eq_true_eq,
    decide_eq_true_eq, Int16.lt_iff_toInt_lt, Int16.lt_iff_toInt_lt, Int16.lt_iff_toInt_lt, hk, h255,
    or_iff_right (by omega)]
  rfl

theorem holds_ten_pow {n : ℕ} (h : n < 20) : binary64.Holds (10 ^ n) := by
  refine ⟨5 ^ n, n, ?_, ?_, ?_⟩
  · have hmin : binary64.emin = -1074 := rfl
    omega
  · rw [abs_of_pos (by positivity)]
    have hprec : binary64.prec = 53 := rfl
    rw [hprec]
    exact (pow_le_pow_right₀ (by norm_num) (by omega : n ≤ 19)).trans_lt (by norm_num)
  · rw [zpow_natCast, Int.cast_pow, Int.cast_ofNat, ← mul_pow]
    norm_num

theorem dblPow10_eq {n : ℕ} (h : n < 20) : dblPow10 n = 10 ^ n := by
  rw [dblPow10, pow10_eq_iff.mpr h, Nat.cast_pow, Nat.cast_ofNat]
  exact binary64.round_holds (holds_ten_pow h)

theorem dblMax_large : (2 : ℚ) ^ 1000 ≤ dblMax := by
  have hpow : (2 : ℚ) ^ 1000 = 2 ^ 29 * 2 ^ 971 := by rw [← pow_add]
  rw [dblMax, hpow]
  exact mul_le_mul_of_nonneg_right (by norm_num) (by positivity)

theorem wholePart_neg (q : ℚ) : wholePart (-q) = -wholePart q := by
  unfold wholePart
  rcases lt_trichotomy q 0 with h | rfl | h
  · rw [if_pos h, if_neg (by linarith), Int.floor_neg]
  · simp
  · rw [if_neg h.not_gt, if_pos (by linarith), Int.ceil_neg]

theorem wholePart_nonneg {q : ℚ} (h : 0 ≤ q) : 0 ≤ wholePart q := by
  rw [wholePart, if_neg (not_lt.mpr h)]
  exact Int.floor_nonneg.mpr h

/-- The whole part is the largest integer that is no larger. -/
theorem abs_wholePart_lt {q : ℚ} {k : ℕ} : |wholePart q| < k ↔ |q| < k := by
  rcases le_total 0 q with h | h
  · rw [abs_of_nonneg (wholePart_nonneg h), abs_of_nonneg h, wholePart, if_neg (not_lt.mpr h),
      Int.floor_lt, Int.cast_natCast]
  · have hneg := neg_nonneg.mpr h
    rw [← abs_neg, ← wholePart_neg, abs_of_nonneg (wholePart_nonneg hneg), ← abs_neg,
      abs_of_nonneg hneg, wholePart, if_neg (not_lt.mpr hneg), Int.floor_lt, Int.cast_natCast]

/-- The cast of a number to `long long`. -/
def castLong (q : ℚ) : Option ℤ :=
  if -2 ^ 63 ≤ wholePart q ∧ wholePart q < 2 ^ 63 then some (wholePart q) else none

theorem castLong_eq_some {q : ℚ} {z : ℤ} :
    castLong q = some z ↔ z = wholePart q ∧ -2 ^ 63 ≤ z ∧ z < 2 ^ 63 := by
  unfold castLong
  split_ifs with h
  · rw [Option.some.injEq]
    constructor
    · rintro rfl
      exact ⟨rfl, h⟩
    · rintro ⟨rfl, -⟩
      rfl
  · refine ⟨nofun, ?_⟩
    rintro ⟨rfl, hz⟩
    exact absurd hz h

theorem toInt_toDouble (x : ℚ) :
    (toDouble x).toInt (-2 ^ 63) (2 ^ 63) = castLong (binary64.round x) := by
  unfold toDouble
  split_ifs with h
  · have hout : ¬|wholePart (binary64.round x)| < ((2 ^ 64 : ℕ) : ℤ) := by
      rw [abs_wholePart_lt, not_lt, Nat.cast_pow, Nat.cast_ofNat]
      exact ((pow_le_pow_right₀ (by norm_num) (by norm_num)).trans dblMax_large).trans h.le
    refine (if_neg fun hc ↦ hout ?_).symm
    rw [abs_lt]
    have hbig : ((2 ^ 64 : ℕ) : ℤ) = 2 ^ 64 := by norm_num
    rw [hbig]
    omega
  · rfl

/-! ## From a number -/

/-- A number at a scale, in a `double`. -/
def scaledTo (scale : ℤ) (q : ℚ) : ℚ :=
  if scale = 0 then q else binary64.round (q * (10 : ℚ) ^ scale)

theorem dblPow10_zpow {scale : ℤ} (h : scale.natAbs < 20) :
    dblPow10 scale.natAbs = if scale < 0 then ((10 : ℚ) ^ scale)⁻¹ else (10 : ℚ) ^ scale := by
  rw [dblPow10_eq h]
  split_ifs with hneg
  · rw [← zpow_neg, ← zpow_natCast, Int.ofNat_natAbs_of_nonpos hneg.le]
  · rw [← zpow_natCast, Int.natAbs_of_nonneg (not_lt.mp hneg)]

theorem mul_toInt {src : Double} {q : ℚ} (h : numberOf src = some q) (p : ℚ) :
    (DoubleOps.mul p src).toInt (-2 ^ 63) (2 ^ 63) = castLong (binary64.round (q * p)) := by
  cases src with
  | fin r =>
    obtain rfl : r = q := by simpa [numberOf] using h
    exact toInt_toDouble _
  | negZero =>
    obtain rfl : 0 = q := by simpa [numberOf] using h
    rw [zero_mul, Format.round_zero]
    change Double.negZero.toInt (-2 ^ 63) (2 ^ 63) = castLong 0
    decide +kernel
  | inf neg => simp [numberOf] at h
  | nan => simp [numberOf] at h

theorem div_eq_mul (p : ℚ) (src : Double) : DoubleOps.div p src = DoubleOps.mul p⁻¹ src := by
  cases src with
  | fin q => rw [DoubleOps.div, DoubleOps.mul, div_eq_mul_inv]
  | negZero | inf _ | nan => rfl

theorem numberOf_bounds {src : Double} {q : ℚ} (h : numberOf src = some q) :
    Double.le (.fin 0) src = decide (0 ≤ q) ∧ ∀ r, (Double.fin r).lt src = decide (r < q) := by
  cases src with
  | fin p =>
    obtain rfl : p = q := by simpa [numberOf] using h
    exact ⟨rfl, fun _ ↦ rfl⟩
  | negZero =>
    obtain rfl : 0 = q := by simpa [numberOf] using h
    exact ⟨rfl, fun _ ↦ rfl⟩
  | inf neg => simp [numberOf] at h
  | nan => simp [numberOf] at h

theorem holds_two_pow64 : binary64.Holds (2 ^ 64) := ⟨1, 64, by decide, by decide, by norm_num⟩

/-- Whatever the power of ten wraps to. -/
theorem dblPow10_bounds (n : ℕ) : 1 ≤ dblPow10 n ∧ dblPow10 n ≤ 2 ^ 64 := by
  have hone : binary64.round 1 = 1 :=
    binary64.round_holds ⟨1, 0, by decide, by decide, by norm_num⟩
  constructor
  · rw [← hone]
    exact binary64.round_mono (by exact_mod_cast pow10_pos n)
  · rw [← binary64.round_holds holds_two_pow64]
    exact binary64.round_mono (by exact_mod_cast (pow10_lt n).le)

/-- The limit that a number is compared with is beyond 64 bits. -/
theorem limit_ge (n : ℕ) {q : ℚ} (hq : |q| ≤ 2 ^ 64) :
    ∃ r, toDouble (dblMax / dblPow10 n) = .fin r ∧ ¬r < q := by
  obtain ⟨hone, hten⟩ := dblPow10_bounds n
  have hpos : 0 < dblPow10 n := lt_of_lt_of_le one_pos hone
  have hmax : (0 : ℚ) < dblMax := lt_of_lt_of_le (by positivity) dblMax_large
  have hlow : (2 : ℚ) ^ 64 ≤ dblMax / dblPow10 n := by
    rw [le_div_iff₀ hpos]
    calc (2 : ℚ) ^ 64 * dblPow10 n ≤ 2 ^ 64 * 2 ^ 64 := mul_le_mul_of_nonneg_left hten (by positivity)
      _ ≤ 2 ^ 1000 := by rw [← pow_add]; exact pow_le_pow_right₀ (by norm_num) (by norm_num)
      _ ≤ dblMax := dblMax_large
  have hround : (2 : ℚ) ^ 64 ≤ binary64.round (dblMax / dblPow10 n) := by
    rw [← binary64.round_holds holds_two_pow64]
    exact binary64.round_mono hlow
  have hhigh : binary64.round (dblMax / dblPow10 n) ≤ dblMax := by
    conv_rhs => rw [← binary64.round_holds holds_dblMax]
    exact binary64.round_mono (div_le_self hmax.le hone)
  refine ⟨binary64.round (dblMax / dblPow10 n), ?_, ?_⟩
  · rw [toDouble, if_neg]
    rw [abs_of_nonneg (le_trans (by positivity) hround), not_lt]
    exact hhigh
  · exact not_lt.mpr (((le_abs_self q).trans hq).trans hround)

/-- What is cast is the number at the scale. -/
theorem scaleNumeric_toInt {scale : Int16} (hs : scale.toInt.natAbs < 20) {src : Double} {q : ℚ}
    (h : numberOf src = some q) (hq : |q| ≤ 2 ^ 64) :
    ∃ d, scaleNumeric scale src = some d ∧
      d.toInt (-2 ^ 63) (2 ^ 63) = castLong (scaledTo scale.toInt q) := by
  have hzero : (0 : Int16).toInt = 0 := rfl
  have hpow := dblPow10_zpow hs
  simp only [scaleNumeric, Int16.lt_iff_toInt_lt, hzero]
  rcases lt_trichotomy scale.toInt 0 with hneg | heq | hpos
  · rw [if_pos hneg] at hpow ⊢
    refine ⟨_, rfl, ?_⟩
    rw [div_eq_mul, mul_toInt h, hpow, inv_inv, scaledTo, if_neg hneg.ne]
  · rw [if_neg heq.not_lt, if_neg heq.not_gt]
    refine ⟨_, rfl, ?_⟩
    rw [scaledTo, if_pos heq]
    exact toInt_of_number h _ _
  · rw [if_neg hpos.not_gt] at hpow ⊢
    obtain ⟨r, hr, hlt⟩ := limit_ge scale.toInt.natAbs hq
    rw [if_pos hpos, hr, (numberOf_bounds h).2, decide_eq_false hlt, if_neg Bool.false_ne_true]
    refine ⟨_, rfl, ?_⟩
    rw [mul_toInt h, hpow, scaledTo, if_neg hpos.ne']

theorem numberOf_neg {src : Double} {q : ℚ} (h : numberOf src = some q) :
    numberOf src.neg = some (-q) := by
  cases src with
  | fin p =>
    obtain rfl : p = q := by simpa [numberOf] using h
    rw [Double.neg]
    split_ifs with hp
    · rw [hp, neg_zero]
      rfl
    · rfl
  | negZero =>
    obtain rfl : 0 = q := by simpa [numberOf] using h
    rw [neg_zero]
    rfl
  | inf neg => simp [numberOf] at h
  | nan => simp [numberOf] at h

theorem wholePart_abs (q : ℚ) : wholePart |q| = |wholePart q| := by
  rcases le_total 0 q with h | h
  · rw [abs_of_nonneg h, abs_of_nonneg (wholePart_nonneg h)]
  · have hneg := wholePart_nonneg (neg_nonneg.mpr h)
    rw [abs_of_nonpos h, ← abs_neg (wholePart q), ← wholePart_neg, abs_of_nonneg hneg]

/-- The first cast, of the number without its sign. -/
theorem magnitude_toInt {src : Double} {q : ℚ} (h : numberOf src = some q) :
    (if Double.le (.fin 0) src then src else src.neg).toInt 0 (2 ^ 64) =
      if |wholePart q| < 2 ^ 64 then some |wholePart q| else none := by
  have habs : numberOf (if Double.le (.fin 0) src then src else src.neg) = some |q| := by
    rw [(numberOf_bounds h).1]
    by_cases hq : 0 ≤ q
    · rw [decide_eq_true hq, if_pos rfl, h, abs_of_nonneg hq]
    · rw [decide_eq_false hq, if_neg Bool.false_ne_true, numberOf_neg h,
        abs_of_neg (not_le.mp hq)]
  rw [toInt_of_number habs, wholePart_abs]
  exact if_congr (and_iff_right (abs_nonneg _)) rfl rfl

theorem scaledTo_nonneg {scale : ℤ} {q : ℚ} (h : 0 ≤ q) : 0 ≤ scaledTo scale q := by
  rw [scaledTo]
  split_ifs
  · exact h
  · rw [← binary64.round_zero]
    exact binary64.round_mono (by positivity)

theorem scaledTo_neg (scale : ℤ) (q : ℚ) : scaledTo scale (-q) = -scaledTo scale q := by
  rw [scaledTo, scaledTo]
  split_ifs
  · rfl
  · rw [neg_mul, Format.round_neg]

/-- The last cast and what is made of it. -/
theorem wholePart_scaledTo {scale : ℤ} {q : ℚ} :
    |wholePart (scaledTo scale q)| =
      if 0 ≤ q then wholePart (scaledTo scale q) else -wholePart (scaledTo scale q) := by
  split_ifs with h
  · exact abs_of_nonneg (wholePart_nonneg (scaledTo_nonneg h))
  · have hneg : 0 ≤ scaledTo scale (-q) := scaledTo_nonneg (neg_nonneg.mpr (not_le.mp h).le)
    have hwhole := wholePart_nonneg hneg
    rw [scaledTo_neg, wholePart_neg] at hwhole
    rw [← abs_neg, abs_of_nonneg hwhole]

/-- The precision that a number has at a scale is more than is requested. -/
def Exceeds (precision : Int16) (digits : ℕ) (scale : ℤ) : Prop :=
  0 < precision.toInt ∧ precision.toInt < digits + scale

/-- The number that is stored for a magnitude of 64 bits. -/
theorem number_store (n : NumericStruct) (precision : UInt8) {m : ℤ} (hm : 0 ≤ m ∧ m < 2 ^ 63) :
    (n.store precision m).number =
      (if n.sign = 0 then -1 else 1) * m * (10 : ℚ) ^ (-n.scale.toInt) := by
  have hvalue : (LittleEndian.value (n.store precision m).val : ℤ) = m := by
    rw [NumericStruct.store, LittleEndian.value_append, LittleEndian.value_zeros, Nat.mul_zero,
      Nat.add_zero, LittleEndian.value_intBytes]
    exact Int.emod_eq_of_lt hm.1 (hm.2.trans (by norm_num))
  rw [NumericStruct.number, ← Int.cast_natCast, hvalue]
  rfl

instance (precision : Int16) (digits : ℕ) (scale : ℤ) : Decidable (Exceeds precision digits scale) :=
  inferInstanceAs (Decidable (_ ∧ _))

/-- The casts have a place for the number and for the number at the scale. -/
def CastsFit (scale : ℤ) (q : ℚ) : Prop := |q| < 2 ^ 64 ∧ |scaledTo scale q| < 2 ^ 63

theorem wholePart_fits {q : ℚ} {k : ℕ} : |wholePart q| < 2 ^ k ↔ |q| < 2 ^ k := by
  have h := abs_wholePart_lt (q := q) (k := 2 ^ k)
  push_cast at h
  exact h

theorem doubleToNumeric_undefined (precision : Int16) {scale : Int16}
    (hs : scale.toInt.natAbs < 20) {src : Double} {q : ℚ} (h : numberOf src = some q)
    (dst : NumericStruct) (hfit : ¬CastsFit scale.toInt q) :
    doubleToNumeric precision scale src dst = .undefined := by
  unfold doubleToNumeric
  dsimp only
  rw [magnitude_toInt h]
  by_cases hmag : |wholePart q| < 2 ^ 64
  · have hq : |q| < 2 ^ 64 := wholePart_fits.mp hmag
    obtain ⟨d, hd, hcast⟩ := scaleNumeric_toInt hs h hq.le
    rw [if_pos hmag, hd]
    dsimp only
    rw [hcast, castLong]
    have hlarge : ¬|wholePart (scaledTo scale.toInt q)| < 2 ^ 63 :=
      fun hc ↦ hfit ⟨hq, wholePart_fits.mp hc⟩
    by_cases hin : -2 ^ 63 ≤ wholePart (scaledTo scale.toInt q) ∧
        wholePart (scaledTo scale.toInt q) < 2 ^ 63
    · -- the one number that has no negative
      have hleast : wholePart (scaledTo scale.toInt q) = -2 ^ 63 := by
        rw [abs_lt] at hlarge
        omega
      have hneg : ¬0 ≤ q := by
        intro hq
        have hnonneg := wholePart_nonneg (@scaledTo_nonneg scale.toInt q hq)
        omega
      rw [if_pos hin]
      dsimp only
      rw [if_pos]
      rw [(numberOf_bounds h).1, decide_eq_false hneg, hleast]
      rfl
    · rw [if_neg hin]
  · rw [if_neg hmag]

theorem doubleToNumeric_defined (precision : Int16) {scale : Int16}
    (hs : scale.toInt.natAbs < 20) {src : Double} {q : ℚ} (h : numberOf src = some q)
    (dst : NumericStruct) (hfit : CastsFit scale.toInt q) :
    ∃ n, doubleToNumeric precision scale src dst =
        .done (if Exceeds precision (digitCount (wholePart q).natAbs) scale.toInt then .s22003
          else .s00000, n) ∧
      (¬Exceeds precision (digitCount (wholePart q).natAbs) scale.toInt →
        n.scale.toInt = scale.toInt ∧
          n.number = wholePart (scaledTo scale.toInt q) * (10 : ℚ) ^ (-scale.toInt)) := by
  obtain ⟨hq, hscaled⟩ := hfit
  have hmag : |wholePart q| < 2 ^ 64 := wholePart_fits.mpr hq
  have hwhole : |wholePart (scaledTo scale.toInt q)| < 2 ^ 63 := wholePart_fits.mpr hscaled
  obtain ⟨d, hd, hcast⟩ := scaleNumeric_toInt hs h hq.le
  have hin := abs_lt.mp hwhole
  have hdigits : digitCount (wholePart q).natAbs ≤ 20 := by
    refine digitCount_le ?_
    have hsmall : (2 : ℤ) ^ 64 ≤ 10 ^ 20 := by norm_num
    zify
    exact hmag.trans_le hsmall
  have hover : overPrecise precision
      (Int16.ofInt (digitCount (wholePart q).natAbs + scale.toInt)) = true ↔
      Exceeds precision (digitCount (wholePart q).natAbs) scale.toInt :=
    overPrecise_iff (by omega) (by omega)
  have hscale : scale.toInt8.toInt = scale.toInt := by
    rw [Int16.toInt_toInt8]
    exact Int.bmod_eq_of_le (by omega) (by omega)
  have hleast : ¬(!decide (0 ≤ q) && wholePart (scaledTo scale.toInt q) = -2 ^ 63) = true := by
    intro hc
    rw [Bool.and_eq_true, decide_eq_true_eq] at hc
    omega
  have hnat : |wholePart q|.toNat = (wholePart q).natAbs := by
    rw [← Int.natCast_natAbs, Int.toNat_natCast]
  unfold doubleToNumeric
  dsimp only
  rw [magnitude_toInt h, if_pos hmag, hd]
  dsimp only
  rw [hcast, castLong, if_pos ⟨hin.1.le, hin.2⟩]
  dsimp only
  rw [(numberOf_bounds h).1, hnat, if_neg hleast]
  by_cases hex : Exceeds precision (digitCount (wholePart q).natAbs) scale.toInt
  · rw [if_pos (hover.mpr hex), if_pos hex]
    exact ⟨_, rfl, fun hn ↦ absurd hex hn⟩
  · rw [if_neg (mt hover.mp hex), if_neg hex]
    refine ⟨_, rfl, fun _ ↦ ⟨hscale, ?_⟩⟩
    have habs : (if decide (0 ≤ q) = true then wholePart (scaledTo scale.toInt q)
        else -wholePart (scaledTo scale.toInt q)) = |wholePart (scaledTo scale.toInt q)| := by
      rw [wholePart_scaledTo]
      exact if_congr decide_eq_true_iff rfl rfl
    rw [number_store _ _ (by rw [habs]; exact ⟨abs_nonneg _, hwhole⟩), hscale]
    by_cases hpos : 0 ≤ q
    · rw [decide_eq_true hpos]
      simp
    · rw [decide_eq_false hpos]
      simp

/-- A number is dealt with right when its scale is below 20 in size, the casts have a place for it,
and either the precision is exceeded or rounding at the scale does not change the whole part. -/
theorem storesTruncated_iff (precision scale : Int16) (src : Double) (dst : NumericStruct) :
    StoresTruncated precision scale src dst ↔ ∀ q, numberOf src = some q →
      scale.toInt.natAbs < 20 ∧ CastsFit scale.toInt q ∧
        (Exceeds precision (digitCount (wholePart q).natAbs) scale.toInt ∨
          wholePart (scaledTo scale.toInt q) = wholePart (q * (10 : ℚ) ^ scale.toInt)) := by
  refine forall₂_congr fun q hq ↦ ?_
  rw [pow10_eq_iff]
  refine and_congr_right fun hs ↦ ?_
  have hten : (10 : ℚ) ^ (-scale.toInt) ≠ 0 := zpow_ne_zero _ (by norm_num)
  by_cases hfit : CastsFit scale.toInt q
  · rw [and_iff_right hfit]
    obtain ⟨n, hrun, hstored⟩ := doubleToNumeric_defined precision hs hq dst hfit
    rw [hrun]
    by_cases hex : Exceeds precision (digitCount (wholePart q).natAbs) scale.toInt
    · rw [if_pos hex]
      exact ⟨fun _ ↦ .inl hex, fun _ ↦ ⟨_, n, rfl, .inl rfl⟩⟩
    · obtain ⟨hscale, hnumber⟩ := hstored hex
      rw [if_neg hex, or_iff_right hex]
      constructor
      · rintro ⟨state, n', heq, hstate⟩
        rw [Exec.done.injEq, Prod.mk.injEq] at heq
        obtain ⟨rfl, rfl⟩ := heq
        rcases hstate with hstate | ⟨-, -, hvalue⟩
        · cases hstate
        · rw [hnumber, mul_left_inj' hten] at hvalue
          exact_mod_cast hvalue
      · intro hwhole
        exact ⟨_, n, rfl, .inr ⟨rfl, hscale, by rw [hnumber, hwhole]⟩⟩
  · constructor
    · rintro ⟨state, n, hrun, -⟩
      rw [doubleToNumeric_undefined precision hs hq dst hfit] at hrun
      cases hrun
    · exact fun h ↦ absurd h.1 hfit

/-! ## To a number -/

namespace NumericStruct

/-- The magnitude. -/
def magnitude (n : NumericStruct) : ℕ := LittleEndian.value n.val

theorem magnitude_eq (n : NumericStruct) :
    n.magnitude = LittleEndian.value (n.val.take 8) + 2 ^ 64 * LittleEndian.value (n.val.drop 8) := by
  have h := LittleEndian.value_append (n.val.take 8) (n.val.drop 8)
  rw [List.take_append_drop, List.length_take, n.length_val] at h
  exact h

theorem value_low_lt (n : NumericStruct) : LittleEndian.value (n.val.take 8) < 2 ^ 64 := by
  have h := LittleEndian.value_lt (n.val.take 8)
  rwa [List.length_take, n.length_val] at h

theorem high_eq_zero_iff (n : NumericStruct) :
    LittleEndian.value (n.val.drop 8) = 0 ↔ n.magnitude < 2 ^ 64 := by
  have hlow := n.value_low_lt
  have heq := n.magnitude_eq
  omega

end NumericStruct

/-- A magnitude of 64 bits as a `double`. -/
theorem round_magnitude {m : ℕ} (h : m < 2 ^ 64) :
    0 ≤ binary64.round m ∧ binary64.round m ≤ 2 ^ 64 := by
  constructor
  · rw [← binary64.round_zero]
    exact binary64.round_mono (Nat.cast_nonneg m)
  · rw [← binary64.round_holds holds_two_pow64]
    exact binary64.round_mono (by exact_mod_cast h.le)

/-- What `numeric_to_double` comes to: the scaled number, if the precision is not exceeded. -/
theorem numericToDouble_eq (precision : Int16) (n : NumericStruct) (h : n.magnitude < 2 ^ 64) :
    numericToDouble precision n =
      (scaleDouble n.scale.toInt (binary64.round n.magnitude)).elim (.error .s22003) fun dbl ↦
        if Exceeds precision (digitCount n.magnitude) (-n.scale.toInt) then .error .s22003
        else .ok (if n.sign = 0 then dbl.neg else dbl) := by
  have hlow : LittleEndian.value (n.val.take 8) = n.magnitude := by
    have hzero := n.high_eq_zero_iff.mpr h
    rw [n.magnitude_eq, hzero, Nat.mul_zero, Nat.add_zero]
  have hdigits : digitCount n.magnitude ≤ 20 :=
    digitCount_le (h.trans_le (by norm_num))
  have hscale := n.scale.toInt_lt
  have hscale' := n.scale.le_toInt
  have hover : overPrecise precision (Int16.ofInt (digitCount n.magnitude - n.scale.toInt)) = true ↔
      Exceeds precision (digitCount n.magnitude) (-n.scale.toInt) := by
    rw [overPrecise_iff (by omega) (by omega), sub_eq_add_neg]
    rfl
  have hmax : ¬dblMax < binary64.round n.magnitude :=
    not_lt.mpr ((round_magnitude h).2.trans
      ((pow_le_pow_right₀ (by norm_num) (by norm_num)).trans dblMax_large))
  unfold numericToDouble
  rw [if_neg (not_not.mpr (n.high_eq_zero_iff.mpr h)), hlow]
  dsimp only
  rw [if_neg hmax]
  cases scaleDouble n.scale.toInt (binary64.round n.magnitude) with
  | none => rfl
  | some dbl => exact if_congr hover rfl rfl

theorem toDouble_fin {x : ℚ} (h : |x| ≤ 2 ^ 1000) : toDouble x = .fin (binary64.round x) := by
  rw [toDouble, if_neg]
  have hholds : binary64.Holds (2 ^ (1000 : ℕ)) := by
    rw [← zpow_natCast]
    exact binary64.holds_two_zpow (by decide)
  rw [Format.abs_round, not_lt]
  refine le_trans ?_ dblMax_large
  rw [← binary64.round_holds hholds]
  exact binary64.round_mono h

/-- A magnitude by a power of ten, as it is computed. -/
def scaledBy (scale : ℤ) (r : ℚ) : ℚ :=
  if scale < 0 then binary64.round (r * dblPow10 scale.natAbs)
  else if 0 < scale then binary64.round (r / dblPow10 scale.natAbs)
  else r

theorem scaleDouble_eq (scale : ℤ) {r : ℚ} (h : 0 ≤ r) (hr : r ≤ 2 ^ 64) :
    ∃ d, scaleDouble scale r = some d ∧ numberOf d = some (scaledBy scale r) := by
  obtain ⟨hone, hten⟩ := dblPow10_bounds scale.natAbs
  have hpos : 0 < dblPow10 scale.natAbs := lt_of_lt_of_le one_pos hone
  have hlarge : (2 : ℚ) ^ 64 * 2 ^ 64 ≤ 2 ^ 1000 := by
    rw [← pow_add]
    exact pow_le_pow_right₀ (by norm_num) (by norm_num)
  unfold scaleDouble scaledBy
  dsimp only
  split_ifs with hneg hlt hgt
  · obtain ⟨x, hx, hnlt⟩ := limit_ge scale.natAbs ((abs_of_nonneg h).le.trans hr)
    rw [hx] at hlt
    exact absurd (of_decide_eq_true hlt) hnlt
  · refine ⟨_, rfl, ?_⟩
    rw [DoubleOps.mul, toDouble_fin]
    · rfl
    · rw [abs_of_nonneg (mul_nonneg h hpos.le)]
      exact (mul_le_mul hr hten hpos.le (by positivity)).trans hlarge
  · refine ⟨_, rfl, ?_⟩
    rw [DoubleOps.div, toDouble_fin]
    · rfl
    · rw [abs_of_nonneg (div_nonneg h hpos.le)]
      exact (div_le_self h hone).trans (hr.trans (pow_le_pow_right₀ (by norm_num) (by norm_num)))
  · exact ⟨_, rfl, rfl⟩

theorem scaledBy_eq {scale : ℤ} (hs : scale.natAbs < 20) {r : ℚ} (hr : binary64.Holds r) :
    scaledBy scale r = binary64.round (r * (10 : ℚ) ^ (-scale)) := by
  have hpow := dblPow10_zpow hs
  rcases lt_trichotomy scale 0 with hneg | rfl | hpos
  · rw [scaledBy, if_pos hneg, hpow, if_pos hneg, zpow_neg]
  · rw [scaledBy, if_neg (lt_irrefl _), if_neg (lt_irrefl _), neg_zero, zpow_zero, mul_one,
      binary64.round_holds hr]
  · rw [scaledBy, if_neg hpos.not_gt, if_pos hpos, hpow, if_neg hpos.not_gt, zpow_neg, div_eq_mul_inv]

/-- A power of ten that wraps is too small by more than a factor of four. -/
theorem scaledBy_ne {scale : ℤ} (hs : 20 ≤ scale.natAbs) {m : ℕ} (hm : m ≠ 0) :
    scaledBy scale (binary64.round m) ≠ binary64.round (m * (10 : ℚ) ^ (-scale)) := by
  obtain ⟨hone, hten⟩ := dblPow10_bounds scale.natAbs
  have hpos : 0 < dblPow10 scale.natAbs := lt_of_lt_of_le one_pos hone
  have hlarge : (2 : ℚ) ^ (66 : ℤ) ≤ 10 ^ (20 : ℤ) := by norm_num
  -- the powers of two around the magnitude
  obtain ⟨k, hlow, hhigh⟩ : ∃ k : ℕ, (2 : ℚ) ^ (k : ℤ) ≤ m ∧ (m : ℚ) ≤ 2 ^ (k + 1 : ℤ) := by
    refine ⟨Nat.log 2 m, ?_, ?_⟩
    · rw [zpow_natCast]
      exact_mod_cast Nat.pow_log_le_self 2 hm
    · have hlt := Nat.lt_pow_succ_log_self one_lt_two m
      have hcast : (2 : ℚ) ^ ((Nat.log 2 m : ℤ) + 1) = ((2 ^ (Nat.log 2 m + 1) : ℕ) : ℚ) := by
        push_cast
        exact zpow_natCast _ (Nat.log 2 m + 1)
      rw [hcast]
      exact_mod_cast hlt.le
  have hholds (e : ℤ) (he : -1074 ≤ e) : binary64.round ((2 : ℚ) ^ e) = 2 ^ e :=
    binary64.round_holds (binary64.holds_two_zpow he)
  have hrlow : (2 : ℚ) ^ (k : ℤ) ≤ binary64.round m := by
    rw [← hholds k (by omega)]
    exact binary64.round_mono hlow
  have hrhigh : binary64.round m ≤ (2 : ℚ) ^ (k + 1 : ℤ) := by
    rw [← hholds (k + 1) (by omega)]
    exact binary64.round_mono hhigh
  have hadd (a b : ℤ) : (2 : ℚ) ^ a * 2 ^ b = 2 ^ (a + b) := (zpow_add₀ (by norm_num) a b).symm
  rcases le_total 0 scale with h | h
  · have hgt : 0 < scale := by omega
    rw [scaledBy, if_neg hgt.not_gt, if_pos hgt]
    have hquot : (2 : ℚ) ^ (k - 64 : ℤ) ≤ binary64.round (binary64.round m / dblPow10 scale.natAbs) := by
      rw [← hholds (k - 64) (by omega)]
      refine binary64.round_mono ((le_div_iff₀ hpos).mpr ?_)
      calc (2 : ℚ) ^ (k - 64 : ℤ) * dblPow10 scale.natAbs
          ≤ 2 ^ (k - 64 : ℤ) * 2 ^ (64 : ℤ) :=
            mul_le_mul_of_nonneg_left (by exact_mod_cast hten) (by positivity)
        _ = 2 ^ (k : ℤ) := by rw [hadd, sub_add_cancel]
        _ ≤ binary64.round m := hrlow
    have hexact : binary64.round (m * (10 : ℚ) ^ (-scale)) ≤ 2 ^ (k - 65 : ℤ) := by
      rw [← hholds (k - 65) (by omega)]
      refine binary64.round_mono ?_
      calc (m : ℚ) * (10 : ℚ) ^ (-scale) ≤ 2 ^ (k + 1 : ℤ) * 10 ^ (-20 : ℤ) :=
            mul_le_mul hhigh (zpow_le_zpow_right₀ (by norm_num) (by omega)) (by positivity)
              (by positivity)
        _ ≤ 2 ^ (k + 1 : ℤ) * 2 ^ (-66 : ℤ) := by
            refine mul_le_mul_of_nonneg_left ?_ (by positivity)
            rw [zpow_neg, zpow_neg]
            exact inv_anti₀ (by positivity) hlarge
        _ = 2 ^ (k - 65 : ℤ) := by rw [hadd]; congr 1; ring
    have hstep : (2 : ℚ) ^ (k - 65 : ℤ) < 2 ^ (k - 64 : ℤ) :=
      zpow_lt_zpow_right₀ (by norm_num) (by omega)
    exact ((hexact.trans_lt hstep).trans_le hquot).ne'
  · have hlt : scale < 0 := by omega
    rw [scaledBy, if_pos hlt]
    have hprod : binary64.round (binary64.round m * dblPow10 scale.natAbs) ≤ 2 ^ (k + 65 : ℤ) := by
      rw [← hholds (k + 65) (by omega)]
      refine binary64.round_mono ?_
      calc binary64.round m * dblPow10 scale.natAbs ≤ 2 ^ (k + 1 : ℤ) * 2 ^ (64 : ℤ) :=
            mul_le_mul hrhigh (by exact_mod_cast hten) hpos.le (by positivity)
        _ = 2 ^ (k + 65 : ℤ) := by rw [hadd]; congr 1
    have hexact : (2 : ℚ) ^ (k + 66 : ℤ) ≤ binary64.round (m * (10 : ℚ) ^ (-scale)) := by
      rw [← hholds (k + 66) (by omega)]
      refine binary64.round_mono ?_
      calc (2 : ℚ) ^ (k + 66 : ℤ) = 2 ^ (k : ℤ) * 2 ^ (66 : ℤ) := (hadd _ _).symm
        _ ≤ m * 10 ^ (20 : ℤ) := mul_le_mul hlow hlarge (by positivity) (by positivity)
        _ ≤ m * (10 : ℚ) ^ (-scale) := mul_le_mul_of_nonneg_left
            (zpow_le_zpow_right₀ (by norm_num) (by omega)) (by positivity)
    have hstep : (2 : ℚ) ^ (k + 65 : ℤ) < 2 ^ (k + 66 : ℤ) :=
      zpow_lt_zpow_right₀ (by norm_num) (by omega)
    exact ((hprod.trans_lt hstep).trans_le hexact).ne

/-- The scaled magnitude is the nearest number of the format. -/
theorem scaledBy_iff (scale : ℤ) (m : ℕ) :
    scaledBy scale (binary64.round m) = binary64.round (m * (10 : ℚ) ^ (-scale)) ↔
      m = 0 ∨ scale.natAbs < 20 ∧
        binary64.round (binary64.round m * (10 : ℚ) ^ (-scale)) =
          binary64.round (m * (10 : ℚ) ^ (-scale)) := by
  by_cases hm : m = 0
  · subst hm
    refine iff_of_true ?_ (.inl rfl)
    rw [Nat.cast_zero, Format.round_zero, zero_mul, Format.round_zero, scaledBy, zero_mul, zero_div,
      Format.round_zero, ite_self, ite_self]
  · rw [or_iff_right hm]
    by_cases hs : scale.natAbs < 20
    · rw [scaledBy_eq hs (binary64.holds_round _), and_iff_right hs]
    · exact iff_of_false (scaledBy_ne (not_lt.mp hs) hm) fun h ↦ hs h.1

theorem readsNumber_iff (precision : Int16) (n : NumericStruct) :
    ReadsNumber precision n ↔
      2 ^ 64 ≤ n.magnitude ∨ Exceeds precision (digitCount n.magnitude) (-n.scale.toInt) ∨
        n.magnitude = 0 ∨ n.scale.toInt.natAbs < 20 ∧
          binary64.round (binary64.round n.magnitude * (10 : ℚ) ^ (-n.scale.toInt)) =
            binary64.round (n.magnitude * (10 : ℚ) ^ (-n.scale.toInt)) := by
  by_cases hsize : n.magnitude < 2 ^ 64
  · rw [or_iff_right (not_le.mpr hsize), ← scaledBy_iff]
    have hrun := numericToDouble_eq precision n hsize
    obtain ⟨hlow, hhigh⟩ := round_magnitude hsize
    obtain ⟨d, hd, hnumber⟩ := scaleDouble_eq n.scale.toInt hlow hhigh
    rw [hd, Option.elim_some] at hrun
    by_cases hex : Exceeds precision (digitCount n.magnitude) (-n.scale.toInt)
    · rw [if_pos hex] at hrun
      exact iff_of_true (.inl hrun) (.inl hex)
    · rw [if_neg hex] at hrun
      rw [or_iff_right hex, ReadsNumber, hrun, or_iff_right nofun]
      have hsigned : numberOf (if n.sign = 0 then d.neg else d) =
          some (if n.sign = 0 then -scaledBy n.scale.toInt (binary64.round n.magnitude)
            else scaledBy n.scale.toInt (binary64.round n.magnitude)) := by
        split_ifs
        · exact numberOf_neg hnumber
        · exact hnumber
      have hdenoted : binary64.round n.number =
          if n.sign = 0 then -binary64.round (n.magnitude * (10 : ℚ) ^ (-n.scale.toInt))
          else binary64.round (n.magnitude * (10 : ℚ) ^ (-n.scale.toInt)) := by
        rw [NumericStruct.number, mul_assoc]
        split_ifs
        · rw [neg_one_mul, Format.round_neg]
          rfl
        · rw [one_mul]
          rfl
      have hiff : numberOf (if n.sign = 0 then d.neg else d) = some (binary64.round n.number) ↔
          scaledBy n.scale.toInt (binary64.round n.magnitude) =
            binary64.round (n.magnitude * (10 : ℚ) ^ (-n.scale.toInt)) := by
        rw [hsigned, hdenoted, Option.some.injEq]
        split_ifs
        · exact neg_inj
        · exact Iff.rfl
      rw [← hiff]
      constructor
      · rintro ⟨dbl, heq, hdbl⟩
        rw [Except.ok.injEq] at heq
        rw [heq]
        exact hdbl
      · exact fun h ↦ ⟨_, rfl, h⟩
  · refine iff_of_true (.inl ?_) (.inl (not_lt.mp hsize))
    rw [numericToDouble, if_pos (mt n.high_eq_zero_iff.mp hsize)]

/-- The number one, with twenty digits behind the point. -/
def oneAtTwenty : NumericStruct := ⟨20, 20, 1, 1 :: List.replicate 15 0, rfl⟩

end EsOdbc
