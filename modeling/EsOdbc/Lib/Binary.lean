import Mathlib

/-!
# Binary floating point

Rounding to the numbers of a binary format, with no bound above: to the nearest one, and from
half way to the one whose last digit is even.  `Double` adds what a variable of the format can
hold besides a number.
-/

namespace Binary

/-! ## To an integer -/

/-- The nearest integer; from half way the even one. -/
def roundEven (q : ℚ) : ℤ :=
  let n := ⌊q⌋
  if q - n < 1 / 2 then n else if 1 / 2 < q - n then n + 1 else if n % 2 = 0 then n else n + 1

theorem floor_le_roundEven (q : ℚ) : ⌊q⌋ ≤ roundEven q := by
  simp only [roundEven]
  split_ifs <;> omega

theorem roundEven_le_floor (q : ℚ) : roundEven q ≤ ⌊q⌋ + 1 := by
  simp only [roundEven]
  split_ifs <;> omega

@[simp] theorem roundEven_zero : roundEven 0 = 0 := by
  simp [roundEven]

@[simp] theorem roundEven_intCast (n : ℤ) : roundEven n = n := by
  simp [roundEven]

theorem roundEven_mono {x y : ℚ} (h : x ≤ y) : roundEven x ≤ roundEven y := by
  rcases (Int.floor_le_floor h).lt_or_eq with hlt | heq
  · exact (roundEven_le_floor x).trans ((Int.add_one_le_iff.mpr hlt).trans (floor_le_roundEven y))
  · have hfloor : x - ⌊x⌋ ≤ y - ⌊x⌋ := sub_le_sub_right h _
    simp only [roundEven, ← heq]
    split_ifs with h1 h2 h3 h4 h5 h6 h7 h8
    all_goals first | omega | linarith

/-! ## To a format -/

/-- A format: the digits of a number, and the least exponent of a last digit. -/
structure Format where
  prec : ℕ
  emin : ℤ
  pos : 0 < prec

namespace Format

variable (f : Format)

/-- The exponent of the last digit around a number. -/
def lastExp (q : ℚ) : ℤ := max f.emin (Int.log 2 |q| + 1 - f.prec)

/-- A number of the format. -/
def Holds (q : ℚ) : Prop := ∃ (m : ℤ) (e : ℤ), f.emin ≤ e ∧ |m| < 2 ^ f.prec ∧ q = m * (2 : ℚ) ^ e

/-- Of a number that is not negative, the nearest one of the format. -/
def roundAbs (q : ℚ) : ℚ := roundEven (q / (2 : ℚ) ^ f.lastExp q) * (2 : ℚ) ^ f.lastExp q

/-- The nearest number of the format. -/
def round (q : ℚ) : ℚ := if q < 0 then -f.roundAbs (-q) else f.roundAbs q

theorem two_zpow_pos (e : ℤ) : (0 : ℚ) < 2 ^ e := zpow_pos (by norm_num) e

/-- A multiple of the last place stays. -/
theorem roundAbs_eq_self {q : ℚ} {m : ℤ} {e : ℤ} (hq : q = m * (2 : ℚ) ^ e)
    (he : f.lastExp q ≤ e) : f.roundAbs q = q := by
  have hpos := two_zpow_pos (f.lastExp q)
  obtain ⟨k, hk⟩ := Int.eq_ofNat_of_zero_le (sub_nonneg.mpr he)
  have hdiv : q / (2 : ℚ) ^ f.lastExp q = ((m * 2 ^ k : ℤ) : ℚ) := by
    have hexp : e = k + f.lastExp q := by omega
    rw [div_eq_iff hpos.ne', Int.cast_mul, Int.cast_pow, Int.cast_ofNat, mul_assoc,
      ← zpow_natCast, ← zpow_add₀ (by norm_num : (2 : ℚ) ≠ 0), ← hexp, ← hq]
  rw [roundAbs, hdiv, roundEven_intCast, ← hdiv, div_mul_cancel₀ _ hpos.ne']

theorem lastExp_le {q : ℚ} {m : ℤ} {e : ℤ} (he : f.emin ≤ e) (hm : |m| < 2 ^ f.prec)
    (hq : q = m * (2 : ℚ) ^ e) (hne : q ≠ 0) : f.lastExp q ≤ e := by
  refine max_le he ?_
  have hlt : |q| < (2 : ℚ) ^ (e + f.prec) := by
    rw [hq, abs_mul, abs_of_pos (two_zpow_pos e), zpow_add₀ (by norm_num), mul_comm, zpow_natCast]
    refine mul_lt_mul_of_pos_left ?_ (two_zpow_pos e)
    rw [← Int.cast_abs]
    exact_mod_cast hm
  have hlog : Int.log 2 |q| < e + f.prec :=
    (Int.lt_zpow_iff_log_lt (by norm_num) (abs_pos.mpr hne)).mp (by exact_mod_cast hlt)
  omega

/-- A number of the format stays. -/
theorem round_holds {q : ℚ} (h : f.Holds q) : f.round q = q := by
  obtain ⟨m, e, he, hm, hq⟩ := h
  by_cases hzero : q = 0
  · subst hzero
    simp [round, roundAbs]
  · unfold round
    split
    · have hneg : -q = ((-m : ℤ) : ℚ) * (2 : ℚ) ^ e := by
        rw [hq]
        push_cast
        ring
      rw [f.roundAbs_eq_self hneg (f.lastExp_le he (by rwa [abs_neg]) hneg (neg_ne_zero.mpr hzero)),
        neg_neg]
    · exact f.roundAbs_eq_self hq (f.lastExp_le he hm hq hzero)

theorem lt_lastExp (q : ℚ) : |q| < (2 : ℚ) ^ (f.prec + f.lastExp q) := by
  have hle : Int.log 2 |q| + 1 ≤ f.prec + f.lastExp q := by
    have hmax := le_max_right f.emin (Int.log 2 |q| + 1 - f.prec)
    unfold lastExp
    omega
  have hlt := Int.lt_zpow_succ_log_self (by norm_num : 1 < 2) |q|
  rw [Nat.cast_ofNat] at hlt
  exact hlt.trans_le (zpow_le_zpow_right₀ (by norm_num) hle)

/-- The nearest number of the format is one. -/
theorem holds_roundAbs {q : ℚ} (h : 0 ≤ q) : f.Holds (f.roundAbs q) := by
  have hpos := two_zpow_pos (f.lastExp q)
  have hlow : 0 ≤ roundEven (q / (2 : ℚ) ^ f.lastExp q) := by
    have hint := roundEven_mono (div_nonneg h hpos.le)
    rwa [← Int.cast_zero, roundEven_intCast] at hint
  have hhigh : roundEven (q / (2 : ℚ) ^ f.lastExp q) ≤ 2 ^ f.prec := by
    have hq := f.lt_lastExp q
    rw [abs_of_nonneg h, zpow_add₀ (by norm_num), zpow_natCast] at hq
    have hint := roundEven_mono ((div_lt_iff₀ hpos).mpr hq).le
    have hcast : (2 : ℚ) ^ f.prec = ((2 ^ f.prec : ℤ) : ℚ) := by push_cast; rfl
    rwa [hcast, roundEven_intCast] at hint
  have hemin : f.emin ≤ f.lastExp q := le_max_left _ _
  rcases hhigh.lt_or_eq with hlt | heq
  · exact ⟨_, _, hemin, by rwa [abs_of_nonneg hlow], rfl⟩
  · -- rounded up to the next power of two
    refine ⟨1, f.prec + f.lastExp q, by omega, ?_, ?_⟩
    · rw [abs_one]
      exact one_lt_pow₀ (by norm_num) f.pos.ne'
    · rw [roundAbs, heq, zpow_add₀ (by norm_num), zpow_natCast]
      push_cast
      ring

theorem Holds.neg {f : Format} {q : ℚ} (h : f.Holds q) : f.Holds (-q) := by
  obtain ⟨m, e, he, hm, rfl⟩ := h
  exact ⟨-m, e, he, by rwa [abs_neg], by push_cast; ring⟩

@[inherit_doc holds_roundAbs]
theorem holds_round (q : ℚ) : f.Holds (f.round q) := by
  unfold round
  split_ifs with h
  · exact (f.holds_roundAbs (neg_nonneg.mpr h.le)).neg
  · exact f.holds_roundAbs (not_lt.mp h)

theorem holds_two_zpow {e : ℤ} (h : f.emin ≤ e) : f.Holds ((2 : ℚ) ^ e) :=
  ⟨1, e, h, by rw [abs_one]; exact one_lt_pow₀ (by norm_num) f.pos.ne', by rw [Int.cast_one, one_mul]⟩

@[simp] theorem round_zero : f.round 0 = 0 := by
  simp [round, roundAbs]

theorem roundAbs_nonneg {q : ℚ} (h : 0 ≤ q) : 0 ≤ f.roundAbs q := by
  have hpos := two_zpow_pos (f.lastExp q)
  have hint := roundEven_mono (div_nonneg h hpos.le)
  rw [← Int.cast_zero, roundEven_intCast] at hint
  exact mul_nonneg (by exact_mod_cast hint) hpos.le

theorem lastExp_mono {x y : ℚ} (hx : 0 < x) (h : x ≤ y) : f.lastExp x ≤ f.lastExp y := by
  have hlog : Int.log 2 |x| ≤ Int.log 2 |y| := by
    rw [abs_of_pos hx, abs_of_pos (hx.trans_le h)]
    exact Int.log_mono_right hx h
  exact max_le_max_left _ (by omega)

/-- Of two numbers with different last places, the power of two between them. -/
theorem roundAbs_step {x y : ℚ} (hx : 0 < x) (hy : 0 < y) (h : f.lastExp x < f.lastExp y) :
    f.roundAbs x ≤ f.roundAbs y := by
  have hpos := f.pos
  have hex : Int.log 2 |x| + 1 - f.prec ≤ f.lastExp x := le_max_right _ _
  have hey : f.lastExp y = Int.log 2 |y| + 1 - f.prec := by
    rcases max_choice f.emin (Int.log 2 |y| + 1 - f.prec) with hmax | hmax
    · exact absurd h (not_lt.mpr ((show f.lastExp y = f.emin from hmax) ▸ le_max_left _ _))
    · exact hmax
  rw [abs_of_pos hx] at hex
  rw [abs_of_pos hy] at hey
  have hxlt : x < (2 : ℚ) ^ (f.lastExp y + f.prec - 1) := by
    refine (Int.lt_zpow_succ_log_self (by norm_num : 1 < 2) x).trans_le ?_
    rw [Nat.cast_ofNat]
    exact zpow_le_zpow_right₀ (by norm_num) (by omega)
  have hyle : (2 : ℚ) ^ (f.lastExp y + f.prec - 1) ≤ y := by
    have hlog : (2 : ℚ) ^ Int.log 2 y ≤ y := by exact_mod_cast Int.zpow_log_le_self (by norm_num) hy
    rwa [show f.lastExp y + f.prec - 1 = Int.log 2 y by omega]
  have hdiv (q : ℚ) (hq : f.lastExp q ≤ f.lastExp y) :
      ∃ k : ℤ, (2 : ℚ) ^ (f.lastExp y + f.prec - 1) = k * (2 : ℚ) ^ f.lastExp q := by
    obtain ⟨k, hk⟩ := Int.eq_ofNat_of_zero_le
      (show 0 ≤ f.lastExp y + f.prec - 1 - f.lastExp q by omega)
    refine ⟨2 ^ k, ?_⟩
    rw [Int.cast_pow, Int.cast_ofNat, ← zpow_natCast, ← zpow_add₀ (by norm_num : (2 : ℚ) ≠ 0)]
    congr 1
    omega
  have hround (q : ℚ) (k : ℤ) : (2 : ℚ) ^ (f.lastExp y + f.prec - 1) = k * (2 : ℚ) ^ f.lastExp q →
      (2 : ℚ) ^ (f.lastExp y + f.prec - 1) / (2 : ℚ) ^ f.lastExp q = k := by
    intro hk
    rw [hk, mul_div_cancel_right₀ _ (two_zpow_pos _).ne']
  obtain ⟨kx, hkx⟩ := hdiv x h.le
  obtain ⟨ky, hky⟩ := hdiv y le_rfl
  calc f.roundAbs x ≤ kx * (2 : ℚ) ^ f.lastExp x := by
        refine mul_le_mul_of_nonneg_right ?_ (two_zpow_pos _).le
        have := roundEven_mono (div_le_div_of_nonneg_right hxlt.le (two_zpow_pos (f.lastExp x)).le)
        rw [hround x kx hkx, roundEven_intCast] at this
        exact_mod_cast this
    _ = ky * (2 : ℚ) ^ f.lastExp y := hkx.symm.trans hky
    _ ≤ f.roundAbs y := by
        refine mul_le_mul_of_nonneg_right ?_ (two_zpow_pos _).le
        have := roundEven_mono (div_le_div_of_nonneg_right hyle (two_zpow_pos (f.lastExp y)).le)
        rw [hround y ky hky, roundEven_intCast] at this
        exact_mod_cast this

theorem roundAbs_mono {x y : ℚ} (hx : 0 ≤ x) (h : x ≤ y) : f.roundAbs x ≤ f.roundAbs y := by
  rcases hx.eq_or_lt with rfl | hx
  · rw [show f.roundAbs 0 = 0 by simp [roundAbs]]
    exact f.roundAbs_nonneg h
  · rcases (f.lastExp_mono hx h).lt_or_eq with hlt | heq
    · exact f.roundAbs_step hx (hx.trans_le h) hlt
    · rw [roundAbs, roundAbs, heq]
      refine mul_le_mul_of_nonneg_right ?_ (two_zpow_pos _).le
      exact_mod_cast roundEven_mono (div_le_div_of_nonneg_right h (two_zpow_pos _).le)

/-- Rounding keeps the order. -/
theorem round_mono {x y : ℚ} (h : x ≤ y) : f.round x ≤ f.round y := by
  unfold round
  split_ifs with hx hy hy
  · exact neg_le_neg (f.roundAbs_mono (neg_nonneg.mpr hy.le) (neg_le_neg h))
  · exact (neg_nonpos.mpr (f.roundAbs_nonneg (neg_nonneg.mpr hx.le))).trans
      (f.roundAbs_nonneg (not_lt.mp hy))
  · exact absurd (h.trans_lt hy) hx
  · exact f.roundAbs_mono (not_lt.mp hx) h

theorem round_neg (q : ℚ) : f.round (-q) = -f.round q := by
  rcases lt_trichotomy q 0 with h | rfl | h
  · rw [round, round, if_pos h, if_neg (by linarith), neg_neg]
  · simp [round, roundAbs]
  · rw [round, round, if_neg h.not_gt, if_pos (by linarith), neg_neg]

theorem abs_round (q : ℚ) : |f.round q| = f.round |q| := by
  rcases le_total 0 q with h | h
  · have hnonneg : 0 ≤ f.round q := by
      rw [round, if_neg (not_lt.mpr h)]
      exact f.roundAbs_nonneg h
    rw [abs_of_nonneg h, abs_of_nonneg hnonneg]
  · have hnonneg : 0 ≤ f.round (-q) := by
      rw [round, if_neg (not_lt.mpr (neg_nonneg.mpr h))]
      exact f.roundAbs_nonneg (neg_nonneg.mpr h)
    rw [abs_of_nonpos h, ← abs_neg, ← round_neg, abs_of_nonneg hnonneg]

end Format

/-- What a variable of a floating type holds: `fin 0` is the zero without a sign. -/
inductive Double where
  | fin (q : ℚ)
  | negZero
  | inf (neg : Bool)
  | nan
deriving DecidableEq

namespace Double

/-- `<` of two of them. -/
def lt : Double → Double → Bool
  | .fin a, .fin b => a < b
  | .fin a, .negZero => a < 0
  | .negZero, .fin b => 0 < b
  | .negZero, .negZero => false
  | .fin _, .inf neg | .negZero, .inf neg => !neg
  | .inf neg, .fin _ | .inf neg, .negZero => neg
  | .inf a, .inf b => a && !b
  | .nan, _ | _, .nan => false

/-- `<=` of two of them. -/
def le : Double → Double → Bool
  | .fin a, .fin b => a ≤ b
  | .fin a, .negZero => a ≤ 0
  | .negZero, .fin b => 0 ≤ b
  | .negZero, .negZero => true
  | .fin _, .inf neg | .negZero, .inf neg => !neg
  | .inf neg, .fin _ | .inf neg, .negZero => neg
  | .inf a, .inf b => a || !b
  | .nan, _ | _, .nan => false

def abs : Double → Double
  | .fin q => .fin |q|
  | .negZero => .fin 0
  | .inf _ => .inf false
  | .nan => .nan

def neg : Double → Double
  | .fin q => if q = 0 then .negZero else .fin (-q)
  | .negZero => .fin 0
  | .inf neg => .inf !neg
  | .nan => .nan

/-- The integer that a conversion to one leaves, where it has a place for it: it lies from `min`
on and below `sup`. -/
def toInt (min sup : ℤ) : Double → Option ℤ
  | .fin q =>
    let whole := if q < 0 then ⌈q⌉ else ⌊q⌋
    if min ≤ whole ∧ whole < sup then some whole else none
  | .negZero => if min ≤ 0 ∧ 0 < sup then some 0 else none
  | _ => none

end Double

end Binary
