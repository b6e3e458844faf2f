import EsOdbc.Params.Ranges
import EsOdbc.Params.Spelled

/-!
# Numbers for floating-point types

Which numbers the conversion takes for `SQL_REAL`, `SQL_FLOAT` and `SQL_DOUBLE`, from an integer,
from a `float` or `double` and from a string.
-/

namespace EsOdbc

open Decimal Binary

/-! ## The limits -/

/-- The least positive number with all the digits of the type. -/
def EsFloating.min : EsFloating → ℚ
  | .float => fltMin
  | _ => dblMin

/-- The greatest number of the type. -/
def EsFloating.max : EsFloating → ℚ
  | .float => fltMax
  | _ => dblMax

theorem EsFloating.limits (t : EsFloating) :
    convertParamLimits (EsParam.floating t).dataType = some (.floating t.min t.max) := by
  cases t <;> rfl

theorem holds_dblMin : binary64.Holds dblMin := by
  refine ⟨1, -1022, by decide, by decide, ?_⟩
  rw [dblMin, Int.cast_one, one_mul, zpow_neg, one_div]
  rfl

theorem holds_fltMin : binary64.Holds fltMin := by
  refine ⟨1, -126, by decide, by decide, ?_⟩
  rw [fltMin, Int.cast_one, one_mul, zpow_neg, one_div]
  rfl

theorem holds_fltMax : binary64.Holds fltMax := by
  refine ⟨2 ^ 24 - 1, 104, by decide, by decide, ?_⟩
  rw [fltMax, Int.cast_sub, Int.cast_pow, Int.cast_ofNat, Int.cast_one]
  rfl

theorem holds_zero : binary64.Holds 0 := ⟨0, 0, by decide, by decide, by simp⟩

theorem EsFloating.holds_min (t : EsFloating) : binary64.Holds t.min := by
  cases t
  case float => exact holds_fltMin
  all_goals exact holds_dblMin

theorem EsFloating.holds_max (t : EsFloating) : binary64.Holds t.max := by
  cases t
  case float => exact holds_fltMax
  all_goals exact holds_dblMax

theorem EsFloating.min_pos (t : EsFloating) : 0 < t.min := by
  cases t <;> simp only [EsFloating.min, fltMin, dblMin] <;> positivity

theorem EsFloating.min_le_one (t : EsFloating) : t.min ≤ 1 := by
  cases t <;> simp only [EsFloating.min, fltMin, dblMin] <;>
    exact div_le_one_of_le₀ (one_le_pow₀ (by norm_num)) (by positivity)

theorem two_pow_le_fltMax : (2 : ℚ) ^ 64 ≤ fltMax := by
  rw [fltMax]
  norm_num

theorem fltMax_le_dblMax : fltMax ≤ dblMax := by
  rw [fltMax, dblMax]
  have hpow : (2 : ℚ) ^ 104 ≤ 2 ^ 971 := pow_le_pow_right₀ (by norm_num) (by norm_num)
  exact mul_le_mul (by norm_num) hpow (by positivity) (by norm_num)

theorem EsFloating.two_pow_le_max (t : EsFloating) : (2 : ℚ) ^ 64 ≤ t.max := by
  cases t
  case float => exact two_pow_le_fltMax
  all_goals exact two_pow_le_fltMax.trans fltMax_le_dblMax

theorem EsFloating.max_le (t : EsFloating) : t.max ≤ dblMax := by
  cases t
  case float => exact fltMax_le_dblMax
  all_goals exact le_rfl

/-! ## Rounding -/

/-- A number in the range of the type stays there. -/
theorem EsFloating.round_mem (t : EsFloating) {q : ℚ} (h : t.min ≤ |q| ∧ |q| ≤ t.max) :
    t.min ≤ |binary64.round q| ∧ |binary64.round q| ≤ t.max := by
  rw [Format.abs_round]
  constructor
  · rw [← binary64.round_holds t.holds_min]
    exact binary64.round_mono h.1
  · rw [← binary64.round_holds t.holds_max]
    exact binary64.round_mono h.2

/-- Whether the `double` of a number is in the limits of the type. -/
theorem outOfLimits_toDouble (t : EsFloating) (q : ℚ) :
    outOfLimits (toDouble q) (.floating t.min t.max) = false ↔
      t.min ≤ |binary64.round q| ∧ |binary64.round q| ≤ t.max := by
  have hmax := t.max_le
  unfold toDouble
  split
  · next h =>
    refine iff_of_false ?_ fun hle ↦ (h.trans_le hle.2).not_ge hmax
    simp [outOfLimits, Double.abs, Double.lt]
  · simp [outOfLimits, Double.abs, Double.lt]

/-- Where `errno` is set, the `double` is not in the range. -/
theorem EsFloating.not_mem_of_erange (t : EsFloating) {q : ℚ}
    (h : (Subject.number q).erange = true) :
    ¬ (t.min ≤ |binary64.round q| ∧ |binary64.round q| ≤ t.max) := by
  rintro ⟨hmin, hmax⟩
  simp only [Subject.erange, Bool.or_eq_true, Bool.and_eq_true, decide_eq_true_eq] at h
  rcases h with h | ⟨-, h⟩
  · exact (h.trans_le hmax).not_ge t.max_le
  · rw [h, abs_zero] at hmin
    exact hmin.not_gt t.min_pos

theorem toDouble_of_le {q : ℚ} (h : |q| ≤ 2 ^ 64) : toDouble q = .fin (binary64.round q) := by
  have hpow : binary64.Holds (2 ^ 64) := by
    refine ⟨1, 64, by decide, by decide, ?_⟩
    rw [Int.cast_one, one_mul]
    rfl
  refine if_neg (not_lt.mpr ?_)
  rw [Format.abs_round]
  exact ((binary64.round_mono h).trans (binary64.round_holds hpow).le).trans
    (two_pow_le_fltMax.trans fltMax_le_dblMax)

/-- The test of a signed integer against the limits is not one of its magnitude. -/
theorem signed_out (t : EsFloating) {z : ℤ} (hz : -2 ^ 63 ≤ z ∧ z < 2 ^ 63) :
    ((toDouble z).lt (.fin t.min) = true ∨ Double.lt (.fin t.max) (toDouble z) = true) ↔
      ¬ 0 < z := by
  have habs : |(z : ℚ)| ≤ 2 ^ 64 := by
    rw [← Int.cast_abs]
    have : |z| ≤ 2 ^ 64 := abs_le.mpr ⟨by omega, by omega⟩
    exact_mod_cast this
  rw [toDouble_of_le habs]
  simp only [Double.lt, decide_eq_true_eq]
  by_cases h : 0 < z
  · have hone : (1 : ℚ) ≤ z := by exact_mod_cast h
    have hmem : t.min ≤ |(z : ℚ)| ∧ |(z : ℚ)| ≤ t.max :=
      ⟨t.min_le_one.trans (hone.trans (le_abs_self _)), habs.trans t.two_pow_le_max⟩
    have hround := t.round_mem hmem
    have hpos : 0 ≤ binary64.round z := by
      rw [← binary64.round_holds holds_zero]
      exact binary64.round_mono (by linarith)
    rw [abs_of_nonneg hpos] at hround
    refine iff_of_false ?_ (not_not.mpr h)
    rintro (hlt | hlt)
    · exact absurd hround.1 (not_le.mpr hlt)
    · exact absurd hround.2 (not_le.mpr hlt)
  · have hle : binary64.round z ≤ 0 := by
      rw [← binary64.round_holds holds_zero]
      exact binary64.round_mono (by exact_mod_cast not_lt.mp h)
    exact iff_of_true (.inl (hle.trans_lt t.min_pos)) h

/-! ## What is sent -/

/-- A number that the application binds: as an integer, as a `double`, which every `float` is
converted to, or as a string that spells it. -/
inductive NumberSource where
  | fixed (c : CFixed) (data : BitVec 64)
  | double (q : ℚ) (holds : binary64.Holds q) (le : |q| ≤ dblMax)
  | text (s : Spelled)

namespace NumberSource

def number : NumberSource → ℚ
  | .fixed c data => c.read data
  | .double q _ _ => q
  | .text s => s.numeral.value

def value : NumberSource → AppValue
  | .fixed c data => .fixed c data
  | .double q _ _ => .floating (.fin q)
  | .text s => .text s.wide s.mem s.octetLen

end NumberSource

def ParamTaken (r : Exec (ParamRec × Except SqlState ParamJson)) : Prop :=
  ∃ irec j, r = .done (irec, .ok j)

def ParamRefused (r : Exec (ParamRec × Except SqlState ParamJson)) (state : SqlState) : Prop :=
  ∃ irec, r = .done (irec, .error state)

theorem ParamRefused.not_taken {r : Exec (ParamRec × Except SqlState ParamJson)} {state : SqlState}
    (h : ParamRefused r state) : ¬ ParamTaken r := by
  rintro ⟨_, _, hdone⟩
  obtain ⟨_, hrefused⟩ := h
  rw [hrefused] at hdone
  cases (Prod.mk.inj (Exec.done.inj hdone)).2

theorem ParamRefused.unique {r : Exec (ParamRec × Except SqlState ParamJson)} {a b : SqlState}
    (ha : ParamRefused r a) (hb : ParamRefused r b) : a = b := by
  obtain ⟨_, ha⟩ := ha
  obtain ⟨_, hb⟩ := hb
  exact Except.error.inj (Prod.mk.inj (Exec.done.inj (ha.symm.trans hb))).2

variable (others : ParamRec → AppValue → Bool → Converted) (dbc : DbcNumbers) (size : ℕ)
variable (t : EsFloating)

/-- What becomes of a number bound for a floating-point type. -/
def floatSent (s : NumberSource) : Exec (ParamRec × Except SqlState ParamJson) :=
  serializeParam others dbc ⟨some (.floating t), size⟩ ⟨false, s.value⟩

theorem irecPromoteBigintType_floating (tnr : TNumber) :
    irecPromoteBigintType dbc ⟨some (.floating t), size⟩ tnr = ⟨some (.floating t), size⟩ := by
  refine if_pos ?_
  show some (EsParam.floating t).dataType ≠ some (-5)
  cases t <;> decide

/-- Both conversions leave the type, and the second one decides. -/
theorem serializeParam_floating {v : AppValue} {a r : Except SqlState (ℕ × WStr)}
    (hfirst : c2sqlNumber dbc ⟨some (.floating t), size⟩ v (some (.floating t.min t.max)) false =
      .done (⟨some (.floating t), size⟩, a))
    (hsecond : c2sqlNumber dbc ⟨some (.floating t), size⟩ v (some (.floating t.min t.max)) true =
      .done (⟨some (.floating t), size⟩, r)) :
    serializeParam others dbc ⟨some (.floating t), size⟩ ⟨false, v⟩ =
      .done (⟨some (.floating t), size⟩, a.bind fun _ ↦ r.map fun out ↦
        ⟨.floating t, out.1, out.2⟩) := by
  have hparam (dest : Bool) :
      convertParamVal others dbc ⟨some (.floating t), size⟩ ⟨false, v⟩ dest =
        c2sqlNumber dbc ⟨some (.floating t), size⟩ v (some (.floating t.min t.max)) dest := by
    simp only [convertParamVal, t.limits, Bool.false_eq_true, if_false]
  rw [serializeParam, hparam, hfirst, Exec.bind_done]
  cases a with
  | error state => rfl
  | ok out =>
    dsimp only
    rw [hparam, hsecond, Exec.bind_done]
    cases r <;> rfl

/-- A signed integer is taken if it is positive. -/
theorem floatSent_signed {c : CFixed} (hc : c.signed = true) (data : BitVec 64) :
    if 0 < c.read data then ParamTaken (floatSent others dbc size t (.fixed c data))
    else ParamRefused (floatSent others dbc size t (.fixed c data)) .s22003 := by
  have hrange := c.read_signed hc data
  have hout := signed_out t hrange
  have hsent := @serializeParam_floating others dbc size t (.fixed c data)
    (.ok (precisionInt64, []))
    (if 0 < c.read data then .ok ((i64tot (c.read data)).length, i64tot (c.read data))
      else .error .s22003)
    (by simp [c2sqlNumber, hc, sfixedToNumber])
    (by simp only [c2sqlNumber, hc, sfixedToNumber, hout, ite_not]; rfl)
  by_cases h : 0 < c.read data
  · rw [if_pos h] at hsent ⊢
    exact ⟨_, _, hsent⟩
  · rw [if_neg h] at hsent ⊢
    exact ⟨_, hsent⟩

theorem floatSent_unsigned {c : CFixed} (hc : c.signed = false) (data : BitVec 64) :
    ParamTaken (floatSent others dbc size t (.fixed c data)) := by
  have hsent := @serializeParam_floating others dbc size t (.fixed c data)
    (.ok (precisionUInt64, []))
    (.ok ((ui64tot (c.read data).toNat).length, ui64tot (c.read data).toNat))
    (by simp [c2sqlNumber, hc, ufixedToNumber, irecPromoteBigintType_floating])
    (by simp [c2sqlNumber, hc, ufixedToNumber, irecPromoteBigintType_floating])
  exact ⟨_, _, hsent⟩

/-- A `double` is taken if it is in the range of the type. -/
theorem floatSent_double {q : ℚ} (holds : binary64.Holds q) (le : |q| ≤ dblMax) :
    if t.min ≤ |q| ∧ |q| ≤ t.max then ParamTaken (floatSent others dbc size t (.double q holds le))
    else ParamRefused (floatSent others dbc size t (.double q holds le)) .s22003 := by
  have hout : outOfLimits (.fin q) (.floating t.min t.max) = false ↔
      t.min ≤ |q| ∧ |q| ≤ t.max := by
    simp [outOfLimits, Double.abs, Double.lt]
  have hfirst : c2sqlNumber dbc ⟨some (.floating t), size⟩ (.floating (.fin q))
      (some (.floating t.min t.max)) false =
        .done (⟨some (.floating t), size⟩, .ok (dblBase10MaxLen + 1, [])) := by
    simp [c2sqlNumber, floatingToNumber, irecPromoteBigintType_floating]
  by_cases h : t.min ≤ |q| ∧ |q| ≤ t.max
  · rw [if_pos h]
    refine ⟨_, _, serializeParam_floating others dbc size t hfirst
      (r := .ok ((printFixed (dbc.maximumScale (.floating t)) (.fin q)).length,
        (printFixed (dbc.maximumScale (.floating t)) (.fin q)).take dblBase10MaxLen)) ?_⟩
    simp [c2sqlNumber, floatingToNumber, irecPromoteBigintType_floating, hout.mpr h]
  · rw [if_neg h]
    refine ⟨_, serializeParam_floating others dbc size t hfirst (r := .error .s22003) ?_⟩
    have hout := Bool.eq_true_of_not_eq_false fun hf ↦ h (hout.mp hf)
    simp [c2sqlNumber, floatingToNumber, irecPromoteBigintType_floating, hout]

/-- A string is taken as an integer; or its `double` decides, if the C library has one. -/
theorem floatSent_text (s : Spelled) :
    (∃ z : ℤ, s.numeral.value = z ∧ -2 ^ 63 ≤ z ∧ z < 2 ^ 64 ∧
      ParamTaken (floatSent others dbc size t (.text s))) ∨
    if t.min ≤ |binary64.round s.numeral.value| ∧ |binary64.round s.numeral.value| ≤ t.max
    then ParamTaken (floatSent others dbc size t (.text s))
    else ParamRefused (floatSent others dbc size t (.text s))
      (if s.next = 0 ∧ (Subject.number s.numeral.value).erange = true then .s22018
        else .s22003) := by
  have haccepted {xnr : TNumber}
      (hread : xstrToNumber s.wide s.mem s.octetLen = .done (some (s.numeral.text, xnr)))
      (hlim : ∀ x, xnr = .dbl x → outOfLimits x (.floating t.min t.max) = false) :
      ParamTaken (floatSent others dbc size t (.text s)) := by
    refine ⟨_, _, @serializeParam_floating others dbc size t (.text s.wide s.mem s.octetLen)
      (.ok (s.numeral.text.length, [])) (.ok (copyUnits s.wide s.mem s.numeral.text.length))
      ?_ ?_⟩
    · simp [c2sqlNumber, stringToNumber, hread, irecPromoteBigintType_floating]
    · cases xnr with
      | bint b => simp [c2sqlNumber, stringToNumber, hread, irecPromoteBigintType_floating]
      | ubint u => simp [c2sqlNumber, stringToNumber, hread, irecPromoteBigintType_floating]
      | dbl x => simp [c2sqlNumber, stringToNumber, hread, irecPromoteBigintType_floating, hlim]
  rcases s.xstrToNumber_cases with ⟨b, hb, hlow, hhigh, hread⟩ | ⟨u, hu, hhigh, hread⟩ | hread
  · exact .inl ⟨b, hb, hlow, by omega, haccepted hread (by simp)⟩
  · exact .inl ⟨u, by exact_mod_cast hu, by omega, by omega, haccepted hread (by simp)⟩
  · refine .inr ?_
    have hout := outOfLimits_toDouble t s.numeral.value
    by_cases herange : s.next = 0 ∧ (Subject.number s.numeral.value).erange = true
    · rw [if_pos herange] at hread ⊢
      have hnot : ¬ (t.min ≤ |binary64.round s.numeral.value| ∧
          |binary64.round s.numeral.value| ≤ t.max) := t.not_mem_of_erange herange.2
      rw [if_neg hnot]
      refine ⟨_, @serializeParam_floating others dbc size t (.text s.wide s.mem s.octetLen)
        (.error .s22018) (.error .s22018) ?_ ?_⟩
      · simp [c2sqlNumber, stringToNumber, hread]
      · simp [c2sqlNumber, stringToNumber, hread]
    · rw [if_neg herange] at hread ⊢
      by_cases h : t.min ≤ |binary64.round s.numeral.value| ∧
          |binary64.round s.numeral.value| ≤ t.max
      · rw [if_pos h]
        refine haccepted hread ?_
        intro x hx
        obtain rfl := TNumber.dbl.inj hx
        exact hout.mpr h
      · rw [if_neg h]
        have hout := Bool.eq_true_of_not_eq_false fun hf ↦ h (hout.mp hf)
        refine ⟨_, @serializeParam_floating others dbc size t (.text s.wide s.mem s.octetLen)
          (.ok (s.numeral.text.length, [])) (.error .s22003) ?_ ?_⟩
        · simp [c2sqlNumber, stringToNumber, hread, irecPromoteBigintType_floating]
        · simp [c2sqlNumber, stringToNumber, hread, irecPromoteBigintType_floating, hout]

/-! ## Which numbers are taken -/

/-- Whether a number is an integer of 64 bits, signed or not. -/
def IsLong (q : ℚ) : Prop := ∃ z : ℤ, q = z ∧ -2 ^ 63 ≤ z ∧ z < 2 ^ 64

theorem EsFloating.mem_of_long (t : EsFloating) {z : ℤ} (hz : -2 ^ 63 ≤ z ∧ z < 2 ^ 64)
    (hne : z ≠ 0) : t.min ≤ |(z : ℚ)| ∧ |(z : ℚ)| ≤ t.max := by
  have habs : (1 : ℤ) ≤ |z| ∧ |z| ≤ 2 ^ 64 :=
    ⟨Int.one_le_abs hne, abs_le.mpr ⟨by omega, by omega⟩⟩
  rw [← Int.cast_abs]
  constructor
  · exact t.min_le_one.trans (by exact_mod_cast habs.1)
  · exact le_trans (by exact_mod_cast habs.2) t.two_pow_le_max

/-- A positive integer of 64 bits is taken from every source. -/
theorem floatSent_long {s : NumberSource} {z : ℤ} (hs : s.number = z) (hpos : 0 < z)
    (hz : z < 2 ^ 64) : ParamTaken (floatSent others dbc size t s) := by
  have hmem := t.mem_of_long ⟨by omega, hz⟩ hpos.ne'
  cases s with
  | fixed c data =>
    have hread : c.read data = z := Int.cast_injective hs
    cases hc : c.signed with
    | true =>
      have := floatSent_signed others dbc size t hc data
      rwa [if_pos (hread ▸ hpos)] at this
    | false => exact floatSent_unsigned others dbc size t hc data
  | double q holds le =>
    have := floatSent_double others dbc size t holds le
    rwa [if_pos (by rwa [show q = z from hs])] at this
  | text s =>
    rcases floatSent_text others dbc size t s with ⟨_, _, _, _, h⟩ | h
    · exact h
    · rwa [if_pos (by rw [show s.numeral.value = z from hs]; exact t.round_mem hmem)] at h

/-- Any other number is taken if its `double` is in the range. -/
theorem floatSent_other {s : NumberSource} (hs : ¬ IsLong s.number) :
    ParamTaken (floatSent others dbc size t s) ↔
      t.min ≤ |binary64.round s.number| ∧ |binary64.round s.number| ≤ t.max := by
  cases s with
  | fixed c data =>
    refine absurd ⟨c.read data, rfl, ?_⟩ hs
    cases hc : c.signed with
    | true =>
      have := c.read_signed hc data
      omega
    | false =>
      have := c.read_unsigned hc data
      omega
  | double q holds le =>
    have h := floatSent_double others dbc size t holds le
    show _ ↔ t.min ≤ |binary64.round q| ∧ |binary64.round q| ≤ t.max
    rw [binary64.round_holds holds]
    by_cases hmem : t.min ≤ |q| ∧ |q| ≤ t.max
    · rw [if_pos hmem] at h
      exact iff_of_true h hmem
    · rw [if_neg hmem] at h
      exact iff_of_false h.not_taken hmem
  | text s =>
    show _ ↔ t.min ≤ |binary64.round s.numeral.value| ∧ |binary64.round s.numeral.value| ≤ t.max
    rcases floatSent_text others dbc size t s with ⟨z, hz, hlow, hhigh, -⟩ | h
    · exact absurd ⟨z, hz, hlow, hhigh⟩ hs
    · split at h
      · next hmem => exact iff_of_true h hmem
      · next hmem => exact iff_of_false h.not_taken hmem

/-- For a number above the range, what a refusal as out of range takes: of a string, that its
`double` is above the range too, and that it does not overflow before a terminator. -/
def AboveRefused (t : EsFloating) : NumberSource → Prop
  | .text s => t.max < |binary64.round s.numeral.value| ∧
      (s.next = 0 → |binary64.round s.numeral.value| ≤ dblMax)
  | _ => True

theorem floatSent_above {s : NumberSource} (hs : t.max < |s.number|) :
    ParamRefused (floatSent others dbc size t s) .s22003 ↔ AboveRefused t s := by
  have hlong (z : ℤ) (hz : s.number = z) : ¬ (-2 ^ 63 ≤ z ∧ z < 2 ^ 64) := by
    intro hrange
    by_cases hzero : z = 0
    · rw [hz, hzero, Int.cast_zero, abs_zero] at hs
      exact hs.not_gt ((by positivity : (0 : ℚ) < 2 ^ 64).trans_le t.two_pow_le_max)
    · rw [hz] at hs
      exact hs.not_ge (t.mem_of_long hrange hzero).2
  cases s with
  | fixed c data =>
    refine absurd ?_ (hlong (c.read data) rfl)
    cases hc : c.signed with
    | true =>
      have := c.read_signed hc data
      omega
    | false =>
      have := c.read_unsigned hc data
      omega
  | double q holds le =>
    have h := floatSent_double others dbc size t holds le
    rw [if_neg fun hmem ↦ hs.not_ge hmem.2] at h
    exact iff_of_true h trivial
  | text s =>
    rcases floatSent_text others dbc size t s with ⟨z, hz, hlow, hhigh, -⟩ | h
    · exact absurd ⟨hlow, hhigh⟩ (hlong z hz)
    · have hmax : t.max ≤ |binary64.round s.numeral.value| := by
        rw [Format.abs_round, ← binary64.round_holds t.holds_max]
        exact binary64.round_mono hs.le
      have hpos : 0 < t.max := (by positivity : (0 : ℚ) < 2 ^ 64).trans_le t.two_pow_le_max
      have hmin : t.min ≤ |binary64.round s.numeral.value| :=
        t.min_le_one.trans ((one_le_pow₀ one_le_two).trans (t.two_pow_le_max.trans hmax))
      have hround : binary64.round s.numeral.value ≠ 0 := abs_pos.mp (hpos.trans_le hmax)
      have herange : (Subject.number s.numeral.value).erange = true ↔
          ¬ |binary64.round s.numeral.value| ≤ dblMax := by
        simp [Subject.erange, hround]
      by_cases hmem : |binary64.round s.numeral.value| ≤ t.max
      · rw [if_pos ⟨hmin, hmem⟩] at h
        exact iff_of_false (fun hrefused ↦ hrefused.not_taken h) fun hlt ↦ hlt.1.not_ge hmem
      · rw [if_neg fun hand ↦ hmem hand.2] at h
        constructor
        · intro hrefused
          refine ⟨not_le.mp hmem, fun hnext ↦ ?_⟩
          by_contra hover
          rw [if_pos ⟨hnext, herange.mpr hover⟩] at h
          cases hrefused.unique h
        · rintro ⟨-, hover⟩
          rwa [if_neg fun hand ↦ herange.mp hand.2 (hover hand.1)] at h

/-! ## The claim -/

/-- Zero and every number in the range is taken, a greater one refused as out of range, and a
number bound in another way does not fare differently. -/
structure FloatKept (s : NumberSource) : Prop where
  inside : s.number = 0 ∨ t.min ≤ |s.number| ∧ |s.number| ≤ t.max →
    ParamTaken (floatSent others dbc size t s)
  above : t.max < |s.number| → ParamRefused (floatSent others dbc size t s) .s22003
  alike : ∀ s' : NumberSource, s'.number = s.number →
    (ParamTaken (floatSent others dbc size t s') ↔ ParamTaken (floatSent others dbc size t s))

/-- An integer that a `long long` can hold is read as one by a test that takes no other than
positive numbers. -/
theorem floatSent_sbigint {z : ℤ} (hz : -2 ^ 63 ≤ z ∧ z ≤ 0) :
    ∃ s : NumberSource, s.number = z ∧ ¬ ParamTaken (floatSent others dbc size t s) := by
  have hread : CFixed.sbigint.read (BitVec.ofInt 64 z) = z := by
    show (BitVec.setWidth 64 (BitVec.ofInt 64 z)).toInt = z
    rw [BitVec.setWidth_eq, BitVec.toInt_ofInt_eq_self (by norm_num)]
    · omega
    · omega
  refine ⟨.fixed .sbigint (BitVec.ofInt 64 z), congrArg Int.cast hread, ?_⟩
  have h := @floatSent_signed others dbc size t .sbigint rfl (BitVec.ofInt 64 z)
  rw [hread, if_neg (not_lt.mpr hz.2)] at h
  exact h.not_taken

end EsOdbc
