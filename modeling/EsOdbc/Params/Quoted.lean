import EsOdbc.Params.Ranges

/-!
# Numbers for character types

`c2sql_number2qstr` of `convert.c`: the text of a number between quotation marks, and how it is
cut to the size of the parameter.
-/

namespace EsOdbc

open Decimal Binary

/-- A text between quotation marks. -/
def quoted (w : WStr) : WStr := 0x22 :: (w ++ [0x22])

/-- `c2sql_number2qstr`; `len` is what `*len` holds before, which is compared with the size where
the conversion has failed without setting it. -/
def c2sqlNumber2qstr (dbc : DbcNumbers) (irec : ParamRec) (v : AppValue) (dest : Bool) (len : ℕ) :
    Converted :=
  (c2sqlNumber dbc irec v none dest).bind fun
    | (irec, .error state) =>
      .done (irec, .error (if dest = true ∧ irec.size < len then .s22003 else state))
    | (irec, .ok (len, written)) =>
      if dest = true ∧ irec.size < len then .done (irec, .error .s22003)
      else .done (irec, .ok (len + 2, if dest then quoted (written.take len) else []))

/-! ## Decimal representations -/

/-- A number of C: an integer, or a `double`, which every `float` is converted to; the zero with a
sign is a number of its own. -/
inductive CNumber where
  | fixed (c : CFixed) (data : BitVec 64)
  | negZero
  | double (q : ℚ) (holds : binary64.Holds q) (le : |q| ≤ dblMax)

namespace CNumber

def value : CNumber → AppValue
  | .fixed c data => .fixed c data
  | .negZero => .floating .negZero
  | .double q _ _ => .floating (.fin q)

/-- The whole part, with the sign. -/
def whole : CNumber → WStr
  | .fixed c data => i64tot (c.read data)
  | .negZero => [0x2D, 0x30]
  | .double q _ _ =>
    signText (if decide (q < 0) then some true else none) ++ digitUnits (digits ⌊|q|⌋.toNat)

/-- The decimal representation: of a `double`, what `%f` prints. -/
def text : CNumber → WStr
  | .fixed c data => i64tot (c.read data)
  | .negZero => printFixed defFloatPrecision .negZero
  | .double q _ _ => printFixed defFloatPrecision (.fin q)

/-- The exponents of the powers of ten on the way. -/
def powers (size : ℕ) : CNumber → List ℕ
  | .fixed _ _ => []
  | .negZero => [wholePlaces size false]
  | .double q _ _ => [wholePlaces size (q < 0)]

end CNumber

/-- A number is sent between quotation marks, cut at most in its fraction and no longer than the
parameter, or refused as out of range, where its whole part is longer; and the powers of ten on
the way have 64 bits. -/
def QuotedKept (n : CNumber) (size : ℕ) (r : Converted) : Prop :=
  (if n.whole.length ≤ size then
    ∃ irec e, n.whole <+: e ∧ e <+: n.text ∧ e.getLast? ≠ some 0x2E ∧ e.length ≤ size ∧
      r = .done (irec, .ok (e.length + 2, quoted e))
  else ∃ irec, r = .done (irec, .error .s22003)) ∧
  ∀ k ∈ n.powers size, 10 ^ k < 2 ^ 64

/-- When that is so of a `double`: it is below `2^64`; the size, in 32 bits and less a sign, is
that of a power of 64 bits; a size with no place for a digit is that of a number from one on;
and no size is taken for a smaller one.  The sign of a zero is not seen. -/
def QuotedSafe (size : ℕ) : CNumber → Prop
  | .fixed _ _ => True
  | .negZero => wholePlaces size false ≤ 19 ∧ 2 ≤ size
  | .double q _ _ =>
    |q| < 2 ^ 64 ∧ wholePlaces size (q < 0) ≤ 19 ∧
      (size = (decide (q < 0)).toNat → 1 ≤ |q|) ∧
      (2 ^ 32 ≤ size → |q| < 10 ^ wholePlaces size (q < 0))

/-! ## What `%f` prints -/

theorem point_ne_unit (d : Fin 10) : unit d ≠ 0x2E := by
  revert d
  decide

theorem point_notMem_digitUnits (ds : List (Fin 10)) : (0x2E : UInt16) ∉ digitUnits ds := by
  intro h
  obtain ⟨d, -, hd⟩ := List.mem_map.mp h
  exact point_ne_unit d hd

theorem point_notMem_signText (sign : Option Bool) : (0x2E : UInt16) ∉ signText sign := by
  cases sign with
  | none => exact List.not_mem_nil
  | some neg => cases neg <;> decide

theorem point_notMem_whole (n : CNumber) : (0x2E : UInt16) ∉ n.whole := by
  cases n with
  | fixed c data =>
    show (0x2E : UInt16) ∉ (Numeral.ofInt (c.read data)).text
    rw [Numeral.text_ofInt, List.mem_append, not_or]
    refine ⟨?_, point_notMem_digitUnits _⟩
    split <;> decide
  | negZero => decide
  | double q holds le =>
    rw [CNumber.whole, List.mem_append, not_or]
    exact ⟨point_notMem_signText _, point_notMem_digitUnits _⟩

/-- A `double` that is no integer keeps away from the next one. -/
theorem floor_gap {a : ℚ} (h : binary64.Holds a) (ha : 0 ≤ a) : 1 / 2 ^ 53 ≤ ⌊a⌋ + 1 - a := by
  obtain ⟨m, e, -, hm, rfl⟩ := h
  have hlt := Int.lt_floor_add_one ((m : ℚ) * 2 ^ e)
  by_cases he : -53 ≤ e
  · obtain ⟨k, hk⟩ := Int.eq_ofNat_of_zero_le (show 0 ≤ e + 53 by omega)
    have hpow : (2 : ℚ) ^ e = 2 ^ k / 2 ^ 53 := by
      rw [eq_div_iff (by positivity), ← zpow_natCast 2 k, ← hk, zpow_add₀ (by norm_num)]
      rfl
    have hint : (⌊(m : ℚ) * 2 ^ e⌋ + 1 - m * 2 ^ e) * 2 ^ 53 =
        (((⌊(m : ℚ) * (2 : ℚ) ^ e⌋ + 1) * 2 ^ 53 - m * 2 ^ k : ℤ) : ℚ) := by
      push_cast
      rw [hpow]
      ring
    rw [div_le_iff₀ (by positivity), hint]
    have hpos : (0 : ℚ) < (((⌊(m : ℚ) * (2 : ℚ) ^ e⌋ + 1) * 2 ^ 53 - m * 2 ^ k : ℤ) : ℚ) := by
      rw [← hint]
      exact mul_pos (sub_pos.mpr hlt) (by positivity)
    exact_mod_cast Int.add_one_le_iff.mpr (Int.cast_pos.mp hpos)
  · have hsmall : (m : ℚ) * 2 ^ e ≤ 1 / 2 := by
      have hm' : (m : ℚ) ≤ 2 ^ 53 := by exact_mod_cast (le_abs_self m).trans hm.le
      have he' : (2 : ℚ) ^ e ≤ 2 ^ (-54 : ℤ) := zpow_le_zpow_right₀ (by norm_num) (by omega)
      calc (m : ℚ) * 2 ^ e ≤ 2 ^ 53 * 2 ^ (-54 : ℤ) :=
            mul_le_mul hm' he' (by positivity) (by positivity)
        _ = 1 / 2 := by norm_num
    have hfloor : (0 : ℚ) ≤ ⌊(m : ℚ) * 2 ^ e⌋ := by exact_mod_cast Int.floor_nonneg.mpr ha
    norm_num
    linarith

/-- The whole part that is printed is that of the number. -/
theorem roundEven_div {a : ℚ} (h : binary64.Holds a) (ha : 0 ≤ a) :
    (roundEven (a * 10 ^ 16)).toNat / 10 ^ 16 = ⌊a⌋.toNat := by
  have hfloor := Int.floor_nonneg.mpr ha
  have hlow : ⌊a⌋ * 10 ^ 16 ≤ roundEven (a * 10 ^ 16) := by
    rw [← roundEven_intCast (⌊a⌋ * 10 ^ 16)]
    refine roundEven_mono ?_
    push_cast
    exact mul_le_mul_of_nonneg_right (Int.floor_le a) (by positivity)
  have hhigh : roundEven (a * 10 ^ 16) ≤ (⌊a⌋ + 1) * 10 ^ 16 - 1 := by
    rw [← roundEven_intCast ((⌊a⌋ + 1) * 10 ^ 16 - 1)]
    refine roundEven_mono ?_
    have hgap := floor_gap h ha
    push_cast
    linarith
  omega

theorem holds_abs {q : ℚ} (h : binary64.Holds q) : binary64.Holds |q| := by
  obtain ⟨m, e, he, hm, rfl⟩ := h
  refine ⟨|m|, e, he, by rwa [abs_abs], ?_⟩
  rw [abs_mul, Int.cast_abs, abs_of_pos (Format.two_zpow_pos e)]

theorem text_double {q : ℚ} (holds : binary64.Holds q) (le : |q| ≤ dblMax) :
    (CNumber.double q holds le).text = (CNumber.double q holds le).whole ++
      0x2E :: digitUnits (lastDigits 16 (roundEven (|q| * 10 ^ 16)).toNat) := by
  rw [CNumber.text, printFixed, fixedUnits, CNumber.whole]
  dsimp only [defFloatPrecision]
  rw [roundEven_div (holds_abs holds) (abs_nonneg q)]
  rfl

/-! ## The cut -/

/-- The length of a text cut to a size. -/
def cutLen (text : WStr) (size : ℕ) : ℕ :=
  let len := if text.length < size then text.length else size
  if len ≠ 0 ∧ text[len - 1]? = some 0x2E then len - 1 else len

theorem cutLen_le (text : WStr) (size : ℕ) : cutLen text size ≤ size := by
  simp only [cutLen]
  split_ifs <;> omega

/-- A text is cut to a size with a place for its whole part: behind it, and not behind the
point. -/
theorem cut_spec {whole fraction : WStr} {size : ℕ} (hw : (0x2E : UInt16) ∉ whole)
    (hf : (0x2E : UInt16) ∉ fraction) (hne : whole ≠ []) (hle : whole.length ≤ size) :
    ∃ e, whole <+: e ∧ e <+: whole ++ 0x2E :: fraction ∧ e.getLast? ≠ some 0x2E ∧
      cutLen (whole ++ 0x2E :: fraction) size = e.length ∧
      (whole ++ 0x2E :: fraction).take e.length = e := by
  have hpos := List.length_pos_of_ne_nil hne
  have htotal : (whole ++ 0x2E :: fraction).length = whole.length + (fraction.length + 1) := by
    rw [List.length_append, List.length_cons]
  obtain ⟨len, hlen⟩ : ∃ len, len = if (whole ++ 0x2E :: fraction).length < size
    then (whole ++ 0x2E :: fraction).length else size := ⟨_, rfl⟩
  have hcut : cutLen (whole ++ 0x2E :: fraction) size =
      if len ≠ 0 ∧ (whole ++ 0x2E :: fraction)[len - 1]? = some 0x2E then len - 1 else len := by
    rw [hlen]
    rfl
  have hbounds : whole.length ≤ len ∧ len ≤ (whole ++ 0x2E :: fraction).length := by
    rw [htotal] at hlen ⊢
    split at hlen <;> omega
  obtain ⟨hlow, htop⟩ := hbounds
  rw [hcut]
  by_cases hpoint : (whole ++ 0x2E :: fraction)[len - 1]? = some 0x2E
  · have hat : len - 1 = whole.length := by
      rcases lt_trichotomy (len - 1) whole.length with hlt | heq | hgt
      · rw [List.getElem?_append_left hlt] at hpoint
        exact absurd (List.mem_of_getElem? hpoint) hw
      · exact heq
      · obtain ⟨i, hi⟩ := Nat.exists_eq_add_of_lt hgt
        rw [List.getElem?_append_right hgt.le, hi, Nat.add_assoc, Nat.add_sub_cancel_left,
          List.getElem?_cons_succ] at hpoint
        exact absurd (List.mem_of_getElem? hpoint) hf
    refine ⟨whole, List.prefix_rfl, List.prefix_append _ _, ?_, ?_, List.take_left⟩
    · exact fun hlast ↦ hw (List.mem_of_getLast? hlast)
    · rw [if_pos ⟨by omega, hpoint⟩, hat]
  · refine ⟨(whole ++ 0x2E :: fraction).take len, ?_, List.take_prefix _ _, ?_, ?_, ?_⟩
    · exact List.prefix_of_prefix_length_le (List.prefix_append _ _) (List.take_prefix _ _) (by
        rw [List.length_take, min_eq_left htop]
        exact hlow)
    · have hget : (whole ++ 0x2E :: fraction)[len - 1]? =
          some ((whole ++ 0x2E :: fraction)[len - 1]) := List.getElem?_eq_getElem _
      rw [List.getLast?_take, if_neg (by omega), hget, Option.some_or, ← hget]
      exact hpoint
    · rw [if_neg fun h ↦ hpoint h.2, List.length_take, min_eq_left htop]
    · rw [List.length_take, min_eq_left htop]

/-! ## What is sent -/

variable (dbc : DbcNumbers) (size : ℕ)

/-- What becomes of a number bound for a character type. -/
def quotedSent (n : CNumber) (len : ℕ) : Converted :=
  c2sqlNumber2qstr dbc ⟨some .string, size⟩ n.value true len

theorem irecPromoteBigintType_string (tnr : TNumber) :
    irecPromoteBigintType dbc ⟨some .string, size⟩ tnr = ⟨some .string, size⟩ := by
  refine if_pos ?_
  show some EsParam.string.dataType ≠ some (-5)
  decide

theorem quotedSent_fixed (c : CFixed) (data : BitVec 64) (len : ℕ) :
    quotedSent dbc size (.fixed c data) len = .done (⟨some .string, size⟩,
      if size < (i64tot (c.read data)).length then .error .s22003
      else .ok ((i64tot (c.read data)).length + 2, quoted (i64tot (c.read data)))) := by
  have hnumber : c2sqlNumber dbc ⟨some .string, size⟩ (.fixed c data) none true =
      .done (⟨some .string, size⟩, .ok ((i64tot (c.read data)).length, i64tot (c.read data))) := by
    cases hc : c.signed with
    | true => simp [c2sqlNumber, hc, sfixedToNumber]
    | false =>
      have hnat : ((c.read data).toNat : ℤ) = c.read data :=
        Int.toNat_of_nonneg (c.read_unsigned hc data).1
      simp [c2sqlNumber, hc, ufixedToNumber, irecPromoteBigintType_string, ui64tot, i64tot, hnat]
  rw [quotedSent, c2sqlNumber2qstr]
  show (c2sqlNumber dbc ⟨some .string, size⟩ (.fixed c data) none true).bind _ = _
  rw [hnumber, Exec.bind_done]
  by_cases h : size < (i64tot (c.read data)).length
  · simp [h]
  · simp [h]

theorem toInt_abs (q : ℚ) : (Double.fin q).abs.toInt 0 (2 ^ 64) =
    if |q| < 2 ^ 64 then some ⌊|q|⌋ else none := by
  have hfloor := Int.floor_nonneg.mpr (abs_nonneg q)
  have hlt : ⌊|q|⌋ < 2 ^ 64 ↔ |q| < 2 ^ 64 := by
    rw [Int.floor_lt]
    norm_cast
  simp only [Double.abs, Double.toInt, if_neg (not_lt.mpr (abs_nonneg q)), hfloor, true_and, hlt]

/-- A `double` below `2^64` is printed and cut, if its whole part has a place by `pow10`. -/
theorem quotedSent_floating {n : CNumber} {x : Double} {whole : ℤ} (hn : n.value = .floating x)
    (htext : n.text = printFixed defFloatPrecision x)
    (hwhole : x.abs.toInt 0 (2 ^ 64) = some whole) (len : ℕ) :
    quotedSent dbc size n len = .done (⟨some .string, size⟩,
      if whole < pow10 (wholePlaces size (x.lt (.fin 0))) then
        .ok (cutLen n.text size + 2, quoted (n.text.take (cutLen n.text size)))
      else .error .s22003) := by
  have hnumber : c2sqlNumber dbc ⟨some .string, size⟩ (.floating x) none true =
      .done (⟨some .string, size⟩, if whole < pow10 (wholePlaces size (x.lt (.fin 0))) then
        .ok (cutLen n.text size, n.text) else .error .s22003) := by
    simp only [c2sqlNumber, floatingToNumber, irecPromoteBigintType_string, hwhole]
    by_cases hw : whole < (pow10 (wholePlaces size (x.lt (.fin 0))) : ℤ)
    · simp only [if_pos hw, htext]
      rfl
    · simp only [if_neg hw]
      rfl
  have hcut := cutLen_le n.text size
  rw [quotedSent, c2sqlNumber2qstr, hn, hnumber, Exec.bind_done]
  by_cases hw : whole < (pow10 (wholePlaces size (x.lt (.fin 0))) : ℤ)
  · simp [if_pos hw, Nat.not_lt.mpr hcut]
  · simp [if_neg hw]

theorem quotedSent_double {q : ℚ} (holds : binary64.Holds q) (le : |q| ≤ dblMax) (len : ℕ) :
    quotedSent dbc size (.double q holds le) len =
      if |q| < 2 ^ 64 then
        .done (⟨some .string, size⟩, if ⌊|q|⌋ < pow10 (wholePlaces size (q < 0)) then
          .ok (cutLen (CNumber.double q holds le).text size + 2,
            quoted ((CNumber.double q holds le).text.take
              (cutLen (CNumber.double q holds le).text size)))
          else .error .s22003)
      else .undefined := by
  have hwhole := toInt_abs q
  by_cases hq : |q| < 2 ^ 64
  · rw [if_pos hq] at hwhole
    rw [if_pos hq]
    exact quotedSent_floating dbc size rfl rfl hwhole len
  · rw [if_neg hq] at hwhole
    rw [if_neg hq, quotedSent, c2sqlNumber2qstr]
    show (c2sqlNumber dbc ⟨some .string, size⟩ (.floating (.fin q)) none true).bind _ = _
    simp only [c2sqlNumber, floatingToNumber, irecPromoteBigintType_string, hwhole]
    rfl

/-- The whole text of what is cut. -/
theorem quotedSent_cut {n : CNumber} {fraction : WStr} {irec : ParamRec} {r : Converted}
    (htext : n.text = n.whole ++ 0x2E :: fraction) (hf : (0x2E : UInt16) ∉ fraction)
    (hne : n.whole ≠ []) (hle : n.whole.length ≤ size)
    (hr : r = .done (irec, .ok (cutLen n.text size + 2,
      quoted (n.text.take (cutLen n.text size))))) :
    ∃ irec e, n.whole <+: e ∧ e <+: n.text ∧ e.getLast? ≠ some 0x2E ∧ e.length ≤ size ∧
      r = .done (irec, .ok (e.length + 2, quoted e)) := by
  obtain ⟨e, hwhole, hprefix, hlast, hlen, htake⟩ :=
    cut_spec (point_notMem_whole n) hf hne hle
  rw [← htext] at hprefix hlen htake
  refine ⟨irec, e, hwhole, hprefix, hlast, hlen ▸ cutLen_le _ _, ?_⟩
  rw [hr, hlen, htake]

/-! ## The claim -/

theorem pow10_eq {n : ℕ} (hn : n ≤ 19) : pow10 n = 10 ^ n := by
  rw [pow10_eq_mod (by omega)]
  exact Nat.mod_eq_of_lt ((Nat.pow_le_pow_right (by norm_num) hn).trans_lt (by norm_num))

theorem powers_fit {n : ℕ} : 10 ^ n < 2 ^ 64 ↔ n ≤ 19 := by
  constructor
  · intro h
    by_contra hn
    have hpow : 10 ^ 20 ≤ 10 ^ n := Nat.pow_le_pow_right (by norm_num) (by omega)
    omega
  · intro hn
    exact (Nat.pow_le_pow_right (by norm_num) hn).trans_lt (by norm_num)

theorem length_digits_iff {m n : ℕ} (hn : 0 < n) : (digits m).length ≤ n ↔ m < 10 ^ n := by
  constructor
  · intro h
    have hlt := ofDigits_lt (digits m)
    rw [ofDigits_digits] at hlt
    exact hlt.trans_le (Nat.pow_le_pow_right (by norm_num) h)
  · exact length_digits_le hn

theorem wholePlaces_eq {size : ℕ} {neg : Bool} (h : wholePlaces size neg ≤ 19) :
    neg.toNat ≤ size ∧ (size < 2 ^ 32 → wholePlaces size neg = size - neg.toNat) := by
  have hneg : neg.toNat ≤ 1 := Bool.toNat_le neg
  unfold wholePlaces at h ⊢
  omega

theorem length_whole {q : ℚ} (holds : binary64.Holds q) (le : |q| ≤ dblMax) :
    (CNumber.double q holds le).whole.length =
      (decide (q < 0)).toNat + (digits ⌊|q|⌋.toNat).length := by
  rw [CNumber.whole, List.length_append, digitUnits_length]
  by_cases h : q < 0 <;> simp [h, signText]

theorem floor_lt_pow (q : ℚ) (n : ℕ) : ⌊|q|⌋.toNat < 10 ^ n ↔ |q| < 10 ^ n := by
  have hfloor := Int.floor_nonneg.mpr (abs_nonneg q)
  rw [Int.toNat_lt hfloor, Int.floor_lt]
  norm_cast

/-- A size with less than 32 bits has a place for the whole part, if that is what the power of
ten says; a number below one has a whole part all the same. -/
theorem whole_fits {q : ℚ} (holds : binary64.Holds q) (le : |q| ≤ dblMax) {size : ℕ}
    (hn : wholePlaces size (q < 0) ≤ 19) (hsize : size < 2 ^ 32) :
    (CNumber.double q holds le).whole.length ≤ size ↔
      |q| < 10 ^ wholePlaces size (q < 0) ∧ size ≠ (decide (q < 0)).toNat := by
  obtain ⟨hneg, hplaces⟩ := wholePlaces_eq hn
  have hdigits := List.length_pos_of_ne_nil (digits_ne_nil ⌊|q|⌋.toNat)
  rw [length_whole, hplaces hsize]
  by_cases hzero : size = (decide (q < 0)).toNat
  · refine iff_of_false ?_ fun h ↦ h.2 hzero
    omega
  · rw [← floor_lt_pow, ← length_digits_iff (by omega), and_iff_left hzero]
    omega

theorem length_whole_le {q : ℚ} (holds : binary64.Holds q) (le : |q| ≤ dblMax)
    (hq : |q| < 2 ^ 64) : (CNumber.double q holds le).whole.length ≤ 21 := by
  have hlt : ⌊|q|⌋.toNat < 10 ^ 20 :=
    (floor_lt_pow q 20).mpr (hq.trans (by norm_num))
  have hlen := length_digits_le (by norm_num) hlt
  have hneg := Bool.toNat_le (decide (q < 0))
  rw [length_whole]
  omega

/-- A number is sent as its decimal representation, cut in its fraction, or refused as out of
range, if and only if it is an integer or a `double` and a size for which the powers of ten
say whether there is a place for the whole part. -/
theorem number2qstr_kept (n : CNumber) (len : ℕ) :
    QuotedKept n size (quotedSent dbc size n len) ↔ QuotedSafe size n := by
  cases n with
  | fixed c data =>
    refine iff_of_true ⟨?_, by simp [CNumber.powers]⟩ trivial
    rw [quotedSent_fixed]
    show if (i64tot (c.read data)).length ≤ size then _ else _
    by_cases h : (i64tot (c.read data)).length ≤ size
    · rw [if_pos h, if_neg (Nat.not_lt.mpr h)]
      refine ⟨_, _, List.prefix_rfl, List.prefix_rfl, ?_, h, rfl⟩
      exact fun hlast ↦ point_notMem_whole (.fixed c data) (List.mem_of_getLast? hlast)
    · rw [if_neg h, if_pos (Nat.lt_of_not_le h)]
      exact ⟨_, rfl⟩
  | negZero =>
    have hsent := @quotedSent_floating dbc size .negZero .negZero 0 rfl rfl
      (by simp [Double.abs, Double.toInt]) len
    rw [if_pos (by exact_mod_cast pow10_pos _)] at hsent
    have hpowers : (∀ k ∈ CNumber.negZero.powers size, 10 ^ k < 2 ^ 64) ↔
        wholePlaces size false ≤ 19 := by
      rw [CNumber.powers, List.forall_mem_singleton, powers_fit]
    rw [QuotedKept, hpowers, and_comm]
    refine and_congr_right fun _ ↦ ?_
    show (if 2 ≤ size then _ else _) ↔ _
    by_cases h : 2 ≤ size
    · rw [if_pos h]
      refine iff_of_true (quotedSent_cut size (n := .negZero) ?_ (point_notMem_digitUnits
        (lastDigits 16 0)) (List.cons_ne_nil _ _) h hsent) h
      rfl
    · rw [if_neg h]
      refine iff_of_false ?_ h
      rintro ⟨_, hrefused⟩
      rw [hsent] at hrefused
      cases (Prod.mk.inj (Exec.done.inj hrefused)).2
  | double q holds le =>
    have hpowers : (∀ k ∈ (CNumber.double q holds le).powers size, 10 ^ k < 2 ^ 64) ↔
        wholePlaces size (q < 0) ≤ 19 := by
      rw [CNumber.powers, List.forall_mem_singleton, powers_fit]
    have hfits (hn : wholePlaces size (q < 0) ≤ 19) :
        ⌊|q|⌋ < (pow10 (wholePlaces size (q < 0)) : ℤ) ↔ |q| < 10 ^ wholePlaces size (q < 0) := by
      rw [pow10_eq hn, ← floor_lt_pow, Int.toNat_lt (Int.floor_nonneg.mpr (abs_nonneg q))]
    rw [QuotedKept, hpowers, quotedSent_double]
    constructor
    · rintro ⟨hsent, hn⟩
      by_cases hq : |q| < 2 ^ 64
      · rw [if_pos hq] at hsent
        refine ⟨hq, hn, fun hsize ↦ ?_, fun hsize ↦ ?_⟩
        · by_contra hone
          have hneg := Bool.toNat_le (decide (q < 0))
          have hlt : |q| < 10 ^ wholePlaces size (q < 0) :=
            (not_le.mp hone).trans_le (one_le_pow₀ (by norm_num))
          rw [if_pos ((hfits hn).mpr hlt),
            if_neg fun h ↦ ((whole_fits holds le hn (by omega)).mp h).2 hsize] at hsent
          obtain ⟨_, h⟩ := hsent
          cases (Prod.mk.inj (Exec.done.inj h)).2
        · by_contra hover
          have hle := length_whole_le holds le hq
          rw [if_neg fun h ↦ hover ((hfits hn).mp h), if_pos (by omega)] at hsent
          obtain ⟨_, _, -, -, -, -, h⟩ := hsent
          cases (Prod.mk.inj (Exec.done.inj h)).2
      · rw [if_neg hq] at hsent
        split at hsent
        · obtain ⟨_, _, -, -, -, -, h⟩ := hsent
          cases h
        · obtain ⟨_, h⟩ := hsent
          cases h
    · rintro ⟨hq, hn, hzero, hlarge⟩
      refine ⟨?_, hn⟩
      have hplace : (CNumber.double q holds le).whole.length ≤ size ↔
          |q| < 10 ^ wholePlaces size (q < 0) := by
        by_cases hsize : size < 2 ^ 32
        · rw [whole_fits holds le hn hsize, and_iff_left_iff_imp]
          intro hlt hsame
          rw [(wholePlaces_eq hn).2 hsize, hsame, Nat.sub_self, pow_zero] at hlt
          exact hlt.not_ge (hzero hsame)
        · have hle := length_whole_le holds le hq
          exact iff_of_true (by omega) (hlarge (Nat.le_of_not_lt hsize))
      rw [if_pos hq]
      by_cases hlt : |q| < 10 ^ wholePlaces size (q < 0)
      · rw [if_pos (hplace.mpr hlt), if_pos ((hfits hn).mpr hlt)]
        have hne : (CNumber.double q holds le).whole ≠ [] := by
          rw [← List.length_pos_iff, length_whole]
          exact Nat.add_pos_right _ (List.length_pos_of_ne_nil (digits_ne_nil _))
        exact quotedSent_cut size (text_double holds le) (point_notMem_digitUnits _) hne
          (hplace.mpr hlt) rfl
      · rw [if_neg fun h ↦ hlt (hplace.mp h), if_neg fun h ↦ hlt ((hfits hn).mp h)]
        exact ⟨_, rfl⟩

theorem holds_two_pow : binary64.Holds (2 ^ 62) := by
  refine ⟨1, 62, by decide, by decide, ?_⟩
  rw [Int.cast_one, one_mul]
  rfl

theorem two_pow_le_dblMax : |(2 : ℚ) ^ 62| ≤ dblMax := by
  rw [abs_of_pos (by positivity), dblMax]
  have hpow : (2 : ℚ) ^ 62 ≤ 2 ^ 971 := pow_le_pow_right₀ (by norm_num) (by norm_num)
  exact hpow.trans (le_mul_of_one_le_left (by positivity) (by norm_num))

/-- For `VARCHAR(22)` a number of 19 digits is refused: the power of ten has lost its upper
bits. -/
theorem quotedSent_two_pow :
    ¬ QuotedKept (.double (2 ^ 62) holds_two_pow two_pow_le_dblMax) 22
      (quotedSent ⟨true, fun _ ↦ 0⟩ 22 (.double (2 ^ 62) holds_two_pow two_pow_le_dblMax) 0) := by
  have hneg : decide ((2 : ℚ) ^ 62 < 0) = false := by norm_num
  have habs : |(2 : ℚ) ^ 62| = 2 ^ 62 := abs_of_pos (by positivity)
  have hfloor : ⌊(2 : ℚ) ^ 62⌋ = 2 ^ 62 := by
    rw [Int.floor_eq_iff]
    norm_num
  have hpow : pow10 22 = 1864712049423024128 := by
    rw [pow10_eq_mod (by norm_num)]
    norm_num
  have hsent := quotedSent_double ⟨true, fun _ ↦ 0⟩ 22 holds_two_pow two_pow_le_dblMax 0
  rw [habs, if_pos (by norm_num), hneg, show wholePlaces 22 false = 22 from rfl, hpow, hfloor,
    if_neg (by norm_num)] at hsent
  rintro ⟨hkept, -⟩
  have hle := length_whole_le holds_two_pow two_pow_le_dblMax (by rw [habs]; norm_num)
  rw [hsent, if_pos (by omega)] at hkept
  obtain ⟨_, _, -, -, -, -, h⟩ := hkept
  cases (Prod.mk.inj (Exec.done.inj h)).2

end EsOdbc
