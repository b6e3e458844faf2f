import EsOdbc.Params.Number

/-!
# Integers for integer types

What an integer of the application is sent as, and for which integers that is the number itself
with a type that has it.
-/

namespace EsOdbc

open Decimal

/-! ## The ranges of the types -/

/-- The numbers of an integer type. -/
def EsFixed.Holds : EsFixed → ℤ → Prop
  | .byte, v => -2 ^ 7 ≤ v ∧ v < 2 ^ 7
  | .short, v => -2 ^ 15 ≤ v ∧ v < 2 ^ 15
  | .integer, v => -2 ^ 31 ≤ v ∧ v < 2 ^ 31
  | .long, v => -2 ^ 63 ≤ v ∧ v < 2 ^ 63
  | .unsignedLong, v => 0 ≤ v ∧ v < 2 ^ 64

instance (t : EsFixed) (v : ℤ) : Decidable (t.Holds v) := by
  cases t <;> unfold EsFixed.Holds <;> infer_instance

/-- What the conversion takes for a type. -/
def EsFixed.Admits : EsFixed → ℤ → Prop
  | .byte, v | .short, v => -2 ^ 7 ≤ v ∧ v < 2 ^ 7
  | .integer, v => -2 ^ 31 ≤ v ∧ v < 2 ^ 31
  | .long, v | .unsignedLong, v => -2 ^ 63 ≤ v ∧ v < 2 ^ 64

instance (t : EsFixed) (v : ℤ) : Decidable (t.Admits v) := by
  cases t <;> unfold EsFixed.Admits <;> infer_instance

theorem EsFixed.limits (t : EsFixed) : ∃ min max,
    convertParamLimits (EsParam.fixed t).dataType = some (.fixed min max) ∧ min ≤ 0 ∧
      ∀ v : ℤ, t.Admits v ↔ ¬ (v < min ∨ (v > 0 ∧ max < v.toNat)) := by
  have hmax := ullongMax_eq
  cases t
  all_goals
    refine ⟨_, _, rfl, by norm_num, fun v ↦ ?_⟩
    simp only [EsFixed.Admits]
    omega

theorem EsFixed.dataType_eq (t : EsFixed) :
    (EsParam.fixed t).dataType = -5 ↔ t = .long ∨ t = .unsignedLong := by
  cases t <;> decide

/-! ## The integers of C -/

theorem CFixed.width_pos (c : CFixed) : 0 < c.width ∧ c.width ≤ 64 := by
  cases c <;> decide

theorem CFixed.read_signed {c : CFixed} (h : c.signed = true) (data : BitVec 64) :
    -2 ^ 63 ≤ c.read data ∧ c.read data < 2 ^ 63 := by
  obtain ⟨hpos, hle⟩ := c.width_pos
  have hlow := BitVec.le_toInt (data.setWidth c.width)
  have hhigh := @BitVec.toInt_lt c.width (data.setWidth c.width)
  have hpow : (2 : ℤ) ^ (c.width - 1) ≤ 2 ^ 63 := pow_le_pow_right₀ (by norm_num) (by omega)
  rw [CFixed.read, if_pos h]
  exact ⟨(neg_le_neg hpow).trans hlow, hhigh.trans_le hpow⟩

theorem CFixed.read_unsigned {c : CFixed} (h : c.signed = false) (data : BitVec 64) :
    0 ≤ c.read data ∧ c.read data < 2 ^ 64 := by
  obtain ⟨-, hle⟩ := c.width_pos
  have hlt := (data.setWidth c.width).isLt
  have hpow : 2 ^ c.width ≤ 2 ^ 64 := Nat.pow_le_pow_right (by norm_num) hle
  rw [CFixed.read, if_neg (by simp [h])]
  constructor
  · exact Int.natCast_nonneg _
  · exact_mod_cast hlt.trans_le hpow

/-! ## What is sent -/

variable (others : ParamRec → AppValue → Bool → Converted) (dbc : DbcNumbers) (size : ℕ)

/-- The text or state that the second conversion of an integer leaves. -/
def fixedSent (t : EsFixed) (v : ℤ) : Except SqlState ParamJson :=
  if t.Admits v then .ok ⟨.fixed t, (i64tot v).length, i64tot v⟩ else .error .s22003

/-- A signed integer is sent with the type of the parameter. -/
theorem serializeParam_signed (t : EsFixed) {c : CFixed} (hc : c.signed = true)
    (data : BitVec 64) :
    serializeParam others dbc ⟨some (.fixed t), size⟩ ⟨false, .fixed c data⟩ =
      .done (⟨some (.fixed t), size⟩, fixedSent t (c.read data)) := by
  obtain ⟨min, max, hlim, -, hadmits⟩ := t.limits
  have hfirst : convertParamVal others dbc ⟨some (.fixed t), size⟩ ⟨false, .fixed c data⟩ false =
      .done (⟨some (.fixed t), size⟩, .ok (precisionInt64, [])) := by
    simp [convertParamVal, hlim, c2sqlNumber, hc, sfixedToNumber]
  have hsecond : convertParamVal others dbc ⟨some (.fixed t), size⟩ ⟨false, .fixed c data⟩ true =
      .done (⟨some (.fixed t), size⟩, if t.Admits (c.read data)
        then .ok ((i64tot (c.read data)).length, i64tot (c.read data)) else .error .s22003) := by
    simp only [convertParamVal, hlim, c2sqlNumber, hc, sfixedToNumber, hadmits, ite_not]
    rfl
  rw [serializeParam, hfirst, Exec.bind_done]
  dsimp only
  rw [hsecond, Exec.bind_done, fixedSent]
  by_cases h : t.Admits (c.read data)
  · rw [if_pos h, if_pos h]
  · rw [if_neg h, if_neg h]

/-- The type an unsigned integer is announced with: none is left, where the server lacks the
one that has it. -/
def announcedUnsigned (t : EsFixed) (v : ℤ) : Option EsFixed :=
  if (t = .long ∨ t = .unsignedLong) ∧ 2 ^ 63 ≤ v then
    if dbc.ulong then some .unsignedLong else none
  else some t

theorem announcedUnsigned_cases {t a : EsFixed} {v : ℤ} (h : announcedUnsigned dbc t v = some a) :
    announcedUnsigned dbc a v = some a ∧ (t.Admits v ↔ a.Admits v) := by
  unfold announcedUnsigned at h
  split_ifs at h with hlong hulong
  · obtain rfl := Option.some.inj h
    refine ⟨?_, ?_⟩
    · rw [announcedUnsigned, if_pos ⟨.inr rfl, hlong.2⟩, if_pos hulong]
    · rcases hlong.1 with rfl | rfl <;> exact Iff.rfl
  · obtain rfl := Option.some.inj h
    exact ⟨if_neg hlong, Iff.rfl⟩

theorem irecPromoteBigintType_ubint (t : EsFixed) (n : ℕ) :
    irecPromoteBigintType dbc ⟨some (.fixed t), size⟩ (.ubint n) =
      ⟨(announcedUnsigned dbc t n).map .fixed, size⟩ := by
  have hmax : n ≤ llongMax ↔ ¬ (2 : ℤ) ^ 63 ≤ n := by
    rw [show llongMax = 2 ^ 63 - 1 from rfl]
    omega
  simp only [irecPromoteBigintType, announcedUnsigned, Option.map_some, ne_eq, Option.some.injEq,
    t.dataType_eq, hmax, DbcNumbers.ulongType]
  by_cases hlong : t = .long ∨ t = .unsignedLong
  · by_cases h : (2 : ℤ) ^ 63 ≤ n
    · simp only [hlong, h, not_true_eq_false, if_false, and_self, if_true]
      cases dbc.ulong <;> rfl
    · simp only [hlong, h, not_true_eq_false, if_false, not_false_eq_true, if_true, and_false,
        Option.map_some]
  · simp only [hlong, not_false_eq_true, if_true, false_and, if_false, Option.map_some]

/-- An unsigned integer is sent with the type that has it among the long ones. -/
theorem serializeParam_unsigned (t : EsFixed) {c : CFixed} (hc : c.signed = false)
    (data : BitVec 64) :
    serializeParam others dbc ⟨some (.fixed t), size⟩ ⟨false, .fixed c data⟩ =
      (announcedUnsigned dbc t (c.read data)).elim .undefined fun a ↦
        .done (⟨some (.fixed a), size⟩, fixedSent a (c.read data)) := by
  have hnat : ((c.read data).toNat : ℤ) = c.read data :=
    Int.toNat_of_nonneg (c.read_unsigned hc data).1
  have hpromote (t : EsFixed) :
      irecPromoteBigintType dbc ⟨some (.fixed t), size⟩ (.ubint (c.read data).toNat) =
        ⟨(announcedUnsigned dbc t (c.read data)).map .fixed, size⟩ := by
    rw [irecPromoteBigintType_ubint, hnat]
  have hfirst : convertParamVal others dbc ⟨some (.fixed t), size⟩ ⟨false, .fixed c data⟩ false =
      .done (⟨(announcedUnsigned dbc t (c.read data)).map .fixed, size⟩,
        .ok (precisionUInt64, [])) := by
    obtain ⟨min, max, hlim, -, -⟩ := t.limits
    simp [convertParamVal, hlim, c2sqlNumber, hc, ufixedToNumber, hpromote]
  have hsecond (a : EsFixed) (ha : announcedUnsigned dbc a (c.read data) = some a) :
      convertParamVal others dbc ⟨some (.fixed a), size⟩ ⟨false, .fixed c data⟩ true =
        .done (⟨some (.fixed a), size⟩, if a.Admits (c.read data)
          then .ok ((i64tot (c.read data)).length, i64tot (c.read data)) else .error .s22003) := by
    obtain ⟨min, max, hlim, hmin, hadmits⟩ := a.limits
    have hout : max < (c.read data).toNat ↔ ¬ a.Admits (c.read data) := by
      have hnonneg := (c.read_unsigned hc data).1
      rw [hadmits, not_not]
      omega
    simp only [convertParamVal, hlim, c2sqlNumber, hc, ufixedToNumber, hpromote, ha, hout, ite_not,
      ui64tot, hnat]
    rfl
  rw [serializeParam, hfirst, Exec.bind_done]
  dsimp only
  cases ha : announcedUnsigned dbc t (c.read data) with
  | none => rfl
  | some a =>
    show (convertParamVal others dbc ⟨some (.fixed a), size⟩ _ true).bind _ = _
    rw [hsecond a (announcedUnsigned_cases dbc ha).1, Exec.bind_done, Option.elim_some, fixedSent]
    by_cases h : a.Admits (c.read data)
    · rw [if_pos h, if_pos h]
    · rw [if_neg h, if_neg h]

/-! ## The claim -/

/-- An integer is sent as itself, if the type announced for it has it, and refused as out of
range if not. -/
def RangeKept (r : Exec (ParamRec × Except SqlState ParamJson)) (v : ℤ) : Prop :=
  ∃ irec res a, r = .done (irec, res) ∧ irec.esType = some (.fixed a) ∧
    if a.Holds v then ∃ n : Numeral, n.IsJson ∧ n.value = v ∧
      res = .ok ⟨.fixed a, n.text.length, n.text⟩
    else res = .error .s22003

/-- For a type that the range of another is taken for, or that has no range of its own, what
there is of an integer that is neither lost nor let through. -/
def EsFixed.Kept (ulong : Bool) : EsFixed → ℤ → Prop
  | .byte, _ | .integer, _ => True
  | .short, v => -2 ^ 15 ≤ v → v < 2 ^ 15 → -2 ^ 7 ≤ v ∧ v < 2 ^ 7
  | .long, v => 2 ^ 63 ≤ v → ulong = true
  | .unsignedLong, v => 0 ≤ v ∧ (2 ^ 63 ≤ v → ulong = true)

theorem rangeKept_sent {irec : ParamRec} {a : EsFixed} {v : ℤ}
    (h : irec.esType = some (.fixed a)) :
    RangeKept (.done (irec, fixedSent a v)) v ↔ (a.Holds v ↔ a.Admits v) := by
  constructor
  · rintro ⟨irec', res, a', hdone, ha', hres⟩
    obtain ⟨rfl, rfl⟩ := Prod.mk.inj (Exec.done.inj hdone)
    obtain rfl : a = a' := EsParam.fixed.inj (Option.some.inj (h.symm.trans ha'))
    unfold fixedSent at hres
    by_cases hholds : a.Holds v
    · rw [if_pos hholds] at hres
      obtain ⟨n, -, -, hsent⟩ := hres
      refine iff_of_true hholds ?_
      by_contra hadmits
      rw [if_neg hadmits] at hsent
      cases hsent
    · rw [if_neg hholds] at hres
      refine iff_of_false hholds fun hadmits ↦ ?_
      rw [if_pos hadmits] at hres
      cases hres
  · intro hiff
    refine ⟨irec, _, a, rfl, h, ?_⟩
    unfold fixedSent
    by_cases hholds : a.Holds v
    · rw [if_pos hholds, if_pos (hiff.mp hholds)]
      exact ⟨.ofInt v, Numeral.isJson_ofInt v, Numeral.value_ofInt v, rfl⟩
    · rw [if_neg hholds, if_neg fun hadmits ↦ hholds (hiff.mpr hadmits)]

/-- An integer bound for an integer type is sent as itself or refused as out of range, with the
type announced for it, if and only if the type is not one that keeps too little or lets too
much through. -/
theorem serialize_fixed_range (t : EsFixed) (c : CFixed) (data : BitVec 64) :
    RangeKept (serializeParam others dbc ⟨some (.fixed t), size⟩ ⟨false, .fixed c data⟩)
      (c.read data) ↔ t.Kept dbc.ulong (c.read data) := by
  cases hc : c.signed with
  | true =>
    obtain ⟨hlow, hhigh⟩ := c.read_signed hc data
    rw [serializeParam_signed others dbc size t hc data, rangeKept_sent rfl]
    cases t <;> simp only [EsFixed.Holds, EsFixed.Admits, EsFixed.Kept] <;> omega
  | false =>
    obtain ⟨hlow, hhigh⟩ := c.read_unsigned hc data
    rw [serializeParam_unsigned others dbc size t hc data]
    by_cases hlong : (t = .long ∨ t = .unsignedLong) ∧ 2 ^ 63 ≤ c.read data
    · cases hulong : dbc.ulong with
      | true =>
        rw [announcedUnsigned, if_pos hlong, if_pos hulong, Option.elim_some, rangeKept_sent rfl]
        rcases hlong.1 with rfl | rfl
        · simp only [EsFixed.Holds, EsFixed.Admits, EsFixed.Kept, implies_true, iff_true]
          omega
        · simp only [EsFixed.Holds, EsFixed.Admits, EsFixed.Kept, implies_true, and_true]
          omega
      | false =>
        rw [announcedUnsigned, if_pos hlong, if_neg (by simp [hulong]), Option.elim_none]
        refine iff_of_false ?_ ?_
        · rintro ⟨_, _, _, hdone, -, -⟩
          cases hdone
        · rcases hlong.1 with rfl | rfl
          · exact fun hkept ↦ Bool.noConfusion (hkept hlong.2)
          · exact fun hkept ↦ Bool.noConfusion (hkept.2 hlong.2)
    · rw [announcedUnsigned, if_neg hlong, Option.elim_some, rangeKept_sent rfl]
      cases t <;> simp only [EsFixed.Holds, EsFixed.Admits, EsFixed.Kept] at * <;> simp at hlong <;>
        omega

/-- A `SMALLINT` parameter does not take 1000. -/
theorem serialize_short_thousand :
    ¬ RangeKept (serializeParam (fun _ _ _ ↦ .undefined) ⟨true, fun _ ↦ 0⟩
      ⟨some (.fixed .short), 5⟩ ⟨false, .fixed .sshort 1000⟩) (CFixed.sshort.read 1000) := by
  have hread : CFixed.sshort.read 1000 = 1000 := by decide
  rw [serializeParam_signed _ _ _ _ rfl, rangeKept_sent rfl, hread]
  decide

end EsOdbc
