import EsOdbc.Targets.Quadword

/-!
# Floating-point numbers for integers

`sql2c_double` of `convert.c` with the C integer types and `SQL_C_BIT` as its targets.  A
conversion of a number to an integer type that has no place for its whole part is not defined,
and neither is a write where there is no buffer.
-/

namespace EsOdbc

open Binary
open LittleEndian (intBytes Fits)

/-! ## Model -/

/-- What `RET_TRANSFER_DBL` is given besides the number: the values of `_sqlctype`, from `least`
on and below `sup`, and the limits. -/
structure DblTransfer where
  least : ℤ
  sup : ℤ
  min : ℤ
  max : ℤ

/-- The calls of `RET_TRANSFER_DBL`; none for `SQL_C_BIT`. -/
def CFixed.dblTransfer : CFixed → DblTransfer
  | .tinyint | .stinyint => ⟨-2 ^ 7, 2 ^ 7, -128, 127⟩
  | .utinyint => ⟨0, 2 ^ 8, 0, 255⟩
  | .sbigint => ⟨-2 ^ 63, 2 ^ 63, -9223372036854775808, 9223372036854775807⟩
  | .ubigint => ⟨0, 2 ^ 64, 0, 9223372036854775807⟩
  | .short | .sshort => ⟨-2 ^ 15, 2 ^ 15, -32768, 32767⟩
  | .ushort => ⟨0, 2 ^ 16, 0, 65535⟩
  | .long | .slong => ⟨-2 ^ 31, 2 ^ 31, -2147483648, 2147483647⟩
  -- the type is `SQLINTEGER`
  | .ulong => ⟨-2 ^ 31, 2 ^ 31, 0, 4294967295⟩
  | .bit => ⟨0, 2 ^ 8, 0, 1⟩

/-- A number as the condition of an `if`. -/
def isTrue : Double → Bool
  | .fin q => q ≠ 0
  | .negZero => false
  | .inf _ | .nan => true

/-- `RET_TRANSFER_DBL`. -/
def retTransferDbl (c : OctetContext) (t : CFixed) (dbl : Double) (app : AppSide) :
    Exec (SqlState × AppSide) :=
  let call := t.dblTransfer
  let cast (x : Double) : Exec ℤ := (x.toInt call.least call.sup).elim .undefined .done
  let rejected : Exec Bool :=
    if isTrue dbl then (cast dbl).bind fun v ↦ .done (v < call.min || call.max < v)
    else (cast (if dbl.lt (.fin 0) then dbl.abs else dbl)).bind fun v ↦ .done (call.max < v)
  rejected.bind fun oor ↦
    if oor then .done (.s22003, app)
    else (cast dbl).bind fun v ↦
      if app.data = none then .undefined
      else .done (.s01S07, (app.poke (intBytes t.octets v)).writeOutOctets c t.octets)

/-- `double_to_bit`: the length is written before the number is looked at. -/
def doubleToBit (c : OctetContext) (src : Double) (app : AppSide) : Exec (SqlState × AppSide) :=
  let put (bit : ℤ) (state : SqlState) : Exec (SqlState × AppSide) :=
    .done (state, (app.writeOutOctets c 1).poke (intBytes 1 bit))
  if app.data = none then .done (.sHY009, app)
  else if src.lt (.fin 0) || Double.le (.fin 2) src then .done (.s22003, app.writeOutOctets c 1)
  else if Double.lt (.fin 0) src && src.lt (.fin 1) then put 0 .s01S07
  else if Double.lt (.fin 1) src && src.lt (.fin 2) then put 1 .s01S07
  else
    match src.toInt 0 (2 ^ 8) with
    | none => .undefined
    | some v => put v .s00000

/-- `sql2c_double`. -/
def sql2cDouble (c : OctetContext) (t : CFixed) (dbl : Double) (app : AppSide) :
    Exec (SqlState × AppSide) :=
  match t with
  | .bit => doubleToBit c dbl app
  | t => retTransferDbl c t dbl app

/-! ## What the application gets -/

/-- The number that a variable holds. -/
def numberOf : Double → Option ℚ
  | .fin q => some q
  | .negZero => some 0
  | .inf _ | .nan => none

/-- The number without its fraction. -/
def wholePart (q : ℚ) : ℤ := if q < 0 then ⌈q⌉ else ⌊q⌋

/-- A number is stored without its fraction, and it is said if it has one, if the type has the
integer; else it is refused. -/
def DeliversWhole (c : OctetContext) (t : CFixed) (dbl : Double) (app : AppSide) : Prop :=
  ∀ q, numberOf dbl = some q →
    (t.Represents (wholePart q) ∧ app.data ≠ none ∧ ∃ field : List UInt8,
      field.length = t.octets ∧ LittleEndian.read t.signed field = wholePart q ∧
      sql2cDouble c t dbl app =
        .done (if (wholePart q : ℚ) = q then .s00000 else .s01S07,
          (app.poke field).writeOutOctets c t.octets)) ∨
    (¬t.Represents (wholePart q) ∧ sql2cDouble c t dbl app = .done (.s22003, app))

theorem toInt_of_number {dbl : Double} {q : ℚ} (h : numberOf dbl = some q) (min sup : ℤ) :
    dbl.toInt min sup =
      if min ≤ wholePart q ∧ wholePart q < sup then some (wholePart q) else none := by
  cases dbl with
  | fin p =>
    obtain rfl : p = q := by simpa [numberOf] using h
    rfl
  | negZero =>
    obtain rfl : 0 = q := by simpa [numberOf] using h
    simp [wholePart, Double.toInt]
  | inf neg => simp [numberOf] at h
  | nan => simp [numberOf] at h

/-- A number that is false as a condition is zero. -/
theorem number_of_isTrue {dbl : Double} {q : ℚ} (h : numberOf dbl = some q)
    (hzero : isTrue dbl = false) : q = 0 ∧ dbl.lt (.fin 0) = false := by
  cases dbl with
  | fin p =>
    obtain rfl : p = q := by simpa [numberOf] using h
    obtain rfl : p = 0 := by simpa [isTrue] using hzero
    simp [Double.lt]
  | negZero =>
    obtain rfl : 0 = q := by simpa [numberOf] using h
    simp [Double.lt]
  | inf neg => simp [numberOf] at h
  | nan => simp [numberOf] at h

theorem CFixed.dblTransfer_zero (t : CFixed) : 0 ≤ t.dblTransfer.max ∧ t.dblTransfer.min ≤ 0 := by
  cases t <;> decide

/-- The call of the macro on a number. -/
theorem retTransferDbl_eq (c : OctetContext) (t : CFixed) {dbl : Double} {q : ℚ}
    (h : numberOf dbl = some q) (app : AppSide) :
    retTransferDbl c t dbl app =
      if t.dblTransfer.least ≤ wholePart q ∧ wholePart q < t.dblTransfer.sup then
        if wholePart q < t.dblTransfer.min ∨ t.dblTransfer.max < wholePart q then .done (.s22003, app)
        else if app.data = none then .undefined
        else .done (.s01S07, (app.poke (intBytes t.octets (wholePart q))).writeOutOctets c t.octets)
      else .undefined := by
  have hzero := t.dblTransfer_zero
  unfold retTransferDbl
  dsimp only
  rw [toInt_of_number h]
  by_cases hcast : t.dblTransfer.least ≤ wholePart q ∧ wholePart q < t.dblTransfer.sup
  · rw [if_pos hcast, if_pos hcast]
    cases htrue : isTrue dbl with
    | true => simp
    | false =>
      obtain ⟨rfl, hlt⟩ := number_of_isTrue h htrue
      have hwhole : wholePart 0 = 0 := by simp [wholePart]
      rw [hwhole] at hcast ⊢
      simp only [hlt, Bool.false_eq_true, if_false, toInt_of_number h, hwhole, if_pos hcast]
      simp [hzero.1.not_gt, hzero.2.not_gt]
  · rw [if_neg hcast, if_neg hcast]
    cases htrue : isTrue dbl with
    | true => simp
    | false =>
      obtain ⟨rfl, hlt⟩ := number_of_isTrue h htrue
      simp [hlt, toInt_of_number h, hcast]

/-- The integers that the macro stores. -/
theorem CFixed.dblTransfer_stores {t : CFixed} (ht : t ≠ .bit) {k : ℤ} :
    (t.dblTransfer.least ≤ k ∧ k < t.dblTransfer.sup) ∧
      ¬(k < t.dblTransfer.min ∨ t.dblTransfer.max < k) ↔
    t.Represents k ∧ (t = .ulong ∨ t = .ubigint → Fits true t.octets k) := by
  rw [Represents, if_neg ht]
  cases t <;> simp [dblTransfer, Fits, octets, signed, width] at ht ⊢ <;> omega

/-- The integers that the macro refuses. -/
theorem CFixed.dblTransfer_refuses {t : CFixed} (ht : t ≠ .bit) {k : ℤ} :
    (t.dblTransfer.least ≤ k ∧ k < t.dblTransfer.sup) ∧
      (k < t.dblTransfer.min ∨ t.dblTransfer.max < k) ↔
    (t = .ulong ∧ -2 ^ 31 ≤ k ∧ k < 0) ∨ (t = .ubigint ∧ 2 ^ 63 ≤ k ∧ k < 2 ^ 64) := by
  cases t <;> simp [dblTransfer] at ht ⊢ <;> omega

theorem sql2cDouble_of_ne {t : CFixed} (ht : t ≠ .bit) (c : OctetContext) (dbl : Double)
    (app : AppSide) : sql2cDouble c t dbl app = retTransferDbl c t dbl app := by
  cases t <;> first | rfl | exact absurd rfl ht

/-- What is stored is the whole part, and the state is the one for a lost fraction. -/
theorem sql2cDouble_stores {t : CFixed} (ht : t ≠ .bit) (c : OctetContext) {dbl : Double} {q : ℚ}
    (h : numberOf dbl = some q) {app : AppSide} {state : SqlState} {field : List UInt8} :
    sql2cDouble c t dbl app = .done (state, (app.poke field).writeOutOctets c t.octets) →
      state ≠ .s22003 → state = .s01S07 ∧ app.data ≠ none ∧ t.Represents (wholePart q) ∧
        (t = .ulong ∨ t = .ubigint → Fits true t.octets (wholePart q)) := by
  intro hrun hstate
  rw [sql2cDouble_of_ne ht, retTransferDbl_eq c t h] at hrun
  by_cases hcast : t.dblTransfer.least ≤ wholePart q ∧ wholePart q < t.dblTransfer.sup
  · rw [if_pos hcast] at hrun
    by_cases hout : wholePart q < t.dblTransfer.min ∨ t.dblTransfer.max < wholePart q
    · rw [if_pos hout, Exec.done.injEq, Prod.mk.injEq] at hrun
      exact absurd hrun.1.symm hstate
    · rw [if_neg hout] at hrun
      by_cases hdata : app.data = none
      · rw [if_pos hdata] at hrun
        cases hrun
      · rw [if_neg hdata, Exec.done.injEq, Prod.mk.injEq] at hrun
        exact ⟨hrun.1.symm, hdata, (CFixed.dblTransfer_stores ht).mp ⟨hcast, hout⟩⟩
  · rw [if_neg hcast] at hrun
    cases hrun

/-- A number is delivered if it has a fraction and its whole part is one of the type, for an
unsigned type of at least 32 bits also one of the signed type of its size.  An unsigned `long`
refuses the negative numbers that a signed one has. -/
theorem deliversWhole_iff (c : OctetContext) (t : {t : CFixed // t ≠ .bit}) (dbl : Double)
    (app : AppSide) :
    DeliversWhole c t.1 dbl app ↔ ∀ q, numberOf dbl = some q →
      (app.data ≠ none ∧ (wholePart q : ℚ) ≠ q ∧ t.1.Represents (wholePart q) ∧
        (t.1 = .ulong ∨ t.1 = .ubigint → Fits true t.1.octets (wholePart q))) ∨
      (t.1 = .ulong ∧ -2 ^ 31 ≤ wholePart q ∧ wholePart q < 0) := by
  obtain ⟨t, ht⟩ := t
  refine forall₂_congr fun q hq ↦ ?_
  have hrun := retTransferDbl_eq c t hq app
  rw [← sql2cDouble_of_ne ht] at hrun
  constructor
  · rintro (⟨hrep, hdata, field, -, -, hdone⟩ | ⟨hrep, hdone⟩)
    · left
      have hne : (if (wholePart q : ℚ) = q then SqlState.s00000 else .s01S07) ≠ .s22003 := by
        split_ifs <;> decide
      obtain ⟨hstate, -, -, hfits⟩ := sql2cDouble_stores ht c hq hdone hne
      refine ⟨hdata, fun heq ↦ ?_, hrep, hfits⟩
      rw [if_pos heq] at hstate
      cases hstate
    · right
      rw [hrun] at hdone
      by_cases hcast : t.dblTransfer.least ≤ wholePart q ∧ wholePart q < t.dblTransfer.sup
      · rw [if_pos hcast] at hdone
        by_cases hout : wholePart q < t.dblTransfer.min ∨ t.dblTransfer.max < wholePart q
        · rcases (CFixed.dblTransfer_refuses ht).mp ⟨hcast, hout⟩ with hulong | ⟨rfl, hlow, hhigh⟩
          · exact hulong
          · refine absurd ?_ hrep
            rw [CFixed.Represents, if_neg ht]
            refine ⟨by omega, ?_⟩
            simpa [CFixed.octets, CFixed.width] using hhigh
        · exact absurd ((CFixed.dblTransfer_stores ht).mp ⟨hcast, hout⟩).1 hrep
      · rw [if_neg hcast] at hdone
        cases hdone
  · rintro (⟨hdata, hfrac, hrep, hfits⟩ | hulong)
    · left
      obtain ⟨hcast, hin⟩ := (CFixed.dblTransfer_stores ht).mpr ⟨hrep, hfits⟩
      refine ⟨hrep, hdata, _, LittleEndian.length_intBytes _ _,
        LittleEndian.read_intBytes.mpr hrep.fits, ?_⟩
      rw [hrun, if_pos hcast, if_neg hin, if_neg hdata, if_neg hfrac]
    · right
      obtain ⟨hcast, hout⟩ := (CFixed.dblTransfer_refuses ht).mpr (.inl hulong)
      obtain ⟨rfl, -, hneg⟩ := hulong
      refine ⟨?_, ?_⟩
      · rw [CFixed.Represents, if_neg ht]
        intro hfits
        exact absurd hfits.1 (not_le.mpr hneg)
      · rw [hrun, if_pos hcast, if_pos hout]

/-- An integer comes with a warning that its fraction is lost, and a number above the range of a
byte is not refused. -/
theorem deliversWhole_five_three_hundred :
    ¬DeliversWhole ⟨false, 0, 4⟩ .slong (.fin 5) ⟨some [0, 0, 0, 0], none⟩ ∧
    ¬DeliversWhole ⟨false, 0, 1⟩ .tinyint (.fin 300) ⟨some [0], none⟩ := by
  constructor
  · intro h
    have hrun : sql2cDouble ⟨false, 0, 4⟩ .slong (.fin 5) ⟨some [0, 0, 0, 0], none⟩ =
        .done (.s01S07, ⟨some [5, 0, 0, 0], none⟩) := by decide +kernel
    have hwhole : (wholePart 5 : ℚ) = 5 := by decide +kernel
    rcases h 5 rfl with ⟨-, -, field, -, -, hdone⟩ | ⟨-, hdone⟩
    · rw [hrun, if_pos hwhole] at hdone
      simp at hdone
    · rw [hrun] at hdone
      simp at hdone
  · intro h
    have hrun : sql2cDouble ⟨false, 0, 1⟩ .tinyint (.fin 300) ⟨some [0], none⟩ = .undefined := by
      decide +kernel
    have hwhole : wholePart 300 = 300 := by decide +kernel
    rcases h 300 rfl with ⟨hrep, -⟩ | ⟨-, hdone⟩
    · rw [hwhole] at hrep
      revert hrep
      decide
    · rw [hrun] at hdone
      cases hdone

end EsOdbc
