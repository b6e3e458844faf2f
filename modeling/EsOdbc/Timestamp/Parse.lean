import EsOdbc.Lib.Calendar
import EsOdbc.Numbers

/-!
# Parsing a timestamp

`timestamp_parse` and `timestamp_to_tm_utc` of the library `c-timestamp`.  A narrow text is
given by its units.
-/

namespace EsOdbc

open Decimal (ofDigits)

/-! ## The source -/

/-- `parse_2d`. -/
def parse2d (a b : UInt16) : Option ℕ :=
  (digitOf a).bind fun d₀ ↦ (digitOf b).map fun d₁ ↦ d₀ * 10 + d₁

/-- `parse_4d`. -/
def parse4d (a b c d : UInt16) : Option ℕ :=
  (parse2d a b).bind fun hi ↦ (parse2d c d).map fun lo ↦ hi * 100 + lo

/-- A value within bounds. -/
def within (lo hi : ℕ) (o : Option ℕ) : Option ℕ := o.filter fun n ↦ lo ≤ n && n ≤ hi

/-- `leap_year`. -/
def leapYear (y : ℕ) : Bool := y % 4 = 0 && (y % 100 ≠ 0 || y % 400 = 0)

/-- `month_days`. -/
def monthDays (y m : ℕ) : ℕ :=
  (if m = 2 ∧ leapYear y then [0, 31, 29, 31, 30, 31, 30, 31, 31, 30, 31, 30, 31]
    else [0, 31, 28, 31, 30, 31, 30, 31, 31, 30, 31, 30, 31]).getD m 0

/-- `DayOffset`. -/
def dayOffset (m : ℕ) : ℕ := [0, 306, 337, 0, 31, 61, 92, 122, 153, 184, 214, 245, 275].getD m 0

/-- `timestamp_t`. -/
structure Timestamp where
  sec : ℤ
  nsec : ℕ
  offset : ℤ
deriving DecidableEq, Repr

/-- Why a text is no timestamp. -/
inductive TimestampFault where
  | malformed
  /-- The text ends in its zone, and the unit of this index behind it was looked at. -/
  | pastEnd (behind : ℕ)
deriving DecidableEq, Repr

/-- The minutes of a zone, behind its colon. -/
def parseZoneMin (hour : ℕ) : WStr → Except TimestampFault (ℕ × ℕ)
  | [] => .error (.pastEnd 0)
  | [d] => if digitOf d = none then .error .malformed else .error (.pastEnd 0)
  | d :: e :: _ => (within 0 59 (parse2d d e)).elim (.error .malformed) fun min ↦ .ok (hour, min)

/-- The zone behind a sign: its hours and minutes.  The colon is looked at first. -/
def parseZone : WStr → Except TimestampFault (ℕ × ℕ)
  | a :: b :: c :: rest =>
    if c ≠ 0x3A then .error .malformed
    else (within 0 23 (parse2d a b)).elim (.error .malformed) fun hour ↦ parseZoneMin hour rest
  | cur => .error (.pastEnd (2 - cur.length))

/-- The offset of a zone that starts with `ch`, in minutes, and what the text has after it. -/
def parseOffset (ch : UInt16) (cur : WStr) : Except TimestampFault (ℤ × WStr) :=
  if ch = 0x5A ∨ ch = 0x7A then .ok (0, cur)
  else if 5 < cur.length ∨ ¬(ch = 0x2B ∨ ch = 0x2D) then .error .malformed
  else
    (parseZone cur).map fun zone ↦
      let offset : ℤ := zone.1 * 60 + zone.2
      (if ch = 0x2D then -offset else offset, cur.drop 5)

/-- The fraction, if `ch` starts one, with the unit behind it and the rest. -/
def parseNsec (ch : UInt16) (cur : WStr) : Option (ℕ × UInt16 × WStr) :=
  if ch = 0x2E then
    let digits := cur.takeWhile fun c ↦ (digitOf c).isSome
    let nsec := digits.foldl (fun nsec c ↦ (nsec * 10 + (digitOf c).getD 0) % 2 ^ 32) 0
    if digits.length < 1 ∨ 9 < digits.length then none
    else
      match cur.drop digits.length with
      | [] => none
      | ch :: cur => some (nsec * 10 ^ (9 - digits.length) % 2 ^ 32, ch, cur)
  else some (0, ch, cur)

/-- The day number of the first units of a text. -/
def parseRdn (y₀ y₁ y₂ y₃ m₀ m₁ d₀ d₁ : UInt16) : Option ℕ :=
  (within 1 9999 (parse4d y₀ y₁ y₂ y₃)).bind fun year ↦
    (within 1 12 (parse2d m₀ m₁)).bind fun month ↦
      (within 1 31 (parse2d d₀ d₁)).bind fun day ↦
        if 28 < day ∧ monthDays year month < day then none
        else
          let year := if month < 3 then year - 1 else year
          some (1461 * year / 4 - year / 100 + year / 400 + dayOffset month + day - 306)

/-- The second of the day. -/
def parseSod (h₀ h₁ i₀ i₁ s₀ s₁ : UInt16) : Option ℕ :=
  (within 0 23 (parse2d h₀ h₁)).bind fun hour ↦
    (within 0 59 (parse2d i₀ i₁)).bind fun min ↦
      (within 0 59 (parse2d s₀ s₁)).map fun sec ↦ hour * 3600 + min * 60 + sec

/-- `timestamp_parse`. -/
def timestampParse : WStr → Except TimestampFault Timestamp
  | y₀ :: y₁ :: y₂ :: y₃ :: c₄ :: m₀ :: m₁ :: c₇ :: d₀ :: d₁ :: c₁₀ :: h₀ :: h₁ :: c₁₃ :: i₀ :: i₁ ::
      c₁₆ :: s₀ :: s₁ :: ch :: cur =>
    if ¬(c₄ = 0x2D ∧ c₇ = 0x2D ∧ c₁₃ = 0x3A ∧ c₁₆ = 0x3A) then .error .malformed
    else if ¬(c₁₀ = 0x54 ∨ c₁₀ = 0x20 ∨ c₁₀ = 0x74) then .error .malformed
    else
      match parseRdn y₀ y₁ y₂ y₃ m₀ m₁ d₀ d₁, parseSod h₀ h₁ i₀ i₁ s₀ s₁, parseNsec ch cur with
      | some rdn, some sod, some (nsec, ch, cur) =>
        match parseOffset ch cur with
        | .error e => .error e
        | .ok (offset, cur) =>
          if cur ≠ [] then .error .malformed
          else .ok ⟨((rdn : ℤ) - 719163) * 86400 + sod - offset * 60, nsec, offset⟩
      | _, _, _ => .error .malformed
  | _ => .error .malformed

/-- `SQL_TIMESTAMP_STRUCT`. -/
structure TimestampStruct where
  year : ℤ
  month : ℕ
  day : ℕ
  hour : ℕ
  minute : ℕ
  second : ℕ
  fraction : ℕ
deriving DecidableEq, Repr

/-- `rdn_to_struct_tm`: year, month and day of the month. -/
def rdnToStructTm (rdn : ℕ) : ℕ × ℕ × ℕ :=
  let z := rdn + 306
  let h := 100 * z - 25
  let a := h / 3652425
  let b := a - a / 4
  let y := (100 * b + h) / 36525
  let c := b + z - 1461 * y / 4
  let m := (535 * c + 48950) / 2 ^ 14
  if 12 < m then (y + 1, m - 12, c - dayOffset (m - 12)) else (y, m, c - dayOffset m)

/-- `MIN_SEC` and `MAX_SEC`: the years 1 to 9999. -/
def minSec : ℤ := -62135596800

@[inherit_doc minSec]
def maxSec : ℤ := 253402300799

/-- `timestamp_valid`. -/
def timestampValid (tsp : Timestamp) : Bool :=
  let sec := tsp.sec + tsp.offset * 60
  minSec ≤ sec && sec ≤ maxSec && tsp.nsec ≤ 999999999 && -1439 ≤ tsp.offset && tsp.offset ≤ 1439

/-- `timestamp_to_tm_utc`, and the fields that are taken over of its result. -/
def timestampToTmUtc (tsp : Timestamp) : Option TimestampStruct :=
  if timestampValid tsp then
    let sec := (tsp.sec + 62135683200).toNat
    let date := rdnToStructTm (sec / 86400)
    let sod := sec % 86400
    some ⟨date.1, date.2.1, date.2.2, sod / 3600, sod / 60 % 60, sod % 60, tsp.nsec⟩
  else none

/-! ## Texts -/

open Decimal (lastDigits)

/-- A number in as many digits. -/
def padded (k n : ℕ) : WStr := digitUnits (lastDigits k n)

@[simp] theorem length_padded (k n : ℕ) : (padded k n).length = k := by simp [padded]

theorem within_eq_some {lo hi n : ℕ} {o : Option ℕ} :
    within lo hi o = some n ↔ o = some n ∧ lo ≤ n ∧ n ≤ hi := by
  rw [within, Option.filter_eq_some_iff]
  simp

/-- Digits that a number is printed as. -/
theorem digitUnits_eq_padded {k n : ℕ} (hn : n < 10 ^ k) {ds : List (Fin 10)} :
    digitUnits ds = padded k n ↔ ds.length = k ∧ ofDigits ds = n := by
  rw [padded, digitUnits_injective.eq_iff, Decimal.eq_lastDigits_iff hn]

theorem parse2d_eq_some {a b : UInt16} {n : ℕ} :
    parse2d a b = some n ↔ n < 10 ^ 2 ∧ [a, b] = padded 2 n := by
  rw [parse2d, Option.bind_eq_some_iff]
  simp only [Option.map_eq_some_iff]
  constructor
  · rintro ⟨d₀, h₀, d₁, h₁, rfl⟩
    obtain ⟨d, rfl, rfl⟩ := digitOf_eq_some h₀
    obtain ⟨e, rfl, rfl⟩ := digitOf_eq_some h₁
    have hlt : d.val * 10 + e < 10 ^ 2 := by omega
    refine ⟨hlt, ?_⟩
    have hpair : [digitUnit d, digitUnit e] = digitUnits [d, e] := rfl
    rw [hpair, digitUnits_eq_padded hlt]
    exact ⟨rfl, by simp [ofDigits]⟩
  · rintro ⟨hn, h⟩
    have hpad : padded 2 n = [digitUnit (Decimal.digit (n / 10)), digitUnit (Decimal.digit n)] := rfl
    rw [hpad, List.cons.injEq, List.cons.injEq] at h
    obtain ⟨rfl, rfl, -⟩ := h
    refine ⟨_, digitOf_digitUnit _, _, digitOf_digitUnit _, ?_⟩
    simp only [Decimal.val_digit]
    omega

theorem parse4d_eq_some {a b c d : UInt16} {n : ℕ} :
    parse4d a b c d = some n ↔ n < 10 ^ 4 ∧ [a, b, c, d] = padded 4 n := by
  rw [parse4d, Option.bind_eq_some_iff]
  simp only [Option.map_eq_some_iff, parse2d_eq_some]
  constructor
  · rintro ⟨hi, ⟨hhi, habs⟩, lo, ⟨hlo, hcds⟩, rfl⟩
    have hlt : hi * 100 + lo < 10 ^ 4 := by omega
    refine ⟨hlt, ?_⟩
    have happ : [a, b, c, d] = digitUnits (lastDigits 2 hi ++ lastDigits 2 lo) := by
      rw [digitUnits, List.map_append, ← digitUnits, ← digitUnits]
      exact congrArg₂ (· ++ ·) habs hcds
    rw [happ, digitUnits_eq_padded hlt]
    refine ⟨rfl, ?_⟩
    rw [ofDigits, Decimal.extend_append, ← ofDigits, Decimal.ofDigits_lastDigits, Decimal.extend_eq,
      Decimal.ofDigits_lastDigits, Nat.mod_eq_of_lt hhi, Nat.mod_eq_of_lt hlo,
      Decimal.length_lastDigits]
    rfl
  · rintro ⟨hn, h⟩
    have hpad : padded 4 n = padded 2 (n / 100) ++ padded 2 n := by
      simp [padded, lastDigits, digitUnits, Nat.div_div_eq_div_mul]
    have hmod : padded 2 n = padded 2 (n % 100) := by
      refine (digitUnits_eq_padded (k := 2) (n := n % 100) (by omega)).mpr ⟨by simp, ?_⟩
      exact Decimal.ofDigits_lastDigits 2 n
    rw [hpad, hmod] at h
    have hsplit : [a, b] ++ [c, d] = padded 2 (n / 100) ++ padded 2 (n % 100) := h
    obtain ⟨h₁, h₂⟩ := List.append_inj hsplit rfl
    exact ⟨n / 100, ⟨by omega, h₁⟩, n % 100, ⟨by omega, h₂⟩, by omega⟩

end EsOdbc
