import EsOdbc.Error
import EsOdbc.Lib.Calendar

/-!
# The time zone of a request

`get_tz_dst_offset` and `print_tz_param` (`queries.c`).  The local time is the UTC time
moved by the zone's offset at that instant, in seconds.
-/

namespace EsOdbc

/-- The fields of `struct tm` that are used. -/
structure Tm where
  yday : ℤ
  hour : ℤ
  min : ℤ
  sec : ℤ
deriving DecidableEq, Repr

/-- The day that an instant is on; the epoch is 719528 days into the calendar. -/
def dayOf (t : ℤ) : ℤ := t / 86400 + 719528

/-- `gmtime`. -/
def gmtime (t : ℤ) : Tm where
  yday := Calendar.dayOfYear (dayOf t)
  hour := t % 86400 / 3600
  min := t % 3600 / 60
  sec := t % 60

/-- `localtime`, in a zone with an offset. -/
def localtime (utc off : ℤ) : Tm := gmtime (utc + off)

/-- `get_tz_dst_offset`: the offset, and the local time.  On the first call, zones with odd
seconds are refused. -/
def getTzDstOffset (first : Bool) (utc : ℕ) (off : ℤ) : Option (ℤ × Tm) :=
  let loc := localtime utc off
  let gm := gmtime utc
  let tzDstOfft := gm.yday * 24 * 3600 + gm.hour * 3600 + gm.min * 60 - loc.yday * 24 * 3600 -
    (loc.hour * 3600 + loc.min * 60)
  if first && loc.sec != gm.sec then none else some (tzDstOfft, loc)

/-- `%02ld` of a number that is not negative. -/
def print02 (n : ℕ) : List Char := if n < 10 then '0' :: Nat.toDigits 10 n else Nat.toDigits 10 n

/-- `sizeof("\"-05:45\"")`. -/
def timeZoneSize : ℕ := 9

/-- `print_tz_param`: the text, with its quotes, if the buffer has the room for it. -/
def printTzParam (tzDstOfft : ℤ) : Option (List Char) :=
  let absTz := tzDstOfft.natAbs
  let sign := if tzDstOfft ≤ 0 then '+' else '-'
  let text := ['"', sign] ++ print02 (absTz / 3600) ++ [':'] ++ print02 (absTz % 3600 / 60) ++ ['"']
  if timeZoneSize ≤ text.length then none else some text

/-- The number of two digits. -/
def digits2 (a b : Char) : Option ℤ :=
  if a.isDigit ∧ b.isDigit then some ((a.toNat - 48) * 10 + (b.toNat - 48)) else none

/-- The offset that a text `"±hh:mm"` gives, in seconds. -/
def parseTz : List Char → Option ℤ
  | ['"', sign, h₁, h₂, ':', m₁, m₂, '"'] => do
    let h ← digits2 h₁ h₂
    let m ← digits2 m₁ m₂
    if sign = '+' then some (h * 3600 + m * 60)
    else if sign = '-' then some (-(h * 3600 + m * 60))
    else none
  | _ => none

/-! ## The offset -/

/-- The offset is right up to the days between the first days of the two years. -/
theorem getTzDstOffset_eq (first : Bool) (utc : ℕ) {off : ℤ} (hoff : 60 ∣ off) :
    getTzDstOffset first utc off = some
      (-off + (Calendar.firstDay (Calendar.yearOf (dayOf (utc + off))) -
        Calendar.firstDay (Calendar.yearOf (dayOf utc))) * 86400, localtime utc off) := by
  have hgm := Calendar.dayOfYear_add (dayOf utc)
  have hloc := Calendar.dayOfYear_add (dayOf (utc + off))
  have hsec : (localtime utc off).sec = (gmtime utc).sec := by
    simp only [localtime, gmtime]
    omega
  unfold getTzDstOffset
  rw [if_neg (by simp [hsec])]
  congr 2
  simp only [localtime, gmtime]
  generalize Calendar.dayOfYear (dayOf utc) = yu at hgm ⊢
  generalize Calendar.dayOfYear (dayOf (utc + off)) = yl at hloc ⊢
  generalize Calendar.firstDay (Calendar.yearOf (dayOf utc)) = fu at hgm ⊢
  generalize Calendar.firstDay (Calendar.yearOf (dayOf (utc + off))) = fl at hloc ⊢
  unfold dayOf at hgm hloc
  omega

/-! ## The text -/

theorem print02_length_le_two_iff {n : ℕ} : (print02 n).length ≤ 2 ↔ n < 100 := by
  have h := Nat.length_toDigits_le_iff (b := 10) (n := n) (k := 2) (by decide) (by decide)
  unfold print02
  split_ifs with hn
  · rw [Nat.toDigits_of_lt_base hn]
    simp
    omega
  · exact h

/-- Two digits, and the number they are. -/
theorem print02_digits {n : ℕ} (h : n < 100) :
    ∃ a b, print02 n = [a, b] ∧ digits2 a b = some (n : ℤ) := by
  have key : ∀ m : Fin 100, ∃ a b, print02 m.val = [a, b] ∧ digits2 a b = some (m.val : ℤ) := by
    intro m
    have hdec : ∀ m : Fin 100, (print02 m.val).length = 2 ∧
        digits2 ((print02 m.val).getD 0 ' ') ((print02 m.val).getD 1 ' ') = some (m.val : ℤ) := by
      decide +kernel
    obtain ⟨hlen, hdig⟩ := hdec m
    obtain ⟨a, b, hab⟩ := List.length_eq_two.mp hlen
    rw [hab] at hdig
    exact ⟨a, b, hab, hdig⟩
  exact key ⟨n, h⟩

theorem parseTz_plus {h₁ h₂ m₁ m₂ : Char} {h m : ℤ} (hh : digits2 h₁ h₂ = some h)
    (hm : digits2 m₁ m₂ = some m) :
    parseTz ['"', '+', h₁, h₂, ':', m₁, m₂, '"'] = some (h * 3600 + m * 60) := by
  simp [parseTz, hh, hm]

theorem parseTz_minus {h₁ h₂ m₁ m₂ : Char} {h m : ℤ} (hh : digits2 h₁ h₂ = some h)
    (hm : digits2 m₁ m₂ = some m) :
    parseTz ['"', '-', h₁, h₂, ':', m₁, m₂, '"'] = some (-(h * 3600 + m * 60)) := by
  simp [parseTz, hh, hm]

/-- Only offsets below a hundred hours are printed. -/
theorem lt_of_printTzParam {off : ℤ} {text : List Char} (h : printTzParam (-off) = some text) :
    |off| < 360000 := by
  have habs : (off.natAbs : ℤ) = |off| := Int.natCast_natAbs off
  obtain ⟨m₁, m₂, hm, -⟩ := print02_digits (n := off.natAbs % 3600 / 60) (by omega)
  unfold printTzParam at h
  simp only [Int.natAbs_neg, hm] at h
  generalize (if -off ≤ 0 then '+' else '-') = sign at h
  split_ifs at h with hlen
  rw [List.length_append, List.length_append, List.length_append, List.length_append] at hlen
  simp only [List.length_cons, List.length_nil, timeZoneSize] at hlen
  have hle : (print02 (off.natAbs / 3600)).length ≤ 2 := by omega
  rw [print02_length_le_two_iff] at hle
  omega

/-- The offset is printed if it is below a hundred hours, and reads as the local one. -/
theorem printTzParam_parse {off : ℤ} (hoff : 60 ∣ off) :
    (∃ text, printTzParam (-off) = some text ∧ parseTz text = some off) ↔ |off| < 360000 := by
  have habs : (off.natAbs : ℤ) = |off| := Int.natCast_natAbs off
  have hmin : off.natAbs % 3600 / 60 < 100 := by omega
  obtain ⟨m₁, m₂, hm, hmd⟩ := print02_digits hmin
  constructor
  · rintro ⟨text, htext, -⟩
    exact lt_of_printTzParam htext
  · intro hlt
    unfold printTzParam
    simp only [Int.natAbs_neg, hm]
    obtain ⟨h₁, h₂, hh, hhd⟩ := print02_digits (n := off.natAbs / 3600) (by omega)
    rw [hh]
    refine ⟨_, rfl, ?_⟩
    rcases le_or_gt (-off) 0 with hsign | hsign
    · have hval : ((off.natAbs / 3600 : ℕ) : ℤ) * 3600 + (off.natAbs % 3600 / 60 : ℕ) * 60 = off := by
        omega
      rw [if_pos hsign]
      exact (parseTz_plus hhd hmd).trans (congrArg some hval)
    · have hval : -(((off.natAbs / 3600 : ℕ) : ℤ) * 3600 + (off.natAbs % 3600 / 60 : ℕ) * 60) =
          off := by omega
      rw [if_neg (not_le.mpr hsign)]
      exact (parseTz_minus hhd hmd).trans (congrArg some hval)

/-! ## Both -/

/-- The request carries the local offset exactly while the local date is in the year of the UTC
date, and the offset is below a hundred hours. -/
theorem request_time_zone (first : Bool) (utc : ℕ) (off : ℤ) (hoff : 60 ∣ off) :
    ((∃ now, getTzDstOffset first utc off = some (-off, now)) ∧
      ∃ text, printTzParam (-off) = some text ∧ parseTz text = some off) ↔
    Calendar.yearOf (dayOf (utc + off)) = Calendar.yearOf (dayOf utc) ∧ |off| < 360000 := by
  rw [printTzParam_parse hoff, getTzDstOffset_eq first utc hoff]
  refine and_congr_left fun _ ↦ ?_
  constructor
  · rintro ⟨now, hnow⟩
    simp only [Option.some.injEq, Prod.mk.injEq] at hnow
    have heq : Calendar.firstDay (Calendar.yearOf (dayOf (utc + off))) =
        Calendar.firstDay (Calendar.yearOf (dayOf utc)) := by omega
    exact Calendar.firstDay_strictMono.injective heq
  · intro h
    rw [h]
    exact ⟨localtime utc off, by simp⟩

/-- Nepal, in the middle of a year. -/
theorem request_time_zone_nepal :
    (∃ now, getTzDstOffset true 1593561600 20700 = some (-20700, now)) ∧
      ∃ text, printTzParam (-20700) = some text ∧ parseTz text = some 20700 :=
  (request_time_zone true 1593561600 20700 (by decide)).mpr (by decide +kernel)

/-- One hour east of Greenwich, in the last hour of a year there. -/
theorem request_time_zone_new_year :
    ¬ ((∃ now, getTzDstOffset true 1609457400 3600 = some (-3600, now)) ∧
      ∃ text, printTzParam (-3600) = some text ∧ parseTz text = some 3600) := by
  rintro ⟨⟨now, hnow⟩, -⟩
  have hoff : (getTzDstOffset true 1609457400 3600).map Prod.fst = some 31618800 := by
    decide +kernel
  rw [hnow] at hoff
  cases hoff

end EsOdbc
