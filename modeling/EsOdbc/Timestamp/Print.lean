import EsOdbc.Timestamp.Bounds

/-!
# Printing a timestamp

`print_timestamp` and `size_decdigits_for_iso8601`.  What is printed is read back when the column
size cuts it at the end of a field.
-/

namespace EsOdbc

open Calendar (Date)

/-! ## The source -/

/-- `%0*d` for a number that is not negative. -/
def zeroPadded (k n : ℕ) : WStr := if n < 10 ^ k then padded k n else digitUnits (Decimal.digits n)

/-- `%04d`. -/
def yearText (y : ℤ) : WStr :=
  if y < 0 then 0x2D :: zeroPadded 3 y.natAbs else zeroPadded 4 y.natAbs

/-- `ESODBC_MAX_SEC_PRECISION`. -/
def maxSecPrecision : ℕ := 9

/-- The fraction in as many digits, if there is something to print. -/
def fractionText (fraction : ℕ) (decdigits : ℤ) : WStr :=
  let nsec := fraction / 10 ^ (maxSecPrecision - decdigits.toNat)
  if 0 < decdigits ∧ nsec ≠ 0 then 0x2E :: zeroPadded decdigits.toNat nsec else []

/-- What is printed before it is cut, with a blank. -/
def stampText (tss : TimestampStruct) (decdigits : ℤ) : WStr :=
  yearText tss.year ++ 0x2D :: (zeroPadded 2 tss.month ++ 0x2D :: (zeroPadded 2 tss.day ++ 0x20 ::
    (zeroPadded 2 tss.hour ++ 0x3A :: (zeroPadded 2 tss.minute ++ 0x3A ::
      (zeroPadded 2 tss.second ++ fractionText tss.fraction decdigits)))))

/-- `(int)lim`: where the text is cut. -/
def cutAt (colsize : UInt64) : ℤ :=
  if colsize = 0 then timestampTemplateLen + 1 + maxSecPrecision else (colsize.toNat : ℤ).bmod (2 ^ 32)

/-- `print_timestamp`, up to the NUL.  A text that is too long for the destination fails, and a
negative length is behind it. -/
def printTimestamp (tss : TimestampStruct) (iso8601 : Bool) (colsize : UInt64) (decdigits : ℤ) :
    Exec (Option WStr) :=
  let text := stampText tss decdigits
  if isoMaxLen + 1 < text.length then .done none
  else
    let n := if cutAt colsize < text.length then cutAt colsize else text.length
    if n < 0 then .undefined
    else if iso8601 then
      .done (some ((text.set dateTemplateLen 0x54).take n.toNat ++ [0x5A]))
    else .done (some (text.take n.toNat))

/-- `size_decdigits_for_iso8601`, with the size and the digits that the record has. -/
def sizeDecdigitsForIso8601 (type : DateTimeType) (colsize : UInt64) (decdigits : ℤ) :
    Except SqlState (UInt64 × ℤ) :=
  let decdigits := if (maxSecPrecision : ℤ) < decdigits then (maxSecPrecision : ℤ) else decdigits
  match type with
  | .time =>
    if colsize = 0 then .ok (colsize, decdigits)
    else if colsize < 8 ∨ colsize = 9 then .error .sHY104
    else .ok (colsize + 11, decdigits)
  | .date =>
    if colsize ≠ 0 ∧ colsize ≠ 10 then .error .sHY104
    else if decdigits ≠ 0 then .error .sHY104
    else .ok (if colsize = 0 then 0 else colsize + 9, decdigits)
  | .timestamp =>
    if colsize ≠ 0 ∧ (colsize < 16 ∨ colsize = 17 ∨ colsize = 18) then .error .sHY104
    else .ok (colsize, decdigits)

/-! ## What is asked for -/

/-- How precise a text is to be: up to the minutes, or with digits of the second. -/
inductive Precision where
  | minutes
  | digits (k : ℕ)
deriving DecidableEq

/-- The precision that a size and digits ask for. -/
def requested (type : DateTimeType) (colsize : UInt64) (decdigits : ℤ) : Precision :=
  let k := min decdigits.toNat maxSecPrecision
  if colsize = 0 then .digits k
  else
    match type with
    | .time => .digits (min (colsize.toNat - 9) k)
    | .date => .digits 0
    | .timestamp => if colsize = 16 then .minutes else .digits (min (colsize.toNat - 20) k)

/-- A fraction of a second cut to so many digits. -/
def cutFraction (k fraction : ℕ) : ℕ :=
  fraction / 10 ^ (maxSecPrecision - k) * 10 ^ (maxSecPrecision - k)

namespace Precision

/-- The fields of a timestamp, with those that are too precise cleared. -/
def cleared (d : IsoDate) (c : Clock) (fraction : ℕ) : Precision → TimestampStruct
  | minutes => stampFields d.toDate { c with second := ⟨0, Nat.succ_pos 59⟩ } 0
  | digits k => stampFields d.toDate c (cutFraction k fraction)

/-- The texts of this precision, in Greenwich. -/
def Text (d : IsoDate) (c : Clock) (w : WStr) : Precision → Prop
  | minutes => w = dateText d.toDate ++ 0x54 :: (padded 2 c.hour ++ 0x3A :: (padded 2 c.minute ++ [0x5A]))
  | digits k => ∃ (frac : Option Digits) (short : ShortFrac frac), (∀ ds ∈ frac, ds.length ≤ k) ∧
      w = (⟨⟨d, .upper, c, frac, short⟩, .utc false⟩ : Stamp).text

end Precision

/-- A size and digits that are admitted, and what becomes of them. -/
structure AdmittedSize where
  type : DateTimeType
  size : UInt64
  decimals : ℤ
  colsize : UInt64
  decdigits : ℤ
  admitted : sizeDecdigitsForIso8601 type size decimals = .ok (colsize, decdigits)

/-- A text of the precision asked for is printed, fits the destination, and is read back. -/
def PrintsBack (ctx : ZoneContext) (a : AdmittedSize) (d : IsoDate) (c : Clock)
    (fraction : Fin (10 ^ 9)) : Prop :=
  let p := requested a.type a.size a.decimals
  ∃ w, printTimestamp (stampFields d.toDate c fraction) true a.colsize a.decdigits = .done (some w) ∧
    p.Text d c w ∧ w.length ≤ isoMaxLen ∧
      (parseIso8601Timestamp ctx true (.wide w)).result = .ok (p.cleared d c fraction)

/-! ## Fractions -/

theorem zeroPadded_of_lt {k n : ℕ} (h : n < 10 ^ k) : zeroPadded k n = padded k n := if_pos h

theorem nsec_lt {fraction : ℕ} {decdigits : ℤ} (hfraction : fraction < 10 ^ 9)
    (hdec : decdigits ≤ maxSecPrecision) :
    fraction / 10 ^ (maxSecPrecision - decdigits.toNat) < 10 ^ decdigits.toNat := by
  unfold maxSecPrecision at hdec ⊢
  rw [Nat.div_lt_iff_lt_mul (by positivity), ← pow_add, Nat.add_sub_cancel' (by omega)]
  exact hfraction

theorem fractionText_eq {fraction : ℕ} {decdigits : ℤ} (hfraction : fraction < 10 ^ 9)
    (hdec : decdigits ≤ maxSecPrecision) :
    fractionText fraction decdigits =
      if 0 < decdigits ∧ fraction / 10 ^ (maxSecPrecision - decdigits.toNat) ≠ 0 then
        0x2E :: padded decdigits.toNat (fraction / 10 ^ (maxSecPrecision - decdigits.toNat))
      else [] := by
  rw [fractionText, zeroPadded_of_lt (nsec_lt hfraction hdec)]

theorem length_fractionText {fraction : ℕ} {decdigits : ℤ} (hfraction : fraction < 10 ^ 9)
    (hdec : decdigits ≤ maxSecPrecision) : (fractionText fraction decdigits).length ≤ 10 := by
  rw [fractionText_eq hfraction hdec]
  unfold maxSecPrecision at hdec
  split_ifs
  · rw [List.length_cons, length_padded]
    omega
  · exact Nat.zero_le _

/-- Cutting at a digit cuts what is left of the fraction. -/
theorem div_pow_cut {fraction k j : ℕ} (hj : j ≤ k) (hk : k ≤ maxSecPrecision) :
    fraction / 10 ^ (maxSecPrecision - j) =
      fraction / 10 ^ (maxSecPrecision - k) / 10 ^ (k - j) := by
  rw [Nat.div_div_eq_div_mul, ← pow_add]
  congr 2
  omega

/-- The fraction that is printed, and cut behind `m` units. -/
theorem exists_pointText {fraction m : ℕ} {decdigits : ℤ} (hfraction : fraction < 10 ^ 9)
    (hdec : decdigits ≤ maxSecPrecision) (hm : m = 1 → fractionText fraction decdigits = []) :
    ∃ frac : Option Digits, ShortFrac frac ∧
      pointText frac = (fractionText fraction decdigits).take m ∧
      (∀ ds ∈ frac, ds.length ≤ min (m - 1) decdigits.toNat) ∧
      nanos frac = cutFraction (min (m - 1) decdigits.toNat) fraction := by
  have hnsec := nsec_lt hfraction hdec
  have hdigits : decdigits.toNat ≤ maxSecPrecision := Int.toNat_le.mpr hdec
  rw [fractionText_eq hfraction hdec] at hm ⊢
  rw [cutFraction, div_pow_cut (min_le_right _ _) hdigits]
  generalize hk : decdigits.toNat = k at hnsec hm hdigits ⊢
  generalize hleft : fraction / 10 ^ (maxSecPrecision - k) = left at hnsec hm ⊢
  by_cases hprint : 0 < decdigits ∧ left ≠ 0
  · rw [if_pos hprint] at hm ⊢
    rcases m with _ | _ | j
    · refine ⟨none, by simp [ShortFrac], rfl, by simp, ?_⟩
      rw [Nat.zero_sub, Nat.zero_min, Nat.sub_zero k, Nat.div_eq_of_lt hnsec, Nat.zero_mul]
      rfl
    · exact absurd (hm rfl) (by simp)
    · have hlen : ((Decimal.lastDigits k left).take (j + 1)).length = min (j + 1) k := by simp
      unfold maxSecPrecision at hdigits
      refine ⟨some ((Decimal.lastDigits k left).take (j + 1)), ?_, ?_, ?_, ?_⟩
      · intro ds hds
        rw [Option.mem_some_iff] at hds
        subst hds
        omega
      · rw [pointText, Option.elim_some, padded, digitUnits, digitUnits, List.map_take,
          List.take_succ_cons]
      · intro ds hds
        rw [Option.mem_some_iff] at hds
        subst hds
        exact hlen.le
      · rw [nanos, Option.elim_some, hlen, Decimal.ofDigits_take, Decimal.length_lastDigits,
          Decimal.ofDigits_lastDigits, Nat.mod_eq_of_lt hnsec, Nat.add_sub_cancel]
        have hsub : k - (j + 1) = k - min (j + 1) k := by omega
        rw [hsub]
        rfl
  · rw [if_neg hprint]
    refine ⟨none, by simp [ShortFrac], by simp [pointText], by simp, ?_⟩
    have hzero : left = 0 := by
      rw [not_and, not_not] at hprint
      by_cases hpos : 0 < decdigits
      · exact hprint hpos
      · obtain rfl : k = 0 := by omega
        exact Nat.lt_one_iff.mp hnsec
    rw [hzero, Nat.zero_div, Nat.zero_mul]
    rfl

/-! ## What is printed -/

theorem stampText_eq {d : Date} (hy : d.year < 10 ^ 4) (c : Clock) (fraction : ℕ)
    (decdigits : ℤ) : stampText (stampFields d c fraction) decdigits =
      (dateText d ++ 0x20 :: c.text) ++ fractionText fraction decdigits := by
  have hh : c.hour.val < 10 ^ 2 := c.hour.isLt.trans (by norm_num)
  have hm : c.minute.val < 10 ^ 2 := c.minute.isLt.trans (by norm_num)
  have hs : c.second.val < 10 ^ 2 := c.second.isLt.trans (by norm_num)
  have hyear : yearText d.year = padded 4 d.year := by
    rw [yearText, if_neg (by omega), Int.natAbs_natCast, zeroPadded_of_lt hy]
  simp only [stampText, stampFields, hyear, zeroPadded_of_lt (month_lt d),
    zeroPadded_of_lt (day_lt d), zeroPadded_of_lt hh, zeroPadded_of_lt hm,
    zeroPadded_of_lt hs, dateText, Clock.text, List.append_assoc, List.cons_append]

/-- The text up to the seconds. -/
def wholeText (d : IsoDate) (c : Clock) : WStr := dateText d.toDate ++ 0x54 :: c.text

theorem length_wholeText (d : IsoDate) (c : Clock) :
    (wholeText d c).length = timestampTemplateLen := by
  rw [wholeText, List.length_append, List.length_cons, length_dateText, length_clockText]
  rfl

/-- What `print_timestamp` gives for an ISO 8601 text. -/
theorem printTimestamp_iso {d : IsoDate} {c : Clock} {fraction : ℕ} {decdigits : ℤ}
    (colsize : UInt64) (hfraction : fraction < 10 ^ 9) (hdec : decdigits ≤ maxSecPrecision) :
    printTimestamp (stampFields d.toDate c fraction) true colsize decdigits =
      if cutAt colsize < 0 then .undefined
      else .done (some ((wholeText d c ++ fractionText fraction decdigits).take
        (cutAt colsize).toNat ++ [0x5A])) := by
  have hlen := length_fractionText hfraction hdec
  have hset : (dateText d.toDate ++ 0x20 :: c.text ++ fractionText fraction decdigits).set
      dateTemplateLen 0x54 = wholeText d c ++ fractionText fraction decdigits := by
    rw [← length_dateText d.toDate, List.append_assoc, List.cons_append, set_append_cons,
      wholeText, List.append_assoc, List.cons_append]
  have htotal : (dateText d.toDate ++ 0x20 :: c.text ++ fractionText fraction decdigits).length =
      (wholeText d c ++ fractionText fraction decdigits).length := by
    rw [← hset, List.length_set]
  rw [printTimestamp, stampText_eq (d.year_le.trans_lt (by norm_num))]
  dsimp only
  rw [hset, htotal]
  have hwhole : (wholeText d c ++ fractionText fraction decdigits).length ≤ 29 := by
    rw [List.length_append, length_wholeText]
    unfold timestampTemplateLen
    omega
  rw [if_neg (by unfold isoMaxLen; omega)]
  by_cases hneg : cutAt colsize < 0
  · rw [if_pos hneg, if_pos (by rw [if_pos (by omega)]; exact hneg)]
  · rw [if_neg hneg]
    by_cases hcut : cutAt colsize < ((wholeText d c ++ fractionText fraction decdigits).length : ℤ)
    · rw [if_pos hcut, if_neg hneg, if_pos rfl]
    · rw [if_neg hcut, if_neg (by omega), if_pos rfl, Int.toNat_natCast, List.take_length,
        List.take_of_length_le (by omega)]

/-! ## Reading it back -/

/-- A wide text of a timestamp is converted. -/
theorem parseIso8601Timestamp_wide_text (ctx : ZoneContext) {s : Stamp} {tss : TimestampStruct}
    (h : Shows s.value.sec (nanos s.frac) tss) :
    (parseIso8601Timestamp ctx true (.wide s.text)).result = .ok tss := by
  have hascii : ∀ c ∈ s.text, c ≠ 0 ∧ c ≤ 127 :=
    (DateTimeText.timestamp s.toStem (some s.zone)).ascii
  have hrun := asciiRun_self hascii
  have hne : s.text ≠ [] := (DateTimeText.timestamp s.toStem (some s.zone)).text_ne_nil
  have hlen := s.length_text
  have hcount : ((s.text.length : ℤ) + 1 - 1).toNat = s.text.length := by simp
  have hconv : asciiW2cWrites s.text = ((s.text.length + 1 : ℤ), s.text ++ [0]) := by
    rw [asciiW2cWrites_eq, if_pos ⟨hne, asciiEnds_self hascii⟩, hrun]
  rw [parseIso8601Timestamp, hconv]
  dsimp only
  rw [if_neg (by unfold isoMinLen isoMaxLen; omega), if_neg (by omega), hcount, List.take_left,
    isoFields_eq_ok.mpr (timestampFields_eq_ok.mpr ⟨s, rfl, h⟩)]
  rfl

theorem shows_greenwich (d : IsoDate) (c : Clock) {frac : Option Digits} (short : ShortFrac frac) :
    Shows (⟨⟨d, .upper, c, frac, short⟩, .utc false⟩ : Stamp).value.sec (nanos frac)
      (stampFields d.toDate c (nanos frac)) :=
  ⟨d.toDate, c, by simp [Stamp.value, Stem.seconds, instant, Zone.offset], rfl⟩

/-- The text of a timestamp in Greenwich. -/
theorem text_greenwich (d : IsoDate) (c : Clock) {frac : Option Digits} (short : ShortFrac frac) :
    (⟨⟨d, .upper, c, frac, short⟩, .utc false⟩ : Stamp).text =
      wholeText d c ++ pointText frac ++ [0x5A] := by
  simp only [Stamp.text, Stem.text, wholeText, List.append_assoc, List.cons_append]
  rfl

/-! ## What is admitted -/

theorem cutAt_of_lt {n : UInt64} (hn : n ≠ 0) (h : n.toNat < 2 ^ 31) : cutAt n = n.toNat := by
  rw [cutAt, if_neg hn]
  exact Int.bmod_eq_of_le (by omega) (by omega)

namespace AdmittedSize

variable (a : AdmittedSize)

theorem decdigits_eq : a.decdigits = min a.decimals maxSecPrecision := by
  obtain ⟨type, size, decimals, colsize, decdigits, admitted⟩ := a
  have hmin : (if (maxSecPrecision : ℤ) < decimals then (maxSecPrecision : ℤ) else decimals) =
      min decimals maxSecPrecision := by
    rw [min_def]
    split_ifs <;> omega
  unfold sizeDecdigitsForIso8601 at admitted
  rw [hmin] at admitted
  cases type with
  | time =>
    dsimp only at admitted
    split_ifs at admitted
    all_goals
      cases admitted
      rfl
  | date =>
    dsimp only at admitted
    split_ifs at admitted
    all_goals
      cases admitted
      rfl
  | timestamp =>
    dsimp only at admitted
    split_ifs at admitted
    cases admitted
    rfl

theorem decdigits_le : a.decdigits ≤ maxSecPrecision := a.decdigits_eq ▸ min_le_right _ _

theorem toNat_decdigits : a.decdigits.toNat = min a.decimals.toNat maxSecPrecision := by
  have := a.decdigits_eq
  unfold maxSecPrecision at this ⊢
  omega

/-- What becomes of the size. -/
theorem colsize_zero (h : a.size = 0) : a.colsize = 0 := by
  obtain ⟨type, size, decimals, colsize, decdigits, admitted⟩ := a
  dsimp only at h ⊢
  subst h
  unfold sizeDecdigitsForIso8601 at admitted
  generalize (if (maxSecPrecision : ℤ) < decimals then (maxSecPrecision : ℤ) else decimals) = dec
    at admitted
  cases type with
  | time =>
    cases admitted
    rfl
  | date =>
    dsimp only at admitted
    rw [if_neg (by simp), if_pos rfl] at admitted
    by_cases hdec : dec ≠ 0
    · rw [if_pos hdec] at admitted
      cases admitted
    · rw [if_neg hdec] at admitted
      cases admitted
      rfl
  | timestamp =>
    cases admitted
    rfl

@[inherit_doc colsize_zero]
theorem colsize_time (htype : a.type = .time) (h : a.size ≠ 0) : a.colsize = a.size + 11 := by
  obtain ⟨type, size, decimals, colsize, decdigits, admitted⟩ := a
  dsimp only at htype h ⊢
  subst htype
  unfold sizeDecdigitsForIso8601 at admitted
  dsimp only at admitted
  rw [if_neg h] at admitted
  by_cases hbad : size < 8 ∨ size = 9
  · rw [if_pos hbad] at admitted
    cases admitted
  · rw [if_neg hbad] at admitted
    cases admitted
    rfl

@[inherit_doc colsize_zero]
theorem colsize_date (htype : a.type = .date) (h : a.size ≠ 0) : a.colsize = 19 := by
  obtain ⟨type, size, decimals, colsize, decdigits, admitted⟩ := a
  dsimp only at htype h ⊢
  subst htype
  unfold sizeDecdigitsForIso8601 at admitted
  generalize (if (maxSecPrecision : ℤ) < decimals then (maxSecPrecision : ℤ) else decimals) = dec
    at admitted
  dsimp only at admitted
  by_cases hten : size = 10
  · subst hten
    rw [if_neg (by simp), if_neg h] at admitted
    by_cases hdec : dec ≠ 0
    · rw [if_pos hdec] at admitted
      cases admitted
    · rw [if_neg hdec] at admitted
      cases admitted
      rfl
  · rw [if_pos ⟨h, hten⟩] at admitted
    cases admitted

@[inherit_doc colsize_zero]
theorem colsize_timestamp (htype : a.type = .timestamp) : a.colsize = a.size := by
  obtain ⟨type, size, decimals, colsize, decdigits, admitted⟩ := a
  dsimp only at htype ⊢
  subst htype
  unfold sizeDecdigitsForIso8601 at admitted
  dsimp only at admitted
  by_cases hbad : size ≠ 0 ∧ (size < 16 ∨ size = 17 ∨ size = 18)
  · rw [if_pos hbad] at admitted
    cases admitted
  · rw [if_neg hbad] at admitted
    cases admitted
    rfl

/-- A cut at the minutes. -/
theorem cutAt_minutes (h : requested a.type a.size a.decimals = .minutes) : cutAt a.colsize = 16 := by
  unfold requested at h
  by_cases hzero : a.size = 0
  · rw [if_pos hzero] at h
    cases h
  rw [if_neg hzero] at h
  cases htype : a.type with
  | time =>
    rw [htype] at h
    cases h
  | date =>
    rw [htype] at h
    cases h
  | timestamp =>
    rw [htype] at h
    dsimp only at h
    split_ifs at h with hsize
    rw [a.colsize_timestamp htype, hsize]
    decide

/-- No more digits are left than are asked for. -/
theorem digits_le {k : ℕ} (h : requested a.type a.size a.decimals = .digits k) :
    min ((cutAt a.colsize).toNat - 20) a.decdigits.toNat ≤ k := by
  rw [a.toNat_decdigits]
  unfold requested at h
  by_cases hzero : a.size = 0
  · rw [if_pos hzero, Precision.digits.injEq] at h
    exact h ▸ min_le_right _ _
  rw [if_neg hzero] at h
  cases htype : a.type with
  | time =>
    rw [htype] at h
    dsimp only at h
    rw [Precision.digits.injEq] at h
    subst h
    refine le_min ?_ (min_le_right _ _)
    by_cases hsmall : a.size.toNat < 2 ^ 30
    · have hadd : (a.size + 11).toNat = a.size.toNat + 11 := by
        have helev : (11 : UInt64).toNat = 11 := rfl
        rw [UInt64.toNat_add, helev]
        exact Nat.mod_eq_of_lt (by omega)
      have hne : a.size + 11 ≠ 0 := by
        intro hc
        rw [hc] at hadd
        exact absurd hadd.symm (Nat.succ_ne_zero _)
      rw [a.colsize_time htype hzero, cutAt_of_lt hne (by omega), hadd]
      omega
    · unfold maxSecPrecision
      omega
  | date =>
    rw [a.colsize_date htype hzero]
    exact (min_le_left _ _).trans (Nat.zero_le k)
  | timestamp =>
    rw [htype] at h
    dsimp only at h
    split_ifs at h with hsize
    rw [Precision.digits.injEq] at h
    subst h
    refine le_min ?_ (min_le_right _ _)
    by_cases hsmall : a.size.toNat < 2 ^ 30
    · rw [a.colsize_timestamp htype, cutAt_of_lt hzero (by omega)]
      omega
    · unfold maxSecPrecision
      omega

end AdmittedSize

/-! ## Main result -/

/-- The cut is at the end of a field, and what is cut off behind the digits asked for is nothing. -/
structure CutsAtField (a : AdmittedSize) (fraction : ℕ) : Prop where
  seconds : 19 ≤ cutAt a.colsize
  point : cutAt a.colsize = 20 → fractionText fraction a.decdigits = []
  digits : ∀ k, requested a.type a.size a.decimals = .digits k →
    cutFraction (min ((cutAt a.colsize).toNat - 20) a.decdigits.toNat) fraction =
      cutFraction k fraction

/-- A timestamp is printed in the precision asked for, and read back, exactly when it is cut at the
end of a field. -/
theorem printsBack_iff (ctx : ZoneContext) (a : AdmittedSize) (d : IsoDate) (c : Clock)
    (fraction : Fin (10 ^ 9)) : PrintsBack ctx a d c fraction ↔ CutsAtField a fraction := by
  have hprint := @printTimestamp_iso d c fraction _ a.colsize fraction.isLt a.decdigits_le
  rw [PrintsBack, hprint]
  -- what is left of the text when the cut is behind the seconds
  have htake : 19 ≤ cutAt a.colsize →
      (wholeText d c ++ fractionText fraction a.decdigits).take (cutAt a.colsize).toNat =
        wholeText d c ++ (fractionText fraction a.decdigits).take ((cutAt a.colsize).toNat - 19) := by
    intro hseconds
    rw [List.take_append, length_wholeText, List.take_of_length_le]
    · rfl
    · rw [length_wholeText]
      unfold timestampTemplateLen
      omega
  constructor
  · rintro ⟨w, hdone, htext, -, hparse⟩
    by_cases hneg : cutAt a.colsize < 0
    · rw [if_pos hneg] at hdone
      cases hdone
    rw [if_neg hneg, Exec.done.injEq, Option.some.injEq] at hdone
    cases hp : requested a.type a.size a.decimals with
    | minutes =>
      have hcut := a.cutAt_minutes hp
      rw [hp] at htext
      have hw : w.length = 17 := by
        rw [show w = _ from htext]
        simp [length_dateText, dateTemplateLen]
      rw [parseIso8601Timestamp] at hparse
      dsimp only at hparse
      rw [if_pos (by unfold isoMinLen; omega)] at hparse
      cases hparse
    | digits k =>
      rw [hp] at htext hparse
      obtain ⟨frac, short, hlen, hw⟩ := htext
      rw [text_greenwich] at hw
      have hseconds : 19 ≤ cutAt a.colsize := by
        by_contra hc
        have hlength := congrArg List.length (hdone.trans hw)
        simp only [List.length_append, List.length_take, List.length_singleton, length_wholeText]
          at hlength
        unfold timestampTemplateLen at hlength
        omega
      rw [htake hseconds] at hdone
      have hfrac : pointText frac =
          (fractionText fraction a.decdigits).take ((cutAt a.colsize).toNat - 19) := by
        have happ := hdone.trans hw
        rw [List.append_left_inj, List.append_right_inj] at happ
        exact happ.symm
      have hpoint : cutAt a.colsize = 20 → fractionText fraction a.decdigits = [] := by
        intro h20
        rw [h20] at hfrac
        cases hF : fractionText fraction a.decdigits with
        | nil => rfl
        | cons u r =>
          rw [hF] at hfrac
          cases frac with
          | none => cases hfrac
          | some ds =>
            have hds := congrArg List.length hfrac
            have hpos := (short ds rfl).1
            simp [pointText] at hds
            rw [hds] at hpos
            exact absurd hpos (by simp)
      have hone : (cutAt a.colsize).toNat - 19 = 1 → fractionText fraction a.decdigits = [] :=
        fun h ↦ hpoint (by omega)
      obtain ⟨frac', short', hfrac', -, hnanos⟩ :=
        exists_pointText fraction.isLt a.decdigits_le hone
      refine ⟨hseconds, hpoint, fun k' hk' ↦ ?_⟩
      obtain rfl : k' = k := by
        rw [hp, Precision.digits.injEq] at hk'
        exact hk'.symm
      rw [← hdone, ← hfrac', ← text_greenwich d c short',
        parseIso8601Timestamp_wide_text ctx (shows_greenwich d c short'), Except.ok.injEq] at hparse
      have hfields := congrArg TimestampStruct.fraction hparse
      rw [← Nat.sub_sub _ 19 1, ← hnanos]
      exact hfields
  · rintro ⟨hseconds, hpoint, hdigits⟩
    cases hp : requested a.type a.size a.decimals with
    | minutes =>
      have hcut := a.cutAt_minutes hp
      omega
    | digits k =>
      have hone : (cutAt a.colsize).toNat - 19 = 1 → fractionText fraction a.decdigits = [] :=
        fun h ↦ hpoint (by omega)
      obtain ⟨frac, short, hfrac, hlen, hnanos⟩ :=
        exists_pointText fraction.isLt a.decdigits_le hone
      rw [Nat.sub_sub] at hlen hnanos
      refine ⟨_, ?_, ⟨frac, short, fun ds hds ↦ (hlen ds hds).trans (a.digits_le hp), rfl⟩, ?_, ?_⟩
      · rw [if_neg (by omega), htake hseconds, ← hfrac, text_greenwich]
      · exact (Stamp.length_text _).2
      · rw [parseIso8601Timestamp_wide_text ctx (shows_greenwich d c short), hnanos, hdigits k hp]
        rfl

/-- With the column size 20 the text of a half second ends in its point. -/
theorem not_printsBack_danglingPoint : ¬PrintsBack
    ⟨false, ⟨⟨2024, 3, 1, by decide, by decide, by decide, by decide, by decide⟩, by decide, by decide⟩,
      some, some⟩ ⟨.timestamp, 20, 3, 20, 3, by decide⟩
    ⟨⟨2024, 3, 1, by decide, by decide, by decide, by decide, by decide⟩, by decide, by decide⟩ midnight
    ⟨500000000, by decide⟩ := by
  rintro ⟨w, hdone, -, -, hparse⟩
  cases hdone
  cases hparse

end EsOdbc
