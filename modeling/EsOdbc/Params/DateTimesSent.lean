import EsOdbc.Params.DateTimes
import EsOdbc.Timestamp.Agreement

/-!
# What is sent of a date or a time

Which dates, times and timestamps of an application `c2sql_date_time` emits as the ISO 8601 text of
their value, and which other inputs it rejects.
-/

namespace EsOdbc

open Calendar (Date)

/-! ## The values that are bound -/

/-- A connection whose conversion to UTC gives the fields of a date and a time, with the fraction it
was given. -/
structure UtcContext extends ZoneContext where
  utc_fields : ∀ tss u, toUtc tss = some u →
    ∃ (d : Date) (c : Clock), d.year ≤ 10000 ∧ u = stampFields d c tss.fraction

/-- A terminator that is counted in is not part of a text. -/
def withoutTerminator (w : WStr) : WStr := if w.getLast? = some 0 then w.dropLast else w

namespace BoundChars

variable (b : BoundChars)

/-- The units in front of the terminator. -/
def terminated : WStr := b.mem.takeWhile (· ≠ 0)

/-- The text that the application binds, if the length is one. -/
def text : Option WStr :=
  match b.octetLen with
  | none => some b.terminated
  | some n =>
    if n = -3 then some b.terminated
    else if n < 0 then none
    else some (withoutTerminator (b.mem.take (n / b.usize).toNat))

/-- The text that is taken: of a length, the units but the last one, if there is one. -/
def taken : Option WStr :=
  match b.octetLen with
  | none => some b.terminated
  | some n => if 1 ≤ n / b.usize then some (b.mem.take ((n / b.usize).toNat - 1)) else none

/-- The string lies in its memory. -/
structure Inside : Prop where
  terminator : b.octetLen = none ∨ b.octetLen = some (-3) → 0 ∈ b.mem
  length : ∀ n ∈ b.octetLen, n / b.usize ≤ b.mem.length
  range : ∀ n ∈ b.octetLen, -2 ^ 63 ≤ n ∧ n < 2 ^ 63
  small : b.mem.length < 2 ^ 60

end BoundChars

namespace BoundDateTime

/-- The memory that is bound is as long as its length says. -/
def Inside : BoundDateTime → Prop
  | chars b => b.Inside
  | fields (.binary mem octetLen) =>
    (octetLen = none → 0 ∈ mem) ∧ ∀ n ∈ octetLen, -2 ^ 63 ≤ n ∧ n < 2 ^ 63 ∧ n ≤ mem.length
  | fields _ => True

/-- The class of what is bound, whether it says its zone, and its fields, in Greenwich if it does. -/
inductive Names (today : IsoDate) : BoundDateTime → DateTimeType → Bool → TimestampStruct → Prop
  | text {b : BoundChars} {w : WStr} {t : DateTimeText} {tss : TimestampStruct} (ht : t.WellFormed)
      (hw : b.text = some w) (htext : (trimWs b.wide w).2 = t.text) (hmeans : t.Means today tss) :
      Names today (chars b) t.type t.zone.isSome tss
  | time (c : Clock) : Names today (fields (.time ⟨c.hour, c.minute, c.second⟩)) .time false
      (stampFields today.toDate c 0)
  | date (d : IsoDate) : Names today (fields (.date ⟨d.year, d.month, d.day⟩)) .date false
      (stampFields d.toDate midnight 0)
  | timestamp (d : IsoDate) (c : Clock) (fraction : Fin (10 ^ 9)) :
      Names today (fields (.timestamp (stampFields d.toDate c fraction))) .timestamp false
        (stampFields d.toDate c fraction)
  | binary {mem : List UInt8} (d : IsoDate) (c : Clock) (fraction : Fin (10 ^ 9))
      (hmem : timestampOfBytes (mem.take timestampStructSize) = stampFields d.toDate c fraction) :
      Names today (fields (.binary mem (some timestampStructSize))) .timestamp false
        (stampFields d.toDate c fraction)

/-- The class of what is bound, and its fields in UTC.  A date has no zone. -/
def Denotes (ctx : ZoneContext) (b : BoundDateTime) (ty : DateTimeType) (u : TimestampStruct) :
    Prop :=
  ∃ zoned tss, b.Names ctx.today ty zoned tss ∧
    (if ctx.applyTz ∧ zoned = false ∧ ty ≠ .date then ctx.toUtc tss else some tss) = some u

end BoundDateTime

/-! ## Their texts -/

/-- The digits of a fraction that are shown, at most `k`: none if the `digits` ones that are asked for
are all zero. -/
def shownFraction (digits k fraction : ℕ) : WStr :=
  let n := fraction / 10 ^ (maxSecPrecision - digits)
  if k = 0 ∨ n = 0 then [] else 0x2E :: (padded digits n).take k

/-- A time of the day in a precision, in Greenwich. -/
def shownClock (p : Precision) (digits : ℕ) (c : Clock) (fraction : ℕ) : WStr :=
  match p with
  | .minutes => padded 2 c.hour ++ 0x3A :: (padded 2 c.minute ++ [0x5A])
  | .digits k => c.text ++ (shownFraction digits k fraction ++ [0x5A])

/-- The ISO 8601 text of a value, as precise as size and decimal digits ask for. -/
def shownText (target : DateTimeType) (size : UInt64) (decimals : ℤ) (d : Date) (c : Clock)
    (fraction : ℕ) : WStr :=
  let s := shownClock (requested target size decimals) (min decimals.toNat maxSecPrecision) c fraction
  match target with
  | .time => s
  | .date => dateText d ++ 0x54 :: time0Z
  | .timestamp => dateText d ++ 0x54 :: s

/-- A parameter of a date or time type whose value is bound. -/
structure DateTimeParam where
  target : DateTimeType
  size : UInt64
  decimals : ℤ
  bound : BoundDateTime
  compatible : typesCompatible target.sqlType bound.cType = some true
  inside : bound.Inside

namespace DateTimeParam

variable (p : DateTimeParam)

/-- The parameter takes values of a class. -/
def Takes (ty : DateTimeType) : Prop :=
  dateWithTime (some ty) p.target = false ∧
    ∃ a, sizeDecdigitsForIso8601 p.target p.size p.decimals = .ok a

/-- What is emitted. -/
def out (ctx : ZoneContext) (junk : WStr) : Exec (Except SqlState WStr) :=
  c2sqlDateTime ctx junk p.target p.size p.decimals p.bound

/-- A value that the parameter takes is emitted as its text, and what is none is rejected. -/
def Emits (ctx : ZoneContext) (junk : WStr) : Prop :=
  (∀ ty u, p.bound.Denotes ctx ty u → p.Takes ty → ∃ (d : Date) (c : Clock) (fraction : ℕ),
    d.year < 10 ^ 4 ∧ u = stampFields d c fraction ∧
      p.out ctx junk =
        .done (.ok (0x22 :: (shownText p.target p.size p.decimals d c fraction ++ [0x22])))) ∧
  ((∀ ty u, p.bound.Denotes ctx ty u → ¬p.Takes ty) → ∃ e, p.out ctx junk = .done (.error e))

end DateTimeParam

/-! ## Texts that differ -/

theorem dateText_append_inj {d d' : Date} (hy : d.year < 10 ^ 4) (hy' : d'.year < 10 ^ 4)
    {w w' : WStr} (h : dateText d ++ w = dateText d' ++ w') : d = d' ∧ w = w' := by
  obtain ⟨hdate, hw⟩ := List.append_inj h (by rw [length_dateText, length_dateText])
  exact ⟨dateText_injective hy hy' hdate, hw⟩

theorem padded_fin_inj {n : ℕ} (hn : n ≤ 10 ^ 2) {i j : Fin n} (h : padded 2 i = padded 2 j) :
    i = j :=
  Fin.ext (padded_inj (i.isLt.trans_le hn) (j.isLt.trans_le hn) h)

theorem clockText_append_inj {c c' : Clock} {w w' : WStr} (h : c.text ++ w = c'.text ++ w') :
    c = c' ∧ w = w' := by
  obtain ⟨hclock, hw⟩ := List.append_inj h (by rw [length_clockText, length_clockText])
  obtain ⟨hhour, hrest⟩ := List.append_inj hclock (by simp)
  obtain ⟨hminute, hrest⟩ := List.append_inj (List.cons.inj hrest).2 (by simp)
  exact ⟨Clock.ext (padded_fin_inj (by norm_num) hhour) (padded_fin_inj (by norm_num) hminute)
    (padded_fin_inj (by norm_num) (List.cons.inj hrest).2), hw⟩

/-! ## Printing -/

/-- A date and a time of the day. -/
def dateClockText (d : Date) (c : Clock) : WStr := dateText d ++ 0x54 :: c.text

theorem length_dateClockText (d : Date) (c : Clock) :
    (dateClockText d c).length = timestampTemplateLen := by
  rw [dateClockText, List.length_append, List.length_cons, length_dateText, length_clockText]
  rfl

theorem printTimestamp_date {d : Date} (hy : d.year < 10 ^ 4) {c : Clock} {fraction : ℕ}
    {decdigits : ℤ} (colsize : UInt64) (hfraction : fraction < 10 ^ 9)
    (hdec : decdigits ≤ maxSecPrecision) :
    printTimestamp (stampFields d c fraction) true colsize decdigits =
      if cutAt colsize < 0 then .undefined
      else .done (some ((dateClockText d c ++ fractionText fraction decdigits).take
        (cutAt colsize).toNat ++ [0x5A])) := by
  have hlen := length_fractionText hfraction hdec
  have hset : (dateText d ++ 0x20 :: c.text ++ fractionText fraction decdigits).set
      dateTemplateLen 0x54 = dateClockText d c ++ fractionText fraction decdigits := by
    rw [← length_dateText d, List.append_assoc, List.cons_append, set_append_cons,
      dateClockText, List.append_assoc, List.cons_append]
  have htotal : (dateText d ++ 0x20 :: c.text ++ fractionText fraction decdigits).length =
      (dateClockText d c ++ fractionText fraction decdigits).length := by
    rw [← hset, List.length_set]
  rw [printTimestamp, stampText_eq hy]
  dsimp only
  rw [hset, htotal]
  have hwhole : (dateClockText d c ++ fractionText fraction decdigits).length ≤ 29 := by
    rw [List.length_append, length_dateClockText]
    unfold timestampTemplateLen
    omega
  rw [if_neg (by unfold isoMaxLen; omega)]
  by_cases hneg : cutAt colsize < 0
  · rw [if_pos hneg, if_pos (by rw [if_pos (by omega)]; exact hneg)]
  · rw [if_neg hneg]
    by_cases hcut :
        cutAt colsize < ((dateClockText d c ++ fractionText fraction decdigits).length : ℤ)
    · rw [if_pos hcut, if_neg hneg, if_pos rfl]
    · rw [if_neg hcut, if_neg (by omega), if_pos rfl, Int.toNat_natCast, List.take_length,
        List.take_of_length_le (by omega)]

/-- A cut behind the seconds. -/
theorem take_dateClockText {d : Date} {c : Clock} {w : WStr} {n : ℕ} (h : 19 ≤ n) :
    (dateClockText d c ++ w).take n = dateClockText d c ++ w.take (n - 19) := by
  rw [List.take_append, length_dateClockText, List.take_of_length_le]
  · rfl
  · rw [length_dateClockText]
    exact h

/-- A cut behind the minutes. -/
theorem take_minutes (d : Date) (c : Clock) (w : WStr) :
    (dateClockText d c ++ w).take 16 =
      dateText d ++ 0x54 :: (padded 2 c.hour ++ 0x3A :: padded 2 c.minute) := by
  have hsplit : dateClockText d c ++ w =
      (dateText d ++ 0x54 :: (padded 2 c.hour ++ 0x3A :: padded 2 c.minute)) ++
        (0x3A :: (padded 2 c.second ++ w)) := by
    simp only [dateClockText, Clock.text, List.append_assoc, List.cons_append]
  have hlen : (dateText d ++ 0x54 :: (padded 2 c.hour ++ 0x3A :: padded 2 c.minute)).length = 16 := by
    simp [length_dateText, dateTemplateLen]
  rw [hsplit, ← hlen, List.take_left']
  rfl

/-! ## What is emitted of fields -/

/-- What is printed of fields, and made of it for the target. -/
def emitted (a : AdmittedSize) (zeroed : Bool) (u : TimestampStruct) : Exec (Except SqlState WStr) :=
  (isoTimestamp u a.colsize a.decdigits).onOk fun text ↦
    (adaptToTarget a.type zeroed text).bind fun w ↦ .done (.ok (0x22 :: (w ++ [0x22])))

/-- Times of the day that are the same in the precision asked for, the first of which is cut there. -/
def SameClock (a : AdmittedSize) (c : Clock) (fraction : ℕ) (c' : Clock) (fraction' : ℕ) : Prop :=
  match requested a.type a.size a.decimals with
  | .minutes => c.hour = c'.hour ∧ c.minute = c'.minute
  | .digits k => c = c' ∧ 19 ≤ cutAt a.colsize ∧
      (fractionText fraction a.decdigits).take ((cutAt a.colsize).toNat - 19) =
        shownFraction a.decdigits.toNat k fraction'

/-- Dates and times that are the same as far as the target shows them. -/
def SameShown (a : AdmittedSize) (zeroed : Bool) (d : Date) (c : Clock) (fraction : ℕ) (d' : Date)
    (c' : Clock) (fraction' : ℕ) : Prop :=
  match a.type with
  | .date => d = d' ∧ (zeroed = false → c = midnight)
  | .time => SameClock a c fraction c' fraction'
  | .timestamp => d = d' ∧ SameClock a c fraction c' fraction'

theorem emitted_eq_done {a : AdmittedSize} {zeroed : Bool} {u : TimestampStruct} {w : WStr} :
    emitted a zeroed u = .done (.ok (0x22 :: (w ++ [0x22]))) ↔
      ∃ text, printTimestamp u true a.colsize a.decdigits = .done (some text) ∧
        adaptToTarget a.type zeroed text = .done w := by
  rw [emitted, isoTimestamp]
  cases hprint : printTimestamp u true a.colsize a.decdigits with
  | undefined => simp
  | exhausted =>
    constructor
    · intro h
      cases h
    · rintro ⟨_, h, -⟩
      cases h
  | done text =>
    cases text with
    | none => simp
    | some text =>
      simp only [Exec.bind_done, Option.elim_some, Exec.onOk_ok, Exec.done.injEq, Option.some.injEq,
        exists_eq_left']
      cases hadapt : adaptToTarget a.type zeroed text with
      | undefined => simp
      | exhausted =>
        constructor
        · intro h
          cases h
        · intro h
          cases h
      | done w' => simp

/-- The date of a target without a time of its own. -/
theorem time0Z_eq : time0Z = midnight.text ++ [0x5A] := by decide

theorem AdmittedSize.date_cut (a : AdmittedSize) (htype : a.type = .date) :
    19 ≤ cutAt a.colsize ∧ a.decdigits = 0 := by
  constructor
  · by_cases hzero : a.size = 0
    · rw [a.colsize_zero hzero]
      decide
    · rw [a.colsize_date htype hzero]
      decide
  · obtain ⟨type, size, decimals, colsize, decdigits, admitted⟩ := a
    dsimp only at htype ⊢
    subst htype
    unfold sizeDecdigitsForIso8601 at admitted
    dsimp only at admitted
    split_ifs at admitted with hsize hbig hmax
    all_goals
      cases admitted
      simp_all

/-- A fraction that has no digits. -/
theorem fractionText_zero (fraction : ℕ) : fractionText fraction 0 = [] := by
  simp [fractionText]

theorem cut_le_of_ge {n : ℤ} (h : 19 ≤ n) : 19 ≤ n.toNat := by omega

/-- What is emitted where the cut is behind the seconds. -/
theorem printTimestamp_seconds {a : AdmittedSize} {d : Date} {c : Clock} {fraction : ℕ}
    (hy : d.year < 10 ^ 4) (hfraction : fraction < 10 ^ 9) (hcut : 19 ≤ cutAt a.colsize) :
    printTimestamp (stampFields d c fraction) true a.colsize a.decdigits =
      .done (some (dateText d ++ 0x54 :: (c.text ++
        ((fractionText fraction a.decdigits).take ((cutAt a.colsize).toNat - 19) ++ [0x5A])))) := by
  rw [printTimestamp_date hy _ hfraction a.decdigits_le, if_neg (by omega),
    take_dateClockText (cut_le_of_ge hcut), dateClockText]
  simp only [List.append_assoc, List.cons_append]

/-- A text that is cut in front of the end of the seconds. -/
theorem length_printTimestamp {a : AdmittedSize} {d : Date} {c : Clock} {fraction : ℕ} {text : WStr}
    (hy : d.year < 10 ^ 4) (hfraction : fraction < 10 ^ 9) (hcut : ¬19 ≤ cutAt a.colsize)
    (h : printTimestamp (stampFields d c fraction) true a.colsize a.decdigits = .done (some text)) :
    text.length ≤ 19 := by
  rw [printTimestamp_date hy _ hfraction a.decdigits_le] at h
  by_cases hneg : cutAt a.colsize < 0
  · rw [if_pos hneg] at h
    cases h
  · rw [if_neg hneg, Exec.done.injEq, Option.some.injEq] at h
    subst h
    have hle : ((dateClockText d c ++ fractionText fraction a.decdigits).take
        (cutAt a.colsize).toNat).length ≤ (cutAt a.colsize).toNat := by
      rw [List.length_take]
      exact min_le_left _ _
    rw [List.length_append, List.length_singleton]
    omega

theorem length_shownClock (k digits : ℕ) (c : Clock) (fraction : ℕ) :
    9 ≤ (shownClock (.digits k) digits c fraction).length := by
  rw [shownClock, List.length_append, List.length_append, length_clockText]
  unfold timeTemplateLen
  simp only [List.length_singleton]
  omega

section Emitted

variable {a : AdmittedSize} {zeroed : Bool} {d d' : Date} {c c' : Clock} {fraction fraction' : ℕ}

theorem emitted_date (hy : d.year < 10 ^ 4) (hy' : d'.year < 10 ^ 4) (hfraction : fraction < 10 ^ 9)
    (htype : a.type = .date) :
    emitted a zeroed (stampFields d c fraction) =
        .done (.ok (0x22 :: (dateText d' ++ 0x54 :: time0Z ++ [0x22]))) ↔
      d = d' ∧ (zeroed = false → c = midnight) := by
  obtain ⟨hcut, hdec⟩ := a.date_cut htype
  have hprint := @printTimestamp_seconds a d c fraction hy hfraction hcut
  rw [hdec, fractionText_zero, List.take_nil, List.nil_append] at hprint
  have htake : (dateText d ++ 0x54 :: (c.text ++ [0x5A])).take (dateTemplateLen + 1) =
      dateText d ++ [0x54] := by
    rw [← length_dateText d, List.take_append, Nat.add_sub_cancel_left,
      List.take_of_length_le (Nat.le_succ _)]
    rfl
  rw [emitted_eq_done, hdec, hprint, htype]
  simp only [Exec.done.injEq, Option.some.injEq, exists_eq_left', adaptToTarget, htake]
  cases zeroed with
  | true =>
    rw [if_pos rfl, List.append_assoc]
    constructor
    · intro h
      exact ⟨(dateText_append_inj hy hy' h).1, fun hc ↦ by cases hc⟩
    · rintro ⟨rfl, -⟩
      rfl
  | false =>
    rw [if_neg Bool.false_ne_true, time0Z_eq]
    constructor
    · intro h
      obtain ⟨rfl, hrest⟩ := dateText_append_inj hy hy' h
      exact ⟨rfl, fun _ ↦ (clockText_append_inj (List.cons.inj hrest).2).1⟩
    · rintro ⟨rfl, hc⟩
      rw [hc rfl]

/-- A time of the day, from its separator on. -/
theorem shown_digits {k : ℕ} (hcut : 19 ≤ cutAt a.colsize) :
    c.text ++ ((fractionText fraction a.decdigits).take ((cutAt a.colsize).toNat - 19) ++ [0x5A]) =
        shownClock (.digits k) a.decdigits.toNat c' fraction' ↔
      c = c' ∧ 19 ≤ cutAt a.colsize ∧
        (fractionText fraction a.decdigits).take ((cutAt a.colsize).toNat - 19) =
          shownFraction a.decdigits.toNat k fraction' := by
  rw [shownClock]
  constructor
  · intro h
    obtain ⟨rfl, hrest⟩ := clockText_append_inj h
    exact ⟨rfl, hcut, List.append_cancel_right hrest⟩
  · rintro ⟨rfl, -, hrest⟩
    rw [hrest]

theorem emitted_time {k : ℕ} (hy : d.year < 10 ^ 4) (hfraction : fraction < 10 ^ 9)
    (htype : a.type = .time) :
    emitted a zeroed (stampFields d c fraction) =
        .done (.ok (0x22 :: (shownClock (.digits k) a.decdigits.toNat c' fraction' ++ [0x22]))) ↔
      c = c' ∧ 19 ≤ cutAt a.colsize ∧
        (fractionText fraction a.decdigits).take ((cutAt a.colsize).toNat - 19) =
          shownFraction a.decdigits.toNat k fraction' := by
  rw [emitted_eq_done, htype]
  by_cases hcut : 19 ≤ cutAt a.colsize
  · have hlong : dateTemplateLen + 1 < (dateText d ++ 0x54 :: (c.text ++
        ((fractionText fraction a.decdigits).take ((cutAt a.colsize).toNat - 19) ++ [0x5A]))).length := by
      rw [List.length_append, List.length_cons, List.length_append, length_dateText, length_clockText]
      unfold timeTemplateLen
      omega
    have hdrop : (dateText d ++ 0x54 :: (c.text ++
        ((fractionText fraction a.decdigits).take ((cutAt a.colsize).toNat - 19) ++
          [0x5A]))).drop (dateTemplateLen + 1) = c.text ++
        ((fractionText fraction a.decdigits).take ((cutAt a.colsize).toNat - 19) ++ [0x5A]) := by
      rw [← length_dateText d, List.drop_append, Nat.add_sub_cancel_left,
        List.drop_eq_nil_of_le (Nat.le_succ _)]
      rfl
    rw [printTimestamp_seconds hy hfraction hcut]
    simp only [Exec.done.injEq, Option.some.injEq, exists_eq_left', adaptToTarget]
    rw [if_neg (by omega), Exec.done.injEq, hdrop]
    exact shown_digits hcut
  · constructor
    · rintro ⟨text, hprint, hadapt⟩
      have hlen := length_printTimestamp hy hfraction hcut hprint
      rw [adaptToTarget] at hadapt
      by_cases hshort : text.length ≤ dateTemplateLen + 1
      · rw [if_pos hshort] at hadapt
        cases hadapt
      · rw [if_neg hshort, Exec.done.injEq] at hadapt
        have hclock := length_shownClock k a.decdigits.toNat c' fraction'
        rw [← hadapt, List.length_drop] at hclock
        unfold dateTemplateLen at hclock
        omega
    · rintro ⟨-, hc, -⟩
      exact absurd hc hcut

theorem emitted_timestamp {k : ℕ} (hy : d.year < 10 ^ 4) (hy' : d'.year < 10 ^ 4)
    (hfraction : fraction < 10 ^ 9) (htype : a.type = .timestamp) :
    emitted a zeroed (stampFields d c fraction) = .done (.ok (0x22 ::
        (dateText d' ++ 0x54 :: shownClock (.digits k) a.decdigits.toNat c' fraction' ++ [0x22]))) ↔
      d = d' ∧ c = c' ∧ 19 ≤ cutAt a.colsize ∧
        (fractionText fraction a.decdigits).take ((cutAt a.colsize).toNat - 19) =
          shownFraction a.decdigits.toNat k fraction' := by
  rw [emitted_eq_done, htype]
  by_cases hcut : 19 ≤ cutAt a.colsize
  · rw [printTimestamp_seconds hy hfraction hcut]
    simp only [Exec.done.injEq, Option.some.injEq, exists_eq_left', adaptToTarget]
    rw [← shown_digits (k := k) (c := c) hcut]
    constructor
    · intro h
      obtain ⟨rfl, hrest⟩ := dateText_append_inj hy hy' h
      exact ⟨rfl, (List.cons.inj hrest).2⟩
    · rintro ⟨rfl, h⟩
      rw [h]
  · constructor
    · rintro ⟨text, hprint, hadapt⟩
      have hlen := length_printTimestamp hy hfraction hcut hprint
      rw [adaptToTarget, Exec.done.injEq] at hadapt
      have hclock := length_shownClock k a.decdigits.toNat c' fraction'
      rw [hadapt, List.length_append, List.length_cons, length_dateText] at hlen
      unfold dateTemplateLen at hlen
      omega
    · rintro ⟨-, -, hc, -⟩
      exact absurd hc hcut

theorem emitted_minutes (hy : d.year < 10 ^ 4) (hy' : d'.year < 10 ^ 4)
    (hfraction : fraction < 10 ^ 9) (htype : a.type = .timestamp)
    (hp : requested a.type a.size a.decimals = .minutes) :
    emitted a zeroed (stampFields d c fraction) = .done (.ok (0x22 ::
        (dateText d' ++ 0x54 :: shownClock .minutes a.decdigits.toNat c' fraction' ++ [0x22]))) ↔
      d = d' ∧ c.hour = c'.hour ∧ c.minute = c'.minute := by
  have hcut := a.cutAt_minutes hp
  have hprint : printTimestamp (stampFields d c fraction) true a.colsize a.decdigits =
      .done (some (dateText d ++ 0x54 :: (padded 2 c.hour ++ 0x3A :: (padded 2 c.minute ++ [0x5A])))) := by
    rw [printTimestamp_date hy _ hfraction a.decdigits_le, hcut, if_neg (by omega)]
    have htake := take_minutes d c (fractionText fraction a.decdigits)
    have hnat : (16 : ℤ).toNat = 16 := rfl
    rw [hnat, htake]
    simp only [List.append_assoc, List.cons_append]
  rw [emitted_eq_done, hprint, htype]
  simp only [Exec.done.injEq, Option.some.injEq, exists_eq_left', adaptToTarget, shownClock]
  constructor
  · intro h
    obtain ⟨rfl, hrest⟩ := dateText_append_inj hy hy' h
    obtain ⟨hhour, hrest⟩ := List.append_inj (List.cons.inj hrest).2 (by simp)
    obtain ⟨hminute, -⟩ := List.append_inj (List.cons.inj hrest).2 (by simp)
    exact ⟨rfl, padded_fin_inj (by norm_num) hhour, padded_fin_inj (by norm_num) hminute⟩
  · rintro ⟨rfl, hhour, hminute⟩
    rw [hhour, hminute]

/-- Fields are emitted as the text of a value exactly when they are those of the value, as far as the
target shows them. -/
theorem emitted_iff (hy : d.year < 10 ^ 4) (hy' : d'.year < 10 ^ 4) (hfraction : fraction < 10 ^ 9) :
    emitted a zeroed (stampFields d c fraction) = .done (.ok (0x22 ::
        (shownText a.type a.size a.decimals d' c' fraction' ++ [0x22]))) ↔
      SameShown a zeroed d c fraction d' c' fraction' := by
  unfold SameShown SameClock shownText
  dsimp only
  rw [← a.toNat_decdigits]
  cases htype : a.type with
  | date => exact emitted_date hy hy' hfraction htype
  | time =>
    have hp : ∃ k, requested .time a.size a.decimals = .digits k := by
      rw [requested]
      split_ifs
      all_goals exact ⟨_, rfl⟩
    obtain ⟨k, hp⟩ := hp
    rw [hp]
    exact emitted_time hy hfraction htype
  | timestamp =>
    cases hp : requested .timestamp a.size a.decimals with
    | minutes => exact emitted_minutes hy hy' hfraction htype (htype ▸ hp)
    | digits k => exact emitted_timestamp hy hy' hfraction htype

end Emitted

/-! ## The year 10000 -/

/-- With five digits of a year the separator is written over a digit of the day. -/
theorem printTimestamp_late {d : Date} (hy : d.year = 10000) {c : Clock} {fraction : ℕ}
    {colsize : UInt64} {decdigits : ℤ} {text : WStr}
    (h : printTimestamp (stampFields d c fraction) true colsize decdigits = .done (some text)) :
    ∃ (x y z : UInt16) (rest : WStr) (n : ℕ), text =
      ([0x31, 0x30, 0x30, 0x30, 0x30, 0x2D, x, y, 0x2D, z, 0x54, 0x20] ++ rest).take n ++ [0x5A] := by
  have hstamp : ∃ (x y z z' : UInt16) (rest : WStr), stampText (stampFields d c fraction) decdigits =
      [0x31, 0x30, 0x30, 0x30, 0x30, 0x2D, x, y, 0x2D, z, z', 0x20] ++ rest := by
    refine ⟨digitUnit (Decimal.digit (d.month / 10)), digitUnit (Decimal.digit d.month),
      digitUnit (Decimal.digit (d.day / 10)), digitUnit (Decimal.digit d.day),
      zeroPadded 2 c.hour ++ 0x3A :: (zeroPadded 2 c.minute ++ 0x3A ::
      (zeroPadded 2 c.second ++ fractionText fraction decdigits)), ?_⟩
    simp only [stampText, stampFields, hy, yearText_last, zeroPadded_of_lt (month_lt d),
      zeroPadded_of_lt (day_lt d), padded_two]
    rfl
  obtain ⟨x, y, z, z', rest, hstamp⟩ := hstamp
  refine ⟨x, y, z, rest, ?_⟩
  rw [printTimestamp, hstamp] at h
  dsimp only at h
  rw [if_pos rfl] at h
  split_ifs at h
  · cases h
  · exact ⟨_, (Option.some.inj (Exec.done.inj h)).symm⟩
  · exact ⟨_, (Option.some.inj (Exec.done.inj h)).symm⟩

theorem shownText_date {target : DateTimeType} {size : UInt64} {decimals : ℤ} {d : Date} {c : Clock}
    {fraction : ℕ} (h : target ≠ .time) :
    ∃ w, shownText target size decimals d c fraction = dateText d ++ w ∧ 7 ≤ w.length := by
  unfold shownText
  cases target with
  | time => exact absurd rfl h
  | date => exact ⟨_, rfl, by decide⟩
  | timestamp =>
    refine ⟨_, rfl, ?_⟩
    rw [List.length_cons]
    cases requested .timestamp size decimals with
    | minutes => simp [shownClock]
    | digits k => exact (length_shownClock _ _ _ _).trans' (by norm_num) |>.trans (Nat.le_succ _)

theorem emitted_late {a : AdmittedSize} {zeroed : Bool} {d d' : Date} {c c' : Clock}
    {fraction fraction' : ℕ} (hy : d.year = 10000) :
    emitted a zeroed (stampFields d c fraction) ≠ .done (.ok (0x22 ::
        (shownText a.type a.size a.decimals d' c' fraction' ++ [0x22]))) := by
  intro h
  obtain ⟨text, hprint, hadapt⟩ := emitted_eq_done.mp h
  obtain ⟨x, y, z, rest, n, rfl⟩ := printTimestamp_late hy hprint
  have hdigit : ∀ i : Fin 10, digitUnit i ≠ 0x20 ∧ digitUnit i ≠ 0x5A := by decide
  have hlen : (([0x31, 0x30, 0x30, 0x30, 0x30, 0x2D, x, y, 0x2D, z, 0x54, 0x20] ++ rest).take n ++
      [0x5A]).length ≤ n + 1 := by
    rw [List.length_append, List.length_singleton, List.length_take]
    exact Nat.succ_le_succ (min_le_left _ _)
  by_cases htime : a.type = .time
  · rw [htime, adaptToTarget] at hadapt
    by_cases hshort : (([0x31, 0x30, 0x30, 0x30, 0x30, 0x2D, x, y, 0x2D, z, 0x54, 0x20] ++
        rest).take n ++ [0x5A]).length ≤ dateTemplateLen + 1
    · rw [if_pos hshort] at hadapt
      cases hadapt
    rw [if_neg hshort, Exec.done.injEq] at hadapt
    have hn : 11 ≤ n := by
      unfold dateTemplateLen at hshort
      omega
    have hhead : ∃ i r, shownText .time a.size a.decimals d' c' fraction' = digitUnit i :: r := by
      unfold shownText
      dsimp only
      cases requested .time a.size a.decimals with
      | minutes => exact ⟨_, _, rfl⟩
      | digits k => exact ⟨_, _, rfl⟩
    obtain ⟨i, r, hhead⟩ := hhead
    rw [hhead] at hadapt
    rcases hn.eq_or_lt with rfl | hn
    · have hz := (List.cons.inj (hadapt : (0x5A :: [] : WStr) = digitUnit i :: r)).1
      exact (hdigit i).2 hz.symm
    · obtain ⟨m, rfl⟩ := Nat.exists_eq_add_of_le' (Nat.succ_le_of_lt hn)
      have hblank := (List.cons.inj (hadapt : (0x20 :: _ : WStr) = digitUnit i :: r)).1
      exact (hdigit i).1 hblank.symm
  · obtain ⟨w, hw, hwlen⟩ := @shownText_date a.type a.size a.decimals d' c' fraction' htime
    rw [hw] at hadapt
    have hfour : (dateText d' ++ w).getD 4 0 = 0x2D := (dateText_units d' w).1
    have hlength : 17 ≤ (dateText d' ++ w).length := by
      rw [List.length_append, length_dateText]
      unfold dateTemplateLen
      omega
    cases htype : a.type with
    | time => exact htime htype
    | date =>
      have hwhole : w.length = 10 := by
        have htext : dateText d' ++ 0x54 :: time0Z = dateText d' ++ w := by
          rw [← hw, htype]
          rfl
        rw [← List.append_cancel_left htext]
        decide
      rw [htype, adaptToTarget, Exec.done.injEq] at hadapt
      have hn : 10 ≤ n := by
        have hsum := congrArg List.length hadapt
        rw [List.length_append, length_dateText, hwhole] at hsum
        have hzeros : time0Z.length = 9 := rfl
        unfold dateTemplateLen at hsum
        cases zeroed with
        | true =>
          rw [if_pos rfl, List.length_append, List.length_take, hzeros] at hsum
          omega
        | false =>
          rw [if_neg Bool.false_ne_true] at hsum
          omega
      obtain ⟨m, rfl⟩ := Nat.exists_eq_add_of_le' hn
      have hdash : (0x30 : UInt16) = 0x2D := by
        rw [← hadapt] at hfour
        cases zeroed with
        | true => exact hfour
        | false => exact hfour
      exact absurd hdash (by decide)
    | timestamp =>
      rw [htype, adaptToTarget, Exec.done.injEq] at hadapt
      rw [← hadapt] at hlength hfour
      have hn : 16 ≤ n := by omega
      obtain ⟨m, rfl⟩ := Nat.exists_eq_add_of_le' hn
      have hdash : (0x30 : UInt16) = 0x2D := hfour
      exact absurd hdash (by decide)

end EsOdbc
