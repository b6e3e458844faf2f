import EsOdbc.Timestamp.DateTime

/-!
# Classes of dates and times

The texts of times, dates and timestamps, and which of them `parse_date_time_ts` takes for what
they are.
-/

namespace EsOdbc

/-! ## The units that are looked at -/

/-- The units in front of the first one that is NUL or not of ASCII. -/
def asciiRun (w : WStr) : WStr := w.takeWhile fun c ↦ c ≠ 0 && c ≤ 127

/-- The run ends with the text or at a NUL. -/
def AsciiEnds (w : WStr) : Prop := ∀ c ∈ (w.drop (asciiRun w).length).head?, c = 0

instance (w : WStr) : Decidable (AsciiEnds w) :=
  inferInstanceAs (Decidable (∀ c ∈ (w.drop (asciiRun w).length).head?, c = 0))

theorem asciiRun_cons {c : UInt16} (h : c ≠ 0 ∧ c ≤ 127) (w : WStr) :
    asciiRun (c :: w) = c :: asciiRun w :=
  List.takeWhile_cons_of_pos (by simpa using h)

theorem asciiRun_stop {c : UInt16} (h : ¬(c ≠ 0 ∧ c ≤ 127)) (w : WStr) : asciiRun (c :: w) = [] :=
  List.takeWhile_cons_of_neg (by simpa using h)

theorem asciiRun_self {w : WStr} (h : ∀ c ∈ w, c ≠ 0 ∧ c ≤ 127) : asciiRun w = w :=
  List.takeWhile_eq_self_iff.mpr (by simpa using h)

theorem asciiEnds_self {w : WStr} (h : ∀ c ∈ w, c ≠ 0 ∧ c ≤ 127) : AsciiEnds w := by
  rw [AsciiEnds, asciiRun_self h, List.drop_length]
  simp

theorem asciiW2cLoop_eq (i : ℕ) (w : WStr) :
    asciiW2cLoop i w =
      if AsciiEnds w then ((i + (asciiRun w).length + 1 : ℤ), asciiRun w ++ [0])
      else (-(i + (asciiRun w).length + 1 : ℤ), asciiRun w) := by
  induction w generalizing i with
  | nil => simp [asciiW2cLoop, AsciiEnds, asciiRun]
  | cons c w ih =>
    rw [asciiW2cLoop]
    by_cases hwide : 127 < c
    · have hrun := asciiRun_stop (c := c) (by simp [hwide]) w
      have hends : ¬AsciiEnds (c :: w) := by
        rw [AsciiEnds, hrun]
        rintro h
        rw [h c rfl] at hwide
        exact absurd hwide (by decide)
      rw [if_pos hwide, if_neg hends, hrun]
      simp
    rw [if_neg hwide]
    by_cases hnul : c = 0
    · have hrun := asciiRun_stop (c := c) (by simp [hnul]) w
      have hends : AsciiEnds (c :: w) := by
        rw [AsciiEnds, hrun]
        simpa using hnul
      rw [if_pos hnul, if_pos hends, hrun]
      simp
    rw [if_neg hnul]
    have hrun := asciiRun_cons (c := c) ⟨hnul, UInt16.not_lt.mp hwide⟩ w
    have hends : AsciiEnds (c :: w) ↔ AsciiEnds w := by
      rw [AsciiEnds, hrun]
      exact Iff.rfl
    have hcount : ((i + 1 : ℕ) : ℤ) + (asciiRun w).length + 1 =
        i + (c :: asciiRun w : WStr).length + 1 := by
      rw [List.length_cons]
      push_cast
      ring
    dsimp only
    rw [ih, hrun, hcount]
    by_cases h : AsciiEnds w
    · rw [if_pos h, if_pos (hends.mpr h)]
      rfl
    · rw [if_neg h, if_neg fun hc ↦ h (hends.mp hc)]

namespace XStr

def units : XStr → WStr
  | wide w => w
  | narrow s _ => s

/-- The units that `parse_date_time_ts` works on, if it gets so far. -/
def seen : XStr → Option WStr
  | wide w => if w ≠ [] ∧ AsciiEnds w then some (asciiRun w) else none
  | narrow s _ => some s

/-- A text of ASCII units is seen whole. -/
theorem seen_units {src : XStr} (hne : src.units ≠ []) (h : ∀ c ∈ src.units, c ≠ 0 ∧ c ≤ 127) :
    src.seen = some src.units := by
  cases src with
  | wide w =>
    have hrun : asciiRun w = w := asciiRun_self h
    rw [seen, if_pos ⟨hne, asciiEnds_self h⟩, hrun]
    rfl
  | narrow s room => rfl

end XStr

/-! ## What is written -/

/-- The text of a zone, if one is written. -/
def zoneText (zone : Option Zone) : WStr := zone.elim [] Zone.text

/-- The fields of a second since 1970 and a fraction of it. -/
def Shows (sec : ℤ) (fraction : ℕ) (tss : TimestampStruct) : Prop :=
  ∃ d c, instant d c = sec ∧ tss = stampFields d c fraction

def midnight : Clock := ⟨⟨0, by decide⟩, ⟨0, by decide⟩, ⟨0, by decide⟩⟩

/-- A text of one of the classes. -/
inductive DateTimeText where
  | time (clock : Clock) (frac : Option Digits) (zone : Option Zone)
  | date (date : IsoDate)
  | timestamp (stem : Stem) (zone : Option Zone)

namespace DateTimeText

def text : DateTimeText → WStr
  | time clock frac zone => clock.text ++ (pointText frac ++ zoneText zone)
  | date d => dateText d.toDate
  | timestamp stem zone => stem.text ++ zoneText zone

def type : DateTimeText → DateTimeType
  | time .. => .time
  | date _ => .date
  | timestamp .. => .timestamp

def zone : DateTimeText → Option Zone
  | time _ _ zone => zone
  | date _ => none
  | timestamp _ zone => zone

/-- A fraction has up to nine digits, and letters are capitals. -/
def WellFormed : DateTimeText → Prop
  | time _ frac zone => ShortFrac frac ∧ zone ≠ some (.utc true)
  | date _ => True
  | timestamp stem zone => stem.sep ≠ .lower ∧ zone ≠ some (.utc true)

/-- The fields that are written, in Greenwich if a zone is written.  A time is one of today. -/
def Means (today : IsoDate) : DateTimeText → TimestampStruct → Prop
  | time clock frac zone =>
    Shows (instant today.toDate clock - zone.elim 0 Zone.offset * 60) (nanos frac)
  | date d => fun tss ↦ tss = stampFields d.toDate midnight 0
  | timestamp stem zone =>
    Shows (instant stem.date.toDate stem.clock - zone.elim 0 Zone.offset * 60) (nanos stem.frac)

/-- The forms that are understood: a time that is shorter than the shortest timestamp, and a
timestamp that has either a blank or a zone. -/
def Fits : DateTimeText → Prop
  | time clock frac zone =>
    (clock.text ++ (pointText frac ++ zoneText zone)).length < timestampTemplateLen
  | date _ => True
  | timestamp stem zone => stem.sep = .blank ↔ zone = none

end DateTimeText

/-! ## What is read -/

/-- A fraction with its point. -/
theorem Stem.length_pointText (s : Stem) : (pointText s.frac).length ≤ 10 := by
  have hshort := s.short
  cases hfrac : s.frac with
  | none => exact Nat.zero_le _
  | some ds =>
    have hlen := (hshort ds hfrac).2
    simpa [pointText] using Nat.lt_succ_of_le hlen

theorem Stamp.length_text (s : Stamp) : 20 ≤ s.text.length ∧ s.text.length ≤ 35 := by
  have hpoint := s.length_pointText
  have hzone : 1 ≤ s.zone.text.length ∧ s.zone.text.length ≤ 6 := by
    cases s.zone <;> simp [Zone.text]
  simp only [text, Stem.text, dateText, Clock.text, List.length_append, List.length_cons,
    length_padded]
  omega

/-- What is made of a text that is parsed. -/
theorem timestampFields_eq_ok {w : WStr} {tss : TimestampStruct} :
    timestampFields w = .ok tss ↔ ∃ s : Stamp, w = s.text ∧ Shows s.value.sec (nanos s.frac) tss := by
  rw [timestampFields]
  constructor
  · intro h
    cases hparse : timestampParse w with
    | error e =>
      rw [hparse] at h
      cases h
    | ok ts =>
      obtain ⟨s, rfl, rfl⟩ := timestampParse_eq_ok.mp hparse
      obtain ⟨d, c, hinstant, hfields⟩ := s.exists_fields
      rw [hparse, Except.bind, hfields, Option.elim_some, Except.ok.injEq] at h
      exact ⟨s, rfl, d, c, hinstant, h.symm⟩
  · rintro ⟨s, rfl, d, c, hinstant, rfl⟩
    rw [timestampParse_eq_ok.mpr ⟨s, rfl, rfl⟩, Except.bind,
      timestampToTmUtc_instant s.valid hinstant]
    rfl

theorem isoFields_eq_ok {w : WStr} {room : ℕ} {tss : TimestampStruct} :
    (isoFields w room).result = .ok tss ↔ timestampFields w = .ok tss := by
  rw [isoFields]
  split
  · next h => simp [h]
  · next h => simp [h]
  · next h => simp [h]

/-- A narrow text is read when it is a timestamp. -/
theorem parseIso8601Timestamp_eq_ok {ctx : ZoneContext} {w : WStr} {room : ℕ}
    {tss : TimestampStruct} :
    (parseIso8601Timestamp ctx true (.narrow w room)).result = .ok tss ↔
      ∃ s : Stamp, w = s.text ∧ Shows s.value.sec (nanos s.frac) tss := by
  rw [← timestampFields_eq_ok, parseIso8601Timestamp]
  dsimp only
  by_cases hlen : w.length < isoMinLen ∨ isoMaxLen < w.length
  · rw [if_pos hlen]
    constructor
    · intro h
      cases h
    · intro h
      obtain ⟨s, rfl, -⟩ := timestampFields_eq_ok.mp h
      have := s.length_text
      unfold isoMinLen isoMaxLen at hlen
      omega
  · rw [if_neg hlen, ← @isoFields_eq_ok w room]
    cases (isoFields w room).result with
    | error e =>
      constructor
      · intro h
        cases h
      · intro h
        cases h
    | ok x => exact Iff.rfl

/-- The texts that are read, with their class, whether they are as ISO 8601 has it, and the
timestamp that each is read as. -/
inductive ReadAs (today : IsoDate) : WStr → DateTimeType → Bool → Stamp → Prop
  | time {clock : Clock} {frac : Option Digits} {zone : Option Zone} (short : ShortFrac frac)
      (capital : zone ≠ some (.utc true))
      (length : (clock.text ++ (pointText frac ++ zoneText zone)).length < timestampTemplateLen) :
      ReadAs today (clock.text ++ (pointText frac ++ zoneText zone)) .time zone.isSome
        ⟨⟨today, .upper, clock, frac, short⟩, zone.getD (.utc false)⟩
  /-- A date may go on as the start of a timestamp. -/
  | date {td : WStr} {s : Stamp} (long : dateTemplateLen ≤ td.length)
      (short : td.length < timestampTemplateLen)
      (whole : td ++ templ.drop td.length = s.text) : ReadAs today td .date true s
  | sql {stem : Stem} (blank : stem.sep = .blank) :
      ReadAs today stem.text .timestamp false ⟨{ stem with sep := .upper }, .utc false⟩
  | iso {s : Stamp} (letter : s.sep ≠ .blank) : ReadAs today s.text .timestamp true s

/-! ## Units of texts -/

theorem getD_append_cons (a : WStr) (c d : UInt16) (r : WStr) :
    (a ++ c :: r).getD a.length d = c := by
  rw [List.getD_append_right _ _ _ _ le_rfl, Nat.sub_self]
  rfl

theorem set_append_cons (a : WStr) (c d : UInt16) (r : WStr) :
    (a ++ c :: r).set a.length d = a ++ d :: r := by
  rw [List.set_append_right _ _ le_rfl, Nat.sub_self]
  rfl

theorem length_dateText (d : Calendar.Date) : (dateText d).length = dateTemplateLen := by
  simp [dateText, dateTemplateLen]

theorem length_clockText (c : Clock) : c.text.length = timeTemplateLen := by
  simp [Clock.text, timeTemplateLen]

theorem padded_inj {k n m : ℕ} (hn : n < 10 ^ k) (hm : m < 10 ^ k) (h : padded k n = padded k m) :
    n = m := by
  have hdigits := (digitUnits_eq_padded hm).mp h
  rw [Decimal.ofDigits_lastDigits, Nat.mod_eq_of_lt hn] at hdigits
  exact hdigits.2

theorem month_lt (d : Calendar.Date) : d.month < 10 ^ 2 :=
  d.month_le.trans_lt (by norm_num)

theorem day_lt (d : Calendar.Date) : d.day < 10 ^ 2 := by
  refine d.day_le.trans_lt ?_
  unfold Calendar.monthDays
  split_ifs <;> norm_num

/-- A date is given by its text. -/
theorem dateText_inj {d d' : IsoDate} (h : dateText d.toDate = dateText d'.toDate) : d = d' := by
  obtain ⟨hyear, hrest⟩ := List.append_inj h (by simp)
  obtain ⟨hmonth, hrest⟩ := List.append_inj (List.cons.inj hrest).2 (by simp)
  have hday := (List.cons.inj hrest).2
  have hdate : d.toDate = d'.toDate := Calendar.Date.ext
    (padded_inj (d.year_le.trans_lt (by norm_num)) (d'.year_le.trans_lt (by norm_num)) hyear)
    (padded_inj (month_lt d.toDate) (month_lt d'.toDate) hmonth)
    (padded_inj (day_lt d.toDate) (day_lt d'.toDate) hday)
  cases d
  cases d'
  cases hdate
  rfl

/-- A text that ends in `Z` has this for its zone. -/
theorem Zone.of_append {z : Zone} {x u : WStr} (h : x ++ z.text = u ++ [0x5A]) :
    z = .utc false ∧ x = u := by
  cases z with
  | utc lower =>
    obtain ⟨hx, hz⟩ := List.append_inj' h rfl
    cases lower with
    | false => exact ⟨rfl, hx⟩
    | true => exact absurd hz (by decide)
  | shifted west hours minutes =>
    have hsplit : x ++ (shifted west hours minutes).text =
        (x ++ (if west then 0x2D else 0x2B) :: (padded 2 hours ++
          [0x3A, digitUnit (Decimal.digit (minutes / 10))])) ++
            [digitUnit (Decimal.digit minutes)] := by
      simp [text, padded_two]
    rw [hsplit] at h
    have hlast := (List.append_inj' h rfl).2
    have hdigit := digitOf_digitUnit (Decimal.digit minutes)
    rw [(List.cons.inj hlast).1] at hdigit
    exact absurd hdigit (by simp [digitOf])

theorem Separator.unit_injective : Function.Injective Separator.unit := by
  intro a b h
  cases a <;> cases b <;> first | rfl | exact absurd h (by decide)

namespace Stem

theorem text_getD (s : Stem) (z : WStr) : (s.text ++ z).getD dateTemplateLen 0 = s.sep.unit := by
  rw [text, List.append_assoc, List.cons_append, ← length_dateText s.date.toDate]
  exact getD_append_cons _ _ _ _

theorem text_set (s : Stem) (sep : Separator) :
    s.text.set dateTemplateLen sep.unit = { s with sep }.text := by
  rw [text, ← length_dateText s.date.toDate, set_append_cons]
  rfl

theorem length_text (s : Stem) : timestampTemplateLen ≤ s.text.length := by
  rw [text, List.length_append, List.length_cons, List.length_append, length_dateText,
    length_clockText]
  unfold dateTemplateLen timeTemplateLen timestampTemplateLen
  omega

end Stem

/-- The units that start a zone. -/
def zoneUnits : WStr := [0x5A, 0x7A, 0x2B, 0x2D]

theorem Zone.exists_unit (z : Zone) : ∃ u ∈ zoneUnits, u ∈ z.text := by
  cases z with
  | utc lower => cases lower <;> exact ⟨_, by decide, List.mem_cons_self⟩
  | shifted west hours minutes => cases west <;> exact ⟨_, by decide, List.mem_cons_self⟩

/-- A time of the day without its zone has none of them. -/
theorem clock_plain {clock : Clock} {frac : Option Digits} {c : UInt16}
    (h : c ∈ clock.text ++ pointText frac) : c ∉ zoneUnits := by
  have hdigit : ∀ d : Fin 10, digitUnit d ∉ zoneUnits := by decide
  have hpadded : ∀ n, c ∈ padded 2 n → c ∉ zoneUnits := by
    intro n hc
    obtain ⟨d, -, rfl⟩ := List.mem_map.mp hc
    exact hdigit d
  rw [Clock.text, List.mem_append] at h
  rcases h with h | h
  · simp only [List.mem_append, List.mem_cons] at h
    rcases h with h | rfl | h | rfl | h
    · exact hpadded _ h
    · decide
    · exact hpadded _ h
    · decide
    · exact hpadded _ h
  · cases frac with
    | none => cases h
    | some ds =>
      rw [pointText, Option.elim_some, List.mem_cons] at h
      rcases h with rfl | h
      · decide
      · obtain ⟨d, -, rfl⟩ := List.mem_map.mp h
        exact hdigit d

theorem clock_plain_getD (clock : Clock) (frac : Option Digits) (i : ℕ) :
    (clock.text ++ pointText frac).getD i 0 ≠ 0x5A ∧
      (clock.text ++ pointText frac).getD i 0 ≠ 0x2B ∧
        (clock.text ++ pointText frac).getD i 0 ≠ 0x2D := by
  by_cases hi : i < (clock.text ++ pointText frac).length
  · have hplain := clock_plain (List.getElem_mem hi)
    rw [List.getD_eq_getElem _ _ hi]
    refine ⟨?_, ?_, ?_⟩
    all_goals
      rintro hc
      rw [hc] at hplain
      exact hplain (by decide)
  · rw [List.getD_eq_default _ _ (not_lt.mp hi)]
    decide

/-- A zone is noticed unless it is a small letter. -/
theorem timeHasZone_eq (clock : Clock) (frac : Option Digits) (zone : Option Zone) :
    timeHasZone (clock.text ++ (pointText frac ++ zoneText zone)) =
      (zone.isSome && zone ≠ some (.utc true)) := by
  rw [← List.append_assoc]
  have hlen : timeTemplateLen ≤ (clock.text ++ pointText frac).length := by
    rw [List.length_append, length_clockText]
    exact Nat.le_add_right _ _
  unfold timeTemplateLen at hlen
  have hplain := clock_plain_getD clock frac
  generalize clock.text ++ pointText frac = body at hlen hplain ⊢
  rw [timeHasZone]
  rcases zone with _ | (lower | ⟨west, hours, minutes⟩)
  · rw [zoneText, Option.elim_none, List.append_nil, decide_eq_false (hplain _).1,
      decide_eq_false (hplain _).2.1, decide_eq_false (hplain _).2.2]
    rfl
  · have hlast : (body ++ zoneText (some (.utc lower))).length - 1 = body.length := by
      simp [zoneText, Zone.text]
    have hmid : (body ++ zoneText (some (.utc lower))).length - 6 < body.length := by
      simp only [zoneText, Zone.text, Option.elim_some, List.length_append, List.length_singleton]
      omega
    rw [hlast, List.getD_append _ _ _ _ hmid]
    cases lower
    · have hz : (body ++ zoneText (some (.utc false))).getD body.length 0 = 0x5A :=
        getD_append_cons body 0x5A 0 []
      rw [hz]
      rfl
    · have hz : (body ++ zoneText (some (.utc true))).getD body.length 0 = 0x7A :=
        getD_append_cons body 0x7A 0 []
      rw [hz, decide_eq_false (hplain _).2.1, decide_eq_false (hplain _).2.2]
      rfl
  · have hsign : (body ++ zoneText (some (.shifted west hours minutes))).length - 6 = body.length := by
      simp [zoneText, Zone.text]
    have hz : (body ++ zoneText (some (.shifted west hours minutes))).getD body.length 0 =
        if west then 0x2D else 0x2B := getD_append_cons body _ 0 _
    rw [hsign, hz]
    cases west <;> simp

/-! ## The analysis -/

theorem classify_long {today : IsoDate} {td : WStr} (h : timestampTemplateLen ≤ td.length) :
    classify today td =
      if td.getD dateTemplateLen 0 = 0x20 then
        some (.timestamp, false, td.set dateTemplateLen 0x54 ++ [0x5A])
      else some (.timestamp, true, td) := by rw [classify, if_pos h]

theorem classify_time {today : IsoDate} {td : WStr} (h : ¬timestampTemplateLen ≤ td.length)
    (hcolons : timeTemplateLen ≤ td.length ∧ td.getD 2 0 = 0x3A ∧ td.getD 5 0 = 0x3A) :
    classify today td =
      if timeHasZone td then some (.time, true, dateText today.toDate ++ 0x54 :: td)
      else some (.time, false, dateText today.toDate ++ 0x54 :: td ++ [0x5A]) := by
  rw [classify, if_neg h, if_pos hcolons]

theorem classify_date {today : IsoDate} {td : WStr} (h : ¬timestampTemplateLen ≤ td.length)
    (hcolons : ¬(timeTemplateLen ≤ td.length ∧ td.getD 2 0 = 0x3A ∧ td.getD 5 0 = 0x3A)) :
    classify today td =
      if dateTemplateLen ≤ td.length ∧ td.getD 4 0 = 0x2D ∧ td.getD 7 0 = 0x2D then
        some (.date, true, td ++ templ.drop td.length)
      else none := by
  rw [classify, if_neg h, if_neg hcolons]

/-- What is taken for a timestamp. -/
theorem readAs_long {today : IsoDate} {td : WStr} {ty : DateTimeType} {iso : Bool} {s : Stamp}
    (hlen : timestampTemplateLen ≤ td.length) (h : classify today td = some (ty, iso, s.text)) :
    ReadAs today td ty iso s := by
  rw [classify_long hlen] at h
  by_cases hblank : td.getD dateTemplateLen 0 = 0x20
  · rw [if_pos hblank, Option.some.injEq, Prod.mk.injEq, Prod.mk.injEq] at h
    obtain ⟨rfl, rfl, htext⟩ := h
    obtain ⟨hzone, hstem⟩ := Zone.of_append htext.symm
    have hlen' : dateTemplateLen < td.length := by
      unfold timestampTemplateLen at hlen
      unfold dateTemplateLen
      omega
    have hunit : td[dateTemplateLen] = 0x20 := by
      rwa [List.getD_eq_getElem _ _ hlen'] at hblank
    have htd : td = { s.toStem with sep := .blank }.text := by
      have hback : (td.set dateTemplateLen 0x54).set dateTemplateLen 0x20 = td := by
        rw [List.set_set, ← hunit, List.set_getElem_self]
      rw [← hback, ← hstem]
      exact s.toStem.text_set .blank
    have hsep : s.sep = .upper := by
      have hget := s.toStem.text_getD []
      rw [List.append_nil, hstem, List.getD_eq_getElem _ _ (by rwa [List.length_set]),
        List.getElem_set_self] at hget
      exact Separator.unit_injective hget.symm
    have hs : s = ⟨{ s.toStem with sep := .upper }, .utc false⟩ := by
      rw [← hsep, ← hzone]
    rw [htd, hs]
    exact @ReadAs.sql today { s.toStem with sep := .blank } rfl
  · rw [if_neg hblank, Option.some.injEq, Prod.mk.injEq, Prod.mk.injEq] at h
    obtain ⟨rfl, rfl, rfl⟩ := h
    refine .iso fun hsep ↦ hblank ?_
    rw [Stamp.text, Stem.text_getD, hsep]
    rfl

/-- What is taken for a time. -/
theorem readAs_time {today : IsoDate} {td : WStr} {ty : DateTimeType} {iso : Bool} {s : Stamp}
    (hlen : ¬timestampTemplateLen ≤ td.length)
    (hcolons : timeTemplateLen ≤ td.length ∧ td.getD 2 0 = 0x3A ∧ td.getD 5 0 = 0x3A)
    (h : classify today td = some (ty, iso, s.text)) : ReadAs today td ty iso s := by
  rw [classify_time hlen hcolons] at h
  -- what is behind the date of a text that is in front of a zone
  have hsplit : ∀ z : WStr, dateText today.toDate ++ 0x54 :: td = s.toStem.text ++ z →
      today = s.date ∧ s.sep = .upper ∧ td = s.clock.text ++ (pointText s.frac ++ z) := by
    intro z hz
    rw [Stem.text, List.append_assoc, List.cons_append, List.append_assoc] at hz
    obtain ⟨hdate, hrest⟩ := List.append_inj hz (by rw [length_dateText, length_dateText])
    obtain ⟨hsep, htd⟩ := List.cons.inj hrest
    have hupper : s.sep.unit = Separator.upper.unit := hsep.symm
    exact ⟨dateText_inj hdate, Separator.unit_injective hupper, htd⟩
  obtain ⟨⟨date, sep, clock, frac, short⟩, zone⟩ := s
  by_cases hzone : timeHasZone td = true
  · rw [if_pos hzone, Option.some.injEq, Prod.mk.injEq, Prod.mk.injEq] at h
    obtain ⟨rfl, rfl, htext⟩ := h
    obtain ⟨rfl, rfl, rfl⟩ := hsplit zone.text htext
    have hcapital : some zone ≠ some (.utc true) := by
      have hz := timeHasZone_eq clock frac (some zone)
      rw [zoneText, Option.elim_some, hzone] at hz
      simpa using hz
    exact @ReadAs.time today clock frac (some zone) short hcapital (not_le.mp hlen)
  · rw [if_neg hzone, Option.some.injEq, Prod.mk.injEq, Prod.mk.injEq] at h
    obtain ⟨rfl, rfl, htext⟩ := h
    obtain ⟨rfl, hstem⟩ := Zone.of_append htext.symm
    obtain ⟨rfl, rfl, rfl⟩ := hsplit [] (by rw [List.append_nil, ← hstem])
    exact @ReadAs.time today clock frac none short (by simp) (not_le.mp hlen)

/-- What the analysis makes a timestamp of. -/
theorem readAs_of_classify {today : IsoDate} {td : WStr} {ty : DateTimeType} {iso : Bool}
    {s : Stamp} (h : classify today td = some (ty, iso, s.text)) : ReadAs today td ty iso s := by
  by_cases hlen : timestampTemplateLen ≤ td.length
  · exact readAs_long hlen h
  by_cases hcolons : timeTemplateLen ≤ td.length ∧ td.getD 2 0 = 0x3A ∧ td.getD 5 0 = 0x3A
  · exact readAs_time hlen hcolons h
  rw [classify_date hlen hcolons] at h
  by_cases hdashes : dateTemplateLen ≤ td.length ∧ td.getD 4 0 = 0x2D ∧ td.getD 7 0 = 0x2D
  · rw [if_pos hdashes, Option.some.injEq, Prod.mk.injEq, Prod.mk.injEq] at h
    obtain ⟨rfl, rfl, htext⟩ := h
    exact .date hdashes.1 (not_le.mp hlen) htext
  · rw [if_neg hdashes] at h
    cases h

/-- The dashes of a date, and a digit of its year. -/
theorem dateText_units (d : Calendar.Date) (r : WStr) :
    (dateText d ++ r).getD 4 0 = 0x2D ∧ (dateText d ++ r).getD 7 0 = 0x2D ∧
      (dateText d ++ r).getD 2 0 ≠ 0x3A := by
  have hdigit : ∀ n : Fin 10, digitUnit n ≠ 0x3A := by decide
  rw [dateText, padded_four, padded_two, padded_two]
  exact ⟨rfl, rfl, hdigit _⟩

theorem clockText_units (c : Clock) (r : WStr) :
    (c.text ++ r).getD 2 0 = 0x3A ∧ (c.text ++ r).getD 5 0 = 0x3A := by
  rw [Clock.text, padded_two, padded_two, padded_two]
  exact ⟨rfl, rfl⟩

theorem classify_of_readAs {today : IsoDate} {td : WStr} {ty : DateTimeType} {iso : Bool}
    {s : Stamp} (h : ReadAs today td ty iso s) : classify today td = some (ty, iso, s.text) := by
  cases h with
  | @time clock frac zone short capital length =>
    have hlong : timeTemplateLen ≤ (clock.text ++ (pointText frac ++ zoneText zone)).length := by
      rw [List.length_append, length_clockText]
      exact Nat.le_add_right _ _
    rw [classify_time (not_le.mpr length) ⟨hlong, clockText_units clock _⟩, timeHasZone_eq]
    cases zone with
    | none => simp [Stamp.text, Stem.text, zoneText, Zone.text, Separator.unit]
    | some zone =>
      have hcapital : (some zone).isSome && some zone ≠ some (.utc true) := by simpa using capital
      rw [if_pos hcapital]
      simp [Stamp.text, Stem.text, zoneText, Separator.unit]
  | date long short whole =>
    obtain ⟨r, rfl⟩ : ∃ r, td = dateText s.date.toDate ++ r := by
      rw [Stamp.text, Stem.text, List.append_assoc] at whole
      refine ⟨td.drop dateTemplateLen, ?_⟩
      have htake := congrArg (List.take dateTemplateLen) whole
      rw [List.take_append_of_le_length long, List.take_left' (length_dateText _)] at htake
      rw [← htake, List.take_append_drop]
    obtain ⟨h4, h7, h2⟩ := dateText_units s.date.toDate r
    rw [classify_date (not_le.mpr short) (fun hc ↦ h2 hc.2.1), if_pos ⟨long, h4, h7⟩, whole]
  | @sql stem blank =>
    have hget : stem.text.getD dateTemplateLen 0 = 0x20 := by
      have hunit := stem.text_getD []
      rwa [List.append_nil, blank] at hunit
    rw [classify_long stem.length_text, if_pos hget]
    exact congrArg (fun w ↦ some (DateTimeType.timestamp, false, w ++ [0x5A])) (stem.text_set .upper)
  | iso letter =>
    have hlen := s.length_text.1
    have hget := s.toStem.text_getD s.zone.text
    rw [classify_long (by unfold timestampTemplateLen; omega), if_neg]
    rw [Stamp.text, hget]
    exact fun hc ↦ letter (Separator.unit_injective hc)

theorem classify_eq_some {today : IsoDate} {td : WStr} {ty : DateTimeType} {iso : Bool}
    {s : Stamp} : classify today td = some (ty, iso, s.text) ↔ ReadAs today td ty iso s :=
  ⟨readAs_of_classify, classify_of_readAs⟩

end EsOdbc
