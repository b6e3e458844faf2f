import EsOdbc.Params.DateTimesSent
import EsOdbc.Params.Strings

/-!
# Which dates and times are sent as they are bound

The texts and structures that `c2sql_date_time` reads as the value that was bound, and those that it
reads as another one or sends although they are none.
-/

namespace EsOdbc

open Calendar (Date)

/-! ## Strings -/

/-- The fields that are printed of those that a text of a class was read as. -/
def leftFields (ctx : ZoneContext) (ty : DateTimeType) (iso : Bool) (tss : TimestampStruct) :
    TimestampStruct :=
  if ty = .date then { tss with hour := 0, minute := 0, second := 0, fraction := 0 }
  else if ctx.applyTz ∧ iso = false then (ctx.toUtc tss).getD tss
  else tss

/-- The class and the fields that a text is read as. -/
def ReadsText (ctx : ZoneContext) (td : WStr) (ty : DateTimeType) (u : TimestampStruct) : Prop :=
  ∃ iso s tss, ReadAs ctx.today td ty iso s ∧ Shows s.value.sec (nanos s.frac) tss ∧
    u = leftFields ctx ty iso tss

theorem parsedFields_of_reads {ctx : ZoneContext} {src : XStr} {td : WStr} {ty : DateTimeType}
    {u : TimestampStruct} (htd : td ∈ src.seen) (h : ReadsText ctx td ty u) (junk : WStr) :
    parsedFields ctx junk src = .ok (u, ty) := by
  obtain ⟨iso, s, tss, hread, hshows, rfl⟩ := h
  -- what is read with another setting of the zones
  have hresult : ∀ ctx' : ZoneContext, ctx'.today = ctx.today →
      (parseDateTimeTs ctx' false junk src).result = (adjusted ctx' false ty iso tss).map (·, ty) := by
    intro ctx' htoday
    rcases parseDateTimeTs_seen ctx' false junk src with ⟨hnone, -⟩ | ⟨td', buffer, room, hsome, hr⟩
    · rw [hnone] at htd
      cases htd
    · rw [hsome, Option.mem_some_iff] at htd
      subst htd
      rw [hr]
      exact dateTimeOf_readAs (htoday ▸ hread) hshows false buffer room
  rw [parsedFields, hresult ctx rfl, hresult { ctx with applyTz := false } rfl, adjusted, adjusted, leftFields]
  by_cases hdate : ty = .date
  · simp only [if_pos hdate]
    rfl
  simp only [if_neg hdate]
  cases htz : ctx.applyTz with
  | false => simp [Except.map]
  | true =>
    cases iso with
    | true => simp [Except.map]
    | false =>
      cases hutc : ctx.toUtc tss with
      | none => simp [shifted, hutc, Except.map]
      | some u => simp [shifted, hutc, Except.map]

theorem parsedFields_error {ctx : ZoneContext} {src : XStr}
    (h : ∀ td ∈ src.seen, ∀ ty u, ¬ReadsText ctx td ty u) (junk : WStr) :
    ∃ e, parsedFields ctx junk src = .error e := by
  have herror : ∀ ctx' : ZoneContext, ctx'.today = ctx.today →
      ∃ e, (parseDateTimeTs ctx' false junk src).result = .error e := by
    intro ctx' htoday
    rcases parseDateTimeTs_seen ctx' false junk src with ⟨-, hr⟩ | ⟨td, buffer, room, hsome, hr⟩
    · exact ⟨_, hr⟩
    · rw [hr]
      refine dateTimeOf_not_readAs (fun ty iso s hread ↦ ?_) false buffer room
      obtain ⟨tss, hshows⟩ := s.exists_shows
      exact h td hsome ty _ ⟨iso, s, tss, htoday ▸ hread, hshows, rfl⟩
  obtain ⟨e, he⟩ := herror ctx rfl
  obtain ⟨e', he'⟩ := herror { ctx with applyTz := false } rfl
  rw [parsedFields, he, he']
  cases e <;> exact ⟨_, rfl⟩

theorem ntsLen_takeWhile {mem : WStr} (h : (0 : UInt16) ∈ mem) :
    ∃ n, ntsLen mem = .done n ∧ Buffer.load mem 0 n = some (mem.takeWhile (· ≠ 0)) := by
  obtain ⟨units, behind, rfl, hunits⟩ := List.eq_append_cons_of_mem h
  have hne : ∀ c ∈ units, decide (c ≠ 0) = true := by
    intro c hc
    exact decide_eq_true fun hzero ↦ hunits (hzero ▸ hc)
  refine ⟨units.length, ntsLen_terminated hunits behind, ?_⟩
  rw [Buffer.load_eq_some (by simp), List.takeWhile_append_of_pos hne]
  simp

/-- A string is read as the units that are taken of it. -/
theorem BoundChars.read_eq {b : BoundChars} (h : b.Inside) (ctx : ZoneContext) (junk : WStr) :
    b.read ctx junk = b.taken.elim .undefined fun w ↦ .done (parsedFields ctx junk (b.source w)) := by
  have husize : b.usize = 1 ∨ b.usize = 2 := by
    unfold BoundChars.usize
    split_ifs
    · exact .inr rfl
    · exact .inl rfl
  rw [BoundChars.read, BoundChars.cnt, taken]
  cases hlen : b.octetLen with
  | none =>
    obtain ⟨n, hn, hload⟩ := ntsLen_takeWhile (h.terminator (.inl hlen))
    dsimp only
    rw [hn, Exec.bind_done, hload]
    rfl
  | some n =>
    obtain ⟨hmin, hmax⟩ := h.range n hlen
    have hinside := h.length n hlen
    have hsmall := h.small
    dsimp only
    rw [Exec.bind_done]
    by_cases hunit : 1 ≤ n / b.usize
    · have hcnt : ((n % 2 ^ 64 / b.usize - 1) % 2 ^ 64).toNat = (n / b.usize).toNat - 1 := by
        rcases husize with husize | husize <;> rw [husize] at hunit ⊢ <;> omega
      rw [hcnt, if_pos hunit, Buffer.load_eq_some (by omega)]
      rfl
    · have hcnt : b.mem.length < ((n % 2 ^ 64 / b.usize - 1) % 2 ^ 64).toNat := by
        rcases husize with husize | husize <;> rw [husize] at hunit ⊢ <;> omega
      rw [if_neg hunit, Buffer.load, if_neg (by omega)]
      rfl

/-! ## Whatever is bound -/

namespace BoundDateTime

/-- A length of a string that is at least one unit, and no `SQL_NTS`. -/
def Counted : BoundDateTime → Prop
  | chars b => ∀ n ∈ b.octetLen, 1 ≤ n / b.usize
  | fields _ => True

/-- The fields that are printed of what is bound, with the class that a string is read as. -/
inductive Reaches (ctx : ZoneContext) : BoundDateTime → Option DateTimeType → TimestampStruct → Prop
  | chars {b : BoundChars} {w td : WStr} {ty : DateTimeType} {u : TimestampStruct}
      (taken : b.taken = some w) (seen : td ∈ (b.source w).seen) (read : ReadsText ctx td ty u) :
      Reaches ctx (chars b) (some ty) u
  | fields {f : BoundFields} {tss u : TimestampStruct} (held : f.fields ctx.today = .done (.ok tss))
      (utc : (if ctx.applyTz then ctx.toUtc tss else some tss) = some u) :
      Reaches ctx (fields f) none u

theorem read_of_reaches {ctx : ZoneContext} {b : BoundDateTime} {fmt : Option DateTimeType}
    {u : TimestampStruct} (hin : b.Inside) (h : Reaches ctx b fmt u) (junk : WStr) :
    b.read ctx junk = .done (.ok (u, fmt)) := by
  cases h with
  | chars taken seen read =>
    have hin : BoundChars.Inside _ := hin
    rw [BoundDateTime.read, BoundChars.read_eq hin, taken, Option.elim_some,
      parsedFields_of_reads seen read]
    rfl
  | fields held utc =>
    rw [BoundDateTime.read, BoundFields.read, held, Exec.onOk_ok]
    cases htz : ctx.applyTz with
    | false =>
      rw [htz, if_neg Bool.false_ne_true] at utc
      rw [if_neg Bool.false_ne_true, Option.some.inj utc]
      rfl
    | true =>
      rw [htz, if_pos rfl] at utc
      rw [if_pos rfl, shifted, utc]
      rfl

theorem fields_done {f : BoundFields} (hin : (fields f).Inside) (today : IsoDate) :
    ∃ r, f.fields today = .done r := by
  cases f with
  | time ts => exact ⟨_, rfl⟩
  | date ds => exact ⟨_, rfl⟩
  | timestamp tss => exact ⟨_, rfl⟩
  | binary mem octetLen =>
    obtain ⟨hterm, hlen⟩ := hin
    have hload : ∀ n, (octetLen.elim (ntsLen mem) fun n ↦ .done (n % 2 ^ 64).toNat) = .done n →
        n = timestampStructSize → timestampStructSize ≤ mem.length := by
      intro n hn hsize
      cases octetLen with
      | none =>
        obtain ⟨units, behind, rfl, rfl⟩ := ntsLen_eq_done (hn : ntsLen mem = .done n)
        rw [List.length_append]
        omega
      | some len =>
        obtain ⟨hmin, hmax, hle⟩ := hlen len rfl
        have hcount : (len % 2 ^ 64).toNat = n := Exec.done.inj hn
        unfold timestampStructSize at hsize ⊢
        omega
    have hsize : ∃ n, (octetLen.elim (ntsLen mem) fun n ↦ .done (n % 2 ^ 64).toNat) = .done n := by
      cases octetLen with
      | none =>
        obtain ⟨units, behind, rfl, hunits⟩ := List.eq_append_cons_of_mem (hterm rfl)
        exact ⟨_, ntsLen_terminated hunits behind⟩
      | some len => exact ⟨_, rfl⟩
    obtain ⟨n, hn⟩ := hsize
    rw [BoundFields.fields, hn, Exec.bind_done]
    by_cases hne : n ≠ timestampStructSize
    · rw [if_pos hne]
      exact ⟨_, rfl⟩
    · rw [if_neg hne, Buffer.load_eq_some (by simpa using hload n hn (not_not.mp hne))]
      exact ⟨_, rfl⟩

theorem read_error {ctx : ZoneContext} {b : BoundDateTime} (hin : b.Inside) (hcount : b.Counted)
    (h : ∀ fmt u, ¬Reaches ctx b fmt u) (junk : WStr) :
    ∃ e, b.read ctx junk = .done (.error e) := by
  cases b with
  | chars b =>
    have hin : BoundChars.Inside b := hin
    have htaken : ∃ w, b.taken = some w := by
      unfold BoundChars.taken
      cases hlen : b.octetLen with
      | none => exact ⟨_, rfl⟩
      | some n =>
        dsimp only
        rw [if_pos (hcount n hlen)]
        exact ⟨_, rfl⟩
    obtain ⟨w, hw⟩ := htaken
    have herror : ∃ e, parsedFields ctx junk (b.source w) = .error e :=
      parsedFields_error (fun td htd ty u hread ↦ h _ _ (.chars hw htd hread)) junk
    obtain ⟨e, he⟩ := herror
    refine ⟨e, ?_⟩
    rw [BoundDateTime.read, BoundChars.read_eq hin, hw, Option.elim_some, he]
    rfl
  | fields f =>
    obtain ⟨r, hr⟩ := fields_done hin ctx.today
    rw [BoundDateTime.read, BoundFields.read, hr]
    cases r with
    | error e => exact ⟨e, rfl⟩
    | ok tss =>
      rw [Exec.onOk_ok]
      cases hutc : (if ctx.applyTz then ctx.toUtc tss else some tss) with
      | some u => exact absurd (.fields hr hutc) (h none u)
      | none =>
        cases htz : ctx.applyTz with
        | false =>
          rw [htz, if_neg Bool.false_ne_true] at hutc
          cases hutc
        | true =>
          rw [htz, if_pos rfl] at hutc
          rw [if_pos rfl, shifted, hutc]
          exact ⟨_, rfl⟩

theorem read_undefined {ctx : ZoneContext} {b : BoundDateTime} (hin : b.Inside)
    (hcount : ¬b.Counted) (junk : WStr) : b.read ctx junk = .undefined := by
  cases b with
  | fields f => exact absurd trivial hcount
  | chars b =>
    have hin : BoundChars.Inside b := hin
    have htaken : b.taken = none := by
      have hcount : ¬∀ n ∈ b.octetLen, 1 ≤ n / b.usize := hcount
      unfold BoundChars.taken
      cases hlen : b.octetLen with
      | none => exact absurd (fun n hn ↦ by rw [hlen] at hn; cases hn) hcount
      | some n =>
        refine if_neg fun hn ↦ hcount fun m hm ↦ ?_
        rw [hlen, Option.mem_some_iff] at hm
        exact hm ▸ hn
    rw [BoundDateTime.read, BoundChars.read_eq hin, htaken]
    rfl

end BoundDateTime

/-! ## The fields that are reached -/

/-- The fields of a date and a time. -/
def Valid (u : TimestampStruct) : Prop :=
  ∃ (d : Date) (c : Clock) (fraction : ℕ), d.year ≤ 10000 ∧ fraction < 10 ^ 9 ∧
    u = stampFields d c fraction

theorem valid_iso (d : IsoDate) (c : Clock) {fraction : ℕ} (h : fraction < 10 ^ 9) :
    Valid (stampFields d.toDate c fraction) :=
  ⟨_, _, _, d.year_le.trans (by norm_num), h, rfl⟩

theorem Valid.fraction_lt {d : Date} {c : Clock} {fraction : ℕ}
    (h : Valid (stampFields d c fraction)) : fraction < 10 ^ 9 := by
  obtain ⟨d', c', fraction', -, hfraction', heq⟩ := h
  have hsame : fraction = fraction' := congrArg TimestampStruct.fraction heq
  exact hsame ▸ hfraction'

theorem Valid.toUtc {ctx : UtcContext} {tss u : TimestampStruct} (h : Valid tss)
    (hu : ctx.toUtc tss = some u) : Valid u := by
  obtain ⟨d, c, fraction, -, hfraction, rfl⟩ := h
  obtain ⟨d', c', hy, rfl⟩ := ctx.utc_fields _ _ hu
  exact ⟨_, _, _, hy, hfraction, rfl⟩

theorem valid_shows {s : Stamp} {tss : TimestampStruct}
    (h : Shows s.value.sec (nanos s.frac) tss) : Valid tss := by
  obtain ⟨d, c, hinstant, rfl⟩ := h
  exact ⟨d, c, _, year_le_of_instant (hinstant : _ = instant s.date.toDate s.clock - _),
    nanos_lt s.short, rfl⟩

theorem valid_readsText {ctx : UtcContext} {td : WStr} {ty : DateTimeType} {u : TimestampStruct}
    (h : ReadsText ctx.toZoneContext td ty u) : Valid u := by
  obtain ⟨iso, s, tss, -, hshows, rfl⟩ := h
  have htss := valid_shows hshows
  rw [leftFields]
  split_ifs
  · obtain ⟨d, c, fraction, hy, -, rfl⟩ := htss
    exact ⟨d, midnight, 0, hy, by norm_num, rfl⟩
  · cases hutc : ctx.toUtc tss with
    | none => exact htss
    | some u => exact htss.toUtc hutc
  · exact htss

/-- What is reached of a value are fields of a date and a time. -/
theorem BoundDateTime.Reaches.valid {ctx : UtcContext} {b : BoundDateTime} {ty : DateTimeType}
    {zoned : Bool} {tss u : TimestampStruct} {fmt : Option DateTimeType}
    (hnames : b.Names ctx.today ty zoned tss) (h : b.Reaches ctx.toZoneContext fmt u) : Valid u := by
  cases h with
  | chars taken seen read => exact valid_readsText read
  | @fields f tss' _ held utc =>
    have hvalid : Valid tss' := by
      cases hnames with
      | time c =>
        cases held
        exact valid_iso ctx.today c (by norm_num)
      | date d =>
        cases held
        exact valid_iso d midnight (by norm_num)
      | timestamp d c fraction =>
        cases held
        exact valid_iso d c fraction.isLt
      | @binary mem d c fraction hmem =>
        rw [BoundFields.fields, Option.elim_some, Exec.bind_done, if_neg (not_not.mpr (by decide)),
          Buffer.load] at held
        split_ifs at held
        · have htss : tss' = timestampOfBytes (mem.take timestampStructSize) :=
            (Except.ok.inj (Exec.done.inj held)).symm
          rw [htss, hmem]
          exact valid_iso d c fraction.isLt
        · cases held
    split_ifs at utc
    · exact hvalid.toUtc utc
    · exact Option.some.inj utc ▸ hvalid

/-! ## Main result -/

namespace DateTimeParam

variable (p : DateTimeParam) {a : AdmittedSize}

/-- The size and the decimal digits of the parameter are the ones that are admitted. -/
structure Admits (a : AdmittedSize) : Prop where
  type : a.type = p.target
  size : a.size = p.size
  decimals : a.decimals = p.decimals

/-- A value is read as one that is shown in the same text, and cut at the end of a field. -/
def ValueKept (ctx : ZoneContext) (a : AdmittedSize) : Prop :=
  ∀ ty u, p.bound.Denotes ctx ty u → dateWithTime (some ty) p.target = false →
    ∃ fmt v, p.bound.Reaches ctx fmt v ∧ dateWithTime fmt p.target = false ∧
      ∃ (d : Date) (c : Clock) (fraction : ℕ) (d' : Date) (c' : Clock) (fraction' : ℕ),
        d.year < 10 ^ 4 ∧ v = stampFields d c fraction ∧
          d'.year < 10 ^ 4 ∧ u = stampFields d' c' fraction' ∧
            SameShown a (zeroesTime p.bound fmt) d c fraction d' c' fraction'

/-- Fields that are not sent: their text is too long to be printed, or they are a date for a time or
a time for a date. -/
def Refused (a : AdmittedSize) (fmt : Option DateTimeType) (v : TimestampStruct) : Prop :=
  isoMaxLen + 1 < (stampText v a.decdigits).length ∨
    dateWithTime fmt a.type = true ∧ 0 ≤ cutAt a.colsize

/-- Fields that are read although no value is bound are not sent. -/
def OthersRefused (ctx : ZoneContext) (a : AdmittedSize) : Prop :=
  (∀ ty u, p.bound.Denotes ctx ty u → dateWithTime (some ty) p.target = true) →
    ∀ fmt v, p.bound.Reaches ctx fmt v → Refused a fmt v

/-- When a parameter is emitted as what is bound to it. -/
def KeptWhen (ctx : ZoneContext) : Prop :=
  ∀ a, p.Admits a → p.bound.Counted ∧ p.ValueKept ctx a ∧ p.OthersRefused ctx a

variable {p} {ctx : ZoneContext} {fmt : Option DateTimeType} {v : TimestampStruct}

theorem Admits.out_eq (h : p.Admits a) (junk : WStr) : p.out ctx junk =
    (p.bound.read ctx junk).onOk fun r ↦ (isoTimestamp r.1 a.colsize a.decdigits).onOk fun text ↦
      if dateWithTime r.2 p.target then .done (.error .s22018)
      else (adaptToTarget p.target (zeroesTime p.bound r.2) text).bind fun w ↦
        .done (.ok (0x22 :: (w ++ [0x22]))) := by
  have hadmitted : sizeDecdigitsForIso8601 p.target p.size p.decimals =
      .ok (a.colsize, a.decdigits) := by
    rw [← h.type, ← h.size, ← h.decimals]
    exact a.admitted
  rw [out, c2sqlDateTime, hadmitted]

theorem Admits.takes (h : p.Admits a) {ty : DateTimeType} :
    p.Takes ty ↔ dateWithTime (some ty) p.target = false := by
  refine and_iff_left ⟨(a.colsize, a.decdigits), ?_⟩
  rw [← h.type, ← h.size, ← h.decimals]
  exact a.admitted

/-- Fields that are reached are printed, and made fit for the target. -/
theorem Admits.out_reached (h : p.Admits a) (hr : p.bound.Reaches ctx fmt v)
    (hclass : dateWithTime fmt p.target = false) (junk : WStr) :
    p.out ctx junk = emitted a (zeroesTime p.bound fmt) v := by
  rw [h.out_eq, BoundDateTime.read_of_reaches p.inside hr, Exec.onOk_ok, emitted, h.type]
  dsimp only
  rw [hclass]
  rfl

theorem Admits.out_mixed (h : p.Admits a) (hr : p.bound.Reaches ctx fmt v)
    (hclass : dateWithTime fmt p.target = true) (junk : WStr) :
    p.out ctx junk = (isoTimestamp v a.colsize a.decdigits).onOk fun _ ↦ .done (.error .s22018) := by
  rw [h.out_eq, BoundDateTime.read_of_reaches p.inside hr, Exec.onOk_ok]
  dsimp only
  rw [hclass]
  rfl

/-- What comes of printing. -/
theorem printTimestamp_cases (v : TimestampStruct) (colsize : UInt64) (decdigits : ℤ) :
    (isoMaxLen + 1 < (stampText v decdigits).length ∧
        printTimestamp v true colsize decdigits = .done none) ∨
      (¬isoMaxLen + 1 < (stampText v decdigits).length ∧ cutAt colsize < 0 ∧
        printTimestamp v true colsize decdigits = .undefined) ∨
      (¬isoMaxLen + 1 < (stampText v decdigits).length ∧ 0 ≤ cutAt colsize ∧
        ∃ text, printTimestamp v true colsize decdigits = .done (some text)) := by
  rw [printTimestamp]
  dsimp only
  by_cases hlong : isoMaxLen + 1 < (stampText v decdigits).length
  · exact .inl ⟨hlong, if_pos hlong⟩
  rw [if_neg hlong]
  by_cases hneg : cutAt colsize < 0
  · refine .inr (.inl ⟨hlong, hneg, ?_⟩)
    rw [if_pos (hneg.trans_le (Int.natCast_nonneg _)), if_pos hneg]
  · refine .inr (.inr ⟨hlong, not_lt.mp hneg, ?_⟩)
    rw [if_neg (by split_ifs <;> omega), if_pos rfl]
    exact ⟨_, rfl⟩

theorem emitted_ne_error {zeroed : Bool} {text : WStr}
    (h : printTimestamp v true a.colsize a.decdigits = .done (some text)) (e : SqlState) :
    emitted a zeroed v ≠ .done (.error e) := by
  rw [emitted, isoTimestamp, h]
  dsimp only [Exec.bind_done, Option.elim_some, Exec.onOk_ok]
  cases adaptToTarget a.type zeroed text with
  | done w =>
    intro hc
    cases hc
  | undefined =>
    intro hc
    cases hc
  | exhausted =>
    intro hc
    cases hc

theorem Admits.refused_iff (h : p.Admits a) (hr : p.bound.Reaches ctx fmt v) (junk : WStr) :
    (∃ e, p.out ctx junk = .done (.error e)) ↔ Refused a fmt v := by
  rw [Refused, h.type]
  rcases printTimestamp_cases v a.colsize a.decdigits with
    ⟨hlong, hprint⟩ | ⟨hshort, hneg, hprint⟩ | ⟨hshort, hcut, text, hprint⟩
  · refine ⟨fun _ ↦ .inl hlong, fun _ ↦ ⟨.sHY000, ?_⟩⟩
    cases hclass : dateWithTime fmt p.target with
    | true =>
      rw [h.out_mixed hr hclass, isoTimestamp, hprint]
      rfl
    | false =>
      rw [h.out_reached hr hclass, emitted, isoTimestamp, hprint]
      rfl
  · constructor
    · rintro ⟨e, he⟩
      cases hclass : dateWithTime fmt p.target with
      | true =>
        rw [h.out_mixed hr hclass, isoTimestamp, hprint] at he
        cases he
      | false =>
        rw [h.out_reached hr hclass, emitted, isoTimestamp, hprint] at he
        cases he
    · rintro (hlong | ⟨-, hcut⟩)
      · exact absurd hlong hshort
      · omega
  · constructor
    · rintro ⟨e, he⟩
      cases hclass : dateWithTime fmt p.target with
      | true => exact .inr ⟨rfl, hcut⟩
      | false =>
        rw [h.out_reached hr hclass] at he
        exact absurd he (emitted_ne_error hprint e)
    · rintro (hlong | ⟨hclass, -⟩)
      · exact absurd hlong hshort
      · refine ⟨.s22018, ?_⟩
        rw [h.out_mixed hr hclass, isoTimestamp, hprint]
        rfl

theorem Admits.mixed_ne_ok (h : p.Admits a) (hr : p.bound.Reaches ctx fmt v)
    (hclass : dateWithTime fmt p.target = true) (junk w : WStr) :
    p.out ctx junk ≠ .done (.ok w) := by
  rw [h.out_mixed hr hclass, isoTimestamp]
  rcases printTimestamp_cases v a.colsize a.decdigits with
    ⟨-, hprint⟩ | ⟨-, -, hprint⟩ | ⟨-, -, text, hprint⟩
  all_goals
    rw [hprint]
    intro hc
    cases hc

/-- What is emitted of the fields that are reached is the text of a value exactly when they are shown
in that text. -/
theorem Admits.sent_iff {ctx : UtcContext} (h : p.Admits a)
    (hr : p.bound.Reaches ctx.toZoneContext fmt v) (hclass : dateWithTime fmt p.target = false)
    (hvalid : Valid v) {d' : Date} {c' : Clock} {fraction' : ℕ} (hy' : d'.year < 10 ^ 4)
    (junk : WStr) :
    p.out ctx.toZoneContext junk = .done (.ok (0x22 ::
        (shownText p.target p.size p.decimals d' c' fraction' ++ [0x22]))) ↔
      ∃ (d : Date) (c : Clock) (fraction : ℕ), d.year < 10 ^ 4 ∧ v = stampFields d c fraction ∧
        SameShown a (zeroesTime p.bound fmt) d c fraction d' c' fraction' := by
  rw [h.out_reached hr hclass, ← h.type, ← h.size, ← h.decimals]
  constructor
  · intro hout
    obtain ⟨d, c, fraction, hy, hfraction, rfl⟩ := hvalid
    rcases year_of_le hy with hlt | hlast
    · exact ⟨d, c, fraction, hlt, rfl, (emitted_iff hlt hy' hfraction).mp hout⟩
    · exact absurd hout (emitted_late hlast)
  · rintro ⟨d, c, fraction, hy, rfl, hsame⟩
    exact (emitted_iff hy hy' hvalid.fraction_lt).mpr hsame

end DateTimeParam

/-- The text `2000-01-01` with its length. -/
def countedDate : BoundDateTime :=
  .chars ⟨false, [0x32, 0x30, 0x30, 0x30, 0x2D, 0x30, 0x31, 0x2D, 0x30, 0x31], some 10⟩

theorem countedDate_inside : countedDate.Inside where
  terminator h := by rcases h with h | h <;> cases h
  length n hn := by
    obtain rfl := Option.mem_some_iff.mp hn
    decide
  range n hn := by
    obtain rfl := Option.mem_some_iff.mp hn
    decide
  small := by norm_num

end EsOdbc
