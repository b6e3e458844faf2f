import EsOdbc.Interval.Print
import EsOdbc.Interval.Value

/-!
# Values of literals, read and printed

When `parse_interval_literal_value` reads exactly the values of its type, and the way back from
what `print_interval_sql` prints.
-/

namespace EsOdbc

open Decimal (ofDigits digits)

/-! ## Texts are read in one way -/

theorem Sep.Starts.unique {sep : Sep} {w u u' : WStr} {f f' : FieldText}
    (hw : sep ≠ .start → ∀ c ∈ w.head?, digitOf c = none) (h : sep.Starts w f u)
    (h' : sep.Starts w f' u') : f = f' ∧ u = u' := by
  have hskip := (@Sep.skip_eq_ok none sep w f u hw).mpr h.text
  rw [(Sep.skip_eq_ok hw).mpr h'.text, Except.ok.injEq] at hskip
  exact FieldText.text_append_inj h.head h'.head hskip.symm

theorem FracText.unique {w : WStr} {frac frac' : Option FieldText} (h : FracText w frac)
    (h' : FracText w frac') : frac = frac' := by
  have hnone {f : FieldText} : ¬(0x2E :: f.text = [] ∨ 0x2E :: f.text = [0x2E]) := by
    simp [f.text_ne_nil]
  rcases h with ⟨hw, rfl⟩ | ⟨f, rfl, -, rfl⟩
  · rcases h' with ⟨-, rfl⟩ | ⟨g, rfl, -, -⟩
    · rfl
    · exact absurd hw hnone
  · rcases h' with ⟨hw, -⟩ | ⟨g, hg, -, rfl⟩
    · exact absurd hw hnone
    · have htext : f.text ++ [] = g.text ++ [] := by simpa using hg
      rw [(FieldText.text_append_inj (by simp) (by simp) htext).1]

theorem Spells.unique {ps : List Part} {w : WStr} {fs fs' : List FieldText}
    {frac frac' : Option FieldText}
    (hw : ∀ p ∈ ps.head?, p.sep ≠ .start → ∀ c ∈ w.head?, digitOf c = none)
    (h : Spells ps w fs frac) (h' : Spells ps w fs' frac') : fs = fs' ∧ frac = frac' := by
  induction ps generalizing w fs fs' with
  | nil =>
    obtain ⟨-, rfl, rfl⟩ := h
    obtain ⟨-, rfl, rfl⟩ := h'
    exact ⟨rfl, rfl⟩
  | cons p ps ih =>
    obtain ⟨f, u, gs, rfl, hstarts, h⟩ := h
    obtain ⟨f', u', gs', rfl, hstarts', h'⟩ := h'
    obtain ⟨rfl, rfl⟩ := hstarts.unique (hw p rfl) hstarts'
    split at h
    · next hsecond =>
      rw [if_pos hsecond] at h'
      obtain ⟨rfl, h⟩ := h
      obtain ⟨rfl, h'⟩ := h'
      exact ⟨rfl, h.unique h'⟩
    · next hsecond =>
      rw [if_neg hsecond] at h'
      obtain ⟨rfl, hfrac⟩ := ih (fun _ _ _ ↦ hstarts.head) h h'
      exact ⟨rfl, hfrac⟩

/-! ## What is read -/

/-- The first field of a type starts its value. -/
theorem head_parts (t : IntervalType) (w : WStr) :
    ∀ p ∈ (parts t).head?, p.sep ≠ .start → ∀ c ∈ w.head?, digitOf c = none := by
  intro p hp hsep
  cases t <;> simp only [parts, List.head?_cons, Option.mem_some_iff] at hp <;>
    exact absurd (by rw [← hp]) hsep

/-- No field has a `+`. -/
def Unsigned (fs : List FieldText) (frac : Option FieldText) : Prop :=
  (∀ f ∈ fs, f.plus = false) ∧ ∀ f ∈ frac, f.plus = false

/-- A text of the fields of a type, unsigned, each within its limit, and what it writes. -/
def ValueText (r : IvlRec) (t : IntervalType) (w : WStr) (v : IntVal) : Prop :=
  ∃ fs frac, Spells (parts t) w fs frac ∧ AllWithin r (parts t) fs ∧ Unsigned fs frac ∧
    v = { fieldValues (parts t) fs .zero with
      fraction := frac.elim 0 fun f ↦ scaled r.precision f.digits }

/-- `parse_interval_literal_value` accepts exactly the values of a type, for what they write,
and looks at nothing behind them. -/
def ReadsValues (r : IvlRec) (t : IntervalType) (w : WStr) : Prop :=
  (∀ behind v, parseIntervalLiteralValue r t behind w .zero = .ok v ↔ ValueText r t w v) ∧
    parseIntervalLiteralValue r t none w .zero ≠ .error .undefined

/-- A text that does not end before a separator; if it consists of fields within their limits,
then a fraction of unsigned ones can be stored, and one behind a `+` somewhere is too large. -/
structure ReadAsWritten (r : IvlRec) (t : IntervalType) (w : WStr) : Prop where
  complete : ¬StopsShort r (parts t) w
  fraction : ∀ fs frac, Spells (parts t) w fs frac → AllWithin r (parts t) fs →
    Unsigned fs frac → ∀ f ∈ frac, f.value ≤ ulongMax ∧ Stored r.precision f.digits
  signed : ∀ fs frac, Spells (parts t) w fs frac → AllWithin r (parts t) fs →
    ¬Unsigned fs frac → ∃ f ∈ frac, ulongMax < f.value

theorem codeFraction_unsigned {r : IvlRec} {frac : Option FieldText}
    (hplus : ∀ f ∈ frac, f.plus = false)
    (hfrac : ∀ f ∈ frac, f.value ≤ ulongMax ∧ Stored r.precision f.digits) :
    codeFraction r frac 0 = frac.elim 0 fun f ↦ scaled r.precision f.digits := by
  cases frac with
  | none => rfl
  | some f =>
    obtain ⟨hle, hstored⟩ := hfrac f rfl
    have hlen : f.text.length = f.digits.length := by simp [FieldText.text, hplus f rfl]
    simp only [codeFraction, Option.elim_some, hlen]
    exact (adjustToPrecision_stored r.precision.isLt hle).mpr hstored

/-- When the values of a type are what is accepted. -/
theorem readsValues_iff (r : IvlRec) (t : IntervalType) (w : WStr) :
    ReadsValues r t w ↔ ReadAsWritten r t w := by
  have hparse (behind : Option UInt16) (v : IntVal) :
      parseIntervalLiteralValue r t behind w .zero = .ok v ↔
        ∃ fs frac, Spells (parts t) w fs frac ∧ AllWithin r (parts t) fs ∧
          (∀ f ∈ frac, f.value ≤ ulongMax) ∧
            v = { fieldValues (parts t) fs .zero with fraction := codeFraction r frac 0 } := by
    rw [parseIntervalLiteralValue_eq]
    exact parseParts_eq_ok (head_parts t w)
  have hpast : parseIntervalLiteralValue r t none w .zero ≠ .error .undefined ↔
      ¬StopsShort r (parts t) w := by
    rw [parseIntervalLiteralValue_eq]
    exact (parseParts_undefined (head_parts t w)).not
  constructor
  · rintro ⟨hread, hbehind⟩
    refine ⟨hpast.mp hbehind, ?_, ?_⟩
    · intro fs frac hspells hall hunsigned
      have hok := (hread none _).mpr ⟨fs, frac, hspells, hall, hunsigned, rfl⟩
      obtain ⟨fs', frac', hspells', -, hle, hv⟩ := (hparse none _).mp hok
      obtain ⟨rfl, rfl⟩ := hspells.unique (head_parts t w) hspells'
      intro f hf
      refine ⟨hle f hf, ?_⟩
      have hfraction := congrArg IntVal.fraction hv
      obtain rfl : frac = some f := hf
      have hlen : f.text.length = f.digits.length := by
        simp [FieldText.text, hunsigned.2 f rfl]
      rw [← adjustToPrecision_stored r.precision.isLt (hle f rfl)]
      simp only [codeFraction, Option.elim_some, hlen] at hfraction
      exact hfraction.symm
    · intro fs frac hspells hall hsigned
      by_contra hle
      push Not at hle
      obtain ⟨fs', frac', hspells', -, hunsigned, -⟩ :=
        (hread none _).mp ((hparse none _).mpr ⟨fs, frac, hspells, hall, hle, rfl⟩)
      obtain ⟨rfl, rfl⟩ := hspells.unique (head_parts t w) hspells'
      exact hsigned hunsigned
  · intro h
    refine ⟨fun behind v ↦ ?_, hpast.mpr h.complete⟩
    rw [hparse]
    constructor
    · rintro ⟨fs, frac, hspells, hall, hle, rfl⟩
      by_cases hunsigned : Unsigned fs frac
      · refine ⟨fs, frac, hspells, hall, hunsigned, ?_⟩
        rw [codeFraction_unsigned hunsigned.2 (h.fraction fs frac hspells hall hunsigned)]
      · obtain ⟨f, hf, hlt⟩ := h.signed fs frac hspells hall hunsigned
        exact absurd (hle f hf) (not_le.mpr hlt)
    · rintro ⟨fs, frac, hspells, hall, hunsigned, rfl⟩
      have hfrac := h.fraction fs frac hspells hall hunsigned
      refine ⟨fs, frac, hspells, hall, fun f hf ↦ (hfrac f hf).1, ?_⟩
      rw [codeFraction_unsigned hunsigned.2 hfrac]

/-! ## What is printed -/

theorem ui64tot_eq (n : ℕ) : ui64tot n = digitUnits (digits n) := by
  simp [ui64tot, Decimal.Numeral.ofInt, Decimal.Numeral.text, Decimal.signText, digitUnits]
  rfl

/-- A field as it is printed. -/
def FieldText.printed (n : ℕ) : FieldText := ⟨false, Decimal.digits n, .inr (Decimal.digits_ne_nil n)⟩

theorem FieldText.text_printed (n : ℕ) : (printed n).text = ui64tot n := (ui64tot_eq n).symm

@[simp] theorem FieldText.value_printed (n : ℕ) : (printed n).value = n :=
  Decimal.ofDigits_digits n

theorem FieldText.length_printed (f : FieldText) : (printed f.value).text.length ≤ f.text.length := by
  have hlen : (printed f.value).text.length = (Decimal.digits f.value).length := by
    simp [printed, text]
  rw [hlen]
  refine Decimal.length_digits_le f.text_length_pos ((Decimal.ofDigits_lt f.digits).trans_le ?_)
  refine Nat.pow_le_pow_right (by norm_num) ?_
  simp [text]

theorem FieldText.Within.printed {r : IvlRec} {limit : ℕ} {f : FieldText} (h : f.Within r limit) :
    (FieldText.printed f.value).Within r limit := by
  obtain ⟨hle, hlimit⟩ := h
  refine ⟨by rwa [value_printed], ?_⟩
  split_ifs at hlimit ⊢
  · exact (Int.ofNat_le.mpr f.length_printed).trans hlimit
  · rwa [value_printed]

/-- What is printed before a field. -/
def Sep.units : Sep → WStr
  | .start => []
  | .dash => [0x2D]
  | .blanks => [0x20]
  | .colon => [0x3A]

theorem Sep.text_units (sep : Sep) (plus : Bool) : sep.Text plus sep.units := by
  cases sep with
  | start => rfl
  | dash => exact ⟨[], [], rfl, blank_nil, blank_nil⟩
  | blanks => exact ⟨by simp [units, Blank, isSpace], fun h ↦ by cases h⟩
  | colon => rfl

/-- The text of fields. -/
def printFields : List Part → List ℕ → WStr
  | p :: ps, n :: ns => p.sep.units ++ ((FieldText.printed n).text ++ printFields ps ns)
  | _, _ => []

/-- Fields after the first are separated, and none is after the seconds. -/
def Ordered : List Part → Prop
  | [] => True
  | p :: ps => (p.field = .second → ps = []) ∧ (∀ q ∈ ps.head?, q.sep ≠ .start) ∧ Ordered ps

theorem ordered_parts (t : IntervalType) : Ordered (parts t) := by
  cases t <;> simp [parts, Ordered]

theorem printFields_head {ps : List Part} (hps : ∀ q ∈ ps.head?, q.sep ≠ .start) (ns : List ℕ) :
    ∀ c ∈ (printFields ps ns).head?, digitOf c = none := by
  cases ps with
  | nil => simp [printFields]
  | cons p ps =>
    cases ns with
    | nil => simp [printFields]
    | cons n ns =>
      obtain ⟨sep, field, limit⟩ := p
      have hsep : sep ≠ .start := hps _ rfl
      cases sep with
      | start => exact absurd rfl hsep
      | dash | blanks | colon => simp [printFields, Sep.units, digitOf]

theorem spells_printFields {ps : List Part} {ns : List ℕ} (hps : Ordered ps)
    (hlen : ns.length = ps.length) :
    Spells ps (printFields ps ns) (ns.map FieldText.printed) none := by
  induction ps generalizing ns with
  | nil =>
    obtain rfl := List.length_eq_zero_iff.mp hlen
    exact ⟨rfl, rfl, rfl⟩
  | cons p ps ih =>
    obtain ⟨n, ns, rfl⟩ := List.exists_cons_of_length_eq_add_one hlen
    obtain ⟨hlast, hsep, hps⟩ := hps
    have hlen : ns.length = ps.length := Nat.succ.inj hlen
    refine ⟨FieldText.printed n, printFields ps ns, ns.map FieldText.printed, rfl,
      ⟨⟨p.sep.units, p.sep.text_units _, rfl⟩, .inl (Decimal.digits_ne_nil n),
        printFields_head hsep ns⟩, ?_⟩
    split_ifs with hsecond
    · obtain rfl := hlast hsecond
      obtain rfl := List.length_eq_zero_iff.mp hlen
      exact ⟨rfl, .inl ⟨.inl rfl, rfl⟩⟩
    · exact ih hps hlen

theorem Spells.length {ps : List Part} {w : WStr} {fs : List FieldText} {frac : Option FieldText}
    (hps : Ordered ps) (h : Spells ps w fs frac) : fs.length = ps.length := by
  induction ps generalizing w fs with
  | nil =>
    obtain ⟨-, rfl, -⟩ := h
    rfl
  | cons p ps ih =>
    obtain ⟨f, rest, gs, rfl, -, h⟩ := h
    split at h
    · next hsecond =>
      obtain rfl := hps.1 hsecond
      obtain ⟨rfl, -⟩ := h
      rfl
    · rw [List.length_cons, List.length_cons, ih hps.2.2 h]

theorem AllWithin.printed {r : IvlRec} {ps : List Part} {fs : List FieldText}
    (h : AllWithin r ps fs) :
    AllWithin r ps ((fs.map FieldText.value).map FieldText.printed) := by
  induction ps generalizing fs with
  | nil => trivial
  | cons p ps ih =>
    cases fs with
    | nil => trivial
    | cons f fs => exact ⟨h.1.printed, ih h.2⟩

theorem fieldValues_printed (ps : List Part) (fs : List FieldText) (v : IntVal) :
    fieldValues ps ((fs.map FieldText.value).map FieldText.printed) v = fieldValues ps fs v := by
  induction ps generalizing fs v with
  | nil => rfl
  | cons p ps ih =>
    cases fs with
    | nil => rfl
    | cons f fs =>
      simp only [List.map_cons, fieldValues, FieldText.value_printed]
      exact ih fs _

/-- `print_interval_sql` prints the fields of the type. -/
theorem printIntervalSql_eq (r : IvlRec) (t : IntervalType) {fs : List FieldText}
    (hlen : fs.length = (parts t).length) :
    printIntervalSql r ⟨t, false, fieldValues (parts t) fs .zero⟩ =
      printFields (parts t) (fs.map FieldText.value) := by
  have hsec : printIntervalSec r (fieldValues (parts t) fs .zero) =
      ui64tot (fieldValues (parts t) fs .zero).second := by
    have hzero : (fieldValues (parts t) fs .zero).fraction = 0 := fieldValues_fraction ..
    rw [printIntervalSec, if_neg fun h ↦ h.1 hzero]
  unfold printIntervalSql
  dsimp only
  rw [hsec]
  cases t
  all_goals
    rcases fs with _ | ⟨f, _ | ⟨g, _ | ⟨h, _ | ⟨k, _ | _⟩⟩⟩⟩
    all_goals
      first
      | (simp [parts] at hlen; done)
      | simp [parts, fieldValues, printFields, Sep.units, FieldText.text_printed, IntVal.set]

/-- A value without a fraction that was read is read again from what is printed of it. -/
def PrintedBack (r : IvlRec) (t : IntervalType) : Prop :=
  ∀ behind w v, parseIntervalLiteralValue r t behind w .zero = .ok v → v.fraction = 0 →
    ∀ behind', parseIntervalLiteralValue r t behind' (printIntervalSql r ⟨t, false, v⟩) .zero =
      .ok v

theorem printedBack (r : IvlRec) (t : IntervalType) : PrintedBack r t := by
  intro behind w v h hfraction behind'
  rw [parseIntervalLiteralValue_eq, parseParts_eq_ok (head_parts t _)] at h
  obtain ⟨fs, frac, hspells, hall, -, rfl⟩ := h
  have hlen := hspells.length (ordered_parts t)
  have hlen' : (fs.map FieldText.value).length = (parts t).length := by rwa [List.length_map]
  have hzero : (fieldValues (parts t) fs .zero).fraction = 0 := fieldValues_fraction ..
  have hv : { fieldValues (parts t) fs .zero with
      fraction := codeFraction r frac IntVal.zero.fraction } = fieldValues (parts t) fs .zero := by
    rw [show codeFraction r frac IntVal.zero.fraction = 0 from hfraction, ← hzero]
  rw [hv, printIntervalSql_eq r t hlen, parseIntervalLiteralValue_eq,
    parseParts_eq_ok (head_parts t _)]
  refine ⟨_, none, spells_printFields (ordered_parts t) hlen', hall.printed, by simp, ?_⟩
  rw [fieldValues_printed, show codeFraction r none IntVal.zero.fraction = 0 from rfl, ← hzero]

end EsOdbc
