import EsOdbc.Interval.Literal
import EsOdbc.Interval.Truncation

/-!
# The values of interval literals

Which texts `parse_interval_literal_value` accepts: the fields of the type, each after its
separator, and what they write.
-/

namespace EsOdbc

/-! ## The fields of a type -/

/-- What stands before a field. -/
inductive Sep where
  | start | dash | blanks | colon
deriving DecidableEq, Repr

/-- A field of a value, with its limit: none on a leading one. -/
structure Part where
  sep : Sep
  field : IvlField
  limit : ℕ
deriving DecidableEq, Repr

/-- The fields of a type. -/
def parts : IntervalType → List Part
  | .year => [⟨.start, .year, 0⟩]
  | .month => [⟨.start, .month, 0⟩]
  | .day => [⟨.start, .day, 0⟩]
  | .hour => [⟨.start, .hour, 0⟩]
  | .minute => [⟨.start, .minute, 0⟩]
  | .second => [⟨.start, .second, 0⟩]
  | .yearToMonth => [⟨.start, .year, 0⟩, ⟨.dash, .month, 11⟩]
  | .dayToHour => [⟨.start, .day, 0⟩, ⟨.blanks, .hour, 23⟩]
  | .dayToMinute => [⟨.start, .day, 0⟩, ⟨.blanks, .hour, 23⟩, ⟨.colon, .minute, 59⟩]
  | .dayToSecond =>
    [⟨.start, .day, 0⟩, ⟨.blanks, .hour, 23⟩, ⟨.colon, .minute, 59⟩, ⟨.colon, .second, 59⟩]
  | .hourToMinute => [⟨.start, .hour, 0⟩, ⟨.colon, .minute, 59⟩]
  | .hourToSecond => [⟨.start, .hour, 0⟩, ⟨.colon, .minute, 59⟩, ⟨.colon, .second, 59⟩]
  | .minuteToSecond => [⟨.start, .minute, 0⟩, ⟨.colon, .second, 59⟩]

/-- The steps over a separator. -/
def Sep.skip (behind : Option UInt16) : Sep → WStr → Except Halt WStr
  | .start, w => .ok w
  | .dash, w => (skipSeparator 0x2D behind (wltrimWs w)).map wltrimWs
  | .blanks, w => .ok (wltrimWs w)
  | .colon, w => skipSeparator 0x3A behind w

/-- The parser of the fields of a type.  Seconds come last. -/
def parseParts (r : IvlRec) (behind : Option UInt16) : List Part → IntVal × WStr → Except Halt IntVal
  | [], s => if s.2 ≠ [] then .error (.fail .s22018) else .ok s.1
  | p :: ps, s =>
    (p.sep.skip behind s.2).bind fun w ↦
      if p.field = .second then parseIvlSecOrRet r p.limit s.1 w
      else (parseIvlFldOrRet r p.limit p.field false s.1 w).bind (parseParts r behind ps)

theorem parseIvlFldOrRet_end (r : IvlRec) (behind : Option UInt16) (limit : ℕ) (f : IvlField)
    (v : IntVal) (w : WStr) :
    (parseIvlFldOrRet r limit f true v w).map (·.1) =
      (parseIvlFldOrRet r limit f false v w).bind (parseParts r behind []) := by
  unfold parseIvlFldOrRet
  cases parseIntervalField r limit w with
  | error s => rfl
  | ok x =>
    obtain ⟨n, rest⟩ := x
    by_cases hrest : rest = []
    · subst hrest
      rfl
    · simp [hrest, Except.map, Except.bind, parseParts]

theorem except_map_bind {ε α β γ : Type} (x : Except ε α) (f : α → β) (k : β → Except ε γ) :
    (x.map f).bind k = x.bind fun a ↦ k (f a) := by
  cases x <;> rfl

theorem except_ok_bind {ε α β : Type} (a : α) (k : α → Except ε β) : (Except.ok a).bind k = k a :=
  rfl

/-- The parser of the thirteen types is that of their fields. -/
theorem parseIntervalLiteralValue_eq (r : IvlRec) (t : IntervalType) (behind : Option UInt16)
    (w : WStr) (v : IntVal) :
    parseIntervalLiteralValue r t behind w v = parseParts r behind (parts t) (v, w) := by
  cases t
  all_goals
    simp only [parseIntervalLiteralValue, parseIvlFldOrRet_end r behind, bind, parts, parseParts,
      Sep.skip, except_map_bind, except_ok_bind, reduceCtorEq, if_false, if_true]
    try rfl

/-! ## Texts of fields -/

/-- The text of a separator: blanks may be around a dash, and have to be between two fields of
digits. -/
def Sep.Text (plus : Bool) : Sep → WStr → Prop
  | .start, w => w = []
  | .dash, w => ∃ a b, w = a ++ 0x2D :: b ∧ Blank a ∧ Blank b
  | .blanks, w => Blank w ∧ (w = [] → plus = true)
  | .colon, w => w = [0x3A]

/-- A field at the start of a text, with what stands before it and all of its digits. -/
structure Sep.Starts (sep : Sep) (w : WStr) (f : FieldText) (rest : WStr) : Prop where
  text : ∃ s, sep.Text f.plus s ∧ w = s ++ (f.text ++ rest)
  digits : f.digits ≠ [] ∨ rest ≠ []
  head : ∀ c ∈ rest.head?, digitOf c = none

/-- What follows seconds: nothing, or a point and the digits of a fraction. -/
def FracText (w : WStr) (frac : Option FieldText) : Prop :=
  (w = [] ∨ w = [0x2E]) ∧ frac = none ∨
    ∃ f : FieldText, w = 0x2E :: f.text ∧ f.digits ≠ [] ∧ frac = some f

/-- A text that consists of fields, and of a fraction of the seconds. -/
def Spells : List Part → WStr → List FieldText → Option FieldText → Prop
  | [], w, fs, frac => w = [] ∧ fs = [] ∧ frac = none
  | p :: ps, w, fs, frac => ∃ f rest gs, fs = f :: gs ∧ p.sep.Starts w f rest ∧
      if p.field = .second then gs = [] ∧ FracText rest frac else Spells ps rest gs frac

/-- The fields are within their limits. -/
def AllWithin (r : IvlRec) : List Part → List FieldText → Prop
  | p :: ps, f :: fs => f.Within r p.limit ∧ AllWithin r ps fs
  | _, _ => True

/-- The fields in their places. -/
def fieldValues : List Part → List FieldText → IntVal → IntVal
  | p :: ps, f :: fs, v => fieldValues ps fs (v.set f.value p.field)
  | _, _, v => v

/-! ## Steps of the parser -/

theorem skipSeparator_eq_ok {c : UInt16} {behind : Option UInt16} {w u : WStr} :
    skipSeparator c behind w = .ok u ↔ w = c :: u := by
  cases w with
  | nil =>
    rw [skipSeparator]
    split_ifs <;> simp
  | cons d w =>
    rw [skipSeparator]
    split_ifs with h <;> simp [h]

/-- A separator is missed, with nothing behind the text, where the text has ended. -/
theorem skipSeparator_undefined {c : UInt16} {w : WStr} :
    skipSeparator c none w = .error .undefined ↔ w = [] := by
  cases w with
  | nil => simp [skipSeparator]
  | cons d w =>
    rw [skipSeparator]
    split_ifs <;> simp

theorem isSpace_sign : isSpace true 0x2D = false ∧ isSpace true 0x2B = false := by decide

theorem isSpace_digitUnit (d : Fin 10) : isSpace true (digitUnit d) = false := by
  revert d
  decide

theorem FieldText.head_text (f : FieldText) :
    ∃ c w, f.text = c :: w ∧ isSpace true c = false ∧ (f.plus = false → digitOf c ≠ none) := by
  obtain ⟨plus, ds, hwritten⟩ := f
  cases plus with
  | true => exact ⟨_, _, rfl, isSpace_sign.2, nofun⟩
  | false =>
    obtain ⟨d, ds, rfl⟩ := List.exists_cons_of_ne_nil (hwritten.resolve_left Bool.false_ne_true)
    exact ⟨_, _, rfl, isSpace_digitUnit d, fun _ ↦ by simp⟩

/-- The steps over a separator lead to a field exactly when its text is there. -/
theorem Sep.skip_eq_ok {behind : Option UInt16} {sep : Sep} {w : WStr} {f : FieldText}
    {rest : WStr} (hw : sep ≠ .start → ∀ c ∈ w.head?, digitOf c = none) :
    sep.skip behind w = .ok (f.text ++ rest) ↔
      ∃ s, sep.Text f.plus s ∧ w = s ++ (f.text ++ rest) := by
  obtain ⟨c, u, hf, hspace, hdigit⟩ := f.head_text
  have htrim (s : WStr) (hs : Blank s) : wltrimWs (s ++ (f.text ++ rest)) = f.text ++ rest := by
    rw [hf, wltrimWs_blank hs, List.cons_append, wltrimWs_cons hspace]
  cases sep with
  | start => simp [skip, Text]
  | blanks =>
    simp only [skip, Text, Except.ok.injEq]
    constructor
    · intro h
      obtain ⟨s, hs, hs'⟩ := wltrimWs_eq w
      rw [h] at hs'
      refine ⟨s, ⟨hs, ?_⟩, hs'⟩
      rintro rfl
      by_contra hplus
      rw [Bool.not_eq_true] at hplus
      refine hdigit hplus (hw (by simp) c ?_)
      rw [hs', List.nil_append, hf]
      rfl
    · rintro ⟨s, ⟨hs, -⟩, rfl⟩
      exact htrim s hs
  | colon =>
    rw [skip, skipSeparator_eq_ok]
    simp [Text]
  | dash =>
    have hmap : (skipSeparator 0x2D behind (wltrimWs w)).map wltrimWs = .ok (f.text ++ rest) ↔
        ∃ u, wltrimWs w = 0x2D :: u ∧ wltrimWs u = f.text ++ rest := by
      simp only [← @skipSeparator_eq_ok 0x2D behind]
      cases skipSeparator 0x2D behind (wltrimWs w) <;> simp [Except.map]
    rw [skip, hmap]
    constructor
    · rintro ⟨u, hu, hf'⟩
      obtain ⟨-, a, ha, rfl⟩ := wltrimWs_eq_cons.mp hu
      obtain ⟨b, hb, hb'⟩ := wltrimWs_eq u
      rw [hf'] at hb'
      exact ⟨a ++ 0x2D :: b, ⟨a, b, rfl, ha, hb⟩, by rw [hb', List.append_assoc]; rfl⟩
    · rintro ⟨_, ⟨a, b, rfl, ha, hb⟩, rfl⟩
      refine ⟨b ++ (f.text ++ rest), ?_, htrim b hb⟩
      rw [List.append_assoc, List.cons_append, wltrimWs_blank ha, wltrimWs_cons isSpace_sign.1]

/-- The fraction that is stored for the one that is written. -/
def codeFraction (r : IvlRec) (frac : Option FieldText) (n : ℕ) : ℕ :=
  frac.elim n fun f ↦
    (adjustToPrecision (Int16.ofNat r.precision) f.value (Int16.ofNat f.text.length)).1 % 2 ^ 32

theorem parseIvlSecFraction_eq_ok {r : IvlRec} {w : WStr} {v v' : IntVal} :
    (∃ code, parseIvlSecFraction r w v = .ok (code, v')) ↔
      ∃ f : FieldText, w = f.text ∧ f.digits ≠ [] ∧ f.value ≤ ulongMax ∧
        v' = { v with fraction := codeFraction r (some f) v.fraction } := by
  constructor
  · rintro ⟨code, h⟩
    rw [parseIvlSecFraction] at h
    cases hfield : parseIntervalField r ulongMax w with
    | error s =>
      rw [hfield] at h
      cases h
    | ok x =>
      obtain ⟨n, rest⟩ := x
      obtain ⟨f, rfl, rfl, hwithin, hlone, -⟩ := FieldText.parseIntervalField_eq_ok.mp hfield
      rw [hfield] at h
      dsimp only at h
      split at h
      · cases h
      · next hrest =>
        rw [not_not] at hrest
        subst hrest
        rw [Except.ok.injEq, Prod.mk.injEq] at h
        refine ⟨f, List.append_nil _, hlone.resolve_right (not_not.mpr rfl), hwithin.1, ?_⟩
        rw [← h.2]
        simp [codeFraction]
  · rintro ⟨f, rfl, hdigits, hle, rfl⟩
    refine ⟨(adjustToPrecision (Int16.ofNat r.precision) f.value
      (Int16.ofNat f.text.length)).2, ?_⟩
    rw [parseIvlSecFraction_text r f v hdigits]
    exact if_pos hle

/-- What `parse_interval_second` accepts. -/
theorem parseIvlSecOrRet_eq_ok {r : IvlRec} {limit : ℕ} {w : WStr} {v v' : IntVal} :
    parseIvlSecOrRet r limit v w = .ok v' ↔
      ∃ (f : FieldText) (rest : WStr) (frac : Option FieldText), w = f.text ++ rest ∧
        f.Within r limit ∧ (f.digits ≠ [] ∨ rest ≠ []) ∧ FracText rest frac ∧
        (∀ f ∈ frac, f.value ≤ ulongMax) ∧
        v' = { v.set f.value .second with fraction := codeFraction r frac v.fraction } := by
  have hret : parseIvlSecOrRet r limit v w = .ok v' ↔
      ∃ code, parseIntervalSecond r limit w v = .ok (code, v') := by
    rw [parseIvlSecOrRet]
    cases parseIntervalSecond r limit w v with
    | error s => simp
    | ok x => simp [Prod.ext_iff]
  rw [hret]
  constructor
  · rintro ⟨code, h⟩
    rw [parseIntervalSecond] at h
    cases hfield : parseIntervalField r limit w with
    | error s =>
      rw [hfield] at h
      cases h
    | ok x =>
      obtain ⟨n, rest⟩ := x
      obtain ⟨f, rfl, rfl, hwithin, hlone, hrest⟩ := FieldText.parseIntervalField_eq_ok.mp hfield
      rw [hfield] at h
      dsimp only at h
      by_cases hnil : rest = []
      · rw [if_pos hnil, Except.ok.injEq, Prod.mk.injEq] at h
        exact ⟨f, rest, none, rfl, hwithin, hlone, .inl ⟨.inl hnil, rfl⟩, by simp, h.2.symm⟩
      · rw [if_neg hnil] at h
        obtain ⟨c, tail, rfl⟩ := List.exists_cons_of_ne_nil hnil
        rw [List.head?_cons, List.tail_cons] at h
        split at h
        · cases h
        · next hpoint =>
          rw [not_not, Option.some.injEq] at hpoint
          subst hpoint
          split at h
          · next htail =>
            subst htail
            rw [Except.ok.injEq, Prod.mk.injEq] at h
            exact ⟨f, _, none, rfl, hwithin, hlone, .inl ⟨.inr rfl, rfl⟩, by simp, h.2.symm⟩
          · obtain ⟨g, rfl, hdigits, hle, rfl⟩ := parseIvlSecFraction_eq_ok.mp ⟨code, h⟩
            exact ⟨f, _, some g, rfl, hwithin, hlone, .inr ⟨g, rfl, hdigits, rfl⟩, by simpa using hle, rfl⟩
  · rintro ⟨f, rest, frac, rfl, hwithin, hlone, ⟨rfl | rfl, rfl⟩ | ⟨g, rfl, hdigits, rfl⟩, hle, rfl⟩
    · rw [List.append_nil]
      exact ⟨_, parseIntervalSecond_whole v (hlone.resolve_right (not_not.mpr rfl)) hwithin⟩
    · refine ⟨.success, ?_⟩
      rw [parseIntervalSecond_point [] v hwithin, if_pos rfl]
      rfl
    · obtain ⟨code, h⟩ := parseIvlSecFraction_eq_ok.mpr ⟨g, rfl, hdigits, hle g rfl, rfl⟩
      refine ⟨code, ?_⟩
      rw [parseIntervalSecond_point g.text v hwithin, if_neg g.text_ne_nil]
      exact h

theorem fieldValues_fraction (ps : List Part) (fs : List FieldText) (v : IntVal) :
    (fieldValues ps fs v).fraction = v.fraction := by
  induction ps generalizing fs v with
  | nil => rfl
  | cons p ps ih =>
    cases fs with
    | nil => rfl
    | cons f fs =>
      rw [fieldValues, ih]
      cases p.field <;> rfl

theorem FracText.head {w : WStr} {frac : Option FieldText} (h : FracText w frac) :
    ∀ c ∈ w.head?, digitOf c = none := by
  rcases h with ⟨rfl | rfl, -⟩ | ⟨f, rfl, -, -⟩ <;> simp [digitOf]

/-- A step to a field and what the parser `k` makes of it. -/
theorem skip_bind_eq_ok {r : IvlRec} {behind : Option UInt16} {sep : Sep} {limit : ℕ} {w : WStr}
    {v' : IntVal} {k : WStr → Except Halt IntVal} {K : FieldText → WStr → Prop}
    (hw : sep ≠ .start → ∀ c ∈ w.head?, digitOf c = none)
    (hk : ∀ u, k u = .ok v' ↔ ∃ (f : FieldText) (rest : WStr), u = f.text ++ rest ∧
      f.Within r limit ∧ (f.digits ≠ [] ∨ rest ≠ []) ∧ (∀ c ∈ rest.head?, digitOf c = none) ∧
        K f rest) :
    (sep.skip behind w).bind k = .ok v' ↔
      ∃ (f : FieldText) (rest : WStr), sep.Starts w f rest ∧ f.Within r limit ∧ K f rest := by
  constructor
  · intro h
    cases hskip : sep.skip behind w with
    | error e =>
      rw [hskip] at h
      cases h
    | ok u =>
      rw [hskip, except_ok_bind] at h
      obtain ⟨f, rest, rfl, hwithin, hlone, hrest, hK⟩ := (hk u).mp h
      exact ⟨f, rest, ⟨(Sep.skip_eq_ok hw).mp hskip, hlone, hrest⟩, hwithin, hK⟩
  · rintro ⟨f, rest, ⟨htext, hlone, hrest⟩, hwithin, hK⟩
    rw [(Sep.skip_eq_ok hw).mpr htext, except_ok_bind, hk]
    exact ⟨f, rest, rfl, hwithin, hlone, hrest, hK⟩

theorem parseIvlFldOrRet_bind_eq_ok {r : IvlRec} {limit : ℕ} {field : IvlField} {v v' : IntVal}
    {u : WStr} {k : IntVal × WStr → Except Halt IntVal} :
    (parseIvlFldOrRet r limit field false v u).bind k = .ok v' ↔
      ∃ (f : FieldText) (rest : WStr), u = f.text ++ rest ∧ f.Within r limit ∧
        (f.digits ≠ [] ∨ rest ≠ []) ∧ (∀ c ∈ rest.head?, digitOf c = none) ∧
          k (v.set f.value field, rest) = .ok v' := by
  constructor
  · intro h
    rw [parseIvlFldOrRet] at h
    cases hfield : parseIntervalField r limit u with
    | error s =>
      rw [hfield] at h
      cases h
    | ok x =>
      obtain ⟨n, rest⟩ := x
      rw [hfield] at h
      obtain ⟨f, rfl, rfl, hwithin, hlone, hrest⟩ := FieldText.parseIntervalField_eq_ok.mp hfield
      exact ⟨f, rest, rfl, hwithin, hlone, hrest, h⟩
  · rintro ⟨f, rest, rfl, hwithin, hlone, hrest, hk⟩
    have hfield := FieldText.parseIntervalField_eq_ok.mpr ⟨f, rfl, rfl, hwithin, hlone, hrest⟩
    rw [parseIvlFldOrRet, hfield]
    exact hk

/-- What the parser of fields accepts. -/
theorem parseParts_eq_ok {r : IvlRec} {behind : Option UInt16} {ps : List Part} {w : WStr}
    {v v' : IntVal}
    (hw : ∀ p ∈ ps.head?, p.sep ≠ .start → ∀ c ∈ w.head?, digitOf c = none) :
    parseParts r behind ps (v, w) = .ok v' ↔
      ∃ fs frac, Spells ps w fs frac ∧ AllWithin r ps fs ∧ (∀ f ∈ frac, f.value ≤ ulongMax) ∧
        v' = { fieldValues ps fs v with fraction := codeFraction r frac v.fraction } := by
  induction ps generalizing w v with
  | nil =>
    rw [parseParts]
    constructor
    · intro h
      split at h
      · cases h
      · next hnil =>
        rw [not_not] at hnil
        obtain rfl := Except.ok.inj h
        exact ⟨[], none, ⟨hnil, rfl, rfl⟩, trivial, by simp, rfl⟩
    · rintro ⟨fs, frac, ⟨rfl, rfl, rfl⟩, -, -, rfl⟩
      exact if_neg (not_not.mpr rfl)
  | cons p ps ih =>
    have hw := hw p rfl
    rw [parseParts]
    by_cases hsecond : p.field = .second
    · simp only [if_pos hsecond, Spells]
      rw [skip_bind_eq_ok (r := r) hw (K := fun f rest ↦ ∃ frac, FracText rest frac ∧
        (∀ f ∈ frac, f.value ≤ ulongMax) ∧
          v' = { v.set f.value .second with fraction := codeFraction r frac v.fraction })]
      · constructor
        · rintro ⟨f, rest, hstarts, hwithin, frac, hfrac, hle, rfl⟩
          refine ⟨[f], frac, ⟨f, rest, [], rfl, hstarts, rfl, hfrac⟩, ⟨hwithin, ?_⟩, hle, ?_⟩
          · cases ps <;> trivial
          · cases ps <;> simp only [fieldValues, hsecond]
        · rintro ⟨_, frac, ⟨f, rest, _, rfl, hstarts, rfl, hfrac⟩, ⟨hwithin, -⟩, hle, rfl⟩
          refine ⟨f, rest, hstarts, hwithin, frac, hfrac, hle, ?_⟩
          cases ps <;> simp only [fieldValues, hsecond]
      · intro u
        rw [parseIvlSecOrRet_eq_ok]
        constructor
        · rintro ⟨f, rest, frac, hu, hwithin, hlone, hfrac, hle, hv⟩
          exact ⟨f, rest, hu, hwithin, hlone, hfrac.head, frac, hfrac, hle, hv⟩
        · rintro ⟨f, rest, hu, hwithin, hlone, -, frac, hfrac, hle, hv⟩
          exact ⟨f, rest, frac, hu, hwithin, hlone, hfrac, hle, hv⟩
    · simp only [if_neg hsecond, Spells]
      rw [skip_bind_eq_ok hw fun u ↦ parseIvlFldOrRet_bind_eq_ok]
      have hfraction (f : FieldText) : (v.set f.value p.field).fraction = v.fraction := by
        cases p.field <;> rfl
      constructor
      · rintro ⟨f, rest, hstarts, hwithin, h⟩
        obtain ⟨fs, frac, hspells, hall, hle, rfl⟩ := (ih fun _ _ _ ↦ hstarts.head).mp h
        exact ⟨f :: fs, frac, ⟨f, rest, fs, rfl, hstarts, hspells⟩, ⟨hwithin, hall⟩, hle, by
          rw [fieldValues, hfraction]⟩
      · rintro ⟨_, frac, ⟨f, rest, fs, rfl, hstarts, hspells⟩, ⟨hwithin, hall⟩, hle, rfl⟩
        refine ⟨f, rest, hstarts, hwithin, ?_⟩
        rw [ih fun _ _ _ ↦ hstarts.head]
        exact ⟨fs, frac, hspells, hall, hle, by rw [fieldValues, hfraction]⟩

/-! ## Reads behind the text -/

/-- A text that ends before a separator. -/
def Sep.Missing : Sep → WStr → Prop
  | .dash, w => Blank w
  | .colon, w => w = []
  | _, _ => False

/-- A text that ends before a separator that a field is to follow, the fields before it within
their limits. -/
def StopsShort (r : IvlRec) : List Part → WStr → Prop
  | [], _ => False
  | p :: ps, w => p.sep.Missing w ∨ p.field ≠ .second ∧
      ∃ (f : FieldText) (rest : WStr), p.sep.Starts w f rest ∧ f.Within r p.limit ∧
        StopsShort r ps rest

theorem Sep.skip_undefined {sep : Sep} {w : WStr} :
    sep.skip none w = .error .undefined ↔ sep.Missing w := by
  cases sep with
  | start => simp [skip, Missing]
  | blanks => simp [skip, Missing]
  | colon => exact skipSeparator_undefined
  | dash =>
    rw [skip, Missing, ← wltrimWs_eq_nil, ← @skipSeparator_undefined 0x2D]
    cases skipSeparator 0x2D none (wltrimWs w) <;> simp [Except.map]

theorem parseIvlSecOrRet_ne_undefined (r : IvlRec) (limit : ℕ) (v : IntVal) (w : WStr) :
    parseIvlSecOrRet r limit v w ≠ .error .undefined := by
  rw [parseIvlSecOrRet]
  cases parseIntervalSecond r limit w v <;> simp

/-- When the parser looks for a separator behind the text. -/
theorem parseParts_undefined {r : IvlRec} {ps : List Part} {w : WStr} {v : IntVal}
    (hw : ∀ p ∈ ps.head?, p.sep ≠ .start → ∀ c ∈ w.head?, digitOf c = none) :
    parseParts r none ps (v, w) = .error .undefined ↔ StopsShort r ps w := by
  induction ps generalizing w v with
  | nil =>
    rw [parseParts, StopsShort]
    split_ifs <;> simp
  | cons p ps ih =>
    have hw := hw p rfl
    rw [parseParts, StopsShort, ← Sep.skip_undefined]
    cases hskip : p.sep.skip none w with
    | error e =>
      have hnone : ¬∃ (f : FieldText) (rest : WStr), p.sep.Starts w f rest ∧
          f.Within r p.limit ∧ StopsShort r ps rest := by
        rintro ⟨f, rest, ⟨htext, -, -⟩, -⟩
        rw [(Sep.skip_eq_ok hw).mpr htext] at hskip
        cases hskip
      rw [or_iff_left fun h ↦ hnone h.2]
      simp [Except.bind]
    | ok u =>
      rw [except_ok_bind, or_iff_right (by simp)]
      split_ifs with hsecond
      · exact iff_of_false (parseIvlSecOrRet_ne_undefined r p.limit v u) fun h ↦ h.1 hsecond
      · rw [and_iff_right hsecond, parseIvlFldOrRet]
        cases hfield : parseIntervalField r p.limit u with
        | error s =>
          refine iff_of_false (by simp [Except.bind]) ?_
          rintro ⟨f, rest, ⟨htext, hlone, hrest⟩, hwithin, -⟩
          rw [(Sep.skip_eq_ok hw).mpr htext, Except.ok.injEq] at hskip
          rw [FieldText.parseIntervalField_eq_ok.mpr ⟨f, hskip.symm, rfl, hwithin, hlone, hrest⟩]
            at hfield
          cases hfield
        | ok x =>
          obtain ⟨n, rest⟩ := x
          obtain ⟨f, rfl, rfl, hwithin, hlone, hrest⟩ := FieldText.parseIntervalField_eq_ok.mp hfield
          show parseParts r none ps (v.set f.value p.field, rest) = .error .undefined ↔ _
          rw [ih fun _ _ _ ↦ hrest]
          constructor
          · intro h
            exact ⟨f, rest, ⟨(Sep.skip_eq_ok hw).mp hskip, hlone, hrest⟩, hwithin, h⟩
          · rintro ⟨f', rest', ⟨htext, hlone', hrest'⟩, hwithin', h⟩
            rw [(Sep.skip_eq_ok hw).mpr htext, Except.ok.injEq] at hskip
            rw [FieldText.parseIntervalField_eq_ok.mpr
              ⟨f', hskip.symm, rfl, hwithin', hlone', hrest'⟩, Except.ok.injEq,
              Prod.mk.injEq] at hfield
            exact hfield.2 ▸ h

/-! ## Texts of fields are read in one way -/

theorem FieldText.text_append_inj {f g : FieldText} {u w : WStr}
    (hu : ∀ c ∈ u.head?, digitOf c = none) (hw : ∀ c ∈ w.head?, digitOf c = none)
    (h : f.text ++ u = g.text ++ w) : f = g ∧ u = w := by
  have hplus (f : FieldText) (u : WStr) : (f.text ++ u).head? = some 0x2B ↔ f.plus = true := by
    obtain ⟨plus, ds, hwritten⟩ := f
    cases plus with
    | true => simp [text]
    | false =>
      obtain ⟨d, ds, rfl⟩ := List.exists_cons_of_ne_nil (hwritten.resolve_left Bool.false_ne_true)
      simpa [text] using (digitUnit_ne d).1
  have hsame : f.plus = g.plus := by
    rw [Bool.eq_iff_iff, ← hplus f u, ← hplus g w, h]
  obtain ⟨plus, ds, hf⟩ := f
  obtain ⟨plus', es, hg⟩ := g
  obtain rfl : plus = plus' := hsame
  simp only [text, List.append_assoc, List.append_cancel_left_eq] at h
  obtain ⟨rfl, rfl⟩ := digitUnits_append_inj hu hw h
  exact ⟨rfl, rfl⟩

/-! ## Refusals -/

/-- A unit that is no separator. -/
def NoSep (c : UInt16) : Prop := c ≠ 0x2D ∧ c ≠ 0x3A

theorem Sep.skip_behind {c : UInt16} (hc : NoSep c) (sep : Sep) (w : WStr) :
    sep.skip (some c) w = sep.skip (some 0x20) w := by
  have hskip (d : UInt16) (hd : c ≠ d) (hd' : 0x20 ≠ d) (w : WStr) :
      skipSeparator d (some c) w = skipSeparator d (some 0x20) w := by
    cases w with
    | nil => simp [skipSeparator, hd, hd']
    | cons x w => rfl
  cases sep with
  | start | blanks => rfl
  | dash => rw [skip, skip, hskip 0x2D hc.1 (by decide)]
  | colon => exact hskip 0x3A hc.2 (by decide) w

/-- What is behind a text does not matter unless it is a separator. -/
theorem parseParts_behind {r : IvlRec} {c : UInt16} (hc : NoSep c) (ps : List Part)
    (s : IntVal × WStr) : parseParts r (some c) ps s = parseParts r (some 0x20) ps s := by
  induction ps generalizing s with
  | nil => rfl
  | cons p ps ih =>
    rw [parseParts, parseParts, Sep.skip_behind hc, show parseParts r (some c) ps = _ from funext ih]

theorem Sep.skip_error {sep : Sep} {w : WStr} {e : Halt} (h : sep.skip (some 0x20) w = .error e) :
    e = .fail .s22018 := by
  have hskip {d : UInt16} (hd : 0x20 ≠ d) {w : WStr} {e : Halt}
      (h : skipSeparator d (some 0x20) w = .error e) : e = .fail .s22018 := by
    cases w with
    | nil =>
      rw [skipSeparator, if_pos (by simpa using hd)] at h
      exact (Except.error.inj h).symm
    | cons x w =>
      rw [skipSeparator] at h
      split at h
      · cases h
      · exact (Except.error.inj h).symm
  cases sep with
  | start | blanks => cases h
  | colon => exact hskip (by decide) h
  | dash =>
    rw [skip] at h
    cases hdash : skipSeparator 0x2D (some 0x20) (wltrimWs w) with
    | error e' =>
      rw [hdash] at h
      cases h
      exact hskip (by decide) hdash
    | ok u =>
      rw [hdash] at h
      cases h

/-- The number of a field is larger than one can be. -/
def FieldText.Overflows (limit : ℕ) (f : FieldText) : Prop :=
  ulongMax < f.value ∨ limit ≠ 0 ∧ limit < f.value

theorem FieldText.Overflows.digits_ne_nil {limit : ℕ} {f : FieldText} (h : f.Overflows limit) :
    f.digits ≠ [] := by
  intro hnil
  have hzero : f.value = 0 := by simp [value, hnil, Decimal.ofDigits]
  rw [Overflows, hzero] at h
  omega

theorem FieldText.overflows_iff {r : IvlRec} {limit : ℕ} {f : FieldText} :
    f.Overflows limit ↔ ¬f.Within r limit ∧ ¬(f.value ≤ ulongMax ∧ limit = 0) := by
  rw [Overflows, Within]
  by_cases hlimit : limit = 0
  · simp only [hlimit, ne_eq, not_true_eq_false, false_and, or_false, and_true, not_le, if_true]
    omega
  · simp only [hlimit, ne_eq, not_false_eq_true, true_and, and_true, and_false, if_false]
    rw [not_and_or, not_le, not_le]

theorem FieldText.parseIntervalField_overflow {r : IvlRec} {limit : ℕ} {w : WStr} :
    parseIntervalField r limit w = .error .s22015 ↔
      ∃ (f : FieldText) (rest : WStr), w = f.text ++ rest ∧
        (∀ c ∈ rest.head?, digitOf c = none) ∧ f.Overflows limit := by
  constructor
  · intro h
    rcases exists_text w with ⟨f, rest, rfl, hrest⟩ | hw
    · by_cases hlone : f.digits ≠ [] ∨ rest ≠ []
      · rw [f.parseIntervalField_text r limit rest hrest hlone] at h
        split_ifs at h with hwithin hfits
        · cases h
        · exact ⟨f, rest, rfl, hrest, overflows_iff.mpr ⟨hwithin, hfits⟩⟩
      · push Not at hlone
        obtain ⟨plus, ds, hwritten⟩ := f
        obtain ⟨rfl, rfl⟩ : ds = [] ∧ rest = [] := hlone
        obtain rfl : plus = true := hwritten.resolve_right (not_not.mpr rfl)
        cases h
    · rw [parseIntervalField_other r limit hw] at h
      cases h
  · rintro ⟨f, rest, rfl, hrest, hover⟩
    obtain ⟨hwithin, hfits⟩ := (overflows_iff (r := r)).mp hover
    rw [f.parseIntervalField_text r limit rest hrest (.inl hover.digits_ne_nil), if_neg hwithin,
      if_neg hfits]

theorem parseIntervalField_error {r : IvlRec} {limit : ℕ} {w : WStr} {s : SqlState}
    (h : parseIntervalField r limit w = .error s) : s = .s22018 ∨ s = .s22015 := by
  rw [parseIntervalField] at h
  split at h
  · split at h <;> simp_all
  · split_ifs at h <;> simp_all

/-- A fraction behind a point that is too large. -/
def FracTooLarge (w : WStr) : Prop :=
  ∃ (g : FieldText) (rest : WStr), w = 0x2E :: (g.text ++ rest) ∧
    (∀ c ∈ rest.head?, digitOf c = none) ∧ g.Overflows ulongMax

/-- A text that starts with fields within their limits, up to one that is too large. -/
def TooLarge (r : IvlRec) : List Part → WStr → Prop
  | [], _ => False
  | p :: ps, w => ∃ (f : FieldText) (rest : WStr), p.sep.Starts w f rest ∧
      (f.Overflows p.limit ∨ f.Within r p.limit ∧
        if p.field = .second then FracTooLarge rest else TooLarge r ps rest)

theorem FieldText.Within.not_overflows {r : IvlRec} {limit : ℕ} {f : FieldText}
    (h : f.Within r limit) : ¬f.Overflows limit := fun hover ↦ (overflows_iff.mp hover).1 h

theorem parseIvlSecOrRet_overflow {r : IvlRec} {limit : ℕ} {w : WStr} {v : IntVal} :
    parseIvlSecOrRet r limit v w = .error (.fail .s22015) ↔
      ∃ (f : FieldText) (rest : WStr), w = f.text ++ rest ∧ (f.digits ≠ [] ∨ rest ≠ []) ∧
        (∀ c ∈ rest.head?, digitOf c = none) ∧
          (f.Overflows limit ∨ f.Within r limit ∧ FracTooLarge rest) := by
  have hret : parseIvlSecOrRet r limit v w = .error (.fail .s22015) ↔
      parseIntervalSecond r limit w v = .error .s22015 := by
    rw [parseIvlSecOrRet]
    cases parseIntervalSecond r limit w v <;> simp
  have hfrac (u : WStr) (v : IntVal) : parseIvlSecFraction r u v = .error .s22015 ↔
      parseIntervalField r ulongMax u = .error .s22015 := by
    rw [parseIvlSecFraction]
    cases parseIntervalField r ulongMax u with
    | error s => simp
    | ok x =>
      dsimp only
      split_ifs <;> simp
  rw [hret]
  constructor
  · intro h
    rw [parseIntervalSecond] at h
    cases hfield : parseIntervalField r limit w with
    | error s =>
      rw [hfield] at h
      obtain rfl : s = .s22015 := Except.error.inj h
      obtain ⟨f, rest, rfl, hrest, hover⟩ := FieldText.parseIntervalField_overflow.mp hfield
      exact ⟨f, rest, rfl, .inl hover.digits_ne_nil, hrest, .inl hover⟩
    | ok x =>
      obtain ⟨n, rest⟩ := x
      obtain ⟨f, rfl, rfl, hwithin, hlone, hrest⟩ := FieldText.parseIntervalField_eq_ok.mp hfield
      rw [hfield] at h
      dsimp only at h
      refine ⟨f, rest, rfl, hlone, hrest, .inr ⟨hwithin, ?_⟩⟩
      split_ifs at h with hnil hpoint htail
      · cases h
      · cases rest with
        | nil => exact absurd rfl hnil
        | cons c rest =>
          obtain rfl : c = 0x2E := by simpa using hpoint
          obtain ⟨g, u, hu, hnone, hover⟩ :=
            FieldText.parseIntervalField_overflow.mp ((hfrac _ _).mp h)
          exact ⟨g, u, by rw [← hu]; rfl, hnone, hover⟩
  · rintro ⟨f, rest, rfl, hlone, hrest, hover | ⟨hwithin, g, u, rfl, hnone, hover⟩⟩
    · rw [parseIntervalSecond,
        FieldText.parseIntervalField_overflow.mpr ⟨f, rest, rfl, hrest, hover⟩]
    · have hne : g.text ++ u ≠ [] := List.append_ne_nil_of_left_ne_nil g.text_ne_nil u
      rw [parseIntervalSecond_point _ _ hwithin, if_neg hne, hfrac]
      exact FieldText.parseIntervalField_overflow.mpr ⟨g, u, rfl, hnone, hover⟩

theorem skip_bind_overflow {sep : Sep} {w : WStr} {k : WStr → Except Halt IntVal}
    {K : FieldText → WStr → Prop} (hw : sep ≠ .start → ∀ c ∈ w.head?, digitOf c = none)
    (hk : ∀ u, k u = .error (.fail .s22015) ↔ ∃ (f : FieldText) (rest : WStr),
      u = f.text ++ rest ∧ (f.digits ≠ [] ∨ rest ≠ []) ∧ (∀ c ∈ rest.head?, digitOf c = none) ∧
        K f rest) :
    (sep.skip (some 0x20) w).bind k = .error (.fail .s22015) ↔
      ∃ (f : FieldText) (rest : WStr), sep.Starts w f rest ∧ K f rest := by
  constructor
  · intro h
    cases hskip : sep.skip (some 0x20) w with
    | error e =>
      rw [hskip, Sep.skip_error hskip] at h
      cases h
    | ok u =>
      rw [hskip, except_ok_bind] at h
      obtain ⟨f, rest, rfl, hlone, hrest, hK⟩ := (hk u).mp h
      exact ⟨f, rest, ⟨(Sep.skip_eq_ok hw).mp hskip, hlone, hrest⟩, hK⟩
  · rintro ⟨f, rest, ⟨htext, hlone, hrest⟩, hK⟩
    rw [(Sep.skip_eq_ok hw).mpr htext, except_ok_bind, hk]
    exact ⟨f, rest, rfl, hlone, hrest, hK⟩

/-- When a field of a text is reported as too large. -/
theorem parseParts_overflow {r : IvlRec} {ps : List Part} {w : WStr} {v : IntVal}
    (hw : ∀ p ∈ ps.head?, p.sep ≠ .start → ∀ c ∈ w.head?, digitOf c = none) :
    parseParts r (some 0x20) ps (v, w) = .error (.fail .s22015) ↔ TooLarge r ps w := by
  induction ps generalizing w v with
  | nil =>
    rw [parseParts, TooLarge]
    split_ifs <;> simp
  | cons p ps ih =>
    have hw := hw p rfl
    rw [parseParts, TooLarge]
    by_cases hsecond : p.field = .second
    · simp only [if_pos hsecond]
      exact skip_bind_overflow hw fun u ↦ parseIvlSecOrRet_overflow
    · simp only [if_neg hsecond]
      refine skip_bind_overflow hw fun u ↦ ?_
      rw [parseIvlFldOrRet]
      cases hfield : parseIntervalField r p.limit u with
      | error s =>
        constructor
        · intro h
          obtain rfl : s = .s22015 := by simpa [Except.bind] using h
          obtain ⟨f, rest, rfl, hrest, hover⟩ := FieldText.parseIntervalField_overflow.mp hfield
          exact ⟨f, rest, rfl, .inl hover.digits_ne_nil, hrest, .inl hover⟩
        · rintro ⟨f, rest, rfl, hlone, hrest, hover | ⟨hwithin, -⟩⟩
          · rw [FieldText.parseIntervalField_overflow.mpr ⟨f, rest, rfl, hrest, hover⟩,
              Except.error.injEq] at hfield
            rw [← hfield]
            rfl
          · rw [FieldText.parseIntervalField_eq_ok.mpr ⟨f, rfl, rfl, hwithin, hlone, hrest⟩]
              at hfield
            cases hfield
      | ok x =>
        obtain ⟨n, rest⟩ := x
        obtain ⟨f, rfl, rfl, hwithin, hlone, hrest⟩ := FieldText.parseIntervalField_eq_ok.mp hfield
        show parseParts r (some 0x20) ps (v.set f.value p.field, rest) = _ ↔ _
        rw [ih fun _ _ _ ↦ hrest]
        constructor
        · intro h
          exact ⟨f, rest, rfl, hlone, hrest, .inr ⟨hwithin, h⟩⟩
        · rintro ⟨g, u, htext, -, hu, h⟩
          obtain ⟨rfl, rfl⟩ := FieldText.text_append_inj hrest hu htext
          exact (h.resolve_left hwithin.not_overflows).2

theorem parseIvlSecOrRet_error {r : IvlRec} {limit : ℕ} {w : WStr} {v : IntVal} {e : Halt}
    (h : parseIvlSecOrRet r limit v w = .error e) : e = .fail .s22018 ∨ e = .fail .s22015 := by
  have hfrac {u : WStr} {v : IntVal} {s : SqlState} (h : parseIvlSecFraction r u v = .error s) :
      s = .s22018 ∨ s = .s22015 := by
    rw [parseIvlSecFraction] at h
    cases hfield : parseIntervalField r ulongMax u with
    | error s' =>
      rw [hfield] at h
      cases h
      exact parseIntervalField_error hfield
    | ok x =>
      rw [hfield] at h
      dsimp only at h
      split at h
      · exact .inl (Except.error.inj h).symm
      · cases h
  have hsecond {s : SqlState} (h : parseIntervalSecond r limit w v = .error s) :
      s = .s22018 ∨ s = .s22015 := by
    rw [parseIntervalSecond] at h
    cases hfield : parseIntervalField r limit w with
    | error s' =>
      rw [hfield] at h
      cases h
      exact parseIntervalField_error hfield
    | ok x =>
      rw [hfield] at h
      dsimp only at h
      split_ifs at h
      · exact .inl (Except.error.inj h).symm
      · exact hfrac h
  rw [parseIvlSecOrRet] at h
  cases hs : parseIntervalSecond r limit w v with
  | error s =>
    rw [hs] at h
    cases h
    exact (hsecond hs).imp (congrArg Halt.fail) (congrArg Halt.fail)
  | ok x =>
    rw [hs] at h
    cases h

/-- The refusals of a text that no separator follows. -/
theorem parseParts_error {r : IvlRec} {ps : List Part} {s : IntVal × WStr} {e : Halt}
    (h : parseParts r (some 0x20) ps s = .error e) : e = .fail .s22018 ∨ e = .fail .s22015 := by
  induction ps generalizing s with
  | nil =>
    rw [parseParts] at h
    split at h
    · exact .inl (Except.error.inj h).symm
    · cases h
  | cons p ps ih =>
    rw [parseParts] at h
    cases hskip : p.sep.skip (some 0x20) s.2 with
    | error e' =>
      rw [hskip] at h
      cases h
      exact .inl (Sep.skip_error hskip)
    | ok u =>
      rw [hskip, except_ok_bind] at h
      split at h
      · exact parseIvlSecOrRet_error h
      · rw [parseIvlFldOrRet] at h
        cases hfield : parseIntervalField r p.limit u with
        | error s =>
          rw [hfield] at h
          cases h
          exact (parseIntervalField_error hfield).imp (congrArg Halt.fail) (congrArg Halt.fail)
        | ok x =>
          rw [hfield] at h
          exact ih h

end EsOdbc
