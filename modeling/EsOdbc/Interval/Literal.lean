import EsOdbc.Blanks
import EsOdbc.Interval.Parse

/-!
# The value of an interval literal

`parse_interval_literal_value` of `convert.c` and what it calls.
-/

namespace EsOdbc

/-- The members of a record that an interval is read by.  The check of a record keeps the
precision from 0 to 9. -/
structure IvlRec where
  precision : Fin 10
  /-- `datetime_interval_precision`. -/
  leading : Int32
deriving DecidableEq

/-- `parse_interval_field`: the field, and what the text has after it.  `errno` tells a number
of more than 64 bits from no number. -/
def parseIntervalField (r : IvlRec) (limit : ℕ) (wstr : WStr) : Except SqlState (ℕ × WStr) :=
  match str2ubigint wstr false with
  | none => .error (if wstr = [] ∨ wstr = [0x2B] ∨ wstr = [0x5B] then .s22018 else .s22015)
  | some (ubint, digits) =>
    if digits = 0 then
      .error .s22018
    else if ulongMax < ubint then
      .error .s22015
    else if limit = 0 then
      if r.leading.toInt < digits then .error .s22018 else .ok (ubint, wstr.drop digits)
    else if limit < ubint then
      .error .s22015
    else
      .ok (ubint, wstr.drop digits)

/-- The part of `parse_interval_second` after the point: the fraction, up to the end. -/
def parseIvlSecFraction (r : IvlRec) (wstr : WStr) (v : IntVal) :
    Except SqlState (SqlReturn × IntVal) :=
  match parseIntervalField r ulongMax wstr with
  | .error s => .error s
  | .ok (fraction, rest) =>
    let digits := wstr.length - rest.length
    let adjusted := adjustToPrecision (Int16.ofNat r.precision) fraction (Int16.ofNat digits)
    if rest ≠ [] then .error .s22018
    else .ok (adjusted.2, { v with fraction := adjusted.1 % 2 ^ 32 })

/-- `parse_interval_second`, with its return code. -/
def parseIntervalSecond (r : IvlRec) (limit : ℕ) (wstr : WStr) (v : IntVal) :
    Except SqlState (SqlReturn × IntVal) :=
  match parseIntervalField r limit wstr with
  | .error s => .error s
  | .ok (second, wstr) =>
    let v := v.set second .second
    if wstr = [] then
      .ok (.success, v)
    else if wstr.head? ≠ some 0x2E then
      .error .s22018
    else if wstr.tail = [] then
      .ok (.success, v)
    else
      parseIvlSecFraction r wstr.tail v

/-- `PARSE_IVL_FLD_OR_RET`. -/
def parseIvlFldOrRet (r : IvlRec) (limit : ℕ) (f : IvlField) (atTheEnd : Bool) (v : IntVal)
    (wstr : WStr) : Except Halt (IntVal × WStr) :=
  match parseIntervalField r limit wstr with
  | .error s => .error (.fail s)
  | .ok (n, rest) =>
    if atTheEnd ∧ rest ≠ [] then .error (.fail .s22018) else .ok (v.set n f, rest)

/-- The call of `parse_interval_second` that ends a value.  Its return code is dropped. -/
def parseIvlSecOrRet (r : IvlRec) (limit : ℕ) (v : IntVal) (wstr : WStr) : Except Halt IntVal :=
  match parseIntervalSecond r limit wstr v with
  | .error s => .error (.fail s)
  | .ok (_, v) => .ok v

/-- The check of a separator.  It looks at `str[0]` even of a text of no units: at `behind`,
the unit after the text, where there is one.  Should that be the separator, the count wraps. -/
def skipSeparator (c : UInt16) (behind : Option UInt16) : WStr → Except Halt WStr
  | [] => if behind.any (· ≠ c) then .error (.fail .s22018) else .error .undefined
  | u :: rest => if u = c then .ok rest else .error (.fail .s22018)

/-- `parse_interval_literal_value` into `v`. -/
def parseIntervalLiteralValue (r : IvlRec) (type : IntervalType) (behind : Option UInt16)
    (wstr : WStr) (v : IntVal) : Except Halt IntVal :=
  let fld (limit : ℕ) (f : IvlField) (atTheEnd : Bool) (s : IntVal × WStr) :=
    parseIvlFldOrRet r limit f atTheEnd s.1 s.2
  let sep (c : UInt16) (s : IntVal × WStr) := (skipSeparator c behind s.2).map (s.1, ·)
  let ltrim (s : IntVal × WStr) : Except Halt (IntVal × WStr) := .ok (s.1, wltrimWs s.2)
  let minSec (limit : ℕ) (s : IntVal × WStr) : Except Halt IntVal := do
    let s ← fld limit .minute false s
    let s ← sep 0x3A s
    parseIvlSecOrRet r 59 s.1 s.2
  match type with
  | .year => (fld 0 .year true (v, wstr)).map (·.1)
  | .month => (fld 0 .month true (v, wstr)).map (·.1)
  | .day => (fld 0 .day true (v, wstr)).map (·.1)
  | .hour => (fld 0 .hour true (v, wstr)).map (·.1)
  | .minute => (fld 0 .minute true (v, wstr)).map (·.1)
  | .second => parseIvlSecOrRet r 0 v wstr
  | .yearToMonth => do
    let s ← fld 0 .year false (v, wstr)
    let s ← ltrim s
    let s ← sep 0x2D s
    let s ← ltrim s
    (fld 11 .month true s).map (·.1)
  | .dayToHour => do
    let s ← fld 0 .day false (v, wstr)
    let s ← ltrim s
    (fld 23 .hour true s).map (·.1)
  | .dayToMinute => do
    let s ← fld 0 .day false (v, wstr)
    let s ← ltrim s
    let s ← fld 23 .hour false s
    let s ← sep 0x3A s
    (fld 59 .minute true s).map (·.1)
  | .dayToSecond => do
    let s ← fld 0 .day false (v, wstr)
    let s ← ltrim s
    let s ← fld 23 .hour false s
    let s ← sep 0x3A s
    minSec 59 s
  | .hourToMinute => do
    let s ← fld 0 .hour false (v, wstr)
    let s ← sep 0x3A s
    (fld 59 .minute true s).map (·.1)
  | .hourToSecond => do
    let s ← fld 0 .hour false (v, wstr)
    let s ← sep 0x3A s
    minSec 59 s
  | .minuteToSecond => minSec 0 (v, wstr)

/-! ## Fields -/

/-- The number of a field as it is read: digits, and a `+` that may stand before them or
alone. -/
structure FieldText where
  plus : Bool
  digits : List (Fin 10)
  written : plus = true ∨ digits ≠ []

namespace FieldText

def text (f : FieldText) : WStr := (if f.plus then [0x2B] else []) ++ digitUnits f.digits

def value (f : FieldText) : ℕ := Decimal.ofDigits f.digits

/-- The field is within a limit: a leading one, of limit 0, has no more units than the record
allows. -/
def Within (r : IvlRec) (limit : ℕ) (f : FieldText) : Prop :=
  f.value ≤ ulongMax ∧
    if limit = 0 then (f.text.length : ℤ) ≤ r.leading.toInt else f.value ≤ limit

instance (r : IvlRec) (limit : ℕ) (f : FieldText) : Decidable (f.Within r limit) :=
  inferInstanceAs (Decidable (_ ∧ _))

@[simp] theorem digitUnits_eq_nil {ds : List (Fin 10)} : digitUnits ds = [] ↔ ds = [] :=
  List.map_eq_nil_iff

theorem text_ne_nil (f : FieldText) : f.text ≠ [] := by
  obtain ⟨plus, ds, hwritten⟩ := f
  cases plus with
  | true => simp [text]
  | false => simpa [text] using hwritten

theorem text_length_pos (f : FieldText) : 0 < f.text.length :=
  List.length_pos_of_ne_nil f.text_ne_nil

/-- `str2ubigint` on a field and what follows it. -/
theorem str2ubigint_text (f : FieldText) {rest : WStr} (hrest : ∀ c ∈ rest.head?, digitOf c = none) :
    str2ubigint (f.text ++ rest) false =
      if f.digits = [] ∧ rest = [] then none
      else if f.value ≤ ullongMax then some (f.value, f.text.length) else none := by
  obtain ⟨plus, ds, hwritten⟩ := f
  rw [str2ubigint, if_neg (by simp [text_ne_nil])]
  dsimp only
  cases plus with
  | true =>
    have hloop := ubigintLoop_digits 1 0 ds rest hrest (Nat.zero_le _) (by norm_num)
    have hlone : 0x2B :: (digitUnits ds ++ rest) = [0x2B] ∨
        0x2B :: (digitUnits ds ++ rest) = [0x5B] ↔ ds = [] ∧ rest = [] := by simp
    show (if 0x2B :: (digitUnits ds ++ rest) = [0x2B] ∨ 0x2B :: (digitUnits ds ++ rest) = [0x5B]
      then none else ubigintLoop false 1 0 (digitUnits ds ++ rest)) = _
    have hlen : (FieldText.mk true ds hwritten).text.length = 1 + ds.length := by
      simp [text, Nat.add_comm]
    rw [if_congr hlone rfl rfl, hloop, hlen]
    rfl
  | false =>
    have hds : ds ≠ [] := by simpa using hwritten
    obtain ⟨d, ds, rfl⟩ := List.exists_cons_of_ne_nil hds
    have hloop := ubigintLoop_digits 0 0 (d :: ds) rest hrest (Nat.zero_le _) (by norm_num)
    obtain ⟨hplus, hbracket⟩ := digitUnit_ne d
    have hhead : ¬(digitUnits (d :: ds) ++ rest).head? = some 0x2B := by simpa using hplus
    have hlone : ¬(digitUnits (d :: ds) ++ rest = [0x2B] ∨
        digitUnits (d :: ds) ++ rest = [0x5B]) := by
      simp [hplus, hbracket]
    show (if digitUnits (d :: ds) ++ rest = [0x2B] ∨ digitUnits (d :: ds) ++ rest = [0x5B]
      then none else if (digitUnits (d :: ds) ++ rest).head? = some 0x2B
        then ubigintLoop false 1 0 (digitUnits (d :: ds) ++ rest).tail
        else ubigintLoop false 0 0 (digitUnits (d :: ds) ++ rest)) = _
    have hlen : (FieldText.mk false (d :: ds) hwritten).text.length = 0 + (d :: ds).length := by
      simp [text]
    rw [if_neg hlone, if_neg hhead, hloop, if_neg fun h : d :: ds = [] ∧ rest = [] ↦ hds h.1, hlen]
    rfl

/-- `parse_interval_field` on a field and what follows it. -/
theorem parseIntervalField_text (r : IvlRec) (limit : ℕ) (f : FieldText) (rest : WStr)
    (hrest : ∀ c ∈ rest.head?, digitOf c = none) (hlone : f.digits ≠ [] ∨ rest ≠ []) :
    parseIntervalField r limit (f.text ++ rest) =
      if f.Within r limit then .ok (f.value, rest)
      else .error (if f.value ≤ ulongMax ∧ limit = 0 then .s22018 else .s22015) := by
  have hpos := f.text_length_pos
  have hmax : ulongMax ≤ ullongMax := by decide
  have hread := f.str2ubigint_text hrest
  rw [if_neg (by tauto)] at hread
  have hdrop : (f.text ++ rest).drop f.text.length = rest := List.drop_left
  have hwithin : f.Within r limit ↔ f.value ≤ ulongMax ∧
      if limit = 0 then (f.text.length : ℤ) ≤ r.leading.toInt else f.value ≤ limit := Iff.rfl
  rw [parseIntervalField, hread, if_congr hwithin rfl rfl]
  by_cases hbig : f.value ≤ ullongMax
  · simp only [if_pos hbig, hdrop, if_neg hpos.ne']
    by_cases hfits : f.value ≤ ulongMax
    · by_cases hlimit : limit = 0
      · simp only [hlimit, hfits, true_and, if_true, if_neg (not_lt.mpr hfits)]
        split_ifs <;> first | rfl | omega
      · simp only [hlimit, hfits, true_and, and_false, if_false, if_neg (not_lt.mpr hfits)]
        split_ifs <;> first | rfl | omega
    · simp only [hfits, false_and, if_false, if_pos (lt_of_not_ge hfits)]
  · have hfits : ¬f.value ≤ ulongMax := fun h ↦ hbig (h.trans hmax)
    have hlong : ¬(f.text ++ rest = [] ∨ f.text ++ rest = [0x2B] ∨ f.text ++ rest = [0x5B]) := by
      have hdigits : f.digits.length ≠ 0 := by
        intro h
        rw [List.length_eq_zero_iff] at h
        exact hbig (by simp [value, h, Decimal.ofDigits])
      have hten : 1 < f.digits.length := by
        by_contra h
        have hlt := Decimal.ofDigits_lt f.digits
        rw [show f.digits.length = 1 by omega] at hlt
        exact hbig (hlt.le.trans (by decide))
      have hlen : 2 ≤ (f.text ++ rest).length := by
        simp only [text, List.length_append, digitUnits_length]
        omega
      rintro (h | h | h) <;> simp [h] at hlen
    simp only [if_neg hbig, hfits, false_and, if_false, if_neg hlong]

/-- What a text starts with: a field, or neither a digit nor a `+`. -/
theorem exists_text (w : WStr) :
    (∃ (f : FieldText) (rest : WStr), w = f.text ++ rest ∧ ∀ c ∈ rest.head?, digitOf c = none) ∨
      ∀ c ∈ w.head?, digitOf c = none ∧ c ≠ 0x2B := by
  cases w with
  | nil => exact .inr (by simp)
  | cons c w =>
    by_cases hplus : c = 0x2B
    · subst hplus
      obtain ⟨ds, rest, rfl, hrest⟩ := exists_digitUnits w
      exact .inl ⟨⟨true, ds, .inl rfl⟩, rest, rfl, hrest⟩
    · obtain ⟨ds, rest, hw, hrest⟩ := exists_digitUnits (c :: w)
      by_cases hds : ds = []
      · subst hds
        rw [digitUnits_nil, List.nil_append] at hw
        subst hw
        exact .inr fun x hx ↦ ⟨hrest x hx, by
          rw [List.head?_cons, Option.mem_some_iff] at hx
          exact hx ▸ hplus⟩
      · exact .inl ⟨⟨false, ds, .inr hds⟩, rest, hw, hrest⟩

/-- `parse_interval_field` where no field starts. -/
theorem parseIntervalField_other (r : IvlRec) (limit : ℕ) {w : WStr}
    (hw : ∀ c ∈ w.head?, digitOf c = none ∧ c ≠ 0x2B) :
    parseIntervalField r limit w = .error .s22018 := by
  cases w with
  | nil => rfl
  | cons c w =>
    obtain ⟨hdigit, hplus⟩ := hw c rfl
    have hhead : ¬(c :: w).head? = some 0x2B := by simpa using hplus
    have hloop : ubigintLoop false 0 0 (c :: w) = some (0, 0) := by simp [ubigintLoop, hdigit]
    rw [parseIntervalField, str2ubigint, if_neg (List.cons_ne_nil _ _)]
    dsimp only
    rw [if_neg hhead, hloop]
    by_cases hlone : c :: w = [0x2B] ∨ c :: w = [0x5B]
    · simp only [hlone, or_true, if_true]
    · simp only [if_neg hlone, if_true]

/-- What `parse_interval_field` accepts. -/
theorem parseIntervalField_eq_ok {r : IvlRec} {limit n : ℕ} {w rest : WStr} :
    parseIntervalField r limit w = .ok (n, rest) ↔
      ∃ f : FieldText, w = f.text ++ rest ∧ n = f.value ∧ f.Within r limit ∧
        (f.digits ≠ [] ∨ rest ≠ []) ∧ ∀ c ∈ rest.head?, digitOf c = none := by
  constructor
  · intro h
    rcases exists_text w with ⟨f, rest', rfl, hrest⟩ | hw
    · by_cases hlone : f.digits ≠ [] ∨ rest' ≠ []
      · rw [f.parseIntervalField_text r limit rest' hrest hlone] at h
        split at h
        · next hwithin =>
          rw [Except.ok.injEq, Prod.mk.injEq] at h
          obtain ⟨rfl, rfl⟩ := h
          exact ⟨f, rfl, rfl, hwithin, hlone, hrest⟩
        · cases h
      · push Not at hlone
        have hread := f.str2ubigint_text hrest
        rw [if_pos hlone] at hread
        rw [parseIntervalField, hread] at h
        cases h
    · rw [parseIntervalField_other r limit hw] at h
      cases h
  · rintro ⟨f, rfl, rfl, hwithin, hlone, hrest⟩
    rw [f.parseIntervalField_text r limit rest hrest hlone, if_pos hwithin]

end FieldText

/-! ## Seconds -/

/-- A field of seconds that the text ends after. -/
theorem parseIntervalSecond_whole {r : IvlRec} {limit : ℕ} {second : FieldText} (v : IntVal)
    (hdigits : second.digits ≠ []) (hwithin : second.Within r limit) :
    parseIntervalSecond r limit second.text v = .ok (.success, v.set second.value .second) := by
  have hfield := second.parseIntervalField_text r limit [] (by simp) (.inl hdigits)
  rw [List.append_nil, if_pos hwithin] at hfield
  rw [parseIntervalSecond, hfield]
  rfl

/-- A field of seconds with a point after it. -/
theorem parseIntervalSecond_point {r : IvlRec} {limit : ℕ} {second : FieldText} (rest : WStr)
    (v : IntVal) (hwithin : second.Within r limit) :
    parseIntervalSecond r limit (second.text ++ 0x2E :: rest) v =
      if rest = [] then .ok (.success, v.set second.value .second)
      else parseIvlSecFraction r rest (v.set second.value .second) := by
  have hfield := second.parseIntervalField_text r limit (0x2E :: rest) (by simp [digitOf])
    (.inr (List.cons_ne_nil _ _))
  rw [if_pos hwithin] at hfield
  rw [parseIntervalSecond, hfield]
  rfl

/-- A fraction that the text ends after. -/
theorem parseIvlSecFraction_text (r : IvlRec) (f : FieldText) (v : IntVal) (hdigits : f.digits ≠ []) :
    parseIvlSecFraction r f.text v =
      let adjusted := adjustToPrecision (Int16.ofNat r.precision) f.value (Int16.ofNat f.text.length)
      if f.value ≤ ulongMax then .ok (adjusted.2, { v with fraction := adjusted.1 % 2 ^ 32 })
      else .error .s22015 := by
  have hfield := f.parseIntervalField_text r ulongMax [] (by simp) (.inl hdigits)
  have hwithin : f.Within r ulongMax ↔ f.value ≤ ulongMax := and_self_iff
  rw [List.append_nil, if_congr hwithin rfl rfl] at hfield
  rw [parseIvlSecFraction, hfield]
  by_cases hle : f.value ≤ ulongMax
  · simp [hle]
  · simp [hle]

end EsOdbc
