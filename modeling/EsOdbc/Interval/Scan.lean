import EsOdbc.Interval.Duration

/-!
# How the loop reads a duration

Every number of a duration with its unit is one step from a state of the loop to the next,
or the end of it.  A step is taken on conditions on the number alone, and on the sign of
what was read before; the whole duration is read when each number is taken and no two
signs differ.
-/

namespace EsOdbc

open Decimal (ofDigits)

/-- A unit that ends a numeral. -/
def EndsNumeral (c : UInt16) : Prop := digitOf c = none ∧ signOf c = none ∧ c ≠ 0x2B ∧ c ≠ 0x5B

instance (c : UInt16) : Decidable (EndsNumeral c) := inferInstanceAs (Decidable (_ ∧ _))

theorem endsNumeral_letter (u : DurationUnit) (lower : Bool) : EndsNumeral (u.letter lower) := by
  cases u <;> cases lower <;> decide

namespace Amount

/-- The whole part, with its sign. -/
def bint (a : Amount) : ℤ := if a.negative then -(ofDigits a.whole : ℤ) else ofDigits a.whole

/-- `str2bigint` reads the whole part: a sign has digits after it, and the value fits. -/
def Fits (a : Amount) : Prop :=
  (a.sign.isSome = true → a.whole ≠ []) ∧
    ofDigits a.whole ≤ if a.negative then llongMin else llongMax

instance (a : Amount) : Decidable a.Fits := inferInstanceAs (Decidable (_ ∧ _))

end Amount

theorem signOf_signText (neg : Bool) : signOf (if neg then 0x2D else 0x2B) = some neg := by
  cases neg <;> decide

/-- `str2bigint` on the whole part of a number. -/
theorem str2bigint_amount (a : Amount) {c : UInt16} (rest : WStr) (hc : EndsNumeral c) :
    str2bigint (a.signText ++ (digitUnits a.whole ++ c :: rest)) false =
      if a.Fits then some (a.bint, (a.signText ++ digitUnits a.whole).length) else none := by
  obtain ⟨hdig, hsign, hplus, hlone⟩ := hc
  have hread := str2ubigint_digits a.whole c rest hdig hplus fun _ _ ↦ hlone
  have hle : llongMax ≤ ullongMax := by decide
  have hle' : llongMin ≤ ullongMax := by decide
  cases hs : a.sign with
  | none =>
    have hhead : (digitUnits a.whole ++ c :: rest).head?.bind signOf = none := by
      cases hw : a.whole with
      | nil => simpa using hsign
      | cons d ds => simpa using signOf_digitUnit d
    have hne : digitUnits a.whole ++ c :: rest ≠ [] := by simp
    simp only [Amount.signText, hs, Option.elim_none, List.nil_append, str2bigint, if_neg hne,
      hhead, Option.isSome_none, Bool.false_eq_true, if_false, List.drop_zero, hread,
      Amount.Fits, Amount.bint, Amount.negative, digitUnits_length]
    by_cases hfit : ofDigits a.whole ≤ llongMax
    · simp [if_pos (hfit.trans hle), hfit]
    · by_cases hbig : ofDigits a.whole ≤ ullongMax
      · simp [if_pos hbig, hfit]
      · simp [if_neg hbig, hfit]
  | some neg =>
    have hne : (if neg then 0x2D else 0x2B) :: (digitUnits a.whole ++ c :: rest) ≠ [] := by simp
    simp only [Amount.signText, hs, Option.elim_some, List.singleton_append, str2bigint,
      if_neg hne, List.head?_cons, Option.bind_some, signOf_signText, Option.isSome_some, if_true,
      List.drop_succ_cons, List.drop_zero, hread, Amount.Fits, Amount.bint, Amount.negative,
      List.length_cons, digitUnits_length]
    by_cases hw : a.whole = []
    · simp [hw, Decimal.ofDigits]
    · have hlen : a.whole.length ≠ 0 := by simpa using hw
      by_cases hbig : ofDigits a.whole ≤ ullongMax
      · cases neg
        · by_cases hfit : ofDigits a.whole ≤ llongMax <;> simp [hbig, hfit, hw]
        · by_cases hfit : ofDigits a.whole ≤ llongMin
          · simp [hbig, hfit, hw]
          · simp [hbig, hfit, hw]
      · have h1 : ¬ ofDigits a.whole ≤ llongMax := fun h ↦ hbig (h.trans hle)
        have h2 : ¬ ofDigits a.whole ≤ llongMin := fun h ↦ hbig (h.trans hle')
        cases neg <;> simp [hbig, h1, h2]

/-! ## One number -/

namespace Amount

/-- The fraction at the precision of the column, and the code that is returned with it. -/
def adjusted (p : Int16) (a : Amount) : ℕ × SqlReturn :=
  adjustToPrecision p (ofDigits a.digits) (Int16.ofNat a.digits.length)

/-- The return code with a number. -/
def ret (p : Int16) (a : Amount) : SqlReturn :=
  if a.frac.isSome then (a.adjusted p).2 else .success

/-- The fraction stored for a number, `n` without one. -/
def fraction (p : Int16) (a : Amount) (n : ℕ) : ℕ :=
  if a.frac.isSome then (a.adjusted p).1 % 2 ^ 32 else n

/-- What `parse_iso8601_number` has stored before it looks at the sign. -/
def read (p : Int16) (a : Amount) (s : IvlScan) : IvlScan :=
  { s with
    fraction := a.fraction p s.fraction
    last := some (a.ret p, a.frac.isSome) }

/-- The fraction is written with a `.` and fits 32 bits. -/
def FracFits (a : Amount) : Prop := ∀ f ∈ a.frac, f.1 = false ∧ ofDigits f.2 ≤ ulongMax

instance (a : Amount) : Decidable a.FracFits :=
  decidable_of_iff (∀ f ∈ a.frac.toList, f.1 = false ∧ ofDigits f.2 ≤ ulongMax)
    (by simp [FracFits])

theorem bint_of_empty {a : Amount} (h : (a.signText ++ digitUnits a.whole).length = 0) :
    a.bint = 0 := by
  have hw : a.whole = [] := by
    simp only [List.length_append, digitUnits_length, Nat.add_eq_zero_iff] at h
    exact List.length_eq_zero_iff.mp h.2
  simp [bint, hw, ofDigits]

end Amount

theorem endsNumeral_point : EndsNumeral 0x2E := by decide

theorem endsNumeral_comma : EndsNumeral 0x2C := by decide

/-- The unit after the whole part. -/
theorem getElem?_after (t : WStr) (c : UInt16) (rest : WStr) : (t ++ c :: rest)[t.length]? = some c := by
  simp

theorem drop_after (t : WStr) (c : UInt16) (rest : WStr) :
    (t ++ c :: rest).drop (t.length + 1) = rest := by
  simp [← List.drop_drop]

/-- A whole part with something but a point after it. -/
theorem parseIso8601Number_whole (p : Int16) (a : Amount) {c : UInt16} (rest : WStr)
    (s : IvlScan) (hc : EndsNumeral c) (hpoint : c ≠ 0x2E) :
    parseIso8601Number p (a.signText ++ (digitUnits a.whole ++ c :: rest)) s =
      if a.Fits then (takeNumber a.bint { s with last := some (.success, false) }).map
        fun s ↦ (s, (a.signText ++ digitUnits a.whole).length) else none := by
  have hnext := getElem?_after (a.signText ++ digitUnits a.whole) c rest
  rw [List.append_assoc] at hnext
  rw [parseIso8601Number, str2bigint_amount a rest hc]
  by_cases hfit : a.Fits
  · simp only [if_pos hfit, hnext, if_neg hpoint]
  · simp only [if_neg hfit]

/-- A whole part and a fraction after a point. -/
theorem parseIso8601Number_frac (p : Int16) (a : Amount) {ds : List (Fin 10)}
    {c : UInt16} (rest : WStr) (s : IvlScan) (hfrac : a.frac = some (false, ds))
    (hc : EndsNumeral c) :
    parseIso8601Number p
        (a.signText ++ (digitUnits a.whole ++ 0x2E :: (digitUnits ds ++ c :: rest))) s =
      if a.Fits ∧ ofDigits ds ≤ ulongMax then (takeNumber a.bint (a.read p s)).map
        fun s ↦ (s, a.text.length) else none := by
  obtain ⟨hdig, hsign, hplus, hlone⟩ := hc
  have hnext := getElem?_after (a.signText ++ digitUnits a.whole) 0x2E
    (digitUnits ds ++ c :: rest)
  have hdrop := drop_after (a.signText ++ digitUnits a.whole) 0x2E (digitUnits ds ++ c :: rest)
  have hdigits : a.digits = ds := by simp [Amount.digits, hfrac]
  have hsome : a.frac.isSome = true := by simp [hfrac]
  have hlen : a.text.length = (a.signText ++ digitUnits a.whole).length + (ds.length + 1) := by
    simp [Amount.text, Amount.fracText, hfrac, Nat.add_assoc]
  have hlong : ¬ (a.signText ++ (digitUnits a.whole ++ 0x2E ::
      (digitUnits ds ++ c :: rest))).length ≤ (a.signText ++ digitUnits a.whole).length + 1 := by
    simp only [List.length_append, List.length_cons]
    omega
  have hbint : (if (a.signText ++ digitUnits a.whole).length = 0 then 0 else a.bint) = a.bint := by
    split
    · next h => exact (Amount.bint_of_empty h).symm
    · rfl
  rw [List.append_assoc] at hnext hdrop
  rw [parseIso8601Number, str2bigint_amount a _ endsNumeral_point]
  by_cases hfit : a.Fits
  · simp only [if_pos hfit, hnext, if_true, hbint, parseFraction, if_neg hlong, hdrop,
      str2ubigint_digits ds c rest hdig hplus fun _ _ ↦ hlone]
    by_cases hbig : ofDigits ds ≤ ulongMax
    · have hbig' : ofDigits ds ≤ ullongMax := hbig.trans (by decide)
      simp only [if_pos hbig', if_neg (Nat.not_lt.mpr hbig), hfit, hbig, and_self, if_true,
        Amount.read, Amount.fraction, Amount.ret, Amount.adjusted, hsome, hdigits, hlen]
    · have hno : ¬ (a.Fits ∧ ofDigits ds ≤ ulongMax) := fun h ↦ hbig h.2
      by_cases hbig' : ofDigits ds ≤ ullongMax
      · simp only [if_pos hbig', if_pos (Nat.lt_of_not_le hbig), if_neg hno]
      · simp only [if_neg hbig', if_neg hno]
  · simp only [if_neg hfit, if_neg fun h : a.Fits ∧ _ ↦ hfit h.1]

/-- `parse_iso8601_number` on a number without a comma. -/
theorem parseIso8601Number_amount (p : Int16) (a : Amount) {c : UInt16} (rest : WStr)
    (s : IvlScan) (hcomma : ∀ f ∈ a.frac, f.1 = false) (hc : EndsNumeral c) (hpoint : c ≠ 0x2E) :
    parseIso8601Number p (a.text ++ c :: rest) s =
      if a.Fits ∧ a.FracFits then (takeNumber a.bint (a.read p s)).map
        fun s ↦ (s, a.text.length) else none := by
  cases hfrac : a.frac with
  | none =>
    have hfits : a.FracFits := by simp [Amount.FracFits, hfrac]
    have htext : a.text = a.signText ++ digitUnits a.whole := by
      simp [Amount.text, Amount.fracText, hfrac]
    have hread : a.read p s = { s with last := some (.success, false) } := by
      simp [Amount.read, Amount.fraction, Amount.ret, hfrac]
    rw [htext, List.append_assoc, parseIso8601Number_whole p a rest s hc hpoint, hread]
    simp only [hfits, and_true]
  | some f =>
    obtain ⟨comma, ds⟩ := f
    obtain rfl : comma = false := hcomma _ hfrac
    have hfits : a.FracFits ↔ ofDigits ds ≤ ulongMax := by simp [Amount.FracFits, hfrac]
    have htext : a.text ++ c :: rest =
        a.signText ++ (digitUnits a.whole ++ 0x2E :: (digitUnits ds ++ c :: rest)) := by
      simp [Amount.text, Amount.fracText, hfrac]
    rw [htext, parseIso8601Number_frac p a rest s hfrac hc]
    simp only [hfits]

namespace Amount

/-- `uint`. -/
def uint (a : Amount) : ℕ := if ofDigits a.whole = llongMin then 0 else ofDigits a.whole

/-- `inc`. -/
def inc (a : Amount) : ℤ := if a.bint < 0 then -1 else 1

/-- The whole part fits 32 bits, or it is the one number whose negation does not change
it. -/
def Small (a : Amount) : Prop :=
  ofDigits a.whole ≤ ulongMax ∨ a.negative = true ∧ ofDigits a.whole = llongMin

instance (a : Amount) : Decidable a.Small := inferInstanceAs (Decidable (_ ∨ _))

/-- The sign is the one of what was read before. -/
def SignFits (a : Amount) (s : IvlScan) : Prop := s.sign = 0 ∨ (a.bint < 0 ↔ s.sign < 0)

instance (a : Amount) (s : IvlScan) : Decidable (a.SignFits s) :=
  inferInstanceAs (Decidable (_ ∨ _))

theorem inc_neg {a : Amount} : a.inc < 0 ↔ a.bint < 0 := by
  unfold inc
  split <;> simp_all

theorem bint_of_small {a : Amount} (h : ofDigits a.whole ≤ ulongMax) :
    (if a.bint < 0 then (-a.bint).bmod (2 ^ 64) else a.bint) = ofDigits a.whole := by
  have hmax : ulongMax = 2 ^ 32 - 1 := rfl
  unfold bint
  cases a.negative
  · simp
  · rw [if_pos rfl]
    split
    · rw [neg_neg, Int.bmod_eq_of_le] <;> omega
    · omega

theorem bint_of_llongMin {a : Amount} (hneg : a.negative = true) (h : ofDigits a.whole = llongMin) :
    (if a.bint < 0 then (-a.bint).bmod (2 ^ 64) else a.bint) = -(2 ^ 63) := by
  simp [bint, hneg, h, llongMin]

end Amount

/-- What is taken over of a whole part that `str2bigint` has read. -/
theorem takeNumber_bint {a : Amount} (hfit : a.Fits) (s : IvlScan) :
    takeNumber a.bint s = if a.Small ∧ a.SignFits s
      then some { s with uint := a.uint, sign := s.sign + a.inc } else none := by
  have hmax : ulongMax = 2 ^ 32 - 1 := rfl
  have hmin : llongMin = 2 ^ 63 := rfl
  have hlmax : llongMax = 2 ^ 63 - 1 := rfl
  have hinc : (if a.bint < 0 then (-1 : ℤ) else 1) = a.inc := rfl
  have hsign : (s.sign ≠ 0 ∧ decide (a.inc < 0) ≠ decide (s.sign < 0)) ↔ ¬ a.SignFits s := by
    rw [Amount.SignFits, ← Amount.inc_neg]
    simp only [ne_eq, decide_eq_decide, not_or]
  by_cases hsmall : ofDigits a.whole ≤ ulongMax
  · have huint : a.uint = ofDigits a.whole := if_neg (by omega)
    have hmod : ((ofDigits a.whole : ℤ) % 2 ^ 32).toNat = ofDigits a.whole := by omega
    have hle : ¬ (ulongMax : ℤ) < ofDigits a.whole := by omega
    have hs : a.Small := .inl hsmall
    simp only [takeNumber, Amount.bint_of_small hsmall, if_neg hle, hmod, huint, hs, true_and,
      hinc, hsign, ite_not]
  · by_cases hlow : a.negative = true ∧ ofDigits a.whole = llongMin
    · have huint : a.uint = 0 := if_pos hlow.2
      have hmod : ((-(2 ^ 63) : ℤ) % 2 ^ 32).toNat = 0 := by norm_num
      have hle : ¬ (ulongMax : ℤ) < -(2 ^ 63) := by omega
      have hs : a.Small := .inr hlow
      simp only [takeNumber, Amount.bint_of_llongMin hlow.1 hlow.2, if_neg hle, hmod, huint, hs,
        true_and, hinc, hsign, ite_not]
    · have hlarge : (ulongMax : ℤ) <
          if a.bint < 0 then (-a.bint).bmod (2 ^ 64) else a.bint := by
        have hfits := hfit.2
        unfold Amount.bint
        cases hneg : a.negative <;> simp only [hneg, true_and, if_true, Bool.false_eq_true,
          if_false] at hlow hfits ⊢
        · rw [if_neg (by omega)]
          omega
        · rw [if_pos (by omega), neg_neg, Int.bmod_eq_of_le] <;> omega
      have hs : ¬ a.Small := not_or.mpr ⟨hsmall, hlow⟩
      simp only [takeNumber, if_pos hlarge, hs, false_and, if_false]

/-! ## One turn -/

/-- The state the loop is in where numbers with a unit stand. -/
def DurationUnit.home : DurationUnit → IvlState
  | .year | .month | .week | .day => .period
  | .hour | .minute | .second => .time

/-- The state after a number and its unit. -/
def IvlScan.put (p : Int16) (f : IvlField) (a : Amount) (s : IvlScan) : IvlScan where
  state := s.state
  saved := s.state
  sign := s.sign + a.inc
  uint := a.uint
  fraction := a.fraction p s.fraction
  last := some (a.ret p, a.frac.isSome)
  fields := insert f s.fields
  intval :=
    let v := s.intval.set a.uint f
    if a.frac.isSome then { v with fraction := a.fraction p s.fraction } else v

/-- A number of a unit is taken: digits follow a sign, the whole part is small, and only
seconds have a fraction. -/
structure Amount.Taken (u : DurationUnit) (a : Amount) : Prop where
  field : u ≠ .week
  sign : a.sign.isSome = true → a.whole ≠ []
  small : a.Small
  seconds : a.frac.isSome = true → u = .second
  frac : a.FracFits

theorem Amount.taken_iff {u : DurationUnit} {a : Amount} :
    a.Taken u ↔ u ≠ .week ∧ (a.sign.isSome = true → a.whole ≠ []) ∧ a.Small ∧
      (a.frac.isSome = true → u = .second) ∧ a.FracFits :=
  ⟨fun h ↦ ⟨h.field, h.sign, h.small, h.seconds, h.frac⟩,
    fun h ↦ ⟨h.1, h.2.1, h.2.2.1, h.2.2.2.1, h.2.2.2.2⟩⟩

instance (u : DurationUnit) (a : Amount) : Decidable (a.Taken u) :=
  decidable_of_iff _ Amount.taken_iff.symm

theorem Amount.fits_of_taken {u : DurationUnit} {a : Amount} (h : a.Taken u) : a.Fits := by
  have hmax : ulongMax = 2 ^ 32 - 1 := rfl
  have hmin : llongMin = 2 ^ 63 := rfl
  have hlmax : llongMax = 2 ^ 63 - 1 := rfl
  refine ⟨h.sign, ?_⟩
  rcases h.small with hs | ⟨hneg, hs⟩
  · split <;> omega
  · rw [if_pos hneg]
    exact hs.le

/-- One number with its unit, from a state of the loop to the next. -/
def stepAmount (p : Int16) (s : IvlScan) (x : DurationUnit × Amount) : Option IvlScan :=
  x.1.field.bind fun f ↦
    if x.2.Taken x.1 ∧ x.2.SignFits s ∧ f ∉ s.fields then some (s.put p f x.2) else none

theorem ivlLoop_skip (p : Int16) (t rest : WStr) (s : IvlScan) :
    ivlLoop p t.length (t ++ rest) s = ivlLoop p 0 rest s := by
  induction t with
  | nil => rfl
  | cons c t ih => exact ih

/-- A turn that moves on over `t`. -/
theorem ivlLoop_turn {p : Int16} {t rest : WStr} {s : IvlScan} (ht : t ≠ [])
    {r : Option IvlScan} (hr : ∀ c ∈ t.head?, ivlTurn p (t ++ rest) s (ivlUnit c) =
      r.map fun s ↦ (s, t.length)) :
    ivlLoop p 0 (t ++ rest) s = r.bind (ivlLoop p 0 rest) := by
  cases t with
  | nil => exact absurd rfl ht
  | cons c t =>
    have h := hr c rfl
    rw [List.cons_append] at h ⊢
    rw [ivlLoop, h]
    cases r with
    | none => rfl
    | some s => exact ivlLoop_skip p t rest s

/-- The class of a letter. -/
def DurationUnit.unit : DurationUnit → IvlUnit
  | .year => .y
  | .month | .minute => .m
  | .week => .other
  | .day => .d
  | .hour => .h
  | .second => .s

theorem ivlUnit_letter (u : DurationUnit) (lower : Bool) : ivlUnit (u.letter lower) = u.unit := by
  cases u <;> cases lower <;> decide

theorem letter_ne_point (u : DurationUnit) (lower : Bool) : u.letter lower ≠ 0x2E := by
  cases u <;> cases lower <;> decide

theorem home_cases (u : DurationUnit) : u.home = .period ∨ u.home = .time := by
  cases u <;> decide

theorem ivlUnit_digitUnit (d : Fin 10) : ivlUnit (digitUnit d) = .number := by
  revert d
  decide

/-- A whole part starts with a unit of a number. -/
theorem ivlUnit_whole (a : Amount) :
    ∀ c ∈ (a.signText ++ digitUnits a.whole).head?, ivlUnit c = .number := by
  intro c hc
  rcases hs : a.sign with _ | neg
  · rcases hw : a.whole with _ | ⟨d, ds⟩
    · simp [Amount.signText, hs, hw] at hc
    · simp only [Amount.signText, hs, hw, Option.elim_none, digitUnits_cons, List.nil_append,
        List.head?_cons, Option.mem_def, Option.some.injEq] at hc
      exact hc ▸ ivlUnit_digitUnit d
  · simp only [Amount.signText, hs, Option.elim_some, List.cons_append, List.head?_cons,
      Option.mem_def, Option.some.injEq] at hc
    subst hc
    cases neg <;> decide

/-- So does a number without a comma. -/
theorem ivlUnit_amount {a : Amount} (hcomma : ∀ f ∈ a.frac, f.1 = false) :
    a.text ≠ [] ∧ ∀ c ∈ a.text.head?, ivlUnit c = .number := by
  have hwhole := ivlUnit_whole a
  rw [Amount.text, ← List.append_assoc]
  cases ht : a.signText ++ digitUnits a.whole with
  | nil =>
    have hw : a.whole = [] := by
      rw [List.append_eq_nil_iff] at ht
      simpa using congrArg List.length ht.2
    rcases hf : a.frac with _ | ⟨comma, ds⟩
    · exact absurd a.written (by simp [hw, hf])
    · obtain rfl : comma = false := hcomma _ hf
      simp only [Amount.fracText, hf, Option.elim_some, List.nil_append, Bool.false_eq_true,
        if_false]
      refine ⟨List.cons_ne_nil _ _, ?_⟩
      rintro c ⟨⟩
      decide
  | cons c t =>
    rw [ht] at hwhole
    exact ⟨List.cons_ne_nil _ _, hwhole⟩

/-- The letter of a unit, after a number that was read where it stands. -/
theorem ivlTurn_letter (p : Int16) (text : WStr) (u : DurationUnit) (lower : Bool)
    {s : IvlScan} (hsaved : s.saved = u.home) :
    ivlTurn p text s (ivlUnit (u.letter lower)) =
      (u.field.bind fun f ↦ (assignField u.home f s).map fun s ↦
        if f = .second ∧ s.last.any (·.2) then
          { s with intval := { s.intval with fraction := s.fraction } } else s).map (·, 1) := by
  rw [ivlUnit_letter]
  cases u <;> simp [ivlTurn, DurationUnit.unit, DurationUnit.field, DurationUnit.home, hsaved,
    Function.comp_def]

/-- The state after a number, before its unit. -/
def afterNumber (p : Int16) (a : Amount) (s : IvlScan) : IvlScan :=
  { a.read p s with
    uint := a.uint
    sign := s.sign + a.inc
    saved := s.state
    state := .number }

/-- A turn on a number without a comma. -/
theorem ivlTurn_number (p : Int16) (a : Amount) {c : UInt16} (rest : WStr) {s : IvlScan}
    (hcomma : ∀ f ∈ a.frac, f.1 = false) (hc : EndsNumeral c) (hpoint : c ≠ 0x2E)
    (hs : s.state = .period ∨ s.state = .time) :
    ivlTurn p (a.text ++ c :: rest) s .number =
      (if (a.Fits ∧ a.FracFits) ∧ a.Small ∧ a.SignFits s then some (afterNumber p a s)
        else none).map fun s ↦ (s, a.text.length) := by
  have hstate : ¬ (s.state ≠ .period ∧ s.state ≠ .time) := by tauto
  rw [ivlTurn, if_neg hstate, parseIso8601Number_amount p a rest s hcomma hc hpoint]
  by_cases hfit : a.Fits ∧ a.FracFits
  · have hsign : a.SignFits (a.read p s) ↔ a.SignFits s := Iff.rfl
    rw [if_pos hfit, takeNumber_bint hfit.1]
    by_cases h : a.Small ∧ a.SignFits s
    · rw [if_pos ⟨h.1, hsign.mpr h.2⟩, if_pos ⟨hfit, h⟩]
      rfl
    · rw [if_neg fun h' ↦ h ⟨h'.1, hsign.mp h'.2⟩, if_neg fun h' ↦ h h'.2]
      rfl
  · rw [if_neg hfit, if_neg fun h ↦ hfit h.1]
    rfl

/-- The unit of a number that was read, as a step. -/
theorem assignField_afterNumber (p : Int16) {u : DurationUnit} (a : Amount) {s : IvlScan}
    (f : IvlField) (hf : u.field = some f) (hs : s.state = u.home) :
    ((assignField u.home f (afterNumber p a s)).map fun s ↦
        if f = .second ∧ s.last.any (·.2) then
          { s with intval := { s.intval with fraction := s.fraction } } else s) =
      if (a.frac.isSome = true → u = .second) ∧ f ∉ s.fields then some (s.put p f a)
      else none := by
  have hu : f = .second ↔ u = .second := by
    cases u <;> simp only [DurationUnit.field, Option.some.injEq, reduceCtorEq] at hf <;>
      subst hf <;> decide
  have hnum : ¬ ((afterNumber p a s).state ≠ .number ∨
      (afterNumber p a s).saved ≠ u.home) := by
    simp [afterNumber, hs]
  have hlast : (afterNumber p a s).last.any (·.2) = a.frac.isSome := rfl
  have hfields : (afterNumber p a s).fields = s.fields := rfl
  rw [assignField, if_neg hnum, hlast, hfields]
  by_cases hfrac : a.frac.isSome = true → u = .second
  · have h : ¬ (f ≠ .second ∧ a.frac.isSome = true) := by tauto
    rw [if_neg h]
    by_cases hmem : f ∈ s.fields
    · rw [if_pos hmem, if_neg fun h ↦ h.2 hmem]
      rfl
    · rw [if_neg hmem, if_pos ⟨hfrac, hmem⟩, Option.map_some]
      have hput : f = .second ∧ a.frac.isSome = true ↔ a.frac.isSome = true := by tauto
      simp only [hlast, hput, IvlScan.put]
      split <;> rfl
  · have h : f ≠ .second ∧ a.frac.isSome = true := by tauto
    rw [if_pos h, if_neg fun h' ↦ hfrac h'.1]
    rfl

/-- A number with a comma is refused. -/
theorem ivlLoop_comma (p : Int16) {a : Amount} {ds : List (Fin 10)} (rest : WStr)
    {s : IvlScan} (hfrac : a.frac = some (true, ds)) (hs : s.state = .period ∨ s.state = .time) :
    ivlLoop p 0 (a.text ++ rest) s = none := by
  have hstop (rest : WStr) (s : IvlScan) : ivlLoop p 0 (0x2C :: rest) s = none := by
    rw [ivlLoop, (by decide : ivlUnit 0x2C = .other)]
    rfl
  have htext : a.text ++ rest =
      (a.signText ++ digitUnits a.whole) ++ 0x2C :: (digitUnits ds ++ rest) := by
    simp [Amount.text, Amount.fracText, hfrac]
  rw [htext]
  by_cases hne : a.signText ++ digitUnits a.whole = []
  · rw [hne]
    exact hstop _ _
  · have hstate : ¬ (s.state ≠ .period ∧ s.state ≠ .time) := by tauto
    rw [ivlLoop_turn hne (r := if a.Fits then
      (takeNumber a.bint { s with last := some (.success, false) }).map
        fun s ↦ { s with saved := s.state, state := .number } else none), Option.bind_eq_none_iff]
    · exact fun s _ ↦ hstop _ s
    · intro c hc
      rw [ivlUnit_whole a c hc, ivlTurn, if_neg hstate, List.append_assoc,
        parseIso8601Number_whole p a _ s endsNumeral_comma (by decide)]
      by_cases hfit : a.Fits
      · simp only [if_pos hfit, Option.map_map]
        rfl
      · simp only [if_neg hfit, Option.map_none]

/-- A number with its unit, where it stands, is one step. -/
theorem ivlLoop_amount (p : Int16) (x : DurationUnit × Amount) (rest : WStr)
    {s : IvlScan} (hs : s.state = x.1.home) :
    ivlLoop p 0 (Duration.amountText x ++ rest) s =
      (stepAmount p s x).bind (ivlLoop p 0 rest) := by
  obtain ⟨u, a⟩ := x
  simp only at hs
  have hstate : s.state = .period ∨ s.state = .time := hs ▸ home_cases u
  rw [Duration.amountText, List.append_assoc]
  by_cases hcomma : ∀ f ∈ a.frac, f.1 = false
  · obtain ⟨hne, hunit⟩ := ivlUnit_amount hcomma
    have hend := endsNumeral_letter u a.lower
    rw [ivlLoop_turn hne fun c hc ↦ by
      rw [hunit c hc, List.singleton_append,
        ivlTurn_number p a rest hcomma hend (letter_ne_point u a.lower) hstate]]
    by_cases hnum : (a.Fits ∧ a.FracFits) ∧ a.Small ∧ a.SignFits s
    · rw [if_pos hnum, Option.bind_some, ivlLoop_turn (List.cons_ne_nil _ _) fun c hc ↦ by
        obtain rfl : u.letter a.lower = c := Option.some.inj hc
        exact ivlTurn_letter p _ u a.lower (s := afterNumber p a s) hs]
      congr 1
      cases hf : u.field with
      | none => simp only [stepAmount, hf, Option.bind_none]
      | some f =>
        rw [stepAmount, hf, Option.bind_some, Option.bind_some,
          assignField_afterNumber p a f hf hs]
        refine if_congr ⟨?_, ?_⟩ rfl rfl
        · rintro ⟨hsec, hmem⟩
          refine ⟨⟨?_, hnum.1.1.1, hnum.2.1, hsec, hnum.1.2⟩, hnum.2.2, hmem⟩
          rintro rfl
          cases hf
        · exact fun h ↦ ⟨h.1.seconds, h.2.2⟩
    · have hno (f : IvlField) : ¬ (a.Taken u ∧ a.SignFits s ∧ f ∉ s.fields) :=
        fun h ↦ hnum ⟨⟨Amount.fits_of_taken h.1, h.1.frac⟩, h.1.small, h.2.1⟩
      simp only [if_neg hnum, stepAmount, if_neg (hno _), Option.bind_fun_none, Option.bind_none]
  · obtain ⟨⟨comma, ds⟩, hfrac, hc⟩ : ∃ f, a.frac = some f ∧ f.1 = true := by
      simpa using hcomma
    obtain rfl : comma = true := hc
    have hno (f : IvlField) : ¬ (a.Taken u ∧ a.SignFits s ∧ f ∉ s.fields) :=
      fun h ↦ hcomma fun f hf ↦ (h.1.frac f hf).1
    rw [ivlLoop_comma p _ hfrac hstate]
    simp only [stepAmount, if_neg (hno _), Option.bind_fun_none, Option.bind_none]

end EsOdbc
