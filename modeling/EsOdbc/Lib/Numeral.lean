import EsOdbc.Lib.Decimal

/-!
# Numbers in decimal notation

A number as C and JSON write it: a sign, digits, digits after a point and a power of ten.  Its
text is one of UTF-16 units; `scan` reads the longest such text at the start of another.
-/

namespace Decimal

/-- The unit of a digit. -/
def unit (d : Fin 10) : UInt16 := UInt16.ofNat (0x30 + d)

/-- The digit a unit is. -/
def ofUnit (c : UInt16) : Option (Fin 10) :=
  if h : 0x30 ≤ c ∧ c ≤ 0x39 then
    some ⟨c.toNat - 0x30, by
      have hhi : c.toNat ≤ 0x39 := UInt16.le_iff_toNat_le.mp h.2
      omega⟩
  else none

/-- The text of a sign: whether it is `-`. -/
def signText (sign : Option Bool) : List UInt16 :=
  sign.elim [] fun neg ↦ [if neg then 0x2D else 0x2B]

/-- The power of ten behind a number. -/
structure Exponent where
  /-- Whether the letter is in upper case. -/
  upper : Bool
  sign : Option Bool
  digits : List (Fin 10)
  written : digits ≠ []
deriving DecidableEq

def Exponent.text (e : Exponent) : List UInt16 :=
  (if e.upper then 0x45 else 0x65) :: (signText e.sign ++ e.digits.map unit)

def Exponent.value (e : Exponent) : ℤ :=
  if e.sign = some true then -(ofDigits e.digits : ℤ) else ofDigits e.digits

/-- A number in decimal notation. -/
structure Numeral where
  sign : Option Bool
  whole : List (Fin 10)
  /-- The digits after a point. -/
  frac : Option (List (Fin 10))
  exp : Option Exponent
  written : whole ≠ [] ∨ frac.getD [] ≠ []
deriving DecidableEq

namespace Numeral

def text (n : Numeral) : List UInt16 :=
  signText n.sign ++ (n.whole.map unit ++ ((n.frac.elim [] fun ds ↦ 0x2E :: ds.map unit) ++
    n.exp.elim [] Exponent.text))

/-- The number without its sign. -/
def magnitude (n : Numeral) : ℚ :=
  ofDigits (n.whole ++ n.frac.getD []) *
    (10 : ℚ) ^ (n.exp.elim 0 Exponent.value - (n.frac.getD []).length)

def value (n : Numeral) : ℚ := if n.sign = some true then -n.magnitude else n.magnitude

/-- What JSON has of the notation: no `+`, digits before the point and after it, and no `0`
before other digits. -/
@[mk_iff]
structure IsJson (n : Numeral) : Prop where
  sign : n.sign ≠ some false
  whole : n.whole ≠ []
  lead : n.whole.head? = some (digit 0) → n.whole.length = 1
  frac : n.frac ≠ some []

instance (n : Numeral) : Decidable n.IsJson :=
  decidable_of_iff _ n.isJson_iff.symm

/-- The numeral of an integer. -/
def ofInt (z : ℤ) : Numeral where
  sign := if z < 0 then some true else none
  whole := digits z.natAbs
  frac := none
  exp := none
  written := .inl (digits_ne_nil _)

@[simp] theorem value_ofInt (z : ℤ) : (ofInt z).value = z := by
  have hmag : (ofInt z).magnitude = (z.natAbs : ℚ) := by
    simp [magnitude, ofInt]
  rw [value, hmag, Nat.cast_natAbs]
  by_cases hz : z < 0
  · rw [if_pos (show (ofInt z).sign = some true from if_pos hz), abs_of_neg hz]
    push_cast
    ring
  · rw [if_neg (show (ofInt z).sign ≠ some true by simp [ofInt, hz]),
      abs_of_nonneg (not_lt.mp hz)]

theorem isJson_ofInt (z : ℤ) : (ofInt z).IsJson where
  sign := by
    show (if z < 0 then some true else none) ≠ some false
    split
    · simp
    · simp
  whole := digits_ne_nil _
  lead := by
    intro h
    show (digits z.natAbs).length = 1
    rw [head_digits h, digits_zero, List.length_singleton]
  frac := by simp [ofInt]

/-- The text of an integer. -/
theorem text_ofInt (z : ℤ) :
    (ofInt z).text = (if z < 0 then [0x2D] else []) ++ (digits z.natAbs).map unit := by
  unfold text ofInt signText
  by_cases hz : z < 0 <;> simp [hz]

/-! ## Reading -/

end Numeral

/-- The sign at the start of a text, and what follows. -/
def takeSign : List UInt16 → Option Bool × List UInt16
  | [] => (none, [])
  | c :: w =>
    if c = 0x2D then (some true, w) else if c = 0x2B then (some false, w) else (none, c :: w)

/-- The digits at the start of a text, and what follows. -/
def takeDigits : List UInt16 → List (Fin 10) × List UInt16
  | [] => ([], [])
  | c :: w =>
    match ofUnit c with
    | none => ([], c :: w)
    | some d => (d :: (takeDigits w).1, (takeDigits w).2)

/-- The point and the digits behind it. -/
def takeFrac : List UInt16 → Option (List (Fin 10)) × List UInt16
  | [] => (none, [])
  | c :: w => if c = 0x2E then (some (takeDigits w).1, (takeDigits w).2) else (none, c :: w)

/-- Whether a unit is the letter of an exponent. -/
def isExpLetter (c : UInt16) : Bool := c = 0x65 || c = 0x45

/-- The power of ten, when digits stand behind its letter. -/
def takeExp : List UInt16 → Option Exponent × List UInt16
  | [] => (none, [])
  | c :: w =>
    if isExpLetter c then
      let digits := takeDigits (takeSign w).2
      if h : digits.1 = [] then (none, c :: w)
      else (some ⟨c = 0x45, (takeSign w).1, digits.1, h⟩, digits.2)
    else (none, c :: w)

/-- The longest numeral at the start of a text, and what follows. -/
def scan (w : List UInt16) : Option (Numeral × List UInt16) :=
  let sign := takeSign w
  let whole := takeDigits sign.2
  let frac := takeFrac whole.2
  let exp := takeExp frac.2
  if h : whole.1 ≠ [] ∨ frac.1.getD [] ≠ [] then
    some (⟨sign.1, whole.1, frac.1, exp.1, h⟩, exp.2)
  else none

@[simp] theorem ofUnit_unit (d : Fin 10) : ofUnit (unit d) = some d := by
  revert d
  decide

theorem ofUnit_eq_some {c : UInt16} {d : Fin 10} (h : ofUnit c = some d) : c = unit d := by
  unfold ofUnit at h
  split at h
  · next hc =>
    obtain ⟨hlo, hhi⟩ := hc
    rw [UInt16.le_iff_toNat_le] at hlo hhi
    have hlo : 0x30 ≤ c.toNat := hlo
    have hhi : c.toNat ≤ 0x39 := hhi
    obtain rfl := Option.some.inj h
    rw [← UInt16.toNat_inj, unit, UInt16.toNat_ofNat']
    dsimp only
    omega
  · cases h

theorem takeSign_append (w : List UInt16) : signText (takeSign w).1 ++ (takeSign w).2 = w := by
  cases w with
  | nil => rfl
  | cons c w =>
    rw [takeSign]
    split_ifs with h1 h2
    · rw [h1]; rfl
    · rw [h2]; rfl
    · rfl

theorem takeDigits_append (w : List UInt16) :
    (takeDigits w).1.map unit ++ (takeDigits w).2 = w := by
  induction w with
  | nil => rfl
  | cons c w ih =>
    rw [takeDigits]
    cases hc : ofUnit c with
    | none => rfl
    | some d =>
      show unit d :: ((takeDigits w).1.map unit ++ (takeDigits w).2) = c :: w
      rw [ih, ofUnit_eq_some hc]

theorem takeFrac_append (w : List UInt16) :
    ((takeFrac w).1.elim [] fun ds ↦ 0x2E :: ds.map unit) ++ (takeFrac w).2 = w := by
  cases w with
  | nil => rfl
  | cons c w =>
    rw [takeFrac]
    split_ifs with hc
    · show 0x2E :: ((takeDigits w).1.map unit ++ (takeDigits w).2) = c :: w
      rw [takeDigits_append, hc]
    · rfl

theorem takeExp_append (w : List UInt16) :
    (takeExp w).1.elim [] Exponent.text ++ (takeExp w).2 = w := by
  cases w with
  | nil => rfl
  | cons c w =>
    rw [takeExp]
    split_ifs with hc
    · dsimp only
      split_ifs with hds
      · rfl
      · have hletter : (if decide (c = 0x45) then 0x45 else 0x65) = c := by
          by_cases hupper : c = 0x45
          · simp [hupper]
          · simpa [isExpLetter, hupper, eq_comm] using hc
        show (if decide (c = 0x45) then 0x45 else 0x65) :: ((signText (takeSign w).1 ++
          (takeDigits (takeSign w).2).1.map unit) ++ (takeDigits (takeSign w).2).2) = c :: w
        rw [hletter, List.append_assoc, takeDigits_append, takeSign_append]
    · rfl

/-- What is read is the text of the numeral. -/
theorem scan_eq_some {w rest : List UInt16} {n : Numeral} (h : scan w = some (n, rest)) :
    w = n.text ++ rest := by
  unfold scan at h
  dsimp only at h
  split at h
  · rw [Option.some.injEq, Prod.mk.injEq] at h
    obtain ⟨rfl, rfl⟩ := h
    simp only [Numeral.text, List.append_assoc]
    rw [takeExp_append, takeFrac_append, takeDigits_append, takeSign_append]
  · cases h

/-- Digits are read up to a unit that is none. -/
theorem takeDigits_map (ds : List (Fin 10)) {rest : List UInt16}
    (h : ∀ c ∈ rest.head?, ofUnit c = none) : takeDigits (ds.map unit ++ rest) = (ds, rest) := by
  induction ds with
  | nil =>
    cases rest with
    | nil => rfl
    | cons c rest => simp [takeDigits, h c rfl]
  | cons d ds ih => simp [takeDigits, ih]

theorem takeSign_signText (sign : Option Bool) {rest : List UInt16}
    (h : ∀ c ∈ rest.head?, c ≠ 0x2D ∧ c ≠ 0x2B) :
    takeSign (signText sign ++ rest) = (sign, rest) := by
  cases sign with
  | none =>
    cases rest with
    | nil => rfl
    | cons c rest => simp [takeSign, signText, h c rfl]
  | some neg => cases neg <;> simp [takeSign, signText]

theorem unit_ne_sign (d : Fin 10) : unit d ≠ 0x2D ∧ unit d ≠ 0x2B := by
  revert d
  decide

theorem Exponent.head_text (e : Exponent) : ∃ c w, e.text = c :: w ∧ isExpLetter c = true := by
  refine ⟨_, _, rfl, ?_⟩
  cases e.upper <;> decide

theorem takeExp_text (e : Exponent) : takeExp e.text = (some e, []) := by
  obtain ⟨upper, sign, ds, hds⟩ := e
  have hsign : takeSign (signText sign ++ ds.map unit) = (sign, ds.map unit) := by
    refine takeSign_signText sign ?_
    cases ds with
    | nil => exact absurd rfl hds
    | cons d ds => simpa using unit_ne_sign d
  have hdigits : takeDigits (ds.map unit) = (ds, []) := by
    have := @takeDigits_map ds [] (by simp)
    rwa [List.append_nil] at this
  cases upper <;> simp [Exponent.text, takeExp, isExpLetter, hsign, hdigits, hds]

/-- The text of a numeral is read as the numeral. -/
theorem scan_text (n : Numeral) : scan n.text = some (n, []) := by
  obtain ⟨sign, whole, frac, exp, hwritten⟩ := n
  have hletter {c : UInt16} (hc : isExpLetter c = true) :
      ofUnit c = none ∧ c ≠ 0x2E ∧ c ≠ 0x2D ∧ c ≠ 0x2B := by
    simp only [isExpLetter, Bool.or_eq_true, decide_eq_true_eq] at hc
    rcases hc with rfl | rfl <;> decide
  have htail : ∀ c ∈ (exp.elim [] Exponent.text).head?, isExpLetter c = true := by
    cases exp with
    | none => simp
    | some e =>
      obtain ⟨c, w, he, hc⟩ := e.head_text
      simp [he, hc]
  have hexp : takeExp (exp.elim [] Exponent.text) = (exp, []) := by
    cases exp with
    | none => rfl
    | some e => exact takeExp_text e
  have hfrac : takeFrac ((frac.elim [] fun ds ↦ 0x2E :: ds.map unit) ++
      exp.elim [] Exponent.text) = (frac, exp.elim [] Exponent.text) := by
    cases frac with
    | none =>
      show takeFrac (exp.elim [] Exponent.text) = _
      cases hw : exp.elim [] Exponent.text with
      | nil => rfl
      | cons c w => simp [takeFrac, (hletter (htail c (by rw [hw]; rfl))).2.1]
    | some ds =>
      have := takeDigits_map ds fun c hc ↦ (hletter (htail c hc)).1
      simp [takeFrac, this]
  have hmid : ∀ c ∈ ((frac.elim [] fun ds ↦ 0x2E :: ds.map unit) ++
      exp.elim [] Exponent.text).head?, ofUnit c = none ∧ c ≠ 0x2D ∧ c ≠ 0x2B := by
    intro c hc
    cases frac with
    | none => exact ⟨(hletter (htail c hc)).1, (hletter (htail c hc)).2.2⟩
    | some ds =>
      obtain rfl := Option.some.inj hc
      decide
  have hwhole := takeDigits_map whole fun c hc ↦ (hmid c hc).1
  have hhead : ∀ c ∈ (whole.map unit ++ ((frac.elim [] fun ds ↦ 0x2E :: ds.map unit) ++
      exp.elim [] Exponent.text)).head?, c ≠ 0x2D ∧ c ≠ 0x2B := by
    cases whole with
    | nil => exact fun c hc ↦ (hmid c hc).2
    | cons d whole => simpa using unit_ne_sign d
  have hsign := takeSign_signText sign hhead
  simp only [scan, Numeral.text, hsign, hwhole, hfrac, hexp]
  rw [dif_pos hwritten]

/-- A text is that of one numeral at most. -/
theorem Numeral.text_injective : Function.Injective Numeral.text := by
  intro n m h
  have := (scan_text n).symm.trans ((congrArg scan h).trans (scan_text m))
  exact congrArg Prod.fst (Option.some.inj this)

/-! ## The units of a numeral -/

/-- The units that a numeral is written with, other than digits. -/
def marks : List UInt16 := [0x2B, 0x2D, 0x2E, 0x45, 0x65]

theorem mem_signText {sign : Option Bool} {c : UInt16} (h : c ∈ signText sign) : c ∈ marks := by
  cases sign with
  | none => cases h
  | some neg =>
    obtain rfl := List.mem_singleton.mp h
    cases neg <;> decide

theorem Exponent.mem_text {e : Exponent} {c : UInt16} (h : c ∈ e.text) :
    c ∈ marks ∨ ∃ d, c = unit d := by
  rw [Exponent.text, List.mem_cons, List.mem_append, List.mem_map] at h
  rcases h with rfl | h | ⟨d, -, rfl⟩
  · refine .inl ?_
    cases e.upper <;> decide
  · exact .inl (mem_signText h)
  · exact .inr ⟨d, rfl⟩

theorem Numeral.mem_text {n : Numeral} {c : UInt16} (h : c ∈ n.text) :
    c ∈ marks ∨ ∃ d, c = unit d := by
  simp only [Numeral.text, List.mem_append, List.mem_map] at h
  rcases h with h | ⟨d, -, rfl⟩ | h | h
  · exact .inl (mem_signText h)
  · exact .inr ⟨d, rfl⟩
  · cases hfrac : n.frac with
    | none => simp [hfrac] at h
    | some ds =>
      rw [hfrac, Option.elim_some, List.mem_cons, List.mem_map] at h
      rcases h with rfl | ⟨d, -, rfl⟩
      · exact .inl (by decide)
      · exact .inr ⟨d, rfl⟩
  · cases hexp : n.exp with
    | none => simp [hexp] at h
    | some e =>
      rw [hexp, Option.elim_some] at h
      exact Exponent.mem_text h

/-- What holds of digits and marks holds in a numeral. -/
theorem Numeral.forall_text {p : UInt16 → Bool} (hmarks : ∀ c ∈ marks, p c = true)
    (hdigits : ∀ d, p (unit d) = true) (n : Numeral) : ∀ c ∈ n.text, p c = true := by
  intro c hc
  rcases Numeral.mem_text hc with h | ⟨d, rfl⟩
  · exact hmarks c h
  · exact hdigits d

theorem Numeral.text_ne_nil (n : Numeral) : n.text ≠ [] := by
  intro h
  have := scan_text n
  rw [h] at this
  cases this

/-- After the sign there is a digit or the point. -/
theorem Numeral.text_eq_sign_append (n : Numeral) :
    ∃ c w, n.text = signText n.sign ++ c :: w ∧ (c = 0x2E ∨ ∃ d, c = unit d) := by
  obtain ⟨sign, whole, frac, exp, hwritten⟩ := n
  cases whole with
  | cons d whole => exact ⟨_, _, rfl, .inr ⟨d, rfl⟩⟩
  | nil =>
    cases frac with
    | none => exact absurd hwritten (by simp)
    | some ds => exact ⟨_, _, rfl, .inl rfl⟩

end Decimal
