import EsOdbc.Memory
import EsOdbc.Numbers

/-!
# Integers in texts

`str2ubigint` and `str2bigint` (`util.c`) as a caller sees them: what they store and the `int` they
return, with their arithmetic left undefined where a result would wrap.
-/

namespace EsOdbc

/-! ## The source -/

/-- The text a parser is given. -/
inductive NumberText where
  | wide (str : WStr)
  | narrow (str : List UInt8)

def NumberText.units : NumberText → WStr
  | .wide str => str
  | .narrow str => str.map UInt8.toUInt16

/-- What is stored, and what is returned. -/
structure IntegerRead where
  out : Option ℤ
  ret : ℤ
deriving DecidableEq, Repr

def IntegerRead.failed : IntegerRead := ⟨none, -1⟩

/-- A product or a sum in an `SQLUBIGINT`. -/
def unwrapped (n : ℕ) : Exec ℕ := if n ≤ ullongMax then .done n else .undefined

/-- The loop of `str2ubigint`, at position `i` of the text with `res` read. -/
def ubigintSteps (strict : Bool) (i res : ℕ) : WStr → Exec (Option (ℕ × ℕ))
  | [] => .done (some (res, i))
  | c :: rest =>
    match digitOf c with
    | none => .done (if strict then none else some (res, i))
    | some digit =>
      if i < precisionUInt64 - 1 then
        (unwrapped (res * 10)).bind fun res ↦ (unwrapped (res + digit)).bind fun res ↦
          ubigintSteps strict (i + 1) res rest
      else if ullongMax / 10 < res then .done none
      else (unwrapped (res * 10)).bind fun res ↦
        if ullongMax - res < digit then .done none
        else (unwrapped (res + digit)).bind fun res ↦ ubigintSteps strict (i + 1) res rest

/-- `(int)`. -/
def intOf (n : ℤ) : ℤ := n.bmod (2 ^ 32)

/-- `str2ubigint`.  Its last test reads `digit`, which the loop overwrites: a lone `[`, being `+`
past `0`, fails it too. -/
def str2ubigintCall (val : WStr) (strict : Bool) : Exec IntegerRead :=
  if val = [] then .done .failed
  else
    (if val.head? = some 0x2B then ubigintSteps strict 1 0 val.tail
      else ubigintSteps strict 0 0 val).bind fun read ↦
        .done (if val = [0x2B] ∨ val = [0x5B] then .failed
          else read.elim .failed fun r ↦ ⟨some r.1, intOf r.2⟩)

/-- `-(SQLBIGINT)ull`. -/
def negated (ull : ℤ) : Exec ℤ :=
  if ull.bmod (2 ^ 64) = -2 ^ 63 then .undefined else .done (-ull.bmod (2 ^ 64))

/-- A sum in an `int`. -/
def intSum (n : ℤ) : Exec ℤ := if -2 ^ 31 ≤ n ∧ n < 2 ^ 31 then .done n else .undefined

/-- `str2bigint`. -/
def str2bigintCall (val : WStr) (strict : Bool) : Exec IntegerRead :=
  if val = [] then .done .failed
  else
    let sign := val.head?.bind signOf
    let i := if sign.isSome then 1 else 0
    (str2ubigintCall (val.drop i) strict).bind fun read ↦
      if read.ret < 0 then .done .failed
      else if read.ret = 0 ∧ i ≠ 0 then .done .failed
      else (Exec.ofOption read.out).bind fun ull ↦
        if sign = some true then
          if (llongMin : ℤ) < ull then .done .failed
          else (negated ull).bind fun out ↦ (intSum (read.ret + i)).bind fun ret ↦ .done ⟨some out, ret⟩
        else if (llongMax : ℤ) < ull then .done .failed
        else (intSum (read.ret + i)).bind fun ret ↦ .done ⟨some ull, ret⟩

/-- The parser of a type. -/
def str2integer (signed strict : Bool) (val : WStr) : Exec IntegerRead :=
  if signed then str2bigintCall val strict else str2ubigintCall val strict

/-! ## What a text denotes -/

/-- The numbers of a type. -/
def InType (signed : Bool) (v : ℤ) : Prop :=
  if signed then -2 ^ 63 ≤ v ∧ v < 2 ^ 63 else 0 ≤ v ∧ v < 2 ^ 64

/-- The number of a sign and digits. -/
def signedValue (sign : Option Bool) (ds : List (Fin 10)) : ℤ :=
  if sign = some true then -(Decimal.ofDigits ds : ℤ) else Decimal.ofDigits ds

/-- A text is a number of the type: a sign, `+` only for the unsigned type, and digits. -/
def DenotesNumber (signed : Bool) (w : WStr) (v : ℤ) : Prop :=
  ∃ sign ds, ds ≠ [] ∧ (signed = false → sign ≠ some true) ∧ w = signUnits sign ++ digitUnits ds ∧
    v = signedValue sign ds ∧ InType signed v

/-- What is to be read: all of the text, or the longest number at its start. -/
def ToRead (signed strict : Bool) (w p : WStr) (v : ℤ) : Prop :=
  DenotesNumber signed p v ∧ if strict then p = w else
    p <+: w ∧ ∀ p' v', p' <+: w → DenotesNumber signed p' v' → p'.length ≤ p.length

/-- That is read, with its length; where there is nothing to read the parser fails or, if it is not
strict, reads nothing.  No arithmetic wraps. -/
def ReadsInteger (signed strict : Bool) (val : NumberText) : Prop :=
  ∃ r, str2integer signed strict val.units = .done r ∧
    (∀ p v, ToRead signed strict val.units p v → r = ⟨some v, p.length⟩) ∧
    ((∀ p v, ¬ToRead signed strict val.units p v) → if strict then r.ret < 0 else r.ret ≤ 0)

/-- A text as a sign of the type, digits and what follows. -/
structure SignedRun (signed : Bool) (w : WStr) (sign : Option Bool) (ds : List (Fin 10))
    (tail : WStr) : Prop where
  units : w = signUnits sign ++ (digitUnits ds ++ tail)
  tail_head : ∀ c ∈ tail.head?, digitOf c = none
  unsigned : signed = false → sign ≠ some true
  unsigned_head : sign = none → ds = [] → ∀ c ∈ tail.head?, signOf c = none ∨
    (signed = false ∧ signOf c = some true)

/-! ## The loop -/

theorem unwrapped_done {n : ℕ} (h : n ≤ ullongMax) : unwrapped n = .done n := if_pos h

/-- No product and no sum of the loop wraps.  While no check is made the number has no more digits
than the position. -/
theorem ubigintSteps_eq {strict : Bool} {i n : ℕ} {w : WStr} (hn : n ≤ ullongMax) (hi : n < 10 ^ i) :
    ubigintSteps strict i n w = .done (ubigintLoop strict i n w) := by
  have hmax := ullongMax_eq
  induction w generalizing i n with
  | nil => rfl
  | cons c w ih =>
    rw [ubigintSteps, ubigintLoop]
    cases hc : digitOf c with
    | none => rfl
    | some k =>
      obtain ⟨d, rfl, rfl⟩ := digitOf_eq_some hc
      have hd := d.isLt
      have hi' : n * 10 + d < 10 ^ (i + 1) := by
        rw [pow_succ]
        omega
      dsimp only
      by_cases hpos : i < precisionUInt64 - 1
      · have hpow : 10 ^ (i + 1) ≤ 10 ^ 19 :=
          Nat.pow_le_pow_right (by norm_num) (by rw [precisionUInt64] at hpos; omega)
        have hsum : n * 10 + d ≤ ullongMax := by omega
        rw [if_pos hpos, if_pos hpos, unwrapped_done ((Nat.le_add_right _ _).trans hsum),
          Exec.bind_done, unwrapped_done hsum, Exec.bind_done, ih hsum hi']
      · rw [if_neg hpos, if_neg hpos]
        by_cases hdiv : ullongMax / 10 < n
        · rw [if_pos hdiv, if_pos hdiv]
        · rw [if_neg hdiv, if_neg hdiv, unwrapped_done (by omega), Exec.bind_done]
          by_cases hlast : ullongMax - n * 10 < d
          · rw [if_pos hlast, if_pos hlast]
          · have hsum : n * 10 + d ≤ ullongMax := by omega
            rw [if_neg hlast, if_neg hlast, unwrapped_done hsum, Exec.bind_done, ih hsum hi']

/-- The strict loop is the other one where that takes all of the text. -/
theorem ubigintLoop_strict (i n : ℕ) (w : WStr) : ubigintLoop true i n w =
    (ubigintLoop false i n w).bind fun r ↦ if r.2 = i + w.length then some r else none := by
  induction w generalizing i n with
  | nil => simp [ubigintLoop]
  | cons c w ih =>
    have hlen : i + (c :: w).length = i + 1 + w.length := by
      rw [List.length_cons, Nat.add_assoc, Nat.add_comm 1]
    rw [ubigintLoop, ubigintLoop, hlen]
    cases hc : digitOf c with
    | none => simp [Nat.add_assoc]
    | some digit =>
      dsimp only
      rw [ih]
      split_ifs
      · rfl
      · rfl
      · rfl
      · rfl

theorem ubigintLoop_run (strict : Bool) (i : ℕ) (ds : List (Fin 10)) {tail : WStr}
    (htail : ∀ c ∈ tail.head?, digitOf c = none) :
    ubigintLoop strict i 0 (digitUnits ds ++ tail) =
      if Decimal.ofDigits ds ≤ ullongMax ∧ (strict = true → tail = [])
      then some (Decimal.ofDigits ds, i + ds.length) else none := by
  have hloop := ubigintLoop_digits i 0 ds tail htail (Nat.zero_le _) (by positivity)
  rw [← Decimal.ofDigits] at hloop
  cases strict with
  | false => simpa using hloop
  | true =>
    rw [ubigintLoop_strict, hloop]
    by_cases hmax : Decimal.ofDigits ds ≤ ullongMax
    · simp [hmax]
    · simp [hmax]

/-! ## The unsigned parser -/

/-- The texts that the last test refuses, and the empty one. -/
def Lone (w : WStr) : Prop := w = [] ∨ w = [0x2B] ∨ w = [0x5B]

instance (w : WStr) : Decidable (Lone w) := by
  unfold Lone
  infer_instance

variable {signed strict : Bool} {w tail : WStr} {sign : Option Bool} {ds : List (Fin 10)}

theorem SignedRun.head?_ne (h : SignedRun false w none ds tail) : w.head? ≠ some 0x2B := by
  rw [h.units, signUnits, Option.elim_none, List.nil_append]
  cases ds with
  | nil =>
    intro hhead
    obtain hsign | ⟨-, hsign⟩ := h.unsigned_head rfl rfl 0x2B hhead
    · cases hsign
    · cases hsign
  | cons d ds => simpa using (digitUnit_ne d).1

/-- `str2ubigint` on a text in parts. -/
theorem SignedRun.str2ubigintCall (h : SignedRun false w sign ds tail) (strict : Bool) :
    str2ubigintCall w strict = .done (if Lone w ∨ ullongMax < Decimal.ofDigits ds ∨
        (strict = true ∧ tail ≠ []) then .failed
      else ⟨some (Decimal.ofDigits ds), intOf ((signUnits sign).length + ds.length : ℕ)⟩) := by
  have hread : (if w.head? = some 0x2B then ubigintSteps strict 1 0 w.tail
      else ubigintSteps strict 0 0 w) = .done (if Decimal.ofDigits ds ≤ ullongMax ∧
        (strict = true → tail = []) then some (Decimal.ofDigits ds,
          (signUnits sign).length + ds.length) else none) := by
    cases sign with
    | none =>
      rw [if_neg h.head?_ne, ubigintSteps_eq (Nat.zero_le _) (by norm_num)]
      rw [h.units, signUnits, Option.elim_none, List.nil_append, ubigintLoop_run strict 0 ds h.tail_head]
      rfl
    | some neg =>
      cases neg with
      | true => exact absurd rfl (h.unsigned rfl)
      | false =>
        rw [h.units, signUnits]
        rw [if_pos (by simp), ubigintSteps_eq (Nat.zero_le _) (by norm_num)]
        exact congrArg _ (ubigintLoop_run strict 1 ds h.tail_head)
  have hcond : ¬(Decimal.ofDigits ds ≤ ullongMax ∧ (strict = true → tail = [])) ↔
      ullongMax < Decimal.ofDigits ds ∨ (strict = true ∧ tail ≠ []) := by
    rw [not_and_or, not_le, Classical.not_imp]
  unfold EsOdbc.str2ubigintCall
  by_cases hempty : w = []
  · rw [if_pos hempty, if_pos (.inl (.inl hempty))]
  · rw [if_neg hempty, hread, Exec.bind_done]
    by_cases hlone : w = [0x2B] ∨ w = [0x5B]
    · rw [if_pos hlone, if_pos (.inl (.inr hlone))]
    · have hlone' : ¬Lone w := fun h ↦ h.elim hempty hlone
      rw [if_neg hlone]
      by_cases hreads : Decimal.ofDigits ds ≤ ullongMax ∧ (strict = true → tail = [])
      · rw [if_pos hreads, if_neg fun h ↦ h.elim hlone' fun h ↦ hcond.mpr h hreads]
        rfl
      · rw [if_neg hreads, if_pos (.inr (hcond.mp hreads))]
        rfl

/-! ## The texts that denote a number -/

/-- The sign that a text starts with. -/
def headSign (w : WStr) : Option Bool := w.head?.bind signOf

theorem headSign_some (neg : Bool) (u : WStr) : headSign (signUnits (some neg) ++ u) = some neg := by
  cases neg
  · rfl
  · rfl

theorem headSign_digits (d : Fin 10) (ds : List (Fin 10)) (u : WStr) :
    headSign (signUnits none ++ (digitUnits (d :: ds) ++ u)) = none :=
  signOf_digitUnit d

/-- The sign in front of digits is the sign of the text. -/
theorem SignedRun.sign_eq {sign' : Option Bool} {ds' : List (Fin 10)} {q : WStr}
    (h : SignedRun signed w sign ds tail) (hne : ds' ≠ []) (hplus : signed = false → sign' ≠ some true)
    (hq : signUnits sign' ++ (digitUnits ds' ++ q) = w) : sign' = sign := by
  obtain ⟨d', ds', rfl⟩ := List.exists_cons_of_ne_nil hne
  have hhead := congrArg headSign (hq.trans h.units)
  cases sign' with
  | none =>
    rw [headSign_digits] at hhead
    cases sign with
    | none => rfl
    | some neg =>
      rw [headSign_some] at hhead
      cases hhead
  | some neg' =>
    rw [headSign_some] at hhead
    cases sign with
    | none =>
      cases ds with
      | nil =>
        obtain ⟨c, hc, hsign⟩ := Option.bind_eq_some_iff.mp hhead.symm
        obtain hnone | ⟨hunsigned, htrue⟩ := h.unsigned_head rfl rfl c hc
        · rw [hnone] at hsign
          cases hsign
        · rw [htrue] at hsign
          exact absurd hsign.symm (hplus hunsigned)
      | cons d ds =>
        rw [headSign_digits] at hhead
        cases hhead
    | some neg =>
      rw [headSign_some] at hhead
      exact hhead

/-- A number at the start of a text is its sign and some of its digits. -/
theorem SignedRun.denotes {p : WStr} {v : ℤ} (h : SignedRun signed w sign ds tail) (hp : p <+: w)
    (hv : DenotesNumber signed p v) : ∃ k, 0 < k ∧ k ≤ ds.length ∧
      p = signUnits sign ++ digitUnits (ds.take k) ∧ v = signedValue sign (ds.take k) ∧
      InType signed v := by
  obtain ⟨sign', ds', hne, hplus, rfl, rfl, htype⟩ := hv
  obtain ⟨q, hq⟩ := hp
  rw [List.append_assoc] at hq
  obtain rfl := h.sign_eq hne hplus hq
  have hrest := List.append_cancel_left (hq.trans h.units)
  obtain ⟨es, rest, rfl, hhead⟩ := exists_digitUnits q
  rw [← List.append_assoc, digitUnits, digitUnits, ← List.map_append] at hrest
  obtain ⟨rfl, -⟩ := digitUnits_append_inj hhead h.tail_head hrest
  refine ⟨ds'.length, List.length_pos_iff.mpr hne, ?_, ?_, ?_, htype⟩
  · rw [List.length_append]
    exact Nat.le_add_right _ _
  · rw [List.take_left]
  · rw [List.take_left]

theorem SignedRun.take (h : SignedRun signed w sign ds tail) (k : ℕ) :
    signUnits sign ++ digitUnits (ds.take k) <+: w := by
  refine ⟨digitUnits (ds.drop k) ++ tail, ?_⟩
  rw [h.units, List.append_assoc, ← List.append_assoc (digitUnits (ds.take k)), digitUnits, digitUnits,
    ← List.map_append, List.take_append_drop]
  rfl

/-- All of the digits are read where they denote a number of the type. -/
theorem SignedRun.toRead_iff {p : WStr} {v : ℤ} (h : SignedRun signed w sign ds tail) (hds : ds ≠ [])
    (htype : InType signed (signedValue sign ds)) (htail : strict = true → tail = []) :
    ToRead signed strict w p v ↔
      p = signUnits sign ++ digitUnits ds ∧ v = signedValue sign ds := by
  have hrun : DenotesNumber signed (signUnits sign ++ digitUnits ds) (signedValue sign ds) :=
    ⟨sign, ds, hds, h.unsigned, rfl, rfl, htype⟩
  have hstart : signUnits sign ++ digitUnits ds <+: w := by
    have htake := h.take ds.length
    rwa [List.take_length] at htake
  have hpart {p : WStr} {v : ℤ} (hp : p <+: w) (hv : DenotesNumber signed p v) :
      p.length ≤ (signUnits sign ++ digitUnits ds).length := by
    obtain ⟨k, -, -, rfl, -⟩ := h.denotes hp hv
    rw [List.length_append, List.length_append, digitUnits_length, digitUnits_length,
      List.length_take]
    omega
  have hfull {p : WStr} {v : ℤ} (hp : p <+: w) (hv : DenotesNumber signed p v)
      (hle : (signUnits sign ++ digitUnits ds).length ≤ p.length) :
      p = signUnits sign ++ digitUnits ds ∧ v = signedValue sign ds := by
    obtain ⟨k, -, hk, rfl, rfl, -⟩ := h.denotes hp hv
    rw [List.length_append, List.length_append, digitUnits_length, digitUnits_length,
      List.length_take] at hle
    rw [List.take_of_length_le (by omega)]
    exact ⟨rfl, rfl⟩
  cases strict with
  | true =>
    have hw : w = signUnits sign ++ digitUnits ds := by
      rw [h.units, htail rfl, List.append_nil]
    constructor
    · rintro ⟨hv, rfl⟩
      exact hfull List.prefix_rfl hv (congrArg List.length hw).ge
    · rintro ⟨rfl, rfl⟩
      exact ⟨hrun, hw.symm⟩
  | false =>
    constructor
    · rintro ⟨hv, hp, hlongest⟩
      exact hfull hp hv (hlongest _ _ hstart hrun)
    · rintro ⟨rfl, rfl⟩
      exact ⟨hrun, hstart, fun p' v' hp' hv' ↦ hpart hp' hv'⟩

theorem SignedRun.not_toRead_of_nil (h : SignedRun signed w sign [] tail) (p : WStr) (v : ℤ) :
    ¬ToRead signed strict w p v := by
  rintro ⟨hv, hp⟩
  have hstart : p <+: w := by
    cases strict with
    | true => exact hp ▸ List.prefix_rfl
    | false => exact hp.1
  obtain ⟨k, hpos, hk, -⟩ := h.denotes hstart hv
  exact absurd hpos (Nat.not_lt.mpr hk)

/-- Nothing is read strictly in front of other units, or where the type does not have the number. -/
theorem SignedRun.not_toRead_strict (h : SignedRun signed w sign ds tail)
    (hbad : tail ≠ [] ∨ ¬InType signed (signedValue sign ds)) (p : WStr) (v : ℤ) :
    ¬ToRead signed true w p v := by
  rintro ⟨hv, rfl⟩
  obtain ⟨k, -, hk, hp, rfl, htype⟩ := h.denotes List.prefix_rfl hv
  have hlen := congrArg List.length (h.units.symm.trans hp)
  simp only [List.length_append, digitUnits_length, List.length_take] at hlen
  obtain hbad | hbad := hbad
  · have hpos := List.length_pos_iff.mpr hbad
    omega
  · rw [List.take_of_length_le (by omega)] at htype
    exact hbad htype

/-- A digit can be read. -/
theorem SignedRun.exists_toRead (h : SignedRun signed w sign ds tail) (hds : ds ≠ []) :
    ∃ p v, ToRead signed false w p v := by
  classical
  have hpos : 1 ≤ ds.length := List.length_pos_iff.mpr hds
  have hone : InType signed (signedValue sign (ds.take 1)) := by
    obtain ⟨d, ds, rfl⟩ := List.exists_cons_of_ne_nil hds
    have hd := d.isLt
    have hvalue : Decimal.ofDigits ([d] : List (Fin 10)) = d := by simp [Decimal.ofDigits]
    have hunsigned := h.unsigned
    cases signed with
    | false =>
      rw [InType, signedValue, if_neg (hunsigned rfl), List.take_succ_cons, List.take_zero, hvalue]
      simp only [Bool.false_eq_true, if_false]
      omega
    | true =>
      rw [InType, signedValue, List.take_succ_cons, List.take_zero, hvalue]
      simp only [if_true]
      split
      · omega
      · omega
  obtain ⟨k, hk⟩ : ∃ k, k = Nat.findGreatest
    (fun k ↦ 0 < k ∧ InType signed (signedValue sign (ds.take k))) ds.length := ⟨_, rfl⟩
  have hgreatest : 0 < k ∧ InType signed (signedValue sign (ds.take k)) := by
    rw [hk]
    exact Nat.findGreatest_spec (P := fun k ↦ 0 < k ∧ InType signed (signedValue sign (ds.take k)))
      hpos ⟨one_pos, hone⟩
  refine ⟨_, _, ⟨sign, ds.take k, ?_, h.unsigned, rfl, rfl, hgreatest.2⟩, h.take k, ?_⟩
  · rw [← List.length_pos_iff, List.length_take]
    exact lt_min hgreatest.1 hpos
  · intro p' v' hp' hv'
    obtain ⟨k', hpos', hk', rfl, rfl, htype'⟩ := h.denotes hp' hv'
    have hle : k' ≤ k := by
      rw [hk]
      exact Nat.le_findGreatest hk' ⟨hpos', htype'⟩
    simp only [List.length_append, digitUnits_length, List.length_take]
    omega

/-- A text in parts. -/
theorem exists_signedRun (signed : Bool) (w : WStr) : ∃ sign ds tail, SignedRun signed w sign ds tail := by
  obtain ⟨ds, tail, hw, htail⟩ := exists_digitUnits w
  by_cases hplain : ds = [] → ∀ c ∈ tail.head?, signOf c = none ∨ (signed = false ∧ signOf c = some true)
  · exact ⟨none, ds, tail, hw, htail, fun _ ↦ nofun, fun _ ↦ hplain⟩
  · push Not at hplain
    obtain ⟨rfl, c, hc, hsome, htrue⟩ := hplain
    obtain ⟨neg, hneg⟩ := Option.ne_none_iff_exists'.mp hsome
    obtain ⟨rest, rfl⟩ := List.head?_eq_some_iff.mp hc
    obtain ⟨ds, tail, hrest, htail'⟩ := exists_digitUnits rest
    refine ⟨some neg, ds, tail, ?_, htail', fun hsigned h ↦ ?_, nofun⟩
    · rw [hw, hrest, signOf_eq_some hneg]
      rfl
    · exact htrue hsigned (hneg.trans h)

/-! ## What is read of a text in parts -/

variable {val : NumberText}

theorem SignedRun.reads_iff (h : SignedRun signed val.units sign ds tail) (hds : ds ≠ [])
    (htype : InType signed (signedValue sign ds)) (htail : strict = true → tail = []) :
    ReadsInteger signed strict val ↔ str2integer signed strict val.units =
      .done ⟨some (signedValue sign ds), ((signUnits sign).length + ds.length : ℕ)⟩ := by
  have hlen : (signUnits sign ++ digitUnits ds).length = (signUnits sign).length + ds.length := by
    rw [List.length_append, digitUnits_length]
  have hread := (h.toRead_iff hds htype htail).mpr ⟨rfl, rfl⟩
  constructor
  · rintro ⟨r, hrun, hreads, -⟩
    rw [hrun, hreads _ _ hread, hlen]
  · intro hrun
    refine ⟨_, hrun, ?_, fun hnone ↦ absurd hread (hnone _ _)⟩
    intro p v hp
    obtain ⟨rfl, rfl⟩ := (h.toRead_iff hds htype htail).mp hp
    rw [hlen]

theorem readsInteger_of_none (hnone : ∀ p v, ¬ToRead signed strict val.units p v) :
    ReadsInteger signed strict val ↔ ∃ r, str2integer signed strict val.units = .done r ∧
      if strict then r.ret < 0 else r.ret ≤ 0 := by
  constructor
  · rintro ⟨r, hrun, -, hret⟩
    exact ⟨r, hrun, hret hnone⟩
  · rintro ⟨r, hrun, hret⟩
    exact ⟨r, hrun, fun p v hp ↦ absurd hp (hnone p v), fun _ ↦ hret⟩

/-- A failure reads nothing. -/
theorem reads_of_failed (hrun : str2integer signed strict val.units = .done .failed) :
    ReadsInteger signed strict val ↔ ∀ p v, ¬ToRead signed strict val.units p v := by
  constructor
  · rintro ⟨r, hrun', hreads, -⟩ p v hp
    obtain rfl := Exec.done.inj (hrun.symm.trans hrun')
    cases hreads p v hp
  · intro hnone
    refine (readsInteger_of_none hnone).mpr ⟨_, hrun, ?_⟩
    cases strict
    · decide
    · decide

theorem intOf_eq_iff {n : ℕ} : intOf n = n ↔ n < 2 ^ 31 := by
  constructor
  · intro h
    have hlt : intOf n < 2 ^ 31 := Int.bmod_lt (x := (n : ℤ)) (m := 2 ^ 32) (by norm_num)
    omega
  · intro h
    exact Int.bmod_eq_of_le (by omega) (by omega)

theorem not_lone_of_digits (h : SignedRun signed w sign ds tail) (hds : ds ≠ []) : ¬Lone w := by
  obtain ⟨d, ds, rfl⟩ := List.exists_cons_of_ne_nil hds
  obtain ⟨hplus, hbracket⟩ := digitUnit_ne d
  have hw := h.units
  cases sign with
  | none =>
    rintro (rfl | rfl | rfl)
    · cases hw
    · exact hplus (List.cons.inj hw).1.symm
    · exact hbracket (List.cons.inj hw).1.symm
  | some neg =>
    rintro (rfl | rfl | rfl)
    · cases hw
    · cases (List.cons.inj hw).2
    · cases (List.cons.inj hw).2

/-- The number is not the least of its type, and an `int` has the length. -/
def RunFits (sign : Option Bool) (ds : List (Fin 10)) : Prop :=
  signedValue sign ds ≠ -2 ^ 63 ∧ (signUnits sign).length + ds.length < 2 ^ 31

/-- What is to hold of the digits of a text in parts. -/
def PartsFine (signed strict : Bool) (sign : Option Bool) (ds : List (Fin 10)) (tail : WStr) : Prop :=
  if strict then tail = [] → InType signed (signedValue sign ds) → RunFits sign ds
  else InType signed (signedValue sign ds) ∧ RunFits sign ds

/-- What has digits behind its sign. -/
def DigitsFine (signed strict : Bool) (w : WStr) : Prop :=
  ∀ sign ds tail, SignedRun signed w sign ds tail → ds ≠ [] → PartsFine signed strict sign ds tail

/-- What has none.  The unsigned parser counts the `+` in front of another unit; the signed one
leaves a second sign to that. -/
def StrayFine (signed strict : Bool) (w : WStr) : Prop :=
  ∀ sign tail, SignedRun signed w sign [] tail → sign ≠ none →
    if signed then ∀ ds tail', SignedRun false tail (some false) ds tail' →
      (if strict then ds ≠ [] ∧ tail' = [] else ds ≠ [] ∨ tail' ≠ []) →
      InType true (signedValue sign ds) → intOf (1 + ds.length : ℕ) ≤ 0
    else strict = true ∨ tail = []

/-- Digits are read as described where the parser stores their number and returns their length, for
all numbers that are to be read, and fails on the others. -/
theorem SignedRun.reads_digits_iff (h : SignedRun signed val.units sign ds tail) (hds : ds ≠ [])
    (hread : InType signed (signedValue sign ds) → (strict = true → tail = []) →
      (str2integer signed strict val.units =
        .done ⟨some (signedValue sign ds), ((signUnits sign).length + ds.length : ℕ)⟩ ↔
      RunFits sign ds))
    (hfail : ¬(InType signed (signedValue sign ds) ∧ (strict = true → tail = [])) →
      str2integer signed strict val.units = .done .failed) :
    ReadsInteger signed strict val ↔ PartsFine signed strict sign ds tail := by
  by_cases hcond : InType signed (signedValue sign ds) ∧ (strict = true → tail = [])
  · rw [h.reads_iff hds hcond.1 hcond.2, hread hcond.1 hcond.2, PartsFine]
    cases strict with
    | true => exact ⟨fun hfits _ _ ↦ hfits, fun hfine ↦ hfine (hcond.2 rfl) hcond.1⟩
    | false => exact ⟨fun hfits ↦ ⟨hcond.1, hfits⟩, fun hfine ↦ hfine.2⟩
  · rw [reads_of_failed (hfail hcond), PartsFine]
    cases strict with
    | true =>
      have hbad : tail ≠ [] ∨ ¬InType signed (signedValue sign ds) := by
        by_contra hgood
        push Not at hgood
        exact hcond ⟨hgood.2, fun _ ↦ hgood.1⟩
      refine iff_of_true (h.not_toRead_strict hbad) fun htail htype ↦ ?_
      exact absurd ⟨htype, fun _ ↦ htail⟩ hcond
    | false =>
      obtain ⟨p, v, hpv⟩ := h.exists_toRead hds
      refine iff_of_false (fun hnone ↦ hnone p v hpv) fun hfine ↦ hcond ⟨hfine.1, fun hstrict ↦ ?_⟩
      cases hstrict

theorem inType_unsigned (hsign : sign ≠ some true) :
    InType false (signedValue sign ds) ↔ Decimal.ofDigits ds ≤ ullongMax := by
  rw [InType, signedValue, if_neg hsign, ullongMax_eq]
  simp only [Bool.false_eq_true, if_false]
  omega

theorem SignedRun.unsigned_digits (h : SignedRun false val.units sign ds tail) (hds : ds ≠ []) :
    ReadsInteger false strict val ↔ PartsFine false strict sign ds tail := by
  have hsign := h.unsigned rfl
  have hcall : str2integer false strict val.units = _ := h.str2ubigintCall strict
  have hlone := not_lone_of_digits h hds
  refine h.reads_digits_iff hds (fun htype htail ↦ ?_) fun hcond ↦ ?_
  · have hmax := (inType_unsigned hsign).mp htype
    have hgood : ¬(Lone val.units ∨ ullongMax < Decimal.ofDigits ds ∨ (strict = true ∧ tail ≠ [])) := by
      rintro (h | h | ⟨hstrict, h⟩)
      · exact hlone h
      · exact absurd hmax (not_le.mpr h)
      · exact h (htail hstrict)
    have hleast : signedValue sign ds ≠ -2 ^ 63 := by
      rw [signedValue, if_neg hsign]
      omega
    have hvalue : (Decimal.ofDigits ds : ℤ) = signedValue sign ds := by
      rw [signedValue, if_neg hsign]
    rw [hcall, if_neg hgood, RunFits, ← intOf_eq_iff, hvalue, Exec.done.injEq, IntegerRead.mk.injEq]
    exact ⟨fun h ↦ ⟨hleast, h.2⟩, fun h ↦ ⟨rfl, h.2⟩⟩
  · rw [hcall, if_pos]
    rw [inType_unsigned hsign, not_and_or, Classical.not_imp, not_le] at hcond
    exact .inr hcond

/-- A `+` in front of another unit. -/
theorem SignedRun.unsigned_stray (h : SignedRun false val.units sign [] tail) :
    ReadsInteger false strict val ↔ (sign ≠ none → strict = true ∨ tail = []) := by
  have hcall : str2integer false strict val.units = _ := h.str2ubigintCall strict
  have hzero : ¬ullongMax < Decimal.ofDigits [] := Nat.not_lt_zero _
  rw [readsInteger_of_none h.not_toRead_of_nil, hcall]
  by_cases hlone : Lone val.units
  · rw [if_pos (.inl hlone)]
    refine iff_of_true ⟨_, rfl, ?_⟩ fun hsign ↦ .inr ?_
    · cases strict
      · decide
      · decide
    · obtain ⟨neg, rfl⟩ := Option.ne_none_iff_exists'.mp hsign
      have hw := h.units
      obtain hlone | hlone | hlone := hlone
      · cases hw.symm.trans hlone
      · exact (List.cons.inj (hw.symm.trans hlone)).2
      · exact (List.cons.inj (hw.symm.trans hlone)).2
  · have htail : sign ≠ none → tail ≠ [] := by
      rintro hsign rfl
      obtain ⟨neg, rfl⟩ := Option.ne_none_iff_exists'.mp hsign
      cases neg with
      | true => exact h.unsigned rfl rfl
      | false => exact hlone (.inr (.inl h.units))
    have htail' : tail ≠ [] := by
      rintro rfl
      cases sign with
      | none => exact hlone (.inl h.units)
      | some neg => exact htail nofun rfl
    cases strict with
    | true =>
      rw [if_pos (.inr (.inr ⟨rfl, htail'⟩))]
      exact iff_of_true ⟨_, rfl, by decide⟩ fun _ ↦ .inl rfl
    | false =>
      rw [if_neg]
      · cases sign with
        | none => exact iff_of_true ⟨_, rfl, by decide⟩ fun hsign ↦ absurd rfl hsign
        | some neg =>
          refine iff_of_false ?_ fun hcond ↦ ?_
          · rintro ⟨r, hr, hret⟩
            obtain rfl := Exec.done.inj hr
            cases neg
            · exact absurd hret (by decide)
            · exact absurd hret (by decide)
          · obtain hstrict | htail := hcond nofun
            · cases hstrict
            · exact htail' htail
      · rintro (h | h | ⟨h, -⟩)
        · exact hlone h
        · exact hzero h
        · cases h

/-! ## The signed parser -/

/-- What `str2bigint` makes of the number behind the sign. -/
def signedAnswer (sign : Option Bool) (read : IntegerRead) : Exec IntegerRead :=
  if read.ret < 0 then .done .failed
  else if read.ret = 0 ∧ (signUnits sign).length ≠ 0 then .done .failed
  else (Exec.ofOption read.out).bind fun ull ↦
    if sign = some true then
      if (llongMin : ℤ) < ull then .done .failed
      else (negated ull).bind fun out ↦
        (intSum (read.ret + (signUnits sign).length)).bind fun ret ↦ .done ⟨some out, ret⟩
    else if (llongMax : ℤ) < ull then .done .failed
    else (intSum (read.ret + (signUnits sign).length)).bind fun ret ↦ .done ⟨some ull, ret⟩

theorem str2bigintCall_eq (hne : w ≠ []) : str2bigintCall w strict =
    (str2ubigintCall (w.drop (signUnits (headSign w)).length) strict).bind
      (signedAnswer (headSign w)) := by
  have hlen : (if (headSign w).isSome then 1 else 0) = (signUnits (headSign w)).length := by
    cases headSign w
    · rfl
    · rfl
  rw [str2bigintCall, if_neg hne]
  dsimp only
  rw [← headSign, hlen]
  rfl

theorem inType_signed : InType true (signedValue sign ds) ↔
    Decimal.ofDigits ds ≤ if sign = some true then llongMin else llongMax := by
  rw [InType, signedValue]
  simp only [if_true]
  have hmin : llongMin = 9223372036854775808 := rfl
  have hmax : llongMax = 9223372036854775807 := rfl
  split
  · omega
  · omega

/-- A number of another type is refused. -/
theorem signedAnswer_refused (htype : ¬InType true (signedValue sign ds)) (ret : ℤ) :
    signedAnswer sign ⟨some (Decimal.ofDigits ds), ret⟩ = .done .failed := by
  rw [inType_signed, not_le] at htype
  unfold signedAnswer
  dsimp only
  by_cases hneg : ret < 0
  · rw [if_pos hneg]
  · rw [if_neg hneg]
    by_cases hzero : ret = 0 ∧ (signUnits sign).length ≠ 0
    · rw [if_pos hzero]
    · rw [if_neg hzero, Exec.ofOption_some, Exec.bind_done]
      by_cases hsign : sign = some true
      · rw [if_pos hsign] at htype ⊢
        rw [if_pos (by exact_mod_cast htype)]
      · rw [if_neg hsign] at htype ⊢
        rw [if_pos (by exact_mod_cast htype)]

theorem negated_eq {u : ℕ} (hu : u ≤ llongMin) :
    negated u = if (-(u : ℤ)) = -2 ^ 63 then .undefined else .done (-(u : ℤ)) := by
  have hmin : llongMin = 9223372036854775808 := rfl
  unfold negated
  by_cases hleast : (-(u : ℤ)) = -2 ^ 63
  · have hu : u = 2 ^ 63 := by omega
    subst hu
    decide
  · have hcast : (u : ℤ).bmod (2 ^ 64) = u := Int.bmod_eq_of_le (by omega) (by omega)
    rw [hcast, if_neg (by omega), if_neg hleast]

/-- Another is stored, unless it is the least one. -/
theorem signedAnswer_eq (htype : InType true (signedValue sign ds)) {ret : ℤ} (hret : 0 ≤ ret)
    (hzero : ¬(ret = 0 ∧ (signUnits sign).length ≠ 0)) :
    signedAnswer sign ⟨some (Decimal.ofDigits ds), ret⟩ =
      if signedValue sign ds = -2 ^ 63 then .undefined
      else (intSum (ret + (signUnits sign).length)).bind fun ret ↦
        .done ⟨some (signedValue sign ds), ret⟩ := by
  rw [inType_signed] at htype
  unfold signedAnswer signedValue
  dsimp only
  rw [if_neg (not_lt.mpr hret), if_neg hzero, Exec.ofOption_some, Exec.bind_done]
  by_cases hsign : sign = some true
  · rw [if_pos hsign] at htype
    rw [if_pos hsign, if_pos hsign, negated_eq htype,
      if_neg (not_lt.mpr (by exact_mod_cast htype))]
    by_cases hleast : (-(Decimal.ofDigits ds : ℤ)) = -2 ^ 63
    · rw [if_pos hleast, if_pos hleast]
      rfl
    · rw [if_neg hleast, if_neg hleast]
      rfl
  · rw [if_neg hsign] at htype
    rw [if_neg hsign, if_neg hsign, if_neg (not_lt.mpr (by exact_mod_cast htype)),
      if_neg (by omega)]

/-- The length is that of the sign and the digits where an `int` has it. -/
theorem signedAnswer_run_iff (htype : InType true (signedValue sign ds)) (hds : ds ≠ []) :
    signedAnswer sign ⟨some (Decimal.ofDigits ds), intOf ds.length⟩ =
      .done ⟨some (signedValue sign ds), ((signUnits sign).length + ds.length : ℕ)⟩ ↔
    RunFits sign ds := by
  have hpos := List.length_pos_iff.mpr hds
  have hfits := @intOf_eq_iff ds.length
  have hbelow : intOf ds.length < 2 ^ 31 := Int.bmod_lt (x := (ds.length : ℤ)) (m := 2 ^ 32) (by norm_num)
  rw [RunFits]
  by_cases hbad : intOf ds.length < 0 ∨ (intOf ds.length = 0 ∧ (signUnits sign).length ≠ 0)
  · have hfailed : signedAnswer sign ⟨some (Decimal.ofDigits ds), intOf ds.length⟩ = .done .failed := by
      unfold signedAnswer
      dsimp only
      by_cases hneg : intOf ds.length < 0
      · rw [if_pos hneg]
      · rw [if_neg hneg, if_pos (hbad.resolve_left hneg)]
    refine iff_of_false (fun h ↦ ?_) fun h ↦ ?_
    · cases hfailed.symm.trans h
    · have hkeep := hfits.mpr (by omega)
      omega
  · push Not at hbad
    rw [signedAnswer_eq htype hbad.1 fun h ↦ h.2 (hbad.2 h.1)]
    by_cases hleast : signedValue sign ds = -2 ^ 63
    · rw [if_pos hleast]
      exact iff_of_false nofun fun h ↦ h.1 hleast
    · rw [if_neg hleast, intSum]
      by_cases hsum : -2 ^ 31 ≤ intOf ds.length + ((signUnits sign).length : ℤ) ∧
          intOf ds.length + ((signUnits sign).length : ℤ) < 2 ^ 31
      · rw [if_pos hsum, Exec.bind_done, Exec.done.injEq, IntegerRead.mk.injEq]
        constructor
        · intro h
          have hkeep : ds.length < 2 ^ 31 := hfits.mp (by have := h.2; push_cast at this; omega)
          have := h.2
          push_cast at this
          exact ⟨hleast, by omega⟩
        · intro h
          have hkeep := hfits.mpr (by omega)
          refine ⟨rfl, ?_⟩
          push_cast
          omega
      · rw [if_neg hsum]
        refine iff_of_false nofun fun h ↦ hsum ?_
        have hkeep := hfits.mpr (by omega)
        omega

theorem SignedRun.signed_digits (h : SignedRun true val.units sign ds tail) (hds : ds ≠ []) :
    ReadsInteger true strict val ↔ PartsFine true strict sign ds tail := by
  have hhead : headSign val.units = sign := by
    rw [h.units]
    cases sign with
    | none =>
      obtain ⟨d, ds, rfl⟩ := List.exists_cons_of_ne_nil hds
      exact headSign_digits d ds tail
    | some neg => exact headSign_some neg _
  have hdrop : val.units.drop (signUnits sign).length = digitUnits ds ++ tail := by
    rw [h.units, List.drop_left]
  have hbody : SignedRun false (digitUnits ds ++ tail) none ds tail :=
    ⟨rfl, h.tail_head, fun _ ↦ nofun, fun _ hnil ↦ absurd hnil hds⟩
  have hlone := not_lone_of_digits hbody hds
  have hcall : str2integer true strict val.units = signedAnswer sign
      (if Lone (digitUnits ds ++ tail) ∨ ullongMax < Decimal.ofDigits ds ∨
        (strict = true ∧ tail ≠ []) then .failed
      else ⟨some (Decimal.ofDigits ds), intOf ((signUnits none).length + ds.length : ℕ)⟩) := by
    have hcalls := @str2bigintCall_eq strict _ fun hnil ↦ not_lone_of_digits h hds (.inl hnil)
    rw [hhead, hdrop, hbody.str2ubigintCall strict, Exec.bind_done] at hcalls
    exact hcalls
  have hbound : (if sign = some true then llongMin else llongMax) ≤ ullongMax := by
    split
    · decide
    · decide
  refine h.reads_digits_iff hds (fun htype htail ↦ ?_) fun hcond ↦ ?_
  · have hmax := (inType_signed.mp htype).trans hbound
    have hgood : ¬(Lone (digitUnits ds ++ tail) ∨ ullongMax < Decimal.ofDigits ds ∨
        (strict = true ∧ tail ≠ [])) := by
      rintro (h | h | ⟨hstrict, h⟩)
      · exact hlone h
      · exact absurd hmax (not_le.mpr h)
      · exact h (htail hstrict)
    rw [hcall, if_neg hgood, signUnits, Option.elim_none, List.length_nil, Nat.zero_add]
    exact signedAnswer_run_iff htype hds
  · rw [hcall]
    split
    · rfl
    · next hgood =>
      refine signedAnswer_refused (fun htype ↦ hcond ⟨htype, fun hstrict ↦ ?_⟩) _
      by_contra htail
      exact hgood (.inr (.inr ⟨hstrict, htail⟩))

/-- The parts of what starts with a `+`. -/
theorem SignedRun.plus_unique {ds' : List (Fin 10)} {tail' : WStr}
    (h : SignedRun false w (some false) ds tail) (h' : SignedRun false w (some false) ds' tail') :
    ds = ds' ∧ tail = tail' :=
  digitUnits_append_inj h.tail_head h'.tail_head
    (List.append_cancel_left (h.units.symm.trans h'.units))

/-- A second sign. -/
theorem signed_second_iff (neg : Bool) (h : SignedRun false w (some false) ds tail) :
    (∃ r, (str2ubigintCall w strict).bind (signedAnswer (some neg)) = .done r ∧
      if strict then r.ret < 0 else r.ret ≤ 0) ↔
    ((if strict then ds ≠ [] ∧ tail = [] else ds ≠ [] ∨ tail ≠ []) →
      InType true (signedValue (some neg) ds) → intOf (1 + ds.length : ℕ) ≤ 0) := by
  have hfail (x : Exec IntegerRead) (hx : x = .done .failed) :
      ∃ r, x = .done r ∧ if strict then r.ret < 0 else r.ret ≤ 0 := by
    refine ⟨_, hx, ?_⟩
    cases strict
    · decide
    · decide
  rw [h.str2ubigintCall strict, Exec.bind_done]
  by_cases hbad : Lone w ∨ ullongMax < Decimal.ofDigits ds ∨ (strict = true ∧ tail ≠ [])
  · rw [if_pos hbad]
    refine iff_of_true (hfail _ rfl) fun hshape htype ↦ ?_
    exfalso
    obtain hlone | hmax | ⟨rfl, htail⟩ := hbad
    · have hw := h.units
      have hnil : digitUnits ds ++ tail = [] := by
        obtain hlone | hlone | hlone := hlone
        · cases hw.symm.trans hlone
        · exact (List.cons.inj (hw.symm.trans hlone)).2
        · exact (List.cons.inj (hw.symm.trans hlone)).2
      obtain ⟨hds, rfl⟩ := List.append_eq_nil_iff.mp hnil
      have hds : ds = [] := List.map_eq_nil_iff.mp hds
      cases strict
      · exact hshape.elim (fun h ↦ h hds) fun h ↦ h rfl
      · exact hshape.1 hds
    · have hle := inType_signed.mp htype
      have hbound : (if some neg = some true then llongMin else llongMax) ≤ ullongMax := by
        split
        · decide
        · decide
      omega
    · exact htail hshape.2
  · rw [if_neg hbad]
    have hshape : if strict then ds ≠ [] ∧ tail = [] else ds ≠ [] ∨ tail ≠ [] := by
      have hsome : ds ≠ [] ∨ tail ≠ [] := by
        by_contra hnone
        push Not at hnone
        obtain ⟨rfl, rfl⟩ := hnone
        exact hbad (.inl (.inr (.inl h.units)))
      cases strict with
      | false => exact hsome
      | true =>
        have htail : tail = [] := by
          by_contra htail
          exact hbad (.inr (.inr ⟨rfl, htail⟩))
        exact ⟨hsome.resolve_right (not_not.mpr htail), htail⟩
    have hone : (signUnits (some neg)).length ≠ 0 := one_ne_zero
    by_cases htype : InType true (signedValue (some neg) ds)
    · have hlen : (signUnits (some false)).length + ds.length = 1 + ds.length := rfl
      rw [hlen]
      generalize intOf (1 + ds.length : ℕ) = ret
      by_cases hpos : 0 < ret
      · refine iff_of_false ?_ fun h ↦ absurd (h hshape htype) (not_le.mpr hpos)
        rintro ⟨r, hrun, hret⟩
        rw [signedAnswer_eq htype hpos.le fun h ↦ hpos.ne' h.1] at hrun
        split at hrun
        · cases hrun
        · unfold intSum at hrun
          split at hrun
          · obtain rfl := Exec.done.inj hrun
            dsimp only at hret
            cases strict
            · rw [if_neg Bool.false_ne_true] at hret
              omega
            · rw [if_pos rfl] at hret
              omega
          · cases hrun
      · refine iff_of_true (hfail _ ?_) fun _ _ ↦ not_lt.mp hpos
        unfold signedAnswer
        dsimp only
        by_cases hneg : ret < 0
        · rw [if_pos hneg]
        · rw [if_neg hneg, if_pos ⟨by omega, hone⟩]
    · exact iff_of_true (hfail _ (signedAnswer_refused htype _)) fun _ h ↦ absurd h htype

/-- Nothing to read, where no sign is behind the first one. -/
theorem signed_none (hbody : SignedRun false w none [] tail) (sign : Option Bool)
    (hempty : sign = none → w ≠ []) :
    ∃ r, (str2ubigintCall w strict).bind (signedAnswer sign) = .done r ∧
      if strict then r.ret < 0 else r.ret ≤ 0 := by
  rw [hbody.str2ubigintCall strict, Exec.bind_done]
  split
  · refine ⟨_, rfl, ?_⟩
    cases strict
    · decide
    · decide
  · next hgood =>
    cases strict with
    | true =>
      refine absurd ?_ hgood
      by_cases htail : tail = []
      · exact .inl (.inl (by rw [hbody.units, htail]; rfl))
      · exact .inr (.inr ⟨rfl, htail⟩)
    | false =>
      cases sign with
      | none => exact ⟨⟨some 0, 0⟩, rfl, by decide⟩
      | some neg => exact ⟨.failed, rfl, by decide⟩

theorem SignedRun.signed_stray (h : SignedRun true val.units sign [] tail) :
    ReadsInteger true strict val ↔ (sign ≠ none →
      ∀ ds tail', SignedRun false tail (some false) ds tail' →
        (if strict then ds ≠ [] ∧ tail' = [] else ds ≠ [] ∨ tail' ≠ []) →
        InType true (signedValue sign ds) → intOf (1 + ds.length : ℕ) ≤ 0) := by
  rw [readsInteger_of_none h.not_toRead_of_nil]
  have hcall (hne : val.units ≠ []) (hhead : headSign val.units = sign) :
      str2integer true strict val.units =
        (EsOdbc.str2ubigintCall tail strict).bind (signedAnswer sign) := by
    have hcalls := @str2bigintCall_eq strict _ hne
    rw [hhead, h.units, List.drop_left, digitUnits_nil, List.nil_append] at hcalls
    rw [h.units]
    exact hcalls
  cases sign with
  | none =>
    have htail : val.units = tail := h.units
    have hnosign : ∀ c ∈ tail.head?, signOf c = none := fun c hc ↦
      (h.unsigned_head rfl rfl c hc).resolve_right fun h ↦ absurd h.1 (by decide)
    refine iff_of_true ?_ fun hsign ↦ absurd rfl hsign
    by_cases hempty : val.units = []
    · refine ⟨.failed, ?_, ?_⟩
      · rw [hempty]
        rfl
      · cases strict
        · decide
        · decide
    · have hhead : headSign val.units = none := by
        rw [htail, headSign, Option.bind_eq_none_iff]
        exact hnosign
      rw [hcall hempty hhead]
      exact signed_none ⟨rfl, h.tail_head, fun _ ↦ nofun, fun _ _ c hc ↦ .inl (hnosign c hc)⟩ none
        fun _ ↦ htail ▸ hempty
  | some neg =>
    have hhead : headSign val.units = some neg := by
      rw [h.units]
      exact headSign_some neg _
    have hne : val.units ≠ [] := by
      intro hnil
      rw [hnil] at hhead
      cases hhead
    rw [hcall hne hhead]
    obtain ⟨sign', ds, tail', hbody⟩ := exists_signedRun false tail
    have hnil {neg' : Bool} : sign' = none → ¬∃ u, tail = signUnits (some neg') ++ u ∧ neg' = false := by
      rintro rfl ⟨u, hu, rfl⟩
      exact hbody.head?_ne (by rw [hu]; rfl)
    cases sign' with
    | none =>
      have hds : ds = [] := by
        cases ds with
        | nil => rfl
        | cons d ds =>
          have hdigit := h.tail_head (digitUnit d) (by rw [hbody.units]; rfl)
          rw [digitOf_digitUnit] at hdigit
          cases hdigit
      subst hds
      refine iff_of_true (signed_none hbody (some neg) nofun) ?_
      rintro - ds' tail'' hplus
      exact absurd ⟨_, hplus.units, rfl⟩ (hnil rfl)
    | some neg' =>
      cases neg' with
      | true => exact absurd rfl (hbody.unsigned rfl)
      | false =>
        rw [signed_second_iff neg hbody]
        constructor
        · intro hcond _ ds' tail'' hplus
          obtain ⟨rfl, rfl⟩ := hbody.plus_unique hplus
          exact hcond
        · intro hcond
          exact hcond nofun ds tail' hbody

/-- A text is read as described where its digits, and what stands for them, are fine. -/
theorem readsInteger_iff (signed strict : Bool) (val : NumberText) :
    ReadsInteger signed strict val ↔
      DigitsFine signed strict val.units ∧ StrayFine signed strict val.units := by
  have hdigits {sign : Option Bool} {ds : List (Fin 10)} {tail : WStr}
      (h : SignedRun signed val.units sign ds tail) (hds : ds ≠ []) :
      ReadsInteger signed strict val ↔ PartsFine signed strict sign ds tail := by
    cases signed with
    | false => exact h.unsigned_digits hds
    | true => exact h.signed_digits hds
  have hstray {sign : Option Bool} {tail : WStr} (h : SignedRun signed val.units sign [] tail) :
      ReadsInteger signed strict val ↔ (sign ≠ none →
        if signed then ∀ ds tail', SignedRun false tail (some false) ds tail' →
          (if strict then ds ≠ [] ∧ tail' = [] else ds ≠ [] ∨ tail' ≠ []) →
          InType true (signedValue sign ds) → intOf (1 + ds.length : ℕ) ≤ 0
        else strict = true ∨ tail = []) := by
    cases signed with
    | false => exact h.unsigned_stray
    | true => exact h.signed_stray
  constructor
  · intro hreads
    exact ⟨fun _ _ _ h hds ↦ (hdigits h hds).mp hreads, fun _ _ h ↦ (hstray h).mp hreads⟩
  · rintro ⟨hdigit, hrest⟩
    obtain ⟨sign, ds, tail, h⟩ := exists_signedRun signed val.units
    by_cases hds : ds = []
    · subst hds
      exact (hstray h).mpr (hrest sign tail h)
    · exact (hdigits h hds).mpr (hdigit sign ds tail h hds)

/-- The least number of the type. -/
theorem not_readsInteger_least :
    ¬ReadsInteger true true (.narrow (0x2D :: [9, 2, 2, 3, 3, 7, 2, 0, 3, 6, 8, 5, 4, 7, 7, 5, 8, 0,
      8].map (0x30 + ·))) := by
  rintro ⟨r, hrun, -⟩
  have hwraps : str2integer true true (NumberText.units (.narrow (0x2D :: [9, 2, 2, 3, 3, 7, 2, 0, 3,
    6, 8, 5, 4, 7, 7, 5, 8, 0, 8].map (0x30 + ·)))) = .undefined := by decide +kernel
  rw [hwraps] at hrun
  cases hrun

end EsOdbc
