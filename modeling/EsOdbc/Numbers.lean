import EsOdbc.Lib.Decimal
import EsOdbc.Ujson

/-!
# Numbers in texts

`str2ubigint` and `str2bigint` of `util.c` and `pow10` of `convert.c`.  A narrow text is
read as the wide one with the same units.  A count of units is returned in an `int`: both
decoders of an answer keep a text below `INT_MAX` units, as the `assert` of `str2ubigint`
expects.
-/

namespace EsOdbc

/-- `ULLONG_MAX`. -/
def ullongMax : ℕ := 2 ^ 64 - 1

/-- `LLONG_MAX`. -/
def llongMax : ℕ := 2 ^ 63 - 1

/-- `(SQLUBIGINT)LLONG_MIN`. -/
def llongMin : ℕ := 2 ^ 63

/-- `ESODBC_PRECISION_UINT64`. -/
def precisionUInt64 : ℕ := 20

/-- The digit a unit is. -/
def digitOf (c : UInt16) : Option ℕ :=
  if 0x30 ≤ c ∧ c ≤ 0x39 then some (c.toNat - 0x30) else none

/-- The loop of `str2ubigint`, at position `i` of the text with `res` read. -/
def ubigintLoop (strict : Bool) (i res : ℕ) : WStr → Option (ℕ × ℕ)
  | [] => some (res, i)
  | c :: rest =>
    match digitOf c with
    | none => if strict then none else some (res, i)
    | some digit =>
      if i < precisionUInt64 - 1 then
        ubigintLoop strict (i + 1) (res * 10 + digit) rest
      else if ullongMax / 10 < res then
        none
      else if ullongMax - res * 10 < digit then
        none
      else
        ubigintLoop strict (i + 1) (res * 10 + digit) rest

/-- `str2ubigint`: the number at the start of a text and the count of units it takes.
The last test of the source reads `digit`, which the loop overwrites: a lone `[`, being
`+` past `0`, fails it too. -/
def str2ubigint (val : WStr) (strict : Bool) : Option (ℕ × ℕ) :=
  if val = [] then
    none
  else
    let read := if val.head? = some 0x2B
      then ubigintLoop strict 1 0 val.tail
      else ubigintLoop strict 0 0 val
    if val = [0x2B] ∨ val = [0x5B] then none else read

/-- The sign `str2bigint` strips: whether it is `-`. -/
def signOf (c : UInt16) : Option Bool :=
  if c = 0x2D then some true else if c = 0x2B then some false else none

/-- `str2bigint`. -/
def str2bigint (val : WStr) (strict : Bool) : Option (ℤ × ℕ) :=
  if val = [] then
    none
  else
    let sign := val.head?.bind signOf
    let i := if sign.isSome then 1 else 0
    match str2ubigint (val.drop i) strict with
    | none => none
    | some (ull, ret) =>
      if ret = 0 ∧ i ≠ 0 then
        none
      else if sign = some true then
        if llongMin < ull then none else some (-(ull : ℤ), ret + i)
      else
        if llongMax < ull then none else some ((ull : ℤ), ret + i)

/-- `pow10`: shifted into place and multiplied by five `n` times, in 64 bits.  A shift by
the width or more takes the count modulo the width, as the processor does. -/
def pow10 (n : ℕ) : ℕ :=
  (fun pow ↦ (pow + pow * 4) % 2 ^ 64)^[n] (2 ^ (n % 64))

/-! ## Reading a numeral -/

/-- The unit of a digit. -/
def digitUnit (d : Fin 10) : UInt16 := UInt16.ofNat (0x30 + d)

/-- The text of a numeral. -/
def digitUnits (ds : List (Fin 10)) : WStr := ds.map digitUnit

@[simp] theorem digitUnits_nil : digitUnits [] = [] := rfl

@[simp] theorem digitUnits_cons (d : Fin 10) (ds : List (Fin 10)) :
    digitUnits (d :: ds) = digitUnit d :: digitUnits ds := rfl

@[simp] theorem digitUnits_length (ds : List (Fin 10)) : (digitUnits ds).length = ds.length :=
  List.length_map _

@[simp] theorem digitOf_digitUnit (d : Fin 10) : digitOf (digitUnit d) = some d.val := by
  revert d
  decide

theorem digitUnits_injective : Function.Injective digitUnits :=
  List.map_injective_iff.mpr fun d e h ↦ by
    have hval := congrArg digitOf h
    rwa [digitOf_digitUnit, digitOf_digitUnit, Option.some.injEq, Fin.val_inj] at hval

theorem signOf_digitUnit (d : Fin 10) : signOf (digitUnit d) = none := by
  revert d
  decide

theorem digitUnit_ne (d : Fin 10) : digitUnit d ≠ 0x2B ∧ digitUnit d ≠ 0x5B := by
  revert d
  decide

theorem ullongMax_eq : ullongMax = 18446744073709551615 := rfl

/-- The loop reads a numeral up to a unit that is no digit; it fails when the number does
not fit.  While no check is made the number has no more digits than the position. -/
theorem ubigintLoop_digits (i n : ℕ) (ds : List (Fin 10)) (rest : WStr)
    (hrest : ∀ c ∈ rest.head?, digitOf c = none) (hn : n ≤ ullongMax) (hi : n < 10 ^ i) :
    ubigintLoop false i n (digitUnits ds ++ rest) =
      if Decimal.extend n ds ≤ ullongMax then some (Decimal.extend n ds, i + ds.length)
      else none := by
  have hmax := ullongMax_eq
  induction ds generalizing i n with
  | nil =>
    cases rest with
    | nil => simp [ubigintLoop, hn]
    | cons c rest => simp [ubigintLoop, hrest c rfl, hn]
  | cons d ds ih =>
    have hd := d.isLt
    have hi' : n * 10 + d < 10 ^ (i + 1) := by
      rw [pow_succ]
      omega
    have hread : n * 10 + d ≤ ullongMax → ubigintLoop false (i + 1) (n * 10 + d)
        (digitUnits ds ++ rest) =
          if Decimal.extend n (d :: ds) ≤ ullongMax
          then some (Decimal.extend n (d :: ds), i + (d :: ds).length) else none := by
      intro h
      rw [ih (i + 1) (n * 10 + d) h hi', Decimal.extend_cons, List.length_cons, Nat.add_assoc i,
        Nat.add_comm 1]
    have hover : ¬ n * 10 + d ≤ ullongMax → ¬ Decimal.extend n (d :: ds) ≤ ullongMax := by
      intro h h'
      exact h ((Decimal.le_extend _ ds).trans h')
    simp only [digitUnits_cons, List.cons_append, ubigintLoop, digitOf_digitUnit]
    by_cases hpos : i < precisionUInt64 - 1
    · rw [if_pos hpos]
      refine hread (hi'.le.trans ((Nat.pow_le_pow_right (by norm_num) (?_ : i + 1 ≤ 19)).trans ?_))
      · simp only [precisionUInt64] at hpos
        omega
      · norm_num [ullongMax]
    · rw [if_neg hpos]
      by_cases hdiv : ullongMax / 10 < n
      · rw [if_pos hdiv, if_neg (hover (by omega))]
      · rw [if_neg hdiv]
        by_cases hlast : ullongMax - n * 10 < d
        · rw [if_pos hlast, if_neg (hover (by omega))]
        · rw [if_neg hlast]
          exact hread (by omega)

/-- `str2ubigint` on a numeral that something follows. -/
theorem str2ubigint_digits (ds : List (Fin 10)) (c : UInt16) (rest : WStr)
    (hc : digitOf c = none) (hplus : c ≠ 0x2B) (hlone : ds = [] → rest = [] → c ≠ 0x5B) :
    str2ubigint (digitUnits ds ++ c :: rest) false =
      if Decimal.ofDigits ds ≤ ullongMax then some (Decimal.ofDigits ds, ds.length)
      else none := by
  have hloop := ubigintLoop_digits 0 0 ds (c :: rest) (by simpa using hc) (Nat.zero_le _)
    (by norm_num)
  rw [Nat.zero_add] at hloop
  have hne : digitUnits ds ++ c :: rest ≠ [] := by simp
  have hhead : (digitUnits ds ++ c :: rest).head? ≠ some 0x2B := by
    cases ds with
    | nil => simpa [digitUnits] using hplus
    | cons d ds => simpa [digitUnits] using (digitUnit_ne d).1
  have hend : ¬ (digitUnits ds ++ c :: rest = [0x2B] ∨ digitUnits ds ++ c :: rest = [0x5B]) := by
    cases ds with
    | nil =>
      rintro (h | h) <;> simp only [digitUnits, List.map_nil, List.nil_append, List.cons.injEq] at h
      · exact hplus h.1
      · exact hlone rfl h.2 h.1
    | cons d ds =>
      rintro (h | h) <;> have := congrArg List.length h <;> simp at this
  simp only [str2ubigint, if_neg hne, if_neg hhead, if_neg hend]
  exact hloop

/-! ## What was read -/

theorem digitOf_eq_some {c : UInt16} {n : ℕ} (h : digitOf c = some n) :
    ∃ d : Fin 10, c = digitUnit d ∧ n = d := by
  unfold digitOf at h
  split at h
  · next hc =>
    obtain ⟨hlo, hhi⟩ := hc
    rw [UInt16.le_iff_toNat_le] at hlo hhi
    have hlo : 0x30 ≤ c.toNat := hlo
    have hhi : c.toNat ≤ 0x39 := hhi
    obtain rfl := Option.some.inj h
    refine ⟨⟨c.toNat - 0x30, by omega⟩, ?_, rfl⟩
    rw [← UInt16.toNat_inj, digitUnit, UInt16.toNat_ofNat']
    dsimp only
    omega
  · cases h

/-- A text is digits up to another unit. -/
theorem exists_digitUnits (w : WStr) :
    ∃ ds rest, w = digitUnits ds ++ rest ∧ ∀ c ∈ rest.head?, digitOf c = none := by
  induction w with
  | nil => exact ⟨[], [], rfl, by simp⟩
  | cons c w ih =>
    cases hc : digitOf c with
    | none => exact ⟨[], c :: w, rfl, by simpa using hc⟩
    | some n =>
      obtain ⟨d, rfl, -⟩ := digitOf_eq_some hc
      obtain ⟨ds, rest, rfl, hrest⟩ := ih
      exact ⟨d :: ds, rest, rfl, hrest⟩

theorem digitUnits_append_inj {ds es : List (Fin 10)} {u w : WStr}
    (hu : ∀ c ∈ u.head?, digitOf c = none) (hw : ∀ c ∈ w.head?, digitOf c = none)
    (h : digitUnits ds ++ u = digitUnits es ++ w) : ds = es ∧ u = w := by
  induction ds generalizing es with
  | nil =>
    cases es with
    | nil => exact ⟨rfl, h⟩
    | cons e es =>
      have hhead := hu (digitUnit e) (by rw [digitUnits_nil, List.nil_append] at h; simp [h])
      simp at hhead
  | cons d ds ih =>
    cases es with
    | nil =>
      have hhead := hw (digitUnit d) (by rw [digitUnits_nil, List.nil_append] at h; simp [← h])
      simp at hhead
    | cons e es =>
      rw [digitUnits_cons, digitUnits_cons, List.cons_append, List.cons_append,
        List.cons.injEq] at h
      obtain ⟨rfl, rfl⟩ := ih h.2
      have hval := congrArg digitOf h.1
      rw [digitOf_digitUnit, digitOf_digitUnit, Option.some.injEq, Fin.val_inj] at hval
      exact ⟨by rw [hval], rfl⟩

/-- The loop stops behind the digits. -/
theorem ubigintLoop_eq_some {strict : Bool} {i n m j : ℕ} {w : WStr}
    (h : ubigintLoop strict i n w = some (m, j)) :
    ∃ ds rest, w = digitUnits ds ++ rest ∧ m = Decimal.extend n ds ∧ j = i + ds.length ∧
      (∀ c ∈ rest.head?, digitOf c = none) ∧ (strict = true → rest = []) := by
  induction w generalizing i n with
  | nil =>
    rw [ubigintLoop, Option.some.injEq, Prod.mk.injEq] at h
    exact ⟨[], [], rfl, h.1.symm, h.2.symm, nofun, fun _ ↦ rfl⟩
  | cons c w ih =>
    rw [ubigintLoop] at h
    cases hc : digitOf c with
    | none =>
      simp only [hc] at h
      split at h
      · cases h
      · next hstrict =>
        rw [Option.some.injEq, Prod.mk.injEq] at h
        refine ⟨[], c :: w, rfl, h.1.symm, h.2.symm, ?_, fun hs ↦ absurd hs hstrict⟩
        rintro _ ⟨⟩
        exact hc
    | some k =>
      obtain ⟨d, rfl, rfl⟩ := digitOf_eq_some hc
      have hrec : ubigintLoop strict (i + 1) (n * 10 + d) w = some (m, j) := by
        simp only [hc] at h
        split at h
        · exact h
        · split at h
          · cases h
          · split at h
            · cases h
            · exact h
      obtain ⟨ds, rest, rfl, rfl, rfl, hrest, hstrict⟩ := ih hrec
      refine ⟨d :: ds, rest, rfl, rfl, ?_, hrest, hstrict⟩
      rw [List.length_cons]
      omega

/-- What the loop reads fits 64 bits.  While no check is made the number has no more digits than
the position. -/
theorem ubigintLoop_fits {strict : Bool} {i n m j : ℕ} {w : WStr}
    (h : ubigintLoop strict i n w = some (m, j)) (hn : n ≤ ullongMax) (hi : n < 10 ^ i) :
    m ≤ ullongMax := by
  have hmax := ullongMax_eq
  induction w generalizing i n with
  | nil =>
    rw [ubigintLoop, Option.some.injEq, Prod.mk.injEq] at h
    exact h.1 ▸ hn
  | cons c w ih =>
    rw [ubigintLoop] at h
    cases hc : digitOf c with
    | none =>
      simp only [hc] at h
      split at h
      · cases h
      · rw [Option.some.injEq, Prod.mk.injEq] at h
        exact h.1 ▸ hn
    | some k =>
      obtain ⟨d, rfl, rfl⟩ := digitOf_eq_some hc
      have hd := d.isLt
      have hi' : n * 10 + d < 10 ^ (i + 1) := by
        rw [pow_succ]
        omega
      simp only [hc] at h
      split at h
      · next hpos =>
        refine ih h ?_ hi'
        have hpow : 10 ^ (i + 1) ≤ 10 ^ 19 :=
          Nat.pow_le_pow_right (by norm_num) (by rw [precisionUInt64] at hpos; omega)
        omega
      · split at h
        · cases h
        · split at h
          · cases h
          · exact ih h (by omega) hi'

theorem str2ubigint_fits {strict : Bool} {m j : ℕ} {w : WStr}
    (h : str2ubigint w strict = some (m, j)) : m ≤ ullongMax := by
  rw [str2ubigint] at h
  split at h
  · cases h
  · dsimp only at h
    split at h
    · cases h
    · split at h
      · exact ubigintLoop_fits h (Nat.zero_le _) (by norm_num)
      · exact ubigintLoop_fits h (Nat.zero_le _) (by norm_num)

/-- `str2ubigint` on a text that does not start with a `+`. -/
theorem str2ubigint_eq_some {strict : Bool} {m j : ℕ} {w : WStr}
    (h : str2ubigint w strict = some (m, j)) (hplus : w.head? ≠ some 0x2B) :
    ∃ ds rest, w = digitUnits ds ++ rest ∧ m = Decimal.ofDigits ds ∧ j = ds.length ∧
      (∀ c ∈ rest.head?, digitOf c = none) ∧ (strict = true → rest = []) := by
  rw [str2ubigint, if_neg hplus] at h
  split at h
  · cases h
  · dsimp only at h
    split at h
    · cases h
    · obtain ⟨ds, rest, hw, hm, hj, hrest, hstrict⟩ := ubigintLoop_eq_some h
      exact ⟨ds, rest, hw, hm, hj.trans (Nat.zero_add _), hrest, hstrict⟩

/-- The text of a sign. -/
def signUnits (sign : Option Bool) : WStr := sign.elim [] fun neg ↦ [if neg then 0x2D else 0x2B]

theorem signOf_eq_some {c : UInt16} {neg : Bool} (h : signOf c = some neg) :
    c = if neg then 0x2D else 0x2B := by
  unfold signOf at h
  split at h
  · next hc =>
    obtain rfl := Option.some.inj h
    exact hc
  · split at h
    · next hc =>
      obtain rfl := Option.some.inj h
      exact hc
    · cases h

/-- `str2bigint` on a text without a `+` after a sign. -/
theorem str2bigint_eq_some {strict : Bool} {b : ℤ} {n : ℕ} {w : WStr}
    (h : str2bigint w strict = some (b, n))
    (hplus : ∀ c ∈ w.head?, signOf c ≠ none → w.tail.head? ≠ some 0x2B) :
    ∃ sign ds rest, w = signUnits sign ++ (digitUnits ds ++ rest) ∧
      n = (signUnits sign ++ digitUnits ds).length ∧
      b = (if sign = some true then -(Decimal.ofDigits ds : ℤ) else Decimal.ofDigits ds) ∧
      Decimal.ofDigits ds ≤ (if sign = some true then llongMin else llongMax) ∧
      (sign.isSome = true → ds ≠ []) ∧ (∀ c ∈ rest.head?, digitOf c = none) ∧
      (strict = true → rest = []) := by
  rw [str2bigint] at h
  split at h
  · cases h
  · next hw =>
    obtain ⟨c, w, rfl⟩ := List.exists_cons_of_ne_nil hw
    have hplus := hplus c rfl
    rw [List.tail_cons] at hplus
    simp only [List.head?_cons, Option.bind_some] at h
    cases hsign : signOf c with
    | none =>
      have hhead : (c :: w).head? ≠ some 0x2B := by
        rintro ⟨⟩
        cases hsign
      simp only [hsign, Option.isSome_none, Bool.false_eq_true, if_false, List.drop_zero] at h
      split at h
      · cases h
      · next ull ret hread =>
        obtain ⟨ds, rest, hw', rfl, rfl, hrest, hstrict⟩ := str2ubigint_eq_some hread hhead
        simp only [ne_eq, not_true, and_false, if_false, reduceCtorEq] at h
        split at h
        · cases h
        · next hle =>
          rw [Option.some.injEq, Prod.mk.injEq] at h
          exact ⟨none, ds, rest, hw', by simpa [signUnits] using h.2.symm, h.1.symm,
            Nat.le_of_not_lt hle, nofun, hrest, hstrict⟩
    | some neg =>
      simp only [hsign, Option.isSome_some, if_true, List.drop_succ_cons, List.drop_zero] at h
      split at h
      · cases h
      · next ull ret hread =>
        obtain ⟨ds, rest, rfl, rfl, rfl, hrest, hstrict⟩ :=
          str2ubigint_eq_some hread (hplus (by simp [hsign]))
        split at h
        · cases h
        · next hdigits =>
          have hds : ds ≠ [] := by
            rintro rfl
            exact hdigits ⟨rfl, one_ne_zero⟩
          refine ⟨some neg, ds, rest, ?_, ?_⟩
          · rw [signOf_eq_some hsign]
            rfl
          · cases neg
            all_goals
              simp only [Option.some.injEq, Bool.false_eq_true, if_false, if_true] at h ⊢
              split at h
              · cases h
              · next hle =>
                rw [Option.some.injEq, Prod.mk.injEq] at h
                exact ⟨by simpa [signUnits, Nat.add_comm] using h.2.symm, h.1.symm,
                  Nat.le_of_not_lt hle, fun _ ↦ hds, hrest, hstrict⟩

/-! ## The powers of ten -/

theorem iterate_five (n p : ℕ) :
    (fun pow ↦ (pow + pow * 4) % 2 ^ 64)^[n] p % 2 ^ 64 = p * 5 ^ n % 2 ^ 64 := by
  induction n generalizing p with
  | zero => simp
  | succ n ih =>
    rw [Function.iterate_succ_apply, ih, Nat.mod_mul_mod, pow_succ]
    congr 1
    ring

theorem pow10_lt (n : ℕ) : pow10 n < 2 ^ 64 := by
  unfold pow10
  cases n with
  | zero => norm_num
  | succ n =>
    rw [Function.iterate_succ_apply']
    exact Nat.mod_lt _ (by norm_num)

theorem pow10_eq_mod {n : ℕ} (hn : n < 64) : pow10 n = 10 ^ n % 2 ^ 64 := by
  rw [← Nat.mod_eq_of_lt (pow10_lt n), pow10, iterate_five, Nat.mod_eq_of_lt hn, ← mul_pow]
  norm_num

/-- The power is that of ten as long as it fits. -/
theorem pow10_eq_iff {n : ℕ} : pow10 n = 10 ^ n ↔ n < 20 := by
  constructor
  · intro h
    by_contra hn
    have hle : 10 ^ 20 ≤ 10 ^ n := Nat.pow_le_pow_right (by norm_num) (not_lt.mp hn)
    have hlt := pow10_lt n
    omega
  · intro h
    have hle : 10 ^ n ≤ 10 ^ 19 := Nat.pow_le_pow_right (by norm_num) (by omega)
    rw [pow10_eq_mod (by omega), Nat.mod_eq_of_lt (by omega)]

theorem pow10_pos (n : ℕ) : 0 < pow10 n := by
  have hmod : pow10 n % 2 ^ 64 = 2 ^ (n % 64) * 5 ^ n % 2 ^ 64 := iterate_five n _
  rcases Nat.eq_zero_or_pos (pow10 n) with h | h
  · rw [h, Nat.zero_mod] at hmod
    have hdvd : 2 ^ 64 ∣ 2 ^ (n % 64) * 5 ^ n := Nat.dvd_of_mod_eq_zero hmod.symm
    have hcop : Nat.Coprime (2 ^ 64) (5 ^ n) := Nat.Coprime.pow _ _ (by norm_num)
    have hle := Nat.le_of_dvd (by positivity) (hcop.dvd_of_dvd_mul_right hdvd)
    have hlt : 2 ^ (n % 64) < 2 ^ 64 := Nat.pow_lt_pow_right (by norm_num) (Nat.mod_lt _ (by norm_num))
    omega
  · exact h

/-- Dividing a number of 32 bits by the power is dividing it by the power it stands for. -/
theorem div_pow10 {n v : ℕ} (hn : n < 64) (hv : v < 2 ^ 32) : v / pow10 n = v / 10 ^ n := by
  rw [pow10_eq_mod hn]
  by_cases h : n < 20
  · rw [Nat.mod_eq_of_lt ((Nat.pow_le_pow_right (by norm_num) (by omega : n ≤ 19)).trans_lt
      (by norm_num))]
  · have hbig : ∀ n < 64, 20 ≤ n → 2 ^ 32 ≤ 10 ^ n % 2 ^ 64 := by decide
    rw [Nat.div_eq_of_lt (hv.trans_le (hbig n hn (by omega))), Nat.div_eq_of_lt]
    exact hv.trans_le ((by norm_num : 2 ^ 32 ≤ 10 ^ 20).trans
      (Nat.pow_le_pow_right (by norm_num) (by omega)))

end EsOdbc
