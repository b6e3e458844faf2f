import EsOdbc.Error
import EsOdbc.Lib.LittleEndian
import EsOdbc.Params.Number

/-!
# Integers for the application

`sql2c_quadword` of `convert.c`, with `llong_to_binary`: how an integer of an answer is stored
as one of the C types, a bit or bytes.  The program is the one for 64-bit Windows.  Its targets
that are texts, floating-point numbers, `SQL_C_NUMERIC` and intervals are left out.
-/

namespace EsOdbc

open LittleEndian (intBytes Fits)

/-! ## Lengths -/

/-- What the lengths depend on: whether the column has character or binary data, the attribute
`SQL_ATTR_MAX_LENGTH`, and the size of the application's buffer. -/
structure OctetContext where
  limited : Bool
  maxLength : ℕ
  room : ℕ
deriving DecidableEq, Repr

namespace OctetContext

/-- The limit that `SQL_ATTR_MAX_LENGTH` sets, zero for none. -/
def max (c : OctetContext) : ℕ := if c.limited then c.maxLength else 0

/-- `buff_octet_size`: how much is copied, and whether the buffer is too small. -/
def buffOctetSize (c : OctetContext) (avail unitSize : ℕ) : ℕ × Bool :=
  let maxCopy := if 0 < c.max ∧ c.max < avail then c.max else avail
  let copied := if c.room < maxCopy then c.room else maxCopy
  (copied - copied % unitSize, c.room < maxCopy)

/-- What `write_out_octets` indicates of a length. -/
def indicated (c : OctetContext) (avail : ℕ) : ℤ := if 0 < c.max then c.max else avail

end OctetContext

/-- What the application has bound: the memory from `data_ptr` on, and `*octet_len_ptr`. -/
structure AppSide where
  data : Option (List UInt8)
  octetLen : Option ℤ
deriving DecidableEq, Repr

namespace AppSide

/-- `write_out_octets`. -/
def writeOutOctets (app : AppSide) (c : OctetContext) (avail : ℕ) : AppSide :=
  { app with octetLen := app.octetLen.map fun _ ↦ c.indicated avail }

/-- Bytes are copied to the start of the memory. -/
def poke (app : AppSide) (bs : List UInt8) : AppSide :=
  { app with data := app.data.map fun mem ↦ bs ++ mem.drop bs.length }

end AppSide

/-! ## Integers -/

/-- The bytes of a value of the type. -/
def CFixed.octets (t : CFixed) : ℕ := t.width / 8

/-- The limits that `TRANSFER_QW` is given. -/
def CFixed.limits : CFixed → ℤ × ℤ
  | .tinyint | .stinyint => (-128, 127)
  | .utinyint => (0, 255)
  | .short | .sshort => (-32768, 32767)
  | .ushort => (0, 65535)
  | .long | .slong => (-2147483648, 2147483647)
  | .ulong => (0, 4294967295)
  | .sbigint => (-9223372036854775808, 9223372036854775807)
  | .ubigint => (0, 18446744073709551615)
  | .bit => (0, 1)

/-- `_max < ll`, compared without a sign if the limit is an `unsigned long long`. -/
def exceeds (max ll : ℤ) : Bool := if llongMax < max then max < ll % 2 ^ 64 else max < ll

/-- `TRANSFER_QW`. -/
def transferQw (c : OctetContext) (t : CFixed) (qword : UInt64) (unsignd : Bool) (app : AppSide) :
    SqlState × AppSide :=
  let ull : ℤ := qword.toNat
  let ll := qword.toInt64.toInt
  if app.data = none then (.sHY009, app)
  else if unsignd then
    if ull < 0 ∨ t.limits.2 < ull then (.s22003, app)
    else (.s00000, (app.poke (intBytes t.octets ull)).writeOutOctets c t.octets)
  else
    if ll < t.limits.1 ∨ exceeds t.limits.2 ll then (.s22003, app)
    else (.s00000, (app.poke (intBytes t.octets ll)).writeOutOctets c t.octets)

/-- The case `SQL_C_BIT` of `sql2c_quadword`. -/
def quadwordToBit (c : OctetContext) (qword : UInt64) (app : AppSide) : SqlState × AppSide :=
  let ll := qword.toInt64.toInt
  if app.data = none then (.sHY009, app)
  else if ll ≠ 0 ∧ ll ≠ 1 then (.s22003, app)
  else (.s00000, (app.poke (intBytes 1 ll)).writeOutOctets c 1)

/-- The bytes of the smallest type that `llong_to_binary` finds for a value. -/
def binaryOctets (src : ℤ) : ℕ :=
  if src.natAbs < 127 then 1
  else if src.natAbs < 32767 then 2
  else if src.natAbs < 2147483647 then 4
  else 8

/-- `llong_to_binary`. -/
def llongToBinary (c : OctetContext) (src : ℤ) (app : AppSide) : SqlState × AppSide :=
  let size := c.buffOctetSize (binaryOctets src) 1
  if size.2 then (.s22003, app)
  else (.s00000, (app.poke ((intBytes 8 src).take size.1)).writeOutOctets c size.1)

/-- The C types that are modelled. -/
inductive QuadwordTarget where
  | fixed (t : CFixed)
  | binary
deriving DecidableEq, Repr

/-- `sql2c_quadword`. -/
def sql2cQuadword (c : OctetContext) (target : QuadwordTarget) (qword : UInt64) (unsignd : Bool)
    (app : AppSide) : SqlState × AppSide :=
  match target with
  | .fixed .bit => quadwordToBit c qword app
  | .fixed t => transferQw c t qword unsignd app
  | .binary => llongToBinary c qword.toInt64.toInt app

/-! ## What is stored -/

/-- The value of a quadword. -/
def quadwordValue (unsignd : Bool) (qword : UInt64) : ℤ :=
  if unsignd then qword.toNat else qword.toInt64.toInt

/-- A value that a C type has. -/
def CFixed.Represents (t : CFixed) (z : ℤ) : Prop :=
  if t = .bit then z = 0 ∨ z = 1 else Fits t.signed t.octets z

instance (t : CFixed) (z : ℤ) : Decidable (t.Represents z) := inferInstanceAs (Decidable (ite _ _ _))

theorem CFixed.Represents.fits {t : CFixed} {z : ℤ} (h : t.Represents z) :
    Fits t.signed t.octets z := by
  rw [Represents] at h
  split_ifs at h with ht
  · subst ht
    rcases h with rfl | rfl
    · decide
    · decide
  · exact h

/-- The call succeeds: the field of the type has the value, the memory behind it is left, and the
length is indicated. -/
def StoredAs (c : OctetContext) (t : CFixed) (z : ℤ) (app : AppSide) (r : SqlState × AppSide) : Prop :=
  ∃ field : List UInt8, field.length = t.octets ∧ LittleEndian.read t.signed field = z ∧
    r = (.s00000, (app.poke field).writeOutOctets c t.octets)

theorem CFixed.octets_pos (t : CFixed) : 0 < t.octets := by cases t <;> decide

/-- Between the limits are the values of the type. -/
theorem CFixed.limits_iff {t : CFixed} (ht : t ≠ .bit) {z : ℤ} :
    t.limits.1 ≤ z ∧ z ≤ t.limits.2 ↔ t.Represents z := by
  rw [Represents, if_neg ht]
  cases t <;> simp [limits, Fits, octets, signed, width] at ht ⊢ <;> omega

theorem CFixed.limits_fst_le (t : CFixed) : t.limits.1 ≤ 0 := by cases t <;> decide

/-- A signed quadword is above a limit. -/
theorem exceeds_limits {t : CFixed} {ll : ℤ} (h : ll < 2 ^ 63) (hpos : t.limits.1 ≤ ll) :
    exceeds t.limits.2 ll = true ↔ t.limits.2 < ll := by
  have hmax : (llongMax : ℤ) = 2 ^ 63 - 1 := rfl
  rw [exceeds, hmax]
  split_ifs with hbig
  · have hlimit : t.limits = (0, 18446744073709551615) := by
      cases t <;> simp [CFixed.limits] at hbig ⊢
    rw [hlimit] at hpos ⊢
    simp only [decide_eq_true_eq] at hpos ⊢
    omega
  · rw [decide_eq_true_eq]

theorem quadwordValue_true (q : UInt64) :
    0 ≤ quadwordValue true q ∧ quadwordValue true q < 2 ^ 64 := by
  have hlt := q.toNat_lt
  show 0 ≤ (q.toNat : ℤ) ∧ (q.toNat : ℤ) < 2 ^ 64
  omega

theorem quadwordValue_false (q : UInt64) :
    -2 ^ 63 ≤ quadwordValue false q ∧ quadwordValue false q < 2 ^ 63 :=
  ⟨q.toInt64.le_toInt, q.toInt64.toInt_lt⟩

/-- The two values of a quadword differ if its highest bit is set. -/
theorem quadwordValue_false_eq (q : UInt64) : quadwordValue false q =
    if quadwordValue true q < 2 ^ 63 then quadwordValue true q else quadwordValue true q - 2 ^ 64 := by
  have hbmod : quadwordValue false q = Int.bmod (quadwordValue true q) (2 ^ 64) :=
    BitVec.toInt_eq_toNat_bmod q.toBitVec
  have hval := quadwordValue_true q
  rw [hbmod, Int.bmod_def]
  split_ifs <;> omega

theorem transferQw_eq {t : CFixed} (ht : t ≠ .bit) (c : OctetContext) (qword : UInt64)
    (unsignd : Bool) {app : AppSide} (happ : app.data ≠ none) :
    transferQw c t qword unsignd app =
      if t.Represents (quadwordValue unsignd qword) then
        (.s00000, (app.poke (intBytes t.octets (quadwordValue unsignd qword))).writeOutOctets c t.octets)
      else (.s22003, app) := by
  have hmin := t.limits_fst_le
  rw [transferQw, if_neg happ]
  cases unsignd with
  | true =>
    have hval := quadwordValue_true qword
    have hout : ((qword.toNat : ℤ) < 0 ∨ t.limits.2 < qword.toNat) ↔
        ¬t.Represents (quadwordValue true qword) := by
      rw [← CFixed.limits_iff ht]
      show ((qword.toNat : ℤ) < 0 ∨ _) ↔ ¬(_ ≤ (qword.toNat : ℤ) ∧ (qword.toNat : ℤ) ≤ _)
      omega
    rw [if_pos rfl]
    simp only [hout, ite_not]
    rfl
  | false =>
    have hval := quadwordValue_false qword
    have hout : (qword.toInt64.toInt < t.limits.1 ∨ exceeds t.limits.2 qword.toInt64.toInt = true) ↔
        ¬t.Represents (quadwordValue false qword) := by
      rw [← CFixed.limits_iff ht, not_and_or, not_le, not_le]
      show _ ∨ _ ↔ qword.toInt64.toInt < _ ∨ _ < qword.toInt64.toInt
      by_cases hlow : qword.toInt64.toInt < t.limits.1
      · simp only [hlow, true_or]
      · have habove := exceeds_limits (t := t) hval.2 (not_lt.mp hlow)
        exact or_congr_right habove
    rw [if_neg (by simp)]
    simp only [hout, ite_not]
    rfl

theorem quadwordToBit_eq (c : OctetContext) (qword : UInt64) (unsignd : Bool) {app : AppSide}
    (happ : app.data ≠ none) :
    quadwordToBit c qword app =
      if CFixed.bit.Represents (quadwordValue unsignd qword) then
        (.s00000, (app.poke (intBytes 1 (quadwordValue unsignd qword))).writeOutOctets c 1)
      else (.s22003, app) := by
  have hsame (z : ℤ) (hz : z = 0 ∨ z = 1) :
      quadwordValue false qword = z ↔ quadwordValue unsignd qword = z := by
    have hval := quadwordValue_true qword
    cases unsignd with
    | true =>
      rw [quadwordValue_false_eq]
      split_ifs <;> omega
    | false => rfl
  have hrep : CFixed.bit.Represents (quadwordValue unsignd qword) ↔
      quadwordValue false qword = 0 ∨ quadwordValue false qword = 1 := by
    rw [hsame 0 (.inl rfl), hsame 1 (.inr rfl)]
    exact Iff.rfl
  rw [quadwordToBit, if_neg happ]
  show (if quadwordValue false qword ≠ 0 ∧ quadwordValue false qword ≠ 1 then _
    else (_, (app.poke (intBytes 1 (quadwordValue false qword))).writeOutOctets c 1)) = _
  by_cases h : quadwordValue false qword = 0 ∨ quadwordValue false qword = 1
  · have heq : quadwordValue unsignd qword = quadwordValue false qword := by
      rcases h with h | h
      · rw [h, (hsame 0 (.inl rfl)).mp h]
      · rw [h, (hsame 1 (.inr rfl)).mp h]
    rw [if_neg (by tauto), if_pos (hrep.mpr h), heq]
  · rw [if_pos (by tauto), if_neg (mt hrep.mp h)]

/-! ## What the application gets -/

/-- An integer is stored in the type if the type has it; if not, or if there is no buffer,
nothing is written.  The length that is indicated is that of the type, or the maximum that is set
for a column of characters or bytes. -/
theorem sql2cQuadword_fixed (c : OctetContext) (t : CFixed) (qword : UInt64) (unsignd : Bool)
    (app : AppSide) :
    (app.data = none ∧ sql2cQuadword c (.fixed t) qword unsignd app = (.sHY009, app)) ∨
    (app.data ≠ none ∧
      (t.Represents (quadwordValue unsignd qword) ↔
        StoredAs c t (quadwordValue unsignd qword) app (sql2cQuadword c (.fixed t) qword unsignd app)) ∧
      (¬t.Represents (quadwordValue unsignd qword) ↔
        sql2cQuadword c (.fixed t) qword unsignd app = (.s22003, app))) := by
  by_cases happ : app.data = none
  · refine .inl ⟨happ, ?_⟩
    cases t <;> exact if_pos happ
  refine .inr ⟨happ, ?_⟩
  generalize hz : quadwordValue unsignd qword = z
  have heq : sql2cQuadword c (.fixed t) qword unsignd app =
      if t.Represents z then (.s00000, (app.poke (intBytes t.octets z)).writeOutOctets c t.octets)
      else (.s22003, app) := by
    subst hz
    by_cases ht : t = .bit
    · subst ht
      exact quadwordToBit_eq c qword unsignd happ
    · rw [← transferQw_eq ht c qword unsignd happ]
      cases t <;> first | rfl | exact absurd rfl ht
  rw [heq]
  by_cases hrep : t.Represents z
  · rw [if_pos hrep]
    refine ⟨iff_of_true hrep ⟨_, LittleEndian.length_intBytes _ _, ?_, rfl⟩, ?_⟩
    · exact LittleEndian.read_intBytes.mpr hrep.fits
    · exact iff_of_false (not_not.mpr hrep) (by simp)
  · rw [if_neg hrep]
    refine ⟨iff_of_false hrep ?_, iff_of_true hrep rfl⟩
    rintro ⟨field, -, -, h⟩
    cases h

/-- The length of a text that is read as a `long` is indicated as the maximum that is set. -/
theorem sql2cQuadword_max_length :
    ¬∀ (c : OctetContext) (t : CFixed) (qword : UInt64) (unsignd : Bool) (app : AppSide),
      app.data ≠ none →
        (∃ field : List UInt8, field.length = t.octets ∧
          LittleEndian.read t.signed field = quadwordValue unsignd qword ∧
          sql2cQuadword c (.fixed t) qword unsignd app =
            (.s00000, { app.poke field with octetLen := app.octetLen.map fun _ ↦ (t.octets : ℤ) })) ∨
        sql2cQuadword c (.fixed t) qword unsignd app = (.s22003, app) := by
  intro h
  have hrun : sql2cQuadword ⟨true, 100, 4⟩ (.fixed .slong) 5 false ⟨some [0, 0, 0, 0], some 0⟩ =
      (.s00000, ⟨some [5, 0, 0, 0], some 100⟩) := by decide +kernel
  have hcase := h ⟨true, 100, 4⟩ .slong 5 false ⟨some [0, 0, 0, 0], some 0⟩ (by simp)
  rw [hrun] at hcase
  rcases hcase with ⟨field, -, -, hlen⟩ | hfail
  · simp [CFixed.octets, CFixed.width] at hlen
  · simp at hfail

/-! ## Bytes -/

/-- The bytes that are kept under the maximum that is set. -/
def keptOctets (limited : Bool) (maxLength : ℕ) (src : ℤ) : ℕ :=
  let max := if limited then maxLength else 0
  if 0 < max ∧ max < binaryOctets src then max else binaryOctets src

/-- Whatever the buffer: if it has the room, its bytes are read back as the value, with a sign or
without one as the value has it; else the call fails. -/
def ReadsBack (limited : Bool) (maxLength : ℕ) (unsignd : Bool) (qword : UInt64) : Prop :=
  ∀ (room : ℕ) (app : AppSide), app.data ≠ none →
    let r := sql2cQuadword ⟨limited, maxLength, room⟩ .binary qword unsignd app
    if room < keptOctets limited maxLength (quadwordValue false qword) then r = (.s22003, app)
    else ∃ bs : List UInt8, LittleEndian.read (!unsignd) bs = quadwordValue unsignd qword ∧
      r = (.s00000, (app.poke bs).writeOutOctets ⟨limited, maxLength, room⟩ bs.length)

theorem keptOctets_le (limited : Bool) (maxLength : ℕ) (src : ℤ) :
    keptOctets limited maxLength src ≤ 8 := by
  have hle : binaryOctets src ≤ 8 := by
    unfold binaryOctets
    split_ifs <;> norm_num
  unfold keptOctets
  dsimp only
  split_ifs <;> omega

theorem llongToBinary_eq (c : OctetContext) (src : ℤ) (app : AppSide) :
    llongToBinary c src app =
      if c.room < keptOctets c.limited c.maxLength src then (.s22003, app)
      else (.s00000, (app.poke (intBytes (keptOctets c.limited c.maxLength src) src)).writeOutOctets c
        (keptOctets c.limited c.maxLength src)) := by
  have hle := keptOctets_le c.limited c.maxLength src
  have hsize : c.buffOctetSize (binaryOctets src) 1 =
      (if c.room < keptOctets c.limited c.maxLength src then c.room
        else keptOctets c.limited c.maxLength src,
        decide (c.room < keptOctets c.limited c.maxLength src)) := by
    rw [OctetContext.buffOctetSize]
    simp only [Nat.mod_one, Nat.sub_zero]
    rfl
  rw [llongToBinary, hsize]
  dsimp only
  by_cases hroom : c.room < keptOctets c.limited c.maxLength src
  · simp [hroom]
  · simp [hroom, LittleEndian.take_intBytes hle]

/-- The low bytes are those of the value, with a sign or without. -/
theorem intBytes_quadword {k : ℕ} (hk : k ≤ 8) (unsignd : Bool) (qword : UInt64) :
    intBytes k (quadwordValue false qword) = intBytes k (quadwordValue unsignd qword) := by
  cases unsignd with
  | false => rfl
  | true =>
    have hdvd : (256 : ℤ) ^ k ∣ 2 ^ 64 := by
      have : (2 : ℤ) ^ 64 = 256 ^ 8 := by norm_num
      rw [this]
      exact pow_dvd_pow _ hk
    refine LittleEndian.intBytes_congr ?_
    rw [quadwordValue_false_eq]
    split_ifs
    · rfl
    · rw [Int.sub_emod, Int.emod_eq_zero_of_dvd hdvd, sub_zero, Int.emod_emod]

theorem readsBack_iff_fits (limited : Bool) (maxLength : ℕ) (unsignd : Bool) (qword : UInt64) :
    ReadsBack limited maxLength unsignd qword ↔
      Fits (!unsignd) (keptOctets limited maxLength (quadwordValue false qword))
        (quadwordValue unsignd qword) := by
  have hle := keptOctets_le limited maxLength (quadwordValue false qword)
  have hcall (room : ℕ) (app : AppSide) :
      sql2cQuadword ⟨limited, maxLength, room⟩ .binary qword unsignd app =
        llongToBinary ⟨limited, maxLength, room⟩ (quadwordValue false qword) app := rfl
  rw [← LittleEndian.read_intBytes]
  constructor
  · intro h
    have hfits := h (keptOctets limited maxLength (quadwordValue false qword)) ⟨some [], none⟩ (by simp)
    dsimp only at hfits
    rw [if_neg (lt_irrefl _), hcall, llongToBinary_eq, if_neg (lt_irrefl _)] at hfits
    obtain ⟨bs, hread, hbs⟩ := hfits
    have hdata := congrArg (fun r ↦ r.2.data) hbs
    simp only [AppSide.writeOutOctets, AppSide.poke, Option.map_some, List.drop_nil,
      List.append_nil, Option.some.injEq] at hdata
    rw [← intBytes_quadword hle, hdata]
    exact hread
  · intro h room app _
    dsimp only
    rw [hcall, llongToBinary_eq]
    split_ifs
    · rfl
    · refine ⟨intBytes (keptOctets limited maxLength (quadwordValue false qword))
        (quadwordValue false qword), ?_, ?_⟩
      · rw [intBytes_quadword hle]
        exact h
      · rw [LittleEndian.length_intBytes]

/-- Which values take one, two, four and eight bytes. -/
theorem binaryOctets_cases (src : ℤ) :
    (binaryOctets src = 1 ∧ -127 < src ∧ src < 127) ∨
    (binaryOctets src = 2 ∧ -32767 < src ∧ src < 32767 ∧ (src ≤ -127 ∨ 127 ≤ src)) ∨
    (binaryOctets src = 4 ∧ -2147483647 < src ∧ src < 2147483647 ∧
      (src ≤ -32767 ∨ 32767 ≤ src)) ∨
    (binaryOctets src = 8 ∧ (src ≤ -2147483647 ∨ 2147483647 ≤ src)) := by
  rw [binaryOctets]
  by_cases h1 : src.natAbs < 127
  · rw [if_pos h1]
    exact .inl ⟨rfl, by omega, by omega⟩
  rw [if_neg h1]
  by_cases h2 : src.natAbs < 32767
  · rw [if_pos h2]
    exact .inr (.inl ⟨rfl, by omega, by omega, by omega⟩)
  rw [if_neg h2]
  by_cases h4 : src.natAbs < 2147483647
  · rw [if_pos h4]
    exact .inr (.inr (.inl ⟨rfl, by omega, by omega, by omega⟩))
  · rw [if_neg h4]
    exact .inr (.inr (.inr ⟨rfl, by omega⟩))

theorem fits_true {k : ℕ} {z : ℤ} : Fits true k z ↔ -(256 ^ k : ℤ) ≤ 2 * z ∧ 2 * z < 256 ^ k := Iff.rfl

theorem fits_false {k : ℕ} {z : ℤ} : Fits false k z ↔ 0 ≤ z ∧ z < 256 ^ k := Iff.rfl

/-- The bytes chosen for a signed value are enough for it. -/
theorem fits_binaryOctets_signed (qword : UInt64) :
    Fits true (binaryOctets (quadwordValue false qword)) (quadwordValue false qword) := by
  have hval := quadwordValue_false qword
  generalize quadwordValue false qword = src at *
  rcases binaryOctets_cases src with ⟨hn, h⟩ | ⟨hn, h⟩ | ⟨hn, h⟩ | ⟨hn, h⟩ <;>
    rw [hn, fits_true] <;> norm_num <;> omega

/-- The bytes chosen for an unsigned value are enough for it, unless it is taken for a small
negative one. -/
theorem fits_binaryOctets_unsigned (qword : UInt64) :
    Fits false (binaryOctets (quadwordValue false qword)) (quadwordValue true qword) ↔
      qword.toNat < 2 ^ 63 ∨ qword.toNat ≤ 2 ^ 64 - 2147483647 := by
  have hvalue := quadwordValue_true qword
  have hsame := quadwordValue_false_eq qword
  have hnat : quadwordValue true qword = qword.toNat := rfl
  generalize quadwordValue false qword = src at *
  rw [hnat] at *
  by_cases hbit : (qword.toNat : ℤ) < 2 ^ 63
  · rw [if_pos hbit] at hsame
    rcases binaryOctets_cases src with ⟨hn, h⟩ | ⟨hn, h⟩ | ⟨hn, h⟩ | ⟨hn, h⟩ <;>
      rw [hn, fits_false] <;> norm_num <;> omega
  · rw [if_neg hbit] at hsame
    rcases binaryOctets_cases src with ⟨hn, h⟩ | ⟨hn, h⟩ | ⟨hn, h⟩ | ⟨hn, h⟩ <;>
      rw [hn, fits_false] <;> norm_num <;> omega

theorem fits_binaryOctets (unsignd : Bool) (qword : UInt64) :
    Fits (!unsignd) (binaryOctets (quadwordValue false qword)) (quadwordValue unsignd qword) ↔
      (unsignd = true → qword.toNat < 2 ^ 63 ∨ qword.toNat ≤ 2 ^ 64 - 2147483647) := by
  cases unsignd with
  | false => exact iff_of_true (fits_binaryOctets_signed qword) (by simp)
  | true =>
    rw [Bool.not_true, fits_binaryOctets_unsigned]
    exact ⟨fun h _ ↦ h, fun h ↦ h rfl⟩

/-- Bytes give back a signed value whatever it is, and an unsigned one unless its highest bit is
set and it is that of a negative number that takes less than eight bytes.  A maximum length has to
be enough for the value. -/
theorem readsBack_iff (limited : Bool) (maxLength : ℕ) (unsignd : Bool) (qword : UInt64) :
    ReadsBack limited maxLength unsignd qword ↔
      (unsignd = true → qword.toNat < 2 ^ 63 ∨ qword.toNat ≤ 2 ^ 64 - 2147483647) ∧
      (limited = true → 0 < maxLength → Fits (!unsignd) maxLength (quadwordValue unsignd qword)) := by
  rw [readsBack_iff_fits, ← fits_binaryOctets]
  generalize hn : binaryOctets (quadwordValue false qword) = n
  have hkept : keptOctets limited maxLength (quadwordValue false qword) =
      if limited = true ∧ 0 < maxLength ∧ maxLength < n then maxLength else n := by
    subst hn
    cases limited <;> simp [keptOctets]
  rw [hkept]
  by_cases hcut : limited = true ∧ 0 < maxLength ∧ maxLength < n
  · obtain ⟨hlimited, hpos, hlt⟩ := hcut
    rw [if_pos ⟨hlimited, hpos, hlt⟩]
    constructor
    · intro h
      exact ⟨h.mono hlt.le, fun _ _ ↦ h⟩
    · intro h
      exact h.2 hlimited hpos
  · rw [if_neg hcut]
    constructor
    · intro h
      refine ⟨h, fun hlimited hpos ↦ h.mono ?_⟩
      exact not_lt.mp fun hlt ↦ hcut ⟨hlimited, hpos, hlt⟩
    · exact And.left

/-- The largest unsigned integer is written as one byte. -/
theorem readsBack_largest :
    ¬∀ (unsignd : Bool) (qword : UInt64), ReadsBack false 0 unsignd qword := by
  intro h
  have hlargest := h true 18446744073709551615 8 ⟨some [], none⟩ (by simp)
  have hrun : sql2cQuadword ⟨false, 0, 8⟩ .binary 18446744073709551615 true ⟨some [], none⟩ =
      (.s00000, ⟨some [255], none⟩) := by decide +kernel
  have hkept : keptOctets false 0 (quadwordValue false 18446744073709551615) = 1 := by
    decide +kernel
  dsimp only at hlargest
  rw [hrun, hkept, if_neg (by norm_num)] at hlargest
  obtain ⟨bs, hread, hbs⟩ := hlargest
  have hdata : bs = [255] := by
    simpa [AppSide.writeOutOctets, AppSide.poke, eq_comm] using hbs
  subst hdata
  revert hread
  decide +kernel

end EsOdbc
