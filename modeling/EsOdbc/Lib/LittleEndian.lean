import Mathlib

/-!
# Little-endian bytes

The bytes of a number, least significant first, and the numbers that bytes stand for, without
a sign and in two's complement.
-/

namespace LittleEndian

/-- The low bytes of a number. -/
def bytes : ℕ → ℕ → List UInt8
  | 0, _ => []
  | k + 1, n => UInt8.ofNat n :: bytes k (n / 256)

/-- The number that bytes stand for. -/
def value : List UInt8 → ℕ
  | [] => 0
  | b :: bs => b.toNat + 256 * value bs

/-- The low bytes of an integer in two's complement. -/
def intBytes (k : ℕ) (z : ℤ) : List UInt8 := bytes k (z % 256 ^ k).toNat

/-- The number that bytes stand for in two's complement. -/
def signedValue (bs : List UInt8) : ℤ := Int.bmod (value bs) (256 ^ bs.length)

/-- An integer of so many bytes. -/
def Fits (signed : Bool) (k : ℕ) (z : ℤ) : Prop :=
  if signed then -(256 ^ k : ℤ) ≤ 2 * z ∧ 2 * z < 256 ^ k else 0 ≤ z ∧ z < 256 ^ k

instance (signed : Bool) (k : ℕ) (z : ℤ) : Decidable (Fits signed k z) :=
  inferInstanceAs (Decidable (ite _ _ _))

/-- The number that bytes stand for, with a sign or without. -/
def read (signed : Bool) (bs : List UInt8) : ℤ := if signed then signedValue bs else value bs

/-- What fits in some bytes fits in more. -/
theorem Fits.mono {signed : Bool} {j k : ℕ} {z : ℤ} (h : Fits signed j z) (hjk : j ≤ k) :
    Fits signed k z := by
  have hle : (256 : ℤ) ^ j ≤ 256 ^ k := pow_le_pow_right₀ (by norm_num) hjk
  cases signed with
  | false => exact ⟨h.1, h.2.trans_le hle⟩
  | true => exact ⟨(neg_le_neg hle).trans h.1, h.2.trans_le hle⟩

@[simp] theorem length_bytes (k n : ℕ) : (bytes k n).length = k := by
  induction k generalizing n with
  | zero => rfl
  | succ k ih => rw [bytes, List.length_cons, ih]

@[simp] theorem length_intBytes (k : ℕ) (z : ℤ) : (intBytes k z).length = k := length_bytes _ _

@[simp] theorem value_bytes (k n : ℕ) : value (bytes k n) = n % 256 ^ k := by
  induction k generalizing n with
  | zero => simp [bytes, value, Nat.mod_one]
  | succ k ih =>
    have hb : (UInt8.ofNat n).toNat = n % 256 := UInt8.toNat_ofNat'
    rw [bytes, value, ih, hb, pow_succ', Nat.mod_mul]

theorem value_append (bs cs : List UInt8) :
    value (bs ++ cs) = value bs + 256 ^ bs.length * value cs := by
  induction bs with
  | nil => rw [List.nil_append, List.length_nil, pow_zero, one_mul, value, Nat.zero_add]
  | cons b bs ih =>
    rw [List.cons_append, value, value, ih, List.length_cons, pow_succ']
    ring

@[simp] theorem value_zeros (k : ℕ) : value (List.replicate k 0) = 0 := by
  induction k with
  | zero => rfl
  | succ k ih => rw [List.replicate_succ, value, ih]; rfl

theorem value_lt (bs : List UInt8) : value bs < 256 ^ bs.length := by
  induction bs with
  | nil => exact Nat.one_pos
  | cons b bs ih =>
    have hb := b.toNat_lt
    rw [value, List.length_cons, pow_succ']
    omega

theorem bytes_value (bs : List UInt8) : bytes bs.length (value bs) = bs := by
  induction bs with
  | nil => rfl
  | cons b bs ih =>
    have hb := b.toNat_lt
    have hlow : UInt8.ofNat (b.toNat + 256 * value bs) = b := by
      rw [← UInt8.toNat_inj, UInt8.toNat_ofNat']
      omega
    have hhigh : (b.toNat + 256 * value bs) / 256 = value bs := by omega
    rw [List.length_cons, value, bytes, hlow, hhigh, ih]

theorem take_bytes {j k : ℕ} (h : j ≤ k) (n : ℕ) : (bytes k n).take j = bytes j n := by
  induction j generalizing k n with
  | zero => rfl
  | succ j ih =>
    cases k with
    | zero => omega
    | succ k => rw [bytes, List.take_succ_cons, ih (by omega), bytes]

theorem bytes_mod (k n : ℕ) : bytes k (n % 256 ^ k) = bytes k n := by
  induction k generalizing n with
  | zero => rfl
  | succ k ih =>
    have hlow : UInt8.ofNat (n % 256 ^ (k + 1)) = UInt8.ofNat n := by
      rw [← UInt8.toNat_inj, UInt8.toNat_ofNat', UInt8.toNat_ofNat']
      exact Nat.mod_mod_of_dvd n (dvd_pow_self 256 k.succ_ne_zero)
    have hhigh : n % 256 ^ (k + 1) / 256 = n / 256 % 256 ^ k := by
      rw [pow_succ', Nat.mod_mul_right_div_self]
    rw [bytes, bytes, hlow, hhigh, ih]

/-- The low bytes of an integer depend on its residue only. -/
theorem intBytes_congr {k : ℕ} {z z' : ℤ} (h : z % 256 ^ k = z' % 256 ^ k) :
    intBytes k z = intBytes k z' := by rw [intBytes, intBytes, h]

theorem take_intBytes {j k : ℕ} (h : j ≤ k) (z : ℤ) : (intBytes k z).take j = intBytes j z := by
  have hdvd : (256 : ℤ) ^ j ∣ 256 ^ k := pow_dvd_pow _ h
  have hpos (i : ℕ) : (0 : ℤ) < 256 ^ i := by positivity
  have hmod : (z % 256 ^ k).toNat % 256 ^ j = (z % 256 ^ j).toNat := by
    zify
    rw [Int.toNat_of_nonneg (Int.emod_nonneg z (hpos k).ne'),
      Int.toNat_of_nonneg (Int.emod_nonneg z (hpos j).ne'), Int.emod_emod_of_dvd z hdvd]
  rw [intBytes, take_bytes h, ← bytes_mod, hmod, intBytes]

theorem value_intBytes (k : ℕ) (z : ℤ) : (value (intBytes k z) : ℤ) = z % 256 ^ k := by
  have hpos : (0 : ℤ) < 256 ^ k := by positivity
  have hmod := Int.emod_nonneg z hpos.ne'
  have hlt := Int.emod_lt_of_pos z hpos
  rw [intBytes, value_bytes, Nat.mod_eq_of_lt]
  · exact Int.toNat_of_nonneg hmod
  · zify
    rw [Int.toNat_of_nonneg hmod]
    exact hlt

/-- Bytes are read back as an integer that fits in them, and as no other. -/
theorem read_intBytes {signed : Bool} {k : ℕ} {z : ℤ} :
    read signed (intBytes k z) = z ↔ Fits signed k z := by
  have hpos : (0 : ℤ) < 256 ^ k := by positivity
  cases signed with
  | false =>
    show (value (intBytes k z) : ℤ) = z ↔ 0 ≤ z ∧ z < 256 ^ k
    rw [value_intBytes]
    constructor
    · intro h
      exact ⟨h ▸ Int.emod_nonneg z hpos.ne', h ▸ Int.emod_lt_of_pos z hpos⟩
    · rintro ⟨h, h'⟩
      exact Int.emod_eq_of_lt h h'
  | true =>
    show Int.bmod (value (intBytes k z)) (256 ^ (intBytes k z).length) = z ↔
      -(256 ^ k : ℤ) ≤ 2 * z ∧ 2 * z < 256 ^ k
    rw [value_intBytes, length_intBytes]
    have hcast : ((256 ^ k : ℕ) : ℤ) = 256 ^ k := by push_cast; rfl
    rw [← hcast, Int.emod_bmod]
    constructor
    · intro h
      have hle := Int.le_bmod (x := z) (m := 256 ^ k) (by positivity)
      have hlt := Int.bmod_lt (x := z) (m := 256 ^ k) (by positivity)
      rw [h] at hle hlt
      omega
    · rintro ⟨h, h'⟩
      exact Int.bmod_eq_of_le_mul_two (by omega) (by omega)

end LittleEndian
