import Mathlib

/-!
# Decimal numerals

A numeral is the list of its digits, the most significant one first.
-/

namespace Decimal

/-- The number written after `n` by further digits. -/
def extend (n : ℕ) (ds : List (Fin 10)) : ℕ := ds.foldl (fun n d ↦ n * 10 + d) n

/-- The number a numeral writes. -/
def ofDigits (ds : List (Fin 10)) : ℕ := extend 0 ds

@[simp] theorem extend_nil (n : ℕ) : extend n [] = n := rfl

@[simp] theorem extend_cons (n : ℕ) (d : Fin 10) (ds : List (Fin 10)) :
    extend n (d :: ds) = extend (n * 10 + d) ds := rfl

theorem extend_append (n : ℕ) (ds es : List (Fin 10)) :
    extend n (ds ++ es) = extend (extend n ds) es := by
  simp [extend]

theorem extend_eq (n : ℕ) (ds : List (Fin 10)) :
    extend n ds = n * 10 ^ ds.length + ofDigits ds := by
  induction ds generalizing n with
  | nil => simp [ofDigits]
  | cons d ds ih =>
    have h := ih (0 * 10 + d)
    simp only [ofDigits, extend_cons, List.length_cons] at h ⊢
    rw [ih, h, pow_succ]
    simp only [ofDigits]
    ring

theorem le_extend (n : ℕ) (ds : List (Fin 10)) : n ≤ extend n ds := by
  rw [extend_eq]
  exact (Nat.le_mul_of_pos_right n (by positivity)).trans (Nat.le_add_right _ _)

theorem ofDigits_lt (ds : List (Fin 10)) : ofDigits ds < 10 ^ ds.length := by
  induction ds using List.reverseRecOn with
  | nil => simp [ofDigits]
  | append_singleton ds d ih =>
    have hd := d.isLt
    simp only [ofDigits] at ih ⊢
    rw [extend_append, extend_cons, extend_nil, List.length_append, List.length_singleton,
      pow_succ]
    omega

theorem ofDigits_eq_zero {ds : List (Fin 10)} : ofDigits ds = 0 ↔ ∀ d ∈ ds, d.val = 0 := by
  induction ds with
  | nil => simp [ofDigits]
  | cons d ds ih =>
    rw [ofDigits, extend_cons, extend_eq, Nat.add_eq_zero_iff, ih]
    simp

/-- A number is what its first digits write with what the others write. -/
theorem ofDigits_take_drop (n : ℕ) (ds : List (Fin 10)) :
    ofDigits ds = ofDigits (ds.take n) * 10 ^ (ds.length - n) + ofDigits (ds.drop n) := by
  conv_lhs => rw [← List.take_append_drop n ds]
  rw [ofDigits, extend_append, extend_eq, List.length_drop]
  rfl

/-- The leading digits of a numeral are what a division by the weight of the others
leaves. -/
theorem ofDigits_take (n : ℕ) (ds : List (Fin 10)) :
    ofDigits (ds.take n) = ofDigits ds / 10 ^ (ds.length - n) := by
  have hlt := ofDigits_lt (ds.drop n)
  rw [List.length_drop] at hlt
  rw [ofDigits_take_drop n ds, Nat.mul_comm, Nat.mul_add_div (by positivity), Nat.div_eq_of_lt hlt, add_zero]

/-! ## The numeral of a number -/

/-- The last digit of a number. -/
def digit (n : ℕ) : Fin 10 := ⟨n % 10, Nat.mod_lt n (by norm_num)⟩

@[simp] theorem val_digit (n : ℕ) : (digit n).val = n % 10 := rfl

/-- The numeral without leading zeros. -/
def digits (n : ℕ) : List (Fin 10) :=
  if n = 0 then [digit 0] else (Nat.digits 10 n).reverse.map digit

@[simp] theorem digits_zero : digits 0 = [0] := rfl

/-- The last `k` digits of a number. -/
def lastDigits : ℕ → ℕ → List (Fin 10)
  | 0, _ => []
  | k + 1, n => lastDigits k (n / 10) ++ [digit n]

@[simp] theorem length_lastDigits (k n : ℕ) : (lastDigits k n).length = k := by
  induction k generalizing n with
  | zero => rfl
  | succ k ih => rw [lastDigits, List.length_append, ih, List.length_singleton]

theorem ofDigits_lastDigits (k n : ℕ) : ofDigits (lastDigits k n) = n % 10 ^ k := by
  induction k generalizing n with
  | zero => simp [lastDigits, ofDigits, Nat.mod_one]
  | succ k ih =>
    simp only [ofDigits] at ih ⊢
    rw [lastDigits, extend_append, ih, extend_cons, extend_nil, val_digit, pow_succ',
      Nat.mod_mul]
    ring

/-- A numeral is the last digits of its number. -/
theorem lastDigits_ofDigits (ds : List (Fin 10)) : lastDigits ds.length (ofDigits ds) = ds := by
  induction ds using List.reverseRecOn with
  | nil => rfl
  | append_singleton ds d ih =>
    have hval : ofDigits (ds ++ [d]) = ofDigits ds * 10 + d := by simp [ofDigits, extend_append]
    have hdiv : (ofDigits ds * 10 + d) / 10 = ofDigits ds := by omega
    have hdigit : digit (ofDigits ds * 10 + d) = d := by
      refine Fin.ext ?_
      rw [val_digit]
      omega
    rw [List.length_append, List.length_singleton, lastDigits, hval, hdiv, hdigit, ih]

/-- A numeral of some length is that of its number. -/
theorem eq_lastDigits_iff {k n : ℕ} {ds : List (Fin 10)} (hn : n < 10 ^ k) :
    ds = lastDigits k n ↔ ds.length = k ∧ ofDigits ds = n := by
  constructor
  · rintro rfl
    exact ⟨length_lastDigits k n, by rw [ofDigits_lastDigits, Nat.mod_eq_of_lt hn]⟩
  · rintro ⟨rfl, rfl⟩
    exact (lastDigits_ofDigits ds).symm

theorem digits_ne_nil (n : ℕ) : digits n ≠ [] := by
  unfold digits
  split
  · exact List.cons_ne_nil _ _
  · next h => simpa using Nat.digits_ne_nil_iff_ne_zero.mpr h

/-- A numeral of another base, its least digit first, read from its other end. -/
theorem ofDigits_reverse (l : List ℕ) (h : ∀ d ∈ l, d < 10) :
    ofDigits (l.reverse.map digit) = Nat.ofDigits 10 l := by
  induction l with
  | nil => rfl
  | cons d l ih =>
    have hd : (digit d).val = d := Nat.mod_eq_of_lt (h d (List.mem_cons_self ..))
    have ih := ih fun e he ↦ h e (List.mem_cons_of_mem _ he)
    rw [ofDigits] at ih ⊢
    rw [List.reverse_cons, List.map_append, extend_append, ih, List.map_singleton, extend_cons,
      extend_nil, hd, Nat.ofDigits_cons]
    ring

@[simp] theorem ofDigits_digits (n : ℕ) : ofDigits (digits n) = n := by
  unfold digits
  split
  · next h => exact h.symm
  · rw [ofDigits_reverse _ fun d hd ↦ Nat.digits_lt_base (by norm_num) hd, Nat.ofDigits_digits]

/-- Only `0` starts with a zero. -/
theorem head_digits {n : ℕ} (h : (digits n).head? = some 0) : n = 0 := by
  by_contra hn
  rw [digits, if_neg hn, List.head?_map, List.head?_reverse,
    List.getLast?_eq_some_getLast (Nat.digits_ne_nil_iff_ne_zero.mpr hn)] at h
  have hlast := Nat.getLast_digit_ne_zero 10 hn
  have hlt : (Nat.digits 10 n).getLast (Nat.digits_ne_nil_iff_ne_zero.mpr hn) < 10 :=
    Nat.digits_lt_base (by norm_num) (List.getLast_mem _)
  refine hlast ?_
  rw [← Nat.mod_eq_of_lt hlt]
  exact congrArg Fin.val (Option.some.inj h)

theorem length_digits_le {n k : ℕ} (hk : 0 < k) (h : n < 10 ^ k) : (digits n).length ≤ k := by
  unfold digits
  split
  · exact hk
  · simpa using (Nat.digits_length_le_iff (by norm_num) n).mpr h

end Decimal
