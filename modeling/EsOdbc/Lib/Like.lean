import Mathlib

/-!
# LIKE patterns

Patterns with a wildcard for any text, one for any unit, and an escape.  The pattern in which the
special units of a text are escaped matches that text only.
-/

namespace Like

variable {α : Type*}

/-- The special units. -/
structure Specials (α : Type*) where
  any : α
  one : α
  escape : α
  any_ne : any ≠ escape
  one_ne : one ≠ escape

variable (S : Specials α)

/-- A unit that does not stand for itself. -/
def Special (c : α) : Prop := c = S.any ∨ c = S.one ∨ c = S.escape

instance [DecidableEq α] (c : α) : Decidable (Special S c) := by
  unfold Special
  infer_instance

/-- A pattern matches a text. -/
inductive Matches : List α → List α → Prop
  | nil : Matches [] []
  | any {p s t : List α} (h : Matches p t) : Matches (S.any :: p) (s ++ t)
  | one {p t : List α} (c : α) (h : Matches p t) : Matches (S.one :: p) (c :: t)
  | escaped {p t : List α} (c : α) (h : Matches p t) : Matches (S.escape :: c :: p) (c :: t)
  | literal {p t : List α} {c : α} (hc : ¬Special S c) (h : Matches p t) :
      Matches (c :: p) (c :: t)

/-- A text with its special units escaped. -/
def escape [DecidableEq α] (s : List α) : List α :=
  s.flatMap fun c ↦ if Special S c then [S.escape, c] else [c]

variable {S} {p s t : List α} {c : α}

theorem matches_nil : Matches S [] t ↔ t = [] := by
  constructor
  · intro h
    cases h
    rfl
  · rintro rfl
    exact .nil

/-- An escaped unit is that unit. -/
theorem matches_escaped : Matches S (S.escape :: c :: p) t ↔ ∃ t', t = c :: t' ∧ Matches S p t' := by
  constructor
  · intro h
    generalize hq : S.escape :: c :: p = q at h
    cases h with
    | nil => cases hq
    | any h => exact absurd (List.cons.inj hq).1.symm S.any_ne
    | one d h => exact absurd (List.cons.inj hq).1.symm S.one_ne
    | escaped d h =>
      obtain ⟨-, hq⟩ := List.cons.inj hq
      obtain ⟨rfl, rfl⟩ := List.cons.inj hq
      exact ⟨_, rfl, h⟩
    | literal hd h => exact absurd (.inr (.inr (List.cons.inj hq).1.symm)) hd
  · rintro ⟨t', rfl, h⟩
    exact .escaped c h

theorem matches_literal (hc : ¬Special S c) :
    Matches S (c :: p) t ↔ ∃ t', t = c :: t' ∧ Matches S p t' := by
  constructor
  · intro h
    generalize hq : c :: p = q at h
    cases h with
    | nil => cases hq
    | any h => exact absurd (.inl (List.cons.inj hq).1) hc
    | one d h => exact absurd (.inr (.inl (List.cons.inj hq).1)) hc
    | escaped d h => exact absurd (.inr (.inr (List.cons.inj hq).1)) hc
    | literal hd h =>
      obtain ⟨rfl, rfl⟩ := List.cons.inj hq
      exact ⟨_, rfl, h⟩
  · rintro ⟨t', rfl, h⟩
    exact .literal hc h

variable [DecidableEq α]

@[simp] theorem escape_nil : escape S [] = [] := rfl

theorem escape_cons_special (hc : Special S c) (s : List α) :
    escape S (c :: s) = S.escape :: c :: escape S s := by
  rw [escape, List.flatMap_cons, if_pos hc]
  rfl

theorem escape_cons_plain (hc : ¬Special S c) (s : List α) : escape S (c :: s) = c :: escape S s := by
  rw [escape, List.flatMap_cons, if_neg hc]
  rfl

theorem escape_append (s t : List α) : escape S (s ++ t) = escape S s ++ escape S t :=
  List.flatMap_append

/-- The escaped text matches that text only. -/
theorem matches_escape_iff : Matches S (escape S s) t ↔ t = s := by
  induction s generalizing t with
  | nil => exact matches_nil
  | cons c s ih =>
    have hrest : (∃ t', t = c :: t' ∧ Matches S (escape S s) t') ↔ t = c :: s := by
      constructor
      · rintro ⟨t', rfl, h⟩
        rw [ih.mp h]
      · rintro rfl
        exact ⟨s, rfl, ih.mpr rfl⟩
    by_cases hc : Special S c
    · rw [escape_cons_special hc, matches_escaped, hrest]
    · rw [escape_cons_plain hc, matches_literal hc, hrest]

/-- Escaping takes at most a unit more for each. -/
theorem length_escape_le (s : List α) : (escape S s).length ≤ 2 * s.length := by
  induction s with
  | nil => exact Nat.zero_le _
  | cons c s ih =>
    rw [List.length_cons]
    by_cases hc : Special S c
    · rw [escape_cons_special hc, List.length_cons, List.length_cons]
      omega
    · rw [escape_cons_plain hc, List.length_cons]
      omega

theorem le_length_escape (s : List α) : s.length ≤ (escape S s).length := by
  induction s with
  | nil => exact Nat.zero_le _
  | cons c s ih =>
    rw [List.length_cons]
    by_cases hc : Special S c
    · rw [escape_cons_special hc, List.length_cons, List.length_cons]
      omega
    · rw [escape_cons_plain hc, List.length_cons]
      omega

/-- A special unit takes one unit more. -/
theorem lt_length_escape (h : c ∈ s) (hc : Special S c) : s.length < (escape S s).length := by
  obtain ⟨a, b, rfl⟩ := List.append_of_mem h
  have ha := le_length_escape (S := S) a
  have hb := le_length_escape (S := S) b
  rw [escape_append, escape_cons_special hc]
  simp only [List.length_append, List.length_cons]
  omega

end Like
