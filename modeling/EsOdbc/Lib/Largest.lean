import Mathlib

/-!
# The largest of a class

A loop over a list that keeps a reference to the element with the largest key so far, of those that
belong to a class, or to the last element of the class.
-/

namespace Largest

variable {α : Type*}

/-- A reference is replaced by an element of the class with a larger key; without one, the key has
to be positive. -/
def larger (p : α → Bool) (key : α → ℤ) (ref : Option (ℕ × α)) (x : α × ℕ) : Option (ℕ × α) :=
  if p x.1 && decide (ref.elim 0 (fun r ↦ key r.2) < key x.1) then some (x.2, x.1) else ref

/-- A reference is replaced by every element of the class. -/
def later (p : α → Bool) (ref : Option (ℕ × α)) (x : α × ℕ) : Option (ℕ × α) :=
  if p x.1 then some (x.2, x.1) else ref

/-- The largest of its class in a list, which is none if no key is positive. -/
structure Is (xs : List α) (p : α → Bool) (key : α → ℤ) (ref : Option (ℕ × α)) : Prop where
  empty : ref = none → ∀ y ∈ xs, p y = true → key y ≤ 0
  found : ∀ i x, ref = some (i, x) → xs[i]? = some x ∧ p x = true ∧ 0 < key x ∧
    ∀ y ∈ xs, p y = true → key y ≤ key x

/-- An element of the class, if there is one in the list. -/
structure IsIn (xs : List α) (p : α → Bool) (ref : Option (ℕ × α)) : Prop where
  empty : ref = none → ∀ y ∈ xs, p y = false
  found : ∀ i x, ref = some (i, x) → xs[i]? = some x ∧ p x = true

variable {xs : List α} {p : α → Bool} {key : α → ℤ}

theorem Is.nil (p : α → Bool) (key : α → ℤ) : Is [] p key none :=
  ⟨fun _ _ h ↦ (List.not_mem_nil h).elim, fun _ _ h ↦ by cases h⟩

theorem IsIn.nil (p : α → Bool) : IsIn [] p none :=
  ⟨fun _ _ h ↦ (List.not_mem_nil h).elim, fun _ _ h ↦ by cases h⟩

theorem getElem?_concat_length (xs : List α) (x : α) : (xs ++ [x])[xs.length]? = some x := by
  rw [List.getElem?_append_right le_rfl, Nat.sub_self]
  rfl

theorem getElem?_concat {xs : List α} {i : ℕ} {y : α} (h : xs[i]? = some y) (x : α) :
    (xs ++ [x])[i]? = some y := by
  have hi := (List.getElem?_eq_some_iff.mp h).1
  rw [List.getElem?_append_left hi, h]

theorem Is.larger {ref : Option (ℕ × α)} (h : Is xs p key ref) (x : α) :
    Is (xs ++ [x]) p key (larger p key ref (x, xs.length)) := by
  unfold Largest.larger
  by_cases hx : (p x && decide (ref.elim 0 (fun r ↦ key r.2) < key x)) = true
  · rw [if_pos hx]
    obtain ⟨hp, hlt⟩ := Bool.and_eq_true_iff.mp hx
    replace hlt := of_decide_eq_true hlt
    constructor
    · intro hnone
      cases hnone
    · rintro i y hsome
      obtain ⟨rfl, rfl⟩ := Prod.mk.inj (Option.some.inj hsome)
      refine ⟨getElem?_concat_length xs x, hp, ?_, ?_⟩
      · cases hr : ref with
        | none => rwa [hr] at hlt
        | some r =>
          rw [hr] at hlt
          exact (h.found r.1 r.2 hr).2.2.1.trans hlt
      · intro y hy hpy
        rcases List.mem_append.mp hy with hy | hy
        · cases hr : ref with
          | none =>
            rw [hr] at hlt
            exact (h.empty hr y hy hpy).trans hlt.le
          | some r =>
            rw [hr] at hlt
            exact ((h.found r.1 r.2 hr).2.2.2 y hy hpy).trans hlt.le
        · rw [List.mem_singleton.mp hy]
  · rw [if_neg hx]
    have hle : p x = true → key x ≤ ref.elim 0 fun r ↦ key r.2 := by
      intro hp
      rw [hp, Bool.true_and, decide_eq_true_eq] at hx
      exact not_lt.mp hx
    constructor
    · intro hnone y hy hpy
      rcases List.mem_append.mp hy with hy | hy
      · exact h.empty hnone y hy hpy
      · rw [List.mem_singleton.mp hy] at hpy ⊢
        have := hle hpy
        rwa [hnone] at this
    · intro i z hsome
      obtain ⟨hz, hpz, hpos, hall⟩ := h.found i z hsome
      refine ⟨getElem?_concat hz x, hpz, hpos, ?_⟩
      intro y hy hpy
      rcases List.mem_append.mp hy with hy | hy
      · exact hall y hy hpy
      · rw [List.mem_singleton.mp hy] at hpy ⊢
        have := hle hpy
        rwa [hsome] at this

theorem IsIn.later {ref : Option (ℕ × α)} (h : IsIn xs p ref) (x : α) :
    IsIn (xs ++ [x]) p (later p ref (x, xs.length)) := by
  unfold Largest.later
  by_cases hx : p x = true
  · rw [if_pos hx]
    constructor
    · intro hnone
      cases hnone
    · rintro i y hsome
      obtain ⟨rfl, rfl⟩ := Prod.mk.inj (Option.some.inj hsome)
      exact ⟨getElem?_concat_length xs x, hx⟩
  · rw [if_neg hx]
    constructor
    · intro hnone y hy
      rcases List.mem_append.mp hy with hy | hy
      · exact h.empty hnone y hy
      · rw [List.mem_singleton.mp hy]
        exact Bool.eq_false_of_not_eq_true hx
    · intro i z hsome
      obtain ⟨hz, hpz⟩ := h.found i z hsome
      exact ⟨getElem?_concat hz x, hpz⟩

/-- What every turn of a loop over the elements with their indices keeps holds behind it. -/
theorem foldl_zipIdx {β : Type*} (P : List α → β → Prop) (f : β → α × ℕ → β) {b : β}
    (hnil : P [] b) (hstep : ∀ xs x b, P xs b → P (xs ++ [x]) (f b (x, xs.length))) (xs : List α) :
    P xs (xs.zipIdx.foldl f b) := by
  induction xs using List.reverseRecOn with
  | nil => exact hnil
  | append_singleton xs x ih =>
    rw [List.zipIdx_append, List.foldl_append]
    rw [Nat.zero_add]
    exact hstep xs x _ ih

end Largest
