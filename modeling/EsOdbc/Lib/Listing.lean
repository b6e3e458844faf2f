import Mathlib

/-!
# Lists of what is owned

Owners have at most one thing each; a list holds every thing that is owned, once.  An owner gets a
thing by an insertion, and another for it by a replacement.
-/

namespace Listing

variable {Ω A : Type*}

/-- Every thing that is owned is listed once, and has one owner. -/
structure Listed (owned : Ω → Option A) (l : List A) : Prop where
  nodup : l.Nodup
  mem_iff : ∀ a, a ∈ l ↔ ∃ o, owned o = some a
  owner : ∀ o o' a, owned o = some a → owned o' = some a → o = o'

theorem listed_nil : Listed (fun _ : Ω ↦ (none : Option A)) [] where
  nodup := List.nodup_nil
  mem_iff _ := iff_of_false List.not_mem_nil fun ⟨_, h⟩ ↦ Option.noConfusion rfl (heq_of_eq h)
  owner := nofun

variable {owned : Ω → Option A} {l : List A} {o : Ω} {a b : A} [DecidableEq Ω]

/-- Things keep one owner where one gets what no other has. -/
theorem owner_update (h : ∀ o o' a, owned o = some a → owned o' = some a → o = o')
    (hb : ∀ o', o' ≠ o → owned o' ≠ some b) (o₁ o₂ : Ω) (x : A)
    (h₁ : Function.update owned o (some b) o₁ = some x)
    (h₂ : Function.update owned o (some b) o₂ = some x) : o₁ = o₂ := by
  by_cases hne₁ : o₁ = o
  · by_cases hne₂ : o₂ = o
    · rw [hne₁, hne₂]
    · rw [hne₁, Function.update_self] at h₁
      rw [Function.update_of_ne hne₂, ← h₁] at h₂
      exact absurd h₂ (hb o₂ hne₂)
  · rw [Function.update_of_ne hne₁] at h₁
    by_cases hne₂ : o₂ = o
    · rw [hne₂, Function.update_self] at h₂
      rw [← h₂] at h₁
      exact absurd h₁ (hb o₁ hne₁)
    · rw [Function.update_of_ne hne₂] at h₂
      exact h o₁ o₂ x h₁ h₂

/-- A first thing is put at the end of the list. -/
theorem Listed.insert (h : Listed owned l) (ho : owned o = none) (ha : a ∉ l) :
    Listed (Function.update owned o (some a)) (l ++ [a]) where
  nodup := by
    refine List.nodup_append.mpr ⟨h.nodup, List.nodup_singleton a, ?_⟩
    rintro x hx y hy rfl
    exact ha (List.mem_singleton.mp hy ▸ hx)
  mem_iff x := by
    rw [List.mem_append, List.mem_singleton, h.mem_iff]
    constructor
    · rintro (⟨o', ho'⟩ | rfl)
      · have hne : o' ≠ o := by
          rintro rfl
          rw [ho] at ho'
          cases ho'
        exact ⟨o', by rw [Function.update_of_ne hne, ho']⟩
      · exact ⟨o, Function.update_self ..⟩
    · rintro ⟨o', ho'⟩
      by_cases hne : o' = o
      · rw [hne, Function.update_self] at ho'
        exact .inr (Option.some.inj ho').symm
      · rw [Function.update_of_ne hne] at ho'
        exact .inl ⟨o', ho'⟩
  owner := owner_update h.owner fun o' _ ho' ↦ ha ((h.mem_iff a).mpr ⟨o', ho'⟩)

variable [DecidableEq A]

theorem replace_split {l₁ l₂ : List A} (h : a ∉ l₁) :
    (l₁ ++ a :: l₂).replace a b = l₁ ++ b :: l₂ := by
  induction l₁ with
  | nil => simp
  | cons x l₁ ih =>
    obtain ⟨hx, hl₁⟩ := not_or.mp (List.mem_cons.not.mp h)
    have hne : (a == x) = false := beq_eq_false_iff_ne.mpr hx
    rw [List.cons_append, List.replace_cons, hne, ih hl₁]
    rfl

/-- Another thing takes the place of the one that is owned; it may be the same again. -/
theorem Listed.replace (h : Listed owned l) (ho : owned o = some a) (hb : b ∈ l → b = a) :
    Listed (Function.update owned o (some b)) (l.replace a b) := by
  obtain ⟨l₁, l₂, rfl⟩ := List.append_of_mem ((h.mem_iff a).mpr ⟨o, ho⟩)
  have hmem {x : A} : x ∈ l₁ ++ a :: l₂ ↔ x = a ∨ x ∈ l₁ ++ l₂ := by
    rw [List.mem_append, List.mem_cons, List.mem_append]
    exact or_left_comm
  have hmem' {x : A} : x ∈ l₁ ++ b :: l₂ ↔ x = b ∨ x ∈ l₁ ++ l₂ := by
    rw [List.mem_append, List.mem_cons, List.mem_append]
    exact or_left_comm
  obtain ⟨ha, hrest⟩ := List.nodup_cons.mp (List.nodup_middle.mp h.nodup)
  have hb' : b ∉ l₁ ++ l₂ := fun hin ↦ ha (hb (hmem.mpr (.inr hin)) ▸ hin)
  have hothers {o' : Ω} {x : A} (hne : o' ≠ o) (hx : owned o' = some x) : x ∈ l₁ ++ l₂ := by
    refine (hmem.mp ((h.mem_iff x).mpr ⟨o', hx⟩)).resolve_left ?_
    rintro rfl
    exact hne (h.owner o' o x hx ho)
  rw [replace_split fun hin ↦ ha (List.mem_append_left _ hin)]
  refine ⟨List.nodup_middle.mpr (List.nodup_cons.mpr ⟨hb', hrest⟩), fun x ↦ ?_,
    owner_update h.owner fun o' hne ho' ↦ hb' (hothers hne ho')⟩
  rw [hmem']
  constructor
  · rintro (rfl | hx)
    · exact ⟨o, Function.update_self ..⟩
    · obtain ⟨o', ho'⟩ := (h.mem_iff x).mp (hmem.mpr (.inr hx))
      have hne : o' ≠ o := by
        rintro rfl
        exact ha (Option.some.inj (ho.symm.trans ho') ▸ hx)
      exact ⟨o', by rw [Function.update_of_ne hne, ho']⟩
  · rintro ⟨o', ho'⟩
    by_cases hne : o' = o
    · rw [hne, Function.update_self] at ho'
      exact .inl (Option.some.inj ho').symm
    · rw [Function.update_of_ne hne] at ho'
      exact .inr (hothers hne ho')

end Listing
