import Mathlib

/-!
# Buffers of a fixed length

Units stored in a buffer and loaded from one, where it has the room for them.
-/

namespace Buffer

variable {α : Type*}

/-- Units stored at a position. -/
def store (buf : List α) (pos : ℕ) (xs : List α) : Option (List α) :=
  if pos + xs.length ≤ buf.length then
    some (buf.take pos ++ (xs ++ buf.drop (pos + xs.length)))
  else none

/-- Units loaded from a position. -/
def load (buf : List α) (pos n : ℕ) : Option (List α) :=
  if pos + n ≤ buf.length then some ((buf.drop pos).take n) else none

variable {buf buf' pre xs : List α} {pos n : ℕ}

theorem load_eq_some (h : pos + n ≤ buf.length) : load buf pos n = some ((buf.drop pos).take n) :=
  if_pos h

/-- The end of a buffer. -/
theorem load_drop (h : pos ≤ buf.length) : load buf pos (buf.length - pos) = some (buf.drop pos) := by
  rw [load_eq_some (Nat.add_sub_cancel' h).le, List.take_of_length_le (List.length_drop ..).le]

theorem store_eq_none : store buf pos xs = none ↔ buf.length < pos + xs.length := by
  unfold store
  constructor
  · intro h
    by_contra hle
    rw [if_pos (not_lt.mp hle)] at h
    cases h
  · intro h
    rw [if_neg (not_le.mpr h)]

theorem store_eq_some (h : pos + xs.length ≤ buf.length) :
    store buf pos xs = some (buf.take pos ++ (xs ++ buf.drop (pos + xs.length))) :=
  if_pos h

theorem exists_store (buf : List α) (pos : ℕ) (xs : List α) (h : pos + xs.length ≤ buf.length) :
    ∃ buf', store buf pos xs = some buf' :=
  ⟨_, store_eq_some h⟩

theorem le_of_store (h : store buf pos xs = some buf') : pos + xs.length ≤ buf.length := by
  by_contra hlt
  rw [store_eq_none.mpr (not_le.mp hlt)] at h
  cases h

theorem length_store (h : store buf pos xs = some buf') : buf'.length = buf.length := by
  have hle := le_of_store h
  rw [store_eq_some hle, Option.some.injEq] at h
  subst h
  rw [List.length_append, List.length_append, List.length_take, List.length_drop]
  omega

/-- What is stored behind the start of a buffer makes the start longer. -/
theorem prefix_store (hpre : pre <+: buf) (h : store buf pre.length xs = some buf') :
    pre ++ xs <+: buf' := by
  have hle := le_of_store h
  rw [store_eq_some hle, Option.some.injEq] at h
  subst h
  rw [← List.prefix_iff_eq_take.mp hpre, ← List.append_assoc]
  exact List.prefix_append _ _

/-- A store in the rest of a buffer leaves the start. -/
theorem prefix_of_store (hpre : pre <+: buf) (h : store buf pos xs = some buf')
    (hpos : pre.length ≤ pos) : pre <+: buf' := by
  have hle := le_of_store h
  rw [store_eq_some hle, Option.some.injEq] at h
  subst h
  refine List.IsPrefix.trans ?_ (List.prefix_append _ _)
  rw [List.prefix_take_iff]
  exact ⟨hpre, hpos⟩

/-- One store behind another is a store of both. -/
theorem store_store (h : store buf pos xs = some buf') (ys : List α) :
    store buf' (pos + xs.length) ys = store buf pos (xs ++ ys) := by
  have hle := le_of_store h
  have hlen := length_store h
  rw [store_eq_some hle, Option.some.injEq] at h
  have hfront : (buf.take pos ++ xs).length = pos + xs.length := by
    rw [List.length_append, List.length_take, Nat.min_eq_left ((Nat.le_add_right _ _).trans hle)]
  unfold store
  rw [hlen, List.length_append, ← Nat.add_assoc]
  congr 2
  rw [← List.append_assoc] at h
  rw [← h, List.take_left' hfront, ← List.drop_drop, List.drop_left' hfront, List.drop_drop,
    List.append_assoc, List.append_assoc]

/-- A store in front of the end of a buffer leaves what is there. -/
theorem store_append (h : pos + xs.length ≤ buf.length) (behind : List α) :
    store (buf ++ behind) pos xs = (store buf pos xs).map (· ++ behind) := by
  have hle : pos + xs.length ≤ (buf ++ behind).length := by
    rw [List.length_append]
    exact h.trans (Nat.le_add_right _ _)
  rw [store_eq_some h, store_eq_some hle, Option.map_some,
    List.take_append_of_le_length ((Nat.le_add_right _ _).trans h), List.drop_append_of_le_length h]
  simp only [List.append_assoc]

/-- What is stored is there, behind what was in front of it. -/
theorem take_store (h : store buf pos xs = some buf') :
    buf'.take (pos + xs.length) = buf.take pos ++ xs := by
  have hle := le_of_store h
  rw [store_eq_some hle, Option.some.injEq] at h
  rw [← h, ← List.append_assoc]
  refine List.take_left' ?_
  rw [List.length_append, List.length_take, Nat.min_eq_left ((Nat.le_add_right _ _).trans hle)]

/-- A copy within a buffer, where the two regions have nothing in common. -/
def copy (buf : List α) (dst src n : ℕ) : Option (List α) :=
  if n ≠ 0 ∧ src < dst + n ∧ dst < src + n then none
  else (load buf src n).bind (store buf dst)

end Buffer
