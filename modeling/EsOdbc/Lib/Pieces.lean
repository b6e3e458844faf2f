import EsOdbc.Lib.Buffer

/-!
# Pieces in a buffer

Pieces that are stored one behind the other, at a position that only moves on, do not overlap and
stay as they were stored.
-/

namespace Buffer

variable {α : Type*} {buf buf' xs : List α} {pos pos' n p : ℕ}

/-- What lies in front of a store stays. -/
theorem load_of_store_of_le (h : store buf pos xs = some buf') (hle : p + n ≤ pos) :
    load buf' p n = load buf p n := by
  have hroom := le_of_store h
  have hlen := length_store h
  rw [load_eq_some (by omega), load_eq_some (by omega)]
  rw [store_eq_some hroom, Option.some.injEq] at h
  subst h
  have htake : p ≤ (buf.take pos).length := by
    rw [List.length_take]
    omega
  rw [List.drop_append_of_le_length htake, List.take_append_of_le_length (by
    rw [List.length_drop, List.length_take]
    omega), List.drop_take, List.take_take, min_eq_left (by omega)]

/-- What was stored is loaded. -/
theorem load_of_store (h : store buf pos xs = some buf') : load buf' pos xs.length = some xs := by
  have hroom := le_of_store h
  have hlen := length_store h
  rw [load_eq_some (by omega)]
  rw [store_eq_some hroom, Option.some.injEq] at h
  subst h
  have htake : (buf.take pos).length = pos := by
    rw [List.length_take]
    omega
  rw [List.drop_left' htake, List.take_left]

/-- Pieces in a buffer, each by its position, all in front of a position. -/
structure Laid (pieces : List (ℕ × List α)) (buf : List α) (pos : ℕ) : Prop where
  le : pos ≤ buf.length
  apart : pieces.Pairwise fun a b ↦ a.1 + a.2.length ≤ b.1
  behind : ∀ a ∈ pieces, a.1 + a.2.length ≤ pos
  loads : ∀ a ∈ pieces, load buf a.1 a.2.length = some a.2

variable {pieces : List (ℕ × List α)}

theorem Laid.nil (buf : List α) : Laid [] buf 0 :=
  ⟨Nat.zero_le _, .nil, fun _ h ↦ (List.not_mem_nil h).elim, fun _ h ↦ (List.not_mem_nil h).elim⟩

/-- The position moves on. -/
theorem Laid.skip (h : Laid pieces buf pos) (hpos : pos ≤ pos') (hle : pos' ≤ buf.length) :
    Laid pieces buf pos' :=
  ⟨hle, h.apart, fun a ha ↦ (h.behind a ha).trans hpos, h.loads⟩

/-- A piece is added. -/
theorem Laid.store (h : Laid pieces buf pos) (hs : store buf pos xs = some buf') :
    Laid (pieces ++ [(pos, xs)]) buf' (pos + xs.length) := by
  have hlen := length_store hs
  refine ⟨hlen ▸ le_of_store hs, ?_, ?_, ?_⟩
  · rw [List.pairwise_append]
    refine ⟨h.apart, List.pairwise_singleton _ _, ?_⟩
    intro a ha b hb
    rw [List.mem_singleton.mp hb]
    exact h.behind a ha
  · intro a ha
    rcases List.mem_append.mp ha with ha | ha
    · exact (h.behind a ha).trans (Nat.le_add_right _ _)
    · rw [List.mem_singleton.mp ha]
  · intro a ha
    rcases List.mem_append.mp ha with ha | ha
    · rw [load_of_store_of_le hs (h.behind a ha)]
      exact h.loads a ha
    · rw [List.mem_singleton.mp ha]
      exact load_of_store hs

end Buffer
