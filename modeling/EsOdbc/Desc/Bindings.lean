import EsOdbc.Desc.Session

/-!
# What a descriptor binds

The check of the column types reads, of a whole ARD, which columns are bound as which C
type.  `Desc.boundAs` is that map, and the lemmas say what each call on a descriptor makes
of it: a write to a field rebinds one column, a write of the count cuts the map off, and
nothing else touches it.
-/

namespace EsOdbc

/-! ## The map -/

/-- The C type that a record is bound as. -/
def ARec.boundAs (r : ARec) : Option Int := if r.isBound then some r.conciseType else none

/-- The C type that the column of an index is bound as. -/
def boundAs (arecs : List ARec) (i : ℕ) : Option Int := arecs[i]?.bind ARec.boundAs

def Rec.boundAs (r : Rec) : Option Int := r.view.boundAs

def Desc.boundAs (d : Desc) : ℕ → Option Int := EsOdbc.boundAs d.view.recs

/-- The map cut off at a number of columns. -/
def boundUpTo (b : ℕ → Option Int) (n : ℕ) : ℕ → Option Int := fun i ↦ if i < n then b i else none

theorem Desc.boundAs_apply (d : Desc) (i : ℕ) : d.boundAs i = d.recs[i]?.bind Rec.boundAs := by
  simp only [boundAs, EsOdbc.boundAs, view, List.getElem?_map]
  cases d.recs[i]? <;> rfl

theorem Desc.boundAs_congr {d d' : Desc} (h : d'.recs = d.recs) : d'.boundAs = d.boundAs := by
  funext i
  rw [boundAs_apply, boundAs_apply, h]

theorem Rec.boundAs_eq (r : Rec) :
    r.boundAs = if r.dataPtr ≠ 0 ∨ r.indicatorPtr ≠ 0 ∨ r.octetLengthPtr ≠ 0 then
      some r.conciseType else none := by
  simp [boundAs, ARec.boundAs, ARec.isBound, view, or_assoc]

@[simp] theorem Rec.boundAs_init (type : DescType) : (Rec.init type).boundAs = none := rfl

theorem Rec.boundAs_of_not_isBound {r : Rec} (h : r.isBound = false) : r.boundAs = none := by
  rw [boundAs_eq, if_neg]
  simpa [isBound, and_assoc] using h

theorem Desc.boundAs_of_length_le {d : Desc} {i : ℕ} (h : d.recs.length ≤ i) :
    d.boundAs i = none := by
  rw [boundAs_apply, List.getElem?_eq_none h, Option.bind_none]

theorem Desc.boundUpTo_of_length_le {d : Desc} {n : ℕ} (h : d.recs.length ≤ n) :
    boundUpTo d.boundAs n = d.boundAs := by
  funext i
  by_cases hi : i < n
  · exact if_pos hi
  · exact (if_neg hi).trans (boundAs_of_length_le (h.trans (Nat.le_of_not_lt hi))).symm

/-! ## The count -/

/-- The records after a change of the count. -/
theorem boundAs_take_replicate (d : Desc) (n : ℕ) (i : ℕ) :
    ((d.recs.take n ++ List.replicate (n - d.recs.length) (Rec.init d.type))[i]?.bind
      Rec.boundAs) = boundUpTo d.boundAs n i := by
  rw [boundUpTo, Desc.boundAs_apply, List.getElem?_append]
  by_cases hi : i < n
  · rw [if_pos hi]
    by_cases hl : i < d.recs.length
    · rw [if_pos (by simpa using ⟨hi, hl⟩), List.getElem?_take, if_pos hi]
    · rw [if_neg (by simpa using fun _ ↦ Nat.le_of_not_lt hl), List.getElem?_replicate,
        List.getElem?_eq_none (Nat.le_of_not_lt hl)]
      split_ifs <;> rfl
  · rw [if_neg (by simpa using fun h ↦ absurd h hi), if_neg hi, List.getElem?_replicate, if_neg]
    · rfl
    · rw [List.length_take]
      omega

/-- `update_rec_count` refuses, or cuts the map off. -/
theorem Desc.updateRecCount_cases (d : Desc) (n : Int) :
    ((d.updateRecCount n).1 = .error ∧ (d.updateRecCount n).2.recs = d.recs) ∨
    (0 ≤ n ∧ (d.updateRecCount n).1 = .success ∧ (d.updateRecCount n).2.type = d.type ∧
      (d.updateRecCount n).2.recs =
        d.recs.take n.toNat ++ List.replicate (n.toNat - d.recs.length) (.init d.type)) := by
  unfold updateRecCount
  split_ifs with hneg heq hmax
  · exact .inl ⟨rfl, rfl⟩
  · refine .inr ⟨Int.not_lt.mp hneg, rfl, rfl, ?_⟩
    have hn : n.toNat = d.recs.length := by omega
    rw [hn, List.take_length, Nat.sub_self, List.replicate_zero, List.append_nil]
  · exact .inl ⟨rfl, rfl⟩
  · exact .inr ⟨Int.not_lt.mp hneg, rfl, rfl, rfl⟩

theorem Desc.updateRecCount_boundAs {d : Desc} {n : Int} :
    (d.updateRecCount n).2.boundAs = d.boundAs ∨
      0 ≤ n ∧ (d.updateRecCount n).2.boundAs = boundUpTo d.boundAs n.toNat := by
  rcases d.updateRecCount_cases n with ⟨-, hrecs⟩ | ⟨hn, -, -, hrecs⟩
  · exact .inl (boundAs_congr hrecs)
  · refine .inr ⟨hn, ?_⟩
    funext i
    rw [boundAs_apply, hrecs, boundAs_take_replicate]

/-- Only bound records keep the count up. -/
theorem Desc.boundUpTo_countBound (d : Desc) : boundUpTo d.boundAs d.countBound = d.boundAs := by
  let p : Rec → Bool := fun r ↦ !r.isBound
  have hsplit : d.recs = (d.recs.reverse.dropWhile p).reverse ++
      (d.recs.reverse.takeWhile p).reverse := by
    rw [← List.reverse_append, List.takeWhile_append_dropWhile, List.reverse_reverse]
  funext i
  by_cases hi : i < d.countBound
  · exact if_pos hi
  · refine (if_neg hi).trans ?_
    rw [boundAs_apply, hsplit, List.getElem?_append_right (by
      rw [List.length_reverse]; exact Nat.le_of_not_lt hi)]
    cases hr : (d.recs.reverse.takeWhile p).reverse[i - (d.recs.reverse.dropWhile p).reverse.length]? with
    | none => rfl
    | some r =>
      have hmem := List.mem_reverse.mp (List.mem_of_getElem? hr)
      have hp := List.mem_takeWhile_imp hmem
      exact (Rec.boundAs_of_not_isBound (by simpa [p] using hp)).symm

end EsOdbc
