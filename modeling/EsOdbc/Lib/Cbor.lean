import Mathlib

/-!
# CBOR data items

The data model of CBOR: what a decoder reads off the wire, with the distinctions an
application can see (definite and indefinite lengths, the chunks of a string, the
width of a float) and without the ones it cannot (the width of an integer's head).
-/

namespace Cbor

/-- A CBOR data item. -/
inductive Item where
  /-- Major type 0. -/
  | uint (n : UInt64)
  /-- Major type 1: the value is `-1 - n`. -/
  | nint (n : UInt64)
  | bytes (b : List UInt8)
  | bytesChunks (cs : List (List UInt8))
  | text (b : List UInt8)
  | textChunks (cs : List (List UInt8))
  | array (indef : Bool) (items : List Item)
  /-- Keys and values in turn, as a decoder meets them. -/
  | map (indef : Bool) (entries : List Item)
  | tag (n : UInt64) (content : Item)
  | simple (n : UInt8)
  | bool (b : Bool)
  | null
  | undefined
  | half (bits : UInt16)
  | float (bits : UInt32)
  | double (bits : UInt64)
deriving Repr

namespace Item

mutual

/-- How many arrays and maps an item nests; tags do not count. -/
def depth : Item → Nat
  | .array _ xs => 1 + depths xs
  | .map _ xs => 1 + depths xs
  | .tag _ c => c.depth
  | _ => 0

/-- The largest depth among some items. -/
def depths : List Item → Nat
  | [] => 0
  | x :: xs => max x.depth (depths xs)

end

/-- The item a run of tags is about. -/
def untag : Item → Item
  | .tag _ c => c.untag
  | x => x

def isTag : Item → Bool
  | .tag _ _ => true
  | _ => false

def isArray : Item → Bool
  | .array _ _ => true
  | _ => false

/-- What every tag keeps relates an item to what its tags are about. -/
theorem untag_induction {P : Item → Item → Prop}
    (tag : ∀ n c, P c c.untag → P (.tag n c) c.untag)
    (other : ∀ x : Item, x.isTag = false → P x x) (x : Item) : P x x.untag := by
  induction x using untag.induct with
  | case1 n c ih => exact tag n c ih
  | case2 x h =>
    rw [untag.eq_2 x h]
    refine other x ?_
    cases x with
    | tag n c => exact absurd rfl (h n c)
    | _ => rfl

@[simp] theorem depth_untag (x : Item) : x.untag.depth = x.depth := by
  refine untag_induction (P := fun x y ↦ y.depth = x.depth) ?_ ?_ x
  · intro n c ih
    rw [ih, depth]
  · intro x _
    rfl

@[simp] theorem isTag_untag (x : Item) : x.untag.isTag = false := by
  refine untag_induction (P := fun _ y ↦ y.isTag = false) ?_ ?_ x
  · intro n c ih
    exact ih
  · intro x h
    exact h

theorem depth_le_depths {x : Item} {xs : List Item} (h : x ∈ xs) : x.depth ≤ depths xs := by
  induction xs with
  | nil => cases h
  | cons y ys ih =>
    rw [depths]
    rcases List.mem_cons.mp h with rfl | h
    · exact Nat.le_max_left ..
    · exact Nat.le_trans (ih h) (Nat.le_max_right ..)

theorem depths_le {n : Nat} {xs : List Item} (h : ∀ x ∈ xs, x.depth ≤ n) : depths xs ≤ n := by
  induction xs with
  | nil => exact Nat.zero_le n
  | cons y ys ih =>
    rw [depths]
    exact Nat.max_le.mpr ⟨h y (by simp), ih fun x hx ↦ h x (by simp [hx])⟩

end Item

end Cbor
