import EsOdbc.Fetch.Calls

/-!
# Getting past a row

Whether a turn moves the iterator from one row to the next one depends on the row alone.
A JSON iterator always moves.  A CBOR iterator stays at a row with more elements than
there are columns, which `unpack_one_row_cbor` returns from without leaving it, and at one
that nests too deep to be skipped; a tag in front of a row is taken for a row.
-/

namespace EsOdbc

open Cbor (Item)

variable {σ : Type}

/-- The rows iterator gets past the row. -/
def Row.consumable (ncols : Nat) : Row → Bool
  | .json _ => true
  | .cbor (.array _ xs) => xs.length ≤ ncols && skippable xs
  | .cbor (.tag _ _) => false
  | .cbor x => x.depth ≤ cborParserMaxRecursions

theorem cborNext_eq_iff (ncols : Nat) (x : Item) (rows : List Item) :
    cborNext ncols (x :: rows) = rows ↔ (Row.cbor x).consumable ncols = true := by
  have hother : (if x.depth ≤ cborParserMaxRecursions then rows else x :: rows) = rows ↔
      x.depth ≤ cborParserMaxRecursions := by
    split_ifs with h <;> simp [h]
  cases x with
  | array indef xs =>
    rw [cborNext, Row.consumable, Bool.and_eq_true, decide_eq_true_iff]
    split_ifs with h
    · simp [h]
    · simp [h]
  | tag n c => simp [cborNext, cborValueAdvance, Row.consumable]
  | _ =>
    refine Iff.trans (Eq.congr_left ?_) (hother.trans decide_eq_true_iff.symm)
    simp only [cborNext, cborValueAdvance]
    split_ifs <;> rfl

theorem Resultset.rows_stepRow {r : Resultset} {packJson : Bool} {row : Row} {rows : List Row}
    (ncols : Nat) (h : r.rows packJson = row :: rows) :
    (r.stepRow packJson ncols).rows packJson = rows ↔ row.consumable ncols = true := by
  cases packJson with
  | true =>
    simp only [Resultset.rows, if_true] at h
    cases hit : r.json.rowsIter with
    | nil => simp [hit] at h
    | cons v vs =>
      rw [hit, List.map_cons] at h
      cases h
      simp [Resultset.stepRow, Resultset.rows, hit, Row.consumable]
  | false =>
    simp only [Resultset.rows, Bool.false_eq_true, if_false] at h
    cases hit : r.cbor.rowsIter with
    | nil => simp [hit] at h
    | cons x xs =>
      rw [hit, List.map_cons] at h
      cases h
      rw [← cborNext_eq_iff]
      simp only [Resultset.stepRow, Resultset.rows, Bool.false_eq_true, if_false, hit]
      exact (List.map_injective_iff.mpr fun a b h ↦ by cases h; rfl).eq_iff

/-- A turn at a row ends with the iterator at the rows that follow, or the fetch with an
error. -/
def PastRow (cv : Converters σ) (l : FetchLoop σ) (rows : List Row) : Prop :=
  match fetchTurn cv l with
  | .next l' => l'.stmt.rset.rows l.packJson = rows
  | .leave l' => (fetchEnd l').1 = .error
  | .ret r _ => r = .error
  | .undefined => False

theorem pastRow_iff (cv : Converters σ) {l : FetchLoop σ} (hl : l.stmt.Ready)
    (hi : l.i < l.stmt.ard.arraySize) (hfmt : l.packJson = true → l.stmt.rset.packJson = true)
    {row : Row} {rows : List Row} (hrow : l.stmt.rset.rows l.packJson = row :: rows) :
    PastRow cv l rows ↔ row.consumable l.stmt.ird.length = true := by
  obtain ⟨d, recs, -, h⟩ := fetchTurn_row cv hl.gd hi hfmt hrow
  rw [PastRow, h]
  exact Resultset.rows_stepRow _ hrow

end EsOdbc
