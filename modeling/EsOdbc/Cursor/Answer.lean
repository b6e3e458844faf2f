import EsOdbc.Cursor.Request
import EsOdbc.Fetch.Calls

/-!
# The cursor of an answer

The cursor that an answer brings, and the one that a statement has once the answer was attached to
it, whatever came of the attaching.
-/

namespace EsOdbc

open Cbor (Item)

variable {σ : Type}

/-! ## What an answer brings -/

/-- The value of a key in the items of a map. -/
def entryOf (key : CStr) : List Item → Option Item
  | k :: v :: rest => if textBytes k.untag = some key then some v else entryOf key rest
  | _ => none

/-- A text is a cursor if it is not empty. -/
def Cursor.ofJson (w : WStr) : Option Cursor := if w.isEmpty then none else some (.json w)
def Cursor.ofCbor (b : CStr) : Option Cursor := if b.isEmpty then none else some (.cbor b)

/-- The cursor in an answer. -/
def Answer.delivered : Answer → Option Cursor
  | .json (some (.object members)) =>
    match members.lookup (wstr packParamCursor) with
    | some (.string w) => Cursor.ofJson w
    | _ => none
  | .cbor (some (.map _ entries)) =>
    (entryOf (cstr packParamCursor) entries).bind fun v ↦ (textBytes v.untag).bind Cursor.ofCbor
  | _ => none

/-- The cursor that the driver gets to in an answer, behind the rows. -/
def Answer.taken : Answer → Option Cursor
  | .json (some obj) => do
    let _ ← obj.unpack (wstr packParamRows) UJValue.isArray
    Cursor.ofJson (← obj.unpack (wstr packParamCursor) UJValue.isString).readString
  | .cbor (some (.map _ entries)) =>
    match cborMapLookupKeys entries
        [cstr packParamColumns, cstr packParamCursor, cstr packParamRows] with
    | some (.ok [_, some cursor, some (.array _ _)]) => (textBytes cursor).bind Cursor.ofCbor
    | _ => none
  | _ => none

/-! ## What a statement has -/

theorem Stmt.cursor_of_json {s : Stmt σ} (h : s.rset.packJson = true) :
    s.cursor = Cursor.ofJson s.rset.json.curs := by
  rw [Stmt.cursor, Stmt.hasCursor, if_pos h, if_pos h, Cursor.ofJson]
  cases s.rset.json.curs <;> rfl

theorem Stmt.cursor_of_cbor {s : Stmt σ} (h : s.rset.packJson = false) :
    s.cursor = Cursor.ofCbor s.rset.cbor.curs := by
  have h' : ¬s.rset.packJson = true := by rw [h]; exact Bool.false_ne_true
  rw [Stmt.cursor, Stmt.hasCursor, if_neg h', if_neg h', Cursor.ofCbor]
  cases s.rset.cbor.curs <;> rfl

theorem Stmt.cursor_congr {s t : Stmt σ} (h : s.rset = t.rset) : s.cursor = t.cursor := by
  rw [Stmt.cursor, Stmt.cursor, Stmt.hasCursor, Stmt.hasCursor, h]

theorem Stmt.cursor_isSome (s : Stmt σ) : s.cursor.isSome = s.hasCursor := by
  rw [Stmt.cursor]
  cases s.hasCursor <;> rfl

theorem Stmt.cursor_of_zero {s : Stmt σ} (h : s.rset = .zero) : s.cursor = none := by
  rw [Stmt.cursor, Stmt.hasCursor, h]
  rfl

/-! ## Attaching -/

theorem attachAnswerJson_rset {s s' : Stmt σ} {v : Option UJValue} {r : SqlReturn}
    (h : attachAnswerJson s v = .done (r, s')) :
    s'.rset.packJson = s.rset.packJson ∧
      s'.rset.json.curs = (do
        let obj ← v
        let _ ← obj.unpack (wstr packParamRows) UJValue.isArray
        return (← obj.unpack (wstr packParamCursor) UJValue.isString).readString).getD
          s.rset.json.curs := by
  cases v with
  | none =>
    cases h
    exact ⟨rfl, rfl⟩
  | some obj =>
    rw [attachAnswerJson] at h
    dsimp only at h
    simp only [Option.bind_eq_bind, Option.bind_some]
    cases hrows : obj.unpack (wstr packParamRows) UJValue.isArray with
    | none =>
      rw [hrows] at h
      cases h
      exact ⟨rfl, rfl⟩
    | some rows =>
      rw [hrows] at h
      dsimp only at h
      -- the columns change nothing of the result set
      have hset : s'.rset = { s.rset with json := { s.rset.json with
          state := some s.nextBlock }}.setJson rows
          (obj.unpack (wstr packParamCursor) UJValue.isString) := by
        split at h
        · split_ifs at h
          · cases h
            rfl
          · rw [attachColumnsJson_frame.2 _ _ h]
        · cases h
          rfl
      rw [hset]
      refine ⟨rfl, ?_⟩
      cases obj.unpack (wstr packParamCursor) UJValue.isString <;> rfl

/-- The columns change nothing of the cursor. -/
theorem attachColumnsCbor_curs {s s' : Stmt σ} {columns : Item} {r : SqlReturn}
    (h : attachColumnsCbor s columns = .done (r, s')) :
    s'.rset.packJson = s.rset.packJson ∧ s'.rset.cbor.curs = s.rset.cbor.curs := by
  rcases attachColumnsCbor_frame.2 _ _ h with hs' | hs' <;> rw [hs'] <;> exact ⟨rfl, rfl⟩

theorem attachAnswerCbor_rset {s s' : Stmt σ} {x : Option Item} {r : SqlReturn}
    (h : attachAnswerCbor s x = .done (r, s')) (hcurs : s.rset.cbor.curs = []) :
    s'.rset.packJson = s.rset.packJson ∧
      Cursor.ofCbor s'.rset.cbor.curs = (Answer.cbor x).taken := by
  have hnone : Cursor.ofCbor s.rset.cbor.curs = none := by
    rw [hcurs]
    rfl
  rw [attachAnswerCbor.eq_def] at h
  dsimp only at h
  split at h
  · rename_i indef entries
    rw [Answer.taken]
    split at h
    · cases h
    · rename_i columns cursor indef' items hkeys
      rw [hkeys]
      cases cursor with
      | none =>
        suffices hs' : s'.rset.packJson = s.rset.packJson ∧ s'.rset.cbor.curs = s.rset.cbor.curs by
          exact ⟨hs'.1, by rw [hs'.2]; exact hnone⟩
        cases columns with
        | none =>
          cases h
          exact ⟨rfl, rfl⟩
        | some columns =>
          dsimp only [Option.map_none] at h
          split_ifs at h
          · cases h
            exact ⟨rfl, rfl⟩
          · obtain ⟨hpack, hcurs'⟩ := attachColumnsCbor_curs h
            exact ⟨hpack, hcurs'⟩
      | some c =>
        cases ht : textBytes c with
        | none =>
          simp only [Option.map_some, ht] at h
          cases h
          refine ⟨rfl, ?_⟩
          simp only [ht]
          exact hnone
        | some b =>
          simp only [Option.map_some, ht] at h
          suffices hs' : s'.rset.packJson = s.rset.packJson ∧ s'.rset.cbor.curs = b by
            exact ⟨hs'.1, by simp only [hs'.2, ht]; rfl⟩
          cases columns with
          | none =>
            cases h
            exact ⟨rfl, rfl⟩
          | some columns =>
            dsimp only at h
            split_ifs at h
            · cases h
              exact ⟨rfl, rfl⟩
            · exact attachColumnsCbor_curs h
    · rename_i e hne hkeys
      cases h
      refine ⟨rfl, hnone.trans ?_⟩
      split
      · rename_i columns c indef' items hkeys'
        rw [hkeys] at hkeys'
        cases hkeys'
        exact absurd rfl (hne _ _ _ _)
      · rfl
  · rename_i hx
    cases h
    refine ⟨rfl, hnone.trans ?_⟩
    cases x with
    | none => rfl
    | some x =>
      cases x with
      | map indef entries => exact absurd rfl (hx _ _)
      | _ => rfl

/-- The cursor of a statement after an answer, whatever came of attaching it. -/
theorem attachAnswer_cursor {s s' : Stmt σ} {a : Answer} {r : SqlReturn}
    (hclear : s.hasResultset = false → s.rset = .zero) (h : attachAnswer s a = .done (r, s')) :
    s'.cursor = a.taken := by
  obtain ⟨⟨ret, t⟩, ht, h⟩ := Exec.bind_eq_done.mp h
  have hrset := s.takeBody_rset a.isJson hclear
  have hend : s'.rset = t.rset := by
    rw [Exec.done.injEq, attachEnd] at h
    dsimp only at h
    split_ifs at h <;> cases h <;> rfl
  rw [Stmt.cursor_congr hend]
  cases a with
  | json v =>
    obtain ⟨hpack, hcurs⟩ := attachAnswerJson_rset ht
    rw [Stmt.cursor_of_json (hpack.trans (by rw [hrset]; rfl)), hcurs, hrset]
    cases v with
    | none => rfl
    | some obj =>
      simp only [Answer.taken, Option.bind_eq_bind, Option.bind_some]
      cases obj.unpack (wstr packParamRows) UJValue.isArray with
      | none => rfl
      | some rows => cases obj.unpack (wstr packParamCursor) UJValue.isString <;> rfl
  | cbor x =>
    obtain ⟨hpack, hcurs⟩ := attachAnswerCbor_rset ht (by rw [hrset]; rfl)
    rw [Stmt.cursor_of_cbor (hpack.trans (by rw [hrset]; rfl)), hcurs]

end EsOdbc
