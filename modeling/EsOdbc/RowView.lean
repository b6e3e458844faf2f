import EsOdbc.CopyRow

/-!
# What a row comes to

An abstract account of the row functions, common to the two formats.  A row is seen as
its cells, or as malformed; what a fetch makes of it is one of four outcomes.
`unpackOneRowJson_eq` and `unpackOneRowCbor_eq` say that the functions of the source do
exactly this, and what else of the statement they change.
-/

namespace EsOdbc

open Cbor (Item)

variable {σ : Type}

/-- A row as its cells, or one that is not a row of so many columns. -/
inductive RowView where
  | malformed
  | cells (cs : List Cell)
deriving DecidableEq, Repr

/-- A JSON row of a result set with `ncols` columns. -/
def viewJson (ncols : Nat) : UJValue → RowView
  | .array vs => if vs ≠ [] ∧ vs.length = ncols then .cells (vs.map cellJson) else .malformed
  | _ => .malformed

/-- Every element can be skipped by the iterator. -/
def skippable (xs : List Item) : Bool := xs.all fun x ↦ x.depth ≤ cborParserMaxRecursions

/-- A CBOR row of a result set with `ncols` columns. -/
def viewCbor (ncols : Nat) : Item → RowView
  | .array _ xs =>
    if xs.length = ncols ∧ skippable xs then .cells (xs.map cellCbor) else .malformed
  | _ => .malformed

/-- What becomes of one row of a rowset. -/
inductive RowOutcome where
  /-- All bound columns were copied, possibly with a warning. -/
  | copied (withInfo : Bool)
  /-- There was nothing to copy to. -/
  | untouched
  /-- Refused through `set_row_diag`. -/
  | rejected
  /-- A converter failed. -/
  | convFailed
deriving DecidableEq, Repr

namespace RowOutcome

/-- The code that the unpacking function returns. -/
def ret : RowOutcome → SqlReturn
  | .copied true => .successWithInfo
  | .copied false | .untouched => .success
  | .rejected | .convFailed => .error

/-- The status that is written for the row, if one is. -/
def written : RowOutcome → Option RowStatus
  | .copied true => some .successWithInfo
  | .copied false => some .success
  | .rejected => some .error
  | .untouched | .convFailed => none

/-- The row status array after the row at `pos`. -/
def mark (o : RowOutcome) (pos : Nat) (st : Option (List RowStatus)) :
    Option (List RowStatus) :=
  match o.written with
  | some x => st.map fun st ↦ List.set st pos x
  | none => st

/-- A row without an error or a warning. -/
def clean (o : RowOutcome) : Bool := o.ret == .success

/-- A row that could not be fetched. -/
def failed (o : RowOutcome) : Bool := !o.ret.succeeded

end RowOutcome

/-- The copying loop on the columns' types and cells, from column `i` on. -/
def copyView (cv : Converters σ) (pos : Nat) (fields : List (ColType × Cell)) :
    σ → (i : Nat) → (withInfo : Bool) → List ARec → RowOutcome × σ
  | app, _, withInfo, [] => (.copied withInfo, app)
  | app, i, withInfo, arec :: arecs =>
    let conv (r : SqlState × σ) : RowOutcome × σ :=
      match r.1.retcode with
      | .success => copyView cv pos fields r.2 (i + 1) withInfo arecs
      | .successWithInfo => copyView cv pos fields r.2 (i + 1) true arecs
      | _ => (.convFailed, r.2)
    if !arec.isBound then copyView cv pos fields app (i + 1) withInfo arecs
    else match fields[i]? with
      | none | some (_, .bad) => (.rejected, app)
      | some (_, .null) =>
        if arec.indicatorPtr then
          copyView cv pos fields (cv.storeNull i pos app) (i + 1) withInfo arecs
        else (.rejected, app)
      | some (col, .string w) => conv (cv.sql2cString arec col i pos w app)
      | some (col, .longlong n) => conv (cv.sql2cLonglong arec col i pos n app)
      | some (col, .quadword n) => conv (cv.sql2cQuadword arec col i pos n app)
      | some (col, .double d) => conv (cv.sql2cDouble arec col i pos d app)

/-- What becomes of a row, and of the application's side. -/
def rowOutcome (cv : Converters σ) (arecs : List ARec) (cols : List ColType) (pos : Nat)
    (app : σ) : RowView → RowOutcome × σ
  | .malformed => (.rejected, app)
  | .cells cs =>
    if arecs = [] then (.untouched, app)
    else copyView cv pos (cols.zip cs) app 0 false arecs

/-! ## Copying -/

namespace Stmt

/-- The statement after a row: the diagnostic, the status of the row and the
application's side, and nothing else. -/
def afterRow (s : Stmt σ) (pos : Nat) (r : RowOutcome × σ) (d : Diag) : Stmt σ :=
  { s with diag := d, arrayStatus := r.1.mark pos s.arrayStatus, app := r.2 }

theorem setRowDiag_eq (s : Stmt σ) {state : SqlState} (h : state.retcode = .error)
    (text : Option String) (pos : Nat) (colno : Int) :
    ∃ d, s.setRowDiag state text pos colno =
      (RowOutcome.rejected.ret, s.afterRow pos (.rejected, s.app) d) :=
  ⟨_, by rw [setRowDiag, retHdiag, h]; rfl⟩

/-- The fields the copying loop reads. -/
def fields (s : Stmt σ) : List (ColType × Cell) :=
  s.ird.map fun r ↦ (r.col, r.iVal.cell)

theorem afterConv_cases (s : Stmt σ) (i : Nat) (r : SqlState × σ) :
    ∃ d, s.afterConv i r = (r.1.retcode, { s with diag := d, app := r.2 }) := by
  obtain ⟨state, app⟩ := r
  cases state <;> exact ⟨_, rfl⟩

theorem retcode_ne_noData (state : SqlState) : state.retcode ≠ .noData := by
  cases state <;> simp [SqlState.retcode]

/-- The copying loop on what a conversion gave. -/
def copyRest (cv : Converters σ) (pos i : Nat) (withInfo : Bool) (arecs : List ARec) :
    SqlReturn × Stmt σ → SqlReturn × Stmt σ
  | (.success, s) => copyCols cv pos s (i + 1) withInfo arecs
  | (.successWithInfo, s) => copyCols cv pos s (i + 1) true arecs
  | r => r

/-- The copying loop computes `copyView` and changes nothing else. -/
theorem copyCols_eq (cv : Converters σ) (pos : Nat) (arecs : List ARec) (s : Stmt σ) (i : Nat)
    (withInfo : Bool) :
    ∃ d, copyCols cv pos s i withInfo arecs =
      ((copyView cv pos s.fields s.app i withInfo arecs).1.ret,
        s.afterRow pos (copyView cv pos s.fields s.app i withInfo arecs) d) := by
  induction arecs generalizing s i withInfo with
  | nil => cases withInfo <;> exact ⟨s.diag, rfl⟩
  | cons arec arecs ih =>
    -- one converter call, whatever the type of the value
    have conv : ∀ r : SqlState × σ,
        ∃ d, copyRest cv pos i withInfo arecs (s.afterConv i r) =
        let v : RowOutcome × σ := match r.1.retcode with
          | .success => copyView cv pos s.fields r.2 (i + 1) withInfo arecs
          | .successWithInfo => copyView cv pos s.fields r.2 (i + 1) true arecs
          | _ => (.convFailed, r.2)
        (v.1.ret, s.afterRow pos v d) := by
      intro r
      obtain ⟨d, hd⟩ := s.afterConv_cases i r
      rw [hd]
      cases hr : r.1.retcode with
      | success => exact ih { s with diag := d, app := r.2 } (i + 1) withInfo
      | successWithInfo => exact ih { s with diag := d, app := r.2 } (i + 1) true
      | error => exact ⟨d, rfl⟩
      | noData => exact absurd hr (retcode_ne_noData _)
    rw [copyCols, copyView]
    cases hb : arec.isBound with
    | false => simpa using ih s (i + 1) withInfo
    | true =>
      simp only [Bool.not_true, Bool.false_eq_true, if_false, fields, List.getElem?_map]
      cases s.ird[i]? with
      | none => exact s.setRowDiag_eq rfl _ pos _
      | some irec =>
        simp only [Option.map_some]
        cases irec.iVal.cell with
        | bad => exact s.setRowDiag_eq rfl _ pos _
        | null =>
          cases hi : arec.indicatorPtr with
          | true =>
            simp only [copyCell, hi, if_true]
            exact ih { s with app := cv.storeNull i pos s.app } (i + 1) withInfo
          | false =>
            simp only [copyCell, hi, Bool.false_eq_true, if_false]
            exact s.setRowDiag_eq rfl _ pos _
        | string w => exact conv (cv.sql2cString arec irec.col i pos w s.app)
        | longlong n => exact conv (cv.sql2cLonglong arec irec.col i pos n s.app)
        | quadword n => exact conv (cv.sql2cQuadword arec irec.col i pos n s.app)
        | double x => exact conv (cv.sql2cDouble arec irec.col i pos x s.app)

theorem copyIfBound_eq (cv : Converters σ) (s : Stmt σ) (pos : Nat) (hgd : s.gdCalling = false)
    {cells : List Cell} (hc : s.ird.map (fun r ↦ r.iVal.cell) = cells) :
    ∃ d, s.copyIfBound cv pos =
      ((rowOutcome cv s.ard.recs s.cols pos s.app (.cells cells)).1.ret,
        s.afterRow pos (rowOutcome cv s.ard.recs s.cols pos s.app (.cells cells)) d) := by
  rw [copyIfBound, rowOutcome]
  cases h : s.ard.recs with
  | nil => exact ⟨s.diag, rfl⟩
  | cons arec arecs =>
    have hf : s.cols.zip cells = s.fields := by
      subst hc
      simp [cols, fields, List.zip_map']
    simp only [List.length_cons, Nat.zero_lt_succ, if_true, reduceCtorEq, if_false, copyOneRow,
      hgd, Bool.false_eq_true, List.drop_zero, h, hf]
    exact copyCols_eq cv pos (arec :: arecs) s 0 false

end Stmt

/-! ## Unpacking a JSON row -/

/-- A record of the IRD apart from the value of the current row. -/
def IRec.desc (r : IRec) : IRec := { r with iVal := .unset }

@[simp] theorem IRec.desc_iVal (r : IRec) (v : IVal) : { r with iVal := v }.desc = r.desc := rfl

namespace Stmt

theorem unpackRowJson_desc (rs : List IRec) (vs : List UJValue) (i : Nat) :
    (unpackRowJson rs vs i).1.map IRec.desc = rs.map IRec.desc := by
  induction rs generalizing vs i with
  | nil => rfl
  | cons r rs ih =>
    cases vs with
    | nil => rfl
    | cons v vs => simp [unpackRowJson, ih]

theorem unpackRowJson_end (rs : List IRec) (vs : List UJValue) (i : Nat) :
    (unpackRowJson rs vs i).2 =
      if vs.length < rs.length then .inr (i + vs.length) else .inl (vs.drop rs.length) := by
  induction rs generalizing vs i with
  | nil => simp [unpackRowJson]
  | cons r rs ih =>
    cases vs with
    | nil => simp [unpackRowJson]
    | cons v vs =>
      simp only [unpackRowJson, ih, List.length_cons, Nat.add_lt_add_iff_right, List.drop_succ_cons]
      congr 2
      omega

theorem unpackRowJson_cells (rs : List IRec) (vs : List UJValue) (i : Nat)
    (h : vs.length = rs.length) :
    (unpackRowJson rs vs i).1.map (fun r ↦ r.iVal.cell) = vs.map cellJson := by
  induction rs generalizing vs i with
  | nil => simp_all [unpackRowJson]
  | cons r rs ih =>
    cases vs with
    | nil => simp at h
    | cons v vs =>
      simp only [unpackRowJson, List.map_cons, ih vs (i + 1) (by simpa using h)]
      rfl

theorem length_eq_of_desc {rs rs' : List IRec} (h : rs.map IRec.desc = rs'.map IRec.desc) :
    rs.length = rs'.length := by
  simpa using congrArg List.length h

theorem col_eq_of_desc {rs rs' : List IRec} (h : rs.map IRec.desc = rs'.map IRec.desc) :
    rs.map IRec.col = rs'.map IRec.col := by
  simpa [Function.comp_def, IRec.desc] using congrArg (List.map IRec.col) h

/-- What becomes of the row that the statement is at. -/
def outcome (cv : Converters σ) (s : Stmt σ) (pos : Nat) (v : RowView) : RowOutcome × σ :=
  rowOutcome cv s.ard.recs s.cols pos s.app v

/-- The row function changes the values in the IRD, and what `afterRow` says. -/
theorem unpackOneRowJson_eq (cv : Converters σ) (s : Stmt σ) (pos : Nat)
    (hgd : s.gdCalling = false) :
    let o := s.outcome cv pos (viewJson s.ird.length s.rset.json.rowArray)
    ∃ d recs, recs.map IRec.desc = s.ird.map IRec.desc ∧
      s.unpackOneRowJson cv pos = (o.1.ret, { s with ird := recs }.afterRow pos o d) := by
  intro o
  have hmal : viewJson s.ird.length s.rset.json.rowArray = .malformed →
      ∀ (s' : Stmt σ) (text : Option String) (c : Int), s'.arrayStatus = s.arrayStatus →
        s'.app = s.app → ∃ d, s'.setRowDiag .sHY000 text pos c =
          (o.1.ret, s'.afterRow pos o d) := by
    intro h s' text c hst happ
    have ho : o = (.rejected, s'.app) := by simp only [o, outcome, h, rowOutcome, happ]
    rw [ho]
    exact s'.setRowDiag_eq rfl text pos c
  unfold unpackOneRowJson
  cases hv : s.rset.json.rowArray with
  | array vs =>
    have hend := unpackRowJson_end s.ird vs 0
    have hdesc := unpackRowJson_desc s.ird vs 0
    have hcells := unpackRowJson_cells s.ird vs 0
    cases hu : unpackRowJson s.ird vs 0 with
    | mk recs e =>
      rw [hu] at hend hdesc hcells
      dsimp only at hend hdesc hcells
      simp only [UJValue.isArray, UJValue.beginArray, Bool.not_true, Bool.false_or, hu]
      by_cases hne : vs = []
      · obtain ⟨d, hd⟩ := hmal (by simp [hv, viewJson, hne]) s msgInvSrvAns noColumnNumber rfl rfl
        exact ⟨d, s.ird, rfl, by simpa [hne] using hd⟩
      · simp only [List.isEmpty_iff, hne, if_false]
        by_cases hlen : vs.length = s.ird.length
        · have he : e = .inl [] := by simp [hend, hlen]
          have hview : viewJson s.ird.length s.rset.json.rowArray = .cells (vs.map cellJson) := by
            simp [hv, viewJson, hne, hlen]
          obtain ⟨d, hd⟩ := copyIfBound_eq cv { s with ird := recs } pos hgd (hcells hlen)
          have hcols : ({ s with ird := recs } : Stmt σ).cols = s.cols := col_eq_of_desc hdesc
          rw [hcols] at hd
          refine ⟨d, recs, hdesc, ?_⟩
          rw [he]
          simpa only [o, outcome, hview] using hd
        · have hview : viewJson s.ird.length s.rset.json.rowArray = .malformed := by
            simp [hv, viewJson, hlen]
          rcases Nat.lt_or_gt_of_ne hlen with hlt | hgt
          · have he : e = .inr vs.length := by simp [hend, hlt]
            obtain ⟨d, hd⟩ := hmal hview { s with ird := recs } msgInvSrvAns (vs.length + 1) rfl rfl
            exact ⟨d, recs, hdesc, by rw [he]; exact hd⟩
          · have he : ∃ y ys, e = .inl (y :: ys) := by
              cases hd : vs.drop s.ird.length with
              | nil => exact absurd (List.drop_eq_nil_iff.mp hd) (by omega)
              | cons y ys => exact ⟨y, ys, by rw [hend, if_neg (by omega), hd]⟩
            obtain ⟨y, ys, he⟩ := he
            obtain ⟨d, hd⟩ := hmal hview { s with ird := recs } msgInvSrvAns noColumnNumber rfl rfl
            exact ⟨d, recs, hdesc, by rw [he]; exact hd⟩
  | _ =>
    obtain ⟨d, hd⟩ := hmal (by simp [hv, viewJson]) s msgInvSrvAns noColumnNumber rfl rfl
    exact ⟨d, s.ird, rfl, by simpa [UJValue.isArray] using hd⟩

end Stmt

/-! ## Unpacking a CBOR row -/

theorem cborValueAdvance_untag (x : Item) (rest : List Item) :
    cborValueAdvance (x.untag :: rest) =
      if x.depth ≤ cborParserMaxRecursions then .ok rest else .error .nestingTooDeep := by
  have h := Item.isTag_untag x
  rw [← Item.depth_untag x]
  cases hx : x.untag with
  | tag n c => simp [hx, Item.isTag] at h
  | _ => rfl

theorem cborValueExitContainer_eq (xs : List Item) :
    cborValueExitContainer xs =
      if skippable xs then .ok () else .error .nestingTooDeep := by
  induction xs with
  | nil => rfl
  | cons x xs ih =>
    rw [cborValueExitContainer, cborValueAdvance_untag]
    by_cases h : x.depth ≤ cborParserMaxRecursions
    · simpa [h, skippable] using ih
    · simp [h, skippable]

theorem skippable_untag (x : Item) (xs : List Item) :
    skippable (x.untag :: xs) = skippable (x :: xs) := by
  simp [skippable]

/-- The rows iterator after `unpack_one_row_cbor`. -/
def cborNext (ncols : Nat) : List Item → List Item
  | .array indef xs :: rows =>
    if xs.length ≤ ncols ∧ skippable xs then rows else .array indef xs :: rows
  | it => match cborValueAdvance it with
    | .ok it => it
    | .error _ => it

namespace Stmt

theorem unpackRowCbor_desc (rs : List IRec) (xs : List Item) :
    (unpackRowCbor rs xs).1.map IRec.desc = rs.map IRec.desc := by
  induction rs generalizing xs with
  | nil => rfl
  | cons r rs ih =>
    cases xs with
    | nil => rfl
    | cons x xs =>
      rw [unpackRowCbor, cborValueAdvance_untag]
      split_ifs
      · simp [ih]
      · simp

theorem unpackRowCbor_cells (rs : List IRec) (xs : List Item) (hlen : xs.length = rs.length)
    (hsk : skippable xs) :
    (unpackRowCbor rs xs).1.map (fun r ↦ r.iVal.cell) = xs.map cellCbor := by
  induction rs generalizing xs with
  | nil => simp_all [unpackRowCbor]
  | cons r rs ih =>
    cases xs with
    | nil => simp at hlen
    | cons x xs =>
      simp only [skippable, List.all_cons, Bool.and_eq_true, decide_eq_true_eq] at hsk
      rw [unpackRowCbor, cborValueAdvance_untag, if_pos hsk.1]
      simp only [List.map_cons, ih xs (by simpa using hlen) hsk.2]
      rfl

/-- The loop goes through a row when every column finds an element it can skip; when it
does not, leaving the row needs all of the row's elements to be skippable. -/
theorem unpackRowCbor_end (rs : List IRec) (xs : List Item) :
    match (unpackRowCbor rs xs).2 with
    | .through it => it = xs.drop rs.length ∧ rs.length ≤ xs.length ∧
        (skippable xs ↔ skippable it)
    | .err it => (skippable it ↔ skippable xs) ∧ (skippable xs → xs.length < rs.length) := by
  induction rs generalizing xs with
  | nil => simp [unpackRowCbor]
  | cons r rs ih =>
    cases xs with
    | nil => simp [unpackRowCbor]
    | cons x xs =>
      rw [unpackRowCbor, cborValueAdvance_untag]
      by_cases h : x.depth ≤ cborParserMaxRecursions
      · rw [if_pos h]
        have hx : skippable (x :: xs) = skippable xs := by simp [skippable, h]
        simp only [hx, List.length_cons, List.drop_succ_cons, Nat.add_le_add_iff_right,
          Nat.add_lt_add_iff_right]
        exact ih xs
      · rw [if_neg h]
        have hx : skippable (x :: xs) = false := by simp [skippable, h]
        simp [skippable_untag, hx]

/-- The row function moves the iterator by `cborNext`, changes the values in the IRD, and
what `afterRow` says. -/
theorem unpackOneRowCbor_eq (cv : Converters σ) (s : Stmt σ) (pos : Nat)
    (hgd : s.gdCalling = false) {x : Item} {rows : List Item}
    (hx : s.rset.cbor.rowsIter = x :: rows) :
    let o := s.outcome cv pos (viewCbor s.ird.length x)
    ∃ d recs, recs.map IRec.desc = s.ird.map IRec.desc ∧
      s.unpackOneRowCbor cv pos = (o.1.ret,
        ({ s with ird := recs }.setRowsIter (cborNext s.ird.length (x :: rows))).afterRow pos o d) := by
  intro o
  have hmal : viewCbor s.ird.length x = .malformed →
      ∀ (s' : Stmt σ), s'.arrayStatus = s.arrayStatus → s'.app = s.app →
        ∃ d, s'.setRowDiag .sHY000 msgInvSrvAns pos noColumnNumber =
          (o.1.ret, s'.afterRow pos o d) := by
    intro h s' hst happ
    have ho : o = (.rejected, s'.app) := by simp only [o, outcome, h, rowOutcome, happ]
    rw [ho]
    exact s'.setRowDiag_eq rfl _ pos _
  have hstay : ∀ recs, ({ s with ird := recs } : Stmt σ).setRowsIter (x :: rows) =
      { s with ird := recs } := fun recs ↦ by rw [setRowsIter, ← hx]
  -- an element that is no row: the iterator is advanced, if it can be
  have hother : viewCbor s.ird.length x = .malformed →
      cborNext s.ird.length (x :: rows) =
        (match cborValueAdvance (x :: rows) with | .ok it => it | .error _ => x :: rows) →
      ∃ d recs, recs.map IRec.desc = s.ird.map IRec.desc ∧
        (match cborValueAdvance (x :: rows) with
          | .ok it => (s.setRowsIter it).setRowDiag .sHY000 msgInvSrvAns pos noColumnNumber
          | .error _ => s.setRowDiag .sHY000 msgInvSrvAns pos noColumnNumber) = (o.1.ret,
        ({ s with ird := recs }.setRowsIter (cborNext s.ird.length (x :: rows))).afterRow pos o d) := by
    intro hv hn
    rw [hn]
    cases cborValueAdvance (x :: rows) with
    | ok it =>
      obtain ⟨d, hd⟩ := hmal hv (s.setRowsIter it) rfl rfl
      exact ⟨d, s.ird, rfl, hd⟩
    | error e =>
      obtain ⟨d, hd⟩ := hmal hv s rfl rfl
      exact ⟨d, s.ird, rfl, by simpa only [hstay] using hd⟩
  unfold unpackOneRowCbor
  rw [hx]
  cases x with
  | array indef xs =>
    have hend := unpackRowCbor_end s.ird xs
    have hdesc := unpackRowCbor_desc s.ird xs
    have hcells := unpackRowCbor_cells s.ird xs
    cases hu : unpackRowCbor s.ird xs with
    | mk recs e =>
      rw [hu] at hend hdesc hcells
      dsimp only at hend hdesc hcells
      simp only [hu, cborNext]
      cases e with
      | through it =>
        obtain ⟨rfl, hle, hsk⟩ := hend
        cases hit : xs.drop s.ird.length with
        | nil =>
          have hlen : xs.length = s.ird.length :=
            Nat.le_antisymm (List.drop_eq_nil_iff.mp hit) hle
          have hskx : skippable xs := hsk.mpr (by rw [hit]; rfl)
          have hview : viewCbor s.ird.length (.array indef xs) = .cells (xs.map cellCbor) := by
            simp [viewCbor, hlen, hskx]
          have hcols : recs.map IRec.col = s.cols := col_eq_of_desc hdesc
          obtain ⟨d, hd⟩ := copyIfBound_eq cv ({ s with ird := recs }.setRowsIter rows) pos hgd
            (hcells hlen hskx)
          refine ⟨d, recs, hdesc, ?_⟩
          rw [if_pos ⟨Nat.le_of_eq hlen, hskx⟩]
          simpa only [o, outcome, hview, cols, hcols, setRowsIter] using hd
        | cons y ys =>
          have hgt : s.ird.length < xs.length := by
            by_contra hc
            rw [List.drop_eq_nil_iff.mpr (by omega)] at hit
            cases hit
          have hmalv : viewCbor s.ird.length (.array indef xs) = .malformed := by
            rw [viewCbor, if_neg fun h ↦ absurd h.1 (by omega)]
          obtain ⟨d, hd⟩ := hmal hmalv { s with ird := recs } rfl rfl
          refine ⟨d, recs, hdesc, ?_⟩
          rw [if_neg (by omega), hstay]
          exact hd
      | err it =>
        obtain ⟨hsk, hlt⟩ := hend
        have hmalv : viewCbor s.ird.length (.array indef xs) = .malformed := by
          rw [viewCbor, if_neg fun h ↦ absurd (hlt h.2) (by omega)]
        simp only [cborValueExitContainer_eq, hsk]
        by_cases hskx : skippable xs = true
        · obtain ⟨d, hd⟩ := hmal hmalv ({ s with ird := recs }.setRowsIter rows) rfl rfl
          refine ⟨d, recs, hdesc, ?_⟩
          rw [if_pos hskx, if_pos ⟨Nat.le_of_lt (hlt hskx), hskx⟩]
          exact hd
        · obtain ⟨d, hd⟩ := hmal hmalv { s with ird := recs } rfl rfl
          refine ⟨d, recs, hdesc, ?_⟩
          rw [if_neg hskx, if_neg fun h ↦ hskx h.2, hstay]
          exact hd
  | _ => exact hother rfl rfl

end Stmt

end EsOdbc
