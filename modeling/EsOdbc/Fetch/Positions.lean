import EsOdbc.Cursor.Calls

/-!
# The position in a diagnostic

The conversions that warn or fail while a result set is read, each with the number of its row and
what it leaves as the diagnostic.  Rows are counted as the calls of `EsSQLFetch` process them;
`EsSQLGetData` is about the last one that was.  `positions_iff` says when the diagnostics have the
row and the column right.
-/

namespace EsOdbc

variable {σ : Type}

/-! ## The conversions of a row -/

/-- A bound column that the copying loop comes to: its value, unless the result set has no such
column, the code, and the statement that is left. -/
structure Conversion (σ : Type) where
  column : ℕ
  cell : Option Cell
  ret : SqlReturn
  left : Stmt σ

/-- The value is one for a converter; the others are the loop's own. -/
def Cell.isConverted : Cell → Bool
  | .bad | .null => false
  | .string _ | .longlong _ | .quadword _ | .double _ => true

namespace Conversion

/-- It warns or fails. -/
def complains (c : Conversion σ) : Bool := c.ret != .success

def byConverter (c : Conversion σ) : Bool := c.cell.any Cell.isConverted

end Conversion

namespace Stmt

/-- The conversions of the copying loop, from column `i` on. -/
def conversions (cv : Converters σ) (pos : ℕ) : Stmt σ → (i : ℕ) → List ARec → List (Conversion σ)
  | _, _, [] => []
  | s, i, arec :: arecs =>
    if !arec.isBound then conversions cv pos s (i + 1) arecs
    else match s.ird[i]? with
      | none =>
        let r := s.setRowDiag .sHY000 msgInvSrvAns pos (i + 1)
        [⟨i, none, r.1, r.2⟩]
      | some irec =>
        let r := copyCell cv s arec irec.col i pos irec.iVal.cell
        ⟨i, some irec.iVal.cell, r.1, r.2⟩ ::
          if r.1.succeeded then conversions cv pos r.2 (i + 1) arecs else []

/-- Those of `copy_one_row_json` and `copy_one_row_cbor`. -/
def rowConversions (cv : Converters σ) (s : Stmt σ) (pos : ℕ) : List (Conversion σ) :=
  let start := if s.gdCalling then (s.gdCol - 1).toNat else 0
  conversions cv pos s start (s.ard.recs.drop start)

/-- The fields that the position is taken from. -/
structure SamePlace (s t : Stmt σ) : Prop where
  tvRows : t.tvRows = s.tvRows
  gdCol : t.gdCol = s.gdCol

theorem SamePlace.refl (s : Stmt σ) : SamePlace s s := ⟨rfl, rfl⟩

theorem SamePlace.trans {s t u : Stmt σ} (h : SamePlace s t) (h' : SamePlace t u) :
    SamePlace s u := ⟨h'.tvRows.trans h.tvRows, h'.gdCol.trans h.gdCol⟩

theorem SamePlace.gdCalling {s t : Stmt σ} (h : SamePlace s t) : t.gdCalling = s.gdCalling := by
  rw [Stmt.gdCalling, h.gdCol, Stmt.gdCalling]

theorem SamePlace.rowno {s t : Stmt σ} (h : SamePlace s t) : t.rowno = s.rowno := by
  rw [Stmt.rowno, h.tvRows, h.gdCalling, Stmt.rowno]

/-- The number that the row functions give the row of a value. -/
def numberFor (s : Stmt σ) (byConverter : Bool) : ℤ := if byConverter then s.rowno else s.tvRows + 1

theorem SamePlace.numberFor {s t : Stmt σ} (h : SamePlace s t) (b : Bool) :
    t.numberFor b = s.numberFor b := by
  rw [Stmt.numberFor, h.rowno, h.tvRows, Stmt.numberFor]

/-- What a conversion leaves. -/
structure Leaves (s : Stmt σ) (i : ℕ) (byConverter : Bool) (r : SqlReturn × Stmt σ) : Prop where
  place : SamePlace s r.2
  success : r.1 = .success → r.2.diag = s.diag
  row : r.1 ≠ .success → r.2.diag.rowNumber = s.numberFor byConverter
  column : r.1 ≠ .success → r.2.diag.columnNumber = i + 1

theorem setRowDiag_leaves (s : Stmt σ) {state : SqlState} (h : state.retcode = .error)
    (text : Option String) (pos i : ℕ) :
    Leaves s i false (s.setRowDiag state text pos (i + 1)) := by
  refine ⟨⟨rfl, rfl⟩, ?_, fun _ ↦ rfl, fun _ ↦ rfl⟩
  intro hr
  have hr : state.retcode = .success := hr
  rw [h] at hr
  cases hr

theorem afterConv_leaves (s : Stmt σ) (i : ℕ) (r : SqlState × σ) :
    Leaves s i true (s.afterConv i r) := by
  obtain ⟨state, app⟩ := r
  cases state with
  | s00000 => exact ⟨⟨rfl, rfl⟩, fun _ ↦ rfl, fun h ↦ absurd rfl h, fun h ↦ absurd rfl h⟩
  | _ =>
    refine ⟨⟨rfl, rfl⟩, ?_, fun _ ↦ rfl, fun _ ↦ rfl⟩
    intro h
    cases h

theorem copyCell_leaves (cv : Converters σ) (s : Stmt σ) (arec : ARec) (col : ColType) (i pos : ℕ)
    (c : Cell) : Leaves s i c.isConverted (copyCell cv s arec col i pos c) := by
  cases c with
  | bad => exact s.setRowDiag_leaves rfl _ pos i
  | null =>
    rw [copyCell]
    split_ifs
    · exact ⟨⟨rfl, rfl⟩, fun _ ↦ rfl, fun h ↦ absurd rfl h, fun h ↦ absurd rfl h⟩
    · exact s.setRowDiag_leaves rfl _ pos i
  | string w => exact s.afterConv_leaves i _
  | longlong n => exact s.afterConv_leaves i _
  | quadword n => exact s.afterConv_leaves i _
  | double d => exact s.afterConv_leaves i _

/-- The position that a complaint leaves. -/
theorem conversions_left {cv : Converters σ} {pos : ℕ} {arecs : List ARec} {s : Stmt σ} {i : ℕ}
    {c : Conversion σ} (hc : c ∈ conversions cv pos s i arecs) (h : c.complains = true) :
    c.left.diag.rowNumber = s.numberFor c.byConverter ∧
      c.left.diag.columnNumber = c.column + 1 := by
  induction arecs generalizing s i with
  | nil => cases hc
  | cons arec arecs ih =>
    rw [conversions] at hc
    split_ifs at hc
    · exact ih hc
    · have hne : c.ret ≠ .success := bne_iff_ne.mp h
      cases hi : s.ird[i]? with
      | none =>
        rw [hi] at hc
        rw [List.mem_singleton.mp hc] at hne ⊢
        have hl : Leaves s i false (s.setRowDiag .sHY000 msgInvSrvAns pos (i + 1)) :=
          s.setRowDiag_leaves rfl _ pos i
        exact ⟨hl.row hne, hl.column hne⟩
      | some irec =>
        rw [hi] at hc
        have hl := copyCell_leaves cv s arec irec.col i pos irec.iVal.cell
        rcases List.mem_cons.mp hc with rfl | hc
        · exact ⟨hl.row hne, hl.column hne⟩
        · split_ifs at hc
          · rw [← hl.place.numberFor]
            exact ih hc
          · cases hc

/-- The diagnostic that a row leaves is that of its last complaint. -/
theorem copyCols_diag (cv : Converters σ) (pos : ℕ) (arecs : List ARec) (s : Stmt σ) (i : ℕ)
    (withInfo : Bool) :
    (copyCols cv pos s i withInfo arecs).2.diag =
      (((conversions cv pos s i arecs).filter Conversion.complains).getLast?.map
        fun c ↦ c.left.diag).getD s.diag := by
  induction arecs generalizing s i withInfo with
  | nil => rfl
  | cons arec arecs ih =>
    rw [copyCols, conversions]
    split_ifs
    · exact ih s (i + 1) withInfo
    · cases s.ird[i]? with
      | none => rfl
      | some irec =>
        have hl := copyCell_leaves cv s arec irec.col i pos irec.iVal.cell
        dsimp only
        generalize copyCell cv s arec irec.col i pos irec.iVal.cell = r at hl ⊢
        obtain ⟨r, t⟩ := r
        cases r with
        | success =>
          have hd : t.diag = s.diag := hl.success rfl
          rw [← hd]
          exact ih t (i + 1) withInfo
        | successWithInfo =>
          refine (ih t (i + 1) true).trans ?_
          rw [List.filter_cons_of_pos rfl, List.getLast?_cons, Option.map_some, Option.getD_some,
            SqlReturn.succeeded, if_pos rfl]
          cases ((conversions cv pos t (i + 1) arecs).filter Conversion.complains).getLast? <;> rfl
        | noData => rfl
        | error => rfl

/-- The conversions of the row that the JSON iterator is at are made from this statement, if the
row has as many elements as there are columns. -/
def unpackedJson (s : Stmt σ) : Option (Stmt σ) :=
  if !s.rset.json.rowArray.isArray || s.rset.json.rowArray.beginArray.isEmpty then none
  else
    let (recs, e) := unpackRowJson s.ird s.rset.json.rowArray.beginArray 0
    match e with
    | .inl [] => some { s with ird := recs }
    | _ => none

@[inherit_doc unpackedJson]
def unpackedCbor (s : Stmt σ) : Option (Stmt σ) :=
  match s.rset.cbor.rowsIter with
  | .array _ elems :: rows =>
    let (recs, e) := unpackRowCbor s.ird elems
    match e with
    | .through [] => some ({ s with ird := recs }.setRowsIter rows)
    | _ => none
  | _ => none

@[inherit_doc unpackedJson]
def unpacked (s : Stmt σ) (packJson : Bool) : Option (Stmt σ) :=
  if packJson then s.unpackedJson else s.unpackedCbor

/-- A row that is unpacked is copied. -/
theorem unpackOneRow_unpacked (cv : Converters σ) {s t : Stmt σ} {packJson : Bool}
    (h : s.unpacked packJson = some t) (pos : ℕ) :
    s.unpackOneRow cv packJson pos = t.copyIfBound cv pos ∧ SamePlace s t ∧ t.diag = s.diag ∧
      t.ard = s.ard := by
  cases packJson with
  | true =>
    change s.unpackedJson = some t at h
    change s.unpackOneRowJson cv pos = _ ∧ _
    rw [unpackedJson] at h
    rw [unpackOneRowJson]
    split_ifs at h ⊢ with hrow
    generalize unpackRowJson s.ird s.rset.json.rowArray.beginArray 0 = u at h ⊢
    obtain ⟨recs, e⟩ := u
    rcases e with (_ | ⟨v, vs⟩) | n
    · cases h
      exact ⟨rfl, ⟨rfl, rfl⟩, rfl, rfl⟩
    · cases h
    · cases h
  | false =>
    change s.unpackedCbor = some t at h
    change s.unpackOneRowCbor cv pos = _ ∧ _
    have harray : ∃ indef elems rows, s.rset.cbor.rowsIter = .array indef elems :: rows := by
      unfold unpackedCbor at h
      split at h
      · rename_i indef elems rows hit
        exact ⟨indef, elems, rows, hit⟩
      · cases h
    obtain ⟨indef, elems, rows, hit⟩ := harray
    unfold unpackedCbor at h
    unfold unpackOneRowCbor
    rw [hit] at h ⊢
    dsimp only at h ⊢
    generalize unpackRowCbor s.ird elems = u at h ⊢
    obtain ⟨recs, e⟩ := u
    rcases e with (_ | ⟨x, xs⟩) | it
    · cases h
      exact ⟨rfl, ⟨rfl, rfl⟩, rfl, rfl⟩
    · cases h
    · cases h

theorem copyIfBound_diag (cv : Converters σ) (s : Stmt σ) (pos : ℕ) :
    (s.copyIfBound cv pos).2.diag =
      (((s.rowConversions cv pos).filter Conversion.complains).getLast?.map
        fun c ↦ c.left.diag).getD s.diag := by
  rw [copyIfBound, rowConversions]
  cases hrecs : s.ard.recs with
  | nil =>
    rw [List.drop_nil]
    rfl
  | cons arec arecs =>
    rw [← hrecs, if_pos (by rw [hrecs]; exact Nat.succ_pos _), copyOneRow]
    exact copyCols_diag cv pos _ s _ false

end Stmt

namespace FetchLoop

/-- The statement that a turn copies from, if its row is one. -/
def unpacked (l : FetchLoop σ) : Option (Stmt σ) :=
  if l.i < l.stmt.ard.arraySize then
    match l.stmt.pollRow l.packJson with
    | .done (false, s) => s.unpacked l.packJson
    | _ => none
  else none

/-- The conversions of a turn. -/
def conversions (cv : Converters σ) (l : FetchLoop σ) : List (Conversion σ) :=
  l.unpacked.elim [] fun t ↦ t.rowConversions cv l.i

theorem unpacked_eq_some {l : FetchLoop σ} {t : Stmt σ} (h : l.unpacked = some t) :
    ∃ s, l.i < l.stmt.ard.arraySize ∧ l.stmt.pollRow l.packJson = .done (false, s) ∧
      s.unpacked l.packJson = some t := by
  rw [unpacked] at h
  split_ifs at h with hi
  split at h
  · rename_i s hpoll
    exact ⟨s, hi, hpoll, h⟩
  · cases h

end FetchLoop

theorem pollRow_place {s t : Stmt σ} {packJson empty : Bool}
    (h : s.pollRow packJson = .done (empty, t)) : Stmt.SamePlace s t ∧ t.diag = s.diag := by
  unfold Stmt.pollRow at h
  split_ifs at h
  · split at h <;> cases h <;> exact ⟨⟨rfl, rfl⟩, rfl⟩
  · cases h
    exact ⟨⟨rfl, rfl⟩, rfl⟩

/-- The diagnostic that a turn leaves is that of the last complaint of its row. -/
theorem fetchTurn_diag (cv : Converters σ) {l : FetchLoop σ} {t : Stmt σ}
    (h : l.unpacked = some t) :
    ∃ l', fetchTurn cv l = .next l' ∧ Stmt.SamePlace l.stmt t ∧
      l'.stmt.diag = (((l.conversions cv).filter Conversion.complains).getLast?.map
        fun c ↦ c.left.diag).getD l.stmt.diag := by
  obtain ⟨s, hi, hpoll, hs⟩ := FetchLoop.unpacked_eq_some h
  obtain ⟨hplace, hdiag⟩ := pollRow_place hpoll
  obtain ⟨hrun, hplace', hdiag', -⟩ := Stmt.unpackOneRow_unpacked cv hs l.i
  rw [fetchTurn, if_pos hi, hpoll]
  refine ⟨_, rfl, hplace.trans hplace', ?_⟩
  change (s.unpackOneRow cv l.packJson l.i).2.diag = _
  rw [hrun, Stmt.copyIfBound_diag, FetchLoop.conversions, h, hdiag', hdiag]
  rfl

namespace Session

/-! ## Getting data -/

/-- The statement that a call of `EsSQLGetData` copies from, if it gets there. -/
def gdStart (s : Session σ) (a : GetArgs) : Option (Stmt σ) :=
  let prepared := s.gdPrepare a
  if prepared.1.isSome then none
  else match prepared.2.gdBind a.bind with
    | .done (r, t, d) =>
      let u : Stmt σ := { { prepared.2 with stmt := t }.view with ard := d.view }
      let i := a.bind.columnNumber.toNat - 1
      if r.succeeded then
        match checkColumns (u.ard.recs.drop i) (u.cols.drop i) with
        | .done .violation | .done .unsupported | .undefined | .exhausted => none
        | .done _ => some u
      else none
    | _ => none

theorem gdPrepare_none {s : Session σ} {a : GetArgs} (h : (s.gdPrepare a).1 = none) :
    (s.gdPrepare a).2.stmt.gdCol = a.bind.columnNumber.toNat ∧
      (s.gdPrepare a).2.stmt.tvRows = s.stmt.tvRows := by
  constructor
  · unfold gdPrepare at h ⊢
    dsimp only at h ⊢
    by_cases hsame : s.stmt.gdCol = a.bind.columnNumber.toNat ∧
        s.stmt.gdCtype = a.bind.targetType.toInt
    · rw [if_pos hsame]
      exact hsame.1
    · rw [if_neg hsame] at h ⊢
      generalize (if s.stmt.gdCalling then { s with stmt := s.stmt.gdReset } else s) = s₁ at h ⊢
      cases hc : (s₁.gdChecks a.bind.columnNumber).1.succeeded with
      | false =>
        rw [hc, Bool.not_false, if_pos rfl] at h
        cases h
      | true =>
        rw [Bool.not_true, if_neg Bool.false_ne_true]
  · have htv := congrArg Stmt.tvRows (s.gdPrepare_prepared a).got.view
    exact htv

theorem gdBind_succeeded {s : Session σ} {a : BindArgs} {r : SqlReturn} {t : Stmt σ} {d : Desc}
    (h : s.gdBind a = .done (r, t, d)) (hr : r.succeeded = true) :
    t = { s.stmt with sql2cConversion := .unchecked } := by
  by_cases hacc : a.Accepted s.dbc (gdArd a.columnNumber)
  · rw [gdBind_accepted hacc] at h
    split_ifs at h
    cases h
    rfl
  · have hcol : 0 < a.col := by
      refine a.col_pos fun hc ↦ ?_
      rw [gdBind, getdataSetArd, if_pos hc] at h
      cases h
    obtain ⟨diag, d', hd⟩ := gdBind_refused hcol hacc
    rw [hd] at h
    cases h
    cases hr

/-- A call that gets to its copying. -/
theorem getData_copies (cv : Converters σ) {s : Session σ} {a : GetArgs} {u : Stmt σ}
    (h : s.gdStart a = some u) :
    u.gdCalling = true ∧ u.tvRows = s.stmt.tvRows ∧
      ∃ s', s.getData cv a = .done ((u.copyOneRow cv 0).1, s') ∧
        s'.stmt.diag = (((u.rowConversions cv 0).filter Conversion.complains).getLast?.map
          fun c ↦ c.left.diag).getD u.diag := by
  rw [gdStart] at h
  dsimp only at h
  split_ifs at h with hsome
  have hnone : (s.gdPrepare a).1 = none := by
    rw [Bool.not_eq_true, Option.isSome_eq_false_iff, Option.isNone_iff_eq_none] at hsome
    exact hsome
  obtain ⟨hcol, htv⟩ := gdPrepare_none hnone
  split at h
  · rename_i r t d hbind
    split_ifs at h with hr
    have ht := gdBind_succeeded hbind hr
    have hcopy (v : Sql2cConversion) (hv : v ≠ .violation ∧ v ≠ .unsupported)
        (hcheck : checkColumns (d.view.recs.drop (a.bind.columnNumber.toNat - 1))
          (t.cols.drop (a.bind.columnNumber.toNat - 1)) = .done v)
        (hu : u = { { (s.gdPrepare a).2 with stmt := t }.view with ard := d.view }) :
        u.gdCalling = true ∧ u.tvRows = s.stmt.tvRows ∧
          ∃ s', s.getData cv a = .done ((u.copyOneRow cv 0).1, s') ∧
            s'.stmt.diag = (((u.rowConversions cv 0).filter Conversion.complains).getLast?.map
              fun c ↦ c.left.diag).getD u.diag := by
      have hgd : u.gdCol = a.bind.columnNumber.toNat := by
        rw [hu, ← hcol, ht]
        rfl
      refine ⟨?_, ?_, ?_⟩
      · rw [Stmt.gdCalling, hgd]
        exact decide_eq_true (Int.natCast_nonneg _)
      · rw [hu, ← htv, ht]
        rfl
      · have hcall : gdCopy cv u a.bind.columnNumber = .done (u.copyOneRow cv 0) := by
          rw [gdCopy, hu]
          dsimp only
          change (checkColumns (d.view.recs.drop (a.bind.columnNumber.toNat - 1))
            (t.cols.drop (a.bind.columnNumber.toNat - 1))).bind _ = _
          rw [hcheck, Exec.bind_done]
          cases v with
          | violation => exact absurd rfl hv.1
          | unsupported => exact absurd rfl hv.2
          | unchecked | supported | skipped => rfl
        rw [getData_eq, hnone]
        dsimp only
        rw [getColumn, hbind, Exec.bind_done]
        dsimp only
        rw [if_pos hr, ← hu, hcall, Exec.bind_done]
        refine ⟨_, rfl, ?_⟩
        have hdiag := Stmt.copyCols_diag cv 0
          (u.ard.recs.drop (if u.gdCalling then (u.gdCol - 1).toNat else 0)) u
          (if u.gdCalling then (u.gdCol - 1).toNat else 0) false
        change (if (u.copyOneRow cv 0).1.succeeded = true then (u.copyOneRow cv 0).2
          else (u.copyOneRow cv 0).2.gdReset).diag = _
        split_ifs
        · exact hdiag
        · exact hdiag
    split at h
    · cases h
    · cases h
    · cases h
    · cases h
    · rename_i v hviol hunsup hcheck
      injection h with h
      exact hcopy v ⟨hviol, hunsup⟩ hcheck h.symm
  · cases h

end Session

/-! ## Counting the rows -/

theorem esSQLExecute_tvRows {s s' : Stmt σ} {r : SqlReturn} (hs : s.Ready)
    (h : s.esSQLExecute = .done (r, s')) : s'.tvRows = s.tvRows := by
  rcases esSQLExecute_cases h with ⟨-, -, rfl⟩ | ⟨-, d, rs, -, rfl⟩ | ⟨a, rest, -, hat⟩
  · rfl
  · rfl
  · have hs₀ : ({ s with earlyExecuted := false, replies := rest } : Stmt σ).Ready :=
      ⟨hs.resultset, hs.gd⟩
    exact ((attachAnswer_frame_of_ready hs₀ a).2 r s' hat).tvRows

/-- The loop counts the rows it processes. -/
structure Counting (base : ℕ) (l : FetchLoop σ) : Prop where
  ready : l.stmt.Ready
  tvRows : l.stmt.tvRows = base + l.i

theorem next_counting {cv : Converters σ} {base : ℕ} {l o l' : FetchLoop σ}
    (hl : Counting base l) (h : Next cv l o l') : Counting base l' ∧ Counting base o := by
  refine ⟨⟨h.ready hl.ready, ?_⟩, h.1 ▸ hl⟩
  have ht := fetchTurn_turned cv hl.ready.gd
  rw [h.2] at ht
  cases ht with
  | row =>
    change l.stmt.tvRows + 1 = base + (l.i + 1)
    rw [hl.tvRows, Nat.add_assoc]
  | page _ _ _ hexec _ _ => exact (esSQLExecute_tvRows hl.ready hexec).trans hl.tvRows

theorem ends_tvRows {cv : Converters σ} {l : FetchLoop σ} (hl : l.stmt.Ready) {r : SqlReturn}
    {s : Stmt σ} (h : Ends cv l r s) : s.tvRows = l.stmt.tvRows := by
  have ht := fetchTurn_turned cv hl.gd
  rcases h with ⟨l', h, hend⟩ | h
  · rw [(fetchEnd_eq hend).1]
    rw [h] at ht
    cases ht with
    | full => rfl
    | last => rfl
    | emptyPage _ _ _ hexec _ _ =>
      have htv := esSQLExecute_tvRows hl hexec
      exact htv
  · rw [h] at ht
    cases ht with
    | requestFailed _ _ _ hexec _ => exact esSQLExecute_tvRows hl hexec

theorem fetchChecks_tvRows {s t : Stmt σ} {c : Option SqlReturn}
    (h : fetchChecks s = .done (c, t)) : t.tvRows = s.tvRows := by
  cases c with
  | none =>
    rw [(fetchChecks_none h).2]
  | some r =>
    cases hb : s.hasResultset with
    | true => rw [(fetchChecks_some hb h).2]
    | false =>
      rw [fetchChecks, hb, Bool.not_false, if_pos rfl, Exec.done.injEq] at h
      split_ifs at h <;> cases h <;> rfl

/-- A fetch counts the rows it processes. -/
theorem fetch_counting {cv : Converters σ} {s s' : Stmt σ} {r : SqlReturn}
    (h : esSQLFetch cv s = .done (r, s')) :
    s'.tvRows = s.tvRows + ((s.fetchTurns cv).flatMap fun l ↦ l.row.toList).length ∧
      ∀ l ∈ s.fetchTurns cv, Counting s.tvRows l := by
  rcases esSQLFetch_cases h with ⟨hc, hturns⟩ | ⟨t, ls, l, hc, hturns, hrun, hend⟩
  · rw [hturns]
    exact ⟨fetchChecks_tvRows hc, fun _ hl ↦ absurd hl List.not_mem_nil⟩
  · have hstart : Counting s.tvRows t.fetchStart :=
      ⟨(fetchChecks_none hc).1, fetchChecks_tvRows hc⟩
    have hstep (l o l' : FetchLoop σ) (hl : Counting s.tvRows l) (h : Next cv l o l') :=
      next_counting hl h
    have hlast : Counting s.tvRows l :=
      hrun.invariant (fun l o l' hl h ↦ (hstep l o l' hl h).1) hstart
    have hrow : l.row = none := (ends_cases hlast.ready hend).1
    have hcount : l.i = 0 + (ls.flatMap fun o ↦ o.row.toList).length :=
      (run_count hstart.ready hrun).2
    rw [hturns]
    constructor
    · rw [ends_tvRows hlast.ready hend, hlast.tvRows, List.flatMap_append, List.length_append,
        hcount, Nat.zero_add, List.flatMap_singleton, hrow]
      rfl
    · intro o ho
      rcases List.mem_append.mp ho with ho | ho
      · exact hrun.forall_output hstep hstart o ho
      · exact List.mem_singleton.mp ho ▸ hlast

/-! ## Reading a result set -/

/-- A conversion that warns or fails, with the call that makes it and the number of its row. -/
structure Complaint (σ : Type) where
  getData : Bool
  row : ℕ
  conversion : Conversion σ

namespace Complaint

/-- The diagnostic carries the number of the row and that of the column. -/
def Placed (c : Complaint σ) : Prop :=
  c.conversion.left.diag.rowNumber = c.row ∧
    c.conversion.left.diag.columnNumber = c.conversion.column + 1

/-- `EsSQLFetch` makes the conversion, in the first row or without a converter. -/
def Placeable (c : Complaint σ) : Prop :=
  c.getData = false ∧ (c.row = 1 ∨ c.conversion.byConverter = false)

/-- What the diagnostic says. -/
structure Counted (c : Complaint σ) : Prop where
  row_pos : 0 < c.row
  row : c.conversion.left.diag.rowNumber =
    if c.conversion.byConverter then (if c.getData = false ∧ c.row = 1 then 1 else 0)
    else if c.getData then (c.row : ℤ) + 1 else c.row
  column : c.conversion.left.diag.columnNumber = c.conversion.column + 1

theorem Counted.placed_iff {c : Complaint σ} (h : c.Counted) : c.Placed ↔ c.Placeable := by
  have hpos : (0 : ℤ) ≠ c.row := by
    have := h.row_pos
    omega
  have hiff : c.Placed ↔ c.conversion.left.diag.rowNumber = c.row :=
    ⟨fun hp ↦ hp.1, fun hr ↦ ⟨hr, h.column⟩⟩
  rw [hiff, h.row, Placeable]
  cases hconv : c.conversion.byConverter with
  | true =>
    rw [if_pos rfl]
    by_cases hfirst : c.getData = false ∧ c.row = 1
    · rw [if_pos hfirst, hfirst.2]
      exact ⟨fun _ ↦ ⟨hfirst.1, .inl rfl⟩, fun _ ↦ rfl⟩
    · rw [if_neg hfirst]
      refine ⟨fun h0 ↦ absurd h0 hpos, fun hp ↦ absurd ⟨hp.1, ?_⟩ hfirst⟩
      exact hp.2.resolve_right Bool.true_eq_false.mp
  | false =>
    rw [if_neg Bool.false_ne_true]
    cases hgd : c.getData with
    | true =>
      rw [if_pos rfl]
      refine ⟨fun hr ↦ ?_, fun hp ↦ Bool.noConfusion hp.1⟩
      omega
    | false =>
      rw [if_neg Bool.false_ne_true]
      exact ⟨fun _ ↦ ⟨rfl, .inr rfl⟩, fun _ ↦ rfl⟩

end Complaint

/-- An application that reads a result set, with the count of the rows that were fetched. -/
structure Reader (σ : Type) where
  session : Session σ
  fetched : ℕ

/-- A call, with its code and the conversions that warned or failed in it. -/
structure Reading (σ : Type) where
  call : Session.Call
  ret : SqlReturn
  complaints : List (Complaint σ)

/-- The calls that an application makes while it reads a result set. -/
def Session.Call.reads : Session.Call → Bool
  | .bindCol _ | .setDescField _ _ _ _ _ | .setHeaderAttr _ _ _ | .setAppRowDesc _ | .fetch
  | .getData _ => true
  | .prepare _ _ | .execDirect _ _ | .execute _ | .close _ => false

def Session.Call.isGetData : Session.Call → Bool
  | .getData _ => true
  | _ => false

namespace Reader

/-- The rows that a call processes. -/
def rows (cv : Converters σ) (x : Reader σ) : Session.Call → ℕ
  | .fetch => ((x.session.view.fetchTurns cv).flatMap fun l ↦ l.row.toList).length
  | _ => 0

/-- The conversions that warn or fail in a call. -/
def complaints (cv : Converters σ) (x : Reader σ) : Session.Call → List (Complaint σ)
  | .fetch => (x.session.view.fetchTurns cv).flatMap fun l ↦
    ((l.conversions cv).filter Conversion.complains).map (Complaint.mk false (x.fetched + l.i + 1))
  | .getData a => (x.session.gdStart a).elim [] fun t ↦
    ((t.rowConversions cv 0).filter Conversion.complains).map (Complaint.mk true x.fetched)
  | _ => []

/-- A call takes the application from one state to the next.  Data is got from a row that was
fetched, which the driver manager sees to. -/
structure Reads (cv : Converters σ) (x : Reader σ) (o : Reading σ) (x' : Reader σ) : Prop where
  call : x.session.call cv o.call = .done (o.ret, x'.session)
  reads : o.call.reads = true
  current : o.call.isGetData = true → 0 < x.fetched
  fetched : x'.fetched = x.fetched + x.rows cv o.call
  complaints : o.complaints = x.complaints cv o.call

theorem conversion_counted {cv : Converters σ} {t : Stmt σ} {pos row : ℕ} {getData : Bool}
    (hrow : 0 < row) (htv : t.tvRows + (if getData then 0 else 1) = row)
    (hgd : t.gdCalling = getData) {c : Conversion σ} (hc : c ∈ t.rowConversions cv pos)
    (h : c.complains = true) : (Complaint.mk getData row c).Counted := by
  obtain ⟨hnumber, hcolumn⟩ := Stmt.conversions_left hc h
  refine ⟨hrow, ?_, hcolumn⟩
  rw [hnumber, Stmt.numberFor, Stmt.rowno, hgd]
  cases c.byConverter with
  | true =>
    rw [if_pos rfl, if_pos rfl]
    cases getData with
    | true => rw [if_pos rfl, if_pos (Nat.succ_ne_zero _), if_neg fun hc ↦ Bool.noConfusion hc.1]
    | false =>
      rw [if_neg Bool.false_ne_true] at htv ⊢
      by_cases hfirst : row = 1
      · rw [if_neg (not_not.mpr (by omega)), if_pos ⟨rfl, hfirst⟩]
      · rw [if_pos (by omega), if_neg fun hc ↦ hfirst hc.2]
  | false =>
    rw [if_neg Bool.false_ne_true, if_neg Bool.false_ne_true]
    cases getData with
    | true =>
      rw [if_pos rfl, Nat.add_zero] at htv
      rw [if_pos rfl, htv]
    | false =>
      rw [if_neg Bool.false_ne_true] at htv ⊢
      exact_mod_cast htv

/-- The statement has counted the rows that the reader has. -/
def Agrees (x : Reader σ) : Prop := x.session.stmt.tvRows = x.fetched

theorem idle_tvRows {cv : Converters σ} {s s' : Session σ} {c : Session.Call} {r : SqlReturn}
    (h : s.call cv c = .done (r, s')) (hreads : c.reads = true) (hfetch : c ≠ .fetch) :
    s'.stmt.tvRows = s.stmt.tvRows := by
  cases c with
  | bindCol a =>
    obtain ⟨⟨ret, t, d⟩, hbind, hs'⟩ := Exec.bind_eq_done.mp h
    cases hs'
    rw [Session.esSQLBindCol_stmt hbind]
  | setDescField hd n field value len => rw [Session.setDescField_stmt h]
  | setHeaderAttr attr value len =>
    obtain ⟨⟨ret, t⟩, hset, hs'⟩ := Exec.bind_eq_done.mp h
    have hstmt := Session.setDescField_stmt hset
    dsimp only at hs'
    split_ifs at hs' <;> cases hs' <;> rw [hstmt]
  | setAppRowDesc d =>
    have h : Exec.done (s.setAppRowDesc d) = .done (r, s') := h
    have hs' : s' = (s.setAppRowDesc d).2 := by
      rw [Exec.done.injEq] at h
      rw [h]
    rw [hs']
    unfold Session.setAppRowDesc
    split
    · rfl
    · split_ifs
      · rfl
      · rfl
      · rfl
      · split <;> rfl
  | fetch => exact absurd rfl hfetch
  | getData a =>
    have htv := congrArg Stmt.tvRows (Session.getData_got h).1.view
    exact htv
  | prepare _ _ | execDirect _ _ | execute _ | close _ => cases hreads

theorem reads_counted {cv : Converters σ} {x x' : Reader σ} {o : Reading σ} (hx : x.Agrees)
    (h : Reads cv x o x') : x'.Agrees ∧ ∀ c ∈ o.complaints, c.Counted := by
  obtain ⟨call, ret, complaints⟩ := o
  obtain ⟨hcall, hreads, hcurrent, hfetched, hcomplaints⟩ := h
  dsimp only at hcall hreads hcurrent hfetched hcomplaints
  subst hcomplaints
  rw [Agrees, hfetched]
  cases call with
  | fetch =>
    obtain ⟨⟨r, t⟩, ht, hs'⟩ := Exec.bind_eq_done.mp hcall
    rw [Exec.done.injEq, Prod.mk.injEq] at hs'
    rw [← hs'.2]
    obtain ⟨htv, hturns⟩ := fetch_counting ht
    refine ⟨htv.trans (congrArg (· + _) hx), fun c hc ↦ ?_⟩
    obtain ⟨l, hl, hc⟩ := List.mem_flatMap.mp hc
    obtain ⟨v, hv, rfl⟩ := List.mem_map.mp hc
    obtain ⟨hv, hcomplains⟩ := List.mem_filter.mp hv
    have hcount := hturns l hl
    rw [FetchLoop.conversions] at hv
    cases hu : l.unpacked with
    | none =>
      rw [hu] at hv
      cases hv
    | some u =>
      rw [hu] at hv
      obtain ⟨-, -, hplace, -⟩ := fetchTurn_diag cv hu
      refine conversion_counted (Nat.succ_pos _) ?_ (hplace.gdCalling.trans hcount.ready.gd) hv
        hcomplains
      rw [hplace.tvRows, hcount.tvRows, ← hx]
      rfl
  | getData a =>
    refine ⟨(idle_tvRows hcall rfl nofun).trans hx, fun c hc ↦ ?_⟩
    dsimp only [Reader.complaints] at hc
    cases hu : x.session.gdStart a with
    | none =>
      rw [hu] at hc
      cases hc
    | some u =>
      rw [hu] at hc
      obtain ⟨v, hv, rfl⟩ := List.mem_map.mp hc
      obtain ⟨hv, hcomplains⟩ := List.mem_filter.mp hv
      obtain ⟨hgd, htv, -⟩ := Session.getData_copies cv hu
      refine conversion_counted (hcurrent rfl) ?_ hgd hv hcomplains
      rw [htv, ← hx]
      rfl
  | bindCol _ | setDescField _ _ _ _ _ | setHeaderAttr _ _ _ | setAppRowDesc _ =>
    exact ⟨(idle_tvRows hcall rfl nofun).trans hx, fun _ hc ↦ absurd hc List.not_mem_nil⟩
  | prepare _ _ | execDirect _ _ | execute _ | close _ => cases hreads

end Reader

/-- A result set as an application reads it, from its first row on. -/
structure ResultRead (cv : Converters σ) where
  start : Reader σ
  readings : List (Reading σ)
  finish : Reader σ
  fetched : start.fetched = 0
  tvRows : start.session.stmt.tvRows = 0
  run : Run (Reader.Reads cv) start readings finish

/-- The conversions that warn or fail. -/
def ResultRead.complaints {cv : Converters σ} (r : ResultRead cv) : List (Complaint σ) :=
  r.readings.flatMap Reading.complaints

/-- The diagnostics have the position right if `EsSQLGetData` gives rise to none, and the
converters to none behind the first row; and only then. -/
theorem positions_iff {cv : Converters σ} (r : ResultRead cv) :
    (∀ c ∈ r.complaints, c.Placed) ↔ ∀ c ∈ r.complaints, c.Placeable := by
  have hstart : r.start.Agrees := r.tvRows.trans r.fetched.symm
  have hcounted : ∀ c ∈ r.complaints, c.Counted := by
    intro c hc
    obtain ⟨o, ho, hc⟩ := List.mem_flatMap.mp hc
    exact r.run.forall_output (fun _ _ _ ↦ Reader.reads_counted) hstart o ho c hc
  exact forall₂_congr fun c hc ↦ (hcounted c hc).placed_iff

/-! ## A second row -/

/-- The readings of some calls. -/
def Reader.readAll (cv : Converters σ) :
    List Session.Call → Reader σ → Exec (List (Reading σ) × Reader σ)
  | [], x => .done ([], x)
  | c :: cs, x => (x.session.call cv c).bind fun (ret, s) ↦
    (readAll cv cs ⟨s, x.fetched + x.rows cv c⟩).bind fun (os, y) ↦
      .done (⟨c, ret, x.complaints cv c⟩ :: os, y)

theorem Reader.readAll_run {cv : Converters σ} {cs : List Session.Call} {x y : Reader σ}
    {os : List (Reading σ)} (hcs : ∀ c ∈ cs, c.reads = true ∧ c.isGetData = false)
    (h : readAll cv cs x = .done (os, y)) : Run (Reads cv) x os y := by
  induction cs generalizing x os with
  | nil =>
    cases h
    exact .nil _
  | cons c cs ih =>
    obtain ⟨⟨ret, s⟩, hcall, h⟩ := Exec.bind_eq_done.mp h
    obtain ⟨⟨os', y'⟩, hrest, h⟩ := Exec.bind_eq_done.mp h
    cases h
    obtain ⟨hreads, hget⟩ := hcs c List.mem_cons_self
    refine .cons ⟨hcall, hreads, fun hg ↦ ?_, rfl, rfl⟩
      (ih (fun d hd ↦ hcs d (List.mem_cons_of_mem _ hd)) hrest)
    dsimp only at hg
    rw [hget] at hg
    cases hg

/-- Converters that warn of every value. -/
def Converters.warn : Converters Unit where
  sql2cString _ _ _ _ _ _ := (.s01004, ())
  sql2cLonglong _ _ _ _ _ _ := (.s01004, ())
  sql2cQuadword _ _ _ _ _ _ := (.s01004, ())
  sql2cDouble _ _ _ _ _ _ := (.s01004, ())
  storeNull _ _ _ := ()

/-- Two rows with a warning each: the second diagnostic has zero for the number of its row. -/
theorem not_placed_second_row :
    ¬∀ r : ResultRead Converters.warn, ∀ c ∈ r.complaints, c.Placed := by
  let long : EsType := ⟨wstr "LONG", 4, 8, 1, 0, 4, 0, .exactNumeric, 24⟩
  let rows : Answer := jsonAnswer [[0x61]] [[.longLong 1], [.longLong 2]] []
  let s₀ : Session Unit := .init [long] long () [.answer rows]
    (fun _ ↦ .init .stmt .ard false) (fun _ ↦ []) fun _ ↦ 0
  let calls : List Session.Call := [.bindCol ⟨1, 4, 8, 0, 0⟩, .fetch, .fetch]
  have hrun : ((s₀.execDirect .init (.attached false none)).bind fun (_, s) ↦
      (Reader.readAll .warn calls ⟨s, 0⟩).bind fun (os, _) ↦
        .done (s.stmt.tvRows == 0 && (os.flatMap Reading.complaints).any fun (c : Complaint Unit) ↦
          c.row == 2 && c.conversion.left.diag.rowNumber == 0)) = .done true := by
    decide +kernel
  obtain ⟨⟨_, s⟩, -, hrun⟩ := Exec.bind_eq_done.mp hrun
  obtain ⟨⟨os, y⟩, hread, hrun⟩ := Exec.bind_eq_done.mp hrun
  simp only [Exec.done.injEq, Bool.and_eq_true, beq_iff_eq, List.any_eq_true] at hrun
  obtain ⟨htv, c, hc, hrow, hzero⟩ := hrun
  intro h
  have hcalls : ∀ c ∈ calls, c.reads = true ∧ c.isGetData = false := by
    simp [calls, Session.Call.reads, Session.Call.isGetData]
  have hplaced := h ⟨⟨s, 0⟩, os, y, rfl, htv, Reader.readAll_run hcalls hread⟩ c hc
  have hnumber := hplaced.1
  rw [hzero, hrow] at hnumber
  cases hnumber

end EsOdbc
