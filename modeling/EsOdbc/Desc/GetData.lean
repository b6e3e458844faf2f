import EsOdbc.Desc.BindCol
import EsOdbc.Fetch.Pages

/-!
# What getting data leaves alone

`EsSQLGetData` binds the column in an ARD of its own.  What it writes of the session is the
application's buffers, the status of the row, the diagnostic, and of the statement's own state
only the position of the call and the verdict on the column types; `getData_undisturbed` says
when this is harmless.
-/

namespace EsOdbc

variable {σ : Type}

namespace Session

/-! ## The ARD of the call -/

theorem length_gdArd (c : UInt16) :
    (gdArd c).recs.length = if c < esodbcGdDescCount then c.toNat else 0 := by
  unfold gdArd
  split_ifs
  · exact List.length_replicate
  · rfl

theorem recOf_gdArd (c : UInt16) : (gdArd c).recOf c.toNat = .init .ard := by
  unfold Desc.recOf gdArd
  dsimp only
  split_ifs
  · rw [List.getElem?_replicate]
    split_ifs <;> rfl
  · rfl

theorem length_gdArd_le (c : UInt16) : (gdArd c).recs.length ≤ c.toNat := by
  rw [length_gdArd]
  split_ifs
  · exact le_rfl
  · exact Nat.zero_le _

/-- The descriptor has one record more than it had at most: that of the column. -/
theorem length_written_gdArd (a : BindArgs) :
    ((gdArd a.columnNumber).written a).recs.length = a.col := by
  rw [Desc.length_written]
  exact max_eq_right (length_gdArd_le a.columnNumber)

theorem countBound_lt {d : Desc} {r : Rec} (hr : d.recs.getLast? = some r) (h : r.isBound = false) :
    d.countBound < d.recs.length := by
  obtain ⟨recs, hrecs⟩ := List.getLast?_eq_some_iff.mp hr
  have hle := (List.dropWhile_sublist (fun r : Rec ↦ !r.isBound) (l := recs.reverse)).length_le
  rw [Desc.countBound, hrecs, List.reverse_append, List.length_append]
  rw [List.reverse_singleton, List.singleton_append, List.dropWhile_cons_of_pos (by rw [h]; rfl)]
  rw [List.length_reverse] at hle
  exact Nat.lt_succ_of_le hle

/-- Unbinding the column takes its record off the end. -/
theorem length_bindTo_gdArd {a : BindArgs} (hcol : 0 < a.col) :
    ((gdArd a.columnNumber).bindTo a).recs.length = a.col ↔ ¬a.Unbinds := by
  have hlen := length_written_gdArd a
  rw [Desc.bindTo]
  split_ifs with h
  · refine ⟨fun hc ↦ absurd hc (Nat.ne_of_lt ?_), fun hc ↦ absurd h.1 hc⟩
    have hlast : ((gdArd a.columnNumber).written a).recs.getLast? =
        some (a.bound ((gdArd a.columnNumber).recOf a.col)) := by
      rw [List.getLast?_eq_getElem?, hlen]
      exact Desc.getElem?_setRec (Desc.getElem?_grown hcol) _
    have hlt := countBound_lt hlast (by rw [a.isBound_bound, decide_eq_true h.1]; rfl)
    rw [Desc.trimmed, List.length_take]
    omega
  · exact ⟨fun _ hu ↦ h ⟨hu, hlen.symm⟩, fun _ ↦ hlen⟩

/-- A C type is neither that of the ARD nor that of the APD. -/
theorem typable_ne {a : BindArgs} (h : a.Typable) :
    a.targetType.toInt ≠ sqlArdType ∧ a.targetType.toInt ≠ sqlApdType :=
  ⟨fun hc ↦ h (by rw [hc]; rfl), fun hc ↦ h (by rw [hc]; rfl)⟩

/-! ## Binding -/

/-- The binding of a call, when nothing refuses it. -/
theorem gdBind_accepted {s : Session σ} {a : BindArgs}
    (h : a.Accepted s.dbc (gdArd a.columnNumber)) :
    s.gdBind a = if a.Unbinds ∧ a.columnNumber < esodbcGdDescCount then .undefined
      else .done (.success, { s.stmt with sql2cConversion := .unchecked },
        (gdArd a.columnNumber).bindTo a) := by
  obtain ⟨hard, hapd⟩ := typable_ne h.typable
  rw [gdBind, getdataSetArd, if_neg (a.columnNumber_ne_zero h.column), Exec.bind_done, gdBindCol,
    if_neg hard, if_neg hapd, esSQLBindCol_accepted s.stmt rfl h, Exec.bind_done]
  by_cases hc : a.columnNumber < esodbcGdDescCount
  · have hlen := length_bindTo_gdArd h.column
    have hstack : (gdArd a.columnNumber).recs.length = a.col := by
      rw [length_gdArd, if_pos hc]
      rfl
    by_cases hu : a.Unbinds
    · rw [if_pos ⟨hc, by rw [hstack]; exact fun h' ↦ hlen.mp h' hu⟩, if_pos ⟨hu, hc⟩]
    · rw [if_neg fun h' ↦ h'.2 (by rw [hstack]; exact hlen.mpr hu), if_neg fun h' ↦ hu h'.1]
  · rw [if_neg fun h' ↦ hc h'.1, if_neg fun h' ↦ hc h'.2]

/-- The binding of a call that is refused. -/
theorem gdBind_refused {s : Session σ} {a : BindArgs} (hcol : 0 < a.col)
    (h : ¬a.Accepted s.dbc (gdArd a.columnNumber)) :
    ∃ diag d, s.gdBind a = .done (.error, { s.stmt with diag }, d) := by
  rw [gdBind, getdataSetArd, if_neg (a.columnNumber_ne_zero hcol), Exec.bind_done, gdBindCol]
  split
  · split <;> exact ⟨_, _, rfl⟩
  split
  · exact ⟨_, _, rfl⟩
  obtain ⟨⟨r, t, d⟩, hcall⟩ := exists_esSQLBindCol s.dbc s.stmt (d := gdArd a.columnNumber) a rfl rfl
  obtain ⟨rfl, ht, hrecs⟩ := esSQLBindCol_refused rfl h hcall
  rw [hcall, Exec.bind_done]
  have hlen : ¬(a.columnNumber < esodbcGdDescCount ∧
      d.recs.length ≠ (gdArd a.columnNumber).recs.length) := by
    rintro ⟨hc, hne⟩
    refine hne ?_
    rw [hrecs]
    split
    · rw [Desc.refused, Desc.setRec, List.length_set, Desc.length_grown, length_gdArd, if_pos hc]
      exact max_self _
    · rfl
  rw [if_neg hlen, ht]
  exact ⟨_, _, rfl⟩

/-! ## The call -/

/-- The statement with what a call may write of it. -/
def wrote (t : Stmt σ) (u : Stmt σ) : Stmt σ :=
  { t with
    diag := u.diag
    app := u.app
    ard := u.ard
    arrayStatus := u.arrayStatus
    gdCol := u.gdCol
    gdCtype := u.gdCtype
    sql2cConversion := u.sql2cConversion }

/-- What a call may write of a session: the application's side with the status of the row, the
diagnostic, the position of the call and the verdict on the columns. -/
structure Got (s s' : Session σ) : Prop where
  session : s' = { s with stmt := s'.stmt, statusAt := s'.statusAt }
  view : s'.view = wrote s.view s'.view

theorem Got.refl (s : Session σ) : Got s s := ⟨rfl, rfl⟩

theorem Got.trans {s s' s'' : Session σ} (h : Got s s') (h' : Got s' s'') : Got s s'' := by
  constructor
  · rw [h'.session, h.session]
  · rw [h'.view, h.view]
    rfl

theorem rowsProcessed_view (s : Session σ) : s.view.rowsProcessed =
    if s.ird.rowsProcessedPtr = 0 then none else some (s.rowsAt s.ird.rowsProcessedPtr) := rfl

/-- A call on the statement that writes no more than it may. -/
theorem Got.ofView {s : Session σ} {t : Stmt σ} (h : t = wrote s.view t) : Got s (s.ofView t) := by
  have hrows : (s.ofView t).rowsAt = s.rowsAt := by
    have hproc : t.rowsProcessed = s.view.rowsProcessed := by rw [h]; rfl
    rw [rowsProcessed_view] at hproc
    split_ifs at hproc
    · simp only [Session.ofView, hproc]
    · simp only [Session.ofView, hproc]
      exact Function.update_eq_self _ _
  refine ⟨?_, ?_⟩
  · rw [← hrows]
    rfl
  · have hproc : (s.ofView t).view.rowsProcessed = s.view.rowsProcessed := by
      rw [rowsProcessed_view, rowsProcessed_view, hrows]
      rfl
    calc (s.ofView t).view
        = { t with
            ard := s.curArd.view
            arrayStatus := (s.ofView t).view.arrayStatus
            rowsProcessed := (s.ofView t).view.rowsProcessed } := rfl
      _ = { wrote s.view t with
            ard := s.curArd.view
            arrayStatus := (s.ofView t).view.arrayStatus
            rowsProcessed := s.view.rowsProcessed } := by rw [← h, hproc]
      _ = wrote s.view (s.ofView t).view := rfl

/-- A call that copies changes the status of the row, the diagnostic and the application's side. -/
theorem wrote_copyOneRow (cv : Converters σ) (t : Stmt σ) (pos : ℕ) :
    (t.copyOneRow cv pos).2 = wrote t (t.copyOneRow cv pos).2 ∧
      (t.copyOneRow cv pos).2.sql2cConversion = t.sql2cConversion := by
  unfold Stmt.copyOneRow
  obtain ⟨d, h⟩ := Stmt.copyCols_eq cv pos (t.ard.recs.drop (if t.gdCalling then (t.gdCol - 1).toNat else 0))
    t (if t.gdCalling then (t.gdCol - 1).toNat else 0) false
  rw [h]
  exact ⟨rfl, rfl⟩

theorem wrote_gdCopy {cv : Converters σ} {t t' : Stmt σ} {c : UInt16} {r : SqlReturn}
    (h : gdCopy cv t c = .done (r, t')) :
    t' = wrote t t' ∧ t'.sql2cConversion = t.sql2cConversion := by
  unfold gdCopy at h
  obtain ⟨v, -, h⟩ := Exec.bind_eq_done.mp h
  cases v with
  | violation => cases h; exact ⟨rfl, rfl⟩
  | unsupported => cases h; exact ⟨rfl, rfl⟩
  | unchecked | supported | skipped =>
    injection h with h
    have hcopy := wrote_copyOneRow cv t 0
    rwa [h] at hcopy

/-- The verdict is dropped by a binding that succeeds. -/
def verdictAfter (s : Session σ) (a : BindArgs) (v : Sql2cConversion) : Prop :=
  (a.Accepted s.dbc (gdArd a.columnNumber) → v = .unchecked) ∧
    (¬a.Accepted s.dbc (gdArd a.columnNumber) → v = s.stmt.sql2cConversion)

theorem getColumn_got {cv : Converters σ} {s s' : Session σ} {a : BindArgs} {r : SqlReturn}
    (h : getColumn cv s a = .done (r, s')) :
    Got s s' ∧ s.verdictAfter a s'.stmt.sql2cConversion := by
  unfold getColumn at h
  obtain ⟨⟨ret, t, d⟩, hbind, h⟩ := Exec.bind_eq_done.mp h
  obtain ⟨⟨ret', t'⟩, hcall, h⟩ := Exec.bind_eq_done.mp h
  cases h
  by_cases hacc : a.Accepted s.dbc (gdArd a.columnNumber)
  · rw [gdBind_accepted hacc] at hbind
    split_ifs at hbind
    cases hbind
    let s₁ : Session σ := { s with stmt := { s.stmt with sql2cConversion := .unchecked } }
    have h₁ : Got s s₁ := ⟨rfl, rfl⟩
    obtain ⟨ht', hv⟩ := wrote_gdCopy hcall
    have hw : t' = wrote s₁.view t' := ht'
    split_ifs
    · exact ⟨h₁.trans (.ofView hw), fun _ ↦ hv, fun hn ↦ absurd hacc hn⟩
    · refine ⟨h₁.trans (.ofView ?_), fun _ ↦ hv, fun hn ↦ absurd hacc hn⟩
      rw [hw]
      rfl
  · have hcol : 0 < a.col := by
      refine a.col_pos fun hc ↦ ?_
      rw [gdBind, getdataSetArd, if_pos hc] at hbind
      cases hbind
    obtain ⟨diag, d', hd⟩ := gdBind_refused hcol hacc
    rw [hd] at hbind
    cases hbind
    cases hcall
    have h₁ : Got s { s with stmt := { s.stmt with diag } } := ⟨rfl, rfl⟩
    exact ⟨h₁.trans (.ofView rfl), fun hy ↦ absurd hy hacc, fun _ ↦ rfl⟩

/-- A step of a call in front of the binding. -/
structure Prepared (s s' : Session σ) : Prop where
  got : Got s s'
  verdict : s'.stmt.sql2cConversion = s.stmt.sql2cConversion
  dbc : s'.dbc = s.dbc
  cols : s'.stmt.cols = s.stmt.cols

theorem Prepared.trans {s s' s'' : Session σ} (h : Prepared s s') (h' : Prepared s' s'') :
    Prepared s s'' :=
  ⟨h.got.trans h'.got, h'.verdict.trans h.verdict, h'.dbc.trans h.dbc, h'.cols.trans h.cols⟩

/-- The checks of a call. -/
theorem gdPrepare_prepared (s : Session σ) (a : GetArgs) : Prepared s (s.gdPrepare a).2 := by
  have hchecks (t : Session σ) (c : UInt16) : Prepared t (t.gdChecks c).2 := by
    unfold gdChecks
    split_ifs <;> exact ⟨⟨rfl, rfl⟩, rfl, rfl, rfl⟩
  have hreset : Prepared s (if s.stmt.gdCalling then { s with stmt := s.stmt.gdReset } else s) := by
    split_ifs <;> exact ⟨⟨rfl, rfl⟩, rfl, rfl, rfl⟩
  unfold gdPrepare
  dsimp only
  by_cases hsame : s.stmt.gdCol = a.bind.columnNumber.toNat ∧ s.stmt.gdCtype = a.bind.targetType.toInt
  · rw [if_pos hsame]
    exact ⟨.refl s, rfl, rfl, rfl⟩
  rw [if_neg hsame]
  generalize (if s.stmt.gdCalling then { s with stmt := s.stmt.gdReset } else s) = s₁ at hreset ⊢
  refine hreset.trans ?_
  split
  · exact hchecks s₁ a.bind.columnNumber
  · exact ⟨⟨rfl, rfl⟩, rfl, rfl, rfl⟩

theorem getData_eq (cv : Converters σ) (s : Session σ) (a : GetArgs) :
    getData cv s a = match (s.gdPrepare a).1 with
      | some r => .done (r, (s.gdPrepare a).2)
      | none => getColumn cv (s.gdPrepare a).2 a.bind := by
  rw [getData]
  rcases s.gdPrepare a with ⟨_ | r, t⟩ <;> rfl

/-- What a call of `EsSQLGetData` leaves: the verdict on the columns is dropped exactly when the
call gets to a binding and that succeeds. -/
theorem getData_got {cv : Converters σ} {s s' : Session σ} {a : GetArgs} {r : SqlReturn}
    (h : getData cv s a = .done (r, s')) :
    Got s s' ∧
      ((s.gdPrepare a).1 = none ∧ a.bind.Accepted s.dbc (gdArd a.bind.columnNumber) →
        s'.stmt.sql2cConversion = .unchecked) ∧
      (¬((s.gdPrepare a).1 = none ∧ a.bind.Accepted s.dbc (gdArd a.bind.columnNumber)) →
        s'.stmt.sql2cConversion = s.stmt.sql2cConversion) := by
  have hprep := s.gdPrepare_prepared a
  rw [getData_eq] at h
  cases hp : (s.gdPrepare a).1 with
  | some r' =>
    rw [hp] at h
    cases h
    exact ⟨hprep.got, fun hc ↦ absurd hc.1 nofun, fun _ ↦ hprep.verdict⟩
  | none =>
    rw [hp] at h
    obtain ⟨hgot, hacc, hrefused⟩ := getColumn_got h
    rw [hprep.dbc] at hacc hrefused
    exact ⟨hprep.got.trans hgot, fun hc ↦ hacc hc.2,
      fun hc ↦ (hrefused fun ha ↦ hc ⟨rfl, ha⟩).trans hprep.verdict⟩

/-! ## A later fetch -/

/-- A statement up to the text of the diagnostic and to what the checks of a fetch set. -/
def erase (t : Stmt σ) : Stmt σ :=
  { t with
    diag := { t.diag with text := none }
    gdCol := -1, gdCtype := 0, sql2cConversion := .unchecked }

/-- What the checks of a fetch come to: the code they end it with, and the statement. -/
def startOf (t : Stmt σ) : Exec (Option SqlReturn × Stmt σ) :=
  (fetchChecks t).bind fun (r, u) ↦ .done (r, erase u)

/-- What the application was given by a call is put back. -/
def restore (s s' : Session σ) : Session σ :=
  { s' with
    stmt := { s'.stmt with app := s.stmt.app, diag := s.stmt.diag }
    statusAt := s.statusAt }

theorem view_restore {s s' : Session σ} (h : Got s s') :
    (restore s s').view = { s.view with
      gdCol := s'.stmt.gdCol, gdCtype := s'.stmt.gdCtype
      sql2cConversion := s'.stmt.sql2cConversion } := by
  have hview : (restore s s').view = { s'.view with
      app := s.stmt.app, diag := s.stmt.diag, ard := s.view.ard
      arrayStatus := s.view.arrayStatus } := by
    unfold restore
    rw [h.session]
    rfl
  rw [hview, h.view]
  rfl

/-- What a verdict on the columns makes of a fetch. -/
def verdictStart (t : Stmt σ) : Sql2cConversion → Option SqlReturn × Stmt σ
  | .violation => (some .error, erase { t with diag := t.diag.post .s07006 none })
  | .unsupported => (some .error, erase { t with diag := t.diag.post .sHYC00 none })
  | _ => (none, erase t)

theorem startOf_cached {t : Stmt σ} (hb : t.hasResultset = true)
    (hv : t.sql2cConversion ≠ .unchecked) :
    startOf t = .done (verdictStart t t.sql2cConversion) := by
  unfold startOf fetchChecks
  rw [hb, Bool.not_true, if_neg Bool.false_ne_true]
  cases h : t.sql2cConversion with
  | unchecked => exact absurd h hv
  | violation => rfl
  | unsupported => rfl
  | supported => rfl
  | skipped => rfl

theorem startOf_unchecked {t : Stmt σ} (hb : t.hasResultset = true)
    (hv : t.sql2cConversion = .unchecked) :
    startOf t = (checkColumns t.ard.recs t.cols).bind fun v ↦ .done (verdictStart t v) := by
  unfold startOf fetchChecks convertabilityCheck
  rw [hb, Bool.not_true, if_neg Bool.false_ne_true, hv]
  cases checkColumns t.ard.recs t.cols with
  | undefined => rfl
  | exhausted => rfl
  | done v => cases v <;> rfl

theorem startOf_noResultset {t : Stmt σ} (hb : t.hasResultset = false) (gdCol gdCtype : Int)
    (v : Sql2cConversion) :
    startOf { t with gdCol, gdCtype, sql2cConversion := v } = startOf t := by
  have hb' : ({ t with gdCol, gdCtype, sql2cConversion := v } : Stmt σ).hasResultset = false := hb
  unfold startOf fetchChecks
  rw [hb, hb', Bool.not_false, if_pos rfl, if_pos rfl]
  change Exec.bind (.done (if t.nodataForced then _ else _)) _ = _
  split_ifs <;> rfl

theorem checkColumns_verdict {arecs : List ARec} {cols : List ColType} {v : Sql2cConversion}
    (h : checkColumns arecs cols = .done v) : v = .violation ∨ v = .unsupported ∨ v = .supported := by
  induction arecs generalizing cols with
  | nil =>
    simp only [checkColumns, Exec.done.injEq] at h
    exact .inr (.inr h.symm)
  | cons arec arecs ih =>
    cases cols with
    | nil =>
      simp only [checkColumns, Exec.done.injEq] at h
      exact .inr (.inr h.symm)
    | cons col cols =>
      rw [checkColumns] at h
      split at h
      · exact ih h
      · split at h
        · cases h
        · cases h; exact .inl rfl
        · split at h
          · exact ih h
          · cases h; exact .inr (.inl rfl)

/-- The verdict on the columns that the statement keeps, if it keeps one, is the one that a check
would give. -/
def Fresh (t : Stmt σ) : Prop :=
  t.sql2cConversion = .unchecked ∨ ∃ v, checkColumns t.ard.recs t.cols = .done v ∧
    (v = t.sql2cConversion ∨ v = .supported ∧ t.sql2cConversion = .skipped)

/-- Different verdicts show in a fetch. -/
theorem verdictStart_inj (t : Stmt σ) {v w : Sql2cConversion}
    (hv : v = .violation ∨ v = .unsupported ∨ v = .supported) (hw : w ≠ .unchecked) :
    verdictStart t v = verdictStart t w ↔ v = w ∨ v = .supported ∧ w = .skipped := by
  have hstate (h : verdictStart t v = verdictStart t w) :
      (verdictStart t v).2.diag.state = (verdictStart t w).2.diag.state :=
    congrArg (fun p ↦ p.2.diag.state) h
  rcases hv with rfl | rfl | rfl <;> cases w
  case inr.inl.violation =>
    exact ⟨fun h ↦ absurd (hstate h) nofun, by rintro (h | ⟨h, -⟩) <;> cases h⟩
  case inl.unsupported =>
    exact ⟨fun h ↦ absurd (hstate h) nofun, by rintro (h | ⟨h, -⟩) <;> cases h⟩
  all_goals first
    | exact absurd rfl hw
    | exact ⟨fun _ ↦ .inl rfl, fun _ ↦ rfl⟩
    | exact ⟨fun _ ↦ .inr ⟨rfl, rfl⟩, fun _ ↦ rfl⟩
    | exact ⟨fun h ↦ absurd (congrArg Prod.fst h) nofun, fun h ↦ by simp at h⟩

/-- Dropping the verdict makes no difference to a fetch when it was fresh, and only then. -/
theorem startOf_unchecked_iff (t : Stmt σ) (gdCol gdCtype : Int) :
    startOf { t with gdCol, gdCtype, sql2cConversion := .unchecked } = startOf t ↔
      (t.hasResultset = true → Fresh t) := by
  cases hb : t.hasResultset with
  | false => exact ⟨fun _ ↦ nofun, fun _ ↦ startOf_noResultset hb gdCol gdCtype .unchecked⟩
  | true =>
    let u : Stmt σ := { t with gdCol, gdCtype, sql2cConversion := .unchecked }
    have hu : startOf u = (checkColumns t.ard.recs t.cols).bind fun v ↦ .done (verdictStart t v) :=
      startOf_unchecked hb rfl
    change startOf u = startOf t ↔ _
    rw [hu]
    by_cases hv : t.sql2cConversion = .unchecked
    · rw [startOf_unchecked hb hv]
      exact ⟨fun _ _ ↦ .inl hv, fun _ ↦ rfl⟩
    · rw [startOf_cached hb hv, Exec.bind_eq_done]
      constructor
      · rintro ⟨v, hcheck, h⟩ -
        injection h with h
        exact .inr ⟨v, hcheck, (verdictStart_inj t (checkColumns_verdict hcheck) hv).mp h⟩
      · intro h
        rcases h rfl with h | ⟨v, hcheck, h⟩
        · exact absurd h hv
        · exact ⟨v, hcheck, congrArg Exec.done
            ((verdictStart_inj t (checkColumns_verdict hcheck) hv).mpr h)⟩

theorem startOf_position (t : Stmt σ) (gdCol gdCtype : Int) :
    startOf { t with gdCol, gdCtype } = startOf t := by
  cases hb : t.hasResultset with
  | false => exact startOf_noResultset hb gdCol gdCtype t.sql2cConversion
  | true =>
    let u : Stmt σ := { t with gdCol, gdCtype }
    by_cases hv : t.sql2cConversion = .unchecked
    · exact (startOf_unchecked (t := u) hb hv).trans (startOf_unchecked hb hv).symm
    · exact (startOf_cached (t := u) hb hv).trans (startOf_cached hb hv).symm

/-- The verdict that a fetch goes by. -/
def verdictOf (t : Stmt σ) : Exec Sql2cConversion :=
  if t.sql2cConversion = .unchecked then checkColumns t.ard.recs t.cols else .done t.sql2cConversion

/-- A fetch, up to what its checks set. -/
def erased (x : Exec (SqlReturn × Stmt σ)) : Exec (SqlReturn × Stmt σ) :=
  x.bind fun (r, t) ↦ .done (r, erase t)

/-- A fetch goes by the verdict. -/
theorem erased_esSQLFetch (cv : Converters σ) {t : Stmt σ} (hb : t.hasResultset = true) :
    erased (esSQLFetch cv t) = (verdictOf t).bind fun
      | .violation => .done (.error, erase { t with diag := t.diag.post .s07006 none })
      | .unsupported => .done (.error, erase { t with diag := t.diag.post .sHYC00 none })
      | v =>
        let u : Stmt σ := { t with sql2cConversion := v }.gdReset
        erased (fetchLoop cv u.fetchStart.fuel u.fetchStart) := by
  unfold erased esSQLFetch fetchChecks verdictOf
  rw [hb, Bool.not_true, if_neg Bool.false_ne_true]
  cases h : t.sql2cConversion with
  | unchecked =>
    unfold convertabilityCheck
    cases checkColumns t.ard.recs t.cols with
    | undefined => rfl
    | exhausted => rfl
    | done v => cases v <;> rfl
  | violation => rfl
  | unsupported => rfl
  | supported =>
    have ht : ({ t with sql2cConversion := .supported } : Stmt σ) = t := by rw [← h]
    change _ = erased (fetchLoop cv (Stmt.gdReset { t with sql2cConversion := .supported }).fetchStart.fuel
      (Stmt.gdReset { t with sql2cConversion := .supported }).fetchStart)
    rw [ht]
    rfl
  | skipped =>
    have ht : ({ t with sql2cConversion := .skipped } : Stmt σ) = t := by rw [← h]
    change _ = erased (fetchLoop cv (Stmt.gdReset { t with sql2cConversion := .skipped }).fetchStart.fuel
      (Stmt.gdReset { t with sql2cConversion := .skipped }).fetchStart)
    rw [ht]
    rfl

theorem erased_esSQLFetch_noResultset (cv : Converters σ) {t : Stmt σ} (hb : t.hasResultset = false)
    (gdCol gdCtype : Int) (v : Sql2cConversion) :
    erased (esSQLFetch cv { t with gdCol, gdCtype, sql2cConversion := v }) =
      erased (esSQLFetch cv t) := by
  have hb' : ({ t with gdCol, gdCtype, sql2cConversion := v } : Stmt σ).hasResultset = false := hb
  unfold erased esSQLFetch fetchChecks
  rw [hb, hb', Bool.not_false, if_pos rfl, if_pos rfl]
  change Exec.bind (Exec.bind (.done (if t.nodataForced then _ else _)) _) _ = _
  split_ifs <;> rfl

/-- Statements that differ in the position of a call, and go by the same verdict, fetch the same. -/
theorem erased_esSQLFetch_congr (cv : Converters σ) {t : Stmt σ} {gdCol gdCtype : Int}
    {v : Sql2cConversion} (h : t.hasResultset = true →
      verdictOf { t with gdCol, gdCtype, sql2cConversion := v } = verdictOf t) :
    erased (esSQLFetch cv { t with gdCol, gdCtype, sql2cConversion := v }) =
      erased (esSQLFetch cv t) := by
  cases hb : t.hasResultset with
  | false => exact erased_esSQLFetch_noResultset cv hb gdCol gdCtype v
  | true =>
    let u : Stmt σ := { t with gdCol, gdCtype, sql2cConversion := v }
    change erased (esSQLFetch cv u) = _
    rw [erased_esSQLFetch cv (t := u) hb, erased_esSQLFetch cv hb, h hb]
    rfl

/-- What a fetch delivers and where it leaves the session, up to what its checks set. -/
def delivers (cv : Converters σ) (s : Session σ) : Result σ :=
  (s.fetch cv).bind fun (r, s') ↦ .done (r, { s' with stmt := erase s'.stmt })

theorem delivers_eq (cv : Converters σ) (s : Session σ) :
    delivers cv s = (erased (esSQLFetch cv s.view)).bind fun (r, t) ↦ .done (r, s.ofView t) := by
  unfold delivers erased fetch onStmt
  cases esSQLFetch cv s.view <;> rfl

theorem ofView_restore {s s' : Session σ} (h : Got s s') (t : Stmt σ) :
    (restore s s').ofView t = s.ofView t := by
  unfold restore
  rw [h.session]
  rfl

/-- A call that leaves the verdict, or drops one that was fresh, does not change what a later
fetch delivers. -/
theorem delivers_restore {s s' : Session σ} (h : Got s s')
    (hv : s'.stmt.sql2cConversion = s.stmt.sql2cConversion ∨
      s'.stmt.sql2cConversion = .unchecked ∧ (s.stmt.hasResultset = true → Fresh s.view))
    (hskip : s.stmt.sql2cConversion ≠ .skipped) (cv : Converters σ) :
    delivers cv (restore s s') = delivers cv s := by
  have hverdict : s.view.hasResultset = true →
      verdictOf { s.view with
        gdCol := s'.stmt.gdCol, gdCtype := s'.stmt.gdCtype
        sql2cConversion := s'.stmt.sql2cConversion } = verdictOf s.view := by
    intro hb
    rcases hv with hv | ⟨hv, hfresh⟩
    · rw [hv]
      rfl
    · rw [hv]
      rcases hfresh hb with hf | ⟨v, hcheck, hf⟩
      · rw [verdictOf, verdictOf, hf]
        rfl
      · have hvf : v = s.view.sql2cConversion := hf.resolve_right fun hf ↦ hskip hf.2
        have hne : s.view.sql2cConversion ≠ .unchecked := fun hu ↦ by
          rcases checkColumns_verdict hcheck with hc | hc | hc <;> rw [← hvf, hc] at hu <;> cases hu
        rw [verdictOf, verdictOf, if_neg hne, if_pos rfl, ← hvf]
        exact hcheck
  rw [delivers_eq, delivers_eq, view_restore h, erased_esSQLFetch_congr cv hverdict]
  congr 1
  funext ⟨r, t⟩
  exact congrArg (fun u ↦ Exec.done (r, u)) (ofView_restore h t)

/-! ## The call leaves the bindings alone -/

/-- The converters that do nothing. -/
def keepConverters : Converters σ where
  sql2cString _ _ _ _ _ app := (.s00000, app)
  sql2cLonglong _ _ _ _ _ app := (.s00000, app)
  sql2cQuadword _ _ _ _ _ app := (.s00000, app)
  sql2cDouble _ _ _ _ _ app := (.s00000, app)
  storeNull _ _ app := app

/-- The type of the column, if there is such a column and it is bound, is one of the matrix. -/
def Checkable (s : Session σ) (a : BindArgs) : Prop :=
  ¬a.Unbinds → ∀ c, s.stmt.cols[a.col - 1]? = some c →
    typesCompatible c.conciseType a.targetType.toInt ≠ none

theorem conciseType_bound (a : BindArgs) (r : Rec) : (a.bound r).conciseType = a.targetType.toInt := by
  change (a.typed r).conciseType = _
  rw [BindArgs.typed, Rec.setConcise_frame]

/-- The records of the call from the column on. -/
theorem drop_bindTo_gdArd {a : BindArgs} (hcol : 0 < a.col) :
    ((gdArd a.columnNumber).bindTo a).recs.drop (a.col - 1) =
      if a.Unbinds then [] else [a.bound ((gdArd a.columnNumber).recOf a.col)] := by
  have hlen := length_bindTo_gdArd hcol
  have hwritten := length_written_gdArd a
  by_cases hu : a.Unbinds
  · rw [if_pos hu]
    refine List.drop_eq_nil_of_le (Nat.le_sub_one_of_lt (Nat.lt_of_le_of_ne ?_ fun h ↦ hlen.mp h hu))
    rw [Desc.bindTo]
    split_ifs
    · exact (List.length_take_le' _ _).trans_eq hwritten
    · exact hwritten.le
  · rw [if_neg hu, Desc.bindTo, if_neg fun h ↦ hu h.1]
    have hget : ((gdArd a.columnNumber).written a).recs[a.col - 1]? =
        some (a.bound ((gdArd a.columnNumber).recOf a.col)) :=
      Desc.getElem?_setRec (Desc.getElem?_grown hcol) _
    obtain ⟨hlt, hget⟩ := List.getElem?_eq_some_iff.mp hget
    rw [List.drop_eq_getElem_cons hlt, hget, List.drop_eq_nil_of_le (by omega)]

/-- The check of the column comes to something when its type is one of the matrix. -/
theorem exists_checkColumns_iff (s : Session σ) {a : BindArgs} (hcol : 0 < a.col) :
    (∃ v, checkColumns (((gdArd a.columnNumber).bindTo a).view.recs.drop (a.col - 1))
      (s.stmt.cols.drop (a.col - 1)) = .done v) ↔ s.Checkable a := by
  have hdrop : ((gdArd a.columnNumber).bindTo a).view.recs.drop (a.col - 1) =
      (if a.Unbinds then [] else [a.bound ((gdArd a.columnNumber).recOf a.col)]).map Rec.view := by
    rw [← drop_bindTo_gdArd hcol]
    exact List.map_drop.symm
  rw [hdrop, Checkable]
  by_cases hu : a.Unbinds
  · rw [if_pos hu]
    exact ⟨fun _ h ↦ absurd hu h, fun _ ↦ ⟨.supported, by simp only [List.map_nil, checkColumns]⟩⟩
  rw [if_neg hu, List.map_cons, List.map_nil]
  cases hcols : s.stmt.cols.drop (a.col - 1) with
  | nil =>
    have hc : s.stmt.cols[a.col - 1]? = none := by
      rw [← List.head?_drop, hcols]
      rfl
    rw [hc]
    constructor
    · intro _ _ c' hc'
      cases hc'
    · intro _
      exact ⟨.supported, by simp only [checkColumns]⟩
  | cons c cs =>
    have hc : s.stmt.cols[a.col - 1]? = some c := by
      rw [← List.head?_drop, hcols]
      rfl
    have hbound : (a.bound ((gdArd a.columnNumber).recOf a.col)).view.isBound = true :=
      (a.isBound_bound _).trans (by rw [decide_eq_false hu]; rfl)
    have htype : (a.bound ((gdArd a.columnNumber).recOf a.col)).view.conciseType = a.targetType.toInt :=
      conciseType_bound a _
    rw [checkColumns, hbound, Bool.not_true, if_neg Bool.false_ne_true, htype, hc]
    have hsome : (∀ c', some c = some c' →
        typesCompatible c'.conciseType a.targetType.toInt ≠ none) ↔
        typesCompatible c.conciseType a.targetType.toInt ≠ none :=
      ⟨fun h ↦ h c rfl, fun h _ hc' ↦ Option.some_inj.mp hc' ▸ h⟩
    rw [hsome, forall_prop_of_true hu]
    cases typesCompatible c.conciseType a.targetType.toInt with
    | none =>
      constructor
      · intro h
        cases h.choose_spec
      · exact fun h ↦ absurd rfl h
    | some ok =>
      refine ⟨fun _ ↦ Option.some_ne_none ok, fun _ ↦ ?_⟩
      cases ok with
      | false => exact ⟨_, rfl⟩
      | true =>
        dsimp only
        split_ifs
        · exact ⟨.supported, by simp only [checkColumns]⟩
        · exact ⟨_, rfl⟩

/-- A call that gets to a binding, of a column that can be checked, returns. -/
theorem exists_getColumn {s : Session σ} {a : BindArgs} (hacc : a.Accepted s.dbc (gdArd a.columnNumber))
    (hsafe : ¬(a.Unbinds ∧ a.columnNumber < esodbcGdDescCount)) (hcheck : s.Checkable a)
    (cv : Converters σ) : ∃ r s', getColumn cv s a = .done (r, s') := by
  obtain ⟨v, hv⟩ := (exists_checkColumns_iff s hacc.column).mpr hcheck
  rw [getColumn, gdBind_accepted hacc, if_neg hsafe, Exec.bind_done]
  change ∃ r s', (Exec.bind ((checkColumns (((gdArd a.columnNumber).bindTo a).view.recs.drop (a.col - 1))
      (s.stmt.cols.drop (a.col - 1))).bind _) _) = _
  rw [hv]
  cases v <;> exact ⟨_, _, rfl⟩

/-- A call that gets to a binding and returns has checked the column. -/
theorem checkable_of_getColumn {s s' : Session σ} {a : BindArgs} {cv : Converters σ} {r : SqlReturn}
    (hacc : a.Accepted s.dbc (gdArd a.columnNumber)) (h : getColumn cv s a = .done (r, s')) :
    s.Checkable a := by
  rw [getColumn, gdBind_accepted hacc] at h
  by_cases hs : a.Unbinds ∧ a.columnNumber < esodbcGdDescCount
  · rw [if_pos hs] at h
    cases h
  rw [if_neg hs, Exec.bind_done] at h
  obtain ⟨⟨r', t'⟩, hcall, -⟩ := Exec.bind_eq_done.mp h
  obtain ⟨v, hv, -⟩ := Exec.bind_eq_done.mp hcall
  exact (exists_checkColumns_iff s hacc.column).mp ⟨v, hv⟩

/-! ## The law -/

/-- A call leaves the bindings alone: it resizes or releases no array of records but those that
were allocated, and whatever it comes to, the ARD is the same with the same records, the row
position is the same, and a later fetch starts from the same, with the same verdict of its
checks, as without the call. -/
structure Undisturbed (s : Session σ) (a : GetArgs) : Prop where
  arrays : (s.gdPrepare a).1 = none → (s.gdPrepare a).2.gdBind a.bind ≠ .undefined
  ard : ∀ cv r s', getData cv s a = .done (r, s') → s'.ard = s.ard
  descs : ∀ cv r s', getData cv s a = .done (r, s') → s'.descs = s.descs
  position : ∀ cv r s', getData cv s a = .done (r, s') →
    s'.stmt.rset = s.stmt.rset ∧ s'.stmt.tvRows = s.stmt.tvRows
  fetch : ∀ cv r s', getData cv s a = .done (r, s') →
    startOf (restore s s').view = startOf s.view

/-- What a call that gets past its checks has to meet. -/
structure LeavesAlone (s : Session σ) (a : BindArgs) : Prop where
  column : 0 < a.col
  /-- With the data and the length both null, the record is not one on the stack. -/
  heap : a.Accepted s.dbc (gdArd a.columnNumber) → a.Unbinds → esodbcGdDescCount ≤ a.columnNumber
  /-- The statement keeps no verdict on the columns that a check would not give. -/
  fresh : a.Accepted s.dbc (gdArd a.columnNumber) → s.Checkable a → s.stmt.hasResultset = true →
    Fresh s.view

theorem Got.position {s s' : Session σ} (h : Got s s') :
    s'.stmt.rset = s.stmt.rset ∧ s'.stmt.tvRows = s.stmt.tvRows := by
  have hrset : s'.view.rset = s.view.rset := by rw [h.view]; rfl
  have hrows : s'.view.tvRows = s.view.tvRows := by rw [h.view]; rfl
  exact ⟨hrset, hrows⟩

/-- The arrays are left alone. -/
theorem gdBind_ne_undefined_iff (s : Session σ) (a : BindArgs) :
    s.gdBind a ≠ .undefined ↔ 0 < a.col ∧ (a.Accepted s.dbc (gdArd a.columnNumber) →
      a.Unbinds → esodbcGdDescCount ≤ a.columnNumber) := by
  by_cases hcol : a.columnNumber = 0
  · rw [gdBind, getdataSetArd, if_pos hcol]
    refine ⟨fun h ↦ absurd rfl h, fun h ↦ absurd hcol (a.columnNumber_ne_zero h.1)⟩
  by_cases hacc : a.Accepted s.dbc (gdArd a.columnNumber)
  · rw [gdBind_accepted hacc]
    split_ifs with h
    · exact ⟨fun h' ↦ absurd rfl h', fun h' ↦ absurd h.2 (UInt16.not_lt.mpr (h'.2 hacc h.1))⟩
    · exact ⟨fun _ ↦ ⟨hacc.column, fun _ hu ↦ UInt16.not_lt.mp fun hc ↦ h ⟨hu, hc⟩⟩, fun _ ↦ nofun⟩
  · obtain ⟨diag, d, h⟩ := gdBind_refused (a.col_pos hcol) hacc
    rw [h]
    exact ⟨fun _ ↦ ⟨a.col_pos hcol, fun ha ↦ absurd ha hacc⟩, fun _ ↦ nofun⟩

theorem startOf_restore {s s' : Session σ} (h : Got s s') :
    (s'.stmt.sql2cConversion = s.stmt.sql2cConversion →
      startOf (restore s s').view = startOf s.view) ∧
    (s'.stmt.sql2cConversion = .unchecked →
      (startOf (restore s s').view = startOf s.view ↔ (s.stmt.hasResultset = true → Fresh s.view))) := by
  rw [view_restore h]
  constructor
  · intro hv
    rw [hv]
    exact startOf_position s.view _ _
  · intro hv
    rw [hv]
    exact startOf_unchecked_iff s.view _ _

/-- A call that meets the conditions leaves the verdict, or drops one that was fresh. -/
theorem verdict_of_leavesAlone {s s' : Session σ} {a : GetArgs} {cv : Converters σ} {r : SqlReturn}
    (h : (s.gdPrepare a).1 = none → s.LeavesAlone a.bind) (hdata : getData cv s a = .done (r, s')) :
    s'.stmt.sql2cConversion = s.stmt.sql2cConversion ∨
      s'.stmt.sql2cConversion = .unchecked ∧ (s.stmt.hasResultset = true → Fresh s.view) := by
  have hprep := s.gdPrepare_prepared a
  obtain ⟨-, hdrop, hkeep⟩ := getData_got hdata
  by_cases hb : (s.gdPrepare a).1 = none ∧ a.bind.Accepted s.dbc (gdArd a.bind.columnNumber)
  · refine .inr ⟨hdrop hb, fun hres ↦ (h hb.1).fresh hb.2 ?_ hres⟩
    rw [getData_eq, hb.1] at hdata
    have hcheck := checkable_of_getColumn (hprep.dbc.symm ▸ hb.2) hdata
    unfold Checkable at hcheck ⊢
    rwa [hprep.cols] at hcheck
  · exact .inl (hkeep hb)

/-- `EsSQLGetData` leaves the bindings alone when, once past its checks, it is not asked for
column zero, does not find both the data and the length null for a column with its record on the
stack, and drops no verdict that a check would not give.  Then a later fetch delivers the same. -/
theorem getData_undisturbed (s : Session σ) (a : GetArgs) :
    (s.Undisturbed a ↔ ((s.gdPrepare a).1 = none → s.LeavesAlone a.bind)) ∧
    (s.Undisturbed a → s.stmt.sql2cConversion ≠ .skipped →
      ∀ cv r s', getData cv s a = .done (r, s') →
        ∀ cv', delivers cv' (restore s s') = delivers cv' s) := by
  have hprep := s.gdPrepare_prepared a
  have harrays := (s.gdPrepare a).2.gdBind_ne_undefined_iff a.bind
  rw [hprep.dbc] at harrays
  have hiff : s.Undisturbed a ↔ ((s.gdPrepare a).1 = none → s.LeavesAlone a.bind) := by
    constructor
    · intro h hp
      obtain ⟨hcol, hheap⟩ := harrays.mp (h.arrays hp)
      refine ⟨hcol, hheap, fun hacc hcheck ↦ ?_⟩
      have hacc' : a.bind.Accepted (s.gdPrepare a).2.dbc (gdArd a.bind.columnNumber) :=
        hprep.dbc.symm ▸ hacc
      have hcheck' : (s.gdPrepare a).2.Checkable a.bind := by
        unfold Checkable
        rw [hprep.cols]
        exact hcheck
      obtain ⟨r, s', hget⟩ := exists_getColumn hacc'
        (fun hs ↦ UInt16.not_lt.mpr (hheap hacc hs.1) hs.2) hcheck' keepConverters
      have hdata : getData keepConverters s a = .done (r, s') := by
        rw [getData_eq, hp]
        exact hget
      obtain ⟨hgot, hdrop, -⟩ := getData_got hdata
      exact ((startOf_restore hgot).2 (hdrop ⟨hp, hacc⟩)).mp (h.fetch _ r s' hdata)
    · intro h
      refine ⟨fun hp ↦ harrays.mpr ⟨(h hp).column, (h hp).heap⟩, fun cv r s' hdata ↦ ?_,
        fun cv r s' hdata ↦ ?_, fun cv r s' hdata ↦ (getData_got hdata).1.position,
        fun cv r s' hdata ↦ ?_⟩
      · rw [(getData_got hdata).1.session]
      · rw [(getData_got hdata).1.session]
      · have hstart := startOf_restore (getData_got hdata).1
        rcases verdict_of_leavesAlone h hdata with hv | ⟨hv, hfresh⟩
        · exact hstart.1 hv
        · exact (hstart.2 hv).mpr hfresh
  exact ⟨hiff, fun h hskip cv r s' hdata cv' ↦
    delivers_restore (getData_got hdata).1 (verdict_of_leavesAlone (hiff.mp h) hdata) hskip cv'⟩

/-- A column of a fetched row, asked for with neither a buffer nor an indicator: the record that
the call unbinds is on the stack. -/
theorem getData_null : ∃ s₀ s₁ s₂ : Session Unit,
    s₀.execDirect .init (.attached false none) = .done (.success, s₁) ∧
      s₁.fetch .accept = .done (.success, s₂) ∧
      ¬s₂.Undisturbed ⟨⟨1, 4, 0, 0, 0⟩, false⟩ := by
  let float : EsType := ⟨[], 8, 15, 1, 0, 8, 0, .floatNumeric, 24⟩
  let s₀ : Session Unit := .init [] float () [.answer (jsonAnswer [[0x61]] [[.longLong 1]] [])]
    (fun _ ↦ .init .stmt .ard false) (fun _ ↦ []) fun _ ↦ 0
  let a : GetArgs := ⟨⟨1, 4, 0, 0, 0⟩, false⟩
  have hrun : ((s₀.execDirect .init (.attached false none)).bind fun (r₁, s₁) ↦
      (s₁.fetch .accept).bind fun (r₂, s₂) ↦
        .done (r₁ == .success && r₂ == .success && (s₂.gdPrepare a).1 == none)) = .done true := by
    decide +kernel
  obtain ⟨⟨r₁, s₁⟩, h₁, hrun⟩ := Exec.bind_eq_done.mp hrun
  obtain ⟨⟨r₂, s₂⟩, h₂, hrun⟩ := Exec.bind_eq_done.mp hrun
  simp only [Exec.done.injEq, Bool.and_eq_true, beq_iff_eq] at hrun
  obtain ⟨⟨rfl, rfl⟩, hp⟩ := hrun
  refine ⟨s₀, s₁, s₂, h₁, h₂, fun h ↦ ?_⟩
  have hacc : a.bind.Accepted (s₂.gdPrepare a).2.dbc (gdArd a.bind.columnNumber) :=
    ⟨by decide, by decide, by decide, by decide, fun hv ↦ absurd rfl hv⟩
  have hheap := ((gdBind_ne_undefined_iff _ _).mp (h.arrays hp)).2 hacc ⟨rfl, rfl⟩
  exact absurd hheap (by decide)

end Session

end EsOdbc
