import EsOdbc.Fetch.Pages

/-!
# The result of a rowset

What becomes of the rows of a rowset is decided by the rows, the bindings and the buffers
(`rowset`).  From it follow the code of the call, the status of each row and the count of
the rows (`fetchCall_rowset`), and when these obey the law that ODBC has for them
(`fetch_law`).
-/

namespace EsOdbc

variable {σ : Type}

/-! ## The outcomes of the rows -/

/-- What became of the rows so far, and of the application's side. -/
structure Rowset (σ : Type) where
  outcomes : List RowOutcome
  app : σ

/-- One more row. -/
def Rowset.step (cv : Converters σ) (arecs : List ARec) (cols : List ColType) (r : Rowset σ)
    (row : Row) : Rowset σ :=
  let o := rowOutcome cv arecs cols r.outcomes.length r.app (row.view cols.length)
  ⟨r.outcomes ++ [o.1], o.2⟩

/-- What becomes of the rows of a rowset. -/
def rowset (cv : Converters σ) (arecs : List ARec) (cols : List ColType) (app : σ)
    (rows : List Row) : Rowset σ :=
  rows.foldl (Rowset.step cv arecs cols) ⟨[], app⟩

/-- What became of the rows that a fetch processed. -/
def Fetched.outcomes (cv : Converters σ) (cols : List ColType) (f : Fetched σ) :
    List RowOutcome :=
  (rowset cv f.setup.ard.recs cols f.setup.app f.rows).outcomes

@[simp] theorem rowset_nil (cv : Converters σ) (arecs : List ARec) (cols : List ColType)
    (app : σ) : rowset cv arecs cols app [] = ⟨[], app⟩ := rfl

theorem rowset_append (cv : Converters σ) (arecs : List ARec) (cols : List ColType) (app : σ)
    (rows : List Row) (row : Row) :
    rowset cv arecs cols app (rows ++ [row]) =
      (rowset cv arecs cols app rows).step cv arecs cols row := by
  rw [rowset, List.foldl_append]
  rfl

theorem rowset_length (cv : Converters σ) (arecs : List ARec) (cols : List ColType) (app : σ)
    (rows : List Row) : (rowset cv arecs cols app rows).outcomes.length = rows.length := by
  induction rows using List.reverseRecOn with
  | nil => rfl
  | append_singleton rows row ih => simp [rowset_append, Rowset.step, ih]

namespace RowOutcome

/-- The status that ODBC has for a row. -/
def status (o : RowOutcome) : RowStatus :=
  match o.ret with
  | .success | .noData => .success
  | .successWithInfo => .successWithInfo
  | .error => .error

theorem errors_eq (o : RowOutcome) (n : Nat) :
    (if o.ret.succeeded then n else n + 1) = n + if o.failed = true then 1 else 0 := by
  unfold failed
  cases o.ret.succeeded <;> rfl

theorem written_eq_status {o : RowOutcome} {x : RowStatus} (h : o.written = some x) :
    x = o.status := by
  cases o with
  | copied withInfo => cases withInfo <;> cases h <;> rfl
  | rejected => cases h; rfl
  | untouched => cases h
  | convFailed => cases h

end RowOutcome

/-- The status array after rows with these outcomes. -/
def statusAfter (os : List RowOutcome) (st : List RowStatus) : List RowStatus :=
  st.mapIdx fun k x ↦ ((os[k]?).bind RowOutcome.written).getD x

@[simp] theorem statusAfter_nil (st : List RowStatus) : statusAfter [] st = st := by
  simp [statusAfter, List.mapIdx_eq_iff]

theorem map_statusAfter_nil (st : Option (List RowStatus)) : st.map (statusAfter []) = st := by
  cases st <;> simp

theorem statusAfter_append (os : List RowOutcome) (o : RowOutcome) (st : List RowStatus) :
    statusAfter (os ++ [o]) st =
      match o.written with
      | some x => (statusAfter os st).set os.length x
      | none => statusAfter os st := by
  refine List.ext_getElem? fun k ↦ ?_
  rcases Nat.lt_trichotomy k os.length with hk | rfl | hk
  · have hos : (os ++ [o])[k]? = os[k]? := List.getElem?_append_left hk
    cases o.written <;> simp [statusAfter, hos, Nat.ne_of_gt hk]
  · have hos : os[os.length]? = none := List.getElem?_eq_none le_rfl
    cases ho : o.written <;> cases hst : st[os.length]? <;>
      simp [statusAfter, ho, hst, List.getElem?_set]
    · exact List.getElem?_eq_none_iff.mp hst
    · exact (List.getElem?_eq_some_iff.mp hst).1
  · have hos : os[k]? = none := List.getElem?_eq_none (Nat.le_of_lt hk)
    have hos' : (os ++ [o])[k]? = none := List.getElem?_eq_none (by simpa using Nat.succ_le_of_lt hk)
    cases o.written <;> simp [statusAfter, hos, hos', Nat.ne_of_lt hk]

theorem mark_statusAfter (o : RowOutcome) (os : List RowOutcome) (st : Option (List RowStatus)) :
    o.mark os.length (st.map (statusAfter os)) = st.map (statusAfter (os ++ [o])) := by
  cases st with
  | none => simp only [RowOutcome.mark, Option.map_none]; split <;> rfl
  | some st =>
    rw [Option.map_some, Option.map_some, statusAfter_append, RowOutcome.mark]
    cases o.written <;> rfl

/-! ## The loop -/

/-- What the loop is like when it has processed `rows`, starting out on `s`. -/
structure Processed (cv : Converters σ) (s : Stmt σ) (rows : List Row) (l : FetchLoop σ) :
    Prop where
  ready : l.stmt.Ready
  ird : s.ird ≠ [] ∧ l.stmt.cols = s.cols
  ard : l.stmt.ard = s.ard
  count : l.i = rows.length
  room : rows.length ≤ s.ard.arraySize
  app : l.stmt.app = (rowset cv s.ard.recs s.cols s.app rows).app
  errors : l.errors =
    (rowset cv s.ard.recs s.cols s.app rows).outcomes.countP RowOutcome.failed
  status : l.stmt.arrayStatus =
    s.arrayStatus.map (statusAfter (rowset cv s.ard.recs s.cols s.app rows).outcomes)
  processed : l.stmt.rowsProcessed = s.rowsProcessed

theorem Processed.ird_ne_nil {cv : Converters σ} {s : Stmt σ} {rows : List Row} {l : FetchLoop σ}
    (h : Processed cv s rows l) : l.stmt.ird ≠ [] := by
  intro hnil
  have := h.ird.2
  rw [Stmt.cols, hnil] at this
  exact h.ird.1 (List.map_eq_nil_iff.mp this.symm)

/-- A page that comes in leaves the side of the application alone. -/
theorem esSQLExecute_keeps {s s' : Stmt σ} {r : SqlReturn} (hs : s.Ready) (hird : s.ird ≠ [])
    (h : s.esSQLExecute = .done (r, s')) (hr : r.succeeded = true) :
    s'.Ready ∧ s'.ird = s.ird ∧ s'.ard = s.ard ∧ s'.app = s.app ∧
      s'.arrayStatus = s.arrayStatus ∧ s'.rowsProcessed = s.rowsProcessed := by
  rcases esSQLExecute_cases h with ⟨-, -, rfl⟩ | ⟨rfl, -⟩ | ⟨a, rest, -, hat⟩
  · exact ⟨⟨hs.resultset, hs.gd⟩, rfl, rfl, rfl, rfl, rfl⟩
  · cases hr
  · have hs₀ : ({ s with earlyExecuted := false, replies := rest } : Stmt σ).Ready :=
      ⟨hs.resultset, hs.gd⟩
    have hf := (attachAnswer_frame_of_ready hs₀ a).2 r s' hat
    exact ⟨hs₀.of_attach hf, hf.ird hird, hf.ard, hf.app, hf.arrayStatus, hf.rowsProcessed⟩

theorem next_processed {cv : Converters σ} {s : Stmt σ} {rows : List Row} {l o l' : FetchLoop σ}
    (hl : Processed cv s rows l) (h : Next cv l o l') :
    Processed cv s (rows ++ o.row.toList) l' := by
  have hready := h.ready hl.ready
  obtain ⟨rfl, h⟩ := h
  have ht := fetchTurn_turned cv hl.ready.gd
  rw [h] at ht
  cases ht with
  | @row hi row _ d recs hfmt hrow hdesc =>
    have hlen : (rowset cv s.ard.recs s.cols s.app rows).outcomes.length = o.i := by
      rw [rowset_length, hl.count]
    have hout : o.rowOutcome cv row = rowOutcome cv s.ard.recs s.cols
        (rowset cv s.ard.recs s.cols s.app rows).outcomes.length
        (rowset cv s.ard.recs s.cols s.app rows).app (row.view s.cols.length) := by
      rw [hlen, ← hl.app, ← hl.ird.2, ← hl.ard, Stmt.cols, List.length_map]
      rfl
    rw [FetchLoop.row_of_rows hi hrow, Option.toList_some]
    refine ⟨hready, ⟨hl.ird.1, ?_⟩, hl.ard, ?_, ?_, ?_, ?_, ?_, hl.processed⟩
    · exact (Stmt.col_eq_of_desc hdesc).trans hl.ird.2
    · simp [FetchLoop.afterRow, hl.count]
    · rw [← hl.ard, List.length_append, List.length_singleton, ← hl.count]
      exact hi
    · rw [rowset_append]
      simp only [FetchLoop.afterRow, Rowset.step, hout]
    · rw [rowset_append]
      simp only [FetchLoop.afterRow, Rowset.step, List.countP_append, List.countP_singleton,
        ← hl.errors, hout]
      exact RowOutcome.errors_eq _ _
    · rw [rowset_append]
      simp only [FetchLoop.afterRow, Rowset.step, hout]
      rw [hl.status, ← hlen, mark_statusAfter]
  | page hi hrow hcurs hexec hret hnodata =>
    obtain ⟨-, hird', hard, happ, hstatus, hproc⟩ :=
      esSQLExecute_keeps hl.ready hl.ird_ne_nil hexec hret
    rw [FetchLoop.row_of_nil hrow, Option.toList_none, List.append_nil]
    refine ⟨hready, ⟨hl.ird.1, ?_⟩, hard.trans hl.ard, hl.count, hl.room, happ.trans hl.app,
      hl.errors, hstatus.trans hl.status, hproc.trans hl.processed⟩
    rw [Stmt.cols, hird']
    exact hl.ird.2

/-! ## The call -/

/-- The code that the call returns for rows with these outcomes. -/
def rowsetRet (os : List RowOutcome) : SqlReturn :=
  if os = [] then .noData else if os.all RowOutcome.failed then .error else .success

/-- If the turn asks for a page, it gets an answer that it can take in. -/
def FetchLoop.Answered (l : FetchLoop σ) : Prop :=
  l.Requests → ∀ r t, l.stmt.esSQLExecute = .done (r, t) → r.succeeded = true

/-- The status array after a rowset of `n` rows of which those with the outcomes `os` were
fetched. -/
def finalStatus (n : Nat) (os : List RowOutcome) (st : List RowStatus) : List RowStatus :=
  (statusAfter os st).mapIdx fun k x ↦ if os.length ≤ k ∧ k < n then .norow else x

theorem fetchEnd_ret {l : FetchLoop σ} {os : List RowOutcome} (hi : l.i = os.length)
    (he : l.errors = os.countP RowOutcome.failed) : (fetchEnd l).1 = rowsetRet os := by
  have hall : l.i ≤ l.errors ↔ os.all RowOutcome.failed = true := by
    rw [he, hi, List.all_eq_true, ← List.countP_eq_length]
    have := List.countP_le_length (p := RowOutcome.failed) (l := os)
    omega
  have hnil : os = [] ↔ l.i = 0 := by rw [← List.length_eq_zero_iff, hi]
  rw [fetchEnd, rowsetRet]
  by_cases h0 : l.i = 0
  · rw [if_pos h0, if_pos (hnil.mpr h0)]
  · rw [if_neg h0, if_neg (mt hnil.mp h0)]
    by_cases hle : l.i ≤ l.errors
    · rw [if_pos ⟨by omega, hle⟩, if_pos (hall.mp hle)]
    · rw [if_neg fun h ↦ hle h.2, if_neg (mt hall.mpr hle)]

theorem finalStatus_full {n : Nat} {os : List RowOutcome} (h : n ≤ os.length) (st : List RowStatus) :
    finalStatus n os st = statusAfter os st := by
  rw [finalStatus, List.mapIdx_eq_iff]
  intro k
  have : ¬(os.length ≤ k ∧ k < n) := by omega
  simp [this]

/-- The slots without a row are marked. -/
theorem setNorow_status {s : Stmt σ} {n i : Nat} {os : List RowOutcome}
    {st : Option (List RowStatus)} (hn : s.ard.arraySize = n) (hi : os.length = i)
    (h : s.arrayStatus = st.map (statusAfter os)) :
    (s.setNorow i).arrayStatus = st.map (finalStatus n os) := by
  rw [Stmt.setNorow, h, Option.map_map, ← hn, ← hi]
  rfl

/-- A turn that leaves the loop. -/
theorem leave_processed {cv : Converters σ} {s : Stmt σ} {rows : List Row} {l l' : FetchLoop σ}
    (hl : Processed cv s rows l) (h : fetchTurn cv l = .leave l') :
    l'.stmt.arrayStatus = s.arrayStatus.map
        (finalStatus s.ard.arraySize (rowset cv s.ard.recs s.cols s.app rows).outcomes) ∧
      l'.stmt.rowsProcessed = s.rowsProcessed := by
  have hlen : (rowset cv s.ard.recs s.cols s.app rows).outcomes.length = l.i := by
    rw [rowset_length, hl.count]
  have hn : l.stmt.ard.arraySize = s.ard.arraySize := by rw [hl.ard]
  have ht := fetchTurn_turned cv hl.ready.gd
  rw [h] at ht
  cases ht with
  | full hfull =>
    refine ⟨?_, hl.processed⟩
    rw [hl.status]
    refine congrArg (s.arrayStatus.map ·) (funext fun st ↦ ?_)
    rw [finalStatus_full (by omega)]
  | last hi hrow hcurs => exact ⟨setNorow_status hn hlen hl.status, hl.processed⟩
  | @emptyPage hi ret t hrow hcurs hexec hret hforced =>
    obtain ⟨-, -, hard, -, hstatus, hproc⟩ :=
      esSQLExecute_keeps hl.ready hl.ird_ne_nil hexec hret
    exact ⟨setNorow_status (by rw [hard, hn]) hlen (hstatus.trans hl.status),
      hproc.trans hl.processed⟩

/-- What a call comes to that passes its checks and whose requests are answered. -/
theorem fetchCall_rowset {cv : Converters σ} {s s' : Stmt σ} {f : Fetched σ} {os : List RowOutcome}
    (hos : f.outcomes cv s.cols = os) (hird : s.ird ≠ []) (h : FetchCall cv s f s')
    (hpass : f.turns ≠ []) (hans : ∀ l ∈ f.turns, l.Answered) :
    f.ret = rowsetRet os ∧ os.length ≤ f.setup.ard.arraySize ∧
      s'.arrayStatus = f.setup.arrayStatus.map (finalStatus f.setup.ard.arraySize os) ∧
      s'.rowsProcessed = f.setup.rowsProcessed.map fun _ ↦ os.length := by
  obtain ⟨hcall, hturns⟩ := h
  rcases esSQLFetch_cases hcall with ⟨-, hnil⟩ | ⟨t, ls, l, hc, hls, hrun, hend⟩
  · exact absurd (hturns.trans hnil) hpass
  · obtain ⟨hready, ht⟩ := fetchChecks_none hc
    have hcols : t.cols = s.cols := by rw [ht]; rfl
    have hard : t.ard = f.setup.ard := by rw [ht]; rfl
    have happ : t.app = f.setup.app := by rw [ht]; rfl
    have hstatus : t.arrayStatus = f.setup.arrayStatus := by rw [ht]; rfl
    have hproc : t.rowsProcessed = f.setup.rowsProcessed := by rw [ht]; rfl
    have hstart : Processed cv t [] t.fetchStart := by
      refine ⟨hready, ⟨by rw [ht]; exact hird, rfl⟩, rfl, rfl, Nat.zero_le _, rfl, rfl, ?_, rfl⟩
      exact (map_statusAfter_nil _).symm
    have hl := hrun.accumulate (I := Processed cv t) (fun o ↦ o.row.toList)
      (fun _ _ _ _ ↦ next_processed) hstart
    obtain ⟨hlast, hcases⟩ := ends_cases hl.ready hend
    have hrows : ls.flatMap (fun o ↦ o.row.toList) = f.rows := by
      simp only [Fetched.rows, hturns, hls, List.flatMap_append, List.flatMap_singleton, hlast,
        Option.toList_none, List.append_nil]
    rw [List.nil_append, hrows] at hl
    have hos : (rowset cv t.ard.recs t.cols t.app f.rows).outcomes = os := by
      rw [hard, hcols, happ]
      exact hos
    have hlen : os.length = f.rows.length := by rw [← hos, rowset_length]
    have hl' : l.Answered := hans l (by rw [hturns, hls]; exact List.mem_append_right _ List.mem_cons_self)
    rcases hcases with ⟨l', hleave, hi, he, hfe⟩ | ⟨hret, -⟩
    · obtain ⟨hst, hpr⟩ := leave_processed hl hleave
      rw [hos, hard, hstatus] at hst
      rw [hproc] at hpr
      have hi' : l'.i = os.length := by rw [hi, hl.count, hlen]
      obtain ⟨hs', -⟩ := fetchEnd_eq hfe
      refine ⟨?_, ?_, ?_, ?_⟩
      · rw [← fetchEnd_ret hi' (by rw [he, hl.errors, hos]), hfe]
      · rw [hlen, ← hard]
        exact hl.room
      · rw [hs']
        exact hst
      · rw [hs', ← hi', ← hpr]
    · have ht := fetchTurn_turned cv hl.ready.gd
      rw [hret] at ht
      cases ht with
      | requestFailed hi hrow hcurs hexec hret =>
        rw [hl' ⟨hi, hrow, hcurs⟩ _ _ hexec] at hret
        cases hret

/-! ## The law -/

/-- The result that ODBC has for a rowset of `n` rows, when rows with the outcomes `os` were
fetched. -/
structure RowsetLaw (n : Nat) (os : List RowOutcome) (r : SqlReturn) (s : Stmt σ) : Prop where
  success : os ≠ [] → (r = .success ↔ ∀ o ∈ os, o.clean = true)
  withInfo : os ≠ [] → (r = .successWithInfo ↔
    (∃ o ∈ os, o.clean = false) ∧ ¬∀ o ∈ os, o.failed = true)
  error : os ≠ [] → (r = .error ↔ ∀ o ∈ os, o.failed = true)
  status : ∀ st, s.arrayStatus = some st →
    (∀ (k : Nat) (o : RowOutcome), os[k]? = some o → st[k]? = some o.status) ∧
    ∀ k, os.length ≤ k → k < n → st[k]? = some .norow
  processed : ∀ m, s.rowsProcessed = some m → m = os.length

theorem RowOutcome.not_failed_of_clean {o : RowOutcome} (h : o.clean = true) :
    o.failed = false := by
  cases o with
  | copied withInfo => cases withInfo <;> rfl
  | untouched => rfl
  | rejected => cases h
  | convFailed => cases h

theorem finalStatus_getElem? {n k : Nat} {os : List RowOutcome} {st : List RowStatus} :
    (finalStatus n os st)[k]? = if os.length ≤ k ∧ k < n then st[k]?.map fun _ ↦ .norow
      else st[k]?.map fun x ↦ ((os[k]?).bind RowOutcome.written).getD x := by
  simp only [finalStatus, statusAfter, List.getElem?_mapIdx, Option.map_map]
  split_ifs with h <;> cases st[k]? <;> simp [h]

theorem rowsetRet_of_ne_nil {os : List RowOutcome} (h : os ≠ []) :
    rowsetRet os = .error ∧ (∀ o ∈ os, o.failed = true) ∨
      rowsetRet os = .success ∧ ¬∀ o ∈ os, o.failed = true := by
  rw [← List.all_eq_true, rowsetRet, if_neg h]
  cases os.all RowOutcome.failed with
  | true => exact .inl ⟨rfl, rfl⟩
  | false => exact .inr ⟨rfl, Bool.false_ne_true⟩

/-- The code for mixed outcomes is never returned, so that the code is right for rows that
are all clean or all failed, and for no others. -/
theorem rowsetRet_law {os : List RowOutcome} (hnil : os ≠ []) :
    ((rowsetRet os = .success ↔ ∀ o ∈ os, o.clean = true) ∧
      (rowsetRet os = .successWithInfo ↔
        (∃ o ∈ os, o.clean = false) ∧ ¬∀ o ∈ os, o.failed = true) ∧
      (rowsetRet os = .error ↔ ∀ o ∈ os, o.failed = true)) ↔
    (∀ o ∈ os, o.clean = true) ∨ ∀ o ∈ os, o.failed = true := by
  obtain ⟨o, ho⟩ := List.exists_mem_of_ne_nil os hnil
  have hex : (∃ o ∈ os, o.clean = false) ↔ ¬∀ o ∈ os, o.clean = true := by simp
  have hboth : (∀ o ∈ os, o.failed = true) → ¬∀ o ∈ os, o.clean = true := fun hf hc ↦ by
    have := RowOutcome.not_failed_of_clean (hc o ho)
    rw [hf o ho] at this
    cases this
  rcases rowsetRet_of_ne_nil hnil with ⟨hr, hf⟩ | ⟨hr, hf⟩
  · rw [hr, hex]
    exact ⟨fun _ ↦ .inr hf, fun _ ↦
      ⟨⟨nofun, fun hc ↦ absurd hc (hboth hf)⟩, ⟨nofun, fun h ↦ absurd hf h.2⟩, ⟨fun _ ↦ hf, fun _ ↦ rfl⟩⟩⟩
  · rw [hr, hex]
    refine ⟨fun h ↦ .inl (h.1.mp rfl), fun h ↦ ?_⟩
    have hc := h.resolve_right hf
    exact ⟨⟨fun _ ↦ hc, fun _ ↦ rfl⟩, ⟨nofun, fun h ↦ absurd hc h.1⟩, ⟨nofun, fun h ↦ absurd h hf⟩⟩

/-- The law of a rowset.  A call that passes its checks and whose requests are answered
obeys it exactly when its rows are all clean or all failed, and those whose status is not
written, because a conversion failed or there was nothing to copy to, have the right one in
the array before. -/
theorem fetch_law (cv : Converters σ) {s s' : Stmt σ} {f : Fetched σ} (hird : s.ird ≠ [])
    (h : FetchCall cv s f s') (hpass : f.turns ≠ []) (hans : ∀ l ∈ f.turns, l.Answered) :
    RowsetLaw f.setup.ard.arraySize (f.outcomes cv s.cols) f.ret s' ↔
      ((∀ o ∈ f.outcomes cv s.cols, o.clean = true) ∨
        ∀ o ∈ f.outcomes cv s.cols, o.failed = true) ∧
      ∀ st, f.setup.arrayStatus = some st →
        ∀ (k : Nat) (o : RowOutcome), (f.outcomes cv s.cols)[k]? = some o → o.written = none →
          st[k]? = some o.status := by
  generalize hos : f.outcomes cv s.cols = os
  obtain ⟨hr, hlen, hstatus, hproc⟩ := fetchCall_rowset hos hird h hpass hans
  constructor
  · intro law
    refine ⟨?_, fun st hst k o ho hw ↦ ?_⟩
    · by_cases hnil : os = []
      · exact .inl (by simp [hnil])
      · refine (rowsetRet_law hnil).mp ?_
        rw [← hr]
        exact ⟨law.success hnil, law.withInfo hnil, law.error hnil⟩
    · rw [hst, Option.map_some] at hstatus
      have hk := (law.status _ hstatus).1 k o ho
      have hklt : k < os.length := (List.getElem?_eq_some_iff.mp ho).1
      rw [finalStatus_getElem?, if_neg (by omega)] at hk
      simpa [ho, hw] using hk
  · rintro ⟨hcode, hst⟩
    have hlaw : os ≠ [] → _ := fun hnil ↦ (rowsetRet_law hnil).mpr hcode
    rw [← hr] at hlaw
    refine ⟨fun h ↦ (hlaw h).1, fun h ↦ (hlaw h).2.1, fun h ↦ (hlaw h).2.2, fun st' hst' ↦ ?_,
      fun m hm ↦ ?_⟩
    · rw [hstatus] at hst'
      obtain ⟨st, hcst, rfl⟩ := Option.map_eq_some_iff.mp hst'
      have hstlen := f.setup.arrayStatus_length st hcst
      refine ⟨fun k o ho ↦ ?_, fun k hk hkn ↦ ?_⟩
      · have hklt : k < os.length := (List.getElem?_eq_some_iff.mp ho).1
        have hk : st[k]? = some st[k] := List.getElem?_eq_getElem (by omega)
        rw [finalStatus_getElem?, if_neg (by omega), hk, ho]
        cases hw : o.written with
        | none =>
          have := hst st hcst k o ho hw
          simp only [hk, Option.some.injEq] at this
          simp [this, hw]
        | some x => simp [hw, RowOutcome.written_eq_status hw]
      · rw [finalStatus_getElem?, if_pos ⟨hk, hkn⟩, List.getElem?_eq_getElem (by omega)]
        rfl
    · rw [hproc] at hm
      obtain ⟨_, -, rfl⟩ := Option.map_eq_some_iff.mp hm
      rfl

/-- Two clean rows in a rowset of three. -/
theorem fetch_law_clean : ∃ (s : Stmt Unit) (f : Fetched Unit) (s' : Stmt Unit),
    attachAnswer (.init [] () []) (jsonAnswer [[0x61]] [[.longLong 1], [.longLong 2]] []) =
      .done (.success, s) ∧
    FetchCall .accept s f s' ∧ f.outcomes .accept s.cols = [.untouched, .untouched] ∧
    RowsetLaw 3 [.untouched, .untouched] f.ret s' := by
  obtain ⟨s, f, s', ha, h, hird, hpass, hreq, hn, hst, hos⟩ := exists_call .accept (.init [] () [])
    (jsonAnswer [[0x61]] [[.longLong 1], [.longLong 2]] []) (.rows 2)
    (fun s f _ ↦ s.ird ≠ [] ∧ f.turns ≠ [] ∧ (∀ l ∈ f.turns, ¬l.Requests) ∧
      f.setup.ard.arraySize = 3 ∧ f.setup.arrayStatus = none ∧
      f.outcomes .accept s.cols = [.untouched, .untouched]) (by decide +kernel)
  refine ⟨s, f, s', ha, h, hos, ?_⟩
  rw [← hn, ← hos]
  refine (fetch_law .accept hird h hpass fun l hl hr ↦ absurd hr (hreq l hl)).mpr ⟨.inl ?_, ?_⟩
  · rw [hos]
    decide
  · rw [hst]
    nofun

/-- A clean row and a failed one: the code of the call does not tell. -/
theorem fetch_mixed : ∃ (s : Stmt Unit) (f : Fetched Unit) (s' : Stmt Unit),
    attachAnswer (.init [] () []) (jsonAnswer [[0x61]] [[.longLong 1], []] []) =
      .done (.success, s) ∧
    FetchCall .accept s f s' ∧ f.outcomes .accept s.cols = [.untouched, .rejected] ∧
    ¬RowsetLaw f.setup.ard.arraySize (f.outcomes .accept s.cols) f.ret s' := by
  obtain ⟨s, f, s', ha, h, hos, hret⟩ := exists_call .accept (.init [] () [])
    (jsonAnswer [[0x61]] [[.longLong 1], []] []) (.rows 1)
    (fun s f _ ↦ f.outcomes .accept s.cols = [.untouched, .rejected] ∧ f.ret = .success)
    (by decide +kernel)
  refine ⟨s, f, s', ha, h, hos, fun law ↦ ?_⟩
  rw [hos, hret] at law
  have := (law.success (List.cons_ne_nil _ _)).mp rfl .rejected (by simp)
  cases this

end EsOdbc
