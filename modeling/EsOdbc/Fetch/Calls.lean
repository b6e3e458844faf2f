import EsOdbc.Fetch.Loop

/-!
# Successive fetches

A fetch among others: between two of them the application may do anything to its own side
(`Setup`).  What is kept of a call is its code and the states in which its loop took its
turns; the rows it processed and what became of them are read off these.
-/

namespace EsOdbc

variable {σ : Type}

/-- What the application may set between two fetches: buffers and bindings, the rowset with
its status array, and the state that calls of `SQLGetData` leave. -/
structure Setup (σ : Type) where
  ard : Ard
  arrayStatus : Option (List RowStatus)
  rowsProcessed : Option Nat
  app : σ
  /-- A column was bound, which resets the result of the type check. -/
  rebound : Bool
  gdCol : Int
  gdCtype : Int
  /-- `EsSQLSetDescFieldW` refuses a size of zero. -/
  arraySize_pos : 0 < ard.arraySize
  /-- The array the application provides has an element for each row. -/
  arrayStatus_length : ∀ st, arrayStatus = some st → st.length = ard.arraySize

def Setup.apply (c : Setup σ) (s : Stmt σ) : Stmt σ :=
  { s with
    ard := c.ard, arrayStatus := c.arrayStatus, rowsProcessed := c.rowsProcessed, app := c.app
    sql2cConversion := if c.rebound then .unchecked else s.sql2cConversion
    gdCol := c.gdCol, gdCtype := c.gdCtype }

/-- One fetch: what the application did before, what the call came to, and the states in
which its loop took its turns. -/
structure Fetched (σ : Type) where
  setup : Setup σ
  ret : SqlReturn
  turns : List (FetchLoop σ)

/-- The states in which the loop of a fetch takes its turns; there are none when the checks
in front of it fail. -/
def Stmt.fetchTurns (cv : Converters σ) (s : Stmt σ) : List (FetchLoop σ) :=
  match fetchChecks s with
  | .done (none, t) => EsOdbc.fetchTurns cv t.fetchStart.fuel t.fetchStart
  | _ => []

/-- The row that a turn processes, if it does. -/
def FetchLoop.row (l : FetchLoop σ) : Option Row :=
  if l.i < l.stmt.ard.arraySize then (l.stmt.rset.rows l.packJson).head? else none

/-- The turn asks the server for the next page. -/
def FetchLoop.Requests (l : FetchLoop σ) : Prop :=
  l.i < l.stmt.ard.arraySize ∧ l.stmt.rset.rows l.packJson = [] ∧ l.stmt.hasCursor = true

instance (l : FetchLoop σ) : Decidable l.Requests := by
  unfold FetchLoop.Requests
  infer_instance

theorem FetchLoop.row_of_rows {l : FetchLoop σ} (hi : l.i < l.stmt.ard.arraySize) {row : Row}
    {rows : List Row} (hrow : l.stmt.rset.rows l.packJson = row :: rows) : l.row = some row := by
  rw [FetchLoop.row, if_pos hi, hrow]
  rfl

theorem FetchLoop.row_of_nil {l : FetchLoop σ} (hrow : l.stmt.rset.rows l.packJson = []) :
    l.row = none := by
  rw [FetchLoop.row, hrow]
  split_ifs <;> rfl

namespace Fetched

/-- The rows that a fetch processed. -/
def rows (f : Fetched σ) : List Row := f.turns.flatMap fun l ↦ l.row.toList

end Fetched

/-- A call of `EsSQLFetch`. -/
def FetchCall (cv : Converters σ) (s : Stmt σ) (f : Fetched σ) (s' : Stmt σ) : Prop :=
  esSQLFetch cv (f.setup.apply s) = .done (f.ret, s') ∧
    f.turns = (f.setup.apply s).fetchTurns cv

/-- With a result set, the checks fail with an error and leave all but the verdict of the
type check and the diagnostic. -/
theorem fetchChecks_some {s t : Stmt σ} {r : SqlReturn} (hb : s.hasResultset = true)
    (h : fetchChecks s = .done (some r, t)) :
    r = .error ∧ t = { s with diag := t.diag, sql2cConversion := t.sql2cConversion } := by
  unfold fetchChecks at h
  rw [hb, Bool.not_true, if_neg Bool.false_ne_true] at h
  split at h
  · cases h; exact ⟨rfl, rfl⟩
  · cases h; exact ⟨rfl, rfl⟩
  · cases h
  · cases h
  · obtain ⟨⟨r', t'⟩, ht, h⟩ := Exec.bind_eq_done.mp h
    obtain ⟨c, -, ht⟩ := Exec.bind_eq_done.mp ht
    injection ht with ht
    dsimp only at h ht
    split_ifs at h with hr
    · cases h
    · cases h
      cases c <;> cases ht
      · exact ⟨rfl, rfl⟩
      · exact ⟨rfl, rfl⟩
      all_goals exact absurd rfl hr

/-- A fetch ends at its checks, or is a run of turns and a last turn. -/
theorem esSQLFetch_cases {cv : Converters σ} {s s' : Stmt σ} {r : SqlReturn}
    (h : esSQLFetch cv s = .done (r, s')) :
    (fetchChecks s = .done (some r, s') ∧ s.fetchTurns cv = []) ∨
    ∃ t ls l, fetchChecks s = .done (none, t) ∧ s.fetchTurns cv = ls ++ [l] ∧
      Run (Next cv) t.fetchStart ls l ∧ Ends cv l r s' := by
  unfold esSQLFetch at h
  obtain ⟨⟨c, t⟩, hc, h⟩ := Exec.bind_eq_done.mp h
  cases c with
  | some r' =>
    cases h
    exact .inl ⟨hc, by rw [Stmt.fetchTurns, hc]⟩
  | none =>
    obtain ⟨ls, l, hls, hrun, hend⟩ := fetchLoop_run h
    exact .inr ⟨t, ls, l, hc, by rw [Stmt.fetchTurns, hc]; exact hls, hrun, hend⟩

/-! ## Running calls -/

/-- Fetches in a row, with what the application does before each. -/
def fetchCalls (cv : Converters σ) : List (Setup σ) → Stmt σ → Exec (List (Fetched σ) × Stmt σ)
  | [], s => .done ([], s)
  | c :: cs, s => (esSQLFetch cv (c.apply s)).bind fun (ret, s') ↦
    (fetchCalls cv cs s').bind fun (fs, s'') ↦
      .done (⟨c, ret, (c.apply s).fetchTurns cv⟩ :: fs, s'')

theorem fetchCalls_run {cv : Converters σ} {cs : List (Setup σ)} {s s' : Stmt σ}
    {fs : List (Fetched σ)} (h : fetchCalls cv cs s = .done (fs, s')) :
    Run (FetchCall cv) s fs s' := by
  induction cs generalizing s fs with
  | nil => cases h; exact .nil _
  | cons c cs ih =>
    obtain ⟨⟨r, t⟩, ht, h⟩ := Exec.bind_eq_done.mp h
    obtain ⟨⟨gs, t'⟩, hgs, h⟩ := Exec.bind_eq_done.mp h
    cases h
    exact .cons ⟨ht, rfl⟩ (ih hgs)

/-- A run from an answer on, found by running it. -/
theorem exists_run (cv : Converters σ) (s₀ : Stmt σ) (a : Answer) (cs : List (Setup σ))
    (P : Stmt σ → List (Fetched σ) → Stmt σ → Prop) [∀ s fs s', Decidable (P s fs s')]
    (h : ((attachAnswer s₀ a).bind fun (r, s) ↦ (fetchCalls cv cs s).bind fun (fs, s') ↦
      .done (r == .success && decide (P s fs s'))) = .done true) :
    ∃ s fs s', attachAnswer s₀ a = .done (.success, s) ∧ Run (FetchCall cv) s fs s' ∧
      P s fs s' := by
  obtain ⟨⟨r, s⟩, ha, h⟩ := Exec.bind_eq_done.mp h
  obtain ⟨⟨fs, s'⟩, hr, h⟩ := Exec.bind_eq_done.mp h
  simp only [Exec.done.injEq, Bool.and_eq_true, beq_iff_eq, decide_eq_true_eq] at h
  exact ⟨s, fs, s', h.1 ▸ ha, fetchCalls_run hr, h.2⟩

/-- A call after an answer, found by running it. -/
theorem exists_call (cv : Converters σ) (s₀ : Stmt σ) (a : Answer) (c : Setup σ)
    (P : Stmt σ → Fetched σ → Stmt σ → Prop) [∀ s f s', Decidable (P s f s')]
    (h : ((attachAnswer s₀ a).bind fun (r, s) ↦ (esSQLFetch cv (c.apply s)).bind fun (ret, s') ↦
      .done (r == .success && decide (P s ⟨c, ret, (c.apply s).fetchTurns cv⟩ s'))) =
        .done true) :
    ∃ s f s', attachAnswer s₀ a = .done (.success, s) ∧ FetchCall cv s f s' ∧ P s f s' := by
  obtain ⟨⟨r, s⟩, ha, h⟩ := Exec.bind_eq_done.mp h
  obtain ⟨⟨ret, s'⟩, hr, h⟩ := Exec.bind_eq_done.mp h
  simp only [Exec.done.injEq, Bool.and_eq_true, beq_iff_eq, decide_eq_true_eq] at h
  exact ⟨s, _, s', h.1 ▸ ha, ⟨hr, rfl⟩, h.2⟩

/-- A rowset of `n + 1` rows, without bindings. -/
def Setup.rows (n : Nat) : Setup Unit where
  ard := ⟨n + 1, []⟩
  arrayStatus := none
  rowsProcessed := none
  app := ()
  rebound := false
  gdCol := -1
  gdCtype := 0
  arraySize_pos := n.succ_pos
  arrayStatus_length := nofun

/-- Converters that accept every value. -/
def Converters.accept : Converters Unit where
  sql2cString _ _ _ _ _ _ := (.s00000, ())
  sql2cLonglong _ _ _ _ _ _ := (.s00000, ())
  sql2cQuadword _ _ _ _ _ _ := (.s00000, ())
  sql2cDouble _ _ _ _ _ _ := (.s00000, ())
  storeNull _ _ _ := ()

/-! ## Counting rows -/

/-- The turns count the rows they process. -/
theorem next_count {cv : Converters σ} {l o l' : FetchLoop σ} (hl : l.stmt.Ready)
    (h : Next cv l o l') : l'.stmt.Ready ∧ l'.i = l.i + o.row.toList.length := by
  refine ⟨h.ready hl, ?_⟩
  obtain ⟨rfl, h⟩ := h
  have ht := fetchTurn_turned cv hl.gd
  rw [h] at ht
  cases ht with
  | row hi _ hrow _ =>
    rw [FetchLoop.row_of_rows hi hrow]
    rfl
  | page hi hrow _ _ _ _ =>
    rw [FetchLoop.row_of_nil hrow]
    rfl

/-- A turn that leaves the loop processes no row, and the code after the loop changes the
counter of the rows only. -/
theorem ends_cases {cv : Converters σ} {l : FetchLoop σ} (hl : l.stmt.Ready) {r : SqlReturn}
    {s : Stmt σ} (h : Ends cv l r s) :
    l.row = none ∧ ((∃ l', fetchTurn cv l = .leave l' ∧ l'.i = l.i ∧ l'.errors = l.errors ∧
      fetchEnd l' = (r, s)) ∨ (fetchTurn cv l = .ret r s ∧ r.succeeded = false)) := by
  have ht := fetchTurn_turned cv hl.gd
  rcases h with ⟨l', h, hend⟩ | h
  · rw [h] at ht
    cases ht with
    | full hfull =>
      refine ⟨?_, .inl ⟨_, h, rfl, rfl, hend⟩⟩
      rw [FetchLoop.row, if_neg (Nat.not_lt.mpr hfull)]
    | last hi hrow _ => exact ⟨FetchLoop.row_of_nil hrow, .inl ⟨_, h, rfl, rfl, hend⟩⟩
    | emptyPage hi hrow _ _ _ _ => exact ⟨FetchLoop.row_of_nil hrow, .inl ⟨_, h, rfl, rfl, hend⟩⟩
  · rw [h] at ht
    cases ht with
    | requestFailed hi hrow _ _ hret => exact ⟨FetchLoop.row_of_nil hrow, .inr ⟨h, hret⟩⟩

/-- The code after the loop changes the counter of the rows, and finds no data when there
is no row in the rowset. -/
theorem fetchEnd_eq {l : FetchLoop σ} {r : SqlReturn} {s : Stmt σ} (h : fetchEnd l = (r, s)) :
    s = { l.stmt with rowsProcessed := l.stmt.rowsProcessed.map fun _ ↦ l.i } ∧
      (r = .noData ↔ l.i = 0) := by
  unfold fetchEnd at h
  dsimp only at h
  split_ifs at h with h0 he <;> cases h
  · exact ⟨rfl, by simp [h0]⟩
  · exact ⟨rfl, by simp [h0]⟩
  · exact ⟨rfl, by simp [h0]⟩

/-- The number of the rows that a run of turns processes. -/
theorem run_count {cv : Converters σ} {l l' : FetchLoop σ} {ls : List (FetchLoop σ)}
    (hl : l.stmt.Ready) (h : Run (Next cv) l ls l') :
    l'.stmt.Ready ∧ l'.i = l.i + (ls.flatMap fun o ↦ o.row.toList).length := by
  let I : FetchLoop σ → Prop := fun l ↦ l.stmt.Ready
  have hI : ∀ l o l', I l → Next cv l o l' → I l' ∧ l'.i = l.i + o.row.toList.length :=
    fun _ _ _ ↦ next_count
  have hl' : I l' := h.invariant (fun l o l' hl h ↦ (hI l o l' hl h).1) hl
  refine ⟨hl', ?_⟩
  rw [h.count (fun o ↦ o.row.toList.length) FetchLoop.i hI hl, List.length_flatMap]

end EsOdbc
