import EsOdbc.AttachFrame
import EsOdbc.Lib.Run
import EsOdbc.RowView

/-!
# The turns of the fetch loop

What one turn of the loop of `EsSQLFetch` can do, said once: take a row
(`fetchTurn_row`), find none (`fetchTurn_none`), or stop at a full rowset.  A fetch is a
run of turns (`fetchLoop_run`), and everything about it is derived from `Turned`.  The fuel
of the loop always suffices (`esSQLFetch_ne_exhausted`): a fetch terminates on any answers.
-/

namespace EsOdbc

open Cbor (Item)

variable {σ : Type}

/-! ## Rows -/

/-- An element of a "rows" array. -/
inductive Row where
  | json (v : UJValue)
  | cbor (x : Item)
deriving Repr

/-- The row in a result set with `ncols` columns. -/
def Row.view (ncols : Nat) : Row → RowView
  | .json v => viewJson ncols v
  | .cbor x => viewCbor ncols x

/-- The rows that an iterator of the format still has in front of it. -/
def Resultset.rows (r : Resultset) (packJson : Bool) : List Row :=
  if packJson then r.json.rowsIter.map .json else r.cbor.rowsIter.map .cbor

/-- The result set after a row of the format has been processed. -/
def Resultset.stepRow (r : Resultset) (packJson : Bool) (ncols : Nat) : Resultset :=
  if packJson then
    { r with
      json := { r.json with
        rowsIter := r.json.rowsIter.tail, rowArray := r.json.rowsIter.headD .null }
      vrows := r.vrows + 1 }
  else
    { r with
      cbor := { r.cbor with rowsIter := cborNext ncols r.cbor.rowsIter }
      vrows := r.vrows + 1 }

namespace FetchLoop

/-- What becomes of the row that the loop is at. -/
def rowOutcome (cv : Converters σ) (l : FetchLoop σ) (row : Row) : RowOutcome × σ :=
  l.stmt.outcome cv l.i (row.view l.stmt.ird.length)

/-- The loop after a row; the diagnostic and the values in the IRD are left open. -/
def afterRow (cv : Converters σ) (l : FetchLoop σ) (row : Row) (d : Diag)
    (recs : List IRec) : FetchLoop σ :=
  let o := l.rowOutcome cv row
  { l with
    stmt := { l.stmt with
      diag := d
      ird := recs
      arrayStatus := o.1.mark l.i l.stmt.arrayStatus
      app := o.2
      tvRows := l.stmt.tvRows + 1
      rset := l.stmt.rset.stepRow l.packJson l.stmt.ird.length }
    i := l.i + 1
    errors := if o.1.ret.succeeded then l.errors else l.errors + 1 }

end FetchLoop

theorem Resultset.packJson_stepRow (r : Resultset) (packJson : Bool) (ncols : Nat) :
    (r.stepRow packJson ncols).packJson = r.packJson := by
  unfold stepRow
  split_ifs <;> rfl

theorem Resultset.body_stepRow (r : Resultset) (packJson : Bool) (ncols : Nat) :
    (r.stepRow packJson ncols).body = r.body := by
  unfold stepRow
  split_ifs <;> rfl

theorem FetchLoop.hasCursor_afterRow (cv : Converters σ) (l : FetchLoop σ) (row : Row) (d : Diag)
    (recs : List IRec) : (l.afterRow cv row d recs).stmt.hasCursor = l.stmt.hasCursor := by
  simp only [Stmt.hasCursor, afterRow, Resultset.stepRow]
  split_ifs <;> rfl

theorem FetchLoop.owned_afterRow (cv : Converters σ) (l : FetchLoop σ) (row : Row) (d : Diag)
    (recs : List IRec) : (l.afterRow cv row d recs).stmt.owned = l.stmt.owned := by
  simp only [Stmt.owned, afterRow, Resultset.stepRow]
  split_ifs <;> rfl

/-! ## One turn -/

theorem fetchTurn_full {cv : Converters σ} {l : FetchLoop σ}
    (h : ¬l.i < l.stmt.ard.arraySize) : fetchTurn cv l = .leave l := by
  rw [fetchTurn, if_neg h]

/-- A turn that finds a row in the format it reads. -/
theorem fetchTurn_row (cv : Converters σ) {l : FetchLoop σ} (hgd : l.stmt.gdCalling = false)
    (hi : l.i < l.stmt.ard.arraySize) (hfmt : l.packJson = true → l.stmt.rset.packJson = true)
    {row : Row} {rows : List Row} (hrow : l.stmt.rset.rows l.packJson = row :: rows) :
    ∃ d recs, recs.map IRec.desc = l.stmt.ird.map IRec.desc ∧
      fetchTurn cv l = .next (l.afterRow cv row d recs) := by
  obtain ⟨t, packJson, i, errors⟩ := l
  dsimp only at hgd hi hfmt hrow
  cases packJson with
  | true =>
    rw [Resultset.rows, if_pos rfl] at hrow
    cases hit : t.rset.json.rowsIter with
    | nil => rw [hit] at hrow; cases hrow
    | cons v vs =>
      rw [hit] at hrow
      cases hrow
      let s : Stmt σ := { t with rset := { t.rset with json :=
        { t.rset.json with rowsIter := vs, rowArray := v } } }
      obtain ⟨d, recs, hdesc, hrun⟩ := s.unpackOneRowJson_eq cv i hgd
      have hpoll : t.pollRow true = .done (false, s) := by
        rw [Stmt.pollRow, if_pos rfl, if_pos (hfmt rfl), hit]
      refine ⟨d, recs, hdesc, ?_⟩
      rw [fetchTurn, if_pos hi, hpoll]
      simp only [Stmt.unpackOneRow, if_true, hrun, FetchLoop.afterRow, Resultset.stepRow, hit,
        List.tail_cons, List.headD_cons]
      rfl
  | false =>
    rw [Resultset.rows, if_neg Bool.false_ne_true] at hrow
    cases hit : t.rset.cbor.rowsIter with
    | nil => rw [hit] at hrow; cases hrow
    | cons x xs =>
      rw [hit] at hrow
      cases hrow
      obtain ⟨d, recs, hdesc, hrun⟩ := t.unpackOneRowCbor_eq cv i hgd hit
      have hpoll : t.pollRow false = .done (false, t) := by
        rw [Stmt.pollRow, if_neg Bool.false_ne_true, hit]
        rfl
      refine ⟨d, recs, hdesc, ?_⟩
      rw [fetchTurn, if_pos hi, hpoll]
      simp only [Stmt.unpackOneRow, Bool.false_eq_true, if_false, hrun, FetchLoop.afterRow,
        Resultset.stepRow, hit]
      rfl

/-- A turn that finds no row. -/
theorem fetchTurn_none (cv : Converters σ) {l : FetchLoop σ} (hi : l.i < l.stmt.ard.arraySize)
    (hfmt : l.packJson = true → l.stmt.rset.packJson = true)
    (hrow : l.stmt.rset.rows l.packJson = []) :
    fetchTurn cv l =
      if l.stmt.hasCursor then
        match l.stmt.esSQLExecute with
        | .undefined | .exhausted => .undefined
        | .done (ret, s) =>
          if !ret.succeeded then .ret ret s
          else if !s.nodataForced then .next { l with stmt := s }
          else .leave { l with stmt := s.setNorow l.i }
      else .leave { l with stmt := l.stmt.setNorow l.i } := by
  obtain ⟨t, packJson, i, errors⟩ := l
  dsimp only at hi hfmt hrow
  rw [fetchTurn, if_pos hi, Stmt.pollRow]
  cases packJson with
  | true =>
    simp only [Resultset.rows, if_true, List.map_eq_nil_iff] at hrow
    simp only [if_true, hfmt rfl, hrow] <;> rfl
  | false =>
    simp only [Resultset.rows, Bool.false_eq_true, if_false, List.map_eq_nil_iff] at hrow
    simp only [Bool.false_eq_true, if_false, hrow, List.isEmpty_nil] <;> rfl

theorem fetchTurn_undefined (cv : Converters σ) {l : FetchLoop σ}
    (hi : l.i < l.stmt.ard.arraySize) (hp : l.packJson = true)
    (hfmt : l.stmt.rset.packJson = false) : fetchTurn cv l = .undefined := by
  rw [fetchTurn, if_pos hi, Stmt.pollRow, hp]
  simp [hfmt]

/-- What requesting a page can do: nothing, if the statement had been executed early;
fail; or attach the next answer. -/
theorem esSQLExecute_cases {s s' : Stmt σ} {r : SqlReturn}
    (h : s.esSQLExecute = .done (r, s')) :
    (s.earlyExecuted = true ∧ r = .success ∧ s' = { s with earlyExecuted := false }) ∨
    (r = .error ∧ ∃ d rs, rs <:+ s.replies ∧
      s' = { s with earlyExecuted := false, diag := d, replies := rs }) ∨
    ∃ a rest, s.replies = .answer a :: rest ∧
      attachAnswer { s with earlyExecuted := false, replies := rest } a = .done (r, s') := by
  unfold Stmt.esSQLExecute at h
  dsimp only at h
  split_ifs at h with he hc
  · cases h
    simp only [Bool.and_eq_true] at he
    exact .inl ⟨he.1, rfl, rfl⟩
  · unfold Stmt.curlPost at h
    split at h
    · rename_i a rest hr
      exact .inr (.inr ⟨a, rest, hr, h⟩)
    · rename_i rest hr
      cases h
      refine .inr (.inl ⟨rfl, _, rest, ?_, rfl⟩)
      change s.replies = .failed :: rest at hr
      exact hr ▸ List.suffix_cons _ _
    · cases h
      exact .inr (.inl ⟨rfl, _, s.replies, List.suffix_rfl, rfl⟩)
  · cases h
    exact .inr (.inl ⟨rfl, _, s.replies, List.suffix_rfl, rfl⟩)

/-! ## The loop -/

/-- A statement that a fetch can run on: it has a result set, and `SQLGetData` is not
being served. -/
structure Stmt.Ready (s : Stmt σ) : Prop where
  resultset : s.hasResultset = true
  gd : s.gdCalling = false

theorem Stmt.Ready.of_attach {isJson : Bool} {s s' : Stmt σ} (h : s.Ready)
    (hf : AttachFrame isJson s s') : s'.Ready := by
  refine ⟨hf.body, ?_⟩
  rcases hf.gdCol with hg | hg <;> simp only [Stmt.gdCalling, hg]
  · exact h.gd
  · rfl

theorem attachAnswer_frame_of_ready {s : Stmt σ} (h : s.Ready) (a : Answer) :
    attachAnswer s a ≠ .exhausted ∧
      ∀ r s', attachAnswer s a = .done (r, s') → AttachFrame a.isJson s s' :=
  attachAnswer_frame s a fun h' ↦ by rw [h.resultset] at h'; cases h'

/-- What a turn leads to, with the reasons. -/
inductive Turned (cv : Converters σ) (l : FetchLoop σ) : FetchTurn σ → Prop where
  | full (h : l.stmt.ard.arraySize ≤ l.i) : Turned cv l (.leave l)
  | otherFormat (hi : l.i < l.stmt.ard.arraySize) (hp : l.packJson = true)
      (hfmt : l.stmt.rset.packJson = false) : Turned cv l .undefined
  | row (hi : l.i < l.stmt.ard.arraySize) {row : Row} {rows : List Row} {d : Diag}
      {recs : List IRec} (hfmt : l.packJson = true → l.stmt.rset.packJson = true)
      (hrow : l.stmt.rset.rows l.packJson = row :: rows)
      (hdesc : recs.map IRec.desc = l.stmt.ird.map IRec.desc) :
      Turned cv l (.next (l.afterRow cv row d recs))
  | last (hi : l.i < l.stmt.ard.arraySize) (hrow : l.stmt.rset.rows l.packJson = [])
      (hcurs : l.stmt.hasCursor = false) :
      Turned cv l (.leave { l with stmt := l.stmt.setNorow l.i })
  | requestUndefined (hi : l.i < l.stmt.ard.arraySize)
      (hrow : l.stmt.rset.rows l.packJson = []) (hcurs : l.stmt.hasCursor = true)
      (hexec : ∀ x, l.stmt.esSQLExecute ≠ .done x) : Turned cv l .undefined
  | requestFailed (hi : l.i < l.stmt.ard.arraySize) {ret : SqlReturn} {s : Stmt σ}
      (hrow : l.stmt.rset.rows l.packJson = []) (hcurs : l.stmt.hasCursor = true)
      (hexec : l.stmt.esSQLExecute = .done (ret, s)) (hret : ret.succeeded = false) :
      Turned cv l (.ret ret s)
  | page (hi : l.i < l.stmt.ard.arraySize) {ret : SqlReturn} {s : Stmt σ}
      (hrow : l.stmt.rset.rows l.packJson = []) (hcurs : l.stmt.hasCursor = true)
      (hexec : l.stmt.esSQLExecute = .done (ret, s)) (hret : ret.succeeded = true)
      (hnodata : s.nodataForced = false) :
      Turned cv l (.next { l with stmt := s })
  | emptyPage (hi : l.i < l.stmt.ard.arraySize) {ret : SqlReturn} {s : Stmt σ}
      (hrow : l.stmt.rset.rows l.packJson = []) (hcurs : l.stmt.hasCursor = true)
      (hexec : l.stmt.esSQLExecute = .done (ret, s)) (hret : ret.succeeded = true)
      (hnodata : s.nodataForced = true) :
      Turned cv l (.leave { l with stmt := s.setNorow l.i })

theorem fetchTurn_turned (cv : Converters σ) {l : FetchLoop σ}
    (hgd : l.stmt.gdCalling = false) : Turned cv l (fetchTurn cv l) := by
  by_cases hi : l.i < l.stmt.ard.arraySize
  · by_cases hfmt : l.packJson = true → l.stmt.rset.packJson = true
    · cases hrow : l.stmt.rset.rows l.packJson with
      | cons row rows =>
        obtain ⟨d, recs, hdesc, h⟩ := fetchTurn_row cv hgd hi hfmt hrow
        rw [h]
        exact .row hi hfmt hrow hdesc
      | nil =>
        rw [fetchTurn_none cv hi hfmt hrow]
        cases hcurs : l.stmt.hasCursor with
        | false => exact .last hi hrow hcurs
        | true =>
          rw [if_pos rfl]
          cases hexec : l.stmt.esSQLExecute with
          | undefined => exact .requestUndefined hi hrow hcurs (by simp [hexec])
          | exhausted => exact .requestUndefined hi hrow hcurs (by simp [hexec])
          | done x =>
            obtain ⟨ret, s⟩ := x
            cases hret : ret.succeeded with
            | false => simpa [hret] using Turned.requestFailed hi hrow hcurs hexec hret
            | true =>
              cases hnodata : s.nodataForced with
              | false => simpa [hret, hnodata] using Turned.page hi hrow hcurs hexec hret hnodata
              | true =>
                simpa [hret, hnodata] using Turned.emptyPage hi hrow hcurs hexec hret hnodata
    · rw [Classical.not_imp, Bool.not_eq_true] at hfmt
      rw [fetchTurn_undefined cv hi hfmt.1 hfmt.2]
      exact .otherFormat hi hfmt.1 hfmt.2
  · rw [fetchTurn_full hi]
    exact .full (Nat.le_of_not_lt hi)

/-- A page that a turn requested: the statement stays ready, and either a reply is used
up or the early execution is. -/
theorem esSQLExecute_next {s s' : Stmt σ} {r : SqlReturn} (hs : s.Ready)
    (h : s.esSQLExecute = .done (r, s')) (hr : r.succeeded = true) :
    s'.Ready ∧ s'.ard = s.ard ∧
      s'.replies.length + (if s'.earlyExecuted then 1 else 0) <
        s.replies.length + (if s.earlyExecuted then 1 else 0) := by
  rcases esSQLExecute_cases h with ⟨he, -, rfl⟩ | ⟨rfl, -⟩ | ⟨a, rest, hrep, hat⟩
  · exact ⟨⟨hs.resultset, hs.gd⟩, rfl, by simp [he]⟩
  · cases hr
  · have hs₀ : ({ s with earlyExecuted := false, replies := rest } : Stmt σ).Ready :=
      ⟨hs.resultset, hs.gd⟩
    have hf := (attachAnswer_frame_of_ready hs₀ a).2 r s' hat
    refine ⟨hs₀.of_attach hf, hf.ard, ?_⟩
    rw [hf.replies, hf.earlyExecuted, hrep]
    simp only [Bool.false_eq_true, if_false, List.length_cons]
    omega

theorem fetchTurn_next {cv : Converters σ} {l l' : FetchLoop σ}
    (hl : l.stmt.Ready) (h : fetchTurn cv l = .next l') :
    l'.stmt.Ready ∧ l'.fuel < l.fuel := by
  have ht := fetchTurn_turned cv hl.gd
  rw [h] at ht
  cases ht with
  | row hi _ _ _ =>
    refine ⟨⟨?_, hl.gd⟩, ?_⟩
    · change (l.stmt.rset.stepRow l.packJson _).body = true
      unfold Resultset.stepRow
      split <;> exact hl.resultset
    · change l.stmt.ard.arraySize - (l.i + 1) + l.stmt.replies.length +
        (if l.stmt.earlyExecuted then 1 else 0) + 1 < l.fuel
      rw [FetchLoop.fuel]
      omega
  | @page hi _ s hrow hcurs hexec hret hnodata =>
    obtain ⟨hready, hard, hlt⟩ := esSQLExecute_next hl hexec hret
    refine ⟨hready, ?_⟩
    change s.ard.arraySize - l.i + s.replies.length + (if s.earlyExecuted then 1 else 0) + 1 <
      l.fuel
    rw [FetchLoop.fuel, hard]
    omega

/-- With enough fuel the loop comes to an end. -/
theorem fetchLoop_ne_exhausted (cv : Converters σ) (fuel : Nat)
    (l : FetchLoop σ) (hl : l.stmt.Ready) (hfuel : l.fuel ≤ fuel) :
    fetchLoop cv fuel l ≠ .exhausted := by
  induction fuel generalizing l with
  | zero => simp [FetchLoop.fuel] at hfuel
  | succ fuel ih =>
    rw [fetchLoop]
    cases h : fetchTurn cv l with
    | next l' =>
      obtain ⟨hl', hlt⟩ := fetchTurn_next hl h
      exact ih l' hl' (by omega)
    | leave l' => nofun
    | ret r s => nofun
    | undefined => nofun

/-- A turn that is not the last one. -/
def Next (cv : Converters σ) (l o l' : FetchLoop σ) : Prop := o = l ∧ fetchTurn cv l = .next l'

/-- A last turn, with what the call comes to. -/
def Ends (cv : Converters σ) (l : FetchLoop σ) (r : SqlReturn) (s : Stmt σ) : Prop :=
  (∃ l', fetchTurn cv l = .leave l' ∧ fetchEnd l' = (r, s)) ∨ fetchTurn cv l = .ret r s

/-- The states in which the loop takes its turns. -/
def fetchTurns (cv : Converters σ) : Nat → FetchLoop σ → List (FetchLoop σ)
  | 0, _ => []
  | fuel + 1, l => l :: match fetchTurn cv l with
    | .next l => fetchTurns cv fuel l
    | _ => []

/-- A loop that comes to an end is a run of turns and a last turn. -/
theorem fetchLoop_run {cv : Converters σ} {fuel : Nat} {l : FetchLoop σ} {r : SqlReturn}
    {s : Stmt σ} (h : fetchLoop cv fuel l = .done (r, s)) :
    ∃ ls l', fetchTurns cv fuel l = ls ++ [l'] ∧ Run (Next cv) l ls l' ∧ Ends cv l' r s := by
  induction fuel generalizing l with
  | zero => simp [fetchLoop] at h
  | succ fuel ih =>
    rw [fetchLoop] at h
    rw [fetchTurns]
    cases ht : fetchTurn cv l with
    | next l₁ =>
      rw [ht] at h
      obtain ⟨ls, l', hls, hrun, hend⟩ := ih h
      exact ⟨l :: ls, l', by simp only [hls, List.cons_append], .cons ⟨rfl, ht⟩ hrun, hend⟩
    | leave l₁ =>
      rw [ht] at h
      injection h with h
      exact ⟨[], l, rfl, .nil l, .inl ⟨l₁, ht, h⟩⟩
    | ret r₁ s₁ =>
      rw [ht] at h
      cases h
      exact ⟨[], l, rfl, .nil l, .inr ht⟩
    | undefined => rw [ht] at h; cases h

theorem Next.ready {cv : Converters σ} {l o l' : FetchLoop σ} (hl : l.stmt.Ready)
    (h : Next cv l o l') : l'.stmt.Ready := (fetchTurn_next hl h.2).1

/-! ## The checks in front -/

/-- The checks of a fetch leave the statement ready, and change nothing that a fetch
depends on. -/
theorem fetchChecks_none {s s₀ : Stmt σ} (h : fetchChecks s = .done (none, s₀)) :
    s₀.Ready ∧ s₀ = { s with
      gdCol := -1, gdCtype := 0, sql2cConversion := s₀.sql2cConversion } := by
  unfold fetchChecks at h
  cases hb : s.hasResultset with
  | false =>
    rw [hb, Bool.not_false, if_pos rfl] at h
    split_ifs at h <;> cases h
  | true =>
    rw [hb, Bool.not_true, if_neg Bool.false_ne_true] at h
    split at h
    · cases h
    · cases h
    · cases h; exact ⟨⟨hb, rfl⟩, rfl⟩
    · cases h; exact ⟨⟨hb, rfl⟩, rfl⟩
    · obtain ⟨⟨r, t⟩, ht, h⟩ := Exec.bind_eq_done.mp h
      obtain ⟨c, -, ht⟩ := Exec.bind_eq_done.mp ht
      injection ht with ht
      dsimp only at h ht
      split_ifs at h with hr
      · injection h with h
        injection h with _ h
        subst h
        cases c <;> cases ht
        · cases hr
        · cases hr
        all_goals exact ⟨⟨hb, rfl⟩, rfl⟩
      · cases h

theorem checkColumns_ne_exhausted (arecs : List ARec) (cols : List ColType) :
    checkColumns arecs cols ≠ .exhausted := by
  induction arecs generalizing cols with
  | nil => simp [checkColumns]
  | cons arec arecs ih =>
    cases cols with
    | nil => simp [checkColumns]
    | cons col cols =>
      rw [checkColumns]
      split
      · exact ih cols
      · split
        · nofun
        · nofun
        · split
          · exact ih cols
          · nofun

theorem fetchChecks_ne_exhausted (s : Stmt σ) : fetchChecks s ≠ .exhausted := by
  unfold fetchChecks
  split_ifs
  · nofun
  · nofun
  · split
    · nofun
    · nofun
    · nofun
    · nofun
    · refine Exec.bind_ne_exhausted ?_ fun ⟨_, _⟩ ↦ Exec.done_ne_exhausted _
      exact Exec.bind_ne_exhausted (checkColumns_ne_exhausted _ _) fun _ ↦
        Exec.done_ne_exhausted _

/-- A fetch always comes to an end. -/
theorem esSQLFetch_ne_exhausted (cv : Converters σ) (s : Stmt σ) :
    esSQLFetch cv s ≠ .exhausted := by
  unfold esSQLFetch
  cases h : fetchChecks s with
  | exhausted => exact absurd h (fetchChecks_ne_exhausted s)
  | undefined => nofun
  | done x =>
    match x with
    | (some r, t) => nofun
    | (none, t) =>
      exact fetchLoop_ne_exhausted cv _ t.fetchStart (fetchChecks_none h).1 le_rfl

end EsOdbc
