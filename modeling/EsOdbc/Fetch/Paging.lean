import EsOdbc.Fetch.Pages

/-!
# Every row once

The rows that the turns of a fetch process and those that are left always make up the same
list, as long as the loop reads the format its result set is in and its iterator gets past
each row.  From a turn (`next_conserves`, `ends_conserves`) this goes over to a call
(`fetchCall_conserves`) and to any number of calls (`fetch_pages`).
-/

namespace EsOdbc

variable {σ : Type}

/-! ## The turns that keep the law -/

namespace FetchLoop

/-- If the turn asks for a page, the request succeeds. -/
def Served (l : FetchLoop σ) : Prop :=
  l.Requests → l.stmt.cursorSerializable = true ∧ l.stmt.nextPage.isSome = true

/-- The iterator gets past the row, if the turn processes one. -/
def RowOk (l : FetchLoop σ) : Prop :=
  ∀ row ∈ l.row, row.consumable l.stmt.ird.length = true

/-- A page without rows that has a cursor comes in when there are rows in the rowset
already; one with rows is in the format that the loop reads or, if the loop reads CBOR, it
is the last one and comes in when there are rows in the rowset already. -/
def PageOk (l : FetchLoop σ) : Prop :=
  l.Requests → ∀ p ∈ l.stmt.nextPage,
    if p.rows = [] then p.cursor = true → 0 < l.i
    else p.json = l.packJson ∨ (l.packJson = false ∧ p.cursor = false ∧ 0 < l.i)

instance (l : FetchLoop σ) : Decidable l.Served := by unfold Served; infer_instance
instance (l : FetchLoop σ) : Decidable l.RowOk := by unfold RowOk; infer_instance
instance (l : FetchLoop σ) : Decidable l.PageOk := by unfold PageOk; infer_instance

/-- A turn that loses and repeats nothing. -/
structure Sound (l : FetchLoop σ) : Prop where
  served : l.Served
  row : l.RowOk
  page : l.PageOk

/-- What holds in front of every turn: the loop reads the format of the result set, or it
is about to end with the rows of another format untouched. -/
structure Sync (l : FetchLoop σ) : Prop where
  executed : l.stmt.Executed
  gd : l.stmt.gdCalling = false
  size : 0 < l.stmt.ard.arraySize
  format : l.packJson = l.stmt.rset.packJson ∨
    l.packJson = false ∧ l.stmt.rset.rows false = [] ∧ l.stmt.hasCursor = false ∧ 0 < l.i

theorem Served.page {l : FetchLoop σ} (h : l.Served) (hl : l.Sync) (hr : l.Requests) :
    ∃ p t, l.stmt.nextPage = some p ∧ l.stmt.esSQLExecute = .done (.success, t) ∧ Took p t ∧
      t.Executed ∧ t.gdCalling = false ∧ t.ard = l.stmt.ard ∧ t.left = l.stmt.left := by
  obtain ⟨hser, hp⟩ := h hr
  obtain ⟨p, hp⟩ := Option.isSome_iff_exists.mp hp
  obtain ⟨t, ht, htook, hex, hgd, hard, hleft⟩ := esSQLExecute_page hl.executed hl.gd hser hp
  refine ⟨p, t, hp, ht, htook, hex, hgd, hard, ?_⟩
  rw [hleft, Stmt.left, hr.2.2]
  rcases hl.format with hf | ⟨-, -, hc, -⟩
  · rw [← hf, hr.2.1, List.nil_append]
  · rw [hr.2.2] at hc
    cases hc

end FetchLoop

/-- One turn that goes on. -/
theorem next_conserves {cv : Converters σ} {l o l' : FetchLoop σ} (hl : l.Sync) (hok : o.Sound)
    (h : Next cv l o l') : l'.Sync ∧ o.row.toList ++ l'.stmt.left = l.stmt.left := by
  obtain ⟨rfl, h⟩ := h
  have ht := fetchTurn_turned cv hl.gd
  rw [h] at ht
  cases ht with
  | @row hi row rows d recs hfmt hrow hdesc =>
    have hlrow := FetchLoop.row_of_rows hi hrow
    have hf : o.packJson = o.stmt.rset.packJson := by
      rcases hl.format with hf | ⟨hf, hnil, -⟩
      · exact hf
      · rw [hf, hnil] at hrow
        cases hrow
    have hstep := (Resultset.rows_stepRow o.stmt.ird.length hrow).mpr (hok.row row hlrow)
    have hpack := Resultset.packJson_stepRow o.stmt.rset o.packJson o.stmt.ird.length
    have hird : recs ≠ [] := by
      rintro rfl
      exact hl.executed.ird (List.map_eq_nil_iff.mp hdesc.symm)
    refine ⟨⟨⟨?_, hl.executed.early, hird⟩, hl.gd, hl.size, .inl (hf.trans hpack.symm)⟩, ?_⟩
    · exact (Resultset.body_stepRow _ _ _).trans hl.executed.resultset
    · rw [hlrow, Stmt.left, Stmt.left, FetchLoop.hasCursor_afterRow, ← hf, hrow]
      simp only [FetchLoop.afterRow, hpack, ← hf, hstep]
      rfl
  | @page hi ret s hrow hcurs hexec hret hnodata =>
    have hreq : o.Requests := ⟨hi, hrow, hcurs⟩
    obtain ⟨p, t, hp, ht, htook, hex, hgd, hard, hleft⟩ := hok.served.page hl hreq
    rw [hexec] at ht
    cases ht
    have hne : p.rows ≠ [] := by
      intro hnil
      rw [htook.nodata, hnil] at hnodata
      cases hnodata
    have hpage := hok.page hreq p hp
    rw [if_neg hne] at hpage
    refine ⟨⟨hex, hgd, by rw [hard]; exact hl.size, ?_⟩, ?_⟩
    · rcases hpage with hj | ⟨hpack, hc, hpos⟩
      · exact .inl (hj.symm.trans htook.format.symm)
      · cases hjson : p.json with
        | false => exact .inl (by rw [hpack, ← hjson]; exact htook.format.symm)
        | true =>
          refine .inr ⟨hpack, ?_, htook.cursor.trans hc, hpos⟩
          have := htook.otherRows
          rwa [hjson] at this
    · rw [FetchLoop.row_of_nil hrow]
      exact hleft

theorem Stmt.Executed.of_rset {s t : Stmt σ} (h : s.Executed) (hr : t.rset = s.rset)
    (he : t.earlyExecuted = s.earlyExecuted) (hi : t.ird = s.ird) : t.Executed :=
  ⟨by rw [hasResultset, hr]; exact h.resultset, he.trans h.early, hi ▸ h.ird⟩

theorem Stmt.left_congr {s t : Stmt σ} (hr : t.rset = s.rset) (hs : t.replies = s.replies) :
    t.left = s.left := by
  simp only [left, hasCursor, hr, hs]

theorem Stmt.hasCursor_congr {s t : Stmt σ} (hr : t.rset = s.rset) : t.hasCursor = s.hasCursor := by
  simp only [hasCursor, hr]

/-- The last turn of a call. -/
theorem ends_conserves {cv : Converters σ} {l : FetchLoop σ} (hl : l.Sync) (hok : l.Sound)
    {r : SqlReturn} {s : Stmt σ} (h : Ends cv l r s) :
    s.Executed ∧ s.left = l.stmt.left ∧ (r = .noData ↔ l.i = 0) ∧ (r = .noData → s.Ended) := by
  have ht := fetchTurn_turned cv hl.gd
  rcases h with ⟨l', h, hend⟩ | h
  · obtain ⟨hs, hnodata⟩ := fetchEnd_eq hend
    -- the fields of the statement that the law is about are those in front of the code after it
    have hrset : s.rset = l'.stmt.rset := by rw [hs]
    have hreplies : s.replies = l'.stmt.replies := by rw [hs]
    have hearly : s.earlyExecuted = l'.stmt.earlyExecuted := by rw [hs]
    have hird : s.ird = l'.stmt.ird := by rw [hs]
    rw [Stmt.Ended, Stmt.left_congr hrset hreplies, Stmt.hasCursor_congr hrset, hnodata]
    rw [h] at ht
    cases ht with
    | full hfull =>
      refine ⟨hl.executed.of_rset hrset hearly hird, rfl, Iff.rfl, fun h0 ↦ ?_⟩
      exact absurd hl.size (by omega)
    | last hi hrow hcurs =>
      refine ⟨hl.executed.of_rset hrset hearly hird, rfl, Iff.rfl, fun h0 ↦ ⟨?_, hcurs⟩⟩
      rcases hl.format with hf | ⟨-, -, -, hpos⟩
      · change l.stmt.left = []
        rw [Stmt.left, ← hf, hrow, hcurs, pending_false]
        rfl
      · exact absurd hpos (by simp only at h0; omega)
    | @emptyPage hi ret t hrow hcurs hexec hret hforced =>
      have hreq : l.Requests := ⟨hi, hrow, hcurs⟩
      obtain ⟨p, t', hp, ht', htook, hex, -, -, hleft⟩ := hok.served.page hl hreq
      rw [hexec] at ht'
      cases ht'
      have hnil : p.rows = [] := by
        rw [htook.nodata] at hforced
        exact List.isEmpty_iff.mp hforced
      have hpage := hok.page hreq p hp
      rw [if_pos hnil] at hpage
      refine ⟨hex.of_rset hrset hearly hird, hleft, Iff.rfl, fun h0 ↦ ?_⟩
      have hc : t.hasCursor = false := by
        rw [htook.cursor, Bool.eq_false_iff]
        exact fun hc ↦ absurd (hpage hc) (by simp only at h0; omega)
      refine ⟨?_, hc⟩
      change t.left = []
      rw [Stmt.left, htook.format, htook.rows, hnil, hc, pending_false]
      rfl
  · rw [h] at ht
    cases ht with
    | requestFailed hi hrow hcurs hexec hret =>
      obtain ⟨p, t, -, ht, -⟩ := hok.served.page hl ⟨hi, hrow, hcurs⟩
      rw [hexec] at ht
      cases ht
      cases hret

/-! ## Calls -/

/-- The loop starts out on the format of its result set. -/
theorem fetchStart_sync {s t : Stmt σ} (hs : s.Executed) (c : Setup σ)
    (h : fetchChecks (c.apply s) = .done (none, t)) :
    t.fetchStart.Sync ∧ t.left = s.left := by
  obtain ⟨hready, ht⟩ := fetchChecks_none h
  have hrset : t.rset = s.rset := by rw [ht]; rfl
  have hreplies : t.replies = s.replies := by rw [ht]; rfl
  have hard : t.ard = c.ard := by rw [ht]; rfl
  refine ⟨⟨hs.of_rset hrset (by rw [ht]; rfl) (by rw [ht]; rfl), hready.gd, ?_, .inl rfl⟩,
    Stmt.left_congr hrset hreplies⟩
  change 0 < t.ard.arraySize
  rw [hard]
  exact c.arraySize_pos

/-- What a call keeps, and when it finds no data. -/
structure Conserves (s : Stmt σ) (f : Fetched σ) (s' : Stmt σ) : Prop where
  executed : s'.Executed
  rows : f.rows ++ s'.left = s.left
  ended : f.ret = .noData → f.rows = [] ∧ s'.Ended
  noData : f.turns ≠ [] → f.rows = [] → f.ret = .noData

/-- One call of `EsSQLFetch`. -/
theorem fetchCall_conserves {cv : Converters σ} {s s' : Stmt σ} {f : Fetched σ}
    (hs : s.Executed) (hok : ∀ l ∈ f.turns, l.Sound) (h : FetchCall cv s f s') :
    Conserves s f s' := by
  obtain ⟨hcall, hturns⟩ := h
  rcases esSQLFetch_cases hcall with ⟨hc, hnil⟩ | ⟨t, ls, l, hc, hls, hrun, hend⟩
  · obtain ⟨hr, ht⟩ := fetchChecks_some (s := f.setup.apply s) hs.resultset hc
    have hrset : s'.rset = s.rset := by rw [ht]; rfl
    have hleft : s'.left = s.left := Stmt.left_congr hrset (by rw [ht]; rfl)
    refine ⟨hs.of_rset hrset (by rw [ht]; rfl) (by rw [ht]; rfl), ?_, ?_, ?_⟩
    · rw [Fetched.rows, hturns, hnil]
      exact hleft
    · rw [hr]
      nofun
    · exact fun hne ↦ absurd (hturns.trans hnil) hne
  · obtain ⟨hsync, hleft⟩ := fetchStart_sync hs f.setup hc
    rw [hturns, hls] at hok
    have hrun' := hrun.restrict fun o ho ↦ hok o (List.mem_append_left _ ho)
    have hstep : ∀ l o l', l.Sync → (o.Sound ∧ Next cv l o l') →
        l'.Sync ∧ o.row.toList ++ l'.stmt.left = l.stmt.left :=
      fun l o l' hl h ↦ next_conserves hl h.1 h.2
    have hl : l.Sync := hrun'.invariant (fun l o l' hl h ↦ (hstep l o l' hl h).1) hsync
    have hlast : l.row = none := (ends_cases ⟨hl.executed.resultset, hl.gd⟩ hend).1
    have hrows : f.rows = ls.flatMap fun o ↦ o.row.toList := by
      rw [Fetched.rows, hturns, hls, List.flatMap_append, List.flatMap_singleton, hlast,
        Option.toList_none, List.append_nil]
    have hi : l.i = f.rows.length := by
      rw [hrows, (run_count ⟨hsync.executed.resultset, hsync.gd⟩ hrun).2]
      exact Nat.zero_add _
    obtain ⟨hex, hstay, hnd, hended⟩ :=
      ends_conserves hl (hok l (List.mem_append_right _ List.mem_cons_self)) hend
    rw [hi, List.length_eq_zero_iff] at hnd
    refine ⟨hex, ?_, fun h ↦ ⟨hnd.mp h, hended h⟩, fun _ ↦ hnd.mpr⟩
    rw [hrows, hstay, hrun'.conserve (fun o ↦ o.row.toList) (fun l ↦ l.stmt.left) hstep hsync]
    exact hleft

theorem Stmt.Ended.rows {s : Stmt σ} (h : s.Ended) : s.rset.rows s.rset.packJson = [] :=
  (List.append_eq_nil_iff.mp h.1).1

/-- A call after the end. -/
theorem fetchCall_ended {cv : Converters σ} {s s' : Stmt σ} {f : Fetched σ}
    (hs : s.Executed) (hended : s.Ended) (h : FetchCall cv s f s') :
    (s'.Executed ∧ s'.Ended) ∧ f.rows = [] ∧ (f.ret = .noData ∨ f.turns = []) := by
  obtain ⟨hcall, hturns⟩ := h
  rcases esSQLFetch_cases hcall with ⟨hc, hnil⟩ | ⟨t, ls, l, hc, hls, hrun, hend⟩
  · obtain ⟨-, ht⟩ := fetchChecks_some (s := f.setup.apply s) hs.resultset hc
    have hrset : s'.rset = s.rset := by rw [ht]; rfl
    refine ⟨⟨hs.of_rset hrset (by rw [ht]; rfl) (by rw [ht]; rfl), ?_⟩, ?_, .inr ?_⟩
    · rw [Stmt.Ended, Stmt.left_congr hrset (by rw [ht]; rfl), Stmt.hasCursor_congr hrset]
      exact hended
    · rw [Fetched.rows, hturns, hnil]
      rfl
    · rw [hturns, hnil]
  · obtain ⟨hsync, hleft⟩ := fetchStart_sync hs f.setup hc
    have hrset : t.rset = s.rset := by rw [(fetchChecks_none hc).2]; rfl
    have hrow : t.rset.rows t.rset.packJson = [] := by rw [hrset]; exact hended.rows
    have hcurs : t.hasCursor = false := (Stmt.hasCursor_congr hrset).trans hended.2
    -- the first turn finds the end
    have hlast : fetchTurn cv t.fetchStart = .leave { t.fetchStart with stmt := t.setNorow 0 } := by
      rw [fetchTurn_none cv hsync.size (fun h ↦ h) hrow]
      change (if t.hasCursor = true then _ else _) = _
      rw [hcurs, if_neg Bool.false_ne_true]
      rfl
    have hstart : ls = [] ∧ t.fetchStart = l := by
      cases hrun with
      | nil _ => exact ⟨rfl, rfl⟩
      | cons h _ => rw [h.2] at hlast; cases hlast
    obtain ⟨rfl, rfl⟩ := hstart
    rcases hend with ⟨l', h, hend⟩ | h
    · rw [hlast] at h
      cases h
      obtain ⟨hs', hnodata⟩ := fetchEnd_eq hend
      have hrset' : s'.rset = s.rset := by rw [hs']; exact hrset
      refine ⟨⟨hsync.executed.of_rset (by rw [hs']; rfl) (by rw [hs']; rfl) (by rw [hs']; rfl), ?_⟩,
        ?_, .inl (hnodata.mpr rfl)⟩
      · rw [Stmt.Ended, Stmt.hasCursor_congr hrset']
        refine ⟨?_, hended.2⟩
        rw [Stmt.left, hrset', hended.rows, Stmt.hasCursor_congr hrset', hended.2, pending_false]
        rfl
      · rw [Fetched.rows, hturns, hls, List.nil_append, List.flatMap_singleton,
          FetchLoop.row_of_nil hrow]
        rfl
    · rw [hlast] at h
      cases h

/-! ## Progress -/

/-- Sound turns never run into undefined behaviour. -/
theorem fetchLoop_ne_undefined {cv : Converters σ} {fuel : Nat} {l : FetchLoop σ} (hl : l.Sync)
    (hok : ∀ l' ∈ fetchTurns cv fuel l, l'.Sound) : fetchLoop cv fuel l ≠ .undefined := by
  induction fuel generalizing l with
  | zero => rintro ⟨⟩
  | succ fuel ih =>
    rw [fetchTurns] at hok
    have hsound := hok l List.mem_cons_self
    have ht := fetchTurn_turned cv hl.gd
    rw [fetchLoop]
    cases h : fetchTurn cv l with
    | next l' =>
      rw [h] at hok
      exact ih (next_conserves hl hsound ⟨rfl, h⟩).1 fun l' hl' ↦ hok l' (List.mem_cons_of_mem _ hl')
    | leave l' => rintro ⟨⟩
    | ret r s => rintro ⟨⟩
    | undefined =>
      rw [h] at ht
      cases ht with
      | otherFormat hi hp hfmt =>
        rcases hl.format with hf | ⟨hf, -⟩
        · rw [hp, hfmt] at hf; cases hf
        · rw [hp] at hf; cases hf
      | requestUndefined hi hrow hcurs hexec =>
        obtain ⟨p, t, -, ht, -⟩ := hsound.served.page hl ⟨hi, hrow, hcurs⟩
        exact absurd ht (hexec _)

/-- A call comes to an end, unless its check of the types is outside of the matrix. -/
theorem exists_fetchCall {cv : Converters σ} {s : Stmt σ} (hs : s.Executed) (c : Setup σ)
    (hc : fetchChecks (c.apply s) ≠ .undefined)
    (hok : ∀ l ∈ (c.apply s).fetchTurns cv, l.Sound) :
    ∃ f : Fetched σ, f.setup = c ∧ ∃ s', FetchCall cv s f s' := by
  suffices h : ∃ x, esSQLFetch cv (c.apply s) = .done x by
    obtain ⟨⟨r, s'⟩, h⟩ := h
    exact ⟨⟨c, r, (c.apply s).fetchTurns cv⟩, rfl, s', h, rfl⟩
  have hne := esSQLFetch_ne_exhausted cv (c.apply s)
  cases h : esSQLFetch cv (c.apply s) with
  | done x => exact ⟨x, rfl⟩
  | exhausted => exact absurd h hne
  | undefined =>
    unfold esSQLFetch at h
    cases hch : fetchChecks (c.apply s) with
    | undefined => exact absurd hch hc
    | exhausted => exact absurd hch (fetchChecks_ne_exhausted _)
    | done x =>
      rw [hch] at h
      obtain ⟨_ | r, t⟩ := x
      · rw [Stmt.fetchTurns, hch] at hok
        exact absurd h (fetchLoop_ne_undefined (fetchStart_sync hs c hch).1 hok)
      · cases h

/-! ## Runs -/

/-- The law of paging: successive fetches return the rows of the pages, each once and in
their order, and find no data only when all were returned, then and ever after. -/
theorem fetch_pages (cv : Converters σ) {s s' : Stmt σ} {fs : List (Fetched σ)}
    (hs : s.Executed) (hserved : ∀ f ∈ fs, ∀ l ∈ f.turns, l.Served)
    (hok : ∀ f ∈ fs, ∀ l ∈ f.turns, l.RowOk ∧ l.PageOk) (hrun : Run (FetchCall cv) s fs s') :
    fs.flatMap Fetched.rows ++ s'.left = s.left ∧
    (∀ before f after, fs = before ++ f :: after → f.ret = .noData →
      before.flatMap Fetched.rows = s.left ∧ s'.Ended ∧
        ∀ g ∈ f :: after, g.rows = [] ∧ (g.ret = .noData ∨ g.turns = [])) ∧
    ∀ c : Setup σ, fetchChecks (c.apply s') ≠ .undefined →
      (∀ l ∈ (c.apply s').fetchTurns cv, l.Sound) →
        ∃ f : Fetched σ, f.setup = c ∧ ∃ s'', FetchCall cv s' f s'' := by
  have hsound : ∀ f ∈ fs, ∀ l ∈ f.turns, l.Sound := fun f hf l hl ↦
    ⟨hserved f hf l hl, (hok f hf l hl).1, (hok f hf l hl).2⟩
  have hstep : ∀ s f s', Stmt.Executed s → ((∀ l ∈ f.turns, l.Sound) ∧ FetchCall cv s f s') →
      Conserves s f s' := fun s f s' hs h ↦ fetchCall_conserves hs h.1 h.2
  have hrun' := hrun.restrict hsound
  have hrows := fun {t t' : Stmt σ} {gs} (ht : t.Executed)
      (h : Run (fun s f s' ↦ (∀ l ∈ f.turns, l.Sound) ∧ FetchCall cv s f s') t gs t') ↦
    h.conserve Fetched.rows Stmt.left
      (fun s f s' hs h ↦ ⟨(hstep s f s' hs h).executed, (hstep s f s' hs h).rows⟩) ht
  refine ⟨hrows hs hrun', ?_, ?_⟩
  · rintro before f after rfl hnd
    obtain ⟨t, h₁, h₂⟩ := hrun'.of_append
    obtain ⟨t', hf, h₂⟩ := Run.cons_iff.mp h₂
    have ht : t.Executed := h₁.invariant (fun s f s' hs h ↦ (hstep s f s' hs h).executed) hs
    have hc := hstep t f t' ht hf
    obtain ⟨hnil, hended⟩ := hc.ended hnd
    have hafter : ∀ s f s', (Stmt.Executed s ∧ Stmt.Ended s) →
        ((∀ l ∈ f.turns, l.Sound) ∧ FetchCall cv s f s') →
        (s'.Executed ∧ s'.Ended) ∧ (f.rows = [] ∧ (f.ret = .noData ∨ f.turns = [])) :=
      fun s f s' hs h ↦ fetchCall_ended hs.1 hs.2 h.2
    refine ⟨?_, (h₂.invariant (fun s f s' hs h ↦ (hafter s f s' hs h).1) ⟨hc.executed, hended⟩).2,
      List.forall_mem_cons.mpr ⟨⟨hnil, .inl hnd⟩, h₂.forall_output hafter ⟨hc.executed, hended⟩⟩⟩
    have hleft : t.left = [] := by rw [← hc.rows, hnil, hended.1]; rfl
    rw [← hrows hs h₁, hleft, List.append_nil]
  · have hs' := hrun'.invariant (fun s f s' hs h ↦ (hstep s f s' hs h).executed) hs
    exact fun c hc hok ↦ exists_fetchCall hs' c hc hok

/-- Three rows in two pages, fetched two at a time. -/
theorem fetch_pages_two : ∃ (s s' : Stmt Unit) (fs : List (Fetched Unit)),
    attachAnswer (.init [] () [.answer (jsonAnswer [] [[.longLong 3]] [])])
      (jsonAnswer [[0x61]] [[.longLong 1], [.longLong 2]] [0x63]) = .done (.success, s) ∧
    Run (FetchCall .accept) s fs s' ∧ fs.map Fetched.ret = [.success, .success, .noData] ∧
    fs.flatMap Fetched.rows ++ s'.left = s.left := by
  obtain ⟨s, fs, s', ha, hrun, hs, hserved, hok, hret⟩ := exists_run .accept
    (.init [] () [.answer (jsonAnswer [] [[.longLong 3]] [])])
    (jsonAnswer [[0x61]] [[.longLong 1], [.longLong 2]] [0x63]) [.rows 1, .rows 1, .rows 1]
    (fun s fs _ ↦ s.Executed ∧ (∀ f ∈ fs, ∀ l ∈ f.turns, l.Served) ∧
      (∀ f ∈ fs, ∀ l ∈ f.turns, l.RowOk ∧ l.PageOk) ∧
      fs.map Fetched.ret = [.success, .success, .noData]) (by decide +kernel)
  exact ⟨s, s', fs, ha, hrun, hret, (fetch_pages .accept hs hserved hok hrun).1⟩

/-- A page without rows that has a cursor: no data is found, and a row is left. -/
theorem fetch_emptyPage : ∃ (s : Stmt Unit) (fs : List (Fetched Unit)) (s' : Stmt Unit),
    attachAnswer (.init [] () [.answer (jsonAnswer [] [] [0x64]),
        .answer (jsonAnswer [] [[.longLong 2]] [])])
      (jsonAnswer [[0x61]] [[.longLong 1]] [0x63]) = .done (.success, s) ∧
    Run (FetchCall .accept) s fs s' ∧
    s.Executed ∧ (∀ f ∈ fs, ∀ l ∈ f.turns, l.Served) ∧ .noData ∈ fs.map Fetched.ret ∧
      s'.left.length = 1 :=
  exists_run _ _ _ [.rows 0, .rows 0] _ (by decide +kernel)

/-! ## One body -/

/-- Without a cursor no turn asks for a page. -/
theorem FetchLoop.RowOk.sound {l : FetchLoop σ} (h : l.RowOk) (hc : l.stmt.hasCursor = false) :
    l.Sound := by
  have hreq : ¬l.Requests := fun hr ↦ by rw [hr.2.2] at hc; cases hc
  exact ⟨fun hr ↦ absurd hr hreq, h, fun hr ↦ absurd hr hreq⟩

/-- Fetches of a result without a cursor get none. -/
theorem fetchCall_noCursor {cv : Converters σ} {s s' : Stmt σ} {f : Fetched σ}
    (hs : s.hasResultset = true ∧ s.hasCursor = false) (h : FetchCall cv s f s') :
    (s'.hasResultset = true ∧ s'.hasCursor = false) ∧ ∀ l ∈ f.turns, l.stmt.hasCursor = false := by
  obtain ⟨hcall, hturns⟩ := h
  rcases esSQLFetch_cases hcall with ⟨hc, hnil⟩ | ⟨t, ls, l, hc, hls, hrun, hend⟩
  · obtain ⟨-, ht⟩ := fetchChecks_some (s := f.setup.apply s) hs.1 hc
    have hrset : s'.rset = s.rset := by rw [ht]; rfl
    refine ⟨⟨by rw [Stmt.hasResultset, hrset]; exact hs.1, ?_⟩, ?_⟩
    · exact (Stmt.hasCursor_congr hrset).trans hs.2
    · rw [hturns, hnil]
      exact fun _ h ↦ absurd h List.not_mem_nil
  · let I : FetchLoop σ → Prop := fun l ↦ l.stmt.Ready ∧ l.stmt.hasCursor = false
    have hstart : I t.fetchStart := by
      refine ⟨(fetchChecks_none hc).1, ?_⟩
      exact (Stmt.hasCursor_congr (by rw [(fetchChecks_none hc).2]; rfl)).trans hs.2
    have hI : ∀ l o l', I l → Next cv l o l' → I l' ∧ o.stmt.hasCursor = false := by
      rintro l o l' ⟨hl, hcurs⟩ ⟨rfl, h⟩
      refine ⟨⟨(fetchTurn_next hl h).1, ?_⟩, hcurs⟩
      have ht := fetchTurn_turned cv hl.gd
      rw [h] at ht
      cases ht with
      | row _ _ _ _ => exact (FetchLoop.hasCursor_afterRow _ _ _ _ _).trans hcurs
      | page _ _ hc _ _ _ => rw [hcurs] at hc; cases hc
    have hl : I l := hrun.invariant (fun l o l' hl h ↦ (hI l o l' hl h).1) hstart
    have hrset : s'.rset = l.stmt.rset := by
      have ht := fetchTurn_turned cv hl.1.gd
      rcases hend with ⟨l', h, hend⟩ | h
      · rw [(fetchEnd_eq hend).1]
        rw [h] at ht
        cases ht with
        | full _ => rfl
        | last _ _ _ => rfl
        | emptyPage _ _ hc _ _ _ => rw [hl.2] at hc; cases hc
      · rw [h] at ht
        cases ht with
        | requestFailed _ _ hc _ _ => rw [hl.2] at hc; cases hc
    refine ⟨⟨by rw [Stmt.hasResultset, hrset]; exact hl.1.resultset,
      (Stmt.hasCursor_congr hrset).trans hl.2⟩, ?_⟩
    rw [hturns, hls]
    intro o ho
    rcases List.mem_append.mp ho with ho | ho
    · exact hrun.forall_output hI hstart o ho
    · exact List.mem_singleton.mp ho ▸ hl.2

/-- The law of rows.  A turn gets past a row exactly when the row is consumable; every fetch
comes to an end; and of a body whose rows are consumable where a fetch comes across them,
the fetches return each row once and in its order, in at most as many calls as there are
rows before they find no data. -/
theorem fetch_rows (cv : Converters σ) :
    (∀ (l : FetchLoop σ) row rows, l.stmt.Ready → l.i < l.stmt.ard.arraySize →
      (l.packJson = true → l.stmt.rset.packJson = true) →
      l.stmt.rset.rows l.packJson = row :: rows →
      (PastRow cv l rows ↔ row.consumable l.stmt.ird.length = true)) ∧
    (∀ s : Stmt σ, esSQLFetch cv s ≠ .exhausted) ∧
    ∀ (s s' : Stmt σ) fs, s.Executed → s.hasCursor = false → Run (FetchCall cv) s fs s' →
      (∀ f ∈ fs, ∀ l ∈ f.turns, l.RowOk) →
      fs.flatMap Fetched.rows ++ s'.left = s.left ∧
      ((∀ f ∈ fs, f.turns ≠ [] ∧ f.ret ≠ .noData) → fs.length ≤ s.left.length) := by
  refine ⟨fun l row rows hl hi hfmt hrow ↦ pastRow_iff cv hl hi hfmt hrow,
    esSQLFetch_ne_exhausted cv, fun s s' fs hs hcurs hrun hok ↦ ?_⟩
  have hturns := hrun.forall_output
    (fun s f s' h hf ↦ fetchCall_noCursor h hf) ⟨hs.resultset, hcurs⟩
  have hsound : ∀ f ∈ fs, ∀ l ∈ f.turns, l.Sound := fun f hf l hl ↦
    (hok f hf l hl).sound (hturns f hf l hl)
  have hrun' := hrun.restrict hsound
  have hstep : ∀ s f s', Stmt.Executed s → ((∀ l ∈ f.turns, l.Sound) ∧ FetchCall cv s f s') →
      s'.Executed ∧ Conserves s f s' := fun s f s' hs h ↦
    ⟨(fetchCall_conserves hs h.1 h.2).executed, fetchCall_conserves hs h.1 h.2⟩
  have hrows := hrun'.conserve Fetched.rows Stmt.left
    (fun s f s' hs h ↦ ⟨(hstep s f s' hs h).1, (hstep s f s' hs h).2.rows⟩) hs
  refine ⟨hrows, fun hfound ↦ ?_⟩
  have hpos : ∀ f ∈ fs, 1 ≤ f.rows.length := by
    have hout := hrun'.forall_output
      (fun s f s' hs h ↦ ⟨(hstep s f s' hs h).1, (hstep s f s' hs h).2.noData⟩) hs
    intro f hf
    obtain ⟨hne, hnd⟩ := hfound f hf
    exact List.length_pos_of_ne_nil fun hnil ↦ hnd (hout f hf hne hnil)
  calc fs.length ≤ (fs.map fun f ↦ f.rows.length).sum := by
        simpa using List.length_le_sum_of_one_le (fs.map fun f ↦ f.rows.length) (by simpa using hpos)
    _ = (fs.flatMap Fetched.rows).length := by rw [List.length_flatMap]
    _ ≤ s.left.length := by rw [← hrows, List.length_append]; exact Nat.le_add_right _ _

/-- A row with too few elements and a proper one, fetched one at a time. -/
theorem fetch_rows_short : ∃ (s s' : Stmt Unit) (fs : List (Fetched Unit)),
    attachAnswer (.init [] () [])
      (cborAnswer [[0x61]] [.array false [], .array true [.uint 1]] []) = .done (.success, s) ∧
    Run (FetchCall .accept) s fs s' ∧ fs.map Fetched.ret = [.error, .success] ∧
    fs.flatMap Fetched.rows ++ s'.left = s.left := by
  obtain ⟨s, fs, s', ha, hrun, hs, hcurs, hok, hret⟩ := exists_run .accept (.init [] () [])
    (cborAnswer [[0x61]] [.array false [], .array true [.uint 1]] []) [.rows 0, .rows 0]
    (fun s fs _ ↦ s.Executed ∧ s.hasCursor = false ∧ (∀ f ∈ fs, ∀ l ∈ f.turns, l.RowOk) ∧
      fs.map Fetched.ret = [.error, .success]) (by decide +kernel)
  exact ⟨s, s', fs, ha, hrun, hret, ((fetch_rows .accept).2.2 s s' fs hs hcurs hrun hok).1⟩

/-- A row with too many elements is fetched again and again. -/
theorem fetch_longRow : ∃ (s : Stmt Unit) (fs : List (Fetched Unit)) (s' : Stmt Unit),
    attachAnswer (.init [] () []) (cborAnswer [[0x61]]
      [.array false [.uint 1, .uint 2], .array false [.uint 3]] []) = .done (.success, s) ∧
    Run (FetchCall .accept) s fs s' ∧
    s.Executed ∧ (fs.map fun f ↦ (f.ret, f.rows.length)) = [(.error, 1), (.error, 1)] ∧
      s.left.length = 2 ∧ s'.left.length = 2 :=
  exists_run _ _ _ [.rows 0, .rows 0] _ (by decide +kernel)

end EsOdbc
