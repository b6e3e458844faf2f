import EsOdbc.Fetch.Pages
import EsOdbc.Formats.Attach

/-!
# Fetching in either format

The fetches of two statements that differ in the format of their answers go the same way:
turn by turn (`fetchTurn_same`), call by call (`esSQLFetch_same`) and in any number of calls
(`answers_alike`).
-/

namespace EsOdbc

open Cbor (Item)

variable {σ : Type}

/-- Two statements that hold the same answer, one in JSON and one in CBOR. -/
structure Alike (ncols : Nat) (s t : Stmt σ) : Prop where
  outside : SameOutside ncols s t
  data : ∃ text, SameData ncols text s.rset t.rset ∧
    ((∀ c ∈ text, c.toNat ≤ 127) ∨ s.replies = [])
  width : s.ird.length = ncols
  width_pos : 0 < ncols

theorem Alike.resultset {ncols : Nat} {s t : Stmt σ} (h : Alike ncols s t) :
    s.hasResultset = true ∧ t.hasResultset = true := by
  obtain ⟨_, hdata, -⟩ := h.data
  exact hdata.body

theorem Alike.hasCursor {ncols : Nat} {s t : Stmt σ} (h : Alike ncols s t) :
    s.hasCursor = t.hasCursor := by
  obtain ⟨text, hdata, -⟩ := h.data
  rw [Stmt.hasCursor, Stmt.hasCursor, hdata.packJson.1, hdata.packJson.2, hdata.cursor.1,
    hdata.cursor.2]
  cases text with
  | nil => rfl
  | cons c text =>
    rw [if_pos rfl, if_neg Bool.false_ne_true,
      List.isEmpty_eq_false_iff.mpr fun h ↦ List.cons_ne_nil _ _ (Utf.utf16_eq_nil.mp h),
      List.isEmpty_eq_false_iff.mpr fun h ↦ List.cons_ne_nil _ _ (Utf.utf8_eq_nil.mp h)]

/-- Changes to what the two have in common, which `f` stands for. -/
theorem Alike.map {ncols : Nat} {s t : Stmt σ} (h : Alike ncols s t) (f : Stmt σ → Stmt σ)
    (hf : ∀ s : Stmt σ, (f s).rset = s.rset ∧ (f s).ird = s.ird ∧ (f s).replies = s.replies)
    (hrest : SameOutside ncols s t → f t = { f s with
      diag := (f t).diag, rset := t.rset, ird := t.ird, nextBlock := (f t).nextBlock,
      replies := t.replies }) : Alike ncols (f s) (f t) := by
  obtain ⟨text, hdata, hascii⟩ := h.data
  refine ⟨⟨?_, ?_, ?_⟩, ⟨text, ?_, ?_⟩, ?_, h.width_pos⟩
  · rw [(hf t).1, (hf t).2.1, (hf t).2.2]
    exact hrest h.outside
  · rw [(hf t).2.1, (hf s).2.1]
    exact h.outside.ird
  · rw [(hf t).2.2, (hf s).2.2]
    exact h.outside.replies
  · rw [(hf s).1, (hf t).1]
    exact hdata
  · rw [(hf s).2.2]
    exact hascii
  · rw [(hf s).2.1]
    exact h.width

theorem Alike.of_diag {ncols : Nat} {s t : Stmt σ} (h : Alike ncols s t) (d d' : Diag) :
    Alike ncols { s with diag := d } { t with diag := d' } :=
  ⟨h.outside.of_diag d d', h.data, h.width, h.width_pos⟩

theorem Alike.gdReset {ncols : Nat} {s t : Stmt σ} (h : Alike ncols s t) :
    Alike ncols s.gdReset t.gdReset :=
  h.map Stmt.gdReset (fun _ ↦ ⟨rfl, rfl, rfl⟩) fun h ↦ by rw [h.rest]; rfl

/-! ## Requests -/

/-- A cursor of ASCII characters can be sent back. -/
theorem cursorSerializable_ascii {s : Stmt σ} {text : List Char}
    (hcurs : s.rset.json.curs = Utf.utf16 text) (h : ∀ c ∈ text, c.toNat ≤ 127) :
    s.cursorSerializable = true := by
  have hall : ∀ u ∈ Utf.utf16 text, u ≤ 127 := by
    intro u hu
    obtain ⟨c, hc, hu⟩ := List.mem_flatMap.mp hu
    have hle := h c hc
    rw [Utf.utf16EncodeChar, if_pos (by omega), List.mem_singleton] at hu
    rw [hu, UInt16.le_iff_toNat_le, UInt16.toNat_ofNat']
    exact Nat.le_trans (Nat.mod_le _ _) hle
  rw [Stmt.cursorSerializable, hcurs, Bool.or_eq_true]
  exact .inr (List.all_eq_true.mpr fun u hu ↦
    decide_eq_true (hall u ((List.takeWhile_prefix _).subset hu)))

theorem Stmt.curlPost_nil {s : Stmt σ} (h : s.replies = []) :
    s.curlPost = .done (s.retHdiag .s08S01 none) := by
  rw [curlPost, h]

/-- The reply to a request. -/
theorem curlPost_same {ncols : Nat} {s t : Stmt σ} (h : Alike ncols s t)
    (hgd : s.gdCalling = false) :
    Exec.Rel (fun p q ↦ p.1 = q.1 ∧ Alike ncols p.2 q.2 ∧ p.2.gdCalling = false)
      s.curlPost t.curlPost := by
  have hreplies := h.outside.replies
  obtain ⟨text, hdata, hascii⟩ := h.data
  unfold Stmt.curlPost
  cases hs : s.replies with
  | nil =>
    rw [hs] at hreplies
    cases ht : t.replies with
    | cons r rs => rw [ht] at hreplies; cases hreplies
    | nil =>
      refine .done ⟨rfl, ⟨h.outside.of_diag _ _, ⟨text, hdata, .inr ?_⟩, h.width, h.width_pos⟩, hgd⟩
      exact hs
  | cons r rs =>
    rw [hs] at hreplies
    cases ht : t.replies with
    | nil => rw [ht] at hreplies; cases hreplies
    | cons r' rs' =>
      rw [ht] at hreplies
      cases hreplies with
      | cons hr hrs =>
        have hout : SameOutside ncols { s with replies := rs } { t with replies := rs' } :=
          ⟨by rw [h.outside.rest], h.outside.ird, hrs⟩
        cases hr with
        | failed =>
          refine .done ⟨rfl, ⟨hout.of_diag _ _, ⟨text, hdata, .inl ?_⟩, h.width, h.width_pos⟩, hgd⟩
          exact hascii.resolve_right fun hnil ↦ by rw [hs] at hnil; cases hnil
        | @answer a v x hv hx hfit hac =>
          have hsame := attachAnswer_same hout (h.resultset.1.trans h.resultset.2.symm)
            (fun hb ↦ absurd (h.resultset.1.symm.trans hb) Bool.noConfusion)
            (fun hb ↦ absurd (h.resultset.2.symm.trans hb) Bool.noConfusion) hv hx hfit
          refine hsame.results.imp ?_
          rintro ⟨ret, s'⟩ ⟨ret', t'⟩ ⟨⟨hret, hout', hdata'⟩, hs', -⟩
          have hready : ({ s with replies := rs } : Stmt σ).Ready := ⟨h.resultset.1, hgd⟩
          have hf := (attachAnswer_frame_of_ready hready (.json (some v))).2 _ _ hs'
          have hird : s'.ird = s.ird := hf.ird fun hnil ↦ by
            have := h.width_pos
            rw [← h.width, show s.ird = [] from hnil] at this
            cases this
          refine ⟨hret, ⟨hout', ⟨_, hdata', .inl ?_⟩, by rw [hird, h.width], h.width_pos⟩,
            (hready.of_attach hf).gd⟩
          cases hc : a.cursor with
          | none => exact fun _ h ↦ absurd h List.not_mem_nil
          | some text => exact hac text hc

/-- Requesting a page. -/
theorem esSQLExecute_same {ncols : Nat} {s t : Stmt σ} (h : Alike ncols s t)
    (hgd : s.gdCalling = false) :
    Exec.Rel (fun p q ↦ p.1 = q.1 ∧ Alike ncols p.2 q.2 ∧ p.2.gdCalling = false)
      s.esSQLExecute t.esSQLExecute := by
  have hearly : t.earlyExecuted = s.earlyExecuted := by rw [h.outside.rest]
  have hset : Alike ncols { s with earlyExecuted := false } { t with earlyExecuted := false } :=
    h.map (fun s ↦ { s with earlyExecuted := false }) (fun _ ↦ ⟨rfl, rfl, rfl⟩)
      fun h ↦ by rw [h.rest]
  obtain ⟨text, hdata, hascii⟩ := h.data
  have hser' : ({ t with earlyExecuted := false } : Stmt σ).cursorSerializable = true := by
    rw [Stmt.cursorSerializable]
    exact Bool.or_eq_true _ _ ▸ .inl (by rw [show t.rset.packJson = false from hdata.packJson.2]; rfl)
  unfold Stmt.esSQLExecute
  rw [h.resultset.1, h.resultset.2, hearly]
  dsimp only
  rw [hser', if_pos rfl]
  split_ifs with he hser
  · exact .done ⟨rfl, hset, hgd⟩
  · exact curlPost_same hset hgd
  · -- a cursor that cannot be sent back as JSON: there is no page to get with it either
    have hnil : s.replies = [] := hascii.resolve_left fun h ↦
      hser (cursorSerializable_ascii hdata.cursor.1 h)
    have hnil' : t.replies = [] := by
      have := h.outside.replies
      rw [hnil] at this
      cases ht : t.replies with
      | nil => rfl
      | cons r rs => rw [ht] at this; cases this
    rw [Stmt.curlPost_nil (by exact hnil')]
    refine .done ⟨rfl, ⟨hset.outside.of_diag _ _, ⟨text, hdata, .inr hnil⟩, h.width, h.width_pos⟩,
      hgd⟩

/-! ## Turns -/

/-- The loops of two fetches that go the same way. -/
structure LoopAlike (ncols : Nat) (l m : FetchLoop σ) : Prop where
  stmt : Alike ncols l.stmt m.stmt
  packJson : l.packJson = true ∧ m.packJson = false
  i : m.i = l.i
  errors : m.errors = l.errors
  gd : l.stmt.gdCalling = false

/-- Turns that lead the same way. -/
inductive TurnAlike (ncols : Nat) : FetchTurn σ → FetchTurn σ → Prop where
  | next {l m : FetchLoop σ} : LoopAlike ncols l m → TurnAlike ncols (.next l) (.next m)
  | leave {l m : FetchLoop σ} : LoopAlike ncols l m → TurnAlike ncols (.leave l) (.leave m)
  | ret {r : SqlReturn} {s t : Stmt σ} : Alike ncols s t → TurnAlike ncols (.ret r s) (.ret r t)
  | undefined : TurnAlike ncols .undefined .undefined

theorem shown_of_desc {rs rs' : List IRec} (h : rs.map IRec.desc = rs'.map IRec.desc) :
    rs.map IRec.shown = rs'.map IRec.shown := by
  have hshown : IRec.shown ∘ IRec.desc = IRec.shown := rfl
  have := congrArg (List.map IRec.shown) h
  rwa [List.map_map, List.map_map, hshown] at this

/-- A turn that takes a row. -/
theorem afterRow_same {ncols : Nat} {cv : Converters σ} {l m : FetchLoop σ}
    (h : LoopAlike ncols l m) {text : List Char}
    (hdata : SameData ncols text l.stmt.rset m.stmt.rset)
    (hascii : (∀ c ∈ text, c.toNat ≤ 127) ∨ l.stmt.replies = []) {row : List LogicalValue}
    {rows : List (List LogicalValue)} {x : Item} {xs : List Item}
    (hfit : ∀ r ∈ row :: rows, r.length ≤ ncols)
    (hjson : l.stmt.rset.json.rowsIter = (row :: rows).map rowJson)
    (hcbor : m.stmt.rset.cbor.rowsIter = x :: xs) (hrow : RowCbor false row x)
    (hrows : List.Forall₂ (RowCbor false) rows xs) {d d' : Diag} {recs recs' : List IRec}
    (hdesc : recs.map IRec.desc = l.stmt.ird.map IRec.desc)
    (hdesc' : recs'.map IRec.desc = m.stmt.ird.map IRec.desc) :
    LoopAlike ncols (l.afterRow cv (.json (rowJson row)) d recs) (m.afterRow cv (.cbor x) d' recs') := by
  have hout := h.stmt.outside
  have hwidth : m.stmt.ird.length = ncols := hout.ird_length.trans h.stmt.width
  obtain ⟨hview, -, hnext⟩ := viewCbor_row h.stmt.width_pos hrow
  have ho : m.rowOutcome cv (.cbor x) = l.rowOutcome cv (.json (rowJson row)) := by
    have hard : m.stmt.ard = l.stmt.ard := by rw [hout.rest]
    have happ : m.stmt.app = l.stmt.app := by rw [hout.rest]
    simp only [FetchLoop.rowOutcome, Stmt.outcome, Row.view, hwidth, h.stmt.width, hview, hard, happ,
      hout.cols, h.i]
  have hshown : recs'.map IRec.shown = recs.map IRec.shown :=
    (shown_of_desc hdesc').trans (hout.ird.trans (shown_of_desc hdesc).symm)
  -- the result sets have moved by a row
  have hrset : (l.afterRow cv (.json (rowJson row)) d recs).stmt.rset = { l.stmt.rset with
      json := { l.stmt.rset.json with rowsIter := rows.map rowJson, rowArray := rowJson row }
      vrows := l.stmt.rset.vrows + 1 } := by
    simp only [FetchLoop.afterRow, Resultset.stepRow, h.packJson.1, if_true, hjson, List.map_cons,
      List.tail_cons, List.headD_cons]
  have hrset' : (m.afterRow cv (.cbor x) d' recs').stmt.rset = { m.stmt.rset with
      cbor := { m.stmt.rset.cbor with rowsIter := xs }, vrows := m.stmt.rset.vrows + 1 } := by
    simp only [FetchLoop.afterRow, Resultset.stepRow, h.packJson.2, Bool.false_eq_true, if_false,
      hcbor, hwidth, hnext (hfit row List.mem_cons_self)]
  have hdata' : SameData ncols text (l.afterRow cv (.json (rowJson row)) d recs).stmt.rset
      (m.afterRow cv (.cbor x) d' recs').stmt.rset := by
    rw [hrset, hrset']
    exact ⟨hdata.body, hdata.packJson, hdata.nodata, congrArg (· + 1) hdata.vrows, hdata.cursor,
      ⟨rows, fun r hr ↦ hfit r (List.mem_cons_of_mem _ hr), rfl, hrows⟩, hdata.count⟩
  refine ⟨⟨⟨?_, hshown, hout.replies⟩, ⟨text, hdata', hascii⟩, ?_, h.stmt.width_pos⟩, h.packJson,
    congrArg (· + 1) h.i, ?_, h.gd⟩
  · simp only [FetchLoop.afterRow, ho, h.i]
    rw [hout.rest]
  · exact (by simpa using congrArg List.length hdesc : recs.length = l.stmt.ird.length).trans
      h.stmt.width
  · simp only [FetchLoop.afterRow, ho, h.errors]

/-- The loops go the same way, turn by turn. -/
theorem fetchTurn_same {ncols : Nat} (cv : Converters σ) {l m : FetchLoop σ}
    (h : LoopAlike ncols l m) : TurnAlike ncols (fetchTurn cv l) (fetchTurn cv m) := by
  have hout := h.stmt.outside
  have hard : m.stmt.ard = l.stmt.ard := by rw [hout.rest]
  have hgd : m.stmt.gdCalling = false := by
    rw [Stmt.gdCalling, show m.stmt.gdCol = l.stmt.gdCol by rw [hout.rest]]
    exact h.gd
  by_cases hi : l.i < l.stmt.ard.arraySize
  · have hi' : m.i < m.stmt.ard.arraySize := by rw [h.i, hard]; exact hi
    obtain ⟨text, hdata, hascii⟩ := h.stmt.data
    obtain ⟨rows, hfit, hjson, hcbor⟩ := hdata.rows
    have hfmt : l.packJson = true → l.stmt.rset.packJson = true := fun _ ↦ hdata.packJson.1
    have hfmt' : m.packJson = true → m.stmt.rset.packJson = true := fun hp ↦ by
      rw [h.packJson.2] at hp
      cases hp
    cases rows with
    | cons row rows =>
      cases hx : m.stmt.rset.cbor.rowsIter with
      | nil => rw [hx] at hcbor; cases hcbor
      | cons x xs =>
        rw [hx] at hcbor
        cases hcbor with
        | cons hrow hrows =>
          have hrow₁ : l.stmt.rset.rows l.packJson = .json (rowJson row) :: (rows.map rowJson).map .json := by
            rw [Resultset.rows, if_pos h.packJson.1, hjson]
            rfl
          have hrow₂ : m.stmt.rset.rows m.packJson = .cbor x :: xs.map .cbor := by
            rw [Resultset.rows, h.packJson.2, if_neg Bool.false_ne_true, hx]
            rfl
          obtain ⟨d, recs, hdesc, hl⟩ := fetchTurn_row cv h.gd hi hfmt hrow₁
          obtain ⟨d', recs', hdesc', hm⟩ := fetchTurn_row cv hgd hi' hfmt' hrow₂
          rw [hl, hm]
          exact .next (afterRow_same h hdata hascii hfit hjson hx hrow hrows hdesc hdesc')
    | nil =>
      have hrow₁ : l.stmt.rset.rows l.packJson = [] := by
        rw [Resultset.rows, if_pos h.packJson.1, hjson]
        rfl
      have hrow₂ : m.stmt.rset.rows m.packJson = [] := by
        rw [Resultset.rows, h.packJson.2, if_neg Bool.false_ne_true]
        cases hx : m.stmt.rset.cbor.rowsIter with
        | nil => rfl
        | cons x xs => rw [hx] at hcbor; cases hcbor
      have hnorow : ∀ s t : Stmt σ, Alike ncols s t → Alike ncols (s.setNorow l.i) (t.setNorow l.i) :=
        fun s t hst ↦ hst.map (Stmt.setNorow · l.i) (fun _ ↦ ⟨rfl, rfl, rfl⟩) fun h ↦ by
          rw [h.rest]
          rfl
      rw [fetchTurn_none cv hi hfmt hrow₁, fetchTurn_none cv hi' hfmt' hrow₂, ← h.stmt.hasCursor, h.i]
      split_ifs
      · have hexec := esSQLExecute_same h.stmt h.gd
        generalize l.stmt.esSQLExecute = p at hexec
        generalize m.stmt.esSQLExecute = q at hexec
        cases hexec with
        | undefined => exact .undefined
        | exhausted => exact .undefined
        | @done a b hab =>
          obtain ⟨ret, s⟩ := a
          obtain ⟨ret', t⟩ := b
          obtain ⟨rfl, hst, hgd'⟩ := hab
          obtain ⟨_, hdata', -⟩ := hst.data
          have hnd : t.nodataForced = s.nodataForced := hdata'.nodata.symm
          dsimp only
          rw [hnd]
          split_ifs
          · exact .ret hst
          · exact .next ⟨hst, h.packJson, rfl, h.errors, hgd'⟩
          · exact .leave ⟨hnorow _ _ hst, h.packJson, rfl, h.errors, hgd'⟩
      · exact .leave ⟨hnorow _ _ h.stmt, h.packJson, rfl, h.errors, h.gd⟩
  · rw [fetchTurn_full hi, fetchTurn_full (by rw [h.i, hard]; exact hi)]
    exact .leave h

/-! ## Calls -/

/-- The code after the loop. -/
theorem fetchEnd_same {ncols : Nat} {l m : FetchLoop σ} (h : LoopAlike ncols l m) :
    (fetchEnd l).1 = (fetchEnd m).1 ∧ Alike ncols (fetchEnd l).2 (fetchEnd m).2 := by
  have hset : Alike ncols { l.stmt with rowsProcessed := l.stmt.rowsProcessed.map fun _ ↦ l.i }
      { m.stmt with rowsProcessed := m.stmt.rowsProcessed.map fun _ ↦ l.i } :=
    h.stmt.map (fun s ↦ { s with rowsProcessed := s.rowsProcessed.map fun _ ↦ l.i })
      (fun _ ↦ ⟨rfl, rfl, rfl⟩) fun h ↦ by rw [h.rest]
  unfold fetchEnd
  rw [h.i, h.errors]
  dsimp only
  split_ifs
  · exact ⟨rfl, hset⟩
  · exact ⟨rfl, hset⟩
  · exact ⟨rfl, hset⟩

theorem fetchLoop_same {ncols : Nat} {cv : Converters σ} (fuel : Nat) {l m : FetchLoop σ}
    (h : LoopAlike ncols l m) :
    Exec.Rel (fun p q ↦ p.1 = q.1 ∧ Alike ncols p.2 q.2) (fetchLoop cv fuel l)
      (fetchLoop cv fuel m) := by
  induction fuel generalizing l m with
  | zero => exact .exhausted
  | succ fuel ih =>
    rw [fetchLoop, fetchLoop]
    have hturn := fetchTurn_same cv h
    generalize fetchTurn cv l = a at hturn
    generalize fetchTurn cv m = b at hturn
    cases hturn with
    | next h => exact ih h
    | leave h => exact .done (fetchEnd_same h)
    | ret h => exact .done ⟨rfl, h⟩
    | undefined => exact .undefined

/-- The checks in front of the loop. -/
theorem fetchChecks_same {ncols : Nat} {s t : Stmt σ} (h : Alike ncols s t) :
    Exec.Rel (fun p q ↦ p.1 = q.1 ∧ Alike ncols p.2 q.2 ∧
      (p.1 = none → p.2.gdCalling = false)) (fetchChecks s) (fetchChecks t) := by
  have hconv : t.sql2cConversion = s.sql2cConversion := by rw [h.outside.rest]
  unfold fetchChecks
  rw [h.resultset.1, h.resultset.2, hconv]
  simp only [Bool.not_true, Bool.false_eq_true, if_false]
  cases hc : s.sql2cConversion with
  | violation => exact .done ⟨rfl, h.of_diag _ _, nofun⟩
  | unsupported => exact .done ⟨rfl, h.of_diag _ _, nofun⟩
  | skipped => exact .done ⟨rfl, h.gdReset, fun _ ↦ rfl⟩
  | supported => exact .done ⟨rfl, h.gdReset, fun _ ↦ rfl⟩
  | unchecked =>
    have hcheck : checkColumns t.ard.recs t.cols = checkColumns s.ard.recs s.cols := by
      rw [h.outside.cols, show t.ard = s.ard by rw [h.outside.rest]]
    unfold convertabilityCheck
    rw [hcheck]
    cases checkColumns s.ard.recs s.cols with
    | undefined => exact .undefined
    | exhausted => exact .exhausted
    | done c =>
      have hc : Alike ncols { s with sql2cConversion := c } { t with sql2cConversion := c } :=
        h.map (fun s ↦ { s with sql2cConversion := c }) (fun _ ↦ ⟨rfl, rfl, rfl⟩)
          fun h ↦ by rw [h.rest]
      cases c with
      | violation => exact .done ⟨rfl, hc.of_diag _ _, nofun⟩
      | unsupported => exact .done ⟨rfl, hc.of_diag _ _, nofun⟩
      | _ => exact .done ⟨rfl, hc.gdReset, fun _ ↦ rfl⟩

/-- One call, after the same doings of the application. -/
theorem esSQLFetch_same {ncols : Nat} {cv : Converters σ} {s t : Stmt σ} (h : Alike ncols s t)
    (c : Setup σ) :
    Exec.Rel (fun p q ↦ p.1 = q.1 ∧ Alike ncols p.2 q.2) (esSQLFetch cv (c.apply s))
      (esSQLFetch cv (c.apply t)) := by
  have hset : Alike ncols (c.apply s) (c.apply t) :=
    h.map c.apply (fun _ ↦ ⟨rfl, rfl, rfl⟩) fun h ↦ by rw [h.rest]; rfl
  unfold esSQLFetch
  refine (fetchChecks_same hset).bind ?_
  rintro ⟨r, s⟩ ⟨r', t⟩ ⟨hr, hst, hgd⟩
  dsimp only at hr hst hgd
  subst hr
  cases r with
  | some r => exact .done ⟨rfl, hst⟩
  | none =>
    obtain ⟨_, hdata, -⟩ := hst.data
    have hfuel : t.fetchStart.fuel = s.fetchStart.fuel := by
      have hreplies := hst.outside.replies.length_eq
      have hard : t.ard = s.ard := by rw [hst.outside.rest]
      have hearly : t.earlyExecuted = s.earlyExecuted := by rw [hst.outside.rest]
      unfold FetchLoop.fuel Stmt.fetchStart
      dsimp only
      rw [hard, hearly, hreplies]
    dsimp only
    rw [hfuel]
    exact fetchLoop_same _ ⟨hst, hdata.packJson, rfl, rfl, hgd rfl⟩

/-- Any number of calls. -/
theorem fetchCalls_same {ncols : Nat} {cv : Converters σ} (cs : List (Setup σ)) {s t : Stmt σ}
    (h : Alike ncols s t) :
    Exec.Rel (fun p q ↦ p.1.map Fetched.ret = q.1.map Fetched.ret ∧ Alike ncols p.2 q.2)
      (fetchCalls cv cs s) (fetchCalls cv cs t) := by
  induction cs generalizing s t with
  | nil => exact .done ⟨rfl, h⟩
  | cons c cs ih =>
    refine (esSQLFetch_same h c).bind ?_
    rintro ⟨r, s'⟩ ⟨r', t'⟩ ⟨rfl, hst⟩
    refine (ih hst).bind ?_
    rintro ⟨fs, s''⟩ ⟨gs, t''⟩ ⟨hret, hst'⟩
    exact .done ⟨congrArg (r :: ·) hret, hst'⟩

/-- The count of the rows in the result set. -/
theorem esSQLRowCount_same {ncols : Nat} {s t : Stmt σ} (h : Alike ncols s t) :
    (esSQLRowCount s).1 = (esSQLRowCount t).1 ∧
      (esSQLRowCount s).2.1 = (esSQLRowCount t).2.1 := by
  obtain ⟨_, hdata, -⟩ := h.data
  obtain ⟨vs, indef, xs, hs, ht, hlen, hskip⟩ := hdata.count
  unfold esSQLRowCount
  rw [h.resultset.1, h.resultset.2, hdata.packJson.1, hdata.packJson.2, hs, ht]
  simp only [Bool.not_true, Bool.false_eq_true, if_false, if_true, Option.map_some,
    UJValue.lengthArray, cborGetArrayCount_skippable hskip, hlen, h.hasCursor]
  split_ifs <;> exact ⟨rfl, rfl⟩

/-! ## Answers -/

/-- Columns are refused by a statement that has some. -/
theorem attachAnswer_again {s s' : Stmt σ} {a : LogicalAnswer} {v : UJValue} {r : SqlReturn}
    (hv : a.Json v) (hcols : a.columns ≠ none) (hird : s.ird ≠ [])
    (h : attachAnswer s (.json (some v)) = .done (r, s')) : r.succeeded = false := by
  obtain ⟨columns, hrel, hvcols, hvrows, hvcurs⟩ := hv.read
  have htake : (s.takeBody true).ird = s.ird := by
    unfold Stmt.takeBody
    split_ifs <;> rfl
  have hpos : 0 < (s.takeBody true).ird.length := by
    rw [htake]
    exact List.length_pos_of_ne_nil hird
  unfold attachAnswer at h
  obtain ⟨⟨ret, t⟩, ht, h⟩ := Exec.bind_eq_done.mp h
  change attachAnswerJson (s.takeBody true) (some v) = _ at ht
  generalize s.takeBody true = u at ht hpos
  unfold attachAnswerJson at ht
  dsimp only at ht
  rw [hvrows] at ht
  dsimp only at ht
  rw [hvcols] at ht
  cases columns with
  | none =>
    generalize a.columns = c at hrel hcols
    cases hrel
    exact absurd rfl hcols
  | some cs =>
    rw [Option.map_some] at ht
    dsimp only at ht
    rw [if_pos hpos] at ht
    cases ht
    cases h
    rfl

/-- A first answer that attaches leaves as many records as it has columns. -/
theorem attachAnswer_width {s s' : Stmt σ} {a : LogicalAnswer} {v : UJValue} {r : SqlReturn}
    {cols : List LogicalColumn} (hv : a.Json v) (hcols : a.columns = some cols)
    (hclear : s.hasResultset = false → s.rset = .zero)
    (h : attachAnswer s (.json (some v)) = .done (r, s')) (hr : r.succeeded = true) :
    s'.ird.length = cols.length ∧ 0 < cols.length := by
  have hird : s.ird = [] := by
    by_contra hne
    rw [attachAnswer_again hv (by rw [hcols]; nofun) hne h] at hr
    cases hr
  obtain ⟨columns, hrel, hvcols, -, -⟩ := hv.read
  obtain ⟨named, b, hnamed, -, hne, hall⟩ := attachAnswer_columns hird hclear h hr
  rw [hcols] at hrel
  cases hrel with
  | some hcs =>
    rw [Answer.columns, hvcols, Option.map_some, Option.bind_some, UJValue.beginArray,
      mapM_of_map (json_read hcs), Option.some.injEq] at hnamed
    have hlen := hall.length_eq
    rw [← hnamed, List.length_map, List.length_map] at hlen
    exact ⟨hlen.symm, hlen ▸ List.length_pos_of_ne_nil hne⟩

/-- The code that attaching an answer to a new statement gives, when there is one type. -/
def attachCode (a : Answer) : Exec SqlReturn :=
  (attachAnswer (.init [⟨[0x4C, 0x4F, 0x4E, 0x47], -5, 19, 1, 0, -5, 0, .exactNumeric, 20⟩] () [])
    a).bind fun p ↦ .done p.1

end EsOdbc
