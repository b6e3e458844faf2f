import EsOdbc.AttachFrame
import EsOdbc.Formats.Read

/-!
# Attaching an answer in either format

Two statements that differ in the format of their answers only: outside of the result set
they are the same (`SameOutside`), and the result sets hold the same rows and the same cursor
(`SameData`).  Attaching encodings of one answer leads to such statements
(`attachAnswer_alike`).
-/

namespace EsOdbc

open Cbor (Item)

variable {σ : Type}

/-! ## Statements that differ in the format -/

/-- What an application gets to see of a record. -/
def IRec.shown (r : IRec) : WStr × WStr × ColType × Bool :=
  (r.name.text, r.label.text, r.col, r.unnamed)

/-- An answer whose columns all have a name and whose rows have at most `ncols` values. -/
structure LogicalAnswer.Fits (ncols : Nat) (a : LogicalAnswer) : Prop where
  named : ∀ cols, a.columns = some cols → ∀ c ∈ cols, c.Named
  rows : ∀ row ∈ a.rows, row.length ≤ ncols

/-- The cursor is sent back as it came. -/
def LogicalAnswer.AsciiCursor (a : LogicalAnswer) : Prop :=
  ∀ text, a.cursor = some text → ∀ c ∈ text, c.toNat ≤ 127

/-- A reply in JSON and one in CBOR that say the same. -/
inductive ReplyAlike (ncols : Nat) : Reply → Reply → Prop where
  | failed : ReplyAlike ncols .failed .failed
  | answer {a : LogicalAnswer} {v : UJValue} {x : Item} : a.Json v → a.Cbor false x →
      a.Fits ncols → a.AsciiCursor →
        ReplyAlike ncols (.answer (.json (some v))) (.answer (.cbor (some x)))

/-- Outside of the result set, the storage and the last message, the statements are the same;
their servers say the same. -/
structure SameOutside (ncols : Nat) (s t : Stmt σ) : Prop where
  rest : t = { s with
    diag := t.diag, rset := t.rset, ird := t.ird, nextBlock := t.nextBlock, replies := t.replies }
  ird : t.ird.map IRec.shown = s.ird.map IRec.shown
  replies : List.Forall₂ (ReplyAlike ncols) s.replies t.replies

/-- A result set in JSON and one in CBOR with the same rows, none longer than `ncols`, the
same count of rows and the same cursor. -/
structure SameData (ncols : Nat) (text : List Char) (r r' : Resultset) : Prop where
  body : r.body = true ∧ r'.body = true
  packJson : r.packJson = true ∧ r'.packJson = false
  nodata : r.forcedNodata = r'.forcedNodata
  vrows : r.vrows = r'.vrows
  cursor : r.json.curs = Utf.utf16 text ∧ r'.cbor.curs = Utf.utf8 text
  rows : ∃ rows : List (List LogicalValue), (∀ row ∈ rows, row.length ≤ ncols) ∧
    r.json.rowsIter = rows.map rowJson ∧ List.Forall₂ (RowCbor false) rows r'.cbor.rowsIter
  count : ∃ vs indef xs, r.json.rowsObj = some (.array vs) ∧
    r'.cbor.rowsObj = some (.array indef xs) ∧ vs.length = xs.length ∧ skippable xs = true

theorem SameOutside.ird_length {ncols : Nat} {s t : Stmt σ} (h : SameOutside ncols s t) :
    t.ird.length = s.ird.length := by
  simpa using congrArg List.length h.ird

theorem SameOutside.cols {ncols : Nat} {s t : Stmt σ} (h : SameOutside ncols s t) :
    t.cols = s.cols := by
  have := congrArg (List.map fun x ↦ x.2.2.1) h.ird
  simpa [Stmt.cols, Function.comp_def, IRec.shown] using this

/-! ## Columns -/

/-- Attaching columns in different blocks shows the same. -/
theorem attachNamed_shown {esTypes : List EsType} {b b' : Nat} {recs recs' : List IRec}
    {cols : List (WStr × WStr)} (h : recs'.map IRec.shown = recs.map IRec.shown) :
    Exec.Rel (fun p q ↦ p.1 = q.1 ∧ q.2.map IRec.shown = p.2.map IRec.shown)
      (attachNamed esTypes b recs cols) (attachNamed esTypes b' recs' cols) := by
  induction cols generalizing recs recs' with
  | nil => cases recs <;> cases recs' <;> exact .done ⟨rfl, h⟩
  | cons col cols ih =>
    cases recs with
    | nil => rw [List.map_eq_nil_iff.mp h]; exact .undefined
    | cons r recs =>
      cases recs' with
      | nil => cases h
      | cons r' recs' =>
        rw [List.map_cons, List.map_cons, List.cons.injEq] at h
        obtain ⟨hr, hrecs⟩ := h
        have hcol : r'.col = r.col := congrArg (·.2.2.1) hr
        have hlabel : r'.label.text = r.label.text := congrArg (·.2.1) hr
        have hunnamed : r'.unnamed = r.unnamed := congrArg (·.2.2.2) hr
        have htext : ∀ b, (if col.1.isEmpty then WRef.empty else .inBlock b col.1).text = col.1 := by
          intro b
          cases col.1 <;> rfl
        rw [attachNamed, attachNamed, attachOneColumn, attachOneColumn, hcol]
        cases columnType esTypes col.2 r.col with
        | none =>
          refine .done ⟨rfl, ?_⟩
          rw [List.map_cons, List.map_cons, hrecs]
          simp only [IRec.shown, htext, hlabel, hunnamed]
        | some c =>
          refine (ih hrecs).bind ?_
          rintro ⟨ok, us⟩ ⟨ok', us'⟩ ⟨rfl, hus⟩
          refine .done ⟨rfl, ?_⟩
          rw [List.map_cons, List.map_cons, hus]
          simp only [IRec.shown, htext]

theorem json_read {cols : List LogicalColumn} {cs : List UJValue}
    (h : List.Forall₂ LogicalColumn.Json cols cs) :
    cs.map columnJson = (cols.map LogicalColumn.named).map some := by
  induction h with
  | nil => rfl
  | cons hc _ ih => rw [List.map_cons, hc.read, ih]; rfl

theorem cbor_read {cols : List LogicalColumn} {xs : List Item}
    (h : List.Forall₂ (LogicalColumn.Cbor false) cols xs) (hcols : ∀ c ∈ cols, c.Named) :
    xs.map columnCbor = (cols.map LogicalColumn.named).map fun c ↦ .done (some c) := by
  induction h with
  | nil => rfl
  | cons hc _ ih =>
    obtain ⟨hn, hcols⟩ := List.forall_mem_cons.mp hcols
    rw [List.map_cons, hc.read hn, ih hcols]
    rfl

theorem iterateOnColumnsSize_eq {xs : List Item} {cols : List (WStr × WStr)}
    (h : xs.map columnCbor = cols.map fun c ↦ .done (some c)) :
    iterateOnColumnsSize xs =
      .done (some (cols.map fun c ↦ c.1.length + 1 + (c.2.length + 1)).sum) := by
  induction xs generalizing cols with
  | nil => cases cols with
    | nil => rfl
    | cons c cols => cases h
  | cons x xs ih =>
    cases cols with
    | nil => cases h
    | cons c cols =>
      rw [List.map_cons, List.map_cons, List.cons.injEq] at h
      rw [iterateOnColumnsSize, h.1, Exec.bind_done, ih h.2]
      rfl

theorem cborGetArrayCount_skippable {indef : Bool} {xs : List Item} (h : skippable xs = true) :
    cborGetArrayCount indef xs = .ok xs.length := by
  unfold cborGetArrayCount
  rw [cborValueExitContainer_eq, if_pos h]
  split_ifs <;> rfl

/-- What the functions of the formats come to.  Without columns their codes differ, but
`attach_answer` then fails either way. -/
structure SameResult (ncols : Nat) (text : List Char) (p q : SqlReturn × Stmt σ) : Prop where
  code : p.1 = q.1 ∨ p.1 = .error ∧ q.1 = .success ∧ q.2.ird = []
  outside : SameOutside ncols p.2 q.2
  data : SameData ncols text p.2.rset q.2.rset

theorem SameOutside.of_diag {ncols : Nat} {s t : Stmt σ} (h : SameOutside ncols s t)
    (d d' : Diag) : SameOutside ncols { s with diag := d } { t with diag := d' } :=
  ⟨by rw [h.rest], h.ird, h.replies⟩

theorem SameOutside.of_rset {ncols : Nat} {s t : Stmt σ} (h : SameOutside ncols s t)
    (b b' : Nat) (r r' : Resultset) :
    SameOutside ncols { s with nextBlock := b, rset := r } { t with nextBlock := b', rset := r' } :=
  ⟨by rw [h.rest], h.ird, h.replies⟩

/-- Encodings of the same columns, for statements without columns. -/
theorem attachColumns_same {ncols : Nat} {text : List Char} {s t : Stmt σ} (h : SameOutside ncols s t)
    (hdata : SameData ncols text s.rset t.rset) (hird : s.ird = []) {cols : List LogicalColumn}
    {b : Nat} {cs : List UJValue} (hcs : List.Forall₂ LogicalColumn.Json cols cs) {x : Item}
    {xs : List Item} (hxs : List.Forall₂ (LogicalColumn.Cbor false) cols xs) (hx : IsArray xs x)
    (hnamed : ∀ c ∈ cols, c.Named) :
    Exec.Rel (SameResult ncols text) (attachColumnsJson s b (.array cs)) (attachColumnsCbor t x) := by
  obtain ⟨indef, rfl⟩ := hx
  have hird' : t.ird = [] := List.map_eq_nil_iff.mp (h.ird.trans (by rw [hird]; rfl))
  have hskip : skippable xs = true := by
    refine List.all_eq_true.mpr fun x hx ↦ ?_
    obtain ⟨c, -, hc⟩ := forall₂_right hxs x hx
    exact decide_eq_true (Nat.le_trans hc.depth (by decide))
  have hlen : xs.length = cs.length := hxs.length_eq.symm.trans hcs.length_eq
  unfold attachColumnsJson attachColumnsCbor
  simp only [UJValue.beginArray]
  rw [cborGetArrayCount_skippable hskip, hird, hird', hlen]
  dsimp only
  have hout : ∀ recs recs' : List IRec, recs'.map IRec.shown = recs.map IRec.shown →
      SameOutside ncols { s with ird := recs } { t with ird := recs' } :=
    fun _ _ hr ↦ ⟨by rw [h.rest], hr, h.replies⟩
  cases hrecs : updateRecCount [] (toSqlsmallint cs.length) with
  | error e => exact .done ⟨.inl rfl, (hout [] [] rfl).of_diag _ _, hdata⟩
  | ok recs =>
    dsimp only
    rw [iterateOnColumnsSize_eq (cbor_read hxs hnamed)]
    cases cols with
    | nil =>
      -- an empty array has no iterator in JSON, and no names to make room for in CBOR
      cases hcs
      cases hxs
      have hnil : recs = [] := List.length_eq_zero_iff.mp (Nat.le_zero.mp (updateRecCount_length hrecs))
      exact .done ⟨.inr ⟨rfl, rfl, hnil⟩, (hout recs recs rfl).of_diag _ _, hdata⟩
    | cons c cols =>
      have hne : cs.isEmpty = false := by
        cases hcs
        rfl
      rw [hne, if_neg Bool.false_ne_true]
      obtain ⟨n, hn⟩ : ∃ n, (((c :: cols).map LogicalColumn.named).map fun c ↦
          c.1.length + 1 + (c.2.length + 1)).sum = n + 1 :=
        Nat.exists_eq_add_one.mpr (by simp only [List.map_cons, List.sum_cons]; omega)
      rw [hn, Exec.bind_done]
      dsimp only
      rw [attachColumnsLoopJson_eq (json_read hcs), iterateOnColumns_eq (cbor_read hxs hnamed)]
      have hes : t.esTypes = s.esTypes := by rw [h.rest]
      have hattach : Exec.Rel (fun p q ↦ p.1 = q.1 ∧ q.2.map IRec.shown = p.2.map IRec.shown)
          (attachNamed s.esTypes b recs ((c :: cols).map LogicalColumn.named))
          (attachNamed t.esTypes t.nextBlock recs ((c :: cols).map LogicalColumn.named)) := by
        rw [hes]
        exact attachNamed_shown rfl
      refine hattach.bind ?_
      rintro ⟨ok, us⟩ ⟨ok', us'⟩ ⟨rfl, hus⟩
      have hout' : SameOutside ncols { s with ird := us }
          { t with ird := us', nextBlock := t.nextBlock + 1, rset := { t.rset with cbor :=
            { t.rset.cbor with colsBuff := some t.nextBlock } } } :=
        ⟨by rw [h.rest], hus, h.replies⟩
      have hdata' : SameData ncols text s.rset { t.rset with cbor :=
          { t.rset.cbor with colsBuff := some t.nextBlock } } :=
        ⟨hdata.body, hdata.packJson, hdata.nodata, hdata.vrows, hdata.cursor, hdata.rows,
          hdata.count⟩
      cases ok with
      | true =>
        simp only [if_true]
        exact .done ⟨.inl rfl, hout', hdata'⟩
      | false =>
        simp only [Bool.false_eq_true, if_false]
        exact .done ⟨.inl rfl, hout'.of_diag _ _, hdata'⟩

/-! ## Answers -/

/-- Encodings of one answer, for statements whose result sets are fresh. -/
theorem attachFormat_same {ncols : Nat} {s t : Stmt σ} (h : SameOutside ncols s t)
    (hs : s.rset = { Resultset.zero with body := true, packJson := true })
    (ht : t.rset = { Resultset.zero with body := true, packJson := false })
    {a : LogicalAnswer} {v : UJValue} {x : Item} (hv : a.Json v) (hx : a.Cbor false x)
    (hfit : a.Fits ncols) :
    Exec.Rel (SameResult ncols (a.cursor.getD [])) (attachAnswerJson s (some v))
      (attachAnswerCbor t (some x)) := by
  obtain ⟨columns, hcols, hvcols, hvrows, hvcurs⟩ := hv.read
  obtain ⟨indef, entries, columns', items, cursor, indefRows, rfl, hcols', hrows, hcurs, hlookup⟩ :=
    hx.read
  have hlen : items.length = a.rows.length := hrows.length_eq.symm
  have hempty : (a.rows.map rowJson).isEmpty = items.isEmpty := by
    rw [Bool.eq_iff_iff, List.isEmpty_iff_length_eq_zero, List.isEmpty_iff_length_eq_zero,
      List.length_map, hlen]
  have hskip : skippable items = true := by
    refine List.all_eq_true.mpr fun y hy ↦ ?_
    obtain ⟨row, -, hrow⟩ := forall₂_right hrows y hy
    exact decide_eq_true (Nat.le_trans (viewCbor_row Nat.one_pos hrow).2.1 (by decide))
  have hcursor : ((a.cursor.map fun c ↦ UJValue.string (Utf.utf16 c)).map
      UJValue.readString).getD [] = Utf.utf16 (a.cursor.getD []) ∧
      ∃ c, cursor.map textBytes = c ∧ c ≠ some none ∧
        c.join.getD [] = Utf.utf8 (a.cursor.getD []) := by
    generalize a.cursor = c at hcurs
    cases hcurs with
    | none => exact ⟨rfl, none, rfl, by rintro ⟨⟩, rfl⟩
    | some hc =>
      refine ⟨rfl, _, rfl, ?_, ?_⟩
      · rw [Option.map_some, textBytes_isText hc]
        rintro ⟨⟩
      · rw [Option.map_some, textBytes_isText hc]
        rfl
  obtain ⟨hjson, c, hc, hcne, hcbor⟩ := hcursor
  -- the statements when the rows and the cursor have been taken
  let s₂ : Stmt σ := { s with
    nextBlock := s.nextBlock + 1
    rset := ({ s.rset with json := { s.rset.json with state := some s.nextBlock } }).setJson
      (.array (a.rows.map rowJson)) (a.cursor.map fun c ↦ .string (Utf.utf16 c)) }
  let t₂ : Stmt σ := { t with rset := t.rset.setCbor indefRows items c.join }
  have hout : SameOutside ncols s₂ t₂ := h.of_rset _ t.nextBlock _ _
  have hdata : SameData ncols (a.cursor.getD []) s₂.rset t₂.rset := by
    refine ⟨?_, ?_, ?_, ?_, ⟨?_, ?_⟩, ⟨a.rows, hfit.rows, rfl, ?_⟩, ?_⟩
    · simp [s₂, t₂, Resultset.setJson, Resultset.setCbor, hs, ht]
    · simp [s₂, t₂, Resultset.setJson, Resultset.setCbor, hs, ht]
    · simp [s₂, t₂, Resultset.setJson, Resultset.setCbor, hs, ht, UJValue.beginArray, ← hempty]
    · simp [s₂, t₂, Resultset.setJson, Resultset.setCbor, hs, ht]
    · simp only [s₂, Resultset.setJson, hs]
      exact hjson
    · simp only [t₂, Resultset.setCbor, ht]
      exact hcbor
    · have hiter : t₂.rset.cbor.rowsIter = items := by
        simp only [t₂, Resultset.setCbor, ht]
        cases items <;> rfl
      rw [hiter]
      exact hrows
    · exact ⟨a.rows.map rowJson, indefRows, items, rfl, rfl, by rw [List.length_map, hlen], hskip⟩
  have hjsonEq : attachAnswerJson s (some v) = columns.elim (.done (.success, s₂)) fun cs ↦
      if 0 < s₂.ird.length then .done (s₂.retHdiag .sHY000 msgInvSrvAns)
      else attachColumnsJson s₂ s.nextBlock (.array cs) := by
    unfold attachAnswerJson
    dsimp only
    rw [hvrows]
    dsimp only
    rw [hvcurs, hvcols]
    cases columns <;> rfl
  have hcborEq : attachAnswerCbor t (some (.map indef entries)) =
      columns'.elim (.done (.success, t₂)) fun columns ↦
        if 0 < t₂.ird.length then .done (t₂.retHdiag .sHY000 msgInvSrvAns)
        else attachColumnsCbor t₂ columns := by
    unfold attachAnswerCbor
    dsimp only
    rw [hlookup]
    dsimp only
    rw [hc]
    obtain _ | _ | b := c
    · cases columns' <;> rfl
    · exact absurd rfl hcne
    · cases columns' <;> rfl
  rw [hjsonEq, hcborEq, hout.ird_length]
  generalize hac : a.columns = cols at hcols hcols'
  cases hcols with
  | none =>
    cases hcols'
    exact .done ⟨.inl rfl, hout, hdata⟩
  | some hcs =>
    cases hcols' with
    | some hxs =>
      obtain ⟨xs, hxs, hx⟩ := hxs
      simp only [Option.elim_some]
      split_ifs with hird
      · exact .done ⟨.inl rfl, hout.of_diag _ _, hdata⟩
      · have hnil : s₂.ird = [] := List.length_eq_zero_iff.mp (Nat.le_zero.mp (Nat.not_lt.mp hird))
        exact attachColumns_same hout hdata hnil hcs hxs hx (hfit.named _ hac)

theorem SameOutside.takeBody {ncols : Nat} {s t : Stmt σ} (h : SameOutside ncols s t)
    (hb : s.hasResultset = t.hasResultset) :
    SameOutside ncols (s.takeBody true) (t.takeBody false) := by
  unfold Stmt.takeBody
  rw [hb]
  split_ifs
  · exact ⟨by rw [h.rest]; rfl, h.ird, h.replies⟩
  · exact ⟨by rw [h.rest], h.ird, h.replies⟩

/-- The end of `attach_answer` on a statement with columns. -/
theorem attachEnd_eq {n : Nat} {ret : SqlReturn} {s : Stmt σ} (hret : ret.succeeded = true)
    (hird : s.ird.isEmpty = false) :
    attachEnd n ret s = (ret, { s with
      sql2cConversion := if n = 0 then .unchecked else s.sql2cConversion
      nset := if s.rset.forcedNodata then s.nset else s.nset + 1 }) := by
  unfold attachEnd
  rw [if_pos hret, hird, if_neg Bool.false_ne_true]
  by_cases hn : n = 0
  · by_cases hf : s.rset.forcedNodata = true <;> simp [hn, hf, Stmt.nodataForced]
  · by_cases hf : s.rset.forcedNodata = true <;> simp [hn, hf, Stmt.nodataForced]

theorem attachEnd_same {ncols n : Nat} {text : List Char} {p q : SqlReturn × Stmt σ}
    (h : SameResult ncols text p q) :
    (attachEnd n p.1 p.2).1 = (attachEnd n q.1 q.2).1 ∧
      SameOutside ncols (attachEnd n p.1 p.2).2 (attachEnd n q.1 q.2).2 ∧
      SameData ncols text (attachEnd n p.1 p.2).2.rset (attachEnd n q.1 q.2).2.rset := by
  obtain ⟨r, s⟩ := p
  obtain ⟨r', t⟩ := q
  obtain ⟨hcode, hout, hdata⟩ := h
  dsimp only at hcode hout hdata ⊢
  rcases hcode with rfl | ⟨rfl, rfl, hnil⟩
  · have hird : t.ird.isEmpty = s.ird.isEmpty := by
      rw [Bool.eq_iff_iff, List.isEmpty_iff_length_eq_zero, List.isEmpty_iff_length_eq_zero,
        hout.ird_length]
    cases hret : r.succeeded with
    | false =>
      rw [attachEnd, attachEnd, hret, if_neg Bool.false_ne_true, if_neg Bool.false_ne_true]
      exact ⟨rfl, hout, hdata⟩
    | true =>
      cases he : s.ird.isEmpty with
      | true =>
        rw [attachEnd, attachEnd, hret, if_pos rfl, if_pos rfl, hird, he, if_pos rfl, if_pos rfl]
        exact ⟨rfl, hout.of_diag _ _, hdata⟩
      | false =>
        rw [attachEnd_eq hret he, attachEnd_eq hret (hird.trans he), ← hdata.nodata]
        exact ⟨rfl, ⟨by rw [hout.rest], hout.ird, hout.replies⟩, hdata⟩
  · rw [attachEnd, attachEnd, hnil]
    exact ⟨rfl, hout.of_diag s.diag _, hdata⟩

/-- The law of the formats for attaching: encodings of one answer attach with the same code,
and leave statements that differ in the format only. -/
theorem attachAnswer_same {ncols : Nat} {s t : Stmt σ} (h : SameOutside ncols s t)
    (hb : s.hasResultset = t.hasResultset)
    (hs : s.hasResultset = false → s.rset = .zero) (ht : t.hasResultset = false → t.rset = .zero)
    {a : LogicalAnswer} {v : UJValue} {x : Item} (hv : a.Json v) (hx : a.Cbor false x)
    (hfit : a.Fits ncols) :
    Exec.Rel (fun p q ↦ p.1 = q.1 ∧ SameOutside ncols p.2 q.2 ∧
        SameData ncols (a.cursor.getD []) p.2.rset q.2.rset)
      (attachAnswer s (.json (some v))) (attachAnswer t (.cbor (some x))) := by
  have hformat := attachFormat_same (h.takeBody hb) (s.takeBody_rset true hs)
    (t.takeBody_rset false ht) hv hx hfit
  unfold attachAnswer
  rw [h.ird_length]
  exact hformat.bind fun p q hpq ↦ .done (attachEnd_same hpq)

end EsOdbc
