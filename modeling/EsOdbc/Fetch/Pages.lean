import EsOdbc.Fetch.Consume

/-!
# Pages

The answers of a server that splits a result: rows, and a cursor as long as there is more.
`Stmt.left` is what a statement has yet to deliver: the rows in front of its iterator, and
those of the pages its cursor leads to.
-/

namespace EsOdbc

open Cbor (Item)

variable {σ : Type}

/-! ## Answers as pages -/

/-- A further page of a result. -/
structure Page where
  json : Bool
  rows : List Row
  cursor : Bool
deriving Repr

/-- The page that an answer without columns is. -/
def Answer.page : Answer → Option Page
  | .json (some obj) =>
    match obj.unpack (wstr packParamRows) UJValue.isArray,
        obj.unpack (wstr packParamColumns) UJValue.isArray with
    | some rows, none =>
      let cursor := (obj.unpack (wstr packParamCursor) UJValue.isString).map UJValue.readString
      some ⟨true, rows.beginArray.map .json, !(cursor.getD []).isEmpty⟩
    | _, _ => none
  | .cbor (some (.map _ entries)) =>
    match cborMapLookupKeys entries
        [cstr packParamColumns, cstr packParamCursor, cstr packParamRows] with
    | some (.ok [none, cursor, some (.array _ items)]) =>
      match cursor.map textBytes with
      | some none => none
      | cursor => some ⟨false, items.map .cbor, !(cursor.join.getD []).isEmpty⟩
    | _ => none
  | _ => none

def Reply.page : Reply → Option Page
  | .answer a => a.page
  | .failed => none

/-- A JSON answer with the names of its columns, which all have the type `LONG`, its rows and
its cursor. -/
def jsonAnswer (names : List WStr) (rows : List (List UJValue)) (cursor : WStr) : Answer :=
  let column (name : WStr) : UJValue := .object
    [(wstr packParamColName, .string name),
      (wstr packParamColType, .string [0x4C, 0x4F, 0x4E, 0x47])]
  .json <| some <| .object <|
    (if names.isEmpty then [] else [(wstr packParamColumns, .array (names.map column))]) ++
    [(wstr packParamRows, .array (rows.map .array))] ++
    (if cursor.isEmpty then [] else [(wstr packParamCursor, .string cursor)])

/-- A CBOR answer of that kind. -/
def cborAnswer (names : List CStr) (rows : List Item) (cursor : CStr) : Answer :=
  let column (name : CStr) : Item := .map false
    [.text (cstr packParamColName), .text name,
      .text (cstr packParamColType), .text [0x4C, 0x4F, 0x4E, 0x47]]
  .cbor <| some <| .map false <|
    (if names.isEmpty then []
      else [.text (cstr packParamColumns), .array false (names.map column)]) ++
    [.text (cstr packParamRows), .array false rows] ++
    (if cursor.isEmpty then [] else [.text (cstr packParamCursor), .text cursor])

/-- What a statement is like after it took a page. -/
structure Took (p : Page) (s : Stmt σ) : Prop where
  format : s.rset.packJson = p.json
  rows : s.rset.rows p.json = p.rows
  otherRows : s.rset.rows (!p.json) = []
  cursor : s.hasCursor = p.cursor
  nodata : s.nodataForced = p.rows.isEmpty

/-- The end of `attach_answer` when the columns were known before. -/
theorem attachEnd_success {s : Stmt σ} {n : Nat} (hn : n ≠ 0) (hird : s.ird ≠ []) :
    ∃ nset, attachEnd n .success s = (.success, { s with nset }) := by
  have : s.ird.isEmpty = false := by simpa using hird
  rw [attachEnd, SqlReturn.succeeded_success, if_pos rfl, this, if_neg Bool.false_ne_true,
    if_neg hn]
  dsimp only
  split_ifs
  · exact ⟨s.nset, rfl⟩
  · exact ⟨s.nset + 1, rfl⟩

theorem Stmt.takeBody_ird (s : Stmt σ) (isJson : Bool) : (s.takeBody isJson).ird = s.ird := by
  unfold takeBody
  split_ifs <;> rfl

theorem Took.of_rset {p : Page} {s t : Stmt σ} (h : Took p t) (hs : s.rset = t.rset) :
    Took p s := by
  have hc : s.hasCursor = t.hasCursor := by simp only [Stmt.hasCursor, hs]
  have hn : s.nodataForced = t.nodataForced := by simp only [Stmt.nodataForced, hs]
  exact ⟨hs ▸ h.format, hs ▸ h.rows, hs ▸ h.otherRows, hc ▸ h.cursor, hn ▸ h.nodata⟩

/-- The function of the format takes a page in. -/
theorem attachFormat_page {s : Stmt σ} {a : Answer} {p : Page} (hp : a.page = some p)
    (hrset : s.rset = { Resultset.zero with body := true, packJson := a.isJson }) :
    ∃ t, attachFormat s a = .done (.success, t) ∧ t.ird = s.ird ∧ Took p t := by
  cases a with
  | json v =>
    cases v with
    | none => cases hp
    | some obj =>
      rw [Answer.page] at hp
      rw [attachFormat, attachAnswerJson]
      cases hrows : obj.unpack (wstr packParamRows) UJValue.isArray with
      | none => rw [hrows] at hp; cases hp
      | some rows =>
        cases hcols : obj.unpack (wstr packParamColumns) UJValue.isArray with
        | some columns => rw [hrows, hcols] at hp; cases hp
        | none =>
          rw [hrows, hcols] at hp
          cases hp
          dsimp only
          refine ⟨_, rfl, rfl, ?_⟩
          rw [hrset]
          have hempty : (rows.beginArray.map Row.json).isEmpty = rows.beginArray.isEmpty := by
            cases rows.beginArray <;> rfl
          cases obj.unpack (wstr packParamCursor) UJValue.isString <;>
            exact ⟨rfl, rfl, rfl, rfl, hempty ▸ Bool.false_or _⟩
  | cbor x =>
    unfold Answer.page at hp
    unfold attachFormat attachAnswerCbor
    split at hp
    · cases ‹Answer.cbor x = _›
    · rename_i entries heq
      cases heq
      dsimp only
      split at hp
      · rename_i cursor indef items hl
        rw [hl]
        dsimp only
        split at hp
        · cases hp
        · rename_i c hc
          cases hp
          refine ⟨{ s with rset := s.rset.setCbor indef items (cursor.map textBytes).join }, ?_,
            rfl, ?_⟩
          · rcases hcurs : cursor.map textBytes with _ | _ | c
            · rfl
            · exact absurd hcurs hc
            · rfl
          · rw [hrset]
            have hempty : (items.map Row.cbor).isEmpty = items.isEmpty := by cases items <;> rfl
            have hrows : ∀ cursor, ((Resultset.zero.setCbor indef items cursor).rows false) =
                items.map Row.cbor := by
              intro cursor
              cases items <;> rfl
            exact ⟨rfl, hrows _, rfl, rfl, hempty ▸ Bool.false_or _⟩
      · cases hp
    · cases hp

theorem attachAnswer_page {s : Stmt σ} (hs : s.Ready) (hird : s.ird ≠ []) {a : Answer} {p : Page}
    (hp : a.page = some p) :
    ∃ t, attachAnswer s a = .done (.success, t) ∧ Took p t := by
  have hrset := s.takeBody_rset a.isJson fun h ↦ by rw [hs.resultset] at h; cases h
  obtain ⟨t, ht, htird, htook⟩ := attachFormat_page hp hrset
  rw [s.takeBody_ird] at htird
  obtain ⟨nset, hend⟩ := attachEnd_success (s := t) (n := s.ird.length)
    (mt List.length_eq_zero_iff.mp hird) (htird ▸ hird)
  exact ⟨{ t with nset }, by rw [attachAnswer, ht, Exec.bind_done, ← hend], htook.of_rset rfl⟩

/-! ## What is left -/

/-- The rows of the pages that a cursor leads to. -/
def pending : (cursor : Bool) → List (Option Page) → List Row
  | true, some p :: pages => p.rows ++ pending p.cursor pages
  | _, _ => []

@[simp] theorem pending_false (pages : List (Option Page)) : pending false pages = [] := by
  cases pages <;> rfl

namespace Stmt

/-- The page that the server sends next. -/
def nextPage (s : Stmt σ) : Option Page := s.replies.head?.bind Reply.page

/-- What a statement has yet to deliver. -/
def left (s : Stmt σ) : List Row :=
  s.rset.rows s.rset.packJson ++ pending s.hasCursor (s.replies.map Reply.page)

/-- A statement that was executed and that has its columns. -/
structure Executed (s : Stmt σ) : Prop where
  resultset : s.hasResultset = true
  early : s.earlyExecuted = false
  ird : s.ird ≠ []

instance (s : Stmt σ) : Decidable s.Executed :=
  decidable_of_iff (s.hasResultset = true ∧ s.earlyExecuted = false ∧ s.ird ≠ [])
    ⟨fun h ↦ ⟨h.1, h.2.1, h.2.2⟩, fun h ↦ ⟨h.resultset, h.early, h.ird⟩⟩

/-- All was delivered. -/
def Ended (s : Stmt σ) : Prop := s.left = [] ∧ s.hasCursor = false

end Stmt

/-- A statement takes the next page of the server. -/
theorem esSQLExecute_page {s : Stmt σ} (hs : s.Executed) (hgd : s.gdCalling = false)
    (hser : s.cursorSerializable = true) {p : Page} (hp : s.nextPage = some p) :
    ∃ t, s.esSQLExecute = .done (.success, t) ∧ Took p t ∧ t.Executed ∧
      t.gdCalling = false ∧ t.ard = s.ard ∧
      t.left = pending true (s.replies.map Reply.page) := by
  rw [Stmt.nextPage] at hp
  cases hr : s.replies with
  | nil => rw [hr] at hp; cases hp
  | cons reply rest =>
    rw [hr] at hp
    cases reply with
    | failed => cases hp
    | answer a =>
      let s₀ : Stmt σ := { s with earlyExecuted := false, replies := rest }
      have hs₀ : s₀.Ready := ⟨hs.resultset, hgd⟩
      obtain ⟨t, ht, htook⟩ := attachAnswer_page hs₀ hs.ird hp
      have hframe := (attachAnswer_frame_of_ready hs₀ a).2 _ _ ht
      have hready := hs₀.of_attach hframe
      refine ⟨t, ?_, htook, ⟨hready.resultset, hframe.earlyExecuted, ?_⟩, hready.gd, hframe.ard,
        ?_⟩
      · rw [Stmt.esSQLExecute, hs.early, Bool.false_and, if_neg Bool.false_ne_true]
        have : ({ s with earlyExecuted := false } : Stmt σ).cursorSerializable = true := hser
        dsimp only
        rw [this, if_pos rfl, Stmt.curlPost]
        simp only [hr]
        exact ht
      · rw [hframe.ird hs.ird]
        exact hs.ird
      · rw [Stmt.left, htook.format, htook.rows, htook.cursor, hframe.replies]
        change Answer.page a = some p at hp
        simp only [List.map_cons, Reply.page, hp]
        rfl

end EsOdbc
