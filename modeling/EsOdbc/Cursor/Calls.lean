import EsOdbc.Cursor.Traffic
import EsOdbc.Desc.GetData

/-!
# The cursor over a run of calls

The calls on a statement, the catalog functions among them, with what each sends of the cursor.
The functions of the catalog that the driver answers itself attach their answer in place of the
result set there is; all others close its cursor first.
-/

namespace EsOdbc

variable {σ : Type}

/-! ## The catalog -/

/-- The functions of the catalog whose answer is in the driver. -/
inductive FakeAnswer where
  | statistics | specialColumns | foreignKeys | primaryKeys
deriving DecidableEq, Repr

/-- The columns of these answers. -/
def FakeAnswer.columns : FakeAnswer → List (String × String)
  | .statistics => [("TABLE_CAT", "TEXT"), ("TABLE_SCHEM", "TEXT"), ("TABLE_NAME", "TEXT"),
      ("NON_UNIQUE", "SHORT"), ("INDEX_QUALIFIER", "TEXT"), ("INDEX_NAME", "TEXT"),
      ("TYPE", "SHORT"), ("ORDINAL_POSITION", "SHORT"), ("COLUMN_NAME ", "TEXT"),
      ("ASC_OR_DESC", "BYTE"), ("CARDINALITY", "INTEGER"), ("PAGES", "INTEGER"),
      ("FILTER_CONDITION", "TEXT")]
  | .specialColumns => [("SCOPE", "SHORT"), ("COLUMN_NAME", "TEXT"), ("DATA_TYPE", "SHORT"),
      ("TYPE_NAME", "TEXT"), ("COLUMN_SIZE", "INTEGER"), ("BUFFER_LENGTH", "INTEGER"),
      ("DECIMAL_DIGITS", "SHORT"), ("PSEUDO_COLUMN", "SHORT")]
  | .foreignKeys => [("PKTABLE_CAT", "TEXT"), ("PKTABLE_SCHEM", "TEXT"), ("PKTABLE_NAME", "TEXT"),
      ("PKCOLUMN_NAME", "TEXT"), ("FKTABLE_CAT", "TEXT"), ("FKTABLE_SCHEM", "TEXT"),
      ("FKTABLE_NAME", "TEXT"), ("FKCOLUMN_NAME", "TEXT"), ("KEY_SEQ", "SHORT"),
      ("UPDATE_RULE", "SHORT"), ("DELETE_RULE", "SHORT"), ("FK_NAME", "TEXT"),
      ("PK_NAME", "TEXT"), ("DEFERRABILITY", "SHORT")]
  | .primaryKeys => [("TABLE_CAT", "TEXT"), ("TABLE_SCHEM", "TEXT"), ("TABLE_NAME", "TEXT"),
      ("COLUMN_NAME", "TEXT"), ("KEY_SEQ", "SHORT"), ("PK_NAME", "TEXT")]

/-- The answer: columns without rows. -/
def FakeAnswer.answer (f : FakeAnswer) : Answer :=
  .json (some (.object [
    (wstr packParamColumns, .array (f.columns.map fun c ↦ .object [
      (wstr packParamColName, .string (wstr c.1)), (wstr packParamColType, .string (wstr c.2))])),
    (wstr packParamRows, .array [])]))

theorem FakeAnswer.taken_answer (f : FakeAnswer) : f.answer.taken = none := by
  cases f <;> rfl

namespace Session

/-! ## The calls -/

/-- A call on a statement.  `EsSQLTablesW`, `EsSQLColumnsW` and `EsSQLGetTypeInfoW` execute a
query of their own; `rewrite` is what `EsSQLColumnsW` does once it has fetched the rows of its own
(`update_varchar_defs`), with what it writes of them. -/
inductive StmtCall where
  | call (c : Call)
  | closeCursor (closed : Diag)
  | fake (f : FakeAnswer)
  | rewrite (closed : Diag) (v : Option UJValue)
deriving Repr

/-- What a call does. -/
def stmtCall (cv : Converters σ) (w : Wire) (s : Session σ) : StmtCall → Result σ
  | .call (.execute body) => s.execute (s.stmt.bodyState w body)
  | .call c => s.call cv c
  | .closeCursor closed =>
    if s.stmt.hasResultset then .done (s.close closed) else .done (s.retHdiag .s24000 none)
  | .fake f => s.onStmt fun t ↦ attachAnswer t f.answer
  | .rewrite closed v => (s.close closed).2.onStmt fun t ↦ attachAnswer t (.json v)

/-- What a call sends; `sent` is whether the transport takes a request to close. -/
def traffic (cv : Converters σ) (w : Wire) (s : Session σ) (sent : Bool) : StmtCall → List Traffic
  | .call (.prepare _ .length) | .call (.execDirect _ .length) => []
  | .call (.prepare _ .conversion) | .call (.execDirect _ .conversion) => s.stmt.closes w sent
  | .call (.prepare closed (.attached early body)) =>
    s.stmt.closes w sent ++
      if early then (s.close closed).2.attachSql.stmt.posts w body else []
  | .call (.execDirect closed (.attached _ body)) =>
    s.stmt.closes w sent ++ (s.close closed).2.attachSql.stmt.posts w body
  | .call (.execute body) => s.stmt.posts w body
  | .call .fetch => s.view.fetchPosts cv w
  | .call (.close _) | .rewrite _ _ => s.stmt.closes w sent
  | .closeCursor _ => if s.stmt.hasResultset then s.stmt.closes w sent else []
  | .call _ | .fake _ => []

/-- The call closes the cursor, if there is one. -/
def StmtCall.closes : StmtCall → Bool
  | .call (.prepare _ text) | .call (.execDirect _ text) => text != .length
  | .call (.close _) | .closeCursor _ | .rewrite _ _ => true
  | _ => false

/-- One call in a run. -/
structure Called where
  call : StmtCall
  sent : Bool
  ret : SqlReturn
  traffic : List Traffic
deriving Repr

/-- A call takes the session from one state to the next. -/
def Calls (cv : Converters σ) (w : Wire) (s : Session σ) (c : Called) (s' : Session σ) : Prop :=
  s.stmtCall cv w c.call = .done (c.ret, s') ∧ c.traffic = s.traffic cv w c.sent c.call

/-- The call does not lose the cursor: a request to close is taken by the transport, an answer of
the driver's own replaces no result with a cursor, and none that it writes has one. -/
structure Called.Careful (c : Called) (s : Session σ) : Prop where
  sent : s.stmt.hasCursor = true → c.call.closes = true → c.sent = true
  fake : ∀ f, c.call = .fake f → s.stmt.hasCursor = false
  rewrite : ∀ closed v, c.call = .rewrite closed v → (Answer.json v).taken = none

/-! ## One call -/

variable {cv : Converters σ} {w : Wire} {s s' : Session σ}

theorem close_carrying (h : s.stmt.Carrying w) (closed : Diag) :
    (s.close closed).2.stmt.Carrying w ∧ (s.close closed).2.stmt.cursor = none := by
  have hshape : (s.close closed).2.stmt.rset =
      (if s.stmt.hasResultset then .zero else s.stmt.rset) ∧
      (s.close closed).2.stmt.replies = s.stmt.replies := by
    cases hc : s.stmt.hasCursor <;> cases hb : s.stmt.rset.body <;>
      simp [close, Stmt.hasResultset, Stmt.clearResultset, Stmt.gdReset, hc, hb]
  obtain ⟨hrset, hreplies⟩ := hshape
  have hzero : (s.close closed).2.stmt.rset = .zero := by
    rw [hrset]
    split_ifs with hb
    · rfl
    · exact h.clear (Bool.not_eq_true _ ▸ hb)
  have hcursor := Stmt.cursor_of_zero hzero
  refine ⟨⟨fun _ ↦ hzero, fun c hc ↦ ?_, fun a ha ↦ h.answers a (hreplies ▸ ha)⟩, hcursor⟩
  rw [hcursor] at hc
  cases hc

theorem execute_carrying (h : s.stmt.Carrying w) {body : Option SqlState} {r : SqlReturn}
    (hex : s.execute (s.stmt.bodyState w body) = .done (r, s')) :
    s'.stmt.Carrying w ∧ Passes s.stmt.cursor (s.stmt.posts w body) s'.stmt.cursor := by
  obtain ⟨⟨ret, t⟩, ht, hs'⟩ := Exec.bind_eq_done.mp hex
  cases hs'
  have hv : s.view.Carrying w := h.congr rfl rfl
  have ht : s.view.executeBody (s.view.bodyState w body) = .done (r, t) := ht
  exact hv.passes_executeBody ht

/-- A query on a statement whose result set was closed. -/
theorem query_carrying (h : s.stmt.Carrying w) {closed : Diag} {body : Option SqlState}
    {r : SqlReturn} (hex : (s.close closed).2.attachSql.execute body = .done (r, s')) :
    s'.stmt.Carrying w ∧
      Passes none ((s.close closed).2.attachSql.stmt.posts w body) s'.stmt.cursor := by
  obtain ⟨hc, hcursor⟩ := close_carrying h closed
  have ha : (s.close closed).2.attachSql.stmt.Carrying w := hc.congr rfl rfl
  have hnone : (s.close closed).2.attachSql.stmt.cursor = none := hcursor
  have hbody : (s.close closed).2.attachSql.stmt.bodyState w body = body := by
    rw [Stmt.bodyState, ← Stmt.cursor_isSome, hnone]
    rfl
  rw [← hbody] at hex
  rw [← hnone]
  exact execute_carrying ha hex

/-- A call that leaves the result set and the replies. -/
theorem idle_carrying (h : s.stmt.Carrying w) (hrset : s'.stmt.rset = s.stmt.rset)
    (hreplies : s'.stmt.replies = s.stmt.replies) :
    s'.stmt.Carrying w ∧ Passes s.stmt.cursor [] s'.stmt.cursor := by
  rw [Stmt.cursor_congr hrset]
  exact ⟨h.congr hrset hreplies, .nil _⟩

theorem setDescField_stmt {h : Handle} {n : Int} {field : FieldId} {value : SqlPointer} {len : Int}
    {r : SqlReturn} (hset : s.setDescField h n field value len = .done (r, s')) :
    s'.stmt = s.stmt := by
  obtain ⟨⟨ret, d⟩, -, hs'⟩ := Exec.bind_eq_done.mp hset
  cases hs'
  cases h <;> rfl

/-- Binding a column changes the diagnostic of the statement and the verdict on its columns. -/
theorem esSQLBindCol_stmt {dbc : DbcTypes} {t t' : Stmt σ} {ard d : Desc} {a : BindArgs}
    {r : SqlReturn} (h : esSQLBindCol dbc t ard a = .done (r, t', d)) :
    t' = { t with diag := t'.diag, sql2cConversion := t'.sql2cConversion } := by
  unfold esSQLBindCol at h
  dsimp only at h
  split at h
  · cases h
    rfl
  split at h
  · cases h
    rfl
  obtain ⟨⟨ret, d'⟩, -, h⟩ := Exec.bind_eq_done.mp h
  dsimp only at h
  split at h
  · cases h
    rfl
  obtain ⟨⟨ret, d'⟩, -, h⟩ := Exec.bind_eq_done.mp h
  dsimp only at h
  split at h
  · cases h
    rfl
  split at h
  · obtain ⟨call, -, h⟩ := Exec.bind_eq_done.mp h
    cases h
    rfl
  · cases h
    rfl

/-- A call of the application passes the cursor on. -/
theorem call_carrying (h : s.stmt.Carrying w) {c : Call} {sent : Bool} {r : SqlReturn}
    (hcall : s.stmtCall cv w (.call c) = .done (r, s'))
    (hsent : s.stmt.hasCursor = true → (StmtCall.call c).closes = true → sent = true) :
    s'.stmt.Carrying w ∧
      Passes s.stmt.cursor (s.traffic cv w sent (.call c)) s'.stmt.cursor := by
  have hcloses (hc : (StmtCall.call c).closes = true) :
      Passes s.stmt.cursor (s.stmt.closes w sent) none := h.passes_closes fun hh ↦ hsent hh hc
  cases c with
  | bindCol a =>
    obtain ⟨⟨ret, t, d⟩, hbind, hs'⟩ := Exec.bind_eq_done.mp hcall
    cases hs'
    have hstmt := esSQLBindCol_stmt hbind
    exact idle_carrying h (by rw [hstmt]) (by rw [hstmt])
  | setDescField hd n field value len =>
    have hstmt := setDescField_stmt hcall
    exact idle_carrying h (by rw [hstmt]) (by rw [hstmt])
  | setHeaderAttr attr value len =>
    obtain ⟨⟨ret, t⟩, hset, hs'⟩ := Exec.bind_eq_done.mp hcall
    have hstmt := setDescField_stmt hset
    dsimp only at hs'
    split_ifs at hs' <;> cases hs' <;> exact idle_carrying h (by rw [hstmt]) (by rw [hstmt])
  | setAppRowDesc d =>
    have hstmt : (s.setAppRowDesc d).2.stmt.rset = s.stmt.rset ∧
        (s.setAppRowDesc d).2.stmt.replies = s.stmt.replies := by
      unfold setAppRowDesc
      split
      · exact ⟨rfl, rfl⟩
      · split_ifs
        · exact ⟨rfl, rfl⟩
        · exact ⟨rfl, rfl⟩
        · exact ⟨rfl, rfl⟩
        · split <;> exact ⟨rfl, rfl⟩
    have hs' : s' = (s.setAppRowDesc d).2 := by
      have hcall : Exec.done (s.setAppRowDesc d) = .done (r, s') := hcall
      rw [Exec.done.injEq] at hcall
      rw [hcall]
    rw [hs']
    exact idle_carrying h hstmt.1 hstmt.2
  | prepare closed text =>
    cases text with
    | length =>
      cases hcall
      exact idle_carrying h rfl rfl
    | conversion =>
      cases hcall
      obtain ⟨hc, hcursor⟩ := close_carrying h closed
      refine ⟨hc.congr rfl rfl, ?_⟩
      have hpass := hcloses rfl
      rw [← hcursor] at hpass
      exact hpass
    | attached early body =>
      have hpass := hcloses rfl
      obtain ⟨hc, hcursor⟩ := close_carrying h closed
      cases early with
      | true =>
        obtain ⟨⟨ret, t⟩, ht, hs'⟩ := Exec.bind_eq_done.mp hcall
        obtain ⟨ht', hpass'⟩ := query_carrying h ht
        dsimp only at hs'
        split_ifs at hs' <;> cases hs'
        · exact ⟨ht'.congr rfl rfl, hpass.append hpass'⟩
        · exact ⟨ht', hpass.append hpass'⟩
      | false =>
        cases hcall
        refine ⟨hc.congr rfl rfl, ?_⟩
        rw [← hcursor] at hpass
        change Passes _ (_ ++ []) _
        rw [List.append_nil]
        exact hpass
  | execDirect closed text =>
    cases text with
    | length =>
      cases hcall
      exact idle_carrying h rfl rfl
    | conversion =>
      cases hcall
      obtain ⟨hc, hcursor⟩ := close_carrying h closed
      refine ⟨hc.congr rfl rfl, ?_⟩
      have hpass := hcloses rfl
      rw [← hcursor] at hpass
      exact hpass
    | attached early body =>
      obtain ⟨hs', hpass⟩ := query_carrying h hcall
      exact ⟨hs', (hcloses rfl).append hpass⟩
  | execute body => exact execute_carrying h hcall
  | fetch =>
    obtain ⟨⟨ret, t⟩, ht, hs'⟩ := Exec.bind_eq_done.mp hcall
    cases hs'
    have hv : s.view.Carrying w := h.congr rfl rfl
    exact hv.fetch ht
  | getData a =>
    obtain ⟨hgot, -⟩ := getData_got hcall
    have hrset := congrArg Stmt.rset hgot.view
    have hreplies := congrArg Stmt.replies hgot.view
    exact idle_carrying h hrset hreplies
  | close closed =>
    cases hcall
    obtain ⟨hc, hcursor⟩ := close_carrying h closed
    refine ⟨hc, ?_⟩
    have hpass := hcloses rfl
    rw [← hcursor] at hpass
    exact hpass

/-- A result set that an answer without cursor takes the place of. -/
theorem attach_carrying {t : Session σ} (h : t.stmt.Carrying w)
    {a : Answer} (ha : a.taken = none) {r : SqlReturn}
    (hat : (t.onStmt fun u ↦ attachAnswer u a) = .done (r, s')) :
    s'.stmt.Carrying w ∧ s'.stmt.cursor = none := by
  obtain ⟨⟨ret, u⟩, hu, hs'⟩ := Exec.bind_eq_done.mp hat
  cases hs'
  have hv : t.view.Carrying w := h.congr rfl rfl
  obtain ⟨hu', hc⟩ := hv.attach_taken (fun c hc ↦ by rw [ha] at hc; cases hc) hu
  exact ⟨hu', hc.trans ha⟩

/-- A careful call keeps to the discipline. -/
theorem stmtCall_carrying (h : s.stmt.Carrying w) {c : Called} (hc : Calls cv w s c s')
    (hcare : c.Careful s) :
    s'.stmt.Carrying w ∧ Passes s.stmt.cursor c.traffic s'.stmt.cursor := by
  obtain ⟨call, sent, r, traffic⟩ := c
  obtain ⟨hcall, htraffic⟩ := hc
  dsimp only at hcall htraffic
  subst htraffic
  cases call with
  | call c => exact call_carrying h hcall hcare.sent
  | closeCursor closed =>
    obtain ⟨hc, hcursor⟩ := close_carrying h closed
    have hpass := h.passes_closes fun hh ↦ hcare.sent hh rfl
    dsimp only [stmtCall, Session.traffic] at hcall ⊢
    split_ifs at hcall ⊢
    · rw [Exec.done.injEq] at hcall
      rw [hcall] at hc hcursor
      rw [hcursor]
      exact ⟨hc, hpass⟩
    · cases hcall
      exact idle_carrying h rfl rfl
  | fake f =>
    have hnone : s.stmt.cursor = none := by
      rw [← Option.isSome_eq_false_iff.trans Option.isNone_iff_eq_none, Stmt.cursor_isSome]
      exact hcare.fake f rfl
    obtain ⟨hs', hcursor⟩ := attach_carrying h f.taken_answer hcall
    rw [hnone, hcursor]
    exact ⟨hs', .nil _⟩
  | rewrite closed v =>
    obtain ⟨hc, hcursor⟩ := close_carrying h closed
    have hpass := h.passes_closes fun hh ↦ hcare.sent hh rfl
    obtain ⟨hs', hcursor'⟩ := attach_carrying hc (hcare.rewrite closed v rfl) hcall
    rw [hcursor']
    exact ⟨hs', hpass⟩

/-! ## Runs -/

/-- The runs whose calls are all careful. -/
def CarefulCalls (cv : Converters σ) (w : Wire) (s : Session σ) (c : Called)
    (s' : Session σ) : Prop := c.Careful s ∧ Calls cv w s c s'

theorem run_carrying {cs : List Called} (hrun : Run (CarefulCalls cv w) s cs s')
    (h : s.stmt.Carrying w) :
    s'.stmt.Carrying w ∧ Passes s.stmt.cursor (cs.flatMap Called.traffic) s'.stmt.cursor := by
  let I : List Traffic → Session σ → Prop := fun acc t ↦
    t.stmt.Carrying w ∧ Passes s.stmt.cursor acc t.stmt.cursor
  have hstep : ∀ acc t c t', I acc t → CarefulCalls cv w t c t' → I (acc ++ c.traffic) t' := by
    intro acc t c t' ⟨ht, hpass⟩ ⟨hcare, hc⟩
    obtain ⟨ht', hpass'⟩ := stmtCall_carrying ht hc hcare
    exact ⟨ht', hpass.append hpass'⟩
  exact hrun.accumulate Called.traffic hstep ⟨h, .nil _⟩

/-- The messages hand the cursors back, in order and each one exactly. -/
def HandsBack (traffic : List Traffic) : Prop :=
  List.Forall₂ Body.Carries (traffic.flatMap Ledger.Event.returning)
    (traffic.flatMap Ledger.Event.received)

/-- Calls in a row, each with whether a request to close is taken. -/
def runCalls (cv : Converters σ) (w : Wire) :
    List (StmtCall × Bool) → Session σ → Exec (List Called × Session σ)
  | [], s => .done ([], s)
  | (c, sent) :: cs, s => (s.stmtCall cv w c).bind fun (ret, s') ↦
    (runCalls cv w cs s').bind fun (os, s'') ↦
      .done (⟨c, sent, ret, s.traffic cv w sent c⟩ :: os, s'')

theorem runCalls_run {cs : List (StmtCall × Bool)} {os : List Called}
    (h : runCalls cv w cs s = .done (os, s')) : Run (Calls cv w) s os s' := by
  induction cs generalizing s os with
  | nil => cases h; exact .nil _
  | cons c cs ih =>
    obtain ⟨⟨r, t⟩, ht, h⟩ := Exec.bind_eq_done.mp h
    obtain ⟨⟨os', t'⟩, hos, h⟩ := Exec.bind_eq_done.mp h
    cases h
    exact .cons ⟨ht, rfl⟩ (ih hos)

def StmtCall.isCall : StmtCall → Bool
  | .call _ => true
  | _ => false

/-- A call of the application that the transport serves. -/
def Called.Plain (c : Called) : Prop := c.sent = true ∧ c.call.isCall = true

instance (c : Called) : Decidable c.Plain := by
  unfold Called.Plain
  infer_instance

theorem Called.Plain.careful {c : Called} (h : c.Plain) (s : Session σ) : c.Careful s := by
  obtain ⟨hsent, hcall⟩ := h
  refine ⟨fun _ _ ↦ hsent, fun f hf ↦ ?_, fun closed v hv ↦ ?_⟩
  · rw [hf] at hcall
    cases hcall
  · rw [hv] at hcall
    cases hcall

theorem run_careful {os : List Called} (h : Run (Calls cv w) s os s')
    (hplain : ∀ c ∈ os, c.Plain) : Run (CarefulCalls cv w) s os s' := by
  induction h with
  | nil s => exact .nil s
  | cons hc _ ih =>
    exact .cons ⟨(hplain _ List.mem_cons_self).careful _, hc⟩
      (ih fun c hc ↦ hplain c (List.mem_cons_of_mem _ hc))

/-- A connection that packs JSON. -/
def jsonWire : Wire := ⟨true, fun _ ↦ 0⟩

/-- A page with one row. -/
def pageAnswer (first : Bool) (cursor : WStr) : Answer :=
  jsonAnswer (if first then [[0x61]] else []) [[.longLong 1]] cursor

/-- A statement with two pages to come. -/
def pagesSession : Session Unit :=
  .init [] ⟨[], 8, 15, 1, 0, 8, 0, .floatNumeric, 24⟩ ()
    [.answer (pageAnswer true [0x61]), .answer (pageAnswer false [0x62])]
    (fun _ ↦ .init .stmt .ard false) (fun _ ↦ []) fun _ ↦ 0

theorem kept_pageAnswer (first : Bool) : (pageAnswer first [0x61]).Kept true ∧
    (pageAnswer first [0x62]).Kept true := by
  have hsend (u : UInt16) (h : u ≠ 0 ∧ u ≤ 127 ∧ Json.Plain u.toUInt8) :
      ∀ c, some (Cursor.json [u]) = some c → c.Sendable true := by
    intro c hc
    cases hc
    exact List.forall_mem_singleton.mpr ⟨h.1, h.2.1, fun _ ↦ h.2.2⟩
  have htaken : ((pageAnswer first [0x61]).taken = (pageAnswer first [0x61]).delivered ∧
      (pageAnswer first [0x62]).taken = (pageAnswer first [0x62]).delivered) ∧
      (pageAnswer first [0x61]).delivered = some (.json [0x61]) ∧
      (pageAnswer first [0x62]).delivered = some (.json [0x62]) := by
    cases first <;> decide +kernel
  obtain ⟨⟨ha, hb⟩, hda, hdb⟩ := htaken
  refine ⟨⟨ha, ?_⟩, hb, ?_⟩
  · rw [hda]
    exact hsend _ (by decide)
  · rw [hdb]
    exact hsend _ (by decide)

theorem kept_pagesSession {a : Answer}
    (h : .answer a ∈ pagesSession.stmt.replies) : a.Kept true := by
  rcases List.mem_cons.mp h with h | h
  · cases h
    exact (kept_pageAnswer true).1
  · cases List.mem_singleton.mp h
    exact (kept_pageAnswer false).2

end Session

end EsOdbc
