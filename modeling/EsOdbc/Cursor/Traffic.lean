import EsOdbc.Cursor.Answer
import EsOdbc.Lib.Ledger

/-!
# Cursors on the way

What a statement sends of its cursor: with the request that `EsSQLExecute` posts, in a fetch too,
and with the request to close it.  A statement that carries its cursor (`Stmt.Carrying`) keeps to
the discipline of a ledger.
-/

namespace EsOdbc

variable {σ : Type}

/-- What passes between a statement and the server. -/
abbrev Traffic := Ledger.Event Body Cursor

namespace Stmt

/-! ## Requests -/

/-- The cursor in the reply to the next request, if it is an answer. -/
def reply (s : Stmt σ) : Option (Option Cursor) :=
  match s.replies with
  | .answer a :: _ => some a.delivered
  | _ => none

/-- The state that `serialize_statement` fails with, if it does: of a statement without cursor,
`body`. -/
def bodyState (w : Wire) (s : Stmt σ) (body : Option SqlState) : Option SqlState :=
  if s.hasCursor then if (s.cursorBody w).isSome then none else some .s24000 else body

/-- The request of `EsSQLExecute`. -/
def posts (w : Wire) (s : Stmt σ) (body : Option SqlState) : List Traffic :=
  if s.earlyExecuted && s.hasResultset then []
  else if s.hasCursor then (s.cursorBody w).toList.map fun m ↦ .renew m s.reply
  else if body.isNone then [.request s.reply]
  else []

/-- The request of `close_es_cursor`, if the transport takes it. -/
def closes (w : Wire) (s : Stmt σ) (sent : Bool) : List Traffic :=
  if sent then (s.cursorBody w).toList.map .giveBack else []

/-- `EsSQLExecute`, with the state that `serialize_statement` fails with. -/
def executeBody (s : Stmt σ) (body : Option SqlState) : Exec (SqlReturn × Stmt σ) :=
  if s.earlyExecuted && s.hasResultset then .done (.success, { s with earlyExecuted := false })
  else
    let s := { s with earlyExecuted := false }
    match body with
    | none => s.curlPost
    | some state => .done (s.retHdiag state none)

theorem cursorBody_isSome (w : Wire) {s : Stmt σ} (h : s.hasCursor = true) :
    (s.cursorBody w).isSome = s.cursorSerializable := by
  rw [cursorBody, cursorSerializable, cursor, if_pos h]
  cases hp : s.rset.packJson with
  | false => rfl
  | true =>
    rw [hasCursor, if_pos hp, Bool.not_eq_true'] at h
    simp only [if_true, Option.bind_eq_bind, Option.bind_some, Cursor.bytes, asciiW2c, h,
      Bool.false_or, Bool.not_true]
    cases hall : (s.rset.json.curs.takeWhile (· ≠ 0)).all (· ≤ 127) with
    | false => rfl
    | true =>
      simp only [Bool.not_true, Bool.false_eq_true, if_false]
      split_ifs <;> rfl

/-- The request of a fetch is one of `EsSQLExecute`. -/
theorem esSQLExecute_eq (w : Wire) {s : Stmt σ} (h : s.hasCursor = true) :
    s.esSQLExecute = s.executeBody (s.bodyState w none) := by
  rw [bodyState, if_pos h, cursorBody_isSome w h, executeBody]
  unfold esSQLExecute
  dsimp only
  have hser : ({ s with earlyExecuted := false } : Stmt σ).cursorSerializable =
    s.cursorSerializable := rfl
  rw [hser]
  cases s.cursorSerializable <;> rfl

end Stmt

/-! ## The discipline -/

/-- The driver gets to the cursor that an answer brings, and it can be sent. -/
structure Answer.Kept (packJson : Bool) (a : Answer) : Prop where
  taken : a.taken = a.delivered
  sendable : ∀ c, a.delivered = some c → c.Sendable packJson

/-- A statement that can send its cursor, and will be able to. -/
structure Stmt.Carrying (w : Wire) (s : Stmt σ) : Prop where
  clear : s.hasResultset = false → s.rset = .zero
  sendable : ∀ c, s.cursor = some c → c.Sendable w.packJson
  answers : ∀ a, .answer a ∈ s.replies → a.Kept w.packJson

/-- A way from the cursor that is out to the one that is out after the events. -/
abbrev Passes : Option Cursor → List Traffic → Option Cursor → Prop :=
  Run (Ledger.Step Body.Carries)

namespace Stmt.Carrying

variable {w : Wire} {s s' : Stmt σ}

theorem congr (h : s.Carrying w) (hrset : s'.rset = s.rset) (hreplies : s'.replies = s.replies) :
    s'.Carrying w where
  clear hb := by
    rw [hrset]
    exact h.clear (by rw [← hb, hasResultset, hasResultset, hrset])
  sendable c hc := h.sendable c (by rw [← hc, cursor_congr hrset])
  answers a ha := h.answers a (by rw [← hreplies]; exact ha)

theorem of_suffix (h : s.Carrying w) (hrset : s'.rset = s.rset)
    (hreplies : s'.replies <:+ s.replies) : s'.Carrying w :=
  have hs : ({ s' with replies := s.replies } : Stmt σ).Carrying w := h.congr hrset rfl
  ⟨hs.clear, hs.sendable, fun a ha ↦ h.answers a (hreplies.subset ha)⟩

/-- A statement with an answer attached, of the server or not. -/
theorem attach_taken (h : s.Carrying w) {a : Answer}
    (ha : ∀ c, a.taken = some c → c.Sendable w.packJson) {r : SqlReturn}
    (hat : attachAnswer s a = .done (r, s')) : s'.Carrying w ∧ s'.cursor = a.taken := by
  have hf := (attachAnswer_frame s a h.clear).2 r s' hat
  have hc := attachAnswer_cursor h.clear hat
  refine ⟨⟨fun hb ↦ ?_, fun c hc' ↦ ha c (hc.symm.trans hc'), fun b hb ↦ ?_⟩, hc⟩
  · rw [hasResultset, hf.body] at hb
    cases hb
  · exact h.answers b (by rw [← hf.replies]; exact hb)

/-- A statement with an answer of the server attached. -/
theorem attach (h : s.Carrying w) {a : Answer} (ha : a.Kept w.packJson) {r : SqlReturn}
    (hat : attachAnswer s a = .done (r, s')) : s'.Carrying w ∧ s'.cursor = a.delivered := by
  rw [← ha.taken]
  exact h.attach_taken (fun c hc ↦ ha.sendable c (ha.taken.symm.trans hc)) hat

theorem exists_body (h : s.Carrying w) {c : Cursor} (hc : s.cursor = some c) :
    ∃ m, s.cursorBody w = some m ∧ m.Carries c :=
  s.cursorBody_carries w hc (h.sendable c hc)

/-- A request that is posted: the cursor is the one of the answer, if there is one. -/
theorem curlPost (h : s.Carrying w) {r : SqlReturn} (hpost : s.curlPost = .done (r, s')) :
    s'.Carrying w ∧ s'.cursor = s.reply.getD s.cursor := by
  unfold Stmt.curlPost at hpost
  rw [reply]
  split at hpost
  · rename_i a rest hr
    have ha : a.Kept w.packJson := h.answers a (by rw [hr]; exact List.mem_cons_self)
    have ht : ({ s with replies := rest } : Stmt σ).Carrying w :=
      h.of_suffix rfl (by rw [hr]; exact List.suffix_cons _ _)
    rw [hr]
    exact ht.attach ha hpost
  · rename_i rest hr
    cases hpost
    rw [hr]
    exact ⟨h.of_suffix rfl (by rw [hr]; exact List.suffix_cons _ _), rfl⟩
  · rename_i hr
    cases hpost
    rw [hr]
    exact ⟨h.congr rfl hr.symm, rfl⟩

theorem passes_executeBody (h : s.Carrying w) {body : Option SqlState} {r : SqlReturn}
    (hex : s.executeBody (s.bodyState w body) = .done (r, s')) :
    s'.Carrying w ∧ Passes s.cursor (s.posts w body) s'.cursor := by
  have hearly : ({ s with earlyExecuted := false } : Stmt σ).Carrying w := h.congr rfl rfl
  unfold executeBody at hex
  dsimp only at hex
  rw [posts]
  split_ifs at hex with he
  · cases hex
    rw [if_pos he]
    exact ⟨hearly, .nil _⟩
  rw [bodyState, ← s.cursor_isSome] at hex
  rw [if_neg he, ← s.cursor_isSome]
  cases hc : s.cursor with
  | some c =>
    obtain ⟨m, hm, hcarries⟩ := h.exists_body hc
    simp only [hc, hm, Option.isSome_some, if_true] at hex ⊢
    obtain ⟨hs', hcursor⟩ := hearly.curlPost hex
    refine ⟨hs', .cons ?_ (.nil _)⟩
    rw [hcursor]
    change Ledger.Step _ _ _ (s.reply.getD s.cursor)
    rw [hc]
    cases s.reply with
    | none => exact .refused hcarries
    | some c' => exact .renewed hcarries c'
  | none =>
    simp only [hc, Option.isSome_none, Bool.false_eq_true, if_false] at hex ⊢
    cases body with
    | none =>
      obtain ⟨hs', hcursor⟩ := hearly.curlPost hex
      refine ⟨hs', .cons ?_ (.nil _)⟩
      have hjoin : s'.cursor = s.reply.join := by
        rw [hcursor]
        change s.reply.getD s.cursor = _
        rw [hc]
        cases s.reply <;> rfl
      rw [hjoin]
      exact .request _
    | some state =>
      cases hex
      refine ⟨hearly.congr rfl rfl, ?_⟩
      change Passes none [] s.cursor
      rw [hc]
      exact .nil _

/-- Closing, on a connection that takes the request. -/
theorem passes_closes (h : s.Carrying w) {sent : Bool} (hsent : s.hasCursor = true → sent = true) :
    Passes s.cursor (s.closes w sent) none := by
  rw [closes]
  cases hc : s.cursor with
  | some c =>
    obtain ⟨m, hm, hcarries⟩ := h.exists_body hc
    rw [if_pos (hsent (by rw [← s.cursor_isSome, hc]; rfl)), hm]
    exact .cons (.gaveBack hcarries) (.nil _)
  | none =>
    have hm : s.cursorBody w = none := by rw [cursorBody, hc]; rfl
    rw [hm]
    cases sent <;> exact .nil _

/-! ## Fetching -/

end Stmt.Carrying

/-- The request of a turn of a fetch. -/
def FetchLoop.posts (w : Wire) (l : FetchLoop σ) : List Traffic :=
  if l.Requests then l.stmt.posts w none else []

/-- The requests of a fetch. -/
def Stmt.fetchPosts (cv : Converters σ) (w : Wire) (s : Stmt σ) : List Traffic :=
  (s.fetchTurns cv).flatMap (FetchLoop.posts w)

theorem FetchLoop.cursor_afterRow (cv : Converters σ) (l : FetchLoop σ) (row : Row) (d : Diag)
    (recs : List IRec) : (l.afterRow cv row d recs).stmt.cursor = l.stmt.cursor := by
  simp only [Stmt.cursor, Stmt.hasCursor, afterRow, Resultset.stepRow]
  split_ifs <;> rfl

namespace Stmt.Carrying

variable {cv : Converters σ} {w : Wire}

/-- The checks of a fetch that fail. -/
theorem fetchChecks_frame {s s' : Stmt σ} {r : SqlReturn}
    (h : fetchChecks s = .done (some r, s')) : s'.rset = s.rset ∧ s'.replies = s.replies := by
  cases hb : s.hasResultset with
  | true =>
    obtain ⟨-, hs'⟩ := fetchChecks_some hb h
    rw [hs']
    exact ⟨rfl, rfl⟩
  | false =>
    unfold fetchChecks at h
    rw [hb, Bool.not_false, if_pos rfl] at h
    split_ifs at h <;> cases h <;> exact ⟨rfl, rfl⟩

theorem posts_of_requests {l : FetchLoop σ} (hi : l.i < l.stmt.ard.arraySize)
    (hrow : l.stmt.rset.rows l.packJson = []) (hcurs : l.stmt.hasCursor = true) :
    l.posts w = l.stmt.posts w none := if_pos ⟨hi, hrow, hcurs⟩

theorem posts_of_not_requests {l : FetchLoop σ} (h : ¬l.Requests) : l.posts w = [] := if_neg h

/-- The page that a turn requests. -/
theorem page {l : FetchLoop σ} {s : Stmt σ} {r : SqlReturn} (h : l.stmt.Carrying w)
    (hi : l.i < l.stmt.ard.arraySize) (hrow : l.stmt.rset.rows l.packJson = [])
    (hcurs : l.stmt.hasCursor = true) (hexec : l.stmt.esSQLExecute = .done (r, s)) :
    s.Carrying w ∧ Passes l.stmt.cursor (l.posts w) s.cursor := by
  rw [posts_of_requests hi hrow hcurs]
  rw [esSQLExecute_eq w hcurs] at hexec
  exact h.passes_executeBody hexec

theorem next {l o l' : FetchLoop σ} (hl : l.stmt.Ready) (h : l.stmt.Carrying w)
    (hn : Next cv l o l') :
    l'.stmt.Carrying w ∧ Passes l.stmt.cursor (o.posts w) l'.stmt.cursor := by
  obtain ⟨rfl, hn⟩ := hn
  have ht := fetchTurn_turned cv hl.gd
  rw [hn] at ht
  cases ht with
  | @row hi row rows d recs hfmt hrow hdesc =>
    have hcursor := o.cursor_afterRow cv row d recs
    have hnot : ¬o.Requests := by
      intro hr
      rw [hr.2.1] at hrow
      cases hrow
    rw [posts_of_not_requests hnot, hcursor]
    refine ⟨⟨fun hb ↦ ?_, fun c hc ↦ h.sendable c (hcursor.symm.trans hc), h.answers⟩, .nil _⟩
    have hbody : (o.stmt.rset.stepRow o.packJson o.stmt.ird.length).body = false := hb
    rw [Resultset.body_stepRow] at hbody
    exact absurd (hl.resultset.symm.trans hbody) nofun
  | page hi hrow hcurs hexec hret hnodata => exact h.page hi hrow hcurs hexec

theorem ends {l : FetchLoop σ} {s : Stmt σ} {r : SqlReturn} (hl : l.stmt.Ready)
    (h : l.stmt.Carrying w) (he : Ends cv l r s) :
    s.Carrying w ∧ Passes l.stmt.cursor (l.posts w) s.cursor := by
  have ht := fetchTurn_turned cv hl.gd
  rcases he with ⟨l', hleave, hend⟩ | hret
  · rw [hleave] at ht
    obtain ⟨rfl, -⟩ := fetchEnd_eq hend
    cases ht with
    | full hfull =>
      rw [posts_of_not_requests fun hr ↦ absurd hr.1 (Nat.not_lt.mpr hfull)]
      exact ⟨h.congr rfl rfl, .nil _⟩
    | last hi hrow hcurs =>
      have hnot : ¬l.Requests := by
        intro hr
        rw [hr.2.2] at hcurs
        cases hcurs
      rw [posts_of_not_requests hnot]
      exact ⟨h.congr rfl rfl, .nil _⟩
    | emptyPage hi hrow hcurs hexec hret hnodata =>
      obtain ⟨hs, hpass⟩ := h.page hi hrow hcurs hexec
      exact ⟨hs.congr rfl rfl, hpass⟩
  · rw [hret] at ht
    cases ht with
    | requestFailed hi hrow hcurs hexec hret => exact h.page hi hrow hcurs hexec

theorem fetch {s s' : Stmt σ} {r : SqlReturn} (h : s.Carrying w)
    (hf : esSQLFetch cv s = .done (r, s')) :
    s'.Carrying w ∧ Passes s.cursor (s.fetchPosts cv w) s'.cursor := by
  rw [fetchPosts]
  rcases esSQLFetch_cases hf with ⟨hchecks, hturns⟩ | ⟨t, ls, l, hchecks, hturns, hrun, hend⟩
  · obtain ⟨hrset, hreplies⟩ := fetchChecks_frame hchecks
    rw [hturns, cursor_congr hrset]
    exact ⟨h.congr hrset hreplies, .nil _⟩
  · obtain ⟨hready, ht⟩ := fetchChecks_none hchecks
    have hcarry : t.fetchStart.stmt.Carrying w := by
      change t.Carrying w
      rw [ht]
      exact h.congr rfl rfl
    have hstart : t.fetchStart.stmt.cursor = s.cursor := by
      change t.cursor = s.cursor
      rw [ht]
      rfl
    -- what the turns pass on adds up
    let I : List Traffic → FetchLoop σ → Prop := fun acc l ↦
      (l.stmt.Ready ∧ l.stmt.Carrying w) ∧ Passes s.cursor acc l.stmt.cursor
    have hstep : ∀ acc l o l', I acc l → Next cv l o l' → I (acc ++ o.posts w) l' := by
      intro acc l o l' ⟨⟨hl, hc⟩, hpass⟩ hn
      obtain ⟨hc', hpass'⟩ := hc.next hl hn
      exact ⟨⟨hn.ready hl, hc'⟩, hpass.append hpass'⟩
    have hI : I [] t.fetchStart := ⟨⟨hready, hcarry⟩, by rw [hstart]; exact .nil _⟩
    obtain ⟨⟨hl, hc⟩, hpass⟩ := hrun.accumulate (FetchLoop.posts w) hstep hI
    obtain ⟨hs', hpass'⟩ := hc.ends hl hend
    refine ⟨hs', ?_⟩
    rw [hturns, List.flatMap_append, List.flatMap_singleton]
    exact hpass.append hpass'

end Stmt.Carrying

end EsOdbc
