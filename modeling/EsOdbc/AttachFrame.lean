import EsOdbc.Fetch

/-!
# What attaching an answer changes

Attaching never touches the application's side, and the records of the IRD only when
there were none.  The block that the new result set owns is a fresh one, whatever comes
of the call; `attachAnswer_frame` is what the fetch loop and the ownership of names rest
on.
-/

namespace EsOdbc

open Cbor (Item)

variable {σ : Type}

/-! ## Columns -/

theorem attachColumnsLoopJson_ne_exhausted (esTypes : List EsType) (block : Nat)
    (recs : List IRec) (cs : List UJValue) :
    attachColumnsLoopJson esTypes block recs cs ≠ .exhausted := by
  induction cs generalizing recs with
  | nil => simp [attachColumnsLoopJson]
  | cons c cs ih =>
    rw [attachColumnsLoopJson.eq_def]
    dsimp only
    split
    · nofun
    · nofun
    · split
      · nofun
      · exact Exec.bind_ne_exhausted (ih _) nofun

theorem attachColumnsJson_frame {s : Stmt σ} {block : Nat} {columns : UJValue} :
    attachColumnsJson s block columns ≠ .exhausted ∧
      ∀ r s', attachColumnsJson s block columns = .done (r, s') →
        s' = { s with diag := s'.diag, ird := s'.ird } := by
  unfold attachColumnsJson
  cases updateRecCount s.ird (toSqlsmallint columns.beginArray.length) with
  | error e => exact ⟨by simp, by rintro r s' ⟨⟩; rfl⟩
  | ok recs =>
    dsimp only
    split_ifs
    · exact ⟨by simp, by rintro r s' ⟨⟩; rfl⟩
    · have := attachColumnsLoopJson_ne_exhausted s.esTypes block recs columns.beginArray
      cases hl : attachColumnsLoopJson s.esTypes block recs columns.beginArray with
      | exhausted => exact absurd hl this
      | undefined => exact ⟨by simp, by rintro r s' ⟨⟩⟩
      | done x =>
        obtain ⟨ok, recs'⟩ := x
        cases ok <;> exact ⟨by simp, by rintro r s' ⟨⟩; rfl⟩

theorem columnCbor_ne_exhausted (x : Item) : columnCbor x ≠ .exhausted := by
  unfold columnCbor
  split
  · split <;> simp
  · simp

theorem iterateOnColumnsSize_ne_exhausted (items : List Item) :
    iterateOnColumnsSize items ≠ .exhausted := by
  induction items with
  | nil => simp [iterateOnColumnsSize]
  | cons x xs ih =>
    refine Exec.bind_ne_exhausted (columnCbor_ne_exhausted x) ?_
    rintro (_ | nt)
    · nofun
    · exact Exec.bind_ne_exhausted ih (by rintro (_ | n) <;> nofun)

theorem iterateOnColumns_ne_exhausted (esTypes : List EsType) (block : Nat)
    (recs : List IRec) (items : List Item) :
    iterateOnColumns esTypes block recs items ≠ .exhausted := by
  induction items generalizing recs with
  | nil => simp [iterateOnColumns]
  | cons x xs ih =>
    cases recs with
    | nil => exact Exec.bind_ne_exhausted (columnCbor_ne_exhausted x) (by rintro (_ | _) <;> nofun)
    | cons r recs =>
      refine Exec.bind_ne_exhausted (columnCbor_ne_exhausted x) ?_
      rintro (_ | nt)
      · nofun
      · dsimp only
        split
        · nofun
        · exact Exec.bind_ne_exhausted (ih _) nofun

/-- The statement after the columns of a CBOR answer: the buffer is a fresh block. -/
theorem attachColumnsCbor_frame {s : Stmt σ} {columns : Item} :
    attachColumnsCbor s columns ≠ .exhausted ∧
      ∀ r s', attachColumnsCbor s columns = .done (r, s') →
        s' = { s with diag := s'.diag, ird := s'.ird } ∨
        s' = { s with
          diag := s'.diag
          ird := s'.ird
          nextBlock := s.nextBlock + 1
          rset := { s.rset with cbor := { s.rset.cbor with colsBuff := some s.nextBlock } } } := by
  unfold attachColumnsCbor
  split
  · rename_i indef items
    cases cborGetArrayCount indef items with
    | error e => exact ⟨by simp, by rintro r s' ⟨⟩; exact .inl rfl⟩
    | ok ncols =>
      dsimp only
      cases updateRecCount s.ird (toSqlsmallint ncols) with
      | error e => exact ⟨by simp, by rintro r s' ⟨⟩; exact .inl rfl⟩
      | ok recs =>
        dsimp only
        have := iterateOnColumnsSize_ne_exhausted items
        cases hs : iterateOnColumnsSize items with
        | exhausted => exact absurd hs this
        | undefined => exact ⟨by simp, by rintro r s' ⟨⟩⟩
        | done n =>
          match n with
          | none => exact ⟨by simp, by rintro r s' ⟨⟩; exact .inl rfl⟩
          | some 0 => exact ⟨by simp, by rintro r s' ⟨⟩; exact .inl rfl⟩
          | some (_ + 1) =>
            have := iterateOnColumns_ne_exhausted s.esTypes s.nextBlock recs items
            simp only [Exec.bind_done]
            cases hl : iterateOnColumns s.esTypes s.nextBlock recs items with
            | exhausted => exact absurd hl this
            | undefined => exact ⟨by simp, by rintro r s' ⟨⟩⟩
            | done x =>
              obtain ⟨ok, recs'⟩ := x
              cases ok <;> exact ⟨by simp, by rintro r s' ⟨⟩; exact .inr rfl⟩
  · exact ⟨by simp, by rintro r s' ⟨⟩⟩

/-! ## Answers -/

/-- What no way of attaching an answer changes, and what it makes of the blocks. -/
structure AttachFrame (isJson : Bool) (s s' : Stmt σ) : Prop where
  esTypes : s'.esTypes = s.esTypes
  tvRows : s'.tvRows = s.tvRows
  arrayStatus : s'.arrayStatus = s.arrayStatus
  rowsProcessed : s'.rowsProcessed = s.rowsProcessed
  ard : s'.ard = s.ard
  earlyExecuted : s'.earlyExecuted = s.earlyExecuted
  app : s'.app = s.app
  replies : s'.replies = s.replies
  gdCol : s'.gdCol = s.gdCol ∨ s'.gdCol = -1
  body : s'.rset.body = true
  packJson : s'.rset.packJson = isJson
  ird : s.ird ≠ [] → s'.ird = s.ird
  nextBlock : s.nextBlock ≤ s'.nextBlock
  owned : ∀ b, s'.owned = some b → s.nextBlock ≤ b ∧ b < s'.nextBlock

theorem AttachFrame.of_diag {isJson : Bool} {s s' t : Stmt σ} (h : AttachFrame isJson s s')
    (ht : t = { s' with diag := t.diag, sql2cConversion := t.sql2cConversion, nset := t.nset }) :
    AttachFrame isJson s t := by
  rw [ht]
  exact ⟨h.esTypes, h.tvRows, h.arrayStatus, h.rowsProcessed, h.ard, h.earlyExecuted, h.app,
    h.replies, h.gdCol, h.body, h.packJson, h.ird, h.nextBlock, h.owned⟩

theorem attachAnswerJson_frame (s : Stmt σ) (v : Option UJValue) :
    attachAnswerJson s v ≠ .exhausted ∧
      ∀ r s', attachAnswerJson s v = .done (r, s') →
        s' = { s with
          diag := s'.diag
          ird := s'.ird
          nextBlock := s.nextBlock + 1
          rset := { s.rset with json := s'.rset.json, forcedNodata := s'.rset.forcedNodata } } ∧
        s'.rset.json.state = some s.nextBlock ∧ (s.ird ≠ [] → s'.ird = s.ird) := by
  unfold attachAnswerJson
  dsimp only
  split
  · exact ⟨nofun, by rintro r s' ⟨⟩; exact ⟨rfl, rfl, fun _ ↦ rfl⟩⟩
  · split
    · exact ⟨nofun, by rintro r s' ⟨⟩; exact ⟨rfl, rfl, fun _ ↦ rfl⟩⟩
    · split
      · split_ifs with hc
        · exact ⟨nofun, by rintro r s' ⟨⟩; exact ⟨rfl, rfl, fun _ ↦ rfl⟩⟩
        · refine ⟨attachColumnsJson_frame.1, fun r s' h ↦ ?_⟩
          have hs' := attachColumnsJson_frame.2 r s' h
          refine ⟨by rw [hs']; rfl, by rw [hs']; rfl, fun h ↦ ?_⟩
          exact absurd (List.length_pos_of_ne_nil h) hc
      · exact ⟨nofun, by rintro r s' ⟨⟩; exact ⟨rfl, rfl, fun _ ↦ rfl⟩⟩

theorem attachAnswerCbor_frame (s : Stmt σ) (x : Option Item)
    (hcols : s.rset.cbor.colsBuff = none) :
    attachAnswerCbor s x ≠ .exhausted ∧
      ∀ r s', attachAnswerCbor s x = .done (r, s') →
        s' = { s with
          diag := s'.diag
          ird := s'.ird
          nextBlock := s'.nextBlock
          rset := { s.rset with cbor := s'.rset.cbor, forcedNodata := s'.rset.forcedNodata } } ∧
        s.nextBlock ≤ s'.nextBlock ∧
        (∀ b, s'.rset.cbor.colsBuff = some b → b = s.nextBlock ∧ s.nextBlock < s'.nextBlock) ∧
        (s.ird ≠ [] → s'.ird = s.ird) := by
  have hstay : ∀ b, s.rset.cbor.colsBuff = some b →
      b = s.nextBlock ∧ s.nextBlock < s.nextBlock := by simp [hcols]
  unfold attachAnswerCbor
  dsimp only
  split
  · split
    · exact ⟨nofun, by rintro r s' ⟨⟩⟩
    · split
      · exact ⟨nofun, by rintro r s' ⟨⟩; exact ⟨rfl, le_rfl, hstay, fun _ ↦ rfl⟩⟩
      · split
        · split_ifs with hc
          · exact ⟨nofun, by rintro r s' ⟨⟩; exact ⟨rfl, le_rfl, hstay, fun _ ↦ rfl⟩⟩
          · refine ⟨attachColumnsCbor_frame.1, fun r s' h ↦ ?_⟩
            have hird : s.ird ≠ [] → s'.ird = s.ird := fun h ↦
              absurd (List.length_pos_of_ne_nil h) hc
            rcases attachColumnsCbor_frame.2 r s' h with hs' | hs' <;> rw [hs'] at hird ⊢
            · exact ⟨rfl, le_rfl, hstay, hird⟩
            · refine ⟨rfl, Nat.le_succ _, ?_, hird⟩
              rintro b ⟨⟩
              exact ⟨rfl, Nat.lt_succ_self _⟩
        · exact ⟨nofun, by rintro r s' ⟨⟩; exact ⟨rfl, le_rfl, hstay, fun _ ↦ rfl⟩⟩
    · exact ⟨nofun, by rintro r s' ⟨⟩; exact ⟨rfl, le_rfl, hstay, fun _ ↦ rfl⟩⟩
  · exact ⟨nofun, by rintro r s' ⟨⟩; exact ⟨rfl, le_rfl, hstay, fun _ ↦ rfl⟩⟩

theorem Stmt.takeBody_rset (s : Stmt σ) (isJson : Bool)
    (hclear : s.hasResultset = false → s.rset = .zero) :
    (s.takeBody isJson).rset = { Resultset.zero with body := true, packJson := isJson } := by
  unfold takeBody
  split_ifs with h
  · rfl
  · simp [hclear (by simpa using h), Resultset.zero]

theorem AttachFrame.of_takeBody {isJson : Bool} {s t : Stmt σ}
    (h : AttachFrame isJson (s.takeBody isJson) t) : AttachFrame isJson s t := by
  unfold Stmt.takeBody at h
  split_ifs at h
  · exact ⟨h.esTypes, h.tvRows, h.arrayStatus, h.rowsProcessed, h.ard, h.earlyExecuted, h.app,
      h.replies, h.gdCol.elim .inr .inr, h.body, h.packJson, h.ird, h.nextBlock, h.owned⟩
  · exact ⟨h.esTypes, h.tvRows, h.arrayStatus, h.rowsProcessed, h.ard, h.earlyExecuted, h.app,
      h.replies, h.gdCol, h.body, h.packJson, h.ird, h.nextBlock, h.owned⟩

theorem attachEnd_frame {isJson : Bool} {s t : Stmt σ} (h : AttachFrame isJson s t)
    (oldIrdCnt : Nat) (ret : SqlReturn) :
    AttachFrame isJson s (attachEnd oldIrdCnt ret t).2 := by
  unfold attachEnd
  dsimp only
  split_ifs <;> exact h.of_diag rfl

theorem attachFormat_frame (s : Stmt σ) (a : Answer)
    (hrset : s.rset = { Resultset.zero with body := true, packJson := a.isJson }) :
    attachFormat s a ≠ .exhausted ∧
      ∀ r t, attachFormat s a = .done (r, t) → AttachFrame a.isJson s t := by
  have hbody : s.rset.body = true := by rw [hrset]
  have hpack : s.rset.packJson = a.isJson := by rw [hrset]
  have hbuff : s.rset.cbor.colsBuff = none := by rw [hrset]; rfl
  cases a with
  | json v =>
    obtain ⟨hne, hframe⟩ := attachAnswerJson_frame s v
    refine ⟨hne, fun r t h ↦ ?_⟩
    obtain ⟨ht, hstate, hird⟩ := hframe r t h
    have hnext : t.nextBlock = s.nextBlock + 1 := by rw [ht]
    have hpack' : t.rset.packJson = true := by rw [ht]; exact hpack
    have howned : ∀ b, t.owned = some b → s.nextBlock ≤ b ∧ b < t.nextBlock := by
      intro b hb
      rw [Stmt.owned, hpack', if_pos rfl, hstate] at hb
      cases hb
      omega
    have hle : s.nextBlock ≤ t.nextBlock := by omega
    exact ⟨by rw [ht], by rw [ht], by rw [ht], by rw [ht], by rw [ht], by rw [ht], by rw [ht],
      by rw [ht], .inl (by rw [ht]), by rw [ht]; exact hbody, hpack', hird, hle, howned⟩
  | cbor x =>
    obtain ⟨hne, hframe⟩ := attachAnswerCbor_frame s x hbuff
    refine ⟨hne, fun r t h ↦ ?_⟩
    obtain ⟨ht, hle, hcols, hird⟩ := hframe r t h
    have hpack' : t.rset.packJson = false := by rw [ht]; exact hpack
    have howned : ∀ b, t.owned = some b → s.nextBlock ≤ b ∧ b < t.nextBlock := by
      intro b hb
      rw [Stmt.owned, hpack', if_neg Bool.false_ne_true] at hb
      obtain ⟨rfl, hlt⟩ := hcols b hb
      exact ⟨le_rfl, hlt⟩
    exact ⟨by rw [ht], by rw [ht], by rw [ht], by rw [ht], by rw [ht], by rw [ht], by rw [ht],
      by rw [ht], .inl (by rw [ht]), by rw [ht]; exact hbody, hpack', hird, hle, howned⟩

/-- `attach_answer` on a statement whose result set, if it has none, is clear. -/
theorem attachAnswer_frame (s : Stmt σ) (a : Answer)
    (hclear : s.hasResultset = false → s.rset = .zero) :
    attachAnswer s a ≠ .exhausted ∧
      ∀ r s', attachAnswer s a = .done (r, s') → AttachFrame a.isJson s s' := by
  obtain ⟨hne, hframe⟩ :=
    attachFormat_frame (s.takeBody a.isJson) a (s.takeBody_rset a.isJson hclear)
  unfold attachAnswer
  refine ⟨Exec.bind_ne_exhausted hne fun _ ↦ Exec.done_ne_exhausted _, fun r s' h ↦ ?_⟩
  obtain ⟨⟨ret, t⟩, ht, h⟩ := Exec.bind_eq_done.mp h
  have hend := attachEnd_frame (hframe ret t ht).of_takeBody s.ird.length ret
  injection h with h
  rwa [h] at hend

end EsOdbc
