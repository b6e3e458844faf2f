import EsOdbc.Columns
import EsOdbc.Describe

/-!
# What a failed attachment leaves

`attach_answer` hands the body to the statement before it looks into it, and takes nothing back.
-/

namespace EsOdbc

open Cbor (Item)

variable {σ : Type}

/-- A statement that has nothing of an answer: no result set, and no records but those it had. -/
structure Unattached (s t : Stmt σ) : Prop where
  noResultset : t.hasResultset = false
  noRecords : t.ird = s.ird

theorem Stmt.takeBody_body (s : Stmt σ) (isJson : Bool) : (s.takeBody isJson).rset.body = true := rfl

theorem Stmt.retHdiag_rset (s : Stmt σ) (state : SqlState) (text : Option String) :
    (s.retHdiag state text).2.rset = s.rset := rfl

theorem attachColumnsCbor_body {s t : Stmt σ} {columns : Item} {ret : SqlReturn}
    (h : attachColumnsCbor s columns = .done (ret, t)) : t.rset.body = s.rset.body := by
  rcases attachColumnsCbor_frame.2 ret t h with ht | ht
  · rw [ht]
  · rw [ht]

/-- The function of a format leaves the body where it is. -/
theorem attachFormat_body {s t : Stmt σ} {answer : Answer} {ret : SqlReturn}
    (h : attachFormat s answer = .done (ret, t)) : t.rset.body = s.rset.body := by
  cases answer with
  | json v => rw [((attachAnswerJson_frame s v).2 ret t h).1]
  | cbor x =>
    change attachAnswerCbor s x = .done (ret, t) at h
    unfold attachAnswerCbor at h
    dsimp only at h
    split at h
    · split at h
      · cases h
      · split at h
        · cases h
          rfl
        · split at h
          · split_ifs at h
            · cases h
              rfl
            · rw [attachColumnsCbor_body h]
              rfl
          · cases h
            rfl
      · cases h
        rfl
    · cases h
      rfl

theorem attachEnd_rset (oldIrdCnt : Nat) (ret : SqlReturn) (t : Stmt σ) :
    (attachEnd oldIrdCnt ret t).2.rset = t.rset := by
  unfold attachEnd
  dsimp only
  split_ifs <;> rfl

/-- An answer is the statement's result set from the start, whatever it turns out to be. -/
theorem attachAnswer_hasResultset {s t : Stmt σ} {answer : Answer} {ret : SqlReturn}
    (h : attachAnswer s answer = .done (ret, t)) : t.hasResultset = true := by
  unfold attachAnswer at h
  obtain ⟨⟨ret', t'⟩, hformat, hend⟩ := Exec.bind_eq_done.mp h
  have ht : t = (attachEnd s.ird.length ret' t').2 := by
    injection hend with hend
    exact (congrArg Prod.snd hend).symm
  rw [Stmt.hasResultset, ht, attachEnd_rset, attachFormat_body hformat, Stmt.takeBody_body]

/-- No attachment that fails leaves the statement without it. -/
theorem not_unattached {s t : Stmt σ} {answer : Answer} {ret : SqlReturn}
    (h : attachAnswer s answer = .done (ret, t)) (_hfail : ret.succeeded = false) :
    ¬Unattached s t := by
  intro hnone
  have hbody := attachAnswer_hasResultset h
  rw [hnone.noResultset] at hbody
  cases hbody

/-- A connection with one type. -/
def oneType : EsType := ⟨wstr "INTEGER", 4, 10, 1, 0, 4, 0, .exactNumeric, 11⟩

/-- No rows, and one column of a type that the connection does not know. -/
def unknownTypeAnswer : Answer :=
  .json (some (.object [(wstr "columns", .array [.object [(wstr "name", .string (wstr "a")),
    (wstr "type", .string (wstr "SHAPE"))]]), (wstr "rows", .array [])]))

theorem not_unattached_undecodable : ∃ t : Stmt Unit,
    attachAnswer (.init [oneType] () []) (.json none) = .done (.error, t) ∧
      ¬Unattached (.init [oneType] () []) t :=
  ⟨_, rfl, @not_unattached Unit _ _ (.json none) .error rfl rfl⟩

/-- The column of the unknown type stays, and describing it takes its unset type. -/
theorem not_unattached_unknownType : ∃ t : Stmt Unit,
    attachAnswer (.init [oneType] () []) unknownTypeAnswer = .done (.error, t) ∧
      ¬Unattached (.init [oneType] () []) t ∧ t.ird.length = 1 ∧
      esSQLDescribeColW t 1 none = .undefined := by
  refine ⟨_, rfl, ?_, rfl, rfl⟩
  intro h
  have hbody := h.noResultset
  cases hbody

end EsOdbc
