import EsOdbc.AttachFrame

/-!
# The columns of an answer

The two ways of attaching columns come to the same once the names and types are read
(`attachNamed`).  An answer that is attached to a statement without columns leaves it with
the columns the answer describes, their names in the block that the statement then owns
(`attachAnswer_columns`).
-/

namespace EsOdbc

open Cbor (Item)

variable {σ : Type}

theorem forall₂_right {α β : Type} {R : α → β → Prop} {as : List α} {bs : List β}
    (h : List.Forall₂ R as bs) : ∀ b ∈ bs, ∃ a ∈ as, R a b := by
  induction h with
  | nil => exact fun _ h ↦ absurd h List.not_mem_nil
  | cons hab _ ih =>
    refine List.forall_mem_cons.mpr ⟨⟨_, List.mem_cons_self, hab⟩, fun b hb ↦ ?_⟩
    obtain ⟨a, ha, hr⟩ := ih b hb
    exact ⟨a, List.mem_cons_of_mem _ ha, hr⟩

/-! ## Names and types -/

/-- Attaching columns given by their names and types. -/
def attachNamed (esTypes : List EsType) (block : Nat) :
    List IRec → List (WStr × WStr) → Exec (Bool × List IRec)
  | recs, [] => .done (true, recs)
  | [], _ :: _ => .undefined
  | r :: recs, (name, type) :: cols =>
    match attachOneColumn esTypes r block name type with
    | (false, r) => .done (false, r :: recs)
    | (true, r) => (attachNamed esTypes block recs cols).bind fun (ok, recs) ↦ .done (ok, r :: recs)

theorem attachColumnsLoopJson_eq {esTypes : List EsType} {block : Nat} {recs : List IRec}
    {cs : List UJValue} {cols : List (WStr × WStr)} (h : cs.map columnJson = cols.map some) :
    attachColumnsLoopJson esTypes block recs cs = attachNamed esTypes block recs cols := by
  induction cs generalizing recs cols with
  | nil => cases cols with
    | nil => cases recs <;> rfl
    | cons c cols => cases h
  | cons c cs ih =>
    cases cols with
    | nil => cases h
    | cons col cols =>
      rw [List.map_cons, List.map_cons, List.cons.injEq] at h
      cases recs with
      | nil => rw [attachColumnsLoopJson.eq_def]; simp only [h.1]; rfl
      | cons r recs =>
        rw [attachColumnsLoopJson.eq_def]
        simp only [h.1, attachNamed, ih h.2] <;> rfl

theorem iterateOnColumns_eq {esTypes : List EsType} {block : Nat} {recs : List IRec}
    {xs : List Item} {cols : List (WStr × WStr)}
    (h : xs.map columnCbor = cols.map fun c ↦ .done (some c)) :
    iterateOnColumns esTypes block recs xs = attachNamed esTypes block recs cols := by
  induction xs generalizing recs cols with
  | nil => cases cols with
    | nil => cases recs <;> rfl
    | cons c cols => cases h
  | cons x xs ih =>
    cases cols with
    | nil => cases h
    | cons col cols =>
      rw [List.map_cons, List.map_cons, List.cons.injEq] at h
      cases recs with
      | nil => rw [iterateOnColumns.eq_def]; simp only [h.1]; rfl
      | cons r recs =>
        rw [iterateOnColumns.eq_def]
        simp only [h.1, attachNamed, ih h.2, Exec.bind_done] <;> rfl

/-- A loop that goes through has read a name and a type off every element. -/
theorem attachColumnsLoopJson_read {esTypes : List EsType} {block : Nat} {recs recs' : List IRec}
    {cs : List UJValue} (h : attachColumnsLoopJson esTypes block recs cs = .done (true, recs')) :
    ∃ cols : List (WStr × WStr), cs.map columnJson = cols.map some := by
  induction cs generalizing recs recs' with
  | nil => exact ⟨[], rfl⟩
  | cons c cs ih =>
    rw [attachColumnsLoopJson.eq_def] at h
    dsimp only at h
    cases hc : columnJson c with
    | none => rw [hc] at h; cases h
    | some col =>
      rw [hc] at h
      cases recs with
      | nil => cases h
      | cons r recs =>
        dsimp only at h
        split at h
        · cases h
        · obtain ⟨⟨ok, recs'⟩, hl, h⟩ := Exec.bind_eq_done.mp h
          cases h
          obtain ⟨cols, hcols⟩ := ih hl
          exact ⟨col :: cols, by rw [List.map_cons, hc, hcols]; rfl⟩

theorem iterateOnColumns_read {esTypes : List EsType} {block : Nat} {recs recs' : List IRec}
    {xs : List Item} (h : iterateOnColumns esTypes block recs xs = .done (true, recs')) :
    ∃ cols : List (WStr × WStr), xs.map columnCbor = cols.map fun c ↦ .done (some c) := by
  induction xs generalizing recs recs' with
  | nil => exact ⟨[], rfl⟩
  | cons x xs ih =>
    rw [iterateOnColumns.eq_def] at h
    cases recs with
    | nil =>
      obtain ⟨c, hc, h⟩ := Exec.bind_eq_done.mp h
      cases c <;> cases h
    | cons r recs =>
      obtain ⟨c, hc, h⟩ := Exec.bind_eq_done.mp h
      cases c with
      | none => cases h
      | some col =>
        dsimp only at h
        split at h
        · cases h
        · obtain ⟨⟨ok, recs'⟩, hl, h⟩ := Exec.bind_eq_done.mp h
          cases h
          obtain ⟨cols, hcols⟩ := ih hl
          exact ⟨col :: cols, by rw [List.map_cons, hc, hcols]; rfl⟩

/-- A record with the name it was given, in the block. -/
structure NamedIn (block : Nat) (name : WStr) (r : IRec) : Prop where
  text : r.name.text = name
  label : r.label = r.name
  home : r.name = .empty ∨ r.name = .inBlock block name

theorem attachOneColumn_named {esTypes : List EsType} {r r' : IRec} {block : Nat}
    {name type : WStr} (h : attachOneColumn esTypes r block name type = (true, r')) :
    NamedIn block name r' := by
  unfold attachOneColumn at h
  dsimp only at h
  cases hc : columnType esTypes type r.col with
  | none => rw [hc] at h; cases h
  | some col =>
    rw [hc] at h
    cases h
    cases name with
    | nil => exact ⟨rfl, rfl, .inl rfl⟩
    | cons c name => exact ⟨rfl, rfl, .inr rfl⟩

theorem attachNamed_named {esTypes : List EsType} {block : Nat} {recs recs' : List IRec}
    {cols : List (WStr × WStr)} (hlen : recs.length ≤ cols.length)
    (h : attachNamed esTypes block recs cols = .done (true, recs')) :
    List.Forall₂ (NamedIn block) (cols.map Prod.fst) recs' := by
  induction cols generalizing recs recs' with
  | nil =>
    cases recs with
    | nil => cases h; exact .nil
    | cons r recs => cases hlen
  | cons col cols ih =>
    cases recs with
    | nil => cases h
    | cons r recs =>
      rw [attachNamed] at h
      split at h
      · cases h
      · rename_i r' hr
        obtain ⟨⟨ok, recs'⟩, hl, h⟩ := Exec.bind_eq_done.mp h
        cases h
        exact .cons (attachOneColumn_named hr) (ih (Nat.le_of_succ_le_succ hlen) hl)

/-! ## Answers -/

/-- The names and types that an answer describes its columns with. -/
def Answer.columns : Answer → Option (List (WStr × WStr))
  | .json (some obj) =>
    (obj.unpack (wstr packParamColumns) UJValue.isArray).bind fun columns ↦
      columns.beginArray.mapM columnJson
  | .cbor (some (.map _ entries)) =>
    match cborMapLookupKeys entries
        [cstr packParamColumns, cstr packParamCursor, cstr packParamRows] with
    | some (.ok [some (.array _ items), _, _]) => items.mapM fun x ↦
      match columnCbor x with
      | .done col => col
      | _ => none
    | _ => none
  | _ => none

theorem mapM_of_map {α β : Type} {f : α → Option β} {xs : List α} {ys : List β}
    (h : xs.map f = ys.map some) : xs.mapM f = some ys := by
  induction xs generalizing ys with
  | nil =>
    cases ys with
    | nil => rfl
    | cons y ys => cases h
  | cons x xs ih =>
    cases ys with
    | nil => cases h
    | cons y ys =>
      rw [List.map_cons, List.map_cons, List.cons.injEq] at h
      rw [List.mapM_cons, h.1, ih h.2]
      rfl

theorem updateRecCount_length {n : Nat} {recs : List IRec}
    (h : updateRecCount [] (toSqlsmallint n) = .ok recs) : recs.length ≤ n := by
  have hle : (toSqlsmallint n).toNat ≤ n := by
    unfold toSqlsmallint
    split_ifs <;> omega
  unfold updateRecCount at h
  split_ifs at h
  · cases h
    exact Nat.zero_le n
  · cases h
    simpa using hle

theorem updateRecCount_error {recs : List IRec} {n : Int} {e : SqlState}
    (h : updateRecCount recs n = .error e) : e = .s07009 := by
  unfold updateRecCount at h
  split_ifs at h <;> cases h <;> rfl

/-- Success of the columns of a JSON answer. -/
theorem attachColumnsJson_named {s s' : Stmt σ} {block : Nat} {columns : UJValue} {r : SqlReturn}
    (hird : s.ird = []) (h : attachColumnsJson s block columns = .done (r, s'))
    (hr : r.succeeded = true) :
    ∃ cols, columns.beginArray.mapM columnJson = some cols ∧
      List.Forall₂ (NamedIn block) (cols.map Prod.fst) s'.ird := by
  unfold attachColumnsJson at h
  rw [hird] at h
  cases hu : updateRecCount [] (toSqlsmallint columns.beginArray.length) with
  | error e =>
    rw [hu] at h
    cases h
    rw [updateRecCount_error hu] at hr
    cases hr
  | ok recs =>
    rw [hu] at h
    dsimp only at h
    split_ifs at h
    · cases h
      cases hr
    · obtain ⟨⟨ok, recs'⟩, hl, h⟩ := Exec.bind_eq_done.mp h
      cases ok with
      | false => cases h; cases hr
      | true =>
        cases h
        obtain ⟨cols, hcols⟩ := attachColumnsLoopJson_read hl
        rw [attachColumnsLoopJson_eq hcols] at hl
        have hlen : columns.beginArray.length = cols.length := by
          simpa using congrArg List.length hcols
        exact ⟨cols, mapM_of_map hcols,
          attachNamed_named (hlen ▸ updateRecCount_length hu) hl⟩

/-- Success of the columns of a CBOR answer, of which there is one at least. -/
theorem attachColumnsCbor_named {s s' : Stmt σ} {indef : Bool} {items : List Item} {r : SqlReturn}
    (hird : s.ird = []) (h : attachColumnsCbor s (.array indef items) = .done (r, s'))
    (hr : r.succeeded = true) (hne : s'.ird ≠ []) :
    ∃ cols : List (WStr × WStr), items.map columnCbor = cols.map (fun c ↦ .done (some c)) ∧
      s'.rset.cbor.colsBuff = some s.nextBlock ∧
      List.Forall₂ (NamedIn s.nextBlock) (cols.map Prod.fst) s'.ird := by
  unfold attachColumnsCbor at h
  dsimp only at h
  rw [hird] at h
  cases hc : cborGetArrayCount indef items with
  | error e => rw [hc] at h; cases h; cases hr
  | ok n =>
    have hn : n = items.length := by
      unfold cborGetArrayCount at hc
      split_ifs at hc
      · cases hx : cborValueExitContainer items with
        | error e => rw [hx] at hc; cases hc
        | ok u => rw [hx] at hc; cases hc; rfl
      · cases hc; rfl
    rw [hc] at h
    dsimp only at h
    cases hu : updateRecCount [] (toSqlsmallint n) with
    | error e =>
      rw [hu] at h
      cases h
      rw [updateRecCount_error hu] at hr
      cases hr
    | ok recs =>
      rw [hu] at h
      obtain ⟨size, hs, h⟩ := Exec.bind_eq_done.mp h
      match size, hs with
      | none, _ => cases h; cases hr
      | some 0, hs =>
        -- no element takes no room: there are none
        cases h
        have hnil : items = [] := by
          cases items with
          | nil => rfl
          | cons x xs =>
            obtain ⟨c, -, hs⟩ := Exec.bind_eq_done.mp hs
            cases c with
            | none => cases hs
            | some c =>
              obtain ⟨m, -, hs⟩ := Exec.bind_eq_done.mp hs
              cases m with
              | none => cases hs
              | some m =>
                injection hs with hs
                injection hs with hs
                omega
        rw [hn, hnil] at hu
        exact absurd (List.length_eq_zero_iff.mp (Nat.le_zero.mp (updateRecCount_length hu))) hne
      | some (_ + 1), _ =>
        obtain ⟨⟨ok, recs'⟩, hl, h⟩ := Exec.bind_eq_done.mp h
        cases ok with
        | false => cases h; cases hr
        | true =>
          cases h
          obtain ⟨cols, hcols⟩ := iterateOnColumns_read hl
          rw [iterateOnColumns_eq hcols] at hl
          have hlen : n = cols.length := by
            rw [hn]
            simpa using congrArg List.length hcols
          exact ⟨cols, hcols, rfl, attachNamed_named (hlen ▸ updateRecCount_length hu) hl⟩

/-- The end of `attach_answer` is a success only with columns. -/
theorem attachEnd_succeeded {n : Nat} {ret r : SqlReturn} {t s : Stmt σ}
    (h : attachEnd n ret t = (r, s)) (hr : r.succeeded = true) :
    ret.succeeded = true ∧ t.ird ≠ [] ∧ s.ird = t.ird ∧ s.rset = t.rset := by
  unfold attachEnd at h
  cases hret : ret.succeeded with
  | false =>
    rw [hret, if_neg Bool.false_ne_true] at h
    cases h
    rw [hret] at hr
    cases hr
  | true =>
    rw [hret, if_pos rfl] at h
    by_cases hird : t.ird = []
    · rw [hird, List.isEmpty_nil, if_pos rfl] at h
      cases h
      cases hr
    · rw [List.isEmpty_eq_false_iff.mpr hird, if_neg Bool.false_ne_true] at h
      refine ⟨rfl, hird, ?_⟩
      dsimp only at h
      split_ifs at h <;> cases h <;> exact ⟨rfl, rfl⟩

/-- An answer attached to a statement without columns leaves it with those that the answer
describes, their names in the block that the statement owns. -/
theorem attachAnswer_columns {s s' : Stmt σ} {a : Answer} {r : SqlReturn} (hird : s.ird = [])
    (hclear : s.hasResultset = false → s.rset = .zero)
    (h : attachAnswer s a = .done (r, s')) (hr : r.succeeded = true) :
    ∃ cols b, a.columns = some cols ∧ s'.owned = some b ∧ s'.ird ≠ [] ∧
      List.Forall₂ (NamedIn b) (cols.map Prod.fst) s'.ird := by
  unfold attachAnswer at h
  obtain ⟨⟨ret, t⟩, ht, h⟩ := Exec.bind_eq_done.mp h
  injection h with h
  obtain ⟨hret, hne, hird', hrset⟩ := attachEnd_succeeded h hr
  have howned : s'.owned = t.owned := by simp only [Stmt.owned, hrset]
  rw [howned, hird']
  have htake := s.takeBody_rset a.isJson hclear
  have hird₀ : (s.takeBody a.isJson).ird = [] := by
    unfold Stmt.takeBody
    split_ifs <;> exact hird
  generalize s.takeBody a.isJson = s₀ at ht htake hird₀
  have hno : ¬0 < s₀.ird.length := by rw [hird₀]; exact Nat.lt_irrefl 0
  cases a with
  | json v =>
    change attachAnswerJson s₀ v = _ at ht
    unfold attachAnswerJson at ht
    cases v with
    | none => cases ht; cases hret
    | some obj =>
      dsimp only at ht
      cases hrows : obj.unpack (wstr packParamRows) UJValue.isArray with
      | none => rw [hrows] at ht; cases ht; cases hret
      | some rows =>
        cases hcols : obj.unpack (wstr packParamColumns) UJValue.isArray with
        | none =>
          rw [hrows, hcols] at ht
          cases ht
          exact absurd hird₀ hne
        | some columns =>
          rw [hrows, hcols] at ht
          dsimp only at ht
          rw [if_neg hno] at ht
          obtain ⟨cols, hread, hnamed⟩ := attachColumnsJson_named (by exact hird₀) ht hret
          refine ⟨cols, s₀.nextBlock, by rw [Answer.columns, hcols]; exact hread, ?_, hne, hnamed⟩
          rw [attachColumnsJson_frame.2 _ _ ht]
          simp [Stmt.owned, Resultset.setJson, htake, Answer.isJson]
  | cbor x =>
    change attachAnswerCbor s₀ x = _ at ht
    unfold attachAnswerCbor at ht
    split at ht
    · rename_i indef entries
      split at ht
      · cases ht
      · rename_i columns cursor indef' items hl
        dsimp only at ht
        split at ht
        · cases ht; cases hret
        · cases columns with
          | none => cases ht; exact absurd hird₀ hne
          | some columns =>
            dsimp only at ht
            rw [if_neg hno] at ht
            cases columns with
            | array indef₂ cs =>
              obtain ⟨cols, hread, hbuff, hnamed⟩ := attachColumnsCbor_named (by exact hird₀) ht hret hne
              have hmap : cs.map (fun x ↦ match columnCbor x with
                  | .done col => col
                  | _ => none) = cols.map some := by
                have := congrArg (List.map fun
                  | .done col => col
                  | _ => none) hread
                simpa [List.map_map, Function.comp_def] using this
              refine ⟨cols, s₀.nextBlock, ?_, ?_, hne, hnamed⟩
              · rw [Answer.columns, hl]
                exact mapM_of_map hmap
              · have hpack : t.rset.packJson = false := by
                  rcases attachColumnsCbor_frame.2 _ _ ht with ht' | ht' <;>
                    rw [ht'] <;> simp [Resultset.setCbor, htake, Answer.isJson]
                rw [Stmt.owned, hpack, if_neg Bool.false_ne_true, hbuff]
            | _ => cases ht
      · cases ht; cases hret
    · cases ht; cases hret

end EsOdbc
