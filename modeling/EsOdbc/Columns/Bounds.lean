import EsOdbc.Columns
import EsOdbc.Memory

/-!
# The bounds of attached columns

`attach_columns_json`, and `attach_columns_cbor` with the buffer that its two passes size and
fill: which answers have them write outside the records.
-/

namespace EsOdbc

open Cbor (Item)

variable {σ : Type}

/-! ## The names buffer -/

/-- The first value past an `int`. -/
def intLimit : ℕ := 2 ^ 31

/-- `need += n + 1`, of type `int`. -/
def addNeed (need : ℕ) (w : WStr) : Exec ℕ :=
  if need + (w.length + 1) < intLimit then .done (need + (w.length + 1)) else .undefined

/-- `iterate_on_columns`, first time. -/
def columnsNeed : ℕ → List Item → Exec (Option ℕ)
  | need, [] => .done (some need)
  | need, x :: xs => (columnCbor x).bind fun
    | none => .done none
    | some (name, type) => (addNeed need name).bind fun need ↦
      (addNeed need type).bind fun need ↦ columnsNeed need xs

/-- A converted text and its terminator at the write pointer.  Where no unit is left, the
conversion only says how many it would take, and the terminator goes behind them. -/
def putText (out : WStr × ℕ) (w : WStr) : Exec (Option (WStr × ℕ)) :=
  if out.1.length = out.2 then .undefined
  else if out.1.length - out.2 < w.length then .done none
  else (put out w).bind fun out ↦ (put out [0]).bind fun out ↦ .done (some out)

/-- `iterate_on_columns`, second time: whether it went through, the records and the buffer. -/
def fillColumns (esTypes : List EsType) (block : ℕ) :
    List IRec → List Item → WStr × ℕ → Exec ((Bool × List IRec) × (WStr × ℕ))
  | recs, [], out => .done ((true, recs), out)
  | recs, x :: xs, out => (columnCbor x).bind fun
    | none => .done ((false, recs), out)
    | some (name, type) => (putText out name).bind fun
      | none => .done ((false, recs), out)
      | some out => (putText out type).bind fun
        | none => .done ((false, recs), out)
        | some out =>
          match recs with
          | [] => .undefined
          | r :: recs =>
            match attachOneColumn esTypes r block name type with
            | (false, r) => .done ((false, r :: recs), out)
            | (true, r) => (fillColumns esTypes block recs xs out).bind fun ((ok, recs), out) ↦
              .done ((ok, r :: recs), out)

/-- `attach_columns_cbor` on an array, with the buffer it leaves. -/
def attachColumnsCborFill (s : Stmt σ) (indef : Bool) (items : List Item) :
    Exec ((SqlReturn × Stmt σ) × (WStr × ℕ)) :=
  match cborGetArrayCount indef items with
  | .error _ => .done (s.retHdiag .sHY000 msgInvSrvAns, ([], 0))
  | .ok ncols =>
    match updateRecCount s.ird (toSqlsmallint ncols) with
    | .error e => .done ((e.retcode, { s with diag := Diag.init.post e none }), ([], 0))
    | .ok recs =>
      let s := { s with ird := recs }
      (columnsNeed 0 items).bind fun
        | none => .done (s.retHdiag .sHY000 msgInvSrvAns, ([], 0))
        | some 0 => .done ((.success, s), ([], 0))
        | some (need + 1) =>
          let block := s.nextBlock
          let s := { s with
            nextBlock := block + 1
            rset := { s.rset with cbor := { s.rset.cbor with colsBuff := some block } } }
          (fillColumns s.esTypes block recs items (List.replicate (need + 1) 0, 0)).bind
            fun ((ok, recs), out) ↦
              let s := { s with ird := recs }
              .done (if ok then (.success, s) else s.retHdiag .sHY000 msgInvSrvAns, out)

/-! ## What is wanted -/

/-- The records of columns with these names and types. -/
def recordsOf (esTypes : List EsType) (block : ℕ) (cols : List (WStr × WStr)) : List IRec :=
  cols.map fun c ↦ (attachOneColumn esTypes .init block c.1 c.2).2

/-- The type of a column is one the connection knows, or it knows none yet. -/
def Known (esTypes : List EsType) (c : WStr × WStr) : Prop :=
  (columnType esTypes c.2 IRec.init.col).isSome = true

/-- The names and types one after the other, as they fill the buffer. -/
def namesText (cols : List (WStr × WStr)) : WStr := cols.flatMap fun c ↦ c.1 ++ 0 :: (c.2 ++ [0])

/-- No write outside the records, and on success one record a column, with its name and type. -/
structure BoundedJson (s : Stmt σ) (block : ℕ) (columns : UJValue) : Prop where
  bounds : attachColumnsJson { s with ird := [] } block columns ≠ .undefined
  records : ∀ ret t, attachColumnsJson { s with ird := [] } block columns = .done (ret, t) →
    ret.succeeded = true → ∃ cols, columns.beginArray.map columnJson = cols.map some ∧
      (∀ c ∈ cols, Known s.esTypes c) ∧ t.ird = recordsOf s.esTypes block cols

/-- Likewise, no write outside the buffer, and on success the names and types fill it. -/
structure BoundedCbor (s : Stmt σ) (indef : Bool) (items : List Item) : Prop where
  bounds : attachColumnsCborFill { s with ird := [] } indef items ≠ .undefined
  records : ∀ ret t out,
    attachColumnsCborFill { s with ird := [] } indef items = .done ((ret, t), out) →
    ret.succeeded = true → ∃ cols : List (WStr × WStr),
      items.map columnCbor = cols.map (fun c ↦ .done (some c)) ∧
      (∀ c ∈ cols, Known s.esTypes c) ∧ t.ird = recordsOf s.esTypes s.nextBlock cols ∧
      out = (namesText cols, (namesText cols).length)

/-- More columns than a `SQLSMALLINT` counts, its count being another one that is not negative;
the columns up to that count can be attached and the next one can be read. -/
def Overruns (esTypes : List EsType) (cols : List (Option (WStr × WStr))) : Prop :=
  2 ^ 16 ≤ cols.length ∧ cols.length % 2 ^ 16 < 2 ^ 15 ∧
    (∀ c ∈ cols.take (cols.length % 2 ^ 16), ∃ col, c = some col ∧ Known esTypes col) ∧
    ∃ col, cols[cols.length % 2 ^ 16]? = some (some col)

/-- The elements of an array of unknown length can be stepped over. -/
def Counted (indef : Bool) (items : List Item) : Prop :=
  indef = true → ∀ x ∈ items, x.untag.depth ≤ cborParserMaxRecursions

/-- What the first pass reads off an element. -/
def columnRead (x : Item) : Option (WStr × WStr) :=
  match columnCbor x with
  | .done c => c
  | _ => none

/-- Up to the first element that is not a column, no map has a key in chunks and the names and
types so far take fewer units than an `int` counts. -/
def Sized : ℕ → List Item → Prop
  | _, [] => True
  | need, x :: xs => columnCbor x ≠ .undefined ∧
      ∀ c, columnCbor x = .done (some c) →
        need + (namesText [c]).length < intLimit ∧ Sized (need + (namesText [c]).length) xs

/-! ## Records -/

theorem columnType_isSome (esTypes : List EsType) (type : WStr) (col col' : ColType) :
    (columnType esTypes type col).isSome = (columnType esTypes type col').isSome := by
  unfold columnType
  cases esTypes.find? fun t ↦ eqCaseWstr t.typeName type with
  | some t => rfl
  | none =>
    dsimp only
    split_ifs <;> rfl

theorem attachOneColumn_fst (esTypes : List EsType) (r : IRec) (block : ℕ) (c : WStr × WStr) :
    (attachOneColumn esTypes r block c.1 c.2).1 = true ↔ Known esTypes c := by
  unfold Known attachOneColumn
  rw [columnType_isSome esTypes c.2 IRec.init.col r.col]
  cases hc : columnType esTypes c.2 r.col <;> simp [hc]

/-- Records run out in a loop over columns, the ones before being attached. -/
def RunsOut (esTypes : List EsType) : ℕ → List (Option (WStr × WStr)) → Prop
  | _, [] => False
  | 0, c :: _ => ∃ col, c = some col
  | k + 1, c :: cs => (∃ col, c = some col ∧ Known esTypes col) ∧ RunsOut esTypes k cs

theorem runsOut_iff {esTypes : List EsType} {k : ℕ} {cs : List (Option (WStr × WStr))} :
    RunsOut esTypes k cs ↔ (∀ c ∈ cs.take k, ∃ col, c = some col ∧ Known esTypes col) ∧
      ∃ col, cs[k]? = some (some col) := by
  induction cs generalizing k with
  | nil => simp [RunsOut]
  | cons c cs ih =>
    cases k with
    | zero => simp [RunsOut]
    | succ k =>
      rw [RunsOut, ih, List.take_succ_cons, List.forall_mem_cons, List.getElem?_cons_succ, and_assoc]

theorem attachColumnsLoopJson_undefined {esTypes : List EsType} {block : ℕ} {recs : List IRec}
    {cs : List UJValue} : attachColumnsLoopJson esTypes block recs cs = .undefined ↔
      RunsOut esTypes recs.length (cs.map columnJson) := by
  induction cs generalizing recs with
  | nil => simp [attachColumnsLoopJson, RunsOut]
  | cons c cs ih =>
    rw [attachColumnsLoopJson.eq_def, List.map_cons]
    dsimp only
    cases hc : columnJson c with
    | none =>
      cases recs <;> simp [RunsOut]
    | some col =>
      cases recs with
      | nil => simp [RunsOut]
      | cons r recs =>
        have hknown := attachOneColumn_fst esTypes r block col
        dsimp only
        rw [List.length_cons, RunsOut]
        generalize attachOneColumn esTypes r block col.1 col.2 = out at hknown ⊢
        obtain ⟨ok, r'⟩ := out
        cases ok with
        | false =>
          have hnot : ¬Known esTypes col := fun h ↦ by simp [h] at hknown
          simp [hnot]
        | true =>
          have hyes : Known esTypes col := hknown.mp rfl
          simp only [Option.some.injEq, exists_eq_left', hyes, true_and, ← ih]
          cases attachColumnsLoopJson esTypes block recs cs <;> simp [Exec.bind]

/-- Columns that are attached to fresh records. -/
theorem attachNamed_true {esTypes : List EsType} {block k : ℕ} {recs : List IRec}
    {cols : List (WStr × WStr)}
    (h : attachNamed esTypes block (List.replicate k .init) cols = .done (true, recs)) :
    cols.length ≤ k ∧ (∀ c ∈ cols, Known esTypes c) ∧
      recs = recordsOf esTypes block cols ++ List.replicate (k - cols.length) .init := by
  induction cols generalizing k recs with
  | nil =>
    cases k <;> cases h <;> exact ⟨Nat.zero_le _, List.forall_mem_nil _, rfl⟩
  | cons c cols ih =>
    cases k with
    | zero => cases h
    | succ k =>
      have hknown := attachOneColumn_fst esTypes .init block c
      have hrec : recordsOf esTypes block (c :: cols) =
          (attachOneColumn esTypes .init block c.1 c.2).2 :: recordsOf esTypes block cols := rfl
      rw [List.replicate_succ, attachNamed] at h
      rw [hrec]
      generalize attachOneColumn esTypes .init block c.1 c.2 = out at h hknown ⊢
      obtain ⟨ok, r⟩ := out
      cases ok with
      | false => cases h
      | true =>
        obtain ⟨⟨ok, recs'⟩, hrest, h⟩ := Exec.bind_eq_done.mp h
        cases h
        obtain ⟨hle, hall, hrecs⟩ := ih hrest
        refine ⟨Nat.succ_le_succ hle, List.forall_mem_cons.mpr ⟨hknown.mp rfl, hall⟩, ?_⟩
        rw [hrecs, List.length_cons, Nat.add_sub_add_right]
        rfl

/-- Records that are asked for by a count of columns. -/
theorem updateRecCount_nil (n : ℕ) :
    (n % 2 ^ 16 < 2 ^ 15 ∧
      updateRecCount [] (toSqlsmallint n) = .ok (List.replicate (n % 2 ^ 16) .init)) ∨
    (2 ^ 15 ≤ n % 2 ^ 16 ∧ updateRecCount [] (toSqlsmallint n) = .error .s07009) := by
  by_cases h : n % 2 ^ 16 < 2 ^ 15
  · refine .inl ⟨h, ?_⟩
    have hcount : toSqlsmallint n = ((n % 2 ^ 16 : ℕ) : ℤ) := by
      rw [toSqlsmallint, if_pos h]
      push_cast
      rfl
    rw [hcount, updateRecCount]
    generalize n % 2 ^ 16 = k at h
    rw [if_neg (by omega)]
    by_cases hk : (([] : List IRec).length : ℤ) = k
    · obtain rfl : k = 0 := by
        rw [List.length_nil] at hk
        omega
      rw [if_pos hk]
      rfl
    · rw [if_neg hk, if_neg (by unfold esodbcMaxDescCount; omega)]
      simp
  · refine .inr ⟨not_lt.mp h, ?_⟩
    rw [toSqlsmallint, if_neg h, updateRecCount, if_pos]
    omega

/-! ## JSON -/

/-- The columns of a JSON answer stay inside the records unless these run out. -/
theorem boundedJson_iff (s : Stmt σ) (block : ℕ) (columns : UJValue) :
    BoundedJson s block columns ↔ ¬Overruns s.esTypes (columns.beginArray.map columnJson) := by
  have hlen : (columns.beginArray.map columnJson).length = columns.beginArray.length :=
    List.length_map _
  unfold Overruns
  rw [hlen]
  generalize hn : columns.beginArray.length = n
  rcases updateRecCount_nil n with ⟨hk, hcount⟩ | ⟨hk, hcount⟩
  · have hdone : attachColumnsJson { s with ird := [] } block columns =
        if columns.beginArray.isEmpty then
          .done ({ s with ird := List.replicate (n % 2 ^ 16) .init }.retHdiag .sHY000 msgInvSrvAns)
        else (attachColumnsLoopJson s.esTypes block (List.replicate (n % 2 ^ 16) .init)
          columns.beginArray).bind fun r ↦
            .done (if r.1 then (.success, { s with ird := r.2 })
              else { s with ird := r.2 }.retHdiag .sHY000 msgInvSrvAns) := by
      rw [attachColumnsJson, hn]
      dsimp only
      rw [hcount]
    by_cases hempty : columns.beginArray.isEmpty
    · rw [if_pos hempty] at hdone
      have hzero : n = 0 := by rw [← hn, List.isEmpty_iff.mp hempty]; rfl
      refine iff_of_true ⟨by rw [hdone]; simp, ?_⟩ fun h ↦ by omega
      intro ret t h hret
      rw [hdone] at h
      cases h
      cases hret
    · rw [if_neg hempty] at hdone
      have hundef : attachColumnsJson { s with ird := [] } block columns = .undefined ↔
          RunsOut s.esTypes (n % 2 ^ 16) (columns.beginArray.map columnJson) := by
        have hloop : attachColumnsLoopJson s.esTypes block (List.replicate (n % 2 ^ 16) .init)
            columns.beginArray = .undefined ↔ _ := attachColumnsLoopJson_undefined
        rw [List.length_replicate] at hloop
        rw [hdone, ← hloop]
        cases attachColumnsLoopJson s.esTypes block (List.replicate (n % 2 ^ 16) .init)
          columns.beginArray <;> simp [Exec.bind]
      rw [runsOut_iff] at hundef
      constructor
      · rintro h ⟨-, -, hover⟩
        exact h.bounds (hundef.mpr hover)
      · intro h
        refine ⟨fun hu ↦ ?_, ?_⟩
        · have hover := hundef.mp hu
          obtain ⟨col, hcol⟩ := hover.2
          have hlt := (List.getElem?_eq_some_iff.mp hcol).1
          rw [hlen, hn] at hlt
          exact h ⟨by omega, hk, hover⟩
        · intro ret t hout hret
          rw [hdone] at hout
          obtain ⟨⟨ok, recs⟩, hloop, hout⟩ := Exec.bind_eq_done.mp hout
          cases ok with
          | false =>
            cases hout
            cases hret
          | true =>
            cases hout
            obtain ⟨cols, hcols⟩ := attachColumnsLoopJson_read hloop
            rw [attachColumnsLoopJson_eq hcols] at hloop
            obtain ⟨hle, hknown, hrecs⟩ := attachNamed_true hloop
            have hsame : cols.length = n := by
              rw [← hn, ← hlen, hcols, List.length_map]
            have hall : n % 2 ^ 16 - cols.length = 0 := by omega
            refine ⟨cols, hcols, hknown, ?_⟩
            rw [hall, List.replicate_zero, List.append_nil] at hrecs
            exact hrecs
  · have hdone : attachColumnsJson { s with ird := [] } block columns = .done
        (SqlState.s07009.retcode, { s with ird := [], diag := Diag.init.post .s07009 none }) := by
      rw [attachColumnsJson, hn]
      dsimp only
      rw [hcount]
    refine iff_of_true ⟨by rw [hdone]; simp, ?_⟩ fun h ↦ by omega
    intro ret t h hret
    rw [hdone] at h
    cases h
    cases hret

/-! ## CBOR -/

theorem namesText_cons (c : WStr × WStr) (cols : List (WStr × WStr)) :
    namesText (c :: cols) = c.1 ++ ([0] ++ (c.2 ++ ([0] ++ namesText cols))) := by
  simp [namesText]

theorem length_namesText_single (c : WStr × WStr) :
    (namesText [c]).length = c.1.length + 1 + (c.2.length + 1) := by
  simp [namesText]
  omega

theorem length_namesText_cons (c : WStr × WStr) (cols : List (WStr × WStr)) :
    (namesText (c :: cols)).length = (namesText [c]).length + (namesText cols).length := by
  simp [namesText]
  omega

/-- The first pass comes to the length of the text, to an element that is not a column, or to what
no length is for. -/
theorem columnsNeed_cases (need : ℕ) (items : List Item) :
    (columnsNeed need items = .undefined ∧ ¬Sized need items) ∨
    (Sized need items ∧ ((columnsNeed need items = .done none ∧
        ¬∀ x ∈ items, (columnRead x).isSome) ∨
      ∃ cols : List (WStr × WStr), items.map columnCbor = cols.map (fun c ↦ .done (some c)) ∧
        columnsNeed need items = .done (some (need + (namesText cols).length)))) := by
  induction items generalizing need with
  | nil => exact .inr ⟨trivial, .inr ⟨[], rfl, rfl⟩⟩
  | cons x xs ih =>
    rw [columnsNeed, Sized]
    cases hx : columnCbor x with
    | exhausted => exact absurd hx (columnCbor_ne_exhausted x)
    | undefined => exact .inl ⟨rfl, fun h ↦ h.1 rfl⟩
    | done c =>
      cases c with
      | none =>
        have hread : ¬(columnRead x).isSome := by simp [columnRead, hx]
        refine .inr ⟨⟨by simp, fun c h ↦ by cases h⟩, .inl ⟨rfl, fun h ↦ ?_⟩⟩
        exact hread (h x List.mem_cons_self)
      | some c =>
        have hsome (P : WStr × WStr → Prop) :
            (∀ c', Exec.done (some c) = Exec.done (some c') → P c') ↔ P c := by
          constructor
          · exact fun h ↦ h c rfl
          · rintro h c' heq
            cases heq
            exact h
        have hlen := length_namesText_single c
        rw [hsome]
        simp only [Exec.bind_done, addNeed]
        by_cases hname : need + (c.1.length + 1) < intLimit
        · rw [if_pos hname, Exec.bind_done]
          by_cases htype : need + (c.1.length + 1) + (c.2.length + 1) < intLimit
          · have hsum : need + (c.1.length + 1) + (c.2.length + 1) =
                need + (namesText [c]).length := by omega
            rw [if_pos htype, Exec.bind_done, hsum]
            rcases ih (need + (namesText [c]).length) with ⟨hu, hnot⟩ | ⟨hsized, hrest⟩
            · exact .inl ⟨hu, fun h ↦ hnot h.2.2⟩
            · refine .inr ⟨⟨by simp, by omega, hsized⟩, ?_⟩
              rcases hrest with ⟨hnone, hnot⟩ | ⟨cols, hcols, hdone⟩
              · exact .inl ⟨hnone, fun h ↦ hnot fun y hy ↦ h y (List.mem_cons_of_mem _ hy)⟩
              · refine .inr ⟨c :: cols, ?_, ?_⟩
                · rw [List.map_cons, List.map_cons, hx, hcols]
                · rw [hdone, length_namesText_cons c cols, Nat.add_assoc]
          · rw [if_neg htype]
            exact .inl ⟨rfl, fun h ↦ htype (by omega)⟩
        · rw [if_neg hname]
          exact .inl ⟨rfl, fun h ↦ hname (by omega)⟩

/-- A text is put into a buffer that has the room for it and more. -/
theorem Written.putText {n : ℕ} {pre : WStr} {out : WStr × ℕ} (h : Written n pre out) {w : WStr}
    (hle : (pre ++ w ++ [0]).length ≤ n) :
    ∃ out', EsOdbc.putText out w = .done (some out') ∧ Written n (pre ++ w ++ [0]) out' := by
  have hlen := hle
  rw [List.length_append, List.length_append, List.length_singleton] at hlen
  obtain ⟨o₁, h₁, w₁⟩ := h.put w (le_of_append_le hle)
  obtain ⟨o₂, h₂, w₂⟩ := w₁.put [0] hle
  refine ⟨o₂, ?_, w₂⟩
  rw [EsOdbc.putText, h.length, h.pos, if_neg (by omega), if_neg (by omega), h₁, Exec.bind_done,
    h₂, Exec.bind_done]

/-- The second pass attaches the columns that the first one measured, and fills the buffer. -/
theorem fillColumns_rel (esTypes : List EsType) (block : ℕ) (recs : List IRec) {n : ℕ}
    {items : List Item} {cols : List (WStr × WStr)} {pre : WStr} {out : WStr × ℕ}
    (hcols : items.map columnCbor = cols.map fun c ↦ .done (some c)) (h : Written n pre out)
    (hn : n = (pre ++ namesText cols).length) :
    Exec.Rel (fun a b ↦ b.1 = a ∧ (a.1 = true → Written n (pre ++ namesText cols) b.2))
      (attachNamed esTypes block recs cols) (fillColumns esTypes block recs items out) := by
  induction items generalizing recs cols pre out with
  | nil =>
    cases cols with
    | nil =>
      rw [namesText, List.flatMap_nil, List.append_nil] at hn ⊢
      cases recs <;> exact .done ⟨rfl, fun _ ↦ h⟩
    | cons c cols => cases hcols
  | cons x xs ih =>
    cases cols with
    | nil => cases hcols
    | cons c cols =>
      rw [List.map_cons, List.map_cons, List.cons.injEq] at hcols
      rw [namesText_cons] at hn ⊢
      simp only [← List.append_assoc] at hn ⊢
      have hroom : (pre ++ c.1 ++ [0] ++ c.2 ++ [0]).length ≤ n := le_of_append_le hn.ge
      obtain ⟨o₁, h₁, w₁⟩ := h.putText (le_of_append_le (le_of_append_le hroom))
      obtain ⟨o₂, h₂, w₂⟩ := w₁.putText hroom
      rw [fillColumns, hcols.1]
      simp only [Exec.bind_done, h₁, h₂]
      cases recs with
      | nil => exact .undefined
      | cons r recs =>
        rw [attachNamed]
        dsimp only
        generalize attachOneColumn esTypes r block c.1 c.2 = res
        obtain ⟨ok, r'⟩ := res
        cases ok with
        | false => exact .done ⟨rfl, fun h ↦ by cases h⟩
        | true =>
          refine (ih recs hcols.2 w₂ hn).bind ?_
          rintro ⟨ok, recs'⟩ ⟨a, out'⟩ ⟨rfl, hw⟩
          exact .done ⟨rfl, hw⟩

theorem cborGetArrayCount_cases (indef : Bool) (items : List Item) :
    (Counted indef items ∧ cborGetArrayCount indef items = .ok items.length) ∨
    (¬Counted indef items ∧ ∃ e, cborGetArrayCount indef items = .error e) := by
  cases indef with
  | false =>
    refine .inl ⟨?_, rfl⟩
    intro h
    cases h
  | true =>
    have hexit : (∀ x ∈ items, x.untag.depth ≤ cborParserMaxRecursions) ∧
        cborValueExitContainer items = .ok () ∨
        ¬(∀ x ∈ items, x.untag.depth ≤ cborParserMaxRecursions) ∧
          ∃ e, cborValueExitContainer items = .error e := by
      induction items with
      | nil => exact .inl ⟨List.forall_mem_nil _, rfl⟩
      | cons x xs ih =>
        rw [List.forall_mem_cons, cborValueExitContainer]
        have hadvance : cborValueAdvance (x.untag :: xs) =
            if x.untag.depth ≤ cborParserMaxRecursions then .ok xs else .error .nestingTooDeep := by
          have huntag := Cbor.Item.isTag_untag x
          generalize x.untag = y at huntag ⊢
          cases y with
          | tag n c => cases huntag
          | _ => rfl
        rw [hadvance]
        by_cases hdepth : x.untag.depth ≤ cborParserMaxRecursions
        · rw [if_pos hdepth]
          rcases ih with ⟨hall, hok⟩ | ⟨hnot, herror⟩
          · exact .inl ⟨⟨hdepth, hall⟩, hok⟩
          · exact .inr ⟨fun h ↦ hnot h.2, herror⟩
        · rw [if_neg hdepth]
          exact .inr ⟨fun h ↦ hdepth h.1, _, rfl⟩
    rw [Counted, cborGetArrayCount, if_pos rfl]
    rcases hexit with ⟨hall, hok⟩ | ⟨hnot, e, herror⟩
    · exact .inl ⟨fun _ ↦ hall, by rw [hok]; rfl⟩
    · exact .inr ⟨fun h ↦ hnot (h rfl), e, by rw [herror]; rfl⟩

theorem attachNamed_undefined (esTypes : List EsType) (block : ℕ) (recs : List IRec)
    (cols : List (WStr × WStr)) : attachNamed esTypes block recs cols = .undefined ↔
      RunsOut esTypes recs.length (cols.map some) := by
  induction cols generalizing recs with
  | nil =>
    cases recs <;> simp [attachNamed, RunsOut]
  | cons c cols ih =>
    cases recs with
    | nil => simp [attachNamed, RunsOut]
    | cons r recs =>
      have hknown := attachOneColumn_fst esTypes r block c
      rw [attachNamed, List.length_cons, List.map_cons, RunsOut]
      generalize attachOneColumn esTypes r block c.1 c.2 = out at hknown ⊢
      obtain ⟨ok, r'⟩ := out
      cases ok with
      | false =>
        have hnot : ¬Known esTypes c := fun h ↦ by simp [h] at hknown
        simp [hnot]
      | true =>
        have hyes : Known esTypes c := hknown.mp rfl
        simp only [Option.some.injEq, exists_eq_left', hyes, true_and, ← ih]
        cases attachNamed esTypes block recs cols <;> simp [Exec.bind]

theorem map_columnRead {items : List Item} {cols : List (WStr × WStr)}
    (h : items.map columnCbor = cols.map fun c ↦ .done (some c)) :
    items.map columnRead = cols.map some := by
  induction items generalizing cols with
  | nil =>
    cases cols with
    | nil => rfl
    | cons c cols => cases h
  | cons x xs ih =>
    cases cols with
    | nil => cases h
    | cons c cols =>
      rw [List.map_cons, List.map_cons, List.cons.injEq] at h
      rw [List.map_cons, List.map_cons, ih h.2, columnRead, h.1]

/-- When the columns of a CBOR answer are in order: unless they cannot be counted or their count
is taken for a negative one, they are measured, and the records do not run out once all are
known to be columns. -/
def OrderlyCbor (esTypes : List EsType) (indef : Bool) (items : List Item) : Prop :=
  Counted indef items → items.length % 2 ^ 16 < 2 ^ 15 →
    Sized 0 items ∧
      ¬((∀ x ∈ items, (columnRead x).isSome) ∧ Overruns esTypes (items.map columnRead))

/-- Columns that are read stay inside the records and the buffer unless the records run out. -/
theorem boundedCbor_read {s : Stmt σ} {indef : Bool} {items : List Item}
    {cols : List (WStr × WStr)} (hk : items.length % 2 ^ 16 < 2 ^ 15)
    (hcount : cborGetArrayCount indef items = .ok items.length)
    (hrecs : updateRecCount [] (toSqlsmallint items.length) =
      .ok (List.replicate (items.length % 2 ^ 16) .init))
    (hcols : items.map columnCbor = cols.map fun c ↦ .done (some c))
    (hneed : columnsNeed 0 items = .done (some (namesText cols).length)) :
    BoundedCbor s indef items ↔ ¬Overruns s.esTypes (items.map columnRead) := by
  have hlen : items.length = cols.length := by simpa using congrArg List.length hcols
  have hrun := attachColumnsCborFill.eq_def { s with ird := [] } indef items
  rw [hcount] at hrun
  dsimp only at hrun
  rw [hrecs] at hrun
  dsimp only at hrun
  rw [hneed, Exec.bind_done] at hrun
  rw [map_columnRead hcols]
  unfold Overruns
  rw [List.length_map, ← hlen, ← runsOut_iff]
  cases cols with
  | nil =>
    have hzero : items.length = 0 := hlen
    refine iff_of_true ⟨by rw [hrun]; simp [namesText], ?_⟩ fun h ↦ by omega
    intro ret t out h _
    rw [hrun] at h
    cases h
    refine ⟨[], hcols, List.forall_mem_nil _, ?_, rfl⟩
    rw [hzero]
    rfl
  | cons c cols =>
    obtain ⟨m, hm⟩ : ∃ m, (namesText (c :: cols)).length = m + 1 := by
      have hsingle := length_namesText_single c
      have hcons := length_namesText_cons c cols
      exact ⟨(namesText (c :: cols)).length - 1, by omega⟩
    rw [hm] at hrun
    dsimp only at hrun
    have hstart : Written (m + 1) [] (List.replicate (m + 1) (0 : UInt16), 0) :=
      ⟨List.length_replicate, List.nil_prefix, rfl⟩
    have hrel := fillColumns_rel s.esTypes s.nextBlock
      (List.replicate (items.length % 2 ^ 16) .init) hcols hstart (by rw [List.nil_append, hm])
    have hundef := attachNamed_undefined s.esTypes s.nextBlock
      (List.replicate (items.length % 2 ^ 16) .init) (c :: cols)
    rw [List.length_replicate] at hundef
    generalize hfill : fillColumns s.esTypes s.nextBlock
      (List.replicate (items.length % 2 ^ 16) .init) items (List.replicate (m + 1) 0, 0) = fill
      at hrel hrun
    generalize hattach : attachNamed s.esTypes s.nextBlock
      (List.replicate (items.length % 2 ^ 16) .init) (c :: cols) = attached at hrel hundef
    cases hrel with
    | undefined =>
      have hout := hundef.mp rfl
      have hbig : 2 ^ 16 ≤ items.length := by
        obtain ⟨col, hcol⟩ := (runsOut_iff.mp hout).2
        have hlt := (List.getElem?_eq_some_iff.mp hcol).1
        rw [List.length_map, ← hlen] at hlt
        omega
      exact iff_of_false (fun h ↦ h.bounds hrun) fun h ↦ h ⟨hbig, hk, hout⟩
    | exhausted =>
      have hnot : ¬RunsOut s.esTypes (items.length % 2 ^ 16) ((c :: cols).map some) := fun h ↦ by
        cases hundef.mpr h
      refine iff_of_true ⟨by rw [hrun]; simp, ?_⟩ fun h ↦ hnot h.2.2
      intro ret t out h _
      rw [hrun] at h
      cases h
    | done hab =>
      rename_i a b
      obtain ⟨ok, recs⟩ := a
      obtain ⟨a', out⟩ := b
      obtain ⟨rfl, hw⟩ := hab
      have hnot : ¬RunsOut s.esTypes (items.length % 2 ^ 16) ((c :: cols).map some) := fun h ↦ by
        cases hundef.mpr h
      refine iff_of_true ⟨by rw [hrun]; simp, ?_⟩ fun h ↦ hnot h.2.2
      intro ret t out' h hret
      rw [hrun, Exec.bind_done] at h
      cases ok with
      | false =>
        cases h
        cases hret
      | true =>
        cases h
        obtain ⟨hle, hknown, hrecords⟩ := attachNamed_true hattach
        have hall : items.length % 2 ^ 16 - (c :: cols).length = 0 := by omega
        rw [hall, List.replicate_zero, List.append_nil] at hrecords
        have hwritten := hw rfl
        rw [List.nil_append] at hwritten
        have hbuf : out.1 = namesText (c :: cols) :=
          (hwritten.start.eq_of_length (by rw [hwritten.length, hm])).symm
        exact ⟨c :: cols, hcols, hknown, hrecords, Prod.ext hbuf hwritten.pos⟩

/-- The columns of a CBOR answer stay inside the records and the buffer exactly if they are in
order. -/
theorem boundedCbor_iff (s : Stmt σ) (indef : Bool) (items : List Item) :
    BoundedCbor s indef items ↔ OrderlyCbor s.esTypes indef items := by
  -- an end without a success in front of the second pass
  have hfailed {out : (SqlReturn × Stmt σ) × (WStr × ℕ)} (hout : out.1.1.succeeded = false)
      (hdone : attachColumnsCborFill { s with ird := [] } indef items = .done out) :
      BoundedCbor s indef items := by
    refine ⟨by rw [hdone]; simp, ?_⟩
    intro ret t buf h hret
    rw [hdone] at h
    cases h
    rw [hret] at hout
    cases hout
  have hrun := attachColumnsCborFill.eq_def { s with ird := [] } indef items
  rcases cborGetArrayCount_cases indef items with ⟨hcounted, hcount⟩ | ⟨hnot, e, hcount⟩
  · rw [hcount] at hrun
    dsimp only at hrun
    rcases updateRecCount_nil items.length with ⟨hk, hrecs⟩ | ⟨hk, hrecs⟩
    · have horderly : OrderlyCbor s.esTypes indef items ↔ Sized 0 items ∧
          ¬((∀ x ∈ items, (columnRead x).isSome) ∧
            Overruns s.esTypes (items.map columnRead)) := by
        unfold OrderlyCbor
        rw [imp_iff_right hcounted, imp_iff_right hk]
      rw [horderly]
      rcases columnsNeed_cases 0 items with ⟨hu, hsized⟩ | ⟨hsized, ⟨hneed, hread⟩ | ⟨cols, hcols, hneed⟩⟩
      · rw [hrecs] at hrun
        dsimp only at hrun
        rw [hu] at hrun
        exact iff_of_false (fun h ↦ h.bounds hrun) fun h ↦ hsized h.1
      · rw [hrecs] at hrun
        dsimp only at hrun
        rw [hneed, Exec.bind_done] at hrun
        exact iff_of_true (hfailed rfl hrun) ⟨hsized, fun h ↦ hread h.1⟩
      · rw [Nat.zero_add] at hneed
        have hread : ∀ x ∈ items, (columnRead x).isSome := by
          intro x hx
          have hmem : columnRead x ∈ items.map columnRead := List.mem_map_of_mem hx
          rw [map_columnRead hcols] at hmem
          obtain ⟨c, -, hc⟩ := List.mem_map.mp hmem
          rw [← hc]
          rfl
        rw [and_iff_right hsized, and_iff_right hread]
        exact boundedCbor_read hk hcount hrecs hcols hneed
    · rw [hrecs] at hrun
      exact iff_of_true (hfailed rfl hrun) fun _ h ↦ absurd h (not_lt.mpr hk)
  · rw [hcount] at hrun
    exact iff_of_true (hfailed rfl hrun) fun h ↦ absurd h hnot

/-- Columns stay inside the records and the buffer, in either format, exactly unless there are
more of them than a `SQLSMALLINT` counts and its count is reached, or they cannot be measured. -/
theorem columnsBounded_iff (s : Stmt σ) (block : ℕ) (columns : UJValue) (indef : Bool)
    (items : List Item) :
    (BoundedJson s block columns ↔
      ¬Overruns s.esTypes (columns.beginArray.map columnJson)) ∧
    (BoundedCbor s indef items ↔ OrderlyCbor s.esTypes indef items) :=
  ⟨boundedJson_iff s block columns, boundedCbor_iff s indef items⟩

/-- A column, as often as it takes for its count to be one more than a `SQLSMALLINT` can tell from
one. -/
theorem not_boundedJson_wrapped :
    ¬BoundedJson (Stmt.init [] () []) 0 (.array (List.replicate (2 ^ 16 + 1)
      (.object [(wstr "name", .string (wstr "a")), (wstr "type", .string (wstr "INTEGER"))]))) := by
  have hover : Overruns [] (List.replicate (2 ^ 16 + 1) (some (wstr "a", wstr "INTEGER"))) := by
    have hmod : (2 ^ 16 + 1) % 2 ^ 16 = 1 := rfl
    unfold Overruns
    rw [List.length_replicate, hmod]
    refine ⟨by norm_num, by norm_num, ?_, ?_⟩
    · intro c hc
      rw [List.eq_of_mem_replicate (List.mem_of_mem_take hc)]
      exact ⟨_, rfl, rfl⟩
    · exact ⟨_, by rw [List.getElem?_replicate, if_pos (by norm_num)]⟩
  have hcols : (List.replicate (2 ^ 16 + 1) (UJValue.object [(wstr "name", .string (wstr "a")),
      (wstr "type", .string (wstr "INTEGER"))])).map columnJson =
        List.replicate (2 ^ 16 + 1) (some (wstr "a", wstr "INTEGER")) := by
    rw [List.map_replicate]
    rfl
  intro h
  refine (boundedJson_iff _ _ _).mp h ?_
  show Overruns [] (List.map columnJson (List.replicate (2 ^ 16 + 1) _))
  rw [hcols]
  exact hover

end EsOdbc
