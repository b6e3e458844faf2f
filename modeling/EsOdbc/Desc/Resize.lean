import EsOdbc.AttachAnswer
import EsOdbc.Desc.Record

/-!
# Resizing a descriptor

`update_rec_count` with `free_rec_fields`, `free_desc_recs` and `init_rec` (`handles.c`), over a
memory of record arrays and of strings.  An access through an address where no array is, or past
an array's end, and the release of what is not allocated have no defined behaviour.
-/

namespace EsOdbc

variable {ρ : Type}

/-! ## Memory -/

/-- A record in memory: the strings that are freed with it, by their addresses (none is `NULL`),
and its other fields. -/
structure RecCell (ρ : Type) where
  baseColumnName : Option ℕ
  baseTableName : Option ℕ
  catalogName : Option ℕ
  label : Option ℕ
  name : Option ℕ
  schemaName : Option ℕ
  tableName : Option ℕ
  parameterType : ℤ
  others : ρ

namespace RecCell

/-- The strings in the order in which they are freed. -/
def strings (r : RecCell ρ) : List (Option ℕ) :=
  [r.baseColumnName, r.baseTableName, r.catalogName, r.label, r.name, r.schemaName, r.tableName]

/-- The addresses of the strings. -/
def owned (r : RecCell ρ) : List ℕ := r.strings.filterMap id

/-- A record whose strings are freed. -/
def cleared (r : RecCell ρ) : RecCell ρ :=
  { r with
    baseColumnName := none, baseTableName := none, catalogName := none, label := none
    name := none, schemaName := none, tableName := none }

/-- `init_rec`; `zero` is what all bits zero are in the other fields. -/
def init (zero : ρ) (type : DescType) : RecCell ρ where
  baseColumnName := none
  baseTableName := none
  catalogName := none
  label := none
  name := none
  schemaName := none
  tableName := none
  parameterType := if type = .ipd then 1 else 0
  others := zero

end RecCell

/-- The arrays of records, by their addresses, and the strings that are allocated. -/
structure RecMemory (ρ : Type) where
  arrays : ℕ → Option (List (RecCell ρ))
  strings : ℕ → Bool

/-- A descriptor's type and its records. -/
structure RecHolder where
  type : DescType
  count : ℕ
  recs : Option ℕ
deriving DecidableEq, Repr

namespace RecMemory

/-- The array at an address is replaced. -/
def setArray (m : RecMemory ρ) (addr : ℕ) (recs : Option (List (RecCell ρ))) : RecMemory ρ :=
  { m with arrays := fun a ↦ if a = addr then recs else m.arrays a }

/-- The record of an index, read through an address. -/
def recAt (m : RecMemory ρ) (recs : Option ℕ) (i : ℕ) : Exec (ℕ × List (RecCell ρ) × RecCell ρ) :=
  match recs with
  | none => .undefined
  | some addr =>
    match m.arrays addr with
    | none => .undefined
    | some cells =>
      match cells[i]? with
      | none => .undefined
      | some r => .done (addr, cells, r)

/-- A record is written through an address. -/
def setRec (m : RecMemory ρ) (recs : Option ℕ) (i : ℕ) (r : RecCell ρ) : Exec (RecMemory ρ) :=
  (m.recAt recs i).bind fun x ↦ .done (m.setArray x.1 (some (x.2.1.set i r)))

/-- `free` of some strings. -/
def freeStrings (m : RecMemory ρ) : List (Option ℕ) → Exec (RecMemory ρ)
  | [] => .done m
  | none :: ss => m.freeStrings ss
  | some s :: ss =>
    if m.strings s then
      { m with strings := fun p ↦ m.strings p && p ≠ s }.freeStrings ss
    else .undefined

/-- `free_rec_fields`. -/
def freeRecFields (m : RecMemory ρ) (recs : Option ℕ) (i : ℕ) : Exec (RecMemory ρ) :=
  (m.recAt recs i).bind fun x ↦
  (m.freeStrings x.2.2.strings).bind fun m ↦ m.setRec recs i x.2.2.cleared

/-- `free_rec_fields` on `n` records from one on. -/
def freeFrom (m : RecMemory ρ) (recs : Option ℕ) (i : ℕ) : ℕ → Exec (RecMemory ρ)
  | 0 => .done m
  | n + 1 => (m.freeRecFields recs i).bind fun m ↦ m.freeFrom recs (i + 1) n

/-- `init_rec` on `n` records from one on. -/
def initFrom (m : RecMemory ρ) (zero : ρ) (type : DescType) (recs : Option ℕ) (i : ℕ) :
    ℕ → Exec (RecMemory ρ)
  | 0 => .done m
  | n + 1 => (m.setRec recs i (.init zero type)).bind fun m ↦ m.initFrom zero type recs (i + 1) n

/-- `free` of an array; `NULL` may be freed. -/
def freeArray (m : RecMemory ρ) (recs : Option ℕ) : Exec (RecMemory ρ) :=
  match recs with
  | none => .done m
  | some addr =>
    match m.arrays addr with
    | none => .undefined
    | some _ => .done (m.setArray addr none)

end RecMemory

/-- What `realloc` gives: nothing, the old address, or another one; `junk` is what new memory
holds. -/
inductive Reallocation (ρ : Type) where
  | fails
  | stays (junk : RecCell ρ)
  | moves (addr : ℕ) (junk : RecCell ρ)

namespace RecMemory

/-- `realloc` to so many records. -/
def realloc (m : RecMemory ρ) (recs : Option ℕ) (newCount : ℕ) :
    Reallocation ρ → Exec (Option ℕ × RecMemory ρ)
  | .fails => .done (none, m)
  | .stays junk =>
    match recs with
    | none => .undefined
    | some addr =>
      match m.arrays addr with
      | none => .undefined
      | some cells => .done (some addr, m.setArray addr
          (some (cells.take newCount ++ List.replicate (newCount - cells.length) junk)))
  | .moves addr junk =>
    match recs with
    | none => .done (some addr, m.setArray addr (some (List.replicate newCount junk)))
    | some old =>
      match m.arrays old with
      | none => .undefined
      | some cells => .done (some addr, (m.setArray old none).setArray addr
          (some (cells.take newCount ++ List.replicate (newCount - cells.length) junk)))

/-- `free_desc_recs`. -/
def freeDescRecs (m : RecMemory ρ) (desc : RecHolder) : Exec (RecMemory ρ × RecHolder) :=
  (if desc.type = .ird then .done m else m.freeFrom desc.recs 0 desc.count).bind fun m ↦
  (m.freeArray desc.recs).bind fun m ↦ .done (m, { desc with count := 0, recs := none })

/-- `update_rec_count`: the state that is posted, and what is left. -/
def updateRecCount (zero : ρ) (r : Reallocation ρ) (m : RecMemory ρ) (desc : RecHolder) (newCount : ℤ) :
    Exec (SqlState × RecMemory ρ × RecHolder) :=
  if newCount < 0 then .done (.s07009, m, desc)
  else if desc.count = newCount then .done (.s00000, m, desc)
  else if esodbcMaxDescCount < newCount then .done (.s07009, m, desc)
  else
    let new := newCount.toNat
    if new = 0 then
      (m.freeDescRecs desc).bind fun x ↦ .done (.s00000, x.1, { x.2 with count := new, recs := none })
    else
      (m.realloc desc.recs new r).bind fun x ↦
        match x.1 with
        | none => .done (.sHY001, x.2, desc)
        | some recs =>
          -- shrinking goes through the old address, and starts at the last record that is kept
          (if new < desc.count then x.2.freeFrom desc.recs (new - 1) (desc.count - (new - 1))
            else x.2.initFrom zero desc.type (some recs) desc.count (new - desc.count)).bind fun m ↦
              .done (.s00000, m, { desc with count := new, recs := some recs })

end RecMemory

/-! ## Steps -/

namespace RecMemory

/-- Some strings are freed. -/
def without (m : RecMemory ρ) (ps : List ℕ) : RecMemory ρ :=
  { m with strings := fun p ↦ m.strings p && decide (p ∉ ps) }

@[simp] theorem without_nil (m : RecMemory ρ) : m.without [] = m := by
  simp [without]

theorem without_without (m : RecMemory ρ) (ps qs : List ℕ) :
    (m.without ps).without qs = m.without (ps ++ qs) := by
  simp only [without, RecMemory.mk.injEq, true_and]
  funext p
  simp [Bool.and_assoc]

@[simp] theorem arrays_without (m : RecMemory ρ) (ps : List ℕ) : (m.without ps).arrays = m.arrays := rfl

theorem setArray_without (m : RecMemory ρ) (ps : List ℕ) (a : ℕ) (cells : Option (List (RecCell ρ))) :
    (m.without ps).setArray a cells = (m.setArray a cells).without ps := rfl

@[simp] theorem arrays_setArray (m : RecMemory ρ) (a : ℕ) (cells : Option (List (RecCell ρ))) :
    (m.setArray a cells).arrays a = cells := if_pos rfl

theorem arrays_setArray_ne (m : RecMemory ρ) {a b : ℕ} (h : b ≠ a) (cells : Option (List (RecCell ρ))) :
    (m.setArray a cells).arrays b = m.arrays b := if_neg h

@[simp] theorem setArray_setArray (m : RecMemory ρ) (a : ℕ) (cells cells' : Option (List (RecCell ρ))) :
    (m.setArray a cells).setArray a cells' = m.setArray a cells' := by
  simp only [setArray, RecMemory.mk.injEq, and_true]
  funext b
  by_cases h : b = a <;> simp [h]

theorem setArray_self {m : RecMemory ρ} {a : ℕ} {cells : Option (List (RecCell ρ))}
    (h : m.arrays a = cells) : m.setArray a cells = m := by
  subst h
  simp only [setArray]
  congr 1
  funext b
  by_cases hb : b = a <;> simp [hb]

theorem recAt_some {m : RecMemory ρ} {a : ℕ} {cells : List (RecCell ρ)} (h : m.arrays a = some cells)
    {i : ℕ} {r : RecCell ρ} (hi : cells[i]? = some r) : m.recAt (some a) i = .done (a, cells, r) := by
  simp only [recAt, h, hi]

theorem recAt_outside {m : RecMemory ρ} {a : ℕ} {cells : List (RecCell ρ)} (h : m.arrays a = some cells)
    {i : ℕ} (hi : cells.length ≤ i) : m.recAt (some a) i = .undefined := by
  simp only [recAt, h, List.getElem?_eq_none hi]

theorem recAt_gone {m : RecMemory ρ} {a : ℕ} (h : m.arrays a = none) (i : ℕ) :
    m.recAt (some a) i = .undefined := by
  simp only [recAt, h]

theorem setRec_some {m : RecMemory ρ} {a : ℕ} {cells : List (RecCell ρ)} (h : m.arrays a = some cells)
    {i : ℕ} (hi : i < cells.length) (r : RecCell ρ) :
    m.setRec (some a) i r = .done (m.setArray a (some (cells.set i r))) := by
  rw [setRec, recAt_some h (List.getElem?_eq_getElem hi)]
  rfl

/-- Strings that are allocated, and none twice, are freed. -/
theorem freeStrings_allocated {m : RecMemory ρ} {ss : List (Option ℕ)}
    (hnodup : (ss.filterMap id).Nodup) (halloc : ∀ p ∈ ss.filterMap id, m.strings p = true) :
    m.freeStrings ss = .done (m.without (ss.filterMap id)) := by
  induction ss generalizing m with
  | nil => rw [freeStrings, List.filterMap_nil, without_nil]
  | cons s ss ih =>
    cases s with
    | none => exact ih hnodup halloc
    | some p =>
      rw [List.filterMap_cons_some (f := id) (a := some p) rfl] at hnodup halloc ⊢
      obtain ⟨hp, hnodup⟩ := List.nodup_cons.mp hnodup
      have hstep : ({ m with strings := fun q ↦ m.strings q && q ≠ p } : RecMemory ρ) = m.without [p] := by
        simp [without]
      rw [freeStrings, if_pos (halloc p (by simp)), hstep, ih hnodup, without_without]
      · rfl
      · intro q hq
        have hqp : q ≠ p := by
          rintro rfl
          exact hp hq
        have hq' := halloc q (List.mem_cons_of_mem _ hq)
        show (m.strings q && decide (q ∉ [p])) = true
        rw [hq', Bool.true_and, decide_eq_true_eq, List.mem_singleton]
        exact hqp

/-- The arrays are left. -/
theorem freeStrings_arrays {m m' : RecMemory ρ} {ss : List (Option ℕ)}
    (h : m.freeStrings ss = .done m') : m'.arrays = m.arrays := by
  induction ss generalizing m with
  | nil => rw [← Exec.done.inj h]
  | cons s ss ih =>
    cases s with
    | none => exact ih h
    | some p =>
      rw [freeStrings] at h
      by_cases hp : m.strings p = true
      · rw [if_pos hp] at h
        have harrays := ih h
        exact harrays
      · rw [if_neg hp] at h
        cases h

theorem setRec_done {m m' : RecMemory ρ} {a i : ℕ} {r : RecCell ρ}
    (h : m.setRec (some a) i r = .done m') :
    ∃ cells, m.arrays a = some cells ∧ m' = m.setArray a (some (cells.set i r)) := by
  cases harray : m.arrays a with
  | none =>
    rw [setRec, recAt_gone harray] at h
    cases h
  | some cells =>
    by_cases hi : i < cells.length
    · rw [setRec_some harray hi] at h
      exact ⟨cells, rfl, (Exec.done.inj h).symm⟩
    · rw [setRec, recAt_outside harray (not_lt.mp hi)] at h
      cases h

/-- One record's strings. -/
theorem freeRecFields_some {m : RecMemory ρ} {a : ℕ} {cells : List (RecCell ρ)}
    (h : m.arrays a = some cells) {i : ℕ} {r : RecCell ρ} (hi : cells[i]? = some r)
    (hnodup : r.owned.Nodup) (halloc : ∀ p ∈ r.owned, m.strings p = true) :
    m.freeRecFields (some a) i =
      .done ((m.setArray a (some (cells.set i r.cleared))).without r.owned) := by
  have hlt : i < cells.length := (List.getElem?_eq_some_iff.mp hi).1
  have hwithout : (m.without r.owned).arrays a = some cells := h
  rw [freeRecFields, recAt_some h hi, Exec.bind_done, freeStrings_allocated hnodup halloc,
    Exec.bind_done]
  exact setRec_some hwithout hlt _

/-- The strings of the records from one on. -/
theorem freeFrom_rest {a : ℕ} (n : ℕ) {m : RecMemory ρ} {cells : List (RecCell ρ)} {i : ℕ}
    (h : m.arrays a = some cells) (hn : i + n = cells.length)
    (hnodup : ((cells.drop i).flatMap RecCell.owned).Nodup)
    (halloc : ∀ p ∈ (cells.drop i).flatMap RecCell.owned, m.strings p = true) :
    ∃ cells', m.freeFrom (some a) i n =
      .done ((m.setArray a (some cells')).without ((cells.drop i).flatMap RecCell.owned)) := by
  induction n generalizing m cells i with
  | zero =>
    refine ⟨cells, ?_⟩
    rw [freeFrom, List.drop_eq_nil_of_le (by omega), List.flatMap_nil, without_nil, setArray_self h]
  | succ n ih =>
    have hi : i < cells.length := by omega
    have hdrop := List.drop_eq_getElem_cons hi
    rw [hdrop, List.flatMap_cons] at hnodup halloc
    obtain ⟨hnodup₁, hnodup₂, hdisj⟩ := List.nodup_append.mp hnodup
    have hset : (cells.set i cells[i].cleared).drop (i + 1) = cells.drop (i + 1) :=
      List.drop_set_of_lt (Nat.lt_succ_self i)
    have hfirst := freeRecFields_some h (List.getElem?_eq_getElem hi) hnodup₁
      (fun p hp ↦ halloc p (List.mem_append_left _ hp))
    have harray : ((m.setArray a (some (cells.set i cells[i].cleared))).without
        cells[i].owned).arrays a = some (cells.set i cells[i].cleared) := arrays_setArray _ _ _
    have hlen : i + 1 + n = (cells.set i cells[i].cleared).length := by
      rw [List.length_set]
      omega
    obtain ⟨cells', hrest⟩ := ih harray hlen (by rw [hset]; exact hnodup₂) (by
        intro p hp
        rw [hset] at hp
        have hne : p ∉ cells[i].owned := fun h ↦ hdisj p h p hp rfl
        have hp' := halloc p (List.mem_append_right _ hp)
        show (m.strings p && decide (p ∉ cells[i].owned)) = true
        simp [hp', hne])
    refine ⟨cells', ?_⟩
    rw [freeFrom, hfirst, Exec.bind_done, hrest, hset, setArray_without, setArray_setArray,
      without_without, hdrop, List.flatMap_cons]

/-- New records at the end of an array. -/
theorem initFrom_rest (zero : ρ) (type : DescType) {a : ℕ} (n : ℕ) {m : RecMemory ρ}
    {cells : List (RecCell ρ)} {junk : RecCell ρ}
    (h : m.arrays a = some (cells ++ List.replicate n junk)) :
    m.initFrom zero type (some a) cells.length n =
      .done (m.setArray a (some (cells ++ List.replicate n (.init zero type)))) := by
  induction n generalizing m cells with
  | zero =>
    rw [initFrom, List.replicate_zero]
    rw [List.replicate_zero] at h
    rw [setArray_self h]
  | succ n ih =>
    have hi : cells.length < (cells ++ List.replicate (n + 1) junk).length := by simp
    have hset : (cells ++ List.replicate (n + 1) junk).set cells.length (.init zero type) =
        (cells ++ [.init zero type]) ++ List.replicate n junk := by
      rw [List.replicate_succ, List.set_append_right _ _ le_rfl]
      simp
    have hstep := ih (arrays_setArray m a
      (some ((cells ++ [RecCell.init zero type]) ++ List.replicate n junk)))
    rw [List.length_append, List.length_singleton] at hstep
    rw [initFrom, setRec_some h hi, Exec.bind_done, hset, hstep, setArray_setArray,
      List.append_assoc, List.replicate_succ]
    rfl

end RecMemory

/-! ## Calls -/

/-- A descriptor and its records as the driver keeps them: the strings of an IRD's records are
borrowed, those of other records are allocated, each for itself. -/
structure Held (m : RecMemory ρ) (desc : RecHolder) (cells : List (RecCell ρ)) : Prop where
  array : (desc.recs = none ∧ cells = []) ∨ ∃ a, desc.recs = some a ∧ m.arrays a = some cells
  count : cells.length = desc.count
  nodup : desc.type ≠ .ird → (cells.flatMap RecCell.owned).Nodup
  allocated : desc.type ≠ .ird → ∀ p ∈ cells.flatMap RecCell.owned, m.strings p = true

/-- An outcome that `realloc` can have. -/
def Reallocation.Possible (m : RecMemory ρ) (desc : RecHolder) : Reallocation ρ → Prop
  | .fails => True
  | .stays _ => desc.recs ≠ none
  | .moves a _ => m.arrays a = none

/-- A call of `update_rec_count`. -/
structure Resizing (ρ : Type) where
  zero : ρ
  memory : RecMemory ρ
  desc : RecHolder
  cells : List (RecCell ρ)
  held : Held memory desc cells
  /-- An `SQLSMALLINT`. -/
  newCount : ℤ
  short : -2 ^ 15 ≤ newCount ∧ newCount < 2 ^ 15
  outcome : Reallocation ρ
  possible : outcome.Possible memory desc

namespace Resizing

variable (c : Resizing ρ)

/-- The strings that go with the records that are removed. -/
def released : List ℕ :=
  if c.desc.type = .ird then [] else (c.cells.drop c.newCount.toNat).flatMap RecCell.owned

/-- The records that are left. -/
def resized : List (RecCell ρ) :=
  c.cells.take c.newCount.toNat ++
    List.replicate (c.newCount.toNat - c.cells.length) (.init c.zero c.desc.type)

/-- A call that succeeds. -/
structure Done (m : RecMemory ρ) (desc : RecHolder) : Prop where
  type : desc.type = c.desc.type
  count : (desc.count : ℤ) = c.newCount
  array : (desc.recs = none ∧ c.resized = []) ∨ ∃ a, desc.recs = some a ∧ m.arrays a = some c.resized
  strings : ∀ p, m.strings p = (c.memory.strings p && decide (p ∉ c.released))
  others : ∀ a, c.desc.recs ≠ some a → desc.recs ≠ some a → m.arrays a = c.memory.arrays a

/-- The call resizes the descriptor, or fails and leaves it. -/
def Right : Prop :=
  ∃ state m desc,
    RecMemory.updateRecCount c.zero c.outcome c.memory c.desc c.newCount = .done (state, m, desc) ∧
    ((state ≠ .s00000 ∧ m = c.memory ∧ desc = c.desc) ∨ (state = .s00000 ∧ c.Done m desc))

/-- A count of nothing. -/
theorem right_of_zero (hzero : c.newCount = 0) (hcount : c.desc.count ≠ 0) : c.Right := by
  have hresized : c.resized = [] := by simp [resized, hzero]
  rcases c.held.array with ⟨-, hcells⟩ | ⟨a, hrecs, harray⟩
  · exact absurd (c.held.count ▸ congrArg List.length hcells) (by simpa using hcount)
  have hne : ¬(c.desc.count : ℤ) = c.newCount := by
    rw [hzero]
    exact_mod_cast hcount
  have hrun : RecMemory.updateRecCount c.zero c.outcome c.memory c.desc c.newCount =
      (c.memory.freeDescRecs c.desc).bind fun x ↦ .done (.s00000, x.1, { x.2 with count := 0, recs := none }) := by
    rw [RecMemory.updateRecCount, if_neg (by omega), if_neg hne, if_neg (by rw [hzero]; decide)]
    simp [hzero]
  have hfree : ∃ cells', (if c.desc.type = .ird then .done c.memory
      else c.memory.freeFrom c.desc.recs 0 c.desc.count) =
        .done ((c.memory.setArray a (some cells')).without c.released) := by
    by_cases hird : c.desc.type = .ird
    · refine ⟨c.cells, ?_⟩
      rw [if_pos hird, released, if_pos hird, RecMemory.without_nil, RecMemory.setArray_self harray]
    · rw [if_neg hird, released, if_neg hird, hzero, hrecs]
      exact RecMemory.freeFrom_rest _ harray (by rw [Nat.zero_add, c.held.count])
        (c.held.nodup hird) (c.held.allocated hird)
  obtain ⟨cells', hfree⟩ := hfree
  have hfreed : c.memory.freeDescRecs c.desc =
      .done ((c.memory.setArray a none).without c.released, { c.desc with count := 0, recs := none }) := by
    rw [RecMemory.freeDescRecs, hfree, Exec.bind_done, hrecs]
    simp only [RecMemory.freeArray, RecMemory.arrays_without, RecMemory.arrays_setArray,
      Exec.bind_done, RecMemory.setArray_without, RecMemory.setArray_setArray]
  rw [hfreed, Exec.bind_done] at hrun
  refine ⟨_, _, _, hrun, .inr ⟨rfl, ?_⟩⟩
  refine ⟨rfl, hzero.symm, .inl ⟨rfl, hresized⟩, fun _ ↦ rfl, fun b hb _ ↦ ?_⟩
  have hba : b ≠ a := by
    rintro rfl
    exact hb hrecs
  exact RecMemory.arrays_setArray_ne _ hba _

/-- A call that changes the count to one that is allowed and not zero. -/
theorem run_eq (hpos : 0 < c.newCount) (hne : (c.desc.count : ℤ) ≠ c.newCount) :
    RecMemory.updateRecCount c.zero c.outcome c.memory c.desc c.newCount =
      (c.memory.realloc c.desc.recs c.newCount.toNat c.outcome).bind fun x ↦
        match x.1 with
        | none => .done (.sHY001, x.2, c.desc)
        | some recs =>
          (if c.newCount.toNat < c.desc.count then
            x.2.freeFrom c.desc.recs (c.newCount.toNat - 1) (c.desc.count - (c.newCount.toNat - 1))
          else x.2.initFrom c.zero c.desc.type (some recs) c.desc.count
            (c.newCount.toNat - c.desc.count)).bind fun m ↦
              .done (.s00000, m, { c.desc with count := c.newCount.toNat, recs := some recs }) := by
  have hnat : ¬c.newCount.toNat = 0 := by omega
  have hmax : ¬esodbcMaxDescCount < c.newCount := by
    have hvalue : esodbcMaxDescCount = 32767 := rfl
    have := c.short
    omega
  rw [RecMemory.updateRecCount, if_neg (by omega), if_neg hne, if_neg hmax]
  dsimp only
  rw [if_neg hnat]

/-- What `realloc` leaves of the records. -/
theorem realloc_some (hfails : c.outcome ≠ .fails) :
    ∃ a m junk, c.memory.realloc c.desc.recs c.newCount.toNat c.outcome = .done (some a, m) ∧
      m.arrays a = some (c.cells.take c.newCount.toNat ++
        List.replicate (c.newCount.toNat - c.cells.length) junk) ∧
      m.strings = c.memory.strings ∧
      (∀ b, c.desc.recs ≠ some b → b ≠ a → m.arrays b = c.memory.arrays b) ∧
      ∀ b, c.desc.recs = some b → b ≠ a → m.arrays b = none := by
  have hpossible := c.possible
  cases hout : c.outcome with
  | fails => exact absurd hout hfails
  | stays junk =>
    rw [hout] at hpossible
    rcases c.held.array with ⟨hrecs, -⟩ | ⟨a, hrecs, harray⟩
    · exact absurd hrecs hpossible
    refine ⟨a, c.memory.setArray a _, junk, by simp only [RecMemory.realloc, hrecs, harray],
      RecMemory.arrays_setArray _ _ _, rfl, fun b _ hb ↦ RecMemory.arrays_setArray_ne _ hb _,
      fun b hb hba ↦ ?_⟩
    rw [hrecs] at hb
    exact absurd (Option.some.inj hb).symm hba
  | moves a junk =>
    rw [hout] at hpossible
    rcases c.held.array with ⟨hrecs, hcells⟩ | ⟨old, hrecs, harray⟩
    · refine ⟨a, c.memory.setArray a (some (List.replicate c.newCount.toNat junk)), junk,
        by simp only [RecMemory.realloc, hrecs], ?_, rfl,
        fun b _ hb ↦ RecMemory.arrays_setArray_ne _ hb _, fun b hb ↦ ?_⟩
      · rw [RecMemory.arrays_setArray, hcells]
        simp
      · rw [hrecs] at hb
        cases hb
    · refine ⟨a, (c.memory.setArray old none).setArray a _, junk,
        by simp only [RecMemory.realloc, hrecs, harray],
        RecMemory.arrays_setArray _ _ _, rfl, fun b hb hba ↦ ?_, fun b hb hba ↦ ?_⟩
      · have hbold : b ≠ old := by
          rintro rfl
          exact hb hrecs
        rw [RecMemory.arrays_setArray_ne _ hba, RecMemory.arrays_setArray_ne _ hbold]
      · rw [hrecs] at hb
        obtain rfl := Option.some.inj hb
        rw [RecMemory.arrays_setArray_ne _ hba, RecMemory.arrays_setArray]

/-- A larger count. -/
theorem right_of_grow (hgrow : (c.desc.count : ℤ) < c.newCount) (hfails : c.outcome ≠ .fails) : c.Right := by
  obtain ⟨a, m, junk, hrealloc, harray, hstrings, hothers, -⟩ := c.realloc_some hfails
  have htake : c.cells.take c.newCount.toNat = c.cells := by
    refine List.take_of_length_le ?_
    rw [c.held.count]
    omega
  have hreleased : c.released = [] := by
    have hdrop : c.cells.drop c.newCount.toNat = [] := by
      refine List.drop_eq_nil_of_le ?_
      rw [c.held.count]
      omega
    simp [released, hdrop]
  have hinit := RecMemory.initFrom_rest c.zero c.desc.type (c.newCount.toNat - c.cells.length) harray
  rw [htake, c.held.count] at hinit
  have hrun := c.run_eq (by omega) hgrow.ne
  rw [hrealloc, Exec.bind_done] at hrun
  dsimp only at hrun
  rw [if_neg (by omega), hinit, Exec.bind_done] at hrun
  refine ⟨_, _, _, hrun, .inr ⟨rfl, rfl, ?_, .inr ⟨a, rfl, ?_⟩, fun p ↦ ?_, fun b hb hb' ↦ ?_⟩⟩
  · dsimp only
    omega
  · rw [RecMemory.arrays_setArray, resized, htake, c.held.count]
  · rw [hreleased]
    show m.strings p = _
    simp [hstrings]
  · have hba : b ≠ a := fun h ↦ hb' (congrArg some h.symm)
    rw [RecMemory.arrays_setArray_ne _ hba, hothers b hb hba]

/-- A smaller count that is not zero: the records are reached through the old address, the last
one that is kept before those that are removed. -/
theorem not_right_of_shrink (hpos : 0 < c.newCount) (hshrink : c.newCount < c.desc.count)
    (hfails : c.outcome ≠ .fails) : ¬c.Right := by
  obtain ⟨a, m, junk, hrealloc, harray, -, -, hold⟩ := c.realloc_some hfails
  rintro ⟨state, m', desc', hrun, hright⟩
  rw [c.run_eq hpos hshrink.ne', hrealloc, Exec.bind_done] at hrun
  dsimp only at hrun
  rw [if_pos (by omega)] at hrun
  obtain ⟨m₁, hfree, -⟩ := Exec.bind_eq_done.mp hrun
  obtain ⟨n, hn⟩ : ∃ n, c.desc.count - (c.newCount.toNat - 1) = n + 2 :=
    ⟨c.desc.count - (c.newCount.toNat - 1) - 2, by omega⟩
  rw [hn, RecMemory.freeFrom] at hfree
  obtain ⟨m₂, hfirst, hrest⟩ := Exec.bind_eq_done.mp hfree
  rcases c.held.array with ⟨-, hcells⟩ | ⟨old, hrecs, -⟩
  · have := c.held.count
    rw [hcells, List.length_nil] at this
    omega
  rw [hrecs] at hfirst hrest
  rw [RecMemory.freeRecFields] at hfirst
  by_cases hmoved : old = a
  · subst hmoved
    -- in place: what is behind the records that are kept is gone
    have hlen : (c.cells.take c.newCount.toNat ++
        List.replicate (c.newCount.toNat - c.cells.length) junk).length = c.newCount.toNat := by
      rw [List.length_append, List.length_take, List.length_replicate, c.held.count]
      omega
    obtain ⟨x, hx, hset⟩ := Exec.bind_eq_done.mp hfirst
    obtain ⟨m₃, hstrings, hset⟩ := Exec.bind_eq_done.mp hset
    have hkept : ∃ cells, m₂.arrays old = some cells ∧ cells.length = c.newCount.toNat := by
      obtain ⟨cells, harray₃, rfl⟩ := RecMemory.setRec_done hset
      rw [RecMemory.freeStrings_arrays hstrings, harray] at harray₃
      obtain rfl := Option.some.inj harray₃
      exact ⟨_, RecMemory.arrays_setArray _ _ _, by rw [List.length_set, hlen]⟩
    obtain ⟨cells, harray₂, hlen₂⟩ := hkept
    rw [RecMemory.freeFrom, RecMemory.freeRecFields, RecMemory.recAt_outside harray₂ (by omega)] at hrest
    cases hrest
  · rw [RecMemory.recAt_gone (hold old hrecs hmoved)] at hfirst
    cases hfirst

/-- The count is changed as it should be, and everything else is left, unless it becomes smaller
without becoming zero. -/
theorem right_iff : c.Right ↔
    ¬(0 < c.newCount ∧ c.newCount < c.desc.count) ∨ c.outcome = .fails := by
  constructor
  · intro h
    by_contra hcon
    rw [not_or, not_not] at hcon
    exact c.not_right_of_shrink hcon.1.1 hcon.1.2 hcon.2 h
  · intro h
    by_cases hneg : c.newCount < 0
    · refine ⟨.s07009, c.memory, c.desc, ?_, .inl ⟨by simp, rfl, rfl⟩⟩
      rw [RecMemory.updateRecCount, if_pos hneg]
    by_cases hsame : (c.desc.count : ℤ) = c.newCount
    · refine ⟨.s00000, c.memory, c.desc, ?_, .inr ⟨rfl, rfl, hsame, ?_, fun p ↦ ?_, fun _ _ _ ↦ rfl⟩⟩
      · rw [RecMemory.updateRecCount, if_neg hneg, if_pos hsame]
      · have hcount : c.newCount.toNat = c.cells.length := by
          rw [c.held.count]
          omega
        have hresized : c.resized = c.cells := by simp [resized, hcount]
        rw [hresized]
        exact c.held.array
      · have hdrop : c.cells.drop c.newCount.toNat = [] := by
          refine List.drop_eq_nil_of_le ?_
          rw [c.held.count]
          omega
        simp [released, hdrop]
    by_cases hzero : c.newCount = 0
    · exact c.right_of_zero hzero (by omega)
    by_cases hfails : c.outcome = .fails
    · refine ⟨.sHY001, c.memory, c.desc, ?_, .inl ⟨by simp, rfl, rfl⟩⟩
      rw [c.run_eq (by omega) hsame, hfails]
      rfl
    · have hgrow := h.resolve_right hfails
      exact c.right_of_grow (by omega) hfails

end Resizing

/-- An IRD of two records that is made smaller by one: the name of the record that is kept is
not the driver's to free. -/
theorem Resizing.not_right_two_columns : ¬∀ c : Resizing Unit, c.Right := by
  intro h
  let cell (name : ℕ) : RecCell Unit := { RecCell.init () .ird with name := some name }
  let c : Resizing Unit :=
    { zero := ()
      memory := { arrays := fun a ↦ if a = 1 then some [cell 10, cell 20] else none, strings := fun _ ↦ false }
      desc := { type := .ird, count := 2, recs := some 1 }
      cells := [cell 10, cell 20]
      held := ⟨.inr ⟨1, rfl, rfl⟩, rfl, fun h ↦ absurd rfl h, fun h ↦ absurd rfl h⟩
      newCount := 1
      short := by norm_num
      outcome := .stays (cell 0)
      possible := by simp [Reallocation.Possible] }
  rcases c.right_iff.mp (h c) with hcount | hfails
  · exact hcount ⟨by decide, by decide⟩
  · cases hfails

end EsOdbc
