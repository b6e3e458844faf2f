import EsOdbc.Connect.Types

/-!
# The types that a connection keeps

Loading the table of types ends for every answer: with nothing kept, or with the strings laid out
in the block that was sized for them, entries that are their rows with the fixes of the driver, and
references to the largest entries of their classes.
-/

namespace EsOdbc

open EsTypeEntry

/-! ## The law -/

namespace TypeString

/-- The bytes of a string in the block. -/
def pieces (s : TypeString) : List (ℕ × List UInt8) :=
  s.pos.toList.map fun p ↦ (p, wideBytes (s.text ++ [0]))

end TypeString

namespace EsTypeEntry

/-- The bytes of the name in C. -/
def nameBytes (e : EsTypeEntry) : List UInt8 := e.row.typeName.text.map UInt16.toUInt8 ++ [0]

/-- What an entry has in the block. -/
def pieces (e : EsTypeEntry) : List (ℕ × List UInt8) :=
  e.row.strings.flatMap TypeString.pieces ++ [(e.typeNameC, e.nameBytes)]

end EsTypeEntry

/-- The varchar limit of the connection cuts none of the strings. -/
def TypeRow.Uncut (varcharLimit : ℕ) (cells : TypeCells) : Prop :=
  ∀ s ∈ cells.strings, s.map (varcharLimited varcharLimit) = s

/-- An entry is its row, NULLs being empty strings and zeros: but for the types, which are the ones
of its name, the size of a text, which is limited, and the scales of an interval with seconds, which
are the ones of a timestamp in front of it. -/
structure EsTypeEntry.Of (varcharLimit : ℕ) (secPrec : Option ℤ) (cells : TypeCells)
    (e : EsTypeEntry) : Prop where
  types : elasticName2types e.row.typeName.text = some (e.cConciseType, e.row.dataType)
  metaType : e.metaType = conciseToMeta e.cConciseType .ard
  fields : cells.Uncut varcharLimit →
    e.row.map TypeString.text id id =
      { cells.map (·.getD []) (·.getD 0) (·.getD 0) with
        dataType := e.row.dataType
        columnSize := limitedSize varcharLimit e.row.dataType (cells.columnSize.getD 0)
        sqlDataType := (conciseToTypeCode e.row.dataType).1
        sqlDatetimeSub := (conciseToTypeCode e.row.dataType).2
        minimumScale := e.row.minimumScale
        maximumScale := e.row.maximumScale }
  scales : e.metaType ≠ .intervalWsec → e.row.minimumScale = cells.minimumScale.getD 0 ∧
    e.row.maximumScale = cells.maximumScale.getD 0
  secScales : e.metaType = .intervalWsec → ∀ prec, secPrec = some prec →
    e.row.minimumScale = prec ∧ e.row.maximumScale = prec

/-- The precision of the last timestamp, if there is one. -/
def timestampPrec (types : List EsTypeEntry) : Option ℤ :=
  (types.reverse.find? fun e ↦ e.row.dataType == 93).map fun e ↦ e.row.maximumScale

/-- A row that becomes an entry: it is fetched whole, and its name is one that the driver knows. -/
def TypeRow.Known (varcharLimit : ℕ) (cells : TypeCells) : Prop :=
  cells.succeeds varcharLimit = true ∧
    ∃ name, cells.typeName = some name ∧
      (elasticName2types (varcharLimited varcharLimit name)).isSome = true

namespace TypesLoad

/-- An answer that becomes the types of the connection. -/
structure Loadable (q : TypesLoad) : Prop where
  prepare : q.prepareFails = false
  columns : q.colCnt = esodbcTypesColumns
  nonempty : 0 < q.rows.length
  notMany : q.rows.length ≤ esodbcMaxNoTypes
  fetch : q.fetchFails = false
  known : ∀ cells ∈ q.fetched, cells.Known q.varcharLimit
  memory : q.oom = false
  free : q.freeFails = false

/-- The types that are kept of an answer. -/
structure Kept (q : TypesLoad) (t : TypeTable) : Prop where
  /-- The block holds the strings, and they do not overlap. -/
  laid : Buffer.Laid (t.types.flatMap EsTypeEntry.pieces) t.area t.area.length
  count : t.types.length = q.fetched.length
  entries : ∀ i cells (e : EsTypeEntry), q.fetched[i]? = some cells → t.types[i]? = some e →
    e.Of q.varcharLimit (timestampPrec (t.types.take i)) cells
  maxFloatType : Largest.Is t.types isDouble size t.refs.maxFloatType
  maxVarcharType : Largest.Is t.types isVarchar size t.refs.maxVarcharType
  ulong : Largest.IsIn t.types isUlong t.refs.ulong
  lgstName : ∃ i e, t.refs.lgstName = some (i, e) ∧ t.types[i]? = some e ∧
    ∀ e' ∈ t.types, e'.nameLength ≤ e.nameLength

end TypesLoad

/-! ## Names -/

theorem le_of_toWlower {u : UInt16} (h : toWlower u ≠ 0 ∧ toWlower u ≤ 127) : u ≠ 0 ∧ u ≤ 127 := by
  unfold toWlower at h
  by_cases hu : 0x41 ≤ u ∧ u ≤ 0x5A
  · have hle : (0x5A : UInt16) ≤ 127 := by decide
    refine ⟨?_, UInt16.le_trans hu.2 hle⟩
    rintro rfl
    exact absurd hu.1 (by decide)
  · rwa [if_neg hu] at h

theorem elasticTypes_ascii :
    (elasticTypes.all fun t ↦ !(wstr t.1).isEmpty &&
      ((wstr t.1).map toWlower).all fun u ↦ decide (u ≠ 0 ∧ u ≤ 127)) = true := by
  decide +kernel

/-- A name that the driver knows is in ASCII. -/
theorem ascii_of_elasticName2types {name : WStr} {types : ℤ × ℤ}
    (h : elasticName2types name = some types) : name ≠ [] ∧ ∀ u ∈ name, u ≠ 0 ∧ u ≤ 127 := by
  obtain ⟨t, ht, -⟩ := Option.map_eq_some_iff.mp h
  have hcase := List.find?_some ht
  have heq : name.map toWlower = (wstr t.1).map toWlower := eq_of_beq hcase
  have hascii := List.all_eq_true.mp elasticTypes_ascii t (List.mem_of_find?_eq_some ht)
  obtain ⟨hne, hascii⟩ := Bool.and_eq_true_iff.mp hascii
  constructor
  · rintro rfl
    rw [List.map_eq_nil_iff.mp heq.symm] at hne
    cases hne
  · intro u hu
    apply le_of_toWlower
    refine of_decide_eq_true (List.all_eq_true.mp hascii (toWlower u) ?_)
    rw [← heq]
    exact List.mem_map_of_mem hu

theorem asciiName_eq {name : WStr} (hne : name ≠ []) (h : ∀ u ∈ name, u ≠ 0 ∧ u ≤ 127) :
    asciiName name = (name.map UInt16.toUInt8 ++ [0], true) := by
  have hhead : name.takeWhile (fun u ↦ u ≠ 0 ∧ u ≤ 127) = name := by
    rw [List.takeWhile_eq_self_iff]
    intro u hu
    exact decide_eq_true (h u hu)
  have hempty : ¬name.isEmpty = true := by rwa [List.isEmpty_iff]
  unfold asciiName
  dsimp only
  rw [hhead, if_neg hempty, List.getElem?_eq_none le_rfl]
  rfl

/-- What is stored of a name has the room of its units and a terminator. -/
theorem length_asciiName (name : WStr) : (asciiName name).1.length ≤ name.length + 1 := by
  have hle := (List.takeWhile_prefix (l := name) fun u ↦ decide (u ≠ 0 ∧ u ≤ 127)).length_le
  unfold asciiName
  dsimp only
  split_ifs
  · exact Nat.zero_le _
  · rw [List.length_append, List.length_map]
    exact Nat.succ_le_succ hle
  · rw [List.length_map]
    exact hle.trans (Nat.le_succ _)

/-! ## Strings -/

/-- A column of a row that was fetched whole. -/
def TypeCol.Holds (col : TypeCol WStr) (s : Option WStr) : Prop :=
  s.elim (col.loi = sqlNullData) fun s ↦ col.data = s ++ [0] ∧ col.loi = 2 * s.length

theorem fetchString_holds {varcharLimit : ℕ} {cell : Option WStr}
    (h : cell.all (fun s ↦ decide (2 * ((varcharLimited varcharLimit s).length + 1) ≤ typeStringSize)) =
      true) :
    (fetchString varcharLimit cell).Holds (cell.map (varcharLimited varcharLimit)) := by
  cases cell with
  | none => rfl
  | some s =>
    have hle : ((varcharLimited varcharLimit s).length + 1) * 2 ≤ typeStringSize := by
      rw [Nat.mul_comm]
      exact of_decide_eq_true h
    show _ ∧ _
    dsimp only [fetchString]
    rw [transferWide_of_le hle]
    exact ⟨rfl, by push_cast; ring⟩

/-- A string is copied into the block. -/
theorem copyTypeWstr_laid {pieces : List (ℕ × List UInt8)} {out : TypeArea} {col : TypeCol WStr}
    {s : Option WStr} (h : Buffer.Laid pieces out.1 out.2) (hcol : col.Holds s)
    (hroom : out.2 + col.room ≤ out.1.length) :
    ∃ str out', copyTypeWstr col out = .done (str, out') ∧ str.text = s.getD [] ∧
      Buffer.Laid (pieces ++ str.pieces) out'.1 out'.2 ∧ out'.1.length = out.1.length ∧
      out'.2 = out.2 + col.room := by
  cases s with
  | none =>
    have hnull : col.loi = sqlNullData := hcol
    rw [TypeCol.room, if_pos hnull]
    refine ⟨⟨none, []⟩, out, by rw [copyTypeWstr, if_pos hnull], rfl, ?_, rfl, rfl⟩
    show Buffer.Laid (pieces ++ []) _ _
    rwa [List.append_nil]
  | some s =>
    obtain ⟨hdata, hloi⟩ : col.data = s ++ [0] ∧ col.loi = 2 * s.length := hcol
    have hnull : ¬col.loi = sqlNullData := by
      have hneg : sqlNullData = -1 := rfl
      omega
    have hcnt : (col.loi / 2).toNat = s.length := by omega
    have hunits : (s ++ [0]).take (s.length + 1) = s ++ [0] := List.take_of_length_le (by simp)
    have hlen : (wideBytes (s ++ [0])).length = 2 * s.length + 2 := by
      rw [length_wideBytes, List.length_append, List.length_singleton]
      ring
    have hcolroom : col.room = (wideBytes (s ++ [0])).length := by
      rw [TypeCol.room, if_neg hnull, hloi, hlen]
      omega
    rw [hcolroom] at hroom ⊢
    obtain ⟨buf, hstore⟩ := Buffer.exists_store out.1 out.2 (wideBytes (s ++ [0])) hroom
    refine ⟨⟨some out.2, s⟩, (buf, out.2 + (wideBytes (s ++ [0])).length), ?_, rfl, h.store hstore,
      Buffer.length_store hstore, rfl⟩
    have hfull : ¬(s ++ [(0 : UInt16)]).length < s.length + 1 := by simp
    rw [copyTypeWstr, if_neg hnull]
    dsimp only
    rw [hcnt, hdata, hunits, if_neg hfull, put, hstore, Exec.ofOption_some, Exec.bind_done,
      Exec.bind_done, List.take_left]

/-! ## A row -/

/-- The precision of seconds that the entries in front leave. -/
def secPrecAfter (secPrec : ℤ) (types : List EsTypeEntry) : ℤ :=
  types.foldl (fun s e ↦ if e.row.dataType = 93 then e.row.maximumScale else s) secPrec

theorem secPrecAfter_eq {types : List EsTypeEntry} {prec : ℤ} (h : timestampPrec types = some prec)
    (secPrec : ℤ) : secPrecAfter secPrec types = prec := by
  induction types using List.reverseRecOn with
  | nil => cases h
  | append_singleton types e ih =>
    unfold timestampPrec at h ih
    rw [List.reverse_append, List.reverse_singleton, List.singleton_append, List.find?_cons] at h
    rw [secPrecAfter, List.foldl_append]
    by_cases he : e.row.dataType = 93
    · rw [beq_iff_eq.mpr he] at h
      show (if e.row.dataType = 93 then e.row.maximumScale else _) = prec
      rw [if_pos he]
      exact Option.some.inj h
    · rw [beq_eq_false_iff_ne.mpr he] at h
      show (if e.row.dataType = 93 then e.row.maximumScale else _) = prec
      rw [if_neg he]
      exact ih h

/-- The numbers of a row as they are copied. -/
theorem copyTypeInt_fetch {bytes : ℤ} (hbytes : bytes ≠ sqlNullData) (cell : Option ℤ) :
    copyTypeInt (fetchNumber bytes cell) = cell.getD 0 := by
  cases cell with
  | none => rfl
  | some v => exact if_neg hbytes

theorem elasticTypes_timestamp :
    (elasticTypes.all fun t ↦
      decide (t.2.2 = 93 → conciseToMeta t.2.1 .ard ≠ .intervalWsec)) = true := by
  decide +kernel

theorem timestamp_of_elasticName2types {name : WStr} {types : ℤ × ℤ}
    (h : elasticName2types name = some types) (hts : types.2 = 93) :
    conciseToMeta types.1 .ard ≠ .intervalWsec := by
  obtain ⟨t, ht, rfl⟩ := Option.map_eq_some_iff.mp h
  have hall := List.all_eq_true.mp elasticTypes_timestamp t (List.mem_of_find?_eq_some ht)
  exact of_decide_eq_true hall hts

theorem map_uncut {varcharLimit : ℕ} {cells : TypeCells} (h : cells.Uncut varcharLimit) :
    cells.map (fun s ↦ (s.map (varcharLimited varcharLimit)).getD []) (·.getD 0) (·.getD 0) =
      cells.map (·.getD []) (·.getD 0) (·.getD 0) := by
  unfold TypeRow.Uncut at h
  simp only [TypeRow.strings, List.forall_mem_cons] at h
  obtain ⟨h₁, h₂, h₃, h₄, h₅, -⟩ := h
  dsimp only [TypeRow.map]
  rw [h₁, h₂, h₃, h₄, h₅]

/-- The fixes on an entry that was copied from a row. -/
theorem fixType_of {varcharLimit : ℕ} {cells : TypeCells} {row : TypeRow TypeString ℤ ℤ}
    {types : ℤ × ℤ} (ht : elasticName2types row.typeName.text = some types)
    (hrow : row.map TypeString.text id id =
      cells.map (fun s ↦ (s.map (varcharLimited varcharLimit)).getD []) (·.getD 0) (·.getD 0))
    (secPrec : ℤ) (typeNameC : ℕ) :
    (fixType varcharLimit secPrec row types typeNameC).1.Of varcharLimit (some secPrec) cells ∧
      (fixType varcharLimit secPrec row types typeNameC).2 =
        secPrecAfter secPrec [(fixType varcharLimit secPrec row types typeNameC).1] ∧
      (fixType varcharLimit secPrec row types typeNameC).1.row.strings = row.strings ∧
      (fixType varcharLimit secPrec row types typeNameC).1.row.typeName = row.typeName ∧
      (fixType varcharLimit secPrec row types typeNameC).1.typeNameC = typeNameC := by
  have hsize : row.columnSize = cells.columnSize.getD 0 := congrArg TypeRow.columnSize hrow
  have hmin : row.minimumScale = cells.minimumScale.getD 0 := congrArg TypeRow.minimumScale hrow
  have hmax : row.maximumScale = cells.maximumScale.getD 0 := congrArg TypeRow.maximumScale hrow
  unfold fixType
  dsimp only
  by_cases hts : types.2 = 93
  · rw [if_pos hts]
    refine ⟨⟨ht, rfl, ?_, fun _ ↦ ⟨hmin, hmax⟩, ?_⟩, ?_, rfl, rfl, rfl⟩
    · intro huncut
      rw [← map_uncut huncut, ← hrow, ← hsize]
      rfl
    · intro hmeta
      exact absurd hmeta (timestamp_of_elasticName2types ht hts)
    · exact (if_pos hts).symm
  · rw [if_neg hts]
    by_cases hmeta : conciseToMeta types.1 .ard = .intervalWsec
    · rw [if_pos hmeta]
      refine ⟨⟨ht, rfl, ?_, fun h ↦ absurd hmeta h, ?_⟩, ?_, rfl, rfl, rfl⟩
      · intro huncut
        rw [← map_uncut huncut, ← hrow, ← hsize]
        rfl
      · rintro - prec ⟨⟩
        exact ⟨rfl, rfl⟩
      · exact (if_neg hts).symm
    · rw [if_neg hmeta]
      refine ⟨⟨ht, rfl, ?_, fun _ ↦ ⟨hmin, hmax⟩, fun h ↦ absurd h hmeta⟩, ?_, rfl, rfl, rfl⟩
      · intro huncut
        rw [← map_uncut huncut, ← hrow, ← hsize]
        rfl
      · exact (if_neg hts).symm

/-- What is left of the room of a string behind its bytes. -/
theorem TypeCol.room_eq {col : TypeCol WStr} {name : WStr} (h : col.Holds (some name)) :
    col.room = 2 * (name.length + 1) := by
  obtain ⟨-, hloi⟩ : col.data = name ++ [0] ∧ col.loi = 2 * name.length := h
  have hnull : ¬col.loi = sqlNullData := by
    have hneg : sqlNullData = -1 := rfl
    omega
  rw [TypeCol.room, if_neg hnull, hloi]
  omega

/-- The strings of a row that is fetched whole. -/
theorem TypeRow.holds_of_succeeds {varcharLimit : ℕ} {cells : TypeCells}
    (h : cells.succeeds varcharLimit = true) :
    ∀ s ∈ cells.strings,
      (fetchString varcharLimit s).Holds (s.map (varcharLimited varcharLimit)) := by
  obtain ⟨⟨hstr, -⟩, -⟩ : (_ ∧ _) ∧ _ := by
    unfold TypeRow.succeeds at h
    rwa [Bool.and_eq_true_iff, Bool.and_eq_true_iff] at h
  intro s hs
  exact fetchString_holds (List.all_eq_true.mp hstr s hs)

/-- The strings of a row are copied behind each other, and it becomes an entry if the driver knows
its name. -/
theorem copyTypesRow_laid {varcharLimit : ℕ} {cells : TypeCells}
    (hok : cells.succeeds varcharLimit = true) {pieces : List (ℕ × List UInt8)} {out : TypeArea}
    (hlaid : Buffer.Laid pieces out.1 out.2)
    (hroom : out.2 + (cells.fetch varcharLimit).room ≤ out.1.length) (secPrec : ℤ) :
    (¬cells.Known varcharLimit ∧
      copyTypesRow varcharLimit secPrec (cells.fetch varcharLimit) out = .done none) ∨
    cells.Known varcharLimit ∧ ∃ e out',
      copyTypesRow varcharLimit secPrec (cells.fetch varcharLimit) out =
        .done (some ((e, secPrecAfter secPrec [e]), out')) ∧
      e.Of varcharLimit (some secPrec) cells ∧ Buffer.Laid (pieces ++ e.pieces) out'.1 out'.2 ∧
      out'.1.length = out.1.length ∧ out'.2 = out.2 + (cells.fetch varcharLimit).room := by
  have hstr := TypeRow.holds_of_succeeds hok
  simp only [TypeRow.strings, List.forall_mem_cons] at hstr
  obtain ⟨h₁, h₂, h₃, h₄, h₅, -⟩ := hstr
  have hall : (cells.fetch varcharLimit).room = 2 * (fetchString varcharLimit cells.typeName).room +
      (fetchString varcharLimit cells.literalPrefix).room +
      (fetchString varcharLimit cells.literalSuffix).room +
      (fetchString varcharLimit cells.createParams).room +
      (fetchString varcharLimit cells.localTypeName).room := rfl
  rw [hall] at hroom ⊢
  obtain ⟨s₁, o₁, hc₁, ht₁, hl₁, hn₁, hp₁⟩ := copyTypeWstr_laid hlaid h₁ (by omega)
  obtain ⟨s₂, o₂, hc₂, ht₂, hl₂, hn₂, hp₂⟩ := copyTypeWstr_laid hl₁ h₂ (by omega)
  obtain ⟨s₃, o₃, hc₃, ht₃, hl₃, hn₃, hp₃⟩ := copyTypeWstr_laid hl₂ h₃ (by omega)
  obtain ⟨s₄, o₄, hc₄, ht₄, hl₄, hn₄, hp₄⟩ := copyTypeWstr_laid hl₃ h₄ (by omega)
  obtain ⟨s₅, o₅, hc₅, ht₅, hl₅, hn₅, hp₅⟩ := copyTypeWstr_laid hl₄ h₅ (by omega)
  have hname : (asciiName s₁.text).1.length ≤ (fetchString varcharLimit cells.typeName).room := by
    cases hcell : cells.typeName with
    | none =>
      rw [hcell] at ht₁
      rw [ht₁]
      exact Nat.zero_le _
    | some name =>
      rw [hcell] at h₁ ht₁
      have hroom₁ := TypeCol.room_eq h₁
      have hascii := length_asciiName s₁.text
      rw [ht₁] at hascii ⊢
      rw [hroom₁]
      exact hascii.trans (by simp only [Option.map_some, Option.getD_some]; omega)
  obtain ⟨area, hstore⟩ := Buffer.exists_store o₅.1 o₅.2 (asciiName s₁.text).1 (by omega)
  have hrun : copyTypesRow varcharLimit secPrec (cells.fetch varcharLimit) out =
      if !(asciiName s₁.text).2 then .done none
      else .done <| (elasticName2types s₁.text).map fun types ↦
        (fixType varcharLimit secPrec { (cells.fetch varcharLimit).map (fun _ ↦ s₁) copyTypeInt copyTypeInt with
          literalPrefix := s₂, literalSuffix := s₃, createParams := s₄, localTypeName := s₅ } types o₅.2,
          (area, o₅.2 + 2 * (s₁.text.length + 1))) := by
    have e₁ : copyTypeWstr (cells.fetch varcharLimit).typeName out = .done (s₁, o₁) := hc₁
    have e₂ : copyTypeWstr (cells.fetch varcharLimit).literalPrefix o₁ = .done (s₂, o₂) := hc₂
    have e₃ : copyTypeWstr (cells.fetch varcharLimit).literalSuffix o₂ = .done (s₃, o₃) := hc₃
    have e₄ : copyTypeWstr (cells.fetch varcharLimit).createParams o₃ = .done (s₄, o₄) := hc₄
    have e₅ : copyTypeWstr (cells.fetch varcharLimit).localTypeName o₄ = .done (s₅, o₅) := hc₅
    unfold copyTypesRow
    simp only [e₁, e₂, e₃, e₄, e₅, hstore, Exec.bind_done, Exec.ofOption_some]
  have hknown : cells.Known varcharLimit ↔ (elasticName2types s₁.text).isSome = true := by
    rw [ht₁]
    constructor
    · rintro ⟨-, name, hcell, hsome⟩
      rw [hcell]
      exact hsome
    · intro hsome
      cases hcell : cells.typeName with
      | none =>
        rw [hcell] at hsome
        cases hsome
      | some name =>
        rw [hcell] at hsome
        exact ⟨hok, name, hcell, hsome⟩
  cases htypes : elasticName2types s₁.text with
  | none =>
    left
    rw [htypes] at hknown
    refine ⟨fun h ↦ ?_, ?_⟩
    · cases hknown.mp h
    · rw [hrun, htypes, Option.map_none]
      split_ifs <;> rfl
  | some types =>
    right
    rw [htypes] at hknown
    refine ⟨hknown.mpr rfl, ?_⟩
    obtain ⟨hne, hascii⟩ := ascii_of_elasticName2types htypes
    have hok' := asciiName_eq hne hascii
    obtain ⟨name, hcell⟩ : ∃ name, cells.typeName = some name := by
      cases hcell : cells.typeName with
      | none =>
        rw [hcell] at ht₁
        exact absurd ht₁ hne
      | some name => exact ⟨name, rfl⟩
    have hroom₁ : (fetchString varcharLimit cells.typeName).room = 2 * (s₁.text.length + 1) := by
      rw [ht₁]
      rw [hcell] at h₁ ⊢
      exact TypeCol.room_eq h₁
    have hrow : ({ (cells.fetch varcharLimit).map (fun _ ↦ s₁) copyTypeInt copyTypeInt with
        literalPrefix := s₂, literalSuffix := s₃, createParams := s₄, localTypeName := s₅ } :
          TypeRow TypeString ℤ ℤ).map TypeString.text id id =
        cells.map (fun s ↦ (s.map (varcharLimited varcharLimit)).getD []) (·.getD 0) (·.getD 0) := by
      have hshort := copyTypeInt_fetch (show (2 : ℤ) ≠ sqlNullData by decide)
      have hlong := copyTypeInt_fetch (show (4 : ℤ) ≠ sqlNullData by decide)
      dsimp only [TypeRow.fetch, TypeRow.map]
      simp only [hshort, hlong, ht₁, ht₂, ht₃, ht₄, ht₅, id]
    obtain ⟨hof, hprec, hstrings, htypeName, hnameC⟩ := fixType_of htypes hrow secPrec o₅.2
    have hflag : (asciiName s₁.text).2 = true := by rw [hok']
    rw [hrun, hflag, htypes, if_neg (by decide), Option.map_some]
    refine ⟨_, (area, o₅.2 + 2 * (s₁.text.length + 1)), ?_, hof, ?_, ?_, ?_⟩
    · rw [← hprec]
    · rw [hok'] at hstore
      dsimp only at hstore
      have hbytes : (s₁.text.map UInt16.toUInt8 ++ [(0 : UInt8)]).length = s₁.text.length + 1 := by
        rw [List.length_append, List.length_map]
        rfl
      have hlen := Buffer.length_store hstore
      have hadded : Buffer.Laid _ area (o₅.2 + 2 * (s₁.text.length + 1)) :=
        (hl₅.store hstore).skip (by omega) (by omega)
      rw [EsTypeEntry.pieces, nameBytes, hstrings, htypeName, hnameC]
      simpa only [TypeRow.map, TypeRow.strings, List.flatMap_cons, List.flatMap_nil, List.append_nil,
        List.append_assoc] using hadded
    · rw [Buffer.length_store hstore]
      omega
    · dsimp only
      omega

/-! ## All rows -/

/-- The entries of rows, each with what the ones in front of it leave. -/
def MadeOf (varcharLimit : ℕ) (secPrec : ℤ) (rows : List TypeCells) (types : List EsTypeEntry) : Prop :=
  ∀ i cells (e : EsTypeEntry), rows[i]? = some cells → types[i]? = some e →
    e.Of varcharLimit (some (secPrecAfter secPrec (types.take i))) cells

theorem MadeOf.cons {varcharLimit : ℕ} {secPrec : ℤ} {cells : TypeCells} {rows : List TypeCells}
    {e : EsTypeEntry} {types : List EsTypeEntry} (he : e.Of varcharLimit (some secPrec) cells)
    (h : MadeOf varcharLimit (secPrecAfter secPrec [e]) rows types) :
    MadeOf varcharLimit secPrec (cells :: rows) (e :: types) := by
  intro i cells' e' hcells he'
  cases i with
  | zero =>
    obtain rfl := Option.some.inj hcells
    obtain rfl := Option.some.inj he'
    exact he
  | succ i => exact h i cells' e' hcells he'

/-- The rows are copied behind each other, up to one that the driver does not know. -/
theorem copyTypesRows_laid {varcharLimit : ℕ} {rows : List TypeCells}
    (hok : ∀ cells ∈ rows, cells.succeeds varcharLimit = true) (secPrec : ℤ)
    {pieces : List (ℕ × List UInt8)} {out : TypeArea} (hlaid : Buffer.Laid pieces out.1 out.2)
    (hroom : out.2 + ((rows.map (TypeRow.fetch varcharLimit)).map TypeRow.room).sum = out.1.length) :
    (¬(∀ cells ∈ rows, cells.Known varcharLimit) ∧
      copyTypesRows varcharLimit secPrec (rows.map (TypeRow.fetch varcharLimit)) out = .done none) ∨
    (∀ cells ∈ rows, cells.Known varcharLimit) ∧ ∃ types out',
      copyTypesRows varcharLimit secPrec (rows.map (TypeRow.fetch varcharLimit)) out =
        .done (some (types, out')) ∧
      types.length = rows.length ∧ MadeOf varcharLimit secPrec rows types ∧
      Buffer.Laid (pieces ++ types.flatMap EsTypeEntry.pieces) out'.1 out'.1.length := by
  induction rows generalizing secPrec pieces out with
  | nil =>
    right
    refine ⟨fun _ h ↦ (List.not_mem_nil h).elim, [], out, rfl, rfl, fun i _ _ h ↦ ?_, ?_⟩
    · rw [List.getElem?_nil] at h
      cases h
    · have hend : out.2 = out.1.length := hroom
      rw [List.flatMap_nil, List.append_nil, ← hend]
      exact hlaid
  | cons cells rows ih =>
    rw [List.forall_mem_cons] at hok ⊢
    rw [List.map_cons, List.map_cons, List.sum_cons] at hroom
    rw [List.map_cons, copyTypesRows]
    rcases copyTypesRow_laid hok.1 hlaid (by omega) secPrec with ⟨hunknown, hrun⟩ |
      ⟨hknown, e, out₁, hrun, hof, hlaid₁, hlen, hpos⟩
    · left
      rw [hrun, Exec.bind_done]
      exact ⟨fun h ↦ hunknown h.1, rfl⟩
    · rw [hrun, Exec.bind_done]
      dsimp only
      rcases ih hok.2 (secPrecAfter secPrec [e]) hlaid₁ (by omega) with ⟨hunknown, hrest⟩ |
        ⟨hall, types, out', hrest, hcount, hmade, hlaid'⟩
      · left
        rw [hrest, Exec.bind_done]
        exact ⟨fun h ↦ hunknown h.2, rfl⟩
      · right
        refine ⟨⟨hknown, hall⟩, e :: types, out', ?_, ?_, hmade.cons hof, ?_⟩
        · rw [hrest, Exec.bind_done, Option.map_some]
        · rw [List.length_cons, List.length_cons, hcount]
        · rw [List.flatMap_cons, ← List.append_assoc]
          exact hlaid'

/-! ## The references -/

theorem setEsTypes_refs (types : List EsTypeEntry) :
    Largest.Is types isDouble size (setEsTypes types).maxFloatType ∧
      Largest.Is types isVarchar size (setEsTypes types).maxVarcharType ∧
      Largest.IsIn types isUlong (setEsTypes types).ulong ∧
      Largest.Is types (fun _ ↦ true) nameLength (setEsTypes types).lgstName := by
  apply Largest.foldl_zipIdx (fun types refs ↦ Largest.Is types isDouble size refs.maxFloatType ∧
      Largest.Is types isVarchar size refs.maxVarcharType ∧ Largest.IsIn types isUlong refs.ulong ∧
      Largest.Is types (fun _ ↦ true) nameLength refs.lgstName) setEsType
  · exact ⟨.nil _ _, .nil _ _, .nil _, .nil _ _⟩
  · rintro types e refs ⟨hfloat, hvarchar, hulong, hname⟩
    exact ⟨hfloat.larger e, hvarchar.larger e, hulong.later e, hname.larger e⟩

/-- Of entries with names that the driver knows, one has the longest name. -/
theorem exists_lgstName {types : List EsTypeEntry} (hne : 0 < types.length)
    (hnames : ∀ e ∈ types, e.row.typeName.text ≠ []) :
    ∃ i e, (setEsTypes types).lgstName = some (i, e) ∧ types[i]? = some e ∧
      ∀ e' ∈ types, e'.nameLength ≤ e.nameLength := by
  obtain ⟨-, -, -, hlargest⟩ := setEsTypes_refs types
  cases href : (setEsTypes types).lgstName with
  | none =>
    have hmem := List.getElem_mem hne
    have hle : (types[0].row.typeName.text.length : ℤ) ≤ 0 := hlargest.empty href _ hmem rfl
    have hpos := List.length_pos_of_ne_nil (hnames _ hmem)
    omega
  | some ref =>
    obtain ⟨hi, -, -, hall⟩ := hlargest.found ref.1 ref.2 href
    exact ⟨ref.1, ref.2, rfl, hi, fun e' he' ↦ hall e' he' rfl⟩

namespace TypesLoad

variable {q : TypesLoad}

/-- What stops the loading in front of the copying. -/
theorem refused_of_loadable (h : q.Loadable) :
    ¬(q.prepareFails || q.colCnt ≠ esodbcTypesColumns || q.rows.length ≤ 0 ||
      esodbcMaxNoTypes < q.rows.length || q.fetchFails ||
      !(q.fetched.all (TypeRow.succeeds q.varcharLimit)) || q.oom) = true := by
  have hall : q.fetched.all (TypeRow.succeeds q.varcharLimit) = true := by
    rw [List.all_eq_true]
    intro cells hcells
    exact (h.known cells hcells).1
  have hsome := h.nonempty
  have hmany := h.notMany
  simp [h.prepare, h.columns, h.fetch, hall, h.memory, hsome.ne', hmany]

/-- Nothing is kept of an answer that is not to be loaded. -/
theorem kept_none (h : ¬q.Loadable) :
    ∃ out, Exec.done (none : Option TypeTable) = .done out ∧ (out.isSome = true ↔ q.Loadable) ∧
      ∀ t, out = some t → q.Kept t := by
  refine ⟨none, rfl, iff_of_false Bool.false_ne_true h, ?_⟩
  intro t ht
  cases ht

end TypesLoad

/-- A server with one type, whose `DATA_TYPE` is the one of `VARCHAR`. -/
def keywordLoad : TypesLoad where
  varcharLimit := 0
  colCnt := 19
  rows := [{
    typeName := some (wstr "KEYWORD"), dataType := some 12, columnSize := some 32766
    literalPrefix := some (wstr "'"), literalSuffix := some (wstr "'"), createParams := none
    nullable := some 2, caseSensitive := some 1, searchable := some 3
    unsignedAttribute := some 1, fixedPrecScale := some 0, autoUniqueValue := some 0
    localTypeName := none, minimumScale := none, maximumScale := none, sqlDataType := some 12
    sqlDatetimeSub := some 0, numPrecRadix := none, intervalPrecision := none }]
  laterRows := []
  prepareFails := false
  fetchFails := false
  oom := false
  freeFails := false

end EsOdbc
