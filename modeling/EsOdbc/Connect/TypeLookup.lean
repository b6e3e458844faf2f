import EsOdbc.Connect.TypesLoaded
import EsOdbc.Desc.BindParameter

/-!
# Looking a type up

`lookup_es_type` and `match_es_type` (`queries.c`) on the types that a connection keeps, with the
references that `set_es_types` leaves: the best fit for an id and a column size, and the type that a
parameter is bound to.
-/

namespace EsOdbc

namespace EsTypes

open EsTypeEntry (isDouble isVarchar size)

/-! ## The source -/

/-- The loop of `lookup_es_type`. -/
def lookupEsTypeFrom (refs : TypeRefs) (esType : ℤ) (colSize : BitVec 64) :
    List EsTypeEntry → Exec (Option EsTypeEntry)
  | [] => .done none
  | e :: es =>
    if e.row.dataType = esType then
      if colSize = 0 then .done (some e)
      else if (colSize.setWidth 32).toInt ≤ e.size then .done (some e)
      else if esType = sqlDouble then
        (Exec.ofOption refs.maxFloatType).bind fun m ↦
          if e.size = m.2.size then .done (some m.2) else lookupEsTypeFrom refs esType colSize es
      else lookupEsTypeFrom refs esType colSize es
    else lookupEsTypeFrom refs esType colSize es

/-- `lookup_es_type`. -/
def lookupEsType (types : List EsTypeEntry) (esType : ℤ) (colSize : BitVec 64) :
    Exec (Option EsTypeEntry) :=
  if esType = esVarcharSql ∨ esType = esWvarcharSql then
    .done ((setEsTypes types).maxVarcharType.map Prod.snd)
  else lookupEsTypeFrom (setEsTypes types) esType colSize types

/-- `match_es_type`. -/
def matchEsType (types : List EsTypeEntry) (irec : Rec) : Exec (Option EsTypeEntry) :=
  match types.find? fun e ↦ e.row.dataType == irec.conciseType with
  | some e =>
    if irec.conciseType = sqlDouble then .done ((setEsTypes types).maxFloatType.map Prod.snd)
    else if irec.conciseType = esWvarcharSql ∨ irec.conciseType = esVarcharSql then
      .done ((setEsTypes types).maxVarcharType.map Prod.snd)
    else .done (some e)
  | none =>
    match irec.metaType with
    | .exactNumeric => lookupEsType types sqlDouble (.ofInt 64 irec.precision)
    | .string => lookupEsType types esWvarcharSql (.ofInt 64 irec.precision)
    | .bin => lookupEsType types (-2) 0
    | .dateTime => lookupEsType types 93 0
    | .bit => lookupEsType types (-7) 0
    | .uid => lookupEsType types esWvarcharSql 0
    | _ => .done none

/-! ## The best fit -/

/-- Ordered by type id, and then by column size. -/
def Before (e e' : EsTypeEntry) : Prop :=
  e.row.dataType < e'.row.dataType ∨ (e.row.dataType = e'.row.dataType ∧ e.size ≤ e'.size)

instance : DecidableRel Before := fun e e' ↦ by
  unfold Before
  infer_instance

/-- An ordered table.  If it has floating types, one has a positive size, as `set_es_types` asserts. -/
structure Ordered where
  types : List EsTypeEntry
  ordered : types.Pairwise Before
  floats : ∀ e ∈ types, e.isDouble = true → ∃ e' ∈ types, e'.isDouble = true ∧ 0 < e'.size

/-- An entry of the id that is not below the size. -/
def fits (id n : ℤ) (e : EsTypeEntry) : Bool := e.row.dataType == id && decide (n ≤ e.size)

/-- The smallest entry that fits. -/
structure BestFit (types : List EsTypeEntry) (id n : ℤ) (e : EsTypeEntry) : Prop where
  mem : e ∈ types
  fits : fits id n e = true
  least : ∀ e' ∈ types, EsTypes.fits id n e' = true → e.size ≤ e'.size

/-- The largest floating type, where none fits. -/
structure LargestFloat (types : List EsTypeEntry) (n : ℤ) (e : EsTypeEntry) : Prop where
  mem : e ∈ types
  isDouble : e.isDouble = true
  largest : ∀ e' ∈ types, e'.isDouble = true → e'.size ≤ e.size
  exceeded : e.size < n

/-- What is found for an id and a size: for no size, the first entry of the id. -/
structure Found (types : List EsTypeEntry) (id : ℤ) (n : ℕ) (r : Option EsTypeEntry) : Prop where
  first : n = 0 → r = types.find? fun e ↦ e.row.dataType == id
  fit : n ≠ 0 → ∀ e, r = some e → BestFit types id n e ∨ (id = sqlDouble ∧ LargestFloat types n e)
  nothing : n ≠ 0 → (r = none ↔ ∀ e ∈ types, e.row.dataType = id → id ≠ sqlDouble ∧ e.size < n)

variable {types : List EsTypeEntry} {id n : ℤ} {e : EsTypeEntry}

theorem fits_iff : fits id n e = true ↔ e.row.dataType = id ∧ n ≤ e.size := by
  rw [fits, Bool.and_eq_true_iff, beq_iff_eq, decide_eq_true_eq]

/-- In an ordered table the first entry that fits is the smallest one. -/
theorem bestFit_of_find? (hordered : types.Pairwise Before) (h : types.find? (fits id n) = some e) :
    BestFit types id n e := by
  obtain ⟨hfits, before, behind, rfl, hbefore⟩ := List.find?_eq_some_iff_append.mp h
  refine ⟨List.mem_append_right _ List.mem_cons_self, hfits, fun e' he' hfits' ↦ ?_⟩
  obtain he' | he' := List.mem_append.mp he'
  · have hnot := hbefore e' he'
    rw [hfits'] at hnot
    cases hnot
  · obtain rfl | he' := List.mem_cons.mp he'
    · exact le_rfl
    · have hle := List.rel_of_pairwise_cons (List.pairwise_append.mp hordered).2.1 he'
      have hid := (fits_iff.mp hfits).1.trans (fits_iff.mp hfits').1.symm
      exact hle.elim (fun hlt ↦ absurd hid hlt.ne) And.right

theorem find?_fits_eq_none (h : types.find? (fits id n) = none) (he : e ∈ types)
    (hid : e.row.dataType = id) : e.size < n := by
  have hnot := List.find?_eq_none.mp h e he
  rw [fits_iff] at hnot
  exact not_le.mp fun hle ↦ hnot ⟨hid, hle⟩

/-! ## The loop -/

/-- How the loop ends on a list of entries. -/
inductive Ends (refs : TypeRefs) (id n : ℤ) (l : List EsTypeEntry) : Option EsTypeEntry → Prop where
  | fit {e : EsTypeEntry} (h : l.find? (EsTypes.fits id n) = some e) : Ends refs id n l (some e)
  | float {i : ℕ} {e m : EsTypeEntry} (h : l.find? (EsTypes.fits id n) = none) (hid : id = sqlDouble)
      (hm : refs.maxFloatType = some (i, m)) (he : e ∈ l) (heid : e.row.dataType = id)
      (hsize : e.size = m.size) : Ends refs id n l (some m)
  | nothing (h : l.find? (EsTypes.fits id n) = none)
      (hno : id = sqlDouble → ∀ i m, refs.maxFloatType = some (i, m) →
        ∀ e ∈ l, e.row.dataType = id → e.size ≠ m.size) : Ends refs id n l none

theorem Ends.cons {refs : TypeRefs} {l : List EsTypeEntry} {r : Option EsTypeEntry}
    (h : Ends refs id n l r) (hfits : EsTypes.fits id n e = false)
    (hne : id = sqlDouble → e.row.dataType = id → ∀ i m, refs.maxFloatType = some (i, m) →
      e.size ≠ m.size) : Ends refs id n (e :: l) r := by
  have hfind : (e :: l).find? (EsTypes.fits id n) = l.find? (EsTypes.fits id n) :=
    List.find?_cons_of_neg (by rw [hfits]; exact Bool.false_ne_true)
  cases h with
  | fit h => exact .fit (hfind.trans h)
  | float h hid hm he heid hsize =>
    exact .float (hfind.trans h) hid hm (List.mem_cons_of_mem _ he) heid hsize
  | nothing h hno =>
    refine .nothing (hfind.trans h) fun hid i m hm e' he' heid ↦ ?_
    obtain rfl | he' := List.mem_cons.mp he'
    · exact hne hid heid i m hm
    · exact hno hid i m hm e' he' heid

theorem toInt_setWidth {colSize : BitVec 64} (h : colSize.toNat < 2 ^ 31) :
    (colSize.setWidth 32).toInt = colSize.toNat := by
  rw [BitVec.toInt_eq_toNat_of_lt, BitVec.toNat_setWidth, Nat.mod_eq_of_lt (by omega)]
  rw [BitVec.toNat_setWidth, Nat.mod_eq_of_lt (by omega)]
  omega

/-- The early exit is taken at an entry of the largest size, behind which none fits. -/
theorem lookupEsTypeFrom_ends {refs : TypeRefs} {colSize : BitVec 64} {l : List EsTypeEntry}
    (hsize : colSize.toNat < 2 ^ 31) (hne : colSize ≠ 0)
    (hfloat : id = sqlDouble → ∀ e ∈ l, e.row.dataType = id →
      ∃ i m, refs.maxFloatType = some (i, m) ∧ ∀ e' ∈ l, e'.row.dataType = id → e'.size ≤ m.size) :
    ∃ r, lookupEsTypeFrom refs id colSize l = .done r ∧ Ends refs id colSize.toNat l r := by
  induction l with
  | nil => exact ⟨none, rfl, .nothing rfl fun _ _ _ _ _ he ↦ (List.not_mem_nil he).elim⟩
  | cons e l ih =>
    obtain ⟨r, hr, hends⟩ := ih fun hid e' he' heid ↦ by
      obtain ⟨i, m, hm, hall⟩ := hfloat hid e' (List.mem_cons_of_mem _ he') heid
      exact ⟨i, m, hm, fun e'' he'' ↦ hall e'' (List.mem_cons_of_mem _ he'')⟩
    rw [lookupEsTypeFrom]
    by_cases heid : e.row.dataType = id
    · rw [if_pos heid, if_neg hne, toInt_setWidth hsize]
      by_cases hle : (colSize.toNat : ℤ) ≤ e.size
      · rw [if_pos hle]
        exact ⟨some e, rfl, .fit (List.find?_cons_of_pos (fits_iff.mpr ⟨heid, hle⟩))⟩
      · have hfits : EsTypes.fits id colSize.toNat e = false :=
          Bool.eq_false_of_not_eq_true fun h ↦ hle (fits_iff.mp h).2
        rw [if_neg hle]
        by_cases hid : id = sqlDouble
        · obtain ⟨i, m, hm, hall⟩ := hfloat hid e List.mem_cons_self heid
          rw [if_pos hid, hm, Exec.ofOption_some, Exec.bind_done]
          by_cases heq : e.size = m.size
          · rw [if_pos heq]
            refine ⟨some m, rfl, .float (List.find?_eq_none.mpr fun e' he' hfits' ↦ ?_) hid hm
              List.mem_cons_self heid heq⟩
            obtain ⟨heid', hle'⟩ := fits_iff.mp hfits'
            have := hall e' he' heid'
            omega
          · rw [if_neg heq]
            refine ⟨r, hr, hends.cons hfits fun _ _ i' m' hm' ↦ ?_⟩
            rw [hm] at hm'
            obtain ⟨-, rfl⟩ := Prod.mk.inj (Option.some.inj hm')
            exact heq
        · rw [if_neg hid]
          exact ⟨r, hr, hends.cons hfits fun h ↦ absurd h hid⟩
    · rw [if_neg heid]
      refine ⟨r, hr, hends.cons (Bool.eq_false_of_not_eq_true fun h ↦ heid (fits_iff.mp h).1)
        fun _ h ↦ absurd h heid⟩

theorem lookupEsTypeFrom_zero (refs : TypeRefs) (id : ℤ) (l : List EsTypeEntry) :
    lookupEsTypeFrom refs id 0 l = .done (l.find? fun e ↦ e.row.dataType == id) := by
  induction l with
  | nil => rfl
  | cons e l ih =>
    rw [lookupEsTypeFrom]
    by_cases heid : e.row.dataType = id
    · have hbeq : (e.row.dataType == id) = true := beq_iff_eq.mpr heid
      rw [if_pos heid, if_pos rfl, List.find?_cons, hbeq]
    · have hbeq : (e.row.dataType == id) = false := beq_eq_false_iff_ne.mpr heid
      rw [if_neg heid, ih, List.find?_cons, hbeq]

/-! ## The lookup -/

theorem isDouble_iff : e.isDouble = true ↔ e.row.dataType = sqlDouble := beq_iff_eq

/-- The largest floating type of a table that has one. -/
theorem Ordered.exists_maxFloatType (x : Ordered) (he : e ∈ x.types) (hdouble : e.isDouble = true) :
    ∃ i m, (setEsTypes x.types).maxFloatType = some (i, m) ∧ m ∈ x.types ∧ m.isDouble = true ∧
      ∀ e' ∈ x.types, e'.isDouble = true → e'.size ≤ m.size := by
  obtain ⟨hlargest, -⟩ := setEsTypes_refs x.types
  obtain ⟨e₁, he₁, hdouble₁, hpos⟩ := x.floats e he hdouble
  cases href : (setEsTypes x.types).maxFloatType with
  | none => exact absurd (hlargest.empty href e₁ he₁ hdouble₁) (not_le.mpr hpos)
  | some ref =>
    obtain ⟨hmem, hm, -, hall⟩ := hlargest.found ref.1 ref.2 href
    exact ⟨ref.1, ref.2, rfl, List.mem_of_getElem? hmem, hm, hall⟩

/-- The best fit is found in an ordered table. -/
theorem Ordered.lookup_found (x : Ordered) {id : ℤ} (hid : id ≠ esVarcharSql ∧ id ≠ esWvarcharSql)
    {colSize : BitVec 64} (hsize : colSize.toNat < 2 ^ 31) :
    ∃ r, lookupEsType x.types id colSize = .done r ∧ Found x.types id colSize.toNat r := by
  obtain ⟨hlargest, -⟩ := setEsTypes_refs x.types
  rw [lookupEsType, if_neg (not_or.mpr hid)]
  by_cases hzero : colSize = 0
  · subst hzero
    exact ⟨_, lookupEsTypeFrom_zero _ _ _, fun _ ↦ rfl, fun h ↦ absurd rfl h, fun h ↦ absurd rfl h⟩
  · obtain ⟨r, hr, hends⟩ :=
      @lookupEsTypeFrom_ends id (setEsTypes x.types) colSize x.types hsize hzero fun hid e he heid ↦ by
        obtain ⟨i, m, hm, -, -, hall⟩ :=
          x.exists_maxFloatType he (isDouble_iff.mpr (heid.trans hid))
        exact ⟨i, m, hm, fun e' he' heid' ↦ hall e' he' (isDouble_iff.mpr (heid'.trans hid))⟩
    have hn : colSize.toNat ≠ 0 := fun h ↦ hzero (BitVec.eq_of_toNat_eq h)
    refine ⟨r, hr, fun h ↦ absurd h hn, fun _ ↦ ?_, fun _ ↦ ?_⟩
    · rintro e rfl
      cases hends with
      | fit h => exact .inl (bestFit_of_find? x.ordered h)
      | @float i e' _ h hid hm he heid hsize =>
        obtain ⟨hmem, hdouble, -, hall⟩ := hlargest.found i e hm
        exact .inr ⟨hid, List.mem_of_getElem? hmem, hdouble, hall,
          hsize ▸ find?_fits_eq_none h he heid⟩
    · cases hends with
      | @fit e h =>
        have hbest := bestFit_of_find? x.ordered h
        obtain ⟨heid, hle⟩ := fits_iff.mp hbest.fits
        exact iff_of_false (fun h ↦ by cases h) fun h ↦ absurd (h e hbest.mem heid).2 (not_lt.mpr hle)
      | @float i e m h hid hm he heid hsize =>
        exact iff_of_false (fun h ↦ by cases h) fun h ↦ (h e he heid).1 hid
      | nothing h hno =>
        refine iff_of_true rfl fun e he heid ↦ ⟨fun hid ↦ ?_, find?_fits_eq_none h he heid⟩
        obtain ⟨i, m, hm, hmem, hdouble, -⟩ :=
          x.exists_maxFloatType he (isDouble_iff.mpr (heid.trans hid))
        exact hno hid i m hm m hmem ((isDouble_iff.mp hdouble).trans hid.symm) rfl

/-- The loop ends for any size. -/
theorem Ordered.lookup_done (x : Ordered) (id : ℤ) (colSize : BitVec 64) :
    ∃ r, lookupEsType x.types id colSize = .done r := by
  rw [lookupEsType]
  by_cases hstring : id = esVarcharSql ∨ id = esWvarcharSql
  · rw [if_pos hstring]
    exact ⟨_, rfl⟩
  · rw [if_neg hstring]
    have hloop (l : List EsTypeEntry) (hl : ∀ e ∈ l, e ∈ x.types) :
        ∃ r, lookupEsTypeFrom (setEsTypes x.types) id colSize l = .done r := by
      induction l with
      | nil => exact ⟨none, rfl⟩
      | cons e l ih =>
        obtain ⟨r, hr⟩ := ih fun e' he' ↦ hl e' (List.mem_cons_of_mem _ he')
        rw [lookupEsTypeFrom, hr]
        by_cases heid : e.row.dataType = id
        · rw [if_pos heid]
          by_cases hid : id = sqlDouble
          · obtain ⟨i, m, hm, -⟩ := x.exists_maxFloatType (hl e List.mem_cons_self)
              (isDouble_iff.mpr (heid.trans hid))
            rw [if_pos hid, hm, Exec.ofOption_some, Exec.bind_done]
            split_ifs
            · exact ⟨_, rfl⟩
            · exact ⟨_, rfl⟩
            · exact ⟨_, rfl⟩
            · exact ⟨_, rfl⟩
          · rw [if_neg hid]
            split_ifs
            · exact ⟨_, rfl⟩
            · exact ⟨_, rfl⟩
            · exact ⟨_, rfl⟩
        · rw [if_neg heid]
          exact ⟨r, rfl⟩
    exact hloop x.types fun _ he ↦ he

/-! ## The type of a parameter -/

/-- The type that a parameter is bound to: that of its id, the largest of those that share one, or, for
a decimal without a type of its own, the best fit of its precision.  The precision of other parameters
is not looked at. -/
structure Matches (types : List EsTypeEntry) (irec : Rec) (r : Option EsTypeEntry) : Prop where
  own : irec.conciseType ≠ sqlDouble → irec.conciseType ≠ esVarcharSql →
    irec.conciseType ≠ esWvarcharSql →
    ∀ e, (types.find? fun e ↦ e.row.dataType == irec.conciseType) = some e → r = some e
  float : irec.conciseType = sqlDouble → ∀ e ∈ types, e.isDouble = true →
    ∃ m, r = some m ∧ m ∈ types ∧ m.isDouble = true ∧ e.size ≤ m.size
  string : irec.conciseType = esVarcharSql ∨ irec.conciseType = esWvarcharSql →
    ∀ e ∈ types, e.row.dataType = irec.conciseType → 0 < e.size →
      ∃ m, r = some m ∧ m ∈ types ∧ m.isVarchar = true ∧ e.size ≤ m.size
  decimal : (∀ e ∈ types, e.row.dataType ≠ irec.conciseType) → irec.metaType = .exactNumeric →
    0 ≤ irec.precision → irec.precision < 2 ^ 31 → Found types sqlDouble irec.precision.toNat r ∧
      ∀ e, r = some e → 0 < irec.precision →
        (e.size < irec.precision ↔ ∀ e' ∈ types, e'.isDouble = true → e'.size < irec.precision)
  other : ((∃ e ∈ types, e.row.dataType = irec.conciseType) ∨ irec.metaType ≠ .exactNumeric) →
    ∀ precision, matchEsType types { irec with precision } = .done r

/-- Where a best fit is below the size, every floating type is. -/
theorem Found.below_iff {n : ℕ} {r : Option EsTypeEntry} (h : Found types sqlDouble n r) (hn : n ≠ 0)
    (he : r = some e) :
    e.size < n ↔ ∀ e' ∈ types, e'.isDouble = true → e'.size < n := by
  obtain hbest | ⟨-, hlargest⟩ := h.fit hn e he
  · obtain ⟨heid, hle⟩ := fits_iff.mp hbest.fits
    exact iff_of_false (not_lt.mpr hle) fun hall ↦
      absurd (hall e hbest.mem (isDouble_iff.mpr heid)) (not_lt.mpr hle)
  · exact iff_of_true hlargest.exceeded fun e' he' hdouble ↦
      (hlargest.largest e' he' hdouble).trans_lt hlargest.exceeded

theorem toNat_ofInt {n : ℤ} (hlo : 0 ≤ n) (hhi : n < 2 ^ 31) :
    (BitVec.ofInt 64 n).toNat = n.toNat := by
  rw [BitVec.toNat_ofInt, Int.emod_eq_of_lt hlo (by norm_num; omega)]

/-- The first entry of an id that the table has. -/
theorem exists_find? {id : ℤ} (h : ∃ e ∈ types, e.row.dataType = id) :
    ∃ e, (types.find? fun e ↦ e.row.dataType == id) = some e := by
  obtain ⟨e, he, hid⟩ := h
  exact Option.isSome_iff_exists.mp
    (List.find?_isSome.mpr ⟨e, he, beq_iff_eq.mpr hid⟩)

/-- `match_es_type` on a type that the table has. -/
theorem matchEsType_listed {irec : Rec} {e : EsTypeEntry}
    (h : (types.find? fun e ↦ e.row.dataType == irec.conciseType) = some e) :
    matchEsType types irec =
      if irec.conciseType = sqlDouble then .done ((setEsTypes types).maxFloatType.map Prod.snd)
      else if irec.conciseType = esWvarcharSql ∨ irec.conciseType = esVarcharSql then
        .done ((setEsTypes types).maxVarcharType.map Prod.snd)
      else .done (some e) := by
  unfold matchEsType
  rw [h]

theorem Ordered.match_matches (x : Ordered) (irec : Rec) :
    ∃ r, matchEsType x.types irec = .done r ∧ Matches x.types irec r := by
  obtain ⟨-, hvarchar, -⟩ := setEsTypes_refs x.types
  have hstrings : esVarcharSql ≠ sqlDouble ∧ esWvarcharSql ≠ sqlDouble := by decide
  by_cases hlisted : ∃ e ∈ x.types, e.row.dataType = irec.conciseType
  · obtain ⟨e, hfind⟩ := exists_find? hlisted
    have hcall := matchEsType_listed hfind
    have hother (r : Option EsTypeEntry) (hr : matchEsType x.types irec = .done r) (precision : ℤ) :
        matchEsType x.types { irec with precision } = .done r :=
      (@matchEsType_listed x.types { irec with precision } e hfind).trans (hcall.symm.trans hr)
    have hunlisted (hnone : ∀ e ∈ x.types, e.row.dataType ≠ irec.conciseType) : False := by
      obtain ⟨e, he, hid⟩ := hlisted
      exact hnone e he hid
    by_cases hdouble : irec.conciseType = sqlDouble
    · rw [if_pos hdouble] at hcall
      refine ⟨_, hcall, fun h ↦ absurd hdouble h, fun _ e he hfloat ↦ ?_, fun h ↦ ?_,
        fun h ↦ (hunlisted h).elim, fun _ ↦ hother _ hcall⟩
      · obtain ⟨i, m, hm, hmem, hmdouble, hall⟩ := x.exists_maxFloatType he hfloat
        exact ⟨m, by rw [hm]; rfl, hmem, hmdouble, hall e he hfloat⟩
      · exact (h.elim (fun h ↦ hstrings.1 (h.symm.trans hdouble))
          fun h ↦ hstrings.2 (h.symm.trans hdouble)).elim
    · rw [if_neg hdouble] at hcall
      by_cases hstring : irec.conciseType = esWvarcharSql ∨ irec.conciseType = esVarcharSql
      · rw [if_pos hstring] at hcall
        refine ⟨_, hcall, fun _ hv hw ↦ (hstring.elim hw hv).elim, fun h ↦ absurd h hdouble,
          fun _ e he hid hpos ↦ ?_, fun h ↦ (hunlisted h).elim, fun _ ↦ hother _ hcall⟩
        have hev : e.isVarchar = true := by
          rw [EsTypeEntry.isVarchar, Bool.or_eq_true, beq_iff_eq, beq_iff_eq, hid]
          exact hstring.symm
        cases href : (setEsTypes x.types).maxVarcharType with
        | none => exact absurd (hvarchar.empty href e he hev) (not_le.mpr hpos)
        | some ref =>
          obtain ⟨hmem, hm, -, hall⟩ := hvarchar.found ref.1 ref.2 href
          exact ⟨ref.2, rfl, List.mem_of_getElem? hmem, hm, hall e he hev⟩
      · rw [if_neg hstring] at hcall
        refine ⟨_, hcall, fun _ _ _ e' hfind' ↦ ?_, fun h ↦ absurd h hdouble,
          fun h ↦ absurd h.symm hstring, fun h ↦ (hunlisted h).elim, fun _ ↦ hother _ hcall⟩
        exact hfind.symm.trans hfind'
  · have hnone : ∀ e ∈ x.types, e.row.dataType ≠ irec.conciseType :=
      fun e he hid ↦ hlisted ⟨e, he, hid⟩
    have hfind : (x.types.find? fun e ↦ e.row.dataType == irec.conciseType) = none :=
      List.find?_eq_none.mpr fun e he hid ↦ hnone e he (beq_iff_eq.mp hid)
    have hown : ∀ e, (x.types.find? fun e ↦ e.row.dataType == irec.conciseType) ≠ some e :=
      fun e h ↦ by rw [hfind] at h; cases h
    have hmatches {r : Option EsTypeEntry}
        (hdecimal : irec.metaType = .exactNumeric → 0 ≤ irec.precision → irec.precision < 2 ^ 31 →
          Found x.types sqlDouble irec.precision.toNat r)
        (hother : irec.metaType ≠ .exactNumeric →
          ∀ precision, matchEsType x.types { irec with precision } = .done r) :
        Matches x.types irec r := by
      refine ⟨fun _ _ _ e h ↦ absurd h (hown e), fun hid e he hdouble ↦ ?_, fun _ e he hid ↦ ?_,
        fun _ hmeta hlo hhi ↦ ?_, fun h ↦ hother (h.resolve_left hlisted)⟩
      · exact absurd ((isDouble_iff.mp hdouble).trans hid.symm) (hnone e he)
      · exact absurd hid (hnone e he)
      · have hfound := hdecimal hmeta hlo hhi
        refine ⟨hfound, fun e he hpos ↦ ?_⟩
        have hbelow := hfound.below_iff (by omega) he
        rw [Int.toNat_of_nonneg hlo] at hbelow
        exact hbelow
    by_cases hmeta : irec.metaType = .exactNumeric
    · have hcall : matchEsType x.types irec =
          lookupEsType x.types sqlDouble (.ofInt 64 irec.precision) := by
        unfold matchEsType
        rw [hfind, hmeta]
      obtain ⟨r, hr⟩ := x.lookup_done sqlDouble (.ofInt 64 irec.precision)
      refine ⟨r, hcall.trans hr, hmatches (fun _ hlo hhi ↦ ?_) fun h ↦ absurd hmeta h⟩
      have hnat := toNat_ofInt hlo hhi
      obtain ⟨r', hr', hfound⟩ := @Ordered.lookup_found x sqlDouble ⟨hstrings.1.symm, hstrings.2.symm⟩
        (.ofInt 64 irec.precision) (by rw [hnat]; omega)
      obtain rfl := Exec.done.inj (hr.symm.trans hr')
      rw [hnat] at hfound
      exact hfound
    · obtain ⟨r, hr⟩ : ∃ r, ∀ precision, matchEsType x.types { irec with precision } = .done r := by
        unfold matchEsType
        dsimp only
        rw [hfind]
        cases hm : irec.metaType with
        | exactNumeric => exact absurd hm hmeta
        | string => exact ⟨_, fun _ ↦ rfl⟩
        | uid => exact ⟨_, fun _ ↦ rfl⟩
        | bin =>
          obtain ⟨r, hr⟩ := x.lookup_done (-2) 0
          exact ⟨r, fun _ ↦ hr⟩
        | dateTime =>
          obtain ⟨r, hr⟩ := x.lookup_done 93 0
          exact ⟨r, fun _ ↦ hr⟩
        | bit =>
          obtain ⟨r, hr⟩ := x.lookup_done (-7) 0
          exact ⟨r, fun _ ↦ hr⟩
        | unknown => exact ⟨_, fun _ ↦ rfl⟩
        | floatNumeric => exact ⟨_, fun _ ↦ rfl⟩
        | intervalWsec => exact ⟨_, fun _ ↦ rfl⟩
        | intervalWosec => exact ⟨_, fun _ ↦ rfl⟩
        | max => exact ⟨_, fun _ ↦ rfl⟩
      exact ⟨r, hr irec.precision, hmatches (fun h ↦ absurd h hmeta) fun _ ↦ hr⟩

/-! ## The types of a statement's connection -/

/-- An entry as statements see it. -/
def esTypeOf (e : EsTypeEntry) : EsType where
  typeName := e.row.typeName.text
  dataType := e.row.dataType
  columnSize := e.row.columnSize
  nullable := e.row.nullable
  maximumScale := e.row.maximumScale
  sqlDataType := e.row.sqlDataType
  sqlDatetimeSub := e.row.sqlDatetimeSub
  metaType := e.metaType
  displaySize := e.displaySize

/-- A connection with these types, of which some are floating ones and some are strings. -/
structure Loaded (types : List EsTypeEntry) (t : DbcTypeTable) : Prop where
  entries : t.esTypes = types.map esTypeOf
  float : ∃ i m, (setEsTypes types).maxFloatType = some (i, m) ∧ t.maxFloatType = esTypeOf m
  varchar : ∃ i m, (setEsTypes types).maxVarcharType = some (i, m) ∧ t.maxVarcharType = esTypeOf m

variable {t : DbcTypeTable}

theorem lookupEsType_loaded (h : Loaded types t) (id : ℤ) (colSize : BitVec 64) :
    ∃ r, lookupEsType types id colSize = .done r ∧
      r.map esTypeOf = EsOdbc.lookupEsType t id colSize := by
  obtain ⟨i, m, hm, hfloat⟩ := h.float
  obtain ⟨j, v, hv, hvarchar⟩ := h.varchar
  rw [lookupEsType, EsOdbc.lookupEsType, h.entries, hv, hvarchar]
  by_cases hstring : id = esVarcharSql ∨ id = esWvarcharSql
  · rw [if_pos hstring, if_pos hstring]
    exact ⟨some v, rfl, rfl⟩
  · rw [if_neg hstring, if_neg hstring]
    generalize setEsTypes types = refs at hm
    generalize types = l
    induction l with
    | nil => exact ⟨none, rfl, rfl⟩
    | cons e l ih =>
      rw [lookupEsTypeFrom, List.map_cons, EsOdbc.lookupEsTypeFrom, hfloat]
      by_cases heid : e.row.dataType = id
      · rw [if_pos heid, if_pos (show (esTypeOf e).dataType = id from heid)]
        by_cases hzero : colSize = 0
        · rw [if_pos hzero, if_pos hzero]
          exact ⟨some e, rfl, rfl⟩
        · rw [if_neg hzero, if_neg hzero]
          by_cases hle : (colSize.setWidth 32).toInt ≤ e.size
          · rw [if_pos hle, if_pos (show _ ≤ (esTypeOf e).columnSize from hle)]
            exact ⟨some e, rfl, rfl⟩
          · rw [if_neg hle, if_neg (show ¬_ ≤ (esTypeOf e).columnSize from hle)]
            by_cases hid : id = sqlDouble
            · rw [if_pos hid, hm, Exec.ofOption_some, Exec.bind_done]
              by_cases heq : e.size = m.size
              · rw [if_pos heq, if_pos ⟨hid, heq⟩]
                exact ⟨some m, rfl, rfl⟩
              · rw [if_neg heq, if_neg (show ¬(_ ∧ (esTypeOf e).columnSize = (esTypeOf m).columnSize) from
                  fun h ↦ heq h.2)]
                exact ih
            · rw [if_neg hid, if_neg fun h ↦ hid h.1]
              exact ih
      · rw [if_neg heid, if_neg (show ¬(esTypeOf e).dataType = id from heid)]
        exact ih

/-- The type that a statement binds a parameter to is the one that is found here. -/
theorem matchEsType_loaded (h : Loaded types t) (irec : Rec) :
    ∃ r, matchEsType types irec = .done r ∧ r.map esTypeOf = EsOdbc.matchEsType t irec := by
  have hfind : (t.esTypes.find? fun e ↦ e.dataType == irec.conciseType) =
      (types.find? fun e ↦ e.row.dataType == irec.conciseType).map esTypeOf := by
    rw [h.entries, List.find?_map]
    rfl
  obtain ⟨i, m, hm, hfloat⟩ := h.float
  obtain ⟨j, v, hv, hvarchar⟩ := h.varchar
  unfold matchEsType EsOdbc.matchEsType
  rw [hfind, hm, hv, hfloat, hvarchar]
  cases types.find? fun e ↦ e.row.dataType == irec.conciseType with
  | some e =>
    dsimp only [Option.map_some]
    by_cases hdouble : irec.conciseType = sqlDouble
    · rw [if_pos hdouble, if_pos hdouble]
      exact ⟨some m, rfl, rfl⟩
    · rw [if_neg hdouble, if_neg hdouble]
      by_cases hstring : irec.conciseType = esWvarcharSql ∨ irec.conciseType = esVarcharSql
      · rw [if_pos hstring, if_pos hstring]
        exact ⟨some v, rfl, rfl⟩
      · rw [if_neg hstring, if_neg hstring]
        exact ⟨some e, rfl, rfl⟩
  | none =>
    cases irec.metaType with
    | exactNumeric => exact lookupEsType_loaded h _ _
    | string => exact lookupEsType_loaded h _ _
    | bin => exact lookupEsType_loaded h _ _
    | dateTime => exact lookupEsType_loaded h _ _
    | bit => exact lookupEsType_loaded h _ _
    | uid => exact lookupEsType_loaded h _ _
    | unknown => exact ⟨none, rfl, rfl⟩
    | floatNumeric => exact ⟨none, rfl, rfl⟩
    | intervalWsec => exact ⟨none, rfl, rfl⟩
    | intervalWosec => exact ⟨none, rfl, rfl⟩
    | max => exact ⟨none, rfl, rfl⟩

/-! ## Every ordered table -/

/-- The lookup finds what is to be found for every id of no string and every size below the bound. -/
def LooksUp (bound : ℕ) (x : Ordered) : Prop :=
  ∀ (id : ℤ) (colSize : BitVec 64), id ≠ esVarcharSql ∧ id ≠ esWvarcharSql → colSize.toNat < bound →
    ∃ r, lookupEsType x.types id colSize = .done r ∧ Found x.types id colSize.toNat r

/-- No parameter is bound to a type below its precision. -/
def NeverBelow (x : Ordered) : Prop :=
  ∀ irec e, matchEsType x.types irec = .done (some e) → irec.precision ≤ e.size

theorem types_lookedUp (x : Ordered) :
    LooksUp (2 ^ 31) x ∧ ∀ irec, ∃ r, matchEsType x.types irec = .done r ∧ Matches x.types irec r :=
  ⟨fun _ _ hid hsize ↦ x.lookup_found hid hsize, x.match_matches⟩

/-- A row by its type id and its column size. -/
def rowOf (dataType columnSize : ℤ) : TypeRow TypeString ℤ ℤ where
  typeName := ⟨none, []⟩
  dataType := dataType
  columnSize := columnSize
  literalPrefix := ⟨none, []⟩
  literalSuffix := ⟨none, []⟩
  createParams := ⟨none, []⟩
  nullable := 1
  caseSensitive := 0
  searchable := 3
  unsignedAttribute := 0
  fixedPrecScale := 0
  autoUniqueValue := 0
  localTypeName := ⟨none, []⟩
  minimumScale := 0
  maximumScale := 0
  sqlDataType := dataType
  sqlDatetimeSub := 0
  numPrecRadix := 10
  intervalPrecision := 0

def entryOf (dataType columnSize : ℤ) : EsTypeEntry := ⟨rowOf dataType columnSize, 0, .unknown, 0, 0⟩

/-- An integer of ten digits, and a floating type of fifteen. -/
def numbers : Ordered where
  types := [entryOf 4 10, entryOf 8 15]
  ordered := by decide
  floats _ _ _ :=
    ⟨entryOf 8 15, List.mem_cons_of_mem _ List.mem_cons_self, rfl, Int.lt_of_toNat_lt (by decide)⟩

/-- A size of 2^31 is narrowed to a negative one, which the integer fits; a decimal of the default
precision 19 is bound to the floating type. -/
theorem not_lookedUp_narrowed : (¬∀ x, LooksUp (2 ^ 64) x) ∧ ¬∀ x, NeverBelow x := by
  constructor
  · intro h
    obtain ⟨r, hr, hfound⟩ := h numbers 4 (2 ^ 31) (by decide) (by decide)
    have hfit : lookupEsType numbers.types 4 (2 ^ 31) = .done (some (entryOf 4 10)) := rfl
    obtain rfl := Exec.done.inj (hfit.symm.trans hr)
    obtain hbest | ⟨hid, -⟩ := hfound.fit (by decide) _ rfl
    · exact absurd (fits_iff.mp hbest.fits).2 (by decide)
    · cases hid
  · intro h
    have hle := h numbers
      { Rec.init .ipd with metaType := .exactNumeric, conciseType := 3, precision := 19 }
      (entryOf 8 15) rfl
    exact absurd hle (by decide)

end EsTypes

end EsOdbc
