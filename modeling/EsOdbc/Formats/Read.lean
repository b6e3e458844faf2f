import EsOdbc.Formats.Answer

/-!
# Reading encodings

What the driver's lookups make of the encodings of an answer: the same names and types
(`LogicalColumn.Json.read`, `LogicalColumn.Cbor.read`), the same rows (`viewCbor_row`), the
same members (`LogicalAnswer.Json.read`, `LogicalAnswer.Cbor.read`).
-/

namespace EsOdbc

open Cbor (Item)

/-- The keys of answers. -/
def answerKeys : List String :=
  [packParamColumns, packParamRows, packParamCursor, packParamColName, packParamColType]

/-! ## JSON -/

/-- What is found once is found in any order. -/
theorem find?_perm {α : Type} {p : α → Bool} {l l' : List α} (h : l.Perm l')
    (hone : (l'.filter p).length ≤ 1) : l.find? p = l'.find? p := by
  have hf := h.filter p
  rw [← List.head?_filter, ← List.head?_filter]
  match hl : l'.filter p, hone with
  | [], _ => rw [hl] at hf; rw [hf.eq_nil]
  | [x], _ => rw [hl] at hf; rw [List.perm_singleton.mp hf]

theorem keyIs_answerKeys : ∀ a ∈ answerKeys, ∀ b ∈ answerKeys,
    UJValue.keyIs (wstr a) (wstr b) = (a == b) := by
  decide +kernel

/-- Looking a key up in an object that has it once at most. -/
theorem unpack_isObject {members : List (String × UJValue)} {v : UJValue}
    (h : IsObject members v) (hkeys : ∀ m ∈ members, m.1 ∈ answerKeys) {key : String}
    (hkey : key ∈ answerKeys) {type : UJValue → Bool}
    (hone : (members.filter fun m ↦ m.1 == key && type m.2).length ≤ 1) :
    v.unpack (wstr key) type =
      (members.find? fun m ↦ m.1 == key && type m.2).map Prod.snd := by
  obtain ⟨ms, rfl, hperm⟩ := h
  have hp : ∀ m ∈ members, ((fun m : WStr × UJValue ↦ UJValue.keyIs m.1 (wstr key) && type m.2) ∘
      fun m : String × UJValue ↦ (wstr m.1, m.2)) m = (m.1 == key && type m.2) := by
    intro m hm
    simp only [Function.comp_apply, keyIs_answerKeys m.1 (hkeys m hm) key hkey]
  rw [UJValue.unpack, find?_perm hperm ?_, List.find?_map, Option.map_map]
  · rw [List.find?_congr hp]
    rfl
  · rw [List.filter_map, List.length_map, List.filter_congr hp]
    exact hone

/-- The name and type of a column. -/
def LogicalColumn.named (c : LogicalColumn) : WStr × WStr := (Utf.utf16 c.name, Utf.utf16 c.type)

theorem LogicalColumn.Json.read {c : LogicalColumn} {v : UJValue} (h : c.Json v) :
    columnJson v = some c.named := by
  have hkeys : ∀ m ∈ [(packParamColName, UJValue.string (Utf.utf16 c.name)),
      (packParamColType, .string (Utf.utf16 c.type))], m.1 ∈ answerKeys := by
    simp [answerKeys]
  have hname : v.unpack (wstr packParamColName) UJValue.isString =
      some (.string (Utf.utf16 c.name)) :=
    unpack_isObject h hkeys (by simp [answerKeys])
      (by simp [packParamColName, packParamColType, UJValue.isString])
  have htype : v.unpack (wstr packParamColType) UJValue.isString =
      some (.string (Utf.utf16 c.type)) :=
    unpack_isObject h hkeys (by simp [answerKeys])
      (by simp [packParamColName, packParamColType, UJValue.isString])
  rw [columnJson, hname, htype]
  rfl

/-- What is found in the JSON encodings of an answer. -/
theorem LogicalAnswer.Json.read {a : LogicalAnswer} {v : UJValue} (h : a.Json v) :
    ∃ columns, Option.Rel (List.Forall₂ LogicalColumn.Json) a.columns columns ∧
      v.unpack (wstr packParamColumns) UJValue.isArray = columns.map .array ∧
      v.unpack (wstr packParamRows) UJValue.isArray = some (.array (a.rows.map rowJson)) ∧
      v.unpack (wstr packParamCursor) UJValue.isString =
        a.cursor.map fun c ↦ .string (Utf.utf16 c) := by
  obtain ⟨columns, hcols, hobj⟩ := h
  refine ⟨columns, hcols, ?_, ?_, ?_⟩
  all_goals
    rw [unpack_isObject hobj (by cases columns <;> cases a.cursor <;> simp [answerKeys])
      (by simp [answerKeys])]
    · cases columns <;> cases a.cursor <;>
        simp [packParamColumns, packParamRows, packParamCursor, UJValue.isArray, UJValue.isString]
    · cases columns <;> cases a.cursor <;>
        simp [packParamColumns, packParamRows, packParamCursor, UJValue.isArray, UJValue.isString]

/-! ## CBOR -/

theorem caseEq_answerKeys : ∀ a ∈ answerKeys, ∀ b ∈ answerKeys,
    caseEq (cstr a) (cstr b) = (a == b) := by
  decide +kernel

/-- A value is put in the place of its key. -/
def putMember (keys : List String) (objs : List (Option Item)) (m : String × Item) :
    List (Option Item) :=
  match keys.findIdx? (· == m.1) with
  | some i => objs.set i (some m.2)
  | none => objs

theorem findIdx?_answerKeys {keys : List String} (hkeys : ∀ k ∈ keys, k ∈ answerKeys)
    {key : String} (hkey : key ∈ answerKeys) :
    (keys.map cstr).findIdx? (caseEq · (cstr key)) = keys.findIdx? (· == key) := by
  induction keys with
  | nil => rfl
  | cons k keys ih =>
    rw [List.map_cons, List.findIdx?_cons, List.findIdx?_cons,
      caseEq_answerKeys k (hkeys k List.mem_cons_self) key hkey,
      ih fun k hk ↦ hkeys k (List.mem_cons_of_mem _ hk)]

/-- The loop of the lookup on a map all of whose keys are asked for. -/
theorem lookupLoop_entries {keys : List String} (hkeys : ∀ k ∈ keys, k ∈ answerKeys)
    {ps : List (String × Item)} {xs : List Item} (h : IsEntries false ps xs)
    (hps : ∀ p ∈ ps, p.1 ∈ keys ∧ p.2.depth ≤ cborParserMaxRecursions)
    (objs : List (Option Item)) {found : Nat} (hroom : found + ps.length ≤ keys.length) :
    lookupLoop (keys.map cstr) objs found none xs =
      some (.ok (ps.foldl (putMember keys) objs)) := by
  induction h generalizing objs found with
  | nil => rfl
  | @cons key k v ps xs hk _ ih =>
    cases hk with
    | chunked h _ => cases h
    | whole =>
      obtain ⟨⟨hmem, hdepth⟩, hps⟩ := List.forall_mem_cons.mp hps
      have hlt : ¬keys.length ≤ found := by
        rw [List.length_cons] at hroom
        omega
      have hfind : (keys.map cstr).findIdx? (caseEq · (cstr key)) = keys.findIdx? (· == key) :=
        findIdx?_answerKeys hkeys (hkeys key hmem)
      rw [lookupLoop, List.length_map, if_neg hlt]
      change lookupLoop (keys.map cstr) objs found (some (cstr key)) (v :: xs) = _
      rw [lookupLoop, if_pos hdepth, hfind, List.foldl_cons, putMember]
      cases hi : keys.findIdx? (· == key) with
      | none => exact absurd (List.findIdx?_eq_none_iff.mp hi key hmem) (by simp)
      | some i => exact ih hps _ (by rw [List.length_cons] at hroom; omega)

/-- Looking keys up in a map that has each at most once, and no others. -/
theorem lookup_isMap {keys : List String} (hkeys : ∀ k ∈ keys, k ∈ answerKeys)
    {members : List (String × Item)} {x : Item} (h : IsMap false members x)
    (hms : ∀ p ∈ members, p.1 ∈ keys ∧ p.2.depth ≤ cborParserMaxRecursions)
    (hroom : members.length ≤ keys.length) (hnodup : (members.map Prod.fst).Nodup) :
    ∃ indef xs, x = .map indef xs ∧ cborMapLookupKeys xs (keys.map cstr) =
      some (.ok (members.foldl (putMember keys) (keys.map fun _ ↦ none))) := by
  obtain ⟨indef, ps, xs, rfl, hperm, hentries⟩ := h
  refine ⟨indef, xs, rfl, ?_⟩
  have hps : ∀ p ∈ ps, p.1 ∈ keys ∧ p.2.depth ≤ cborParserMaxRecursions :=
    fun p hp ↦ hms p (hperm.mem_iff.mp hp)
  rw [cborMapLookupKeys, List.map_map]
  change lookupLoop (keys.map cstr) (keys.map fun _ ↦ none) 0 none xs = _
  rw [lookupLoop_entries hkeys hentries hps _ (by rw [hperm.length_eq]; omega)]
  -- values of different keys go to different places, in whatever order
  refine congrArg (some ∘ Except.ok) (hperm.foldl_eq' (fun p hp q hq objs ↦ ?_) _)
  by_cases hpq : p = q
  · rw [hpq]
  · have hne : p.1 ≠ q.1 := fun he ↦ hpq <|
      List.inj_on_of_nodup_map hnodup (hperm.mem_iff.mp hp) (hperm.mem_iff.mp hq) he
    unfold putMember
    cases hi : keys.findIdx? (· == p.1) with
    | none => rfl
    | some i =>
      cases hj : keys.findIdx? (· == q.1) with
      | none => rfl
      | some j =>
        refine List.set_comm _ _ fun hij ↦ hne ?_
        obtain ⟨hilt, hpi, -⟩ := List.findIdx?_eq_some_iff_getElem.mp hi
        obtain ⟨hjlt, hqj, -⟩ := List.findIdx?_eq_some_iff_getElem.mp hj
        subst hij
        exact (beq_iff_eq.mp hpi).symm.trans (beq_iff_eq.mp hqj)

theorem depth_isText {chunks : Bool} {b : CStr} {x : Item} (h : IsText chunks b x) :
    x.depth = 0 := by
  cases h <;> rfl

/-- A map nests one level more than its values. -/
theorem depth_isMap {chunks : Bool} {n : Nat} {members : List (String × Item)} {x : Item}
    (h : IsMap chunks members x) (hms : ∀ p ∈ members, p.2.depth ≤ n) : x.depth ≤ 1 + n := by
  obtain ⟨indef, ps, xs, rfl, hperm, hentries⟩ := h
  have hps : ∀ p ∈ ps, p.2.depth ≤ n := fun p hp ↦ hms p (hperm.mem_iff.mp hp)
  clear hperm hms
  rw [Item.depth]
  refine Nat.add_le_add_left (Item.depths_le ?_) 1
  induction hentries with
  | nil => exact fun _ h ↦ absurd h List.not_mem_nil
  | cons hk _ ih =>
    obtain ⟨hv, hps⟩ := List.forall_mem_cons.mp hps
    exact List.forall_mem_cons.mpr ⟨by rw [depth_isText hk]; exact Nat.zero_le n,
      List.forall_mem_cons.mpr ⟨hv, ih hps⟩⟩

/-- Items that nest at most `n` levels make an array of one level more. -/
theorem depth_isArray {n : Nat} {xs : List Item} {x : Item} (h : IsArray xs x)
    (hxs : ∀ y ∈ xs, y.depth ≤ n) : x.depth ≤ 1 + n := by
  obtain ⟨indef, rfl⟩ := h
  rw [Item.depth]
  exact Nat.add_le_add_left (Item.depths_le hxs) 1

theorem textBytes_isText {chunks : Bool} {b : CStr} {x : Item} (h : IsText chunks b x) :
    textBytes x = some b := by
  cases h with
  | whole => rfl
  | chunked _ h => exact congrArg some h

theorem columnText_isText {s : List Char} {x : Item} (h : IsText false (Utf.utf8 s) x)
    (hs : s ≠ []) : columnText x = some (Utf.utf16 s) := by
  cases h with
  | chunked h _ => cases h
  | whole =>
    have hne : (Utf.utf8 s).isEmpty = false :=
      List.isEmpty_eq_false_iff.mpr fun h ↦ hs (Utf.utf8_eq_nil.mp h)
    change u8mbToU16wc (Utf.utf8 s) = _
    rw [u8mbToU16wc, hne, Utf.utf8Decode_utf8]
    rfl

/-- A column with a name and a type. -/
def LogicalColumn.Named (c : LogicalColumn) : Prop := c.name ≠ [] ∧ c.type ≠ []

theorem LogicalColumn.Cbor.read {c : LogicalColumn} {x : Item} (h : c.Cbor false x)
    (hc : c.Named) : columnCbor x = .done (some c.named) := by
  obtain ⟨name, type, hname, htype, hmap⟩ := h
  have hkeys : ∀ k ∈ [packParamColName, packParamColType], k ∈ answerKeys := by
    simp [answerKeys]
  obtain ⟨indef, xs, rfl, hlookup⟩ := lookup_isMap hkeys hmap
    (by simp [depth_isText hname, depth_isText htype, cborParserMaxRecursions]) (by simp)
    (by simp [packParamColName, packParamColType])
  have hput : [(packParamColName, name), (packParamColType, type)].foldl
      (putMember [packParamColName, packParamColType])
      ([packParamColName, packParamColType].map fun _ ↦ none) = [some name, some type] := by
    simp [putMember, packParamColName, packParamColType, List.findIdx?_cons]
  rw [hput] at hlookup
  rw [List.map_cons, List.map_cons, List.map_nil] at hlookup
  have huntag : (Item.map indef xs).untag = .map indef xs := rfl
  rw [columnCbor, huntag]
  dsimp only
  rw [hlookup]
  dsimp only
  rw [columnText_isText hname hc.1, columnText_isText htype hc.2]
  rfl

theorem LogicalColumn.Cbor.depth {chunks : Bool} {c : LogicalColumn} {x : Item}
    (h : c.Cbor chunks x) : x.depth ≤ 1 := by
  obtain ⟨name, type, hname, htype, hmap⟩ := h
  exact depth_isMap (n := 0) hmap (by simp [depth_isText hname, depth_isText htype])

/-! ## Values -/

theorem bigEndian_append (a b : CStr) :
    bigEndian (a ++ b) = bigEndian a * 256 ^ b.length + bigEndian b := by
  have hfold : ∀ (b : CStr) (n : Nat),
      b.foldl (fun n x ↦ n * 256 + x.toNat) n = n * 256 ^ b.length + bigEndian b := by
    intro b
    induction b with
    | nil => intro n; simp [bigEndian]
    | cons x b ih =>
      intro n
      have hx : bigEndian (x :: b) = (0 * 256 + x.toNat) * 256 ^ b.length + bigEndian b := ih _
      rw [List.foldl_cons, ih, hx, List.length_cons]
      ring
  change (a ++ b).foldl _ 0 = _
  rw [List.foldl_append]
  exact hfold b _

/-- The bytes of a number that is zero. -/
theorem bigEndian_eq_zero {b : CStr} (h : bigEndian b = 0) : b.all (· == 0) = true := by
  induction b with
  | nil => rfl
  | cons x b ih =>
    have happ := bigEndian_append [x] b
    rw [List.singleton_append, h] at happ
    have hx : bigEndian [x] = x.toNat := by simp [bigEndian]
    obtain ⟨hzero, hb⟩ := Nat.add_eq_zero_iff.mp happ.symm
    have hx0 : x = 0 := by
      rcases Nat.mul_eq_zero.mp (hx ▸ hzero) with h0 | h0
      · exact UInt8.toNat_inj.mp h0
      · exact absurd h0 (Nat.pow_pos (by omega)).ne'
    rw [List.all_cons, hx0, ih hb]
    rfl

/-- A bignum in one piece that fits is read, however many zeros lead it. -/
theorem cborValueGetTaggedUint64_bytes {b : CStr} {n : UInt64} (h : bigEndian b = n.toNat) :
    cborValueGetTaggedUint64 2 (.bytes b) = .ok n := by
  have happ := bigEndian_append (b.take (b.length - 8)) (b.drop (b.length - 8))
  rw [List.take_append_drop, h, List.length_drop] at happ
  have hn := n.toNat_lt
  have hlead : bigEndian (b.take (b.length - 8)) = 0 := by
    by_cases hlen : b.length ≤ 8
    · rw [Nat.sub_eq_zero_of_le hlen]
      rfl
    · rw [show b.length - (b.length - 8) = 8 by omega] at happ
      by_contra hne
      have : 1 * 256 ^ 8 ≤ bigEndian (b.take (b.length - 8)) * 256 ^ 8 :=
        Nat.mul_le_mul_right _ (by omega)
      omega
  rw [hlead, Nat.zero_mul, Nat.zero_add] at happ
  rw [cborValueGetTaggedUint64, if_neg (by simp), if_pos (bigEndian_eq_zero hlead), ← happ,
    UInt64.ofNat_toNat]

/-- Both formats read a value alike. -/
theorem LogicalValue.Cbor.cell {v : LogicalValue} {x : Item} (h : v.Cbor false x) :
    cellCbor x = cellJson v.json ∧ x.depth = 0 := by
  cases h with
  | null => exact ⟨rfl, rfl⟩
  | bool b => exact ⟨rfl, rfl⟩
  | uint n h =>
    refine ⟨?_, rfl⟩
    rw [cellCbor, cborValueGetInt64Checked, if_pos h]
    rfl
  | nint n h =>
    refine ⟨?_, rfl⟩
    rw [cellCbor, cborValueGetInt64Checked, if_pos h]
    rfl
  | big n h hb hx =>
    cases hx with
    | chunked h _ => cases h
    | whole =>
      refine ⟨?_, rfl⟩
      rw [cellCbor, cborValueGetTaggedUint64_bytes hb]
      rfl
  | half h => exact ⟨rfl, rfl⟩
  | float f => exact ⟨rfl, rfl⟩
  | double d => exact ⟨rfl, rfl⟩
  | string s hx =>
    have hs : cborValueGetUtf16Wstr (Utf.utf8 s) = .ok (Utf.utf16 s) := by
      rw [cborValueGetUtf16Wstr]
      by_cases hs : s = []
      · rw [hs]
        rfl
      · have hne : (Utf.utf8 s).isEmpty = false :=
          List.isEmpty_eq_false_iff.mpr fun h ↦ hs (Utf.utf8_eq_nil.mp h)
        rw [hne, u8mbToU16wc, hne, Utf.utf8Decode_utf8]
        rfl
    refine ⟨?_, depth_isText hx⟩
    have hb := textBytes_isText hx
    cases hx with
    | whole =>
      rw [cellCbor, hb, Option.map_some, hs]
      rfl
    | chunked _ _ =>
      rw [cellCbor, hb, Option.map_some, hs]
      rfl

theorem row_cells {row : List LogicalValue} {xs : List Item}
    (h : List.Forall₂ (LogicalValue.Cbor false) row xs) :
    xs.map cellCbor = (row.map LogicalValue.json).map cellJson ∧ ∀ x ∈ xs, x.depth = 0 := by
  induction h with
  | nil => exact ⟨rfl, fun _ h ↦ absurd h List.not_mem_nil⟩
  | cons hv _ ih =>
    refine ⟨?_, List.forall_mem_cons.mpr ⟨hv.cell.2, ih.2⟩⟩
    rw [List.map_cons, hv.cell.1, ih.1]
    rfl

/-- Both formats see a row alike, and the iterator gets past it if it is not too long. -/
theorem viewCbor_row {row : List LogicalValue} {x : Item} {ncols : Nat} (hn : 0 < ncols)
    (h : RowCbor false row x) :
    viewCbor ncols x = viewJson ncols (rowJson row) ∧ x.depth ≤ 1 ∧
      (row.length ≤ ncols → ∀ rows, cborNext ncols (x :: rows) = rows) := by
  obtain ⟨indef, hxs⟩ := h
  obtain ⟨hcells, hdepth⟩ := row_cells hxs
  rename_i xs
  have hlen : xs.length = row.length := hxs.length_eq.symm
  have hskip : skippable xs = true :=
    List.all_eq_true.mpr fun x hx ↦ by rw [hdepth x hx]; rfl
  refine ⟨?_, depth_isArray ⟨indef, rfl⟩ fun x hx ↦ Nat.le_of_eq (hdepth x hx), fun hle rows ↦ ?_⟩
  · rw [viewCbor, rowJson, viewJson, hskip, hcells, hlen, List.length_map]
    by_cases hr : row.length = ncols
    · have hne : row.map LogicalValue.json ≠ [] := by
        rintro h
        rw [List.map_eq_nil_iff.mp h, List.length_nil] at hr
        omega
      rw [if_pos ⟨hr, rfl⟩, if_pos ⟨hne, hr⟩]
    · rw [if_neg fun h ↦ hr h.1, if_neg fun h ↦ hr h.2]
  · rw [cborNext, if_pos ⟨hlen ▸ hle, hskip⟩]

/-! ## Answers -/

/-- What is found in the CBOR encodings of an answer. -/
theorem LogicalAnswer.Cbor.read {a : LogicalAnswer} {x : Item} (h : a.Cbor false x) :
    ∃ indef entries columns rowItems cursor indefRows, x = .map indef entries ∧
      Option.Rel (fun cols x ↦ ∃ xs, List.Forall₂ (LogicalColumn.Cbor false) cols xs ∧ IsArray xs x)
        a.columns columns ∧
      List.Forall₂ (RowCbor false) a.rows rowItems ∧
      Option.Rel (fun c ↦ IsText true (Utf.utf8 c)) a.cursor cursor ∧
      cborMapLookupKeys entries [cstr packParamColumns, cstr packParamCursor, cstr packParamRows] =
        some (.ok [columns, cursor, some (.array indefRows rowItems)]) := by
  obtain ⟨columns, rows, rowItems, cursor, hcols, hrows, ⟨indefRows, rfl⟩, hcurs, hmap⟩ := h
  have hrowDepth : ∀ x ∈ rowItems, x.depth ≤ 1 := by
    intro x hx
    obtain ⟨row, -, hrow⟩ := forall₂_right hrows x hx
    exact (viewCbor_row Nat.one_pos hrow).2.1
  have hcolDepth : ∀ x, columns = some x → x.depth ≤ 2 := by
    rintro x rfl
    generalize a.columns = cols at hcols
    cases hcols with
    | some hcols =>
      obtain ⟨xs, hxs, hx⟩ := hcols
      refine depth_isArray (n := 1) hx fun y hy ↦ ?_
      obtain ⟨c, -, hc⟩ := forall₂_right hxs y hy
      exact hc.depth
  have hcursDepth : ∀ x, cursor = some x → x.depth = 0 := by
    rintro x rfl
    generalize a.cursor = c at hcurs
    cases hcurs with
    | some hcurs => exact depth_isText hcurs
  have hrowsDepth : (Item.array indefRows rowItems).depth ≤ 2 := depth_isArray ⟨_, rfl⟩ hrowDepth
  have hkeys : ∀ k ∈ [packParamColumns, packParamCursor, packParamRows], k ∈ answerKeys := by
    simp [answerKeys]
  obtain ⟨indef, entries, rfl, hlookup⟩ := lookup_isMap hkeys hmap
    (by
      cases columns <;> cases cursor <;>
        simp_all [cborParserMaxRecursions] <;> omega)
    (by cases columns <;> cases cursor <;> simp)
    (by
      cases columns <;> cases cursor <;>
        simp [packParamColumns, packParamRows, packParamCursor])
  refine ⟨indef, entries, columns, rowItems, cursor, indefRows, rfl, hcols, hrows, hcurs, ?_⟩
  rw [List.map_cons, List.map_cons, List.map_cons, List.map_nil] at hlookup
  rw [hlookup]
  cases columns <;> cases cursor <;>
    simp [putMember, packParamColumns, packParamRows, packParamCursor, List.findIdx?_cons]

end EsOdbc
