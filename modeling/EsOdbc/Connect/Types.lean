import EsOdbc.Connect.Catalog
import EsOdbc.Desc.Record
import EsOdbc.Lib.Largest
import EsOdbc.Lib.Pieces

/-!
# The table of types

`load_es_types` of `connect.c`, with `copy_types_rows`, `set_es_types` and what they call: how the
answer to `SYS TYPES` becomes the types of a connection.  The program is the one for 64-bit
Windows, without its assertions.
-/

namespace EsOdbc

/-- The members that `estype_row_st` and `esodbc_estype_st` share, with strings of one kind, and
numbers of 16 and of 32 bits of another. -/
structure TypeRow (S I L : Type) where
  typeName : S
  dataType : I
  columnSize : L
  literalPrefix : S
  literalSuffix : S
  createParams : S
  nullable : I
  caseSensitive : I
  searchable : I
  unsignedAttribute : I
  fixedPrecScale : I
  autoUniqueValue : I
  localTypeName : S
  minimumScale : I
  maximumScale : I
  sqlDataType : I
  sqlDatetimeSub : I
  numPrecRadix : L
  intervalPrecision : I
deriving DecidableEq, Repr

namespace TypeRow

variable {S I L S' I' L' : Type}

def map (f : S → S') (g : I → I') (k : L → L') (r : TypeRow S I L) : TypeRow S' I' L' where
  typeName := f r.typeName
  dataType := g r.dataType
  columnSize := k r.columnSize
  literalPrefix := f r.literalPrefix
  literalSuffix := f r.literalSuffix
  createParams := f r.createParams
  nullable := g r.nullable
  caseSensitive := g r.caseSensitive
  searchable := g r.searchable
  unsignedAttribute := g r.unsignedAttribute
  fixedPrecScale := g r.fixedPrecScale
  autoUniqueValue := g r.autoUniqueValue
  localTypeName := f r.localTypeName
  minimumScale := g r.minimumScale
  maximumScale := g r.maximumScale
  sqlDataType := g r.sqlDataType
  sqlDatetimeSub := g r.sqlDatetimeSub
  numPrecRadix := k r.numPrecRadix
  intervalPrecision := g r.intervalPrecision

/-- The strings. -/
def strings (r : TypeRow S I L) : List S :=
  [r.typeName, r.literalPrefix, r.literalSuffix, r.createParams, r.localTypeName]

/-- The numbers of 16 bits. -/
def shorts (r : TypeRow S I L) : List I :=
  [r.dataType, r.nullable, r.caseSensitive, r.searchable, r.unsignedAttribute, r.fixedPrecScale,
    r.autoUniqueValue, r.minimumScale, r.maximumScale, r.sqlDataType, r.sqlDatetimeSub,
    r.intervalPrecision]

/-- The numbers of 32 bits. -/
def longs (r : TypeRow S I L) : List L := [r.columnSize, r.numPrecRadix]

end TypeRow

/-- A row of the answer; none is NULL. -/
abbrev TypeCells := TypeRow (Option WStr) (Option ℤ) (Option ℤ)

/-! ## The rows fetched -/

/-- `SQL_NULL_DATA`. -/
def sqlNullData : ℤ := -1

/-- A member of `estype_row_st`: what was stored in it, and its `_loi`. -/
structure TypeCol (α : Type) where
  data : α
  loi : ℤ

/-- `estype_row_st`. -/
abbrev EstypeRow := TypeRow (TypeCol WStr) (TypeCol ℤ) (TypeCol ℤ)

/-- The bytes that a string member has. -/
def typeStringSize : ℕ := 2 * shrtMax

/-- A string as it is fetched. -/
def fetchString (varcharLimit : ℕ) : Option WStr → TypeCol WStr
  | none => ⟨[], sqlNullData⟩
  | some s =>
    let out := transferWide (varcharLimited varcharLimit s) typeStringSize
    ⟨out.1, out.2⟩

/-- A number as it is fetched. -/
def fetchNumber (bytes : ℤ) : Option ℤ → TypeCol ℤ
  | none => ⟨0, sqlNullData⟩
  | some v => ⟨v, bytes⟩

/-- A row as it is fetched. -/
def TypeRow.fetch (varcharLimit : ℕ) (cells : TypeCells) : EstypeRow :=
  cells.map (fetchString varcharLimit) (fetchNumber 2) (fetchNumber 4)

/-- The strings of a row are not truncated, and its numbers are in the range of their types: its
status is `SQL_ROW_SUCCESS`. -/
def TypeRow.succeeds (varcharLimit : ℕ) (cells : TypeCells) : Bool :=
  (cells.strings.all fun s ↦
    s.all fun s ↦ decide (2 * ((varcharLimited varcharLimit s).length + 1) ≤ typeStringSize)) &&
  (cells.shorts.all fun v ↦ v.all fun v ↦ decide (-2 ^ 15 ≤ v ∧ v < 2 ^ 15)) &&
  (cells.longs.all fun v ↦ v.all fun v ↦ decide (-2 ^ 31 ≤ v ∧ v < 2 ^ 31))

/-! ## The entries -/

/-- A string of an entry: where it lies behind the entries, in bytes, or nowhere for the static
empty one. -/
structure TypeString where
  pos : Option ℕ
  text : WStr
deriving DecidableEq, Repr

/-- `esodbc_estype_st`, of which `type_name_c` is its position. -/
structure EsTypeEntry where
  row : TypeRow TypeString ℤ ℤ
  cConciseType : ℤ
  metaType : MetaType
  displaySize : ℤ
  typeNameC : ℕ
deriving DecidableEq, Repr

/-- The names that `elastic_name2types` and `elastic_intervals_name2types` know, with their C and
their SQL type; the lengths and letters that these look at first only narrow the search. -/
def elasticTypes : List (String × ℤ × ℤ) :=
  [("IP", 1, 12), ("BYTE", -6, -6), ("LONG", -25, -5), ("TEXT", -8, -9), ("TIME", 92, 92),
    ("DATE", 91, 91), ("NULL", -26, 0), ("SHORT", -15, 5), ("FLOAT", 7, 7), ("SHAPE", 1, 12),
    ("DOUBLE", 8, 8), ("BINARY", -2, -2), ("OBJECT", -2, 2002), ("NESTED", -2, 2002),
    ("INTEGER", -16, 4), ("BOOLEAN", -7, -7), ("KEYWORD", -8, -9), ("VERSION", 1, 12),
    ("DATETIME", 93, 93), ("GEO_SHAPE", 1, 12), ("GEO_POINT", 1, 12), ("HALF_FLOAT", 8, 6),
    ("UNSUPPORTED", -2, 1111), ("SCALED_FLOAT", 8, 8), ("UNSIGNED_LONG", -27, -5),
    ("INTERVAL_DAY", 103, 103), ("INTERVAL_YEAR", 101, 101), ("INTERVAL_HOUR", 104, 104),
    ("INTERVAL_MONTH", 102, 102), ("INTERVAL_MINUTE", 105, 105), ("INTERVAL_SECOND", 106, 106),
    ("INTERVAL_DAY_TO_HOUR", 108, 108), ("INTERVAL_DAY_TO_MINUTE", 109, 109),
    ("INTERVAL_YEAR_TO_MONTH", 107, 107), ("INTERVAL_DAY_TO_SECOND", 110, 110),
    ("INTERVAL_HOUR_TO_MINUTE", 111, 111), ("INTERVAL_HOUR_TO_SECOND", 112, 112),
    ("INTERVAL_MINUTE_TO_SECOND", 113, 113)]

/-- `elastic_name2types`. -/
def elasticName2types (typeName : WStr) : Option (ℤ × ℤ) :=
  (elasticTypes.find? fun t ↦ eqCaseWstr typeName (wstr t.1)).map fun t ↦ t.2

/-- What a display size has besides the leading precision of an interval, in front of and behind
the point. -/
def intervalDisplay (dataType : ℤ) : Option ℤ :=
  if dataType = 106 then some (20 + 1 + esodbcDefSecPrecision)
  else if dataType = 107 then some (3 + 11)
  else if dataType = 108 then some (3 + 16)
  else if dataType = 109 then some (6 + 16)
  else if dataType = 110 then some (10 + 16 + esodbcDefSecPrecision)
  else if dataType = 111 then some (3 + 17)
  else if dataType = 112 then some (7 + 17 + esodbcDefSecPrecision)
  else if dataType = 113 then some (4 + 19 + esodbcDefSecPrecision)
  else maxLeadPrec dataType

/-- `set_display_size`: a type that it does not know keeps `0`. -/
def setDisplaySize (row : TypeRow TypeString ℤ ℤ) : ℤ :=
  if row.dataType ∈ [1, 12, -1, -8, -9, -10] then row.columnSize
  else if row.dataType = 7 then 14
  else if row.dataType = 6 ∨ row.dataType = 8 then 24
  else if row.dataType ∈ [-6, 5, 4] then
    if row.unsignedAttribute = 0 then row.columnSize + 1 else row.columnSize
  else if row.dataType = -5 then
    if row.unsignedAttribute ≠ 0 then row.columnSize + 1 else row.columnSize
  -- the product is an `int`
  else if row.dataType ∈ [-2, -3, -4] then (2 * row.columnSize).bmod (2 ^ 32)
  else if row.dataType ∈ [91, 92, 93] then 25 + 1 + esodbcDefSecPrecision
  else if row.dataType = -7 then 1
  else if row.dataType = 0 then 4
  else if row.dataType = 1111 ∨ row.dataType = 2002 then -4
  else (intervalDisplay row.dataType).getD 0

/-- The column size of a type, cut to the limit of the connection if it is one of text. -/
def limitedSize (varcharLimit : ℕ) (dataType columnSize : ℤ) : ℤ :=
  if (dataType = -9 ∨ dataType = 12) ∧ varcharLimit ≠ 0 ∧ (varcharLimit : ℤ) < columnSize % 2 ^ 32 then
    varcharLimit
  else columnSize

/-! ## `copy_types_rows` -/

/-- The strings behind the entries, and the position in them. -/
abbrev TypeArea := List UInt8 × ℕ

/-- `ES_TYPES_COPY_INT`. -/
def copyTypeInt (col : TypeCol ℤ) : ℤ := if col.loi = sqlNullData then 0 else col.data

/-- `ES_TYPES_COPY_WSTR`. -/
def copyTypeWstr (col : TypeCol WStr) (out : TypeArea) : Exec (TypeString × TypeArea) :=
  if col.loi = sqlNullData then .done (⟨none, []⟩, out)
  else
    let cnt := (col.loi / 2).toNat
    let units := col.data.take (cnt + 1)
    if units.length < cnt + 1 then .undefined
    else (put out (wideBytes units)).bind fun out' ↦ .done (⟨some out.2, units.take cnt⟩, out')

/-- `ascii_w2c`: the bytes that it stores, and whether it succeeds. -/
def asciiName (src : WStr) : CStr × Bool :=
  let head := src.takeWhile fun u ↦ u ≠ 0 ∧ u ≤ 127
  if src.isEmpty then ([], false)
  else if src[head.length]?.getD 0 = 0 then (head.map UInt16.toUInt8 ++ [0], true)
  else (head.map UInt16.toUInt8, false)

/-- The fixes of `copy_types_rows` on an entry, and the precision of seconds from there on. -/
def fixType (varcharLimit : ℕ) (secPrec : ℤ) (row : TypeRow TypeString ℤ ℤ) (types : ℤ × ℤ)
    (typeNameC : ℕ) : EsTypeEntry × ℤ :=
  let metaType := conciseToMeta types.1 .ard
  let row := { row with
    dataType := types.2
    sqlDataType := (conciseToTypeCode types.2).1
    sqlDatetimeSub := (conciseToTypeCode types.2).2
    columnSize := limitedSize varcharLimit types.2 row.columnSize }
  let displaySize := setDisplaySize row
  if row.dataType = 93 then (⟨row, types.1, metaType, displaySize, typeNameC⟩, row.maximumScale)
  else if metaType = .intervalWsec then
    (⟨{ row with maximumScale := secPrec, minimumScale := secPrec }, types.1, metaType, displaySize,
      typeNameC⟩, secPrec)
  else (⟨row, types.1, metaType, displaySize, typeNameC⟩, secPrec)

/-- A turn of the loop of `copy_types_rows`: none where it fails. -/
def copyTypesRow (varcharLimit : ℕ) (secPrec : ℤ) (r : EstypeRow) (out : TypeArea) :
    Exec (Option ((EsTypeEntry × ℤ) × TypeArea)) :=
  (copyTypeWstr r.typeName out).bind fun (typeName, out) ↦
  (copyTypeWstr r.literalPrefix out).bind fun (literalPrefix, out) ↦
  (copyTypeWstr r.literalSuffix out).bind fun (literalSuffix, out) ↦
  (copyTypeWstr r.createParams out).bind fun (createParams, out) ↦
  (copyTypeWstr r.localTypeName out).bind fun (localTypeName, out) ↦
    let row := { r.map (fun _ ↦ typeName) copyTypeInt copyTypeInt with
      literalPrefix, literalSuffix, createParams, localTypeName }
    let name := asciiName typeName.text
    (Exec.ofOption (Buffer.store out.1 out.2 name.1)).bind fun area ↦
      if !name.2 then .done none
      else .done <| (elasticName2types typeName.text).map fun types ↦
        (fixType varcharLimit secPrec row types out.2,
          (area, out.2 + 2 * (typeName.text.length + 1)))

/-- `copy_types_rows`. -/
def copyTypesRows (varcharLimit : ℕ) :
    ℤ → List EstypeRow → TypeArea → Exec (Option (List EsTypeEntry × TypeArea))
  | _, [], out => .done (some ([], out))
  | secPrec, r :: rows, out =>
    (copyTypesRow varcharLimit secPrec r out).bind fun
    | none => .done none
    | some (e, out) =>
      (copyTypesRows varcharLimit e.2 rows out).bind fun rest ↦
        .done (rest.map fun t ↦ (e.1 :: t.1, t.2))

/-! ## `set_es_types` -/

/-- The references of a connection into its types. -/
structure TypeRefs where
  maxFloatType : Option (ℕ × EsTypeEntry)
  maxVarcharType : Option (ℕ × EsTypeEntry)
  ulong : Option (ℕ × EsTypeEntry)
  lgstName : Option (ℕ × EsTypeEntry)
deriving DecidableEq, Repr

namespace EsTypeEntry

def isDouble (e : EsTypeEntry) : Bool := e.row.dataType == 8

def isVarchar (e : EsTypeEntry) : Bool := e.row.dataType == 12 || e.row.dataType == -9

/-- Its C type is `ES_ULONG_TO_CSQL`. -/
def isUlong (e : EsTypeEntry) : Bool := e.cConciseType == -27

def size (e : EsTypeEntry) : ℤ := e.row.columnSize

def nameLength (e : EsTypeEntry) : ℤ := e.row.typeName.text.length

end EsTypeEntry

open EsTypeEntry in
/-- A turn of the loop of `set_es_types`. -/
def setEsType (refs : TypeRefs) (e : EsTypeEntry × ℕ) : TypeRefs where
  maxFloatType := Largest.larger isDouble size refs.maxFloatType e
  maxVarcharType := Largest.larger isVarchar size refs.maxVarcharType e
  ulong := Largest.later isUlong refs.ulong e
  lgstName := Largest.larger (fun _ ↦ true) nameLength refs.lgstName e

/-- `set_es_types`, on a connection without references to types. -/
def setEsTypes (types : List EsTypeEntry) : TypeRefs :=
  types.zipIdx.foldl setEsType ⟨none, none, none, none⟩

/-! ## `load_es_types` -/

/-- The types that a connection keeps: the strings of the block, the entries in front of them, and
the references. -/
structure TypeTable where
  area : List UInt8
  types : List EsTypeEntry
  refs : TypeRefs
deriving DecidableEq, Repr

/-- An answer to `SYS TYPES`, whose first page has the rows that are counted, the calls that fail,
and the limit of the connection. -/
structure TypesLoad where
  varcharLimit : ℕ
  colCnt : ℤ
  rows : List TypeCells
  laterRows : List TypeCells
  /-- Memory, the statement, its query or its attributes are not to be had. -/
  prepareFails : Bool
  fetchFails : Bool
  oom : Bool
  /-- The statement is not unbound or not freed. -/
  freeFails : Bool
deriving DecidableEq, Repr

/-- `ESODBC_MAX_NO_TYPES`. -/
def esodbcMaxNoTypes : ℕ := 64

/-- `ESODBC_TYPES_COLUMNS`. -/
def esodbcTypesColumns : ℤ := 19

/-- The room that a string takes, with its terminator. -/
def TypeCol.room (col : TypeCol WStr) : ℕ := if col.loi = sqlNullData then 0 else col.loi.toNat + 2

/-- The room that the strings of a row take. -/
def TypeRow.room (r : EstypeRow) : ℕ :=
  2 * r.typeName.room + r.literalPrefix.room + r.literalSuffix.room + r.createParams.room +
    r.localTypeName.room

namespace TypesLoad

variable (q : TypesLoad)

/-- The rows that are fetched, across pages. -/
def fetched : List TypeCells := (q.rows ++ q.laterRows).take esodbcMaxNoTypes

/-- `load_es_types`: what the connection has afterwards, none where it fails. -/
def load : Exec (Option TypeTable) :=
  if q.prepareFails || q.colCnt ≠ esodbcTypesColumns || q.rows.length ≤ 0 ||
      esodbcMaxNoTypes < q.rows.length || q.fetchFails ||
      !(q.fetched.all (TypeRow.succeeds q.varcharLimit)) || q.oom then .done none
  else
    let rows := q.fetched.map (TypeRow.fetch q.varcharLimit)
    let strsLen := (rows.map TypeRow.room).sum
    (copyTypesRows q.varcharLimit (-1) rows (List.replicate strsLen 0, 0)).bind fun copied ↦
      .done <| if q.freeFails then none else copied.map fun t ↦ ⟨t.2.1, t.1, setEsTypes t.1⟩

end TypesLoad

end EsOdbc
