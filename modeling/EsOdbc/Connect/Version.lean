import Mathlib.Data.Prod.Lex
import EsOdbc.Blanks
import EsOdbc.Connect.Outcome
import EsOdbc.Lib.Numeral
import EsOdbc.Texts.Ascii

/-!
# The server's version

`version_to_id` and what `check_server_version` does with a version (`connect.c`).  Both decoders
hand over a text whose count an `int` has.
-/

namespace EsOdbc

open Decimal

/-! ## The source -/

/-- What `wcstol` makes of a text: the number, what follows, and whether `errno` is set. -/
structure LongRead where
  val : ℤ
  stop : WStr
  erange : Bool
deriving DecidableEq, Repr

/-- A number as a `long` of 32 bits. -/
def longInRange (val : ℤ) (stop : WStr) : LongRead :=
  if 2 ^ 31 - 1 < val then ⟨2 ^ 31 - 1, stop, true⟩
  else if val < -2 ^ 31 then ⟨-2 ^ 31, stop, true⟩
  else ⟨val, stop, false⟩

/-- `wcstol`, of base ten, of a text up to its terminator.  Where it has no number, nothing is
passed. -/
def wcstol (w : WStr) : LongRead :=
  let sign := takeSign (w.dropWhile (isSpace true))
  let digits := takeDigits sign.2
  if digits.1 = [] then ⟨0, w, false⟩
  else
    longInRange (if sign.1 = some true then -(ofDigits digits.1 : ℤ) else ofDigits digits.1) digits.2

/-- `VER_LEVEL_MULTI`. -/
def verLevelMulti : ℤ := 100

/-- A result in a `long`. -/
def longOf (n : ℤ) : Exec ℤ := if -2 ^ 31 ≤ n ∧ n < 2 ^ 31 then .done n else .undefined

/-- `version_to_id`, of a text up to its terminator. -/
def versionId (w : WStr) : Exec ℤ :=
  let major := wcstol w
  if major.erange ∨ verLevelMulti ≤ major.val ∨ major.val ≤ 0 then .done (-1)
  else if major.stop.head? ≠ some 0x2E then .done (-1)
  else (longOf (major.val * verLevelMulti)).bind fun id ↦
    let minor := wcstol major.stop.tail
    if minor.erange ∨ verLevelMulti ≤ minor.val ∨ minor.val < 0 then .done (-1)
    else if minor.stop.head? ≠ some 0x2E then .done (-1)
    else (longOf (id + minor.val)).bind fun id ↦ (longOf (id * verLevelMulti)).bind fun id ↦
      let revision := wcstol minor.stop.tail
      if revision.erange ∨ verLevelMulti ≤ revision.val ∨ revision.val < 0 then .done (-1)
      else (longOf (id + revision.val)).bind fun id ↦ longOf (id * verLevelMulti)

/-- `version_to_id`. -/
def versionToId (ver : WStr) : Exec ℤ :=
  if 0 ∈ ver then versionId (ver.takeWhile fun c ↦ decide (c ≠ 0)) else .undefined

/-- `ESODBC_MIN_ES_VER`. -/
def esodbcMinEsVer : WStr := wstr "7.7.0"

/-- A version as it stands in an answer. -/
inductive VersionText where
  | json (str : WStr) (fits : str.length < 2 ^ 31 - 1)
  | cbor (str : CStr) (fits : str.length < 2 ^ 31 - 1)

namespace VersionText

/-- The units of a version. -/
def units : VersionText → WStr
  | .json str _ => str
  | .cbor str _ => str.map UInt8.toUInt16

def isJson : VersionText → Bool
  | .json _ _ => true
  | .cbor _ _ => false

/-- The version is copied, or widened: nothing if that fails. -/
def copied (room : WStr) : VersionText → Exec (Option WStr)
  | .json str _ => (Exec.ofOption (Buffer.store room 0 str)).bind fun out ↦ .done (some out)
  | .cbor str _ => (asciiC2wInto str str.length room).bind fun r ↦
      .done (if r.1 < 0 then none else some r.2)

/-- `swprintf` of the message into `wbuff`: a version too long for that has another one. -/
def belowMessage (ver : WStr) : WStr :=
  let front := wstr "Elasticsearch's version ("
  let behind := wstr ") is below minimum required (7.7.0) version. Please use a driver " ++
    wstr "whose version matches that of your server."
  let message := front ++ (ver.takeWhile fun c ↦ decide (c ≠ 0)) ++ behind
  -- the format has `%.*s` for the version, and a terminator
  if message.length < (front ++ wstr "%.*s" ++ behind).length + 1 + 32 then message
  else wstr "Version mismatch between server and driver"

/-- `check_server_version` with a version: `room` is the memory for `srv_ver`. -/
def check (room : WStr) (t : VersionText) : Exec ServerVersion :=
  (t.copied room).bind fun srvVer ↦
    srvVer.elim (.done .invalid) fun srvVer ↦
      (Exec.ofOption (Buffer.store srvVer t.units.length [0])).bind fun srvVer ↦
        (versionToId (esodbcMinEsVer ++ [0])).bind fun minEsVer ↦
          (versionToId srvVer).bind fun esVer ↦
            .done <|
              if esVer ≤ 0 then .invalid
              else if esVer < minEsVer then .below (belowMessage (srvVer.take t.units.length))
              else .meets

end VersionText

/-! ## Versions -/

/-- Three numbers within their limits. -/
structure Version where
  major : ℕ
  minor : ℕ
  revision : ℕ
  major_pos : 0 < major
  major_lt : major < 100
  minor_lt : minor < 100
  revision_lt : revision < 100

namespace Version

/-- The order of versions is the lexicographic one of their numbers. -/
def key (v : Version) : ℕ ×ₗ ℕ ×ₗ ℕ := toLex (v.major, toLex (v.minor, v.revision))

/-- The version that is needed at least. -/
def least : Version := ⟨7, 7, 0, by decide, by decide, by decide, by decide⟩

/-- The numbers in one. -/
def packed (v : Version) : ℤ := ((v.major * 100 + v.minor) * 100 + v.revision) * 100

/-- A text starts with three decimal numbers that dots separate. -/
def Starts (v : Version) (w : WStr) : Prop :=
  ∃ ds es fs rest, ds ≠ [] ∧ es ≠ [] ∧ fs ≠ [] ∧
    w = ds.map unit ++ 0x2E :: (es.map unit ++ 0x2E :: (fs.map unit ++ rest)) ∧
    (∀ c ∈ rest.head?, ofUnit c = none) ∧
    v.major = ofDigits ds ∧ v.minor = ofDigits es ∧ v.revision = ofDigits fs

theorem packed_pos (v : Version) : 0 < v.packed := by
  have h := v.major_pos
  unfold packed
  omega

theorem packed_lt (v : Version) : v.packed < 2 ^ 31 := by
  have h₁ := v.major_lt
  have h₂ := v.minor_lt
  have h₃ := v.revision_lt
  unfold packed
  omega

/-- The packed numbers are in the order of the versions. -/
theorem packed_le_iff (v v' : Version) : v.packed ≤ v'.packed ↔ v.key ≤ v'.key := by
  have h₁ := v.minor_lt
  have h₂ := v.revision_lt
  have h₃ := v'.minor_lt
  have h₄ := v'.revision_lt
  rw [key, key, Prod.Lex.toLex_le_toLex, Prod.Lex.toLex_le_toLex]
  unfold packed
  dsimp only
  omega

end Version

/-! ## Fields -/

/-- A text that starts with a digit. -/
def StartsDigit (w : WStr) : Prop := ∃ c ∈ w.head?, ofUnit c ≠ none

theorem unit_not_space (d : Fin 10) : isSpace true (unit d) = false := by
  revert d
  decide

theorem takeDigits_head (w : WStr) : ∀ c ∈ (takeDigits w).2.head?, ofUnit c = none := by
  induction w with
  | nil => nofun
  | cons c w ih =>
    rw [takeDigits]
    cases hc : ofUnit c with
    | none =>
      intro c' hc'
      obtain rfl := Option.some.inj hc'
      exact hc
    | some d => exact ih

/-- A text that starts with a digit is digits and what follows them. -/
theorem StartsDigit.split {w : WStr} (h : StartsDigit w) : ∃ ds rest, ds ≠ [] ∧
    w = ds.map unit ++ rest ∧ ∀ c ∈ rest.head?, ofUnit c = none := by
  obtain ⟨c, hc, hdigit⟩ := h
  refine ⟨(takeDigits w).1, (takeDigits w).2, ?_, (takeDigits_append w).symm, takeDigits_head w⟩
  obtain ⟨w, rfl⟩ := List.head?_eq_some_iff.mp hc
  obtain ⟨d, hd⟩ := Option.ne_none_iff_exists'.mp hdigit
  rw [takeDigits, hd]
  exact List.cons_ne_nil _ _

theorem startsDigit_of_digits {ds : List (Fin 10)} (hne : ds ≠ []) (rest : WStr) :
    StartsDigit (ds.map unit ++ rest) := by
  obtain ⟨d, ds, rfl⟩ := List.exists_cons_of_ne_nil hne
  have hdigit : ∀ d : Fin 10, ofUnit (unit d) ≠ none := by decide
  exact ⟨unit d, rfl, hdigit d⟩

/-- Digits are read. -/
theorem wcstol_digits {ds : List (Fin 10)} {rest : WStr} (hne : ds ≠ [])
    (hrest : ∀ c ∈ rest.head?, ofUnit c = none) : wcstol (ds.map unit ++ rest) =
    longInRange (ofDigits ds) rest := by
  obtain ⟨d, ds, rfl⟩ := List.exists_cons_of_ne_nil hne
  obtain ⟨hminus, hplus⟩ := unit_ne_sign d
  have hspace : ((d :: ds).map unit ++ rest).dropWhile (isSpace true) = (d :: ds).map unit ++ rest :=
    List.dropWhile_cons_of_neg (by simp [unit_not_space])
  have hsign : takeSign ((d :: ds).map unit ++ rest) = (none, (d :: ds).map unit ++ rest) := by
    rw [List.map_cons, List.cons_append, takeSign, if_neg hminus, if_neg hplus]
  unfold wcstol
  rw [hspace, hsign]
  dsimp only
  rw [takeDigits_map _ hrest]
  dsimp only
  have hplain : ¬(none : Option Bool) = some true := fun h ↦ by cases h
  rw [if_neg hne, if_neg hplain]

/-- The three numbers that are read, one behind the other. -/
def fieldOne (w : WStr) : LongRead := wcstol w
def fieldTwo (w : WStr) : LongRead := wcstol (fieldOne w).stop.tail
def fieldThree (w : WStr) : LongRead := wcstol (fieldTwo w).stop.tail

/-- They are within their limits, and dots are between them. -/
structure FieldsFit (w : WStr) : Prop where
  major : 0 < (fieldOne w).val ∧ (fieldOne w).val < 100
  dot : (fieldOne w).stop.head? = some 0x2E
  minor : 0 ≤ (fieldTwo w).val ∧ (fieldTwo w).val < 100
  dot_minor : (fieldTwo w).stop.head? = some 0x2E
  revision : 0 ≤ (fieldThree w).val ∧ (fieldThree w).val < 100

/-- Each of them starts with a digit, where it is read. -/
structure FieldsDigits (w : WStr) : Prop where
  major : StartsDigit w
  minor : StartsDigit (fieldOne w).stop.tail
  revision : StartsDigit (fieldTwo w).stop.tail

/-- The numbers in one. -/
def packedFields (w : WStr) : ℤ :=
  (((fieldOne w).val * 100 + (fieldTwo w).val) * 100 + (fieldThree w).val) * 100

theorem longInRange_erange {val : ℤ} {stop : WStr} (h : (longInRange val stop).erange = true) :
    (longInRange val stop).val < 0 ∨ 100 ≤ (longInRange val stop).val := by
  unfold longInRange at h ⊢
  by_cases hbig : 2 ^ 31 - 1 < val
  · rw [if_pos hbig]
    exact .inr (by norm_num)
  · rw [if_neg hbig] at h ⊢
    by_cases hsmall : val < -2 ^ 31
    · rw [if_pos hsmall]
      exact .inl (by norm_num)
    · rw [if_neg hsmall] at h
      cases h

/-- An error leaves the number out of every limit. -/
theorem wcstol_erange {w : WStr} (h : (wcstol w).erange = true) :
    (wcstol w).val < 0 ∨ 100 ≤ (wcstol w).val := by
  unfold wcstol at h ⊢
  dsimp only at h ⊢
  by_cases hnil : (takeDigits (takeSign (w.dropWhile (isSpace true))).2).1 = []
  · rw [if_pos hnil] at h
    cases h
  · rw [if_neg hnil] at h ⊢
    exact longInRange_erange h

theorem longOf_done {n : ℤ} (hlo : -2 ^ 31 ≤ n) (hhi : n < 2 ^ 31) : longOf n = .done n :=
  if_pos ⟨hlo, hhi⟩

/-- The test of a field. -/
theorem field_bad_iff (w : WStr) (least : ℤ) (hleast : 0 ≤ least) :
    ((wcstol w).erange = true ∨ verLevelMulti ≤ (wcstol w).val ∨ (wcstol w).val < least) ↔
      ¬(least ≤ (wcstol w).val ∧ (wcstol w).val < 100) := by
  rw [verLevelMulti, not_and_or, not_le, not_lt]
  constructor
  · rintro (herange | hhigh | hlow)
    · obtain h | h := wcstol_erange herange
      · exact .inl (h.trans_le hleast)
      · exact .inr h
    · exact .inr hhigh
    · exact .inl hlow
  · rintro (hlow | hhigh)
    · exact .inr (.inr hlow)
    · exact .inr (.inl hhigh)

/-- `version_to_id` without its arithmetic. -/
theorem versionId_eq (w : WStr) :
    (FieldsFit w ∧ versionId w = .done (packedFields w)) ∨
      (¬FieldsFit w ∧ versionId w = .done (-1)) := by
  have hone : ((fieldOne w).erange = true ∨ verLevelMulti ≤ (fieldOne w).val ∨ (fieldOne w).val ≤ 0) ↔
      ¬(1 ≤ (fieldOne w).val ∧ (fieldOne w).val < 100) := by
    have hpos : (fieldOne w).val ≤ 0 ↔ (fieldOne w).val < 1 := Int.lt_add_one_iff.symm
    rw [hpos]
    exact field_bad_iff w 1 (by norm_num)
  have htwo := field_bad_iff (fieldOne w).stop.tail 0 le_rfl
  have hthree := field_bad_iff (fieldTwo w).stop.tail 0 le_rfl
  unfold versionId
  dsimp only
  rw [← fieldOne, ← fieldTwo, ← fieldThree]
  rw [← fieldTwo] at htwo
  rw [← fieldThree] at hthree
  by_cases hmajor : 1 ≤ (fieldOne w).val ∧ (fieldOne w).val < 100
  · rw [if_neg (hone.not.mpr (not_not.mpr hmajor))]
    by_cases hdot : (fieldOne w).stop.head? = some 0x2E
    · rw [if_neg (not_not.mpr hdot), verLevelMulti, longOf_done (by omega) (by omega), Exec.bind_done]
      rw [verLevelMulti] at htwo hthree
      by_cases hminor : 0 ≤ (fieldTwo w).val ∧ (fieldTwo w).val < 100
      · rw [if_neg (htwo.not.mpr (not_not.mpr hminor))]
        by_cases hdot' : (fieldTwo w).stop.head? = some 0x2E
        · rw [if_neg (not_not.mpr hdot'), longOf_done (by omega) (by omega), Exec.bind_done,
            longOf_done (by omega) (by omega), Exec.bind_done]
          by_cases hrevision : 0 ≤ (fieldThree w).val ∧ (fieldThree w).val < 100
          · rw [if_neg (hthree.not.mpr (not_not.mpr hrevision)), longOf_done (by omega) (by omega),
              Exec.bind_done, longOf_done (by omega) (by omega)]
            exact .inl ⟨⟨hmajor, hdot, hminor, hdot', hrevision⟩, rfl⟩
          · rw [if_pos (hthree.mpr hrevision)]
            exact .inr ⟨fun h ↦ hrevision h.revision, rfl⟩
        · rw [if_pos hdot']
          exact .inr ⟨fun h ↦ hdot' h.dot_minor, rfl⟩
      · rw [if_pos (htwo.mpr hminor)]
        exact .inr ⟨fun h ↦ hminor h.minor, rfl⟩
    · rw [if_pos hdot]
      exact .inr ⟨fun h ↦ hdot h.dot, rfl⟩
  · rw [if_pos (hone.mpr hmajor)]
    exact .inr ⟨fun h ↦ hmajor h.major, rfl⟩

/-- A number below the limits is read as it is. -/
theorem longInRange_small {val : ℤ} {stop : WStr} (hval : 0 ≤ val) (h : (longInRange val stop).val < 100) :
    longInRange val stop = ⟨val, stop, false⟩ := by
  unfold longInRange at h ⊢
  by_cases hbig : 2 ^ 31 - 1 < val
  · rw [if_pos hbig] at h
    exact absurd h (by norm_num)
  · rw [if_neg hbig, if_neg (by omega)]

theorem longInRange_of_lt {n : ℕ} {stop : WStr} (h : n < 100) : longInRange n stop = ⟨n, stop, false⟩ := by
  unfold longInRange
  rw [if_neg (by omega), if_neg (by omega)]

/-- A field of digits. -/
theorem StartsDigit.field {w : WStr} (h : StartsDigit w) (hval : (wcstol w).val < 100) :
    ∃ ds rest, ds ≠ [] ∧ w = ds.map unit ++ rest ∧ (∀ c ∈ rest.head?, ofUnit c = none) ∧
      wcstol w = ⟨ofDigits ds, rest, false⟩ := by
  obtain ⟨ds, rest, hne, rfl, hrest⟩ := h.split
  rw [wcstol_digits hne hrest] at hval
  refine ⟨ds, rest, hne, rfl, hrest, ?_⟩
  rw [wcstol_digits hne hrest, longInRange_small (Int.natCast_nonneg _) hval]

theorem dot_not_digit (w : WStr) : ∀ c ∈ (0x2E :: w : WStr).head?, ofUnit c = none := by
  intro c hc
  obtain rfl := Option.some.inj hc
  rfl

/-- What is read of a text that starts with a version. -/
theorem Version.Starts.fields {v : Version} {w : WStr} (h : v.Starts w) :
    FieldsFit w ∧ FieldsDigits w ∧ packedFields w = v.packed := by
  obtain ⟨ds, es, fs, rest, hds, hes, hfs, rfl, hrest, hmajor, hminor, hrevision⟩ := h
  have h₁ := v.major_pos
  have h₂ := v.major_lt
  have h₃ := v.minor_lt
  have h₄ := v.revision_lt
  rw [hmajor] at h₁ h₂
  rw [hminor] at h₃
  rw [hrevision] at h₄
  have hone : fieldOne (ds.map unit ++ 0x2E :: (es.map unit ++ 0x2E :: (fs.map unit ++ rest))) =
      ⟨ofDigits ds, 0x2E :: (es.map unit ++ 0x2E :: (fs.map unit ++ rest)), false⟩ := by
    rw [fieldOne, wcstol_digits hds (dot_not_digit _), longInRange_of_lt h₂]
  have htwo : fieldTwo (ds.map unit ++ 0x2E :: (es.map unit ++ 0x2E :: (fs.map unit ++ rest))) =
      ⟨ofDigits es, 0x2E :: (fs.map unit ++ rest), false⟩ := by
    rw [fieldTwo, hone, List.tail_cons, wcstol_digits hes (dot_not_digit _), longInRange_of_lt h₃]
  have hthree : fieldThree (ds.map unit ++ 0x2E :: (es.map unit ++ 0x2E :: (fs.map unit ++ rest))) =
      ⟨ofDigits fs, rest, false⟩ := by
    rw [fieldThree, htwo, List.tail_cons, wcstol_digits hfs hrest, longInRange_of_lt h₄]
  refine ⟨⟨?_, ?_, ?_, ?_, ?_⟩, ⟨startsDigit_of_digits hds _, ?_, ?_⟩, ?_⟩
  · rw [hone]
    exact ⟨Int.ofNat_lt.mpr h₁, Int.ofNat_lt.mpr h₂⟩
  · rw [hone]
    rfl
  · rw [htwo]
    exact ⟨Int.natCast_nonneg _, Int.ofNat_lt.mpr h₃⟩
  · rw [htwo]
    rfl
  · rw [hthree]
    exact ⟨Int.natCast_nonneg _, Int.ofNat_lt.mpr h₄⟩
  · rw [hone]
    exact startsDigit_of_digits hes _
  · rw [htwo]
    exact startsDigit_of_digits hfs _
  · rw [packedFields, hone, htwo, hthree, Version.packed, hmajor, hminor, hrevision]

/-- Fields of digits within the limits are a version. -/
theorem FieldsFit.exists_starts {w : WStr} (hfit : FieldsFit w) (hdigits : FieldsDigits w) :
    ∃ v : Version, v.Starts w := by
  obtain ⟨ds, rest, hds, hw, -, hone⟩ := hdigits.major.field hfit.major.2
  have hone : fieldOne w = ⟨ofDigits ds, rest, false⟩ := hone
  obtain ⟨es, rest', hes, hw', -, htwo⟩ := hdigits.minor.field hfit.minor.2
  have htwo : fieldTwo w = ⟨ofDigits es, rest', false⟩ := htwo
  obtain ⟨fs, rest'', hfs, hw'', hrest, hthree⟩ := hdigits.revision.field hfit.revision.2
  have hthree : fieldThree w = ⟨ofDigits fs, rest'', false⟩ := hthree
  have hmajor := hfit.major
  have hminor := hfit.minor.2
  have hrevision := hfit.revision.2
  have hdot := hfit.dot
  have hdot' := hfit.dot_minor
  rw [hone] at hmajor hdot hw'
  rw [htwo] at hminor hdot' hw''
  rw [hthree] at hrevision
  obtain ⟨tail, rfl⟩ := List.head?_eq_some_iff.mp hdot
  obtain ⟨tail', rfl⟩ := List.head?_eq_some_iff.mp hdot'
  refine ⟨⟨ofDigits ds, ofDigits es, ofDigits fs, Int.ofNat_lt.mp hmajor.1,
    Int.ofNat_lt.mp hmajor.2, Int.ofNat_lt.mp hminor, Int.ofNat_lt.mp hrevision⟩,
    ds, es, fs, rest'', hds, hes, hfs, ?_, hrest, rfl, rfl, rfl⟩
  rw [hw]
  dsimp only [List.tail_cons] at hw' hw''
  rw [hw', hw'']

/-! ## The text of a version -/

/-- The units in front of a terminator. -/
def visible (w : WStr) : WStr := w.takeWhile fun c ↦ decide (c ≠ 0)

theorem visible_append {w : WStr} (h : ∀ c ∈ w, c ≠ 0) (rest : WStr) : visible (w ++ 0 :: rest) = w := by
  have hall : ∀ c ∈ w, decide (c ≠ 0) = true := fun c hc ↦ decide_eq_true (h c hc)
  have hstop : (0 :: rest).takeWhile (fun c : UInt16 ↦ decide (c ≠ 0)) = [] := rfl
  rw [visible, List.takeWhile_append_of_pos hall, hstop, List.append_nil]

theorem visible_ne_zero {w : WStr} {c : UInt16} (hc : c ∈ visible w) : c ≠ 0 := by
  have h := List.mem_takeWhile_imp hc
  exact of_decide_eq_true h

/-- A text is what is visible of it, and nothing or a terminator. -/
theorem visible_split (w : WStr) : ∃ rest, w = visible w ++ rest ∧ ∀ c ∈ rest.head?, c = 0 := by
  refine ⟨w.dropWhile fun c ↦ decide (c ≠ 0), List.takeWhile_append_dropWhile.symm, fun c hc ↦ ?_⟩
  have h := List.head?_dropWhile_not (fun c : UInt16 ↦ decide (c ≠ 0)) w
  rw [Option.mem_def] at hc
  rw [hc] at h
  exact not_not.mp (of_decide_eq_false h)

theorem versionToId_of_prefix {w mem : WStr} (hw : ∀ c ∈ w, c ≠ 0) (hmem : w ++ [0] <+: mem) :
    versionToId mem = versionId w := by
  obtain ⟨rest, rfl⟩ := hmem
  rw [List.append_assoc, List.singleton_append, versionToId, ← visible, visible_append hw]
  exact if_pos (List.mem_append_right _ List.mem_cons_self)

theorem versionToId_eq (w : WStr) : versionToId (w ++ [0]) = versionId (visible w) := by
  obtain ⟨rest, hw, hrest⟩ := visible_split w
  refine versionToId_of_prefix (fun c hc ↦ visible_ne_zero hc) ?_
  cases rest with
  | nil =>
    rw [List.append_nil] at hw
    rw [← hw]
  | cons c rest =>
    obtain rfl := hrest c rfl
    refine ⟨rest ++ [0], ?_⟩
    conv_rhs => rw [hw]
    simp

theorem unit_ne_zero (d : Fin 10) : unit d ≠ 0 := by
  revert d
  decide

/-- What follows a terminator is no part of a version. -/
theorem Version.starts_visible (v : Version) (w : WStr) : v.Starts (visible w) ↔ v.Starts w := by
  obtain ⟨behind, hw, hbehind⟩ := visible_split w
  constructor
  · rintro ⟨ds, es, fs, rest, hds, hes, hfs, hvisible, hrest, hnumbers⟩
    refine ⟨ds, es, fs, rest ++ behind, hds, hes, hfs, ?_, ?_, hnumbers⟩
    · rw [hw, hvisible]
      simp
    · intro c hc
      cases rest with
      | nil =>
        obtain rfl := hbehind c hc
        rfl
      | cons c' rest => exact hrest c hc
  · rintro ⟨ds, es, fs, rest, hds, hes, hfs, rfl, hrest, hnumbers⟩
    have hdigits (ds : List (Fin 10)) (u : WStr) :
        visible (ds.map unit ++ u) = ds.map unit ++ visible u := by
      refine List.takeWhile_append_of_pos fun c hc ↦ ?_
      obtain ⟨d, -, rfl⟩ := List.mem_map.mp hc
      exact decide_eq_true (unit_ne_zero d)
    have hdot (u : WStr) : visible (0x2E :: u) = 0x2E :: visible u := rfl
    refine ⟨ds, es, fs, visible rest, hds, hes, hfs, ?_, ?_, hnumbers⟩
    · rw [hdigits, hdot, hdigits, hdot, hdigits]
    · intro c hc
      refine hrest c ?_
      cases rest with
      | nil => exact hc
      | cons c' rest =>
        by_cases hzero : c' = 0
        · subst hzero
          cases hc
        · have hkeep : visible (c' :: rest) = c' :: visible rest :=
            List.takeWhile_cons_of_pos (decide_eq_true hzero)
          rwa [hkeep] at hc

/-- `check_server_version` succeeds where the version is not below. -/
theorem HttpCall.checkBody_meets_iff {V : Type} (c : HttpCall V) (isJson : Bool) :
    c.checkBody 200 isJson = .done (.returned .success none 1) ↔
      c.readers.version isJson c.transfer.body = .meets := by
  have herr (diag : Option PostedDiag) :
      c.checkErr (some isJson) diag ≠ .done (.returned .success none 1) := by
    unfold HttpCall.checkErr
    dsimp only
    split
    · nofun
    · nofun
  rw [HttpCall.checkBody, if_neg (not_not.mpr rfl)]
  cases c.readers.version isJson c.transfer.body with
  | missing => exact iff_of_false (herr _) nofun
  | noMemory => exact iff_of_false (herr _) nofun
  | invalid => exact iff_of_false (herr _) nofun
  | below message => exact iff_of_false nofun nofun
  | meets => exact iff_of_true rfl rfl

namespace VersionText

theorem length_units (t : VersionText) : t.units.length < 2 ^ 31 - 1 := by
  cases t with
  | json str fits => exact fits
  | cbor str fits =>
    rw [units, List.length_map]
    exact fits

/-- A text that is not the empty one of CBOR is in the memory of the connection. -/
theorem copied_some (t : VersionText) (hne : t.isJson = true ∨ t.units ≠ []) {room : WStr}
    (hroom : room.length = t.units.length + 1) :
    ∃ out mem, t.copied room = .done (some out) ∧ Buffer.store out t.units.length [0] = some mem ∧
      visible t.units ++ [0] <+: mem := by
  cases t with
  | json str fits =>
    have hroom : room.length = str.length + 1 := hroom
    obtain ⟨out, hcopy⟩ := Buffer.exists_store room 0 str (by omega)
    have hlen := Buffer.length_store hcopy
    obtain ⟨mem, hstore⟩ := Buffer.exists_store out str.length [0] (by
      rw [hlen, hroom]
      rfl)
    have htake := Buffer.take_store hcopy
    rw [Nat.zero_add, List.take_zero, List.nil_append] at htake
    have htake' := Buffer.take_store hstore
    rw [htake] at htake'
    refine ⟨out, mem, ?_, hstore, ?_⟩
    · rw [copied, hcopy]
      rfl
    · have hfront : str ++ [0] <+: mem := htake' ▸ List.take_prefix _ _
      obtain ⟨rest, hw, hrest⟩ := visible_split str
      refine List.IsPrefix.trans ?_ hfront
      dsimp only [units]
      cases rest with
      | nil =>
        rw [List.append_nil] at hw
        rw [← hw]
      | cons c rest =>
        obtain rfl := hrest c rfl
        refine ⟨rest ++ [0], ?_⟩
        conv_rhs => rw [hw]
        simp
  | cbor str fits =>
    have hunits : (str.map UInt8.toUInt16).length = str.length := List.length_map _
    have hroom : room.length = str.length + 1 := hunits ▸ hroom
    have hne : str ≠ [] := by
      rintro rfl
      exact hne.elim nofun fun h ↦ h rfl
    have hchars : 0 < str.length := List.length_pos_iff.mpr hne
    obtain ⟨rest, hrest, hend⟩ := (⟨str, str.length, hchars, .inl le_rfl⟩ : AsciiText UInt8).exists_rest
    generalize htext : (⟨str, str.length, hchars, .inl le_rfl⟩ : AsciiText UInt8).text = u at hrest hend
    have hu (c : UInt8) (hc : c ∈ u) : c ≠ 0 := AsciiText.text_ne_zero _ (htext ▸ hc)
    have hrest : str = u ++ rest := hrest
    have hend : u.length = str.length ∨ (u.length < str.length ∧ rest.head? = some 0) := hend
    have hfits : u.length + 1 < 2 ^ 31 := by omega
    obtain ⟨out, hrun, hlen, htake⟩ := @asciiCopy_writes UInt8 UInt16 _ _ _
      (fun c ↦ decide ((c.toNat : ℤ) < 0)) UInt8.toUInt16 rfl rfl u rest str.length room
      (fun c hc ↦ ⟨hu c hc, AsciiText.refuses_narrow c⟩) hchars hend (by omega)
    rw [← hrest, AsciiText.intSum_intOf hfits, Exec.bind_done] at hrun
    obtain ⟨mem, hstore⟩ := Buffer.exists_store out str.length [0] (by
      rw [hlen, hroom]
      rfl)
    have hvisible : visible (str.map UInt8.toUInt16) = u.map UInt8.toUInt16 := by
      have hwide : ∀ c ∈ u.map UInt8.toUInt16, c ≠ 0 := by
        intro c hc hzero
        obtain ⟨b, hb, rfl⟩ := List.mem_map.mp hc
        refine hu b hb ?_
        rw [← UInt8.toUInt8_toUInt16 b, hzero]
        rfl
      rw [hrest, List.map_append]
      obtain hall | ⟨-, hzero⟩ := hend
      · have hnil : rest = [] := by
          have hlen := congrArg List.length hrest
          rw [List.length_append] at hlen
          exact List.length_eq_zero_iff.mp (by omega)
        rw [hnil, List.map_nil, List.append_nil]
        exact List.takeWhile_eq_self_iff.mpr fun c hc ↦ decide_eq_true (hwide c hc)
      · obtain ⟨rest, rfl⟩ := List.head?_eq_some_iff.mp hzero
        exact visible_append hwide _
    have hfront : u.map UInt8.toUInt16 ++ [0] <+: out := htake ▸ List.take_prefix _ _
    refine ⟨out, mem, ?_, by rw [units, hunits]; exact hstore, ?_⟩
    · rw [copied, asciiC2wInto, hrun, Exec.bind_done]
      dsimp only
      rw [if_neg (by omega)]
    · rw [units, hvisible]
      obtain hall | ⟨hlt, -⟩ := hend
      · have hstart : u.map UInt8.toUInt16 <+: out := (List.prefix_append _ _).trans hfront
        have hpos : (u.map UInt8.toUInt16).length = str.length := (List.length_map _).trans hall
        rw [← hpos] at hstore
        exact Buffer.prefix_store hstart hstore
      · refine Buffer.prefix_of_store hfront hstore ?_
        rw [List.length_append, List.length_map, List.length_singleton]
        exact hlt

theorem least_id : versionToId (esodbcMinEsVer ++ [0]) = .done Version.least.packed := by
  decide +kernel

theorem not_fieldsFit_nil : ¬FieldsFit [] := by
  intro h
  exact absurd h.major.1 (by decide)

theorem packedFields_pos {w : WStr} (h : FieldsFit w) : 0 < packedFields w := by
  have h₁ := h.major.1
  have h₂ := h.minor.1
  have h₃ := h.revision.1
  unfold packedFields
  omega

/-- `check_server_version` compares the fields of what is visible of a version. -/
theorem check_eq (t : VersionText) {room : WStr} (hroom : room.length = t.units.length + 1) :
    (FieldsFit (visible t.units) ∧ ∃ message, t.check room =
      .done (if packedFields (visible t.units) < Version.least.packed then .below message else .meets)) ∨
    (¬FieldsFit (visible t.units) ∧ t.check room = .done .invalid) := by
  by_cases hne : t.isJson = true ∨ t.units ≠ []
  · obtain ⟨out, mem, hcopied, hstore, hmem⟩ := t.copied_some hne hroom
    have hid : versionToId mem = versionId (visible t.units) :=
      versionToId_of_prefix (fun c hc ↦ visible_ne_zero hc) hmem
    unfold check
    rw [hcopied, Exec.bind_done, Option.elim_some, hstore, Exec.ofOption_some, Exec.bind_done, least_id,
      Exec.bind_done, hid]
    obtain ⟨hfit, hrun⟩ | ⟨hfit, hrun⟩ := versionId_eq (visible t.units)
    · refine .inl ⟨hfit, belowMessage (mem.take t.units.length), ?_⟩
      rw [hrun, Exec.bind_done, if_neg (not_le.mpr (packedFields_pos hfit))]
    · rw [hrun]
      exact .inr ⟨hfit, rfl⟩
  · push Not at hne
    obtain ⟨hcbor, hnil⟩ := hne
    refine .inr ⟨hnil ▸ not_fieldsFit_nil, ?_⟩
    cases t with
    | json str fits => exact absurd rfl hcbor
    | cbor str fits =>
      obtain rfl : str = [] := List.map_eq_nil_iff.mp hnil
      rfl

/-- `version_to_id` accepts the versions and no others, and puts them in their order; the check
succeeds on those that are not below the least one. -/
def Gated (t : VersionText) : Prop :=
  (∃ id, versionToId (t.units ++ [0]) = .done id ∧ (0 < id ↔ ∃ v : Version, v.Starts t.units) ∧
    ∀ v v' : Version, ∀ w, v.Starts t.units → v'.Starts w →
      ∃ id', versionToId (w ++ [0]) = .done id' ∧ (id ≤ id' ↔ v.key ≤ v'.key)) ∧
  ∀ room, room.length = t.units.length + 1 → ∃ r, t.check room = .done r ∧
    ∀ (V : Type) (c : HttpCall V), c.readers.version t.isJson c.transfer.body = r →
      (c.checkBody 200 t.isJson = .done (.returned .success none 1) ↔
        ∃ v : Version, v.Starts t.units ∧ Version.least.key ≤ v.key)

theorem versionToId_starts {v : Version} {w : WStr} (h : v.Starts w) :
    versionToId (w ++ [0]) = .done v.packed := by
  obtain ⟨hfit, -, hpacked⟩ := ((v.starts_visible w).mpr h).fields
  rw [versionToId_eq, ← hpacked]
  obtain ⟨-, hrun⟩ | ⟨hnot, -⟩ := versionId_eq (visible w)
  · exact hrun
  · exact absurd hfit hnot

/-- A version is dealt with as described where each field that is read within its limits starts with a
digit. -/
theorem gated_iff (t : VersionText) :
    t.Gated ↔ (FieldsFit (visible t.units) → FieldsDigits (visible t.units)) := by
  have hvisible : (∃ v : Version, v.Starts t.units) ↔ ∃ v : Version, v.Starts (visible t.units) :=
    exists_congr fun v ↦ (v.starts_visible t.units).symm
  constructor
  · rintro ⟨⟨id, hid, haccepts, -⟩, -⟩ hfit
    rw [versionToId_eq] at hid
    obtain ⟨-, hrun⟩ | ⟨hnot, -⟩ := versionId_eq (visible t.units)
    · obtain rfl := Exec.done.inj (hrun.symm.trans hid)
      obtain ⟨v, hv⟩ := hvisible.mp (haccepts.mp (packedFields_pos hfit))
      exact hv.fields.2.1
    · exact absurd hfit hnot
  · intro hdigits
    have hstarts : FieldsFit (visible t.units) ↔ ∃ v : Version, v.Starts t.units := by
      rw [hvisible]
      exact ⟨fun hfit ↦ hfit.exists_starts (hdigits hfit), fun ⟨_, hv⟩ ↦ hv.fields.1⟩
    refine ⟨?_, fun room hroom ↦ ?_⟩
    · have horder (id : ℤ) (hid : versionToId (t.units ++ [0]) = .done id) (v v' : Version) (w : WStr)
          (hv : v.Starts t.units) (hv' : v'.Starts w) :
          ∃ id', versionToId (w ++ [0]) = .done id' ∧ (id ≤ id' ↔ v.key ≤ v'.key) := by
        obtain rfl := Exec.done.inj (hid.symm.trans (versionToId_starts hv))
        exact ⟨_, versionToId_starts hv', v.packed_le_iff v'⟩
      obtain ⟨hfit, hrun⟩ | ⟨hfit, hrun⟩ := versionId_eq (visible t.units)
      · have hid := (versionToId_eq t.units).trans hrun
        exact ⟨_, hid, iff_of_true (packedFields_pos hfit) (hstarts.mp hfit), horder _ hid⟩
      · have hid := (versionToId_eq t.units).trans hrun
        exact ⟨_, hid, iff_of_false (by norm_num) fun hv ↦ hfit (hstarts.mpr hv), horder _ hid⟩
    · obtain ⟨hfit, message, hrun⟩ | ⟨hfit, hrun⟩ := t.check_eq hroom
      · obtain ⟨v, hv⟩ := hstarts.mp hfit
        have hpacked := ((v.starts_visible t.units).mpr hv).fields.2.2
        refine ⟨_, hrun, fun V c hc ↦ ?_⟩
        rw [c.checkBody_meets_iff, hc, hpacked]
        by_cases hbelow : v.packed < Version.least.packed
        · rw [if_pos hbelow]
          refine iff_of_false nofun ?_
          rintro ⟨v', hv', hkey⟩
          have hsame := ((v'.starts_visible t.units).mpr hv').fields.2.2
          rw [← Version.packed_le_iff, ← hsame, hpacked] at hkey
          exact absurd hkey (not_le.mpr hbelow)
        · rw [if_neg hbelow]
          exact iff_of_true rfl ⟨v, hv, (Version.packed_le_iff _ _).mp (not_lt.mp hbelow)⟩
      · refine ⟨_, hrun, fun V c hc ↦ ?_⟩
        rw [c.checkBody_meets_iff, hc]
        refine iff_of_false nofun ?_
        rintro ⟨v, hv, -⟩
        exact hfit (hstarts.mpr ⟨v, hv⟩)

/-- A minor number and a revision that are not there. -/
theorem not_gated_empty : ¬(json (wstr "8..") (by decide +kernel)).Gated := by
  rintro ⟨⟨id, hid, haccepts, -⟩, -⟩
  have hrun : versionToId (wstr "8.." ++ [0]) = .done 8000000 := by decide +kernel
  obtain rfl := Exec.done.inj (hrun.symm.trans hid)
  obtain ⟨v, hv⟩ := haccepts.mp (by norm_num)
  obtain ⟨c, hc, hdigit⟩ := hv.fields.2.1.minor
  have hdot : (fieldOne (wstr "8..")).stop.tail.head? = some 0x2E := by decide +kernel
  obtain rfl := Option.some.inj (hdot.symm.trans hc)
  exact hdigit rfl

end VersionText

end EsOdbc
