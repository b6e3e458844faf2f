import EsOdbc.Diag.Readers

/-!
# Returning a string

The three places that hand a string to the application on their own: `write_wstr` (`util.c`),
`EsSQLGetDescFieldW` on the string fields of a record (`handles.c`) and `EsSQLNativeSqlW`
(`queries.c`).  `Lawful` is the one law for them; each meets it for some of the buffer sizes.
-/

namespace EsOdbc

/-! ## Model -/

/-- Bytes are copied to the start of the buffer; there is nothing behind it to write to. -/
def intoBuffer (mem bytes : CStr) : Exec CStr :=
  if mem.length < bytes.length then .undefined else .done (bytes ++ mem.drop bytes.length)

/-- The conversion of a count to `SQLINTEGER`. -/
def toSqlinteger (n : ℕ) : ℤ := ((n : ℤ) + 2 ^ 31) % 2 ^ 32 - 2 ^ 31

/-- `check_buff` of a string field that is read; `SQL_NTS` is odd. -/
def checkStringBuff (buffLen : ℤ) : EsodbcState :=
  if buffLen < 0 ∧ buffLen ≠ -3 then .sHY090
  else if buffLen % 2 ≠ 0 then .sHY090
  else .s00000

/-- What a call leaves: the state it posts, the buffer, and the length if it reports one. -/
structure StringOut where
  posted : Option EsodbcState
  mem : CStr
  length : Option ℤ
deriving DecidableEq, Repr

/-- A call, with the size of its buffer as it is passed. -/
inductive StringCall where
  | writeWstr (avail : BitVec 16)
  | getDescField (bufferLength : BitVec 32)
  | nativeSql (cchSqlStrMax : BitVec 32)

namespace StringCall

/-- The call on a string: whether there is a place for the length, and the buffer. -/
def run (src : WStr) (hasLength : Bool) (mem : CStr) : StringCall → Exec StringOut
  | .writeWstr avail =>
    let out := TextOut.writeWstr true src avail.toInt
    (intoBuffer mem (wideBytes out.written)).bind fun mem ↦
      .done ⟨out.posted, mem, if hasLength then some out.used else none⟩
  | .getDescField bufferLength =>
    match checkStringBuff bufferLength.toInt with
    | .s00000 =>
      if !hasLength then .done ⟨some .sHY009, mem, none⟩
      else
        let length := toSqlinteger src.length
        -- as many bytes as there are characters
        if length < 0 then .undefined
        else (intoBuffer mem ((wideBytes src).take length.toNat)).bind fun mem ↦
          .done ⟨none, mem, some length⟩
    | state => .done ⟨some state, mem, none⟩
  | .nativeSql cchSqlStrMax =>
    -- the length is passed, or counted up to the terminator
    let cchSqlStrIn := toSqlinteger src.length
    let cut := decide (cchSqlStrMax.toInt ≤ cchSqlStrIn)
    let toCopy := if cut then cchSqlStrMax.toInt - 1 else cchSqlStrIn
    if toCopy < 0 then .undefined
    else (intoBuffer mem (wideBytes (src.take toCopy.toNat ++ [0]))).bind fun mem ↦
      .done ⟨if cut then some .s01004 else none, mem, if hasLength then some cchSqlStrIn else none⟩

/-- The size of the buffer in bytes. -/
def room : StringCall → ℤ
  | .writeWstr avail => avail.toInt
  | .getDescField bufferLength => bufferLength.toInt
  | .nativeSql cchSqlStrMax => 2 * cchSqlStrMax.toInt

/-- How many of its units of length a character has. -/
def perChar : StringCall → ℕ
  | .writeWstr _ | .getDescField _ => 2
  | .nativeSql _ => 1

end StringCall

/-! ## The law -/

/-- The size is refused, and the buffer is as it was. -/
structure SizeRefused (mem : CStr) (out : StringOut) : Prop where
  posted : out.posted = some .sHY090
  mem : out.mem = mem

/-- The string is returned: a terminated prefix, as long as fits, with the state that says that it
is cut.  A buffer without room for a terminator gets nothing, and the state. -/
structure StringReturned (src : WStr) (room : ℕ) (length : ℕ) (hasLength : Bool) (mem : CStr)
    (out : StringOut) : Prop where
  inside : out.mem.drop room = mem.drop room
  size : out.mem.length = mem.length
  length : hasLength = true → out.length = some (length : ℤ)
  text : if room < 2 then out.posted = some .s01004
    else ∃ p, p <+: src ∧ p.length = min src.length (room / 2 - 1) ∧
      wideBytes (p ++ [0]) <+: out.mem ∧
      out.posted = if p.length < src.length then some .s01004 else none

/-- The law for a call: whatever is in the buffer. -/
def StringCall.Lawful (src : WStr) (hasLength : Bool) (c : StringCall) : Prop :=
  ∀ mem : CStr, c.room ≤ mem.length → ∃ out, c.run src hasLength mem = .done out ∧
    (SizeRefused mem out ∨
      (0 ≤ c.room ∧
        StringReturned src c.room.toNat (src.length * c.perChar) hasLength mem out))

/-- The sizes and strings for which a call obeys the law. -/
def StringCall.Obeys (src : WStr) (hasLength : Bool) : StringCall → Prop
  | .writeWstr avail =>
    avail.toInt < 0 ∨ avail.toInt % 2 ≠ 0 ∨
      ((hasLength = true → src.length * 2 < 2 ^ 15) ∧
        ∀ i j, i ≤ j → j < src.length → 2 * (j + 2 : ℤ) ≤ avail.toInt →
          src[i]? = some 0 → src[j]? = some 0)
  | .getDescField bufferLength => bufferLength.toInt < 0 ∨ bufferLength.toInt % 2 ≠ 0
  | .nativeSql cchSqlStrMax =>
    0 < cchSqlStrMax.toInt ∧
      (src.length < 2 ^ 31 ∨
        (hasLength = false ∧ cchSqlStrMax.toInt ≤ toSqlinteger src.length))

/-! ## Bytes and units -/

theorem wideBytes_append (v w : WStr) : wideBytes (v ++ w) = wideBytes v ++ wideBytes w :=
  List.flatMap_append

@[simp] theorem length_wideBytes (w : WStr) : (wideBytes w).length = 2 * w.length := by
  induction w with
  | nil => rfl
  | cons c w ih =>
    rw [wideBytes, List.flatMap_cons, List.length_append, List.length_cons]
    have := ih
    rw [wideBytes] at this
    rw [this]
    simp
    omega

/-- Units are told apart by their bytes. -/
theorem wideBytes_injective {v w : WStr} (h : wideBytes v = wideBytes w) : v = w := by
  induction v generalizing w with
  | nil =>
    cases w with
    | nil => rfl
    | cons d w => simp [wideBytes] at h
  | cons c v ih =>
    cases w with
    | nil => simp [wideBytes] at h
    | cons d w =>
      simp only [wideBytes, List.flatMap_cons, List.cons_append, List.nil_append,
        List.cons.injEq] at h
      obtain ⟨hlow, hhigh, hrest⟩ := h
      have hc := c.toNat_lt
      have hd := d.toNat_lt
      have hlow' := congrArg UInt8.toNat hlow
      have hhigh' := congrArg UInt8.toNat hhigh
      simp only [UInt8.toNat_ofNat'] at hlow' hhigh'
      have hcd : c = d := UInt16.toNat_inj.mp (by omega)
      rw [hcd, ih hrest]

/-- Units of one number at the start of the same bytes. -/
theorem wideBytes_isPrefixOf {v w : WStr} {rest : CStr} (hlen : v.length = w.length) :
    wideBytes v <+: wideBytes w ++ rest ↔ v = w := by
  constructor
  · intro h
    have htake := List.prefix_iff_eq_take.mp h
    rw [length_wideBytes, hlen, ← length_wideBytes, List.take_left] at htake
    exact wideBytes_injective htake
  · rintro rfl
    exact List.prefix_append _ _

theorem intoBuffer_of_le {mem bytes : CStr} (h : bytes.length ≤ mem.length) :
    intoBuffer mem bytes = .done (bytes ++ mem.drop bytes.length) := if_neg (not_lt.mpr h)

/-- Behind the bytes that are copied the buffer is as it was. -/
theorem drop_overwritten {mem bytes : CStr} {room : ℕ} (h : bytes.length ≤ room) :
    (bytes ++ mem.drop bytes.length).drop room = mem.drop room := by
  rw [List.drop_append, List.drop_eq_nil_of_le h, List.nil_append, List.drop_drop,
    Nat.add_sub_cancel' h]

theorem wcsncpy_zero (src : WStr) : wcsncpy src 0 = [] := by simp [wcsncpy]

theorem wcsncpy_nul (src : WStr) (n : ℕ) : wcsncpy (0 :: src) n = List.replicate n 0 := by
  simp [wcsncpy]

theorem wcsncpy_cons {c : UInt16} (hc : c ≠ 0) (src : WStr) (n : ℕ) :
    wcsncpy (c :: src) (n + 1) = c :: wcsncpy src n := by
  simp [wcsncpy, hc]

theorem length_wcsncpy (src : WStr) (n : ℕ) : (wcsncpy src n).length = n := by
  simp only [wcsncpy, List.length_append, List.length_take, List.length_replicate]
  omega

/-- A copy takes all units if behind a null there are only nulls. -/
theorem wcsncpy_eq_take {src : WStr} {n : ℕ} (hn : n ≤ src.length) :
    wcsncpy src n = src.take n ↔
      ∀ i j, i ≤ j → j < n → src[i]? = some 0 → src[j]? = some 0 := by
  induction n generalizing src with
  | zero => simp [wcsncpy_zero]
  | succ n ih =>
    cases src with
    | nil => simp at hn
    | cons c src =>
      have hn' : n ≤ src.length := by simpa using hn
      by_cases hc : c = 0
      · subst hc
        rw [wcsncpy_nul, List.take_succ_cons, List.replicate_succ, List.cons.injEq]
        constructor
        · rintro ⟨-, h⟩ i j hij hj -
          cases j with
          | zero => rfl
          | succ j =>
            have hj' : j < n := by omega
            rw [List.getElem?_cons_succ, ← List.getElem?_take_of_lt hj', ← h]
            simp [hj']
        · intro h
          refine ⟨rfl, List.ext_getElem? fun j ↦ ?_⟩
          by_cases hj : j < n
          · have hzero := h 0 (j + 1) (by omega) (by omega) rfl
            rw [List.getElem?_cons_succ] at hzero
            rw [List.getElem?_take_of_lt hj, hzero]
            simp [hj]
          · simp [not_lt.mp hj]
      · rw [wcsncpy_cons hc, List.take_succ_cons, List.cons.injEq]
        simp only [true_and]
        rw [ih hn']
        constructor
        · intro h i j hij hj hi
          cases i with
          | zero => exact absurd (by simpa using hi) hc
          | succ i =>
            cases j with
            | zero => omega
            | succ j => exact h i j (by omega) (by omega) hi
        · intro h i j hij hj hi
          exact h (i + 1) (j + 1) (by omega) (by omega) hi

/-! ## `write_wstr` -/

/-- The units that a room in bytes has a place for, in front of the terminator. -/
def fitting (src : WStr) (room : ℕ) : ℕ := min src.length (room / 2 - 1)

theorem fitting_le (src : WStr) (room : ℕ) : fitting src room ≤ src.length := min_le_left _ _

/-- A size that is not refused. -/
theorem writeWstr_even (src : WStr) {room : ℕ} (heven : room % 2 = 0) :
    TextOut.writeWstr true src room =
      if room = 0 then ⟨.successWithInfo, [], intToSqlsmallint (src.length * 2), some .s01004⟩
      else if fitting src room < src.length then
        ⟨.successWithInfo, wcsncpy src (fitting src room) ++ [0],
          intToSqlsmallint (src.length * 2), some .s01004⟩
      else ⟨.success, wcsncpy src (fitting src room) ++ [0], intToSqlsmallint (src.length * 2), none⟩ := by
  have hvalid : ¬((room : ℤ) < 0 ∨ (room : ℤ) % 2 ≠ 0) := by omega
  have hhalf : ((room : ℤ) / 2).toNat = room / 2 := by omega
  have hcode : EsodbcState.s01004.error.retcode = .successWithInfo := rfl
  rw [TextOut.writeWstr, if_neg (by simp), if_neg hvalid]
  dsimp only
  rw [hhalf, hcode]
  by_cases hzero : room = 0
  · subst hzero
    simp
  rw [if_neg hzero]
  by_cases hcut : room / 2 ≤ src.length
  · have hfit : fitting src room = room / 2 - 1 := by
      rw [fitting]
      omega
    rw [if_pos hcut, if_pos (show 0 < room / 2 by omega), hfit,
      if_pos (show room / 2 - 1 < src.length by omega)]
  · have hfit : fitting src room = src.length := by
      rw [fitting]
      omega
    have hcopy : wcsncpy src (src.length + 1) = wcsncpy src src.length ++ [0] := by
      have hle : (src.takeWhile (· ≠ 0)).length ≤ src.length := (List.takeWhile_prefix _).length_le
      have hone : src.length + 1 - (src.takeWhile (· ≠ 0)).length =
          (src.length - (src.takeWhile (· ≠ 0)).length) + 1 := by omega
      simp only [wcsncpy, List.take_of_length_le hle, List.take_of_length_le (hle.trans (Nat.le_succ _)),
        hone, List.replicate_succ', List.append_assoc]
    rw [if_neg hcut, hfit, if_neg (lt_irrefl _), hcopy]

/-- What a returned string comes to, where there is room for a terminator. -/
theorem stringReturned_text {src : WStr} {room : ℕ} {bytes : WStr} {rest : CStr}
    (hlen : bytes.length = fitting src room) {posted : Option EsodbcState} :
    (∃ p, p <+: src ∧ p.length = min src.length (room / 2 - 1) ∧
      wideBytes (p ++ [0]) <+: wideBytes (bytes ++ [0]) ++ rest ∧
      posted = if p.length < src.length then some .s01004 else none) ↔
    bytes = src.take (fitting src room) ∧
      posted = if fitting src room < src.length then some .s01004 else none := by
  constructor
  · rintro ⟨p, hp, hplen, hbytes, hposted⟩
    rw [wideBytes_isPrefixOf (by simp [hplen, hlen, fitting])] at hbytes
    have heq : p = bytes := List.append_cancel_right hbytes
    have htake := List.prefix_iff_eq_take.mp hp
    rw [hplen] at htake hposted
    exact ⟨heq ▸ htake, hposted⟩
  · rintro ⟨rfl, hposted⟩
    have hle := fitting_le src room
    refine ⟨_, List.take_prefix _ _, ?_, List.prefix_append _ _, ?_⟩
    · exact hlen
    · rw [hlen]
      exact hposted

/-- The units that fit are copied, with a terminator. -/
theorem stringReturned_copy {src : WStr} {room : ℕ} (hroom : 2 ≤ room) {mem : CStr}
    (hmem : room ≤ mem.length) {hasLength : Bool} {n : ℕ} {length : Option ℤ}
    (hlength : hasLength = true → length = some (n : ℤ)) :
    StringReturned src room n hasLength mem
      ⟨if fitting src room < src.length then some .s01004 else none,
        wideBytes (src.take (fitting src room) ++ [0]) ++ mem.drop (2 * (fitting src room + 1)),
        length⟩ := by
  have hle : fitting src room ≤ room / 2 - 1 := min_le_right _ _
  have htake : (src.take (fitting src room)).length = fitting src room :=
    List.length_take_of_le (fitting_le src room)
  have hbytes : (wideBytes (src.take (fitting src room) ++ [0])).length =
      2 * (fitting src room + 1) := by
    rw [length_wideBytes, List.length_append, htake, List.length_singleton]
  constructor
  · dsimp only
    rw [← hbytes]
    exact drop_overwritten (by omega)
  · simp only [List.length_append, List.length_drop, hbytes]
    omega
  · exact hlength
  · rw [if_neg (by omega)]
    exact (stringReturned_text htake).mpr ⟨rfl, rfl⟩

theorem intToSqlsmallint_eq_iff (n : ℕ) : intToSqlsmallint n = n ↔ n < 2 ^ 15 := by
  unfold intToSqlsmallint
  omega

/-- A call of `write_wstr` whose size is not refused. -/
theorem run_writeWstr {src : WStr} {avail : BitVec 16} {room : ℕ} (hroom : avail.toInt = room)
    (heven : room % 2 = 0) (hasLength : Bool) {mem : CStr} (hmem : room ≤ mem.length) :
    (StringCall.writeWstr avail).run src hasLength mem = .done
      ⟨if room = 0 ∨ fitting src room < src.length then some .s01004 else none,
        if room = 0 then mem
        else wideBytes (wcsncpy src (fitting src room) ++ [0]) ++ mem.drop (2 * (fitting src room + 1)),
        if hasLength then some (intToSqlsmallint (src.length * 2)) else none⟩ := by
  have hlen : (wideBytes (wcsncpy src (fitting src room) ++ [0])).length =
      2 * (fitting src room + 1) := by
    rw [length_wideBytes, List.length_append, length_wcsncpy, List.length_singleton]
  rw [StringCall.run, hroom, writeWstr_even src heven]
  by_cases hzero : room = 0
  · simp [hzero, wideBytes, intoBuffer]
  · have hfits : (wideBytes (wcsncpy src (fitting src room) ++ [0])).length ≤ mem.length := by
      have : fitting src room ≤ room / 2 - 1 := min_le_right _ _
      omega
    by_cases hcut : fitting src room < src.length
    · simp [hzero, hcut, intoBuffer_of_le hfits, hlen]
    · simp [hzero, hcut, intoBuffer_of_le hfits, hlen]

/-- The copy keeps the units that fit, and the length is not too large for its type. -/
theorem lawful_writeWstr_even {src : WStr} {avail : BitVec 16} {room : ℕ}
    (hroom : avail.toInt = room) (heven : room % 2 = 0) (hasLength : Bool) :
    (StringCall.writeWstr avail).Lawful src hasLength ↔
      (hasLength = true → src.length * 2 < 2 ^ 15) ∧
        (room ≠ 0 → wcsncpy src (fitting src room) = src.take (fitting src room)) := by
  have hused : intToSqlsmallint (src.length * 2) = ((src.length * 2 : ℕ) : ℤ) ↔
      src.length * 2 < 2 ^ 15 := by
    rw [← intToSqlsmallint_eq_iff, Nat.cast_mul, Nat.cast_ofNat]
  have hposted : (if room = 0 ∨ fitting src room < src.length then some EsodbcState.s01004
      else none) ≠ some .sHY090 := by split_ifs <;> simp
  constructor
  · intro h
    obtain ⟨out, hrun, hout⟩ := h (List.replicate room 0) (by simp [StringCall.room, hroom])
    rw [run_writeWstr hroom heven hasLength (by simp)] at hrun
    obtain rfl := (Exec.done.inj hrun).symm
    rcases hout with hrefused | ⟨-, hret⟩
    · exact absurd hrefused.posted hposted
    · refine ⟨fun hlen ↦ ?_, fun hzero ↦ ?_⟩
      · have := hret.length hlen
        simp only [hlen, if_true, Option.some.injEq, StringCall.perChar] at this
        exact hused.mp this
      · have htext := hret.text
        have hnat : (StringCall.writeWstr avail).room.toNat = room := by
          rw [StringCall.room, hroom, Int.toNat_natCast]
        rw [hnat, if_neg (by omega)] at htext
        simp only [hzero, if_false] at htext
        exact ((stringReturned_text (length_wcsncpy _ _)).mp htext).1
  · rintro ⟨hlen, hcopy⟩ mem hmem
    have hmem' : room ≤ mem.length := by
      rw [StringCall.room, hroom] at hmem
      exact_mod_cast hmem
    have hnat : (StringCall.writeWstr avail).room.toNat = room := by
      rw [StringCall.room, hroom, Int.toNat_natCast]
    refine ⟨_, run_writeWstr hroom heven hasLength hmem', .inr ⟨?_, ?_⟩⟩
    · rw [StringCall.room, hroom]
      exact Int.natCast_nonneg room
    · rw [hnat]
      by_cases hzero : room = 0
      · subst hzero
        refine ⟨by simp, by simp, fun htrue ↦ ?_, by simp⟩
        simp only [htrue, if_true, StringCall.perChar, Option.some.injEq]
        exact hused.mpr (hlen htrue)
      · simp only [hzero, if_false, false_or]
        rw [hcopy hzero]
        refine stringReturned_copy (by omega) hmem' fun htrue ↦ ?_
        rw [if_pos htrue, hused.mpr (hlen htrue), StringCall.perChar]

/-- `write_wstr` obeys the law if the units that fit are copied and the length has a place. -/
theorem lawful_writeWstr (src : WStr) (hasLength : Bool) (avail : BitVec 16) :
    (StringCall.writeWstr avail).Lawful src hasLength ↔
      (StringCall.writeWstr avail).Obeys src hasLength := by
  by_cases hbad : avail.toInt < 0 ∨ avail.toInt % 2 ≠ 0
  · have hrefused : TextOut.writeWstr true src avail.toInt =
        ⟨.error, [], intToSqlsmallint (src.length * 2), some .sHY090⟩ := by
      have hcode : EsodbcState.sHY090.error.retcode = .error := rfl
      rw [TextOut.writeWstr, if_neg (by simp), if_pos hbad, hcode]
    have hobeys : (StringCall.writeWstr avail).Obeys src hasLength := by
      rcases hbad with h | h
      · exact .inl h
      · exact .inr (.inl h)
    refine iff_of_true (fun mem _ ↦ ?_) hobeys
    refine ⟨⟨some .sHY090, mem, if hasLength then some (intToSqlsmallint (src.length * 2)) else none⟩,
      ?_, .inl ⟨rfl, rfl⟩⟩
    simp [StringCall.run, hrefused, wideBytes, intoBuffer]
  · rw [not_or, not_not, not_lt] at hbad
    obtain ⟨hnonneg, hmod⟩ := hbad
    obtain ⟨room, hroom⟩ := Int.eq_ofNat_of_zero_le hnonneg
    rw [lawful_writeWstr_even hroom (by omega), StringCall.Obeys, hroom]
    have hfirst : ¬((room : ℤ) < 0) := by omega
    have hsecond : ¬((room : ℤ) % 2 ≠ 0) := by omega
    simp only [hfirst, hsecond, false_or]
    refine and_congr_right fun _ ↦ ?_
    rw [wcsncpy_eq_take (fitting_le src room)]
    have hbound (j : ℕ) : (j < src.length ∧ 2 * (j + 2 : ℤ) ≤ room) ↔
        room ≠ 0 ∧ j < fitting src room := by
      rw [fitting, lt_min_iff]
      omega
    constructor
    · intro h i j hij hj hj' hi
      obtain ⟨hzero, hlt⟩ := (hbound j).mp ⟨hj, hj'⟩
      exact h hzero i j hij hlt hi
    · intro h hzero i j hij hj hi
      obtain ⟨hlt, hle⟩ := (hbound j).mpr ⟨hzero, hj⟩
      exact h i j hij hlt hle hi

/-! ## `EsSQLGetDescFieldW` -/

theorem checkStringBuff_eq (n : ℤ) :
    checkStringBuff n = if n < 0 ∨ n % 2 ≠ 0 then .sHY090 else .s00000 := by
  rw [checkStringBuff]
  by_cases hneg : n < 0
  · by_cases hnts : n = -3
    · subst hnts
      decide
    · rw [if_pos ⟨hneg, hnts⟩, if_pos (.inl hneg)]
  · rw [if_neg (fun h ↦ hneg h.1)]
    simp only [hneg, false_or]

theorem toSqlinteger_le (n : ℕ) : toSqlinteger n ≤ n := by
  rw [toSqlinteger]
  omega

/-- The states of a string that is returned. -/
theorem StringReturned.posted_of {src : WStr} {room length : ℕ} {hasLength : Bool} {mem : CStr}
    {out : StringOut} (h : StringReturned src room length hasLength mem out) :
    out.posted = some .s01004 ∨ (2 ≤ room ∧ out.posted = none) := by
  have htext := h.text
  by_cases hroom : room < 2
  · rw [if_pos hroom] at htext
    exact .inl htext
  · rw [if_neg hroom] at htext
    obtain ⟨p, -, -, -, hposted⟩ := htext
    by_cases hcut : p.length < src.length
    · rw [if_pos hcut] at hposted
      exact .inl hposted
    · rw [if_neg hcut] at hposted
      exact .inr ⟨not_lt.mp hroom, hposted⟩

/-- A string field is returned at no size. -/
theorem lawful_getDescField (src : WStr) (hasLength : Bool) (bufferLength : BitVec 32) :
    (StringCall.getDescField bufferLength).Lawful src hasLength ↔
      (StringCall.getDescField bufferLength).Obeys src hasLength := by
  by_cases hbad : bufferLength.toInt < 0 ∨ bufferLength.toInt % 2 ≠ 0
  · refine iff_of_true (fun mem _ ↦ ⟨⟨some .sHY090, mem, none⟩, ?_, .inl ⟨rfl, rfl⟩⟩) hbad
    rw [StringCall.run, checkStringBuff_eq, if_pos hbad]
  · refine iff_of_false (fun h ↦ ?_) hbad
    rw [not_or, not_not, not_lt] at hbad
    obtain ⟨hnonneg, hmod⟩ := hbad
    obtain ⟨room, hroom⟩ := Int.eq_ofNat_of_zero_le hnonneg
    have hnat : (StringCall.getDescField bufferLength).room.toNat = room := by
      rw [StringCall.room, hroom, Int.toNat_natCast]
    -- a buffer without nulls
    obtain ⟨out, hrun, hout⟩ := h (List.replicate room 255) (by simp [StringCall.room, hroom])
    have hcheck : checkStringBuff bufferLength.toInt = .s00000 := by
      rw [checkStringBuff_eq, if_neg (by omega)]
    rw [StringCall.run, hcheck] at hrun
    cases hasLength with
    | false =>
      obtain rfl := Exec.done.inj hrun
      rcases hout with hrefused | ⟨-, hret⟩
      · exact absurd hrefused.posted (by simp)
      · rcases hret.posted_of with hposted | ⟨-, hposted⟩
        · cases hposted
        · cases hposted
    | true =>
      simp only [Bool.not_true, Bool.false_eq_true, if_false] at hrun
      by_cases hneg : toSqlinteger src.length < 0
      · rw [if_pos hneg] at hrun
        cases hrun
      rw [if_neg hneg, Exec.bind_eq_done] at hrun
      obtain ⟨mem, hmem, hrun⟩ := hrun
      obtain rfl := Exec.done.inj hrun
      rcases hout with hrefused | ⟨-, hret⟩
      · exact absurd hrefused.posted (by simp)
      -- a length in characters is one in bytes only if it is zero
      have hlength := Option.some.inj (hret.length rfl)
      have hle := toSqlinteger_le src.length
      simp only [StringCall.perChar, Nat.cast_mul, Nat.cast_ofNat] at hlength
      have hnil : src = [] := List.length_eq_zero_iff.mp (by omega)
      subst hnil
      obtain rfl : List.replicate room 255 = mem := by simpa [wideBytes, intoBuffer] using hmem
      rcases hret.posted_of with hposted | ⟨hroom2, -⟩
      · cases hposted
      · have htext := hret.text
        rw [hnat, if_neg (by omega)] at htext
        obtain ⟨p, hp, -, hbytes, -⟩ := htext
        obtain rfl := List.prefix_nil.mp hp
        have hfirst : (0 : UInt8) ∈ List.replicate room 255 := hbytes.subset (by simp [wideBytes])
        simpa using List.eq_of_mem_replicate hfirst

/-! ## `EsSQLNativeSqlW` -/

theorem toSqlinteger_eq_iff (n : ℕ) : toSqlinteger n = n ↔ n < 2 ^ 31 := by
  rw [toSqlinteger]
  omega

/-- The statement is returned in a buffer that has a place for the terminator, if its length is
one of an `SQLINTEGER`. -/
theorem lawful_nativeSql (src : WStr) (hasLength : Bool) (cchSqlStrMax : BitVec 32) :
    (StringCall.nativeSql cchSqlStrMax).Lawful src hasLength ↔
      (StringCall.nativeSql cchSqlStrMax).Obeys src hasLength := by
  have hle := toSqlinteger_le src.length
  have heq := toSqlinteger_eq_iff src.length
  have hmax : cchSqlStrMax.toInt < 2 ^ 31 := BitVec.toInt_lt
  have hroom : (StringCall.nativeSql cchSqlStrMax).room = 2 * cchSqlStrMax.toInt := rfl
  have hobeys : (StringCall.nativeSql cchSqlStrMax).Obeys src hasLength ↔
      0 < cchSqlStrMax.toInt ∧ (src.length < 2 ^ 31 ∨
        (hasLength = false ∧ cchSqlStrMax.toInt ≤ toSqlinteger src.length)) := Iff.rfl
  have hrun (mem : CStr) : (StringCall.nativeSql cchSqlStrMax).run src hasLength mem =
      if cchSqlStrMax.toInt ≤ toSqlinteger src.length then
        if cchSqlStrMax.toInt - 1 < 0 then .undefined
        else (intoBuffer mem (wideBytes (src.take (cchSqlStrMax.toInt - 1).toNat ++ [0]))).bind fun mem ↦
          .done ⟨some .s01004, mem, if hasLength then some (toSqlinteger src.length) else none⟩
      else
        if toSqlinteger src.length < 0 then .undefined
        else (intoBuffer mem (wideBytes (src.take (toSqlinteger src.length).toNat ++ [0]))).bind fun mem ↦
          .done ⟨none, mem, if hasLength then some (toSqlinteger src.length) else none⟩ := by
    by_cases hcut : cchSqlStrMax.toInt ≤ toSqlinteger src.length
    · simp [StringCall.run, hcut]
    · simp [StringCall.run, hcut]
  generalize hn : toSqlinteger src.length = n at *
  generalize cchSqlStrMax.toInt = m at *
  rw [hobeys]
  constructor
  · intro h
    obtain ⟨out, hdone, hout⟩ := h (List.replicate (2 * m).toNat 255) (by
      rw [hroom, List.length_replicate]
      exact Int.self_le_toNat _)
    rw [hrun] at hdone
    by_cases hcut : m ≤ n
    · rw [if_pos hcut] at hdone
      by_cases hneg : m - 1 < 0
      · rw [if_pos hneg] at hdone
        cases hdone
      rw [if_neg hneg, Exec.bind_eq_done] at hdone
      obtain ⟨mem, -, hdone⟩ := hdone
      obtain rfl := Exec.done.inj hdone
      rcases hout with hrefused | ⟨-, hret⟩
      · exact absurd hrefused.posted (by simp)
      refine ⟨by omega, ?_⟩
      cases hasLength with
      | false => exact .inr ⟨rfl, hcut⟩
      | true =>
        have hlength := Option.some.inj (hret.length rfl)
        rw [StringCall.perChar, mul_one] at hlength
        exact .inl (heq.mp hlength)
    · rw [if_neg hcut] at hdone
      by_cases hneg : n < 0
      · rw [if_pos hneg] at hdone
        cases hdone
      rw [if_neg hneg, Exec.bind_eq_done] at hdone
      obtain ⟨mem, -, hdone⟩ := hdone
      obtain rfl := Exec.done.inj hdone
      rcases hout with hrefused | ⟨-, hret⟩
      · exact absurd hrefused.posted (by simp)
      have htext := hret.text
      rw [hroom, if_neg (by omega)] at htext
      obtain ⟨p, -, hplen, -, hposted⟩ := htext
      refine ⟨by omega, .inl ?_⟩
      by_cases hshort : p.length < src.length
      · rw [if_pos hshort] at hposted
        cases hposted
      · omega
  · rintro ⟨hpos, hfit⟩ mem hmem
    rw [hroom] at hmem ⊢
    have hmem' : (2 * m).toNat ≤ mem.length := by omega
    by_cases hcut : m ≤ n
    · have hfitting : fitting src (2 * m).toNat = (m - 1).toNat := by
        rw [fitting]
        omega
      have hlength : hasLength = true → (if hasLength then some n else none) =
          some ((src.length * (StringCall.nativeSql cchSqlStrMax).perChar : ℕ) : ℤ) := by
        intro htrue
        have hshort : src.length < 2 ^ 31 := hfit.resolve_right (by simp [htrue])
        rw [if_pos htrue, StringCall.perChar, mul_one, heq.mpr hshort]
      have hret := @stringReturned_copy src _ (by omega) _ hmem' _ _ _ hlength
      have hbytes : (wideBytes (src.take (m - 1).toNat ++ [0])).length = 2 * ((m - 1).toNat + 1) := by
        rw [length_wideBytes, List.length_append, List.length_take_of_le (by omega),
          List.length_singleton]
      rw [hfitting, if_pos (by omega), ← hbytes] at hret
      refine ⟨_, ?_, .inr ⟨by omega, hret⟩⟩
      rw [hrun, if_pos hcut, if_neg (by omega), intoBuffer_of_le (by omega), Exec.bind_done]
    · have hshort : src.length < 2 ^ 31 := hfit.resolve_right (fun h ↦ hcut h.2)
      have hwhole : n = src.length := heq.mpr hshort
      have hfitting : fitting src (2 * m).toNat = n.toNat := by
        rw [fitting]
        omega
      have hlength : hasLength = true → (if hasLength then some n else none) =
          some ((src.length * (StringCall.nativeSql cchSqlStrMax).perChar : ℕ) : ℤ) := by
        intro htrue
        rw [if_pos htrue, StringCall.perChar, mul_one, hwhole]
      have hret := @stringReturned_copy src _ (by omega) _ hmem' _ _ _ hlength
      have hbytes : (wideBytes (src.take n.toNat ++ [0])).length = 2 * (n.toNat + 1) := by
        rw [length_wideBytes, List.length_append, List.length_take_of_le (by omega),
          List.length_singleton]
      rw [hfitting, if_neg (by omega), ← hbytes] at hret
      refine ⟨_, ?_, .inr ⟨by omega, hret⟩⟩
      rw [hrun, if_neg hcut, if_neg (by omega), intoBuffer_of_le (by omega), Exec.bind_done]

/-! ## All calls -/

/-- A call obeys the law for the sizes and strings of `Obeys`. -/
theorem StringCall.lawful_iff (src : WStr) (hasLength : Bool) (c : StringCall) :
    c.Lawful src hasLength ↔ c.Obeys src hasLength := by
  cases c with
  | writeWstr avail => exact lawful_writeWstr src hasLength avail
  | getDescField bufferLength => exact lawful_getDescField src hasLength bufferLength
  | nativeSql cchSqlStrMax => exact lawful_nativeSql src hasLength cchSqlStrMax

/-- The name of a column, read into a buffer that has room for it. -/
theorem StringCall.not_lawful_name :
    ¬∀ (src : WStr) (hasLength : Bool) (c : StringCall), c.Lawful src hasLength := by
  intro h
  have hname := (lawful_getDescField (wstr "name") true 16).mp (h _ _ _)
  rcases hname with hneg | hodd
  · exact absurd hneg (by decide)
  · exact hodd (by decide)

end EsOdbc
