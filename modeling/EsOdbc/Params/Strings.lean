import EsOdbc.Texts.JsonEscape

/-!
# Strings of the application

`get_octet_len`, `c2sql_cstr2qstr` and `c2sql_wstr2qstr` (`convert.c`).  A converter is called
without a destination for the length that it needs, and then with one.
-/

namespace EsOdbc

/-! ## The source -/

/-- `get_octet_len`, for units of so many bytes. -/
def getOctetLen {α : Type} [Zero α] [DecidableEq α] (size : ℕ) (octetLen : Option ℤ)
    (mem : List α) : Exec ℤ :=
  match octetLen with
  | none => (ntsLen mem).bind fun n ↦ .done n
  | some cnt =>
    if cnt = -3 then (ntsLen mem).bind fun n ↦ .done n
    -- no length of a text: the converters fail
    else if cnt = -1 then .done (-1)
    else .done ((cnt % 2 ^ 64 / size).bmod (2 ^ 64))

/-- What is written between two quotation marks. -/
def quotedInto (write : CStr → Exec (Except SqlState (CStr × ℕ))) :
    CStr → Exec (Except SqlState (CStr × ℕ))
  | [] => .undefined
  | _ :: room => (write room).bind fun
    | .error e => .done (.error e)
    | .ok out =>
      (Exec.ofOption (Buffer.store (Json.quote :: out.1) (out.2 + 1) [Json.quote])).bind fun dest ↦
        .done (.ok (dest, out.2 + 2))

/-- `c2sql_cstr2qstr` without a destination. -/
def cstr2qstrLen (paramSize : BitVec 64) (octetLen : Option ℤ) (data : CStr) :
    Exec (Except SqlState ℕ) :=
  (getOctetLen 1 octetLen data).bind fun cnt ↦
    if paramSize.toInt < cnt then .done (.error .s22001)
    else (jsonEscapeNull data (cnt % 2 ^ 64).toNat).bind fun len ↦ .done (.ok (len + 2))

/-- `c2sql_cstr2qstr`. -/
def cstr2qstr (octetLen : Option ℤ) (data : CStr) : CStr → Exec (Except SqlState (CStr × ℕ)) :=
  quotedInto fun room ↦ (getOctetLen 1 octetLen data).bind fun cnt ↦
    (jsonEscapeInto (.apart data) (cnt % 2 ^ 64).toNat room sizeMax).bind fun out ↦ .done (.ok out)

/-- `INT_MAX`. -/
def intMax : ℕ := 2 ^ 31 - 1

/-- `U16WC_TO_MBU8`: the counts are cast to `int`, and -1 is that of a text with its terminator.  The
conversion is strict. -/
def u16wcToMbu8 (wstr : WStr) (wcnt : ℤ) : Exec (Option CStr) :=
  let n := wcnt.bmod (2 ^ 32)
  if n < -1 then .undefined
  else
    (if n = -1 then (ntsLen wstr).bind fun k ↦ .done (k + 1) else .done n.toNat).bind fun k ↦
      (Exec.ofOption (Buffer.load wstr 0 k)).bind fun units ↦
        .done (((Utf.utf16Decode units).map Utf.utf8).filter fun u8 ↦ u8 ≠ [] ∧ u8.length ≤ intMax)

/-- The text in UTF-8; an empty one is not converted. -/
def wideOctets (data : WStr) (cnt : ℤ) : Exec (Except SqlState CStr) :=
  if cnt = 0 then .done (.ok [])
  else (u16wcToMbu8 data cnt).bind fun r ↦ .done (r.elim (.error .sHY000) .ok)

/-- `JSON_ESC_SEQ_SZ`. -/
def jsonEscSeqSz : ℕ := 6

/-- `c2sql_wstr2qstr` without a destination. -/
def wstr2qstrLen (paramSize : BitVec 64) (octetLen : Option ℤ) (data : WStr) :
    Exec (Except SqlState ℕ) :=
  (getOctetLen 2 octetLen data).bind fun cnt ↦
    if paramSize.toInt < cnt then .done (.error .s22001)
    else (wideOctets data cnt).bind fun r ↦
      .done (r.map fun octets ↦ jsonEscSeqSz * octets.length + 2)

/-- `c2sql_wstr2qstr`. -/
def wstr2qstr (octetLen : Option ℤ) (data : WStr) : CStr → Exec (Except SqlState (CStr × ℕ)) :=
  quotedInto fun room ↦ (getOctetLen 2 octetLen data).bind fun cnt ↦
    (wideOctets data cnt).bind fun
    | .error e => .done (.error e)
    | .ok octets => (Exec.ofOption (Buffer.store room 0 octets)).bind fun room ↦
      (jsonEscapeOverlapping room octets.length (jsonEscSeqSz * octets.length)).bind fun out ↦
        .done (.ok out)

/-! ## Bound strings -/

/-- A string in the memory of the application: with its terminator, or with a count of bytes, which
may end within a unit.  The memory is one whose escape can be addressed. -/
inductive BoundString (α : Type) [Zero α] (size : ℕ) where
  | terminated (indicated : Bool) (units behind : List α) (whole : 0 ∉ units)
      (small : jsonEscSeqSz * (units.length + 1 + behind.length) + 2 ≤ sizeMax)
  | counted (units behind : List α) (rest : ℕ) (part : rest < size)
      (small : jsonEscSeqSz * (units.length + behind.length) + 2 ≤ sizeMax)

namespace BoundString

variable {α : Type} [Zero α] {size : ℕ}

def units : BoundString α size → List α
  | terminated _ units _ _ _ => units
  | counted units _ _ _ _ => units

/-- What is behind the data pointer. -/
def mem : BoundString α size → List α
  | terminated _ units behind _ _ => units ++ 0 :: behind
  | counted units behind _ _ _ => units ++ behind

/-- What is behind the length pointer, if there is one. -/
def octetLen : BoundString α size → Option ℤ
  | terminated indicated _ _ _ _ => if indicated then some (-3) else none
  | counted units _ rest _ _ => some (units.length * size + rest)

theorem mem_eq (s : BoundString α size) : ∃ behind, s.mem = s.units ++ behind := by
  cases s with
  | terminated indicated units behind => exact ⟨_, rfl⟩
  | counted units behind => exact ⟨_, rfl⟩

theorem small_mem (s : BoundString α size) : jsonEscSeqSz * s.mem.length + 2 ≤ sizeMax := by
  cases s with
  | terminated indicated units behind whole small =>
    have hlen : (units ++ 0 :: behind).length = units.length + 1 + behind.length := by
      rw [List.length_append, List.length_cons]
      omega
    rw [mem, hlen]
    exact small
  | counted units behind rest part small =>
    rw [mem, List.length_append]
    exact small

/-- `get_octet_len` gives the count of the units. -/
theorem getOctetLen_eq [DecidableEq α] (s : BoundString α size) (hsize : size ≤ 2) :
    getOctetLen size s.octetLen s.mem = .done s.units.length := by
  cases s with
  | terminated indicated units behind whole small =>
    cases indicated <;> simp [octetLen, getOctetLen, mem, BoundString.units, ntsLen_terminated whole]
  | counted units behind rest part small =>
    have hpos : 0 < size := (Nat.zero_le rest).trans_lt part
    have hmul : units.length * size ≤ units.length * 2 := Nat.mul_le_mul_left _ hsize
    have hlt : units.length * size + rest < 2 ^ 63 := by
      unfold jsonEscSeqSz sizeMax at small
      omega
    have hdiv : (units.length * size + rest) / size = units.length := by
      rw [Nat.mul_comm, Nat.mul_add_div hpos, Nat.div_eq_of_lt part, Nat.add_zero]
    have hmod : ((units.length * size + rest : ℕ) : ℤ) % 2 ^ 64 = (units.length * size + rest : ℕ) :=
      Int.emod_eq_of_lt (by omega) (by omega)
    have hbmod : ((units.length : ℕ) : ℤ).bmod (2 ^ 64) = units.length := by
      have hle : units.length ≤ units.length * size + rest :=
        (Nat.le_mul_of_pos_right _ hpos).trans (Nat.le_add_right _ _)
      exact Int.bmod_eq_of_le (by omega) (by omega)
    have hcast : ((units.length * size + rest : ℕ) : ℤ) = units.length * size + rest := by
      push_cast
      rfl
    rw [octetLen, getOctetLen, ← hcast]
    rw [if_neg (by omega), if_neg (by omega), hmod, ← Int.natCast_div, hdiv, hbmod]
    rfl

end BoundString

/-- A converter that announces a length and then, given as much memory, writes such a text at its
start, or fails. -/
def Sends (announced : Exec (Except SqlState ℕ))
    (write : CStr → Exec (Except SqlState (CStr × ℕ))) (Text : CStr → Prop) : Prop :=
  (∃ e, announced = .done (.error e)) ∨
    ∃ n, announced = .done (.ok n) ∧ ∀ dest : CStr, n ≤ dest.length →
      (∃ e, write dest = .done (.error e)) ∨
        ∃ t rest, Text t ∧ write dest = .done (.ok (t ++ rest, t.length))

/-- A text in quotation marks. -/
def quotedText (json : CStr) : CStr := Json.quote :: (escapedText json ++ [Json.quote])

theorem length_quotedText (json : CStr) : (quotedText json).length = jsonEscapedLen json + 2 := by
  rw [quotedText, List.length_cons, List.length_append, length_escapedText]
  rfl

/-- The quotation marks come around what is written. -/
theorem quotedInto_done {write : CStr → Exec (Except SqlState (CStr × ℕ))} {room out json : CStr}
    (d : UInt8) (hwrite : write room = .done (.ok (out, jsonEscapedLen json)))
    (htext : out.take (jsonEscapedLen json) = escapedText json)
    (hroom : jsonEscapedLen json < out.length) :
    ∃ rest, quotedInto write (d :: room) = .done (.ok (quotedText json ++ rest,
      (quotedText json).length)) := by
  have hlen : jsonEscapedLen json + 1 + [Json.quote].length ≤ (Json.quote :: out).length := by
    simp only [List.length_cons, List.length_nil]
    omega
  refine ⟨(Json.quote :: out).drop (jsonEscapedLen json + 1 + 1), ?_⟩
  rw [quotedInto, hwrite, Exec.bind_done]
  dsimp only
  rw [Buffer.store_eq_some hlen, Exec.ofOption_some, Exec.bind_done, List.take_succ_cons, htext,
    length_quotedText, quotedText]
  simp

/-- What a converter that always writes the same text sends. -/
theorem sends_iff {announced : Exec (Except SqlState ℕ)}
    {write : CStr → Exec (Except SqlState (CStr × ℕ))} {Text : CStr → Prop} {n : ℕ} {t : CStr}
    (hannounced : announced = .done (.ok n))
    (hwrite : ∀ dest : CStr, n ≤ dest.length →
      ∃ rest, write dest = .done (.ok (t ++ rest, t.length))) :
    Sends announced write Text ↔ Text t := by
  constructor
  · rintro (⟨e, he⟩ | ⟨m, hm, hdest⟩)
    · rw [hannounced] at he
      cases he
    · rw [hannounced, Exec.done.injEq, Except.ok.injEq] at hm
      subst hm
      have hroom : n ≤ (List.replicate n (0 : UInt8)).length := (List.length_replicate).ge
      obtain ⟨rest, hrest⟩ := hwrite _ hroom
      rcases hdest _ hroom with ⟨e, he⟩ | ⟨t', rest', htext, hok⟩
      · rw [hrest] at he
        cases he
      · rw [hrest, Exec.done.injEq, Except.ok.injEq, Prod.mk.injEq] at hok
        rwa [(List.append_inj hok.1 hok.2).1]
  · intro htext
    refine .inr ⟨n, hannounced, fun dest hroom ↦ .inr ?_⟩
    obtain ⟨rest, hrest⟩ := hwrite dest hroom
    exact ⟨t, rest, htext, hrest⟩

/-! ## Narrow strings -/

/-- What `json_escape` takes for its input: so many bytes, or those up to a terminator. -/
structure Scanned (mem : CStr) (n : ℕ) (json : CStr) : Prop where
  count : (if n = 0 then ntsLen mem else .done n) = .done json.length
  start : json <+: mem

namespace Scanned

variable {mem json : CStr} {n : ℕ} (h : Scanned mem n json)

include h

theorem jsonEscapeNull : jsonEscapeNull mem n = .done (jsonEscapedLen json) := by
  obtain ⟨behind, hmem⟩ := h.start
  have hload : Buffer.load mem 0 json.length = some json := by
    rw [← hmem, Buffer.load_eq_some (by simp), List.drop_zero, List.take_left]
  rw [EsOdbc.jsonEscapeNull, h.count, Exec.bind_done, hload]
  rfl

theorem jsonEscapeInto (room : CStr) (outlen : ℕ) :
    jsonEscapeInto (.apart mem) n room outlen = put (room, 0) (jsonEscapeFrom outlen 0 json) := by
  obtain ⟨behind, rfl⟩ := h.start
  rw [EsOdbc.jsonEscapeInto, EscapeSource.bytes, h.count, Exec.bind_done]
  exact jsonEscapeLoop_apart outlen [] json behind (Nat.zero_le _)

/-- What `c2sql_cstr2qstr` sends of it. -/
theorem sends_iff {octetLen : Option ℤ} {paramSize : BitVec 64} {cnt : ℤ} {Text : CStr → Prop}
    (hcnt : getOctetLen 1 octetLen mem = .done cnt) (hn : (cnt % 2 ^ 64).toNat = n)
    (hsize : ¬paramSize.toInt < cnt) (hsmall : jsonEscapedLen json ≤ sizeMax) :
    Sends (cstr2qstrLen paramSize octetLen mem) (cstr2qstr octetLen mem) Text ↔
      Text (quotedText json) := by
  refine EsOdbc.sends_iff (n := jsonEscapedLen json + 2) ?_ fun dest hdest ↦ ?_
  · rw [cstr2qstrLen, hcnt, Exec.bind_done, if_neg hsize, hn, h.jsonEscapeNull]
    rfl
  · cases dest with
    | nil => cases hdest
    | cons d room =>
      rw [List.length_cons] at hdest
      have hfrom : jsonEscapeFrom sizeMax 0 json = escapedText json := by
        have hall : json <+: escapedStart sizeMax 0 json :=
          escapedStart_longest List.prefix_rfl (by rwa [Nat.zero_add])
        rw [jsonEscapeFrom_eq, (escapedStart_starts _ _ _).eq_of_length_le hall.length_le]
      have hroom : (escapedText json).length ≤ room.length := by
        rw [length_escapedText]
        omega
      have htext : (escapedText json ++ room.drop (escapedText json).length).take
          (jsonEscapedLen json) = escapedText json := List.take_left' (length_escapedText json)
      refine quotedInto_done d ?_ htext ?_
      · rw [hcnt, Exec.bind_done, hn, h.jsonEscapeInto, hfrom, put_zero hroom, Exec.bind_done,
          length_escapedText]
      · rw [List.length_append, List.length_drop, length_escapedText]
        omega

end Scanned

theorem jsonEscapedLen_le (json : CStr) : jsonEscapedLen json ≤ jsonEscSeqSz * json.length := by
  induction json with
  | nil => exact Nat.zero_le _
  | cons uchar json ih =>
    have hone : (escapedChar uchar).length ≤ jsonEscSeqSz := by
      unfold escapedChar
      split_ifs <;> simp [jsonEscSeqSz, jsonEscGenPref, cstr]
    rw [jsonEscapedLen_cons, List.length_cons, Nat.mul_succ, Nat.add_comm]
    exact Nat.add_le_add ih hone

/-- A terminator that is found. -/
theorem ntsLen_eq_done {α : Type} [Zero α] [DecidableEq α] {mem : List α} {n : ℕ}
    (h : ntsLen mem = .done n) :
    ∃ units behind, mem = units ++ 0 :: behind ∧ units.length = n := by
  rw [ntsLen] at h
  cases hfind : mem.findIdx? (· = 0) with
  | none =>
    rw [hfind] at h
    cases h
  | some k =>
    rw [hfind] at h
    obtain rfl := Exec.done.inj h
    obtain ⟨hk, hzero, -⟩ := List.findIdx?_eq_some_iff_getElem.mp hfind
    refine ⟨mem.take k, mem.drop (k + 1), ?_, List.length_take_of_le hk.le⟩
    have hunit : mem[k] = 0 := by simpa using hzero
    rw [← hunit, ← List.drop_eq_getElem_cons hk, List.take_append_drop]

theorem quotedText_nil_iff {json : CStr} : quotedText json = quotedText [] ↔ json = [] := by
  constructor
  · intro h
    have hlen := congrArg List.length h
    rw [length_quotedText, length_quotedText] at hlen
    have hle := le_jsonEscapedLen json
    have hzero : jsonEscapedLen [] = 0 := rfl
    exact List.length_eq_zero_iff.mp (by omega)
  · rintro rfl
    rfl

theorem toNat_size {n : ℕ} (h : n ≤ sizeMax) : ((n : ℤ) % 2 ^ 64).toNat = n := by
  unfold sizeMax at h
  omega

/-- A narrow string is sent as it is bound, or not at all, unless its count is zero: then it is read
up to a terminator. -/
theorem cstr2qstr_sends_iff (paramSize : BitVec 64) (s : BoundString UInt8 1) :
    Sends (cstr2qstrLen paramSize s.octetLen s.mem) (cstr2qstr s.octetLen s.mem)
        (· = quotedText s.units) ↔
      (s.units = [] → paramSize.toInt < 0 ∨ s.mem.head? = some 0) := by
  have hcnt := s.getOctetLen_eq (by norm_num)
  have hsmall := s.small_mem
  obtain ⟨behind, hmem⟩ := s.mem_eq
  have hescaped : ∀ json : CStr, json <+: s.mem → jsonEscapedLen json ≤ sizeMax := by
    intro json hjson
    have hlen := hjson.length_le
    have hle := jsonEscapedLen_le json
    unfold jsonEscSeqSz at hle hsmall
    omega
  have hcount : ((s.units.length : ℤ) % 2 ^ 64).toNat = s.units.length := by
    refine toNat_size ?_
    have hlen := congrArg List.length hmem
    rw [List.length_append] at hlen
    unfold jsonEscSeqSz at hsmall
    omega
  by_cases hsize : paramSize.toInt < s.units.length
  · refine iff_of_true (.inl ⟨.s22001, ?_⟩) fun hnil ↦ .inl ?_
    · rw [cstr2qstrLen, hcnt, Exec.bind_done, if_pos hsize]
    · rwa [hnil] at hsize
  by_cases hnil : s.units = []
  · rw [forall_prop_of_true hnil]
    have hzero : s.units.length = 0 := by rw [hnil, List.length_nil]
    rw [hzero, Nat.cast_zero] at hsize hcnt hcount
    cases hnts : ntsLen s.mem with
    | done n =>
      obtain ⟨json, tail, hjson, hlen⟩ := ntsLen_eq_done hnts
      have hscan : Scanned s.mem 0 json := by
        refine ⟨?_, hjson ▸ List.prefix_append _ _⟩
        rw [if_pos rfl, hnts, hlen]
      rw [hscan.sends_iff hcnt hcount hsize (hescaped json hscan.start), hnil, quotedText_nil_iff,
        hjson, or_iff_right hsize]
      constructor
      · rintro rfl
        rfl
      · intro hhead
        cases json with
        | nil => rfl
        | cons c json =>
          -- a terminator would have been found
          rw [List.cons_append, List.head?_cons, Option.some.injEq] at hhead
          rw [hjson, hhead, ntsLen, List.cons_append, List.findIdx?_cons, if_pos (by simp)] at hnts
          obtain rfl := Exec.done.inj hnts
          cases hlen
    | undefined =>
      refine iff_of_false ?_ ?_
      · have hannounced : cstr2qstrLen paramSize s.octetLen s.mem = .undefined := by
          rw [cstr2qstrLen, hcnt, Exec.bind_done, if_neg hsize, hcount, jsonEscapeNull, if_pos rfl,
            hnts]
          rfl
        rintro (⟨e, he⟩ | ⟨n, hn, -⟩)
        · rw [hannounced] at he
          cases he
        · rw [hannounced] at hn
          cases hn
      · rintro (hc | hhead)
        · exact hsize hc
        · obtain ⟨tail, htail⟩ := List.head?_eq_some_iff.mp hhead
          rw [htail, ntsLen, List.findIdx?_cons, if_pos (by simp)] at hnts
          cases hnts
    | exhausted =>
      rw [ntsLen] at hnts
      cases hfind : s.mem.findIdx? (· = 0) with
      | none =>
        rw [hfind] at hnts
        cases hnts
      | some k =>
        rw [hfind] at hnts
        cases hnts
  · have hscan : Scanned s.mem s.units.length s.units := by
      refine ⟨?_, hmem ▸ List.prefix_append _ _⟩
      rw [if_neg (List.length_pos_iff.mpr hnil).ne']
    rw [hscan.sends_iff hcnt hcount hsize (hescaped _ hscan.start)]
    exact iff_of_true rfl fun hc ↦ absurd hc hnil

/-! ## Wide strings -/

theorem quotedText_injective : Function.Injective quotedText := by
  intro json json' h
  rw [quotedText, quotedText, List.cons.injEq] at h
  have hread := congrArg Json.string h.2
  rw [string_escapedText, string_escapedText, Option.some.injEq, Prod.mk.injEq] at hread
  exact hread.1

/-- What is converted: a start of the memory, which is all of the units when their count is kept. -/
theorem u16wcToMbu8_eq_some {mem : WStr} {n : ℕ} {u8 : CStr}
    (h : u16wcToMbu8 mem n = .done (some u8)) :
    ∃ k chars, mem.take k = Utf.utf16 chars ∧ u8 = Utf.utf8 chars ∧ u8 ≠ [] ∧ u8.length ≤ intMax ∧
      (n < 2 ^ 31 → k = n) := by
  rw [u16wcToMbu8] at h
  have hkeep : n < 2 ^ 31 → (n : ℤ).bmod (2 ^ 32) = n := fun hn ↦
    Int.bmod_eq_of_le (by omega) (by omega)
  generalize (n : ℤ).bmod (2 ^ 32) = c at h hkeep
  by_cases hneg : c < -1
  · rw [if_pos hneg] at h
    cases h
  · rw [if_neg hneg] at h
    obtain ⟨k, hk, h⟩ := Exec.bind_eq_done.mp h
    obtain ⟨units, hload, h⟩ := Exec.bind_eq_done.mp h
    have hunits : units = mem.take k := by
      rw [Buffer.load] at hload
      split_ifs at hload
      · rw [List.drop_zero] at hload
        exact (Exec.done.inj hload).symm
      · cases hload
    rw [Exec.done.injEq, Option.filter_eq_some_iff, Option.map_eq_some_iff] at h
    obtain ⟨⟨chars, hchars, rfl⟩, hkept⟩ := h
    rw [decide_eq_true_iff] at hkept
    refine ⟨k, chars, ?_, rfl, hkept.1, hkept.2, fun hn ↦ ?_⟩
    · rw [← hunits]
      exact Utf.utf16Decode_eq_some.mp hchars
    · rw [if_neg (by rw [hkeep hn]; omega), hkeep hn, Int.toNat_natCast, Exec.done.injEq] at hk
      exact hk.symm

/-- A count that is kept is converted, or not. -/
theorem u16wcToMbu8_defined {units behind : WStr} (h : units.length < 2 ^ 31) :
    ∃ r, u16wcToMbu8 (units ++ behind) units.length = .done r := by
  have hkeep : (units.length : ℤ).bmod (2 ^ 32) = units.length :=
    Int.bmod_eq_of_le (by omega) (by omega)
  have hload : Buffer.load (units ++ behind) 0 units.length = some units := by
    rw [Buffer.load_eq_some (by simp), List.drop_zero, List.take_left]
  rw [u16wcToMbu8, hkeep, if_neg (by omega), if_neg (by omega), Int.toNat_natCast, Exec.bind_done, hload]
  exact ⟨_, rfl⟩

/-- What `c2sql_wstr2qstr` writes of a text that is converted. -/
theorem wstr2qstr_done {octetLen : Option ℤ} {mem : WStr} {n : ℕ} {u8 dest : CStr}
    (hcnt : getOctetLen 2 octetLen mem = .done n) (hn : n ≠ 0)
    (h : u16wcToMbu8 mem n = .done (some u8)) (hne : u8 ≠ [])
    (hdest : jsonEscSeqSz * u8.length + 2 ≤ dest.length) :
    ∃ rest, wstr2qstr octetLen mem dest = .done (.ok (quotedText u8 ++ rest,
      (quotedText u8).length)) := by
  cases dest with
  | nil => cases hdest
  | cons d room =>
    rw [List.length_cons] at hdest
    unfold jsonEscSeqSz at hdest
    have hpos := List.length_pos_iff.mpr hne
    -- the text, the room it is escaped in, and what is behind that
    have hlen : (room.drop u8.length).length = room.length - u8.length := List.length_drop
    obtain ⟨gap, behind, hsplit, hgap⟩ : ∃ gap behind, room.drop u8.length = gap ++ behind ∧
        gap.length = 5 * u8.length := by
      refine ⟨(room.drop u8.length).take (5 * u8.length), _, (List.take_append_drop _ _).symm, ?_⟩
      rw [List.length_take, hlen]
      omega
    have hstore : Buffer.store room 0 u8 = some ((u8 ++ gap) ++ behind) := by
      rw [Buffer.store_eq_some (by omega), List.take_zero, List.nil_append, Nat.zero_add, hsplit,
        List.append_assoc]
    have htotal : jsonEscSeqSz * u8.length = (u8 ++ gap).length := by
      rw [List.length_append, hgap, jsonEscSeqSz]
      omega
    have hbehind : 0 < behind.length := by
      have := congrArg List.length hsplit
      rw [List.length_append, hlen, hgap] at this
      omega
    have hfits := jsonEscapedLen_le u8
    rw [htotal] at hfits
    obtain ⟨buf, hrun, hsize, hbuf⟩ := jsonEscapeOverlapping_eq behind hne (by omega) hfits
    refine quotedInto_done d ?_ (?_ : (buf ++ behind).take (jsonEscapedLen u8) = _) ?_
    · rw [hcnt, Exec.bind_done, wideOctets, if_neg (by exact_mod_cast hn), h, Exec.bind_done,
        Option.elim_some, Exec.bind_done]
      dsimp only
      rw [hstore, Exec.ofOption_some, Exec.bind_done, htotal, hrun, Exec.bind_done]
    · rw [List.take_append_of_le_length (hsize ▸ hfits), hbuf]
    · rw [List.length_append, hsize]
      omega

/-- A wide string is sent as it is bound, or not at all, unless it is empty or the cast of its count
leaves something else that is converted. -/
theorem wstr2qstr_sends_iff (paramSize : BitVec 64) (s : BoundString UInt16 2) :
    Sends (wstr2qstrLen paramSize s.octetLen s.mem) (wstr2qstr s.octetLen s.mem)
        (fun t ↦ ∃ chars, Utf.utf16 chars = s.units ∧ t = quotedText (Utf.utf8 chars)) ↔
      paramSize.toInt < s.units.length ∨ (s.units ≠ [] ∧
        (s.units.length < 2 ^ 31 ∨ u16wcToMbu8 s.mem s.units.length = .done none)) := by
  have hcnt := s.getOctetLen_eq le_rfl
  obtain ⟨behind, hmem⟩ := s.mem_eq
  by_cases hsize : paramSize.toInt < s.units.length
  · refine iff_of_true (.inl ⟨.s22001, ?_⟩) (.inl hsize)
    rw [wstr2qstrLen, hcnt, Exec.bind_done, if_pos hsize]
  rw [or_iff_right hsize]
  by_cases hnil : s.units = []
  · refine iff_of_false ?_ fun h ↦ h.1 hnil
    have hzero : s.units.length = 0 := by rw [hnil, List.length_nil]
    rw [hzero, Nat.cast_zero] at hsize hcnt
    have hannounced : wstr2qstrLen paramSize s.octetLen s.mem = .done (.ok 2) := by
      rw [wstr2qstrLen, hcnt, Exec.bind_done, if_neg hsize]
      rfl
    -- a memory without a terminator for the empty text to end with
    have hwrite : wstr2qstr s.octetLen s.mem [1, 1] = .undefined := by
      rw [wstr2qstr, quotedInto, hcnt]
      rfl
    rintro (⟨e, he⟩ | ⟨n, hn, hdest⟩)
    · rw [hannounced] at he
      cases he
    · rw [hannounced, Exec.done.injEq, Except.ok.injEq] at hn
      subst hn
      rcases hdest [1, 1] le_rfl with ⟨e, he⟩ | ⟨t, rest, -, hok⟩
      · rw [hwrite] at he
        cases he
      · rw [hwrite] at hok
        cases hok
  have hpos : s.units.length ≠ 0 := (List.length_pos_iff.mpr hnil).ne'
  have hcast : (s.units.length : ℤ) ≠ 0 := by exact_mod_cast hpos
  rw [and_iff_right hnil]
  have hannounced : wstr2qstrLen paramSize s.octetLen s.mem =
      (u16wcToMbu8 s.mem s.units.length).bind fun r ↦
        .done (r.elim (.error .sHY000) fun u8 ↦ .ok (jsonEscSeqSz * u8.length + 2)) := by
    rw [wstr2qstrLen, hcnt, Exec.bind_done, if_neg hsize, wideOctets, if_neg hcast]
    cases u16wcToMbu8 s.mem s.units.length with
    | done r => cases r <;> rfl
    | undefined => rfl
    | exhausted => rfl
  have hfailed : ∀ x, u16wcToMbu8 s.mem s.units.length = x → (∀ r, x ≠ .done r) →
      ¬Sends (wstr2qstrLen paramSize s.octetLen s.mem) (wstr2qstr s.octetLen s.mem)
        (fun t ↦ ∃ chars, Utf.utf16 chars = s.units ∧ t = quotedText (Utf.utf8 chars)) := by
    rintro x hx hundone (⟨e, he⟩ | ⟨n, hn, -⟩)
    · rw [hannounced, hx] at he
      obtain ⟨r, hr, -⟩ := Exec.bind_eq_done.mp he
      exact hundone r hr
    · rw [hannounced, hx] at hn
      obtain ⟨r, hr, -⟩ := Exec.bind_eq_done.mp hn
      exact hundone r hr
  have hdefined : ∀ x, u16wcToMbu8 s.mem s.units.length = x → (∀ r, x ≠ .done r) →
      ¬(s.units.length < 2 ^ 31 ∨ x = .done none) := by
    rintro x hx hundone (hlt | hnone)
    · obtain ⟨r, hr⟩ := @u16wcToMbu8_defined _ behind hlt
      rw [← hmem, hx] at hr
      exact hundone r hr
    · exact hundone none hnone
  cases hconv : u16wcToMbu8 s.mem s.units.length with
  | undefined => exact iff_of_false (hfailed _ hconv nofun) (hdefined _ hconv nofun)
  | exhausted => exact iff_of_false (hfailed _ hconv nofun) (hdefined _ hconv nofun)
  | done r =>
    rw [hconv] at hannounced
    cases r with
    | none => exact iff_of_true (.inl ⟨_, hannounced⟩) (.inr rfl)
    | some u8 =>
      obtain ⟨k, chars, htake, rfl, hne, hmax, hkept⟩ := u16wcToMbu8_eq_some hconv
      rw [EsOdbc.sends_iff hannounced fun dest hdest ↦ wstr2qstr_done hcnt hpos hconv hne hdest,
        or_iff_left (by simp)]
      constructor
      · rintro ⟨chars', hunits, hquoted⟩
        rw [← Utf.utf8_injective (quotedText_injective hquoted)] at hunits
        have hle := Utf.length_utf16_le chars
        unfold intMax at hmax
        rw [← hunits]
        omega
      · intro hlt
        refine ⟨chars, ?_, rfl⟩
        rw [← htake, hkept hlt, hmem, List.take_left]

/-! ## Main result -/

/-- The strings that are sent as they are bound, or not at all. -/
theorem strings_sent_iff (paramSize : BitVec 64) :
    (∀ s : BoundString UInt8 1,
      Sends (cstr2qstrLen paramSize s.octetLen s.mem) (cstr2qstr s.octetLen s.mem)
          (· = quotedText s.units) ↔
        (s.units = [] → paramSize.toInt < 0 ∨ s.mem.head? = some 0)) ∧
    ∀ s : BoundString UInt16 2,
      Sends (wstr2qstrLen paramSize s.octetLen s.mem) (wstr2qstr s.octetLen s.mem)
          (fun t ↦ ∃ chars, Utf.utf16 chars = s.units ∧ t = quotedText (Utf.utf8 chars)) ↔
        paramSize.toInt < s.units.length ∨ (s.units ≠ [] ∧
          (s.units.length < 2 ^ 31 ∨ u16wcToMbu8 s.mem s.units.length = .done none)) :=
  ⟨cstr2qstr_sends_iff paramSize, wstr2qstr_sends_iff paramSize⟩

/-- No bytes of `a` are bound, and `a` is sent. -/
theorem not_sends_countZero : ¬Sends (cstr2qstrLen 10 (some 0) [0x61, 0])
    (cstr2qstr (some 0) [0x61, 0]) (· = quotedText []) := by
  rintro (⟨e, he⟩ | ⟨n, hn, hdest⟩)
  · cases he
  · cases hn
    rcases hdest [0, 0, 0] le_rfl with ⟨e, he⟩ | ⟨t, rest, rfl, hok⟩
    · cases he
    · cases hok

end EsOdbc
