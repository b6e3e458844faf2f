import EsOdbc.Cursor.Serialize

/-!
# Escaping for JSON

`json_escape` and `json_escape_overlapping` (`util.c`).  The escape of a text that fits the room is
the escape of a start of the text, and a JSON reader has that start back.  In its own buffer a text
is escaped from a copy at the end of it.
-/

namespace EsOdbc

/-! ## The source -/

section

variable {α : Type} [Zero α] [DecidableEq α]

/-- `strlen` and `wcslen`. -/
def ntsLen (mem : List α) : Exec ℕ := Exec.ofOption (mem.findIdx? (· = 0))

/-- A text with its terminator. -/
theorem ntsLen_terminated {units : List α} (h : (0 : α) ∉ units) (behind : List α) :
    ntsLen (units ++ 0 :: behind) = .done units.length := by
  have hfind : (units ++ 0 :: behind).findIdx? (· = 0) = some units.length := by
    induction units with
    | nil => simp [List.findIdx?_cons]
    | cons u units ih =>
      rw [List.mem_cons, not_or] at h
      rw [List.cons_append, List.findIdx?_cons, if_neg (by simpa using Ne.symm h.1), ih h.2]
      rfl
  rw [ntsLen, hfind]
  rfl

end

/-- Where `json_escape` reads: in memory of its own, or from a place on in the buffer that it
writes to. -/
inductive EscapeSource where
  | apart (jin : CStr)
  | within (jin : ℕ)

/-- The bytes from the first one on, with the output buffer as it is. -/
def EscapeSource.bytes (jout : CStr) : EscapeSource → CStr
  | apart jin => jin
  | within jin => jout.drop jin

/-- The loop of `json_escape`, at byte `i` with so many left. -/
def jsonEscapeLoop (src : EscapeSource) (outlen : ℕ) : ℕ → ℕ → CStr × ℕ → Exec (CStr × ℕ)
  | 0, _, out => .done out
  | left + 1, i, out =>
    (Exec.ofOption (src.bytes out.1)[i]?).bind fun uchar ↦
      if outlen < out.2 + (escapedChar uchar).length then .done out
      else (put out (escapedChar uchar)).bind fun out ↦ jsonEscapeLoop src outlen left (i + 1) out

/-- `json_escape` with an output buffer. -/
def jsonEscapeInto (src : EscapeSource) (inlen : ℕ) (jout : CStr) (outlen : ℕ) : Exec (CStr × ℕ) :=
  (if inlen = 0 then ntsLen (src.bytes jout) else .done inlen).bind fun inlen ↦
    jsonEscapeLoop src outlen inlen 0 (jout, 0)

/-- `json_escape` with none. -/
def jsonEscapeNull (jin : CStr) (inlen : ℕ) : Exec ℕ :=
  (if inlen = 0 then ntsLen jin else .done inlen).bind fun inlen ↦
    (Exec.ofOption (Buffer.load jin 0 inlen)).bind fun json ↦ .done (jsonEscapedLen json)

/-- `json_escape_overlapping`. -/
def jsonEscapeOverlapping (str : CStr) (inlen outlen : ℕ) : Exec (CStr × ℕ) :=
  if outlen < inlen then .undefined
  else (Exec.ofOption (Buffer.copy str (outlen - inlen) 0 inlen)).bind fun str ↦
    jsonEscapeInto (.within (outlen - inlen)) inlen str outlen

/-! ## Escaped texts -/

/-- A text with all its characters escaped. -/
def escapedText (json : CStr) : CStr := json.flatMap escapedChar

@[simp] theorem escapedText_nil : escapedText [] = [] := rfl

@[simp] theorem escapedText_cons (uchar : UInt8) (json : CStr) :
    escapedText (uchar :: json) = escapedChar uchar ++ escapedText json := rfl

theorem length_escapedText (json : CStr) : (escapedText json).length = jsonEscapedLen json := by
  induction json with
  | nil => rfl
  | cons uchar json ih => rw [escapedText_cons, List.length_append, ih, jsonEscapedLen_cons]

theorem escapedChar_ne_nil (uchar : UInt8) : escapedChar uchar ≠ [] := by
  unfold escapedChar
  split_ifs <;> nofun

theorem one_le_length_escapedChar (uchar : UInt8) : 1 ≤ (escapedChar uchar).length :=
  List.length_pos_iff.mpr (escapedChar_ne_nil uchar)

/-- No character is dropped. -/
theorem le_jsonEscapedLen (json : CStr) : json.length ≤ jsonEscapedLen json := by
  induction json with
  | nil => exact Nat.zero_le _
  | cons uchar json ih =>
    have hone := one_le_length_escapedChar uchar
    rw [jsonEscapedLen_cons, List.length_cons]
    omega

/-- A control character is written as its two hexadecimal digits. -/
theorem control_hex : ∀ n < 0x20, ∃ u : UInt16,
    Json.hex4 0x30 0x30 (i16toa (UInt8.ofNat n >>> 4)) (i16toa (UInt8.ofNat n &&& 0xF)) = some u ∧
      Utf.isHigh u = false ∧ Utf.isLow u = false ∧
        Utf.utf8 [Char.ofNat u.toNat] = [UInt8.ofNat n] := by
  intro n hn
  refine ⟨UInt16.ofNat n, ?_⟩
  revert n
  decide +kernel

theorem denotes_escapedChar (uchar : UInt8) : Json.Denotes (escapedChar uchar) uchar := by
  unfold escapedChar
  split_ifs with hb hf hn hr ht hself hplain
  · exact hb ▸ Json.denotes_simple rfl
  · exact hf ▸ Json.denotes_simple rfl
  · exact hn ▸ Json.denotes_simple rfl
  · exact hr ▸ Json.denotes_simple rfl
  · exact ht ▸ Json.denotes_simple rfl
  · refine Json.denotes_simple ?_
    rw [Json.simpleEscape, if_pos]
    exact hself.imp_right .inl
  · rw [not_or] at hself
    exact Json.denotes_plain ⟨hplain, hself⟩
  · have hlt : uchar.toNat < 0x20 := UInt8.lt_iff_toNat_lt.mp (UInt8.not_le.mp hplain)
    obtain ⟨u, hu, hhigh, hlow, hutf⟩ := control_hex _ hlt
    rw [UInt8.ofNat_toNat] at hu hutf
    exact Json.denotes_hex hu hhigh hlow hutf

/-- A JSON reader has the text back. -/
theorem string_escapedText (json rest : CStr) :
    Json.string (escapedText json ++ Json.quote :: rest) = some (json, rest) :=
  Json.string_denotes denotes_escapedChar json rest

/-! ## The longest start that fits -/

/-- The start of a text that is escaped. -/
def escapedStart (outlen : ℕ) : ℕ → CStr → CStr
  | _, [] => []
  | pos, uchar :: jin =>
    if outlen < pos + (escapedChar uchar).length then []
    else uchar :: escapedStart outlen (pos + (escapedChar uchar).length) jin

theorem jsonEscapeFrom_eq (outlen pos : ℕ) (jin : CStr) :
    jsonEscapeFrom outlen pos jin = escapedText (escapedStart outlen pos jin) := by
  induction jin generalizing pos with
  | nil => rfl
  | cons uchar jin ih =>
    rw [jsonEscapeFrom, escapedStart]
    split_ifs with h
    · rfl
    · rw [ih, escapedText_cons]

theorem escapedStart_starts (outlen pos : ℕ) (jin : CStr) : escapedStart outlen pos jin <+: jin := by
  induction jin generalizing pos with
  | nil => exact List.nil_prefix
  | cons uchar jin ih =>
    rw [escapedStart]
    split_ifs with h
    · exact List.nil_prefix
    · exact (List.prefix_cons_inj uchar).mpr (ih _)

theorem escapedStart_fits {outlen pos : ℕ} (hpos : pos ≤ outlen) (jin : CStr) :
    pos + jsonEscapedLen (escapedStart outlen pos jin) ≤ outlen := by
  induction jin generalizing pos with
  | nil => exact hpos
  | cons uchar jin ih =>
    rw [escapedStart]
    split_ifs with h
    · exact hpos
    · rw [jsonEscapedLen_cons, ← Nat.add_assoc]
      exact ih (not_lt.mp h)

/-- Whatever start fits is part of it. -/
theorem escapedStart_longest {outlen pos : ℕ} {jin q : CStr} (hq : q <+: jin)
    (hfits : pos + jsonEscapedLen q ≤ outlen) : q <+: escapedStart outlen pos jin := by
  induction jin generalizing pos q with
  | nil => exact hq
  | cons uchar jin ih =>
    cases q with
    | nil => exact List.nil_prefix
    | cons c q =>
      obtain ⟨rfl, hq'⟩ := List.cons_prefix_cons.mp hq
      rw [jsonEscapedLen_cons, ← Nat.add_assoc] at hfits
      rw [escapedStart, if_neg (not_lt.mpr ((Nat.le_add_right _ _).trans hfits))]
      exact (List.prefix_cons_inj c).mpr (ih hq' hfits)

/-! ## A text of its own -/

/-- From a text of its own the loop writes what `jsonEscapeFrom` says. -/
theorem jsonEscapeLoop_apart (outlen : ℕ) (pre jin behind : CStr) {out : CStr × ℕ}
    (hpos : out.2 ≤ out.1.length) :
    jsonEscapeLoop (.apart (pre ++ (jin ++ behind))) outlen jin.length pre.length out =
      put out (jsonEscapeFrom outlen out.2 jin) := by
  induction jin generalizing pre out with
  | nil => exact (put_nil hpos).symm
  | cons uchar jin ih =>
    have hread : (pre ++ (uchar :: jin ++ behind))[pre.length]? = some uchar := by simp
    have hnext : pre ++ (uchar :: jin ++ behind) = (pre ++ [uchar]) ++ (jin ++ behind) := by simp
    rw [List.length_cons, jsonEscapeLoop, EscapeSource.bytes, hread, Exec.ofOption_some,
      Exec.bind_done, jsonEscapeFrom]
    by_cases hfit : outlen < out.2 + (escapedChar uchar).length
    · rw [if_pos hfit, if_pos hfit, put_nil hpos]
    · rw [if_neg hfit, if_neg hfit, put_append]
      cases hput : put out (escapedChar uchar) with
      | done next =>
        obtain ⟨buf, hstore, hbuf⟩ := Exec.bind_eq_done.mp hput
        obtain rfl : (buf, out.2 + (escapedChar uchar).length) = next := Exec.done.inj hbuf
        have hroom : Buffer.store out.1 out.2 (escapedChar uchar) = some buf := by
          cases hs : Buffer.store out.1 out.2 (escapedChar uchar) with
          | none =>
            rw [hs] at hstore
            cases hstore
          | some b =>
            rw [hs] at hstore
            exact congrArg some (Exec.done.inj hstore)
        rw [Exec.bind_done, Exec.bind_done, hnext]
        have hlen : (pre ++ [uchar]).length = pre.length + 1 := List.length_append
        rw [← hlen]
        refine ih (pre ++ [uchar]) ?_
        dsimp only
        rw [Buffer.length_store hroom]
        exact Buffer.le_of_store hroom
      | undefined => rfl
      | exhausted => rfl

/-- `json_escape` of a text that is not empty, into a buffer of its own. -/
theorem jsonEscapeInto_apart {jin : CStr} (hne : jin ≠ []) (behind jout : CStr) (outlen : ℕ) :
    jsonEscapeInto (.apart (jin ++ behind)) jin.length jout outlen =
      put (jout, 0) (jsonEscapeFrom outlen 0 jin) := by
  rw [jsonEscapeInto, if_neg (List.length_pos_iff.mpr hne).ne', Exec.bind_done]
  exact jsonEscapeLoop_apart outlen [] jin behind (Nat.zero_le _)

/-- What is put at the start of a buffer. -/
theorem put_zero {buf units : CStr} (h : units.length ≤ buf.length) :
    put (buf, 0) units = .done (units ++ buf.drop units.length, units.length) := by
  have hstore : Buffer.store buf 0 units = some (units ++ buf.drop units.length) := by
    rw [Buffer.store_eq_some (by rwa [Nat.zero_add]), List.take_zero, List.nil_append, Nat.zero_add]
  rw [put, hstore, Exec.ofOption_some, Exec.bind_done, Nat.zero_add]

/-- A text that is written is the escape of a start of the input, which a JSON reader has back, and
no longer start fits. -/
structure LongestStart (jin : CStr) (outlen : ℕ) (out p : CStr) : Prop where
  start : p <+: jin
  fits : out.length ≤ outlen
  denotes : ∀ rest, Json.string (out ++ Json.quote :: rest) = some (p, rest)
  longest : ∀ q, q <+: jin → (escapedText q).length ≤ outlen → q <+: p

/-- `json_escape` fills no more than the room, with the escape of the longest start that fits; that is
the whole text when the room is as long as is returned without a buffer. -/
theorem jsonEscapeInto_longest (uchar : UInt8) (jin room behind : CStr) :
    ∃ out p, jsonEscapeInto (.apart (uchar :: jin)) (uchar :: jin).length (room ++ behind)
        room.length = .done (out ++ (room.drop out.length ++ behind), out.length) ∧
      LongestStart (uchar :: jin) room.length out p ∧
      ∃ len, jsonEscapeNull (uchar :: jin) (uchar :: jin).length = .done len ∧
        (len ≤ room.length → out = escapedText (uchar :: jin) ∧ out.length = len) := by
  generalize hjin : uchar :: jin = text
  have hne : text ≠ [] := hjin ▸ List.cons_ne_nil uchar jin
  have hfits := escapedStart_fits (Nat.zero_le room.length) text
  have hrun := jsonEscapeInto_apart hne [] (room ++ behind) room.length
  rw [List.append_nil, jsonEscapeFrom_eq] at hrun
  rw [Nat.zero_add, ← length_escapedText] at hfits
  refine ⟨_, _, ?_, ⟨escapedStart_starts _ _ _, hfits, string_escapedText _, ?_⟩,
    jsonEscapedLen text, ?_, ?_⟩
  · rw [hrun, put_zero, List.drop_append_of_le_length hfits]
    rw [List.length_append]
    exact hfits.trans (Nat.le_add_right _ _)
  · intro q hq hlen
    refine escapedStart_longest hq ?_
    rwa [Nat.zero_add, ← length_escapedText]
  · have hload : Buffer.load text 0 text.length = some text := by
      rw [Buffer.load_eq_some (Nat.zero_add _).le, List.drop_zero, List.take_length]
    rw [jsonEscapeNull, if_neg (List.length_pos_iff.mpr hne).ne', Exec.bind_done, hload]
    rfl
  · intro hlen
    have hall : text <+: escapedStart room.length 0 text :=
      escapedStart_longest List.prefix_rfl (by rwa [Nat.zero_add])
    have hwhole : escapedStart room.length 0 text = text :=
      (escapedStart_starts _ _ _).eq_of_length_le hall.length_le
    rw [hwhole]
    exact ⟨rfl, length_escapedText text⟩

/-! ## A text in the buffer that is written -/

/-- The loop on a text in the buffer that it writes to.  What is written stays behind what is still
to be read, as every character that is left takes its room. -/
theorem jsonEscapeLoop_within {off outlen i pos : ℕ} {pre jin : CStr} (behind : CStr)
    (hi : off + i = pre.length) (hroom : pos + jsonEscapedLen jin ≤ (pre ++ jin).length)
    (hlen : (pre ++ jin).length ≤ outlen) (hpos : pos ≤ pre.length) :
    ∃ buf, jsonEscapeLoop (.within off) outlen jin.length i ((pre ++ jin) ++ behind, pos) =
        .done (buf ++ behind, pos + jsonEscapedLen jin) ∧ buf.length = (pre ++ jin).length ∧
      buf.take (pos + jsonEscapedLen jin) = pre.take pos ++ escapedText jin := by
  induction jin generalizing i pos pre with
  | nil =>
    refine ⟨pre ++ [], rfl, rfl, ?_⟩
    rw [List.append_nil, escapedText_nil, List.append_nil]
    rfl
  | cons uchar jin ih =>
    have hread : (((pre ++ uchar :: jin) ++ behind).drop off)[i]? = some uchar := by
      rw [List.getElem?_drop, hi]
      simp
    have hleft := le_jsonEscapedLen jin
    rw [jsonEscapedLen_cons, ← Nat.add_assoc] at hroom
    have hbehind : pos + (escapedChar uchar).length ≤ (pre ++ [uchar]).length := by
      simp only [List.length_append, List.length_cons] at hroom ⊢
      omega
    obtain ⟨front, hstore⟩ := Buffer.exists_store (pre ++ [uchar]) pos (escapedChar uchar) hbehind
    have hfront := Buffer.length_store hstore
    have htake := Buffer.take_store hstore
    rw [List.take_append_of_le_length hpos] at htake
    have hput : put ((pre ++ uchar :: jin) ++ behind, pos) (escapedChar uchar) =
        .done ((front ++ jin) ++ behind, pos + (escapedChar uchar).length) := by
      have hsplit : (pre ++ uchar :: jin) ++ behind = (pre ++ [uchar]) ++ (jin ++ behind) := by simp
      rw [put, hsplit, Buffer.store_append hbehind, hstore, List.append_assoc front]
      rfl
    have htotal : (front ++ jin).length = (pre ++ uchar :: jin).length := by
      rw [List.length_append, hfront]
      simp
      omega
    rw [List.length_append, List.length_singleton] at hfront
    obtain ⟨buf, hrun, hsize, hbuf⟩ := @ih (i + 1) (pos + (escapedChar uchar).length) front
      (by omega) (htotal ▸ hroom) (htotal ▸ hlen) (by simpa [hfront] using hbehind)
    refine ⟨buf, ?_, hsize.trans htotal, ?_⟩
    · rw [List.length_cons, jsonEscapeLoop, EscapeSource.bytes, hread, Exec.ofOption_some,
        Exec.bind_done, if_neg (not_lt.mpr ?_), hput, Exec.bind_done, hrun, jsonEscapedLen_cons,
        Nat.add_assoc]
      exact (Nat.le_add_right _ _).trans (hroom.trans hlen)
    · rw [jsonEscapedLen_cons, ← Nat.add_assoc, hbuf, htake, escapedText_cons, List.append_assoc]

/-- A string that is moved to the end of its room, where it has nothing in common with itself. -/
theorem copy_str {str room : CStr} (behind : CStr) (h : str.length ≤ room.length) :
    ∃ pre, Buffer.copy ((str ++ room) ++ behind) room.length 0 str.length =
      some ((pre ++ str) ++ behind) ∧ pre.length = room.length := by
  have hload : Buffer.load ((str ++ room) ++ behind) 0 str.length = some str := by
    rw [Buffer.load_eq_some (by simp), List.drop_zero, List.append_assoc, List.take_left]
  have hle : room.length + str.length ≤ (str ++ room).length := by
    rw [List.length_append, Nat.add_comm]
  refine ⟨(str ++ room).take room.length, ?_, ?_⟩
  · rw [Buffer.copy, if_neg (by omega), hload, Option.bind_some, Buffer.store_append hle,
      Buffer.store_eq_some hle, Nat.add_comm, ← List.length_append, List.drop_length,
      List.append_nil]
    rfl
  · rw [List.length_take, List.length_append]
    omega

/-- `json_escape_overlapping` of a string that is not empty, in twice its room. -/
theorem jsonEscapeOverlapping_eq {str room : CStr} (behind : CStr) (hne : str ≠ [])
    (hroom : str.length ≤ room.length) (hfits : jsonEscapedLen str ≤ (str ++ room).length) :
    ∃ buf, jsonEscapeOverlapping ((str ++ room) ++ behind) str.length (str ++ room).length =
        .done (buf ++ behind, jsonEscapedLen str) ∧ buf.length = (str ++ room).length ∧
      buf.take (jsonEscapedLen str) = escapedText str := by
  have hoff : (str ++ room).length - str.length = room.length := by
    rw [List.length_append, Nat.add_sub_cancel_left]
  have hle : ¬(str ++ room).length < str.length := by
    rw [List.length_append]
    omega
  obtain ⟨pre, hcopy, hpre⟩ := copy_str behind hroom
  have htotal : (pre ++ str).length = (str ++ room).length := by
    rw [List.length_append, List.length_append, hpre, Nat.add_comm]
  obtain ⟨buf, hrun, hsize, hbuf⟩ := @jsonEscapeLoop_within room.length (str ++ room).length 0 0 pre
    str behind (by rw [hpre]; rfl) (by rw [Nat.zero_add, htotal]; exact hfits) htotal.le
    (Nat.zero_le _)
  rw [Nat.zero_add] at hrun hbuf
  refine ⟨buf, ?_, hsize.trans htotal, hbuf⟩
  rw [jsonEscapeOverlapping, if_neg hle, hoff, hcopy, Exec.ofOption_some, Exec.bind_done,
    jsonEscapeInto, if_neg (List.length_pos_iff.mpr hne).ne', Exec.bind_done, hrun]

/-- A string at the start of a buffer with room for its escaped form. -/
structure HeldString where
  str : CStr
  room : CStr
  fits : jsonEscapedLen str ≤ (str ++ room).length

namespace HeldString

variable (b : HeldString)

/-- What `json_escape_overlapping` leaves in the buffer is what `json_escape` makes of a copy of the
string elsewhere, with its terminator. -/
def EscapedInPlace : Prop :=
  ∃ apart buf n,
    jsonEscapeInto (.apart (b.str ++ [0])) b.str.length (b.str ++ b.room) (b.str ++ b.room).length =
      .done (apart, n) ∧
    jsonEscapeOverlapping (b.str ++ b.room) b.str.length (b.str ++ b.room).length = .done (buf, n) ∧
    buf.take n = apart.take n

/-- That is so when the string is not empty and its copy at the end of the buffer has nothing in
common with it. -/
theorem escapedInPlace_iff :
    b.EscapedInPlace ↔ b.str ≠ [] ∧ b.str.length ≤ b.room.length := by
  have hoff : (b.str ++ b.room).length - b.str.length = b.room.length := by
    rw [List.length_append, Nat.add_sub_cancel_left]
  have hle : ¬(b.str ++ b.room).length < b.str.length := by
    rw [List.length_append]
    omega
  constructor
  · rintro ⟨apart, buf, n, -, hrun, -⟩
    rw [jsonEscapeOverlapping, if_neg hle] at hrun
    obtain ⟨str, hcopy, hrun⟩ := Exec.bind_eq_done.mp hrun
    constructor
    · intro hnil
      -- an empty string is taken for one with a terminator, which is looked for behind the buffer
      rw [hnil] at hcopy hrun
      have hstr : str = b.room := by
        rw [Buffer.copy, if_neg (by simp), Buffer.load_eq_some (by simp), Option.bind_some,
          Buffer.store_eq_some (by simp)] at hcopy
        simpa using (Exec.done.inj hcopy).symm
      rw [jsonEscapeInto, List.length_nil, if_pos rfl, EscapeSource.bytes, hstr, List.nil_append,
        Nat.sub_zero, List.drop_length] at hrun
      cases hrun
    · by_contra hlt
      have hnone : Buffer.copy (b.str ++ b.room) ((b.str ++ b.room).length - b.str.length) 0
          b.str.length = none := by
        rw [Buffer.copy, if_pos (by omega)]
      rw [hnone] at hcopy
      cases hcopy
  · rintro ⟨hne, hroom⟩
    have hfits := b.fits
    obtain ⟨buf, hrun, -, hbuf⟩ := jsonEscapeOverlapping_eq [] hne hroom hfits
    rw [List.append_nil, List.append_nil] at hrun
    have hall : escapedStart (b.str ++ b.room).length 0 b.str = b.str :=
      (escapedStart_starts _ _ _).eq_of_length_le
        (escapedStart_longest List.prefix_rfl (by rwa [Nat.zero_add])).length_le
    have happart := jsonEscapeInto_apart hne [0] (b.str ++ b.room) (b.str ++ b.room).length
    rw [jsonEscapeFrom_eq, hall, put_zero (by rwa [length_escapedText]), length_escapedText]
      at happart
    refine ⟨_, buf, jsonEscapedLen b.str, happart, hrun, ?_⟩
    rw [hbuf, List.take_left' (length_escapedText _)]

/-- The terminator of the empty string is looked for behind the buffer. -/
theorem not_escapedInPlace_empty : ¬(⟨[], [0x61, 0], by decide⟩ : HeldString).EscapedInPlace := by
  rintro ⟨apart, buf, n, -, hrun, -⟩
  cases hrun

end HeldString

end EsOdbc
