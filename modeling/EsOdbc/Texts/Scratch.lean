import EsOdbc.Lib.Listing
import EsOdbc.Lib.Run
import EsOdbc.Lib.Utf
import EsOdbc.Texts.Integers
import EsOdbc.Texts.JsonEscape

/-!
# Texts of an answer in UTF-16

`cbor_value_get_utf16_wstr` with its buffers (`tinycbor.c`).  Each thread has one for the units, and
one for a string in several chunks; they are listed together, to be freed when the driver is unloaded.
There is memory for what is asked for.
-/

namespace EsOdbc

/-! ## The source -/

/-- A string of the driver: its count, and its memory by address. -/
structure Pad (α : Type) where
  cnt : ℕ
  block : Option (ℕ × List α)

/-- What is written into the memory of a string. -/
def Pad.fill {α : Type} (buff : Pad α) (units : List α) : Pad α :=
  { buff with block := buff.block.map fun b ↦ (b.1, units) }

/-- The static strings of the threads, and `utf_buffs`. -/
structure Scratch where
  wbuff : ℕ → Pad UInt16
  cbuff : ℕ → Pad UInt8
  utfBuffs : List ℕ

/-- They start without memory; `wbuff.cnt` is `(size_t)-1`. -/
def Scratch.initial : Scratch := ⟨fun _ ↦ ⟨2 ^ 64 - 1, none⟩, fun _ ↦ ⟨0, none⟩, []⟩

/-- Where memory is given: at an address that is not in use. -/
structure Allocator where
  pick : List ℕ → ℕ
  fresh : ∀ used, pick used ∉ used

/-- `enlist_utf_buffer`. -/
def enlistUtfBuffer (utfBuffs : List ℕ) (old : Option ℕ) (new : ℕ) : Option (List ℕ) :=
  match old with
  | none => some (utfBuffs ++ [new])
  | some old => if old ∈ utfBuffs then some (utfBuffs.replace old new) else none

/-- The doubling of `enlarge_buffer`.  After so many steps it is zero, and never ends. -/
def enlargedCnt : ℕ → ℕ → ℕ → Exec ℕ
  | 0, _, _ => .exhausted
  | steps + 1, cnt, newCnt =>
    if cnt ≤ newCnt then enlargedCnt steps (cnt * 2 % 2 ^ 64) newCnt else .done cnt

/-- `enlarge_buffer`.  What is in the new memory is not read. -/
def enlargeBuffer {α : Type} [Zero α] (a : Allocator) (utfBuffs : List ℕ) (buff : Pad α)
    (newCnt : ℕ) : Exec (Option (Pad α × List ℕ)) :=
  (enlargedCnt 64 (if 0 < buff.cnt ∧ buff.cnt < 2 ^ 64 - 1 then buff.cnt else esodbcBodyBufStartSize)
      newCnt).bind fun cnt ↦
    let old := buff.block.map Prod.fst
    -- the memory that is left can be given again
    let new := a.pick (utfBuffs.filter fun p ↦ decide (some p ≠ old))
    .done ((enlistUtfBuffer utfBuffs old new).map fun utfBuffs ↦
      (⟨cnt, some (new, List.replicate cnt 0)⟩, utfBuffs))

/-- What `MultiByteToWideChar` returns, what it leaves in the destination, and whether the last error
is `ERROR_INSUFFICIENT_BUFFER`. -/
structure WideConversion where
  n : ℕ
  dst : List UInt16
  ebuff : Bool

/-- `U8MB_TO_U16WC`: the counts are cast to `int`, of which -1 is that of a text with its terminator.
The conversion is strict, and one without a count of units is not made. -/
def u8mbToU16wcInto (mbStr : CStr) (mbCnt : ℕ) (dst : Option (List UInt16)) (dstCnt : ℕ) :
    Exec WideConversion :=
  let failed : WideConversion := ⟨0, dst.getD [], false⟩
  if intOf mbCnt = 0 ∨ intOf mbCnt < -1 ∨ intOf dstCnt < 0 then .done failed
  else
    (if intOf mbCnt = -1 then (ntsLen mbStr).bind fun k ↦ .done (k + 1)
      else .done (intOf mbCnt).toNat).bind fun k ↦
    (Exec.ofOption (Buffer.load mbStr 0 k)).bind fun bytes ↦
      match (Utf.utf8Decode bytes).map Utf.utf16 with
      | none => .done failed
      | some units =>
        if 2 ^ 31 ≤ units.length then .done failed
        else if intOf dstCnt = 0 then .done ⟨units.length, dst.getD [], false⟩
        else if intOf dstCnt < units.length then .done ⟨0, dst.getD [], true⟩
        else (Exec.ofOption dst).bind fun buf ↦
          (Exec.ofOption (Buffer.store buf 0 units)).bind fun buf ↦ .done ⟨units.length, buf, false⟩

/-- The errors of the function. -/
inductive Utf16Error where
  | invalidUtf8TextString
  | outOfMemory
deriving DecidableEq, Repr

/-- A text string: in one chunk, with what is behind it in the answer, or in several.  No memory has
as many bytes as are left out. -/
inductive CborText where
  | chunk (bytes behind : CStr)
  | chunks (parts : List CStr) (fits : parts.flatten.length < 2 ^ 63)

namespace CborText

def bytes : CborText → CStr
  | .chunk bytes _ => bytes
  | .chunks parts _ => parts.flatten

end CborText

namespace Scratch

variable (a : Allocator) (t : ℕ)

/-- A thread's buffer for units, and the list. -/
def putWide (buff : Pad UInt16) (utfBuffs : List ℕ) (s : Scratch) : Scratch :=
  ⟨Function.update s.wbuff t buff, s.cbuff, utfBuffs⟩

/-- A thread's buffer for bytes, and the list. -/
def putNarrow (buff : Pad UInt8) (utfBuffs : List ℕ) (s : Scratch) : Scratch :=
  ⟨s.wbuff, Function.update s.cbuff t buff, utfBuffs⟩

/-- A thread's buffer for units is enlarged. -/
def enlargeWide (newCnt : ℕ) (s : Scratch) : Exec (Option Scratch) :=
  (enlargeBuffer a s.utfBuffs (s.wbuff t) newCnt).bind fun r ↦
    .done (r.map fun r ↦ putWide t r.1 r.2 s)

/-- A thread's buffer for bytes is. -/
def enlargeNarrow (newCnt : ℕ) (s : Scratch) : Exec (Option Scratch) :=
  (enlargeBuffer a s.utfBuffs (s.cbuff t) newCnt).bind fun r ↦
    .done (r.map fun r ↦ putNarrow t r.1 r.2 s)

/-- What is in the buffer for units. -/
def units (s : Scratch) : Option (List UInt16) := (s.wbuff t).block.map Prod.snd

/-- Units in it. -/
def setUnits (units : List UInt16) (s : Scratch) : Scratch :=
  putWide t ((s.wbuff t).fill units) s.utfBuffs s

/-- Bytes in the other. -/
def setBytes (bytes : List UInt8) (s : Scratch) : Scratch :=
  putNarrow t ((s.cbuff t).fill bytes) s.utfBuffs s

/-- The string to convert and its count: a chunk of the answer, or a copy with a terminator, if there
is room for that. -/
def mbStr (x : CborText) (s : Scratch) : Exec (Option ((CStr × ℕ) × Scratch)) :=
  match x with
  | .chunk bytes behind => .done (some ((bytes ++ behind, bytes.length), s))
  | .chunks parts _ =>
    let text := parts.flatten
    (if (s.cbuff t).cnt ≤ text.length then enlargeNarrow a t text.length s else .done (some s)).bind
      fun r ↦ r.elim (.done none) fun s ↦
        (Exec.ofOption ((s.cbuff t).block.map Prod.snd)).bind fun buf ↦
        (Exec.ofOption (Buffer.store buf 0
          (if text.length < (s.cbuff t).cnt then text ++ [0] else text))).bind fun buf ↦
          .done (some ((buf, text.length), setBytes t buf s))

/-- The conversion, tried again with more room. -/
def convert (mb : CStr × ℕ) : ℕ → Scratch → Exec (Except Utf16Error ℕ × Scratch)
  | 0, _ => .exhausted
  | tries + 1, s =>
    let enlarged (n : ℕ) (s : Scratch) := (enlargeWide a t n s).bind fun r ↦
      r.elim (.done (.error .outOfMemory, s)) (convert mb tries)
    (u8mbToU16wcInto mb.1 mb.2 (units t s) (s.wbuff t).cnt).bind fun r ↦
      let s := setUnits t r.dst s
      if 0 < r.n then .done (.ok r.n, s)
      else if mb.2 ≠ 0 then
        if r.ebuff = false ∧ (s.wbuff t).block.isSome then .done (.error .invalidUtf8TextString, s)
        else (u8mbToU16wcInto mb.1 mb.2 none 0).bind fun need ↦ enlarged need.n s
      else if (s.wbuff t).block.isSome then .done (.ok 0, s)
      else enlarged 0 s

/-- `cbor_value_get_utf16_wstr`: the string in the buffer, behind which a terminator is set. -/
def getUtf16Wstr (x : CborText) (s : Scratch) : Exec (Except Utf16Error WStr × Scratch) :=
  (mbStr a t x s).bind fun mb ↦ mb.elim (.done (.error .outOfMemory, s)) fun mb ↦
    (convert a t mb.1 3 mb.2).bind fun r ↦
      match r.1 with
      | .error e => .done (.error e, r.2)
      | .ok n =>
        (Exec.ofOption (units t r.2)).bind fun buf ↦
          (Exec.ofOption (Buffer.store buf n [0])).bind fun buf ↦ .done (.ok (buf.take n), setUnits t buf r.2)

end Scratch

/-! ## Growth -/

/-- The doubling of a power of two ends at the first one above the need. -/
theorem enlargedCnt_pow {steps j need : ℕ} (hneed : need < 2 ^ 63) (hj : j ≤ 63)
    (hsteps : 63 < j + steps) : ∃ k, j ≤ k ∧ k ≤ 63 ∧ enlargedCnt steps (2 ^ j) need = .done (2 ^ k) ∧
      need < 2 ^ k ∧ (k = j ∨ 2 ^ k ≤ 2 * need) := by
  induction steps generalizing j with
  | zero => exact absurd hsteps (not_lt.mpr hj)
  | succ steps ih =>
    rw [enlargedCnt]
    by_cases hle : 2 ^ j ≤ need
    · have hlt : j < 63 := (Nat.pow_lt_pow_iff_right (by norm_num)).mp (hle.trans_lt hneed)
      have hpow : 2 ^ (j + 1) = 2 ^ j * 2 := pow_succ 2 j
      have hmod : 2 ^ j * 2 % 2 ^ 64 = 2 ^ (j + 1) := by
        rw [← hpow]
        exact Nat.mod_eq_of_lt (Nat.pow_lt_pow_right (by norm_num) (by omega))
      obtain ⟨k, hjk, hk, hrun, hneed', hleast⟩ := @ih (j + 1) (by omega) (by omega)
      rw [if_pos hle, hmod]
      refine ⟨k, by omega, hk, hrun, hneed', .inr ?_⟩
      obtain rfl | hleast := hleast
      · rw [hpow]
        omega
      · exact hleast
    · rw [if_neg hle]
      exact ⟨j, le_rfl, hj, rfl, not_le.mp hle, .inl rfl⟩

section Pad

variable {α : Type}

/-- A string without memory, and with the count it starts with, or one of a power of two. -/
inductive PadOk (start top : ℕ) : Pad α → Prop where
  | empty : PadOk start top ⟨start, none⟩
  | held {p j : ℕ} {us : List α} (hlen : us.length = 2 ^ j) (hlo : 12 ≤ j) (hhi : j ≤ top) :
      PadOk start top ⟨2 ^ j, some (p, us)⟩

theorem PadOk.fill {start top : ℕ} {buff : Pad α} (h : PadOk start top buff) {us : List α}
    (hus : ∀ b ∈ buff.block, us.length = b.2.length) : PadOk start top (buff.fill us) := by
  cases h with
  | empty => exact .empty
  | held hlen hlo hhi => exact .held ((hus _ rfl).trans hlen) hlo hhi

variable [Zero α] {Ω : Type} [DecidableEq Ω] {owned : Ω → Option ℕ} {utfBuffs : List ℕ} {o : Ω}

/-- An enlarged string has more units than are needed, and is listed in its place. -/
theorem enlargeBuffer_spec (a : Allocator) {start top need : ℕ} {buff : Pad α}
    (hlisted : Listing.Listed owned utfBuffs) (ho : owned o = buff.block.map Prod.fst)
    (hok : PadOk start top buff) (hnone : start = 0 ∨ start = 2 ^ 64 - 1) (htop : 12 ≤ top) (htop' : top ≤ 63)
    (hneed : need < 2 ^ top) :
    ∃ k p utfBuffs', enlargeBuffer a utfBuffs buff need =
        .done (some (⟨2 ^ k, some (p, List.replicate (2 ^ k) 0)⟩, utfBuffs')) ∧
      12 ≤ k ∧ k ≤ top ∧ need < 2 ^ k ∧ (k = 12 ∨ 2 ^ k ≤ 2 * need ∨ buff.cnt = 2 ^ k) ∧
      Listing.Listed (Function.update owned o (some p)) utfBuffs' := by
  have hneed' : need < 2 ^ 63 := hneed.trans_le (Nat.pow_le_pow_right (by norm_num) htop')
  have hbound {j k : ℕ} (hj : j ≤ top) (hleast : k = j ∨ 2 ^ k ≤ 2 * need) : k ≤ top := by
    obtain rfl | hleast := hleast
    · exact hj
    · have hlt : 2 ^ k < 2 ^ (top + 1) := by
        rw [pow_succ]
        omega
      exact Nat.lt_succ_iff.mp ((Nat.pow_lt_pow_iff_right (by norm_num)).mp hlt)
  cases hok with
  | empty =>
    have hstart : (if 0 < start ∧ start < 2 ^ 64 - 1 then start else esodbcBodyBufStartSize) = 2 ^ 12 := by
      rw [if_neg (by omega)]
      rfl
    obtain ⟨k, hlo, -, hrun, hlt, hleast⟩ := @enlargedCnt_pow 64 12 need hneed' (by norm_num) (by norm_num)
    obtain ⟨new, hnew⟩ : ∃ new, a.pick (utfBuffs.filter fun q ↦ decide (some q ≠ none)) = new := ⟨_, rfl⟩
    refine ⟨k, new, utfBuffs ++ [new], ?_, hlo, hbound htop hleast, hlt, hleast.imp_right .inl, ?_⟩
    · unfold enlargeBuffer
      rw [hstart, hrun, ← hnew]
      rfl
    · refine hlisted.insert ho fun hmem ↦ ?_
      rw [← hnew] at hmem
      exact a.fresh _ (List.mem_filter.mpr ⟨hmem, decide_eq_true nofun⟩)
  | @held p j us hlen hlo hhi =>
    have hpos : 0 < 2 ^ j := Nat.pow_pos (by norm_num)
    have hbig : 2 ^ j ≤ 2 ^ 63 := Nat.pow_le_pow_right (by norm_num) (hhi.trans htop')
    have hstart : (if 0 < 2 ^ j ∧ 2 ^ j < 2 ^ 64 - 1 then 2 ^ j else esodbcBodyBufStartSize) = 2 ^ j :=
      if_pos ⟨hpos, by omega⟩
    obtain ⟨k, hjk, -, hrun, hlt, hleast⟩ := @enlargedCnt_pow 64 j need hneed' (hhi.trans htop') (by omega)
    have hold : p ∈ utfBuffs := (hlisted.mem_iff p).mpr ⟨o, ho⟩
    obtain ⟨new, hnew⟩ : ∃ new, a.pick (utfBuffs.filter fun q ↦ decide (some q ≠ some p)) = new :=
      ⟨_, rfl⟩
    refine ⟨k, new, utfBuffs.replace p new, ?_, hlo.trans hjk, hbound hhi hleast, hlt, ?_, ?_⟩
    · unfold enlargeBuffer
      rw [hstart, hrun, Exec.bind_done]
      dsimp only
      rw [Option.map_some, enlistUtfBuffer]
      dsimp only
      rw [if_pos hold, ← hnew]
      rfl
    · obtain rfl | hleast := hleast
      · exact .inr (.inr rfl)
      · exact .inr (.inl hleast)
    · refine hlisted.replace ho fun hmem ↦ ?_
      by_contra hne
      rw [← hnew] at hmem hne
      exact a.fresh _ (List.mem_filter.mpr ⟨hmem, decide_eq_true fun h ↦ hne (Option.some.inj h)⟩)

end Pad

/-! ## The buffers of all threads -/

namespace Scratch

/-- The address of a buffer: one for units, or one for bytes. -/
def addr (s : Scratch) : ℕ ⊕ ℕ → Option ℕ
  | .inl t => (s.wbuff t).block.map Prod.fst
  | .inr t => (s.cbuff t).block.map Prod.fst

/-- Every buffer that has memory is listed once, and no two have the same; the count of a buffer for
units is kept by a `DWORD`. -/
structure Inv (s : Scratch) : Prop where
  listed : Listing.Listed s.addr s.utfBuffs
  wide (t : ℕ) : PadOk (2 ^ 64 - 1) 31 (s.wbuff t)
  narrow (t : ℕ) : PadOk 0 63 (s.cbuff t)

theorem initial_inv : initial.Inv where
  listed := by
    have haddr : initial.addr = fun _ ↦ none := by
      funext o
      cases o
      · rfl
      · rfl
    rw [haddr]
    exact Listing.listed_nil
  wide _ := .empty
  narrow _ := .empty

variable {a : Allocator} {t need : ℕ} {s s' : Scratch}

theorem addr_putWide (buff : Pad UInt16) (l : List ℕ) :
    (putWide t buff l s).addr = Function.update s.addr (.inl t) (buff.block.map Prod.fst) := by
  funext o
  cases o with
  | inl t' =>
    by_cases ht : t' = t
    · subst ht
      rw [Function.update_self]
      simp only [addr, putWide, Function.update_self]
    · rw [Function.update_of_ne (fun h ↦ ht (Sum.inl.inj h))]
      simp only [addr, putWide, Function.update_of_ne ht]
  | inr t' =>
    rw [Function.update_of_ne Sum.inr_ne_inl]
    rfl

theorem addr_putNarrow (buff : Pad UInt8) (l : List ℕ) :
    (putNarrow t buff l s).addr = Function.update s.addr (.inr t) (buff.block.map Prod.fst) := by
  funext o
  cases o with
  | inl t' =>
    rw [Function.update_of_ne Sum.inl_ne_inr]
    rfl
  | inr t' =>
    by_cases ht : t' = t
    · subst ht
      rw [Function.update_self]
      simp only [addr, putNarrow, Function.update_self]
    · rw [Function.update_of_ne (fun h ↦ ht (Sum.inr.inj h))]
      simp only [addr, putNarrow, Function.update_of_ne ht]

theorem map_fst_fill {α : Type} (buff : Pad α) (us : List α) :
    (buff.fill us).block.map Prod.fst = buff.block.map Prod.fst := by
  rw [Pad.fill, Option.map_map]
  rfl

theorem addr_setUnits (us : List UInt16) : (setUnits t us s).addr = s.addr := by
  rw [setUnits, addr_putWide, map_fst_fill]
  exact Function.update_eq_self (.inl t) s.addr

theorem addr_setBytes (us : List UInt8) : (setBytes t us s).addr = s.addr := by
  rw [setBytes, addr_putNarrow, map_fst_fill]
  exact Function.update_eq_self (.inr t) s.addr

theorem forall_update {β : Type} {P : β → Prop} {f : ℕ → β} (hf : ∀ t, P (f t)) {b : β} (hb : P b)
    (t t' : ℕ) : P (Function.update f t b t') := by
  by_cases ht : t' = t
  · rw [ht, Function.update_self]
    exact hb
  · rw [Function.update_of_ne ht]
    exact hf t'

/-- A buffer for units is enlarged to a power of two above the need. -/
theorem enlargeWide_spec (a : Allocator) (t : ℕ) (h : s.Inv) (hneed : need < 2 ^ 31) :
    ∃ s' k p us, enlargeWide a t need s = .done (some s') ∧ s'.Inv ∧
      s'.wbuff t = ⟨2 ^ k, some (p, us)⟩ ∧ us.length = 2 ^ k ∧ k ≤ 31 ∧ need < 2 ^ k ∧
      (k = 12 ∨ 2 ^ k ≤ 2 * need ∨ (s.wbuff t).cnt = 2 ^ k) := by
  obtain ⟨k, p, l, hrun, hlo, hhi, hlt, hleast, hlisted⟩ := enlargeBuffer_spec a h.listed
    (o := .inl t) rfl (h.wide t) (.inr rfl) (by norm_num) (by norm_num) hneed
  refine ⟨putWide t ⟨2 ^ k, some (p, List.replicate (2 ^ k) 0)⟩ l s, k, p, List.replicate (2 ^ k) 0,
    ?_, ⟨?_, ?_, h.narrow⟩, Function.update_self .., List.length_replicate, hhi, hlt, hleast⟩
  · rw [enlargeWide, hrun]
    rfl
  · rw [addr_putWide]
    exact hlisted
  · exact forall_update h.wide (.held List.length_replicate hlo hhi) t

/-- And one for bytes. -/
theorem enlargeNarrow_spec (a : Allocator) (t : ℕ) (h : s.Inv) (hneed : need < 2 ^ 63) :
    ∃ s' k p us, enlargeNarrow a t need s = .done (some s') ∧ s'.Inv ∧ s'.wbuff = s.wbuff ∧
      s'.cbuff t = ⟨2 ^ k, some (p, us)⟩ ∧ us.length = 2 ^ k ∧ need < 2 ^ k := by
  obtain ⟨k, p, l, hrun, hlo, hhi, hlt, -, hlisted⟩ := enlargeBuffer_spec a h.listed
    (o := .inr t) rfl (h.narrow t) (.inl rfl) (by norm_num) le_rfl hneed
  refine ⟨putNarrow t ⟨2 ^ k, some (p, List.replicate (2 ^ k) 0)⟩ l s, k, p, List.replicate (2 ^ k) 0,
    ?_, ⟨?_, h.wide, ?_⟩, rfl, Function.update_self .., List.length_replicate, hlt⟩
  · rw [enlargeNarrow, hrun]
    rfl
  · rw [addr_putNarrow]
    exact hlisted
  · exact forall_update h.narrow (.held List.length_replicate hlo hhi) t

/-- Units of the length there is are written. -/
theorem Inv.setUnits (h : s.Inv) {us : List UInt16}
    (hus : ∀ b ∈ (s.wbuff t).block, us.length = b.2.length) :
    (setUnits t us s).Inv where
  listed := by
    rw [addr_setUnits]
    exact h.listed
  wide := forall_update h.wide ((h.wide t).fill hus) t
  narrow := h.narrow

theorem Inv.setBytes (h : s.Inv) {us : List UInt8}
    (hus : ∀ b ∈ (s.cbuff t).block, us.length = b.2.length) :
    (setBytes t us s).Inv where
  listed := by
    rw [addr_setBytes]
    exact h.listed
  wide := h.wide
  narrow := forall_update h.narrow ((h.narrow t).fill hus) t

/-- The string to convert stands where it is read, with its count. -/
theorem mbStr_spec (a : Allocator) (t : ℕ) (x : CborText) (h : s.Inv) :
    ∃ s' behind, mbStr a t x s = .done (some ((x.bytes ++ behind, x.bytes.length), s')) ∧ s'.Inv ∧
      s'.wbuff = s.wbuff := by
  cases x with
  | chunk bytes behind => exact ⟨s, behind, rfl, h, rfl⟩
  | chunks parts fits =>
    obtain ⟨s₁, k, p, us, hrun, hinv, hwide, hpad, hlen, hlt⟩ : ∃ s₁ k p us,
        (if (s.cbuff t).cnt ≤ parts.flatten.length then enlargeNarrow a t parts.flatten.length s
          else .done (some s)) = .done (some s₁) ∧ s₁.Inv ∧ s₁.wbuff = s.wbuff ∧
        s₁.cbuff t = ⟨2 ^ k, some (p, us)⟩ ∧ us.length = 2 ^ k ∧ parts.flatten.length < 2 ^ k := by
      by_cases hle : (s.cbuff t).cnt ≤ parts.flatten.length
      · rw [if_pos hle]
        exact enlargeNarrow_spec a t h fits
      · rw [if_neg hle]
        have hok := h.narrow t
        generalize hpad : s.cbuff t = buff at hok hle
        cases hok with
        | empty => exact absurd (Nat.zero_le _) hle
        | @held p j us hlen hlo hhi => exact ⟨s, j, p, us, rfl, h, rfl, hpad, hlen, not_le.mp hle⟩
    have hfits : 0 + (parts.flatten ++ [0]).length ≤ us.length := by
      rw [List.length_append, List.length_singleton, hlen]
      omega
    obtain ⟨buf, hstore⟩ := Buffer.exists_store us 0 (parts.flatten ++ [0]) hfits
    have htake := Buffer.take_store hstore
    rw [Nat.zero_add, List.take_zero, List.nil_append] at htake
    have hbuf : parts.flatten ++ ([0] ++ buf.drop (parts.flatten ++ [0]).length) = buf := by
      rw [← List.append_assoc]
      nth_rewrite 1 [← htake]
      exact List.take_append_drop ..
    refine ⟨setBytes t buf s₁, [0] ++ buf.drop (parts.flatten ++ [0]).length, ?_,
      hinv.setBytes fun b hb ↦ ?_, hwide⟩
    · rw [mbStr]
      rw [hrun, Exec.bind_done, Option.elim_some, hpad, if_pos hlt, Option.map_some, Exec.ofOption_some,
        Exec.bind_done, hstore, Exec.ofOption_some, Exec.bind_done, CborText.bytes, hbuf]
    · rw [hpad] at hb
      obtain rfl := Option.some.inj hb
      exact Buffer.length_store hstore

/-! ## The conversion -/

section Conversion

variable {mb : CStr} {mbCnt dstCnt : ℕ} {dst : Option (List UInt16)} {r : WideConversion}
  {chars : List Char}

theorem intOf_natCast {n : ℕ} (h : n < 2 ^ 31) : intOf n = n := by
  rw [intOf, Int.bmod_eq_of_le]
  · omega
  · omega

theorem u8mbToU16wcInto_neg (h : intOf dstCnt < 0) :
    u8mbToU16wcInto mb mbCnt dst dstCnt = .done ⟨0, dst.getD [], false⟩ := by
  unfold u8mbToU16wcInto
  exact if_pos (.inr (.inr h))

theorem u8mbToU16wcInto_zero : u8mbToU16wcInto mb 0 dst dstCnt = .done ⟨0, dst.getD [], false⟩ := by
  unfold u8mbToU16wcInto
  exact if_pos (.inl rfl)

/-- What is converted fits the units that are counted, and no unit is added to those there are. -/
theorem u8mbToU16wcInto_spec (h : u8mbToU16wcInto mb mbCnt dst dstCnt = .done r) :
    r.dst.length = (dst.getD []).length ∧ r.n < 2 ^ 31 ∧
      (0 < r.n → intOf dstCnt = 0 ∨ (r.n : ℤ) ≤ intOf dstCnt) := by
  have hfailed {b : Bool} (hr : (⟨0, dst.getD [], b⟩ : WideConversion) = r) :
      r.dst.length = (dst.getD []).length ∧ r.n < 2 ^ 31 ∧
        (0 < r.n → intOf dstCnt = 0 ∨ (r.n : ℤ) ≤ intOf dstCnt) := by
    subst hr
    exact ⟨rfl, by norm_num, fun hpos ↦ absurd hpos (lt_irrefl 0)⟩
  unfold u8mbToU16wcInto at h
  split at h
  · exact hfailed (Exec.done.inj h)
  · obtain ⟨k, -, h⟩ := Exec.bind_eq_done.mp h
    obtain ⟨bytes, -, h⟩ := Exec.bind_eq_done.mp h
    split at h
    · exact hfailed (Exec.done.inj h)
    · rename_i units _
      split at h
      · exact hfailed (Exec.done.inj h)
      · rename_i hunits
        split at h
        · rename_i hzero
          obtain rfl := Exec.done.inj h
          exact ⟨rfl, not_le.mp hunits, fun _ ↦ .inl hzero⟩
        · split at h
          · exact hfailed (Exec.done.inj h)
          · rename_i hfits
            obtain ⟨buf, hbuf, h⟩ := Exec.bind_eq_done.mp h
            obtain ⟨buf', hstore, h⟩ := Exec.bind_eq_done.mp h
            obtain rfl := Exec.done.inj h
            rw [Exec.ofOption_eq_done hbuf]
            exact ⟨Buffer.length_store (Exec.ofOption_eq_done hstore), not_le.mp hunits,
              fun _ ↦ .inr (not_lt.mp hfits)⟩

/-- A text whose count is an `int` is converted where its units are counted. -/
theorem u8mbToU16wcInto_text (hne : chars ≠ []) (hlen : (Utf.utf8 chars).length < 2 ^ 31)
    (hcnt : ¬intOf dstCnt < 0) (behind : CStr) :
    u8mbToU16wcInto (Utf.utf8 chars ++ behind) (Utf.utf8 chars).length dst dstCnt =
      if intOf dstCnt = 0 then .done ⟨(Utf.utf16 chars).length, dst.getD [], false⟩
      else if intOf dstCnt < (Utf.utf16 chars).length then .done ⟨0, dst.getD [], true⟩
      else (Exec.ofOption dst).bind fun buf ↦
        (Exec.ofOption (Buffer.store buf 0 (Utf.utf16 chars))).bind fun buf ↦
          .done ⟨(Utf.utf16 chars).length, buf, false⟩ := by
  have hpos : 0 < (Utf.utf8 chars).length := List.length_pos_iff.mpr (Utf.utf8_eq_nil.not.mpr hne)
  have hload : Buffer.load (Utf.utf8 chars ++ behind) 0 (Utf.utf8 chars).length =
      some (Utf.utf8 chars) := by
    rw [Buffer.load_eq_some (by rw [List.length_append]; omega), List.drop_zero, List.take_left]
  have hunits : ¬2 ^ 31 ≤ (Utf.utf16 chars).length :=
    not_le.mpr ((Utf.length_utf16_le chars).trans_lt hlen)
  unfold u8mbToU16wcInto
  rw [intOf_natCast hlen, if_neg (by omega), if_neg (by omega), Int.toNat_natCast, Exec.bind_done, hload,
    Exec.ofOption_some, Exec.bind_done, Utf.utf8Decode_utf8, Option.map_some]
  exact if_neg hunits

end Conversion

/-! ## One call -/

/-- A buffer for units has no memory, or as much as is counted: no more than 2^30 units, or 2^31. -/
theorem Inv.wide_cases (h : s.Inv) (t : ℕ) : s.wbuff t = ⟨2 ^ 64 - 1, none⟩ ∨
    ∃ p us, s.wbuff t = ⟨us.length, some (p, us)⟩ ∧ 0 < us.length ∧
      (us.length ≤ 2 ^ 30 ∨ us.length = 2 ^ 31) := by
  have hok := h.wide t
  generalize s.wbuff t = buff at hok
  cases hok with
  | empty => exact .inl rfl
  | @held p j us hlen hlo hhi =>
    refine .inr ⟨p, us, by rw [hlen], by rw [hlen]; exact Nat.pow_pos (by norm_num), ?_⟩
    rw [hlen]
    obtain hlt | rfl := hhi.lt_or_eq
    · exact .inl (Nat.pow_le_pow_right (by norm_num) (Nat.lt_succ_iff.mp hlt))
    · exact .inr rfl

theorem intOf_initial : intOf (2 ^ 64 - 1 : ℕ) < 0 := by decide

theorem intOf_top {n : ℕ} (h : n = 2 ^ 31) : intOf n < 0 := by
  subst h
  decide

/-- The units there are, written again. -/
theorem setUnits_units : setUnits t ((units t s).getD []) s = s := by
  have hfill : (s.wbuff t).fill ((units t s).getD []) = s.wbuff t := by
    rw [units]
    generalize s.wbuff t = buff
    obtain ⟨cnt, block⟩ := buff
    cases block with
    | none => rfl
    | some b => rfl
  rw [setUnits, putWide, hfill, Function.update_eq_self]

theorem block_setUnits {p : ℕ} {us buf : List UInt16} (h : (s.wbuff t).block = some (p, us)) :
    ((setUnits t buf s).wbuff t).block = some (p, buf) := by
  rw [setUnits, putWide]
  dsimp only
  rw [Function.update_self, Pad.fill, h]
  rfl

theorem length_units (r : WideConversion) (hr : r.dst.length = ((units t s).getD []).length) :
    ∀ b ∈ (s.wbuff t).block, r.dst.length = b.2.length := by
  intro b hb
  rw [hr, units, hb]
  rfl

/-- What a conversion leaves; one that succeeds has no more units than an `int` counts. -/
theorem convert_inv {mb : CStr × ℕ} {tries : ℕ} {res : Except Utf16Error ℕ} (h : s.Inv)
    (hrun : convert a t mb tries s = .done (res, s')) : s'.Inv ∧ ∀ n, res = .ok n → n ≤ 2 ^ 30 := by
  induction tries generalizing s with
  | zero => cases hrun
  | succ tries ih =>
    unfold convert at hrun
    obtain ⟨r, hr, hrun⟩ := Exec.bind_eq_done.mp hrun
    obtain ⟨hlen, -, hfits⟩ := u8mbToU16wcInto_spec hr
    have hset : (Scratch.setUnits t r.dst s).Inv := h.setUnits (length_units r hlen)
    have henlarged {n : ℕ} (hn : n < 2 ^ 31)
        (hrun : ((enlargeWide a t n (Scratch.setUnits t r.dst s)).bind fun r' ↦
          r'.elim (.done (.error .outOfMemory, Scratch.setUnits t r.dst s)) (convert a t mb tries)) =
            .done (res, s')) : s'.Inv ∧ ∀ n, res = .ok n → n ≤ 2 ^ 30 := by
      obtain ⟨s₁, k, p, us, henl, hinv, -⟩ := enlargeWide_spec a t hset hn
      rw [henl] at hrun
      exact ih hinv hrun
    dsimp only at hrun
    split at hrun
    · rename_i hpos
      obtain ⟨rfl, rfl⟩ := Prod.mk.inj (Exec.done.inj hrun)
      refine ⟨hset, fun n hn ↦ ?_⟩
      obtain rfl := Except.ok.inj hn
      obtain hw | ⟨p, us, hw, hus, hle | htop⟩ := h.wide_cases t
      · rw [hw] at hfits
        have hneg := intOf_initial
        have hcnt := hfits hpos
        dsimp only at hcnt
        omega
      · rw [hw] at hfits
        have hcnt := hfits hpos
        dsimp only at hcnt
        rw [intOf_natCast (by omega)] at hcnt
        omega
      · rw [hw] at hfits
        have hneg := intOf_top htop
        have hcnt := hfits hpos
        dsimp only at hcnt
        omega
    · split at hrun
      · split at hrun
        · obtain ⟨rfl, rfl⟩ := Prod.mk.inj (Exec.done.inj hrun)
          exact ⟨hset, nofun⟩
        · obtain ⟨need, hneed, hrun⟩ := Exec.bind_eq_done.mp hrun
          exact henlarged (u8mbToU16wcInto_spec hneed).2.1 hrun
      · split at hrun
        · obtain ⟨rfl, rfl⟩ := Prod.mk.inj (Exec.done.inj hrun)
          refine ⟨hset, fun n hn ↦ ?_⟩
          obtain rfl := Except.ok.inj hn
          exact Nat.zero_le _
        · exact henlarged (by norm_num) hrun

/-- Every call keeps the buffers listed. -/
theorem getUtf16Wstr_inv {x : CborText} {res : Except Utf16Error WStr} (h : s.Inv)
    (hrun : getUtf16Wstr a t x s = .done (res, s')) : s'.Inv := by
  obtain ⟨s₁, behind, hmb, hinv, -⟩ := mbStr_spec a t x h
  rw [getUtf16Wstr, hmb, Exec.bind_done, Option.elim_some] at hrun
  obtain ⟨⟨read, s₂⟩, hconv, hrun⟩ := Exec.bind_eq_done.mp hrun
  obtain ⟨hinv₂, -⟩ := convert_inv hinv hconv
  dsimp only at hrun
  split at hrun
  · obtain ⟨-, rfl⟩ := Prod.mk.inj (Exec.done.inj hrun)
    exact hinv₂
  · rename_i n _
    obtain ⟨buf, hbuf, hrun⟩ := Exec.bind_eq_done.mp hrun
    obtain ⟨buf', hstore, hrun⟩ := Exec.bind_eq_done.mp hrun
    obtain ⟨-, rfl⟩ := Prod.mk.inj (Exec.done.inj hrun)
    refine hinv₂.setUnits fun b hb ↦ ?_
    have hunits := Exec.ofOption_eq_done hbuf
    rw [units, hb] at hunits
    rw [Buffer.length_store (Exec.ofOption_eq_done hstore), ← Option.some.inj hunits]

/-! ## A valid text -/

section Text

variable {chars : List Char} {behind : CStr} {tries : ℕ} {p : ℕ} {us : List UInt16}

/-- Units that fit the buffer are written. -/
theorem convert_fits (hne : chars ≠ []) (hlen : (Utf.utf8 chars).length < 2 ^ 31)
    (hw : s.wbuff t = ⟨us.length, some (p, us)⟩) (hpos : 0 < us.length) (hle : us.length ≤ 2 ^ 30)
    (hfits : (Utf.utf16 chars).length ≤ us.length) :
    ∃ buf, convert a t (Utf.utf8 chars ++ behind, (Utf.utf8 chars).length) (tries + 1) s =
        .done (.ok (Utf.utf16 chars).length, Scratch.setUnits t buf s) ∧
      buf.length = us.length ∧ Utf.utf16 chars <+: buf := by
  have hunits : units t s = some us := by rw [units, hw]; rfl
  obtain ⟨buf, hstore⟩ := Buffer.exists_store us 0 (Utf.utf16 chars) (by omega)
  have hcnt : intOf us.length = us.length := intOf_natCast (by omega)
  have hr : u8mbToU16wcInto (Utf.utf8 chars ++ behind) (Utf.utf8 chars).length (units t s)
      (s.wbuff t).cnt = .done ⟨(Utf.utf16 chars).length, buf, false⟩ := by
    rw [hunits, hw]
    dsimp only
    rw [u8mbToU16wcInto_text hne hlen (by omega), if_neg (by omega), if_neg (by omega),
      Exec.ofOption_some, Exec.bind_done, hstore, Exec.ofOption_some, Exec.bind_done]
  have hn : 0 < (Utf.utf16 chars).length := List.length_pos_iff.mpr (Utf.utf16_eq_nil.not.mpr hne)
  refine ⟨buf, ?_, Buffer.length_store hstore, ?_⟩
  · unfold convert
    rw [hr, Exec.bind_done]
    exact if_pos hn
  · have htake := Buffer.take_store hstore
    rw [Nat.zero_add, List.take_zero, List.nil_append] at htake
    rw [← htake]
    exact List.take_prefix ..

/-- A buffer whose count is no `int` is never converted into. -/
theorem convert_top (hne : chars ≠ []) (hw : s.wbuff t = ⟨us.length, some (p, us)⟩)
    (htop : us.length = 2 ^ 31) :
    convert a t (Utf.utf8 chars ++ behind, (Utf.utf8 chars).length) (tries + 1) s =
      .done (.error .invalidUtf8TextString, s) := by
  have hr : u8mbToU16wcInto (Utf.utf8 chars ++ behind) (Utf.utf8 chars).length (units t s)
      (s.wbuff t).cnt = .done ⟨0, (units t s).getD [], false⟩ := by
    rw [hw]
    exact u8mbToU16wcInto_neg (intOf_top htop)
  have hmb : (Utf.utf8 chars).length ≠ 0 :=
    List.length_eq_zero_iff.not.mpr (Utf.utf8_eq_nil.not.mpr hne)
  unfold convert
  rw [hr, Exec.bind_done]
  dsimp only
  rw [if_neg (lt_irrefl 0), if_pos hmb, setUnits_units, if_pos ⟨rfl, by rw [hw]; rfl⟩]

/-- Where there is no memory, or too little, the buffer is enlarged for as many units as there are. -/
theorem convert_grows (hne : chars ≠ []) (hlen : (Utf.utf8 chars).length < 2 ^ 31)
    (hw : s.wbuff t = ⟨2 ^ 64 - 1, none⟩ ∨ s.wbuff t = ⟨us.length, some (p, us)⟩ ∧ 0 < us.length ∧
      us.length ≤ 2 ^ 30 ∧ us.length < (Utf.utf16 chars).length) :
    convert a t (Utf.utf8 chars ++ behind, (Utf.utf8 chars).length) (tries + 1) s =
      (enlargeWide a t (Utf.utf16 chars).length s).bind fun r ↦ r.elim (.done (.error .outOfMemory, s))
        (convert a t (Utf.utf8 chars ++ behind, (Utf.utf8 chars).length) tries) := by
  have hmb : (Utf.utf8 chars).length ≠ 0 :=
    List.length_eq_zero_iff.not.mpr (Utf.utf8_eq_nil.not.mpr hne)
  have hneed : u8mbToU16wcInto (Utf.utf8 chars ++ behind) (Utf.utf8 chars).length none 0 =
      .done ⟨(Utf.utf16 chars).length, [], false⟩ := by
    rw [u8mbToU16wcInto_text hne hlen (by decide), if_pos (by decide)]
    rfl
  obtain ⟨e, hr, hgoes⟩ : ∃ e, u8mbToU16wcInto (Utf.utf8 chars ++ behind) (Utf.utf8 chars).length
      (units t s) (s.wbuff t).cnt = .done ⟨0, (units t s).getD [], e⟩ ∧
      ¬(e = false ∧ (s.wbuff t).block.isSome = true) := by
    obtain hw | ⟨hw, hpos, hle, hlt⟩ := hw
    · rw [hw]
      exact ⟨false, u8mbToU16wcInto_neg intOf_initial, fun h ↦ Bool.false_ne_true h.2⟩
    · have hcnt : intOf us.length = us.length := intOf_natCast (by omega)
      refine ⟨true, ?_, fun h ↦ Bool.false_ne_true h.1.symm⟩
      rw [hw]
      dsimp only
      rw [u8mbToU16wcInto_text hne hlen (by omega), if_neg (by omega), if_pos (by omega)]
  unfold convert
  rw [hr, Exec.bind_done]
  dsimp only
  rw [if_neg (lt_irrefl 0), if_pos hmb, setUnits_units, if_neg hgoes, hneed, Exec.bind_done]

/-- A thread's buffer is right for so many units: it has no memory, or a count that is another and an
`int`; no more than half of an `int` are needed. -/
def Takes (s : Scratch) (t n : ℕ) : Prop :=
  n < 2 ^ 30 ∧ ((s.wbuff t).block = none ∨ ((s.wbuff t).cnt < 2 ^ 31 ∧ n ≠ (s.wbuff t).cnt))

/-- How the conversion of a text ends: its units are in the buffer, with room for a terminator just where
the buffer was right for them, or it fails where the buffer was not. -/
def Ends (s : Scratch) (t : ℕ) (chars : List Char) (res : Exec (Except Utf16Error ℕ × Scratch)) : Prop :=
  (∃ s' p us, res = .done (.ok (Utf.utf16 chars).length, s') ∧ (s'.wbuff t).block = some (p, us) ∧
    Utf.utf16 chars <+: us ∧
    (Takes s t (Utf.utf16 chars).length ↔ (Utf.utf16 chars).length < us.length)) ∨
  ((∃ s' e, res = .done (.error e, s')) ∧ ¬Takes s t (Utf.utf16 chars).length)

/-- An enlarged buffer is right, or its count is no `int`. -/
theorem enlarged_ends (h : s.Inv) (hne : chars ≠ []) (hlen : (Utf.utf8 chars).length < 2 ^ 31)
    (hcnt : (s.wbuff t).cnt ≠ 2 ^ 31) (hother : (s.wbuff t).block = none ∨
      ((s.wbuff t).cnt < 2 ^ 31 ∧ (Utf.utf16 chars).length ≠ (s.wbuff t).cnt)) :
    Ends s t chars ((enlargeWide a t (Utf.utf16 chars).length s).bind fun r ↦
      r.elim (.done (.error .outOfMemory, s))
        (convert a t (Utf.utf8 chars ++ behind, (Utf.utf8 chars).length) (tries + 1))) := by
  have hn : (Utf.utf16 chars).length < 2 ^ 31 := (Utf.length_utf16_le chars).trans_lt hlen
  obtain ⟨s₁, k, p, us, henl, hinv, hw, hus, hk, hlt, hleast⟩ := enlargeWide_spec a t h hn
  rw [← hus] at hw
  rw [henl, Exec.bind_done, Option.elim_some]
  obtain hk' | rfl : k ≤ 30 ∨ k = 31 := by omega
  · have hsmall : 2 ^ k ≤ 2 ^ 30 := Nat.pow_le_pow_right (by norm_num) hk'
    obtain ⟨buf, hconv, hbuf, hpre⟩ := @convert_fits a t s₁ chars behind tries p us hne hlen hw
      (by omega) (by omega) (by omega)
    refine .inl ⟨_, p, buf, hconv, block_setUnits (by rw [hw]), hpre,
      iff_of_true ⟨by omega, hother⟩ ?_⟩
    rw [hbuf, hus]
    exact hlt
  · refine .inr ⟨⟨s₁, _, convert_top hne hw hus⟩, fun htakes ↦ ?_⟩
    have hsmall := htakes.1
    obtain hk | hle | heq := hleast
    · exact absurd hk (by norm_num)
    · omega
    · exact hcnt heq

theorem convert_text (a : Allocator) (t : ℕ) (behind : CStr) (h : s.Inv) (hne : chars ≠ [])
    (hlen : (Utf.utf8 chars).length < 2 ^ 31) :
    Ends s t chars (convert a t (Utf.utf8 chars ++ behind, (Utf.utf8 chars).length) 3 s) := by
  obtain hw | ⟨p, us, hw, hpos, hle | htop⟩ := h.wide_cases t
  · rw [@convert_grows a t s chars behind 2 0 [] hne hlen (.inl hw)]
    refine enlarged_ends h hne hlen ?_ (.inl (by rw [hw]))
    rw [hw]
    exact fun h ↦ by cases h
  · obtain hfits | hlt := le_or_gt (Utf.utf16 chars).length us.length
    · obtain ⟨buf, hconv, hbuf, hpre⟩ :=
        @convert_fits a t s chars behind 2 p us hne hlen hw hpos hle hfits
      refine .inl ⟨_, p, buf, hconv, block_setUnits (by rw [hw]), hpre, ?_⟩
      rw [Takes, hw, hbuf]
      constructor
      · rintro ⟨-, hnone | ⟨-, hother⟩⟩
        · cases hnone
        · exact lt_of_le_of_ne hfits hother
      · intro hlt
        exact ⟨hlt.trans_le hle, .inr ⟨by dsimp only; omega, hlt.ne⟩⟩
    · rw [convert_grows hne hlen (.inr ⟨hw, hpos, hle, hlt⟩)]
      refine enlarged_ends h hne hlen ?_ (.inr ?_)
      · rw [hw]
        dsimp only
        omega
      · rw [hw]
        exact ⟨by dsimp only; omega, hlt.ne'⟩
  · refine .inr ⟨⟨s, _, convert_top hne hw htop⟩, ?_⟩
    rw [Takes, hw]
    rintro ⟨-, hnone | ⟨hcnt, -⟩⟩
    · cases hnone
    · dsimp only at hcnt
      omega

/-- No unit of an empty text is converted; the terminator gets a buffer. -/
theorem convert_empty (a : Allocator) (t : ℕ) (mb : CStr) (h : s.Inv) :
    ∃ s' p us, convert a t (mb, 0) 3 s = .done (.ok 0, s') ∧ (s'.wbuff t).block = some (p, us) ∧
      0 < us.length := by
  have hdone {s : Scratch} {tries p : ℕ} {us : List UInt16}
      (hw : (s.wbuff t).block = some (p, us)) : convert a t (mb, 0) (tries + 1) s = .done (.ok 0, s) := by
    unfold convert
    rw [u8mbToU16wcInto_zero, Exec.bind_done]
    dsimp only
    rw [if_neg (lt_irrefl 0), if_neg (not_not.mpr rfl), setUnits_units, if_pos (by rw [hw]; rfl)]
  obtain hw | ⟨p, us, hw, hpos, -⟩ := h.wide_cases t
  · obtain ⟨s₁, k, p, us, henl, -, hw', hus, -⟩ := @enlargeWide_spec 0 s a t h (by norm_num)
    refine ⟨s₁, p, us, ?_, by rw [hw'], hus ▸ Nat.pow_pos (by norm_num)⟩
    unfold convert
    rw [u8mbToU16wcInto_zero, Exec.bind_done]
    dsimp only
    rw [if_neg (lt_irrefl 0), if_neg (not_not.mpr rfl), setUnits_units,
      if_neg (by rw [hw]; exact Bool.false_ne_true), henl, Exec.bind_done, Option.elim_some]
    exact hdone (by rw [hw'])
  · exact ⟨s, p, us, hdone (by rw [hw]), by rw [hw], hpos⟩

/-- A text whose count is a negative `int`, other than -1, is never converted. -/
theorem convert_long {mb : CStr × ℕ} {n : ℕ} (hlo : 2 ^ 31 ≤ mb.2) (hhi : mb.2 < 2 ^ 32 - 1) :
    convert a t mb tries s ≠ .done (.ok n, s') := by
  have hcnt : intOf mb.2 < -1 := by
    rw [intOf, Int.bmod_def]
    omega
  have hfailed (dst : Option (List UInt16)) (dstCnt : ℕ) :
      u8mbToU16wcInto mb.1 mb.2 dst dstCnt = .done ⟨0, dst.getD [], false⟩ := by
    unfold u8mbToU16wcInto
    exact if_pos (.inr (.inl hcnt))
  induction tries generalizing s with
  | zero => exact fun h ↦ by cases h
  | succ tries ih =>
    unfold convert
    rw [hfailed, hfailed, Exec.bind_done]
    dsimp only
    rw [if_neg (lt_irrefl 0), if_pos (by omega), Exec.bind_done]
    intro h
    split at h
    · cases h
    · obtain ⟨r, -, h⟩ := Exec.bind_eq_done.mp h
      cases r with
      | none => cases h
      | some s₁ => exact ih h

/-- What was converted gets a terminator behind it. -/
theorem getUtf16Wstr_ok {x : CborText} {mb : CStr × ℕ} {s₁ s₂ : Scratch} {n : ℕ}
    (hmb : mbStr a t x s = .done (some (mb, s₁))) (hconv : convert a t mb 3 s₁ = .done (.ok n, s₂))
    (hblock : (s₂.wbuff t).block = some (p, us)) :
    getUtf16Wstr a t x s = (Exec.ofOption (Buffer.store us n [0])).bind fun buf ↦
      .done (.ok (buf.take n), Scratch.setUnits t buf s₂) := by
  have hunits : units t s₂ = some us := by
    rw [units, hblock]
    rfl
  rw [getUtf16Wstr, hmb, Exec.bind_done, Option.elim_some, hconv, Exec.bind_done]
  dsimp only
  rw [hunits, Exec.ofOption_some, Exec.bind_done]

end Text

/-! ## Any sequence of conversions -/

/-- A conversion of any text, by any thread. -/
def step (a : Allocator) (s : Scratch) (o : ℕ × CborText) (s' : Scratch) : Prop :=
  ∃ res, getUtf16Wstr a o.1 o.2 s = .done (res, s')

theorem inv_of_run {os : List (ℕ × CborText)} (h : Run (step a) initial os s) : s.Inv :=
  h.invariant (fun _ _ _ hinv ⟨_, hcall⟩ ↦ getUtf16Wstr_inv hinv hcall) initial_inv

end Scratch

/-- A valid text string. -/
structure ValidText where
  text : CborText
  chars : List Char
  valid : text.bytes = Utf.utf8 chars

/-- Memory is given behind all that is in use. -/
def Allocator.behind : Allocator where
  pick used := used.sum + 1
  fresh _ h := absurd (List.le_sum_of_mem h) (Nat.not_succ_le_self _)

/-- A text in one chunk, at the end of the answer. -/
def ValidText.chunk (chars : List Char) : ValidText := ⟨.chunk (Utf.utf8 chars) [], chars, rfl⟩

namespace Scratch

/-- The text is converted: its units and a terminator are in the thread's buffer, and every buffer is
listed once. -/
def Converts (a : Allocator) (s : Scratch) (t : ℕ) (x : ValidText) : Prop :=
  ∃ w s' p us, getUtf16Wstr a t x.text s = .done (.ok w, s') ∧ w = Utf.utf16 x.chars ∧
    (s'.wbuff t).block = some (p, us) ∧ w ++ [0] <+: us ∧ Listing.Listed s'.addr s'.utfBuffs

/-- The text is empty, or has a count that is an `int` and units the buffer is right for. -/
def WideFits (s : Scratch) (t : ℕ) (x : ValidText) : Prop :=
  x.chars = [] ∨ (Utf.utf8 x.chars).length < 2 ^ 31 ∧ Takes s t (Utf.utf16 x.chars).length

variable {a : Allocator} {t : ℕ} {s : Scratch} {x : ValidText}

/-- Converted units with room behind them are a conversion of the text. -/
theorem converts_of_room {mb : CStr × ℕ} {s₁ s₂ : Scratch} {p : ℕ} {us : List UInt16} (h : s.Inv)
    (hmb : mbStr a t x.text s = .done (some (mb, s₁)))
    (hconv : convert a t mb 3 s₁ = .done (.ok (Utf.utf16 x.chars).length, s₂))
    (hblock : (s₂.wbuff t).block = some (p, us)) (hpre : Utf.utf16 x.chars <+: us)
    (hroom : (Utf.utf16 x.chars).length < us.length) : Converts a s t x := by
  obtain ⟨buf, hstore⟩ := Buffer.exists_store us (Utf.utf16 x.chars).length [0] hroom
  have hcall := getUtf16Wstr_ok hmb hconv hblock
  rw [hstore, Exec.ofOption_some, Exec.bind_done] at hcall
  have hbuf := Buffer.prefix_store hpre hstore
  have hw : buf.take (Utf.utf16 x.chars).length = Utf.utf16 x.chars :=
    (List.prefix_iff_eq_take.mp ((List.prefix_append _ _).trans hbuf)).symm
  refine ⟨_, _, p, buf, hcall, hw, block_setUnits hblock, ?_, (getUtf16Wstr_inv h hcall).listed⟩
  rw [hw]
  exact hbuf

/-- Without room the terminator is written outside the buffer. -/
theorem not_converts_of_full {mb : CStr × ℕ} {s₁ s₂ : Scratch} {n p : ℕ} {us : List UInt16}
    (hmb : mbStr a t x.text s = .done (some (mb, s₁))) (hconv : convert a t mb 3 s₁ = .done (.ok n, s₂))
    (hblock : (s₂.wbuff t).block = some (p, us)) (hfull : us.length ≤ n) : ¬Converts a s t x := by
  have hcall := getUtf16Wstr_ok hmb hconv hblock
  rw [Buffer.store_eq_none.mpr (Nat.lt_succ_of_le hfull)] at hcall
  rintro ⟨w, s', -, -, hdone, -⟩
  rw [hcall] at hdone
  cases hdone

/-- In every state that conversions lead to, a text is converted just where the thread's buffer is right
for it. -/
theorem wideConverts_iff {os : List (ℕ × CborText)} (h : Run (step a) initial os s) (t : ℕ)
    (x : ValidText) : Converts a s t x ↔ WideFits s t x := by
  have hinv := inv_of_run h
  obtain ⟨s₁, behind, hmb, hinv₁, hwide⟩ := mbStr_spec a t x.text hinv
  rw [x.valid] at hmb
  have htakes (n : ℕ) : Takes s₁ t n ↔ Takes s t n := by
    rw [Takes, Takes, hwide]
  obtain hempty | hne := eq_or_ne x.chars []
  · refine iff_of_true ?_ (.inl hempty)
    obtain ⟨s₂, p, us, hconv, hblock, hpos⟩ := convert_empty a t (Utf.utf8 x.chars ++ behind) hinv₁
    have hzero : (Utf.utf16 x.chars).length = 0 := by
      rw [hempty]
      rfl
    refine @converts_of_room a t s x _ s₁ s₂ p us hinv hmb ?_ hblock ?_ (hzero.trans_lt hpos)
    · rw [hzero, hempty]
      rw [hempty] at hconv
      exact hconv
    · rw [hempty]
      exact List.nil_prefix
  · obtain hlen | hlen := lt_or_ge (Utf.utf8 x.chars).length (2 ^ 31)
    · have hfits : WideFits s t x ↔ Takes s₁ t (Utf.utf16 x.chars).length := by
        rw [htakes]
        exact ⟨fun h ↦ (h.resolve_left hne).2, fun h ↦ .inr ⟨hlen, h⟩⟩
      rw [hfits]
      obtain ⟨s₂, p, us, hconv, hblock, hpre, hroom⟩ | ⟨⟨s₂, e, hconv⟩, hnot⟩ :=
        convert_text a t behind hinv₁ hne hlen
      · rw [hroom]
        refine ⟨fun hconverts ↦ ?_, converts_of_room hinv hmb hconv hblock hpre⟩
        by_contra hfull
        exact not_converts_of_full hmb hconv hblock (not_lt.mp hfull) hconverts
      · refine iff_of_false ?_ hnot
        rintro ⟨w, s', -, -, hcall, -⟩
        rw [getUtf16Wstr, hmb, Exec.bind_done, Option.elim_some, hconv, Exec.bind_done] at hcall
        cases hcall
    · refine iff_of_false ?_ fun hfits ↦ ?_
      · rintro ⟨w, s', -, -, hcall, hw, -⟩
        rw [getUtf16Wstr, hmb, Exec.bind_done, Option.elim_some] at hcall
        obtain ⟨⟨res, s₂⟩, hconv, hcall⟩ := Exec.bind_eq_done.mp hcall
        cases res with
        | error e => cases hcall
        | ok n =>
          have hn := (convert_inv hinv₁ hconv).2 n rfl
          obtain ⟨buf, -, hcall⟩ := Exec.bind_eq_done.mp hcall
          obtain ⟨buf', -, hcall⟩ := Exec.bind_eq_done.mp hcall
          obtain ⟨hw', -⟩ := Prod.mk.inj (Exec.done.inj hcall)
          have hle : (Utf.utf16 x.chars).length ≤ n := by
            rw [← hw, ← Except.ok.inj hw']
            exact List.length_take_le ..
          have hbytes := Utf.length_utf8_le x.chars
          exact convert_long hlen (by dsimp only; omega) hconv
      · exact absurd (hfits.resolve_left hne).1 (not_lt.mpr hlen)

theorem wideConverts_first : Converts .behind initial 0 (.chunk ['a']) :=
  (wideConverts_iff (.nil initial) 0 (.chunk ['a'])).mpr
    (.inr ⟨by decide +kernel, by decide +kernel, .inl rfl⟩)

/-- After `a` the buffer has 4096 units: the terminator of a text of as many is written behind it. -/
theorem not_wideConverts_page : ¬∀ (a : Allocator) (os : List (ℕ × CborText)) (s : Scratch) (t : ℕ)
    (x : ValidText), Run (step a) initial os s → Converts a s t x := by
  intro h
  have hfirst : ((getUtf16Wstr .behind 0 (.chunk [0x61] []) initial).bind fun r ↦
      .done (r.2.wbuff 0).cnt) = .done 4096 := by decide +kernel
  obtain ⟨⟨res, s⟩, hcall, hcnt⟩ := Exec.bind_eq_done.mp hfirst
  have hcnt : (s.wbuff 0).cnt = 4096 := Exec.done.inj hcnt
  have hrun : Run (step .behind) initial [(0, .chunk [0x61] [])] s := .cons ⟨res, hcall⟩ (.nil s)
  have hunits : (Utf.utf16 (List.replicate 4096 'a')).length = 4096 := by decide +kernel
  refine absurd (h .behind _ s 0 (.chunk (List.replicate 4096 'a')) hrun) ?_
  obtain hw | ⟨p, us, hw, hpos, hle⟩ := (inv_of_run hrun).wide_cases 0
  · rw [hw] at hcnt
    cases hcnt
  · rw [hw] at hcnt
    dsimp only at hcnt
    obtain ⟨buf, hconv, hbuf, -⟩ := @convert_fits .behind 0 s (List.replicate 4096 'a') [] 2 p us
      (fun h ↦ by cases h) (by decide +kernel) hw hpos (by omega) (by omega)
    exact not_converts_of_full rfl hconv (block_setUnits (by rw [hw])) (by omega)

end Scratch

end EsOdbc
