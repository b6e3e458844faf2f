import EsOdbc.Memory

/-!
# Dumps

`cstr_hex_dump` (`util.c`).  The terminator of the digits it prints last is behind the buffer where
these reach its end.
-/

namespace EsOdbc

/-! ## The source -/

/-- `ESODBC_LOG_BUF_SIZE`, or `ESODBC_EXT_LOG_BUF_SIZE` where the log has extended buffers. -/
def dumpSize (extended : Bool) : ℕ := if extended then 4 * 1024 * 1024 else 4 * 1024

/-- A digit of `%X`. -/
def hexDigitChar (n : ℕ) : UInt8 := .ofNat (if n < 10 then 0x30 + n else 0x41 + (n - 10))

/-- `%.2X` of bytes. -/
def hexText (bytes : List UInt8) : List UInt8 :=
  bytes.flatMap fun b ↦ [hexDigitChar (b.toNat / 16), hexDigitChar (b.toNat % 16)]

/-- The loop of `cstr_hex_dump`.  `sprintf` stores a terminator, which `to` does not pass. -/
def hexDumpLoop : List UInt8 → List UInt8 × ℕ → Exec (List UInt8 × ℕ)
  | [], out => .done out
  | b :: bytes, out =>
    if out.2 < out.1.length then
      (put out (hexText [b] ++ [0])).bind fun next ↦ hexDumpLoop bytes (next.1, out.2 + 2)
    else .done out

/-- `cstr_hex_dump`. -/
def cstrHexDump (buff dest : List UInt8) : Exec (List UInt8) :=
  (hexDumpLoop buff (dest, 0)).bind fun out ↦
    if out.2 < out.1.length then (put out [0]).bind fun out ↦ .done out.1
    else (put (out.1, out.1.length - 1) [0]).bind fun out ↦ .done out.1

/-! ## The loop -/

@[simp] theorem hexText_nil : hexText [] = [] := rfl

theorem hexText_cons (b : UInt8) (bytes : List UInt8) : hexText (b :: bytes) = hexText [b] ++ hexText bytes :=
  rfl

theorem length_hexText_singleton (b : UInt8) : (hexText [b]).length = 2 := rfl

theorem length_hexText (bytes : List UInt8) : (hexText bytes).length = 2 * bytes.length := by
  induction bytes with
  | nil => rfl
  | cons b bytes ih =>
    rw [hexText_cons, List.length_append, length_hexText_singleton, ih, List.length_cons]
    omega

/-- The loop over bytes whose digits fit in front of a terminator. -/
theorem hexDumpLoop_run (u rest : List UInt8) {dest : List UInt8} {pos : ℕ}
    (hroom : pos + 2 * u.length + 1 ≤ dest.length) :
    ∃ out, hexDumpLoop (u ++ rest) (dest, pos) = hexDumpLoop rest (out, pos + 2 * u.length) ∧
      out.length = dest.length ∧ out.take (pos + 2 * u.length) = dest.take pos ++ hexText u := by
  induction u generalizing dest pos with
  | nil =>
    refine ⟨dest, rfl, rfl, ?_⟩
    rw [hexText_nil, List.append_nil]
    rfl
  | cons b u ih =>
    have hlen : pos + 2 * (b :: u).length = pos + 2 + 2 * u.length := by
      rw [List.length_cons]
      omega
    rw [hlen] at hroom ⊢
    have hunits : (hexText [b] ++ [0]).length = 3 := rfl
    obtain ⟨out, hput, hsize, htake⟩ := @put_done UInt8 (dest, pos) (hexText [b] ++ [0]) (by
      rw [hunits]
      exact (by omega : pos + 3 ≤ pos + 2 + 2 * u.length + 1).trans hroom)
    dsimp only at hput hsize htake
    obtain ⟨out', hrun, hsize', htake'⟩ := @ih out (pos + 2) (hsize ▸ hroom)
    refine ⟨out', ?_, hsize'.trans hsize, ?_⟩
    · have hlt : pos < dest.length := by omega
      rw [List.cons_append, hexDumpLoop]
      dsimp only
      rw [if_pos hlt, hput, Exec.bind_done, hrun]
    · have hfront : out.take (pos + 2) = dest.take pos ++ hexText [b] := by
        have hpart : out.take (pos + 2) = (out.take (pos + (hexText [b] ++ [0]).length)).take (pos + 2) := by
          rw [List.take_take, hunits, Nat.min_eq_left (Nat.le_succ _)]
        rw [hpart, htake, ← List.append_assoc, List.take_left']
        rw [List.length_append, length_hexText_singleton, List.length_take_of_le (by omega)]
      rw [htake', hfront, List.append_assoc, ← hexText_cons]

/-- Behind the last bytes that fit, the terminator of the next digits is outside. -/
theorem cstrHexDump_undefined {buff dest : List UInt8} {m : ℕ} (hdest : dest.length = 2 * m)
    (hm : 0 < m) (hlong : m ≤ buff.length) : cstrHexDump buff dest = .undefined := by
  have hsplit := List.take_append_drop (m - 1) buff
  have hlen : (buff.take (m - 1)).length = m - 1 := List.length_take_of_le (by omega)
  cases hdrop : buff.drop (m - 1) with
  | nil =>
    have hnone := congrArg List.length hdrop
    rw [List.length_drop, List.length_nil] at hnone
    omega
  | cons b rest =>
    obtain ⟨out, hrun, hsize, -⟩ := @hexDumpLoop_run (buff.take (m - 1)) (b :: rest) dest 0 (by
      rw [hlen, hdest]
      omega)
    have hstore : Buffer.store out (2 * (m - 1)) (hexText [b] ++ [0]) = none := by
      rw [Buffer.store_eq_none, hsize, hdest, List.length_append, length_hexText_singleton,
        List.length_singleton]
      omega
    rw [hdrop] at hsplit
    rw [← hsplit, cstrHexDump, hrun, hlen, Nat.zero_add, hexDumpLoop]
    dsimp only
    rw [if_pos (by omega), put, hstore]
    rfl

/-- Bytes that fit are dumped. -/
theorem cstrHexDump_done {buff dest : List UInt8} (hfits : 2 * buff.length < dest.length) :
    ∃ out, cstrHexDump buff dest = .done out ∧ out.length = dest.length ∧
      hexText buff ++ [0] <+: out := by
  obtain ⟨buf, hrun, hsize, htake⟩ := @hexDumpLoop_run buff [] dest 0 (by omega)
  rw [List.append_nil, Nat.zero_add, hexDumpLoop] at hrun
  rw [Nat.zero_add, List.take_zero, List.nil_append] at htake
  obtain ⟨out, hput, hout, htake'⟩ := @put_done UInt8 (buf, 2 * buff.length) [0] (by
    rw [List.length_singleton]
    exact Nat.succ_le_of_lt (hsize ▸ hfits))
  dsimp only at hput hout htake'
  refine ⟨out, ?_, hout.trans hsize, ?_⟩
  · rw [cstrHexDump, hrun, Exec.bind_done]
    dsimp only
    rw [if_pos (hsize ▸ hfits), hput, Exec.bind_done]
  · rw [← htake, ← htake']
    exact List.take_prefix _ _

/-! ## The dump -/

/-- Bytes whose digits fit with a terminator. -/
def DumpFits (extended : Bool) (bytes : List UInt8) : Prop :=
  (hexText bytes).length + 1 ≤ dumpSize extended

/-- The buffer, whatever is left in it, is written inside, and gets the digits of the longest start of
the string that fits, and a terminator. -/
def HexDumped (extended : Bool) (buff : List UInt8) : Prop :=
  ∀ dest : List UInt8, dest.length = dumpSize extended → ∃ out pre, cstrHexDump buff dest = .done out ∧
    out.length = dest.length ∧ pre <+: buff ∧ DumpFits extended pre ∧
    (∀ p, p <+: buff → DumpFits extended p → p.length ≤ pre.length) ∧ hexText pre ++ [0] <+: out

theorem dumpSize_eq (extended : Bool) : ∃ m, dumpSize extended = 2 * m ∧ 0 < m := by
  cases extended with
  | false => exact ⟨2048, rfl, by decide⟩
  | true => exact ⟨2097152, rfl, by decide⟩

/-- A string is dumped where all of its digits fit in front of the terminator. -/
theorem hexDumped_iff (extended : Bool) (buff : List UInt8) :
    HexDumped extended buff ↔ 2 * buff.length < dumpSize extended := by
  obtain ⟨m, hsize, hm⟩ := dumpSize_eq extended
  constructor
  · intro h
    by_contra hlong
    obtain ⟨out, pre, hrun, -⟩ := h (List.replicate _ 0) List.length_replicate
    rw [cstrHexDump_undefined (List.length_replicate.trans hsize) hm (by omega)] at hrun
    cases hrun
  · intro hfits dest hdest
    obtain ⟨out, hrun, hlen, hout⟩ := @cstrHexDump_done buff dest (hdest ▸ hfits)
    refine ⟨out, buff, hrun, hlen, List.prefix_rfl, ?_, fun p hp _ ↦ hp.length_le, hout⟩
    rw [DumpFits, length_hexText]
    exact hfits

/-- A body of half as many bytes as the buffer has. -/
theorem not_hexDumped_half : ¬HexDumped false (List.replicate 2048 0) := by
  intro h
  obtain ⟨out, pre, hrun, -⟩ := h (List.replicate 4096 0) List.length_replicate
  have hsize : (List.replicate 4096 (0 : UInt8)).length = 2 * 2048 := List.length_replicate
  rw [cstrHexDump_undefined hsize (by decide) List.length_replicate.ge] at hrun
  cases hrun

end EsOdbc
