import EsOdbc.Formats.Read
import EsOdbc.Lib.LittleEndian
import EsOdbc.Memory

/-!
# Bignums, byte by byte

`cbor_value_get_tagged_uint64` with every byte it reads and writes, on a little-endian machine:
the leading zeros it steps over, the bytes it copies into the result, and the swap.
-/

namespace EsOdbc

open Cbor (Item)

namespace Bignum

/-- `sizeof(*val)`. -/
def valSize : ℕ := 8

/-- The loop over the bytes in front of the last eight, from an index on: the index it stops at,
or the error on a byte that is not zero. -/
def skipZeros (bstr : CStr) (i : ℕ) : Exec (Except CborError ℕ) :=
  if valSize < bstr.length - i then
    (Exec.ofOption (Buffer.load bstr i 1)).bind fun byte ↦
      if byte ≠ [0] then .done (.error .improperValue) else skipZeros bstr (i + 1)
  else .done (.ok i)
termination_by bstr.length - i
decreasing_by omega

/-- `_byteswap_uint64`. -/
def byteswapUint64 (n : UInt64) : UInt64 :=
  .ofNat (LittleEndian.value (LittleEndian.bytes valSize n.toNat).reverse)

/-- The bytes from an index on, copied behind an offset into a result that is zero. -/
def copyBytes (bstr : CStr) (valOfft i : ℕ) : Exec UInt64 :=
  (Exec.ofOption (Buffer.load bstr i (bstr.length - i))).bind fun bytes ↦
    (Exec.ofOption (Buffer.store (LittleEndian.bytes valSize 0) valOfft bytes)).bind fun val ↦
      .done (byteswapUint64 (.ofNat (LittleEndian.value val)))

/-- `cbor_value_get_tagged_uint64`. -/
def getTaggedUint64 (type : UInt64) (content : Item) : Exec (Except CborError UInt64) :=
  if type ≠ 2 then .done (.error .inappropriateTagForType)
  else match content with
    | .bytes bstr =>
      if valSize < bstr.length then
        (skipZeros bstr 0).bind fun
          | .error e => .done (.error e)
          | .ok i => (copyBytes bstr 0 i).bind fun val ↦ .done (.ok val)
      else (copyBytes bstr (valSize - bstr.length) 0).bind fun val ↦ .done (.ok val)
    | .bytesChunks _ => .done (.error .unknownLength)
    | _ => .done (.error .improperValue)

/-! ## The bytes -/

theorem value_reverse (b : CStr) : LittleEndian.value b.reverse = bigEndian b := by
  induction b with
  | nil => rfl
  | cons x b ih =>
    have hx : bigEndian [x] = x.toNat := by simp [bigEndian]
    have happ := bigEndian_append [x] b
    rw [List.singleton_append, hx] at happ
    rw [List.reverse_cons, LittleEndian.value_append, ih, List.length_reverse, happ]
    show bigEndian b + 256 ^ b.length * (x.toNat + 256 * 0) = _
    ring

theorem bigEndian_lt (b : CStr) : bigEndian b < 256 ^ b.length := by
  rw [← value_reverse, ← List.length_reverse]
  exact LittleEndian.value_lt _

theorem bigEndian_zeros (k : ℕ) : bigEndian (List.replicate k 0) = 0 := by
  rw [← value_reverse, List.reverse_replicate, LittleEndian.value_zeros]

/-- Eight bytes that are swapped are read the other way around. -/
theorem byteswapUint64_value {bs : CStr} (h : bs.length = valSize) :
    byteswapUint64 (.ofNat (LittleEndian.value bs)) = .ofNat (bigEndian bs) := by
  have hlt : LittleEndian.value bs < 2 ^ 64 := by
    refine (LittleEndian.value_lt bs).trans_le ?_
    rw [h]
    decide
  rw [byteswapUint64, UInt64.toNat_ofNat', Nat.mod_eq_of_lt hlt, ← h, LittleEndian.bytes_value,
    value_reverse]

/-! ## The steps -/

/-- The loop stops at the last eight bytes if all before them are zero. -/
theorem skipZeros_eq (bstr : CStr) {i : ℕ} (hi : i ≤ bstr.length - valSize) :
    skipZeros bstr i = .done
      (if ((bstr.take (bstr.length - valSize)).drop i).all (· == 0) then
        .ok (bstr.length - valSize) else .error .improperValue) := by
  induction hn : bstr.length - valSize - i generalizing i with
  | zero =>
    obtain rfl : i = bstr.length - valSize := by omega
    rw [skipZeros, if_neg (by omega), List.drop_of_length_le (List.length_take_le ..),
      List.all_nil, if_pos rfl]
  | succ n ih =>
    have hlt : i < bstr.length := by unfold valSize at hn; omega
    have hbyte : (bstr.drop i).take 1 = [bstr[i]] := by
      rw [List.drop_eq_getElem_cons hlt, List.take_succ_cons, List.take_zero]
    have htake : i < (bstr.take (bstr.length - valSize)).length := by
      rw [List.length_take]
      omega
    have hget : (bstr.take (bstr.length - valSize))[i] = bstr[i] := List.getElem_take
    rw [skipZeros, if_pos (by unfold valSize at hn ⊢; omega), Buffer.load_eq_some hlt,
      Exec.ofOption_some, Exec.bind_done, hbyte, List.drop_eq_getElem_cons htake, List.all_cons,
      hget]
    by_cases hzero : bstr[i] = 0
    · rw [if_neg (not_not.mpr (congrArg (fun x ↦ [x]) hzero)), ih (by omega) (by omega), hzero]
      rfl
    · rw [if_pos fun h ↦ hzero (List.singleton_inj.mp h), beq_eq_false_iff_ne.mpr hzero]
      rfl

/-- What is copied to the end of the result is its big-endian value. -/
theorem copyBytes_eq {bstr : CStr} {valOfft i : ℕ} (hi : i ≤ bstr.length)
    (hroom : valOfft + (bstr.length - i) = valSize) :
    copyBytes bstr valOfft i = .done (.ofNat (bigEndian (bstr.drop i))) := by
  have hzeros : LittleEndian.bytes valSize 0 = List.replicate valSize 0 := rfl
  have hlen : (bstr.drop i).length = bstr.length - i := List.length_drop ..
  have hfill : (LittleEndian.bytes valSize 0).take valOfft ++
      (bstr.drop i ++ (LittleEndian.bytes valSize 0).drop (valOfft + (bstr.drop i).length)) =
      List.replicate valOfft 0 ++ bstr.drop i := by
    rw [hzeros, List.take_replicate, List.drop_replicate, hlen, hroom, Nat.sub_self,
      List.replicate_zero, List.append_nil, min_eq_left (by omega)]
  have hval : (List.replicate valOfft 0 ++ bstr.drop i).length = valSize := by
    rw [List.length_append, List.length_replicate, hlen, hroom]
  have hroom' : valOfft + (bstr.drop i).length ≤ (LittleEndian.bytes valSize 0).length := by
    rw [hlen, hroom, LittleEndian.length_bytes]
  rw [copyBytes, Buffer.load_drop hi, Exec.ofOption_some, Exec.bind_done,
    Buffer.store_eq_some hroom', Exec.ofOption_some, Exec.bind_done, hfill,
    byteswapUint64_value hval, bigEndian_append, bigEndian_zeros, Nat.zero_mul, Nat.zero_add]

/-- Byte by byte, the function is the one that reads the value at once. -/
theorem getTaggedUint64_eq (type : UInt64) (content : Item) :
    getTaggedUint64 type content = .done (cborValueGetTaggedUint64 type content) := by
  unfold getTaggedUint64 cborValueGetTaggedUint64
  by_cases htype : type = 2
  · rw [if_neg (not_not.mpr htype), if_neg (not_not.mpr htype)]
    cases content with
    | bytes bstr =>
      by_cases hlong : valSize < bstr.length
      · have hroom : 0 + (bstr.length - (bstr.length - valSize)) = valSize := by omega
        dsimp only
        rw [if_pos hlong, skipZeros_eq bstr (Nat.zero_le _), List.drop_zero, Exec.bind_done]
        by_cases hzeros : (bstr.take (bstr.length - valSize)).all (· == 0)
        · rw [if_pos hzeros]
          dsimp only
          rw [copyBytes_eq (Nat.sub_le ..) hroom]
          exact congrArg Exec.done (if_pos hzeros).symm
        · rw [if_neg hzeros]
          exact congrArg Exec.done (if_neg hzeros).symm
      · have hshort : bstr.length - 8 = 0 := Nat.sub_eq_zero_of_le (not_lt.mp hlong)
        dsimp only
        rw [if_neg hlong, copyBytes_eq (Nat.zero_le _) (by omega), hshort, List.take_zero,
          List.all_nil, if_pos rfl]
        rfl
    | _ => rfl
  · rw [if_pos htype, if_pos htype]

end Bignum

/-! ## The value -/

/-- A bignum is read if its value fits. -/
theorem cborValueGetTaggedUint64_eq_ok {type n : UInt64} {content : Item} :
    cborValueGetTaggedUint64 type content = .ok n ↔
      type = 2 ∧ ∃ b, content = .bytes b ∧ bigEndian b = n.toNat := by
  constructor
  · intro h
    unfold cborValueGetTaggedUint64 at h
    by_cases htype : type = 2
    · rw [if_neg (not_not.mpr htype)] at h
      cases content with
      | bytes b =>
        dsimp only at h
        by_cases hzeros : (b.take (b.length - 8)).all (· == 0)
        · rw [if_pos hzeros, Except.ok.injEq] at h
          have happ := bigEndian_append (b.take (b.length - 8)) (b.drop (b.length - 8))
          have hlead : b.take (b.length - 8) = List.replicate (b.take (b.length - 8)).length 0 :=
            List.eq_replicate_of_mem fun x hx ↦ eq_of_beq (List.all_eq_true.mp hzeros x hx)
          have hlow : bigEndian (b.drop (b.length - 8)) < 2 ^ 64 := by
            have hlt := Bignum.bigEndian_lt (b.drop (b.length - 8))
            have hlen : (b.drop (b.length - 8)).length ≤ 8 := by
              rw [List.length_drop]
              omega
            exact hlt.trans_le (Nat.pow_le_pow_right (by decide) hlen)
          refine ⟨htype, b, rfl, ?_⟩
          rw [List.take_append_drop, hlead, Bignum.bigEndian_zeros, Nat.zero_mul, Nat.zero_add]
            at happ
          rw [happ, ← h, UInt64.toNat_ofNat', Nat.mod_eq_of_lt hlow]
        · rw [if_neg hzeros] at h
          cases h
      | _ => cases h
    · rw [if_pos htype] at h
      cases h
  · rintro ⟨rfl, b, rfl, h⟩
    exact cborValueGetTaggedUint64_bytes h

/-- Of every tag and content: no byte is read or written outside the byte string and the result,
a bignum below `2 ^ 64` in a byte string of known length is returned, and nothing else is. -/
theorem tagged_uint64 (type : UInt64) (content : Item) :
    ∃ result, Bignum.getTaggedUint64 type content = .done result ∧
      ∀ n, result = .ok n ↔ type = 2 ∧ ∃ b, content = .bytes b ∧ bigEndian b = n.toNat := by
  refine ⟨_, Bignum.getTaggedUint64_eq type content, ?_⟩
  intro n
  exact cborValueGetTaggedUint64_eq_ok

example : Bignum.getTaggedUint64 2 (.bytes [0, 0, 1, 0, 0, 0, 0, 0, 0, 2]) =
    .done (.ok 0x0100000000000002) := by
  rw [Bignum.getTaggedUint64_eq]
  rfl

end EsOdbc
