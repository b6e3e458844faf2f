import Mathlib

/-!
# UTF-8 and UTF-16 texts of Unicode scalars

A text is a list of Unicode scalars (`Char`).  Its UTF-8 bytes are the ones of
`String.utf8EncodeChar`; its UTF-16 units are defined here.  Both decoders are
strict: they accept the encodings of scalars and nothing else, as the converters of
an operating system do when told to fail on invalid input.
-/

namespace Utf

/-! ## UTF-8 -/

/-- The UTF-8 bytes of a text. -/
def utf8 (s : List Char) : List UInt8 := s.flatMap String.utf8EncodeChar

@[simp] theorem utf8_nil : utf8 [] = [] := rfl

@[simp] theorem utf8_cons (c : Char) (s : List Char) :
    utf8 (c :: s) = String.utf8EncodeChar c ++ utf8 s := rfl

@[simp] theorem utf8_append (s t : List Char) : utf8 (s ++ t) = utf8 s ++ utf8 t := by
  simp [utf8]

/-- The scalar of value `v`, provided the bytes are its encoding. -/
def scalarOf (v : Nat) (bytes : List UInt8) : Option Char :=
  if String.utf8EncodeChar (Char.ofNat v) = bytes then some (Char.ofNat v) else none

/-- Strict UTF-8 decoding: the lead byte tells the length, and the bytes taken have to
be the encoding of the scalar they spell, which excludes overlong forms, surrogates
and values past the last scalar. -/
def utf8Decode : List UInt8 → Option (List Char)
  | [] => some []
  | a :: t₁ =>
    if a.toNat < 0x80 then do
      let c ← scalarOf a.toNat [a]
      return c :: (← utf8Decode t₁)
    else match t₁ with
      | [] => none
      | b :: t₂ =>
        if a.toNat < 0xE0 then do
          let c ← scalarOf ((a.toNat - 0xC0) * 64 + (b.toNat - 0x80)) [a, b]
          return c :: (← utf8Decode t₂)
        else match t₂ with
          | [] => none
          | d :: t₃ =>
            if a.toNat < 0xF0 then do
              let c ← scalarOf ((a.toNat - 0xE0) * 4096 + (b.toNat - 0x80) * 64 +
                (d.toNat - 0x80)) [a, b, d]
              return c :: (← utf8Decode t₃)
            else match t₃ with
              | [] => none
              | e :: t₄ => do
                let c ← scalarOf ((a.toNat - 0xF0) * 262144 + (b.toNat - 0x80) * 4096 +
                  (d.toNat - 0x80) * 64 + (e.toNat - 0x80)) [a, b, d, e]
                return c :: (← utf8Decode t₄)

theorem scalarOf_encode (c : Char) {v : Nat} (h : v = c.toNat) :
    scalarOf v (String.utf8EncodeChar c) = some c := by
  subst h
  simp [scalarOf, Char.ofNat_toNat]

theorem toNat_lt (c : Char) : c.toNat < 0x110000 := by
  have h := c.valid
  simp only [UInt32.isValidChar, Nat.isValidChar] at h
  change c.val.toNat < 0x110000
  omega

theorem utf8Decode_encodeChar_append (c : Char) (t : List UInt8) :
    utf8Decode (String.utf8EncodeChar c ++ t) = (utf8Decode t).map (c :: ·) := by
  have hs : ∀ v, v = c.toNat → scalarOf v (String.utf8EncodeChar c) = some c :=
    fun _ h ↦ scalarOf_encode c h
  have hc := toNat_lt c
  change c.val.toNat < 0x110000 at hc
  change ∀ v, v = c.val.toNat → _ at hs
  unfold String.utf8EncodeChar at hs ⊢
  generalize c.val.toNat = n at hs hc ⊢
  dsimp only at hs ⊢
  split_ifs at hs ⊢ with h₁ h₂ h₃
  all_goals
    simp only [List.cons_append, List.nil_append]
    conv_lhs => rw [utf8Decode.eq_def]
    simp only [UInt8.toNat_ofNat']
  · rw [if_pos (by omega), hs _ (by omega)]
    cases utf8Decode t <;> rfl
  · rw [if_neg (by omega), if_pos (by omega), hs _ (by omega)]
    cases utf8Decode t <;> rfl
  · rw [if_neg (by omega), if_neg (by omega), if_pos (by omega), hs _ (by omega)]
    cases utf8Decode t <;> rfl
  · rw [if_neg (by omega), if_neg (by omega), if_neg (by omega), hs _ (by omega)]
    cases utf8Decode t <;> rfl

/-- Decoding gives back the text that was encoded. -/
@[simp] theorem utf8Decode_utf8 (s : List Char) : utf8Decode (utf8 s) = some s := by
  induction s with
  | nil => rfl
  | cons c s ih => rw [utf8_cons, utf8Decode_encodeChar_append, ih]; rfl

theorem utf8_injective : Function.Injective utf8 := fun s t h ↦ by
  simpa using congrArg utf8Decode h

theorem length_utf8EncodeChar_pos (c : Char) : 0 < (String.utf8EncodeChar c).length := by
  unfold String.utf8EncodeChar
  dsimp only
  split_ifs <;> simp

@[simp] theorem utf8_eq_nil {s : List Char} : utf8 s = [] ↔ s = [] := by
  cases s with
  | nil => simp
  | cons c s =>
    have := length_utf8EncodeChar_pos c
    simp only [utf8_cons, List.append_eq_nil_iff, reduceCtorEq, iff_false, not_and]
    intro h
    simp [h] at this

/-! ## UTF-16 -/

/-- The UTF-16 units of a scalar: itself, or a surrogate pair. -/
def utf16EncodeChar (c : Char) : List UInt16 :=
  if c.toNat < 0x10000 then [.ofNat c.toNat]
  else [.ofNat (0xD800 + (c.toNat - 0x10000) / 0x400),
    .ofNat (0xDC00 + (c.toNat - 0x10000) % 0x400)]

/-- The UTF-16 units of a text. -/
def utf16 (s : List Char) : List UInt16 := s.flatMap utf16EncodeChar

@[simp] theorem utf16_nil : utf16 [] = [] := rfl

@[simp] theorem utf16_cons (c : Char) (s : List Char) :
    utf16 (c :: s) = utf16EncodeChar c ++ utf16 s := rfl

@[simp] theorem utf16_append (s t : List Char) : utf16 (s ++ t) = utf16 s ++ utf16 t := by
  simp [utf16]

/-- The first unit of a surrogate pair. -/
def isHigh (u : UInt16) : Bool := 0xD800 ≤ u.toNat && u.toNat < 0xDC00

/-- The second unit of a surrogate pair. -/
def isLow (u : UInt16) : Bool := 0xDC00 ≤ u.toNat && u.toNat < 0xE000

/-- The scalar of a surrogate pair. -/
def ofPair (h l : UInt16) : Char :=
  .ofNat (0x10000 + (h.toNat - 0xD800) * 0x400 + (l.toNat - 0xDC00))

/-- Strict UTF-16 decoding: a surrogate outside a pair is an error. -/
def utf16Decode : List UInt16 → Option (List Char)
  | [] => some []
  | u :: t₁ =>
    if isHigh u then match t₁ with
      | [] => none
      | l :: t₂ => if isLow l then (utf16Decode t₂).map (ofPair u l :: ·) else none
    else if isLow u then none
    else (utf16Decode t₁).map (Char.ofNat u.toNat :: ·)

theorem not_surrogate (c : Char) : ¬(0xD800 ≤ c.toNat ∧ c.toNat < 0xE000) := by
  have h := c.valid
  simp only [UInt32.isValidChar, Nat.isValidChar] at h
  change ¬(0xD800 ≤ c.val.toNat ∧ c.val.toNat < 0xE000)
  omega

theorem utf16Decode_encodeChar_append (c : Char) (t : List UInt16) :
    utf16Decode (utf16EncodeChar c ++ t) = (utf16Decode t).map (c :: ·) := by
  have hlt := toNat_lt c
  have hsur := not_surrogate c
  unfold utf16EncodeChar
  split_ifs with h
  · have hn : (UInt16.ofNat c.toNat).toNat = c.toNat := by
      rw [UInt16.toNat_ofNat']; omega
    have hhi : isHigh (.ofNat c.toNat) = false := by simp [isHigh, hn]; omega
    have hlo : isLow (.ofNat c.toNat) = false := by simp [isLow, hn]; omega
    simp only [List.cons_append, List.nil_append]
    conv_lhs => rw [utf16Decode.eq_def]
    simp only [hhi, hlo, hn, Char.ofNat_toNat, Bool.false_eq_true, if_false]
  · set v := c.toNat - 0x10000 with hv
    have h₁ : (UInt16.ofNat (0xD800 + v / 0x400)).toNat = 0xD800 + v / 0x400 := by
      rw [UInt16.toNat_ofNat']; omega
    have h₂ : (UInt16.ofNat (0xDC00 + v % 0x400)).toNat = 0xDC00 + v % 0x400 := by
      rw [UInt16.toNat_ofNat']; omega
    have hhi : isHigh (.ofNat (0xD800 + v / 0x400)) = true := by
      simp only [isHigh, h₁, Bool.and_eq_true, decide_eq_true_eq]
      omega
    have hlo : isLow (.ofNat (0xDC00 + v % 0x400)) = true := by
      simp only [isLow, h₂, Bool.and_eq_true, decide_eq_true_eq]
      omega
    have hp : ofPair (.ofNat (0xD800 + v / 0x400)) (.ofNat (0xDC00 + v % 0x400)) = c := by
      unfold ofPair
      rw [h₁, h₂, show 0x10000 + (0xD800 + v / 0x400 - 0xD800) * 0x400 +
        (0xDC00 + v % 0x400 - 0xDC00) = c.toNat by omega, Char.ofNat_toNat]
    simp only [List.cons_append, List.nil_append]
    conv_lhs => rw [utf16Decode.eq_def]
    simp only [hhi, hlo, hp, if_true]

/-- Decoding gives back the text that was encoded. -/
@[simp] theorem utf16Decode_utf16 (s : List Char) : utf16Decode (utf16 s) = some s := by
  induction s with
  | nil => rfl
  | cons c s ih => rw [utf16_cons, utf16Decode_encodeChar_append, ih]; rfl

theorem utf16_injective : Function.Injective utf16 := fun s t h ↦ by
  simpa using congrArg utf16Decode h

theorem utf16EncodeChar_ne_nil (c : Char) : utf16EncodeChar c ≠ [] := by
  unfold utf16EncodeChar
  split_ifs <;> simp

@[simp] theorem utf16_eq_nil {s : List Char} : utf16 s = [] ↔ s = [] := by
  cases s with
  | nil => simp
  | cons c s => simp [utf16EncodeChar_ne_nil]

/-- The units of a pair are those that its scalar is encoded in. -/
theorem utf16EncodeChar_ofPair {u v : UInt16} (hu : isHigh u = true) (hv : isLow v = true) :
    utf16EncodeChar (ofPair u v) = [u, v] := by
  simp only [isHigh, isLow, Bool.and_eq_true, decide_eq_true_eq] at hu hv
  have hvalid : Nat.isValidChar (0x10000 + (u.toNat - 0xD800) * 0x400 + (v.toNat - 0xDC00)) := by
    refine .inr ⟨?_, ?_⟩ <;> omega
  have hchar : (ofPair u v).toNat = 0x10000 + (u.toNat - 0xD800) * 0x400 + (v.toNat - 0xDC00) := by
    rw [ofPair, Char.toNat_ofNat, if_pos hvalid]
  have hhigh : 0xD800 + ((ofPair u v).toNat - 0x10000) / 0x400 = u.toNat := by omega
  have hlow : 0xDC00 + ((ofPair u v).toNat - 0x10000) % 0x400 = v.toNat := by omega
  rw [utf16EncodeChar, if_neg (by omega), hhigh, hlow, UInt16.ofNat_toNat, UInt16.ofNat_toNat]

theorem utf16EncodeChar_ofNat {u : UInt16} (hu : isHigh u = false) (hl : isLow u = false) :
    utf16EncodeChar (Char.ofNat u.toNat) = [u] := by
  have hlt := u.toNat_lt
  simp only [isHigh, isLow, Bool.and_eq_false_iff, decide_eq_false_iff_not] at hu hl
  have hvalid : Nat.isValidChar u.toNat := by
    unfold Nat.isValidChar
    omega
  have hchar : (Char.ofNat u.toNat).toNat = u.toNat := by rw [Char.toNat_ofNat, if_pos hvalid]
  rw [utf16EncodeChar, hchar, if_pos (by omega), UInt16.ofNat_toNat]

/-- What is decoded is what was encoded. -/
theorem utf16Decode_eq_some {w : List UInt16} {s : List Char} :
    utf16Decode w = some s ↔ w = utf16 s := by
  constructor
  · intro h
    induction w using utf16Decode.induct generalizing s with
    | case1 =>
      obtain rfl := Option.some.inj h
      rfl
    | case2 u hu =>
      rw [utf16Decode.eq_def] at h
      dsimp only at h
      rw [if_pos hu] at h
      cases h
    | case3 u hu v t hv ih =>
      rw [utf16Decode.eq_def] at h
      dsimp only at h
      rw [if_pos hu, if_pos hv, Option.map_eq_some_iff] at h
      obtain ⟨s, hs, rfl⟩ := h
      rw [utf16_cons, utf16EncodeChar_ofPair hu hv, ih hs]
      rfl
    | case4 u hu v t hv =>
      rw [utf16Decode.eq_def] at h
      dsimp only at h
      rw [if_pos hu, if_neg hv] at h
      cases h
    | case5 u t hu hl =>
      rw [utf16Decode.eq_def] at h
      dsimp only at h
      rw [if_neg hu, if_pos hl] at h
      cases h
    | case6 u t hu hl ih =>
      rw [utf16Decode.eq_def] at h
      dsimp only at h
      rw [if_neg hu, if_neg hl, Option.map_eq_some_iff] at h
      obtain ⟨s, hs, rfl⟩ := h
      rw [utf16_cons, utf16EncodeChar_ofNat (by simpa using hu) (by simpa using hl), ih hs]
      rfl
  · rintro rfl
    exact utf16Decode_utf16 s

/-- No scalar takes fewer bytes than units. -/
theorem length_utf16_le (s : List Char) : (utf16 s).length ≤ (utf8 s).length := by
  induction s with
  | nil => exact Nat.zero_le _
  | cons c s ih =>
    have hone : (utf16EncodeChar c).length ≤ (String.utf8EncodeChar c).length := by
      rw [String.length_utf8EncodeChar, utf16EncodeChar]
      split_ifs with h
      · exact c.utf8Size_pos
      · have hne : c.utf8Size ≠ 1 := by
          rw [ne_eq, Char.utf8Size_eq_one_iff, UInt32.le_iff_toNat_le]
          exact fun hle ↦ h (hle.trans_lt (by decide))
        have hpos := c.utf8Size_pos
        rw [List.length_cons, List.length_singleton]
        omega
    rw [utf16_cons, utf8_cons, List.length_append, List.length_append]
    exact Nat.add_le_add hone ih

/-- No unit takes more than three bytes. -/
theorem length_utf8_le (s : List Char) : (utf8 s).length ≤ 3 * (utf16 s).length := by
  induction s with
  | nil => exact Nat.zero_le _
  | cons c s ih =>
    have hone : (String.utf8EncodeChar c).length ≤ 3 * (utf16EncodeChar c).length := by
      rw [String.length_utf8EncodeChar, utf16EncodeChar]
      split_ifs with h
      · have hle : c.utf8Size ≤ 4 := c.utf8Size_le_four
        have hne : c.utf8Size ≠ 4 := by
          rw [ne_eq, Char.utf8Size_eq_four_iff, UInt32.lt_iff_toNat_lt]
          exact fun hlt ↦ absurd (Nat.succ_le_of_lt hlt) (not_le.mpr h)
        rw [List.length_singleton]
        omega
      · have hle : c.utf8Size ≤ 4 := c.utf8Size_le_four
        rw [List.length_cons, List.length_singleton]
        omega
    rw [utf16_cons, utf8_cons, List.length_append, List.length_append]
    omega

end Utf
