import EsOdbc.Lib.Utf

/-!
# JSON strings

What the bytes between the quotes of a JSON string denote.  `tokens` undoes the escapes one by
one, up to the closing quote; `encode` puts the UTF-16 units among them together.  Bytes from
`0x80` on are taken as they are.
-/

namespace Json

/-- `"` and `\`. -/
def quote : UInt8 := 0x22
def backslash : UInt8 := 0x5C

/-- One byte of the text of a string, or one UTF-16 unit. -/
inductive Token where
  | byte (b : UInt8)
  | unit (u : UInt16)
deriving DecidableEq, Repr

/-- The value of a hexadecimal digit. -/
def hexDigit (b : UInt8) : Option ℕ :=
  if 0x30 ≤ b ∧ b ≤ 0x39 then some (b.toNat - 0x30)
  else if 0x41 ≤ b ∧ b ≤ 0x46 then some (b.toNat - 0x41 + 10)
  else if 0x61 ≤ b ∧ b ≤ 0x66 then some (b.toNat - 0x61 + 10)
  else none

/-- The value of four of them. -/
def hex4 (a b c d : UInt8) : Option UInt16 := do
  return .ofNat ((((← hexDigit a) * 16 + (← hexDigit b)) * 16 + (← hexDigit c)) * 16 + (← hexDigit d))

/-- The byte that a two-character escape stands for. -/
def simpleEscape (e : UInt8) : Option UInt8 :=
  if e = quote ∨ e = backslash ∨ e = 0x2F then some e
  else if e = 0x62 then some 0x08
  else if e = 0x66 then some 0x0C
  else if e = 0x6E then some 0x0A
  else if e = 0x72 then some 0x0D
  else if e = 0x74 then some 0x09
  else none

/-- A byte that stands for itself. -/
def Plain (b : UInt8) : Prop := 0x20 ≤ b ∧ b ≠ quote ∧ b ≠ backslash

instance (b : UInt8) : Decidable (Plain b) := by
  unfold Plain
  infer_instance

/-- The tokens up to the closing quote, and the bytes behind it. -/
def tokens : List UInt8 → Option (List Token × List UInt8)
  | [] => none
  | b :: rest =>
    if b = quote then some ([], rest)
    else if b = backslash then
      match rest with
      | [] => none
      | e :: rest =>
        if e = 0x75 then
          match rest with
          | a :: b :: c :: d :: rest => do
            let u ← hex4 a b c d
            let (ts, rest) ← tokens rest
            return (.unit u :: ts, rest)
          | _ => none
        else do
          let c ← simpleEscape e
          let (ts, rest) ← tokens rest
          return (.byte c :: ts, rest)
    else if b < 0x20 then none
    else do
      let (ts, rest) ← tokens rest
      return (.byte b :: ts, rest)

/-- The bytes of the tokens; a surrogate counts only in a pair. -/
def encode : List Token → Option (List UInt8)
  | [] => some []
  | .byte b :: ts => do return b :: (← encode ts)
  | .unit u :: ts =>
    if Utf.isHigh u then
      match ts with
      | .unit v :: ts =>
        if Utf.isLow v then do return Utf.utf8 [Utf.ofPair u v] ++ (← encode ts) else none
      | _ => none
    else if Utf.isLow u then none
    else do return Utf.utf8 [Char.ofNat u.toNat] ++ (← encode ts)

/-- The text of a string, from behind the opening quote, and what is behind the closing one. -/
def string (bytes : List UInt8) : Option (List UInt8 × List UInt8) := do
  let (ts, rest) ← tokens bytes
  return (← encode ts, rest)

theorem tokens_cons_plain {b : UInt8} (h : Plain b) (bytes : List UInt8) :
    tokens (b :: bytes) = (tokens bytes).map fun p ↦ (.byte b :: p.1, p.2) := by
  obtain ⟨hlow, hquote, hback⟩ := h
  rw [tokens.eq_def]
  dsimp only
  rw [if_neg hquote, if_neg hback, if_neg (UInt8.not_lt.mpr hlow)]
  cases tokens bytes <;> rfl

theorem tokens_plain {bytes : List UInt8} (h : ∀ b ∈ bytes, Plain b) (rest : List UInt8) :
    tokens (bytes ++ quote :: rest) = some (bytes.map .byte, rest) := by
  induction bytes with
  | nil =>
    rw [List.nil_append, tokens.eq_def]
    exact if_pos rfl
  | cons b bytes ih =>
    rw [List.cons_append, tokens_cons_plain (h b List.mem_cons_self),
      ih fun b hb ↦ h b (List.mem_cons_of_mem _ hb)]
    rfl

theorem encode_bytes (bytes : List UInt8) : encode (bytes.map .byte) = some bytes := by
  induction bytes with
  | nil => rfl
  | cons b bytes ih => rw [List.map_cons, encode, ih]; rfl

/-- Bytes that stand for themselves denote themselves. -/
theorem string_plain {bytes : List UInt8} (h : ∀ b ∈ bytes, Plain b) (rest : List UInt8) :
    string (bytes ++ quote :: rest) = some (bytes, rest) := by
  rw [string, tokens_plain h]
  change (encode (bytes.map .byte)).bind _ = _
  rw [encode_bytes]
  rfl

/-- Bytes that denote one byte, whatever is behind them. -/
def Denotes (e : List UInt8) (b : UInt8) : Prop :=
  ∀ bytes, string (e ++ bytes) = (string bytes).map fun p ↦ (b :: p.1, p.2)

/-- The bytes of a token that stands for a byte. -/
theorem denotes_token {e : List UInt8} {t : Token} {b : UInt8}
    (he : ∀ bytes, tokens (e ++ bytes) = (tokens bytes).map fun p ↦ (t :: p.1, p.2))
    (ht : ∀ ts, encode (t :: ts) = (encode ts).map (b :: ·)) : Denotes e b := by
  intro bytes
  rw [string, string, he]
  cases tokens bytes with
  | none => rfl
  | some p =>
    change (encode (t :: p.1)).bind _ = ((encode p.1).bind _).map _
    rw [ht]
    cases encode p.1 <;> rfl

theorem denotes_plain {b : UInt8} (h : Plain b) : Denotes [b] b := by
  refine denotes_token (tokens_cons_plain h) fun ts ↦ ?_
  rw [encode]
  cases encode ts <;> rfl

/-- A two-character escape. -/
theorem denotes_simple {e b : UInt8} (he : simpleEscape e = some b) : Denotes [backslash, e] b := by
  have hu : e ≠ 0x75 := by
    rintro rfl
    cases he
  refine @denotes_token _ (.byte b) b (fun bytes ↦ ?_) fun ts ↦ ?_
  · rw [List.cons_append, List.singleton_append, tokens.eq_def]
    dsimp only
    rw [if_neg (by decide), if_pos rfl, if_neg hu, he]
    cases tokens bytes <;> rfl
  · rw [encode]
    cases encode ts <;> rfl

/-- The escape of a unit that is encoded in one byte. -/
theorem denotes_hex {w x y z b : UInt8} {u : UInt16} (hu : hex4 w x y z = some u)
    (hhigh : Utf.isHigh u = false) (hlow : Utf.isLow u = false)
    (hb : Utf.utf8 [Char.ofNat u.toNat] = [b]) : Denotes [backslash, 0x75, w, x, y, z] b := by
  refine @denotes_token _ (.unit u) b (fun bytes ↦ ?_) fun ts ↦ ?_
  · simp only [List.cons_append, List.nil_append]
    rw [tokens.eq_def]
    dsimp only
    rw [if_neg (by decide), if_pos rfl, if_pos rfl, hu]
    cases tokens bytes <;> rfl
  · rw [encode.eq_def]
    dsimp only
    rw [if_neg (by simp [hhigh]), if_neg (by simp [hlow]), hb]
    cases encode ts <;> rfl

/-- A string that is written byte by byte denotes its bytes. -/
theorem string_denotes {f : UInt8 → List UInt8} (h : ∀ b, Denotes (f b) b) (bytes rest : List UInt8) :
    string (bytes.flatMap f ++ quote :: rest) = some (bytes, rest) := by
  induction bytes with
  | nil => exact string_plain (List.forall_mem_nil _) rest
  | cons b bytes ih =>
    rw [List.flatMap_cons, List.append_assoc, h b, ih]
    rfl

end Json
