import EsOdbc.Lib.Json

/-!
# JSON texts

A parser of JSON texts.  It keeps the spelling of a number and the order of the members of an
object; what a string denotes is `string`'s.  Beside it stand the rules by which a text that is
put together of the texts of its parts is read.
-/

namespace Json

/-- What a JSON text denotes. -/
inductive Value where
  | null
  | bool (b : Bool)
  | number (lexeme : List UInt8)
  | string (s : List UInt8)
  | array (vs : List Value)
  | object (ms : List (List UInt8 × Value))

def comma : UInt8 := 0x2C
def colon : UInt8 := 0x3A
def openBracket : UInt8 := 0x5B
def closeBracket : UInt8 := 0x5D
def openBrace : UInt8 := 0x7B
def closeBrace : UInt8 := 0x7D

def isBlank (b : UInt8) : Bool := b = 0x20 || b = 0x09 || b = 0x0A || b = 0x0D

def isDigit (b : UInt8) : Bool := 0x30 ≤ b && b ≤ 0x39

/-- What is behind the blanks. -/
def skip (bytes : List UInt8) : List UInt8 := bytes.dropWhile isBlank

/-! ## Numbers -/

/-- What is behind a character that may be there. -/
def optional (p : UInt8 → Bool) : List UInt8 → List UInt8
  | [] => []
  | b :: rest => if p b then rest else b :: rest

/-- What is behind one digit or more. -/
def digits : List UInt8 → Option (List UInt8)
  | [] => none
  | b :: rest => if isDigit b then some (rest.dropWhile isDigit) else none

/-- What is behind an integer without a sign; it has no leading zero. -/
def whole : List UInt8 → Option (List UInt8)
  | [] => none
  | b :: rest => if b = 0x30 then some rest else digits (b :: rest)

/-- What is behind a fraction that may be there. -/
def fraction : List UInt8 → Option (List UInt8)
  | [] => some []
  | b :: rest => if b = 0x2E then digits rest else some (b :: rest)

/-- What is behind an exponent that may be there. -/
def exponent : List UInt8 → Option (List UInt8)
  | [] => some []
  | b :: rest =>
    if b = 0x65 ∨ b = 0x45 then digits (optional (fun c ↦ c = 0x2B || c = 0x2D) rest)
    else some (b :: rest)

/-- What is behind a number. -/
def number (bytes : List UInt8) : Option (List UInt8) :=
  ((whole (optional (· = 0x2D) bytes)).bind fraction).bind exponent

/-! ## The parser -/

/-- Things with commas between them, up to a closing character. -/
def items {α : Type} (one : List UInt8 → Option (α × List UInt8)) (close : UInt8) :
    ℕ → List UInt8 → Option (List α × List UInt8)
  | 0, _ => none
  | n + 1, bytes => (one bytes).bind fun p ↦
    match skip p.2 with
    | [] => none
    | b :: rest =>
      if b = close then some ([p.1], rest)
      else if b = comma then (items one close n rest).map fun q ↦ (p.1 :: q.1, q.2)
      else none

/-- Any number of such things. -/
def sequence {α : Type} (one : List UInt8 → Option (α × List UInt8)) (close : UInt8)
    (bytes : List UInt8) : Option (List α × List UInt8) :=
  match skip bytes with
  | [] => none
  | b :: rest => if b = close then some ([], rest) else items one close bytes.length bytes

/-- A member of an object. -/
def member (read : List UInt8 → Option (Value × List UInt8)) (bytes : List UInt8) :
    Option ((List UInt8 × Value) × List UInt8) :=
  match skip bytes with
  | [] => none
  | b :: rest =>
    if b = quote then (string rest).bind fun p ↦
      match skip p.2 with
      | [] => none
      | c :: rest => if c = colon then (read rest).map fun q ↦ ((p.1, q.1), q.2) else none
    else none

def nullText : List UInt8 := [0x6E, 0x75, 0x6C, 0x6C]
def trueText : List UInt8 := [0x74, 0x72, 0x75, 0x65]
def falseText : List UInt8 := [0x66, 0x61, 0x6C, 0x73, 0x65]

/-- A value that is no string, array or object. -/
def scalar (bytes : List UInt8) : Option (Value × List UInt8) :=
  if nullText <+: bytes then some (.null, bytes.drop nullText.length)
  else if trueText <+: bytes then some (.bool true, bytes.drop trueText.length)
  else if falseText <+: bytes then some (.bool false, bytes.drop falseText.length)
  else (number bytes).map fun rest ↦ (.number (bytes.take (bytes.length - rest.length)), rest)

/-- A value that nests less deep than a bound, and what is behind it. -/
def value : ℕ → List UInt8 → Option (Value × List UInt8)
  | 0, _ => none
  | depth + 1, bytes =>
    match skip bytes with
    | [] => none
    | b :: rest =>
      if b = quote then (string rest).map fun p ↦ (.string p.1, p.2)
      else if b = openBracket then
        (sequence (value depth) closeBracket rest).map fun p ↦ (.array p.1, p.2)
      else if b = openBrace then
        (sequence (member (value depth)) closeBrace rest).map fun p ↦ (.object p.1, p.2)
      else scalar (b :: rest)

/-- The value of a text. -/
def parse (bytes : List UInt8) : Option Value :=
  (value bytes.length bytes).bind fun p ↦ if skip p.2 = [] then some p.1 else none

/-! ## What ends a value -/

/-- The text goes on with a character that no value goes on with. -/
def Delimited (rest : List UInt8) : Prop :=
  ∀ b ∈ rest.head?, b = comma ∨ b = closeBracket ∨ b = closeBrace

theorem delimited_nil : Delimited [] := fun _ hb ↦ by cases hb

theorem delimited_comma (rest : List UInt8) : Delimited (comma :: rest) := by
  intro b hb
  cases hb
  exact Or.inl rfl

theorem delimited_bracket (rest : List UInt8) : Delimited (closeBracket :: rest) := by
  intro b hb
  cases hb
  exact Or.inr (Or.inl rfl)

theorem delimited_brace (rest : List UInt8) : Delimited (closeBrace :: rest) := by
  intro b hb
  cases hb
  exact Or.inr (Or.inr rfl)

theorem Delimited.cases {rest : List UInt8} (h : Delimited rest) :
    rest = [] ∨ ∃ b tail, rest = b :: tail ∧ (b = comma ∨ b = closeBracket ∨ b = closeBrace) := by
  cases rest with
  | nil => exact Or.inl rfl
  | cons b tail => exact Or.inr ⟨b, tail, rfl, h b rfl⟩

theorem skip_cons {b : UInt8} (h : isBlank b = false) (bytes : List UInt8) :
    skip (b :: bytes) = b :: bytes := by
  rw [skip, List.dropWhile_cons_of_neg (by simp [h])]

@[simp] theorem skip_blank (bytes : List UInt8) : skip (0x20 :: bytes) = skip bytes :=
  List.dropWhile_cons_of_pos rfl

theorem dropWhile_digits {rest : List UInt8} (h : Delimited rest) (bytes : List UInt8) :
    (bytes ++ rest).dropWhile isDigit = bytes.dropWhile isDigit ++ rest := by
  induction bytes with
  | nil => rcases h.cases with rfl | ⟨b, tail, rfl, rfl | rfl | rfl⟩ <;> rfl
  | cons b bytes ih =>
    rw [List.cons_append, List.dropWhile_cons, List.dropWhile_cons]
    split_ifs
    · exact ih
    · rfl

/-! ## Numbers in front of something -/

/-- What a scanner leaves of a text, it leaves of it in front of what ends a value. -/
def Extends (f : List UInt8 → Option (List UInt8)) : Prop :=
  ∀ bytes r, f bytes = some r → ∀ rest, Delimited rest → f (bytes ++ rest) = some (r ++ rest)

theorem Extends.bind {f g : List UInt8 → Option (List UInt8)} (hf : Extends f) (hg : Extends g) :
    Extends fun bytes ↦ (f bytes).bind g := by
  intro bytes r h rest hrest
  obtain ⟨s, hs, hr⟩ := Option.bind_eq_some_iff.mp h
  change (f (bytes ++ rest)).bind g = _
  rw [hf bytes s hs rest hrest]
  exact hg s r hr rest hrest

theorem optional_append {p : UInt8 → Bool} (hcomma : p comma = false)
    (hbracket : p closeBracket = false) (hbrace : p closeBrace = false) {rest : List UInt8}
    (h : Delimited rest) (bytes : List UInt8) :
    optional p (bytes ++ rest) = optional p bytes ++ rest := by
  cases bytes with
  | nil =>
    rcases h.cases with rfl | ⟨b, tail, rfl, rfl | rfl | rfl⟩
    · rfl
    · simp [optional, hcomma]
    · simp [optional, hbracket]
    · simp [optional, hbrace]
  | cons b bytes =>
    rw [List.cons_append, optional, optional]
    split_ifs <;> rfl

theorem extends_digits : Extends digits := by
  intro bytes r h rest hrest
  cases bytes with
  | nil => cases h
  | cons b bytes =>
    rw [List.cons_append]
    rw [digits] at h ⊢
    split_ifs at h ⊢
    rw [dropWhile_digits hrest, ← Option.some.inj h]

theorem extends_whole : Extends whole := by
  intro bytes r h rest hrest
  cases bytes with
  | nil => cases h
  | cons b bytes =>
    rw [List.cons_append]
    rw [whole] at h ⊢
    split_ifs at h ⊢
    · rw [← Option.some.inj h]
    · exact extends_digits _ r h rest hrest

theorem extends_fraction : Extends fraction := by
  intro bytes r h rest hrest
  cases bytes with
  | nil =>
    cases h
    rcases hrest.cases with rfl | ⟨b, tail, rfl, rfl | rfl | rfl⟩ <;> rfl
  | cons b bytes =>
    rw [List.cons_append]
    rw [fraction] at h ⊢
    split_ifs at h ⊢
    · exact extends_digits _ r h rest hrest
    · cases h
      rfl

theorem extends_exponent : Extends exponent := by
  intro bytes r h rest hrest
  cases bytes with
  | nil =>
    cases h
    rcases hrest.cases with rfl | ⟨b, tail, rfl, rfl | rfl | rfl⟩ <;> rfl
  | cons b bytes =>
    rw [List.cons_append]
    rw [exponent] at h ⊢
    split_ifs at h ⊢
    · rw [optional_append rfl rfl rfl hrest]
      exact extends_digits _ r h rest hrest
    · cases h
      rfl

theorem extends_number : Extends number := by
  intro bytes r h rest hrest
  rw [number] at h ⊢
  rw [optional_append rfl rfl rfl hrest]
  exact ((extends_whole.bind extends_fraction).bind extends_exponent) _ r h rest hrest

/-! ## Rules for the parts -/

/-- The text of a value, wherever it stands. -/
def Reads (text : List UInt8) (v : Value) : Prop :=
  ∀ depth rest, text.length ≤ depth → Delimited rest → value depth (text ++ rest) = some (v, rest)

/-- The whole of a text is its value. -/
theorem Reads.parse {text : List UInt8} {v : Value} (h : Reads text v) : parse text = some v := by
  have hvalue := h text.length [] le_rfl delimited_nil
  rw [List.append_nil] at hvalue
  rw [Json.parse, hvalue]
  rfl

theorem reads_string {t s : List UInt8} (h : ∀ rest, string (t ++ quote :: rest) = some (s, rest)) :
    Reads (quote :: t ++ [quote]) (.string s) := by
  intro depth rest hdepth _
  obtain ⟨depth, rfl⟩ : ∃ d, depth = d + 1 := Nat.exists_eq_add_of_le' (by
    rw [List.cons_append, List.length_cons] at hdepth
    omega)
  have htext : quote :: t ++ [quote] ++ rest = quote :: (t ++ quote :: rest) := by simp
  rw [htext, value, skip_cons rfl]
  dsimp only
  rw [if_pos rfl, h]
  rfl

theorem reads_null : Reads nullText .null := by
  intro depth rest hdepth _
  obtain ⟨depth, rfl⟩ : ∃ d, depth = d + 1 := Nat.exists_eq_add_of_le' (Nat.one_le_of_lt hdepth)
  rfl

theorem reads_bool (b : Bool) : Reads (if b then trueText else falseText) (.bool b) := by
  intro depth rest hdepth _
  obtain ⟨depth, rfl⟩ : ∃ d, depth = d + 1 := by
    have hpos : 0 < (if b then trueText else falseText).length := by cases b <;> decide
    exact Nat.exists_eq_add_of_le' (hpos.trans_le hdepth)
  cases b <;> rfl

/-- What a number begins with. -/
theorem number_head {b : UInt8} {bytes r : List UInt8} (h : number (b :: bytes) = some r) :
    b = 0x2D ∨ isDigit b = true := by
  obtain ⟨s, hs, -⟩ := Option.bind_eq_some_iff.mp h
  obtain ⟨t, ht, -⟩ := Option.bind_eq_some_iff.mp hs
  by_cases hminus : b = 0x2D
  · exact Or.inl hminus
  · apply Or.inr
    have hoptional : optional (· = 0x2D) (b :: bytes) = b :: bytes := by simp [optional, hminus]
    rw [hoptional, whole] at ht
    split_ifs at ht with hzero
    · subst hzero
      rfl
    · rw [digits] at ht
      split_ifs at ht with hdigit
      exact hdigit

theorem reads_number {lexeme : List UInt8} (h : number lexeme = some []) :
    Reads lexeme (.number lexeme) := by
  intro depth rest hdepth hrest
  cases lexeme with
  | nil => cases h
  | cons b bytes =>
    obtain ⟨depth, rfl⟩ : ∃ d, depth = d + 1 := Nat.exists_eq_add_of_le' (Nat.one_le_of_lt hdepth)
    have hhead := number_head h
    have hother (c : UInt8) (hc : c ≠ 0x2D) (hdigit : isDigit c = false) : b ≠ c := by
      rintro rfl
      rcases hhead with hhead | hhead
      · exact hc hhead
      · rw [hdigit] at hhead
        cases hhead
    have hblank : isBlank b = false := by
      have hspace := hother 0x20 (by decide) rfl
      have htab := hother 0x09 (by decide) rfl
      have hfeed := hother 0x0A (by decide) rfl
      have hreturn := hother 0x0D (by decide) rfl
      simp [isBlank, hspace, htab, hfeed, hreturn]
    have hstart (c : UInt8) (cs : List UInt8) (hc : c ≠ 0x2D) (hdigit : isDigit c = false) :
        ¬c :: cs <+: b :: (bytes ++ rest) := by
      intro hpre
      exact hother c hc hdigit (List.cons_prefix_cons.mp hpre).1.symm
    have hnumber := extends_number _ _ h rest hrest
    rw [List.cons_append] at hnumber ⊢
    rw [value, skip_cons hblank]
    dsimp only
    rw [if_neg (hother _ (by decide) rfl), if_neg (hother _ (by decide) rfl),
      if_neg (hother _ (by decide) rfl), scalar, nullText, trueText, falseText,
      if_neg (hstart _ _ (by decide) rfl), if_neg (hstart _ _ (by decide) rfl),
      if_neg (hstart _ _ (by decide) rfl), hnumber, List.nil_append, Option.map_some,
      ← List.cons_append, List.length_append, Nat.add_sub_cancel, List.take_left]

@[simp] theorem value_blank (depth : ℕ) (bytes : List UInt8) :
    value depth (0x20 :: bytes) = value depth bytes := by
  cases depth with
  | zero => rfl
  | succ depth => rw [value, value, skip_blank]

/-! ## Rules for the wholes -/

/-- A text behind another. -/
def later (t : List UInt8) : List UInt8 := comma :: 0x20 :: t

/-- Texts with a comma and a blank between them. -/
def joined : List (List UInt8) → List UInt8
  | [] => []
  | t :: ts => t ++ ts.flatMap later

theorem length_le_flatMap {t : List UInt8} {ts : List (List UInt8)} (h : t ∈ ts) :
    t.length ≤ (ts.flatMap later).length := by
  induction ts with
  | nil => cases h
  | cons u ts ih =>
    rw [List.flatMap_cons, List.length_append]
    rcases List.mem_cons.mp h with rfl | h
    · simp only [later, List.length_cons]
      omega
    · exact (ih h).trans (Nat.le_add_left ..)

theorem length_le_joined {t : List UInt8} {ts : List (List UInt8)} (h : t ∈ ts) :
    t.length ≤ (joined ts).length := by
  cases ts with
  | nil => cases h
  | cons u ts =>
    rw [joined, List.length_append]
    rcases List.mem_cons.mp h with rfl | h
    · exact Nat.le_add_right ..
    · exact (length_le_flatMap h).trans (Nat.le_add_left ..)

theorem length_le_length_joined (ts : List (List UInt8)) : ts.length ≤ (joined ts).length + 1 := by
  cases ts with
  | nil => exact Nat.zero_le _
  | cons t ts =>
    have hts : ts.length ≤ (ts.flatMap later).length := by
      induction ts with
      | nil => exact le_rfl
      | cons u ts ih =>
        rw [List.flatMap_cons, List.length_append, later, List.length_cons, List.length_cons]
        omega
    rw [joined, List.length_append, List.length_cons]
    omega

section Sequence

variable {α : Type} {one : List UInt8 → Option (α × List UInt8)} {close : UInt8}

/-- A text that a reader takes for one thing. -/
def Takes (one : List UInt8 → Option (α × List UInt8)) (text : List UInt8) (x : α) : Prop :=
  ∀ rest, Delimited rest → one (text ++ rest) = some (x, rest)

theorem items_blank (hblank : ∀ bytes, one (0x20 :: bytes) = one bytes) (n : ℕ)
    (bytes : List UInt8) : items one close n (0x20 :: bytes) = items one close n bytes := by
  cases n with
  | zero => rfl
  | succ n => rw [items, items, hblank]

theorem items_joined (hblank : ∀ bytes, one (0x20 :: bytes) = one bytes)
    (hclose : close = closeBracket ∨ close = closeBrace) {texts : List (List UInt8)} {xs : List α}
    (h : List.Forall₂ (Takes one) texts xs) {t : List UInt8} {x : α} (hx : Takes one t x)
    {n : ℕ} (hn : texts.length < n) (rest : List UInt8) :
    items one close n (joined (t :: texts) ++ close :: rest) = some (x :: xs, rest) := by
  have hcomma : comma ≠ close := by rcases hclose with rfl | rfl <;> decide
  have hplain : isBlank close = false := by rcases hclose with rfl | rfl <;> rfl
  have hdelimited : Delimited (close :: rest) := by
    rcases hclose with rfl | rfl
    · exact delimited_bracket rest
    · exact delimited_brace rest
  induction h generalizing t x n with
  | nil =>
    obtain ⟨n, rfl⟩ : ∃ m, n = m + 1 := Nat.exists_eq_add_of_le' (Nat.one_le_of_lt hn)
    rw [joined, List.flatMap_nil, List.append_nil, items, hx _ hdelimited, Option.bind_some]
    dsimp only
    rw [skip_cons hplain]
    exact if_pos rfl
  | @cons u y texts xs hy hxs ih =>
    obtain ⟨n, rfl⟩ : ∃ m, n = m + 1 := Nat.exists_eq_add_of_le' (Nat.one_le_of_lt hn)
    have htext : joined (t :: u :: texts) ++ close :: rest =
        t ++ comma :: 0x20 :: (joined (u :: texts) ++ close :: rest) := by simp [joined, later]
    have htail := ih hy (Nat.lt_of_succ_lt_succ hn)
    rw [htext, items, hx _ (delimited_comma _), Option.bind_some]
    dsimp only
    rw [skip_cons rfl]
    dsimp only
    rw [if_neg hcomma, if_pos rfl, items_blank hblank, htail]
    rfl

/-- A reader that takes nothing which begins with a closing character. -/
def StopsAt (one : List UInt8 → Option (α × List UInt8)) (close : UInt8) : Prop :=
  ∀ bytes, (∀ b ∈ (skip bytes).head?, b = close) → one bytes = none

theorem sequence_joined (hblank : ∀ bytes, one (0x20 :: bytes) = one bytes)
    (hstop : StopsAt one close) (hclose : close = closeBracket ∨ close = closeBrace)
    {texts : List (List UInt8)} {xs : List α} (h : List.Forall₂ (Takes one) texts xs)
    (rest : List UInt8) :
    sequence one close (joined texts ++ close :: rest) = some (xs, rest) := by
  cases h with
  | nil =>
    have hplain : isBlank close = false := by rcases hclose with rfl | rfl <;> rfl
    rw [joined, List.nil_append, sequence, skip_cons hplain]
    exact if_pos rfl
  | @cons t x texts xs hx hxs =>
    have hitems (n : ℕ) (hn : texts.length < n) := items_joined hblank hclose hxs hx hn rest
    have hone : one (joined (t :: texts) ++ close :: rest) ≠ none := by
      intro hnone
      have hfirst := hitems (texts.length + 1) (Nat.lt_succ_self _)
      rw [items, hnone] at hfirst
      cases hfirst
    have hlength : texts.length < (joined (t :: texts) ++ close :: rest).length := by
      have hle := length_le_length_joined (t :: texts)
      rw [List.length_append, List.length_cons]
      rw [List.length_cons] at hle
      omega
    rw [sequence]
    cases hskip : skip (joined (t :: texts) ++ close :: rest) with
    | nil =>
      refine absurd (hstop _ fun b hb ↦ ?_) hone
      rw [hskip] at hb
      cases hb
    | cons b tail =>
      have hb : b ≠ close := by
        rintro rfl
        refine hone (hstop _ fun c hc ↦ ?_)
        rw [hskip] at hc
        exact (Option.some.inj hc).symm
      dsimp only
      rw [if_neg hb, hitems _ hlength]

end Sequence

theorem stopsAt_value {close : UInt8} (hclose : close = closeBracket ∨ close = closeBrace)
    (depth : ℕ) : StopsAt (value depth) close := by
  intro bytes h
  cases depth with
  | zero => rfl
  | succ depth =>
    rw [value]
    cases hskip : skip bytes with
    | nil => rfl
    | cons b tail =>
      have hb : b = close := h b (by rw [hskip]; rfl)
      subst hb
      rcases hclose with rfl | rfl <;> rfl

/-- The elements of an array. -/
theorem reads_array {texts : List (List UInt8)} {vs : List Value}
    (h : List.Forall₂ Reads texts vs) :
    Reads (openBracket :: joined texts ++ [closeBracket]) (.array vs) := by
  intro depth rest hdepth _
  rw [List.cons_append, List.length_cons, List.length_append, List.length_singleton] at hdepth
  obtain ⟨depth, rfl⟩ : ∃ d, depth = d + 1 := Nat.exists_eq_add_of_le' (by omega)
  have htakes : List.Forall₂ (Takes (value depth)) texts vs := by
    have hlength := (List.forall₂_and_left _ _).mpr ⟨fun t ht ↦ length_le_joined ht, h⟩
    refine hlength.imp ?_
    rintro t v ⟨hle, hread⟩ rest hrest
    exact hread depth rest (by omega) hrest
  have hsequence := sequence_joined (value_blank depth) (stopsAt_value (.inl rfl) depth)
    (.inl rfl) htakes rest
  have htext : openBracket :: joined texts ++ [closeBracket] ++ rest =
      openBracket :: (joined texts ++ closeBracket :: rest) := by simp
  rw [htext, value, skip_cons rfl]
  dsimp only
  rw [if_neg (by decide), if_pos rfl, hsequence]
  rfl

/-- The text of a member: its key, as it is written, and the text of its value. -/
def memberText (key text : List UInt8) : List UInt8 :=
  quote :: key ++ quote :: colon :: 0x20 :: text

/-- The text of a member is read. -/
def ReadsMember (text : List UInt8) (m : List UInt8 × Value) : Prop :=
  ∃ key t, text = memberText key t ∧ (∀ rest, string (key ++ quote :: rest) = some (m.1, rest)) ∧
    Reads t m.2

theorem takes_member {text : List UInt8} {m : List UInt8 × Value} (h : ReadsMember text m)
    {depth : ℕ} (hdepth : text.length ≤ depth) : Takes (member (value depth)) text m := by
  intro rest hrest
  obtain ⟨key, t, rfl, hkey, hread⟩ := h
  have hlength : t.length ≤ depth := by
    simp only [memberText, List.length_append, List.length_cons] at hdepth
    omega
  have htext : memberText key t ++ rest =
      quote :: (key ++ quote :: colon :: 0x20 :: (t ++ rest)) := by simp [memberText]
  rw [htext, member, skip_cons rfl]
  dsimp only
  rw [if_pos rfl, hkey, Option.bind_some]
  dsimp only
  rw [skip_cons rfl]
  dsimp only
  rw [if_pos rfl, value_blank, hread depth rest hlength hrest]
  rfl

theorem member_blank (read : List UInt8 → Option (Value × List UInt8)) (bytes : List UInt8) :
    member read (0x20 :: bytes) = member read bytes := by
  rw [member, member, skip_blank]

theorem stopsAt_member (read : List UInt8 → Option (Value × List UInt8)) :
    StopsAt (member read) closeBrace := by
  intro bytes h
  rw [member]
  cases hskip : skip bytes with
  | nil => rfl
  | cons b tail =>
    have hb : b = closeBrace := h b (by rw [hskip]; rfl)
    subst hb
    rfl

/-- The members of an object. -/
theorem reads_object {texts : List (List UInt8)} {ms : List (List UInt8 × Value)}
    (h : List.Forall₂ ReadsMember texts ms) :
    Reads (openBrace :: joined texts ++ [closeBrace]) (.object ms) := by
  intro depth rest hdepth _
  rw [List.cons_append, List.length_cons, List.length_append, List.length_singleton] at hdepth
  obtain ⟨depth, rfl⟩ : ∃ d, depth = d + 1 := Nat.exists_eq_add_of_le' (by omega)
  have htakes : List.Forall₂ (Takes (member (value depth))) texts ms := by
    have hlength := (List.forall₂_and_left _ _).mpr ⟨fun t ht ↦ length_le_joined ht, h⟩
    refine hlength.imp ?_
    rintro t m ⟨hle, hread⟩
    exact takes_member hread (by omega)
  have hsequence := sequence_joined (member_blank _) (stopsAt_member _) (.inr rfl) htakes rest
  have htext : openBrace :: joined texts ++ [closeBrace] ++ rest =
      openBrace :: (joined texts ++ closeBrace :: rest) := by simp
  rw [htext, value, skip_cons rfl]
  dsimp only
  rw [if_neg (by decide), if_neg (by decide), if_pos rfl, hsequence]
  rfl

end Json
