import EsOdbc.Params.Number

/-!
# Strings that spell a number

What `xstr_to_number` reads of an application's string that is the text of a number in decimal
notation.
-/

namespace EsOdbc

open Decimal Binary

/-! ## The C library on the text of a numeral -/

theorem isSpace_text (wide : Bool) (n : Numeral) : ∀ c ∈ n.text, isSpace wide c = false := by
  have h := n.forall_text (p := fun c ↦ !isSpace wide c) (by simp [marks, isSpace])
    (by cases wide <;> decide)
  exact fun c hc ↦ by simpa using h c hc

theorem not_x_text (n : Numeral) : ∀ c ∈ n.text, c ||| 0x20 ≠ 0x78 := by
  have h := n.forall_text (p := fun c ↦ c ||| 0x20 ≠ 0x78)
    (fun c hc ↦ by fin_cases hc <;> decide) (by decide)
  exact fun c hc ↦ by simpa using h c hc

theorem zero_notMem_text (n : Numeral) : (0 : UInt16) ∉ n.text := by
  have h := n.forall_text (p := fun c ↦ c ≠ 0) (by simp [marks]) (by decide)
  exact fun hc ↦ by simpa using h 0 hc

theorem scanHex_text (n : Numeral) : scanHex n.text = none := by
  unfold scanHex
  dsimp only
  refine if_neg ?_
  rintro ⟨-, hx, -⟩
  cases hhead : (takeSign n.text).2.tail.head? with
  | none => simp [hhead] at hx
  | some c =>
    rw [hhead, Option.any_some, decide_eq_true_eq] at hx
    have hmem : c ∈ (takeSign n.text).2 := List.mem_of_mem_tail (List.mem_of_mem_head? hhead)
    have : c ∈ n.text := by
      rw [← takeSign_append n.text]
      exact List.mem_append_right _ hmem
    exact not_x_text n c this hx

theorem subject_text (n : Numeral) : subject n.text = some (.number n.value, [], false) := by
  simp [subject, scanHex_text, scan_text]

theorem strtod_text (n : Numeral) :
    strtod n.text = (toDouble n.value, [], (Subject.number n.value).erange) := by
  rw [strtod, subject_text]
  rfl

theorem snscanf_text (n : Numeral) : snscanf n.text = some (toDouble n.value) := by
  rw [snscanf, subject_text]
  rfl

theorem trimWs_text (wide : Bool) (n : Numeral) : trimWs wide n.text = (0, n.text) := by
  have h := isSpace_text wide n
  have hne := n.text_ne_nil
  have hhead : n.text.dropWhile (isSpace wide) = n.text := by
    rw [List.dropWhile_eq_self_iff]
    exact fun hpos ↦ by simpa using h _ (List.getElem_mem hpos)
  have htake : n.text.takeWhile (isSpace wide) = [] := by
    rw [List.takeWhile_eq_nil_iff]
    exact fun hpos ↦ by simpa using h _ (List.getElem_mem hpos)
  rw [trimWs, hhead, htake, List.rdropWhile_eq_self_iff.mpr]
  · rfl
  · exact fun hl ↦ by simpa using h _ (List.getLast_mem hl)

/-! ## Integers -/

theorem digitUnits_eq (ds : List (Fin 10)) : digitUnits ds = ds.map unit := rfl

/-- The numeral whose text is a sign and digits. -/
theorem value_of_text {n : Numeral} {sign : Option Bool} {ds : List (Fin 10)}
    (h : n.text = signUnits sign ++ digitUnits ds) :
    n.value = if sign = some true then -(ofDigits ds : ℚ) else ofDigits ds := by
  have hne : ds ≠ [] := by
    rintro rfl
    have hscan := scan_text n
    rw [h] at hscan
    cases sign with
    | none => cases hscan
    | some neg => cases neg <;> cases hscan
  have hn : n = ⟨sign, ds, none, none, .inl hne⟩ := by
    apply Numeral.text_injective
    rw [h]
    simp [Numeral.text, signText, signUnits, digitUnits_eq]
  subst hn
  simp [Numeral.value, Numeral.magnitude]

/-- Behind the sign of a numeral there is no other. -/
theorem plus_text (n : Numeral) :
    ∀ c ∈ n.text.head?, signOf c ≠ none → n.text.tail.head? ≠ some 0x2B := by
  obtain ⟨d, w, htext, hd⟩ := n.text_eq_sign_append
  have hnone : signOf d = none ∧ d ≠ 0x2B := by
    rcases hd with rfl | ⟨d, rfl⟩
    · decide
    · exact ⟨signOf_digitUnit d, (digitUnit_ne d).1⟩
  rw [htext]
  cases n.sign with
  | none =>
    intro c hc hsign
    obtain rfl : d = c := Option.some.inj hc
    exact absurd hnone.1 hsign
  | some neg =>
    intro c _ _ h
    exact hnone.2 (Option.some.inj h)

/-- What is read as an integer is the number. -/
theorem str2bigint_text {n : Numeral} {b : ℤ} {j : ℕ} (h : str2bigint n.text true = some (b, j)) :
    n.value = b ∧ -2 ^ 63 ≤ b ∧ b < 2 ^ 63 := by
  obtain ⟨sign, ds, rest, htext, -, rfl, hle, -, -, hstrict⟩ :=
    str2bigint_eq_some h (plus_text n)
  obtain rfl := hstrict rfl
  rw [List.append_nil] at htext
  have hmin : llongMin = 2 ^ 63 := rfl
  have hmax : llongMax = 2 ^ 63 - 1 := rfl
  rw [value_of_text htext]
  by_cases hsign : sign = some true
  · simp only [hsign, if_true] at hle ⊢
    refine ⟨by push_cast; rfl, ?_⟩
    omega
  · simp only [hsign, if_false] at hle ⊢
    refine ⟨by push_cast; rfl, ?_⟩
    omega

theorem str2ubigint_text {n : Numeral} {u j : ℕ} (h : str2ubigint n.text true = some (u, j)) :
    n.value = u ∧ u < 2 ^ 64 := by
  have hle := str2ubigint_fits h
  rw [ullongMax_eq] at hle
  refine ⟨?_, by omega⟩
  by_cases hplus : n.text.head? = some 0x2B
  · rw [str2ubigint, if_pos hplus] at h
    split at h
    · cases h
    · dsimp only at h
      split at h
      · cases h
      · obtain ⟨ds, rest, htail, rfl, -, -, hstrict⟩ := ubigintLoop_eq_some h
        obtain rfl := hstrict rfl
        rw [List.append_nil] at htail
        refine @value_of_text n (some false) ds ?_
        rw [← List.cons_head?_tail hplus, htail]
        rfl
  · obtain ⟨ds, rest, htext, rfl, -, -, hstrict⟩ := str2ubigint_eq_some h hplus
    obtain rfl := hstrict rfl
    rw [List.append_nil] at htext
    exact @value_of_text n none ds htext

/-! ## Strings -/

/-- A string that is the text of a number, with a terminator or with its length; there is
memory behind it. -/
structure Spelled where
  wide : Bool
  numeral : Numeral
  /-- The unit behind the text. -/
  next : UInt16
  rest : WStr
  octetLen : Option ℤ
  len : (octetLen = none ∨ octetLen = some (-3)) ∧ next = 0 ∨
    octetLen = some ((numeral.text.length * if wide then 2 else 1 : ℕ) : ℤ)
  size : numeral.text.length < 2 ^ 62

namespace Spelled

variable (s : Spelled)

def mem : WStr := s.numeral.text ++ s.next :: s.rest

theorem strlen_mem (h : s.next = 0) : strlen s.mem = .done s.numeral.text.length := by
  have hfind : s.mem.findIdx? (· = 0) = some s.numeral.text.length := by
    rw [mem, List.findIdx?_append, List.findIdx?_eq_none_iff.mpr]
    · simp [h, List.findIdx?_cons]
    · intro c hc
      have : c ≠ 0 := fun hzero ↦ zero_notMem_text s.numeral (hzero ▸ hc)
      simpa using this
  rw [strlen, hfind]

theorem xstrCnt_eq : xstrCnt s.wide s.mem s.octetLen = .done s.numeral.text.length := by
  have hsize := s.size
  rcases s.len with ⟨hlen | hlen, hnext⟩ | hlen
  · rw [hlen]
    exact s.strlen_mem hnext
  · rw [hlen, xstrCnt, if_pos rfl]
    exact s.strlen_mem hnext
  · have hwidth : (0 : ℕ) < if s.wide then 2 else 1 := by split <;> norm_num
    simp only [hlen, xstrCnt]
    rw [if_neg (by split <;> omega)]
    congr 1
    cases s.wide
    · simp only [Bool.false_eq_true, if_false]
      omega
    · simp only [if_true]
      omega

theorem take_mem : s.mem.take s.numeral.text.length = s.numeral.text := List.take_left

theorem length_mem : s.mem.length = s.numeral.text.length + (s.rest.length + 1) := by
  rw [mem, List.length_append, List.length_cons]

/-- `str2double` reads the whole text; only before a terminator it heeds `errno`. -/
theorem str2double_eq :
    str2double s.mem s.numeral.text.length true =
      .done (if s.next = 0 ∧ (Subject.number s.numeral.value).erange = true then none
        else some (toDouble s.numeral.value, s.numeral.text.length)) := by
  have hnext : s.mem[s.numeral.text.length]? = some s.next := by
    rw [mem, List.getElem?_append_right le_rfl, Nat.sub_self]
    rfl
  rw [str2double, hnext]
  dsimp only
  rw [s.take_mem, snscanf_text, strtod_text]
  by_cases h : s.next = 0
  · simp [h]
  · simp [h]

/-- The number is read as a `long long`, as an `unsigned long long` or as a `double`. -/
theorem xstrToNumber_cases :
    (∃ b : ℤ, s.numeral.value = b ∧ -2 ^ 63 ≤ b ∧ b < 2 ^ 63 ∧
      xstrToNumber s.wide s.mem s.octetLen = .done (some (s.numeral.text, .bint b))) ∨
    (∃ u : ℕ, s.numeral.value = u ∧ u < 2 ^ 64 ∧
      xstrToNumber s.wide s.mem s.octetLen = .done (some (s.numeral.text, .ubint u))) ∨
    xstrToNumber s.wide s.mem s.octetLen =
      .done (if s.next = 0 ∧ (Subject.number s.numeral.value).erange = true then none
        else some (s.numeral.text, .dbl (toDouble s.numeral.value))) := by
  have hlen : ¬ s.mem.length < s.numeral.text.length := by
    rw [length_mem]
    omega
  simp only [xstrToNumber, s.xstrCnt_eq, Exec.bind_done, hlen, if_false, s.take_mem, trimWs_text,
    List.drop_zero, s.str2double_eq]
  cases hb : str2bigint s.numeral.text true with
  | some r =>
    obtain ⟨hvalue, hlow, hhigh⟩ := str2bigint_text hb
    exact .inl ⟨r.1, hvalue, hlow, hhigh, rfl⟩
  | none =>
    cases hu : str2ubigint s.numeral.text true with
    | some r =>
      obtain ⟨hvalue, hhigh⟩ := str2ubigint_text hu
      exact .inr (.inl ⟨r.1, hvalue, hhigh, rfl⟩)
    | none =>
      refine .inr (.inr ?_)
      dsimp only
      split <;> rfl

end Spelled

end EsOdbc
