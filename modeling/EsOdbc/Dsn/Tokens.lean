import EsOdbc.Dsn.ConnectionString

/-!
# Tokens of a connection string

What `parse_token` makes of a keyword and of a value as the writer leaves them, and how far
a token can reach in a text that ends a braced value.
-/

namespace EsOdbc

/-- A value that comes out of the parser: no terminator in it, and no brace at its start. -/
def Clean (v : WStr) : Prop := 0 ∉ v ∧ v.head? ≠ some 0x7B

/-- A value that is written as it is read: without a terminator, and without braces where
the writer adds a pair, or without one at its start where it does not. -/
def Plain (v : WStr) : Prop :=
  0 ∉ v ∧ if needsBraces v then 0x7B ∉ v ∧ 0x7D ∉ v else v.head? ≠ some 0x7B

theorem clean_nil : Clean [] := ⟨List.not_mem_nil, Option.some_ne_none _ ∘ Eq.symm⟩

instance (v : WStr) : Decidable (Plain v) := inferInstanceAs (Decidable (_ ∧ _))

theorem tokChar_nul {c : UInt16} : tokChar c = .nul ↔ c = 0 := by
  constructor
  · intro h
    unfold tokChar at h
    split_ifs at h
    assumption
  · rintro rfl
    rfl

theorem tokChar_lbrace {c : UInt16} : tokChar c = .lbrace ↔ c = 0x7B := by
  constructor
  · intro h
    unfold tokChar at h
    split_ifs at h
    assumption
  · rintro rfl
    rfl

theorem tokChar_rbrace {c : UInt16} : tokChar c = .rbrace ↔ c = 0x7D := by
  constructor
  · intro h
    unfold tokChar at h
    split_ifs at h
    assumption
  · rintro rfl
    rfl

/-- What one unit of a token does: it ends the token, closes the brace, or is moved over;
only a `{` at the start opens the brace. -/
theorem tokenLoop_cons {isValue first braces closed : Bool} {c : UInt16} {t w r : WStr}
    (h : tokenLoop isValue first braces (c :: t) = some (w, closed, r)) :
    (braces = false ∧ w = [] ∧ closed = false ∧ r = c :: t ∧
        (if isValue then tokChar c = .semicolon ∨ tokChar c = .nul
          else tokChar c = .blank ∨ tokChar c = .equals)) ∨
      (braces = true ∧ tokChar c = .rbrace ∧ w = [c] ∧ closed = true ∧ r = t) ∨
      ∃ w' b, w = c :: w' ∧ tokenLoop isValue false b t = some (w', closed, r) ∧
        tokChar c ≠ .nul ∧ (tokChar c = .semicolon → braces = true) ∧
        (tokChar c = .rbrace → braces = false) ∧
        if first = true ∧ tokChar c = .lbrace then b = true
        else b = braces ∧ (tokChar c = .lbrace → braces = false) := by
  have hnext {b : Bool} (h' : (tokenLoop isValue false b t).map (fun r ↦ (c :: r.1, r.2)) =
      some (w, closed, r)) : ∃ w', w = c :: w' ∧ tokenLoop isValue false b t = some (w', closed, r) := by
    rw [Option.map_eq_some_iff] at h'
    obtain ⟨⟨w', cl, r'⟩, hloop, heq⟩ := h'
    cases heq
    exact ⟨w', rfl, hloop⟩
  rw [tokenLoop] at h
  cases hc : tokChar c <;> cases isValue <;> cases braces <;> cases first <;>
    simp only [hc, Bool.false_eq_true, if_false, if_true, Bool.or_self, Bool.or_true, Bool.or_false,
      Bool.not_true, Bool.not_false] at h <;>
    first
    | (cases h; done)
    | (cases h; simp)
    | (obtain ⟨w', hw, hl⟩ := hnext h
       exact .inr (.inr ⟨w', _, hw, hl, by simp⟩))

/-- What the loop moves over and leaves is the text. -/
theorem tokenLoop_append {isValue first braces closed : Bool} {t w r : WStr}
    (h : tokenLoop isValue first braces t = some (w, closed, r)) : t = w ++ r := by
  induction t generalizing first braces w with
  | nil =>
    cases braces <;> cases h
    rfl
  | cons c t ih =>
    rcases tokenLoop_cons h with ⟨_, rfl, _, rfl, _⟩ | ⟨_, _, rfl, _, rfl⟩ | ⟨w', b, rfl, hl, _⟩
    · rfl
    · rfl
    · rw [ih hl, List.cons_append]

/-- No terminator is moved over. -/
theorem tokenLoop_nul {isValue first braces closed : Bool} {t w r : WStr}
    (h : tokenLoop isValue first braces t = some (w, closed, r)) : 0 ∉ w := by
  induction t generalizing first braces w with
  | nil =>
    cases braces <;> cases h
    exact List.not_mem_nil
  | cons c t ih =>
    rcases tokenLoop_cons h with ⟨_, rfl, _⟩ | ⟨_, hc, rfl, _⟩ | ⟨w', b, rfl, hl, hc, _⟩
    · exact List.not_mem_nil
    · rw [tokChar_rbrace] at hc
      subst hc
      decide
    · rw [List.mem_cons, not_or]
      exact ⟨fun h ↦ hc (tokChar_nul.mpr h.symm), ih hl⟩

/-- An open brace is closed by the next closing one, with no other one opened before. -/
theorem tokenLoop_closes {isValue closed : Bool} {t w r : WStr}
    (h : tokenLoop isValue false true t = some (w, closed, r)) :
    closed = true ∧ ∃ v, w = v ++ [0x7D] ∧ 0x7B ∉ v ∧ 0x7D ∉ v := by
  induction t generalizing w with
  | nil => cases h
  | cons c t ih =>
    rcases tokenLoop_cons h with ⟨hb, _⟩ | ⟨_, hc, rfl, rfl, _⟩ | ⟨w', b, rfl, hl, _, _, hr, hb⟩
    · cases hb
    · exact ⟨rfl, [], by rw [tokChar_rbrace.mp hc]; rfl, List.not_mem_nil, List.not_mem_nil⟩
    · simp only [Bool.false_eq_true, false_and, if_false] at hb
      obtain ⟨rfl, hc⟩ := hb
      obtain ⟨hcl, v, rfl, hlb, hrb⟩ := ih hl
      refine ⟨hcl, c :: v, rfl, ?_, ?_⟩
      · rw [List.mem_cons, not_or]
        exact ⟨fun h ↦ Bool.noConfusion (hc (tokChar_lbrace.mpr h.symm)), hlb⟩
      · rw [List.mem_cons, not_or]
        exact ⟨fun h ↦ Bool.noConfusion (hr (tokChar_rbrace.mpr h.symm)), hrb⟩

/-- Without an open brace none is closed. -/
theorem tokenLoop_bare_closed {isValue closed : Bool} {t w r : WStr}
    (h : tokenLoop isValue false false t = some (w, closed, r)) : closed = false := by
  induction t generalizing w with
  | nil =>
    cases h
    rfl
  | cons c t ih =>
    rcases tokenLoop_cons h with ⟨_, _, hcl, _⟩ | ⟨hb, _⟩ | ⟨w', b, rfl, hl, _, _, _, hb⟩
    · exact hcl
    · cases hb
    · simp only [Bool.false_eq_true, false_and, if_false] at hb
      obtain ⟨rfl, _⟩ := hb
      exact ih hl

/-- A value that comes out of the parser is clean, and no longer than what was moved over. -/
theorem parseToken_clean {isValue : Bool} {t v r : WStr} (h : parseToken isValue t = some (v, r)) :
    Clean v := by
  rw [parseToken, Option.map_eq_some_iff] at h
  obtain ⟨⟨w, closed, r'⟩, hloop, heq⟩ := h
  have h0 := tokenLoop_nul hloop
  cases t with
  | nil =>
    cases hloop
    cases heq
    exact clean_nil
  | cons c t =>
    rcases tokenLoop_cons hloop with ⟨_, rfl, rfl, _⟩ | ⟨hb, _⟩ | ⟨w', b, rfl, hl, _, _, _, hb⟩
    · cases heq
      exact clean_nil
    · cases hb
    · simp only [true_and] at hb
      by_cases hc : tokChar c = .lbrace
      · rw [if_pos hc] at hb
        subst hb
        obtain ⟨rfl, v', rfl, hv', -⟩ := tokenLoop_closes hl
        cases heq
        have hv : (v' ++ [0x7D]).dropLast = v' := List.dropLast_concat
        simp only [List.tail_cons, hv] at h0 ⊢
        refine ⟨fun h ↦ h0 (List.mem_cons_of_mem _ (List.mem_append_left _ h)), fun h ↦ hv' ?_⟩
        exact List.mem_of_mem_head? h
      · rw [if_neg hc] at hb
        obtain ⟨rfl, _⟩ := hb
        obtain rfl := tokenLoop_bare_closed hl
        cases heq
        refine ⟨h0, fun h ↦ hc ?_⟩
        rw [tokChar_lbrace]
        exact Option.some.inj h

/-! ## A text inside braces -/

/-- Units that stay inside an open brace. -/
def Inner (v : WStr) : Prop := 0 ∉ v ∧ 0x7B ∉ v ∧ 0x7D ∉ v

theorem inner_cons {c : UInt16} {v : WStr} :
    Inner (c :: v) ↔ (tokChar c ≠ .nul ∧ tokChar c ≠ .lbrace ∧ tokChar c ≠ .rbrace) ∧ Inner v := by
  simp only [Inner, List.mem_cons, not_or, ne_eq, tokChar_nul, tokChar_lbrace, tokChar_rbrace,
    eq_comm (b := c)]
  tauto

/-- An open brace is closed by the next closing one. -/
theorem tokenLoop_open {v rest : WStr} (hv : Inner v) :
    tokenLoop true false true (v ++ 0x7D :: rest) = some (v ++ [0x7D], true, rest) := by
  induction v with
  | nil => rfl
  | cons c v ih =>
    obtain ⟨⟨h0, hl, hr⟩, hv⟩ := inner_cons.mp hv
    rw [List.cons_append, tokenLoop]
    cases hc : tokChar c <;> simp_all

/-- A braced value. -/
theorem parseToken_braced {v rest : WStr} (hv : Inner v) :
    parseToken true (0x7B :: (v ++ 0x7D :: rest)) = some (v, rest) := by
  have h : tokenLoop true true false (0x7B :: (v ++ 0x7D :: rest)) =
      some (0x7B :: (v ++ [0x7D]), true, rest) := by
    rw [tokenLoop, tokenLoop_open hv]
    rfl
  rw [parseToken, h]
  simp

/-- A value without braces, up to the end of its attribute. -/
theorem tokenLoop_bare {v rest : WStr} (h0 : 0 ∉ v) (hb : needsBraces v = false)
    {first : Bool} (hfirst : first = true → v.head? ≠ some 0x7B) :
    tokenLoop true first false (v ++ 0x3B :: rest) = some (v, false, 0x3B :: rest) := by
  induction v generalizing first with
  | nil => rfl
  | cons c v ih =>
    have hc0 : tokChar c ≠ .nul := fun h ↦ h0 (tokChar_nul.mp h ▸ List.mem_cons_self)
    have hlb : first = true → tokChar c ≠ .lbrace := by
      intro hf h
      exact hfirst hf (by rw [tokChar_lbrace.mp h]; rfl)
    simp only [needsBraces, List.any_cons, Bool.or_eq_false_iff, beq_eq_false_iff_ne] at hb
    have ih : tokenLoop true false false (v ++ 0x3B :: rest) = some (v, false, 0x3B :: rest) :=
      ih (fun h ↦ h0 (List.mem_cons_of_mem _ h)) hb.2 fun h ↦ Bool.noConfusion h
    rw [List.cons_append, tokenLoop]
    cases hc : tokChar c <;> cases first <;> simp_all

theorem parseToken_bare {v rest : WStr} (h0 : 0 ∉ v) (hb : needsBraces v = false)
    (hfirst : v.head? ≠ some 0x7B) :
    parseToken true (v ++ 0x3B :: rest) = some (v, 0x3B :: rest) := by
  rw [parseToken, tokenLoop_bare h0 hb fun _ ↦ hfirst]
  rfl

/-! ## A text that ends a braced value -/

/-- A token that starts before the end of a braced value ends there or before. -/
theorem tokenLoop_inside {isValue first braces closed : Bool} {u rest w r : WStr}
    (h : tokenLoop isValue first braces (u ++ 0x7D :: 0x3B :: rest) = some (w, closed, r)) :
    (∃ u', u = w ++ u' ∧ r = u' ++ 0x7D :: 0x3B :: rest) ∨
      w = u ++ [0x7D] ∧ r = 0x3B :: rest ∧ (isValue = true ∨ closed = true) := by
  induction u generalizing first braces w with
  | nil =>
    have hrb : tokChar 0x7D = .rbrace := rfl
    have hsc : tokChar 0x3B = .semicolon := rfl
    rcases tokenLoop_cons h with ⟨_, _, _, _, hc⟩ | ⟨_, _, rfl, hcl, rfl⟩ |
      ⟨w', b, rfl, hl, _, _, hb, hb'⟩
    · rw [hrb] at hc
      cases isValue <;> simp at hc
    · exact .inr ⟨rfl, rfl, .inr hcl⟩
    · obtain rfl : b = false := by
        rw [hrb] at hb hb'
        simpa [hb rfl] using hb'
      rcases tokenLoop_cons hl with ⟨_, rfl, _, rfl, hc⟩ | ⟨_, hc, _⟩ | ⟨_, _, _, _, _, hc, _⟩
      · rw [hsc] at hc
        cases isValue
        · simp at hc
        · exact .inr ⟨rfl, rfl, .inl rfl⟩
      · rw [hsc] at hc
        cases hc
      · exact Bool.noConfusion (hc hsc)
  | cons c u ih =>
    rcases tokenLoop_cons h with ⟨_, rfl, _, rfl, _⟩ | ⟨_, _, rfl, _, rfl⟩ | ⟨w', b, rfl, hl, _⟩
    · exact .inl ⟨c :: u, rfl, rfl⟩
    · exact .inl ⟨u, rfl, rfl⟩
    · rcases ih hl with ⟨u', rfl, hr⟩ | ⟨rfl, hr, hval⟩
      · exact .inl ⟨u', rfl, hr⟩
      · exact .inr ⟨rfl, hr, hval⟩

/-- Likewise `skip_ws` stops there or before. -/
theorem skipWs_inside (extended : Bool) {u : WStr} (hu : 0 ∉ u) (rest : WStr) :
    ∃ u', u' <:+ u ∧ skipWs extended (u ++ 0x7D :: rest) = (u' ++ 0x7D :: rest, true) := by
  induction u with
  | nil => exact ⟨[], List.suffix_refl _, rfl⟩
  | cons c u ih =>
    rw [List.mem_cons, not_or] at hu
    obtain ⟨u', hsuf, hskip⟩ := ih hu.2
    have hmore : u' <:+ c :: u := hsuf.trans (List.suffix_cons c u)
    have hstay : c :: u <:+ c :: u := List.suffix_refl _
    rw [List.cons_append, skipWs]
    cases hc : tokChar c with
    | blank => exact ⟨u', hmore, hskip⟩
    | nul => exact absurd (tokChar_nul.mp hc).symm hu.1
    | semicolon =>
      cases extended
      · exact ⟨c :: u, hstay, rfl⟩
      · exact ⟨u', hmore, hskip⟩
    | backslash | equals | lbrace | rbrace | other => exact ⟨c :: u, hstay, rfl⟩

theorem length_token_le (closed : Bool) (w : WStr) :
    (if closed then w.tail.dropLast else w).length ≤ w.length := by
  cases closed <;> simp
  omega

end EsOdbc
