import EsOdbc.Dsn.Tokens

/-!
# Attributes of a connection string

What `parse_connection_string` makes of the text that `write_connection_string` leaves for
one attribute, with anything after it.
-/

namespace EsOdbc

/-! ## Turns of the parser -/

theorem length_skipWs_le (extended : Bool) (text : WStr) :
    (skipWs extended text).1.length ≤ text.length := by
  induction text with
  | nil => exact Nat.le_refl _
  | cons c t ih =>
    rw [skipWs]
    cases tokChar c with
    | blank => exact ih.trans (Nat.le_succ _)
    | semicolon =>
      cases extended
      · exact Nat.le_refl _
      · exact ih.trans (Nat.le_succ _)
    | backslash | equals | nul | lbrace | rbrace | other => exact Nat.le_refl _

theorem skipWs_length {extended found : Bool} {t u : WStr} (h : skipWs extended t = (u, found)) :
    u.length ≤ t.length := by
  have hle := length_skipWs_le extended t
  rwa [h] at hle

theorem parseToken_length {isValue : Bool} {t v r : WStr} (h : parseToken isValue t = some (v, r)) :
    v.length + r.length ≤ t.length := by
  rw [parseToken, Option.map_eq_some_iff] at h
  obtain ⟨⟨w, closed, r'⟩, hloop, heq⟩ := h
  cases heq
  rw [tokenLoop_append hloop, List.length_append]
  exact Nat.add_le_add_right (length_token_le closed w) _

/-- What a turn does: it reads a keyword and its `=`, and then a value unless the text
ends. -/
theorem parseTurn_cases {attrs attrs' : DsnAttrs} {text rest : WStr}
    (h : parseTurn attrs text = some (attrs', rest)) :
    ∃ keyword r t, parseToken false text = some (keyword, r) ∧
      skipWs false r = (0x3D :: t, true) ∧
      (attrs' = attrs ∧ skipWs false t = (rest, false) ∨
        ∃ u value a, skipWs false t = (u, true) ∧ parseToken true u = some (value, rest) ∧
          assignDsnAttr attrs keyword value true = some (a, attrs')) := by
  rw [parseTurn, Option.bind_eq_some_iff] at h
  obtain ⟨⟨keyword, r⟩, hkw, h⟩ := h
  refine ⟨keyword, r, (skipWs false r).1.tail, hkw, ?_⟩
  cases hws : skipWs false r with
  | mk s found =>
    simp only [hws] at h ⊢
    cases found with
    | false => cases h
    | true =>
      simp only [Bool.not_true, Bool.false_eq_true, if_false] at h
      by_cases heq : s.head? = some 0x3D
      · obtain ⟨t, rfl⟩ : ∃ t, s = 0x3D :: t := by
          cases s with
          | nil => cases heq
          | cons c t =>
            cases heq
            exact ⟨t, rfl⟩
        simp only [List.head?_cons, ne_eq, not_true_eq_false, if_false, List.tail_cons] at h ⊢
        refine ⟨trivial, ?_⟩
        cases hws' : skipWs false t with
        | mk u found =>
          simp only [hws'] at h
          cases found with
          | false =>
            cases h
            exact .inl ⟨rfl, rfl⟩
          | true =>
            simp only [Bool.not_true, Bool.false_eq_true, if_false, Option.bind_eq_some_iff,
              Option.map_eq_some_iff] at h
            obtain ⟨⟨value, r'⟩, hval, ⟨a, attrs''⟩, hassign, hout⟩ := h
            cases hout
            exact .inr ⟨u, value, a, rfl, hval, hassign⟩
      · rw [if_pos heq] at h
        cases h

/-- A turn moves over the `=`. -/
theorem parseTurn_length {attrs attrs' : DsnAttrs} {text rest : WStr}
    (h : parseTurn attrs text = some (attrs', rest)) : rest.length < text.length := by
  obtain ⟨keyword, r, t, hkw, hws, h⟩ := parseTurn_cases h
  have hr := parseToken_length hkw
  have ht := skipWs_length hws
  rw [List.length_cons] at ht
  obtain ⟨-, hws'⟩ | ⟨u, value, a, hws', hval, -⟩ := h
  · have hu := skipWs_length hws'
    omega
  · have hu := skipWs_length hws'
    have hv := parseToken_length hval
    omega

theorem parseLoop_fuel {n m : ℕ} {text : WStr} (attrs : DsnAttrs) (hn : text.length < n)
    (hm : text.length < m) : parseLoop n attrs text = parseLoop m attrs text := by
  induction n generalizing m attrs text with
  | zero => exact absurd hn (Nat.not_lt_zero _)
  | succ n ih =>
    cases m with
    | zero => exact absurd hm (Nat.not_lt_zero _)
    | succ m =>
      have hws := length_skipWs_le true text
      rw [parseLoop, parseLoop]
      cases hturn : parseTurn attrs (skipWs true text).1 with
      | none => rfl
      | some r =>
        have hlt : r.2.length < _ := parseTurn_length hturn
        simp only [Option.bind_some]
        rw [ih r.1 (m := m) (by omega) (by omega)]

/-- The loop of the parser, turn by turn. -/
theorem parseConnectionString_eq (attrs : DsnAttrs) (text : WStr) :
    parseConnectionString attrs text =
      if !(skipWs true text).2 then some attrs
      else (parseTurn attrs (skipWs true text).1).bind fun r ↦ parseConnectionString r.1 r.2 := by
  have hws := length_skipWs_le true text
  rw [parseConnectionString, parseLoop]
  cases hturn : parseTurn attrs (skipWs true text).1 with
  | none => rfl
  | some r =>
    have hlt := parseTurn_length hturn
    simp only [Option.bind_some]
    rw [parseConnectionString, parseLoop_fuel r.1 (by omega) (Nat.lt_succ_self _)]

theorem parse_nil (attrs : DsnAttrs) : parseConnectionString attrs [] = some attrs := rfl

theorem parse_skip {text rest : WStr} (attrs : DsnAttrs)
    (h : skipWs true text = skipWs true rest) :
    parseConnectionString attrs text = parseConnectionString attrs rest := by
  rw [parseConnectionString_eq, parseConnectionString_eq attrs rest, h]

theorem parse_semicolon (attrs : DsnAttrs) (rest : WStr) :
    parseConnectionString attrs (0x3B :: rest) = parseConnectionString attrs rest :=
  parse_skip attrs rfl

/-! ## The keyword -/

theorem keyword_other (a : DsnAttr) : (a.keyword.all fun c ↦ tokChar c == .other) = true := by
  cases a <;> rfl

theorem keyword_found (a : DsnAttr) :
    (DsnAttr.all.find? fun b ↦ eqCaseWstr b.keyword a.keyword) = some a := by
  cases a <;> decide +kernel

/-- A keyword ends at its `=`. -/
theorem tokenLoop_keyword {kw rest : WStr} (hkw : (kw.all fun c ↦ tokChar c == .other) = true)
    (first : Bool) :
    tokenLoop false first false (kw ++ 0x3D :: rest) = some (kw, false, 0x3D :: rest) := by
  induction kw generalizing first with
  | nil => rfl
  | cons c kw ih =>
    rw [List.all_cons, Bool.and_eq_true, beq_iff_eq] at hkw
    rw [List.cons_append, tokenLoop, hkw.1, ih hkw.2]
    rfl

theorem skipWs_stay {c : UInt16} {t : WStr} (extended : Bool)
    (h : tokChar c = .other ∨ tokChar c = .lbrace ∨ tokChar c = .rbrace ∨ tokChar c = .backslash) :
    skipWs extended (c :: t) = (c :: t, true) := by
  rw [skipWs]
  rcases h with h | h | h | h <;> rw [h]

/-- A known keyword's value is stored, over an empty one in any case. -/
theorem assign_keyword (attrs : DsnAttrs) (a : DsnAttr) {overwrite : Bool} {v : WStr}
    (hv : v.length ≤ dsnMaxAttrLen) (h : overwrite = true ∨ attrs.val a = []) :
    ∃ r, assignDsnAttr attrs a.keyword v overwrite = some (r, attrs.set a v hv) := by
  rw [assignDsnAttr, dif_pos hv, keyword_found]
  by_cases hne : attrs.val a = []
  · exact ⟨.assigned, by simp only [hne, ne_eq, not_true_eq_false, if_false]⟩
  · obtain rfl : overwrite = true := h.resolve_right hne
    exact ⟨.overwritten, by simp only [hne, ne_eq, not_false_eq_true, if_true]⟩

/-- What a value that is read can change. -/
theorem assign_val {attrs attrs' : DsnAttrs} {keyword v : WStr} {r : DsnAssign}
    (h : assignDsnAttr attrs keyword v true = some (r, attrs')) (a : DsnAttr) :
    attrs'.val a = attrs.val a ∨ attrs'.val a = v := by
  rw [assignDsnAttr] at h
  by_cases hv : v.length ≤ dsnMaxAttrLen
  · rw [dif_pos hv] at h
    cases hf : DsnAttr.all.find? fun b ↦ eqCaseWstr b.keyword keyword with
    | none =>
      rw [hf] at h
      cases h
      exact .inl rfl
    | some b =>
      obtain rfl : attrs' = attrs.set b v hv := by
        simp only [hf] at h
        split_ifs at h <;> cases h <;> rfl
      by_cases hab : a = b
      · subst hab
        exact .inr (Function.update_self _ _ _)
      · exact .inl (Function.update_of_ne hab _ _)
  · rw [dif_neg hv] at h
    cases h

/-- One attribute, from its keyword on. -/
theorem parse_attr (attrs : DsnAttrs) (a : DsnAttr) {text : WStr}
    (h : skipWs false text = (text, true)) :
    parseConnectionString attrs (a.keyword ++ 0x3D :: text) =
      (parseToken true text).bind fun v ↦
        (assignDsnAttr attrs a.keyword v.1 true).bind fun r ↦ parseConnectionString r.2 v.2 := by
  have hkw := keyword_other a
  have hstart : skipWs true (a.keyword ++ 0x3D :: text) = (a.keyword ++ 0x3D :: text, true) := by
    cases hk : a.keyword with
    | nil => cases a <;> cases hk
    | cons c t =>
      rw [hk, List.all_cons, Bool.and_eq_true, beq_iff_eq] at hkw
      exact skipWs_stay true (.inl hkw.1)
  have htoken : parseToken false (a.keyword ++ 0x3D :: text) =
      some (a.keyword, 0x3D :: text) := by
    rw [parseToken, tokenLoop_keyword hkw]
    rfl
  have heq : skipWs false (0x3D :: text) = (0x3D :: text, true) := rfl
  rw [parseConnectionString_eq, hstart]
  simp only [parseTurn, htoken, Option.bind_some, heq, List.tail_cons, List.head?_cons, h,
    Bool.not_true, Bool.false_eq_true, if_false, ne_eq, not_true_eq_false]
  cases parseToken true text with
  | none => rfl
  | some v =>
    simp only [Option.bind_some]
    cases assignDsnAttr attrs a.keyword v.1 true <;> rfl

/-! ## A value that is read back -/

theorem takeWhile_nul {v : WStr} (h : 0 ∉ v) : v.takeWhile (· ≠ 0) = v := by
  rw [List.takeWhile_eq_self_iff]
  intro c hc
  rw [decide_eq_true_eq]
  rintro rfl
  exact h hc

/-- An attribute with a plain value is read back. -/
theorem parse_plain (attrs : DsnAttrs) (a : DsnAttr) {v : WStr} (h : v.length ≤ dsnMaxAttrLen)
    (hv : Plain v) (hne : v ≠ []) (rest : WStr) :
    parseConnectionString attrs (attrText a.keyword v (needsBraces v) ++ rest) =
      parseConnectionString (attrs.set a v h) rest := by
  obtain ⟨h0, hv⟩ := hv
  obtain ⟨r, hassign⟩ := assign_keyword attrs a h (.inl rfl)
  have hread {text : WStr} (hws : skipWs false text = (text, true))
      (htoken : parseToken true text = some (v, 0x3B :: rest)) :
      parseConnectionString attrs (a.keyword ++ 0x3D :: text) =
        parseConnectionString (attrs.set a v h) rest := by
    rw [parse_attr attrs a hws, htoken]
    simp only [Option.bind_some, hassign]
    exact parse_semicolon _ _
  cases hb : needsBraces v with
  | true =>
    rw [hb, if_pos rfl] at hv
    have htext : attrText a.keyword v true ++ rest =
        a.keyword ++ 0x3D :: 0x7B :: (v ++ 0x7D :: 0x3B :: rest) := by
      simp only [attrText, takeWhile_nul h0, if_true, List.append_assoc, List.cons_append,
        List.nil_append]
    rw [htext]
    exact hread rfl (parseToken_braced ⟨h0, hv⟩)
  | false =>
    rw [hb, if_neg Bool.false_ne_true] at hv
    have htext : attrText a.keyword v false ++ rest = a.keyword ++ 0x3D :: (v ++ 0x3B :: rest) := by
      simp only [attrText, takeWhile_nul h0, if_neg Bool.false_ne_true, List.append_assoc,
        List.cons_append, List.nil_append]
    rw [htext]
    refine hread ?_ (parseToken_bare h0 hb hv)
    cases v with
    | nil => exact absurd rfl hne
    | cons c v =>
      have hc0 : tokChar c ≠ .nul := fun h ↦ h0 (tokChar_nul.mp h ▸ List.mem_cons_self)
      rw [needsBraces, List.any_cons] at hb
      rw [List.cons_append, skipWs]
      cases hc : tokChar c <;> simp_all

/-! ## A value that is not -/

/-- With a brace in it, a braced value is refused, or ends at its first `}`. -/
theorem parseToken_broken {v rest w r : WStr} (h0 : 0 ∉ v) (hv : ¬Inner v)
    (h : parseToken true (0x7B :: (v ++ 0x7D :: 0x3B :: rest)) = some (w, r)) :
    ∃ u, v = w ++ 0x7D :: u ∧ r = u ++ 0x7D :: 0x3B :: rest := by
  rw [parseToken, Option.map_eq_some_iff] at h
  obtain ⟨⟨w', closed, r'⟩, hloop, heq⟩ := h
  rcases tokenLoop_cons hloop with ⟨_, rfl, rfl, rfl, hc⟩ | ⟨hb, _⟩ | ⟨w₁, b, rfl, hl, _, _, _, hb⟩
  · exact absurd hc (by decide)
  · cases hb
  · rw [if_pos ⟨rfl, rfl⟩] at hb
    subst hb
    obtain ⟨rfl, p, rfl, hlb, hrb⟩ := tokenLoop_closes hl
    obtain ⟨rfl, rfl⟩ : p = w ∧ r' = r := by
      simpa using heq
    rcases tokenLoop_inside hl with ⟨u, rfl, hr⟩ | ⟨heq, _⟩
    · exact ⟨u, by rw [List.append_assoc]; rfl, hr⟩
    · obtain rfl := List.append_cancel_right heq
      exact absurd ⟨h0, hlb, hrb⟩ hv

theorem parseToken_inside {isValue : Bool} {u rest v r : WStr}
    (h : parseToken isValue (u ++ 0x7D :: 0x3B :: rest) = some (v, r)) :
    (∃ u', u' <:+ u ∧ v.length ≤ u.length ∧ r = u' ++ 0x7D :: 0x3B :: rest) ∨
      v.length ≤ u.length + 1 ∧ r = 0x3B :: rest := by
  rw [parseToken, Option.map_eq_some_iff] at h
  obtain ⟨⟨w, closed, r'⟩, hloop, heq⟩ := h
  cases heq
  have hlen := length_token_le closed w
  rcases tokenLoop_inside hloop with ⟨u', rfl, hr⟩ | ⟨rfl, hr, _⟩
  · refine .inl ⟨u', List.suffix_append w u', hlen.trans ?_, hr⟩
    rw [List.length_append]
    exact Nat.le_add_right _ _
  · refine .inr ⟨hlen.trans ?_, hr⟩
    rw [List.length_append, List.length_singleton]

/-- What is left of a braced value changes no attribute but to a value that is shorter than
what it is read from. -/
theorem parse_leftover (rest : WStr) (attrs : DsnAttrs) (u : WStr) (hu : 0 ∉ u) :
    parseConnectionString attrs (u ++ 0x7D :: 0x3B :: rest) = none ∨
      ∃ attrs', (∀ a, attrs'.val a = attrs.val a ∨ (attrs'.val a).length ≤ u.length) ∧
        parseConnectionString attrs (u ++ 0x7D :: 0x3B :: rest) =
          parseConnectionString attrs' rest := by
  induction hn : u.length using Nat.strong_induction_on generalizing u attrs with
  | _ n ih =>
    subst hn
    obtain ⟨u₁, hsuf₁, hskip₁⟩ := skipWs_inside true hu (0x3B :: rest)
    rw [parseConnectionString_eq, hskip₁]
    simp only [Bool.not_true, Bool.false_eq_true, if_false]
    cases hturn : parseTurn attrs (u₁ ++ 0x7D :: 0x3B :: rest) with
    | none => exact .inl rfl
    | some out =>
      obtain ⟨attrs₁, r₁⟩ := out
      obtain ⟨kw, r, t, hkw, hws, hval⟩ := parseTurn_cases hturn
      -- the keyword and its `=` are inside as well, for a `;` follows
      obtain ⟨u₂, hsuf₂, rfl⟩ : ∃ u₂, u₂ <:+ u ∧ r = u₂ ++ 0x7D :: 0x3B :: rest := by
        rcases parseToken_inside hkw with ⟨u₂, hsuf, _, hr⟩ | ⟨_, rfl⟩
        · exact ⟨u₂, hsuf.trans hsuf₁, hr⟩
        · cases hws
      obtain ⟨u₃, hsuf₃, hskip₃⟩ :=
        skipWs_inside false (fun h ↦ hu (hsuf₂.subset h)) (0x3B :: rest)
      rw [hskip₃] at hws
      cases u₃ with
      | nil => cases hws
      | cons c u₃ =>
        obtain ⟨rfl, rfl⟩ : c = 0x3D ∧ t = u₃ ++ 0x7D :: 0x3B :: rest := by
          rw [Prod.mk.injEq, List.cons_append, List.cons.injEq] at hws
          exact ⟨hws.1.1, hws.1.2.symm⟩
        have hsuf : u₃ <:+ u := (List.suffix_cons _ u₃).trans (hsuf₃.trans hsuf₂)
        have hlt : u₃.length < u.length := (hsuf₃.trans hsuf₂).length_le
        obtain ⟨u₄, hsuf₄, hskip₄⟩ :=
          skipWs_inside false (fun h ↦ hu (hsuf.subset h)) (0x3B :: rest)
        rw [hskip₄] at hval
        obtain ⟨-, hval⟩ | ⟨w, value, a, hw, hread, hassign⟩ := hval
        · cases hval
        · cases hw
          have hkeep := assign_val hassign
          have hlen₄ := hsuf₄.length_le
          simp only [Option.bind_some]
          rcases parseToken_inside hread with ⟨u₅, hsuf₅, hlen, rfl⟩ | ⟨hlen, rfl⟩
          · have hlen₅ := hsuf₅.length_le
            rcases ih _ (by omega) attrs₁ u₅
              (fun h ↦ hu ((hsuf₅.trans (hsuf₄.trans hsuf)).subset h)) rfl with hnone | ⟨attrs', h, heq⟩
            · exact .inl hnone
            · refine .inr ⟨attrs', fun b ↦ ?_, heq⟩
              rcases h b with h | h
              · rw [h]
                rcases hkeep b with hk | hk
                · exact .inl hk
                · exact .inr (by rw [hk]; omega)
              · exact .inr (by omega)
          · refine .inr ⟨attrs₁, fun b ↦ ?_, parse_semicolon attrs₁ rest⟩
            rcases hkeep b with hk | hk
            · exact .inl hk
            · exact .inr (by rw [hk]; omega)

/-- An attribute with a brace in a braced value stops the parser, or is read back shorter. -/
theorem parse_broken (attrs : DsnAttrs) (a : DsnAttr) {v : WStr} (h : v.length ≤ dsnMaxAttrLen)
    (h0 : 0 ∉ v) (hb : needsBraces v = true) (hv : ¬Inner v) (rest : WStr) :
    parseConnectionString attrs (attrText a.keyword v (needsBraces v) ++ rest) = none ∨
      ∃ attrs', (attrs'.val a).length < v.length ∧
        parseConnectionString attrs (attrText a.keyword v (needsBraces v) ++ rest) =
          parseConnectionString attrs' rest := by
  have htext : attrText a.keyword v (needsBraces v) ++ rest =
      a.keyword ++ 0x3D :: 0x7B :: (v ++ 0x7D :: 0x3B :: rest) := by
    simp only [attrText, takeWhile_nul h0, hb, if_true, List.append_assoc, List.cons_append,
      List.nil_append]
  rw [htext, parse_attr attrs a rfl]
  cases hread : parseToken true (0x7B :: (v ++ 0x7D :: 0x3B :: rest)) with
  | none => exact .inl rfl
  | some out =>
    obtain ⟨w, r⟩ := out
    obtain ⟨u, rfl, rfl⟩ := parseToken_broken h0 hv hread
    rw [List.length_append, List.length_cons] at h ⊢
    have hw : w.length ≤ dsnMaxAttrLen := by omega
    obtain ⟨r, hassign⟩ := assign_keyword attrs a hw (.inl rfl)
    simp only [Option.bind_some, hassign]
    rcases parse_leftover rest (attrs.set a w hw) u
      (fun h ↦ h0 (List.mem_append_right _ (List.mem_cons_of_mem _ h))) with hnone | ⟨attrs', hkeep, heq⟩
    · exact .inl hnone
    · refine .inr ⟨attrs', ?_, heq⟩
      have hset : (attrs.set a w hw).val a = w := Function.update_self _ _ _
      rcases hkeep a with h | h
      · rw [h, hset]
        omega
      · omega

end EsOdbc
