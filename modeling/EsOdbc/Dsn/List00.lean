import EsOdbc.Dsn.RoundTrip
import EsOdbc.Memory

/-!
# Lists of attributes between terminators

`write_00_list` and `parse_00_list`: for which buffers the writer stays inside, and which
attributes come back.
-/

namespace EsOdbc

/-! ## The writer -/

/-- A buffer of the caller, as long as a `size_t` can say. -/
structure OutBuffer where
  units : WStr
  lt : units.length < 2 ^ 64

/-- `cnt00 - 1`, of type `size_t`. -/
def roomOf (cnt00 : ℕ) : ℕ := (cnt00 + (2 ^ 64 - 1)) % 2 ^ 64

/-- One turn of the loop of `write_00_list`; no result is its `-1`. -/
def writeEntry00 (attrs : DsnAttrs) (cnt00 : ℕ) (out : WStr × ℕ) (a : DsnAttr) :
    Exec (Option (WStr × ℕ)) :=
  let value := attrs.val a
  if value = [] then .done (some out)
  else
    let braces := needsBraces value
    if roomOf cnt00 < out.2 + a.keyword.length + 1 + (if braces then 2 else 0) + value.length then
      .done none
    else
      (put out a.keyword).bind fun out ↦ (put out [0x3D]).bind fun out ↦
        (if braces then put out [0x7B] else .done out).bind fun out ↦
          (put out value).bind fun out ↦
            (if braces then put out [0x7D] else .done out).bind fun out ↦
              (put out [0]).bind fun out ↦ .done (some out)

/-- The loop of `write_00_list`. -/
def writeEntries00 (attrs : DsnAttrs) (cnt00 : ℕ) :
    List DsnAttr → WStr × ℕ → Exec (Option (WStr × ℕ))
  | [], out => .done (some out)
  | a :: as, out => (writeEntry00 attrs cnt00 out a).bind fun
    | none => .done none
    | some out => writeEntries00 attrs cnt00 as out

/-- `write_00_list`: the buffer and the count of units in it, or the `-1`. -/
def write00List (attrs : DsnAttrs) (list00 : WStr) : Exec (Option (WStr × ℕ)) :=
  (writeEntries00 attrs list00.length DsnAttr.all (list00, 0)).bind fun
    | none => .done none
    | some out => (put out [0]).bind fun out ↦ .done (some out)

/-! ## The parser -/

/-- `parse_00_list`; no result is its `FALSE`. -/
def parse00List (attrs : DsnAttrs) (list00 : WStr) : Exec (Option DsnAttrs) :=
  match _h : list00 with
  | [] => .undefined
  | c :: rest =>
    if c = 0 then .done (some attrs)
    else if 0 ∈ rest then
      let entry := c :: rest.takeWhile (· ≠ 0)
      if shrtMax < entry.length then .done none
      else match parseConnectionString attrs entry with
        | none => .done none
        | some attrs => parse00List attrs (list00.drop (entry.length + 1))
    -- `wcslen` goes on behind the list
    else .undefined
termination_by list00.length
decreasing_by
  subst _h
  rw [List.length_drop, List.length_cons, List.length_cons]
  omega

/-! ## The text -/

/-- What the list holds for one attribute, without the terminator. -/
def entryText (attrs : DsnAttrs) (a : DsnAttr) : WStr :=
  let value := attrs.val a
  a.keyword ++ 0x3D :: (if needsBraces value then 0x7B :: (value ++ [0x7D]) else value)

/-- The text of one attribute, none for an empty value. -/
def segment00 (attrs : DsnAttrs) (a : DsnAttr) : WStr :=
  if attrs.val a = [] then [] else entryText attrs a ++ [0]

/-- The text of some attributes. -/
def segments00 (attrs : DsnAttrs) (as : List DsnAttr) : WStr := as.flatMap (segment00 attrs)

/-- The list that is asked for, with both terminators. -/
def listText (attrs : DsnAttrs) : WStr := segments00 attrs DsnAttr.all ++ [0]

/-- Nothing is written outside the buffer, a list that fits is written, and its attributes come
back if no terminator is in them. -/
structure Listed (attrs : DsnAttrs) (buf : OutBuffer) : Prop where
  bounds : write00List attrs buf.units ≠ .undefined
  fits : (listText attrs).length ≤ buf.units.length →
    ∃ list00, write00List attrs buf.units = .done (some (list00, (listText attrs).length))
  back : (∀ a, 0 ∉ attrs.val a) → ∀ out, write00List attrs buf.units = .done (some out) →
    parse00List .init out.1 = .done (some attrs)

/-! ## Writing -/

variable {attrs : DsnAttrs} {n : ℕ} {pre : WStr} {out : WStr × ℕ}

theorem entryText_append (attrs : DsnAttrs) (a : DsnAttr) :
    entryText attrs a = a.keyword ++ [0x3D] ++
      (if needsBraces (attrs.val a) then [0x7B] else []) ++ attrs.val a ++
        (if needsBraces (attrs.val a) then [0x7D] else []) := by
  dsimp only [entryText]
  generalize needsBraces (attrs.val a) = braces
  cases braces <;> simp

theorem length_entryText (attrs : DsnAttrs) (a : DsnAttr) : (entryText attrs a).length =
    a.keyword.length + 1 + (if needsBraces (attrs.val a) then 2 else 0) + (attrs.val a).length := by
  dsimp only [entryText]
  generalize needsBraces (attrs.val a) = braces
  cases braces
  · simp
    omega
  · simp
    omega

theorem roomOf_pos (hn : 0 < n) (hlt : n < 2 ^ 64) : roomOf n = n - 1 := by
  unfold roomOf
  omega

/-- One turn writes its text if a unit is left for a terminator after it, or fails. -/
theorem Written.entry (h : Written n pre out) (hn : 0 < n) (hlt : n < 2 ^ 64) (attrs : DsnAttrs)
    (a : DsnAttr) :
    if (pre ++ segment00 attrs a).length ≤ n then
      ∃ out', writeEntry00 attrs n out a = .done (some out') ∧
        Written n (pre ++ segment00 attrs a) out'
    else writeEntry00 attrs n out a = .done none := by
  rw [writeEntry00, segment00]
  by_cases hempty : attrs.val a = []
  · rw [if_pos hempty, if_pos hempty, List.append_nil, if_pos h.le]
    exact ⟨out, rfl, h⟩
  · have hlen : (pre ++ (entryText attrs a ++ [0])).length =
        out.2 + a.keyword.length + 1 + (if needsBraces (attrs.val a) then 2 else 0) +
          (attrs.val a).length + 1 := by
      rw [List.length_append, List.length_append, length_entryText, h.pos]
      simp only [List.length_singleton]
      omega
    rw [if_neg hempty, if_neg hempty, roomOf_pos hn hlt]
    by_cases hroom : (pre ++ (entryText attrs a ++ [0])).length ≤ n
    · rw [if_pos hroom, if_neg (by omega)]
      rw [entryText_append] at hroom ⊢
      simp only [← List.append_assoc] at hroom ⊢
      have r₅ := le_of_append_le hroom
      have r₄ := le_of_append_le r₅
      have r₃ := le_of_append_le r₄
      have r₂ := le_of_append_le r₃
      obtain ⟨o₁, h₁, w₁⟩ := h.put _ (le_of_append_le r₂)
      obtain ⟨o₂, h₂, w₂⟩ := w₁.put _ r₂
      obtain ⟨o₃, h₃, w₃⟩ := w₂.put_if _ (needsBraces (attrs.val a)) r₃
      obtain ⟨o₄, h₄, w₄⟩ := w₃.put _ r₄
      obtain ⟨o₅, h₅, w₅⟩ := w₄.put_if _ (needsBraces (attrs.val a)) r₅
      obtain ⟨o₆, h₆, w₆⟩ := w₅.put _ hroom
      refine ⟨o₆, ?_, w₆⟩
      rw [h₁, Exec.bind_done, h₂, Exec.bind_done, h₃, Exec.bind_done, h₄, Exec.bind_done, h₅,
        Exec.bind_done, h₆, Exec.bind_done]
    · rw [if_neg hroom, if_pos (by omega)]

/-- The loop writes the text of all attributes, or fails. -/
theorem Written.entries (h : Written n pre out) (hn : 0 < n) (hlt : n < 2 ^ 64)
    (attrs : DsnAttrs) (as : List DsnAttr) :
    if (pre ++ segments00 attrs as).length ≤ n then
      ∃ out', writeEntries00 attrs n as out = .done (some out') ∧
        Written n (pre ++ segments00 attrs as) out'
    else writeEntries00 attrs n as out = .done none := by
  induction as generalizing pre out with
  | nil =>
    rw [segments00, List.flatMap_nil, List.append_nil, if_pos h.le]
    exact ⟨out, rfl, h⟩
  | cons a as ih =>
    have hturn := h.entry hn hlt attrs a
    rw [segments00, List.flatMap_cons, ← List.append_assoc, writeEntries00]
    by_cases hroom : (pre ++ segment00 attrs a).length ≤ n
    · rw [if_pos hroom] at hturn
      obtain ⟨out', hout, w⟩ := hturn
      rw [hout, Exec.bind_done]
      exact ih w
    · rw [if_neg hroom] at hturn
      have hlong : ¬(pre ++ segment00 attrs a ++ segments00 attrs as).length ≤ n := by
        rw [List.length_append]
        omega
      rw [hturn, Exec.bind_done]
      exact (if_neg hlong).mpr rfl

/-- What the writer does with a buffer that is not empty: the list is written, its last
terminator is behind the buffer, or the writer fails. -/
theorem write00List_pos (attrs : DsnAttrs) (hn : 0 < pre.length) (hlt : pre.length < 2 ^ 64) :
    if (listText attrs).length ≤ pre.length then
      ∃ list00, write00List attrs pre = .done (some (list00, (listText attrs).length)) ∧
        listText attrs <+: list00
    else if (listText attrs).length = pre.length + 1 then write00List attrs pre = .undefined
    else write00List attrs pre = .done none := by
  have hstart : Written pre.length [] (pre, 0) := ⟨rfl, List.nil_prefix, rfl⟩
  have hrun := hstart.entries hn hlt attrs DsnAttr.all
  rw [List.nil_append] at hrun
  have hlen : (listText attrs).length = (segments00 attrs DsnAttr.all).length + 1 :=
    List.length_append
  rw [write00List]
  by_cases hroom : (segments00 attrs DsnAttr.all).length ≤ pre.length
  · rw [if_pos hroom] at hrun
    obtain ⟨out, hout, w⟩ := hrun
    rw [hout, Exec.bind_done]
    dsimp only
    by_cases hfits : (listText attrs).length ≤ pre.length
    · obtain ⟨out', hput, w'⟩ := w.put [0] hfits
      rw [if_pos hfits, hput, Exec.bind_done]
      exact ⟨out'.1, by rw [← show out'.2 = (listText attrs).length from w'.pos], w'.start⟩
    · have hend : pre.length < (segments00 attrs DsnAttr.all ++ [0]).length := not_le.mp hfits
      rw [if_neg hfits, if_pos (by omega), w.put_undefined hend]
      rfl
  · rw [if_neg hroom] at hrun
    rw [if_neg (by omega), if_neg (by omega), hrun]
    rfl

/-- A buffer of no units is written to in any case. -/
theorem write00List_nil (attrs : DsnAttrs) : write00List attrs [] = .undefined := by
  have hstart : Written 0 [] (([] : WStr), 0) := ⟨rfl, List.nil_prefix, rfl⟩
  have hrun (as : List DsnAttr) : writeEntries00 attrs 0 as ([], 0) = .undefined ∨
      writeEntries00 attrs 0 as ([], 0) = .done (some ([], 0)) := by
    induction as with
    | nil => exact .inr rfl
    | cons a as ih =>
      by_cases hempty : attrs.val a = []
      · rw [writeEntries00, writeEntry00, if_pos hempty]
        exact ih
      · have hvalue := attrs.fits a
        have hkeyword : 0 < a.keyword.length ∧ a.keyword.length ≤ 18 := by
          cases a <;> decide
        have hput : EsOdbc.put ([], 0) a.keyword = .undefined :=
          hstart.put_undefined hkeyword.1
        have hroom : ¬roomOf 0 < 0 + a.keyword.length + 1 +
            (if needsBraces (attrs.val a) then 2 else 0) + (attrs.val a).length := by
          unfold dsnMaxAttrLen at hvalue
          unfold roomOf
          split_ifs <;> omega
        rw [writeEntries00, writeEntry00, if_neg hempty]
        dsimp only
        rw [if_neg hroom, hput]
        exact .inl rfl
  rw [write00List]
  rcases hrun DsnAttr.all with h | h
  · rw [List.length_nil, h]
    rfl
  · rw [List.length_nil, h, Exec.bind_done]
    dsimp only
    rw [hstart.put_undefined (by decide)]
    rfl

/-! ## Reading entries -/

/-- The keyword and its `=` are in front of a value, so that what is stored is shorter than the
text it is read from. -/
theorem parse_shorter {attrs out : DsnAttrs} {text : WStr}
    (h : parseConnectionString attrs text = some out) (a : DsnAttr) :
    out.val a = attrs.val a ∨ (out.val a).length < text.length := by
  induction hn : text.length using Nat.strong_induction_on generalizing attrs text with
  | _ n ih =>
    subst hn
    rw [parseConnectionString_eq] at h
    split_ifs at h
    · cases h
      exact .inl rfl
    · obtain ⟨⟨attrs', rest⟩, hturn, hrest⟩ := Option.bind_eq_some_iff.mp h
      have hskip := length_skipWs_le true text
      have hlt : rest.length < text.length := (parseTurn_length hturn).trans_le hskip
      obtain ⟨kw, r, t, hkw, hws, hval⟩ := parseTurn_cases hturn
      have hr := parseToken_length hkw
      have ht := skipWs_length hws
      rw [List.length_cons] at ht
      have hturned : attrs'.val a = attrs.val a ∨ (attrs'.val a).length < text.length := by
        obtain ⟨rfl, -⟩ | ⟨u, value, r, hws', hread, hassign⟩ := hval
        · exact .inl rfl
        · have hu := skipWs_length hws'
          have hv := parseToken_length hread
          rcases assign_val hassign a with heq | heq
          · exact .inl heq
          · rw [heq]
            exact .inr (by omega)
      rcases ih _ hlt hrest rfl with heq | hshort
      · rw [heq]
        exact hturned
      · exact .inr (hshort.trans hlt)

/-- A value without braces, up to the end of the text. -/
theorem tokenLoop_end {v : WStr} (h0 : 0 ∉ v) (hb : needsBraces v = false)
    {first : Bool} (hfirst : first = true → v.head? ≠ some 0x7B) :
    tokenLoop true first false v = some (v, false, []) := by
  induction v generalizing first with
  | nil => rfl
  | cons c v ih =>
    have hc0 : tokChar c ≠ .nul := fun h ↦ h0 (tokChar_nul.mp h ▸ List.mem_cons_self)
    have hlb : first = true → tokChar c ≠ .lbrace := by
      intro hf h
      exact hfirst hf (by rw [tokChar_lbrace.mp h]; rfl)
    simp only [needsBraces, List.any_cons, Bool.or_eq_false_iff, beq_eq_false_iff_ne] at hb
    have ih : tokenLoop true false false v = some (v, false, []) :=
      ih (fun h ↦ h0 (List.mem_cons_of_mem _ h)) hb.2 fun h ↦ Bool.noConfusion h
    rw [tokenLoop]
    cases hc : tokChar c <;> cases first <;> simp_all

/-- An entry with a plain value is read back. -/
theorem parse_entry_plain (acc : DsnAttrs) {attrs : DsnAttrs} {a : DsnAttr}
    (hv : Plain (attrs.val a)) (hne : attrs.val a ≠ []) :
    parseConnectionString acc (entryText attrs a) =
      some (acc.set a (attrs.val a) (attrs.fits a)) := by
  obtain ⟨h0, hv⟩ := hv
  obtain ⟨r, hassign⟩ := assign_keyword acc a (attrs.fits a) (.inl rfl)
  have hread {text : WStr} (hws : skipWs false text = (text, true))
      (htoken : parseToken true text = some (attrs.val a, [])) :
      parseConnectionString acc (a.keyword ++ 0x3D :: text) =
        some (acc.set a (attrs.val a) (attrs.fits a)) := by
    rw [parse_attr acc a hws, htoken]
    simp only [Option.bind_some, hassign]
    rfl
  dsimp only [entryText]
  cases hb : needsBraces (attrs.val a) with
  | true =>
    rw [hb, if_pos rfl] at hv
    rw [if_pos rfl]
    exact hread rfl (parseToken_braced ⟨h0, hv⟩)
  | false =>
    rw [hb, if_neg Bool.false_ne_true] at hv
    rw [if_neg Bool.false_ne_true]
    refine hread ?_ (by rw [parseToken, tokenLoop_end h0 hb fun _ ↦ hv]; rfl)
    generalize attrs.val a = v at h0 hb hne
    cases v with
    | nil => exact absurd rfl hne
    | cons c v =>
      have hc0 : tokChar c ≠ .nul := fun h ↦ h0 (tokChar_nul.mp h ▸ List.mem_cons_self)
      rw [needsBraces, List.any_cons] at hb
      rw [skipWs]
      cases hc : tokChar c <;> simp_all

/-- An entry with a brace in a braced value stops the parser, or is read back shorter. -/
theorem parse_entry_broken {acc attrs out : DsnAttrs} {a : DsnAttr} (h0 : 0 ∉ attrs.val a)
    (hb : needsBraces (attrs.val a) = true) (hv : ¬Inner (attrs.val a))
    (h : parseConnectionString acc (entryText attrs a) = some out) :
    (out.val a).length < (attrs.val a).length := by
  dsimp only [entryText] at h
  rw [hb, if_pos rfl, parse_attr acc a rfl, Option.bind_eq_some_iff] at h
  obtain ⟨⟨w, r⟩, hread, h⟩ := h
  obtain ⟨⟨res, acc'⟩, hassign, hrest⟩ := Option.bind_eq_some_iff.mp h
  rw [parseToken, Option.map_eq_some_iff] at hread
  obtain ⟨⟨w', closed, r'⟩, hloop, heq⟩ := hread
  have hsplit := tokenLoop_append hloop
  rcases tokenLoop_cons hloop with ⟨_, rfl, rfl, rfl, hc⟩ | ⟨hopen, _⟩ |
    ⟨w₁, b, rfl, hl, _, _, _, hopen⟩
  · exact absurd hc (by decide)
  · cases hopen
  · rw [if_pos ⟨rfl, rfl⟩] at hopen
    subst hopen
    obtain ⟨rfl, p, rfl, hlb, hrb⟩ := tokenLoop_closes hl
    obtain ⟨rfl, rfl⟩ : p = w ∧ r' = r := by
      simpa using heq
    rw [List.cons_append, List.cons.injEq, List.append_assoc, List.singleton_append] at hsplit
    -- the brace that is closed is not the last one, for the value has one in it
    rcases List.eq_nil_or_concat r' with rfl | ⟨u, c, rfl⟩
    · obtain rfl := List.append_cancel_right hsplit.2
      exact absurd ⟨h0, hlb, hrb⟩ hv
    · rw [List.concat_eq_append, ← List.cons_append, ← List.append_assoc] at hsplit
      obtain ⟨hval, -⟩ := List.append_inj' hsplit.2 rfl
      have hlen : (attrs.val a).length = p.length + (u.length + 1) := by
        rw [hval, List.length_append, List.length_cons]
      have hfits := attrs.fits a
      obtain ⟨res', hassign'⟩ := assign_keyword acc a (v := p) (by omega) (.inl rfl)
      obtain rfl : acc.set a p (by omega) = acc' := by
        have := hassign'.symm.trans hassign
        cases this
        rfl
      rcases parse_shorter hrest a with hk | hk
      · have hset : (acc.set a p (by omega)).val a = p := Function.update_self ..
        have hout : out.val a = p := hk.trans hset
        rw [hout]
        omega
      · rw [List.concat_eq_append, List.length_append, List.length_singleton] at hk
        omega

/-! ## Reading the list -/

theorem entryText_ne_nil (attrs : DsnAttrs) (a : DsnAttr) : entryText attrs a ≠ [] :=
  List.append_ne_nil_of_right_ne_nil _ (List.cons_ne_nil _ _)

theorem nul_notMem_entryText {attrs : DsnAttrs} {a : DsnAttr} (h0 : 0 ∉ attrs.val a) :
    0 ∉ entryText attrs a := by
  have hkeyword : 0 ∉ a.keyword := by cases a <;> decide
  dsimp only [entryText]
  cases needsBraces (attrs.val a) <;> simp [hkeyword, h0]

theorem length_entryText_le (attrs : DsnAttrs) (a : DsnAttr) :
    (entryText attrs a).length ≤ shrtMax := by
  have hvalue := attrs.fits a
  have hkeyword : a.keyword.length ≤ 18 := by cases a <;> decide
  rw [length_entryText]
  unfold dsnMaxAttrLen at hvalue
  unfold shrtMax
  split_ifs <;> omega

theorem parse00List_nul (acc : DsnAttrs) (rest : WStr) :
    parse00List acc (0 :: rest) = .done (some acc) := by
  rw [parse00List, if_pos rfl]

/-- The next entry of a list. -/
theorem parse00List_entry (acc : DsnAttrs) {entry : WStr} (rest : WStr) (hne : entry ≠ [])
    (h0 : 0 ∉ entry) (hlen : entry.length ≤ shrtMax) :
    parse00List acc (entry ++ 0 :: rest) =
      (parseConnectionString acc entry).elim (.done none) fun acc ↦ parse00List acc rest := by
  cases entry with
  | nil => exact absurd rfl hne
  | cons c t =>
    rw [List.mem_cons, not_or] at h0
    have htake : (t ++ 0 :: rest).takeWhile (· ≠ 0) = t := by
      rw [List.takeWhile_append_of_pos]
      · simp
      · intro d hd
        rw [decide_eq_true_eq]
        rintro rfl
        exact h0.2 hd
    have hmem : (0 : UInt16) ∈ t ++ 0 :: rest := List.mem_append_right _ List.mem_cons_self
    rw [List.cons_append, parse00List, if_neg fun h ↦ h0.1 h.symm, if_pos hmem]
    dsimp only
    rw [htake, if_neg (not_lt.mpr hlen)]
    have hdrop : ((c :: (t ++ 0 :: rest)).drop ((c :: t).length + 1)) = rest := by
      rw [List.length_cons, List.drop_succ_cons, ← List.drop_drop, List.drop_left]
      rfl
    cases parseConnectionString acc (c :: t) with
    | none => rfl
    | some acc' =>
      dsimp only [Option.elim]
      rw [hdrop]

variable {as : List DsnAttr} {attrs acc : DsnAttrs}

theorem segments00_cons (attrs : DsnAttrs) (a : DsnAttr) (as : List DsnAttr) :
    segments00 attrs (a :: as) = segment00 attrs a ++ segments00 attrs as :=
  List.flatMap_cons ..

/-- The list of attributes without terminators in them, attribute by attribute. -/
theorem parse00List_cons {a : DsnAttr} (h0 : 0 ∉ attrs.val a) (as : List DsnAttr) (rest : WStr) :
    parse00List acc (segments00 attrs (a :: as) ++ 0 :: rest) =
      if attrs.val a = [] then parse00List acc (segments00 attrs as ++ 0 :: rest)
      else (parseConnectionString acc (entryText attrs a)).elim (.done none) fun acc ↦
        parse00List acc (segments00 attrs as ++ 0 :: rest) := by
  rw [segments00_cons, segment00]
  by_cases hempty : attrs.val a = []
  · rw [if_pos hempty, if_pos hempty]
    rfl
  · rw [if_neg hempty, if_neg hempty, List.append_assoc, List.append_assoc, List.singleton_append,
      parse00List_entry acc _ (entryText_ne_nil attrs a) (nul_notMem_entryText h0)
        (length_entryText_le attrs a)]

/-- Plain values come back over what was there, whatever they are. -/
theorem parse00List_plain (acc : DsnAttrs) (hplain : ∀ a ∈ as, Plain (attrs.val a)) (rest : WStr) :
    ∃ out, parse00List acc (segments00 attrs as ++ 0 :: rest) = .done (some out) ∧
      ∀ a, out.val a = if a ∈ as ∧ attrs.val a ≠ [] then attrs.val a else acc.val a := by
  induction as generalizing acc with
  | nil =>
    exact ⟨acc, parse00List_nul acc rest, fun a ↦ (if_neg fun h ↦ List.not_mem_nil h.1).symm⟩
  | cons b as ih =>
    rw [List.forall_mem_cons] at hplain
    rw [parse00List_cons hplain.1.1]
    by_cases hne : attrs.val b = []
    · obtain ⟨out, hout, hval⟩ := ih acc hplain.2
      rw [if_pos hne]
      refine ⟨out, hout, fun a ↦ ?_⟩
      rw [hval a]
      by_cases hab : a = b
      · subst hab
        simp [hne]
      · simp [hab]
    · rw [if_neg hne, parse_entry_plain acc hplain.1 hne, Option.elim_some]
      obtain ⟨out, hout, hval⟩ := ih (acc.set b (attrs.val b) (attrs.fits b)) hplain.2
      refine ⟨out, hout, fun a ↦ ?_⟩
      rw [hval a]
      by_cases hab : a = b
      · subst hab
        simp [hne, DsnAttrs.set]
      · simp [hab, DsnAttrs.set]

/-- What comes back has no brace at its start. -/
theorem parse00List_clean (h0 : ∀ a ∈ as, 0 ∉ attrs.val a) (hacc : ∀ a, Clean (acc.val a))
    {rest : WStr} {out : DsnAttrs}
    (h : parse00List acc (segments00 attrs as ++ 0 :: rest) = .done (some out)) (a : DsnAttr) :
    Clean (out.val a) := by
  induction as generalizing acc with
  | nil =>
    cases (parse00List_nul acc rest).symm.trans h
    exact hacc a
  | cons b as ih =>
    rw [List.forall_mem_cons] at h0
    rw [parse00List_cons h0.1] at h
    by_cases hne : attrs.val b = []
    · rw [if_pos hne] at h
      exact ih h0.2 hacc h
    · rw [if_neg hne] at h
      cases hentry : parseConnectionString acc (entryText attrs b) with
      | none =>
        rw [hentry] at h
        cases h
      | some acc' =>
        rw [hentry] at h
        exact ih h0.2 (parse_clean hacc hentry) h

/-- All values come back only if they are plain: the last one that is not has been read back
shorter, and none after it changes that. -/
theorem plain_of_parse00List (has : as.Nodup) (hclean : ∀ a ∈ as, Clean (attrs.val a))
    {rest : WStr} {out : DsnAttrs}
    (hout : parse00List acc (segments00 attrs as ++ 0 :: rest) = .done (some out))
    (hval : ∀ a ∈ as, out.val a = attrs.val a) : ∀ a ∈ as, Plain (attrs.val a) := by
  induction as generalizing acc with
  | nil => exact List.forall_mem_nil _
  | cons b as ih =>
    rw [List.nodup_cons] at has
    rw [List.forall_mem_cons] at hclean hval ⊢
    rw [parse00List_cons hclean.1.1] at hout
    by_cases hne : attrs.val b = []
    · rw [if_pos hne] at hout
      exact ⟨hne ▸ Plain.nil, ih has.2 hclean.2 hout hval.2⟩
    · rw [if_neg hne] at hout
      cases hentry : parseConnectionString acc (entryText attrs b) with
      | none =>
        rw [hentry] at hout
        cases hout
      | some acc' =>
        rw [hentry, Option.elim_some] at hout
        have hplain := ih has.2 hclean.2 hout hval.2
        refine ⟨?_, hplain⟩
        by_contra hb
        obtain ⟨hbraces, hinner⟩ := hclean.1.broken hb
        have hlt := parse_entry_broken hclean.1.1 hbraces hinner hentry
        obtain ⟨out', hout', hkeep⟩ := parse00List_plain acc' hplain rest
        obtain rfl : out = out' := by
          have heq := hout.symm.trans hout'
          rw [Exec.done.injEq, Option.some.injEq] at heq
          exact heq
        rw [← hval.1, hkeep b, if_neg fun h ↦ has.1 h.1] at hlt
        exact absurd hlt (Nat.lt_irrefl _)

/-- The attributes come back exactly when all of them are plain. -/
theorem parse00List_iff (h0 : ∀ a, 0 ∉ attrs.val a) {list00 : WStr}
    (hlist : listText attrs <+: list00) :
    parse00List .init list00 = .done (some attrs) ↔ ∀ a, Plain (attrs.val a) := by
  obtain ⟨rest, rfl⟩ := hlist
  rw [listText, List.append_assoc, List.singleton_append]
  constructor
  · intro hout
    have hclean := parse00List_clean (fun a _ ↦ h0 a) (fun _ ↦ clean_nil) hout
    exact fun a ↦ plain_of_parse00List DsnAttr.nodup_all (fun a _ ↦ hclean a) hout
      (fun _ _ ↦ rfl) a a.mem_all
  · intro hplain
    obtain ⟨out, hout, hval⟩ := parse00List_plain .init (fun a _ ↦ hplain a) rest
    rw [hout, Exec.done.injEq, Option.some.injEq]
    ext1
    funext a
    rw [hval a]
    by_cases hne : attrs.val a = []
    · rw [if_neg fun h ↦ h.2 hne, hne]
      rfl
    · rw [if_pos ⟨a.mem_all, hne⟩]

/-! ## The result -/

/-- The list is written and read as it should be exactly if the buffer has a unit, is not one
unit too short, and no value of a list that fits has a brace the parser takes for its own. -/
theorem listed_iff (attrs : DsnAttrs) (buf : OutBuffer) :
    Listed attrs buf ↔
      0 < buf.units.length ∧ (listText attrs).length ≠ buf.units.length + 1 ∧
        ((listText attrs).length ≤ buf.units.length → (∀ a, 0 ∉ attrs.val a) →
          ∀ a, Plain (attrs.val a)) := by
  obtain hempty | hpos := Nat.eq_zero_or_pos buf.units.length
  · have hwrite := write00List_nil attrs
    rw [← List.length_eq_zero_iff.mp hempty] at hwrite
    exact iff_of_false (fun h ↦ h.bounds hwrite) fun h ↦ absurd hempty h.1.ne'
  · have hwrite := write00List_pos attrs hpos buf.lt
    by_cases hfits : (listText attrs).length ≤ buf.units.length
    · rw [if_pos hfits] at hwrite
      obtain ⟨list00, hout, hprefix⟩ := hwrite
      constructor
      · intro h
        refine ⟨hpos, by omega, ?_⟩
        intro _ h0
        exact (parse00List_iff h0 hprefix).mp (h.back h0 _ hout)
      · rintro ⟨-, -, hplain⟩
        refine ⟨?_, ?_, ?_⟩
        · rw [hout]
          simp
        · exact fun _ ↦ ⟨list00, hout⟩
        · intro h0 out hdone
          rw [hout, Exec.done.injEq, Option.some.injEq] at hdone
          rw [← hdone]
          exact (parse00List_iff h0 hprefix).mpr (hplain hfits h0)
    · rw [if_neg hfits] at hwrite
      by_cases hend : (listText attrs).length = buf.units.length + 1
      · rw [if_pos hend] at hwrite
        exact iff_of_false (fun h ↦ h.bounds hwrite) fun h ↦ h.2.1 hend
      · rw [if_neg hend] at hwrite
        constructor
        · intro _
          exact ⟨hpos, hend, fun h ↦ absurd h hfits⟩
        · intro _
          refine ⟨?_, fun h ↦ absurd h hfits, ?_⟩
          · rw [hwrite]
            simp
          · intro _ out hdone
            rw [hwrite] at hdone
            cases hdone

/-- With `DSN=d` the entry and its terminator fill a buffer of six units, and the terminator of
the list goes behind it. -/
theorem not_listed_oneShort :
    write00List (DsnAttrs.init.set .dsn (wstr "d") (by decide)) (List.replicate 6 0) =
        .undefined ∧
      ¬Listed (DsnAttrs.init.set .dsn (wstr "d") (by decide))
        ⟨List.replicate 6 0, by rw [List.length_replicate]; decide⟩ := by
  have hwrite : write00List (DsnAttrs.init.set .dsn (wstr "d") (by decide)) (List.replicate 6 0) =
      .undefined := by
    rfl
  exact ⟨hwrite, fun h ↦ h.bounds hwrite⟩

end EsOdbc
