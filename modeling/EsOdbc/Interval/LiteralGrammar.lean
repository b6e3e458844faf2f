import EsOdbc.Interval.LiteralParse
import EsOdbc.Interval.LiteralRoundTrip

/-!
# The grammar of interval literals

Which texts `parse_interval_literal` accepts, and what becomes of the others.
-/

namespace EsOdbc

/-! ## The grammar -/

/-- A text that blanks can stand before and behind. -/
structure Tight (w : WStr) : Prop where
  ne_nil : w ≠ []
  head : ∀ c ∈ w.head?, isSpace true c = false
  last : ∀ c ∈ w.getLast?, isSpace true c = false

/-- The words of a qualifier, the last one first, each behind blanks. -/
def QualText : List WStr → WStr → Prop
  | [], q => q = []
  | word :: words, q => ∃ q' b x, q = q' ++ (b ++ x) ∧ QualText words q' ∧ Blank b ∧
      eqCaseWstr x word = true

/-- Nothing, or braces. -/
def Enclosing (opening closing : WStr) : Prop :=
  opening = [] ∧ closing = [] ∨
    ∃ a b, opening = 0x7B :: a ∧ closing = b ++ [0x7D] ∧ Blank a ∧ Blank b

/-- `INTERVAL` and what stands behind it in two parts, perhaps all in braces. -/
def Framed (w y q : WStr) : Prop :=
  Tight y ∧ ∃ opening kw b closing, w = opening ++ (kw ++ (b ++ (y ++ (q ++ closing)))) ∧
    Enclosing opening closing ∧ eqCaseWstr kw wordInterval = true ∧ Blank b

/-- A text behind a sign, and blanks, if there is one. -/
def Signed (y : WStr) (sign : Bool) (v : WStr) : Prop :=
  y = v ∧ sign = false ∧ v.head? ≠ some 0x2D ∧ v.head? ≠ some 0x2B ∨
    ∃ b, y = (if sign then 0x2D else 0x2B) :: (b ++ v) ∧ Blank b ∧
      ∀ c ∈ v.head?, isSpace true c = false

/-- A text in quotes, or without them. -/
def Quoted (v value : WStr) : Prop :=
  v = 0x27 :: (value ++ [0x27]) ∨ v = value ∧ ¬(v.head? = some 0x27 ∧ v.getLast? = some 0x27)

/-- The text of a literal with a qualifier. -/
def LiteralText (words : List WStr) (delim : Bool) (w : WStr) (sign : Bool) (value : WStr) : Prop :=
  ∃ y q v, Framed w y q ∧ QualText words q ∧ (delim = true → endsInDelim y = true) ∧
    Signed y sign v ∧ Quoted v value

/-! ## Qualifiers -/

/-- A word of lower letters. -/
def IsWord (word : WStr) : Prop := word ≠ [] ∧ ∀ c ∈ word, IsLower c

theorem isWord_of_mem : ∀ word ∈ [wordDay, wordYear, wordHour, wordMinute, wordMonth, wordSecond,
    wordTo], IsWord word := by
  intro word hword
  simp only [List.mem_cons, List.not_mem_nil, or_false] at hword
  rcases hword with rfl | rfl | rfl | rfl | rfl | rfl | rfl
  all_goals
    simp [IsWord, IsLower, wordDay, wordYear, wordHour, wordMinute, wordMonth, wordSecond, wordTo]

theorem isWord_qualifier (t : IntervalType) : ∀ word ∈ qualifier t, IsWord word := by
  intro word hword
  refine isWord_of_mem word ?_
  cases t <;> simp only [qualifier, List.mem_cons, List.not_mem_nil, or_false] at hword ⊢ <;> tauto

/-- The last letter of a word of either case is none that is trimmed. -/
theorem last_of_eqCase {x word : WStr} (hword : IsWord word) (h : eqCaseWstr x word = true) :
    x ≠ [] ∧ ∀ c ∈ x.getLast?, isSpace true c = false := by
  have hmap := eq_of_beq h
  constructor
  · rintro rfl
    exact hword.1 (List.map_eq_nil_iff.mp hmap.symm)
  · intro c hc
    have hlast := congrArg List.getLast? hmap
    rw [List.getLast?_map, List.getLast?_map, show x.getLast? = some c from hc] at hlast
    obtain ⟨d, hd, hcase⟩ := Option.map_eq_some_iff.mp hlast.symm
    exact (eq_of_toWlower (hword.2 d (List.mem_of_getLast? hd)) hcase.symm).2.2

theorem getLast?_append_right {u x : WStr} (hx : x ≠ []) : (u ++ x).getLast? = x.getLast? :=
  List.getLast?_append_of_ne_nil u hx

/-- A text before a qualifier ends without blanks, as the qualifier does. -/
theorem QualText.last {words : List WStr} (hwords : ∀ word ∈ words, IsWord word) {y q : WStr}
    (h : QualText words q) (hy : ∀ c ∈ y.getLast?, isSpace true c = false) :
    ∀ c ∈ (y ++ q).getLast?, isSpace true c = false := by
  cases words with
  | nil =>
    obtain rfl : q = [] := h
    rwa [List.append_nil]
  | cons word words =>
    obtain ⟨q', b, x, rfl, -, -, hx⟩ := h
    obtain ⟨hne, hlast⟩ := last_of_eqCase (hwords word (List.mem_cons_self ..)) hx
    rwa [← List.append_assoc, ← List.append_assoc, getLast?_append_right hne]

/-- What is trimmed is the qualifier. -/
theorem trimWords_eq_some {words : List WStr} (hwords : ∀ word ∈ words, IsWord word)
    {w y : WStr} (hw : Tight w) :
    trimWords words w = some y ↔ Tight y ∧ ∃ q, w = y ++ q ∧ QualText words q := by
  induction words generalizing w with
  | nil =>
    simp only [trimWords, List.foldlM_nil, QualText]
    constructor
    · intro h
      obtain rfl := Option.some.inj h
      exact ⟨hw, [], (List.append_nil _).symm, rfl⟩
    · rintro ⟨-, q, rfl, rfl⟩
      rw [List.append_nil]
      rfl
  | cons word words ih =>
    have hword := hwords word (List.mem_cons_self ..)
    have hwords' : ∀ word ∈ words, IsWord word := fun x hx ↦ hwords x (List.mem_cons_of_mem _ hx)
    rw [trimWords_cons]
    constructor
    · rintro ⟨u, hu, h⟩
      obtain ⟨hlen, v, x, rfl, hx, hv⟩ := trimIfEndsWith_eq_some.mp hu
      obtain ⟨hlast, b, hb, rfl⟩ := wrtrimWs_eq_iff.mp hv
      have hlenx : x.length = word.length := by
        simpa using congrArg List.length (eq_of_beq hx)
      have hune : u ≠ [] := by
        rintro rfl
        rw [List.nil_append] at hw hlen
        cases b with
        | nil => simp [hlenx] at hlen
        | cons c b =>
          have hc := hw.head c rfl
          rw [(blank_cons.mp hb).1] at hc
          cases hc
      have hutight : Tight u := by
        refine ⟨hune, ?_, hlast⟩
        obtain ⟨c, u, rfl⟩ := List.exists_cons_of_ne_nil hune
        exact hw.head
      obtain ⟨hy, q, rfl, hq⟩ := (ih hwords' hutight).mp h
      exact ⟨hy, q ++ (b ++ x), by simp only [List.append_assoc], q, b, x, rfl, hq, hb, hx⟩
    · rintro ⟨hy, q, rfl, q', b, x, rfl, hq', hb, hx⟩
      have hlenx : x.length = word.length := by
        simpa using congrArg List.length (eq_of_beq hx)
      have hpos := List.length_pos_of_ne_nil hy.ne_nil
      have hu : Tight (y ++ q') := by
        refine ⟨by simp [hy.ne_nil], ?_, hq'.last hwords' hy.last⟩
        obtain ⟨c, y, rfl⟩ := List.exists_cons_of_ne_nil hy.ne_nil
        exact hy.head
      refine ⟨y ++ q', trimIfEndsWith_eq_some.mpr ⟨?_, y ++ q' ++ b, x, ?_, hx, ?_⟩, ?_⟩
      · simp only [List.length_append]
        omega
      · simp only [List.append_assoc]
      · exact wrtrimWs_eq_iff.mpr ⟨hu.last, b, hb, rfl⟩
      · exact (ih hwords' hu).mpr ⟨hy, q', rfl, hq'⟩

/-! ## The frame -/

/-- A text that starts and ends with different units. -/
theorem eq_cons_append {w : WStr} {c d : UInt16} (hcd : c ≠ d) (hc : w.head? = some c)
    (hd : w.getLast? = some d) : w = c :: (w.tail.dropLast ++ [d]) := by
  cases w with
  | nil => cases hc
  | cons x w =>
    obtain rfl : x = c := by simpa using hc
    cases w using List.reverseRecOn with
    | nil => exact absurd (by simpa using hd) hcd
    | append_singleton w y =>
      rw [← List.cons_append, List.getLast?_concat, Option.some.injEq] at hd
      simp [hd]

theorem stripBraces_sound {w v : WStr} (h : stripBraces w = some v) :
    ∃ o c, w = o ++ (v ++ c) ∧ Enclosing o c := by
  rw [stripBraces] at h
  split at h
  · next hbraces =>
    dsimp only at h
    split at h
    · cases h
    · obtain ⟨a, ha, hmid⟩ := wltrimWs_eq w.tail.dropLast
      obtain ⟨-, b, hb, hv⟩ := wrtrimWs_eq_iff.mp (Option.some.inj h)
      refine ⟨0x7B :: a, b ++ [0x7D], ?_, .inr ⟨a, b, rfl, rfl, ha, hb⟩⟩
      rw [eq_cons_append (by decide) hbraces.1 hbraces.2, hmid, hv]
      simp
  · obtain rfl := Option.some.inj h
    exact ⟨[], [], by simp, .inl ⟨rfl, rfl⟩⟩

theorem stripBraces_complete {v o c : WStr} (ho : Enclosing o c) (hv : Tight v)
    (hlen : wordInterval.length < v.length) (hbrace : v.head? ≠ some 0x7B) :
    stripBraces (o ++ (v ++ c)) = some v := by
  rcases ho with ⟨rfl, rfl⟩ | ⟨a, b, rfl, rfl, ha, hb⟩
  · rw [List.nil_append, List.append_nil, stripBraces, if_neg fun h ↦ hbrace h.1]
  · have hhead : (0x7B :: a ++ (v ++ (b ++ [0x7D]))).head? = some 0x7B := rfl
    have hlast : (0x7B :: a ++ (v ++ (b ++ [0x7D]))).getLast? = some 0x7D := by
      rw [← List.append_assoc, ← List.append_assoc]
      exact List.getLast?_concat
    have hmid : (0x7B :: a ++ (v ++ (b ++ [0x7D]))).tail.dropLast = a ++ (v ++ b) := by
      rw [List.cons_append, List.tail_cons, ← List.append_assoc, ← List.append_assoc,
        List.dropLast_concat, List.append_assoc]
    have hl : wltrimWs (a ++ (v ++ b)) = v ++ b := by
      refine wltrimWs_eq_iff.mpr ⟨?_, a, ha, rfl⟩
      obtain ⟨x, v, rfl⟩ := List.exists_cons_of_ne_nil hv.ne_nil
      exact hv.head
    have hr : wrtrimWs (v ++ b) = v := wrtrimWs_eq_iff.mpr ⟨hv.last, b, hb, rfl⟩
    rw [stripBraces, if_pos ⟨hhead, hlast⟩, hmid]
    dsimp only
    rw [hl, hr, if_neg (not_le.mpr hlen)]

theorem length_of_eqCase {x word : WStr} (h : eqCaseWstr x word = true) :
    x.length = word.length := by
  simpa using congrArg List.length (eq_of_beq h)

/-- What is behind `INTERVAL`. -/
theorem literalBody_sound {w u : WStr} (h : literalBody w = some u) :
    (∀ c ∈ u.head?, isSpace true c = false) ∧
      ∃ opening kw b closing, w = opening ++ (kw ++ (b ++ (u ++ closing))) ∧
        Enclosing opening closing ∧ eqCaseWstr kw wordInterval = true ∧ Blank b := by
  rw [literalBody] at h
  split at h
  · cases h
  · obtain ⟨v, hv, hu⟩ := Option.bind_eq_some_iff.mp h
    split at hu
    · cases hu
    · next hkw =>
      obtain ⟨o, c, rfl, ho⟩ := stripBraces_sound hv
      obtain ⟨hu, b, hb, hdrop⟩ := wltrimWs_eq_iff.mp (Option.some.inj hu)
      refine ⟨hu, o, v.take wordInterval.length, b, c, ?_, ho, not_not.mp hkw, hb⟩
      conv_lhs => rw [← List.take_append_drop wordInterval.length v, hdrop]
      simp only [List.append_assoc]

theorem literalBody_complete {u opening kw b closing : WStr} (ho : Enclosing opening closing)
    (hkw : eqCaseWstr kw wordInterval = true) (hb : Blank b) (hu : Tight u)
    (hlen : 4 ≤ u.length) :
    literalBody (opening ++ (kw ++ (b ++ (u ++ closing)))) = some u := by
  have hkwlen := length_of_eqCase hkw
  obtain ⟨c, kw', rfl⟩ : ∃ c kw', kw = c :: kw' := by
    cases kw with
    | nil => cases hkwlen
    | cons c kw' => exact ⟨c, kw', rfl⟩
  have hc : toWlower c = 0x69 := by
    have hmap := eq_of_beq hkw
    simp only [List.map_cons, wordInterval, List.cons.injEq] at hmap
    exact hmap.1.trans (by decide)
  obtain ⟨-, -, hspace⟩ := eq_of_toWlower (x := 0x69) (by decide) (hc.trans (by decide))
  have hbrace : c ≠ 0x7B := by
    rintro rfl
    revert hc
    decide
  have htight : Tight (c :: kw' ++ (b ++ u)) := by
    refine ⟨by simp, ?_, ?_⟩
    · intro x hx
      obtain rfl : c = x := by simpa using hx
      exact hspace
    · rw [← List.append_assoc, getLast?_append_right hu.ne_nil]
      exact hu.last
  have hlong : wordInterval.length < (c :: kw' ++ (b ++ u)).length := by
    simp only [List.length_append, hkwlen]
    omega
  have hstrip := stripBraces_complete ho htight hlong (by simpa using hbrace)
  have hassoc : opening ++ (c :: kw' ++ (b ++ (u ++ closing))) =
      opening ++ (c :: kw' ++ (b ++ u) ++ closing) := by simp only [List.append_assoc]
  have hmin : ¬(opening ++ (c :: kw' ++ (b ++ u) ++ closing)).length < wordInterval.length + 4 := by
    simp only [List.length_append, hkwlen]
    omega
  have htake : (c :: kw' ++ (b ++ u)).take wordInterval.length = c :: kw' := by
    rw [← hkwlen, List.take_left]
  have hdrop : (c :: kw' ++ (b ++ u)).drop wordInterval.length = b ++ u := by
    rw [← hkwlen, List.drop_left]
  rw [hassoc, literalBody, if_neg hmin, hstrip, Option.bind_some, htake, hdrop,
    if_neg (not_not.mpr hkw), wltrimWs_eq_iff.mpr ⟨hu.head, b, hb, rfl⟩]

/-! ## What is found before the value is parsed -/

/-- The words that are taken for the qualifier of a type, the last one first: its own, or those of
a `MONTH TO MINUTE`. -/
def Names (t : IntervalType) (words : List WStr) : Prop :=
  words = qualifier t ∨
    (t = .month ∨ t = .yearToMonth) ∧ words = wordMinute :: wordTo :: qualifier t

theorem Names.words {t : IntervalType} {words : List WStr} (h : Names t words) :
    (∀ word ∈ words, IsWord word) ∧
      ∃ word words', words = word :: words' ∧ 3 ≤ word.length := by
  rcases h with rfl | ⟨-, rfl⟩
  · refine ⟨isWord_qualifier t, ?_⟩
    cases t <;> exact ⟨_, _, rfl, by decide⟩
  · refine ⟨?_, _, _, rfl, by decide⟩
    intro word hword
    rcases List.mem_cons.mp hword with rfl | hword
    · exact isWord_of_mem _ (by simp)
    · rcases List.mem_cons.mp hword with rfl | hword
      · exact isWord_of_mem _ (by simp)
      · exact isWord_qualifier t word hword

theorem parseIntervalType_names {t : IntervalType} {w y : WStr} :
    parseIntervalType w = some (t, y) ↔ ∃ words, Names t words ∧ trimWords words w = some y ∧
      (needsDelim t = true → endsInDelim y = true) := by
  rw [parseIntervalType_eq_some]
  constructor
  · rintro (⟨htrim, hdelim⟩ | ⟨ht, htrim, hdelim⟩)
    · exact ⟨_, .inl rfl, htrim, hdelim⟩
    · exact ⟨_, .inr ⟨ht, rfl⟩, htrim, hdelim⟩
  · rintro ⟨words, rfl | ⟨ht, rfl⟩, htrim, hdelim⟩
    · exact .inl ⟨htrim, hdelim⟩
    · exact .inr ⟨ht, htrim, hdelim⟩

/-- A text that words are at the end of is not blank there. -/
theorem tight_of_trimWords {t : IntervalType} {words : List WStr} {u y : WStr}
    (hwords : Names t words) (hu : ∀ c ∈ u.head?, isSpace true c = false)
    (h : trimWords words u = some y) : Tight u := by
  obtain ⟨hwords, word, words', rfl, -⟩ := hwords.words
  obtain ⟨x, hx, -⟩ := trimWords_cons.mp h
  obtain ⟨hlen, v, z, rfl, hz, -⟩ := trimIfEndsWith_eq_some.mp hx
  obtain ⟨hne, hlast⟩ := last_of_eqCase (hwords word (List.mem_cons_self ..)) hz
  refine ⟨by simp [hne], hu, ?_⟩
  rwa [getLast?_append_right hne]

theorem QualText.length {t : IntervalType} {words : List WStr} {q : WStr} (hwords : Names t words)
    (h : QualText words q) : 3 ≤ q.length := by
  obtain ⟨-, word, words', rfl, hlen⟩ := hwords.words
  obtain ⟨q', b, x, rfl, -, -, hx⟩ := h
  rw [List.length_append, List.length_append, length_of_eqCase hx]
  omega

theorem noSep_of_letter {word : WStr} (hword : IsWord word) {x : WStr}
    (hx : eqCaseWstr x word = true) : ∀ c ∈ x.head?, NoSep c := by
  intro c hc
  have hhead := congrArg List.head? (eq_of_beq hx)
  rw [List.head?_map, List.head?_map, show x.head? = some c from hc] at hhead
  obtain ⟨d, hd, hcase⟩ := Option.map_eq_some_iff.mp hhead.symm
  have hlower := hword.2 d (List.mem_of_head? hd)
  obtain ⟨hor, -, -⟩ := eq_of_toWlower hlower hcase.symm
  rw [← hor] at hlower
  constructor
  · rintro rfl
    exact absurd hlower (by decide)
  · rintro rfl
    exact absurd hlower (by decide)

/-- What a qualifier starts with is no separator of fields. -/
theorem QualText.head {words : List WStr} (hwords : ∀ word ∈ words, IsWord word) {q : WStr}
    (h : QualText words q) : ∀ c ∈ q.head?, NoSep c := by
  induction words generalizing q with
  | nil =>
    obtain rfl : q = [] := h
    exact fun c hc ↦ by simp at hc
  | cons word words ih =>
    obtain ⟨q', b, x, rfl, hq', hb, hx⟩ := h
    have hq' := ih (fun word hword ↦ hwords word (List.mem_cons_of_mem _ hword)) hq'
    have hx := noSep_of_letter (hwords word (List.mem_cons_self ..)) hx
    cases q' with
    | cons c q' => exact hq'
    | nil =>
      cases b with
      | nil => exact hx
      | cons c b =>
        intro d hd
        obtain rfl : c = d := by simpa using hd
        have hblank := (blank_cons.mp hb).1
        constructor
        · rintro rfl
          exact absurd hblank (by decide)
        · rintro rfl
          exact absurd hblank (by decide)

/-- A text with words behind it is what is behind `INTERVAL`. -/
theorem Framed.body {t : IntervalType} {words : List WStr} {w y q : WStr} (h : Framed w y q)
    (hwords : Names t words) (hq : QualText words q) :
    literalBody w = some (y ++ q) ∧ trimWords words (y ++ q) = some y := by
  obtain ⟨hy, opening, kw, b, closing, rfl, ho, hkw, hb⟩ := h
  have hu : Tight (y ++ q) := by
    refine ⟨by simp [hy.ne_nil], ?_, hq.last hwords.words.1 hy.last⟩
    obtain ⟨c, y, rfl⟩ := List.exists_cons_of_ne_nil hy.ne_nil
    exact hy.head
  have hlen : 4 ≤ (y ++ q).length := by
    have hpos := List.length_pos_of_ne_nil hy.ne_nil
    have hthree := hq.length hwords
    rw [List.length_append]
    omega
  refine ⟨?_, (trimWords_eq_some hwords.words.1 hu).mpr ⟨hy, q, rfl, hq⟩⟩
  rw [← List.append_assoc y]
  exact literalBody_complete ho hkw hb hu hlen

theorem signed_iff {y v : WStr} {sign : Bool} :
    Signed y sign v ↔ sign = decide (y.head? = some 0x2D) ∧
      v = if y.head? = some 0x2D ∨ y.head? = some 0x2B then wltrimWs y.tail else y := by
  constructor
  · rintro (⟨rfl, rfl, hminus, hplus⟩ | ⟨b, rfl, hb, hv⟩)
    · exact ⟨by simp [hminus], (if_neg (by simp [hminus, hplus])).symm⟩
    · cases sign <;> simp [wltrimWs_eq_iff.mpr ⟨hv, b, hb, rfl⟩]
  · rintro ⟨rfl, rfl⟩
    split
    · next hsign =>
      obtain ⟨b, hb, htail⟩ := wltrimWs_eq y.tail
      refine .inr ⟨b, ?_, hb, wltrimWs_head⟩
      obtain ⟨c, tail, rfl⟩ : ∃ c tail, y = c :: tail := by
        cases y with
        | nil => simp at hsign
        | cons c tail => exact ⟨c, tail, rfl⟩
      rw [List.tail_cons] at htail ⊢
      rw [← htail]
      rcases hsign with hsign | hsign <;> obtain rfl := Option.some.inj hsign <;> rfl
    · next hsign =>
      push Not at hsign
      exact .inl ⟨rfl, by simp [hsign.1], hsign⟩

/-- What is found before the value is parsed. -/
theorem literalHead_eq_some {w : WStr} {h : LiteralHead} :
    literalHead w = some h ↔ ∃ t words y q sign v, Names t words ∧ Framed w y q ∧
      QualText words q ∧ (needsDelim t = true → endsInDelim y = true) ∧ Signed y sign v ∧
        h = stripQuotes t sign v q := by
  rw [literalHead, Option.bind_eq_some_iff]
  simp only [Option.map_eq_some_iff, signed_iff]
  constructor
  · rintro ⟨u, hu, ⟨t, y⟩, htype, rfl⟩
    obtain ⟨words, hwords, htrim, hdelim⟩ := parseIntervalType_names.mp htype
    obtain ⟨hhead, opening, kw, b, closing, rfl, ho, hkw, hb⟩ := literalBody_sound hu
    have htight := tight_of_trimWords hwords hhead htrim
    obtain ⟨hy, q, rfl, hq⟩ := (trimWords_eq_some hwords.words.1 htight).mp htrim
    refine ⟨t, words, y, q, _, _, hwords, ⟨hy, opening, kw, b, closing, ?_, ho, hkw, hb⟩, hq,
      hdelim, ⟨rfl, rfl⟩, ?_⟩
    · rw [List.append_assoc y]
    · simp only [List.drop_left]
  · rintro ⟨t, words, y, q, sign, v, hwords, hframed, hq, hdelim, ⟨rfl, rfl⟩, rfl⟩
    obtain ⟨hbody, htrim⟩ := hframed.body hwords hq
    refine ⟨y ++ q, hbody, (t, y), parseIntervalType_names.mpr ⟨words, hwords, htrim, hdelim⟩, ?_⟩
    simp only [List.drop_left]

end EsOdbc
