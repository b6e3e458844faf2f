import EsOdbc.Interval.Literal

/-!
# The qualifier of an interval literal

`parse_interval_type` of `convert.c`: the words at the end of a literal that name its type, from
the last one on.
-/

namespace EsOdbc

/-- `TRIM_IF_ENDS_WITH_OR_RET`: the text before a word at its end, that is not all of it. -/
def trimIfEndsWith (w word : WStr) : Option WStr :=
  if w.length ≤ word.length ∨ ¬eqCaseWstr (w.drop (w.length - word.length)) word then none
  else some (wrtrimWs (w.take (w.length - word.length)))

/-- `IS_DELIM`. -/
def isDelim (c : UInt16) : Bool := c = 0x27 || c = 0x2E || (0x30 ≤ c && c ≤ 0x39)

/-- `IS_DELIM` of the last unit. -/
def endsInDelim (w : WStr) : Bool := w.getLast?.any isDelim

/-- Whether a unit before the end, in lower case, is `c`. -/
def isFromEnd (w : WStr) (k : ℕ) (c : UInt16) : Bool := w.reverse[k]?.any fun u ↦ u ||| 0x20 = c

def wordDay : WStr := [0x64, 0x61, 0x79]
def wordYear : WStr := [0x79, 0x65, 0x61, 0x72]
def wordHour : WStr := [0x68, 0x6F, 0x75, 0x72]
def wordMinute : WStr := [0x6D, 0x69, 0x6E, 0x75, 0x74, 0x65]
def wordMonth : WStr := [0x6D, 0x6F, 0x6E, 0x74, 0x68]
def wordSecond : WStr := [0x73, 0x65, 0x63, 0x6F, 0x6E, 0x64]
def wordTo : WStr := [0x74, 0x6F]

/-- The `case` of a qualifier that ends in `h`. -/
def parseTypeMonth (w : WStr) : Option (IntervalType × WStr) :=
  (trimIfEndsWith w wordMonth).bind fun w ↦
    if endsInDelim w then some (.month, w)
    else
      (trimIfEndsWith w wordTo).bind fun w ↦ (trimIfEndsWith w wordYear).map (.yearToMonth, ·)

/-- The `case` of a qualifier that ends in `r`. -/
def parseTypeHour (w : WStr) : Option (IntervalType × WStr) :=
  if isFromEnd w 1 0x61 then (trimIfEndsWith w wordYear).map (.year, ·)
  else if isFromEnd w 1 0x75 then
    (trimIfEndsWith w wordHour).bind fun w ↦
      if endsInDelim w then some (.hour, w)
      else (trimIfEndsWith w wordTo).bind fun w ↦ (trimIfEndsWith w wordDay).map (.dayToHour, ·)
  else none

/-- The `case` of a qualifier that ends in `e`.  Its inner `switch` has no `break` behind it, so
that what it does not know goes on to the `case` for `h`. -/
def parseTypeMinute (w : WStr) : Option (IntervalType × WStr) :=
  (trimIfEndsWith w wordMinute).bind fun w ↦
    if endsInDelim w then some (.minute, w)
    else
      (trimIfEndsWith w wordTo).bind fun w ↦
        if isFromEnd w 0 0x79 then (trimIfEndsWith w wordDay).map (.dayToMinute, ·)
        else if isFromEnd w 0 0x72 then (trimIfEndsWith w wordHour).map (.hourToMinute, ·)
        else parseTypeMonth w

/-- The `case` of a qualifier that ends in `d`. -/
def parseTypeSecond (w : WStr) : Option (IntervalType × WStr) :=
  (trimIfEndsWith w wordSecond).bind fun w ↦
    if endsInDelim w then some (.second, w)
    else
      (trimIfEndsWith w wordTo).bind fun w ↦
        if isFromEnd w 0 0x79 then (trimIfEndsWith w wordDay).map (.dayToSecond, ·)
        else if isFromEnd w 0 0x72 then (trimIfEndsWith w wordHour).map (.hourToSecond, ·)
        else if isFromEnd w 0 0x65 then (trimIfEndsWith w wordMinute).map (.minuteToSecond, ·)
        else none

/-- `parse_interval_type`: the type, and the text before its qualifier. -/
def parseIntervalType (w : WStr) : Option (IntervalType × WStr) :=
  if w.length ≤ 3 then none
  else if isFromEnd w 0 0x79 then (trimIfEndsWith w wordDay).map (.day, ·)
  else if isFromEnd w 0 0x72 then parseTypeHour w
  else if isFromEnd w 0 0x65 then parseTypeMinute w
  else if isFromEnd w 0 0x68 then parseTypeMonth w
  else if isFromEnd w 0 0x64 then parseTypeSecond w
  else none

/-! ## Words -/

/-- The words of a type's qualifier, the last one first. -/
def qualifier : IntervalType → List WStr
  | .year => [wordYear]
  | .month => [wordMonth]
  | .day => [wordDay]
  | .hour => [wordHour]
  | .minute => [wordMinute]
  | .second => [wordSecond]
  | .yearToMonth => [wordMonth, wordTo, wordYear]
  | .dayToHour => [wordHour, wordTo, wordDay]
  | .dayToMinute => [wordMinute, wordTo, wordDay]
  | .dayToSecond => [wordSecond, wordTo, wordDay]
  | .hourToMinute => [wordMinute, wordTo, wordHour]
  | .hourToSecond => [wordSecond, wordTo, wordHour]
  | .minuteToSecond => [wordSecond, wordTo, wordMinute]

/-- The types whose only word is also the last one of another. -/
def needsDelim : IntervalType → Bool
  | .month | .hour | .minute | .second => true
  | _ => false

/-- The text before words at the end of another. -/
def trimWords (words : List WStr) (w : WStr) : Option WStr := words.foldlM trimIfEndsWith w

/-- A text with the qualifier of a type at its end, and what is before it. -/
def Qualified (t : IntervalType) (w y : WStr) : Prop :=
  trimWords (qualifier t) w = some y ∧ (needsDelim t = true → endsInDelim y = true)

/-- A text that ends in `MONTH TO MINUTE`, taken for one that ends in `MONTH`. -/
def MonthToMinute (t : IntervalType) (w y : WStr) : Prop :=
  (t = .month ∨ t = .yearToMonth) ∧
    trimWords (wordMinute :: wordTo :: qualifier t) w = some y ∧
      (needsDelim t = true → endsInDelim y = true)

theorem trimIfEndsWith_eq_some {w word u : WStr} :
    trimIfEndsWith w word = some u ↔ word.length < w.length ∧
      ∃ v x, w = v ++ x ∧ eqCaseWstr x word = true ∧ wrtrimWs v = u := by
  have hlen {x : WStr} (h : eqCaseWstr x word = true) : x.length = word.length := by
    have h := congrArg List.length (eq_of_beq h)
    rwa [List.length_map, List.length_map] at h
  constructor
  · intro h
    rw [trimIfEndsWith] at h
    split at h
    · cases h
    · next hw =>
      push Not at hw
      exact ⟨hw.1, _, _, (List.take_append_drop _ w).symm, hw.2, Option.some.inj h⟩
  · rintro ⟨hlt, v, x, rfl, hx, rfl⟩
    have hn : (v ++ x).length - word.length = v.length := by
      rw [List.length_append, hlen hx, Nat.add_sub_cancel]
    have hdrop : (v ++ x).drop v.length = x := List.drop_left
    have htake : (v ++ x).take v.length = v := List.take_left
    rw [trimIfEndsWith, hn, hdrop, htake, if_neg]
    exact not_or.mpr ⟨not_le.mpr hlt, not_not.mpr hx⟩

/-- A text that ends in a word has its letters, of either case. -/
theorem letter_of_trim {w word u : WStr} (h : trimIfEndsWith w word = some u) {k : ℕ} {x : UInt16}
    (hx : word.reverse[k]? = some x) : ∃ c, w.reverse[k]? = some c ∧ toWlower c = toWlower x := by
  obtain ⟨-, v, y, rfl, hcase, -⟩ := trimIfEndsWith_eq_some.mp h
  have hmap : y.reverse.map toWlower = word.reverse.map toWlower := by
    rw [List.map_reverse, List.map_reverse, eq_of_beq hcase]
  have hget := congrArg (·[k]?) hmap
  simp only [List.getElem?_map, hx, Option.map_some, Option.map_eq_some_iff] at hget
  obtain ⟨c, hc, hlower⟩ := hget
  refine ⟨c, ?_, hlower⟩
  rw [List.reverse_append, List.getElem?_append_left, hc]
  exact (List.getElem?_eq_some_iff.mp hc).1

/-- A lower letter. -/
def IsLower (c : UInt16) : Prop := 0x61 ≤ c ∧ c ≤ 0x7A

instance (c : UInt16) : Decidable (IsLower c) := inferInstanceAs (Decidable (_ ∧ _))

/-- What a letter is of. -/
theorem eq_of_toWlower {c x : UInt16} (hx : IsLower x) (h : toWlower c = toWlower x) :
    c ||| 0x20 = x ∧ isDelim c = false ∧ isSpace true c = false := by
  have key : ∀ i : Fin 26, ∀ c ∈ [UInt16.ofNat (0x61 + i), UInt16.ofNat (0x41 + i)],
      c ||| 0x20 = UInt16.ofNat (0x61 + i) ∧ isDelim c = false ∧ isSpace true c = false := by
    intro i c hc
    fin_cases i <;> fin_cases hc <;> exact ⟨by decide, by decide, by decide⟩
  obtain ⟨hlo, hhi⟩ := hx
  rw [UInt16.le_iff_toNat_le] at hlo hhi
  have hlo : 0x61 ≤ x.toNat := hlo
  have hhi : x.toNat ≤ 0x7A := hhi
  have hx : x = UInt16.ofNat (0x61 + (⟨x.toNat - 0x61, by omega⟩ : Fin 26).val) := by
    rw [← UInt16.toNat_inj, UInt16.toNat_ofNat']
    dsimp only
    omega
  have hxlower : toWlower x = x := by
    rw [toWlower, if_neg]
    rintro ⟨-, h⟩
    have h : x.toNat ≤ 0x5A := UInt16.le_iff_toNat_le.mp h
    omega
  have hc : c ∈ [UInt16.ofNat (0x61 + (⟨x.toNat - 0x61, by omega⟩ : Fin 26).val),
      UInt16.ofNat (0x41 + (⟨x.toNat - 0x61, by omega⟩ : Fin 26).val)] := by
    rw [hxlower, toWlower] at h
    split at h
    · next hupper =>
      have h1 : 0x41 ≤ c.toNat := UInt16.le_iff_toNat_le.mp hupper.1
      have h2 : c.toNat ≤ 0x5A := UInt16.le_iff_toNat_le.mp hupper.2
      have hsum := congrArg UInt16.toNat h
      have hadd : (c + 0x20).toNat = c.toNat + 0x20 := by
        rw [UInt16.toNat_add]
        exact Nat.mod_eq_of_lt (by show c.toNat + 0x20 < 2 ^ 16; omega)
      rw [hadd] at hsum
      refine List.mem_cons_of_mem _ (List.mem_singleton.mpr ?_)
      rw [← UInt16.toNat_inj, UInt16.toNat_ofNat']
      dsimp only
      omega
    · rw [h, ← hx]
      exact List.mem_cons_self ..
  have hkey := key _ c hc
  rwa [← hx] at hkey

/-- The last letters of a text that ends in a word are those of the word. -/
theorem isFromEnd_of_trim {w word u : WStr} (h : trimIfEndsWith w word = some u) {k : ℕ}
    {x : UInt16} (hx : word.reverse[k]? = some x) (hlower : IsLower x) (c : UInt16) :
    isFromEnd w k c = decide (x = c) := by
  obtain ⟨d, hd, hcase⟩ := letter_of_trim h hx
  rw [isFromEnd, hd, Option.any_some, (eq_of_toWlower hlower hcase).1]

theorem not_endsInDelim_of_trim {w word u : WStr} (h : trimIfEndsWith w word = some u)
    {x : UInt16} (hx : word.reverse[0]? = some x) (hlower : IsLower x) :
    endsInDelim w = false := by
  obtain ⟨d, hd, hcase⟩ := letter_of_trim h hx
  have hlast : w.getLast? = some d := by
    rw [← List.head?_reverse, List.head?_eq_getElem?, hd]
  rw [endsInDelim, hlast, Option.any_some, (eq_of_toWlower hlower hcase).2.1]

theorem length_of_trim {w word u : WStr} (h : trimIfEndsWith w word = some u) :
    word.length < w.length :=
  (trimIfEndsWith_eq_some.mp h).1

theorem trimWords_one {word w y : WStr} :
    trimWords [word] w = some y ↔ trimIfEndsWith w word = some y := by
  simp [trimWords]

theorem trimWords_cons {word w y : WStr} {words : List WStr} :
    trimWords (word :: words) w = some y ↔
      ∃ u, trimIfEndsWith w word = some u ∧ trimWords words u = some y := by
  simp [trimWords, List.foldlM_cons, Option.bind_eq_some_iff]

theorem map_type_eq_some {y : WStr} {o : Option WStr} {t t' : IntervalType} :
    o.map (t', ·) = some (t, y) ↔ t = t' ∧ o = some y := by
  simp [Option.map_eq_some_iff, Prod.ext_iff, eq_comm, and_comm]

/-- A qualifier of one word that a delimiter has to be before, or of three. -/
theorem one_or_three {t t₁ : IntervalType} {w y word : WStr}
    {k : WStr → Option (IntervalType × WStr)} {K : Prop}
    (hone : qualifier t₁ = [word]) (hneeds : needsDelim t₁ = true)
    (hk : ∀ u, k u = some (t, y) → endsInDelim u = false)
    (hK : (∃ u, trimIfEndsWith w word = some u ∧ k u = some (t, y)) ↔ K) :
    ((trimIfEndsWith w word).bind fun u ↦ if endsInDelim u then some (t₁, u) else k u) =
        some (t, y) ↔
      t = t₁ ∧ Qualified t w y ∨ K := by
  rw [Option.bind_eq_some_iff, ← hK]
  constructor
  · rintro ⟨u, hu, h⟩
    split at h
    · next hdelim =>
      obtain ⟨rfl, rfl⟩ := Prod.mk.inj (Option.some.inj h)
      exact .inl ⟨rfl, hone ▸ trimWords_one.mpr hu, fun _ ↦ hdelim⟩
    · exact .inr ⟨u, hu, h⟩
  · rintro (⟨rfl, htrim, hdelim⟩ | ⟨u, hu, h⟩)
    · rw [hone] at htrim
      exact ⟨y, trimWords_one.mp htrim, if_pos (hdelim hneeds)⟩
    · exact ⟨u, hu, by rwa [hk u h]⟩

theorem qualified_one {t : IntervalType} {w y word : WStr} (hq : qualifier t = [word])
    (hneeds : needsDelim t = false) : Qualified t w y ↔ trimIfEndsWith w word = some y := by
  rw [Qualified, hq, trimWords_one, hneeds]
  simp

theorem qualified_three {t : IntervalType} {w y word word' word'' : WStr}
    (hq : qualifier t = [word, word', word'']) (hneeds : needsDelim t = false) :
    Qualified t w y ↔ ∃ u, trimIfEndsWith w word = some u ∧ ∃ u', trimIfEndsWith u word' = some u' ∧
      trimIfEndsWith u' word'' = some y := by
  have hone (u : WStr) : trimWords [word''] u = some y ↔ trimIfEndsWith u word'' = some y :=
    trimWords_one
  rw [Qualified, hq, hneeds, trimWords_cons, and_iff_left nofun]
  refine exists_congr fun u ↦ and_congr_right fun _ ↦ ?_
  rw [trimWords_cons]
  exact exists_congr fun u' ↦ and_congr_right fun _ ↦ hone u'

/-- The words before `TO`. -/
theorem bind_to_eq_some {t t₃ : IntervalType} {w y word word'' : WStr}
    (hq : qualifier t₃ = [word, wordTo, word'']) (hneeds : needsDelim t₃ = false) :
    (∃ u, trimIfEndsWith w word = some u ∧
      ((trimIfEndsWith u wordTo).bind fun u ↦ (trimIfEndsWith u word'').map (t₃, ·)) =
        some (t, y)) ↔ t = t₃ ∧ Qualified t w y := by
  simp only [Option.bind_eq_some_iff, map_type_eq_some]
  constructor
  · rintro ⟨u, hu, u', hu', rfl, h⟩
    exact ⟨rfl, (qualified_three hq hneeds).mpr ⟨u, hu, u', hu', h⟩⟩
  · rintro ⟨rfl, h⟩
    obtain ⟨u, hu, u', hu', h⟩ := (qualified_three hq hneeds).mp h
    exact ⟨u, hu, u', hu', rfl, h⟩

/-- What follows `TO` from the end is not a delimiter. -/
theorem not_delim_of_to {β : Type} {u : WStr} {k : WStr → Option β} {b : β}
    (h : (trimIfEndsWith u wordTo).bind k = some b) : endsInDelim u = false := by
  obtain ⟨u', hu', -⟩ := Option.bind_eq_some_iff.mp h
  exact not_endsInDelim_of_trim hu' (x := 0x6F) rfl (by decide)

theorem parseTypeMonth_eq_some {t : IntervalType} {w y : WStr} :
    parseTypeMonth w = some (t, y) ↔ (t = .month ∨ t = .yearToMonth) ∧ Qualified t w y := by
  rw [parseTypeMonth, one_or_three rfl rfl (fun u h ↦ not_delim_of_to h) (bind_to_eq_some rfl rfl)]
  tauto

theorem parseTypeHour_eq_some {t : IntervalType} {w y : WStr} :
    parseTypeHour w = some (t, y) ↔
      (t = .year ∨ t = .hour ∨ t = .dayToHour) ∧ Qualified t w y := by
  have hyear {u : WStr} (h : trimIfEndsWith w wordYear = some u) (c : UInt16) :=
    isFromEnd_of_trim h (k := 1) (x := 0x61) rfl (by decide) c
  have hhour {u : WStr} (h : trimIfEndsWith w wordHour = some u) (c : UInt16) :=
    isFromEnd_of_trim h (k := 1) (x := 0x75) rfl (by decide) c
  have hcase : ((trimIfEndsWith w wordHour).bind fun w ↦
      if endsInDelim w then some (.hour, w)
      else (trimIfEndsWith w wordTo).bind fun w ↦ (trimIfEndsWith w wordDay).map (.dayToHour, ·)) =
        some (t, y) ↔ (t = .hour ∨ t = .dayToHour) ∧ Qualified t w y := by
    rw [one_or_three rfl rfl (fun u h ↦ not_delim_of_to h) (bind_to_eq_some rfl rfl)]
    tauto
  have hword : t = .hour ∨ t = .dayToHour → Qualified t w y →
      ∃ u, trimIfEndsWith w wordHour = some u := by
    rintro (rfl | rfl) ⟨h, -⟩
    · exact ⟨y, trimWords_one.mp h⟩
    · obtain ⟨u, hu, -⟩ := trimWords_cons.mp h
      exact ⟨u, hu⟩
  rw [parseTypeHour]
  constructor
  · intro h
    split at h
    · obtain ⟨rfl, htrim⟩ := map_type_eq_some.mp h
      exact ⟨.inl rfl, (qualified_one rfl rfl).mpr htrim⟩
    · split at h
      · obtain ⟨ht, h⟩ := hcase.mp h
        exact ⟨.inr ht, h⟩
      · cases h
  · rintro ⟨rfl | ht, h⟩
    · have h := (qualified_one rfl rfl).mp h
      rw [hyear h, if_pos (by decide), map_type_eq_some]
      exact ⟨rfl, h⟩
    · obtain ⟨u, hu⟩ := hword ht h
      rw [hhour hu, hhour hu, if_neg (by decide), if_pos (by decide)]
      exact hcase.mpr ⟨ht, h⟩

theorem parseTypeMinute_eq_some {t : IntervalType} {w y : WStr} :
    parseTypeMinute w = some (t, y) ↔
      (t = .minute ∨ t = .dayToMinute ∨ t = .hourToMinute) ∧ Qualified t w y ∨
        MonthToMinute t w y := by
  rw [parseTypeMinute, one_or_three rfl rfl (fun u h ↦ not_delim_of_to h)
    (K := (t = .dayToMinute ∨ t = .hourToMinute) ∧ Qualified t w y ∨ MonthToMinute t w y)]
  · tauto
  simp only [Option.bind_eq_some_iff]
  constructor
  · rintro ⟨u, hu, u', hu', h⟩
    split at h
    · obtain ⟨rfl, htrim⟩ := map_type_eq_some.mp h
      exact .inl ⟨.inl rfl, (qualified_three rfl rfl).mpr ⟨u, hu, u', hu', htrim⟩⟩
    · split at h
      · obtain ⟨rfl, htrim⟩ := map_type_eq_some.mp h
        exact .inl ⟨.inr rfl, (qualified_three rfl rfl).mpr ⟨u, hu, u', hu', htrim⟩⟩
      · -- the fall through
        obtain ⟨ht, htrim, hdelim⟩ := parseTypeMonth_eq_some.mp h
        exact .inr ⟨ht, trimWords_cons.mpr ⟨u, hu, trimWords_cons.mpr ⟨u', hu', htrim⟩⟩, hdelim⟩
  · rintro (⟨rfl | rfl, h⟩ | ⟨ht, h, hdelim⟩)
    · obtain ⟨u, hu, u', hu', h⟩ := (qualified_three rfl rfl).mp h
      refine ⟨u, hu, u', hu', ?_⟩
      rw [isFromEnd_of_trim h (x := 0x79) rfl (by decide), if_pos (by decide), h]
      rfl
    · obtain ⟨u, hu, u', hu', h⟩ := (qualified_three rfl rfl).mp h
      have hr := isFromEnd_of_trim h (k := 0) (x := 0x72) rfl (by decide)
      refine ⟨u, hu, u', hu', ?_⟩
      rw [hr, hr, if_neg (by decide), if_pos (by decide), h]
      rfl
    · obtain ⟨u, hu, h⟩ := trimWords_cons.mp h
      obtain ⟨u', hu', h⟩ := trimWords_cons.mp h
      obtain ⟨v, hv⟩ : ∃ v, trimIfEndsWith u' wordMonth = some v := by
        rcases ht with rfl | rfl
        · exact ⟨y, trimWords_one.mp h⟩
        · obtain ⟨v, hv, -⟩ := trimWords_cons.mp h
          exact ⟨v, hv⟩
      have hh := isFromEnd_of_trim hv (k := 0) (x := 0x68) rfl (by decide)
      refine ⟨u, hu, u', hu', ?_⟩
      rw [hh, hh, if_neg (by decide), if_neg (by decide)]
      exact parseTypeMonth_eq_some.mpr ⟨ht, h, hdelim⟩

theorem parseTypeSecond_eq_some {t : IntervalType} {w y : WStr} :
    parseTypeSecond w = some (t, y) ↔
      (t = .second ∨ t = .dayToSecond ∨ t = .hourToSecond ∨ t = .minuteToSecond) ∧
        Qualified t w y := by
  rw [parseTypeSecond, one_or_three rfl rfl (fun u h ↦ not_delim_of_to h)
    (K := (t = .dayToSecond ∨ t = .hourToSecond ∨ t = .minuteToSecond) ∧ Qualified t w y)]
  · tauto
  simp only [Option.bind_eq_some_iff]
  constructor
  · rintro ⟨u, hu, u', hu', h⟩
    split at h
    · obtain ⟨rfl, htrim⟩ := map_type_eq_some.mp h
      exact ⟨.inl rfl, (qualified_three rfl rfl).mpr ⟨u, hu, u', hu', htrim⟩⟩
    · split at h
      · obtain ⟨rfl, htrim⟩ := map_type_eq_some.mp h
        exact ⟨.inr (.inl rfl), (qualified_three rfl rfl).mpr ⟨u, hu, u', hu', htrim⟩⟩
      · split at h
        · obtain ⟨rfl, htrim⟩ := map_type_eq_some.mp h
          exact ⟨.inr (.inr rfl), (qualified_three rfl rfl).mpr ⟨u, hu, u', hu', htrim⟩⟩
        · cases h
  · rintro ⟨rfl | rfl | rfl, h⟩
    · obtain ⟨u, hu, u', hu', h⟩ := (qualified_three rfl rfl).mp h
      refine ⟨u, hu, u', hu', ?_⟩
      rw [isFromEnd_of_trim h (x := 0x79) rfl (by decide), if_pos (by decide), h]
      rfl
    · obtain ⟨u, hu, u', hu', h⟩ := (qualified_three rfl rfl).mp h
      have hr := isFromEnd_of_trim h (k := 0) (x := 0x72) rfl (by decide)
      refine ⟨u, hu, u', hu', ?_⟩
      rw [hr, hr, if_neg (by decide), if_pos (by decide), h]
      rfl
    · obtain ⟨u, hu, u', hu', h⟩ := (qualified_three rfl rfl).mp h
      have he := isFromEnd_of_trim h (k := 0) (x := 0x65) rfl (by decide)
      refine ⟨u, hu, u', hu', ?_⟩
      rw [he, he, he, if_neg (by decide), if_neg (by decide), if_pos (by decide), h]
      rfl

/-- The last letter of a qualifier. -/
def lastLetter : IntervalType → UInt16
  | .day => 0x79
  | .year | .hour | .dayToHour => 0x72
  | .minute | .dayToMinute | .hourToMinute => 0x65
  | .month | .yearToMonth => 0x68
  | .second | .dayToSecond | .hourToSecond | .minuteToSecond => 0x64

/-- A qualified text ends in its last word. -/
theorem Qualified.trim {t : IntervalType} {w y : WStr} (h : Qualified t w y) :
    ∃ word u, trimIfEndsWith w word = some u ∧ 3 ≤ word.length ∧
      word.reverse[0]? = some (lastLetter t) := by
  have hlast {word : WStr} {words : List WStr} (h : trimWords (word :: words) w = some y) :
      ∃ u, trimIfEndsWith w word = some u := by
    obtain ⟨u, hu, -⟩ := trimWords_cons.mp h
    exact ⟨u, hu⟩
  cases t
  all_goals
    obtain ⟨u, hu⟩ := hlast h.1
    exact ⟨_, u, hu, by decide, rfl⟩

theorem isLower_lastLetter (t : IntervalType) : IsLower (lastLetter t) := by cases t <;> decide

/-- What `parse_interval_type` accepts. -/
theorem parseIntervalType_eq_some {t : IntervalType} {w y : WStr} :
    parseIntervalType w = some (t, y) ↔ Qualified t w y ∨ MonthToMinute t w y := by
  constructor
  · intro h
    rw [parseIntervalType] at h
    split at h
    · cases h
    split at h
    · obtain ⟨rfl, htrim⟩ := map_type_eq_some.mp h
      exact .inl ((qualified_one rfl rfl).mpr htrim)
    split at h
    · exact .inl (parseTypeHour_eq_some.mp h).2
    split at h
    · exact (parseTypeMinute_eq_some.mp h).imp_left And.right
    split at h
    · exact .inl (parseTypeMonth_eq_some.mp h).2
    split at h
    · exact .inl (parseTypeSecond_eq_some.mp h).2
    · cases h
  · rintro (h | h)
    · obtain ⟨word, u, hu, hword, hletter⟩ := h.trim
      have hlen : ¬w.length ≤ 3 := not_le.mpr (hword.trans_lt (length_of_trim hu))
      have hl := isFromEnd_of_trim hu hletter (isLower_lastLetter t)
      rw [parseIntervalType, if_neg hlen, hl, hl, hl, hl, hl]
      cases t with
      | day =>
        rw [if_pos (by decide), map_type_eq_some]
        exact ⟨rfl, (qualified_one rfl rfl).mp h⟩
      | year | hour | dayToHour =>
        rw [if_neg (by decide), if_pos (by decide)]
        exact parseTypeHour_eq_some.mpr ⟨by simp, h⟩
      | minute | dayToMinute | hourToMinute =>
        rw [if_neg (by decide), if_neg (by decide), if_pos (by decide)]
        exact parseTypeMinute_eq_some.mpr (.inl ⟨by simp, h⟩)
      | month | yearToMonth =>
        rw [if_neg (by decide), if_neg (by decide), if_neg (by decide), if_pos (by decide)]
        exact parseTypeMonth_eq_some.mpr ⟨by simp, h⟩
      | second | dayToSecond | hourToSecond | minuteToSecond =>
        rw [if_neg (by decide), if_neg (by decide), if_neg (by decide), if_neg (by decide),
          if_pos (by decide)]
        exact parseTypeSecond_eq_some.mpr ⟨by simp, h⟩
    · obtain ⟨u, hu, -⟩ := trimWords_cons.mp h.2.1
      have hlen : ¬w.length ≤ 3 :=
        not_le.mpr ((by decide : 3 ≤ wordMinute.length).trans_lt (length_of_trim hu))
      have hl := isFromEnd_of_trim hu (k := 0) (x := 0x65) rfl (by decide)
      rw [parseIntervalType, if_neg hlen, hl, hl, hl, if_neg (by decide), if_neg (by decide),
        if_pos (by decide)]
      exact parseTypeMinute_eq_some.mpr (.inr h)

end EsOdbc
