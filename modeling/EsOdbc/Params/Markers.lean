import EsOdbc.Error
import EsOdbc.Tinycbor

/-!
# Parameter markers

`count_param_markers` of `queries.c`, and the lexical rules that it counts by.
-/

namespace EsOdbc

/-! ## The source -/

/-- `utf8_to_wstr`. -/
def utf8ToWstr (src : CStr) : Option WStr := if src = [] then some [] else u8mbToU16wc src

/-- A number in a `SQLSMALLINT`. -/
def toShort (n : ℤ) : ℤ := n.bmod (2 ^ 16)

/-- The loop of `count_param_markers`: `quoting` is the quote that is open. -/
def countLoop (quoting : Option UInt16) (escaping : Bool) (cnt : ℤ) : WStr → Option ℤ
  | [] => if escaping || quoting.isSome then none else some cnt
  | crr :: pos =>
    if crr = 0x3F then
      if escaping || quoting.isSome then countLoop quoting false cnt pos
      else
        -- groups are skipped
        let rest := pos.dropWhile (· = crr)
        countLoop none false (if rest.length = pos.length then toShort (cnt + 1) else cnt) rest
    else if crr = 0x22 ∨ crr = 0x27 then
      if escaping then countLoop quoting false cnt pos
      else if quoting.isNone then countLoop (some crr) false cnt pos
      else if quoting = some crr then countLoop none false cnt pos
      else countLoop quoting false cnt pos
    else if crr = 0x5C then countLoop quoting (!escaping) cnt pos
    else countLoop quoting false cnt pos
termination_by w => w.length
decreasing_by
  all_goals simp only [List.length_cons]
  all_goals first
    | exact Nat.lt_succ_of_le (List.dropWhile_suffix _).length_le
    | omega

/-- `count_param_markers`, on the text of a statement. -/
def countParamMarkers (u8sql : CStr) : Except SqlState ℤ :=
  match utf8ToWstr u8sql with
  | none => .error .sHY000
  | some u16sql => (countLoop none false 0 u16sql).elim (.error .sHY000) .ok

/-! ## The lexical rules -/

/-- What a quote may hold. -/
inductive QuotedPiece where
  | escaped (c : UInt16)
  | plain (c : UInt16)
deriving DecidableEq, Repr

namespace QuotedPiece

def text : QuotedPiece → WStr
  | escaped c => [0x5C, c]
  | plain c => [c]

/-- Only an unescaped quote of the same kind closes. -/
def Within (q : UInt16) : QuotedPiece → Prop
  | escaped _ => True
  | plain c => c ≠ q ∧ c ≠ 0x5C

end QuotedPiece

/-- A text of SQL is made of escapes, quotes, runs of question marks and other characters. -/
inductive SqlPiece where
  | escaped (c : UInt16)
  | quoted (q : UInt16) (body : List QuotedPiece)
  | marks (n : ℕ)
  | other (c : UInt16)
deriving DecidableEq, Repr

namespace SqlPiece

def text : SqlPiece → WStr
  | escaped c => [0x5C, c]
  | quoted q body => q :: (body.flatMap QuotedPiece.text ++ [q])
  | marks n => List.replicate n 0x3F
  | other c => [c]

def IsQuote (q : UInt16) : Prop := q = 0x22 ∨ q = 0x27

/-- A piece that is one. -/
def Lexical : SqlPiece → Prop
  | escaped _ => True
  | quoted q body => IsQuote q ∧ ∀ p ∈ body, p.Within q
  | marks n => 1 ≤ n
  | other c => c ≠ 0x3F ∧ ¬IsQuote c ∧ c ≠ 0x5C

def IsMarks : SqlPiece → Prop
  | marks _ => True
  | _ => False

end SqlPiece

/-- A text in its pieces: a run of marks ends where no mark follows. -/
structure Lexed (ps : List SqlPiece) : Prop where
  lexical : ∀ p ∈ ps, p.Lexical
  runs : ps.IsChain fun p p' ↦ ¬(p.IsMarks ∧ p'.IsMarks)

/-- The text of a sequence of pieces. -/
def sqlText (ps : List SqlPiece) : WStr := ps.flatMap SqlPiece.text

/-- The markers: runs of one. -/
def markers (ps : List SqlPiece) : ℕ := ps.count (.marks 1)

/-- The end of a text that is in a quote or behind an escape. -/
def Unfinished (w : WStr) : Prop :=
  w = [0x5C] ∨ ∃ (q : UInt16) (body : List QuotedPiece), SqlPiece.IsQuote q ∧ (∀ p ∈ body, QuotedPiece.Within q p) ∧
    (w = q :: body.flatMap QuotedPiece.text ∨ w = q :: (body.flatMap QuotedPiece.text ++ [0x5C]))

/-! ## One piece -/

namespace SqlPiece

theorem IsQuote.ne {q : UInt16} (h : IsQuote q) : q ≠ 0x3F ∧ q ≠ 0x5C := by
  rcases h with rfl | rfl
  · decide
  · decide

end SqlPiece

open SqlPiece (IsQuote)

variable {q : UInt16} {n : ℤ}

theorem countLoop_escape (o : Option UInt16) (c : UInt16) (w : WStr) :
    countLoop o false n (0x5C :: c :: w) = countLoop o false n w := by
  have hfirst : countLoop o false n (0x5C :: c :: w) = countLoop o true n (c :: w) := by
    rw [countLoop]
    simp
  rw [hfirst, countLoop]
  by_cases hm : c = 0x3F
  · simp [hm]
  by_cases hq : c = 0x22 ∨ c = 0x27
  · simp [hm, hq]
  by_cases he : c = 0x5C
  · simp [he]
  · simp [hm, hq, he]

theorem countLoop_open (hq : IsQuote q) (w : WStr) :
    countLoop none false n (q :: w) = countLoop (some q) false n w := by
  have hor : q = 0x22 ∨ q = 0x27 := hq
  rw [countLoop]
  simp [hq.ne.1, hor]

theorem countLoop_close (hq : IsQuote q) (w : WStr) :
    countLoop (some q) false n (q :: w) = countLoop none false n w := by
  have hor : q = 0x22 ∨ q = 0x27 := hq
  rw [countLoop]
  simp [hq.ne.1, hor]

theorem countLoop_plain {c : UInt16} (hc : c ≠ q ∧ c ≠ 0x5C) (w : WStr) :
    countLoop (some q) false n (c :: w) = countLoop (some q) false n w := by
  rw [countLoop]
  simp [hc.2, hc.1.symm]

theorem countLoop_other {c : UInt16} (hc : (SqlPiece.other c).Lexical) (w : WStr) :
    countLoop none false n (c :: w) = countLoop none false n w := by
  obtain ⟨hm, hq, he⟩ := hc
  have hor : ¬(c = 0x22 ∨ c = 0x27) := hq
  rw [countLoop]
  simp [hm, hor, he]

theorem countLoop_marks {k : ℕ} (hk : 1 ≤ k) {w : WStr} (hw : ∀ c ∈ w.head?, c ≠ 0x3F) :
    countLoop none false n (List.replicate k 0x3F ++ w) =
      countLoop none false (if k = 1 then toShort (n + 1) else n) w := by
  obtain ⟨m, rfl⟩ := Nat.exists_eq_add_of_le' hk
  have hdrop : (List.replicate m 0x3F ++ w).dropWhile (· = 0x3F) = w := by
    rw [List.dropWhile_append_of_pos (by simp)]
    cases w with
    | nil => rfl
    | cons c w => exact List.dropWhile_cons_of_neg (by simpa using hw c rfl)
  have hlen : w.length = (List.replicate m (0x3F : UInt16) ++ w).length ↔ m + 1 = 1 := by
    simp
  rw [List.replicate_succ, List.cons_append, countLoop]
  simp only [if_true, Bool.false_or, Option.isSome_none, Bool.false_eq_true, if_false, hdrop, hlen]

theorem countLoop_body {body : List QuotedPiece} (hbody : ∀ p ∈ body, p.Within q) (w : WStr) :
    countLoop (some q) false n (body.flatMap QuotedPiece.text ++ w) = countLoop (some q) false n w := by
  induction body with
  | nil => rfl
  | cons p body ih =>
    rw [List.forall_mem_cons] at hbody
    rw [List.flatMap_cons, List.append_assoc]
    cases p with
    | escaped c => exact (countLoop_escape _ c _).trans (ih hbody.2)
    | plain c => exact (countLoop_plain hbody.1 _).trans (ih hbody.2)

/-! ## A whole text -/

/-- A number of markers is counted. -/
def countOn (k : ℕ) (n : ℤ) : ℤ := (fun m ↦ toShort (m + 1))^[k] n

theorem countOn_eq {k : ℕ} (hk : k ≤ 32767) : countOn k 0 = k := by
  induction k with
  | zero => rfl
  | succ k ih =>
    rw [countOn, Function.iterate_succ_apply', ← countOn, ih (by omega), toShort, Int.bmod]
    omega

theorem Lexed.tail {p : SqlPiece} {ps : List SqlPiece} (h : Lexed (p :: ps)) : Lexed ps :=
  ⟨fun p' hp ↦ h.lexical p' (List.mem_cons_of_mem _ hp), h.runs.tail⟩

theorem SqlPiece.text_head {p : SqlPiece} (hp : p.Lexical) (w : WStr) :
    ∃ c, (p.text ++ w).head? = some c ∧ (c = 0x3F ↔ p.IsMarks) := by
  cases p with
  | escaped c => exact ⟨0x5C, rfl, by simp [IsMarks]⟩
  | quoted q body => exact ⟨q, rfl, by simp [IsMarks, hp.1.ne.1]⟩
  | marks n =>
    obtain ⟨m, rfl⟩ := Nat.exists_eq_add_of_le' (show 1 ≤ n from hp)
    exact ⟨0x3F, rfl, by simp [IsMarks]⟩
  | other c => exact ⟨c, rfl, by simp [IsMarks, hp.1]⟩

/-- Behind a run of marks comes no mark. -/
theorem Lexed.head_ne {k : ℕ} {ps : List SqlPiece} (h : Lexed (.marks k :: ps)) {w : WStr}
    (hw : ∀ c ∈ w.head?, c ≠ 0x3F) : ∀ c ∈ (sqlText ps ++ w).head?, c ≠ 0x3F := by
  cases ps with
  | nil => exact hw
  | cons p ps =>
    obtain ⟨c, hc, hmark⟩ := SqlPiece.text_head (h.lexical p (by simp)) (sqlText ps ++ w)
    have hnot : ¬p.IsMarks := fun hp ↦ (List.isChain_cons_cons.mp h.runs).1 ⟨trivial, hp⟩
    intro c' hc'
    rw [sqlText, List.flatMap_cons, List.append_assoc, ← sqlText, hc, Option.mem_some_iff] at hc'
    exact hc' ▸ fun h3F ↦ hnot (hmark.mp h3F)

/-- The loop runs over the pieces of a text. -/
theorem countLoop_sqlText {ps : List SqlPiece} (h : Lexed ps) {w : WStr}
    (hw : ∀ c ∈ w.head?, c ≠ 0x3F) :
    countLoop none false n (sqlText ps ++ w) = countLoop none false (countOn (markers ps) n) w := by
  induction ps generalizing n with
  | nil => rfl
  | cons p ps ih =>
    have hp := h.lexical p (by simp)
    rw [sqlText, List.flatMap_cons, List.append_assoc, ← sqlText]
    cases p with
    | escaped c =>
      rw [markers, List.count_cons_of_ne (by simp), ← markers, ← ih h.tail]
      exact countLoop_escape none c _
    | quoted q body =>
      rw [markers, List.count_cons_of_ne (by simp), ← markers, ← ih h.tail]
      show countLoop none false n (q :: ((body.flatMap QuotedPiece.text ++ [q]) ++ _)) = _
      rw [countLoop_open hp.1, List.append_assoc, countLoop_body hp.2]
      exact countLoop_close hp.1 _
    | marks k =>
      rw [SqlPiece.text, countLoop_marks hp (h.head_ne hw), ih h.tail]
      by_cases hk : k = 1
      · subst hk
        have hcount : markers (.marks 1 :: ps) = markers ps + 1 := List.count_cons_self
        rw [if_pos rfl, hcount, countOn, countOn, Function.iterate_succ_apply]
      · rw [if_neg hk, markers, markers, List.count_cons_of_ne (by simpa using hk)]
    | other c =>
      rw [markers, List.count_cons_of_ne (by simp), ← markers, ← ih h.tail]
      exact countLoop_other hp _

theorem countLoop_unfinished {w : WStr} (h : Unfinished w) : countLoop none false n w = none := by
  have hescape (o : Option UInt16) : countLoop o false n [0x5C] = none := by
    rw [countLoop]
    simp [countLoop]
  rcases h with rfl | ⟨q, body, hq, hbody, rfl | rfl⟩
  · exact hescape none
  · rw [countLoop_open hq, ← List.append_nil (body.flatMap _), countLoop_body hbody, countLoop]
    rfl
  · rw [countLoop_open hq, countLoop_body hbody]
    exact hescape (some q)

theorem Unfinished.head_ne {w : WStr} (h : Unfinished w) : ∀ c ∈ w.head?, c ≠ 0x3F := by
  rcases h with rfl | ⟨q, body, hq, -, rfl | rfl⟩
  · simp
  · simpa using hq.ne.1
  · simpa using hq.ne.1

/-- A quote closes or goes on to the end of the text. -/
theorem exists_body (q : UInt16) (w : WStr) :
    (∃ (body : List QuotedPiece) (rest : WStr), (∀ p ∈ body, p.Within q) ∧
      w = body.flatMap QuotedPiece.text ++ q :: rest) ∨
    ∃ body : List QuotedPiece, (∀ p ∈ body, p.Within q) ∧
      (w = body.flatMap QuotedPiece.text ∨ w = body.flatMap QuotedPiece.text ++ [0x5C]) := by
  -- a piece in front of a text that closes or goes on
  have cons {p : QuotedPiece} (hp : p.Within q) {v : WStr}
      (h : (∃ (body : List QuotedPiece) (rest : WStr), (∀ p ∈ body, p.Within q) ∧
          v = body.flatMap QuotedPiece.text ++ q :: rest) ∨
        ∃ body : List QuotedPiece, (∀ p ∈ body, p.Within q) ∧
          (v = body.flatMap QuotedPiece.text ∨ v = body.flatMap QuotedPiece.text ++ [0x5C])) :
      (∃ (body : List QuotedPiece) (rest : WStr), (∀ p ∈ body, p.Within q) ∧
          p.text ++ v = body.flatMap QuotedPiece.text ++ q :: rest) ∨
        ∃ body : List QuotedPiece, (∀ p ∈ body, p.Within q) ∧
          (p.text ++ v = body.flatMap QuotedPiece.text ∨
            p.text ++ v = body.flatMap QuotedPiece.text ++ [0x5C]) := by
    rcases h with ⟨body, rest, hbody, rfl⟩ | ⟨body, hbody, hv⟩
    · exact .inl ⟨p :: body, rest, List.forall_mem_cons.mpr ⟨hp, hbody⟩, by simp⟩
    · refine .inr ⟨p :: body, List.forall_mem_cons.mpr ⟨hp, hbody⟩, ?_⟩
      rcases hv with rfl | rfl
      · exact .inl rfl
      · exact .inr (by simp)
  induction w using List.twoStepInduction with
  | nil => exact .inr ⟨[], by simp, .inl rfl⟩
  | singleton c =>
    by_cases hq : c = q
    · exact .inl ⟨[], [], by simp, by rw [hq]; rfl⟩
    by_cases he : c = 0x5C
    · exact .inr ⟨[], by simp, .inr (by rw [he]; rfl)⟩
    · exact .inr ⟨[.plain c], by simpa [QuotedPiece.Within] using ⟨hq, he⟩, .inl rfl⟩
  | cons_cons c c' w ih ih' =>
    by_cases hq : c = q
    · exact .inl ⟨[], c' :: w, by simp, by rw [hq]; rfl⟩
    by_cases he : c = 0x5C
    · subst he
      exact cons (p := .escaped c') trivial ih
    · exact cons (p := .plain c) ⟨hq, he⟩ (ih' c')

/-- A text is marks up to another unit. -/
theorem exists_marks (w : WStr) : ∃ (k : ℕ) (rest : WStr),
    w = List.replicate k 0x3F ++ rest ∧ ∀ c ∈ rest.head?, c ≠ 0x3F := by
  induction w with
  | nil => exact ⟨0, [], rfl, by simp⟩
  | cons c w ih =>
    by_cases hc : c = 0x3F
    · obtain ⟨k, rest, rfl, hrest⟩ := ih
      exact ⟨k + 1, rest, by rw [hc]; rfl, hrest⟩
    · exact ⟨0, c :: w, rfl, by simpa using hc⟩

/-- A text is made of pieces, up to its end. -/
theorem exists_pieces (w : WStr) : ∃ (ps : List SqlPiece) (tail : WStr), Lexed ps ∧
    w = sqlText ps ++ tail ∧ (tail = [] ∨ Unfinished tail) := by
  induction hlen : w.length using Nat.strong_induction_on generalizing w with
  | _ len ih =>
    subst hlen
    -- a piece other than a run of marks in front
    have cons {p : SqlPiece} (hp : p.Lexical) (hnot : ¬p.IsMarks) {v : WStr} (hv : v.length < w.length)
        (hw : w = p.text ++ v) : ∃ (ps : List SqlPiece) (tail : WStr), Lexed ps ∧
          w = sqlText ps ++ tail ∧ (tail = [] ∨ Unfinished tail) := by
      obtain ⟨ps, tail, hps, rfl, htail⟩ := ih v.length hv v rfl
      refine ⟨p :: ps, tail, ⟨List.forall_mem_cons.mpr ⟨hp, hps.lexical⟩, ?_⟩, ?_, htail⟩
      · exact List.isChain_cons.mpr ⟨fun _ _ h ↦ hnot h.1, hps.runs⟩
      · rw [hw, sqlText, sqlText, List.flatMap_cons, List.append_assoc]
    rcases w with _ | ⟨c, w⟩
    · exact ⟨[], [], ⟨by simp, .nil⟩, rfl, .inl rfl⟩
    by_cases he : c = 0x5C
    · subst he
      cases w with
      | nil => exact ⟨[], [0x5C], ⟨by simp, .nil⟩, rfl, .inr (.inl rfl)⟩
      | cons c' w => exact cons (p := .escaped c') trivial not_false (by simp) rfl
    by_cases hq : IsQuote c
    · rcases exists_body c w with ⟨body, rest, hbody, rfl⟩ | ⟨body, hbody, hw⟩
      · refine cons (p := .quoted c body) (v := rest) ⟨hq, hbody⟩ not_false ?_ ?_
        · simp only [List.length_cons, List.length_append]
          omega
        · simp [SqlPiece.text]
      · refine ⟨[], c :: w, ⟨by simp, .nil⟩, rfl, .inr (.inr ⟨c, body, hq, hbody, ?_⟩)⟩
        rcases hw with rfl | rfl
        · exact .inl rfl
        · exact .inr rfl
    by_cases hm : c = 0x3F
    · subst hm
      obtain ⟨k, rest, rfl, hrest⟩ := exists_marks w
      obtain ⟨ps, tail, hps, rfl, htail⟩ := ih rest.length (by simp) rest rfl
      refine ⟨.marks (k + 1) :: ps, tail, ⟨?_, ?_⟩, ?_, htail⟩
      · exact List.forall_mem_cons.mpr ⟨Nat.le_add_left 1 k, hps.lexical⟩
      · refine List.isChain_cons.mpr ⟨fun p hp h ↦ ?_, hps.runs⟩
        obtain ⟨ps', rfl⟩ := List.head?_eq_some_iff.mp hp
        obtain ⟨c, hc, hmark⟩ := SqlPiece.text_head (hps.lexical p (by simp)) (sqlText ps' ++ tail)
        rw [sqlText, List.flatMap_cons, List.append_assoc] at hrest
        exact hrest c hc (hmark.mpr h.2)
      · rw [sqlText, sqlText, List.flatMap_cons, List.append_assoc]
        rfl
    · exact cons (p := .other c) ⟨hm, hq, he⟩ not_false (by simp) rfl

theorem utf8ToWstr_utf8 (sql : List Char) : utf8ToWstr (Utf.utf8 sql) = some (Utf.utf16 sql) := by
  cases sql with
  | nil => rfl
  | cons c sql =>
    have hne : Utf.utf8 (c :: sql) ≠ [] := by
      have hpos := Utf.length_utf8EncodeChar_pos c
      rw [Utf.utf8, List.flatMap_cons, ne_eq, List.append_eq_nil_iff, not_and_or]
      exact .inl (List.ne_nil_of_length_pos hpos)
    rw [utf8ToWstr, if_neg hne, u8mbToU16wc, if_neg (by simp), Utf.utf8Decode_utf8]
    rfl

theorem countLoop_complete {ps : List SqlPiece} (h : Lexed ps) (hfew : markers ps ≤ 32767) :
    countLoop none false 0 (sqlText ps) = some (markers ps : ℤ) := by
  have hrun := countLoop_sqlText (n := 0) h (w := []) (by simp)
  rw [List.append_nil] at hrun
  rw [hrun, countOn_eq hfew, countLoop]
  rfl

theorem countLoop_broken {ps : List SqlPiece} (h : Lexed ps) {tail : WStr} (ht : Unfinished tail) :
    countLoop none false n (sqlText ps ++ tail) = none :=
  (countLoop_sqlText h ht.head_ne).trans (countLoop_unfinished ht)

/-- The markers of a text are counted: those of its pieces, unless it ends in a quote or behind
an escape. -/
theorem countParamMarkers_pieces (sql : List Char)
    (hfew : ∀ ps, Lexed ps → sqlText ps = Utf.utf16 sql → markers ps ≤ 32767) :
    (∀ n, countParamMarkers (Utf.utf8 sql) = .ok n ↔
      ∃ ps, Lexed ps ∧ sqlText ps = Utf.utf16 sql ∧ n = markers ps) ∧
    (countParamMarkers (Utf.utf8 sql) = .error .sHY000 ↔
      ∃ ps tail, Lexed ps ∧ Unfinished tail ∧ sqlText ps ++ tail = Utf.utf16 sql) := by
  have hcount : countParamMarkers (Utf.utf8 sql) =
      (countLoop none false 0 (Utf.utf16 sql)).elim (.error .sHY000) .ok := by
    rw [countParamMarkers, utf8ToWstr_utf8]
  rw [hcount]
  obtain ⟨ps, tail, hps, hw, rfl | htail⟩ := exists_pieces (Utf.utf16 sql)
  · rw [List.append_nil] at hw
    have hok := countLoop_complete hps (hfew ps hps hw.symm)
    rw [← hw] at hok
    constructor
    · intro n
      rw [hok, Option.elim_some, Except.ok.injEq]
      constructor
      · rintro rfl
        exact ⟨ps, hps, hw.symm, rfl⟩
      · rintro ⟨ps', hps', hw', rfl⟩
        have hok' := countLoop_complete hps' (hfew ps' hps' hw')
        rw [hw', hok] at hok'
        exact Option.some.inj hok'
    · rw [hok, Option.elim_some]
      refine iff_of_false (by simp) ?_
      rintro ⟨ps', tail, hps', htail, hw'⟩
      have hnone := countLoop_broken (n := 0) hps' htail
      rw [hw', hok] at hnone
      cases hnone
  · have hnone := countLoop_broken (n := 0) hps htail
    rw [← hw] at hnone
    constructor
    · intro n
      rw [hnone, Option.elim_none]
      refine iff_of_false (by simp) ?_
      rintro ⟨ps', hps', hw', -⟩
      have hok := countLoop_complete hps' (hfew ps' hps' hw')
      rw [hw', hnone] at hok
      cases hok
    · rw [hnone, Option.elim_none]
      exact iff_of_true rfl ⟨ps, tail, hps, htail, hw.symm⟩

theorem markers_le (ps : List SqlPiece) : markers ps ≤ (sqlText ps).length := by
  induction ps with
  | nil => exact Nat.zero_le _
  | cons p ps ih =>
    rw [sqlText, List.flatMap_cons, List.length_append, ← sqlText]
    by_cases hp : p = .marks 1
    · rw [hp, markers, List.count_cons_self, ← markers]
      show markers ps + 1 ≤ 1 + (sqlText ps).length
      omega
    · rw [markers, List.count_cons_of_ne hp, ← markers]
      omega

/-- An escaped mark, one behind it, a pair and one in a quote. -/
theorem countParamMarkers_pieces_escaped :
    countParamMarkers (Utf.utf8 "\\?? ?? '?'".toList) = .ok 1 := by
  refine ((countParamMarkers_pieces "\\?? ?? '?'".toList fun ps _ hps ↦ ?_).1 1).mpr ?_
  · refine (markers_le ps).trans ?_
    rw [hps]
    decide +kernel
  · refine ⟨[.escaped 0x3F, .marks 1, .other 0x20, .marks 2, .other 0x20,
      .quoted 0x27 [.plain 0x3F]], ⟨?_, ?_⟩, by decide +kernel, by decide +kernel⟩
    · simp [SqlPiece.Lexical, SqlPiece.IsQuote, QuotedPiece.Within]
    · simp [SqlPiece.IsMarks]

end EsOdbc
