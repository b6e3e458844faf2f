import EsOdbc.Ujson

/-!
# Blanks

`isspace`, and the functions of `util.c` that trim a text.
-/

namespace EsOdbc

/-- `isspace` and `iswspace`. -/
def isSpace (wide : Bool) (c : UInt16) : Bool :=
  c = 0x20 || (9 ≤ c && c ≤ 13) || (wide && (c = 0x85 || c = 0xA0 || c = 0x1680 ||
    (0x2000 ≤ c && c ≤ 0x200A) || c = 0x2028 || c = 0x2029 || c = 0x202F || c = 0x205F ||
    c = 0x3000))

/-- `wltrim_ws`. -/
def wltrimWs (w : WStr) : WStr := w.dropWhile (isSpace true)

/-- `wrtrim_ws`. -/
def wrtrimWs (w : WStr) : WStr := w.rdropWhile (isSpace true)

/-- `trim_ws`, `wtrim_ws`: the blanks before a text are counted, those behind it dropped. -/
def trimWs (wide : Bool) (w : WStr) : ℕ × WStr :=
  ((w.takeWhile (isSpace wide)).length, (w.dropWhile (isSpace wide)).rdropWhile (isSpace wide))

/-- A text of blanks. -/
def Blank (w : WStr) : Prop := ∀ c ∈ w, isSpace true c = true

theorem blank_nil : Blank [] := List.forall_mem_nil _

theorem blank_cons {c : UInt16} {w : WStr} : Blank (c :: w) ↔ isSpace true c = true ∧ Blank w :=
  List.forall_mem_cons

theorem wltrimWs_blank {s : WStr} (hs : Blank s) (w : WStr) : wltrimWs (s ++ w) = wltrimWs w := by
  induction s with
  | nil => rfl
  | cons c s ih =>
    obtain ⟨hc, hs⟩ := blank_cons.mp hs
    rw [List.cons_append, wltrimWs, List.dropWhile_cons_of_pos hc]
    exact ih hs

theorem wltrimWs_cons {c : UInt16} (hc : isSpace true c = false) (w : WStr) :
    wltrimWs (c :: w) = c :: w :=
  List.dropWhile_cons_of_neg (by simp [hc])

/-- What is trimmed from the left are the blanks there. -/
theorem wltrimWs_eq (w : WStr) : ∃ s, Blank s ∧ w = s ++ wltrimWs w := by
  refine ⟨w.takeWhile (isSpace true), ?_, (List.takeWhile_append_dropWhile).symm⟩
  intro c hc
  exact List.mem_takeWhile_imp hc

theorem wltrimWs_head {w : WStr} : ∀ c ∈ (wltrimWs w).head?, isSpace true c = false := by
  induction w with
  | nil => exact fun c hc ↦ by simp [wltrimWs] at hc
  | cons c w ih =>
    by_cases hc : isSpace true c = true
    · rwa [wltrimWs, List.dropWhile_cons_of_pos hc]
    · rw [Bool.not_eq_true] at hc
      rw [wltrimWs_cons hc]
      intro d hd
      rw [List.head?_cons, Option.mem_some_iff] at hd
      exact hd ▸ hc

/-- A trimmed text is the one behind some blanks. -/
theorem wltrimWs_eq_iff {u w : WStr} :
    wltrimWs w = u ↔ (∀ c ∈ u.head?, isSpace true c = false) ∧ ∃ b, Blank b ∧ w = b ++ u := by
  constructor
  · rintro rfl
    exact ⟨wltrimWs_head, wltrimWs_eq w⟩
  · rintro ⟨hu, b, hb, rfl⟩
    rw [wltrimWs_blank hb]
    cases u with
    | nil => rfl
    | cons c u => exact wltrimWs_cons (hu c rfl) u

theorem wltrimWs_eq_cons {c : UInt16} {u w : WStr} :
    wltrimWs w = c :: u ↔ isSpace true c = false ∧ ∃ s, Blank s ∧ w = s ++ c :: u := by
  rw [wltrimWs_eq_iff]
  simp

theorem wltrimWs_eq_nil {w : WStr} : wltrimWs w = [] ↔ Blank w := by
  rw [wltrimWs, List.dropWhile_eq_nil_iff]
  rfl

theorem blank_reverse {w : WStr} : Blank w.reverse ↔ Blank w := by simp [Blank]

theorem wrtrimWs_reverse (w : WStr) : wrtrimWs w = (wltrimWs w.reverse).reverse := rfl

/-- Trimming from the right leaves a text without its last blanks. -/
theorem wrtrimWs_eq_iff {u w : WStr} :
    wrtrimWs w = u ↔
      (∀ c ∈ u.getLast?, isSpace true c = false) ∧ ∃ b, Blank b ∧ w = u ++ b := by
  constructor
  · rintro rfl
    rw [wrtrimWs_reverse]
    obtain ⟨s, hs, hw⟩ := wltrimWs_eq w.reverse
    refine ⟨?_, s.reverse, blank_reverse.mpr hs, ?_⟩
    · rw [List.getLast?_reverse]
      exact wltrimWs_head
    · rw [← List.reverse_append, ← hw, List.reverse_reverse]
  · rintro ⟨hu, b, hb, rfl⟩
    rw [wrtrimWs_reverse, List.reverse_append, wltrimWs_blank (blank_reverse.mpr hb)]
    rw [← List.head?_reverse] at hu
    cases hr : u.reverse with
    | nil => rw [List.reverse_eq_nil_iff.mp hr]; rfl
    | cons c r =>
      rw [wltrimWs_cons (hu c (by rw [hr]; rfl)), ← hr, List.reverse_reverse]

end EsOdbc
