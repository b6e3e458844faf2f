import EsOdbc.Cursor.SerializeCbor

/-!
# The two packings of a request

When the JSON body and the CBOR body of one statement say the same.
-/

namespace EsOdbc

/-! ## Texts that need no escape -/

theorem escapedChar_plain {uchar : UInt8} (h : Json.Plain uchar) : escapedChar uchar = [uchar] := by
  obtain ⟨hlow, hquote, hback⟩ := h
  have hcontrol (b : UInt8) (hb : ¬0x20 ≤ b) : uchar ≠ b := by
    rintro rfl
    exact hb hlow
  rw [escapedChar, if_neg (hcontrol _ (by decide)), if_neg (hcontrol _ (by decide)),
    if_neg (hcontrol _ (by decide)), if_neg (hcontrol _ (by decide)),
    if_neg (hcontrol _ (by decide)), if_neg (not_or.mpr ⟨hquote, hback⟩), if_pos hlow]

theorem plain_of_length {uchar : UInt8} (h : (escapedChar uchar).length = 1) :
    Json.Plain uchar := by
  unfold escapedChar at h
  split_ifs at h with hb hf hn hr ht hself hplain
  · cases h
  · cases h
  · cases h
  · cases h
  · cases h
  · cases h
  · rw [not_or] at hself
    exact ⟨hplain, hself⟩
  · cases h

/-- The escape of a text is the text where no character has one. -/
theorem escapedText_eq_iff (s : CStr) : escapedText s = s ↔ ∀ b ∈ s, Json.Plain b := by
  induction s with
  | nil => exact ⟨fun _ ↦ List.forall_mem_nil _, fun _ ↦ rfl⟩
  | cons b s ih =>
    rw [escapedText_cons, List.forall_mem_cons]
    constructor
    · intro h
      have hlength := congrArg List.length h
      have hone := one_le_length_escapedChar b
      have hle := le_jsonEscapedLen s
      rw [← length_escapedText] at hle
      rw [List.length_append, List.length_cons] at hlength
      have hplain : Json.Plain b := plain_of_length (by omega)
      rw [escapedChar_plain hplain, List.singleton_append, List.cons_inj_right] at h
      exact ⟨hplain, ih.mp h⟩
    · rintro ⟨hplain, hs⟩
      rw [escapedChar_plain hplain, ih.mpr hs]
      rfl

/-! ## Saying the same -/

namespace Datum

/-- What the converters write, the characters of a text escaped. -/
def Written (text : CStr) : Datum → Prop
  | .null => text = Json.nullText
  | .flag b => text = if b then Json.trueText else Json.falseText
  | .number lexeme => text = lexeme ∧ Json.number lexeme = some []
  | .text s => text = stringLiteral (escapedText s)

/-- A value in JSON and one in CBOR that a server takes for the same: the type in front of it tells
that a text spells a number or a flag. -/
def Same : Datum → Datum → Prop
  | .null, .null => True
  | .flag b, .text t => t = if b then Json.trueText else Json.falseText
  | .number lexeme, .text t => t = lexeme
  | .text s, .text t => t = s
  | _, _ => False

end Datum

/-- A member in JSON and one in CBOR that say the same. -/
def Field.Same : Field → Field → Prop
  | .text s, .text t => s = t
  | .count lexeme n, .count lexeme' n' => lexeme = lexeme' ∧ n = n'
  | .flag b, .flag c => b = c
  | .params ps, .params qs => List.Forall₂ (fun p q ↦ p.1 = q.1 ∧ p.2.Same q.2) ps qs
  | _, _ => False

/-- Two requests that say the same. -/
def SameFields (fs gs : List (String × Field)) : Prop :=
  List.Forall₂ (fun f g ↦ f.1 = g.1 ∧ f.2.Same g.2) fs gs

namespace CborStmt

/-- The converters write the values, and the indicator and the type tell which kind they are of. -/
structure Converted (s : CborStmt) (write : ℕ → WrittenValue) (data : ℕ → Datum) : Prop where
  written : ∀ i p, s.params[i]? = some p → (data i).Written (write i).text
  null : ∀ i p, s.params[i]? = some p → (p.isNull = true ↔ data i = .null)
  text : ∀ i p, s.params[i]? = some p → p.isNull = false →
    (skipQuote p.metaType = some true ↔ ∃ str, data i = .text str)

variable {s : CborStmt} {write : ℕ → WrittenValue} {data : ℕ → Datum} {tzParam zone : CStr}

/-- Without its quotation marks a literal is what stands between them. -/
theorem stringLiteral_inner (t : CStr) :
    ((stringLiteral t).drop 1).take ((stringLiteral t).length - 2) = t := by
  have hlength : (stringLiteral t).length - 2 = t.length := by
    simp [stringLiteral]
  have hdrop : (stringLiteral t).drop 1 = t ++ [Json.quote] := rfl
  rw [hlength, hdrop, List.take_left]

/-- What is neither null nor a text is sent as it is written. -/
theorem sent_written (h : s.Converted write data) {i : ℕ} {p : CborParam}
    (hp : s.params[i]? = some p) (hnull : data i ≠ .null) (htext : ∀ str, data i ≠ .text str) :
    s.sent write i = .text (write i).text := by
  have hsome : ¬p.isNull = true := fun hn ↦ hnull ((h.null i p hp).mp hn)
  have hskip : ¬skipQuote p.metaType = some true := by
    intro hk
    obtain ⟨str, hstr⟩ := (h.text i p hp (Bool.eq_false_iff.mpr hsome)).mp hk
    exact htext str hstr
  rw [sent, hp, Option.map_some, Option.getD_some, CborParam.sent, if_neg hsome, if_neg hskip]

/-- A text is sent with its escapes. -/
theorem sent_text (h : s.Converted write data) {i : ℕ} {p : CborParam}
    (hp : s.params[i]? = some p) {str : CStr} (hstr : data i = .text str) :
    s.sent write i = .text (escapedText str) := by
  have hwritten := h.written i p hp
  rw [hstr] at hwritten
  have hliteral : (write i).text = stringLiteral (escapedText str) := hwritten
  have hsome : ¬p.isNull = true := by
    intro hn
    have hnull := (h.null i p hp).mp hn
    rw [hstr] at hnull
    cases hnull
  have hskip := (h.text i p hp (Bool.eq_false_iff.mpr hsome)).mpr ⟨str, hstr⟩
  rw [sent, hp, Option.map_some, Option.getD_some, CborParam.sent, if_neg hsome, if_pos hskip,
    hliteral, stringLiteral_inner]

theorem sent_null (h : s.Converted write data) {i : ℕ} {p : CborParam}
    (hp : s.params[i]? = some p) (hnull : data i = .null) : s.sent write i = .null := by
  rw [sent, hp, Option.map_some, Option.getD_some, CborParam.sent,
    if_pos ((h.null i p hp).mpr hnull)]

/-- A value is sent as the same, but for a text with a character that is escaped. -/
theorem same_sent_iff (h : s.Converted write data) {i : ℕ} {p : CborParam}
    (hp : s.params[i]? = some p) : (data i).Same (s.sent write i) ↔
      ∀ str, data i = .text str → ∀ b ∈ str, Json.Plain b := by
  have hwritten := h.written i p hp
  cases hd : data i with
  | null =>
    rw [sent_null h hp hd]
    exact iff_of_true trivial fun str hstr ↦ by cases hstr
  | flag b =>
    rw [hd] at hwritten
    rw [sent_written h hp (by simp [hd]) (by simp [hd])]
    exact iff_of_true hwritten fun str hstr ↦ by cases hstr
  | number lexeme =>
    rw [hd] at hwritten
    rw [sent_written h hp (by simp [hd]) (by simp [hd])]
    exact iff_of_true hwritten.1 fun str hstr ↦ by cases hstr
  | text str =>
    rw [sent_text h hp hd]
    refine (escapedText_eq_iff str).trans ⟨fun hplain str' hstr ↦ ?_, fun hall ↦ hall str rfl⟩
    cases hstr
    exact hplain

/-- The parameters say the same where each of them does. -/
theorem same_paramData_iff (d d' : ℕ → Datum) (params : List Param) : ∀ i,
    List.Forall₂ (fun p q : CStr × Datum ↦ p.1 = q.1 ∧ p.2.Same q.2)
      (JsonStmt.paramData d i params) (JsonStmt.paramData d' i params) ↔
    ∀ j < params.length, (d (i + j)).Same (d' (i + j)) := by
  induction params with
  | nil =>
    intro i
    exact ⟨fun _ j hj ↦ absurd hj (Nat.not_lt_zero j), fun _ ↦ .nil⟩
  | cons p params ih =>
    intro i
    rw [JsonStmt.paramData, JsonStmt.paramData, List.forall₂_cons, ih (i + 1)]
    constructor
    · rintro ⟨⟨-, hfirst⟩, hrest⟩ j hj
      cases j with
      | zero => exact hfirst
      | succ j =>
        have hnext := hrest j (Nat.lt_of_succ_lt_succ hj)
        rw [Nat.add_right_comm] at hnext
        exact hnext
    · intro h
      refine ⟨⟨rfl, h 0 (Nat.zero_lt_succ _)⟩, fun j hj ↦ ?_⟩
      rw [Nat.add_right_comm]
      exact h (j + 1) (Nat.succ_lt_succ hj)

theorem zone_eq_iff (h : s.base.Unescaped tzParam zone) :
    zone = s.zone tzParam ↔ s.base.dbc.applyTz = false := by
  have htext := h.zoneText
  rw [CborStmt.zone]
  cases hz : s.base.dbc.applyTz with
  | false =>
    rw [hz] at htext
    have hutc : JsonStmt.jsonValTimezoneZ = stringLiteral (cstr "Z") := by decide
    rw [if_neg Bool.false_ne_true, hutc] at htext
    refine iff_of_true ?_ rfl
    have hinner := congrArg (fun t ↦ (t.drop 1).take (t.length - 2)) htext
    rw [stringLiteral_inner, stringLiteral_inner] at hinner
    exact hinner.symm
  | true =>
    rw [hz, if_pos rfl] at htext
    refine iff_of_false ?_ (by decide)
    intro hzone
    rw [if_pos rfl, htext] at hzone
    have hlength := congrArg List.length hzone
    simp only [stringLiteral, List.length_append, List.length_cons] at hlength
    omega

/-- What is written for the parameter of the query is the digit. -/
theorem converted_markerCbor :
    markerCbor.Converted JsonStmt.fiveWritten (fun _ ↦ .number (cstr "5")) := by
  have hexact : skipQuote .exactNumeric = some false := rfl
  refine ⟨fun i p _ ↦ ⟨rfl, by decide +kernel⟩, fun i p hp ↦ ?_, fun i p hp _ ↦ ?_⟩
  all_goals
    cases i with
    | zero => cases hp; simp [hexact]
    | succ i => cases hp

end CborStmt

end EsOdbc
